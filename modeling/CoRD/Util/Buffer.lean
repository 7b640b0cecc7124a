import Mathlib.Data.List.GetD
import CoRD.Field.Inverse

/-!
# Buffer — memory, redis strings and block files

Memory is what a pointer sees: a byte for every offset from it.  Writing past the end of an
allocation is not excluded by the type; every place where the code depends on its buffer sizes has
the range in its statement.

A string pushed to a redis list starts with a few `int`s, each taking four bytes, and goes on with
raw bytes.  Positions in it are byte positions, as in the source.
-/

namespace CoRD

/-- The bytes at and around an address. -/
abbrev Buf := Int → GF256

def zeros : Buf := fun _ => 0

/-- `memcpy(dst + pos, src, n)`. -/
def memcpy (dst : Buf) (pos : Int) (src : Buf) (n : Int) : Buf :=
  fun x => if pos ≤ x ∧ x < pos + n then src (x - pos) else dst x

/-- The pointer `b + off`. -/
def Buf.advance (b : Buf) (off : Int) : Buf :=
  fun x => b (off + x)

/-- The first `n` bytes of a buffer. -/
def bytesOf (src : Buf) (n : Int) : List GF256 :=
  (List.range n.toNat).map fun i : Nat => src (i : Int)

/-- A string in a redis list: its leading `int`s, then its bytes. -/
structure RedisStr where
  ints : List Int
  bytes : List GF256
  deriving DecidableEq, Repr

namespace RedisStr

/-- The `int` at byte position `pos`. -/
def int (s : RedisStr) (pos : Int) : Int :=
  s.ints.getD (pos / 4).toNat 0

/-- The bytes from byte position `pos` on. -/
def data (s : RedisStr) (pos : Int) : Buf :=
  fun x => s.bytes.getD (pos + x - 4 * s.ints.length).toNat 0

/-- `n` successive `int`s from byte position `cur` on. -/
def readInts (s : RedisStr) (cur : Int) (n : Nat) : List Int :=
  (List.range n).map fun j : Nat => s.int (cur + 4 * j)

/-- From byte position `cur` on the `int`s of `s` are `l`. -/
def At (s : RedisStr) (cur : Int) (l : List Int) : Prop :=
  ∃ l₀, s.ints = l₀ ++ l ∧ cur = 4 * l₀.length

end RedisStr

/-! ## Small facts -/

theorem memcpy_of_mem {dst src : Buf} {pos n x : Int} (h : pos ≤ x ∧ x < pos + n) :
    memcpy dst pos src n x = src (x - pos) :=
  if_pos h

theorem memcpy_of_not_mem {dst src : Buf} {pos n x : Int} (h : ¬ (pos ≤ x ∧ x < pos + n)) :
    memcpy dst pos src n x = dst x :=
  if_neg h

theorem memcpy_congr (dst : Buf) (pos : Int) {src src' : Buf} {n : Int}
    (h : ∀ x, 0 ≤ x → x < n → src x = src' x) : memcpy dst pos src n = memcpy dst pos src' n := by
  funext x
  by_cases hx : pos ≤ x ∧ x < pos + n
  · rw [memcpy_of_mem hx, memcpy_of_mem hx, h (x - pos) (by omega) (by omega)]
  · rw [memcpy_of_not_mem hx, memcpy_of_not_mem hx]

@[simp] theorem Buf.advance_apply (b : Buf) (off x : Int) : b.advance off x = b (off + x) := rfl

@[simp] theorem zeros_apply (x : Int) : zeros x = 0 := rfl

theorem bytesOf_congr {f g : Buf} {n : Int} (h : ∀ x, 0 ≤ x → x < n → f x = g x) :
    bytesOf f n = bytesOf g n := by
  refine List.map_congr_left fun i hi => ?_
  have hi' : i < n.toNat := List.mem_range.1 hi
  exact h i (by omega) (by omega)

@[simp] theorem length_bytesOf (f : Buf) (n : Int) : (bytesOf f n).length = n.toNat := by
  simp [bytesOf]

theorem getD_bytesOf {f : Buf} {n x : Int} (h0 : 0 ≤ x) (hx : x < n) :
    (bytesOf f n).getD x.toNat 0 = f x := by
  have hlt : x.toNat < n.toNat := by omega
  have hcast : ((x.toNat : Nat) : Int) = x := Int.toNat_of_nonneg h0
  simp [bytesOf, List.getD_eq_getElem?_getD, hlt, hcast]

/-- What a node reads behind the leading `int`s of a string is what was copied there. -/
theorem RedisStr.data_bytesOf {l : List Int} {f : Buf} {n pos x : Int}
    (hpos : pos = 4 * l.length) (h0 : 0 ≤ x) (hx : x < n) :
    (RedisStr.mk l (bytesOf f n)).data pos x = f x := by
  have hsub : pos + x - 4 * (l.length : Int) = x := by omega
  simp only [RedisStr.data, hsub]
  exact getD_bytesOf h0 hx

/-! ## Reading a command with a cursor -/

namespace RedisStr.At

variable {s : RedisStr} {cur : Int} {l : List Int}

theorem start (s : RedisStr) : s.At 0 s.ints :=
  ⟨[], rfl, rfl⟩

theorem int {x : Int} (h : s.At cur (x :: l)) : s.int cur = x := by
  rcases h with ⟨l₀, hs, hcur⟩
  have hidx : (cur / 4).toNat = l₀.length := by omega
  simp [RedisStr.int, hs, hidx]

theorem tail {x : Int} (h : s.At cur (x :: l)) : s.At (cur + 4) l := by
  rcases h with ⟨l₀, hs, hcur⟩
  refine ⟨l₀ ++ [x], by simp [hs], ?_⟩
  simp only [List.length_append, List.length_singleton, Nat.cast_add, Nat.cast_one]
  omega

theorem append {l₁ : List Int} (h : s.At cur (l₁ ++ l)) : s.At (cur + 4 * l₁.length) l := by
  rcases h with ⟨l₀, hs, hcur⟩
  refine ⟨l₀ ++ l₁, by simp [hs], ?_⟩
  simp only [List.length_append, Nat.cast_add]
  omega

theorem readInts {l₁ : List Int} (h : s.At cur (l₁ ++ l)) :
    s.readInts cur l₁.length = l₁ := by
  rcases h with ⟨l₀, hs, hcur⟩
  refine List.ext_getElem (by simp [RedisStr.readInts]) fun j hj hj' => ?_
  have hidx : ((cur + 4 * (j : Int)) / 4).toNat = l₀.length + j := by omega
  have hget : (l₀ ++ (l₁ ++ l))[l₀.length + j]? = some l₁[j] := by
    rw [List.getElem?_append_right (by omega), List.getElem?_append_left (by omega)]
    simp [hj']
  simp [RedisStr.readInts, RedisStr.int, hs, hidx, hget]

end RedisStr.At

/-- Two payloads are equal when they agree byte by byte. -/
theorem bytesOf_inj {f g : Buf} {n : Int} (h : bytesOf f n = bytesOf g n) {x : Int} (h0 : 0 ≤ x)
    (hx : x < n) : f x = g x := by
  have hf := getD_bytesOf (f := f) h0 hx
  rw [h, getD_bytesOf h0 hx] at hf
  exact hf.symm

end CoRD
