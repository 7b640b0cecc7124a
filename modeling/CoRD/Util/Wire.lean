import Mathlib.Data.List.TakeWhile
import Mathlib.Algebra.Order.Ring.Nat
import Mathlib.Tactic.Ring

/-!
# Wire — messages as bytes

Numbers are written with the low byte first.  A writer copies pieces into an array, at positions of
its own choice, and sends the first bytes of the array; a reader cuts pieces out of a message.

`Has` is what a writer knows about its array: a piece that is written is there, and it stays there
while other pieces are written beside it.  `At` is what a reader knows about its message: the bytes
from a position on, which it takes off one after the other.
-/

namespace Wire

abbrev Bytes := List UInt8

/-! ## Numbers -/

/-- The `n` low bytes of a number. -/
def le : Nat → Nat → Bytes
  | 0, _ => []
  | n + 1, x => UInt8.ofNat x :: le n (x / 256)

def ofLe : Bytes → Nat
  | [] => 0
  | b :: l => b.toNat + 256 * ofLe l

@[simp] theorem length_le (n x : Nat) : (le n x).length = n := by
  induction n generalizing x with
  | zero =>
      rfl
  | succ n ih =>
      exact congrArg (· + 1) (ih (x / 256))

/-- Only the high part that does not fit is lost. -/
theorem ofLe_le (n x : Nat) : ofLe (le n x) = x % 256 ^ n := by
  induction n generalizing x with
  | zero =>
      exact (Nat.mod_one x).symm
  | succ n ih =>
      have hbyte : (UInt8.ofNat x).toNat = x % 256 := UInt8.toNat_ofNat'
      calc
        ofLe (le (n + 1) x) = (UInt8.ofNat x).toNat + 256 * ofLe (le n (x / 256)) := rfl
        _ = x % 256 + 256 * (x / 256 % 256 ^ n) := by rw [hbyte, ih]
        _ = x % (256 * 256 ^ n) := Nat.mod_mul.symm
        _ = x % 256 ^ (n + 1) := by rw [pow_succ']

theorem ofLe_le_of_lt {n x : Nat} : x < 256 ^ n → ofLe (le n x) = x := by
  intro hx
  rw [ofLe_le, Nat.mod_eq_of_lt hx]

/-- A number is written as it was read. -/
theorem le_ofLe (l : Bytes) : le l.length (ofLe l) = l := by
  induction l with
  | nil =>
      rfl
  | cons b l ih =>
      have hlow : UInt8.ofNat (b.toNat + 256 * ofLe l) = b := by
        apply UInt8.toNat_inj.1
        rw [UInt8.toNat_ofNat', Nat.add_mul_mod_self_left, Nat.mod_eq_of_lt b.toNat_lt]
      have hhigh : (b.toNat + 256 * ofLe l) / 256 = ofLe l := by
        rw [Nat.add_mul_div_left _ _ (by decide), Nat.div_eq_of_lt b.toNat_lt, Nat.zero_add]
      rw [List.length_cons, ofLe, le, hlow, hhigh, ih]

/-- A zero is a cleared field. -/
theorem eq_zero_of_mem_le {n : Nat} {b : UInt8} : b ∈ le n 0 → b = 0 := by
  induction n with
  | zero =>
      intro hb
      cases hb
  | succ n ih =>
      intro hb
      cases hb with
      | head =>
          rfl
      | tail _ hb =>
          exact ih hb

/-! ## Writing -/

/-- The bytes of an array, by position. -/
abbrev Arr := Nat → UInt8

/-- `memcpy(buf + pos, l, |l|)`. -/
def copy (buf : Arr) (pos : Nat) (l : Bytes) : Arr :=
  fun x => if pos ≤ x ∧ x < pos + l.length then l.getD (x - pos) 0 else buf x

/-- The first `n` bytes, as they are sent. -/
def first (buf : Arr) (n : Nat) : Bytes :=
  (List.range n).map buf

/-- From `pos` on the array holds `l`. -/
def Has (buf : Arr) (pos : Nat) (l : Bytes) : Prop :=
  ∀ i (h : i < l.length), buf (pos + i) = l[i]

section Writing

variable {buf : Arr} {pos : Nat} {l : Bytes}

@[simp] theorem length_first (buf : Arr) (n : Nat) : (first buf n).length = n := by
  simp [first]

theorem has_copy (buf : Arr) (pos : Nat) (l : Bytes) : Has (copy buf pos l) pos l := by
  intro i hi
  have hin : pos ≤ pos + i ∧ pos + i < pos + l.length := by omega
  simp only [copy, if_pos hin, Nat.add_sub_cancel_left]
  simp [List.getD_eq_getElem?_getD, List.getElem?_eq_getElem hi]

/-- What stands beside a copied piece is kept. -/
theorem Has.copy {pos' : Nat} {l' : Bytes} (h : Has buf pos l) :
    pos + l.length ≤ pos' ∨ pos' + l'.length ≤ pos → Has (copy buf pos' l') pos l := by
  intro hbeside i hi
  have hout : ¬ (pos' ≤ pos + i ∧ pos + i < pos' + l'.length) := by omega
  rw [Wire.copy, if_neg hout]
  exact h i hi

theorem has_nil (buf : Arr) (pos : Nat) : Has buf pos [] := by
  intro i hi
  exact absurd hi (Nat.not_lt_zero i)

theorem Has.append {l' : Bytes} (h : Has buf pos l) :
    Has buf (pos + l.length) l' → Has buf pos (l ++ l') := by
  intro h' i hi
  by_cases hil : i < l.length
  · rw [List.getElem_append_left hil]
    exact h i hil
  · have hsum : pos + i = pos + l.length + (i - l.length) := by omega
    have hil' : i - l.length < l'.length := by
      rw [List.length_append] at hi
      omega
    rw [List.getElem_append_right (Nat.not_lt.1 hil), hsum]
    exact h' (i - l.length) hil'

/-- The writes of `pieces`, one after the other. -/
def copyAll (buf : Arr) (pieces : List (Nat × Bytes)) : Arr :=
  pieces.foldl (fun buf p => copy buf p.1 p.2) buf

/-- Each piece begins where the one before it ends. -/
def Tiles : Nat → List (Nat × Bytes) → Prop
  | _, [] => True
  | pos, p :: ps => p.1 = pos ∧ Tiles (pos + p.2.length) ps

theorem first_eq (h : Has buf 0 l) : first buf l.length = l := by
  apply List.ext_getElem
  · exact length_first buf l.length
  · intro i _ hi
    have hget := h i hi
    rw [Nat.zero_add] at hget
    simpa [first] using hget

theorem has_copyAll {pieces : List (Nat × Bytes)} (h : Has buf 0 l) :
    Tiles l.length pieces → Has (copyAll buf pieces) 0 (l ++ pieces.flatMap Prod.snd) := by
  intro htiles
  induction pieces generalizing buf l with
  | nil =>
      simpa [copyAll] using h
  | cons p ps ih =>
      obtain ⟨hpos, htiles⟩ := htiles
      have hp : Has (copy buf p.1 p.2) 0 (l ++ p.2) := by
        refine (h.copy (.inl (by omega))).append ?_
        rw [Nat.zero_add, hpos]
        exact has_copy buf _ _
      have hrest := ih hp (by rwa [List.length_append])
      rwa [List.append_assoc, ← List.flatMap_cons] at hrest

/-- What is sent is the pieces in their order. -/
theorem first_copyAll {pieces : List (Nat × Bytes)} (buf : Arr) :
    Tiles 0 pieces → first (copyAll buf pieces) (pieces.flatMap Prod.snd).length =
      pieces.flatMap Prod.snd := by
  intro htiles
  exact first_eq (has_copyAll (has_nil buf 0) htiles)

theorem tiles_append {pos : Nat} {ps ps' : List (Nat × Bytes)} :
    Tiles pos (ps ++ ps') ↔ Tiles pos ps ∧ Tiles (pos + (ps.flatMap Prod.snd).length) ps' := by
  induction ps generalizing pos with
  | nil =>
      simp [Tiles]
  | cons p ps ih =>
      simp only [List.cons_append, Tiles, ih, List.flatMap_cons, List.length_append,
        Nat.add_assoc, and_assoc]

/-- Two pieces that share no position. -/
def Beside (p q : Nat × Bytes) : Prop :=
  p.1 + p.2.length ≤ q.1 ∨ q.1 + q.2.length ≤ p.1

theorem Beside.shift {p q : Nat × Bytes} (d : Nat) (h : Beside p q) :
    Beside (d + p.1, p.2) (d + q.1, q.2) := by
  rcases h with hle | hle
  · refine .inl ?_
    simp only
    omega
  · refine .inr ?_
    simp only
    omega

theorem copy_comm {p q : Nat × Bytes} (buf : Arr) :
    Beside p q → copy (copy buf p.1 p.2) q.1 q.2 = copy (copy buf q.1 q.2) p.1 p.2 := by
  intro hbeside
  funext x
  by_cases hp : p.1 ≤ x ∧ x < p.1 + p.2.length
  · have hq : ¬ (q.1 ≤ x ∧ x < q.1 + q.2.length) := by
      rcases hbeside with hle | hle <;> omega
    simp only [copy, if_pos hp, if_neg hq]
  · simp only [copy, if_neg hp]

/-- A late write can be made early. -/
theorem copyAll_copy {q : Nat × Bytes} {ps : List (Nat × Bytes)} (buf : Arr) :
    (∀ p ∈ ps, Beside p q) →
      copy (copyAll buf ps) q.1 q.2 = copyAll (copy buf q.1 q.2) ps := by
  intro hbeside
  induction ps generalizing buf with
  | nil =>
      rfl
  | cons p ps ih =>
      have hrest := ih (copy buf p.1 p.2) fun p' hp' => hbeside p' (List.mem_cons_of_mem p hp')
      rw [copy_comm buf (hbeside p List.mem_cons_self)] at hrest
      exact hrest

/-- `memcpy(buf + pos, &x, 4)`, after which `pos` is behind the number. -/
def putWord (x : Nat) (st : Arr × Nat) : Arr × Nat :=
  (copy st.1 st.2 (le 4 x), st.2 + 4)

/-- The array begins with these numbers, and the next one goes behind them. -/
structure Written (st : Arr × Nat) (xs : List Nat) : Prop where
  has : Has st.1 0 (xs.flatMap (le 4))
  pos : st.2 = (xs.flatMap (le 4)).length

theorem written_nil (buf : Arr) : Written (buf, 0) [] where
  has := has_nil buf 0
  pos := rfl

theorem Written.putWord {st : Arr × Nat} {xs : List Nat} (h : Written st xs) (x : Nat) :
    Written (putWord x st) (xs ++ [x]) where
  has := by
    rw [List.flatMap_append, List.flatMap_singleton]
    refine (h.has.copy (.inl ?_)).append ?_
    · rw [Nat.zero_add, h.pos]
    · rw [Nat.zero_add, ← h.pos]
      exact has_copy st.1 st.2 (le 4 x)
  pos := by
    rw [List.flatMap_append, List.flatMap_singleton, List.length_append, ← h.pos, length_le]
    rfl

/-- A loop writes one number after the other. -/
theorem Written.foldl {β : Type} (f : β → Nat) (l : List β) {st : Arr × Nat} {xs : List Nat} :
    Written st xs → Written (l.foldl (fun st a => Wire.putWord (f a) st) st) (xs ++ l.map f) := by
  intro h
  induction l generalizing st xs with
  | nil =>
      simpa using h
  | cons a l ih =>
      have hrest := ih (h.putWord (f a))
      rwa [List.append_assoc, List.singleton_append] at hrest

/-- What stands at the beginning is sent first. -/
theorem take_first {n : Nat} (h : Has buf 0 l) : l.length ≤ n → (first buf n).take l.length = l := by
  intro hn
  rw [first, ← List.map_take, List.take_range, Nat.min_eq_left hn]
  exact first_eq h

end Writing

/-- A cleared array. -/
def zeros : Arr := fun _ => 0

/-- Zeros need not be written. -/
theorem copy_zeros {l : Bytes} (pos : Nat) : (∀ b ∈ l, b = 0) → copy zeros pos l = zeros := by
  intro hzero
  funext x
  by_cases hx : pos ≤ x ∧ x < pos + l.length
  · have hlt : x - pos < l.length := by omega
    have hget : l.getD (x - pos) 0 = l[x - pos] := by
      simp [List.getD_eq_getElem?_getD, List.getElem?_eq_getElem hlt]
    rw [copy, if_pos hx, hget]
    exact hzero _ (List.getElem_mem hlt)
  · exact if_neg hx

/-! ## Reading -/

/-- The number in the four bytes from `pos` on. -/
def word (s : Bytes) (pos : Nat) : Nat :=
  ofLe ((s.drop pos).take 4)

/-- `string(s + pos, n)`. -/
def str (s : Bytes) (pos n : Nat) : Bytes :=
  (s.drop pos).take n

/-- `string(s + pos)`: up to a zero; behind the message there always is one. -/
def cstr (s : Bytes) (pos : Nat) : Bytes :=
  (s.drop pos).takeWhile (· ≠ 0)

/-- From `pos` on the message is `l`. -/
def At (s : Bytes) (pos : Nat) (l : Bytes) : Prop :=
  s.drop pos = l

section Reading

variable {s : Bytes} {pos : Nat} {a l : Bytes}

theorem at_start (s : Bytes) : At s 0 s := rfl

theorem At.skip (h : At s pos (a ++ l)) : At s (pos + a.length) l := by
  rw [At, ← List.drop_drop, h, List.drop_left]

theorem At.str (h : At s pos (a ++ l)) : str s pos a.length = a := by
  rw [Wire.str, h, List.take_left]

theorem At.word {x : Nat} (h : At s pos (le 4 x ++ l)) : x < 256 ^ 4 → word s pos = x := by
  intro hx
  have htake : (le 4 x ++ l).take 4 = le 4 x := List.take_left' (length_le 4 x)
  rw [Wire.word, h, htake, ofLe_le_of_lt hx]

/-- A string without zeros at the end of the message. -/
theorem At.cstr (h : At s pos a) : (0 : UInt8) ∉ a → cstr s pos = a := by
  intro hzero
  rw [Wire.cstr, h, List.takeWhile_eq_self_iff]
  intro b hb
  exact decide_eq_true fun hb0 : b = 0 => hzero (hb0 ▸ hb)

theorem At.length (h : At s pos l) : pos ≤ s.length → pos + l.length = s.length := by
  intro hpos
  rw [← h, List.length_drop]
  omega

/-- The first number of what is sent. -/
theorem Written.word_first {buf : Arr} {n x : Nat} {xs : List Nat} (h : Written (buf, pos) (x :: xs))
    (hn : pos ≤ n) : x < 256 ^ 4 → word (first buf n) 0 = x := by
  intro hx
  have hlen : ((x :: xs).flatMap (le 4)).length ≤ n := h.pos ▸ hn
  have htake := take_first h.has hlen
  have hat : At (first buf n) 0 (le 4 x ++ (xs.flatMap (le 4) ++
      (first buf n).drop ((x :: xs).flatMap (le 4)).length)) := by
    rw [← List.append_assoc, ← List.flatMap_cons]
    calc
      first buf n = (first buf n).take ((x :: xs).flatMap (le 4)).length ++
          (first buf n).drop ((x :: xs).flatMap (le 4)).length :=
        (List.take_append_drop _ _).symm
      _ = (x :: xs).flatMap (le 4) ++ (first buf n).drop ((x :: xs).flatMap (le 4)).length := by
        rw [htake]
  exact hat.word hx

end Reading

/-! ## How far is read -/

/-- A reader, with the end of the last byte it has looked at. -/
abbrev Read := StateM Nat

def readWord (s : Bytes) (pos : Nat) : Read Nat := do
  modify (max · (pos + 4))
  return word s pos

def readStr (s : Bytes) (pos n : Nat) : Read Bytes := do
  modify (max · (pos + n))
  return str s pos n

/-- `n` numbers at once. -/
def readWords (s : Bytes) (pos n : Nat) : Read (List Nat) := do
  modify (max · (pos + 4 * n))
  return (List.range n).map fun j => word s (pos + 4 * j)

/-- The reader has looked at the bytes below `lo`, finds `x`, and has then looked at those below
`hi`. -/
def Reads {α : Type} (r : Read α) (lo : Nat) (x : α) (hi : Nat) : Prop :=
  r.run lo = (x, hi)

section Reads

variable {α β : Type} {s l a : Bytes} {pos lo mid hi x n : Nat} {y : β}

theorem reads_pure (x : α) (lo : Nat) : Reads (pure x) lo x lo := rfl

theorem Reads.bind {r : Read α} {f : α → Read β} {x : α} :
    Reads r lo x mid → Reads (f x) mid y hi → Reads (r >>= f) lo y hi := by
  intro hr hf
  rw [Reads, StateT.run_bind, hr]
  exact hf

/-- What is read by two readers, one after the other. -/
theorem reads_bind_iff {r : Read α} {f : α → Read β} :
    Reads (r >>= f) lo y hi ↔ ∃ x mid, Reads r lo x mid ∧ Reads (f x) mid y hi := by
  constructor
  · intro h
    exact ⟨(r.run lo).1, (r.run lo).2, rfl, h⟩
  · rintro ⟨x, mid, hr, hf⟩
    exact hr.bind hf

theorem Reads.word {x : Nat} (h : Reads (readWord s pos) lo x hi) : x = word s pos :=
  (congrArg Prod.fst h).symm

theorem Reads.words {xs : List Nat} (h : Reads (readWords s pos n) lo xs hi) : xs.length = n := by
  have hxs : xs = (List.range n).map fun j => Wire.word s (pos + 4 * j) :=
    (congrArg Prod.fst h).symm
  rw [hxs, List.length_map, List.length_range]

/-- The next number is read. -/
theorem At.readWord {f : Nat → Read β} (hat : At s pos (le 4 x ++ l)) (hx : x < 256 ^ 4) :
    (At s (pos + 4) l → Reads (f x) (pos + 4) y hi) →
      Reads (Wire.readWord s pos >>= f) pos y hi := by
  intro hf
  have hread : Reads (Wire.readWord s pos) pos x (pos + 4) := by
    show (Wire.word s pos, max pos (pos + 4)) = (x, pos + 4)
    rw [hat.word hx, max_eq_right (Nat.le_add_right pos 4)]
  exact hread.bind (hf hat.skip)

/-- The next string is read. -/
theorem At.readStr {f : Bytes → Read β} (hat : At s pos (a ++ l)) :
    (At s (pos + a.length) l → Reads (f a) (pos + a.length) y hi) →
      Reads (Wire.readStr s pos a.length >>= f) pos y hi := by
  intro hf
  have hread : Reads (Wire.readStr s pos a.length) pos a (pos + a.length) := by
    show (Wire.str s pos a.length, max pos (pos + a.length)) = (a, pos + a.length)
    rw [hat.str, max_eq_right (Nat.le_add_right pos a.length)]
  exact hread.bind (hf hat.skip)

theorem length_flatMap_le (xs : List Nat) : (xs.flatMap (le 4)).length = 4 * xs.length := by
  induction xs with
  | nil =>
      rfl
  | cons x xs ih =>
      rw [List.flatMap_cons, List.length_append, length_le, ih, List.length_cons]
      ring

theorem At.words {xs : List Nat} (hat : At s pos (xs.flatMap (le 4) ++ l)) :
    (∀ x ∈ xs, x < 256 ^ 4) →
      (List.range xs.length).map (fun j => Wire.word s (pos + 4 * j)) = xs := by
  intro hxs
  induction xs generalizing pos with
  | nil =>
      rfl
  | cons x xs ih =>
      rw [List.flatMap_cons, List.append_assoc] at hat
      have hskip : At s (pos + 4) (xs.flatMap (le 4) ++ l) := hat.skip
      have hrest := ih hskip fun x' hx' => hxs x' (List.mem_cons_of_mem x hx')
      have hnext : ∀ j, pos + 4 * (j + 1) = pos + 4 + 4 * j := by
        intro j
        ring
      rw [List.length_cons, List.range_succ_eq_map, List.map_cons, List.map_map]
      refine congrArg₂ _ (hat.word (hxs x List.mem_cons_self)) ?_
      simpa only [Function.comp_def, Nat.succ_eq_add_one, hnext] using hrest

/-- The next numbers are read. -/
theorem At.readWords {f : List Nat → Read β} {xs : List Nat}
    (hat : At s pos (xs.flatMap (le 4) ++ l)) (hxs : ∀ x ∈ xs, x < 256 ^ 4) :
    (At s (pos + 4 * xs.length) l → Reads (f xs) (pos + 4 * xs.length) y hi) →
      Reads (Wire.readWords s pos xs.length >>= f) pos y hi := by
  intro hf
  have hread : Reads (Wire.readWords s pos xs.length) pos xs (pos + 4 * xs.length) := by
    show ((List.range xs.length).map (fun j => Wire.word s (pos + 4 * j)),
      max pos (pos + 4 * xs.length)) = (xs, pos + 4 * xs.length)
    rw [At.words hat hxs, max_eq_right (Nat.le_add_right pos (4 * xs.length))]
  have hskip := hat.skip
  rw [length_flatMap_le] at hskip
  exact hread.bind (hf hskip)

end Reads

end Wire
