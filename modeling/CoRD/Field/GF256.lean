import Mathlib.Algebra.BigOperators.Fin
import Mathlib.Algebra.CharP.Two
import Mathlib.Algebra.Module.NatInt
import Mathlib.Tactic.Ring
import Mathlib.Tactic.Abel

/-!
# GF256 — the field the coding library computes in

Bytes are the elements of `GF(2)[x] / (x^8 + x^4 + x^3 + x^2 + 1)`: addition is xor, and
multiplication adds up the shifts of one factor selected by the bits of the other.
-/

/-- A byte, read as a polynomial of degree below eight over `GF(2)`. -/
structure GF256 where
  bits : BitVec 8
  deriving DecidableEq, Repr

namespace GF256

/-! ## Addition is xor -/

instance : Zero GF256 := ⟨⟨0#8⟩⟩
instance : One GF256 := ⟨⟨1#8⟩⟩
instance : Add GF256 := ⟨fun a b => ⟨a.bits ^^^ b.bits⟩⟩
instance : Neg GF256 := ⟨fun a => a⟩
instance : Inhabited GF256 := ⟨0⟩

@[ext] theorem ext {a b : GF256} (h : a.bits = b.bits) : a = b := by
  cases a
  cases b
  cases h
  rfl

@[simp] theorem bits_zero : (0 : GF256).bits = 0#8 := rfl
@[simp] theorem bits_add (a b : GF256) : (a + b).bits = a.bits ^^^ b.bits := rfl
@[simp] theorem neg_eq (a : GF256) : -a = a := rfl

instance : AddCommGroup GF256 where
  add_assoc a b c := by
    ext
    simp [BitVec.xor_assoc]
  zero_add a := by
    ext
    simp
  add_zero a := by
    ext
    simp
  neg_add_cancel a := by
    ext
    simp
  add_comm a b := by
    ext
    simp [BitVec.xor_comm]
  nsmul := nsmulRec
  zsmul := zsmulRec

/-! ## Multiplication by `x` -/

/-- Multiply by `x` and reduce by `x^8 + x^4 + x^3 + x^2 + 1`. -/
def xtime (a : GF256) : GF256 :=
  ⟨(a.bits <<< 1) ^^^ (if a.bits.msb then 0x1D#8 else 0#8)⟩

theorem xtime_add (a b : GF256) : xtime (a + b) = xtime a + xtime b := by
  ext1
  simp only [xtime, bits_add, BitVec.shiftLeft_xor_distrib, BitVec.msb_xor]
  have hself : ∀ c : BitVec 8, 0x1D#8 ^^^ (c ^^^ 0x1D#8) = c := by
    intro c
    rw [BitVec.xor_comm c, ← BitVec.xor_assoc, BitVec.xor_self, BitVec.zero_xor]
  cases a.bits.msb <;> cases b.bits.msb
  · simp
  · simp [BitVec.xor_assoc]
  · simp only [Bool.xor_false, if_true, Bool.false_eq_true, if_false, BitVec.xor_zero]
    ac_rfl
  · simp [BitVec.xor_assoc, hself]

/-- Multiplication by `x` as an additive map. -/
def shift : GF256 →+ GF256 where
  toFun := xtime
  map_zero' := by decide
  map_add' := xtime_add

/-- Multiplication by `x ^ n`. -/
def shiftN : Nat → GF256 →+ GF256
  | 0 => AddMonoidHom.id GF256
  | n + 1 => shift.comp (shiftN n)

theorem shiftN_add (m n : Nat) (a : GF256) : shiftN (m + n) a = shiftN m (shiftN n a) := by
  induction m with
  | zero =>
      simp [shiftN]
  | succ m ih =>
      rw [Nat.succ_add]
      simp [shiftN, ih]

/-- The coefficient of `x ^ i`. -/
def coeff (b : GF256) (i : Fin 8) : Bool :=
  b.bits.getLsbD i

@[simp] theorem coeff_add (a b : GF256) (i : Fin 8) :
    coeff (a + b) i = (coeff a i ^^ coeff b i) := by
  simp [coeff]

/-! ## Multiplication -/

instance : Mul GF256 :=
  ⟨fun a b => ∑ i : Fin 8, if coeff b i then shiftN i a else 0⟩

theorem mul_def (a b : GF256) :
    a * b = ∑ i : Fin 8, if coeff b i then shiftN i a else 0 := rfl

theorem add_self (a : GF256) : a + a = 0 := by
  ext
  simp

theorem add_mul' (a b c : GF256) : (a + b) * c = a * c + b * c := by
  simp only [mul_def, ← Finset.sum_add_distrib]
  refine Finset.sum_congr rfl fun i _ => ?_
  cases coeff c i <;> simp

theorem mul_add' (a b c : GF256) : a * (b + c) = a * b + a * c := by
  simp only [mul_def, ← Finset.sum_add_distrib]
  refine Finset.sum_congr rfl fun i _ => ?_
  cases hb : coeff b i <;> cases hc : coeff c i <;> simp [hb, hc, add_self]

theorem shiftN_mul (n : Nat) (a b : GF256) : shiftN n a * b = shiftN n (a * b) := by
  simp only [mul_def, map_sum]
  refine Finset.sum_congr rfl fun i _ => ?_
  cases coeff b i
  · simp
  · simp [← shiftN_add, Nat.add_comm]

theorem mul_one' (a : GF256) : a * 1 = a := by
  have h : ∀ i : Fin 8, coeff 1 i = decide (i = 0) := by decide
  simp [mul_def, h, shiftN]

theorem one_mul' (a : GF256) : 1 * a = a := by
  have h : ∀ b : BitVec 8, (1 : GF256) * ⟨b⟩ = ⟨b⟩ := by decide +kernel
  exact h a.bits

theorem eq_sum_shiftN (a : GF256) : a = ∑ i : Fin 8, if coeff a i then shiftN i 1 else 0 := by
  simpa only [mul_def] using (one_mul' a).symm

theorem zero_mul' (a : GF256) : 0 * a = 0 := by
  simp [mul_def]

theorem sum_mul' (f : Fin 8 → GF256) (b : GF256) : (∑ i, f i) * b = ∑ i, f i * b := by
  let φ : GF256 →+ GF256 :=
    { toFun := fun a => a * b
      map_zero' := zero_mul' b
      map_add' := fun a c => add_mul' a c b }
  exact map_sum φ f Finset.univ

theorem mul_comm' (a b : GF256) : a * b = b * a := by
  calc
    a * b = (∑ i : Fin 8, if coeff a i then shiftN i 1 else 0) * b := by
      rw [← eq_sum_shiftN a]
    _ = ∑ i : Fin 8, (if coeff a i then shiftN i 1 else 0) * b := sum_mul' _ b
    _ = ∑ i : Fin 8, if coeff a i then shiftN i b else 0 := by
      refine Finset.sum_congr rfl fun i _ => ?_
      cases coeff a i
      · simpa using zero_mul' b
      · simp [shiftN_mul, one_mul']
    _ = b * a := rfl

theorem mul_assoc' (a b c : GF256) : a * b * c = a * (b * c) := by
  have h : ∀ a b c : GF256, a * b * c = a * c * b := by
    intro a b c
    conv_lhs => rw [mul_def a b, sum_mul']
    rw [mul_def (a * c) b]
    refine Finset.sum_congr rfl fun i _ => ?_
    cases coeff b i
    · simpa using zero_mul' c
    · simpa using shiftN_mul i a c
  calc
    a * b * c = b * a * c := by rw [mul_comm' a b]
    _ = b * c * a := h b a c
    _ = a * (b * c) := mul_comm' _ _

instance : CommRing GF256 where
  left_distrib := mul_add'
  right_distrib := add_mul'
  zero_mul := zero_mul'
  mul_zero a := by rw [mul_comm', zero_mul']
  mul_assoc := mul_assoc'
  one_mul := one_mul'
  mul_one := mul_one'
  mul_comm := mul_comm'
  zsmul := zsmulRec
  neg_add_cancel := neg_add_cancel

/-- The field element an `int` coefficient of a coding matrix stands for: its low byte. -/
def ofInt (c : Int) : GF256 :=
  ⟨BitVec.ofInt 8 c⟩

@[simp] theorem ofInt_zero : ofInt 0 = 0 := rfl
@[simp] theorem ofInt_one : ofInt 1 = 1 := rfl

end GF256
