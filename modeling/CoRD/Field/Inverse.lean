import Mathlib.Algebra.CharP.Lemmas
import Mathlib.Algebra.Field.Defs
import Mathlib.Data.Nat.Prime.Basic
import CoRD.Field.GF256

/-!
# Inverse — every byte but zero has an inverse

Squaring is additive, so `a ^ 256 = a` holds for every byte once it holds for the powers of `x`.
Then `a ^ 255` is idempotent, and zero and one are the only idempotents.
-/

namespace GF256

/-- The polynomial `x`. -/
def x : GF256 :=
  shift 1

theorem shiftN_one (n : Nat) : shiftN n 1 = x ^ n := by
  induction n with
  | zero =>
      rfl
  | succ n ih =>
      have hstep : shiftN (n + 1) 1 = shift (shiftN n 1) := rfl
      have hmul : shift (shiftN n 1) = x * shiftN n 1 := by
        have h := shiftN_mul 1 1 (shiftN n 1)
        rw [one_mul] at h
        exact h.symm
      rw [hstep, hmul, ih, pow_succ']

instance : CharP GF256 2 :=
  CharTwo.of_one_ne_zero_of_two_eq_zero (by decide) (by
    have htwo : (2 : GF256) = 1 + 1 := by norm_num
    rw [htwo]
    exact add_self 1)

/-- One squaring on the way to `x ^ 256`. -/
theorem x_pow_double {n : Nat} {b c : BitVec 8} :
    x ^ n = ⟨b⟩ → (⟨b⟩ : GF256) * ⟨b⟩ = ⟨c⟩ → x ^ (n + n) = ⟨c⟩ := by
  intro hn hsq
  rw [pow_add, hn, hsq]

theorem x_pow_card : x ^ 256 = x := by
  have h1 : x ^ 1 = ⟨0x02#8⟩ := by decide
  have h2 : x ^ 2 = ⟨0x04#8⟩ := x_pow_double h1 (by decide)
  have h4 : x ^ 4 = ⟨0x10#8⟩ := x_pow_double h2 (by decide)
  have h8 : x ^ 8 = ⟨0x1D#8⟩ := x_pow_double h4 (by decide)
  have h16 : x ^ 16 = ⟨0x4C#8⟩ := x_pow_double h8 (by decide)
  have h32 : x ^ 32 = ⟨0x9D#8⟩ := x_pow_double h16 (by decide)
  have h64 : x ^ 64 = ⟨0x5F#8⟩ := x_pow_double h32 (by decide)
  have h128 : x ^ 128 = ⟨0x85#8⟩ := x_pow_double h64 (by decide)
  exact x_pow_double h128 (by decide)

/-- Fermat's equation: both sides are additive, and they agree on the powers of `x`. -/
theorem pow_card (a : GF256) : a ^ 256 = a := by
  let φ : GF256 →+* GF256 := iterateFrobenius GF256 2 8
  have hφ : ∀ b, φ b = b ^ 256 := fun _ => rfl
  have hsum : φ (∑ i : Fin 8, if coeff a i then shiftN i 1 else 0) =
      ∑ i : Fin 8, if coeff a i then shiftN i 1 else 0 := by
    rw [map_sum]
    refine Finset.sum_congr rfl fun i _ => ?_
    cases coeff a i with
    | false =>
        exact map_zero φ
    | true =>
        rw [if_pos rfl, hφ, shiftN_one, ← pow_mul, Nat.mul_comm, pow_mul, x_pow_card]
  rw [← eq_sum_shiftN a] at hsum
  rw [← hφ]
  exact hsum

theorem eq_zero_or_one_of_idempotent (e : GF256) : e * e = e → e = 0 ∨ e = 1 := by
  have h : ∀ b : BitVec 8, (⟨b⟩ : GF256) * ⟨b⟩ = ⟨b⟩ → b = 0#8 ∨ b = 1#8 := by decide +kernel
  intro he
  rcases h e.bits he with h0 | h1
  · exact Or.inl (ext h0)
  · exact Or.inr (ext h1)

theorem pow_order {a : GF256} : a ≠ 0 → a ^ 255 = 1 := by
  intro ha
  have hmul : a ^ 255 * a = a := by
    rw [← pow_succ]
    exact pow_card a
  have hidem : a ^ 255 * a ^ 255 = a ^ 255 := by
    calc
      a ^ 255 * a ^ 255 = a ^ 254 * a ^ 256 := by ring
      _ = a ^ 254 * a := by rw [pow_card]
      _ = a ^ 255 := (pow_succ a 254).symm
  rcases eq_zero_or_one_of_idempotent _ hidem with h0 | h1
  · rw [h0, zero_mul] at hmul
    exact absurd hmul.symm ha
  · exact h1

instance : Field GF256 where
  inv a := a ^ 254
  exists_pair_ne := ⟨0, 1, by decide⟩
  mul_inv_cancel a ha := by
    rw [← pow_succ']
    exact pow_order ha
  inv_zero := zero_pow (by decide)
  nnqsmul := _
  qsmul := _

end GF256
