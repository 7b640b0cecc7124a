import Mathlib.Data.Matrix.Mul
import Mathlib.LinearAlgebra.LinearIndependent.Defs

/-!
# Code — linear codes given by their rows

The blocks of a stripe are linear combinations of `k` data words; block `i` has the coefficients
`row i`.  Whatever combines some rows to another row combines the contents of these blocks to the
content of the other, so decoding is a question about rows alone.
-/

namespace LinCode

variable {K ι : Type} [Field K] [Fintype ι] {k : Nat}

/-- The content of the block with coefficients `r` over the data words `d`. -/
def word (d r : Fin k → K) : K :=
  ∑ j, r j * d j

/-- Any `k` different rows among the first `n` are independent. -/
def AnyRowsIndependent (n : Nat) (row : Nat → Fin k → K) : Prop :=
  ∀ s : Fin k → Nat, (∀ t, s t < n) → Function.Injective s →
    LinearIndependent K fun t => row (s t)

/-- The combination of the rows `rs` with coefficients `c` is `r`. -/
def Combines (c : ι → K) (rs : ι → Fin k → K) (r : Fin k → K) : Prop :=
  ∀ j, ∑ t, c t * rs t j = r j

theorem Combines.word_eq {c : ι → K} {rs : ι → Fin k → K} {r : Fin k → K} (d : Fin k → K) :
    Combines c rs r → ∑ t, c t * word d (rs t) = word d r := by
  intro h
  calc
    ∑ t, c t * word d (rs t) = ∑ t, ∑ j, c t * rs t j * d j := by
      simp only [word, Finset.mul_sum, mul_assoc]
    _ = ∑ j, ∑ t, c t * rs t j * d j := Finset.sum_comm
    _ = ∑ j, r j * d j := by
      refine Finset.sum_congr rfl fun j _ => ?_
      rw [← Finset.sum_mul, h j]
    _ = word d r := rfl

/-- The coefficients are found by multiplying with a left inverse of the rows. -/
theorem combines_vecMul {D E : Matrix (Fin k) (Fin k) K} (r : Fin k → K) :
    D * E = 1 → Combines (Matrix.vecMul r D) E r := by
  intro h j
  have hvec : Matrix.vecMul (Matrix.vecMul r D) E = r := by
    rw [Matrix.vecMul_vecMul, h, Matrix.vecMul_one]
  exact congrFun hvec j

end LinCode
