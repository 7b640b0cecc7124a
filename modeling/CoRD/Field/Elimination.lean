import Mathlib.LinearAlgebra.Matrix.Block
import Mathlib.LinearAlgebra.Matrix.NonsingularInverse
import Mathlib.LinearAlgebra.Matrix.Swap
import Mathlib.LinearAlgebra.Matrix.Transvection

/-!
# Elimination — Gauss-Jordan on a pair of matrices

Row operations are left factors that are units.  Both matrices of a pair get the same factors, so
when the first has become the identity the second is the product of all factors.  The first pass
makes the first matrix unit upper triangular column by column, the second clears what is above the
diagonal, last column first.
-/

namespace Elimination

variable {K : Type} [Field K] {n : Nat}

/-! ## Row operations -/

/-- The second pair comes from the first by one invertible left factor. -/
def RowEquiv (p q : Matrix (Fin n) (Fin n) K × Matrix (Fin n) (Fin n) K) : Prop :=
  ∃ P, IsUnit P ∧ q.1 = P * p.1 ∧ q.2 = P * p.2

theorem RowEquiv.refl (p : Matrix (Fin n) (Fin n) K × Matrix (Fin n) (Fin n) K) : RowEquiv p p :=
  ⟨1, isUnit_one, (one_mul _).symm, (one_mul _).symm⟩

theorem RowEquiv.trans {p q r : Matrix (Fin n) (Fin n) K × Matrix (Fin n) (Fin n) K} :
    RowEquiv p q → RowEquiv q r → RowEquiv p r := by
  rintro ⟨P, hP, h1, h2⟩ ⟨Q, hQ, g1, g2⟩
  refine ⟨Q * P, hQ.mul hP, ?_, ?_⟩
  · rw [g1, h1, mul_assoc]
  · rw [g2, h2, mul_assoc]

/-- Multiply row `i` by `c`. -/
def scaleRow (i : Fin n) (c : K) : Matrix (Fin n) (Fin n) K :=
  Matrix.diagonal (Function.update 1 i c)

theorem scaleRow_mul_apply (i r s : Fin n) (c : K) (A : Matrix (Fin n) (Fin n) K) :
    (scaleRow i c * A) r s = if r = i then c * A r s else A r s := by
  rw [scaleRow, Matrix.diagonal_mul]
  by_cases h : r = i
  · rw [if_pos h, h, Function.update_self]
  · rw [if_neg h, Function.update_of_ne h, Pi.one_apply, one_mul]

theorem swap_mul_apply (i j r s : Fin n) (A : Matrix (Fin n) (Fin n) K) :
    (Matrix.swap K i j * A) r s = if r = i then A j s else if r = j then A i s else A r s := by
  by_cases hi : r = i
  · rw [if_pos hi, hi, Matrix.swap_mul_apply_left]
  · by_cases hj : r = j
    · rw [if_neg hi, if_pos hj, hj, Matrix.swap_mul_apply_right]
    · rw [if_neg hi, if_neg hj, Matrix.swap_mul_of_ne hi hj]

theorem transvection_mul_apply (i j r s : Fin n) (c : K) (A : Matrix (Fin n) (Fin n) K) :
    (Matrix.transvection i j c * A) r s = if r = i then A r s + c * A j s else A r s := by
  by_cases h : r = i
  · rw [if_pos h, h, Matrix.transvection_mul_apply_same]
  · rw [if_neg h, Matrix.transvection_mul_apply_of_ne _ _ _ _ h]

theorem isUnit_swap (i j : Fin n) : IsUnit (Matrix.swap K i j) :=
  IsUnit.of_mul_eq_one _ (Matrix.swap_mul_self i j)

theorem isUnit_scaleRow (i : Fin n) {c : K} : c ≠ 0 → IsUnit (scaleRow i c) := by
  intro hc
  apply IsUnit.of_mul_eq_one (scaleRow i c⁻¹)
  ext r s
  rw [scaleRow_mul_apply]
  by_cases h : r = i
  · rw [if_pos h, scaleRow, Matrix.diagonal_apply, Matrix.one_apply, h, Function.update_self,
      mul_ite, mul_inv_cancel₀ hc, mul_zero]
  · rw [if_neg h, scaleRow, Matrix.diagonal_apply, Matrix.one_apply, Function.update_of_ne h,
      Pi.one_apply]

theorem isUnit_transvection {i j : Fin n} (c : K) :
    i ≠ j → IsUnit (Matrix.transvection i j c) := by
  intro h
  rw [Matrix.isUnit_iff_isUnit_det, Matrix.det_transvection_of_ne i j h]
  exact isUnit_one

/-! ## Upper triangular -/

/-- The columns below `i` are those of a unit upper triangular matrix. -/
def Upper (i : Nat) (A : Matrix (Fin n) (Fin n) K) : Prop :=
  ∀ c : Fin n, c.val < i → A c c = 1 ∧ ∀ r, c < r → A r c = 0

/-- On the way through column `i`: the pivot is one, and the rows from `i + 1` up to `j` are
cleared. -/
structure Clearing (i : Fin n) (j : Nat) (A : Matrix (Fin n) (Fin n) K) : Prop where
  upper : Upper i A
  pivot : A i i = 1
  cleared : ∀ r, i < r → r.val < j → A r i = 0

variable {A : Matrix (Fin n) (Fin n) K} {i j : Fin n}

theorem Upper.zero (A : Matrix (Fin n) (Fin n) K) : Upper 0 A :=
  fun _ hc => absurd hc (Nat.not_lt_zero _)

theorem Upper.swap (h : Upper i A) (hij : i ≤ j) : Upper i (Matrix.swap K i j * A) := by
  intro c hc
  obtain ⟨hdiag, hbelow⟩ := h c hc
  have hci : c < i := hc
  have hcj : c < j := lt_of_lt_of_le hci hij
  refine ⟨?_, ?_⟩
  · rw [swap_mul_apply, if_neg hci.ne, if_neg hcj.ne, hdiag]
  · intro r hr
    rw [swap_mul_apply, hbelow j hcj, hbelow i hci, hbelow r hr, ite_self, ite_self]

theorem Upper.scale (h : Upper i A) (hpivot : A i i ≠ 0) :
    Clearing i (i + 1) (scaleRow i (A i i)⁻¹ * A) where
  upper := by
    intro c hc
    obtain ⟨hdiag, hbelow⟩ := h c hc
    have hci : c < i := hc
    refine ⟨?_, ?_⟩
    · rw [scaleRow_mul_apply, if_neg hci.ne, hdiag]
    · intro r hr
      rw [scaleRow_mul_apply, hbelow r hr, mul_zero, ite_self]
  pivot := by rw [scaleRow_mul_apply, if_pos rfl, inv_mul_cancel₀ hpivot]
  cleared r hr hlt := absurd hlt (by omega)

theorem Clearing.add (h : Clearing i j A) (hij : i < j) :
    Clearing i (j + 1) (Matrix.transvection j i (-A j i) * A) where
  upper := by
    intro c hc
    obtain ⟨hdiag, hbelow⟩ := h.upper c hc
    have hci : c < i := hc
    have hcj : c ≠ j := (lt_trans hci hij).ne
    refine ⟨?_, ?_⟩
    · rw [transvection_mul_apply, if_neg hcj, hdiag]
    · intro r hr
      rw [transvection_mul_apply, hbelow r hr, hbelow i hci, mul_zero, add_zero, ite_self]
  pivot := by rw [transvection_mul_apply, if_neg hij.ne, h.pivot]
  cleared r hr hlt := by
    rw [transvection_mul_apply]
    by_cases hrj : r = j
    · rw [if_pos hrj, h.pivot, mul_one, hrj, add_neg_cancel]
    · have hval : r.val ≠ j.val := fun heq => hrj (Fin.ext heq)
      rw [if_neg hrj]
      exact h.cleared r hr (by omega)

/-- A row that has a zero in the column already may be skipped. -/
theorem Clearing.skip (h : Clearing i j A) (hzero : A j i = 0) : Clearing i (j + 1) A where
  upper := h.upper
  pivot := h.pivot
  cleared r hr hlt := by
    by_cases hrj : r = j
    · rw [hrj, hzero]
    · have hval : r.val ≠ j.val := fun heq => hrj (Fin.ext heq)
      exact h.cleared r hr (by omega)

theorem Clearing.done (h : Clearing i n A) : Upper (i + 1) A := by
  intro c hc
  by_cases hci : c = i
  · subst hci
    exact ⟨h.pivot, fun r hr => h.cleared r hr r.isLt⟩
  · have hval : c.val ≠ i.val := fun heq => hci (Fin.ext heq)
    exact h.upper c (by omega)

/-- Without a pivot the matrix is singular: its rows from `i` on vanish in the columns up to `i`. -/
theorem Upper.not_isUnit (h : Upper i A) (hzero : ∀ r, i ≤ r → A r i = 0) : ¬ IsUnit A := by
  intro hunit
  have hblock : ∀ r, ¬ r < i → ∀ c, c < i → A r c = 0 := by
    intro r hr c hc
    exact (h c hc).2 r (lt_of_lt_of_le hc (not_lt.1 hr))
  have hdet : A.det = 0 := by
    rw [Matrix.twoBlockTriangular_det A (· < i) hblock]
    have hcol : (A.toSquareBlockProp fun r => ¬ r < i).det = 0 := by
      apply Matrix.det_eq_zero_of_column_eq_zero ⟨i, lt_irrefl i⟩
      intro r
      exact hzero r (not_lt.1 r.2)
    rw [hcol, mul_zero]
  rw [Matrix.isUnit_iff_isUnit_det, hdet] at hunit
  exact not_isUnit_zero hunit

/-! ## Back substitution -/

/-- Unit upper triangular; the columns behind `i` are cleared, and column `i` in the rows below
`j`. -/
structure ClearingAbove (i : Fin n) (j : Nat) (A : Matrix (Fin n) (Fin n) K) : Prop where
  upper : Upper n A
  columns : ∀ c, i < c → ∀ r, r < c → A r c = 0
  rows : ∀ r, r < i → r.val < j → A r i = 0

/-- With the columns behind `i` cleared, row `i` is the unit row. -/
theorem ClearingAbove.row (h : ClearingAbove i j A) (c : Fin n) :
    A i c = if i = c then 1 else 0 := by
  rcases lt_trichotomy i c with hlt | heq | hgt
  · rw [if_neg hlt.ne, h.columns c hlt i hlt]
  · rw [if_pos heq, ← heq, (h.upper i i.isLt).1]
  · rw [if_neg hgt.ne', (h.upper c c.isLt).2 i hgt]

/-- Then adding a multiple of row `i` changes one entry only. -/
theorem ClearingAbove.add_apply (h : ClearingAbove i j A) (r c : Fin n) :
    (Matrix.transvection j i (-A j i) * A) r c = if r = j ∧ c = i then 0 else A r c := by
  rw [transvection_mul_apply, h.row]
  by_cases hrj : r = j
  · by_cases hci : c = i
    · rw [if_pos hrj, if_pos hci.symm, if_pos ⟨hrj, hci⟩, hrj, hci, mul_one, add_neg_cancel]
    · rw [if_pos hrj, if_neg (Ne.symm hci), if_neg fun hc => hci hc.2, mul_zero, add_zero]
  · rw [if_neg hrj, if_neg fun hc => hrj hc.1]

theorem ClearingAbove.add (h : ClearingAbove i j A) (hji : j < i) :
    ClearingAbove i (j + 1) (Matrix.transvection j i (-A j i) * A) where
  upper := by
    intro c hc
    obtain ⟨hdiag, hbelow⟩ := h.upper c hc
    refine ⟨?_, ?_⟩
    · rw [h.add_apply, if_neg, hdiag]
      rintro ⟨hcj, hci⟩
      exact hji.ne (hcj.symm.trans hci)
    · intro r hr
      rw [h.add_apply, hbelow r hr, ite_self]
  columns c hc r hr := by rw [h.add_apply, h.columns c hc r hr, ite_self]
  rows r hr hlt := by
    rw [h.add_apply]
    by_cases hrj : r = j
    · rw [if_pos ⟨hrj, rfl⟩]
    · have hval : r.val ≠ j.val := fun heq => hrj (Fin.ext heq)
      rw [if_neg fun hc => hrj hc.1]
      exact h.rows r hr (by omega)

theorem ClearingAbove.skip (h : ClearingAbove i j A) (hzero : A j i = 0) :
    ClearingAbove i (j + 1) A where
  upper := h.upper
  columns := h.columns
  rows r hr hlt := by
    by_cases hrj : r = j
    · rw [hrj, hzero]
    · have hval : r.val ≠ j.val := fun heq => hrj (Fin.ext heq)
      exact h.rows r hr (by omega)

/-! ## The inverse -/

/-- Unit upper triangular, with the columns from `m` on cleared above the diagonal. -/
def Reduced (m : Nat) (A : Matrix (Fin n) (Fin n) K) : Prop :=
  Upper n A ∧ ∀ c : Fin n, m ≤ c.val → ∀ r, r < c → A r c = 0

theorem Upper.reduced (h : Upper n A) : Reduced n A :=
  ⟨h, fun c hc => absurd c.isLt (by omega)⟩

theorem Reduced.start (h : Reduced (i + 1) A) : ClearingAbove i 0 A where
  upper := h.1
  columns c hc r hr := h.2 c (by omega) r hr
  rows r _ hlt := absurd hlt (Nat.not_lt_zero _)

theorem ClearingAbove.done (h : ClearingAbove i i A) : Reduced i A := by
  refine ⟨h.upper, ?_⟩
  intro c hc r hr
  by_cases hci : c = i
  · subst hci
    exact h.rows r hr hr
  · have hval : c.val ≠ i.val := fun heq => hci (Fin.ext heq)
    exact h.columns c (by omega) r hr

theorem Reduced.eq_one (h : Reduced 0 A) : A = 1 := by
  ext r c
  rw [Matrix.one_apply]
  rcases lt_trichotomy r c with hlt | heq | hgt
  · rw [if_neg hlt.ne, h.2 c (Nat.zero_le _) r hlt]
  · rw [if_pos heq, ← heq, (h.1 r r.isLt).1]
  · rw [if_neg hgt.ne', (h.1 c c.isLt).2 r hgt]

/-- When the identity next to `A` has become `B` while `A` became the identity, `B` is the
inverse. -/
theorem RowEquiv.inverse {B : Matrix (Fin n) (Fin n) K} :
    RowEquiv (A, 1) (1, B) → B * A = 1 := by
  rintro ⟨P, -, h1, h2⟩
  have hone : 1 = P * A := h1
  have hB : B = P * 1 := h2
  rw [hB, mul_one, ← hone]

theorem RowEquiv.isUnit_iff {p q : Matrix (Fin n) (Fin n) K × Matrix (Fin n) (Fin n) K} :
    RowEquiv p q → (IsUnit q.1 ↔ IsUnit p.1) := by
  rintro ⟨P, hP, h1, -⟩
  rw [h1]
  exact hP.mul_left_iff

end Elimination
