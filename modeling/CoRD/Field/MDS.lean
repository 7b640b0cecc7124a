import CoRD.Field.Code
import Mathlib.LinearAlgebra.Matrix.NonsingularInverse
import Mathlib.LinearAlgebra.Vandermonde

/-!
# MDS — keeping any `k` rows independent

The rows of a Vandermonde matrix, with one row for the point at infinity, are independent whenever
`k` of them are taken.  Moving rows around, scaling rows, and the same invertible right factor for
all rows keep that, so a code may be brought to systematic form column by column.
-/

namespace LinCode

variable {K : Type} [Field K] {k : Nat}

/-! ## Equivalent codes -/

/-- The first `n` rows of `row'` are those of `row` in some order, each scaled, all with one
invertible right factor. -/
def CodeEquiv (n : Nat) (row row' : Nat → Fin k → K) : Prop :=
  ∃ (σ : Nat → Nat) (d : Nat → K) (Q : Matrix (Fin k) (Fin k) K),
    (∀ t < n, σ t < n) ∧ Set.InjOn σ {t | t < n} ∧ (∀ t < n, d t ≠ 0) ∧ IsUnit Q ∧
      ∀ t < n, row' t = d t • Matrix.vecMul (row (σ t)) Q

variable {n : Nat} {row row' row'' : Nat → Fin k → K}

theorem CodeEquiv.refl (n : Nat) (row : Nat → Fin k → K) : CodeEquiv n row row :=
  ⟨id, fun _ => 1, 1, fun _ ht => ht, Set.injOn_id _, fun _ _ => one_ne_zero, isUnit_one,
    fun t _ => by rw [Matrix.vecMul_one, one_smul, id]⟩

theorem CodeEquiv.trans :
    CodeEquiv n row row' → CodeEquiv n row' row'' → CodeEquiv n row row'' := by
  rintro ⟨σ, d, Q, hσ, hinj, hd, hQ, hrow⟩ ⟨σ', d', Q', hσ', hinj', hd', hQ', hrow'⟩
  refine ⟨σ ∘ σ', fun t => d' t * d (σ' t), Q * Q', fun t ht => hσ _ (hσ' t ht), ?_,
    fun t ht => mul_ne_zero (hd' t ht) (hd _ (hσ' t ht)), hQ.mul hQ', ?_⟩
  · exact hinj.comp hinj' hσ'
  · intro t ht
    rw [hrow' t ht, hrow _ (hσ' t ht), Matrix.smul_vecMul, smul_smul, Matrix.vecMul_vecMul]
    rfl

/-- Independence of any `k` rows is a property of the code. -/
theorem AnyRowsIndependent.of_equiv (h : AnyRowsIndependent n row) :
    CodeEquiv n row row' → AnyRowsIndependent n row' := by
  rintro ⟨σ, d, Q, hσ, hinj, hd, hQ, hrow⟩ s hs hsinj
  have hrows : LinearIndependent K fun t => row (σ (s t)) := by
    apply h (fun t => σ (s t)) fun t => hσ _ (hs t)
    intro t t' heq
    exact hsinj (hinj (hs t) (hs t') heq)
  -- the right factor first, then the scaling
  have hright : LinearIndependent K fun t => Matrix.vecMul (row (σ (s t))) Q := by
    have hunit : IsUnit (Matrix.of fun t => row (σ (s t))) :=
      Matrix.linearIndependent_rows_iff_isUnit.1 hrows
    exact Matrix.linearIndependent_rows_iff_isUnit.2 (hunit.mul hQ)
  have hscaled := hright.units_smul fun t => Units.mk0 (d (s t)) (hd _ (hs t))
  have hsame : (fun t => row' (s t)) =
      (fun t => Units.mk0 (d (s t)) (hd _ (hs t))) • fun t => Matrix.vecMul (row (σ (s t))) Q := by
    funext t
    exact hrow _ (hs t)
  rw [hsame]
  exact hscaled

/-- The rows in another order. -/
theorem CodeEquiv.of_perm {σ : Nat → Nat} (hσ : ∀ t < n, σ t < n)
    (hinj : Set.InjOn σ {t | t < n}) (hrow : ∀ t < n, row' t = row (σ t)) :
    CodeEquiv n row row' :=
  ⟨σ, fun _ => 1, 1, hσ, hinj, fun _ _ => one_ne_zero, isUnit_one,
    fun t ht => by rw [hrow t ht, Matrix.vecMul_one, one_smul]⟩

/-- Scaled rows with a right factor. -/
theorem CodeEquiv.of_mul {d : Nat → K} {Q : Matrix (Fin k) (Fin k) K} (hd : ∀ t < n, d t ≠ 0)
    (hQ : IsUnit Q) (hrow : ∀ t < n, row' t = d t • Matrix.vecMul (row t) Q) :
    CodeEquiv n row row' :=
  ⟨id, d, Q, fun _ ht => ht, Set.injOn_id _, hd, hQ, hrow⟩

/-! ## Entries -/

/-- Row `i` of the identity. -/
def unitRow (i : Nat) : Fin k → K :=
  fun j => if i = j then 1 else 0

/-- A column of zeros makes `k` rows dependent. -/
theorem not_linearIndependent_of_column {rows : Fin k → Fin k → K} {c : Fin k}
    (hcol : ∀ t, rows t c = 0) : ¬ LinearIndependent K rows := by
  intro hindep
  have hunit : IsUnit (Matrix.of rows) := Matrix.linearIndependent_rows_iff_isUnit.1 hindep
  have hdet : (Matrix.of rows).det = 0 := Matrix.det_eq_zero_of_column_eq_zero c hcol
  rw [Matrix.isUnit_iff_isUnit_det, hdet] at hunit
  exact not_isUnit_zero hunit

/-- No column vanishes in the first `k` rows. -/
theorem AnyRowsIndependent.exists_ne_zero (h : AnyRowsIndependent n row) (hk : k ≤ n)
    (c : Fin k) : ∃ r < k, row r c ≠ 0 := by
  by_contra hnone
  push Not at hnone
  have hindep := h (fun t => t) (fun t => lt_of_lt_of_le t.isLt hk) Fin.val_injective
  exact not_linearIndependent_of_column (fun t => hnone t t.isLt) hindep

/-- In a systematic code the other rows have no zero: the unit rows but one, and this row, are
independent. -/
theorem AnyRowsIndependent.entry_ne_zero (h : AnyRowsIndependent n row)
    (hunit : ∀ t < k, row t = unitRow t) {r : Nat} (hr : k ≤ r) (hrn : r < n) (c : Fin k) :
    row r c ≠ 0 := by
  intro hzero
  let s : Fin k → Nat := fun t => if t = c then r else t
  have hs : ∀ t, s t < n := by
    intro t
    simp only [s]
    by_cases htc : t = c
    · rwa [if_pos htc]
    · rw [if_neg htc]
      omega
  have hinj : Function.Injective s := by
    intro t t' heq
    simp only [s] at heq
    by_cases htc : t = c
    · by_cases htc' : t' = c
      · rw [htc, htc']
      · rw [if_pos htc, if_neg htc'] at heq
        omega
    · by_cases htc' : t' = c
      · rw [if_neg htc, if_pos htc'] at heq
        omega
      · rw [if_neg htc, if_neg htc'] at heq
        exact Fin.ext heq
  have hcol : ∀ t, row (s t) c = 0 := by
    intro t
    simp only [s]
    by_cases htc : t = c
    · rw [if_pos htc, hzero]
    · rw [if_neg htc, hunit t t.isLt, unitRow, if_neg fun heq => htc (Fin.ext heq)]
  exact not_linearIndependent_of_column hcol (h s hs hinj)

/-! ## The extended Vandermonde matrix -/

/-- Row `i` has the powers of the point `x i`; the last of the `n` rows stands for infinity. -/
def extVandermonde (x : Nat → K) (n : Nat) (i : Nat) : Fin k → K :=
  fun j => if i + 1 = n then (if j.val + 1 = k then 1 else 0) else x i ^ j.val

theorem extVandermonde_independent {x : Nat → K}
    (hx : ∀ i j, i + 1 < n → j + 1 < n → x i = x j → i = j) :
    AnyRowsIndependent n (extVandermonde (k := k) x n) := by
  intro s hs hinj
  -- homogeneous coordinates of the points: infinity is `(1, 0)`
  let v : Fin k → K := fun t => if s t + 1 = n then 1 else x (s t)
  let w : Fin k → K := fun t => if s t + 1 = n then 0 else 1
  have hrows : (Matrix.of fun t => extVandermonde x n (s t)) = Matrix.projVandermonde v w := by
    refine Matrix.ext fun t j => ?_
    rw [Matrix.of_apply, extVandermonde, Matrix.projVandermonde_apply]
    by_cases hlast : s t + 1 = n
    · simp only [v, w, if_pos hlast, one_pow, one_mul]
      by_cases hj : j.val + 1 = k
      · have hrev : j.rev.val = 0 := by
          rw [Fin.val_rev]
          omega
        rw [if_pos hj, hrev, pow_zero]
      · have hrev : j.rev.val ≠ 0 := by
          rw [Fin.val_rev]
          omega
        rw [if_neg hj, zero_pow hrev]
    · simp only [v, w, if_neg hlast, one_pow, mul_one]
  have hdet : (Matrix.projVandermonde v w).det ≠ 0 := by
    rw [Matrix.det_projVandermonde]
    refine Finset.prod_ne_zero_iff.2 fun i _ => Finset.prod_ne_zero_iff.2 fun j hj => ?_
    have hij : s i ≠ s j := fun heq => (Finset.mem_Ioi.1 hj).ne (hinj heq)
    have hi := hs i
    have hsj := hs j
    simp only [v, w]
    by_cases hil : s i + 1 = n
    · have hjl : s j + 1 ≠ n := by omega
      rw [if_pos hil, if_neg hjl, if_pos hil, if_neg hjl]
      simp
    · by_cases hjl : s j + 1 = n
      · rw [if_neg hil, if_pos hjl, if_neg hil, if_pos hjl]
        simp
      · rw [if_neg hil, if_neg hjl, if_neg hil, if_neg hjl, mul_one, mul_one]
        exact sub_ne_zero.2 fun heq => hij (hx _ _ (by omega) (by omega) heq.symm)
  have hrowsdet : (Matrix.of fun t => extVandermonde x n (s t)).det ≠ 0 := by
    rwa [hrows]
  exact Matrix.linearIndependent_rows_of_det_ne_zero hrowsdet

end LinCode
