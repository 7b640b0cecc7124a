import CoRD.Coding.JerasureInvert
import CoRD.Field.MDS

/-!
# ReedSol — the coding matrix of the update coordinator

`reed_sol_vandermonde_coding_matrix` with `w = 8`.  The extended Vandermonde matrix has a row for
each point of the field and one for infinity.  Column operations, the same for all rows, bring its
first rows to the identity; then the columns are scaled below the identity so that row `cols`
becomes ones, and the rows behind it so that they start with one.  The rows below the identity are
the coding matrix.

`heap` is what a new array holds before it is written.
-/

namespace CoRD

/-- Ways to end without a matrix: a null pointer, and `exit(1)`. -/
inductive DistFailure where
  | null
  | couldntMake
  deriving DecidableEq, Repr

section ReedSol

variable (rows cols : Nat)

/-- Row `i` of the powers of `i`; `k` runs along. -/
def vandermondeRow (vdm : IntArr) (i : Nat) : IntArr :=
  ((List.range cols).foldl
    (fun (st : IntArr × GF256) j =>
      (Function.update st.1 (i * cols + j) st.2, st.2 * GF256.ofInt i)) (vdm, 1)).1

/-- `reed_sol_extended_vandermonde_matrix(rows, cols, 8)`. -/
def reedSolExtendedVandermondeMatrix (heap : IntArr) : Except DistFailure IntArr :=
  if 256 < rows then .error .null
  else if 256 < cols then .error .null
  else
    let vdm := Function.update heap 0 1
    let vdm := (List.range' 1 (cols - 1)).foldl (fun a j => Function.update a j 0) vdm
    if rows = 1 then .ok vdm
    else
      let i := (rows - 1) * cols
      let vdm := (List.range (cols - 1)).foldl (fun a j => Function.update a (i + j) 0) vdm
      let vdm := Function.update vdm (i + (cols - 1)) 1
      if rows = 2 then .ok vdm
      else .ok ((List.range' 1 (rows - 2)).foldl (vandermondeRow cols) vdm)

/-- Find a row from `i` on with an entry in column `i`, and swap it with row `i`. -/
def distSwap (dist : IntArr) (i : Nat) : Except DistFailure IntArr :=
  match (List.range' i (rows - i)).find? fun j => dist (j * cols + i) ≠ 0 with
  | none => .error .couldntMake
  | some j =>
      if j ≠ i then .ok ((List.range cols).foldl (swapTurn (j * cols) (i * cols)) dist)
      else .ok dist

/-- Multiply column `c` of row `j` by `tmp`. -/
def multiplyColumnTurn (c : Nat) (tmp : GF256) (dist : IntArr) (j : Nat) : IntArr :=
  Function.update dist (j * cols + c) (tmp * dist (j * cols + c))

/-- Multiply column `i` by one over the element `i, i`. -/
def distScale (dist : IntArr) (i : Nat) : IntArr :=
  if dist (i * cols + i) ≠ 1 then
    let tmp := galoisSingleDivide 1 (dist (i * cols + i))
    (List.range rows).foldl (multiplyColumnTurn cols i tmp) dist
  else dist

/-- In row `k`, add a multiple of column `i` to column `j`. -/
def addColumnTurn (i j : Nat) (tmp : GF256) (dist : IntArr) (k : Nat) : IntArr :=
  Function.update dist (k * cols + j) (dist (k * cols + j) + tmp * dist (k * cols + i))

/-- Make the element `i, j` zero. -/
def distAdd (i : Nat) (dist : IntArr) (j : Nat) : IntArr :=
  let tmp := dist (i * cols + j)
  if j ≠ i ∧ tmp ≠ 0 then (List.range rows).foldl (addColumnTurn cols i j tmp) dist
  else dist

/-- One turn of the main loop: row `i` becomes a row of the identity. -/
def distRow (dist : IntArr) (i : Nat) : Except DistFailure IntArr := do
  let dist ← distSwap rows cols dist i
  return (List.range cols).foldl (distAdd rows cols i) (distScale rows cols dist i)

/-- Scale column `j` below the identity by one over its element in row `cols`. -/
def distOnes (dist : IntArr) (j : Nat) : IntArr :=
  let tmp := dist (cols * cols + j)
  if tmp ≠ 1 then
    (List.range' cols (rows - cols)).foldl
      (multiplyColumnTurn cols j (galoisSingleDivide 1 tmp)) dist
  else dist

/-- Scale row `i` by one over its first element. -/
def distFirst (dist : IntArr) (i : Nat) : IntArr :=
  let tmp := dist (i * cols)
  if tmp ≠ 1 then
    (List.range cols).foldl (multiplyTurn (i * cols) (galoisSingleDivide 1 tmp)) dist
  else dist

/-- `reed_sol_big_vandermonde_distribution_matrix(rows, cols, 8)`. -/
def reedSolBigVandermondeDistributionMatrix (heap : IntArr) : Except DistFailure IntArr :=
  if rows ≤ cols then .error .null
  else do
    let dist ← reedSolExtendedVandermondeMatrix rows cols heap
    let dist ← (List.range' 1 (cols - 1)).foldlM (distRow rows cols) dist
    let dist := (List.range cols).foldl (distOnes rows cols) dist
    return (List.range' (cols + 1) (rows - (cols + 1))).foldl (distFirst cols) dist

end ReedSol

/-- `reed_sol_vandermonde_coding_matrix(k, m, 8)`: the rows below the identity are copied. -/
def reedSolVandermondeCodingMatrix (k m : Nat) (heap heap' : IntArr) :
    Except DistFailure IntArr := do
  let vdm ← reedSolBigVandermondeDistributionMatrix (k + m) k heap
  return (List.range (m * k)).foldl (fun dist j => Function.update dist j (vdm (k * k + j))) heap'

/-! ## Loops over the rows -/

section Columns

variable {k : Nat}

theorem rowOf_apply (a : IntArr) (t : Nat) (c : Fin k) : rowOf k a t c = a (t * k + c) := rfl

/-- A loop over rows that rewrites the element in column `c`. -/
theorem foldl_rewriteColumn {turn : IntArr → Nat → IntArr} {c : Fin k}
    (g : IntArr → Nat → GF256)
    (hturn : ∀ a t, turn a t = Function.update a (t * k + c) (g a t))
    (hg : ∀ a b t, (∀ j : Fin k, a (t * k + j) = b (t * k + j)) → g a t = g b t)
    {l : List Nat} (hl : l.Nodup) (a : IntArr) (x : Nat) :
    l.foldl turn a x = if x / k ∈ l then (if x % k = c then g a (x / k) else a x) else a x := by
  have hk := pos_of_fin c
  have hloop : Fibers.TurnBy (fun _ => True) (· / k)
      (fun a x => if x % k = c then g a (x / k) else a x) turn := by
    refine ⟨fun a t x _ => ?_, fun a b x hab => ?_⟩
    · rw [hturn, Function.update_apply]
      by_cases hdiv : x / k = t
      · by_cases hmod : x % k = c
        · rw [if_pos ((eq_row_add_iff c.isLt).2 ⟨hdiv, hmod⟩), if_pos hdiv, if_pos hmod, hdiv]
        · rw [if_neg fun hx => hmod ((eq_row_add_iff c.isLt).1 hx).2, if_pos hdiv, if_neg hmod]
      · rw [if_neg fun hx => hdiv ((eq_row_add_iff c.isLt).1 hx).1, if_neg hdiv]
    · have hrow := hg a b (x / k) fun j => hab _ (mul_add_div_eq j)
      rw [hrow, hab x rfl]
  exact hloop.foldl hl (fun _ _ => trivial) a x

theorem foldl_multiplyColumn (c : Fin k) (tmp : GF256) {l : List Nat} (hl : l.Nodup) (a : IntArr)
    (x : Nat) :
    l.foldl (multiplyColumnTurn k c tmp) a x =
      if x / k ∈ l then (if x % k = c then tmp * a (x / k * k + c) else a x) else a x :=
  foldl_rewriteColumn (fun a t => tmp * a (t * k + c)) (fun _ _ => rfl)
    (fun _ _ _ hab => by rw [hab c]) hl a x

theorem foldl_addColumn (i j : Fin k) (tmp : GF256) {l : List Nat} (hl : l.Nodup) (a : IntArr)
    (x : Nat) :
    l.foldl (addColumnTurn k i j tmp) a x =
      if x / k ∈ l then
        (if x % k = j then a (x / k * k + j) + tmp * a (x / k * k + i) else a x)
      else a x :=
  foldl_rewriteColumn (fun a t => a (t * k + j) + tmp * a (t * k + i)) (fun _ _ => rfl)
    (fun _ _ _ hab => by rw [hab i, hab j]) hl a x

theorem vecMul_scaleRow (v : Fin k → GF256) (c s : Fin k) (tmp : GF256) :
    Matrix.vecMul v (Elimination.scaleRow c tmp) s = if s = c then tmp * v s else v s := by
  rw [Elimination.scaleRow, Matrix.vecMul_diagonal]
  by_cases h : s = c
  · rw [if_pos h, h, Function.update_self, mul_comm]
  · rw [if_neg h, Function.update_of_ne h, Pi.one_apply, mul_one]

theorem vecMul_transvection (v : Fin k → GF256) (i j s : Fin k) (tmp : GF256) :
    Matrix.vecMul v (Matrix.transvection i j tmp) s =
      if s = j then v s + tmp * v i else v s := by
  -- the vector as a matrix with one row
  have hrow : Matrix.vecMul v (Matrix.transvection i j tmp) s =
      (Matrix.of (fun _ : Unit => v) * Matrix.transvection i j tmp) () s := rfl
  rw [hrow]
  by_cases h : s = j
  · rw [if_pos h, h, Matrix.mul_transvection_apply_same]
    rfl
  · rw [if_neg h, Matrix.mul_transvection_apply_of_ne _ _ _ _ h]
    rfl

theorem rowOf_multiplyColumn (c : Fin k) (tmp : GF256) {l : List Nat} (hl : l.Nodup) (a : IntArr)
    (t : Nat) :
    rowOf k (l.foldl (multiplyColumnTurn k c tmp) a) t =
      if t ∈ l then Matrix.vecMul (rowOf k a t) (Elimination.scaleRow c tmp) else rowOf k a t := by
  funext s
  rw [rowOf_apply, foldl_multiplyColumn c tmp hl, mul_add_div_eq, add_mod_row _ s.isLt]
  by_cases ht : t ∈ l
  · rw [if_pos ht, if_pos ht, vecMul_scaleRow]
    by_cases hs : s = c
    · rw [if_pos (Fin.val_inj.2 hs), if_pos hs, hs]
      rfl
    · rw [if_neg fun h => hs (Fin.ext h), if_neg hs]
      rfl
  · rw [if_neg ht, if_neg ht]
    rfl

theorem rowOf_addColumn (i j : Fin k) (tmp : GF256) {l : List Nat} (hl : l.Nodup) (a : IntArr)
    (t : Nat) :
    rowOf k (l.foldl (addColumnTurn k i j tmp) a) t =
      if t ∈ l then Matrix.vecMul (rowOf k a t) (Matrix.transvection i j tmp)
      else rowOf k a t := by
  funext s
  rw [rowOf_apply, foldl_addColumn i j tmp hl, mul_add_div_eq, add_mod_row _ s.isLt]
  by_cases ht : t ∈ l
  · rw [if_pos ht, if_pos ht, vecMul_transvection]
    by_cases hs : s = j
    · rw [if_pos (Fin.val_inj.2 hs), if_pos hs, hs]
      rfl
    · rw [if_neg fun h => hs (Fin.ext h), if_neg hs]
      rfl
  · rw [if_neg ht, if_neg ht]
    rfl

theorem rowOf_swapRows (i j : Nat) (a : IntArr) (t : Nat) :
    rowOf k ((List.range k).foldl (swapTurn (i * k) (j * k)) a) t =
      rowOf k a (if t = j then i else if t = i then j else t) := by
  funext s
  rw [rowOf_apply, foldl_swapTurn _ _ _ _ (pos_of_fin s), mul_add_div_eq, add_mod_row _ s.isLt]
  by_cases hj : t = j
  · rw [if_pos hj, if_pos hj]
    rfl
  · by_cases hi : t = i
    · rw [if_neg hj, if_pos hi, if_neg hj, if_pos hi]
      rfl
    · rw [if_neg hj, if_neg hi, if_neg hj, if_neg hi]
      rfl

theorem rowOf_multiplyRow (i : Nat) (tmp : GF256) (a : IntArr) (t : Nat) :
    rowOf k ((List.range k).foldl (multiplyTurn (i * k) tmp) a) t =
      if t = i then tmp • rowOf k a t else rowOf k a t := by
  funext s
  rw [rowOf_apply, foldl_multiplyTurn _ _ _ _ (pos_of_fin s), mul_add_div_eq, add_mod_row _ s.isLt]
  by_cases hi : t = i
  · rw [if_pos hi, if_pos hi, Pi.smul_apply, smul_eq_mul, rowOf_apply, mul_comm, hi]
  · rw [if_neg hi, if_neg hi]
    rfl

end Columns

/-! ## The extended Vandermonde matrix -/

section Vandermonde

variable {rows k : Nat}

/-- The points of the rows are the bytes from 0 on. -/
def point (i : Nat) : GF256 :=
  GF256.ofInt i

theorem point_inj {i j : Nat} (hi : i < 256) (hj : j < 256) : point i = point j → i = j := by
  intro h
  have hbits : BitVec.ofInt 8 (i : Int) = BitVec.ofInt 8 (j : Int) := congrArg GF256.bits h
  have hnat := congrArg BitVec.toNat hbits
  simpa [BitVec.toNat_ofInt, Nat.mod_eq_of_lt, hi, hj] using hnat

theorem vandermondeRow_apply (hk : 0 < k) (vdm : IntArr) (i x : Nat) :
    vandermondeRow k vdm i x = if x / k = i then point i ^ (x % k) else vdm x := by
  have h : ∀ n ≤ k, (List.range n).foldl
      (fun (st : IntArr × GF256) j =>
        (Function.update st.1 (i * k + j) st.2, st.2 * GF256.ofInt i)) (vdm, 1) =
      ((fun x => if x / k = i ∧ x % k < n then point i ^ (x % k) else vdm x), point i ^ n) := by
    intro n
    induction n with
    | zero =>
        intro _
        simp
    | succ n ih =>
        intro hn
        rw [List.range_succ, List.foldl_append, ih (by omega)]
        simp only [List.foldl_cons, List.foldl_nil, pow_succ, Prod.mk.injEq]
        refine ⟨funext fun x => ?_, rfl⟩
        rw [Function.update_apply]
        simp only [eq_row_add_iff (show n < k by omega)]
        by_cases hx : x / k = i ∧ x % k = n
        · rw [if_pos hx, if_pos ⟨hx.1, by omega⟩, hx.2]
        · rw [if_neg hx]
          refine if_congr ?_ rfl rfl
          constructor
          · exact fun h => ⟨h.1, by omega⟩
          · exact fun h => ⟨h.1, by omega⟩
  rw [vandermondeRow, h k (Nat.le_refl k)]
  simp only [Nat.mod_lt x hk, and_true]

/-- A loop that writes one value to several positions. -/
theorem foldl_update_const (pos : Nat → Nat) (v : GF256) (l : List Nat) (a : IntArr) (x : Nat) :
    l.foldl (fun a j => Function.update a (pos j) v) a x = if x ∈ l.map pos then v else a x := by
  induction l generalizing a with
  | nil =>
      simp
  | cons j l ih =>
      rw [List.foldl_cons, ih, List.map_cons, Function.update_apply]
      by_cases hl : x ∈ l.map pos
      · rw [if_pos hl, if_pos (List.mem_cons_of_mem _ hl)]
      · by_cases hj : x = pos j
        · rw [if_neg hl, if_pos hj, if_pos (by rw [hj]; exact List.mem_cons_self)]
        · rw [if_neg hl, if_neg hj, if_neg (by simp only [List.mem_cons, hj, hl, or_self,
            not_false_eq_true])]

/-- The array before the loop over the rows between, with the first and the last row written. -/
def firstAndLast (rows k : Nat) (heap : IntArr) : IntArr :=
  let vdm := (List.range' 1 (k - 1)).foldl (fun a j => Function.update a j 0)
    (Function.update heap 0 1)
  let vdm := (List.range (k - 1)).foldl (fun a j => Function.update a ((rows - 1) * k + j) 0) vdm
  Function.update vdm ((rows - 1) * k + (k - 1)) 1

theorem rowOf_firstAndLast (hk : 0 < k) (hrows : k < rows) (heap : IntArr) (j : Fin k) :
    rowOf k (firstAndLast rows k heap) 0 j = (if j.val = 0 then 1 else 0) ∧
      rowOf k (firstAndLast rows k heap) (rows - 1) j = (if j.val + 1 = k then 1 else 0) := by
  have hlast : k ≤ (rows - 1) * k := Nat.le_mul_of_pos_left k (by omega)
  have hj := j.isLt
  refine ⟨?_, ?_⟩
  · have hne : 0 * k + j.val ≠ (rows - 1) * k + (k - 1) := by omega
    have hnot : 0 * k + j.val ∉ (List.range (k - 1)).map fun j => (rows - 1) * k + j := by
      intro hmem
      obtain ⟨c, -, heq⟩ := List.mem_map.1 hmem
      omega
    rw [rowOf_apply, firstAndLast, Function.update_of_ne hne, foldl_update_const, if_neg hnot,
      foldl_update_const, List.map_id']
    by_cases hzero : j.val = 0
    · have hmem : 0 * k + j.val ∉ List.range' 1 (k - 1) := by
        intro hmem
        have := (List.mem_range'_1.1 hmem).1
        omega
      rw [if_neg hmem, if_pos hzero, hzero, Nat.zero_mul, Function.update_self]
    · have hmem : 0 * k + j.val ∈ List.range' 1 (k - 1) :=
        List.mem_range'_1.2 ⟨by omega, by omega⟩
      rw [if_pos hmem, if_neg hzero]
  · rw [rowOf_apply, firstAndLast]
    by_cases hend : j.val + 1 = k
    · have heq : (rows - 1) * k + j.val = (rows - 1) * k + (k - 1) := by omega
      rw [heq, Function.update_self, if_pos hend]
    · have hne : (rows - 1) * k + j.val ≠ (rows - 1) * k + (k - 1) := by omega
      have hmem : (rows - 1) * k + j.val ∈ (List.range (k - 1)).map fun j => (rows - 1) * k + j :=
        List.mem_map.2 ⟨j, List.mem_range.2 (by omega), rfl⟩
      rw [Function.update_of_ne hne, foldl_update_const, if_pos hmem, if_neg hend]

/-- The rows of the matrix are those of the extended Vandermonde matrix. -/
theorem reedSolExtendedVandermondeMatrix_spec (hk : 0 < k) (hkr : k < rows) (hrows : rows ≤ 256)
    (heap : IntArr) :
    ∃ vdm, reedSolExtendedVandermondeMatrix rows k heap = .ok vdm ∧
      ∀ t < rows, rowOf k vdm t = LinCode.extVandermonde point rows t := by
  refine ⟨(List.range' 1 (rows - 2)).foldl (vandermondeRow k) (firstAndLast rows k heap), ?_, ?_⟩
  · rw [reedSolExtendedVandermondeMatrix, if_neg (by omega), if_neg (by omega)]
    simp only [if_neg (show rows ≠ 1 by omega)]
    by_cases htwo : rows = 2
    · subst htwo
      rfl
    · rw [if_neg htwo]
      rfl
  · intro t ht
    have hloop : Fibers.TurnBy (fun _ => True) (· / k)
        (fun _ x => point (x / k) ^ (x % k)) (vandermondeRow k) := by
      refine ⟨fun a i x _ => ?_, fun _ _ _ _ => rfl⟩
      rw [vandermondeRow_apply hk]
      by_cases hx : x / k = i
      · rw [if_pos hx, if_pos hx, hx]
      · rw [if_neg hx, if_neg hx]
    have hcell : ∀ j : Fin k,
        rowOf k ((List.range' 1 (rows - 2)).foldl (vandermondeRow k) (firstAndLast rows k heap)) t
          j = if t ∈ List.range' 1 (rows - 2) then point t ^ j.val
            else rowOf k (firstAndLast rows k heap) t j := by
      intro j
      rw [rowOf_apply, hloop.foldl List.nodup_range' fun _ _ => trivial, mul_add_div_eq,
        add_mod_row _ j.isLt]
      rfl
    funext j
    obtain ⟨hfirst, hlast⟩ := rowOf_firstAndLast hk hkr heap j
    rw [hcell j, LinCode.extVandermonde]
    by_cases hmid : t ∈ List.range' 1 (rows - 2)
    · have hrange := List.mem_range'_1.1 hmid
      rw [if_pos hmid, if_neg (by omega)]
    · rw [if_neg hmid]
      rcases Nat.eq_zero_or_pos t with rfl | hpos
      · -- row 0 has the powers of the point 0
        have hpoint : point 0 = 0 := GF256.ofInt_zero
        rw [hfirst, if_neg (show ¬ 0 + 1 = rows by omega), hpoint, zero_pow_eq]
      · have hend : t = rows - 1 := by
          by_contra hne
          exact hmid (List.mem_range'_1.2 ⟨hpos, by omega⟩)
        rw [if_pos (by omega), hend, hlast]

end Vandermonde

/-! ## The main loop -/

section Main

variable {rows k : Nat}

/-- The code is still that of the Vandermonde matrix, and the rows up to `i` are rows of the
identity. -/
structure DistInv (rows k i : Nat) (dist : IntArr) : Prop where
  equiv : LinCode.CodeEquiv rows (LinCode.extVandermonde (k := k) point rows) (rowOf k dist)
  unit : ∀ t < i, rowOf k dist t = LinCode.unitRow t

theorem DistInv.independent {i : Nat} {dist : IntArr} (h : DistInv rows k i dist)
    (hrows : rows ≤ 256) : LinCode.AnyRowsIndependent rows (rowOf k dist) := by
  refine LinCode.AnyRowsIndependent.of_equiv (LinCode.extVandermonde_independent ?_) h.equiv
  intro i j hi hj
  exact point_inj (by omega) (by omega)

/-- There always is a row to swap with. -/
theorem distSwap_spec {i : Fin k} {dist : IntArr} (h : DistInv rows k i dist) (hkr : k < rows)
    (hrows : rows ≤ 256) :
    ∃ dist', distSwap rows k dist i = .ok dist' ∧ DistInv rows k i dist' ∧
      rowOf k dist' i i ≠ 0 := by
  obtain ⟨r, hr, hne⟩ := (h.independent hrows).exists_ne_zero hkr.le i
  have hir : i.val ≤ r := by
    by_contra hlt
    rw [h.unit r (by omega), LinCode.unitRow, if_neg (by omega)] at hne
    exact hne rfl
  have hfound : ∃ j, (List.range' i (rows - i)).find? (fun j => dist (j * k + i) ≠ 0) = some j := by
    rw [← Option.isSome_iff_exists, List.find?_isSome]
    refine ⟨r, List.mem_range'_1.2 ⟨hir, by omega⟩, ?_⟩
    simpa [rowOf_apply] using hne
  obtain ⟨j, hj⟩ := hfound
  have hmem := List.mem_range'_1.1 (List.mem_of_find?_eq_some hj)
  have hpivot : rowOf k dist j i ≠ 0 := by
    have hfind := List.find?_some hj
    simpa [rowOf_apply] using hfind
  rw [distSwap, hj]
  by_cases hji : j = i
  · subst hji
    exact ⟨dist, if_neg (not_not.2 rfl), h, hpivot⟩
  · refine ⟨_, if_pos hji, ⟨?_, ?_⟩, ?_⟩
    · -- the rows are exchanged, all others stay
      refine h.equiv.trans (LinCode.CodeEquiv.of_perm
        (σ := fun t => if t = i.val then j else if t = j then i.val else t) ?_ ?_
        fun t _ => rowOf_swapRows j i dist t)
      · intro t ht
        split_ifs <;> omega
      · intro t _ t' _ heq
        dsimp only at heq
        split_ifs at heq <;> omega
    · intro t ht
      rw [rowOf_swapRows, if_neg (by omega), if_neg (by omega)]
      exact h.unit t ht
    · rw [rowOf_swapRows, if_pos rfl]
      exact hpivot

theorem unitRow_self (i : Fin k) : LinCode.unitRow (K := GF256) i.val i = 1 :=
  if_pos rfl

theorem unitRow_of_ne {t : Nat} {i : Fin k} (h : t ≠ i.val) :
    LinCode.unitRow (K := GF256) t i = 0 :=
  if_neg h

/-- Scaling a column only matters to the row of the identity with its one there. -/
theorem unitRow_scaleRow {t : Nat} {c : Fin k} (tmp : GF256) (h : t ≠ c) :
    Matrix.vecMul (LinCode.unitRow t) (Elimination.scaleRow c tmp) = LinCode.unitRow t := by
  funext s
  rw [vecMul_scaleRow]
  by_cases hs : s = c
  · rw [if_pos hs, hs, unitRow_of_ne h, mul_zero]
  · rw [if_neg hs]

theorem unitRow_transvection {t : Nat} {i : Fin k} (j : Fin k) (tmp : GF256) (h : t ≠ i) :
    Matrix.vecMul (LinCode.unitRow t) (Matrix.transvection i j tmp) = LinCode.unitRow t := by
  funext s
  rw [vecMul_transvection, unitRow_of_ne h, mul_zero, add_zero, ite_self]

/-- A column operation on all rows. -/
theorem DistInv.column {i : Nat} {dist dist' : IntArr} {Q : Matrix (Fin k) (Fin k) GF256}
    (h : DistInv rows k i dist) (hQ : IsUnit Q) (hir : i ≤ rows)
    (hrow : ∀ t < rows, rowOf k dist' t = Matrix.vecMul (rowOf k dist t) Q)
    (hunit : ∀ t < i, Matrix.vecMul (LinCode.unitRow t) Q = LinCode.unitRow t) :
    DistInv rows k i dist' where
  equiv := by
    refine h.equiv.trans (LinCode.CodeEquiv.of_mul (d := fun _ => 1) (fun _ _ => one_ne_zero) hQ ?_)
    intro t ht
    rw [hrow t ht, one_smul]
  unit t ht := by rw [hrow t (by omega), h.unit t ht, hunit t ht]

theorem distScale_spec {i : Fin k} {dist : IntArr} (h : DistInv rows k i dist) (hkr : k < rows)
    (hpivot : rowOf k dist i i ≠ 0) :
    DistInv rows k i (distScale rows k dist i) ∧ rowOf k (distScale rows k dist i) i i = 1 := by
  have hpos : dist (i * k + i) = rowOf k dist i i := rfl
  rw [distScale, hpos]
  by_cases hone : rowOf k dist i i = 1
  · rw [if_neg (not_not.2 hone)]
    exact ⟨h, hone⟩
  · rw [if_pos hone, galoisSingleDivide_one hpivot]
    have hrow := rowOf_multiplyColumn i (rowOf k dist i i)⁻¹ (List.nodup_range (n := rows)) dist
    refine ⟨h.column (Elimination.isUnit_scaleRow i (inv_ne_zero hpivot)) (by omega) ?_ ?_, ?_⟩
    · intro t ht
      exact (hrow t).trans (if_pos (List.mem_range.2 ht))
    · intro t ht
      exact unitRow_scaleRow _ (by omega)
    · rw [hrow, if_pos (List.mem_range.2 (by omega)), vecMul_scaleRow, if_pos rfl,
        inv_mul_cancel₀ hpivot]

/-- On the way through row `i`: its pivot is one, and the elements before column `n` are zero. -/
structure RowInv (rows : Nat) (i : Fin k) (n : Nat) (dist : IntArr) : Prop where
  inv : DistInv rows k i dist
  pivot : rowOf k dist i i = 1
  cleared : ∀ s : Fin k, s.val < n → s ≠ i → rowOf k dist i s = 0

theorem RowInv.step {i j : Fin k} {dist : IntArr} (h : RowInv rows i j dist) (hkr : k < rows) :
    RowInv rows i (j + 1) (distAdd rows k i dist j) := by
  have hpos : dist (i * k + j) = rowOf k dist i j := rfl
  simp only [distAdd, hpos]
  by_cases hdo : j.val ≠ i ∧ rowOf k dist i j ≠ 0
  · rw [if_pos hdo]
    have hji : i ≠ j := fun heq => hdo.1 (congrArg Fin.val heq.symm)
    have hrow := rowOf_addColumn i j (rowOf k dist i j) (List.nodup_range (n := rows)) dist
    have hrowi := (hrow i).trans (if_pos (List.mem_range.2 (by omega)))
    refine ⟨h.inv.column (Elimination.isUnit_transvection (rowOf k dist i j) hji) (by omega) ?_ ?_,
      ?_, ?_⟩
    · intro t ht
      exact (hrow t).trans (if_pos (List.mem_range.2 ht))
    · intro t ht
      exact unitRow_transvection _ _ (by omega)
    · rw [hrowi, vecMul_transvection, if_neg hji, h.pivot]
    · intro s hs hsi
      rw [hrowi, vecMul_transvection]
      by_cases hsj : s = j
      · -- adding the element to itself clears it
        rw [if_pos hsj, h.pivot, mul_one, hsj, CharTwo.add_self_eq_zero]
      · have hval : s.val ≠ j.val := fun heq => hsj (Fin.ext heq)
        rw [if_neg hsj]
        exact h.cleared s (by omega) hsi
  · rw [if_neg hdo]
    refine ⟨h.inv, h.pivot, fun s hs hsi => ?_⟩
    by_cases hsj : s = j
    · have hne : j.val ≠ i := fun heq => hsi (hsj.trans (Fin.ext heq))
      by_contra hzero
      exact hdo ⟨hne, hsj ▸ hzero⟩
    · have hval : s.val ≠ j.val := fun heq => hsj (Fin.ext heq)
      exact h.cleared s (by omega) hsi

theorem RowInv.run {i : Fin k} {dist : IntArr} (h : RowInv rows i 0 dist) (hkr : k < rows)
    {n : Nat} : n ≤ k → RowInv rows i n ((List.range n).foldl (distAdd rows k i) dist) := by
  induction n with
  | zero =>
      intro _
      exact h
  | succ n ih =>
      intro hn
      rw [List.range_succ, List.foldl_append]
      exact (ih (by omega)).step (j := ⟨n, hn⟩) hkr

theorem RowInv.done {i : Fin k} {dist : IntArr} (h : RowInv rows i k dist) :
    DistInv rows k (i + 1) dist where
  equiv := h.inv.equiv
  unit t ht := by
    by_cases hti : t = i
    · funext s
      by_cases hs : s = i
      · rw [hti, hs, h.pivot, unitRow_self]
      · rw [hti, h.cleared s s.isLt hs, unitRow_of_ne fun heq => hs (Fin.ext heq.symm)]
    · exact h.inv.unit t (by omega)

/-- One turn of the main loop. -/
theorem distRow_spec {i : Fin k} {dist : IntArr} (h : DistInv rows k i dist) (hkr : k < rows)
    (hrows : rows ≤ 256) :
    ∃ dist', distRow rows k dist i = .ok dist' ∧ DistInv rows k (i + 1) dist' := by
  obtain ⟨dist₁, hok, hinv, hpivot⟩ := distSwap_spec h hkr hrows
  obtain ⟨hinv₂, hone⟩ := distScale_spec hinv hkr hpivot
  have hstart : RowInv rows i 0 (distScale rows k dist₁ i) :=
    ⟨hinv₂, hone, fun _ hs => absurd hs (Nat.not_lt_zero _)⟩
  refine ⟨_, ?_, (hstart.run hkr (Nat.le_refl k)).done⟩
  rw [distRow, hok]
  rfl

/-- The main loop from row `i` on. -/
theorem foldlM_distRow {n i : Nat} {dist : IntArr} (h : DistInv rows k i dist) (hn : i + n = k)
    (hkr : k < rows) (hrows : rows ≤ 256) :
    ∃ dist', (List.range' i n).foldlM (distRow rows k) dist = .ok dist' ∧
      DistInv rows k k dist' := by
  induction n generalizing i dist with
  | zero =>
      have hik : i = k := by omega
      subst hik
      exact ⟨dist, rfl, h⟩
  | succ n ih =>
      have hik : i < k := by omega
      obtain ⟨dist₁, hok, hinv⟩ := distRow_spec (i := ⟨i, hik⟩) h hkr hrows
      obtain ⟨dist₂, hok₂, hinv₂⟩ := ih (i := i + 1) hinv (by omega)
      refine ⟨dist₂, ?_, hinv₂⟩
      have hhead : distRow rows k dist i = .ok dist₁ := hok
      rw [List.range'_succ, List.foldlM_cons, hhead]
      exact hok₂

end Main

/-! ## Scaling -/

section Scaling

variable {rows k : Nat}

theorem DistInv.entry_ne_zero {dist : IntArr} (h : DistInv rows k k dist) (hrows : rows ≤ 256)
    {r : Nat} (hr : k ≤ r) (hrn : r < rows) (c : Fin k) : rowOf k dist r c ≠ 0 :=
  (h.independent hrows).entry_ne_zero h.unit hr hrn c

/-- Below the identity the columns before `n` have been scaled. -/
structure OnesInv (rows k n : Nat) (dist : IntArr) : Prop where
  inv : DistInv rows k k dist
  ones : ∀ c : Fin k, c.val < n → rowOf k dist k c = 1

theorem OnesInv.step {j : Fin k} {dist : IntArr} (h : OnesInv rows k j dist) (hkr : k < rows)
    (hrows : rows ≤ 256) : OnesInv rows k (j + 1) (distOnes rows k dist j) := by
  have hpos : dist (k * k + j) = rowOf k dist k j := rfl
  have htmp := h.inv.entry_ne_zero hrows (Nat.le_refl k) hkr j
  simp only [distOnes, hpos]
  by_cases hone : rowOf k dist k j = 1
  · rw [if_neg (not_not.2 hone)]
    refine ⟨h.inv, fun c hc => ?_⟩
    by_cases hcj : c = j
    · rw [hcj, hone]
    · have hval : c.val ≠ j.val := fun heq => hcj (Fin.ext heq)
      exact h.ones c (by omega)
  · rw [if_pos hone, galoisSingleDivide_one htmp]
    obtain ⟨tmp, hdef⟩ : ∃ tmp, rowOf k dist k j = tmp := ⟨_, rfl⟩
    rw [hdef] at htmp ⊢
    have hrow := rowOf_multiplyColumn j tmp⁻¹ (List.nodup_range' (s := k) (n := rows - k)) dist
    have hlow : ∀ t < k, rowOf k ((List.range' k (rows - k)).foldl
        (multiplyColumnTurn k j tmp⁻¹) dist) t = LinCode.unitRow t := by
      intro t ht
      rw [hrow, if_neg fun hmem => by
        have := (List.mem_range'_1.1 hmem).1
        omega]
      exact h.inv.unit t ht
    have hhigh : ∀ t, k ≤ t → t < rows → rowOf k ((List.range' k (rows - k)).foldl
        (multiplyColumnTurn k j tmp⁻¹) dist) t =
        Matrix.vecMul (rowOf k dist t) (Elimination.scaleRow j tmp⁻¹) := by
      intro t hkt ht
      rw [hrow, if_pos (List.mem_range'_1.2 ⟨hkt, by omega⟩)]
    refine ⟨⟨?_, hlow⟩, ?_⟩
    · -- all rows get the factor, and row `j` of the identity is scaled back
      refine h.inv.equiv.trans (LinCode.CodeEquiv.of_mul
        (d := fun t => if t = j.val then tmp else 1) (fun t _ => ?_)
        (Elimination.isUnit_scaleRow j (inv_ne_zero htmp)) fun t ht => ?_)
      · split_ifs
        · exact htmp
        · exact one_ne_zero
      · by_cases htk : t < k
        · rw [hlow t htk, h.inv.unit t htk]
          by_cases htj : t = j.val
          · funext s
            rw [if_pos htj, Pi.smul_apply, vecMul_scaleRow, smul_eq_mul, htj]
            by_cases hs : s = j
            · rw [if_pos hs, hs, unitRow_self, mul_one, mul_inv_cancel₀ htmp]
            · rw [if_neg hs, unitRow_of_ne fun heq => hs (Fin.ext heq.symm), mul_zero]
          · rw [if_neg htj, one_smul, unitRow_scaleRow _ htj]
        · rw [hhigh t (by omega) ht, if_neg (by omega), one_smul]
    · intro c hc
      rw [hhigh k (Nat.le_refl k) hkr, vecMul_scaleRow]
      by_cases hcj : c = j
      · rw [if_pos hcj, hcj, hdef, inv_mul_cancel₀ htmp]
      · have hval : c.val ≠ j.val := fun heq => hcj (Fin.ext heq)
        rw [if_neg hcj]
        exact h.ones c (by omega)

theorem OnesInv.run {dist : IntArr} (h : DistInv rows k k dist) (hkr : k < rows)
    (hrows : rows ≤ 256) {n : Nat} :
    n ≤ k → OnesInv rows k n ((List.range n).foldl (distOnes rows k) dist) := by
  induction n with
  | zero =>
      intro _
      exact ⟨h, fun _ hc => absurd hc (Nat.not_lt_zero _)⟩
  | succ n ih =>
      intro hn
      rw [List.range_succ, List.foldl_append]
      exact (ih (by omega)).step (j := ⟨n, hn⟩) hkr hrows

/-- Row `k` is all ones, and the rows behind it up to `i` start with one. -/
structure FirstInv (rows k i : Nat) (dist : IntArr) : Prop where
  inv : DistInv rows k k dist
  ones : ∀ c : Fin k, rowOf k dist k c = 1
  first : ∀ t, k < t → t < i → dist (t * k) = 1

theorem FirstInv.step {i : Nat} {dist : IntArr} (h : FirstInv rows k i dist) (hk : 0 < k)
    (hki : k < i) (hi : i < rows) (hrows : rows ≤ 256) :
    FirstInv rows k (i + 1) (distFirst k dist i) := by
  have hpos : dist (i * k) = rowOf k dist i ⟨0, hk⟩ := rfl
  have htmp := h.inv.entry_ne_zero hrows hki.le hi ⟨0, hk⟩
  simp only [distFirst, hpos]
  by_cases hone : rowOf k dist i ⟨0, hk⟩ = 1
  · rw [if_neg (not_not.2 hone)]
    refine ⟨h.inv, h.ones, fun t hkt hti => ?_⟩
    rcases Nat.lt_succ_iff_lt_or_eq.1 hti with hlt | rfl
    · exact h.first t hkt hlt
    · exact hone
  · rw [if_pos hone, galoisSingleDivide_one htmp]
    have hrow := rowOf_multiplyRow (k := k) i (rowOf k dist i ⟨0, hk⟩)⁻¹ dist
    refine ⟨⟨h.inv.equiv.trans (LinCode.CodeEquiv.of_mul
      (d := fun t => if t = i then (rowOf k dist i ⟨0, hk⟩)⁻¹ else 1) (fun t _ => ?_) isUnit_one
      fun t _ => ?_), fun t ht => ?_⟩, fun c => ?_, fun t hkt hti => ?_⟩
    · split_ifs
      · exact inv_ne_zero htmp
      · exact one_ne_zero
    · rw [hrow, Matrix.vecMul_one]
      by_cases hti : t = i
      · rw [if_pos hti, if_pos hti]
      · rw [if_neg hti, if_neg hti, one_smul]
    · rw [hrow, if_neg (by omega)]
      exact h.inv.unit t ht
    · rw [hrow, if_neg hki.ne]
      exact h.ones c
    · have hcell := congrFun (hrow t) ⟨0, hk⟩
      refine (hcell : _ = _).trans ?_
      by_cases hlast : t = i
      · rw [if_pos hlast, Pi.smul_apply, smul_eq_mul, hlast, inv_mul_cancel₀ htmp]
      · rw [if_neg hlast]
        exact h.first t hkt (by omega)

theorem FirstInv.run {n i : Nat} {dist : IntArr} (h : FirstInv rows k i dist) (hk : 0 < k)
    (hki : k < i) (hn : i + n = rows) (hrows : rows ≤ 256) :
    FirstInv rows k rows ((List.range' i n).foldl (distFirst k) dist) := by
  induction n generalizing i dist with
  | zero =>
      have hir : i = rows := by omega
      subst hir
      exact h
  | succ n ih =>
      rw [List.range'_succ, List.foldl_cons]
      exact ih (h.step hk hki (by omega) hrows) (by omega) (by omega)

end Scaling

/-! ## The matrices -/

section Matrices

variable {rows k : Nat}

/-- The distribution matrix. -/
theorem reedSolBigVandermonde_cases (hk : 0 < k) (hkr : k < rows) (hrows : rows ≤ 256)
    (heap : IntArr) :
    ∃ dist, reedSolBigVandermondeDistributionMatrix rows k heap = .ok dist ∧
      FirstInv rows k rows dist := by
  obtain ⟨vdm, hvdm, hrow⟩ := reedSolExtendedVandermondeMatrix_spec hk hkr hrows heap
  have hstart : DistInv rows k 1 vdm := by
    refine ⟨LinCode.CodeEquiv.of_perm (σ := id) (fun _ ht => ht) (Set.injOn_id _) hrow, ?_⟩
    intro t ht
    have hzero : t = 0 := by omega
    have hpoint : point 0 = 0 := GF256.ofInt_zero
    funext j
    rw [hzero, hrow 0 (by omega), LinCode.extVandermonde, if_neg (by omega), hpoint, zero_pow_eq,
      LinCode.unitRow]
    exact if_congr eq_comm rfl rfl
  obtain ⟨dist, hdist, hinv⟩ := foldlM_distRow hstart (n := k - 1) (by omega) hkr hrows
  have hones := OnesInv.run hinv hkr hrows (Nat.le_refl k)
  have hfirst : FirstInv rows k (k + 1) ((List.range k).foldl (distOnes rows k) dist) :=
    ⟨hones.inv, fun c => hones.ones c c.isLt, fun t hkt hti => absurd hti (by omega)⟩
  refine ⟨_, ?_, hfirst.run (n := rows - (k + 1)) hk (Nat.lt_succ_self k) (by omega) hrows⟩
  rw [reedSolBigVandermondeDistributionMatrix, if_neg (by omega), hvdm]
  change (do
    let dist ← (List.range' 1 (k - 1)).foldlM (distRow rows k) vdm
    return (List.range' (k + 1) (rows - (k + 1))).foldl (distFirst k)
      ((List.range k).foldl (distOnes rows k) dist)) = _
  rw [hdist]
  rfl

theorem reedSolBigVandermonde_eq_null (h : rows ≤ k ∨ 256 < rows) (heap : IntArr) :
    reedSolBigVandermondeDistributionMatrix rows k heap = .error .null := by
  rw [reedSolBigVandermondeDistributionMatrix]
  by_cases hle : rows ≤ k
  · rw [if_pos hle]
  · have hrows : 256 < rows := h.resolve_left hle
    rw [if_neg hle, reedSolExtendedVandermondeMatrix, if_pos hrows]
    rfl

/-- The call makes a matrix just for `cols < rows ≤ 256`, and a null pointer otherwise; it never
gives up.  The matrix starts with the identity, any `cols` of its rows are independent, row `cols`
is all ones and the rows behind it start with one. -/
theorem reedSolBigVandermondeDistributionMatrix_spec (hk : 0 < k) (heap : IntArr) :
    (k < rows ∧ rows ≤ 256 ∧
      ∃ dist, reedSolBigVandermondeDistributionMatrix rows k heap = .ok dist ∧
        (∀ t < k, rowOf k dist t = LinCode.unitRow t) ∧
        LinCode.AnyRowsIndependent rows (rowOf k dist) ∧
        (∀ j < k, dist (k * k + j) = 1) ∧ ∀ t, k ≤ t → t < rows → dist (t * k) = 1) ∨
    ((rows ≤ k ∨ 256 < rows) ∧
      reedSolBigVandermondeDistributionMatrix rows k heap = .error .null) := by
  by_cases h : k < rows ∧ rows ≤ 256
  · obtain ⟨hkr, hrows⟩ := h
    obtain ⟨dist, hdist, hfirst⟩ := reedSolBigVandermonde_cases hk hkr hrows heap
    refine Or.inl ⟨hkr, hrows, dist, hdist, hfirst.inv.unit, hfirst.inv.independent hrows, ?_, ?_⟩
    · intro j hj
      exact hfirst.ones ⟨j, hj⟩
    · intro t hkt ht
      rcases hkt.eq_or_lt with rfl | hlt
      · exact hfirst.ones ⟨0, hk⟩
      · exact hfirst.first t hlt ht
  · have hout : rows ≤ k ∨ 256 < rows := by omega
    exact Or.inr ⟨hout, reedSolBigVandermonde_eq_null hout heap⟩

/-- The matrix of the smallest code. -/
theorem reedSolBigVandermondeDistributionMatrix_spec_three :
    (2 < 3 ∧ 3 ≤ 256 ∧
      ∃ dist, reedSolBigVandermondeDistributionMatrix 3 2 (fun _ => 0) = .ok dist ∧
        (∀ t < 2, rowOf 2 dist t = LinCode.unitRow t) ∧
        LinCode.AnyRowsIndependent 3 (rowOf 2 dist) ∧
        (∀ j < 2, dist (2 * 2 + j) = 1) ∧ ∀ t, 2 ≤ t → t < 3 → dist (t * 2) = 1) ∨
    ((3 ≤ 2 ∨ 256 < 3) ∧
      reedSolBigVandermondeDistributionMatrix 3 2 (fun _ => 0) = .error .null) :=
  reedSolBigVandermondeDistributionMatrix_spec (by decide) _

end Matrices

/-! ## The coding matrix -/

section Coding

variable {conf : Config}

theorem foldl_copy (f : Nat → GF256) (n : Nat) (a : IntArr) (x : Nat) :
    (List.range n).foldl (fun dist j => Function.update dist j (f j)) a x =
      if x < n then f x else a x := by
  have hloop : Fibers.TurnBy (· < n) id (fun _ x => f x)
      (fun (dist : IntArr) j => Function.update dist j (f j)) := by
    refine ⟨fun a j x _ => ?_, fun _ _ _ _ => rfl⟩
    rw [Function.update_apply]
    by_cases hx : x = j
    · rw [if_pos hx, hx]
      exact (if_pos rfl).symm
    · rw [if_neg hx]
      exact (if_neg hx).symm
  exact hloop.foldl_range a x

/-- What the other classes rely on: any `ecK` of the blocks with these coefficients determine the
stripe, and the first parity block is the xor of the data blocks. -/
theorem reedSolVandermondeCodingMatrix_cases (hk : 0 < conf.ecK) (hkn : conf.ecK < conf.ecN)
    (hn : conf.ecN ≤ 256) (heap heap' : IntArr) :
    ∃ mat, reedSolVandermondeCodingMatrix conf.ecK conf.ecM heap heap' = .ok mat ∧
      LinCode.AnyRowsIndependent conf.ecN (stackedRow conf mat) ∧
      (∀ j < conf.ecK, mat j = 1) ∧ ∀ i < conf.ecM, mat (i * conf.ecK) = 1 := by
  have hsum : conf.ecK + conf.ecM = conf.ecN := by
    rw [Config.ecM]
    omega
  obtain ⟨dist, hdist, hfirst⟩ := reedSolBigVandermonde_cases hk hkn hn heap
  have hmat : ∀ i < conf.ecM, ∀ j < conf.ecK,
      (List.range (conf.ecM * conf.ecK)).foldl
        (fun a j => Function.update a j (dist (conf.ecK * conf.ecK + j))) heap'
        (i * conf.ecK + j) = dist ((conf.ecK + i) * conf.ecK + j) := by
    intro i hi j hj
    have hlt : i * conf.ecK + j < conf.ecM * conf.ecK := by
      calc
        i * conf.ecK + j < i * conf.ecK + conf.ecK := Nat.add_lt_add_left hj _
        _ = (i + 1) * conf.ecK := (Nat.succ_mul i conf.ecK).symm
        _ ≤ conf.ecM * conf.ecK := Nat.mul_le_mul_right _ hi
    rw [foldl_copy (fun j => dist (conf.ecK * conf.ecK + j)), if_pos hlt, ← Nat.add_assoc,
      ← Nat.add_mul]
  have hrow : ∀ i < conf.ecM, rowOf conf.ecK ((List.range (conf.ecM * conf.ecK)).foldl
      (fun a j => Function.update a j (dist (conf.ecK * conf.ecK + j))) heap') i =
      rowOf conf.ecK dist (conf.ecK + i) :=
    fun i hi => funext fun j => hmat i hi j j.isLt
  refine ⟨_, by rw [reedSolVandermondeCodingMatrix, hsum, hdist]; rfl, ?_, ?_, ?_⟩
  · -- parity rows come first in the stacked matrix, last in the distribution matrix
    refine (hfirst.inv.independent hn).of_equiv (LinCode.CodeEquiv.of_perm
      (σ := fun t => if t < conf.ecM then conf.ecK + t else t - conf.ecM) ?_ ?_ ?_)
    · intro t ht
      split_ifs <;> omega
    · intro t ht t' ht' heq
      have htn : t < conf.ecN := ht
      have htn' : t' < conf.ecN := ht'
      dsimp only at heq
      split_ifs at heq <;> omega
    · intro t ht
      by_cases htm : t < conf.ecM
      · rw [stackedRow, if_pos htm, if_pos htm, hrow t htm]
      · rw [stackedRow, if_neg htm, if_neg htm, hfirst.inv.unit _ (by omega)]
        funext j
        exact if_congr (by omega) rfl rfl
  · intro j hj
    have hcell := hmat 0 (by omega) j hj
    rw [Nat.zero_mul, Nat.zero_add] at hcell
    rw [hcell]
    exact hfirst.ones ⟨j, hj⟩
  · intro i hi
    have hcell := hmat i hi 0 hk
    rw [Nat.add_zero, Nat.add_zero] at hcell
    rw [hcell]
    rcases Nat.eq_zero_or_pos i with rfl | hpos
    · exact hfirst.ones ⟨0, hk⟩
    · exact hfirst.first _ (by omega) (by omega)

/-- The coding matrix of `k` data blocks and `m` parity blocks exists just for `m > 0` and
`k + m ≤ 256`, and then any `k` blocks determine the stripe, the first parity block is the xor of
the data blocks, and every parity block has the first data block once. -/
theorem reedSolVandermondeCodingMatrix_spec (hk : 0 < conf.ecK) (heap heap' : IntArr) :
    (conf.ecK < conf.ecN ∧ conf.ecN ≤ 256 ∧
      ∃ mat, reedSolVandermondeCodingMatrix conf.ecK conf.ecM heap heap' = .ok mat ∧
        LinCode.AnyRowsIndependent conf.ecN (stackedRow conf mat) ∧
        (∀ j < conf.ecK, mat j = 1) ∧ ∀ i < conf.ecM, mat (i * conf.ecK) = 1) ∨
    ((conf.ecN ≤ conf.ecK ∨ 256 < conf.ecN) ∧
      reedSolVandermondeCodingMatrix conf.ecK conf.ecM heap heap' = .error .null) := by
  by_cases h : conf.ecK < conf.ecN ∧ conf.ecN ≤ 256
  · exact Or.inl ⟨h.1, h.2, reedSolVandermondeCodingMatrix_cases hk h.1 h.2 heap heap'⟩
  · have hout : conf.ecN ≤ conf.ecK ∨ 256 < conf.ecN := by omega
    refine Or.inr ⟨hout, ?_⟩
    have hnull : conf.ecK + conf.ecM ≤ conf.ecK ∨ 256 < conf.ecK + conf.ecM := by
      rw [Config.ecM]
      omega
    rw [reedSolVandermondeCodingMatrix, reedSolBigVandermonde_eq_null hnull]
    rfl

/-- The code of two data blocks and their xor. -/
theorem reedSolVandermondeCodingMatrix_spec_xor :
    (xorConf.ecK < xorConf.ecN ∧ xorConf.ecN ≤ 256 ∧
      ∃ mat, reedSolVandermondeCodingMatrix xorConf.ecK xorConf.ecM (fun _ => 0) (fun _ => 0) =
          .ok mat ∧
        LinCode.AnyRowsIndependent xorConf.ecN (stackedRow xorConf mat) ∧
        (∀ j < xorConf.ecK, mat j = 1) ∧ ∀ i < xorConf.ecM, mat (i * xorConf.ecK) = 1) ∨
    ((xorConf.ecN ≤ xorConf.ecK ∨ 256 < xorConf.ecN) ∧
      reedSolVandermondeCodingMatrix xorConf.ecK xorConf.ecM (fun _ => 0) (fun _ => 0) =
        .error .null) :=
  reedSolVandermondeCodingMatrix_spec (by decide) _ _

end Coding

end CoRD
