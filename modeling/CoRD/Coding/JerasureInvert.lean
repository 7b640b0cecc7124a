import CoRD.Field.Elimination
import CoRD.Repair.RSUtil
import CoRD.Util.Fibers

/-!
# JerasureInvert — matrix inversion of the coding library

`jerasure_invert_matrix` and `jerasure_invertible_matrix` with `w = 8`, on flat arrays.  The first
pass goes through the columns and makes the matrix upper triangular, and returns when a column has
no pivot; the second starts at the bottom and clears what is above the diagonal.  Every operation
on `mat` is done to `inv` as well, but for the second pass, which only clears the entry of `mat`.
-/

namespace CoRD

/-- `galois_single_divide(x, y, 8)`. -/
def galoisSingleDivide (x y : GF256) : GF256 :=
  if x = 0 then 0 else if y = 0 then GF256.ofInt (-1) else x * y⁻¹

/-! ## Turns of the loops over the columns -/

/-- Swap the entries of column `k` of the rows that start at `rowStart` and `rs2`. -/
def swapTurn (rowStart rs2 : Nat) (a : IntArr) (k : Nat) : IntArr :=
  Function.update (Function.update a (rowStart + k) (a (rs2 + k))) (rs2 + k) (a (rowStart + k))

def multiplyTurn (rowStart : Nat) (inverse : GF256) (a : IntArr) (j : Nat) : IntArr :=
  Function.update a (rowStart + j) (a (rowStart + j) * inverse)

def xorTurn (rs2 rowStart : Nat) (a : IntArr) (x : Nat) : IntArr :=
  Function.update a (rs2 + x) (a (rs2 + x) + a (rowStart + x))

def addTurn (rs2 rowStart : Nat) (tmp : GF256) (a : IntArr) (x : Nat) : IntArr :=
  Function.update a (rs2 + x) (a (rs2 + x) + tmp * a (rowStart + x))

/-- The turn of a loop that treats `mat` and `inv` alike. -/
def bothTurn (turn : IntArr → Nat → IntArr) (st : IntArr × IntArr) (k : Nat) : IntArr × IntArr :=
  (turn st.1 k, turn st.2 k)

/-! ## The functions -/

section Invert

variable (rows : Nat)

/-- Row `i` of the identity, written to `inv`; the counter of the source is the position. -/
def writeIdentityRow (inv : IntArr) (i : Nat) : IntArr :=
  (List.range rows).foldl
    (fun inv j => Function.update inv (i * rows + j) (if i = j then 1 else 0)) inv

def writeIdentity (inv : IntArr) : IntArr :=
  (List.range rows).foldl (writeIdentityRow rows) inv

/-- The search for a row below with an entry in column `i`. -/
def searchRow (mat : IntArr) (i : Nat) : Option Nat :=
  (List.range' (i + 1) (rows - (i + 1))).find? fun j => mat (rows * j + i) ≠ 0

/-- Swap rows when the element `i, i` is zero; the error is the `return -1`. -/
def invertSwap (st : IntArr × IntArr) (i : Nat) : Except (IntArr × IntArr) (IntArr × IntArr) :=
  if st.1 (rows * i + i) = 0 then
    match searchRow rows st.1 i with
    | none => .error st
    | some j => .ok ((List.range rows).foldl (bothTurn (swapTurn (rows * i) (j * rows))) st)
  else .ok st

/-- Multiply the row by one over the element `i, i`. -/
def invertScale (st : IntArr × IntArr) (i : Nat) : IntArr × IntArr :=
  let tmp := st.1 (rows * i + i)
  if tmp ≠ 1 then
    (List.range rows).foldl (bothTurn (multiplyTurn (rows * i) (galoisSingleDivide 1 tmp))) st
  else st

/-- Add a multiple of row `i` to row `j`. -/
def invertAdd (i : Nat) (st : IntArr × IntArr) (j : Nat) : IntArr × IntArr :=
  let tmp := st.1 (rows * j + i)
  if tmp ≠ 0 then
    if tmp = 1 then (List.range rows).foldl (bothTurn (xorTurn (rows * j) (rows * i))) st
    else (List.range rows).foldl (bothTurn (addTurn (rows * j) (rows * i) tmp)) st
  else st

/-- One column of the first pass. -/
def invertColumn (st : IntArr × IntArr) (i : Nat) :
    Except (IntArr × IntArr) (IntArr × IntArr) := do
  let st ← invertSwap rows st i
  return (List.range' (i + 1) (rows - (i + 1))).foldl (invertAdd rows i) (invertScale rows st i)

/-- Clear the element `j, i`, which is above the diagonal. -/
def invertBack (i : Nat) (st : IntArr × IntArr) (j : Nat) : IntArr × IntArr :=
  let tmp := st.1 (j * rows + i)
  if tmp ≠ 0 then
    (Function.update st.1 (j * rows + i) 0,
      (List.range rows).foldl (addTurn (j * rows) (i * rows) tmp) st.2)
  else st

/-- `jerasure_invert_matrix(mat, inv, rows, 8)`: what it returns, and what it leaves in `mat` and
`inv`. -/
def jerasureInvertMatrix (mat inv : IntArr) : Int × IntArr × IntArr :=
  match (List.range rows).foldlM (invertColumn rows) (mat, writeIdentity rows inv) with
  | .error st => (-1, st)
  | .ok st =>
      (0, (List.range rows).reverse.foldl
        (fun st i => (List.range i).foldl (invertBack rows i) st) st)

/-! `jerasure_invertible_matrix` is the first pass on `mat` alone. -/

def invertibleSwap (mat : IntArr) (i : Nat) : Except IntArr IntArr :=
  if mat (rows * i + i) = 0 then
    match searchRow rows mat i with
    | none => .error mat
    | some j => .ok ((List.range rows).foldl (swapTurn (rows * i) (j * rows)) mat)
  else .ok mat

def invertibleScale (mat : IntArr) (i : Nat) : IntArr :=
  let tmp := mat (rows * i + i)
  if tmp ≠ 1 then
    (List.range rows).foldl (multiplyTurn (rows * i) (galoisSingleDivide 1 tmp)) mat
  else mat

def invertibleAdd (i : Nat) (mat : IntArr) (j : Nat) : IntArr :=
  let tmp := mat (rows * j + i)
  if tmp ≠ 0 then
    if tmp = 1 then (List.range rows).foldl (xorTurn (rows * j) (rows * i)) mat
    else (List.range rows).foldl (addTurn (rows * j) (rows * i) tmp) mat
  else mat

def invertibleColumn (mat : IntArr) (i : Nat) : Except IntArr IntArr := do
  let mat ← invertibleSwap rows mat i
  return (List.range' (i + 1) (rows - (i + 1))).foldl (invertibleAdd rows i)
    (invertibleScale rows mat i)

/-- `jerasure_invertible_matrix(mat, rows, 8)`: what it returns, and what it leaves in `mat`. -/
def jerasureInvertibleMatrix (mat : IntArr) : Int × IntArr :=
  match (List.range rows).foldlM (invertibleColumn rows) mat with
  | .error mat => (0, mat)
  | .ok mat => (1, mat)

end Invert

/-! ## The loops are row operations -/

section Loops

variable {k : Nat}

theorem add_mod_row (i : Nat) {c : Nat} : c < k → (i * k + c) % k = c := by
  intro hc
  rw [Nat.mul_comm, Nat.mul_add_mod, Nat.mod_eq_of_lt hc]

theorem eq_row_add_iff {i c x : Nat} : c < k → (x = i * k + c ↔ x / k = i ∧ x % k = c) := by
  intro hc
  constructor
  · rintro rfl
    exact ⟨mul_add_div_eq ⟨c, hc⟩, add_mod_row i hc⟩
  · rintro ⟨rfl, rfl⟩
    rw [Nat.mul_comm]
    exact (Nat.div_add_mod x k).symm

/-- A loop that rewrites row `j` column by column. -/
theorem foldl_rewriteRow {turn : IntArr → Nat → IntArr} {j : Nat} (g : IntArr → Nat → GF256)
    (hturn : ∀ a c, turn a c = Function.update a (j * k + c) (g a c))
    (hg : ∀ a b c, c < k → (∀ i, a (i * k + c) = b (i * k + c)) → g a c = g b c)
    (a : IntArr) (x : Nat) (hk : 0 < k) :
    (List.range k).foldl turn a x = if x / k = j then g a (x % k) else a x := by
  have hloop : Fibers.TurnBy (· < k) (· % k)
      (fun a x => if x / k = j then g a (x % k) else a x) turn := by
    refine ⟨fun a c x hc => ?_, fun a b x hab => ?_⟩
    · rw [hturn, Function.update_apply]
      by_cases hx : x = j * k + c
      · obtain ⟨hdiv, hmod⟩ := (eq_row_add_iff hc).1 hx
        rw [if_pos hx, if_pos hmod, if_pos hdiv, hmod]
      · rw [if_neg hx]
        by_cases hmod : x % k = c
        · have hdiv : x / k ≠ j := fun hdiv => hx ((eq_row_add_iff hc).2 ⟨hdiv, hmod⟩)
          rw [if_pos hmod, if_neg hdiv]
        · rw [if_neg hmod]
    · have hc := Nat.mod_lt x hk
      have hcol := hg a b (x % k) hc fun i => hab _ (add_mod_row i hc)
      rw [hcol, hab x rfl]
  rw [hloop.foldl_range, if_pos (Nat.mod_lt x hk)]

theorem foldl_swapTurn (i j : Nat) (a : IntArr) (x : Nat) (hk : 0 < k) :
    (List.range k).foldl (swapTurn (i * k) (j * k)) a x =
      if x / k = j then a (i * k + x % k) else if x / k = i then a (j * k + x % k) else a x := by
  have hloop : Fibers.TurnBy (· < k) (· % k)
      (fun a x =>
        if x / k = j then a (i * k + x % k) else if x / k = i then a (j * k + x % k) else a x)
      (swapTurn (i * k) (j * k)) := by
    refine ⟨fun a c x hc => ?_, fun a b x hab => ?_⟩
    · rw [swapTurn, Function.update_apply, Function.update_apply]
      simp only [eq_row_add_iff hc]
      by_cases hmod : x % k = c
      · simp only [hmod, and_true, if_true]
      · simp only [hmod, and_false, if_false]
    · have hc := Nat.mod_lt x hk
      have hrow : ∀ i, a (i * k + x % k) = b (i * k + x % k) := fun i => hab _ (add_mod_row i hc)
      rw [hrow, hrow, hab x rfl]
  rw [hloop.foldl_range, if_pos (Nat.mod_lt x hk)]

theorem foldl_multiplyTurn (i : Nat) (c : GF256) (a : IntArr) (x : Nat) (hk : 0 < k) :
    (List.range k).foldl (multiplyTurn (i * k) c) a x =
      if x / k = i then a (i * k + x % k) * c else a x :=
  foldl_rewriteRow (fun a y => a (i * k + y) * c) (fun _ _ => rfl)
    (fun _ _ _ _ hab => by rw [hab]) a x hk

theorem foldl_addTurn (i j : Nat) (tmp : GF256) (a : IntArr) (x : Nat) (hk : 0 < k) :
    (List.range k).foldl (addTurn (j * k) (i * k) tmp) a x =
      if x / k = j then a (j * k + x % k) + tmp * a (i * k + x % k) else a x :=
  foldl_rewriteRow (fun a y => a (j * k + y) + tmp * a (i * k + y)) (fun _ _ => rfl)
    (fun _ _ _ _ hab => by rw [hab, hab]) a x hk

/-- The loop for an entry that is one is the general one without the multiplication. -/
theorem xorTurn_eq (rs2 rowStart : Nat) : xorTurn rs2 rowStart = addTurn rs2 rowStart 1 := by
  funext a x
  rw [xorTurn, addTurn, one_mul]

theorem foldl_bothTurn (turn : IntArr → Nat → IntArr) (l : List Nat) (st : IntArr × IntArr) :
    l.foldl (bothTurn turn) st = (l.foldl turn st.1, l.foldl turn st.2) := by
  induction l generalizing st with
  | nil =>
      rfl
  | cons c l ih =>
      exact ih _

end Loops

section Matrices

variable {k : Nat}

theorem squareOf_apply (a : IntArr) (r c : Fin k) : squareOf k a r c = a (r * k + c) := rfl

theorem pos_of_fin (i : Fin k) : 0 < k :=
  Nat.lt_of_le_of_lt (Nat.zero_le _) i.isLt

theorem squareOf_swap (i j : Fin k) (a : IntArr) :
    squareOf k ((List.range k).foldl (swapTurn (i * k) (j * k)) a) =
      Matrix.swap GF256 i j * squareOf k a := by
  refine Matrix.ext fun r c => ?_
  rw [Elimination.swap_mul_apply, squareOf_apply, foldl_swapTurn _ _ _ _ (pos_of_fin i),
    mul_add_div_eq, add_mod_row _ c.isLt]
  simp only [squareOf_apply, Fin.val_inj]
  by_cases hi : r = i
  · by_cases hj : r = j
    · rw [if_pos hj, if_pos hi, ← hi, ← hj]
    · rw [if_neg hj, if_pos hi, if_pos hi]
  · rw [if_neg hi, if_neg hi]

theorem squareOf_multiply (i : Fin k) (c : GF256) (a : IntArr) :
    squareOf k ((List.range k).foldl (multiplyTurn (i * k) c) a) =
      Elimination.scaleRow i c * squareOf k a := by
  refine Matrix.ext fun r s => ?_
  rw [Elimination.scaleRow_mul_apply, squareOf_apply, foldl_multiplyTurn _ _ _ _ (pos_of_fin i),
    mul_add_div_eq, add_mod_row _ s.isLt]
  simp only [squareOf_apply, Fin.val_inj]
  by_cases hi : r = i
  · rw [if_pos hi, if_pos hi, hi, mul_comm]
  · rw [if_neg hi, if_neg hi]

theorem squareOf_add (i j : Fin k) (tmp : GF256) (a : IntArr) :
    squareOf k ((List.range k).foldl (addTurn (j * k) (i * k) tmp) a) =
      Matrix.transvection j i tmp * squareOf k a := by
  refine Matrix.ext fun r s => ?_
  rw [Elimination.transvection_mul_apply, squareOf_apply, foldl_addTurn _ _ _ _ _ (pos_of_fin i),
    mul_add_div_eq, add_mod_row _ s.isLt]
  simp only [squareOf_apply, Fin.val_inj]
  by_cases hj : r = j
  · rw [if_pos hj, if_pos hj, hj]
  · rw [if_neg hj, if_neg hj]

/-- `mat` and `inv` as matrices. -/
def squares (k : Nat) (st : IntArr × IntArr) :
    Matrix (Fin k) (Fin k) GF256 × Matrix (Fin k) (Fin k) GF256 :=
  (squareOf k st.1, squareOf k st.2)

/-- From `st` to `st'` rows were replaced by independent combinations of rows, the same ones in
both arrays, and nothing was written behind the matrices. -/
structure RowOps (k : Nat) (st st' : IntArr × IntArr) : Prop where
  rows : Elimination.RowEquiv (squares k st) (squares k st')
  rest : ∀ x, k ≤ x / k → st'.1 x = st.1 x ∧ st'.2 x = st.2 x

theorem RowOps.refl (st : IntArr × IntArr) : RowOps k st st :=
  ⟨Elimination.RowEquiv.refl _, fun _ _ => ⟨rfl, rfl⟩⟩

theorem RowOps.trans {st st' st'' : IntArr × IntArr} :
    RowOps k st st' → RowOps k st' st'' → RowOps k st st'' := by
  rintro ⟨hrows, hrest⟩ ⟨hrows', hrest'⟩
  refine ⟨hrows.trans hrows', fun x hx => ⟨?_, ?_⟩⟩
  · rw [(hrest' x hx).1, (hrest x hx).1]
  · rw [(hrest' x hx).2, (hrest x hx).2]

/-- One loop over both arrays. -/
theorem RowOps.of_loop {turn : IntArr → Nat → IntArr} {P : Matrix (Fin k) (Fin k) GF256}
    (hP : IsUnit P)
    (hmul : ∀ a, squareOf k ((List.range k).foldl turn a) = P * squareOf k a)
    (hrest : ∀ a x, k ≤ x / k → (List.range k).foldl turn a x = a x) (st : IntArr × IntArr) :
    RowOps k st ((List.range k).foldl (bothTurn turn) st) := by
  rw [foldl_bothTurn]
  exact ⟨⟨P, hP, hmul _, hmul _⟩, fun x hx => ⟨hrest _ x hx, hrest _ x hx⟩⟩

theorem RowOps.swap (i j : Fin k) (st : IntArr × IntArr) :
    RowOps k st ((List.range k).foldl (bothTurn (swapTurn (i * k) (j * k))) st) := by
  refine RowOps.of_loop (Elimination.isUnit_swap i j) (squareOf_swap i j) ?_ st
  intro a x hx
  rw [foldl_swapTurn _ _ _ _ (pos_of_fin i), if_neg (by omega), if_neg (by omega)]

theorem RowOps.multiply (i : Fin k) {c : GF256} (hc : c ≠ 0) (st : IntArr × IntArr) :
    RowOps k st ((List.range k).foldl (bothTurn (multiplyTurn (i * k) c)) st) := by
  refine RowOps.of_loop (Elimination.isUnit_scaleRow i hc) (squareOf_multiply i c) ?_ st
  intro a x hx
  rw [foldl_multiplyTurn _ _ _ _ (pos_of_fin i), if_neg (by omega)]

theorem RowOps.add {i j : Fin k} (hji : j ≠ i) (tmp : GF256) (st : IntArr × IntArr) :
    RowOps k st ((List.range k).foldl (bothTurn (addTurn (j * k) (i * k) tmp)) st) := by
  refine RowOps.of_loop (Elimination.isUnit_transvection tmp hji) (squareOf_add i j tmp) ?_ st
  intro a x hx
  rw [foldl_addTurn _ _ _ _ _ (pos_of_fin i), if_neg (by omega)]

end Matrices

/-! ## The first pass -/

section FirstPass

variable {k : Nat} {i : Fin k} {st : IntArr × IntArr}

theorem searchRow_eq_none {mat : IntArr} :
    searchRow k mat i = none → ∀ r, i < r → squareOf k mat r i = 0 := by
  intro h r hr
  rw [searchRow, List.find?_eq_none] at h
  have hzero := h r (List.mem_range'_1.2 ⟨hr, by omega⟩)
  rw [squareOf_apply, Nat.mul_comm]
  simpa using hzero

theorem searchRow_eq_some {mat : IntArr} {j : Nat} :
    searchRow k mat i = some j → ∃ r : Fin k, r.val = j ∧ i < r ∧ squareOf k mat r i ≠ 0 := by
  intro h
  have hmem := List.mem_range'_1.1 (List.mem_of_find?_eq_some h)
  have hne := List.find?_some h
  refine ⟨⟨j, by omega⟩, rfl, Fin.lt_def.2 hmem.1, ?_⟩
  rw [squareOf_apply, Nat.mul_comm]
  simpa using hne

/-- Either there is a pivot now, or there is none and the matrix is singular. -/
theorem invertSwap_spec (hupper : Elimination.Upper i (squareOf k st.1)) :
    (∃ st', invertSwap k st i = .ok st' ∧ RowOps k st st' ∧
      Elimination.Upper i (squareOf k st'.1) ∧ squareOf k st'.1 i i ≠ 0) ∨
    (invertSwap k st i = .error st ∧ ¬ IsUnit (squareOf k st.1)) := by
  have hpos : st.1 (k * i + i) = squareOf k st.1 i i := by
    rw [squareOf_apply, Nat.mul_comm]
  rw [invertSwap, hpos]
  by_cases hzero : squareOf k st.1 i i = 0
  · rw [if_pos hzero]
    cases hsearch : searchRow k st.1 i with
    | none =>
        have hbelow := searchRow_eq_none hsearch
        refine Or.inr ⟨rfl, hupper.not_isUnit fun r hr => ?_⟩
        rcases hr.eq_or_lt with heq | hlt
        · rw [← heq, hzero]
        · exact hbelow r hlt
    | some j =>
        obtain ⟨r, rfl, hir, hr⟩ := searchRow_eq_some hsearch
        rw [Nat.mul_comm k i]
        refine Or.inl ⟨_, rfl, RowOps.swap i r st, ?_, ?_⟩
        · rw [foldl_bothTurn, squareOf_swap]
          exact hupper.swap hir.le
        · rw [foldl_bothTurn, squareOf_swap, Elimination.swap_mul_apply, if_pos rfl]
          exact hr
  · rw [if_neg hzero]
    exact Or.inl ⟨st, rfl, RowOps.refl st, hupper, hzero⟩

theorem galoisSingleDivide_one {y : GF256} : y ≠ 0 → galoisSingleDivide 1 y = y⁻¹ := by
  intro hy
  rw [galoisSingleDivide, if_neg one_ne_zero, if_neg hy, one_mul]

theorem invertScale_spec (hupper : Elimination.Upper i (squareOf k st.1))
    (hpivot : squareOf k st.1 i i ≠ 0) :
    RowOps k st (invertScale k st i) ∧
      Elimination.Clearing i (i + 1) (squareOf k (invertScale k st i).1) := by
  have hpos : st.1 (k * i + i) = squareOf k st.1 i i := by
    rw [squareOf_apply, Nat.mul_comm]
  simp only [invertScale, hpos]
  by_cases hone : squareOf k st.1 i i = 1
  · rw [if_neg (not_not.2 hone)]
    exact ⟨RowOps.refl st, hupper, hone, fun r hr hlt => absurd hlt (by omega)⟩
  · rw [if_pos hone, galoisSingleDivide_one hpivot, Nat.mul_comm k i]
    refine ⟨RowOps.multiply i (inv_ne_zero hpivot) st, ?_⟩
    rw [foldl_bothTurn, squareOf_multiply]
    exact hupper.scale hpivot

theorem invertAdd_spec {j : Fin k} (hij : i < j)
    (h : Elimination.Clearing i j (squareOf k st.1)) :
    RowOps k st (invertAdd k i st j) ∧
      Elimination.Clearing i (j + 1) (squareOf k (invertAdd k i st j).1) := by
  have hpos : st.1 (j * k + i) = squareOf k st.1 j i := rfl
  have hloop : invertAdd k i st j =
      if squareOf k st.1 j i ≠ 0 then
        (List.range k).foldl (bothTurn (addTurn (j * k) (i * k) (squareOf k st.1 j i))) st
      else st := by
    simp only [invertAdd, Nat.mul_comm k, hpos]
    by_cases hone : squareOf k st.1 j i = 1
    · rw [if_pos hone, hone, xorTurn_eq]
    · rw [if_neg hone]
  rw [hloop]
  by_cases hzero : squareOf k st.1 j i = 0
  · rw [if_neg (not_not.2 hzero)]
    exact ⟨RowOps.refl st, h.skip hzero⟩
  · rw [if_pos hzero]
    refine ⟨RowOps.add hij.ne' _ st, ?_⟩
    rw [foldl_bothTurn, squareOf_add, ← GF256.neg_eq (squareOf k st.1 j i)]
    exact h.add hij

/-- The rows below the pivot, from row `j` on. -/
theorem foldl_invertAdd {n j : Nat} (hij : i.val < j) (hn : j + n = k)
    (h : Elimination.Clearing i j (squareOf k st.1)) :
    RowOps k st ((List.range' j n).foldl (invertAdd k i) st) ∧
      Elimination.Upper (i + 1) (squareOf k ((List.range' j n).foldl (invertAdd k i) st).1) := by
  induction n generalizing j st with
  | zero =>
      have hj : j = k := by omega
      rw [hj] at h
      exact ⟨RowOps.refl st, h.done⟩
  | succ n ih =>
      obtain ⟨hops, hclear⟩ := invertAdd_spec (j := ⟨j, by omega⟩) (Fin.lt_def.2 hij) h
      obtain ⟨hops', hupper⟩ := ih (Nat.lt_succ_of_lt hij) (by omega) hclear
      rw [List.range'_succ, List.foldl_cons]
      exact ⟨hops.trans hops', hupper⟩

/-- One column. -/
theorem invertColumn_spec (hupper : Elimination.Upper i (squareOf k st.1)) :
    (∃ st', invertColumn k st i = .ok st' ∧ RowOps k st st' ∧
      Elimination.Upper (i + 1) (squareOf k st'.1)) ∨
    (invertColumn k st i = .error st ∧ ¬ IsUnit (squareOf k st.1)) := by
  rcases invertSwap_spec hupper with ⟨st₁, hok, hops, hupper₁, hpivot⟩ | ⟨herr, hsing⟩
  · obtain ⟨hops₂, hclear⟩ := invertScale_spec hupper₁ hpivot
    obtain ⟨hops₃, hupper₃⟩ := foldl_invertAdd (n := k - (i + 1)) (Nat.lt_succ_self _) (by omega)
      hclear
    refine Or.inl ⟨_, ?_, hops.trans (hops₂.trans hops₃), hupper₃⟩
    rw [invertColumn, hok]
    rfl
  · refine Or.inr ⟨?_, hsing⟩
    rw [invertColumn, herr]
    rfl

/-- The first pass over the columns below `n`. -/
theorem foldlM_invertColumn (st : IntArr × IntArr) {n : Nat} :
    n ≤ k →
      (∃ st', (List.range n).foldlM (invertColumn k) st = .ok st' ∧ RowOps k st st' ∧
        Elimination.Upper n (squareOf k st'.1)) ∨
      (∃ st', (List.range n).foldlM (invertColumn k) st = .error st' ∧ RowOps k st st' ∧
        ¬ IsUnit (squareOf k st'.1)) := by
  induction n with
  | zero =>
      intro _
      exact Or.inl ⟨st, rfl, RowOps.refl st, Elimination.Upper.zero _⟩
  | succ n ih =>
      intro hn
      rw [List.range_succ, List.foldlM_append]
      rcases ih (by omega) with ⟨st₁, hok, hops, hupper⟩ | ⟨st₁, herr, hops, hsing⟩
      · have hlast : (Except.ok st₁ >>= fun s => [n].foldlM (invertColumn k) s) =
            invertColumn k st₁ n := bind_pure (invertColumn k st₁ n)
        rw [hok, hlast]
        rcases invertColumn_spec (i := ⟨n, hn⟩) hupper with
          ⟨st₂, hok₂, hops₂, hupper₂⟩ | ⟨herr, hsing⟩
        · exact Or.inl ⟨st₂, hok₂, hops.trans hops₂, hupper₂⟩
        · exact Or.inr ⟨st₁, herr, hops, hsing⟩
      · rw [herr]
        exact Or.inr ⟨st₁, rfl, hops, hsing⟩

end FirstPass

/-! ## The second pass -/

section SecondPass

variable {k : Nat} {i : Fin k} {st : IntArr × IntArr}

theorem invertBack_spec {j : Fin k} (hji : j < i)
    (h : Elimination.ClearingAbove i j (squareOf k st.1)) :
    RowOps k st (invertBack k i st j) ∧
      Elimination.ClearingAbove i (j + 1) (squareOf k (invertBack k i st j).1) := by
  have hpos : st.1 (j * k + i) = squareOf k st.1 j i := rfl
  simp only [invertBack, hpos]
  by_cases hzero : squareOf k st.1 j i = 0
  · rw [if_neg (not_not.2 hzero)]
    exact ⟨RowOps.refl st, h.skip hzero⟩
  · rw [if_pos hzero]
    -- clearing the one entry of `mat` is adding the multiple of the unit row `i`
    have hmat : squareOf k (Function.update st.1 (j * k + i) 0) =
        Matrix.transvection j i (squareOf k st.1 j i) * squareOf k st.1 := by
      refine Matrix.ext fun r c => ?_
      have hcell := h.add_apply r c
      rw [GF256.neg_eq] at hcell
      rw [hcell, squareOf_apply, Function.update_apply]
      simp only [eq_row_add_iff i.isLt, mul_add_div_eq, add_mod_row _ c.isLt, Fin.val_inj]
      rfl
    refine ⟨⟨⟨_, Elimination.isUnit_transvection _ hji.ne, hmat, squareOf_add i j _ st.2⟩, ?_⟩, ?_⟩
    · intro x hx
      refine ⟨Function.update_of_ne ?_ _ _, ?_⟩
      · intro heq
        have hdiv := ((eq_row_add_iff i.isLt).1 heq).1
        omega
      · exact (foldl_addTurn _ _ _ _ _ (pos_of_fin i)).trans (if_neg (by omega))
    · rw [hmat, ← GF256.neg_eq (squareOf k st.1 j i)]
      exact h.add hji

theorem foldl_invertBack {n : Nat} (hn : n ≤ i) (h : Elimination.Reduced (i + 1) (squareOf k st.1)) :
    RowOps k st ((List.range n).foldl (invertBack k i) st) ∧
      Elimination.ClearingAbove i n (squareOf k ((List.range n).foldl (invertBack k i) st).1) := by
  induction n with
  | zero =>
      exact ⟨RowOps.refl st, h.start⟩
  | succ n ih =>
      obtain ⟨hops, habove⟩ := ih (by omega)
      obtain ⟨hops', habove'⟩ := invertBack_spec (j := ⟨n, by omega⟩) (Fin.lt_def.2 hn) habove
      rw [List.range_succ, List.foldl_append]
      exact ⟨hops.trans hops', habove'⟩

/-- The columns from `n - 1` down. -/
theorem foldl_reverse_invertBack {n : Nat} (hn : n ≤ k)
    (h : Elimination.Reduced n (squareOf k st.1)) :
    let st' := (List.range n).reverse.foldl
      (fun st i => (List.range i).foldl (invertBack k i) st) st
    RowOps k st st' ∧ squareOf k st'.1 = 1 := by
  induction n generalizing st with
  | zero =>
      exact ⟨RowOps.refl st, h.eq_one⟩
  | succ n ih =>
      obtain ⟨hops, habove⟩ := foldl_invertBack (i := ⟨n, hn⟩) (Nat.le_refl n) h
      obtain ⟨hops', hone⟩ := ih (by omega) habove.done
      rw [List.range_succ, List.reverse_append]
      exact ⟨hops.trans hops', hone⟩

end SecondPass

/-! ## Inversion -/

section Inversion

variable {k : Nat}

theorem writeIdentityRow_apply (inv : IntArr) (i x : Nat) (hk : 0 < k) :
    writeIdentityRow k inv i x =
      if x / k = i then (if i = x % k then 1 else 0) else inv x :=
  foldl_rewriteRow (fun _ c => if i = c then 1 else 0) (fun _ _ => rfl) (fun _ _ _ _ _ => rfl)
    inv x hk

theorem writeIdentity_apply (inv : IntArr) (x : Nat) (hk : 0 < k) :
    writeIdentity k inv x =
      if x / k < k then (if x / k = x % k then 1 else 0) else inv x := by
  have hloop : Fibers.TurnBy (· < k) (· / k) (fun _ x => if x / k = x % k then (1 : GF256) else 0)
      (writeIdentityRow k) := by
    refine ⟨fun a i y _ => ?_, fun _ _ _ _ => rfl⟩
    rw [writeIdentityRow_apply _ _ _ hk]
    by_cases hy : y / k = i
    · rw [if_pos hy, if_pos hy, hy]
    · rw [if_neg hy, if_neg hy]
  exact hloop.foldl_range inv x

theorem squareOf_writeIdentity (inv : IntArr) : squareOf k (writeIdentity k inv) = 1 := by
  refine Matrix.ext fun r c => ?_
  rw [squareOf_apply, writeIdentity_apply _ _ (pos_of_fin r), mul_add_div_eq, add_mod_row _ c.isLt,
    if_pos r.isLt, Matrix.one_apply]
  simp only [Fin.val_inj]

theorem writeIdentity_rest (inv : IntArr) {x : Nat} (hx : k ≤ x / k) :
    writeIdentity k inv x = inv x := by
  rcases Nat.eq_zero_or_pos k with rfl | hk
  · rfl
  · rw [writeIdentity_apply _ _ hk, if_neg (by omega)]

/-- A call that returns 0 has made the identity of `mat`; one that returns -1 has met a singular
matrix. -/
theorem jerasureInvertMatrix_cases (mat inv : IntArr) :
    ∃ st', RowOps k (mat, writeIdentity k inv) st' ∧
      ((jerasureInvertMatrix k mat inv = (0, st') ∧ squareOf k st'.1 = 1) ∨
        (jerasureInvertMatrix k mat inv = (-1, st') ∧ ¬ IsUnit (squareOf k st'.1))) := by
  rcases foldlM_invertColumn (mat, writeIdentity k inv) (Nat.le_refl k) with
    ⟨st₁, hok, hops, hupper⟩ | ⟨st₁, herr, hops, hsing⟩
  · obtain ⟨hops', hone⟩ := foldl_reverse_invertBack (Nat.le_refl k) hupper.reduced
    refine ⟨_, hops.trans hops', Or.inl ⟨?_, hone⟩⟩
    rw [jerasureInvertMatrix, hok]
  · refine ⟨st₁, hops, Or.inr ⟨?_, hsing⟩⟩
    rw [jerasureInvertMatrix, herr]

/-- The row operations that lead from the matrix to the identity multiply to the inverse. -/
theorem RowOps.inverse {mat inv : IntArr} {st' : IntArr × IntArr}
    (h : RowOps k (mat, writeIdentity k inv) st') (hone : squareOf k st'.1 = 1) :
    squareOf k st'.2 * squareOf k mat = 1 := by
  have hrows := h.rows
  simp only [squares, hone, squareOf_writeIdentity] at hrows
  exact hrows.inverse

/-- The function the decoding coefficients rest on, whatever `inv` held before. -/
theorem jerasureInvertMatrix_inverts (inv : Nat → IntArr → IntArr) :
    InvertsMatrix fun k mat => (jerasureInvertMatrix k mat (inv k mat)).2 := by
  intro k mat hindep
  have hunit : IsUnit (squareOf k mat) := Matrix.linearIndependent_rows_iff_isUnit.1 hindep
  obtain ⟨st', hops, ⟨heq, hone⟩ | ⟨-, hsing⟩⟩ :=
    jerasureInvertMatrix_cases (k := k) mat (inv k mat)
  · simp only [heq]
    exact hops.inverse hone
  · exact absurd (hops.rows.isUnit_iff.2 hunit) hsing

/-- The call returns 0 just for the invertible matrices, and then `inv` is the inverse and `mat`
the identity; in any case nothing is written behind the `k * k` entries. -/
theorem jerasureInvertMatrix_spec (k : Nat) (mat inv : IntArr) :
    let (status, mat', inv') := jerasureInvertMatrix k mat inv
    (status = 0 ∧ squareOf k inv' * squareOf k mat = 1 ∧ squareOf k mat * squareOf k inv' = 1 ∧
        squareOf k mat' = 1 ∨
      status = -1 ∧ ∀ B, B * squareOf k mat ≠ 1) ∧
    ∀ x, k * k ≤ x → mat' x = mat x ∧ inv' x = inv x := by
  obtain ⟨st', hops, hcases⟩ := jerasureInvertMatrix_cases (k := k) mat inv
  have hrest : ∀ x, k * k ≤ x → st'.1 x = mat x ∧ st'.2 x = inv x := by
    intro x hx
    have hrow : k ≤ x / k := by
      rcases Nat.eq_zero_or_pos k with rfl | hk
      · exact Nat.zero_le _
      · exact (Nat.le_div_iff_mul_le hk).2 hx
    obtain ⟨hmat, hinv⟩ := hops.rest x hrow
    exact ⟨hmat, hinv.trans (writeIdentity_rest inv hrow)⟩
  rcases hcases with ⟨heq, hone⟩ | ⟨heq, hsing⟩
  · rw [heq]
    have hleft := hops.inverse hone
    exact ⟨Or.inl ⟨rfl, hleft, mul_eq_one_comm.1 hleft, hone⟩, hrest⟩
  · rw [heq]
    refine ⟨Or.inr ⟨rfl, fun B hB => ?_⟩, hrest⟩
    exact hsing (hops.rows.isUnit_iff.2 (IsUnit.of_mul_eq_one_right B hB))

end Inversion

/-! ## The test alone -/

section Test

variable (k : Nat)

/-- What is left of a pass when `inv` is forgotten. -/
def dropInv : Except (IntArr × IntArr) (IntArr × IntArr) → Except IntArr IntArr
  | .error st => .error st.1
  | .ok st => .ok st.1

theorem dropInv_invertSwap (st : IntArr × IntArr) (i : Nat) :
    dropInv (invertSwap k st i) = invertibleSwap k st.1 i := by
  rw [invertSwap, invertibleSwap]
  by_cases hzero : st.1 (k * i + i) = 0
  · rw [if_pos hzero, if_pos hzero]
    cases searchRow k st.1 i with
    | none =>
        rfl
    | some j =>
        simp only [foldl_bothTurn, dropInv]
  · rw [if_neg hzero, if_neg hzero]
    rfl

theorem invertScale_fst (st : IntArr × IntArr) (i : Nat) :
    (invertScale k st i).1 = invertibleScale k st.1 i := by
  simp only [invertScale, invertibleScale, foldl_bothTurn, apply_ite Prod.fst]

theorem invertAdd_fst (i : Nat) (st : IntArr × IntArr) (j : Nat) :
    (invertAdd k i st j).1 = invertibleAdd k i st.1 j := by
  simp only [invertAdd, invertibleAdd, foldl_bothTurn, apply_ite Prod.fst]

theorem foldl_invertAdd_fst (i : Nat) (l : List Nat) (st : IntArr × IntArr) :
    (l.foldl (invertAdd k i) st).1 = l.foldl (invertibleAdd k i) st.1 := by
  induction l generalizing st with
  | nil =>
      rfl
  | cons j l ih =>
      rw [List.foldl_cons, List.foldl_cons, ih, invertAdd_fst]

theorem dropInv_invertColumn (st : IntArr × IntArr) (i : Nat) :
    dropInv (invertColumn k st i) = invertibleColumn k st.1 i := by
  rw [invertColumn, invertibleColumn, ← dropInv_invertSwap]
  cases invertSwap k st i with
  | error st =>
      rfl
  | ok st =>
      have h := foldl_invertAdd_fst k i (List.range' (i + 1) (k - (i + 1))) (invertScale k st i)
      rw [invertScale_fst] at h
      exact congrArg Except.ok h

theorem dropInv_foldlM (l : List Nat) (st : IntArr × IntArr) :
    dropInv (l.foldlM (invertColumn k) st) = l.foldlM (invertibleColumn k) st.1 := by
  induction l generalizing st with
  | nil =>
      rfl
  | cons i l ih =>
      rw [List.foldlM_cons, List.foldlM_cons, ← dropInv_invertColumn]
      cases invertColumn k st i with
      | error st =>
          rfl
      | ok st =>
          exact ih st

/-- The test returns 1 just for the invertible matrices and 0 for the others, and agrees with what
the inversion returns. -/
theorem jerasureInvertibleMatrix_spec (mat : IntArr) :
    ((jerasureInvertibleMatrix k mat).1 = 1 ∧ (∃ B, B * squareOf k mat = 1) ∧
        ∀ inv, (jerasureInvertMatrix k mat inv).1 = 0) ∨
      ((jerasureInvertibleMatrix k mat).1 = 0 ∧ (∀ B, B * squareOf k mat ≠ 1) ∧
        ∀ inv, (jerasureInvertMatrix k mat inv).1 = -1) := by
  have hunit : ∀ B, B * squareOf k mat = 1 → IsUnit (squareOf k mat) :=
    fun B hB => IsUnit.of_mul_eq_one_right B hB
  have htest : ∀ inv, (jerasureInvertibleMatrix k mat).1 =
      if (jerasureInvertMatrix k mat inv).1 = 0 then 1 else 0 := by
    intro inv
    have hdrop := dropInv_foldlM k (List.range k) (mat, writeIdentity k inv)
    rw [jerasureInvertibleMatrix, jerasureInvertMatrix]
    cases hrun : (List.range k).foldlM (invertColumn k) (mat, writeIdentity k inv) with
    | error st =>
        rw [hrun] at hdrop
        rw [← hdrop]
        rfl
    | ok st =>
        rw [hrun] at hdrop
        rw [← hdrop]
        rfl
  have hstatus : ∀ inv, (jerasureInvertMatrix k mat inv).1 = 0 ∧ (∃ B, B * squareOf k mat = 1) ∨
      (jerasureInvertMatrix k mat inv).1 = -1 ∧ ∀ B, B * squareOf k mat ≠ 1 := by
    intro inv
    obtain ⟨st', hops, ⟨heq, hone⟩ | ⟨heq, hsing⟩⟩ := jerasureInvertMatrix_cases (k := k) mat inv
    · exact Or.inl ⟨by rw [heq], _, hops.inverse hone⟩
    · refine Or.inr ⟨by rw [heq], fun B hB => hsing (hops.rows.isUnit_iff.2 (hunit B hB))⟩
  -- which case it is does not depend on what `inv` held before
  by_cases hinv : ∃ B, B * squareOf k mat = 1
  · have hzero : ∀ inv, (jerasureInvertMatrix k mat inv).1 = 0 := by
      intro inv
      rcases hstatus inv with h | h
      · exact h.1
      · exact absurd hinv (not_exists.2 h.2)
    refine Or.inl ⟨?_, hinv, hzero⟩
    rw [htest fun _ => 0, if_pos (hzero _)]
  · have hneg : ∀ inv, (jerasureInvertMatrix k mat inv).1 = -1 := by
      intro inv
      rcases hstatus inv with h | h
      · exact absurd h.2 hinv
      · exact h.1
    refine Or.inr ⟨?_, not_exists.1 hinv, hneg⟩
    rw [htest fun _ => 0, if_neg (by rw [hneg]; decide)]

end Test

end CoRD
