import Mathlib.Data.List.GetD
import Mathlib.LinearAlgebra.Matrix.NonsingularInverse
import Mathlib.Tactic.IntervalCases
import CoRD.Field.Code
import CoRD.Field.Inverse
import CoRD.Update.Config
import CoRD.Util.Keyed

/-!
# RSUtil — decoding coefficients

The stacked matrix has the rows of the parity blocks first and then a row for each data block.  A
block is decoded from `k` others: their rows are copied into a square matrix, the matrix is
inverted, and the row of the block is multiplied by the inverse.

Matrices are flat `int` arrays, row by row, and their entries are bytes.  The inversion of the
coding library is a parameter: `jerasureInvertMatrix k mat` is what the call leaves in `mat` and
in `inv`.
-/

namespace CoRD

/-! ## Arrays -/

/-- An `int` array whose entries are field elements. -/
abbrev IntArr := Nat → GF256

/-- `memcpy` of `n` `int`s from position `srcPos` of `src` to position `pos` of `dst`. -/
def memcpyInts (dst : IntArr) (pos : Nat) (src : IntArr) (srcPos n : Nat) : IntArr :=
  fun x => if pos ≤ x ∧ x < pos + n then src (srcPos + (x - pos)) else dst x

/-- `jerasure_matrix_multiply(m1, m2, r1, c1, r2, c2, 8)`. -/
def jerasureMatrixMultiply (m1 m2 : IntArr) (r1 c1 r2 c2 : Nat) : IntArr :=
  fun x =>
    if x < r1 * c2 then
      (List.range r2).foldl
        (fun acc k => acc + m1 (x / c2 * c1 + k) * m2 (k * c2 + x % c2)) 0
    else 0

/-! ## The code -/

/-- What the other classes see of an `RSUtil`; `status` holds `ecN` flags. -/
structure RSUtil where
  getCoefficient : Nat → IntArr
  getCoefficientMulti : Nat → (Nat → Int) → Option IntArr

section RSUtil

variable (jerasureInvertMatrix : Nat → IntArr → IntArr × IntArr) (conf : Config) (encMat : IntArr)

def completeEncMat : IntArr :=
  (List.range conf.ecK).foldl
    (fun a i => Function.update a ((conf.ecM + i) * conf.ecK + i) 1)
    (memcpyInts (fun _ => 0) 0 encMat 0 (conf.ecK * conf.ecM))

/-- Copy row `j` of the stacked matrix to row `pos` of `eMat`. -/
def copyRow (eMat : IntArr) (pos j : Nat) : IntArr :=
  memcpyInts eMat (pos * conf.ecK) (completeEncMat conf encMat) (j * conf.ecK) conf.ecK

/-- The two copy loops of the constructor. -/
def copyOtherRows (eMat : IntArr) (i : Nat) : IntArr :=
  let eMat := (List.range (min i conf.ecK)).foldl (fun a j => copyRow conf encMat a j j) eMat
  (List.range' (i + 1) (conf.ecK - i)).foldl (fun a j => copyRow conf encMat a (j - 1) j) eMat

/-- The row of block `idx` times `dMat`. -/
def rowTimes (idx : Nat) (dMat : IntArr) : IntArr :=
  jerasureMatrixMultiply (fun x => completeEncMat conf encMat (idx * conf.ecK + x)) dMat
    1 conf.ecK conf.ecK conf.ecK

/-- One turn of the loop of the constructor, on `eMat` and `_coefficient`. -/
def coefficientStep (st : IntArr × (Nat → IntArr)) (i : Nat) : IntArr × (Nat → IntArr) :=
  let inverted := jerasureInvertMatrix conf.ecK (copyOtherRows conf encMat st.1 i)
  (inverted.1, Function.update st.2 i (rowTimes conf encMat i inverted.2))

/-- `_coefficient` behind the loop. -/
def coefficients : Nat → IntArr :=
  ((List.range conf.ecN).foldl (coefficientStep jerasureInvertMatrix conf encMat)
    (fun _ => 0, fun _ _ => 0)).2

/-- The first loop of `getCoefficient_multi`: `none` where it returns. -/
def countStatus (idx : Nat) (status : Nat → Int) : Option Nat :=
  (List.range conf.ecN).foldlM
    (fun cnt i =>
      if status i ≠ 0 ∧ idx = i then none else some (if status i ≠ 0 then cnt + 1 else cnt)) 0

/-- The loop that selects the rows, on `cnt` and `eMat`. -/
def selectRow (status : Nat → Int) (st : Nat × IntArr) (j : Nat) : Nat × IntArr :=
  if status j ≠ 0 then (st.1 + 1, copyRow conf encMat st.2 st.1 j) else st

def getCoefficientMulti (idx : Nat) (status : Nat → Int) : Option IntArr :=
  match countStatus conf idx status with
  | none => none
  | some cnt =>
      if cnt ≠ conf.ecK then none
      else
        let eMat := ((List.range conf.ecN).foldl (selectRow conf encMat status) (0, fun _ => 0)).2
        some (rowTimes conf encMat idx (jerasureInvertMatrix conf.ecK eMat).2)

/-- The constructor. -/
def RSUtil.new : RSUtil where
  getCoefficient := coefficients jerasureInvertMatrix conf encMat
  getCoefficientMulti := CoRD.getCoefficientMulti jerasureInvertMatrix conf encMat

end RSUtil

/-! ## Rows -/

/-- Row `t` of an array with `k` columns. -/
def rowOf (k : Nat) (a : IntArr) (t : Nat) : Fin k → GF256 :=
  fun j => a (t * k + j)

/-- An array with `k` columns as a square matrix. -/
def squareOf (k : Nat) (a : IntArr) : Matrix (Fin k) (Fin k) GF256 :=
  fun t => rowOf k a t

/-- Row `i` of the stacked matrix: a parity row, or the unit row of a data block. -/
def stackedRow (conf : Config) (encMat : IntArr) (i : Nat) : Fin conf.ecK → GF256 :=
  if i < conf.ecM then rowOf conf.ecK encMat i
  else fun j => if i = conf.ecM + j then 1 else 0

theorem mul_add_div_eq {k t : Nat} (j : Fin k) : (t * k + j) / k = t := by
  have hk : 0 < k := Nat.lt_of_le_of_lt (Nat.zero_le _) j.isLt
  rw [Nat.mul_comm, Nat.mul_add_div hk, Nat.div_eq_of_lt j.isLt, Nat.add_zero]

/-- Position `j` of row `t` lies in row `pos` just for `t = pos`. -/
theorem mem_row_iff {k : Nat} (t pos : Nat) (j : Fin k) :
    (pos * k ≤ t * k + j ∧ t * k + j < pos * k + k) ↔ t = pos := by
  have hk : 0 < k := Nat.lt_of_le_of_lt (Nat.zero_le _) j.isLt
  have hdiv := mul_add_div_eq (t := t) j
  constructor
  · rintro ⟨hle, hlt⟩
    have hlow : pos ≤ (t * k + j) / k := (Nat.le_div_iff_mul_le hk).2 hle
    have hhigh : (t * k + j) / k < pos + 1 := by
      apply (Nat.div_lt_iff_lt_mul hk).2
      rw [Nat.succ_mul]
      exact hlt
    omega
  · rintro rfl
    exact ⟨Nat.le_add_right _ _, Nat.add_lt_add_left j.isLt _⟩

theorem rowOf_memcpyInts (k : Nat) (dst src : IntArr) (pos i : Nat) :
    rowOf k (memcpyInts dst (pos * k) src (i * k) k) =
      Function.update (rowOf k dst) pos (rowOf k src i) := by
  funext t j
  by_cases ht : t = pos
  · subst ht
    have hin := (mem_row_iff t t j).2 rfl
    rw [Function.update_self, rowOf, memcpyInts, if_pos hin, Nat.add_sub_cancel_left]
    rfl
  · have hout := fun h => ht ((mem_row_iff t pos j).1 h)
    rw [Function.update_of_ne ht, rowOf, memcpyInts, if_neg hout]
    rfl

section Stacked

variable (conf : Config) (encMat : IntArr)

/-- The array the constructor builds is the stacked matrix. -/
theorem rowOf_completeEncMat {i : Nat} :
    i < conf.ecN → rowOf conf.ecK (completeEncMat conf encMat) i = stackedRow conf encMat i := by
  intro hi
  have hfold : completeEncMat conf encMat =
      Keyed.writeAll (fun i => (conf.ecM + i) * conf.ecK + i) (fun _ _ => (1 : GF256))
        (List.range conf.ecK) (memcpyInts (fun _ => 0) 0 encMat 0 (conf.ecK * conf.ecM)) := rfl
  have hkeys : ∀ l r, (conf.ecM + l) * conf.ecK + l = (conf.ecM + r) * conf.ecK + r →
      l < conf.ecK → r < conf.ecK → l = r := by
    intro l r heq hl hr
    have hdiv : ((conf.ecM + l) * conf.ecK + l) / conf.ecK =
        ((conf.ecM + r) * conf.ecK + r) / conf.ecK := by rw [heq]
    rw [mul_add_div_eq ⟨l, hl⟩, mul_add_div_eq ⟨r, hr⟩] at hdiv
    omega
  have hnodup : ((List.range conf.ecK).map fun i => (conf.ecM + i) * conf.ecK + i).Nodup := by
    refine List.Nodup.map_on ?_ List.nodup_range
    intro l hl r hr heq
    exact hkeys l r heq (List.mem_range.1 hl) (List.mem_range.1 hr)
  funext j
  rw [rowOf, hfold, stackedRow]
  -- either a one of the identity was written there, or it is a cell of the matrix copied before
  by_cases hd : ∃ l < conf.ecK, (conf.ecM + l) * conf.ecK + l = i * conf.ecK + j
  · obtain ⟨l, hl, heq⟩ := hd
    have hrow : conf.ecM + l = i := by
      have hdiv : ((conf.ecM + l) * conf.ecK + l) / conf.ecK =
          (i * conf.ecK + j) / conf.ecK := by rw [heq]
      rwa [mul_add_div_eq ⟨l, hl⟩, mul_add_div_eq j] at hdiv
    have hcol : l = j := by
      rw [hrow] at heq
      exact Nat.add_left_cancel heq
    rw [← heq, Keyed.writeAll_of_mem hnodup (List.mem_range.2 hl), if_neg (by omega),
      if_pos (by omega)]
  · have hnot : i * conf.ecK + j ∉
        (List.range conf.ecK).map fun i => (conf.ecM + i) * conf.ecK + i := by
      intro hmem
      obtain ⟨l, hl, heq⟩ := List.mem_map.1 hmem
      exact hd ⟨l, List.mem_range.1 hl, heq⟩
    rw [Keyed.writeAll_of_not_mem hnot, memcpyInts]
    by_cases hp : i < conf.ecM
    · have hlt : i * conf.ecK + j < conf.ecK * conf.ecM := by
        calc
          i * conf.ecK + j < i * conf.ecK + conf.ecK := Nat.add_lt_add_left j.isLt _
          _ = (i + 1) * conf.ecK := (Nat.succ_mul i conf.ecK).symm
          _ ≤ conf.ecM * conf.ecK := Nat.mul_le_mul_right _ hp
          _ = conf.ecK * conf.ecM := Nat.mul_comm _ _
      rw [if_pos ⟨Nat.zero_le _, by omega⟩, if_pos hp]
      simp [rowOf]
    · have hge : ¬ i * conf.ecK + j < 0 + conf.ecK * conf.ecM := by
        have hmul := Nat.mul_le_mul_right conf.ecK (Nat.le_of_not_lt hp)
        have hcomm := Nat.mul_comm conf.ecK conf.ecM
        omega
      have hne : i ≠ conf.ecM + j := by
        intro heq
        exact hd ⟨j, j.isLt, by rw [heq]⟩
      rw [if_neg fun h => hge h.2, if_neg hp, if_neg hne]

/-- A loop of `copyRow`s with row numbers below `ecN` writes rows of the stacked matrix. -/
theorem rowOf_foldl_copyRow {β : Type} (pos src : β → Nat) (l : List β) (eMat : IntArr) :
    (∀ b ∈ l, src b < conf.ecN) →
      rowOf conf.ecK (l.foldl (fun a b => copyRow conf encMat a (pos b) (src b)) eMat) =
        Keyed.writeAll pos (fun b _ => stackedRow conf encMat (src b)) l (rowOf conf.ecK eMat) := by
  intro hsrc
  induction l generalizing eMat with
  | nil =>
      rfl
  | cons b l ih =>
      have hb : rowOf conf.ecK (copyRow conf encMat eMat (pos b) (src b)) =
          Function.update (rowOf conf.ecK eMat) (pos b) (stackedRow conf encMat (src b)) := by
        rw [copyRow, rowOf_memcpyInts, rowOf_completeEncMat conf encMat (hsrc b (by simp))]
      have hl := ih (copyRow conf encMat eMat (pos b) (src b)) fun b' hb' =>
        hsrc b' (List.mem_cons_of_mem _ hb')
      rw [List.foldl_cons, hl, hb]
      rfl

/-! ## The rows that are selected -/

/-- The first `ecK` blocks other than block `i`. -/
def firstOthers (i : Nat) : List Nat :=
  ((List.range conf.ecN).filter (· ≠ i)).take conf.ecK

/-- The blocks whose status is set. -/
def selected (status : Nat → Int) : List Nat :=
  (List.range conf.ecN).filter (status · ≠ 0)

theorem selected_lt {status : Nat → Int} {j : Nat} : j ∈ selected conf status → j < conf.ecN := by
  intro h
  exact List.mem_range.1 (List.mem_filter.1 h).1

theorem selected_nodup (status : Nat → Int) : (selected conf status).Nodup :=
  List.nodup_range.filter _

theorem firstOthers_lt {i j : Nat} : j ∈ firstOthers conf i → j < conf.ecN := by
  intro h
  exact List.mem_range.1 (List.mem_filter.1 (List.mem_of_mem_take h)).1

theorem firstOthers_ne {i j : Nat} : j ∈ firstOthers conf i → j ≠ i := by
  intro h
  simpa using (List.mem_filter.1 (List.mem_of_mem_take h)).2

theorem firstOthers_nodup (i : Nat) : (firstOthers conf i).Nodup :=
  (List.nodup_range.filter _).sublist (List.take_sublist _ _)

/-- Leaving out `i` from an initial segment: what is below stays, what is behind moves up. -/
theorem filter_range_ne {n i : Nat} :
    i < n → (List.range n).filter (· ≠ i) = List.range i ++ List.range' (i + 1) (n - (i + 1)) := by
  intro hi
  have hsplit : List.range n = List.range i ++ i :: List.range' (i + 1) (n - (i + 1)) := by
    have happ := List.range'_append_1 (s := 0) (m := i) (n := n - (i + 1) + 1)
    rw [Nat.zero_add, List.range'_succ, ← List.range_eq_range'] at happ
    rw [happ, List.range_eq_range']
    congr 1
    omega
  rw [hsplit, List.filter_append, List.filter_cons_of_neg (by simp)]
  have hlow : (List.range i).filter (· ≠ i) = List.range i := by
    refine List.filter_eq_self.2 fun j hj => ?_
    have hlt := List.mem_range.1 hj
    simpa using Nat.ne_of_lt hlt
  have hhigh : (List.range' (i + 1) (n - (i + 1))).filter (· ≠ i) =
      List.range' (i + 1) (n - (i + 1)) := by
    refine List.filter_eq_self.2 fun j hj => ?_
    have hge := (List.mem_range'_1.1 hj).1
    simpa using (show j ≠ i by omega)
  rw [hlow, hhigh]

theorem firstOthers_length {i : Nat} :
    i < conf.ecN → conf.ecK < conf.ecN → (firstOthers conf i).length = conf.ecK := by
  intro hi hk
  rw [firstOthers, List.length_take, filter_range_ne hi, List.length_append, List.length_range,
    List.length_range']
  omega

theorem getElem_firstOthers {i t : Nat} (hi : i < conf.ecN)
    (ht : t < (firstOthers conf i).length) :
    (firstOthers conf i)[t] = if t < i then t else t + 1 := by
  have htake : t < ((List.range conf.ecN).filter (· ≠ i)).length :=
    Nat.lt_of_lt_of_le ht (List.length_take_le' _ _)
  simp only [firstOthers, List.getElem_take, filter_range_ne hi]
  by_cases hlt : t < i
  · rw [List.getElem_append_left (by simpa using hlt), List.getElem_range, if_pos hlt]
  · rw [List.getElem_append_right (by simpa using hlt), List.getElem_range', if_neg hlt]
    simp only [List.length_range]
    omega

/-- The copy loops of the constructor put these rows one below the other. -/
theorem rowOf_copyOtherRows {i t : Nat} (eMat : IntArr) (hi : i < conf.ecN)
    (hk : conf.ecK < conf.ecN) (ht : t < (firstOthers conf i).length) :
    rowOf conf.ecK (copyOtherRows conf encMat eMat i) t =
      stackedRow conf encMat (firstOthers conf i)[t] := by
  have htk : t < conf.ecK := by
    rwa [firstOthers_length conf hi hk] at ht
  rw [getElem_firstOthers conf hi ht, copyOtherRows,
    rowOf_foldl_copyRow conf encMat (fun j => j - 1) (fun j => j) _ _ fun j hj => by
      have := (List.mem_range'_1.1 hj).2
      omega,
    rowOf_foldl_copyRow conf encMat (fun j => j) (fun j => j) _ _ fun j hj => by
      have := List.mem_range.1 hj
      omega]
  have hlow : ((List.range (min i conf.ecK)).map fun j => j).Nodup := by
    simpa using List.nodup_range
  have hhigh : ((List.range' (i + 1) (conf.ecK - i)).map fun j => j - 1).Nodup := by
    refine List.Nodup.map_on ?_ List.nodup_range'
    intro l hl r hr heq
    have := (List.mem_range'_1.1 hl).1
    have := (List.mem_range'_1.1 hr).1
    omega
  -- the rows below `i` come from the first loop, those above from the second, one place down
  by_cases hlt : t < i
  · have hnot : t ∉ (List.range' (i + 1) (conf.ecK - i)).map fun j => j - 1 := by
      intro hmem
      obtain ⟨j, hj, heq⟩ := List.mem_map.1 hmem
      have := (List.mem_range'_1.1 hj).1
      omega
    have hmem : t ∈ List.range (min i conf.ecK) := List.mem_range.2 (by omega)
    rw [if_pos hlt, Keyed.writeAll_of_not_mem hnot]
    exact Keyed.writeAll_of_mem hlow hmem
  · have hmem : t + 1 ∈ List.range' (i + 1) (conf.ecK - i) :=
      List.mem_range'_1.2 ⟨by omega, by omega⟩
    rw [if_neg hlt]
    exact Keyed.writeAll_of_mem hhigh hmem

/-- The loop of `getCoefficient_multi` does the same with the blocks whose status is set. -/
theorem selectRow_spec (status : Nat → Int) {n : Nat} :
    n ≤ conf.ecN →
      let st := (List.range n).foldl (selectRow conf encMat status) (0, fun _ => 0)
      let l := (List.range n).filter (status · ≠ 0)
      st.1 = l.length ∧ ∀ t (ht : t < l.length),
        rowOf conf.ecK st.2 t = stackedRow conf encMat l[t] := by
  induction n with
  | zero =>
      intro _
      exact ⟨rfl, fun t ht => absurd ht (Nat.not_lt_zero t)⟩
  | succ n ih =>
      intro hn st l
      obtain ⟨hcnt, hrows⟩ := ih (by omega)
      have hst : st = selectRow conf encMat status
          ((List.range n).foldl (selectRow conf encMat status) (0, fun _ => 0)) n := by
        simp only [st, List.range_succ, List.foldl_append, List.foldl_cons, List.foldl_nil]
      have hl : l = (List.range n).filter (status · ≠ 0) ++ [n].filter (status · ≠ 0) := by
        simp only [l, List.range_succ, List.filter_append]
      -- the state and the list before the last row
      generalize (List.range n).foldl (selectRow conf encMat status) (0, fun _ => 0) = st₀ at *
      generalize (List.range n).filter (status · ≠ 0) = l₀ at *
      by_cases hs : status n ≠ 0
      · have hst' : st = (st₀.1 + 1, copyRow conf encMat st₀.2 st₀.1 n) := by
          rw [hst, selectRow, if_pos hs]
        have hl' : l = l₀ ++ [n] := by
          rw [hl, List.filter_cons_of_pos (by simpa using hs), List.filter_nil]
        have hrow : rowOf conf.ecK st.2 =
            Function.update (rowOf conf.ecK st₀.2) l₀.length (stackedRow conf encMat n) := by
          rw [hst', copyRow, rowOf_memcpyInts, rowOf_completeEncMat conf encMat (by omega), hcnt]
        refine ⟨?_, ?_⟩
        · rw [hst', hl', List.length_append, hcnt]
          rfl
        · intro t ht
          rw [hrow]
          simp only [hl', List.length_append, List.length_singleton] at ht
          simp only [hl']
          by_cases hlast : t = l₀.length
          · subst hlast
            rw [Function.update_self, List.getElem_concat_length rfl]
          · have hlt : t < l₀.length := by omega
            rw [Function.update_of_ne hlast, List.getElem_append_left hlt]
            exact hrows t hlt
      · have hst' : st = st₀ := by
          rw [hst, selectRow, if_neg hs]
        have hl' : l = l₀ := by
          rw [hl, List.filter_cons_of_neg (by simpa using hs), List.filter_nil, List.append_nil]
        subst hst'
        subst hl'
        exact ⟨hcnt, hrows⟩

theorem countStatus_eq {idx : Nat} {status : Nat → Int} :
    idx < conf.ecN → countStatus conf idx status =
      if status idx ≠ 0 then none else some (selected conf status).length := by
  intro hidx
  have h : ∀ n, (List.range n).foldlM
      (fun cnt i =>
        if status i ≠ 0 ∧ idx = i then none else some (if status i ≠ 0 then cnt + 1 else cnt)) 0 =
      if status idx ≠ 0 ∧ idx < n then none
      else some ((List.range n).filter (status · ≠ 0)).length := by
    intro n
    induction n with
    | zero =>
        simp
    | succ n ih =>
        rw [List.range_succ, List.foldlM_append, ih, List.filter_append, List.length_append]
        -- once the row itself was met the loop has exited
        by_cases hset : status idx ≠ 0 ∧ idx < n
        · rw [if_pos hset, if_pos ⟨hset.1, by omega⟩]
          rfl
        · rw [if_neg hset]
          by_cases hn : status n ≠ 0 ∧ idx = n
          · rw [if_pos ⟨by rw [hn.2]; exact hn.1, by omega⟩]
            simp [hn.1, hn.2]
          · rw [if_neg fun hc => by
              have hlt : ¬ idx < n := fun hlt => hset ⟨hc.1, hlt⟩
              have heq : idx = n := by omega
              exact hn ⟨heq ▸ hc.1, heq⟩]
            by_cases hs : status n = 0
            · simp [hs]
            · have hne : idx ≠ n := fun heq => hn ⟨hs, heq⟩
              simp [hs, hne]
  rw [countStatus, h]
  simp only [hidx, and_true, selected]

end Stacked

/-! ## Decoding -/

theorem foldl_add_range (f : Nat → GF256) (n : Nat) :
    (List.range n).foldl (fun acc i => acc + f i) 0 = ∑ i ∈ Finset.range n, f i := by
  induction n with
  | zero =>
      rfl
  | succ n ih =>
      rw [List.range_succ, List.foldl_append, ih, Finset.sum_range_succ]
      rfl

theorem rowTimes_eq {conf : Config} {encMat dMat : IntArr} {idx : Nat} (hidx : idx < conf.ecN)
    (t : Fin conf.ecK) :
    rowTimes conf encMat idx dMat t =
      Matrix.vecMul (stackedRow conf encMat idx) (squareOf conf.ecK dMat) t := by
  have hdiv : (t : Nat) / conf.ecK = 0 := Nat.div_eq_of_lt t.isLt
  have hmod : (t : Nat) % conf.ecK = t := Nat.mod_eq_of_lt t.isLt
  have hrow := rowOf_completeEncMat conf encMat hidx
  rw [rowTimes, jerasureMatrixMultiply, if_pos (by simp), foldl_add_range, hdiv, hmod,
    Finset.sum_range]
  refine Finset.sum_congr rfl fun x _ => ?_
  rw [← congrFun hrow x, Nat.zero_mul, Nat.zero_add]
  rfl

/-- `jerasure_invert_matrix` inverts the matrices with independent rows. -/
def InvertsMatrix (jerasureInvertMatrix : Nat → IntArr → IntArr × IntArr) : Prop :=
  ∀ k mat, LinearIndependent GF256 (rowOf k mat ∘ Fin.val (n := k)) →
    squareOf k (jerasureInvertMatrix k mat).2 * squareOf k mat = 1

/-- The coefficients `c` combine the rows of the blocks `l` to the row of block `i`. -/
def DecodesFrom (conf : Config) (encMat c : IntArr) (l : List Nat) (i : Nat) : Prop :=
  LinCode.Combines (fun t : Fin l.length => c t) (fun t => stackedRow conf encMat l[t])
    (stackedRow conf encMat i)

/-- What the metadata bases rely on. -/
structure RSUtil.Decodes (rsu : RSUtil) (conf : Config) (encMat : IntArr) : Prop where
  single : ∀ i < conf.ecN, (firstOthers conf i).length = conf.ecK ∧
    DecodesFrom conf encMat (rsu.getCoefficient i) (firstOthers conf i) i
  multi_eq_none_iff : ∀ idx < conf.ecN, ∀ status, rsu.getCoefficientMulti idx status = none ↔
    status idx ≠ 0 ∨ (selected conf status).length ≠ conf.ecK
  multi : ∀ idx < conf.ecN, ∀ status c, rsu.getCoefficientMulti idx status = some c →
    DecodesFrom conf encMat c (selected conf status) idx

section Decode

variable {jerasureInvertMatrix : Nat → IntArr → IntArr × IntArr} {conf : Config} {encMat : IntArr}

/-- Once the rows of `ecK` different blocks stand in `eMat`, inverting it gives coefficients for
every block. -/
theorem decodesFrom_rowTimes {eMat : IntArr} {l : List Nat} {idx : Nat}
    (hinv : InvertsMatrix jerasureInvertMatrix)
    (hmds : LinCode.AnyRowsIndependent conf.ecN (stackedRow conf encMat))
    (hlen : l.length = conf.ecK) (hnodup : l.Nodup) (hlt : ∀ j ∈ l, j < conf.ecN)
    (hrows : ∀ t (ht : t < l.length), rowOf conf.ecK eMat t = stackedRow conf encMat l[t])
    (hidx : idx < conf.ecN) :
    DecodesFrom conf encMat (rowTimes conf encMat idx (jerasureInvertMatrix conf.ecK eMat).2) l
      idx := by
  let e : Fin l.length ≃ Fin conf.ecK := finCongr hlen
  have hrow : ∀ t : Fin l.length, squareOf conf.ecK eMat (e t) = stackedRow conf encMat l[t] :=
    fun t => hrows t t.isLt
  have hindep : LinearIndependent GF256 (rowOf conf.ecK eMat ∘ Fin.val (n := conf.ecK)) := by
    have hall := hmds (fun t => l[e.symm t]) (fun t => hlt _ (List.getElem_mem _)) fun t t' heq =>
      e.symm.injective (Fin.ext ((hnodup.getElem_inj_iff).1 heq))
    have hsame : (fun t : Fin conf.ecK => stackedRow conf encMat l[e.symm t]) =
        rowOf conf.ecK eMat ∘ Fin.val (n := conf.ecK) := by
      funext t
      exact (hrow (e.symm t)).symm
    rwa [hsame] at hall
  have hcomb := LinCode.combines_vecMul (stackedRow conf encMat idx) (hinv _ _ hindep)
  intro j
  rw [← hcomb j, ← e.sum_comp]
  refine Finset.sum_congr rfl fun t _ => ?_
  rw [hrow t]
  congr 1
  exact rowTimes_eq hidx (e t)

/-- Behind the loop of the constructor each entry comes from its own turn. -/
theorem coefficients_eq (jerasureInvertMatrix : Nat → IntArr → IntArr × IntArr)
    (encMat : IntArr) {i : Nat} :
    i < conf.ecN → ∃ eMat, coefficients jerasureInvertMatrix conf encMat i =
      rowTimes conf encMat i
        (jerasureInvertMatrix conf.ecK (copyOtherRows conf encMat eMat i)).2 := by
  have h : ∀ n, ∀ i < n, ∃ eMat,
      ((List.range n).foldl (coefficientStep jerasureInvertMatrix conf encMat)
        (fun _ => 0, fun _ _ => 0)).2 i =
      rowTimes conf encMat i
        (jerasureInvertMatrix conf.ecK (copyOtherRows conf encMat eMat i)).2 := by
    intro n
    induction n with
    | zero =>
        intro i hi
        exact absurd hi (Nat.not_lt_zero i)
    | succ n ih =>
        intro i hi
        rw [List.range_succ, List.foldl_append]
        generalize (List.range n).foldl (coefficientStep jerasureInvertMatrix conf encMat)
          (fun _ => 0, fun _ _ => 0) = st at *
        by_cases hlast : i = n
        · subst hlast
          exact ⟨st.1, Function.update_self _ _ _⟩
        · obtain ⟨eMat, heq⟩ := ih i (by omega)
          exact ⟨eMat, (Function.update_of_ne hlast _ _).trans heq⟩
  intro hi
  exact h conf.ecN i hi

theorem coefficients_decode {i : Nat} (hk : conf.ecK < conf.ecN)
    (hmds : LinCode.AnyRowsIndependent conf.ecN (stackedRow conf encMat))
    (hinv : InvertsMatrix jerasureInvertMatrix) (hi : i < conf.ecN) :
    DecodesFrom conf encMat (coefficients jerasureInvertMatrix conf encMat i) (firstOthers conf i)
      i := by
  obtain ⟨eMat, heq⟩ := coefficients_eq jerasureInvertMatrix encMat hi
  rw [heq]
  apply decodesFrom_rowTimes hinv hmds (firstOthers_length conf hi hk) (firstOthers_nodup conf i)
    (fun j hj => firstOthers_lt conf hj) _ hi
  intro t ht
  exact rowOf_copyOtherRows conf encMat eMat hi hk ht

theorem getCoefficientMulti_eq_none_iff {idx : Nat} (hidx : idx < conf.ecN)
    (status : Nat → Int) :
    getCoefficientMulti jerasureInvertMatrix conf encMat idx status = none ↔
      status idx ≠ 0 ∨ (selected conf status).length ≠ conf.ecK := by
  rw [getCoefficientMulti, countStatus_eq conf hidx]
  by_cases hs : status idx ≠ 0
  · simp [hs]
  · by_cases hc : (selected conf status).length = conf.ecK
    · simp [hs, hc]
    · simp [hs, hc]

theorem getCoefficientMulti_decodes {idx : Nat} {status : Nat → Int} {c : IntArr}
    (hmds : LinCode.AnyRowsIndependent conf.ecN (stackedRow conf encMat))
    (hinv : InvertsMatrix jerasureInvertMatrix) (hidx : idx < conf.ecN) :
    getCoefficientMulti jerasureInvertMatrix conf encMat idx status = some c →
      DecodesFrom conf encMat c (selected conf status) idx := by
  intro hc
  have hnone : getCoefficientMulti jerasureInvertMatrix conf encMat idx status ≠ none := by
    rw [hc]
    exact Option.some_ne_none c
  have hsome := mt (getCoefficientMulti_eq_none_iff hidx status).2 hnone
  simp only [ne_eq, not_or, not_not] at hsome
  obtain ⟨hs, hcnt⟩ := hsome
  simp only [getCoefficientMulti, countStatus_eq conf hidx, hs, hcnt, ne_eq, not_true_eq_false,
    if_false, Option.some.injEq] at hc
  subst hc
  apply decodesFrom_rowTimes hinv hmds hcnt (selected_nodup conf status)
    (fun j hj => selected_lt conf hj) _ hidx
  exact (selectRow_spec conf encMat status (Nat.le_refl _)).2

/-- The coefficients of the constructor and of `getCoefficient_multi` decode, for every code in
which any `ecK` blocks determine the stripe. -/
theorem rsUtil_decodes (hk : conf.ecK < conf.ecN)
    (hmds : LinCode.AnyRowsIndependent conf.ecN (stackedRow conf encMat))
    (hinv : InvertsMatrix jerasureInvertMatrix) :
    (RSUtil.new jerasureInvertMatrix conf encMat).Decodes conf encMat where
  single _ hi := ⟨firstOthers_length conf hi hk, coefficients_decode hk hmds hinv hi⟩
  multi_eq_none_iff _ hidx status := getCoefficientMulti_eq_none_iff hidx status
  multi _ hidx _ _ hc := getCoefficientMulti_decodes hmds hinv hidx hc

end Decode

/-! ## Two data blocks and their xor -/

def xorConf : Config where
  ecK := 2
  ecN := 3
  blocksize := 1
  blocksize_le := by decide

/-- The parity row of the code: all ones. -/
def xorMat : IntArr :=
  fun _ => 1

def xorRow : Nat → Fin 2 → GF256 :=
  stackedRow xorConf xorMat

theorem xor_independent : LinCode.AnyRowsIndependent xorConf.ecN (stackedRow xorConf xorMat) := by
  have h : LinCode.AnyRowsIndependent 3 xorRow := by
    intro s hlt hinj
    have hne : s 0 ≠ s 1 := fun heq => absurd (hinj heq) (by decide)
    have h0 := hlt 0
    have h1 := hlt 1
    apply Matrix.linearIndependent_rows_of_det_ne_zero
      (A := (Matrix.of fun t => xorRow (s t)))
    rw [Matrix.det_fin_two]
    simp only [Matrix.of_apply]
    generalize s 0 = a at *
    generalize s 1 = b at *
    interval_cases a <;> interval_cases b <;> first | exact absurd rfl hne | decide
  exact h

/-- Inversion by way of the adjugate. -/
noncomputable def invertByAdjugate (k : Nat) (mat : IntArr) : IntArr × IntArr :=
  (mat, fun x => if h : 0 < k ∧ x / k < k then
    (squareOf k mat)⁻¹ ⟨x / k, h.2⟩ ⟨x % k, Nat.mod_lt x h.1⟩ else 0)

theorem invertByAdjugate_inverts : InvertsMatrix invertByAdjugate := by
  intro k mat hindep
  have hunit : IsUnit (squareOf k mat) := Matrix.linearIndependent_rows_iff_isUnit.1 hindep
  have hsq : squareOf k (invertByAdjugate k mat).2 = (squareOf k mat)⁻¹ := by
    funext t j
    have hk : 0 < k := Nat.lt_of_le_of_lt (Nat.zero_le _) j.isLt
    have hdiv : (t * k + j : Nat) / k = t := mul_add_div_eq j
    have hmod : (t * k + j : Nat) % k = j := by
      rw [Nat.mul_comm, Nat.mul_add_mod, Nat.mod_eq_of_lt j.isLt]
    rw [squareOf, rowOf, invertByAdjugate]
    simp only [hdiv, hmod, hk, t.isLt, and_self, dite_true, Fin.eta]
  rw [hsq]
  exact Matrix.nonsing_inv_mul _ ((Matrix.isUnit_iff_isUnit_det _).1 hunit)

theorem rsUtil_decodes_xor :
    (RSUtil.new invertByAdjugate xorConf xorMat).Decodes xorConf xorMat :=
  rsUtil_decodes (by decide) xor_independent invertByAdjugate_inverts

end CoRD
