import CoRD.Repair.Metadata
import CoRD.Util.Bottleneck
import CoRD.Util.Checked
import CoRD.Util.FirstMin
import Mathlib.Algebra.Order.Ring.Rat
import Mathlib.Data.Rat.Defs
import Mathlib.Tactic.NormNum

/-!
# PathSelection — the order of the helpers in a pipeline

Node 0 is the requestor and the others are the helpers; the matrix has the weight of the link between
any two.  `intelligentSearch` looks for a path from node 0 through all nodes whose largest weight is
as small as it can be.  `initVal` goes to the nearest node that is left each time, and what it gets is
the bound that `ISHelper` starts from: a depth-first search that leaves out every edge that is not
below the bound, and lowers the bound at each full path.
-/

namespace CoRD

open Bottleneck

def MAX_VALUE : ℚ := 1000000

/-- `mat[a][b]`; no entry outside the matrix is read. -/
def weight (mat : List (List ℚ)) (a b : Nat) : ℚ :=
  (mat.getD a []).getD b 0

/-- The fields of a `PathSelection`: `_globalMax` and `_path`. -/
structure PathSelection where
  globalMax : ℚ
  path : List Nat

namespace PathSelection

/-! ## Marks -/

section Marks

variable {n : Nat} {l : List Nat} {used : List Bool}

/-- A mark that is set leaves fewer nodes without one. -/
theorem count_set_lt {i : Nat} :
    used.getD i true = false → (used.set i true).count false < used.count false := by
  intro h
  have hget : used[i]? = some false := by
    cases hi : used[i]? with
    | none =>
        simp [List.getD, hi] at h
    | some b =>
        simpa [List.getD, hi] using h
  rcases List.getElem?_eq_some_iff.1 hget with ⟨hi, hval⟩
  have hmem : false ∈ used := hval ▸ List.getElem_mem hi
  have hpos := List.count_pos_iff.2 hmem
  have hcount : (used.set i true).count false = used.count false - 1 := by
    simp [List.count_set hi, hval]
  exact hcount ▸ Nat.sub_lt hpos Nat.one_pos

/-- The marks are at the nodes of a path. -/
structure Marks (n : Nat) (l : List Nat) (used : List Bool) : Prop where
  length : used.length = n
  mark : ∀ i < n, used.getD i true = decide (i ∈ l)

theorem marks_nil : Marks n [] (List.replicate n false) where
  length := List.length_replicate
  mark := by
    intro i hi
    simp [List.getD, hi]

theorem Marks.concat {i : Nat} (h : Marks n l used) (hi : i < n) :
    Marks n (l ++ [i]) (used.set i true) where
  length := by
    simpa using h.length
  mark := by
    intro j hj
    have hlen : i < used.length := h.length.symm ▸ hi
    by_cases heq : i = j
    · subst heq
      simp [List.getD, hlen]
    · have hsame : (used.set i true).getD j true = used.getD j true := by
        simp [List.getD, List.getElem?_set_ne heq]
      simpa [Ne.symm heq] using hsame.trans (h.mark j hj)

theorem Marks.used_iff (h : Marks n l used) {i : Nat} (hi : i < n) :
    used.getD i true = true ↔ i ∈ l :=
  (h.mark i hi).symm ▸ decide_eq_true_iff

end Marks

/-! ## The program -/

section Program

variable (mat : List (List ℚ)) (k : Nat)

/-- What `initVal` keeps from one turn of its `while` to the next. -/
structure Greedy where
  endPoint2 : Nat
  newNode : Option Nat
  used : List Bool
  retVal : ℚ
  path : List Nat

/-- A turn of the `while`; `newNode` has no value before the first node is found. -/
def Greedy.turn (g : Greedy) : Option Greedy :=
  match FirstMin.scan (fun i => g.used.getD i true) id (weight mat g.endPoint2)
      (List.range mat.length) (g.newNode, MAX_VALUE) with
  | (none, _) => none
  | (some newNode, tempMin) =>
      some
        { endPoint2 := newNode
          newNode := some newNode
          used := g.used.set newNode true
          retVal := max g.retVal tempMin
          path := g.path ++ [newNode] }

/-- Some turns of the `while`. -/
def Greedy.turns : Nat → Greedy → Option Greedy
  | 0, g => some g
  | t + 1, g => (g.turn mat).bind (Greedy.turns t)

/-- `PathSelection::initVal`: what it returns, and `_path` behind it.  Its first loop leaves out the
last node, and without a nearest node the code would mark the node at -1. -/
def initVal (self : PathSelection) : Option (ℚ × List Nat) :=
  match FirstMin.scan (fun _ => false) id (weight mat 0) (List.range' 1 (mat.length - 2))
      (none, MAX_VALUE) with
  | (none, _) => none
  | (some endPoint2, minEdge) =>
      (Greedy.turns mat (k - 1)
        { endPoint2 := endPoint2
          newNode := none
          used := ((List.replicate mat.length false).set 0 true).set endPoint2 true
          retVal := minEdge
          path := self.path ++ [0, endPoint2] }).map fun g => (g.retVal, g.path)

mutual

/-- `PathSelection::ISHelper`.  The code puts the last node back when a branch is done, which here
is the list that the branch was not given. -/
def isHelper (selected : List Nat) (used : List Bool) (currMax : ℚ) (self : PathSelection) :
    PathSelection :=
  if selected.length = k + 1 then
    { globalMax := min self.globalMax currMax
      path := selected }
  else isLoop selected used currMax (List.range used.length) self
termination_by (used.count false, used.length + 1)

/-- The loop of `ISHelper`, over the nodes that it has not come to. -/
def isLoop (selected : List Nat) (used : List Bool) (currMax : ℚ) :
    List Nat → PathSelection → PathSelection
  | [], self => self
  | i :: rest, self =>
      let back := selected.getLastD 0
      if _h : used.getD i true = true ∨ self.globalMax ≤ weight mat back i then
        isLoop selected used currMax rest self
      else
        isLoop selected used currMax rest
          (isHelper (selected ++ [i]) (used.set i true) (max currMax (weight mat back i)) self)
termination_by rest => (used.count false, rest.length)
decreasing_by
  · exact Prod.Lex.right _ (Nat.lt_succ_self _)
  · exact Prod.Lex.left _ _ (count_set_lt (by simpa using (not_or.1 _h).1))
  · exact Prod.Lex.right _ (Nat.lt_succ_self _)

end

/-- `PathSelection::intelligentSearch`: what it returns, and the fields behind it. -/
def intelligentSearch (self : PathSelection) : Option (ℚ × PathSelection) :=
  (initVal mat k self).map fun init =>
    let used := (List.replicate mat.length false).set 0 true
    let self := isHelper mat k [0] used 0 { globalMax := init.1, path := [] }
    (self.globalMax, self)

end Program

/-! ## Full paths -/

/-- A simple path from node 0 over `k` edges, which goes through all nodes. -/
structure IsFull (k : Nat) (p : List Nat) : Prop where
  simple : IsSimple (k + 1) p
  length : p.length = k + 1

/-- The matrices that the program is given. -/
structure IsMatrix (k : Nat) (mat : List (List ℚ)) : Prop where
  rows : mat.length = k + 1
  columns : ∀ row ∈ mat, row.length = k + 1
  nonneg : ∀ row ∈ mat, ∀ e ∈ row, 0 ≤ e
  lt_max : ∀ row ∈ mat, ∀ e ∈ row, e < MAX_VALUE

section Full

variable {mat : List (List ℚ)} {k : Nat}

theorem weight_mem (mat : List (List ℚ)) (a b : Nat) :
    weight mat a b = 0 ∨ ∃ row ∈ mat, weight mat a b ∈ row := by
  cases hrow : mat[a]? with
  | none =>
      simp [weight, List.getD, hrow]
  | some row =>
      cases hentry : row[b]? with
      | none =>
          simp [weight, List.getD, hrow, hentry]
      | some e =>
          have hweight : weight mat a b = e := by
            simp [weight, List.getD, hrow, hentry]
          exact Or.inr ⟨row, List.mem_of_getElem? hrow, hweight ▸ List.mem_of_getElem? hentry⟩

theorem IsMatrix.weight_nonneg (hmat : IsMatrix k mat) (a b : Nat) : 0 ≤ weight mat a b := by
  rcases weight_mem mat a b with hzero | ⟨row, hrow, hmem⟩
  · exact hzero.ge
  · exact hmat.nonneg row hrow _ hmem

theorem IsMatrix.weight_lt (hmat : IsMatrix k mat) (a b : Nat) : weight mat a b < MAX_VALUE := by
  rcases weight_mem mat a b with hzero | ⟨row, hrow, hmem⟩
  · rw [hzero]
    norm_num [MAX_VALUE]
  · exact hmat.lt_max row hrow _ hmem

theorem mem_edges_nonneg (hmat : IsMatrix k mat) {l : List Nat} {e : ℚ} :
    e ∈ edges (weight mat) l → 0 ≤ e := by
  intro he
  rcases mem_edges he with ⟨a, b, rfl⟩
  exact hmat.weight_nonneg a b

/-- The value of a full path is its width. -/
theorem IsFull.isGreatest_iff (hmat : IsMatrix k mat) (hk : 0 < k) {p : List Nat} (hp : IsFull k p)
    {v : ℚ} : IsGreatest {e | e ∈ edges (weight mat) p} v ↔ v = width 0 (weight mat) p := by
  have hedge : edges (weight mat) p ≠ [] := by
    have hlen := length_edges (weight mat) p
    rw [hp.length] at hlen
    exact List.ne_nil_of_length_pos (hlen.symm ▸ hk)
  have hgreatest := isGreatest_width hedge fun e he => mem_edges_nonneg hmat he
  constructor
  · intro h
    exact h.unique hgreatest
  · rintro rfl
    exact hgreatest

end Full

/-! ## The search -/

section Search

variable {mat : List (List ℚ)} {k : Nat} {l : List Nat} {P Q : List Nat → Prop}
  {st st₁ st₂ : PathSelection}

/-- What a part of the search that keeps to the full paths in `P` and has come to `l` does to the
fields.  The bound ends up no larger than any of these paths, and if a path was met it has just the
bound as its width and came in by edges below the bound of that time. -/
structure Visits (mat : List (List ℚ)) (k : Nat) (l : List Nat) (P : List Nat → Prop)
    (st st' : PathSelection) : Prop where
  le : st'.globalMax ≤ st.globalMax
  covers : ∀ p, IsFull k p → P p → st'.globalMax ≤ width 0 (weight mat) p
  found : st' = st ∨ IsFull k st'.path ∧ l <+: st'.path ∧
    width 0 (weight mat) st'.path = st'.globalMax ∧
    ∀ e ∈ edges (weight mat) st'.path, e ∈ edges (weight mat) l ∨ e < st.globalMax

/-- Paths that are too wide need no visit. -/
theorem visits_self (h : ∀ p, IsFull k p → P p → st.globalMax ≤ width 0 (weight mat) p) :
    Visits mat k l P st st where
  le := le_rfl
  covers := h
  found := Or.inl rfl

theorem Visits.trans (h₁ : Visits mat k l P st st₁) (h₂ : Visits mat k l Q st₁ st₂) :
    Visits mat k l (fun p => P p ∨ Q p) st st₂ where
  le := h₂.le.trans h₁.le
  covers := by
    rintro p hp (hP | hQ)
    · exact h₂.le.trans (h₁.covers p hp hP)
    · exact h₂.covers p hp hQ
  found := by
    rcases h₂.found with heq | ⟨hfull, hpre, hwidth, hedge⟩
    · exact heq ▸ h₁.found
    · refine Or.inr ⟨hfull, hpre, hwidth, fun e he => ?_⟩
      exact (hedge e he).imp_right fun hlt => hlt.trans_le h₁.le

theorem Visits.mono (h : Visits mat k l P st st₁) (hPQ : ∀ p, IsFull k p → Q p → P p) :
    Visits mat k l Q st st₁ where
  le := h.le
  covers p hp hQ := h.covers p hp (hPQ p hp hQ)
  found := h.found

/-- A branch over an edge below the bound is a part of the search before it. -/
theorem Visits.of_branch {a i : Nat} (hlast : l.getLast? = some a)
    (hlt : weight mat a i < st.globalMax) (h : Visits mat k (l ++ [i]) P st st₁) :
    Visits mat k l P st st₁ where
  le := h.le
  covers := h.covers
  found := by
    rcases h.found with heq | ⟨hfull, hpre, hwidth, hedge⟩
    · exact Or.inl heq
    · refine Or.inr ⟨hfull, (List.prefix_append l [i]).trans hpre, hwidth, fun e he => ?_⟩
      rcases hedge e he with hmem | hlow
      · rw [edges_concat i hlast] at hmem
        rcases List.mem_append.1 hmem with hold | hnew
        · exact Or.inl hold
        · exact Or.inr (List.mem_singleton.1 hnew ▸ hlt)
      · exact Or.inr hlow

/-- The bound does not go below the width of what is selected. -/
theorem Visits.width_le (h : Visits mat k l P st st₁) :
    width 0 (weight mat) l ≤ st.globalMax → width 0 (weight mat) l ≤ st₁.globalMax := by
  intro hle
  rcases h.found with heq | ⟨_, hpre, hwidth, _⟩
  · exact heq ▸ hle
  · exact hwidth ▸ width_mono hpre

/-- The loop, when its branches are searched as they should be. -/
theorem visits_isLoop {used : List Bool} (hl : IsSimple (k + 1) l) (hused : Marks (k + 1) l used)
    (hbranch : ∀ i st, i < k + 1 → i ∉ l → width 0 (weight mat) (l ++ [i]) ≤ st.globalMax →
      Visits mat k (l ++ [i]) (l ++ [i] <+: ·) st (isHelper mat k (l ++ [i]) (used.set i true)
        (width 0 (weight mat) (l ++ [i])) st)) (rest : List Nat) (hrest : ∀ i ∈ rest, i < k + 1) :
    width 0 (weight mat) l ≤ st.globalMax →
      Visits mat k l (fun p => ∃ i ∈ rest, l ++ [i] <+: p) st
        (isLoop mat k l used (width 0 (weight mat) l) rest st) := by
  intro hle
  induction rest generalizing st with
  | nil =>
      rw [isLoop]
      exact visits_self fun p _ ⟨i, hi, _⟩ => absurd hi List.not_mem_nil
  | cons i rest ih =>
      have hi : i < k + 1 := hrest i List.mem_cons_self
      have hrest' : ∀ j ∈ rest, j < k + 1 := fun j hj => hrest j (List.mem_cons_of_mem _ hj)
      have hsplit : ∀ p, IsFull k p → (∃ j ∈ i :: rest, l ++ [j] <+: p) →
          l ++ [i] <+: p ∨ ∃ j ∈ rest, l ++ [j] <+: p := by
        rintro p _ ⟨j, hj, hpre⟩
        rcases List.mem_cons.1 hj with rfl | hj
        · exact Or.inl hpre
        · exact Or.inr ⟨j, hj, hpre⟩
      have hlast : l.getLast? = some (l.getLastD 0) := by
        rw [List.getLastD_eq_getLast?, List.getLast?_eq_some_getLast hl.ne_nil]
        rfl
      have hwidth : width 0 (weight mat) (l ++ [i]) =
          max (width 0 (weight mat) l) (weight mat (l.getLastD 0) i) := width_concat i hlast
      rw [isLoop]
      by_cases hskip : used.getD i true = true ∨ st.globalMax ≤ weight mat (l.getLastD 0) i
      · -- nothing is lost: the node is on the path already, or the edge to it is too heavy
        have hcut : ∀ p, IsFull k p → l ++ [i] <+: p → st.globalMax ≤ width 0 (weight mat) p := by
          intro p hp hpre
          rcases hskip with hmark | hheavy
          · have hmem : i ∈ l := (hused.used_iff hi).1 hmark
            have hnodup : (l ++ [i]).Nodup := hp.simple.nodup.sublist hpre.sublist
            exact absurd rfl ((List.nodup_append.1 hnodup).2.2 i hmem i List.mem_cons_self)
          · calc st.globalMax ≤ weight mat (l.getLastD 0) i := hheavy
              _ ≤ width 0 (weight mat) (l ++ [i]) := hwidth ▸ le_max_right _ _
              _ ≤ width 0 (weight mat) p := width_mono hpre
        simp only [dif_pos hskip]
        exact ((visits_self hcut).trans (ih hrest' hle)).mono hsplit
      · simp only [dif_neg hskip]
        rcases not_or.1 hskip with ⟨hmark, hlight⟩
        have hnew : i ∉ l := fun hmem => hmark ((hused.used_iff hi).2 hmem)
        have hlt : weight mat (l.getLastD 0) i < st.globalMax := not_le.1 hlight
        have hbelow : width 0 (weight mat) (l ++ [i]) ≤ st.globalMax :=
          hwidth.trans_le (max_le hle hlt.le)
        have hfirst := (hbranch i st hi hnew hbelow).of_branch hlast hlt
        rw [← hwidth]
        exact (hfirst.trans (ih hrest' (hfirst.width_le hle))).mono hsplit

/-- `ISHelper` visits all full paths that go on from what is selected.  The induction is on the
number of nodes that are left. -/
theorem visits_isHelper {used : List Bool} (hl : IsSimple (k + 1) l) (hused : Marks (k + 1) l used) :
    width 0 (weight mat) l ≤ st.globalMax →
      Visits mat k l (l <+: ·) st (isHelper mat k l used (width 0 (weight mat) l) st) := by
  intro hle
  generalize hcount : used.count false = c
  induction c using Nat.strong_induction_on generalizing l used st with
  | _ c ih =>
      rw [isHelper]
      by_cases hfull : l.length = k + 1
      · have hbound : min st.globalMax (width 0 (weight mat) l) = width 0 (weight mat) l :=
          min_eq_right hle
        simp only [if_pos hfull, hbound]
        exact
          { le := hle
            covers := by
              intro p hp hpre
              exact (hpre.eq_of_length (hfull.trans hp.length.symm)) ▸ le_rfl
            found := Or.inr ⟨⟨hl, hfull⟩, List.prefix_rfl, rfl, fun e he => Or.inl he⟩ }
      · have hbranch : ∀ i st, i < k + 1 → i ∉ l → width 0 (weight mat) (l ++ [i]) ≤ st.globalMax →
            Visits mat k (l ++ [i]) (l ++ [i] <+: ·) st (isHelper mat k (l ++ [i])
              (used.set i true) (width 0 (weight mat) (l ++ [i])) st) := by
          intro i st hi hnew hle
          have hfewer : (used.set i true).count false < c := by
            have hmark : used.getD i true = false := by
              simpa [hnew] using hused.mark i hi
            exact hcount ▸ count_set_lt hmark
          exact ih _ hfewer (hl.concat hi hnew) (hused.concat hi) hle rfl
        simp only [if_neg hfull]
        have hrange : ∀ i ∈ List.range used.length, i < k + 1 := by
          intro i hi
          exact hused.length ▸ List.mem_range.1 hi
        refine (visits_isLoop hl hused hbranch _ hrange hle).mono fun p hp hpre => ?_
        have hshort : l.length < p.length :=
          hp.length.symm ▸ lt_of_le_of_ne hl.length_le hfull
        rcases hp.simple.next hpre hshort with ⟨i, hi, _, hnext⟩
        exact ⟨i, List.mem_range.2 (hused.length.symm ▸ hi), hnext⟩

end Search

/-! ## The nearest first -/

/-- `j` is nearest to `a` among some nodes, and the first one of these. -/
def FirstNearest (mat : List (List ℚ)) (a : Nat) (P : Nat → Prop) (j : Nat) : Prop :=
  P j ∧ ∀ i, P i → weight mat a j < weight mat a i ∨ weight mat a j = weight mat a i ∧ j ≤ i

/-- Paths that go to the first of the nearest nodes each time.  The last node is left out of the first
choice, as it is in the code. -/
inductive NearestFirst (mat : List (List ℚ)) (k : Nat) : List Nat → Prop where
  | start {j : Nat} :
      FirstNearest mat 0 (fun i => 0 < i ∧ i < k) j → NearestFirst mat k [0, j]
  | next {l : List Nat} {a j : Nat} :
      NearestFirst mat k l → l.getLast? = some a →
        FirstNearest mat a (fun i => i < k + 1 ∧ i ∉ l) j → NearestFirst mat k (l ++ [j])

section Nearest

variable {mat : List (List ℚ)} {k : Nat} {l : List Nat}

theorem FirstNearest.unique {a j j' : Nat} {P : Nat → Prop} (h : FirstNearest mat a P j)
    (h' : FirstNearest mat a P j') : j = j' := by
  rcases h.2 j' h'.1 with hlt | ⟨heq, hle⟩
  · rcases h'.2 j h.1 with hlt' | ⟨heq', _⟩
    · exact absurd hlt hlt'.asymm
    · exact absurd heq'.symm hlt.ne
  · rcases h'.2 j h.1 with hlt' | ⟨_, hle'⟩
    · exact absurd heq.symm hlt'.ne
    · exact le_antisymm hle hle'

theorem NearestFirst.isSimple (h : NearestFirst mat k l) : IsSimple (k + 1) l := by
  induction h with
  | start hj =>
      have hnew : _ ∉ [0] := fun hmem => hj.1.1.ne' (List.mem_singleton.1 hmem)
      exact (isSimple_zero k.succ_pos).concat (Nat.lt_succ_of_lt hj.1.2) hnew
  | next _ _ hj ih =>
      exact ih.concat hj.1.1 hj.1.2

theorem NearestFirst.length_pos (h : NearestFirst mat k l) : 2 ≤ l.length := by
  induction h with
  | start _ =>
      exact le_rfl
  | next _ _ _ ih =>
      simp only [List.length_append, List.length_singleton]
      exact Nat.le_succ_of_le ih

/-- Each choice is determined, and so is the path. -/
theorem NearestFirst.unique {l' : List Nat} (h : NearestFirst mat k l) (h' : NearestFirst mat k l') :
    l.length = l'.length → l = l' := by
  intro hlen
  induction h generalizing l' with
  | start hj =>
      cases h' with
      | start hj' =>
          rw [hj.unique hj']
      | next hl' _ _ =>
          have hlong := hl'.length_pos
          simp at hlen
          exact absurd hlong (by simp [hlen])
  | next hl hlast hj ih =>
      cases h' with
      | start _ =>
          have hlong := hl.length_pos
          simp at hlen
          exact absurd hlong (by simp [hlen])
      | next hl' hlast' hj' =>
          have hsame := ih hl' (by simpa using hlen)
          subst hsame
          have ha := Option.some.inj (hlast.symm.trans hlast')
          subst ha
          rw [hj.unique hj']

/-! ### The greedy loop -/

/-- Where the loop is when it has the path `l`, behind what `_path` had before. -/
structure Greedy.At (mat : List (List ℚ)) (k : Nat) (old l : List Nat) (g : Greedy) : Prop where
  nearest : NearestFirst mat k l
  last : l.getLast? = some g.endPoint2
  used : Marks (k + 1) l g.used
  retVal : g.retVal = width 0 (weight mat) l
  path : g.path = old ++ l

/-- A turn finds a node as long as one is left. -/
theorem Greedy.At.turn (hmat : IsMatrix k mat) {old : List Nat} {g : Greedy}
    (h : Greedy.At mat k old l g) :
    l.length < k + 1 → ∃ j g', g.turn mat = some g' ∧ Greedy.At mat k old (l ++ [j]) g' := by
  intro hshort
  rcases exists_new hshort with ⟨i, hi, hnew⟩
  have hmark : g.used.getD i true = false := by
    simpa [hnew] using h.used.mark i hi
  have hmem : i ∈ List.range mat.length := List.mem_range.2 (hmat.rows.symm ▸ hi)
  rcases FirstMin.scan_spec (fun i => g.used.getD i true) id (weight mat g.endPoint2)
      List.pairwise_lt_range (g.newNode, MAX_VALUE)
    with ⟨_, hnone⟩ | ⟨j, hj, hjmark, hjlt, hscan, hfirst⟩
  · exact absurd (hmat.weight_lt _ _) (not_lt.2 (hnone i hmem hmark))
  · have hj' : j < k + 1 := hmat.rows ▸ List.mem_range.1 hj
    have hjnew : j ∉ l := by
      intro hjl
      exact Bool.false_ne_true (hjmark.symm.trans ((h.used.used_iff hj').2 hjl))
    refine ⟨j, _, by simp only [Greedy.turn, hscan, id_eq]; rfl, ?_⟩
    have hnearest : FirstNearest mat g.endPoint2 (fun i => i < k + 1 ∧ i ∉ l) j := by
      refine ⟨⟨hj', hjnew⟩, fun q hq => ?_⟩
      have hqmark : g.used.getD q true = false := by
        simpa [hq.2] using h.used.mark q hq.1
      refine (hfirst q (List.mem_range.2 (hmat.rows.symm ▸ hq.1)) hqmark).imp_right ?_
      rintro ⟨heq, hjq⟩
      exact ⟨heq, hjq.elim le_of_eq le_of_lt⟩
    exact
      { nearest := h.nearest.next h.last hnearest
        last := List.getLast?_concat
        used := h.used.concat hj'
        retVal := by
          rw [width_concat j h.last, h.retVal]
        path := by
          simp [h.path] }

theorem Greedy.At.turns (hmat : IsMatrix k mat) {old : List Nat} {g : Greedy} (t : Nat)
    (h : Greedy.At mat k old l g) : l.length + t = k + 1 →
      ∃ l' g', g.turns mat t = some g' ∧ Greedy.At mat k old l' g' ∧ l'.length = k + 1 := by
  intro hlen
  induction t generalizing l g with
  | zero =>
      exact ⟨l, g, rfl, h, hlen⟩
  | succ t ih =>
      have hshort : l.length < k + 1 := hlen ▸ Nat.lt_add_of_pos_right t.succ_pos
      rcases h.turn hmat hshort with ⟨j, g', hturn, h'⟩
      have hlen' : (l ++ [j]).length + t = k + 1 := by
        simpa [Nat.add_assoc, Nat.add_comm 1 t] using hlen
      rcases ih h' hlen' with ⟨l', g'', hturns, hat, hfull⟩
      exact ⟨l', g'', by simp [Greedy.turns, hturn, hturns], hat, hfull⟩

/-- `initVal` returns the width of the path that goes to the nearest nodes. -/
theorem initVal_eq (hk : 2 ≤ k) (hmat : IsMatrix k mat) (self : PathSelection) :
    ∃ g, NearestFirst mat k g ∧ g.length = k + 1 ∧
      initVal mat k self = some (width 0 (weight mat) g, self.path ++ g) := by
  have hmem : ∀ i, i ∈ List.range' 1 (mat.length - 2) ↔ 0 < i ∧ i < k := by
    intro i
    rw [List.mem_range'_1, hmat.rows]
    omega
  rcases FirstMin.scan_spec (fun _ => false) id (weight mat 0)
      List.pairwise_lt_range' (none, MAX_VALUE)
    with ⟨_, hnone⟩ | ⟨j, hj, _, _, hscan, hfirst⟩
  · exact absurd (hmat.weight_lt _ _)
      (not_lt.2 (hnone 1 ((hmem 1).2 ⟨Nat.one_pos, hk⟩) rfl))
  · have hj' := (hmem j).1 hj
    have hnearest : FirstNearest mat 0 (fun i => 0 < i ∧ i < k) j := by
      refine ⟨hj', fun q hq => (hfirst q ((hmem q).2 hq) rfl).imp_right ?_⟩
      rintro ⟨heq, hjq⟩
      exact ⟨heq, hjq.elim le_of_eq le_of_lt⟩
    have hat : Greedy.At mat k self.path [0, j]
        { endPoint2 := j
          newNode := none
          used := ((List.replicate mat.length false).set 0 true).set j true
          retVal := weight mat 0 j
          path := self.path ++ [0, j] } :=
      { nearest := .start hnearest
        last := rfl
        used := by
          have hzero : Marks (k + 1) ([] ++ [0]) _ := marks_nil.concat k.succ_pos
          exact hmat.rows ▸ hzero.concat (Nat.lt_succ_of_lt hj'.2)
        retVal := (max_eq_right (hmat.weight_nonneg 0 j)).symm
        path := rfl }
    rcases hat.turns hmat (k - 1) (by simp; omega) with ⟨g, _, hturns, hat', hlen⟩
    refine ⟨g, hat'.nearest, hlen, ?_⟩
    simp only [initVal, hscan, id_eq, hturns, Option.map_some, hat'.retVal, hat'.path]

end Nearest

/-! ## What the search returns -/

section Returned

variable {mat : List (List ℚ)} {k : Nat}

/-- The search from the bound of the nearest nodes visits all full paths. -/
theorem intelligentSearch_eq (hk : 2 ≤ k) (hmat : IsMatrix k mat) (self : PathSelection) :
    ∃ g self', NearestFirst mat k g ∧ g.length = k + 1 ∧
      intelligentSearch mat k self = some (self'.globalMax, self') ∧
      Visits mat k [0] ([0] <+: ·) { globalMax := width 0 (weight mat) g, path := [] } self' := by
  rcases initVal_eq hk hmat self with ⟨g, hnearest, hlen, hinit⟩
  have hused : Marks (k + 1) [0] ((List.replicate mat.length false).set 0 true) := by
    have hzero : Marks (k + 1) ([] ++ [0]) _ := marks_nil.concat k.succ_pos
    exact hmat.rows ▸ hzero
  have hbound : width 0 (weight mat) [0] ≤ width 0 (weight mat) g :=
    (width_le_iff.1 le_rfl).1
  refine ⟨g, _, hnearest, hlen, ?_, visits_isHelper (isSimple_zero k.succ_pos) hused hbound⟩
  simp only [intelligentSearch, hinit, Option.map_some]
  rfl

theorem IsFull.zero_prefix {p : List Nat} (hp : IsFull k p) : [0] <+: p := by
  rcases List.head?_eq_some_iff.1 hp.simple.head with ⟨rest, rfl⟩
  exact ⟨rest, rfl⟩

/-- `intelligentSearch` returns the smallest value that the largest weight of a path can have. -/
theorem intelligentSearch_isLeast (hk : 2 ≤ k) (hmat : IsMatrix k mat) (self : PathSelection) :
    ∃ v self', intelligentSearch mat k self = some (v, self') ∧
      IsLeast {v | ∃ p, IsFull k p ∧ IsGreatest {e | e ∈ edges (weight mat) p} v} v := by
  have hk' : 0 < k := Nat.lt_of_lt_of_le Nat.two_pos hk
  rcases intelligentSearch_eq hk hmat self with ⟨g, self', hnearest, hlen, hsearch, hvisits⟩
  have hg : IsFull k g := ⟨hnearest.isSimple, hlen⟩
  refine ⟨self'.globalMax, self', hsearch, ?_, ?_⟩
  · -- the bound is the width of the last path that was met, or still that of `g`
    rcases hvisits.found with heq | ⟨hfull, _, hwidth, _⟩
    · exact ⟨g, hg, (hg.isGreatest_iff hmat hk').2 (by rw [heq])⟩
    · exact ⟨self'.path, hfull, (hfull.isGreatest_iff hmat hk').2 hwidth.symm⟩
  · rintro v ⟨p, hp, hgreatest⟩
    rw [(hp.isGreatest_iff hmat hk').1 hgreatest]
    exact hvisits.covers p hp hp.zero_prefix

end Returned

/-- Three nodes with equal links. -/
def equalLinks : List (List ℚ) :=
  [[1, 1, 1], [1, 1, 1], [1, 1, 1]]

theorem isMatrix_equalLinks : IsMatrix 2 equalLinks where
  rows := rfl
  columns := by
    simp [equalLinks]
  nonneg := by
    simp [equalLinks]
  lt_max := by
    norm_num [equalLinks, MAX_VALUE]

theorem intelligentSearch_isLeast_equalLinks :
    ∃ v self', intelligentSearch equalLinks 2 { globalMax := 0, path := [] } = some (v, self') ∧
      IsLeast {v | ∃ p, IsFull 2 p ∧ IsGreatest {e | e ∈ edges (weight equalLinks) p} v} v :=
  intelligentSearch_isLeast le_rfl isMatrix_equalLinks _

/-! ## The path -/

/-- What the caller of `getPath` relies on: an order of all nodes from node 0 that has the value. -/
structure PathRight (mat : List (List ℚ)) (k : Nat) (v : ℚ) (p : List Nat) : Prop where
  head : p.head? = some 0
  perm : p.Perm (List.range (k + 1))
  greatest : IsGreatest {e | e ∈ edges (weight mat) p} v

/-- The loop of `PipeCoordinator::requestHandler` that puts the stripe in the order of the path, from
its end; it fails where the code reads outside a vector. -/
def reorder {α : Type} (k : Nat) (selectedPath : List Nat) (stripe : List α) : Option (List α) :=
  (List.range k).mapM fun i =>
    selectedPath[k - i]?.bind fun node => if node = 0 then none else stripe[node - 1]?

section Path

variable {mat : List (List ℚ)} {k : Nat} {p : List Nat}

theorem IsFull.perm (hp : IsFull k p) : p.Perm (List.range (k + 1)) :=
  hp.simple.perm_range hp.length

/-- The positions that the loop reads are those of the path from its end, without node 0. -/
theorem map_getD_reverse (t : List Nat) :
    (List.range t.length).map (fun i => (0 :: t).getD (t.length - i) 0) = t.reverse := by
  refine List.ext_getElem (by simp) fun i hi _ => ?_
  have hi' : i < t.length := by
    simpa using hi
  have hpos : t.length - i = (t.length - 1 - i) + 1 := by
    omega
  have hin : t.length - 1 - i < t.length := by
    omega
  simp only [List.getElem_map, List.getElem_range, List.getElem_reverse, hpos, List.getD,
    List.getElem?_cons_succ, List.getElem?_eq_getElem hin, Option.getD_some]

/-- Along an order of all nodes from node 0 the stripe loses nothing. -/
theorem reorder_perm {α : Type} {stripe : List α} (hhead : p.head? = some 0)
    (hperm : p.Perm (List.range (k + 1))) :
    stripe.length = k → ∃ temp, reorder k p stripe = some temp ∧ temp.Perm stripe := by
  intro hlen
  rcases List.head?_eq_some_iff.1 hhead with ⟨t, rfl⟩
  have ht : t.Perm ((List.range k).map (· + 1)) := by
    rw [List.range_succ_eq_map] at hperm
    exact hperm.cons_inv
  have htlen : t.length = k := by
    simpa using ht.length_eq
  cases stripe with
  | nil =>
      subst hlen
      exact ⟨[], rfl, List.Perm.nil⟩
  | cons d rest =>
      let entry : Nat → α := fun node => (d :: rest).getD (node - 1) d
      -- no read is of the requestor or past the end
      have hread : ∀ i ∈ List.range k,
          ((0 :: t)[k - i]?.bind fun node =>
            if node = 0 then none else (d :: rest)[node - 1]?) =
            some (entry ((0 :: t).getD (k - i) 0)) := by
        intro i hi
        have hi' : i < k := List.mem_range.1 hi
        have hin : k - i < (0 :: t).length := by
          simp only [List.length_cons, htlen]
          omega
        have hmem : (0 :: t).getD (k - i) 0 ∈ t := by
          have hrev : (0 :: t).getD (k - i) 0 ∈ t.reverse := by
            rw [← map_getD_reverse t, htlen]
            exact List.mem_map_of_mem hi
          exact List.mem_reverse.1 hrev
        rcases List.mem_map.1 (ht.mem_iff.1 hmem) with ⟨node, hnode, heq⟩
        have hnode' : node < (d :: rest).length := hlen.symm ▸ List.mem_range.1 hnode
        have hget : (0 :: t)[k - i]? = some (node + 1) := by
          rw [List.getElem?_eq_getElem hin]
          simpa [List.getD, List.getElem?_eq_getElem hin] using heq.symm
        simp [entry, hget, List.getElem?_eq_getElem hnode']
      refine ⟨_, Checked.mapM_eq_some hread, ?_⟩
      have hmap : (List.range k).map (fun i => entry ((0 :: t).getD (k - i) 0)) =
          t.reverse.map entry := by
        rw [← map_getD_reverse t, htlen, List.map_map]
        rfl
      have hentries : (List.range k).map (fun node => entry (node + 1)) = d :: rest := by
        refine List.ext_getElem (by simp [← hlen]) fun i hi hi' => ?_
        simp [entry, List.getElem?_eq_getElem hi']
      have htail : (t.map entry).Perm (d :: rest) := by
        simpa [List.map_map, Function.comp_def, hentries] using ht.map entry
      exact hmap ▸ ((List.reverse_perm t).map entry).trans htail

/-- What the caller of the search needs: a value, a path that has it, and a stripe in its order. -/
def PathFits (mat : List (List ℚ)) (k : Nat) (self : PathSelection) : Prop :=
  ∃ v self', intelligentSearch mat k self = some (v, self') ∧ PathRight mat k v self'.path ∧
    ∀ stripe : List (Nat × Str), stripe.length = k →
      ∃ temp, reorder k self'.path stripe = some temp ∧ temp.Perm stripe

/-- `getPath` gives a path only if some path is narrower than the one that goes to the nearest nodes;
that one itself is thrown away, and the search leaves out edges as heavy as its heaviest. -/
theorem pathFits_iff (hk : 2 ≤ k) (hmat : IsMatrix k mat) (self : PathSelection) :
    (∃ g, NearestFirst mat k g ∧ g.length = k + 1) ∧
      ∀ g, NearestFirst mat k g → g.length = k + 1 →
        (PathFits mat k self ↔
          ∃ p, IsFull k p ∧ ∀ e ∈ edges (weight mat) p, ∃ e' ∈ edges (weight mat) g, e < e') := by
  have hk' : 0 < k := Nat.lt_of_lt_of_le Nat.two_pos hk
  rcases intelligentSearch_eq hk hmat self with ⟨g, self', hnearest, hlen, hsearch, hvisits⟩
  refine ⟨⟨g, hnearest, hlen⟩, fun g' hnearest' hlen' => ?_⟩
  have hg : g' = g := hnearest'.unique hnearest (hlen'.trans hlen.symm)
  subst hg
  have hwide : IsGreatest {e | e ∈ edges (weight mat) g'} (width 0 (weight mat) g') :=
    (IsFull.isGreatest_iff hmat hk' ⟨hnearest.isSimple, hlen⟩).2 rfl
  constructor
  · rintro ⟨v, self'', hsearch', hright, _⟩
    have hself : self'' = self' := by
      simpa using congrArg (Option.map Prod.snd) (hsearch'.symm.trans hsearch)
    subst hself
    rcases hvisits.found with heq | ⟨hfull, _, _, hedge⟩
    · -- no path was met, and `getPath` returns the empty vector
      have hempty : self''.path = [] := by
        rw [heq]
      have hhead := hright.head
      rw [hempty] at hhead
      cases hhead
    · refine ⟨self''.path, hfull, fun e he => ⟨_, hwide.1, ?_⟩⟩
      exact (hedge e he).resolve_left List.not_mem_nil
  · rintro ⟨p, hp, hnarrow⟩
    have hless : width 0 (weight mat) p < width 0 (weight mat) g' := by
      rcases hnarrow _ ((hp.isGreatest_iff hmat hk').2 rfl).1 with ⟨e', he', hlt⟩
      exact hlt.trans_le (hwide.2 he')
    rcases hvisits.found with heq | ⟨hfull, _, hwidth, _⟩
    · have hcover := hvisits.covers p hp hp.zero_prefix
      rw [heq] at hcover
      exact absurd hless (not_lt.2 hcover)
    · have hright : PathRight mat k self'.globalMax self'.path :=
        { head := hfull.simple.head
          perm := hfull.perm
          greatest := (hfull.isGreatest_iff hmat hk').2 hwidth.symm }
      exact ⟨_, self', hsearch, hright, fun stripe hstripe =>
        reorder_perm hright.head hright.perm hstripe⟩

theorem pathFits_iff_equalLinks :
    (∃ g, NearestFirst equalLinks 2 g ∧ g.length = 3) ∧
      ∀ g, NearestFirst equalLinks 2 g → g.length = 3 →
        (PathFits equalLinks 2 { globalMax := 0, path := [] } ↔
          ∃ p, IsFull 2 p ∧ ∀ e ∈ edges (weight equalLinks) p,
            ∃ e' ∈ edges (weight equalLinks) g, e < e') :=
  pathFits_iff le_rfl isMatrix_equalLinks _

/-- With equal links no path is narrower: the vector is empty, and the order reads outside it. -/
theorem not_pathFits_equalLinks :
    intelligentSearch equalLinks 2 { globalMax := 0, path := [] } =
        some (1, { globalMax := 1, path := [] }) ∧
      reorder 2 [] [(1, ['a']), (2, ['b'])] = none ∧
      ¬ ∀ k mat self, 2 ≤ k → IsMatrix k mat → PathFits mat k self := by
  have hsearch : intelligentSearch equalLinks 2 { globalMax := 0, path := [] } =
      some (1, { globalMax := 1, path := [] }) := by
    have hinit : initVal equalLinks 2 { globalMax := 0, path := [] } = some (1, [0, 1, 2]) := by
      decide +kernel
    have hused : (List.replicate equalLinks.length false).set 0 true = [true, false, false] := rfl
    have hcut : isHelper equalLinks 2 [0] [true, false, false] 0 { globalMax := 1, path := [] } =
        { globalMax := 1, path := [] } := by
      simp [isHelper, isLoop, weight, equalLinks, List.range_succ]
    simp only [intelligentSearch, hinit, hused, hcut, Option.map_some]
  refine ⟨hsearch, rfl, fun h => ?_⟩
  rcases h 2 equalLinks { globalMax := 0, path := [] } le_rfl isMatrix_equalLinks with
    ⟨v, self', hsearch', hright, _⟩
  have hself : self' = { globalMax := 1, path := [] } := by
    simpa using congrArg (Option.map Prod.snd) (hsearch'.symm.trans hsearch)
  have hhead := hright.head
  rw [hself] at hhead
  cases hhead

end Path

end PathSelection

end CoRD
