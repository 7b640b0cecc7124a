import Mathlib.Data.List.Induction
import Mathlib.Data.List.Nodup
import Mathlib.Data.List.Perm.Subperm
import Mathlib.Order.Bounds.Basic
import Mathlib.Order.MinMax
import Mathlib.Tactic.Order

/-!
# Bottleneck — paths and their largest edges

A path is a list of nodes, built at its end.  Its edges are the weights between neighbours, and its
width is the largest of them, or a given lower bound of all weights if there is none.  A search that
extends a path only grows its width, which is why it may cut off what is too wide already.
-/

namespace Bottleneck

variable {V α : Type}

/-- The weights between neighbours. -/
def edges (w : V → V → α) : List V → List α
  | a :: b :: l => w a b :: edges w (b :: l)
  | _ => []

variable {w : V → V → α}

/-- A node at the end adds the edge to it. -/
theorem edges_concat {l : List V} {a : V} (b : V) :
    l.getLast? = some a → edges w (l ++ [b]) = edges w l ++ [w a b] := by
  intro h
  induction l with
  | nil =>
      cases h
  | cons c l ih =>
      cases l with
      | nil =>
          cases h
          rfl
      | cons d l =>
          have hrest : edges w (d :: l ++ [b]) = edges w (d :: l) ++ [w a b] := ih (by simpa using h)
          simpa [edges] using hrest

theorem length_edges (w : V → V → α) (l : List V) : (edges w l).length = l.length - 1 := by
  induction l with
  | nil =>
      rfl
  | cons a l ih =>
      cases l with
      | nil =>
          rfl
      | cons b l =>
          simpa [edges] using ih

theorem mem_edges {l : List V} {e : α} : e ∈ edges w l → ∃ a b, w a b = e := by
  intro he
  induction l with
  | nil =>
      cases he
  | cons a l ih =>
      cases l with
      | nil =>
          cases he
      | cons b l =>
          rcases List.mem_cons.1 he with heq | hrest
          · exact ⟨a, b, heq.symm⟩
          · exact ih hrest

theorem edges_isPrefix {l p : List V} : l <+: p → edges w l <+: edges w p := by
  rintro ⟨r, rfl⟩
  induction r using List.reverseRecOn with
  | nil =>
      simp
  | append_singleton r b ih =>
      rw [← List.append_assoc]
      cases hlast : (l ++ r).getLast? with
      | none =>
          have hnil : l ++ r = [] := List.getLast?_eq_none_iff.1 hlast
          rcases List.append_eq_nil_iff.1 hnil with ⟨rfl, rfl⟩
          exact List.nil_prefix
      | some a =>
          rw [edges_concat b hlast]
          exact ih.trans (List.prefix_append _ _)

/-! ## Width -/

section Width

variable [LinearOrder α] {z : α}

/-- The largest edge, if it is above `z`. -/
def width (z : α) (w : V → V → α) (l : List V) : α :=
  (edges w l).foldl max z

theorem foldl_max_le_iff {l : List α} {z c : α} : l.foldl max z ≤ c ↔ z ≤ c ∧ ∀ e ∈ l, e ≤ c := by
  induction l generalizing z with
  | nil =>
      simp
  | cons a l ih =>
      simp [ih, and_assoc]

theorem width_le_iff {l : List V} {c : α} : width z w l ≤ c ↔ z ≤ c ∧ ∀ e ∈ edges w l, e ≤ c :=
  foldl_max_le_iff

theorem le_width {l : List V} {e : α} : e ∈ edges w l → e ≤ width z w l := by
  intro he
  exact (width_le_iff.1 le_rfl).2 e he

/-- The width grows with the path. -/
theorem width_concat {l : List V} {a : V} (b : V) :
    l.getLast? = some a → width z w (l ++ [b]) = max (width z w l) (w a b) := by
  intro h
  simp only [width, edges_concat b h, List.foldl_append, List.foldl_cons, List.foldl_nil]

theorem width_mono {l p : List V} : l <+: p → width z w l ≤ width z w p := by
  intro h
  have hall := width_le_iff.1 (le_refl (width z w p))
  exact width_le_iff.2 ⟨hall.1, fun e he => hall.2 e ((edges_isPrefix h).subset he)⟩

/-- Above `z` the width is an edge. -/
theorem width_mem {l : List V} : width z w l = z ∨ width z w l ∈ edges w l := by
  have hfold : ∀ (l : List α) (z : α), l.foldl max z = z ∨ l.foldl max z ∈ l := by
    intro l
    induction l with
    | nil =>
        intro z
        exact Or.inl rfl
    | cons a l ih =>
        intro z
        rcases ih (max z a) with heq | hmem
        · rcases max_choice z a with hz | ha
          · exact Or.inl (heq.trans hz)
          · exact Or.inr (List.mem_cons.2 (Or.inl (heq.trans ha)))
        · exact Or.inr (List.mem_cons_of_mem _ hmem)
  exact hfold _ z

/-- On a path with edges, none of them below `z`, the width is the largest edge. -/
theorem isGreatest_width {l : List V} (hedge : edges w l ≠ []) (hz : ∀ e ∈ edges w l, z ≤ e) :
    IsGreatest {e | e ∈ edges w l} (width z w l) := by
  refine ⟨?_, fun e he => le_width he⟩
  rcases width_mem (z := z) (w := w) (l := l) with heq | hmem
  · -- all edges are as small as `z`
    rcases List.exists_mem_of_ne_nil _ hedge with ⟨e, he⟩
    have hle : e ≤ z := heq ▸ le_width he
    have hwidth : width z w l = e := heq.trans (le_antisymm (hz e he) hle)
    exact hwidth ▸ he
  · exact hmem

end Width

/-! ## Simple paths -/

/-- A path from node 0 that does not come back to a node. -/
structure IsSimple (n : Nat) (l : List Nat) : Prop where
  head : l.head? = some 0
  nodup : l.Nodup
  lt : ∀ a ∈ l, a < n

section Simple

variable {n : Nat} {l p : List Nat}

theorem isSimple_zero (hn : 0 < n) : IsSimple n [0] where
  head := rfl
  nodup := List.nodup_singleton 0
  lt := by simpa using hn

theorem IsSimple.ne_nil (h : IsSimple n l) : l ≠ [] := by
  rintro rfl
  cases h.head

theorem IsSimple.concat {i : Nat} (h : IsSimple n l) (hi : i < n) (hnew : i ∉ l) :
    IsSimple n (l ++ [i]) where
  head := by
    rw [List.head?_append_of_ne_nil l h.ne_nil]
    exact h.head
  nodup := List.nodup_append.2 ⟨h.nodup, List.nodup_singleton i, by
    intro a ha b hb
    rintro rfl
    exact hnew (List.mem_singleton.1 hb ▸ ha)⟩
  lt := by
    intro a ha
    rcases List.mem_append.1 ha with hl | hi'
    · exact h.lt a hl
    · exact List.mem_singleton.1 hi' ▸ hi

/-- A simple path has room for no more than all nodes. -/
theorem IsSimple.length_le (h : IsSimple n l) : l.length ≤ n := by
  have hsub : l.Subperm (List.range n) :=
    List.subperm_of_subset h.nodup fun a ha => List.mem_range.2 (h.lt a ha)
  simpa using hsub.length_le

/-- A path that is shorter has a node to go on to. -/
theorem exists_new : l.length < n → ∃ i < n, i ∉ l := by
  intro hlen
  by_contra hall
  push Not at hall
  have hsub : (List.range n).Subperm l :=
    List.subperm_of_subset List.nodup_range fun a ha => hall a (List.mem_range.1 ha)
  have hle : n ≤ l.length := by simpa using hsub.length_le
  exact absurd hlen (Nat.not_lt.2 hle)

/-- A simple path through all nodes is an order of them. -/
theorem IsSimple.perm_range (h : IsSimple n l) : l.length = n → l.Perm (List.range n) := by
  intro hlen
  have hsub : l.Subperm (List.range n) :=
    List.subperm_of_subset h.nodup fun a ha => List.mem_range.2 (h.lt a ha)
  exact hsub.perm_of_length_le (by simp [hlen])

/-- A path that goes on beyond a part of it goes on to a new node. -/
theorem IsSimple.next (h : IsSimple n p) (hpre : l <+: p) : l.length < p.length →
    ∃ i, i < n ∧ i ∉ l ∧ l ++ [i] <+: p := by
  rcases hpre with ⟨r, rfl⟩
  intro hlen
  cases r with
  | nil =>
      simp at hlen
  | cons i r =>
      have hnodup := h.nodup
      refine ⟨i, h.lt i (by simp), ?_, ⟨r, by simp⟩⟩
      intro hmem
      exact (List.nodup_append.1 hnodup).2.2 i hmem i List.mem_cons_self rfl

end Simple

end Bottleneck
