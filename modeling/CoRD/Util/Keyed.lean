import Mathlib.Algebra.BigOperators.Group.Finset.Basic
import Mathlib.Algebra.BigOperators.Group.List.Basic
import Mathlib.Data.List.GetD
import Mathlib.Data.List.Perm.Basic
import Mathlib.Logic.Function.Basic
import Mathlib.Tactic.Ring

/-!
# Keyed — writing the entries of a list into a table

`writeAll key val l f` goes through `l` and rewrites, for each element, the entry of `f` at its key.
When the keys differ, every entry is rewritten once, so the order of the list does not matter.
-/

namespace Keyed

variable {α β κ : Type} [DecidableEq κ]

def writeAll (key : α → κ) (val : α → β → β) (l : List α) (f : κ → β) : κ → β :=
  l.foldl (fun f a => Function.update f (key a) (val a (f (key a)))) f

variable {key : α → κ} {val : α → β → β} {l l' : List α} {f : κ → β}

theorem writeAll_of_not_mem {i : κ} (h : i ∉ l.map key) : writeAll key val l f i = f i := by
  induction l generalizing f with
  | nil =>
      rfl
  | cons a l ih =>
      simp only [List.map_cons, List.mem_cons, not_or] at h
      exact (ih h.2).trans (Function.update_of_ne h.1 _ _)

theorem writeAll_of_mem (hkeys : (l.map key).Nodup) {a : α} (ha : a ∈ l) :
    writeAll key val l f (key a) = val a (f (key a)) := by
  induction l generalizing f with
  | nil =>
      simp at ha
  | cons b l ih =>
      rw [List.map_cons, List.nodup_cons] at hkeys
      rcases List.mem_cons.1 ha with rfl | ha
      · exact (writeAll_of_not_mem hkeys.1).trans (Function.update_self _ _ _)
      · have hne : key a ≠ key b := fun heq => hkeys.1 (heq ▸ List.mem_map_of_mem ha)
        refine (ih (f := Function.update f (key b) (val b (f (key b)))) hkeys.2 ha).trans ?_
        rw [Function.update_of_ne hne]

/-- Leaving out the one element with a given key. -/
theorem length_filter_ne {i : κ} (hkeys : (l.map key).Nodup) (hi : i ∈ l.map key) :
    (l.filter fun a => key a ≠ i).length + 1 = l.length := by
  induction l with
  | nil =>
      simp at hi
  | cons a l ih =>
      rw [List.map_cons, List.nodup_cons] at hkeys
      by_cases ha : key a = i
      · have hall : (l.filter fun a => key a ≠ i) = l := by
          refine List.filter_eq_self.2 fun b hb => ?_
          have hne : key b ≠ i := fun heq => hkeys.1 (ha.trans heq.symm ▸ List.mem_map_of_mem hb)
          simpa using hne
        rw [List.filter_cons_of_neg (by simpa using ha), hall, List.length_cons]
      · have hi' : i ∈ l.map key := by
          rw [List.map_cons, List.mem_cons] at hi
          exact hi.resolve_left fun h => ha h.symm
        rw [List.filter_cons_of_pos (by simpa using ha), List.length_cons, List.length_cons,
          ih hkeys.2 hi']

omit [DecidableEq κ] in
/-- A sum over the positions of a list is the sum of the list. -/
theorem sum_range_getD {M : Type} [AddCommMonoid M] (g : α → M) (d : α) (l : List α) :
    ∑ j ∈ Finset.range l.length, g (l.getD j d) = (l.map g).sum := by
  induction l with
  | nil =>
      simp
  | cons a l ih =>
      rw [List.length_cons, Finset.sum_range_succ', List.map_cons, List.sum_cons, add_comm, ← ih]
      simp

omit [DecidableEq κ] in
/-- Reading a table that was flattened row by row. -/
theorem getD_flatMap_rows {n m : Nat} {f : Nat → List α} (hf : ∀ i, (f i).length = n) {i j : Nat}
    (hi : i < m) (hj : j < n) (d : α) :
    ((List.range m).flatMap f).getD (i * n + j) d = (f i).getD j d := by
  induction m with
  | zero =>
      omega
  | succ m ih =>
      have hlen : ((List.range m).flatMap f).length = m * n := by
        simp [List.length_flatMap, hf]
      rw [List.range_succ, List.flatMap_append, List.flatMap_singleton]
      rcases Nat.lt_succ_iff_lt_or_eq.1 hi with hlt | rfl
      · have hpos : i * n + j < m * n := by
          calc i * n + j < i * n + n := by omega
            _ = (i + 1) * n := by ring
            _ ≤ m * n := Nat.mul_le_mul_right n hlt
        rw [List.getD_append _ _ _ _ (by omega), ih hlt]
      · rw [List.getD_append_right _ _ _ _ (by omega), hlen, Nat.add_sub_cancel_left]

omit [DecidableEq κ] in
/-- A loop over `i < m` with an effect at `q` only. -/
theorem foldl_range_ite (F : α → α) (q m : Nat) (a : α) :
    (List.range m).foldl (fun a i => if i = q then F a else a) a = if q < m then F a else a := by
  induction m with
  | zero =>
      rfl
  | succ m ih =>
      rw [List.range_succ, List.foldl_append, ih]
      rcases Nat.lt_trichotomy q m with hq | rfl | hq
      · have hne : m ≠ q := by omega
        simp [hq, Nat.lt_succ_of_lt hq, hne]
      · simp
      · have hne : m ≠ q := by omega
        have hnot : ¬ q < m + 1 := by omega
        simp [hne, hnot, Nat.lt_asymm hq]

/-- When at most one element satisfies `p`, so at most one summand counts. -/
theorem sum_map_ite {M : Type} [AddCommMonoid M] {p : α → Prop} [DecidablePred p] (v : M)
    (hl : l.Pairwise fun a b => ¬ (p a ∧ p b)) :
    (l.map fun a => if p a then v else 0).sum = if ∃ a ∈ l, p a then v else 0 := by
  induction l with
  | nil =>
      simp
  | cons a l ih =>
      rw [List.pairwise_cons] at hl
      rw [List.map_cons, List.sum_cons, ih hl.2]
      by_cases ha : p a
      · have hno : ¬ ∃ b ∈ l, p b := by
          rintro ⟨b, hb, hpb⟩
          exact hl.1 b hb ⟨ha, hpb⟩
        rw [if_pos ha, if_neg hno, add_zero, if_pos ⟨a, by simp, ha⟩]
      · simp only [List.mem_cons, exists_eq_or_imp, ha, false_or, if_false, zero_add]

end Keyed
