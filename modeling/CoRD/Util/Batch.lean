import Mathlib.Data.List.Basic
import Mathlib.Data.List.Infix

/-!
# Batch — cutting a list into batches as soon as they are full

`split full l` takes the elements of `l` one by one and closes the current batch as soon as it is
full.  Closed batches are full but no shorter start of them is, and a list splits in one way only
into such batches and a rest that never got full (`split_eq`).
-/

namespace Batch

variable {α : Type}

/-! ## Batches -/

section Minimal

variable (full : List α → Prop)

/-- Full for the first time at its last element. -/
structure Minimal (g : List α) : Prop where
  ne_nil : g ≠ []
  isFull : full g
  not_full : ∀ p, p <+: g → p ≠ [] → p ≠ g → ¬ full p

/-- Not full yet, at any element. -/
def Open (l : List α) : Prop :=
  ∀ p, p <+: l → p ≠ [] → ¬ full p

variable {full}

theorem open_nil : Open full [] :=
  fun _ hp hne => absurd (List.prefix_nil.1 hp) hne

theorem Open.concat {l : List α} {a : α} (hl : Open full l) (ha : ¬ full (l ++ [a])) :
    Open full (l ++ [a]) := by
  intro p hp hne
  rcases List.prefix_concat_iff.1 hp with rfl | hp
  · exact ha
  · exact hl p hp hne

theorem Open.minimal {l : List α} {a : α} (hl : Open full l) (ha : full (l ++ [a])) :
    Minimal full (l ++ [a]) where
  ne_nil := by simp
  isFull := ha
  not_full := by
    intro p hp hne hneq
    exact hl p ((List.prefix_concat_iff.1 hp).resolve_left hneq) hne

theorem Minimal.open_dropLast {l : List α} {a : α} (h : Minimal full (l ++ [a])) : Open full l := by
  intro p hp hne
  refine h.not_full p (hp.trans (List.prefix_append l [a])) hne fun heq => ?_
  have hlen := hp.length_le
  rw [heq, List.length_append, List.length_singleton] at hlen
  omega

end Minimal

/-! ## Splitting -/

section Split

variable (full : List α → Prop) [DecidablePred full]

/-- The closed batches and the current one. -/
def push (st : List (List α) × List α) (a : α) : List (List α) × List α :=
  if full (st.2 ++ [a]) then (st.1 ++ [st.2 ++ [a]], []) else (st.1, st.2 ++ [a])

def split (l : List α) : List (List α) × List α :=
  l.foldl (push full) ([], [])

variable {full}

/-- What the closed batches and the current one say about the elements so far. -/
structure Spec (full : List α → Prop) (l : List α) (st : List (List α) × List α) : Prop where
  flatten : st.1.flatten ++ st.2 = l
  minimal : ∀ g ∈ st.1, Minimal full g
  open_rest : Open full st.2

theorem Spec.push {l : List α} {st : List (List α) × List α} (h : Spec full l st) (a : α) :
    Spec full (l ++ [a]) (push full st a) := by
  unfold Batch.push
  split
  case isTrue hfull =>
    refine ⟨?_, fun g hg => ?_, open_nil⟩
    · simp [← h.flatten]
    · rcases List.mem_append.1 hg with hold | hnew
      · exact h.minimal g hold
      · exact List.mem_singleton.1 hnew ▸ h.open_rest.minimal hfull
  case isFalse hnot =>
    refine ⟨?_, h.minimal, h.open_rest.concat hnot⟩
    simp [← h.flatten]

theorem split_spec (full : List α → Prop) [DecidablePred full] (l : List α) : Spec full l (split full l) := by
  induction l using List.reverseRecOn with
  | nil =>
      exact ⟨rfl, fun g hg => absurd hg List.not_mem_nil, open_nil⟩
  | append_singleton l a ih =>
      rw [split, List.foldl_concat]
      exact ih.push a

/-- A list that stays open is collected in the current batch. -/
theorem foldl_push_open (gs : List (List α)) {l : List α} (hl : Open full l) :
    l.foldl (push full) (gs, []) = (gs, l) := by
  induction l using List.reverseRecOn with
  | nil =>
      rfl
  | append_singleton l a ih =>
      have hopen : Open full l := fun p hp => hl p (hp.trans (List.prefix_append l [a]))
      rw [List.foldl_concat, ih hopen, push, if_neg (hl _ List.prefix_rfl (by simp))]

theorem foldl_push_minimal (gs : List (List α)) {g : List α} (hg : Minimal full g) :
    g.foldl (push full) (gs, []) = (gs ++ [g], []) := by
  rcases List.eq_nil_or_concat' g with rfl | ⟨l, a, rfl⟩
  · exact absurd rfl hg.ne_nil
  · rw [List.foldl_concat, foldl_push_open gs hg.open_dropLast, push, if_pos hg.isFull]

/-- The batches of a list are the only minimal ones that make it up. -/
theorem split_eq {gs : List (List α)} {l : List α} (hgs : ∀ g ∈ gs, Minimal full g)
    (hl : gs.flatten = l) : split full l = (gs, []) := by
  subst hl
  induction gs using List.reverseRecOn with
  | nil =>
      rfl
  | append_singleton gs g ih =>
      have hold := ih fun g' hg' => hgs g' (List.mem_append_left _ hg')
      rw [split] at hold ⊢
      rw [List.flatten_append, List.flatten_singleton, List.foldl_append, hold,
        foldl_push_minimal gs (hgs g (by simp))]

end Split

end Batch
