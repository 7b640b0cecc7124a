import Mathlib.Data.List.MinMax
import Mathlib.Data.List.Perm.Basic
import Mathlib.Data.Option.NAry
import Mathlib.Order.Lattice

/-!
# Ranges — ways to merge ranges

Ranges are pairs of a start and an end over a linear order.  `hull` is the smallest range around all
of them, `minEnds` takes the minimum on both sides.  Neither depends on the order of the list, and
they agree exactly when all ranges have the same end.
-/

namespace Ranges

variable {α : Type} [LinearOrder α]

def hull (l : List (α × α)) : Option (α × α) :=
  Option.map₂ Prod.mk (l.map Prod.fst).min? (l.map Prod.snd).max?

def minEnds (l : List (α × α)) : Option (α × α) :=
  Option.map₂ Prod.mk (l.map Prod.fst).min? (l.map Prod.snd).min?

/-- One more range merged into what is kept, with the minimum on both sides. -/
def meet (p : α × α) : Option (α × α) → α × α
  | none => p
  | some old => (min p.1 old.1, min p.2 old.2)

/-- All ranges end at the same point. -/
def SameEnd (l : List (α × α)) : Prop :=
  ∀ p ∈ l, ∀ q ∈ l, p.2 = q.2

instance (l : List (α × α)) : Decidable (SameEnd l) :=
  inferInstanceAs (Decidable (∀ p ∈ l, ∀ q ∈ l, p.2 = q.2))

variable {l l' : List (α × α)} {s e : α}

@[simp] theorem hull_nil : hull ([] : List (α × α)) = none := rfl

@[simp] theorem minEnds_nil : minEnds ([] : List (α × α)) = none := rfl

theorem hull_eq_some_iff :
    hull l = some (s, e) ↔ (l.map Prod.fst).min? = some s ∧ (l.map Prod.snd).max? = some e := by
  simp [hull, Option.map₂_eq_some_iff]

theorem minEnds_eq_some_iff :
    minEnds l = some (s, e) ↔ (l.map Prod.fst).min? = some s ∧ (l.map Prod.snd).min? = some e := by
  simp [minEnds, Option.map₂_eq_some_iff]

theorem min?_perm {xs ys : List α} (h : xs.Perm ys) : xs.min? = ys.min? := by
  refine Option.ext fun a => ?_
  simp only [List.min?_eq_some_iff, h.mem_iff]

theorem minEnds_perm (h : l.Perm l') : minEnds l = minEnds l' := by
  rw [minEnds, minEnds, min?_perm (h.map Prod.fst), min?_perm (h.map Prod.snd)]

theorem minEnds_cons (p : α × α) (l : List (α × α)) :
    minEnds (p :: l) = some (meet p (minEnds l)) := by
  cases l with
  | nil =>
      rfl
  | cons q l =>
      simp [minEnds, meet, List.min?_cons]

theorem minEnds_concat (l : List (α × α)) (p : α × α) :
    minEnds (l ++ [p]) = some (meet p (minEnds l)) := by
  rw [minEnds_perm List.perm_append_comm, List.singleton_append, minEnds_cons]

/-- The bounds of a list of ranges; both ends are ends of ranges. -/
theorem exists_bounds (hl : l ≠ []) :
    ∃ s lo hi, minEnds l = some (s, lo) ∧ hull l = some (s, hi) ∧
      (∀ p ∈ l, s ≤ p.1 ∧ lo ≤ p.2 ∧ p.2 ≤ hi) ∧ (∃ p ∈ l, p.2 = lo) ∧ ∃ p ∈ l, p.2 = hi := by
  obtain ⟨s, hs⟩ := Option.ne_none_iff_exists'.1
    (mt List.min?_eq_none_iff.1 (mt List.map_eq_nil_iff.1 hl) : (l.map Prod.fst).min? ≠ none)
  obtain ⟨lo, hlo⟩ := Option.ne_none_iff_exists'.1
    (mt List.min?_eq_none_iff.1 (mt List.map_eq_nil_iff.1 hl) : (l.map Prod.snd).min? ≠ none)
  obtain ⟨hi, hhi⟩ := Option.ne_none_iff_exists'.1
    (mt List.max?_eq_none_iff.1 (mt List.map_eq_nil_iff.1 hl) : (l.map Prod.snd).max? ≠ none)
  have hstart := (List.min?_eq_some_iff.1 hs).2
  obtain ⟨hlomem, hlow⟩ := List.min?_eq_some_iff.1 hlo
  obtain ⟨himem, hhigh⟩ := List.max?_eq_some_iff.1 hhi
  refine ⟨s, lo, hi, minEnds_eq_some_iff.2 ⟨hs, hlo⟩, hull_eq_some_iff.2 ⟨hs, hhi⟩, ?_, ?_, ?_⟩
  · exact fun p hp => ⟨hstart _ (List.mem_map_of_mem hp), hlow _ (List.mem_map_of_mem hp),
      hhigh _ (List.mem_map_of_mem hp)⟩
  · exact List.mem_map.1 hlomem
  · exact List.mem_map.1 himem

theorem minEnds_eq_hull_iff : minEnds l = hull l ↔ SameEnd l := by
  by_cases hl : l = []
  · subst hl
    simp [SameEnd]
  · obtain ⟨s, lo, hi, hmin, hhull, hbounds, ⟨p, hp, rfl⟩, ⟨q, hq, rfl⟩⟩ := exists_bounds hl
    rw [hmin, hhull]
    constructor
    · intro heq a ha b hb
      have hends : p.2 = q.2 := (Prod.mk.inj (Option.some.inj heq)).2
      have hsame : ∀ c ∈ l, c.2 = p.2 := fun c hc =>
        le_antisymm (hends ▸ (hbounds c hc).2.2) (hbounds c hc).2.1
      exact (hsame a ha).trans (hsame b hb).symm
    · intro hsame
      rw [hsame p hp q hq]

/-- What is kept covers every range exactly when they all end at the same point. -/
theorem covers_minEnds_iff {se : α × α} (h : minEnds l = some se) :
    (∀ p ∈ l, se.1 ≤ p.1 ∧ p.2 ≤ se.2) ↔ SameEnd l := by
  have hl : l ≠ [] := by
    rintro rfl
    simp at h
  obtain ⟨s, lo, hi, hmin, _, hbounds, ⟨p, hp, rfl⟩, _⟩ := exists_bounds hl
  rw [hmin] at h
  obtain rfl := Option.some.inj h
  constructor
  · intro hcov a ha b hb
    have hsame : ∀ c ∈ l, c.2 = p.2 := fun c hc =>
      le_antisymm (hcov c hc).2 (hbounds c hc).2.1
    exact (hsame a ha).trans (hsame b hb).symm
  · exact fun hsame a ha => ⟨(hbounds a ha).1, (hsame a ha p hp).le⟩

end Ranges
