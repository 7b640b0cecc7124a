import Mathlib.Data.List.Nodup

/-!
# Fibers — loops whose turns touch disjoint parts of a table

A loop over the columns of a matrix rewrites one column a turn and reads no other; a loop over the
rows does the same with rows.  `φ` tells which turn a position belongs to, `F` is what its turn
makes of it, and `p` holds of the turns there are.
-/

namespace Fibers

variable {α ι V : Type} [DecidableEq ι]

/-- The turn of a position decides it, and reads the positions of this turn only. -/
structure TurnBy (p : ι → Prop) (φ : α → ι) (F : (α → V) → α → V)
    (body : (α → V) → ι → α → V) : Prop where
  apply : ∀ f t x, p t → body f t x = if φ x = t then F f x else f x
  congr : ∀ f g x, (∀ y, φ y = φ x → f y = g y) → F f x = F g x

variable {p : ι → Prop} {φ : α → ι} {F : (α → V) → α → V} {body : (α → V) → ι → α → V}

/-- Behind the loop every position whose turn came is rewritten once, from the table before. -/
theorem TurnBy.foldl (h : TurnBy p φ F body) {l : List ι} (hl : l.Nodup) (hp : ∀ t ∈ l, p t)
    (f : α → V) (x : α) : l.foldl body f x = if φ x ∈ l then F f x else f x := by
  induction l generalizing f with
  | nil =>
      simp
  | cons t l ih =>
      rw [List.nodup_cons] at hl
      have hturn : ∀ y, body f t y = if φ y = t then F f y else f y :=
        fun y => h.apply f t y (hp t (by simp))
      rw [List.foldl_cons, ih hl.2 fun s hs => hp s (List.mem_cons_of_mem _ hs)]
      by_cases ht : φ x = t
      · have hnot : φ x ∉ l := by
          rw [ht]
          exact hl.1
        rw [if_neg hnot, hturn, if_pos ht, if_pos (by simp [ht])]
      · by_cases hmem : φ x ∈ l
        · -- the turn before this one left all positions of the fiber alone
          have hfiber : ∀ y, φ y = φ x → body f t y = f y := by
            intro y hy
            rw [hturn, if_neg (by rwa [hy])]
          rw [if_pos hmem, if_pos (List.mem_cons_of_mem _ hmem), h.congr _ _ x hfiber]
        · have hcons : φ x ∉ t :: l := by
            simp [ht, hmem]
          rw [if_neg hmem, if_neg hcons, hturn, if_neg ht]

/-- A loop over `i < n`. -/
theorem TurnBy.foldl_range {φ : α → Nat} {body : (α → V) → Nat → α → V} {n : Nat}
    (h : TurnBy (· < n) φ F body) (f : α → V) (x : α) :
    (List.range n).foldl body f x = if φ x < n then F f x else f x := by
  rw [h.foldl List.nodup_range fun t ht => List.mem_range.1 ht]
  simp only [List.mem_range]

end Fibers
