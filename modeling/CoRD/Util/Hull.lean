import Mathlib.Algebra.Order.Group.Int
import Mathlib.Logic.Relation
import Mathlib.Tactic.Linarith

/-!
# Hull — smallest and largest bounds of a list of intervals

`lowest` and `highest` fold the bounds of the intervals `[lo a, hi a]` of a list, from a start value.
Two lists are `Separated` when one hull lies below the other with a gap between them; a list stays
separated from another while it grows by intervals that meet it and stay away from the other
(`Separated.append_singleton`).  Where the intervals of a list are linked by touching ones, the hull
has no hole: what meets it touches one of them (`exists_touch_of_meets`).
-/

namespace Hull

variable {α : Type} {lo hi : α → Int} {l : List α} {a : α} {s c : Int}

def lowest (lo : α → Int) (s : Int) (l : List α) : Int :=
  l.foldl (fun s a => min s (lo a)) s

def highest (hi : α → Int) (s : Int) (l : List α) : Int :=
  l.foldl (fun s a => max s (hi a)) s

@[simp] theorem lowest_nil : lowest lo s [] = s := rfl

@[simp] theorem highest_nil : highest hi s [] = s := rfl

@[simp] theorem lowest_cons : lowest lo s (a :: l) = lowest lo (min s (lo a)) l := rfl

@[simp] theorem highest_cons : highest hi s (a :: l) = highest hi (max s (hi a)) l := rfl

@[simp] theorem lowest_append_singleton : lowest lo s (l ++ [a]) = min (lowest lo s l) (lo a) := by
  simp [lowest]

@[simp] theorem highest_append_singleton :
    highest hi s (l ++ [a]) = max (highest hi s l) (hi a) := by
  simp [highest]

/-- `lowest` is the greatest lower bound of the start value and the lower ends. -/
theorem le_lowest_iff : c ≤ lowest lo s l ↔ c ≤ s ∧ ∀ a ∈ l, c ≤ lo a := by
  induction l generalizing s with
  | nil =>
      simp
  | cons a l ih =>
      rw [lowest_cons, ih, le_min_iff, List.forall_mem_cons, and_assoc]

/-- `highest` is the least upper bound of the start value and the upper ends. -/
theorem highest_le_iff : highest hi s l ≤ c ↔ s ≤ c ∧ ∀ a ∈ l, hi a ≤ c := by
  induction l generalizing s with
  | nil =>
      simp
  | cons a l ih =>
      rw [highest_cons, ih, max_le_iff, List.forall_mem_cons, and_assoc]

theorem lowest_le (ha : a ∈ l) : lowest lo s l ≤ lo a :=
  (le_lowest_iff.1 le_rfl).2 a ha

theorem le_highest (ha : a ∈ l) : hi a ≤ highest hi s l :=
  (highest_le_iff.1 le_rfl).2 a ha

theorem lowest_perm {l' : List α} (h : l.Perm l') : lowest lo s l = lowest lo s l' := by
  refine le_antisymm (le_lowest_iff.2 ?_) (le_lowest_iff.2 ?_)
  · have hle := le_lowest_iff.1 (le_refl (lowest lo s l))
    exact ⟨hle.1, fun a ha => hle.2 a (h.mem_iff.2 ha)⟩
  · have hle := le_lowest_iff.1 (le_refl (lowest lo s l'))
    exact ⟨hle.1, fun a ha => hle.2 a (h.mem_iff.1 ha)⟩

theorem highest_perm {l' : List α} (h : l.Perm l') : highest hi s l = highest hi s l' := by
  refine le_antisymm (highest_le_iff.2 ?_) (highest_le_iff.2 ?_)
  · have hle := highest_le_iff.1 (le_refl (highest hi s l'))
    exact ⟨hle.1, fun a ha => hle.2 a (h.mem_iff.1 ha)⟩
  · have hle := highest_le_iff.1 (le_refl (highest hi s l))
    exact ⟨hle.1, fun a ha => hle.2 a (h.mem_iff.2 ha)⟩

/-! ## Separated lists -/

/-- One hull lies below the other, with a gap; `s` and `t` are the start values of the folds. -/
def Separated (lo hi : α → Int) (s t : Int) (P N : List α) : Prop :=
  highest hi t P < lowest lo s N ∨ highest hi t N < lowest lo s P

/-- The interval of `a` meets the hull of `N` or touches it. -/
def Meets (lo hi : α → Int) (s t : Int) (a : α) (N : List α) : Prop :=
  lowest lo s N ≤ hi a ∧ lo a ≤ highest hi t N

variable {t : Int} {P N : List α}

theorem lowest_le_highest (hlo : ∀ a ∈ P, lo a ≤ hi a) (hne : P ≠ []) :
    lowest lo s P ≤ highest hi t P := by
  obtain ⟨a, ha⟩ := List.exists_mem_of_ne_nil P hne
  calc lowest lo s P ≤ lo a := lowest_le ha
    _ ≤ hi a := hlo a ha
    _ ≤ highest hi t P := le_highest ha

theorem Separated.append_singleton (h : Separated lo hi s t P N)
    (hP : lowest lo s P ≤ highest hi t P) (hmeet : Meets lo hi s t a N)
    (haway : ¬ Meets lo hi s t a P) : Separated lo hi s t P (N ++ [a]) := by
  simp only [Separated, Meets, lowest_append_singleton, highest_append_singleton] at *
  rcases h with h | h
  · left
    have : ¬ lo a ≤ highest hi t P := fun hle => haway ⟨by linarith [hmeet.1], hle⟩
    exact lt_min h (not_le.1 this)
  · right
    have : ¬ lowest lo s P ≤ hi a := fun hle => haway ⟨hle, by linarith [hmeet.2]⟩
    exact max_lt h (not_le.1 this)

/-! ## Linked intervals -/

/-- The closed intervals of `a` and `b` have a point in common. -/
def Touch (lo hi : α → Int) (a b : α) : Prop :=
  lo a ≤ hi b ∧ lo b ≤ hi a

/-- A chain of touching intervals of the list leads from the one to the other. -/
def Linked (lo hi : α → Int) (l : List α) : α → α → Prop :=
  Relation.ReflTransGen fun a b => a ∈ l ∧ b ∈ l ∧ Touch lo hi a b

variable {b d : α} {l' : List α}

theorem Touch.symm (h : Touch lo hi a b) : Touch lo hi b a :=
  ⟨h.2, h.1⟩

theorem Linked.symm (h : Linked lo hi l a b) : Linked lo hi l b a := by
  induction h with
  | refl =>
      exact Relation.ReflTransGen.refl
  | tail _ hstep ih =>
      exact Relation.ReflTransGen.head ⟨hstep.2.1, hstep.1, hstep.2.2.symm⟩ ih

theorem Linked.trans {c : α} (h : Linked lo hi l a b) (h' : Linked lo hi l b c) :
    Linked lo hi l a c :=
  Relation.ReflTransGen.trans h h'

theorem Linked.mono (hsub : ∀ c ∈ l, c ∈ l') (h : Linked lo hi l a b) : Linked lo hi l' a b := by
  induction h with
  | refl =>
      exact Relation.ReflTransGen.refl
  | tail _ hstep ih =>
      exact Relation.ReflTransGen.tail ih ⟨hsub _ hstep.1, hsub _ hstep.2.1, hstep.2.2⟩

/-- What touching intervals hand on to each other reaches the end of a chain. -/
theorem Linked.keeps {P : α → Prop}
    (hstep : ∀ a ∈ l, ∀ b ∈ l, Touch lo hi a b → P a → P b) (h : Linked lo hi l a b) (ha : P a) :
    P b := by
  induction h with
  | refl =>
      exact ha
  | tail _ hab ih =>
      exact hstep _ hab.1 _ hab.2.1 hab.2.2 ih

/-- An interval that meets the hull of linked intervals touches one of them: otherwise they would
all lie on the same side of it. -/
theorem exists_touch_of_meets (ha : a ∈ N) (hlinked : ∀ b ∈ N, Linked lo hi N a b)
    (hs : ∀ b ∈ N, lo b ≤ s) (ht : ∀ b ∈ N, t ≤ hi b) (hd : lo d ≤ hi d)
    (hmeet : Meets lo hi s t d N) : ∃ b ∈ N, Touch lo hi b d := by
  by_contra hno
  have hsides : ∀ b ∈ N, hi b < lo d ∨ hi d < lo b := by
    intro b hb
    by_contra hboth
    rw [not_or, not_lt, not_lt] at hboth
    exact hno ⟨b, hb, hboth.2, hboth.1⟩
  -- linked intervals are all on the side that `a` is on
  rcases hsides a ha with hleft | hright
  · have hall : ∀ b ∈ N, hi b < lo d := by
      intro b hb
      apply (hlinked b hb).keeps (P := fun b => hi b < lo d) _ hleft
      intro x _ y hy htouch hx
      apply (hsides y hy).resolve_right
      have hyx := htouch.2
      linarith
    have hle : highest hi t N ≤ lo d - 1 := highest_le_iff.2
      ⟨by linarith [ht a ha, Int.le_sub_one_of_lt hleft], fun b hb => Int.le_sub_one_of_lt (hall b hb)⟩
    linarith [hmeet.2]
  · have hall : ∀ b ∈ N, hi d < lo b := by
      intro b hb
      apply (hlinked b hb).keeps (P := fun b => hi d < lo b) _ hright
      intro x _ y hy htouch hx
      apply (hsides y hy).resolve_left
      have hxy := htouch.1
      linarith
    have hle : hi d + 1 ≤ lowest lo s N := le_lowest_iff.2
      ⟨by linarith [hs a ha, Int.add_one_le_of_lt hright], fun b hb => Int.add_one_le_of_lt (hall b hb)⟩
    linarith [hmeet.1]

theorem Separated.not_touch (h : Separated lo hi s t P N) (ha : a ∈ P) (hb : b ∈ N) :
    ¬ Touch lo hi a b := by
  intro htouch
  have hPlow : lowest lo s P ≤ lo a := lowest_le ha
  have hPhigh : hi a ≤ highest hi t P := le_highest ha
  have hNlow : lowest lo s N ≤ lo b := lowest_le hb
  have hNhigh : hi b ≤ highest hi t N := le_highest hb
  rcases h with h | h
  · linarith [htouch.2]
  · linarith [htouch.1]

/-- Separated hulls, said of the intervals themselves. -/
theorem Separated.forall_lt (h : Separated lo hi s t P N) :
    (∀ a ∈ P, ∀ b ∈ N, hi a < lo b) ∨ ∀ a ∈ P, ∀ b ∈ N, hi b < lo a := by
  apply h.imp
  · intro hlt a ha b hb
    calc hi a ≤ highest hi t P := le_highest ha
      _ < lowest lo s N := hlt
      _ ≤ lo b := lowest_le hb
  · intro hlt a ha b hb
    calc hi b ≤ highest hi t N := le_highest hb
      _ < lowest lo s P := hlt
      _ ≤ lo a := lowest_le ha

end Hull
