import Mathlib.Order.Interval.Set.Basic
import Mathlib.Order.Monotone.Basic
import Mathlib.Tactic.Order

/-!
# Bisect — when bisection finds every entry

A bisection compares what it looks for with the entry in the middle of a range and goes on in one
of the halves.  It can be run on any table, but only on a table in ascending order does it find
every entry of a range: each comparison has to send all entries below the middle to the left, and
all entries above it to the right.
-/

namespace Bisect

variable {α : Type} [LinearOrder α]

/-- How a bisection ends: at a middle, with a range of at most one position, or to the left of
position zero. -/
inductive End where
  | hit (mid : Nat)
  | stop (sId : Nat)
  | below
  deriving DecidableEq

/-- Bisection of the range from `sId` to `eId`. -/
def search (arr : Nat → α) (target : α) (sId eId : Nat) : End :=
  if sId < eId then
    if arr ((sId + eId) / 2) < target then search arr target ((sId + eId) / 2 + 1) eId
    else if target < arr ((sId + eId) / 2) then
      if (sId + eId) / 2 = 0 then .below else search arr target sId ((sId + eId) / 2 - 1)
    else .hit ((sId + eId) / 2)
  else .stop sId
termination_by eId - sId
decreasing_by all_goals omega

/-- The position that a bisection ends at. -/
def End.At (i : Nat) : End → Prop
  | .hit mid => mid = i
  | .stop sId => sId = i
  | .below => False

theorem search_stop {arr : Nat → α} {target : α} {sId eId : Nat} (h : ¬ sId < eId) :
    search arr target sId eId = .stop sId := by
  rw [search, if_neg h]

theorem search_right {arr : Nat → α} {target : α} {sId eId : Nat} (h : sId < eId) :
    arr ((sId + eId) / 2) < target →
      search arr target sId eId = search arr target ((sId + eId) / 2 + 1) eId := by
  intro hlt
  rw [search, if_pos h, if_pos hlt]

theorem search_left {arr : Nat → α} {target : α} {sId eId : Nat} (h : sId < eId) :
    target < arr ((sId + eId) / 2) → (sId + eId) / 2 ≠ 0 →
      search arr target sId eId = search arr target sId ((sId + eId) / 2 - 1) := by
  intro hlt hpos
  rw [search, if_pos h, if_neg (lt_asymm hlt), if_pos hlt, if_neg hpos]

theorem search_hit {arr : Nat → α} {target : α} {sId eId : Nat} (h : sId < eId) :
    arr ((sId + eId) / 2) = target → search arr target sId eId = .hit ((sId + eId) / 2) := by
  intro heq
  rw [search, if_pos h, if_neg heq.not_lt, if_neg heq.not_gt]

/-- A bisection stays in its range, or ends where the range begins. -/
theorem search_bounds {arr : Nat → α} {target : α} {sId eId i : Nat} :
    (search arr target sId eId).At i → sId ≤ i ∧ i ≤ max sId eId := by
  intro hat
  fun_induction search arr target sId eId with
  | case1 sId eId hlt _ ih =>
      have hrest := ih hat
      omega
  | case2 => exact hat.elim
  | case3 sId eId hlt _ _ hpos ih =>
      have hrest := ih hat
      omega
  | case4 sId eId hlt =>
      obtain rfl : (sId + eId) / 2 = i := hat
      omega
  | case5 sId eId hlt =>
      obtain rfl : sId = i := hat
      omega

/-- A bisection that ends at a middle has found its target. -/
theorem eq_of_search_hit {arr : Nat → α} {target : α} {sId eId mid : Nat} :
    search arr target sId eId = .hit mid → arr mid = target := by
  intro hhit
  fun_induction search arr target sId eId with
  | case1 sId eId hlt _ ih => exact ih hhit
  | case2 => cases hhit
  | case3 sId eId hlt _ _ hpos ih => exact ih hhit
  | case4 sId eId hlt hnot hnot' =>
      cases hhit
      exact le_antisymm (not_lt.1 hnot') (not_lt.1 hnot)
  | case5 => cases hhit

/-- In an ascending range every entry is found. -/
theorem search_of_ascending {arr : Nat → α} {sId eId : Nat} :
    (∀ i j, sId ≤ i → i < j → j ≤ eId → arr i < arr j) →
      ∀ i, sId ≤ i → i ≤ eId → (search arr (arr i) sId eId).At i := by
  intro hasc i hs he
  induction hn : eId - sId using Nat.strong_induction_on generalizing sId eId with
  | _ n ih =>
      by_cases hlt : sId < eId
      · rcases Nat.lt_trichotomy ((sId + eId) / 2) i with hmid | hmid | hmid
        · rw [search_right hlt (hasc _ _ (by omega) hmid he)]
          exact ih _ (by omega) (fun a b ha => hasc a b (by omega)) (by omega) he rfl
        · rw [search_hit hlt (congrArg arr hmid)]
          exact hmid
        · rw [search_left hlt (hasc _ _ hs hmid (by omega)) (by omega)]
          exact ih _ (by omega) (fun a b ha hab hb => hasc a b ha hab (by omega)) hs (by omega) rfl
      · rw [search_stop hlt]
        show sId = i
        omega

/-- In a sorted range an entry with the target is found, perhaps another one than expected. -/
theorem exists_search_of_monotone {arr : Nat → α} {target : α} {sId eId i : Nat} :
    (∀ a b, sId ≤ a → a ≤ b → b ≤ eId → arr a ≤ arr b) → sId ≤ i → i ≤ eId → arr i = target →
      ∃ j, (search arr target sId eId).At j ∧ arr j = target := by
  intro hmono hs he hi
  fun_induction search arr target sId eId with
  | case1 sId eId hlt hlow ih =>
      have hright : (sId + eId) / 2 < i := by
        by_contra hnot
        exact absurd (hmono i _ hs (Nat.not_lt.1 hnot) (by omega)) (hi ▸ hlow).not_ge
      exact ih (fun a b ha => hmono a b (by omega)) hright he
  | case2 sId eId hlt hlow hhigh hzero =>
      -- at position zero nothing is to the left of the middle
      exact absurd (hmono _ i (by omega) (by omega) he) (hi ▸ hhigh).not_ge
  | case3 sId eId hlt hlow hhigh hpos ih =>
      have hleft : i < (sId + eId) / 2 := by
        by_contra hnot
        exact absurd (hmono _ i (by omega) (Nat.not_lt.1 hnot) he) (hi ▸ hhigh).not_ge
      exact ih (fun a b ha hab hb => hmono a b ha hab (by omega)) hs (by omega)
  | case4 sId eId hlt hlow hhigh =>
      exact ⟨_, rfl, le_antisymm (not_lt.1 hhigh) (not_lt.1 hlow)⟩
  | case5 sId eId hlt =>
      have heq : sId = i := Nat.le_antisymm hs (he.trans (Nat.not_lt.1 hlt))
      exact ⟨sId, rfl, heq ▸ hi⟩

/-- If every entry of a range is found, the range is in ascending order. -/
theorem ascending_of_search {arr : Nat → α} {sId eId : Nat} :
    (∀ i, sId ≤ i → i ≤ eId → (search arr (arr i) sId eId).At i) →
      ∀ i j, sId ≤ i → i < j → j ≤ eId → arr i < arr j := by
  intro hfound
  induction hn : eId - sId using Nat.strong_induction_on generalizing sId eId with
  | _ n ih =>
      intro i j hi hij hj
      have hlt : sId < eId := by omega
      let mid := (sId + eId) / 2
      -- the entries below the middle are smaller, and found in the left half
      have hbelow : ∀ a, sId ≤ a → a < mid →
          arr a < arr mid ∧ (search arr (arr a) sId (mid - 1)).At a := by
        intro a ha hamid
        have hat := hfound a ha (by omega)
        rcases lt_trichotomy (arr mid) (arr a) with hlow | heq | hhigh
        · rw [search_right hlt hlow] at hat
          have hbounds := search_bounds hat
          omega
        · rw [search_hit hlt heq] at hat
          exact absurd (show mid = a from hat) (by omega)
        · rw [search_left hlt hhigh (by omega)] at hat
          exact ⟨hhigh, hat⟩
      have habove : ∀ a, mid < a → a ≤ eId →
          arr mid < arr a ∧ (search arr (arr a) (mid + 1) eId).At a := by
        intro a hamid ha
        have hat := hfound a (by omega) ha
        rcases lt_trichotomy (arr mid) (arr a) with hlow | heq | hhigh
        · rw [search_right hlt hlow] at hat
          exact ⟨hlow, hat⟩
        · rw [search_hit hlt heq] at hat
          exact absurd (show mid = a from hat) (by omega)
        · by_cases hzero : mid = 0
          · rw [search, if_pos hlt, if_neg (lt_asymm hhigh), if_pos hhigh, if_pos hzero] at hat
            exact hat.elim
          · rw [search_left hlt hhigh hzero] at hat
            have hbounds := search_bounds hat
            omega
      rcases Nat.lt_trichotomy i mid with himid | rfl | himid
      · rcases Nat.lt_trichotomy j mid with hjmid | rfl | hjmid
        · exact ih _ (by omega) (fun a ha hab => (hbelow a ha (by omega)).2) rfl i j hi hij
            (by omega)
        · exact (hbelow i hi himid).1
        · exact (hbelow i hi himid).1.trans (habove j hjmid hj).1
      · exact (habove j hij hj).1
      · exact ih _ (by omega) (fun a ha hab => (habove a (by omega) hab).2) rfl i j (by omega) hij hj

/-! ## The way to one entry -/

/-- The middles that a bisection meets on the way to position `i`. -/
def probes (sId eId i : Nat) : List Nat :=
  if sId < eId then
    if (sId + eId) / 2 < i then (sId + eId) / 2 :: probes ((sId + eId) / 2 + 1) eId i
    else if i < (sId + eId) / 2 then (sId + eId) / 2 :: probes sId ((sId + eId) / 2 - 1) i
    else []
  else []
termination_by eId - sId
decreasing_by all_goals omega

/-- An entry is found just when it lies on the right side of every middle on the way to it. -/
theorem search_at_iff {arr : Nat → α} {sId eId i : Nat} : sId ≤ i → i ≤ eId →
    ((search arr (arr i) sId eId).At i ↔
      ∀ m ∈ probes sId eId i, (m < i → arr m < arr i) ∧ (i < m → arr i < arr m)) := by
  intro hs he
  fun_induction probes sId eId i with
  | case1 sId eId hlt hmid ih =>
      rcases lt_trichotomy (arr ((sId + eId) / 2)) (arr i) with hlow | heq | hhigh
      · rw [search_right hlt hlow, ih (by omega) he, List.forall_mem_cons]
        exact (and_iff_right ⟨fun _ => hlow, fun hgt => absurd hgt hmid.asymm⟩).symm
      · rw [search_hit hlt heq, List.forall_mem_cons]
        exact iff_of_false hmid.ne fun h => (h.1.1 hmid).ne heq
      · -- the search goes to the left half, and nothing there is at `i`
        refine iff_of_false (fun hat => ?_) fun h => (h _ List.mem_cons_self).1 hmid |>.asymm hhigh
        by_cases hzero : (sId + eId) / 2 = 0
        · rw [search, if_pos hlt, if_neg hhigh.asymm, if_pos hhigh, if_pos hzero] at hat
          exact hat
        · rw [search_left hlt hhigh hzero] at hat
          have hbounds := search_bounds hat
          omega
  | case2 sId eId hlt hmid hmid' ih =>
      have hzero : (sId + eId) / 2 ≠ 0 := Nat.ne_of_gt (Nat.zero_lt_of_lt hmid')
      rcases lt_trichotomy (arr ((sId + eId) / 2)) (arr i) with hlow | heq | hhigh
      · -- the search goes to the right half
        refine iff_of_false (fun hat => ?_) fun h => (h _ List.mem_cons_self).2 hmid' |>.asymm hlow
        rw [search_right hlt hlow] at hat
        have hbounds := search_bounds hat
        omega
      · rw [search_hit hlt heq, List.forall_mem_cons]
        exact iff_of_false hmid'.ne' fun h => (h.1.2 hmid').ne heq.symm
      · rw [search_left hlt hhigh hzero, ih hs (by omega), List.forall_mem_cons]
        exact (and_iff_right ⟨fun hgt => absurd hgt hmid, fun _ => hhigh⟩).symm
  | case3 sId eId hlt hmid hmid' =>
      have heq : (sId + eId) / 2 = i := Nat.le_antisymm (Nat.not_lt.1 hmid') (Nat.not_lt.1 hmid)
      rw [search_hit hlt (congrArg arr heq)]
      exact iff_of_true heq (fun m hm => absurd hm List.not_mem_nil)
  | case4 sId eId hlt =>
      have heq : sId = i := Nat.le_antisymm hs (he.trans (Nat.not_lt.1 hlt))
      rw [search_stop hlt]
      exact iff_of_true heq (fun m hm => absurd hm List.not_mem_nil)

end Bisect
