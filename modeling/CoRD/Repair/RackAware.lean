import CoRD.Repair.Metadata
import CoRD.Util.Groups
import Mathlib.Data.Prod.Lex

/-!
# RackAware — helpers from few racks

With rack awareness `HDFS_MetadataBase` does not take the helpers that were fixed when the stripes
were read.  It takes the blocks in the rack of the requestor, and then rack by rack, the largest
first, until there are enough.  With load balance it deals the helpers out over these racks.
-/

namespace CoRD

open Std

/-- What `HDFS_MetadataBase` reads of the configuration to choose helpers. -/
structure RackConfig extends RepairConfig where
  rackAware : Bool
  loadbalance : Bool

/-- The outcomes of `sort` on racks with their sizes, in descending order; racks of one size may
come in any order. -/
structure SortRacks where
  sorted : List (Str × Nat) → List (Str × Nat)
  perm : ∀ l, (sorted l).Perm l
  descending : ∀ l, (sorted l).Pairwise fun a b => b.2 ≤ a.2

/-- Racks of one size may stay in their order. -/
def bySize : SortRacks where
  sorted l := l.mergeSort fun a b => b.2 ≤ a.2
  perm l := l.mergeSort_perm _
  descending l := by
    have htrans : ∀ a b c : Str × Nat, decide (b.2 ≤ a.2) = true → decide (c.2 ≤ b.2) = true →
        decide (c.2 ≤ a.2) = true := by
      intro a b c hab hbc
      exact decide_eq_true ((of_decide_eq_true hbc).trans (of_decide_eq_true hab))
    have htotal : ∀ a b : Str × Nat, (decide (b.2 ≤ a.2) || decide (a.2 ≤ b.2)) = true := by
      intro a b
      simpa using le_total b.2 a.2
    have hsorted : (l.mergeSort fun a b => b.2 ≤ a.2).Pairwise
        fun a b => decide (b.2 ≤ a.2) = true := List.pairwise_mergeSort htrans htotal l
    exact hsorted.imp of_decide_eq_true

namespace Hdfs

/-! ## The program -/

section Program

variable (conf : RackConfig) (sorter : SortRacks) (base : MetadataBase)

/-- The rack of a block's node. -/
def rackOfBlk (blkName : Str) : Str :=
  conf.rackInfos.getD (base.blkName2Ip.getD blkName 0) []

/-- A block with its node, as it is pushed to the helpers. -/
def placed (blkName : Str) : Nat × Str :=
  (base.blkName2Ip.getD blkName 0, blkName)

def stripeAll2Rack (blkName : Str) : TreeMap Str (List Str) :=
  Tree.group (rackOfBlk conf base) (base.blk2All.getD blkName ∅).toList ∅

/-- The first `n` blocks of a rack. -/
def rackBlks (all : TreeMap Str (List Str)) (it : Str × Nat) : List (Nat × Str) :=
  ((all.getD it.1 []).take it.2).map (placed base)

/-- The loop that takes racks until no block is missing; it fails where the code reads behind the
last rack. -/
def chooseRacks : List (Str × Nat) → Int → Option (List (Str × Nat))
  | rackSize, candidateRemain =>
      if candidateRemain ≤ 0 then some []
      else
        match rackSize with
        | [] => none
        | it :: rackSize =>
            (chooseRacks rackSize (candidateRemain - it.2)).map fun chosen => it :: chosen

/-- The loop over the racks inside the `while` of the load balance, on `schedPlan` and `counter`. -/
def dealTurn (rackSizeData : TreeMap Str Nat) :
    List (Str × Nat) → TreeMap Str Nat × Nat → TreeMap Str Nat × Nat
  | [], st => st
  | it :: rest, (schedPlan, counter) =>
      if schedPlan.getD it.1 0 < rackSizeData.getD it.1 0 then
        let schedPlan := schedPlan.insert it.1 (schedPlan.getD it.1 0 + 1)
        if counter + 1 = conf.ecK then (schedPlan, counter + 1)
        else dealTurn rackSizeData rest (schedPlan, counter + 1)
      else if it.2 = rackSizeData.getD it.1 0 then
        dealTurn rackSizeData rest (schedPlan, counter)
      else if counter = conf.ecK then (schedPlan, counter)
      else dealTurn rackSizeData rest (schedPlan, counter)

/-- The `while` of the load balance.  A turn that adds nothing would be made for ever. -/
def deal (rackSizeData : TreeMap Str Nat) (candidateRacks : List (Str × Nat))
    (schedPlan : TreeMap Str Nat) (counter : Nat) : Option (TreeMap Str Nat) :=
  if counter < conf.ecK then
    let st := dealTurn conf rackSizeData candidateRacks (schedPlan, counter)
    if _h : counter < st.2 then deal rackSizeData candidateRacks st.1 st.2 else none
  else some schedPlan
termination_by conf.ecK - counter
decreasing_by exact Nat.sub_lt_sub_left ‹counter < conf.ecK› _h

/-- The loop that pushes candidates until there are `ecK`. -/
def pushHelpers : List (Nat × Str) → List (Nat × Str) → List (Nat × Str)
  | [], ret => ret
  | it :: rest, ret =>
      if (ret ++ [it]).length = conf.ecK then ret ++ [it] else pushHelpers rest (ret ++ [it])

/-- The part of `getStripeBlks` for rack awareness. -/
def rackHelpers (blkName : Str) (requestorIP : Nat) : Option (List (Nat × Str)) :=
  let reqrack := conf.rackInfos.getD requestorIP []
  let all := stripeAll2Rack conf base blkName
  let mine := if reqrack ∈ all then (all.getD reqrack []).map (placed base) else []
  let besidesFailureRack := if reqrack ∈ all then all.erase reqrack else ∅
  let rackSize := sorter.sorted (besidesFailureRack.toList.map fun it => (it.1, it.2.length))
  (chooseRacks rackSize ((conf.ecK : Int) - mine.length)).bind fun chosen =>
    let candidateBlks := mine ++ chosen.flatMap (rackBlks base all)
    let candidateRacks := chosen ++ [(reqrack, mine.length)]
    if conf.loadbalance then
      if conf.ecK < candidateBlks.length then
        (deal conf (Tree.writeAll candidateRacks ∅) candidateRacks
          (Tree.writeAll (candidateRacks.map fun it => (it.1, 0)) ∅) 0).map fun schedPlan =>
            candidateRacks.flatMap fun it => rackBlks base all (it.1, schedPlan.getD it.1 0)
      else if candidateBlks.length = conf.ecK then some candidateBlks
      else some []
    else some (pushHelpers conf candidateBlks [])

/-- The helpers before they are put in the order of the pipeline. -/
def helperBlks (blkName : Str) (requestorIP : Nat) : Option (List (Nat × Str)) :=
  if conf.rackAware then rackHelpers conf sorter base blkName requestorIP
  else some (base.blk2Stripe.getD blkName ∅).toList

/-- `HDFS_MetadataBase::getStripeBlks` for a single failure, that is without a status; it exits if it
does not know the block. -/
def getStripeBlks (rand : Shuffle) (blkName : Str) (requestorIP : Nat) :
    Option (List (Nat × Str)) :=
  if blkName ∈ base.blkName2StripeId ∧
      base.blkName2StripeId.getD blkName 0 < base.ip2BlkNames.length then
    (helperBlks conf sorter base blkName requestorIP).map
      (schedulePipeline conf.toRepairConfig rand requestorIP)
  else none

end Program

/-! ## The racks that are taken -/

section Racks

/-- The racks that are taken are the first ones, no more than are needed. -/
theorem chooseRacks_eq {l : List (Str × Nat)} {remain : Int} : remain ≤ ((l.map Prod.snd).sum : Nat) →
    ∃ m, m ≤ l.length ∧ chooseRacks l remain = some (l.take m) ∧
      remain ≤ (((l.take m).map Prod.snd).sum : Nat) ∧
      ∀ j < m, ((((l.take j).map Prod.snd).sum : Nat) : Int) < remain := by
  intro hle
  induction l generalizing remain with
  | nil =>
      have hzero : remain ≤ 0 := by
        simpa using hle
      exact ⟨0, le_rfl, by rw [chooseRacks, if_pos hzero]; rfl, by simpa using hle,
        fun j hj => absurd hj (Nat.not_lt_zero j)⟩
  | cons it l ih =>
      by_cases hzero : remain ≤ 0
      · exact ⟨0, Nat.zero_le _, by rw [chooseRacks, if_pos hzero]; rfl, by simpa using hzero,
          fun j hj => absurd hj (Nat.not_lt_zero j)⟩
      · have hrest : remain - it.2 ≤ ((l.map Prod.snd).sum : Nat) := by
          simp only [List.map_cons, List.sum_cons, Nat.cast_add] at hle
          omega
        rcases ih hrest with ⟨m, hm, hchosen, henough, hfewer⟩
        refine ⟨m + 1, Nat.succ_le_succ hm, ?_, ?_, fun j hj => ?_⟩
        · rw [chooseRacks, if_neg hzero]
          simp [hchosen]
        · simp only [List.take_succ_cons, List.map_cons, List.sum_cons, Nat.cast_add]
          omega
        · cases j with
          | zero =>
              simpa using hzero
          | succ j =>
              have hless := hfewer j (Nat.lt_of_succ_lt_succ hj)
              simp only [List.take_succ_cons, List.map_cons, List.sum_cons, Nat.cast_add]
              omega

/-- Without a rack to take the code reads behind the end. -/
theorem chooseRacks_nil {remain : Int} : 0 < remain → chooseRacks [] remain = none := by
  intro hpos
  rw [chooseRacks, if_neg hpos.not_ge]

variable {conf : RackConfig} {sorter : SortRacks} {base : MetadataBase} {blkName : Str}

/-- The blocks of the stripe that are left, by name. -/
def survivors (base : MetadataBase) (blkName : Str) : List Str :=
  (base.blk2All.getD blkName ∅).toList

/-- Those of them in a rack. -/
def inRack (conf : RackConfig) (base : MetadataBase) (blkName rack : Str) : List Str :=
  (survivors base blkName).filter fun b => rackOfBlk conf base b = rack

theorem inRack_eq_nil_iff {rack : Str} : inRack conf base blkName rack = [] ↔
    rack ∉ (survivors base blkName).map (rackOfBlk conf base) := by
  simp [inRack, List.filter_eq_nil_iff]

theorem getElem?_stripeAll2Rack (rack : Str) : (stripeAll2Rack conf base blkName)[rack]? =
    if inRack conf base blkName rack = [] then none else some (inRack conf base blkName rack) := by
  rw [stripeAll2Rack, Tree.getElem?_group]
  by_cases hrack : inRack conf base blkName rack = []
  · rw [if_pos hrack]
    exact if_neg (inRack_eq_nil_iff.1 hrack)
  · rw [if_neg hrack]
    exact if_pos (not_not.1 (mt inRack_eq_nil_iff.2 hrack))

theorem getD_stripeAll2Rack (rack : Str) :
    (stripeAll2Rack conf base blkName).getD rack [] = inRack conf base blkName rack := by
  rw [TreeMap.getD_eq_getD_getElem?, getElem?_stripeAll2Rack]
  by_cases hrack : inRack conf base blkName rack = []
  · simp [hrack]
  · simp [hrack]

theorem mem_stripeAll2Rack {rack : Str} : rack ∈ stripeAll2Rack conf base blkName ↔
    inRack conf base blkName rack ≠ [] := by
  rw [TreeMap.mem_iff_isSome_getElem?, getElem?_stripeAll2Rack]
  by_cases hrack : inRack conf base blkName rack = []
  · simp [hrack]
  · simp [hrack]

/-- The racks but that of the requestor, sorted by their sizes. -/
structure OtherRacks (conf : RackConfig) (base : MetadataBase) (blkName reqrack : Str)
    (rackSize : List (Str × Nat)) : Prop where
  nodup : (rackSize.map Prod.fst).Nodup
  mem : ∀ it, it ∈ rackSize ↔ it.1 ≠ reqrack ∧ inRack conf base blkName it.1 ≠ [] ∧
    it.2 = (inRack conf base blkName it.1).length
  descending : rackSize.Pairwise fun a b => b.2 ≤ a.2

/-- The racks as they are sorted, when the requestor's is one of the stripe. -/
def sortedRacks (conf : RackConfig) (sorter : SortRacks) (base : MetadataBase)
    (blkName reqrack : Str) : List (Str × Nat) :=
  sorter.sorted (((stripeAll2Rack conf base blkName).erase reqrack).toList.map
    fun it => (it.1, it.2.length))

theorem otherRacks_sortedRacks (reqrack : Str) :
    OtherRacks conf base blkName reqrack (sortedRacks conf sorter base blkName reqrack) where
  nodup := by
    have hperm := (sorter.perm (((stripeAll2Rack conf base blkName).erase reqrack).toList.map
      fun it => (it.1, it.2.length))).map Prod.fst
    rw [List.map_map] at hperm
    exact hperm.nodup_iff.2 (Tree.toList_map_nodup _)
  mem := by
    rintro ⟨rack, n⟩
    rw [sortedRacks, (sorter.perm _).mem_iff, List.mem_map]
    constructor
    · rintro ⟨⟨rack', blks⟩, hmem, heq⟩
      rcases Prod.ext_iff.1 heq with ⟨rfl, rfl⟩
      have hget := TreeMap.mem_toList_iff_getElem?_eq_some.1 hmem
      rw [TreeMap.getElem?_erase, getElem?_stripeAll2Rack] at hget
      by_cases hreq : rack' = reqrack
      · simp [hreq] at hget
      · have hne : compare reqrack rack' ≠ .eq :=
          fun hc => hreq (LawfulEqCmp.compare_eq_iff_eq.1 hc).symm
        by_cases hrack : inRack conf base blkName rack' = []
        · simp [hrack, hne] at hget
        · have hblks : inRack conf base blkName rack' = blks := by
            simpa [hrack, hne] using hget
          exact ⟨hreq, hrack, by rw [hblks]⟩
    · rintro ⟨hreq, hrack, hn⟩
      refine ⟨(rack, inRack conf base blkName rack), ?_, Prod.ext rfl hn.symm⟩
      have hne : compare reqrack rack ≠ .eq :=
        fun hc => hreq (LawfulEqCmp.compare_eq_iff_eq.1 hc).symm
      rw [TreeMap.mem_toList_iff_getElem?_eq_some, TreeMap.getElem?_erase, getElem?_stripeAll2Rack]
      simp [hrack, hne]
  descending := sorter.descending _

end Racks

/-! ## Dealing -/

section Deal

variable {conf : RackConfig} {rackSizeData : TreeMap Str Nat} {cands done rest : List (Str × Nat)}
  {turn counter : Nat} {plan : TreeMap Str Nat}

/-- How many blocks are dealt. -/
def dealt (cands : List (Str × Nat)) (plan : TreeMap Str Nat) : Nat :=
  (cands.map fun it => plan.getD it.1 0).sum

/-- In turn `turn` the racks in `done` have had their turn and those in `rest` have not; a rack has
dealt a block in each turn until it had none. -/
structure Dealing (cands done rest : List (Str × Nat)) (turn : Nat) (plan : TreeMap Str Nat) :
    Prop where
  split : cands = done ++ rest
  done : ∀ it ∈ done, plan.getD it.1 0 = min it.2 (turn + 1)
  rest : ∀ it ∈ rest, plan.getD it.1 0 = min it.2 turn

/-- After all racks it is the next turn. -/
theorem Dealing.next (h : Dealing cands done [] turn plan) :
    Dealing cands [] cands (turn + 1) plan where
  split := rfl
  done := fun _ hit => absurd hit List.not_mem_nil
  rest := by
    intro it hit
    refine h.done it ?_
    rwa [h.split, List.append_nil] at hit

/-- One block more. -/
theorem dealt_insert {it : Str × Nat} (plan : TreeMap Str Nat) (hnodup : (cands.map Prod.fst).Nodup)
    (hsplit : cands = done ++ it :: rest) :
    (∀ c ∈ done ++ rest, (plan.insert it.1 (plan.getD it.1 0 + 1)).getD c.1 0 = plan.getD c.1 0) ∧
      dealt cands (plan.insert it.1 (plan.getD it.1 0 + 1)) = dealt cands plan + 1 := by
  have hother : ∀ c ∈ done ++ rest,
      (plan.insert it.1 (plan.getD it.1 0 + 1)).getD c.1 0 = plan.getD c.1 0 := by
    intro c hc
    have hnames : (it.1 :: (done ++ rest).map Prod.fst).Nodup := by
      have hperm : cands.Perm (it :: (done ++ rest)) := hsplit ▸ List.perm_middle
      exact (hperm.map Prod.fst).nodup_iff.1 hnodup
    have hne : it.1 ≠ c.1 := by
      intro heq
      exact (List.nodup_cons.1 hnames).1 (heq ▸ List.mem_map_of_mem hc)
    rw [TreeMap.getD_insert, if_neg fun hc' => hne (LawfulEqCmp.compare_eq_iff_eq.1 hc')]
  have hdone : (done.map fun c => (plan.insert it.1 (plan.getD it.1 0 + 1)).getD c.1 0) =
      done.map fun c => plan.getD c.1 0 :=
    List.map_congr_left fun c hc => hother c (List.mem_append_left _ hc)
  have hrest : (rest.map fun c => (plan.insert it.1 (plan.getD it.1 0 + 1)).getD c.1 0) =
      rest.map fun c => plan.getD c.1 0 :=
    List.map_congr_left fun c hc => hother c (List.mem_append_right _ hc)
  have hself : (plan.insert it.1 (plan.getD it.1 0 + 1)).getD it.1 0 = plan.getD it.1 0 + 1 := by
    simp
  refine ⟨hother, ?_⟩
  simp only [dealt, hsplit, List.map_append, List.map_cons, List.sum_append, List.sum_cons, hdone,
    hrest, hself]
  omega

/-- The loop over the racks stops in the middle of the turn only when there are enough blocks. -/
theorem dealTurn_spec (hnodup : (cands.map Prod.fst).Nodup)
    (hsize : ∀ it ∈ cands, rackSizeData.getD it.1 0 = it.2) :
    Dealing cands done rest turn plan → counter = dealt cands plan → counter < conf.ecK →
      ∃ done' rest', Dealing cands done' rest' turn
          (dealTurn conf rackSizeData rest (plan, counter)).1 ∧
        (dealTurn conf rackSizeData rest (plan, counter)).2 =
          dealt cands (dealTurn conf rackSizeData rest (plan, counter)).1 ∧
        ((dealTurn conf rackSizeData rest (plan, counter)).2 = conf.ecK ∨
          (dealTurn conf rackSizeData rest (plan, counter)).2 < conf.ecK ∧ rest' = []) := by
  intro hdealing hcounter hless
  induction rest generalizing done plan counter with
  | nil =>
      exact ⟨done, [], hdealing, hcounter, Or.inr ⟨hless, rfl⟩⟩
  | cons it rest ih =>
      have hit : plan.getD it.1 0 = min it.2 turn := hdealing.rest it List.mem_cons_self
      have hmem : it ∈ cands := hdealing.split ▸ List.mem_append_right done List.mem_cons_self
      have hsplit : cands = (done ++ [it]) ++ rest := by
        simpa using hdealing.split
      by_cases hleft : plan.getD it.1 0 < rackSizeData.getD it.1 0
      · -- the rack deals one more
        rcases dealt_insert plan hnodup hdealing.split with ⟨hother, hsum⟩
        have hnext : Dealing cands (done ++ [it]) rest turn
            (plan.insert it.1 (plan.getD it.1 0 + 1)) :=
          { split := hsplit
            done := by
              intro c hc
              rcases List.mem_append.1 hc with hc | hc
              · exact (hother c (List.mem_append_left _ hc)).trans (hdealing.done c hc)
              · rw [List.mem_singleton.1 hc, TreeMap.getD_insert_self, hit]
                rw [hit, hsize it hmem] at hleft
                omega
            rest := by
              intro c hc
              exact (hother c (List.mem_append_right _ hc)).trans
                (hdealing.rest c (List.mem_cons_of_mem _ hc)) }
        have hcounter' : counter + 1 =
            dealt cands (plan.insert it.1 (plan.getD it.1 0 + 1)) := by
          rw [hsum, hcounter]
        by_cases hfull : counter + 1 = conf.ecK
        · simp only [dealTurn, if_pos hleft, if_pos hfull]
          exact ⟨done ++ [it], rest, hnext, hcounter', Or.inl hfull⟩
        · simp only [dealTurn, if_pos hleft, if_neg hfull]
          exact ih hnext hcounter' (Nat.lt_of_le_of_ne hless hfull)
      · -- the rack has no more
        have hnext : Dealing cands (done ++ [it]) rest turn plan :=
          { split := hsplit
            done := by
              intro c hc
              rcases List.mem_append.1 hc with hc | hc
              · exact hdealing.done c hc
              · rw [List.mem_singleton.1 hc, hit]
                rw [hit, hsize it hmem] at hleft
                omega
            rest := fun c hc => hdealing.rest c (List.mem_cons_of_mem _ hc) }
        simp only [dealTurn, if_neg hleft, if_pos (hsize it hmem).symm]
        exact ih hnext hcounter hless

/-- The `while` ends when there are enough blocks in all racks together. -/
theorem deal_spec (hnodup : (cands.map Prod.fst).Nodup)
    (hsize : ∀ it ∈ cands, rackSizeData.getD it.1 0 = it.2)
    (henough : conf.ecK ≤ (cands.map Prod.snd).sum) :
    Dealing cands [] cands turn plan → counter = dealt cands plan → counter ≤ conf.ecK →
      ∃ done rest turn' plan', deal conf rackSizeData cands plan counter = some plan' ∧
        Dealing cands done rest turn' plan' ∧ dealt cands plan' = conf.ecK := by
  intro hdealing hcounter hle
  induction hleft : conf.ecK - counter using Nat.strong_induction_on
    generalizing turn plan counter with
  | _ left ih =>
      by_cases hless : counter < conf.ecK
      · rcases dealTurn_spec hnodup hsize hdealing hcounter hless with
          ⟨done, rest, hnext, hcounter', hstop⟩
        rw [deal, if_pos hless]
        simp only
        generalize dealTurn conf rackSizeData cands (plan, counter) = st at hnext hcounter' hstop
        rcases hstop with hfull | ⟨hless', rfl⟩
        · refine ⟨done, rest, turn, st.1, ?_, hnext, hcounter'.symm.trans hfull⟩
          rw [dif_pos (hfull ▸ hless), deal, if_neg (Nat.not_lt.2 hfull.ge)]
        · -- a rack that has a block left has dealt it in this turn
          have hmore : ∃ it ∈ cands, turn < it.2 := by
            by_contra hnone
            push Not at hnone
            have hall : counter = (cands.map Prod.snd).sum := by
              rw [hcounter, dealt]
              refine congrArg List.sum (List.map_congr_left fun it hit => ?_)
              rw [hdealing.rest it hit]
              exact min_eq_left (hnone it hit)
            omega
          have hprogress : counter < st.2 := by
            rw [hcounter, hcounter', dealt, dealt]
            refine List.sum_lt_sum _ _ (fun it hit => ?_) ?_
            · rw [hdealing.rest it hit, hnext.next.rest it hit]
              exact min_le_min_left _ (Nat.le_succ turn)
            · rcases hmore with ⟨it, hit, hlt⟩
              refine ⟨it, hit, ?_⟩
              rw [hdealing.rest it hit, hnext.next.rest it hit]
              omega
          rw [dif_pos hprogress]
          exact ih (conf.ecK - st.2) (by omega) hnext.next hcounter' hless'.le rfl
      · have hfull : counter = conf.ecK := Nat.le_antisymm hle (Nat.not_lt.1 hless)
        rw [deal, if_neg hless]
        exact ⟨[], cands, turn, plan, rfl, hdealing, hcounter.symm.trans hfull⟩

end Deal

/-! ## The helpers -/

section Helpers

variable (conf : RackConfig) (base : MetadataBase) (blkName reqrack : Str)
  (rackSize : List (Str × Nat))

/-- The other racks that are taken: those for which the requestor's and the racks before them have
too few blocks. -/
def takenRacks : List (Str × Nat) :=
  rackSize.take ((List.range rackSize.length).countP fun j =>
    (inRack conf base blkName reqrack).length + ((rackSize.take j).map Prod.snd).sum < conf.ecK)

/-- The survivors, those in the rack of the requestor first, and then rack by rack. -/
def line : List Str :=
  (reqrack :: rackSize.map Prod.fst).flatMap (inRack conf base blkName)

/-- The racks that the load balance deals from, in its order. -/
def dealtRacks : List Str :=
  (takenRacks conf base blkName reqrack rackSize).map Prod.fst ++ [reqrack]

/-- When the load balance comes to a block: after how many blocks of its rack, and after how many
racks. -/
def dealtAt (b : Str) : ℕ ×ₗ ℕ :=
  toLex ((inRack conf base blkName (rackOfBlk conf base b)).idxOf b,
    (dealtRacks conf base blkName reqrack rackSize).idxOf (rackOfBlk conf base b))

/-- Whether a survivor `d` is preferred to a survivor `e` that is left out. -/
def Before (d e : Str) : Prop :=
  if conf.loadbalance then
    rackOfBlk conf base d ∈ dealtRacks conf base blkName reqrack rackSize ∧
      (rackOfBlk conf base e ∈ dealtRacks conf base blkName reqrack rackSize →
        dealtAt conf base blkName reqrack rackSize d < dealtAt conf base blkName reqrack rackSize e)
  else
    (line conf base blkName reqrack rackSize).idxOf d <
      (line conf base blkName reqrack rackSize).idxOf e

/-- `ecK` survivors in few racks, the first ones of the order they are taken in. -/
structure Selected (names : List Str) : Prop where
  nodup : names.Nodup
  length : names.length = conf.ecK
  survive : ∀ b ∈ names, b ∈ survivors base blkName
  racks : ∀ b ∈ names,
    rackOfBlk conf base b ∈ dealtRacks conf base blkName reqrack rackSize
  first : ∀ d ∈ names, ∀ e ∈ survivors base blkName, e ∉ names →
    Before conf base blkName reqrack rackSize d e

variable {conf base blkName reqrack rackSize}

theorem Before.asymm {d e : Str} (h : Before conf base blkName reqrack rackSize d e) :
    ¬ Before conf base blkName reqrack rackSize e d := by
  intro h'
  rw [Before] at h h'
  by_cases hbalance : conf.loadbalance = true
  · rw [if_pos hbalance] at h h'
    exact (h.2 h'.1).asymm (h'.2 h.1)
  · rw [if_neg hbalance] at h h'
    exact h.asymm h'

theorem countP_range_lt {n m : Nat} (h : m ≤ n) :
    (List.range n).countP (fun j => j < m) = m := by
  rcases Nat.exists_eq_add_of_le h with ⟨d, rfl⟩
  have hfirst : (List.range m).countP (fun j => j < m) = m := by
    simpa using List.countP_eq_length.2 fun j (hj : j ∈ List.range m) => by simpa using hj
  have hrest : ((List.range d).map (m + ·)).countP (fun j => j < m) = 0 := by
    simp [List.countP_eq_zero]
  rw [List.range_add, List.countP_append, hfirst, hrest, Nat.add_zero]

theorem pushHelpers_eq {l ret : List (Nat × Str)} : ret.length < conf.ecK →
    pushHelpers conf l ret = ret ++ l.take (conf.ecK - ret.length) := by
  intro hlt
  induction l generalizing ret with
  | nil =>
      simp [pushHelpers]
  | cons it l ih =>
      rcases Nat.exists_eq_succ_of_ne_zero (Nat.sub_ne_zero_of_lt hlt) with ⟨r, hr⟩
      have hlen : (ret ++ [it]).length = ret.length + 1 := by
        simp
      rw [pushHelpers, hr, List.take_succ_cons]
      by_cases hfull : (ret ++ [it]).length = conf.ecK
      · have hzero : r = 0 := by
          omega
        rw [if_pos hfull, hzero, List.take_zero]
      · have hroom : conf.ecK - (ret ++ [it]).length = r := by
          omega
        rw [if_neg hfull, ih (by omega), hroom, List.append_assoc]
        rfl

/-- The survivors in some racks. -/
theorem mem_flatMap_inRack {racks : List Str} {b : Str} :
    b ∈ racks.flatMap (inRack conf base blkName) ↔
      b ∈ survivors base blkName ∧ rackOfBlk conf base b ∈ racks := by
  simp [inRack, List.mem_flatMap, and_comm]

theorem flatMap_inRack_nodup {racks : List Str} (hnodup : racks.Nodup) :
    (racks.flatMap (inRack conf base blkName)).Nodup := by
  refine List.nodup_flatMap.2 ⟨fun rack _ => (Tree.set_toList_nodup _).filter _, ?_⟩
  refine hnodup.imp fun {rack rack'} hne b hb hb' => ?_
  have heq : rackOfBlk conf base b = rack := by
    simpa using (List.mem_filter.1 hb).2
  have heq' : rackOfBlk conf base b = rack' := by
    simpa using (List.mem_filter.1 hb').2
  exact hne (heq.symm.trans heq')

/-- The survivors that a plan takes of some racks. -/
theorem mem_flatMap_take {racks : List Str} {plan : TreeMap Str Nat} {b : Str} :
    b ∈ (racks.flatMap fun rack => (inRack conf base blkName rack).take (plan.getD rack 0)) ↔
      b ∈ survivors base blkName ∧ rackOfBlk conf base b ∈ racks ∧
        (inRack conf base blkName (rackOfBlk conf base b)).idxOf b <
          plan.getD (rackOfBlk conf base b) 0 := by
  rw [List.mem_flatMap]
  constructor
  · rintro ⟨rack, hrack, htake⟩
    have hin := List.mem_of_mem_take htake
    have heq : rackOfBlk conf base b = rack := by
      simpa using (List.mem_filter.1 hin).2
    subst heq
    exact ⟨(List.mem_filter.1 hin).1, hrack, (List.mem_take_iff_idxOf_lt hin).1 htake⟩
  · rintro ⟨hb, hrack, hlt⟩
    have hin : b ∈ inRack conf base blkName (rackOfBlk conf base b) :=
      List.mem_filter.2 ⟨hb, decide_eq_true rfl⟩
    exact ⟨_, hrack, (List.mem_take_iff_idxOf_lt hin).2 hlt⟩

theorem dealtRacks_of_dealing {done rest : List (Str × Nat)} {turn : Nat} {plan : TreeMap Str Nat}
    (hdealing : Dealing (takenRacks conf base blkName reqrack rackSize ++
      [(reqrack, (inRack conf base blkName reqrack).length)]) done rest turn plan) :
    dealtRacks conf base blkName reqrack rackSize = (done ++ rest).map Prod.fst := by
  rw [← hdealing.split, dealtRacks, List.map_append]
  rfl

section Other

variable (hother : OtherRacks conf base blkName reqrack rackSize)

include hother

theorem line_perm : (line conf base blkName reqrack rackSize).Perm (survivors base blkName) := by
  have hnodup : (reqrack :: rackSize.map Prod.fst).Nodup := by
    refine List.nodup_cons.2 ⟨fun hmem => ?_, hother.nodup⟩
    rcases List.mem_map.1 hmem with ⟨it, hit, heq⟩
    exact ((hother.mem it).1 hit).1 heq
  refine Tree.flatMap_filter_perm hnodup fun b hb => ?_
  by_cases hreq : rackOfBlk conf base b = reqrack
  · exact List.mem_cons.2 (Or.inl hreq)
  · have hrack : inRack conf base blkName (rackOfBlk conf base b) ≠ [] :=
      fun hnil => inRack_eq_nil_iff.1 hnil (List.mem_map_of_mem hb)
    have hit : (rackOfBlk conf base b, (inRack conf base blkName (rackOfBlk conf base b)).length) ∈
        rackSize := (hother.mem _).2 ⟨hreq, hrack, rfl⟩
    exact List.mem_cons_of_mem _ (List.mem_map_of_mem hit)

/-- The blocks of some racks, counted. -/
theorem length_flatMap_inRack {l : List (Str × Nat)} (hl : ∀ it ∈ l, it ∈ rackSize) :
    ((l.map Prod.fst).flatMap (inRack conf base blkName)).length = (l.map Prod.snd).sum := by
  rw [List.length_flatMap, List.map_map]
  refine congrArg List.sum (List.map_congr_left fun it hit => ?_)
  exact ((hother.mem it).1 (hl it hit)).2.2.symm

/-- The code takes these racks, and with them there are enough blocks. -/
theorem chooseRacks_takenRacks (henough : conf.ecK ≤ (survivors base blkName).length) :
    ∃ m, m ≤ rackSize.length ∧ takenRacks conf base blkName reqrack rackSize = rackSize.take m ∧
      chooseRacks rackSize ((conf.ecK : Int) - (inRack conf base blkName reqrack).length) =
        some (rackSize.take m) ∧
      conf.ecK ≤ (inRack conf base blkName reqrack).length +
        ((rackSize.take m).map Prod.snd).sum ∧
      ∀ j < m, (inRack conf base blkName reqrack).length +
        ((rackSize.take j).map Prod.snd).sum < conf.ecK := by
  have htotal : (survivors base blkName).length =
      (inRack conf base blkName reqrack).length + (rackSize.map Prod.snd).sum := by
    rw [← (line_perm hother).length_eq, line, List.flatMap_cons, List.length_append,
      length_flatMap_inRack hother fun _ h => h]
  rcases chooseRacks_eq (l := rackSize)
    (show ((conf.ecK : Int) - (inRack conf base blkName reqrack).length) ≤
      ((rackSize.map Prod.snd).sum : Nat) by omega) with ⟨m, hm, hchosen, hreach, hfewer⟩
  have hfewer' : ∀ j < m, (inRack conf base blkName reqrack).length +
      ((rackSize.take j).map Prod.snd).sum < conf.ecK := by
    intro j hj
    have hless := hfewer j hj
    omega
  have hreach' : conf.ecK ≤ (inRack conf base blkName reqrack).length +
      ((rackSize.take m).map Prod.snd).sum := by
    omega
  refine ⟨m, hm, ?_, hchosen, hreach', hfewer'⟩
  -- the racks before which there are too few blocks are the first `m`
  have hcount : (List.range rackSize.length).countP (fun j =>
      (inRack conf base blkName reqrack).length + ((rackSize.take j).map Prod.snd).sum <
        conf.ecK) = m := by
    have hiff : ∀ j, ((inRack conf base blkName reqrack).length +
        ((rackSize.take j).map Prod.snd).sum < conf.ecK) ↔ j < m := by
      intro j
      refine ⟨fun hless => ?_, hfewer' j⟩
      by_contra hge
      have hsub : ((rackSize.take m).map Prod.snd).Sublist ((rackSize.take j).map Prod.snd) :=
        (List.take_sublist_take_left (Nat.not_lt.1 hge)).map Prod.snd
      have hsum := hsub.sum_le_sum fun _ _ => Nat.zero_le _
      omega
    simp only [hiff]
    exact countP_range_lt hm
  rw [takenRacks, hcount]

theorem mem_takenRacks {it : Str × Nat} : it ∈ takenRacks conf base blkName reqrack rackSize →
    it.1 ≠ reqrack ∧ it.2 = (inRack conf base blkName it.1).length := by
  intro hit
  have hmem := (hother.mem it).1 (List.mem_of_mem_take hit)
  exact ⟨hmem.1, hmem.2.2⟩

theorem dealtRacks_nodup : (dealtRacks conf base blkName reqrack rackSize).Nodup := by
  refine List.nodup_append.2 ⟨?_, List.nodup_singleton _, ?_⟩
  · exact hother.nodup.sublist ((List.take_sublist _ _).map Prod.fst)
  · rintro rack hrack rack' hrack' rfl
    rcases List.mem_map.1 hrack with ⟨it, hit, heq⟩
    exact (mem_takenRacks hother hit).1 (heq.trans (List.mem_singleton.1 hrack'))

/-- The line begins with the blocks of the racks that are taken, and they are enough. -/
theorem line_eq_append (henough : conf.ecK ≤ (survivors base blkName).length) :
    (∃ rest, line conf base blkName reqrack rackSize =
      (reqrack :: (takenRacks conf base blkName reqrack rackSize).map Prod.fst).flatMap
        (inRack conf base blkName) ++ rest) ∧
    conf.ecK ≤ ((reqrack :: (takenRacks conf base blkName reqrack rackSize).map Prod.fst).flatMap
      (inRack conf base blkName)).length := by
  rcases chooseRacks_takenRacks hother henough with ⟨m, hm, htaken, _, hreach, _⟩
  rw [htaken]
  constructor
  · refine ⟨((rackSize.drop m).map Prod.fst).flatMap (inRack conf base blkName), ?_⟩
    rw [← List.flatMap_append, List.cons_append, ← List.map_append, List.take_append_drop]
    rfl
  · rw [List.flatMap_cons, List.length_append,
      length_flatMap_inRack hother fun _ h => List.mem_of_mem_take h]
    exact hreach

/-- Without load balance the first blocks in line are taken. -/
theorem selected_line (hbalance : conf.loadbalance = false)
    (henough : conf.ecK ≤ (survivors base blkName).length) :
    Selected conf base blkName reqrack rackSize
      ((line conf base blkName reqrack rackSize).take conf.ecK) := by
  have hperm := line_perm hother
  have hnodup : (line conf base blkName reqrack rackSize).Nodup :=
    hperm.nodup_iff.2 (Tree.set_toList_nodup _)
  rcases line_eq_append hother henough with ⟨⟨rest, hsplit⟩, hlen⟩
  exact
    { nodup := hnodup.sublist (List.take_sublist _ _)
      length := by
        rw [List.length_take, hperm.length_eq, min_eq_left henough]
      survive := fun b hb => hperm.mem_iff.1 (List.mem_of_mem_take hb)
      racks := by
        intro b hb
        rw [hsplit, List.take_append_of_le_length hlen] at hb
        rcases List.mem_flatMap.1 (List.mem_of_mem_take hb) with ⟨rack, hrack, hmem⟩
        have heq : rackOfBlk conf base b = rack := by
          simpa using (List.mem_filter.1 hmem).2
        rw [heq, dealtRacks]
        rcases List.mem_cons.1 hrack with rfl | hrack
        · exact List.mem_append_right _ (List.mem_singleton_self _)
        · exact List.mem_append_left _ hrack
      first := by
        intro d hd e he hnot
        have hd' := (List.mem_take_iff_idxOf_lt (List.mem_of_mem_take hd)).1 hd
        have he' := mt (List.mem_take_iff_idxOf_lt (hperm.mem_iff.2 he)).2 hnot
        rw [Before, hbalance]
        exact hd'.trans_le (Nat.not_lt.1 he') }

/-- With load balance all blocks of the racks are taken if there are just as many as needed. -/
theorem selected_all (hbalance : conf.loadbalance = true)
    (hlen : ((reqrack :: (takenRacks conf base blkName reqrack rackSize).map Prod.fst).flatMap
      (inRack conf base blkName)).length = conf.ecK) :
    Selected conf base blkName reqrack rackSize
      ((reqrack :: (takenRacks conf base blkName reqrack rackSize).map Prod.fst).flatMap
        (inRack conf base blkName)) := by
  have hracks : ∀ rack, rack ∈ reqrack :: (takenRacks conf base blkName reqrack rackSize).map
      Prod.fst ↔ rack ∈ dealtRacks conf base blkName reqrack rackSize := by
    intro rack
    rw [dealtRacks, List.mem_append, List.mem_singleton, List.mem_cons, or_comm]
  have hnodup : (reqrack :: (takenRacks conf base blkName reqrack rackSize).map
      Prod.fst).Nodup := by
    have hperm : (dealtRacks conf base blkName reqrack rackSize).Perm
        (reqrack :: (takenRacks conf base blkName reqrack rackSize).map Prod.fst) :=
      List.perm_append_singleton _ _
    exact hperm.nodup_iff.1 (dealtRacks_nodup hother)
  exact
    { nodup := flatMap_inRack_nodup hnodup
      length := hlen
      survive := fun b hb => (mem_flatMap_inRack.1 hb).1
      racks := fun b hb => (hracks _).1 (mem_flatMap_inRack.1 hb).2
      first := by
        intro d hd e he hnot
        rw [Before, if_pos hbalance]
        refine ⟨(hracks _).1 (mem_flatMap_inRack.1 hd).2, fun hrack => ?_⟩
        exact absurd (mem_flatMap_inRack.2 ⟨he, (hracks _).2 hrack⟩) hnot }

section Dealt

variable {done rest : List (Str × Nat)} {turn : Nat} {plan : TreeMap Str Nat}
  (hdealing : Dealing (takenRacks conf base blkName reqrack rackSize ++
    [(reqrack, (inRack conf base blkName reqrack).length)]) done rest turn plan)

include hdealing

/-- The racks are dealt with their sizes. -/
theorem size_of_dealing : ∀ it ∈ done ++ rest, it.2 = (inRack conf base blkName it.1).length := by
  intro it hit
  rw [← hdealing.split] at hit
  rcases List.mem_append.1 hit with hit | hit
  · exact (mem_takenRacks hother hit).2
  · rw [List.mem_singleton.1 hit]

/-- What is dealt by the racks that had their turn, and by the others. -/
theorem plan_of_done : ∀ rack ∈ done.map Prod.fst, plan.getD rack 0 =
    min (inRack conf base blkName rack).length (turn + 1) := by
  intro rack hin
  rcases List.mem_map.1 hin with ⟨it, hit, rfl⟩
  rw [hdealing.done it hit, size_of_dealing hother hdealing it (List.mem_append_left _ hit)]

theorem plan_of_not_done : ∀ rack ∈ dealtRacks conf base blkName reqrack rackSize,
    rack ∉ done.map Prod.fst →
      plan.getD rack 0 = min (inRack conf base blkName rack).length turn := by
  intro rack hrack hin
  rw [dealtRacks_of_dealing hdealing, List.map_append] at hrack
  rcases List.mem_map.1 ((List.mem_append.1 hrack).resolve_left hin) with ⟨it, hit, rfl⟩
  rw [hdealing.rest it hit, size_of_dealing hother hdealing it (List.mem_append_right _ hit)]

/-- What is dealt comes before what is not. -/
theorem dealtAt_lt {d e : Str} (hdrack : rackOfBlk conf base d ∈
      dealtRacks conf base blkName reqrack rackSize)
    (hdlt : (inRack conf base blkName (rackOfBlk conf base d)).idxOf d <
      plan.getD (rackOfBlk conf base d) 0)
    (he : e ∈ survivors base blkName)
    (herack : rackOfBlk conf base e ∈ dealtRacks conf base blkName reqrack rackSize) :
    plan.getD (rackOfBlk conf base e) 0 ≤
        (inRack conf base blkName (rackOfBlk conf base e)).idxOf e →
      dealtAt conf base blkName reqrack rackSize d < dealtAt conf base blkName reqrack rackSize e := by
  intro hele
  have hracks := dealtRacks_of_dealing hdealing
  have hdone := plan_of_done hother hdealing
  have hrest := plan_of_not_done hother hdealing
  have hein : (inRack conf base blkName (rackOfBlk conf base e)).idxOf e <
      (inRack conf base blkName (rackOfBlk conf base e)).length :=
    List.idxOf_lt_length_iff.2 (List.mem_filter.2 ⟨he, decide_eq_true rfl⟩)
  rw [dealtAt, dealtAt, Prod.Lex.toLex_lt_toLex]
  by_cases hein' : rackOfBlk conf base e ∈ done.map Prod.fst
  · -- `e` would have come after this turn
    rw [hdone _ hein'] at hele
    have hdturn : plan.getD (rackOfBlk conf base d) 0 ≤ turn + 1 := by
      by_cases hdin : rackOfBlk conf base d ∈ done.map Prod.fst
      · exact (hdone _ hdin).trans_le (min_le_right _ _)
      · exact ((hrest _ hdrack hdin).trans_le (min_le_right _ _)).trans (Nat.le_succ turn)
    left
    show List.idxOf _ _ < List.idxOf _ _
    omega
  · rw [hrest _ herack hein'] at hele
    by_cases hdin : rackOfBlk conf base d ∈ done.map Prod.fst
    · -- both may come in this turn, and then the rack of `d` comes first
      rw [hdone _ hdin] at hdlt
      have hdpos : (dealtRacks conf base blkName reqrack rackSize).idxOf (rackOfBlk conf base d) <
          done.length := by
        rw [hracks, List.map_append, List.idxOf_append_of_mem hdin]
        simpa using List.idxOf_lt_length_iff.2 hdin
      have hepos : done.length ≤
          (dealtRacks conf base blkName reqrack rackSize).idxOf (rackOfBlk conf base e) := by
        rw [hracks, List.map_append, List.idxOf_append_of_notMem hein', List.length_map]
        exact Nat.le_add_right _ _
      by_cases heq : (inRack conf base blkName (rackOfBlk conf base d)).idxOf d =
          (inRack conf base blkName (rackOfBlk conf base e)).idxOf e
      · exact Or.inr ⟨heq, hdpos.trans_le hepos⟩
      · left
        show List.idxOf _ _ < List.idxOf _ _
        omega
    · rw [hrest _ hdrack hdin] at hdlt
      left
      show List.idxOf _ _ < List.idxOf _ _
      omega

/-- With load balance the blocks that are dealt are taken. -/
theorem selected_dealt (hbalance : conf.loadbalance = true)
    (hdealt : dealt (takenRacks conf base blkName reqrack rackSize ++
      [(reqrack, (inRack conf base blkName reqrack).length)]) plan = conf.ecK) :
    Selected conf base blkName reqrack rackSize
      ((dealtRacks conf base blkName reqrack rackSize).flatMap fun rack =>
        (inRack conf base blkName rack).take (plan.getD rack 0)) := by
  have hshare : ∀ it ∈ done ++ rest, plan.getD it.1 0 ≤ (inRack conf base blkName it.1).length := by
    intro it hit
    rw [← size_of_dealing hother hdealing it hit]
    rcases List.mem_append.1 hit with hdone | hrest
    · exact (hdealing.done it hdone).trans_le (min_le_left _ _)
    · exact (hdealing.rest it hrest).trans_le (min_le_left _ _)
  have hsub : ((dealtRacks conf base blkName reqrack rackSize).flatMap fun rack =>
        (inRack conf base blkName rack).take (plan.getD rack 0)).Sublist
      ((dealtRacks conf base blkName reqrack rackSize).flatMap (inRack conf base blkName)) :=
    List.Sublist.flatMap_right _ fun rack _ => List.take_sublist _ _
  exact
    { nodup := (flatMap_inRack_nodup (dealtRacks_nodup hother)).sublist hsub
      length := by
        rw [← hdealt, dealt, hdealing.split, List.length_flatMap, dealtRacks_of_dealing hdealing,
          List.map_map]
        refine congrArg List.sum (List.map_congr_left fun it hit => ?_)
        exact (List.length_take).trans (min_eq_left (hshare it hit))
      survive := fun b hb => (mem_flatMap_take.1 hb).1
      racks := fun b hb => (mem_flatMap_take.1 hb).2.1
      first := by
        intro d hd e he hnot
        rcases mem_flatMap_take.1 hd with ⟨_, hdrack, hdlt⟩
        rw [Before, if_pos hbalance]
        refine ⟨hdrack, fun herack => dealtAt_lt hother hdealing hdrack hdlt he herack ?_⟩
        by_contra hlt
        exact hnot (mem_flatMap_take.2 ⟨he, herack, Nat.not_le.1 hlt⟩) }

end Dealt

end Other

variable {sorter : SortRacks} {requestorIP : Nat}

theorem rackBlks_eq (rack : Str) (n : Nat) :
    rackBlks base (stripeAll2Rack conf base blkName) (rack, n) =
      ((inRack conf base blkName rack).take n).map (placed base) := by
  rw [rackBlks, getD_stripeAll2Rack]

/-- Without a survivor in the rack of the requestor there is no other rack to take either. -/
theorem rackHelpers_eq_none (hk : 1 ≤ conf.ecK)
    (hnone : inRack conf base blkName (conf.rackInfos.getD requestorIP []) = []) :
    rackHelpers conf sorter base blkName requestorIP = none := by
  have hnot : conf.rackInfos.getD requestorIP [] ∉ stripeAll2Rack conf base blkName :=
    fun hmem => mem_stripeAll2Rack.1 hmem hnone
  have hempty : sorter.sorted ((∅ : TreeMap Str (List Str)).toList.map
      fun it => (it.1, it.2.length)) = [] :=
    (sorter.perm ((∅ : TreeMap Str (List Str)).toList.map fun it => (it.1, it.2.length))).eq_nil
  have hpos : (0 : Int) < (conf.ecK : Int) - ([] : List (Nat × Str)).length := by
    simpa using Nat.lt_of_succ_le hk
  simp only [rackHelpers, if_neg hnot, hempty, chooseRacks_nil hpos, Option.bind_none]

/-- What the load balance starts from. -/
theorem dealing_start {cands : List (Str × Nat)} (hnodup : (cands.map Prod.fst).Nodup) :
    (∀ it ∈ cands, (Tree.writeAll cands (∅ : TreeMap Str Nat)).getD it.1 0 = it.2) ∧
      Dealing cands [] cands 0 (Tree.writeAll (cands.map fun it => (it.1, 0)) ∅) ∧
      dealt cands (Tree.writeAll (cands.map fun it => (it.1, 0)) ∅) = 0 := by
  have hzeros : ((cands.map fun it => (it.1, 0)).map Prod.fst).Nodup := by
    simpa [List.map_map, Function.comp_def] using hnodup
  have hsize : ∀ it ∈ cands, (Tree.writeAll cands (∅ : TreeMap Str Nat)).getD it.1 0 = it.2 := by
    intro it hit
    rw [TreeMap.getD_eq_getD_getElem?, (Tree.getElem?_writeAll hnodup).2 (Or.inl hit)]
    rfl
  have hzero : ∀ it ∈ cands, (Tree.writeAll (cands.map fun it => (it.1, 0))
      (∅ : TreeMap Str Nat)).getD it.1 0 = 0 := by
    intro it hit
    have hmem : (it.1, 0) ∈ cands.map fun it => (it.1, 0) := List.mem_map.2 ⟨it, hit, rfl⟩
    rw [TreeMap.getD_eq_getD_getElem?, (Tree.getElem?_writeAll hzeros).2 (Or.inl hmem)]
    rfl
  refine ⟨hsize, ⟨rfl, fun _ hit => absurd hit List.not_mem_nil, fun it hit => ?_⟩, ?_⟩
  · rw [hzero it hit, Nat.min_zero]
  · rw [dealt, List.map_congr_left hzero]
    simp

/-- With one, the first survivors in the order of their racks are taken. -/
theorem rackHelpers_spec (sorter : SortRacks) (hk : 1 ≤ conf.ecK)
    (henough : conf.ecK ≤ (survivors base blkName).length)
    (hmine : inRack conf base blkName (conf.rackInfos.getD requestorIP []) ≠ []) :
    ∃ names, rackHelpers conf sorter base blkName requestorIP = some (names.map (placed base)) ∧
      Selected conf base blkName (conf.rackInfos.getD requestorIP [])
        (sortedRacks conf sorter base blkName (conf.rackInfos.getD requestorIP [])) names := by
  have hmem := mem_stripeAll2Rack.2 hmine
  generalize hreqrack : conf.rackInfos.getD requestorIP [] = reqrack at hmine hmem ⊢
  have hother : OtherRacks conf base blkName reqrack
      (sortedRacks conf sorter base blkName reqrack) := otherRacks_sortedRacks reqrack
  simp only [rackHelpers, hreqrack, if_pos hmem]
  rw [← sortedRacks]
  generalize sortedRacks conf sorter base blkName reqrack = rackSize at hother ⊢
  rcases chooseRacks_takenRacks hother henough with ⟨m, _, htaken, hchosen, _, _⟩
  rcases line_eq_append hother henough with ⟨⟨rest, hline⟩, hreach⟩
  rw [← htaken] at hchosen
  -- all candidates, in the order they are pushed
  have hcands : ((stripeAll2Rack conf base blkName).getD reqrack []).map (placed base) ++
      (takenRacks conf base blkName reqrack rackSize).flatMap
        (rackBlks base (stripeAll2Rack conf base blkName)) =
      ((reqrack :: (takenRacks conf base blkName reqrack rackSize).map Prod.fst).flatMap
        (inRack conf base blkName)).map (placed base) := by
    rw [getD_stripeAll2Rack, List.flatMap_cons, List.map_append, List.flatMap_map, List.map_flatMap]
    refine congrArg (_ ++ ·) (List.flatMap_congr fun it hit => ?_)
    rw [rackBlks_eq, (mem_takenRacks hother hit).2, List.take_length]
  have hlen : (((stripeAll2Rack conf base blkName).getD reqrack []).map (placed base)).length =
      (inRack conf base blkName reqrack).length := by
    rw [List.length_map, getD_stripeAll2Rack]
  rw [hlen, hchosen, Option.bind_some, hcands, List.length_map]
  by_cases hbalance : conf.loadbalance = true
  · rw [if_pos hbalance]
    by_cases hmore : conf.ecK < ((reqrack :: (takenRacks conf base blkName reqrack rackSize).map
        Prod.fst).flatMap (inRack conf base blkName)).length
    · rw [if_pos hmore]
      have hnodup : ((takenRacks conf base blkName reqrack rackSize ++
          [(reqrack, (inRack conf base blkName reqrack).length)]).map Prod.fst).Nodup := by
        simpa [dealtRacks] using dealtRacks_nodup hother
      have hsum : conf.ecK ≤ ((takenRacks conf base blkName reqrack rackSize ++
          [(reqrack, (inRack conf base blkName reqrack).length)]).map Prod.snd).sum := by
        have hcount := length_flatMap_inRack hother
          (l := takenRacks conf base blkName reqrack rackSize) fun _ h => List.mem_of_mem_take h
        rw [List.flatMap_cons, List.length_append, hcount] at hreach
        simpa [Nat.add_comm] using hreach
      rcases dealing_start hnodup with ⟨hsize, hstart, hnothing⟩
      rcases deal_spec hnodup hsize hsum hstart hnothing.symm (Nat.zero_le _) with
        ⟨done, rest, turn, plan, hdeal, hdealing, hdealt⟩
      refine ⟨_, ?_, selected_dealt hother hdealing hbalance hdealt⟩
      rw [hdeal, Option.map_some, List.map_flatMap, dealtRacks, List.flatMap_append,
        List.flatMap_append, List.flatMap_map]
      simp only [rackBlks_eq, List.flatMap_cons, List.flatMap_nil]
    · have hfull : ((reqrack :: (takenRacks conf base blkName reqrack rackSize).map
          Prod.fst).flatMap (inRack conf base blkName)).length = conf.ecK :=
        Nat.le_antisymm (Nat.not_lt.1 hmore) hreach
      rw [if_neg hmore, if_pos hfull]
      exact ⟨_, rfl, selected_all hother hbalance hfull⟩
  · rw [if_neg hbalance]
    refine ⟨_, ?_, selected_line hother (Bool.eq_false_of_not_eq_true hbalance) henough⟩
    rw [pushHelpers_eq (show ([] : List (Nat × Str)).length < conf.ecK from hk), hline, List.take_append_of_le_length hreach]
    simp

end Helpers

end Hdfs

end CoRD
