import CoRD.Repair.PipeCoordinator

/-!
# RequestorHolder — looking for the requestor among its helpers

`isRequestorHolder` bisects the stripe by the node of its entries.  The stripe comes in the order of
the pipeline, which is by rack, shuffled, or along a path, and nothing sorts it.
-/

namespace CoRD

namespace Pipe

/-! ## The reads -/

/-- An entry of a vector, at an index that may be negative. -/
def entryAt (stripe : List (Nat × Str)) (i : Int) : Option (Nat × Str) :=
  if 0 ≤ i then stripe[i.toNat]? else none

/-- The loop of `Coordinator::isRequestorHolder` with its reads; it fails where the code reads
outside the vector. -/
def holderLoop (stripe : List (Nat × Str)) (requestorIP : Nat) (sid eid : Int) : Option Int :=
  if sid < eid then
    let mid := (sid + eid) / 2
    match entryAt stripe mid with
    | none => none
    | some it =>
        if it.1 = requestorIP then some mid
        else if requestorIP < it.1 then holderLoop stripe requestorIP sid (mid - 1)
        else holderLoop stripe requestorIP (mid + 1) eid
  else (entryAt stripe sid).map fun it => if it.1 = requestorIP then sid else -1
termination_by (eid - sid).toNat
decreasing_by all_goals omega

/-- `Coordinator::isRequestorHolder`, with the value that it returns. -/
def requestorHolder (stripe : List (Nat × Str)) (requestorIP : Nat) : Option Int :=
  holderLoop stripe requestorIP 0 ((stripe.length : Int) - 1)

section Reads

variable {stripe : List (Nat × Str)} {requestorIP : Nat}

/-- The nodes of the stripe, as a table. -/
def nodeAt (stripe : List (Nat × Str)) (i : Nat) : Nat :=
  (stripe.getD i (0, [])).1

/-- What the end of a bisection means to the code. -/
def endValue (stripe : List (Nat × Str)) (requestorIP : Nat) : Bisect.End → Int
  | .hit mid => mid
  | .stop sid => if nodeAt stripe sid = requestorIP then sid else -1
  | .below => -1

theorem entryAt_natCast {i : Nat} : i < stripe.length →
    entryAt stripe i = some (stripe.getD i (0, [])) := by
  intro hi
  simp [entryAt, List.getD, hi]

/-- A turn of the loop, with bounds inside the vector. -/
theorem holderLoop_turn {sId eId : Nat} (hlt : sId < eId) (he : eId < stripe.length) :
    holderLoop stripe requestorIP sId eId =
      if nodeAt stripe ((sId + eId) / 2) = requestorIP then some (((sId + eId) / 2 : Nat) : Int)
      else if requestorIP < nodeAt stripe ((sId + eId) / 2) then
        holderLoop stripe requestorIP sId (((sId + eId) / 2 : Nat) - 1)
      else holderLoop stripe requestorIP ((sId + eId) / 2 + 1 : Nat) eId := by
  have hmid : ((sId : Int) + eId) / 2 = ((sId + eId) / 2 : Nat) := by
    omega
  have hread : entryAt stripe ((sId + eId) / 2 : Nat) =
      some (stripe.getD ((sId + eId) / 2) (0, [])) := entryAt_natCast (by omega)
  rw [holderLoop, if_pos (by omega)]
  simp only [hmid, hread]
  rfl

theorem holderLoop_last {sid eid : Int} {i : Nat} (hlt : ¬ sid < eid) (hsid : sid = i)
    (hi : i < stripe.length) :
    holderLoop stripe requestorIP sid eid =
      some (if nodeAt stripe i = requestorIP then (i : Int) else -1) := by
  rw [holderLoop, if_neg hlt, hsid, entryAt_natCast hi]
  rfl

/-- Inside the vector the loop is a bisection. -/
theorem holderLoop_eq {sId eId : Nat} : sId < stripe.length → eId < stripe.length →
    holderLoop stripe requestorIP sId eId =
      some (endValue stripe requestorIP (Bisect.search (nodeAt stripe) requestorIP sId eId)) := by
  intro hs he
  fun_induction Bisect.search (nodeAt stripe) requestorIP sId eId with
  | case1 sId eId hlt hlow ih =>
      rw [holderLoop_turn hlt he, if_neg hlow.ne, if_neg hlow.asymm]
      exact ih (by omega) he
  | case2 sId eId hlt hlow hhigh hzero =>
      -- `eid` is -1 now, and the entry at zero was the middle
      have hsId : sId = 0 := by
        omega
      rw [holderLoop_turn hlt he, if_neg hhigh.ne', if_pos hhigh, hzero]
      have hempty : ¬ (sId : Int) < (0 : Nat) - 1 := by
        omega
      rw [holderLoop_last hempty rfl hs, hsId, if_neg (hzero ▸ hhigh.ne')]
      rfl
  | case3 sId eId hlt hlow hhigh hzero ih =>
      have hleft : (((sId + eId) / 2 : Nat) : Int) - 1 = ((sId + eId) / 2 - 1 : Nat) := by
        omega
      rw [holderLoop_turn hlt he, if_neg hhigh.ne', if_pos hhigh, hleft]
      exact ih hs (by omega)
  | case4 sId eId hlt hlow hhigh =>
      have heq : nodeAt stripe ((sId + eId) / 2) = requestorIP :=
        le_antisymm (not_lt.1 hhigh) (not_lt.1 hlow)
      rw [holderLoop_turn hlt he, if_pos heq]
      rfl
  | case5 sId eId hlt =>
      exact holderLoop_last (by omega) rfl hs

theorem requestorHolder_search (hne : stripe ≠ []) : requestorHolder stripe requestorIP =
    some (endValue stripe requestorIP
      (Bisect.search (nodeAt stripe) requestorIP 0 (stripe.length - 1))) := by
  have hpos := List.length_pos_of_ne_nil hne
  have heid : (stripe.length : Int) - 1 = (stripe.length - 1 : Nat) := by
    omega
  rw [requestorHolder, heid]
  exact holderLoop_eq hpos (Nat.sub_lt hpos Nat.one_pos)

/-- On a stripe with helpers no read is outside. -/
theorem requestorHolder_eq (hne : stripe ≠ []) : requestorHolder stripe requestorIP =
    some (((isRequestorHolder stripe requestorIP).map Int.ofNat).getD (-1)) := by
  rw [requestorHolder_search hne]
  show _ = some (((match Bisect.search (nodeAt stripe) requestorIP 0 (stripe.length - 1) with
    | .hit mid => some mid
    | .stop sid => if nodeAt stripe sid = requestorIP then some sid else none
    | .below => none : Option Nat).map Int.ofNat).getD (-1))
  cases Bisect.search (nodeAt stripe) requestorIP 0 (stripe.length - 1) with
  | hit mid =>
      rfl
  | stop sid =>
      by_cases hsid : nodeAt stripe sid = requestorIP
      · simp [endValue, hsid]
      · simp [endValue, hsid]
  | below =>
      rfl

end Reads

/-! ## When the requestor is found -/

section Found

variable {stripe : List (Nat × Str)} {requestorIP : Nat}

/-- No read is outside, and what is returned is the position of the requestor, or -1 if it is no
helper. -/
def HolderRight (stripe : List (Nat × Str)) (requestorIP : Nat) : Prop :=
  ∃ r, requestorHolder stripe requestorIP = some r ∧
    (∀ i : Nat, (stripe.map Prod.fst)[i]? = some requestorIP → r = i) ∧
    (requestorIP ∉ stripe.map Prod.fst → r = -1)

theorem nodeAt_eq {i : Nat} : (stripe.map Prod.fst)[i]? = some requestorIP →
    i < stripe.length ∧ nodeAt stripe i = requestorIP := by
  intro h
  rcases List.getElem?_eq_some_iff.1 h with ⟨hi, heq⟩
  have hi' : i < stripe.length := by
    simpa using hi
  exact ⟨hi', by simpa [nodeAt, List.getD, hi'] using heq⟩

theorem getElem?_nodes {i : Nat} (hi : i < stripe.length) :
    (stripe.map Prod.fst)[i]? = some (nodeAt stripe i) := by
  simp [nodeAt, List.getD, hi]

theorem endValue_eq_iff {i : Nat} {e : Bisect.End} :
    endValue stripe (nodeAt stripe i) e = i ↔ e.At i := by
  cases e with
  | hit mid =>
      simp [endValue, Bisect.End.At]
  | stop sid =>
      by_cases hsid : nodeAt stripe sid = nodeAt stripe i
      · simp [endValue, Bisect.End.At, hsid]
      · have hne : sid ≠ i := fun heq => hsid (congrArg (nodeAt stripe) heq)
        simpa [endValue, Bisect.End.At, hsid] using hne
  | below =>
      simp [endValue, Bisect.End.At]

/-- At the position of the requestor the code is right just when the bisection ends there. -/
theorem holderRight_iff_at (hnodes : (stripe.map Prod.fst).Nodup) {i : Nat}
    (hi : i < stripe.length) : HolderRight stripe (nodeAt stripe i) ↔
      (Bisect.search (nodeAt stripe) (nodeAt stripe i) 0 (stripe.length - 1)).At i := by
  have hget := getElem?_nodes hi
  have hvalue : requestorHolder stripe (nodeAt stripe i) = some (endValue stripe _ _) :=
    requestorHolder_search (List.ne_nil_of_length_pos (Nat.zero_lt_of_lt hi))
  constructor
  · rintro ⟨r, hr, hsome, _⟩
    exact endValue_eq_iff.1 ((Option.some.inj (hvalue.symm.trans hr)).trans (hsome i hget))
  · intro hat
    refine ⟨i, (endValue_eq_iff.2 hat) ▸ hvalue, fun j hj => ?_, fun hnot => ?_⟩
    · have hi' : i < (stripe.map Prod.fst).length := by
        simpa using hi
      exact congrArg Int.ofNat ((List.getElem?_inj hi' hnodes).1 (hget.trans hj.symm))
    · exact absurd (List.mem_of_getElem? hget) hnot

/-- The code is right for a requestor if, at each middle on the way to its position, the node in the
middle is on the other side of it.  It is right for all requestors if the nodes ascend. -/
theorem holderRight_iff (hne : stripe ≠ []) (hnodes : (stripe.map Prod.fst).Nodup) :
    (∀ requestorIP, HolderRight stripe requestorIP ↔
      ∀ i : Nat, (stripe.map Prod.fst)[i]? = some requestorIP →
        ∀ m ∈ Bisect.probes 0 (stripe.length - 1) i,
          (m < i → nodeAt stripe m < requestorIP) ∧ (i < m → requestorIP < nodeAt stripe m)) ∧
    ((∀ requestorIP, HolderRight stripe requestorIP) ↔
      (stripe.map Prod.fst).Pairwise (· < ·)) := by
  have hpos := List.length_pos_of_ne_nil hne
  have hlast : ∀ i, i < stripe.length ↔ i ≤ stripe.length - 1 := by
    intro i
    omega
  have hother : ∀ requestorIP, requestorIP ∉ stripe.map Prod.fst →
      HolderRight stripe requestorIP := by
    intro requestorIP hnot
    have hnone := isRequestorHolder_eq_none hne hnot
    refine ⟨-1, by simp [requestorHolder_eq hne, hnone], fun i hi => ?_, fun _ => rfl⟩
    exact absurd (List.mem_of_getElem? hi) hnot
  constructor
  · intro requestorIP
    by_cases hmem : requestorIP ∈ stripe.map Prod.fst
    · rcases List.getElem?_of_mem hmem with ⟨i, hi⟩
      rcases nodeAt_eq hi with ⟨hlt, rfl⟩
      have hiff := (holderRight_iff_at hnodes hlt).trans
        (Bisect.search_at_iff (Nat.zero_le i) ((hlast i).1 hlt))
      constructor
      · intro hright j hj
        have hi' : i < (stripe.map Prod.fst).length := by
          simpa using hlt
        exact ((List.getElem?_inj hi' hnodes).1 (hi.trans hj.symm)) ▸ hiff.1 hright
      · intro h
        exact hiff.2 (h i hi)
    · refine iff_of_true (hother _ hmem) fun i hi => ?_
      exact absurd (List.mem_of_getElem? hi) hmem
  · constructor
    · intro hall
      have hfound : ∀ i, 0 ≤ i → i ≤ stripe.length - 1 →
          (Bisect.search (nodeAt stripe) (nodeAt stripe i) 0 (stripe.length - 1)).At i :=
        fun i _ hi => (holderRight_iff_at hnodes ((hlast i).2 hi)).1 (hall _)
      have hasc := Bisect.ascending_of_search hfound
      refine List.pairwise_iff_getElem.2 fun i j hi hj hij => ?_
      have hi' : i < stripe.length := by
        simpa using hi
      have hj' : j < stripe.length := by
        simpa using hj
      simpa [nodeAt, List.getD, hi', hj'] using hasc i j (Nat.zero_le i) hij ((hlast j).1 hj')
    · intro hasc requestorIP
      by_cases hmem : requestorIP ∈ stripe.map Prod.fst
      · rcases List.getElem?_of_mem hmem with ⟨i, hi⟩
        rcases nodeAt_eq hi with ⟨hlt, rfl⟩
        have hmono : ∀ a b, 0 ≤ a → a < b → b ≤ stripe.length - 1 →
            nodeAt stripe a < nodeAt stripe b := by
          intro a b _ hab hb
          have hb' : b < stripe.length := (hlast b).2 hb
          have ha' : a < stripe.length := hab.trans hb'
          have hpair := List.pairwise_iff_getElem.1 hasc a b (by simpa using ha')
            (by simpa using hb') hab
          simpa [nodeAt, List.getD, ha', hb'] using hpair
        exact (holderRight_iff_at hnodes hlt).2
          (Bisect.search_of_ascending hmono i (Nat.zero_le i) ((hlast i).1 hlt))
      · exact hother _ hmem

/-- Two helpers, a rack each. -/
def rackedConf : RepairConfig where
  toConfig := xorConf
  rackInfos := (∅ : Std.TreeMap Nat Str).insertMany [(1, ['r']), (2, ['s'])]
  shuffle := false
  msscheduling := false
  localIP := 0

def rackedBase : MetadataBase :=
  { MetadataBase.empty with
    blk2Stripe := (∅ : Std.TreeMap Str BlkSet).insert ['c']
      (Std.TreeSet.ofList [(1, ['a']), (2, ['b'])] blkCmp) }

theorem holderRight_iff_racked :
    (∀ requestorIP, HolderRight [(2, ['b']), (1, ['a'])] requestorIP ↔
      ∀ i : Nat, [2, 1][i]? = some requestorIP → ∀ m ∈ Bisect.probes 0 1 i,
        (m < i → nodeAt [(2, ['b']), (1, ['a'])] m < requestorIP) ∧
          (i < m → requestorIP < nodeAt [(2, ['b']), (1, ['a'])] m)) ∧
    ((∀ requestorIP, HolderRight [(2, ['b']), (1, ['a'])] requestorIP) ↔
      [2, 1].Pairwise (· < ·)) :=
  holderRight_iff (by decide) (by decide)

/-- The rack of the requestor goes last, and the bisection looks for its node in front. -/
theorem not_holderRight_racked :
    rackedBase.getStripeBlks rackedConf unshuffled ['c'] 1 = [(2, ['b']), (1, ['a'])] ∧
      requestorHolder [(2, ['b']), (1, ['a'])] 1 = some (-1) ∧
      ¬ ∀ conf rand (base : MetadataBase) blkName requestorIP,
        base.getStripeBlks conf rand blkName requestorIP ≠ [] →
          ((base.getStripeBlks conf rand blkName requestorIP).map Prod.fst).Nodup →
            HolderRight (base.getStripeBlks conf rand blkName requestorIP) requestorIP := by
  have hstripe : rackedBase.getStripeBlks rackedConf unshuffled ['c'] 1 =
      [(2, ['b']), (1, ['a'])] := by
    decide +kernel
  have hmissed : requestorHolder [(2, ['b']), (1, ['a'])] 1 = some (-1) := by
    simp [requestorHolder, holderLoop, entryAt]
  refine ⟨hstripe, hmissed, fun hall => ?_⟩
  have hright := hall rackedConf unshuffled rackedBase ['c'] 1
  rw [hstripe] at hright
  rcases hright (by decide) (by decide) with ⟨r, hr, hfound, _⟩
  have hr' : r = -1 := Option.some.inj (hr.symm.trans hmissed)
  exact absurd (hr'.symm.trans (hfound 1 rfl)) (by decide)

end Found

end Pipe

end CoRD
