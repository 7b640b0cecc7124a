import CoRD.Update.CrdTasks

/-!
# CrdRound — a stripe under the CRD policy

The data nodes send to the parity collector (task 6), the collector to the other parity nodes
(task 7), and every parity node acknowledges (tasks 7 and 8).
-/

namespace CoRD

open MsgNet

section Cast

variable (conf : Config) (newData : Int → Buf) (rsEncMat : Int → Int) {stripes : List Stripe}
  (updBlkVec : List UpdBlock) (σ : Host → NodeState) (q : Nat)

/-- The parity nodes that do not collect. -/
def crdOthers : List Nat :=
  (List.range conf.ecM).filter fun i => i ≠ q

def crdDataRole (b : UpdBlock) : Role Host Chan RedisStr NodeState :=
  { host := dataNode b
    cmd := mkCmd 6 [b.id, b.offsetAdd, b.updSize, parityId conf q]
    body := [.snd (parityNode conf q) .crdData (crdDataMsg newData σ b)]
    final := crdDataFinal newData (σ (dataNode b)) b }

def crdCollectorRole : Role Host Chan RedisStr NodeState :=
  { host := parityNode conf q
    cmd := crdCollectorCmd conf rsEncMat updBlkVec (parityId conf q)
    body := .rcv .crdData (updBlkVec.map (crdDataMsg newData σ)) ::
      ((List.range conf.ecM).flatMap (crdRowActs conf newData rsEncMat updBlkVec σ q) ++
        [.snd .coordinator .ack ackStr])
    final := crdCollectorFinal conf newData rsEncMat updBlkVec σ q (σ (parityNode conf q)) }

def crdParityRole (i : Nat) : Role Host Chan RedisStr NodeState :=
  let blkId : Int := parityId conf i
  { host := parityNode conf i
    cmd := crdParityCmd updBlkVec blkId
    body := [.rcv .crdData ((List.range (getUpdSoluCrd updBlkVec).length).map
        (crdSliceMsg conf newData rsEncMat updBlkVec σ i)),
      .snd .coordinator .ack ackStr]
    final := writeDataToDisk (σ (parityNode conf i)) blkId
      (crdAggre conf newData rsEncMat updBlkVec σ i ((σ (parityNode conf i)).disk blkId))
      (conf.blocksize * 1024) 0 }

def crdRoles : List (Role Host Chan RedisStr NodeState) :=
  updBlkVec.map (crdDataRole conf newData σ q) ++
    (crdCollectorRole conf newData rsEncMat updBlkVec σ q ::
      (crdOthers conf q).map (crdParityRole conf newData rsEncMat updBlkVec σ))

variable {conf newData rsEncMat updBlkVec σ q}

theorem mem_crdOthers {i : Nat} : i ∈ crdOthers conf q ↔ i < conf.ecM ∧ i ≠ q := by
  simp [crdOthers]

theorem crdOthers_nodup : (crdOthers conf q).Nodup :=
  List.nodup_range.filter _

theorem mem_crdRoles {r : Role Host Chan RedisStr NodeState} :
    r ∈ crdRoles conf newData rsEncMat updBlkVec σ q ↔
      (∃ b ∈ updBlkVec, r = crdDataRole conf newData σ q b) ∨
      r = crdCollectorRole conf newData rsEncMat updBlkVec σ q ∨
        ∃ i ∈ crdOthers conf q, r = crdParityRole conf newData rsEncMat updBlkVec σ i := by
  simp [crdRoles, eq_comm]

/-! ## What the collector sends -/

theorem sends_crdRowActs (h : Host) (c : Chan) (i : Nat) :
    sends h c (crdRowActs conf newData rsEncMat updBlkVec σ q i) =
      if i ≠ q ∧ parityNode conf i = h ∧ Chan.crdData = c then
        ((List.range (getUpdSoluCrd updBlkVec).length).map
          (crdSliceMsg conf newData rsEncMat updBlkVec σ i) : Multiset RedisStr)
      else 0 := by
  by_cases hi : i = q
  · rw [crdRowActs, if_pos hi, if_neg (fun hx => hx.1 hi)]
    rfl
  · rw [crdRowActs, if_neg hi, sends_map_const]
    simp [hi]

theorem sends_crdRows_parity {i : Nat} (hi : i ∈ crdOthers conf q) (c : Chan) :
    sends (parityNode conf i) c
        ((List.range conf.ecM).flatMap (crdRowActs conf newData rsEncMat updBlkVec σ q)) =
      if Chan.crdData = c then
        ((List.range (getUpdSoluCrd updBlkVec).length).map
          (crdSliceMsg conf newData rsEncMat updBlkVec σ i) : Multiset RedisStr)
      else 0 := by
  obtain ⟨hlt, hq⟩ := mem_crdOthers.1 hi
  have hsum : ∑ j ∈ Finset.range conf.ecM,
      sends (parityNode conf i) c (crdRowActs conf newData rsEncMat updBlkVec σ q j) =
      sends (parityNode conf i) c (crdRowActs conf newData rsEncMat updBlkVec σ q i) := by
    refine Finset.sum_eq_single_of_mem i (Finset.mem_range.2 hlt) fun j _ hj => ?_
    rw [sends_crdRowActs, if_neg fun hx => hj (parityNode_injective hx.2.1)]
  rw [sends_flatMap]
  refine hsum.trans ?_
  rw [sends_crdRowActs]
  simp [hq]

theorem sends_crdRows_of_ne {h : Host} (hh : ∀ i, i ≠ q → parityNode conf i ≠ h) (c : Chan) :
    sends h c
      ((List.range conf.ecM).flatMap (crdRowActs conf newData rsEncMat updBlkVec σ q)) = 0 := by
  rw [sends_flatMap]
  refine sum_map_eq_zero fun i _ => ?_
  rw [sends_crdRowActs, if_neg fun hx => hh i hx.1 hx.2.1]

theorem mem_crdRows {h : Host} {c : Chan} {m : RedisStr}
    (hm : .snd h c m ∈
      (List.range conf.ecM).flatMap (crdRowActs conf newData rsEncMat updBlkVec σ q)) :
    ∃ i ∈ crdOthers conf q, h = parityNode conf i ∧ c = Chan.crdData := by
  obtain ⟨i, hi, hmem⟩ := List.mem_flatMap.1 hm
  have hsend := mem_sends.2 hmem
  rw [sends_crdRowActs] at hsend
  by_cases hx : i ≠ q ∧ parityNode conf i = h ∧ Chan.crdData = c
  · exact ⟨i, mem_crdOthers.2 ⟨List.mem_range.1 hi, hx.1⟩, hx.2.1.symm, hx.2.2.symm⟩
  · rw [if_neg hx] at hsend
    exact absurd hsend (Multiset.notMem_zero m)

theorem sendsOnly_crdRows :
    SendsOnly ((List.range conf.ecM).flatMap (crdRowActs conf newData rsEncMat updBlkVec σ q) ++
      [.snd .coordinator .ack ackStr]) := by
  intro c ms hmem
  rcases List.mem_append.1 hmem with hmem | hmem
  · obtain ⟨i, _, hi⟩ := List.mem_flatMap.1 hmem
    rw [crdRowActs] at hi
    split at hi
    · cases hi
    · obtain ⟨j, _, heq⟩ := List.mem_map.1 hi
      cases heq
  · simp at hmem

/-! ## The cast -/

/-- What all nodes send to one mailbox. -/
theorem sum_sends_crdRoles (h : Host) (c : Chan) :
    ((crdRoles conf newData rsEncMat updBlkVec σ q).map fun r => sends h c r.body).sum =
      (updBlkVec.map fun b =>
        if parityNode conf q = h ∧ Chan.crdData = c then
          ({crdDataMsg newData σ b} : Multiset RedisStr) else 0).sum +
      ((sends h c ((List.range conf.ecM).flatMap
          (crdRowActs conf newData rsEncMat updBlkVec σ q)) +
        if Host.coordinator = h ∧ Chan.ack = c then ({ackStr} : Multiset RedisStr) else 0) +
      ((crdOthers conf q).map fun _ =>
        if Host.coordinator = h ∧ Chan.ack = c then ({ackStr} : Multiset RedisStr) else 0).sum) := by
  simp [crdRoles, Function.comp_def, crdDataRole, crdCollectorRole, crdParityRole, sends,
    sends_append]

theorem ackStr_crdOthers (hq : q < conf.ecM) :
    (ackStr :: (crdOthers conf q).map fun _ => ackStr) = acks conf := by
  have hmem : q ∈ (List.range conf.ecM).map id := by simpa using hq
  have hlen := Keyed.length_filter_ne (List.nodup_range.map Function.injective_id) hmem
  simp only [id_eq, List.length_range] at hlen
  rw [acks, ← hlen, crdOthers, List.map_const', List.replicate_succ]

theorem crdRoles_acked (hq : q < conf.ecM) (c : Chan) :
    ((crdRoles conf newData rsEncMat updBlkVec σ q).map fun r =>
        sends Host.coordinator c r.body).sum =
      if Chan.ack = c then (acks conf : Multiset RedisStr) else 0 := by
  rw [sum_sends_crdRoles, sum_map_eq_zero (by simp), sends_crdRows_of_ne (by simp), zero_add,
    zero_add, ← ackStr_crdOthers hq]
  by_cases hc : Chan.ack = c
  · simp only [hc, and_self, if_true, sum_map_singleton]
    rfl
  · simp [hc]

theorem crdRoles_served_data (hv : ValidUpd conf updBlkVec) {b : UpdBlock} (hb : b ∈ updBlkVec)
    (c : Chan) :
    ((crdRoles conf newData rsEncMat updBlkVec σ q).map fun r =>
        sends (dataNode b) c r.body).sum =
      recvs c (crdDataRole conf newData σ q b).body := by
  have hne : ∀ i, parityNode conf i ≠ dataNode b := fun i =>
    (hv.dataNode_ne_parityNode hb i).symm
  rw [sum_sends_crdRoles, sum_map_eq_zero (by simp [hne]), sends_crdRows_of_ne fun i _ => hne i,
    sum_map_eq_zero (by simp)]
  simp [crdDataRole, recvs]

theorem crdRoles_served_collector (c : Chan) :
    ((crdRoles conf newData rsEncMat updBlkVec σ q).map fun r =>
        sends (parityNode conf q) c r.body).sum =
      recvs c (crdCollectorRole conf newData rsEncMat updBlkVec σ q).body := by
  have hrows : sends (parityNode conf q) c
      ((List.range conf.ecM).flatMap (crdRowActs conf newData rsEncMat updBlkVec σ q)) = 0 :=
    sends_crdRows_of_ne (fun i hi heq => hi (parityNode_injective heq)) c
  have hothers : ((crdOthers conf q).map fun _ =>
      if Host.coordinator = parityNode conf q ∧ Chan.ack = c then
        ({ackStr} : Multiset RedisStr) else 0).sum = 0 := sum_map_eq_zero (by simp)
  rw [sum_sends_crdRoles, hrows, hothers, crdCollectorRole, recvs, sendsOnly_crdRows.recvs,
    ← sum_map_ite_singleton]
  simp

theorem crdRoles_served_parity {i : Nat} (hi : i ∈ crdOthers conf q) (c : Chan) :
    ((crdRoles conf newData rsEncMat updBlkVec σ q).map fun r =>
        sends (parityNode conf i) c r.body).sum =
      recvs c (crdParityRole conf newData rsEncMat updBlkVec σ i).body := by
  have hne : parityNode conf q ≠ parityNode conf i := fun heq =>
    (mem_crdOthers.1 hi).2 (parityNode_injective heq).symm
  rw [sum_sends_crdRoles, sum_map_eq_zero (by simp [hne]), sends_crdRows_parity hi,
    sum_map_eq_zero (by simp)]
  simp [crdParityRole, recvs]

theorem crdRoles_nodup (hv : ValidUpd conf updBlkVec) :
    ((crdRoles conf newData rsEncMat updBlkVec σ q).map Role.host).Nodup := by
  have hhosts : (crdRoles conf newData rsEncMat updBlkVec σ q).map Role.host =
      updBlkVec.map dataNode ++ (q :: crdOthers conf q).map (parityNode conf) := by
    simp [crdRoles, Function.comp_def, crdParityRole, crdDataRole, crdCollectorRole]
  have hothers : (q :: crdOthers conf q).Nodup :=
    List.nodup_cons.2 ⟨fun hmem => (mem_crdOthers.1 hmem).2 rfl, crdOthers_nodup⟩
  rw [hhosts, List.nodup_append]
  refine ⟨hv.dataNodes_nodup, parityNodes_nodup _ hothers, fun h hh h' hh' heq => ?_⟩
  obtain ⟨b, hb, rfl⟩ := List.mem_map.1 hh
  exact hv.dataNode_not_mem hb _ (heq ▸ hh')

/-! ## What each role keeps to -/

theorem crdDataRole_fits (hv : ValidUpd conf updBlkVec) {b : UpdBlock} (hb : b ∈ updBlkVec) :
    (crdDataRole conf newData σ q b).Fits (network conf rsEncMat newData stripes) σ
      (chanRank (parityId conf q)) (hostDepth conf (parityId conf q)) := by
  have hlt := hv.one_lt_hostDepth hb (parityId conf q)
  exact fits_dataRole (by decide) (by simpa using hlt) (follows_task6 (parityId conf q) b)

theorem crdCollectorRole_fits (hv : ValidUpd conf updBlkVec) (hq : q < conf.ecM) :
    (crdCollectorRole conf newData rsEncMat updBlkVec σ q).Fits
      (network conf rsEncMat newData stripes) σ (chanRank (parityId conf q))
      (hostDepth conf (parityId conf q)) where
  root_ne := parityNode_ne_coordinator q
  once := by
    refine ⟨?_, sendsOnly_crdRows.recvs _, sendsOnly_crdRows.once⟩
    simp [crdCollectorRole, recvs, sendsOnly_crdRows.recvs, network]
  jobless := fun h => by
    refine Multiset.eq_zero_of_forall_notMem fun m hm => ?_
    have hmem := mem_sends.1 hm
    simp only [crdCollectorRole, List.mem_cons, reduceCtorEq, List.mem_append, Act.snd.injEq,
      List.not_mem_nil, or_false, false_or, network, false_and, and_false] at hmem
    obtain ⟨_, _, _, hc⟩ := mem_crdRows hmem
    cases hc
  plays := follows_task7 hv.ne_nil hv.nodup hq (parityId conf q)
  rank_pos := fun h c m hm => by
    simp only [crdCollectorRole, List.mem_cons, reduceCtorEq, List.mem_append, Act.snd.injEq,
      List.not_mem_nil, or_false, false_or] at hm
    rcases hm with hm | hm
    · obtain ⟨i, _, _, rfl⟩ := mem_crdRows hm
      exact chanRank_pos _ _ (by decide)
    · exact chanRank_pos _ _ (by simp [hm.2.1])
  ranked := by
    refine ⟨by simpa using hv.ne_nil, fun dst c m hm => ?_, sendsOnly_crdRows.ranked _ _⟩
    simp only [List.mem_append, List.mem_singleton, Act.snd.injEq] at hm
    rcases hm with hm | hm
    · obtain ⟨i, hi, rfl, rfl⟩ := mem_crdRows hm
      have hne : parityId conf i ≠ parityId conf q := fun heq =>
        (mem_crdOthers.1 hi).2 (parityId_injective heq)
      simp [chanRank, crdCollectorRole, parityNode, hne]
    · rw [hm.2.1]
      exact chanRank_lt_ack _ _ _ (by decide)
  closing := by
    refine ⟨by simp [crdCollectorRole], ?_⟩
    have hack : Closing (hostDepth conf (parityId conf q)) (parityNode conf q)
        ([.snd .coordinator .ack ackStr] : List (Act Host Chan RedisStr)) := by
      simp [Closing]
    exact closing_append (_ :: _) (by simp) hack

theorem crdParityRole_fits (hne : updBlkVec ≠ []) (i : Nat) :
    (crdParityRole conf newData rsEncMat updBlkVec σ i).Fits
      (network conf rsEncMat newData stripes) σ (chanRank (parityId conf q))
      (hostDepth conf (parityId conf q)) :=
  fits_parityRole (by decide) (by decide) (by simpa using getUpdSoluCrd_ne_nil hne)
    (follows_task8 hne (parityId conf i) (parityId conf i) i (σ (parityNode conf i)))

variable (stripes) in
theorem crdRoles_fits (hv : ValidUpd conf updBlkVec) (hq : q < conf.ecM)
    (r : Role Host Chan RedisStr NodeState)
    (hr : r ∈ crdRoles conf newData rsEncMat updBlkVec σ q) :
    r.Fits (network conf rsEncMat newData stripes) σ (chanRank (parityId conf q))
      (hostDepth conf (parityId conf q)) := by
  rcases mem_crdRoles.1 hr with ⟨b, hb, rfl⟩ | rfl | ⟨i, _, rfl⟩
  · exact crdDataRole_fits hv hb
  · exact crdCollectorRole_fits hv hq
  · exact crdParityRole_fits hv.ne_nil i

theorem crdRoles_inside (r : Role Host Chan RedisStr NodeState)
    (hr : r ∈ crdRoles conf newData rsEncMat updBlkVec σ q) (h : Host) (c : Chan) (m : RedisStr)
    (hmem : .snd h c m ∈ r.body) :
    h = .coordinator ∨ ∃ r' ∈ crdRoles conf newData rsEncMat updBlkVec σ q, r'.host = h := by
  rcases mem_crdRoles.1 hr with ⟨b, _, rfl⟩ | rfl | ⟨i, _, rfl⟩
  · simp only [crdDataRole, List.mem_singleton, Act.snd.injEq] at hmem
    exact Or.inr ⟨_, mem_crdRoles.2 (Or.inr (Or.inl rfl)), hmem.1.symm⟩
  · simp only [crdCollectorRole, List.mem_cons, reduceCtorEq, List.mem_append, Act.snd.injEq,
      List.not_mem_nil, or_false, false_or] at hmem
    rcases hmem with hmem | hmem
    · obtain ⟨i, hi, rfl, _⟩ := mem_crdRows hmem
      exact Or.inr ⟨_, mem_crdRoles.2 (Or.inr (Or.inr ⟨i, hi, rfl⟩)), rfl⟩
    · exact Or.inl hmem.1
  · simp only [crdParityRole, List.mem_cons, reduceCtorEq, Act.snd.injEq, List.not_mem_nil,
      or_false, false_or] at hmem
    exact Or.inl hmem.1

theorem crdRoles_served (hv : ValidUpd conf updBlkVec) (r : Role Host Chan RedisStr NodeState)
    (hr : r ∈ crdRoles conf newData rsEncMat updBlkVec σ q) (c : Chan) :
    ((crdRoles conf newData rsEncMat updBlkVec σ q).map fun r' => sends r.host c r'.body).sum =
      recvs c r.body := by
  rcases mem_crdRoles.1 hr with ⟨b, hb, rfl⟩ | rfl | ⟨i, hi, rfl⟩
  · exact crdRoles_served_data hv hb c
  · exact crdRoles_served_collector c
  · exact crdRoles_served_parity hi c

/-- The round of a stripe under the CRD policy with parity node `q` as collector. -/
def crdCast (hv : ValidUpd conf updBlkVec) (hq : q < conf.ecM) :
    Cast (network conf rsEncMat newData stripes) σ where
  roles := crdRoles conf newData rsEncMat updBlkVec σ q
  ack := .ack
  acks := acks conf
  rank := chanRank (parityId conf q)
  depth := hostDepth conf (parityId conf q)
  nodup := crdRoles_nodup hv
  root_ne := fun r hr => (crdRoles_fits stripes hv hq r hr).root_ne
  ack_ne := ack_ne_job rsEncMat newData stripes
  acks_ne := acks_ne_nil (by omega)
  once := fun r hr => (crdRoles_fits stripes hv hq r hr).once
  jobless := fun r hr => (crdRoles_fits stripes hv hq r hr).jobless
  inside := crdRoles_inside
  acked := crdRoles_acked hq
  served := crdRoles_served hv
  plays := fun r hr => (crdRoles_fits stripes hv hq r hr).plays
  rank_job := fun _ => rfl
  rank_pos := fun r hr => (crdRoles_fits stripes hv hq r hr).rank_pos
  ranked := fun r hr => (crdRoles_fits stripes hv hq r hr).ranked
  closing := fun r hr => (crdRoles_fits stripes hv hq r hr).closing

end Cast

end CoRD
