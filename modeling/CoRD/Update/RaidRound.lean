import CoRD.Update.RaidTasks

/-!
# RaidRound — a stripe under the RAID policy

The updated data nodes send their deltas to the collector, one of them (task 1); the collector
encodes them with its own block and sends one row to each parity node (task 2), which stores it
(task 3).
-/

namespace CoRD

open MsgNet

section Cast

variable (conf : Config) (newData : Int → Buf) (rsEncMat : Int → Int) {stripes : List Stripe}
  (updBlkVec : List UpdBlock) (σ : Host → NodeState) (col : UpdBlock)

/-- The updated blocks the collector hears from. -/
def raidOthers : List UpdBlock :=
  updBlkVec.filter fun b => b.id ≠ col.id

def raidDataRole (b : UpdBlock) : Role Host Chan RedisStr NodeState :=
  { host := dataNode b
    cmd := mkCmd 1 [b.id, col.id]
    body := [.snd (dataNode col) .raidData (raidDataMsg conf newData σ b.id)]
    final := raidDataFinal conf newData (σ (dataNode b)) b.id }

def raidCollectorRole : Role Host Chan RedisStr NodeState :=
  { host := dataNode col
    cmd := raidCollectorCmd conf rsEncMat updBlkVec
    body := rcvRest .raidData
      ((raidOthers updBlkVec col).map fun b => raidDataMsg conf newData σ b.id)
      ((List.range conf.ecM).map fun i =>
        .snd (parityNode conf i) .raidData
          (raidParityMsg conf newData rsEncMat updBlkVec σ col.id i))
    final := (σ (dataNode col)).takeHeap conf.ecM }

def raidParityRole (i : Nat) : Role Host Chan RedisStr NodeState :=
  let blkId : Int := parityId conf i
  { host := parityNode conf i
    cmd := mkCmd 3 [blkId]
    body := [.rcv .raidData [raidParityMsg conf newData rsEncMat updBlkVec σ col.id i],
      .snd .coordinator .ack ackStr]
    final := writeDataToDisk (σ (parityNode conf i)) blkId
      (raidParity conf newData rsEncMat updBlkVec σ col.id (conf.ecM - 1 - i))
      (conf.blocksize * 1024) 0 }

def raidRoles : List (Role Host Chan RedisStr NodeState) :=
  (raidOthers updBlkVec col).map (raidDataRole conf newData σ col) ++
    (raidCollectorRole conf newData rsEncMat updBlkVec σ col ::
      (List.range conf.ecM).map (raidParityRole conf newData rsEncMat updBlkVec σ col))

variable {conf newData rsEncMat updBlkVec σ col}

theorem mem_raidOthers {b : UpdBlock} :
    b ∈ raidOthers updBlkVec col ↔ b ∈ updBlkVec ∧ b.id ≠ col.id := by
  simp [raidOthers]

theorem mem_raidRoles {r : Role Host Chan RedisStr NodeState} :
    r ∈ raidRoles conf newData rsEncMat updBlkVec σ col ↔
      (∃ b ∈ raidOthers updBlkVec col, r = raidDataRole conf newData σ col b) ∨
      r = raidCollectorRole conf newData rsEncMat updBlkVec σ col ∨
        ∃ i < conf.ecM, r = raidParityRole conf newData rsEncMat updBlkVec σ col i := by
  simp [raidRoles, eq_comm]

/-- What all nodes send to one mailbox. -/
theorem sum_sends_raidRoles (h : Host) (c : Chan) :
    ((raidRoles conf newData rsEncMat updBlkVec σ col).map fun q => sends h c q.body).sum =
      ((raidOthers updBlkVec col).map fun b =>
        if dataNode col = h ∧ Chan.raidData = c then
          ({raidDataMsg conf newData σ b.id} : Multiset RedisStr) else 0).sum +
      (sends h c ((List.range conf.ecM).map fun i =>
        (.snd (parityNode conf i) .raidData
          (raidParityMsg conf newData rsEncMat updBlkVec σ col.id i) : Act Host Chan RedisStr)) +
      ((List.range conf.ecM).map fun _ =>
        if Host.coordinator = h ∧ Chan.ack = c then ({ackStr} : Multiset RedisStr) else 0).sum) := by
  simp [raidRoles, Function.comp_def, raidDataRole, raidCollectorRole, raidParityRole, sends,
    sends_rcvRest]

theorem raidRoles_acked (c : Chan) :
    ((raidRoles conf newData rsEncMat updBlkVec σ col).map fun q =>
        sends Host.coordinator c q.body).sum =
      if Chan.ack = c then (acks conf : Multiset RedisStr) else 0 := by
  have hacks : (List.range conf.ecM).map (fun _ => ackStr) = acks conf := by
    simp [acks, List.map_const']
  rw [sum_sends_raidRoles, sum_map_eq_zero (by simp), sends_map_of_not_mem (by simp), zero_add,
    zero_add, ← hacks, ← sum_map_ite_singleton]
  simp

theorem raidRoles_served_data (hv : ValidUpd conf updBlkVec) {b : UpdBlock}
    (hb : b ∈ raidOthers updBlkVec col) (c : Chan) :
    ((raidRoles conf newData rsEncMat updBlkVec σ col).map fun q =>
        sends (dataNode b) c q.body).sum =
      recvs c (raidDataRole conf newData σ col b).body := by
  obtain ⟨hb, hid⟩ := mem_raidOthers.1 hb
  have hne : dataNode col ≠ dataNode b := fun h => hid (Host.node.inj h).symm
  rw [sum_sends_raidRoles, sum_map_eq_zero (by simp [hne]),
    sends_map_of_not_mem (hv.dataNode_not_mem hb _), sum_map_eq_zero (by simp)]
  rfl

theorem raidRoles_served_collector (hv : ValidUpd conf updBlkVec) (hcol : col ∈ updBlkVec)
    (c : Chan) :
    ((raidRoles conf newData rsEncMat updBlkVec σ col).map fun q =>
        sends (dataNode col) c q.body).sum =
      recvs c (raidCollectorRole conf newData rsEncMat updBlkVec σ col).body := by
  have hnoAck : ((List.range conf.ecM).map fun _ =>
      if Host.coordinator = dataNode col ∧ Chan.ack = c then
        ({ackStr} : Multiset RedisStr) else 0).sum = 0 := sum_map_eq_zero (by simp)
  rw [sum_sends_raidRoles, sends_map_of_not_mem (hv.dataNode_not_mem hcol _), hnoAck,
    raidCollectorRole, recvs_rcvRest, recvs_map_snd, ← sum_map_ite_singleton]
  simp

theorem raidRoles_served_parity (hv : ValidUpd conf updBlkVec) (hcol : col ∈ updBlkVec) {i : Nat}
    (hi : i < conf.ecM) (c : Chan) :
    ((raidRoles conf newData rsEncMat updBlkVec σ col).map fun q =>
        sends (parityNode conf i) c q.body).sum =
      recvs c (raidParityRole conf newData rsEncMat updBlkVec σ col i).body := by
  have hne := hv.dataNode_ne_parityNode hcol i
  rw [sum_sends_raidRoles, sum_map_eq_zero (by simp [hne]),
    sends_map_of_mem (parityNodes_nodup _ List.nodup_range) (List.mem_range.2 hi),
    sum_map_eq_zero (by simp)]
  simp [raidParityRole, recvs]

theorem raidRoles_nodup (hv : ValidUpd conf updBlkVec) (hcol : col ∈ updBlkVec) :
    ((raidRoles conf newData rsEncMat updBlkVec σ col).map Role.host).Nodup := by
  have hhosts : (raidRoles conf newData rsEncMat updBlkVec σ col).map Role.host =
      (raidOthers updBlkVec col).map dataNode ++
        (dataNode col :: (List.range conf.ecM).map (parityNode conf)) := by
    simp [raidRoles, Function.comp_def, raidParityRole, raidDataRole, raidCollectorRole]
  rw [hhosts, List.nodup_append, List.nodup_cons]
  refine ⟨hv.dataNodes_nodup.sublist (List.filter_sublist.map _),
    ⟨hv.dataNode_not_mem hcol _, parityNodes_nodup _ List.nodup_range⟩, fun h hh h' hh' heq => ?_⟩
  obtain ⟨b, hb, rfl⟩ := List.mem_map.1 hh
  obtain ⟨hb, hid⟩ := mem_raidOthers.1 hb
  rcases List.mem_cons.1 hh' with rfl | hh'
  · exact hid (Host.node.inj heq)
  · exact hv.dataNode_not_mem hb _ (heq ▸ hh')

/-! ## What each role keeps to -/

theorem raidDataRole_fits (hv : ValidUpd conf updBlkVec) (hcol : col ∈ updBlkVec) {b : UpdBlock}
    (hb : b ∈ raidOthers updBlkVec col) :
    (raidDataRole conf newData σ col b).Fits (network conf rsEncMat newData stripes) σ
      (chanRank col.id) (hostDepth conf col.id) := by
  obtain ⟨hb, hid⟩ := mem_raidOthers.1 hb
  have hlt := (hv.mem_data b hb).2
  have hlt' := (hv.mem_data col hcol).2
  refine fits_dataRole (by decide) ?_ (follows_task1 b.id)
  simp [hostDepth, dataNode, hid, not_le.2 hlt, not_le.2 hlt']

theorem raidCollectorRole_fits (hm : 0 < conf.ecM) (hv : ValidUpd conf updBlkVec)
    (hcol : col ∈ updBlkVec) :
    (raidCollectorRole conf newData rsEncMat updBlkVec σ col).Fits
      (network conf rsEncMat newData stripes) σ (chanRank col.id) (hostDepth conf col.id) where
  root_ne := dataNode_ne_coordinator col
  once := by
    have hsnd := recvs_map_snd (List.range conf.ecM) (parityNode conf) Chan.raidData
      (raidParityMsg conf newData rsEncMat updBlkVec σ col.id)
    refine ⟨?_, once_rcvRest _ (hsnd _) (once_map_snd _ _ _ _)⟩
    simp [raidCollectorRole, recvs_rcvRest, hsnd, network]
  jobless := fun h => by
    have hne : Chan.raidData ≠ Chan.updCmds := by decide
    rw [raidCollectorRole, sends_rcvRest]
    exact sends_map_of_chan_ne _ _ _ hne h
  plays := follows_task2 hm hv.nodup (List.mem_map_of_mem hcol)
  rank_pos := fun h c m hmem => by
    obtain ⟨i, _, heq⟩ := List.mem_map.1 (snd_mem_rcvRest.1 hmem)
    cases heq
    exact chanRank_pos _ _ (by decide)
  ranked := by
    refine ranked_rcvRest _ (fun dst c m hmem => ?_) (ranked_map_snd _ _ _ _ _ _)
    obtain ⟨i, _, heq⟩ := List.mem_map.1 hmem
    cases heq
    have hne := hv.dataNode_ne_parityNode hcol i
    have hne' : parityNode conf i ≠ .node col.id := fun h => hne h.symm
    simp [chanRank, raidCollectorRole, dataNode, hne']
  closing := by
    refine closing_rcvRest _ _ (by simpa using hm.ne') (closing_map_snd _ _ fun i _ => ?_)
    rw [hostDepth_parityNode]
    exact hv.one_lt_hostDepth hcol col.id

theorem raidParityRole_fits (i : Nat) :
    (raidParityRole conf newData rsEncMat updBlkVec σ col i).Fits
      (network conf rsEncMat newData stripes) σ (chanRank col.id) (hostDepth conf col.id) :=
  fits_parityRole (by decide) (by decide) (List.cons_ne_nil _ _)
    (follows_task3 newData (parityId conf i))

variable (stripes) in
theorem raidRoles_fits (hm : 0 < conf.ecM) (hv : ValidUpd conf updBlkVec) (hcol : col ∈ updBlkVec)
    (r : Role Host Chan RedisStr NodeState)
    (hr : r ∈ raidRoles conf newData rsEncMat updBlkVec σ col) :
    r.Fits (network conf rsEncMat newData stripes) σ (chanRank col.id)
      (hostDepth conf col.id) := by
  rcases mem_raidRoles.1 hr with ⟨b, hb, rfl⟩ | rfl | ⟨i, _, rfl⟩
  · exact raidDataRole_fits hv hcol hb
  · exact raidCollectorRole_fits hm hv hcol
  · exact raidParityRole_fits i

theorem raidRoles_inside (r : Role Host Chan RedisStr NodeState)
    (hr : r ∈ raidRoles conf newData rsEncMat updBlkVec σ col) (h : Host) (c : Chan) (m : RedisStr)
    (hmem : .snd h c m ∈ r.body) :
    h = .coordinator ∨ ∃ r' ∈ raidRoles conf newData rsEncMat updBlkVec σ col, r'.host = h := by
  rcases mem_raidRoles.1 hr with ⟨b, _, rfl⟩ | rfl | ⟨i, _, rfl⟩
  · simp only [raidDataRole, List.mem_singleton, Act.snd.injEq] at hmem
    exact Or.inr ⟨_, mem_raidRoles.2 (Or.inr (Or.inl rfl)), hmem.1.symm⟩
  · obtain ⟨i, hi, heq⟩ := List.mem_map.1 (snd_mem_rcvRest.1 hmem)
    cases heq
    exact Or.inr ⟨_, mem_raidRoles.2 (Or.inr (Or.inr ⟨i, List.mem_range.1 hi, rfl⟩)), rfl⟩
  · simp only [raidParityRole, List.mem_cons, reduceCtorEq, Act.snd.injEq, List.not_mem_nil,
      or_false, false_or] at hmem
    exact Or.inl hmem.1

theorem raidRoles_served (hv : ValidUpd conf updBlkVec) (hcol : col ∈ updBlkVec)
    (r : Role Host Chan RedisStr NodeState)
    (hr : r ∈ raidRoles conf newData rsEncMat updBlkVec σ col) (c : Chan) :
    ((raidRoles conf newData rsEncMat updBlkVec σ col).map fun q => sends r.host c q.body).sum =
      recvs c r.body := by
  rcases mem_raidRoles.1 hr with ⟨b, hb, rfl⟩ | rfl | ⟨i, hi, rfl⟩
  · exact raidRoles_served_data hv hb c
  · exact raidRoles_served_collector hv hcol c
  · exact raidRoles_served_parity hv hcol hi c

/-- The round of a stripe under the RAID policy with collector `col`. -/
def raidCast (hm : 0 < conf.ecM) (hv : ValidUpd conf updBlkVec) (hcol : col ∈ updBlkVec) :
    Cast (network conf rsEncMat newData stripes) σ where
  roles := raidRoles conf newData rsEncMat updBlkVec σ col
  ack := .ack
  acks := acks conf
  rank := chanRank col.id
  depth := hostDepth conf col.id
  nodup := raidRoles_nodup hv hcol
  root_ne := fun r hr => (raidRoles_fits stripes hm hv hcol r hr).root_ne
  ack_ne := ack_ne_job rsEncMat newData stripes
  acks_ne := acks_ne_nil hm
  once := fun r hr => (raidRoles_fits stripes hm hv hcol r hr).once
  jobless := fun r hr => (raidRoles_fits stripes hm hv hcol r hr).jobless
  inside := raidRoles_inside
  acked := raidRoles_acked
  served := raidRoles_served hv hcol
  plays := fun r hr => (raidRoles_fits stripes hm hv hcol r hr).plays
  rank_job := fun _ => rfl
  rank_pos := fun r hr => (raidRoles_fits stripes hm hv hcol r hr).rank_pos
  ranked := fun r hr => (raidRoles_fits stripes hm hv hcol r hr).ranked
  closing := fun r hr => (raidRoles_fits stripes hm hv hcol r hr).closing

end Cast

end CoRD
