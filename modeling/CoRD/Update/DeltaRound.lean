import CoRD.Util.Keyed
import CoRD.Update.Stripe

/-!
# DeltaRound — a stripe under the delta policy

Every updated data node sends what it calls a parity delta to every parity node (task 4); the parity
node adds up what it receives (task 5).
-/

namespace CoRD

open MsgNet

variable {conf : Config} {newData : Int → Buf} {rsEncMat : Int → Int} {stripes : List Stripe}

/-! ## The parity node -/

/-- A received parity delta at the place task 5 gives it. -/
def deltaPlaced (m : RedisStr) : Buf :=
  memcpy zeros (m.int 0) (m.data 8) (m.int 4 * 1024)

/-- The old parity with all received parity deltas. -/
def deltaAggre (ms : List RedisStr) (old : Buf) : Buf :=
  fun x => old x + (ms.map fun m => deltaPlaced m x).sum

theorem deltaAggre_perm {ms ms' : List RedisStr} (h : ms.Perm ms') (old : Buf) :
    deltaAggre ms old = deltaAggre ms' old := by
  funext x
  rw [deltaAggre, (h.map _).sum_eq]
  rfl

/-- What the receive loop leaves in the rows, summed at one byte. -/
theorem sum_foldl_placeDeltaData (ms : List RedisStr) (st : Nat × (Nat → Buf))
    (hrows : ∀ j, st.1 ≤ j → j < st.1 + ms.length → st.2 j = zeros) (x : Int) :
    ∑ j ∈ Finset.range (st.1 + ms.length), (ms.foldl placeDeltaData st).2 j x =
        ∑ j ∈ Finset.range st.1, st.2 j x + (ms.map fun m => deltaPlaced m x).sum ∧
      (ms.foldl placeDeltaData st).2 (st.1 + ms.length) = st.2 (st.1 + ms.length) := by
  induction ms generalizing st with
  | nil =>
      simp
  | cons m ms ih =>
      obtain ⟨c, rows⟩ := st
      simp only [List.length_cons] at hrows
      have hstep : placeDeltaData (c, rows) m =
          (c + 1, Function.update rows c (deltaPlaced m)) := by
        simp only [placeDeltaData, deltaPlaced]
        rw [hrows c le_rfl (by omega)]
      have hlen : c + (m :: ms).length = c + 1 + ms.length := by
        simp only [List.length_cons]
        omega
      have hrest : ∀ j, c + 1 ≤ j → j < c + 1 + ms.length →
          Function.update rows c (deltaPlaced m) j = zeros := by
        intro j hj hj'
        rw [Function.update_of_ne (by omega)]
        exact hrows j (by omega) (by omega)
      obtain ⟨hsum, hlast⟩ := ih (c + 1, Function.update rows c (deltaPlaced m)) hrest
      rw [List.foldl_cons, hstep, hlen]
      refine ⟨hsum.trans ?_, hlast.trans (Function.update_of_ne (by omega) _ _)⟩
      have hprev : ∑ j ∈ Finset.range c, Function.update rows c (deltaPlaced m) j x =
          ∑ j ∈ Finset.range c, rows j x := by
        refine Finset.sum_congr rfl fun j hj => ?_
        rw [Function.update_of_ne (Finset.mem_range.1 hj).ne]
      simp only [Finset.sum_range_succ, hprev, Function.update_self, List.map_cons, List.sum_cons,
        add_assoc]

/-- The new parity of task 5. -/
theorem newParity_eq_deltaAggre {ms : List RedisStr} {σ : NodeState} {blk x : Int} (h0 : 0 ≤ x)
    (hx : x < conf.blocksize * 1024) :
    jerasureMatrixEncode (ms.length + 1) 1 (fun _ => 1)
        (ms.foldl placeDeltaData (0, Function.update (fun _ => zeros) ms.length
          (readDataFromDisk σ blk zeros (conf.blocksize * 1024) 0))).2
        (fun _ => zeros) (conf.blocksize * 1024) 0 x =
      deltaAggre ms (σ.disk blk) x := by
  have hrows : ∀ rows : Nat → Buf, (∀ j, j < ms.length → rows j = zeros) →
      ∑ j ∈ Finset.range (ms.length + 1), (ms.foldl placeDeltaData (0, rows)).2 j x =
        rows ms.length x + (ms.map fun m => deltaPlaced m x).sum := by
    intro rows hz
    obtain ⟨hsum, hlast⟩ := sum_foldl_placeDeltaData ms (0, rows)
      (fun j _ hj => hz j (by simpa using hj)) x
    rw [Nat.zero_add] at hsum hlast
    rw [Finset.sum_range_succ, hsum, hlast]
    simp [add_comm]
  rw [jerasureMatrixEncode_ones h0 hx, hrows _ fun j hj => Function.update_of_ne hj.ne _ _,
    Function.update_self, readDataFromDisk_apply h0 hx, zero_add, deltaAggre]

theorem doProcess_task5 (loc : Int) (fields : List Int) :
    doProcess conf newData loc (mkCmd 5 fields) =
      recvParityDeltaAndAggreForDelta conf (mkCmd 5 fields) (4 * (fields.length + 2)) := by
  simp [doProcess]

theorem follows_task5 {loc blk : Int} {σ : NodeState} {ms : List RedisStr} (hne : ms ≠ []) :
    Follows (EndsIn (writeDataToDisk σ blk (deltaAggre ms (σ.disk blk)) conf.blocksize 0))
      (doProcess conf newData loc (mkCmd 5 [(ms.length : Int), blk])) σ
      [.rcv .deltaData ms, .snd .coordinator .ack ackStr] := by
  rw [doProcess_task5, recvParityDeltaAndAggreForDelta, if_neg (by simp)]
  have hnum : ((mkCmd 5 [(ms.length : Int), blk]).int 8).toNat = ms.length := Int.toNat_natCast _
  have hblk : (mkCmd 5 [(ms.length : Int), blk]).int 12 = blk := rfl
  simp only [hnum, hblk]
  refine follows_popUntil _ _ _ ms _ rfl hne fun l hl => ?_
  refine ⟨_, rfl, rfl, ?_⟩
  refine writeDataToDisk_congr σ blk 0 fun x h0 hx => ?_
  rw [← hl.length_eq, newParity_eq_deltaAggre h0 (by omega), deltaAggre_perm hl]

/-! ## The data node -/

/-- What a data node pushes to parity node `i`; the payload is what its memory holds. -/
def deltaMsg (σ : Host → NodeState) (i : Nat) (b : UpdBlock) : RedisStr :=
  { ints := [b.offsetAdd, b.updSize]
    bytes := bytesOf ((σ (dataNode b)).heap i) (b.updSize * 1024) }

theorem doProcess_task4 (loc : Int) (fields : List Int) :
    doProcess conf newData loc (mkCmd 4 fields) =
      sendParityDeltaToEachParityForDelta conf newData (mkCmd 4 fields)
        (4 * (fields.length + 2)) := by
  simp [doProcess]

/-- Task 4 with its command read. -/
theorem doProcess_deltaDataCmd (loc : Int) (b : UpdBlock) :
    doProcess conf newData loc (deltaDataCmd conf rsEncMat b) =
      .load fun σ =>
        .sendAll ((List.range conf.ecM).map fun i =>
          (parityNode conf i, .deltaData,
            ⟨[b.offsetAdd, b.updSize], bytesOf (σ.heap i) (b.updSize * 1024)⟩)) <|
        .save ((writeDataToDisk σ b.id (newData b.id) (b.updSize * 1024)
          (b.offsetAdd * 1024)).takeHeap conf.ecM) .done := by
  have hid : (deltaDataCmd conf rsEncMat b).int 8 = b.id := rfl
  have hoff : (deltaDataCmd conf rsEncMat b).int 12 = b.offsetAdd := rfl
  have hsize : (deltaDataCmd conf rsEncMat b).int 16 = b.updSize := rfl
  have hparity : (deltaDataCmd conf rsEncMat b).readInts (20 + 4 * conf.ecM) conf.ecM =
      parityIds conf := by
    have hat := (mkCmd_fields 4 (b.id :: b.offsetAdd :: b.updSize ::
      (coffs conf rsEncMat b.id ++ parityIds conf))).tail.tail.tail.append
    rw [coffs_length, ← List.append_nil (parityIds conf)] at hat
    simpa [deltaDataCmd] using hat.readInts
  have hlen : 20 + 4 * (conf.ecM : Int) + 4 * conf.ecM =
      4 * (((b.id :: b.offsetAdd :: b.updSize ::
        (coffs conf rsEncMat b.id ++ parityIds conf)).length : Int) + 2) := by
    simp only [List.length_cons, List.length_append, coffs_length, parityIds_length, Nat.cast_add,
      Nat.cast_one]
    omega
  rw [deltaDataCmd, doProcess_task4, ← deltaDataCmd, sendParityDeltaToEachParityForDelta,
    if_neg (not_not_intro hlen)]
  simp only [hid, hoff, hsize, hparity]
  refine congrArg Proc.load (funext fun σ => ?_)
  congr 1
  refine List.map_congr_left fun i hi => ?_
  rw [parityIds_getD (List.mem_range.1 hi)]

/-- The data node after task 4. -/
def deltaDataFinal (conf : Config) (newData : Int → Buf) (σ : NodeState) (b : UpdBlock) :
    NodeState :=
  (writeDataToDisk σ b.id (newData b.id) (b.updSize * 1024) (b.offsetAdd * 1024)).takeHeap conf.ecM

theorem follows_task4 {σ : Host → NodeState} (b : UpdBlock) :
    Follows (EndsIn (deltaDataFinal conf newData (σ (dataNode b)) b))
      (doProcess conf newData b.id (deltaDataCmd conf rsEncMat b)) (σ (dataNode b))
      ((List.range conf.ecM).map fun i =>
        .snd (parityNode conf i) .deltaData (deltaMsg σ i b)) := by
  rw [doProcess_deltaDataCmd]
  have hdone : Follows (EndsIn (deltaDataFinal conf newData (σ (dataNode b)) b))
      (.save (deltaDataFinal conf newData (σ (dataNode b)) b) .done : Prog) (σ (dataNode b))
      ([] : List (Act Host Chan RedisStr)) := ⟨rfl, rfl⟩
  have hall := follows_sendAll_nil
    ((List.range conf.ecM).map fun i => (parityNode conf i, Chan.deltaData, deltaMsg σ i b)) hdone
  rw [List.map_map] at hall
  exact hall

/-! ## The cast -/

section Cast

variable (conf newData rsEncMat) (updBlkVec : List UpdBlock) (σ : Host → NodeState)

def deltaParityRole (i : Nat) : Role Host Chan RedisStr NodeState :=
  let blkId : Int := parityId conf i
  let ms := updBlkVec.map (deltaMsg σ i)
  { host := parityNode conf i
    cmd := mkCmd 5 [(updBlkVec.length : Int), blkId]
    body := [.rcv .deltaData ms, .snd .coordinator .ack ackStr]
    final := writeDataToDisk (σ (parityNode conf i)) blkId
      (deltaAggre ms ((σ (parityNode conf i)).disk blkId)) conf.blocksize 0 }

def deltaDataRole (b : UpdBlock) : Role Host Chan RedisStr NodeState :=
  { host := dataNode b
    cmd := deltaDataCmd conf rsEncMat b
    body := (List.range conf.ecM).map fun i => .snd (parityNode conf i) .deltaData (deltaMsg σ i b)
    final := deltaDataFinal conf newData (σ (dataNode b)) b }

def deltaRoles : List (Role Host Chan RedisStr NodeState) :=
  (List.range conf.ecM).map (deltaParityRole conf updBlkVec σ) ++
    updBlkVec.map (deltaDataRole conf newData rsEncMat σ)

variable {conf newData rsEncMat updBlkVec σ}

theorem mem_deltaRoles {r : Role Host Chan RedisStr NodeState} :
    r ∈ deltaRoles conf newData rsEncMat updBlkVec σ ↔
      (∃ i < conf.ecM, r = deltaParityRole conf updBlkVec σ i) ∨
        ∃ b ∈ updBlkVec, r = deltaDataRole conf newData rsEncMat σ b := by
  simp [deltaRoles, eq_comm]

/-- What all nodes send to one mailbox. -/
theorem sum_sends_deltaRoles (h : Host) (c : Chan) :
    ((deltaRoles conf newData rsEncMat updBlkVec σ).map fun q => sends h c q.body).sum =
      ((List.range conf.ecM).map fun _ =>
        if Host.coordinator = h ∧ Chan.ack = c then ({ackStr} : Multiset RedisStr) else 0).sum +
      (updBlkVec.map fun b => sends h c (deltaDataRole conf newData rsEncMat σ b).body).sum := by
  simp [deltaRoles, Function.comp_def, deltaParityRole, sends]

theorem deltaRoles_acked (c : Chan) :
    ((deltaRoles conf newData rsEncMat updBlkVec σ).map fun q =>
        sends Host.coordinator c q.body).sum =
      if Chan.ack = c then (acks conf : Multiset RedisStr) else 0 := by
  have hdata : (updBlkVec.map fun b =>
      sends Host.coordinator c (deltaDataRole conf newData rsEncMat σ b).body).sum = 0 :=
    sum_map_eq_zero fun b _ => sends_map_of_not_mem (by simp) c
  have hacks : (List.range conf.ecM).map (fun _ => ackStr) = acks conf := by
    simp [acks, List.map_const']
  rw [sum_sends_deltaRoles, hdata, add_zero, ← hacks, ← sum_map_ite_singleton]
  simp

theorem deltaRoles_served_parity {i : Nat} (hi : i < conf.ecM) (c : Chan) :
    ((deltaRoles conf newData rsEncMat updBlkVec σ).map fun q =>
        sends (parityNode conf i) c q.body).sum =
      recvs c (deltaParityRole conf updBlkVec σ i).body := by
  have hdata : ∀ b, sends (parityNode conf i) c (deltaDataRole conf newData rsEncMat σ b).body =
      if Chan.deltaData = c then {deltaMsg σ i b} else 0 := fun b =>
    sends_map_of_mem (parityNodes_nodup _ List.nodup_range) (List.mem_range.2 hi) c
  rw [sum_sends_deltaRoles, sum_map_eq_zero (by simp)]
  simp only [hdata, sum_map_ite_singleton]
  simp [deltaParityRole, recvs]

theorem deltaRoles_served_data (hv : ValidUpd conf updBlkVec) {b : UpdBlock} (hb : b ∈ updBlkVec)
    (c : Chan) :
    ((deltaRoles conf newData rsEncMat updBlkVec σ).map fun q =>
        sends (dataNode b) c q.body).sum =
      recvs c (deltaDataRole conf newData rsEncMat σ b).body := by
  have hdata : (updBlkVec.map fun b' =>
      sends (dataNode b) c (deltaDataRole conf newData rsEncMat σ b').body).sum = 0 :=
    sum_map_eq_zero fun b' _ => sends_map_of_not_mem (hv.dataNode_not_mem hb _) c
  rw [sum_sends_deltaRoles, sum_map_eq_zero (by simp [Ne.symm]), hdata, deltaDataRole,
    recvs_map_snd]
  rfl

theorem deltaRoles_nodup (hv : ValidUpd conf updBlkVec) :
    ((deltaRoles conf newData rsEncMat updBlkVec σ).map Role.host).Nodup := by
  have hhosts : (deltaRoles conf newData rsEncMat updBlkVec σ).map Role.host =
      (List.range conf.ecM).map (parityNode conf) ++ updBlkVec.map dataNode := by
    simp [deltaRoles, Function.comp_def, deltaParityRole, deltaDataRole]
  rw [hhosts, List.nodup_append]
  refine ⟨parityNodes_nodup _ List.nodup_range, hv.dataNodes_nodup, fun h hh h' hh' heq => ?_⟩
  rcases List.mem_map.1 hh with ⟨i, _, rfl⟩
  exact hv.parityNode_not_mem i (heq ▸ hh')

/-! ## What each role keeps to -/

theorem deltaParityRole_fits (hne : updBlkVec ≠ []) (i : Nat) :
    (deltaParityRole conf updBlkVec σ i).Fits (network conf rsEncMat newData stripes) σ (chanRank 0)
      (hostDepth conf 0) := by
  have hmsgs : updBlkVec.map (deltaMsg σ i) ≠ [] := by simpa using hne
  have hplay : Follows (EndsIn (deltaParityRole conf updBlkVec σ i).final)
      (doProcess conf newData (parityId conf i)
        (mkCmd 5 [((updBlkVec.map (deltaMsg σ i)).length : Int), parityId conf i]))
      (σ (parityNode conf i)) (deltaParityRole conf updBlkVec σ i).body := follows_task5 hmsgs
  rw [List.length_map] at hplay
  exact fits_parityRole (by decide) (by decide) hmsgs hplay

theorem deltaDataRole_fits (hm : 0 < conf.ecM) (hv : ValidUpd conf updBlkVec) {b : UpdBlock}
    (hb : b ∈ updBlkVec) :
    (deltaDataRole conf newData rsEncMat σ b).Fits (network conf rsEncMat newData stripes) σ
      (chanRank 0) (hostDepth conf 0) where
  root_ne := dataNode_ne_coordinator b
  once := ⟨recvs_map_snd _ _ _ _ _, once_map_snd _ _ _ _⟩
  jobless := by
    have hne : Chan.deltaData ≠ Chan.updCmds := by decide
    exact sends_map_of_chan_ne _ _ _ hne
  plays := follows_task4 b
  rank_pos := fun h c m hmem => by
    rcases List.mem_map.1 hmem with ⟨i, _, heq⟩
    cases heq
    exact chanRank_pos _ _ (by decide)
  ranked := ranked_map_snd _ _ _ _ _ _
  closing := by
    refine ⟨by simpa [deltaDataRole] using hm.ne', closing_map_snd _ _ fun i _ => ?_⟩
    rw [hostDepth_parityNode]
    exact hv.one_lt_hostDepth hb 0

variable (stripes) in
theorem deltaRoles_fits (hm : 0 < conf.ecM) (hv : ValidUpd conf updBlkVec)
    (r : Role Host Chan RedisStr NodeState)
    (hr : r ∈ deltaRoles conf newData rsEncMat updBlkVec σ) :
    r.Fits (network conf rsEncMat newData stripes) σ (chanRank 0) (hostDepth conf 0) := by
  rcases mem_deltaRoles.1 hr with ⟨i, _, rfl⟩ | ⟨b, hb, rfl⟩
  · exact deltaParityRole_fits hv.ne_nil i
  · exact deltaDataRole_fits hm hv hb

theorem deltaRoles_inside (r : Role Host Chan RedisStr NodeState)
    (hr : r ∈ deltaRoles conf newData rsEncMat updBlkVec σ) (h : Host) (c : Chan) (m : RedisStr)
    (hmem : .snd h c m ∈ r.body) :
    h = .coordinator ∨ ∃ r' ∈ deltaRoles conf newData rsEncMat updBlkVec σ, r'.host = h := by
  rcases mem_deltaRoles.1 hr with ⟨i, _, rfl⟩ | ⟨b, _, rfl⟩
  · simp only [deltaParityRole, List.mem_cons, reduceCtorEq, Act.snd.injEq, List.not_mem_nil,
      or_false, false_or] at hmem
    exact Or.inl hmem.1
  · rcases List.mem_map.1 hmem with ⟨i, hi, heq⟩
    cases heq
    exact Or.inr ⟨_, mem_deltaRoles.2 (Or.inl ⟨i, List.mem_range.1 hi, rfl⟩), rfl⟩

theorem deltaRoles_served (hv : ValidUpd conf updBlkVec) (r : Role Host Chan RedisStr NodeState)
    (hr : r ∈ deltaRoles conf newData rsEncMat updBlkVec σ) (c : Chan) :
    ((deltaRoles conf newData rsEncMat updBlkVec σ).map fun q => sends r.host c q.body).sum =
      recvs c r.body := by
  rcases mem_deltaRoles.1 hr with ⟨i, hi, rfl⟩ | ⟨b, hb, rfl⟩
  · exact deltaRoles_served_parity hi c
  · exact deltaRoles_served_data hv hb c

/-- The round of a stripe under the delta policy. -/
def deltaCast (hm : 0 < conf.ecM) (hv : ValidUpd conf updBlkVec) :
    Cast (network conf rsEncMat newData stripes) σ where
  roles := deltaRoles conf newData rsEncMat updBlkVec σ
  ack := .ack
  acks := acks conf
  rank := chanRank 0
  depth := hostDepth conf 0
  nodup := deltaRoles_nodup hv
  root_ne := fun r hr => (deltaRoles_fits stripes hm hv r hr).root_ne
  ack_ne := ack_ne_job rsEncMat newData stripes
  acks_ne := acks_ne_nil hm
  once := fun r hr => (deltaRoles_fits stripes hm hv r hr).once
  jobless := fun r hr => (deltaRoles_fits stripes hm hv r hr).jobless
  inside := deltaRoles_inside
  acked := deltaRoles_acked
  served := deltaRoles_served hv
  plays := fun r hr => (deltaRoles_fits stripes hm hv r hr).plays
  rank_job := fun _ => rfl
  rank_pos := fun r hr => (deltaRoles_fits stripes hm hv r hr).rank_pos
  ranked := fun r hr => (deltaRoles_fits stripes hm hv r hr).ranked
  closing := fun r hr => (deltaRoles_fits stripes hm hv r hr).closing

end Cast

end CoRD
