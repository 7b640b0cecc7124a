import CoRD.Util.Keyed
import CoRD.Update.Stripe

/-!
# RaidTasks — what the nodes of a RAID update exchange

The collector reads the coefficients of its command into an ordered map (`readBlkCoffs_spec`), gives
every updated block the row of its position in that map, and encodes the rows (`raidDeltaBuffer`).
The sum over the rows is a sum over the update vector, whatever the order of the ids and of the
messages.
-/

namespace CoRD

open MsgNet

variable {conf : Config} {newData : Int → Buf} {rsEncMat : Int → Int}

/-! ## Reading the command -/

theorem pushCoffs_spec {cmd : RedisStr} (blkId : Int) (l : List Int) {cur : Int} {rest : List Int}
    (hat : cmd.At cur (l ++ rest)) (M : Std.TreeMap Int (List Int)) :
    let st := pushCoffs cmd blkId l.length cur M
    (∀ j, st.1[j]? = if j = blkId ∧ l ≠ [] then some (M.getD blkId [] ++ l) else M[j]?) ∧
      cmd.At st.2 rest ∧ st.2 = cur + 4 * l.length := by
  induction l generalizing cur M with
  | nil =>
      exact ⟨fun j => by simp [pushCoffs], hat, by simp [pushCoffs]⟩
  | cons x l ih =>
      have hx : cmd.int cur = x := hat.int
      obtain ⟨hget, hrest, hcur⟩ := ih hat.tail (M.insert blkId (M.getD blkId [] ++ [x]))
      simp only [pushCoffs, List.length_cons, hx]
      refine ⟨fun j => ?_, hrest, ?_⟩
      · rw [hget j, Std.TreeMap.getElem?_insert]
        by_cases hj : j = blkId
        · subst hj
          cases l with
          | nil =>
              simp
          | cons y l =>
              simp
        · have hne : ¬ compare blkId j = .eq := fun h => hj (Std.LawfulEqCmp.eq_of_compare h).symm
          simp [hj, hne]
      · rw [hcur]
        push_cast
        omega

/-- The map and the cursor behind the updated blocks of a command of task 2. -/
theorem readBlkCoffs_spec {cmd : RedisStr} (hm : 0 < conf.ecM) (U : List UpdBlock) {cur : Int}
    {rest : List Int}
    (hat : cmd.At cur (U.flatMap (fun b => b.id :: coffs conf rsEncMat b.id) ++ rest))
    (hnodup : (U.map UpdBlock.id).Nodup) (M : Std.TreeMap Int (List Int))
    (hfresh : ∀ b ∈ U, M[b.id]? = none) :
    let st := readBlkCoffs cmd conf.ecM U.length cur M
    (∀ j, st.1[j]? = if j ∈ U.map UpdBlock.id then some (coffs conf rsEncMat j) else M[j]?) ∧
      cmd.At st.2 rest ∧ st.2 = cur + U.length * (4 + 4 * conf.ecM) := by
  -- on the blocks: each reads its id and its coefficients and moves the cursor
  induction U generalizing cur M with
  | nil =>
      exact ⟨fun j => by simp [readBlkCoffs], hat, by simp [readBlkCoffs]⟩
  | cons b U ih =>
      rw [List.map_cons, List.nodup_cons] at hnodup
      rw [List.flatMap_cons, List.append_assoc, List.cons_append] at hat
      have hid : cmd.int cur = b.id := hat.int
      obtain ⟨hpush, hat', hcur'⟩ := pushCoffs_spec b.id _ hat.tail M
      rw [coffs_length] at hpush hat' hcur'
      have hfresh' : ∀ b' ∈ U, (pushCoffs cmd b.id conf.ecM (cur + 4) M).1[b'.id]? = none := by
        intro b' hb'
        have hne : b'.id ≠ b.id := fun h => hnodup.1 (h ▸ List.mem_map_of_mem hb')
        rw [hpush, if_neg fun h => hne h.1]
        exact hfresh b' (List.mem_cons_of_mem _ hb')
      obtain ⟨hget, hrest, hcur⟩ := ih hat' hnodup.2 _ hfresh'
      simp only [readBlkCoffs, List.length_cons, hid]
      refine ⟨fun j => ?_, hrest, ?_⟩
      · have hne : coffs conf rsEncMat b.id ≠ [] := by
          intro h
          have hlen : (coffs conf rsEncMat b.id).length = conf.ecM := coffs_length rsEncMat b.id
          rw [h] at hlen
          simp at hlen
          omega
        have hnil : M.getD b.id [] = [] := by
          rw [Std.TreeMap.getD_eq_getD_getElem?, hfresh b (by simp)]
          rfl
        rw [hget j, hpush j, hnil]
        by_cases hj : j ∈ U.map UpdBlock.id
        · simp [hj]
        · by_cases hjb : j = b.id
          · subst hjb
            simp [hj, hne]
          · simp [hj, hjb]
      · rw [hcur, hcur']
        push_cast
        ring

/-! ## The rows of the collector -/

/-- `M` holds the coefficients of just the blocks of `U`. -/
def IsCoffMap (conf : Config) (rsEncMat : Int → Int) (U : List UpdBlock)
    (M : Std.TreeMap Int (List Int)) : Prop :=
  ∀ j, M[j]? = if j ∈ U.map UpdBlock.id then some (coffs conf rsEncMat j) else none

namespace IsCoffMap

variable {U : List UpdBlock} {M : Std.TreeMap Int (List Int)}

theorem mem_keys (hM : IsCoffMap conf rsEncMat U M) {j : Int} :
    j ∈ M.keys ↔ j ∈ U.map UpdBlock.id := by
  rw [Std.TreeMap.mem_keys, Std.TreeMap.mem_iff_isSome_getElem?, hM j]
  by_cases hj : j ∈ U.map UpdBlock.id <;> simp [hj]

theorem keys_perm (hM : IsCoffMap conf rsEncMat U M) (hnodup : (U.map UpdBlock.id).Nodup) :
    M.keys.Perm (U.map UpdBlock.id) :=
  (List.perm_ext_iff_of_nodup Std.TreeMap.nodup_keys hnodup).2 fun _ => hM.mem_keys

theorem length_keys (hM : IsCoffMap conf rsEncMat U M) (hnodup : (U.map UpdBlock.id).Nodup) :
    M.keys.length = U.length := by
  rw [(hM.keys_perm hnodup).length_eq, List.length_map]

theorem mapLoc_of_mem (hM : IsCoffMap conf rsEncMat U M) {j : Int} (hj : j ∈ U.map UpdBlock.id) :
    mapLoc M j = some (M.keys.idxOf j) := by
  have hmem : j ∈ M.keys := hM.mem_keys.2 hj
  have hlt := List.idxOf_lt_length_of_mem hmem
  refine List.idxOf?_eq_some_iff.2 ⟨hlt, List.getElem_idxOf hlt, fun i hi heq => ?_⟩
  have hidx := (Std.TreeMap.nodup_keys (t := M)).idxOf_getElem i (by omega)
  rw [heq] at hidx
  omega

/-- The values of the map in the order of its keys. -/
theorem map_toList (hM : IsCoffMap conf rsEncMat U M) {β : Type} (f : List Int → β) :
    M.toList.map (fun it => f it.2) = M.keys.map fun j => f (coffs conf rsEncMat j) := by
  rw [← Std.TreeMap.map_fst_toList_eq_keys, List.map_map]
  refine List.map_congr_left fun it hit => ?_
  have hget := Std.TreeMap.mem_toList_iff_getElem?_eq_some.1 hit
  rw [hM it.1] at hget
  by_cases hj : it.1 ∈ U.map UpdBlock.id
  · rw [if_pos hj] at hget
    rw [← Option.some.inj hget]
    rfl
  · rw [if_neg hj] at hget
    cases hget

end IsCoffMap

/-- A row of the parity delta at one byte: `operand j` is the byte of block `j` the collector
holds. -/
theorem raidDeltaBuffer_apply {U : List UpdBlock} {M : Std.TreeMap Int (List Int)}
    (hM : IsCoffMap conf rsEncMat U M) (hnodup : (U.map UpdBlock.id).Nodup)
    {heap buffer : Nat → Buf} {x : Int} (operand : Int → GF256)
    (hbuf : ∀ j, j < U.length → buffer j x = operand (M.keys.getD j 0)) {r : Nat}
    (hr : r < conf.ecM) (h0 : 0 ≤ x) (hx : x < conf.blocksize * 1024) :
    raidDeltaBuffer conf U.length M heap buffer r x =
      if ∀ b ∈ U, rsEncMat (r * conf.ecK + b.id) = 0 then heap r x
      else (U.map fun b => GF256.ofInt (rsEncMat (r * conf.ecK + b.id)) * operand b.id).sum := by
  have hlen := hM.length_keys hnodup
  have hperm := hM.keys_perm hnodup
  -- The coefficient of position `j` in row `r` is that of the `j`-th key.
  have hcoff : ∀ j, j < U.length →
      ((List.range conf.ecM).flatMap fun i => M.toList.map fun it => it.2.getD i 0).getD
        (r * U.length + j) 0 = rsEncMat (r * conf.ecK + M.keys.getD j 0) := by
    intro j hj
    have hrows : ∀ i, (M.toList.map fun it => it.2.getD i 0).length = U.length := by
      intro i
      rw [hM.map_toList fun l => l.getD i 0, List.length_map, hlen]
    rw [Keyed.getD_flatMap_rows hrows hr hj, hM.map_toList fun l => l.getD r 0]
    have hj' : j < M.keys.length := by omega
    simp only [List.getD_eq_getElem?_getD, List.getElem?_map, List.getElem?_eq_getElem hj',
      Option.map_some, Option.getD_some]
    rw [← List.getD_eq_getElem?_getD, coffs_getD hr]
  have hzero : (∀ j < U.length,
      ((List.range conf.ecM).flatMap fun i => M.toList.map fun it => it.2.getD i 0).getD
        (r * U.length + j) 0 = 0) ↔ ∀ b ∈ U, rsEncMat (r * conf.ecK + b.id) = 0 := by
    constructor
    · intro hz b hb
      have hmem : b.id ∈ M.keys := hM.mem_keys.2 (List.mem_map_of_mem hb)
      obtain ⟨j, hj, hget⟩ := List.getElem_of_mem hmem
      have hj' : j < U.length := by omega
      have hkey : M.keys.getD j 0 = b.id := by rw [List.getD_eq_getElem _ _ hj, hget]
      have hrow := hz j hj'
      rwa [hcoff j hj', hkey] at hrow
    · intro hz j hj
      have hj' : j < M.keys.length := by omega
      have hmem : M.keys[j] ∈ U.map UpdBlock.id := hperm.mem_iff.1 (List.getElem_mem hj')
      obtain ⟨b, hb, hid⟩ := List.mem_map.1 hmem
      rw [hcoff j hj, List.getD_eq_getElem _ _ hj', ← hid]
      exact hz b hb
  have hsum : ∑ j ∈ Finset.range U.length,
      GF256.ofInt (((List.range conf.ecM).flatMap fun i => M.toList.map fun it =>
        it.2.getD i 0).getD (r * U.length + j) 0) * buffer j x =
      (U.map fun b => GF256.ofInt (rsEncMat (r * conf.ecK + b.id)) * operand b.id).sum := by
    have hkeys := Keyed.sum_range_getD
      (fun j => GF256.ofInt (rsEncMat (r * conf.ecK + j)) * operand j) 0 M.keys
    rw [(hperm.map _).sum_eq, List.map_map, hlen] at hkeys
    refine Eq.trans (Finset.sum_congr rfl fun j hj => ?_) hkeys
    have hj' := Finset.mem_range.1 hj
    rw [hcoff j hj', hbuf j hj']
  rw [raidDeltaBuffer, jerasureMatrixEncode_apply h0 hx hr, hsum]
  by_cases hz : ∀ b ∈ U, rsEncMat (r * conf.ecK + b.id) = 0
  · rw [if_pos hz, if_pos (hzero.2 hz)]
  · rw [if_neg hz, if_neg (fun h => hz (hzero.1 h))]

/-! ## The messages -/

variable (conf newData rsEncMat) (U : List UpdBlock) (σ : Host → NodeState) (colId : Int)

/-- What the node of block `id` sends to the collector. -/
def raidDelta (id : Int) : Buf :=
  fun x => (σ (.node id)).disk id x + newData id x

def raidDataMsg (id : Int) : RedisStr :=
  { ints := [id], bytes := bytesOf (raidDelta newData σ id) (conf.blocksize * 1024) }

/-- What the collector encodes for block `id`: its own block as it is, of the others the delta. -/
def raidOperand (id : Int) : Buf :=
  if id = colId then (σ (.node id)).disk id else raidDelta newData σ id

/-- Row `r` of the parity delta of the collector. -/
def raidParity (r : Nat) : Buf := fun x =>
  if ∀ b ∈ U, rsEncMat (r * conf.ecK + b.id) = 0 then (σ (.node colId)).heap r x
  else (U.map fun b =>
    GF256.ofInt (rsEncMat (r * conf.ecK + b.id)) * raidOperand newData σ colId b.id x).sum

/-- What the collector sends to parity node `i`: the rows go out in reverse. -/
def raidParityMsg (i : Nat) : RedisStr :=
  { ints := []
    bytes := bytesOf (raidParity conf newData rsEncMat U σ colId (conf.ecM - 1 - i))
      (conf.blocksize * 1024) }

variable {conf newData rsEncMat U σ colId}

/-! ## The receive loop of the collector -/

theorem foldlM_placeRaidData {M : Std.TreeMap Int (List Int)}
    (hM : IsCoffMap conf rsEncMat U M) (l : List RedisStr)
    (hl : ∀ m ∈ l, m.int 0 ∈ U.map UpdBlock.id) (buffer : Nat → Buf) :
    l.foldlM (placeRaidData conf M) buffer =
      .ok (Keyed.writeAll (fun m => M.keys.idxOf (m.int 0))
        (fun m old => memcpy old 0 (m.data 4) (conf.blocksize * 1024)) l buffer) := by
  induction l generalizing buffer with
  | nil =>
      rfl
  | cons m l ih =>
      have hm := hM.mapLoc_of_mem (hl m (by simp))
      rw [List.foldlM_cons, placeRaidData, hm]
      exact ih (fun m' hm' => hl m' (List.mem_cons_of_mem _ hm')) _

/-- The rows of the collector once it has received the messages `l`. -/
def raidBuffer (conf : Config) (M : Std.TreeMap Int (List Int)) (σ : NodeState) (colId : Int)
    (l : List RedisStr) : Nat → Buf :=
  Keyed.writeAll (fun m => M.keys.idxOf (m.int 0))
    (fun m old => memcpy old 0 (m.data 4) (conf.blocksize * 1024)) l
    (Function.update (fun _ => zeros) (M.keys.idxOf colId)
      (readDataFromDisk σ colId zeros (conf.blocksize * 1024) 0))

theorem foldlM_raidBuffer {M : Std.TreeMap Int (List Int)} (hM : IsCoffMap conf rsEncMat U M)
    {l : List RedisStr} (hl : ∀ m ∈ l, m.int 0 ∈ U.map UpdBlock.id) (τ : NodeState) :
    l.foldlM (placeRaidData conf M) (Function.update (fun _ => zeros) (M.keys.idxOf colId)
      (readDataFromDisk τ colId zeros (conf.blocksize * 1024) 0)) =
      .ok (raidBuffer conf M τ colId l) :=
  foldlM_placeRaidData hM l hl _

/-- They hold what the collector encodes. -/
theorem raidBuffer_apply {M : Std.TreeMap Int (List Int)} (hM : IsCoffMap conf rsEncMat U M)
    (hnodup : (U.map UpdBlock.id).Nodup) {l : List RedisStr}
    (hl : l.Perm ((U.filter fun b => b.id ≠ colId).map fun b => raidDataMsg conf newData σ b.id))
    {x : Int} (h0 : 0 ≤ x) (hx : x < conf.blocksize * 1024) {j : Nat} (hj : j < U.length) :
    raidBuffer conf M (σ (.node colId)) colId l j x =
      raidOperand newData σ colId (M.keys.getD j 0) x := by
  have hj' : j < M.keys.length := by rw [hM.length_keys hnodup]; exact hj
  have hidx : M.keys.idxOf (M.keys.getD j 0) = j := by
    rw [List.getD_eq_getElem _ _ hj']
    exact (Std.TreeMap.nodup_keys (t := M)).idxOf_getElem j hj'
  have hmem : M.keys.getD j 0 ∈ U.map UpdBlock.id := by
    rw [List.getD_eq_getElem _ _ hj']
    exact hM.mem_keys.1 (List.getElem_mem hj')
  generalize M.keys.getD j 0 = id at *
  subst hidx
  have hinj : ∀ {i i' : Int}, i ∈ U.map UpdBlock.id → M.keys.idxOf i = M.keys.idxOf i' → i = i' :=
    fun hi heq => (List.idxOf_inj (hM.mem_keys.2 hi)).1 heq
  -- each sender writes a slot of its own
  have hkeys : (l.map fun m => M.keys.idxOf (m.int 0)).Nodup := by
    rw [(hl.map _).nodup_iff, List.map_map]
    have hothers : ((U.filter fun b => b.id ≠ colId).map UpdBlock.id).Nodup :=
      hnodup.sublist (List.filter_sublist.map _)
    refine List.Nodup.map_on (fun b hb b' hb' heq => ?_) hothers.of_map
    have hid := hinj (List.mem_map_of_mem (List.mem_of_mem_filter hb)) heq
    exact List.inj_on_of_nodup_map hnodup (List.mem_of_mem_filter hb)
      (List.mem_of_mem_filter hb') hid
  by_cases hid : id = colId
  · -- The row of the collector itself is not received.
    subst hid
    have hnot : M.keys.idxOf id ∉ l.map fun m => M.keys.idxOf (m.int 0) := by
      rw [(hl.map _).mem_iff, List.map_map]
      intro h
      obtain ⟨b, hb, heq⟩ := List.mem_map.1 h
      have hb' := List.mem_filter.1 hb
      have hid := hinj (List.mem_map_of_mem hb'.1) heq
      simp [hid] at hb'
    rw [raidBuffer, Keyed.writeAll_of_not_mem hnot, Function.update_self, readDataFromDisk_apply h0 hx,
      zero_add, raidOperand, if_pos rfl]
  · obtain ⟨b, hb, rfl⟩ := List.mem_map.1 hmem
    have hin : raidDataMsg conf newData σ b.id ∈ l :=
      hl.mem_iff.2 (List.mem_map_of_mem (List.mem_filter.2 ⟨hb, by simpa using hid⟩))
    refine (congrFun (Keyed.writeAll_of_mem hkeys hin) x).trans ?_
    rw [memcpy_of_mem ⟨h0, by omega⟩, sub_zero, raidOperand, if_neg hid]
    exact RedisStr.data_bytesOf rfl h0 hx

/-- What the collector sends to parity node `i`, whatever the order of arrival. -/
theorem bytesOf_raidDeltaBuffer {M : Std.TreeMap Int (List Int)}
    (hM : IsCoffMap conf rsEncMat U M) (hnodup : (U.map UpdBlock.id).Nodup) {l : List RedisStr}
    (hl : l.Perm ((U.filter fun b => b.id ≠ colId).map fun b => raidDataMsg conf newData σ b.id))
    {r : Nat} (hr : r < conf.ecM) :
    bytesOf (raidDeltaBuffer conf U.length M (σ (.node colId)).heap
        (raidBuffer conf M (σ (.node colId)) colId l) r) (conf.blocksize * 1024) =
      bytesOf (raidParity conf newData rsEncMat U σ colId r) (conf.blocksize * 1024) := by
  refine bytesOf_congr fun x h0 hx => ?_
  rw [raidDeltaBuffer_apply hM hnodup (fun id => raidOperand newData σ colId id x)
    (fun j hj => raidBuffer_apply hM hnodup hl h0 hx hj) hr h0 hx, raidParity]

/-! ## The three tasks -/

theorem doProcess_task1 (loc : Int) (fields : List Int) :
    doProcess conf newData loc (mkCmd 1 fields) =
      sendDataToCollectorForRaid conf newData (mkCmd 1 fields) (4 * (fields.length + 2)) := by
  simp [doProcess]

theorem doProcess_task2 (loc : Int) (fields : List Int) :
    doProcess conf newData loc (mkCmd 2 fields) =
      recvAndComputeAndSendForRaid conf loc (mkCmd 2 fields) (4 * (fields.length + 2)) := by
  simp [doProcess]

theorem doProcess_task3 (loc : Int) (fields : List Int) :
    doProcess conf newData loc (mkCmd 3 fields) =
      recvAndSaveForRaid conf (mkCmd 3 fields) (4 * (fields.length + 2)) := by
  simp [doProcess]

/-- The data node after task 1: its block is new from end to end. -/
def raidDataFinal (conf : Config) (newData : Int → Buf) (σ : NodeState) (id : Int) : NodeState :=
  writeDataToDisk σ id (newData id) (conf.blocksize * 1024) 0

theorem follows_task1 (id : Int) :
    Follows (EndsIn (raidDataFinal conf newData (σ (.node id)) id))
      (doProcess conf newData id (mkCmd 1 [id, colId])) (σ (.node id))
      [.snd (.node colId) .raidData (raidDataMsg conf newData σ id)] := by
  have hid : (mkCmd 1 [id, colId]).int 8 = id := rfl
  have hcol : (mkCmd 1 [id, colId]).int 12 = colId := rfl
  rw [doProcess_task1, sendDataToCollectorForRaid, if_neg (by simp)]
  simp only [hid, hcol]
  have hdelta : bytesOf (computeDelta zeros
        (readDataFromDisk (σ (.node id)) id zeros (conf.blocksize * 1024) 0) (newData id)
        (conf.blocksize * 1024)) (conf.blocksize * 1024) =
      bytesOf (raidDelta newData σ id) (conf.blocksize * 1024) := by
    refine bytesOf_congr fun x h0 hx => ?_
    rw [computeDelta_apply h0 hx, readDataFromDisk_apply h0 hx, zero_add, raidDelta]
  refine ⟨[], ?_, rfl, rfl⟩
  simp only [hdelta]
  rfl

theorem follows_task2 (hm : 0 < conf.ecM) (hnodup : (U.map UpdBlock.id).Nodup)
    (hcol : colId ∈ U.map UpdBlock.id) :
    Follows (EndsIn ((σ (.node colId)).takeHeap conf.ecM))
      (doProcess conf newData colId (raidCollectorCmd conf rsEncMat U)) (σ (.node colId))
      (rcvRest .raidData
        ((U.filter fun b => b.id ≠ colId).map fun b => raidDataMsg conf newData σ b.id)
        ((List.range conf.ecM).map fun i =>
          .snd (parityNode conf i) .raidData
            (raidParityMsg conf newData rsEncMat U σ colId i))) := by
  have hnum : ((raidCollectorCmd conf rsEncMat U).int 8) = (U.length : Int) := rfl
  have hat : (raidCollectorCmd conf rsEncMat U).At 12
      (U.flatMap (fun b => b.id :: coffs conf rsEncMat b.id) ++ parityIds conf) :=
    (mkCmd_fields 2 ((U.length : Int) ::
      (U.flatMap (fun b => b.id :: coffs conf rsEncMat b.id) ++ parityIds conf))).tail
  obtain ⟨hget, hrest, hcur⟩ := readBlkCoffs_spec hm U hat hnodup ∅ fun b _ =>
    Std.TreeMap.getElem?_emptyc
  have hlen : 12 + (U.length : Int) * (4 + 4 * conf.ecM) + 4 * conf.ecM =
      4 * ((((U.length : Int) :: (U.flatMap (fun b => b.id :: coffs conf rsEncMat b.id) ++
        parityIds conf)).length : Int) + 2) := by
    have hflat : ((U.flatMap fun b => b.id :: coffs conf rsEncMat b.id).length : Int) =
        U.length * (1 + conf.ecM) := by
      simp [List.length_flatMap, List.map_const', add_comm]
    simp only [List.length_cons, List.length_append, parityIds_length, Nat.cast_add, Nat.cast_one,
      hflat]
    ring
  rw [raidCollectorCmd, doProcess_task2, ← raidCollectorCmd, recvAndComputeAndSendForRaid]
  simp only [hnum, Int.toNat_natCast]
  generalize readBlkCoffs (raidCollectorCmd conf rsEncMat U) conf.ecM U.length 12 ∅ = st at *
  have hM : IsCoffMap conf rsEncMat U st.1 := fun j => by
    rw [hget j]
    by_cases hj : j ∈ U.map UpdBlock.id <;> simp [hj]
  have hparity : (raidCollectorCmd conf rsEncMat U).readInts st.2 conf.ecM = parityIds conf := by
    rw [← List.append_nil (parityIds conf)] at hrest
    simpa using hrest.readInts
  -- the command has been read to its end
  rw [if_neg (by rw [hcur, hlen]; exact not_not_intro rfl), hM.mapLoc_of_mem hcol, hparity]
  have hcount : ((U.length : Int) - 1).toNat =
      ((U.filter fun b => b.id ≠ colId).map fun b => raidDataMsg conf newData σ b.id).length := by
    have := Keyed.length_filter_ne hnodup hcol
    rw [List.length_map]
    omega
  -- the deltas come in any order
  refine follows_recvFold _ _ _ _ hcount.symm fun l hl => ?_
  have hids : ∀ m ∈ l, m.int 0 ∈ U.map UpdBlock.id := by
    intro m hm'
    obtain ⟨b, hb, rfl⟩ := List.mem_map.1 (hl.mem_iff.1 hm')
    exact List.mem_map_of_mem (List.mem_of_mem_filter hb)
  refine ⟨_, foldlM_raidBuffer hM hids _, ?_⟩
  have hsends : (parityIds conf).map (fun blkId =>
        ((.node blkId, .raidData,
          ⟨[], bytesOf (raidDeltaBuffer conf U.length st.1 (σ (.node colId)).heap
            (raidBuffer conf st.1 (σ (.node colId)) colId l)
            (conf.ecN - blkId - 1).toNat) (conf.blocksize * 1024)⟩) : Host × Chan × RedisStr)) =
      (List.range conf.ecM).map fun i =>
        (parityNode conf i, .raidData, raidParityMsg conf newData rsEncMat U σ colId i) := by
    rw [map_parityIds]
    refine List.map_congr_left fun i hi => ?_
    have hi' := List.mem_range.1 hi
    have hrow : ((conf.ecN : Int) - parityId conf i - 1).toNat = conf.ecM - 1 - i := by
      simp only [Config.ecM, parityId] at hi' ⊢
      omega
    rw [hrow, bytesOf_raidDeltaBuffer hM hnodup hl (by omega)]
    rfl
  have hdone : Follows (EndsIn ((σ (.node colId)).takeHeap conf.ecM))
      (.save ((σ (.node colId)).takeHeap conf.ecM) .done : Prog) (σ (.node colId))
      ([] : List (Act Host Chan RedisStr)) := ⟨rfl, rfl⟩
  have hall := follows_sendAll_nil ((List.range conf.ecM).map fun i =>
    (parityNode conf i, Chan.raidData, raidParityMsg conf newData rsEncMat U σ colId i)) hdone
  rw [List.map_map, ← hsends] at hall
  exact hall

theorem follows_task3 (newData : Int → Buf) (loc : Int) {blk : Int} {f : Buf} {τ : NodeState} :
    Follows (EndsIn (writeDataToDisk τ blk f (conf.blocksize * 1024) 0))
      (doProcess conf newData loc (mkCmd 3 [blk])) τ
      [.rcv .raidData [⟨[], bytesOf f (conf.blocksize * 1024)⟩],
        .snd .coordinator .ack ackStr] := by
  have hblk : (mkCmd 3 [blk]).int 8 = blk := rfl
  rw [doProcess_task3, recvAndSaveForRaid, if_neg (by simp)]
  simp only [hblk]
  refine ⟨_, _, rfl, fun m ms' hperm => ?_⟩
  have hms : m = ⟨[], bytesOf f (conf.blocksize * 1024)⟩ ∧ ms' = [] := by
    have := List.singleton_perm.1 hperm
    simpa [eq_comm] using this
  rcases hms with ⟨rfl, rfl⟩
  refine ⟨_, rfl, rfl, ?_⟩
  refine writeDataToDisk_congr τ blk 0 fun x h0 hx => ?_
  rw [memcpy_of_mem ⟨h0, by omega⟩, sub_zero]
  exact RedisStr.data_bytesOf rfl h0 hx

end CoRD
