import Mathlib.Tactic.Linarith
import CoRD.Update.Config
import CoRD.Util.Jerasure

/-!
# UPNode — the eight tasks of a node

Each task is the program a node runs for one command, under the name it has in the source.
`newData i` is what the node of block `i` writes into its update buffers; the source fills them with
`geneRadmBuff`.  A buffer that is filled before it is read starts as zeros here; what the code reads
without having written it comes from the `heap` of the node.
-/

namespace CoRD

open MsgNet (Proc)

/-! ## Disk and buffers -/

/-- `readDataFromDisk("blk_<blk>", content, size, base)`. -/
def readDataFromDisk (σ : NodeState) (blk : Int) (content : Buf) (size base : Int) : Buf :=
  memcpy content 0 ((σ.disk blk).advance base) size

/-- `writeDataToDisk("blk_<blk>", content, size, base)`. -/
def writeDataToDisk (σ : NodeState) (blk : Int) (content : Buf) (size base : Int) : NodeState :=
  { σ with disk := Function.update σ.disk blk (memcpy (σ.disk blk) base content size) }

/-- The characters update buffers are filled with. -/
def alphanum : List (BitVec 8) :=
  (List.range 10).map (fun i => BitVec.ofNat 8 (0x30 + i)) ++
    (List.range 26).map (fun i => BitVec.ofNat 8 (0x41 + i)) ++
    (List.range 26).map (fun i => BitVec.ofNat 8 (0x61 + i))

/-- What `gene_radm_buff` fills a buffer with. -/
def geneRadmBuff : Buf :=
  fun i => ⟨alphanum.getD (i % 62).toNat 0⟩

/-- `compute_delta`: xor by whole 64-bit words. -/
def computeDelta (result srcA srcB : Buf) (length : Int) : Buf :=
  fun x => if 0 ≤ x ∧ x < 8 * (length / 8) then srcA x + srcB x else result x

variable (conf : Config) (newData : Int → Buf)

/-! ## RAID update -/

/-- Task 1. -/
def sendDataToCollectorForRaid (updCmd : RedisStr) (cmdLen : Int) : Prog :=
  let blkId := updCmd.int 8
  let collectorId := updCmd.int 12
  if 16 ≠ cmdLen then .abort .parseCmdFailed
  else .load fun σ =>
    let oldDataBuff := readDataFromDisk σ blkId zeros (conf.blocksize * 1024) 0
    let newDataBuff := newData blkId
    let deltaBuff := computeDelta zeros oldDataBuff newDataBuff (conf.blocksize * 1024)
    .send (.node collectorId) .raidData ⟨[blkId], bytesOf deltaBuff (conf.blocksize * 1024)⟩ <|
    .save (writeDataToDisk σ blkId newDataBuff (conf.blocksize * 1024) 0) .done

/-- `blkid2coffs[blk_id].push_back(coff)` for `n` coefficients; the map and the cursor. -/
def pushCoffs (updCmd : RedisStr) (blkId : Int) :
    Nat → Int → Std.TreeMap Int (List Int) → Std.TreeMap Int (List Int) × Int
  | 0, cur, blkid2coffs => (blkid2coffs, cur)
  | n + 1, cur, blkid2coffs =>
      pushCoffs updCmd blkId n (cur + 4)
        (blkid2coffs.insert blkId (blkid2coffs.getD blkId [] ++ [updCmd.int cur]))

/-- The loop over the updated blocks in the command of task 2. -/
def readBlkCoffs (updCmd : RedisStr) (ecM : Nat) :
    Nat → Int → Std.TreeMap Int (List Int) → Std.TreeMap Int (List Int) × Int
  | 0, cur, blkid2coffs => (blkid2coffs, cur)
  | n + 1, cur, blkid2coffs =>
      let blkId := updCmd.int cur
      let st := pushCoffs updCmd blkId ecM (cur + 4) blkid2coffs
      readBlkCoffs updCmd ecM n st.2 st.1

/-- The position of a block in the order of the map. -/
def mapLoc (blkid2coffs : Std.TreeMap Int (List Int)) (blkId : Int) : Option Nat :=
  blkid2coffs.keys.idxOf? blkId

/-- Copy a received data block to its row. -/
def placeRaidData (blkid2coffs : Std.TreeMap Int (List Int)) (buffer : Nat → Buf) (m : RedisStr) :
    Except Exit (Nat → Buf) :=
  match mapLoc blkid2coffs (m.int 0) with
  | none => .error .errorMapLoc
  | some loc =>
      .ok (Function.update buffer loc (memcpy (buffer loc) 0 (m.data 4) (conf.blocksize * 1024)))

/-- The rows of the parity delta: `delta_buffer` after `jerasure_matrix_encode`. -/
def raidDeltaBuffer (updNum : Nat) (blkid2coffs : Std.TreeMap Int (List Int)) (heap : Nat → Buf)
    (buffer : Nat → Buf) : Nat → Buf :=
  let encodeCoff := (List.range conf.ecM).flatMap fun i =>
    blkid2coffs.toList.map fun it => it.2.getD i 0
  jerasureMatrixEncode updNum conf.ecM (fun j => encodeCoff.getD j 0) buffer heap
    (conf.blocksize * 1024)

/-- Task 2. -/
def recvAndComputeAndSendForRaid (loc : Int) (updCmd : RedisStr) (cmdLen : Int) : Prog :=
  let updNum := updCmd.int 8
  let st := readBlkCoffs updCmd conf.ecM updNum.toNat 12 ∅
  let blkid2coffs := st.1
  let parityIdVec := updCmd.readInts st.2 conf.ecM
  if st.2 + 4 * conf.ecM ≠ cmdLen then .abort .parseCmdFailed
  else
    match mapLoc blkid2coffs loc with
    | none => .abort .errorMapLoc
    | some loc₀ => .load fun σ =>
        let buffer := Function.update (fun _ => zeros) loc₀
          (readDataFromDisk σ loc zeros (conf.blocksize * 1024) 0)
        .recvFold .raidData (placeRaidData conf blkid2coffs) (fun buffer =>
          let deltaBuffer := raidDeltaBuffer conf updNum.toNat blkid2coffs σ.heap buffer
          .sendAll (parityIdVec.map fun blkId =>
            (.node blkId, .raidData,
              ⟨[], bytesOf (deltaBuffer (conf.ecN - blkId - 1).toNat) (conf.blocksize * 1024)⟩)) <|
          .save (σ.takeHeap conf.ecM) .done)
          (updNum - 1).toNat buffer

/-- Task 3. -/
def recvAndSaveForRaid (updCmd : RedisStr) (cmdLen : Int) : Prog :=
  let blkId := updCmd.int 8
  if 12 ≠ cmdLen then .abort .parseCmdFailed
  else .recv .raidData fun m => .load fun σ =>
    let buffer := memcpy zeros 0 (m.data 0) (conf.blocksize * 1024)
    .save (writeDataToDisk σ blkId buffer (conf.blocksize * 1024) 0) <|
    .send .coordinator .ack ackStr .done

/-! ## Delta update -/

/-- Task 4.  The payload is copied from the address of the variable `parity_delta_buff[0]`, not from
the buffer it points to, so the rows that are encoded are never read. -/
def sendParityDeltaToEachParityForDelta (updCmd : RedisStr) (cmdLen : Int) : Prog :=
  let locBlkId := updCmd.int 8
  let offsetAdd := updCmd.int 12
  let updSize := updCmd.int 16
  let parityIdVec := updCmd.readInts (20 + 4 * conf.ecM) conf.ecM
  if 20 + 4 * conf.ecM + 4 * conf.ecM ≠ cmdLen then .abort .parseCmdFailed
  else .load fun σ =>
    let newDataBuff := newData locBlkId
    .sendAll ((List.range conf.ecM).map fun i =>
      (.node (parityIdVec.getD i 0), .deltaData,
        ⟨[offsetAdd, updSize], bytesOf (σ.heap i) (updSize * 1024)⟩)) <|
    .save ((writeDataToDisk σ locBlkId newDataBuff (updSize * 1024) (offsetAdd * 1024)).takeHeap
      conf.ecM) .done

/-- Copy a received parity delta to the next row; the offset is taken in bytes. -/
def placeDeltaData (st : Nat × (Nat → Buf)) (m : RedisStr) : Nat × (Nat → Buf) :=
  let offsetAdd := m.int 0
  let updSize := m.int 4
  (st.1 + 1,
    Function.update st.2 st.1 (memcpy (st.2 st.1) offsetAdd (m.data 8) (updSize * 1024)))

/-- Task 5. -/
def recvParityDeltaAndAggreForDelta (updCmd : RedisStr) (cmdLen : Int) : Prog :=
  let updNum := updCmd.int 8
  let locBlkId := updCmd.int 12
  if 16 ≠ cmdLen then .abort .parseCmdFailed
  else .load fun σ =>
    let deltaBuff := Function.update (fun _ => zeros) updNum.toNat
      (readDataFromDisk σ locBlkId zeros (conf.blocksize * 1024) 0)
    .popUntil .deltaData .endlessLoop placeDeltaData (fun st =>
      let newParityBuff := jerasureMatrixEncode (updNum.toNat + 1) 1 (fun _ => 1) st.2
        (fun _ => zeros) (conf.blocksize * 1024)
      .save (writeDataToDisk σ locBlkId (newParityBuff 0) conf.blocksize 0) <|
      .send .coordinator .ack ackStr .done)
      updNum.toNat (0, deltaBuff)

/-! ## CRD update -/

/-- Task 6. -/
def sendDataDeltaToParityCollectorForCrd (updCmd : RedisStr) (cmdLen : Int) : Prog :=
  let locBlkId := updCmd.int 8
  let offsetAdd := updCmd.int 12
  let updSize := updCmd.int 16
  let parityCollectorId := updCmd.int 20
  if 24 ≠ cmdLen then .abort .parseCmdFailed
  else .load fun σ =>
    let oldDataBuff := readDataFromDisk σ locBlkId zeros (updSize * 1024) (offsetAdd * 1024)
    let newDataBuff := newData locBlkId
    let deltaBuff := computeDelta zeros oldDataBuff newDataBuff (updSize * 1024)
    .send (.node parityCollectorId) .crdData ⟨[locBlkId], bytesOf deltaBuff (updSize * 1024)⟩ <|
    .save (writeDataToDisk σ locBlkId newDataBuff (updSize * 1024) (offsetAdd * 1024)) .done

/-- The maps task 7 reads from its command. -/
structure CrdBlks where
  updBlkId : List Int
  blkId2subSetId : Int → Int
  blkId2coff : Int → List Int
  blkId2offSize : Int → Int × Int

def CrdBlks.empty : CrdBlks :=
  { updBlkId := []
    blkId2subSetId := fun _ => 0
    blkId2coff := fun _ => []
    blkId2offSize := fun _ => (0, 0) }

/-- The loop over the updated blocks in the command of task 7. -/
def readCrdBlks (updCmd : RedisStr) (ecM : Nat) : Nat → Int → CrdBlks → CrdBlks × Int
  | 0, cur, t => (t, cur)
  | n + 1, cur, t =>
      let blkId := updCmd.int cur
      readCrdBlks updCmd ecM n (cur + 16 + 4 * ecM)
        { updBlkId := t.updBlkId ++ [blkId]
          blkId2subSetId := Function.update t.blkId2subSetId blkId (updCmd.int (cur + 4))
          blkId2coff := Function.update t.blkId2coff blkId (updCmd.readInts (cur + 16) ecM)
          blkId2offSize := Function.update t.blkId2offSize blkId
            (updCmd.int (cur + 8), updCmd.int (cur + 12)) }

/-- Copy a received data delta to its place in the buffer of its block. -/
def placeDataDelta (t : CrdBlks) (blkId2dataDeltaBuff : Int → Buf) (m : RedisStr) : Int → Buf :=
  let blkId := m.int 0
  let offsetAdd := (t.blkId2offSize blkId).1 * 1024
  let updSize := (t.blkId2offSize blkId).2 * 1024
  Function.update blkId2dataDeltaBuff blkId
    (memcpy (blkId2dataDeltaBuff blkId) offsetAdd (m.data 4) updSize)

/-- The merged offset and size of a sub-set, as the parity collector computes them. -/
def collectorOffSize (t : CrdBlks) (subSetId : Int) : Int × Int :=
  let st := t.updBlkId.foldl (fun st blkId =>
    if t.blkId2subSetId blkId = subSetId then
      (min st.1 (t.blkId2offSize blkId).1,
        max st.2 ((t.blkId2offSize blkId).1 + (t.blkId2offSize blkId).2 - 1))
    else st) (INT_MAX, INT_MIN)
  (st.1, st.2 - st.1 + 1)

/-- `parity_delta_buff` after `jerasure_matrix_encode`. -/
def crdParityDelta (updNum : Nat) (t : CrdBlks) (blkId2dataDeltaBuff : Int → Buf) : Nat → Buf :=
  jerasureMatrixEncode updNum conf.ecM
    (fun j => (t.blkId2coff (t.updBlkId.getD (j % updNum) 0)).getD (j / updNum) 0)
    (fun j => blkId2dataDeltaBuff (t.updBlkId.getD j 0)) (fun _ => zeros) (conf.blocksize * 1024)

/-- What task 7 does with row `i` of the parity delta: update the own block, or send the slices of
the sub-sets to the parity node. -/
def crdParityRow (locBlkId : Int) (subSetNum : Nat) (t : CrdBlks) (parityDeltaBuff : Nat → Buf)
    (i : Nat) (next : Prog) : Prog :=
  if parityId conf i = locBlkId then .load fun σ =>
    let dataBuffer : Nat → Buf := fun j =>
      if j = 0 then readDataFromDisk σ locBlkId zeros (conf.blocksize * 1024) 0
      else memcpy zeros 0 (parityDeltaBuff i) (conf.blocksize * 1024)
    let parityBuffer := jerasureMatrixEncode 2 1 (fun _ => 1) dataBuffer (fun _ => zeros)
      (conf.blocksize * 1024)
    .save (writeDataToDisk σ locBlkId (parityBuffer 0) (conf.blocksize * 1024) 0) next
  else
    .sendAll ((List.range subSetNum).map fun j : Nat =>
      let offSize := collectorOffSize t j
      (.node (parityId conf i), .crdData,
        ⟨[(j : Int)], bytesOf ((parityDeltaBuff i).advance (offSize.1 * 1024)) (offSize.2 * 1024)⟩))
      next

/-- Task 7. -/
def recvAndComputeInParityCollectorForCrd (updCmd : RedisStr) (cmdLen : Int) : Prog :=
  let locBlkId := updCmd.int 8
  let updNum := updCmd.int 12
  let subSetNum := updCmd.int 16
  let st := readCrdBlks updCmd conf.ecM updNum.toNat 20 .empty
  let t := st.1
  if st.2 + 4 * ((conf.ecM - 1 : Nat) : Int) ≠ cmdLen then .abort .parseCmdFailed
  else
    .popUntil .crdData .endlessLoop (placeDataDelta t) (fun blkId2dataDeltaBuff =>
      let parityDeltaBuff := crdParityDelta conf updNum.toNat t blkId2dataDeltaBuff
      (List.range conf.ecM).foldr (crdParityRow conf locBlkId subSetNum.toNat t parityDeltaBuff) <|
      .send .coordinator .ack ackStr .done)
      updNum.toNat (fun _ => zeros)

/-- The loop over the sub-sets in the command of task 8. -/
def readSubSets (updCmd : RedisStr) : Nat → Int → (Int → Int × Int) → (Int → Int × Int) × Int
  | 0, cur, subSetId2offSize => (subSetId2offSize, cur)
  | n + 1, cur, subSetId2offSize =>
      readSubSets updCmd n (cur + 12)
        (Function.update subSetId2offSize (updCmd.int cur)
          (updCmd.int (cur + 4), updCmd.int (cur + 8)))

/-- Copy a received slice of the parity delta to the row of its sub-set. -/
def placeParityDelta (subSetId2offSize : Int → Int × Int) (parityBuff : Int → Buf) (m : RedisStr) :
    Int → Buf :=
  let subSetId := m.int 0
  let offsetAdd := (subSetId2offSize subSetId).1
  let updSize := (subSetId2offSize subSetId).2
  Function.update parityBuff subSetId
    (memcpy (parityBuff subSetId) (offsetAdd * 1024) (m.data 4) (updSize * 1024))

/-- Task 8. -/
def recvParityDeltaAndAggreForCrd (updCmd : RedisStr) (cmdLen : Int) : Prog :=
  let locBlkId := updCmd.int 8
  let subSetNum := updCmd.int 12
  let st := readSubSets updCmd subSetNum.toNat 16 fun _ => (0, 0)
  if st.2 ≠ cmdLen then .abort .parseCmdFailed
  else
    .popUntil .crdData .endlessLoop (placeParityDelta st.1) (fun parityBuff => .load fun σ =>
      let parityBuff := Function.update parityBuff subSetNum
        (readDataFromDisk σ locBlkId (parityBuff subSetNum) (conf.blocksize * 1024) 0)
      let newParityBuffer := jerasureMatrixEncode (subSetNum.toNat + 1) 1 (fun _ => 1)
        (fun j => parityBuff j) (fun _ => zeros) (conf.blocksize * 1024)
      .save (writeDataToDisk σ locBlkId (newParityBuffer 0) (conf.blocksize * 1024) 0) <|
      .send .coordinator .ack ackStr .done)
      subSetNum.toNat (fun _ => zeros)

/-! ## Dispatch -/

/-- One turn of `doProcess` on node `loc`: the task a command asks for. -/
def doProcess (loc : Int) (updCmd : RedisStr) : Prog :=
  let taskType := updCmd.int 0
  let cmdLen := updCmd.int 4
  if taskType = 1 then sendDataToCollectorForRaid conf newData updCmd cmdLen
  else if taskType = 2 then recvAndComputeAndSendForRaid conf loc updCmd cmdLen
  else if taskType = 3 then recvAndSaveForRaid conf updCmd cmdLen
  else if taskType = 4 then sendParityDeltaToEachParityForDelta conf newData updCmd cmdLen
  else if taskType = 5 then recvParityDeltaAndAggreForDelta conf updCmd cmdLen
  else if taskType = 6 then sendDataDeltaToParityCollectorForCrd newData updCmd cmdLen
  else if taskType = 7 then recvAndComputeInParityCollectorForCrd conf updCmd cmdLen
  else if taskType = 8 then recvParityDeltaAndAggreForCrd conf updCmd cmdLen
  else .abort .errorTaskType

end CoRD
