import CoRD.Util.Keyed
import CoRD.Update.Stripe
import CoRD.Update.SubSets

/-!
# CrdTasks — what the nodes of a CRD update exchange

The data nodes send the deltas of their updated ranges to the parity collector (task 6).  It puts
each at its place in a block of zeros, encodes the blocks, adds its own row to its parity block and
cuts the other rows into one slice for each sub-set (task 7).  The other parity nodes put the slices
back in place and add them up (task 8).
-/

namespace CoRD

open MsgNet

variable {conf : Config} {newData : Int → Buf} {rsEncMat : Int → Int}

/-! ## Reading the commands -/

/-- The maps behind the command of task 7. -/
def crdTable (conf : Config) (rsEncMat : Int → Int) (subSetId : Int → Int) (U : List UpdBlock)
    (t : CrdBlks) : CrdBlks :=
  { updBlkId := t.updBlkId ++ U.map UpdBlock.id
    blkId2subSetId := Keyed.writeAll UpdBlock.id (fun b _ => subSetId b.id) U t.blkId2subSetId
    blkId2coff := Keyed.writeAll UpdBlock.id (fun b _ => coffs conf rsEncMat b.id) U t.blkId2coff
    blkId2offSize := Keyed.writeAll UpdBlock.id (fun b _ => (b.offsetAdd, b.updSize)) U
      t.blkId2offSize }

theorem readCrdBlks_spec {cmd : RedisStr} (subSetId : Int → Int) (U : List UpdBlock) {cur : Int}
    {rest : List Int}
    (hat : cmd.At cur (U.flatMap (fun b =>
      b.id :: subSetId b.id :: b.offsetAdd :: b.updSize :: coffs conf rsEncMat b.id) ++ rest))
    (t : CrdBlks) :
    readCrdBlks cmd conf.ecM U.length cur t =
      (crdTable conf rsEncMat subSetId U t, cur + U.length * (16 + 4 * conf.ecM)) := by
  induction U generalizing cur t with
  | nil =>
      simp [readCrdBlks, crdTable, Keyed.writeAll]
  | cons b U ih =>
      rw [List.flatMap_cons, List.append_assoc] at hat
      simp only [List.cons_append] at hat
      have hcoff := hat.tail.tail.tail.tail
      have hread := hcoff.readInts
      have hrest := hcoff.append
      rw [coffs_length] at hread hrest
      have hcur : cur + 4 + 4 + 4 + 4 = cur + 16 := by ring
      rw [hcur] at hread hrest
      have hoff := hat.tail.tail.int
      have hsize := hat.tail.tail.tail.int
      have h8 : cur + 4 + 4 = cur + 8 := by ring
      have h12 : cur + 8 + 4 = cur + 12 := by ring
      rw [h8] at hoff
      rw [h8, h12] at hsize
      rw [List.length_cons, readCrdBlks, hat.int, hat.tail.int, hoff, hsize, hread, ih hrest]
      refine Prod.ext ?_ ?_
      · simp [crdTable, Keyed.writeAll]
      · push_cast
        ring

theorem readSubSets_spec {cmd : RedisStr} (l : List (List UpdBlock × Nat)) {cur : Int}
    (hat : cmd.At cur (l.flatMap fun it =>
      [(it.2 : Int), (crdOffSize it.1).1, (crdOffSize it.1).2])) (f : Int → Int × Int) :
    readSubSets cmd l.length cur f =
      (Keyed.writeAll (fun it => (it.2 : Int)) (fun it _ => crdOffSize it.1) l f,
        cur + 12 * l.length) := by
  induction l generalizing cur f with
  | nil =>
      simp [readSubSets, Keyed.writeAll]
  | cons it l ih =>
      rw [List.flatMap_cons] at hat
      simp only [List.cons_append, List.nil_append] at hat
      have hsize := hat.tail.tail.int
      have hrest := hat.tail.tail.tail
      have h8 : cur + 4 + 4 = cur + 8 := by ring
      have h12 : cur + 8 + 4 = cur + 12 := by ring
      rw [h8] at hsize
      rw [h8, h12] at hrest
      rw [List.length_cons, readSubSets, hat.int, hat.tail.int, hsize, ih hrest]
      refine Prod.ext ?_ ?_
      · simp [Keyed.writeAll]
      · push_cast
        ring

/-! ## The messages -/

section Messages

variable (conf newData rsEncMat) (U : List UpdBlock) (σ : Host → NodeState)

/-- The delta of the updated range of `b`. -/
def crdDelta (b : UpdBlock) : Buf :=
  fun x => (σ (dataNode b)).disk b.id (b.offsetAdd * 1024 + x) + newData b.id x

def crdDataMsg (b : UpdBlock) : RedisStr :=
  { ints := [b.id], bytes := bytesOf (crdDelta newData σ b) (b.updSize * 1024) }

/-- The delta of `b` at its place in a block of zeros. -/
def crdPlaced (b : UpdBlock) : Buf :=
  memcpy zeros (b.offsetAdd * 1024) (crdDelta newData σ b) (b.updSize * 1024)

/-- Row `i` of the parity delta. -/
def crdRow (i : Nat) : Buf := fun x =>
  if 0 ≤ x ∧ x < conf.blocksize * 1024 then
    (U.map fun b =>
      GF256.ofInt (rsEncMat (i * conf.ecK + b.id)) * crdPlaced newData σ b x).sum
  else 0

/-- The range of a sub-set as the collector cuts it. -/
def sliceOffSize (N : List UpdBlock) : Int × Int :=
  (startAdd N, Hull.highest (fun b => b.endAdd - 1) INT_MIN N - startAdd N + 1)

/-- The slice of sub-set `j` for parity node `i`. -/
def crdSliceMsg (i j : Nat) : RedisStr :=
  let offSize := sliceOffSize ((getUpdSoluCrd U).getD j [])
  { ints := [(j : Int)]
    bytes := bytesOf ((crdRow conf newData rsEncMat U σ i).advance (offSize.1 * 1024))
      (offSize.2 * 1024) }

/-- The slice where parity node `i` puts it. -/
def crdSlicePlaced (i j : Nat) : Buf :=
  let offSize := crdOffSize ((getUpdSoluCrd U).getD j [])
  memcpy zeros (offSize.1 * 1024) ((crdSliceMsg conf newData rsEncMat U σ i j).data 4)
    (offSize.2 * 1024)

end Messages

variable {U : List UpdBlock} {σ : Host → NodeState}

/-! ## Task 6 -/

theorem doProcess_task6 (loc : Int) (fields : List Int) :
    doProcess conf newData loc (mkCmd 6 fields) =
      sendDataDeltaToParityCollectorForCrd newData (mkCmd 6 fields) (4 * (fields.length + 2)) := by
  simp [doProcess]

/-- The data node after task 6: its updated range is new. -/
def crdDataFinal (newData : Int → Buf) (τ : NodeState) (b : UpdBlock) : NodeState :=
  writeDataToDisk τ b.id (newData b.id) (b.updSize * 1024) (b.offsetAdd * 1024)

theorem follows_task6 (colId : Int) (b : UpdBlock) :
    Follows (EndsIn (crdDataFinal newData (σ (dataNode b)) b))
      (doProcess conf newData b.id (mkCmd 6 [b.id, b.offsetAdd, b.updSize, colId]))
      (σ (dataNode b)) [.snd (.node colId) .crdData (crdDataMsg newData σ b)] := by
  have hid : (mkCmd 6 [b.id, b.offsetAdd, b.updSize, colId]).int 8 = b.id := rfl
  have hoff : (mkCmd 6 [b.id, b.offsetAdd, b.updSize, colId]).int 12 = b.offsetAdd := rfl
  have hsize : (mkCmd 6 [b.id, b.offsetAdd, b.updSize, colId]).int 16 = b.updSize := rfl
  have hcol : (mkCmd 6 [b.id, b.offsetAdd, b.updSize, colId]).int 20 = colId := rfl
  rw [doProcess_task6, sendDataDeltaToParityCollectorForCrd, if_neg (by simp)]
  simp only [hid, hoff, hsize, hcol]
  have hdelta : bytesOf (computeDelta zeros
        (readDataFromDisk (σ (dataNode b)) b.id zeros (b.updSize * 1024) (b.offsetAdd * 1024))
        (newData b.id) (b.updSize * 1024)) (b.updSize * 1024) =
      bytesOf (crdDelta newData σ b) (b.updSize * 1024) := by
    refine bytesOf_congr fun x h0 hx => ?_
    rw [computeDelta_apply h0 hx, readDataFromDisk_apply h0 hx, crdDelta]
  refine ⟨[], ?_, rfl, rfl⟩
  simp only [hdelta]
  rfl

/-! ## Task 7 -/

/-- What task 7 needs of its maps. -/
structure IsCrdTable (conf : Config) (rsEncMat : Int → Int) (subSetId : Int → Int)
    (U : List UpdBlock) (t : CrdBlks) : Prop where
  ids : t.updBlkId = U.map UpdBlock.id
  offSize : ∀ b ∈ U, t.blkId2offSize b.id = (b.offsetAdd, b.updSize)
  coff : ∀ b ∈ U, t.blkId2coff b.id = coffs conf rsEncMat b.id
  subSet : ∀ b ∈ U, t.blkId2subSetId b.id = subSetId b.id

theorem isCrdTable (subSetId : Int → Int) (hnodup : (U.map UpdBlock.id).Nodup) :
    IsCrdTable conf rsEncMat subSetId U (crdTable conf rsEncMat subSetId U .empty) := by
  refine ⟨rfl, fun b hb => ?_, fun b hb => ?_, fun b hb => ?_⟩ <;> simp only [crdTable]
  · rw [Keyed.writeAll_of_mem hnodup hb]
  · rw [Keyed.writeAll_of_mem hnodup hb]
  · rw [Keyed.writeAll_of_mem hnodup hb]

section Table

variable {subSetId : Int → Int} {t : CrdBlks}

theorem foldl_placeDataDelta_eq (t : CrdBlks) (l : List RedisStr) (f : Int → Buf) :
    l.foldl (placeDataDelta t) f =
      Keyed.writeAll (fun m : RedisStr => m.int 0)
        (fun m old => memcpy old ((t.blkId2offSize (m.int 0)).1 * 1024) (m.data 4)
          ((t.blkId2offSize (m.int 0)).2 * 1024)) l f := rfl

/-- After the receive loop every delta is at its place, whatever the order of arrival. -/
theorem foldl_placeDataDelta (ht : IsCrdTable conf rsEncMat subSetId U t)
    (hnodup : (U.map UpdBlock.id).Nodup) {l : List RedisStr}
    (hl : l.Perm (U.map (crdDataMsg newData σ))) {b : UpdBlock} (hb : b ∈ U) :
    l.foldl (placeDataDelta t) (fun _ => zeros) b.id = crdPlaced newData σ b := by
  have hkeys : (l.map fun m => m.int 0).Nodup := by
    rw [(hl.map _).nodup_iff, List.map_map]
    exact hnodup
  have hmem : crdDataMsg newData σ b ∈ l := hl.mem_iff.2 (List.mem_map_of_mem hb)
  have hid : (crdDataMsg newData σ b).int 0 = b.id := rfl
  rw [foldl_placeDataDelta_eq]
  refine (Keyed.writeAll_of_mem hkeys hmem).trans ?_
  rw [hid, ht.offSize b hb]
  exact memcpy_congr _ _ fun x h0 hx => RedisStr.data_bytesOf rfl h0 hx

/-- The rows the collector encodes. -/
theorem crdParityDelta_eq (ht : IsCrdTable conf rsEncMat subSetId U t) {f : Int → Buf}
    (hf : ∀ b ∈ U, f b.id = crdPlaced newData σ b) {i : Nat} (hi : i < conf.ecM) :
    crdParityDelta conf U.length t f i = crdRow conf newData rsEncMat U σ i := by
  funext x
  by_cases hx : 0 ≤ x ∧ x < conf.blocksize * 1024
  · rw [crdParityDelta, jerasureMatrixEncode_zeros hx.1 hx.2 hi, crdRow, if_pos hx]
    have hmat : ∀ j ∈ Finset.range U.length,
        GF256.ofInt ((t.blkId2coff (t.updBlkId.getD ((i * U.length + j) % U.length) 0)).getD
            ((i * U.length + j) / U.length) 0) * f (t.updBlkId.getD j 0) x =
          (fun id => GF256.ofInt ((t.blkId2coff id).getD i 0) * f id x)
            ((U.map UpdBlock.id).getD j 0) := by
      intro j hj
      have hj' := Finset.mem_range.1 hj
      have hmod : (i * U.length + j) % U.length = j := by
        rw [Nat.mul_comm, Nat.mul_add_mod, Nat.mod_eq_of_lt hj']
      have hdiv : (i * U.length + j) / U.length = i := by
        rw [Nat.mul_comm, Nat.mul_add_div (by omega), Nat.div_eq_of_lt hj', Nat.add_zero]
      rw [hmod, hdiv, ht.ids]
    have hsum := Keyed.sum_range_getD
      (fun id => GF256.ofInt ((t.blkId2coff id).getD i 0) * f id x) 0 (U.map UpdBlock.id)
    rw [List.length_map, List.map_map] at hsum
    rw [Finset.sum_congr rfl hmat, hsum]
    refine congrArg List.sum (List.map_congr_left fun b hb => ?_)
    simp only [Function.comp_apply, ht.coff b hb, coffs_getD hi, hf b hb]
  · rw [crdParityDelta, jerasureMatrixEncode, if_pos hi, jerasureMatrixDotprod_of_not_mem _ _ _ _ hx,
      crdRow, if_neg hx, zeros_apply]

/-- The collector finds the range of a sub-set. -/
theorem collectorOffSize_eq (ht : IsCrdTable conf rsEncMat (getSubSetId (getUpdSoluCrd U)) U t)
    (hnodup : (U.map UpdBlock.id).Nodup) {j : Nat} (hj : j < (getUpdSoluCrd U).length) :
    collectorOffSize t j = sliceOffSize ((getUpdSoluCrd U).getD j []) := by
  have hN : (getUpdSoluCrd U)[j]? = some ((getUpdSoluCrd U).getD j []) := by
    simp [List.getD_eq_getElem?_getD, hj]
  have hperm := filter_getSubSetId_perm hnodup hN
  -- The fold over all ids skips the blocks of other sub-sets.
  have hfold : ∀ (l : List UpdBlock) (st : Int × Int), (∀ b ∈ l, b ∈ U) →
      (l.map UpdBlock.id).foldl (fun st blkId =>
        if t.blkId2subSetId blkId = (j : Int) then
          (min st.1 (t.blkId2offSize blkId).1,
            max st.2 ((t.blkId2offSize blkId).1 + (t.blkId2offSize blkId).2 - 1))
        else st) st =
      (Hull.lowest UpdBlock.offsetAdd st.1
          (l.filter fun b => getSubSetId (getUpdSoluCrd U) b.id = (j : Int)),
        Hull.highest (fun b => b.endAdd - 1) st.2
          (l.filter fun b => getSubSetId (getUpdSoluCrd U) b.id = (j : Int))) := by
    intro l
    induction l with
    | nil =>
        intro st _
        rfl
    | cons b l ih =>
        intro st hl
        have hb := hl b (by simp)
        rw [List.map_cons, List.foldl_cons, ih _ fun b' hb' => hl b' (List.mem_cons_of_mem _ hb')]
        rw [ht.subSet b hb, ht.offSize b hb]
        by_cases hsub : getSubSetId (getUpdSoluCrd U) b.id = (j : Int)
        · simp [hsub, UpdBlock.endAdd]
        · simp [hsub]
  simp only [collectorOffSize, ht.ids, hfold U _ fun _ hb => hb, sliceOffSize, startAdd]
  rw [Hull.lowest_perm hperm, Hull.highest_perm hperm]

end Table

section Collector

variable {q : Nat}

/-- What the collector, parity node `q`, sends for row `i`. -/
def crdRowActs (conf : Config) (newData : Int → Buf) (rsEncMat : Int → Int) (U : List UpdBlock)
    (σ : Host → NodeState) (q i : Nat) : List (Act Host Chan RedisStr) :=
  if i = q then []
  else (List.range (getUpdSoluCrd U).length).map fun j =>
    .snd (parityNode conf i) .crdData (crdSliceMsg conf newData rsEncMat U σ i j)

/-- The collector with row `q` added to its block. -/
def crdCollectorFinal (conf : Config) (newData : Int → Buf) (rsEncMat : Int → Int)
    (U : List UpdBlock) (σ : Host → NodeState) (q : Nat) (τ : NodeState) : NodeState :=
  let blkId : Int := parityId conf q
  writeDataToDisk τ blkId (fun x => τ.disk blkId x + crdRow conf newData rsEncMat U σ q x)
    (conf.blocksize * 1024) 0

/-- One turn of the loop over the rows. -/
theorem follows_crdParityRow {t : CrdBlks}
    (ht : IsCrdTable conf rsEncMat (getSubSetId (getUpdSoluCrd U)) U t)
    (hnodup : (U.map UpdBlock.id).Nodup) {pd : Nat → Buf} {i : Nat}
    (hpd : pd i = crdRow conf newData rsEncMat U σ i)
    {Q : NodeState → List (Act Host Chan RedisStr) → Prop} {next : Prog} {τ : NodeState}
    {s : List (Act Host Chan RedisStr)}
    (hnext : Follows Q next
      (if i = q then crdCollectorFinal conf newData rsEncMat U σ q τ else τ) s) :
    Follows Q
      (crdParityRow conf (parityId conf q) (getUpdSoluCrd U).length t pd i next) τ
      (crdRowActs conf newData rsEncMat U σ q i ++ s) := by
  by_cases hi : i = q
  · subst hi
    rw [if_pos rfl] at hnext
    rw [crdParityRow, if_pos rfl, crdRowActs, if_pos rfl, List.nil_append]
    -- the collector xors its own row into its block
    have hwrite : writeDataToDisk τ (parityId conf i)
        (jerasureMatrixEncode 2 1 (fun _ => 1) (fun j =>
          if j = 0 then readDataFromDisk τ (parityId conf i) zeros
            (conf.blocksize * 1024) 0
          else memcpy zeros 0 (pd i) (conf.blocksize * 1024)) (fun _ => zeros)
          (conf.blocksize * 1024) 0) (conf.blocksize * 1024) 0 =
        crdCollectorFinal conf newData rsEncMat U σ i τ := by
      refine writeDataToDisk_congr τ _ 0 fun x h0 hx => ?_
      rw [jerasureMatrixEncode_ones h0 hx, Finset.sum_range_succ, Finset.sum_range_one, if_pos rfl,
        if_neg Nat.one_ne_zero, readDataFromDisk_apply h0 hx, memcpy_of_mem ⟨h0, by omega⟩, hpd,
        zero_add, sub_zero]
    rw [← hwrite] at hnext
    exact hnext
  · rw [if_neg hi] at hnext
    have hne : parityId conf i ≠ parityId conf q := fun h => hi (parityId_injective h)
    rw [crdParityRow, if_neg hne, crdRowActs, if_neg hi]
    -- another parity node gets the slices, one message for each subset
    have hsends : (List.range (getUpdSoluCrd U).length).map (fun j : Nat =>
          ((.node (parityId conf i), .crdData,
            ⟨[(j : Int)], bytesOf ((pd i).advance ((collectorOffSize t j).1 * 1024))
              ((collectorOffSize t j).2 * 1024)⟩) : Host × Chan × RedisStr)) =
        (List.range (getUpdSoluCrd U).length).map fun j =>
          (parityNode conf i, .crdData, crdSliceMsg conf newData rsEncMat U σ i j) := by
      refine List.map_congr_left fun j hj => ?_
      rw [collectorOffSize_eq ht hnodup (List.mem_range.1 hj), hpd, crdSliceMsg, parityNode]
    simp only [hsends]
    have hall := follows_sendAll ((List.range (getUpdSoluCrd U).length).map fun j =>
      (parityNode conf i, Chan.crdData, crdSliceMsg conf newData rsEncMat U σ i j)) hnext
    rw [List.map_map] at hall
    exact hall

section Command

variable (conf rsEncMat) (U)

/-- What the command of task 7 says behind its counts. -/
theorem crdCollectorCmd_at (colId : Int) :
    (crdCollectorCmd conf rsEncMat U colId).At 20
      (U.flatMap (fun b => b.id :: getSubSetId (getUpdSoluCrd U) b.id :: b.offsetAdd ::
        b.updSize :: coffs conf rsEncMat b.id) ++
        (parityIds conf).filter fun blkId => blkId ≠ colId) :=
  (mkCmd_fields 7 _).tail.tail.tail

theorem crdCollectorCmd_len (hq : q < conf.ecM) :
    (crdCollectorCmd conf rsEncMat U (parityId conf q)).int 4 =
      20 + U.length * (16 + 4 * conf.ecM) + 4 * ((conf.ecM - 1 : Nat) : Int) := by
  have hflat : ((U.flatMap fun b => b.id :: getSubSetId (getUpdSoluCrd U) b.id :: b.offsetAdd ::
      b.updSize :: coffs conf rsEncMat b.id).length : Int) = U.length * (4 + conf.ecM) := by
    simp only [List.length_flatMap, List.length_cons, coffs_length, List.map_const',
      List.sum_replicate, smul_eq_mul]
    push_cast
    ring
  rw [crdCollectorCmd, mkCmd_len]
  simp only [List.length_cons, List.length_append, Nat.cast_add, Nat.cast_one, hflat,
    length_filter_parityIds hq]
  ring

/-- Task 7 with its command read. -/
theorem doProcess_crdCollectorCmd (hq : q < conf.ecM) (loc : Int) :
    doProcess conf newData loc (crdCollectorCmd conf rsEncMat U (parityId conf q)) =
      let t := crdTable conf rsEncMat (getSubSetId (getUpdSoluCrd U)) U .empty
      .popUntil .crdData .endlessLoop (placeDataDelta t) (fun buff =>
        (List.range conf.ecM).foldr
          (crdParityRow conf (parityId conf q) (getUpdSoluCrd U).length t
            (crdParityDelta conf U.length t buff)) <|
        .send .coordinator .ack ackStr .done) U.length (fun _ => zeros) := by
  have htype : (crdCollectorCmd conf rsEncMat U (parityId conf q)).int 0 = 7 := rfl
  have hloc : (crdCollectorCmd conf rsEncMat U (parityId conf q)).int 8 = parityId conf q := rfl
  have hnum : (crdCollectorCmd conf rsEncMat U (parityId conf q)).int 12 = (U.length : Int) := rfl
  have hsub : (crdCollectorCmd conf rsEncMat U (parityId conf q)).int 16 =
      ((getUpdSoluCrd U).length : Int) := rfl
  have hlen := crdCollectorCmd_len conf rsEncMat U hq
  have hread := readCrdBlks_spec (getSubSetId (getUpdSoluCrd U)) U
    (crdCollectorCmd_at conf rsEncMat U (parityId conf q)) .empty
  simp [doProcess, recvAndComputeInParityCollectorForCrd, htype, hloc, hnum, hsub, hlen, hread]

end Command

theorem follows_task7 (hne : U ≠ []) (hnodup : (U.map UpdBlock.id).Nodup) (hq : q < conf.ecM)
    (loc : Int) :
    Follows
      (EndsIn (crdCollectorFinal conf newData rsEncMat U σ q (σ (parityNode conf q))))
      (doProcess conf newData loc (crdCollectorCmd conf rsEncMat U (parityId conf q)))
      (σ (parityNode conf q))
      (.rcv .crdData (U.map (crdDataMsg newData σ)) ::
        ((List.range conf.ecM).flatMap (crdRowActs conf newData rsEncMat U σ q) ++
          [.snd .coordinator .ack ackStr])) := by
  have ht : IsCrdTable conf rsEncMat (getSubSetId (getUpdSoluCrd U)) U
      (crdTable conf rsEncMat (getSubSetId (getUpdSoluCrd U)) U .empty) := isCrdTable _ hnodup
  rw [doProcess_crdCollectorCmd conf rsEncMat U hq loc]
  simp only
  generalize crdTable conf rsEncMat (getSubSetId (getUpdSoluCrd U)) U .empty = t at *
  refine follows_popUntil _ _ _ _ _ (List.length_map _) (by simpa using hne) fun l hl => ?_
  refine follows_foldr
    (fun i τ => if i = q then crdCollectorFinal conf newData rsEncMat U σ q τ else τ) _
    (fun i hi next τ s hnext => ?_) ?_
  · exact follows_crdParityRow ht hnodup
      (crdParityDelta_eq ht (fun b hb => foldl_placeDataDelta ht hnodup hl hb)
        (List.mem_range.1 hi)) hnext
  · rw [Keyed.foldl_range_ite, if_pos hq]
    exact ⟨_, rfl, rfl, rfl⟩

end Collector

/-! ## Task 8 -/

section Parity

/-- The old parity with all slices added. -/
def crdAggre (conf : Config) (newData : Int → Buf) (rsEncMat : Int → Int) (U : List UpdBlock)
    (σ : Host → NodeState) (i : Nat) (old : Buf) : Buf :=
  fun x => old x + ((List.range (getUpdSoluCrd U).length).map fun j =>
    crdSlicePlaced conf newData rsEncMat U σ i j x).sum

/-- The ranges task 8 reads. -/
def subSetTable (U : List UpdBlock) : Int → Int × Int :=
  Keyed.writeAll (fun it => (it.2 : Int)) (fun it _ => crdOffSize it.1) (getUpdSoluCrd U).zipIdx
    fun _ => (0, 0)

theorem subSetTable_apply {j : Nat} (hj : j < (getUpdSoluCrd U).length) :
    subSetTable U j = crdOffSize ((getUpdSoluCrd U).getD j []) := by
  have hkeys : ((getUpdSoluCrd U).zipIdx.map fun it => (it.2 : Int)).Nodup := by
    have hmap : ((getUpdSoluCrd U).zipIdx.map fun it => (it.2 : Int)) =
        (List.range (getUpdSoluCrd U).length).map fun j : Nat => (j : Int) := by
      rw [List.range_eq_range', ← List.zipIdx_map_snd 0 (getUpdSoluCrd U), List.map_map]
      rfl
    rw [hmap]
    exact List.nodup_range.map Nat.cast_injective
  have hmem : ((getUpdSoluCrd U).getD j [], j) ∈ (getUpdSoluCrd U).zipIdx := by
    rw [List.mem_zipIdx_iff_getElem?]
    simp [List.getD_eq_getElem?_getD, hj]
  exact Keyed.writeAll_of_mem hkeys hmem

theorem doProcess_crdParityCmd (loc blkId : Int) :
    doProcess conf newData loc (crdParityCmd U blkId) =
      .popUntil .crdData .endlessLoop (placeParityDelta (subSetTable U)) (fun parityBuff =>
        .load fun σ =>
          let parityBuff := Function.update parityBuff ((getUpdSoluCrd U).length : Int)
            (readDataFromDisk σ blkId (parityBuff ((getUpdSoluCrd U).length : Int))
              (conf.blocksize * 1024) 0)
          let newParityBuffer := jerasureMatrixEncode ((getUpdSoluCrd U).length + 1) 1 (fun _ => 1)
            (fun j => parityBuff j) (fun _ => zeros) (conf.blocksize * 1024)
          .save (writeDataToDisk σ blkId (newParityBuffer 0) (conf.blocksize * 1024) 0) <|
          .send .coordinator .ack ackStr .done)
        (getUpdSoluCrd U).length (fun _ => zeros) := by
  have htype : (crdParityCmd U blkId).int 0 = 8 := rfl
  have hloc : (crdParityCmd U blkId).int 8 = blkId := rfl
  have hnum : (crdParityCmd U blkId).int 12 = ((getUpdSoluCrd U).length : Int) := rfl
  have hat : (crdParityCmd U blkId).At 16 ((getUpdSoluCrd U).zipIdx.flatMap fun it =>
      [(it.2 : Int), (crdOffSize it.1).1, (crdOffSize it.1).2]) := (mkCmd_fields 8 _).tail.tail
  have hread := readSubSets_spec _ hat fun _ => (0, 0)
  rw [List.length_zipIdx] at hread
  have hlen : (crdParityCmd U blkId).int 4 = 16 + 12 * ((getUpdSoluCrd U).length : Int) := by
    rw [crdParityCmd, mkCmd_len]
    simp only [List.length_cons, List.length_flatMap, List.length_nil, List.map_const',
      List.length_zipIdx, List.sum_replicate, smul_eq_mul]
    push_cast
    ring
  simp [doProcess, recvParityDeltaAndAggreForCrd, htype, hloc, hnum, hlen, hread, subSetTable]

/-- The rows of the slices, whatever the order of arrival. -/
theorem foldl_placeParityDelta {i : Nat} {l : List RedisStr}
    (hl : l.Perm ((List.range (getUpdSoluCrd U).length).map
      (crdSliceMsg conf newData rsEncMat U σ i))) {j : Nat} :
    l.foldl (placeParityDelta (subSetTable U)) (fun _ => zeros) j =
      if j < (getUpdSoluCrd U).length then crdSlicePlaced conf newData rsEncMat U σ i j
      else zeros := by
  have hfold : l.foldl (placeParityDelta (subSetTable U)) (fun _ => zeros) =
      Keyed.writeAll (fun m : RedisStr => m.int 0)
        (fun m old => memcpy old ((subSetTable U (m.int 0)).1 * 1024) (m.data 4)
          ((subSetTable U (m.int 0)).2 * 1024)) l fun _ => zeros := rfl
  have hmap : (List.range (getUpdSoluCrd U).length).map
      ((fun m : RedisStr => m.int 0) ∘ crdSliceMsg conf newData rsEncMat U σ i) =
      (List.range (getUpdSoluCrd U).length).map fun j : Nat => (j : Int) := rfl
  have hperm := hl.map fun m => m.int 0
  rw [List.map_map, hmap] at hperm
  have hkeys : (l.map fun m => m.int 0).Nodup :=
    hperm.nodup_iff.2 (List.nodup_range.map Nat.cast_injective)
  rw [hfold]
  by_cases hj : j < (getUpdSoluCrd U).length
  · have hmem : crdSliceMsg conf newData rsEncMat U σ i j ∈ l :=
      hl.mem_iff.2 (List.mem_map_of_mem (List.mem_range.2 hj))
    have hid : (crdSliceMsg conf newData rsEncMat U σ i j).int 0 = (j : Int) := rfl
    rw [if_pos hj]
    refine (Keyed.writeAll_of_mem hkeys hmem).trans ?_
    rw [hid, subSetTable_apply hj, crdSlicePlaced]
  · have hnot : (j : Int) ∉ l.map fun m => m.int 0 := by
      rw [hperm.mem_iff]
      simpa using hj
    rw [if_neg hj, Keyed.writeAll_of_not_mem hnot]

theorem follows_task8 (hne : U ≠ []) (loc blkId : Int) (i : Nat) (τ : NodeState) :
    Follows
      (EndsIn (writeDataToDisk τ blkId
        (crdAggre conf newData rsEncMat U σ i (τ.disk blkId)) (conf.blocksize * 1024) 0))
      (doProcess conf newData loc (crdParityCmd U blkId)) τ
      [.rcv .crdData ((List.range (getUpdSoluCrd U).length).map
          (crdSliceMsg conf newData rsEncMat U σ i)),
        .snd .coordinator .ack ackStr] := by
  have hsub : (List.range (getUpdSoluCrd U).length).map
      (crdSliceMsg conf newData rsEncMat U σ i) ≠ [] := by
    simpa using getUpdSoluCrd_ne_nil hne
  rw [doProcess_crdParityCmd]
  refine follows_popUntil _ _ _ _ _ (by simp) hsub fun l hl => ?_
  refine ⟨_, rfl, rfl, ?_⟩
  refine writeDataToDisk_congr τ blkId 0 fun x h0 hx => ?_
  have hrows : ∀ j ∈ Finset.range (getUpdSoluCrd U).length,
      Function.update (l.foldl (placeParityDelta (subSetTable U)) fun _ => zeros)
          ((getUpdSoluCrd U).length : Int)
          (readDataFromDisk τ blkId
            (l.foldl (placeParityDelta (subSetTable U)) (fun _ => zeros)
              ((getUpdSoluCrd U).length : Int)) (conf.blocksize * 1024) 0) (j : Int) x =
        crdSlicePlaced conf newData rsEncMat U σ i j x := by
    intro j hj
    have hj' := Finset.mem_range.1 hj
    rw [Function.update_of_ne (by omega), foldl_placeParityDelta hl, if_pos hj']
  rw [jerasureMatrixEncode_ones h0 hx, Finset.sum_range_succ, Finset.sum_congr rfl hrows,
    Function.update_self, readDataFromDisk_apply h0 hx, zero_add, add_comm, crdAggre]
  rfl

end Parity

end CoRD
