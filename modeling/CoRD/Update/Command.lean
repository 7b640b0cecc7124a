import CoRD.Update.CrdTasks
import CoRD.Update.DeltaRound
import CoRD.Update.Protocol
import CoRD.Update.RaidTasks

/-!
# Command — update commands as they are written and as they are read

A command is written into an array with a cursor; its length is put into the place behind the task
type at the end (`UpdCmd`).  A task reads it with a cursor of its own and gives up unless that ends
at the length (`parseCmd`).  Each layout is read back as it was written, and what the array held
before does not matter.
-/

namespace CoRD

variable {conf : Config} {rsEncMat : Int → Int} {U : List UpdBlock}

/-! ## Writing -/

/-- The array `upd_cmd` with the cursor `cur`; every access is to an `int` at a multiple of four. -/
structure UpdCmd where
  word : Int → Int
  cur : Int

namespace UpdCmd

/-- `cur = 0` in an array with some old content. -/
def start (old : Int → Int) : UpdCmd :=
  { word := old, cur := 0 }

/-- `memcpy(upd_cmd + cur, &x, len); cur += len`. -/
def put (x : Int) (c : UpdCmd) : UpdCmd :=
  { word := Function.update c.word c.cur x, cur := c.cur + 4 }

/-- `cur += len`. -/
def skip (c : UpdCmd) : UpdCmd :=
  { c with cur := c.cur + 4 }

/-- A loop of writes. -/
def forEach {α : Type} (l : List α) (f : α → UpdCmd → UpdCmd) (c : UpdCmd) : UpdCmd :=
  l.foldl (fun c a => f a c) c

/-- `memcpy(upd_cmd + 4, &cur, len)`, then the first `cur` bytes are pushed. -/
def push (c : UpdCmd) : RedisStr :=
  let word := Function.update c.word 4 c.cur
  { ints := (List.range (c.cur / 4).toNat).map fun i : Nat => word (4 * i), bytes := [] }

end UpdCmd

section Layouts

open UpdCmd

variable (conf rsEncMat) (old : Int → Int)

/-- The coefficients of a block, row by row. -/
def putCoffs (blkId : Int) (c : UpdCmd) : UpdCmd :=
  c.forEach (List.range conf.ecM) fun j => put (rsEncMat ((j : Nat) * conf.ecK + blkId))

/-- The ids of all parity blocks. -/
def putParityIds (c : UpdCmd) : UpdCmd :=
  c.forEach (List.range conf.ecM) fun i => put (parityId conf i)

def writeTask1 (b : UpdBlock) (collectorId : Int) : RedisStr :=
  (start old |>.put 1 |>.skip |>.put b.id |>.put collectorId).push

def writeTask2 (updBlkVec : List UpdBlock) : RedisStr :=
  (start old |>.put 2 |>.skip |>.put updBlkVec.length
    |>.forEach updBlkVec (fun b c => putCoffs conf rsEncMat b.id (c.put b.id))
    |> putParityIds conf).push

def writeTask3 (blkId : Int) : RedisStr :=
  (start old |>.put 3 |>.skip |>.put blkId).push

def writeTask4 (b : UpdBlock) : RedisStr :=
  (start old |>.put 4 |>.skip |>.put b.id |>.put b.offsetAdd |>.put b.updSize
    |> putCoffs conf rsEncMat b.id |> putParityIds conf).push

def writeTask5 (updNum : Nat) (blkId : Int) : RedisStr :=
  (start old |>.put 5 |>.skip |>.put updNum |>.put blkId).push

def writeTask6 (b : UpdBlock) (parityCollectorId : Int) : RedisStr :=
  (start old |>.put 6 |>.skip |>.put b.id |>.put b.offsetAdd |>.put b.updSize
    |>.put parityCollectorId).push

def writeTask7 (updBlkVec : List UpdBlock) (parityCollectorId : Int) : RedisStr :=
  let updSolu := getUpdSoluCrd updBlkVec
  (start old |>.put 7 |>.skip |>.put parityCollectorId |>.put updBlkVec.length |>.put updSolu.length
    |>.forEach updBlkVec (fun b c => putCoffs conf rsEncMat b.id
      (c.put b.id |>.put (getSubSetId updSolu b.id) |>.put b.offsetAdd |>.put b.updSize))
    |>.forEach (List.range conf.ecM) (fun i c =>
      if parityCollectorId = parityId conf i then c else c.put (parityId conf i))).push

def writeTask8 (updBlkVec : List UpdBlock) (blkId : Int) : RedisStr :=
  let updSolu := getUpdSoluCrd updBlkVec
  (start old |>.put 8 |>.skip |>.put blkId |>.put updSolu.length
    |>.forEach updSolu.zipIdx (fun it c =>
      c.put it.2 |>.put (crdOffSize it.1).1 |>.put (crdOffSize it.1).2)).push

/-! The commands up to their length; the `writeTask`s push them. -/

def buildTask1 (b : UpdBlock) (collectorId : Int) : UpdCmd :=
  start old |>.put 1 |>.skip |>.put b.id |>.put collectorId

def buildTask2 (updBlkVec : List UpdBlock) : UpdCmd :=
  start old |>.put 2 |>.skip |>.put updBlkVec.length
    |>.forEach updBlkVec (fun b c => putCoffs conf rsEncMat b.id (c.put b.id))
    |> putParityIds conf

def buildTask3 (blkId : Int) : UpdCmd :=
  start old |>.put 3 |>.skip |>.put blkId

def buildTask4 (b : UpdBlock) : UpdCmd :=
  start old |>.put 4 |>.skip |>.put b.id |>.put b.offsetAdd |>.put b.updSize
    |> putCoffs conf rsEncMat b.id |> putParityIds conf

def buildTask5 (updNum : Nat) (blkId : Int) : UpdCmd :=
  start old |>.put 5 |>.skip |>.put updNum |>.put blkId

def buildTask6 (b : UpdBlock) (parityCollectorId : Int) : UpdCmd :=
  start old |>.put 6 |>.skip |>.put b.id |>.put b.offsetAdd |>.put b.updSize
    |>.put parityCollectorId

def buildTask7 (updBlkVec : List UpdBlock) (parityCollectorId : Int) : UpdCmd :=
  let updSolu := getUpdSoluCrd updBlkVec
  start old |>.put 7 |>.skip |>.put parityCollectorId |>.put updBlkVec.length |>.put updSolu.length
    |>.forEach updBlkVec (fun b c => putCoffs conf rsEncMat b.id
      (c.put b.id |>.put (getSubSetId updSolu b.id) |>.put b.offsetAdd |>.put b.updSize))
    |>.forEach (List.range conf.ecM) (fun i c =>
      if parityCollectorId = parityId conf i then c else c.put (parityId conf i))

def buildTask8 (updBlkVec : List UpdBlock) (blkId : Int) : UpdCmd :=
  let updSolu := getUpdSoluCrd updBlkVec
  start old |>.put 8 |>.skip |>.put blkId |>.put updSolu.length
    |>.forEach updSolu.zipIdx (fun it c =>
      c.put it.2 |>.put (crdOffSize it.1).1 |>.put (crdOffSize it.1).2)

end Layouts

namespace UpdCmd

/-- A run of writes. -/
def putAll (l : List Int) (c : UpdCmd) : UpdCmd :=
  c.forEach l put

@[simp] theorem putAll_nil (c : UpdCmd) : c.putAll [] = c := rfl

@[simp] theorem putAll_cons (x : Int) (l : List Int) (c : UpdCmd) :
    c.putAll (x :: l) = (c.put x).putAll l := rfl

theorem putAll_append (l l' : List Int) (c : UpdCmd) :
    c.putAll (l ++ l') = (c.putAll l).putAll l' :=
  List.foldl_append

/-- A loop whose turns write runs writes one run. -/
theorem forEach_eq_putAll {α : Type} {f : α → UpdCmd → UpdCmd} {g : α → List Int} {l : List α}
    (h : ∀ a ∈ l, ∀ c, f a c = c.putAll (g a)) (c : UpdCmd) :
    c.forEach l f = c.putAll (l.flatMap g) := by
  induction l generalizing c with
  | nil =>
      rfl
  | cons a l ih =>
      have hrest := ih fun b hb => h b (List.mem_cons_of_mem a hb)
      calc
        c.forEach (a :: l) f = (f a c).forEach l f := rfl
        _ = (c.putAll (g a)).putAll (l.flatMap g) := by
              rw [h a List.mem_cons_self, hrest]
        _ = c.putAll ((a :: l).flatMap g) := by
              rw [List.flatMap_cons, putAll_append]

theorem putAll_cur (l : List Int) (c : UpdCmd) : (c.putAll l).cur = c.cur + 4 * l.length := by
  induction l generalizing c with
  | nil =>
      simp
  | cons x l ih =>
      rw [putAll_cons, ih, put, List.length_cons]
      push_cast
      ring

/-- A run of writes starts at the cursor and leaves the rest of the array alone. -/
theorem putAll_word (l : List Int) (c : UpdCmd) :
    (∀ i < l.length, (c.putAll l).word (c.cur + 4 * (i : Nat)) = l.getD i 0) ∧
      ∀ pos < c.cur, (c.putAll l).word pos = c.word pos := by
  induction l generalizing c with
  | nil =>
      exact ⟨fun i hi => absurd hi (Nat.not_lt_zero i), fun pos _ => rfl⟩
  | cons x l ih =>
      obtain ⟨hnew, hold⟩ := ih (c.put x)
      refine ⟨fun i hi => ?_, fun pos hpos => ?_⟩
      · cases i with
        | zero =>
            have hself := hold (c.cur + 4 * (0 : Nat)) (by simp [put])
            rw [putAll_cons, hself]
            simp [put]
        | succ i =>
            have hnext := hnew i (by simpa using hi)
            have hpos : (c.put x).cur + 4 * (i : Int) = c.cur + 4 * ((i + 1 : Nat) : Int) := by
              simp only [put]
              push_cast
              ring
            rw [hpos] at hnext
            rw [putAll_cons, hnext, List.getD_cons_succ]
      · have hkeep := hold pos (by simp only [put]; omega)
        rw [putAll_cons, hkeep]
        exact Function.update_of_ne (by omega) _ _

/-- What is pushed: the type, the length and the fields, whatever the array held before. -/
theorem push_putAll (old : Int → Int) (taskType : Int) (fields : List Int) :
    (start old |>.put taskType |>.skip |>.putAll fields).push = mkCmd taskType fields := by
  let c := (start old).put taskType |>.skip
  have hcur : (c.putAll fields).cur = 4 * ((fields.length : Int) + 2) := by
    rw [putAll_cur]
    show (0 : Int) + 4 + 4 + 4 * fields.length = _
    ring
  obtain ⟨hnew, hold⟩ := putAll_word fields c
  have hlen : ((c.putAll fields).cur / 4).toNat = fields.length + 2 := by
    rw [hcur]
    omega
  show RedisStr.mk _ _ = RedisStr.mk _ _
  congr 1
  rw [hlen]
  refine List.ext_getElem (by simp) fun i hi hi' => ?_
  rw [List.getElem_map, List.getElem_range]
  match i with
  | 0 =>
      have hpos : (0 : Int) < c.cur := by
        show (0 : Int) < 0 + 4 + 4
        decide
      have htype := hold 0 hpos
      rw [Function.update_of_ne (by decide)]
      exact htype
  | 1 =>
      exact (Function.update_self _ _ _).trans hcur
  | i + 2 =>
      have hfield := hnew i (by simpa using hi')
      have hpos : c.cur + 4 * (i : Int) = 4 * ((i + 2 : Nat) : Int) := by
        show (0 : Int) + 4 + 4 + 4 * i = _
        push_cast
        ring
      rw [hpos] at hfield
      rw [Function.update_of_ne (by omega), hfield]
      exact List.getD_eq_getElem _ _ (by simpa using hi')

end UpdCmd

section Layouts

open UpdCmd

variable (conf rsEncMat) (old : Int → Int)

theorem putCoffs_eq (blkId : Int) (c : UpdCmd) :
    putCoffs conf rsEncMat blkId c = c.putAll (coffs conf rsEncMat blkId) := by
  have heach := forEach_eq_putAll (l := List.range conf.ecM)
    (g := fun j : Nat => [rsEncMat (j * conf.ecK + blkId)]) (fun _ _ _ => rfl) c
  rw [← List.map_eq_flatMap] at heach
  exact heach

theorem putParityIds_eq (c : UpdCmd) : putParityIds conf c = c.putAll (parityIds conf) := by
  have heach := forEach_eq_putAll (l := List.range conf.ecM)
    (g := fun i => [parityId conf i]) (fun _ _ _ => rfl) c
  rw [← List.map_eq_flatMap] at heach
  exact heach

/-- A task type and a run of fields in a fresh array. -/
def lay (taskType : Int) (fields : List Int) : UpdCmd :=
  (start old |>.put taskType |>.skip).putAll fields

theorem buildTask1_eq (b : UpdBlock) (collectorId : Int) :
    buildTask1 old b collectorId = lay old 1 [b.id, collectorId] := rfl

theorem buildTask3_eq (blkId : Int) : buildTask3 old blkId = lay old 3 [blkId] := rfl

theorem buildTask5_eq (updNum : Nat) (blkId : Int) :
    buildTask5 old updNum blkId = lay old 5 [(updNum : Int), blkId] := rfl

theorem buildTask6_eq (b : UpdBlock) (parityCollectorId : Int) :
    buildTask6 old b parityCollectorId =
      lay old 6 [b.id, b.offsetAdd, b.updSize, parityCollectorId] := rfl

theorem buildTask2_eq : buildTask2 conf rsEncMat old U =
    lay old 2 ((U.length : Int) ::
      (U.flatMap (fun b => b.id :: coffs conf rsEncMat b.id) ++ parityIds conf)) := by
  have hblks := forEach_eq_putAll (l := U) (f := fun b c => putCoffs conf rsEncMat b.id (c.put b.id))
    (g := fun b => b.id :: coffs conf rsEncMat b.id)
    (fun b _ c => putCoffs_eq conf rsEncMat b.id (c.put b.id))
  simp only [buildTask2, hblks, putParityIds_eq]
  rw [← putAll_append, ← putAll_cons]
  rfl

theorem buildTask4_eq (b : UpdBlock) : buildTask4 conf rsEncMat old b =
    lay old 4 (b.id :: b.offsetAdd :: b.updSize ::
      (coffs conf rsEncMat b.id ++ parityIds conf)) := by
  simp only [buildTask4, putCoffs_eq, putParityIds_eq]
  rw [← putAll_append, ← putAll_cons, ← putAll_cons, ← putAll_cons]
  rfl

theorem buildTask7_eq (parityCollectorId : Int) :
    buildTask7 conf rsEncMat old U parityCollectorId =
      lay old 7 (parityCollectorId :: (U.length : Int) :: ((getUpdSoluCrd U).length : Int) ::
        (U.flatMap (fun b => b.id :: getSubSetId (getUpdSoluCrd U) b.id :: b.offsetAdd ::
          b.updSize :: coffs conf rsEncMat b.id) ++
          (parityIds conf).filter fun blkId => blkId ≠ parityCollectorId)) := by
  let updSolu := getUpdSoluCrd U
  have hblks := forEach_eq_putAll (l := U)
    (f := fun b c => putCoffs conf rsEncMat b.id
      (c.put b.id |>.put (getSubSetId updSolu b.id) |>.put b.offsetAdd |>.put b.updSize))
    (g := fun b => b.id :: getSubSetId updSolu b.id :: b.offsetAdd :: b.updSize ::
      coffs conf rsEncMat b.id)
    (fun b _ c => putCoffs_eq conf rsEncMat b.id _)
  -- The loop skips the collector where the model filters the ids.
  have hids := forEach_eq_putAll (l := List.range conf.ecM)
    (f := fun i c => if parityCollectorId = parityId conf i then c else c.put (parityId conf i))
    (g := fun i => if parityCollectorId = parityId conf i then [] else [parityId conf i])
    (fun i _ c => by split <;> rfl)
  have hfilter : ((List.range conf.ecM).flatMap fun i =>
      if parityCollectorId = parityId conf i then [] else [parityId conf i]) =
      (parityIds conf).filter fun blkId => blkId ≠ parityCollectorId := by
    rw [parityIds]
    induction List.range conf.ecM with
    | nil =>
        rfl
    | cons i l ih =>
        rw [List.flatMap_cons, List.map_cons, List.filter_cons, ih]
        by_cases hi : parityCollectorId = parityId conf i
        · simp [hi]
        · simp [hi, Ne.symm hi]
  simp only [buildTask7]
  rw [hblks, hids, hfilter, ← putAll_append, ← putAll_cons, ← putAll_cons, ← putAll_cons]
  rfl

theorem buildTask8_eq (blkId : Int) : buildTask8 old U blkId =
    lay old 8 (blkId :: ((getUpdSoluCrd U).length : Int) :: (getUpdSoluCrd U).zipIdx.flatMap
      fun it => [(it.2 : Int), (crdOffSize it.1).1, (crdOffSize it.1).2]) := by
  have hsets := forEach_eq_putAll (l := (getUpdSoluCrd U).zipIdx)
    (f := fun it c => c.put it.2 |>.put (crdOffSize it.1).1 |>.put (crdOffSize it.1).2)
    (g := fun it => [(it.2 : Int), (crdOffSize it.1).1, (crdOffSize it.1).2])
    (fun _ _ _ => rfl)
  simp only [buildTask8]
  rw [hsets, ← putAll_cons, ← putAll_cons]
  rfl

theorem writeTask1_eq (b : UpdBlock) (collectorId : Int) :
    writeTask1 old b collectorId = mkCmd 1 [b.id, collectorId] :=
  push_putAll old 1 [b.id, collectorId]

theorem writeTask3_eq (blkId : Int) : writeTask3 old blkId = mkCmd 3 [blkId] :=
  push_putAll old 3 [blkId]

theorem writeTask5_eq (updNum : Nat) (blkId : Int) :
    writeTask5 old updNum blkId = mkCmd 5 [(updNum : Int), blkId] :=
  push_putAll old 5 [(updNum : Int), blkId]

theorem writeTask6_eq (b : UpdBlock) (parityCollectorId : Int) :
    writeTask6 old b parityCollectorId =
      mkCmd 6 [b.id, b.offsetAdd, b.updSize, parityCollectorId] :=
  push_putAll old 6 [b.id, b.offsetAdd, b.updSize, parityCollectorId]

theorem writeTask2_eq : writeTask2 conf rsEncMat old U = raidCollectorCmd conf rsEncMat U :=
  (congrArg push (buildTask2_eq conf rsEncMat old)).trans (push_putAll old 2 _)

theorem writeTask4_eq (b : UpdBlock) :
    writeTask4 conf rsEncMat old b = deltaDataCmd conf rsEncMat b :=
  (congrArg push (buildTask4_eq conf rsEncMat old b)).trans (push_putAll old 4 _)

theorem writeTask7_eq (parityCollectorId : Int) :
    writeTask7 conf rsEncMat old U parityCollectorId =
      crdCollectorCmd conf rsEncMat U parityCollectorId :=
  (congrArg push (buildTask7_eq conf rsEncMat old parityCollectorId)).trans (push_putAll old 7 _)

theorem writeTask8_eq (blkId : Int) : writeTask8 old U blkId = crdParityCmd U blkId :=
  (congrArg push (buildTask8_eq old blkId)).trans (push_putAll old 8 _)

end Layouts

/-! ## Reading -/

/-- What a task reads from its command, under the names of its variables. -/
inductive CmdFields where
  | task1 (blkId collectorId : Int)
  | task2 (updNum : Int) (blkid2coffs : Std.TreeMap Int (List Int)) (parityIdVec : List Int)
  | task3 (blkId : Int)
  | task4 (locBlkId offsetAdd updSize : Int) (coffVec parityIdVec : List Int)
  | task5 (updNum locBlkId : Int)
  | task6 (locBlkId offsetAdd updSize parityCollectorId : Int)
  | task7 (locBlkId updNum subSetNum : Int) (t : CrdBlks) (remainParityIdVec : List Int)
  | task8 (locBlkId subSetNum : Int) (subSetId2offSize : Int → Int × Int)

/-- The fields of a command and the cursor behind them. -/
def readFields (conf : Config) (updCmd : RedisStr) : Except Exit (CmdFields × Int) :=
  let taskType := updCmd.int 0
  if taskType = 1 then
    .ok (.task1 (updCmd.int 8) (updCmd.int 12), 16)
  else if taskType = 2 then
    -- the cursor moves by what the loop reads, and the parity ids follow
    let st := readBlkCoffs updCmd conf.ecM (updCmd.int 8).toNat 12 ∅
    .ok (.task2 (updCmd.int 8) st.1 (updCmd.readInts st.2 conf.ecM), st.2 + 4 * conf.ecM)
  else if taskType = 3 then
    .ok (.task3 (updCmd.int 8), 12)
  else if taskType = 4 then
    .ok (.task4 (updCmd.int 8) (updCmd.int 12) (updCmd.int 16) (updCmd.readInts 20 conf.ecM)
      (updCmd.readInts (20 + 4 * conf.ecM) conf.ecM), 20 + 4 * conf.ecM + 4 * conf.ecM)
  else if taskType = 5 then
    .ok (.task5 (updCmd.int 8) (updCmd.int 12), 16)
  else if taskType = 6 then
    .ok (.task6 (updCmd.int 8) (updCmd.int 12) (updCmd.int 16) (updCmd.int 20), 24)
  else if taskType = 7 then
    -- the parity nodes but the collector follow the solutions
    let st := readCrdBlks updCmd conf.ecM (updCmd.int 12).toNat 20 .empty
    .ok (.task7 (updCmd.int 8) (updCmd.int 12) (updCmd.int 16) st.1
      (updCmd.readInts st.2 (conf.ecM - 1)), st.2 + 4 * ((conf.ecM - 1 : Nat) : Int))
  else if taskType = 8 then
    let st := readSubSets updCmd (updCmd.int 12).toNat 16 fun _ => (0, 0)
    .ok (.task8 (updCmd.int 8) (updCmd.int 12) st.1, st.2)
  else
    .error .errorTaskType

/-- A command is accepted when the cursor ends at its length. -/
def parseCmd (conf : Config) (updCmd : RedisStr) : Except Exit CmdFields :=
  match readFields conf updCmd with
  | .error e => .error e
  | .ok (fields, cur) => if cur ≠ updCmd.int 4 then .error .parseCmdFailed else .ok fields

section Parse

variable {newData : Int → Buf} {loc : Int} {cmd : RedisStr}

theorem popUntil_ne_abort {A : Type} (c : Chan) (never e : Exit) (f : A → RedisStr → A)
    (next : A → Prog) (n : Nat) (acc : A) : .popUntil c never f next n acc ≠ (.abort e : Prog) := by
  cases n with
  | zero =>
      intro h
      cases h
  | succ n =>
      intro h
      cases h

/-- The check of the cursor, in a task and in `parseCmd`. -/
theorem check_iff {c : Prop} [Decidable c] {p : Prog} (hp : p ≠ .abort .parseCmdFailed)
    (fields : CmdFields) :
    (if c then .abort .parseCmdFailed else p) = (.abort .parseCmdFailed : Prog) ↔
      (if c then .error .parseCmdFailed else .ok fields) =
        (.error .parseCmdFailed : Except Exit CmdFields) := by
  by_cases hc : c
  · simp [hc]
  · simp [hc, hp]

/-- The exit of a task for a bad command is the one of `parseCmd`. -/
theorem doProcess_abort_iff :
    doProcess conf newData loc cmd = .abort .parseCmdFailed ↔
      parseCmd conf cmd = .error .parseCmdFailed := by
  unfold doProcess parseCmd readFields
  simp only
  by_cases h1 : cmd.int 0 = 1
  · rw [if_pos h1, if_pos h1]
    exact check_iff (by simp) _
  by_cases h2 : cmd.int 0 = 2
  · rw [if_neg h1, if_neg h1, if_pos h2, if_pos h2]
    refine check_iff ?_ _
    cases mapLoc (readBlkCoffs cmd conf.ecM (cmd.int 8).toNat 12 ∅).1 loc with
    | none =>
        simp
    | some loc₀ =>
        simp
  by_cases h3 : cmd.int 0 = 3
  · rw [if_neg h1, if_neg h1, if_neg h2, if_neg h2, if_pos h3, if_pos h3]
    exact check_iff (by simp) _
  by_cases h4 : cmd.int 0 = 4
  · simp only [h4]
    exact check_iff (by simp) _
  by_cases h5 : cmd.int 0 = 5
  · simp only [h5]
    exact check_iff (by simp) _
  by_cases h6 : cmd.int 0 = 6
  · simp only [h6]
    exact check_iff (by simp) _
  by_cases h7 : cmd.int 0 = 7
  · simp only [h7]
    exact check_iff (popUntil_ne_abort _ _ _ _ _ _ _) _
  by_cases h8 : cmd.int 0 = 8
  · simp only [h8]
    exact check_iff (popUntil_ne_abort _ _ _ _ _ _ _) _
  · simp [h1, h2, h3, h4, h5, h6, h7, h8]

end Parse

/-! ## Round trip -/

/-- A command is read back: its length is the number of bytes pushed, the cursor ends there, the
fields are as they should be, and no node takes the exit for a bad command. -/
structure RoundTrip (conf : Config) (updCmd : RedisStr) (fields : CmdFields → Prop) : Prop where
  len_eq : updCmd.int 4 = 4 * updCmd.ints.length + updCmd.bytes.length
  read : ∃ f, readFields conf updCmd = .ok (f, updCmd.int 4) ∧ fields f
  no_exit : ∀ newData loc, doProcess conf newData loc updCmd ≠ .abort .parseCmdFailed

theorem roundTrip_mkCmd {taskType : Int} {l : List Int} {fields : CmdFields → Prop} {f : CmdFields}
    (hread : readFields conf (mkCmd taskType l) = .ok (f, (mkCmd taskType l).int 4))
    (hf : fields f) : RoundTrip conf (mkCmd taskType l) fields where
  len_eq := by
    rw [mkCmd_len]
    simp only [mkCmd, List.length_cons, List.length_nil]
    push_cast
    ring
  read := ⟨f, hread, hf⟩
  no_exit := by
    intro newData loc habort
    have herror := doProcess_abort_iff.1 habort
    simp only [parseCmd, hread, ne_eq, not_true_eq_false, if_false] at herror
    cases herror

section Tasks

variable (conf rsEncMat) (old : Int → Int)

theorem roundTrip_task1 (b : UpdBlock) (collectorId : Int) :
    RoundTrip conf (writeTask1 old b collectorId) (· = .task1 b.id collectorId) := by
  rw [writeTask1_eq]
  exact roundTrip_mkCmd rfl rfl

theorem roundTrip_task3 (blkId : Int) :
    RoundTrip conf (writeTask3 old blkId) (· = .task3 blkId) := by
  rw [writeTask3_eq]
  exact roundTrip_mkCmd rfl rfl

theorem roundTrip_task5 (updNum : Nat) (blkId : Int) :
    RoundTrip conf (writeTask5 old updNum blkId) (· = .task5 updNum blkId) := by
  rw [writeTask5_eq]
  exact roundTrip_mkCmd rfl rfl

theorem roundTrip_task6 (b : UpdBlock) (parityCollectorId : Int) :
    RoundTrip conf (writeTask6 old b parityCollectorId)
      (· = .task6 b.id b.offsetAdd b.updSize parityCollectorId) := by
  rw [writeTask6_eq]
  exact roundTrip_mkCmd rfl rfl

theorem roundTrip_task2 (hm : 0 < conf.ecM) (hnodup : (U.map UpdBlock.id).Nodup) :
    RoundTrip conf (writeTask2 conf rsEncMat old U) fun f => ∃ blkid2coffs,
      f = .task2 U.length blkid2coffs (parityIds conf) ∧ IsCoffMap conf rsEncMat U blkid2coffs := by
  have hnum : (raidCollectorCmd conf rsEncMat U).int 8 = (U.length : Int) := rfl
  have hat : (raidCollectorCmd conf rsEncMat U).At 12
      (U.flatMap (fun b => b.id :: coffs conf rsEncMat b.id) ++ parityIds conf) :=
    (mkCmd_fields 2 _).tail
  have hspec := readBlkCoffs_spec hm U hat hnodup ∅ fun b _ => by simp
  have hlen : (raidCollectorCmd conf rsEncMat U).int 4 =
      12 + U.length * (4 + 4 * conf.ecM) + 4 * conf.ecM := by
    rw [raidCollectorCmd, mkCmd_len]
    simp only [List.length_cons, List.length_append, List.length_flatMap, coffs_length,
      List.map_const', List.sum_replicate, smul_eq_mul, parityIds_length]
    push_cast
    ring
  simp only at hspec
  rw [writeTask2_eq]
  have hread : readFields conf (raidCollectorCmd conf rsEncMat U) =
      let st := readBlkCoffs (raidCollectorCmd conf rsEncMat U) conf.ecM U.length 12 ∅
      .ok (.task2 U.length st.1 ((raidCollectorCmd conf rsEncMat U).readInts st.2 conf.ecM),
        st.2 + 4 * conf.ecM) := rfl
  generalize readBlkCoffs (raidCollectorCmd conf rsEncMat U) conf.ecM U.length 12 ∅ = st at *
  obtain ⟨hget, hrest, hcur⟩ := hspec
  have hparity : (raidCollectorCmd conf rsEncMat U).readInts st.2 conf.ecM = parityIds conf := by
    rw [← List.append_nil (parityIds conf)] at hrest
    simpa using hrest.readInts
  simp only at hread
  rw [hparity, hcur, ← hlen] at hread
  refine roundTrip_mkCmd hread ⟨st.1, rfl, fun j => ?_⟩
  rw [hget j]
  by_cases hj : j ∈ U.map UpdBlock.id <;> simp [hj]

theorem roundTrip_task4 (b : UpdBlock) :
    RoundTrip conf (writeTask4 conf rsEncMat old b)
      (· = .task4 b.id b.offsetAdd b.updSize (coffs conf rsEncMat b.id) (parityIds conf)) := by
  have hat : (deltaDataCmd conf rsEncMat b).At 20
      (coffs conf rsEncMat b.id ++ parityIds conf) := (mkCmd_fields 4 _).tail.tail.tail
  have hcoffs := hat.readInts
  have hparity := hat.append
  rw [← List.append_nil (parityIds conf)] at hparity
  have hids := hparity.readInts
  rw [coffs_length] at hcoffs hids
  rw [parityIds_length] at hids
  have hlen : (deltaDataCmd conf rsEncMat b).int 4 = 20 + 4 * conf.ecM + 4 * conf.ecM := by
    rw [deltaDataCmd, mkCmd_len]
    simp only [List.length_cons, List.length_append, coffs_length, parityIds_length]
    push_cast
    ring
  have hread : readFields conf (deltaDataCmd conf rsEncMat b) =
      .ok (.task4 b.id b.offsetAdd b.updSize
        ((deltaDataCmd conf rsEncMat b).readInts 20 conf.ecM)
        ((deltaDataCmd conf rsEncMat b).readInts (20 + 4 * conf.ecM) conf.ecM),
          20 + 4 * conf.ecM + 4 * conf.ecM) := rfl
  rw [hcoffs, hids, ← hlen] at hread
  rw [writeTask4_eq]
  exact roundTrip_mkCmd hread rfl

/-- The maps hold what was written for each block, under the sub-sets of the update vector. -/
theorem roundTrip_task7 {q : Nat} (hq : q < conf.ecM) (hnodup : (U.map UpdBlock.id).Nodup) :
    RoundTrip conf (writeTask7 conf rsEncMat old U (parityId conf q)) fun f => ∃ t,
      f = .task7 (parityId conf q) U.length (getUpdSoluCrd U).length t
        ((parityIds conf).filter fun blkId => blkId ≠ parityId conf q) ∧
      IsCrdTable conf rsEncMat (getSubSetId (getUpdSoluCrd U)) U t := by
  let cmd := crdCollectorCmd conf rsEncMat U (parityId conf q)
  have hat := crdCollectorCmd_at conf rsEncMat U (parityId conf q)
  have hspec := readCrdBlks_spec (getSubSetId (getUpdSoluCrd U)) U hat .empty
  have hids : cmd.readInts (20 + U.length * (16 + 4 * conf.ecM)) (conf.ecM - 1) =
      (parityIds conf).filter fun blkId => blkId ≠ parityId conf q := by
    have hflat : ((U.flatMap fun b => b.id :: getSubSetId (getUpdSoluCrd U) b.id :: b.offsetAdd ::
        b.updSize :: coffs conf rsEncMat b.id).length : Int) = U.length * (4 + conf.ecM) := by
      simp only [List.length_flatMap, List.length_cons, coffs_length, List.map_const',
        List.sum_replicate, smul_eq_mul]
      push_cast
      ring
    have hrest := hat.append
    rw [← List.append_nil ((parityIds conf).filter _)] at hrest
    have hints := hrest.readInts
    rw [hflat, length_filter_parityIds hq] at hints
    have hcur : 20 + 4 * ((U.length : Int) * (4 + conf.ecM)) =
        20 + U.length * (16 + 4 * conf.ecM) := by ring
    rwa [hcur] at hints
  have hread : readFields conf cmd =
      let st := readCrdBlks cmd conf.ecM U.length 20 .empty
      .ok (.task7 (parityId conf q) U.length (getUpdSoluCrd U).length st.1
        (cmd.readInts st.2 (conf.ecM - 1)), st.2 + 4 * ((conf.ecM - 1 : Nat) : Int)) := rfl
  rw [hspec] at hread
  simp only at hread
  rw [hids, ← crdCollectorCmd_len conf rsEncMat U hq] at hread
  rw [writeTask7_eq]
  exact roundTrip_mkCmd hread ⟨_, rfl, isCrdTable _ hnodup⟩

theorem roundTrip_task8 (blkId : Int) :
    RoundTrip conf (writeTask8 old U blkId) fun f => ∃ subSetId2offSize,
      f = .task8 blkId (getUpdSoluCrd U).length subSetId2offSize ∧
      ∀ j < (getUpdSoluCrd U).length,
        subSetId2offSize j = crdOffSize ((getUpdSoluCrd U).getD j []) := by
  have hat : (crdParityCmd U blkId).At 16 ((getUpdSoluCrd U).zipIdx.flatMap fun it =>
      [(it.2 : Int), (crdOffSize it.1).1, (crdOffSize it.1).2]) := (mkCmd_fields 8 _).tail.tail
  have hspec := readSubSets_spec _ hat fun _ => (0, 0)
  have hlen : (crdParityCmd U blkId).int 4 = 16 + 12 * ((getUpdSoluCrd U).length : Int) := by
    rw [crdParityCmd, mkCmd_len]
    simp only [List.length_cons, List.length_flatMap, List.length_nil, List.map_const',
      List.length_zipIdx, List.sum_replicate, smul_eq_mul]
    push_cast
    ring
  have hread : readFields conf (crdParityCmd U blkId) =
      let st := readSubSets (crdParityCmd U blkId) (getUpdSoluCrd U).length 16 fun _ => (0, 0)
      .ok (.task8 blkId (getUpdSoluCrd U).length st.1, st.2) := rfl
  rw [List.length_zipIdx] at hspec
  rw [hspec] at hread
  simp only at hread
  rw [← hlen] at hread
  rw [writeTask8_eq]
  exact roundTrip_mkCmd hread ⟨_, rfl, fun j hj => subSetTable_apply hj⟩

end Tasks

/-! ## The commands of the three policies -/

section Policies

variable (conf rsEncMat U) (old : Int → Int) (rand : Nat)

theorem raidUpdate_eq_written :
    raidUpdate conf rsEncMat U rand =
      let collectorId := (U.getD (rand % U.length) default).id
      (U.filter fun b => b.id ≠ collectorId).map (fun b =>
        (.node b.id, .updCmds, writeTask1 old b collectorId)) ++
      [(.node collectorId, .updCmds, writeTask2 conf rsEncMat old U)] ++
      (parityIds conf).map fun blkId => (.node blkId, .updCmds, writeTask3 old blkId) := by
  simp only [raidUpdate, writeTask1_eq, writeTask2_eq, writeTask3_eq]

theorem deltaUpdate_eq_written :
    deltaUpdate conf rsEncMat U =
      (parityIds conf).map (fun blkId => (.node blkId, .updCmds, writeTask5 old U.length blkId)) ++
      U.map fun b => (.node b.id, .updCmds, writeTask4 conf rsEncMat old b) := by
  simp only [deltaUpdate, writeTask4_eq, writeTask5_eq]

theorem crdUpdate_eq_written (next : Prog) :
    crdUpdate conf rsEncMat U rand next =
      let parityCollectorId := parityId conf (rand % conf.ecM)
      .sendAll (U.map fun b => (.node b.id, .updCmds, writeTask6 old b parityCollectorId)) <|
      if U.any (fun b => getSubSetId (getUpdSoluCrd U) b.id = -1) then .abort .errorSubSetId
      else .sendAll
        ((.node parityCollectorId, .updCmds, writeTask7 conf rsEncMat old U parityCollectorId) ::
          ((parityIds conf).filter fun blkId => blkId ≠ parityCollectorId).map fun blkId =>
            (.node blkId, .updCmds, writeTask8 old U blkId)) next := by
  simp only [crdUpdate, writeTask6_eq, writeTask7_eq, writeTask8_eq]

/-- Every command is read as it was written, and accepted. -/
structure AllRoundTrip : Prop where
  raid_data : ∀ b ∈ U, ∀ collectorId,
    RoundTrip conf (writeTask1 old b collectorId) (· = .task1 b.id collectorId)
  raid_collector : RoundTrip conf (writeTask2 conf rsEncMat old U) fun f => ∃ blkid2coffs,
    f = .task2 U.length blkid2coffs (parityIds conf) ∧ IsCoffMap conf rsEncMat U blkid2coffs
  raid_parity : ∀ blkId ∈ parityIds conf,
    RoundTrip conf (writeTask3 old blkId) (· = .task3 blkId)
  delta_data : ∀ b ∈ U, RoundTrip conf (writeTask4 conf rsEncMat old b)
    (· = .task4 b.id b.offsetAdd b.updSize (coffs conf rsEncMat b.id) (parityIds conf))
  delta_parity : ∀ blkId ∈ parityIds conf,
    RoundTrip conf (writeTask5 old U.length blkId) (· = .task5 U.length blkId)
  crd_data : ∀ b ∈ U, ∀ q < conf.ecM, RoundTrip conf (writeTask6 old b (parityId conf q))
    (· = .task6 b.id b.offsetAdd b.updSize (parityId conf q))
  crd_collector : ∀ q < conf.ecM,
    RoundTrip conf (writeTask7 conf rsEncMat old U (parityId conf q)) fun f => ∃ t,
      f = .task7 (parityId conf q) U.length (getUpdSoluCrd U).length t
        ((parityIds conf).filter fun blkId => blkId ≠ parityId conf q) ∧
      IsCrdTable conf rsEncMat (getSubSetId (getUpdSoluCrd U)) U t
  crd_parity : ∀ blkId ∈ parityIds conf,
    RoundTrip conf (writeTask8 old U blkId) fun f => ∃ subSetId2offSize,
      f = .task8 blkId (getUpdSoluCrd U).length subSetId2offSize ∧
      ∀ j < (getUpdSoluCrd U).length,
        subSetId2offSize j = crdOffSize ((getUpdSoluCrd U).getD j [])

variable {conf U}

/-- The round trip of the eight layouts, for every coding matrix, update vector and collector. -/
theorem upd_cmd_round_trip (hm : 1 ≤ conf.ecM) (hnodup : (U.map UpdBlock.id).Nodup) :
    AllRoundTrip conf rsEncMat U old where
  raid_data := fun b _ collectorId => roundTrip_task1 conf old b collectorId
  raid_collector := roundTrip_task2 conf rsEncMat old hm hnodup
  raid_parity := fun blkId _ => roundTrip_task3 conf old blkId
  delta_data := fun b _ => roundTrip_task4 conf rsEncMat old b
  delta_parity := fun blkId _ => roundTrip_task5 conf old U.length blkId
  crd_data := fun b _ q _ => roundTrip_task6 conf old b (parityId conf q)
  crd_collector := fun _ hq => roundTrip_task7 conf rsEncMat old hq hnodup
  crd_parity := fun blkId _ => roundTrip_task8 conf old blkId

theorem upd_cmd_round_trip_pairConf :
    AllRoundTrip pairConf (fun _ => 1) [⟨0, 0, 1⟩] fun _ => 7 :=
  upd_cmd_round_trip (fun _ => 1) (fun _ => 7) (by decide) (by decide)

end Policies

end CoRD
