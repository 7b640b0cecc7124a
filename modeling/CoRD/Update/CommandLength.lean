import CoRD.Update.Command

/-!
# CommandLength — what commands need of the array they are built in

Coordinator and node have an array of `COMMAND_MAX_LENGTH` bytes each for a command, and neither looks
at a length.  A command with `n` fields writes the ints at 0, 4, …, 4 (n + 1) (`writesAt_lay`), and its
length is 4 (n + 2).  Only the commands that go to a collector or carry a whole column grow with the
code: those of tasks 2, 4, 7 and 8.
-/

namespace CoRD

variable {conf : Config} {rsEncMat : Int → Int} {U : List UpdBlock}

/-- A command as it is built, for each old content of the array. -/
abbrev BuildCmd : Type :=
  (Int → Int) → UpdCmd

namespace UpdCmd

/-- `memcpy(upd_cmd + 4, &cur, len)`. -/
def putLen (c : UpdCmd) : UpdCmd :=
  { c with word := Function.update c.word 4 c.cur }

end UpdCmd

/-! ## The commands of a policy -/

section Builds

variable (conf rsEncMat)

def raidBuilds (updBlkVec : List UpdBlock) (rand : Nat) : List BuildCmd :=
  let collectorId := (updBlkVec.getD (rand % updBlkVec.length) default).id
  (updBlkVec.filter fun b => b.id ≠ collectorId).map (fun b old => buildTask1 old b collectorId) ++
  [fun old => buildTask2 conf rsEncMat old updBlkVec] ++
  (parityIds conf).map fun blkId old => buildTask3 old blkId

def deltaBuilds (updBlkVec : List UpdBlock) : List BuildCmd :=
  (parityIds conf).map (fun blkId old => buildTask5 old updBlkVec.length blkId) ++
  updBlkVec.map fun b old => buildTask4 conf rsEncMat old b

def crdBuilds (updBlkVec : List UpdBlock) (rand : Nat) : List BuildCmd :=
  let parityCollectorId := parityId conf (rand % conf.ecM)
  updBlkVec.map (fun b old => buildTask6 old b parityCollectorId) ++
  [fun old => buildTask7 conf rsEncMat old updBlkVec parityCollectorId] ++
  ((parityIds conf).filter fun blkId => blkId ≠ parityCollectorId).map fun blkId old =>
    buildTask8 old updBlkVec blkId

/-- These are the commands that `RaidUpdate` pushes, whatever the array holds. -/
theorem raidBuilds_push (old : Int → Int) (rand : Nat) :
    (raidUpdate conf rsEncMat U rand).map (fun m => m.2.2) =
      (raidBuilds conf rsEncMat U rand).map fun build => (build old).push := by
  have h2 : [raidCollectorCmd conf rsEncMat U] = [(buildTask2 conf rsEncMat old U).push] :=
    congrArg (fun cmd => [cmd]) (writeTask2_eq conf rsEncMat old).symm
  simp only [raidUpdate, raidBuilds, List.map_append, List.map_map]
  refine congrArg₂ _ (congrArg₂ _ ?_ h2) ?_
  · exact List.map_congr_left fun b _ => (writeTask1_eq old b _).symm
  · exact List.map_congr_left fun blkId _ => (writeTask3_eq old blkId).symm

theorem deltaBuilds_push (old : Int → Int) :
    (deltaUpdate conf rsEncMat U).map (fun m => m.2.2) =
      (deltaBuilds conf rsEncMat U).map fun build => (build old).push := by
  simp only [deltaUpdate, deltaBuilds, List.map_append, List.map_map]
  refine congrArg₂ _ ?_ ?_
  · exact List.map_congr_left fun blkId _ => (writeTask5_eq old U.length blkId).symm
  · exact List.map_congr_left fun b _ => (writeTask4_eq conf rsEncMat old b).symm

/-- `CrdUpdate` sends these commands, the first ones before it looks at the sub-set ids. -/
theorem crdBuilds_push (old : Int → Int) (rand : Nat) (next : Prog) :
    ∃ first rest : List (Host × Chan × RedisStr),
      crdUpdate conf rsEncMat U rand next =
        .sendAll first (if U.any (fun b => getSubSetId (getUpdSoluCrd U) b.id = -1) then
          .abort .errorSubSetId else .sendAll rest next) ∧
      (first ++ rest).map (fun m => m.2.2) =
        (crdBuilds conf rsEncMat U rand).map fun build => (build old).push := by
  have h7 := (writeTask7_eq conf rsEncMat old (U := U) (parityId conf (rand % conf.ecM))).symm
  refine ⟨_, _, rfl, ?_⟩
  simp only [crdBuilds, List.map_append, List.map_map, List.map_cons,
    List.append_assoc, List.singleton_append]
  refine congrArg₂ _ ?_ (congrArg₂ _ h7 ?_)
  · exact List.map_congr_left fun b _ => (writeTask6_eq old b _).symm
  · exact List.map_congr_left fun blkId _ => (writeTask8_eq old blkId).symm

end Builds

/-! ## Bounds -/

/-- The int at `pos` is written while the command is built: some old content is replaced there. -/
def WritesAt (build : BuildCmd) (pos : Int) : Prop :=
  ∃ old, (build old).putLen.word pos ≠ old pos

/-- Every byte written lies in the array. -/
def IndicesBelow (build : BuildCmd) : Prop :=
  ∀ pos, WritesAt build pos → 0 ≤ pos ∧ pos + 4 ≤ COMMAND_MAX_LENGTH

/-- The number of bytes that the node copies: what it reads behind the task type. -/
def CmdLenBelow (build : BuildCmd) : Prop :=
  ∀ old, (build old).push.int 4 < COMMAND_MAX_LENGTH

/-- No command of the list leaves an array. -/
structure NoOverflow (builds : List BuildCmd) : Prop where
  indices : ∀ build ∈ builds, IndicesBelow build
  cmd_len : ∀ build ∈ builds, CmdLenBelow build

/-- The command lays down a task type and `n` fields. -/
def Lays (build : BuildCmd) (n : Nat) : Prop :=
  ∃ (taskType : Int) (fields : List Int), fields.length = n ∧
    ∀ old, build old = lay old taskType fields

namespace UpdCmd

/-- What a run of writes does not reach stays. -/
theorem putAll_frame {l : List Int} {c : UpdCmd} {pos : Int}
    (h : ∀ i < l.length, pos ≠ c.cur + 4 * (i : Nat)) : (c.putAll l).word pos = c.word pos := by
  induction l generalizing c with
  | nil =>
      rfl
  | cons x l ih =>
      rw [putAll_cons, ih]
      · have hfirst : pos ≠ c.cur + 4 * ((0 : Nat) : Int) := h 0 (Nat.succ_pos _)
        exact Function.update_of_ne (by simpa using hfirst) _ _
      · intro i hi
        have hnext := h (i + 1) (Nat.succ_lt_succ hi)
        intro heq
        apply hnext
        rw [heq]
        show c.cur + 4 + 4 * (i : Int) = c.cur + 4 * ((i + 1 : Nat) : Int)
        push_cast
        ring

end UpdCmd

section Lays

variable {build : BuildCmd} {n : Nat}

theorem Lays.int_len (h : Lays build n) (old : Int → Int) :
    (build old).push.int 4 = 4 * ((n : Int) + 2) := by
  rcases h with ⟨taskType, fields, rfl, hbuild⟩
  rw [hbuild, lay, UpdCmd.push_putAll, mkCmd_len]

/-- A command of `n` fields writes `n + 2` ints, one behind the other. -/
theorem writesAt_lay (h : Lays build n) {pos : Int} :
    WritesAt build pos ↔ ∃ i : Nat, i < n + 2 ∧ pos = 4 * i := by
  rcases h with ⟨taskType, fields, rfl, hbuild⟩
  have hword : ∀ old, (build old).putLen.word =
      Function.update (lay old taskType fields).word 4 (build old).cur := by
    intro old
    rw [hbuild old]
    rfl
  constructor
  · intro hwrites
    rcases hwrites with ⟨old, hne⟩
    by_contra hno
    -- off these places neither the length nor a field nor the task type is written
    have hfree : ∀ i : Nat, i < fields.length + 2 → pos ≠ 4 * i := fun i hi heq => hno ⟨i, hi, heq⟩
    have h0 := hfree 0 (by omega)
    have h1 := hfree 1 (by omega)
    apply hne
    rw [hword, Function.update_of_ne (by simpa using h1), lay, UpdCmd.putAll_frame]
    · have hstart : pos ≠ (UpdCmd.start old).cur := h0
      exact Function.update_of_ne hstart _ _
    · intro i hi heq
      apply hfree (i + 2) (Nat.add_lt_add_right hi 2)
      rw [heq]
      show (0 : Int) + 4 + 4 + 4 * i = 4 * ((i + 2 : Nat) : Int)
      push_cast
      ring
  · intro hpos
    rcases hpos with ⟨i, hi, rfl⟩
    -- what is written there does not depend on the old content
    have hsame : ∃ x : Int, ∀ old, (build old).putLen.word (4 * i) = x := by
      rcases i with _ | _ | i
      · refine ⟨taskType, fun old => ?_⟩
        have hkeep := (UpdCmd.putAll_word fields
          (UpdCmd.start old |>.put taskType |>.skip)).2 0
        rw [hword, Function.update_of_ne (by decide)]
        exact hkeep (by show (0 : Int) < 0 + 4 + 4; decide)
      · refine ⟨4 * ((fields.length : Int) + 2), fun old => ?_⟩
        rw [hword]
        refine (Function.update_self _ _ _).trans ?_
        rw [hbuild, lay, UpdCmd.putAll_cur]
        show (0 : Int) + 4 + 4 + 4 * fields.length = _
        ring
      · refine ⟨fields.getD i 0, fun old => ?_⟩
        have hlt : i < fields.length := by omega
        have hnew := (UpdCmd.putAll_word fields
          (UpdCmd.start old |>.put taskType |>.skip)).1 i hlt
        have hpos : (UpdCmd.start old |>.put taskType |>.skip).cur + 4 * (i : Int) =
            4 * ((i + 2 : Nat) : Int) := by
          show (0 : Int) + 4 + 4 + 4 * i = 4 * ((i + 2 : Nat) : Int)
          push_cast
          ring
        rw [hpos] at hnew
        rw [hword, Function.update_of_ne (by omega)]
        exact hnew
    rcases hsame with ⟨x, hx⟩
    refine ⟨fun _ => x + 1, ?_⟩
    rw [hx]
    exact (Int.lt_succ x).ne

theorem indicesBelow_lay (h : Lays build n) : IndicesBelow build ↔ n + 2 ≤ 256 := by
  constructor
  · intro hbelow
    have hlast := (hbelow (4 * ((n + 1 : Nat) : Int))
      ((writesAt_lay h).2 ⟨n + 1, Nat.lt_succ_self _, rfl⟩)).2
    unfold COMMAND_MAX_LENGTH at hlast
    omega
  · intro hle pos hpos
    rcases (writesAt_lay h).1 hpos with ⟨i, hi, rfl⟩
    unfold COMMAND_MAX_LENGTH
    omega

theorem cmdLenBelow_lay (h : Lays build n) : CmdLenBelow build ↔ n + 2 < 256 := by
  simp only [CmdLenBelow, h.int_len, COMMAND_MAX_LENGTH, forall_const]
  omega

/-- A list of commands is as safe as its largest one. -/
theorem noOverflow_iff_of_largest {builds : List BuildCmd}
    (hall : ∀ build ∈ builds, ∃ i ≤ n, Lays build i) (hmax : ∃ build ∈ builds, Lays build n) :
    NoOverflow builds ↔ n + 2 < 256 := by
  constructor
  · intro h
    rcases hmax with ⟨build, hmem, hlay⟩
    exact (cmdLenBelow_lay hlay).1 (h.cmd_len build hmem)
  · intro hlt
    constructor
    case indices =>
      intro build hmem
      rcases hall build hmem with ⟨i, hi, hlay⟩
      exact (indicesBelow_lay hlay).2 (by omega)
    case cmd_len =>
      intro build hmem
      rcases hall build hmem with ⟨i, hi, hlay⟩
      exact (cmdLenBelow_lay hlay).2 (by omega)

end Lays

/-! ## The largest commands -/

section Policies

variable (conf rsEncMat)

theorem length_getUpdSoluCrd_le (U : List UpdBlock) : (getUpdSoluCrd U).length ≤ U.length := by
  fun_induction getUpdSoluCrd U with
  | case1 =>
      exact le_refl 0
  | case2 blk D st ih =>
      exact Nat.succ_le_succ (ih.trans (length_growSubSet_le [blk] D))

/-- The fields of blocks with their columns: `w` words and the column for each block. -/
theorem length_columns (U : List UpdBlock) (f : UpdBlock → List Int) {w : Nat}
    (hw : ∀ b, (f b).length = w) :
    (U.flatMap fun b => f b ++ coffs conf rsEncMat b.id).length = U.length * (w + conf.ecM) := by
  induction U with
  | nil =>
      simp
  | cons b U ih =>
      rw [List.flatMap_cons, List.length_append, List.length_append, ih, hw, coffs_length,
        List.length_cons, Nat.succ_mul, Nat.add_comm]

theorem lays_task2 (U : List UpdBlock) : Lays (fun old => buildTask2 conf rsEncMat old U)
    (1 + U.length * (1 + conf.ecM) + conf.ecM) := by
  refine ⟨2, _, ?_, fun old => buildTask2_eq conf rsEncMat old⟩
  have hcols := length_columns conf rsEncMat U (fun b => [b.id]) (w := 1) fun _ => rfl
  simp only [List.singleton_append] at hcols
  rw [List.length_cons, List.length_append, hcols, parityIds_length]
  ring

theorem lays_task4 (b : UpdBlock) : Lays (fun old => buildTask4 conf rsEncMat old b)
    (3 + 2 * conf.ecM) := by
  refine ⟨4, _, ?_, fun old => buildTask4_eq conf rsEncMat old b⟩
  simp only [List.length_cons, List.length_append, coffs_length, parityIds_length]
  ring

variable {conf} in
theorem lays_task7 (U : List UpdBlock) {q : Nat} (hq : q < conf.ecM) :
    Lays (fun old => buildTask7 conf rsEncMat old U (parityId conf q))
      (3 + U.length * (4 + conf.ecM) + (conf.ecM - 1)) := by
  refine ⟨7, _, ?_, fun old => buildTask7_eq conf rsEncMat old _⟩
  have hcols := length_columns conf rsEncMat U (w := 4) (fun b =>
    [b.id, getSubSetId (getUpdSoluCrd U) b.id, b.offsetAdd, b.updSize]) fun _ => rfl
  simp only [List.cons_append, List.nil_append] at hcols
  simp only [List.length_cons, List.length_append, hcols, length_filter_parityIds hq]
  ring

theorem lays_task8 (U : List UpdBlock) (blkId : Int) : Lays (fun old => buildTask8 old U blkId)
    (2 + 3 * (getUpdSoluCrd U).length) := by
  refine ⟨8, _, ?_, fun old => buildTask8_eq old blkId⟩
  simp only [List.length_cons, List.length_flatMap, List.length_nil, List.map_const',
    List.length_zipIdx, List.sum_replicate, smul_eq_mul]
  ring

variable {conf}

theorem raid_noOverflow_iff (hm : 1 ≤ conf.ecM) (U : List UpdBlock) (rand : Nat) :
    NoOverflow (raidBuilds conf rsEncMat U rand) ↔ (U.length + 1) * (conf.ecM + 1) + 2 < 256 := by
  have hcount : 1 + U.length * (1 + conf.ecM) + conf.ecM + 2 =
      (U.length + 1) * (conf.ecM + 1) + 2 := by ring
  have hpos := Nat.zero_le (U.length * (1 + conf.ecM))
  rw [← hcount]
  apply noOverflow_iff_of_largest
  · intro build hmem
    simp only [raidBuilds, List.mem_append, List.mem_map, List.mem_singleton] at hmem
    rcases hmem with (hdata | hcollector) | hparity
    · rcases hdata with ⟨b, _, rfl⟩
      exact ⟨2, by omega, 1, _, rfl, fun old => buildTask1_eq old b _⟩
    · rw [hcollector]
      exact ⟨_, le_refl _, lays_task2 conf rsEncMat U⟩
    · rcases hparity with ⟨blkId, _, rfl⟩
      exact ⟨1, by omega, 3, _, rfl, fun old => buildTask3_eq old blkId⟩
  · refine ⟨_, ?_, lays_task2 conf rsEncMat U⟩
    exact List.mem_append_left _ (List.mem_append_right _ (List.mem_singleton_self _))

theorem delta_noOverflow_iff (hne : U ≠ []) :
    NoOverflow (deltaBuilds conf rsEncMat U) ↔ 2 * conf.ecM + 5 < 256 := by
  have hcount : 3 + 2 * conf.ecM + 2 = 2 * conf.ecM + 5 := by ring
  rw [← hcount]
  apply noOverflow_iff_of_largest
  · intro build hmem
    simp only [deltaBuilds, List.mem_append, List.mem_map] at hmem
    rcases hmem with hparity | hdata
    · rcases hparity with ⟨blkId, _, rfl⟩
      exact ⟨2, by omega, 5, _, rfl, fun old => buildTask5_eq old U.length blkId⟩
    · rcases hdata with ⟨b, _, rfl⟩
      exact ⟨_, le_refl _, lays_task4 conf rsEncMat b⟩
  · rcases List.exists_mem_of_ne_nil U hne with ⟨b, hb⟩
    refine ⟨_, ?_, lays_task4 conf rsEncMat b⟩
    exact List.mem_append_right _ (List.mem_map_of_mem hb)

theorem crd_noOverflow_iff (hne : U ≠ []) (hm : 1 ≤ conf.ecM) (rand : Nat) :
    NoOverflow (crdBuilds conf rsEncMat U rand) ↔ (U.length + 1) * (conf.ecM + 4) < 256 := by
  have hq : rand % conf.ecM < conf.ecM := Nat.mod_lt _ hm
  have hlen := List.length_pos_iff.2 hne
  have hsets := length_getUpdSoluCrd_le U
  have hwide : U.length * 3 ≤ U.length * (4 + conf.ecM) := Nat.mul_le_mul_left _ (by omega)
  have hcount : 3 + U.length * (4 + conf.ecM) + (conf.ecM - 1) + 2 =
      (U.length + 1) * (conf.ecM + 4) := by
    rw [Nat.succ_mul, Nat.add_comm conf.ecM 4]
    omega
  rw [← hcount]
  apply noOverflow_iff_of_largest
  · intro build hmem
    simp only [crdBuilds, List.mem_append, List.mem_map, List.mem_singleton] at hmem
    rcases hmem with (hdata | hcollector) | hparity
    · rcases hdata with ⟨b, _, rfl⟩
      exact ⟨4, by omega, 6, _, rfl, fun old => buildTask6_eq old b _⟩
    · rw [hcollector]
      exact ⟨_, le_refl _, lays_task7 rsEncMat U hq⟩
    · -- a sub-set has at least one block, and its three words are fewer than those of the block
      rcases hparity with ⟨blkId, _, rfl⟩
      exact ⟨_, by omega, lays_task8 U blkId⟩
  · refine ⟨_, ?_, lays_task7 rsEncMat U hq⟩
    exact List.mem_append_left _ (List.mem_append_right _ (List.mem_singleton_self _))

/-- For each policy, the codes and update vectors whose commands fit. -/
theorem noOverflow_iff (hv : ValidUpd conf U) (hm : 1 ≤ conf.ecM) (rand : Nat) :
    (NoOverflow (raidBuilds conf rsEncMat U rand) ↔
      (U.length + 1) * (conf.ecM + 1) + 2 < 256) ∧
    (NoOverflow (deltaBuilds conf rsEncMat U) ↔ 2 * conf.ecM + 5 < 256) ∧
    (NoOverflow (crdBuilds conf rsEncMat U rand) ↔ (U.length + 1) * (conf.ecM + 4) < 256) :=
  ⟨raid_noOverflow_iff rsEncMat hm U rand, delta_noOverflow_iff rsEncMat hv.ne_nil,
    crd_noOverflow_iff rsEncMat hv.ne_nil hm rand⟩

end Policies

/-- One block of one data block and one parity block. -/
theorem noOverflow_pair :
    NoOverflow (raidBuilds pairConf (fun _ => 1) [⟨0, 0, 1⟩] 0) ∧
      NoOverflow (deltaBuilds pairConf (fun _ => 1) [⟨0, 0, 1⟩]) ∧
      NoOverflow (crdBuilds pairConf (fun _ => 1) [⟨0, 0, 1⟩] 0) := by
  have hfit := noOverflow_iff (fun _ => 1)
    (validUpd_pairStripes ⟨.raid, [⟨0, 0, 1⟩], 0⟩ List.mem_cons_self) (le_refl 1) 0
  exact ⟨hfit.1.2 (by decide), hfit.2.1.2 (by decide), hfit.2.2.2 (by decide)⟩

/-- Sixteen data blocks and twelve parity blocks. -/
def wideConf : Config := ⟨16, 28, 1, Config.one_le⟩

/-- An update of every data block. -/
def wideUpd : List UpdBlock :=
  (List.range 16).map fun i : Nat => ⟨i, 0, 1⟩

theorem validUpd_wideUpd : ValidUpd wideConf wideUpd :=
  ⟨by decide, by decide, by decide⟩

/-- The command of task 7 has 272 words there, and the array room for 256. -/
theorem not_noOverflow_wide :
    ¬ ∀ (conf : Config) (rsEncMat : Int → Int) (U : List UpdBlock) (rand : Nat), 1 ≤ conf.ecM →
      conf.ecK + conf.ecM ≤ 256 → ValidUpd conf U →
        NoOverflow (raidBuilds conf rsEncMat U rand) ∧ NoOverflow (deltaBuilds conf rsEncMat U) ∧
          NoOverflow (crdBuilds conf rsEncMat U rand) := by
  intro h
  have hsafe := (h wideConf (fun _ => 1) wideUpd 0 (by decide) (by decide) validUpd_wideUpd).2.2
  have hbelow := (crd_noOverflow_iff (fun _ => 1) validUpd_wideUpd.ne_nil (by decide) 0).1 hsafe
  exact absurd hbelow (by decide)

end CoRD
