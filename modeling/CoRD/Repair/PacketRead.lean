import CoRD.Repair.CyclDRWorker
import CoRD.Repair.CyclMulFRWorker
import CoRD.Util.ShortRead

/-!
# PacketRead — what the workers read from their files

The workers that repair a block read it packet by packet or slice by slice.  Three of them keep the
offset in an `int` that starts at the configured skip size, the others compute it from the number of
the packet or slice and leave the skip size out; one of these also asks for the first byte again
when a read was short.  The loops end early where the file gives nothing and where the output for a
packet divides by zero.

A read may give fewer bytes than it was asked for; how each buffer is split is given from outside.
-/

namespace CoRD

open ShortRead

/-- An `int`: what does not fit wraps around. -/
def toInt (x : Int) : Int :=
  Int.bmod x (2 ^ 32)

/-- `base`, which starts with the skip size, in turn `i`. -/
def baseInt (conf : PacketConfig) : Nat → Int
  | 0 => toInt conf.packetSkipSize
  | i + 1 => toInt (baseInt conf i + conf.packetSize)

/-! ## The readers -/

section Readers

-- the pieces of the buffer that is filled in a turn are given by `split`
variable (conf : PacketConfig) (file : List UInt8) (split : Nat → List Nat)

/-- `DRWorker::readPacketFromDisk`, for a buffer that is filled in these pieces. -/
def DRWorker.readPacketFromDisk (base : Int) (ns : List Nat) : Option (List UInt8) :=
  readLoop file (fun readLen => toInt (base + readLen)) ns 0

/-- `ConvDRWorker::readWorker`. -/
def ConvDRWorker.readWorker : List (List UInt8) :=
  fill (fun i => DRWorker.readPacketFromDisk file (baseInt conf i) (split i))
    (fun i => (pktOutput i conf.packetCnt).isNone) conf.packetCnt 0

/-- Whether `PipeDRWorker` logs a packet, unless it divides by zero. -/
def PipeDRWorker.output (i packetCnt : Nat) : Option Bool :=
  if i = 0 ∨ i + 1 = packetCnt then some true
  else if packetCnt / 10 = 0 then none
  else some (i % (packetCnt / 10) = 0)

/-- `PipeDRWorker::readWorker`, with a loop of its own. -/
def PipeDRWorker.readWorker : List (List UInt8) :=
  fill (fun i => readLoop file (fun readLen => toInt (baseInt conf i + readLen)) (split i) 0)
    (fun i => (PipeDRWorker.output i conf.packetCnt).isNone) conf.packetCnt 0

/-- `PipeMulDRWorker::readWorker`, with the same loop. -/
def PipeMulDRWorker.readWorker : List (List UInt8) :=
  fill (fun i => readLoop file (fun readLen => toInt (baseInt conf i + readLen)) (split i) 0)
    (fun i => (pktOutput i conf.packetCnt).isNone) conf.packetCnt 0

/-- `PipeMulDRWorker::readMulWorker`. -/
def PipeMulDRWorker.readMulWorker : List (List UInt8) :=
  fill (fun i => DRWorker.readPacketFromDisk file (baseInt conf i) (split i))
    (fun i => (pktOutput i conf.packetCnt).isNone) conf.packetCnt 0

/-- `PPRPullDRWorker::readWorker` of a helper: its `base` is not used. -/
def PPRPullDRWorker.readWorker : List (List UInt8) :=
  fill
    (fun pktId =>
      DRWorker.readPacketFromDisk file (toInt (pktId * conf.packetSize : Nat)) (split pktId))
    (fun pktId => (pktOutput pktId conf.packetCnt).isNone) conf.packetCnt 0

/-- `CyclDRWorker::reader`: the offset does not depend on `readLen`. -/
def CyclDRWorker.reader (cmd : PipeCmd) : List (List UInt8) :=
  fill
    (fun i => readLoop file
      (fun _ => ((CyclDR.pktIdx conf cmd).getD i 0 * conf.packetSize : Nat)) (split i) 0)
    (fun i => (CyclDR.readOutput i conf.packetCnt).isNone) conf.packetCnt 0

/-- `CyclMulFRWorker::readerMul`, the loop over packets and jobs. -/
def CyclMulFRWorker.readerMul (ecK : Nat) (jobs : List PipeMulJob) : List (List UInt8) :=
  fill
    (fun n =>
      let e := CyclMul.entryAt jobs n
      let sliId := (CyclMul.jobTables conf ecK jobs e.job).pkt2sli.getD e.pktId 0
      DRWorker.readPacketFromDisk file (toInt (sliId * conf.packetSize : Nat)) (split n))
    (fun n => (pktOutput (CyclMul.entryAt jobs n).pktId conf.packetCnt).isNone)
    (conf.packetCnt * jobs.length) 0

end Readers

/-- The buffer for each slice `s`, which is filled in turn `turnOf s`, gets the bytes of the slice,
for every file that is long enough and however its reads are split. -/
def ReadsSlices (conf : PacketConfig)
    (reader : List UInt8 → (Nat → List Nat) → List (List UInt8)) (turnOf : Nat → Nat) : Prop :=
  ∀ file : List UInt8, conf.packetSkipSize + conf.packetCnt * conf.packetSize ≤ file.length →
    ∀ split : Nat → List Nat, (∀ t, IsSplit conf.packetSize (split t)) →
      ∀ s < conf.packetCnt, (reader file split)[turnOf s]? =
        some ((file.drop (conf.packetSkipSize + s * conf.packetSize)).take conf.packetSize)

/-! ## Offsets -/

section Offsets

variable {conf : PacketConfig}

theorem toInt_natCast_eq_iff {n : Nat} : toInt n = n ↔ n < 2 ^ 31 := by
  rw [toInt, Int.bmod_def]
  omega

theorem baseInt_eq (i : Nat) : baseInt conf i = toInt ((conf.base i : Nat) : Int) := by
  induction i with
  | zero =>
      rw [baseInt, PacketConfig.base, Nat.zero_mul, Nat.add_zero]
  | succ i ih =>
      rw [baseInt, ih, toInt, toInt, toInt, Int.bmod_add_bmod, PacketConfig.base, PacketConfig.base]
      congr 1
      push_cast
      ring

/-- The offset for a byte behind `base`. -/
theorem toInt_add_natCast (a r : Nat) : toInt (toInt (a : Int) + r) = toInt ((a + r : Nat) : Int) := by
  rw [toInt, toInt, toInt, Int.bmod_add_bmod, Int.natCast_add]

theorem slice_le {s : Nat} (hs : s < conf.packetCnt) :
    conf.packetSkipSize + s * conf.packetSize + conf.packetSize ≤
      conf.packetSkipSize + conf.packetCnt * conf.packetSize := by
  have hle : (s + 1) * conf.packetSize ≤ conf.packetCnt * conf.packetSize :=
    Nat.mul_le_mul_right _ hs
  rw [Nat.succ_mul] at hle
  omega

/-- Something is right for the first and for the last byte of all slices. -/
theorem forall_bytes {P : Nat → Nat → Prop}
    (h : ∀ s < conf.packetCnt, ∀ r < conf.packetSize, P s r) :
    conf.packetCnt * conf.packetSize = 0 ∨
      (0 < conf.packetCnt * conf.packetSize ∧ P 0 0 ∧
        P (conf.packetCnt - 1) (conf.packetSize - 1)) := by
  rcases Nat.eq_zero_or_pos (conf.packetCnt * conf.packetSize) with hzero | hpos
  · exact Or.inl hzero
  · have hcnt := Nat.pos_of_mul_pos_right hpos
    have hsize := Nat.pos_of_mul_pos_left hpos
    exact Or.inr ⟨hpos, h 0 hcnt 0 hsize,
      h _ (Nat.sub_one_lt_of_lt hcnt) _ (Nat.sub_one_lt_of_lt hsize)⟩

theorem last_byte (hpos : 0 < conf.packetCnt * conf.packetSize) :
    (conf.packetCnt - 1) * conf.packetSize + (conf.packetSize - 1) =
      conf.packetCnt * conf.packetSize - 1 := by
  have hcnt := Nat.pos_of_mul_pos_right hpos
  have hsize := Nat.pos_of_mul_pos_left hpos
  have hle := Nat.mul_le_mul_right conf.packetSize hcnt
  rw [Nat.sub_mul]
  omega

theorem byte_lt {s r : Nat} (hs : s < conf.packetCnt) (hr : r < conf.packetSize) :
    s * conf.packetSize + r < conf.packetCnt * conf.packetSize := by
  have hle := slice_le hs
  omega

/-- Counting on from the skip size is right as long as it fits. -/
theorem base_offsets_iff :
    (∀ i < conf.packetCnt, ∀ r < conf.packetSize, toInt (baseInt conf i + r) =
        ((conf.packetSkipSize + i * conf.packetSize : Nat) : Int) + r) ↔
      conf.packetCnt * conf.packetSize = 0 ∨
        conf.packetSkipSize + conf.packetCnt * conf.packetSize ≤ 2 ^ 31 := by
  have hoffset : ∀ i r : Nat, (toInt (baseInt conf i + r) =
      ((conf.packetSkipSize + i * conf.packetSize : Nat) : Int) + r) ↔
        conf.packetSkipSize + (i * conf.packetSize + r) < 2 ^ 31 := by
    intro i r
    rw [baseInt_eq, toInt_add_natCast, ← Int.natCast_add, ← Nat.add_assoc]
    exact toInt_natCast_eq_iff
  simp only [hoffset]
  constructor
  · intro h
    rcases forall_bytes h with hzero | ⟨hpos, _, hlast⟩
    · exact Or.inl hzero
    · rw [last_byte hpos] at hlast
      right
      omega
  · intro h i hi r hr
    have hlt := byte_lt hi hr
    omega

/-- Without the skip size the offsets are right only if it is zero. -/
theorem slice_offsets_iff :
    (∀ s < conf.packetCnt, ∀ r < conf.packetSize,
        toInt (toInt (s * conf.packetSize : Nat) + r) =
          ((conf.packetSkipSize + s * conf.packetSize : Nat) : Int) + r) ↔
      conf.packetCnt * conf.packetSize = 0 ∨
        conf.packetSkipSize = 0 ∧ conf.packetCnt * conf.packetSize ≤ 2 ^ 31 := by
  simp only [toInt_add_natCast]
  constructor
  · intro h
    rcases forall_bytes h with hzero | ⟨hpos, hfirst, hlast⟩
    · exact Or.inl hzero
    · right
      have hskip : conf.packetSkipSize = 0 := by
        have hnil : toInt ((0 * conf.packetSize + 0 : Nat) : Int) = 0 := by
          rw [Nat.zero_mul]
          rfl
        rw [hnil] at hfirst
        omega
      rw [hskip, Nat.zero_add, ← Int.natCast_add, toInt_natCast_eq_iff, last_byte hpos] at hlast
      exact ⟨hskip, by omega⟩
  · intro h s hs r hr
    have hlt := byte_lt hs hr
    rcases h with hzero | ⟨hskip, hle⟩
    · rw [hzero] at hlt
      exact absurd hlt (Nat.not_lt_zero _)
    · rw [hskip, Nat.zero_add, ← Int.natCast_add]
      exact toInt_natCast_eq_iff.2 (Nat.lt_of_lt_of_le hlt hle)

/-- An offset that stays where it is, is right for one byte. -/
theorem fixed_offsets_iff :
    (∀ s < conf.packetCnt, ∀ r < conf.packetSize, ((s * conf.packetSize : Nat) : Int) =
        ((conf.packetSkipSize + s * conf.packetSize : Nat) : Int) + r) ↔
      conf.packetCnt * conf.packetSize = 0 ∨ conf.packetSkipSize = 0 ∧ conf.packetSize = 1 := by
  constructor
  · intro h
    rcases forall_bytes h with hzero | ⟨hpos, _, hlast⟩
    · exact Or.inl hzero
    · have hsize := Nat.pos_of_mul_pos_left hpos
      right
      omega
  · intro h s hs r hr
    have hlt := byte_lt hs hr
    rcases h with hzero | ⟨hskip, hone⟩
    · rw [hzero] at hlt
      exact absurd hlt (Nat.not_lt_zero _)
    · omega

end Offsets

/-! ## Outputs -/

section Outputs

variable {packetCnt : Nat}

theorem pktOutput_stops_iff :
    (∀ i, i + 1 < packetCnt → (pktOutput i packetCnt).isNone = false) ↔ packetCnt ≠ 3 := by
  constructor
  · intro h hthree
    rw [hthree] at h
    have hone := h 1 (by decide)
    cases hone
  · intro hthree i _
    rcases Option.isSome_iff_exists.1 (pktOutput_isSome i hthree) with ⟨b, hb⟩
    rw [hb]
    rfl

theorem pipeOutput_stops_iff :
    (∀ i, i + 1 < packetCnt → (PipeDRWorker.output i packetCnt).isNone = false) ↔
      packetCnt < 3 ∨ 9 < packetCnt := by
  constructor
  · intro h
    by_contra hrange
    have hone := h 1 (by omega)
    rw [PipeDRWorker.output, if_neg (by omega), if_pos (by omega)] at hone
    cases hone
  · intro h i hi
    rw [PipeDRWorker.output]
    split
    · rfl
    · rw [if_neg (by omega)]
      rfl

theorem readOutput_isNone (i : Nat) (hi : i + 1 < packetCnt) :
    (CyclDR.readOutput i packetCnt).isNone = false := by
  rw [CyclDR.readOutput]
  split
  · rfl
  · rw [if_neg (by omega)]
    rfl

end Outputs

/-! ## Which readers read the slices -/

section Right

variable {conf : PacketConfig}

/-- A loop with one turn for each slice of each job reads them just when its offsets are right and no
output ends it. -/
theorem readsSlices_jobs_iff {nj turns : Nat} (ask : Nat → Nat → Int) (stops : Nat → Bool)
    {turnOf : Nat → Nat → Nat} {sliceOf : Nat → Nat}
    (hturn : ∀ j < nj, ∀ s < conf.packetCnt,
      turnOf j s < turns ∧ sliceOf (turnOf j s) = s)
    (hslice : ∀ t < turns, sliceOf t < conf.packetCnt ∧ ∃ j < nj, turnOf j (sliceOf t) = t) :
    (∀ j < nj, ReadsSlices conf
        (fun file split => fill (fun t => readLoop file (ask t) (split t) 0) stops turns 0)
        (turnOf j)) ↔
      (∀ t < turns, ∀ r < conf.packetSize,
        ask t r = ((conf.packetSkipSize + sliceOf t * conf.packetSize : Nat) : Int) + r) ∧
        ∀ t, t + 1 < turns → stops t = false := by
  have hne : (0 : UInt8) ≠ 1 := by decide
  rw [← fills_iff hne ask stops fun t ht => slice_le (hslice t ht).1]
  constructor
  · intro h file hfile split hsplit t ht
    rcases (hslice t ht).2 with ⟨j, hj, hjt⟩
    have hs := h j hj file hfile split hsplit (sliceOf t) (hslice t ht).1
    rwa [hjt] at hs
  · intro h j hj file hfile split hsplit s hs
    have ht := h file hfile split hsplit (turnOf j s) (hturn j hj s hs).1
    rwa [(hturn j hj s hs).2] at ht

/-- The same for one job. -/
theorem readsSlices_iff (ask : Nat → Nat → Int) (stops : Nat → Bool) (turnOf sliceOf : Nat → Nat)
    (hturn : ∀ s < conf.packetCnt, turnOf s < conf.packetCnt ∧ sliceOf (turnOf s) = s)
    (hslice : ∀ t < conf.packetCnt, sliceOf t < conf.packetCnt ∧ turnOf (sliceOf t) = t) :
    ReadsSlices conf
        (fun file split =>
          fill (fun t => readLoop file (ask t) (split t) 0) stops conf.packetCnt 0) turnOf ↔
      (∀ t < conf.packetCnt, ∀ r < conf.packetSize,
        ask t r = ((conf.packetSkipSize + sliceOf t * conf.packetSize : Nat) : Int) + r) ∧
        ∀ t, t + 1 < conf.packetCnt → stops t = false := by
  have hturns : ∀ j < 1, ∀ s < conf.packetCnt, turnOf s < conf.packetCnt ∧
      sliceOf (turnOf s) = s := fun _ _ => hturn
  rw [← readsSlices_jobs_iff ask stops hturns fun t ht =>
    ⟨(hslice t ht).1, 0, Nat.one_pos, (hslice t ht).2⟩]
  constructor
  · intro h _ _
    exact h
  · intro h
    exact h 0 Nat.one_pos

/-- The workers that count on from the skip size. -/
theorem base_readsSlices_iff {stops : Nat → Bool} :
    ReadsSlices conf
        (fun file split =>
          fill (fun i => readLoop file (fun readLen => toInt (baseInt conf i + readLen)) (split i) 0)
            stops conf.packetCnt 0) (fun s => s) ↔
      (conf.packetCnt * conf.packetSize = 0 ∨
        conf.packetSkipSize + conf.packetCnt * conf.packetSize ≤ 2 ^ 31) ∧
        ∀ i, i + 1 < conf.packetCnt → stops i = false := by
  refine (readsSlices_iff (fun i readLen => toInt (baseInt conf i + readLen)) stops
    (fun s => s) (fun t => t) (fun s hs => ⟨hs, rfl⟩) (fun t ht => ⟨ht, rfl⟩)).trans ?_
  exact and_congr_left' base_offsets_iff

section Ring

variable {ecK id : Nat}

/-- The tables of a helper exchange the positions and the slices. -/
theorem swap_spec (hk : 2 ≤ ecK) {s : Nat} (hs : s < conf.packetCnt) :
    Cycl.swap conf.packetCnt (ecK - 1) id s < conf.packetCnt ∧
      Cycl.swap conf.packetCnt (ecK - 1) id (Cycl.swap conf.packetCnt (ecK - 1) id s) = s := by
  have hg : 0 < ecK - 1 := by omega
  exact ⟨Cycl.swap_lt id hg hs, Cycl.swap_swap id hg hs⟩

theorem getD_pktIdx_swap {cmd : PipeCmd} (hk : 2 ≤ cmd.ecK) (hid : cmd.id < cmd.ecK) {p : Nat}
    (hp : p < conf.packetCnt) :
    (CyclDR.pktIdx conf cmd).getD p 0 = Cycl.swap conf.packetCnt (cmd.ecK - 1) cmd.id p := by
  rw [CyclDR.pktIdx, Cycl.slices_eq (by omega) (Nat.le_sub_one_of_lt hid)]
  simp [List.getD_eq_getElem?_getD, hp]

theorem idxOf_pktIdx {cmd : PipeCmd} (hk : 2 ≤ cmd.ecK) (hid : cmd.id < cmd.ecK) {s : Nat}
    (hs : s < conf.packetCnt) :
    (CyclDR.pktIdx conf cmd).idxOf s = Cycl.swap conf.packetCnt (cmd.ecK - 1) cmd.id s := by
  have hg : 0 < cmd.ecK - 1 := by omega
  have hspec : Cycl.swap conf.packetCnt (cmd.ecK - 1) cmd.id s < conf.packetCnt ∧ _ :=
    swap_spec hk hs
  have hlist : CyclDR.pktIdx conf cmd =
      (List.range conf.packetCnt).map (Cycl.swap conf.packetCnt (cmd.ecK - 1) cmd.id) :=
    Cycl.slices_eq hg (Nat.le_sub_one_of_lt hid)
  have hget : (CyclDR.pktIdx conf cmd)[Cycl.swap conf.packetCnt (cmd.ecK - 1) cmd.id s]? =
      some s := by
    rw [hlist, List.getElem?_map, List.getElem?_range hspec.1]
    exact congrArg some hspec.2
  have hnodup : (CyclDR.pktIdx conf cmd).Nodup := hlist ▸ Cycl.nodup_swaps hg
  rcases List.getElem?_eq_some_iff.1 hget with ⟨hlt, heq⟩
  have hidx := hnodup.idxOf_getElem _ hlt
  rwa [heq] at hidx

/-- `CyclDRWorker` reads every slice from its first byte on. -/
theorem cyclDR_readsSlices_iff {cmd : PipeCmd} (hk : 2 ≤ cmd.ecK) (hid : cmd.id < cmd.ecK) :
    ReadsSlices conf (fun file split => CyclDRWorker.reader conf file split cmd)
        (fun s => (CyclDR.pktIdx conf cmd).idxOf s) ↔
      conf.packetCnt * conf.packetSize = 0 ∨ conf.packetSkipSize = 0 ∧ conf.packetSize = 1 := by
  have hget : ∀ t < conf.packetCnt, (CyclDR.pktIdx conf cmd).getD t 0 =
      Cycl.swap conf.packetCnt (cmd.ecK - 1) cmd.id t := fun t ht => getD_pktIdx_swap hk hid ht
  have hspec : ∀ s < conf.packetCnt, Cycl.swap conf.packetCnt (cmd.ecK - 1) cmd.id s <
      conf.packetCnt ∧ _ := fun s hs => swap_spec hk hs
  have hturn : ∀ s < conf.packetCnt, (CyclDR.pktIdx conf cmd).idxOf s < conf.packetCnt ∧
      (CyclDR.pktIdx conf cmd).getD ((CyclDR.pktIdx conf cmd).idxOf s) 0 = s := by
    intro s hs
    rw [idxOf_pktIdx hk hid hs, hget _ (hspec s hs).1]
    exact hspec s hs
  have hslice : ∀ t < conf.packetCnt, (CyclDR.pktIdx conf cmd).getD t 0 < conf.packetCnt ∧
      (CyclDR.pktIdx conf cmd).idxOf ((CyclDR.pktIdx conf cmd).getD t 0) = t := by
    intro t ht
    rw [hget t ht, idxOf_pktIdx hk hid (hspec t ht).1]
    exact hspec t ht
  have hreads := readsSlices_iff
    (fun i _ => (((CyclDR.pktIdx conf cmd).getD i 0 * conf.packetSize : Nat) : Int))
    (fun i => (CyclDR.readOutput i conf.packetCnt).isNone)
    (fun s => (CyclDR.pktIdx conf cmd).idxOf s) (fun t => (CyclDR.pktIdx conf cmd).getD t 0)
    hturn hslice
  have hall : (∀ t < conf.packetCnt, ∀ r < conf.packetSize,
      (((CyclDR.pktIdx conf cmd).getD t 0 * conf.packetSize : Nat) : Int) =
        ((conf.packetSkipSize + (CyclDR.pktIdx conf cmd).getD t 0 * conf.packetSize : Nat) : Int) +
          r) ↔
      ∀ s < conf.packetCnt, ∀ r < conf.packetSize, ((s * conf.packetSize : Nat) : Int) =
        ((conf.packetSkipSize + s * conf.packetSize : Nat) : Int) + r := by
    constructor
    · intro h s hs r hr
      have ht := h _ (hspec s hs).1 r hr
      rwa [hget _ (hspec s hs).1, (hspec s hs).2] at ht
    · intro h t ht r hr
      rw [hget t ht]
      exact h _ (hspec t ht).1 r hr
  refine hreads.trans ?_
  rw [hall, fixed_offsets_iff]
  exact and_iff_left fun t ht => readOutput_isNone t ht

/-- The slice that `CyclMulFRWorker` reads in turn `n`, which is that of one job in one packet. -/
def turnSlice (conf : PacketConfig) (ecK : Nat) (jobs : List PipeMulJob) (n : Nat) : Nat :=
  (CyclMul.jobTables conf ecK jobs (n % jobs.length)).pkt2sli.getD (n / jobs.length) 0

section Jobs

variable {jobs : List PipeMulJob}

theorem lt_turns {j p : Nat} (hj : j < jobs.length) (hp : p < conf.packetCnt) :
    p * jobs.length + j < conf.packetCnt * jobs.length := by
  have hle := Nat.mul_le_mul_right jobs.length (Nat.succ_le_of_lt hp)
  rw [Nat.succ_mul] at hle
  omega

theorem turn_eq (hpos : 0 < jobs.length) {t : Nat} (ht : t < conf.packetCnt * jobs.length) :
    t / jobs.length < conf.packetCnt ∧ t % jobs.length < jobs.length ∧
      t / jobs.length * jobs.length + t % jobs.length = t := by
  refine ⟨Nat.div_lt_of_lt_mul (by rwa [Nat.mul_comm]), Nat.mod_lt t hpos, ?_⟩
  rw [Nat.mul_comm]
  exact Nat.div_add_mod t jobs.length

theorem job_id_le (hids : ∀ jb ∈ jobs, jb.id < ecK) {j : Nat} (hj : j < jobs.length) :
    (CyclMul.job jobs j).id ≤ ecK - 1 := by
  have hjob : CyclMul.job jobs j = jobs[j] := by
    rw [CyclMul.job, List.getD_eq_getElem?_getD, List.getElem?_eq_getElem hj]
    rfl
  rw [hjob]
  exact Nat.le_sub_one_of_lt (hids jobs[j] (List.getElem_mem hj))

theorem turnSlice_swap (hk : 2 ≤ ecK) (hids : ∀ jb ∈ jobs, jb.id < ecK) {j p : Nat}
    (hj : j < jobs.length) (hp : p < conf.packetCnt) :
    turnSlice conf ecK jobs (p * jobs.length + j) =
      Cycl.swap conf.packetCnt (ecK - 1) (CyclMul.job jobs j).id p := by
  have hg : 0 < ecK - 1 := by omega
  have hmod : (p * jobs.length + j) % jobs.length = j := by
    rw [Nat.mul_add_mod_self_right, Nat.mod_eq_of_lt hj]
  have hdiv : (p * jobs.length + j) / jobs.length = p := by
    rw [Nat.mul_comm, Nat.mul_add_div (Nat.zero_lt_of_lt hj), Nat.div_eq_of_lt hj, Nat.add_zero]
  rw [turnSlice, hmod, hdiv]
  exact congrArg (·.getD 0) (Cycl.pkt2sli_tables hg (job_id_le hids hj) hp)

theorem sli2pkt_swap (hk : 2 ≤ ecK) (hids : ∀ jb ∈ jobs, jb.id < ecK) {j s : Nat}
    (hj : j < jobs.length) (hs : s < conf.packetCnt) :
    (CyclMul.jobTables conf ecK jobs j).sli2pkt s =
      Cycl.swap conf.packetCnt (ecK - 1) (CyclMul.job jobs j).id s := by
  have hg : 0 < ecK - 1 := by omega
  exact Cycl.sli2pkt_tables hg (job_id_le hids hj) hs

/-- Each slice of each job has its turn. -/
theorem turnSlice_sli2pkt (hk : 2 ≤ ecK) (hids : ∀ jb ∈ jobs, jb.id < ecK) :
    ∀ j < jobs.length, ∀ s < conf.packetCnt,
      (CyclMul.jobTables conf ecK jobs j).sli2pkt s * jobs.length + j <
          conf.packetCnt * jobs.length ∧
        turnSlice conf ecK jobs
          ((CyclMul.jobTables conf ecK jobs j).sli2pkt s * jobs.length + j) = s := by
  intro j hj s hs
  have hswap : Cycl.swap conf.packetCnt (ecK - 1) (CyclMul.job jobs j).id s < conf.packetCnt ∧ _ :=
    swap_spec hk hs
  rw [sli2pkt_swap hk hids hj hs]
  exact ⟨lt_turns hj hswap.1, (turnSlice_swap hk hids hj hswap.1).trans hswap.2⟩

/-- And each turn is that of a slice of a job. -/
theorem sli2pkt_turnSlice (hk : 2 ≤ ecK) (hids : ∀ jb ∈ jobs, jb.id < ecK)
    (hpos : 0 < jobs.length) :
    ∀ t < conf.packetCnt * jobs.length, turnSlice conf ecK jobs t < conf.packetCnt ∧
      ∃ j < jobs.length, (CyclMul.jobTables conf ecK jobs j).sli2pkt (turnSlice conf ecK jobs t) *
        jobs.length + j = t := by
  intro t ht
  obtain ⟨hpkt, hjob, heq⟩ := turn_eq hpos ht
  have hswap : Cycl.swap conf.packetCnt (ecK - 1) (CyclMul.job jobs (t % jobs.length)).id
      (t / jobs.length) < conf.packetCnt ∧ _ := swap_spec hk hpkt
  have hslice := turnSlice_swap hk hids hjob hpkt
  rw [heq] at hslice
  rw [hslice]
  refine ⟨hswap.1, t % jobs.length, hjob, ?_⟩
  rw [sli2pkt_swap hk hids hjob hswap.1, hswap.2, heq]

/-- The log lines of the turns are those of the packets. -/
theorem pktOutput_turns_iff (hpos : 0 < jobs.length) :
    (∀ t, t + 1 < conf.packetCnt * jobs.length →
      (pktOutput (t / jobs.length) conf.packetCnt).isNone = false) ↔ conf.packetCnt ≠ 3 := by
  rw [← pktOutput_stops_iff]
  constructor
  · intro h i hi
    have hle := Nat.mul_le_mul_right jobs.length (Nat.succ_le_of_lt hi)
    have ht := h (i * jobs.length) (by rw [Nat.succ_mul, Nat.succ_mul] at hle; omega)
    rwa [Nat.mul_div_cancel _ hpos] at ht
  · intro h t ht
    by_cases hlast : t / jobs.length + 1 < conf.packetCnt
    · exact h _ hlast
    · rw [pktOutput, if_pos (Or.inr (Nat.not_lt.1 hlast))]
      rfl

end Jobs

/-- `CyclMulFRWorker` leaves the skip size out. -/
theorem cyclMul_readsSlices_iff {jobs : List PipeMulJob} (hk : 2 ≤ ecK) (hne : jobs ≠ [])
    (hids : ∀ jb ∈ jobs, jb.id < ecK) :
    (∀ j < jobs.length,
        ReadsSlices conf (fun file split => CyclMulFRWorker.readerMul conf file split ecK jobs)
          (fun s => (CyclMul.jobTables conf ecK jobs j).sli2pkt s * jobs.length + j)) ↔
      (conf.packetCnt * conf.packetSize = 0 ∨
        conf.packetSkipSize = 0 ∧ conf.packetCnt * conf.packetSize ≤ 2 ^ 31) ∧
        conf.packetCnt ≠ 3 := by
  have hpos : 0 < jobs.length := List.length_pos_of_ne_nil hne
  have hturn := @turnSlice_sli2pkt conf ecK jobs hk hids
  have hslice := @sli2pkt_turnSlice conf ecK jobs hk hids hpos
  refine (readsSlices_jobs_iff
    (fun n readLen => toInt (toInt (turnSlice conf ecK jobs n * conf.packetSize : Nat) + readLen))
    (fun n => (pktOutput (n / jobs.length) conf.packetCnt).isNone) hturn hslice).trans ?_
  -- the slices of all jobs are all slices
  have hall : (∀ t < conf.packetCnt * jobs.length, ∀ r < conf.packetSize,
      toInt (toInt (turnSlice conf ecK jobs t * conf.packetSize : Nat) + r) =
        ((conf.packetSkipSize + turnSlice conf ecK jobs t * conf.packetSize : Nat) : Int) + r) ↔
      ∀ s < conf.packetCnt, ∀ r < conf.packetSize,
        toInt (toInt (s * conf.packetSize : Nat) + r) =
          ((conf.packetSkipSize + s * conf.packetSize : Nat) : Int) + r := by
    constructor
    · intro h s hs r hr
      have ht := h _ (hturn 0 hpos s hs).1 r hr
      rwa [(hturn 0 hpos s hs).2] at ht
    · intro h t ht r hr
      exact h _ (hslice t ht).1 r hr
  rw [hall, slice_offsets_iff, pktOutput_turns_iff hpos]

end Ring

/-- `PPRPullDRWorker` leaves the skip size out, too. -/
theorem ppr_readsSlices_iff :
    ReadsSlices conf (PPRPullDRWorker.readWorker conf) (fun s => s) ↔
      (conf.packetCnt * conf.packetSize = 0 ∨
        conf.packetSkipSize = 0 ∧ conf.packetCnt * conf.packetSize ≤ 2 ^ 31) ∧
        conf.packetCnt ≠ 3 := by
  refine (readsSlices_iff
    (fun pktId readLen => toInt (toInt (pktId * conf.packetSize : Nat) + readLen))
    (fun pktId => (pktOutput pktId conf.packetCnt).isNone) (fun s => s) (fun t => t)
    (fun s hs => ⟨hs, rfl⟩) (fun t ht => ⟨ht, rfl⟩)).trans ?_
  rw [slice_offsets_iff, pktOutput_stops_iff]

end Right

/-- When each of the workers reads the bytes of its slices. -/
theorem readersReadSlices_iff (conf : PacketConfig) (cmd : PipeCmd) (hk : 2 ≤ cmd.ecK)
    (hid : cmd.id < cmd.ecK) (ecK : Nat) (hecK : 2 ≤ ecK) (jobs : List PipeMulJob) (hne : jobs ≠ [])
    (hids : ∀ jb ∈ jobs, jb.id < ecK) :
    (ReadsSlices conf (ConvDRWorker.readWorker conf) (fun s => s) ↔
      (conf.packetCnt * conf.packetSize = 0 ∨
        conf.packetSkipSize + conf.packetCnt * conf.packetSize ≤ 2 ^ 31) ∧ conf.packetCnt ≠ 3) ∧
    (ReadsSlices conf (PipeDRWorker.readWorker conf) (fun s => s) ↔
      (conf.packetCnt * conf.packetSize = 0 ∨
        conf.packetSkipSize + conf.packetCnt * conf.packetSize ≤ 2 ^ 31) ∧
        (conf.packetCnt < 3 ∨ 9 < conf.packetCnt)) ∧
    (ReadsSlices conf (PipeMulDRWorker.readWorker conf) (fun s => s) ↔
      (conf.packetCnt * conf.packetSize = 0 ∨
        conf.packetSkipSize + conf.packetCnt * conf.packetSize ≤ 2 ^ 31) ∧ conf.packetCnt ≠ 3) ∧
    (ReadsSlices conf (PipeMulDRWorker.readMulWorker conf) (fun s => s) ↔
      (conf.packetCnt * conf.packetSize = 0 ∨
        conf.packetSkipSize + conf.packetCnt * conf.packetSize ≤ 2 ^ 31) ∧ conf.packetCnt ≠ 3) ∧
    (ReadsSlices conf (PPRPullDRWorker.readWorker conf) (fun s => s) ↔
      (conf.packetCnt * conf.packetSize = 0 ∨
        conf.packetSkipSize = 0 ∧ conf.packetCnt * conf.packetSize ≤ 2 ^ 31) ∧
        conf.packetCnt ≠ 3) ∧
    (ReadsSlices conf (fun file split => CyclDRWorker.reader conf file split cmd)
        (fun s => (CyclDR.pktIdx conf cmd).idxOf s) ↔
      conf.packetCnt * conf.packetSize = 0 ∨ conf.packetSkipSize = 0 ∧ conf.packetSize = 1) ∧
    ((∀ j < jobs.length,
        ReadsSlices conf (fun file split => CyclMulFRWorker.readerMul conf file split ecK jobs)
          (fun s => (CyclMul.jobTables conf ecK jobs j).sli2pkt s * jobs.length + j)) ↔
      (conf.packetCnt * conf.packetSize = 0 ∨
        conf.packetSkipSize = 0 ∧ conf.packetCnt * conf.packetSize ≤ 2 ^ 31) ∧
        conf.packetCnt ≠ 3) := by
  refine ⟨?_, ?_, ?_, ?_, ppr_readsSlices_iff, cyclDR_readsSlices_iff hk hid,
    cyclMul_readsSlices_iff hecK hne hids⟩
  · exact base_readsSlices_iff.trans (and_congr_right' pktOutput_stops_iff)
  · exact base_readsSlices_iff.trans (and_congr_right' pipeOutput_stops_iff)
  · exact base_readsSlices_iff.trans (and_congr_right' pktOutput_stops_iff)
  · exact base_readsSlices_iff.trans (and_congr_right' pktOutput_stops_iff)

/-- The first of three helpers. -/
def firstOfThree : PipeCmd where
  ecK := 3
  requestorIP := 0
  prevIP := 3
  nextIP := 2
  id := 0
  coefficient := 1
  lostBlkName := []
  localBlkName := []

/-- Four packets of eight bytes behind a header. -/
theorem conv_readsSlices_four :
    ReadsSlices ⟨4, 8, 16384⟩ (ConvDRWorker.readWorker ⟨4, 8, 16384⟩) (fun s => s) :=
  (readersReadSlices_iff ⟨4, 8, 16384⟩ firstOfThree (by decide) (by decide) 3 (by decide)
    [CyclMul.noJob] (by decide) (by decide)).1.2 ⟨Or.inr (by decide), by decide⟩

/-- One packet of two bytes, read one by one, is twice its first byte; a packet behind a header is
the header. -/
theorem not_readsSlices_short :
    ¬ ReadsSlices ⟨1, 2, 0⟩
        (fun file split => CyclDRWorker.reader ⟨1, 2, 0⟩ file split firstOfThree)
        (fun s => (CyclDR.pktIdx ⟨1, 2, 0⟩ firstOfThree).idxOf s) ∧
      ¬ ReadsSlices ⟨1, 1, 1⟩ (PPRPullDRWorker.readWorker ⟨1, 1, 1⟩) (fun s => s) := by
  constructor
  · intro h
    have hread := h [7, 5] (by decide) (fun _ => [1, 1]) (fun _ => isSplit_ones 2) 0 (by decide)
    exact absurd hread (by decide)
  · intro h
    have hread := h [7, 5] (by decide) (fun _ => [1]) (fun _ => isSplit_ones 1) 0 (by decide)
    exact absurd hread (by decide)

end CoRD
