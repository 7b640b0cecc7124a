import CoRD.Repair.FRRequest
import CoRD.Repair.PipeMulCoordinator

/-!
# Command — repair commands as they are written and as they are read

The coordinators copy the fields of a command into a cleared array, at positions that each of them
computes for itself, and push the first bytes of the array.  The distributor takes the index off,
and a worker reads the rest at positions of its own.  A worker finds the fields that were written,
and it looks at all bytes that it was sent and at no others.
-/

namespace CoRD

open Std Wire

/-- The bytes of a name, as `c_str` gives them. -/
def nameBytes (s : Str) : Bytes :=
  s.map fun c => UInt8.ofNat c.toNat

/-- A string of bytes whose length fits into half a word. -/
structure IsName (s : Str) : Prop where
  bytes : ∀ c ∈ s, c.toNat < 256
  short : s.length < 65536

/-- A coefficient above the length of a name. -/
def coefWord (coefficient : GF256) (len : Nat) : Nat :=
  coefficient.bits.toNat <<< 16 ||| len

/-- The array `drCmd` with the index and, four bytes behind each position, the `pieces`; its first
`len` bytes are pushed. -/
def pushCmd (idx : Nat) (pieces : List (Nat × Bytes)) (len : Nat) : Option Bytes :=
  let drCmd := copyAll (copy Wire.zeros 0 (le 4 idx)) (pieces.map fun p => (4 + p.1, p.2))
  if len ≤ COMMAND_MAX_LENGTH then some (first drCmd len) else none

/-! ## ConvCoordinator and ConvDRWorker -/

/-- `ConvMulJob`. -/
structure ConvMulJob where
  ecK : Nat
  nextIP : Nat
  coefs : List GF256
  lostBlkName : Str
  deriving DecidableEq

/-- What `ConvDRWorker::doProcess` gets out of a command. -/
inductive ConvCmd
  | helper (ecK requestorIP coefficient nextIP id : Nat) (lostBlkName localBlkName : Str)
  | requestor (ecK requestorIP id : Nat) (ips : List Nat) (lostBlkName : Str)
      (convMulJobs : List ConvMulJob)
  deriving DecidableEq

namespace Conv

/-- The command for a helper. -/
def writeHelper (idx ecK requestorIP nextIP i : Nat) (filename localFile : Str) : Option Bytes :=
  let requestedFileNameLen := filename.length
  let localFileNameLen := localFile.length
  let tmp := 1
  pushCmd idx
    [(0, le 4 ecK), (4, le 4 requestorIP), (8, le 4 tmp), (12, le 4 nextIP), (16, le 4 i),
      (20, le 4 requestedFileNameLen), (24, nameBytes filename),
      (24 + requestedFileNameLen, le 4 localFileNameLen),
      (24 + requestedFileNameLen + 4, nameBytes localFile)]
    (32 + requestedFileNameLen + localFileNameLen)

section Requestor

variable (ecK : Nat) (coef : Str → TreeMap Str GF256)

/-- `ConvCoordinator::addReqInfo`: what is written, and the new `cmdbase`. -/
def addReqInfo (cmdbase failedIP : Nat) (info : Str × List (Nat × Str)) :
    List (Nat × Bytes) × Nat :=
  let lostFilename := info.1
  let len := lostFilename.length
  let names := [(cmdbase, le 4 failedIP), (cmdbase + 4, le 4 len),
    (cmdbase + 8, nameBytes lostFilename)]
  let cmdbase := cmdbase + (8 + len)
  let coefs := (List.range ecK).map fun i =>
    (cmdbase + 4 * i, le 4 ((coef lostFilename).getD (info.2.getD i (0, [])).2 0).bits.toNat)
  (names ++ coefs, cmdbase + 4 * ecK)

/-- The loop over the lost files; those without an entry are left out. -/
def addReqInfos (stripe_mul : Plan) : List (Str × Nat) → Nat → List (Nat × Bytes) × Nat
  | [], cmdbase => ([], cmdbase)
  | it :: lostFiles, cmdbase =>
      match stripe_mul.toList.find? fun it2 => it2.2.1 = it.1 with
      | none => addReqInfos stripe_mul lostFiles cmdbase
      | some it2 =>
          let (pieces, cmdbase) := addReqInfo ecK coef cmdbase it.2 it2.2
          let (rest, cmdbase) := addReqInfos stripe_mul lostFiles cmdbase
          (pieces ++ rest, cmdbase)

/-- The command for the requestor. -/
def writeRequestor (idx requestorIP : Nat) (ips : List Nat) (filename : Str)
    (lostFiles : List (Str × Nat)) (stripe_mul : Plan) : Option Bytes :=
  let requestedFileNameLen := filename.length
  let tmp := stripe_mul.size
  let m1 := 0xffffffff
  let (infos, cmdbase) := addReqInfos ecK coef stripe_mul lostFiles
    (24 + 4 * ecK + requestedFileNameLen)
  pushCmd idx
    ([(0, le 4 ecK), (4, le 4 requestorIP), (8, le 4 m1), (12, le 4 tmp),
      (20, ips.flatMap (le 4)), (20 + 4 * ecK, le 4 requestedFileNameLen),
      (24 + 4 * ecK, nameBytes filename)] ++ infos)
    (cmdbase + 4)

/-- The job of a lost file. -/
def jobOf (stripe_mul : Plan) (it : Str × Nat) : Option ConvMulJob :=
  (stripe_mul.toList.find? fun it2 => it2.2.1 = it.1).map fun it2 =>
    { ecK := ecK
      nextIP := it.2
      coefs := (List.range ecK).map fun i =>
        (coef it2.2.1).getD (it2.2.2.getD i (0, [])).2 0
      lostBlkName := it2.2.1 }

end Requestor

/-- `cmdBase` moves over `n` coefficients. -/
def readCoefs (ccmd : Bytes) : Nat → Nat → Read (List GF256)
  | 0, _ => return []
  | n + 1, cmdBase => do
      let c ← readWord ccmd cmdBase
      let coefs ← readCoefs ccmd n (cmdBase + 4)
      return GF256.ofInt c :: coefs

/-- The loop over the `n` failures. -/
def readJobs (ccmd : Bytes) (ecK : Nat) : Nat → Nat → Read (List ConvMulJob)
  | 0, _ => return []
  | n + 1, cmdBase => do
      let passIP ← readWord ccmd cmdBase
      let lostFileLen ← readWord ccmd (cmdBase + 4)
      let lostFile ← readStr ccmd (cmdBase + 8) lostFileLen
      let coefs ← readCoefs ccmd ecK (cmdBase + (8 + lostFileLen))
      let jobs ← readJobs ccmd ecK n (cmdBase + (8 + lostFileLen) + 4 * ecK)
      return { ecK := ecK, nextIP := passIP, coefs := coefs, lostBlkName := nameOf lostFile } :: jobs

/-- The parsing of `ConvDRWorker::doProcess`. -/
def readCmd (ccmd : Bytes) : Read ConvCmd := do
  let ecK ← readWord ccmd 0
  let requestorIP ← readWord ccmd 4
  let coefficient ← readWord ccmd 8
  let nextIP ← readWord ccmd 12
  let id ← readWord ccmd 16
  -- `_coefficient` is an `int`, and negative
  if 2 ^ 31 ≤ coefficient then
    let ips ← readWords ccmd 20 ecK
    let lostBlkNameLen ← readWord ccmd (20 + 4 * ecK)
    let lostBlkName ← readStr ccmd (24 + 4 * ecK) lostBlkNameLen
    let jobs ← readJobs ccmd ecK nextIP (24 + 4 * ecK + lostBlkNameLen)
    return .requestor ecK requestorIP ecK ips (nameOf lostBlkName) jobs
  else
    let lostBlkNameLen ← readWord ccmd 20
    let lostBlkName ← readStr ccmd 24 lostBlkNameLen
    let localBlkNameLen ← readWord ccmd (24 + lostBlkNameLen)
    let localBlkName ← readStr ccmd (28 + lostBlkNameLen) localBlkNameLen
    return .helper ecK requestorIP coefficient nextIP id (nameOf lostBlkName) (nameOf localBlkName)

end Conv

/-! ## PipeCoordinator, PipeDRWorker and CyclDRWorker -/

/-- What `PipeDRWorker::doProcess` and `CyclDRWorker::doProcess` get out of a command. -/
structure PipeCmd where
  ecK : Nat
  requestorIP : Nat
  prevIP : Nat
  nextIP : Nat
  id : Nat
  coefficient : GF256
  lostBlkName : Str
  localBlkName : Str
  deriving DecidableEq

namespace Pipe

/-- The command for a requestor that holds a block; there is no next node in it. -/
def writeHolder (idx requestorIP : Nat) (coefficient : GF256) (filename localFile : Str) :
    Option Bytes :=
  let ecK := 0x010000
  let requestedFileNameLen := filename.length
  let localFileBase := 24 + requestedFileNameLen
  let localFileNameLen := localFile.length
  pushCmd idx
    [(0, le 4 ecK), (4, le 4 requestorIP), (16, le 4 ecK),
      (20, le 4 (coefWord coefficient requestedFileNameLen)), (24, nameBytes filename),
      (localFileBase, le 4 localFileNameLen), (localFileBase + 4, nameBytes localFile),
      (8, le 4 requestorIP)]
    (localFileBase + localFileNameLen + 8)

/-- The fields that a helper's command begins with; `PipeMulCoordinator` writes the same. -/
def helperPieces (ecK requestorIP prevIP nextIP i : Nat) (coefficient : GF256)
    (filename localFile : Str) : List (Nat × Bytes) :=
  let l := filename.length
  [(0, le 4 ecK), (4, le 4 requestorIP), (8, le 4 prevIP), (12, le 4 nextIP), (16, le 4 i),
    (20, le 4 (coefWord coefficient l)), (24, nameBytes filename),
    (24 + l, le 4 localFile.length), (24 + l + 4, nameBytes localFile)]

/-- The command for a helper. -/
def writeHelper (idx : Nat) (c : PipeCmd) : Option Bytes :=
  let localFileBase := 24 + c.lostBlkName.length
  pushCmd idx
    (helperPieces c.ecK c.requestorIP c.prevIP c.nextIP c.id c.coefficient c.lostBlkName
      c.localBlkName)
    (localFileBase + c.localBlkName.length + 8)

/-- The parsing that all four pipeline workers begin with; the lengths of the names are kept. -/
def readFields (cmd : Bytes) : Read (PipeCmd × Nat × Nat) := do
  let ecK ← readWord cmd 0
  let requestorIP ← readWord cmd 4
  let prevIP ← readWord cmd 8
  let nextIP ← readWord cmd 12
  let id ← readWord cmd 16
  let lenWord ← readWord cmd 20
  let coefficient := lenWord >>> 16
  let lostBlkNameLen := lenWord &&& 0xffff
  let lostBlkName ← readStr cmd 24 lostBlkNameLen
  let localBlkNameLen ← readWord cmd (24 + lostBlkNameLen)
  let localBlkName ← readStr cmd (28 + lostBlkNameLen) localBlkNameLen
  return ({ ecK := ecK, requestorIP := requestorIP, prevIP := prevIP, nextIP := nextIP, id := id,
            coefficient := GF256.ofInt coefficient, lostBlkName := nameOf lostBlkName,
            localBlkName := nameOf localBlkName }, lostBlkNameLen, localBlkNameLen)

/-- The parsing of `PipeDRWorker::doProcess` and `CyclDRWorker::doProcess`. -/
def readCmd (cmd : Bytes) : Read PipeCmd := do
  let fields ← readFields cmd
  return fields.1

end Pipe

/-! ## PipeMulCoordinator, PipeMulDRWorker and CyclMulFRWorker -/

namespace PipeMul

/-- The command for a helper. -/
def writeCmd (idx : Nat) (c : PipeMulCmd) : Option Bytes :=
  let lostFilelength := c.lostBlkName.length
  let localFileNameLen := c.localBlkName.length
  pushCmd idx
    (Pipe.helperPieces c.ecK c.requestorIP c.prevIP c.nextIP c.id c.coefficient c.lostBlkName
        c.localBlkName ++
      [(24 + lostFilelength + 4 + localFileNameLen, le 4 c.jobInd.toNat),
        (24 + lostFilelength + 4 + localFileNameLen + 4, le 4 c.jobNum.toNat)])
    (24 + lostFilelength + localFileNameLen + 16)

/-- The parsing of `PipeMulDRWorker::doProcess` and `CyclMulFRWorker::doProcess`. -/
def readCmd (cmd : Bytes) : Read PipeMulCmd := do
  let fields ← Pipe.readFields cmd
  let c := fields.1
  let lostBlkNameLen := fields.2.1
  let localBlkNameLen := fields.2.2
  let jobInd ← readWord cmd (28 + lostBlkNameLen + localBlkNameLen)
  let jobNum ← readWord cmd (32 + lostBlkNameLen + localBlkNameLen)
  return { ecK := c.ecK, requestorIP := c.requestorIP, prevIP := c.prevIP, nextIP := c.nextIP,
           id := c.id, coefficient := c.coefficient, lostBlkName := c.lostBlkName,
           localBlkName := c.localBlkName, jobInd := jobInd, jobNum := jobNum }

end PipeMul

/-! ## PPRCoordinator and PPRPullDRWorker -/

/-- What `PPRPullDRWorker::doProcess` gets out of a command; `id = ecK` is the requestor. -/
structure PPRCmd where
  ecK : Nat
  id : Nat
  holderIps : List Nat
  coefficient : GF256
  lostBlkName : Str
  localBlkName : Str
  deriving DecidableEq

namespace PPR

/-- The command for helper `i`. -/
def writeHelper (idx ecK i : Nat) (holderIps : List Nat) (coefficient : GF256)
    (filename localFile : Str) : Option Bytes :=
  let requestedFileNameLen := filename.length
  let localFileNameLen := localFile.length
  let localFileBase := 12 + 4 * (ecK + 1) + requestedFileNameLen
  pushCmd idx
    [(0, le 4 ecK), (4, le 4 i), (8, holderIps.flatMap (le 4)),
      (4 * (ecK + 1) + 8, le 4 (coefWord coefficient requestedFileNameLen)),
      (4 * (ecK + 1) + 12, nameBytes filename), (localFileBase, le 4 localFileNameLen),
      (localFileBase + 4, nameBytes localFile)]
    (localFileBase + localFileNameLen + 8)

/-- The command for the requestor. -/
def writeRequestor (idx ecK : Nat) (holderIps : List Nat) (filename : Str) : Option Bytes :=
  let requestedFileNameLen := filename.length
  let localFileBase := 12 + 4 * (ecK + 1) + requestedFileNameLen
  pushCmd idx
    [(0, le 4 ecK), (4, le 4 ecK), (8, holderIps.flatMap (le 4)),
      (4 * (ecK + 1) + 8, le 4 requestedFileNameLen),
      (4 * (ecK + 1) + 12, nameBytes filename)]
    (localFileBase + 4)

/-- The parsing of `PPRPullDRWorker::doProcess`. -/
def readCmd (cmd : Bytes) : Read PPRCmd := do
  let ecK ← readWord cmd 0
  let id ← readWord cmd 4
  let holderIps ← readWords cmd 8 (ecK + 1)
  let lenWord ← readWord cmd (8 + 4 * (ecK + 1))
  let coefficient := lenWord >>> 16
  let lostBlkNameLen := lenWord &&& 0xffff
  let lostBlkName ← readStr cmd (12 + 4 * (ecK + 1)) lostBlkNameLen
  if ecK ≠ id then
    let localBlkNameLen ← readWord cmd (12 + 4 * (ecK + 1) + lostBlkNameLen)
    let localBlkName ← readStr cmd (16 + 4 * (ecK + 1) + lostBlkNameLen) localBlkNameLen
    return { ecK := ecK, id := id, holderIps := holderIps, coefficient := GF256.ofInt coefficient,
             lostBlkName := nameOf lostBlkName, localBlkName := nameOf localBlkName }
  else
    return { ecK := ecK, id := id, holderIps := holderIps, coefficient := GF256.ofInt coefficient,
             lostBlkName := nameOf lostBlkName, localBlkName := [] }

end PPR

/-! ## Words and names -/

@[simp] theorem length_nameBytes (s : Str) : (nameBytes s).length = s.length := by
  simp [nameBytes]

theorem IsName.nameOf_nameBytes {s : Str} (h : IsName s) : nameOf (nameBytes s) = s := by
  have hchar : ∀ c ∈ s, Char.ofNat (UInt8.ofNat c.toNat).toNat = c := by
    intro c hc
    have hbyte : (UInt8.ofNat c.toNat).toNat = c.toNat := by
      rw [UInt8.toNat_ofNat', Nat.mod_eq_of_lt (h.bytes c hc)]
    rw [hbyte, Char.ofNat_toNat]
  rw [nameOf, nameBytes, List.map_map]
  calc
    s.map ((fun b : UInt8 => Char.ofNat b.toNat) ∘ fun c => UInt8.ofNat c.toNat) = s.map id :=
      List.map_congr_left hchar
    _ = s := List.map_id s

theorem IsName.word {s : Str} (h : IsName s) : s.length < 256 ^ 4 :=
  h.short.trans (by decide)

theorem ofInt_toNat (c : GF256) : GF256.ofInt (c.bits.toNat : Nat) = c := by
  ext1
  show BitVec.ofInt 8 (c.bits.toNat : Int) = c.bits
  rw [BitVec.ofInt_natCast, BitVec.ofNat_toNat, BitVec.setWidth_eq]

section CoefWord

variable (coefficient : GF256) {len : Nat}

theorem coefWord_eq (hlen : len < 65536) :
    coefWord coefficient len = coefficient.bits.toNat * 65536 + len := by
  rw [coefWord, ← Nat.shiftLeft_add_eq_or_of_lt (show len < 2 ^ 16 from hlen),
    Nat.shiftLeft_eq]

theorem coefWord_high (hlen : len < 65536) :
    coefWord coefficient len >>> 16 = coefficient.bits.toNat := by
  rw [coefWord_eq coefficient hlen, Nat.shiftRight_eq_div_pow]
  omega

theorem coefWord_low (hlen : len < 65536) : coefWord coefficient len &&& 0xffff = len := by
  have hmask : coefWord coefficient len &&& 0xffff = coefWord coefficient len % 2 ^ 16 :=
    Nat.and_two_pow_sub_one_eq_mod _ 16
  rw [hmask, coefWord_eq coefficient hlen]
  omega

theorem coefWord_lt (hlen : len < 65536) : coefWord coefficient len < 256 ^ 4 := by
  have hbyte : coefficient.bits.toNat < 256 := coefficient.bits.isLt
  rw [coefWord_eq coefficient hlen]
  omega

end CoefWord

/-! ## Pushing and reading -/

/-- The distributor finds the index `idx` in the message, and what it passes on is read as `c`, to
the last byte. -/
def Delivers {γ : Type} (idx : Nat) (message : Option Bytes) (read : Bytes → Read γ) (c : γ) :
    Prop :=
  ∀ m, message = some m → word m 0 = idx ∧ Reads (read (m.drop 4)) 0 c (m.drop 4).length

theorem tiles_shift {d pos : Nat} {pieces : List (Nat × Bytes)} :
    Tiles pos pieces → Tiles (d + pos) (pieces.map fun p => (d + p.1, p.2)) := by
  intro htiles
  induction pieces generalizing pos with
  | nil =>
      trivial
  | cons p ps ih =>
      obtain ⟨hpos, htiles⟩ := htiles
      have hrest := ih htiles
      rw [← Nat.add_assoc] at hrest
      exact ⟨congrArg (d + ·) hpos, hrest⟩

/-- A command is read as `c` if its pieces are. -/
theorem delivers_pushCmd {γ : Type} {idx len : Nat} {pieces : List (Nat × Bytes)}
    {read : Bytes → Read γ} {c : γ} (hidx : idx < 256 ^ 4) (htiles : Tiles 0 pieces)
    (hlen : len = 4 + (pieces.flatMap Prod.snd).length) :
    (∀ s, len ≤ COMMAND_MAX_LENGTH → At s 0 (pieces.flatMap Prod.snd) →
      Reads (read s) 0 c (pieces.flatMap Prod.snd).length) →
        Delivers idx (pushCmd idx pieces len) read c := by
  intro hread m hm
  have hall : Tiles 0 ((0, le 4 idx) :: pieces.map fun p => (4 + p.1, p.2)) :=
    ⟨rfl, tiles_shift htiles⟩
  have hsent := first_copyAll Wire.zeros hall
  have hbytes : ((0, le 4 idx) :: pieces.map fun p => (4 + p.1, p.2)).flatMap Prod.snd =
      le 4 idx ++ pieces.flatMap Prod.snd := by
    rw [List.flatMap_cons, List.flatMap_map]
  rw [hbytes, List.length_append, length_le, ← hlen] at hsent
  by_cases hfits : len ≤ COMMAND_MAX_LENGTH
  · rw [pushCmd, if_pos hfits] at hm
    have hm' : m = le 4 idx ++ pieces.flatMap Prod.snd := (Option.some.inj hm).symm.trans hsent
    have hat : At m 0 (le 4 idx ++ pieces.flatMap Prod.snd) := hm'
    have hrest : m.drop 4 = pieces.flatMap Prod.snd := hat.skip
    refine ⟨hat.word hidx, ?_⟩
    rw [hrest]
    exact hread _ hfits (at_start _)
  · rw [pushCmd, if_neg hfits] at hm
    cases hm

theorem readName {β : Type} {s l : Bytes} {a : Str} {pos hi : Nat} {f : Bytes → Read β} {y : β}
    (hat : At s pos (nameBytes a ++ l)) :
    (At s (pos + a.length) l → Reads (f (nameBytes a)) (pos + a.length) y hi) →
      Reads (readStr s pos a.length >>= f) pos y hi := by
  intro hf
  rw [← length_nameBytes] at hf ⊢
  exact hat.readStr hf

/-! ## Writes out of order -/

section Order

variable {idx len : Nat} {A B : List (Nat × Bytes)} {q : Nat × Bytes}

theorem copyAll_append (buf : Arr) (A B : List (Nat × Bytes)) :
    copyAll buf (A ++ B) = copyAll (copyAll buf A) B :=
  List.foldl_append

/-- A field that is written last. -/
theorem pushCmd_late : (∀ b ∈ B, Beside b q) →
    pushCmd idx (A ++ B ++ [q]) len = pushCmd idx (A ++ [q] ++ B) len := by
  intro hbeside
  have hshift : ∀ b ∈ B.map fun p => (4 + p.1, p.2), Beside b (4 + q.1, q.2) := by
    intro b hb
    obtain ⟨p, hp, rfl⟩ := List.mem_map.1 hb
    exact (hbeside p hp).shift 4
  have hmove : ∀ buf, copyAll (copyAll buf (B.map fun p => (4 + p.1, p.2)))
      ([q].map fun p => (4 + p.1, p.2)) =
      copyAll (copyAll buf ([q].map fun p => (4 + p.1, p.2)))
        (B.map fun p => (4 + p.1, p.2)) := fun buf => copyAll_copy buf hshift
  simp only [pushCmd, List.map_append, copyAll_append, hmove]

/-- A field of zeros that is not written at all. -/
theorem pushCmd_gap : (∀ b ∈ q.2, b = 0) → (∀ a ∈ A, Beside a q) →
    pushCmd idx (A ++ B) len = pushCmd idx (A ++ [q] ++ B) len := by
  intro hzero hbeside
  have hshift : ∀ a ∈ A.map fun p => (4 + p.1, p.2), Beside a (4 + q.1, q.2) := by
    intro a ha
    obtain ⟨p, hp, rfl⟩ := List.mem_map.1 ha
    exact (hbeside p hp).shift 4
  have hidx : Beside (0, le 4 idx) (4 + q.1, q.2) := by
    refine .inl ?_
    rw [length_le, Nat.zero_add]
    exact Nat.le_add_right 4 q.1
  -- the zeros could have been written into the cleared array
  have hkeep : copyAll (copy Wire.zeros 0 (le 4 idx)) (A.map fun p => (4 + p.1, p.2)) =
      copy (copyAll (copy Wire.zeros 0 (le 4 idx)) (A.map fun p => (4 + p.1, p.2)))
        (4 + q.1) q.2 := by
    rw [copyAll_copy _ hshift, copy_comm _ hidx, copy_zeros _ hzero]
  have hone : ∀ buf, copyAll buf ([q].map fun p => (4 + p.1, p.2)) = copy buf (4 + q.1) q.2 :=
    fun _ => rfl
  simp only [pushCmd, List.map_append, copyAll_append, hone, ← hkeep]

end Order

/-! ## Pipelines -/

section Pipelines

variable {ecK requestorIP prevIP nextIP i : Nat} {coefficient : GF256} {filename localFile : Str}

/-- The bytes of the fields that a helper's command begins with. -/
theorem Pipe.flatMap_helperPieces :
    (Pipe.helperPieces ecK requestorIP prevIP nextIP i coefficient filename localFile).flatMap
      Prod.snd = le 4 ecK ++ (le 4 requestorIP ++ (le 4 prevIP ++ (le 4 nextIP ++ (le 4 i ++
        (le 4 (coefWord coefficient filename.length) ++ (nameBytes filename ++
          (le 4 localFile.length ++ nameBytes localFile))))))) := by
  simp [Pipe.helperPieces]

theorem Pipe.length_helperPieces :
    ((Pipe.helperPieces ecK requestorIP prevIP nextIP i coefficient filename localFile).flatMap
      Prod.snd).length = 28 + filename.length + localFile.length := by
  simp only [Pipe.flatMap_helperPieces, List.length_append, length_le, length_nameBytes]
  omega

theorem Pipe.tiles_helperPieces : Tiles 0
    (Pipe.helperPieces ecK requestorIP prevIP nextIP i coefficient filename localFile) := by
  simp [Pipe.helperPieces, Tiles]

/-- The four pipeline workers read these fields, and then what follows. -/
theorem Pipe.reads_fields {s l : Bytes} {β : Type} {f : PipeCmd × Nat × Nat → Read β} {y : β}
    {hi : Nat}
    (hecK : ecK < 256 ^ 4) (hreq : requestorIP < 256 ^ 4) (hprev : prevIP < 256 ^ 4)
    (hnext : nextIP < 256 ^ 4) (hid : i < 256 ^ 4) (hfile : IsName filename)
    (hlocal : IsName localFile)
    (hat : At s 0 ((Pipe.helperPieces ecK requestorIP prevIP nextIP i coefficient filename
      localFile).flatMap Prod.snd ++ l)) :
    (At s (28 + filename.length + localFile.length) l →
      Reads (f (⟨ecK, requestorIP, prevIP, nextIP, i, coefficient, filename, localFile⟩,
        filename.length, localFile.length)) (28 + filename.length + localFile.length) y hi) →
      Reads (Pipe.readFields s >>= f) 0 y hi := by
  intro hf
  rw [Pipe.flatMap_helperPieces] at hat
  simp only [List.append_assoc] at hat
  rw [Pipe.readFields]
  simp only [bind_assoc]
  refine hat.readWord hecK fun hat => ?_
  refine hat.readWord hreq fun hat => ?_
  refine hat.readWord hprev fun hat => ?_
  refine hat.readWord hnext fun hat => ?_
  refine hat.readWord hid fun hat => ?_
  refine hat.readWord (coefWord_lt coefficient hfile.short) fun hat => ?_
  simp only [coefWord_high coefficient hfile.short, coefWord_low coefficient hfile.short]
  refine readName hat fun hat => ?_
  refine hat.readWord hlocal.word fun hat => ?_
  have hpos : 28 + filename.length = 0 + 4 + 4 + 4 + 4 + 4 + 4 + filename.length + 4 := by omega
  rw [hpos] at hf ⊢
  refine readName hat fun hat => ?_
  simp only [pure_bind, ofInt_toNat, hfile.nameOf_nameBytes, hlocal.nameOf_nameBytes]
  exact hf hat

variable {idx : Nat}

/-- `PipeCoordinator` and its two workers. -/
theorem Pipe.delivers_helper (hidx : idx < 256 ^ 4) (hecK : ecK < 256 ^ 4)
    (hreq : requestorIP < 256 ^ 4) (hprev : prevIP < 256 ^ 4) (hnext : nextIP < 256 ^ 4)
    (hid : i < 256 ^ 4) (hfile : IsName filename) (hlocal : IsName localFile) :
    Delivers idx (Pipe.writeHelper idx
      ⟨ecK, requestorIP, prevIP, nextIP, i, coefficient, filename, localFile⟩) Pipe.readCmd
      ⟨ecK, requestorIP, prevIP, nextIP, i, coefficient, filename, localFile⟩ := by
  refine delivers_pushCmd hidx Pipe.tiles_helperPieces ?_ fun s _ hat => ?_
  · rw [Pipe.length_helperPieces]
    show 24 + filename.length + localFile.length + 8 = 4 + (28 + filename.length + localFile.length)
    omega
  · rw [Pipe.length_helperPieces]
    rw [← List.append_nil (List.flatMap _ _)] at hat
    refine Pipe.reads_fields hecK hreq hprev hnext hid hfile hlocal hat fun _ => ?_
    exact reads_pure _ _

/-- The requestor's command is that of a helper without a next node. -/
theorem Pipe.writeHolder_eq : Pipe.writeHolder idx requestorIP coefficient filename localFile =
    Pipe.writeHelper idx
      ⟨0x010000, requestorIP, requestorIP, 0, 0x010000, coefficient, filename, localFile⟩ := by
  let A : List (Nat × Bytes) := [(0, le 4 0x010000), (4, le 4 requestorIP)]
  let B : List (Nat × Bytes) :=
    [(16, le 4 0x010000), (20, le 4 (coefWord coefficient filename.length)),
      (24, nameBytes filename), (24 + filename.length, le 4 localFile.length),
      (24 + filename.length + 4, nameBytes localFile)]
  have hlate : ∀ b ∈ B, Beside b (8, le 4 requestorIP) := by
    simp [B, Beside]
    omega
  have hgap : ∀ a ∈ A ++ [(8, le 4 requestorIP)], Beside a (12, le 4 0) := by
    simp [A, Beside]
  calc
    Pipe.writeHolder idx requestorIP coefficient filename localFile =
        pushCmd idx (A ++ B ++ [(8, le 4 requestorIP)])
          (24 + filename.length + localFile.length + 8) := rfl
    _ = pushCmd idx (A ++ [(8, le 4 requestorIP)] ++ B)
          (24 + filename.length + localFile.length + 8) := pushCmd_late hlate
    _ = pushCmd idx (A ++ [(8, le 4 requestorIP)] ++ [(12, le 4 0)] ++ B)
          (24 + filename.length + localFile.length + 8) := pushCmd_gap (fun _ => eq_zero_of_mem_le) hgap
    _ = _ := by
      simp only [A, B, Pipe.writeHelper, Pipe.helperPieces, List.cons_append, List.nil_append]

/-- `PipeMulCoordinator` and its two workers. -/
theorem PipeMul.delivers {c : PipeMulCmd} (hidx : idx < 256 ^ 4) (hecK : c.ecK < 256 ^ 4)
    (hreq : c.requestorIP < 256 ^ 4) (hprev : c.prevIP < 256 ^ 4) (hnext : c.nextIP < 256 ^ 4)
    (hid : c.id < 256 ^ 4) (hfile : IsName c.lostBlkName) (hlocal : IsName c.localBlkName)
    (hind : 0 ≤ c.jobInd ∧ c.jobInd < 256 ^ 4) (hnum : 0 ≤ c.jobNum ∧ c.jobNum < 256 ^ 4) :
    Delivers idx (PipeMul.writeCmd idx c) PipeMul.readCmd c := by
  let jobs : List (Nat × Bytes) :=
    [(24 + c.lostBlkName.length + 4 + c.localBlkName.length, le 4 c.jobInd.toNat),
      (24 + c.lostBlkName.length + 4 + c.localBlkName.length + 4, le 4 c.jobNum.toNat)]
  have hind' : c.jobInd.toNat < 256 ^ 4 := by omega
  have hnum' : c.jobNum.toNat < 256 ^ 4 := by omega
  have hjobs : jobs.flatMap Prod.snd = le 4 c.jobInd.toNat ++ le 4 c.jobNum.toNat := by
    simp [jobs]
  refine delivers_pushCmd hidx (tiles_append.2 ⟨Pipe.tiles_helperPieces, ?_⟩) ?_ fun s _ hat => ?_
  · rw [Pipe.length_helperPieces]
    refine ⟨?_, ?_, trivial⟩
    · show 24 + c.lostBlkName.length + 4 + c.localBlkName.length = _
      omega
    · show 24 + c.lostBlkName.length + 4 + c.localBlkName.length + 4 =
        0 + (28 + c.lostBlkName.length + c.localBlkName.length) + (le 4 c.jobInd.toNat).length
      rw [length_le]
      omega
  · show 24 + c.lostBlkName.length + c.localBlkName.length + 16 = _
    rw [List.flatMap_append, List.length_append, Pipe.length_helperPieces, hjobs,
      List.length_append, length_le, length_le]
    omega
  · rw [List.flatMap_append, List.length_append, Pipe.length_helperPieces, hjobs,
      List.length_append, length_le, length_le]
    rw [List.flatMap_append, hjobs] at hat
    refine Pipe.reads_fields hecK hreq hprev hnext hid hfile hlocal hat fun hat => ?_
    refine hat.readWord hind' fun hat => ?_
    have hpos : 32 + c.lostBlkName.length + c.localBlkName.length =
        28 + c.lostBlkName.length + c.localBlkName.length + 4 := by omega
    rw [← List.append_nil (le 4 c.jobNum.toNat)] at hat
    rw [hpos]
    refine hat.readWord hnum' fun _ => ?_
    rw [Int.toNat_of_nonneg hind.1, Int.toNat_of_nonneg hnum.1]
    exact reads_pure _ _

end Pipelines

/-! ## PPR -/

section Partial

variable {idx ecK i : Nat} {holderIps : List Nat} {coefficient : GF256} {filename localFile : Str}

/-- `PPRCoordinator` and its worker: a helper. -/
theorem PPR.delivers_helper (hidx : idx < 256 ^ 4) (hecK : ecK < 256 ^ 4) (hid : i < 256 ^ 4)
    (hlen : holderIps.length = ecK + 1) (hips : ∀ ip ∈ holderIps, ip < 256 ^ 4)
    (hfile : IsName filename) (hlocal : IsName localFile) (hhelper : i ≠ ecK) :
    Delivers idx (PPR.writeHelper idx ecK i holderIps coefficient filename localFile) PPR.readCmd
      ⟨ecK, i, holderIps, coefficient, filename, localFile⟩ := by
  have hbytes := length_flatMap_le holderIps
  rw [hlen] at hbytes
  refine delivers_pushCmd hidx ?_ ?_ fun s _ hat => ?_
  · simp only [Tiles, length_le, length_nameBytes, hbytes, and_true, true_and]
    omega
  · simp only [List.flatMap_cons, List.flatMap_nil, List.length_append, length_le,
      length_nameBytes, hbytes, List.length_nil]
    omega
  · simp only [List.flatMap_cons, List.flatMap_nil, List.length_append, length_le,
      length_nameBytes, hbytes, List.length_nil] at hat ⊢
    rw [PPR.readCmd]
    refine hat.readWord hecK fun hat => ?_
    refine hat.readWord hid fun hat => ?_
    simp only [← hlen]
    refine hat.readWords hips fun hat => ?_
    have hpos : 8 + 4 * holderIps.length = 0 + 4 + 4 + 4 * holderIps.length := by omega
    rw [hpos]
    refine hat.readWord (coefWord_lt coefficient hfile.short) fun hat => ?_
    simp only [coefWord_high coefficient hfile.short, coefWord_low coefficient hfile.short]
    have hpos : 12 + 4 * holderIps.length = 0 + 4 + 4 + 4 * holderIps.length + 4 := by omega
    rw [hpos]
    refine readName hat fun hat => ?_
    rw [if_pos (Ne.symm hhelper)]
    refine hat.readWord hlocal.word fun hat => ?_
    have hpos : 16 + 4 * holderIps.length + filename.length =
        0 + 4 + 4 + 4 * holderIps.length + 4 + filename.length + 4 := by omega
    rw [hpos]
    refine readName hat fun _ => ?_
    have hend : 0 + 4 + 4 + 4 * holderIps.length + 4 + filename.length + 4 + localFile.length =
        4 + (4 + (4 * holderIps.length + (4 + (filename.length + (4 + (localFile.length + 0))))))
        := by omega
    rw [hend, ofInt_toNat, hfile.nameOf_nameBytes, hlocal.nameOf_nameBytes]
    exact reads_pure _ _

/-- `PPRCoordinator` and its worker: the requestor. -/
theorem PPR.delivers_requestor (hidx : idx < 256 ^ 4) (hecK : ecK < 256 ^ 4)
    (hlen : holderIps.length = ecK + 1) (hips : ∀ ip ∈ holderIps, ip < 256 ^ 4)
    (hfile : IsName filename) :
    Delivers idx (PPR.writeRequestor idx ecK holderIps filename) PPR.readCmd
      ⟨ecK, ecK, holderIps, 0, filename, []⟩ := by
  have hbytes := length_flatMap_le holderIps
  rw [hlen] at hbytes
  -- the word of the length is that of the coefficient zero
  have hcoef : filename.length = coefWord 0 filename.length :=
    (coefWord_eq 0 hfile.short).symm ▸ (Nat.zero_add _).symm
  refine delivers_pushCmd hidx ?_ ?_ fun s _ hat => ?_
  · simp only [Tiles, length_le, hbytes, and_true, true_and]
    omega
  · simp only [List.flatMap_cons, List.flatMap_nil, List.length_append, length_le,
      length_nameBytes, hbytes, List.length_nil]
    omega
  · have hat : At s 0 (le 4 ecK ++ (le 4 ecK ++ (holderIps.flatMap (le 4) ++
        (le 4 (coefWord 0 filename.length) ++ (nameBytes filename ++ []))))) := by
      rw [← hcoef]
      exact hat
    simp only [List.flatMap_cons, List.flatMap_nil, List.length_append, length_le,
      length_nameBytes, hbytes, List.length_nil]
    rw [PPR.readCmd]
    refine hat.readWord hecK fun hat => ?_
    refine hat.readWord hecK fun hat => ?_
    simp only [← hlen]
    refine hat.readWords hips fun hat => ?_
    have hpos : 8 + 4 * holderIps.length = 0 + 4 + 4 + 4 * holderIps.length := by omega
    rw [hpos]
    refine hat.readWord (coefWord_lt 0 hfile.short) fun hat => ?_
    simp only [coefWord_high 0 hfile.short, coefWord_low 0 hfile.short]
    have hpos : 12 + 4 * holderIps.length = 0 + 4 + 4 + 4 * holderIps.length + 4 := by omega
    rw [hpos]
    refine readName hat fun _ => ?_
    rw [if_neg (not_not.2 rfl)]
    have hend : 0 + 4 + 4 + 4 * holderIps.length + 4 + filename.length =
        4 + (4 + (4 * holderIps.length + (4 + (filename.length + 0)))) := by omega
    rw [hend, ofInt_toNat, hfile.nameOf_nameBytes]
    exact reads_pure _ _

end Partial

/-! ## Conventional repair -/

namespace Conv

section Helper

variable {idx ecK requestorIP nextIP i : Nat} {filename localFile : Str}

/-- `ConvCoordinator` and its worker: a helper. -/
theorem delivers_helper (hidx : idx < 256 ^ 4) (hecK : ecK < 256 ^ 4) (hreq : requestorIP < 256 ^ 4)
    (hnext : nextIP < 256 ^ 4) (hid : i < 256 ^ 4) (hfile : IsName filename)
    (hlocal : IsName localFile) :
    Delivers idx (writeHelper idx ecK requestorIP nextIP i filename localFile) readCmd
      (.helper ecK requestorIP 1 nextIP i filename localFile) := by
  refine delivers_pushCmd hidx ?_ ?_ fun s _ hat => ?_
  · simp only [Tiles, length_le, length_nameBytes, and_true]
  · simp only [List.flatMap_cons, List.flatMap_nil, List.length_append, length_le,
      length_nameBytes, List.length_nil]
    omega
  · simp only [List.flatMap_cons, List.flatMap_nil, List.length_append, length_le,
      length_nameBytes, List.length_nil] at hat ⊢
    rw [readCmd]
    refine hat.readWord hecK fun hat => ?_
    refine hat.readWord hreq fun hat => ?_
    refine hat.readWord (by decide) fun hat => ?_
    refine hat.readWord hnext fun hat => ?_
    refine hat.readWord hid fun hat => ?_
    rw [if_neg (by decide)]
    refine hat.readWord hfile.word fun hat => ?_
    refine readName hat fun hat => ?_
    refine hat.readWord hlocal.word fun hat => ?_
    have hpos : 28 + filename.length = 0 + 4 + 4 + 4 + 4 + 4 + 4 + filename.length + 4 := by omega
    rw [hpos]
    refine readName hat fun _ => ?_
    have hend : 0 + 4 + 4 + 4 + 4 + 4 + 4 + filename.length + 4 + localFile.length =
        4 + (4 + (4 + (4 + (4 + (4 + (filename.length + (4 + (localFile.length + 0)))))))) := by
      omega
    rw [hend, hfile.nameOf_nameBytes, hlocal.nameOf_nameBytes]
    exact reads_pure _ _

end Helper

section Jobs

variable {ecK : Nat} {β : Type} {s l : Bytes} {pos hi : Nat} {y : β}

/-- The bytes of a row of coefficients. -/
def coefBytes (coefs : List GF256) : Bytes :=
  coefs.flatMap fun c => le 4 c.bits.toNat

/-- The bytes of a job in the requestor's command. -/
def jobBytes (job : ConvMulJob) : Bytes :=
  le 4 job.nextIP ++ (le 4 job.lostBlkName.length ++ (nameBytes job.lostBlkName ++
    coefBytes job.coefs))

theorem length_coefBytes (coefs : List GF256) : (coefBytes coefs).length = 4 * coefs.length := by
  rw [coefBytes, ← List.flatMap_map (fun c : GF256 => c.bits.toNat) (le 4), length_flatMap_le,
    List.length_map]

theorem reads_coefs {f : List GF256 → Read β} {n : Nat} (coefs : List GF256)
    (hn : coefs.length = n) (hat : At s pos (coefBytes coefs ++ l)) :
    (At s (pos + 4 * n) l → Reads (f coefs) (pos + 4 * n) y hi) →
      Reads (readCoefs s n pos >>= f) pos y hi := by
  intro hf
  subst hn
  induction coefs generalizing pos f with
  | nil =>
      exact hf hat
  | cons c coefs ih =>
      have hbyte : c.bits.toNat < 256 ^ 4 := c.bits.isLt.trans (by decide)
      rw [coefBytes, List.flatMap_cons, List.append_assoc] at hat
      rw [List.length_cons, readCoefs, bind_assoc]
      refine hat.readWord hbyte fun hat => ?_
      rw [bind_assoc]
      refine ih hat fun hat => ?_
      have hpos : pos + 4 + 4 * coefs.length = pos + 4 * (coefs.length + 1) := by ring
      rw [hpos] at hat ⊢
      rw [pure_bind, ofInt_toNat]
      exact hf hat

/-- A job that `readJobs` can read. -/
structure IsJob (ecK : Nat) (job : ConvMulJob) : Prop where
  size : job.ecK = ecK
  nextIP : job.nextIP < 256 ^ 4
  coefs : job.coefs.length = ecK
  name : IsName job.lostBlkName

theorem length_jobBytes {job : ConvMulJob} (hjob : IsJob ecK job) :
    (jobBytes job).length = 8 + job.lostBlkName.length + 4 * ecK := by
  simp only [jobBytes, List.length_append, length_le, length_nameBytes, length_coefBytes,
    hjob.coefs]
  omega

theorem reads_jobs {f : List ConvMulJob → Read β} (jobs : List ConvMulJob)
    (hjobs : ∀ job ∈ jobs, IsJob ecK job) (hat : At s pos (jobs.flatMap jobBytes ++ l)) :
    (At s (pos + (jobs.flatMap jobBytes).length) l →
      Reads (f jobs) (pos + (jobs.flatMap jobBytes).length) y hi) →
      Reads (readJobs s ecK jobs.length pos >>= f) pos y hi := by
  intro hf
  induction jobs generalizing pos f with
  | nil =>
      exact hf hat
  | cons job jobs ih =>
      have hjob := hjobs job List.mem_cons_self
      rw [List.flatMap_cons, List.append_assoc, jobBytes] at hat
      simp only [List.append_assoc] at hat
      rw [List.length_cons, readJobs, bind_assoc]
      refine hat.readWord hjob.nextIP fun hat => ?_
      rw [bind_assoc]
      refine hat.readWord hjob.name.word fun hat => ?_
      have hpos : pos + 8 = pos + 4 + 4 := by ring
      rw [bind_assoc, hpos]
      refine readName hat fun hat => ?_
      have hpos : pos + (8 + job.lostBlkName.length) = pos + 4 + 4 + job.lostBlkName.length := by
        ring
      simp only [bind_assoc, hpos]
      refine reads_coefs job.coefs hjob.coefs hat fun hat => ?_
      refine ih (fun job' hjob' => hjobs job' (List.mem_cons_of_mem job hjob')) hat fun hat => ?_
      have hpos : pos + 4 + 4 + job.lostBlkName.length + 4 * ecK + (jobs.flatMap jobBytes).length =
          pos + ((job :: jobs).flatMap jobBytes).length := by
        rw [List.flatMap_cons, List.length_append, length_jobBytes hjob]
        ring
      have hsame : (⟨ecK, job.nextIP, job.coefs, job.lostBlkName⟩ : ConvMulJob) = job := by
        cases job
        exact congrArg (fun k => ConvMulJob.mk k _ _ _) hjob.size.symm
      rw [hpos] at hat ⊢
      rw [pure_bind, hjob.name.nameOf_nameBytes, hsame]
      exact hf hat

end Jobs

section Requestor

variable {idx ecK requestorIP : Nat} {coef : Str → TreeMap Str GF256} {ips : List Nat}
  {filename : Str} {lostFiles : List (Str × Nat)} {stripe_mul : Plan}

theorem tiles_words (n from' : Nat) (g : Nat → Nat) :
    Tiles from' ((List.range n).map fun i => (from' + 4 * i, le 4 (g i))) := by
  induction n with
  | zero =>
      trivial
  | succ n ih =>
      rw [List.range_succ, List.map_append]
      refine tiles_append.2 ⟨ih, ?_, trivial⟩
      rw [List.flatMap_map, List.length_flatMap]
      simp [Nat.mul_comm]

/-- What is written for one entry. -/
theorem addReqInfo_spec (ecK : Nat) (coef : Str → TreeMap Str GF256) (cmdbase nextIP : Nat)
    (it2 : Str × List (Nat × Str)) {job : ConvMulJob} (hnext : job.nextIP = nextIP)
    (hname : job.lostBlkName = it2.1)
    (hcoefs : job.coefs = (List.range ecK).map fun i =>
      (coef it2.1).getD (it2.2.getD i (0, [])).2 0) :
    Tiles cmdbase (addReqInfo ecK coef cmdbase nextIP it2).1 ∧
      (addReqInfo ecK coef cmdbase nextIP it2).1.flatMap Prod.snd = jobBytes job ∧
      (addReqInfo ecK coef cmdbase nextIP it2).2 = cmdbase + (jobBytes job).length := by
  have hlength : job.coefs.length = ecK := by
    rw [hcoefs, List.length_map, List.length_range]
  refine ⟨tiles_append.2 ⟨?_, ?_⟩, ?_, ?_⟩
  · simp only [Tiles, length_le, and_true]
  · simp only [List.flatMap_cons, List.flatMap_nil, List.length_append, length_le,
      length_nameBytes, List.length_nil]
    have hpos : cmdbase + (4 + (4 + (it2.1.length + 0))) = cmdbase + (8 + it2.1.length) := by
      omega
    rw [hpos]
    exact tiles_words ecK _ _
  · simp [addReqInfo, jobBytes, coefBytes, hnext, hname, hcoefs, List.flatMap_map]
  · simp only [addReqInfo, jobBytes, List.length_append, length_le, length_nameBytes,
      length_coefBytes, hlength, hname]
    omega

/-- Each lost file with an entry becomes a job. -/
theorem addReqInfos_spec (ecK : Nat) (coef : Str → TreeMap Str GF256) (stripe_mul : Plan)
    (lostFiles : List (Str × Nat)) (cmdbase : Nat) :
    Tiles cmdbase (addReqInfos ecK coef stripe_mul lostFiles cmdbase).1 ∧
      (addReqInfos ecK coef stripe_mul lostFiles cmdbase).1.flatMap Prod.snd =
        (lostFiles.filterMap (jobOf ecK coef stripe_mul)).flatMap jobBytes ∧
      (addReqInfos ecK coef stripe_mul lostFiles cmdbase).2 = cmdbase +
        ((lostFiles.filterMap (jobOf ecK coef stripe_mul)).flatMap jobBytes).length := by
  induction lostFiles generalizing cmdbase with
  | nil =>
      exact ⟨trivial, rfl, rfl⟩
  | cons it lostFiles ih =>
      cases hfind : stripe_mul.toList.find? fun it2 => it2.2.1 = it.1 with
      | none =>
          have hjob : jobOf ecK coef stripe_mul it = none := by rw [jobOf, hfind, Option.map_none]
          simp only [addReqInfos, hfind, List.filterMap_cons, hjob]
          exact ih cmdbase
      | some it2 =>
          obtain ⟨job, hjob⟩ : ∃ job, jobOf ecK coef stripe_mul it = some job := by
            rw [jobOf, hfind]
            exact ⟨_, rfl⟩
          have hsame := hjob
          rw [jobOf, hfind, Option.map_some, Option.some_inj] at hsame
          obtain ⟨htiles, hinfo, hend⟩ := @addReqInfo_spec ecK coef cmdbase it.2 it2.2 job
            (by rw [← hsame]) (by rw [← hsame]) (by rw [← hsame])
          obtain ⟨htiles', hbytes', hend'⟩ := ih (addReqInfo ecK coef cmdbase it.2 it2.2).2
          simp only [addReqInfos, hfind, List.filterMap_cons, hjob, List.flatMap_cons,
            List.flatMap_append, List.length_append]
          refine ⟨tiles_append.2 ⟨htiles, ?_⟩, ?_, ?_⟩
          · rw [hinfo, ← hend]
            exact htiles'
          · rw [hinfo, hbytes']
          · rw [hend', hend, Nat.add_assoc]

/-- What the requestor's command is made of. -/
structure IsRequest (lostFiles : List (Str × Nat)) (stripe_mul : Plan) : Prop where
  files : (lostFiles.map Prod.fst).Nodup
  entries : (stripe_mul.toList.map fun e => e.2.1).Nodup
  listed : ∀ e ∈ stripe_mul.toList, e.2.1 ∈ lostFiles.map Prod.fst

theorem jobOf_eq_some {it : Str × Nat} {job : ConvMulJob} :
    jobOf ecK coef stripe_mul it = some job →
      job.ecK = ecK ∧ job.nextIP = it.2 ∧ job.coefs.length = ecK ∧ job.lostBlkName = it.1 := by
  intro hjob
  obtain ⟨it2, hfind, rfl⟩ := Option.map_eq_some_iff.1 hjob
  have hname := List.find?_some hfind
  exact ⟨rfl, rfl, by simp, by simpa using hname⟩

/-- The number that is written is the number of jobs. -/
theorem length_jobs (h : IsRequest lostFiles stripe_mul) :
    (lostFiles.filterMap (jobOf ecK coef stripe_mul)).length = stripe_mul.size := by
  let names := stripe_mul.toList.map fun e => e.2.1
  have hjobs : ∀ l : List (Str × Nat), (l.filterMap (jobOf ecK coef stripe_mul)).map
      ConvMulJob.lostBlkName = (l.map Prod.fst).filter fun b => b ∈ names := by
    intro l
    induction l with
    | nil =>
        rfl
    | cons it l ih =>
        have hsome : (jobOf ecK coef stripe_mul it).isSome = decide (it.1 ∈ names) := by
          rw [jobOf, Option.isSome_map, Bool.eq_iff_iff, List.find?_isSome, decide_eq_true_iff,
            List.mem_map]
          simp
        cases hjob : jobOf ecK coef stripe_mul it with
        | none =>
            rw [hjob, Option.isSome_none] at hsome
            rw [List.filterMap_cons_none hjob, ih, List.map_cons,
              List.filter_cons_of_neg (by rw [← hsome]; exact Bool.false_ne_true)]
        | some job =>
            rw [hjob, Option.isSome_some] at hsome
            have hkeep : (it.1 :: l.map Prod.fst).filter (fun b => b ∈ names) =
                it.1 :: (l.map Prod.fst).filter fun b => b ∈ names :=
              List.filter_cons_of_pos hsome.symm
            rw [List.filterMap_cons_some hjob, List.map_cons, ih, List.map_cons, hkeep,
              (jobOf_eq_some hjob).2.2.2]
  have hperm : ((lostFiles.map Prod.fst).filter fun b => b ∈ names).Perm names := by
    refine (List.perm_ext_iff_of_nodup (h.files.filter _) h.entries).2 fun b => ?_
    rw [List.mem_filter, decide_eq_true_iff]
    refine ⟨fun hb => hb.2, fun hb => ⟨?_, hb⟩⟩
    obtain ⟨e, he, rfl⟩ := List.mem_map.1 hb
    exact h.listed e he
  calc
    (lostFiles.filterMap (jobOf ecK coef stripe_mul)).length
        = ((lostFiles.filterMap (jobOf ecK coef stripe_mul)).map ConvMulJob.lostBlkName).length :=
          (List.length_map _).symm
    _ = names.length := by rw [hjobs, hperm.length_eq]
    _ = stripe_mul.size := by rw [List.length_map, TreeMap.length_toList]

/-- The fields before the jobs.  The one at 16 is not written, and read as a zero. -/
def requestorPieces (ecK requestorIP n : Nat) (ips : List Nat) (filename : Str) :
    List (Nat × Bytes) :=
  [(0, le 4 ecK), (4, le 4 requestorIP), (8, le 4 0xffffffff), (12, le 4 n), (16, le 4 0),
    (20, ips.flatMap (le 4)), (20 + 4 * ecK, le 4 filename.length),
    (24 + 4 * ecK, nameBytes filename)]

theorem length_requestorPieces {n : Nat} (hlen : ips.length = ecK) :
    ((requestorPieces ecK requestorIP n ips filename).flatMap Prod.snd).length =
      24 + 4 * ecK + filename.length := by
  simp only [requestorPieces, List.flatMap_cons, List.flatMap_nil, List.length_append, length_le,
    length_nameBytes, length_flatMap_le, hlen, List.length_nil]
  omega

theorem tiles_requestorPieces {n : Nat} (hlen : ips.length = ecK) :
    Tiles 0 (requestorPieces ecK requestorIP n ips filename) := by
  simp only [requestorPieces, Tiles, length_le, length_flatMap_le, hlen, and_true, true_and]
  omega

theorem writeRequestor_eq :
    writeRequestor ecK coef idx requestorIP ips filename lostFiles stripe_mul =
      pushCmd idx
        (requestorPieces ecK requestorIP stripe_mul.size ips filename ++
          (addReqInfos ecK coef stripe_mul lostFiles (24 + 4 * ecK + filename.length)).1)
        ((addReqInfos ecK coef stripe_mul lostFiles (24 + 4 * ecK + filename.length)).2 + 4) := by
  have hbeside : ∀ a ∈ [(0, le 4 ecK), (4, le 4 requestorIP), (8, le 4 0xffffffff),
      (12, le 4 stripe_mul.size)], Beside a (16, le 4 0) := by
    simp [Beside]
  have hgap := fun B len => @pushCmd_gap idx len _ B _ (fun _ => eq_zero_of_mem_le) hbeside
  simp only [List.cons_append, List.nil_append] at hgap
  simp only [writeRequestor, requestorPieces, List.cons_append, List.nil_append]
  exact hgap _ _

/-- Each job takes some bytes of the array. -/
theorem length_le_jobBytes {jobs : List ConvMulJob} (hjobs : ∀ job ∈ jobs, IsJob ecK job) :
    jobs.length ≤ (jobs.flatMap jobBytes).length := by
  rw [List.length_flatMap]
  refine (List.length_map (fun job => (jobBytes job).length) ▸
    List.length_le_sum_of_one_le _ ?_)
  intro n hn
  obtain ⟨job, hmem, rfl⟩ := List.mem_map.1 hn
  rw [length_jobBytes (hjobs job hmem)]
  omega

/-- What the worker reads of the requestor's command. -/
theorem reads_requestor {s : Bytes} {jobs : List ConvMulJob} (hecK : ecK < 256 ^ 4)
    (hreq : requestorIP < 256 ^ 4) (hlen : ips.length = ecK) (hips : ∀ ip ∈ ips, ip < 256 ^ 4)
    (hfile : IsName filename) (hjobs : ∀ job ∈ jobs, IsJob ecK job)
    (hcount : jobs.length < 256 ^ 4)
    (hat : At s 0 ((requestorPieces ecK requestorIP jobs.length ips filename).flatMap Prod.snd ++
      jobs.flatMap jobBytes)) :
    Reads (readCmd s) 0 (.requestor ecK requestorIP ecK ips filename jobs)
      (24 + 4 * ecK + filename.length + (jobs.flatMap jobBytes).length) := by
  simp only [requestorPieces, List.flatMap_cons, List.flatMap_nil, List.append_assoc,
    List.nil_append] at hat
  rw [readCmd]
  refine hat.readWord hecK fun hat => ?_
  refine hat.readWord hreq fun hat => ?_
  refine hat.readWord (by decide) fun hat => ?_
  refine hat.readWord hcount fun hat => ?_
  refine hat.readWord (by decide) fun hat => ?_
  rw [if_pos (by decide)]
  simp only [← hlen]
  refine hat.readWords hips fun hat => ?_
  have hpos : 20 + 4 * ips.length = 0 + 4 + 4 + 4 + 4 + 4 + 4 * ips.length := by omega
  rw [hpos]
  refine hat.readWord hfile.word fun hat => ?_
  have hpos : 24 + 4 * ips.length = 0 + 4 + 4 + 4 + 4 + 4 + 4 * ips.length + 4 := by omega
  rw [hpos]
  refine readName hat fun hat => ?_
  rw [← List.append_nil (List.flatMap _ jobs)] at hat
  refine reads_jobs jobs (hlen ▸ hjobs) hat fun _ => ?_
  rw [hfile.nameOf_nameBytes]
  exact reads_pure _ _

/-- `ConvCoordinator` and its worker: the requestor. -/
theorem delivers_requestor (hidx : idx < 256 ^ 4) (hecK : ecK < 256 ^ 4)
    (hreq : requestorIP < 256 ^ 4) (hlen : ips.length = ecK) (hips : ∀ ip ∈ ips, ip < 256 ^ 4)
    (hfile : IsName filename) (hplan : IsRequest lostFiles stripe_mul)
    (hlost : ∀ it ∈ lostFiles, IsName it.1 ∧ it.2 < 256 ^ 4) :
    Delivers idx (writeRequestor ecK coef idx requestorIP ips filename lostFiles stripe_mul) readCmd
      (.requestor ecK requestorIP ecK ips filename
        (lostFiles.filterMap (jobOf ecK coef stripe_mul))) := by
  obtain ⟨htiles, hinfos, hend⟩ := addReqInfos_spec ecK coef stripe_mul lostFiles
    (24 + 4 * ecK + filename.length)
  have hjobs : ∀ job ∈ lostFiles.filterMap (jobOf ecK coef stripe_mul), IsJob ecK job := by
    intro job hmem
    obtain ⟨it, hit, hjob⟩ := List.mem_filterMap.1 hmem
    obtain ⟨hk, hnext, hcoefs, hname⟩ := jobOf_eq_some hjob
    exact ⟨hk, hnext ▸ (hlost it hit).2, hcoefs, hname ▸ (hlost it hit).1⟩
  have hpieces := @length_requestorPieces ecK requestorIP ips filename stripe_mul.size hlen
  rw [writeRequestor_eq]
  refine delivers_pushCmd hidx (tiles_append.2 ⟨tiles_requestorPieces hlen, ?_⟩) ?_
    fun s hfits hat => ?_
  · rw [Nat.zero_add, hpieces]
    exact htiles
  · rw [List.flatMap_append, List.length_append, hpieces, hinfos, hend, Nat.add_comm]
  · rw [List.flatMap_append, hinfos, ← length_jobs hplan] at hat
    rw [List.flatMap_append, List.length_append, hpieces, hinfos]
    have hcount : (lostFiles.filterMap (jobOf ecK coef stripe_mul)).length < 256 ^ 4 := by
      have hle := length_le_jobBytes hjobs
      have hmax : _ + 4 ≤ 1024 := hfits
      rw [hend] at hmax
      omega
    exact reads_requestor hecK hreq hlen hips hfile hjobs hcount hat

end Requestor

end Conv

/-! ## All commands -/

/-- The commands of the four coordinators are read as they were meant, and to the last byte. -/
theorem repair_cmds_round_trip (idx ecK requestorIP prevIP nextIP i jobInd jobNum : Nat)
    (ips holderIps : List Nat) (coefficient : GF256) (coef : Str → TreeMap Str GF256)
    (filename localFile : Str) (lostFiles : List (Str × Nat)) (stripe_mul : Plan)
    (hidx : idx < 256 ^ 4) (hecK : 1 ≤ ecK ∧ ecK < 256 ^ 4) (hreq : requestorIP < 256 ^ 4)
    (hprev : prevIP < 256 ^ 4) (hnext : nextIP < 256 ^ 4) (hid : i < ecK)
    (hind : jobInd < 256 ^ 4) (hnum : jobNum < 256 ^ 4)
    (hips : ips.length = ecK ∧ ∀ ip ∈ ips, ip < 256 ^ 4)
    (hholders : holderIps.length = ecK + 1 ∧ ∀ ip ∈ holderIps, ip < 256 ^ 4)
    (hfile : IsName filename) (hlocal : IsName localFile)
    (hplan : Conv.IsRequest lostFiles stripe_mul)
    (hlost : ∀ it ∈ lostFiles, IsName it.1 ∧ it.2 < 256 ^ 4) :
    Delivers idx (Conv.writeHelper idx ecK requestorIP nextIP i filename localFile) Conv.readCmd
      (.helper ecK requestorIP 1 nextIP i filename localFile) ∧
    Delivers idx
      (Conv.writeRequestor ecK coef idx requestorIP ips filename lostFiles stripe_mul) Conv.readCmd
      (.requestor ecK requestorIP ecK ips filename
        (lostFiles.filterMap (Conv.jobOf ecK coef stripe_mul))) ∧
    Delivers idx (Pipe.writeHolder idx requestorIP coefficient filename localFile) Pipe.readCmd
      ⟨0x010000, requestorIP, requestorIP, 0, 0x010000, coefficient, filename, localFile⟩ ∧
    Delivers idx
      (Pipe.writeHelper idx
        ⟨ecK, requestorIP, prevIP, nextIP, i, coefficient, filename, localFile⟩) Pipe.readCmd
      ⟨ecK, requestorIP, prevIP, nextIP, i, coefficient, filename, localFile⟩ ∧
    Delivers idx
      (PipeMul.writeCmd idx
        ⟨ecK, requestorIP, prevIP, nextIP, i, coefficient, filename, localFile, jobInd, jobNum⟩)
      PipeMul.readCmd
      ⟨ecK, requestorIP, prevIP, nextIP, i, coefficient, filename, localFile, jobInd, jobNum⟩ ∧
    Delivers idx (PPR.writeHelper idx ecK i holderIps coefficient filename localFile) PPR.readCmd
      ⟨ecK, i, holderIps, coefficient, filename, localFile⟩ ∧
    Delivers idx (PPR.writeRequestor idx ecK holderIps filename) PPR.readCmd
      ⟨ecK, ecK, holderIps, 0, filename, []⟩ := by
  have hid' : i < 256 ^ 4 := hid.trans hecK.2
  refine ⟨?_, ?_, ?_, ?_, ?_, ?_, ?_⟩
  · exact Conv.delivers_helper hidx hecK.2 hreq hnext hid' hfile hlocal
  · exact Conv.delivers_requestor hidx hecK.2 hreq hips.1 hips.2 hfile hplan hlost
  · rw [Pipe.writeHolder_eq]
    exact Pipe.delivers_helper hidx (by decide) hreq hreq (by decide) (by decide) hfile hlocal
  · exact Pipe.delivers_helper hidx hecK.2 hreq hprev hnext hid' hfile hlocal
  · exact PipeMul.delivers hidx hecK.2 hreq hprev hnext hid' hfile hlocal
      ⟨Int.natCast_nonneg jobInd, Int.ofNat_lt.2 hind⟩
      ⟨Int.natCast_nonneg jobNum, Int.ofNat_lt.2 hnum⟩
  · exact PPR.delivers_helper hidx hecK.2 hid' hholders.1 hholders.2 hfile hlocal hid.ne
  · exact PPR.delivers_requestor hidx hecK.2 hholders.1 hholders.2 hfile

/-- One copy is lost, and node 2 has another one. -/
def copyPlan : Plan :=
  (∅ : Plan).insert 1 (nameOf (copyName 0), [(2, nameOf (copyName 1))])

theorem copyPlan_isRequest : Conv.IsRequest [(nameOf (copyName 0), 1)] copyPlan := by
  have hlist : copyPlan.toList = [(1, nameOf (copyName 0), [(2, nameOf (copyName 1))])] := rfl
  refine ⟨by simp, ?_, ?_⟩
  · rw [hlist]
    simp
  · rw [hlist]
    simp

theorem copyName_isName (i : UInt8) : IsName (nameOf (copyName i)) := by
  refine ⟨fun c hc => ?_, by simp [nameOf, copyName]⟩
  obtain ⟨b, -, rfl⟩ := List.mem_map.1 hc
  rw [toNat_byteChar]
  exact b.toNat_lt

/-- The command for the requestor of this copy fits, and is read. -/
theorem repair_cmds_round_trip_copy :
    (Conv.writeRequestor 1 (fun _ => ∅) 0 9 [2] (nameOf (copyName 0)) [(nameOf (copyName 0), 1)]
      copyPlan).isSome ∧
    Delivers 0
      (Conv.writeRequestor 1 (fun _ => ∅) 0 9 [2] (nameOf (copyName 0)) [(nameOf (copyName 0), 1)]
        copyPlan) Conv.readCmd
      (.requestor 1 9 1 [2] (nameOf (copyName 0))
        ([(nameOf (copyName 0), 1)].filterMap (Conv.jobOf 1 (fun _ => ∅) copyPlan))) := by
  refine ⟨rfl, ?_⟩
  exact (repair_cmds_round_trip 0 1 9 2 2 0 1 1 [2] [2, 9] 1 (fun _ => ∅) (nameOf (copyName 0))
    (nameOf (copyName 1)) [(nameOf (copyName 0), 1)] copyPlan (by decide) (by decide) (by decide)
    (by decide) (by decide) (by decide) (by decide) (by decide) (by decide) (by decide)
    (copyName_isName 0) (copyName_isName 1) copyPlan_isRequest
    (by
      intro it hit
      obtain rfl := List.mem_singleton.1 hit
      exact ⟨copyName_isName 0, by decide⟩)).2.1

end CoRD
