import CoRD.Repair.CyclCollector
import CoRD.Repair.CyclDRWorker
import CoRD.Repair.CyclMulFRWorker
import CoRD.Repair.PacketRead
import CoRD.Util.Checked

/-!
# Moduli — where the repair workers divide

The workers test positions modulo a quotient of the packet count, to log some of the packets, and
modulo `_ecK - 1`, to find the place of a position in its group.  The guards in front of these tests
let the first and the last packet through, and some of them the last ten; what they leave can still
meet a quotient that is zero.

`DR_WORKER_DEBUG` is set, so that the tests guarded by it are made, and `EIS_DEBUG` is not.
-/

namespace CoRD

open Checked

/-! ## Logging -/

/-- The functions that log some of their packets. -/
inductive LogPlace where
  | convReadWorker
  | convSendWorker
  | convSendMulWorker
  | convRequestorCompletion
  | passiveReceiver
  | pprDoProcess
  | pprReadWorker
  | pipeMulReadWorker
  | pipeMulReadMulWorker
  | pipeMulSendMulWorker
  | pipeMulPullRequestorMulCompletion
  | cyclMulPullerMul
  | cyclMulReaderMul
  | pipeSendWorker
  | pipeReadWorker
  | pipePullRequestorCompletion
  | pipeMulSendWorker
  | cyclReader
  deriving DecidableEq

/-- The test that a function makes for a packet. -/
def LogPlace.output : LogPlace → Nat → Nat → Option Bool
  | .pipeSendWorker | .pipeReadWorker | .pipePullRequestorCompletion | .pipeMulSendWorker =>
      PipeDRWorker.output
  | .cyclReader => CyclDR.readOutput
  | _ => pktOutput

/-- The packets that a function makes its test for, in a command with position `id`. -/
def LogPlace.packets (packetCnt ecK id : Nat) : LogPlace → List Nat
  | .convRequestorCompletion => if id = ecK then List.range packetCnt else []
  | .pipePullRequestorCompletion => if id ≠ 0 then List.range packetCnt else []
  | .cyclMulPullerMul =>
      (List.range packetCnt).filter fun pktId => Cycl.Pulled packetCnt ecK id pktId
  | _ => List.range packetCnt

/-- The tests of one function. -/
def LogPlace.log (packetCnt ecK id : Nat) (place : LogPlace) : Option (List Bool) :=
  (place.packets packetCnt ecK id).mapM fun pktId => place.output pktId packetCnt

/-! ## Groups -/

/-- `CyclDRWorker::sender`: whether the slice of a position goes to the requestor. -/
def CyclDRWorker.senderToReq (packetCnt ecK id : Nat) : Option (List Bool) := do
  let lastGroupCnt ← modulus packetCnt (ecK - 1)
  let lastGroupCnt := if lastGroupCnt = 0 then ecK - 1 else lastGroupCnt
  let toReq ← (List.range (packetCnt - 1)).mapM fun i =>
    if id = ecK - 1 then some false
    else (modulus i (ecK - 1)).map fun pos => decide (pos = ecK - 2)
  return toReq ++ [decide (id < lastGroupCnt)]

/-- `retrieveCnt` in `CyclDRWorker::puller`: how many replies it asks for. -/
def CyclDRWorker.pullerRetrieveCnt (packetCnt ecK id : Nat) : Option Nat :=
  if id ≠ 0 then do
    let div ← quotient packetCnt (ecK - 1)
    let mod ← modulus packetCnt (ecK - 1)
    return packetCnt - div - if id ≤ mod then 1 else 0
  else some packetCnt

/-- `CyclDRWorker::puller`: whether it takes a reply for a position. -/
def CyclDRWorker.pullerTakes (packetCnt ecK id : Nat) : Option (List Bool) :=
  (List.range packetCnt).mapM fun i =>
    if id = 0 then some true else (modulus i (ecK - 1)).map fun pos => decide (pos ≠ 0)

/-- `round` in `CyclDRWorker::reader` and `CyclMulFRWorker::readerMul`. -/
def CyclDRWorker.readerRound (packetCnt ecK : Nat) : Option Nat := do
  let mod ← modulus packetCnt (ecK - 1)
  let div ← quotient packetCnt (ecK - 1)
  return if mod = 0 then div else div + 1

/-- `CyclMulFRWorker::pullerMul`: whether it takes a reply for a position of a job. -/
def CyclMulFRWorker.pullerMulTakes (packetCnt ecK id : Nat) : Option (List Bool) := do
  let lastGroupCnt ← modulus packetCnt (ecK - 1)
  let lastGroupBase := packetCnt - lastGroupCnt
  (List.range packetCnt).mapM fun pktId =>
    if id = 0 then some true
    else (modulus pktId (ecK - 1)).map fun pos =>
      decide (pos ≠ 0 ∨ pktId ≥ lastGroupBase ∧ id > lastGroupCnt)

/-- `CyclMulFRWorker::senderMul`: whether the slice of a position goes to the requestor. -/
def CyclMulFRWorker.senderMulToReq (packetCnt ecK id : Nat) : Option (List Bool) := do
  let lastGroupCnt ← modulus packetCnt (ecK - 1)
  let isLast (pktId : Nat) : Bool := id < lastGroupCnt && pktId = packetCnt - 1
  (List.range packetCnt).mapM fun pktId =>
    if id = ecK - 1 then some (isLast pktId)
    else (modulus pktId (ecK - 1)).map fun pos => decide (pos = ecK - 2) || isLast pktId

/-- `CyclMulFRWorker::readerMul`: whether it hands a position to the sender itself. -/
def CyclMulFRWorker.readerMulStarts (packetCnt ecK id : Nat) : Option (List Bool) := do
  let lastGroupCnt ← modulus packetCnt (ecK - 1)
  let lastGroupBase := packetCnt - lastGroupCnt
  (List.range packetCnt).mapM fun pktId =>
    if id = 0 then some false
    else (modulus pktId (ecK - 1)).map fun pos =>
      decide (pos = 0 ∧ (pktId < lastGroupBase ∨ id ≤ lastGroupCnt))

/-- `CyclMulFRWorker::readerMul`: whether the queue is not too far ahead of what was sent. -/
def CyclMulFRWorker.readerMulIsNear (ecK toSendCnt tmpQueueRear ahead : Nat) : Option Bool :=
  (quotient toSendCnt (ecK - 1)).map fun sent => decide (sent + ahead ≥ tmpQueueRear)

/-- `ECPipeInputStream::cyclCollector`: the context that each packet is asked from, and how many
packets each receiver waits for. -/
def ECPipeInputStream.cyclCollectorPulls (packetCnt ecK : Nat) : Option (List Nat × List Nat) := do
  let ctxes ← (List.range packetCnt).mapM fun i => modulus i (ecK - 1)
  let div ← quotient packetCnt (ecK - 1)
  let mod ← modulus packetCnt (ecK - 1)
  return (ctxes, (List.range (ecK - 1)).map fun i => div + if i < mod then 1 else 0)

/-- `ECPipeInputStream::cyclReceiver`: the packet and the block of an index. -/
def ECPipeInputStream.cyclReceiverIndex (nj baseIndex : Nat) : Option (Nat × Nat) := do
  let pktId ← quotient baseIndex nj
  let j ← modulus baseIndex nj
  return (pktId, j)

/-- No divisor is zero, in any command. -/
structure NoZeroDivisor (packetCnt ecK : Nat) : Prop where
  log : ∀ (place : LogPlace) (id : Nat), (place.log packetCnt ecK id).isSome = true
  sender : ∀ id, (CyclDRWorker.senderToReq packetCnt ecK id).isSome = true
  retrieveCnt : ∀ id, (CyclDRWorker.pullerRetrieveCnt packetCnt ecK id).isSome = true
  puller : ∀ id, (CyclDRWorker.pullerTakes packetCnt ecK id).isSome = true
  round : (CyclDRWorker.readerRound packetCnt ecK).isSome = true
  pullerMul : ∀ id, (CyclMulFRWorker.pullerMulTakes packetCnt ecK id).isSome = true
  senderMul : ∀ id, (CyclMulFRWorker.senderMulToReq packetCnt ecK id).isSome = true
  readerMul : ∀ id, (CyclMulFRWorker.readerMulStarts packetCnt ecK id).isSome = true
  isNear : ∀ toSendCnt tmpQueueRear ahead,
    (CyclMulFRWorker.readerMulIsNear ecK toSendCnt tmpQueueRear ahead).isSome = true
  cyclCollector : (ECPipeInputStream.cyclCollectorPulls packetCnt ecK).isSome = true
  -- a receiver belongs to one of the blocks
  cyclReceiver : ∀ nj, ∀ j < nj, ∀ baseIndex,
    (ECPipeInputStream.cyclReceiverIndex nj baseIndex).isSome = true

/-! ## Logging every packet -/

theorem isSome_log_iff {place : LogPlace} {packetCnt ecK id : Nat} :
    (place.log packetCnt ecK id).isSome = true ↔
      ∀ pktId ∈ place.packets packetCnt ecK id, (place.output pktId packetCnt).isSome = true :=
  isSome_mapM_iff

theorem LogPlace.packets_subset (place : LogPlace) (packetCnt ecK id : Nat) :
    place.packets packetCnt ecK id ⊆ List.range packetCnt := by
  unfold packets
  split
  · split
    · exact List.Subset.refl _
    · exact List.nil_subset _
  · split
    · exact List.Subset.refl _
    · exact List.nil_subset _
  · exact List.filter_subset_self _
  · exact List.Subset.refl _

/-- With three packets the second of them cannot be logged. -/
theorem forall_pktOutput_iff {packetCnt : Nat} :
    (∀ pktId < packetCnt, (pktOutput pktId packetCnt).isSome = true) ↔ packetCnt ≠ 3 := by
  constructor
  · rintro hall rfl
    exact absurd (hall 1 (by decide)) (by decide)
  · exact fun hne pktId _ => pktOutput_isSome pktId hne

/-- With three to nine packets only the first and the last of them can be logged. -/
theorem forall_output_iff {packetCnt : Nat} :
    (∀ i < packetCnt, (PipeDRWorker.output i packetCnt).isSome = true) ↔
      packetCnt < 3 ∨ 10 ≤ packetCnt := by
  constructor
  · intro hall
    by_contra hnot
    have hone := hall 1 (by omega)
    rw [PipeDRWorker.output, if_neg (by omega), if_pos (by omega)] at hone
    cases hone
  · intro hcnt i hi
    unfold PipeDRWorker.output
    split
    · rfl
    · -- a packet between the first and the last one is the second of three at least
      rw [if_neg (by omega)]
      rfl

/-- What the packet count has to be for the tests of a function. -/
def LogPlace.Fits (packetCnt : Nat) : LogPlace → Prop
  | .pipeSendWorker | .pipeReadWorker | .pipePullRequestorCompletion | .pipeMulSendWorker =>
      packetCnt < 3 ∨ 10 ≤ packetCnt
  | .cyclReader => True
  | _ => packetCnt ≠ 3

theorem LogPlace.forall_output_iff (place : LogPlace) (packetCnt : Nat) :
    (∀ pktId < packetCnt, (place.output pktId packetCnt).isSome = true) ↔
      place.Fits packetCnt := by
  cases place with
  | pipeSendWorker => exact CoRD.forall_output_iff
  | pipeReadWorker => exact CoRD.forall_output_iff
  | pipePullRequestorCompletion => exact CoRD.forall_output_iff
  | pipeMulSendWorker => exact CoRD.forall_output_iff
  | cyclReader => exact iff_of_true (fun i hi => CyclDR.readOutput_isSome hi) trivial
  | _ => exact forall_pktOutput_iff

/-- A function comes through when the packet count fits it. -/
theorem LogPlace.Fits.isSome_log {place : LogPlace} {packetCnt : Nat} (h : place.Fits packetCnt)
    (ecK id : Nat) : (place.log packetCnt ecK id).isSome = true := by
  refine isSome_log_iff.2 fun pktId hpkt => ?_
  exact (place.forall_output_iff packetCnt).2 h pktId
    (List.mem_range.1 (place.packets_subset packetCnt ecK id hpkt))

/-! ## Groups of at least one position -/

section Groups

variable {packetCnt ecK : Nat}

/-- What `sender` does for a position is what its model sends to. -/
theorem senderToReq_eq (hk : 2 ≤ ecK) (id : Nat) :
    CyclDRWorker.senderToReq packetCnt ecK id = some
      (((List.range (packetCnt - 1)).map fun i => decide (id ≠ ecK - 1 ∧ i % (ecK - 1) = ecK - 2)) ++
        [decide (id < if packetCnt % (ecK - 1) = 0 then ecK - 1 else packetCnt % (ecK - 1))]) := by
  have hgroup : ecK - 1 ≠ 0 := by omega
  have hturn : ∀ i ∈ List.range (packetCnt - 1),
      (if id = ecK - 1 then some false
        else (modulus i (ecK - 1)).map fun pos => decide (pos = ecK - 2)) =
      some (decide (id ≠ ecK - 1 ∧ i % (ecK - 1) = ecK - 2)) := by
    intro i _
    by_cases hid : id = ecK - 1
    · simp [hid]
    · simp [hid, modulus_eq i hgroup]
  rw [CyclDRWorker.senderToReq, modulus_eq packetCnt hgroup]
  simp only [Option.bind_eq_bind, Option.bind_some, mapM_eq_some hturn]
  rfl

/-- The count is `CyclDR.retrieveCnt` of the command. -/
theorem pullerRetrieveCnt_eq (hk : 2 ≤ ecK) (id : Nat) :
    CyclDRWorker.pullerRetrieveCnt packetCnt ecK id =
      some (if id ≠ 0 then
        packetCnt - packetCnt / (ecK - 1) - if id ≤ packetCnt % (ecK - 1) then 1 else 0
      else packetCnt) := by
  have hgroup : ecK - 1 ≠ 0 := by omega
  rw [CyclDRWorker.pullerRetrieveCnt, quotient_eq _ hgroup, modulus_eq _ hgroup]
  split <;> rfl

/-- The positions are those with `CyclDR.IsPulled`. -/
theorem pullerTakes_eq (hk : 2 ≤ ecK) (id : Nat) :
    CyclDRWorker.pullerTakes packetCnt ecK id =
      some ((List.range packetCnt).map fun i => decide (id = 0 ∨ i % (ecK - 1) ≠ 0)) := by
  have hgroup : ecK - 1 ≠ 0 := by omega
  refine mapM_eq_some fun i _ => ?_
  by_cases hid : id = 0
  · simp [hid]
  · simp [hid, modulus_eq i hgroup]

theorem readerRound_eq (hk : 2 ≤ ecK) :
    CyclDRWorker.readerRound packetCnt ecK = some (Cycl.round packetCnt (ecK - 1)) := by
  have hgroup : ecK - 1 ≠ 0 := by omega
  rw [CyclDRWorker.readerRound, modulus_eq _ hgroup, quotient_eq _ hgroup]
  rfl

theorem pullerMulTakes_eq (hk : 2 ≤ ecK) (id : Nat) :
    CyclMulFRWorker.pullerMulTakes packetCnt ecK id =
      some ((List.range packetCnt).map fun pktId => decide (Cycl.Pulled packetCnt ecK id pktId)) := by
  have hgroup : ecK - 1 ≠ 0 := by omega
  rw [CyclMulFRWorker.pullerMulTakes, modulus_eq packetCnt hgroup]
  refine mapM_eq_some fun pktId _ => ?_
  by_cases hid : id = 0
  · simp [hid, Cycl.Pulled]
  · simp [hid, Cycl.Pulled, modulus_eq pktId hgroup]

theorem senderMulToReq_eq (hk : 2 ≤ ecK) (id : Nat) :
    CyclMulFRWorker.senderMulToReq packetCnt ecK id =
      some ((List.range packetCnt).map fun pktId => decide (Cycl.Last packetCnt ecK id pktId)) := by
  have hgroup : ecK - 1 ≠ 0 := by omega
  rw [CyclMulFRWorker.senderMulToReq, modulus_eq packetCnt hgroup]
  refine mapM_eq_some fun pktId _ => ?_
  by_cases hid : id = ecK - 1
  · simp [hid, Cycl.Last]
  · simp [hid, Cycl.Last, modulus_eq pktId hgroup]

theorem readerMulStarts_eq (hk : 2 ≤ ecK) (id : Nat) :
    CyclMulFRWorker.readerMulStarts packetCnt ecK id =
      some ((List.range packetCnt).map fun pktId =>
        decide (Cycl.Started packetCnt ecK id pktId)) := by
  have hgroup : ecK - 1 ≠ 0 := by omega
  rw [CyclMulFRWorker.readerMulStarts, modulus_eq packetCnt hgroup]
  refine mapM_eq_some fun pktId _ => ?_
  by_cases hid : id = 0
  · simp [hid, Cycl.Started]
  · simp [hid, Cycl.Started, modulus_eq pktId hgroup]

theorem cyclCollectorPulls_eq (hk : 2 ≤ ecK) :
    ECPipeInputStream.cyclCollectorPulls packetCnt ecK =
      some ((List.range packetCnt).map (· % (ecK - 1)),
        (List.range (ecK - 1)).map (CyclClient.cnts packetCnt ecK)) := by
  have hgroup : ecK - 1 ≠ 0 := by omega
  have hctx : (List.range packetCnt).mapM (fun i => modulus i (ecK - 1)) =
      some ((List.range packetCnt).map (· % (ecK - 1))) :=
    mapM_eq_some fun i _ => modulus_eq i hgroup
  rw [ECPipeInputStream.cyclCollectorPulls, hctx, quotient_eq _ hgroup, modulus_eq _ hgroup]
  rfl

theorem cyclReceiverIndex_eq {nj j : Nat} (hj : j < nj) (baseIndex : Nat) :
    ECPipeInputStream.cyclReceiverIndex nj baseIndex = some (baseIndex / nj, baseIndex % nj) := by
  have hnj : nj ≠ 0 := Nat.ne_of_gt (Nat.zero_lt_of_lt hj)
  rw [ECPipeInputStream.cyclReceiverIndex, quotient_eq _ hnj, modulus_eq _ hnj]
  rfl

end Groups

/-! ## The repair data path -/

/-- Nothing is divided by zero just when there are less than three packets or at least ten. -/
theorem noZeroDivisor_iff {packetCnt ecK : Nat} (hk : 2 ≤ ecK) :
    NoZeroDivisor packetCnt ecK ↔ packetCnt < 3 ∨ 10 ≤ packetCnt := by
  constructor
  · intro h
    exact forall_output_iff.1 fun i hi =>
      isSome_log_iff.1 (h.log .pipeReadWorker 0) i (List.mem_range.2 hi)
  · intro hcnt
    have hfits : ∀ place : LogPlace, place.Fits packetCnt := by
      have hthree : packetCnt ≠ 3 := by omega
      intro place
      cases place with
      | cyclReader => trivial
      | pipeSendWorker => exact hcnt
      | pipeReadWorker => exact hcnt
      | pipePullRequestorCompletion => exact hcnt
      | pipeMulSendWorker => exact hcnt
      | _ => exact hthree
    have hgroup : ecK - 1 ≠ 0 := by omega
    exact
      { log := fun place id => (hfits place).isSome_log ecK id
        sender := fun id => by rw [senderToReq_eq hk]; rfl
        retrieveCnt := fun id => by rw [pullerRetrieveCnt_eq hk]; rfl
        puller := fun id => by rw [pullerTakes_eq hk]; rfl
        round := by rw [readerRound_eq hk]; rfl
        pullerMul := fun id => by rw [pullerMulTakes_eq hk]; rfl
        senderMul := fun id => by rw [senderMulToReq_eq hk]; rfl
        readerMul := fun id => by rw [readerMulStarts_eq hk]; rfl
        isNear := fun toSendCnt _ _ => by
          rw [CyclMulFRWorker.readerMulIsNear, quotient_eq toSendCnt hgroup]
          rfl
        cyclCollector := by rw [cyclCollectorPulls_eq hk]; rfl
        cyclReceiver := fun nj j hj baseIndex => by rw [cyclReceiverIndex_eq hj]; rfl }

/-- Ten packets in a code with four data blocks. -/
theorem noZeroDivisor_ten : NoZeroDivisor 10 4 :=
  (noZeroDivisor_iff (by decide)).2 (by decide)

/-- Three packets. -/
theorem not_noZeroDivisor_three : ¬ NoZeroDivisor 3 4 := by
  intro h
  exact absurd (h.log .pipeReadWorker 0) (by decide)

end CoRD
