import CoRD.Network.RelayLists
import CoRD.Repair.DRWorker
import CoRD.Repair.JobBatch

/-!
# PipeMulDRWorker — the helpers of a multi-block pipeline

A helper collects the commands of its jobs.  With the last of them it starts the threads of a
relay: for each packet, the reader copies it once for each job, one copy behind the other, and
scales each copy with the coefficient of its job.  The jobs with a predecessor get packets from
the list `tmp:` of their lost block there; the last stage pushes under the name of the lost block
itself.

When the batch is done the flags of the packets stay up.
-/

namespace CoRD

open Lists (Event)

/-- The list that the packets of a job are pushed to. -/
def PipeMulJob.sendKey (job : PipeMulJob) : ListKey :=
  if job.ecK = 0x010000 ∨ (job.ecK &&& 0x100 = 0 ∧ job.id + 1 = job.ecK) then .blk job.lostBlkName
  else .tmp job.lostBlkName

/-- The list that they are xored with, unless the job is the first stage. -/
def PipeMulJob.source (job : PipeMulJob) : Option (Nat × ListKey) :=
  if job.id = 0 then none else some (job.prevIP, .tmp job.lostBlkName)

/-- The memory of one packet: the bytes from the disk, and a copy for each job. -/
structure MulPacket where
  diskPkt : Buf
  sendMulPkt : Buf

namespace PipeMul

/-- Messages between the helpers. -/
abbrev Msg := ListMsg PipeMulCmd

section Threads

variable (conf : PacketConfig) (blkDir : Str → Buf) (localIP : Nat) (jobs : List PipeMulJob)

/-- The file the packets are read from. -/
def localFile : Buf :=
  blkDir ((jobs[0]?.map PipeMulJob.localBlkName).getD [])

/-- The copy of a packet for job `j`. -/
def copyPkt (j : Nat) (p : MulPacket) : MulPacket :=
  { p with
    sendMulPkt := memcpy p.sendMulPkt (j * conf.packetSize : Nat) p.diskPkt conf.packetSize }

/-- Scaling it. -/
def multiplyPkt (j : Nat) (coefficient : GF256) (p : MulPacket) : MulPacket :=
  { p with
    sendMulPkt := p.sendMulPkt.call (j * conf.packetSize : Nat) fun b =>
      RSUtil.multiply b coefficient conf.packetSize }

/-- What `readMulWorker` does to packet `i`. -/
def readMulPkt (i : Nat) : List (MulPacket → MulPacket) :=
  (fun p => { p with
    diskPkt := readPacketFromDisk (localFile blkDir jobs) p.diskPkt conf.packetSize
      (conf.base i) }) ::
  jobs.zipIdx.flatMap fun q => [copyPkt conf q.2, multiplyPkt conf q.2 q.1.coefficient]

/-- The threads of a batch. -/
def relay : Relay.Spec MulPacket Nat ListKey Msg where
  packetCnt := conf.packetCnt
  jobCnt := jobs.length
  fill i := (readMulPkt conf blkDir jobs i).map fun f p => some (f p)
  src j := jobs[j]?.bind PipeMulJob.source
  dst j := (localIP, (jobs[j]?.map PipeMulJob.sendKey).getD .drCmds)
  add j m p :=
    { p with
      sendMulPkt := p.sendMulPkt.call (j * conf.packetSize : Nat) fun b =>
        XORBuffers b m.str conf.packetSize }
  load j p := .packet (bytesOf (p.sendMulPkt.advance (j * conf.packetSize : Nat)) conf.packetSize)
  readLog i := (pktOutput i conf.packetCnt).isSome
  pullLog i _ := (pktOutput i conf.packetCnt).isSome
  sendLog i _ := (pktOutput i conf.packetCnt).isSome

end Threads

/-! ## The worker -/

/-- `MAX_ECK`, the sizes of the arrays over the jobs. -/
def MAX_ECK : Nat := 30

/-- The vector of `doProcess` and the state of the threads. -/
structure Worker where
  pipeMulJobs : List PipeMulJob
  threads : Relay.State MulPacket Nat ListKey Msg

section Worker

variable (conf : PacketConfig) (blkDir : Str → Buf) (localIP : Nat)

/-- The threads start on all jobs, with fresh copies. -/
def Worker.begin (w : Worker) (c : PipeMulCmd) : Worker where
  pipeMulJobs := pushJob w.pipeMulJobs c
  threads := Relay.start (relay conf blkDir localIP (pushJob w.pipeMulJobs c))
    { w.threads with mem := fun i => { w.threads.mem i with sendMulPkt := zeros } }

/-- The command `c` completes a batch. -/
structure Worker.Begins (w : Worker) (c : PipeMulCmd) (w' : Worker) : Prop where
  idle : w.threads.Idle
  last : c.jobInd = 1
  max : (pushJob w.pipeMulJobs c).length ≤ MAX_ECK
  begun : w' = w.begin conf blkDir localIP c

/-- `PipeMulDRWorker::doProcess`: a command is popped, and may complete a batch; or a thread of a
batch takes a step. -/
inductive Worker.Step (w : Worker) : Event Nat ListKey Msg → Worker → Prop where
  | command {c : PipeMulCmd} (hidle : w.threads.Idle) (hind : c.jobInd ≠ 1) :
      Step w (.pop localIP .drCmds (.cmd c)) { w with pipeMulJobs := pushJob w.pipeMulJobs c }
  | batch {c : PipeMulCmd} {w' : Worker} (h : Worker.Begins conf blkDir localIP w c w') :
      Step w (.pop localIP .drCmds (.cmd c)) w'
  | thread {e : Event Nat ListKey Msg} {threads : Relay.State MulPacket Nat ListKey Msg}
      (h : Relay.Step (relay conf blkDir localIP w.pipeMulJobs) w.threads e threads) :
      Step w e { w with threads := threads }

end Worker

/-- A turn of a worker: a command, or a turn of a thread. -/
inductive Worker.Turn where
  | command (c : PipeMulCmd)
  | thread (t : Relay.Turn Nat Msg)

/-- The step of a turn. -/
def Worker.turn (conf : PacketConfig) (blkDir : Str → Buf) (localIP : Nat) (t : Worker.Turn)
    (w : Worker) : Option (Event Nat ListKey Msg × Worker) :=
  match t with
  | .command c =>
      if w.threads.isIdle = true then
        if c.jobInd ≠ 1 then
          some (.pop localIP .drCmds (.cmd c), { w with pipeMulJobs := pushJob w.pipeMulJobs c })
        else if (pushJob w.pipeMulJobs c).length ≤ MAX_ECK then
          some (.pop localIP .drCmds (.cmd c), w.begin conf blkDir localIP c)
        else none
      else none
  | .thread t =>
      (Relay.turn (relay conf blkDir localIP w.pipeMulJobs) t w.threads).map fun q =>
        (q.1, { w with threads := q.2 })

theorem Worker.step_of_turn {conf : PacketConfig} {blkDir : Str → Buf} {localIP : Nat}
    (t : Worker.Turn) (w : Worker) (e : Event Nat ListKey Msg) (w' : Worker) :
    Worker.turn conf blkDir localIP t w = some (e, w') →
      Worker.Step conf blkDir localIP w e w' := by
  intro h
  cases t with
  | command c =>
      simp only [Worker.turn] at h
      split at h
      · rename_i hidle
        have hidle' := Relay.State.idle_of_isIdle hidle
        split at h
        · rename_i hind
          cases h
          exact .command hidle' hind
        · rename_i hind
          split at h
          · rename_i hmax
            cases h
            exact .batch ⟨hidle', not_not.1 hind, hmax, rfl⟩
          · cases h
      · cases h
  | thread t =>
      obtain ⟨q, hq, heq⟩ := Option.map_eq_some_iff.1 h
      cases heq
      exact .thread (Relay.step_of_turn hq)

/-- A worker that has just been constructed. -/
def Worker.init : Worker where
  pipeMulJobs := []
  threads :=
    { mem := fun _ => { diskPkt := zeros, sendMulPkt := zeros }
      flag := fun _ => false
      ready := fun _ => 0
      pending := fun _ => []
      replies := fun _ => []
      reader := .done
      puller := .done
      sender := .done }

/-! ## What a batch sends -/

section Batch

variable {conf : PacketConfig} {blkDir : Str → Buf} {localIP : Nat} {jobs : List PipeMulJob}

/-- The scaled packet of a job. -/
def scaled (conf : PacketConfig) (blkDir : Str → Buf) (jobs : List PipeMulJob) (i j : Nat) : Msg :=
  conf.packet
    (fun x => ((jobs[j]?.map PipeMulJob.coefficient).getD 0) * localFile blkDir jobs x) i

/-- Copies of different jobs do not overlap. -/
theorem slice_apart {j j' n : Nat} {x : Int} (hne : j' ≠ j) (h0 : 0 ≤ x) (hx : x < n) :
    ¬ (((j * n : Nat) : Int) ≤ (j' * n : Nat) + x ∧
      ((j' * n : Nat) : Int) + x < (j * n : Nat) + n) := by
  rcases Nat.lt_or_gt_of_ne hne with hlt | hlt
  · have hle : (j' + 1) * n ≤ j * n := Nat.mul_le_mul_right n hlt
    rw [Nat.add_mul, Nat.one_mul] at hle
    omega
  · have hle : (j + 1) * n ≤ j' * n := Nat.mul_le_mul_right n hlt
    rw [Nat.add_mul, Nat.one_mul] at hle
    omega

/-- The loop over the jobs from job `m` on scales a copy for each. -/
theorem foldl_jobs (conf : PacketConfig) (l : List PipeMulJob) (m : Nat) (p : MulPacket) :
    let p' := (((l.zipIdx m).flatMap fun q =>
      [copyPkt conf q.2, multiplyPkt conf q.2 q.1.coefficient]).foldl (fun p f => f p) p)
    p'.diskPkt = p.diskPkt ∧
      (∀ j < m, ∀ x : Int, 0 ≤ x → x < conf.packetSize →
        p'.sendMulPkt ((j * conf.packetSize : Nat) + x) =
          p.sendMulPkt ((j * conf.packetSize : Nat) + x)) ∧
      ∀ j job, l[j]? = some job → ∀ x : Int, 0 ≤ x → x < conf.packetSize →
        p'.sendMulPkt (((m + j) * conf.packetSize : Nat) + x) = job.coefficient * p.diskPkt x := by
  induction l generalizing m p with
  | nil =>
      exact ⟨rfl, fun _ _ _ _ _ => rfl, fun j job hjob => by simp at hjob⟩
  | cons job l ih =>
      -- the turn of the first job writes its own copy only
      have hcopy : ∀ x : Int, 0 ≤ x → x < conf.packetSize →
          (multiplyPkt conf m job.coefficient (copyPkt conf m p)).sendMulPkt
            ((m * conf.packetSize : Nat) + x) = job.coefficient * p.diskPkt x := by
        intro x h0 hx
        have hmem : ((m * conf.packetSize : Nat) : Int) ≤ (m * conf.packetSize : Nat) + x ∧
            ((m * conf.packetSize : Nat) : Int) + x <
              (m * conf.packetSize : Nat) + conf.packetSize := by omega
        have hoff : ((m * conf.packetSize : Nat) : Int) + x - (m * conf.packetSize : Nat) = x := by
          omega
        calc (multiplyPkt conf m job.coefficient (copyPkt conf m p)).sendMulPkt
              ((m * conf.packetSize : Nat) + x)
            = RSUtil.multiply ((copyPkt conf m p).sendMulPkt.advance (m * conf.packetSize : Nat))
                job.coefficient conf.packetSize x :=
              congrFun (Buf.advance_call (copyPkt conf m p).sendMulPkt (m * conf.packetSize : Nat)
                fun b => RSUtil.multiply b job.coefficient conf.packetSize) x
          _ = job.coefficient * memcpy p.sendMulPkt (m * conf.packetSize : Nat) p.diskPkt
                conf.packetSize ((m * conf.packetSize : Nat) + x) := if_pos ⟨h0, hx⟩
          _ = job.coefficient * p.diskPkt x := by rw [memcpy_of_mem hmem, hoff]
      have hother : ∀ j, j ≠ m → ∀ x : Int, 0 ≤ x → x < conf.packetSize →
          (multiplyPkt conf m job.coefficient (copyPkt conf m p)).sendMulPkt
            ((j * conf.packetSize : Nat) + x) =
              p.sendMulPkt ((j * conf.packetSize : Nat) + x) := by
        intro j hj x h0 hx
        have hnot := slice_apart hj h0 hx
        exact (Buf.call_of_not_mem (fun c y => multiply_of_not_mem) hnot).trans
          (memcpy_of_not_mem hnot)
      obtain ⟨hdisk, hbefore, hafter⟩ := ih (m + 1)
        (multiplyPkt conf m job.coefficient (copyPkt conf m p))
      refine ⟨hdisk, ?_, ?_⟩
      · intro j hj x h0 hx
        exact (hbefore j (Nat.lt_succ_of_lt hj) x h0 hx).trans
          (hother j (Nat.ne_of_lt hj) x h0 hx)
      · intro j job' hjob x h0 hx
        cases j with
        | zero =>
            cases hjob
            exact (hbefore m (Nat.lt_succ_self m) x h0 hx).trans (hcopy x h0 hx)
        | succ j =>
            have hrest := hafter j job' hjob x h0 hx
            rw [Nat.add_right_comm] at hrest
            exact hrest

/-- Each thread does what is expected of it. -/
theorem relay_lawful
    (hps : conf.packetSize % 8 = 0 ∨ (∀ job ∈ jobs, job.id = 0) ∨ conf.packetCnt = 0) :
    Relay.Lawful (relay conf blkDir localIP jobs) (scaled conf blkDir jobs) conf.plus where
  fill := by
    intro i p p' hi hrun j hj
    have hsome : ∀ (ops : List (MulPacket → MulPacket)) (p : MulPacket),
        (ops.map fun f p => some (f p)).foldlM (fun p f => f p) p =
          some (ops.foldl (fun p f => f p) p) := by
      intro ops
      induction ops with
      | nil => intro p; rfl
      | cons f ops ih => intro p; exact ih (f p)
    rw [show (relay conf blkDir localIP jobs).fill i =
      (readMulPkt conf blkDir jobs i).map fun f p => some (f p) from rfl, hsome] at hrun
    cases hrun
    obtain ⟨_, _, hjobs⟩ := foldl_jobs conf jobs 0
      { p with
        diskPkt := readPacketFromDisk (localFile blkDir jobs) p.diskPkt conf.packetSize
          (conf.base i) }
    have hjob : jobs[j]? = some jobs[j] := List.getElem?_eq_getElem hj
    refine congrArg ListMsg.packet (bytesOf_congr fun x h0 hx => ?_)
    have hone := hjobs j _ hjob x h0 hx
    rw [Nat.zero_add] at hone
    rw [hjob]
    refine hone.trans ?_
    have hmem : (0 : Int) ≤ x ∧ x < 0 + conf.packetSize := by omega
    have hread : readPacketFromDisk (localFile blkDir jobs) p.diskPkt conf.packetSize (conf.base i)
        x = localFile blkDir jobs (conf.base i + x) := by
      rw [readPacketFromDisk, memcpy_of_mem hmem, Int.sub_zero, Buf.advance_apply]
    exact congrArg _ hread
  add := by
    intro j m p hcnt hj hsrc
    -- without whole words, only a job with a predecessor is in danger
    have hwords : conf.packetSize % 8 = 0 := by
      rcases hps with hps | hid | hzero
      · exact hps
      · have hjob : jobs[j]? = some jobs[j] := List.getElem?_eq_getElem hj
        have hnone : (relay conf blkDir localIP jobs).src j = none := by
          show jobs[j]?.bind PipeMulJob.source = none
          rw [hjob, Option.bind_some, PipeMulJob.source, if_pos (hid _ (List.getElem_mem hj))]
        rw [hnone] at hsrc
        cases hsrc
      · exact absurd hzero (Nat.ne_of_gt hcnt)
    show ListMsg.packet _ = ListMsg.packet _
    rw [show ((relay conf blkDir localIP jobs).add j m p).sendMulPkt =
      p.sendMulPkt.call (j * conf.packetSize : Nat) fun b => XORBuffers b m.str conf.packetSize
      from rfl, Buf.advance_call, bytesOf_XORBuffers hwords]
    refine congrArg ListMsg.packet (bytesOf_congr fun x h0 hx => ?_)
    rw [show (relay conf blkDir localIP jobs).load j p = .packet (bytesOf
      (p.sendMulPkt.advance (j * conf.packetSize : Nat)) conf.packetSize) from rfl,
      str_packet_bytesOf h0 hx]
  add_ne := by
    intro j j' m p hj hj' hne
    refine congrArg ListMsg.packet (bytesOf_congr fun x h0 hx => ?_)
    exact Buf.call_of_not_mem (fun c y => XORBuffers_of_not_mem) (slice_apart hne h0 hx)

end Batch

end PipeMul

end CoRD
