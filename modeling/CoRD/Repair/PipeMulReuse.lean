import CoRD.Repair.PipeMulDRWorker

/-!
# PipeMulReuse — one worker and several batches

A new worker has all its flags down, so the puller waits for the reader of its first batch.  The
flags stay up when the batch is done: in the next batch the puller may be ahead of the reader, and
what is sent then is not what the reader will put there.  Only the first batch is safe.
-/

namespace CoRD

namespace PipeMul

open Lists (Event)

section Reuse

variable {conf : PacketConfig} {blkDir : Str → Buf} {localIP : Nat}

/-- The last command of a batch. -/
def isBatch (localIP : Nat) : Event Nat ListKey Msg → Bool
  | .pop h .drCmds (.cmd c) => decide (h = localIP) && decide (c.jobInd = 1)
  | _ => false

/-- How many batches a history has begun. -/
def batches (localIP : Nat) (es : List (Event Nat ListKey Msg)) : Nat :=
  es.countP (isBatch localIP)

theorem batches_append (es es' : List (Event Nat ListKey Msg)) :
    batches localIP (es ++ es') = batches localIP es + batches localIP es' :=
  List.countP_append

/-- No flag is up, and no request or reply is left from before. -/
structure Rested (conf : PacketConfig) (w : Worker) : Prop where
  flag : ∀ i < conf.packetCnt, w.threads.flag i = false
  pending : ∀ h, w.threads.pending h = []
  replies : ∀ h, w.threads.replies h = []

/-- Before its first batch a worker is as it was constructed. -/
theorem threads_of_no_batch {es : List (Event Nat ListKey Msg)} {w : Worker} :
    Lists.LocalRuns (Worker.Step conf blkDir localIP) Worker.init es w →
      batches localIP es = 0 → w.threads = Worker.init.threads := by
  intro hruns
  induction hruns with
  | refl =>
      intro _
      rfl
  | snoc _ hstep ih =>
      intro hnone
      rw [batches_append] at hnone
      have hthreads := ih (Nat.eq_zero_of_add_eq_zero_right hnone)
      cases hstep with
      | command hidle hind =>
          exact hthreads
      | batch h =>
          simp [batches, isBatch, h.last] at hnone
      | thread h =>
          exfalso
          rw [hthreads] at h
          exact Relay.State.Idle.not_step ⟨rfl, rfl, rfl⟩ (fun _ => rfl) h

/-- With no packets nothing is ever left behind. -/
theorem rested_of_no_packet (hzero : conf.packetCnt = 0) {es : List (Event Nat ListKey Msg)}
    {w : Worker} :
    Lists.LocalRuns (Worker.Step conf blkDir localIP) Worker.init es w →
      w.threads.Idle → Rested conf w := by
  have hflag : ∀ w : Worker, ∀ i < conf.packetCnt, w.threads.flag i = false := by
    intro w i hi
    rw [hzero] at hi
    exact absurd hi (Nat.not_lt_zero i)
  -- between two batches nothing is pending, and in a batch the invariant of the relay holds
  have hinv : Lists.LocalRuns (Worker.Step conf blkDir localIP) Worker.init es w →
      (w.threads.Idle ∧ Rested conf w) ∨
        ∃ es', Relay.Correct (relay conf blkDir localIP w.pipeMulJobs)
          (scaled conf blkDir w.pipeMulJobs) conf.plus es' w.threads := by
    intro hruns
    induction hruns with
    | refl =>
        exact Or.inl ⟨⟨rfl, rfl, rfl⟩, hflag _, fun _ => rfl, fun _ => rfl⟩
    | @snoc w w' es e _ hstep ih =>
        have hrested : w.threads.Idle → Rested conf w := by
          intro hidle
          rcases ih with ⟨_, hw⟩ | ⟨es', hcorrect⟩
          · exact hw
          · have hdrained := hcorrect.drained hidle.2.1
            exact ⟨hflag w, fun h => (hdrained h).1, fun h => (hdrained h).2⟩
        cases hstep with
        | command hidle hind =>
            obtain ⟨hdown, hpending, hreplies⟩ := hrested hidle
            exact Or.inl ⟨hidle, hdown, hpending, hreplies⟩
        | batch h =>
            obtain ⟨hdown, hpending, hreplies⟩ := hrested h.idle
            refine Or.inr ⟨[], ?_⟩
            rw [h.begun]
            exact .start hdown hpending hreplies
        | thread h =>
            rcases ih with ⟨hidle, hw⟩ | ⟨es', hcorrect⟩
            · exact absurd h (hidle.not_step hw.pending)
            · exact Or.inr ⟨es' ++ [e], hcorrect.step (relay_lawful (Or.inr (Or.inr hzero))) h⟩
  intro hruns hidle
  rcases hinv hruns with ⟨_, hw⟩ | ⟨es', hcorrect⟩
  · exact hw
  · have hdrained := hcorrect.drained hidle.2.1
    exact ⟨hflag w, fun h => (hdrained h).1, fun h => (hdrained h).2⟩

/-- A batch has pushed, for each cell in the order of the loops, the scaled packet plus the payload
received for the cell, and neither xored nor sent a packet before it was read. -/
structure BatchSound (conf : PacketConfig) (blkDir : Str → Buf) (localIP : Nat)
    (jobs : List PipeMulJob) (es : List (Event Nat ListKey Msg))
    (s : Relay.State MulPacket Nat ListKey Msg) : Prop where
  pushes : List.Forall₂
    (fun c p => p.1 = (relay conf blkDir localIP jobs).dst c.2 ∧
      Relay.Expected (relay conf blkDir localIP jobs) (scaled conf blkDir jobs) conf.plus
        (fun h => Relay.poppedAt h es) c p.2)
    (Relay.cells jobs.length (s.sender.sent conf.packetCnt)) (Relay.pushedAll es)
  added_filled : ∀ i j m, s.puller = .add i j m → i < s.reader.filled conf.packetCnt
  sent_filled : ∀ j < jobs.length,
    Relay.count (s.sender.sent conf.packetCnt) j ≤ s.reader.filled conf.packetCnt

theorem batchSound_of_correct {jobs : List PipeMulJob} {es : List (Event Nat ListKey Msg)}
    {s : Relay.State MulPacket Nat ListKey Msg} :
    Relay.Correct (relay conf blkDir localIP jobs) (scaled conf blkDir jobs) conf.plus es s →
      BatchSound conf blkDir localIP jobs es s := by
  intro h
  refine ⟨h.pushes, ?_, ?_⟩
  · intro i j m hadd
    have hwaited := h.waited
    rw [hadd] at hwaited
    exact hwaited
  · intro j hj
    exact Relay.Inv.sent_le_filled h hj

end Reuse

/-- A batch starts as on a new worker: with all flags down, and sending what it is to send in every
order of the steps of its threads. -/
def AsNew (conf : PacketConfig) (blkDir : Str → Buf) (localIP : Nat) (w : Worker) : Prop :=
  (∀ i < conf.packetCnt, w.threads.flag i = false) ∧
    ∀ es s, Lists.LocalRuns (Relay.Step (relay conf blkDir localIP w.pipeMulJobs)) w.threads es s →
      BatchSound conf blkDir localIP w.pipeMulJobs es s

/-- In a run that begins at most one batch, it is as on a new worker. -/
theorem first_batch_sound (conf : PacketConfig) (blkDir : Str → Buf) (localIP : Nat)
    (es : List (Event Nat ListKey Msg)) (w w' : Worker) (c : PipeMulCmd)
    (hruns : Lists.LocalRuns (Worker.Step conf blkDir localIP) Worker.init es w)
    (hbegins : Worker.Begins conf blkDir localIP w c w')
    (hfirst : batches localIP es = 0 ∨ conf.packetCnt = 0)
    (hwords : conf.packetSize % 8 = 0 ∨ (∀ job ∈ w'.pipeMulJobs, job.id = 0) ∨
      conf.packetCnt = 0) :
    AsNew conf blkDir localIP w' := by
  have hrested : Rested conf w := by
    rcases hfirst with hnone | hzero
    · have hthreads := threads_of_no_batch hruns hnone
      refine ⟨?_, ?_, ?_⟩ <;> rw [hthreads] <;> intros <;> rfl
    · exact rested_of_no_packet hzero hruns hbegins.idle
  obtain ⟨hflag, hpending, hreplies⟩ := hrested
  refine ⟨?_, ?_⟩
  · intro i hi
    rw [hbegins.begun]
    exact hflag i hi
  · intro es' s hruns'
    have hstart : Relay.Correct (relay conf blkDir localIP w'.pipeMulJobs)
        (scaled conf blkDir w'.pipeMulJobs) conf.plus [] w'.threads := by
      rw [hbegins.begun]
      exact .start hflag hpending hreplies
    have hrun := hstart.run (relay_lawful hwords) hruns'
    rw [List.nil_append] at hrun
    exact batchSound_of_correct hrun

/-! ## The second batch of a worker -/

/-- One packet of eight bytes. -/
def onePacket : PacketConfig where
  packetCnt := 1
  packetSize := 8
  packetSkipSize := 0

/-- A node whose files hold ones. -/
def onesDir : Str → Buf :=
  fun _ _ => 1

/-- The only job of a batch: the first stage, unscaled. -/
def oneCmd : PipeMulCmd where
  ecK := 1
  requestorIP := 2
  prevIP := 1
  nextIP := 1
  id := 0
  coefficient := 1
  lostBlkName := ['b']
  localBlkName := ['a']
  jobInd := 1
  jobNum := 1

/-- The first batch, thread after thread. -/
def firstBatch : List Worker.Turn :=
  .command oneCmd :: (List.replicate 6 (.thread .reader) ++ List.replicate 8 (.thread .puller) ++
    List.replicate 3 (.thread .sender))

/-- The second one, in which the puller and the sender do not wait for the reader. -/
def overtaking : List (Relay.Turn Nat Msg) :=
  List.replicate 6 .puller ++ [.sender]

def afterFirst : Option (List (Event Nat ListKey Msg) × Worker) :=
  Lists.execute (Worker.turn onePacket onesDir 1) firstBatch ([], Worker.init)

def afterOvertaking : Option (List (Event Nat ListKey Msg) × Relay.State MulPacket Nat ListKey Msg) :=
  afterFirst.bind fun p => Lists.execute (Relay.turn (relay onePacket onesDir 1 [oneCmd.job]))
    overtaking ([], (p.2.begin onePacket onesDir 1 oneCmd).threads)

/-- The run of `firstBatch` and `overtaking`, and what the second batch sends in it. -/
theorem exists_overtaking : ∃ es w es' s,
    Lists.LocalRuns (Worker.Step onePacket onesDir 1) Worker.init es w ∧
    Worker.Begins onePacket onesDir 1 w oneCmd (w.begin onePacket onesDir 1 oneCmd) ∧
    Lists.LocalRuns (Relay.Step (relay onePacket onesDir 1 [oneCmd.job]))
      (w.begin onePacket onesDir 1 oneCmd).threads es' s ∧
    Relay.pushedAll es' = [((1, .blk ['b']), .packet [0, 0, 0, 0, 0, 0, 0, 0])] := by
  have hsent : (afterOvertaking.map fun p => Relay.pushedAll p.1) =
      some [((1, .blk ['b']), .packet [0, 0, 0, 0, 0, 0, 0, 0])] := by decide
  have hended : (afterFirst.map fun p => p.2.threads.isIdle) = some true := by decide
  obtain ⟨q, hq, hpushed⟩ := Option.map_eq_some_iff.1 hsent
  obtain ⟨p, hp, hsecond⟩ := Option.bind_eq_some_iff.1 hq
  rw [hp, Option.map_some, Option.some_inj] at hended
  have hmax : (pushJob p.2.pipeMulJobs oneCmd).length ≤ MAX_ECK := by
    rw [show pushJob p.2.pipeMulJobs oneCmd = [oneCmd.job] from rfl]
    decide
  exact ⟨p.1, p.2, q.1, q.2, .of_execute Worker.step_of_turn (.refl _) hp,
    ⟨Relay.State.idle_of_isIdle hended, rfl, hmax, rfl⟩,
    .of_execute (fun _ _ _ _ => Relay.step_of_turn) (.refl _) hsecond, hpushed⟩

/-- A batch that is not the first may send what nobody has read. -/
theorem second_batch_unsound : ¬ ∀ es w w' c,
    Lists.LocalRuns (Worker.Step onePacket onesDir 1) Worker.init es w →
      Worker.Begins onePacket onesDir 1 w c w' → AsNew onePacket onesDir 1 w' := by
  intro hall
  obtain ⟨es, w, es', s, hruns, hbegins, hruns', hpushed⟩ := exists_overtaking
  have hsound := ((hall es w _ oneCmd hruns hbegins).2 es' s hruns').pushes
  rw [hpushed] at hsound
  generalize Relay.cells _ _ = cs at hsound
  cases hsound with
  | @cons c _ _ _ hone _ =>
      obtain ⟨i, j⟩ := c
      obtain ⟨hdst, hexp⟩ := hone
      cases j with
      | zero =>
          -- the packet on the disk is made of ones
          have hread : scaled onePacket onesDir [oneCmd.job] i 0 =
              .packet (List.replicate 8 (1 * 1)) := rfl
          have heq : ListMsg.packet [0, 0, 0, 0, 0, 0, 0, 0] =
              scaled onePacket onesDir [oneCmd.job] i 0 := hexp
          rw [hread] at heq
          exact absurd heq (by decide)
      | succ j =>
          have hkey : ((1, .blk ['b']) : Nat × ListKey) = (1, .drCmds) := hdst
          cases hkey

/-- A new worker sends what it is to send. -/
theorem first_batch_sound_one : AsNew onePacket onesDir 1
    (Worker.init.begin onePacket onesDir 1 oneCmd) :=
  first_batch_sound onePacket onesDir 1 [] Worker.init _ oneCmd (.refl _)
    ⟨⟨rfl, rfl, rfl⟩, rfl, by decide, rfl⟩ (Or.inl rfl) (Or.inl rfl)

end PipeMul

end CoRD
