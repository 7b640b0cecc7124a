import CoRD.Network.RelayBound
import CoRD.Repair.Command
import CoRD.Repair.DRWorker

/-!
# PipeDRWorker — a helper of a pipeline for one lost block

A helper pops a command and starts the threads of a relay with one job: the reader reads the packets
of the local block and scales them, the puller xors each with the packet of the same number from the
helper before, if there is one, and the sender pushes them to a list of the helper's own host.

The three threads log the same packets, and the reader logs a packet before it hands it over.
-/

namespace CoRD

open Lists (Event)

/-- The list that `doProcess` chooses for the packets. -/
def PipeCmd.sendKey (cmd : PipeCmd) : ListKey :=
  if cmd.ecK = 0x010000 ∨ (cmd.ecK &&& 0x100 = 0 ∧ cmd.id + 1 = cmd.ecK) then .blk cmd.lostBlkName
  else .tmp cmd.lostBlkName

/-- The list that `pullRequestorCompletion` pops, if it pops any. -/
def PipeCmd.source (cmd : PipeCmd) : Option (Nat × ListKey) :=
  if cmd.id = 0 then none else some (cmd.prevIP, .tmp cmd.lostBlkName)

namespace PipeDR

/-- Messages between the helpers. -/
abbrev Msg := ListMsg PipeCmd

/-- Whether packet `i < packetCnt` is logged, unless that divides by zero. -/
def pktLog (i packetCnt : Nat) : Option Bool :=
  if i = 0 ∨ packetCnt ≤ i + 1 then some true
  else if packetCnt / 10 = 0 then none
  else some (i % (packetCnt / 10) = 0)

section Threads

variable (conf : PacketConfig) (blkDir : Str → Buf) (localIP : Nat) (cmd : PipeCmd)

/-- What `readWorker` does to packet `i` before it sets the flag. -/
def readPkt (i : Nat) : List (Buf → Option Buf) :=
  let log := fun p : Buf => (pktLog i conf.packetCnt).map fun _ => p
  [fun p => some (readPacketFromDisk (blkDir cmd.localBlkName) p conf.packetSize (conf.base i)),
    log, fun p => some (RSUtil.multiply p cmd.coefficient conf.packetSize), log]

/-- The threads of a command. -/
def relay : Relay.Spec Buf Nat ListKey Msg where
  packetCnt := conf.packetCnt
  jobCnt := 1
  fill i := readPkt conf blkDir cmd i
  src _ := cmd.source
  dst _ := (localIP, cmd.sendKey)
  add _ m p := XORBuffers p m.str conf.packetSize
  load _ p := .packet (bytesOf p conf.packetSize)
  readLog i := (pktLog i conf.packetCnt).isSome
  -- the puller logs a packet before it counts it, but no later than here
  pullLog i _ := cmd.source.isNone || (pktLog i conf.packetCnt).isSome
  sendLog i _ := (pktLog i conf.packetCnt).isSome

end Threads

/-! ## The worker -/

/-- The last command, and the state of the threads. -/
structure Worker where
  cmd : Option PipeCmd
  threads : Relay.State Buf Nat ListKey Msg

/-- A worker that has just been constructed. -/
def Worker.init : Worker where
  cmd := none
  threads :=
    { mem := fun _ => zeros
      flag := fun _ => false
      ready := fun _ => 0
      pending := fun _ => []
      replies := fun _ => []
      reader := .done
      puller := .done
      sender := .done }

section Worker

variable (conf : PacketConfig) (blkDir : Str → Buf) (localIP : Nat)

/-- `cleanup` after the last command, and the start of the threads for `c`. -/
def Worker.begin (w : Worker) (c : PipeCmd) : Worker where
  cmd := some c
  threads := Relay.start (relay conf blkDir localIP c)
    { w.threads with mem := fun _ => zeros, flag := fun _ => false }

/-- `PipeDRWorker::doProcess`: a command is popped when the threads of the last one have been
joined, or a thread takes a step. -/
inductive Worker.Step (w : Worker) : Event Nat ListKey Msg → Worker → Prop where
  | command {c : PipeCmd} (hidle : w.threads.Idle) :
      Step w (.pop localIP .drCmds (.cmd c)) (w.begin conf blkDir localIP c)
  | thread {c : PipeCmd} {e : Event Nat ListKey Msg} {threads : Relay.State Buf Nat ListKey Msg}
      (hcmd : w.cmd = some c) (h : Relay.Step (relay conf blkDir localIP c) w.threads e threads) :
      Step w e { w with threads := threads }

end Worker

/-! ## The threads of one command -/

section Command

variable {conf : PacketConfig} {blkDir : Str → Buf} {localIP : Nat} {cmd : PipeCmd}

/-- The scaled packet. -/
def scaled (conf : PacketConfig) (blkDir : Str → Buf) (cmd : PipeCmd) (i : Nat) : Msg :=
  conf.packet (fun x => cmd.coefficient * blkDir cmd.localBlkName x) i

/-- Each thread does what is expected of it. -/
theorem relay_lawful : Relay.Lawful (relay conf blkDir localIP cmd)
    (fun i _ => scaled conf blkDir cmd i) conf.xor where
  fill := by
    intro i p p' _ hrun j _
    have hbytes : bytesOf (RSUtil.multiply (readPacketFromDisk (blkDir cmd.localBlkName) p
        conf.packetSize (conf.base i)) cmd.coefficient conf.packetSize) conf.packetSize =
        bytesOf (fun x => cmd.coefficient * blkDir cmd.localBlkName (conf.base i + x))
          conf.packetSize := by
      refine bytesOf_multiply.trans (bytesOf_congr fun x h0 hx => ?_)
      have hmem : (0 : Int) ≤ x ∧ x < 0 + conf.packetSize := by omega
      rw [readPacketFromDisk, memcpy_of_mem hmem, Int.sub_zero, Buf.advance_apply]
    cases hlog : pktLog i conf.packetCnt with
    | none => simp [relay, readPkt, hlog] at hrun
    | some b =>
        simp only [relay, readPkt, hlog, List.foldlM_cons, List.foldlM_nil, Option.map_some,
          Option.bind_eq_bind, Option.bind_some, Option.pure_def, Option.some.injEq] at hrun
        subst hrun
        exact congrArg ListMsg.packet hbytes
  add := by
    intro j m p _ _ _
    refine congrArg ListMsg.packet (bytesOf_congr fun x h0 hx => ?_)
    have hstr : (ListMsg.packet (bytesOf p conf.packetSize) : Msg).str x = p x :=
      str_packet_bytesOf h0 hx
    show XORBuffers p m.str conf.packetSize x =
      XORBuffers (ListMsg.packet (bytesOf p conf.packetSize) : Msg).str m.str conf.packetSize x
    unfold XORBuffers
    rw [hstr]
  add_ne := by
    intro j j' m p hj hj' hne
    exact absurd ((Nat.lt_one_iff.1 hj').trans (Nat.lt_one_iff.1 hj).symm) hne

/-- There is one job. -/
theorem keysApart : Relay.KeysApart (relay conf blkDir localIP cmd) where
  src := fun _ hj _ hj' _ _ => (Nat.lt_one_iff.1 hj).trans (Nat.lt_one_iff.1 hj').symm
  dst := fun _ hj _ hj' _ => (Nat.lt_one_iff.1 hj).trans (Nat.lt_one_iff.1 hj').symm

/-- The packets in the middle of fewer than ten are logged with a division by zero. -/
theorem pktLog_isSome {packetCnt : Nat} (i : Nat) :
    ¬ (3 ≤ packetCnt ∧ packetCnt ≤ 9) → (pktLog i packetCnt).isSome = true := by
  intro hcnt
  unfold pktLog
  by_cases hend : i = 0 ∨ packetCnt ≤ i + 1
  · rw [if_pos hend]
    rfl
  · rw [if_neg hend, if_neg (by omega)]
    rfl

theorem pktLog_one {packetCnt : Nat} : 3 ≤ packetCnt → packetCnt ≤ 9 → pktLog 1 packetCnt = none := by
  intro hthree hnine
  unfold pktLog
  rw [if_neg (by omega), if_pos (by omega)]

/-- With any other number of packets no thread fails. -/
theorem relay_live (hcnt : ¬ (3 ≤ conf.packetCnt ∧ conf.packetCnt ≤ 9)) :
    (relay conf blkDir localIP cmd).Live where
  fill := by
    intro i f hf p
    obtain ⟨b, hb⟩ := Option.isSome_iff_exists.1 (pktLog_isSome i hcnt)
    simp only [relay, readPkt, hb, Option.map_some, List.mem_cons, List.not_mem_nil,
      or_false] at hf
    rcases hf with rfl | rfl | rfl | rfl
    · exact ⟨_, rfl⟩
    · exact ⟨_, rfl⟩
    · exact ⟨_, rfl⟩
    · exact ⟨_, rfl⟩
  readLog := fun i => pktLog_isSome i hcnt
  pullLog := fun i _ => by
    show (_ || _) = true
    rw [pktLog_isSome i hcnt, Bool.or_true]
  sendLog := fun i _ => pktLog_isSome i hcnt

/-- The reader takes four steps for a packet. -/
theorem length_fill (i : Nat) : ((relay conf blkDir localIP cmd).fill i).length ≤ 4 :=
  Nat.le_refl 4

/-- One host is asked. -/
theorem src_host : ∀ j < (relay conf blkDir localIP cmd).jobCnt, ∀ h k,
    (relay conf blkDir localIP cmd).src j = some (h, k) → h = cmd.prevIP := by
  intro j _ h k hsrc
  have hsource : cmd.source = some (h, k) := hsrc
  unfold PipeCmd.source at hsource
  split at hsource
  · cases hsource
  · cases hsource
    rfl

end Command

/-! ## Which lists a worker uses -/

section Uses

variable {conf : PacketConfig} {blkDir : Str → Buf} {localIP : Nat}

/-- A worker pops its commands and packets, and pushes packets on its own host. -/
def Worker.Uses (localIP : Nat) : Event Nat ListKey Msg → Prop
  | .internal => True
  | .pop h k _ => (h = localIP ∧ k = .drCmds) ∨ ∃ name, k = .tmp name
  | .push h k _ => h = localIP ∧ ∃ name, k = .blk name ∨ k = .tmp name

theorem source_eq {cmd : PipeCmd} {h : Nat} {k : ListKey} :
    cmd.source = some (h, k) ↔ cmd.id ≠ 0 ∧ h = cmd.prevIP ∧ k = .tmp cmd.lostBlkName := by
  unfold PipeCmd.source
  by_cases hid : cmd.id = 0
  · simp [hid]
  · simp [hid, eq_comm]

theorem sendKey_cases (cmd : PipeCmd) :
    cmd.sendKey = .blk cmd.lostBlkName ∨ cmd.sendKey = .tmp cmd.lostBlkName := by
  unfold PipeCmd.sendKey
  split
  · exact Or.inl rfl
  · exact Or.inr rfl

theorem worker_uses {es : List (Event Nat ListKey Msg)} {w : Worker} :
    Lists.LocalRuns (Worker.Step conf blkDir localIP) Worker.init es w →
      ∀ e ∈ es, Worker.Uses localIP e := by
  intro hruns
  refine (hruns.invariant (P := fun w => ∀ h, ∀ k ∈ w.threads.pending h, ∃ name, k = .tmp name)
    (Q := Worker.Uses localIP) ?_ ?_).2
  · intro h k hk
    exact absurd hk List.not_mem_nil
  · intro w e w' hpending hstep
    cases hstep with
    | command hidle => exact ⟨hpending, Or.inl ⟨rfl, rfl⟩⟩
    | @thread c e threads hcmd hs =>
        obtain ⟨hask, hpop, hpush⟩ := hs.uses
        refine ⟨fun h k hk => ?_, ?_⟩
        · rcases hask h k hk with hold | ⟨j, hj, hsrc⟩
          · exact hpending h k hold
          · exact ⟨_, (source_eq.1 hsrc).2.2⟩
        · cases e with
          | internal => trivial
          | pop h k m => exact Or.inr (hpending h k (hpop h k m rfl))
          | push h k m =>
              obtain ⟨j, hj, hdst⟩ := hpush h k m rfl
              have hown : (localIP, c.sendKey) = (h, k) := hdst
              cases hown
              exact ⟨rfl, _, sendKey_cases _⟩

/-- A worker without commands does nothing. -/
theorem events_eq_nil {es : List (Event Nat ListKey Msg)} {w : Worker} :
    Lists.LocalRuns (Worker.Step conf blkDir localIP) Worker.init es w →
      Lists.popped localIP .drCmds es = [] → es = [] ∧ w = Worker.init := by
  intro hruns
  induction hruns with
  | refl =>
      intro _
      exact ⟨rfl, rfl⟩
  | snoc _ hstep ih =>
      intro hnone
      rw [Lists.popped_append, List.append_eq_nil_iff] at hnone
      obtain ⟨-, rfl⟩ := ih hnone.1
      cases hstep with
      | command hidle => simp at hnone
      | thread hcmd h => cases hcmd

end Uses

/-! ## A helper with one command -/

section Helper

variable {conf : PacketConfig} {blkDir : Str → Buf} {localIP : Nat} {cmd : PipeCmd}
  {es : List (Event Nat ListKey Msg)} {w : Worker}

/-- What the helper has done: nothing, or it has popped its command and the threads run. -/
inductive Helper (conf : PacketConfig) (blkDir : Str → Buf) (localIP : Nat) (cmd : PipeCmd)
    (es : List (Event Nat ListKey Msg)) (w : Worker) : Prop where
  | waiting (hes : es = []) (hw : w = Worker.init)
  | running (es' : List (Event Nat ListKey Msg))
      (hes : es = .pop localIP .drCmds (.cmd cmd) :: es') (hcmd : w.cmd = some cmd)
      (hruns : Lists.LocalRuns (Relay.Step (relay conf blkDir localIP cmd))
        (Relay.start (relay conf blkDir localIP cmd) Worker.init.threads) es' w.threads)

/-- A helper keeps to the command in its list. -/
theorem helper_of_runs :
    Lists.LocalRuns (Worker.Step conf blkDir localIP) Worker.init es w →
      Lists.popped localIP .drCmds es <+: [.cmd cmd] → Helper conf blkDir localIP cmd es w := by
  intro hruns
  induction hruns with
  | refl =>
      intro _
      exact .waiting rfl rfl
  | @snoc w w' es e _ hstep ih =>
      intro hprefix
      rw [Lists.popped_append] at hprefix
      cases ih ((List.prefix_append _ _).trans hprefix) with
      | waiting hes hw =>
          subst hes hw
          cases hstep with
          | @command c hidle =>
              rw [Lists.popped_pop_self] at hprefix
              have hsame : [ListMsg.cmd c] = [ListMsg.cmd cmd] := hprefix.eq_of_length rfl
              cases hsame
              exact .running [] rfl rfl (.refl _)
          | thread hcmd h => cases hcmd
      | running es' hes hcmd hthreads =>
          subst hes
          cases hstep with
          | command hidle =>
              -- there is no other command
              exfalso
              have hlen := hprefix.length_le
              rw [Lists.popped_pop_self, List.length_append,
                show Lists.popped localIP .drCmds (.pop localIP .drCmds (.cmd cmd) :: es') =
                  .cmd cmd :: Lists.popped localIP .drCmds es' from by simp [Lists.popped]] at hlen
              simp at hlen
          | thread hcmd' h =>
              rw [hcmd] at hcmd'
              cases hcmd'
              exact .running (es' ++ [e]) rfl hcmd (.snoc hthreads h)

/-- The threads are right. -/
theorem correct_of_runs {es' : List (Event Nat ListKey Msg)}
    {threads : Relay.State Buf Nat ListKey Msg} :
    Lists.LocalRuns (Relay.Step (relay conf blkDir localIP cmd))
        (Relay.start (relay conf blkDir localIP cmd) Worker.init.threads) es' threads →
      Relay.Correct (relay conf blkDir localIP cmd) (fun i _ => scaled conf blkDir cmd i) conf.xor
        es' threads :=
  fun hruns => (Relay.Correct.start (fun _ _ => rfl) (fun _ => rfl) fun _ => rfl).run relay_lawful
    hruns

/-- Popping the command is seen in the list of commands only. -/
theorem popped_cons (h₀ : Nat) {k : ListKey} (hk : k ≠ .drCmds)
    (es' : List (Event Nat ListKey Msg)) :
    Lists.popped h₀ k (.pop localIP .drCmds (.cmd cmd) :: es') = Lists.popped h₀ k es' := by
  simp [Lists.popped, Ne.symm hk]

theorem pushed_cons (h₀ : Nat) (k : ListKey) (es' : List (Event Nat ListKey Msg)) :
    Lists.pushed h₀ k (.pop localIP .drCmds (.cmd cmd) :: es') = Lists.pushed h₀ k es' :=
  rfl

/-- A helper pops its command, and the packets of its predecessor. -/
theorem Helper.popped_eq_nil (h : Helper conf blkDir localIP cmd es w) {h₀ : Nat} {k : ListKey}
    (hk : k ≠ .drCmds) : cmd.source ≠ some (h₀, k) → Lists.popped h₀ k es = [] := by
  intro hnone
  cases h with
  | waiting hes hw =>
      subst hes
      rfl
  | running es' hes hcmd hruns =>
      subst hes
      rw [popped_cons h₀ hk]
      exact (correct_of_runs hruns).popped_eq_nil fun _ _ => hnone

/-- Its packets are scaled, and xored with those of the predecessor. -/
theorem Helper.payload (h : Helper conf blkDir localIP cmd es w) {i : Nat} {v : Msg} :
    (Lists.pushed localIP cmd.sendKey es)[i]? = some v →
      (cmd.id = 0 → v = scaled conf blkDir cmd i) ∧
        (cmd.id ≠ 0 → ∃ m, (Lists.popped cmd.prevIP (.tmp cmd.lostBlkName) es)[i]? = some m ∧
          v = conf.xor (scaled conf blkDir cmd i) m) := by
  intro hv
  cases h with
  | waiting hes hw =>
      subst hes
      cases hv
  | running es' hes hcmd hruns =>
      subst hes
      rw [pushed_cons] at hv
      obtain ⟨hfirst, hnext⟩ := (correct_of_runs hruns).payload keysApart (j := 0)
        (Nat.lt_succ_self 0) hv
      refine ⟨fun hid => hfirst (if_pos hid), fun hid => ?_⟩
      obtain ⟨m, hm, hval⟩ := hnext cmd.prevIP (.tmp cmd.lostBlkName) (if_neg hid)
      exact ⟨m, by rw [popped_cons _ (by simp)]; exact hm, hval⟩

/-- With three to nine packets it sends at most the first. -/
theorem Helper.pushed_length_le_one (h : Helper conf blkDir localIP cmd es w)
    (hthree : 3 ≤ conf.packetCnt) (hnine : conf.packetCnt ≤ 9) :
    (Lists.pushed localIP cmd.sendKey es).length ≤ 1 := by
  cases h with
  | waiting hes hw =>
      subst hes
      exact Nat.zero_le _
  | running es' hes hcmd hruns =>
      subst hes
      have hfails : ∀ p, ((relay conf blkDir localIP cmd).fill 1).foldlM (fun p f => f p) p =
          none := by
        intro p
        simp [relay, readPkt, pktLog_one hthree hnine]
      -- the reader does not flag packet 1
      have hfilled : w.threads.reader.filled conf.packetCnt ≤ 1 := by
        clear hcmd
        generalize w.threads = threads at hruns ⊢
        induction hruns with
        | refl => exact Nat.zero_le _
        | snoc hrest hstep ih =>
            exact (correct_of_runs hrest).filled_le_of_fails
              (show 1 < conf.packetCnt by omega) hfails ih hstep
      have hcorrect := correct_of_runs hruns
      obtain ⟨hlen, -⟩ := hcorrect.pushed_length keysApart (j := 0) (Nat.lt_succ_self 0)
      exact hlen.trans_le ((Relay.Inv.sent_le_filled hcorrect (j := 0)
        (Nat.lt_succ_self 0)).trans hfilled)

/-! ## Until the helper is done -/

/-- The helper has run its command, and the threads have ended. -/
structure HelperDone (localIP : Nat) (cmd : PipeCmd) (es : List (Event Nat ListKey Msg))
    (w : Worker) : Prop where
  popped : .pop localIP .drCmds (.cmd cmd) ∈ es
  idle : w.threads.Idle

/-- Then it has pushed every packet. -/
theorem HelperDone.pushed_length (hdone : HelperDone localIP cmd es w)
    (h : Helper conf blkDir localIP cmd es w) :
    (Lists.pushed localIP cmd.sendKey es).length = conf.packetCnt := by
  cases h with
  | waiting hes hw =>
      subst hes
      exact absurd hdone.popped List.not_mem_nil
  | running es' hes hcmd hruns =>
      subst hes
      exact (correct_of_runs hruns).complete keysApart (j := 0) (Nat.lt_succ_self 0)
        hdone.idle.2.2

/-- A helper that can only wait is done, or waits for its command or for the next packet. -/
theorem Helper.done_or_waits (hcnt : ¬ (3 ≤ conf.packetCnt ∧ conf.packetCnt ≤ 9))
    (h : Helper conf blkDir localIP cmd es w)
    (hstuck : ∀ e w', (∀ h k m, e ≠ .pop h k m) → ¬ Worker.Step conf blkDir localIP w e w') :
    HelperDone localIP cmd es w ∨
      (es = [] ∧ ∃ w', Worker.Step conf blkDir localIP w (.pop localIP .drCmds (.cmd cmd)) w') ∨
      (cmd.id ≠ 0 ∧ (Lists.popped cmd.prevIP (.tmp cmd.lostBlkName) es).length < conf.packetCnt ∧
        ∀ m, ∃ w', Worker.Step conf blkDir localIP w
          (.pop cmd.prevIP (.tmp cmd.lostBlkName) m) w') := by
  cases h with
  | waiting hes hw =>
      subst hw
      exact Or.inr (Or.inl ⟨hes, _, .command ⟨rfl, rfl, rfl⟩⟩)
  | running es' hes hcmd hruns =>
      subst hes
      have halive : w.threads.Alive := by
        clear hcmd hstuck
        generalize w.threads = threads at hruns ⊢
        induction hruns with
        | refl => exact .start _
        | snoc _ hstep ih => exact ih.step (relay_live hcnt) hstep
      rcases (correct_of_runs hruns).idle_or_waits keysApart (relay_live hcnt) halive
        fun e s' he hs => hstuck e _ he (.thread hcmd hs) with
        hidle | ⟨i, j, h₀, k, hi, hj, hsrc, hlen, hpop⟩
      · exact Or.inl ⟨List.mem_cons_self, hidle⟩
      · obtain ⟨hid, rfl, rfl⟩ := source_eq.1 (show cmd.source = some (h₀, k) from hsrc)
        refine Or.inr (Or.inr ⟨hid, ?_, fun m => ?_⟩)
        · rw [popped_cons _ (by simp)]
          exact hlen.trans_lt hi
        · obtain ⟨s', hs'⟩ := hpop m
          exact ⟨_, .thread hcmd hs'⟩

/-- How many steps a helper takes at most. -/
def stepBound (packetCnt : Nat) : Nat :=
  (Relay.Reader.read 0 : Relay.Reader Buf).left 4 packetCnt +
    (Relay.Puller.append 0 0 : Relay.Puller Msg).left packetCnt 1 +
    (Relay.Sender.send 0 0).left packetCnt 1 + packetCnt + 1

theorem Helper.length_le (h : Helper conf blkDir localIP cmd es w) :
    es.length ≤ stepBound conf.packetCnt := by
  cases h with
  | waiting hes hw =>
      subst hes
      exact Nat.zero_le _
  | running es' hes hcmd hruns =>
      subst hes
      have hle := Relay.Correct.length_le length_fill src_host (correct_of_runs hruns) hruns
      have hone : (relay conf blkDir localIP cmd).packetCnt *
          (relay conf blkDir localIP cmd).jobCnt = conf.packetCnt := Nat.mul_one _
      rw [hone] at hle
      exact Nat.succ_le_succ hle

end Helper

end PipeDR

end CoRD
