import CoRD.Network.RelayProgress
import CoRD.Repair.PipeMulDRWorker

/-!
# PipeMulHelper — a helper with the commands of one request

A helper whose `dr_cmds` list holds the commands of one request, numbered downwards, collects them
one after the other and runs one batch with all their jobs.  From then on what it pops and pushes
is what the threads of that batch pop and push.
-/

namespace CoRD

namespace PipeMul

open Lists (Event)

section Helper

variable {conf : PacketConfig} {blkDir : Str → Buf} {localIP : Nat} {cmds : List PipeMulCmd}

/-! ## Which lists a worker uses -/

/-- A worker pops its commands and packets of its jobs, and pushes packets on its own host. -/
def Worker.Uses (localIP : Nat) : Event Nat ListKey Msg → Prop
  | .internal => True
  | .pop h k _ => (h = localIP ∧ k = .drCmds) ∨ ∃ name, k = .tmp name
  | .push h k _ => h = localIP ∧ ∃ name, k = .blk name ∨ k = .tmp name

theorem source_eq {job : PipeMulJob} {h : Nat} {k : ListKey} :
    job.source = some (h, k) ↔ job.id ≠ 0 ∧ h = job.prevIP ∧ k = .tmp job.lostBlkName := by
  unfold PipeMulJob.source
  by_cases hid : job.id = 0
  · simp [hid]
  · simp [hid, eq_comm]

theorem sendKey_cases (job : PipeMulJob) :
    job.sendKey = .blk job.lostBlkName ∨ job.sendKey = .tmp job.lostBlkName := by
  unfold PipeMulJob.sendKey
  split
  · exact Or.inl rfl
  · exact Or.inr rfl

/-- The threads of job `j`. -/
theorem relay_job {jobs : List PipeMulJob} {j : Nat} {job : PipeMulJob} (hjob : jobs[j]? = some job) :
    (relay conf blkDir localIP jobs).src j = job.source ∧
      (relay conf blkDir localIP jobs).dst j = (localIP, job.sendKey) := by
  constructor
  · show jobs[j]?.bind PipeMulJob.source = _
    rw [hjob]
    rfl
  · show (localIP, (jobs[j]?.map PipeMulJob.sendKey).getD .drCmds) = _
    rw [hjob]
    rfl

theorem worker_uses {es : List (Event Nat ListKey Msg)} {w : Worker} :
    Lists.LocalRuns (Worker.Step conf blkDir localIP) Worker.init es w →
      ∀ e ∈ es, Worker.Uses localIP e := by
  intro hruns
  refine (hruns.invariant (P := fun w => ∀ h, ∀ k ∈ w.threads.pending h, ∃ name, k = .tmp name)
    (Q := Worker.Uses localIP) ?_ ?_).2
  · intro h k hk
    exact absurd hk List.not_mem_nil
  · intro w e w' hpending hstep
    cases hstep with
    | command hidle hind => exact ⟨hpending, Or.inl ⟨rfl, rfl⟩⟩
    | batch h =>
        rw [h.begun]
        exact ⟨hpending, Or.inl ⟨rfl, rfl⟩⟩
    | thread hs =>
        obtain ⟨hask, hpop, hpush⟩ := hs.uses
        refine ⟨fun h k hk => ?_, ?_⟩
        · rcases hask h k hk with hold | ⟨j, hj, hsrc⟩
          · exact hpending h k hold
          · rw [(relay_job (List.getElem?_eq_getElem hj)).1] at hsrc
            exact ⟨_, (source_eq.1 hsrc).2.2⟩
        · cases e with
          | internal => trivial
          | pop h k m => exact Or.inr (hpending h k (hpop h k m rfl))
          | push h k m =>
              obtain ⟨j, hj, hdst⟩ := hpush h k m rfl
              rw [(relay_job (List.getElem?_eq_getElem hj)).2] at hdst
              cases hdst
              refine ⟨rfl, _, sendKey_cases _⟩

/-- A worker without commands does nothing. -/
theorem events_eq_nil {es : List (Event Nat ListKey Msg)} {w : Worker} :
    Lists.LocalRuns (Worker.Step conf blkDir localIP) Worker.init es w →
      Lists.popped localIP .drCmds es = [] → es = [] ∧ w = Worker.init := by
  intro hruns
  induction hruns with
  | refl =>
      intro _
      exact ⟨rfl, rfl⟩
  | snoc _ hstep ih =>
      intro hnone
      rw [Lists.popped_append, List.append_eq_nil_iff] at hnone
      obtain ⟨-, rfl⟩ := ih hnone.1
      cases hstep with
      | command hidle hind => simp at hnone
      | batch h => simp at hnone
      | thread h =>
          exact absurd h (Relay.State.Idle.not_step ⟨rfl, rfl, rfl⟩ fun _ => rfl)

/-! ## One request -/

/-- The commands of one request for a node, in its list. -/
structure IsRequest (cmds : List PipeMulCmd) : Prop where
  nonempty : cmds ≠ []
  max : cmds.length ≤ MAX_ECK
  numbered : ∀ (n : Nat) c, cmds[n]? = some c → c.jobInd = (cmds.length : Int) - n ∧
    c.jobNum = (cmds.length : Int)
  names : (cmds.map PipeMulCmd.lostBlkName).Nodup

/-- What the helper has done: collected some of the jobs, or begun the batch. -/
inductive Helper (conf : PacketConfig) (blkDir : Str → Buf) (localIP : Nat)
    (cmds : List PipeMulCmd) (es : List (Event Nat ListKey Msg)) (w : Worker) : Prop where
  | collecting (n : Nat) (hn : n < cmds.length)
      (hcmds : Lists.popped localIP .drCmds es = (cmds.take n).map .cmd)
      (hjobs : w.pipeMulJobs = (cmds.take n).map PipeMulCmd.job)
      (hthreads : w.threads = Worker.init.threads)
      (hpushed : Relay.pushedAll es = [])
      (hpopped : ∀ h k, k ≠ .drCmds → Lists.popped h k es = [])
  | running (es' : List (Event Nat ListKey Msg))
      (hcmds : Lists.popped localIP .drCmds es = cmds.map .cmd)
      (hjobs : w.pipeMulJobs = cmds.map PipeMulCmd.job)
      (hcorrect : Relay.Correct (relay conf blkDir localIP w.pipeMulJobs)
        (scaled conf blkDir w.pipeMulJobs) conf.plus es' w.threads)
      (halive : conf.packetCnt ≠ 3 → w.threads.Alive)
      (hpushed : Relay.pushedAll es = Relay.pushedAll es')
      (hpopped : ∀ h k, k ≠ .drCmds → Lists.popped h k es = Lists.popped h k es')

/-- Collecting one more command. -/
theorem pushJob_take (hreq : IsRequest cmds) {n : Nat} {c : PipeMulCmd} :
    cmds[n]? = some c →
      pushJob ((cmds.take n).map PipeMulCmd.job) c = (cmds.take (n + 1)).map PipeMulCmd.job := by
  intro hc
  obtain ⟨hind, hnum⟩ := hreq.numbered n c hc
  have htake : cmds.take (n + 1) = cmds.take n ++ [c] := by
    rw [List.take_add_one, hc]
    rfl
  rw [htake, List.map_append, pushJob]
  congr 1
  by_cases hzero : n = 0
  · subst hzero
    simp
  · rw [if_neg]
    rw [hind, hnum]
    omega

/-- With any other number of packets than three no thread fails. -/
theorem relay_live {jobs : List PipeMulJob} (hthree : conf.packetCnt ≠ 3) :
    (relay conf blkDir localIP jobs).Live where
  fill := by
    intro i f hf p
    obtain ⟨g, -, rfl⟩ := List.mem_map.1 hf
    exact ⟨g p, rfl⟩
  readLog := fun i => pktOutput_isSome i hthree
  pullLog := fun i _ => pktOutput_isSome i hthree
  sendLog := fun i _ => pktOutput_isSome i hthree

/-- A helper keeps to the commands of its list. -/
theorem helper_of_runs (hps : conf.packetSize % 8 = 0) (hreq : IsRequest cmds)
    {es : List (Event Nat ListKey Msg)} {w : Worker} :
    Lists.LocalRuns (Worker.Step conf blkDir localIP) Worker.init es w →
      Lists.popped localIP .drCmds es <+: cmds.map .cmd → Helper conf blkDir localIP cmds es w := by
  intro hruns
  induction hruns with
  | refl =>
      intro _
      have hpos : 0 < cmds.length := List.length_pos_of_ne_nil hreq.nonempty
      exact .collecting 0 hpos rfl rfl rfl rfl fun _ _ _ => rfl
  | @snoc w w' es e _ hstep ih =>
      intro hprefix
      rw [Lists.popped_append] at hprefix
      have hhelper := ih ((List.prefix_append _ _).trans hprefix)
      cases hhelper with
      | collecting n hn hcmds hjobs hthreads hpushed hpopped =>
          -- a command that is popped is the next one
          have hnext : ∀ c, e = .pop localIP .drCmds (.cmd c) → cmds[n]? = some c := by
            intro c hc
            rw [hcmds, hc, Lists.popped_pop_self] at hprefix
            have hlen : ((cmds.take n).map fun c => (.cmd c : Msg)).length = n := by
              rw [List.length_map, List.length_take, Nat.min_eq_left (Nat.le_of_lt hn)]
            have hget := Lists.getElem?_of_isPrefix (i := n) (v := .cmd c) hprefix (by
              rw [List.getElem?_append_right (Nat.le_of_eq hlen), hlen, Nat.sub_self]
              rfl)
            rw [List.getElem?_map] at hget
            obtain ⟨c', hc', heq⟩ := Option.map_eq_some_iff.1 hget
            cases heq
            exact hc'
          cases hstep with
          | @command c hidle hind =>
              have hc := hnext c rfl
              obtain ⟨hind', -⟩ := hreq.numbered n c hc
              refine .collecting (n + 1) ?_ ?_ ?_ hthreads ?_ ?_
              · omega
              · rw [Lists.popped_append, hcmds, Lists.popped_pop_self, List.take_add_one, hc,
                  List.map_append]
                rfl
              · exact hjobs ▸ pushJob_take hreq hc
              · rw [Relay.pushedAll_append, hpushed]
                rfl
              · intro h k hk
                rw [Lists.popped_append, hpopped h k hk,
                  Lists.popped_pop_of_ne _ fun heq => hk heq.2.symm]
                rfl
          | @batch c w' h =>
              have hc := hnext c rfl
              obtain ⟨hind', -⟩ := hreq.numbered n c hc
              have hlast : n + 1 = cmds.length := by
                have hone := h.last
                omega
              have htake : cmds.take n ++ [c] = cmds := by
                have hsucc : cmds.take (n + 1) = cmds.take n ++ [c] := by
                  rw [List.take_add_one, hc]
                  rfl
                rw [← hsucc, hlast, List.take_length]
              have hall : pushJob w.pipeMulJobs c = cmds.map PipeMulCmd.job := by
                rw [hjobs, pushJob_take hreq hc, hlast, List.take_length]
              refine .running [] ?_ ?_ ?_ ?_ ?_ ?_
              · conv_rhs => rw [← htake]
                rw [Lists.popped_append, hcmds, Lists.popped_pop_self, List.map_append]
                rfl
              · rw [h.begun]
                exact hall
              · rw [h.begun]
                refine .start ?_ ?_ ?_ <;> rw [hthreads] <;> intros <;> rfl
              · intro _
                rw [h.begun]
                exact .start _
              · rw [Relay.pushedAll_append, hpushed]
                rfl
              · intro h' k hk
                rw [Lists.popped_append, hpopped h' k hk,
                  Lists.popped_pop_of_ne _ fun heq => hk heq.2.symm]
                rfl
          | thread h =>
              exfalso
              rw [hthreads] at h
              exact Relay.State.Idle.not_step ⟨rfl, rfl, rfl⟩ (fun _ => rfl) h
      | running es' hcmds hjobs hcorrect halive hpushed hpopped =>
          -- there is no other command
          have hnone : Lists.popped localIP .drCmds [e] = [] := by
            have hlen := hprefix.length_le
            rw [hcmds, List.length_append] at hlen
            exact List.eq_nil_of_length_eq_zero (by omega)
          cases hstep with
          | command hidle hind =>
              rw [Lists.popped_pop_self] at hnone
              cases hnone
          | batch h =>
              rw [Lists.popped_pop_self] at hnone
              cases hnone
          | thread h =>
              refine .running (es' ++ [e]) ?_ hjobs ?_ ?_ ?_ ?_
              · rw [Lists.popped_append, hcmds, hnone, List.append_nil]
              · exact hcorrect.step (relay_lawful (Or.inl hps)) h
              · intro hthree
                exact (halive hthree).step (relay_live hthree) h
              · rw [Relay.pushedAll_append, Relay.pushedAll_append, hpushed]
              · intro h' k hk
                rw [Lists.popped_append, Lists.popped_append, hpopped h' k hk]

/-! ## What it pops and pushes -/

theorem name_inj {jobs : List PipeMulJob} (hnames : (jobs.map PipeMulJob.lostBlkName).Nodup)
    {j j' : Nat} (hj : j < jobs.length) (hj' : j' < jobs.length) :
    jobs[j].lostBlkName = jobs[j'].lostBlkName → j = j' := by
  intro heq
  refine (List.getElem?_inj (by simpa using hj) hnames).1 ?_
  rw [List.getElem?_map, List.getElem?_map, List.getElem?_eq_getElem hj,
    List.getElem?_eq_getElem hj', Option.map_some, Option.map_some, heq]

/-- Jobs for different blocks use different lists. -/
theorem keysApart {jobs : List PipeMulJob} (hnames : (jobs.map PipeMulJob.lostBlkName).Nodup) :
    Relay.KeysApart (relay conf blkDir localIP jobs) where
  src := by
    intro j hj j' hj' heq hne
    have hsrc : jobs[j].source = jobs[j'].source := by
      have hget : jobs[j]?.bind PipeMulJob.source = jobs[j']?.bind PipeMulJob.source := heq
      rwa [List.getElem?_eq_getElem hj, List.getElem?_eq_getElem hj'] at hget
    cases hq : jobs[j].source with
    | none =>
        refine absurd ?_ hne
        show jobs[j]?.bind PipeMulJob.source = none
        rw [List.getElem?_eq_getElem hj, Option.bind_some, hq]
    | some q =>
        obtain ⟨-, -, hk⟩ := source_eq.1 hq
        obtain ⟨-, -, hk'⟩ := source_eq.1 (hsrc ▸ hq)
        exact name_inj hnames hj hj' (ListKey.tmp.inj (hk.symm.trans hk'))
  dst := by
    intro j hj j' hj' heq
    have hkey : jobs[j].sendKey = jobs[j'].sendKey := by
      have hsnd := congrArg Prod.snd heq
      simp only [relay, List.getElem?_eq_getElem (show j < jobs.length from hj),
        List.getElem?_eq_getElem (show j' < jobs.length from hj'), Option.map_some,
        Option.getD_some] at hsnd
      exact hsnd
    refine name_inj hnames hj hj' ?_
    rcases sendKey_cases jobs[j] with hk | hk <;> rcases sendKey_cases jobs[j'] with hk' | hk'
    · exact ListKey.blk.inj (hk.symm.trans (hkey.trans hk'))
    · exact absurd (hk.symm.trans (hkey.trans hk')) (by simp)
    · exact absurd (hk.symm.trans (hkey.trans hk')) (by simp)
    · exact ListKey.tmp.inj (hk.symm.trans (hkey.trans hk'))

section Jobs

variable {es : List (Event Nat ListKey Msg)} {w : Worker}

/-- A helper pops commands, and the packets of its jobs. -/
theorem Helper.popped_eq_nil (h : Helper conf blkDir localIP cmds es w) {h₀ : Nat} {k : ListKey}
    (hk : k ≠ .drCmds) :
    (∀ c ∈ cmds, c.job.source ≠ some (h₀, k)) → Lists.popped h₀ k es = [] := by
  intro hnone
  cases h with
  | collecting n hn hcmds hjobs hthreads hpushed hpopped =>
      exact hpopped h₀ k hk
  | running es' hcmds hjobs hcorrect halive hpushed hpopped =>
      rw [hpopped h₀ k hk]
      rw [hjobs] at hcorrect
      refine hcorrect.popped_eq_nil fun j hj => ?_
      have hjob : (cmds.map PipeMulCmd.job)[j]? = some (cmds.map PipeMulCmd.job)[j] :=
        List.getElem?_eq_getElem hj
      obtain ⟨c, hc, heq⟩ := List.mem_map.1 (List.mem_of_getElem? hjob)
      rw [(relay_job hjob).1, ← heq]
      exact hnone c hc

theorem pushed_congr {es es' : List (Event Nat ListKey Msg)} (h₀ : Nat) (k : ListKey) :
    Relay.pushedAll es = Relay.pushedAll es' → Lists.pushed h₀ k es = Lists.pushed h₀ k es' := by
  intro h
  rw [Relay.pushed_eq_filter, Relay.pushed_eq_filter, h]

/-- It pushes the packets of its jobs. -/
theorem Helper.pushed_eq_nil (h : Helper conf blkDir localIP cmds es w) {h₀ : Nat} {k : ListKey} :
    (∀ c ∈ cmds, (localIP, c.job.sendKey) ≠ (h₀, k)) → Lists.pushed h₀ k es = [] := by
  intro hnone
  cases h with
  | collecting n hn hcmds hjobs hthreads hpushed hpopped =>
      exact pushed_congr h₀ k (hpushed.trans (Relay.pushedAll_append [] []).symm)
  | running es' hcmds hjobs hcorrect halive hpushed hpopped =>
      rw [pushed_congr h₀ k hpushed]
      rw [hjobs] at hcorrect
      refine hcorrect.pushed_eq_nil fun j hj => ?_
      have hjob : (cmds.map PipeMulCmd.job)[j]? = some (cmds.map PipeMulCmd.job)[j] :=
        List.getElem?_eq_getElem hj
      obtain ⟨c, hc, heq⟩ := List.mem_map.1 (List.mem_of_getElem? hjob)
      rw [(relay_job hjob).2, ← heq]
      exact hnone c hc

/-- The packets of a job are scaled, and xored with those of the predecessor. -/
theorem Helper.payload (hreq : IsRequest cmds) (h : Helper conf blkDir localIP cmds es w)
    {j i : Nat} {c c₀ : PipeMulCmd} {v : Msg} (hc : cmds[j]? = some c) (hc₀ : cmds[0]? = some c₀) :
    (Lists.pushed localIP c.job.sendKey es)[i]? = some v →
      (c.id = 0 → v = conf.packet (fun x => c.coefficient * blkDir c₀.localBlkName x) i) ∧
        (c.id ≠ 0 → ∃ m, (Lists.popped c.prevIP (.tmp c.lostBlkName) es)[i]? = some m ∧
          v = conf.plus (conf.packet (fun x => c.coefficient * blkDir c₀.localBlkName x) i) m) := by
  intro hv
  cases h with
  | collecting n hn hcmds hjobs hthreads hpushed hpopped =>
      rw [pushed_congr _ _ (hpushed.trans (Relay.pushedAll_append [] []).symm)] at hv
      simp [Lists.pushed] at hv
  | running es' hcmds hjobs hcorrect halive hpushed hpopped =>
      rw [pushed_congr _ _ hpushed] at hv
      rw [hjobs] at hcorrect
      have hjob : (cmds.map PipeMulCmd.job)[j]? = some c.job := by
        rw [List.getElem?_map, hc]
        rfl
      obtain ⟨hsrc, hdst⟩ : (relay conf blkDir localIP (cmds.map PipeMulCmd.job)).src j =
          c.job.source ∧ (relay conf blkDir localIP (cmds.map PipeMulCmd.job)).dst j =
          (localIP, c.job.sendKey) := relay_job hjob
      have hown : scaled conf blkDir (cmds.map PipeMulCmd.job) i j =
          conf.packet (fun x => c.coefficient * blkDir c₀.localBlkName x) i := by
        have hfirst : (cmds.map PipeMulCmd.job)[0]? = some c₀.job := by
          rw [List.getElem?_map, hc₀]
          rfl
        rw [scaled, localFile, hjob, hfirst]
        rfl
      have hnames : ((cmds.map PipeMulCmd.job).map PipeMulJob.lostBlkName).Nodup := by
        rw [List.map_map]
        exact hreq.names
      have hv' : (Lists.pushed ((relay conf blkDir localIP (cmds.map PipeMulCmd.job)).dst j).1
          ((relay conf blkDir localIP (cmds.map PipeMulCmd.job)).dst j).2 es')[i]? = some v := by
        rw [hdst]
        exact hv
      have hj : j < (cmds.map PipeMulCmd.job).length := (List.getElem?_eq_some_iff.1 hjob).1
      obtain ⟨hfirst, hnext⟩ := hcorrect.payload (keysApart hnames) hj hv'
      rw [hown, hsrc] at hfirst
      rw [hown, hsrc] at hnext
      constructor
      · intro hid
        exact hfirst (if_pos hid)
      · intro hid
        obtain ⟨m, hm, hval⟩ := hnext c.prevIP (.tmp c.lostBlkName) (if_neg hid)
        exact ⟨m, by rw [hpopped _ _ (by simp)]; exact hm, hval⟩

/-! ## Until the batch is done -/

/-- The helper has run its jobs as one batch, and the batch has ended. -/
structure HelperDone (localIP : Nat) (cmds : List PipeMulCmd) (es : List (Event Nat ListKey Msg))
    (w : Worker) : Prop where
  popped : Lists.popped localIP .drCmds es = cmds.map .cmd
  jobs : w.pipeMulJobs = cmds.map PipeMulCmd.job
  idle : w.threads.Idle

/-- Then it has pushed every packet of every job. -/
theorem HelperDone.pushed_length (hdone : HelperDone localIP cmds es w) (hreq : IsRequest cmds)
    (h : Helper conf blkDir localIP cmds es w) {c : PipeMulCmd} (hc : c ∈ cmds) :
    (Lists.pushed localIP c.job.sendKey es).length = conf.packetCnt := by
  cases h with
  | collecting n hn hcmds hjobs hthreads hpushed hpopped =>
      have hlen := congrArg List.length (hcmds.symm.trans hdone.popped)
      rw [List.length_map, List.length_map, List.length_take] at hlen
      omega
  | running es' hcmds hjobs hcorrect halive hpushed hpopped =>
      obtain ⟨j, hj⟩ := List.getElem?_of_mem hc
      have hjob : (cmds.map PipeMulCmd.job)[j]? = some c.job := by
        rw [List.getElem?_map, hj]
        rfl
      have hnames : ((cmds.map PipeMulCmd.job).map PipeMulJob.lostBlkName).Nodup := by
        rw [List.map_map]
        exact hreq.names
      rw [hjobs] at hcorrect
      have hlt : j < (cmds.map PipeMulCmd.job).length := (List.getElem?_eq_some_iff.1 hjob).1
      have hall := hcorrect.complete (keysApart hnames) hlt hdone.idle.2.2
      rw [(relay_job hjob).2] at hall
      rw [pushed_congr _ _ hpushed]
      exact hall

/-- A helper that can only wait is done, or waits for a command, or for the next packet of a job. -/
theorem Helper.done_or_waits (hthree : conf.packetCnt ≠ 3) (hreq : IsRequest cmds)
    (h : Helper conf blkDir localIP cmds es w)
    (hstuck : ∀ e w', (∀ h k m, e ≠ .pop h k m) → ¬ Worker.Step conf blkDir localIP w e w') :
    HelperDone localIP cmds es w ∨
      (∃ (n : Nat) (c : PipeMulCmd) (w' : Worker), cmds[n]? = some c ∧
        (Lists.popped localIP .drCmds es).length = n ∧
        Worker.Step conf blkDir localIP w (.pop localIP .drCmds (.cmd c)) w') ∨
      ∃ c ∈ cmds, c.id ≠ 0 ∧
        (Lists.popped c.prevIP (.tmp c.lostBlkName) es).length < conf.packetCnt ∧
        ∀ m, ∃ w', Worker.Step conf blkDir localIP w (.pop c.prevIP (.tmp c.lostBlkName) m) w' := by
  cases h with
  | collecting n hn hcmds hjobs hthreads hpushed hpopped =>
      have hidle : w.threads.Idle := by
        rw [hthreads]
        exact ⟨rfl, rfl, rfl⟩
      have hc : cmds[n]? = some cmds[n] := List.getElem?_eq_getElem hn
      obtain ⟨hind, -⟩ := hreq.numbered n _ hc
      have hlen : (Lists.popped localIP .drCmds es).length = n := by
        rw [hcmds, List.length_map, List.length_take, Nat.min_eq_left (Nat.le_of_lt hn)]
      refine Or.inr (Or.inl ?_)
      -- the last job of the batch starts the threads
      by_cases hlast : cmds[n].jobInd = 1
      · refine ⟨n, cmds[n], _, hc, hlen, .batch ⟨hidle, hlast, ?_, rfl⟩⟩
        rw [hjobs, pushJob_take hreq hc, List.length_map, List.length_take]
        exact Nat.le_trans (Nat.min_le_right _ _) hreq.max
      · exact ⟨n, cmds[n], _, hc, hlen, .command hidle hlast⟩
  | running es' hcmds hjobs hcorrect halive hpushed hpopped =>
      have hnames : (w.pipeMulJobs.map PipeMulJob.lostBlkName).Nodup := by
        rw [hjobs, List.map_map]
        exact hreq.names
      have hthreads := hcorrect.idle_or_waits (keysApart hnames) (relay_live hthree)
        (halive hthree) fun e s' he hs => hstuck e _ he (.thread hs)
      rcases hthreads with hidle | ⟨i, j, h₀, k, hi, hj, hsrc, hlen, hpop⟩
      · exact Or.inl ⟨hcmds, hjobs, hidle⟩
      · refine Or.inr (Or.inr ?_)
        have hjob : w.pipeMulJobs[j]? = some w.pipeMulJobs[j] := List.getElem?_eq_getElem hj
        -- it waits for the helper before, in the job of one of its commands
        rw [(relay_job hjob).1] at hsrc
        obtain ⟨hid, rfl, rfl⟩ := source_eq.1 hsrc
        have hmem : w.pipeMulJobs[j] ∈ cmds.map PipeMulCmd.job := by
          rw [← hjobs]
          exact List.getElem_mem hj
        obtain ⟨c, hc, heq⟩ := List.mem_map.1 hmem
        rw [← heq] at hid hlen hpop
        refine ⟨c, hc, hid, ?_, ?_⟩
        · rw [hpopped _ _ (by simp)]
          exact Nat.lt_of_le_of_lt (Nat.le_of_eq hlen) hi
        · intro m
          obtain ⟨s', hs'⟩ := hpop m
          exact ⟨_, .thread hs'⟩

end Jobs

end Helper

end PipeMul

end CoRD
