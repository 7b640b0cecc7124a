import CoRD.Repair.PPRPullDRWorker

/-!
# ConvDRWorker — the requestor of a conventional repair

The requestor has one reading thread for each helper.  A reading thread copies each packet to its
place, and counts it in a critical section; there it also looks for the least of all counters, and
adds one to `_waitingToPull` if that is less.  `requestorMulCompletion` combines a packet of all
helpers once for each job when `_waitingToPull` has passed it, and `sendMulWorker` pushes what has
been combined.

The threads wait for one another by these counters.  A thread that waits may look at its counter
again at any time.  A log that divides by zero stops its thread.
-/

namespace CoRD

namespace ConvDR

open Lists (Event)

open PPRPull (minNum)

abbrev Msg := ListMsg ConvCmd

/-! ## The threads -/

/-- Where a reading thread is in a turn: it waits for a packet, holds a reply, or has copied it. -/
inductive ReaderPlace where
  | waits
  | got (m : Msg)
  | stored
  deriving DecidableEq

/-- The loop counter of a reading thread and where it is. -/
structure Reader where
  i : Nat
  place : ReaderPlace

/-- Where `requestorMulCompletion` is with a packet: it waits, or comes to a helper for a job. -/
inductive CompletionPlace where
  | waits
  | combines (j id : Nat)
  deriving DecidableEq

/-- The members that the threads share, and where the threads are: the readers, then `pktId`, place
and buffer of `requestorMulCompletion`, then `pktId` and `j` of `sendMulWorker`. -/
structure State where
  diskPkts3 : Nat → Nat → Buf
  waitingToPullerNum : Nat → Nat
  waitingToPull : Nat
  waitingToSend : Nat
  readers : Nat → Reader
  pktId : Nat
  place : CompletionPlace
  multiplyTmp : Buf
  sender : Nat × Nat

/-- The threads are about to start. -/
def State.init : State where
  diskPkts3 := fun _ _ => zeros
  waitingToPullerNum := fun _ => 0
  waitingToPull := 0
  waitingToSend := 0
  readers := fun _ => ⟨0, .waits⟩
  pktId := 0
  place := .waits
  multiplyTmp := zeros
  sender := (0, 0)

/-- The job by whose name `fetchMulWorker` pulls the packets; `reqj` is not set if there is none. -/
def reqJob (localIP : Nat) (jobs : List ConvMulJob) : Option ConvMulJob :=
  jobs.find? fun job => job.nextIP = localIP ∨ jobs.length = 1

section Threads

variable (conf : PacketConfig)

/-- What is sent of a buffer. -/
def packet (pkt : Buf) : Msg :=
  .packet (bytesOf pkt conf.packetSize)

/-- `readThread` copies a reply. -/
def State.store (s : State) (id : Nat) (m : Msg) : State :=
  let i := (s.readers id).i
  { s with
    diskPkts3 := Function.update s.diskPkts3 i (Function.update (s.diskPkts3 i) id
      (memcpy (s.diskPkts3 i id) 0 m.str conf.packetSize))
    readers := Function.update s.readers id ⟨i, .stored⟩ }

/-- The critical section of `readThread`, and the end of the turn. -/
def State.count (s : State) (totNum id : Nat) : State :=
  let waitingToPullerNum := Function.update s.waitingToPullerNum id (s.waitingToPullerNum id + 1)
  { s with
    waitingToPullerNum := waitingToPullerNum
    waitingToPull :=
      if minNum conf.packetCnt totNum waitingToPullerNum > s.waitingToPull then s.waitingToPull + 1
      else s.waitingToPull
    readers := Function.update s.readers id ⟨(s.readers id).i + 1, .waits⟩ }

/-- What is done with `multiplyTmp`, for helper `id`. -/
def accumulate (id : Nat) (pkt multiplyTmp : Buf) : Buf :=
  if id = 0 then memcpy pkt 0 multiplyTmp conf.packetSize
  else XORBuffers pkt multiplyTmp conf.packetSize

/-- A turn of the loop over the helpers in `requestorMulCompletion`. -/
def State.combine (s : State) (ecK j id : Nat) (coef : GF256) : State :=
  let multiplyTmp := RSUtil.multiply
    (memcpy s.multiplyTmp 0 (s.diskPkts3 s.pktId id) conf.packetSize) coef conf.packetSize
  { s with
    multiplyTmp := multiplyTmp
    diskPkts3 := Function.update s.diskPkts3 s.pktId (Function.update (s.diskPkts3 s.pktId) (ecK + j)
      (accumulate conf id (s.diskPkts3 s.pktId (ecK + j)) multiplyTmp))
    place := .combines j (id + 1) }

/-- `requestorMulCompletion` goes to job `j`, or to the next packet. -/
def State.goTo (s : State) (nj j : Nat) : State :=
  if j < nj then { s with place := .combines j 0 }
  else { s with pktId := s.pktId + 1, place := .waits }

/-- The next turn in two nested loops, of which the inner one has `nj` turns. -/
def next (nj : Nat) (pos : Nat × Nat) : Nat × Nat :=
  if pos.2 + 1 < nj then (pos.1, pos.2 + 1) else (pos.1 + 1, 0)

/-- One step of a `readThread`, of `requestorMulCompletion` or of `sendMulWorker`. -/
inductive Step (localIP ecK : Nat) (jobs : List ConvMulJob) (s : State) :
    Event Nat ListKey Msg → State → Prop where
  | pull {job : ConvMulJob} {id : Nat} {m : Msg} (hjob : reqJob localIP jobs = some job)
      (hid : id < ecK) (hplace : (s.readers id).place = .waits)
      (h : (s.readers id).i < conf.packetCnt) :
      Step localIP ecK jobs s (.pop localIP (.tmpId job.lostBlkName id) m)
        { s with readers := Function.update s.readers id ⟨(s.readers id).i, .got m⟩ }
  | store {id : Nat} {m : Msg} (hid : id < ecK) (hplace : (s.readers id).place = .got m) :
      Step localIP ecK jobs s .internal (s.store conf id m)
  -- the packet counter of the reader goes up after the memcpy, in a critical section of its own
  | count {id : Nat} (hid : id < ecK) (hplace : (s.readers id).place = .stored) :
      Step localIP ecK jobs s .internal (s.count conf ecK id)
  | wake (hplace : s.place = .waits) (hpkt : s.pktId < conf.packetCnt)
      (h : s.pktId < s.waitingToPull) :
      Step localIP ecK jobs s .internal (s.goTo jobs.length 0)
  | combine {j id : Nat} {job : ConvMulJob} (hplace : s.place = .combines j id) (hid : id < ecK)
      (hjob : jobs[j]? = some job) :
      Step localIP ecK jobs s .internal (s.combine conf ecK j id (job.coefs.getD id 0))
  -- `_waitingToSend` counts pairs of a packet and a job, so the sender can start between two jobs
  | notify {j : Nat} (hplace : s.place = .combines j ecK) :
      Step localIP ecK jobs s .internal
        ({ s with waitingToSend := s.waitingToSend + 1 }.goTo jobs.length (j + 1))
  | send {job : ConvMulJob} (hjob : jobs[s.sender.2]? = some job) (hpkt : s.sender.1 < conf.packetCnt)
      (h : s.sender.1 * jobs.length + s.sender.2 < s.waitingToSend)
      (hlog : ∀ i ≤ s.sender.1, (pktOutput i conf.packetCnt).isSome = true) :
      Step localIP ecK jobs s
        (.push localIP (.blk job.lostBlkName)
          (packet conf (s.diskPkts3 s.sender.1 (ecK + s.sender.2))))
        { s with sender := next jobs.length s.sender }

end Threads

/-! ## What the threads have done -/

section Invariant

variable (conf : PacketConfig) (localIP ecK : Nat) (jobs : List ConvMulJob)

/-- The list that the packets of helper `id` are popped from. -/
def pullKey (id : Nat) : ListKey :=
  .tmpId (((reqJob localIP jobs).map ConvMulJob.lostBlkName).getD []) id

/-- The packets popped for helper `id`. -/
def popped (es : List (Event Nat ListKey Msg)) (id : Nat) : List Msg :=
  Lists.popped localIP (pullKey localIP jobs id) es

-- `pkts` is what the helpers send: packet `p` of helper `id` is `pkts id p`
variable (pkts : Nat → Nat → Msg)

/-- What the helpers send is all that is popped. -/
def Feeds (es : List (Event Nat ListKey Msg)) : Prop :=
  ∀ id p m, (popped localIP jobs es id)[p]? = some m → m = pkts id p

/-- A buffer holds these bytes of a packet. -/
def Holds (pkt f : Buf) : Prop :=
  ∀ x : Int, 0 ≤ x → x < conf.packetSize → pkt x = f x

/-- The first `n` packets, each with its coefficient; `XORBuffers` stops at the last word. -/
def combination (coefs : List GF256) (p n : Nat) : Buf := fun x =>
  if x < (8 * (conf.packetSize / 8) : Nat) then
    (Finset.range n).sum fun id => coefs.getD id 0 * (pkts id p).str x
  else coefs.getD 0 0 * (pkts 0 p).str x

/-- A reading thread has popped and stored its packets one after the other, and counted them.  Its
column holds all that it has stored. -/
structure ReaderOk (id : Nat) (r : Reader) (num : Nat) (msgs : List Msg) (column : Nat → Buf) :
    Prop where
  counted : num = r.i
  le : r.i ≤ conf.packetCnt
  lt : r.place ≠ .waits → r.i < conf.packetCnt
  length : msgs.length = r.i + if r.place = .waits then 0 else 1
  got : ∀ m, r.place = .got m → m = pkts id r.i
  stored : ∀ p, p < r.i ∨ p = r.i ∧ r.place = .stored → Holds conf (column p) (pkts id p).str

/-- How many combinations are finished, where `requestorMulCompletion` is; and the packet it works
on has been passed by all readers. -/
def CompletionAt (pktId waitingToPull waitingToSend : Nat) (results : Nat → Nat → Buf) :
    CompletionPlace → Prop
  | .waits => waitingToSend = pktId * jobs.length
  | .combines j id => pktId < waitingToPull ∧ id ≤ ecK ∧
      waitingToSend = pktId * jobs.length + j ∧ ∃ job, jobs[j]? = some job ∧
        (0 < id → Holds conf (results pktId j) (combination conf pkts job.coefs pktId id))

/-- What is finished has been passed by all readers and is combined from all helpers. -/
structure CompletionOk (pktId waitingToPull waitingToSend : Nat) (place : CompletionPlace)
    (results : Nat → Nat → Buf) : Prop where
  le : pktId ≤ conf.packetCnt
  place : CompletionAt conf ecK jobs pkts pktId waitingToPull waitingToSend results place
  finished : ∀ p j job, jobs[j]? = some job → p * jobs.length + j < waitingToSend →
    p < waitingToPull ∧ Holds conf (results p j) (combination conf pkts job.coefs p ecK)

/-- The packet for position `c` of the loops over packets and jobs. -/
def result (c : Nat) : Option (Nat × ListKey × Msg) :=
  (jobs[c % jobs.length]?).map fun job => (localIP, .blk job.lostBlkName,
    packet conf (combination conf pkts job.coefs (c / jobs.length) ecK))

/-- What has been pushed was finished before. -/
structure SenderOk (sender : Nat × Nat) (waitingToSend : Nat)
    (pushes : List (Nat × ListKey × Msg)) : Prop where
  le : sender.1 * jobs.length + sender.2 ≤ waitingToSend
  lt : sender.2 = 0 ∨ sender.2 < jobs.length
  pushes : pushes.map some = (List.range (sender.1 * jobs.length + sender.2)).map
    (result conf localIP ecK jobs pkts)

/-- All threads together. -/
structure Requestor (es : List (Event Nat ListKey Msg)) (s : State) : Prop where
  readers : ∀ id < ecK, ReaderOk conf pkts id (s.readers id) (s.waitingToPullerNum id)
    (popped localIP jobs es id) fun p => s.diskPkts3 p id
  waitingToPull : s.waitingToPull = minNum conf.packetCnt ecK s.waitingToPullerNum
  completion : CompletionOk conf ecK jobs pkts s.pktId s.waitingToPull s.waitingToSend s.place
    fun p j => s.diskPkts3 p (ecK + j)
  sender : SenderOk conf localIP ecK jobs pkts s.sender s.waitingToSend (Lists.pushes es)

end Invariant

section Run

variable {conf : PacketConfig} {localIP ecK : Nat} {jobs : List ConvMulJob} {pkts : Nat → Nat → Msg}
  {es : List (Event Nat ListKey Msg)} {s s' : State}

theorem Feeds.of_append {e : Event Nat ListKey Msg} :
    Feeds localIP jobs pkts (es ++ [e]) → Feeds localIP jobs pkts es := by
  intro h id p m hm
  refine h id p m ?_
  rw [popped, Lists.popped_append]
  exact Lists.getElem?_of_isPrefix (List.prefix_append _ _) hm

theorem combination_succ {coefs : List GF256} {p n : Nat} {dst multiplyTmp : Buf}
    (hdst : 0 < n → Holds conf dst (combination conf pkts coefs p n))
    (htmp : Holds conf multiplyTmp fun x => coefs.getD n 0 * (pkts n p).str x) :
    Holds conf (accumulate conf n dst multiplyTmp) (combination conf pkts coefs p (n + 1)) := by
  intro x h0 hx
  rw [accumulate, combination]
  rcases Nat.eq_zero_or_pos n with rfl | hpos
  · -- the first helper overwrites the buffer
    rw [if_pos rfl, memcpy_of_mem (by omega), Int.sub_zero, htmp x h0 hx, Finset.sum_range_one,
      ite_self]
  · rw [if_neg hpos.ne', XORBuffers, hdst hpos x h0 hx, combination]
    by_cases hword : x < (8 * (conf.packetSize / 8) : Nat)
    · rw [if_pos ⟨h0, hword⟩, if_pos hword, if_pos hword, Finset.sum_range_succ, htmp x h0 hx]
    · rw [if_neg fun hboth => hword hboth.2, if_neg hword, if_neg hword]

/-! ## A reading thread -/

section Reader

variable {id num : Nat} {r : Reader} {msgs : List Msg} {column : Nat → Buf} {m : Msg}

theorem ReaderOk.pull (h : ReaderOk conf pkts id r num msgs column) (hplace : r.place = .waits)
    (hlt : r.i < conf.packetCnt) : m = pkts id r.i →
      ReaderOk conf pkts id ⟨r.i, .got m⟩ num (msgs ++ [m]) column := by
  intro hm
  constructor
  case counted => exact h.counted
  case le => exact h.le
  case lt => exact fun _ => hlt
  case length =>
    rw [List.length_append, List.length_singleton, h.length, hplace]
    rfl
  case got =>
    intro m' hm'
    cases hm'
    exact hm
  case stored =>
    intro p hp
    rcases hp with hold | ⟨-, hnever⟩
    · exact h.stored p (Or.inl hold)
    · cases hnever

theorem ReaderOk.store (h : ReaderOk conf pkts id r num msgs column) (hplace : r.place = .got m) :
    ReaderOk conf pkts id ⟨r.i, .stored⟩ num msgs
      (Function.update column r.i (memcpy (column r.i) 0 m.str conf.packetSize)) := by
  constructor
  case counted => exact h.counted
  case le => exact h.le
  case lt =>
    intro _
    exact h.lt (hplace ▸ fun hnever => nomatch hnever)
  case length =>
    rw [h.length, hplace]
    rfl
  case got => exact fun m' hnever => nomatch hnever
  case stored =>
    intro p hp x h0 hx
    by_cases hnew : p = r.i
    · have hmem : (0 : Int) ≤ x ∧ x < 0 + conf.packetSize := by omega
      rw [hnew, Function.update_self, memcpy_of_mem hmem, Int.sub_zero, h.got m hplace]
    · rw [Function.update_of_ne hnew]
      exact h.stored p (hp.imp_right fun hlast => absurd hlast.1 hnew) x h0 hx

theorem ReaderOk.count (h : ReaderOk conf pkts id r num msgs column) (hplace : r.place = .stored) :
    ReaderOk conf pkts id ⟨r.i + 1, .waits⟩ (num + 1) msgs column := by
  constructor
  case counted => exact congrArg (· + 1) h.counted
  case le => exact h.lt (hplace ▸ fun hnever => nomatch hnever)
  case lt => exact fun hne => absurd rfl hne
  case length =>
    rw [h.length, hplace]
    rfl
  case got => exact fun m' hnever => nomatch hnever
  case stored =>
    intro p hp
    refine h.stored p ?_
    rcases hp with hlt | ⟨-, hnever⟩
    · exact (Nat.lt_succ_iff_lt_or_eq.1 hlt).imp_right fun heq => ⟨heq, hplace⟩
    · cases hnever

end Reader

/-! ## The loops over packets and jobs -/

section Loops

variable {pktId waitingToPull waitingToPull' waitingToSend waitingToSend' j id : Nat}
  {place : CompletionPlace} {results : Nat → Nat → Buf} {job : ConvMulJob}

theorem position_div {n p j : Nat} : j < n → (p * n + j) / n = p := by
  intro hj
  rw [Nat.mul_comm, Nat.mul_add_div (Nat.zero_lt_of_lt hj), Nat.div_eq_of_lt hj, Nat.add_zero]

theorem position_mod {n p j : Nat} : j < n → (p * n + j) % n = j := by
  intro hj
  rw [Nat.mul_comm, Nat.mul_add_mod, Nat.mod_eq_of_lt hj]

theorem position_inj {n p p' j j' : Nat} (hj : j < n) (hj' : j' < n) :
    p * n + j = p' * n + j' → p = p' ∧ j = j' := by
  intro heq
  constructor
  · rw [← position_div (p := p) hj, heq, position_div hj']
  · rw [← position_mod (p := p) hj, heq, position_mod hj']

theorem lt_length_of_job (hjob : jobs[j]? = some job) : j < jobs.length :=
  (List.getElem?_eq_some_iff.1 hjob).1

theorem CompletionOk.mono (h : CompletionOk conf ecK jobs pkts pktId waitingToPull waitingToSend place
    results) : waitingToPull ≤ waitingToPull' →
      CompletionOk conf ecK jobs pkts pktId waitingToPull' waitingToSend place results := by
  intro hle
  refine ⟨h.le, ?_, fun p j job hjob hlt => ?_⟩
  · have hplace := h.place
    cases place with
    | waits => exact hplace
    | combines j id => exact ⟨hplace.1.trans_le hle, hplace.2⟩
  · exact ⟨(h.finished p j job hjob hlt).1.trans_le hle, (h.finished p j job hjob hlt).2⟩

/-- On to a job, or to the next packet. -/
theorem completionOk_goTo (hcnt : s.pktId < conf.packetCnt) (hpull : s.pktId < s.waitingToPull)
    (hsend : s.waitingToSend = s.pktId * jobs.length + j) (hj : j ≤ jobs.length)
    (hfinished : ∀ p j job, jobs[j]? = some job → p * jobs.length + j < s.waitingToSend →
      p < s.waitingToPull ∧
        Holds conf (s.diskPkts3 p (ecK + j)) (combination conf pkts job.coefs p ecK)) :
    CompletionOk conf ecK jobs pkts (s.goTo jobs.length j).pktId s.waitingToPull s.waitingToSend
      (s.goTo jobs.length j).place fun p j => s.diskPkts3 p (ecK + j) := by
  unfold State.goTo
  by_cases hlt : j < jobs.length
  · rw [if_pos hlt]
    refine ⟨hcnt.le, ?_, hfinished⟩
    exact ⟨hpull, Nat.zero_le _, hsend, jobs[j], List.getElem?_eq_getElem hlt,
      fun h0 => absurd h0 (Nat.lt_irrefl 0)⟩
  · rw [if_neg hlt]
    refine ⟨hcnt, ?_, hfinished⟩
    show s.waitingToSend = (s.pktId + 1) * jobs.length
    rw [hsend, hj.antisymm (not_lt.1 hlt), Nat.succ_mul]

theorem CompletionOk.combine (h : CompletionOk conf ecK jobs pkts pktId waitingToPull waitingToSend
    (.combines j id) results) (hid : id < ecK) (hjob : jobs[j]? = some job) {pkt : Buf}
    (hpkt : (0 < id → Holds conf (results pktId j) (combination conf pkts job.coefs pktId id)) →
      Holds conf pkt (combination conf pkts job.coefs pktId (id + 1))) :
    CompletionOk conf ecK jobs pkts pktId waitingToPull waitingToSend (.combines j (id + 1))
      (Function.update results pktId (Function.update (results pktId) j pkt)) := by
  rcases h.place with ⟨hpull, -, hsend, job', hjob', hpart⟩
  cases Option.some.inj (hjob.symm.trans hjob')
  refine ⟨h.le, ⟨hpull, hid, hsend, job, hjob, fun _ => ?_⟩, fun p' j' job' hjob' hlt => ?_⟩
  · rw [Function.update_self, Function.update_self]
    exact hpkt hpart
  · have hold := h.finished p' j' job' hjob' hlt
    refine ⟨hold.1, ?_⟩
    by_cases hp : p' = pktId
    · -- another job of the same packet
      have hj : j' ≠ j := by
        rintro rfl
        rw [hp, hsend] at hlt
        exact absurd hlt (Nat.lt_irrefl _)
      rw [hp, Function.update_self, Function.update_of_ne hj, ← hp]
      exact hold.2
    · rw [Function.update_of_ne hp]
      exact hold.2

/-- One combination more is finished. -/
theorem CompletionOk.finished_succ (h : CompletionOk conf ecK jobs pkts pktId waitingToPull
    waitingToSend (.combines j ecK) results) (hecK : 0 < ecK) (p j' : Nat) (job' : ConvMulJob)
    (hjob' : jobs[j']? = some job') : p * jobs.length + j' < waitingToSend + 1 →
      p < waitingToPull ∧ Holds conf (results p j') (combination conf pkts job'.coefs p ecK) := by
  intro hlt
  rcases h.place with ⟨hpull, -, hsend, job, hjob, hpart⟩
  rcases Nat.lt_succ_iff_lt_or_eq.1 hlt with hold | hnew
  · exact h.finished p j' job' hjob' hold
  · rw [hsend] at hnew
    rcases position_inj (lt_length_of_job hjob') (lt_length_of_job hjob) hnew with ⟨rfl, rfl⟩
    cases Option.some.inj (hjob.symm.trans hjob')
    exact ⟨hpull, hpart hecK⟩

theorem SenderOk.mono {sender : Nat × Nat} {pushes : List (Nat × ListKey × Msg)}
    (h : SenderOk conf localIP ecK jobs pkts sender waitingToSend pushes) :
    waitingToSend ≤ waitingToSend' →
      SenderOk conf localIP ecK jobs pkts sender waitingToSend' pushes :=
  fun hle => ⟨h.le.trans hle, h.lt, h.pushes⟩

theorem SenderOk.send {sender : Nat × Nat} {pushes : List (Nat × ListKey × Msg)}
    (h : SenderOk conf localIP ecK jobs pkts sender waitingToSend pushes)
    (hlt : sender.1 * jobs.length + sender.2 < waitingToSend)
    (hjob : jobs[sender.2]? = some job) {pkt : Buf} :
    Holds conf pkt (combination conf pkts job.coefs sender.1 ecK) →
      SenderOk conf localIP ecK jobs pkts (next jobs.length sender) waitingToSend
        (pushes ++ [(localIP, .blk job.lostBlkName, packet conf pkt)]) := by
  intro hpkt
  have hj := lt_length_of_job hjob
  have hpos : (next jobs.length sender).1 * jobs.length + (next jobs.length sender).2 =
      sender.1 * jobs.length + sender.2 + 1 := by
    unfold next
    split
    · rfl
    · show (sender.1 + 1) * jobs.length + 0 = _
      rw [Nat.succ_mul]
      omega
  have hresult : result conf localIP ecK jobs pkts (sender.1 * jobs.length + sender.2) =
      some (localIP, .blk job.lostBlkName, packet conf pkt) := by
    rw [result, position_mod hj, position_div hj, hjob, Option.map_some, packet, packet,
      bytesOf_congr hpkt]
  constructor
  case le => exact hpos.trans_le hlt
  case lt =>
    unfold next
    split
    · exact Or.inr ‹_›
    · exact Or.inl rfl
  case pushes =>
    rw [hpos, List.range_succ, List.map_append, List.map_append, h.pushes, List.map_singleton,
      List.map_singleton, hresult]

end Loops

/-! ## All threads -/

section Step

variable {id : Nat} {job : ConvMulJob} {m : Msg}

@[simp] theorem goTo_diskPkts3 (s : State) (nj j : Nat) : (s.goTo nj j).diskPkts3 = s.diskPkts3 := by
  unfold State.goTo
  split <;> rfl

@[simp] theorem goTo_readers (s : State) (nj j : Nat) : (s.goTo nj j).readers = s.readers := by
  unfold State.goTo
  split <;> rfl

@[simp] theorem goTo_waitingToPullerNum (s : State) (nj j : Nat) :
    (s.goTo nj j).waitingToPullerNum = s.waitingToPullerNum := by
  unfold State.goTo
  split <;> rfl

@[simp] theorem goTo_waitingToPull (s : State) (nj j : Nat) :
    (s.goTo nj j).waitingToPull = s.waitingToPull := by
  unfold State.goTo
  split <;> rfl

@[simp] theorem goTo_waitingToSend (s : State) (nj j : Nat) :
    (s.goTo nj j).waitingToSend = s.waitingToSend := by
  unfold State.goTo
  split <;> rfl

@[simp] theorem goTo_sender (s : State) (nj j : Nat) : (s.goTo nj j).sender = s.sender := by
  unfold State.goTo
  split <;> rfl

/-- A buffer of column `c` is written. -/
theorem column_self (D : Nat → Nat → Buf) (i c : Nat) (b : Buf) :
    (fun p => Function.update D i (Function.update (D i) c b) p c) =
      Function.update (fun p => D p c) i b := by
  funext p
  by_cases hp : p = i
  · rw [hp, Function.update_self, Function.update_self, Function.update_self]
  · rw [Function.update_of_ne hp, Function.update_of_ne hp]

/-- The other columns stay. -/
theorem column_of_ne (D : Nat → Nat → Buf) (i : Nat) {c c' : Nat} (b : Buf) (hne : c' ≠ c) (p : Nat) :
    Function.update D i (Function.update (D i) c b) p c' = D p c' := by
  by_cases hp : p = i
  · rw [hp, Function.update_self, Function.update_of_ne hne]
  · rw [Function.update_of_ne hp]

/-- A buffer for results is written. -/
theorem results_update (D : Nat → Nat → Buf) (i k j : Nat) (b : Buf) :
    (fun p j' => Function.update D i (Function.update (D i) (k + j) b) p (k + j')) =
      Function.update (fun p j' => D p (k + j')) i
        (Function.update (fun j' => D i (k + j')) j b) := by
  funext p j'
  by_cases hp : p = i
  · rw [hp, Function.update_self, Function.update_self]
    by_cases hj : j' = j
    · rw [hj, Function.update_self, Function.update_self]
    · rw [Function.update_of_ne hj, Function.update_of_ne fun h => hj (Nat.add_left_cancel h)]
  · rw [Function.update_of_ne hp, Function.update_of_ne hp]

theorem pullKey_eq (hjob : reqJob localIP jobs = some job) (id : Nat) :
    pullKey localIP jobs id = .tmpId job.lostBlkName id := by
  rw [pullKey, hjob, Option.map_some, Option.getD_some]

/-- The packets of a helper are popped in order. -/
theorem popped_pop_self (hjob : reqJob localIP jobs = some job) :
    popped localIP jobs (es ++ [.pop localIP (.tmpId job.lostBlkName id) m]) id =
      popped localIP jobs es id ++ [m] := by
  rw [popped, popped, Lists.popped_append, pullKey_eq hjob, Lists.popped_pop_self]

theorem popped_pop_of_ne (hjob : reqJob localIP jobs = some job) {id' : Nat} : id' ≠ id →
    popped localIP jobs (es ++ [.pop localIP (.tmpId job.lostBlkName id) m]) id' =
      popped localIP jobs es id' := by
  intro hne
  rw [popped, popped, Lists.popped_append, pullKey_eq hjob, Lists.popped_pop_of_ne, List.append_nil]
  rintro ⟨-, heq⟩
  injection heq with _ hid
  exact hne hid.symm

theorem popped_internal : popped localIP jobs (es ++ [.internal]) = popped localIP jobs es := by
  funext id
  rw [popped, popped, Lists.popped_append]
  exact List.append_nil _

theorem pushes_internal : Lists.pushes (es ++ [.internal]) = Lists.pushes es := by
  rw [Lists.pushes_append]
  exact List.append_nil _

/-- The counter that is raised by one is assigned the least. -/
theorem count_waitingToPull {totNum : Nat}
    (h : s.waitingToPull = minNum conf.packetCnt totNum s.waitingToPullerNum) (id : Nat) :
    (s.count conf totNum id).waitingToPull =
      minNum conf.packetCnt totNum (s.count conf totNum id).waitingToPullerNum := by
  have hmore := PPRPull.minNum_update conf.packetCnt totNum s.waitingToPullerNum id
  rw [← h] at hmore
  show (if _ > s.waitingToPull then _ else _) = _
  split
  · exact Nat.le_antisymm ‹_› hmore.2
  · exact hmore.1.antisymm (not_lt.1 ‹_›)

theorem Requestor.pull (h : Requestor conf localIP ecK jobs pkts es s)
    (hjob : reqJob localIP jobs = some job) (hplace : (s.readers id).place = .waits)
    (hlt : (s.readers id).i < conf.packetCnt) (hid : id < ecK) :
    Feeds localIP jobs pkts (es ++ [.pop localIP (.tmpId job.lostBlkName id) m]) →
      Requestor conf localIP ecK jobs pkts (es ++ [.pop localIP (.tmpId job.lostBlkName id) m])
        { s with readers := Function.update s.readers id ⟨(s.readers id).i, .got m⟩ } := by
  intro hfeeds
  constructor
  case readers =>
    intro id' hid'
    by_cases hn : id' = id
    · subst hn
      have hold := h.readers id' hid'
      have hlength : (popped localIP jobs es id').length = (s.readers id').i := by
        rw [hold.length, if_pos hplace, Nat.add_zero]
      have hm : m = pkts id' (s.readers id').i := by
        refine hfeeds id' _ m ?_
        rw [popped_pop_self hjob, ← hlength, List.getElem?_concat_length]
      rw [popped_pop_self hjob]
      simp only [Function.update_self]
      exact hold.pull hplace hlt hm
    · rw [popped_pop_of_ne hjob hn]
      simp only [Function.update_of_ne hn]
      exact h.readers id' hid'
  case waitingToPull => exact h.waitingToPull
  case completion => exact h.completion
  case sender =>
    rw [Lists.pushes_append]
    exact (List.append_nil (Lists.pushes es)).symm ▸ h.sender

theorem Requestor.store (h : Requestor conf localIP ecK jobs pkts es s) (hid : id < ecK)
    (hplace : (s.readers id).place = .got m) :
    Requestor conf localIP ecK jobs pkts (es ++ [.internal]) (s.store conf id m) := by
  constructor
  case readers =>
    intro id' hid'
    rw [popped_internal]
    have hold := h.readers id' hid'
    by_cases hn : id' = id
    · subst hn
      simp only [State.store, Function.update_self, column_self]
      exact hold.store hplace
    · simp only [State.store, Function.update_of_ne hn, column_of_ne _ _ _ hn]
      exact hold
  case waitingToPull => exact h.waitingToPull
  case completion =>
    have hne : ∀ j, ecK + j ≠ id := fun j => by omega
    simp only [State.store, column_of_ne _ _ _ (hne _)]
    exact h.completion
  case sender =>
    rw [pushes_internal]
    exact h.sender

theorem Requestor.count (h : Requestor conf localIP ecK jobs pkts es s)
    (hplace : (s.readers id).place = .stored) :
    Requestor conf localIP ecK jobs pkts (es ++ [.internal]) (s.count conf ecK id) := by
  have hpull := count_waitingToPull h.waitingToPull id
  constructor
  case readers =>
    intro id' hid'
    rw [popped_internal]
    have hold := h.readers id' hid'
    by_cases hn : id' = id
    · subst hn
      simp only [State.count, Function.update_self]
      exact hold.count hplace
    · simp only [State.count, Function.update_of_ne hn]
      exact hold
  case waitingToPull => exact hpull
  case completion =>
    refine h.completion.mono ?_
    rw [hpull, h.waitingToPull]
    exact (PPRPull.minNum_update _ _ s.waitingToPullerNum id).1
  case sender =>
    rw [pushes_internal]
    exact h.sender

/-- What is in reach of `requestorMulCompletion` has been counted and stored by all readers. -/
theorem Requestor.stored (h : Requestor conf localIP ecK jobs pkts es s) (hid : id < ecK) {p : Nat} :
    p < s.waitingToPull →
      p < s.waitingToPullerNum id ∧ Holds conf (s.diskPkts3 p id) (pkts id p).str := by
  intro hp
  have hreader := h.readers id hid
  have hcount : p < s.waitingToPullerNum id := by
    rw [h.waitingToPull] at hp
    exact hp.trans_le (PPRPull.minNum_le hid)
  exact ⟨hcount, hreader.stored p (Or.inl (hreader.counted ▸ hcount))⟩

theorem Requestor.lt_packetCnt (h : Requestor conf localIP ecK jobs pkts es s) {p : Nat} :
    p < s.waitingToPull → p < conf.packetCnt := by
  intro hp
  rw [h.waitingToPull] at hp
  exact hp.trans_le (PPRPull.le_minNum.1 (Nat.le_refl _)).1

/-- A move of `requestorMulCompletion` that leaves the columns of the readers alone. -/
theorem Requestor.of_completion (h : Requestor conf localIP ecK jobs pkts es s)
    (hreaders : s'.readers = s.readers) (hnum : s'.waitingToPullerNum = s.waitingToPullerNum)
    (hpull : s'.waitingToPull = s.waitingToPull) (hsender : s'.sender = s.sender)
    (hsend : s.waitingToSend ≤ s'.waitingToSend)
    (hcolumn : ∀ id < ecK, ∀ p, s'.diskPkts3 p id = s.diskPkts3 p id) :
    CompletionOk conf ecK jobs pkts s'.pktId s'.waitingToPull s'.waitingToSend s'.place
        (fun p j => s'.diskPkts3 p (ecK + j)) →
      Requestor conf localIP ecK jobs pkts (es ++ [.internal]) s' := by
  intro hcompletion
  constructor
  case readers =>
    intro id hid
    simp only [hreaders, hnum, popped_internal, hcolumn id hid]
    exact h.readers id hid
  case waitingToPull => rw [hpull, hnum, h.waitingToPull]
  case completion => exact hcompletion
  case sender =>
    rw [pushes_internal, hsender]
    exact h.sender.mono hsend

theorem Requestor.wake (h : Requestor conf localIP ecK jobs pkts es s) (hplace : s.place = .waits)
    (hpkt : s.pktId < conf.packetCnt) : s.pktId < s.waitingToPull →
      Requestor conf localIP ecK jobs pkts (es ++ [.internal]) (s.goTo jobs.length 0) := by
  intro hlt
  have hat := h.completion.place
  rw [hplace] at hat
  refine h.of_completion (goTo_readers s _ _) (goTo_waitingToPullerNum s _ _)
    (goTo_waitingToPull s _ _) (goTo_sender s _ _) (goTo_waitingToSend s _ _).ge
    (fun id _ p => by rw [goTo_diskPkts3]) ?_
  rw [goTo_waitingToPull, goTo_waitingToSend, goTo_diskPkts3]
  exact completionOk_goTo hpkt hlt hat (Nat.zero_le _) h.completion.finished

theorem Requestor.notify (h : Requestor conf localIP ecK jobs pkts es s) (hecK : 0 < ecK) {j : Nat}
    (hplace : s.place = .combines j ecK) :
    Requestor conf localIP ecK jobs pkts (es ++ [.internal])
      ({ s with waitingToSend := s.waitingToSend + 1 }.goTo jobs.length (j + 1)) := by
  have hcompletion := h.completion
  rw [hplace] at hcompletion
  rcases hcompletion.place with ⟨hpull, -, hsend, job, hjob, -⟩
  refine h.of_completion (goTo_readers _ _ _) (goTo_waitingToPullerNum _ _ _)
    (goTo_waitingToPull _ _ _) (goTo_sender _ _ _) ?_ (fun id _ p => by rw [goTo_diskPkts3]) ?_
  · rw [goTo_waitingToSend]
    exact Nat.le_succ _
  · rw [goTo_waitingToPull, goTo_waitingToSend, goTo_diskPkts3]
    refine completionOk_goTo (h.lt_packetCnt hpull) hpull ?_ (lt_length_of_job hjob)
      (hcompletion.finished_succ hecK)
    show s.waitingToSend + 1 = _
    rw [hsend, Nat.add_assoc]

theorem Requestor.combine (h : Requestor conf localIP ecK jobs pkts es s) {j : Nat}
    (hplace : s.place = .combines j id) (hid : id < ecK) (hjob : jobs[j]? = some job) :
    Requestor conf localIP ecK jobs pkts (es ++ [.internal])
      (s.combine conf ecK j id (job.coefs.getD id 0)) := by
  have hcompletion := h.completion
  rw [hplace] at hcompletion
  have hpull := hcompletion.place.1
  refine h.of_completion rfl rfl rfl rfl (Nat.le_refl _) (fun id' hid' p => ?_) ?_
  · exact column_of_ne _ _ _ (by omega) p
  · simp only [State.combine, results_update]
    refine hcompletion.combine hid hjob fun hpart => combination_succ hpart fun x h0 hx => ?_
    -- the buffer for products is overwritten
    have hmem : (0 : Int) ≤ x ∧ x < 0 + conf.packetSize := by omega
    rw [RSUtil.multiply, if_pos ⟨h0, hx⟩, memcpy_of_mem hmem, Int.sub_zero,
      (h.stored hid hpull).2 x h0 hx]

theorem Requestor.send (h : Requestor conf localIP ecK jobs pkts es s)
    (hjob : jobs[s.sender.2]? = some job) :
    s.sender.1 * jobs.length + s.sender.2 < s.waitingToSend →
      Requestor conf localIP ecK jobs pkts
        (es ++ [.push localIP (.blk job.lostBlkName)
          (packet conf (s.diskPkts3 s.sender.1 (ecK + s.sender.2)))])
        { s with sender := next jobs.length s.sender } := by
  intro hlt
  constructor
  case readers =>
    intro id hid
    have hpopped : popped localIP jobs (es ++ [.push localIP (.blk job.lostBlkName)
        (packet conf (s.diskPkts3 s.sender.1 (ecK + s.sender.2)))]) id =
          popped localIP jobs es id := by
      rw [popped, popped, Lists.popped_append]
      exact List.append_nil _
    rw [hpopped]
    exact h.readers id hid
  case waitingToPull => exact h.waitingToPull
  case completion => exact h.completion
  case sender =>
    rw [Lists.pushes_append]
    exact h.sender.send hlt hjob (h.completion.finished _ _ _ hjob hlt).2

theorem Requestor.step (h : Requestor conf localIP ecK jobs pkts es s) (hecK : 0 < ecK)
    {e : Event Nat ListKey Msg} (hstep : Step conf localIP ecK jobs s e s') :
    Feeds localIP jobs pkts (es ++ [e]) → Requestor conf localIP ecK jobs pkts (es ++ [e]) s' := by
  intro hfeeds
  cases hstep with
  | pull hjob hid hplace hlt => exact h.pull hjob hplace hlt hid hfeeds
  | store hid hplace => exact h.store hid hplace
  | count hid hplace => exact h.count hplace
  | wake hplace hpkt hlt => exact h.wake hplace hpkt hlt
  | combine hplace hid hjob => exact h.combine hplace hid hjob
  | notify hplace => exact h.notify hecK hplace
  | send hjob hpkt hlt hlog => exact h.send hjob hlt

theorem requestor_init (hecK : 0 < ecK) :
    Requestor conf localIP ecK jobs pkts [] State.init := by
  constructor
  case readers =>
    intro id hid
    exact
      { counted := rfl
        le := Nat.zero_le _
        lt := fun hne => absurd rfl hne
        length := rfl
        got := fun m hnever => nomatch hnever
        stored := fun p hp => by
          rcases hp with hlt | ⟨-, hnever⟩
          · exact absurd hlt (Nat.not_lt_zero p)
          · cases hnever }
  case waitingToPull =>
    refine (Nat.le_zero.1 ?_).symm
    exact PPRPull.minNum_le hecK
  case completion =>
    refine ⟨Nat.zero_le _, (Nat.zero_mul _).symm, fun p j job _ hlt => ?_⟩
    exact absurd hlt (Nat.not_lt_zero _)
  case sender =>
    refine ⟨?_, Or.inl rfl, ?_⟩
    · exact (Nat.zero_mul _).le
    · show [] = (List.range (0 * jobs.length + 0)).map _
      rw [Nat.zero_mul]
      rfl

/-- What the threads have done, in every order of their steps. -/
theorem requestor_of_runs (hecK : 0 < ecK) (hruns : Lists.LocalRuns (Step conf localIP ecK jobs)
    State.init es s) :
    Feeds localIP jobs pkts es → Requestor conf localIP ecK jobs pkts es s := by
  intro hfeeds
  induction hruns with
  | refl => exact requestor_init hecK
  | snoc _ hstep ih => exact (ih hfeeds.of_append).step hecK hstep hfeeds

end Step

end Run

end ConvDR

end CoRD
