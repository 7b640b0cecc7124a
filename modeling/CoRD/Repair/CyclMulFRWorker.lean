import CoRD.Network.Lists
import CoRD.Repair.CyclSchedule
import CoRD.Repair.DRWorker
import CoRD.Repair.JobBatch

/-!
# CyclMulFRWorker — the helpers of a cyclic repair

With the last command of a batch a helper starts three threads.  The reader reads and scales the
slices of all jobs, the puller takes the partial sums of the helper before and xors them in, and
both append the positions that are ready to one array, `_toSendIds`, under a lock.  The sender goes
through the packets and in each packet through the jobs, and takes for job `j` of packet `i` what is
in slot `i * nj + j`.

The array does not say for which job a position was appended.  So a position is sent for its own job
only if it was appended to a slot of that job, which one job always does and several jobs need not.

The main thread allocates the array when the reader and the sender are running already, and the
reader builds the tables when the puller is running.  Only the orders are followed in which both
are there when they are first used.  A thread that waits may look at its condition again at any
time, and a `BLPOP` takes its message when its reply is read, as each list has one consumer.
-/

namespace CoRD

namespace CyclMul

open Cycl
open Lists (Event)

/-- What is pushed: the bytes of a slice, and behind them its id. -/
structure Slice where
  bytes : List GF256
  sliId : Nat
  deriving DecidableEq

/-- What a helper sees at `rReply -> element[1] -> str`. -/
def Slice.str (m : Slice) : Buf :=
  fun x => m.bytes.getD x.toNat 0

/-- The memory of a slice. -/
structure DiskPkt where
  content : Buf
  sliId : Nat

/-- A position in one of the queues.  The code keeps the position only; the job is the one that it
was appended for. -/
structure Entry where
  job : Nat
  pktId : Nat
  deriving DecidableEq

/-- Where `readerMul` is.  Its loop over packets and jobs is counted in one number,
`n = pktId * nj + j`. -/
inductive Reader where
  | tables
  | read (n : Nat)
  | offer (n : Nat)
  | comp
  | done
  deriving DecidableEq

/-- Where `pullerMul` is, counted in the same way. -/
inductive Puller where
  | get (n : Nat)
  | xor (n pktId : Nat) (m : Slice)
  | append (n pktId : Nat)
  deriving DecidableEq

/-- The members that the threads share, and where the threads are.  The last two fields are kept
for the record: what was xored in, and what was sent. -/
structure State where
  allocated : Bool
  diskPktsMul : Nat → Nat → DiskPkt
  readCnt : Nat
  toSendIds : List Entry
  tmpQueue : List Entry
  tmpQueueRear : Nat
  reader : Reader
  puller : Puller
  sender : Nat
  xored : List (Entry × Slice)
  sent : List Entry

/-- A batch that is about to start its threads. -/
def State.init : State where
  allocated := false
  diskPktsMul := fun _ _ => { content := zeros, sliId := 0 }
  readCnt := 0
  toSendIds := []
  tmpQueue := []
  tmpQueueRear := 0
  reader := .tables
  puller := .get 0
  sender := 0
  xored := []
  sent := []

/-- A position goes from the queue of the reader to the sender. -/
def State.dequeue (s : State) (e : Entry) : State :=
  { s with toSendIds := s.toSendIds ++ [e], tmpQueueRear := s.tmpQueueRear + 1 }

/-- A job that is not there. -/
def noJob : PipeMulJob where
  ecK := 0
  reqIP := 0
  prevIP := 0
  nextIP := 0
  id := 0
  coefficient := 0
  lostBlkName := []
  localBlkName := []

section Threads

-- `confK` is the configured `_ecK`, by which `readerMul` slows down; `ecK` comes with the commands
variable (conf : PacketConfig) (confK ecK : Nat) (blkDir : Str → Buf) (localIP : Nat)
  (jobs : List PipeMulJob)

/-- The slots of the array. -/
def total : Nat := conf.packetCnt * jobs.length

def job (j : Nat) : PipeMulJob := jobs.getD j noJob

/-- A position of the job with number `n`. -/
def entryOf (n pktId : Nat) : Entry where
  job := n % jobs.length
  pktId := pktId

/-- The packet and job with number `n`. -/
def entryAt (n : Nat) : Entry := entryOf jobs n (n / jobs.length)

def IsStarted (e : Entry) : Prop := Started conf.packetCnt ecK (job jobs e.job).id e.pktId

instance (e : Entry) : Decidable (IsStarted conf ecK jobs e) :=
  inferInstanceAs (Decidable (Started _ _ _ _))

def IsPulled (e : Entry) : Prop := Pulled conf.packetCnt ecK (job jobs e.job).id e.pktId

instance (e : Entry) : Decidable (IsPulled conf ecK jobs e) :=
  inferInstanceAs (Decidable (Pulled _ _ _ _))

/-- The tables of a job. -/
def jobTables (j : Nat) : Tables := tables conf.packetCnt (ecK - 1) (job jobs j).id

/-- A slice as it is read and scaled. -/
def readPkt (e : Entry) : DiskPkt :=
  let sliId := (jobTables conf ecK jobs e.job).pkt2sli.getD e.pktId 0
  let content := readPacketFromDisk (blkDir (job jobs 0).localBlkName) zeros conf.packetSize
    (sliId * conf.packetSize)
  { content := RSUtil.multiply content (job jobs e.job).coefficient conf.packetSize
    sliId := sliId }

/-- Xoring what came from the helper before. -/
def xorPkt (m : Slice) (d : DiskPkt) : DiskPkt :=
  { d with content := XORBuffers d.content m.str conf.packetSize }

/-- The memory of one slice is changed. -/
def State.setPkt (s : State) (e : Entry) (d : DiskPkt) : State :=
  { s with
    diskPktsMul := Function.update s.diskPktsMul e.job
      (Function.update (s.diskPktsMul e.job) e.pktId d) }

/-- The list for a position of a job. -/
def sendKey (e : Entry) : ListKey :=
  if Last conf.packetCnt ecK (job jobs e.job).id e.pktId then .blk (job jobs e.job).lostBlkName
  else .tmp (job jobs e.job).lostBlkName

/-- What is pushed for a job from the memory of a position. -/
def slice (s : State) (e : Entry) : Slice where
  bytes := bytesOf (s.diskPktsMul e.job e.pktId).content conf.packetSize
  sliId := (s.diskPktsMul e.job e.pktId).sliId

/-- One step of one of the threads of a batch. -/
inductive Step (s : State) : Event Nat ListKey Slice → State → Prop where
  | allocate (h : s.allocated = false) : Step s .internal { s with allocated := true }
  | tables (h : s.reader = .tables) : Step s .internal { s with reader := .read 0 }
  | read {n : Nat} (h : s.reader = .read n) (hn : n < total conf jobs)
      (hlog : (pktOutput (entryAt jobs n).pktId conf.packetCnt).isSome = true) :
      Step s .internal
        { s.setPkt (entryAt jobs n) (readPkt conf ecK blkDir jobs (entryAt jobs n)) with
          readCnt := s.readCnt + 1
          reader := .offer n }
  | readAll {n : Nat} (h : s.reader = .read n) (hn : total conf jobs ≤ n) :
      Step s .internal { s with reader := .comp }
  | skip {n : Nat} (h : s.reader = .offer n) (hnot : ¬ IsStarted conf ecK jobs (entryAt jobs n)) :
      Step s .internal { s with reader := .read (n + 1) }
  -- the window is full: the packet stays in `tmpQueue`
  | keep {n : Nat} (h : s.reader = .offer n) (hstart : IsStarted conf ecK jobs (entryAt jobs n))
      (hslow : s.toSendIds.length / (confK - 1) + 3 < s.tmpQueueRear) :
      Step s .internal
        { s with tmpQueue := s.tmpQueue ++ [entryAt jobs n], reader := .read (n + 1) }
  -- the front of `tmpQueue` goes out, which need not be the packet just put in
  | offer {n : Nat} {e : Entry} (h : s.reader = .offer n)
      (hstart : IsStarted conf ecK jobs (entryAt jobs n))
      (hslow : s.tmpQueueRear ≤ s.toSendIds.length / (confK - 1) + 3) (halloc : s.allocated = true)
      (he : (s.tmpQueue ++ [entryAt jobs n])[s.tmpQueueRear]? = some e) :
      Step s .internal
        { s.dequeue e with tmpQueue := s.tmpQueue ++ [entryAt jobs n], reader := .read (n + 1) }
  -- after the last packet the window is wider, and the loop runs until `tmpQueue` is empty
  | comp {e : Entry} (h : s.reader = .comp)
      (hslow : s.tmpQueueRear ≤ s.toSendIds.length / (confK - 1) + 10)
      (halloc : s.allocated = true) (he : s.tmpQueue[s.tmpQueueRear]? = some e) :
      Step s .internal (s.dequeue e)
  | finish (h : s.reader = .comp) (hrear : s.tmpQueue.length ≤ s.tmpQueueRear) :
      Step s .internal { s with reader := .done }
  | own {n : Nat} (h : s.puller = .get n) (hn : n < total conf jobs)
      (hnot : ¬ IsPulled conf ecK jobs (entryAt jobs n)) :
      Step s .internal { s with puller := .get (n + 1) }
  | pop {n : Nat} {m : Slice} (h : s.puller = .get n) (hn : n < total conf jobs)
      (hpull : IsPulled conf ecK jobs (entryAt jobs n)) (htables : s.reader ≠ .tables) :
      Step s
        (.pop (job jobs (n % jobs.length)).prevIP (.tmp (job jobs (n % jobs.length)).lostBlkName) m)
        { s with
          puller := .xor n ((jobTables conf ecK jobs (n % jobs.length)).sli2pkt m.sliId) m }
  -- the slice number at the end of the message names the packet, not the order of arrival
  | xor {n pktId : Nat} {m : Slice} (h : s.puller = .xor n pktId m)
      (hread : pktId * jobs.length + n % jobs.length < s.readCnt)
      (hlog : (pktOutput pktId conf.packetCnt).isSome = true) :
      Step s .internal
        { s.setPkt (entryOf jobs n pktId)
            (xorPkt conf m (s.diskPktsMul (n % jobs.length) pktId)) with
          puller := .append n pktId
          xored := s.xored ++ [(entryOf jobs n pktId, m)] }
  | append {n pktId : Nat} (h : s.puller = .append n pktId) (halloc : s.allocated = true) :
      Step s .internal
        { s with
          toSendIds := s.toSendIds ++ [entryOf jobs n pktId]
          puller := .get (n + 1) }
  | send {e : Entry} (hn : s.sender < total conf jobs) (he : s.toSendIds[s.sender]? = some e) :
      Step s
        (.push localIP (sendKey conf ecK jobs (entryOf jobs s.sender e.pktId))
          (slice conf s (entryOf jobs s.sender e.pktId)))
        { s with sender := s.sender + 1, sent := s.sent ++ [entryOf jobs s.sender e.pktId] }

/-- Who takes a turn: the main thread, the reader, the puller that is given a slice if it asks for
one, or the sender. -/
inductive Turn where
  | main
  | reader
  | puller (m : Slice)
  | sender

/-- A step of `readerMul`. -/
def readerTurn (s : State) : Option State :=
  match s.reader with
  | .tables => some { s with reader := .read 0 }
  | .read n =>
      if n < total conf jobs then
        if (pktOutput (entryAt jobs n).pktId conf.packetCnt).isSome then
          some { s.setPkt (entryAt jobs n) (readPkt conf ecK blkDir jobs (entryAt jobs n)) with
            readCnt := s.readCnt + 1
            reader := .offer n }
        else none
      else some { s with reader := .comp }
  | .offer n =>
      if IsStarted conf ecK jobs (entryAt jobs n) then
        if s.tmpQueueRear ≤ s.toSendIds.length / (confK - 1) + 3 then
          match (s.tmpQueue ++ [entryAt jobs n])[s.tmpQueueRear]? with
          | some e =>
              -- `_toSendIds` is an array the main thread makes
              if s.allocated then
                some { s.dequeue e with
                  tmpQueue := s.tmpQueue ++ [entryAt jobs n]
                  reader := .read (n + 1) }
              else none
          | none => none
        else some { s with tmpQueue := s.tmpQueue ++ [entryAt jobs n], reader := .read (n + 1) }
      else some { s with reader := .read (n + 1) }
  | .comp =>
      match s.tmpQueue[s.tmpQueueRear]? with
      | some e =>
          if s.tmpQueueRear ≤ s.toSendIds.length / (confK - 1) + 10 ∧ s.allocated = true then
            some (s.dequeue e)
          else none
      | none => some { s with reader := .done }
  | .done => none

/-- A step of `pullerMul`. -/
def pullerTurn (m : Slice) (s : State) : Option (Event Nat ListKey Slice × State) :=
  match s.puller with
  | .get n =>
      if n < total conf jobs then
        if IsPulled conf ecK jobs (entryAt jobs n) then
          -- `_sli2pkt` is only there once `readerMul` has filled it
          if s.reader = .tables then none
          else
            some (.pop (job jobs (n % jobs.length)).prevIP
                (.tmp (job jobs (n % jobs.length)).lostBlkName) m,
              { s with
                puller := .xor n ((jobTables conf ecK jobs (n % jobs.length)).sli2pkt m.sliId) m })
        else some (.internal, { s with puller := .get (n + 1) })
      else none
  | .xor n pktId m =>
      if pktId * jobs.length + n % jobs.length < s.readCnt ∧
          (pktOutput pktId conf.packetCnt).isSome = true then
        some (.internal,
          { s.setPkt (entryOf jobs n pktId)
              (xorPkt conf m (s.diskPktsMul (n % jobs.length) pktId)) with
            puller := .append n pktId
            xored := s.xored ++ [(entryOf jobs n pktId, m)] })
      else none
  | .append n pktId =>
      if s.allocated then
        some (.internal,
          { s with
            toSendIds := s.toSendIds ++ [entryOf jobs n pktId]
            puller := .get (n + 1) })
      else none

/-- A step of `senderMul`. -/
def senderTurn (s : State) : Option (Event Nat ListKey Slice × State) :=
  if s.sender < total conf jobs then
    match s.toSendIds[s.sender]? with
    | some e =>
        some (.push localIP (sendKey conf ecK jobs (entryOf jobs s.sender e.pktId))
            (slice conf s (entryOf jobs s.sender e.pktId)),
          { s with sender := s.sender + 1, sent := s.sent ++ [entryOf jobs s.sender e.pktId] })
    | none => none
  else none

/-- The step of a turn. -/
def turn (t : Turn) (s : State) : Option (Event Nat ListKey Slice × State) :=
  match t with
  | .main => if s.allocated then none else some (.internal, { s with allocated := true })
  | .reader => (readerTurn conf confK ecK blkDir jobs s).map fun s' => (.internal, s')
  | .puller m => pullerTurn conf ecK jobs m s
  | .sender => senderTurn conf ecK localIP jobs s

end Threads

section Turns

variable {conf : PacketConfig} {confK ecK : Nat} {blkDir : Str → Buf} {localIP : Nat}
  {jobs : List PipeMulJob}

theorem step_of_readerTurn {s s' : State} : readerTurn conf confK ecK blkDir jobs s = some s' →
    Step conf confK ecK blkDir localIP jobs s .internal s' := by
  intro h
  unfold readerTurn at h
  split at h
  case h_1 heq =>
    cases h
    exact .tables heq
  -- the loop over the packets and jobs; a log line may stop it
  case h_2 n heq =>
    split at h
    · rename_i hn
      split at h
      · rename_i hlog
        cases h
        exact .read heq hn hlog
      · cases h
    · rename_i hn
      cases h
      exact .readAll heq (Nat.le_of_not_lt hn)
  -- the entries that start at this helper are appended, if the array is there
  case h_3 n heq =>
    split at h
    · rename_i hstart
      split at h
      · rename_i hslow
        split at h
        · rename_i e he
          split at h
          · rename_i halloc
            cases h
            exact .offer heq hstart hslow halloc he
          · cases h
        · cases h
      · rename_i hslow
        cases h
        exact .keep heq hstart (Nat.lt_of_not_le hslow)
    · rename_i hnot
      cases h
      exact .skip heq hnot
  case h_4 heq =>
    split at h
    · rename_i e he
      split at h
      · rename_i hcond
        cases h
        exact .comp heq hcond.1 hcond.2 he
      · cases h
    · rename_i hnone
      cases h
      exact .finish heq (List.getElem?_eq_none_iff.1 hnone)
  case h_5 heq =>
    cases h

theorem step_of_pullerTurn {m : Slice} {s s' : State} {e : Event Nat ListKey Slice} :
    pullerTurn conf ecK jobs m s = some (e, s') →
      Step conf confK ecK blkDir localIP jobs s e s' := by
  intro h
  unfold pullerTurn at h
  split at h
  case h_1 n heq =>
    split at h
    · rename_i hn
      split at h
      · rename_i hpull
        split at h
        · cases h
        · rename_i htables
          cases h
          exact .pop heq hn hpull htables
      · rename_i hnot
        cases h
        exact .own heq hn hnot
    · cases h
  case h_2 n pktId m' heq =>
    split at h
    · rename_i hcond
      cases h
      exact .xor heq hcond.1 hcond.2
    · cases h
  case h_3 n pktId heq =>
    split at h
    · rename_i halloc
      cases h
      exact .append heq halloc
    · cases h

theorem step_of_senderTurn {s s' : State} {e : Event Nat ListKey Slice} :
    senderTurn conf ecK localIP jobs s = some (e, s') →
      Step conf confK ecK blkDir localIP jobs s e s' := by
  intro h
  unfold senderTurn at h
  split at h
  · rename_i hn
    split at h
    · rename_i e₀ he
      cases h
      exact .send hn he
    · cases h
  · cases h

theorem step_of_turn (t : Turn) (s : State) (e : Event Nat ListKey Slice) (s' : State) :
    turn conf confK ecK blkDir localIP jobs t s = some (e, s') →
      Step conf confK ecK blkDir localIP jobs s e s' := by
  intro h
  cases t with
  | main =>
      simp only [turn] at h
      split at h
      · cases h
      · rename_i halloc
        cases h
        exact .allocate (Bool.eq_false_iff.2 halloc)
  | reader =>
      obtain ⟨s₁, hs₁, heq⟩ := Option.map_eq_some_iff.1 h
      cases heq
      exact step_of_readerTurn hs₁
  | puller m => exact step_of_pullerTurn h
  | sender => exact step_of_senderTurn h

end Turns

/-! ## What the threads are to send -/

section Sends

variable (conf : PacketConfig) (confK ecK : Nat) (blkDir : Str → Buf) (localIP : Nat)
  (jobs : List PipeMulJob)

/-- A position has been read, and xored with what was due from the helper before. -/
def Ready (s : State) (e : Entry) : Prop :=
  e.pktId * jobs.length + e.job < s.readCnt ∧
    (IsPulled conf ecK jobs e → ∃ m, (e, m) ∈ s.xored ∧
      e.pktId = (jobTables conf ecK jobs e.job).sli2pkt m.sliId)

/-- The slice that the puller is given is one that is due and has not come before. -/
def Puller.Due (xored : List (Entry × Slice)) : Puller → Slice → Prop
  | .get n, m =>
      let due := entryOf jobs n ((jobTables conf ecK jobs (n % jobs.length)).sli2pkt m.sliId)
      m.sliId < conf.packetCnt ∧ IsPulled conf ecK jobs due ∧ due ∉ xored.map Prod.fst
  | _, _ => True

instance (xored : List (Entry × Slice)) : (p : Puller) → (m : Slice) →
    Decidable (p.Due conf ecK jobs xored m)
  | .get _, _ => inferInstanceAs (Decidable (_ ∧ _ ∧ _))
  | .xor _ _ _, _ => isTrue trivial
  | .append _ _, _ => isTrue trivial

/-- What the helper before sends for a job are the slices that are due, each once. -/
def Arrives (s : State) : Event Nat ListKey Slice → Prop
  | .pop _ _ m => s.puller.Due conf ecK jobs s.xored m
  | _ => True

instance (s : State) : (e : Event Nat ListKey Slice) → Decidable (Arrives conf ecK jobs s e)
  | .internal => isTrue trivial
  | .push _ _ _ => isTrue trivial
  | .pop _ _ _ => inferInstanceAs (Decidable (Puller.Due _ _ _ _ _ _))

/-- If a step appends a position, the slot is one of its job. -/
def InSlot (s s' : State) : Prop :=
  ∀ e ∈ s'.toSendIds.drop s.toSendIds.length, s.toSendIds.length % jobs.length = e.job

instance (s s' : State) : Decidable (InSlot jobs s s') :=
  inferInstanceAs (Decidable (∀ e ∈ _, _))

/-- A step with what arrives. -/
def ServedStep (s : State) (e : Event Nat ListKey Slice) (s' : State) : Prop :=
  Step conf confK ecK blkDir localIP jobs s e s' ∧ Arrives conf ecK jobs s e

/-- A step that appends to a slot of the job, if it appends. -/
def SlotStep (s : State) (e : Event Nat ListKey Slice) (s' : State) : Prop :=
  ServedStep conf confK ecK blkDir localIP jobs s e s' ∧ InSlot jobs s s'

/-- The lists that were pushed to, in order. -/
def pushKeys (es : List (Event Nat ListKey Slice)) : List (Nat × ListKey) :=
  es.filterMap fun e =>
    match e with
    | .push h k _ => some (h, k)
    | _ => none

/-- What the sender takes next is a position of the job that is ready, nothing is sent twice, all
is sent to the queue of its job, and in the end everything was sent. -/
structure SendsRight (es : List (Event Nat ListKey Slice)) (s : State) : Prop where
  entry : ∀ e, s.sender < total conf jobs → s.toSendIds[s.sender]? = some e →
    e.job = s.sender % jobs.length ∧ e.pktId < conf.packetCnt ∧ Ready conf ecK jobs s e
  once : s.sent.Nodup
  queues : pushKeys es = s.sent.map fun e => (localIP, sendKey conf ecK jobs e)
  all : s.sender = total conf jobs →
    ∀ j < jobs.length, ∀ p < conf.packetCnt, { job := j, pktId := p } ∈ s.sent

end Sends

/-! ## The invariant of a batch -/

section Invariant

variable (conf : PacketConfig) (confK ecK : Nat) (blkDir : Str → Buf) (localIP : Nat)
  (jobs : List PipeMulJob)

/-- The positions among the first `n` that the reader sends itself. -/
def starts (n : Nat) : List Entry :=
  ((List.range n).map (entryAt jobs)).filter (IsStarted conf ecK jobs ·)

/-- How many positions the reader has read when it is at a place. -/
def Reader.Upto (readCnt : Nat) : Reader → Prop
  | .tables => readCnt = 0
  | .read n => readCnt = n ∧ n ≤ total conf jobs
  | .offer n => readCnt = n + 1 ∧ n < total conf jobs
  | .comp => readCnt = total conf jobs
  | .done => readCnt = total conf jobs

/-- How many it has looked at for sending. -/
def Reader.offered : Reader → Nat
  | .tables => 0
  | .read n => n
  | .offer n => n
  | .comp => total conf jobs
  | .done => total conf jobs

/-- The position that the puller is about to append. -/
def Puller.ready : Puller → List Entry
  | .append n pktId => [entryOf jobs n pktId]
  | _ => []

/-- Where the puller knows something. -/
def Puller.Holds (xored : List (Entry × Slice)) : Puller → Prop
  | .get n => n ≤ total conf jobs
  | .xor n pktId m => n < total conf jobs ∧ m.sliId < conf.packetCnt ∧
      pktId = (jobTables conf ecK jobs (n % jobs.length)).sli2pkt m.sliId ∧
      IsPulled conf ecK jobs (entryOf jobs n pktId) ∧
      entryOf jobs n pktId ∉ xored.map Prod.fst
  | .append n _ => n < total conf jobs

/-- A slice that was xored in belongs to a position that had been read. -/
structure Taken (readCnt : Nat) (q : Entry × Slice) : Prop where
  job : q.1.job < jobs.length
  pulled : IsPulled conf ecK jobs q.1
  read : q.1.pktId * jobs.length + q.1.job < readCnt
  slice : q.2.sliId < conf.packetCnt ∧
    q.1.pktId = (jobTables conf ecK jobs q.1.job).sli2pkt q.2.sliId

/-- The array consists of what the reader has moved there from its queue and of what the puller has
finished, both in order. -/
structure Inv (s : State) : Prop where
  reader : s.reader.Upto conf jobs s.readCnt
  queue : s.tmpQueue = starts conf ecK jobs (s.reader.offered conf jobs)
  rear : s.tmpQueueRear ≤ s.tmpQueue.length
  done : s.reader = .done → s.tmpQueue.length ≤ s.tmpQueueRear
  started : s.toSendIds.filter (IsStarted conf ecK jobs ·) = s.tmpQueue.take s.tmpQueueRear
  pulled : s.toSendIds.filter (¬ IsStarted conf ecK jobs ·) ++ s.puller.ready jobs =
    s.xored.map Prod.fst
  puller : s.puller.Holds conf ecK jobs s.xored
  nodup : (s.xored.map Prod.fst).Nodup
  taken : ∀ q ∈ s.xored, Taken conf ecK jobs s.readCnt q

/-- The slots belong to the jobs, and the sender has come through the first ones. -/
structure Slots (s : State) : Prop where
  slot : ∀ i e, s.toSendIds[i]? = some e → i % jobs.length = e.job
  sender : s.sender ≤ s.toSendIds.length
  sent : s.sent = s.toSendIds.take s.sender

variable {conf confK ecK blkDir localIP jobs}

@[simp] theorem starts_succ (n : Nat) : starts conf ecK jobs (n + 1) =
    starts conf ecK jobs n ++
      if IsStarted conf ecK jobs (entryAt jobs n) then [entryAt jobs n] else [] := by
  rw [starts, List.range_succ, List.map_append, List.filter_append]
  refine congrArg _ ?_
  by_cases h : IsStarted conf ecK jobs (entryAt jobs n)
  · simp [h]
  · simp [h]

theorem Taken.mono {readCnt readCnt' : Nat} {q : Entry × Slice} (hle : readCnt ≤ readCnt') :
    Taken conf ecK jobs readCnt q → Taken conf ecK jobs readCnt' q :=
  fun h => { h with read := h.read.trans_le hle }

theorem not_isStarted {e : Entry} : IsPulled conf ecK jobs e → ¬ IsStarted conf ecK jobs e :=
  pulled_iff.1

theorem Inv.init : Inv conf ecK jobs State.init where
  reader := rfl
  queue := rfl
  rear := Nat.le_refl _
  done := fun h => by cases h
  started := rfl
  pulled := rfl
  puller := Nat.zero_le _
  nodup := List.nodup_nil
  taken := fun _ hq => absurd hq List.not_mem_nil

/-- What is in the queue of the reader are positions that are sent at once. -/
theorem Inv.isStarted {s : State} (hinv : Inv conf ecK jobs s) {e : Entry} :
    e ∈ s.tmpQueue → IsStarted conf ecK jobs e := by
  intro he
  rw [hinv.queue] at he
  simpa using (List.mem_filter.1 he).2

/-- Moving the next position of the queue. -/
theorem Inv.dequeue {s : State} {e : Entry} (hinv : Inv conf ecK jobs s) :
    s.tmpQueue[s.tmpQueueRear]? = some e → Inv conf ecK jobs (s.dequeue e) := by
  intro he
  have hstart := hinv.isStarted (List.mem_of_getElem? he)
  refine { hinv with rear := ?_, done := ?_, started := ?_, pulled := ?_ }
  · exact (List.getElem?_eq_some_iff.1 he).1
  · exact fun h => (hinv.done h).trans (Nat.le_succ _)
  · show (s.toSendIds ++ [e]).filter _ = s.tmpQueue.take (s.tmpQueueRear + 1)
    rw [List.filter_append, hinv.started, List.take_add_one, he]
    simp [hstart]
  · show (s.toSendIds ++ [e]).filter _ ++ s.puller.ready jobs = s.xored.map Prod.fst
    rw [List.filter_append]
    simpa [hstart] using hinv.pulled

/-- The reader puts a position in its queue. -/
theorem Inv.enqueue {s : State} {n : Nat} (hinv : Inv conf ecK jobs s) (h : s.reader = .offer n) :
    IsStarted conf ecK jobs (entryAt jobs n) →
      Inv conf ecK jobs
        { s with tmpQueue := s.tmpQueue ++ [entryAt jobs n], reader := .read (n + 1) } := by
  intro hstart
  have hreader := hinv.reader
  have hqueue := hinv.queue
  rw [h] at hreader hqueue
  refine { hinv with reader := ?_, queue := ?_, rear := ?_, done := ?_, started := ?_ }
  · exact ⟨hreader.1, hreader.2⟩
  · show s.tmpQueue ++ [entryAt jobs n] = starts conf ecK jobs (n + 1)
    rw [starts_succ, if_pos hstart, hqueue]
    rfl
  · show s.tmpQueueRear ≤ (s.tmpQueue ++ [entryAt jobs n]).length
    rw [List.length_append]
    exact Nat.le_add_right_of_le hinv.rear
  · exact fun h => by cases h
  · show _ = (s.tmpQueue ++ [entryAt jobs n]).take s.tmpQueueRear
    rw [List.take_append_of_le_length hinv.rear]
    exact hinv.started

/-- One step of one thread. -/
theorem Inv.step {s s' : State} {e : Event Nat ListKey Slice} (hinv : Inv conf ecK jobs s)
    (hjobs : jobs ≠ []) :
    ServedStep conf confK ecK blkDir localIP jobs s e s' → Inv conf ecK jobs s' := by
  rintro ⟨hstep, harrives⟩
  have hnj : 0 < jobs.length := List.length_pos_iff.2 hjobs
  have hreader := hinv.reader
  have hqueue := hinv.queue
  have hpuller := hinv.puller
  have hpulled := hinv.pulled
  cases hstep with
  | allocate h => exact { hinv with }
  | tables h =>
      rw [h] at hreader hqueue
      exact { hinv with
        reader := ⟨hreader, Nat.zero_le _⟩
        queue := hqueue
        done := fun h => by cases h }
  | @read n h hn hlog =>
      rw [h] at hreader hqueue
      obtain ⟨rfl, -⟩ := hreader
      exact { hinv with
        reader := ⟨rfl, hn⟩
        queue := hqueue
        done := fun h => by cases h
        taken := fun q hq => (hinv.taken q hq).mono (Nat.le_succ _) }
  | @readAll n h hn =>
      rw [h] at hreader hqueue
      obtain ⟨hcnt, hle⟩ := hreader
      obtain rfl := Nat.le_antisymm hle hn
      exact { hinv with reader := hcnt, queue := hqueue, done := fun h => by cases h }
  | @skip n h hnot =>
      rw [h] at hreader hqueue
      refine { hinv with
        reader := ⟨hreader.1, hreader.2⟩
        queue := ?_
        done := fun h => by cases h }
      show s.tmpQueue = starts conf ecK jobs (n + 1)
      rw [starts_succ, if_neg hnot, List.append_nil]
      exact hqueue
  | @keep n h hstart hslow => exact hinv.enqueue h hstart
  | @offer n e h hstart hslow halloc he => exact (hinv.enqueue h hstart).dequeue he
  | @comp e h hslow halloc he => exact hinv.dequeue he
  | finish h hrear =>
      rw [h] at hreader hqueue
      exact { hinv with reader := hreader, queue := hqueue, done := fun _ => hrear }
  | @own n h hn hnot =>
      rw [h] at hpulled
      exact { hinv with pulled := hpulled, puller := hn }
  | @pop n m h hn hpull htables =>
      rw [h] at hpulled
      have hdue := harrives
      rw [Arrives, h] at hdue
      obtain ⟨hsli, hdue, hnew⟩ := hdue
      exact { hinv with pulled := hpulled, puller := ⟨hn, hsli, rfl, hdue, hnew⟩ }
  | @xor n pktId m h hread hlog =>
      rw [h] at hpulled hpuller
      obtain ⟨hn, hsli, hpkt, hdue, hnew⟩ := hpuller
      refine { hinv with pulled := ?_, puller := hn, nodup := ?_, taken := ?_ }
      · show s.toSendIds.filter _ ++ [entryOf jobs n pktId] = (s.xored ++ [_]).map Prod.fst
        rw [List.map_append, ← hpulled]
        simp [Puller.ready]
      · show ((s.xored ++ [_]).map Prod.fst).Nodup
        rw [List.map_append]
        refine hinv.nodup.append (List.nodup_singleton _) ?_
        rintro e he hsame
        obtain rfl := List.mem_singleton.1 hsame
        exact hnew he
      · intro q hq
        rcases List.mem_append.1 hq with hold | hsame
        · exact hinv.taken q hold
        · obtain rfl := List.mem_singleton.1 hsame
          exact ⟨Nat.mod_lt n hnj, hdue, hread, hsli, hpkt⟩
  | @append n pktId h halloc =>
      rw [h] at hpulled hpuller
      -- what the puller has xored is not started here
      have hnot : ¬ IsStarted conf ecK jobs (entryOf jobs n pktId) := by
        have hmem : entryOf jobs n pktId ∈ s.xored.map Prod.fst := by
          rw [← hpulled]
          exact List.mem_append_right _ List.mem_cons_self
        obtain ⟨q, hq, heq⟩ := List.mem_map.1 hmem
        rw [← heq]
        exact not_isStarted (hinv.taken q hq).pulled
      refine { hinv with started := ?_, pulled := ?_, puller := hpuller }
      · show (s.toSendIds ++ [_]).filter _ = _
        rw [List.filter_append, hinv.started]
        simp [hnot]
      · show (s.toSendIds ++ [_]).filter _ ++ [] = _
        rw [List.filter_append, ← hpulled]
        simp [hnot, Puller.ready]
  | send hn he => exact { hinv with }

/-- The numbers of packets and jobs, and back. -/
theorem number_entryAt (n : Nat) :
    (entryAt jobs n).pktId * jobs.length + (entryAt jobs n).job = n :=
  Nat.div_add_mod' n jobs.length

theorem entryAt_number {e : Entry} : e.job < jobs.length →
    entryAt jobs (e.pktId * jobs.length + e.job) = e := by
  intro hj
  have hnj := Nat.zero_lt_of_lt hj
  have hmod : (e.pktId * jobs.length + e.job) % jobs.length = e.job := by
    rw [Nat.mul_comm, Nat.mul_add_mod, Nat.mod_eq_of_lt hj]
  have hdiv : (e.pktId * jobs.length + e.job) / jobs.length = e.pktId := by
    rw [Nat.mul_comm, Nat.mul_add_div hnj, Nat.div_eq_of_lt hj, Nat.add_zero]
  rw [entryAt, entryOf, hmod, hdiv]

theorem nodup_starts (n : Nat) : (starts conf ecK jobs n).Nodup := by
  refine (List.Nodup.map_on ?_ List.nodup_range).filter _
  intro a _ b _ heq
  calc a = (entryAt jobs a).pktId * jobs.length + (entryAt jobs a).job := (number_entryAt a).symm
    _ = (entryAt jobs b).pktId * jobs.length + (entryAt jobs b).job := by rw [heq]
    _ = b := number_entryAt b

/-- How far the reader has offered is not further than it has read. -/
theorem Inv.offered_le {s : State} (hinv : Inv conf ecK jobs s) :
    s.reader.offered conf jobs ≤ s.readCnt ∧ s.readCnt ≤ total conf jobs := by
  have hreader := hinv.reader
  cases h : s.reader with
  | tables =>
      rw [h] at hreader
      exact ⟨Nat.zero_le _, hreader ▸ Nat.zero_le _⟩
  | read n =>
      rw [h] at hreader
      exact ⟨hreader.1.ge, hreader.1 ▸ hreader.2⟩
  | offer n =>
      rw [h] at hreader
      exact ⟨hreader.1 ▸ Nat.le_succ n, hreader.1 ▸ hreader.2⟩
  | comp =>
      rw [h] at hreader
      exact ⟨hreader.ge, hreader.le⟩
  | done =>
      rw [h] at hreader
      exact ⟨hreader.ge, hreader.le⟩

/-- Everything in the array is ready. -/
theorem Inv.ready {s : State} (hinv : Inv conf ecK jobs s) (hjobs : jobs ≠ []) {e : Entry} :
    e ∈ s.toSendIds → e.job < jobs.length ∧ e.pktId < conf.packetCnt ∧ Ready conf ecK jobs s e := by
  intro he
  have hnj : 0 < jobs.length := List.length_pos_iff.2 hjobs
  have hbound := hinv.offered_le
  have hread : e.job < jobs.length ∧ Ready conf ecK jobs s e := by
    by_cases hstart : IsStarted conf ecK jobs e
    case pos =>
      have hmem : e ∈ s.tmpQueue.take s.tmpQueueRear := by
        rw [← hinv.started]
        exact List.mem_filter.2 ⟨he, decide_eq_true hstart⟩
      have hqueue := List.mem_of_mem_take hmem
      rw [hinv.queue] at hqueue
      obtain ⟨n, hn, rfl⟩ := List.mem_map.1 (List.mem_filter.1 hqueue).1
      refine ⟨Nat.mod_lt n hnj, ?_, fun hpull => absurd hstart (not_isStarted hpull)⟩
      rw [number_entryAt]
      exact (List.mem_range.1 hn).trans_le hbound.1
    case neg =>
      have hmem : e ∈ s.xored.map Prod.fst := by
        rw [← hinv.pulled]
        exact List.mem_append_left _ (List.mem_filter.2 ⟨he, decide_eq_true hstart⟩)
      obtain ⟨q, hq, rfl⟩ := List.mem_map.1 hmem
      have htaken := hinv.taken q hq
      exact ⟨htaken.job, htaken.read, fun _ => ⟨q.2, hq, htaken.slice.2⟩⟩
  refine ⟨hread.1, ?_, hread.2⟩
  have hlt : e.pktId * jobs.length < conf.packetCnt * jobs.length :=
    (Nat.le_add_right _ _).trans_lt (hread.2.1.trans_le hbound.2)
  exact Nat.lt_of_mul_lt_mul_right hlt

/-- Nothing is in the array twice. -/
theorem Inv.nodup_toSendIds {s : State} (hinv : Inv conf ecK jobs s) : s.toSendIds.Nodup := by
  have hstarts : (s.toSendIds.filter (IsStarted conf ecK jobs ·)).Nodup := by
    rw [hinv.started, hinv.queue]
    exact (nodup_starts _).sublist (List.take_sublist _ _)
  have hpulls : (s.toSendIds.filter (¬ IsStarted conf ecK jobs ·)).Nodup := by
    have hall := hinv.nodup
    rw [← hinv.pulled] at hall
    exact hall.of_append_left
  have hperm := List.filter_append_perm (IsStarted conf ecK jobs ·) s.toSendIds
  refine hperm.nodup_iff.1 (hstarts.append ?_ ?_)
  · simpa using hpulls
  · intro e he he'
    have hyes := (List.mem_filter.1 he).2
    have hno := (List.mem_filter.1 he').2
    simp [hyes] at hno

theorem Slots.init : Slots jobs State.init where
  slot := fun i e he => by cases he
  sender := Nat.le_refl _
  sent := rfl

/-- The slots keep their owners. -/
theorem Slots.step {s s' : State} {e : Event Nat ListKey Slice} (hslots : Slots jobs s) :
    SlotStep conf confK ecK blkDir localIP jobs s e s' → Slots jobs s' := by
  rintro ⟨⟨hstep, -⟩, hin⟩
  have hlast : ∀ e', e' ∈ (s.toSendIds ++ [e']).drop s.toSendIds.length := by
    intro e'
    rw [List.drop_left]
    exact List.mem_cons_self
  have happend : ∀ e', s.toSendIds.length % jobs.length = e'.job →
      Slots jobs { s with toSendIds := s.toSendIds ++ [e'] } := by
    intro e' he'
    refine ⟨?_, ?_, ?_⟩
    · intro i e₀ he₀
      rcases Nat.lt_trichotomy i s.toSendIds.length with hlt | rfl | hgt
      · exact hslots.slot i e₀ (by rwa [List.getElem?_append_left hlt] at he₀)
      · simp only [List.getElem?_concat_length, Option.some.injEq] at he₀
        exact he₀ ▸ he'
      · rw [List.getElem?_eq_none (by simp; omega)] at he₀
        cases he₀
    · show s.sender ≤ (s.toSendIds ++ [e']).length
      rw [List.length_append]
      exact Nat.le_add_right_of_le hslots.sender
    · show s.sent = (s.toSendIds ++ [e']).take s.sender
      rw [List.take_append_of_le_length hslots.sender]
      exact hslots.sent
  cases hstep with
  | allocate h => exact { hslots with }
  | tables h => exact { hslots with }
  | read h hn hlog => exact { hslots with }
  | readAll h hn => exact { hslots with }
  | skip h hnot => exact { hslots with }
  | keep h hstart hslow => exact { hslots with }
  | offer h hstart hslow halloc he => exact { happend _ (hin _ (hlast _)) with }
  | comp h hslow halloc he => exact { happend _ (hin _ (hlast _)) with }
  | finish h hrear => exact { hslots with }
  | own h hn hnot => exact { hslots with }
  | pop h hn hpull htables => exact { hslots with }
  | xor h hread hlog => exact { hslots with }
  | append h halloc => exact { happend _ (hin _ (hlast _)) with }
  | @send e' hn he =>
      have hsame : entryOf jobs s.sender e'.pktId = e' := by
        rw [entryOf, hslots.slot _ _ he]
      refine { hslots with sender := ?_, sent := ?_ }
      · exact (List.getElem?_eq_some_iff.1 he).1
      · show s.sent ++ [entryOf jobs s.sender e'.pktId] = s.toSendIds.take (s.sender + 1)
        rw [hsame, List.take_add_one, he, ← hslots.sent]
        rfl

theorem pushKeys_append (es es' : List (Event Nat ListKey Slice)) :
    pushKeys (es ++ es') = pushKeys es ++ pushKeys es' :=
  List.filterMap_append

/-- Each step is recorded. -/
theorem Step.pushKeys {s s' : State} {e : Event Nat ListKey Slice} :
    Step conf confK ecK blkDir localIP jobs s e s' →
      s'.sent.map (fun e => (localIP, sendKey conf ecK jobs e)) =
        s.sent.map (fun e => (localIP, sendKey conf ecK jobs e)) ++ CyclMul.pushKeys [e] := by
  intro hstep
  cases hstep with
  | send hn he => exact List.map_append
  | _ => exact (List.append_nil _).symm

/-- A run in which the slots belong to the jobs. -/
theorem runs_inv {es : List (Event Nat ListKey Slice)} {s : State} (hjobs : jobs ≠ []) :
    Lists.LocalRuns (SlotStep conf confK ecK blkDir localIP jobs) State.init es s →
      Inv conf ecK jobs s ∧ Slots jobs s ∧
        pushKeys es = s.sent.map fun e => (localIP, sendKey conf ecK jobs e) := by
  intro hruns
  induction hruns with
  | refl => exact ⟨.init, .init, rfl⟩
  | snoc _ hstep ih =>
      obtain ⟨hinv, hslots, hkeys⟩ := ih
      refine ⟨hinv.step hjobs hstep.1, hslots.step hstep, ?_⟩
      rw [pushKeys_append, hstep.1.1.pushKeys, hkeys]

theorem mem_entries {e : Entry} : e.job < jobs.length → e.pktId < conf.packetCnt →
    e ∈ (List.range (total conf jobs)).map (entryAt jobs) := by
  intro hj hp
  refine List.mem_map.2 ⟨_, List.mem_range.2 ?_, entryAt_number hj⟩
  calc e.pktId * jobs.length + e.job < e.pktId * jobs.length + jobs.length :=
        Nat.add_lt_add_left hj _
    _ = (e.pktId + 1) * jobs.length := (Nat.succ_mul _ _).symm
    _ ≤ total conf jobs := Nat.mul_le_mul_right _ hp

/-- There are not more positions than slots. -/
theorem Inv.subperm_entries {s : State} (hinv : Inv conf ecK jobs s) (hjobs : jobs ≠ []) :
    List.Subperm s.toSendIds ((List.range (total conf jobs)).map (entryAt jobs)) := by
  refine hinv.nodup_toSendIds.subperm fun e he => ?_
  obtain ⟨hj, hp, -⟩ := hinv.ready hjobs he
  exact mem_entries hj hp

theorem Inv.length_toSendIds_le {s : State} (hinv : Inv conf ecK jobs s) (hjobs : jobs ≠ []) :
    s.toSendIds.length ≤ total conf jobs := by
  have hle := (hinv.subperm_entries hjobs).length_le
  rwa [List.length_map, List.length_range] at hle

/-- Once every slot has been sent, every position has. -/
theorem mem_sent {s : State} (hinv : Inv conf ecK jobs s) (hslots : Slots jobs s)
    (hjobs : jobs ≠ []) (hend : s.sender = total conf jobs) {e : Entry} :
    e.job < jobs.length → e.pktId < conf.packetCnt → e ∈ s.sent := by
  intro hj hp
  have hlength : ((List.range (total conf jobs)).map (entryAt jobs)).length ≤
      s.toSendIds.length := by
    rw [List.length_map, List.length_range, ← hend]
    exact hslots.sender
  have hall : s.sent = s.toSendIds := by
    rw [hslots.sent, hend]
    exact List.take_of_length_le (hinv.length_toSendIds_le hjobs)
  rw [hall]
  exact ((hinv.subperm_entries hjobs).perm_of_length_le hlength).mem_iff.2 (mem_entries hj hp)

/-- What the sender sends in a run in which the slots belong to the jobs. -/
theorem senderMul_sends {es : List (Event Nat ListKey Slice)} {s : State} (hjobs : jobs ≠ []) :
    Lists.LocalRuns (SlotStep conf confK ecK blkDir localIP jobs) State.init es s →
      SendsRight conf ecK localIP jobs es s := by
  intro hruns
  obtain ⟨hinv, hslots, hkeys⟩ := runs_inv hjobs hruns
  refine ⟨?_, ?_, hkeys, ?_⟩
  · intro e _ he
    obtain ⟨-, hp, hready⟩ := hinv.ready hjobs (List.mem_of_getElem? he)
    exact ⟨(hslots.slot _ _ he).symm, hp, hready⟩
  · rw [hslots.sent]
    exact hinv.nodup_toSendIds.sublist (List.take_sublist _ _)
  · intro hend j hj p hp
    exact mem_sent hinv hslots hjobs hend hj hp

end Invariant

section Results

variable {conf : PacketConfig} {confK ecK : Nat} {blkDir : Str → Buf} {localIP : Nat}
  {jobs : List PipeMulJob}

/-- If every position is appended to a slot of its job, the sender sends what it should. -/
theorem senderMul_right {es : List (Event Nat ListKey Slice)} {s : State} (hjobs : jobs ≠ []) :
    Lists.LocalRuns (SlotStep conf confK ecK blkDir localIP jobs) State.init es s →
      SendsRight conf ecK localIP jobs es s := by
  exact senderMul_sends hjobs

/-- The turns that a condition on the steps leaves. -/
def turnIf (conf : PacketConfig) (confK ecK : Nat) (blkDir : Str → Buf) (localIP : Nat)
    (jobs : List PipeMulJob) (ok : State → Event Nat ListKey Slice × State → Bool) (t : Turn)
    (s : State) : Option (Event Nat ListKey Slice × State) :=
  (turn conf confK ecK blkDir localIP jobs t s).filter (ok s)

theorem step_of_turnIf {P : State → Event Nat ListKey Slice → State → Prop}
    {ok : State → Event Nat ListKey Slice × State → Bool}
    (hok : ∀ s e s', Step conf confK ecK blkDir localIP jobs s e s' → ok s (e, s') = true →
      P s e s') (t : Turn) (s : State) (e : Event Nat ListKey Slice) (s' : State) :
    turnIf conf confK ecK blkDir localIP jobs ok t s = some (e, s') → P s e s' := by
  intro h
  obtain ⟨hturn, hcond⟩ := Option.filter_eq_some_iff.1 h
  exact hok s e s' (step_of_turn t s e s' hturn) hcond

/-- A job of the helper behind the first one. -/
def secondJob (lostBlkName : Str) : PipeMulJob where
  ecK := 3
  reqIP := 9
  prevIP := 0
  nextIP := 2
  id := 1
  coefficient := 1
  lostBlkName := lostBlkName
  localBlkName := ['c']

/-- Two jobs of one packet each, sent in their order. -/
theorem senderMul_right_two : ∃ es s,
    Lists.LocalRuns (SlotStep ⟨1, 8, 0⟩ 3 3 (fun _ => zeros) 1 [secondJob ['a'], secondJob ['b']])
      State.init es s ∧ s.sender = 2 ∧
        SendsRight ⟨1, 8, 0⟩ 3 1 [secondJob ['a'], secondJob ['b']] es s := by
  let ts : List Turn := .main :: List.replicate 5 .reader ++ [.sender, .sender]
  let turn' := turnIf ⟨1, 8, 0⟩ 3 3 (fun _ => zeros) 1 [secondJob ['a'], secondJob ['b']]
    fun s q => decide (Arrives ⟨1, 8, 0⟩ 3 [secondJob ['a'], secondJob ['b']] s q.1 ∧
      InSlot [secondJob ['a'], secondJob ['b']] s q.2)
  obtain ⟨st, hst, hend⟩ : ∃ st, Lists.execute turn' ts ([], State.init) = some st ∧
      st.2.sender = 2 := ⟨_, rfl, rfl⟩
  have hruns := Lists.LocalRuns.of_execute
    (step_of_turnIf (P := SlotStep ⟨1, 8, 0⟩ 3 3 (fun _ => zeros) 1
      [secondJob ['a'], secondJob ['b']]) fun s e s' hstep hok =>
        ⟨⟨hstep, (of_decide_eq_true hok).1⟩, (of_decide_eq_true hok).2⟩) (.refl State.init) hst
  exact ⟨_, _, hruns, hend, senderMul_right (List.cons_ne_nil _ _) hruns⟩

/-- With two jobs of more packets, the reader may send the first job of the second group before the
puller has a position of the second job. -/
theorem toSendIds_mixed : ∃ es s,
    Lists.LocalRuns (ServedStep ⟨4, 8, 0⟩ 3 3 (fun _ => zeros) 1 [secondJob ['a'], secondJob ['b']])
      State.init es s ∧ ¬ SendsRight ⟨4, 8, 0⟩ 3 1 [secondJob ['a'], secondJob ['b']] es s := by
  let m : Slice := ⟨List.replicate 8 0, 1⟩
  let ts : List Turn := .main :: List.replicate 11 .reader ++ List.replicate 5 (.puller m) ++
    List.replicate 3 .sender
  let turn' := turnIf ⟨4, 8, 0⟩ 3 3 (fun _ => zeros) 1 [secondJob ['a'], secondJob ['b']]
    fun s q => decide (Arrives ⟨4, 8, 0⟩ 3 [secondJob ['a'], secondJob ['b']] s q.1)
  obtain ⟨st, hst, hslot, hentry⟩ : ∃ st, Lists.execute turn' ts ([], State.init) = some st ∧
      st.2.sender = 3 ∧ st.2.toSendIds[3]? = some ⟨0, 1⟩ := ⟨_, rfl, rfl, rfl⟩
  have hruns := Lists.LocalRuns.of_execute
    (step_of_turnIf (P := ServedStep ⟨4, 8, 0⟩ 3 3 (fun _ => zeros) 1
      [secondJob ['a'], secondJob ['b']]) fun s e s' hstep hok =>
        ⟨hstep, of_decide_eq_true hok⟩) (.refl State.init) hst
  refine ⟨_, _, hruns, fun hright => ?_⟩
  have hjob := (hright.entry ⟨0, 1⟩ (by rw [hslot]; decide) (by rw [hslot]; exact hentry)).1
  rw [hslot] at hjob
  cases hjob

end Results

end CyclMul

end CoRD
