import CoRD.Network.Lists
import CoRD.Repair.CyclSchedule
import CoRD.Repair.DRWorker
import CoRD.Repair.PipeCoordinator

/-!
# CyclDRWorker — a helper of a cyclic repair of one block

The helper works through the slices in the order of its schedule, but what it sends carries no id:
it counts on getting the slices of the helper before in the order in which it needs them.  The
reader reads and scales the slices, the puller asks for all that it expects before it takes the
first one, and the sender sends a slice to the next helper or, under its number, to the requestor.

The requests stay in the output buffer until the puller waits for its first reply.  From then on
they are answered in order, and the replies are taken in order.  A slice is taken to be read from
disk in one piece, and a thread that waits may look at its condition again at any time.
-/

namespace CoRD

namespace CyclDR

open Cycl
open Lists (Event)

/-- What is pushed: the bytes of a slice.  Which slice it is, is kept for the record; no helper reads
it. -/
structure Packet where
  bytes : List GF256
  sliId : Nat
  deriving DecidableEq

/-- What a helper sees at `rReply -> element[1] -> str`. -/
def Packet.str (m : Packet) : Buf :=
  fun x => m.bytes.getD x.toNat 0

/-- The members that the threads share, and where the threads are: each loop is counted by what it
has done.  `answers` are the replies that have not been taken, and `taken` keeps for the record
which one was taken at which position. -/
structure State where
  diskPkts : Nat → Buf
  readCnt : Nat
  toSendCnt : Nat
  sent : Nat
  flushed : Bool
  popCnt : Nat
  answers : List Packet
  taken : List (Nat × Packet)

/-- A command that is about to start its threads. -/
def State.init : State where
  diskPkts := fun _ => zeros
  readCnt := 0
  toSendCnt := 0
  sent := 0
  flushed := false
  popCnt := 0
  answers := []
  taken := []

/-- The list `%s:%d`. -/
def sliceName (filename : Str) (i : Nat) : Str :=
  filename ++ ':' :: Nat.toDigits 10 i

/-- Whether `reader` logs a packet, unless it divides by zero. -/
def readOutput (i packetCnt : Nat) : Option Bool :=
  if i = 0 ∨ packetCnt - i < 10 then some true
  else if packetCnt / 10 = 0 then none
  else some (i % (packetCnt / 10) = 0)

section Threads

variable (conf : PacketConfig) (blkDir : Str → Buf) (localIP : Nat) (cmd : PipeCmd)

/-- The slices in the order in which they are read. -/
def pktIdx : List Nat :=
  (List.range (round conf.packetCnt (cmd.ecK - 1))).flatMap fun i =>
    roundSlices conf.packetCnt (cmd.ecK - 1) cmd.id (i * (cmd.ecK - 1))

/-- A slice as it is read and scaled. -/
def readPkt (i : Nat) : Buf :=
  RSUtil.multiply
    (readPacketFromDisk (blkDir cmd.localBlkName) zeros conf.packetSize
      ((pktIdx conf cmd).getD i 0 * conf.packetSize))
    cmd.coefficient conf.packetSize

/-- How many packets the puller asks for. -/
def retrieveCnt : Nat :=
  if cmd.id ≠ 0 then
    conf.packetCnt - conf.packetCnt / (cmd.ecK - 1) -
      if cmd.id ≤ conf.packetCnt % (cmd.ecK - 1) then 1 else 0
  else conf.packetCnt

/-- The puller takes a reply for a position. -/
def IsPulled (i : Nat) : Prop :=
  cmd.id = 0 ∨ i % (cmd.ecK - 1) ≠ 0

instance (i : Nat) : Decidable (IsPulled cmd i) :=
  inferInstanceAs (Decidable (_ ∨ _))

/-- The number of slices in the last group. -/
def lastGroupCnt : Nat :=
  if conf.packetCnt % (cmd.ecK - 1) = 0 then cmd.ecK - 1 else conf.packetCnt % (cmd.ecK - 1)

/-- The slice that the last group begins with. -/
def lastGroupBase : Nat :=
  conf.packetCnt - lastGroupCnt conf cmd

/-- The list that a position is sent to.  The last position is handled after the loop. -/
def sendKey (i : Nat) : ListKey :=
  if i < conf.packetCnt - 1 then
    if cmd.id ≠ cmd.ecK - 1 ∧ i % (cmd.ecK - 1) = cmd.ecK - 2 then
      .blk (sliceName cmd.lostBlkName (cmd.id + i + 2 - cmd.ecK))
    else .tmp cmd.lostBlkName
  else if cmd.id < lastGroupCnt conf cmd then
    .blk (sliceName cmd.lostBlkName (cmd.id + lastGroupBase conf cmd))
  else .tmp cmd.lostBlkName

/-- What is sent for a position. -/
def packet (s : State) (i : Nat) : Packet where
  bytes := bytesOf (s.diskPkts i) conf.packetSize
  sliId := (pktIdx conf cmd).getD i 0

/-- One step of one of the threads, or of the host of the helper before. -/
inductive Step (s : State) : Event Nat ListKey Packet → State → Prop where
  | read (h : s.readCnt < conf.packetCnt)
      (hlog : (readOutput s.readCnt conf.packetCnt).isSome = true) :
      Step s .internal
        { s with
          diskPkts := Function.update s.diskPkts s.readCnt (readPkt conf blkDir cmd s.readCnt)
          readCnt := s.readCnt + 1 }
  -- the requests are only appended; the first `redisGetReply` writes them all to the socket
  | flush (h : s.toSendCnt < conf.packetCnt) (hpull : IsPulled cmd s.toSendCnt)
      (hnot : s.flushed = false) :
      Step s .internal { s with flushed := true }
  | answer {m : Packet} (h : s.flushed = true) (hcnt : s.popCnt < retrieveCnt conf cmd) :
      Step s (.pop cmd.prevIP (.tmp cmd.lostBlkName) m)
        { s with popCnt := s.popCnt + 1, answers := s.answers ++ [m] }
  | own (h : s.toSendCnt < s.readCnt) (hnot : ¬ IsPulled cmd s.toSendCnt) :
      Step s .internal { s with toSendCnt := s.toSendCnt + 1 }
  -- an answer belongs to the position the puller has come to, whatever its own number is
  | xor {m : Packet} {ms : List Packet} (h : s.toSendCnt < s.readCnt)
      (hpull : IsPulled cmd s.toSendCnt) (hanswers : s.answers = m :: ms) :
      Step s .internal
        { s with
          diskPkts := Function.update s.diskPkts s.toSendCnt
            (XORBuffers (s.diskPkts s.toSendCnt) m.str conf.packetSize)
          toSendCnt := s.toSendCnt + 1
          answers := ms
          taken := s.taken ++ [(s.toSendCnt, m)] }
  | send (h : s.sent < s.toSendCnt) :
      Step s (.push localIP (sendKey conf cmd s.sent) (packet conf cmd s s.sent))
        { s with sent := s.sent + 1 }

/-- All threads have returned. -/
def State.Completed (s : State) : Prop :=
  s.readCnt = conf.packetCnt ∧ s.toSendCnt = conf.packetCnt ∧ s.sent = conf.packetCnt

/-! ## What a helper has done -/

/-- The positions among the first `n` for which a reply is taken. -/
def pulls (n : Nat) : List Nat :=
  (List.range n).filter (IsPulled cmd ·)

/-- The positions among the first `n` that are sent to the next helper. -/
def tmps (n : Nat) : List Nat :=
  (List.range n).filter (sendKey conf cmd · = .tmp cmd.lostBlkName)

/-- How many steps a helper has taken. -/
def State.rank (s : State) : Nat :=
  s.readCnt + s.toSendCnt + s.sent + s.popCnt + s.flushed.toNat

/-- Where a helper is held up: only its puller waits, for a reply that it does not get as long as
the list is empty. -/
structure Waits (list : List Packet) (s : State) : Prop where
  read : s.readCnt = conf.packetCnt
  sent : s.sent = s.toSendCnt
  puller : s.toSendCnt < conf.packetCnt →
    IsPulled cmd s.toSendCnt ∧ s.answers = [] ∧ (s.popCnt < retrieveCnt conf cmd → list = [])

/-- The threads follow one another through the positions, and each position holds its slice, from
the moment it is counted with what was taken for it. -/
structure Helper (es : List (Event Nat ListKey Packet)) (s : State) : Prop where
  readCnt : s.readCnt ≤ conf.packetCnt
  toSendCnt : s.toSendCnt ≤ s.readCnt
  sent : s.sent ≤ s.toSendCnt
  taken : s.taken.map Prod.fst = pulls cmd s.toSendCnt
  fresh : ∀ p, s.toSendCnt ≤ p → p < s.readCnt → s.diskPkts p = readPkt conf blkDir cmd p
  own : ∀ p < s.toSendCnt, ¬ IsPulled cmd p → s.diskPkts p = readPkt conf blkDir cmd p
  xored : ∀ q ∈ s.taken,
    s.diskPkts q.1 = XORBuffers (readPkt conf blkDir cmd q.1) q.2.str conf.packetSize
  pops : Lists.popped cmd.prevIP (.tmp cmd.lostBlkName) es = s.taken.map Prod.snd ++ s.answers
  onlyPops : ∀ h k m, .pop h k m ∈ es → h = cmd.prevIP ∧ k = .tmp cmd.lostBlkName
  popCnt : s.popCnt = s.taken.length + s.answers.length
  asked : s.popCnt ≤ retrieveCnt conf cmd
  pushes : Lists.pushes es = (List.range s.sent).map fun p =>
    (localIP, sendKey conf cmd p, packet conf cmd s p)

end Threads

section Run

variable {conf : PacketConfig} {blkDir : Str → Buf} {localIP : Nat} {cmd : PipeCmd}

/-- Every packet can be logged. -/
theorem readOutput_isSome {i packetCnt : Nat} : i < packetCnt →
    (readOutput i packetCnt).isSome = true := by
  intro hi
  unfold readOutput
  split
  · rfl
  · -- with less than ten packets every packet is one of the last ten
    rw [if_neg (by omega)]
    rfl

theorem pulls_succ (n : Nat) : pulls cmd (n + 1) =
    pulls cmd n ++ if IsPulled cmd n then [n] else [] := by
  rw [pulls, List.range_succ, List.filter_append]
  refine congrArg _ ?_
  by_cases h : IsPulled cmd n
  · simp [h]
  · simp [h]

theorem mem_pulls {n p : Nat} : p ∈ pulls cmd n ↔ p < n ∧ IsPulled cmd p := by
  rw [pulls, List.mem_filter, List.mem_range, decide_eq_true_iff]

/-- One more reply is taken at a position for which one is taken. -/
theorem length_pulls_lt_of_isPulled {n p : Nat} (hpull : IsPulled cmd p) : p < n →
    (pulls cmd p).length < (pulls cmd n).length := by
  intro hlt
  have hsub : (pulls cmd (p + 1)).Sublist (pulls cmd n) :=
    (List.range_sublist.2 (Nat.succ_le_of_lt hlt)).filter _
  have hle := hsub.length_le
  rw [pulls_succ, if_pos hpull, List.length_append] at hle
  exact Nat.lt_of_succ_le hle

theorem length_tmps_mono {n n' : Nat} : n ≤ n' →
    (tmps conf cmd n).length ≤ (tmps conf cmd n').length := by
  intro hle
  exact ((List.range_sublist.2 hle).filter _).length_le

theorem tmps_succ (n : Nat) : tmps conf cmd (n + 1) =
    tmps conf cmd n ++ if sendKey conf cmd n = .tmp cmd.lostBlkName then [n] else [] := by
  rw [tmps, List.range_succ, List.filter_append]
  refine congrArg _ ?_
  by_cases h : sendKey conf cmd n = .tmp cmd.lostBlkName
  · simp [h]
  · simp [h]

theorem Helper.init : Helper conf blkDir localIP cmd [] State.init where
  readCnt := Nat.zero_le _
  toSendCnt := Nat.le_refl _
  sent := Nat.le_refl _
  taken := rfl
  fresh := fun p _ hp => absurd hp (Nat.not_lt_zero p)
  own := fun p hp => absurd hp (Nat.not_lt_zero p)
  xored := fun _ hq => absurd hq List.not_mem_nil
  pops := rfl
  onlyPops := fun _ _ _ he => absurd he List.not_mem_nil
  popCnt := rfl
  asked := Nat.zero_le _
  pushes := rfl

/-- What was taken was taken at a position that is counted. -/
theorem Helper.lt_of_taken {es : List (Event Nat ListKey Packet)} {s : State}
    (h : Helper conf blkDir localIP cmd es s) {q : Nat × Packet} :
    q ∈ s.taken → q.1 < s.toSendCnt := by
  intro hq
  have hmem := List.mem_map_of_mem (f := Prod.fst) hq
  rw [h.taken] at hmem
  exact (mem_pulls.1 hmem).1

/-- The events of a step that neither pops nor pushes. -/
theorem events_internal (es : List (Event Nat ListKey Packet)) (h : Nat) (k : ListKey) :
    Lists.popped h k (es ++ [.internal]) = Lists.popped h k es ∧
      Lists.pushes (es ++ [.internal]) = Lists.pushes es := by
  constructor
  · rw [Lists.popped_append]
    exact List.append_nil _
  · rw [Lists.pushes_append]
    exact List.append_nil _

theorem onlyPops_append {es : List (Event Nat ListKey Packet)} {e : Event Nat ListKey Packet}
    {h₀ : Nat} {k₀ : ListKey} (hold : ∀ h k m, .pop h k m ∈ es → h = h₀ ∧ k = k₀)
    (hnew : ∀ h k m, e = .pop h k m → h = h₀ ∧ k = k₀) :
    ∀ h k m, .pop h k m ∈ es ++ [e] → h = h₀ ∧ k = k₀ := by
  intro h k m hmem
  rcases List.mem_append.1 hmem with hm | hm
  · exact hold h k m hm
  · exact hnew h k m (List.mem_singleton.1 hm).symm

/-- Changing the memory behind what was sent. -/
theorem packets_congr {s s' : State} {n : Nat}
    (hsame : ∀ p < n, s'.diskPkts p = s.diskPkts p) :
    ((List.range n).map fun p => (localIP, sendKey conf cmd p, packet conf cmd s' p)) =
      (List.range n).map fun p => (localIP, sendKey conf cmd p, packet conf cmd s p) := by
  refine List.map_congr_left fun p hp => ?_
  rw [packet, packet, hsame p (List.mem_range.1 hp)]

/-- Every step counts for one. -/
theorem Step.rank_eq {e : Event Nat ListKey Packet} {s s' : State} :
    Step conf blkDir localIP cmd s e s' → s'.rank = s.rank + 1 := by
  intro hstep
  cases hstep with
  | flush _ _ hnot =>
      rw [State.rank, State.rank, hnot]
      rfl
  | _ =>
      simp only [State.rank]
      omega

/-- The steps are bounded. -/
theorem Helper.rank_le {es : List (Event Nat ListKey Packet)} {s : State}
    (h : Helper conf blkDir localIP cmd es s) : s.rank ≤ 4 * conf.packetCnt + 1 := by
  have hasked : s.popCnt ≤ conf.packetCnt := by
    refine h.asked.trans ?_
    unfold retrieveCnt
    split
    · exact (Nat.sub_le _ _).trans (Nat.sub_le _ _)
    · exact Nat.le_refl _
  have hflag := Bool.toNat_le s.flushed
  have hread := h.readCnt
  have hcounted := h.toSendCnt
  have hsent := h.sent
  unfold State.rank
  omega

/-- What has been pushed for the next helper. -/
theorem Helper.pushed_tmp {es : List (Event Nat ListKey Packet)} {s : State}
    (h : Helper conf blkDir localIP cmd es s) :
    Lists.pushed localIP (.tmp cmd.lostBlkName) es =
      (tmps conf cmd s.sent).map (packet conf cmd s) := by
  rw [Lists.pushed_eq_pushes, h.pushes, List.filter_map, List.map_map, tmps]
  refine congrArg (List.map _) (List.filter_congr fun p _ => ?_)
  exact decide_eq_decide.2 (and_iff_right rfl)

theorem Helper.step {es : List (Event Nat ListKey Packet)} {e : Event Nat ListKey Packet}
    {s s' : State} (h : Helper conf blkDir localIP cmd es s) :
    Step conf blkDir localIP cmd s e s' → Helper conf blkDir localIP cmd (es ++ [e]) s' := by
  intro hstep
  have hsent := h.sent
  have hcounted := h.toSendCnt
  cases hstep with
  | read hlt hlog =>
      obtain ⟨hpops, hpushes⟩ := events_internal es cmd.prevIP (.tmp cmd.lostBlkName)
      -- the reader is ahead of what is counted, and writes none of it
      have hbefore : ∀ p < s.toSendCnt, Function.update s.diskPkts s.readCnt
          (readPkt conf blkDir cmd s.readCnt) p = s.diskPkts p :=
        fun p hp => Function.update_of_ne (Nat.ne_of_lt (hp.trans_le hcounted)) _ _
      exact
        { h with
          readCnt := hlt
          toSendCnt := Nat.le_succ_of_le hcounted
          fresh := by
            intro p hp hread
            rcases Nat.lt_or_eq_of_le (Nat.le_of_lt_succ hread) with hold | hnew
            · exact (Function.update_of_ne (Nat.ne_of_lt hold) _ _).trans (h.fresh p hp hold)
            · rw [hnew]
              exact Function.update_self _ _ _
          own := fun p hp hown => (hbefore p hp).trans (h.own p hp hown)
          xored := fun q hq => (hbefore _ (h.lt_of_taken hq)).trans (h.xored q hq)
          pops := hpops.trans h.pops
          onlyPops := onlyPops_append h.onlyPops fun _ _ _ heq => by cases heq
          pushes := by
            rw [hpushes, h.pushes]
            exact (packets_congr fun p hp => hbefore p (hp.trans_le hsent)).symm }
  | flush hlt hpull hnot =>
      obtain ⟨hpops, hpushes⟩ := events_internal es cmd.prevIP (.tmp cmd.lostBlkName)
      exact
        { h with
          pops := hpops.trans h.pops
          onlyPops := onlyPops_append h.onlyPops fun _ _ _ heq => by cases heq
          pushes := hpushes.trans h.pushes }
  | @answer m hflushed hcnt =>
      exact
        { h with
          pops := by
            rw [Lists.popped_append, h.pops, Lists.popped_pop_self, List.append_assoc]
          onlyPops := onlyPops_append h.onlyPops fun _ _ _ heq => by
            cases heq
            exact ⟨rfl, rfl⟩
          popCnt := by
            show s.popCnt + 1 = s.taken.length + (s.answers ++ [m]).length
            rw [h.popCnt, List.length_append, List.length_singleton]
            omega
          asked := hcnt
          pushes := by
            rw [Lists.pushes_append, h.pushes]
            exact List.append_nil _ }
  | own hlt hnot =>
      obtain ⟨hpops, hpushes⟩ := events_internal es cmd.prevIP (.tmp cmd.lostBlkName)
      exact
        { h with
          toSendCnt := hlt
          sent := Nat.le_succ_of_le hsent
          taken := by
            show s.taken.map Prod.fst = pulls cmd (s.toSendCnt + 1)
            rw [pulls_succ, if_neg hnot, List.append_nil]
            exact h.taken
          fresh := fun p hp => h.fresh p (Nat.le_of_succ_le hp)
          own := by
            intro p hp hown
            rcases Nat.lt_or_eq_of_le (Nat.le_of_lt_succ hp) with hold | hnew
            · exact h.own p hold hown
            · rw [hnew]
              exact h.fresh _ (Nat.le_refl _) hlt
          pops := hpops.trans h.pops
          onlyPops := onlyPops_append h.onlyPops fun _ _ _ heq => by cases heq
          pushes := hpushes.trans h.pushes }
  | @xor m ms hlt hpull hanswers =>
      obtain ⟨hpops, hpushes⟩ := events_internal es cmd.prevIP (.tmp cmd.lostBlkName)
      -- only the packet that is counted next is xored
      have hbefore : ∀ p, p ≠ s.toSendCnt → Function.update s.diskPkts s.toSendCnt
          (XORBuffers (s.diskPkts s.toSendCnt) m.str conf.packetSize) p = s.diskPkts p :=
        fun p hp => Function.update_of_ne hp _ _
      exact
        { h with
          toSendCnt := hlt
          sent := Nat.le_succ_of_le hsent
          taken := by
            show (s.taken ++ [(s.toSendCnt, m)]).map Prod.fst = pulls cmd (s.toSendCnt + 1)
            rw [pulls_succ, if_pos hpull, List.map_append, h.taken]
            rfl
          fresh := by
            intro p hp hread
            refine (hbefore p (Nat.ne_of_gt hp)).trans ?_
            exact h.fresh p (Nat.le_of_succ_le hp) hread
          own := by
            intro p hp hown
            rcases Nat.lt_or_eq_of_le (Nat.le_of_lt_succ hp) with hold | hnew
            · exact (hbefore p (Nat.ne_of_lt hold)).trans (h.own p hold hown)
            · exact absurd (hnew ▸ hpull) hown
          xored := by
            intro q hq
            rcases List.mem_append.1 hq with hold | hnew
            · exact (hbefore _ (Nat.ne_of_lt (h.lt_of_taken hold))).trans (h.xored q hold)
            · obtain rfl := List.mem_singleton.1 hnew
              refine (Function.update_self _ _ _).trans ?_
              rw [h.fresh _ (Nat.le_refl _) hlt]
          pops := by
            rw [hpops, h.pops, hanswers, List.map_append, List.append_assoc]
            rfl
          onlyPops := onlyPops_append h.onlyPops fun _ _ _ heq => by cases heq
          popCnt := by
            show s.popCnt = (s.taken ++ [(s.toSendCnt, m)]).length + ms.length
            rw [h.popCnt, hanswers, List.length_append, List.length_cons, List.length_singleton]
            omega
          pushes := by
            rw [hpushes, h.pushes]
            exact (packets_congr fun p hp => hbefore p (Nat.ne_of_lt (hp.trans_le hsent))).symm }
  | send hlt =>
      exact
        { h with
          sent := hlt
          pops := by
            rw [Lists.popped_append, h.pops]
            exact List.append_nil _
          onlyPops := onlyPops_append h.onlyPops fun _ _ _ heq => by cases heq
          pushes := by
            rw [Lists.pushes_append, h.pushes, List.range_succ, List.map_append]
            rfl }

/-- What a helper has done in a run of its own. -/
theorem helper_of_runs {es : List (Event Nat ListKey Packet)} {s : State} :
    Lists.LocalRuns (Step conf blkDir localIP cmd) State.init es s →
      Helper conf blkDir localIP cmd es s := by
  intro hruns
  induction hruns with
  | refl => exact .init
  | snoc _ hstep ih => exact ih.step hstep

end Run

/-- A helper that cannot take a step. -/
theorem Helper.waits {es : List (Event Nat ListKey Packet)} {list : List Packet} {s : State}
    (h : Helper conf blkDir localIP cmd es s)
    (hinternal : ∀ s', ¬ Step conf blkDir localIP cmd s .internal s')
    (hpush : ∀ h k m s', ¬ Step conf blkDir localIP cmd s (.push h k m) s')
    (hpop : ∀ m ms s', list = m :: ms →
      ¬ Step conf blkDir localIP cmd s (.pop cmd.prevIP (.tmp cmd.lostBlkName) m) s') :
    Waits conf cmd list s := by
  have hread : s.readCnt = conf.packetCnt := by
    refine h.readCnt.antisymm (Nat.le_of_not_lt fun hlt => ?_)
    exact hinternal _ (.read hlt (readOutput_isSome hlt))
  refine ⟨hread, h.sent.antisymm (Nat.le_of_not_lt fun hlt => hpush _ _ _ _ (.send hlt)),
    fun hlt => ?_⟩
  have hready : s.toSendCnt < s.readCnt := hread ▸ hlt
  have hpull : IsPulled cmd s.toSendCnt := by
    by_contra hown
    exact hinternal _ (.own hready hown)
  have hflushed : s.flushed = true := by
    rw [← Bool.not_eq_false]
    exact fun hnot => hinternal _ (.flush hlt hpull hnot)
  refine ⟨hpull, ?_, fun hcnt => ?_⟩
  · cases hanswers : s.answers with
    | nil => rfl
    | cons m ms => exact absurd (.xor hready hpull hanswers) (hinternal _)
  · cases hlist : list with
    | nil => rfl
    | cons m ms => exact absurd (.answer hflushed hcnt) (hpop m ms _ hlist)

/-! ## What is expected and what is sent -/

section Order

variable {conf : PacketConfig} {cmd before : PipeCmd}

theorem sliceName_inj {filename : Str} {i j : Nat} :
    sliceName filename i = sliceName filename j → i = j := by
  intro heq
  have hdigits : Nat.toDigits 10 i = Nat.toDigits 10 j :=
    (List.cons.inj (List.append_cancel_left heq)).2
  calc i = Nat.ofDigitChars 10 (Nat.toDigits 10 i) 0 := Nat.ofDigitChars_ten_toDigits.symm
    _ = Nat.ofDigitChars 10 (Nat.toDigits 10 j) 0 := by rw [hdigits]
    _ = j := Nat.ofDigitChars_ten_toDigits

theorem getElem?_pktIdx {p : Nat} (hk : 3 ≤ cmd.ecK) (hid : cmd.id < cmd.ecK) :
    p < conf.packetCnt →
      (pktIdx conf cmd)[p]? = some (swap conf.packetCnt (cmd.ecK - 1) cmd.id p) := by
  intro hp
  rw [pktIdx, slices_eq (by omega) (Nat.le_sub_one_of_lt hid)]
  simp [hp]

theorem getD_pktIdx {p : Nat} (hk : 3 ≤ cmd.ecK) (hid : cmd.id < cmd.ecK) : p < conf.packetCnt →
    (pktIdx conf cmd).getD p 0 = swap conf.packetCnt (cmd.ecK - 1) cmd.id p := by
  intro hp
  rw [List.getD_eq_getElem?_getD, getElem?_pktIdx hk hid hp]
  rfl

theorem isPulled_iff (hid : cmd.id ≠ 0) {p : Nat} : IsPulled cmd p ↔ p % (cmd.ecK - 1) ≠ 0 :=
  or_iff_right hid

/-- The positions among the first `n` for which no reply is taken begin the groups. -/
theorem length_pulls (hk : 3 ≤ cmd.ecK) (hid : cmd.id ≠ 0) (n : Nat) :
    (pulls cmd n).length + (n / (cmd.ecK - 1) + if 0 < n % (cmd.ecK - 1) then 1 else 0) = n := by
  have hg : 0 < cmd.ecK - 1 := by omega
  induction n with
  | zero =>
      rw [Nat.zero_div, Nat.zero_mod]
      rfl
  | succ n ih =>
      rw [pulls_succ, List.length_append]
      have hmod := Nat.mod_lt n hg
      rcases Nat.lt_or_eq_of_le (Nat.succ_le_of_lt hmod) with hin | hend
      · obtain ⟨hdiv, hrest⟩ := succ_same_group hin
        rw [hdiv, hrest, if_pos (Nat.succ_pos _)]
        by_cases hzero : n % (cmd.ecK - 1) = 0
        · rw [if_neg fun hpull => (isPulled_iff hid).1 hpull hzero]
          rw [hzero, if_neg (Nat.lt_irrefl 0)] at ih
          simp only [List.length_nil]
          omega
        · rw [if_pos ((isPulled_iff hid).2 hzero)]
          rw [if_pos (Nat.pos_of_ne_zero hzero)] at ih
          simp only [List.length_singleton]
          omega
      · obtain ⟨hdiv, hrest⟩ := succ_next_group hend
        have hpull : IsPulled cmd n := (isPulled_iff hid).2 (by omega)
        rw [hdiv, hrest, if_neg (Nat.lt_irrefl 0), if_pos hpull]
        rw [if_pos (by omega)] at ih
        simp only [List.length_singleton]
        omega

theorem pulls_first (hid : cmd.id = 0) (n : Nat) : pulls cmd n = List.range n := by
  refine List.filter_eq_self.2 fun p _ => ?_
  exact decide_eq_true (Or.inl hid)

/-- A helper asks for at least what it takes, -/
theorem length_pulls_le (hk : 3 ≤ cmd.ecK) :
    (pulls cmd conf.packetCnt).length ≤ retrieveCnt conf cmd := by
  unfold retrieveCnt
  by_cases hid : cmd.id = 0
  · rw [if_neg (not_not.2 hid), pulls_first hid, List.length_range]
  · have hcount := length_pulls hk hid conf.packetCnt
    rw [if_pos hid]
    split_ifs at hcount ⊢ <;> omega

/-- for just that if all groups are full, -/
theorem length_pulls_eq (hk : 3 ≤ cmd.ecK) (hfull : conf.packetCnt % (cmd.ecK - 1) = 0) :
    (pulls cmd conf.packetCnt).length = retrieveCnt conf cmd := by
  unfold retrieveCnt
  by_cases hid : cmd.id = 0
  · rw [if_neg (not_not.2 hid), pulls_first hid, List.length_range]
  · have hcount := length_pulls hk hid conf.packetCnt
    rw [if_pos hid, hfull, if_neg (fun hle => hid (Nat.le_zero.1 hle))]
    rw [hfull, if_neg (Nat.lt_irrefl 0)] at hcount
    omega

/-- and the last helper for more if one is not. -/
theorem length_pulls_lt (hk : 3 ≤ cmd.ecK) (hid : cmd.id + 1 = cmd.ecK) :
    conf.packetCnt % (cmd.ecK - 1) ≠ 0 →
      (pulls cmd conf.packetCnt).length < retrieveCnt conf cmd := by
  intro hshort
  have hcount := length_pulls hk (show cmd.id ≠ 0 by omega) conf.packetCnt
  have hmod := Nat.mod_lt conf.packetCnt (show 0 < cmd.ecK - 1 by omega)
  unfold retrieveCnt
  rw [if_pos (show cmd.id ≠ 0 by omega), if_neg (by omega)]
  rw [if_pos (Nat.pos_of_ne_zero hshort)] at hcount
  omega

/-- The last helper in the ring sends everything to the first one. -/
theorem tmps_last (hk : 3 ≤ before.ecK) (hid : before.id + 1 = before.ecK) (n : Nat) :
    tmps conf before n = List.range n := by
  refine List.filter_eq_self.2 fun p _ => decide_eq_true ?_
  have hcnt : lastGroupCnt conf before ≤ before.ecK - 1 := by
    have hmod := Nat.mod_lt conf.packetCnt (show 0 < before.ecK - 1 by omega)
    unfold lastGroupCnt
    split <;> omega
  unfold sendKey
  split
  · exact if_neg fun hlast => hlast.1 (by omega)
  · exact if_neg (by omega)

/-- Before the last position the ends of the groups go to the requestor. -/
theorem sendKey_eq_tmp (hid : cmd.id < cmd.ecK - 1) {p : Nat} : p + 1 < conf.packetCnt →
    (sendKey conf cmd p = .tmp cmd.lostBlkName ↔ p % (cmd.ecK - 1) + 1 ≠ cmd.ecK - 1) := by
  intro hp
  unfold sendKey
  rw [if_pos (by omega)]
  split
  case isTrue hlast =>
    constructor
    · intro heq
      cases heq
    · omega
  case isFalse hnot =>
    constructor
    · omega
    · exact fun _ => rfl

/-- A helper expects a slice one position behind the one from which the helper before sends it. -/
theorem tmps_succ_eq_pulls (cmd before : PipeCmd) (hk : 3 ≤ cmd.ecK) (hsame : before.ecK = cmd.ecK)
    (hid : before.id + 1 = cmd.id) (hlt : cmd.id < cmd.ecK) {n : Nat} : n + 1 ≤ conf.packetCnt →
      (tmps conf before n).map (· + 1) = pulls cmd (n + 1) := by
  intro hn
  have hfirst : cmd.id ≠ 0 := by omega
  induction n with
  | zero =>
      rw [pulls_succ, if_neg fun hpull => (isPulled_iff hfirst).1 hpull (Nat.zero_mod _)]
      rfl
  | succ n ih =>
      rw [tmps_succ, pulls_succ, List.map_append, ih (Nat.le_of_succ_le hn)]
      refine congrArg _ ?_
      have hmod := Nat.mod_lt n (show 0 < cmd.ecK - 1 by omega)
      have hkey : sendKey conf before n = .tmp before.lostBlkName ↔
          n % (before.ecK - 1) + 1 ≠ before.ecK - 1 := sendKey_eq_tmp (by omega) (by omega)
      rw [hsame] at hkey
      -- the ends of the groups go to the requestor, and the next positions begin the next groups
      rcases Nat.lt_or_eq_of_le (Nat.succ_le_of_lt hmod) with hin | hend
      · have hrest := (succ_same_group hin).2
        rw [if_pos (hkey.2 (Nat.ne_of_lt hin)), if_pos ((isPulled_iff hfirst).2 (by omega))]
        rfl
      · have hrest := (succ_next_group hend).2
        rw [if_neg fun heq => hkey.1 heq hend, if_neg fun hpull => (isPulled_iff hfirst).1 hpull hrest]
        rfl

/-! ## Full groups -/

section Full

/-- If all groups are full, the last position ends one. -/
theorem last_position (hk : 3 ≤ cmd.ecK) (hfull : conf.packetCnt % (cmd.ecK - 1) = 0) {p : Nat} :
    conf.packetCnt = p + 1 → p % (cmd.ecK - 1) = cmd.ecK - 2 := by
  intro hp
  have hmod := Nat.mod_lt p (show 0 < cmd.ecK - 1 by omega)
  rcases Nat.lt_or_eq_of_le (Nat.succ_le_of_lt hmod) with hin | hend
  · have hrest := (succ_same_group hin).2
    rw [← hp, hfull] at hrest
    omega
  · omega

/-- If all groups are full, a position is sent where its slice is due. -/
theorem sendKey_full (hk : 3 ≤ cmd.ecK) (hid : cmd.id < cmd.ecK)
    (hfull : conf.packetCnt % (cmd.ecK - 1) = 0) {p : Nat} : p < conf.packetCnt →
      sendKey conf cmd p =
        if Last conf.packetCnt cmd.ecK cmd.id p then
          .blk (sliceName cmd.lostBlkName (swap conf.packetCnt (cmd.ecK - 1) cmd.id p))
        else .tmp cmd.lostBlkName := by
  intro hp
  have hg : 0 < cmd.ecK - 1 := by omega
  have hsplit := Nat.div_add_mod p (cmd.ecK - 1)
  have hswap : p % (cmd.ecK - 1) = cmd.ecK - 2 → cmd.id < cmd.ecK - 1 →
      swap conf.packetCnt (cmd.ecK - 1) cmd.id p = cmd.id + p + 2 - cmd.ecK := by
    intro hend hlt
    rw [swap, width_full hfull hg hp, Nat.min_eq_left hlt.le, hend, mirror, if_neg (by omega)]
    omega
  have hlast : Last conf.packetCnt cmd.ecK cmd.id p ↔
      cmd.id ≠ cmd.ecK - 1 ∧ p % (cmd.ecK - 1) = cmd.ecK - 2 := by
    unfold Last
    rw [hfull]
    omega
  rw [if_congr hlast rfl rfl]
  unfold sendKey
  split
  case isTrue hbefore =>
    split
    case isTrue hends => rw [hswap hends.2 (by omega)]
    case isFalse => rfl
  case isFalse hbehind =>
    -- the last position is the end of the last group
    have hend := last_position hk hfull (show conf.packetCnt = p + 1 by omega)
    rw [lastGroupBase, lastGroupCnt, if_pos hfull]
    split
    case isTrue hlt =>
      rw [if_pos ⟨by omega, hend⟩, hswap hend hlt]
      refine congrArg (fun i => ListKey.blk (sliceName cmd.lostBlkName i)) ?_
      omega
    case isFalse hge =>
      rw [if_neg (by omega)]

theorem isPulled_full (hfull : conf.packetCnt % (cmd.ecK - 1) = 0) {p : Nat} :
    p < conf.packetCnt → (IsPulled cmd p ↔ Pulled conf.packetCnt cmd.ecK cmd.id p) := by
  intro hp
  unfold IsPulled Pulled
  rw [hfull]
  omega

/-- If all groups are full, a helper expects the slices in the order in which the helper before
sends them. -/
theorem slices_in_order (cmd before : PipeCmd) (hk : 3 ≤ cmd.ecK) (hfull : conf.packetCnt % (cmd.ecK - 1) = 0)
    (hsame : before.ecK = cmd.ecK) (hid : cmd.id < cmd.ecK) :
    before.id = (if cmd.id = 0 then cmd.ecK - 1 else cmd.id - 1) →
      (tmps conf before conf.packetCnt).map (swap conf.packetCnt (cmd.ecK - 1) before.id) =
        (pulls cmd conf.packetCnt).map (swap conf.packetCnt (cmd.ecK - 1) cmd.id) := by
  intro hring
  have hg : 0 < cmd.ecK - 1 := by omega
  by_cases hzero : cmd.id = 0
  case pos =>
    rw [if_pos hzero] at hring
    rw [tmps_last (by omega) (by omega), pulls_first hzero, hring, hzero]
    refine List.map_congr_left fun p hp => ?_
    exact swap_last hfull hg (List.mem_range.1 hp)
  case neg =>
    rw [if_neg hzero] at hring
    rcases Nat.eq_zero_or_pos conf.packetCnt with hnone | hsome
    · rw [hnone]
      rfl
    · -- the last position goes to the requestor
      obtain ⟨n, hn⟩ := Nat.exists_eq_succ_of_ne_zero (Nat.ne_of_gt hsome)
      have hend : Last conf.packetCnt before.ecK before.id n := by
        rw [hsame]
        exact Or.inl ⟨by omega, last_position hk hfull hn⟩
      have hnot : ¬ sendKey conf before n = .tmp before.lostBlkName := by
        rw [sendKey_full (by omega) (by omega) (hsame ▸ hfull) (by omega), if_pos hend]
        intro heq
        cases heq
      have hlast : tmps conf before (n + 1) = tmps conf before n := by
        rw [tmps_succ, if_neg hnot, List.append_nil]
      rw [hn, Nat.succ_eq_add_one, hlast,
        ← tmps_succ_eq_pulls cmd before hk hsame (by omega) hid (Nat.le_of_eq hn.symm), List.map_map]
      refine List.map_congr_left fun p hp => ?_
      obtain ⟨hp, hkey⟩ := List.mem_filter.1 hp
      have hlt : p + 1 < conf.packetCnt := by
        rw [hn]
        exact Nat.succ_lt_succ (List.mem_range.1 hp)
      have hin := (sendKey_eq_tmp (by omega) hlt).1 (of_decide_eq_true hkey)
      have hmod := Nat.mod_lt p hg
      rw [hsame] at hin
      have hnext : swap conf.packetCnt (cmd.ecK - 1) (before.id + 1) (p + 1) =
          swap conf.packetCnt (cmd.ecK - 1) before.id p :=
        swap_succ hfull (by omega) hlt (by omega)
      rw [show before.id + 1 = cmd.id by omega, hn] at hnext
      exact hnext.symm

end Full

end Order

end CyclDR

end CoRD
