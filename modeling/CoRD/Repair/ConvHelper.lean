import CoRD.Repair.ConvDRWorker

/-!
# ConvHelper — a helper of a conventional repair

`readWorker` reads the packets of the local block and flags them, `requestorCompletion` counts the
packets that are flagged, and `sendWorker` pushes those that are counted.  Nothing holds a helper
up.

The waiting is as in `ConvDRWorker`: a thread that waits may look again at any time, a packet is
taken to be read in one piece, and a log that divides by zero stops its thread.
-/

namespace CoRD

namespace ConvDR

open Lists (Event)

/-! ## The threads -/

/-- The members that the threads of a helper share, and their loop counters: `readWorker` is at
packet `read`, which may be in its buffer, `requestorCompletion` at `pktId`, `sendWorker` at
`sent`. -/
structure Helper where
  diskPkts : Nat → Buf
  diskFlag : Nat → Bool
  waitingToSend : Nat
  read : Nat
  stored : Bool
  pktId : Nat
  sent : Nat

/-- The threads are about to start. -/
def Helper.init : Helper where
  diskPkts := fun _ => zeros
  diskFlag := fun _ => false
  waitingToSend := 0
  read := 0
  stored := false
  pktId := 0
  sent := 0

/-- `sendKey`. -/
def sendKey (ecK id : Nat) (lostBlkName : Str) : ListKey :=
  if ecK = id then .blk lostBlkName else .tmpId lostBlkName id

section Helper

variable (conf : PacketConfig) (blkDir : Str → Buf) (ecK requestorIP id : Nat)
  (lostBlkName localBlkName : Str)

/-- One step of `readWorker`, of `requestorCompletion` or of `sendWorker`. -/
inductive HelperStep (s : Helper) : Event Nat ListKey Msg → Helper → Prop where
  | read (hstored : s.stored = false) (h : s.read < conf.packetCnt)
      (hlog : ∀ i < s.read, (pktOutput i conf.packetCnt).isSome = true) :
      HelperStep s .internal
        { s with
          diskPkts := Function.update s.diskPkts s.read (readPacketFromDisk (blkDir localBlkName)
            (s.diskPkts s.read) conf.packetSize (conf.base s.read))
          stored := true }
  | flag (hstored : s.stored = true) :
      HelperStep s .internal
        { s with
          diskFlag := Function.update s.diskFlag s.read true
          read := s.read + 1
          stored := false }
  -- with `_id` equal to `_ecK` the thread would pull instead
  | complete (hid : id ≠ ecK) (h : s.pktId < conf.packetCnt) (hflag : s.diskFlag s.pktId = true) :
      HelperStep s .internal
        { s with waitingToSend := s.waitingToSend + 1, pktId := s.pktId + 1 }
  | send (hwait : s.sent < s.waitingToSend) (h : s.sent < conf.packetCnt)
      (hlog : ∀ i < s.sent, (pktOutput i conf.packetCnt).isSome = true) :
      HelperStep s
        (.push requestorIP (sendKey ecK id lostBlkName) (packet conf (s.diskPkts s.sent)))
        { s with sent := s.sent + 1 }

/-- The threads of a helper have returned. -/
structure HelperDone (s : Helper) : Prop where
  read : s.read = conf.packetCnt
  stored : s.stored = false
  pktId : s.pktId = conf.packetCnt
  sent : s.sent = conf.packetCnt

/-- What is read of the local block, packet after packet, has been flagged, counted and sent in
turn. -/
structure HelperOk (es : List (Event Nat ListKey Msg)) (s : Helper) : Prop where
  read : s.read ≤ conf.packetCnt
  stored : s.stored = true → s.read < conf.packetCnt
  flag : ∀ p, s.diskFlag p = true ↔ p < s.read
  bytes : ∀ p, p < s.read ∨ p = s.read ∧ s.stored = true →
    Holds conf (s.diskPkts p) fun x => blkDir localBlkName (conf.base p + x)
  pktId : s.pktId ≤ s.read
  waitingToSend : s.waitingToSend = s.pktId
  sent : s.sent ≤ s.waitingToSend
  pushes : Lists.pushes es = (List.range s.sent).map fun p =>
    (requestorIP, sendKey ecK id lostBlkName, conf.packet (blkDir localBlkName) p)
  pops : ∀ h k m, .pop h k m ∉ es
  length : es.length = 2 * s.read + (if s.stored = true then 1 else 0) + s.pktId + s.sent

end Helper

section HelperRun

variable {conf : PacketConfig} {blkDir : Str → Buf} {ecK requestorIP id : Nat}
  {lostBlkName localBlkName : Str} {es : List (Event Nat ListKey Msg)} {s s' : Helper}

theorem helperOk_init :
    HelperOk conf blkDir ecK requestorIP id lostBlkName localBlkName [] Helper.init where
  read := Nat.zero_le _
  stored := fun hnever => nomatch hnever
  flag := by
    intro p
    constructor
    · intro hnever
      cases hnever
    · exact fun hlt => absurd hlt (Nat.not_lt_zero p)
  bytes := by
    intro p hp
    rcases hp with hlt | ⟨-, hnever⟩
    · exact absurd hlt (Nat.not_lt_zero p)
    · cases hnever
  pktId := Nat.le_refl _
  waitingToSend := rfl
  sent := Nat.le_refl _
  pushes := rfl
  pops := fun _ _ _ => List.not_mem_nil
  length := rfl

/-- An event at no list. -/
theorem HelperOk.internal
    (h : HelperOk conf blkDir ecK requestorIP id lostBlkName localBlkName es s) :
    Lists.pushes (es ++ [.internal]) = Lists.pushes es ∧
      (∀ h k m, .pop h k m ∉ es ++ [.internal]) ∧
      (es ++ [Event.internal]).length = es.length + 1 := by
  refine ⟨?_, fun h' k m hmem => ?_, ?_⟩
  · rw [Lists.pushes_append]
    exact List.append_nil _
  · rcases List.mem_append.1 hmem with hold | hnew
    · exact h.pops h' k m hold
    · cases List.mem_singleton.1 hnew
  · rw [List.length_append]
    rfl

/-- A packet is in its buffer. -/
theorem HelperOk.store
    (h : HelperOk conf blkDir ecK requestorIP id lostBlkName localBlkName es s)
    (hstored : s.stored = false) (hlt : s.read < conf.packetCnt) :
    HelperOk conf blkDir ecK requestorIP id lostBlkName localBlkName (es ++ [.internal])
      { s with
        diskPkts := Function.update s.diskPkts s.read (readPacketFromDisk (blkDir localBlkName)
          (s.diskPkts s.read) conf.packetSize (conf.base s.read))
        stored := true } := by
  obtain ⟨hpushes, hpops, hmore⟩ := h.internal
  constructor
  case read => exact h.read
  case stored => exact fun _ => hlt
  case flag => exact h.flag
  case bytes =>
    intro p hp x h0 hx
    dsimp only at hp ⊢
    by_cases hnew : p = s.read
    · have hmem : (0 : Int) ≤ x ∧ x < 0 + conf.packetSize := by omega
      rw [hnew, Function.update_self, readPacketFromDisk, memcpy_of_mem hmem,
        Buf.advance_apply, Int.sub_zero]
    · rw [Function.update_of_ne hnew]
      exact h.bytes p (Or.inl (hp.resolve_right fun hlast => hnew hlast.1)) x h0 hx
  case pktId => exact h.pktId
  case waitingToSend => exact h.waitingToSend
  case sent => exact h.sent
  case pushes => exact hpushes.trans h.pushes
  case pops => exact hpops
  case length =>
    rw [hmore, h.length, hstored]
    simp only [Bool.false_eq_true, if_false, if_true]
    omega

/-- Its flag is set. -/
theorem HelperOk.flagged
    (h : HelperOk conf blkDir ecK requestorIP id lostBlkName localBlkName es s)
    (hstored : s.stored = true) :
    HelperOk conf blkDir ecK requestorIP id lostBlkName localBlkName (es ++ [.internal])
      { s with
        diskFlag := Function.update s.diskFlag s.read true
        read := s.read + 1
        stored := false } := by
  obtain ⟨hpushes, hpops, hmore⟩ := h.internal
  constructor
  case read => exact h.stored hstored
  case stored => exact fun hnever => nomatch hnever
  case flag =>
    intro p
    dsimp only
    by_cases hnew : p = s.read
    · simp [hnew]
    · rw [Function.update_of_ne hnew, h.flag]
      omega
  case bytes =>
    intro p hp
    refine h.bytes p ?_
    rcases hp with hlt | ⟨-, hnever⟩
    · exact (Nat.lt_succ_iff_lt_or_eq.1 hlt).imp_right fun heq => ⟨heq, hstored⟩
    · cases hnever
  case pktId => exact Nat.le_succ_of_le h.pktId
  case waitingToSend => exact h.waitingToSend
  case sent => exact h.sent
  case pushes => exact hpushes.trans h.pushes
  case pops => exact hpops
  case length =>
    rw [hmore, h.length, hstored]
    simp only [Bool.false_eq_true, if_false, if_true]
    omega

/-- It is counted. -/
theorem HelperOk.complete
    (h : HelperOk conf blkDir ecK requestorIP id lostBlkName localBlkName es s)
    (hflag : s.diskFlag s.pktId = true) :
    HelperOk conf blkDir ecK requestorIP id lostBlkName localBlkName (es ++ [.internal])
      { s with waitingToSend := s.waitingToSend + 1, pktId := s.pktId + 1 } := by
  obtain ⟨hpushes, hpops, hmore⟩ := h.internal
  constructor
  case read => exact h.read
  case stored => exact h.stored
  case flag => exact h.flag
  case bytes => exact h.bytes
  case pktId => exact (h.flag _).1 hflag
  case waitingToSend => exact congrArg (· + 1) h.waitingToSend
  case sent => exact Nat.le_succ_of_le h.sent
  case pushes => exact hpushes.trans h.pushes
  case pops => exact hpops
  case length =>
    rw [hmore, h.length]
    dsimp only
    omega

/-- It is sent. -/
theorem HelperOk.send
    (h : HelperOk conf blkDir ecK requestorIP id lostBlkName localBlkName es s)
    (hwait : s.sent < s.waitingToSend) :
    HelperOk conf blkDir ecK requestorIP id lostBlkName localBlkName
      (es ++ [.push requestorIP (sendKey ecK id lostBlkName) (packet conf (s.diskPkts s.sent))])
      { s with sent := s.sent + 1 } := by
  have hread : s.sent < s.read := by
    rw [h.waitingToSend] at hwait
    exact hwait.trans_le h.pktId
  constructor
  case read => exact h.read
  case stored => exact h.stored
  case flag => exact h.flag
  case bytes => exact h.bytes
  case pktId => exact h.pktId
  case waitingToSend => exact h.waitingToSend
  case sent => exact hwait
  case pushes =>
    have hpkt : packet conf (s.diskPkts s.sent) = conf.packet (blkDir localBlkName) s.sent :=
      congrArg ListMsg.packet (bytesOf_congr (h.bytes _ (Or.inl hread)))
    rw [Lists.pushes_append, h.pushes, List.range_succ, List.map_append, hpkt]
    rfl
  case pops =>
    intro h' k m hmem
    rcases List.mem_append.1 hmem with hold | hnew
    · exact h.pops h' k m hold
    · cases List.mem_singleton.1 hnew
  case length =>
    rw [List.length_append, h.length, List.length_singleton]
    dsimp only
    omega

theorem helperOk_of_runs (hruns : Lists.LocalRuns
    (HelperStep conf blkDir ecK requestorIP id lostBlkName localBlkName) Helper.init es s) :
    HelperOk conf blkDir ecK requestorIP id lostBlkName localBlkName es s := by
  induction hruns with
  | refl => exact helperOk_init
  | snoc _ hstep ih =>
      cases hstep with
      | read hstored hlt hlog => exact ih.store hstored hlt
      | flag hstored => exact ih.flagged hstored
      | complete hid hlt hflag => exact ih.complete hflag
      | send hwait hlt hlog => exact ih.send hwait

theorem HelperOk.sent_le
    (h : HelperOk conf blkDir ecK requestorIP id lostBlkName localBlkName es s) :
    s.sent ≤ conf.packetCnt := by
  have hsent := h.sent
  rw [h.waitingToSend] at hsent
  exact (hsent.trans h.pktId).trans h.read

theorem HelperOk.length_le
    (h : HelperOk conf blkDir ecK requestorIP id lostBlkName localBlkName es s) :
    es.length ≤ 4 * conf.packetCnt := by
  have hlength := h.length
  have hread := h.read
  have hsent := h.sent_le
  have hpkt := h.pktId
  by_cases hstored : s.stored = true
  · have hlt := h.stored hstored
    rw [if_pos hstored] at hlength
    omega
  · rw [if_neg hstored] at hlength
    omega

/-- Nothing holds a helper up. -/
theorem HelperOk.done (h : HelperOk conf blkDir ecK requestorIP id lostBlkName localBlkName es s)
    (hlog : conf.packetCnt ≠ 3) (hid : id ≠ ecK) :
    (∀ e s', ¬ HelperStep conf blkDir ecK requestorIP id lostBlkName localBlkName s e s') →
      HelperDone conf s := by
  intro hstuck
  have hlogs : ∀ n : Nat, ∀ i < n, (pktOutput i conf.packetCnt).isSome = true :=
    fun _ i _ => pktOutput_isSome i hlog
  have hstored : s.stored = false := by
    by_contra hyes
    exact hstuck _ _ (.flag (by simpa using hyes))
  have hread : s.read = conf.packetCnt := by
    by_contra hne
    exact hstuck _ _ (.read hstored (lt_of_le_of_ne h.read hne) (hlogs _))
  have hpkt : s.pktId = conf.packetCnt := by
    by_contra hne
    have hlt : s.pktId < conf.packetCnt := lt_of_le_of_ne (hread ▸ h.pktId) hne
    exact hstuck _ _ (.complete hid hlt ((h.flag _).2 (hread ▸ hlt)))
  have hsent : s.sent = conf.packetCnt := by
    by_contra hne
    have hlt : s.sent < conf.packetCnt := lt_of_le_of_ne h.sent_le hne
    exact hstuck _ _ (.send (by rw [h.waitingToSend, hpkt]; exact hlt) hlt (hlogs _))
  exact ⟨hread, hstored, hpkt, hsent⟩

end HelperRun

end ConvDR

end CoRD
