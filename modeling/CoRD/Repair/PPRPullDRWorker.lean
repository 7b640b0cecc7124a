import CoRD.Network.Server
import CoRD.Repair.Command
import CoRD.Repair.DRWorker
import CoRD.Repair.PPRIndices

/-!
# PPRPullDRWorker — a node of a reduction tree

A helper reads and scales the packets of its block, xors the packets of its children to them, and
leaves the sums for its parent.  The requestor does the same with packets of zeros.  Each child has
a reading thread of its own, and a packet is sent when all of them have passed it.

The threads wait for one another by counters.  A thread that waits may look at its counter again at
any time, and a packet is taken to be read from disk in one piece.  A log that divides by zero stops
its thread.
-/

namespace CoRD

namespace PPRPull

open Lists (Event)

abbrev Msg := ListMsg PPRCmd

/-- The members that the threads share, and what they hold: the reply that a reading thread has not
xored yet, and the number of packets that have been sent. -/
structure State where
  diskPkts : Nat → Buf
  waitingToPull : Nat
  replies : Nat → Option Msg
  indicesWaiting : Nat → Nat
  waitingToSend : Nat
  sent : Nat

/-- A command that is about to start its threads; the packets were cleared when they were allocated,
or by `cleanup` after the command before. -/
def State.init : State where
  diskPkts := fun _ => zeros
  waitingToPull := 0
  replies := fun _ => none
  indicesWaiting := fun _ => 0
  waitingToSend := 0
  sent := 0

/-- The loop for `minNum` in `readThread`. -/
def minNum (packetCnt totNum : Nat) (indicesWaiting : Nat → Nat) : Nat :=
  (List.range totNum).foldl
    (fun minNum j => if minNum > indicesWaiting j then indicesWaiting j else minNum) packetCnt

/-- The children that `puller` pulls from. -/
def children (ecK id : Nat) : Option (List Nat) :=
  let ecK := BitVec.ofNat 32 ecK
  let id := BitVec.ofNat 32 id
  let children :=
    if id < ecK then getChildrenIndices ecK 32 id
    else (getID 32 id).bind (getChildrenIndices ecK 32)
  children.map (List.map BitVec.toNat)

section Threads

variable (conf : PacketConfig) (blkDir : Str → Buf) (localIP : Nat) (cmd : PPRCmd)

/-- The host at which the packets of a child are popped. -/
def pullIP (child : Nat) : Nat :=
  if cmd.id ≠ cmd.ecK then cmd.holderIps.getD child 0 else localIP

/-- The host of `wrtCtx`. -/
def writeIP : Nat :=
  if BitVec.ofNat 32 cmd.ecK ≤ PPRnextIP (BitVec.ofNat 32 cmd.id) then
    cmd.holderIps.getD cmd.ecK 0
  else localIP

/-- The list that packets are pushed to. -/
def writeKey : ListKey :=
  if cmd.id = cmd.ecK then .blk cmd.lostBlkName else .tmpId cmd.lostBlkName cmd.id

/-- A packet that is read and scaled. -/
def readPkt (pktId : Nat) (pkt : Buf) : Buf :=
  RSUtil.multiply
    (readPacketFromDisk (blkDir cmd.localBlkName) pkt conf.packetSize (pktId * conf.packetSize))
    cmd.coefficient conf.packetSize

/-- What is sent for a packet. -/
def packet (s : State) (i : Nat) : Msg :=
  .packet (bytesOf (s.diskPkts i) conf.packetSize)

/-- What a reading thread does with a reply, under `_readThreadMtx`. -/
def State.xor (s : State) (totNum num : Nat) (m : Msg) : State :=
  let i := s.indicesWaiting num
  let indicesWaiting := Function.update s.indicesWaiting num (i + 1)
  let minNum := minNum conf.packetCnt totNum indicesWaiting
  { s with
    diskPkts := Function.update s.diskPkts i
      (XORBuffers (s.diskPkts i) m.str conf.packetSize)
    replies := Function.update s.replies num none
    indicesWaiting := indicesWaiting
    waitingToSend := if s.waitingToSend < minNum then minNum else s.waitingToSend }

/-- One step of one of the threads: `readWorker` with and without a file, a `readThread`, `puller`
without children, and the loop of `doProcess`. -/
inductive Step (s : State) : Event Nat ListKey Msg → State → Prop where
  | read (hname : cmd.localBlkName ≠ []) (h : s.waitingToPull < conf.packetCnt)
      (hlog : (pktOutput s.waitingToPull conf.packetCnt).isSome = true) :
      Step s .internal
        { s with
          diskPkts := Function.update s.diskPkts s.waitingToPull
            (readPkt conf blkDir cmd s.waitingToPull (s.diskPkts s.waitingToPull))
          waitingToPull := s.waitingToPull + 1 }
  -- a node without a block of its own counts the packets and reads nothing
  | skip (hname : cmd.localBlkName = []) (h : s.waitingToPull < conf.packetCnt)
      (hlog : ∀ i < s.waitingToPull, (pktOutput i conf.packetCnt).isSome = true) :
      Step s .internal { s with waitingToPull := s.waitingToPull + 1 }
  | pull {children : List Nat} {num child : Nat} {m : Msg}
      (hchildren : PPRPull.children cmd.ecK cmd.id = some children)
      (hchild : children[num]? = some child) (hreply : s.replies num = none)
      (h : s.indicesWaiting num < s.waitingToPull) :
      Step s (.pop (pullIP localIP cmd child) (.tmpId cmd.lostBlkName child) m)
        { s with replies := Function.update s.replies num (some m) }
  | xor {children : List Nat} {num : Nat} {m : Msg}
      (hchildren : PPRPull.children cmd.ecK cmd.id = some children)
      (hreply : s.replies num = some m) :
      Step s .internal (s.xor conf children.length num m)
  -- no child: what is read is ready to be sent
  | pass (hchildren : PPRPull.children cmd.ecK cmd.id = some [])
      (h : s.waitingToSend < s.waitingToPull) :
      Step s .internal { s with waitingToSend := s.waitingToSend + 1 }
  | send (h : s.sent < s.waitingToSend)
      (hlog : ∀ i < s.sent, (pktOutput i conf.packetCnt).isSome = true) :
      Step s (.push (writeIP localIP cmd) (writeKey cmd) (packet conf s s.sent))
        { s with sent := s.sent + 1 }

/-- All threads have returned. -/
structure Done (s : State) : Prop where
  read : s.waitingToPull = conf.packetCnt
  sent : s.sent = conf.packetCnt
  pulled : ∃ children, PPRPull.children cmd.ecK cmd.id = some children ∧
    ∀ num < children.length, s.indicesWaiting num = conf.packetCnt

/-! ## What a node has done -/

/-- What a node has of its own. -/
def own (p : Nat) : Buf :=
  if cmd.localBlkName = [] then zeros else readPkt conf blkDir cmd p zeros

/-- What has been pulled from a child, at a position. -/
def received (es : List (Event Nat ListKey Msg)) (child p : Nat) : Msg :=
  (Lists.popped (pullIP localIP cmd child) (.tmpId cmd.lostBlkName child) es).getD p (.packet [])

/-- What the children have added to a byte of a packet: `XORBuffers` stops at the last word. -/
def added (es : List (Event Nat ListKey Msg)) (children : List Nat) (indicesWaiting : Nat → Nat)
    (p : Nat) (x : Int) : GF256 :=
  if x < (8 * (conf.packetSize / 8) : Nat) then
    (Finset.range children.length).sum fun num =>
      if p < indicesWaiting num then
        (received localIP cmd es (children.getD num 0) p).str x
      else 0
  else 0

/-- The threads follow one another through the packets, and a packet holds what has been read and
what the children have added. -/
structure Node (children : List Nat) (es : List (Event Nat ListKey Msg)) (s : State) : Prop where
  waitingToPull : s.waitingToPull ≤ conf.packetCnt
  fresh : ∀ p, s.waitingToPull ≤ p → s.diskPkts p = zeros
  indicesWaiting : ∀ num, s.indicesWaiting num ≤ s.waitingToPull
  replies : ∀ num m, s.replies num = some m →
    num < children.length ∧ s.indicesWaiting num < s.waitingToPull
  pops : ∀ num child, children[num]? = some child → ∃ xored,
    Lists.popped (pullIP localIP cmd child) (.tmpId cmd.lostBlkName child) es =
      xored ++ (s.replies num).toList ∧ xored.length = s.indicesWaiting num
  onlyPops : ∀ h k m, .pop h k m ∈ es →
    ∃ child ∈ children, h = pullIP localIP cmd child ∧ k = .tmpId cmd.lostBlkName child
  bytes : ∀ p < s.waitingToPull, ∀ x : Int, 0 ≤ x → x < conf.packetSize →
    s.diskPkts p x =
      own conf blkDir cmd p x + added conf localIP cmd es children s.indicesWaiting p x
  waitingToSend : s.waitingToSend ≤ s.waitingToPull
  passed : children ≠ [] →
    s.waitingToSend = minNum conf.packetCnt children.length s.indicesWaiting
  sent : s.sent ≤ s.waitingToSend
  pushes : Lists.pushes es = (List.range s.sent).map fun p =>
    (writeIP localIP cmd, writeKey cmd, packet conf s p)

end Threads

section Run

variable {conf : PacketConfig} {blkDir : Str → Buf} {localIP : Nat} {cmd : PPRCmd}

/-- The loop looks for what all threads have passed. -/
theorem le_minNum {n packetCnt totNum : Nat} {indicesWaiting : Nat → Nat} :
    n ≤ minNum packetCnt totNum indicesWaiting ↔
      n ≤ packetCnt ∧ ∀ num < totNum, n ≤ indicesWaiting num := by
  induction totNum with
  | zero =>
      exact ⟨fun h => ⟨h, fun num hnum => absurd hnum (Nat.not_lt_zero num)⟩, fun h => h.1⟩
  | succ totNum ih =>
      have hlast : n ≤ minNum packetCnt (totNum + 1) indicesWaiting ↔
          n ≤ minNum packetCnt totNum indicesWaiting ∧ n ≤ indicesWaiting totNum := by
        rw [minNum, List.range_succ, List.foldl_append, List.foldl_cons, List.foldl_nil]
        show n ≤ (if minNum packetCnt totNum indicesWaiting > indicesWaiting totNum then
          indicesWaiting totNum else minNum packetCnt totNum indicesWaiting) ↔ _
        split <;> omega
      rw [hlast, ih, and_assoc]
      refine and_congr_right fun _ => ?_
      constructor
      · rintro ⟨hall, hnew⟩ num hnum
        rcases Nat.lt_or_eq_of_le (Nat.le_of_lt_succ hnum) with hold | rfl
        · exact hall num hold
        · exact hnew
      · exact fun hall => ⟨fun num hnum => hall num (Nat.lt_succ_of_lt hnum),
          hall totNum (Nat.lt_succ_self totNum)⟩

theorem minNum_le {num packetCnt totNum : Nat} {indicesWaiting : Nat → Nat} (hnum : num < totNum) :
    minNum packetCnt totNum indicesWaiting ≤ indicesWaiting num :=
  (le_minNum.1 (Nat.le_refl _)).2 num hnum

/-- One thread passes one packet more: the least does not get less, and at most one more. -/
theorem minNum_update (packetCnt totNum : Nat) (indicesWaiting : Nat → Nat) (num : Nat) :
    minNum packetCnt totNum indicesWaiting ≤ minNum packetCnt totNum
        (Function.update indicesWaiting num (indicesWaiting num + 1)) ∧
      minNum packetCnt totNum (Function.update indicesWaiting num (indicesWaiting num + 1)) ≤
        minNum packetCnt totNum indicesWaiting + 1 := by
  have hmore : ∀ j, indicesWaiting j ≤
        Function.update indicesWaiting num (indicesWaiting num + 1) j ∧
      Function.update indicesWaiting num (indicesWaiting num + 1) j ≤ indicesWaiting j + 1 := by
    intro j
    by_cases hj : j = num
    · rw [hj, Function.update_self]
      exact ⟨Nat.le_succ _, Nat.le_refl _⟩
    · rw [Function.update_of_ne hj]
      exact ⟨Nat.le_refl _, Nat.le_succ _⟩
  have hold := le_minNum.1 (Nat.le_refl (minNum packetCnt totNum indicesWaiting))
  have hnew := le_minNum.1 (Nat.le_refl (minNum packetCnt totNum
    (Function.update indicesWaiting num (indicesWaiting num + 1))))
  constructor
  · exact le_minNum.2 ⟨hold.1, fun j hj => (hold.2 j hj).trans (hmore j).1⟩
  · -- what is one less than the new least was passed by all before
    refine Nat.le_add_of_sub_le (le_minNum.2 ⟨(Nat.sub_le _ 1).trans hnew.1, fun j hj => ?_⟩)
    exact Nat.sub_le_of_le_add ((hnew.2 j hj).trans (hmore j).2)

/-- `puller` has one reading thread for each child. -/
theorem children_nodup {ecK id : Nat} {children : List Nat} :
    PPRPull.children ecK id = some children → children.Nodup := by
  intro h
  rcases Option.map_eq_some_iff.1 h with ⟨l, hl, rfl⟩
  have hnodup : l.Nodup := by
    split at hl
    · exact getChildrenIndices_nodup hl
    · rcases Option.bind_eq_some_iff.1 hl with ⟨root, -, hroot⟩
      exact getChildrenIndices_nodup hroot
  exact hnodup.map fun a b hab => BitVec.eq_of_toNat_eq hab

theorem getElem?_getD {children : List Nat} {num : Nat} : num < children.length →
    children[num]? = some (children.getD num 0) := by
  intro hnum
  rw [List.getD_eq_getElem _ 0 hnum, List.getElem?_eq_getElem hnum]

/-- One thread has passed one packet more. -/
theorem sum_passed {n num i : Nat} (f : Nat → GF256) (indicesWaiting : Nat → Nat) (p : Nat)
    (hi : indicesWaiting num = i) : num < n →
      ((Finset.range n).sum fun j =>
          if p < Function.update indicesWaiting num (i + 1) j then f j else 0) =
        ((Finset.range n).sum fun j => if p < indicesWaiting j then f j else 0) +
          if p = i then f num else 0 := by
  intro hnum
  have hone : ∀ j, (if p < Function.update indicesWaiting num (i + 1) j then f j else 0) =
      (if p < indicesWaiting j then f j else 0) +
        if num = j then (if p = i then f num else 0) else 0 := by
    intro j
    by_cases hj : num = j
    · subst hj
      rw [Function.update_self, hi, if_pos rfl]
      by_cases hp : p = i
      · rw [if_pos (by omega), if_neg (by omega), if_pos hp, zero_add]
      · rw [if_neg hp, add_zero]
        exact if_congr (by omega) rfl rfl
    · rw [Function.update_of_ne (Ne.symm hj), if_neg hj, add_zero]
  rw [Finset.sum_congr rfl fun j _ => hone j, Finset.sum_add_distrib, Finset.sum_ite_eq,
    if_pos (Finset.mem_range.2 hnum)]

/-- What was received at a position stays. -/
theorem received_append {es : List (Event Nat ListKey Msg)} {child p : Nat}
    (es' : List (Event Nat ListKey Msg)) :
    p < (Lists.popped (pullIP localIP cmd child) (.tmpId cmd.lostBlkName child) es).length →
      received localIP cmd (es ++ es') child p = received localIP cmd es child p := by
  intro hp
  rw [received, received, Lists.popped_append, List.getD_append _ _ _ _ hp]

/-- The lists of different children are different. -/
theorem popped_pull_of_ne {child child' : Nat} (m : Msg) : child' ≠ child →
    Lists.popped (pullIP localIP cmd child) (ListKey.tmpId cmd.lostBlkName child)
      [.pop (pullIP localIP cmd child') (.tmpId cmd.lostBlkName child') m] = [] := by
  intro hne
  refine Lists.popped_pop_of_ne m fun heq => ?_
  injection heq.2 with _ hid
  exact hne hid

variable {children : List Nat} {es : List (Event Nat ListKey Msg)} {s s' : State}

theorem Node.init (conf : PacketConfig) (blkDir : Str → Buf) (localIP : Nat) (cmd : PPRCmd)
    (children : List Nat) : Node conf blkDir localIP cmd children [] State.init where
  waitingToPull := Nat.zero_le _
  fresh := fun _ _ => rfl
  indicesWaiting := fun _ => Nat.le_refl 0
  replies := fun _ _ h => nomatch h
  pops := fun _ _ _ => ⟨[], rfl, rfl⟩
  onlyPops := fun _ _ _ h => absurd h List.not_mem_nil
  bytes := fun p hp => absurd hp (Nat.not_lt_zero p)
  waitingToSend := Nat.le_refl 0
  passed := by
    intro hne
    refine (Nat.le_zero.1 ?_).symm
    exact minNum_le (List.length_pos_iff.2 hne)
  sent := Nat.le_refl 0
  pushes := rfl

/-- What a child has given at the positions that its thread has passed. -/
theorem Node.lt_length (h : Node conf blkDir localIP cmd children es s) {num child p : Nat}
    (hchild : children[num]? = some child) : p < s.indicesWaiting num →
      p < (Lists.popped (pullIP localIP cmd child) (.tmpId cmd.lostBlkName child) es).length := by
  intro hp
  rcases h.pops num child hchild with ⟨xored, hpopped, hlength⟩
  rw [hpopped, List.length_append]
  omega

theorem Node.sent_le (h : Node conf blkDir localIP cmd children es s) :
    s.sent ≤ conf.packetCnt :=
  (h.sent.trans h.waitingToSend).trans h.waitingToPull

/-- All threads have passed what has been sent. -/
theorem Node.lt_indicesWaiting (h : Node conf blkDir localIP cmd children es s) {num p : Nat}
    (hnum : num < children.length) : p < s.sent → p < s.indicesWaiting num := by
  intro hp
  have hne : children ≠ [] := by
    rintro rfl
    exact absurd hnum (Nat.not_lt_zero num)
  have hsent := h.sent
  rw [h.passed hne] at hsent
  exact (hp.trans_le hsent).trans_le (minNum_le hnum)

/-- What the children have added does not change with what comes in. -/
theorem Node.added_append (h : Node conf blkDir localIP cmd children es s)
    (es' : List (Event Nat ListKey Msg)) (p : Nat) (x : Int) :
    added conf localIP cmd (es ++ es') children s.indicesWaiting p x =
      added conf localIP cmd es children s.indicesWaiting p x := by
  unfold added
  refine if_congr Iff.rfl (Finset.sum_congr rfl fun num hnum => ?_) rfl
  by_cases hp : p < s.indicesWaiting num
  · have hget := getElem?_getD (Finset.mem_range.1 hnum)
    rw [if_pos hp, if_pos hp, received_append es' (h.lt_length hget hp)]
  · rw [if_neg hp, if_neg hp]

/-- Changing the packets behind those that were sent. -/
theorem packets_congr {n : Nat} (hsame : ∀ p < n, s'.diskPkts p = s.diskPkts p) :
    ((List.range n).map fun p => (writeIP localIP cmd, writeKey cmd, packet conf s' p)) =
      (List.range n).map fun p => (writeIP localIP cmd, writeKey cmd, packet conf s p) := by
  refine List.map_congr_left fun p hp => ?_
  rw [packet, packet, hsame p (List.mem_range.1 hp)]

/-- An event that is neither a pop nor a push. -/
theorem Node.internal (h : Node conf blkDir localIP cmd children es s) :
    (∀ h' k, Lists.popped h' k (es ++ [.internal]) = Lists.popped h' k es) ∧
      (∀ h' k m, .pop h' k m ∈ es ++ [.internal] → ∃ child ∈ children,
        h' = pullIP localIP cmd child ∧ k = .tmpId cmd.lostBlkName child) ∧
      Lists.pushes (es ++ [.internal]) = Lists.pushes es := by
  refine ⟨fun h' k => ?_, fun h' k m hmem => ?_, ?_⟩
  · rw [Lists.popped_append]
    exact List.append_nil _
  · rcases List.mem_append.1 hmem with hold | hnew
    · exact h.onlyPops h' k m hold
    · cases List.mem_singleton.1 hnew
  · rw [Lists.pushes_append]
    exact List.append_nil _

/-- At a packet that no reading thread has passed. -/
theorem added_eq_zero {indicesWaiting : Nat → Nat} {p : Nat} (x : Int) :
    (∀ num, indicesWaiting num ≤ p) →
      added conf localIP cmd es children indicesWaiting p x = 0 := by
  intro hle
  unfold added
  split
  · exact Finset.sum_eq_zero fun num _ => if_neg (Nat.not_lt_of_le (hle num))
  · rfl

/-- One more packet is ready to be xored. -/
theorem Node.count (h : Node conf blkDir localIP cmd children es s) (hlt : s.waitingToPull < conf.packetCnt)
    {diskPkts : Nat → Buf} (hsame : ∀ p, p ≠ s.waitingToPull → diskPkts p = s.diskPkts p) :
    diskPkts s.waitingToPull = own conf blkDir cmd s.waitingToPull →
      Node conf blkDir localIP cmd children (es ++ [.internal])
        { s with diskPkts := diskPkts, waitingToPull := s.waitingToPull + 1 } := by
  intro hown
  rcases h.internal with ⟨hpopped, honly, hpushes⟩
  have hsent : s.sent ≤ s.waitingToPull := h.sent.trans h.waitingToSend
  constructor
  case waitingToPull => exact hlt
  case fresh => exact fun p hp => (hsame p (Nat.ne_of_gt hp)).trans (h.fresh p (Nat.le_of_succ_le hp))
  case indicesWaiting => exact fun num => Nat.le_succ_of_le (h.indicesWaiting num)
  case replies =>
    intro num m hreply
    exact ⟨(h.replies num m hreply).1, Nat.lt_succ_of_lt (h.replies num m hreply).2⟩
  case pops =>
    intro num child hchild
    rw [hpopped]
    exact h.pops num child hchild
  case onlyPops => exact honly
  case bytes =>
    intro p hp x h0 hx
    rw [h.added_append]
    rcases Nat.lt_or_eq_of_le (Nat.le_of_lt_succ hp) with hold | rfl
    · exact (congrFun (hsame p (Nat.ne_of_lt hold)) x).trans (h.bytes p hold x h0 hx)
    · rw [added_eq_zero x h.indicesWaiting, add_zero]
      exact congrFun hown x
  case waitingToSend => exact Nat.le_succ_of_le h.waitingToSend
  case passed => exact h.passed
  case sent => exact h.sent
  case pushes =>
    rw [hpushes, h.pushes]
    exact (packets_congr fun p hp => hsame p (Nat.ne_of_lt (hp.trans_le hsent))).symm

/-- A reply has come in. -/
theorem Node.pull (h : Node conf blkDir localIP cmd children es s) (hnodup : children.Nodup)
    {num child : Nat} (m : Msg) (hchild : children[num]? = some child)
    (hreply : s.replies num = none) :
    s.indicesWaiting num < s.waitingToPull →
      Node conf blkDir localIP cmd children
        (es ++ [.pop (pullIP localIP cmd child) (.tmpId cmd.lostBlkName child) m])
        { s with replies := Function.update s.replies num (some m) } := by
  intro hlt
  have hnum : num < children.length := (List.getElem?_eq_some_iff.1 hchild).1
  constructor
  case waitingToPull => exact h.waitingToPull
  case fresh => exact h.fresh
  case indicesWaiting => exact h.indicesWaiting
  case replies =>
    intro num' m' hm'
    by_cases hn : num' = num
    · subst hn
      exact ⟨hnum, hlt⟩
    · exact h.replies num' m' ((Function.update_of_ne hn _ _).symm.trans hm')
  case pops =>
    intro num' child' hchild'
    rcases h.pops num' child' hchild' with ⟨xored, hpopped, hlength⟩
    refine ⟨xored, ?_, hlength⟩
    show _ = xored ++ (Function.update s.replies num (some m) num').toList
    rw [Lists.popped_append, hpopped]
    by_cases hn : num' = num
    · subst hn
      rw [hchild] at hchild'
      cases hchild'
      rw [Lists.popped_pop_self, hreply, Function.update_self, Option.toList_none, List.append_nil]
      rfl
    · -- another reader pops the list of another child
      have hne : child ≠ child' := by
        rintro rfl
        exact hn ((List.getElem?_inj hnum hnodup).1 (hchild.trans hchild'.symm)).symm
      rw [popped_pull_of_ne m hne, Function.update_of_ne hn, List.append_nil]
  case onlyPops =>
    intro h' k m' hmem
    rcases List.mem_append.1 hmem with hold | hnew
    · exact h.onlyPops h' k m' hold
    · cases List.mem_singleton.1 hnew
      exact ⟨child, List.mem_of_getElem? hchild, rfl, rfl⟩
  case bytes =>
    intro p hp x h0 hx
    rw [h.added_append]
    exact h.bytes p hp x h0 hx
  case waitingToSend => exact h.waitingToSend
  case passed => exact h.passed
  case sent => exact h.sent
  case pushes =>
    rw [Lists.pushes_append, h.pushes]
    exact List.append_nil _

/-- What a thread adds with the reply that it holds. -/
theorem Node.added_xor (h : Node conf blkDir localIP cmd children es s) {num : Nat} {m : Msg}
    (hreply : s.replies num = some m) (p : Nat) (x : Int) :
    added conf localIP cmd (es ++ [.internal]) children
        (Function.update s.indicesWaiting num (s.indicesWaiting num + 1)) p x =
      added conf localIP cmd es children s.indicesWaiting p x +
        if x < (8 * (conf.packetSize / 8) : Nat) then
          if p = s.indicesWaiting num then m.str x else 0
        else 0 := by
  have hnum := (h.replies num m hreply).1
  have hevents : ∀ child, received localIP cmd (es ++ [.internal]) child p =
      received localIP cmd es child p := by
    intro child
    rw [received, h.internal.1, received]
  have hm : received localIP cmd es (children.getD num 0) (s.indicesWaiting num) = m := by
    rcases h.pops num _ (getElem?_getD hnum) with ⟨xored, hold, hlength⟩
    rw [received, hold, hreply, ← hlength]
    simp
  unfold added
  by_cases hword : x < (8 * (conf.packetSize / 8) : Nat)
  · rw [if_pos hword, if_pos hword, if_pos hword]
    simp only [hevents]
    rw [sum_passed (fun num => (received localIP cmd es (children.getD num 0) p).str x)
      s.indicesWaiting p rfl hnum]
    refine congrArg _ ?_
    by_cases hp : p = s.indicesWaiting num
    · rw [if_pos hp, if_pos hp, hp, hm]
    · rw [if_neg hp, if_neg hp]
  · rw [if_neg hword, if_neg hword, if_neg hword, add_zero]

/-- A reply is xored. -/
theorem Node.xor (h : Node conf blkDir localIP cmd children es s) {num : Nat} {m : Msg} :
    s.replies num = some m →
      Node conf blkDir localIP cmd children (es ++ [.internal])
        (s.xor conf children.length num m) := by
  intro hreply
  rcases h.internal with ⟨hpopped, honly, hpushes⟩
  rcases h.replies num m hreply with ⟨hnum, hlt⟩
  have hne : children ≠ [] := by
    rintro rfl
    exact absurd hnum (Nat.not_lt_zero num)
  -- the thread has not passed the packet, so it is not among those that can be sent
  have hpassed := h.passed hne
  have hbehind : s.waitingToSend ≤ s.indicesWaiting num := by
    rw [hpassed]
    exact minNum_le hnum
  have hmin : s.waitingToSend ≤ minNum conf.packetCnt children.length
      (Function.update s.indicesWaiting num (s.indicesWaiting num + 1)) := by
    rw [hpassed]
    exact (minNum_update _ _ s.indicesWaiting num).1
  have htoSend : (s.xor conf children.length num m).waitingToSend = minNum conf.packetCnt
      children.length (Function.update s.indicesWaiting num (s.indicesWaiting num + 1)) := by
    show (if s.waitingToSend < minNum _ _ _ then minNum _ _ _ else _) = _
    split
    · rfl
    · omega
  have hother : ∀ p, p ≠ s.indicesWaiting num →
      (s.xor conf children.length num m).diskPkts p = s.diskPkts p :=
    fun p hp => Function.update_of_ne hp _ _
  constructor
  case waitingToPull => exact h.waitingToPull
  case fresh =>
    intro p hp
    exact (hother p (Nat.ne_of_gt (Nat.lt_of_lt_of_le hlt hp))).trans (h.fresh p hp)
  case indicesWaiting =>
    intro num'
    show Function.update s.indicesWaiting num _ num' ≤ s.waitingToPull
    by_cases hn : num' = num
    · subst hn
      rw [Function.update_self]
      exact hlt
    · rw [Function.update_of_ne hn]
      exact h.indicesWaiting num'
  case replies =>
    intro num' m' hm'
    by_cases hn : num' = num
    · subst hn
      exact absurd ((Function.update_self _ _ _).symm.trans hm') (by simp)
    · have hold := h.replies num' m' ((Function.update_of_ne hn _ _).symm.trans hm')
      refine ⟨hold.1, ?_⟩
      show Function.update s.indicesWaiting num _ num' < s.waitingToPull
      rw [Function.update_of_ne hn]
      exact hold.2
  case pops =>
    intro num' child' hchild'
    rcases h.pops num' child' hchild' with ⟨xored, hold, hlength⟩
    by_cases hn : num' = num
    · subst hn
      refine ⟨xored ++ [m], ?_, ?_⟩
      · show _ = xored ++ [m] ++ (Function.update s.replies num' none num').toList
        rw [hpopped, hold, hreply, Function.update_self, Option.toList_none, List.append_nil]
        rfl
      · show _ = Function.update s.indicesWaiting num' _ num'
        rw [List.length_append, hlength, Function.update_self]
        rfl
    · refine ⟨xored, ?_, ?_⟩
      · show _ = xored ++ (Function.update s.replies num none num').toList
        rw [hpopped, hold, Function.update_of_ne hn]
      · show _ = Function.update s.indicesWaiting num _ num'
        rw [hlength, Function.update_of_ne hn]
  case onlyPops => exact honly
  case bytes =>
    intro p hp x h0 hx
    have hsum := h.added_xor hreply p x
    refine Eq.trans ?_ (congrArg (own conf blkDir cmd p x + ·) hsum).symm
    rw [← add_assoc, ← h.bytes p hp x h0 hx]
    by_cases hp' : p = s.indicesWaiting num
    · subst hp'
      have hself : (s.xor conf children.length num m).diskPkts (s.indicesWaiting num) =
          XORBuffers (s.diskPkts (s.indicesWaiting num)) m.str conf.packetSize :=
        Function.update_self _ _ _
      rw [hself, XORBuffers, if_pos rfl]
      by_cases hword : x < (8 * (conf.packetSize / 8) : Nat)
      · rw [if_pos ⟨h0, hword⟩, if_pos hword]
      · rw [if_neg fun hboth => hword hboth.2, if_neg hword, add_zero]
    · rw [hother p hp', if_neg hp', ite_self, add_zero]
  case waitingToSend =>
    rw [htoSend]
    refine (minNum_le hnum).trans ?_
    rw [Function.update_self]
    exact hlt
  case passed => exact fun _ => htoSend
  case sent =>
    rw [htoSend]
    exact h.sent.trans hmin
  case pushes =>
    rw [hpushes, h.pushes]
    refine (packets_congr fun p hp => hother p ?_).symm
    exact Nat.ne_of_lt (hp.trans_le (h.sent.trans hbehind))

/-- Without children a packet is passed on as it is. -/
theorem Node.pass (h : Node conf blkDir localIP cmd [] es s) :
    s.waitingToSend < s.waitingToPull →
      Node conf blkDir localIP cmd [] (es ++ [.internal])
        { s with waitingToSend := s.waitingToSend + 1 } := by
  intro hlt
  rcases h.internal with ⟨hpopped, honly, hpushes⟩
  exact
    { h with
      pops := fun _ _ hchild => by cases hchild
      onlyPops := honly
      bytes := fun p hp x h0 hx => (h.bytes p hp x h0 hx).trans
        (congrArg _ (h.added_append [.internal] p x).symm)
      waitingToSend := hlt
      passed := fun hne => absurd rfl hne
      sent := Nat.le_succ_of_le h.sent
      pushes := hpushes.trans h.pushes }

/-- A packet is sent. -/
theorem Node.send (h : Node conf blkDir localIP cmd children es s) :
    s.sent < s.waitingToSend →
      Node conf blkDir localIP cmd children
        (es ++ [.push (writeIP localIP cmd) (writeKey cmd) (packet conf s s.sent)])
        { s with sent := s.sent + 1 } := by
  intro hlt
  exact
    { h with
      pops := by
        intro num child hchild
        rw [Lists.popped_append]
        refine (h.pops num child hchild).imp fun xored hxored => ?_
        exact ⟨(List.append_nil _).trans hxored.1, hxored.2⟩
      onlyPops := by
        intro h' k m hmem
        rcases List.mem_append.1 hmem with hold | hnew
        · exact h.onlyPops h' k m hold
        · cases List.mem_singleton.1 hnew
      bytes := fun p hp x h0 hx => (h.bytes p hp x h0 hx).trans
        (congrArg _ (h.added_append _ p x).symm)
      sent := hlt
      pushes := by
        rw [Lists.pushes_append, h.pushes, List.range_succ, List.map_append]
        rfl }

theorem Node.step (h : Node conf blkDir localIP cmd children es s) (hnodup : children.Nodup)
    (hchildren : PPRPull.children cmd.ecK cmd.id = some children) {e : Event Nat ListKey Msg} :
    Step conf blkDir localIP cmd s e s' → Node conf blkDir localIP cmd children (es ++ [e]) s' := by
  intro hstep
  have hsame : ∀ {l : List Nat}, PPRPull.children cmd.ecK cmd.id = some l → l = children :=
    fun hl => Option.some.inj (hl.symm.trans hchildren)
  cases hstep with
  | read hname hlt hlog =>
      refine h.count hlt (fun p hp => Function.update_of_ne hp _ _) ?_
      rw [Function.update_self, own, if_neg hname, h.fresh _ (Nat.le_refl _)]
  | skip hname hlt hlog =>
      refine h.count hlt (fun p _ => rfl) ?_
      rw [own, if_pos hname, h.fresh _ (Nat.le_refl _)]
  | pull hl hchild hreply hlt =>
      cases hsame hl
      exact h.pull hnodup _ hchild hreply hlt
  | xor hl hreply =>
      cases hsame hl
      exact h.xor hreply
  | pass hl hlt =>
      cases hsame hl
      exact h.pass hlt
  | send hlt hlog =>
      exact h.send hlt

/-- What a node has done in a run of its own. -/
theorem node_of_runs (hnodup : children.Nodup)
    (hchildren : PPRPull.children cmd.ecK cmd.id = some children) :
    Lists.LocalRuns (Step conf blkDir localIP cmd) State.init es s →
      Node conf blkDir localIP cmd children es s := by
  intro hruns
  induction hruns with
  | refl => exact .init conf blkDir localIP cmd children
  | snoc _ hstep ih => exact ih.step hnodup hchildren hstep

/-! ## How far a node gets -/

/-- How many steps a node has taken at least. -/
def State.rank (totNum : Nat) (s : State) : Nat :=
  s.waitingToPull + s.waitingToSend + s.sent +
    (Finset.range totNum).sum fun num => 2 * s.indicesWaiting num + (s.replies num).isSome.toNat

/-- Every step counts. -/
theorem Node.rank_lt (h : Node conf blkDir localIP cmd children es s)
    (hchildren : PPRPull.children cmd.ecK cmd.id = some children) {e : Event Nat ListKey Msg} :
    Step conf blkDir localIP cmd s e s' → s.rank children.length < s'.rank children.length := by
  intro hstep
  cases hstep with
  | read hname hlt hlog =>
      simp only [State.rank]
      omega
  | skip hname hlt hlog =>
      simp only [State.rank]
      omega
  | @pull l num child m hl hchild hreply hlt =>
      cases Option.some.inj (hl.symm.trans hchildren)
      have hnum := (List.getElem?_eq_some_iff.1 hchild).1
      refine Nat.add_lt_add_left (Finset.sum_lt_sum (fun num' _ => ?_) ⟨num, Finset.mem_range.2 hnum, ?_⟩) _
      · by_cases hn : num' = num
        · subst hn
          simp [hreply]
        · simp [Function.update_of_ne hn]
      · simp [hreply]
  | @xor l num m hl hreply =>
      cases Option.some.inj (hl.symm.trans hchildren)
      have hnum := (h.replies num m hreply).1
      have hsend : s.waitingToSend ≤ (s.xor conf children.length num m).waitingToSend := by
        show _ ≤ if s.waitingToSend < _ then _ else _
        split <;> omega
      refine Nat.add_lt_add_of_le_of_lt (by simpa [State.xor] using hsend) (Finset.sum_lt_sum (fun num' _ => ?_)
        ⟨num, Finset.mem_range.2 hnum, ?_⟩)
      · by_cases hn : num' = num
        · subst hn
          simp [State.xor, hreply]
        · simp [State.xor, Function.update_of_ne hn]
      · simp [State.xor, hreply]
        omega
  | pass hl hlt =>
      simp only [State.rank]
      omega
  | send hlt hlog =>
      simp only [State.rank]
      omega

/-- The steps are bounded. -/
theorem Node.rank_le (h : Node conf blkDir localIP cmd children es s) :
    s.rank children.length ≤
      3 * conf.packetCnt + children.length * (2 * conf.packetCnt + 1) := by
  have hsum : ((Finset.range children.length).sum fun num =>
      2 * s.indicesWaiting num + (s.replies num).isSome.toNat) ≤
      children.length * (2 * conf.packetCnt + 1) := by
    have hle := Finset.sum_le_card_nsmul (Finset.range children.length)
      (fun num => 2 * s.indicesWaiting num + (s.replies num).isSome.toNat)
      (2 * conf.packetCnt + 1) fun num _ => by
        have hcount := (h.indicesWaiting num).trans h.waitingToPull
        have hbool := Bool.toNat_le (s.replies num).isSome
        omega
    rwa [Finset.card_range, smul_eq_mul] at hle
  have hpull := h.waitingToPull
  have hpass := h.waitingToSend
  have hsent := h.sent
  unfold State.rank
  omega

/-- A node has taken no more steps than that. -/
theorem length_le_rank (hnodup : children.Nodup)
    (hchildren : PPRPull.children cmd.ecK cmd.id = some children) :
    Lists.LocalRuns (Step conf blkDir localIP cmd) State.init es s →
      es.length ≤ s.rank children.length := by
  intro hruns
  induction hruns with
  | refl => exact Nat.zero_le _
  | snoc hruns hstep ih =>
      rw [List.length_append, List.length_singleton]
      exact ih.trans_lt ((node_of_runs hnodup hchildren hruns).rank_lt hchildren hstep)

/-- The lists of commands are left alone. -/
theorem Step.off {e : Event Nat ListKey Msg} :
    Step conf blkDir localIP cmd s e s' → e.Off .drCmds := by
  intro hstep
  cases hstep with
  | pull => exact fun heq => nomatch heq
  | send =>
      show writeKey cmd ≠ .drCmds
      unfold writeKey
      split
      · exact fun heq => nomatch heq
      · exact fun heq => nomatch heq
  | _ => trivial

/-- A node that cannot take a step, and has got all packets of the children for which it would wait,
is done. -/
theorem Node.done (h : Node conf blkDir localIP cmd children es s)
    (hchildren : PPRPull.children cmd.ecK cmd.id = some children) (hlog : conf.packetCnt ≠ 3)
    (hinternal : ∀ s', ¬ Step conf blkDir localIP cmd s .internal s')
    (hpush : ∀ h k m s', ¬ Step conf blkDir localIP cmd s (.push h k m) s') :
    (∀ child ∈ children,
      (∃ m, ∀ s', ¬ Step conf blkDir localIP cmd s
        (.pop (pullIP localIP cmd child) (.tmpId cmd.lostBlkName child) m) s') ∨
      (Lists.popped (pullIP localIP cmd child) (.tmpId cmd.lostBlkName child) es).length =
        conf.packetCnt) →
      Done conf cmd s := by
  intro hpop
  have hread : s.waitingToPull = conf.packetCnt := by
    refine h.waitingToPull.antisymm (Nat.le_of_not_lt fun hlt => ?_)
    by_cases hname : cmd.localBlkName = []
    · exact hinternal _ (.skip hname hlt fun i _ => pktOutput_isSome i hlog)
    · exact hinternal _ (.read hname hlt (pktOutput_isSome _ hlog))
  have hpulled : ∀ num < children.length, s.indicesWaiting num = conf.packetCnt := by
    intro num hnum
    have hchild := getElem?_getD hnum
    have hreply : s.replies num = none := by
      cases hm : s.replies num with
      | none => rfl
      | some m => exact absurd (.xor hchildren hm) (hinternal _)
    rcases h.pops num _ hchild with ⟨xored, hpopped, hlength⟩
    by_contra hne
    have hlt : s.indicesWaiting num < s.waitingToPull := by
      have hle := h.indicesWaiting num
      omega
    -- the thread would pull a packet, or it has got them all
    rcases hpop _ (List.mem_of_getElem? hchild) with ⟨m, hnone⟩ | hcount
    · exact hnone _ (.pull hchildren hchild hreply hlt)
    · rw [hpopped, hreply, List.length_append, hlength] at hcount
      exact hne hcount
  have hpassed : s.waitingToSend = conf.packetCnt := by
    by_cases hnil : children = []
    · subst hnil
      refine (h.waitingToSend.trans hread.le).antisymm (Nat.le_of_not_lt fun hlt => ?_)
      exact hinternal _ (.pass hchildren (hread.symm ▸ hlt))
    · rw [h.passed hnil]
      refine Nat.le_antisymm (le_minNum.1 (Nat.le_refl _)).1 ?_
      exact le_minNum.2 ⟨Nat.le_refl _, fun num hnum => (hpulled num hnum).ge⟩
  have hsent : s.sent = conf.packetCnt := by
    rw [← hpassed]
    refine h.sent.antisymm (Nat.le_of_not_lt fun hlt => ?_)
    exact hpush _ _ _ _ (.send hlt fun i _ => pktOutput_isSome i hlog)
  exact ⟨hread, hsent, children, hchildren, hpulled⟩

/-- Of three packets a helper reads only the first. -/
theorem read_le_one (hcnt : conf.packetCnt = 3) (hname : cmd.localBlkName ≠ []) :
    Lists.LocalRuns (Step conf blkDir localIP cmd) State.init es s → s.waitingToPull ≤ 1 := by
  intro hruns
  refine (Lists.LocalRuns.invariant (P := fun s => s.waitingToPull ≤ 1) (Q := fun _ => True)
    (Nat.zero_le 1) (fun s e s' hle hstep => ⟨?_, trivial⟩) hruns).1
  cases hstep with
  | read _ hlt hlog =>
      show s.waitingToPull + 1 ≤ 1
      by_contra hnot
      have hone : s.waitingToPull = 1 := by omega
      rw [hone, hcnt] at hlog
      exact absurd hlog (by decide)
  | skip hnil => exact absurd hnil hname
  | pull => exact hle
  | xor => exact hle
  | pass => exact hle
  | send => exact hle

end Run
end PPRPull

end CoRD
