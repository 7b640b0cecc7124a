import CoRD.Repair.CyclMulFRWorker

/-!
# CyclMulHelper — a helper with one job of a cyclic repair

With one job every slot of `_toSendIds` is one of that job, so a helper sends what it should as long
as the helper before does.  What it pushes for a slice is its own scaled slice, xored with what it
popped for that slice unless the slice starts here.

A helper is held up for good only where a slice is missing that it waits for, or where the reader
finds that it has sent too many slices ahead of the others.
-/

namespace CoRD

namespace CyclMul

open Cycl
open Lists (Event)

section Helper

variable (conf : PacketConfig) (ecK : Nat) (blkDir : Str → Buf) (localIP : Nat) (jb : PipeMulJob)

/-- A slice as the helper reads and scales it. -/
def ownSlice (sliId : Nat) : Buf :=
  RSUtil.multiply
    (readPacketFromDisk (blkDir jb.localBlkName) zeros conf.packetSize (sliId * conf.packetSize))
    jb.coefficient conf.packetSize

/-- The place of a slice at the helper, and the slice at a place. -/
def pos (sliId : Nat) : Nat := swap conf.packetCnt (ecK - 1) jb.id sliId

/-- The sender gets, or had, a slice. -/
def Has (s : State) (sliId : Nat) : Prop :=
  { job := 0, pktId := pos conf ecK jb sliId } ∈ s.toSendIds

/-- What was read, and what was xored in, is in memory. -/
structure Mem (s : State) : Prop where
  fresh : ∀ p < s.readCnt, { job := 0, pktId := p } ∉ s.xored.map Prod.fst →
    s.diskPktsMul 0 p = readPkt conf ecK blkDir [jb] { job := 0, pktId := p }
  xored : ∀ e m, (e, m) ∈ s.xored →
    s.diskPktsMul 0 e.pktId = xorPkt conf m (readPkt conf ecK blkDir [jb] e)

/-- The positions among the first `n` that come from the helper before. -/
def pulls (n : Nat) : List Entry :=
  ((List.range n).map (entryAt [jb])).filter (IsPulled conf ecK [jb] ·)

/-- How many have been xored in when the puller is at a place. -/
def Puller.Count (cnt : Nat) : Puller → Prop
  | .get n => cnt = (pulls conf ecK jb n).length
  | .xor n _ _ => cnt + 1 = (pulls conf ecK jb (n + 1)).length
  | .append n _ => cnt = (pulls conf ecK jb (n + 1)).length

/-- The slice that the puller has popped and not yet xored in. -/
def Puller.held : Puller → List Slice
  | .xor _ _ m => [m]
  | _ => []

/-- What was pushed where, in order. -/
def pushes (es : List (Event Nat ListKey Slice)) : List (Nat × ListKey × Slice) :=
  es.filterMap fun e =>
    match e with
    | .push h k m => some (h, k, m)
    | _ => none

/-- A pushed slice is the own one, or the own one with one that was popped. -/
def Content (popped : List Slice) (m : Slice) : Prop :=
  (jb.id = m.sliId % (ecK - 1) + 1 ∧
    m.bytes = bytesOf (ownSlice conf blkDir jb m.sliId) conf.packetSize) ∨
  (jb.id ≠ m.sliId % (ecK - 1) + 1 ∧ ∃ m' ∈ popped, m'.sliId = m.sliId ∧
    m.bytes = bytesOf (XORBuffers (ownSlice conf blkDir jb m.sliId) m'.str conf.packetSize)
      conf.packetSize)

/-- What a helper has done so far. -/
structure Helper (es : List (Event Nat ListKey Slice)) (s : State) : Prop where
  inv : Inv conf ecK [jb] s
  slots : Slots [jb] s
  mem : Mem conf ecK blkDir jb s
  count : s.puller.Count conf ecK jb s.xored.length
  pops : Lists.popped jb.prevIP (.tmp jb.lostBlkName) es = s.xored.map Prod.snd ++ s.puller.held
  onlyPops : ∀ h k m, .pop h k m ∈ es → h = jb.prevIP ∧ k = .tmp jb.lostBlkName
  sends : (pushes es).map (fun q => (q.1, q.2.1, q.2.2.sliId)) =
    s.sent.map fun e => (localIP, sendKey conf ecK [jb] e, pos conf ecK jb e.pktId)
  content : ∀ q ∈ pushes es, Content conf ecK blkDir jb (s.xored.map Prod.snd) q.2.2

variable {conf ecK blkDir localIP jb}

theorem entryOf_single (n p : Nat) : entryOf [jb] n p = { job := 0, pktId := p } := by
  rw [entryOf, List.length_singleton, Nat.mod_one]

theorem entryAt_single (n : Nat) : entryAt [jb] n = { job := 0, pktId := n } := by
  rw [entryAt, entryOf_single, List.length_singleton, Nat.div_one]

theorem total_single (jb : PipeMulJob) : total conf [jb] = conf.packetCnt := by
  rw [total, List.length_singleton, Nat.mul_one]

theorem pos_lt (hk : 3 ≤ ecK) {s : Nat} : s < conf.packetCnt →
    pos conf ecK jb s < conf.packetCnt := by
  intro hs
  exact swap_lt jb.id (by omega) hs

theorem pos_pos (hk : 3 ≤ ecK) {s : Nat} : s < conf.packetCnt →
    pos conf ecK jb (pos conf ecK jb s) = s := by
  intro hs
  exact swap_swap jb.id (by omega) hs

theorem sli2pkt_single (hk : 3 ≤ ecK) (hid : jb.id < ecK) {s : Nat} : s < conf.packetCnt →
    (jobTables conf ecK [jb] 0).sli2pkt s = pos conf ecK jb s := by
  intro hs
  exact sli2pkt_tables (by omega) (Nat.le_sub_one_of_lt hid) hs

theorem readPkt_single (hk : 3 ≤ ecK) (hid : jb.id < ecK) {p : Nat} : p < conf.packetCnt →
    readPkt conf ecK blkDir [jb] { job := 0, pktId := p } =
      { content := ownSlice conf blkDir jb (pos conf ecK jb p), sliId := pos conf ecK jb p } := by
  intro hp
  have hsli : (jobTables conf ecK [jb] 0).pkt2sli.getD p 0 = pos conf ecK jb p := by
    rw [List.getD_eq_getElem?_getD]
    exact congrArg (·.getD 0) (pkt2sli_tables (by omega) (Nat.le_sub_one_of_lt hid) hp)
  rw [readPkt, hsli]
  rfl

theorem pulls_succ (n : Nat) : pulls conf ecK jb (n + 1) =
    pulls conf ecK jb n ++
      if IsPulled conf ecK [jb] (entryAt [jb] n) then [entryAt [jb] n] else [] := by
  rw [pulls, List.range_succ, List.map_append, List.filter_append]
  refine congrArg _ ?_
  by_cases h : IsPulled conf ecK [jb] (entryAt [jb] n)
  · simp [h]
  · simp [h]

theorem pushes_append (es es' : List (Event Nat ListKey Slice)) :
    pushes (es ++ es') = pushes es ++ pushes es' :=
  List.filterMap_append

/-- With one job every slot is a right one. -/
theorem inSlot_single {s s' : State} (hinv : Inv conf ecK [jb] s') : InSlot [jb] s s' := by
  intro e he
  obtain ⟨hj, -⟩ := hinv.ready (List.cons_ne_nil _ _) (List.mem_of_mem_drop he)
  rw [List.length_singleton, Nat.lt_one_iff] at hj
  rw [List.length_singleton, Nat.mod_one, hj]

/-- Everything in the array belongs to the job and has its place. -/
theorem Inv.single {s : State} (hinv : Inv conf ecK [jb] s) {e : Entry} :
    e ∈ s.toSendIds → e = { job := 0, pktId := e.pktId } ∧ e.pktId < conf.packetCnt ∧
      e.pktId < s.readCnt := by
  intro he
  obtain ⟨hj, hp, hready⟩ := hinv.ready (List.cons_ne_nil _ _) he
  rw [List.length_singleton, Nat.lt_one_iff] at hj
  have hread := hready.1
  rw [List.length_singleton, Nat.mul_one, hj, Nat.add_zero] at hread
  refine ⟨?_, hp, hread⟩
  rw [← hj]

/-- What was xored in has the slice of its place. -/
theorem Taken.single {readCnt : Nat} {q : Entry × Slice} (hk : 3 ≤ ecK) (hid : jb.id < ecK) :
    Taken conf ecK [jb] readCnt q → q.1 = { job := 0, pktId := q.1.pktId } ∧
      q.1.pktId < readCnt ∧ q.1.pktId = pos conf ecK jb q.2.sliId ∧
        q.2.sliId = pos conf ecK jb q.1.pktId := by
  intro h
  obtain ⟨hj, -, hread, hlt, hsli⟩ := h
  rw [List.length_singleton, Nat.lt_one_iff] at hj
  rw [hj, sli2pkt_single hk hid hlt] at hsli
  rw [List.length_singleton, Nat.mul_one, hj, Nat.add_zero] at hread
  refine ⟨?_, hread, hsli, ?_⟩
  · rw [← hj]
  · rw [hsli, pos_pos hk hlt]

theorem Helper.init : Helper conf ecK blkDir localIP jb [] State.init where
  inv := .init
  slots := .init
  mem := ⟨fun p hp => absurd hp (Nat.not_lt_zero p), fun _ _ he => absurd he List.not_mem_nil⟩
  count := rfl
  pops := rfl
  onlyPops := fun _ _ _ he => absurd he List.not_mem_nil
  sends := rfl
  content := fun _ hq => absurd hq List.not_mem_nil

theorem setPkt_single (s : State) (pktId p : Nat) (d : DiskPkt) :
    (s.setPkt { job := 0, pktId := pktId } d).diskPktsMul 0 p =
      if p = pktId then d else s.diskPktsMul 0 p := by
  simp [State.setPkt, Function.update_apply]

/-- The memory of the helper. -/
theorem Mem.step {s s' : State} {e : Event Nat ListKey Slice} (hmem : Mem conf ecK blkDir jb s)
    (hinv : Inv conf ecK [jb] s) :
    Step conf ecK ecK blkDir localIP [jb] s e s' → Mem conf ecK blkDir jb s' := by
  intro hstep
  cases hstep with
  | @read n h hn hlog =>
      have hreader := hinv.reader
      rw [h] at hreader
      obtain ⟨hcnt, -⟩ := hreader
      have hnumber : ∀ q ∈ s.xored, q.1.pktId < n := by
        intro q hq
        have hread := (hinv.taken q hq).read
        rw [List.length_singleton, Nat.mul_one, hcnt] at hread
        exact Nat.lt_of_le_of_lt (Nat.le_add_right _ _) hread
      rw [entryAt_single]
      refine ⟨fun p hp hnot => ?_, fun e m he => ?_⟩
      · refine (setPkt_single s n p _).trans ?_
        by_cases hsame : p = n
        · rw [if_pos hsame, hsame]
        · have hlt : p < s.readCnt := by
            have hp : p < s.readCnt + 1 := hp
            omega
          rw [if_neg hsame]
          exact hmem.fresh p hlt hnot
      · refine (setPkt_single s n e.pktId _).trans ?_
        rw [if_neg (Nat.ne_of_lt (hnumber _ he))]
        exact hmem.xored e m he
  | @xor n pktId m h hread hlog =>
      have hpuller := hinv.puller
      rw [h] at hpuller
      obtain ⟨-, -, -, -, hnew⟩ := hpuller
      rw [entryOf_single] at hnew
      rw [List.length_singleton, Nat.mul_one, Nat.mod_one, Nat.add_zero] at hread
      rw [entryOf_single, List.length_singleton, Nat.mod_one]
      refine ⟨fun p hp hnot => ?_, fun e m' he => ?_⟩
      · have hparts : ({ job := 0, pktId := p } : Entry) ∉ s.xored.map Prod.fst ∧ p ≠ pktId := by
          simpa using hnot
        refine (setPkt_single s pktId p _).trans ?_
        rw [if_neg hparts.2]
        exact hmem.fresh p hp (by simpa using hparts.1)
      · refine (setPkt_single s pktId e.pktId _).trans ?_
        rcases List.mem_append.1 he with hold | hsame
        · have hne : e.pktId ≠ pktId := by
            rintro rfl
            have hj := (hinv.taken _ hold).job
            rw [List.length_singleton, Nat.lt_one_iff] at hj
            apply hnew
            rw [← hj]
            exact List.mem_map_of_mem hold
          rw [if_neg hne]
          exact hmem.xored e m' hold
        · cases List.mem_singleton.1 hsame
          rw [if_pos rfl, hmem.fresh pktId hread hnew]
  | _ => exact ⟨hmem.fresh, hmem.xored⟩

/-- How many slices have been xored in. -/
theorem Puller.Count.step {s s' : State} {e : Event Nat ListKey Slice}
    (hcount : s.puller.Count conf ecK jb s.xored.length) :
    Step conf ecK ecK blkDir localIP [jb] s e s' →
      s'.puller.Count conf ecK jb s'.xored.length := by
  intro hstep
  cases hstep with
  | @own n h hn hnot =>
      rw [h] at hcount
      show s.xored.length = (pulls conf ecK jb (n + 1)).length
      rw [pulls_succ, if_neg hnot, List.append_nil]
      exact hcount
  | @pop n m h hn hpull htables =>
      rw [h] at hcount
      show s.xored.length + 1 = (pulls conf ecK jb (n + 1)).length
      rw [pulls_succ, if_pos hpull, List.length_append]
      exact congrArg (· + 1) hcount
  | @xor n pktId m h hread hlog =>
      rw [h] at hcount
      show (s.xored ++ [_]).length = _
      rw [List.length_append]
      exact hcount
  | append h halloc =>
      rw [h] at hcount
      exact hcount
  | _ => exact hcount

/-- What the sender pushes. -/
theorem Helper.slice_content {es : List (Event Nat ListKey Slice)} {s : State}
    (h : Helper conf ecK blkDir localIP jb es s) (hk : 3 ≤ ecK) (hid : jb.id < ecK) {e : Entry} :
    e ∈ s.toSendIds →
      (slice conf s e).sliId = pos conf ecK jb e.pktId ∧
        Content conf ecK blkDir jb (s.xored.map Prod.snd) (slice conf s e) := by
  intro he
  obtain ⟨heq, hp, hread⟩ := h.inv.single he
  have hready := (h.inv.ready (List.cons_ne_nil _ _) he).2.2.2
  have hpos : pos conf ecK jb e.pktId < conf.packetCnt := pos_lt hk hp
  have hstart := started_swap hk (Nat.le_sub_one_of_lt hid) hpos
  rw [show swap conf.packetCnt (ecK - 1) jb.id (pos conf ecK jb e.pktId) = e.pktId from
    pos_pos hk hp] at hstart
  have hpkt : readPkt conf ecK blkDir [jb] _ = _ := readPkt_single hk hid hp
  generalize e.pktId = p at *
  subst heq
  by_cases hown : IsStarted conf ecK [jb] { job := 0, pktId := p }
  case pos =>
    -- nothing was xored into a slice that starts here
    have hnot : ({ job := 0, pktId := p } : Entry) ∉ s.xored.map Prod.fst := by
      intro hmem
      obtain ⟨q, hq, heq⟩ := List.mem_map.1 hmem
      exact not_isStarted (heq ▸ (h.inv.taken q hq).pulled) hown
    have hmem := (h.mem.fresh p hread hnot).trans hpkt
    have hsli : (slice conf s { job := 0, pktId := p }).sliId = pos conf ecK jb p :=
      congrArg DiskPkt.sliId hmem
    refine ⟨hsli, Or.inl ⟨?_, ?_⟩⟩
    · rw [hsli]
      exact hstart.1 hown
    · rw [hsli]
      exact congrArg (fun d : DiskPkt => bytesOf d.content conf.packetSize) hmem
  case neg =>
    obtain ⟨m, hm, -⟩ := hready (pulled_iff.2 hown)
    have hmem := h.mem.xored _ m hm
    rw [hpkt] at hmem
    have hsli : (slice conf s { job := 0, pktId := p }).sliId = pos conf ecK jb p :=
      congrArg DiskPkt.sliId hmem
    refine ⟨hsli, Or.inr ⟨?_, m, List.mem_map_of_mem hm, ?_, ?_⟩⟩
    · rw [hsli]
      exact fun hyes => hown (hstart.2 hyes)
    · rw [hsli]
      exact ((h.inv.taken _ hm).single hk hid).2.2.2
    · rw [hsli]
      exact congrArg (fun d : DiskPkt => bytesOf d.content conf.packetSize) hmem

theorem Content.mono {popped popped' : List Slice} {m : Slice} (hsub : popped ⊆ popped') :
    Content conf ecK blkDir jb popped m → Content conf ecK blkDir jb popped' m := by
  rintro (hown | ⟨hid, m', hm', hsame⟩)
  · exact Or.inl hown
  · exact Or.inr ⟨hid, m', hsub hm', hsame⟩

/-- What was xored in stays. -/
theorem Step.xored_subset {s s' : State} {e : Event Nat ListKey Slice} :
    Step conf ecK ecK blkDir localIP [jb] s e s' → s.xored ⊆ s'.xored := by
  intro hstep
  cases hstep with
  | xor h hread hlog => exact List.subset_append_left _ _
  | _ => exact fun _ hq => hq

/-- The popped slices are the ones that were xored in, and the one in hand. -/
theorem Helper.pops_step {es : List (Event Nat ListKey Slice)} {s s' : State}
    {e : Event Nat ListKey Slice} (h : Helper conf ecK blkDir localIP jb es s) :
    Step conf ecK ecK blkDir localIP [jb] s e s' →
      Lists.popped jb.prevIP (.tmp jb.lostBlkName) (es ++ [e]) =
          s'.xored.map Prod.snd ++ s'.puller.held ∧
        ∀ h' k m, e = .pop h' k m → h' = jb.prevIP ∧ k = .tmp jb.lostBlkName := by
  intro hstep
  have hpops := h.pops
  rw [Lists.popped_append]
  have hquiet : ∀ {e : Event Nat ListKey Slice}, (∀ h' k m, e ≠ .pop h' k m) →
      Lists.popped jb.prevIP (.tmp jb.lostBlkName) es ++
        Lists.popped jb.prevIP (.tmp jb.lostBlkName) [e] =
          s.xored.map Prod.snd ++ s.puller.held := by
    intro e hnot
    have hnil : Lists.popped jb.prevIP (.tmp jb.lostBlkName) [e] = [] := by
      refine Lists.popped_eq_nil fun m hm => ?_
      exact hnot _ _ m (List.mem_singleton.1 hm).symm
    rw [hnil, List.append_nil]
    exact hpops
  cases hstep with
  | @own n h hn hnot =>
      rw [h] at hquiet
      exact ⟨hquiet fun _ _ _ heq => (by cases heq), fun _ _ _ heq => (by cases heq)⟩
  | @pop n m h hn hpull htables =>
      rw [h] at hpops
      have hjob : job [jb] (n % [jb].length) = jb := by
        rw [List.length_singleton, Nat.mod_one]
        rfl
      rw [hjob, Lists.popped_pop_self, hpops]
      refine ⟨?_, fun h' k m' heq => ?_⟩
      · simp [Puller.held]
      · cases heq
        exact ⟨rfl, rfl⟩
  | @xor n pktId m h hread hlog =>
      rw [h] at hquiet
      refine ⟨(hquiet fun _ _ _ heq => (by cases heq)).trans ?_, fun _ _ _ heq => (by cases heq)⟩
      simp [Puller.held]
  | append h halloc =>
      rw [h] at hquiet
      exact ⟨hquiet fun _ _ _ heq => (by cases heq), fun _ _ _ heq => (by cases heq)⟩
  | _ => exact ⟨hquiet fun _ _ _ heq => (by cases heq), fun _ _ _ heq => (by cases heq)⟩

theorem Step.get_of_pop {s s' : State} {e : Event Nat ListKey Slice} :
    Step conf ecK ecK blkDir localIP [jb] s e s' →
      ∀ h k m, e = .pop h k m → ∃ n, s.puller = .get n := by
  intro hstep h' k' m' heq
  cases hstep with
  | pop hget hn hpull htables => exact ⟨_, hget⟩
  | _ => cases heq

/-- One step of a helper that gets what is due. -/
theorem Helper.step {es : List (Event Nat ListKey Slice)} {s s' : State}
    {e : Event Nat ListKey Slice} (h : Helper conf ecK blkDir localIP jb es s) (hk : 3 ≤ ecK)
    (hid : jb.id < ecK) :
    ServedStep conf ecK ecK blkDir localIP [jb] s e s' →
      Helper conf ecK blkDir localIP jb (es ++ [e]) s' := by
  intro hserved
  have hinv := h.inv.step (List.cons_ne_nil _ _) hserved
  have hstep := hserved.1
  obtain ⟨hpops, honly⟩ := h.pops_step hstep
  have hsub : s.xored.map Prod.snd ⊆ s'.xored.map Prod.snd := List.map_subset _ hstep.xored_subset
  have hsends : (pushes (es ++ [e])).map (fun q => (q.1, q.2.1, q.2.2.sliId)) =
        s'.sent.map (fun e => (localIP, sendKey conf ecK [jb] e, pos conf ecK jb e.pktId)) ∧
      ∀ q ∈ pushes [e], Content conf ecK blkDir jb (s.xored.map Prod.snd) q.2.2 := by
    rw [pushes_append, List.map_append, h.sends]
    cases hstep with
    | @send e' hn he =>
        obtain ⟨heq, -⟩ := h.inv.single (List.mem_of_getElem? he)
        have hsame : entryOf [jb] s.sender e'.pktId = e' := (entryOf_single _ _).trans heq.symm
        rw [hsame]
        obtain ⟨hsli, hcontent⟩ := h.slice_content hk hid (List.mem_of_getElem? he)
        refine ⟨?_, fun q hq => ?_⟩
        · show _ ++ [(localIP, sendKey conf ecK [jb] e', (slice conf s e').sliId)] = _
          rw [hsli, List.map_append]
          rfl
        · cases List.mem_singleton.1 hq
          exact hcontent
    | _ => exact ⟨List.append_nil _, fun _ hq => absurd hq List.not_mem_nil⟩
  refine
    { inv := hinv
      slots := h.slots.step ⟨hserved, inSlot_single hinv⟩
      mem := h.mem.step h.inv hstep
      count := h.count.step hstep
      pops := hpops
      onlyPops := ?_
      sends := hsends.1
      content := ?_ }
  · intro h' k m hm
    rcases List.mem_append.1 hm with hold | hnew
    · exact h.onlyPops h' k m hold
    · exact honly h' k m (List.mem_singleton.1 hnew).symm
  · intro q hq
    rw [pushes_append] at hq
    rcases List.mem_append.1 hq with hold | hnew
    · exact (h.content q hold).mono hsub
    · exact (hsends.2 q hnew).mono hsub

/-! ## How far a helper gets -/

/-- The statements of `readerMul` in order. -/
def Reader.rank (total : Nat) : Reader → Nat
  | .tables => 0
  | .read n => 2 * n + 1
  | .offer n => 2 * n + 2
  | .comp => 2 * total + 2
  | .done => 2 * total + 3

/-- The statements of `pullerMul` in order. -/
def Puller.rank : Puller → Nat
  | .get n => 3 * n
  | .xor n _ _ => 3 * n + 1
  | .append n _ => 3 * n + 2

/-- How far the threads have come. -/
def State.rank (total : Nat) (s : State) : Nat :=
  (if s.allocated then 1 else 0) + s.reader.rank total + s.tmpQueueRear + s.puller.rank + s.sender

/-- Every step takes a thread further. -/
theorem Step.rank_lt {s s' : State} {e : Event Nat ListKey Slice}
    (hinv : Inv conf ecK [jb] s) :
    Step conf ecK ecK blkDir localIP [jb] s e s' →
      s.rank conf.packetCnt < s'.rank conf.packetCnt := by
  intro hstep
  have hreader := hinv.reader
  cases hstep with
  | @readAll n h hn =>
      rw [h] at hreader
      have hle : n ≤ conf.packetCnt := total_single jb ▸ hreader.2
      simp only [State.rank, h, Reader.rank]
      omega
  | _ =>
      simp only [State.rank, State.dequeue, State.setPkt, *, Reader.rank, Puller.rank,
        Bool.false_eq_true, if_true, if_false]
      omega

/-- A helper takes only so many steps. -/
theorem Helper.rank_le {es : List (Event Nat ListKey Slice)} {s : State} :
    Helper conf ecK blkDir localIP jb es s → s.rank conf.packetCnt ≤ 7 * conf.packetCnt + 4 := by
  intro h
  have hreader := h.inv.reader
  have hpuller := h.inv.puller
  have hrear : s.tmpQueueRear ≤ conf.packetCnt := by
    have hoffered := h.inv.offered_le
    rw [total_single jb] at hoffered
    calc s.tmpQueueRear ≤ s.tmpQueue.length := h.inv.rear
      _ ≤ s.reader.offered conf [jb] := by
          rw [h.inv.queue, starts]
          refine (List.length_filter_le _ _).trans ?_
          rw [List.length_map, List.length_range]
      _ ≤ conf.packetCnt := hoffered.1.trans hoffered.2
  have hsender : s.sender ≤ conf.packetCnt := by
    have hle := h.inv.length_toSendIds_le (List.cons_ne_nil _ _)
    rw [total_single jb] at hle
    exact h.slots.sender.trans hle
  have hread : s.reader.rank conf.packetCnt ≤ 2 * conf.packetCnt + 3 := by
    cases hr : s.reader with
    | tables => exact Nat.zero_le _
    | read n =>
        rw [hr] at hreader
        have hle := hreader.2
        rw [total_single jb] at hle
        simp only [Reader.rank]
        omega
    | offer n =>
        rw [hr] at hreader
        have hlt := hreader.2
        rw [total_single jb] at hlt
        simp only [Reader.rank]
        omega
    | comp => exact Nat.le_succ _
    | done => exact Nat.le_refl _
  have hpull : s.puller.rank ≤ 3 * conf.packetCnt := by
    cases hp : s.puller with
    | get n =>
        rw [hp] at hpuller
        have hle : n ≤ total conf [jb] := hpuller
        rw [total_single jb] at hle
        exact Nat.mul_le_mul_left 3 hle
    | xor n pktId m =>
        rw [hp] at hpuller
        have hlt := hpuller.1
        rw [total_single jb] at hlt
        simp only [Puller.rank]
        omega
    | append n pktId =>
        rw [hp] at hpuller
        have hlt : n < total conf [jb] := hpuller
        rw [total_single jb] at hlt
        simp only [Puller.rank]
        omega
  unfold State.rank
  split <;> omega

/-- A helper that waits for slices or for the others: everything is read and what is ready is sent.
The reader has sent all it sends itself, or it is too far ahead. -/
structure Waits (conf : PacketConfig) (ecK : Nat) (jb : PipeMulJob) (s : State) : Prop where
  read : s.readCnt = conf.packetCnt
  queue : s.tmpQueue = starts conf ecK [jb] conf.packetCnt
  ahead : s.tmpQueueRear = s.tmpQueue.length ∨
    s.tmpQueueRear < s.tmpQueue.length ∧ s.toSendIds.length / (ecK - 1) + 10 < s.tmpQueueRear
  sent : s.sender = s.toSendIds.length
  tables : s.reader ≠ .tables
  puller : ∃ n, s.puller = .get n ∧ n ≤ conf.packetCnt ∧
    (n < conf.packetCnt → IsPulled conf ecK [jb] (entryAt [jb] n))

/-- A helper that cannot go on by itself. -/
theorem Helper.waits {es : List (Event Nat ListKey Slice)} {s : State}
    (h : Helper conf ecK blkDir localIP jb es s) (hk : 3 ≤ ecK) (hid : jb.id < ecK)
    (hcnt : conf.packetCnt ≠ 3)
    (hinternal : ∀ s', ¬ Step conf ecK ecK blkDir localIP [jb] s .internal s') :
    (∀ h' k m s', ¬ Step conf ecK ecK blkDir localIP [jb] s (.push h' k m) s') →
      Waits conf ecK jb s := by
  intro hpush
  have hreader := h.inv.reader
  have hpuller := h.inv.puller
  have hlog : ∀ p, (pktOutput p conf.packetCnt).isSome = true := fun p => pktOutput_isSome p hcnt
  have halloc : s.allocated = true := by
    by_contra hnot
    exact hinternal _ (.allocate (Bool.eq_false_iff.2 hnot))
  have hrear : s.tmpQueueRear < s.tmpQueue.length → ∃ e, s.tmpQueue[s.tmpQueueRear]? = some e :=
    fun hlt => ⟨_, List.getElem?_eq_getElem hlt⟩
  -- the reader has read everything
  obtain ⟨hread, hoffered, hnot, hahead⟩ : s.readCnt = conf.packetCnt ∧
      s.reader.offered conf [jb] = conf.packetCnt ∧ s.reader ≠ .tables ∧
      (s.reader = .comp ∨ s.reader = .done ∧ s.tmpQueue.length ≤ s.tmpQueueRear) := by
    cases hr : s.reader with
    | tables => exact absurd (.tables hr) (hinternal _)
    | read n =>
        rcases Nat.lt_or_ge n (total conf [jb]) with hn | hn
        · exact absurd (.read hr hn (hlog _)) (hinternal _)
        · exact absurd (.readAll hr hn) (hinternal _)
    | offer n =>
        by_cases hstart : IsStarted conf ecK [jb] (entryAt [jb] n)
        case neg => exact absurd (.skip hr hstart) (hinternal _)
        case pos =>
          rcases Nat.lt_or_ge (s.toSendIds.length / (ecK - 1) + 3) s.tmpQueueRear with hslow | hslow
          · exact absurd (.keep hr hstart hslow) (hinternal _)
          · have hlt : s.tmpQueueRear < (s.tmpQueue ++ [entryAt [jb] n]).length := by
              rw [List.length_append, List.length_singleton]
              exact Nat.lt_succ_of_le h.inv.rear
            exact absurd (.offer hr hstart hslow halloc (List.getElem?_eq_getElem hlt))
              (hinternal _)
    | comp =>
        rw [hr] at hreader
        have hcnt : s.readCnt = total conf [jb] := hreader
        rw [total_single jb] at hcnt
        exact ⟨hcnt, total_single jb, by simp, Or.inl rfl⟩
    | done =>
        rw [hr] at hreader
        have hcnt : s.readCnt = total conf [jb] := hreader
        rw [total_single jb] at hcnt
        exact ⟨hcnt, total_single jb, by simp, Or.inr ⟨rfl, h.inv.done hr⟩⟩
  refine
    { read := hread
      queue := hoffered ▸ h.inv.queue
      ahead := ?_
      sent := ?_
      tables := hnot
      puller := ?_ }
  · rcases hahead with hcomp | ⟨-, hdone⟩
    · rcases Nat.lt_or_ge s.tmpQueueRear s.tmpQueue.length with hlt | hge
      · refine Or.inr ⟨hlt, Nat.lt_of_not_le fun hslow => ?_⟩
        exact hinternal _ (.comp hcomp hslow halloc (List.getElem?_eq_getElem hlt))
      · exact absurd (.finish hcomp hge) (hinternal _)
    · exact Or.inl (Nat.le_antisymm h.inv.rear hdone)
  · refine Nat.le_antisymm h.slots.sender (Nat.le_of_not_lt fun hlt => ?_)
    have hle := h.inv.length_toSendIds_le (List.cons_ne_nil _ _)
    exact hpush _ _ _ _ (.send (hlt.trans_le hle) (List.getElem?_eq_getElem hlt))
  · cases hp : s.puller with
    | get n =>
        rw [hp] at hpuller
        have hle : n ≤ total conf [jb] := hpuller
        rw [total_single jb] at hle
        refine ⟨n, rfl, hle, fun hn => by_contra fun hown => ?_⟩
        exact hinternal _ (.own hp (total_single jb ▸ hn) hown)
    | xor n pktId m =>
        rw [hp] at hpuller
        obtain ⟨-, hsli, hpkt, -⟩ := hpuller
        have hlt : pktId * [jb].length + n % [jb].length < s.readCnt := by
          rw [List.length_singleton, Nat.mul_one, Nat.mod_one, Nat.add_zero, hread, hpkt,
            List.length_singleton, Nat.mod_one, sli2pkt_single hk hid hsli]
          exact pos_lt hk hsli
        exact absurd (.xor hp hlt (hlog _)) (hinternal _)
    | append n pktId => exact absurd (.append hp halloc) (hinternal _)

/-- Of three packets the second one cannot be logged, so the reader stops at it. -/
theorem readCnt_le_one {es : List (Event Nat ListKey Slice)} {s : State}
    (hcnt : conf.packetCnt = 3) :
    Lists.LocalRuns (SlotStep conf ecK ecK blkDir localIP [jb]) State.init es s →
      Inv conf ecK [jb] s → s.readCnt ≤ 1 := by
  intro hruns hinv
  have hplace : s.reader = .tables ∨ s.reader = .read 0 ∨ s.reader = .offer 0 ∨
      s.reader = .read 1 := by
    refine (hruns.invariant (P := fun s : State => s.reader = .tables ∨ s.reader = .read 0 ∨
      s.reader = .offer 0 ∨ s.reader = .read 1) (Q := fun _ => True) (Or.inl rfl) ?_).1
    intro s e s' hs hstep
    refine ⟨?_, trivial⟩
    cases hstep.1.1 with
    | tables h => exact Or.inr (Or.inl rfl)
    | @read n h hn hlog =>
        rw [h] at hs
        rw [entryAt_single, hcnt] at hlog
        rcases hs with hs | hs | hs | hs
        · cases hs
        · cases hs
          exact Or.inr (Or.inr (Or.inl rfl))
        · cases hs
        · cases hs
          cases hlog
    | @readAll n h hn =>
        rw [h] at hs
        rw [total_single, hcnt] at hn
        rcases hs with hs | hs | hs | hs
        · cases hs
        · cases hs
          omega
        · cases hs
        · cases hs
          omega
    | skip h hnot =>
        rw [h] at hs
        rcases hs with hs | hs | hs | hs <;> cases hs
        exact Or.inr (Or.inr (Or.inr rfl))
    | keep h hstart hslow =>
        rw [h] at hs
        rcases hs with hs | hs | hs | hs <;> cases hs
        exact Or.inr (Or.inr (Or.inr rfl))
    | offer h hstart hslow halloc he =>
        rw [h] at hs
        rcases hs with hs | hs | hs | hs <;> cases hs
        exact Or.inr (Or.inr (Or.inr rfl))
    | comp h hslow halloc he =>
        rw [h] at hs
        rcases hs with hs | hs | hs | hs <;> cases hs
    | finish h hrear =>
        rw [h] at hs
        rcases hs with hs | hs | hs | hs <;> cases hs
    | _ => exact hs
  have hreader := hinv.reader
  rcases hplace with h | h | h | h
  · rw [h] at hreader
    exact hreader.le.trans (Nat.zero_le 1)
  · rw [h] at hreader
    exact hreader.1.le.trans (Nat.zero_le 1)
  · rw [h] at hreader
    exact hreader.1.le
  · rw [h] at hreader
    exact hreader.1.le

/-! ## The slices that start here -/

theorem mem_starts {n : Nat} {e : Entry} : e ∈ starts conf ecK [jb] n ↔
    e = { job := 0, pktId := e.pktId } ∧ e.pktId < n ∧ Started conf.packetCnt ecK jb.id e.pktId := by
  constructor
  · intro he
    obtain ⟨hmem, hstart⟩ := List.mem_filter.1 he
    obtain ⟨p, hp, rfl⟩ := List.mem_map.1 hmem
    rw [entryAt_single] at hstart ⊢
    exact ⟨rfl, List.mem_range.1 hp, of_decide_eq_true hstart⟩
  · rintro ⟨heq, hlt, hstart⟩
    refine List.mem_filter.2 ⟨List.mem_map.2 ⟨e.pktId, List.mem_range.2 hlt, ?_⟩, ?_⟩
    · rw [entryAt_single, ← heq]
    · rw [heq]
      exact decide_eq_true hstart

theorem pairwise_starts (n : Nat) :
    (starts conf ecK [jb] n).Pairwise fun a b => a.pktId < b.pktId := by
  refine List.Pairwise.filter _ (List.pairwise_map.2 ?_)
  refine List.pairwise_lt_range.imp fun {a b} hab => ?_
  rw [entryAt_single, entryAt_single]
  exact hab

/-- They start one in a group. -/
theorem groups_starts (hk : 3 ≤ ecK) (n : Nat) :
    (ecK - 1) * (starts conf ecK [jb] n).length < n + (ecK - 1) ∧
      ∀ (r : Nat) (e : Entry), (starts conf ecK [jb] n)[r]? = some e → (ecK - 1) * r ≤ e.pktId := by
  have hg : 0 < ecK - 1 := by omega
  induction n with
  | zero =>
      refine ⟨by simpa [starts] using hg, fun r e he => ?_⟩
      simp [starts] at he
  | succ n ih =>
      obtain ⟨hlength, hplace⟩ := ih
      rw [starts_succ, entryAt_single]
      by_cases hstart : IsStarted conf ecK [jb] { job := 0, pktId := n }
      case neg =>
        rw [if_neg hstart, List.append_nil]
        exact ⟨hlength.trans (by omega), hplace⟩
      case pos =>
        -- the next group begins behind the ones before
        have hmod : n % (ecK - 1) = 0 := hstart.2.1
        have hbegin : (ecK - 1) * (starts conf ecK [jb] n).length ≤ n := by
          have hsplit := Nat.div_add_mod n (ecK - 1)
          rw [hmod, Nat.add_zero] at hsplit
          rw [← hsplit] at hlength ⊢
          rw [← Nat.mul_succ] at hlength
          exact Nat.mul_le_mul_left _ (Nat.le_of_lt_succ (Nat.lt_of_mul_lt_mul_left hlength))
        rw [if_pos hstart]
        refine ⟨?_, fun r e he => ?_⟩
        · rw [List.length_append, List.length_singleton, Nat.mul_succ]
          omega
        · rcases Nat.lt_trichotomy r (starts conf ecK [jb] n).length with hlt | rfl | hgt
          · rw [List.getElem?_append_left hlt] at he
            exact hplace r e he
          · rw [List.getElem?_concat_length] at he
            cases he
            exact hbegin
          · rw [List.getElem?_eq_none (by simp; omega)] at he
            cases he

/-- Either the reader has sent everything that starts here, or it has sent so much that what is
missing comes behind. -/
theorem Waits.starts {s : State} (h : Waits conf ecK jb s) (hinv : Inv conf ecK [jb] s)
    (hk : 3 ≤ ecK) :
    (∀ p < conf.packetCnt, Started conf.packetCnt ecK jb.id p →
      { job := 0, pktId := p } ∈ s.toSendIds) ∨
    ∃ q, s.toSendIds.length < q ∧ q ≤ conf.packetCnt ∧ q % (ecK - 1) = 0 ∧
      ∀ p < q, Started conf.packetCnt ecK jb.id p → { job := 0, pktId := p } ∈ s.toSendIds := by
  have hsent : ∀ e ∈ s.tmpQueue.take s.tmpQueueRear, e ∈ s.toSendIds := by
    intro e he
    rw [← hinv.started] at he
    exact (List.mem_filter.1 he).1
  have hqueue : ∀ p < conf.packetCnt, Started conf.packetCnt ecK jb.id p →
      { job := 0, pktId := p } ∈ s.tmpQueue := by
    intro p hp hstart
    rw [h.queue]
    exact mem_starts.2 ⟨rfl, hp, hstart⟩
  rcases h.ahead with hall | ⟨hrear, hslow⟩
  case inl =>
    refine Or.inl fun p hp hstart => hsent _ ?_
    rw [hall, List.take_length]
    exact hqueue p hp hstart
  case inr =>
    have hnext := List.getElem?_eq_getElem hrear
    generalize s.tmpQueue[s.tmpQueueRear] = e at hnext
    obtain ⟨-, hlt, hstart⟩ := mem_starts.1 (h.queue ▸ List.mem_of_getElem? hnext)
    have hplace := (groups_starts hk conf.packetCnt).2 _ _ (h.queue ▸ hnext)
    refine Or.inr ⟨e.pktId, ?_, hlt.le, hstart.2.1, fun p hp hpstart => hsent _ ?_⟩
    · have hsplit := Nat.div_add_mod s.toSendIds.length (ecK - 1)
      have hmod := Nat.mod_lt s.toSendIds.length (show 0 < ecK - 1 by omega)
      calc s.toSendIds.length < (ecK - 1) * (s.toSendIds.length / (ecK - 1)) + (ecK - 1) := by
            omega
        _ = (ecK - 1) * (s.toSendIds.length / (ecK - 1) + 1) := (Nat.mul_succ _ _).symm
        _ ≤ (ecK - 1) * s.tmpQueueRear := Nat.mul_le_mul_left _ (by omega)
        _ ≤ e.pktId := hplace
    · -- the queue is in order
      have hsplit := List.take_append_drop s.tmpQueueRear s.tmpQueue
      have hmem := hqueue p (hp.trans hlt) hpstart
      rw [← hsplit] at hmem
      rcases List.mem_append.1 hmem with hbefore | hbehind
      · exact hbefore
      · exfalso
        have horder : (s.tmpQueue.drop s.tmpQueueRear).Pairwise fun a b => a.pktId < b.pktId := by
          rw [h.queue]
          exact (pairwise_starts _).sublist (List.drop_sublist _ _)
        rw [List.drop_eq_getElem_cons hrear] at hbehind horder
        have hhead : s.tmpQueue[s.tmpQueueRear] = e := by
          rw [List.getElem?_eq_getElem hrear] at hnext
          exact Option.some.inj hnext
        rw [hhead] at hbehind horder
        rcases List.mem_cons.1 hbehind with hsame | htail
        · rw [← hsame] at hp
          exact Nat.lt_irrefl _ hp
        · exact Nat.lt_asymm hp ((List.pairwise_cons.1 horder).1 _ htail)

/-- A puller at its end has xored in everything that was due. -/
theorem Helper.mem_xored {es : List (Event Nat ListKey Slice)} {s : State}
    (h : Helper conf ecK blkDir localIP jb es s) (hget : s.puller = .get conf.packetCnt) {p : Nat} :
    p < conf.packetCnt → IsPulled conf ecK [jb] { job := 0, pktId := p } →
      { job := 0, pktId := p } ∈ s.xored.map Prod.fst := by
  intro hp hpull
  have hcount := h.count
  rw [hget] at hcount
  have hmem : ∀ p < conf.packetCnt, IsPulled conf ecK [jb] { job := 0, pktId := p } →
      { job := 0, pktId := p } ∈ pulls conf ecK jb conf.packetCnt := by
    intro p hp hpull
    refine List.mem_filter.2 ⟨List.mem_map.2 ⟨p, List.mem_range.2 hp, entryAt_single p⟩, ?_⟩
    exact decide_eq_true hpull
  have hsub : s.xored.map Prod.fst ⊆ pulls conf ecK jb conf.packetCnt := by
    intro e he
    obtain ⟨q, hq, rfl⟩ := List.mem_map.1 he
    obtain ⟨hj, hpulled, hread, -⟩ := h.inv.taken q hq
    have hle := h.inv.offered_le.2
    rw [total_single] at hle
    rw [List.length_singleton, Nat.lt_one_iff] at hj
    rw [List.length_singleton, Nat.mul_one, hj, Nat.add_zero] at hread
    have heq : q.1 = { job := 0, pktId := q.1.pktId } := by rw [← hj]
    rw [heq] at hpulled ⊢
    exact hmem _ (hread.trans_le hle) hpulled
  have hlength : (pulls conf ecK jb conf.packetCnt).length ≤ (s.xored.map Prod.fst).length := by
    rw [List.length_map]
    exact Nat.le_of_eq hcount.symm
  exact ((h.inv.nodup.subperm hsub).perm_of_length_le hlength).mem_iff.2 (hmem p hp hpull)

/-- The puller takes whatever comes. -/
theorem Waits.pop {s : State} (h : Waits conf ecK jb s) {n : Nat} (hget : s.puller = .get n)
    (m : Slice) : n < conf.packetCnt →
      ∃ s', Step conf ecK ecK blkDir localIP [jb] s (.pop jb.prevIP (.tmp jb.lostBlkName) m) s' := by
  intro hn
  obtain ⟨n', hn', -, hpull⟩ := h.puller
  obtain rfl : n = n' := by
    rw [hget] at hn'
    cases hn'
    rfl
  have hjob : job [jb] (n % [jb].length) = jb := by
    rw [List.length_singleton, Nat.mod_one]
    rfl
  have hstep : Step conf ecK ecK blkDir localIP [jb] s
      (.pop (job [jb] (n % [jb].length)).prevIP (.tmp (job [jb] (n % [jb].length)).lostBlkName) m)
      _ := .pop hget (total_single jb ▸ hn) (hpull hn) h.tables
  rw [hjob] at hstep
  exact ⟨_, hstep⟩

end Helper

end CyclMul

end CoRD
