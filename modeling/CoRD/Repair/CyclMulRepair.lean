import Mathlib.Algebra.BigOperators.Group.Finset.Basic
import Mathlib.Algebra.Order.BigOperators.Group.Finset
import CoRD.Repair.CyclCollector
import CoRD.Repair.CyclMulHelper

/-!
# CyclMulRepair — one lost block in the ring of its helpers

The helpers of a stripe each have one job for the lost block, and each takes its slices from the
helper before, the first one from the last.  A slice goes once around the ring: it starts at the
helper behind the one that sends it to the requestor.

A slice is right when it leaves a helper because it was right when it left the helper before.  A
helper waits for a slice only if a helper before it on the path of the slice still holds it, so in
the end some helper would not have started one; but a reader stops starting slices only while the
others are far behind, and the one that is least far ahead of them is not.
-/

namespace CoRD

namespace CyclMul

open Cycl
open Std
open Lists (Event)

/-! ## The path of a slice -/

/-- The helpers that a slice comes to, in order. -/
def helperAt (k s n : Nat) : Nat :=
  (s % (k - 1) + 1 + n) % k

/-- The place of a helper on the path of a slice. -/
def place (k s i : Nat) : Nat :=
  if s % (k - 1) < i then i - (s % (k - 1) + 1) else i + (k - (s % (k - 1) + 1))

/-- The helper before, in the ring. -/
def prev (k i : Nat) : Nat :=
  if i = 0 then k - 1 else i - 1

section Path

variable {k s : Nat}

theorem mod_lt (hk : 3 ≤ k) (s : Nat) : s % (k - 1) < k - 1 :=
  Nat.mod_lt s (by omega)

theorem helperAt_lt (hk : 3 ≤ k) (s n : Nat) : helperAt k s n < k :=
  Nat.mod_lt _ (by omega)

theorem place_lt {i : Nat} (hk : 3 ≤ k) (hi : i < k) : place k s i < k := by
  have hmod := mod_lt hk s
  unfold place
  split <;> omega

theorem helperAt_place {i : Nat} (hk : 3 ≤ k) (hi : i < k) : helperAt k s (place k s i) = i := by
  have hmod := mod_lt hk s
  unfold helperAt place
  split
  · have hsum : s % (k - 1) + 1 + (i - (s % (k - 1) + 1)) = i := by omega
    rw [hsum, Nat.mod_eq_of_lt hi]
  · have hsum : s % (k - 1) + 1 + (i + (k - (s % (k - 1) + 1))) = i + k := by omega
    rw [hsum, Nat.add_mod_right, Nat.mod_eq_of_lt hi]

theorem place_helperAt {n : Nat} (hk : 3 ≤ k) (hn : n < k) : place k s (helperAt k s n) = n := by
  have hmod := mod_lt hk s
  unfold helperAt
  rcases Nat.lt_or_ge (s % (k - 1) + 1 + n) k with hlt | hge
  · rw [Nat.mod_eq_of_lt hlt, place, if_pos (by omega)]
    omega
  · rw [Nat.mod_eq_sub_mod hge, Nat.mod_eq_of_lt (by omega), place, if_neg (by omega)]
    omega

/-- Every helper is on the path once. -/
theorem perm_path (hk : 3 ≤ k) (s : Nat) :
    ((List.range k).map (helperAt k s)).Perm (List.range k) := by
  have hnodup : ((List.range k).map (helperAt k s)).Nodup := by
    refine List.Nodup.map_on ?_ List.nodup_range
    intro a ha b hb heq
    rw [← place_helperAt hk (List.mem_range.1 ha), heq, place_helperAt hk (List.mem_range.1 hb)]
  refine (hnodup.subperm fun i hi => ?_).perm_of_length_le (by simp)
  obtain ⟨n, -, rfl⟩ := List.mem_map.1 hi
  exact List.mem_range.2 (helperAt_lt hk s n)

theorem prev_lt {i : Nat} (hk : 3 ≤ k) (hi : i < k) : prev k i < k := by
  unfold prev
  split <;> omega

theorem prev_inj {i j : Nat} (hi : i < k) (hj : j < k) : prev k i = prev k j → i = j := by
  unfold prev
  split <;> split <;> omega

/-- The path starts behind the helper where it ends. -/
theorem place_eq_zero {i : Nat} (hk : 3 ≤ k) :
    place k s i = 0 ↔ i = s % (k - 1) + 1 := by
  have hmod := mod_lt hk s
  unfold place
  split <;> omega

theorem place_eq_last {i : Nat} (hk : 3 ≤ k) (hi : i < k) :
    place k s i + 1 = k ↔ i = s % (k - 1) := by
  have hmod := mod_lt hk s
  unfold place
  split <;> omega

/-- The path follows the ring. -/
theorem place_prev {i : Nat} (hk : 3 ≤ k) (hi : i < k) (hstart : i ≠ s % (k - 1) + 1) :
    place k s i = place k s (prev k i) + 1 := by
  have hmod := mod_lt hk s
  unfold place prev
  split_ifs <;> omega

end Path

/-! ## The ring -/

section Ring

variable (conf : PacketConfig) (blkDir : Str → Buf) (requestorIP : Nat) (lostFilename : Str)
  (coef : TreeMap Str GF256) (stripe : List (Nat × Str))

/-- The node of a helper. -/
def host (i : Nat) : Nat := (stripe.getD i (0, [])).1

/-- The job of a helper, as the coordinator builds its command. -/
def ringJob (i : Nat) : PipeMulJob :=
  (PipeMul.helperCmd requestorIP ∅ lostFilename coef stripe stripe.length ∅ i).job

/-- The helpers with their threads. -/
def ring : Lists.System Nat Nat ListKey Slice where
  Loc _ := State
  step i s e s' := i < stripe.length ∧
    Step conf stripe.length stripe.length blkDir (host stripe i)
      [ringJob requestorIP lostFilename coef stripe i] s e s'

/-- Before anything has been sent. -/
def ringStart : Lists.State (ring conf blkDir requestorIP lostFilename coef stripe) where
  loc _ := State.init
  lists _ _ := []

/-- What a slice has become at the helpers on its path. -/
def carried (s : Nat) : Nat → List GF256
  | 0 =>
      bytesOf (ownSlice conf blkDir (ringJob requestorIP lostFilename coef stripe
        (helperAt stripe.length s 0)) s) conf.packetSize
  | n + 1 =>
      bytesOf (XORBuffers (ownSlice conf blkDir (ringJob requestorIP lostFilename coef stripe
        (helperAt stripe.length s (n + 1))) s) (Slice.str ⟨carried s n, s⟩) conf.packetSize)
        conf.packetSize

/-- A slice as it comes to a helper from the helper before on its path. -/
def FromBefore (i h : Nat) (key : ListKey) (m : Slice) : Prop :=
  m.sliId < conf.packetCnt ∧ key = .tmp lostFilename ∧
    ∃ n, place stripe.length m.sliId i = n + 1 ∧
      h = host stripe (helperAt stripe.length m.sliId n) ∧
      m.bytes = carried conf blkDir requestorIP lostFilename coef stripe m.sliId n

/-- Every slice goes along its path.  A helper sends what it should, takes a slice from the helper
before on the path as it has become there, and passes it on to the next, or as the last helper on
the path to the requestor. -/
structure Travels (tr : List (Nat × Event Nat ListKey Slice))
    (s : Lists.State (ring conf blkDir requestorIP lostFilename coef stripe)) : Prop where
  path : ∀ t, ((List.range stripe.length).map (helperAt stripe.length t)).Perm
    (List.range stripe.length)
  sends : ∀ i < stripe.length, SendsRight conf stripe.length (host stripe i)
    [ringJob requestorIP lostFilename coef stripe i] (Lists.eventsOf i tr) (s.loc i)
  pulls : ∀ i < stripe.length, ∀ h key m, .pop h key m ∈ Lists.eventsOf i tr →
    FromBefore conf blkDir requestorIP lostFilename coef stripe i h key m
  pushes : ∀ i < stripe.length, ∀ h key m, .push h key m ∈ Lists.eventsOf i tr →
    m.sliId < conf.packetCnt ∧ h = host stripe i ∧
      m.bytes = carried conf blkDir requestorIP lostFilename coef stripe m.sliId
        (place stripe.length m.sliId i) ∧
      key = if place stripe.length m.sliId i + 1 = stripe.length then .blk lostFilename
        else .tmp lostFilename
  once : ∀ i < stripe.length,
    ((CyclMul.pushes (Lists.eventsOf i tr)).map fun q => q.2.2.sliId).Nodup

/-- Every helper has passed every slice on, and the requestor has been sent from each helper as many
slices as the client takes from there. -/
structure Finished (tr : List (Nat × Event Nat ListKey Slice)) : Prop where
  all : ∀ i < stripe.length, ∀ t < conf.packetCnt,
    ∃ q ∈ CyclMul.pushes (Lists.eventsOf i tr), q.2.2.sliId = t
  client : ∀ i < stripe.length,
    (Lists.pushed (host stripe i) (.blk lostFilename) (tr.map Prod.snd)).length =
      if i < stripe.length - 1 then CyclClient.cnts conf.packetCnt stripe.length i else 0

/-- Nothing can happen any more. -/
def Stuck (s : Lists.State (ring conf blkDir requestorIP lostFilename coef stripe)) : Prop :=
  ∀ i e s', ¬ Lists.Step _ s i e s'

/-- All runs are right and come to their end within a bounded number of steps, and the end is that
everything is finished. -/
def Repairs : Prop :=
  ∀ tr s, Lists.Runs (ring conf blkDir requestorIP lostFilename coef stripe)
      (ringStart conf blkDir requestorIP lostFilename coef stripe) tr s →
    Travels conf blkDir requestorIP lostFilename coef stripe tr s ∧
      tr.length ≤ stripe.length * (7 * conf.packetCnt + 4) ∧
      (Stuck conf blkDir requestorIP lostFilename coef stripe s →
        Finished conf lostFilename stripe tr)

/-! ## What the helpers do in a run -/

/-- What is known of the helpers in a run. -/
structure Known (tr : List (Nat × Event Nat ListKey Slice))
    (s : Lists.State (ring conf blkDir requestorIP lostFilename coef stripe)) : Prop where
  helper : ∀ i < stripe.length,
    Helper conf stripe.length blkDir (host stripe i)
      (ringJob requestorIP lostFilename coef stripe i) (Lists.eventsOf i tr) (s.loc i)
  runs : ∀ i < stripe.length,
    Lists.LocalRuns (SlotStep conf stripe.length stripe.length blkDir (host stripe i)
      [ringJob requestorIP lostFilename coef stripe i]) State.init (Lists.eventsOf i tr) (s.loc i)
  others : ∀ i, stripe.length ≤ i → Lists.eventsOf i tr = []
  pulls : ∀ i < stripe.length, ∀ h key m, .pop h key m ∈ Lists.eventsOf i tr →
    FromBefore conf blkDir requestorIP lostFilename coef stripe i h key m

variable {conf blkDir requestorIP lostFilename coef stripe}

/-- The address that the coordinator writes into `prevIP`. -/
theorem host_prev (stripe : List (Nat × Str)) (i : Nat) :
    (if i = 0 then stripe.getD (stripe.length - 1) (0, []) else stripe.getD (i - 1) (0, [])).1 =
      host stripe (prev stripe.length i) := by
  unfold prev host
  split <;> rfl

theorem prevIP_ringJob (i : Nat) : (ringJob requestorIP lostFilename coef stripe i).prevIP =
    host stripe (prev stripe.length i) :=
  host_prev stripe i

theorem host_inj (hnodes : (stripe.map Prod.fst).Nodup) {i j : Nat} (hi : i < stripe.length)
    (hj : j < stripe.length) : host stripe i = host stripe j → i = j := by
  intro heq
  have hget : ∀ t < stripe.length, (stripe.map Prod.fst)[t]? = some (host stripe t) := by
    intro t ht
    simp [host, ht]
  refine (List.getElem?_inj (by rwa [List.length_map]) hnodes).1 ?_
  rw [hget i hi, hget j hj, heq]

theorem pushes_eq (es : List (Event Nat ListKey Slice)) : CyclMul.pushes es = Lists.pushes es := by
  refine List.filterMap_congr fun e _ => ?_
  cases e <;> rfl

theorem mem_pushes {es : List (Event Nat ListKey Slice)} {h : Nat} {key : ListKey} {m : Slice} :
    (h, key, m) ∈ CyclMul.pushes es ↔ .push h key m ∈ es := by
  rw [pushes_eq]
  exact Lists.mem_pushes

/-- The messages for one list among all that was pushed. -/
theorem pushed_eq_pushes (h : Nat) (key : ListKey) (es : List (Event Nat ListKey Slice)) :
    Lists.pushed h key es =
      ((CyclMul.pushes es).filter fun q => q.1 = h ∧ q.2.1 = key).map fun q => q.2.2 := by
  rw [pushes_eq]
  exact Lists.pushed_eq_pushes h key es

/-- What a helper pushes, from its place and for the list of its place. -/
theorem Helper.push_spec {ecK localIP : Nat} {jb : PipeMulJob}
    {es : List (Event Nat ListKey Slice)} {s : State}
    (h : Helper conf ecK blkDir localIP jb es s) (hk : 3 ≤ ecK) (hid : jb.id < ecK)
    {q : Nat × ListKey × Slice} : q ∈ CyclMul.pushes es →
      q.1 = localIP ∧ q.2.2.sliId < conf.packetCnt ∧
        { job := 0, pktId := pos conf ecK jb q.2.2.sliId } ∈ s.sent ∧
        q.2.1 = if jb.id = q.2.2.sliId % (ecK - 1) then .blk jb.lostBlkName
          else .tmp jb.lostBlkName := by
  intro hq
  have hmem := List.mem_map_of_mem (f := fun q : Nat × ListKey × Slice =>
    (q.1, q.2.1, q.2.2.sliId)) hq
  rw [h.sends] at hmem
  obtain ⟨e, he, heq⟩ := List.mem_map.1 hmem
  obtain ⟨hhost, hkey, hsli⟩ : localIP = q.1 ∧ sendKey conf ecK [jb] e = q.2.1 ∧
      pos conf ecK jb e.pktId = q.2.2.sliId := by simpa using heq
  have hin : e ∈ s.toSendIds := by
    rw [h.slots.sent] at he
    exact List.mem_of_mem_take he
  obtain ⟨hentry, hp, -⟩ := h.inv.single hin
  have hlt : q.2.2.sliId < conf.packetCnt := by
    rw [← hsli]
    exact pos_lt hk hp
  have hback : pos conf ecK jb q.2.2.sliId = e.pktId := by
    rw [← hsli]
    exact pos_pos hk hp
  refine ⟨hhost.symm, hlt, ?_, ?_⟩
  · rw [hback, ← hentry]
    exact he
  · have hlast := last_swap hk (Nat.le_sub_one_of_lt hid) hlt
    rw [show swap conf.packetCnt (ecK - 1) jb.id q.2.2.sliId = e.pktId from hback] at hlast
    rw [← hkey, hentry]
    exact if_congr hlast rfl rfl

/-- No slice is pushed twice. -/
theorem Helper.nodup_pushes {ecK localIP : Nat} {jb : PipeMulJob}
    {es : List (Event Nat ListKey Slice)} {s : State}
    (h : Helper conf ecK blkDir localIP jb es s) (hk : 3 ≤ ecK) :
    ((CyclMul.pushes es).map fun q => q.2.2.sliId).Nodup := by
  have heq : ((CyclMul.pushes es).map fun q => q.2.2.sliId) =
      s.sent.map fun e => pos conf ecK jb e.pktId := by
    calc ((CyclMul.pushes es).map fun q => q.2.2.sliId)
        = ((CyclMul.pushes es).map fun q => (q.1, q.2.1, q.2.2.sliId)).map fun q => q.2.2 := by
          rw [List.map_map]
          rfl
      _ = s.sent.map fun e => pos conf ecK jb e.pktId := by
          rw [h.sends, List.map_map]
          rfl
  have hnodup : s.sent.Nodup := by
    rw [h.slots.sent]
    exact h.inv.nodup_toSendIds.sublist (List.take_sublist _ _)
  rw [heq]
  refine hnodup.map_on fun a ha b hb hsame => ?_
  rw [h.slots.sent] at ha hb
  obtain ⟨ha', hpa, -⟩ := h.inv.single (List.mem_of_mem_take ha)
  obtain ⟨hb', hpb, -⟩ := h.inv.single (List.mem_of_mem_take hb)
  have hpkt : a.pktId = b.pktId := swap_inj (by omega) hpa hpb hsame
  rw [ha', hb', hpkt]

section Links

variable {tr : List (Nat × Event Nat ListKey Slice)}
  {s : Lists.State (ring conf blkDir requestorIP lostFilename coef stripe)}

/-- Only the helper before pushes to the list that a helper pops from. -/
theorem Known.pushed_own (h : Known conf blkDir requestorIP lostFilename coef stripe tr s)
    (hk : 3 ≤ stripe.length) (hnodes : (stripe.map Prod.fst).Nodup) {i : Nat}
    (hi : i < stripe.length) (key : ListKey) :
    Lists.pushed (host stripe i) key (tr.map Prod.snd) =
      Lists.pushed (host stripe i) key (Lists.eventsOf i tr) := by
  refine Lists.pushed_eq_of_producer fun j hj => ?_
  rcases Nat.lt_or_ge j stripe.length with hlt | hge
  · refine Lists.pushed_eq_nil fun m hm => hj ?_
    obtain ⟨hhost, -⟩ := (h.helper j hlt).push_spec hk hlt (mem_pushes.2 hm)
    exact (host_inj hnodes hi hlt hhost).symm
  · rw [h.others j hge]
    rfl

/-- Only the helper behind pops from the list of a helper. -/
theorem Known.popped_prev (h : Known conf blkDir requestorIP lostFilename coef stripe tr s)
    (hk : 3 ≤ stripe.length) (hnodes : (stripe.map Prod.fst).Nodup) {i : Nat}
    (hi : i < stripe.length) :
    Lists.popped (host stripe (prev stripe.length i)) (.tmp lostFilename) (tr.map Prod.snd) =
      (s.loc i).xored.map Prod.snd ++ (s.loc i).puller.held := by
  have hown := (h.helper i hi).pops
  rw [prevIP_ringJob] at hown
  refine (Lists.popped_eq_of_consumer fun j hj => ?_).trans hown
  rcases Nat.lt_or_ge j stripe.length with hlt | hge
  · refine Lists.popped_eq_nil fun m hm => hj ?_
    obtain ⟨hhost, -⟩ := (h.helper j hlt).onlyPops _ _ m hm
    rw [prevIP_ringJob] at hhost
    exact (prev_inj hi hlt (host_inj hnodes (prev_lt hk hi) (prev_lt hk hlt) hhost)).symm
  · rw [h.others j hge]
    rfl

/-- What a helper pushes for a slice is what the slice has become there. -/
theorem Known.carried (h : Known conf blkDir requestorIP lostFilename coef stripe tr s)
    (hk : 3 ≤ stripe.length) {i : Nat} (hi : i < stripe.length) {q : Nat × ListKey × Slice} :
    q ∈ CyclMul.pushes (Lists.eventsOf i tr) →
      q.2.2.bytes = CyclMul.carried conf blkDir requestorIP lostFilename coef stripe q.2.2.sliId
        (place stripe.length q.2.2.sliId i) := by
  intro hq
  have hhelper := h.helper i hi
  have hat := helperAt_place (s := q.2.2.sliId) hk hi
  rcases hhelper.content q hq with ⟨hstart, hbytes⟩ | ⟨hstart, m, hm, hsli, hbytes⟩
  case inl =>
    have hstart : i = q.2.2.sliId % (stripe.length - 1) + 1 := hstart
    rw [(place_eq_zero hk).2 hstart] at hat ⊢
    rw [hbytes, CyclMul.carried, hat]
  case inr =>
    -- the popped slice was right at the helper before
    have hpop : .pop (ringJob requestorIP lostFilename coef stripe i).prevIP (.tmp lostFilename) m ∈
        Lists.eventsOf i tr := by
      refine Lists.mem_of_mem_popped ?_
      rw [show ListKey.tmp lostFilename =
        .tmp (ringJob requestorIP lostFilename coef stripe i).lostBlkName from rfl, hhelper.pops]
      exact List.mem_append_left _ hm
    obtain ⟨-, -, n, hplace, -, hbefore⟩ := h.pulls i hi _ _ m hpop
    rw [hsli] at hplace hbefore
    rw [hplace] at hat ⊢
    rw [hbytes, CyclMul.carried, hat, ← hbefore]
    rfl

/-- What a helper pops is a slice that is due, from the helper before on its path. -/
theorem Known.arrives (h : Known conf blkDir requestorIP lostFilename coef stripe tr s)
    (hruns : Lists.Runs _ (ringStart conf blkDir requestorIP lostFilename coef stripe) tr s)
    (hk : 3 ≤ stripe.length) (hnodes : (stripe.map Prod.fst).Nodup) {i h' : Nat} {key : ListKey}
    {m : Slice} {s' : Lists.State (ring conf blkDir requestorIP lostFilename coef stripe)} :
    Lists.Step _ s i (.pop h' key m) s' →
      Arrives conf stripe.length [ringJob requestorIP lostFilename coef stripe i] (s.loc i)
        (.pop h' key m) ∧
      FromBefore conf blkDir requestorIP lostFilename coef stripe i h' key m := by
  rintro ⟨⟨hi, hstep⟩, ms, hfront, -⟩
  have hhelper := h.helper i hi
  have hprev := prev_lt hk hi
  obtain ⟨rfl, rfl⟩ := (hhelper.pops_step hstep).2 _ _ m rfl
  -- all that was pushed there: what has been xored in, and what is in the list
  have hfifo := hruns.fifo (host stripe (prev stripe.length i)) (.tmp lostFilename)
  obtain ⟨n, hget⟩ := hstep.get_of_pop _ _ m rfl
  have hpuller : (s.loc i).puller.held = [] := by
    rw [hget]
    rfl
  rw [h.popped_prev hk hnodes hi, hpuller, List.append_nil, h.pushed_own hk hnodes hprev] at hfifo
  rw [prevIP_ringJob] at hfront
  rw [show s.lists (host stripe (prev stripe.length i)) (.tmp lostFilename) = m :: ms from hfront]
    at hfifo
  have hpushed : Lists.pushed (host stripe (prev stripe.length i)) (.tmp lostFilename)
      (Lists.eventsOf (prev stripe.length i) tr) = (s.loc i).xored.map Prod.snd ++ m :: ms :=
    hfifo.symm
  have hmem : (host stripe (prev stripe.length i), ListKey.tmp lostFilename, m) ∈
      CyclMul.pushes (Lists.eventsOf (prev stripe.length i) tr) := by
    have hm : m ∈ (s.loc i).xored.map Prod.snd ++ m :: ms :=
      List.mem_append_right _ List.mem_cons_self
    rw [← hpushed, pushed_eq_pushes] at hm
    obtain ⟨q, hq, rfl⟩ := List.mem_map.1 hm
    obtain ⟨hq, hsame⟩ := List.mem_filter.1 hq
    obtain ⟨hhost, hkey⟩ := of_decide_eq_true hsame
    rw [← hhost, ← hkey]
    exact hq
  obtain ⟨-, hlt, -, hkey⟩ := (h.helper _ hprev).push_spec hk hprev hmem
  have hnot : prev stripe.length i ≠ m.sliId % (stripe.length - 1) := by
    intro hlast
    have hkey : ListKey.tmp lostFilename =
        if prev stripe.length i = m.sliId % (stripe.length - 1) then .blk lostFilename
        else .tmp lostFilename := hkey
    rw [if_pos hlast] at hkey
    cases hkey
  have hstart : i ≠ m.sliId % (stripe.length - 1) + 1 := by
    rintro rfl
    exact hnot rfl
  have hbefore := h.carried hk hprev hmem
  refine ⟨?_, hlt, rfl, _, place_prev hk hi hstart, ?_, hbefore⟩
  · have hdue := started_swap hk (Nat.le_sub_one_of_lt hi) hlt
    show (s.loc i).puller.Due conf stripe.length _ (s.loc i).xored m
    rw [hget]
    show m.sliId < conf.packetCnt ∧ IsPulled _ _ _ (entryOf _ _ _) ∧ entryOf _ _ _ ∉ _
    rw [entryOf_single, List.length_singleton, Nat.mod_one, sli2pkt_single hk hi hlt]
    refine ⟨hlt, pulled_iff.2 fun hown => hstart (hdue.1 hown), fun hold => ?_⟩
    -- what was xored in at its place would be the same slice
    obtain ⟨q, hq, heq⟩ := List.mem_map.1 hold
    obtain ⟨-, -, -, hsli⟩ := (hhelper.inv.taken q hq).single hk hi
    rw [heq, pos_pos hk hlt] at hsli
    have hnodup := (h.helper _ hprev).nodup_pushes hk
    have hids : ((Lists.pushed (host stripe (prev stripe.length i)) (.tmp lostFilename)
        (Lists.eventsOf (prev stripe.length i) tr)).map Slice.sliId).Nodup := by
      rw [pushed_eq_pushes, List.map_map]
      exact hnodup.sublist ((List.filter_sublist).map _)
    rw [hpushed, List.map_append] at hids
    refine (List.nodup_append.1 hids).2.2 m.sliId ?_ m.sliId ?_ rfl
    · rw [← hsli]
      exact List.mem_map_of_mem (List.mem_map_of_mem hq)
    · exact List.mem_map_of_mem List.mem_cons_self
  · rw [prevIP_ringJob, helperAt_place hk hprev]

end Links

theorem Known.init : Known conf blkDir requestorIP lostFilename coef stripe []
    (ringStart conf blkDir requestorIP lostFilename coef stripe) where
  helper := fun _ _ => .init
  runs := fun _ _ => .refl _
  others := fun _ _ => rfl
  pulls := fun _ _ _ _ _ he => absurd he List.not_mem_nil

/-- One step of one helper. -/
theorem Known.step {tr : List (Nat × Event Nat ListKey Slice)}
    {s s' : Lists.State (ring conf blkDir requestorIP lostFilename coef stripe)}
    {i : Nat} {e : Event Nat ListKey Slice}
    (h : Known conf blkDir requestorIP lostFilename coef stripe tr s)
    (hruns : Lists.Runs _ (ringStart conf blkDir requestorIP lostFilename coef stripe) tr s)
    (hk : 3 ≤ stripe.length) (hnodes : (stripe.map Prod.fst).Nodup) :
    Lists.Step _ s i e s' →
      Known conf blkDir requestorIP lostFilename coef stripe (tr ++ [(i, e)]) s' := by
  intro hstep
  have hself : Lists.eventsOf i (tr ++ [(i, e)]) = Lists.eventsOf i tr ++ [e] := by
    simp [Lists.eventsOf]
  have hother : ∀ j, j ≠ i → Lists.eventsOf j (tr ++ [(i, e)]) = Lists.eventsOf j tr := by
    intro j hj
    simp [Lists.eventsOf, hj.symm]
  -- what the helper is given is due
  have harrives : Arrives conf stripe.length [ringJob requestorIP lostFilename coef stripe i]
      (s.loc i) e ∧ ∀ h' key m, e = .pop h' key m →
        FromBefore conf blkDir requestorIP lostFilename coef stripe i h' key m := by
    cases e with
    | internal => exact ⟨trivial, fun _ _ _ heq => by cases heq⟩
    | push h' key m => exact ⟨trivial, fun _ _ _ heq => by cases heq⟩
    | pop h' key m =>
        obtain ⟨harrives, hbefore⟩ := h.arrives hruns hk hnodes hstep
        refine ⟨harrives, fun _ _ _ heq => ?_⟩
        cases heq
        exact hbefore
  obtain ⟨⟨hi, hlocal⟩, hlists⟩ := hstep
  have hserved : ServedStep conf stripe.length stripe.length blkDir (host stripe i)
      [ringJob requestorIP lostFilename coef stripe i] (s.loc i) e _ := ⟨hlocal, harrives.1⟩
  have hhelper := (h.helper i hi).step hk hi hserved
  refine ⟨fun j hj => ?_, fun j hj => ?_, fun j hj => ?_, fun j hj h' key m hm => ?_⟩
  · by_cases hji : j = i
    · subst hji
      rw [hself]
      simpa using hhelper
    · rw [hother j hji]
      simpa [Function.update_of_ne hji] using h.helper j hj
  · by_cases hji : j = i
    · subst hji
      rw [hself]
      refine .snoc (h.runs j hj) ⟨?_, ?_⟩
      · simpa using hserved
      · simpa using inSlot_single hhelper.inv
    · rw [hother j hji]
      simpa [Function.update_of_ne hji] using h.runs j hj
  · rw [hother j (by omega)]
    exact h.others j hj
  · by_cases hji : j = i
    · subst hji
      rw [hself] at hm
      rcases List.mem_append.1 hm with hold | hnew
      · exact h.pulls j hj h' key m hold
      · exact harrives.2 h' key m (List.mem_singleton.1 hnew).symm
    · rw [hother j hji] at hm
      exact h.pulls j hj h' key m hm

/-- A run of the ring. -/
theorem runs_known {tr : List (Nat × Event Nat ListKey Slice)}
    {s : Lists.State (ring conf blkDir requestorIP lostFilename coef stripe)}
    (hk : 3 ≤ stripe.length) (hnodes : (stripe.map Prod.fst).Nodup) :
    Lists.Runs _ (ringStart conf blkDir requestorIP lostFilename coef stripe) tr s →
      Known conf blkDir requestorIP lostFilename coef stripe tr s ∧
        tr.length ≤ (Finset.range stripe.length).sum fun i => (s.loc i).rank conf.packetCnt := by
  intro hruns
  induction hruns with
  | refl => exact ⟨.init, Nat.zero_le _⟩
  | @snoc s s' tr i e hrest hstep ih =>
      obtain ⟨hknown, hlength⟩ := ih
      refine ⟨hknown.step hrest hk hnodes hstep, ?_⟩
      obtain ⟨⟨hi, hlocal⟩, -⟩ := hstep
      rw [List.length_append, List.length_singleton]
      refine Nat.lt_of_le_of_lt hlength (Finset.sum_lt_sum (fun j hj => ?_)
        ⟨i, Finset.mem_range.2 hi, ?_⟩)
      · by_cases hji : j = i
        · subst hji
          simpa using (hlocal.rank_lt (hknown.helper j hi).inv).le
        · simp [Function.update_of_ne hji]
      · simpa using hlocal.rank_lt (hknown.helper i hi).inv

/-- What a run does is right. -/
theorem Known.travels {tr : List (Nat × Event Nat ListKey Slice)}
    {s : Lists.State (ring conf blkDir requestorIP lostFilename coef stripe)}
    (h : Known conf blkDir requestorIP lostFilename coef stripe tr s) (hk : 3 ≤ stripe.length) :
    Travels conf blkDir requestorIP lostFilename coef stripe tr s where
  path := perm_path hk
  sends := fun i hi => senderMul_sends (List.cons_ne_nil _ _) (h.runs i hi)
  pulls := h.pulls
  pushes := by
    intro i hi h' key m hm
    have hq := mem_pushes.2 hm
    obtain ⟨hhost, hlt, -, hkey⟩ := (h.helper i hi).push_spec hk hi hq
    refine ⟨hlt, hhost, h.carried hk hi hq, hkey.trans ?_⟩
    exact if_congr (place_eq_last hk hi).symm rfl rfl
  once := fun i hi => (h.helper i hi).nodup_pushes hk

/-! ## Nobody waits for ever -/

section Waiting

variable {tr : List (Nat × Event Nat ListKey Slice)}
  {s : Lists.State (ring conf blkDir requestorIP lostFilename coef stripe)}

/-- A helper in a ring where nothing can happen. -/
theorem Known.waits (h : Known conf blkDir requestorIP lostFilename coef stripe tr s)
    (hk : 3 ≤ stripe.length) (hcnt : conf.packetCnt ≠ 3)
    (hstuck : Stuck conf blkDir requestorIP lostFilename coef stripe s) {i : Nat} :
    i < stripe.length →
      Waits conf stripe.length (ringJob requestorIP lostFilename coef stripe i) (s.loc i) := by
  intro hi
  refine (h.helper i hi).waits hk hi hcnt (fun l hstep => ?_) fun h' key m l hstep => ?_
  · exact Lists.not_local_of_stuck hstuck (i := i) (fun _ _ _ heq => by cases heq) ⟨hi, hstep⟩
  · exact Lists.not_local_of_stuck hstuck (i := i) (fun _ _ _ heq => by cases heq) ⟨hi, hstep⟩

/-- What a waiting helper has for its sender has been pushed. -/
theorem Helper.exists_push {ecK localIP : Nat} {jb : PipeMulJob}
    {es : List (Event Nat ListKey Slice)} {s : State}
    (h : Helper conf ecK blkDir localIP jb es s) (hwait : Waits conf ecK jb s) (hk : 3 ≤ ecK)
    {t : Nat} : t < conf.packetCnt → Has conf ecK jb s t →
      ∃ q ∈ CyclMul.pushes es, q.2.2.sliId = t := by
  intro ht hmem
  have hsent : { job := 0, pktId := pos conf ecK jb t } ∈ s.sent := by
    rw [h.slots.sent, hwait.sent, List.take_length]
    exact hmem
  have hin := List.mem_map_of_mem (f := fun e : Entry =>
    (localIP, sendKey conf ecK [jb] e, pos conf ecK jb e.pktId)) hsent
  rw [← h.sends] at hin
  obtain ⟨q, hq, heq⟩ := List.mem_map.1 hin
  refine ⟨q, hq, ?_⟩
  have hsli : q.2.2.sliId = pos conf ecK jb (pos conf ecK jb t) :=
    congrArg (fun x : Nat × ListKey × Nat => x.2.2) heq
  rw [hsli, pos_pos hk ht]

/-- What a waiting helper has xored in is there for its sender. -/
theorem Helper.mem_toSendIds {ecK localIP : Nat} {jb : PipeMulJob}
    {es : List (Event Nat ListKey Slice)} {s : State}
    (h : Helper conf ecK blkDir localIP jb es s) (hwait : Waits conf ecK jb s) {e : Entry} :
    e ∈ s.xored.map Prod.fst → e ∈ s.toSendIds := by
  intro he
  obtain ⟨n, hget, -, -⟩ := hwait.puller
  have hpulled := h.inv.pulled
  rw [hget] at hpulled
  have hready : Puller.ready [jb] (.get n) = [] := rfl
  rw [← hpulled, hready, List.append_nil] at he
  exact (List.mem_filter.1 he).1

/-- A slice that a helper has passed on has come to the next helper on its path. -/
theorem Known.comes (h : Known conf blkDir requestorIP lostFilename coef stripe tr s)
    (hruns : Lists.Runs _ (ringStart conf blkDir requestorIP lostFilename coef stripe) tr s)
    (hk : 3 ≤ stripe.length) (hnodes : (stripe.map Prod.fst).Nodup) (hcnt : conf.packetCnt ≠ 3)
    (hstuck : Stuck conf blkDir requestorIP lostFilename coef stripe s) {t i : Nat}
    (ht : t < conf.packetCnt) (hi : i < stripe.length)
    (hstart : i ≠ t % (stripe.length - 1) + 1) :
    Has conf stripe.length (ringJob requestorIP lostFilename coef stripe (prev stripe.length i))
        (s.loc (prev stripe.length i)) t →
      Has conf stripe.length (ringJob requestorIP lostFilename coef stripe i) (s.loc i) t := by
  intro hmem
  have hprev := prev_lt hk hi
  have hhelper := h.helper i hi
  have hwait := h.waits hk hcnt hstuck hi
  refine hhelper.mem_toSendIds hwait ?_
  obtain ⟨n, hget, hn, -⟩ := hwait.puller
  rcases Nat.lt_or_eq_of_le hn with hlt | rfl
  case inr =>
    -- the puller has taken everything
    have hpull : IsPulled conf stripe.length [ringJob requestorIP lostFilename coef stripe i]
        { job := 0
          pktId := pos conf stripe.length (ringJob requestorIP lostFilename coef stripe i) t } :=
      pulled_iff.2 fun hown => hstart ((started_swap hk (Nat.le_sub_one_of_lt hi) ht).1 hown)
    exact hhelper.mem_xored hget (pos_lt hk ht) hpull
  case inl =>
    -- the list is empty, so the slice was popped
    obtain ⟨q, hq, hsli⟩ := (h.helper _ hprev).exists_push (h.waits hk hcnt hstuck hprev) hk ht hmem
    obtain ⟨hhost, -, -, hkey⟩ := (h.helper _ hprev).push_spec hk hprev hq
    have hkey' : q.2.1 = .tmp lostFilename := by
      rw [hkey]
      refine if_neg fun hlast => hstart ?_
      have hlast : prev stripe.length i = q.2.2.sliId % (stripe.length - 1) := hlast
      have hmod := mod_lt hk t
      rw [hsli] at hlast
      unfold prev at hlast
      split at hlast <;> omega
    have hpushed : q.2.2 ∈ Lists.pushed (host stripe (prev stripe.length i)) (.tmp lostFilename)
        (tr.map Prod.snd) := by
      rw [h.pushed_own hk hnodes hprev, pushed_eq_pushes]
      exact List.mem_map_of_mem (List.mem_filter.2 ⟨hq, decide_eq_true ⟨hhost, hkey'⟩⟩)
    have hempty : s.lists (host stripe (prev stripe.length i)) (.tmp lostFilename) = [] := by
      cases hlist : s.lists (host stripe (prev stripe.length i)) (.tmp lostFilename) with
      | nil => rfl
      | cons m ms =>
          obtain ⟨l, hstep⟩ : ∃ l, Step conf stripe.length stripe.length blkDir (host stripe i)
              [ringJob requestorIP lostFilename coef stripe i] (s.loc i)
              (.pop (ringJob requestorIP lostFilename coef stripe i).prevIP (.tmp lostFilename) m)
              l := hwait.pop hget m hlt
          rw [prevIP_ringJob] at hstep
          exact absurd hlist (Lists.ne_cons_of_stuck hstuck (i := i) ⟨hi, hstep⟩ ms)
    have hfifo := hruns.fifo (host stripe (prev stripe.length i)) (.tmp lostFilename)
    rw [hempty, List.append_nil, h.popped_prev hk hnodes hi, hget] at hfifo
    have hxored : q.2.2 ∈ (s.loc i).xored.map Prod.snd := by
      have heq : (s.loc i).xored.map Prod.snd ++ [] =
          [] ++ Lists.pushed (host stripe (prev stripe.length i)) (.tmp lostFilename)
            (tr.map Prod.snd) := hfifo
      rw [List.append_nil, List.nil_append] at heq
      rwa [heq]
    obtain ⟨x, hx, hsame⟩ := List.mem_map.1 hxored
    obtain ⟨hentry, -, hpos, -⟩ := (hhelper.inv.taken x hx).single hk hi
    rw [hsame, hsli] at hpos
    rw [← hpos, ← hentry]
    exact List.mem_map_of_mem hx

/-- A slice that has started has come to all helpers. -/
theorem Known.comes_all (h : Known conf blkDir requestorIP lostFilename coef stripe tr s)
    (hruns : Lists.Runs _ (ringStart conf blkDir requestorIP lostFilename coef stripe) tr s)
    (hk : 3 ≤ stripe.length) (hnodes : (stripe.map Prod.fst).Nodup) (hcnt : conf.packetCnt ≠ 3)
    (hstuck : Stuck conf blkDir requestorIP lostFilename coef stripe s) {t : Nat}
    (ht : t < conf.packetCnt) :
    Has conf stripe.length
        (ringJob requestorIP lostFilename coef stripe (t % (stripe.length - 1) + 1))
        (s.loc (t % (stripe.length - 1) + 1)) t →
      ∀ i < stripe.length,
        Has conf stripe.length (ringJob requestorIP lostFilename coef stripe i) (s.loc i) t := by
  intro hfirst
  have hwalk : ∀ n i, i < stripe.length → place stripe.length t i = n →
      Has conf stripe.length (ringJob requestorIP lostFilename coef stripe i) (s.loc i) t := by
    intro n
    induction n with
    | zero =>
        intro i hi hplace
        obtain rfl := (place_eq_zero hk).1 hplace
        exact hfirst
    | succ n ih =>
        intro i hi hplace
        have hstart : i ≠ t % (stripe.length - 1) + 1 := by
          intro heq
          rw [(place_eq_zero hk).2 heq] at hplace
          cases hplace
        have hbefore := place_prev hk hi hstart
        rw [hplace] at hbefore
        exact h.comes hruns hk hnodes hcnt hstuck ht hi hstart
          (ih _ (prev_lt hk hi) (Nat.succ.inj hbefore.symm))
  exact fun i hi => hwalk _ i hi rfl

/-- Not so many positions can be missing that all slices before a group are there. -/
theorem le_length_of_has {ecK q : Nat} {jb : PipeMulJob} {s : State} (hk : 3 ≤ ecK)
    (hq : q ≤ conf.packetCnt) : (∀ t < q, Has conf ecK jb s t) → q ≤ s.toSendIds.length := by
  intro hall
  have hnodup : ((List.range q).map fun t =>
      ({ job := 0, pktId := pos conf ecK jb t } : Entry)).Nodup := by
    refine List.Nodup.map_on ?_ List.nodup_range
    intro a ha b hb heq
    exact swap_inj (by omega) ((List.mem_range.1 ha).trans_le hq)
      ((List.mem_range.1 hb).trans_le hq) (congrArg Entry.pktId heq)
  have hsub : ((List.range q).map fun t =>
      ({ job := 0, pktId := pos conf ecK jb t } : Entry)) ⊆ s.toSendIds := by
    intro e he
    obtain ⟨t, ht, rfl⟩ := List.mem_map.1 he
    exact hall t (List.mem_range.1 ht)
  have hle := (hnodup.subperm hsub).length_le
  rwa [List.length_map, List.length_range] at hle

/-- Exchanging places stays before the same groups. -/
theorem pos_lt_of_lt {ecK q t : Nat} {jb : PipeMulJob} (hk : 3 ≤ ecK) (hq : q % (ecK - 1) = 0)
    (ht : t < conf.packetCnt) : t < q → pos conf ecK jb t < q := by
  intro hlt
  have hg : 0 < ecK - 1 := by omega
  have hsplit : (ecK - 1) * (q / (ecK - 1)) = q := by
    have hall := Nat.div_add_mod q (ecK - 1)
    rwa [hq, Nat.add_zero] at hall
  rw [← hsplit] at hlt ⊢
  have hgroup := (swap_div_mod jb.id hg ht).1
  have hbefore : pos conf ecK jb t / (ecK - 1) < q / (ecK - 1) := by
    rw [pos, hgroup]
    exact Nat.div_lt_of_lt_mul hlt
  rw [Nat.mul_comm]
  exact (Nat.div_lt_iff_lt_mul hg).1 hbefore

/-- All slices before a group are everywhere, if some reader thinks that it is too far ahead there:
the one that is least far ahead would go on. -/
theorem Known.has_before (h : Known conf blkDir requestorIP lostFilename coef stripe tr s)
    (hruns : Lists.Runs _ (ringStart conf blkDir requestorIP lostFilename coef stripe) tr s)
    (hk : 3 ≤ stripe.length) (hnodes : (stripe.map Prod.fst).Nodup) (hcnt : conf.packetCnt ≠ 3)
    (hstuck : Stuck conf blkDir requestorIP lostFilename coef stripe s) (q : Nat) :
    q ≤ conf.packetCnt → q % (stripe.length - 1) = 0 → ∀ t < q, ∀ i < stripe.length,
      Has conf stripe.length (ringJob requestorIP lostFilename coef stripe i) (s.loc i) t := by
  induction q using Nat.strong_induction_on with
  | _ q ih =>
      intro hq hmod t ht i hi
      have hlt := ht.trans_le hq
      have hend := mod_lt hk t
      have hfirst : t % (stripe.length - 1) + 1 < stripe.length := by omega
      refine h.comes_all hruns hk hnodes hcnt hstuck hlt ?_ i hi
      have hstart : Started conf.packetCnt stripe.length (t % (stripe.length - 1) + 1)
          (swap conf.packetCnt (stripe.length - 1) (t % (stripe.length - 1) + 1) t) :=
        (started_swap hk (by omega) hlt).2 rfl
      rcases (h.waits hk hcnt hstuck hfirst).starts (h.helper _ hfirst).inv hk with
        hall | ⟨q', hfew, hq', hmod', hbefore⟩
      case inl => exact hall _ (pos_lt hk hlt) hstart
      case inr =>
        rcases Nat.lt_or_ge q' q with hless | hmore
        · have hle := le_length_of_has hk hq' fun t ht => ih q' hless hq' hmod' t ht _ hfirst
          exact absurd hle (Nat.not_le_of_lt hfew)
        · exact hbefore _ ((pos_lt_of_lt hk hmod hlt ht).trans_le hmore) hstart

/-- Every slice is everywhere. -/
theorem Known.has (h : Known conf blkDir requestorIP lostFilename coef stripe tr s)
    (hruns : Lists.Runs _ (ringStart conf blkDir requestorIP lostFilename coef stripe) tr s)
    (hk : 3 ≤ stripe.length) (hnodes : (stripe.map Prod.fst).Nodup) (hcnt : conf.packetCnt ≠ 3)
    (hstuck : Stuck conf blkDir requestorIP lostFilename coef stripe s) {t i : Nat}
    (ht : t < conf.packetCnt) : i < stripe.length →
      Has conf stripe.length (ringJob requestorIP lostFilename coef stripe i) (s.loc i) t := by
  intro hi
  have hend := mod_lt hk t
  have hfirst : t % (stripe.length - 1) + 1 < stripe.length := by omega
  refine h.comes_all hruns hk hnodes hcnt hstuck ht ?_ i hi
  have hstart : Started conf.packetCnt stripe.length (t % (stripe.length - 1) + 1)
      (swap conf.packetCnt (stripe.length - 1) (t % (stripe.length - 1) + 1) t) :=
    (started_swap hk (by omega) ht).2 rfl
  rcases (h.waits hk hcnt hstuck hfirst).starts (h.helper _ hfirst).inv hk with
    hall | ⟨q, hfew, hq, hmod, -⟩
  case inl => exact hall _ (pos_lt hk ht) hstart
  case inr =>
    have hle := le_length_of_has hk hq fun t ht =>
      h.has_before hruns hk hnodes hcnt hstuck q hq hmod t ht _ hfirst
    exact absurd hle (Nat.not_le_of_lt hfew)

/-- The slices that end at a helper. -/
theorem length_filter_mod {packetCnt k i : Nat} (hk : 3 ≤ k) :
    ((List.range packetCnt).filter (· % (k - 1) = i)).length =
      if i < k - 1 then CyclClient.cnts packetCnt k i else 0 := by
  split
  case isTrue hi =>
    have hpos : 0 < k - 1 := Nat.zero_lt_of_lt hi
    have hperm : ((List.range packetCnt).filter (· % (k - 1) = i)).Perm
        ((List.range (CyclClient.cnts packetCnt k i)).map (i + (k - 1) * ·)) := by
      refine (List.perm_ext_iff_of_nodup (List.nodup_range.filter _) ?_).2 fun t => ?_
      · refine List.Nodup.map_on ?_ List.nodup_range
        intro a _ b _ heq
        exact Nat.eq_of_mul_eq_mul_left hpos (Nat.add_left_cancel heq)
      · simp only [List.mem_filter, List.mem_range, List.mem_map, decide_eq_true_eq]
        constructor
        · rintro ⟨ht, hmod⟩
          have hsplit : i + (k - 1) * (t / (k - 1)) = t := by
            rw [← hmod]
            exact Nat.mod_add_div t (k - 1)
          exact ⟨t / (k - 1), (CyclClient.lt_cnts_iff _ hi).2 (hsplit.symm ▸ ht), hsplit⟩
        · rintro ⟨n, hn, rfl⟩
          refine ⟨(CyclClient.lt_cnts_iff n hi).1 hn, ?_⟩
          rw [Nat.add_mul_mod_self_left, Nat.mod_eq_of_lt hi]
    rw [hperm.length_eq, List.length_map, List.length_range]
  case isFalse hi =>
    rw [List.length_eq_zero_iff, List.filter_eq_nil_iff]
    intro t _ hmod
    have hlt := mod_lt hk t
    exact hi (of_decide_eq_true hmod ▸ hlt)

/-- A ring where nothing can happen any more has repaired the block. -/
theorem Known.finished (h : Known conf blkDir requestorIP lostFilename coef stripe tr s)
    (hruns : Lists.Runs _ (ringStart conf blkDir requestorIP lostFilename coef stripe) tr s)
    (hk : 3 ≤ stripe.length) (hnodes : (stripe.map Prod.fst).Nodup) (hcnt : conf.packetCnt ≠ 3) :
    Stuck conf blkDir requestorIP lostFilename coef stripe s →
      Finished conf lostFilename stripe tr := by
  intro hstuck
  have hall : ∀ i < stripe.length, ∀ t < conf.packetCnt,
      ∃ q ∈ CyclMul.pushes (Lists.eventsOf i tr), q.2.2.sliId = t := by
    intro i hi t ht
    exact (h.helper i hi).exists_push (h.waits hk hcnt hstuck hi) hk ht
      (h.has hruns hk hnodes hcnt hstuck ht hi)
  refine ⟨hall, fun i hi => ?_⟩
  rw [h.pushed_own hk hnodes hi, pushed_eq_pushes, ← length_filter_mod hk, List.length_map]
  -- the slices in the list, and the ones that end here
  have hperm : (((CyclMul.pushes (Lists.eventsOf i tr)).filter fun q =>
      q.1 = host stripe i ∧ q.2.1 = .blk lostFilename).map fun q => q.2.2.sliId).Perm
        ((List.range conf.packetCnt).filter (· % (stripe.length - 1) = i)) := by
    refine (List.perm_ext_iff_of_nodup
      (((h.helper i hi).nodup_pushes hk).sublist (List.filter_sublist.map _))
      (List.nodup_range.filter _)).2 fun t => ?_
    simp only [List.mem_map, List.mem_filter, List.mem_range, decide_eq_true_eq]
    constructor
    · rintro ⟨q, ⟨hq, -, hblk⟩, rfl⟩
      obtain ⟨-, hlt, -, hkey⟩ := (h.helper i hi).push_spec hk hi hq
      refine ⟨hlt, by_contra fun hne => ?_⟩
      have hkey : q.2.1 = if i = q.2.2.sliId % (stripe.length - 1) then .blk lostFilename
          else .tmp lostFilename := hkey
      rw [hblk, if_neg (Ne.symm hne)] at hkey
      cases hkey
    · rintro ⟨ht, hmod⟩
      obtain ⟨q, hq, hsli⟩ := hall i hi t ht
      obtain ⟨hhost, -, -, hkey⟩ := (h.helper i hi).push_spec hk hi hq
      have hkey : q.2.1 = if i = q.2.2.sliId % (stripe.length - 1) then .blk lostFilename
          else .tmp lostFilename := hkey
      rw [hsli, if_pos hmod.symm] at hkey
      exact ⟨q, ⟨hq, hhost, hkey⟩, hsli⟩
  rw [← hperm.length_eq, List.length_map]

/-- With three packets nothing is ever finished. -/
theorem Known.not_finished (h : Known conf blkDir requestorIP lostFilename coef stripe tr s)
    (hk : 3 ≤ stripe.length) (hcnt : conf.packetCnt = 3) :
    ¬ Finished conf lostFilename stripe tr := by
  intro hfin
  have hzero : 0 < stripe.length := Nat.lt_of_lt_of_le (by decide) hk
  have hhelper := h.helper 0 hzero
  have hread := readCnt_le_one hcnt (h.runs 0 hzero) hhelper.inv
  -- both of the first two slices would be at the first position
  have hpos : ∀ t < conf.packetCnt, pos conf stripe.length
      (ringJob requestorIP lostFilename coef stripe 0) t = 0 := by
    intro t ht
    obtain ⟨q, hq, rfl⟩ := hfin.all 0 hzero t ht
    obtain ⟨-, -, hsent, -⟩ := hhelper.push_spec hk hzero hq
    rw [hhelper.slots.sent] at hsent
    obtain ⟨-, -, hlt⟩ := hhelper.inv.single (List.mem_of_mem_take hsent)
    exact Nat.lt_one_iff.1 (hlt.trans_le hread)
  have htwo : 0 < conf.packetCnt ∧ 1 < conf.packetCnt := by omega
  have hsame := (hpos 0 htwo.1).trans (hpos 1 htwo.2).symm
  exact absurd (swap_inj (by omega) htwo.1 htwo.2 hsame) Nat.zero_ne_one

end Waiting

/-- If packets are made of whole words, a slice at the end of its path is the sum of the scaled
slices of all helpers. -/
theorem carried_eq_sum (hwords : conf.packetSize % 8 = 0) (t n : Nat) :
    CyclMul.carried conf blkDir requestorIP lostFilename coef stripe t n =
      bytesOf (fun x => (Finset.range (n + 1)).sum fun a =>
        ownSlice conf blkDir (ringJob requestorIP lostFilename coef stripe
          (helperAt stripe.length t a)) t x) conf.packetSize := by
  induction n with
  | zero =>
      refine bytesOf_congr fun x _ _ => ?_
      rw [Finset.sum_range_one]
  | succ n ih =>
      rw [CyclMul.carried, ih, bytesOf_XORBuffers hwords]
      refine bytesOf_congr fun x h0 hx => ?_
      have hbefore : ∀ f : Buf, Slice.str ⟨bytesOf f conf.packetSize, t⟩ x = f x :=
        fun f => getD_bytesOf h0 hx
      rw [Finset.sum_range_succ _ (n + 1), add_comm, hbefore]

/-- The helpers come to an end. -/
theorem length_le {tr : List (Nat × Event Nat ListKey Slice)}
    {s : Lists.State (ring conf blkDir requestorIP lostFilename coef stripe)}
    (hk : 3 ≤ stripe.length) (hnodes : (stripe.map Prod.fst).Nodup) :
    Lists.Runs _ (ringStart conf blkDir requestorIP lostFilename coef stripe) tr s →
      tr.length ≤ stripe.length * (7 * conf.packetCnt + 4) := by
  intro hruns
  obtain ⟨hknown, hlength⟩ := runs_known hk hnodes hruns
  refine hlength.trans ?_
  have hsum := Finset.sum_le_card_nsmul (Finset.range stripe.length)
    (fun i => (s.loc i).rank conf.packetCnt) (7 * conf.packetCnt + 4)
    fun i hi => (hknown.helper i (Finset.mem_range.1 hi)).rank_le
  rwa [Finset.card_range, smul_eq_mul] at hsum

theorem exists_stuck (hk : 3 ≤ stripe.length) (hnodes : (stripe.map Prod.fst).Nodup) :
    ∃ tr s, Lists.Runs _ (ringStart conf blkDir requestorIP lostFilename coef stripe) tr s ∧
      Stuck conf blkDir requestorIP lostFilename coef stripe s :=
  Lists.Runs.exists_stuck fun _ _ => length_le hk hnodes

theorem not_repairs (hk : 3 ≤ stripe.length) (hnodes : (stripe.map Prod.fst).Nodup) :
    conf.packetCnt = 3 → ¬ Repairs conf blkDir requestorIP lostFilename coef stripe := by
  intro hcnt hrepairs
  obtain ⟨tr, s, hruns, hstuck⟩ := exists_stuck hk hnodes
  exact (runs_known hk hnodes hruns).1.not_finished hk hcnt ((hrepairs tr s hruns).2.2 hstuck)

/-- A lost block is repaired exactly if its packets can be logged. -/
theorem repairs_iff (hk : 3 ≤ stripe.length) (hnodes : (stripe.map Prod.fst).Nodup) :
    Repairs conf blkDir requestorIP lostFilename coef stripe ↔ conf.packetCnt ≠ 3 := by
  constructor
  · intro hrepairs hcnt
    exact not_repairs hk hnodes hcnt hrepairs
  · intro hcnt tr s hruns
    obtain ⟨hknown, -⟩ := runs_known hk hnodes hruns
    exact ⟨hknown.travels hk, length_le hk hnodes hruns, hknown.finished hruns hk hnodes hcnt⟩

/-- Four helpers and five packets. -/
theorem repairs_five :
    Repairs ⟨5, 8, 0⟩ (fun _ => zeros) 9 ['b'] ∅ [(0, ['p']), (1, ['q']), (2, ['r']), (3, ['s'])] :=
  (repairs_iff (by decide) (by decide)).2 (by decide)

/-- Three packets are not repaired. -/
theorem not_repairs_three :
    ¬ Repairs ⟨3, 8, 0⟩ (fun _ => zeros) 9 ['b'] ∅ [(0, ['p']), (1, ['q']), (2, ['r'])] :=
  not_repairs (by decide) (by decide) rfl

end Ring

end CyclMul

end CoRD
