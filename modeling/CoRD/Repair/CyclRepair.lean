import CoRD.Repair.CyclDRWorker
import CoRD.Repair.CyclMulRepair

/-!
# CyclRepair — one lost block in a ring of helpers that send no ids

Each helper asks the helper before for its slices and takes them in the order in which they come.
If the number of slices is divisible by the size of a group, they come in the order in which they
are needed, and every slice goes around the ring as in the variant with ids.

In a shorter last group the helpers behind its end take part in all slices and start none, but they
skip the first of them as if they did.  So they have asked for one slice more than they take, and
the last helper in the ring is always one of them.
-/

namespace CoRD

namespace CyclDR

open Cycl
open CyclMul (helperAt place prev host prev_lt prev_inj place_lt helperAt_place place_helperAt
  helperAt_lt place_eq_zero place_eq_last place_prev mod_lt host_inj)
open Std
open Lists (Event)

section Ring

variable (conf : PacketConfig) (blkDir : Str → Buf) (requestorIP : Nat) (lostFilename : Str)
  (coef : TreeMap Str GF256) (stripe : List (Nat × Str))

/-- The command of a helper, as the coordinator builds it. -/
def ringCmd (i : Nat) : PipeCmd :=
  Pipe.helperCmd requestorIP lostFilename coef stripe stripe.length i

/-- The helpers with their threads. -/
def ring : Lists.System Nat Nat ListKey Packet where
  Loc _ := State
  step i s e s' := i < stripe.length ∧
    Step conf blkDir (host stripe i) (ringCmd requestorIP lostFilename coef stripe i) s e s'

/-- Before anything has been sent. -/
def ringStart : Lists.State (ring conf blkDir requestorIP lostFilename coef stripe) where
  loc _ := State.init
  lists _ _ := []

/-- A slice as helper `i` reads and scales it. -/
def ownSlice (i sliId : Nat) : Buf :=
  RSUtil.multiply
    (readPacketFromDisk (blkDir (ringCmd requestorIP lostFilename coef stripe i).localBlkName) zeros
      conf.packetSize (sliId * conf.packetSize))
    (ringCmd requestorIP lostFilename coef stripe i).coefficient conf.packetSize

/-- All helpers are done. -/
def Completed (s : Lists.State (ring conf blkDir requestorIP lostFilename coef stripe)) : Prop :=
  ∀ i < stripe.length, (s.loc i).Completed conf

/-- Every number has been pushed once, by its helper and with the sum of the scaled slices.  What a
helper has asked for is just what the helper before has pushed for it, and it has been taken, each
slice at its own position. -/
structure Agrees (tr : List (Nat × Event Nat ListKey Packet))
    (s : Lists.State (ring conf blkDir requestorIP lostFilename coef stripe)) : Prop where
  slices : ∀ t < conf.packetCnt, ∀ i < stripe.length,
    ((Lists.pushes (Lists.eventsOf i tr)).filter fun q =>
        q.2.1 = .blk (sliceName lostFilename t)) =
      if i = t % (stripe.length - 1) then
        [(host stripe i, .blk (sliceName lostFilename t),
          { bytes := bytesOf (fun x => (Finset.range stripe.length).sum fun a =>
              ownSlice conf blkDir requestorIP lostFilename coef stripe a t x) conf.packetSize
            sliId := t })]
      else []
  requests : ∀ i < stripe.length,
    (Lists.pushed (host stripe (prev stripe.length i)) (.tmp lostFilename)
      (tr.map Prod.snd)).length =
        retrieveCnt conf (ringCmd requestorIP lostFilename coef stripe i)
  taken : ∀ i < stripe.length,
    (s.loc i).taken.map Prod.snd =
      Lists.pushed (host stripe (prev stripe.length i)) (.tmp lostFilename) (tr.map Prod.snd)
  positions : ∀ i < stripe.length, ∀ q ∈ (s.loc i).taken,
    (pktIdx conf (ringCmd requestorIP lostFilename coef stripe i))[q.1]? = some q.2.sliId

/-- All completed runs agree, whatever the `k` helpers and their blocks are. -/
def Right (k : Nat) : Prop :=
  ∀ (blkDir : Str → Buf) (requestorIP : Nat) (lostFilename : Str) (coef : TreeMap Str GF256)
    (stripe : List (Nat × Str)), stripe.length = k → (stripe.map Prod.fst).Nodup →
      ∀ tr s, Lists.Runs (ring conf blkDir requestorIP lostFilename coef stripe)
          (ringStart conf blkDir requestorIP lostFilename coef stripe) tr s →
        Completed conf blkDir requestorIP lostFilename coef stripe s →
          Agrees conf blkDir requestorIP lostFilename coef stripe tr s

/-- What a slice has become at the helpers on its path. -/
def carried (t : Nat) : Nat → List GF256
  | 0 =>
      bytesOf (ownSlice conf blkDir requestorIP lostFilename coef stripe
        (helperAt stripe.length t 0) t) conf.packetSize
  | n + 1 =>
      bytesOf (XORBuffers (ownSlice conf blkDir requestorIP lostFilename coef stripe
        (helperAt stripe.length t (n + 1)) t) (Packet.str ⟨carried t n, t⟩) conf.packetSize)
        conf.packetSize

variable {conf blkDir requestorIP lostFilename coef stripe}

/-! ## The ring in a run -/

section Links

variable {tr : List (Nat × Event Nat ListKey Packet)}
  {s : Lists.State (ring conf blkDir requestorIP lostFilename coef stripe)}

theorem prevIP_ringCmd (i : Nat) : (ringCmd requestorIP lostFilename coef stripe i).prevIP =
    host stripe (prev stripe.length i) :=
  CyclMul.host_prev stripe i

theorem helper_of_ring
    (hruns : Lists.Runs _ (ringStart conf blkDir requestorIP lostFilename coef stripe) tr s)
    (i : Nat) :
    Helper conf blkDir (host stripe i) (ringCmd requestorIP lostFilename coef stripe i)
      (Lists.eventsOf i tr) (s.loc i) :=
  helper_of_runs ((hruns.toLocal i).mono fun _ _ _ hstep => hstep.2)

theorem eventsOf_other
    (hruns : Lists.Runs _ (ringStart conf blkDir requestorIP lostFilename coef stripe) tr s)
    {i : Nat} : stripe.length ≤ i → Lists.eventsOf i tr = [] := by
  intro hi
  refine (hruns.toLocal i).eq_nil fun _ _ _ hstep => ?_
  exact Nat.not_lt_of_le hi hstep.1

/-- What has been pushed at a helper for the next one. -/
theorem pushed_tmp
    (hruns : Lists.Runs _ (ringStart conf blkDir requestorIP lostFilename coef stripe) tr s)
    (hnodes : (stripe.map Prod.fst).Nodup) {i : Nat} (hi : i < stripe.length) :
    Lists.pushed (host stripe i) (.tmp lostFilename) (tr.map Prod.snd) =
      (tmps conf (ringCmd requestorIP lostFilename coef stripe i) (s.loc i).sent).map
        (packet conf (ringCmd requestorIP lostFilename coef stripe i) (s.loc i)) := by
  refine (Lists.pushed_eq_of_producer (i := i) fun j hj => ?_).trans
    (helper_of_ring hruns i).pushed_tmp
  refine Lists.pushed_eq_nil fun m hm => hj ?_
  have hmem := Lists.mem_pushes.2 hm
  rcases Nat.lt_or_ge j stripe.length with hlt | hge
  · rw [(helper_of_ring hruns j).pushes] at hmem
    obtain ⟨p, -, heq⟩ := List.mem_map.1 hmem
    have hhost : host stripe j = host stripe i := (Prod.mk.inj heq).1
    exact host_inj hnodes hlt hi hhost
  · rw [eventsOf_other hruns hge] at hmem
    cases hmem

/-- What has been popped from there: what was taken, and the replies that were not. -/
theorem popped_prev
    (hruns : Lists.Runs _ (ringStart conf blkDir requestorIP lostFilename coef stripe) tr s)
    (hk : 3 ≤ stripe.length) (hnodes : (stripe.map Prod.fst).Nodup) {i : Nat}
    (hi : i < stripe.length) :
    Lists.popped (host stripe (prev stripe.length i)) (.tmp lostFilename) (tr.map Prod.snd) =
      (s.loc i).taken.map Prod.snd ++ (s.loc i).answers := by
  have hown := (helper_of_ring hruns i).pops
  rw [prevIP_ringCmd] at hown
  refine (Lists.popped_eq_of_consumer fun j hj => ?_).trans hown
  refine Lists.popped_eq_nil fun m hm => hj ?_
  rcases Nat.lt_or_ge j stripe.length with hlt | hge
  · obtain ⟨hhost, -⟩ := (helper_of_ring hruns j).onlyPops _ _ m hm
    rw [prevIP_ringCmd] at hhost
    exact (prev_inj hi hlt (host_inj hnodes (prev_lt hk hi) (prev_lt hk hlt) hhost)).symm
  · rw [eventsOf_other hruns hge] at hm
    cases hm

/-- Everything that a helper sends to the next one has been taken there, is waiting there, or is in
the list. -/
theorem link
    (hruns : Lists.Runs _ (ringStart conf blkDir requestorIP lostFilename coef stripe) tr s)
    (hk : 3 ≤ stripe.length) (hnodes : (stripe.map Prod.fst).Nodup) {i : Nat}
    (hi : i < stripe.length) :
    (s.loc i).taken.map Prod.snd ++ (s.loc i).answers ++
        s.lists (host stripe (prev stripe.length i)) (.tmp lostFilename) =
      (tmps conf (ringCmd requestorIP lostFilename coef stripe (prev stripe.length i))
        (s.loc (prev stripe.length i)).sent).map
          (packet conf (ringCmd requestorIP lostFilename coef stripe (prev stripe.length i))
            (s.loc (prev stripe.length i))) := by
  have hfifo := hruns.fifo (host stripe (prev stripe.length i)) (.tmp lostFilename)
  rw [popped_prev hruns hk hnodes hi, pushed_tmp hruns hnodes (prev_lt hk hi)] at hfifo
  exact hfifo

end Links

/-! ## Completed runs with full groups -/

section Full

variable {tr : List (Nat × Event Nat ListKey Packet)}
  {s : Lists.State (ring conf blkDir requestorIP lostFilename coef stripe)}

/-- The helpers are numbered along the ring. -/
theorem order_prev
    (hk : 3 ≤ stripe.length) (hfull : conf.packetCnt % (stripe.length - 1) = 0) {i : Nat}
    (hi : i < stripe.length) :
    (tmps conf (ringCmd requestorIP lostFilename coef stripe (prev stripe.length i))
        conf.packetCnt).map (swap conf.packetCnt (stripe.length - 1) (prev stripe.length i)) =
      (pulls (ringCmd requestorIP lostFilename coef stripe i) conf.packetCnt).map
        (swap conf.packetCnt (stripe.length - 1) i) :=
  slices_in_order (ringCmd requestorIP lostFilename coef stripe i)
    (ringCmd requestorIP lostFilename coef stripe (prev stripe.length i)) hk hfull rfl hi rfl

theorem getD_pktIdx_ring (hk : 3 ≤ stripe.length) {i p : Nat} (hi : i < stripe.length)
    (hp : p < conf.packetCnt) :
    (pktIdx conf (ringCmd requestorIP lostFilename coef stripe i)).getD p 0 =
      swap conf.packetCnt (stripe.length - 1) i p :=
  getD_pktIdx hk hi hp

/-- Nothing is left over. -/
theorem taken_eq
    (hruns : Lists.Runs _ (ringStart conf blkDir requestorIP lostFilename coef stripe) tr s)
    (hk : 3 ≤ stripe.length) (hnodes : (stripe.map Prod.fst).Nodup)
    (hfull : conf.packetCnt % (stripe.length - 1) = 0)
    (hdone : Completed conf blkDir requestorIP lostFilename coef stripe s) {i : Nat}
    (hi : i < stripe.length) :
    (s.loc i).taken.map Prod.snd =
      (tmps conf (ringCmd requestorIP lostFilename coef stripe (prev stripe.length i))
        conf.packetCnt).map
          (packet conf (ringCmd requestorIP lostFilename coef stripe (prev stripe.length i))
            (s.loc (prev stripe.length i))) := by
  have hlink := link hruns hk hnodes hi
  rw [(hdone _ (prev_lt hk hi)).2.2, List.append_assoc] at hlink
  have htaken := (helper_of_ring hruns i).taken
  rw [(hdone i hi).2.1] at htaken
  have hcount : ((s.loc i).taken.map Prod.snd).length =
      ((tmps conf (ringCmd requestorIP lostFilename coef stripe (prev stripe.length i))
        conf.packetCnt).map
          (packet conf (ringCmd requestorIP lostFilename coef stripe (prev stripe.length i))
            (s.loc (prev stripe.length i)))).length := by
    calc ((s.loc i).taken.map Prod.snd).length
        = ((s.loc i).taken.map Prod.fst).length := by
          rw [List.length_map, List.length_map]
      _ = (pulls (ringCmd requestorIP lostFilename coef stripe i) conf.packetCnt).length := by
          rw [htaken]
      _ = _ := by
          rw [← List.length_map (swap conf.packetCnt (stripe.length - 1) i),
            ← order_prev hk hfull hi, List.length_map, List.length_map]
  have hall := hlink.trans (List.append_nil _).symm
  exact List.append_inj_left hall hcount

/-- Each slice is taken at its own position. -/
theorem sliId_of_taken
    (hruns : Lists.Runs _ (ringStart conf blkDir requestorIP lostFilename coef stripe) tr s)
    (hk : 3 ≤ stripe.length) (hnodes : (stripe.map Prod.fst).Nodup)
    (hfull : conf.packetCnt % (stripe.length - 1) = 0)
    (hdone : Completed conf blkDir requestorIP lostFilename coef stripe s) {i : Nat}
    (hi : i < stripe.length) :
    ∀ q ∈ (s.loc i).taken, q.2.sliId = swap conf.packetCnt (stripe.length - 1) i q.1 := by
  refine List.map_inj_left.1 ?_
  have htaken := (helper_of_ring hruns i).taken
  rw [(hdone i hi).2.1] at htaken
  calc (s.loc i).taken.map (fun q => q.2.sliId)
      = ((s.loc i).taken.map Prod.snd).map Packet.sliId := by
        rw [List.map_map]
        rfl
    _ = (tmps conf (ringCmd requestorIP lostFilename coef stripe (prev stripe.length i))
          conf.packetCnt).map (swap conf.packetCnt (stripe.length - 1) (prev stripe.length i)) := by
        rw [taken_eq hruns hk hnodes hfull hdone hi, List.map_map]
        refine List.map_congr_left fun p hp => ?_
        have hp := List.mem_range.1 (List.mem_filter.1 hp).1
        exact getD_pktIdx_ring hk (prev_lt hk hi) hp
    _ = (pulls (ringCmd requestorIP lostFilename coef stripe i) conf.packetCnt).map
          (swap conf.packetCnt (stripe.length - 1) i) := order_prev hk hfull hi
    _ = (s.loc i).taken.map (fun q => swap conf.packetCnt (stripe.length - 1) i q.1) := by
        rw [← htaken, List.map_map]
        rfl

theorem readPkt_ring (hk : 3 ≤ stripe.length) {i t : Nat} (hi : i < stripe.length)
    (ht : t < conf.packetCnt) :
    readPkt conf blkDir (ringCmd requestorIP lostFilename coef stripe i)
        (swap conf.packetCnt (stripe.length - 1) i t) =
      ownSlice conf blkDir requestorIP lostFilename coef stripe i t := by
  have hg : 0 < stripe.length - 1 := by omega
  rw [readPkt, getD_pktIdx_ring hk hi (swap_lt i hg ht), swap_swap i hg ht]
  rfl

/-- What a helper holds of a slice in the end is what the slice has become there. -/
theorem bytes_eq_carried
    (hruns : Lists.Runs _ (ringStart conf blkDir requestorIP lostFilename coef stripe) tr s)
    (hk : 3 ≤ stripe.length) (hnodes : (stripe.map Prod.fst).Nodup)
    (hfull : conf.packetCnt % (stripe.length - 1) = 0)
    (hdone : Completed conf blkDir requestorIP lostFilename coef stripe s) {t : Nat}
    (ht : t < conf.packetCnt) (n : Nat) :
    ∀ i < stripe.length, place stripe.length t i = n →
      bytesOf ((s.loc i).diskPkts (swap conf.packetCnt (stripe.length - 1) i t)) conf.packetSize =
        carried conf blkDir requestorIP lostFilename coef stripe t n := by
  have hg : 0 < stripe.length - 1 := by omega
  induction n with
  | zero =>
      intro i hi hplace
      have hat := helperAt_place (s := t) hk hi
      rw [hplace] at hat
      have hstart := (started_swap hk (Nat.le_sub_one_of_lt hi) ht).2 ((place_eq_zero hk).1 hplace)
      have hcounted : swap conf.packetCnt (stripe.length - 1) i t < (s.loc i).toSendCnt := by
        rw [(hdone i hi).2.1]
        exact swap_lt i hg ht
      have hown := (helper_of_ring hruns i).own _ hcounted fun hpull =>
        pulled_iff.1 ((isPulled_full hfull (swap_lt i hg ht)).1 hpull) hstart
      rw [hown, readPkt_ring hk hi ht, carried, hat]
  | succ n ih =>
      intro i hi hplace
      have hat := helperAt_place (s := t) hk hi
      rw [hplace] at hat
      have hne : i ≠ t % (stripe.length - 1) + 1 := by
        intro heq
        rw [(place_eq_zero hk).2 heq] at hplace
        cases hplace
      have hbefore := place_prev hk hi hne
      rw [hplace] at hbefore
      -- what was taken for the slice
      have hpull : IsPulled (ringCmd requestorIP lostFilename coef stripe i)
          (swap conf.packetCnt (stripe.length - 1) i t) :=
        (isPulled_full hfull (swap_lt i hg ht)).2 (pulled_iff.2 fun hstart =>
          hne ((started_swap hk (Nat.le_sub_one_of_lt hi) ht).1 hstart))
      have hmem : swap conf.packetCnt (stripe.length - 1) i t ∈
          (s.loc i).taken.map Prod.fst := by
        rw [(helper_of_ring hruns i).taken, (hdone i hi).2.1]
        exact mem_pulls.2 ⟨swap_lt i hg ht, hpull⟩
      obtain ⟨⟨p, m⟩, hq, hp⟩ := List.mem_map.1 hmem
      have hp : p = swap conf.packetCnt (stripe.length - 1) i t := hp
      have hsli : m.sliId = t := by
        rw [sliId_of_taken hruns hk hnodes hfull hdone hi _ hq, hp, swap_swap i hg ht]
      -- and where it comes from
      have hsent := List.mem_map_of_mem (f := Prod.snd) hq
      rw [taken_eq hruns hk hnodes hfull hdone hi] at hsent
      obtain ⟨y, hy, rfl⟩ := List.mem_map.1 hsent
      have hy := List.mem_range.1 (List.mem_filter.1 hy).1
      have hyt : y = swap conf.packetCnt (stripe.length - 1) (prev stripe.length i) t := by
        rw [← hsli]
        refine (swap_swap _ hg hy).symm.trans (congrArg _ ?_)
        exact (getD_pktIdx_ring hk (prev_lt hk hi) hy).symm
      have hbytes := ih _ (prev_lt hk hi) (Nat.succ.inj hbefore.symm)
      rw [← hyt] at hbytes
      have hxored := (helper_of_ring hruns i).xored _ hq
      rw [hp] at hxored
      rw [hxored, readPkt_ring hk hi ht, carried, hat, ← hbytes, ← hsli]
      rfl

theorem filter_range_eq {P : Nat → Prop} [DecidablePred P] {n p : Nat} (hp : p < n) :
    (∀ q < n, P q ↔ q = p) → (List.range n).filter (P ·) = [p] := by
  intro hP
  have hcongr : (List.range n).filter (P ·) = (List.range n).filter (· = p) :=
    List.filter_congr fun q hq => decide_eq_decide.2 (hP q (List.mem_range.1 hq))
  rw [hcongr, List.filter_eq, List.count_eq_one_of_mem List.nodup_range (List.mem_range.2 hp)]
  rfl

/-- Of all positions only the one of the slice is sent under its number, by the helper where the
path of the slice ends. -/
theorem sendKey_ring (hk : 3 ≤ stripe.length)
    (hfull : conf.packetCnt % (stripe.length - 1) = 0) {i t p : Nat} (hi : i < stripe.length)
    (ht : t < conf.packetCnt) (hp : p < conf.packetCnt) :
    sendKey conf (ringCmd requestorIP lostFilename coef stripe i) p =
        .blk (sliceName lostFilename t) ↔
      i = t % (stripe.length - 1) ∧ p = swap conf.packetCnt (stripe.length - 1) i t := by
  have hg : 0 < stripe.length - 1 := by omega
  have hlast := last_swap hk (Nat.le_sub_one_of_lt hi) ht
  have hkey : sendKey conf (ringCmd requestorIP lostFilename coef stripe i) p =
      if Last conf.packetCnt stripe.length i p then
        .blk (sliceName lostFilename (swap conf.packetCnt (stripe.length - 1) i p))
      else .tmp lostFilename := sendKey_full hk hi hfull hp
  rw [hkey]
  constructor
  · intro heq
    split at heq
    case isTrue hends =>
      have hsli : swap conf.packetCnt (stripe.length - 1) i p = t :=
        sliceName_inj (ListKey.blk.inj heq)
      have hback : p = swap conf.packetCnt (stripe.length - 1) i t := by
        rw [← hsli, swap_swap i hg hp]
      rw [hback] at hends
      exact ⟨hlast.1 hends, hback⟩
    case isFalse => cases heq
  · rintro ⟨hends, rfl⟩
    rw [if_pos (hlast.2 hends), swap_swap i hg ht]

/-- What a helper has pushed under a number in the end. -/
theorem pushes_slice
    (hruns : Lists.Runs _ (ringStart conf blkDir requestorIP lostFilename coef stripe) tr s)
    (hk : 3 ≤ stripe.length) (hnodes : (stripe.map Prod.fst).Nodup)
    (hfull : conf.packetCnt % (stripe.length - 1) = 0)
    (hdone : Completed conf blkDir requestorIP lostFilename coef stripe s) {i t : Nat}
    (hi : i < stripe.length) (ht : t < conf.packetCnt) :
    ((Lists.pushes (Lists.eventsOf i tr)).filter fun q =>
        q.2.1 = .blk (sliceName lostFilename t)) =
      if i = t % (stripe.length - 1) then
        [(host stripe i, .blk (sliceName lostFilename t),
          { bytes := carried conf blkDir requestorIP lostFilename coef stripe t (stripe.length - 1)
            sliId := t })]
      else [] := by
  have hg : 0 < stripe.length - 1 := by omega
  have hkey : ∀ p < conf.packetCnt,
      (sendKey conf (ringCmd requestorIP lostFilename coef stripe i) p =
          .blk (sliceName lostFilename t) ↔
        i = t % (stripe.length - 1) ∧ p = swap conf.packetCnt (stripe.length - 1) i t) :=
    fun p hp => sendKey_ring hk hfull hi ht hp
  rw [(helper_of_ring hruns i).pushes, (hdone i hi).2.2, List.filter_map]
  split
  case isTrue hends =>
    have hone : (List.range conf.packetCnt).filter
        (sendKey conf (ringCmd requestorIP lostFilename coef stripe i) · =
          .blk (sliceName lostFilename t)) = [swap conf.packetCnt (stripe.length - 1) i t] :=
      filter_range_eq (swap_lt i hg ht) fun p hp => (hkey p hp).trans (and_iff_right hends)
    refine (congrArg (List.map _) hone).trans ?_
    have hplace := (place_eq_last hk hi).2 hends
    have hbytes := bytes_eq_carried hruns hk hnodes hfull hdone ht _ i hi rfl
    have hpacket : packet conf (ringCmd requestorIP lostFilename coef stripe i) (s.loc i)
        (swap conf.packetCnt (stripe.length - 1) i t) =
          { bytes := carried conf blkDir requestorIP lostFilename coef stripe t (stripe.length - 1)
            sliId := t } := by
      show Packet.mk (bytesOf ((s.loc i).diskPkts _) _) ((pktIdx conf _).getD _ 0) = _
      rw [hbytes, getD_pktIdx_ring hk hi (swap_lt i hg ht), swap_swap i hg ht,
        Nat.eq_sub_of_add_eq hplace]
    rw [List.map_singleton, hpacket, (hkey _ (swap_lt i hg ht)).2 ⟨hends, rfl⟩]
  case isFalse hnot =>
    have hnone : (List.range conf.packetCnt).filter
        (sendKey conf (ringCmd requestorIP lostFilename coef stripe i) · =
          .blk (sliceName lostFilename t)) = [] := by
      refine List.filter_eq_nil_iff.2 fun p hp heq => hnot ?_
      exact ((hkey p (List.mem_range.1 hp)).1 (of_decide_eq_true heq)).1
    exact congrArg (List.map _) hnone

/-- If packets are made of whole words, a slice at the end of its path is the sum of the scaled
slices of all helpers. -/
theorem carried_eq_sum (hk : 3 ≤ stripe.length) (hwords : conf.packetSize % 8 = 0) (t : Nat) :
    carried conf blkDir requestorIP lostFilename coef stripe t (stripe.length - 1) =
      bytesOf (fun x => (Finset.range stripe.length).sum fun a =>
        ownSlice conf blkDir requestorIP lostFilename coef stripe a t x) conf.packetSize := by
  have hpath : ∀ n, carried conf blkDir requestorIP lostFilename coef stripe t n =
      bytesOf (fun x => (Finset.range (n + 1)).sum fun a =>
        ownSlice conf blkDir requestorIP lostFilename coef stripe
          (helperAt stripe.length t a) t x) conf.packetSize := by
    intro n
    induction n with
    | zero =>
        refine bytesOf_congr fun x _ _ => ?_
        rw [Finset.sum_range_one]
    | succ n ih =>
        rw [carried, ih, bytesOf_XORBuffers hwords]
        refine bytesOf_congr fun x h0 hx => ?_
        have hbefore : ∀ f : Buf, Packet.str ⟨bytesOf f conf.packetSize, t⟩ x = f x :=
          fun f => getD_bytesOf h0 hx
        rw [Finset.sum_range_succ _ (n + 1), add_comm, hbefore]
  rw [hpath, Nat.sub_add_cancel (by omega)]
  -- the path comes to every helper once
  refine bytesOf_congr fun x _ _ => Finset.sum_nbij' (helperAt stripe.length t)
    (place stripe.length t) ?_ ?_ ?_ ?_ fun _ _ => rfl
  · exact fun a _ => Finset.mem_range.2 (helperAt_lt hk t a)
  · exact fun a ha => Finset.mem_range.2 (place_lt hk (Finset.mem_range.1 ha))
  · exact fun a ha => place_helperAt hk (Finset.mem_range.1 ha)
  · exact fun a ha => helperAt_place hk (Finset.mem_range.1 ha)

/-- A completed run with full groups agrees. -/
theorem agrees_of_full
    (hruns : Lists.Runs _ (ringStart conf blkDir requestorIP lostFilename coef stripe) tr s)
    (hk : 3 ≤ stripe.length) (hnodes : (stripe.map Prod.fst).Nodup)
    (hfull : conf.packetCnt % (stripe.length - 1) = 0) (hwords : conf.packetSize % 8 = 0) :
    Completed conf blkDir requestorIP lostFilename coef stripe s →
      Agrees conf blkDir requestorIP lostFilename coef stripe tr s := by
  intro hdone
  have htaken : ∀ i < stripe.length, (s.loc i).taken.map Prod.snd =
      Lists.pushed (host stripe (prev stripe.length i)) (.tmp lostFilename)
        (tr.map Prod.snd) := by
    intro i hi
    rw [pushed_tmp hruns hnodes (prev_lt hk hi), (hdone _ (prev_lt hk hi)).2.2]
    exact taken_eq hruns hk hnodes hfull hdone hi
  refine ⟨fun t ht i hi => ?_, fun i hi => ?_, htaken, fun i hi q hq => ?_⟩
  · rw [pushes_slice hruns hk hnodes hfull hdone hi ht, carried_eq_sum hk hwords]
  · rw [← htaken i hi, ← length_pulls_eq hk hfull, ← (hdone i hi).2.1,
      ← (helper_of_ring hruns i).taken, List.length_map, List.length_map]
  · have hmem := List.mem_map_of_mem (f := Prod.fst) hq
    rw [(helper_of_ring hruns i).taken, (hdone i hi).2.1] at hmem
    have hp := (mem_pulls.1 hmem).1
    rw [sliId_of_taken hruns hk hnodes hfull hdone hi q hq]
    exact getElem?_pktIdx hk hi hp

end Full

/-! ## Every run can be completed -/

section Progress

variable {tr : List (Nat × Event Nat ListKey Packet)}
  {s : Lists.State (ring conf blkDir requestorIP lostFilename coef stripe)}

/-- The helpers come to an end. -/
theorem length_le {tr : List (Nat × Event Nat ListKey Packet)}
    {s : Lists.State (ring conf blkDir requestorIP lostFilename coef stripe)} :
    Lists.Runs _ (ringStart conf blkDir requestorIP lostFilename coef stripe) tr s →
      tr.length ≤ stripe.length * (4 * conf.packetCnt + 1) := by
  intro hruns
  have hranks : tr.length ≤ (Finset.range stripe.length).sum fun i => State.rank (s.loc i) := by
    induction hruns with
    | refl => exact Nat.zero_le _
    | @snoc s s' tr i e hrest hstep ih =>
        obtain ⟨⟨hi, hlocal⟩, -⟩ := hstep
        rw [List.length_append, List.length_singleton]
        refine Nat.lt_of_le_of_lt ih (Finset.sum_lt_sum (fun j hj => ?_)
          ⟨i, Finset.mem_range.2 hi, ?_⟩)
        · by_cases hji : j = i
          · subst hji
            simpa using (Nat.le_succ _).trans hlocal.rank_eq.ge
          · simp [Function.update_of_ne hji]
        · simpa using Nat.lt_of_succ_le hlocal.rank_eq.ge
  have hsum := Finset.sum_le_card_nsmul (Finset.range stripe.length)
    (fun i => State.rank (s.loc i)) (4 * conf.packetCnt + 1)
    fun i _ => (helper_of_ring hruns i).rank_le
  rw [Finset.card_range, smul_eq_mul] at hsum
  exact hranks.trans hsum

/-- A helper in a ring where nothing can happen. -/
theorem waits
    (hruns : Lists.Runs _ (ringStart conf blkDir requestorIP lostFilename coef stripe) tr s)
    (hstuck : ∀ i e s', ¬ Lists.Step _ s i e s') {i : Nat} (hi : i < stripe.length) :
    Waits conf (ringCmd requestorIP lostFilename coef stripe i)
      (s.lists (host stripe (prev stripe.length i)) (.tmp lostFilename)) (s.loc i) := by
  refine (helper_of_ring hruns i).waits (fun l hstep => ?_) (fun h key m l hstep => ?_)
    fun m ms l hlist hstep => ?_
  · exact Lists.not_local_of_stuck hstuck (i := i) (fun _ _ _ heq => by cases heq) ⟨hi, hstep⟩
  · exact Lists.not_local_of_stuck hstuck (i := i) (fun _ _ _ heq => by cases heq) ⟨hi, hstep⟩
  · rw [prevIP_ringCmd] at hstep
    exact Lists.ne_cons_of_stuck hstuck (i := i) ⟨hi, hstep⟩ ms hlist

/-- A helper that is held up has taken all that the helper before has sent. -/
theorem starved
    (hruns : Lists.Runs _ (ringStart conf blkDir requestorIP lostFilename coef stripe) tr s)
    (hk : 3 ≤ stripe.length) (hnodes : (stripe.map Prod.fst).Nodup)
    (hstuck : ∀ i e s', ¬ Lists.Step _ s i e s') {i : Nat} (hi : i < stripe.length) :
    (s.loc i).toSendCnt < conf.packetCnt →
      IsPulled (ringCmd requestorIP lostFilename coef stripe i) (s.loc i).toSendCnt ∧
        (tmps conf (ringCmd requestorIP lostFilename coef stripe (prev stripe.length i))
            (s.loc (prev stripe.length i)).toSendCnt).length =
          (pulls (ringCmd requestorIP lostFilename coef stripe i) (s.loc i).toSendCnt).length := by
  intro hlt
  have hhelper := helper_of_ring hruns i
  have htaken : (s.loc i).taken.length =
      (pulls (ringCmd requestorIP lostFilename coef stripe i) (s.loc i).toSendCnt).length := by
    rw [← hhelper.taken, List.length_map]
  obtain ⟨hpull, hanswers, hwait⟩ := (waits hruns hstuck hi).puller hlt
  -- it has asked for more
  have hasked : (s.loc i).popCnt < retrieveCnt conf
      (ringCmd requestorIP lostFilename coef stripe i) := by
    calc (s.loc i).popCnt
        = (pulls (ringCmd requestorIP lostFilename coef stripe i) (s.loc i).toSendCnt).length := by
          rw [hhelper.popCnt, hanswers, htaken]
          rfl
      _ < (pulls (ringCmd requestorIP lostFilename coef stripe i) conf.packetCnt).length :=
          length_pulls_lt_of_isPulled hpull hlt
      _ ≤ retrieveCnt conf (ringCmd requestorIP lostFilename coef stripe i) := length_pulls_le hk
  have hlink := congrArg List.length (link hruns hk hnodes hi)
  rw [hwait hasked, hanswers, (waits hruns hstuck (prev_lt hk hi)).sent, List.append_nil,
    List.append_nil, List.length_map, List.length_map, htaken] at hlink
  exact ⟨hpull, hlink.symm⟩

/-- If nothing can happen any more, all helpers are done: the one that is least far could go on. -/
theorem completed_of_stuck
    (hruns : Lists.Runs _ (ringStart conf blkDir requestorIP lostFilename coef stripe) tr s)
    (hk : 3 ≤ stripe.length) (hnodes : (stripe.map Prod.fst).Nodup) :
    (∀ i e s', ¬ Lists.Step _ s i e s') →
      Completed conf blkDir requestorIP lostFilename coef stripe s := by
  intro hstuck
  have hzero : 0 < stripe.length := by omega
  obtain ⟨i, hi, hleast⟩ := Finset.exists_min_image (Finset.range stripe.length)
    (fun i => State.toSendCnt (s.loc i)) ⟨0, Finset.mem_range.2 hzero⟩
  have hi := Finset.mem_range.1 hi
  have hleast : ∀ j < stripe.length, (s.loc i).toSendCnt ≤ (s.loc j).toSendCnt :=
    fun j hj => hleast j (Finset.mem_range.2 hj)
  have hall : conf.packetCnt ≤ (s.loc i).toSendCnt := by
    by_contra hnot
    have hlt := Nat.lt_of_not_le hnot
    -- a helper behind the first has been sent one slice more than it has taken
    have hbehind : ∀ j < stripe.length, j ≠ 0 → (s.loc j).toSendCnt ≠ (s.loc i).toSendCnt := by
      intro j hj hne hsame
      have hlt := hsame ▸ hlt
      obtain ⟨hpull, hlength⟩ := starved hruns hk hnodes hstuck hj hlt
      have hmono : (tmps conf (ringCmd requestorIP lostFilename coef stripe (prev stripe.length j))
          (s.loc j).toSendCnt).length ≤ _ :=
        length_tmps_mono (hsame.le.trans (hleast _ (prev_lt hk hj)))
      have hnext : prev stripe.length j + 1 = j := by
        rw [prev, if_neg hne]
        omega
      have horder := congrArg List.length (tmps_succ_eq_pulls
        (ringCmd requestorIP lostFilename coef stripe j)
        (ringCmd requestorIP lostFilename coef stripe (prev stripe.length j)) hk rfl hnext hj hlt)
      rw [List.length_map] at horder
      rw [horder, hlength] at hmono
      exact absurd (length_pulls_lt_of_isPulled hpull (Nat.lt_succ_self _)) (Nat.not_lt_of_le hmono)
    -- the first one is as far as the last
    have hfirst : i = 0 := by
      by_contra hne
      exact hbehind i hi hne rfl
    subst hfirst
    obtain ⟨-, hlength⟩ := starved hruns hk hnodes hstuck hi hlt
    rw [show prev stripe.length 0 = stripe.length - 1 from rfl,
      tmps_last hk (show stripe.length - 1 + 1 = stripe.length by omega), pulls_first rfl,
      List.length_range, List.length_range] at hlength
    exact hbehind _ (by omega) (by omega) hlength
  intro j hj
  have hread := (waits hruns hstuck hj).read
  have hcounted : (s.loc j).toSendCnt = conf.packetCnt :=
    ((helper_of_ring hruns j).toSendCnt.trans hread.le).antisymm (hall.trans (hleast j hj))
  exact ⟨hread, hcounted, (waits hruns hstuck hj).sent.trans hcounted⟩

theorem exists_completed (hk : 3 ≤ stripe.length) (hnodes : (stripe.map Prod.fst).Nodup) :
    ∃ tr s, Lists.Runs _ (ringStart conf blkDir requestorIP lostFilename coef stripe) tr s ∧
      Completed conf blkDir requestorIP lostFilename coef stripe s := by
  have hend : ∃ tr s, Lists.Runs _ (ringStart conf blkDir requestorIP lostFilename coef stripe) tr s ∧
      ∀ i e s', ¬ Lists.Step _ s i e s' := Lists.Runs.exists_stuck fun _ _ => length_le
  obtain ⟨tr, s, hruns, hstuck⟩ := hend
  exact ⟨tr, s, hruns, completed_of_stuck hruns hk hnodes hstuck⟩

end Progress

/-! ## When completed runs do not agree -/

section Fails

variable {tr : List (Nat × Event Nat ListKey Packet)}
  {s : Lists.State (ring conf blkDir requestorIP lostFilename coef stripe)}

/-- With a shorter last group the last helper has asked for more than it takes. -/
theorem not_agrees_of_short
    (hruns : Lists.Runs _ (ringStart conf blkDir requestorIP lostFilename coef stripe) tr s)
    (hk : 3 ≤ stripe.length) (hdone : Completed conf blkDir requestorIP lostFilename coef stripe s)
    (hshort : conf.packetCnt % (stripe.length - 1) ≠ 0) :
    ¬ Agrees conf blkDir requestorIP lostFilename coef stripe tr s := by
  intro hagrees
  have hi : stripe.length - 1 < stripe.length := by omega
  have hrequests := hagrees.requests _ hi
  rw [← hagrees.taken _ hi, List.length_map] at hrequests
  have hless : (pulls (ringCmd requestorIP lostFilename coef stripe (stripe.length - 1))
      conf.packetCnt).length < _ := length_pulls_lt hk (Nat.sub_add_cancel (by omega)) hshort
  rw [← (hdone _ hi).2.1, ← (helper_of_ring hruns _).taken, List.length_map, hrequests] at hless
  exact Nat.lt_irrefl _ hless

/-- Bytes behind the last whole word are not xored, so of such a byte only the last helper on the
path is seen. -/
theorem not_agrees_of_rest
    (hruns : Lists.Runs _ (ringStart conf blkDir requestorIP lostFilename coef stripe) tr s)
    (hk : 3 ≤ stripe.length) (hnodes : (stripe.map Prod.fst).Nodup)
    (hfull : conf.packetCnt % (stripe.length - 1) = 0) (hpos : 1 ≤ conf.packetCnt)
    (hdone : Completed conf blkDir requestorIP lostFilename coef stripe s)
    (hrest : conf.packetSize % 8 ≠ 0)
    (hone : ownSlice conf blkDir requestorIP lostFilename coef stripe 1 0
      (conf.packetSize - 1 : Nat) = 1)
    (hothers : ∀ i, i ≠ 1 → ownSlice conf blkDir requestorIP lostFilename coef stripe i 0
      (conf.packetSize - 1 : Nat) = 0) :
    ¬ Agrees conf blkDir requestorIP lostFilename coef stripe tr s := by
  intro hagrees
  have hi : 0 < stripe.length := by omega
  have hend : 0 = 0 % (stripe.length - 1) := (Nat.zero_mod _).symm
  -- what helper 0 has pushed as slice 0
  have hpushes := hagrees.slices 0 hpos 0 hi
  rw [pushes_slice hruns hk hnodes hfull hdone hi hpos, if_pos hend, if_pos hend] at hpushes
  have hbytes : carried conf blkDir requestorIP lostFilename coef stripe 0 (stripe.length - 1) =
      bytesOf (fun x => (Finset.range stripe.length).sum fun a =>
        ownSlice conf blkDir requestorIP lostFilename coef stripe a 0 x) conf.packetSize := by
    simpa using hpushes
  have hlast : ((conf.packetSize - 1 : Nat) : Int) < conf.packetSize := by omega
  have hsum : ((Finset.range stripe.length).sum fun a =>
      ownSlice conf blkDir requestorIP lostFilename coef stripe a 0
        (conf.packetSize - 1 : Nat)) = 1 := by
    rw [Finset.sum_eq_single_of_mem 1 (Finset.mem_range.2 (by omega)) fun a _ ha => hothers a ha]
    exact hone
  have hzero : ownSlice conf blkDir requestorIP lostFilename coef stripe
      (helperAt stripe.length 0 (stripe.length - 2 + 1)) 0 (conf.packetSize - 1 : Nat) = 0 := by
    refine hothers _ fun heq => ?_
    have hplace : place stripe.length 0 (helperAt stripe.length 0 (stripe.length - 2 + 1)) = _ :=
      place_helperAt hk (by omega)
    rw [heq, (place_eq_zero hk).2 (hend ▸ rfl)] at hplace
    cases hplace
  have hbyte := congrArg (fun l => l.getD ((conf.packetSize - 1 : Nat) : Int).toNat 0) hbytes
  rw [show stripe.length - 1 = stripe.length - 2 + 1 by omega, carried] at hbyte
  have hcontra : (0 : GF256) = 1 := by
    calc (0 : GF256)
        = ownSlice conf blkDir requestorIP lostFilename coef stripe
            (helperAt stripe.length 0 (stripe.length - 2 + 1)) 0 (conf.packetSize - 1 : Nat) :=
          hzero.symm
      _ = XORBuffers (ownSlice conf blkDir requestorIP lostFilename coef stripe
            (helperAt stripe.length 0 (stripe.length - 2 + 1)) 0) _ conf.packetSize
              (conf.packetSize - 1 : Nat) := (if_neg (by omega)).symm
      _ = _ := (getD_bytesOf (Int.natCast_nonneg _) hlast).symm
      _ = _ := hbyte
      _ = _ := getD_bytesOf (Int.natCast_nonneg _) hlast
      _ = 1 := hsum
  exact absurd hcontra zero_ne_one

end Fails

end Ring

/-! ## The ring repairs blocks with full groups only -/

section Main

variable {conf : PacketConfig} {k : Nat}

/-- Helpers of which only the second one counts. -/
def oneHelper (k : Nat) : List (Nat × Str) :=
  (List.range k).map fun i => (i, if i = 1 then ['a'] else [])

def oneCoefficient : TreeMap Str GF256 :=
  (∅ : TreeMap Str GF256).insert ['a'] 1

theorem length_oneHelper (k : Nat) : (oneHelper k).length = k := by
  rw [oneHelper, List.length_map, List.length_range]

theorem nodup_oneHelper (k : Nat) : ((oneHelper k).map Prod.fst).Nodup := by
  have hfst : (oneHelper k).map Prod.fst = List.range k := by
    rw [oneHelper, List.map_map]
    exact List.map_id _
  rw [hfst]
  exact List.nodup_range

theorem coefficient_oneHelper (hk : 3 ≤ k) (i : Nat) :
    (ringCmd 0 [] oneCoefficient (oneHelper k) i).coefficient = if i = 1 then 1 else 0 := by
  have hname : ((oneHelper k).getD i (0, [])).2 = if i = 1 then ['a'] else [] := by
    rw [oneHelper, List.getD_eq_getElem?_getD, List.getElem?_map]
    rcases Nat.lt_or_ge i k with hlt | hge
    · rw [List.getElem?_range hlt]
      rfl
    · rw [List.getElem?_eq_none (by simpa using hge), if_neg (by omega)]
      rfl
  show oneCoefficient.getD ((oneHelper k).getD i (0, [])).2 0 = _
  rw [hname]
  by_cases hi : i = 1
  · rw [if_pos hi, if_pos hi, oneCoefficient, TreeMap.getD_insert_self]
  · rw [if_neg hi, if_neg hi, oneCoefficient, TreeMap.getD_insert, if_neg (by decide)]
    rfl

theorem ownSlice_oneHelper (hk : 3 ≤ k) (i : Nat) {x : Int} (h0 : 0 ≤ x)
    (hx : x < conf.packetSize) :
    ownSlice conf (fun _ _ => 1) 0 [] oneCoefficient (oneHelper k) i 0 x =
      if i = 1 then 1 else 0 := by
  have hread : readPacketFromDisk (fun _ => 1) zeros conf.packetSize 0 x = 1 :=
    if_pos ⟨h0, by omega⟩
  rw [ownSlice, coefficient_oneHelper hk, RSUtil.multiply, if_pos ⟨h0, hx⟩, Nat.zero_mul, hread,
    mul_one]

/-- A ring that is right has full groups and packets of whole words. -/
theorem full_of_right (hk : 3 ≤ k) (hpos : 1 ≤ conf.packetCnt) :
    Right conf k → conf.packetCnt % (k - 1) = 0 ∧ conf.packetSize % 8 = 0 := by
  intro hright
  have hlength := length_oneHelper k
  have hnodes := nodup_oneHelper k
  have hk' : 3 ≤ (oneHelper k).length := hlength.symm ▸ hk
  have hend : ∃ tr s, Lists.Runs _ (ringStart conf (fun _ _ => 1) 0 [] oneCoefficient
      (oneHelper k)) tr s ∧ Completed conf (fun _ _ => 1) 0 [] oneCoefficient (oneHelper k) s :=
    exists_completed hk' hnodes
  obtain ⟨tr, s, hruns, hdone⟩ := hend
  have hagrees := hright _ _ _ _ _ hlength hnodes tr s hruns hdone
  have hfull : conf.packetCnt % (k - 1) = 0 := by
    by_contra hshort
    rw [← hlength] at hshort
    exact not_agrees_of_short hruns hk' hdone hshort hagrees
  refine ⟨hfull, ?_⟩
  by_contra hrest
  have hlast : ((conf.packetSize - 1 : Nat) : Int) < conf.packetSize := by omega
  have hbyte : ∀ i, ownSlice conf (fun _ _ => 1) 0 [] oneCoefficient (oneHelper k) i 0
      (conf.packetSize - 1 : Nat) = if i = 1 then 1 else 0 :=
    fun i => ownSlice_oneHelper hk i (Int.natCast_nonneg _) hlast
  rw [← hlength] at hfull
  refine not_agrees_of_rest hruns hk' hnodes hfull hpos hdone hrest ?_ (fun i hi => ?_) hagrees
  · rw [hbyte, if_pos rfl]
  · rw [hbyte, if_neg hi]

/-- The ring is right exactly if the slices fill their groups and packets are made of whole
words. -/
theorem right_iff (hk : 3 ≤ k) (hpos : 1 ≤ conf.packetCnt) :
    Right conf k ↔ conf.packetCnt % (k - 1) = 0 ∧ conf.packetSize % 8 = 0 := by
  constructor
  · exact full_of_right hk hpos
  · rintro ⟨hfull, hwords⟩ blkDir requestorIP lostFilename coef stripe rfl hnodes tr s hruns hdone
    exact agrees_of_full hruns hk hnodes hfull hwords hdone

/-- Four helpers and six packets. -/
theorem right_six : Right ⟨6, 8, 0⟩ 4 :=
  (right_iff (by decide) (by decide)).2 (by decide)

/-- One packet and three helpers: the last helper asks for it and does not take it. -/
theorem not_right_one : ¬ Right ⟨1, 8, 0⟩ 3 := by
  intro hright
  have hfull := (full_of_right (by decide) (by decide) hright).1
  exact absurd hfull (by decide)

end Main

end CyclDR

end CoRD
