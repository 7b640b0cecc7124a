import CoRD.Repair.ECPipeInputStream
import Mathlib.Data.List.Range
import Mathlib.Logic.Relation
import Mathlib.Tactic.Linarith

/-!
# CyclCollector — the client of a cyclic repair

Under the cyclic policy `k - 1` helpers send the packets of a lost block, so the client starts one
`cyclReceiver` for each helper and each lost block.  A receiver stores its packet, sets the flag of
the packet and reads `_completePacketIndex`, all outside the lock; inside the lock it publishes its
own index if everything before that has arrived.

A receiver may have read the index before another one moved it forward, and then it moves the index
back.  After the join the collector sets the index to the number of packets, which is the number of
indices only for a single block.  Both happen unless one receiver gets everything.

A thread that waits may look at its condition again at any time, so no wake-up is modelled.
-/

namespace CoRD

namespace CyclClient

variable {Packet : Type}

/-- Where a `cyclReceiver` is; it has handled `n` replies. -/
inductive Receiver where
  | get (n : Nat)
  | flag (n pktId : Nat)
  | base (n newIndex : Nat)
  | lock (n newIndex baseIndex : Nat)
  | scan (n newIndex baseIndex : Nat)
  | unlock (n : Nat)
  | done
  deriving DecidableEq

/-- The members that the threads share, and where the threads are. -/
structure State (Packet : Type) where
  contents : Nat × Nat → Option Packet
  indexCompleted : Nat × Nat → Bool
  completePacketIndex : Nat
  processedPacket : Nat
  indexMtx : Bool
  cyclReceivers : Nat × Nat → Receiver
  joined : Bool
  forwarder : Client.Forwarder
  forwarded : List (Nat × Nat × Option Packet)

/-- The client when the threads are started. -/
def State.init : State Packet where
  contents := fun _ => none
  indexCompleted := fun _ => false
  completePacketIndex := 0
  processedPacket := 0
  indexMtx := false
  cyclReceivers := fun _ => .get 0
  joined := false
  forwarder := .forward 0 0
  forwarded := []

/-- A receiver goes on to its next statement. -/
def State.goto (s : State Packet) (q : Nat × Nat) (r : Receiver) : State Packet :=
  { s with cyclReceivers := Function.update s.cyclReceivers q r }

/-- The number of replies that receiver `i` of a block waits for. -/
def cnts (packetCnt ecK i : Nat) : Nat :=
  packetCnt / (ecK - 1) + if i < packetCnt % (ecK - 1) then 1 else 0

section Step

variable (packetCnt ecK nj : Nat) (reply : Nat → Nat → Nat → Packet × Nat)

/-- One step of `cyclReceiver`; `reply i j n` is the packet with its number that helper `i` sends
as its `n`-th for lost block `j`. -/
def cyclReceiverStep (i j : Nat) (s : State Packet) : Option (State Packet) :=
  match s.cyclReceivers (i, j) with
  | .get n =>
      if n < cnts packetCnt ecK i then
        let pktId := (reply i j n).2
        some ({ s with contents := Function.update s.contents (pktId, j) (some (reply i j n).1) }.goto
          (i, j) (.flag n pktId))
      else some (s.goto (i, j) .done)
  | .flag n pktId =>
      some ({ s with indexCompleted := Function.update s.indexCompleted (pktId, j) true }.goto
        (i, j) (.base n (pktId * nj + j)))
  -- `completePacketIndex` is read before `indexMtx` is taken
  | .base n newIndex => some (s.goto (i, j) (.lock n newIndex s.completePacketIndex))
  | .lock n newIndex baseIndex =>
      if s.indexMtx then none
      else some ({ s with indexMtx := true }.goto (i, j) (.scan n newIndex baseIndex))
  | .scan n newIndex baseIndex =>
      if baseIndex < newIndex then
        -- a gap below the new index leaves the counter where it is
        if s.indexCompleted (baseIndex / nj, baseIndex % nj) then
          some (s.goto (i, j) (.scan n newIndex (baseIndex + 1)))
        else some (s.goto (i, j) (.unlock n))
      else some ({ s with completePacketIndex := newIndex + 1 }.goto (i, j) (.unlock n))
  | .unlock n => some ({ s with indexMtx := false }.goto (i, j) (.get (n + 1)))
  | .done => none

/-- All receivers have returned. -/
def Returned (s : State Packet) : Prop :=
  ∀ i < ecK - 1, ∀ j < nj, s.cyclReceivers (i, j) = .done

instance (s : State Packet) : Decidable (Returned ecK nj s) :=
  inferInstanceAs (Decidable (∀ i < ecK - 1, ∀ j < nj, s.cyclReceivers (i, j) = .done))

/-- `cyclCollector` after the last join. -/
def cyclCollectorStep (s : State Packet) : Option (State Packet) :=
  if Returned ecK nj s ∧ s.joined = false then
    some { s with completePacketIndex := packetCnt, joined := true }
  else none

/-- One step of `pipeForwardWorker`; packets of the first block are deleted when they are
written. -/
def pipeForwardWorkerStep (s : State Packet) : Option (State Packet) :=
  match s.forwarder with
  | .forward i j =>
      if i < packetCnt then
        if j < nj then
          if s.processedPacket < s.completePacketIndex then
            some { s with
              processedPacket := s.processedPacket + 1
              forwarded := s.forwarded ++ [(i, j, s.contents (i, j))]
              contents := if j = 0 then Function.update s.contents (i, 0) none else s.contents
              forwarder := .forward i (j + 1) }
          else none
        else some { s with forwarder := .forward (i + 1) 0 }
      else some { s with forwarder := .done }
  | .done => none

/-- Any thread takes a step. -/
inductive Step (s s' : State Packet) : Prop where
  | receiver {i j : Nat} (hi : i < ecK - 1) (hj : j < nj)
      (h : cyclReceiverStep packetCnt ecK nj reply i j s = some s')
  | collector (h : cyclCollectorStep packetCnt ecK nj s = some s')
  | forwarder (h : pipeForwardWorkerStep packetCnt nj s = some s')

/-- The states of a client that has started its threads. -/
def Reachable (s : State Packet) : Prop :=
  Relation.ReflTransGen (Step packetCnt ecK nj reply) State.init s

/-! ## What the collection is for -/

/-- Each packet of each lost block is sent by one helper, once. -/
structure Delivered (payload : Nat → Nat → Packet) : Prop where
  packet : ∀ i < ecK - 1, ∀ j < nj, ∀ n < cnts packetCnt ecK i,
    (reply i j n).2 < packetCnt ∧ (reply i j n).1 = payload (reply i j n).2 j
  once : ∀ j < nj, ∀ p < packetCnt,
    ∃! q : Nat × Nat, q.1 < ecK - 1 ∧ q.2 < cnts packetCnt ecK q.1 ∧ (reply q.1 j q.2).2 = p

/-- All packets of all blocks, in the order of the indices. -/
def everything (payload : Nat → Nat → Packet) : List (Nat × Nat × Option Packet) :=
  (List.range packetCnt).flatMap fun i => (List.range nj).map fun j => (i, j, some (payload i j))

/-- What lies below the index is there, the index only moves forward and ends behind everything, and
the forwarder can go through to the end. -/
structure Collects (payload : Nat → Nat → Packet) : Prop where
  stored : ∀ s, Reachable packetCnt ecK nj reply s → ∀ idx < s.completePacketIndex,
    s.indexCompleted (idx / nj, idx % nj) = true ∧
      (s.processedPacket ≤ idx →
        s.contents (idx / nj, idx % nj) = some (payload (idx / nj) (idx % nj)))
  forward : ∀ s s', Reachable packetCnt ecK nj reply s → Step packetCnt ecK nj reply s s' →
    s.completePacketIndex ≤ s'.completePacketIndex
  joined : ∀ s, Reachable packetCnt ecK nj reply s → s.joined = true →
    s.completePacketIndex = packetCnt * nj
  once : ∀ s, Reachable packetCnt ecK nj reply s →
    s.forwarded <+: everything packetCnt nj payload
  finishes : ∀ s, Reachable packetCnt ecK nj reply s → s.joined = true →
    ∃ s', Relation.ReflTransGen (Step packetCnt ecK nj reply) s s' ∧ s'.forwarder = .done ∧
      s'.forwarded = everything packetCnt nj payload

end Step

/-! ## The packets of a helper -/

section Order

variable {packetCnt ecK : Nat}

/-- Helper `i` has a packet in its `n`-th round if there is one with this number. -/
theorem lt_cnts_iff {i : Nat} (n : Nat) : i < ecK - 1 →
    (n < cnts packetCnt ecK i ↔ i + (ecK - 1) * n < packetCnt) := by
  intro hi
  have hdiv : (ecK - 1) * (packetCnt / (ecK - 1)) + packetCnt % (ecK - 1) = packetCnt :=
    Nat.div_add_mod packetCnt (ecK - 1)
  have hround : ∀ a b, a ≤ b → (ecK - 1) * a ≤ (ecK - 1) * b :=
    fun a b hab => Nat.mul_le_mul_left (ecK - 1) hab
  have hnext : ∀ a, (ecK - 1) * (a + 1) = (ecK - 1) * a + (ecK - 1) := Nat.mul_succ (ecK - 1)
  unfold cnts
  split
  · constructor
    · intro hn
      have := hround n _ (Nat.le_of_lt_succ hn)
      omega
    · intro hn
      by_contra hge
      have := hround (packetCnt / (ecK - 1) + 1) n (Nat.le_of_not_lt hge)
      have := hnext (packetCnt / (ecK - 1))
      have := Nat.mod_lt packetCnt (Nat.zero_lt_of_lt hi)
      omega
  · rw [Nat.add_zero]
    constructor
    · intro hn
      have := hround (n + 1) _ hn
      have := hnext n
      omega
    · intro hn
      by_contra hge
      have := hround _ n (Nat.le_of_not_lt hge)
      omega

/-- The helpers take turns, as the slices end at one after the other. -/
def inTurn (ecK : Nat) (payload : Nat → Nat → Packet) (i j n : Nat) : Packet × Nat :=
  (payload (i + (ecK - 1) * n) j, i + (ecK - 1) * n)

theorem delivered_inTurn (hk : 2 ≤ ecK) (nj : Nat) (payload : Nat → Nat → Packet) :
    Delivered packetCnt ecK nj (inTurn ecK payload) payload where
  packet := by
    intro i hi j _ n hn
    exact ⟨(lt_cnts_iff n hi).1 hn, rfl⟩
  once := by
    intro j _ p hp
    have hpos : 0 < ecK - 1 := Nat.sub_pos_of_lt hk
    have hmod : p % (ecK - 1) < ecK - 1 := Nat.mod_lt p hpos
    have hsplit : p % (ecK - 1) + (ecK - 1) * (p / (ecK - 1)) = p := Nat.mod_add_div p (ecK - 1)
    refine ⟨(p % (ecK - 1), p / (ecK - 1)), ⟨hmod, ?_, hsplit⟩, ?_⟩
    · apply (lt_cnts_iff _ hmod).2
      show p % (ecK - 1) + (ecK - 1) * (p / (ecK - 1)) < packetCnt
      rwa [hsplit]
    · rintro ⟨i, n⟩ ⟨hi, -, hsame⟩
      obtain rfl : i + (ecK - 1) * n = p := hsame
      have hquot : (i + (ecK - 1) * n) / (ecK - 1) = n := by
        rw [Nat.add_mul_div_left i n hpos, Nat.div_eq_of_lt hi, Nat.zero_add]
      have hrem : (i + (ecK - 1) * n) % (ecK - 1) = i := by
        rw [Nat.add_mul_mod_self_left, Nat.mod_eq_of_lt hi]
      rw [hquot, hrem]

end Order

/-! ## The index moves back -/

section Stale

variable {packetCnt ecK nj : Nat} {reply : Nat → Nat → Nat → Packet × Nat}

/-- The receivers in the list take a step each. -/
def runReceivers (packetCnt ecK nj : Nat) (reply : Nat → Nat → Nat → Packet × Nat)
    (s : State Packet) : List (Nat × Nat) → Option (State Packet)
  | [] => some s
  | q :: l =>
      (cyclReceiverStep packetCnt ecK nj reply q.1 q.2 s).bind fun s' =>
        runReceivers packetCnt ecK nj reply s' l

theorem reachable_runReceivers {l : List (Nat × Nat)} {s s' : State Packet}
    (hl : ∀ q ∈ l, q.1 < ecK - 1 ∧ q.2 < nj) (hs : Reachable packetCnt ecK nj reply s) :
    runReceivers packetCnt ecK nj reply s l = some s' → Reachable packetCnt ecK nj reply s' := by
  induction l generalizing s with
  | nil =>
      intro hrun
      cases hrun
      exact hs
  | cons q l ih =>
      intro hrun
      obtain ⟨s₁, hstep, hrest⟩ := Option.bind_eq_some_iff.1 hrun
      obtain ⟨hi, hj⟩ := hl q List.mem_cons_self
      exact ih (fun q' hq' => hl q' (List.mem_cons_of_mem q hq'))
        (hs.tail (.receiver hi hj hstep)) hrest

/-- The first receiver reads the index, another one publishes behind its packet, and then the first
one publishes its own. -/
theorem exists_back {i j : Nat} (hi : i < ecK - 1) (hj : j < nj) (hne : (i, j) ≠ (0, 0))
    (hcnt₀ : 0 < cnts packetCnt ecK 0) (hcnt : 0 < cnts packetCnt ecK i)
    (hfirst : (reply 0 0 0).2 = 0) (hother : (reply i j 0).2 * nj + j = 1) :
    ∃ s s', Reachable packetCnt ecK nj reply s ∧ Step packetCnt ecK nj reply s s' ∧
      s'.completePacketIndex < s.completePacketIndex := by
  have hpos : 0 < ecK - 1 ∧ 0 < nj := ⟨Nat.zero_lt_of_lt hi, Nat.zero_lt_of_lt hj⟩
  have hcell : (0, 0) ≠ ((reply i j 0).2, j) := by
    intro heq
    obtain ⟨hpkt, rfl⟩ := Prod.ext_iff.1 heq
    have hpkt : 0 = (reply i 0 0).2 := hpkt
    rw [← hpkt, Nat.zero_mul] at hother
    cases hother
  let l : List (Nat × Nat) := List.replicate 3 (0, 0) ++ List.replicate 7 (i, j) ++ [(0, 0)]
  have hl : ∀ q ∈ l, q.1 < ecK - 1 ∧ q.2 < nj := by
    simp [l, hpos, hi, hj]
  obtain ⟨s, hrun, hindex, hscan⟩ : ∃ s,
      runReceivers packetCnt ecK nj reply State.init l = some s ∧ s.completePacketIndex = 2 ∧
        s.cyclReceivers (0, 0) = .scan 0 0 0 := by
    simp [l, List.replicate, runReceivers, cyclReceiverStep, State.init, State.goto, hcnt₀, hcnt,
      hfirst, hother, Function.update_of_ne hne, Function.update_of_ne hne.symm,
      Function.update_of_ne hcell]
  refine ⟨s, { s with completePacketIndex := 1 }.goto (0, 0) (.unlock 0),
    reachable_runReceivers hl .refl hrun, .receiver hpos.1 hpos.2 ?_, ?_⟩
  · simp [cyclReceiverStep, hscan]
  · show 1 < s.completePacketIndex
    rw [hindex]
    exact Nat.one_lt_two

end Stale

/-! ## A single receiver -/

section Single

variable (packetCnt ecK : Nat) (reply : Nat → Nat → Nat → Packet × Nat)
  (payload : Nat → Nat → Packet)

/-- How many replies have been handled up to their flag. -/
def Receiver.flagged : Receiver → Nat
  | .get n => n
  | .flag n _ => n
  | .base n _ => n + 1
  | .lock n _ _ => n + 1
  | .scan n _ _ => n + 1
  | .unlock n => n + 1
  | .done => cnts packetCnt ecK 0

/-- What the receiver knows where it is.  Its next index is not below the published one, because
everything below that was flagged earlier. -/
def Phase (s : State Packet) : Receiver → Prop
  | .get n => n ≤ cnts packetCnt ecK 0
  | .flag n pktId => n < cnts packetCnt ecK 0 ∧ pktId = (reply 0 0 n).2 ∧
      s.contents (pktId, 0) = some (payload pktId 0)
  | .base n newIndex => n < cnts packetCnt ecK 0 ∧ newIndex = (reply 0 0 n).2 ∧
      s.completePacketIndex ≤ newIndex
  | .lock n newIndex baseIndex => n < cnts packetCnt ecK 0 ∧ newIndex = (reply 0 0 n).2 ∧
      s.completePacketIndex ≤ newIndex ∧ baseIndex = s.completePacketIndex
  | .scan n newIndex baseIndex => n < cnts packetCnt ecK 0 ∧ newIndex = (reply 0 0 n).2 ∧
      s.completePacketIndex ≤ baseIndex ∧ baseIndex ≤ newIndex ∧
      ∀ idx < baseIndex, s.indexCompleted (idx, 0) = true
  | .unlock n => n < cnts packetCnt ecK 0
  | .done => True

/-- Where the forwarder is after the packets that it has forwarded. -/
def Forwarding (s : State Packet) : Client.Forwarder → Prop
  | .forward i j => j = 0 ∧ s.processedPacket = i ∨
      j = 1 ∧ s.processedPacket = i + 1 ∧ i < packetCnt
  | .done => s.processedPacket = packetCnt

/-- One block, and one receiver that gets all of its packets. -/
structure Inv (s : State Packet) : Prop where
  others : ∀ i < ecK - 1, i ≠ 0 →
    s.cyclReceivers (i, 0) = .get 0 ∨ s.cyclReceivers (i, 0) = .done
  flags : ∀ p, s.indexCompleted (p, 0) = true ↔
    ∃ n < (s.cyclReceivers (0, 0)).flagged packetCnt ecK, (reply 0 0 n).2 = p
  below : ∀ idx < s.completePacketIndex, s.indexCompleted (idx, 0) = true
  stored : ∀ p, s.indexCompleted (p, 0) = true → s.processedPacket ≤ p →
    s.contents (p, 0) = some (payload p 0)
  phase : Phase packetCnt ecK reply payload s (s.cyclReceivers (0, 0))
  ended : s.joined = true →
    s.completePacketIndex = packetCnt ∧ s.cyclReceivers (0, 0) = .done
  forwarding : Forwarding packetCnt s s.forwarder
  forwarded : s.processedPacket ≤ packetCnt ∧ s.forwarded =
    (List.range s.processedPacket).map fun i => (i, 0, some (payload i 0))

/-- All replies of the block go to the first receiver, and they are all different. -/
structure Single : Prop where
  idle : ∀ i < ecK - 1, i ≠ 0 → cnts packetCnt ecK i = 0
  packet : ∀ n < cnts packetCnt ecK 0,
    (reply 0 0 n).2 < packetCnt ∧ (reply 0 0 n).1 = payload (reply 0 0 n).2 0
  inj : ∀ n < cnts packetCnt ecK 0, ∀ n' < cnts packetCnt ecK 0,
    (reply 0 0 n).2 = (reply 0 0 n').2 → n = n'
  all : ∀ p < packetCnt, ∃ n < cnts packetCnt ecK 0, (reply 0 0 n).2 = p

end Single

section Single

variable {packetCnt ecK : Nat} {reply : Nat → Nat → Nat → Packet × Nat}
  {payload : Nat → Nat → Packet} {s s' : State Packet}

theorem Inv.init : Inv packetCnt ecK reply payload State.init where
  others := fun _ _ _ => .inl rfl
  flags := by
    intro p
    constructor
    · intro hflag
      cases hflag
    · rintro ⟨n, hn, -⟩
      cases hn
  below := fun idx hidx => absurd hidx (Nat.not_lt_zero idx)
  stored := by
    intro p hflag
    cases hflag
  phase := Nat.zero_le _
  ended := by
    intro hjoined
    cases hjoined
  forwarding := .inl ⟨rfl, rfl⟩
  forwarded := ⟨Nat.zero_le _, rfl⟩

/-- The replies before the current one do not carry its packet. -/
theorem Single.not_flagged (hsingle : Single packetCnt ecK reply payload)
    (h : Inv packetCnt ecK reply payload s) {n : Nat} (hn : n < cnts packetCnt ecK 0)
    (hphase : (s.cyclReceivers (0, 0)).flagged packetCnt ecK = n) :
    s.indexCompleted ((reply 0 0 n).2, 0) = false := by
  cases hflag : s.indexCompleted ((reply 0 0 n).2, 0) with
  | false =>
      rfl
  | true =>
      obtain ⟨n', hn', hsame⟩ := (h.flags _).1 hflag
      rw [hphase] at hn'
      have heq : n' = n := hsingle.inj n' (hn'.trans hn) n hn hsame
      exact absurd hn' (heq ▸ Nat.lt_irrefl n)

theorem Inv.not_joined (h : Inv packetCnt ecK reply payload s)
    (hat : s.cyclReceivers (0, 0) ≠ .done) : s.joined = false := by
  cases hjoined : s.joined with
  | false =>
      rfl
  | true =>
      exact absurd (h.ended hjoined).2 hat

theorem Inv.others_update (h : Inv packetCnt ecK reply payload s) (r : Receiver) :
    ∀ i < ecK - 1, i ≠ 0 → Function.update s.cyclReceivers (0, 0) r (i, 0) = .get 0 ∨
      Function.update s.cyclReceivers (0, 0) r (i, 0) = .done := by
  intro i hi hne
  rw [Function.update_of_ne (by simp [hne])]
  exact h.others i hi hne

/-- The receiver goes on, and everything else stays. -/
theorem Inv.goto (h : Inv packetCnt ecK reply payload s) {r : Receiver}
    (hat : s.cyclReceivers (0, 0) ≠ .done)
    (hflagged : r.flagged packetCnt ecK = (s.cyclReceivers (0, 0)).flagged packetCnt ecK)
    (hphase : Phase packetCnt ecK reply payload s r) :
    Inv packetCnt ecK reply payload (s.goto (0, 0) r) where
  others := h.others_update r
  flags := by
    intro p
    simp only [State.goto, Function.update_self, hflagged]
    exact h.flags p
  below := h.below
  stored := h.stored
  phase := by
    simp only [State.goto, Function.update_self]
    cases r <;> exact hphase
  ended := fun hjoined => absurd (h.not_joined hat) (by simp [show s.joined = true from hjoined])
  forwarding := h.forwarding
  forwarded := h.forwarded

theorem Inv.setMtx (h : Inv packetCnt ecK reply payload s) (b : Bool) :
    Inv packetCnt ecK reply payload { s with indexMtx := b } where
  others := h.others
  flags := h.flags
  below := h.below
  stored := h.stored
  phase := h.phase
  ended := h.ended
  forwarding := h.forwarding
  forwarded := h.forwarded

/-- A packet is stored; it was not there before. -/
theorem Inv.store (hsingle : Single packetCnt ecK reply payload)
    (h : Inv packetCnt ecK reply payload s) {n : Nat} (hat : s.cyclReceivers (0, 0) = .get n)
    (hn : n < cnts packetCnt ecK 0) :
    Inv packetCnt ecK reply payload
      ({ s with
        contents := Function.update s.contents ((reply 0 0 n).2, 0) (some (reply 0 0 n).1) }.goto
        (0, 0) (.flag n (reply 0 0 n).2)) where
  others := h.others_update _
  flags := by
    intro p
    have hflags := h.flags p
    rw [hat] at hflags
    simpa only [State.goto, Function.update_self, Receiver.flagged] using hflags
  below := h.below
  stored := by
    intro p hflag hp
    have hnot := hsingle.not_flagged h hn (by rw [hat]; rfl)
    have hne : (p, 0) ≠ ((reply 0 0 n).2, 0) := by
      rintro heq
      rw [← heq] at hnot
      exact Bool.false_ne_true (hnot.symm.trans hflag)
    exact (Function.update_of_ne hne _ _).trans (h.stored p hflag hp)
  phase := by
    simp only [State.goto, Function.update_self, Phase]
    exact ⟨hn, trivial, congrArg some (hsingle.packet n hn).2⟩
  ended := fun hjoined => absurd (h.ended hjoined).2 (by simp [hat])
  forwarding := h.forwarding
  forwarded := h.forwarded

/-- The flag of the stored packet is set. -/
theorem Inv.setFlag (hsingle : Single packetCnt ecK reply payload)
    (h : Inv packetCnt ecK reply payload s) {n pktId : Nat}
    (hat : s.cyclReceivers (0, 0) = .flag n pktId) :
    Inv packetCnt ecK reply payload
      ({ s with indexCompleted := Function.update s.indexCompleted (pktId, 0) true }.goto
        (0, 0) (.base n (pktId * 1 + 0))) := by
  have hphase := h.phase
  rw [hat] at hphase
  obtain ⟨hn, rfl, hcontents⟩ := hphase
  have hnot := hsingle.not_flagged h hn (by rw [hat]; rfl)
  have hmono : ∀ p, s.indexCompleted (p, 0) = true →
      Function.update s.indexCompleted ((reply 0 0 n).2, 0) true (p, 0) = true := by
    intro p hp
    by_cases heq : (p, 0) = ((reply 0 0 n).2, 0)
    · rw [heq, Function.update_self]
    · rwa [Function.update_of_ne heq]
  exact
    { others := h.others_update _
      flags := by
        intro p
        have hflags := h.flags p
        rw [hat] at hflags
        simp only [State.goto, Function.update_self, Receiver.flagged] at hflags ⊢
        constructor
        · intro hp
          by_cases heq : p = (reply 0 0 n).2
          · exact ⟨n, Nat.lt_succ_self n, heq.symm⟩
          · rw [Function.update_of_ne (by simp [heq]), hflags] at hp
            obtain ⟨n', hn', hsame⟩ := hp
            exact ⟨n', Nat.lt_succ_of_lt hn', hsame⟩
        · rintro ⟨n', hn', rfl⟩
          rcases Nat.lt_succ_iff_lt_or_eq.1 hn' with hlt | rfl
          · exact hmono _ (hflags.2 ⟨n', hlt, rfl⟩)
          · exact Function.update_self ..
      below := fun idx hidx => hmono idx (h.below idx hidx)
      stored := by
        intro p hp hprocessed
        by_cases heq : p = (reply 0 0 n).2
        · subst heq
          exact hcontents
        · refine h.stored p ?_ hprocessed
          have hp : Function.update s.indexCompleted ((reply 0 0 n).2, 0) true (p, 0) = true := hp
          rwa [Function.update_of_ne (by simp [heq])] at hp
      phase := by
        simp only [State.goto, Function.update_self, Phase]
        refine ⟨hn, by omega, ?_⟩
        -- everything below the published index was flagged earlier
        by_contra hlt
        have hflag := h.below (reply 0 0 n).2 (by omega)
        exact Bool.false_ne_true (hnot.symm.trans hflag)
      ended := fun hjoined => absurd (h.ended hjoined).2 (by simp [hat])
      forwarding := h.forwarding
      forwarded := h.forwarded }

/-- The receiver publishes its own index. -/
theorem Inv.publish (h : Inv packetCnt ecK reply payload s) {n newIndex : Nat}
    (hat : s.cyclReceivers (0, 0) = .scan n newIndex newIndex) :
    Inv packetCnt ecK reply payload
      ({ s with completePacketIndex := newIndex + 1 }.goto (0, 0) (.unlock n)) := by
  have hphase := h.phase
  rw [hat] at hphase
  obtain ⟨hn, rfl, -, -, hbelow⟩ := hphase
  have hflags := h.flags
  rw [hat] at hflags
  exact
    { others := h.others_update _
      flags := by
        intro p
        simpa only [State.goto, Function.update_self, Receiver.flagged] using hflags p
      below := by
        intro idx hidx
        rcases Nat.lt_succ_iff_lt_or_eq.1 hidx with hlt | rfl
        · exact hbelow idx hlt
        · exact (hflags _).2 ⟨n, Nat.lt_succ_self n, rfl⟩
      stored := h.stored
      phase := by
        simp only [State.goto, Function.update_self]
        exact hn
      ended := fun hjoined => absurd (h.ended hjoined).2 (by simp [hat])
      forwarding := h.forwarding
      forwarded := h.forwarded }

/-- The first receiver takes a step. -/
theorem Inv.receiverStep (hsingle : Single packetCnt ecK reply payload)
    (h : Inv packetCnt ecK reply payload s) :
    cyclReceiverStep packetCnt ecK 1 reply 0 0 s = some s' →
      Inv packetCnt ecK reply payload s' ∧ s.completePacketIndex ≤ s'.completePacketIndex := by
  intro hstep
  have hphase := h.phase
  cases hat : s.cyclReceivers (0, 0) with
  | get n =>
      rw [hat] at hphase
      simp only [cyclReceiverStep, hat] at hstep
      by_cases hn : n < cnts packetCnt ecK 0
      · rw [if_pos hn] at hstep
        cases hstep
        exact ⟨h.store hsingle hat hn, Nat.le_refl _⟩
      · rw [if_neg hn] at hstep
        cases hstep
        refine ⟨h.goto (by simp [hat]) ?_ trivial, Nat.le_refl _⟩
        rw [hat]
        exact Nat.le_antisymm (Nat.le_of_not_lt hn) hphase
  | flag n pktId =>
      simp only [cyclReceiverStep, hat] at hstep
      cases hstep
      exact ⟨h.setFlag hsingle hat, Nat.le_refl _⟩
  | base n newIndex =>
      rw [hat] at hphase
      simp only [cyclReceiverStep, hat] at hstep
      cases hstep
      obtain ⟨hn, hnew, hle⟩ := hphase
      exact ⟨h.goto (by simp [hat]) (by rw [hat]; rfl) ⟨hn, hnew, hle, rfl⟩, Nat.le_refl _⟩
  | lock n newIndex baseIndex =>
      rw [hat] at hphase
      simp only [cyclReceiverStep, hat] at hstep
      split at hstep
      · cases hstep
      · cases hstep
        -- what it read before it took the lock is still a lower bound
        obtain ⟨hn, hnew, hle, rfl⟩ := hphase
        exact ⟨(h.setMtx true).goto (by simp [hat]) (by simp only [hat]; rfl)
          ⟨hn, hnew, Nat.le_refl _, hle, h.below⟩, Nat.le_refl _⟩
  | scan n newIndex baseIndex =>
      rw [hat] at hphase
      simp only [cyclReceiverStep, hat, Nat.div_one, Nat.mod_one] at hstep
      obtain ⟨hn, hnew, hle, hbase, hbelow⟩ := hphase
      by_cases hlt : baseIndex < newIndex
      · rw [if_pos hlt] at hstep
        split at hstep
        · rename_i hflag
          cases hstep
          refine ⟨h.goto (by simp [hat]) (by rw [hat]; rfl) ⟨hn, hnew, ?_, hlt, ?_⟩, Nat.le_refl _⟩
          · exact Nat.le_succ_of_le hle
          · intro idx hidx
            rcases Nat.lt_succ_iff_lt_or_eq.1 hidx with hlt' | rfl
            · exact hbelow idx hlt'
            · exact hflag
        · cases hstep
          exact ⟨h.goto (by simp [hat]) (by rw [hat]; rfl) hn, Nat.le_refl _⟩
      · rw [if_neg hlt] at hstep
        cases hstep
        obtain rfl : baseIndex = newIndex := Nat.le_antisymm hbase (Nat.le_of_not_lt hlt)
        -- all flags of the round are up, and only the last receiver gets here
        exact ⟨h.publish hat, Nat.le_succ_of_le hle⟩
  | unlock n =>
      rw [hat] at hphase
      simp only [cyclReceiverStep, hat] at hstep
      cases hstep
      exact ⟨(h.setMtx false).goto (by simp [hat]) (by simp only [hat]; rfl) hphase, Nat.le_refl _⟩
  | done =>
      simp [cyclReceiverStep, hat] at hstep

/-- Another receiver has nothing to receive. -/
theorem Inv.otherStep (hsingle : Single packetCnt ecK reply payload)
    (h : Inv packetCnt ecK reply payload s) {i : Nat} (hi : i < ecK - 1) (hne : i ≠ 0) :
    cyclReceiverStep packetCnt ecK 1 reply i 0 s = some s' →
      Inv packetCnt ecK reply payload s' ∧ s.completePacketIndex ≤ s'.completePacketIndex := by
  intro hstep
  have hcell : (0, 0) ≠ (i, 0) := by
    simp [hne.symm]
  rcases h.others i hi hne with hat | hat
  · simp only [cyclReceiverStep, hat, hsingle.idle i hi hne, Nat.not_lt_zero, if_false] at hstep
    cases hstep
    have hsame : (s.goto (i, 0) .done).cyclReceivers (0, 0) = s.cyclReceivers (0, 0) :=
      Function.update_of_ne hcell _ _
    refine ⟨?_, Nat.le_refl _⟩
    exact
      { others := by
          intro i' hi' hne'
          by_cases heq : i' = i
          · subst heq
            exact .inr (Function.update_self ..)
          · show Function.update s.cyclReceivers (i, 0) _ (i', 0) = _ ∨
              Function.update s.cyclReceivers (i, 0) _ (i', 0) = _
            rw [Function.update_of_ne (by simp [heq])]
            exact h.others i' hi' hne'
        flags := by
          rw [hsame]
          exact h.flags
        below := h.below
        stored := h.stored
        phase := by
          rw [hsame]
          exact h.phase
        ended := by
          rw [hsame]
          exact h.ended
        forwarding := h.forwarding
        forwarded := h.forwarded }
  · simp [cyclReceiverStep, hat] at hstep

/-- Only packets of the file are flagged. -/
theorem Inv.completePacketIndex_le (hsingle : Single packetCnt ecK reply payload)
    (h : Inv packetCnt ecK reply payload s) : s.completePacketIndex ≤ packetCnt := by
  by_contra hlt
  obtain ⟨n, hn, heq⟩ := (h.flags packetCnt).1 (h.below packetCnt (Nat.lt_of_not_le hlt))
  have hle : (s.cyclReceivers (0, 0)).flagged packetCnt ecK ≤ cnts packetCnt ecK 0 := by
    have hphase := h.phase
    cases hat : s.cyclReceivers (0, 0) with
    | get n => rw [hat] at hphase; exact hphase
    | flag n pktId => rw [hat] at hphase; exact Nat.le_of_lt hphase.1
    | base n newIndex => rw [hat] at hphase; exact hphase.1
    | lock n newIndex baseIndex => rw [hat] at hphase; exact hphase.1
    | scan n newIndex baseIndex => rw [hat] at hphase; exact hphase.1
    | unlock n => rw [hat] at hphase; exact hphase
    | done => exact Nat.le_refl _
  have hpacket := (hsingle.packet n (Nat.lt_of_lt_of_le hn hle)).1
  rw [heq] at hpacket
  exact Nat.lt_irrefl packetCnt hpacket

/-- The join. -/
theorem Inv.collectorStep (hpos : 0 < ecK - 1) (hsingle : Single packetCnt ecK reply payload)
    (h : Inv packetCnt ecK reply payload s) :
    cyclCollectorStep packetCnt ecK 1 s = some s' →
      Inv packetCnt ecK reply payload s' ∧ s.completePacketIndex ≤ s'.completePacketIndex := by
  intro hstep
  unfold cyclCollectorStep at hstep
  split at hstep
  · rename_i hreturned
    cases hstep
    have hdone : s.cyclReceivers (0, 0) = .done := hreturned.1 0 hpos 0 Nat.one_pos
    refine ⟨?_, h.completePacketIndex_le hsingle⟩
    exact
      { others := h.others
        flags := h.flags
        below := by
          intro idx hidx
          refine (h.flags idx).2 ?_
          rw [hdone]
          exact hsingle.all idx hidx
        stored := h.stored
        phase := by
          show Phase packetCnt ecK reply payload _ (s.cyclReceivers (0, 0))
          rw [hdone]
          trivial
        ended := fun _ => ⟨rfl, hdone⟩
        forwarding := h.forwarding
        forwarded := h.forwarded }
  · cases hstep

/-- The forwarder takes a step. -/
theorem Inv.forwarderStep (hsingle : Single packetCnt ecK reply payload)
    (h : Inv packetCnt ecK reply payload s) :
    pipeForwardWorkerStep packetCnt 1 s = some s' →
      Inv packetCnt ecK reply payload s' ∧ s.completePacketIndex ≤ s'.completePacketIndex := by
  intro hstep
  have hforwarding := h.forwarding
  unfold pipeForwardWorkerStep at hstep
  split at hstep
  · rename_i i j hat
    rw [hat] at hforwarding
    by_cases hi : i < packetCnt
    · rw [if_pos hi] at hstep
      rcases hforwarding with ⟨rfl, rfl⟩ | ⟨rfl, hprocessed, -⟩
      · rw [if_pos Nat.one_pos] at hstep
        split at hstep
        · rename_i hready
          cases hstep
          have hflag := h.below _ hready
          refine ⟨?_, Nat.le_refl _⟩
          exact
            { others := h.others
              flags := h.flags
              below := h.below
              stored := by
                intro p hp hprocessed
                have hne : p ≠ s.processedPacket := Nat.ne_of_gt hprocessed
                simp only [if_true]
                rw [Function.update_of_ne (by simp [hne])]
                exact h.stored p hp (Nat.le_of_succ_le hprocessed)
              phase := by
                have hphase := h.phase
                show Phase packetCnt ecK reply payload _ (s.cyclReceivers (0, 0))
                cases hat₀ : s.cyclReceivers (0, 0) with
                | flag n pktId =>
                    rw [hat₀] at hphase
                    obtain ⟨hn, rfl, hcontents⟩ := hphase
                    -- the packet that is being stored has no flag yet
                    have hnot := hsingle.not_flagged h hn (by rw [hat₀]; rfl)
                    have hne : (reply 0 0 n).2 ≠ s.processedPacket := by
                      intro heq
                      rw [heq] at hnot
                      exact Bool.false_ne_true (hnot.symm.trans hflag)
                    refine ⟨hn, rfl, ?_⟩
                    simp only [if_true]
                    rw [Function.update_of_ne (by simp [hne])]
                    exact hcontents
                | get n => rw [hat₀] at hphase; exact hphase
                | base n newIndex => rw [hat₀] at hphase; exact hphase
                | lock n newIndex baseIndex => rw [hat₀] at hphase; exact hphase
                | scan n newIndex baseIndex => rw [hat₀] at hphase; exact hphase
                | unlock n => rw [hat₀] at hphase; exact hphase
                | done => trivial
              ended := h.ended
              forwarding := .inr ⟨rfl, rfl, hi⟩
              forwarded := by
                refine ⟨hi, ?_⟩
                show s.forwarded ++ _ = (List.range (s.processedPacket + 1)).map _
                rw [h.forwarded.2, h.stored _ hflag (Nat.le_refl _), List.range_succ,
                  List.map_append, List.map_singleton] }
        · cases hstep
      · rw [if_neg (Nat.lt_irrefl 1)] at hstep
        cases hstep
        refine ⟨?_, Nat.le_refl _⟩
        exact { h with phase := h.phase, forwarding := .inl ⟨rfl, hprocessed⟩ }
    · rw [if_neg hi] at hstep
      cases hstep
      refine ⟨?_, Nat.le_refl _⟩
      refine { h with phase := h.phase, forwarding := ?_ }
      show s.processedPacket = packetCnt
      have hle := h.forwarded.1
      rcases hforwarding with ⟨-, heq⟩ | ⟨-, heq, hlt⟩ <;> omega
  · cases hstep

theorem Inv.step (hpos : 0 < ecK - 1) (hsingle : Single packetCnt ecK reply payload)
    (h : Inv packetCnt ecK reply payload s) :
    Step packetCnt ecK 1 reply s s' →
      Inv packetCnt ecK reply payload s' ∧ s.completePacketIndex ≤ s'.completePacketIndex := by
  intro hstep
  cases hstep with
  | @receiver i j hi hj hstep =>
      obtain rfl : j = 0 := Nat.lt_one_iff.1 hj
      by_cases hne : i = 0
      · subst hne
        exact h.receiverStep hsingle hstep
      · exact h.otherStep hsingle hi hne hstep
  | collector hstep =>
      exact h.collectorStep hpos hsingle hstep
  | forwarder hstep =>
      exact h.forwarderStep hsingle hstep

theorem inv_of_reachable (hpos : 0 < ecK - 1) (hsingle : Single packetCnt ecK reply payload) :
    Reachable packetCnt ecK 1 reply s → Inv packetCnt ecK reply payload s := by
  intro hs
  induction hs with
  | refl =>
      exact .init
  | tail _ hstep ih =>
      exact (ih.step hpos hsingle hstep).1

/-- The steps that the forwarder has left. -/
def stepsLeft (packetCnt : Nat) : Client.Forwarder → Nat
  | .forward i j => 2 * (packetCnt - i) + 2 - j
  | .done => 0

/-- After the join the forwarder does not wait. -/
theorem Inv.forwarder_moves (h : Inv packetCnt ecK reply payload s) (hjoined : s.joined = true)
    (hforwarder : s.forwarder ≠ .done) :
    ∃ s', pipeForwardWorkerStep packetCnt 1 s = some s' ∧ s'.joined = true ∧
      stepsLeft packetCnt s'.forwarder < stepsLeft packetCnt s.forwarder := by
  have hforwarding := h.forwarding
  have hindex := (h.ended hjoined).1
  cases hat : s.forwarder with
  | done =>
      exact absurd hat hforwarder
  | forward i j =>
      rw [hat] at hforwarding
      by_cases hi : i < packetCnt
      · rcases hforwarding with ⟨rfl, hprocessed⟩ | ⟨rfl, -, -⟩
        · have hready : s.processedPacket < s.completePacketIndex := by
            rwa [hprocessed, hindex]
          have hstep : ∃ s', pipeForwardWorkerStep packetCnt 1 s = some s' ∧
              s'.joined = s.joined ∧ s'.forwarder = .forward i 1 := by
            simp [pipeForwardWorkerStep, hat, hi, hready]
          obtain ⟨s', hs', hsame, hnext⟩ := hstep
          refine ⟨s', hs', hsame.trans hjoined, ?_⟩
          rw [hnext]
          simp only [stepsLeft]
          omega
        · refine ⟨{ s with forwarder := .forward (i + 1) 0 }, ?_, hjoined, ?_⟩
          · simp [pipeForwardWorkerStep, hat, hi]
          · simp only [stepsLeft]
            omega
      · refine ⟨{ s with forwarder := .done }, ?_, hjoined, ?_⟩
        · simp [pipeForwardWorkerStep, hat, hi]
        · simp only [stepsLeft]
          rcases hforwarding with ⟨rfl, -⟩ | ⟨rfl, -, hlt⟩ <;> omega

/-- After the join the forwarder goes through to its end. -/
theorem Inv.finishes (hpos : 0 < ecK - 1) (hsingle : Single packetCnt ecK reply payload)
    (h : Inv packetCnt ecK reply payload s) (hjoined : s.joined = true) :
    ∃ s', Relation.ReflTransGen (Step packetCnt ecK 1 reply) s s' ∧
      Inv packetCnt ecK reply payload s' ∧ s'.forwarder = .done := by
  induction hleft : stepsLeft packetCnt s.forwarder using Nat.strong_induction_on
    generalizing s with
  | _ left ih =>
      by_cases hdone : s.forwarder = .done
      · exact ⟨s, .refl, h, hdone⟩
      · obtain ⟨s₁, hstep, hjoined₁, hlt⟩ := h.forwarder_moves hjoined hdone
        have h₁ := (h.step hpos hsingle (.forwarder hstep)).1
        obtain ⟨s', hrun, hs'⟩ := ih _ (hleft ▸ hlt) h₁ hjoined₁ rfl
        exact ⟨s', .head (.forwarder hstep) hrun, hs'⟩

theorem everything_one : everything packetCnt 1 payload =
    (List.range packetCnt).map fun i => (i, 0, some (payload i 0)) := by
  rw [List.map_eq_flatMap]
  rfl

/-- With one receiver for everything the collection is right. -/
theorem collects_single (hpos : 0 < ecK - 1) (hsingle : Single packetCnt ecK reply payload) :
    Collects packetCnt ecK 1 reply payload where
  stored := by
    intro s hs idx hidx
    have h := inv_of_reachable hpos hsingle hs
    rw [Nat.div_one, Nat.mod_one]
    exact ⟨h.below idx hidx, h.stored idx (h.below idx hidx)⟩
  forward := fun s s' hs hstep => ((inv_of_reachable hpos hsingle hs).step hpos hsingle hstep).2
  joined := by
    intro s hs hjoined
    rw [Nat.mul_one]
    exact ((inv_of_reachable hpos hsingle hs).ended hjoined).1
  once := by
    intro s hs
    have h := inv_of_reachable hpos hsingle hs
    rw [everything_one, h.forwarded.2]
    refine List.IsPrefix.map _ ?_
    rw [← Nat.add_sub_cancel' h.forwarded.1, List.range_add]
    exact List.prefix_append _ _
  finishes := by
    intro s hs hjoined
    obtain ⟨s', hrun, h', hdone⟩ := (inv_of_reachable hpos hsingle hs).finishes hpos hsingle hjoined
    refine ⟨s', hrun, hdone, ?_⟩
    have hforwarding := h'.forwarding
    rw [hdone] at hforwarding
    have hall : s'.processedPacket = packetCnt := hforwarding
    rw [everything_one, h'.forwarded.2, hall]

theorem Delivered.single (hk : 0 < ecK - 1) (h : Delivered packetCnt ecK 1 reply payload)
    (hidle : ∀ i < ecK - 1, i ≠ 0 → cnts packetCnt ecK i = 0) :
    Single packetCnt ecK reply payload where
  idle := hidle
  packet := fun n hn => h.packet 0 hk 0 Nat.one_pos n hn
  inj := by
    intro n hn n' hn' hsame
    have hpkt := (h.packet 0 hk 0 Nat.one_pos n hn).1
    obtain ⟨q, -, hunique⟩ := h.once 0 Nat.one_pos _ hpkt
    have heq := (hunique (0, n) ⟨hk, hn, rfl⟩).trans (hunique (0, n') ⟨hk, hn', hsame.symm⟩).symm
    exact congrArg Prod.snd heq
  all := by
    intro p hp
    obtain ⟨⟨i, n⟩, ⟨hi, hn, hpkt⟩, -⟩ := h.once 0 Nat.one_pos p hp
    by_cases hne : i = 0
    · subst hne
      exact ⟨n, hn, hpkt⟩
    · have hnone : n < cnts packetCnt ecK i := hn
      rw [hidle i hi hne] at hnone
      exact absurd hnone (Nat.not_lt_zero n)

end Single

/-! ## Without packets -/

section Empty

variable {ecK nj : Nat} {reply : Nat → Nat → Nat → Packet × Nat} {payload : Nat → Nat → Packet}
  {s s' : State Packet}

/-- Nothing is received or forwarded. -/
structure Idle (ecK nj : Nat) (s : State Packet) : Prop where
  receivers : ∀ i < ecK - 1, ∀ j < nj,
    s.cyclReceivers (i, j) = .get 0 ∨ s.cyclReceivers (i, j) = .done
  index : s.completePacketIndex = 0
  forwarder : s.forwarder = .forward 0 0 ∨ s.forwarder = .done
  forwarded : s.forwarded = []

theorem Idle.step (h : Idle ecK nj s) : Step 0 ecK nj reply s s' → Idle ecK nj s' := by
  intro hstep
  cases hstep with
  | @receiver i j hi hj hstep =>
      rcases h.receivers i hi j hj with hat | hat
      · simp only [cyclReceiverStep, hat, cnts, Nat.zero_div, Nat.zero_mod, Nat.not_lt_zero,
          if_false] at hstep
        cases hstep
        refine { h with receivers := ?_ }
        intro i' hi' j' hj'
        by_cases heq : (i', j') = (i, j)
        · exact .inr (by simp only [State.goto, heq, Function.update_self])
        · simp only [State.goto, Function.update_of_ne heq]
          exact h.receivers i' hi' j' hj'
      · simp [cyclReceiverStep, hat] at hstep
  | collector hstep =>
      unfold cyclCollectorStep at hstep
      split at hstep
      · cases hstep
        exact { h with index := rfl }
      · cases hstep
  | forwarder hstep =>
      rcases h.forwarder with hat | hat
      · simp only [pipeForwardWorkerStep, hat, Nat.not_lt_zero, if_false] at hstep
        cases hstep
        exact { h with forwarder := .inr rfl }
      · simp [pipeForwardWorkerStep, hat] at hstep

theorem idle_of_reachable : Reachable 0 ecK nj reply s → Idle ecK nj s := by
  intro hs
  induction hs with
  | refl =>
      exact ⟨fun _ _ _ _ => .inl rfl, rfl, .inl rfl, rfl⟩
  | tail _ hstep ih =>
      exact ih.step hstep

theorem collects_empty : Collects 0 ecK nj reply payload where
  stored := by
    intro s hs idx hidx
    rw [(idle_of_reachable hs).index] at hidx
    exact absurd hidx (Nat.not_lt_zero idx)
  forward := by
    intro s s' hs _
    rw [(idle_of_reachable hs).index]
    exact Nat.zero_le _
  joined := by
    intro s hs _
    rw [(idle_of_reachable hs).index, Nat.zero_mul]
  once := by
    intro s hs
    rw [(idle_of_reachable hs).forwarded]
    exact List.nil_prefix
  finishes := by
    intro s hs _
    have h := idle_of_reachable hs
    rcases h.forwarder with hat | hat
    · refine ⟨{ s with forwarder := .done }, .single (.forwarder ?_), rfl, h.forwarded⟩
      simp [pipeForwardWorkerStep, hat]
    · exact ⟨s, .refl, hat, h.forwarded⟩

end Empty

/-- The collection is right for all orders of steps only if one receiver gets everything. -/
theorem cyclCollector_collects_iff (packetCnt ecK nj : Nat) (payload : Nat → Nat → Packet) :
    2 ≤ ecK → 1 ≤ nj →
      ((∀ reply, Delivered packetCnt ecK nj reply payload →
          Collects packetCnt ecK nj reply payload) ↔
        packetCnt = 0 ∨ nj = 1 ∧ (ecK = 2 ∨ packetCnt = 1)) := by
  intro hk hnj
  have hpos : 0 < ecK - 1 := Nat.sub_pos_of_lt hk
  constructor
  · intro hall
    by_contra hnot
    obtain ⟨hne, hmore⟩ := not_or.1 hnot
    have hcollects := hall _ (delivered_inTurn hk nj payload)
    have hcnt₀ : 0 < cnts packetCnt ecK 0 :=
      (lt_cnts_iff 0 hpos).2 (Nat.pos_of_ne_zero hne)
    -- another receiver whose first packet has the second index
    obtain ⟨i, j, hi, hj, hdiff, hcnt, hother⟩ : ∃ i j, i < ecK - 1 ∧ j < nj ∧ (i, j) ≠ (0, 0) ∧
        0 < cnts packetCnt ecK i ∧ (inTurn ecK payload i j 0).2 * nj + j = 1 := by
      by_cases hone : nj = 1
      · subst hone
        have hwide : 1 < ecK - 1 ∧ 1 < packetCnt := by
          constructor
          · by_contra hle
            exact hmore ⟨rfl, .inl (by omega)⟩
          · by_contra hle
            exact hmore ⟨rfl, .inr (by omega)⟩
        exact ⟨1, 0, hwide.1, Nat.one_pos, by simp, (lt_cnts_iff 0 hwide.1).2 hwide.2, by
          simp [inTurn]⟩
      · exact ⟨0, 1, hpos, by omega, by simp, hcnt₀, by simp [inTurn]⟩
    obtain ⟨s, s', hs, hstep, hback⟩ := exists_back hi hj hdiff hcnt₀ hcnt rfl hother
    exact Nat.not_le_of_lt hback (hcollects.forward s s' hs hstep)
  · rintro (rfl | ⟨rfl, hsmall⟩) reply hdelivered
    · exact collects_empty
    · refine collects_single hpos (hdelivered.single hpos ?_)
      intro i hi hne
      refine Nat.le_zero.1 (Nat.le_of_not_lt fun hcnt => ?_)
      have hlt := (lt_cnts_iff 0 hi).1 hcnt
      rcases hsmall with rfl | rfl
      · exact hne (Nat.lt_one_iff.1 hi)
      · exact hne (by omega)

/-- One packet of one block, from two helpers of which the second has nothing to send. -/
theorem cyclCollector_collects_iff_one :
    (∀ reply, Delivered 1 3 1 reply (fun p _ => p) → Collects 1 3 1 reply fun p _ => p) ↔
      1 = 0 ∨ 1 = 1 ∧ (3 = 2 ∨ 1 = 1) :=
  cyclCollector_collects_iff 1 3 1 (fun p _ => p) (by decide) (by decide)

/-- Two packets of one block, one from each of two helpers. -/
theorem completePacketIndex_back :
    Delivered 2 3 1 (inTurn 3 fun p _ => p) (fun p _ => p) ∧
      ∃ s s', Reachable 2 3 1 (inTurn 3 fun p _ => p) s ∧
        Step 2 3 1 (inTurn 3 fun p _ => p) s s' ∧
        s'.completePacketIndex < s.completePacketIndex :=
  ⟨delivered_inTurn (by decide) 1 _, exists_back (i := 1) (j := 0) (by decide) (by decide)
    (by decide) (by decide) (by decide) rfl rfl⟩

end CyclClient

end CoRD
