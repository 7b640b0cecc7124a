import CoRD.Network.RelayBound
import CoRD.Repair.ECPipeInputStream

/-!
# ClientFile — the client of one lost block

With one lost block the client asks one list for all its packets, and writes the answers to a file
in the order in which they come.  It takes a bounded number of steps, and it waits for nothing but
the next packet of that list.
-/

namespace CoRD

namespace Client

open Lists (Event)

variable {Cmd : Type}

/-! ## Positions of the threads -/

section Positions

variable (packetCnt : Nat)

/-- How many packets the collector has asked for. -/
def Collector.asked : Collector → Nat
  | .append i j => i + j
  | .get _ _ => packetCnt
  | .done => packetCnt

/-- How many answers it has taken. -/
def Collector.taken : Collector → Nat
  | .append _ _ => 0
  | .get i j => i + j
  | .done => packetCnt

/-- How many packets the forwarder has written. -/
def Forwarder.written : Forwarder → Nat
  | .forward i j => i + j
  | .done => packetCnt

/-- With one file, the counters are in their loops. -/
def InLoop (i j : Nat) : Prop :=
  i + j ≤ packetCnt ∧ j ≤ 1

def Collector.InLoop : Collector → Prop
  | .append i j => Client.InLoop packetCnt i j
  | .get i j => Client.InLoop packetCnt i j
  | .done => True

def Forwarder.InLoop : Forwarder → Prop
  | .forward i j => Client.InLoop packetCnt i j
  | .done => True

end Positions

/-- The client of the file `name`, which it fetches from `ip`: what it has asked for, got and
written. -/
structure Fetching (conf : PacketConfig) (ip : Nat) (name : Str)
    (es : List (Event Nat ListKey (ListMsg Cmd))) (s : State Cmd) : Prop where
  collectorLoop : s.collector.InLoop conf.packetCnt
  forwarderLoop : s.forwarder.InLoop conf.packetCnt
  asked : (Lists.popped ip (.blk name) es).length + (s.pending ip).length =
    s.collector.asked conf.packetCnt
  replies : (Lists.popped ip (.blk name) es).drop (s.collector.taken conf.packetCnt) = s.replies ip
  taken_le : s.collector.taken conf.packetCnt ≤ (Lists.popped ip (.blk name) es).length
  complete : s.completePacketIndex = s.collector.taken conf.packetCnt
  contents : ∀ i < s.collector.taken conf.packetCnt,
    (Lists.popped ip (.blk name) es)[i]? = some (s.contents i 0)
  processed : s.processedPacket = s.forwarder.written conf.packetCnt
  written_le : s.forwarder.written conf.packetCnt ≤ s.collector.taken conf.packetCnt
  file : s.file = (Lists.popped ip (.blk name) es).take (s.forwarder.written conf.packetCnt)

section Steps

variable {conf : PacketConfig} {locIP ip : Nat} {name : Str}
  {es : List (Event Nat ListKey (ListMsg Cmd))} {s s' : State Cmd}

theorem Fetching.init : Fetching conf ip name ([] : List (Event Nat ListKey (ListMsg Cmd)))
    State.init where
  collectorLoop := ⟨Nat.zero_le _, Nat.zero_le _⟩
  forwarderLoop := ⟨Nat.zero_le _, Nat.zero_le _⟩
  asked := rfl
  replies := rfl
  taken_le := Nat.zero_le _
  complete := rfl
  contents := fun i hi => absurd hi (Nat.not_lt_zero i)
  processed := rfl
  written_le := Nat.zero_le _
  file := rfl

/-- The one file has the number 0. -/
theorem getElem?_single {α : Type} (a : α) (j : Nat) : [a][j]? = if j = 0 then some a else none := by
  cases j <;> rfl

theorem Fetching.collectorStep (h : Fetching conf ip name es s) :
    Client.collectorStep conf [(ip, name)] s = some s' → Fetching conf ip name es s' := by
  intro hstep
  have hloop := h.collectorLoop
  have hasked := h.asked
  have hreplies := h.replies
  have htaken := h.taken_le
  have hcomplete := h.complete
  have hcontents := h.contents
  have hwritten := h.written_le
  unfold Client.collectorStep at hstep
  cases hcollector : s.collector with
  | append i j =>
      simp only [hcollector, getElem?_single] at hstep
      rw [hcollector] at hloop hasked hreplies htaken hcomplete hcontents hwritten
      simp only [Collector.asked, Collector.InLoop, InLoop] at hloop hasked
      by_cases hi : i < conf.packetCnt
      · -- there is one file, so the inner loop has one turn and ends
        by_cases hj : j = 0
        · simp only [if_pos hi, if_pos hj, Option.some.injEq] at hstep
          subst hj hstep
          refine { h with
            collectorLoop := ⟨hi, Nat.le_refl _⟩
            asked := ?_
            replies := hreplies
            taken_le := htaken
            complete := hcomplete
            contents := hcontents
            written_le := hwritten }
          simp only [Function.update_self, List.length_append, List.length_singleton,
            Collector.asked]
          omega
        · simp only [if_pos hi, if_neg hj, Option.some.injEq] at hstep
          subst hstep
          refine { h with
            collectorLoop := ⟨hi, Nat.zero_le _⟩
            asked := ?_
            replies := hreplies
            taken_le := htaken
            complete := hcomplete
            contents := hcontents
            written_le := hwritten }
          simp only [Collector.asked]
          omega
      · simp only [if_neg hi, Option.some.injEq] at hstep
        subst hstep
        refine { h with
          collectorLoop := ⟨Nat.zero_le _, Nat.zero_le _⟩
          asked := ?_
          replies := hreplies
          taken_le := htaken
          complete := hcomplete
          contents := hcontents
          written_le := hwritten }
        simp only [Collector.asked]
        omega
  | get i j =>
      simp only [hcollector, getElem?_single] at hstep
      rw [hcollector] at hloop hasked hreplies htaken hcomplete hcontents hwritten
      simp only [Collector.asked, Collector.InLoop, InLoop] at hloop hasked
      simp only [Collector.taken] at hreplies htaken hcomplete hcontents hwritten
      by_cases hi : i < conf.packetCnt
      · by_cases hj : j = 0
        · simp only [if_pos hi, if_pos hj] at hstep
          subst hj
          cases hr : s.replies ip with
          | nil => simp [hr] at hstep
          | cons m ms =>
              simp only [hr, Option.some.injEq] at hstep
              subst hstep
              rw [hr, Nat.add_zero] at hreplies
              -- the answer is the next one of the list
              have hlt : i < (Lists.popped ip (.blk name) es).length := by
                by_contra hnot
                rw [List.drop_eq_nil_of_le (Nat.le_of_not_lt hnot)] at hreplies
                cases hreplies
              have hsplit := List.drop_eq_getElem_cons hlt
              rw [hreplies] at hsplit
              obtain ⟨hm, hms⟩ := List.cons.inj hsplit
              refine { h with
                collectorLoop := ⟨hi, Nat.le_refl _⟩
                asked := hasked
                replies := ?_
                taken_le := hlt
                complete := ?_
                contents := ?_
                written_le := Nat.le_succ_of_le hwritten }
              · simp only [Function.update_self]
                exact hms.symm
              · show s.completePacketIndex + 1 = _
                rw [hcomplete]
                rfl
              · intro i' hi'
                have hle : i' < i + 1 := hi'
                show _ = some (Function.update s.contents i
                  (Function.update (s.contents i) 0 m) i' 0)
                by_cases heq : i' = i
                · subst heq
                  rw [Function.update_self, Function.update_self, hm]
                  exact List.getElem?_eq_getElem hlt
                · rw [Function.update_of_ne heq]
                  exact hcontents i' (by omega)
        · simp only [if_pos hi, if_neg hj, Option.some.injEq] at hstep
          have hone : j = 1 := by omega
          subst hone hstep
          exact { h with
            collectorLoop := ⟨hi, Nat.zero_le _⟩
            asked := hasked
            replies := hreplies
            taken_le := htaken
            complete := hcomplete
            contents := hcontents
            written_le := hwritten }
      · simp only [if_neg hi, Option.some.injEq] at hstep
        have hend : i + j = conf.packetCnt := by omega
        rw [hend] at hreplies htaken hcomplete hcontents hwritten
        subst hstep
        exact { h with
          collectorLoop := trivial
          asked := hasked
          replies := hreplies
          taken_le := htaken
          complete := hcomplete
          contents := hcontents
          written_le := hwritten }
  | done =>
      simp only [hcollector] at hstep
      cases hstep

theorem Fetching.forwarderStep {e : Event Nat ListKey (ListMsg Cmd)}
    (h : Fetching conf ip name es s) :
    Client.forwarderStep conf locIP [(ip, name)] s = some (e, s') →
      e = .internal ∧ Fetching conf ip name es s' := by
  intro hstep
  have hloop := h.forwarderLoop
  have hprocessed := h.processed
  have hwritten := h.written_le
  have hfile := h.file
  unfold Client.forwarderStep at hstep
  cases hforwarder : s.forwarder with
  | forward i j =>
      simp only [hforwarder, getElem?_single] at hstep
      rw [hforwarder] at hloop hprocessed hwritten hfile
      simp only [Forwarder.written, Forwarder.InLoop, InLoop] at hloop hprocessed hwritten hfile
      by_cases hi : i < conf.packetCnt
      · by_cases hj : j = 0
        · simp only [if_pos hi, if_pos hj] at hstep
          subst hj
          -- the forwarder waits until the collector has counted the packet
          by_cases hready : s.processedPacket < s.completePacketIndex
          · simp only [if_pos hready, Option.some.injEq, Prod.mk.injEq] at hstep
            obtain ⟨rfl, rfl⟩ := hstep
            have hlt : i < s.collector.taken conf.packetCnt := by
              have hcomplete := h.complete
              omega
            refine ⟨rfl, { h with
              forwarderLoop := ⟨hi, Nat.le_refl _⟩
              processed := ?_
              written_le := hlt
              file := ?_ }⟩
            · show s.processedPacket + 1 = _
              rw [hprocessed]
              rfl
            · show s.file ++ [s.contents i 0] = _
              rw [hfile, Nat.add_zero]
              simp only [Forwarder.written]
              rw [List.take_add_one, h.contents i hlt]
              rfl
          · simp only [if_neg hready] at hstep
            cases hstep
        · simp only [if_pos hi, if_neg hj, Option.some.injEq, Prod.mk.injEq] at hstep
          have hone : j = 1 := by omega
          obtain ⟨rfl, rfl⟩ := hstep
          subst hone
          exact ⟨rfl, { h with
            forwarderLoop := ⟨hi, Nat.zero_le _⟩
            processed := hprocessed
            written_le := hwritten
            file := hfile }⟩
      · simp only [if_neg hi, Option.some.injEq, Prod.mk.injEq] at hstep
        have hend : i + j = conf.packetCnt := by omega
        rw [hend] at hprocessed hwritten hfile
        obtain ⟨rfl, rfl⟩ := hstep
        exact ⟨rfl, { h with
          forwarderLoop := trivial
          processed := hprocessed
          written_le := hwritten
          file := hfile }⟩
  | done =>
      simp only [hforwarder] at hstep
      cases hstep

/-- A message popped from the list is an answer. -/
theorem Fetching.answer {k : ListKey} {ks : List ListKey} {m : ListMsg Cmd}
    (h : Fetching conf ip name es s) (hpending : s.pending ip = k :: ks) (hk : k = .blk name) :
    Fetching conf ip name (es ++ [.pop ip k m]) { s with
      pending := Function.update s.pending ip ks
      replies := Function.update s.replies ip (s.replies ip ++ [m]) } := by
  subst hk
  have hpopped : Lists.popped ip (.blk name) (es ++ [.pop ip (.blk name) m]) =
      Lists.popped ip (.blk name) es ++ [m] := by
    rw [Lists.popped_append, Lists.popped_pop_self]
  have hasked := h.asked
  have htaken := h.taken_le
  refine { h with asked := ?_, replies := ?_, taken_le := ?_, contents := ?_, file := ?_ }
  · rw [hpending, List.length_cons] at hasked
    simp only [hpopped, Function.update_self, List.length_append, List.length_singleton]
    omega
  · rw [hpopped, List.drop_append_of_le_length htaken, h.replies]
    simp only [Function.update_self]
  · rw [hpopped, List.length_append]
    exact Nat.le_add_right_of_le htaken
  · intro i hi
    rw [hpopped, List.getElem?_append_left (Nat.lt_of_lt_of_le hi htaken)]
    exact h.contents i hi
  · rw [hpopped, List.take_append_of_le_length (Nat.le_trans h.written_le htaken)]
    exact h.file

theorem fetching_of_runs :
    Lists.LocalRuns (Step conf locIP [(ip, name)]) State.init es s →
      Asks [(ip, name)] s ∧ Fetching conf ip name es s := by
  intro hruns
  induction hruns with
  | refl =>
      exact ⟨fun ip k hk => absurd hk List.not_mem_nil, .init⟩
  | @snoc s s' es e _ hstep ih =>
      obtain ⟨hasks, h⟩ := ih
      have hinternal : Fetching conf ip name es s' →
          Fetching conf ip name (es ++ [.internal]) s' := by
        have hsame : Lists.popped ip (.blk name) (es ++ [.internal]) =
            Lists.popped ip (.blk name) es := by
          rw [Lists.popped_append]
          exact List.append_nil _
        intro h'
        refine { h' with asked := ?_, replies := ?_, taken_le := ?_, contents := ?_, file := ?_ } <;>
          rw [hsame]
        exacts [h'.asked, h'.replies, h'.taken_le, h'.contents, h'.file]
      cases hstep with
      | collector hs => exact ⟨hasks.collectorStep hs, hinternal (h.collectorStep hs)⟩
      | forwarder hs =>
          obtain ⟨rfl, h'⟩ := h.forwarderStep hs
          exact ⟨(hasks.forwarderStep hs).1, hinternal h'⟩
      | @serve ip' k ks m hpending =>
          obtain ⟨name', hmem, hk⟩ := hasks ip' k (by rw [hpending]; exact List.mem_cons_self)
          cases List.mem_singleton.1 hmem
          refine ⟨fun ip'' k' hk' => ?_, h.answer hpending hk⟩
          by_cases hip : ip'' = ip
          · subst hip
            simp only [Function.update_self] at hk'
            exact hasks ip'' k' (by rw [hpending]; exact List.mem_cons_of_mem k hk')
          · simp only [Function.update_of_ne hip] at hk'
            exact hasks ip'' k' hk'

end Steps

/-! ## Until the file is written -/

section Progress

variable {conf : PacketConfig} {locIP ip : Nat} {name : Str}
  {es : List (Event Nat ListKey (ListMsg Cmd))} {s s' : State Cmd}

/-- The client has written the packets that it has popped, all of them. -/
structure Done (conf : PacketConfig) (ip : Nat) (name : Str)
    (es : List (Event Nat ListKey (ListMsg Cmd))) (s : State Cmd) : Prop where
  collector : s.collector = .done
  forwarder : s.forwarder = .done
  popped : (Lists.popped ip (.blk name) es).length = conf.packetCnt
  file : s.file = Lists.popped ip (.blk name) es

theorem Fetching.popped_length_le (h : Fetching conf ip name es s) :
    (Lists.popped ip (.blk name) es).length ≤ conf.packetCnt := by
  have hasked := h.asked
  have hloop := h.collectorLoop
  have hle : s.collector.asked conf.packetCnt ≤ conf.packetCnt := by
    cases hcollector : s.collector with
    | append i j =>
        rw [hcollector] at hloop
        exact hloop.1
    | get i j => exact Nat.le_refl _
    | done => exact Nat.le_refl _
  omega

/-- A collector that cannot go on has ended, or waits for an answer. -/
theorem Fetching.collector_stuck (h : Fetching conf ip name es s)
    (hstuck : ∀ s', Client.collectorStep conf [(ip, name)] s ≠ some s') :
    s.collector = .done ∨
      ∃ i, s.collector = .get i 0 ∧ i < conf.packetCnt ∧ s.replies ip = [] := by
  have hloop := h.collectorLoop
  unfold Client.collectorStep at hstuck
  cases hcollector : s.collector with
  | append i j =>
      exfalso
      simp only [hcollector, getElem?_single] at hstuck
      by_cases hi : i < conf.packetCnt
      · by_cases hj : j = 0
        · simp only [if_pos hi, if_pos hj] at hstuck
          exact hstuck _ rfl
        · simp only [if_pos hi, if_neg hj] at hstuck
          exact hstuck _ rfl
      · simp only [if_neg hi] at hstuck
        exact hstuck _ rfl
  | get i j =>
      simp only [hcollector, getElem?_single] at hstuck
      by_cases hi : i < conf.packetCnt
      · by_cases hj : j = 0
        · simp only [if_pos hi, if_pos hj] at hstuck
          cases hreplies : s.replies ip with
          | nil =>
              subst hj
              exact Or.inr ⟨i, rfl, hi, rfl⟩
          | cons m ms =>
              simp only [hreplies] at hstuck
              exact absurd rfl (hstuck _)
        · simp only [if_pos hi, if_neg hj] at hstuck
          exact absurd rfl (hstuck _)
      · simp only [if_neg hi] at hstuck
        exact absurd rfl (hstuck _)
  | done => exact Or.inl rfl

/-- Once everything has been collected, the forwarder waits for nothing. -/
theorem Fetching.forwarder_stuck (h : Fetching conf ip name es s) (hdone : s.collector = .done)
    (hstuck : ∀ e s', Client.forwarderStep conf locIP [(ip, name)] s ≠ some (e, s')) :
    s.forwarder = .done := by
  have hprocessed := h.processed
  have hcomplete := h.complete
  rw [hdone] at hcomplete
  unfold Client.forwarderStep at hstuck
  cases hforwarder : s.forwarder with
  | forward i j =>
      exfalso
      simp only [hforwarder, getElem?_single] at hstuck
      rw [hforwarder] at hprocessed
      by_cases hi : i < conf.packetCnt
      · by_cases hj : j = 0
        · have hready : s.processedPacket < s.completePacketIndex := by
            rw [hprocessed, hcomplete]
            simp only [Forwarder.written, Collector.taken]
            omega
          simp only [if_pos hi, if_pos hj, if_pos hready] at hstuck
          exact hstuck _ _ rfl
        · simp only [if_pos hi, if_neg hj] at hstuck
          exact hstuck _ _ rfl
      · simp only [if_neg hi] at hstuck
        exact hstuck _ _ rfl
  | done => rfl

/-- A client that can only wait has written the file, or waits for the next packet. -/
theorem done_or_waits (hruns : Lists.LocalRuns (Step conf locIP [(ip, name)]) State.init es s)
    (hstuck : ∀ e s', (∀ h k m, e ≠ .pop h k m) → ¬ Step conf locIP [(ip, name)] s e s') :
    Done conf ip name es s ∨ (Lists.popped ip (.blk name) es).length < conf.packetCnt ∧
      ∀ m, ∃ s', Step conf locIP [(ip, name)] s (.pop ip (.blk name) m) s' := by
  obtain ⟨hasks, h⟩ := fetching_of_runs hruns
  have hasked := h.asked
  have htaken := h.taken_le
  rcases h.collector_stuck fun s' hs => hstuck .internal s' (fun _ _ _ => nofun) (.collector hs) with
    hdone | ⟨i, hget, hi, hreplies⟩
  · have hforwarder := h.forwarder_stuck hdone fun e s' hs =>
      hstuck e s' (fun _ _ _ heq => by
        have hinternal := (h.forwarderStep hs).1
        rw [hinternal] at heq
        cases heq) (.forwarder hs)
    rw [hdone] at hasked htaken
    have hlength : (Lists.popped ip (.blk name) es).length = conf.packetCnt :=
      Nat.le_antisymm h.popped_length_le htaken
    refine Or.inl ⟨hdone, hforwarder, hlength, ?_⟩
    rw [h.file, hforwarder]
    exact List.take_of_length_le (Nat.le_of_eq hlength)
  · -- everything that has been answered has been taken
    have hall := h.replies
    rw [hget] at hasked htaken hall
    rw [hreplies, List.drop_eq_nil_iff] at hall
    have hlength : (Lists.popped ip (.blk name) es).length = i := Nat.le_antisymm hall htaken
    refine Or.inr ⟨hlength ▸ hi, fun m => ?_⟩
    cases hpending : s.pending ip with
    | nil =>
        rw [hpending, hlength] at hasked
        exact absurd hasked (Nat.ne_of_lt hi)
    | cons k ks =>
        obtain ⟨name', hmem, hk⟩ := hasks ip k (by rw [hpending]; exact List.mem_cons_self)
        cases List.mem_singleton.1 hmem
        subst hk
        exact ⟨_, .serve hpending⟩

/-! ## How long it takes -/

def Collector.left (packetCnt : Nat) : Collector → Nat
  | .append i j => Relay.loopLeft packetCnt 1 i j + 1 + (Relay.loopLeft packetCnt 1 0 0 + 1)
  | .get i j => Relay.loopLeft packetCnt 1 i j + 1
  | .done => 0

def Forwarder.left (packetCnt : Nat) : Forwarder → Nat
  | .forward i j => Relay.loopLeft packetCnt 1 i j + 1
  | .done => 0

/-- The steps left to the two threads. -/
def State.left (packetCnt : Nat) (s : State Cmd) : Nat :=
  s.collector.left packetCnt + s.forwarder.left packetCnt

theorem collectorStep_left : Client.collectorStep conf [(ip, name)] s = some s' →
    s'.collector.left conf.packetCnt < s.collector.left conf.packetCnt ∧
      s'.forwarder = s.forwarder := by
  intro hstep
  unfold Client.collectorStep at hstep
  cases hcollector : s.collector with
  | append i j =>
      simp only [hcollector, getElem?_single] at hstep
      by_cases hi : i < conf.packetCnt
      · by_cases hj : j = 0
        · simp only [if_pos hi, if_pos hj, Option.some.injEq] at hstep
          subst hstep
          -- a turn of the inner loop
          have hcell := Relay.loopLeft_cell 1 j hi (by omega)
          refine ⟨?_, rfl⟩
          simp only [Collector.left]
          omega
        · simp only [if_pos hi, if_neg hj, Option.some.injEq] at hstep
          subst hstep
          have hpacket := Relay.loopLeft_packet 1 j hi
          refine ⟨?_, rfl⟩
          simp only [Collector.left]
          omega
      · simp only [if_neg hi, Option.some.injEq] at hstep
        subst hstep
        refine ⟨?_, rfl⟩
        simp only [Collector.left]
        omega
  | get i j =>
      simp only [hcollector, getElem?_single] at hstep
      by_cases hi : i < conf.packetCnt
      · by_cases hj : j = 0
        · simp only [if_pos hi, if_pos hj] at hstep
          cases hreplies : s.replies ip with
          | nil => simp [hreplies] at hstep
          | cons m ms =>
              simp only [hreplies, Option.some.injEq] at hstep
              subst hstep
              have hcell := Relay.loopLeft_cell 1 j hi (by omega)
              refine ⟨?_, rfl⟩
              simp only [Collector.left]
              omega
        · simp only [if_pos hi, if_neg hj, Option.some.injEq] at hstep
          subst hstep
          have hpacket := Relay.loopLeft_packet 1 j hi
          refine ⟨?_, rfl⟩
          simp only [Collector.left]
          omega
      · simp only [if_neg hi, Option.some.injEq] at hstep
        subst hstep
        exact ⟨Nat.succ_pos _, rfl⟩
  | done =>
      simp only [hcollector] at hstep
      cases hstep

theorem forwarderStep_left {e : Event Nat ListKey (ListMsg Cmd)} :
    Client.forwarderStep conf locIP [(ip, name)] s = some (e, s') →
      s'.forwarder.left conf.packetCnt < s.forwarder.left conf.packetCnt ∧
        s'.collector = s.collector := by
  intro hstep
  unfold Client.forwarderStep at hstep
  cases hforwarder : s.forwarder with
  | forward i j =>
      simp only [hforwarder, getElem?_single] at hstep
      by_cases hi : i < conf.packetCnt
      · by_cases hj : j = 0
        · have hcell := Relay.loopLeft_cell 1 j hi (by omega)
          simp only [if_pos hi, if_pos hj] at hstep
          by_cases hready : s.processedPacket < s.completePacketIndex
          · simp only [if_pos hready, Option.some.injEq, Prod.mk.injEq] at hstep
            obtain ⟨-, rfl⟩ := hstep
            refine ⟨?_, rfl⟩
            simp only [Forwarder.left]
            omega
          · simp only [if_neg hready] at hstep
            cases hstep
        · have hpacket := Relay.loopLeft_packet 1 j hi
          simp only [if_pos hi, if_neg hj, Option.some.injEq, Prod.mk.injEq] at hstep
          obtain ⟨-, rfl⟩ := hstep
          refine ⟨?_, rfl⟩
          simp only [Forwarder.left]
          omega
      · simp only [if_neg hi, Option.some.injEq, Prod.mk.injEq] at hstep
        obtain ⟨-, rfl⟩ := hstep
        exact ⟨Nat.succ_pos _, rfl⟩
  | done =>
      simp only [hforwarder] at hstep
      cases hstep

theorem runs_left : Lists.LocalRuns (Step conf locIP [(ip, name)]) State.init es s →
    es.length + s.left conf.packetCnt ≤
      (State.init : State Cmd).left conf.packetCnt + (Lists.popped ip (.blk name) es).length := by
  intro hruns
  induction hruns with
  | refl => exact Nat.le_of_eq (Nat.zero_add _)
  | @snoc s s' es e hrest hstep ih =>
      rw [List.length_append, List.length_singleton, Lists.popped_append, List.length_append]
      unfold State.left at ih ⊢
      cases hstep with
      | collector hs =>
          obtain ⟨hlt, hforwarder⟩ := collectorStep_left hs
          rw [hforwarder]
          omega
      | forwarder hs =>
          obtain ⟨hlt, hcollector⟩ := forwarderStep_left hs
          rw [hcollector]
          omega
      | @serve ip' k ks m hpending =>
          obtain ⟨name', hmem, rfl⟩ := (fetching_of_runs hrest).1 ip' k (by
            rw [hpending]
            exact List.mem_cons_self)
          cases List.mem_singleton.1 hmem
          rw [Lists.popped_pop_self, List.length_singleton]
          show es.length + 1 + (s.collector.left conf.packetCnt + s.forwarder.left conf.packetCnt) ≤ _
          omega

/-- The client ends. -/
theorem length_le (hruns : Lists.LocalRuns (Step conf locIP [(ip, name)]) State.init es s) :
    es.length ≤ (State.init : State Cmd).left conf.packetCnt + conf.packetCnt := by
  have hleft := runs_left hruns
  have hpopped := (fetching_of_runs hruns).2.popped_length_le
  omega

end Progress

end Client

end CoRD
