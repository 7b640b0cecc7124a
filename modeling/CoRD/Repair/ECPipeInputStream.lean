import CoRD.Repair.DRWorker

/-!
# ECPipeInputStream — the client of a repair

The client knows from the reply where each lost block is to be fetched.  `pipeCollector` asks for
all packets of all blocks first and then takes the answers in the same order; `pipeForwardWorker`
writes the packets of the first block to a file and pushes those of the others to the client's own
host, for the nodes that lost them.
-/

namespace CoRD

open Lists (Event)

namespace Client

variable {Cmd : Type}

inductive Collector where
  | append (i j : Nat)
  | get (i j : Nat)
  | done

inductive Forwarder where
  | forward (i j : Nat)
  | done

/-- The members that the two threads share, and where the threads are. -/
structure State (Cmd : Type) where
  contents : Nat → Nat → ListMsg Cmd
  completePacketIndex : Nat
  processedPacket : Nat
  file : List (ListMsg Cmd)
  pending : Nat → List ListKey
  replies : Nat → List (ListMsg Cmd)
  collector : Collector
  forwarder : Forwarder

/-- The client after the reply. -/
def State.init : State Cmd where
  contents := fun _ _ => .packet []
  completePacketIndex := 0
  processedPacket := 0
  file := []
  pending := fun _ => []
  replies := fun _ => []
  collector := .append 0 0
  forwarder := .forward 0 0

section Step

variable (conf : PacketConfig) (locIP : Nat) (lostFiles : List (Nat × Str))

/-- One step of `pipeCollector`; each lost file has the node it is fetched from. -/
def collectorStep (s : State Cmd) : Option (State Cmd) :=
  match s.collector with
  | .append i j =>
      if i < conf.packetCnt then
        match lostFiles[j]? with
        | some (ip, name) =>
            some { s with
              pending := Function.update s.pending ip (s.pending ip ++ [.blk name])
              collector := .append i (j + 1) }
        | none => some { s with collector := .append (i + 1) 0 }
      else some { s with collector := .get 0 0 }
  | .get i j =>
      if i < conf.packetCnt then
        match lostFiles[j]? with
        | some (ip, _) =>
            match s.replies ip with
            -- `redisGetReply` waits
            | [] => none
            | m :: ms =>
                some { s with
                  replies := Function.update s.replies ip ms
                  contents := Function.update s.contents i (Function.update (s.contents i) j m)
                  completePacketIndex := s.completePacketIndex + 1
                  collector := .get i (j + 1) }
        | none => some { s with collector := .get (i + 1) 0 }
      else some { s with collector := .done }
  | .done => none

/-- One step of `pipeForwardWorker`. -/
def forwarderStep (s : State Cmd) : Option (Event Nat ListKey (ListMsg Cmd) × State Cmd) :=
  match s.forwarder with
  | .forward i j =>
      if i < conf.packetCnt then
        match lostFiles[j]? with
        | some (_, name) =>
            if s.processedPacket < s.completePacketIndex then
              -- the first lost file is written here, the others go to the passive receivers
              if j = 0 then
                some (.internal, { s with
                  file := s.file ++ [s.contents i 0]
                  processedPacket := s.processedPacket + 1
                  forwarder := .forward i (j + 1) })
              else
                some (.push locIP (.blk name) (s.contents i j), { s with
                  processedPacket := s.processedPacket + 1
                  forwarder := .forward i (j + 1) })
            else none
        | none => some (.internal, { s with forwarder := .forward (i + 1) 0 })
      else some (.internal, { s with forwarder := .done })
  | .done => none

/-- One step of the client among others. -/
inductive Step (s : State Cmd) : Event Nat ListKey (ListMsg Cmd) → State Cmd → Prop where
  | collector {s' : State Cmd} (h : collectorStep conf lostFiles s = some s') : Step s .internal s'
  | forwarder {e : Event Nat ListKey (ListMsg Cmd)} {s' : State Cmd}
      (h : forwarderStep conf locIP lostFiles s = some (e, s')) : Step s e s'
  | serve {ip : Nat} {k : ListKey} {ks : List ListKey} {m : ListMsg Cmd}
      (h : s.pending ip = k :: ks) :
      Step s (.pop ip k m) { s with
        pending := Function.update s.pending ip ks
        replies := Function.update s.replies ip (s.replies ip ++ [m]) }

end Step

/-! ## Where the client pops and pushes -/

section Lists

variable {conf : PacketConfig} {locIP : Nat} {lostFiles : List (Nat × Str)}
  {es : List (Event Nat ListKey (ListMsg Cmd))} {s : State Cmd}

/-- Every request names a lost file, at the node it is fetched from. -/
def Asks (lostFiles : List (Nat × Str)) (s : State Cmd) : Prop :=
  ∀ ip, ∀ k ∈ s.pending ip, ∃ name, (ip, name) ∈ lostFiles ∧ k = .blk name

/-- The client pops what it fetches, and forwards all files but the first. -/
def Uses (locIP : Nat) (lostFiles : List (Nat × Str)) : Event Nat ListKey (ListMsg Cmd) → Prop
  | .internal => True
  | .pop h k _ => ∃ name, (h, name) ∈ lostFiles ∧ k = .blk name
  | .push h k _ => h = locIP ∧ ∃ j ip name, lostFiles[j + 1]? = some (ip, name) ∧ k = .blk name

theorem Asks.collectorStep {s' : State Cmd} (h : Asks lostFiles s) :
    Client.collectorStep conf lostFiles s = some s' → Asks lostFiles s' := by
  intro hstep
  unfold Client.collectorStep at hstep
  split at hstep
  · rename_i i j hcollector
    split at hstep
    · cases hfile : lostFiles[j]? with
      | none =>
          rw [hfile] at hstep
          cases hstep
          exact h
      | some q =>
          rw [hfile] at hstep
          cases hstep
          intro ip k hk
          by_cases hip : ip = q.1
          · subst hip
            simp only [Function.update_self, List.mem_append, List.mem_singleton] at hk
            rcases hk with hold | rfl
            · exact h _ k hold
            · exact ⟨q.2, List.mem_of_getElem? hfile, rfl⟩
          · simp only [Function.update_of_ne hip] at hk
            exact h ip k hk
    · cases hstep
      exact h
  · rename_i i j hcollector
    split at hstep
    · cases hfile : lostFiles[j]? with
      | none =>
          rw [hfile] at hstep
          cases hstep
          exact h
      | some q =>
          rw [hfile] at hstep
          simp only at hstep
          split at hstep
          · cases hstep
          · cases hstep
            exact h
    · cases hstep
      exact h
  · cases hstep

theorem Asks.forwarderStep {e : Event Nat ListKey (ListMsg Cmd)} {s' : State Cmd}
    (h : Asks lostFiles s) :
    Client.forwarderStep conf locIP lostFiles s = some (e, s') →
      Asks lostFiles s' ∧ Uses locIP lostFiles e := by
  intro hstep
  unfold Client.forwarderStep at hstep
  split at hstep
  · rename_i i j hforwarder
    split at hstep
    · cases hfile : lostFiles[j]? with
      | none =>
          rw [hfile] at hstep
          cases hstep
          exact ⟨h, trivial⟩
      | some q =>
          rw [hfile] at hstep
          simp only at hstep
          split at hstep
          · split at hstep
            · cases hstep
              exact ⟨h, trivial⟩
            · rename_i hj
              cases hstep
              obtain ⟨j', rfl⟩ := Nat.exists_eq_succ_of_ne_zero hj
              exact ⟨h, rfl, j', q.1, q.2, hfile, rfl⟩
          · cases hstep
    · cases hstep
      exact ⟨h, trivial⟩
  · cases hstep

theorem uses_of_runs :
    Lists.LocalRuns (Step conf locIP lostFiles) State.init es s →
      ∀ e ∈ es, Uses locIP lostFiles e := by
  intro hruns
  refine (hruns.invariant (P := Asks lostFiles) (Q := Uses locIP lostFiles) ?_ ?_).2
  · intro ip k hk
    exact absurd hk List.not_mem_nil
  · intro s e s' hasks hstep
    cases hstep with
    | collector h => exact ⟨hasks.collectorStep h, trivial⟩
    | forwarder h => exact hasks.forwarderStep h
    | @serve ip k ks m h =>
        refine ⟨?_, hasks ip k (by rw [h]; exact List.mem_cons_self)⟩
        intro ip' k' hk'
        by_cases hip : ip' = ip
        · subst hip
          simp only [Function.update_self] at hk'
          exact hasks ip' k' (by rw [h]; exact List.mem_cons_of_mem k hk')
        · simp only [Function.update_of_ne hip] at hk'
          exact hasks ip' k' hk'

end Lists

end Client

end CoRD
