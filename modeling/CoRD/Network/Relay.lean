import Mathlib.Data.List.Forall2
import CoRD.Network.Lists

/-!
# Relay — a reader, a puller and a sender over shared packets

A relay works through the packets of a file for several jobs at once; a *cell* is a packet and a
job.  Three threads share its memory.  The reader fills packet after packet and flags each.  The
puller first asks for the messages of all cells, then waits packet by packet for the flag and adds
to each cell the message it has got for it; a job without a source gets none.  The sender pushes
the cells that the puller has counted as ready.

Asking and getting are apart: requests stand in a queue for each host, a host answers them in
order, each from the list it names, and the answers come back in order.

What a cell is pushed as is its own value, or that plus the message got for it, if all flags are
down at the start.
-/

namespace Relay

open Lists (Event)

variable {Pk Host Key Msg : Type} [DecidableEq Host]

/-- The loops of a relay: what the reader does to a packet, where the messages of a job come from
and go to, how a message is added to a cell and how a cell is sent.  The logs may stop a thread. -/
structure Spec (Pk Host Key Msg : Type) where
  packetCnt : Nat
  jobCnt : Nat
  fill : Nat → List (Pk → Option Pk)
  src : Nat → Option (Host × Key)
  dst : Nat → Host × Key
  add : Nat → Msg → Pk → Pk
  load : Nat → Pk → Msg
  readLog : Nat → Bool
  pullLog : Nat → Nat → Bool
  sendLog : Nat → Nat → Bool

/-! ## Threads -/

inductive Reader (Pk : Type) where
  | read (i : Nat)
  | fill (i : Nat) (todo : List (Pk → Option Pk))
  | dead (i : Nat)
  | done

inductive Puller (Msg : Type) where
  | append (i j : Nat)
  | wait (i : Nat)
  | get (i j : Nat)
  | add (i j : Nat) (m : Msg)
  | ready (i j : Nat)
  | dead (i j : Nat)
  | done

inductive Sender where
  | send (i j : Nat)
  | dead (i j : Nat)
  | done

structure State (Pk Host Key Msg : Type) where
  mem : Nat → Pk
  flag : Nat → Bool
  ready : Nat → Nat
  pending : Host → List Key
  replies : Host → List Msg
  reader : Reader Pk
  puller : Puller Msg
  sender : Sender

section Step

variable (sp : Spec Pk Host Key Msg)

/-- One step of the reader. -/
def readerStep (s : State Pk Host Key Msg) : Option (State Pk Host Key Msg) :=
  match s.reader with
  | .read i =>
      if i < sp.packetCnt then some { s with reader := .fill i (sp.fill i) }
      else some { s with reader := .done }
  | .fill i (f :: todo) =>
      (f (s.mem i)).map fun p => { s with mem := Function.update s.mem i p, reader := .fill i todo }
  | .fill i [] =>
      some { s with
        flag := Function.update s.flag i true
        reader := if sp.readLog i then .read (i + 1) else .dead (i + 1) }
  | .dead _ => none
  | .done => none

/-- One step of the puller. -/
def pullerStep (s : State Pk Host Key Msg) : Option (State Pk Host Key Msg) :=
  match s.puller with
  | .append i j =>
      if i < sp.packetCnt then
        if j < sp.jobCnt then
          match sp.src j with
          -- a job without a source pulls nothing
          | none => some { s with puller := .append i (j + 1) }
          | some (h, k) =>
              some { s with
                pending := Function.update s.pending h (s.pending h ++ [k])
                puller := .append i (j + 1) }
        else some { s with puller := .append (i + 1) 0 }
      else some { s with puller := .wait 0 }
  | .wait i =>
      if i < sp.packetCnt then
        if s.flag i then some { s with puller := .get i 0 } else none
      else some { s with puller := .done }
  | .get i j =>
      if j < sp.jobCnt then
        match sp.src j with
        | none => some { s with puller := .ready i j }
        | some (h, _) =>
            match s.replies h with
            -- the reply has not come
            | [] => none
            | m :: ms =>
                some { s with
                  replies := Function.update s.replies h ms
                  puller := .add i j m }
      else some { s with puller := .wait (i + 1) }
  | .add i j m =>
      some { s with
        mem := Function.update s.mem i (sp.add j m (s.mem i))
        puller := .ready i j }
  | .ready i j =>
      some { s with
        ready := Function.update s.ready j (s.ready j + 1)
        puller := if sp.pullLog i j then .get i (j + 1) else .dead i (j + 1) }
  | .dead _ _ => none
  | .done => none

/-- One step of the sender. -/
def senderStep (s : State Pk Host Key Msg) :
    Option (Event Host Key Msg × State Pk Host Key Msg) :=
  match s.sender with
  | .send i j =>
      if i < sp.packetCnt then
        if j < sp.jobCnt then
          if i < s.ready j then
            some (.push (sp.dst j).1 (sp.dst j).2 (sp.load j (s.mem i)),
              { s with sender := if sp.sendLog i j then .send i (j + 1) else .dead i (j + 1) })
          else none
        else some (.internal, { s with sender := .send (i + 1) 0 })
      else some (.internal, { s with sender := .done })
  | .dead _ _ => none
  | .done => none

/-- Host `h` answers the request in front with `m`: the key asked for, and the state after it. -/
def serve (h : Host) (m : Msg) (s : State Pk Host Key Msg) :
    Option (Key × State Pk Host Key Msg) :=
  match s.pending h with
  | [] => none
  | k :: ks =>
      some (k, { s with
        pending := Function.update s.pending h ks
        replies := Function.update s.replies h (s.replies h ++ [m]) })

/-- One step of a relay among others. -/
inductive Step (s : State Pk Host Key Msg) : Event Host Key Msg → State Pk Host Key Msg → Prop where
  | reader {s' : State Pk Host Key Msg} (h : readerStep sp s = some s') : Step s .internal s'
  | puller {s' : State Pk Host Key Msg} (h : pullerStep sp s = some s') : Step s .internal s'
  | sender {e : Event Host Key Msg} {s' : State Pk Host Key Msg} (h : senderStep sp s = some (e, s')) :
      Step s e s'
  | serve {h : Host} {k : Key} {m : Msg} {s' : State Pk Host Key Msg} (hs : serve h m s = some (k, s')) :
      Step s (.pop h k m) s'

/-- The threads of a new batch. -/
def start (s : State Pk Host Key Msg) : State Pk Host Key Msg :=
  { s with
    ready := fun j => if j < sp.jobCnt then 0 else s.ready j
    reader := .read 0
    puller := .append 0 0
    sender := .send 0 0 }

/-- All three threads have ended. -/
def State.Idle (s : State Pk Host Key Msg) : Prop :=
  s.reader = .done ∧ s.puller = .done ∧ s.sender = .done

variable {sp}

/-- A relay that has ended and waits for no answer rests. -/
theorem State.Idle.not_step {s s' : State Pk Host Key Msg} {e : Event Host Key Msg} (h : s.Idle)
    (hpending : ∀ h, s.pending h = []) : ¬ Step sp s e s' := by
  intro hstep
  obtain ⟨hreader, hpuller, hsender⟩ := h
  cases hstep with
  | reader hr => simp [readerStep, hreader] at hr
  | puller hp => simp [pullerStep, hpuller] at hp
  | sender hs => simp [senderStep, hsender] at hs
  | serve hs => simp [serve, hpending] at hs

/-! ## What a step asks, pops and pushes -/

theorem pullerStep_pending {s s' : State Pk Host Key Msg} {h : Host} {k : Key} :
    pullerStep sp s = some s' → k ∈ s'.pending h →
      k ∈ s.pending h ∨ ∃ j < sp.jobCnt, sp.src j = some (h, k) := by
  intro hstep hk
  unfold pullerStep at hstep
  split at hstep
  · split at hstep
    · split at hstep
      · rename_i hj
        split at hstep
        · cases hstep
          exact Or.inl hk
        · rename_i h₀ k₀ hsrc
          cases hstep
          by_cases hh : h = h₀
          · subst hh
            simp only [Function.update_self, List.mem_append, List.mem_singleton] at hk
            rcases hk with hold | rfl
            · exact Or.inl hold
            · exact Or.inr ⟨_, hj, hsrc⟩
          · simp only [Function.update_of_ne hh] at hk
            exact Or.inl hk
      · cases hstep
        exact Or.inl hk
    · cases hstep
      exact Or.inl hk
  · split at hstep
    · split at hstep
      · cases hstep
        exact Or.inl hk
      · cases hstep
    · cases hstep
      exact Or.inl hk
  · split at hstep
    · split at hstep
      · cases hstep
        exact Or.inl hk
      · split at hstep
        · cases hstep
        · cases hstep
          exact Or.inl hk
    · cases hstep
      exact Or.inl hk
  · cases hstep
    exact Or.inl hk
  · cases hstep
    exact Or.inl hk
  · cases hstep
  · cases hstep

omit [DecidableEq Host] in
theorem readerStep_pending {s s' : State Pk Host Key Msg} :
    readerStep sp s = some s' → s'.pending = s.pending := by
  intro hstep
  unfold readerStep at hstep
  split at hstep
  · split at hstep <;> cases hstep <;> rfl
  · obtain ⟨p, -, rfl⟩ := Option.map_eq_some_iff.1 hstep
    rfl
  · cases hstep
    rfl
  · cases hstep
  · cases hstep

omit [DecidableEq Host] in
theorem senderStep_event {s s' : State Pk Host Key Msg} {e : Event Host Key Msg} :
    senderStep sp s = some (e, s') → s'.pending = s.pending ∧
      (e = .internal ∨ ∃ j < sp.jobCnt, ∃ m, e = .push (sp.dst j).1 (sp.dst j).2 m) := by
  intro hstep
  unfold senderStep at hstep
  split at hstep
  · split at hstep
    · split at hstep
      · rename_i hj
        split at hstep
        · cases hstep
          exact ⟨rfl, Or.inr ⟨_, hj, _, rfl⟩⟩
        · cases hstep
      · cases hstep
        exact ⟨rfl, Or.inl rfl⟩
    · cases hstep
      exact ⟨rfl, Or.inl rfl⟩
  · cases hstep
  · cases hstep

/-- What a step does to the lists, seen from the requests and the jobs. -/
theorem Step.uses {s s' : State Pk Host Key Msg} {e : Event Host Key Msg} :
    Step sp s e s' →
      (∀ h, ∀ k ∈ s'.pending h, k ∈ s.pending h ∨ ∃ j < sp.jobCnt, sp.src j = some (h, k)) ∧
      (∀ h k m, e = .pop h k m → k ∈ s.pending h) ∧
      ∀ h k m, e = .push h k m → ∃ j < sp.jobCnt, sp.dst j = (h, k) := by
  intro hstep
  cases hstep with
  | reader hr =>
      refine ⟨fun h k hk => Or.inl ?_, fun _ _ _ => nofun, fun _ _ _ => nofun⟩
      rwa [readerStep_pending hr] at hk
  | puller hp =>
      exact ⟨fun h k hk => pullerStep_pending hp hk, fun _ _ _ => nofun, fun _ _ _ => nofun⟩
  | sender hs =>
      obtain ⟨hpending, he⟩ := senderStep_event hs
      refine ⟨fun h k hk => Or.inl (hpending ▸ hk), fun h k m heq => ?_, fun h k m heq => ?_⟩
      · rcases he with he | ⟨j, _, m', he⟩ <;> rw [he] at heq <;> cases heq
      · rcases he with he | ⟨j, hj, m', he⟩
        · rw [he] at heq
          cases heq
        · rw [he] at heq
          cases heq
          exact ⟨j, hj, rfl⟩
  -- the thread of the host pops what is asked for first
  | @serve h₀ k₀ m₀ s' hs =>
      unfold Relay.serve at hs
      cases hpending : s.pending h₀ with
      | nil =>
          rw [hpending] at hs
          cases hs
      | cons k' ks =>
          rw [hpending] at hs
          cases hs
          refine ⟨fun h k hk => Or.inl ?_, fun h k m heq => ?_, fun _ _ _ => nofun⟩
          · by_cases hh : h = h₀
            · subst hh
              simp only [Function.update_self] at hk
              rw [hpending]
              exact List.mem_cons_of_mem k₀ hk
            · simpa only [Function.update_of_ne hh] using hk
          · cases heq
            rw [hpending]
            exact List.mem_cons_self

/-! ## Runs by a schedule -/

/-- Whose turn it is; an answer is chosen with its message. -/
inductive Turn (Host Msg : Type) where
  | reader
  | puller
  | sender
  | serve (h : Host) (m : Msg)

/-- Whether all three threads have ended. -/
def State.isIdle (s : State Pk Host Key Msg) : Bool :=
  match s.reader, s.puller, s.sender with
  | .done, .done, .done => true
  | _, _, _ => false

omit [DecidableEq Host] in
theorem State.idle_of_isIdle {s : State Pk Host Key Msg} : s.isIdle = true → s.Idle := by
  intro h
  unfold State.isIdle at h
  split at h
  · rename_i hreader hpuller hsender
    exact ⟨hreader, hpuller, hsender⟩
  · cases h

/-- The step of a turn. -/
def turn (sp : Spec Pk Host Key Msg) (t : Turn Host Msg) (s : State Pk Host Key Msg) :
    Option (Event Host Key Msg × State Pk Host Key Msg) :=
  match t with
  | .reader => (readerStep sp s).map (.internal, ·)
  | .puller => (pullerStep sp s).map (.internal, ·)
  | .sender => senderStep sp s
  | .serve h m => (serve h m s).map fun q => (.pop h q.1 m, q.2)

theorem step_of_turn {t : Turn Host Msg} {s s' : State Pk Host Key Msg} {e : Event Host Key Msg} :
    turn sp t s = some (e, s') → Step sp s e s' := by
  intro h
  cases t with
  | reader =>
      obtain ⟨s₁, hs₁, heq⟩ := Option.map_eq_some_iff.1 h
      cases heq
      exact .reader hs₁
  | puller =>
      obtain ⟨s₁, hs₁, heq⟩ := Option.map_eq_some_iff.1 h
      cases heq
      exact .puller hs₁
  | sender =>
      exact .sender h
  | serve h₀ m =>
      obtain ⟨q, hq, heq⟩ := Option.map_eq_some_iff.1 h
      cases heq
      exact .serve hq

end Step

/-! ## Cells in the order of the loops -/

/-- The cells before a position: all jobs of the packets before it, and some of its own. -/
def cells (jobCnt : Nat) (a : Nat × Nat) : List (Nat × Nat) :=
  (List.range a.1).flatMap (fun i => (List.range jobCnt).map (i, ·)) ++
    (List.range a.2).map (a.1, ·)

/-- How many packets of job `j` are before a position. -/
def count (a : Nat × Nat) (j : Nat) : Nat :=
  a.1 + if j < a.2 then 1 else 0

theorem count_mk (i j j' : Nat) : count (i, j') j = i + if j < j' then 1 else 0 := rfl

theorem cells_succ (jobCnt i j : Nat) : cells jobCnt (i, j + 1) = cells jobCnt (i, j) ++ [(i, j)] := by
  simp [cells, List.range_succ]

theorem cells_next (jobCnt i : Nat) : cells jobCnt (i + 1, 0) = cells jobCnt (i, jobCnt) := by
  simp [cells, List.range_succ]

theorem count_next {jobCnt i j : Nat} (hj : j < jobCnt) : count (i + 1, 0) j = count (i, jobCnt) j := by
  simp [count, hj]

theorem count_succ_self (i j : Nat) : count (i, j + 1) j = i + 1 := by
  simp [count]

theorem count_self (i j : Nat) : count (i, j) j = i := by
  simp [count]

theorem count_succ_of_ne {i j j' : Nat} (hj : j' ≠ j) : count (i, j + 1) j' = count (i, j) j' := by
  have hlt : j' < j + 1 ↔ j' < j := by omega
  simp [count, hlt]

/-! ## Positions of the threads -/

section Positions

variable (packetCnt : Nat)

/-- How many packets the reader has flagged. -/
def Reader.filled : Reader Pk → Nat
  | .read i => i
  | .fill i _ => i
  | .dead i => i
  | .done => packetCnt

/-- Up to where the puller has asked. -/
def Puller.appended : Puller Msg → Nat × Nat
  | .append i j => (i, j)
  | .wait _ => (packetCnt, 0)
  | .get _ _ => (packetCnt, 0)
  | .add _ _ _ => (packetCnt, 0)
  | .ready _ _ => (packetCnt, 0)
  | .dead _ _ => (packetCnt, 0)
  | .done => (packetCnt, 0)

/-- Up to where the puller has taken its messages. -/
def Puller.taken : Puller Msg → Nat × Nat
  | .append _ _ => (0, 0)
  | .wait i => (i, 0)
  | .get i j => (i, j)
  | .add i j _ => (i, j + 1)
  | .ready i j => (i, j + 1)
  | .dead i j => (i, j)
  | .done => (packetCnt, 0)

/-- Up to where it has added them. -/
def Puller.added : Puller Msg → Nat × Nat
  | .append _ _ => (0, 0)
  | .wait i => (i, 0)
  | .get i j => (i, j)
  | .add i j _ => (i, j)
  | .ready i j => (i, j + 1)
  | .dead i j => (i, j)
  | .done => (packetCnt, 0)

/-- Up to where it has counted the cells as ready. -/
def Puller.counted : Puller Msg → Nat × Nat
  | .append _ _ => (0, 0)
  | .wait i => (i, 0)
  | .get i j => (i, j)
  | .add i j _ => (i, j)
  | .ready i j => (i, j)
  | .dead i j => (i, j)
  | .done => (packetCnt, 0)

/-- How many packets the puller has seen flagged. -/
def Puller.waited : Puller Msg → Nat
  | .append _ _ => 0
  | .wait i => i
  | .get i _ => i + 1
  | .add i _ _ => i + 1
  | .ready i _ => i + 1
  | .dead i _ => i + 1
  | .done => packetCnt

/-- Up to where the sender has pushed. -/
def Sender.sent : Sender → Nat × Nat
  | .send i j => (i, j)
  | .dead i j => (i, j)
  | .done => (packetCnt, 0)

/-- The counters of the puller are in their loops. -/
def Puller.InLoop (jobCnt : Nat) : Puller Msg → Prop
  | .append i j => i ≤ packetCnt ∧ j ≤ jobCnt ∧ (i = packetCnt → j = 0)
  | .wait i => i ≤ packetCnt
  | .get i j => i < packetCnt ∧ j ≤ jobCnt
  | .add i j _ => i < packetCnt ∧ j < jobCnt
  | .ready i j => i < packetCnt ∧ j < jobCnt
  | .dead i j => i < packetCnt ∧ j ≤ jobCnt
  | .done => True

/-- So are those of the sender. -/
def Sender.InLoop (jobCnt : Nat) : Sender → Prop
  | .send i j => i ≤ packetCnt ∧ j ≤ jobCnt ∧ (i = packetCnt → j = 0)
  | .dead i j => i < packetCnt ∧ j ≤ jobCnt
  | .done => True

end Positions

end Relay
