import CoRD.Network.Process

/-!
# Semantics — hosts, mailboxes and the order of steps

One host, the *root*, runs a list of programs one after the other.  Every other host is a server:
whenever its program is done it pops a request from its job mailbox and runs the program it
answers that request with.  Mailboxes are FIFO and lose nothing.  One step of the system is one
step of one host, so the runs of the system are all interleavings of the hosts.

Besides the message, a packet records a number of its own and the round of its sender, that is,
which of the root's programs its sender was working for.  No program reads either of them.
-/

namespace MsgNet

/-- A message in a mailbox, with its number and the round of its sender. -/
structure Packet (Msg : Type) where
  uid : Nat
  round : Nat
  msg : Msg

/-- The programs of a system: those of the root by number, those of the servers by request. -/
structure Network (Host Chan Msg Store Err : Type) where
  root : Host
  job : Chan
  prog : Nat → Option (Proc Host Chan Msg Store Err)
  serve : Host → Msg → Proc Host Chan Msg Store Err

structure State (Host Chan Msg Store Err : Type) where
  proc : Host → Proc Host Chan Msg Store Err
  store : Host → Store
  box : Host → Chan → List (Packet Msg)
  /-- The round each host works for. -/
  round : Host → Nat
  /-- How many of its programs the root has begun. -/
  started : Nat
  /-- How many messages have been sent. -/
  clock : Nat

/-- What one step does to the mailboxes. -/
inductive Event (Host Chan Msg : Type) where
  | internal
  | sent (src dst : Host) (c : Chan) (p : Packet Msg)
  | popped (host : Host) (c : Chan) (p : Packet Msg) (round : Nat)

variable {Host Chan Msg Store Err : Type} [DecidableEq Host] [DecidableEq Chan]

namespace State

/-- Host `h` goes on with program `p`. -/
@[simp] def setProc (s : State Host Chan Msg Store Err) (h : Host) (p : Proc Host Chan Msg Store Err) :
    State Host Chan Msg Store Err :=
  { s with proc := Function.update s.proc h p }

/-- Host `h` now works for round `r`. -/
@[simp] def setRound (s : State Host Chan Msg Store Err) (h : Host) (r : Nat) :
    State Host Chan Msg Store Err :=
  { s with round := Function.update s.round h r }

@[simp] def setStore (s : State Host Chan Msg Store Err) (h : Host) (σ : Store) :
    State Host Chan Msg Store Err :=
  { s with store := Function.update s.store h σ }

/-- The mailbox `c` of host `h` becomes `ps`. -/
def setBox (s : State Host Chan Msg Store Err) (h : Host) (c : Chan) (ps : List (Packet Msg)) :
    State Host Chan Msg Store Err :=
  { s with box := Function.update s.box h (Function.update (s.box h) c ps) }

/-- The packet host `h` would send with message `m`. -/
def packet (s : State Host Chan Msg Store Err) (h : Host) (m : Msg) : Packet Msg :=
  { uid := s.clock, round := s.round h, msg := m }

/-- Append a packet to mailbox `c` of host `dst`. -/
def push (s : State Host Chan Msg Store Err) (dst : Host) (c : Chan) (p : Packet Msg) :
    State Host Chan Msg Store Err :=
  { s.setBox dst c (s.box dst c ++ [p]) with clock := s.clock + 1 }

/-- Before any step: every program done, every mailbox empty. -/
def init (store : Host → Store) : State Host Chan Msg Store Err :=
  { proc := fun _ => .done
    store := store
    box := fun _ _ => []
    round := fun _ => 0
    started := 0
    clock := 0 }

section Fields

variable (s : State Host Chan Msg Store Err) (h h' : Host) (c c' : Chan) (pk : Packet Msg)
  (ps : List (Packet Msg))

@[simp] theorem setBox_proc : (s.setBox h c ps).proc = s.proc := rfl
@[simp] theorem setBox_store : (s.setBox h c ps).store = s.store := rfl
@[simp] theorem setBox_round : (s.setBox h c ps).round = s.round := rfl
@[simp] theorem setBox_started : (s.setBox h c ps).started = s.started := rfl
@[simp] theorem setBox_clock : (s.setBox h c ps).clock = s.clock := rfl
@[simp] theorem push_proc : (s.push h c pk).proc = s.proc := rfl
@[simp] theorem push_store : (s.push h c pk).store = s.store := rfl
@[simp] theorem push_round : (s.push h c pk).round = s.round := rfl
@[simp] theorem push_started : (s.push h c pk).started = s.started := rfl
@[simp] theorem push_clock : (s.push h c pk).clock = s.clock + 1 := rfl

theorem setBox_box :
    (s.setBox h c ps).box h' c' = if h' = h ∧ c' = c then ps else s.box h' c' := by
  by_cases hh : h' = h
  · subst hh
    by_cases hc : c' = c
    · subst hc
      simp [setBox]
    · simp [setBox, hc]
  · simp [setBox, hh]

theorem push_box :
    (s.push h c pk).box h' c' = if h' = h ∧ c' = c then s.box h c ++ [pk] else s.box h' c' :=
  setBox_box s h h' c c' (s.box h c ++ [pk])

end Fields

end State

/-- One step of one host. -/
inductive Step (N : Network Host Chan Msg Store Err) : Host → State Host Chan Msg Store Err →
    Event Host Chan Msg → State Host Chan Msg Store Err → Prop where
  /-- The root begins its next program. -/
  | next {s : State Host Chan Msg Store Err} {p : Proc Host Chan Msg Store Err}
      (hdone : s.proc N.root = .done) (hprog : N.prog s.started = some p) :
      Step N N.root s .internal
        { (s.setProc N.root p).setRound N.root (s.started + 1) with started := s.started + 1 }
  /-- A server pops a request. -/
  | serve {s : State Host Chan Msg Store Err} {h : Host} {pk : Packet Msg}
      {ps : List (Packet Msg)} (hroot : h ≠ N.root) (hdone : s.proc h = .done)
      (hbox : s.box h N.job = pk :: ps) :
      Step N h s (.popped h N.job pk pk.round)
        (((s.setBox h N.job ps).setProc h (N.serve h pk.msg)).setRound h pk.round)
  | send {s : State Host Chan Msg Store Err} {h dst : Host} {c : Chan} {m : Msg}
      {p : Proc Host Chan Msg Store Err} (hproc : s.proc h = .send dst c m p) :
      Step N h s (.sent h dst c (s.packet h m)) ((s.setProc h p).push dst c (s.packet h m))
  | recv {s : State Host Chan Msg Store Err} {h : Host} {c : Chan} {pk : Packet Msg}
      {ps : List (Packet Msg)} {k : Msg → Proc Host Chan Msg Store Err}
      (hproc : s.proc h = .recv c k) (hbox : s.box h c = pk :: ps) :
      Step N h s (.popped h c pk (s.round h)) ((s.setBox h c ps).setProc h (k pk.msg))
  | load {s : State Host Chan Msg Store Err} {h : Host}
      {k : Store → Proc Host Chan Msg Store Err} (hproc : s.proc h = .load k) :
      Step N h s .internal (s.setProc h (k (s.store h)))
  | save {s : State Host Chan Msg Store Err} {h : Host} {σ : Store}
      {p : Proc Host Chan Msg Store Err} (hproc : s.proc h = .save σ p) :
      Step N h s .internal ((s.setProc h p).setStore h σ)

/-- A step changes the program of no other host. -/
theorem Step.proc_of_ne {N : Network Host Chan Msg Store Err} {h h' : Host}
    {s s' : State Host Chan Msg Store Err} {e : Event Host Chan Msg} (hstep : Step N h s e s')
    (hne : h' ≠ h) : s'.proc h' = s.proc h' := by
  cases hstep <;> simp [hne]

/-- A finite run with the events of its steps. -/
inductive Runs (N : Network Host Chan Msg Store Err) : State Host Chan Msg Store Err →
    List (Event Host Chan Msg) → State Host Chan Msg Store Err → Prop where
  | refl (s : State Host Chan Msg Store Err) : Runs N s [] s
  | snoc {s s' s'' : State Host Chan Msg Store Err} {es : List (Event Host Chan Msg)}
      {e : Event Host Chan Msg} {h : Host} :
      Runs N s es s' → Step N h s' e s'' → Runs N s (es ++ [e]) s''

/-- Host `h` can take a step. -/
def CanStep (N : Network Host Chan Msg Store Err) (s : State Host Chan Msg Store Err) (h : Host) :
    Prop :=
  ∃ e s', Step N h s e s'

namespace Runs

variable {N : Network Host Chan Msg Store Err} {s s' s'' : State Host Chan Msg Store Err}
  {es es' : List (Event Host Chan Msg)}

theorem trans (h₁ : Runs N s es s') (h₂ : Runs N s' es' s'') : Runs N s (es ++ es') s'' := by
  induction h₂ with
  | refl =>
      simpa using h₁
  | snoc _ hstep ih =>
      rw [← List.append_assoc]
      exact .snoc ih hstep

theorem single {e : Event Host Chan Msg} {h : Host} (hs : Step N h s e s') : Runs N s [e] s' :=
  .snoc (.refl s) hs

/-- What holds at first and is kept by every step holds at the end of every run. -/
theorem invariant {I : List (Event Host Chan Msg) → State Host Chan Msg Store Err → Prop}
    (hinit : I [] s)
    (hstep : ∀ es s₁ e s₂ h, Runs N s es s₁ → I es s₁ → Step N h s₁ e s₂ → I (es ++ [e]) s₂)
    (hr : Runs N s es s') : I es s' := by
  induction hr with
  | refl =>
      exact hinit
  | snoc hr hs ih =>
      exact hstep _ _ _ _ _ hr ih hs

/-- The root begins only programs it has. -/
theorem prog_of_lt_started {store : Host → Store} (hr : Runs N (State.init store) es s) :
    ∀ i < s.started, ∃ p, N.prog i = some p := by
  refine hr.invariant (I := fun _ s => ∀ i < s.started, ∃ p, N.prog i = some p) ?_ ?_
  · intro i hi
    cases hi
  · intro _ s₁ _ s₂ h _ hI hstep
    cases hstep with
    | next _ hprog =>
        intro i hi
        rcases Nat.lt_succ_iff_lt_or_eq.1 hi with hlt | rfl
        · exact hI i hlt
        · exact ⟨_, hprog⟩
    | serve _ _ _ =>
        exact hI
    | send _ =>
        exact hI
    | recv _ _ =>
        exact hI
    | load _ =>
        exact hI
    | save _ =>
        exact hI

end Runs

/-- Host `h` has finished what it had to do in round `r`. -/
def State.Finished (s : State Host Chan Msg Store Err) (h : Host) (r : Nat) : Prop :=
  s.proc h = .done ∧ s.round h = r

end MsgNet
