import Mathlib.Data.List.Infix
import Mathlib.Logic.Function.Basic
import Mathlib.Logic.Relation

/-!
# CondVar — threads that wait on condition variables

Threads run straight-line programs over a shared memory, mutexes and condition variables.  Waiting
is the loop `while (!ready) { lock m; wait c m; unlock m }`, in which the test stands outside of the
lock.  So the memory may change between the test and the wait, and a notification that falls into
this gap is lost.

A run is *careful* when no thread goes to sleep although what it waits for is already there.  If
every write that another thread may wait for is followed by a notification, then in careful runs no
thread sleeps for ever on a condition that holds.
-/

namespace CondVar

/-! ## Programs and runs -/

/-- A statement; `work` uses nothing that is shared, `await` is the loop that waits. -/
inductive Instr (Mem Mutex Cond : Type) where
  | work
  | write (f : Mem → Mem)
  | lock (m : Mutex)
  | unlock (m : Mutex)
  | notify (c : Cond)
  | await (ready : Mem → Bool) (m : Mutex) (c : Cond)

/-- Where a thread is in `await`: in front of the test (or at any other statement), behind the test,
with the mutex in front of the wait, asleep, woken up without the mutex, and with it. -/
inductive Phase where
  | run
  | entering
  | holding
  | asleep
  | woken
  | leaving
  deriving DecidableEq

structure Thread (Mem Mutex Cond : Type) where
  rest : List (Instr Mem Mutex Cond)
  phase : Phase

structure State (Tid Mem Mutex Cond : Type) where
  mem : Mem
  owner : Mutex → Option Tid
  thread : Tid → Thread Mem Mutex Cond

variable {Tid Mem Mutex Cond : Type}

section Runs

variable [DecidableEq Tid] [DecidableEq Mutex]

/-- What a thread does on its own, to the memory, the mutexes and itself. -/
inductive Moves (t : Tid) (mem : Mem) (owner : Mutex → Option Tid) :
    Thread Mem Mutex Cond → Mem → (Mutex → Option Tid) → Thread Mem Mutex Cond → Prop
  | work {r : List (Instr Mem Mutex Cond)} :
      Moves t mem owner ⟨.work :: r, .run⟩ mem owner ⟨r, .run⟩
  | write {f : Mem → Mem} {r : List (Instr Mem Mutex Cond)} :
      Moves t mem owner ⟨.write f :: r, .run⟩ (f mem) owner ⟨r, .run⟩
  | lock {m : Mutex} {r : List (Instr Mem Mutex Cond)} : owner m = none →
      Moves t mem owner ⟨.lock m :: r, .run⟩ mem (Function.update owner m (some t)) ⟨r, .run⟩
  | unlock {m : Mutex} {r : List (Instr Mem Mutex Cond)} :
      Moves t mem owner ⟨.unlock m :: r, .run⟩ mem (Function.update owner m none) ⟨r, .run⟩
  | pass {ready : Mem → Bool} {m : Mutex} {c : Cond} {r : List (Instr Mem Mutex Cond)} :
      ready mem = true →
        Moves t mem owner ⟨.await ready m c :: r, .run⟩ mem owner ⟨r, .run⟩
  | test {ready : Mem → Bool} {m : Mutex} {c : Cond} {r : List (Instr Mem Mutex Cond)} :
      ready mem = false →
        Moves t mem owner ⟨.await ready m c :: r, .run⟩ mem owner
          ⟨.await ready m c :: r, .entering⟩
  | enter {ready : Mem → Bool} {m : Mutex} {c : Cond} {r : List (Instr Mem Mutex Cond)} :
      owner m = none →
        Moves t mem owner ⟨.await ready m c :: r, .entering⟩ mem
          (Function.update owner m (some t)) ⟨.await ready m c :: r, .holding⟩
  | sleep {ready : Mem → Bool} {m : Mutex} {c : Cond} {r : List (Instr Mem Mutex Cond)} :
      Moves t mem owner ⟨.await ready m c :: r, .holding⟩ mem (Function.update owner m none)
        ⟨.await ready m c :: r, .asleep⟩
  -- a wait may end without a notification
  | wake {ready : Mem → Bool} {m : Mutex} {c : Cond} {r : List (Instr Mem Mutex Cond)} :
      Moves t mem owner ⟨.await ready m c :: r, .asleep⟩ mem owner
        ⟨.await ready m c :: r, .woken⟩
  | relock {ready : Mem → Bool} {m : Mutex} {c : Cond} {r : List (Instr Mem Mutex Cond)} :
      owner m = none →
        Moves t mem owner ⟨.await ready m c :: r, .woken⟩ mem
          (Function.update owner m (some t)) ⟨.await ready m c :: r, .leaving⟩
  | leave {ready : Mem → Bool} {m : Mutex} {c : Cond} {r : List (Instr Mem Mutex Cond)} :
      Moves t mem owner ⟨.await ready m c :: r, .leaving⟩ mem (Function.update owner m none)
        ⟨.await ready m c :: r, .run⟩

/-- Thread `t` sleeps on `c`. -/
def SleepsOn (s : State Tid Mem Mutex Cond) (t : Tid) (c : Cond) : Prop :=
  ∃ ready m r, s.thread t = ⟨.await ready m c :: r, .asleep⟩

/-- One step of any thread; `notify_one` wakes one of those that sleep, if there is one. -/
inductive Step (s : State Tid Mem Mutex Cond) : State Tid Mem Mutex Cond → Prop
  | own {t : Tid} {mem : Mem} {owner : Mutex → Option Tid} {th : Thread Mem Mutex Cond} :
      Moves t s.mem s.owner (s.thread t) mem owner th →
        Step s ⟨mem, owner, Function.update s.thread t th⟩
  | notify {t u : Tid} {c : Cond} {r r' : List (Instr Mem Mutex Cond)} {ready : Mem → Bool}
      {m : Mutex} : s.thread t = ⟨.notify c :: r, .run⟩ →
        s.thread u = ⟨.await ready m c :: r', .asleep⟩ →
          Step s ⟨s.mem, s.owner, Function.update (Function.update s.thread t ⟨r, .run⟩) u
            ⟨.await ready m c :: r', .woken⟩⟩
  | notifyNone {t : Tid} {c : Cond} {r : List (Instr Mem Mutex Cond)} :
      s.thread t = ⟨.notify c :: r, .run⟩ → (∀ u, ¬ SleepsOn s u c) →
        Step s ⟨s.mem, s.owner, Function.update s.thread t ⟨r, .run⟩⟩

/-- A thread that goes to sleep in this step does so while its condition is still false. -/
def Careful (s s' : State Tid Mem Mutex Cond) : Prop :=
  ∀ t ready m c r, s.thread t = ⟨.await ready m c :: r, .holding⟩ →
    s'.thread t = ⟨.await ready m c :: r, .asleep⟩ → ready s.mem = false

/-- All threads in front of their programs. -/
def start (code : Tid → List (Instr Mem Mutex Cond)) (mem : Mem) : State Tid Mem Mutex Cond :=
  ⟨mem, fun _ => none, fun t => ⟨code t, .run⟩⟩

def Reaches : State Tid Mem Mutex Cond → State Tid Mem Mutex Cond → Prop :=
  Relation.ReflTransGen Step

def CarefullyReaches : State Tid Mem Mutex Cond → State Tid Mem Mutex Cond → Prop :=
  Relation.ReflTransGen fun s s' => Step s s' ∧ Careful s s'

/-- A thread sleeps although its condition holds, and whatever happens next, no other thread will
notify it. -/
def LostWakeup (s : State Tid Mem Mutex Cond) : Prop :=
  ∃ t ready m c r, s.thread t = ⟨.await ready m c :: r, .asleep⟩ ∧ ready s.mem = true ∧
    ∀ s', Reaches s s' → ∀ u ≠ t, ∀ r', s'.thread u ≠ ⟨.notify c :: r', .run⟩

end Runs

/-! ## Programs that notify -/

/-- The mutex is unlocked before it is locked again. -/
def Inside (m : Mutex) : List (Instr Mem Mutex Cond) → Prop
  | [] => False
  | .lock m' :: r => m' ≠ m ∧ Inside m r
  | .unlock m' :: r => m' = m ∨ Inside m r
  | .await _ m' _ :: r => m' ≠ m ∧ Inside m r
  | _ :: r => Inside m r

def Uses (m : Mutex) (l : List (Instr Mem Mutex Cond)) : Prop :=
  .unlock m ∈ l ∨ ∃ ready c, .await ready m c ∈ l

/-- Each statement stands in a given relation to what follows it. -/
def Follows (P : Instr Mem Mutex Cond → List (Instr Mem Mutex Cond) → Prop) :
    List (Instr Mem Mutex Cond) → Prop
  | [] => True
  | i :: r => P i r ∧ Follows P r

/-- Thread `u` is about to notify `c`, at once or behind a lock that only it and `t` use. -/
def Notifies (code : Tid → List (Instr Mem Mutex Cond)) (t u : Tid) (m : Mutex) (c : Cond)
    (r : List (Instr Mem Mutex Cond)) : Prop :=
  (∃ r', r = .notify c :: r') ∨
    (∃ r', r = .lock m :: .notify c :: r') ∧ ∀ v, Uses m (code v) → v = t ∨ v = u

/-- What has to follow a statement of thread `u`: a write that some thread may wait for is followed
by a notification, and a lock by its unlock. -/
def Signals (code : Tid → List (Instr Mem Mutex Cond)) (u : Tid) :
    Instr Mem Mutex Cond → List (Instr Mem Mutex Cond) → Prop
  | .write f, r => ∀ t ≠ u, ∀ ready m c, .await ready m c ∈ code t →
      ∀ mem, ready mem = false → ready (f mem) = true → Notifies code t u m c r
  | .lock m, r => Inside m r
  | _, _ => True

/-- The discipline of the programs. -/
structure Disciplined (code : Tid → List (Instr Mem Mutex Cond)) : Prop where
  follows : ∀ u, Follows (Signals code u) (code u)
  waiter : ∀ t t' ready ready' m m' c, .await ready m c ∈ code t →
    .await ready' m' c ∈ code t' → t = t'

section Follows

variable {P : Instr Mem Mutex Cond → List (Instr Mem Mutex Cond) → Prop}
  {l l' r : List (Instr Mem Mutex Cond)} {i : Instr Mem Mutex Cond}

theorem Follows.of_suffix (h : Follows P l) : i :: r <:+ l → P i r := by
  intro hsuffix
  induction l with
  | nil =>
      cases List.suffix_nil.1 hsuffix
  | cons a l ih =>
      rcases List.suffix_cons_iff.1 hsuffix with heq | htail
      · cases heq
        exact h.1
      · exact ih h.2 htail

theorem Follows.append (hP : ∀ i r r', P i r → P i (r ++ r')) (h : Follows P l)
    (h' : Follows P l') : Follows P (l ++ l') := by
  induction l with
  | nil => exact h'
  | cons a l ih => exact ⟨hP a l l' h.1, ih h.2⟩

theorem Follows.flatMap {α : Type} {f : α → List (Instr Mem Mutex Cond)} {xs : List α}
    (hP : ∀ i r r', P i r → P i (r ++ r')) (h : ∀ x ∈ xs, Follows P (f x)) :
    Follows P (xs.flatMap f) := by
  induction xs with
  | nil => trivial
  | cons x xs ih =>
      rw [List.flatMap_cons]
      apply (h x List.mem_cons_self).append hP
      exact ih fun y hy => h y (List.mem_cons_of_mem x hy)

theorem Inside.append {m : Mutex} (h : Inside m l) (r : List (Instr Mem Mutex Cond)) :
    Inside m (l ++ r) := by
  induction l with
  | nil => exact h.elim
  | cons i l ih =>
      cases i with
      | work => exact ih h
      | write f => exact ih h
      | lock m' => exact ⟨h.1, ih h.2⟩
      | unlock m' =>
          rcases h with heq | hin
          · exact Or.inl heq
          · exact Or.inr (ih hin)
      | notify c => exact ih h
      | await ready m' c => exact ⟨h.1, ih h.2⟩

theorem Inside.uses {m : Mutex} (h : Inside m l) : Uses m l := by
  induction l with
  | nil => exact h.elim
  | cons i l ih =>
      have htail : Inside m l → Uses m (i :: l) := by
        intro hin
        rcases ih hin with hunlock | ⟨ready, c, hawait⟩
        · exact Or.inl (List.mem_cons_of_mem i hunlock)
        · exact Or.inr ⟨ready, c, List.mem_cons_of_mem i hawait⟩
      cases i with
      | work => exact htail h
      | write f => exact htail h
      | lock m' => exact htail h.2
      | unlock m' =>
          rcases h with rfl | hin
          · exact Or.inl List.mem_cons_self
          · exact htail hin
      | notify c => exact htail h
      | await ready m' c => exact htail h.2

theorem Uses.of_suffix {m : Mutex} (h : Uses m r) (hsuffix : r <:+ l) : Uses m l := by
  rcases h with hunlock | ⟨ready, c, hawait⟩
  · exact Or.inl (hsuffix.subset hunlock)
  · exact Or.inr ⟨ready, c, hsuffix.subset hawait⟩

/-- Programs are put together from parts that keep the discipline. -/
theorem Signals.append {code : Tid → List (Instr Mem Mutex Cond)} {u : Tid} :
    Signals code u i r → Signals code u i (r ++ l) := by
  intro h
  cases i with
  | write f =>
      intro t ht ready m c hawait mem hfalse htrue
      rcases h t ht ready m c hawait mem hfalse htrue with ⟨r', rfl⟩ | ⟨⟨r', rfl⟩, hv⟩
      · exact Or.inl ⟨r' ++ l, rfl⟩
      · exact Or.inr ⟨⟨r' ++ l, rfl⟩, hv⟩
  | lock m => exact Inside.append h l
  | work => trivial
  | unlock m => trivial
  | notify c => trivial
  | await ready m c => trivial

end Follows

/-! ## Invariants -/

/-- The thread may own the mutex. -/
def HoldsIn (m : Mutex) (th : Thread Mem Mutex Cond) : Prop :=
  Inside m th.rest ∨ (th.phase = .holding ∨ th.phase = .leaving) ∧
    ∃ ready c r, th.rest = .await ready m c :: r

section HoldsIn

variable {m m' : Mutex} {c : Cond} {r : List (Instr Mem Mutex Cond)} {p : Phase}
  {ready : Mem → Bool}

theorem HoldsIn.inside (h : HoldsIn m ⟨r, p⟩) : ¬ (p = .holding ∨ p = .leaving) → Inside m r := by
  intro hp
  rcases h with hin | ⟨hphase, -⟩
  · exact hin
  · exact absurd hphase hp

theorem HoldsIn.inside_of_ne (h : HoldsIn m ⟨.await ready m' c :: r, p⟩) :
    m' ≠ m → Inside m (.await ready m' c :: r) := by
  intro hm
  rcases h with hin | ⟨-, ready', c', r', heq⟩
  · exact hin
  · cases heq
    exact absurd rfl hm

end HoldsIn

section Invariants

variable {code : Tid → List (Instr Mem Mutex Cond)} {mem : Mem} {s : State Tid Mem Mutex Cond}

/-- Where the threads are in their programs, and who owns a mutex. -/
structure Placed (code : Tid → List (Instr Mem Mutex Cond)) (s : State Tid Mem Mutex Cond) :
    Prop where
  suffix : ∀ t, (s.thread t).rest <:+ code t
  owner : ∀ m t, s.owner m = some t → HoldsIn m (s.thread t)

theorem Placed.mem_code (hs : Placed code s) {t : Tid} {i : Instr Mem Mutex Cond}
    {r : List (Instr Mem Mutex Cond)} {p : Phase} (ht : s.thread t = ⟨i :: r, p⟩) : i ∈ code t := by
  apply (hs.suffix t).subset
  rw [ht]
  exact List.mem_cons_self

/-- A lock that only a sleeper and one other thread use is free when that thread needs it. -/
theorem Placed.free (hs : Placed code s) {t u : Tid} {ready : Mem → Bool} {m : Mutex} {c : Cond}
    {r r' : List (Instr Mem Mutex Cond)} (ht : s.thread t = ⟨.await ready m c :: r, .asleep⟩)
    (hu : s.thread u = ⟨.lock m :: r', .run⟩)
    (husers : ∀ v, Uses m (code v) → v = t ∨ v = u) : s.owner m = none := by
  rcases howner : s.owner m with _ | v
  · rfl
  · have hholds := hs.owner m v howner
    have huses : Uses m (code v) := by
      apply Uses.of_suffix _ (hs.suffix v)
      rcases hholds with hin | ⟨-, ready', c', r₁, hrest⟩
      · exact hin.uses
      · exact Or.inr ⟨ready', c', hrest ▸ List.mem_cons_self⟩
    rcases husers v huses with rfl | rfl
    · rw [ht] at hholds
      exact absurd rfl (hholds.inside (by decide)).1
    · rw [hu] at hholds
      exact absurd rfl (hholds.inside (by decide)).1

/-- If a thread sleeps although its condition holds, another one is about to notify it. -/
def Pending (code : Tid → List (Instr Mem Mutex Cond)) (s : State Tid Mem Mutex Cond) : Prop :=
  ∀ t ready m c r, s.thread t = ⟨.await ready m c :: r, .asleep⟩ → ready s.mem = true →
    ∃ u ≠ t, ∃ r', s.thread u = ⟨r', .run⟩ ∧ Notifies code t u m c r'

theorem placed_start : Placed code (start code mem) where
  suffix t := List.suffix_rfl
  owner m t hsome := by cases hsome

theorem pending_start : Pending code (start code mem) := by
  intro t ready m c r hasleep
  cases congrArg Thread.phase hasleep

end Invariants

/-! ## What a step keeps -/

section Moves

variable [DecidableEq Mutex] {t v : Tid} {mem mem' : Mem} {owner owner' : Mutex → Option Tid}
  {th th' : Thread Mem Mutex Cond} {m : Mutex}

theorem Moves.suffix (h : Moves t mem owner th mem' owner' th') : th'.rest <:+ th.rest := by
  cases h with
  | work => exact List.suffix_cons _ _
  | write => exact List.suffix_cons _ _
  | lock _ => exact List.suffix_cons _ _
  | unlock => exact List.suffix_cons _ _
  | pass _ => exact List.suffix_cons _ _
  | test _ => exact List.suffix_rfl
  | enter _ => exact List.suffix_rfl
  | sleep => exact List.suffix_rfl
  | wake => exact List.suffix_rfl
  | relock _ => exact List.suffix_rfl
  | leave => exact List.suffix_rfl

theorem not_moves_notify {c : Cond} {r : List (Instr Mem Mutex Cond)} :
    ¬ Moves t mem owner ⟨.notify c :: r, .run⟩ mem' owner' th := by
  intro h
  cases h

/-- No thread takes a mutex for another one. -/
theorem Moves.owner_of_ne (h : Moves t mem owner th mem' owner' th') (hv : v ≠ t) :
    owner' m = some v → owner m = some v := by
  have hupdate : ∀ {m' : Mutex} {o : Option Tid}, o = none ∨ o = some t →
      Function.update owner m' o m = some v → owner m = some v := by
    intro m' o ho hsome
    by_cases hm : m = m'
    · subst hm
      rw [Function.update_self] at hsome
      rcases ho with rfl | rfl
      · cases hsome
      · exact absurd (Option.some.inj hsome).symm hv
    · rwa [Function.update_of_ne hm] at hsome
  cases h with
  | work => exact id
  | write => exact id
  | lock _ => exact hupdate (Or.inr rfl)
  | unlock => exact hupdate (Or.inl rfl)
  | pass _ => exact id
  | test _ => exact id
  | enter _ => exact hupdate (Or.inr rfl)
  | sleep => exact hupdate (Or.inl rfl)
  | wake => exact id
  | relock _ => exact hupdate (Or.inr rfl)
  | leave => exact hupdate (Or.inl rfl)

/-- A mutex that is owned has still to be unlocked. -/
theorem Moves.holdsIn (h : Moves t mem owner th mem' owner' th')
    (hlock : ∀ m r, th.rest = .lock m :: r → Inside m r)
    (howner : ∀ m, owner m = some t → HoldsIn m th) :
    owner' m = some t → HoldsIn m th' := by
  -- a move leaves the owner of `m` alone, makes this thread the owner, or gives the lock back
  have hstays : (HoldsIn m th → HoldsIn m th') → owner m = some t → HoldsIn m th' :=
    fun hto hsome => hto (howner m hsome)
  have htakes : ∀ {m' : Mutex}, HoldsIn m' th' → (HoldsIn m th → HoldsIn m th') →
      Function.update owner m' (some t) m = some t → HoldsIn m th' := by
    intro m' hnew hto hsome
    by_cases hm : m = m'
    · exact hm ▸ hnew
    · rw [Function.update_of_ne hm] at hsome
      exact hstays hto hsome
  have hgives : ∀ {m' : Mutex}, (m' ≠ m → HoldsIn m th → HoldsIn m th') →
      Function.update owner m' none m = some t → HoldsIn m th' := by
    intro m' hto hsome
    by_cases hm : m = m'
    · subst hm
      rw [Function.update_self] at hsome
      cases hsome
    · rw [Function.update_of_ne hm] at hsome
      exact hstays (hto (Ne.symm hm)) hsome
  cases h with
  | work =>
      apply hstays
      intro hin
      exact Or.inl (hin.inside (by decide))
  | write =>
      apply hstays
      intro hin
      exact Or.inl (hin.inside (by decide))
  | lock _ =>
      apply htakes
      · exact Or.inl (hlock _ _ rfl)
      · intro hin
        exact Or.inl (hin.inside (by decide)).2
  | unlock =>
      apply hgives
      intro hm hin
      exact Or.inl ((hin.inside (by decide)).resolve_left hm)
  | pass _ =>
      apply hstays
      intro hin
      exact Or.inl (hin.inside (by decide)).2
  | test _ =>
      apply hstays
      intro hin
      exact Or.inl (hin.inside (by decide))
  | enter _ =>
      apply htakes
      · exact Or.inr ⟨Or.inl rfl, _, _, _, rfl⟩
      · intro hin
        exact Or.inl (hin.inside (by decide))
  -- the wait of a condition variable gives the lock back, and takes it again before it returns
  | sleep =>
      apply hgives
      intro hm hin
      exact Or.inl (hin.inside_of_ne hm)
  | wake =>
      apply hstays
      intro hin
      exact Or.inl (hin.inside (by decide))
  | relock _ =>
      apply htakes
      · exact Or.inr ⟨Or.inr rfl, _, _, _, rfl⟩
      · intro hin
        exact Or.inl (hin.inside (by decide))
  | leave =>
      apply hgives
      intro hm hin
      exact Or.inl (hin.inside_of_ne hm)

end Moves

section Steps

variable [DecidableEq Tid] [DecidableEq Mutex] {code : Tid → List (Instr Mem Mutex Cond)}
  {s s' : State Tid Mem Mutex Cond}

/-- What a step does to one thread: it moves, it notifies, it is woken up, or nothing. -/
theorem Step.thread_cases (h : Step s s') (t : Tid) :
    Moves t s.mem s.owner (s.thread t) s'.mem s'.owner (s'.thread t) ∨
      s'.thread t = s.thread t ∨
      (∃ c r, s.thread t = ⟨.notify c :: r, .run⟩ ∧ s'.thread t = ⟨r, .run⟩) ∨
      ∃ ready m c r, s.thread t = ⟨.await ready m c :: r, .asleep⟩ ∧
        s'.thread t = ⟨.await ready m c :: r, .woken⟩ := by
  cases h with
  | @own v mem owner th hmove =>
      by_cases htv : t = v
      · subst htv
        left
        simpa only [Function.update_self] using hmove
      · right; left
        exact Function.update_of_ne htv _ _
  | @notify v u c r r' ready m hv hu =>
      right
      -- the sleeper that is woken, the thread that notifies, or another
      by_cases htu : t = u
      · subst htu
        right; right
        exact ⟨ready, m, c, r', hu, Function.update_self _ _ _⟩
      · by_cases htv : t = v
        · subst htv
          right; left
          refine ⟨c, r, hv, ?_⟩
          exact (Function.update_of_ne htu _ _).trans (Function.update_self _ _ _)
        · left
          exact (Function.update_of_ne htu _ _).trans (Function.update_of_ne htv _ _)
  | @notifyNone v c r hv _ =>
      right
      by_cases htv : t = v
      · subst htv
        right; left
        exact ⟨c, r, hv, Function.update_self _ _ _⟩
      · left
        exact Function.update_of_ne htv _ _

/-- Nothing is executed twice. -/
theorem Step.suffix (h : Step s s') (t : Tid) : (s'.thread t).rest <:+ (s.thread t).rest := by
  rcases h.thread_cases t with hmove | hsame | ⟨c, r, hold, hnew⟩ | ⟨ready, m, c, r, hold, hnew⟩
  · exact hmove.suffix
  · rw [hsame]
  · rw [hold, hnew]
    exact List.suffix_cons _ _
  · rw [hold, hnew]

theorem Reaches.suffix (h : Reaches s s') (t : Tid) :
    (s'.thread t).rest <:+ (s.thread t).rest := by
  induction h with
  | refl => exact List.suffix_rfl
  | tail _ hstep ih => exact (hstep.suffix t).trans ih

theorem Step.owner_cases {m : Mutex} {t : Tid} (h : Step s s') (hsome : s'.owner m = some t) :
    s.owner m = some t ∨ Moves t s.mem s.owner (s.thread t) s'.mem s'.owner (s'.thread t) := by
  cases h with
  | @own v mem owner th hmove =>
      by_cases htv : t = v
      · subst htv
        right
        simpa only [Function.update_self] using hmove
      · exact Or.inl (hmove.owner_of_ne htv hsome)
  | notify _ _ => exact Or.inl hsome
  | notifyNone _ _ => exact Or.inl hsome

theorem Placed.step (hcode : Disciplined code) (hs : Placed code s) (h : Step s s') :
    Placed code s' where
  suffix t := (h.suffix t).trans (hs.suffix t)
  owner := by
    intro m t hsome
    have hmoves : Moves t s.mem s.owner (s.thread t) s'.mem s'.owner (s'.thread t) →
        HoldsIn m (s'.thread t) := by
      intro hmove
      apply hmove.holdsIn _ (fun m' => hs.owner m' t) hsome
      intro m' r hrest
      exact (hcode.follows t).of_suffix (hrest ▸ hs.suffix t)
    rcases h.owner_cases hsome with hbefore | hmove
    · have hholds := hs.owner m t hbefore
      rcases h.thread_cases t with hmove | hsame | ⟨c, r, hold, hnew⟩ | ⟨ready, m', c, r, hold, hnew⟩
      · exact hmoves hmove
      · exact hsame ▸ hholds
      · rw [hold] at hholds
        rw [hnew]
        exact Or.inl (hholds.inside (by decide))
      · rw [hold] at hholds
        rw [hnew]
        exact Or.inl (hholds.inside (by decide))
    · exact hmoves hmove

/-! ## Careful runs -/

/-- The memory changes by writes only. -/
theorem Step.mem_cases (h : Step s s') :
    s'.mem = s.mem ∨ ∃ u f r, s.thread u = ⟨.write f :: r, .run⟩ ∧ s'.thread u = ⟨r, .run⟩ ∧
      s'.mem = f s.mem := by
  cases h with
  | @own v mem owner th hmove =>
      generalize hth : s.thread v = th₀ at hmove
      cases hmove with
      | @write f r => exact Or.inr ⟨v, f, r, hth, Function.update_self _ _ _, rfl⟩
      | work => exact Or.inl rfl
      | lock _ => exact Or.inl rfl
      | unlock => exact Or.inl rfl
      | pass _ => exact Or.inl rfl
      | test _ => exact Or.inl rfl
      | enter _ => exact Or.inl rfl
      | sleep => exact Or.inl rfl
      | wake => exact Or.inl rfl
      | relock _ => exact Or.inl rfl
      | leave => exact Or.inl rfl
  | notify _ _ => exact Or.inl rfl
  | notifyNone _ _ => exact Or.inl rfl

/-- Who sleeps after a step has slept before, or has just found its condition false. -/
theorem Step.asleep_cases {t : Tid} {ready : Mem → Bool} {m : Mutex} {c : Cond}
    {r : List (Instr Mem Mutex Cond)} (h : Step s s')
    (hasleep : s'.thread t = ⟨.await ready m c :: r, .asleep⟩) :
    s.thread t = ⟨.await ready m c :: r, .asleep⟩ ∨
      s.thread t = ⟨.await ready m c :: r, .holding⟩ ∧ s'.mem = s.mem := by
  rcases h.thread_cases t with hmove | hsame | ⟨c', r', -, hnew⟩ | ⟨ready', m', c', r', -, hnew⟩
  · rw [hasleep] at hmove
    generalize s.thread t = th at hmove ⊢
    generalize s'.mem = mem' at hmove ⊢
    generalize s'.owner = owner' at hmove
    cases hmove with
    | sleep => exact Or.inr ⟨rfl, rfl⟩
  · exact Or.inl (hsame ▸ hasleep)
  · rw [hnew] at hasleep
    cases hasleep
  · rw [hnew] at hasleep
    cases hasleep

/-- A notification wakes a sleeper, if there is one. -/
theorem Step.wakes {t u : Tid} {c : Cond} {r : List (Instr Mem Mutex Cond)} (h : Step s s')
    (hu : s.thread u = ⟨.notify c :: r, .run⟩) (hu' : s'.thread u = ⟨r, .run⟩)
    (ht : SleepsOn s t c) :
    ∃ v ready m r', s.thread v = ⟨.await ready m c :: r', .asleep⟩ ∧
      s'.thread v = ⟨.await ready m c :: r', .woken⟩ := by
  -- only the step of `u` itself moves `u` past its notification
  have hne : s'.thread u ≠ s.thread u := by
    intro hsame
    rw [hu, hu'] at hsame
    exact List.cons_ne_self _ _ (congrArg Thread.rest hsame).symm
  cases h with
  | @own v mem owner th hmove =>
      by_cases huv : u = v
      · subst huv
        rw [hu] at hmove
        exact absurd hmove not_moves_notify
      · exact absurd (Function.update_of_ne huv _ _) hne
  | @notify v w c' r₁ r₂ ready m hv hw =>
      by_cases huw : u = w
      · subst huw
        rw [hu] at hw
        cases hw
      · by_cases huv : u = v
        · subst huv
          rw [hu] at hv
          cases hv
          exact ⟨w, ready, m, r₂, hw, Function.update_self _ _ _⟩
        · exact absurd ((Function.update_of_ne huw _ _).trans (Function.update_of_ne huv _ _)) hne
  | @notifyNone v c' r' hv hnone =>
      by_cases huv : u = v
      · subst huv
        rw [hu] at hv
        cases hv
        exact absurd ht (hnone t)
      · exact absurd (Function.update_of_ne huv _ _) hne

/-- A thread that is about to notify a sleeper stays so until the sleeper is woken up. -/
theorem Step.notifies {t u : Tid} {ready : Mem → Bool} {m : Mutex} {c : Cond}
    {r r' : List (Instr Mem Mutex Cond)} (hcode : Disciplined code) (hs : Placed code s)
    (h : Step s s') (hasleep : s.thread t = ⟨.await ready m c :: r, .asleep⟩)
    (hasleep' : s'.thread t = ⟨.await ready m c :: r, .asleep⟩)
    (hu : s.thread u = ⟨r', .run⟩) (hnotifies : Notifies code t u m c r') :
    ∃ r'', s'.thread u = ⟨r'', .run⟩ ∧ Notifies code t u m c r'' := by
  rcases h.thread_cases u with hmove | hsame | ⟨c', r₁, hold, hnew⟩ | ⟨_, _, _, _, hold, -⟩
  · rw [hu] at hmove
    rcases hnotifies with ⟨r₂, rfl⟩ | ⟨⟨r₂, rfl⟩, -⟩
    · exact absurd hmove not_moves_notify
    · generalize s'.thread u = th' at hmove ⊢
      generalize s'.mem = mem' at hmove
      generalize s'.owner = owner' at hmove
      cases hmove with
      | lock _ => exact ⟨_, rfl, Or.inl ⟨r₂, rfl⟩⟩
  · exact ⟨r', hsame.trans hu, hnotifies⟩
  · rw [hu] at hold
    cases hold
    rcases hnotifies with ⟨r₂, heq⟩ | ⟨⟨r₂, heq⟩, -⟩
    · -- nobody else sleeps there, so it is `t` that is woken up
      cases heq
      rcases h.wakes hu hnew ⟨ready, m, r, hasleep⟩ with ⟨v, ready', m', r₃, hv, hv'⟩
      have hvt : v = t := by
        apply hcode.waiter v t ready' ready m' m c
        · exact hs.mem_code hv
        · exact hs.mem_code hasleep
      rw [hvt, hasleep'] at hv'
      cases hv'
    · cases heq
  · rw [hu] at hold
    cases hold

theorem Pending.step (hcode : Disciplined code) (hs : Placed code s) (hpending : Pending code s)
    (h : Step s s') (hcareful : Careful s s') : Pending code s' := by
  intro t ready m c r hasleep hready
  rcases h.asleep_cases hasleep with hbefore | ⟨hholding, hmem⟩
  · by_cases hold : ready s.mem = true
    · rcases hpending t ready m c r hbefore hold with ⟨u, hut, r', hu, hnotifies⟩
      rcases h.notifies hcode hs hbefore hasleep hu hnotifies with ⟨r'', hu', hnotifies'⟩
      exact ⟨u, hut, r'', hu', hnotifies'⟩
    · rcases h.mem_cases with hmem | ⟨u, f, r', hu, hu', hmem⟩
      · exact absurd (hmem ▸ hready) hold
      · have hut : u ≠ t := by
          intro heq
          rw [heq, hbefore] at hu
          cases hu
        refine ⟨u, hut, r', hu', ?_⟩
        have hsuffix := hs.suffix u
        rw [hu] at hsuffix
        apply (hcode.follows u).of_suffix hsuffix t hut.symm ready m c
        · exact hs.mem_code hbefore
        · exact Bool.eq_false_iff.2 hold
        · exact hmem ▸ hready
  · have hfalse := hcareful t ready m c r hholding hasleep
    rw [hmem, hfalse] at hready
    cases hready

end Steps

section Runs

variable [DecidableEq Tid] [DecidableEq Mutex] {code : Tid → List (Instr Mem Mutex Cond)}
  {mem : Mem} {s : State Tid Mem Mutex Cond}

theorem CarefullyReaches.pending (hcode : Disciplined code)
    (h : CarefullyReaches (start code mem) s) : Placed code s ∧ Pending code s := by
  induction h with
  | refl => exact ⟨placed_start, pending_start⟩
  | tail _ hstep ih =>
      exact ⟨ih.1.step hcode hstep.1, ih.2.step hcode ih.1 hstep.1 hstep.2⟩

/-- In careful runs of disciplined programs no wake-up is lost. -/
theorem not_lostWakeup (hcode : Disciplined code) (h : CarefullyReaches (start code mem) s) :
    ¬ LostWakeup s := by
  rintro ⟨t, ready, m, c, r, hasleep, hready, hnever⟩
  rcases h.pending hcode with ⟨hplaced, hpending⟩
  rcases hpending t ready m c r hasleep hready with ⟨u, hut, r', hu, hnotifies⟩
  rcases hnotifies with ⟨r₁, rfl⟩ | ⟨⟨r₁, rfl⟩, husers⟩
  · exact hnever s .refl u hut r₁ hu
  · have hfree := hplaced.free hasleep hu husers
    have hmove : Moves u s.mem s.owner (s.thread u) s.mem (Function.update s.owner m (some u))
        ⟨.notify c :: r₁, .run⟩ := by
      rw [hu]
      exact .lock hfree
    apply hnever _ (.single (.own hmove)) u hut r₁
    exact Function.update_self _ _ _

/-- Runs, step by step. -/
theorem Reaches.own {s₀ : State Tid Mem Mutex Cond} (hreach : Reaches s₀ s) (t : Tid)
    {th th' : Thread Mem Mutex Cond} {mem' : Mem} {owner : Mutex → Option Tid}
    (ht : s.thread t = th) (hmove : Moves t s.mem s.owner th mem' owner th') :
    Reaches s₀ ⟨mem', owner, Function.update s.thread t th'⟩ :=
  hreach.tail (.own (ht ▸ hmove))

/-- A step of a thread that does not hold a mutex in front of a wait. -/
theorem CarefullyReaches.own {s₀ : State Tid Mem Mutex Cond} (hreach : CarefullyReaches s₀ s)
    (t : Tid) {th th' : Thread Mem Mutex Cond} {mem' : Mem} {owner : Mutex → Option Tid}
    (ht : s.thread t = th) (hmove : Moves t s.mem s.owner th mem' owner th')
    (hearly : ∀ u, (s.thread u).phase ≠ .holding) :
    CarefullyReaches s₀ ⟨mem', owner, Function.update s.thread t th'⟩ := by
  refine hreach.tail ⟨.own (ht ▸ hmove), ?_⟩
  intro u ready m c r hu
  apply absurd _ (hearly u)
  rw [hu]

/-- A thread goes to sleep on a condition that is false. -/
theorem CarefullyReaches.sleep {s₀ : State Tid Mem Mutex Cond} (hreach : CarefullyReaches s₀ s)
    (t : Tid) {ready : Mem → Bool} {m : Mutex} {c : Cond} {r : List (Instr Mem Mutex Cond)}
    (ht : s.thread t = ⟨.await ready m c :: r, .holding⟩) (hfalse : ready s.mem = false)
    (hothers : ∀ u, u = t ∨ (s.thread u).phase ≠ .holding) :
    CarefullyReaches s₀ ⟨s.mem, Function.update s.owner m none,
      Function.update s.thread t ⟨.await ready m c :: r, .asleep⟩⟩ := by
  refine hreach.tail ⟨.own (ht ▸ .sleep), ?_⟩
  intro u ready' m' c' r' hu _
  rcases hothers u with rfl | hphase
  · rw [ht] at hu
    cases hu
    exact hfalse
  · apply absurd _ hphase
    rw [hu]

theorem Reaches.notifyNone {s₀ : State Tid Mem Mutex Cond} (hreach : Reaches s₀ s) (t : Tid)
    {c : Cond} {r : List (Instr Mem Mutex Cond)} (ht : s.thread t = ⟨.notify c :: r, .run⟩)
    (hnone : ∀ u, (s.thread u).phase ≠ .asleep) :
    Reaches s₀ ⟨s.mem, s.owner, Function.update s.thread t ⟨r, .run⟩⟩ := by
  apply hreach.tail (.notifyNone ht _)
  rintro u ⟨ready, m, r', hu⟩
  apply hnone u
  rw [hu]

/-- A thread that sleeps on a condition that holds, when no other one has a notification left. -/
theorem lostWakeup_of_not_mem {t : Tid} {ready : Mem → Bool} {m : Mutex} {c : Cond}
    {r : List (Instr Mem Mutex Cond)} (ht : s.thread t = ⟨.await ready m c :: r, .asleep⟩)
    (hready : ready s.mem = true) (hsilent : ∀ u ≠ t, .notify c ∉ (s.thread u).rest) :
    LostWakeup s := by
  refine ⟨t, ready, m, c, r, ht, hready, fun s' hreach u hu r' heq => ?_⟩
  apply hsilent u hu
  apply (hreach.suffix u).subset
  rw [heq]
  exact List.mem_cons_self

end Runs

end CondVar
