import CoRD.Network.Semantics

/-!
# Stuck — programs that wait for a message nobody sends

A stuck program sends requests only, and then waits at a mailbox other than the job mailbox.  When
the root's first program is stuck and so is every program it asks for, those mailboxes stay empty,
so no host gets to the end of what it has begun, and no store changes (`AllStuck.of_runs`).
-/

namespace MsgNet

variable {Host Chan Msg Store Err : Type}

/-- The program sends requests that satisfy `ok`, and waits elsewhere. -/
def Stuck (job : Chan) (ok : Host → Msg → Prop) : Proc Host Chan Msg Store Err → Prop
  | .done => False
  | .abort _ => True
  | .send dst c m next => c = job ∧ ok dst m ∧ Stuck job ok next
  | .recv c _ => c ≠ job
  | .load next => ∀ σ, Stuck job ok (next σ)
  | .save _ _ => False

variable {job : Chan} {ok : Host → Msg → Prop}

theorem stuck_sendAll {l : List (Host × Chan × Msg)} {next : Proc Host Chan Msg Store Err}
    (hl : ∀ x ∈ l, x.2.1 = job ∧ ok x.1 x.2.2) (hnext : Stuck job ok next) :
    Stuck job ok (.sendAll l next) := by
  induction l with
  | nil =>
      exact hnext
  | cons x l ih =>
      have hx := hl x (by simp)
      exact ⟨hx.1, hx.2, ih fun y hy => hl y (List.mem_cons_of_mem _ hy)⟩

theorem stuck_popUntil {A : Type} {c : Chan} (hc : c ≠ job) (never : Err) (f : A → Msg → A)
    (next : A → Proc Host Chan Msg Store Err) (n : Nat) (acc : A) :
    Stuck job ok (.popUntil c never f next n acc) := by
  cases n with
  | zero =>
      exact hc
  | succ n =>
      rw [Proc.popUntil, if_neg n.succ_ne_zero]
      exact hc

variable [DecidableEq Host] [DecidableEq Chan] {N : Network Host Chan Msg Store Err}
  {s s' : State Host Chan Msg Store Err}

/-- Nothing but requests in the mailboxes, no program that could end, and the stores of the start. -/
structure AllStuck (N : Network Host Chan Msg Store Err) (ok : Host → Msg → Prop)
    (store : Host → Store) (s : State Host Chan Msg Store Err) : Prop where
  box : ∀ h c, c ≠ N.job → s.box h c = []
  jobs : ∀ h, ∀ pk ∈ s.box h N.job, ok h pk.msg
  procs : ∀ h, (s.proc h = .done ∧ s.round h = 0 ∧ (h = N.root → s.started = 0)) ∨
    Stuck N.job ok (s.proc h)
  stores : s.store = store

namespace AllStuck

variable {store : Host → Store}

omit [DecidableEq Chan] in
/-- A step that only moves `h` on to another stuck program. -/
theorem of_setProc (A : AllStuck N ok store s) {h : Host} {p : Proc Host Chan Msg Store Err}
    (hp : Stuck N.job ok p) (hproc : s'.proc = Function.update s.proc h p)
    (hstore : s'.store = s.store) (hround : ∀ h', h' ≠ h → s'.round h' = s.round h')
    (hstarted : h = N.root ∨ s'.started = s.started)
    (hbox : ∀ h' c, c ≠ N.job → s'.box h' c = [])
    (hjobs : ∀ h', ∀ pk ∈ s'.box h' N.job, ok h' pk.msg) : AllStuck N ok store s' := by
  refine ⟨hbox, hjobs, fun h' => ?_, hstore.trans A.stores⟩
  rw [hproc]
  by_cases hh : h' = h
  · subst hh
    exact Or.inr (by simpa using hp)
  · rw [Function.update_of_ne hh, hround h' hh]
    refine (A.procs h').imp_left fun hd => ⟨hd.1, hd.2.1, fun hroot => ?_⟩
    rcases hstarted with hroot' | hs
    · exact absurd (hroot.trans hroot'.symm) hh
    · rw [hs]
      exact hd.2.2 hroot

theorem step (A : AllStuck N ok store s) (hprog : ∀ p, N.prog 0 = some p → Stuck N.job ok p)
    (hserve : ∀ h m, ok h m → Stuck N.job ok (N.serve h m)) {h : Host} {e : Event Host Chan Msg}
    (hstep : Step N h s e s') : AllStuck N ok store s' := by
  have hproc := A.procs h
  cases hstep with
  | next hdone hsome =>
      rcases hproc with hd | hstuck
      · rw [hd.2.2 rfl] at hsome
        refine A.of_setProc (hprog _ hsome) rfl rfl (fun h' hh => ?_) (Or.inl rfl) A.box A.jobs
        simp [hh]
      · rw [hdone] at hstuck
        exact hstuck.elim
  -- a request that was sent is served by a program that is stuck in turn
  | @serve _ _ pk ps hroot hdone hpk =>
      have hok : ok h pk.msg := A.jobs h pk (by simp [hpk])
      refine A.of_setProc (hserve h pk.msg hok) rfl rfl (fun h' hh => ?_) (Or.inr rfl)
        (fun h' c hc => ?_) fun h' pk' hpk' => ?_
      · simp [hh]
      · have hsame : ¬ (h' = h ∧ c = N.job) := fun hx => hc hx.2
        simpa [State.setBox_box, hsame] using A.box h' c hc
      · simp only [State.setRound, State.setProc, State.setBox_box, and_true] at hpk'
        by_cases hh : h' = h
        · subst hh
          rw [if_pos rfl] at hpk'
          exact A.jobs h' pk' (by simp [hpk, hpk'])
        · rw [if_neg hh] at hpk'
          exact A.jobs h' pk' hpk'
  | @send _ _ dst c m p hsend =>
      rcases hproc with hd | hstuck
      · rw [hsend] at hd
        exact absurd hd.1 nofun
      · rw [hsend] at hstuck
        obtain ⟨hc, hok, hp⟩ := hstuck
        subst hc
        refine A.of_setProc hp rfl rfl (fun _ _ => rfl) (Or.inr rfl) (fun h' c' hc' => ?_)
          fun h' pk' hpk' => ?_
        · have hsame : ¬ (h' = dst ∧ c' = N.job) := fun hx => hc' hx.2
          simpa [State.push_box, hsame] using A.box h' c' hc'
        · rw [State.push_box] at hpk'
          by_cases hh : h' = dst
          · subst hh
            rw [if_pos ⟨rfl, rfl⟩] at hpk'
            rcases List.mem_append.1 hpk' with hpk' | hpk'
            · exact A.jobs h' pk' hpk'
            · rw [List.mem_singleton.1 hpk']
              exact hok
          · rw [if_neg fun hx => hh hx.1] at hpk'
            exact A.jobs h' pk' hpk'
  | recv hrecv hpk =>
      rcases hproc with hd | hstuck
      · rw [hrecv] at hd
        exact absurd hd.1 nofun
      · rw [hrecv] at hstuck
        rw [A.box h _ hstuck] at hpk
        cases hpk
  | load hload =>
      rcases hproc with hd | hstuck
      · rw [hload] at hd
        exact absurd hd.1 nofun
      · rw [hload] at hstuck
        exact A.of_setProc (hstuck _) rfl rfl (fun _ _ => rfl) (Or.inr rfl) A.box A.jobs
  | save hsave =>
      rcases hproc with hd | hstuck
      · rw [hsave] at hd
        exact absurd hd.1 nofun
      · rw [hsave] at hstuck
        exact hstuck.elim

theorem of_runs (hprog : ∀ p, N.prog 0 = some p → Stuck N.job ok p)
    (hserve : ∀ h m, ok h m → Stuck N.job ok (N.serve h m)) {es : List (Event Host Chan Msg)}
    (hr : Runs N (State.init store) es s) : AllStuck N ok store s := by
  have hinit : AllStuck N ok store (State.init store) :=
    { box := fun _ _ _ => rfl
      jobs := fun _ _ hpk => absurd hpk List.not_mem_nil
      procs := fun _ => Or.inl ⟨rfl, rfl, fun _ => rfl⟩
      stores := rfl }
  exact hr.invariant (I := fun _ s => AllStuck N ok store s) hinit
    fun _ _ _ _ _ _ A hstep => A.step hprog hserve hstep

omit [DecidableEq Host] [DecidableEq Chan] in
/-- A host without a program has not begun any. -/
theorem not_begun (A : AllStuck N ok store s) {h : Host} (hdone : s.proc h = .done) :
    s.round h = 0 ∧ (h = N.root → s.started = 0) := by
  rcases A.procs h with hd | hstuck
  · exact hd.2
  · rw [hdone] at hstuck
    exact hstuck.elim

end AllStuck

end MsgNet
