import CoRD.Network.History
import CoRD.Network.Progress

/-!
# Schedule — one round after the other

A schedule gives every program of the root a live round whose scripts fit the stores the round
before ends with.  In every reachable state either a round is running or the hosts are *quiet*: no
mailbox holds a message and no program has one left to exchange (`Schedule.reach`).  The root
begins a program only when its last one is done, and then the hosts are quiet, so no message
outlives its round.
-/

namespace MsgNet

variable {Host Chan Msg Store Err : Type} [DecidableEq Host] [DecidableEq Chan]

/-- Between two rounds: nothing left to exchange; what the programs still do ends in `post`. -/
structure Quiet (r : Nat) (post : Host → Store → Prop) (s : State Host Chan Msg Store Err) :
    Prop where
  started : s.started = r
  procs : ∀ h, Follows (fun τ (t : List (Act Host Chan Msg)) => t = [] ∧ post h τ)
    (s.proc h) (s.store h) []
  box : ∀ h c, s.box h c = []
  round : ∀ h, s.round h ≤ r

variable {N : Network Host Chan Msg Store Err} {r : Nat} {post : Host → Store → Prop}
  {s s' : State Host Chan Msg Store Err}

namespace Quiet

omit [DecidableEq Host] [DecidableEq Chan] in
theorem init (store : Host → Store) (hpost : ∀ h, post h (store h)) :
    Quiet 0 post (State.init store : State Host Chan Msg Store Err) :=
  { started := rfl
    procs := fun h => ⟨rfl, hpost h⟩
    box := fun _ _ => rfl
    round := fun _ => le_rfl }

/-- The root begins its next program, for a round whose scripts fit the stores. -/
theorem next (hq : Quiet r post s) {F : Round Host Chan Msg Store}
    {p : Proc Host Chan Msg Store Err} (hdone : s.proc N.root = .done)
    (hroot : ∀ τ, post N.root τ → Follows (F.Ends N.root) p τ (F.plan N.root))
    (hready : ∀ h, h ≠ N.root → ∀ τ, post h τ → F.Ready N h τ) :
    InRound N F (r + 1)
      { (s.setProc N.root p).setRound N.root (s.started + 1) with started := s.started + 1 }
      F.plan := by
  have hs := hq.started
  refine ⟨by simp [hs], by simp [hs], fun h => ?_, fun _ => .refl, fun h c => ?_, fun h c pk hpk => ?_⟩
  · by_cases hh : h = N.root
    · subst hh
      have hproc := hq.procs N.root
      rw [hdone] at hproc
      simpa [hs] using Phase.running (N := N) rfl (hroot _ hproc.2)
    · have hw : Follows (fun τ t => t = [] ∧ F.Ready N h τ) (s.proc h) (s.store h) [] :=
        (hq.procs h).mono fun τ t ht => ⟨ht.1, hready h hh τ ht.2⟩
      have hrd : s.round h < r + 1 := Nat.lt_succ_of_le (hq.round h)
      simpa [hh] using Phase.waiting hh hrd rfl hw
  · have hbox := hq.box h c
    simp only [State.setProc, State.setRound, hbox, List.map_nil, Multiset.coe_nil, zero_add]
    exact F.balanced h c
  · have hbox := hq.box h c
    simp [hbox] at hpk

/-- Quiet hosts stay quiet until the root begins a program. -/
theorem step (hq : Quiet r post s) {h : Host} {e : Event Host Chan Msg} (hstep : Step N h s e s') :
    (e = .internal ∧ ∃ p, s.proc N.root = .done ∧ N.prog s.started = some p ∧
      s' = { (s.setProc N.root p).setRound N.root (s.started + 1) with started := s.started + 1 }) ∨
      (Quiet r post s' ∧ e = .internal) := by
  have hproc := hq.procs h
  cases hstep with
  | next hdone hprog =>
      exact Or.inl ⟨rfl, _, hdone, hprog, rfl⟩
  | serve _ _ hbox =>
      simp [hq.box] at hbox
  | send hsend =>
      rw [hsend] at hproc
      exact absurd hproc InRound.follows_nil_send
  | recv hrecv _ =>
      rw [hrecv] at hproc
      exact absurd hproc InRound.follows_nil_recv
  | @load _ _ k hload =>
      rw [hload] at hproc
      refine Or.inr ⟨⟨hq.started, fun h' => ?_, hq.box, hq.round⟩, rfl⟩
      by_cases hh : h' = h
      · subst hh
        have hk : Follows _ (k (s.store h')) (s.store h') [] := hproc
        simpa using hk
      · simpa [hh] using hq.procs h'
  | @save _ _ σ p hsave =>
      rw [hsave] at hproc
      refine Or.inr ⟨⟨hq.started, fun h' => ?_, hq.box, hq.round⟩, rfl⟩
      by_cases hh : h' = h
      · subst hh
        have hp : Follows _ p σ [] := hproc
        simpa using hp
      · simpa [hh] using hq.procs h'

end Quiet

/-- Once the root's script is over the hosts are quiet. -/
theorem InRound.quiet {F : Round Host Chan Msg Store} {rem : Host → List (Act Host Chan Msg)}
    (I : InRound N F r s rem) (L : Live N F) (hroot : rem N.root = []) : Quiet r F.post s := by
  have hover := I.over_of_root L hroot
  refine ⟨I.started, fun h => ?_, fun h c => I.box_nil (hover h) c, fun h => ?_⟩
  · have hphase := I.phase h
    rw [hover h] at hphase
    cases hphase with
    | running _ hp =>
        exact hp
    | waiting _ _ hs hp =>
        refine hp.mono fun τ t ht => ⟨ht.1, ?_⟩
        rcases ht.2 with ⟨_, hpost⟩ | ⟨m, t', hplan, _⟩
        · exact hpost
        · rw [hplan] at hs
          cases hs
  · cases I.phase h with
    | running hrd _ =>
        exact hrd.le
    | waiting _ hrd _ _ =>
        exact hrd.le

/-- A round for every program of the root, each fitting the stores the one before leaves. -/
structure Schedule (N : Network Host Chan Msg Store Err) (store : Host → Store) where
  round : Nat → Round Host Chan Msg Store
  before : Nat → Host → Store → Prop
  live : ∀ n p, N.prog n = some p → Live N (round n)
  first : ∀ h, before 0 h (store h)
  chain : ∀ n h τ, (round n).post h τ → before (n + 1) h τ
  root : ∀ n p, N.prog n = some p → ∀ τ, before n N.root τ →
    Follows ((round n).Ends N.root) p τ ((round n).plan N.root)
  ready : ∀ n p, N.prog n = some p → ∀ h, h ≠ N.root → ∀ τ, before n h τ → (round n).Ready N h τ

namespace Schedule

variable {store : Host → Store}

/-- What holds between the steps of a run: the hosts are quiet, or round `n`, of an existing
program, is running and the root is not through it. -/
def Inv (S : Schedule N store) (s : State Host Chan Msg Store Err) : Prop :=
  Quiet s.started (S.before s.started) s ∨
    ∃ n p rem, N.prog n = some p ∧ s.started = n + 1 ∧ InRound N (S.round n) (n + 1) s rem ∧
      rem N.root ≠ []

theorem inv_of_inRound (S : Schedule N store) {n : Nat} {p : Proc Host Chan Msg Store Err}
    {rem : Host → List (Act Host Chan Msg)} (hprog : N.prog n = some p)
    (I : InRound N (S.round n) (n + 1) s rem) : S.Inv s := by
  by_cases hroot : rem N.root = []
  · have hq := I.quiet (S.live n p hprog) hroot
    have hs : s.started = n + 1 := I.started
    refine Or.inl ⟨rfl, fun h => ?_, hq.box, fun h => ?_⟩
    · rw [hs]
      exact (hq.procs h).mono fun τ t ht => ⟨ht.1, S.chain n h τ ht.2⟩
    · rw [hs]
      exact hq.round h
  · exact Or.inr ⟨n, p, rem, hprog, I.started, I, hroot⟩

theorem inv_step (S : Schedule N store) (hI : S.Inv s) {h : Host} {e : Event Host Chan Msg}
    (hstep : Step N h s e s') : S.Inv s' ∧ ∃ r, e.InRound r := by
  rcases hI with hq | ⟨n, p, rem, hprog, hs, I, hroot⟩
  · rcases hq.step hstep with ⟨rfl, p, hdone, hprog, rfl⟩ | ⟨hq', rfl⟩
    · have I := hq.next (F := S.round s.started) hdone (S.root _ p hprog) (S.ready _ p hprog)
      exact ⟨S.inv_of_inRound hprog I, 0, trivial⟩
    · refine ⟨Or.inl ?_, 0, trivial⟩
      have hs := hq'.started
      rw [hs]
      exact hq'
  · rcases I.step hstep with ⟨_, hdone⟩ | ⟨⟨rem', I'⟩, he⟩
    · exfalso
      cases I.phase N.root with
      | running _ hp =>
          rw [hdone] at hp
          exact hroot hp.1
      | waiting hne _ _ _ =>
          exact hne rfl
    · exact ⟨S.inv_of_inRound hprog I', n + 1, he⟩

/-- Every reachable state is quiet or in a round, and every event of a run belongs to a round. -/
theorem reach (S : Schedule N store) {es : List (Event Host Chan Msg)}
    (hr : Runs N (State.init store) es s) : S.Inv s ∧ ∀ e ∈ es, ∃ r, e.InRound r := by
  refine hr.invariant (I := fun es s => S.Inv s ∧ ∀ e ∈ es, ∃ r, e.InRound r) ?_ ?_
  · exact ⟨Or.inl (Quiet.init store S.first), by simp⟩
  · intro es s₁ e s₂ h _ hI hstep
    rcases S.inv_step hI.1 hstep with ⟨hI', he⟩
    refine ⟨hI', fun e' he' => ?_⟩
    rcases List.mem_append.1 he' with hmem | hmem
    · exact hI.2 e' hmem
    · rw [List.mem_singleton.1 hmem]
      exact he

/-- When the root's program is done, the hosts are quiet. -/
theorem quiet_of_done (S : Schedule N store) {es : List (Event Host Chan Msg)}
    (hr : Runs N (State.init store) es s) (hdone : s.proc N.root = .done) :
    Quiet s.started (S.before s.started) s := by
  rcases (S.reach hr).1 with hq | ⟨n, p, rem, _, _, I, hroot⟩
  · exact hq
  · exfalso
    cases I.phase N.root with
    | running _ hp =>
        rw [hdone] at hp
        exact hroot hp.1
    | waiting hne _ _ _ =>
        exact hne rfl

/-- No host ever pops a message of another round. -/
theorem round_of_popped (S : Schedule N store) {es : List (Event Host Chan Msg)}
    (hr : Runs N (State.init store) es s) {h : Host} {c : Chan} {p : Packet Msg} {r : Nat}
    (hpop : .popped h c p r ∈ es) : p.round = r := by
  obtain ⟨r', hround, hr'⟩ := (S.reach hr).2 _ hpop
  rw [hround, hr']

/-- Once the root is done, every message has been popped once, from the mailbox it was sent to and
in the round it was sent in. -/
theorem popsOf_of_sent (S : Schedule N store) {es : List (Event Host Chan Msg)}
    (hr : Runs N (State.init store) es s) (hdone : s.proc N.root = .done) {src dst : Host}
    {c : Chan} {p : Packet Msg} (hsent : .sent src dst c p ∈ es) :
    popsOf p.uid es = [(dst, c, p, p.round)] := by
  rcases (History.of_runs hr).once src dst c p hsent with ⟨_, hbox⟩ | ⟨r, hpop⟩
  · rw [(S.quiet_of_done hr hdone).box dst c] at hbox
    cases hbox
  · have hmem : .popped dst c p r ∈ es := mem_popsOf (by rw [hpop]; exact List.mem_singleton_self _)
    rw [hpop, S.round_of_popped hr hmem]

/-- No program ever aborts. -/
theorem not_aborted (S : Schedule N store) {es : List (Event Host Chan Msg)}
    (hr : Runs N (State.init store) es s) (h : Host) (e : Err) : s.proc h ≠ .abort e := by
  rcases (S.reach hr).1 with hq | ⟨n, p, rem, _, _, I, _⟩
  · intro habort
    have hproc := hq.procs h
    rw [habort] at hproc
    exact hproc
  · exact I.not_aborted h e

/-- While the root waits for a message some host of the round can move. -/
theorem exists_canStep (S : Schedule N store) {es : List (Event Host Chan Msg)}
    (hr : Runs N (State.init store) es s) {c : Chan} {k : Msg → Proc Host Chan Msg Store Err}
    (hwait : s.proc N.root = .recv c k) :
    ∃ n p, N.prog n = some p ∧ s.started = n + 1 ∧ ∃ h ∈ (S.round n).hosts, CanStep N s h := by
  rcases (S.reach hr).1 with hq | ⟨n, p, rem, hprog, hs, I, hroot⟩
  · have hproc := hq.procs N.root
    rw [hwait] at hproc
    exact absurd hproc InRound.follows_nil_recv
  · exact ⟨n, p, hprog, hs, I.exists_canStep (S.live n p hprog) hroot⟩

/-- All but finitely many hosts have not begun anything. -/
theorem exists_finset_done {store : Host → Store} {es : List (Event Host Chan Msg)}
    (hr : Runs N (State.init store) es s) : ∃ T : Finset Host, ∀ h, h ∉ T → s.proc h = .done := by
  refine hr.invariant (I := fun _ s => ∃ T : Finset Host, ∀ h, h ∉ T → s.proc h = .done)
    ⟨∅, fun _ _ => rfl⟩ ?_
  rintro _ s₁ _ s₂ h _ ⟨T, hT⟩ hstep
  refine ⟨insert h T, fun h' hh' => ?_⟩
  have hne : h' ≠ h := fun heq => hh' (heq ▸ Finset.mem_insert_self h T)
  rw [hstep.proc_of_ne hne]
  exact hT h' fun hmem => hh' (Finset.mem_insert_of_mem hmem)

/-- While the root waits for a message, the round can still be completed. -/
theorem exists_completed (S : Schedule N store) {es : List (Event Host Chan Msg)}
    (hr : Runs N (State.init store) es s) {c : Chan} {k : Msg → Proc Host Chan Msg Store Err}
    (hwait : s.proc N.root = .recv c k) :
    ∃ es' s', Runs N s es' s' ∧ ∀ h, s'.proc h = .done := by
  rcases (S.reach hr).1 with hq | ⟨n, p, rem, hprog, hs, I, hroot⟩
  · have hproc := hq.procs N.root
    rw [hwait] at hproc
    exact absurd hproc InRound.follows_nil_recv
  · obtain ⟨T, hT⟩ := exists_finset_done hr
    have hsub : (S.round n).hosts ⊆ (S.round n).hosts ∪ T := Finset.subset_union_left
    have hout : ∀ h, h ∉ (S.round n).hosts ∪ T → s.proc h = .done := fun h hh =>
      hT h fun hmem => hh (Finset.mem_union_right _ hmem)
    obtain ⟨es', s', rem', hr', _, _, hdone⟩ :=
      I.exists_completed (S.live n p hprog) hsub hout
    exact ⟨es', s', hr', hdone⟩

/-- A host that has finished its part of the last round begun has the store the round leaves. -/
theorem before_of_finished (S : Schedule N store) {es : List (Event Host Chan Msg)}
    (hr : Runs N (State.init store) es s) {h : Host} (hfin : s.Finished h s.started) :
    S.before s.started h (s.store h) := by
  rcases (S.reach hr).1 with hq | ⟨n, p, rem, _, hs, I, _⟩
  · have hproc := hq.procs h
    rw [hfin.1] at hproc
    exact hproc.2
  · rw [hs]
    exact S.chain n h _ (I.post_of_finished hfin.1 (hfin.2.trans hs))

/-- A host without a part in any round keeps its store. -/
theorem store_of_idle (S : Schedule N store) {es : List (Event Host Chan Msg)}
    (hr : Runs N (State.init store) es s) {h : Host} (hdone : s.proc h = .done)
    (hidle : ∀ n, (S.round n).plan h = [])
    (hkeep : ∀ n τ, S.before n h τ → τ = store h) : s.store h = store h := by
  rcases (S.reach hr).1 with hq | ⟨n, p, rem, _, hs, I, _⟩
  · have hproc := hq.procs h
    rw [hdone] at hproc
    exact hkeep _ _ hproc.2
  · have hphase := I.phase h
    rw [hdone] at hphase
    have hpost : (S.round n).post h (s.store h) := by
      cases hphase with
      | running _ hp =>
          exact hp.2
      | waiting _ _ _ hp =>
          rcases hp.2 with hpost | ⟨m, t, hplan, _⟩
          · exact hpost.2
          · rw [hidle n] at hplan
            cases hplan
    exact hkeep _ _ (S.chain n h _ hpost)

/-- When every program is done, the stores are those the last round begun leaves. -/
theorem before_of_done (S : Schedule N store) {es : List (Event Host Chan Msg)}
    (hr : Runs N (State.init store) es s) (hdone : ∀ h, s.proc h = .done) (h : Host) :
    S.before s.started h (s.store h) := by
  have hproc := (S.quiet_of_done hr (hdone N.root)).procs h
  rw [hdone h] at hproc
  exact hproc.2

/-- The first `n` rounds can be run to their ends. -/
theorem exists_run_done (S : Schedule N store) (n : Nat) (hprogs : ∀ i < n, ∃ p, N.prog i = some p) :
    ∃ es s, Runs N (State.init store) es s ∧ s.started = n ∧ (∀ h, s.proc h = .done) ∧
      ∀ i h, n = i + 1 → (S.round i).plan h ≠ [] → s.Finished h n := by
  induction n with
  | zero =>
      exact ⟨[], State.init store, .refl _, rfl, fun _ => rfl, nofun⟩
  | succ n ih =>
      obtain ⟨es, s, hr, hs, hdone, _⟩ := ih fun i hi => hprogs i (Nat.lt_succ_of_lt hi)
      obtain ⟨p, hp⟩ := hprogs n (Nat.lt_succ_self n)
      have hq : Quiet n (S.before n) s := by
        have hquiet := S.quiet_of_done hr (hdone N.root)
        rwa [hs] at hquiet
      have hstep : Step N N.root s .internal _ := .next (hdone N.root) (by rw [hs]; exact hp)
      have I := hq.next (F := S.round n) (hdone N.root) (S.root n p hp) (S.ready n p hp)
      have hsub : (S.round n).hosts ⊆ insert N.root (S.round n).hosts := Finset.subset_insert _ _
      obtain ⟨es', s', rem', hr', I', hover, hdone'⟩ :=
        I.exists_completed (S.live n p hp) hsub fun h hh => by
          have hne : h ≠ N.root := fun heq => hh (heq ▸ Finset.mem_insert_self _ _)
          simpa [hne] using hdone h
      refine ⟨_, s', (hr.snoc hstep).trans hr', I'.started, hdone', fun i h hi hplan => ?_⟩
      cases hi
      exact ⟨hdone' h, I'.round_of_over hplan (hover h)⟩

end Schedule

/-- A host that waits at an empty mailbox cannot move. -/
theorem not_canStep_of_recv {h : Host} {c : Chan} {k : Msg → Proc Host Chan Msg Store Err}
    (hproc : s.proc h = .recv c k) (hbox : s.box h c = []) : ¬ CanStep N s h := by
  rintro ⟨e, s', hstep⟩
  cases hstep with
  | next hdone _ =>
      rw [hproc] at hdone
      cases hdone
  | serve _ hdone _ =>
      rw [hproc] at hdone
      cases hdone
  | send hsend =>
      rw [hproc] at hsend
      cases hsend
  | recv hrecv hpk =>
      rw [hproc] at hrecv
      cases hrecv
      rw [hbox] at hpk
      cases hpk
  | load hload =>
      rw [hproc] at hload
      cases hload
  | save hsave =>
      rw [hproc] at hsave
      cases hsave

end MsgNet
