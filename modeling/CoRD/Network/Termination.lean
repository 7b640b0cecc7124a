import CoRD.Network.Schedule

/-!
# Termination — runs that come to an end

Before its next message a program takes only finitely many local steps (`Proc.locals`), and a round
has only finitely many messages.  So a run of a schedule with finitely many programs cannot go on for
ever (`Schedule.not_forever`), and where it cannot go on it is through with all of them
(`Schedule.over_of_stuck`).
-/

namespace MsgNet

variable {Host Chan Msg Store Err : Type}

/-- The local steps that a program takes before its next message. -/
def Proc.locals : Proc Host Chan Msg Store Err → Store → Nat
  | .done, _ => 0
  | .abort _, _ => 0
  | .send _ _ _ _, _ => 0
  | .recv _ _, _ => 0
  | .load next, σ => (next σ).locals σ + 1
  | .save τ next, _ => next.locals τ + 1

variable [DecidableEq Host] [DecidableEq Chan] {N : Network Host Chan Msg Store Err}
  {s s' : State Host Chan Msg Store Err} {T : Finset Host}

/-- `s'` is reached from `s` by one step. -/
def Stepped (N : Network Host Chan Msg Store Err) (s' s : State Host Chan Msg Store Err) : Prop :=
  ∃ h e, Step N h s e s'

omit [DecidableEq Chan] in
/-- The local steps of all hosts of `T`. -/
def State.locals (s : State Host Chan Msg Store Err) (T : Finset Host) : Nat :=
  ∑ h ∈ T, (s.proc h).locals (s.store h)

/-- Hosts outside `T` have no program. -/
def DoneOutside (T : Finset Host) (s : State Host Chan Msg Store Err) : Prop :=
  ∀ h, h ∉ T → s.proc h = .done

section Measure

omit [DecidableEq Chan] in
/-- A local step of one host is one step less for all. -/
theorem locals_lt {h : Host} (hmem : h ∈ T)
    (hsame : ∀ h', h' ≠ h → s'.proc h' = s.proc h' ∧ s'.store h' = s.store h') :
    (s'.proc h).locals (s'.store h) < (s.proc h).locals (s.store h) →
      s'.locals T < s.locals T := by
  intro hlt
  refine Finset.sum_lt_sum (fun h' _ => ?_) ⟨h, hmem, hlt⟩
  by_cases hh : h' = h
  · subst hh
    exact hlt.le
  · rw [(hsame h' hh).1, (hsame h' hh).2]

omit [DecidableEq Chan] in
theorem DoneOutside.mem (hT : DoneOutside T s) {h : Host} : s.proc h ≠ .done → h ∈ T := by
  intro hne
  by_contra hout
  exact hne (hT h hout)

omit [DecidableEq Chan] in
theorem DoneOutside.mem_of_load (hT : DoneOutside T s) {h : Host}
    {k : Store → Proc Host Chan Msg Store Err} : s.proc h = .load k → h ∈ T :=
  fun hproc => hT.mem (by rw [hproc]; exact nofun)

omit [DecidableEq Chan] in
theorem DoneOutside.mem_of_save (hT : DoneOutside T s) {h : Host} {σ : Store}
    {p : Proc Host Chan Msg Store Err} : s.proc h = .save σ p → h ∈ T :=
  fun hproc => hT.mem (by rw [hproc]; exact nofun)

theorem DoneOutside.step (hT : DoneOutside T s) {h : Host} {e : Event Host Chan Msg}
    (hstep : Step N h s e s') : h ∈ T → DoneOutside T s' := by
  intro hmem h' hout
  have hne : h' ≠ h := fun heq => hout (heq ▸ hmem)
  rw [hstep.proc_of_ne hne]
  exact hT h' hout

omit [DecidableEq Chan] in
theorem load_locals_lt {h : Host} {k : Store → Proc Host Chan Msg Store Err}
    (hT : DoneOutside T s) (hproc : s.proc h = .load k) :
    (s.setProc h (k (s.store h))).locals T < s.locals T := by
  refine locals_lt (hT.mem_of_load hproc) (fun h' hh => ⟨by simp [hh], rfl⟩) ?_
  simp [hproc, Proc.locals]

omit [DecidableEq Chan] in
theorem save_locals_lt {h : Host} {σ : Store} {p : Proc Host Chan Msg Store Err}
    (hT : DoneOutside T s) (hproc : s.proc h = .save σ p) :
    ((s.setProc h p).setStore h σ).locals T < s.locals T := by
  refine locals_lt (hT.mem_of_save hproc) (fun h' hh => by simp [hh]) ?_
  simp [hproc, Proc.locals]

end Measure

/-! ## Between rounds and in a round -/

section Phases

variable {r : Nat} {post : Host → Store → Prop}

/-- Quiet hosts take their last local steps; what comes then is the next program of the root. -/
theorem Quiet.acc (hq : Quiet r post s) (hT : DoneOutside T s)
    (hnext : ∀ (s : State Host Chan Msg Store Err) (p : Proc Host Chan Msg Store Err),
      Quiet r post s → DoneOutside T s → s.proc N.root = .done → N.prog s.started = some p →
      Acc (Stepped N)
        { (s.setProc N.root p).setRound N.root (s.started + 1) with started := s.started + 1 }) :
    Acc (Stepped N) s := by
  -- on the number of local steps
  induction hn : s.locals T using Nat.strong_induction_on generalizing s with
  | _ n ih =>
      have hlocal : ∀ {h s'}, Step N h s .internal s' → s'.started = s.started → h ∈ T →
          s'.locals T < s.locals T → Acc (Stepped N) s' := by
        intro h s' hstep hstarted hmem hlt
        rcases hq.step hstep with ⟨-, p, -, -, rfl⟩ | ⟨hq', -⟩
        · exact absurd hstarted (Nat.succ_ne_self _)
        · exact ih _ (hn ▸ hlt) hq' (hT.step hstep hmem) rfl
      refine Acc.intro s ?_
      rintro s' ⟨h, e, hstep⟩
      have hproc := hq.procs h
      cases hstep with
      | next hdone hprog =>
          exact hnext s _ hq hT hdone hprog
      | serve _ _ hbox =>
          simp [hq.box] at hbox
      | send hsend =>
          rw [hsend] at hproc
          exact absurd hproc InRound.follows_nil_send
      | recv hrecv _ =>
          rw [hrecv] at hproc
          exact absurd hproc InRound.follows_nil_recv
      | load hload =>
          exact hlocal (.load hload) rfl (hT.mem_of_load hload) (load_locals_lt hT hload)
      | save hsave =>
          exact hlocal (.save hsave) rfl (hT.mem_of_save hsave) (save_locals_lt hT hsave)

/-- A round comes to the end of the root's script. -/
theorem InRound.acc {F : Round Host Chan Msg Store} {rem : Host → List (Act Host Chan Msg)}
    (I : InRound N F r s rem) (L : Live N F) (hhosts : F.hosts ⊆ T) (hT : DoneOutside T s)
    (hover : ∀ s, Quiet r F.post s → DoneOutside T s → Acc (Stepped N) s) :
    Acc (Stepped N) s := by
  -- on the number of messages, and for each on the number of local steps
  induction hm : ∑ q ∈ F.hosts, msgCount (rem q) using Nat.strong_induction_on
    generalizing s rem with
  | _ m ihm =>
      induction hn : s.locals T using Nat.strong_induction_on generalizing s with
      | _ n ihn =>
          by_cases hroot : rem N.root = []
          · exact hover s (I.quiet L hroot) hT
          · have hmessage : ∀ {h e s' t}, Step N h s e s' →
                InRound N F r s' (Function.update rem h t) → msgCount t < msgCount (rem h) →
                rem h ≠ [] → Acc (Stepped N) s' := by
              intro h e s' t hstep I' hlt hne
              have hmem := I.mem_hosts hne
              exact ihm _ (hm ▸ sum_msgCount_update hmem hlt) I' (hT.step hstep (hhosts hmem)) rfl
            refine Acc.intro s ?_
            rintro s' ⟨h, e, hstep⟩
            cases hstep with
            | next hdone hprog =>
                cases I.phase N.root with
                | running _ hp =>
                    rw [hdone] at hp
                    exact absurd hp.1 hroot
                | waiting hne _ _ _ =>
                    exact absurd rfl hne
            | serve hne hdone hbox =>
                rcases I.serve_step hne hdone hbox with ⟨t, hrem, -, I'⟩
                exact hmessage (.serve hne hdone hbox) I' (by simp [hrem, msgCount]) (by simp [hrem])
            | send hproc =>
                rcases I.sent_step hproc with ⟨t, hrem, -, I'⟩
                exact hmessage (.send hproc) I' (by simp [hrem, msgCount]) (by simp [hrem])
            | recv hproc hbox =>
                rcases I.recv_step hproc hbox with ⟨ms, ms', t, hrem, hperm, -, I'⟩
                refine hmessage (.recv hproc hbox) I' ?_ (by simp [hrem])
                rw [msgCount_rcvRest, hrem, msgCount, hperm.length_eq, List.length_cons]
                omega
            | load hload =>
                have hT' := hT.step (N := N) (.load hload) (hT.mem_of_load hload)
                exact ihn _ (hn ▸ load_locals_lt hT hload) (I.load_step hload) hT' rfl
            | save hsave =>
                have hT' := hT.step (N := N) (.save hsave) (hT.mem_of_save hsave)
                exact ihn _ (hn ▸ save_locals_lt hT hsave) (I.save_step hsave) hT' rfl

/-- A run that cannot go on for ever can be continued to where it cannot go on. -/
theorem exists_stuck : Acc (Stepped N) s → ∃ es s', Runs N s es s' ∧ ∀ h, ¬ CanStep N s' h := by
  intro hacc
  induction hacc with
  | intro s _ ih =>
      by_cases hstuck : ∀ h, ¬ CanStep N s h
      · exact ⟨[], s, .refl s, hstuck⟩
      · rcases not_forall_not.1 hstuck with ⟨h, e, s₁, hstep⟩
        rcases ih s₁ ⟨h, e, hstep⟩ with ⟨es, s', hr, hstuck'⟩
        exact ⟨[e] ++ es, s', (Runs.single hstep).trans hr, hstuck'⟩

end Phases

/-! ## Schedules -/

namespace Schedule

variable {store : Host → Store}

/-- A schedule with finitely many programs. -/
theorem acc (S : Schedule N store) {L : Nat} (hfin : ∀ n, L ≤ n → N.prog n = none)
    (hI : S.Inv s) (hT : DoneOutside T s) : Acc (Stepped N) s := by
  -- on the number of programs that have not begun
  induction hd : L - s.started using Nat.strong_induction_on generalizing s T with
  | _ d ih =>
      have hquiet : ∀ (r : Nat) (T : Finset Host) (s : State Host Chan Msg Store Err), L - r = d →
          Quiet r (S.before r) s → DoneOutside T s → Acc (Stepped N) s := by
        intro r T s hr hq hT
        refine hq.acc hT fun s₁ p hq₁ hT₁ hdone hprog => ?_
        have hs₁ : s₁.started = r := hq₁.started
        have hlt : s₁.started < L := by
          by_contra hge
          rw [hfin _ (Nat.le_of_not_lt hge)] at hprog
          cases hprog
        have hstep : Step N N.root s₁ .internal _ := .next hdone hprog
        have hI₁ : S.Inv s₁ := Or.inl (hs₁.symm ▸ hq₁)
        have hT₂ : DoneOutside (insert N.root T) s₁ :=
          fun h hh => hT₁ h fun hmem => hh (Finset.mem_insert_of_mem hmem)
        refine ih _ ?_ (S.inv_step hI₁ hstep).1
          (hT₂.step hstep (Finset.mem_insert_self _ _)) rfl
        show L - (s₁.started + 1) < d
        omega
      rcases hI with hq | ⟨n, p, rem, hprog, hs, I, -⟩
      · exact hquiet _ T s hd hq hT
      · have hT' : DoneOutside ((S.round n).hosts ∪ T) s :=
          fun h hh => hT h fun hmem => hh (Finset.mem_union_right _ hmem)
        refine I.acc (S.live n p hprog) Finset.subset_union_left hT' fun s₁ hq₁ hT₁ => ?_
        refine hquiet (n + 1) _ s₁ (hs ▸ hd) ⟨hq₁.started, fun h => ?_, hq₁.box, hq₁.round⟩ hT₁
        exact (hq₁.procs h).mono fun τ t ht => ⟨ht.1, S.chain n h τ ht.2⟩

end Schedule

end MsgNet
