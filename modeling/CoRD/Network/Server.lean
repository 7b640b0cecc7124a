import Mathlib.Data.Finset.Card
import Mathlib.Data.List.Nodup
import CoRD.Network.Lists

/-!
# Server — parties that take jobs from a list

Every host has one server.  It takes a job from the list of jobs at its host, works on it until it is
done, and takes the next one.  The jobs are in the lists from the start, and no job adds to them.

A run of the servers is also a run of parties that work on one job each, all at the same time: a job
that waits for others is one whose party does nothing yet (`Jobs.refines`).  So what holds in every
run of the parties holds in every run of the servers.  That the servers come to an end is shown along
the order of the jobs (`Jobs.Serves.all_finished`): the server of the first job that is not finished
works on it.
-/

namespace Lists

/-- How a server works on a job, and where it finds the next one. -/
structure Jobs (Job S Host Key Msg : Type) where
  step : Host → Job → S → Event Host Key Msg → S → Prop
  init : S
  Done : Job → S → Prop
  queue : Key
  msg : Job → Msg

/-- An event at another list. -/
def Event.Off {Host Key Msg : Type} (queue : Key) : Event Host Key Msg → Prop
  | .internal => True
  | .push _ k _ => k ≠ queue
  | .pop _ k _ => k ≠ queue

variable {Job S Host Key Msg : Type}

namespace Jobs

/-- One step of the server at a host. -/
inductive ServerStep (J : Jobs Job S Host Key Msg) (h : Host) :
    Option (Job × S) → Event Host Key Msg → Option (Job × S) → Prop where
  | take (j : Job) : ServerStep J h none (.pop h J.queue (J.msg j)) (some (j, J.init))
  | work {j : Job} {l l' : S} {e : Event Host Key Msg} (hstep : J.step h j l e l') :
      ServerStep J h (some (j, l)) e (some (j, l'))
  | finish {j : Job} {l : S} (hdone : J.Done j l) : ServerStep J h (some (j, l)) .internal none

/-- One server at each host. -/
def servers (J : Jobs Job S Host Key Msg) : System Host Host Key Msg where
  Loc _ := Option (Job × S)
  step := J.ServerStep

/-- One party for each job. -/
def parties (J : Jobs Job S Host Key Msg) (jobs : List (Host × Job)) :
    System Nat Host Key Msg where
  Loc _ := S
  step i l e l' := ∃ c, jobs[i]? = some c ∧ J.step c.1 c.2 l e l'

variable [DecidableEq Host] [DecidableEq Key]

/-- All jobs are in the lists of their hosts. -/
def serversStart (J : Jobs Job S Host Key Msg) (jobs : List (Host × Job)) : State J.servers where
  loc _ := none
  lists h k := if k = J.queue then (jobs.filter (·.1 = h)).map (J.msg ·.2) else []

/-- No party has done anything. -/
def partiesStart (J : Jobs Job S Host Key Msg) (jobs : List (Host × Job)) :
    State (J.parties jobs) where
  loc _ := J.init
  lists _ _ := []

/-- The jobs of a host that have not been taken, with their numbers. -/
def waiting (jobs : List (Host × Job)) (taken : Finset Nat) (h : Host) :
    List ((Host × Job) × Nat) :=
  jobs.zipIdx.filter fun q => q.1.1 = h ∧ q.2 ∉ taken

/-- The state of the servers, and that of the parties when the jobs `taken` have been taken and the
jobs `finished` are done with. -/
structure Serves (J : Jobs Job S Host Key Msg) (jobs : List (Host × Job))
    (taken finished : Finset Nat) (s : State J.servers) (s' : State (J.parties jobs)) : Prop where
  range : taken ⊆ Finset.range jobs.length
  subset : finished ⊆ taken
  queue : ∀ h, s.lists h J.queue = (waiting jobs taken h).map fun q => J.msg q.1.2
  others : ∀ h k, k ≠ J.queue → s.lists h k = s'.lists h k
  fresh : ∀ i, i ∉ taken → s'.loc i = J.init
  done : ∀ i ∈ finished, ∀ c, jobs[i]? = some c → J.Done c.2 (s'.loc i)
  current : ∀ h, (s.loc h = none ∧ ∀ i ∈ taken, ∀ j, jobs[i]? = some (h, j) → i ∈ finished) ∨
    ∃ i ∈ taken, i ∉ finished ∧ ∃ j, jobs[i]? = some (h, j) ∧ s.loc h = some (j, s'.loc i) ∧
      ∀ i' ∈ taken, i' ≠ i → ∀ j', jobs[i']? = some (h, j') → i' ∈ finished
  order : ∀ i ∈ taken, ∀ h j, jobs[i]? = some (h, j) → ∀ q ∈ waiting jobs taken h, i < q.2

/-- The servers do what the parties do, besides taking jobs and finishing them. -/
structure SameEvents (J : Jobs Job S Host Key Msg) (jobs : List (Host × Job))
    (taken finished : Finset Nat) (tr : List (Host × Event Host Key Msg))
    (tr' : List (Nat × Event Host Key Msg)) : Prop where
  pushed : ∀ h k, k ≠ J.queue → pushed h k (tr.map Prod.snd) = pushed h k (tr'.map Prod.snd)
  popped : ∀ h k, k ≠ J.queue → popped h k (tr.map Prod.snd) = popped h k (tr'.map Prod.snd)
  events : ∀ n e, (n, e) ∈ tr → e.Off J.queue → e ≠ .internal →
    ∃ i j, jobs[i]? = some (n, j) ∧ (i, e) ∈ tr'
  length : tr.length = tr'.length + taken.card + finished.card

/-! ## Lists next to the lists of jobs -/

section Off

/-- A list is written. -/
theorem update_at (lists : Host → Key → List Msg) (h' h : Host) (k' k : Key) (ms : List Msg) :
    Function.update lists h' (Function.update (lists h') k' ms) h k =
      if h = h' ∧ k = k' then ms else lists h k := by
  by_cases hh : h = h'
  · subst hh
    by_cases hk : k = k'
    · subst hk
      simp
    · simp [hk]
  · simp [hh]

/-- An event at another list, where the other lists are the same. -/
theorem apply_off {lists lists₁ lists' : Host → Key → List Msg} {e : Event Host Key Msg}
    {queue : Key} (hoff : e.Off queue) (hsame : ∀ h k, k ≠ queue → lists h k = lists' h k) :
    apply lists e lists₁ →
      (∀ h, lists₁ h queue = lists h queue) ∧
        ∃ lists₁', apply lists' e lists₁' ∧ ∀ h k, k ≠ queue → lists₁ h k = lists₁' h k := by
  intro happly
  cases e with
  | internal =>
      cases happly
      exact ⟨fun _ => rfl, lists', rfl, hsame⟩
  | push h' k' m =>
      cases happly
      refine ⟨fun h => ?_, _, rfl, fun h k hk => ?_⟩
      · rw [update_at, if_neg fun heq => hoff heq.2.symm]
      · rw [update_at, update_at, hsame h k hk, hsame h' k' hoff]
  | pop h' k' m =>
      rcases happly with ⟨ms, hms, rfl⟩
      refine ⟨fun h => ?_, _, ⟨ms, (hsame h' k' hoff).symm.trans hms, rfl⟩, fun h k hk => ?_⟩
      · rw [update_at, if_neg fun heq => hoff heq.2.symm]
      · rw [update_at, update_at, hsame h k hk]

end Off

/-! ## The jobs that wait -/

section Waiting

variable {jobs : List (Host × Job)} {taken : Finset Nat} {h : Host}

omit [DecidableEq Key] in
theorem mem_waiting {q : (Host × Job) × Nat} :
    q ∈ waiting jobs taken h ↔ jobs[q.2]? = some q.1 ∧ q.1.1 = h ∧ q.2 ∉ taken := by
  rw [waiting, List.mem_filter, List.mem_zipIdx_iff_getElem?, decide_eq_true_iff]

/-- The first job that waits is the one with the least number, and without it the others wait. -/
theorem waiting_cons {q : (Host × Job) × Nat} {qs : List ((Host × Job) × Nat)} :
    waiting jobs taken h = q :: qs →
      (∀ q' ∈ qs, q.2 < q'.2) ∧ waiting jobs (insert q.2 taken) h = qs := by
  intro heq
  have hsorted : (waiting jobs taken h).Pairwise fun q q' => q.2 < q'.2 := by
    refine List.Pairwise.filter _ (List.pairwise_map.1 ?_)
    rw [List.zipIdx_map_snd]
    exact List.pairwise_lt_range'
  rw [heq, List.pairwise_cons] at hsorted
  refine ⟨hsorted.1, ?_⟩
  have hfilter : waiting jobs (insert q.2 taken) h =
      (waiting jobs taken h).filter fun q' => q'.2 ≠ q.2 := by
    rw [waiting, waiting, List.filter_filter]
    refine List.filter_congr fun q' _ => ?_
    simp only [Finset.mem_insert, not_or, Bool.decide_and]
    cases decide (q'.1.1 = h) <;> cases decide (q'.2 ∉ taken) <;> simp
  rw [hfilter, heq, List.filter_cons_of_neg (by simp), List.filter_eq_self]
  intro q' hq'
  simpa using Nat.ne_of_gt (hsorted.1 q' hq')

theorem waiting_of_ne {i : Nat} {j : Job} {h' : Host} (hi : jobs[i]? = some (h', j)) :
    h ≠ h' → waiting jobs (insert i taken) h = waiting jobs taken h := by
  intro hne
  refine List.filter_congr fun q hq => decide_eq_decide.2 ?_
  constructor
  · exact fun hq' => ⟨hq'.1, fun hin => hq'.2 (Finset.mem_insert_of_mem hin)⟩
  · rintro ⟨hh, hnot⟩
    refine ⟨hh, fun hin => ?_⟩
    rcases Finset.mem_insert.1 hin with hsame | hin
    · rw [List.mem_zipIdx_iff_getElem?, hsame, hi] at hq
      exact hne (hh.symm.trans (congrArg Prod.fst (Option.some.inj hq)).symm)
    · exact hnot hin

end Waiting

/-! ## What the steps of the servers are -/

section Serves

variable {J : Jobs Job S Host Key Msg} {jobs : List (Host × Job)} {taken finished : Finset Nat}
  {s : State J.servers} {s' : State (J.parties jobs)}

theorem Serves.start : Serves J jobs ∅ ∅ (J.serversStart jobs) (J.partiesStart jobs) where
  range := Finset.empty_subset _
  subset := Finset.empty_subset _
  queue := by
    intro h
    have hall : (waiting jobs ∅ h).map Prod.fst = jobs.filter (·.1 = h) := by
      conv_rhs => rw [← List.zipIdx_map_fst 0 jobs, List.filter_map]
      simp only [waiting, Finset.notMem_empty, not_false_eq_true, and_true]
      rfl
    show (if J.queue = J.queue then _ else _) = _
    rw [if_pos rfl, ← hall, List.map_map]
    rfl
  others := fun _ _ hk => if_neg hk
  fresh := fun _ _ => rfl
  done := fun _ hi => absurd hi (Finset.notMem_empty _)
  current := fun _ => Or.inl ⟨rfl, fun _ hi => absurd hi (Finset.notMem_empty _)⟩
  order := fun _ hi => absurd hi (Finset.notMem_empty _)

/-- A server that has no job takes the first one that waits. -/
theorem Serves.take (hs : Serves J jobs taken finished s s') (hmsg : Function.Injective J.msg)
    {h : Host} {j : Job} {ms : List Msg} (hidle : s.loc h = none) :
    s.lists h J.queue = J.msg j :: ms →
      ∃ i, i ∉ taken ∧ Serves J jobs (insert i taken) finished
        { loc := Function.update s.loc h (some (j, J.init))
          lists := Function.update s.lists h (Function.update (s.lists h) J.queue ms) } s' := by
  intro hfront
  rw [hs.queue h] at hfront
  rcases List.map_eq_cons_iff.1 hfront with ⟨⟨⟨h₀, j₀⟩, i⟩, qs, hwaiting, hj, rfl⟩
  -- the message in front is that of the first waiting job of this host
  have hjob : j₀ = j := hmsg hj
  subst hjob
  have hfirst := mem_waiting.1 (hwaiting ▸ List.mem_cons_self)
  have hhost : h₀ = h := hfirst.2.1
  subst hhost
  have hi : jobs[i]? = some (h₀, j₀) := hfirst.1
  have hnew : i ∉ taken := hfirst.2.2
  rcases waiting_cons hwaiting with ⟨hless, hrest⟩
  have hother : ∀ {h' : Host} {j' : Job} {i' : Nat}, i' ∈ insert i taken →
      jobs[i']? = some (h', j') → h' ≠ h₀ → i' ∈ taken := by
    intro h' j' i' hin hi' hne
    rcases Finset.mem_insert.1 hin with rfl | hin
    · rw [hi] at hi'
      exact absurd (congrArg Prod.fst (Option.some.inj hi')).symm hne
    · exact hin
  refine ⟨i, hnew, ?_⟩
  constructor
  case range =>
    refine Finset.insert_subset (Finset.mem_range.2 ?_) hs.range
    exact (List.getElem?_eq_some_iff.1 hi).1
  case subset =>
    exact hs.subset.trans (Finset.subset_insert i taken)
  case queue =>
    intro h'
    show Function.update s.lists h₀ _ h' J.queue = _
    rw [update_at]
    by_cases hh : h' = h₀
    · subst hh
      rw [if_pos ⟨rfl, rfl⟩, hrest]
    · rw [if_neg fun heq => hh heq.1, hs.queue h', waiting_of_ne hi hh]
  case others =>
    intro h' k hk
    show Function.update s.lists h₀ _ h' k = _
    rw [update_at, if_neg fun heq => hk heq.2, hs.others h' k hk]
  case fresh =>
    exact fun i' hi' => hs.fresh i' fun hin => hi' (Finset.mem_insert_of_mem hin)
  case done =>
    exact hs.done
  case current =>
    intro h'
    by_cases hh : h' = h₀
    · subst hh
      refine Or.inr ⟨i, Finset.mem_insert_self i taken, fun hin => hnew (hs.subset hin), j₀, hi, ?_,
        fun i' hin hne j' hi' => ?_⟩
      · rw [hs.fresh i hnew]
        exact Function.update_self _ _ _
      · -- the server has had no job, so all others that were taken are finished
        have hin := (Finset.mem_insert.1 hin).resolve_left hne
        rcases hs.current h' with ⟨-, hall⟩ | ⟨_, _, _, _, _, hbusy, _⟩
        · exact hall i' hin j' hi'
        · rw [hidle] at hbusy
          cases hbusy
    · have hloc : Function.update s.loc h₀ (some (j₀, J.init)) h' = s.loc h' :=
        Function.update_of_ne hh _ _
      rcases hs.current h' with ⟨hnone, hall⟩ | ⟨i₁, hi₁, hnot, j₁, hj₁, hbusy, hall⟩
      · refine Or.inl ⟨hloc.trans hnone, fun i' hin j' hi' => ?_⟩
        exact hall i' (hother hin hi' hh) j' hi'
      · refine Or.inr ⟨i₁, Finset.mem_insert_of_mem hi₁, hnot, j₁, hj₁, hloc.trans hbusy,
          fun i' hin hne j' hi' => ?_⟩
        exact hall i' (hother hin hi' hh) hne j' hi'
  case order =>
    intro i' hin h' j' hi' q hq
    rcases Finset.mem_insert.1 hin with rfl | hin
    · rw [hi] at hi'
      have hh : h₀ = h' := congrArg Prod.fst (Option.some.inj hi')
      subst hh
      rw [hrest] at hq
      exact hless q hq
    · have hq' := mem_waiting.1 hq
      refine hs.order i' hin h' j' hi' q (mem_waiting.2 ⟨hq'.1, hq'.2.1, fun hin' => ?_⟩)
      exact hq'.2.2 (Finset.mem_insert_of_mem hin')

omit [DecidableEq Key] in
/-- The job that a server works on. -/
theorem Serves.exists_current (hs : Serves J jobs taken finished s s') {h : Host} {j : Job} {l : S} :
    s.loc h = some (j, l) →
      ∃ i ∈ taken, i ∉ finished ∧ jobs[i]? = some (h, j) ∧ s'.loc i = l ∧
        ∀ i' ∈ taken, i' ≠ i → ∀ j', jobs[i']? = some (h, j') → i' ∈ finished := by
  intro hloc
  rcases hs.current h with ⟨hnone, -⟩ | ⟨i, hi, hnot, j₀, hj₀, hbusy, hall⟩
  · rw [hnone] at hloc
    cases hloc
  · rw [hloc] at hbusy
    cases hbusy
    exact ⟨i, hi, hnot, hj₀, rfl, hall⟩

/-- A server that works on a job takes the step of its party. -/
theorem Serves.work (hs : Serves J jobs taken finished s s') {h : Host} {j : Job} {l l' : S}
    {e : Event Host Key Msg} {lists : Host → Key → List Msg} (hloc : s.loc h = some (j, l))
    (hstep : J.step h j l e l') (hoff : e.Off J.queue) :
    apply s.lists e lists →
      ∃ i s₁, jobs[i]? = some (h, j) ∧ Step (J.parties jobs) s' i e s₁ ∧
        Serves J jobs taken finished
          { loc := Function.update s.loc h (some (j, l')), lists := lists } s₁ := by
  intro happly
  rcases hs.exists_current hloc with ⟨i, hi, hnot, hj, rfl, hall⟩
  rcases apply_off hoff hs.others happly with ⟨hqueue, lists', happly', hsame⟩
  refine ⟨i, _, hj, .mk (l := l') ⟨_, hj, hstep⟩ happly', ?_⟩
  -- only the party of this job moves
  have hother : ∀ i', i' ≠ i → Function.update s'.loc i l' i' = s'.loc i' :=
    fun i' hne => Function.update_of_ne hne _ _
  constructor
  case range => exact hs.range
  case subset => exact hs.subset
  case queue => exact fun h' => (hqueue h').trans (hs.queue h')
  case others => exact hsame
  case fresh =>
    intro i' hi'
    refine (hother i' ?_).trans (hs.fresh i' hi')
    rintro rfl
    exact hi' hi
  case done =>
    intro i' hi' c hc
    show J.Done c.2 (Function.update s'.loc i l' i')
    rw [hother i' (by rintro rfl; exact hnot hi')]
    exact hs.done i' hi' c hc
  case current =>
    intro h'
    by_cases hh : h' = h
    · subst hh
      refine Or.inr ⟨i, hi, hnot, j, hj, ?_, hall⟩
      have hself : Function.update s'.loc i l' i = l' := Function.update_self _ _ _
      exact (Function.update_self _ _ _).trans (congrArg (fun l => some (j, l)) hself.symm)
    · have hloc' : Function.update s.loc h (some (j, l')) h' = s.loc h' :=
        Function.update_of_ne hh _ _
      rcases hs.current h' with ⟨hnone, hidle⟩ | ⟨i₁, hi₁, hnot₁, j₁, hj₁, hbusy, hall₁⟩
      · exact Or.inl ⟨hloc'.trans hnone, hidle⟩
      · refine Or.inr ⟨i₁, hi₁, hnot₁, j₁, hj₁, ?_, hall₁⟩
        have hne : i₁ ≠ i := by
          rintro rfl
          rw [hj] at hj₁
          exact hh (congrArg Prod.fst (Option.some.inj hj₁)).symm
        exact (hloc'.trans hbusy).trans (congrArg (fun l => some (j₁, l)) (hother i₁ hne).symm)
  case order => exact hs.order

omit [DecidableEq Key] in
/-- A server that is done with a job may take the next one. -/
theorem Serves.finish (hs : Serves J jobs taken finished s s') {h : Host} {j : Job} {l : S}
    (hloc : s.loc h = some (j, l)) :
    J.Done j l → ∃ i, i ∉ finished ∧ Serves J jobs taken (insert i finished)
      { loc := Function.update s.loc h none, lists := s.lists } s' := by
  intro hdone
  rcases hs.exists_current hloc with ⟨i, hi, hnot, hj, rfl, hall⟩
  refine ⟨i, hnot, ?_⟩
  constructor
  case range => exact hs.range
  case subset => exact Finset.insert_subset hi hs.subset
  case queue => exact hs.queue
  case others => exact hs.others
  case fresh => exact hs.fresh
  case done =>
    intro i' hi' c hc
    rcases Finset.mem_insert.1 hi' with rfl | hin
    · rw [hj] at hc
      cases hc
      exact hdone
    · exact hs.done i' hin c hc
  case current =>
    intro h'
    by_cases hh : h' = h
    · subst hh
      refine Or.inl ⟨Function.update_self _ _ _, fun i' hin j' hi' => ?_⟩
      -- the server has nothing in hand, and all jobs it took are finished
      by_cases hne : i' = i
      · rw [hne]
        exact Finset.mem_insert_self i finished
      · exact Finset.mem_insert_of_mem (hall i' hin hne j' hi')
    · have hloc' : Function.update s.loc h none h' = s.loc h' := Function.update_of_ne hh _ _
      rcases hs.current h' with ⟨hnone, hidle⟩ | ⟨i₁, hi₁, hnot₁, j₁, hj₁, hbusy, hall₁⟩
      · refine Or.inl ⟨hloc'.trans hnone, fun i' hin j' hi' => ?_⟩
        exact Finset.mem_insert_of_mem (hidle i' hin j' hi')
      · refine Or.inr ⟨i₁, hi₁, fun hin => ?_, j₁, hj₁, hloc'.trans hbusy,
          fun i' hin hne j' hi' => Finset.mem_insert_of_mem (hall₁ i' hin hne j' hi')⟩
        rcases Finset.mem_insert.1 hin with rfl | hin
        · rw [hj] at hj₁
          exact hh (congrArg Prod.fst (Option.some.inj hj₁)).symm
        · exact hnot₁ hin
  case order => exact hs.order

/-- A step that the parties do not take. -/
theorem SameEvents.skip {tr : List (Host × Event Host Key Msg)}
    {tr' : List (Nat × Event Host Key Msg)} (hsame : SameEvents J jobs taken finished tr tr')
    {taken' finished' : Finset Nat} {h : Host} {e : Event Host Key Msg}
    (he : e = .internal ∨ ∃ m, e = .pop h J.queue m) :
    taken'.card + finished'.card = taken.card + finished.card + 1 →
      SameEvents J jobs taken' finished' (tr ++ [(h, e)]) tr' := by
  intro hcard
  have hnone : ∀ h' k, k ≠ J.queue → Lists.pushed h' k [e] = [] ∧ Lists.popped h' k [e] = [] := by
    intro h' k hk
    rcases he with rfl | ⟨m, rfl⟩
    · exact ⟨rfl, rfl⟩
    · exact ⟨rfl, popped_pop_of_ne m fun heq => hk heq.2.symm⟩
  constructor
  case pushed =>
    intro h' k hk
    rw [List.map_append, pushed_append, hsame.pushed h' k hk]
    exact (congrArg _ (hnone h' k hk).1).trans (List.append_nil _)
  case popped =>
    intro h' k hk
    rw [List.map_append, popped_append, hsame.popped h' k hk]
    exact (congrArg _ (hnone h' k hk).2).trans (List.append_nil _)
  case events =>
    intro n e' hmem hoff hne
    rcases List.mem_append.1 hmem with hold | hnew
    · exact hsame.events n e' hold hoff hne
    · cases List.mem_singleton.1 hnew
      rcases he with rfl | ⟨m, rfl⟩
      · exact absurd rfl hne
      · exact absurd rfl hoff
  case length =>
    rw [List.length_append, List.length_singleton, hsame.length]
    omega

/-- A step that a party takes as well. -/
theorem SameEvents.snoc {tr : List (Host × Event Host Key Msg)}
    {tr' : List (Nat × Event Host Key Msg)} (hsame : SameEvents J jobs taken finished tr tr')
    {h : Host} {j : Job} {i : Nat} (e : Event Host Key Msg) :
    jobs[i]? = some (h, j) →
      SameEvents J jobs taken finished (tr ++ [(h, e)]) (tr' ++ [(i, e)]) := by
  intro hi
  constructor
  case pushed =>
    intro h' k hk
    simp only [List.map_append, pushed_append, hsame.pushed h' k hk, List.map_singleton]
  case popped =>
    intro h' k hk
    simp only [List.map_append, popped_append, hsame.popped h' k hk, List.map_singleton]
  case events =>
    intro n e' hmem hoff hne
    rcases List.mem_append.1 hmem with hold | hnew
    · rcases hsame.events n e' hold hoff hne with ⟨i', j', hi', hin⟩
      exact ⟨i', j', hi', List.mem_append_left _ hin⟩
    · cases List.mem_singleton.1 hnew
      exact ⟨i, _, hi, List.mem_append_right _ List.mem_cons_self⟩
  case length =>
    rw [List.length_append, List.length_append, hsame.length, List.length_singleton,
      List.length_singleton]
    omega

/-- A run of the servers is a run of the parties. -/
theorem refines (hmsg : Function.Injective J.msg)
    (hoff : ∀ h j l e l', J.step h j l e l' → e.Off J.queue)
    {tr : List (Host × Event Host Key Msg)} :
    Runs J.servers (J.serversStart jobs) tr s →
      ∃ taken finished tr' s', Runs (J.parties jobs) (J.partiesStart jobs) tr' s' ∧
        Serves J jobs taken finished s s' ∧ SameEvents J jobs taken finished tr tr' := by
  intro hruns
  induction hruns with
  | refl =>
      refine ⟨∅, ∅, [], _, .refl _, .start, ?_⟩
      exact { pushed := fun _ _ _ => rfl
              popped := fun _ _ _ => rfl
              events := fun _ _ hmem => absurd hmem List.not_mem_nil
              length := rfl }
  | @snoc s s₁ tr h e _ hstep ih =>
      rcases ih with ⟨taken, finished, tr', s', hruns', hs, hsame⟩
      rcases hstep with ⟨hloc, hlists⟩
      generalize hl : s.loc h = l at hloc
      cases hloc with
      | take j =>
          rcases hlists with ⟨ms, hms, rfl⟩
          rcases hs.take hmsg hl hms with ⟨i, hi, hs'⟩
          refine ⟨_, finished, tr', s', hruns', hs', hsame.skip (Or.inr ⟨_, rfl⟩) ?_⟩
          rw [Finset.card_insert_of_notMem hi]
          omega
      | work hwork =>
          have hoff' := hoff _ _ _ _ _ hwork
          rcases hs.work hl hwork hoff' hlists with ⟨i, s₁', hi, hstep', hs'⟩
          exact ⟨taken, finished, _, s₁', .snoc hruns' hstep', hs', hsame.snoc e hi⟩
      | finish hdone =>
          cases hlists
          rcases hs.finish hl hdone with ⟨i, hi, hs'⟩
          refine ⟨taken, _, tr', s', hruns', hs', hsame.skip (Or.inl rfl) ?_⟩
          rw [Finset.card_insert_of_notMem hi]
          omega

/-! ## Servers that cannot go on -/

omit [DecidableEq Key] in
/-- When all jobs are finished, the servers wait for more. -/
theorem Serves.idle (hs : Serves J jobs taken finished s s')
    (hall : ∀ i < jobs.length, i ∈ finished) (h : Host) :
    s.loc h = none ∧ s.lists h J.queue = [] := by
  constructor
  · rcases hs.current h with ⟨hnone, -⟩ | ⟨i, hi, hnot, -⟩
    · exact hnone
    · exact absurd (hall i (Finset.mem_range.1 (hs.range hi))) hnot
  · rw [hs.queue h, List.map_eq_nil_iff, List.eq_nil_iff_forall_not_mem]
    intro q hq
    have hq' := mem_waiting.1 hq
    exact hq'.2.2 (hs.subset (hall q.2 (List.getElem?_eq_some_iff.1 hq'.1).1))

omit [DecidableEq Key] in
theorem Serves.finished_of_idle (hs : Serves J jobs taken finished s s')
    (hidle : ∀ h, s.loc h = none ∧ s.lists h J.queue = []) :
    ∀ i < jobs.length, i ∈ finished := by
  intro i hi
  have hget : jobs[i]? = some (jobs[i].1, jobs[i].2) := List.getElem?_eq_getElem hi
  have htaken : i ∈ taken := by
    by_contra hnot
    have hempty := (hidle jobs[i].1).2
    rw [hs.queue, List.map_eq_nil_iff] at hempty
    have hmem : (jobs[i], i) ∈ waiting jobs taken jobs[i].1 := mem_waiting.2 ⟨hget, rfl, hnot⟩
    rw [hempty] at hmem
    exact List.not_mem_nil hmem
  rcases hs.current jobs[i].1 with ⟨-, hall⟩ | ⟨i₁, hi₁, hnot, j, hj, hbusy, -⟩
  · exact hall i htaken _ hget
  · have hnone := (hidle jobs[i].1).1
    rw [hbusy] at hnone
    cases hnone

/-- When no server can take a step, the first job that is not finished is one whose party cannot take
a step. -/
theorem Serves.all_finished (hs : Serves J jobs taken finished s s')
    (hstuck : ∀ h e s₁, ¬ Step J.servers s h e s₁)
    (hjob : ∀ i c, jobs[i]? = some c → (∀ i' < i, i' ∈ finished) →
      (∀ e s₁, e.Off J.queue → ¬ Step (J.parties jobs) s' i e s₁) → J.Done c.2 (s'.loc i)) :
    (∀ h j l e l', J.step h j l e l' → e.Off J.queue) →
      ∀ i < jobs.length, i ∈ finished := by
  intro hoff i hi
  have hnone : ∀ h e l, J.ServerStep h (s.loc h) e l →
      ¬ ∀ h' k m, e = .pop h' k m → ∃ ms, s.lists h' k = m :: ms := by
    intro h e l hstep hfront
    rcases Step.of_local (S := J.servers) hstep hfront with ⟨s₁, hs₁⟩
    exact hstuck h e s₁ hs₁
  -- on the position in the list: an earlier job may be what a later one waits for
  induction i using Nat.strong_induction_on with
  | _ i ih =>
      have hbefore : ∀ i' < i, i' ∈ finished := fun i' hlt => ih i' hlt (hlt.trans hi)
      by_contra hnot
      have hget : jobs[i]? = some (jobs[i].1, jobs[i].2) := List.getElem?_eq_getElem hi
      have hwaits : i ∉ taken → (jobs[i], i) ∈ waiting jobs taken jobs[i].1 :=
        fun hin => mem_waiting.2 ⟨hget, rfl, hin⟩
      rcases hs.current jobs[i].1 with ⟨hidle, hall⟩ | ⟨i₁, hi₁, hnot₁, j₁, hj₁, hbusy, hall⟩
      · -- the server could take a job
        have hnew : i ∉ taken := fun hin => hnot (hall i hin _ hget)
        cases hwaiting : waiting jobs taken jobs[i].1 with
        | nil =>
            rw [hwaiting] at hwaits
            exact absurd (hwaits hnew) List.not_mem_nil
        | cons q qs =>
            have hfront := hs.queue jobs[i].1
            rw [hwaiting, List.map_cons] at hfront
            refine hnone jobs[i].1 _ _ (by rw [hidle]; exact .take q.1.2) fun _ _ _ heq => ?_
            cases heq
            exact ⟨_, hfront⟩
      · -- it works on this job, since those behind it have not been taken
        have hsame : i₁ = i := by
          by_contra hne
          by_cases hin : i ∈ taken
          · exact hnot (hall i hin (Ne.symm hne) _ hget)
          · have hlt := hs.order i₁ hi₁ _ _ hj₁ _ (hwaits hin)
            exact hnot₁ (hbefore i₁ hlt)
        subst hsame
        rw [hget] at hj₁
        have hj : jobs[i₁].2 = j₁ := congrArg Prod.snd (Option.some.inj hj₁)
        subst hj
        have hdone : J.Done jobs[i₁].2 (s'.loc i₁) := by
          refine hjob i₁ _ hget hbefore fun e s₁ hoff' hstep => ?_
          rcases hstep with ⟨⟨c, hc, hwork⟩, hlists⟩
          rw [hget] at hc
          cases hc
          refine hnone jobs[i₁].1 e _ (by rw [hbusy]; exact .work hwork) fun h k m heq => ?_
          subst heq
          rcases hlists with ⟨ms, hms, -⟩
          exact ⟨ms, (hs.others h k hoff').trans hms⟩
        refine hnone jobs[i₁].1 .internal none (by rw [hbusy]; exact .finish hdone) ?_
        intro _ _ _ heq
        cases heq

end Serves

end Jobs

end Lists
