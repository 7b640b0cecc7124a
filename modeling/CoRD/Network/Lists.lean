import Mathlib.Algebra.BigOperators.Group.Finset.Piecewise
import Mathlib.Data.List.Basic
import Mathlib.Logic.Function.Basic

/-!
# Lists — parties that share the lists of hosts

Every host keeps first-in first-out lists under keys.  A party takes local steps, and a step may
push a message to the end of a list or pop one from its front, of any host.  A party that finds a
list empty waits.  The runs of the system are all interleavings of the parties.

What a run does to one list is known from the messages pushed and popped there, and each party has
taken a run of its own in it, so a system is analysed party by party: what a party pushes, given
what it popped, and for each list who pushes and who pops.
-/

namespace Lists

/-- What one step does to the lists. -/
inductive Event (Host Key Msg : Type) where
  | internal
  | push (h : Host) (k : Key) (m : Msg)
  | pop (h : Host) (k : Key) (m : Msg)

/-- Parties, each with its own states and steps. -/
structure System (Id Host Key Msg : Type) where
  Loc : Id → Type
  step : ∀ i, Loc i → Event Host Key Msg → Loc i → Prop

variable {Id Host Key Msg : Type} [DecidableEq Id] [DecidableEq Host] [DecidableEq Key]

/-! ## Histories -/

/-- The messages pushed to one list, in order. -/
def pushed (h : Host) (k : Key) (es : List (Event Host Key Msg)) : List Msg :=
  es.filterMap fun e =>
    match e with
    | .push h' k' m => if h' = h ∧ k' = k then some m else none
    | _ => none

/-- The messages popped from one list, in order. -/
def popped (h : Host) (k : Key) (es : List (Event Host Key Msg)) : List Msg :=
  es.filterMap fun e =>
    match e with
    | .pop h' k' m => if h' = h ∧ k' = k then some m else none
    | _ => none

/-- What was pushed where, in order. -/
def pushes (es : List (Event Host Key Msg)) : List (Host × Key × Msg) :=
  es.filterMap fun e =>
    match e with
    | .push h k m => some (h, k, m)
    | _ => none

/-- What was popped where, in order. -/
def pops (es : List (Event Host Key Msg)) : List (Host × Key × Msg) :=
  es.filterMap fun e =>
    match e with
    | .pop h k m => some (h, k, m)
    | _ => none

/-- The events of one party. -/
def eventsOf (i : Id) (tr : List (Id × Event Host Key Msg)) : List (Event Host Key Msg) :=
  tr.filterMap fun p => if p.1 = i then some p.2 else none

omit [DecidableEq Id] in
@[simp] theorem pushed_append (h : Host) (k : Key) (es es' : List (Event Host Key Msg)) :
    pushed h k (es ++ es') = pushed h k es ++ pushed h k es' :=
  List.filterMap_append

omit [DecidableEq Id] in
@[simp] theorem popped_append (h : Host) (k : Key) (es es' : List (Event Host Key Msg)) :
    popped h k (es ++ es') = popped h k es ++ popped h k es' :=
  List.filterMap_append

omit [DecidableEq Host] [DecidableEq Key] in
@[simp] theorem eventsOf_append (i : Id) (tr tr' : List (Id × Event Host Key Msg)) :
    eventsOf i (tr ++ tr') = eventsOf i tr ++ eventsOf i tr' :=
  List.filterMap_append

omit [DecidableEq Id] in
@[simp] theorem popped_pop_self (h : Host) (k : Key) (m : Msg) :
    popped h k [.pop h k m] = [m] := by
  simp [popped]

omit [DecidableEq Id] in
theorem popped_pop_of_ne {h h' : Host} {k k' : Key} (m : Msg) (hne : ¬ (h' = h ∧ k' = k)) :
    popped h k [.pop h' k' m] = [] := by
  simp [popped, hne]

omit [DecidableEq Id] [DecidableEq Host] [DecidableEq Key] in
@[simp] theorem pushes_append (es es' : List (Event Host Key Msg)) :
    pushes (es ++ es') = pushes es ++ pushes es' :=
  List.filterMap_append

omit [DecidableEq Id] [DecidableEq Host] [DecidableEq Key] in
@[simp] theorem pops_append (es es' : List (Event Host Key Msg)) :
    pops (es ++ es') = pops es ++ pops es' :=
  List.filterMap_append

omit [DecidableEq Id] [DecidableEq Host] [DecidableEq Key] in
theorem mem_pushes {es : List (Event Host Key Msg)} {h : Host} {k : Key} {m : Msg} :
    (h, k, m) ∈ pushes es ↔ .push h k m ∈ es := by
  constructor
  · intro hmem
    obtain ⟨e, he, heq⟩ := List.mem_filterMap.1 hmem
    cases e with
    | internal => cases heq
    | pop h' k' m' => cases heq
    | push h' k' m' =>
        cases heq
        exact he
  · intro he
    exact List.mem_filterMap.2 ⟨_, he, rfl⟩

omit [DecidableEq Id] in
/-- The messages for one list among all that was pushed. -/
theorem pushed_eq_pushes (h : Host) (k : Key) (es : List (Event Host Key Msg)) :
    pushed h k es = ((pushes es).filter fun q => q.1 = h ∧ q.2.1 = k).map fun q => q.2.2 := by
  induction es with
  | nil => rfl
  | cons e es ih =>
      cases e with
      | internal => exact ih
      | pop h' k' m => exact ih
      | push h' k' m =>
          show pushed h k (.push h' k' m :: es) = (((h', k', m) :: pushes es).filter _).map _
          by_cases hsame : h' = h ∧ k' = k
          · rw [List.filter_cons_of_pos (by simpa using hsame), List.map_cons, ← ih]
            simp [pushed, hsame]
          · rw [List.filter_cons_of_neg (by simpa using hsame), ← ih]
            simp [pushed, hsame]

/-- A prefix has the same elements. -/
theorem getElem?_of_isPrefix {α : Type} {l l' : List α} {i : Nat} {v : α} (h : l <+: l') :
    l[i]? = some v → l'[i]? = some v := by
  intro hv
  obtain ⟨hi, rfl⟩ := List.getElem?_eq_some_iff.1 hv
  exact List.prefix_iff_getElem?.1 h i hi

/-- The values of `f`, from the first on. -/
theorem eq_map_range {α : Type} {f : Nat → α} {l : List α} :
    (∀ (i : Nat) v, l[i]? = some v → v = f i) → l = (List.range l.length).map f := by
  intro h
  refine List.ext_getElem (by simp) fun i hi _ => ?_
  rw [List.getElem_map, List.getElem_range]
  exact h i _ (List.getElem?_eq_getElem hi)

omit [DecidableEq Id] in
theorem mem_popped {h : Host} {k : Key} {m : Msg} {es : List (Event Host Key Msg)} :
    .pop h k m ∈ es → m ∈ popped h k es :=
  fun hm => List.mem_filterMap.2 ⟨_, hm, by simp⟩

omit [DecidableEq Id] in
theorem mem_of_mem_popped {h : Host} {k : Key} {m : Msg} {es : List (Event Host Key Msg)} :
    m ∈ popped h k es → .pop h k m ∈ es := by
  intro hm
  obtain ⟨e, he, heq⟩ := List.mem_filterMap.1 hm
  cases e with
  | internal => cases heq
  | push h' k' m' => cases heq
  | pop h' k' m' =>
      have hsome : (if h' = h ∧ k' = k then some m' else none) = some m := heq
      by_cases hkey : h' = h ∧ k' = k
      · rw [if_pos hkey] at hsome
        rw [← hkey.1, ← hkey.2, ← Option.some.inj hsome]
        exact he
      · rw [if_neg hkey] at hsome
        cases hsome

omit [DecidableEq Host] [DecidableEq Key] in
theorem mem_of_mem_eventsOf {i : Id} {e : Event Host Key Msg}
    {tr : List (Id × Event Host Key Msg)} : e ∈ eventsOf i tr → e ∈ tr.map Prod.snd := by
  intro he
  obtain ⟨p, hp, heq⟩ := List.mem_filterMap.1 he
  by_cases hi : p.1 = i
  · rw [if_pos hi] at heq
    cases heq
    exact List.mem_map_of_mem hp
  · rw [if_neg hi] at heq
    cases heq

omit [DecidableEq Id] in
theorem popped_eq_nil {h : Host} {k : Key} {es : List (Event Host Key Msg)} :
    (∀ m, .pop h k m ∉ es) → popped h k es = [] := by
  intro hnot
  refine List.filterMap_eq_nil_iff.2 fun e he => ?_
  cases e with
  | internal => rfl
  | push h' k' m => rfl
  | pop h' k' m =>
      by_cases hkey : h' = h ∧ k' = k
      · obtain ⟨rfl, rfl⟩ := hkey
        exact absurd he (hnot m)
      · exact if_neg hkey

omit [DecidableEq Id] in
theorem pushed_eq_nil {h : Host} {k : Key} {es : List (Event Host Key Msg)} :
    (∀ m, .push h k m ∉ es) → pushed h k es = [] := by
  intro hnot
  refine List.filterMap_eq_nil_iff.2 fun e he => ?_
  cases e with
  | internal => rfl
  | pop h' k' m => rfl
  | push h' k' m =>
      by_cases hkey : h' = h ∧ k' = k
      · obtain ⟨rfl, rfl⟩ := hkey
        exact absurd he (hnot m)
      · exact if_neg hkey

omit [DecidableEq Host] [DecidableEq Key] in
/-- What only one party does is found among the events of that party. -/
theorem filterMap_eq_eventsOf {β : Type} (f : Event Host Key Msg → Option β) {i : Id}
    {tr : List (Id × Event Host Key Msg)} :
    (∀ j, j ≠ i → (eventsOf j tr).filterMap f = []) →
      (tr.map Prod.snd).filterMap f = (eventsOf i tr).filterMap f := by
  intro hother
  induction tr with
  | nil =>
      rfl
  | cons p tr ih =>
      have hsplit : ∀ j, eventsOf j (p :: tr) = eventsOf j [p] ++ eventsOf j tr :=
        fun j => eventsOf_append j [p] tr
      have hparts : ∀ j, j ≠ i → (eventsOf j [p]).filterMap f = [] ∧
          (eventsOf j tr).filterMap f = [] := by
        intro j hj
        have hall := hother j hj
        rw [hsplit, List.filterMap_append] at hall
        exact List.append_eq_nil_iff.1 hall
      have hhead : [p.2].filterMap f = (eventsOf i [p]).filterMap f := by
        by_cases hp : p.1 = i
        · simp [eventsOf, hp]
        · have hnil : (eventsOf p.1 [p]).filterMap f = [] := (hparts p.1 hp).1
          have hself : eventsOf p.1 [p] = [p.2] := by simp [eventsOf]
          rw [hself] at hnil
          simp [eventsOf, hp, hnil]
      rw [hsplit, List.filterMap_append, ← hhead, ← ih fun j hj => (hparts j hj).2,
        ← List.filterMap_append]
      rfl

/-- A list to which one party alone pushes holds what that party pushed. -/
theorem pushed_eq_of_producer {i : Id} {h : Host} {k : Key} {tr : List (Id × Event Host Key Msg)} :
    (∀ j, j ≠ i → pushed h k (eventsOf j tr) = []) →
      pushed h k (tr.map Prod.snd) = pushed h k (eventsOf i tr) :=
  filterMap_eq_eventsOf _

/-- A list from which one party alone pops has lost what that party popped. -/
theorem popped_eq_of_consumer {i : Id} {h : Host} {k : Key} {tr : List (Id × Event Host Key Msg)} :
    (∀ j, j ≠ i → popped h k (eventsOf j tr) = []) →
      popped h k (tr.map Prod.snd) = popped h k (eventsOf i tr) :=
  filterMap_eq_eventsOf _

/-! ## Runs -/

/-- The lists after an event; a pop needs its message in front. -/
def apply (lists : Host → Key → List Msg) : Event Host Key Msg → (Host → Key → List Msg) → Prop
  | .internal, lists' => lists' = lists
  | .push h k m, lists' =>
      lists' = Function.update lists h (Function.update (lists h) k (lists h k ++ [m]))
  | .pop h k m, lists' =>
      ∃ ms, lists h k = m :: ms ∧
        lists' = Function.update lists h (Function.update (lists h) k ms)

structure State (S : System Id Host Key Msg) where
  loc : ∀ i, S.Loc i
  lists : Host → Key → List Msg

/-- One step of one party. -/
inductive Step (S : System Id Host Key Msg) (s : State S) (i : Id) (e : Event Host Key Msg) :
    State S → Prop where
  | mk {l : S.Loc i} {lists : Host → Key → List Msg} (hloc : S.step i (s.loc i) e l)
      (hlists : apply s.lists e lists) :
      Step S s i e { loc := Function.update s.loc i l, lists := lists }

/-- A party can take its step in the system, if what it pops is in front. -/
theorem Step.of_local {S : System Id Host Key Msg} {s : State S} {i : Id} {e : Event Host Key Msg}
    {l : S.Loc i} (hloc : S.step i (s.loc i) e l) :
    (∀ h k m, e = .pop h k m → ∃ ms, s.lists h k = m :: ms) → ∃ s', Step S s i e s' := by
  intro hfront
  cases e with
  | internal => exact ⟨_, .mk hloc rfl⟩
  | push h k m => exact ⟨_, .mk hloc rfl⟩
  | pop h k m =>
      obtain ⟨ms, hms⟩ := hfront h k m rfl
      exact ⟨_, .mk hloc ⟨ms, hms, rfl⟩⟩

section Stuck

variable {S : System Id Host Key Msg} {s : State S} {i : Id}

/-- Where nothing can happen, a party has no step but to pop. -/
theorem not_local_of_stuck (hstuck : ∀ i e s', ¬ Step S s i e s') {e : Event Host Key Msg}
    {l : S.Loc i} (hpop : ∀ h k m, e ≠ .pop h k m) : ¬ S.step i (s.loc i) e l := by
  intro hloc
  obtain ⟨s', hs'⟩ := Step.of_local hloc fun h k m heq => absurd heq (hpop h k m)
  exact hstuck i e s' hs'

/-- And what it would pop is not in front. -/
theorem ne_cons_of_stuck (hstuck : ∀ i e s', ¬ Step S s i e s') {h : Host} {k : Key} {m : Msg}
    {l : S.Loc i} (hloc : S.step i (s.loc i) (.pop h k m) l) : ∀ ms, s.lists h k ≠ m :: ms := by
  intro ms hms
  obtain ⟨s', hs'⟩ := Step.of_local hloc fun h k m heq => by
    cases heq
    exact ⟨ms, hms⟩
  exact hstuck i _ s' hs'

end Stuck

/-- A finite run, with the parties and events of its steps. -/
inductive Runs (S : System Id Host Key Msg) : State S → List (Id × Event Host Key Msg) → State S →
    Prop where
  | refl (s : State S) : Runs S s [] s
  | snoc {s s' s'' : State S} {tr : List (Id × Event Host Key Msg)} {i : Id}
      {e : Event Host Key Msg} :
      Runs S s tr s' → Step S s' i e s'' → Runs S s (tr ++ [(i, e)]) s''

/-- If all runs are bounded, some run cannot go on. -/
theorem Runs.exists_stuck {S : System Id Host Key Msg} {s₀ : State S} {n : Nat}
    (hbound : ∀ tr s, Runs S s₀ tr s → tr.length ≤ n) :
    ∃ tr s, Runs S s₀ tr s ∧ ∀ i e s', ¬ Step S s i e s' := by
  by_contra hnone
  have hlong : ∀ m : Nat, ∃ tr s, Runs S s₀ tr s ∧ tr.length = m := by
    intro m
    induction m with
    | zero => exact ⟨[], _, .refl _, rfl⟩
    | succ m ih =>
        obtain ⟨tr, s, hruns, hlength⟩ := ih
        have hgo : ∃ i e s', Step S s i e s' := by
          by_contra hstuck
          exact hnone ⟨tr, s, hruns, fun i e s' hstep => hstuck ⟨i, e, s', hstep⟩⟩
        obtain ⟨i, e, s', hstep⟩ := hgo
        refine ⟨_, s', .snoc hruns hstep, ?_⟩
        rw [List.length_append, hlength]
        rfl
  obtain ⟨tr, s, hruns, hlength⟩ := hlong (n + 1)
  have hle := hbound tr s hruns
  omega

/-- A run with one more step of a party, where the rest stays as it was. -/
theorem Runs.extend {S : System Id Host Key Msg} {s s' : State S}
    {tr : List (Id × Event Host Key Msg)} (hruns : Runs S s tr s') {i : Id}
    {e : Event Host Key Msg} {l : S.Loc i} {lists : Host → Key → List Msg}
    (hloc : S.step i (s'.loc i) e l) :
    apply s'.lists e lists →
      ∃ s'', Runs S s (tr ++ [(i, e)]) s'' ∧ s''.loc i = l ∧ (∀ j, j ≠ i → s''.loc j = s'.loc j) ∧
        s''.lists = lists := by
  intro hlists
  refine ⟨_, .snoc hruns (.mk hloc hlists), ?_, fun j hj => ?_, rfl⟩
  · exact Function.update_self i l s'.loc
  · exact Function.update_of_ne hj l s'.loc

/-- A finite run of one party among any others. -/
inductive LocalRuns {L : Type} (step : L → Event Host Key Msg → L → Prop) : L →
    List (Event Host Key Msg) → L → Prop where
  | refl (l : L) : LocalRuns step l [] l
  | snoc {l l' l'' : L} {es : List (Event Host Key Msg)} {e : Event Host Key Msg} :
      LocalRuns step l es l' → step l' e l'' → LocalRuns step l (es ++ [e]) l''

omit [DecidableEq Id] [DecidableEq Host] [DecidableEq Key] in
/-- What holds of the states of a party, and of all its events. -/
theorem LocalRuns.invariant {L : Type} {step : L → Event Host Key Msg → L → Prop} {l l' : L}
    {es : List (Event Host Key Msg)} {P : L → Prop} {Q : Event Host Key Msg → Prop} (hinit : P l)
    (hstep : ∀ l e l', P l → step l e l' → P l' ∧ Q e) :
    LocalRuns step l es l' → P l' ∧ ∀ e ∈ es, Q e := by
  intro hruns
  induction hruns with
  | refl =>
      exact ⟨hinit, fun e he => absurd he List.not_mem_nil⟩
  | snoc _ hs ih =>
      obtain ⟨hP, hQ⟩ := ih
      obtain ⟨hP', hQ'⟩ := hstep _ _ _ hP hs
      refine ⟨hP', fun e he => ?_⟩
      rcases List.mem_append.1 he with hold | hnew
      · exact hQ e hold
      · obtain rfl := List.mem_singleton.1 hnew
        exact hQ'

omit [DecidableEq Id] [DecidableEq Host] [DecidableEq Key] in
/-- A party may be looked at with more steps than it has. -/
theorem LocalRuns.mono {L : Type} {step step' : L → Event Host Key Msg → L → Prop} {l l' : L}
    {es : List (Event Host Key Msg)} (hsub : ∀ l e l', step l e l' → step' l e l') :
    LocalRuns step l es l' → LocalRuns step' l es l' := by
  intro hruns
  induction hruns with
  | refl => exact .refl _
  | snoc _ hs ih => exact .snoc ih (hsub _ _ _ hs)

omit [DecidableEq Id] [DecidableEq Host] [DecidableEq Key] in
/-- A part of a party that takes all its steps. -/
theorem LocalRuns.map {L L' : Type} {step : L → Event Host Key Msg → L → Prop}
    {step' : L' → Event Host Key Msg → L' → Prop} {l l' : L} {es : List (Event Host Key Msg)}
    (f : L → L') (hsub : ∀ l e l', step l e l' → step' (f l) e (f l')) :
    LocalRuns step l es l' → LocalRuns step' (f l) es (f l') := by
  intro hruns
  induction hruns with
  | refl => exact .refl _
  | snoc _ hs ih => exact .snoc ih (hsub _ _ _ hs)

omit [DecidableEq Id] [DecidableEq Host] [DecidableEq Key] in
/-- A party without steps does nothing. -/
theorem LocalRuns.eq_nil {L : Type} {step : L → Event Host Key Msg → L → Prop} {l l' : L}
    {es : List (Event Host Key Msg)} (hnone : ∀ l e l', ¬ step l e l') :
    LocalRuns step l es l' → es = [] := by
  intro hruns
  cases hruns with
  | refl => rfl
  | snoc _ hs => exact absurd hs (hnone _ _ _)

/-- The run of a party that takes the turns `ts`. -/
def execute {T L : Type} (turn : T → L → Option (Event Host Key Msg × L)) (ts : List T)
    (st : List (Event Host Key Msg) × L) : Option (List (Event Host Key Msg) × L) :=
  ts.foldlM (fun st t => (turn t st.2).map fun q => (st.1 ++ [q.1], q.2)) st

omit [DecidableEq Id] [DecidableEq Host] [DecidableEq Key] in
theorem LocalRuns.of_execute {T L : Type} {step : L → Event Host Key Msg → L → Prop}
    {turn : T → L → Option (Event Host Key Msg × L)}
    (hturn : ∀ t l e l', turn t l = some (e, l') → step l e l') {l₀ : L} {ts : List T}
    {st st' : List (Event Host Key Msg) × L} :
    LocalRuns step l₀ st.1 st.2 → execute turn ts st = some st' →
      LocalRuns step l₀ st'.1 st'.2 := by
  intro hruns hexec
  induction ts generalizing st with
  | nil =>
      cases hexec
      exact hruns
  | cons t ts ih =>
      rw [execute, List.foldlM_cons, Option.bind_eq_bind, Option.bind_eq_some_iff] at hexec
      obtain ⟨st₁, hst₁, hrest⟩ := hexec
      obtain ⟨q, hq, rfl⟩ := Option.map_eq_some_iff.1 hst₁
      exact ih (.snoc hruns (hturn t _ _ _ hq)) hrest

/-- In a run of the system each party has taken a run of its own. -/
theorem Runs.toLocal {S : System Id Host Key Msg} {s s' : State S}
    {tr : List (Id × Event Host Key Msg)} (h : Runs S s tr s') (i : Id) :
    LocalRuns (S.step i) (s.loc i) (eventsOf i tr) (s'.loc i) := by
  induction h with
  | refl =>
      exact .refl _
  | @snoc s₁ s₂ tr j e _ hstep ih =>
      obtain ⟨hloc, _⟩ := hstep
      rw [eventsOf_append]
      by_cases hj : j = i
      · subst hj
        have hself : eventsOf j [(j, e)] = [e] := by simp [eventsOf]
        rw [hself]
        exact .snoc ih (by simpa using hloc)
      · have hnone : eventsOf i [(j, e)] = [] := by simp [eventsOf, hj]
        simpa [hnone, Function.update_of_ne (Ne.symm hj)] using ih

omit [DecidableEq Host] [DecidableEq Key] in
/-- A trace is made up of the events of the parties in it. -/
theorem length_eq_sum (tr : List (Id × Event Host Key Msg)) (ids : Finset Id) :
    (∀ i, i ∉ ids → eventsOf i tr = []) →
      tr.length = ids.sum fun i => (eventsOf i tr).length := by
  intro hother
  induction tr with
  | nil => exact (Finset.sum_eq_zero fun _ _ => rfl).symm
  | cons p tr ih =>
      have hsplit : ∀ j, eventsOf j (p :: tr) = eventsOf j [p] ++ eventsOf j tr :=
        fun j => eventsOf_append j [p] tr
      have hrest : ∀ i, i ∉ ids → eventsOf i tr = [] := by
        intro i hi
        have hall := hother i hi
        rw [hsplit] at hall
        exact (List.append_eq_nil_iff.1 hall).2
      have hp : p.1 ∈ ids := by
        by_contra hnot
        have hall := hother p.1 hnot
        simp [eventsOf] at hall
      have hhead : ∀ i, (eventsOf i [p]).length = if p.1 = i then 1 else 0 := by
        intro i
        by_cases hi : p.1 = i <;> simp [eventsOf, hi]
      calc (p :: tr).length
          = 1 + tr.length := by rw [List.length_cons, Nat.add_comm]
        _ = (ids.sum fun i => if p.1 = i then 1 else 0) +
              ids.sum fun i => (eventsOf i tr).length := by
            rw [Finset.sum_ite_eq, if_pos hp, ih hrest]
        _ = ids.sum fun i => (eventsOf i (p :: tr)).length := by
            rw [← Finset.sum_add_distrib]
            exact Finset.sum_congr rfl fun i _ => by rw [hsplit, List.length_append, hhead]

omit [DecidableEq Id] in
/-- One event at one list. -/
theorem apply_fifo {lists lists' : Host → Key → List Msg} {e : Event Host Key Msg} (h : Host)
    (k : Key) : apply lists e lists' →
      popped h k [e] ++ lists' h k = lists h k ++ pushed h k [e] := by
  intro happly
  cases e with
  | internal =>
      cases happly
      simp [popped, pushed]
  | push h' k' m =>
      cases happly
      by_cases hh : h' = h
      · subst hh
        by_cases hk : k' = k
        · subst hk
          simp [popped, pushed]
        · simp [popped, pushed, hk, Function.update_of_ne (Ne.symm hk)]
      · simp [popped, pushed, hh, Function.update_of_ne (Ne.symm hh)]
  | pop h' k' m =>
      obtain ⟨ms, hms, rfl⟩ := happly
      by_cases hh : h' = h
      · subst hh
        by_cases hk : k' = k
        · subst hk
          simp [popped, pushed, hms]
        · simp [popped, pushed, hk, Function.update_of_ne (Ne.symm hk)]
      · simp [popped, pushed, hh, Function.update_of_ne (Ne.symm hh)]

/-- What has been popped from a list and what is left there are what it held and what has been
pushed. -/
theorem Runs.fifo {S : System Id Host Key Msg} {s s' : State S}
    {tr : List (Id × Event Host Key Msg)} (hruns : Runs S s tr s') (h : Host) (k : Key) :
    popped h k (tr.map Prod.snd) ++ s'.lists h k =
      s.lists h k ++ pushed h k (tr.map Prod.snd) := by
  induction hruns with
  | refl =>
      simp [popped, pushed]
  | @snoc s₁ s₂ tr i e _ hstep ih =>
      obtain ⟨_, hlists⟩ := hstep
      have hone := apply_fifo h k hlists
      simp only [List.map_append, List.map_cons, List.map_nil, popped_append, pushed_append,
        List.append_assoc]
      rw [hone, ← List.append_assoc, ih, List.append_assoc]

end Lists
