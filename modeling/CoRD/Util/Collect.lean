import Mathlib.Data.List.Perm.Subperm
import Mathlib.Logic.Relation
import Mathlib.Logic.Function.Basic

/-!
# Collect — workers that collect batches from one queue

Several workers pop items from one queue.  An item carries an index and a number, and the items of
a group are numbered downwards: the first has its number as index, the last has index one.  A
worker keeps what it pops in a vector of its own.  It empties the vector before an item whose index
is the number, and runs the vector as a batch after an item of index one.

With one worker the batches are the groups.  With several they are the groups, whoever pops what,
just when no group has two items.
-/

namespace Collect

variable {α β : Type} (ind num : α → Int) (job : α → β)

/-- A worker's vector after it has popped an item. -/
def take (vec : List β) (c : α) : List β :=
  (if ind c = num c then [] else vec) ++ [job c]

/-- The queue, the vectors of the `W` workers, and the batches run so far. -/
structure State (α β : Type) (W : Nat) where
  queue : List α
  vec : Fin W → List β
  ran : List (Fin W × List β)

namespace State

variable {W : Nat}

def init (W : Nat) (queue : List α) : State α β W where
  queue := queue
  vec := fun _ => []
  ran := []

/-- Worker `w` pops item `c` and leaves the queue `rest`. -/
def pop (s : State α β W) (w : Fin W) (c : α) (rest : List α) : State α β W where
  queue := rest
  vec := Function.update s.vec w (take ind num job (s.vec w) c)
  ran := s.ran ++ if ind c = 1 then [(w, take ind num job (s.vec w) c)] else []

end State

variable {W : Nat}

/-- Some worker pops the next item. -/
inductive Step : State α β W → State α β W → Prop where
  | pop {s : State α β W} {c : α} {rest : List α} (w : Fin W) (hqueue : s.queue = c :: rest) :
      Step s (s.pop ind num job w c rest)

/-- Any order in which the workers pop. -/
abbrev Runs : State α β W → State α β W → Prop :=
  Relation.ReflTransGen (Step ind num job)

/-- The items of a group count down to one; `n` of them are in the group. -/
def Counts (n : Int) (g : List α) : Prop :=
  ∀ pre c post, g = pre ++ c :: post → ind c = post.length + 1 ∧ num c = n

/-- A whole group. -/
def Numbered (g : List α) : Prop :=
  Counts ind num g.length g

/-- Each group is run once, as one batch, and nothing else is: so far no batch but a group's, and
once the queue is empty the batch of every group. -/
structure BatchedOnce (groups : List (List α)) (s : State α β W) : Prop where
  sound : (s.ran.map Prod.snd).Subperm (groups.map (List.map job))
  complete : s.queue = [] → (s.ran.map Prod.snd).Perm (groups.map (List.map job))

section Lemmas

variable {ind num}

theorem Counts.tail {n : Int} {c : α} {g : List α} (h : Counts ind num n (c :: g)) :
    Counts ind num n g := by
  intro pre d post heq
  exact h (c :: pre) d post (by rw [heq, List.cons_append])

theorem Counts.head {n : Int} {c : α} {g : List α} (h : Counts ind num n (c :: g)) :
    ind c = g.length + 1 ∧ num c = n :=
  h [] c g rfl

theorem numbered_of_getElem {g : List α} :
    (∀ i (hi : i < g.length), ind g[i] = g.length - i ∧ num g[i] = g.length) →
      Numbered ind num g := by
  intro h pre c post hg
  have hi : pre.length < g.length := by
    rw [hg, List.length_append, List.length_cons]
    omega
  have hget : g[pre.length] = c := by
    simp [hg]
  have hlen : (g.length : Int) = pre.length + (post.length + 1) := by
    rw [hg]
    simp
  obtain ⟨hind, hnum⟩ := h pre.length hi
  rw [hget] at hind hnum
  exact ⟨by omega, hnum⟩

/-! ## One worker takes what is left of a group -/

/-- A worker that pops the rest of a group runs its vector with them. -/
theorem runs_rest (w : Fin W) {n : Int} {post rest : List α} {s : State α β W} :
    Counts ind num n post → (post.length : Int) < n → post ≠ [] → s.queue = post ++ rest →
      ∃ s', Runs ind num job s s' ∧ s'.queue = rest ∧
        s'.ran = s.ran ++ [(w, s.vec w ++ post.map job)] ∧ ∀ v, v ≠ w → s'.vec v = s.vec v := by
  intro hcounts hlt hne hqueue
  induction post generalizing s with
  | nil =>
      exact absurd rfl hne
  | cons c post ih =>
      obtain ⟨hind, hnum⟩ := hcounts.head
      rw [List.length_cons] at hlt
      push_cast at hlt
      -- the vector is not emptied: the index has come down from the number
      have htake : take ind num job (s.vec w) c = s.vec w ++ [job c] := by
        rw [take, if_neg (by omega)]
      have hstep : Step ind num job s (s.pop ind num job w c (post ++ rest)) :=
        .pop w hqueue
      have hframe : ∀ v, v ≠ w → (s.pop ind num job w c (post ++ rest)).vec v = s.vec v :=
        fun v hv => Function.update_of_ne hv _ _
      by_cases hpost : post = []
      · subst hpost
        refine ⟨_, .single hstep, rfl, ?_, hframe⟩
        simp [State.pop, htake, hind]
      · have hlen : 0 < post.length := List.length_pos_iff.2 hpost
        obtain ⟨s', hruns, hrest, hran, hvec⟩ := ih
          (s := s.pop ind num job w c (post ++ rest)) hcounts.tail (by omega) hpost rfl
        refine ⟨s', .head hstep hruns, hrest, ?_, fun v hv => (hvec v hv).trans (hframe v hv)⟩
        have hnot : ¬ ind c = 1 := by omega
        rw [hran]
        simp [State.pop, htake, hnot]

/-- A worker that pops a whole group runs it. -/
theorem runs_group (w : Fin W) {g rest : List α} {s : State α β W} :
    Numbered ind num g → g ≠ [] → s.queue = g ++ rest →
      ∃ s', Runs ind num job s s' ∧ s'.queue = rest ∧
        s'.ran = s.ran ++ [(w, g.map job)] ∧ ∀ v, v ≠ w → s'.vec v = s.vec v := by
  intro hnumbered hne hqueue
  cases g with
  | nil =>
      exact absurd rfl hne
  | cons c g =>
      obtain ⟨hind, hnum⟩ := hnumbered.head
      rw [List.length_cons] at hnum
      push_cast at hnum
      have htake : take ind num job (s.vec w) c = [job c] := by
        rw [take, if_pos (by omega), List.nil_append]
      have hstep : Step ind num job s (s.pop ind num job w c (g ++ rest)) := .pop w hqueue
      have hframe : ∀ v, v ≠ w → (s.pop ind num job w c (g ++ rest)).vec v = s.vec v :=
        fun v hv => Function.update_of_ne hv _ _
      by_cases hg : g = []
      · subst hg
        refine ⟨_, .single hstep, rfl, ?_, hframe⟩
        simp [State.pop, htake, hind]
      · have hlen : 0 < g.length := List.length_pos_iff.2 hg
        obtain ⟨s', hruns, hrest, hran, hvec⟩ := runs_rest job w
          (s := s.pop ind num job w c (g ++ rest)) hnumbered.tail
          (by rw [List.length_cons]; omega) hg rfl
        refine ⟨s', .head hstep hruns, hrest, ?_, fun v hv => (hvec v hv).trans (hframe v hv)⟩
        have hnot : ¬ ind c = 1 := by omega
        rw [hran]
        simp [State.pop, htake, hnot]

/-- A worker that pops several groups runs each of them. -/
theorem runs_groups (w : Fin W) (groups : List (List α)) (rest : List α) {s : State α β W} :
    (∀ g ∈ groups, Numbered ind num g ∧ g ≠ []) → s.queue = groups.flatten ++ rest →
      ∃ s', Runs ind num job s s' ∧ s'.queue = rest ∧
        s'.ran.map Prod.snd = s.ran.map Prod.snd ++ groups.map (List.map job) ∧
        ∀ v, v ≠ w → s'.vec v = s.vec v := by
  intro hgroups hqueue
  induction groups generalizing s with
  | nil =>
      exact ⟨s, .refl, by simpa using hqueue, by simp, fun _ _ => rfl⟩
  | cons g groups ih =>
      obtain ⟨hnumbered, hne⟩ := hgroups g (by simp)
      obtain ⟨s₁, hruns₁, hqueue₁, hran₁, hvec₁⟩ := runs_group job w hnumbered hne
        (by rw [hqueue, List.flatten_cons, List.append_assoc])
      obtain ⟨s', hruns, hrest, hran, hvec⟩ := ih (fun g' hg' => hgroups g' (by simp [hg']))
        hqueue₁
      refine ⟨s', hruns₁.trans hruns, hrest, ?_, fun v hv => (hvec v hv).trans (hvec₁ v hv)⟩
      rw [hran, hran₁]
      simp

/-! ## Several workers share a group -/

/-- Two workers can break up a group of two items: one takes the first, the other the rest. -/
theorem exists_broken {groups : List (List α)} {g : List α}
    (hgroups : ∀ g ∈ groups, Numbered ind num g ∧ g ≠ []) (hg : g ∈ groups) :
    1 < g.length → 1 < W →
      ∃ s, Runs ind num job (State.init W groups.flatten) s ∧ s.queue = [] ∧
        ¬ (s.ran.map Prod.snd).Perm (groups.map (List.map job)) := by
  intro hlen hW
  let w₀ : Fin W := ⟨0, by omega⟩
  let w₁ : Fin W := ⟨1, hW⟩
  have hw : w₁ ≠ w₀ := by
    intro heq
    cases Fin.mk.inj heq
  obtain ⟨before, later, rfl⟩ := List.append_of_mem hg
  obtain ⟨hnumbered, _⟩ := hgroups g (by simp)
  cases g with
  | nil =>
      cases hlen
  | cons c g =>
      have hgne : g ≠ [] := by
        rintro rfl
        simp at hlen
      obtain ⟨hind, _⟩ := hnumbered.head
      -- the first worker runs the groups before, then pops the first item of this one
      obtain ⟨s₁, hruns₁, hqueue₁, hran₁, hvec₁⟩ := runs_groups job w₀ before
        (c :: (g ++ later.flatten)) (s := State.init W (before ++ (c :: g) :: later).flatten) (fun g' hg' => hgroups g' (by simp [hg']))
        (by simp [State.init])
      have hstep : Step ind num job s₁ (s₁.pop ind num job w₀ c (g ++ later.flatten)) :=
        .pop w₀ hqueue₁
      have hnot : ¬ ind c = 1 := by
        have hpos : 0 < g.length := List.length_pos_iff.2 hgne
        omega
      -- the second one has popped nothing yet and runs what is left of it
      obtain ⟨s₂, hruns₂, hqueue₂, hran₂, _⟩ := runs_rest job w₁
        (s := s₁.pop ind num job w₀ c (g ++ later.flatten)) hnumbered.tail
        (by rw [List.length_cons]; omega) hgne rfl
      obtain ⟨s₃, hruns₃, hqueue₃, hran₃, _⟩ := runs_groups job w₀ later []
        (fun g' hg' => hgroups g' (by simp [hg'])) (by rw [hqueue₂, List.append_nil])
      refine ⟨s₃, hruns₁.trans (.head hstep (hruns₂.trans hruns₃)), hqueue₃, fun hperm => ?_⟩
      have hvec : (s₁.pop ind num job w₀ c (g ++ later.flatten)).vec w₁ = [] := by
        calc
          (s₁.pop ind num job w₀ c (g ++ later.flatten)).vec w₁
            = s₁.vec w₁ := by simp only [State.pop, Function.update_of_ne hw]
          _ = [] := hvec₁ w₁ hw
      -- an item is missing from the batches
      have hcount := hperm.flatten.length_eq
      rw [hran₃, hran₂, hvec] at hcount
      simp [State.pop, hnot, hran₁, State.init] at hcount

/-! ## Every order -/

/-- Where the workers are: `before` has been run, of the next group the items `pre` have been
popped, and if there are any, every worker has collected them. -/
structure Between (groups : List (List α)) (s : State α β W) (before later : List (List α))
    (pre : List α) : Prop where
  groups : groups = before ++ later
  queue : pre ++ s.queue = later.flatten
  ran : s.ran.map Prod.snd = before.map (List.map job)
  vec : pre ≠ [] → ∃ g rest post, later = g :: rest ∧ g = pre ++ post ∧ post ≠ [] ∧
    ∀ w, s.vec w = pre.map job

theorem Between.step {groups before later : List (List α)} {pre : List α} {s s' : State α β W}
    (hgroups : ∀ g ∈ groups, Numbered ind num g ∧ g ≠ [])
    (hcond : W = 1 ∨ ∀ g ∈ groups, g.length ≤ 1)
    (h : Between job groups s before later pre) (hstep : Step ind num job s s') :
    ∃ before' later' pre', Between job groups s' before' later' pre' := by
  obtain ⟨w, hqueue⟩ := hstep
  rename_i c rest
  -- the group that the item belongs to
  obtain ⟨g, later', post, hlater, hg, hrest, hvec⟩ : ∃ g later' post, later = g :: later' ∧
      g = pre ++ c :: post ∧ rest = post ++ later'.flatten ∧ (pre ≠ [] → s.vec w = pre.map job) := by
    have hflat : pre ++ c :: rest = later.flatten := by rw [← h.queue, hqueue]
    by_cases hpre : pre = []
    · subst hpre
      cases later with
      | nil =>
          simp at hflat
      | cons g later' =>
          cases g with
          | nil =>
              exact absurd rfl (hgroups [] (by rw [h.groups]; simp)).2
          | cons d g =>
              simp only [List.nil_append, List.flatten_cons, List.cons_append,
                List.cons.injEq] at hflat
              obtain ⟨rfl, rfl⟩ := hflat
              exact ⟨c :: g, later', g, rfl, rfl, rfl, fun hne => absurd rfl hne⟩
    · obtain ⟨g, later', post, hlater, hg, hpost, hvec⟩ := h.vec hpre
      cases post with
      | nil =>
          exact absurd rfl hpost
      | cons d post =>
          rw [hlater, List.flatten_cons, hg, List.append_assoc,
            List.append_cancel_left_eq] at hflat
          simp only [List.cons_append, List.cons.injEq] at hflat
          obtain ⟨rfl, rfl⟩ := hflat
          exact ⟨g, later', post, hlater, hg, rfl, fun _ => hvec w⟩
  have hmem : g ∈ groups := by
    rw [h.groups, hlater]
    simp
  obtain ⟨hind, hnum⟩ := (hgroups g hmem).1 pre c post hg
  have hlen : (g.length : Int) = pre.length + (post.length + 1) := by
    rw [hg]
    simp
  have htake : take ind num job (s.vec w) c = (pre ++ [c]).map job := by
    by_cases hpre : pre = []
    · subst hpre
      rw [take, if_pos (by rw [hind, hnum, hlen]; simp)]
      rfl
    · have hpos : 0 < pre.length := List.length_pos_iff.2 hpre
      rw [take, if_neg (by omega), hvec hpre]
      simp
  by_cases hpost : post = []
  · -- the last item of the group: its batch is run
    subst hpost
    have hone : ind c = 1 := by simpa using hind
    refine ⟨before ++ [g], later', [], ?_, ?_, ?_, fun hne => absurd rfl hne⟩
    · rw [h.groups, hlater, List.append_assoc]
      rfl
    · simpa [State.pop] using hrest
    · simp [State.pop, hone, htake, h.ran, hg]
  · have hpos : 0 < post.length := List.length_pos_iff.2 hpost
    have hnot : ¬ ind c = 1 := by omega
    -- a group of two items, so there is one worker only
    have hW : W = 1 := by
      refine hcond.resolve_right fun hall => ?_
      have := hall g hmem
      omega
    subst hW
    refine ⟨before, later, pre ++ [c], h.groups, ?_, ?_, fun _ => ?_⟩
    · rw [← h.queue, hqueue]
      simp [State.pop]
    · simp [State.pop, hnot, h.ran]
    · refine ⟨g, later', post, hlater, by rw [hg]; simp, hpost, fun v => ?_⟩
      rw [Subsingleton.elim v w]
      simpa [State.pop] using htake

/-- However the workers share the queue, each group is one batch, if there is one worker or no
group has two items. -/
theorem batchedOnce_of_cond {groups : List (List α)}
    (hgroups : ∀ g ∈ groups, Numbered ind num g ∧ g ≠ [])
    (hcond : W = 1 ∨ ∀ g ∈ groups, g.length ≤ 1) {s : State α β W} :
    Runs ind num job (State.init W groups.flatten) s → BatchedOnce job groups s := by
  intro hruns
  have hinv : ∃ before later pre, Between job groups s before later pre := by
    induction hruns with
    | refl =>
        exact ⟨[], groups, [], rfl, rfl, rfl, fun hne => absurd rfl hne⟩
    | tail _ hstep ih =>
        obtain ⟨before, later, pre, h⟩ := ih
        exact h.step job hgroups hcond hstep
  obtain ⟨before, later, pre, h⟩ := hinv
  constructor
  · rw [h.ran, h.groups, List.map_append]
    exact (List.sublist_append_left _ _).subperm
  · intro hqueue
    have hflat := h.queue
    rw [hqueue, List.append_nil] at hflat
    -- nothing is left of the groups, not even of the one that was begun
    have hlater : later = [] := by
      by_cases hpre : pre = []
      · cases later with
        | nil =>
            rfl
        | cons g later =>
            have hne := (hgroups g (by rw [h.groups]; simp)).2
            rw [hpre, List.flatten_cons] at hflat
            exact absurd (List.append_eq_nil_iff.1 hflat.symm).1 hne
      · obtain ⟨g, rest, post, hl, hg, hpost, _⟩ := h.vec hpre
        rw [hl, List.flatten_cons, hg] at hflat
        have hlen := congrArg List.length hflat
        have hpos : 0 < post.length := List.length_pos_iff.2 hpost
        simp only [List.length_append] at hlen
        omega
    rw [h.ran, h.groups, hlater, List.append_nil]

/-- Whichever workers pop which items, the batches are the groups: just when there is one worker or
no group has two items. -/
theorem batchedOnce_iff {groups : List (List α)}
    (hgroups : ∀ g ∈ groups, Numbered ind num g ∧ g ≠ []) (hW : 1 ≤ W) :
    (∀ s : State α β W, Runs ind num job (State.init W groups.flatten) s →
      BatchedOnce job groups s) ↔ W = 1 ∨ ∀ g ∈ groups, g.length ≤ 1 := by
  constructor
  · intro hall
    by_contra hcond
    rw [not_or, not_forall] at hcond
    obtain ⟨hne, g, hg⟩ := hcond
    obtain ⟨hmem, hlen⟩ := not_forall.1 hg
    have hW2 : 1 < W := by omega
    obtain ⟨s, hruns, hqueue, hbroken⟩ := exists_broken job hgroups hmem
      (Nat.lt_of_not_le hlen) hW2
    exact hbroken ((hall s hruns).complete hqueue)
  · intro hcond s hruns
    exact batchedOnce_of_cond job hgroups hcond hruns

end Lemmas

end Collect
