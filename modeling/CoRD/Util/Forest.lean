import Mathlib.Algebra.BigOperators.Group.Finset.Piecewise
import Mathlib.Algebra.Order.BigOperators.Group.Finset

/-!
# Forest — sums along parents

Every node has a parent with a larger number.  Of the nodes below `n` some have their parents there
too, and the others are the roots of a forest.  A node adds up what it has and what its children
sent; the roots together send all there is.  From each node one path leads out of the forest.
-/

namespace Forest

variable {par : Nat → Nat} {M : Type}

/-- What a node sends: its own, and what its children send. -/
def total [AddCommMonoid M] (par : Nat → Nat) (own : Nat → M) (p : Nat) : M :=
  own p + ((List.range p).attach.map fun c => if par c.1 = p then total par own c.1 else 0).sum
termination_by p
decreasing_by exact List.mem_range.1 c.2

theorem total_eq [AddCommMonoid M] (hpar : ∀ c, c < par c) (own : Nat → M) {n p : Nat} : p ≤ n →
    total par own p =
      own p + ((Finset.range n).filter (par · = p)).sum (total par own) := by
  intro hp
  have hchildren : (Finset.range n).filter (par · = p) = (Finset.range p).filter (par · = p) := by
    ext c
    rw [Finset.mem_filter, Finset.mem_filter, Finset.mem_range, Finset.mem_range]
    have hc := hpar c
    constructor
    · rintro ⟨-, heq⟩
      exact ⟨heq ▸ hc, heq⟩
    · rintro ⟨hlt, heq⟩
      exact ⟨hlt.trans_le hp, heq⟩
  rw [total, hchildren, Finset.sum_filter]
  refine congrArg (own p + ·) ?_
  exact congrArg List.sum (List.attach_map_val (l := List.range p)
    (f := fun c => if par c = p then total par own c else 0))

/-- The roots send everything. -/
theorem sum_roots [AddCancelCommMonoid M] (hpar : ∀ c, c < par c) (own : Nat → M) (n : Nat) :
    ((Finset.range n).filter (n ≤ par ·)).sum (total par own) = (Finset.range n).sum own := by
  -- what the nodes send, once as the sums that they form and once by where it goes
  have hsums : (Finset.range n).sum (total par own) = (Finset.range n).sum own +
      (Finset.range n).sum fun p => ((Finset.range n).filter (par · = p)).sum (total par own) := by
    rw [← Finset.sum_add_distrib]
    exact Finset.sum_congr rfl fun p hp => total_eq hpar own (Finset.mem_range.1 hp).le
  have hinner : ((Finset.range n).sum fun p =>
      ((Finset.range n).filter (par · = p)).sum (total par own)) =
      ((Finset.range n).filter (par · < n)).sum (total par own) := by
    rw [Finset.sum_fiberwise_eq_sum_filter]
    exact Finset.sum_congr (Finset.filter_congr fun c _ => Finset.mem_range) fun _ _ => rfl
  have hsplit := Finset.sum_filter_add_sum_filter_not (Finset.range n) (par · < n) (total par own)
  rw [hsums, hinner, add_comm] at hsplit
  have hroots := add_right_cancel hsplit
  rw [← hroots]
  exact Finset.sum_congr (Finset.filter_congr fun c _ => Nat.not_lt.symm) fun _ _ => rfl

/-- From a node one path leads to the end, if each node on it has one successor. -/
theorem existsUnique_path (next : Nat → Nat) {n : Nat} {Leads : Nat → Nat → Prop}
    (hup : ∀ c < n, c < next c ∧ next c ≤ n)
    (hleads : ∀ c < n, ∀ p ≤ n, (Leads c p ↔ p = next c)) :
    ∀ c < n, ∃! l : List Nat, (∀ p ∈ l, p < n) ∧ (c :: (l ++ [n])).IsChain Leads := by
  intro c hc
  -- on the distance to `n`, which every step of the path makes smaller
  induction hd : n - c using Nat.strong_induction_on generalizing c with
  | _ d ih =>
      rcases hup c hc with ⟨hlt, hle⟩
      rcases hle.lt_or_eq with hin | hend
      · rcases ih (n - next c) (by omega) (next c) hin rfl with ⟨l, ⟨hl, hchain⟩, huniq⟩
        refine ⟨next c :: l, ⟨?_, ?_⟩, ?_⟩
        · exact List.forall_mem_cons.2 ⟨hin, hl⟩
        · exact List.isChain_cons_cons.2 ⟨(hleads c hc _ hle).2 rfl, hchain⟩
        · rintro l' ⟨hl', hchain'⟩
          cases l' with
          | nil =>
              have hstep := (hleads c hc n le_rfl).1 (List.isChain_cons_cons.1 hchain').1
              omega
          | cons p l' =>
              rcases List.isChain_cons_cons.1 hchain' with ⟨hstep, hrest⟩
              have hlt' := (List.forall_mem_cons.1 hl').1
              have hp := (hleads c hc p hlt'.le).1 hstep
              subst hp
              exact congrArg (next c :: ·) (huniq l' ⟨(List.forall_mem_cons.1 hl').2, hrest⟩)
      · refine ⟨[], ⟨fun p hp => absurd hp List.not_mem_nil, ?_⟩, ?_⟩
        · exact List.isChain_cons_cons.2 ⟨(hleads c hc n le_rfl).2 hend.symm, List.isChain_singleton _⟩
        · rintro l' ⟨hl', hchain'⟩
          cases l' with
          | nil => rfl
          | cons p l' =>
              have hlt' := (List.forall_mem_cons.1 hl').1
              have hp := (hleads c hc p hlt'.le).1 (List.isChain_cons_cons.1 hchain').1
              omega

end Forest
