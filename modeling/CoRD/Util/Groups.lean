import Mathlib.Algebra.GroupWithZero.Nat
import Mathlib.Algebra.Order.BigOperators.Group.List
import Mathlib.Data.Finset.Card
import Mathlib.Data.List.Perm.Subperm
import Mathlib.Data.List.Sublists
import Mathlib.Order.Basic

/-!
# Groups — lists of elements that belong to groups

An order that keeps the elements of each group together changes the group as seldom as it can.  And
to cover a demand by as few groups as possible, it is enough to take the largest ones first.
-/

namespace Groups

variable {α κ : Type} [DecidableEq κ]

/-! ## Keeping groups together -/

/-- Between two elements of a group there is no element of another. -/
def Contiguous (l : List κ) : Prop :=
  ∀ (i j m : Nat) (c : κ), i ≤ j → j ≤ m → l[i]? = some c → l[m]? = some c → l[j]? = some c

/-- How often the group changes along a list. -/
def changes : List κ → Nat
  | a :: b :: l => (if a = b then 0 else 1) + changes (b :: l)
  | _ => 0

omit [DecidableEq κ] in
theorem contiguous_nil : Contiguous ([] : List κ) := by
  intro i j m c _ _ hi
  cases hi

omit [DecidableEq κ] in
/-- A group that comes first comes back only at once. -/
theorem contiguous_cons_iff {a : κ} {l : List κ} :
    Contiguous (a :: l) ↔ Contiguous l ∧ (a ∈ l → l.head? = some a) := by
  constructor
  · intro h
    refine ⟨fun i j m c hij hjm hi hm => ?_, fun hmem => ?_⟩
    · exact h (i + 1) (j + 1) (m + 1) c (Nat.succ_le_succ hij) (Nat.succ_le_succ hjm) hi hm
    · rcases List.getElem?_of_mem hmem with ⟨m, hm⟩
      have hsecond := h 0 1 (m + 1) a (Nat.zero_le 1) (Nat.succ_le_succ (Nat.zero_le m)) rfl hm
      simpa [List.head?_eq_getElem?] using hsecond
  · rintro ⟨hl, hhead⟩ i j m c hij hjm hi hm
    cases j with
    | zero =>
        exact (Nat.le_zero.1 hij) ▸ hi
    | succ j =>
        cases m with
        | zero =>
            exact absurd hjm (Nat.not_succ_le_zero j)
        | succ m =>
            cases i with
            | succ i =>
                exact hl i j m c (Nat.le_of_succ_le_succ hij) (Nat.le_of_succ_le_succ hjm) hi hm
            | zero =>
                -- the element is in the first group, so the list behind it begins with that group
                have hac : a = c := Option.some.inj hi
                subst hac
                have hm' : l[m]? = some a := hm
                have hfirst := hhead (List.mem_of_getElem? hm')
                rw [List.head?_eq_getElem?] at hfirst
                exact hl 0 j m a (Nat.zero_le j) (Nat.le_of_succ_le_succ hjm) hfirst hm'

/-- Along a list that keeps the groups together each group but the first is entered once. -/
theorem changes_succ {l : List κ} : Contiguous l → l ≠ [] → changes l + 1 = l.toFinset.card := by
  intro h hne
  induction l with
  | nil =>
      exact absurd rfl hne
  | cons a l ih =>
      cases l with
      | nil =>
          rfl
      | cons b l =>
          rcases contiguous_cons_iff.1 h with ⟨hl, hhead⟩
          have hrest := ih hl (List.cons_ne_nil b l)
          by_cases hab : a = b
          · have hmem : a ∈ b :: l := hab ▸ List.mem_cons_self
            rw [changes, if_pos hab, Nat.zero_add, hrest, List.toFinset_cons (a := a),
              Finset.insert_eq_of_mem (List.mem_toFinset.2 hmem)]
          · have hnot : a ∉ b :: l := by
              intro hmem
              exact hab (Option.some.inj (hhead hmem)).symm
            rw [changes, if_neg hab, List.toFinset_cons (a := a),
              Finset.card_insert_of_notMem (mt List.mem_toFinset.1 hnot), ← hrest, Nat.add_comm 1]

omit [DecidableEq κ] in
theorem Contiguous.replicate_append {l : List κ} {c : κ} (hl : Contiguous l) (n : Nat) :
    c ∉ l → Contiguous (List.replicate n c ++ l) := by
  intro hnot
  induction n with
  | zero =>
      exact hl
  | succ n ih =>
      refine contiguous_cons_iff.2 ⟨ih, fun hmem => ?_⟩
      cases n with
      | zero =>
          exact absurd hmem hnot
      | succ n =>
          rfl

omit [DecidableEq κ] in
/-- Groups one behind the other. -/
theorem contiguous_flatMap {f : α → κ} {groups : List (κ × List α)} :
    (groups.map Prod.fst).Nodup → (∀ g ∈ groups, ∀ a ∈ g.2, f a = g.1) →
      Contiguous ((groups.flatMap Prod.snd).map f) := by
  intro hnodup hkey
  induction groups with
  | nil =>
      exact contiguous_nil
  | cons g groups ih =>
      rcases List.nodup_cons.1 hnodup with ⟨hnew, hrest⟩
      have hkey' : ∀ g' ∈ groups, ∀ a ∈ g'.2, f a = g'.1 :=
        fun g' hg' => hkey g' (List.mem_cons_of_mem g hg')
      have hfirst : g.2.map f = List.replicate g.2.length g.1 :=
        List.eq_replicate_iff.2 ⟨List.length_map _, fun c hc => by
          rcases List.mem_map.1 hc with ⟨a, ha, rfl⟩
          exact hkey g List.mem_cons_self a ha⟩
      have hnot : g.1 ∉ (groups.flatMap Prod.snd).map f := by
        intro hmem
        rcases List.mem_map.1 hmem with ⟨a, ha, heq⟩
        rcases List.mem_flatMap.1 ha with ⟨g', hg', ha'⟩
        exact hnew (List.mem_map.2 ⟨g', hg', (hkey' g' hg' a ha').symm.trans heq⟩)
      simpa [hfirst] using (ih hrest hkey').replicate_append g.2.length hnot

/-! ## Runs between bounds -/

/-- Group `c` has the positions from `start c` up to the start of the next group. -/
def Runs (start : Nat → Nat) (l : List Nat) : Prop :=
  ∀ i c, l[i]? = some c → start c ≤ i ∧ i < start (c + 1)

theorem Runs.concat {start : Nat → Nat} {l : List Nat} {c : Nat} (hl : Runs start l) :
    start c ≤ l.length → l.length < start (c + 1) → Runs start (l ++ [c]) := by
  intro hstart hend i d hi
  rcases Nat.lt_trichotomy i l.length with hlt | rfl | hgt
  · rw [List.getElem?_append_left hlt] at hi
    exact hl i d hi
  · rw [List.getElem?_concat_length] at hi
    obtain rfl : c = d := Option.some.inj hi
    exact ⟨hstart, hend⟩
  · have hlen : (l ++ [c]).length ≤ i := by
      rw [List.length_append]
      exact hgt
    rw [List.getElem?_eq_none hlen] at hi
    cases hi

theorem Runs.contiguous {start : Nat → Nat} {l : List Nat} (hstart : Monotone start)
    (hl : Runs start l) : Contiguous l := by
  intro i j m c hij hjm hi hm
  have hj : j < l.length := Nat.lt_of_le_of_lt hjm (List.getElem?_eq_some_iff.1 hm).1
  have hat : l[j]? = some l[j] := List.getElem?_eq_getElem hj
  have hrun := hl j _ hat
  have hlow := hl i c hi
  have hhigh := hl m c hm
  -- the run of another group lies on one side of that of `c`
  rcases Nat.lt_trichotomy l[j] c with hlt | heq | hgt
  · have hle : start (l[j] + 1) ≤ start c := hstart hlt
    omega
  · rw [hat, heq]
  · have hle : start (c + 1) ≤ start l[j] := hstart hgt
    omega

/-- How many of the first positions a group has. -/
theorem Runs.count {start : Nat → Nat} {l : List Nat} (hstart : Monotone start) (c : Nat) :
    Runs start l → l.count c = min l.length (start (c + 1)) - start c := by
  intro hl
  induction l using List.reverseRecOn with
  | nil => simp
  | append_singleton l d ih =>
      have hinit : Runs start l := by
        intro i e hi
        refine hl i e ?_
        rw [List.getElem?_append_left (List.getElem?_eq_some_iff.1 hi).1, hi]
      have hlast := hl l.length d List.getElem?_concat_length
      have hcount : (l ++ [d]).count c = l.count c + if d = c then 1 else 0 := by
        simp [List.count_append, List.count_singleton]
      rw [hcount, ih hinit, List.length_append, List.length_singleton]
      rcases Nat.lt_trichotomy d c with hlt | rfl | hgt
      · have hle : start (d + 1) ≤ start c := hstart hlt
        rw [if_neg hlt.ne]
        omega
      · rw [if_pos rfl]
        omega
      · have hle : start (c + 1) ≤ start d := hstart hgt
        rw [if_neg hgt.ne']
        omega

/-! ## Covering a demand -/

/-- The largest number makes up for any one behind it. -/
theorem sum_take_le_cons {a : Nat} {l : List Nat} (n : Nat) : (∀ b ∈ l, b ≤ a) →
    (l.take n).sum ≤ ((a :: l).take n).sum := by
  intro hle
  cases n with
  | zero =>
      exact le_rfl
  | succ n =>
      have hlast : ((l.drop n).take 1).sum ≤ a := by
        cases hdrop : l.drop n with
        | nil =>
            exact Nat.zero_le a
        | cons b r =>
            have hmem : b ∈ l := List.mem_of_mem_drop (hdrop ▸ List.mem_cons_self)
            simpa using hle b hmem
      calc (l.take (n + 1)).sum
          = (l.take n).sum + ((l.drop n).take 1).sum := by rw [List.take_add, List.sum_append]
        _ ≤ (l.take n).sum + a := Nat.add_le_add_left hlast _
        _ = ((a :: l).take (n + 1)).sum := by
          rw [List.take_succ_cons, List.sum_cons, Nat.add_comm]

/-- Of the numbers in descending order, the first ones have the largest sum. -/
theorem sum_le_sum_take {l t : List Nat} : l.Pairwise (· ≥ ·) → t.Subperm l →
    t.sum ≤ (l.take t.length).sum := by
  rintro hl ⟨t', hperm, hsub⟩
  rw [← hperm.sum_eq, ← hperm.length_eq]
  clear hperm
  induction hsub with
  | slnil =>
      exact le_rfl
  | cons a _ ih =>
      rcases List.pairwise_cons.1 hl with ⟨hle, hl'⟩
      exact (ih hl').trans (sum_take_le_cons _ hle)
  | cons_cons a _ ih =>
      simpa using ih (List.pairwise_cons.1 hl).2

end Groups
