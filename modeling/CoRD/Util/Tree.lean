import Mathlib.Algebra.BigOperators.Fin
import Mathlib.Data.List.Nodup
import Std.Data.TreeMap
import Std.Data.TreeSet

/-!
# Tree — ordered maps and sets filled by loops

What a loop of insertions leaves in an ordered map or set, when the keys it inserts differ.
-/

namespace Tree

open Std

variable {κ β : Type} {cmp : κ → κ → Ordering} [TransCmp cmp] [LawfulEqCmp cmp]

omit [LawfulEqCmp cmp] in
theorem toList_map_nodup (m : TreeMap κ β cmp) : (m.toList.map Prod.fst).Nodup := by
  rw [TreeMap.map_fst_toList_eq_keys]
  exact TreeMap.nodup_keys

omit [LawfulEqCmp cmp] in
theorem toList_nodup (m : TreeMap κ β cmp) : m.toList.Nodup :=
  (toList_map_nodup m).of_map _

/-- A map lists the pairs of `l` when its entries are those of `l`. -/
theorem toList_perm_of_getElem? {m : TreeMap κ β cmp} {l : List (κ × β)} (hl : l.Nodup) :
    (∀ k v, m[k]? = some v ↔ (k, v) ∈ l) → m.toList.Perm l := by
  intro h
  refine (List.perm_ext_iff_of_nodup (toList_nodup m) hl).2 fun p => ?_
  obtain ⟨k, v⟩ := p
  rw [TreeMap.mem_toList_iff_getElem?_eq_some, h]

/-- A map is listed by its entries. -/
theorem toList_eq_of_getElem? {m m' : TreeMap κ β cmp} :
    (∀ k : κ, m[k]? = m'[k]?) → m.toList = m'.toList :=
  fun h => (TreeMap.Equiv.of_forall_constGet?_eq h).toList_eq

/-! ## Loops of `insert({k, v})` -/

/-- Insert the pairs of `l` in order; an entry that is there stays. -/
def insertAll (l : List (κ × β)) (m : TreeMap κ β cmp) : TreeMap κ β cmp :=
  l.foldl (fun m p => m.insertIfNew p.1 p.2) m

theorem getElem?_insertAll {l : List (κ × β)} {m : TreeMap κ β cmp} {k : κ} {v : β} :
    (l.map Prod.fst).Nodup → (∀ p ∈ l, p.1 ∉ m) →
      ((insertAll l m)[k]? = some v ↔ (k, v) ∈ l ∨ m[k]? = some v) := by
  induction l generalizing m with
  | nil =>
      intro _ _
      simp [insertAll]
  | cons p l ih =>
      intro hnodup hfresh
      rw [List.map_cons, List.nodup_cons] at hnodup
      have hp : p.1 ∉ m := hfresh p (by simp)
      -- the keys are different, so the rest is still new
      have hfresh' : ∀ q ∈ l, q.1 ∉ m.insertIfNew p.1 p.2 := by
        intro q hq hmem
        rw [TreeMap.mem_insertIfNew, LawfulEqCmp.compare_eq_iff_eq] at hmem
        rcases hmem with heq | hmem
        · exact hnodup.1 (heq ▸ List.mem_map_of_mem hq)
        · exact hfresh q (by simp [hq]) hmem
      have hstep : insertAll (p :: l) m = insertAll l (m.insertIfNew p.1 p.2) := rfl
      rw [hstep, ih hnodup.2 hfresh', TreeMap.getElem?_insertIfNew, List.mem_cons]
      by_cases hk : k = p.1
      · subst hk
        have hnone : m[p.1]? = none := TreeMap.getElem?_eq_none hp
        rw [if_pos ⟨LawfulEqCmp.compare_eq_iff_eq.2 rfl, hp⟩, hnone]
        simp only [Option.some.injEq, reduceCtorEq, or_false]
        constructor
        · rintro (hmem | rfl)
          · exact Or.inr hmem
          · exact Or.inl rfl
        · rintro (heq | hmem)
          · exact Or.inr (congrArg Prod.snd heq).symm
          · exact Or.inl hmem
      · rw [if_neg fun h => hk (LawfulEqCmp.compare_eq_iff_eq.1 h.1).symm]
        have hne : (k, v) ≠ p := fun heq => hk (congrArg Prod.fst heq)
        simp only [hne, false_or]

theorem mem_insertAll {l : List (κ × β)} {m : TreeMap κ β cmp} {k : κ} :
    k ∈ insertAll l m ↔ k ∈ l.map Prod.fst ∨ k ∈ m := by
  induction l generalizing m with
  | nil =>
      simp [insertAll]
  | cons p l ih =>
      have hstep : insertAll (p :: l) m = insertAll l (m.insertIfNew p.1 p.2) := rfl
      rw [hstep, ih, TreeMap.mem_insertIfNew, LawfulEqCmp.compare_eq_iff_eq, List.map_cons,
        List.mem_cons, eq_comm]
      tauto

theorem getElem?_insertAll_empty {l : List (κ × β)} {k : κ} {v : β} :
    (l.map Prod.fst).Nodup →
      ((insertAll l (∅ : TreeMap κ β cmp))[k]? = some v ↔ (k, v) ∈ l) := by
  intro hnodup
  rw [getElem?_insertAll hnodup fun p _ => TreeMap.not_mem_emptyc]
  simp

theorem toList_insertAll_empty {l : List (κ × β)} :
    (l.map Prod.fst).Nodup → (insertAll l (∅ : TreeMap κ β cmp)).toList.Perm l := by
  intro hnodup
  exact toList_perm_of_getElem? (hnodup.of_map _) fun k v => getElem?_insertAll_empty hnodup

/-! ## Loops of `m[k] = v` -/

/-- Write the pairs of `l` in order. -/
def writeAll (l : List (κ × β)) (m : TreeMap κ β cmp) : TreeMap κ β cmp :=
  l.foldl (fun m p => m.insert p.1 p.2) m

theorem getElem?_writeAll {l : List (κ × β)} {m : TreeMap κ β cmp} {k : κ} {v : β} :
    (l.map Prod.fst).Nodup →
      ((writeAll l m)[k]? = some v ↔ (k, v) ∈ l ∨ k ∉ l.map Prod.fst ∧ m[k]? = some v) := by
  induction l generalizing m with
  | nil =>
      intro _
      simp [writeAll]
  | cons p l ih =>
      intro hnodup
      rw [List.map_cons, List.nodup_cons] at hnodup
      have hstep : writeAll (p :: l) m = writeAll l (m.insert p.1 p.2) := rfl
      rw [hstep, ih hnodup.2, TreeMap.getElem?_insert, List.mem_cons, List.map_cons,
        List.mem_cons]
      by_cases hk : k = p.1
      · subst hk
        have hnot : (p.1, v) ∉ l := fun h => hnodup.1 (List.mem_map.2 ⟨_, h, rfl⟩)
        rw [if_pos (LawfulEqCmp.compare_eq_iff_eq.2 rfl)]
        simp only [hnot, hnodup.1, not_false_eq_true, true_and, false_or, or_false,
          not_true_eq_false, false_and, Option.some.injEq]
        constructor
        · rintro rfl
          rfl
        · intro heq
          exact (congrArg Prod.snd heq).symm
      · have hne : (k, v) ≠ p := fun h => hk (congrArg Prod.fst h)
        rw [if_neg fun h => hk (LawfulEqCmp.compare_eq_iff_eq.1 h).symm]
        simp [hk, hne]

theorem toList_writeAll_empty {l : List (κ × β)} :
    (l.map Prod.fst).Nodup → (writeAll l (∅ : TreeMap κ β cmp)).toList.Perm l := by
  intro hnodup
  refine toList_perm_of_getElem? (hnodup.of_map _) fun k v => ?_
  rw [getElem?_writeAll hnodup]
  simp

/-! ## Sets -/

/-- Insert the elements of `l` in order. -/
def addAll (l : List κ) (s : TreeSet κ cmp) : TreeSet κ cmp :=
  l.foldl (fun s a => s.insert a) s

theorem mem_addAll {l : List κ} {s : TreeSet κ cmp} {a : κ} : a ∈ addAll l s ↔ a ∈ l ∨ a ∈ s := by
  induction l generalizing s with
  | nil =>
      simp [addAll]
  | cons b l ih =>
      have hstep : addAll (b :: l) s = addAll l (s.insert b) := rfl
      rw [hstep, ih, TreeSet.mem_insert, LawfulEqCmp.compare_eq_iff_eq, List.mem_cons]
      constructor
      · rintro (hl | rfl | hs)
        · exact Or.inl (Or.inr hl)
        · exact Or.inl (Or.inl rfl)
        · exact Or.inr hs
      · rintro ((rfl | hl) | hs)
        · exact Or.inr (Or.inl rfl)
        · exact Or.inl hl
        · exact Or.inr (Or.inr hs)

theorem set_toList_nodup (s : TreeSet κ cmp) : s.toList.Nodup := by
  refine s.distinct_toList.imp ?_
  intro a b h heq
  exact h (LawfulEqCmp.compare_eq_iff_eq.2 heq)

theorem toList_addAll_empty {l : List κ} :
    l.Nodup → (addAll l (∅ : TreeSet κ cmp)).toList.Perm l := by
  intro hnodup
  refine (List.perm_ext_iff_of_nodup (set_toList_nodup _) hnodup).2 fun a => ?_
  rw [TreeSet.mem_toList, mem_addAll]
  simp

/-- Insert the elements of `l` that pass `ok` until there are `k`. -/
def addUpTo (k : Nat) (ok : κ → Bool) (l : List κ) (s : TreeSet κ cmp) : TreeSet κ cmp :=
  l.foldl (fun s a => if s.size < k ∧ ok a then s.insert a else s) s

theorem toList_addUpTo_empty {k : Nat} {ok : κ → Bool} {l : List κ} :
    l.Nodup → (addUpTo k ok l (∅ : TreeSet κ cmp)).toList.Perm ((l.filter ok).take k) := by
  intro hnodup
  -- the list is scanned from the left, so its last element is the step
  induction l using List.reverseRecOn with
  | nil =>
      refine (List.perm_ext_iff_of_nodup (set_toList_nodup _) (by simp)).2 fun a => ?_
      rw [TreeSet.mem_toList]
      simp [addUpTo]
  | append_singleton l a ih =>
      have hl : l.Nodup := (List.nodup_append.1 hnodup).1
      have hstep : addUpTo k ok (l ++ [a]) (∅ : TreeSet κ cmp) =
          if (addUpTo k ok l (∅ : TreeSet κ cmp)).size < k ∧ ok a then
            (addUpTo k ok l (∅ : TreeSet κ cmp)).insert a
          else addUpTo k ok l (∅ : TreeSet κ cmp) := by
        rw [addUpTo, List.foldl_append]
        rfl
      have hsize : (addUpTo k ok l (∅ : TreeSet κ cmp)).size =
          min k (l.filter ok).length := by
        rw [← TreeSet.length_toList, (ih hl).length_eq, List.length_take]
      rw [hstep, List.filter_append, List.take_append]
      by_cases hlt : (addUpTo k ok l (∅ : TreeSet κ cmp)).size < k
      · have hroom : k - (l.filter ok).length ≠ 0 := by omega
        obtain ⟨r, hr⟩ := Nat.exists_eq_succ_of_ne_zero hroom
        by_cases hok : ok a = true
        · -- the new element is one more
          have hnot : a ∉ addUpTo k ok l (∅ : TreeSet κ cmp) := by
            rw [← TreeSet.mem_toList, (ih hl).mem_iff]
            intro hmem
            have hin : a ∈ l := (List.mem_filter.1 (List.mem_of_mem_take hmem)).1
            exact (List.nodup_append.1 hnodup).2.2 a hin a (by simp) rfl
          have hinsert : ((addUpTo k ok l (∅ : TreeSet κ cmp)).insert a).toList.Perm
              (a :: (addUpTo k ok l (∅ : TreeSet κ cmp)).toList) := by
            refine (List.perm_ext_iff_of_nodup (set_toList_nodup _) ?_).2 fun b => ?_
            · rw [List.nodup_cons, TreeSet.mem_toList]
              exact ⟨hnot, set_toList_nodup _⟩
            · rw [TreeSet.mem_toList, TreeSet.mem_insert, LawfulEqCmp.compare_eq_iff_eq,
                List.mem_cons, TreeSet.mem_toList, eq_comm]
          rw [if_pos ⟨hlt, hok⟩, hr]
          simp only [List.filter_cons_of_pos hok, List.filter_nil, List.take_succ_cons,
            List.take_nil]
          exact hinsert.trans (((ih hl).cons a).trans (List.perm_append_singleton a _).symm)
        · rw [if_neg fun h => hok h.2]
          simp only [List.filter_cons_of_neg hok, List.filter_nil, List.take_nil, List.append_nil]
          exact ih hl
      · have hfull : k - (l.filter ok).length = 0 := by omega
        rw [if_neg fun h => hlt h.1, hfull]
        simpa using ih hl

/-! ## Groups -/

/-- Sort the elements of `l` into lists by the value of `f`. -/
def group {α : Type} (f : α → κ) (l : List α) (m : TreeMap κ (List α) cmp) :
    TreeMap κ (List α) cmp :=
  l.foldl (fun m a => m.insert (f a) (m.getD (f a) [] ++ [a])) m

theorem getElem?_group [DecidableEq κ] {α : Type} {f : α → κ} {l : List α} {k : κ} :
    (group f l (∅ : TreeMap κ (List α) cmp))[k]? =
      if k ∈ l.map f then some (l.filter fun a => f a = k) else none := by
  induction l using List.reverseRecOn with
  | nil =>
      simp [group]
  | append_singleton l a ih =>
      have hstep : group f (l ++ [a]) (∅ : TreeMap κ (List α) cmp) =
          (group f l (∅ : TreeMap κ (List α) cmp)).insert (f a)
            ((group f l (∅ : TreeMap κ (List α) cmp)).getD (f a) [] ++ [a]) := by
        simp [group]
      rw [hstep, TreeMap.getElem?_insert, List.map_append, List.filter_append]
      by_cases hk : f a = k
      · subst hk
        rw [if_pos (LawfulEqCmp.compare_eq_iff_eq.2 rfl), if_pos (by simp),
          TreeMap.getD_eq_getD_getElem?, ih]
        by_cases hmem : f a ∈ l.map f
        · rw [if_pos hmem]
          simp
        · have hnone : l.filter (fun b => f b = f a) = [] := by
            refine List.filter_eq_nil_iff.2 fun b hb heq => ?_
            exact hmem (List.mem_map.2 ⟨b, hb, by simpa using heq⟩)
          rw [if_neg hmem]
          simp [hnone]
      · have hne : ¬ k = f a := fun heq => hk heq.symm
        rw [if_neg fun h => hk (LawfulEqCmp.compare_eq_iff_eq.1 h), ih]
        simp [hk, hne]

/-- Picking the elements key by key. -/
theorem flatMap_filter_perm [DecidableEq κ] {α : Type} {f : α → κ} {keys : List κ} {l : List α} :
    keys.Nodup → (∀ a ∈ l, f a ∈ keys) →
      (keys.flatMap fun k => l.filter fun a => f a = k).Perm l := by
  induction keys generalizing l with
  | nil =>
      intro _ hmem
      have hnil : l = [] := List.eq_nil_iff_forall_not_mem.2 fun a ha => by simpa using hmem a ha
      simp [hnil]
  | cons k keys ih =>
      intro hnodup hmem
      rw [List.nodup_cons] at hnodup
      have hrest : (keys.flatMap fun k' => l.filter fun a => f a = k') =
          keys.flatMap fun k' => (l.filter fun a => ¬ f a = k).filter fun a => f a = k' := by
        refine List.flatMap_congr fun k' hk' => ?_
        rw [List.filter_filter]
        refine List.filter_congr fun a _ => ?_
        by_cases ha : f a = k'
        · have hne : f a ≠ k := fun heq => hnodup.1 (heq ▸ ha ▸ hk')
          simp [ha, ha ▸ hne]
        · simp [ha]
      have hmem' : ∀ a ∈ l.filter (fun a => ¬ f a = k), f a ∈ keys := by
        intro a ha
        obtain ⟨hal, hak⟩ := List.mem_filter.1 ha
        rcases List.mem_cons.1 (hmem a hal) with heq | hin
        · simp [heq] at hak
        · exact hin
      rw [List.flatMap_cons, hrest]
      refine ((ih hnodup.2 hmem').append_left _).trans ?_
      simpa using List.filter_append_perm (fun a => decide (f a = k)) l

theorem group_perm [DecidableEq κ] {α : Type} (f : α → κ) (l : List α) :
    ((group f l (∅ : TreeMap κ (List α) cmp)).toList.flatMap Prod.snd).Perm l := by
  have hvals : (group f l (∅ : TreeMap κ (List α) cmp)).toList.flatMap Prod.snd =
      (group f l (∅ : TreeMap κ (List α) cmp)).keys.flatMap
        fun k => l.filter fun a => f a = k := by
    rw [← TreeMap.map_fst_toList_eq_keys, List.flatMap_map]
    refine List.flatMap_congr fun p hp => ?_
    have hget := TreeMap.mem_toList_iff_getElem?_eq_some.1 hp
    rw [getElem?_group] at hget
    split at hget
    · exact (Option.some.inj hget).symm
    · cases hget
  rw [hvals]
  refine flatMap_filter_perm TreeMap.nodup_keys fun a ha => ?_
  rw [TreeMap.mem_keys, TreeMap.mem_iff_isSome_getElem?, getElem?_group,
    if_pos (List.mem_map_of_mem ha)]
  rfl

end Tree
