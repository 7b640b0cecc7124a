import CoRD.Update.SubSets

/-!
# Components — sub-sets are the connected components of touching ranges

Two blocks are joined when their closed ranges touch.  A sub-set grows by blocks that meet its hull;
since it is linked, such a block touches one of its own (`linked_growSubSet`), and since the hulls are
separated no chain leaves a sub-set.  So the sub-sets are the components, in whatever order the blocks
come (`subSets_eq_components`).  The end of a hull starts at 0, so ranges that end before their block
begins are left out.
-/

namespace CoRD

/-- A chain of blocks of `D` with touching ranges leads from `a` to `b`. -/
def TouchLinked (D : List UpdBlock) : UpdBlock → UpdBlock → Prop :=
  Hull.Linked UpdBlock.offsetAdd UpdBlock.endAdd D

/-- The sub-sets without their ids and the order of their blocks. -/
def subSets (D : List UpdBlock) : Set (Set UpdBlock) :=
  {S | ∃ N ∈ getUpdSoluCrd D, S = {b | b ∈ N}}

/-- The connected components. -/
def components (D : List UpdBlock) : Set (Set UpdBlock) :=
  {S | ∃ a ∈ D, S = {b | b ∈ D ∧ TouchLinked D a b}}

/-- What the partition of an update vector promises. -/
structure PartitionRight (D : List UpdBlock) : Prop where
  once : (getUpdSoluCrd D).flatten.Perm D
  linked : ∀ (i j : Nat) (N M : List UpdBlock), (getUpdSoluCrd D)[i]? = some N →
    (getUpdSoluCrd D)[j]? = some M → ∀ a ∈ N, ∀ b ∈ M, i = j ↔ TouchLinked D a b
  gap : ∀ (i j : Nat) (N M : List UpdBlock), (getUpdSoluCrd D)[i]? = some N →
    (getUpdSoluCrd D)[j]? = some M → i ≠ j →
      (∀ a ∈ N, ∀ b ∈ M, a.endAdd < b.offsetAdd) ∨ ∀ a ∈ N, ∀ b ∈ M, b.endAdd < a.offsetAdd
  order : ∀ D' : List UpdBlock, D.Perm D' → subSets D' = subSets D
  found : ∀ b ∈ D, ∃ (j : Nat) (N : List UpdBlock), (getUpdSoluCrd D)[j]? = some N ∧ b ∈ N ∧
    getSubSetId (getUpdSoluCrd D) b.id = j ∧
    ∀ (i : Nat) (M : List UpdBlock), (getUpdSoluCrd D)[i]? = some M → b ∈ M → i = j

/-! ## Inside a sub-set -/

/-- A sub-set stays linked while it grows. -/
theorem linked_growSubSet {root : UpdBlock} (N D : List UpdBlock) (hN : InRange N) (hD : InRange D)
    (hroot : root ∈ N) (hlinked : ∀ b ∈ N, TouchLinked N root b) :
    ∀ b ∈ (growSubSet N D).1, TouchLinked (growSubSet N D).1 root b := by
  fun_induction growSubSet N D with
  | case1 N D hnone =>
      exact hlinked
  | case2 N D d hsome ih =>
      have hmem := List.mem_of_find?_eq_some hsome
      have hfound : isIntersected d N = true := by simpa using List.find?_some hsome
      have hd := hD d hmem
      have hwide : d.offsetAdd ≤ d.endAdd := le_add_of_nonneg_right hd.1
      have htouch := Hull.exists_touch_of_meets hroot hlinked (fun b hb => (hN b hb).2.1)
        (fun b hb => (hN b hb).2.2) hwide (isIntersected_iff.1 hfound)
      apply ih
      · intro b hb
        rcases List.mem_append.1 hb with hold | hnew
        · exact hN b hold
        · exact List.mem_singleton.1 hnew ▸ hd
      · exact fun b hb => hD b (List.mem_of_mem_eraseP hb)
      · exact List.mem_append_left [d] hroot
      · have hsub : ∀ c ∈ N, c ∈ N ++ [d] := fun c hc => List.mem_append_left [d] hc
        intro b hb
        rcases List.mem_append.1 hb with hold | hnew
        · exact (hlinked b hold).mono hsub
        · -- the new block hangs on the block that it touches
          rcases htouch with ⟨c, hc, hcd⟩
          rw [List.mem_singleton.1 hnew]
          exact ((hlinked c hc).mono hsub).tail
            ⟨hsub c hc, List.mem_append_right N (List.mem_singleton_self d), hcd⟩

theorem linked_of_mem {D N : List UpdBlock} (hD : InRange D) (hN : N ∈ getUpdSoluCrd D)
    {a b : UpdBlock} (ha : a ∈ N) (hb : b ∈ N) : TouchLinked N a b := by
  fun_induction getUpdSoluCrd D with
  | case1 =>
      cases hN
  | case2 blk D st ih =>
      rcases List.mem_cons.1 hN with rfl | hrest
      · have hroot : ∀ c ∈ st.1, TouchLinked st.1 blk c := by
          apply linked_growSubSet [blk] D
          · exact fun c hc => hD c (List.mem_singleton.1 hc ▸ List.mem_cons_self)
          · exact fun c hc => hD c (List.mem_cons_of_mem blk hc)
          · exact List.mem_singleton_self blk
          · intro c hc
            rw [List.mem_singleton.1 hc]
            exact Relation.ReflTransGen.refl
        exact (hroot a ha).symm.trans (hroot b hb)
      · exact ih (fun c hc => hD c (mem_rest_growSubSet hc)) hrest

/-! ## Between sub-sets -/

section Partition

variable {D : List UpdBlock} {i j : Nat} {N M : List UpdBlock} {a b : UpdBlock}

theorem InRange.separated (hD : InRange D) (hN : (getUpdSoluCrd D)[i]? = some N)
    (hM : (getUpdSoluCrd D)[j]? = some M) (hne : i ≠ j) : SeparatedSets N M := by
  have hpair := List.pairwise_iff_getElem.1 hD.pairwise_separated
  have hi := List.getElem?_eq_some_iff.1 hN
  have hj := List.getElem?_eq_some_iff.1 hM
  rcases hi with ⟨hi, rfl⟩
  rcases hj with ⟨hj, rfl⟩
  rcases Nat.lt_or_gt_of_ne hne with hlt | hgt
  · exact hpair i j hi hj hlt
  · exact (hpair j i hj hi hgt).symm

theorem mem_of_mem_subSet (hN : (getUpdSoluCrd D)[i]? = some N) (ha : a ∈ N) : a ∈ D :=
  (flatten_getUpdSoluCrd_perm D).mem_iff.1
    (List.mem_flatten_of_mem (List.mem_of_getElem? hN) ha)

/-- No chain leaves a sub-set. -/
theorem TouchLinked.mem_subSet (hD : InRange D) (hnodup : (D.map UpdBlock.id).Nodup)
    (hN : (getUpdSoluCrd D)[i]? = some N) (ha : a ∈ N) (hab : TouchLinked D a b) : b ∈ N := by
  apply hab.keeps (P := fun b => b ∈ N) _ ha
  intro x _ y hy htouch hx
  rcases exists_subSet hnodup hy with ⟨j, M, hM, hyM, _⟩
  by_cases hne : i = j
  · subst hne
    rw [hN] at hM
    exact Option.some.inj hM ▸ hyM
  · exact absurd htouch ((hD.separated hN hM hne).not_touch hx hyM)

/-- The id that a block finds is that of the one sub-set it is in. -/
theorem subSet_unique (hnodup : (D.map UpdBlock.id).Nodup) (hN : (getUpdSoluCrd D)[i]? = some N)
    (hM : (getUpdSoluCrd D)[j]? = some M) (hb : b ∈ N) (hb' : b ∈ M) : i = j := by
  have hi := getSubSetId_of_mem (flatten_nodup hnodup) hN hb
  have hj := getSubSetId_of_mem (flatten_nodup hnodup) hM hb'
  exact Int.ofNat_inj.1 (hi.symm.trans hj)

theorem same_subSet_iff (hD : InRange D) (hnodup : (D.map UpdBlock.id).Nodup)
    (hN : (getUpdSoluCrd D)[i]? = some N) (hM : (getUpdSoluCrd D)[j]? = some M) (ha : a ∈ N)
    (hb : b ∈ M) : i = j ↔ TouchLinked D a b := by
  constructor
  · intro hij
    subst hij
    rw [hN] at hM
    cases hM
    exact (linked_of_mem hD (List.mem_of_getElem? hN) ha hb).mono
      fun c hc => mem_of_mem_subSet hN hc
  · intro hab
    exact subSet_unique hnodup hN hM (hab.mem_subSet hD hnodup hN ha) hb

/-! ## The order of the list -/

theorem subSets_eq_components (hD : InRange D) (hnodup : (D.map UpdBlock.id).Nodup) :
    subSets D = components D := by
  -- the sub-set of a block is the component of the block
  have hclass : ∀ (i : Nat) (N : List UpdBlock), (getUpdSoluCrd D)[i]? = some N → ∀ a ∈ N,
      {b | b ∈ N} = {b | b ∈ D ∧ TouchLinked D a b} := by
    intro i N hN a ha
    apply Set.ext
    intro b
    constructor
    · intro hb
      exact ⟨mem_of_mem_subSet hN hb, (same_subSet_iff hD hnodup hN hN ha hb).1 rfl⟩
    · intro hb
      exact hb.2.mem_subSet hD hnodup hN ha
  apply Set.ext
  intro S
  constructor
  · intro hS
    rcases hS with ⟨N, hN, rfl⟩
    rcases List.getElem?_of_mem hN with ⟨i, hi⟩
    rcases List.exists_mem_of_ne_nil N (ne_nil_of_mem hN) with ⟨a, ha⟩
    exact ⟨a, mem_of_mem_subSet hi ha, hclass i N hi a ha⟩
  · intro hS
    rcases hS with ⟨a, ha, rfl⟩
    rcases exists_subSet hnodup ha with ⟨i, N, hN, haN, _⟩
    exact ⟨N, List.mem_of_getElem? hN, (hclass i N hN a haN).symm⟩

theorem components_perm {D' : List UpdBlock} (h : D.Perm D') : components D' = components D := by
  have hlinked : ∀ a b, TouchLinked D' a b ↔ TouchLinked D a b := fun a b =>
    ⟨fun hab => hab.mono fun _ hc => h.mem_iff.2 hc, fun hab => hab.mono fun _ hc => h.mem_iff.1 hc⟩
  apply Set.ext
  intro S
  simp only [components, hlinked, h.mem_iff]

/-- Ranges that end at 0 or behind it are split into their components. -/
theorem partitionRight (D : List UpdBlock) (hnodup : (D.map UpdBlock.id).Nodup)
    (hD : InRange D) : PartitionRight D where
  once := flatten_getUpdSoluCrd_perm D
  linked := fun _ _ _ _ hN hM _ ha _ hb => same_subSet_iff hD hnodup hN hM ha hb
  gap := fun _ _ _ _ hN hM hne => (hD.separated hN hM hne).forall_lt
  order := by
    intro D' hperm
    have hD' : InRange D' := fun b hb => hD b (hperm.mem_iff.2 hb)
    have hnodup' : (D'.map UpdBlock.id).Nodup := (hperm.map UpdBlock.id).nodup_iff.1 hnodup
    calc subSets D' = components D' := subSets_eq_components hD' hnodup'
      _ = components D := components_perm hperm
      _ = subSets D := (subSets_eq_components hD hnodup).symm
  found := by
    intro b hb
    rcases exists_subSet hnodup hb with ⟨j, N, hN, hbN, hid⟩
    exact ⟨j, N, hN, hbN, hid, fun i M hM hbM => subSet_unique hnodup hM hN hbM hbN⟩

end Partition

/-! ## Ranges before the block -/

/-- Three ranges, two of them joined by the third. -/
def bridged : List UpdBlock :=
  [⟨0, 0, 2⟩, ⟨1, 6, 2⟩, ⟨2, 2, 4⟩]

theorem partitionRight_bridged :
    (bridged.map UpdBlock.id).Nodup ∧ InRange bridged ∧ PartitionRight bridged :=
  ⟨by decide, by unfold InRange; decide,
    partitionRight bridged (by decide) (by unfold InRange; decide)⟩

/-- Two ranges before the block, with a gap between them. -/
def beforeBlock : List UpdBlock :=
  [⟨0, -10, 2⟩, ⟨1, -5, 1⟩]

/-- The hull of the first ends at 0 all the same, so it takes in the second. -/
theorem getUpdSoluCrd_beforeBlock : getUpdSoluCrd beforeBlock = [beforeBlock] := by
  have hgrow : growSubSet [⟨0, -10, 2⟩] [⟨1, -5, 1⟩] = (beforeBlock, []) := by
    rw [growSubSet_of_some (d := ⟨1, -5, 1⟩) (by decide), growSubSet_of_none (by decide)]
    decide
  rw [beforeBlock, getUpdSoluCrd_cons, hgrow, getUpdSoluCrd_nil]
  rfl

theorem not_partitionRight_beforeBlock :
    ¬ ∀ D : List UpdBlock, (D.map UpdBlock.id).Nodup → (∀ b ∈ D, 0 ≤ b.updSize) →
      PartitionRight D := by
  intro h
  have hright := h beforeBlock (by decide) (by decide)
  have hget : (getUpdSoluCrd beforeBlock)[0]? = some beforeBlock := by
    rw [getUpdSoluCrd_beforeBlock]
    rfl
  have hlinked : TouchLinked beforeBlock ⟨0, -10, 2⟩ ⟨1, -5, 1⟩ :=
    (hright.linked 0 0 _ _ hget hget _ (by decide) _ (by decide)).1 rfl
  have hstuck : (⟨1, -5, 1⟩ : UpdBlock) = ⟨0, -10, 2⟩ := by
    apply hlinked.keeps (P := fun b => b = ⟨0, -10, 2⟩) _ rfl
    unfold Hull.Touch
    decide
  exact absurd hstuck (by decide)

end CoRD
