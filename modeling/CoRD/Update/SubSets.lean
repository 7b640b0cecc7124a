import CoRD.Util.Hull
import CoRD.Update.UPCoordinator

/-!
# SubSets — the partition behind a CRD update

`get_upd_solu_crd` splits an update vector into sub-sets: no block is lost or doubled
(`flatten_getUpdSoluCrd_perm`), no sub-set is empty, every block finds the id of its sub-set
(`getSubSetId_of_mem`), and the ranges of two sub-sets neither overlap nor touch
(`pairwise_separated`).
-/

namespace CoRD

/-- The end of an updated range. -/
def UpdBlock.endAdd (b : UpdBlock) : Int :=
  b.offsetAdd + b.updSize

/-- The start of the range of a sub-set. -/
def startAdd (N : List UpdBlock) : Int :=
  Hull.lowest UpdBlock.offsetAdd INT_MAX N

/-- The end of the range of a sub-set. -/
def endAdd (N : List UpdBlock) : Int :=
  Hull.highest UpdBlock.endAdd 0 N

/-- The ranges of two sub-sets neither overlap nor touch. -/
def SeparatedSets (P N : List UpdBlock) : Prop :=
  Hull.Separated UpdBlock.offsetAdd UpdBlock.endAdd INT_MAX 0 P N

instance : Std.Symm SeparatedSets :=
  ⟨fun _ _ h => h.symm⟩

theorem isIntersected_iff {d : UpdBlock} {N : List UpdBlock} :
    isIntersected d N = true ↔ Hull.Meets UpdBlock.offsetAdd UpdBlock.endAdd INT_MAX 0 d N := by
  simp only [isIntersected, Hull.Meets, Hull.lowest, Hull.highest, UpdBlock.endAdd]
  split
  · next h =>
      simp only [Bool.false_eq_true, false_iff, not_and]
      omega
  · next h =>
      simp only [true_iff]
      omega

/-! ## One sub-set -/

/-- Taking the first element that satisfies `p` out of a list. -/
theorem perm_cons_eraseP {α : Type} {p : α → Bool} {l : List α} {a : α}
    (h : l.find? p = some a) : l.Perm (a :: l.eraseP p) := by
  obtain ⟨ha, l₁, l₂, rfl, hl₁⟩ := List.find?_eq_some_iff_append.1 h
  have hno : ∀ b ∈ l₁, ¬ p b = true := fun b hb => by simpa using hl₁ b hb
  rw [List.eraseP_append_right _ hno, List.eraseP_cons_of_pos ha]
  exact List.perm_middle

theorem growSubSet_of_none {N D : List UpdBlock}
    (h : D.find? (fun d => isIntersected d N) = none) : growSubSet N D = (N, D) := by
  rw [growSubSet]
  split
  · rfl
  · next d hd =>
      rw [h] at hd
      cases hd

theorem growSubSet_of_some {N D : List UpdBlock} {d : UpdBlock}
    (h : D.find? (fun d => isIntersected d N) = some d) :
    growSubSet N D = growSubSet (N ++ [d]) (D.eraseP fun d => isIntersected d N) := by
  rw [growSubSet]
  split
  · next hd =>
      rw [h] at hd
      cases hd
  · next d' hd =>
      rw [h] at hd
      cases hd
      rfl

theorem growSubSet_perm (N D : List UpdBlock) :
    ((growSubSet N D).1 ++ (growSubSet N D).2).Perm (N ++ D) := by
  fun_induction growSubSet N D with
  | case1 N D hnone =>
      exact List.Perm.refl _
  | case2 N D d hsome ih =>
      refine ih.trans ?_
      rw [List.append_assoc, List.singleton_append]
      exact (perm_cons_eraseP hsome).symm.append_left N

theorem isPrefix_growSubSet (N D : List UpdBlock) : N <+: (growSubSet N D).1 := by
  fun_induction growSubSet N D with
  | case1 N D hnone =>
      exact List.prefix_rfl
  | case2 N D d hsome ih =>
      exact (List.prefix_append N [d]).trans ih

theorem growSubSet_ne_nil (blk : UpdBlock) (D : List UpdBlock) : (growSubSet [blk] D).1 ≠ [] := by
  intro h
  have hpre := isPrefix_growSubSet [blk] D
  rw [h, List.prefix_nil] at hpre
  cases hpre

/-- What stays behind does not meet the sub-set. -/
theorem not_isIntersected_of_mem (N D : List UpdBlock) :
    ∀ d ∈ (growSubSet N D).2, isIntersected d (growSubSet N D).1 = false := by
  fun_induction growSubSet N D with
  | case1 N D hnone =>
      intro d hd
      simpa using List.find?_eq_none.1 hnone d hd
  | case2 N D d hsome ih =>
      exact ih

/-- A sub-set grown from blocks that stay away from `P` is separated from it. -/
theorem separated_growSubSet {P : List UpdBlock} (hP : startAdd P ≤ endAdd P) (N D : List UpdBlock)
    (hN : SeparatedSets P N) (hD : ∀ d ∈ D, isIntersected d P = false) :
    SeparatedSets P (growSubSet N D).1 := by
  fun_induction growSubSet N D with
  | case1 N D hnone =>
      exact hN
  | case2 N D d hsome ih =>
      have hmem := List.mem_of_find?_eq_some hsome
      have hfound : isIntersected d N = true := by simpa using List.find?_some hsome
      have hmeet := isIntersected_iff.1 hfound
      have haway : ¬ Hull.Meets UpdBlock.offsetAdd UpdBlock.endAdd INT_MAX 0 d P := by
        rw [← isIntersected_iff, hD d hmem]
        exact Bool.false_ne_true
      exact ih (hN.append_singleton hP hmeet haway) fun d' hd' => hD d' (List.mem_of_mem_eraseP hd')

/-! ## All sub-sets -/

theorem getUpdSoluCrd_nil : getUpdSoluCrd [] = [] := by
  rw [getUpdSoluCrd]

theorem getUpdSoluCrd_cons (blk : UpdBlock) (D : List UpdBlock) :
    getUpdSoluCrd (blk :: D) =
      (growSubSet [blk] D).1 :: getUpdSoluCrd (growSubSet [blk] D).2 := by
  rw [getUpdSoluCrd]

theorem getUpdSoluCrd_singleton (b : UpdBlock) : getUpdSoluCrd [b] = [[b]] := by
  rw [getUpdSoluCrd_cons, growSubSet_of_none rfl, getUpdSoluCrd_nil]

theorem flatten_getUpdSoluCrd_perm (D : List UpdBlock) : (getUpdSoluCrd D).flatten.Perm D := by
  fun_induction getUpdSoluCrd D with
  | case1 =>
      exact List.Perm.refl _
  | case2 blk D st ih =>
      rw [List.flatten_cons]
      exact (ih.append_left _).trans (growSubSet_perm [blk] D)

theorem ne_nil_of_mem {D N : List UpdBlock} (hN : N ∈ getUpdSoluCrd D) : N ≠ [] := by
  fun_induction getUpdSoluCrd D with
  | case1 =>
      cases hN
  | case2 blk D st ih =>
      rcases List.mem_cons.1 hN with rfl | hN
      · exact growSubSet_ne_nil blk D
      · exact ih hN

theorem mem_of_mem_growSubSet {blk d : UpdBlock} {D : List UpdBlock}
    (hd : d ∈ (growSubSet [blk] D).1 ∨ d ∈ (growSubSet [blk] D).2) : d ∈ blk :: D :=
  (growSubSet_perm [blk] D).mem_iff.1 (List.mem_append.2 hd)

theorem mem_rest_growSubSet {blk d : UpdBlock} {D : List UpdBlock}
    (hd : d ∈ (growSubSet [blk] D).2) : d ∈ blk :: D :=
  mem_of_mem_growSubSet (Or.inr hd)

/-- Blocks with an updated range inside their data block. -/
def InBlock (conf : Config) (D : List UpdBlock) : Prop :=
  ∀ b ∈ D, 0 ≤ b.offsetAdd ∧ 0 ≤ b.updSize ∧ b.offsetAdd + b.updSize ≤ conf.blocksize

/-- Ranges that start within `int` and end at 0 or behind it; ranges inside a block are such. -/
def InRange (D : List UpdBlock) : Prop :=
  ∀ b ∈ D, 0 ≤ b.updSize ∧ b.offsetAdd ≤ INT_MAX ∧ 0 ≤ b.endAdd

theorem InBlock.inRange {conf : Config} {D : List UpdBlock} (hD : InBlock conf D) : InRange D := by
  intro b hb
  have hb' := hD b hb
  have hmax := conf.blocksize_le
  refine ⟨hb'.2.1, ?_, ?_⟩
  · linarith
  · exact add_nonneg hb'.1 hb'.2.1

theorem startAdd_le_endAdd {D : List UpdBlock} (hD : InRange D) (hne : D ≠ []) :
    startAdd D ≤ endAdd D := by
  refine Hull.lowest_le_highest (fun b hb => ?_) hne
  have := (hD b hb).1
  simp only [UpdBlock.endAdd]
  omega

/-- A single block away from `P` is separated from it. -/
theorem separated_singleton {P : List UpdBlock} {b : UpdBlock} (hb : InRange [b])
    (haway : isIntersected b P = false) : SeparatedSets P [b] := by
  have hb' := hb b (by simp)
  have hnot : ¬ Hull.Meets UpdBlock.offsetAdd UpdBlock.endAdd INT_MAX 0 b P := by
    rw [← isIntersected_iff, haway]
    exact Bool.false_ne_true
  simp only [UpdBlock.endAdd] at hb'
  simp only [Hull.Meets, UpdBlock.endAdd, not_and_or, not_le] at hnot
  simp only [SeparatedSets, Hull.Separated, Hull.lowest_cons, Hull.lowest_nil, Hull.highest_cons,
    Hull.highest_nil, UpdBlock.endAdd, lt_min_iff, max_lt_iff]
  rcases hnot with hbelow | habove
  · exact Or.inr ⟨by omega, hbelow⟩
  · exact Or.inl ⟨by omega, habove⟩

/-- Sub-sets of blocks that stay away from `P` are separated from it. -/
theorem separated_getUpdSoluCrd {P D : List UpdBlock} (hP : startAdd P ≤ endAdd P)
    (hD : InRange D) (haway : ∀ d ∈ D, isIntersected d P = false) :
    ∀ N ∈ getUpdSoluCrd D, SeparatedSets P N := by
  fun_induction getUpdSoluCrd D with
  | case1 =>
      simp
  | case2 blk D st ih =>
      intro N hN
      rcases List.mem_cons.1 hN with rfl | hN
      · refine separated_growSubSet hP [blk] D ?_ fun d hd => haway d (List.mem_cons_of_mem _ hd)
        exact separated_singleton (fun b hb => hD b (by simp_all)) (haway blk (by simp))
      · exact ih (fun b hb => hD b (mem_rest_growSubSet hb))
          (fun d hd => haway d (mem_rest_growSubSet hd)) N hN

theorem InRange.pairwise_separated {D : List UpdBlock} (hD : InRange D) :
    (getUpdSoluCrd D).Pairwise SeparatedSets := by
  fun_induction getUpdSoluCrd D with
  | case1 =>
      exact List.Pairwise.nil
  | case2 blk D st ih =>
      have hst : InRange st.1 := fun b hb => hD b (mem_of_mem_growSubSet (Or.inl hb))
      have hrest : InRange st.2 := fun b hb => hD b (mem_rest_growSubSet hb)
      refine List.Pairwise.cons (fun N hN => ?_) (ih hrest)
      exact separated_getUpdSoluCrd (startAdd_le_endAdd hst (growSubSet_ne_nil blk D)) hrest
        (not_isIntersected_of_mem [blk] D) N hN

/-- The ranges of any two sub-sets are separated. -/
theorem pairwise_separated {conf : Config} {D : List UpdBlock} (hD : InBlock conf D) :
    (getUpdSoluCrd D).Pairwise SeparatedSets :=
  hD.inRange.pairwise_separated

/-! ## Finding the sub-set of a block -/

theorem findIdx?_of_mem {updSolu : List (List UpdBlock)}
    (hnodup : (updSolu.flatten.map UpdBlock.id).Nodup) {j : Nat} {N : List UpdBlock}
    (hN : updSolu[j]? = some N) {b : UpdBlock} (hb : b ∈ N) :
    updSolu.findIdx? (fun N => N.any fun b' => b'.id = b.id) = some j := by
  induction updSolu generalizing j with
  | nil =>
      simp at hN
  | cons N₀ rest ih =>
      rw [List.flatten_cons, List.map_append, List.nodup_append] at hnodup
      rw [List.findIdx?_cons]
      cases j with
      | zero =>
          rw [List.getElem?_cons_zero, Option.some.injEq] at hN
          subst hN
          rw [if_pos (List.any_eq_true.2 ⟨b, hb, by simp⟩)]
      | succ j =>
          rw [List.getElem?_cons_succ] at hN
          have hrest : b ∈ rest.flatten := List.mem_flatten_of_mem (List.mem_of_getElem? hN) hb
          have hnot : ¬ (N₀.any fun b' => b'.id = b.id) = true := by
            intro hany
            obtain ⟨b', hb', hid⟩ := List.any_eq_true.1 hany
            exact hnodup.2.2 b'.id (List.mem_map_of_mem hb') b.id (List.mem_map_of_mem hrest)
              (by simpa using hid)
          rw [if_neg hnot, ih hnodup.2.1 hN]
          rfl

/-- A block finds the id of its sub-set. -/
theorem getSubSetId_of_mem {updSolu : List (List UpdBlock)}
    (hnodup : (updSolu.flatten.map UpdBlock.id).Nodup) {j : Nat} {N : List UpdBlock}
    (hN : updSolu[j]? = some N) {b : UpdBlock} (hb : b ∈ N) :
    getSubSetId updSolu b.id = j := by
  rw [getSubSetId, findIdx?_of_mem hnodup hN hb]

section Found

variable {D : List UpdBlock}

theorem flatten_nodup (hnodup : (D.map UpdBlock.id).Nodup) :
    ((getUpdSoluCrd D).flatten.map UpdBlock.id).Nodup :=
  ((flatten_getUpdSoluCrd_perm D).map _).nodup_iff.2 hnodup

/-- Every block of the vector is in the sub-set whose id it finds. -/
theorem exists_subSet (hnodup : (D.map UpdBlock.id).Nodup) {b : UpdBlock} (hb : b ∈ D) :
    ∃ (j : Nat) (N : List UpdBlock), (getUpdSoluCrd D)[j]? = some N ∧ b ∈ N ∧
      getSubSetId (getUpdSoluCrd D) b.id = j := by
  obtain ⟨N, hN, hbN⟩ := List.mem_flatten.1 ((flatten_getUpdSoluCrd_perm D).mem_iff.2 hb)
  obtain ⟨j, hj⟩ := List.getElem?_of_mem hN
  exact ⟨j, N, hj, hbN, getSubSetId_of_mem (flatten_nodup hnodup) hj hbN⟩

/-- The blocks that find id `j` are those of sub-set `j`. -/
theorem filter_getSubSetId_perm (hnodup : (D.map UpdBlock.id).Nodup) {j : Nat}
    {N : List UpdBlock} (hN : (getUpdSoluCrd D)[j]? = some N) :
    (D.filter fun b => getSubSetId (getUpdSoluCrd D) b.id = (j : Int)).Perm N := by
  have hD : D.Nodup := hnodup.of_map
  have hflat : (getUpdSoluCrd D).flatten.Nodup := (flatten_nodup hnodup).of_map
  have hmem := List.mem_of_getElem? hN
  have hNnodup : N.Nodup := (List.nodup_flatten.1 hflat).1 N hmem
  refine (List.perm_ext_iff_of_nodup (hD.filter _) hNnodup).2 fun b => ?_
  simp only [List.mem_filter, decide_eq_true_eq]
  constructor
  · rintro ⟨hb, hid⟩
    obtain ⟨j', N', hN', hbN', hid'⟩ := exists_subSet hnodup hb
    rw [hid', Nat.cast_inj] at hid
    subst hid
    rw [hN] at hN'
    cases hN'
    exact hbN'
  · intro hb
    exact ⟨(flatten_getUpdSoluCrd_perm D).mem_iff.1 (List.mem_flatten_of_mem hmem hb),
      getSubSetId_of_mem (flatten_nodup hnodup) hN hb⟩

theorem getSubSetId_ne (hnodup : (D.map UpdBlock.id).Nodup) {b : UpdBlock} (hb : b ∈ D) :
    getSubSetId (getUpdSoluCrd D) b.id ≠ -1 := by
  obtain ⟨j, _, _, _, hid⟩ := exists_subSet hnodup hb
  omega

theorem getUpdSoluCrd_ne_nil (hne : D ≠ []) : getUpdSoluCrd D ≠ [] := by
  cases D with
  | nil =>
      exact absurd rfl hne
  | cons b D =>
      rw [getUpdSoluCrd_cons]
      simp

end Found

end CoRD
