import CoRD.Repair.RackAware

/-!
# RackOrder — a pipeline that crosses racks seldom

The helpers go into the pipeline rack by rack, those in the rack of the requestor last.  Whatever the
shuffles do inside the racks, a slice leaves each other rack once on its way to the requestor.
-/

namespace CoRD

open Std

/-! ## The order -/

/-- The helpers of a selection in the order of a pipeline to the requestor. -/
structure RackOrdered (rackInfos : TreeMap Nat Str) (requestorIP : Nat)
    (selection newret : List (Nat × Str)) : Prop where
  perm : newret.Perm selection
  contiguous : Groups.Contiguous (newret.map fun it => rackInfos.getD it.1 [])
  last : ∃ others mine, newret = others ++ mine ∧
    (∀ it ∈ others, rackInfos.getD it.1 [] ≠ rackInfos.getD requestorIP []) ∧
    ∀ it ∈ mine, rackInfos.getD it.1 [] = rackInfos.getD requestorIP []
  hops : Groups.changes ((newret.map Prod.fst ++ [requestorIP]).map fun ip => rackInfos.getD ip []) =
    ((selection.map fun it => rackInfos.getD it.1 []).toFinset.erase
      (rackInfos.getD requestorIP [])).card

section Order

variable (rackInfos : TreeMap Nat Str) (rand : Shuffle) (reqrack : Str) (ret : List (Nat × Str))

/-- The racks with their helpers, each shuffled. -/
def shuffledRacks : List (Str × List (Nat × Str)) :=
  (stripe2Rack rackInfos ret).toList.zipIdx.map fun it => (it.1.1, rand.shuffled it.2 it.1.2)

/-- The racks but that of the requestor. -/
def otherGroups : List (Str × List (Nat × Str)) :=
  (shuffledRacks rackInfos rand ret).filter fun it => it.1 ≠ reqrack

/-- The helpers in the rack of the requestor. -/
def ownBlks : List (Nat × Str) :=
  ((shuffledRacks rackInfos rand ret).filter fun it => it.1 = reqrack).flatMap Prod.snd

variable {rackInfos rand reqrack ret}

theorem shuffledRacks_nodup : ((shuffledRacks rackInfos rand ret).map Prod.fst).Nodup := by
  have hkeys : (shuffledRacks rackInfos rand ret).map Prod.fst =
      (stripe2Rack rackInfos ret).toList.map Prod.fst := by
    conv_rhs => rw [← List.zipIdx_map_fst 0 (stripe2Rack rackInfos ret).toList]
    rw [shuffledRacks, List.map_map, List.map_map]
    rfl
  rw [hkeys]
  exact Tree.toList_map_nodup _

/-- A shuffle keeps the helpers in their rack. -/
theorem rack_of_mem_shuffledRacks {g : Str × List (Nat × Str)} {it : Nat × Str}
    (hg : g ∈ shuffledRacks rackInfos rand ret) : it ∈ g.2 → rackInfos.getD it.1 [] = g.1 := by
  intro hit
  rcases List.mem_map.1 hg with ⟨⟨⟨rack, blks⟩, n⟩, hmem, rfl⟩
  have hblks : it ∈ blks := (rand.perm n blks).mem_iff.1 hit
  have hget := TreeMap.mem_toList_iff_getElem?_eq_some.1 (List.fst_mem_of_mem_zipIdx hmem)
  rw [stripe2Rack, Tree.getElem?_group] at hget
  split at hget
  · have hfilter : (ret.filter fun it => rackInfos.getD it.1 [] = rack) = blks :=
      Option.some.inj hget
    rw [← hfilter] at hblks
    simpa using (List.mem_filter.1 hblks).2
  · cases hget

/-- The other racks, and then that of the requestor with what comes behind it. -/
theorem contiguous_behind {extra : List (Nat × Str)}
    (hextra : ∀ it ∈ extra, rackInfos.getD it.1 [] = reqrack) :
    Groups.Contiguous (((otherGroups rackInfos rand reqrack ret).flatMap Prod.snd ++
      ownBlks rackInfos rand reqrack ret ++ extra).map fun it => rackInfos.getD it.1 []) := by
  have hgroups : (otherGroups rackInfos rand reqrack ret).flatMap Prod.snd ++
      ownBlks rackInfos rand reqrack ret ++ extra =
      (otherGroups rackInfos rand reqrack ret ++
        [(reqrack, ownBlks rackInfos rand reqrack ret ++ extra)]).flatMap Prod.snd := by
    simp
  rw [hgroups]
  refine Groups.contiguous_flatMap ?_ fun g hg it hit => ?_
  · rw [List.map_append]
    refine List.nodup_append.2 ⟨?_, List.nodup_singleton _, ?_⟩
    · exact shuffledRacks_nodup.sublist (List.filter_sublist.map Prod.fst)
    · rintro rack hrack rack' hrack' rfl
      rcases List.mem_map.1 hrack with ⟨g, hg, heq⟩
      have hne : g.1 ≠ reqrack := by
        simpa using (List.mem_filter.1 hg).2
      exact hne (heq.trans (List.mem_singleton.1 hrack'))
  · rcases List.mem_append.1 hg with hg | hg
    · exact rack_of_mem_shuffledRacks (List.mem_filter.1 hg).1 hit
    · rw [List.mem_singleton.1 hg] at hit ⊢
      rcases List.mem_append.1 hit with hit | hit
      · rcases List.mem_flatMap.1 hit with ⟨g', hg', hit'⟩
        have hown : g'.1 = reqrack := by
          simpa using (List.mem_filter.1 hg').2
        exact (rack_of_mem_shuffledRacks (List.mem_filter.1 hg').1 hit').trans hown
      · exact hextra it hit

end Order

/-- Without `_shuffle` every selection is put in this order, whatever the shuffles do. -/
theorem schedulePipeline_rackOrdered (conf : RepairConfig) (hoff : conf.shuffle = false)
    (rand : Shuffle) (requestorIP : Nat) (selection : List (Nat × Str)) :
    RackOrdered conf.rackInfos requestorIP selection
      (schedulePipeline conf rand requestorIP selection) := by
  have hperm := schedulePipeline_perm conf rand requestorIP selection
  have hnewret : schedulePipeline conf rand requestorIP selection =
      (otherGroups conf.rackInfos rand (conf.rackInfos.getD requestorIP []) selection).flatMap
        Prod.snd ++
      ownBlks conf.rackInfos rand (conf.rackInfos.getD requestorIP []) selection := by
    rw [schedulePipeline, hoff]
    rfl
  constructor
  case perm =>
    exact hperm
  case contiguous =>
    have hnothing : ∀ it ∈ ([] : List (Nat × Str)),
        conf.rackInfos.getD it.1 [] = conf.rackInfos.getD requestorIP [] :=
      fun it hit => absurd hit List.not_mem_nil
    rw [hnewret]
    simpa using contiguous_behind hnothing
  case last =>
    refine ⟨_, _, hnewret, fun it hit => ?_, fun it hit => ?_⟩
    · rcases List.mem_flatMap.1 hit with ⟨g, hg, hit'⟩
      rw [rack_of_mem_shuffledRacks (List.mem_filter.1 hg).1 hit']
      simpa using (List.mem_filter.1 hg).2
    · rcases List.mem_flatMap.1 hit with ⟨g, hg, hit'⟩
      rw [rack_of_mem_shuffledRacks (List.mem_filter.1 hg).1 hit']
      simpa using (List.mem_filter.1 hg).2
  case hops =>
    -- the requestor stands behind the helpers like one more block of its rack
    have hchain : (schedulePipeline conf rand requestorIP selection ++ [(requestorIP, [])]).map
        (fun it : Nat × Str => conf.rackInfos.getD it.1 []) =
        ((schedulePipeline conf rand requestorIP selection).map Prod.fst ++ [requestorIP]).map
          fun ip => conf.rackInfos.getD ip [] := by
      simp
    have hcontiguous : Groups.Contiguous (((schedulePipeline conf rand requestorIP selection).map
        Prod.fst ++ [requestorIP]).map fun ip => conf.rackInfos.getD ip []) := by
      rw [← hchain, hnewret]
      refine contiguous_behind fun it hit => ?_
      rw [List.mem_singleton.1 hit]
    have hracks : (((schedulePipeline conf rand requestorIP selection).map Prod.fst ++
        [requestorIP]).map fun ip => conf.rackInfos.getD ip []).toFinset =
        insert (conf.rackInfos.getD requestorIP [])
          ((selection.map fun it => conf.rackInfos.getD it.1 []).toFinset.erase
            (conf.rackInfos.getD requestorIP [])) := by
      ext rack
      have hmem : rack ∈ (schedulePipeline conf rand requestorIP selection).map
          (fun it => conf.rackInfos.getD it.1 []) ↔
          rack ∈ selection.map fun it => conf.rackInfos.getD it.1 [] := (hperm.map _).mem_iff
      rw [← hchain, List.mem_toFinset, List.map_append, List.mem_append, hmem, Finset.mem_insert,
        Finset.mem_erase, List.mem_toFinset, List.map_singleton, List.mem_singleton]
      tauto
    have hcount := Groups.changes_succ hcontiguous (by simp)
    rw [hracks, Finset.card_insert_of_notMem (Finset.notMem_erase _ _)] at hcount
    exact Nat.succ.inj hcount

/-- The pipelines of `HDFS_MetadataBase` and `HDFS3_MetadataBase`, for every selection and for those
that they make. -/
theorem getStripeBlks_rackOrdered (conf : RackConfig) (hoff : conf.shuffle = false)
    (rand : Shuffle) (requestorIP : Nat) :
    (∀ selection, RackOrdered conf.rackInfos requestorIP selection
      (schedulePipeline conf.toRepairConfig rand requestorIP selection)) ∧
    (∀ sorter base blkName newret,
      Hdfs.getStripeBlks conf sorter base rand blkName requestorIP = some newret →
        ∃ selection, Hdfs.helperBlks conf sorter base blkName requestorIP = some selection ∧
          RackOrdered conf.rackInfos requestorIP selection newret) ∧
    ∀ (base : MetadataBase) blkName, RackOrdered conf.rackInfos requestorIP
      (base.blk2Stripe.getD blkName ∅).toList
      (base.getStripeBlks conf.toRepairConfig rand blkName requestorIP) := by
  have hall := schedulePipeline_rackOrdered conf.toRepairConfig hoff rand requestorIP
  refine ⟨hall, fun sorter base blkName newret hnewret => ?_, fun base blkName => hall _⟩
  rw [Hdfs.getStripeBlks] at hnewret
  split at hnewret
  · rcases Option.map_eq_some_iff.1 hnewret with ⟨selection, hselection, rfl⟩
    exact ⟨selection, hselection, hall selection⟩
  · cases hnewret

/-- Nodes 1 and 2 are in one rack, node 3 in another. -/
def twoRacksConf : RackConfig where
  toConfig := xorConf
  rackInfos := (∅ : TreeMap Nat Str).insertMany [(1, ['r']), (2, ['r']), (3, ['s'])]
  shuffle := false
  msscheduling := false
  localIP := 0
  rackAware := true
  loadbalance := false

theorem getStripeBlks_rackOrdered_twoRacks :
    schedulePipeline twoRacksConf.toRepairConfig unshuffled 1 [(2, ['a']), (3, ['b'])] =
        [(3, ['b']), (2, ['a'])] ∧
      RackOrdered twoRacksConf.rackInfos 1 [(2, ['a']), (3, ['b'])]
        (schedulePipeline twoRacksConf.toRepairConfig unshuffled 1 [(2, ['a']), (3, ['b'])]) :=
  ⟨by decide +kernel, (getStripeBlks_rackOrdered twoRacksConf rfl unshuffled 1).1 _⟩

end CoRD
