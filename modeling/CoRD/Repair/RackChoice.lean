import CoRD.Repair.PlanKeys
import CoRD.Repair.RackAware

/-!
# RackChoice — how few racks the helpers come from

After the stripes are read, a block knows all other blocks of its stripe, and after the reports their
nodes.  The choice of the racks is as good as any, as long as the requestor has a survivor in its own
rack.  Without one the racks are not even listed.
-/

namespace CoRD

open Std

namespace Hdfs

/-! ## The other blocks of a stripe -/

section Others

variable {conf : Config} {rsu : RSUtil} {b x : Str}

theorem scanBlk_blk2All (blkName : Str) (newStripe : Bool) (stripeId : Nat) (st : FileScan)
    (bName : Str) : (scanBlk conf blkName newStripe stripeId st bName).base.blk2All =
      if bName ≠ blkName then
        st.base.blk2All.insert blkName ((st.base.blk2All.getD blkName ∅).insert bName)
      else st.base.blk2All := by
  by_cases hb : bName = blkName
  · cases newStripe <;> simp [scanBlk, hb]
  · by_cases hk : st.recoveredBlks.length < conf.ecK
    · cases newStripe <;> simp [scanBlk, hb, hk]
    · cases newStripe <;> simp [scanBlk, hb, hk]

/-- A file adds its names to those of its block. -/
theorem mem_blk2All_foldl_scanBlk {blkName : Str} {newStripe : Bool} {stripeId : Nat}
    {st : FileScan} {l : List Str} :
    x ∈ (l.foldl (scanBlk conf blkName newStripe stripeId) st).base.blk2All.getD b ∅ ↔
      x ∈ st.base.blk2All.getD b ∅ ∨ b = blkName ∧ x ∈ l ∧ x ≠ b := by
  induction l generalizing st with
  | nil =>
      simp
  | cons bName l ih =>
      rw [List.foldl_cons, ih, scanBlk_blk2All]
      by_cases hown : bName = blkName
      · subst hown
        rw [if_neg (not_not.2 rfl)]
        refine or_congr_right ⟨fun h => ⟨h.1, List.mem_cons_of_mem _ h.2.1, h.2.2⟩, ?_⟩
        rintro ⟨rfl, hx, hne⟩
        exact ⟨rfl, (List.mem_cons.1 hx).resolve_left hne, hne⟩
      · rw [if_pos hown, TreeMap.getD_insert]
        by_cases hb : b = blkName
        · subst hb
          rw [if_pos (LawfulEqCmp.compare_eq_iff_eq.2 rfl), TreeSet.mem_insert,
            LawfulEqCmp.compare_eq_iff_eq]
          constructor
          · rintro ((rfl | hold) | ⟨_, hx, hne⟩)
            · exact Or.inr ⟨rfl, List.mem_cons_self, hown⟩
            · exact Or.inl hold
            · exact Or.inr ⟨rfl, List.mem_cons_of_mem _ hx, hne⟩
          · rintro (hold | ⟨_, hx, hne⟩)
            · exact Or.inl (Or.inr hold)
            · rcases List.mem_cons.1 hx with rfl | hx
              · exact Or.inl (Or.inl rfl)
              · exact Or.inr ⟨rfl, hx, hne⟩
        · rw [if_neg fun hc => hb (LawfulEqCmp.compare_eq_iff_eq.1 hc).symm]
          simp [hb]

theorem mem_blk2All_foldl_readFile {files : List (Str × Str)} {load : HdfsLoad} :
    x ∈ (files.foldl (readFile conf rsu) load).base.blk2All.getD b ∅ ↔
      x ∈ load.base.blk2All.getD b ∅ ∨
        ∃ file ∈ files, b = fileBlkName file.1 ∧ x ∈ fileBlks file.2 ∧ x ≠ b := by
  induction files generalizing load with
  | nil =>
      simp
  | cons file files ih =>
      have hfile : (readFile conf rsu load file).base.blk2All =
          ((fileBlks file.2).foldl (scanBlk conf (fileBlkName file.1)
            (decide (fileBlkName file.1 ∉ load.base.blkName2StripeId))
            ((if decide (fileBlkName file.1 ∉ load.base.blkName2StripeId) then load.stripeCnt + 1
              else load.stripeCnt) - 1))
            { base := load.base, recoveree := load.recoveree, idxInStripe := 0, recoveredBlks := []
              bidInStripe := none, id2BlkName := ∅ }).base.blk2All := by
        simp only [readFile]
        split
        · rfl
        · rfl
      rw [List.foldl_cons, ih, hfile, mem_blk2All_foldl_scanBlk, or_assoc]
      simp

theorem report_blk2All (sched : Bool) (d : Described) (m : Nat × Str) :
    (d.report sched m).base.blk2All = d.base.blk2All := by
  show (d.base.place sched m.1 m.2).blk2All = _
  rw [MetadataBase.place]
  split
  · rfl
  · split
    · rfl
    · rfl

theorem receive_blk2All (sched : Bool) (d : Described) (blkInit : List (Nat × Str)) :
    (d.receive sched blkInit).base.blk2All = d.base.blk2All := by
  rcases receive_eq_foldl sched d blkInit with ⟨proc, hproc, -⟩
  rw [hproc]
  clear hproc
  induction proc generalizing d with
  | nil =>
      rfl
  | cons m proc ih =>
      exact (ih (d.report sched m)).trans (report_blk2All sched d m)

end Others

section Store

variable {conf : RackConfig} {rsu : RSUtil} {stripes : List (List Str)} {dir : List (Str × Str)}
  {blkInit : List (Nat × Str)} {base : MetadataBase} {s : List Str} {b : Str}

/-- The survivors are the other blocks of the stripe. -/
theorem mem_survivors (hdir : IsStore conf.toConfig stripes dir)
    (hload : hdfsMetadataBase conf.toRepairConfig rsu dir blkInit = some base) (hs : s ∈ stripes)
    (hb : b ∈ s) {x : Str} : x ∈ survivors base b ↔ x ∈ s ∧ x ≠ b := by
  rcases hdir.files with ⟨rows, hperm, hfiles⟩
  rcases List.forall₂_iff_get.1 hfiles with ⟨hlen, hget⟩
  have hrows : ∀ p ∈ rows, p.1 ∈ stripes := fun p hp => (mem_stripeRows.1 (hperm.mem_iff.1 hp)).1
  have hblk2All : base.blk2All = ((dir.filter fun ent => ent.1 ≠ ['.'] ∧ ent.1 ≠ ['.', '.']).foldl
      (readFile conf.toConfig rsu) ⟨⟨MetadataBase.empty, ∅, ∅⟩, 0⟩).base.blk2All := by
    rw [hdfsMetadataBase, readStripeStore] at hload
    split at hload
    · cases hload
    · have hbase := Option.some.inj hload
      rw [← hbase]
      exact receive_blk2All _ _ _
  have hempty : x ∉ (⟨⟨MetadataBase.empty, ∅, ∅⟩, 0⟩ : HdfsLoad).base.blk2All.getD b ∅ := by
    simp [MetadataBase.empty]
  rw [survivors, TreeSet.mem_toList, hblk2All, mem_blk2All_foldl_readFile, or_iff_right hempty]
  constructor
  · rintro ⟨file, hfile, hname, hx, hne⟩
    rcases List.mem_iff_get.1 hfile with ⟨⟨i, hi⟩, rfl⟩
    have hi' : i < rows.length := hlen.symm ▸ hi
    have hrow := hget i hi' hi
    -- the file of `b` is one of its own stripe
    have hmem : b ∈ (rows.get ⟨i, hi'⟩).1 := by
      have hlt := hrow.lt
      have hname' : fileBlkName _ = (rows.get ⟨i, hi'⟩).1[(rows.get ⟨i, hi'⟩).2] :=
        hrow.fileBlkName_eq
      exact (hname.trans hname').symm ▸ List.getElem_mem hlt
    have hstripe := hdir.isStripes.eq_of_mem (hrows _ (List.get_mem _ _)) hs hmem hb
    rw [hrow.fileBlks_eq, hstripe] at hx
    exact ⟨hx, hne⟩
  · rintro ⟨hx, hne⟩
    rcases List.mem_iff_getElem.1 hb with ⟨j, hj, rfl⟩
    have hmem : (s, j) ∈ rows := hperm.mem_iff.2 (mem_stripeRows.2 ⟨hs, hj⟩)
    rcases List.mem_iff_get.1 hmem with ⟨⟨i, hi'⟩, heq⟩
    have hi := hlen ▸ hi'
    have hrow := hget i hi' hi
    rw [heq] at hrow
    have hname : fileBlkName _ = s[j] := hrow.fileBlkName_eq
    exact ⟨_, List.get_mem _ ⟨i, hi⟩, hname.symm, hrow.fileBlks_eq.symm ▸ hx, hne⟩

/-- Once the stripe has reported, its blocks are known with their nodes. -/
theorem getD_blkName2Ip {ip : Str → Nat} (hbase : base.HoldsStripe conf.toConfig s ip)
    (hb : b ∈ s) : base.blkName2Ip.getD b 0 = ip b := by
  rw [TreeMap.getD_eq_getD_getElem?, hbase.place b hb]
  rfl

end Store

/-! ## Few racks -/

/-- In how many racks other than the requestor's some blocks are. -/
def otherRacks (rack : Str → Str) (reqrack : Str) (names : List Str) : Nat :=
  ((names.map rack).toFinset.erase reqrack).card

section Few

variable {conf : RackConfig} {base : MetadataBase} {blkName reqrack : Str}
  {rackSize : List (Str × Nat)} (hother : OtherRacks conf base blkName reqrack rackSize)

include hother

/-- Survivors in a few racks are no more than those in the requestor's and in as many of the
largest. -/
theorem length_le_of_survivors {names : List Str} (hnodup : names.Nodup)
    (hsurvive : ∀ b ∈ names, b ∈ survivors base blkName) :
    names.length ≤ (inRack conf base blkName reqrack).length +
      ((rackSize.take (otherRacks (rackOfBlk conf base) reqrack names)).map Prod.snd).sum := by
  let others := (names.map (rackOfBlk conf base)).toFinset.erase reqrack
  let sizes := others.toList.map fun rack => (rack, (inRack conf base blkName rack).length)
  have hsizes : ∀ it ∈ sizes, it ∈ rackSize := by
    intro it hit
    rcases List.mem_map.1 hit with ⟨rack, hrack, rfl⟩
    rcases Finset.mem_erase.1 (Finset.mem_toList.1 hrack) with ⟨hne, hin⟩
    rcases List.mem_map.1 (List.mem_toFinset.1 hin) with ⟨b, hb, rfl⟩
    refine (hother.mem _).2 ⟨hne, fun hnil => ?_, rfl⟩
    exact inRack_eq_nil_iff.1 hnil (List.mem_map_of_mem (hsurvive b hb))
  have hfst : sizes.map Prod.fst = others.toList := by
    simp [sizes, List.map_map, Function.comp_def]
  have hlength : sizes.length = others.card := by
    simp [sizes]
  -- all of the blocks are in these racks
  have hcover : names.Subperm ((reqrack :: sizes.map Prod.fst).flatMap
      (inRack conf base blkName)) := by
    refine List.subperm_of_subset hnodup fun b hb => mem_flatMap_inRack.2 ⟨hsurvive b hb, ?_⟩
    by_cases hreq : rackOfBlk conf base b = reqrack
    · exact List.mem_cons.2 (Or.inl hreq)
    · rw [hfst]
      refine List.mem_cons_of_mem _ (Finset.mem_toList.2 (Finset.mem_erase.2 ⟨hreq, ?_⟩))
      exact List.mem_toFinset.2 (List.mem_map_of_mem hb)
  have hsub : (sizes.map Prod.snd).Subperm (rackSize.map Prod.snd) := by
    have hdistinct : sizes.Nodup := by
      refine List.Nodup.of_map Prod.fst ?_
      rw [hfst]
      exact Finset.nodup_toList others
    rcases List.subperm_of_subset hdistinct hsizes with ⟨l, hperm, hl⟩
    exact ⟨l.map Prod.snd, hperm.map Prod.snd, hl.map Prod.snd⟩
  have hdesc : (rackSize.map Prod.snd).Pairwise (· ≥ ·) :=
    List.pairwise_map.2 hother.descending
  calc names.length
      ≤ ((reqrack :: sizes.map Prod.fst).flatMap (inRack conf base blkName)).length :=
        hcover.length_le
    _ = (inRack conf base blkName reqrack).length + (sizes.map Prod.snd).sum := by
        rw [List.flatMap_cons, List.length_append, length_flatMap_inRack hother hsizes]
    _ ≤ (inRack conf base blkName reqrack).length +
        ((rackSize.map Prod.snd).take (sizes.map Prod.snd).length).sum :=
        Nat.add_le_add_left (Groups.sum_le_sum_take hdesc hsub) _
    _ = _ := by
        rw [List.length_map, hlength, List.map_take]
        rfl

/-- The helpers come from as few other racks as any `ecK` survivors. -/
theorem Selected.fewest {names names' : List Str}
    (h : Selected conf base blkName reqrack rackSize names)
    (henough : conf.ecK ≤ (survivors base blkName).length) (hnodup : names'.Nodup)
    (hsurvive : ∀ b ∈ names', b ∈ survivors base blkName) :
    names'.length = conf.ecK → otherRacks (rackOfBlk conf base) reqrack names ≤
      otherRacks (rackOfBlk conf base) reqrack names' := by
  intro hlength
  rcases chooseRacks_takenRacks hother henough with ⟨m, _, htaken, _, _, hfewer⟩
  have htakes : otherRacks (rackOfBlk conf base) reqrack names ≤ m := by
    have hsub : (names.map (rackOfBlk conf base)).toFinset.erase reqrack ⊆
        ((rackSize.take m).map Prod.fst).toFinset := by
      intro rack hrack
      rcases Finset.mem_erase.1 hrack with ⟨hne, hin⟩
      rcases List.mem_map.1 (List.mem_toFinset.1 hin) with ⟨b, hb, rfl⟩
      have hdealt := h.racks b hb
      rw [dealtRacks, htaken] at hdealt
      refine List.mem_toFinset.2 ((List.mem_append.1 hdealt).resolve_right fun hreq => ?_)
      exact hne (List.mem_singleton.1 hreq)
    calc otherRacks (rackOfBlk conf base) reqrack names
        ≤ ((rackSize.take m).map Prod.fst).toFinset.card := Finset.card_le_card hsub
      _ ≤ ((rackSize.take m).map Prod.fst).length := List.toFinset_card_le _
      _ ≤ m := by
          rw [List.length_map]
          exact List.length_take_le _ _
  refine htakes.trans (Nat.not_lt.1 fun hless => ?_)
  -- with fewer racks than are taken there are too few blocks
  have hlen := length_le_of_survivors hother hnodup hsurvive
  exact absurd (hlength ▸ hlen) (Nat.not_le.2 (hfewer _ hless))

end Few

/-! ## The choice -/

/-- What the choice of the helpers is for: `ecK` other blocks of the stripe on their nodes, from as
few racks besides the requestor's as `ecK` other blocks can be. -/
structure RackChoice (conf : RackConfig) (s : List Str) (ip : Str → Nat) (blkName : Str)
    (requestorIP : Nat) (ret : List (Nat × Str)) : Prop where
  length : ret.length = conf.ecK
  distinct : (ret.map Prod.snd).Nodup
  survive : ∀ p ∈ ret, p.2 ∈ s ∧ p.2 ≠ blkName ∧ p.1 = ip p.2
  fewest : IsLeast {n | ∃ names : List Str, names.Nodup ∧ names.length = conf.ecK ∧
      (∀ b ∈ names, b ∈ s ∧ b ≠ blkName) ∧
      n = otherRacks (fun b => conf.rackInfos.getD (ip b) [])
        (conf.rackInfos.getD requestorIP []) names}
    (otherRacks (fun b => conf.rackInfos.getD (ip b) []) (conf.rackInfos.getD requestorIP [])
      (ret.map Prod.snd))

theorem otherRacks_perm {rack : Str → Str} {reqrack : Str} {names names' : List Str}
    (h : names.Perm names') : otherRacks rack reqrack names = otherRacks rack reqrack names' := by
  rw [otherRacks, otherRacks, List.toFinset_eq_of_perm _ _ (h.map rack)]

theorem otherRacks_congr {rack rack' : Str → Str} {reqrack : Str} {names : List Str}
    (h : ∀ b ∈ names, rack b = rack' b) :
    otherRacks rack reqrack names = otherRacks rack' reqrack names := by
  rw [otherRacks, otherRacks, List.map_congr_left h]

/-- The order of the pipeline does not matter to it. -/
theorem RackChoice.perm {conf : RackConfig} {s : List Str} {ip : Str → Nat} {blkName : Str}
    {requestorIP : Nat} {ret ret' : List (Nat × Str)} (h : RackChoice conf s ip blkName requestorIP ret)
    (hperm : ret'.Perm ret) : RackChoice conf s ip blkName requestorIP ret' where
  length := hperm.length_eq.trans h.length
  distinct := (hperm.map Prod.snd).nodup_iff.2 h.distinct
  survive := fun p hp => h.survive p (hperm.mem_iff.1 hp)
  fewest := by
    rw [otherRacks_perm (hperm.map Prod.snd)]
    exact h.fewest

section Choice

variable {conf : RackConfig} {rsu : RSUtil} {stripes : List (List Str)} {dir : List (Str × Str)}
  {blkInit : List (Nat × Str)} {base : MetadataBase} {s : List Str} {ip : Str → Nat} {b : Str}

/-- The survivors of a block are all blocks of its stripe but one. -/
theorem length_survivors (hdir : IsStore conf.toConfig stripes dir)
    (hload : hdfsMetadataBase conf.toRepairConfig rsu dir blkInit = some base) (hs : s ∈ stripes)
    (hb : b ∈ s) : (survivors base b).length + 1 = conf.ecN := by
  have hnodup := hdir.isStripes.stripe_nodup hs
  have hperm : (b :: survivors base b).Perm s := by
    refine (List.perm_ext_iff_of_nodup ?_ hnodup).2 fun x => ?_
    · refine List.nodup_cons.2 ⟨fun hmem => ?_, Tree.set_toList_nodup _⟩
      exact ((mem_survivors hdir hload hs hb).1 hmem).2 rfl
    · rw [List.mem_cons, mem_survivors hdir hload hs hb]
      constructor
      · rintro (rfl | ⟨hx, _⟩)
        · exact hb
        · exact hx
      · intro hx
        exact (eq_or_ne x b).imp_right fun hne => ⟨hx, hne⟩
  exact (hperm.length_eq).trans (hdir.isStripes.length s hs)

/-- Whether a survivor is in the rack of the requestor, by the nodes of the blocks. -/
theorem inRack_ne_nil_iff (hdir : IsStore conf.toConfig stripes dir)
    (hload : hdfsMetadataBase conf.toRepairConfig rsu dir blkInit = some base) (hs : s ∈ stripes)
    (hb : b ∈ s) (hbase : base.HoldsStripe conf.toConfig s ip) {requestorIP : Nat} :
    inRack conf base b (conf.rackInfos.getD requestorIP []) ≠ [] ↔
      ∃ x ∈ s, x ≠ b ∧ conf.rackInfos.getD (ip x) [] = conf.rackInfos.getD requestorIP [] := by
  rw [ne_eq, inRack_eq_nil_iff, not_not, List.mem_map]
  constructor
  · rintro ⟨x, hx, hrack⟩
    rcases (mem_survivors hdir hload hs hb).1 hx with ⟨hxs, hne⟩
    rw [rackOfBlk, getD_blkName2Ip hbase hxs] at hrack
    exact ⟨x, hxs, hne, hrack⟩
  · rintro ⟨x, hxs, hne, hrack⟩
    refine ⟨x, (mem_survivors hdir hload hs hb).2 ⟨hxs, hne⟩, ?_⟩
    rwa [rackOfBlk, getD_blkName2Ip hbase hxs]

theorem rackChoice_of_selected (hdir : IsStore conf.toConfig stripes dir)
    (hload : hdfsMetadataBase conf.toRepairConfig rsu dir blkInit = some base) (hs : s ∈ stripes)
    (hb : b ∈ s) (hbase : base.HoldsStripe conf.toConfig s ip) (hkn : conf.ecK < conf.ecN)
    {requestorIP : Nat} {rackSize : List (Str × Nat)} {names : List Str}
    (hother : OtherRacks conf base b (conf.rackInfos.getD requestorIP []) rackSize)
    (h : Selected conf base b (conf.rackInfos.getD requestorIP []) rackSize names) :
    RackChoice conf s ip b requestorIP (names.map (placed base)) := by
  have hmem : ∀ x, x ∈ survivors base b ↔ x ∈ s ∧ x ≠ b := fun x => mem_survivors hdir hload hs hb
  have henough : conf.ecK ≤ (survivors base b).length := by
    have hlen := length_survivors hdir hload hs hb
    omega
  have hrack : ∀ x ∈ s, rackOfBlk conf base x = conf.rackInfos.getD (ip x) [] := by
    intro x hx
    rw [rackOfBlk, getD_blkName2Ip hbase hx]
  have hsnd : (names.map (placed base)).map Prod.snd = names := by
    simp [placed, List.map_map, Function.comp_def]
  have hcount : ∀ names : List Str, (∀ x ∈ names, x ∈ survivors base b) →
      otherRacks (rackOfBlk conf base) (conf.rackInfos.getD requestorIP []) names =
        otherRacks (fun x => conf.rackInfos.getD (ip x) []) (conf.rackInfos.getD requestorIP [])
          names := by
    intro names hnames
    exact otherRacks_congr fun x hx => hrack x ((hmem x).1 (hnames x hx)).1
  constructor
  case length =>
    rw [List.length_map, h.length]
  case distinct =>
    rw [hsnd]
    exact h.nodup
  case survive =>
    intro p hp
    rcases List.mem_map.1 hp with ⟨x, hx, rfl⟩
    have hx' := (hmem x).1 (h.survive x hx)
    exact ⟨hx'.1, hx'.2, getD_blkName2Ip hbase hx'.1⟩
  case fewest =>
    rw [hsnd]
    constructor
    · exact ⟨names, h.nodup, h.length, fun x hx => (hmem x).1 (h.survive x hx), rfl⟩
    · rintro n ⟨names', hnodup, hlength, hsurvive, rfl⟩
      have hsurvive' : ∀ x ∈ names', x ∈ survivors base b := fun x hx => (hmem x).2 (hsurvive x hx)
      rw [← hcount names h.survive, ← hcount names' hsurvive']
      exact h.fewest hother henough hnodup hsurvive' hlength

end Choice

/-- With rack awareness the choice is right if, and only if, a survivor is in the rack of the
requestor. -/
theorem rackChoice_iff (conf : RackConfig) (rsu : RSUtil) (hk : 1 ≤ conf.ecK)
    (hkn : conf.ecK < conf.ecN) (stripes : List (List Str)) (blkInit : List (Nat × Str))
    (dir : List (Str × Str)) (hdir : IsStore conf.toConfig stripes dir) (base : MetadataBase)
    (hload : hdfsMetadataBase conf.toRepairConfig rsu dir blkInit = some base) (s : List Str)
    (hs : s ∈ stripes) (ip : Str → Nat) (hrep : Reported blkInit s ip)
    (haware : conf.rackAware = true) (sorter : SortRacks) (rand : Shuffle) (b : Str) (hb : b ∈ s)
    (requestorIP : Nat) :
    (∃ ret, getStripeBlks conf sorter base rand b requestorIP = some ret ∧
        RackChoice conf s ip b requestorIP ret) ↔
      ∃ x ∈ s, x ≠ b ∧ conf.rackInfos.getD (ip x) [] = conf.rackInfos.getD requestorIP [] := by
  have hbase := hdfs_holdsStripe hk hkn hdir hs hrep hload
  have hknown := hbase.known hb
  have henough : conf.ecK ≤ (survivors base b).length := by
    have hlen := length_survivors hdir hload hs hb
    omega
  rw [← inRack_ne_nil_iff hdir hload hs hb hbase, getStripeBlks, if_pos ⟨hknown.1, hknown.2.2⟩, helperBlks, if_pos haware]
  constructor
  · rintro ⟨ret, hret, _⟩ hnil
    rw [rackHelpers_eq_none hk hnil] at hret
    cases hret
  · intro hne
    rcases rackHelpers_spec sorter hk henough hne with ⟨names, hnames, hselected⟩
    refine ⟨_, by rw [hnames]; rfl, ?_⟩
    exact (rackChoice_of_selected hdir hload hs hb hbase hkn (otherRacks_sortedRacks _)
      hselected).perm (schedulePipeline_perm _ _ _ _)

/-- The small store with two racks; node 9 is in a third one. -/
def rackedXorConf : RackConfig where
  toRepairConfig := { xorRepairConf with
    rackInfos := (∅ : TreeMap Nat Str).insertMany [(1, ['r']), (2, ['r']), (3, ['s']), (9, ['t'])] }
  rackAware := true
  loadbalance := true

theorem rackChoice_iff_xor :
    ∃ base, hdfsMetadataBase rackedXorConf.toRepairConfig xorRSUtil xorDir xorInit = some base ∧
      ∃ ret, getStripeBlks rackedXorConf bySize base unshuffled xorLost 1 = some ret ∧
        RackChoice rackedXorConf xorStripe xorIp xorLost 1 ret := by
  rcases xor_load rackedXorConf.toRepairConfig xorRSUtil (by decide) xorDir_isStore with
    ⟨base, hload⟩
  refine ⟨base, hload, ?_⟩
  exact (rackChoice_iff rackedXorConf xorRSUtil (by decide) (by decide) [xorStripe] xorInit xorDir
    xorDir_isStore base hload xorStripe (List.mem_singleton_self _) xorIp xorInit_reported rfl
    bySize unshuffled xorLost (by decide) 1).2 ⟨xorStripe.getD 0 [], by decide, by decide,
      by decide +kernel⟩

/-- Node 9 asks, and no block is in its rack: the code reads behind the end of the empty list of
racks. -/
theorem not_rackChoice_xor :
    ∃ base, hdfsMetadataBase rackedXorConf.toRepairConfig xorRSUtil xorDir xorInit = some base ∧
      getStripeBlks rackedXorConf bySize base unshuffled xorLost 9 = none ∧
      ¬ ∃ ret, getStripeBlks rackedXorConf bySize base unshuffled xorLost 9 = some ret ∧
        RackChoice rackedXorConf xorStripe xorIp xorLost 9 ret := by
  rcases xor_load rackedXorConf.toRepairConfig xorRSUtil (by decide) xorDir_isStore with
    ⟨base, hload⟩
  have hbase := hdfs_holdsStripe (by decide) (by decide) xorDir_isStore
    (List.mem_singleton_self _) xorInit_reported hload
  have hracks : ∀ x ∈ xorStripe, rackedXorConf.rackInfos.getD (xorIp x) [] ≠
      rackedXorConf.rackInfos.getD 9 [] := by
    decide +kernel
  have hnil : inRack rackedXorConf base xorLost (rackedXorConf.rackInfos.getD 9 []) = [] := by
    refine inRack_eq_nil_iff.2 fun hmem => ?_
    rcases List.mem_map.1 hmem with ⟨x, hx, hrack⟩
    have hxs := ((mem_survivors xorDir_isStore hload (List.mem_singleton_self _)
      (by decide)).1 hx).1
    rw [rackOfBlk, getD_blkName2Ip hbase hxs] at hrack
    exact hracks x hxs hrack
  have hnone : getStripeBlks rackedXorConf bySize base unshuffled xorLost 9 = none := by
    have hknown := hbase.known (show xorLost ∈ xorStripe by decide)
    rw [getStripeBlks, if_pos ⟨hknown.1, hknown.2.2⟩, helperBlks,
      if_pos (show rackedXorConf.rackAware = true from rfl), rackHelpers_eq_none (by decide) hnil]
    rfl
  refine ⟨base, hload, hnone, ?_⟩
  rintro ⟨ret, hret, _⟩
  rw [hnone] at hret
  cases hret

end Hdfs

end CoRD
