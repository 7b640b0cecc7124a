import CoRD.Repair.BlkReports
import CoRD.Repair.Command
import CoRD.Repair.RackChoice

/-!
# PPRCoordinator — commands for helpers that have no coefficient

`PPRCoordinator` asks the metadata base twice: for the helpers of a lost block, and for the
coefficients.  The coefficients are those of the helpers that were fixed when the stripes were read.
With rack awareness the helpers may be others, and then a coefficient is missing and taken as zero.
-/

namespace CoRD

open Std

namespace PPR

/-! ## The program -/

section Program

variable (requestorIP : Nat) (filename : Str) (coef : TreeMap Str GF256)
  (stripe : List (Nat × Str))

/-- The nodes in a command: the helpers, and the requestor behind them. -/
def holderIps : List Nat :=
  stripe.map Prod.fst ++ [requestorIP]

/-- The command for helper `i`; the `map` gives zero for a name that it does not have. -/
def helperCmd (i : Nat) (localFile : Str) : PPRCmd where
  ecK := stripe.length
  id := i
  holderIps := holderIps requestorIP stripe
  coefficient := coef.getD localFile 0
  lostBlkName := filename
  localBlkName := localFile

def requestorCmd : PPRCmd where
  ecK := stripe.length
  id := stripe.length
  holderIps := holderIps requestorIP stripe
  coefficient := 0
  lostBlkName := filename
  localBlkName := []

/-- The commands of the helpers, with their nodes. -/
def helperCmds : List (Nat × PPRCmd) :=
  stripe.zipIdx.map fun it =>
    (it.1.1, helperCmd requestorIP filename coef stripe it.2 it.1.2)

end Program

/-- `PPRCoordinator::requestHandler`: the commands of the helpers, and that of the requestor. -/
def requestHandler (conf : RackConfig) (rsu : RSUtil) (sorter : SortRacks) (base : MetadataBase)
    (rand : Shuffle) (filename : Str) (requestorIP : Nat) :
    Option (List (Nat × PPRCmd) × (Nat × PPRCmd)) :=
  (Hdfs.getStripeBlks conf sorter base rand filename requestorIP).map fun stripe =>
    -- a map by the nodes, to have the helpers in their order
    let stripe := (Tree.writeAll stripe (∅ : TreeMap Nat Str)).toList
    let coef := base.getCoefficient conf.toConfig rsu filename none
    (helperCmds requestorIP filename coef stripe,
      (requestorIP, requestorCmd requestorIP filename stripe))

/-- What the commands are for: `ecK` other blocks of the stripe, on their nodes, each with a
coefficient of its own, combine to the lost one. -/
structure Repairs (conf : RackConfig) (rsu : RSUtil) (base : MetadataBase)
    (content : Str → Nat → GF256) (s : List Str) (ip : Str → Nat) (filename : Str)
    (cmds : List (Nat × PPRCmd)) : Prop where
  length : cmds.length = conf.ecK
  distinct : (cmds.map fun c => c.2.localBlkName).Nodup
  survive : ∀ c ∈ cmds, c.2.localBlkName ∈ s ∧ c.2.localBlkName ≠ filename ∧
    c.1 = ip c.2.localBlkName
  key : ∀ c ∈ cmds, c.2.localBlkName ∈ base.getCoefficient conf.toConfig rsu filename none
  content : ∀ x, (cmds.map fun c => c.2.coefficient * content c.2.localBlkName x).sum =
    content filename x

/-! ## The helpers that have coefficients -/

section Helpers

variable {conf : RackConfig} {rsu : RSUtil} {encMat : IntArr} {stripes : List (List Str)}
  {content : Str → Nat → GF256} {d : Described} {sched : Bool} {blkInit : List (Nat × Str)}
  {s : List Str} {ip : Str → Nat} {i : Nat}

/-- The map by the nodes keeps helpers on distinct nodes. -/
theorem toList_stripe_perm {ret : List (Nat × Str)} {names : List Str}
    (hnodes : (names.map ip).Nodup) (hret : ret.Perm (names.map fun b => (ip b, b))) :
    (Tree.writeAll ret (∅ : TreeMap Nat Str)).toList.Perm (names.map fun b => (ip b, b)) := by
  have hkeys : (ret.map Prod.fst).Nodup := by
    have hperm := hret.map Prod.fst
    rw [List.map_map] at hperm
    exact hperm.nodup_iff.2 hnodes
  exact (Tree.toList_writeAll_empty hkeys).trans hret

theorem map_helperCmds {γ : Type} (requestorIP : Nat) (filename : Str) (coef : TreeMap Str GF256)
    (stripe : List (Nat × Str)) (f : Nat → Str → GF256 → γ) :
    ((helperCmds requestorIP filename coef stripe).map fun c =>
      f c.1 c.2.localBlkName c.2.coefficient) =
      stripe.map fun it => f it.1 it.2 (coef.getD it.2 0) := by
  conv_rhs => rw [← List.zipIdx_map_fst 0 stripe]
  rw [helperCmds, List.map_map, List.map_map]
  rfl

theorem mem_helperCmds {requestorIP : Nat} {filename : Str} {coef : TreeMap Str GF256}
    {stripe : List (Nat × Str)} {c : Nat × PPRCmd} :
    c ∈ helperCmds requestorIP filename coef stripe → (c.1, c.2.localBlkName) ∈ stripe := by
  intro hc
  rcases List.mem_map.1 hc with ⟨it, hit, rfl⟩
  exact List.fst_mem_of_mem_zipIdx hit

/-- A table of coefficients combines its names as it is looked up. -/
theorem combined_eq_sum_keys (coef : TreeMap Str GF256) (x : Nat) :
    combined content coef x = (coef.keys.map fun b => coef.getD b 0 * content b x).sum := by
  have hget : ∀ p ∈ coef.toList, p.2 * content p.1 x = coef.getD p.1 0 * content p.1 x := by
    intro p hp
    rw [TreeMap.getD_eq_getD_getElem?, TreeMap.mem_toList_iff_getElem?_eq_some.1 hp]
    rfl
  rw [combined, List.map_congr_left hget, ← TreeMap.map_fst_toList_eq_keys, List.map_map]
  rfl

/-- Helpers are right just if they are those of the coefficients. -/
theorem repairs_iff_perm (sched : Bool) (hstripes : IsStripes conf.toConfig stripes)
    (hd : d.Describes conf.toConfig rsu stripes) (hrsu : rsu.Decodes conf.toConfig encMat)
    (hcontent : Encoded conf.toConfig encMat stripes content) (hkn : conf.ecK < conf.ecN)
    (hs : s ∈ stripes) (hi : i < s.length) (hrep : Reported blkInit s ip) (requestorIP : Nat)
    {ret : List (Nat × Str)} {names : List Str} (hnodup : names.Nodup)
    (hsub : ∀ h ∈ names, h ∈ s) (hret : ret.Perm (names.map fun b => (ip b, b))) :
    Repairs conf rsu (d.receive sched blkInit).base content s ip s[i]
        (helperCmds requestorIP s[i]
          ((d.receive sched blkInit).base.getCoefficient conf.toConfig rsu s[i] none)
          (Tree.writeAll ret (∅ : TreeMap Nat Str)).toList) ↔
      names.Perm (helperNames conf.toConfig s i) := by
  have hlen := hstripes.length s hs
  have hdecodes : (d.receive sched blkInit).base.DecodesSingle conf.toRepairConfig rsu content s :=
    decodesSingle hstripes hd hrsu hcontent hs
  have hkeys := (getCoefficient_toList_perm sched blkInit hi hstripes hd hs).map Prod.fst
  rw [coefficientPairs_map_fst, TreeMap.map_fst_toList_eq_keys] at hkeys
  have hmem : ∀ h, h ∈ (d.receive sched blkInit).base.getCoefficient conf.toConfig rsu s[i] none ↔
      h ∈ helperNames conf.toConfig s i := by
    intro h
    rw [← TreeMap.mem_keys, hkeys.mem_iff]
  have hdefault : (helperNames conf.toConfig s i).length = conf.ecK := by
    rw [helperNames, List.length_map, firstOthers_length conf.toConfig (hlen ▸ hi) hkn]
  -- the helpers in the order of their nodes
  have hstripe := toList_stripe_perm (List.Nodup.map_on
    (fun b hb b' hb' heq => List.inj_on_of_nodup_map hrep.nodes (hsub b hb) (hsub b' hb') heq)
    hnodup) hret
  generalize (Tree.writeAll ret (∅ : TreeMap Nat Str)).toList = stripe at hstripe
  have hnames : (stripe.map Prod.snd).Perm names := by
    have hperm := hstripe.map Prod.snd
    rw [List.map_map] at hperm
    exact hperm.trans (List.Perm.of_eq (List.map_id _))
  have hcmds : ∀ coef, ((helperCmds requestorIP s[i] coef stripe).map fun c =>
      c.2.localBlkName) = stripe.map Prod.snd := fun coef =>
    map_helperCmds requestorIP s[i] coef stripe fun _ localFile _ => localFile
  constructor
  · intro h
    have hlength : names.length = conf.ecK := by
      rw [← hnames.length_eq, ← hcmds, List.length_map, h.length]
    have hall : ∀ b ∈ names, b ∈ helperNames conf.toConfig s i := by
      intro b hb
      rw [← hnames.mem_iff, ← hcmds] at hb
      rcases List.mem_map.1 hb with ⟨c, hc, rfl⟩
      exact (hmem _).1 (h.key c hc)
    exact (List.subperm_of_subset hnodup hall).perm_of_length_le
      (hdefault.trans hlength.symm).le
  · intro hperm
    have hin : ∀ c ∈ helperCmds requestorIP s[i]
        ((d.receive sched blkInit).base.getCoefficient conf.toConfig rsu s[i] none) stripe,
        c.2.localBlkName ∈ helperNames conf.toConfig s i ∧ c.1 = ip c.2.localBlkName := by
      intro c hc
      rcases List.mem_map.1 (hstripe.mem_iff.1 (mem_helperCmds hc)) with ⟨b, hb, heq⟩
      have hnode : ip b = c.1 := congrArg Prod.fst heq
      have hname : b = c.2.localBlkName := congrArg Prod.snd heq
      rw [← hnode, ← hname]
      exact ⟨hperm.mem_iff.1 hb, rfl⟩
    constructor
    case length =>
      rw [helperCmds, List.length_map, List.length_zipIdx, ← List.length_map Prod.snd,
        hnames.length_eq, hperm.length_eq, hdefault]
    case distinct =>
      rw [hcmds]
      exact hnames.nodup_iff.2 hnodup
    case survive =>
      intro c hc
      rcases hin c hc with ⟨hhelper, hnode⟩
      rcases mem_helperNames (hstripes.stripe_nodup hs) hlen hi hhelper with ⟨hcs, hne⟩
      exact ⟨hcs, hne, hnode⟩
    case key =>
      intro c hc
      exact (hmem _).2 (hin c hc).1
    case content =>
      intro x
      rw [← hdecodes.content s[i] (List.getElem_mem hi) x, combined_eq_sum_keys,
        map_helperCmds requestorIP s[i] _ stripe fun _ b c => c * content b x]
      have hall := (hnames.trans hperm).trans hkeys.symm
      have hsum := (hall.map fun b => ((d.receive sched blkInit).base.getCoefficient conf.toConfig
        rsu s[i] none).getD b 0 * content b x).sum_eq
      rw [List.map_map] at hsum
      exact hsum

/-- Of the blocks of one choice and as many others, both first in the order of the choice, there are
none but the same. -/
theorem selected_perm_iff {base : MetadataBase} {b reqrack : Str} {rackSize : List (Str × Nat)}
    {names default : List Str} (h : Hdfs.Selected conf base b reqrack rackSize names)
    (hnodup : default.Nodup) (hlength : default.length = conf.ecK)
    (hsurvive : ∀ x ∈ default, x ∈ Hdfs.survivors base b) :
    names.Perm default ↔ ∀ x ∈ default, ∀ e ∈ Hdfs.survivors base b, e ∉ default →
      Hdfs.Before conf base b reqrack rackSize x e := by
  constructor
  · intro hperm x hx e he hnot
    exact h.first x (hperm.mem_iff.2 hx) e he fun hin => hnot (hperm.mem_iff.1 hin)
  · intro hfirst
    have hsub : ∀ x ∈ names, x ∈ default := by
      intro x hx
      by_contra hnot
      -- a default helper was left out for `x`
      have hleft : ∃ y ∈ default, y ∉ names := by
        by_contra hall
        push Not at hall
        have hperm : default.Perm names :=
          (List.subperm_of_subset hnodup hall).perm_of_length_le (h.length.trans hlength.symm).le
        exact hnot (hperm.mem_iff.2 hx)
      rcases hleft with ⟨y, hy, hynot⟩
      exact (h.first x hx y (hsurvive y hy) hynot).asymm (hfirst y hy x (h.survive x hx) hnot)
    exact (List.subperm_of_subset h.nodup hsub).perm_of_length_le (hlength.trans h.length.symm).le

end Helpers

section Store

variable {conf : RackConfig} {rsu : RSUtil} {encMat : IntArr} {stripes : List (List Str)}
  {content : Str → Nat → GF256} {blkInit : List (Nat × Str)} {dir : List (Str × Str)}
  {base : MetadataBase} {s : List Str} {ip : Str → Nat} {sorter : SortRacks} {i : Nat}
  {requestorIP : Nat}

/-- The helpers that are found decide, whatever their order. -/
theorem requestHandler_of_helperBlks (hk : 1 ≤ conf.ecK) (hkn : conf.ecK < conf.ecN)
    (hrsu : rsu.Decodes conf.toConfig encMat)
    (hcontent : Encoded conf.toConfig encMat stripes content)
    (hdir : IsStore conf.toConfig stripes dir)
    (hload : hdfsMetadataBase conf.toRepairConfig rsu dir blkInit = some base)
    (hs : s ∈ stripes) (hrep : Reported blkInit s ip) (hi : i < s.length) (rand : Shuffle)
    {selection : List (Nat × Str)} {names : List Str}
    (hselection : Hdfs.helperBlks conf sorter base s[i] requestorIP = some selection)
    (hperm : selection.Perm (names.map fun b => (ip b, b))) (hnodup : names.Nodup)
    (hsub : ∀ h ∈ names, h ∈ s) :
    ∃ cmds last, requestHandler conf rsu sorter base rand s[i] requestorIP = some (cmds, last) ∧
      (Repairs conf rsu base content s ip s[i] cmds ↔
        names.Perm (helperNames conf.toConfig s i)) := by
  have hknown := (hdfs_holdsStripe hk hkn hdir hs hrep hload).known (List.getElem_mem hi)
  rcases readStripeStore_describes rsu (Nat.lt_trans hk hkn) hdir with ⟨d, hread, hd⟩
  have hreceive : base = (d.receive conf.msscheduling blkInit).base := by
    rw [hdfsMetadataBase, hread] at hload
    exact (Option.some.inj hload).symm
  have hiff := repairs_iff_perm conf.msscheduling hdir.isStripes hd hrsu hcontent hkn hs hi hrep
    requestorIP hnodup hsub
    ((schedulePipeline_perm conf.toRepairConfig rand requestorIP selection).trans hperm)
  rw [← hreceive] at hiff
  rw [requestHandler, Hdfs.getStripeBlks, if_pos ⟨hknown.1, hknown.2.2⟩, hselection]
  exact ⟨_, _, rfl, hiff⟩

/-- With rack awareness the helpers that have coefficients have to be the first ones. -/
theorem requestHandler_of_rackAware (hk : 1 ≤ conf.ecK) (hkn : conf.ecK < conf.ecN)
    (hrsu : rsu.Decodes conf.toConfig encMat)
    (hcontent : Encoded conf.toConfig encMat stripes content)
    (hdir : IsStore conf.toConfig stripes dir)
    (hload : hdfsMetadataBase conf.toRepairConfig rsu dir blkInit = some base)
    (hs : s ∈ stripes) (hrep : Reported blkInit s ip) (hi : i < s.length) (sorter : SortRacks)
    (rand : Shuffle) (requestorIP : Nat) (haware : conf.rackAware = true)
    (hmine : ∃ x ∈ s, x ≠ s[i] ∧
      conf.rackInfos.getD (ip x) [] = conf.rackInfos.getD requestorIP []) :
    ∃ cmds last, requestHandler conf rsu sorter base rand s[i] requestorIP = some (cmds, last) ∧
      (Repairs conf rsu base content s ip s[i] cmds ↔
        ∀ h ∈ helperNames conf.toConfig s i, ∀ e ∈ s, e ≠ s[i] →
          e ∉ helperNames conf.toConfig s i →
            Hdfs.Before conf base s[i] (conf.rackInfos.getD requestorIP [])
              (Hdfs.sortedRacks conf sorter base s[i] (conf.rackInfos.getD requestorIP [])) h e) := by
  have hb : s[i] ∈ s := List.getElem_mem hi
  have hbase := hdfs_holdsStripe hk hkn hdir hs hrep hload
  have hlen := hdir.isStripes.length s hs
  have hstripe := hdir.isStripes.stripe_nodup hs
  have hmem : ∀ x, x ∈ Hdfs.survivors base s[i] ↔ x ∈ s ∧ x ≠ s[i] :=
    fun x => Hdfs.mem_survivors hdir hload hs hb
  have hdefault : (helperNames conf.toConfig s i).length = conf.ecK := by
    rw [helperNames, List.length_map, firstOthers_length conf.toConfig (hlen ▸ hi) hkn]
  have henough : conf.ecK ≤ (Hdfs.survivors base s[i]).length := by
    have hsurvivors := Hdfs.length_survivors hdir hload hs hb
    omega
  rcases Hdfs.rackHelpers_spec sorter hk henough
    ((Hdfs.inRack_ne_nil_iff hdir hload hs hb hbase).2 hmine) with ⟨names, hnames, hselected⟩
  have hsub : ∀ h ∈ names, h ∈ s := fun h hh => ((hmem h).1 (hselected.survive h hh)).1
  have hplaced : names.map (Hdfs.placed base) = names.map fun b => (ip b, b) := by
    refine List.map_congr_left fun b hb => ?_
    rw [Hdfs.placed, Hdfs.getD_blkName2Ip hbase (hsub b hb)]
  have hselection : Hdfs.helperBlks conf sorter base s[i] requestorIP =
      some (names.map fun b => (ip b, b)) := by
    rw [Hdfs.helperBlks, if_pos haware, hnames, hplaced]
  rcases requestHandler_of_helperBlks hk hkn hrsu hcontent hdir hload hs hrep hi rand hselection
    (List.Perm.refl _) hselected.nodup hsub with ⟨cmds, last, hcmds, hiff⟩
  refine ⟨cmds, last, hcmds, ?_⟩
  -- two selections of the same size agree when nothing outside comes before what is inside
  rw [hiff, selected_perm_iff hselected (helperNames_nodup hstripe hlen hi) hdefault
    fun x hx => (hmem x).2 (mem_helperNames hstripe hlen hi hx)]
  constructor
  · intro hfirst h hh e he hne hnot
    exact hfirst h hh e ((hmem e).2 ⟨he, hne⟩) hnot
  · intro hfirst h hh e he hnot
    exact hfirst h hh e ((hmem e).1 he).1 ((hmem e).1 he).2 hnot

end Store

/-- The commands repair the block if rack awareness is off, or if a survivor is in the rack of the
requestor and the helpers that have coefficients come before the other survivors in the order in which
the racks are taken; and only then. -/
theorem requestHandler_repairs_iff (conf : RackConfig) (rsu : RSUtil) (encMat : IntArr)
    (hk : 1 ≤ conf.ecK) (hkn : conf.ecK < conf.ecN) (hrsu : rsu.Decodes conf.toConfig encMat)
    (stripes : List (List Str)) (content : Str → Nat → GF256)
    (hcontent : Encoded conf.toConfig encMat stripes content) (blkInit : List (Nat × Str))
    (dir : List (Str × Str)) (hdir : IsStore conf.toConfig stripes dir) (base : MetadataBase)
    (hload : hdfsMetadataBase conf.toRepairConfig rsu dir blkInit = some base) (s : List Str)
    (hs : s ∈ stripes) (ip : Str → Nat) (hrep : Reported blkInit s ip) (sorter : SortRacks)
    (rand : Shuffle) (i : Nat) (hi : i < s.length) (requestorIP : Nat) :
    (∃ cmds last, requestHandler conf rsu sorter base rand s[i] requestorIP = some (cmds, last) ∧
        Repairs conf rsu base content s ip s[i] cmds) ↔
      conf.rackAware = false ∨
        (∃ x ∈ s, x ≠ s[i] ∧
          conf.rackInfos.getD (ip x) [] = conf.rackInfos.getD requestorIP []) ∧
        ∀ h ∈ helperNames conf.toConfig s i, ∀ e ∈ s, e ≠ s[i] →
          e ∉ helperNames conf.toConfig s i →
            Hdfs.Before conf base s[i] (conf.rackInfos.getD requestorIP [])
              (Hdfs.sortedRacks conf sorter base s[i] (conf.rackInfos.getD requestorIP [])) h e := by
  have hb : s[i] ∈ s := List.getElem_mem hi
  have hbase := hdfs_holdsStripe hk hkn hdir hs hrep hload
  by_cases haware : conf.rackAware = true
  · rw [haware, or_iff_right (by simp)]
    by_cases hmine : ∃ x ∈ s, x ≠ s[i] ∧
        conf.rackInfos.getD (ip x) [] = conf.rackInfos.getD requestorIP []
    · rcases requestHandler_of_rackAware hk hkn hrsu hcontent hdir hload hs hrep hi sorter rand
        requestorIP haware hmine with ⟨cmds, last, hcmds, hiff⟩
      rw [hcmds, and_iff_right hmine, ← hiff]
      simp
    · -- the code reads behind the end of the racks
      have hnil := not_not.1 (mt (Hdfs.inRack_ne_nil_iff hdir hload hs hb hbase).1 hmine)
      have hknown := hbase.known hb
      have hnone : requestHandler conf rsu sorter base rand s[i] requestorIP = none := by
        rw [requestHandler, Hdfs.getStripeBlks, if_pos ⟨hknown.1, hknown.2.2⟩, Hdfs.helperBlks,
          if_pos haware, Hdfs.rackHelpers_eq_none hk hnil]
        rfl
      rw [hnone]
      simp [hmine]
  · have hnodup := hdir.isStripes.stripe_nodup hs
    have hlen := hdir.isStripes.length s hs
    rcases readStripeStore_describes rsu (Nat.lt_trans hk hkn) hdir with ⟨d, hread, hd⟩
    have hreceive : base = (d.receive conf.msscheduling blkInit).base := by
      rw [hdfsMetadataBase, hread] at hload
      exact (Option.some.inj hload).symm
    have hselection : Hdfs.helperBlks conf sorter base s[i] requestorIP =
        some (base.blk2Stripe.getD s[i] ∅).toList := by
      rw [Hdfs.helperBlks, if_neg haware]
    have hperm := toList_blk2Stripe_perm conf.msscheduling hi hdir.isStripes hd hs hrep
    rw [← hreceive] at hperm
    rcases requestHandler_of_helperBlks hk hkn hrsu hcontent hdir hload hs hrep hi rand hselection
      hperm (helperNames_nodup hnodup hlen hi) fun h hh => (mem_helperNames hnodup hlen hi hh).1 with
      ⟨cmds, last, hcmds, hiff⟩
    exact ⟨fun _ => Or.inl (Bool.eq_false_of_not_eq_true haware),
      fun _ => ⟨cmds, last, hcmds, hiff.2 (List.Perm.refl _)⟩⟩

/-- The small store, where a block is needed from all others. -/
theorem requestHandler_repairs_xor :
    ∃ base, hdfsMetadataBase Hdfs.rackedXorConf.toRepairConfig xorRSUtil xorDir xorInit = some base ∧
      ∃ cmds last, requestHandler Hdfs.rackedXorConf xorRSUtil bySize base unshuffled
          xorStripe[1] 1 = some (cmds, last) ∧
        Repairs Hdfs.rackedXorConf xorRSUtil base xorContent xorStripe xorIp
          xorStripe[1] cmds := by
  rcases xor_load Hdfs.rackedXorConf.toRepairConfig xorRSUtil (by decide) xorDir_isStore with
    ⟨base, hload⟩
  refine ⟨base, hload, (requestHandler_repairs_iff Hdfs.rackedXorConf xorRSUtil xorMat (by decide)
    (by decide) xorRSUtil_decodes [xorStripe] xorContent xorContent_encoded xorInit xorDir
    xorDir_isStore base hload xorStripe (List.mem_singleton_self _) xorIp xorInit_reported bySize
    unshuffled 1 (by decide) 1).2 (Or.inr ⟨⟨xorStripe.getD 0 [], by decide, by decide,
      by decide +kernel⟩, fun h _ e he hne hnot => ?_⟩)⟩
  have hall : ∀ e ∈ xorStripe, e ≠ xorStripe[1] →
      e ∈ helperNames Hdfs.rackedXorConf.toConfig xorStripe 1 := by
    decide
  exact absurd (hall e he hne) hnot

/-! ## Three copies -/

/-- The other copies of the block are the block. -/
def mirrorMat : IntArr :=
  fun _ => 1

noncomputable def mirrorRSUtil : RSUtil :=
  RSUtil.new invertByAdjugate mirrorConf.toConfig mirrorMat

theorem mirror_row {i : Nat} (hi : i < 3) :
    stackedRow mirrorConf.toConfig mirrorMat i = fun _ => 1 := by
  funext j
  have hj : (j : Nat) = 0 := Nat.lt_one_iff.1 j.isLt
  interval_cases i
  · rfl
  · rfl
  · rw [stackedRow, if_neg (by decide), if_pos (by rw [hj]; rfl)]

theorem mirrorRSUtil_decodes : mirrorRSUtil.Decodes mirrorConf.toConfig mirrorMat := by
  refine rsUtil_decodes (by decide) (fun s hlt _ => ?_) invertByAdjugate_inverts
  have hrow : ∀ t, stackedRow mirrorConf.toConfig mirrorMat (s t) = fun _ => 1 :=
    fun t => mirror_row (hlt t)
  simp only [hrow]
  have hone : LinearIndependent GF256 fun _ : Fin 1 => (fun _ => 1 : Fin 1 → GF256) :=
    linearIndependent_unique_iff.2 fun h => one_ne_zero (congrFun h 0)
  exact hone

/-- All copies hold ones. -/
def mirrorContent (_ : Str) (_ : Nat) : GF256 :=
  1

theorem mirrorContent_encoded :
    Encoded mirrorConf.toConfig mirrorMat [xorStripe] mirrorContent := by
  intro s hs
  rw [List.mem_singleton.1 hs]
  refine ⟨fun _ _ => 1, fun i hi x => ?_⟩
  have hsum : ∀ f : Fin mirrorConf.ecK → GF256, ∑ j, f j = f ⟨0, by decide⟩ :=
    fun f => Fin.sum_univ_one f
  rw [mirror_row hi, LinCode.word, hsum, one_mul]
  rfl

/-- Only the third copy is in the rack of node 9. -/
def rackedMirrorConf : RackConfig where
  toRepairConfig := { mirrorConf with
    rackInfos := (∅ : TreeMap Nat Str).insertMany [(1, ['r']), (2, ['r']), (3, ['s']), (9, ['s'])] }
  rackAware := true
  loadbalance := false

/-- Node 9 asks for the second copy; the third is read, and its coefficient is taken as zero. -/
theorem not_repairs_mirror :
    mirrorRSUtil.Decodes rackedMirrorConf.toConfig mirrorMat ∧
      Encoded rackedMirrorConf.toConfig mirrorMat [xorStripe] mirrorContent ∧
      ∃ base, hdfsMetadataBase rackedMirrorConf.toRepairConfig mirrorRSUtil xorDir xorInit =
          some base ∧
        ∃ cmds last, requestHandler rackedMirrorConf mirrorRSUtil bySize base unshuffled
            xorStripe[1] 9 = some (cmds, last) ∧
          ¬ Repairs rackedMirrorConf mirrorRSUtil base mirrorContent xorStripe xorIp
            xorStripe[1] cmds := by
  rcases xor_load rackedMirrorConf.toRepairConfig mirrorRSUtil (by decide) mirror_isStore with
    ⟨base, hload⟩
  refine ⟨mirrorRSUtil_decodes, mirrorContent_encoded, base, hload, ?_⟩
  have hs : xorStripe ∈ [xorStripe] := List.mem_singleton_self _
  have hb : xorStripe[1] ∈ xorStripe := by decide
  have hbase : base.HoldsStripe rackedMirrorConf.toConfig xorStripe xorIp :=
    hdfs_holdsStripe (by decide) (by decide) mirror_isStore hs xorInit_reported hload
  rcases requestHandler_of_rackAware (by decide) (by decide) mirrorRSUtil_decodes
    mirrorContent_encoded mirror_isStore hload hs xorInit_reported (i := 1) (by decide) bySize
    unshuffled 9 rfl ⟨xorStripe[2], by decide, by decide, by decide +kernel⟩ with
    ⟨cmds, last, hcmds, hiff⟩
  refine ⟨cmds, last, hcmds, fun hrepairs => ?_⟩
  -- the first copy would have to be taken before the third
  have hfirst := hiff.1 hrepairs xorStripe[0] (by decide) xorStripe[2] (by decide) (by decide)
    (by decide)
  rw [Hdfs.Before, if_neg (by decide), Hdfs.line, List.flatMap_cons] at hfirst
  have hrack : ∀ x ∈ xorStripe, Hdfs.rackOfBlk rackedMirrorConf base x =
      rackedMirrorConf.rackInfos.getD (xorIp x) [] := by
    intro x hx
    rw [Hdfs.rackOfBlk, Hdfs.getD_blkName2Ip hbase hx]
  have hthird : xorStripe[2] ∈ Hdfs.inRack rackedMirrorConf base xorStripe[1]
      (rackedMirrorConf.rackInfos.getD 9 []) := by
    refine List.mem_filter.2 ⟨(Hdfs.mem_survivors mirror_isStore hload hs hb).2
      ⟨by decide, by decide⟩, decide_eq_true ?_⟩
    rw [hrack xorStripe[2] (by decide)]
    decide +kernel
  have hnot : xorStripe[0] ∉ Hdfs.inRack rackedMirrorConf base xorStripe[1]
      (rackedMirrorConf.rackInfos.getD 9 []) := by
    intro hin
    have heq := of_decide_eq_true (List.mem_filter.1 hin).2
    rw [hrack xorStripe[0] (by decide)] at heq
    exact absurd heq (by decide +kernel)
  rw [List.idxOf_append_of_mem hthird, List.idxOf_append_of_notMem hnot] at hfirst
  exact absurd (hfirst.trans (List.idxOf_lt_length_iff.2 hthird))
    (Nat.not_lt.2 (Nat.le_add_right _ _))

end PPR

end CoRD
