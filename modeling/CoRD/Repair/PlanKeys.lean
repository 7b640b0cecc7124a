import CoRD.Repair.Plan

/-!
# PlanKeys — the nodes that a plan is keyed by

`HDFS_MetadataBase` keys the requested block by the requestor and the other lost blocks by their
own nodes, `HDFS3_MetadataBase` keys all of them by their nodes.
-/

namespace CoRD

open Std

/-! ## Keys of a plan -/

/-- Just one entry for each lost block, and one for the requestor that repairs the requested
block. -/
structure PlanKeys (lost : List Str) (blkName : Str) (requestorIP : Nat) (plan : Plan) : Prop where
  entry : ∀ c ∈ lost, ∃! a : Nat, ∃ vec : List (Nat × Str), plan[a]? = some (c, vec)
  lost : ∀ (a : Nat) (e : Str × List (Nat × Str)), plan[a]? = some e → e.1 ∈ lost
  requested : ∃ vec : List (Nat × Str), plan[requestorIP]? = some (blkName, vec)

/-- Enough blocks survive on other nodes than that of the requestor. -/
def EnoughHelpers (k : Nat) (s lost : List Str) (ip : Str → Nat) (requestorIP : Nat) : Prop :=
  k ≤ (s.filter fun b => b ∉ lost ∧ ip b ≠ requestorIP).length

section Keys

variable {conf : RepairConfig} {base : MetadataBase} {s lost : List Str} {ip : Str → Nat}
  {status : Status} {blkName : Str} {requestorIP : Nat}
theorem reverse_perm (all : BlkSet) :
    ((allStripeBlksReverse all).toList.map Prod.swap).Perm all.toList := by
  have hrev : (allStripeBlksReverse all).toList.Perm (all.toList.map Prod.swap) :=
    Tree.toList_addAll_empty ((Tree.set_toList_nodup all).map Prod.swap_injective)
  refine (hrev.map Prod.swap).trans (List.Perm.of_eq ?_)
  rw [List.map_map]
  simp

/-- The loop fills the set if enough blocks pass. -/
theorem size_addUpTo (ok : Nat × Str → Bool) {l : List (Nat × Str)}
    (hbase : base.HoldsStripe conf.toConfig s ip) (hb : blkName ∈ s) (hl : l.Perm
      (base.stripeBlks blkName).toList)
    (hok : ∀ b ∈ s, b ∉ lost → ip b ≠ requestorIP → ok (ip b, b) = true) :
    EnoughHelpers conf.ecK s lost ip requestorIP →
      ¬ (Tree.addUpTo conf.ecK ok l (∅ : BlkSet)).size < conf.ecK := by
  intro henough
  have hnodup : l.Nodup := hl.nodup_iff.2 (Tree.set_toList_nodup _)
  have hcount : (s.filter fun b => b ∉ lost ∧ ip b ≠ requestorIP).length ≤
      (l.filter ok).length := by
    rw [((hl.trans (stripeBlks_perm hbase hb)).filter ok).length_eq, List.filter_map,
      List.length_map, ← List.countP_eq_length_filter, ← List.countP_eq_length_filter]
    refine List.countP_mono_left fun b hbs hp => ?_
    simp only [decide_eq_true_eq] at hp
    exact hok b hbs hp.1 hp.2
  have hperm : (Tree.addUpTo conf.ecK ok l (∅ : BlkSet)).toList.Perm
      ((l.filter ok).take conf.ecK) := Tree.toList_addUpTo_empty hnodup
  rw [← TreeSet.length_toList, hperm.length_eq, List.length_take]
  have hle := Nat.le_trans henough hcount
  omega

/-- A stripe that is held passes the checks of the name. -/
theorem MetadataBase.HoldsStripe.known (hbase : base.HoldsStripe conf.toConfig s ip) (hb : blkName ∈ s) :
    blkName ∈ base.blkName2StripeId ∧ blkName ∈ base.blk2Stripe ∧
      base.blkName2StripeId.getD blkName 0 < base.ip2BlkNames.length := by
  obtain ⟨id, hid, hids, _⟩ := hbase.stripe
  refine ⟨?_, hbase.served blkName hb, ?_⟩
  · rw [TreeMap.mem_iff_isSome_getElem?, hids blkName hb]
    rfl
  · rw [TreeMap.getD_eq_getD_getElem?, hids blkName hb]
    exact hid

theorem hdfs_getStripeBlksMul_returns (requestorIP : Nat) (hbase : base.HoldsStripe conf.toConfig s ip)
    (hstatus : IsStatus status s lost) (hb : blkName ∈ lost) (hsched : conf.msscheduling = false) :
    EnoughHelpers conf.ecK s lost ip requestorIP →
      ∃ plan, Hdfs.getStripeBlksMul conf base blkName requestorIP status = some (plan, base) := by
  intro henough
  have hbs := hstatus.subset _ hb
  obtain ⟨hname, _, hid⟩ := hbase.known hbs
  have hstat : ∀ b ∈ s, b ∉ lost → status.getD b 0 ≠ 0 := fun b hb hl =>
    (hstatus.getD_ne_zero_iff hb).2 hl
  rw [Hdfs.getStripeBlksMul, if_pos ⟨hname, hid⟩, Hdfs.selectHelpers, hsched]
  simp only [Bool.false_eq_true, if_false]
  by_cases hsingle : (status.toList.filter fun it => it.2 = 0).length = 1
  · have hsize := size_addUpTo (fun it => status.getD it.2 0 ≠ 0) hbase hbs
      (reverse_perm _) (fun b hb hl _ => decide_eq_true (hstat b hb hl)) henough
    rw [if_pos hsingle]
    simp only
    rw [if_neg hsize]
    exact ⟨_, rfl⟩
  · have hsize := size_addUpTo
      (fun it => it.1 ≠ requestorIP ∧ status.getD it.2 0 ≠ 0) hbase hbs
      (List.Perm.refl _) (fun b hb hl hne => decide_eq_true ⟨hne, hstat b hb hl⟩) henough
    rw [if_neg hsingle]
    simp only
    rw [if_neg hsize]
    exact ⟨_, rfl⟩

/-- The entry for a block is under its node. -/
theorem planLost_toList_perm {vec : List (Nat × Str)}
    (hbase : base.HoldsStripe conf.toConfig s ip) (hstatus : IsStatus status s lost) :
    (planLost base status vec (fun _ => true) ∅).toList.Perm
      (lost.map fun b => (ip b, (b, vec))) := by
  refine Tree.toList_perm_of_getElem? ?_ fun a e => ?_
  · exact hstatus.nodup.map fun b c heq => congrArg (fun p => p.2.1) heq
  · rw [getElem?_planLost hbase hstatus, List.mem_map]
    constructor
    · rintro (⟨b, hb, _, rfl, rfl⟩ | ⟨_, hnone⟩)
      · exact ⟨b, hb, rfl⟩
      · simp at hnone
    · rintro ⟨b, hb, heq⟩
      obtain ⟨rfl, rfl⟩ := Prod.ext_iff.1 heq
      exact Or.inl ⟨b, hb, rfl, rfl, rfl⟩

theorem hdfs3_getStripeBlksMul_returns (requestorIP : Nat) (hbase : base.HoldsStripe conf.toConfig s ip)
    (hstatus : IsStatus status s lost) (hb : blkName ∈ lost) :
    EnoughHelpers conf.ecK s lost ip requestorIP →
      ∃ vec, Hdfs3.getStripeBlksMul conf base blkName requestorIP status =
        some (planLost base status vec (fun _ => true) ∅) := by
  intro henough
  have hbs := hstatus.subset _ hb
  obtain ⟨_, hserved, hid⟩ := hbase.known hbs
  have hsize := size_addUpTo
    (fun it => it.1 ≠ requestorIP ∧ status.getD it.2 0 ≠ 0) hbase hbs
    (List.Perm.refl _)
    (fun b hb hl hne => decide_eq_true ⟨hne, (hstatus.getD_ne_zero_iff hb).2 hl⟩) henough
  refine ⟨(Hdfs3.setVal conf base blkName requestorIP status).toList, ?_⟩
  rw [Hdfs3.getStripeBlksMul, if_pos ⟨hserved, hid⟩]
  simp only
  rw [if_neg hsize, if_neg]
  · rfl
  · rw [not_not, hstatus.failed_perm.length_eq, List.length_map, ← TreeMap.length_toList,
      (planLost_toList_perm hbase hstatus).length_eq, List.length_map]

/-- The keys of `HDFS_MetadataBase` collide when the requestor is the node of another lost
block. -/
theorem hdfs_planKeys_iff (requestorIP : Nat) (vec : List (Nat × Str)) (hbase : base.HoldsStripe conf.toConfig s ip)
    (hstatus : IsStatus status s lost) (hb : blkName ∈ lost) :
    PlanKeys lost blkName requestorIP (planLost base status vec (· ≠ blkName)
        ((∅ : Plan).insert requestorIP (blkName, vec))) ↔
      ∀ c ∈ lost, c ≠ blkName → ip c ≠ requestorIP := by
  have hget : ∀ (a : Nat) (e : Str × List (Nat × Str)),
      (planLost base status vec (· ≠ blkName)
        ((∅ : Plan).insert requestorIP (blkName, vec)))[a]? = some e ↔
      (∃ c ∈ lost, c ≠ blkName ∧ a = ip c ∧ e = (c, vec)) ∨
      (∀ c ∈ lost, c ≠ blkName → a ≠ ip c) ∧ a = requestorIP ∧ e = (blkName, vec) := by
    intro a e
    rw [getElem?_planLost hbase hstatus]
    simp only [decide_eq_true_eq]
    refine or_congr_right (and_congr_right fun _ => ?_)
    rw [TreeMap.getElem?_insert]
    by_cases ha : requestorIP = a
    · rw [if_pos (LawfulEqCmp.compare_eq_iff_eq.2 ha)]
      simp [ha, eq_comm]
    · rw [if_neg fun hc => ha (LawfulEqCmp.compare_eq_iff_eq.1 hc)]
      simp [Ne.symm ha]
  constructor
  · intro h c hc hne hip
    -- the entry under the requestor is that of the other block
    obtain ⟨vec', hreq⟩ := h.requested
    rcases (hget _ _).1 hreq with ⟨c', _, hne', _, heq⟩ | ⟨hfree, _, _⟩
    · exact hne' (congrArg Prod.fst heq).symm
    · exact hfree c hc hne hip.symm
  · intro h
    constructor
    · intro c hc
      by_cases hcb : c = blkName
      · subst hcb
        refine ⟨requestorIP, ⟨vec, (hget _ _).2 (Or.inr
          ⟨fun d hd hne => (h d hd hne).symm, rfl, rfl⟩)⟩, ?_⟩
        rintro a ⟨vec', ha⟩
        rcases (hget _ _).1 ha with ⟨d, _, hne, _, heq⟩ | ⟨_, hreq, _⟩
        · exact absurd (congrArg Prod.fst heq).symm hne
        · exact hreq
      · refine ⟨ip c, ⟨vec, (hget _ _).2 (Or.inl ⟨c, hc, hcb, rfl, rfl⟩)⟩, ?_⟩
        rintro a ⟨vec', ha⟩
        rcases (hget _ _).1 ha with ⟨d, _, _, had, heq⟩ | ⟨_, _, heq⟩
        · cases heq
          exact had
        · exact absurd (congrArg Prod.fst heq) hcb
    · intro a e he
      rcases (hget _ _).1 he with ⟨c, hc, _, _, rfl⟩ | ⟨_, _, rfl⟩
      · exact hc
      · exact hb
    · exact ⟨vec, (hget _ _).2 (Or.inr ⟨fun d hd hne => (h d hd hne).symm, rfl, rfl⟩)⟩

/-- The keys of `HDFS3_MetadataBase` are the nodes of the lost blocks, so the requestor has to be
that of the requested block. -/
theorem hdfs3_planKeys_iff (requestorIP : Nat) (vec : List (Nat × Str)) (hbase : base.HoldsStripe conf.toConfig s ip)
    (hstatus : IsStatus status s lost) (hb : blkName ∈ lost) :
    PlanKeys lost blkName requestorIP (planLost base status vec (fun _ => true) ∅) ↔
      requestorIP = ip blkName := by
  have hget : ∀ (a : Nat) (e : Str × List (Nat × Str)),
      (planLost base status vec (fun _ => true) ∅)[a]? = some e ↔
      ∃ c ∈ lost, a = ip c ∧ e = (c, vec) := by
    intro a e
    rw [getElem?_planLost hbase hstatus]
    simp
  constructor
  · intro h
    obtain ⟨vec', hreq⟩ := h.requested
    obtain ⟨c, _, hac, heq⟩ := (hget _ _).1 hreq
    cases heq
    exact hac
  · intro h
    constructor
    · intro c hc
      refine ⟨ip c, ⟨vec, (hget _ _).2 ⟨c, hc, rfl, rfl⟩⟩, ?_⟩
      rintro a ⟨vec', ha⟩
      obtain ⟨d, _, had, heq⟩ := (hget _ _).1 ha
      cases heq
      exact had
    · intro a e he
      obtain ⟨c, hc, _, rfl⟩ := (hget _ _).1 he
      exact hc
    · exact ⟨vec, (hget _ _).2 ⟨blkName, hb, h, rfl⟩⟩

end Keys

/-- With enough helpers, the plan has the keys its readers look for just when the requestor is not
the node of another lost block, for `HDFS_MetadataBase`, and just when it is the node of the
requested block, for `HDFS3_MetadataBase`. -/
theorem getStripeBlksMul_keys_iff (conf : RepairConfig) (rsu : RSUtil) (hk : 1 ≤ conf.ecK)
    (hkn : conf.ecK < conf.ecN) (stripes : List (List Str)) (blkInit : List (Nat × Str))
    (s : List Str) (hs : s ∈ stripes) (ip : Str → Nat) (hrep : Reported blkInit s ip)
    (lost : List Str) (status : Status) (hstatus : IsStatus status s lost) (blkName : Str)
    (hb : blkName ∈ lost) (requestorIP : Nat) (order : TreeMap Nat Nat)
    (henough : EnoughHelpers conf.ecK s lost ip requestorIP) :
    (∀ dir base, IsStore conf.toConfig stripes dir →
      hdfsMetadataBase conf rsu dir blkInit = some base →
      (conf.msscheduling = false → ∃ r,
        Hdfs.getStripeBlksMul conf { base with order := order } blkName requestorIP status =
          some r) ∧
      ∀ plan base',
        Hdfs.getStripeBlksMul conf { base with order := order } blkName requestorIP status =
          some (plan, base') →
        (PlanKeys lost blkName requestorIP plan ↔
          ∀ c ∈ lost, c ≠ blkName → ip c ≠ requestorIP)) ∧
    (∀ cmdResult base, IsFsck conf.toConfig stripes cmdResult →
      hdfs3MetadataBase conf rsu cmdResult blkInit = some base →
      ∃ plan,
        Hdfs3.getStripeBlksMul conf { base with order := order } blkName requestorIP status =
          some plan ∧
        (PlanKeys lost blkName requestorIP plan ↔ requestorIP = ip blkName)) := by
  constructor
  · intro dir base hdir hload
    have hbase := (hdfs_holdsStripe hk hkn hdir hs hrep hload).withOrder order
    refine ⟨fun hsched => ?_, fun plan base' hplan => ?_⟩
    · obtain ⟨plan, hplan⟩ :=
        hdfs_getStripeBlksMul_returns requestorIP hbase hstatus hb hsched henough
      exact ⟨_, hplan⟩
    · obtain ⟨setVal, _, _, hbase', rfl⟩ := hdfs_getStripeBlksMul_cases hbase hstatus hb hplan
      exact hdfs_planKeys_iff requestorIP setVal.toList hbase' hstatus hb
  · intro cmdResult base hfsck hload
    have hbase := (hdfs3_holdsStripe hk hkn hfsck hs hrep hload).withOrder order
    obtain ⟨vec, hplan⟩ := hdfs3_getStripeBlksMul_returns requestorIP hbase hstatus hb henough
    exact ⟨_, hplan, hdfs3_planKeys_iff requestorIP vec hbase hstatus hb⟩

theorem getStripeBlksMul_keys_iff_xor :
    ∃ base plan, hdfsMetadataBase xorRepairConf xorRSUtil xorDir xorInit = some base ∧
      Hdfs.getStripeBlksMul xorRepairConf base xorLost (xorIp xorLost)
        (requestStatus (base.stripeBlks xorLost) [xorLost]) = some (plan, base) ∧
      PlanKeys [xorLost] xorLost (xorIp xorLost) plan := by
  have hb : xorLost ∈ [xorLost] := by simp
  have henough : EnoughHelpers xorRepairConf.ecK xorStripe [xorLost] xorIp (xorIp xorLost) := by
    unfold EnoughHelpers
    decide
  obtain ⟨base, hload⟩ := xor_load xorRepairConf xorRSUtil (by decide) xorDir_isStore
  have hbase := hdfs_holdsStripe (by decide) (by decide) xorDir_isStore (by simp) xorInit_reported
    hload
  have hstatus : IsStatus (requestStatus (base.stripeBlks xorLost) [xorLost]) xorStripe
      [xorLost] := requestStatus_isStatus xorLost hbase (by decide) (by decide) (by decide)
  obtain ⟨plan, hplan⟩ := hdfs_getStripeBlksMul_returns (xorIp xorLost) hbase hstatus hb rfl
    henough
  have hkeys := (((getStripeBlksMul_keys_iff xorRepairConf xorRSUtil (by decide) (by decide)
    [xorStripe] xorInit xorStripe (by simp) xorIp xorInit_reported [xorLost] _ hstatus xorLost hb
    (xorIp xorLost) base.order henough).1 xorDir base xorDir_isStore hload).2 plan base hplan).2
    (by decide)
  exact ⟨base, plan, hload, hplan, hkeys⟩

/-- Two copies are lost, and the node of the second asks for the first: its entry is that of its
own block. -/
theorem planKeys_collision :
    ∃ base plan, hdfsMetadataBase mirrorConf xorRSUtil xorDir xorInit = some base ∧
      Hdfs.getStripeBlksMul mirrorConf base xorLost (xorIp (xorStripe.getD 2 []))
        (requestStatus (base.stripeBlks xorLost) [xorLost, xorStripe.getD 2 []]) =
          some (plan, base) ∧
      ¬ PlanKeys [xorLost, xorStripe.getD 2 []] xorLost (xorIp (xorStripe.getD 2 [])) plan := by
  have hb : xorLost ∈ [xorLost, xorStripe.getD 2 []] := by simp
  obtain ⟨base, hload⟩ := xor_load mirrorConf xorRSUtil (by decide) mirror_isStore
  have hbase := hdfs_holdsStripe (by decide) (by decide) mirror_isStore (by simp)
    xorInit_reported hload
  have hstatus : IsStatus (requestStatus (base.stripeBlks xorLost) [xorLost, xorStripe.getD 2 []])
      xorStripe [xorLost, xorStripe.getD 2 []] :=
    requestStatus_isStatus xorLost hbase (by decide) (by decide) (by decide)
  obtain ⟨plan, hplan⟩ := hdfs_getStripeBlksMul_returns (xorIp (xorStripe.getD 2 [])) hbase hstatus
    hb rfl (by unfold EnoughHelpers; decide)
  refine ⟨base, plan, hload, hplan, ?_⟩
  obtain ⟨setVal, _, _, _, rfl⟩ := hdfs_getStripeBlksMul_cases hbase hstatus hb hplan
  intro hkeys
  have hfree := (hdfs_planKeys_iff _ setVal.toList hbase hstatus hb).1 hkeys
  exact hfree (xorStripe.getD 2 []) (by simp) (by decide) rfl

end CoRD
