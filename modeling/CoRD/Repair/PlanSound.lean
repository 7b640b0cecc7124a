import CoRD.Repair.PlanKeys

/-!
# PlanSound — the helpers of a plan decode its lost blocks

The coordinator marks the helpers of an entry in the status before it asks for the coefficients of
the lost block.  With any `ecK` survivors marked these decode the block.
-/

namespace CoRD

open Std

/-! ## Coefficients of selected helpers -/

section Coefficients

variable {conf : Config} {rsu : RSUtil} {encMat : IntArr} {base : MetadataBase} {s : List Str}
  {ip : Str → Nat} {status : Status}

/-- The rows that the status selects. -/
theorem foldl_intStatus_ne_zero (row : Str → Nat) (l : List (Str × Int)) (a : Nat → Int) (j : Nat) :
    l.foldl (fun a it => if it.2 = 2 then Function.update a (row it.1) 1 else a) a j ≠ 0 ↔
      (∃ p ∈ l, p.2 = 2 ∧ row p.1 = j) ∨ a j ≠ 0 := by
  induction l generalizing a with
  | nil =>
      simp
  | cons p l ih =>
      rw [List.foldl_cons, ih]
      simp only [List.mem_cons, exists_eq_or_imp]
      by_cases hp : p.2 = 2
      · by_cases hj : row p.1 = j
        · subst hj
          simp [hp]
        · simp [hp, hj, Function.update_of_ne (Ne.symm hj)]
      · simp [hp]

/-- The loop that names the coefficients. -/
theorem foldl_coefs (coefs : IntArr) (name : Nat → Str) (p : Nat → Bool) (l : List Nat) :
    l.foldl
      (fun (st : TreeMap Str GF256 × Nat) i =>
        if p i then (st.1.insert (name i) (coefs st.2), st.2 + 1) else st) (∅, 0) =
      (Tree.writeAll (coefficientPairs coefs ((l.filter p).map name)) ∅, (l.filter p).length) := by
  induction l using List.reverseRecOn with
  | nil =>
      rfl
  | append_singleton l i ih =>
      rw [List.foldl_append, ih, List.foldl_cons, List.foldl_nil, List.filter_append]
      by_cases hi : p i = true
      · simp [hi, coefficientPairs, List.zipIdx_append, Tree.writeAll]
      · simp [hi]

/-- `intStatus` of `getCoefficient`: the rows of the blocks with the status 2. -/
def rowStatus (base : MetadataBase) (status : Status) : Nat → Int :=
  status.toList.foldl
    (fun a it => if it.2 = 2 then Function.update a (base.blkIdInStripe.getD it.1 0) 1 else a)
    fun _ => 0

theorem blkIdInStripe_getD (hbase : base.HoldsStripe conf s ip) {j : Nat} (hj : j < s.length) :
    base.blkIdInStripe.getD s[j] 0 = j := by
  rw [TreeMap.getD_eq_getD_getElem?, hbase.row j hj]
  rfl

/-- A row is selected if its block is. -/
theorem rowStatus_ne_zero_iff (hbase : base.HoldsStripe conf s ip)
    (hkeys : ∀ b (v : Int), status[b]? = some v → b ∈ s) {j : Nat} (hj : j < s.length) :
    rowStatus base status j ≠ 0 ↔ status[s[j]]? = some 2 := by
  have hfold := foldl_intStatus_ne_zero (fun b => base.blkIdInStripe.getD b 0)
    status.toList (fun _ => 0) j
  refine hfold.trans ?_
  constructor
  · rintro (⟨p, hp, htwo, hpj⟩ | hzero)
    · have hget : status[p.1]? = some p.2 := TreeMap.mem_toList_iff_getElem?_eq_some.1 hp
      obtain ⟨l, hl, heq⟩ := List.mem_iff_getElem.1 (hkeys _ _ hget)
      have hlj : l = j := by rw [← blkIdInStripe_getD hbase hl, heq, hpj]
      subst hlj
      rw [heq, hget, htwo]
    · exact absurd rfl hzero
  · intro hget
    exact Or.inl ⟨(s[j], 2), TreeMap.mem_toList_iff_getElem?_eq_some.2 hget, rfl,
      blkIdInStripe_getD hbase hj⟩

/-- The names of the selected rows are the helpers, in the order of the rows. -/
theorem selected_rowStatus (hbase : base.HoldsStripe conf s ip)
    (hkeys : ∀ b (v : Int), status[b]? = some v → b ∈ s) {helpers : List Str}
    (hselected : ∀ b ∈ s, status[b]? = some 2 ↔ b ∈ helpers) :
    (selected conf (rowStatus base status)).map (fun j => s.getD j []) =
      s.filter (· ∈ helpers) := by
  have hfilter : selected conf (rowStatus base status) =
      (List.range s.length).filter fun j => s.getD j [] ∈ helpers := by
    rw [selected, hbase.length]
    refine List.filter_congr fun j hj => ?_
    have hjlt : j < s.length := hbase.length.symm ▸ List.mem_range.1 hj
    rw [List.getD_eq_getElem _ _ hjlt]
    exact decide_eq_decide.2 ((rowStatus_ne_zero_iff hbase hkeys hjlt).trans
      (hselected _ (List.getElem_mem hjlt)))
  conv_rhs => rw [← map_getD_range s]
  rw [hfilter, List.filter_map]
  rfl

/-- What is written if the coefficients of the selected rows are found. -/
theorem getCoefficient_eq_writeAll {i : Nat} {hi : i < s.length} {c : IntArr}
    (hbase : base.HoldsStripe conf s ip)
    (hc : rsu.getCoefficientMulti i (rowStatus base status) = some c) :
    base.getCoefficient conf rsu s[i] (some status) =
      Tree.writeAll (coefficientPairs c
        ((selected conf (rowStatus base status)).map fun j => s.getD j [])) ∅ := by
  obtain ⟨id, _, hids, hnames, _⟩ := hbase.stripe
  have hid : base.blkName2StripeId.getD s[i] 0 = id := by
    rw [TreeMap.getD_eq_getD_getElem?, hids _ (List.getElem_mem hi)]
    rfl
  have hunfold : base.getCoefficient conf rsu s[i] (some status) =
      ((List.range conf.ecN).foldl
        (fun (st : TreeMap Str GF256 × Nat) j =>
          if rowStatus base status j ≠ 0 then
            (st.1.insert ((base.id2BlkNames.getD id ∅).getD j []) (c st.2), st.2 + 1)
          else st) (∅, 0)).1 := by
    unfold rowStatus at hc ⊢
    rw [MetadataBase.getCoefficient]
    simp only [hid, blkIdInStripe_getD hbase hi]
    rw [hc]
  have hrename : (selected conf (rowStatus base status)).map
      (fun j => (base.id2BlkNames.getD id ∅).getD j []) =
      (selected conf (rowStatus base status)).map fun j => s.getD j [] := by
    refine List.map_congr_left fun j hj => ?_
    have hjlt : j < s.length := hbase.length.symm ▸ selected_lt conf hj
    rw [TreeMap.getD_eq_getD_getElem?, hnames j hjlt, List.getD_eq_getElem _ _ hjlt]
    rfl
  have hloop := foldl_coefs c (fun j => (base.id2BlkNames.getD id ∅).getD j [])
    (fun j => decide (rowStatus base status j ≠ 0)) (List.range conf.ecN)
  simp only [decide_eq_true_eq] at hloop
  rw [hunfold, hloop, ← hrename]
  rfl

/-- With `ecK` helpers selected, none of them lost block `i`, the coefficients decode it. -/
theorem getCoefficient_selected {content : Str → Nat → GF256} {helpers : List Str} {i : Nat}
    {hi : i < s.length} (hbase : base.HoldsStripe conf s ip) (hrsu : rsu.Decodes conf encMat)
    (hcontent : Encoded conf encMat [s] content)
    (hkeys : ∀ b (v : Int), status[b]? = some v → b ∈ s)
    (hselected : ∀ b ∈ s, status[b]? = some 2 ↔ b ∈ helpers)
    (hsub : ∀ b ∈ helpers, b ∈ s) (hnodup : helpers.Nodup)
    (hcount : helpers.length = conf.ecK) (hnot : s[i] ∉ helpers) :
    (base.getCoefficient conf rsu s[i] (some status)).keys.Perm helpers ∧
    ∀ x, combined content (base.getCoefficient conf rsu s[i] (some status)) x =
      content s[i] x := by
  have hsel := selected_rowStatus hbase hkeys hselected
  have hperm : (s.filter (· ∈ helpers)).Perm helpers := by
    refine (List.perm_ext_iff_of_nodup (hbase.nodup.filter _) hnodup).2 fun b => ?_
    rw [List.mem_filter, decide_eq_true_eq]
    exact ⟨fun h => h.2, fun h => ⟨hsub b h, h⟩⟩
  have hsellen : (selected conf (rowStatus base status)).length = conf.ecK := by
    calc
      (selected conf (rowStatus base status)).length
        = ((selected conf (rowStatus base status)).map fun j => s.getD j []).length :=
          (List.length_map _).symm
      _ = conf.ecK := by rw [hsel, hperm.length_eq, hcount]
  -- the selected rows give coefficients
  have hidx : i < conf.ecN := hbase.length ▸ hi
  have hzero : ¬ rowStatus base status i ≠ 0 := fun h =>
    hnot ((hselected _ (List.getElem_mem hi)).1 ((rowStatus_ne_zero_iff hbase hkeys hi).1 h))
  obtain ⟨c, hc⟩ := Option.ne_none_iff_exists'.1
    (mt (hrsu.multi_eq_none_iff i hidx _).1 (not_or.2 ⟨hzero, not_not.2 hsellen⟩))
  have hpairs : ((coefficientPairs c (s.filter (· ∈ helpers))).map Prod.fst).Nodup := by
    rw [coefficientPairs_map_fst]
    exact hbase.nodup.filter _
  have hlist : (base.getCoefficient conf rsu s[i] (some status)).toList.Perm
      (coefficientPairs c (s.filter (· ∈ helpers))) := by
    rw [getCoefficient_eq_writeAll hbase hc, hsel]
    exact Tree.toList_writeAll_empty hpairs
  constructor
  · have hkeysPerm := hlist.map Prod.fst
    rw [TreeMap.map_fst_toList_eq_keys, coefficientPairs_map_fst] at hkeysPerm
    exact hkeysPerm.trans hperm
  · intro x
    obtain ⟨w, hw⟩ := hcontent s (by simp)
    rw [combined_eq_sum x hlist, ← hsel]
    exact sum_content (f := fun b => content b x) (fun j hj => hw j hj x)
      (fun j hj => hbase.length.symm ▸ selected_lt conf hj) (hrsu.multi i hidx _ c hc)

end Coefficients

/-! ## Plans decode -/

/-- All entries name the same `ecK` survivors, and once these are marked the coefficients of each
lost block of the plan decode it. -/
def PlanSound (conf : RepairConfig) (rsu : RSUtil) (base : MetadataBase)
    (content : Str → Nat → GF256) (s lost : List Str) (ip : Str → Nat) (status : Status)
    (plan : Plan) : Prop :=
  ∃ vec : List (Nat × Str), vec.length = conf.ecK ∧ (vec.map Prod.fst).Nodup ∧
    (vec.map Prod.snd).Nodup ∧ (∀ p ∈ vec, p.2 ∈ s ∧ p.2 ∉ lost ∧ p.1 = ip p.2) ∧
    ∀ (a : Nat) (e : Str × List (Nat × Str)), plan[a]? = some e → e.2 = vec ∧ e.1 ∈ lost ∧
      (base.getCoefficient conf.toConfig rsu e.1 (some (markHelpers status vec))).keys.Perm
        (vec.map Prod.snd) ∧
      ∀ x, combined content
        (base.getCoefficient conf.toConfig rsu e.1 (some (markHelpers status vec))) x =
          content e.1 x

section Sound

variable {conf : RepairConfig} {rsu : RSUtil} {encMat : IntArr} {base : MetadataBase}
  {content : Str → Nat → GF256} {s lost : List Str} {ip : Str → Nat} {status : Status}
  {blkName : Str} {requestorIP : Nat}
theorem getElem?_markHelpers {stripe : List (Nat × Str)} {b : Str} :
    (markHelpers status stripe)[b]? =
      if b ∈ stripe.map Prod.snd then some 2
      else status[b]?.map fun v => if v ≠ 0 then 1 else v := by
  have hfold : ∀ (m : Status), (stripe.foldl (fun m it => m.insert it.2 2) m)[b]? =
      if b ∈ stripe.map Prod.snd then some 2 else m[b]? := by
    induction stripe with
    | nil =>
        intro m
        simp
    | cons p stripe ih =>
        intro m
        rw [List.foldl_cons, ih, TreeMap.getElem?_insert, List.map_cons]
        by_cases hin : b ∈ stripe.map Prod.snd
        · rw [if_pos hin, if_pos (List.mem_cons_of_mem _ hin)]
        · by_cases hp : b = p.2
          · subst hp
            rw [if_neg hin, if_pos (LawfulEqCmp.compare_eq_iff_eq.2 rfl), if_pos (by simp)]
          · rw [if_neg hin, if_neg fun hc => hp (LawfulEqCmp.compare_eq_iff_eq.1 hc).symm,
              if_neg fun hc => (List.mem_cons.1 hc).elim hp hin]
  rw [markHelpers, hfold, TreeMap.getElem?_map]

theorem planSound_of_areHelpers {setVal : BlkSet} {plan : Plan}
    (hbase : base.HoldsStripe conf.toConfig s ip) (hrsu : rsu.Decodes conf.toConfig encMat)
    (hcontent : Encoded conf.toConfig encMat [s] content) (hstatus : IsStatus status s lost)
    (hset : AreHelpers s lost ip conf.ecK setVal) (hsize : ¬ setVal.size < conf.ecK) :
    (∀ (a : Nat) (e : Str × List (Nat × Str)), plan[a]? = some e → e.2 = setVal.toList ∧ e.1 ∈ lost) →
      PlanSound conf rsu base content s lost ip status plan := by
  intro hentries
  have hmem : ∀ p ∈ setVal.toList, p.2 ∈ s ∧ p.2 ∉ lost ∧ p.1 = ip p.2 :=
    fun p hp => hset.mem p (TreeSet.mem_toList.1 hp)
  obtain ⟨hlen, hnodes, hnames⟩ := hset.vec hbase hsize
  refine ⟨setVal.toList, hlen, hnodes, hnames, hmem, fun a e he => ?_⟩
  obtain ⟨hvec, hlost⟩ := hentries a e he
  refine ⟨hvec, hlost, ?_⟩
  have hhelper : ∀ b, b ∈ setVal.toList.map Prod.snd → b ∈ s ∧ b ∉ lost := by
    intro b hb
    obtain ⟨p, hp, rfl⟩ := List.mem_map.1 hb
    exact ⟨(hmem p hp).1, (hmem p hp).2.1⟩
  obtain ⟨i, hi, heq⟩ := List.mem_iff_getElem.1 (hstatus.subset _ hlost)
  rw [← heq]
  apply getCoefficient_selected hbase hrsu hcontent
  · intro b v hget
    rw [getElem?_markHelpers] at hget
    by_cases hin : b ∈ setVal.toList.map Prod.snd
    · exact (hhelper b hin).1
    · rw [if_neg hin, hstatus.get] at hget
      by_contra hs
      rw [if_neg hs] at hget
      cases hget
  · intro b hb
    rw [getElem?_markHelpers]
    by_cases hin : b ∈ setVal.toList.map Prod.snd
    · simp only [hin, if_true]
    · simp only [hin, if_false, iff_false]
      rw [hstatus.get, if_pos hb]
      by_cases hl : b ∈ lost <;> simp [hl]
  · exact fun b hb => (hhelper b hb).1
  · exact hnames
  · rw [List.length_map, hlen]
  · intro hin
    rw [heq] at hin
    exact (hhelper _ hin).2 hlost

theorem hdfs_planSound {plan : Plan} {base' : MetadataBase}
    (hbase : base.HoldsStripe conf.toConfig s ip) (hrsu : rsu.Decodes conf.toConfig encMat)
    (hcontent : Encoded conf.toConfig encMat [s] content) (hstatus : IsStatus status s lost)
    (hb : blkName ∈ lost) :
    Hdfs.getStripeBlksMul conf base blkName requestorIP status = some (plan, base') →
      PlanSound conf rsu base' content s lost ip status plan := by
  intro h
  obtain ⟨setVal, hset, hsize, hbase', rfl⟩ := hdfs_getStripeBlksMul_cases hbase hstatus hb h
  exact planSound_of_areHelpers hbase' hrsu hcontent hstatus hset hsize
    fun a e he => hdfs_plan_entry hbase' hstatus hb he

theorem hdfs3_planSound {plan : Plan} (hbase : base.HoldsStripe conf.toConfig s ip)
    (hrsu : rsu.Decodes conf.toConfig encMat) (hcontent : Encoded conf.toConfig encMat [s] content)
    (hstatus : IsStatus status s lost) (hb : blkName ∈ lost) (hne : plan.isEmpty = false) :
    Hdfs3.getStripeBlksMul conf base blkName requestorIP status = some plan →
      PlanSound conf rsu base content s lost ip status plan := by
  intro h
  obtain ⟨setVal, hset, hsize, rfl⟩ := hdfs3_getStripeBlksMul_cases hbase hstatus hb hne h
  exact planSound_of_areHelpers hbase hrsu hcontent hstatus hset hsize
    fun a e he => hdfs3_plan_entry hbase hstatus he

end Sound

/-- Whatever a metadata base plans, from whichever description and in whichever state of its
scheduler, decodes all lost blocks of the plan. -/
theorem getStripeBlksMul_sound (conf : RepairConfig) (rsu : RSUtil) (encMat : IntArr)
    (hk : 1 ≤ conf.ecK) (hkn : conf.ecK < conf.ecN) (hrsu : rsu.Decodes conf.toConfig encMat)
    (stripes : List (List Str)) (content : Str → Nat → GF256)
    (hcontent : Encoded conf.toConfig encMat stripes content) (blkInit : List (Nat × Str))
    (s : List Str) (hs : s ∈ stripes) (ip : Str → Nat) (hrep : Reported blkInit s ip)
    (lost : List Str) (status : Status) (hstatus : IsStatus status s lost) (blkName : Str)
    (hb : blkName ∈ lost) (requestorIP : Nat) (order : TreeMap Nat Nat) (plan : Plan)
    (hne : plan.isEmpty = false) :
    (∀ dir base base', IsStore conf.toConfig stripes dir →
      hdfsMetadataBase conf rsu dir blkInit = some base →
      Hdfs.getStripeBlksMul conf { base with order := order } blkName requestorIP status =
        some (plan, base') →
      PlanSound conf rsu base' content s lost ip status plan) ∧
    (∀ cmdResult base, IsFsck conf.toConfig stripes cmdResult →
      hdfs3MetadataBase conf rsu cmdResult blkInit = some base →
      Hdfs3.getStripeBlksMul conf { base with order := order } blkName requestorIP status =
        some plan →
      PlanSound conf rsu { base with order := order } content s lost ip status plan) := by
  have hcontent' : Encoded conf.toConfig encMat [s] content := by
    intro t ht
    obtain rfl := List.mem_singleton.1 ht
    exact hcontent _ hs
  constructor
  · intro dir base base' hdir hload hplan
    have hbase := hdfs_holdsStripe hk hkn hdir hs hrep hload
    exact hdfs_planSound (hbase.withOrder order) hrsu hcontent' hstatus hb hplan
  · intro cmdResult base hfsck hload hplan
    have hbase := hdfs3_holdsStripe hk hkn hfsck hs hrep hload
    exact hdfs3_planSound (hbase.withOrder order) hrsu hcontent' hstatus hb hne hplan

theorem getStripeBlksMul_sound_xor :
    ∃ base plan, hdfsMetadataBase xorRepairConf xorRSUtil xorDir xorInit = some base ∧
      Hdfs.getStripeBlksMul xorRepairConf base xorLost (xorIp xorLost)
        (requestStatus (base.stripeBlks xorLost) [xorLost]) = some (plan, base) ∧
      PlanSound xorRepairConf xorRSUtil base xorContent xorStripe [xorLost] xorIp
        (requestStatus (base.stripeBlks xorLost) [xorLost]) plan := by
  have hb : xorLost ∈ [xorLost] := by simp
  obtain ⟨base, hload⟩ := xor_load xorRepairConf xorRSUtil (by decide) xorDir_isStore
  have hbase := hdfs_holdsStripe (by decide) (by decide) xorDir_isStore (by simp) xorInit_reported
    hload
  have hstatus : IsStatus (requestStatus (base.stripeBlks xorLost) [xorLost]) xorStripe
      [xorLost] := requestStatus_isStatus xorLost hbase (by decide) (by decide) (by decide)
  obtain ⟨plan, hplan⟩ := hdfs_getStripeBlksMul_returns (xorIp xorLost) hbase
    hstatus hb rfl (by unfold EnoughHelpers; decide)
  have hne : plan.isEmpty = false := by
    obtain ⟨setVal, _, _, _, heq⟩ := hdfs_getStripeBlksMul_cases hbase hstatus hb hplan
    obtain ⟨vec, hvec⟩ := ((hdfs_planKeys_iff (xorIp xorLost) setVal.toList hbase
      hstatus hb).2 (by decide)).requested
    rw [← heq] at hvec
    refine TreeMap.isEmpty_eq_false_iff_exists_mem.2 ⟨xorIp xorLost, ?_⟩
    rw [TreeMap.mem_iff_isSome_getElem?, hvec]
    rfl
  have hsound := (getStripeBlksMul_sound xorRepairConf xorRSUtil xorMat (by decide) (by decide)
    xorRSUtil_decodes [xorStripe] xorContent xorContent_encoded xorInit xorStripe (by simp) xorIp
    xorInit_reported _ _ hstatus _ hb (xorIp xorLost) base.order plan hne).1 xorDir base base
    xorDir_isStore hload hplan
  exact ⟨base, plan, hload, hplan, hsound⟩

end CoRD
