import CoRD.Repair.PlanKeys
import CoRD.Util.FirstMin

/-!
# PlanExists — when there is a plan at all

The survivors that may help are all of them, or those on other nodes than the requestor's, or those
whose counters are below the limit of the scheduler; which of them depends on the class, on the
number of failures and on the option.  A plan comes back exactly when `k` may help, and the scheduler
also gives up when it comes to the coordinator's own node.
-/

namespace CoRD

open Std

/-- Every lost block has its entry, with `k` helpers. -/
def Supplies (k : Nat) (lost : List Str) (plan : Plan) : Prop :=
  ∀ c ∈ lost, ∃ (a : Nat) (vec : List (Nat × Str)), plan[a]? = some (c, vec) ∧ vec.length = k

/-- There is an entry, and each has `k` helpers. -/
structure FullPlan (k : Nat) (plan : Plan) : Prop where
  ne_empty : plan.isEmpty = false
  helpers : ∀ (a : Nat) (e : Str × List (Nat × Str)), plan[a]? = some e → e.2.length = k

/-! ## The order of the scheduler -/

/-- `_order` as the loop of the scheduler finds it. -/
def startOrder (order : TreeMap Nat Nat) (requestorIP : Nat) : TreeMap Nat Nat :=
  let order := if order.toList.any fun it => MAX_ORDER ≤ it.2 then order.map fun _ _ => 0 else order
  order.insert requestorIP (order.getD requestorIP 0 + 1)

/-- `a` comes before `b`: it has helped less, or as often and its address is smaller. -/
def Earlier (order : TreeMap Nat Nat) (a b : Nat) : Prop :=
  order.getD a 0 < order.getD b 0 ∨ order.getD a 0 = order.getD b 0 ∧ a < b

instance (order : TreeMap Nat Nat) (a b : Nat) : Decidable (Earlier order a b) :=
  inferInstanceAs (Decidable (_ ∨ _))

/-- The blocks that are left. -/
def survivors (s lost : List Str) : List Str :=
  s.filter fun b => !lost.contains b

theorem survivors_eq (s lost : List Str) : survivors s lost = s.filter fun b => b ∉ lost := by
  apply List.filter_congr
  intro b _
  by_cases hb : b ∈ lost <;> simp [hb]

/-- The nodes of survivors that have a counter below the limit. -/
def schedulableNodes (order : TreeMap Nat Nat) (s lost : List Str) (ip : Str → Nat) : List Nat :=
  ((survivors s lost).map ip).filter fun a => a ∈ order ∧ order.getD a 0 < MAX_ORDER

/-- There are `k` nodes to select, and if the coordinator's own node is among them, `k` before it. -/
def Schedulable (k localIP : Nat) (order : TreeMap Nat Nat) (nodes : List Nat) : Prop :=
  k ≤ nodes.length ∧
    (localIP ∈ nodes → k ≤ (nodes.filter fun a => Earlier order a localIP).length)

/-- When `HDFS_MetadataBase` finds its helpers. -/
def HdfsAvailable (conf : RepairConfig) (order : TreeMap Nat Nat) (s lost : List Str)
    (ip : Str → Nat) (requestorIP : Nat) : Prop :=
  if conf.msscheduling then
    Schedulable conf.ecK conf.localIP (startOrder order requestorIP)
      (schedulableNodes (startOrder order requestorIP) s lost ip)
  else if lost.length = 1 then conf.ecK ≤ (survivors s lost).length
  else EnoughHelpers conf.ecK s lost ip requestorIP

/-! ## One turn of the scheduler -/

section Select

variable {statusInIP : TreeMap Nat Int} {usedIP : TreeSet Nat} {order : TreeMap Nat Nat}
  {nodes : List Nat}

/-- A node that may be selected now. -/
def Selectable (statusInIP : TreeMap Nat Int) (usedIP : TreeSet Nat) (order : TreeMap Nat Nat)
    (a : Nat) : Prop :=
  ¬ (statusInIP.getD a 0 = 0 ∨ a ∈ usedIP) ∧ a ∈ order ∧ order.getD a 0 < MAX_ORDER

/-- Nothing is selected if nothing may be, and otherwise the earliest. -/
theorem selectIP_eq (hnodes : ∀ a, a ∈ nodes ↔ Selectable statusInIP usedIP order a) :
    (selectIP statusInIP usedIP order = none ∧ nodes = []) ∨
      ∃ m ∈ nodes, selectIP statusInIP usedIP order = some m ∧
        ∀ a ∈ nodes, a ≠ m → Earlier order m a := by
  let skip : Nat → Bool := fun a => statusInIP.getD a 0 = 0 ∨ a ∈ usedIP
  have hskip : ∀ a, skip a = false ↔ ¬ (statusInIP.getD a 0 = 0 ∨ a ∈ usedIP) := fun a =>
    decide_eq_false_iff_not
  have hget : ∀ p : Nat × Nat, p ∈ order.toList → p.1 ∈ order ∧ order.getD p.1 0 = p.2 := by
    intro p hp
    have hp' := TreeMap.mem_toList_iff_getElem?_eq_some.1 hp
    constructor
    · rw [TreeMap.mem_iff_isSome_getElem?, hp']
      rfl
    · rw [TreeMap.getD_eq_getD_getElem?, hp']
      rfl
  have hmem : ∀ a ∈ order, (a, order.getD a 0) ∈ order.toList := by
    intro a ha
    rw [TreeMap.mem_toList_iff_getElem?_eq_some, TreeMap.getD_eq_getD_getElem?]
    rw [TreeMap.mem_iff_isSome_getElem?] at ha
    rcases Option.isSome_iff_exists.1 ha with ⟨v, hv⟩
    rw [hv]
    rfl
  -- the scan goes by address, so of equal orders the least address wins
  have hsorted : order.toList.Pairwise fun p q => p.1 < q.1 :=
    TreeMap.ordered_keys_toList.imp fun h => compare_lt_iff_lt.1 h
  have hscan : selectIP statusInIP usedIP order =
      (FirstMin.scan (fun it => skip it.1) Prod.fst Prod.snd order.toList (none, MAX_ORDER)).1 := by
    simp only [selectIP, FirstMin.scan, skip, decide_eq_true_eq]
  rcases FirstMin.scan_spec (fun it => skip it.1) Prod.fst Prod.snd hsorted (none, MAX_ORDER) with
    hkeep | ⟨p, hp, hpskip, hplt, hsel, hmin⟩
  · left
    refine ⟨by rw [hscan, hkeep.1], List.eq_nil_iff_forall_not_mem.2 fun a ha => ?_⟩
    have hsel := (hnodes a).1 ha
    have hle : MAX_ORDER ≤ order.getD a 0 := hkeep.2 _ (hmem a hsel.2.1) ((hskip a).2 hsel.1)
    exact absurd hsel.2.2 (Nat.not_lt.2 hle)
  · right
    have hp' := hget p hp
    have hpmax : p.2 < MAX_ORDER := hplt
    refine ⟨p.1, (hnodes p.1).2 ⟨(hskip _).1 hpskip, hp'.1, by rw [hp'.2]; exact hpmax⟩,
      by rw [hscan, hsel], fun a ha hne => ?_⟩
    have ha' := (hnodes a).1 ha
    rw [Earlier, hp'.2]
    rcases hmin _ (hmem a ha'.2.1) ((hskip a).2 ha'.1) with hlt | ⟨heq, rfl | hbefore⟩
    · exact Or.inl hlt
    · exact absurd rfl hne
    · exact Or.inr ⟨heq, hbefore⟩

theorem earlier_insert {m v a b : Nat} (ha : a ≠ m) (hb : b ≠ m) :
    Earlier (order.insert m v) a b ↔ Earlier order a b := by
  have hkeep : ∀ c, c ≠ m → (order.insert m v).getD c 0 = order.getD c 0 := by
    intro c hc
    rw [TreeMap.getD_insert, if_neg fun h => hc (LawfulEqCmp.compare_eq_iff_eq.1 h).symm]
  rw [Earlier, Earlier, hkeep a ha, hkeep b hb]

theorem earlier_asymm {a b : Nat} : Earlier order a b → ¬ Earlier order b a := by
  unfold Earlier
  omega

/-- After a turn the other nodes are left. -/
theorem mem_erase_iff_selectable (hnodup : nodes.Nodup)
    (hnodes : ∀ a, a ∈ nodes ↔ Selectable statusInIP usedIP order a) (m v a : Nat) :
    a ∈ nodes.erase m ↔ Selectable statusInIP (usedIP.insert m) (order.insert m v) a := by
  have hused : a ∈ usedIP.insert m ↔ a = m ∨ a ∈ usedIP := by
    rw [TreeSet.mem_insert, LawfulEqCmp.compare_eq_iff_eq, eq_comm]
  have horder : a ∈ order.insert m v ↔ a = m ∨ a ∈ order := by
    rw [TreeMap.mem_insert, LawfulEqCmp.compare_eq_iff_eq, eq_comm]
  rw [hnodup.mem_erase_iff, hnodes]
  by_cases ha : a = m
  · constructor
    · intro h
      exact absurd ha h.1
    · intro h
      exact absurd (Or.inr (hused.2 (Or.inl ha))) h.1
  · have hkeep : (order.insert m v).getD a 0 = order.getD a 0 := by
      rw [TreeMap.getD_insert, if_neg fun h => ha (LawfulEqCmp.compare_eq_iff_eq.1 h).symm]
    simp only [Selectable, hused, horder, hkeep, ha, false_or, ne_eq, not_false_eq_true, true_and]

end Select

/-! ## The loop of the scheduler -/

section Loop

variable {conf : RepairConfig} {ip2BlkName : TreeMap Nat Str} {statusInIP : TreeMap Nat Int}

/-- Selecting takes the earliest nodes one by one, so it comes through just when there are enough of
them before the coordinator's own. -/
theorem scheduleLoop_ne_none_iff (n : Nat) (st : Scheduling) {nodes : List Nat}
    (hnodup : nodes.Nodup)
    (hnodes : ∀ a, a ∈ nodes ↔ Selectable statusInIP st.usedIP st.order a) :
    scheduleLoop conf ip2BlkName statusInIP n st ≠ none ↔
      Schedulable n conf.localIP st.order nodes := by
  induction n generalizing st nodes with
  | zero =>
      constructor
      · intro _
        exact ⟨Nat.zero_le _, fun _ => Nat.zero_le _⟩
      · intro _ hnone
        cases hnone
  | succ n ih =>
      rw [scheduleLoop]
      rcases selectIP_eq hnodes with ⟨hsel, hnil⟩ | ⟨m, hm, hsel, hfirst⟩
      · rw [hsel]
        constructor
        · intro h
          exact absurd rfl h
        · intro h
          have hlen := h.1
          rw [hnil] at hlen
          exact absurd hlen (Nat.not_succ_le_zero n)
      · rw [hsel]
        simp only
        have hasymm : ∀ a ∈ nodes, ¬ Earlier st.order a m := by
          intro a ha hearlier
          by_cases ham : a = m
          · subst ham
            exact earlier_asymm hearlier hearlier
          · exact earlier_asymm (hfirst a ha ham) hearlier
        by_cases hlocal : m = conf.localIP
        · -- no node is before the coordinator's own
          rw [if_pos hlocal]
          constructor
          · intro h
            exact absurd rfl h
          · intro h
            have hnone : (nodes.filter fun a => Earlier st.order a conf.localIP) = [] := by
              apply List.filter_eq_nil_iff.2
              intro a ha
              rw [decide_eq_true_eq, ← hlocal]
              exact hasymm a ha
            have hlen := h.2 (hlocal ▸ hm)
            rw [hnone] at hlen
            exact absurd hlen (Nat.not_succ_le_zero n)
        · rw [if_neg hlocal]
          let order' := st.order.insert m (st.order.getD m 0 + 1)
          have hrest : ∀ a, a ∈ nodes.erase m ↔
              Selectable statusInIP (st.usedIP.insert m) order' a :=
            mem_erase_iff_selectable hnodup hnodes m _
          have hlen : (nodes.erase m).length = nodes.length - 1 := List.length_erase_of_mem hm
          have hpos := List.length_pos_of_mem hm
          have hfilter : conf.localIP ∈ nodes →
              (nodes.filter fun a => Earlier st.order a conf.localIP).length =
                ((nodes.erase m).filter fun a => Earlier order' a conf.localIP).length + 1 := by
            intro hin
            have hbefore := hfirst conf.localIP hin (Ne.symm hlocal)
            have hsame : ((nodes.erase m).filter fun a => Earlier order' a conf.localIP) =
                (nodes.erase m).filter fun a => Earlier st.order a conf.localIP := by
              apply List.filter_congr
              intro a ha
              apply decide_eq_decide.2
              exact earlier_insert (hnodup.mem_erase_iff.1 ha).1 (Ne.symm hlocal)
            rw [hsame, ((List.perm_cons_erase hm).filter _).length_eq, List.filter_cons,
              if_pos (decide_eq_true hbefore), List.length_cons]
          rw [ih ⟨_, st.usedIP.insert m, order'⟩ (hnodup.erase m) hrest]
          have hin : conf.localIP ∈ nodes.erase m ↔ conf.localIP ∈ nodes :=
            ⟨List.mem_of_mem_erase, fun h => hnodup.mem_erase_iff.2 ⟨Ne.symm hlocal, h⟩⟩
          constructor
          · intro h
            refine ⟨by have := h.1; omega, fun hmem => ?_⟩
            rw [hfilter hmem]
            exact Nat.succ_le_succ (h.2 (hin.2 hmem))
          · intro h
            refine ⟨by have := h.1; omega, fun hmem => ?_⟩
            have hle := h.2 (hin.1 hmem)
            rw [hfilter (hin.1 hmem)] at hle
            exact Nat.le_of_succ_le_succ hle

end Loop

/-! ## The helpers of a request -/

section Available

variable {conf : RepairConfig} {base : MetadataBase} {s lost : List Str} {ip : Str → Nat}
  {status : Status} {blkName : Str} {requestorIP : Nat}

/-- The nodes with a status are those of the survivors. -/
theorem statusInIP_ne_zero_iff (hbase : base.HoldsStripe conf.toConfig s ip)
    (hstatus : IsStatus status s lost) (hb : blkName ∈ s) {a : Nat} :
    ((base.stripeBlks blkName).toList.foldl
        (fun (m : TreeMap Nat Int) it => m.insert it.1 (status.getD it.2 0)) ∅).getD a 0 ≠ 0 ↔
      a ∈ (survivors s lost).map ip := by
  rw [survivors_eq]
  have hfold : ((base.stripeBlks blkName).toList.foldl
      (fun (m : TreeMap Nat Int) it => m.insert it.1 (status.getD it.2 0)) ∅) =
      Tree.writeAll ((base.stripeBlks blkName).toList.map
        fun it => (it.1, status.getD it.2 0)) ∅ := by
    rw [Tree.writeAll, List.foldl_map]
  have hkeys : (((base.stripeBlks blkName).toList.map
      fun it => (it.1, status.getD it.2 0)).map Prod.fst).Nodup := by
    rw [List.map_map]
    exact stripeBlks_keys_nodup hbase hb
  -- the table has the status of the block on each node of the stripe
  have hget : ∀ v, (Tree.writeAll ((base.stripeBlks blkName).toList.map
      fun it => (it.1, status.getD it.2 0)) (∅ : TreeMap Nat Int))[a]? = some v ↔
        ∃ b ∈ s, a = ip b ∧ v = status.getD b 0 := by
    intro v
    rw [Tree.getElem?_writeAll hkeys, List.mem_map]
    constructor
    · intro h
      rcases h with ⟨p, hp, heq⟩ | ⟨_, hnone⟩
      · have hp' := (mem_stripeBlks hbase hb).1 (TreeSet.mem_toList.1 hp)
        rcases Prod.ext_iff.1 heq with ⟨rfl, rfl⟩
        exact ⟨p.2, hp'.1, hp'.2, rfl⟩
      · simp at hnone
    · intro h
      rcases h with ⟨b, hbs, rfl, rfl⟩
      exact Or.inl ⟨(ip b, b), TreeSet.mem_toList.2 ((mem_stripeBlks hbase hb).2 ⟨hbs, rfl⟩), rfl⟩
  rw [hfold, TreeMap.getD_eq_getD_getElem?, List.mem_map]
  constructor
  · intro h
    rcases hv : (Tree.writeAll ((base.stripeBlks blkName).toList.map
      fun it => (it.1, status.getD it.2 0)) (∅ : TreeMap Nat Int))[a]? with _ | v
    · rw [hv] at h
      exact absurd rfl h
    · rw [hv] at h
      rcases (hget v).1 hv with ⟨b, hbs, rfl, rfl⟩
      refine ⟨b, List.mem_filter.2 ⟨hbs, decide_eq_true ?_⟩, rfl⟩
      exact (hstatus.getD_ne_zero_iff hbs).1 h
  · intro h
    rcases h with ⟨b, hmem, rfl⟩
    rcases List.mem_filter.1 hmem with ⟨hbs, hlost⟩
    rw [(hget _).2 ⟨b, hbs, rfl, rfl⟩]
    exact (hstatus.getD_ne_zero_iff hbs).2 (of_decide_eq_true hlost)

/-- The nodes that the first turn of the scheduler may select. -/
theorem mem_schedulableNodes_iff {order : TreeMap Nat Nat}
    (hbase : base.HoldsStripe conf.toConfig s ip) (hstatus : IsStatus status s lost)
    (hb : blkName ∈ s) (a : Nat) :
    a ∈ schedulableNodes order s lost ip ↔
      Selectable ((base.stripeBlks blkName).toList.foldl
        (fun (m : TreeMap Nat Int) it => m.insert it.1 (status.getD it.2 0)) ∅) ∅ order a := by
  rw [schedulableNodes, List.mem_filter, decide_eq_true_eq, Selectable, not_or,
    ← statusInIP_ne_zero_iff hbase hstatus hb]
  simp

theorem getScheduledBlks_ne_none_iff (hbase : base.HoldsStripe conf.toConfig s ip)
    (hstatus : IsStatus status s lost) (hb : blkName ∈ s) :
    getScheduledBlks conf base blkName requestorIP status (base.stripeBlks blkName) ≠ none ↔
      Schedulable conf.ecK conf.localIP (startOrder base.order requestorIP)
        (schedulableNodes (startOrder base.order requestorIP) s lost ip) := by
  have hnodup : (schedulableNodes (startOrder base.order requestorIP) s lost ip).Nodup :=
    (hbase.nodes.sublist (List.filter_sublist.map ip)).filter _
  let statusInIP : TreeMap Nat Int := (base.stripeBlks blkName).toList.foldl
    (fun m it => m.insert it.1 (status.getD it.2 0)) ∅
  have hnodes : ∀ a, a ∈ schedulableNodes (startOrder base.order requestorIP) s lost ip ↔
      Selectable statusInIP ∅ (startOrder base.order requestorIP) a :=
    mem_schedulableNodes_iff hbase hstatus hb
  have hloop : scheduleLoop conf
      (base.ip2BlkNames.getD (base.blkName2StripeId.getD blkName 0) ∅) statusInIP conf.ecK
        ⟨∅, ∅, startOrder base.order requestorIP⟩ ≠ none ↔ _ :=
    scheduleLoop_ne_none_iff conf.ecK ⟨∅, ∅, startOrder base.order requestorIP⟩ hnodup hnodes
  rw [← hloop]
  unfold getScheduledBlks
  rw [ne_eq, Option.map_eq_none_iff]
  rfl

/-- The loops that add survivors fill their set just when enough blocks pass. -/
theorem not_size_addUpTo_lt_iff (ok : Nat × Str → Bool) (pass : Str → Bool) {l : List (Nat × Str)}
    (hbase : base.HoldsStripe conf.toConfig s ip) (hb : blkName ∈ s)
    (hl : l.Perm (base.stripeBlks blkName).toList) (hok : ∀ b ∈ s, ok (ip b, b) = pass b) :
    ¬ (Tree.addUpTo conf.ecK ok l (∅ : BlkSet)).size < conf.ecK ↔
      conf.ecK ≤ (s.filter pass).length := by
  have hnodup : l.Nodup := hl.nodup_iff.2 (Tree.set_toList_nodup _)
  have hcount : (l.filter ok).length = (s.filter pass).length := by
    rw [((hl.trans (stripeBlks_perm hbase hb)).filter ok).length_eq, List.filter_map,
      List.length_map]
    exact congrArg List.length (List.filter_congr hok)
  have hperm : (Tree.addUpTo conf.ecK ok l (∅ : BlkSet)).toList.Perm
      ((l.filter ok).take conf.ecK) := Tree.toList_addUpTo_empty hnodup
  rw [← TreeSet.length_toList, hperm.length_eq, List.length_take, hcount]
  omega

/-- `HDFS_MetadataBase` returns a plan just when its helpers are there. -/
theorem hdfs_returns_iff (hbase : base.HoldsStripe conf.toConfig s ip)
    (hstatus : IsStatus status s lost) (hb : blkName ∈ lost) :
    (∃ plan base', Hdfs.getStripeBlksMul conf base blkName requestorIP status =
        some (plan, base')) ↔
      HdfsAvailable conf base.order s lost ip requestorIP := by
  have hbs := hstatus.subset _ hb
  have hknown := hbase.known hbs
  have hstat : ∀ b ∈ s, (status.getD b 0 ≠ 0 ↔ b ∉ lost) := fun b hb =>
    hstatus.getD_ne_zero_iff hb
  have hfailed : (status.toList.filter fun it => it.2 = 0).length = lost.length := by
    rw [hstatus.failed_perm.length_eq, List.length_map]
  rw [Hdfs.getStripeBlksMul, if_pos ⟨hknown.1, hknown.2.2⟩, Hdfs.selectHelpers, HdfsAvailable]
  simp only [hfailed]
  by_cases hsched : conf.msscheduling = true
  · -- the scheduler gives up or returns a full set
    rw [if_pos hsched, if_pos hsched, ← getScheduledBlks_ne_none_iff hbase hstatus hbs]
    cases hsel : getScheduledBlks conf base blkName requestorIP status
        (base.stripeBlks blkName) with
    | none =>
        constructor
        · intro h
          rcases h with ⟨plan, base', heq⟩
          cases heq
        · intro h
          exact absurd rfl h
    | some sel =>
        have hsize : ¬ sel.1.size < conf.ecK := by
          rcases Option.map_eq_some_iff.1 hsel with ⟨st, hst, rfl⟩
          have hspec := scheduleLoop_spec ⟨_, _, _⟩ (P := fun _ => True) (fun _ _ => trivial)
            (fun p hp => absurd hp TreeSet.not_mem_emptyc)
            (fun p hp => absurd hp TreeSet.not_mem_emptyc) hst
          rw [hspec.1]
          exact Nat.not_lt.2 (Nat.le_add_left _ _)
        simp only
        rw [if_neg hsize]
        constructor
        · intro _ hnone
          cases hnone
        · intro _
          exact ⟨_, _, rfl⟩
  · rw [if_neg hsched, if_neg hsched]
    by_cases hsingle : lost.length = 1
    · rw [if_pos hsingle, if_pos hsingle]
      have hsize := not_size_addUpTo_lt_iff (fun it => status.getD it.2 0 ≠ 0)
        (fun b => b ∉ lost) hbase hbs (reverse_perm _) fun b hb => decide_eq_decide.2 (hstat b hb)
      rw [survivors_eq, ← hsize]
      simp only
      split <;> simp_all
    · rw [if_neg hsingle, if_neg hsingle]
      have hsize := not_size_addUpTo_lt_iff
        (fun it => it.1 ≠ requestorIP ∧ status.getD it.2 0 ≠ 0)
        (fun b => b ∉ lost ∧ ip b ≠ requestorIP) hbase hbs (List.Perm.refl _)
        fun b hb => decide_eq_decide.2 ((and_congr_right fun _ => hstat b hb).trans and_comm)
      rw [EnoughHelpers, ← hsize]
      simp only
      split <;> simp_all

/-- What `HDFS_MetadataBase` returns is full, and has an entry for every lost block unless the
requestor is the node of another one. -/
theorem hdfs_plan_full {plan : Plan} {base' : MetadataBase}
    (hbase : base.HoldsStripe conf.toConfig s ip) (hstatus : IsStatus status s lost)
    (hb : blkName ∈ lost) (hplan : Hdfs.getStripeBlksMul conf base blkName requestorIP status =
      some (plan, base')) :
    FullPlan conf.ecK plan ∧
      ((∀ c ∈ lost, c ≠ blkName → ip c ≠ requestorIP) → Supplies conf.ecK lost plan) := by
  rcases hdfs_getStripeBlksMul_cases hbase hstatus hb hplan with ⟨setVal, hset, hsize, hbase', rfl⟩
  have hlen := (hset.vec hbase hsize).1
  have hfull : ∀ (a : Nat) (e : Str × List (Nat × Str)),
      (planLost base' status setVal.toList (· ≠ blkName)
        ((∅ : Plan).insert requestorIP (blkName, setVal.toList)))[a]? = some e →
      e.2.length = conf.ecK := fun a e he => by
    rw [(hdfs_plan_entry hbase' hstatus hb he).1, hlen]
  refine ⟨⟨?_, hfull⟩, fun hfree c hc => ?_⟩
  · -- the entry under the requestor is the requested one or another
    rw [Bool.eq_false_iff]
    intro hempty
    have hnone : ∀ e, (planLost base' status setVal.toList (· ≠ blkName)
        ((∅ : Plan).insert requestorIP (blkName, setVal.toList)))[requestorIP]? ≠ some e := by
      intro e he
      rw [TreeMap.getElem?_of_isEmpty hempty] at he
      cases he
    by_cases hfree : ∀ c ∈ lost, decide (c ≠ blkName) = true → requestorIP ≠ ip c
    · apply hnone (blkName, setVal.toList)
      exact (getElem?_planLost hbase' hstatus).2 (Or.inr ⟨hfree, TreeMap.getElem?_insert_self⟩)
    · push Not at hfree
      rcases hfree with ⟨c, hc, hne, hip⟩
      apply hnone (c, setVal.toList)
      exact (getElem?_planLost hbase' hstatus).2 (Or.inl ⟨c, hc, hne, hip, rfl⟩)
  · have hkeys := (hdfs_planKeys_iff requestorIP setVal.toList hbase' hstatus hb).2 hfree
    rcases (hkeys.entry c hc).exists with ⟨a, vec, he⟩
    exact ⟨a, vec, he, hfull a _ he⟩

/-- With enough survivors on other nodes, `HDFS3_MetadataBase` returns a full plan. -/
theorem hdfs3_returns_full (hbase : base.HoldsStripe conf.toConfig s ip)
    (hstatus : IsStatus status s lost) (hb : blkName ∈ lost)
    (henough : EnoughHelpers conf.ecK s lost ip requestorIP) :
    ∃ plan, Hdfs3.getStripeBlksMul conf base blkName requestorIP status = some plan ∧
      FullPlan conf.ecK plan ∧ Supplies conf.ecK lost plan := by
  rcases hdfs3_getStripeBlksMul_returns requestorIP hbase hstatus hb henough with ⟨vec, hplan⟩
  have hentry : ∀ c ∈ lost, (planLost base status vec (fun _ => true) ∅)[ip c]? =
      some (c, vec) := fun c hc =>
    (getElem?_planLost hbase hstatus).2 (Or.inl ⟨c, hc, rfl, rfl, rfl⟩)
  have hne : (planLost base status vec (fun _ => true) ∅).isEmpty = false := by
    rw [Bool.eq_false_iff]
    intro hempty
    have hb' := hentry blkName hb
    rw [TreeMap.getElem?_of_isEmpty hempty] at hb'
    cases hb'
  rcases hdfs3_getStripeBlksMul_cases hbase hstatus hb hne hplan with ⟨setVal, hset, hfill, heq⟩
  have hvec : vec = setVal.toList := by
    have hb' := hentry blkName hb
    rw [heq, (getElem?_planLost hbase hstatus).2 (Or.inl ⟨blkName, hb, rfl, rfl, rfl⟩)] at hb'
    exact (Prod.mk.inj (Option.some.inj hb')).2.symm
  have hlen : vec.length = conf.ecK := hvec ▸ (hset.vec hbase hfill).1
  refine ⟨_, hplan, ⟨hne, fun a e he => ?_⟩, fun c hc => ⟨ip c, vec, hentry c hc, hlen⟩⟩
  rw [(hdfs3_plan_entry hbase hstatus he).1, hlen]

/-- With too few, it returns the empty map. -/
theorem hdfs3_returns_empty (hbase : base.HoldsStripe conf.toConfig s ip)
    (hstatus : IsStatus status s lost) (hb : blkName ∈ lost)
    (hfew : ¬ EnoughHelpers conf.ecK s lost ip requestorIP) :
    Hdfs3.getStripeBlksMul conf base blkName requestorIP status = some ∅ := by
  have hbs := hstatus.subset _ hb
  have hknown := hbase.known hbs
  have hsize := not_size_addUpTo_lt_iff
    (fun it => it.1 ≠ requestorIP ∧ status.getD it.2 0 ≠ 0)
    (fun b => b ∉ lost ∧ ip b ≠ requestorIP) hbase hbs (List.Perm.refl _)
    fun b hb => decide_eq_decide.2
      ((and_congr_right fun _ => hstatus.getD_ne_zero_iff hb).trans and_comm)
  have hless : (Hdfs3.setVal conf base blkName requestorIP status).size < conf.ecK :=
    not_not.1 (mt hsize.1 hfew)
  rw [Hdfs3.getStripeBlksMul, if_pos ⟨hknown.2.1, hknown.2.2⟩]
  exact if_pos hless

end Available

/-! ## The plans of loaded metadata bases -/

/-- `HDFS_MetadataBase` returns a plan, and `HDFS3_MetadataBase` one that is not the empty map, just
when enough survivors may help; what is returned then is full. -/
theorem getStripeBlksMul_exists_iff (conf : RepairConfig) (rsu : RSUtil) (hk : 1 ≤ conf.ecK)
    (hkn : conf.ecK < conf.ecN) (stripes : List (List Str)) (blkInit : List (Nat × Str))
    (s : List Str) (hs : s ∈ stripes) (ip : Str → Nat) (hrep : Reported blkInit s ip)
    (lost : List Str) (status : Status) (hstatus : IsStatus status s lost) (blkName : Str)
    (hb : blkName ∈ lost) (requestorIP : Nat) (order : TreeMap Nat Nat) :
    (∀ dir base, IsStore conf.toConfig stripes dir →
      hdfsMetadataBase conf rsu dir blkInit = some base →
      ((∃ plan base',
        Hdfs.getStripeBlksMul conf { base with order := order } blkName requestorIP status =
          some (plan, base')) ↔ HdfsAvailable conf order s lost ip requestorIP) ∧
      ∀ plan base',
        Hdfs.getStripeBlksMul conf { base with order := order } blkName requestorIP status =
          some (plan, base') →
        FullPlan conf.ecK plan ∧
          ((∀ c ∈ lost, c ≠ blkName → ip c ≠ requestorIP) → Supplies conf.ecK lost plan)) ∧
    (∀ cmdResult base, IsFsck conf.toConfig stripes cmdResult →
      hdfs3MetadataBase conf rsu cmdResult blkInit = some base →
      (EnoughHelpers conf.ecK s lost ip requestorIP → ∃ plan,
        Hdfs3.getStripeBlksMul conf { base with order := order } blkName requestorIP status =
          some plan ∧ FullPlan conf.ecK plan ∧ Supplies conf.ecK lost plan) ∧
      (¬ EnoughHelpers conf.ecK s lost ip requestorIP →
        Hdfs3.getStripeBlksMul conf { base with order := order } blkName requestorIP status =
          some ∅)) := by
  constructor
  · intro dir base hdir hload
    have hbase := (hdfs_holdsStripe hk hkn hdir hs hrep hload).withOrder order
    exact ⟨hdfs_returns_iff hbase hstatus hb, fun plan base' hplan =>
      hdfs_plan_full hbase hstatus hb hplan⟩
  · intro cmdResult base hfsck hload
    have hbase := (hdfs3_holdsStripe hk hkn hfsck hs hrep hload).withOrder order
    exact ⟨fun henough => hdfs3_returns_full hbase hstatus hb henough,
      fun hfew => hdfs3_returns_empty hbase hstatus hb hfew⟩

/-- One data block is lost, and its node asks for it. -/
theorem getStripeBlksMul_exists_xor :
    ∃ base plan base', hdfsMetadataBase xorRepairConf xorRSUtil xorDir xorInit = some base ∧
      Hdfs.getStripeBlksMul xorRepairConf base xorLost (xorIp xorLost)
        (requestStatus (base.stripeBlks xorLost) [xorLost]) = some (plan, base') := by
  have hb : xorLost ∈ [xorLost] := List.mem_singleton_self _
  rcases xor_load xorRepairConf xorRSUtil (by decide) xorDir_isStore with ⟨base, hload⟩
  have hbase := hdfs_holdsStripe (by decide) (by decide) xorDir_isStore (List.mem_singleton_self _)
    xorInit_reported hload
  have hstatus : IsStatus (requestStatus (base.stripeBlks xorLost) [xorLost]) xorStripe
      [xorLost] := requestStatus_isStatus xorLost hbase (by decide) (by decide) (by decide)
  have hreturns := (((getStripeBlksMul_exists_iff xorRepairConf xorRSUtil (by decide) (by decide)
    [xorStripe] xorInit xorStripe (List.mem_singleton_self _) xorIp xorInit_reported [xorLost] _
    hstatus xorLost hb (xorIp xorLost) base.order).1 xorDir base xorDir_isStore hload).1).2 (by
      rw [HdfsAvailable, if_neg (by decide), if_pos (by decide)]
      decide)
  rcases hreturns with ⟨plan, base', hplan⟩
  exact ⟨base, plan, base', hload, hplan⟩

/-- Two of three copies are lost, and the node of the third asks for one of them: it is the only one
that could help. -/
theorem no_plan_for_survivor :
    ∃ base, hdfsMetadataBase mirrorConf xorRSUtil xorDir xorInit = some base ∧
      mirrorConf.ecK ≤ (xorStripe.filter fun b =>
        b ∉ [xorLost, xorStripe.getD 2 []]).length ∧
      Hdfs.getStripeBlksMul mirrorConf base xorLost (xorIp (xorStripe.getD 0 []))
        (requestStatus (base.stripeBlks xorLost) [xorLost, xorStripe.getD 2 []]) = none := by
  have hb : xorLost ∈ [xorLost, xorStripe.getD 2 []] := List.mem_cons_self
  rcases xor_load mirrorConf xorRSUtil (by decide) mirror_isStore with ⟨base, hload⟩
  have hbase := hdfs_holdsStripe (by decide) (by decide) mirror_isStore (List.mem_singleton_self _)
    xorInit_reported hload
  have hstatus : IsStatus (requestStatus (base.stripeBlks xorLost) [xorLost, xorStripe.getD 2 []])
      xorStripe [xorLost, xorStripe.getD 2 []] :=
    requestStatus_isStatus xorLost hbase (by decide) (by decide) (by decide)
  refine ⟨base, hload, by decide, ?_⟩
  by_contra hsome
  rcases Option.ne_none_iff_exists'.1 hsome with ⟨⟨plan, base'⟩, hplan⟩
  have havailable := (hdfs_returns_iff hbase hstatus hb).1 ⟨plan, base', hplan⟩
  rw [HdfsAvailable, if_neg (by decide), if_neg (by decide), EnoughHelpers] at havailable
  exact absurd havailable (by decide)

end CoRD
