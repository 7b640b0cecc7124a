import CoRD.Repair.PlanExists

/-!
# ScheduleRuns — the counters over many requests

The scheduler counts for each node how often it has helped or asked, over all stripes and for as long
as the coordinator runs.  The limit at which the counters start again is also the value from which the
search for a helper starts.  The requestor is counted before that search, and when its counter comes to
the limit then, its node is not found.
-/

namespace CoRD

open Std

/-! ## The counters at the start -/

/-- Each node that is known has a counter, and all are zero. -/
structure MetadataBase.Uncounted (base : MetadataBase) : Prop where
  known : ∀ (b : Str) (a : Nat), base.blkName2Ip[b]? = some a → a ∈ base.order
  zero : ∀ a, base.order.getD a 0 = 0

section Start

variable {conf : Config} {rsu : RSUtil} {base : MetadataBase}

theorem place_uncounted (h : base.Uncounted) (holderIP : Nat) (blkName : Str) :
    (base.place true holderIP blkName).Uncounted := by
  unfold MetadataBase.place
  split
  · exact h
  · split
    · exact ⟨h.known, h.zero⟩
    · constructor
      case known =>
        intro b a hget
        show a ∈ base.order.insertIfNew holderIP 0
        rw [TreeMap.mem_insertIfNew, LawfulEqCmp.compare_eq_iff_eq]
        have hget' : (base.blkName2Ip.insert blkName holderIP)[b]? = some a := hget
        rw [TreeMap.getElem?_insert] at hget'
        split at hget'
        · exact Or.inl (Option.some.inj hget')
        · exact Or.inr (h.known b a hget')
      case zero =>
        intro a
        show (base.order.insertIfNew holderIP 0).getD a 0 = 0
        rw [TreeMap.getD_insertIfNew]
        split
        · rfl
        · exact h.zero a

/-- The reports give each node a counter. -/
theorem receive_uncounted (d : Described) (blkInit : List (Nat × Str)) :
    d.base.Uncounted → (d.receive true blkInit).base.Uncounted := by
  intro h
  rcases receive_eq_foldl true d blkInit with ⟨proc, hproc, -⟩
  rw [hproc]
  clear hproc
  induction proc generalizing d with
  | nil =>
      exact h
  | cons m proc ih =>
      have hplace := place_uncounted h m.1 m.2
      exact ih (d.report true m) ⟨hplace.known, hplace.zero⟩

theorem scanBlk_order (blkName : Str) (newStripe : Bool) (stripeId : Nat) (st : FileScan)
    (bName : Str) : (scanBlk conf blkName newStripe stripeId st bName).base.order =
      st.base.order := by
  unfold scanBlk
  split_ifs <;> rfl

theorem readFile_order (load : HdfsLoad) (file : Str × Str) :
    (readFile conf rsu load file).base.order = load.base.order := by
  have hscan : ∀ blkName newStripe stripeId (l : List Str) (st : FileScan),
      (l.foldl (scanBlk conf blkName newStripe stripeId) st).base.order = st.base.order := by
    intro blkName newStripe stripeId l
    induction l with
    | nil =>
        intro st
        rfl
    | cons bName l ih =>
        intro st
        rw [List.foldl_cons, ih, scanBlk_order]
  unfold readFile
  simp only
  split
  · exact hscan _ _ _ _ _
  · exact hscan _ _ _ _ _

/-- Reading the stripes counts nothing. -/
theorem readStripeStore_order {dir : List (Str × Str)} {d : Described} :
    readStripeStore conf rsu dir = some d → d.base.order = ∅ := by
  intro hread
  have hfiles : ∀ (files : List (Str × Str)) (load : HdfsLoad),
      (files.foldl (readFile conf rsu) load).base.order = load.base.order := by
    intro files
    induction files with
    | nil =>
        intro load
        rfl
    | cons file files ih =>
        intro load
        rw [List.foldl_cons, ih, readFile_order]
  rw [readStripeStore] at hread
  split at hread
  · cases hread
  · rw [← Option.some.inj hread]
    exact hfiles _ _

end Start

/-- A store is loaded with all counters at zero. -/
theorem hdfsMetadataBase_uncounted {conf : RepairConfig} {rsu : RSUtil}
    {stripes : List (List Str)} {dir : List (Str × Str)} {blkInit : List (Nat × Str)}
    {base : MetadataBase} (hn : 0 < conf.ecN) (hdir : IsStore conf.toConfig stripes dir)
    (hsched : conf.msscheduling = true) :
    hdfsMetadataBase conf rsu dir blkInit = some base → base.Uncounted := by
  intro hload
  rcases readStripeStore_describes rsu hn hdir with ⟨d, hread, hd⟩
  have hstart : d.base.Uncounted := by
    constructor
    case known =>
      intro b a hget
      rw [hd.blkName2Ip] at hget
      cases hget
    case zero =>
      intro a
      rw [readStripeStore_order hread]
      rfl
  rw [hdfsMetadataBase, hread, hsched] at hload
  rw [← Option.some.inj hload]
  exact receive_uncounted d blkInit hstart

/-! ## One request -/

/-- `ecK` survivors on their nodes, none of which has a larger counter when it is selected than a
survivor that is not; each of them is counted.  A node that is selected has not been counted since
the search began, so the counters are those of `order`. -/
structure FairChoice (conf : RepairConfig) (s lost : List Str) (ip : Str → Nat)
    (order : TreeMap Nat Nat) (setVal : BlkSet) (order' : TreeMap Nat Nat) : Prop where
  size : setVal.toList.length = conf.ecK
  distinct : (setVal.toList.map Prod.snd).Nodup
  survive : ∀ p ∈ setVal, p.2 ∈ s ∧ p.2 ∉ lost ∧ p.1 = ip p.2
  least : ∀ p ∈ setVal, ∀ b ∈ survivors s lost, (ip b, b) ∉ setVal →
    order.getD p.1 0 ≤ order.getD (ip b) 0
  counted : ∀ a, order'.getD a 0 =
    order.getD a 0 + if a ∈ setVal.toList.map Prod.fst then 1 else 0

section Loop

variable {conf : RepairConfig} {ip2BlkName : TreeMap Nat Str} {statusInIP : TreeMap Nat Int}

/-- The loop takes the `n` earliest nodes, and counts each of them. -/
theorem scheduleLoop_takes (n : Nat) (st : Scheduling) {st' : Scheduling} {nodes : List Nat}
    (hnodup : nodes.Nodup)
    (hnodes : ∀ a, a ∈ nodes ↔ Selectable statusInIP st.usedIP st.order a) :
    scheduleLoop conf ip2BlkName statusInIP n st = some st' →
      ∃ chosen : List Nat, chosen.length = n ∧ chosen.Nodup ∧ (∀ a ∈ chosen, a ∈ nodes) ∧
        (∀ a ∈ chosen, ∀ b ∈ nodes, b ∉ chosen → Earlier st.order a b) ∧
        (∀ p, p ∈ st'.setVal ↔ p ∈ st.setVal ∨ ∃ a ∈ chosen, p = (a, ip2BlkName.getD a [])) ∧
        (∀ a, st'.order.getD a 0 = st.order.getD a 0 + if a ∈ chosen then 1 else 0) ∧
        ∀ a ∈ st.order, a ∈ st'.order := by
  intro h
  induction n generalizing st nodes with
  | zero =>
      rw [← Option.some.inj h]
      exact ⟨[], rfl, List.nodup_nil, by simp, by simp, by simp, by simp, fun a ha => ha⟩
  | succ n ih =>
      rw [scheduleLoop] at h
      rcases selectIP_eq hnodes with ⟨hsel, _⟩ | ⟨m, hm, hsel, hfirst⟩
      · rw [hsel] at h
        cases h
      · rw [hsel] at h
        simp only at h
        split at h
        · cases h
        · -- the others are chosen from the nodes that are left
          rcases ih ⟨_, _, _⟩ (hnodup.erase m) (mem_erase_iff_selectable hnodup hnodes m _) h with
            ⟨chosen, hlen, hdistinct, hin, hearlier, hset, hcount, hkeys⟩
          have hnot : m ∉ chosen := fun hmem => (hnodup.mem_erase_iff.1 (hin m hmem)).1 rfl
          have hne : ∀ a ∈ chosen, a ≠ m := fun a ha => (hnodup.mem_erase_iff.1 (hin a ha)).1
          refine ⟨m :: chosen, by rw [List.length_cons, hlen], List.nodup_cons.2 ⟨hnot, hdistinct⟩,
            ?_, ?_, ?_, ?_, ?_⟩
          · intro a ha
            rcases List.mem_cons.1 ha with rfl | ha
            · exact hm
            · exact List.mem_of_mem_erase (hin a ha)
          · intro a ha b hb hbnot
            rw [List.mem_cons, not_or] at hbnot
            rcases List.mem_cons.1 ha with rfl | ha
            · exact hfirst b hb hbnot.1
            · exact (earlier_insert (hne a ha) hbnot.1).1
                (hearlier a ha b (hnodup.mem_erase_iff.2 ⟨hbnot.1, hb⟩) hbnot.2)
          · intro p
            rw [hset, TreeSet.mem_insert, LawfulEqCmp.compare_eq_iff_eq, List.exists_mem_cons_iff,
              eq_comm (a := (m, _))]
            tauto
          · intro a
            rw [hcount]
            show (st.order.insert m (st.order.getD m 0 + 1)).getD a 0 + _ = _
            rw [TreeMap.getD_insert]
            by_cases ha : a = m
            · subst ha
              simp [hnot]
            · rw [if_neg fun hc => ha (LawfulEqCmp.compare_eq_iff_eq.1 hc).symm]
              simp [ha]
          · intro a ha
            exact hkeys a (TreeMap.mem_insert.2 (Or.inr ha))

end Loop

/-- Counting the requestor takes its counter to the limit; the counters do not start again before, as
none has come to the limit yet. -/
def AtLimit (order : TreeMap Nat Nat) (requestorIP : Nat) : Prop :=
  (∀ it ∈ order.toList, it.2 < MAX_ORDER) ∧ order.getD requestorIP 0 + 1 = MAX_ORDER

instance (order : TreeMap Nat Nat) (requestorIP : Nat) : Decidable (AtLimit order requestorIP) :=
  inferInstanceAs (Decidable (_ ∧ _))

/-- The nodes of survivors, but not that of a requestor whose counter comes to the limit. -/
def spareNodes (order : TreeMap Nat Nat) (s lost : List Str) (ip : Str → Nat)
    (requestorIP : Nat) : List Nat :=
  ((survivors s lost).map ip).filter fun a => ¬ (a = requestorIP ∧ AtLimit order requestorIP)

section Counters

variable {order : TreeMap Nat Nat} {requestorIP a : Nat}

theorem mem_startOrder (ha : a ∈ order) : a ∈ startOrder order requestorIP := by
  rw [startOrder]
  refine TreeMap.mem_insert.2 (Or.inr ?_)
  split
  · exact TreeMap.mem_map.2 ha
  · exact ha

theorem getD_map_zero (order : TreeMap Nat Nat) (a : Nat) :
    (order.map fun _ _ => 0).getD a 0 = 0 := by
  rw [TreeMap.getD_eq_getD_getElem?, TreeMap.getElem?_map]
  cases order[a]? with
  | none =>
      rfl
  | some v =>
      rfl

theorem getD_startOrder : (startOrder order requestorIP).getD a 0 =
    (if ∀ it ∈ order.toList, it.2 < MAX_ORDER then order.getD a 0 else 0) +
      if a = requestorIP then 1 else 0 := by
  have hany : (order.toList.any fun it => MAX_ORDER ≤ it.2) = true ↔
      ¬ ∀ it ∈ order.toList, it.2 < MAX_ORDER := by
    simp [List.any_eq_true]
  have hinsert : ∀ m : TreeMap Nat Nat,
      (m.insert requestorIP (m.getD requestorIP 0 + 1)).getD a 0 =
        m.getD a 0 + if a = requestorIP then 1 else 0 := by
    intro m
    rw [TreeMap.getD_insert]
    by_cases ha : a = requestorIP
    · subst ha
      simp
    · rw [if_neg fun hc => ha (LawfulEqCmp.compare_eq_iff_eq.1 hc).symm, if_neg ha, Nat.add_zero]
  rw [startOrder]
  by_cases hall : ∀ it ∈ order.toList, it.2 < MAX_ORDER
  · rw [if_neg (mt hany.1 (not_not.2 hall)), if_pos hall, hinsert]
  · rw [if_pos (hany.2 hall), if_neg hall, hinsert, getD_map_zero]

theorem startOrder_lt_iff (ha : a ∈ order) : (startOrder order requestorIP).getD a 0 < MAX_ORDER ↔
    ¬ (a = requestorIP ∧ AtLimit order requestorIP) := by
  rw [getD_startOrder, AtLimit]
  by_cases hall : ∀ it ∈ order.toList, it.2 < MAX_ORDER
  · have hget : order.getD a 0 < MAX_ORDER := by
      rcases Option.isSome_iff_exists.1 (TreeMap.mem_iff_isSome_getElem?.1 ha) with ⟨v, hv⟩
      rw [TreeMap.getD_eq_getD_getElem?, hv]
      exact hall (a, v) (TreeMap.mem_toList_iff_getElem?_eq_some.2 hv)
    rw [if_pos hall, and_iff_right hall]
    by_cases hreq : a = requestorIP
    · subst hreq
      rw [if_pos rfl, and_iff_right rfl]
      omega
    · rw [if_neg hreq]
      simpa [hreq] using hget
  · rw [if_neg hall]
    have hone : 0 + (if a = requestorIP then 1 else 0) < MAX_ORDER := by
      split <;> decide
    exact iff_of_true hone fun h => hall h.2.1

theorem schedulableNodes_eq {s lost : List Str} {ip : Str → Nat}
    (hnodes : ∀ b ∈ s, ip b ∈ order) :
    schedulableNodes (startOrder order requestorIP) s lost ip =
      spareNodes order s lost ip requestorIP := by
  refine List.filter_congr fun a ha => decide_eq_decide.2 ?_
  rcases List.mem_map.1 ha with ⟨b, hb, rfl⟩
  have hin := hnodes b (List.mem_filter.1 hb).1
  rw [and_iff_right (mem_startOrder hin), startOrder_lt_iff hin]

/-- The counters stay below what fits into the code's integers. -/
theorem startOrder_le (a : Nat) : (startOrder order requestorIP).getD a 0 ≤ MAX_ORDER := by
  by_cases ha : a ∈ order
  · by_cases hlt : (startOrder order requestorIP).getD a 0 < MAX_ORDER
    · exact hlt.le
    · have hlimit := not_not.1 (mt (startOrder_lt_iff ha).2 hlt)
      rw [getD_startOrder, if_pos hlimit.2.1, if_pos hlimit.1, hlimit.1]
      exact hlimit.2.2.le
  · rw [getD_startOrder, TreeMap.getD_eq_fallback ha]
    split <;> split <;> decide

end Counters

section Request

variable {conf : RepairConfig} {base : MetadataBase} {s lost : List Str} {ip : Str → Nat}
  {status : Status} {blkName : Str} {requestorIP : Nat}

/-- What a request that comes through returns, and what it leaves. -/
theorem fairChoice_of_eq_some (hbase : base.HoldsStripe conf.toConfig s ip)
    (hstatus : IsStatus status s lost) (hb : blkName ∈ s) (hnodes : ∀ b ∈ s, ip b ∈ base.order)
    {setVal : BlkSet} {base' : MetadataBase} :
    getScheduledBlks conf base blkName requestorIP status (base.stripeBlks blkName) =
        some (setVal, base') →
      FairChoice conf s lost ip (startOrder base.order requestorIP) setVal base'.order ∧
        (∀ a ∈ base.order, a ∈ base'.order) ∧ (∀ a, base'.order.getD a 0 ≤ MAX_ORDER) ∧
        ∃ order, base' = { base with order := order } := by
  intro h
  rcases getScheduledBlks_spec hbase hstatus hb h with ⟨hhelpers, hsame⟩
  have hdistinct : (schedulableNodes (startOrder base.order requestorIP) s lost ip).Nodup :=
    (hbase.nodes.sublist (List.filter_sublist.map ip)).filter _
  rcases Option.map_eq_some_iff.1 h with ⟨st, hst, heq⟩
  rcases Prod.ext_iff.1 heq with ⟨rfl, rfl⟩
  rcases scheduleLoop_takes conf.ecK ⟨∅, ∅, startOrder base.order requestorIP⟩ hdistinct
    (mem_schedulableNodes_iff hbase hstatus hb) hst with
    ⟨chosen, hlen, hchosen, hin, hearlier, hset, hcount, hkeys⟩
  have hmem : ∀ p, p ∈ st.setVal ↔ ∃ a ∈ chosen,
      p = (a, (base.ip2BlkNames.getD (base.blkName2StripeId.getD blkName 0) ∅).getD a []) := by
    intro p
    rw [hset]
    simp
  have hfst : (st.setVal.toList.map Prod.fst).Perm chosen := by
    refine (List.perm_ext_iff_of_nodup ?_ hchosen).2 fun a => ?_
    · refine List.Nodup.map_on ?_ (Tree.set_toList_nodup _)
      intro p hp q hq hpq
      rcases (hmem p).1 (TreeSet.mem_toList.1 hp) with ⟨a, _, rfl⟩
      rcases (hmem q).1 (TreeSet.mem_toList.1 hq) with ⟨c, _, rfl⟩
      rw [show a = c from hpq]
    · rw [List.mem_map]
      constructor
      · rintro ⟨p, hp, rfl⟩
        rcases (hmem p).1 (TreeSet.mem_toList.1 hp) with ⟨a, ha, rfl⟩
        exact ha
      · intro ha
        exact ⟨_, TreeSet.mem_toList.2 ((hmem _).2 ⟨a, ha, rfl⟩), rfl⟩
  refine ⟨?_, fun a ha => hkeys a (mem_startOrder ha), fun a => ?_, hsame⟩
  rotate_left
  · -- a node that is selected was below the limit
    show st.order.getD a 0 ≤ MAX_ORDER
    rw [hcount]
    by_cases ha : a ∈ chosen
    · rw [if_pos ha]
      exact (of_decide_eq_true (List.mem_filter.1 (hin a ha)).2).2
    · rw [if_neg ha]
      exact startOrder_le a
  constructor
  case size =>
    rw [← hlen, ← hfst.length_eq, List.length_map]
  case distinct =>
    refine List.Nodup.map_on ?_ (Tree.set_toList_nodup _)
    intro p hp q hq hpq
    have hpnode := (hhelpers.mem p (TreeSet.mem_toList.1 hp)).2.2
    have hqnode := (hhelpers.mem q (TreeSet.mem_toList.1 hq)).2.2
    exact Prod.ext (by rw [hpnode, hqnode, hpq]) hpq
  case survive =>
    exact hhelpers.mem
  case least =>
    intro p hp b hb' hnot
    have hpin : p.1 ∈ chosen := hfst.mem_iff.1 (List.mem_map_of_mem (TreeSet.mem_toList.2 hp))
    have hbs := (List.mem_filter.1 hb').1
    by_cases hspare : ip b ∈ schedulableNodes (startOrder base.order requestorIP) s lost ip
    · have hbnot : ip b ∉ chosen := by
        intro hbin
        have hentry := (hmem _).2 ⟨ip b, hbin, rfl⟩
        have hsurvive := hhelpers.mem _ hentry
        have hname : b = (base.ip2BlkNames.getD (base.blkName2StripeId.getD blkName 0) ∅).getD
            (ip b) [] := List.inj_on_of_nodup_map hbase.nodes hbs hsurvive.1 hsurvive.2.2
        rw [← hname] at hentry
        exact hnot hentry
      rcases hearlier p.1 hpin (ip b) hspare hbnot with hlt | heq
      · exact hlt.le
      · exact heq.1.le
    · -- only the requestor's counter can be at the limit
      have hplt := (of_decide_eq_true (List.mem_filter.1 (hin p.1 hpin)).2).2
      refine hplt.le.trans (Nat.not_lt.1 fun hlt => hspare ?_)
      exact List.mem_filter.2 ⟨List.mem_map_of_mem hb',
        decide_eq_true ⟨mem_startOrder (hnodes b hbs), hlt⟩⟩
  case counted =>
    intro a
    have hiff : a ∈ st.setVal.toList.map Prod.fst ↔ a ∈ chosen := hfst.mem_iff
    simp only [hiff]
    exact hcount a

end Request

/-! ## Many requests -/

/-- What requests lead to, whatever their stripes, losses and requestors, as long as none of them
makes the coordinator exit. -/
inductive Scheduled (conf : RepairConfig) (stripes : List (List Str)) (base : MetadataBase) :
    MetadataBase → Prop
  | loaded : Scheduled conf stripes base base
  | request {cur next : MetadataBase} {s lost : List Str} {status : Status} {blkName : Str}
      {requestorIP : Nat} {setVal : BlkSet} :
      Scheduled conf stripes base cur → s ∈ stripes → IsStatus status s lost → blkName ∈ s →
      getScheduledBlks conf cur blkName requestorIP status (cur.stripeBlks blkName) =
        some (setVal, next) →
      Scheduled conf stripes base next

/-- The stripes are held, all of their nodes have counters, and no counter is above the limit. -/
structure Serving (conf : Config) (stripes : List (List Str)) (ip : Str → Nat)
    (base : MetadataBase) : Prop where
  holds : ∀ s ∈ stripes, base.HoldsStripe conf s ip
  nodes : ∀ s ∈ stripes, ∀ b ∈ s, ip b ∈ base.order
  limit : ∀ a, base.order.getD a 0 ≤ MAX_ORDER

section Runs

variable {conf : RepairConfig} {rsu : RSUtil} {stripes : List (List Str)}
  {dir : List (Str × Str)} {blkInit : List (Nat × Str)} {base cur : MetadataBase}
  {ip : Str → Nat}

theorem serving_of_load (hk : 1 ≤ conf.ecK) (hkn : conf.ecK < conf.ecN)
    (hsched : conf.msscheduling = true) (hdir : IsStore conf.toConfig stripes dir)
    (hrep : ∀ s ∈ stripes, Reported blkInit s ip) :
    hdfsMetadataBase conf rsu dir blkInit = some base →
      Serving conf.toConfig stripes ip base := by
  intro hload
  have hstart := hdfsMetadataBase_uncounted (Nat.lt_trans hk hkn) hdir hsched hload
  constructor
  case holds =>
    intro s hs
    exact hdfs_holdsStripe hk hkn hdir hs (hrep s hs) hload
  case nodes =>
    intro s hs b hb
    exact hstart.known b (ip b) ((hdfs_holdsStripe hk hkn hdir hs (hrep s hs) hload).place b hb)
  case limit =>
    intro a
    rw [hstart.zero a]
    exact Nat.zero_le _

/-- A request keeps the stripes and the nodes, and its counters stay at the limit or below. -/
theorem Serving.request {next : MetadataBase} {s lost : List Str} {status : Status}
    {blkName : Str} {requestorIP : Nat} {setVal : BlkSet}
    (h : Serving conf.toConfig stripes ip cur) (hs : s ∈ stripes)
    (hstatus : IsStatus status s lost) (hb : blkName ∈ s) :
    getScheduledBlks conf cur blkName requestorIP status (cur.stripeBlks blkName) =
        some (setVal, next) →
      Serving conf.toConfig stripes ip next := by
  intro hnext
  rcases fairChoice_of_eq_some (h.holds s hs) hstatus hb (h.nodes s hs) hnext with
    ⟨_, hkeys, hlimit, order, rfl⟩
  exact ⟨fun t ht => (h.holds t ht).withOrder order, fun t ht b hbt => hkeys _ (h.nodes t ht b hbt),
    hlimit⟩

theorem Scheduled.serving (hbase : Serving conf.toConfig stripes ip base) :
    Scheduled conf stripes base cur → Serving conf.toConfig stripes ip cur := by
  intro hcur
  induction hcur with
  | loaded =>
      exact hbase
  | request _ hs hstatus hb hnext ih =>
      exact ih.request hs hstatus hb hnext

/-- A request comes through when enough nodes are spare, and then its choice is fair. -/
theorem Serving.fair_iff {s lost : List Str} {status : Status} {blkName : Str}
    (h : Serving conf.toConfig stripes ip cur) (hs : s ∈ stripes)
    (hstatus : IsStatus status s lost) (hb : blkName ∈ s) (requestorIP : Nat) :
    (∃ setVal next, getScheduledBlks conf cur blkName requestorIP status
        (cur.stripeBlks blkName) = some (setVal, next) ∧
        FairChoice conf s lost ip (startOrder cur.order requestorIP) setVal next.order) ↔
      Schedulable conf.ecK conf.localIP (startOrder cur.order requestorIP)
        (spareNodes cur.order s lost ip requestorIP) := by
  rw [← schedulableNodes_eq (h.nodes s hs), ← getScheduledBlks_ne_none_iff (h.holds s hs) hstatus hb]
  constructor
  · rintro ⟨setVal, next, heq, _⟩ hnone
    rw [hnone] at heq
    cases heq
  · intro hne
    rcases Option.ne_none_iff_exists'.1 hne with ⟨⟨setVal, next⟩, heq⟩
    exact ⟨setVal, next, heq, (fairChoice_of_eq_some (h.holds s hs) hstatus hb (h.nodes s hs) heq).1⟩

end Runs

/-- After any requests, the next one comes through with a fair choice if, and only if, `ecK` nodes are
spare, and as many come before the coordinator's own should that be one of them. -/
theorem getScheduledBlks_fair_iff (conf : RepairConfig) (rsu : RSUtil) (hk : 1 ≤ conf.ecK)
    (hkn : conf.ecK < conf.ecN) (hsched : conf.msscheduling = true) (stripes : List (List Str))
    (dir : List (Str × Str)) (hdir : IsStore conf.toConfig stripes dir)
    (blkInit : List (Nat × Str)) (ip : Str → Nat) (hrep : ∀ s ∈ stripes, Reported blkInit s ip)
    (base : MetadataBase) (hload : hdfsMetadataBase conf rsu dir blkInit = some base)
    (cur : MetadataBase) (hcur : Scheduled conf stripes base cur) (s : List Str)
    (hs : s ∈ stripes) (lost : List Str) (status : Status) (hstatus : IsStatus status s lost)
    (blkName : Str) (hb : blkName ∈ s) (requestorIP : Nat) :
    (∃ setVal next, getScheduledBlks conf cur blkName requestorIP status
        (cur.stripeBlks blkName) = some (setVal, next) ∧
        FairChoice conf s lost ip (startOrder cur.order requestorIP) setVal next.order) ↔
      Schedulable conf.ecK conf.localIP (startOrder cur.order requestorIP)
        (spareNodes cur.order s lost ip requestorIP) :=
  (hcur.serving (serving_of_load hk hkn hsched hdir hrep hload)).fair_iff hs hstatus hb requestorIP

/-! Three copies, with the scheduler on. -/

def scheduledMirrorConf : RepairConfig :=
  { mirrorConf with msscheduling := true }

section Mirror

variable {base cur : MetadataBase}

theorem scheduledMirror_serving
    (hload : hdfsMetadataBase scheduledMirrorConf xorRSUtil xorDir xorInit = some base) :
    Serving scheduledMirrorConf.toConfig [xorStripe] xorIp base := by
  refine serving_of_load (by decide) (by decide) rfl mirror_isStore (fun s hs => ?_) hload
  rw [List.mem_singleton.1 hs]
  exact xorInit_reported

theorem mirrorStatus_isStatus (h : Serving scheduledMirrorConf.toConfig [xorStripe] xorIp cur)
    (lost : List Str) (hsub : ∀ b ∈ lost, b ∈ xorStripe) (hnodup : lost.Nodup) :
    IsStatus (requestStatus (cur.stripeBlks xorLost) lost) xorStripe lost :=
  requestStatus_isStatus xorLost
    (h.holds xorStripe (List.mem_singleton_self _)) (by decide) hsub hnodup

/-- While no counter is at the limit, the counters are not set back. -/
theorem getD_startOrder_of_lt (requestorIP : Nat) {t : Nat} (hle : ∀ a, cur.order.getD a 0 ≤ t)
    (ht : t < MAX_ORDER) :
    (∀ it ∈ cur.order.toList, it.2 < MAX_ORDER) ∧
      ∀ a, (startOrder cur.order requestorIP).getD a 0 =
        cur.order.getD a 0 + if a = requestorIP then 1 else 0 := by
  have hall : ∀ it ∈ cur.order.toList, it.2 < MAX_ORDER := by
    intro it hit
    have hget := hle it.1
    rw [TreeMap.getD_eq_getD_getElem?, TreeMap.mem_toList_iff_getElem?_eq_some.1 hit] at hget
    exact Nat.lt_of_le_of_lt hget ht
  refine ⟨hall, fun a => ?_⟩
  rw [getD_startOrder, if_pos hall]

theorem getScheduledBlks_fair_mirror :
    ∃ base, hdfsMetadataBase scheduledMirrorConf xorRSUtil xorDir xorInit = some base ∧
      ∃ setVal next, getScheduledBlks scheduledMirrorConf base xorLost 1
          (requestStatus (base.stripeBlks xorLost) [xorLost]) (base.stripeBlks xorLost) =
            some (setVal, next) ∧
        FairChoice scheduledMirrorConf xorStripe [xorLost] xorIp (startOrder base.order 1) setVal
          next.order := by
  rcases xor_load scheduledMirrorConf xorRSUtil (by decide) mirror_isStore with ⟨base, hload⟩
  refine ⟨base, hload, ?_⟩
  have hstatus := mirrorStatus_isStatus (scheduledMirror_serving hload) [xorLost] (by decide)
    (by decide)
  refine (getScheduledBlks_fair_iff scheduledMirrorConf xorRSUtil (by decide) (by decide) rfl
    [xorStripe] xorDir mirror_isStore xorInit xorIp (fun s hs => ?_) base hload base
    Scheduled.loaded xorStripe (List.mem_singleton_self _) [xorLost] _ hstatus xorLost (by decide)
    1).2 ⟨?_, fun hlocal => ?_⟩
  · rw [List.mem_singleton.1 hs]
    exact xorInit_reported
  · have hthird : 3 ∈ spareNodes base.order xorStripe [xorLost] xorIp 1 :=
      List.mem_filter.2 ⟨by decide, by simp⟩
    exact List.length_pos_of_mem hthird
  · exact absurd (List.mem_filter.1 hlocal).1 (by decide)

/-- Node 1 asks again and again, and the third copy helps each time. -/
theorem scheduled_mirror
    (hload : hdfsMetadataBase scheduledMirrorConf xorRSUtil xorDir xorInit = some base) (t : Nat) :
    t < MAX_ORDER → ∃ cur, Scheduled scheduledMirrorConf [xorStripe] base cur ∧
      cur.order.getD 1 0 = t ∧ cur.order.getD 3 0 = t ∧ ∀ a, cur.order.getD a 0 ≤ t := by
  induction t with
  | zero =>
      intro _
      have hstore : IsStore scheduledMirrorConf.toConfig [xorStripe] xorDir := mirror_isStore
      have hstart := hdfsMetadataBase_uncounted (by decide) hstore rfl hload
      exact ⟨base, Scheduled.loaded, hstart.zero 1, hstart.zero 3, fun a => (hstart.zero a).le⟩
  | succ t ih =>
      intro ht
      have ht' : t < MAX_ORDER := Nat.lt_of_succ_lt ht
      rcases ih ht' with ⟨cur, hcur, hfirst, hthird, hle⟩
      have hserving := hcur.serving (scheduledMirror_serving hload)
      have hs : xorStripe ∈ [xorStripe] := List.mem_singleton_self _
      have hstatus := mirrorStatus_isStatus hserving [xorLost] (by decide) (by decide)
      have hstart := (getD_startOrder_of_lt 1 hle ht').2
      have hspare : 3 ∈ spareNodes cur.order xorStripe [xorLost] xorIp 1 :=
        List.mem_filter.2 ⟨by decide, by simp⟩
      rcases (hserving.fair_iff hs hstatus (show xorLost ∈ xorStripe by decide) 1).2
        ⟨List.length_pos_of_mem hspare, fun hlocal =>
          absurd (List.mem_filter.1 hlocal).1 (by decide)⟩ with ⟨setVal, next, hnext, hfair⟩
      rcases List.length_eq_one_iff.1 hfair.size with ⟨p, hp⟩
      have hmem : ∀ q, q ∈ setVal ↔ q = p := by
        intro q
        rw [← TreeSet.mem_toList, hp, List.mem_singleton]
      -- the first copy is not chosen, for its counter is larger
      have hp3 : p.1 = 3 := by
        rcases hfair.survive p ((hmem p).2 rfl) with ⟨hps, hlost, hnode⟩
        have hnodes : ∀ b ∈ xorStripe, b ∉ [xorLost] → xorIp b = 1 ∨ xorIp b = 3 := by
          decide
        rcases hnodes p.2 hps hlost with hone | hthree
        · have hnot : (xorIp (xorStripe.getD 2 []), xorStripe.getD 2 []) ∉ setVal := by
            intro hin
            have hcopy : xorIp (xorStripe.getD 2 []) = p.1 :=
              congrArg Prod.fst ((hmem _).1 hin)
            rw [hnode, hone] at hcopy
            exact absurd hcopy (by decide)
          have hleast := hfair.least p ((hmem p).2 rfl) (xorStripe.getD 2 []) (by decide) hnot
          rw [show xorIp (xorStripe.getD 2 []) = 3 by decide, hnode, hone, hstart, hstart, hfirst,
            hthird] at hleast
          exact absurd hleast (by simp)
        · exact hnode.trans hthree
      have hcounted : ∀ a, next.order.getD a 0 =
          (cur.order.getD a 0 + if a = 1 then 1 else 0) + if a = 3 then 1 else 0 := by
        intro a
        have h := hfair.counted a
        rw [hstart, hp, List.map_singleton, hp3] at h
        simpa only [List.mem_singleton] using h
      refine ⟨next, hcur.request hs hstatus (by decide) hnext, ?_, ?_, fun a => ?_⟩
      · rw [hcounted, hfirst]
        rfl
      · rw [hcounted, hthird]
        rfl
      · have hlea := hle a
        rw [hcounted]
        split_ifs <;> omega

/-- Then the counter of node 1 comes to the limit, and its own copy, the last one, is not found. -/
theorem not_fair_mirror :
    ∃ base cur, hdfsMetadataBase scheduledMirrorConf xorRSUtil xorDir xorInit = some base ∧
      Scheduled scheduledMirrorConf [xorStripe] base cur ∧
      cur.order.getD 1 0 = MAX_ORDER - 1 ∧
      ∃ status, IsStatus status xorStripe [xorLost, xorStripe.getD 2 []] ∧
        ((survivors xorStripe [xorLost, xorStripe.getD 2 []]).filter fun b =>
          xorIp b ≠ scheduledMirrorConf.localIP).length = scheduledMirrorConf.ecK ∧
        getScheduledBlks scheduledMirrorConf cur xorLost 1 status (cur.stripeBlks xorLost) =
          none := by
  rcases xor_load scheduledMirrorConf xorRSUtil (by decide) mirror_isStore with ⟨base, hload⟩
  have hlast : MAX_ORDER - 1 < MAX_ORDER := by decide
  rcases scheduled_mirror hload _ hlast with ⟨cur, hcur, hfirst, _, hle⟩
  have hserving := hcur.serving (scheduledMirror_serving hload)
  have hs : xorStripe ∈ [xorStripe] := List.mem_singleton_self _
  have hstatus := mirrorStatus_isStatus hserving [xorLost, xorStripe.getD 2 []] (by decide)
    (by decide)
  refine ⟨base, cur, hload, hcur, hfirst, _, hstatus, by decide, ?_⟩
  by_contra hne
  have hschedulable := (getScheduledBlks_ne_none_iff (hserving.holds xorStripe hs) hstatus
    (show xorLost ∈ xorStripe by decide)).1 hne
  rw [schedulableNodes_eq (hserving.nodes xorStripe hs)] at hschedulable
  have hlimit : AtLimit cur.order 1 :=
    ⟨(getD_startOrder_of_lt 1 hle hlast).1, by rw [hfirst]; decide⟩
  have hnone : spareNodes cur.order xorStripe [xorLost, xorStripe.getD 2 []] xorIp 1 = [] := by
    refine List.filter_eq_nil_iff.2 fun a ha => ?_
    have hone : a = 1 := List.mem_singleton.1 (show a ∈ [1] from ha)
    simp [hone, hlimit]
  have hlen := hschedulable.1
  rw [hnone] at hlen
  exact absurd hlen (by decide)

end Mirror

end CoRD
