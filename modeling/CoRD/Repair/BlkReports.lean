import CoRD.Repair.Plan

/-!
# BlkReports — the order of the block reports

The nodes push their blocks to `blk_init` in any order, some more than once and some that belong to no
stripe.  The loop over these messages ends with the last block that it waits for, and what it has then
put into the tables depends on where the blocks are, but not on the order of the messages.
-/

namespace CoRD

open Std

/-! ## The loop -/

/-- The loop over the messages of `blk_init`, with the messages that stay in the queue; `none` while
it waits for another one. -/
def Described.popBlkInit (sched : Bool) :
    Described → List (Nat × Str) → Option (Described × List (Nat × Str))
  | _, [] => none
  | d, m :: ms =>
      if m.2 ∉ d.blks then d.popBlkInit sched ms
      else
        let d := d.report sched m
        if d.blks.isEmpty then some (d, ms) else d.popBlkInit sched ms

/-- Message `m` names a block that `d` waits for, the messages `before` it name all the others. -/
structure Described.LastReport (d : Described) (before : List (Nat × Str)) (m : Nat × Str) :
    Prop where
  awaited : m.2 ∈ d.blks
  first : m.2 ∉ before.map Prod.snd
  others : ∀ b ∈ d.blks, b ≠ m.2 → b ∈ before.map Prod.snd

/-- The tables that the reports fill, as they are listed. -/
def MetadataBase.reportTables (base : MetadataBase) :
    List (Str × List (Nat × Str)) × List (Str × Nat) × List (List (Nat × Str)) :=
  ((base.blk2Stripe.map fun _ helpers => helpers.toList).toList, base.blkName2Ip.toList,
    base.ip2BlkNames.map TreeMap.toList)

section Loop

variable {sched : Bool} {d : Described} {ms : List (Nat × Str)}

/-- Once every block is named, the loop ends, at the last block that is named for the first time. -/
theorem popBlkInit_eq (sched : Bool) (hne : ∃ b, b ∈ d.blks) :
    (∀ b ∈ d.blks, b ∈ ms.map Prod.snd) →
      ∃ before m rest, ms = before ++ m :: rest ∧ d.LastReport before m ∧
        d.popBlkInit sched ms = some (d.receive sched ms, rest) := by
  intro hall
  induction ms generalizing d with
  | nil =>
      rcases hne with ⟨b, hb⟩
      cases hall b hb
  | cons m ms ih =>
      by_cases hm : m.2 ∈ d.blks
      · by_cases hempty : (d.report sched m).blks.isEmpty = true
        · refine ⟨[], m, ms, rfl, ⟨hm, List.not_mem_nil, fun b hb hbm => ?_⟩, ?_⟩
          · exact absurd (mem_blks_report.2 ⟨hbm, hb⟩)
              (TreeSet.isEmpty_iff_forall_not_mem.1 hempty b)
          · simp [Described.popBlkInit, Described.receive, hm, hempty]
        · have hleft : ∃ b, b ∈ (d.report sched m).blks := by
            by_contra hnone
            exact hempty (TreeSet.isEmpty_iff_forall_not_mem.2 (not_exists.1 hnone))
          have hrest : ∀ b ∈ (d.report sched m).blks, b ∈ ms.map Prod.snd := by
            intro b hb
            rcases mem_blks_report.1 hb with ⟨hbm, hb⟩
            exact (List.mem_cons.1 (hall b hb)).resolve_left hbm
          rcases ih hleft hrest with ⟨before, m', rest, rfl, hlast, hloop⟩
          rcases mem_blks_report.1 hlast.awaited with ⟨hne', hawaited⟩
          refine ⟨m :: before, m', rest, rfl, ⟨hawaited, ?_, fun b hb hbm => ?_⟩, ?_⟩
          · rw [List.map_cons, List.mem_cons, not_or]
            exact ⟨hne', hlast.first⟩
          · by_cases heq : b = m.2
            · exact heq ▸ List.mem_cons_self
            · exact List.mem_cons_of_mem _ (hlast.others b (mem_blks_report.2 ⟨heq, hb⟩) hbm)
          · simp only [Described.popBlkInit, Described.receive, hm, not_true_eq_false, if_false,
              hempty, Bool.false_eq_true, hloop]
      · -- the block is unknown or has reported before
        have hrest : ∀ b ∈ d.blks, b ∈ ms.map Prod.snd := by
          intro b hb
          refine (List.mem_cons.1 (hall b hb)).resolve_left fun heq => hm ?_
          exact heq ▸ hb
        rcases ih hne hrest with ⟨before, m', rest, rfl, hlast, hloop⟩
        refine ⟨m :: before, m', rest, rfl, ⟨hlast.awaited, ?_, fun b hb hbm => ?_⟩, ?_⟩
        · rw [List.map_cons, List.mem_cons, not_or]
          exact ⟨fun heq => hm (heq ▸ hlast.awaited), hlast.first⟩
        · exact List.mem_cons_of_mem _ (hlast.others b hb hbm)
        · simp only [Described.popBlkInit, Described.receive, hm, not_false_eq_true, if_true, hloop]

end Loop

/-! ## What the reports put into the tables -/

section Keys

variable {sched : Bool} {d : Described} {it : Str}

theorem mem_keys_serve (base : MetadataBase) (holderIP : Nat) (blkName : Str) {its : List Str} :
    it ∈ (base.serve holderIP blkName its).blk2Stripe ↔ it ∈ base.blk2Stripe ∨ it ∈ its := by
  have h : ∀ m : TreeMap Str BlkSet,
      it ∈ its.foldl (fun m it => m.insert it ((m.getD it ∅).insert (holderIP, blkName))) m ↔
        it ∈ m ∨ it ∈ its := by
    induction its with
    | nil =>
        simp
    | cons a its ih =>
        intro m
        rw [List.foldl_cons, ih, TreeMap.mem_insert, LawfulEqCmp.compare_eq_iff_eq, List.mem_cons,
          eq_comm (a := a)]
        tauto
  exact h base.blk2Stripe

/-- A block is served once one of those that help to recover it has reported. -/
theorem mem_keys_foldl_report {proc : List (Nat × Str)} :
    it ∈ (proc.foldl (Described.report sched) d).base.blk2Stripe ↔
      it ∈ d.base.blk2Stripe ∨ ∃ p ∈ proc, it ∈ d.recoveree.getD p.2 [] := by
  induction proc generalizing d with
  | nil =>
      simp
  | cons m proc ih =>
      have hrec : (d.report sched m).recoveree = d.recoveree := rfl
      have hbase : (d.report sched m).base =
          (d.base.place sched m.1 m.2).serve m.1 m.2 (d.recoveree.getD m.2 []) := rfl
      rw [List.foldl_cons, ih, hrec, hbase, mem_keys_serve, place_blk2Stripe, or_assoc,
        List.exists_mem_cons_iff]

end Keys

/-- The tables as the reports leave them, by the nodes of the blocks. -/
structure Described.ReportedAs (d : Described) (conf : Config) (stripes : List (List Str))
    (ip : Str → Nat) (base : MetadataBase) : Prop where
  served : ∀ b, b ∈ base.blk2Stripe ↔ ∃ s ∈ stripes, b ∈ s
  helpers : ∀ s ∈ stripes, ∀ i (hi : i < s.length), ∀ p, p ∈ base.blk2Stripe.getD s[i] ∅ ↔
    p.2 ∈ helperNames conf s i ∧ p.1 = ip p.2
  place : ∀ b a, base.blkName2Ip[b]? = some a ↔ (∃ s ∈ stripes, b ∈ s) ∧ a = ip b
  length : base.ip2BlkNames.length = d.base.ip2BlkNames.length
  nodes : ∀ id < d.base.ip2BlkNames.length, ∀ a b,
    (base.ip2BlkNames.getD id ∅)[a]? = some b ↔ (d.base.ip2BlkNames.getD id ∅)[a]? = some b ∨
      (∃ s ∈ stripes, b ∈ s) ∧ d.base.blkName2StripeId[b]? = some id ∧ a = ip b

section Tables

variable {conf : RepairConfig} {rsu : RSUtil} {stripes : List (List Str)} {d : Described}
  {s : List Str} {sched : Bool} {blkInit : List (Nat × Str)} {ip : Str → Nat}

/-- Once its stripe has reported, a block is served by its helpers on their nodes. -/
theorem mem_blk2Stripe_receive {i : Nat} (hi : i < s.length) (hstripes : IsStripes conf.toConfig stripes)
    (hd : d.Describes conf.toConfig rsu stripes) (hs : s ∈ stripes) {p : Nat × Str} :
    Reported blkInit s ip →
      (p ∈ (d.receive sched blkInit).base.blk2Stripe.getD s[i] ∅ ↔
        p.2 ∈ helperNames conf.toConfig s i ∧ p.1 = ip p.2) := by
  intro hrep
  rcases receive_eq_foldl sched d blkInit with ⟨proc, hproc, hsub, _, _, hall⟩
  have hhelper : ∀ h, h ∈ helperNames conf.toConfig s i → h ∈ s := fun h hh =>
    (mem_helperNames (hstripes.stripe_nodup hs) (hstripes.length s hs) hi hh).1
  have hrec : s[i] ∈ d.recoveree.getD p.2 [] ↔ p.2 ∈ helperNames conf.toConfig s i := by
    rw [hd.recoveree]
    constructor
    · rintro ⟨t, ht, j, hj, heq, hh⟩
      rcases hstripes.row_eq hi ht hs (by rw [List.getElem?_eq_getElem hj, heq]) with ⟨rfl, rfl⟩
      exact hh
    · intro hh
      exact ⟨s, hs, i, hi, rfl, hh⟩
  rw [hproc, mem_blk2Stripe_foldl_report, hd.blk2Stripe, hrec]
  simp only [TreeMap.getD_emptyc, TreeSet.not_mem_emptyc, false_or]
  constructor
  · rintro ⟨hp, hh⟩
    exact ⟨hh, hrep.unique p.2 (hhelper _ hh) p.1 (hsub.subset hp)⟩
  · rintro ⟨hh, hnode⟩
    refine ⟨?_, hh⟩
    have hps := hhelper _ hh
    rcases List.mem_map.1 (hall p.2 ((hd.blks _).2 ⟨s, hs, hps⟩)
      ⟨ip p.2, hrep.reported _ hps⟩) with ⟨q, hq, heq⟩
    -- the message that counts is from the block's node
    have hqnode : q.1 = ip q.2 := hrep.unique q.2 (heq ▸ hps) q.1 (hsub.subset hq)
    have hpq : q = p := Prod.ext (by rw [hqnode, heq, hnode]) heq
    exact hpq ▸ hq

/-- What the reports put into the tables once all have come. -/
theorem reportedAs_receive (hk : 1 ≤ conf.ecK) (hkn : conf.ecK < conf.ecN)
    (hstripes : IsStripes conf.toConfig stripes) (hd : d.Describes conf.toConfig rsu stripes) :
    (∀ s ∈ stripes, Reported blkInit s ip) →
      d.ReportedAs conf.toConfig stripes ip (d.receive sched blkInit).base := by
  intro hrep
  have hholds : ∀ s ∈ stripes, (d.receive sched blkInit).base.HoldsStripe conf.toConfig s ip :=
    fun s hs => holdsStripe_receive hk hkn hstripes hd hs (hrep s hs)
  rcases receive_eq_foldl sched d blkInit with ⟨proc, hproc, _, _, hmem, _⟩
  have hsame : SameStripes d.base (d.receive sched blkInit).base :=
    hproc ▸ (foldl_report_sameStripes d proc).1
  constructor
  case served =>
    intro b
    constructor
    · intro hb
      rw [hproc, mem_keys_foldl_report, hd.blk2Stripe] at hb
      rcases hb with hb | ⟨p, _, hb⟩
      · exact absurd hb TreeMap.not_mem_emptyc
      · rcases (hd.recoveree _ _).1 hb with ⟨s, hs, i, hi, rfl, _⟩
        exact ⟨s, hs, List.getElem_mem hi⟩
    · rintro ⟨s, hs, hb⟩
      exact (hholds s hs).served b hb
  case helpers =>
    intro s hs i hi p
    exact mem_blk2Stripe_receive hi hstripes hd hs (hrep s hs)
  case place =>
    intro b a
    by_cases hb : ∃ s ∈ stripes, b ∈ s
    · rcases hb with ⟨s, hs, hb⟩
      rw [(hholds s hs).place b hb, Option.some.injEq, eq_comm]
      exact ⟨fun h => ⟨⟨s, hs, hb⟩, h⟩, And.right⟩
    · have hnot : b ∉ proc.map Prod.snd := by
        intro hin
        rcases List.mem_map.1 hin with ⟨p, hp, rfl⟩
        exact hb ((hd.blks _).1 (hmem p hp))
      rw [hproc, blkName2Ip_foldl_of_not_mem hnot, hd.blkName2Ip]
      simp [hb]
  case length =>
    rw [hproc, ip2BlkNames_length_foldl]
  case nodes =>
    intro id hid a b
    by_cases hused : ∃ s ∈ stripes, ∃ x ∈ s, d.base.blkName2StripeId[x]? = some id
    · rcases hused with ⟨s, hs, x, hx, hxid⟩
      rcases hd.stripe s hs with ⟨id', _, hempty, hids, _⟩
      have hid' : id' = id := Option.some.inj (((hids x).2 hx).symm.trans hxid)
      rw [hid'] at hempty hids
      rcases (hholds s hs).stripe with ⟨id'', _, hnames, _, hentries⟩
      have hid'' : id'' = id := by
        have hget := hnames x hx
        rw [hsame.blkName2StripeId, hxid] at hget
        exact (Option.some.inj hget).symm
      rw [hid''] at hentries
      rw [hentries, hempty, hids]
      simp only [TreeMap.getElem?_emptyc, reduceCtorEq, false_or]
      exact ⟨fun h => ⟨⟨s, hs, h.1⟩, h⟩, And.right⟩
    · -- no block of this number, so no report either
      have hnone : (proc.filter fun m => d.base.blkName2StripeId[m.2]? = some id) = [] := by
        refine List.filter_eq_nil_iff.2 fun m hm heq => hused ?_
        rcases (hd.blks _).1 (hmem m hm) with ⟨s, hs, hms⟩
        exact ⟨s, hs, m.2, hms, of_decide_eq_true heq⟩
      rw [hproc, ip2BlkNames_foldl_report sched proc hid, hnone]
      constructor
      · exact Or.inl
      · rintro (h | ⟨⟨s, hs, hb⟩, hbid, _⟩)
        · exact h
        · exact absurd ⟨s, hs, b, hb, hbid⟩ hused

/-- The nodes of the blocks determine the tables. -/
theorem Described.ReportedAs.reportTables_eq {base base' : MetadataBase}
    (h : d.ReportedAs conf.toConfig stripes ip base)
    (h' : d.ReportedAs conf.toConfig stripes ip base') :
    base.reportTables = base'.reportTables := by
  have hhelpers : (base.blk2Stripe.map fun _ helpers => helpers.toList).toList =
      (base'.blk2Stripe.map fun _ helpers => helpers.toList).toList := by
    refine Tree.toList_eq_of_getElem? fun b => ?_
    rw [TreeMap.getElem?_map, TreeMap.getElem?_map]
    by_cases hb : ∃ s ∈ stripes, b ∈ s
    · have hset : (base.blk2Stripe.getD b ∅).toList = (base'.blk2Stripe.getD b ∅).toList := by
        rcases hb with ⟨s, hs, hb⟩
        rcases List.mem_iff_getElem.1 hb with ⟨i, hi, rfl⟩
        refine (TreeSet.Equiv.of_forall_mem_iff fun p => ?_).toList_eq
        rw [h.helpers s hs i hi, h'.helpers s hs i hi]
      rw [TreeMap.getElem?_eq_some_getD ((h.served b).2 hb),
        TreeMap.getElem?_eq_some_getD ((h'.served b).2 hb)]
      exact congrArg some hset
    · rw [TreeMap.getElem?_eq_none (mt (h.served b).1 hb),
        TreeMap.getElem?_eq_none (mt (h'.served b).1 hb)]
  have hplaces : base.blkName2Ip.toList = base'.blkName2Ip.toList := by
    refine Tree.toList_eq_of_getElem? fun b => Option.ext fun a => ?_
    rw [h.place, h'.place]
  have hnodes : base.ip2BlkNames.map TreeMap.toList = base'.ip2BlkNames.map TreeMap.toList := by
    refine List.ext_getElem (by rw [List.length_map, List.length_map, h.length, h'.length]) ?_
    intro id hid hid'
    have hlt : id < d.base.ip2BlkNames.length := by
      rwa [List.length_map, h.length] at hid
    rw [List.getElem_map, List.getElem_map]
    refine Tree.toList_eq_of_getElem? fun a => Option.ext fun b => ?_
    have hget := h.nodes id hlt a b
    have hget' := h'.nodes id hlt a b
    rw [List.getD_eq_getElem _ _ (by rwa [List.length_map] at hid)] at hget
    rw [List.getD_eq_getElem _ _ (by rwa [List.length_map] at hid')] at hget'
    rw [hget, hget']
  exact congrArg₂ Prod.mk hhelpers (congrArg₂ Prod.mk hplaces hnodes)

end Tables

/-! ## Any order -/

/-- However the blocks on the nodes `ip` are reported, the loop ends with the last report that it
waits for; the tables are then the same, with the helpers of each block and all nodes of each
stripe. -/
structure Described.AnyOrder (d : Described) (conf : Config) (sched : Bool)
    (stripes : List (List Str)) (ip : Str → Nat) : Prop where
  awaits : ∀ b, b ∈ d.blks ↔ ∃ s ∈ stripes, b ∈ s
  reports : ∃ tables, ∀ blkInit, (∀ s ∈ stripes, Reported blkInit s ip) →
    ∃ before m rest d', blkInit = before ++ m :: rest ∧ d.LastReport before m ∧
      d.popBlkInit sched blkInit = some (d', rest) ∧ d'.base.reportTables = tables ∧
      ∀ s ∈ stripes,
        (∀ i (hi : i < s.length), (helperNames conf s i).length = conf.ecK ∧
          (d'.base.blk2Stripe.getD s[i] ∅).toList.Perm
            ((helperNames conf s i).map fun h => (ip h, h))) ∧
        ∃ stripeId, (∀ b ∈ s, d'.base.blkName2StripeId[b]? = some stripeId) ∧
          (d'.base.ip2BlkNames.getD stripeId ∅).toList.Perm (s.map fun b => (ip b, b))

section Order

variable {conf : RepairConfig} {rsu : RSUtil} {stripes : List (List Str)} {d : Described}
  {s : List Str} {sched : Bool} {blkInit : List (Nat × Str)} {ip : Str → Nat}

theorem toList_blk2Stripe_perm (sched : Bool) {i : Nat} (hi : i < s.length)
    (hstripes : IsStripes conf.toConfig stripes) (hd : d.Describes conf.toConfig rsu stripes)
    (hs : s ∈ stripes) :
    Reported blkInit s ip →
      ((d.receive sched blkInit).base.blk2Stripe.getD s[i] ∅).toList.Perm
        ((helperNames conf.toConfig s i).map fun h => (ip h, h)) := by
  intro hrep
  have hnodup := helperNames_nodup (hstripes.stripe_nodup hs) (hstripes.length s hs) hi
  refine (List.perm_ext_iff_of_nodup (Tree.set_toList_nodup _) ?_).2 fun p => ?_
  · exact hnodup.map fun h h' heq => congrArg Prod.snd heq
  · rw [TreeSet.mem_toList, mem_blk2Stripe_receive hi hstripes hd hs hrep, List.mem_map]
    constructor
    · rintro ⟨hp, hnode⟩
      exact ⟨p.2, hp, Prod.ext hnode.symm rfl⟩
    · rintro ⟨h, hh, rfl⟩
      exact ⟨hh, rfl⟩

theorem toList_ip2BlkNames_perm {base : MetadataBase}
    (hbase : base.HoldsStripe conf.toConfig s ip) :
    ∃ stripeId, (∀ b ∈ s, base.blkName2StripeId[b]? = some stripeId) ∧
      (base.ip2BlkNames.getD stripeId ∅).toList.Perm (s.map fun b => (ip b, b)) := by
  rcases hbase.stripe with ⟨id, _, hids, _, hentries⟩
  refine ⟨id, hids, Tree.toList_perm_of_getElem? ?_ fun a b => ?_⟩
  · exact hbase.nodup.map fun b b' heq => congrArg Prod.snd heq
  · rw [hentries, List.mem_map]
    constructor
    · rintro ⟨hb, rfl⟩
      exact ⟨b, hb, rfl⟩
    · rintro ⟨b', hb', heq⟩
      cases heq
      exact ⟨hb', rfl⟩

theorem Described.Describes.anyOrder (hk : 1 ≤ conf.ecK) (hkn : conf.ecK < conf.ecN)
    (hne : stripes ≠ []) (hstripes : IsStripes conf.toConfig stripes)
    (hd : d.Describes conf.toConfig rsu stripes) (sched : Bool) (ip : Str → Nat) :
    d.AnyOrder conf.toConfig sched stripes ip where
  awaits := hd.blks
  reports := by
    -- the tables of any one sequence of messages, should there be one
    by_cases hsome : ∃ blkInit, ∀ s ∈ stripes, Reported blkInit s ip
    · rcases hsome with ⟨one, hone⟩
      refine ⟨(d.receive sched one).base.reportTables, fun blkInit hrep => ?_⟩
      have hawaits : ∃ b, b ∈ d.blks := by
        rcases List.exists_mem_of_ne_nil stripes hne with ⟨s, hs⟩
        have hpos : 0 < s.length := by
          rw [hstripes.length s hs]
          exact Nat.lt_trans hk hkn
        exact ⟨s[0], (hd.blks _).2 ⟨s, hs, List.getElem_mem hpos⟩⟩
      have hall : ∀ b ∈ d.blks, b ∈ blkInit.map Prod.snd := by
        intro b hb
        rcases (hd.blks b).1 hb with ⟨s, hs, hbs⟩
        exact List.mem_map.2 ⟨_, (hrep s hs).reported b hbs, rfl⟩
      rcases popBlkInit_eq sched hawaits hall with
        ⟨before, m, rest, hsplit, hlast, hloop⟩
      refine ⟨before, m, rest, _, hsplit, hlast, hloop, ?_, fun s hs => ⟨fun i hi => ⟨?_, ?_⟩, ?_⟩⟩
      · exact (reportedAs_receive hk hkn hstripes hd hrep).reportTables_eq
          (reportedAs_receive hk hkn hstripes hd hone)
      · rw [helperNames, List.length_map,
          firstOthers_length conf.toConfig (hstripes.length s hs ▸ hi) hkn]
      · exact toList_blk2Stripe_perm sched hi hstripes hd hs (hrep s hs)
      · exact toList_ip2BlkNames_perm (holdsStripe_receive hk hkn hstripes hd hs (hrep s hs))
    · exact ⟨d.base.reportTables, fun blkInit hrep => absurd ⟨blkInit, hrep⟩ hsome⟩

end Order

/-- In `HDFS_MetadataBase` and in `HDFS3_MetadataBase`, the order of the reports does not matter. -/
theorem blkInit_anyOrder (conf : RepairConfig) (rsu : RSUtil) (hk : 1 ≤ conf.ecK)
    (hkn : conf.ecK < conf.ecN) (stripes : List (List Str)) (hne : stripes ≠ []) (ip : Str → Nat) :
    (∀ dir, IsStore conf.toConfig stripes dir →
      ∃ d, readStripeStore conf.toConfig rsu dir = some d ∧
        d.AnyOrder conf.toConfig conf.msscheduling stripes ip) ∧
    ∀ cmdResult, IsFsck conf.toConfig stripes cmdResult →
      ∃ d, readFsck conf.toConfig rsu cmdResult = some d ∧
        d.AnyOrder conf.toConfig false stripes ip := by
  constructor
  · intro dir hdir
    rcases readStripeStore_describes rsu (Nat.lt_trans hk hkn) hdir with ⟨d, hread, hd⟩
    exact ⟨d, hread, hd.anyOrder hk hkn hne hdir.isStripes _ ip⟩
  · intro cmdResult hfsck
    rcases readFsck_describes rsu hkn.le hfsck with ⟨d, hread, hd⟩
    exact ⟨d, hread, hd.anyOrder hk hkn hne hfsck.isStripes _ ip⟩

/-- The small store, with its reports in their order and the other way round. -/
theorem blkInit_anyOrder_xor :
    ∃ d, readStripeStore xorConf xorRSUtil xorDir = some d ∧
      d.AnyOrder xorConf false [xorStripe] xorIp ∧
      ∃ rest rest' d₁ d₂, d.popBlkInit false xorInit = some (d₁, rest) ∧
        d.popBlkInit false xorInit.reverse = some (d₂, rest') ∧
        d₁.base.reportTables = d₂.base.reportTables := by
  rcases (blkInit_anyOrder xorRepairConf xorRSUtil (by decide) (by decide) [xorStripe]
    (List.cons_ne_nil _ _) xorIp).1 xorDir xorDir_isStore with ⟨d, hread, horder⟩
  refine ⟨d, hread, horder, ?_⟩
  have hforth : ∀ s ∈ [xorStripe], Reported xorInit s xorIp := by
    intro s hs
    rw [List.mem_singleton.1 hs]
    exact xorInit_reported
  have hback : ∀ s ∈ [xorStripe], Reported xorInit.reverse s xorIp := by
    intro s hs
    have hs' := hforth s hs
    exact ⟨fun b hb => List.mem_reverse.2 (hs'.reported b hb),
      fun b hb a ha => hs'.unique b hb a (List.mem_reverse.1 ha), hs'.nodes⟩
  rcases horder.reports with ⟨tables, hall⟩
  rcases hall xorInit hforth with ⟨_, _, rest, d₁, _, _, hloop, htables, _⟩
  rcases hall xorInit.reverse hback with ⟨_, _, rest', d₂, _, _, hloop', htables', _⟩
  exact ⟨rest, rest', d₁, d₂, hloop, hloop', htables.trans htables'.symm⟩

end CoRD
