import CoRD.Repair.Decoding

/-!
# Plan — which helpers repair which lost blocks

`getStripeBlksMul` selects `ecK` helpers for all lost blocks of a stripe and returns them by node.
It is modelled as the coordinators call it: with a status, and with `opt == 0`.  A result of `none`
stands for `exit(1)`.
-/

namespace CoRD

open Std

/-- The status of the blocks of a stripe: 0 lost, 1 there, 2 selected. -/
abbrev Status := TreeMap Str Int

/-- For each node a block that it repairs, with the helpers. -/
abbrev Plan := TreeMap Nat (Str × List (Nat × Str))

/-- The order of `pair<string, unsigned int>`. -/
def revCmp (a b : Str × Nat) : Ordering :=
  compareLex (compareOn Prod.fst) (compareOn Prod.snd) a b

instance : TransCmp revCmp :=
  inferInstanceAs (TransCmp (compareLex (compareOn (Prod.fst : Str × Nat → Str))
    (compareOn (Prod.snd : Str × Nat → Nat))))

instance : LawfulEqCmp revCmp where
  eq_of_compare {a b} h := by
    simp only [revCmp, compareLex, compareOn, Ordering.then_eq_eq, Std.compare_eq_iff_eq] at h
    exact Prod.ext h.1 h.2
  compare_self {a} := by
    simp [revCmp, compareLex, compareOn]

/-! ## Scheduling -/

def MAX_ORDER : Nat := 0x1000000

/-- The locals of `getScheduledBlks`; `order` is the member `_order`. -/
structure Scheduling where
  setVal : BlkSet
  usedIP : TreeSet Nat
  order : TreeMap Nat Nat

/-- The node that has helped least: the loop over `_order`, on `selectedIP` and `order`. -/
def selectIP (statusInIP : TreeMap Nat Int) (usedIP : TreeSet Nat) (order : TreeMap Nat Nat) :
    Option Nat :=
  (order.toList.foldl
    (fun (st : Option Nat × Nat) it =>
      if statusInIP.getD it.1 0 = 0 ∨ it.1 ∈ usedIP then st
      else if it.2 < st.2 then (some it.1, it.2) else st) (none, MAX_ORDER)).1

/-- The `while` loop, for the number of helpers that are missing: each turn adds one or exits. -/
def scheduleLoop (conf : RepairConfig) (ip2BlkName : TreeMap Nat Str)
    (statusInIP : TreeMap Nat Int) : Nat → Scheduling → Option Scheduling
  | 0, st => some st
  | n + 1, st =>
      match selectIP statusInIP st.usedIP st.order with
      | none => none
      | some selectedIP =>
          if selectedIP = conf.localIP then none
          else scheduleLoop conf ip2BlkName statusInIP n
            { setVal := st.setVal.insert (selectedIP, ip2BlkName.getD selectedIP [])
              usedIP := st.usedIP.insert selectedIP
              order := st.order.insert selectedIP (st.order.getD selectedIP 0 + 1) }

def getScheduledBlks (conf : RepairConfig) (base : MetadataBase) (blkName : Str)
    (requestorIP : Nat) (status : Status) (allStripeBlks : BlkSet) :
    Option (BlkSet × MetadataBase) :=
  let stripeId := base.blkName2StripeId.getD blkName 0
  let statusInIP : TreeMap Nat Int :=
    allStripeBlks.toList.foldl (fun m it => m.insert it.1 (status.getD it.2 0)) ∅
  -- the orders are reset if they are too large
  let order :=
    if base.order.toList.any fun it => MAX_ORDER ≤ it.2 then base.order.map fun _ _ => 0
    else base.order
  let order := order.insert requestorIP (order.getD requestorIP 0 + 1)
  (scheduleLoop conf (base.ip2BlkNames.getD stripeId ∅) statusInIP conf.ecK
    ⟨∅, ∅, order⟩).map fun st => (st.setVal, { base with order := st.order })

/-! ## The plan -/

/-- The blocks of the stripe sorted by name. -/
def allStripeBlksReverse (allStripeBlks : BlkSet) : TreeSet (Str × Nat) revCmp :=
  Tree.addAll (allStripeBlks.toList.map Prod.swap) ∅

/-- `ret[ip] = {name, vec}` for each lost block that `want` asks for. -/
def planLost (base : MetadataBase) (status : Status) (vec : List (Nat × Str)) (want : Str → Bool)
    (ret : Plan) : Plan :=
  status.toList.foldl
    (fun ret it =>
      if it.2 = 0 ∧ want it.1 then ret.insert (base.blkName2Ip.getD it.1 0) (it.1, vec)
      else ret) ret

/-- The helpers that `HDFS_MetadataBase` selects. -/
def Hdfs.selectHelpers (conf : RepairConfig) (base : MetadataBase) (blkName : Str)
    (requestorIP : Nat) (status : Status) : Option (BlkSet × MetadataBase) :=
  let numOfFailed := (status.toList.filter fun it => it.2 = 0).length
  let allStripeBlks := base.stripeBlks blkName
  if conf.msscheduling then getScheduledBlks conf base blkName requestorIP status allStripeBlks
  else if numOfFailed = 1 then
    some (Tree.addUpTo conf.ecK (fun it => status.getD it.2 0 ≠ 0)
      ((allStripeBlksReverse allStripeBlks).toList.map Prod.swap) ∅, base)
  else
    some (Tree.addUpTo conf.ecK (fun it => it.1 ≠ requestorIP ∧ status.getD it.2 0 ≠ 0)
      allStripeBlks.toList ∅, base)

/-- `HDFS_MetadataBase::getStripeBlksMul`. -/
def Hdfs.getStripeBlksMul (conf : RepairConfig) (base : MetadataBase) (blkName : Str)
    (requestorIP : Nat) (status : Status) : Option (Plan × MetadataBase) :=
  if blkName ∈ base.blkName2StripeId ∧
      base.blkName2StripeId.getD blkName 0 < base.ip2BlkNames.length then
    match Hdfs.selectHelpers conf base blkName requestorIP status with
    | none => none
    | some (setVal, base) =>
        if setVal.size < conf.ecK then none
        else
          let vec := setVal.toList
          some (planLost base status vec (· ≠ blkName)
            ((∅ : Plan).insert requestorIP (blkName, vec)), base)
  else none

/-- `HDFS3_MetadataBase::getStripeBlksMul`. -/
def Hdfs3.getStripeBlksMul (conf : RepairConfig) (base : MetadataBase) (blkName : Str)
    (requestorIP : Nat) (status : Status) : Option Plan :=
  let failed := status.toList.filter fun it => it.2 = 0
  if blkName ∈ base.blk2Stripe ∧
      base.blkName2StripeId.getD blkName 0 < base.ip2BlkNames.length then
    let allStripeBlks := base.stripeBlks blkName
    let setVal : BlkSet := Tree.addUpTo conf.ecK
      (fun it => it.1 ≠ requestorIP ∧ status.getD it.2 0 ≠ 0) allStripeBlks.toList ∅
    if setVal.size < conf.ecK then some ∅
    else
      let vec := setVal.toList
      let ret := planLost base status vec (fun _ => true) ∅
      if failed.length ≠ ret.size then none else some ret
  else none

/-- The coordinator marks the helpers it is about to use. -/
def markHelpers (status : Status) (stripe : List (Nat × Str)) : Status :=
  stripe.foldl (fun m it => m.insert it.2 2) (status.map fun _ v => if v ≠ 0 then 1 else v)

/-! ## Stripes on their nodes -/

/-- The tables know the stripe `s`, each block of it alone on its node. -/
structure MetadataBase.HoldsStripe (base : MetadataBase) (conf : Config) (s : List Str)
    (ip : Str → Nat) : Prop where
  length : s.length = conf.ecN
  nodup : s.Nodup
  nodes : (s.map ip).Nodup
  row : ∀ i (hi : i < s.length), base.blkIdInStripe[s[i]]? = some i
  stripe : ∃ id < base.ip2BlkNames.length, (∀ b ∈ s, base.blkName2StripeId[b]? = some id) ∧
    (∀ i (hi : i < s.length), (base.id2BlkNames.getD id ∅)[i]? = some s[i]) ∧
    ∀ a b, (base.ip2BlkNames.getD id ∅)[a]? = some b ↔ b ∈ s ∧ a = ip b
  place : ∀ b ∈ s, base.blkName2Ip[b]? = some (ip b)
  served : ∀ b ∈ s, b ∈ base.blk2Stripe

/-- The blocks of the stripe have reported, each from one node. -/
structure Reported (blkInit : List (Nat × Str)) (s : List Str) (ip : Str → Nat) : Prop where
  reported : ∀ b ∈ s, (ip b, b) ∈ blkInit
  unique : ∀ b ∈ s, ∀ a, (a, b) ∈ blkInit → a = ip b
  nodes : (s.map ip).Nodup

section Holds

variable {conf : RepairConfig} {rsu : RSUtil} {stripes : List (List Str)}
  {d : Described} {s : List Str} {sched : Bool} {blkInit : List (Nat × Str)} {ip : Str → Nat}

/-- Once its blocks have reported, a described stripe is held. -/
theorem holdsStripe_receive (hk : 1 ≤ conf.ecK) (hkn : conf.ecK < conf.ecN)
    (hstripes : IsStripes conf.toConfig stripes) (hd : d.Describes conf.toConfig rsu stripes)
    (hs : s ∈ stripes) :
    Reported blkInit s ip →
      (d.receive sched blkInit).base.HoldsStripe conf.toConfig s ip := by
  intro hrep
  obtain ⟨proc, hproc, hsub, hnodup, hmem, hall⟩ := receive_eq_foldl sched d blkInit
  have hsame : SameStripes d.base (d.receive sched blkInit).base :=
    hproc ▸ (foldl_report_sameStripes d proc).1
  have hlen := hstripes.length s hs
  obtain ⟨id, hid, hempty, hids, hnames⟩ := hd.stripe s hs
  -- the messages that count are those of the blocks' nodes
  have hin : ∀ b ∈ s, (ip b, b) ∈ proc := by
    intro b hb
    obtain ⟨p, hp, rfl⟩ := List.mem_map.1
      (hall b ((hd.blks b).2 ⟨s, hs, hb⟩) ⟨ip b, hrep.reported b hb⟩)
    have hip := hrep.unique p.2 hb p.1 (hsub.subset hp)
    rwa [← hip]
  have hown : ∀ p ∈ proc, p.2 ∈ s → p.1 = ip p.2 := fun p hp hps =>
    hrep.unique p.2 hps p.1 (hsub.subset hp)
  constructor
  case length =>
    exact hlen
  case nodup =>
    exact hstripes.stripe_nodup hs
  case nodes =>
    exact hrep.nodes
  case row =>
    intro i hi
    rw [hsame.blkIdInStripe]
    exact hd.row s hs i hi
  case stripe =>
    have hplaces := ip2BlkNames_foldl_report sched proc hid
    have hfilter : ∀ p, p ∈ proc.filter (fun m => d.base.blkName2StripeId[m.2]? = some id) ↔
        p ∈ proc ∧ p.2 ∈ s := by
      intro p
      rw [List.mem_filter, decide_eq_true_eq, hids]
    have hkeys : ((proc.filter fun m => d.base.blkName2StripeId[m.2]? = some id).map
        Prod.fst).Nodup := by
      refine List.Nodup.map_on ?_ ((hnodup.of_map _).filter _)
      intro p hp q hq heq
      obtain ⟨hp, hps⟩ := (hfilter p).1 hp
      obtain ⟨hq, hqs⟩ := (hfilter q).1 hq
      have hnode : ip p.2 = ip q.2 := by rw [← hown p hp hps, ← hown q hq hqs, heq]
      exact Prod.ext heq (List.inj_on_of_nodup_map hrep.nodes hps hqs hnode)
    refine ⟨id, ?_, ?_, ?_, ?_⟩
    · rw [hproc, ip2BlkNames_length_foldl]
      exact hid
    · intro b hb
      rw [hsame.blkName2StripeId]
      exact (hids b).2 hb
    · intro i hi
      rw [hsame.id2BlkNames]
      exact hnames i hi
    · intro a b
      rw [hproc, hplaces, hempty, Tree.getElem?_insertAll_empty hkeys, hfilter]
      constructor
      · rintro ⟨hp, hb⟩
        exact ⟨hb, hown _ hp hb⟩
      · rintro ⟨hb, rfl⟩
        exact ⟨hin b hb, hb⟩
  case place =>
    intro b hb
    rw [hproc]
    refine blkName2Ip_foldl_report hnodup ?_ ?_ (hin b hb)
    · rw [hd.blkName2Ip]
      exact TreeMap.not_mem_emptyc
    · rw [TreeMap.mem_iff_isSome_getElem?, (hids b).2 hb]
      rfl
  case served =>
    intro b hb
    obtain ⟨i, hi, rfl⟩ := List.mem_iff_getElem.1 hb
    -- its first helper serves it
    have hfirst : 0 < (helperNames conf.toConfig s i).length := by
      rw [helperNames, List.length_map, firstOthers_length conf.toConfig (hlen ▸ hi) hkn]
      exact hk
    have hhelper := List.getElem_mem hfirst
    have hhs := (mem_helperNames (hstripes.stripe_nodup hs) hlen hi hhelper).1
    have hserve : (ip _, _) ∈
        (proc.foldl (Described.report sched) d).base.blk2Stripe.getD s[i] ∅ :=
      (mem_blk2Stripe_foldl_report d s[i]).2
        (Or.inr ⟨hin _ hhs, (hd.recoveree _ _).2 ⟨s, hs, i, hi, rfl, hhelper⟩⟩)
    rw [hproc]
    by_contra hnot
    rw [TreeMap.getD_eq_fallback hnot] at hserve
    exact TreeSet.not_mem_emptyc hserve

end Holds

/-! ## What is selected -/

/-- The status when the blocks `lost` of the stripe `s` are lost. -/
structure IsStatus (status : Status) (s lost : List Str) : Prop where
  get : ∀ b, status[b]? = if b ∈ s then some (if b ∈ lost then 0 else 1) else none
  subset : ∀ b ∈ lost, b ∈ s
  nodup : lost.Nodup

/-- Surviving blocks on their nodes, at most `k`. -/
structure AreHelpers (s lost : List Str) (ip : Str → Nat) (k : Nat) (setVal : BlkSet) : Prop where
  mem : ∀ p ∈ setVal, p.2 ∈ s ∧ p.2 ∉ lost ∧ p.1 = ip p.2
  size : setVal.size ≤ k

section Select

variable {conf : RepairConfig} {base : MetadataBase} {s lost : List Str} {ip : Str → Nat}
  {status : Status} {blkName : Str} {requestorIP : Nat}

/-- The coordinators set the status of the block that they ask for once more. -/
theorem IsStatus.insert_zero {b : Str} (h : IsStatus status s lost) (hb : b ∈ lost) :
    IsStatus (status.insert b 0) s lost := by
  refine ⟨fun c => ?_, h.subset, h.nodup⟩
  rw [TreeMap.getElem?_insert, h.get]
  by_cases hc : compare b c = .eq
  · obtain rfl := LawfulEqCmp.compare_eq_iff_eq.1 hc
    rw [if_pos hc, if_pos (h.subset _ hb), if_pos hb]
  · rw [if_neg hc]

theorem IsStatus.getD_ne_zero_iff {b : Str} (h : IsStatus status s lost) :
    b ∈ s → (status.getD b 0 ≠ 0 ↔ b ∉ lost) := by
  intro hb
  rw [TreeMap.getD_eq_getD_getElem?, h.get, if_pos hb]
  by_cases hl : b ∈ lost
  · simp [hl]
  · simp [hl]

/-- The lost blocks, as a loop over the status meets them. -/
theorem IsStatus.failed_perm (h : IsStatus status s lost) :
    (status.toList.filter fun it => it.2 = 0).Perm (lost.map fun b => (b, 0)) := by
  have hzero : (lost.map fun b => (b, (0 : Int))).Nodup :=
    h.nodup.map fun a b heq => congrArg Prod.fst heq
  refine (List.perm_ext_iff_of_nodup ((Tree.toList_nodup status).filter _) hzero).2 fun p => ?_
  obtain ⟨b, v⟩ := p
  rw [List.mem_filter, TreeMap.mem_toList_iff_getElem?_eq_some, h.get, List.mem_map,
    decide_eq_true_eq]
  constructor
  · rintro ⟨hget, rfl⟩
    by_cases hs : b ∈ s
    · rw [if_pos hs] at hget
      by_cases hl : b ∈ lost
      · exact ⟨b, hl, rfl⟩
      · rw [if_neg hl] at hget
        exact absurd (Option.some.inj hget) one_ne_zero
    · rw [if_neg hs] at hget
      cases hget
  · rintro ⟨c, hc, heq⟩
    obtain ⟨rfl, rfl⟩ := Prod.ext_iff.1 heq
    exact ⟨by rw [if_pos (h.subset _ hc), if_pos hc], rfl⟩

theorem mem_stripeBlks (hbase : base.HoldsStripe conf.toConfig s ip) {p : Nat × Str} :
    blkName ∈ s → (p ∈ base.stripeBlks blkName ↔ p.2 ∈ s ∧ p.1 = ip p.2) := by
  intro hb
  obtain ⟨id, _, hids, _, hplaces⟩ := hbase.stripe
  have hid : base.blkName2StripeId.getD blkName 0 = id := by
    rw [TreeMap.getD_eq_getD_getElem?, hids blkName hb]
    rfl
  rw [MetadataBase.stripeBlks, hid, Tree.mem_addAll, TreeMap.mem_toList_iff_getElem?_eq_some,
    hplaces]
  simp

/-- The loops that add survivors until there are enough. -/
theorem areHelpers_addUpTo {ok : Nat × Str → Bool} {l : List (Nat × Str)} (hl : l.Nodup)
    (hmem : ∀ p ∈ l, p.2 ∈ s ∧ p.1 = ip p.2) (hok : ∀ p ∈ l, ok p = true → p.2 ∉ lost) :
    AreHelpers s lost ip conf.ecK (Tree.addUpTo conf.ecK ok l ∅) where
  mem := by
    intro p hp
    have hperm : (Tree.addUpTo conf.ecK ok l (∅ : BlkSet)).toList.Perm
        ((l.filter ok).take conf.ecK) := Tree.toList_addUpTo_empty hl
    have hin := hperm.mem_iff.1 (TreeSet.mem_toList.2 hp)
    obtain ⟨hpl, hpok⟩ := List.mem_filter.1 (List.mem_of_mem_take hin)
    exact ⟨(hmem p hpl).1, hok p hpl hpok, (hmem p hpl).2⟩
  size := by
    have hperm : (Tree.addUpTo conf.ecK ok l (∅ : BlkSet)).toList.Perm
        ((l.filter ok).take conf.ecK) := Tree.toList_addUpTo_empty hl
    rw [← TreeSet.length_toList, hperm.length_eq]
    exact List.length_take_le _ _

/-- The node that is selected has a status and is not used. -/
theorem selectIP_spec {statusInIP : TreeMap Nat Int} {usedIP : TreeSet Nat}
    {order : TreeMap Nat Nat} {selectedIP : Nat} :
    selectIP statusInIP usedIP order = some selectedIP →
      statusInIP.getD selectedIP 0 ≠ 0 ∧ selectedIP ∉ usedIP := by
  have hfold : ∀ (l : List (Nat × Nat)) (st : Option Nat × Nat),
      (∀ a, st.1 = some a → statusInIP.getD a 0 ≠ 0 ∧ a ∉ usedIP) →
        ∀ a, (l.foldl
          (fun (st : Option Nat × Nat) it =>
            if statusInIP.getD it.1 0 = 0 ∨ it.1 ∈ usedIP then st
            else if it.2 < st.2 then (some it.1, it.2) else st) st).1 = some a →
          statusInIP.getD a 0 ≠ 0 ∧ a ∉ usedIP := by
    intro l
    induction l with
    | nil =>
        intro st hst
        exact hst
    | cons it l ih =>
        intro st hst
        rw [List.foldl_cons]
        apply ih
        intro a
        split_ifs with hskip hlt
        · exact hst a
        · intro heq
          obtain rfl := Option.some.inj heq
          exact not_or.1 hskip
        · exact hst a
  exact hfold order.toList (none, MAX_ORDER) (fun a h => by cases h) selectedIP

/-- What the loop of the scheduler adds. -/
theorem scheduleLoop_spec {ip2BlkName : TreeMap Nat Str} {statusInIP : TreeMap Nat Int} {n : Nat}
    (st : Scheduling) {st' : Scheduling} {P : Nat × Str → Prop}
    (hP : ∀ a, statusInIP.getD a 0 ≠ 0 → P (a, ip2BlkName.getD a []))
    (hused : ∀ p ∈ st.setVal, p.1 ∈ st.usedIP) (hst : ∀ p ∈ st.setVal, P p) :
    scheduleLoop conf ip2BlkName statusInIP n st = some st' →
      st'.setVal.size = st.setVal.size + n ∧ ∀ p ∈ st'.setVal, P p := by
  induction n generalizing st with
  | zero =>
      intro h
      obtain rfl := Option.some.inj h
      exact ⟨rfl, hst⟩
  | succ n ih =>
      intro h
      rw [scheduleLoop] at h
      cases hsel : selectIP statusInIP st.usedIP st.order with
      | none =>
          rw [hsel] at h
          cases h
      | some a =>
          rw [hsel] at h
          simp only at h
          -- the node of the coordinator itself ends the loop without an answer
          by_cases hlocal : a = conf.localIP
          · rw [if_pos hlocal] at h
            cases h
          · rw [if_neg hlocal] at h
            obtain ⟨hstatus, hnew⟩ := selectIP_spec hsel
            -- the address is new, so the pair is
            have hnot : (a, ip2BlkName.getD a []) ∉ st.setVal := fun hmem => hnew (hused _ hmem)
            have hcases : ∀ p, p ∈ st.setVal.insert (a, ip2BlkName.getD a []) ↔
                p = (a, ip2BlkName.getD a []) ∨ p ∈ st.setVal := by
              intro p
              rw [TreeSet.mem_insert, LawfulEqCmp.compare_eq_iff_eq, eq_comm]
            obtain ⟨hsize, hall⟩ := ih ⟨_, _, _⟩
              (by
                intro p hp
                rw [TreeSet.mem_insert, LawfulEqCmp.compare_eq_iff_eq]
                rcases (hcases p).1 hp with rfl | hold
                · exact Or.inl rfl
                · exact Or.inr (hused p hold))
              (by
                intro p hp
                rcases (hcases p).1 hp with rfl | hold
                · exact hP a hstatus
                · exact hst p hold) h
            refine ⟨?_, hall⟩
            rw [hsize, TreeSet.size_insert, if_neg fun hc => hnot (TreeSet.mem_iff_contains.2 hc)]
            omega

theorem stripeBlks_keys_nodup (hbase : base.HoldsStripe conf.toConfig s ip) :
    blkName ∈ s → ((base.stripeBlks blkName).toList.map Prod.fst).Nodup := by
  intro hb
  refine List.Nodup.map_on ?_ (Tree.set_toList_nodup _)
  intro p hp q hq heq
  obtain ⟨hps, hpip⟩ := (mem_stripeBlks hbase hb).1 (TreeSet.mem_toList.1 hp)
  obtain ⟨hqs, hqip⟩ := (mem_stripeBlks hbase hb).1 (TreeSet.mem_toList.1 hq)
  have hname : p.2 = q.2 := List.inj_on_of_nodup_map hbase.nodes hps hqs
    (by rw [← hpip, ← hqip, heq])
  exact Prod.ext heq hname

theorem getScheduledBlks_spec {setVal : BlkSet} {base' : MetadataBase}
    (hbase : base.HoldsStripe conf.toConfig s ip) (hstatus : IsStatus status s lost)
    (hb : blkName ∈ s) :
    getScheduledBlks conf base blkName requestorIP status (base.stripeBlks blkName) =
        some (setVal, base') →
      AreHelpers s lost ip conf.ecK setVal ∧ ∃ order, base' = { base with order := order } := by
  intro h
  obtain ⟨id, _, hids, _, hplaces⟩ := hbase.stripe
  have hid : base.blkName2StripeId.getD blkName 0 = id := by
    rw [TreeMap.getD_eq_getD_getElem?, hids blkName hb]
    rfl
  obtain ⟨st, hst, heq⟩ := Option.map_eq_some_iff.1 h
  obtain ⟨rfl, rfl⟩ := Prod.ext_iff.1 heq
  -- a node with a status is the node of a survivor
  have hnode : ∀ a, ((base.stripeBlks blkName).toList.foldl
      (fun (m : TreeMap Nat Int) it => m.insert it.1 (status.getD it.2 0)) ∅).getD a 0 ≠ 0 →
      (base.ip2BlkNames.getD id ∅).getD a [] ∈ s ∧
        (base.ip2BlkNames.getD id ∅).getD a [] ∉ lost ∧
        a = ip ((base.ip2BlkNames.getD id ∅).getD a []) := by
    intro a ha
    have hfold : ((base.stripeBlks blkName).toList.foldl
        (fun (m : TreeMap Nat Int) it => m.insert it.1 (status.getD it.2 0)) ∅) =
        Tree.writeAll ((base.stripeBlks blkName).toList.map
          fun it => (it.1, status.getD it.2 0)) ∅ := by
      rw [Tree.writeAll, List.foldl_map]
    have hkeys : (((base.stripeBlks blkName).toList.map
        fun it => (it.1, status.getD it.2 0)).map Prod.fst).Nodup := by
      rw [List.map_map]
      exact stripeBlks_keys_nodup hbase hb
    rw [hfold, TreeMap.getD_eq_getD_getElem?] at ha
    have hsome : (Tree.writeAll ((base.stripeBlks blkName).toList.map
        fun it => (it.1, status.getD it.2 0)) (∅ : TreeMap Nat Int))[a]? ≠ none := by
      intro hnone
      rw [hnone] at ha
      exact ha rfl
    obtain ⟨v, hv⟩ := Option.ne_none_iff_exists'.1 hsome
    rw [hv] at ha
    rw [Tree.getElem?_writeAll hkeys] at hv
    obtain ⟨p, hp, hpv⟩ := List.mem_map.1 (hv.resolve_right (by simp))
    obtain ⟨rfl, rfl⟩ := Prod.ext_iff.1 hpv
    obtain ⟨hps, hpip⟩ := (mem_stripeBlks hbase hb).1 (TreeSet.mem_toList.1 hp)
    have hname : (base.ip2BlkNames.getD id ∅).getD p.1 [] = p.2 := by
      rw [TreeMap.getD_eq_getD_getElem?, (hplaces p.1 p.2).2 ⟨hps, hpip⟩]
      rfl
    rw [hname]
    exact ⟨hps, (hstatus.getD_ne_zero_iff hps).1 ha, hpip⟩
  rw [hid] at hst
  have hspec := scheduleLoop_spec ⟨_, _, _⟩
    (P := fun p => p.2 ∈ s ∧ p.2 ∉ lost ∧ p.1 = ip p.2) hnode
    (fun p hp => absurd hp TreeSet.not_mem_emptyc) (fun p hp => absurd hp TreeSet.not_mem_emptyc)
    hst
  refine ⟨⟨hspec.2, ?_⟩, _, rfl⟩
  rw [hspec.1]
  simp

/-- Whatever way they are selected, the helpers survive. -/
theorem selectHelpers_spec {setVal : BlkSet} {base' : MetadataBase}
    (hbase : base.HoldsStripe conf.toConfig s ip) (hstatus : IsStatus status s lost)
    (hb : blkName ∈ s) :
    Hdfs.selectHelpers conf base blkName requestorIP status = some (setVal, base') →
      AreHelpers s lost ip conf.ecK setVal ∧ ∃ order, base' = { base with order := order } := by
  intro h
  have hmem : ∀ p, p ∈ base.stripeBlks blkName ↔ p.2 ∈ s ∧ p.1 = ip p.2 :=
    fun p => mem_stripeBlks hbase hb
  unfold Hdfs.selectHelpers at h
  simp only at h
  split_ifs at h with hsched hsingle
  · -- several stripes are scheduled
    exact getScheduledBlks_spec hbase hstatus hb h
  · -- one block is lost: the survivors by name
    obtain ⟨rfl, rfl⟩ := Prod.ext_iff.1 (Option.some.inj h)
    have hin : ∀ p, p ∈ (allStripeBlksReverse (base.stripeBlks blkName)).toList.map Prod.swap →
        p ∈ base.stripeBlks blkName := by
      intro p hp
      obtain ⟨q, hq, rfl⟩ := List.mem_map.1 hp
      rw [TreeSet.mem_toList, allStripeBlksReverse, Tree.mem_addAll] at hq
      obtain ⟨r, hr, rfl⟩ := List.mem_map.1 (hq.resolve_right TreeSet.not_mem_emptyc)
      exact TreeSet.mem_toList.1 hr
    refine ⟨areHelpers_addUpTo ?_ (fun p hp => (hmem p).1 (hin p hp)) ?_, base.order, rfl⟩
    · exact (Tree.set_toList_nodup _).map Prod.swap_injective
    · intro p hp hok
      rw [decide_eq_true_eq] at hok
      exact (hstatus.getD_ne_zero_iff ((hmem p).1 (hin p hp)).1).1 hok
  · -- several blocks are lost: the survivors by node, without the requestor
    obtain ⟨rfl, rfl⟩ := Prod.ext_iff.1 (Option.some.inj h)
    refine ⟨areHelpers_addUpTo (Tree.set_toList_nodup _)
      (fun p hp => (hmem p).1 (TreeSet.mem_toList.1 hp)) ?_, base.order, rfl⟩
    intro p hp hok
    rw [decide_eq_true_eq] at hok
    exact (hstatus.getD_ne_zero_iff ((hmem p).1 (TreeSet.mem_toList.1 hp)).1).1 hok.2

/-- The entries for lost blocks. -/
theorem getElem?_planLost {vec : List (Nat × Str)} {want : Str → Bool} {ret : Plan} {a : Nat}
    {e : Str × List (Nat × Str)} (hbase : base.HoldsStripe conf.toConfig s ip)
    (hstatus : IsStatus status s lost) :
    (planLost base status vec want ret)[a]? = some e ↔
      (∃ b ∈ lost, want b = true ∧ a = ip b ∧ e = (b, vec)) ∨
      (∀ b ∈ lost, want b = true → a ≠ ip b) ∧ ret[a]? = some e := by
  let wanted : List (Str × Int) := (status.toList.filter fun it => it.2 = 0).filter
    fun it => want it.1
  have hfold : planLost base status vec want ret =
      Tree.writeAll (wanted.map fun it => (base.blkName2Ip.getD it.1 0, (it.1, vec))) ret := by
    simp only [planLost, Tree.writeAll, List.foldl_map, wanted, List.filter_filter,
      List.foldl_filter, Bool.and_eq_true, decide_eq_true_eq, and_comm]
  have hwanted : ∀ p, p ∈ wanted ↔ p.1 ∈ lost ∧ p.2 = 0 ∧ want p.1 = true := by
    intro p
    rw [List.mem_filter, hstatus.failed_perm.mem_iff, List.mem_map]
    constructor
    · rintro ⟨⟨b, hb, rfl⟩, hw⟩
      exact ⟨hb, rfl, hw⟩
    · rintro ⟨hb, hzero, hw⟩
      exact ⟨⟨p.1, hb, Prod.ext rfl hzero.symm⟩, hw⟩
  have hip : ∀ b ∈ lost, base.blkName2Ip.getD b 0 = ip b := by
    intro b hb
    rw [TreeMap.getD_eq_getD_getElem?, hbase.place b (hstatus.subset b hb)]
    rfl
  -- no two lost blocks are on one node, so no entry is written twice
  have hkeys : ((wanted.map fun it => (base.blkName2Ip.getD it.1 0, (it.1, vec))).map
      Prod.fst).Nodup := by
    rw [List.map_map]
    refine List.Nodup.map_on ?_ (((Tree.toList_nodup status).filter _).filter _)
    intro p hp q hq heq
    obtain ⟨hpl, hpz, _⟩ := (hwanted p).1 hp
    obtain ⟨hql, hqz, _⟩ := (hwanted q).1 hq
    simp only [Function.comp_apply, hip _ hpl, hip _ hql] at heq
    have hname := List.inj_on_of_nodup_map hbase.nodes (hstatus.subset _ hpl)
      (hstatus.subset _ hql) heq
    exact Prod.ext hname (hpz.trans hqz.symm)
  rw [hfold, Tree.getElem?_writeAll hkeys]
  refine or_congr ?_ (and_congr_left fun _ => ?_)
  · rw [List.mem_map]
    constructor
    · rintro ⟨p, hp, heq⟩
      obtain ⟨hpl, _, hw⟩ := (hwanted p).1 hp
      obtain ⟨ha, he⟩ := Prod.ext_iff.1 heq
      exact ⟨p.1, hpl, hw, ha.symm.trans (hip _ hpl), he.symm⟩
    · rintro ⟨b, hb, hw, rfl, rfl⟩
      exact ⟨(b, 0), (hwanted _).2 ⟨hb, rfl, hw⟩, by rw [hip b hb]⟩
  · rw [List.map_map, List.mem_map]
    constructor
    · intro hnot b hb hw ha
      exact hnot ⟨(b, 0), (hwanted _).2 ⟨hb, rfl, hw⟩, (hip b hb).trans ha.symm⟩
    · rintro hall ⟨p, hp, ha⟩
      obtain ⟨hpl, _, hw⟩ := (hwanted p).1 hp
      exact hall p.1 hpl hw (ha.symm.trans (hip _ hpl))

end Select

/-! ## What the metadata bases return -/

section Returns

variable {conf : RepairConfig} {base : MetadataBase} {s lost : List Str} {ip : Str → Nat}
  {status : Status} {blkName : Str} {requestorIP : Nat}

theorem MetadataBase.HoldsStripe.withOrder (order : TreeMap Nat Nat)
    (h : base.HoldsStripe conf.toConfig s ip) :
    ({ base with order := order } : MetadataBase).HoldsStripe conf.toConfig s ip :=
  ⟨h.length, h.nodup, h.nodes, h.row, h.stripe, h.place, h.served⟩

/-- The selected helpers, as the vector of a plan: `ecK` of them, and a node and its block determine
each other. -/
theorem AreHelpers.vec {setVal : BlkSet} (hset : AreHelpers s lost ip conf.ecK setVal)
    (hbase : base.HoldsStripe conf.toConfig s ip) :
    ¬ setVal.size < conf.ecK → setVal.toList.length = conf.ecK ∧
      (setVal.toList.map Prod.fst).Nodup ∧ (setVal.toList.map Prod.snd).Nodup := by
  intro hsize
  have hmem : ∀ p ∈ setVal.toList, p.2 ∈ s ∧ p.2 ∉ lost ∧ p.1 = ip p.2 :=
    fun p hp => hset.mem p (TreeSet.mem_toList.1 hp)
  refine ⟨?_, ?_, ?_⟩
  · rw [TreeSet.length_toList]
    exact Nat.le_antisymm hset.size (Nat.le_of_not_lt hsize)
  · refine List.Nodup.map_on ?_ (Tree.set_toList_nodup _)
    intro p hp q hq heq
    have hip : ip p.2 = ip q.2 := by rw [← (hmem p hp).2.2, ← (hmem q hq).2.2, heq]
    exact Prod.ext heq (List.inj_on_of_nodup_map hbase.nodes (hmem p hp).1 (hmem q hq).1 hip)
  · refine List.Nodup.map_on ?_ (Tree.set_toList_nodup _)
    intro p hp q hq heq
    exact Prod.ext (by rw [(hmem p hp).2.2, (hmem q hq).2.2, heq]) heq

/-- What `HDFS_MetadataBase` returns. -/
theorem hdfs_getStripeBlksMul_cases {plan : Plan} {base' : MetadataBase}
    (hbase : base.HoldsStripe conf.toConfig s ip) (hstatus : IsStatus status s lost)
    (hb : blkName ∈ lost) :
    Hdfs.getStripeBlksMul conf base blkName requestorIP status = some (plan, base') →
      ∃ setVal, AreHelpers s lost ip conf.ecK setVal ∧ ¬ setVal.size < conf.ecK ∧
        base'.HoldsStripe conf.toConfig s ip ∧
        plan = planLost base' status setVal.toList (· ≠ blkName)
          ((∅ : Plan).insert requestorIP (blkName, setVal.toList)) := by
  intro h
  rw [Hdfs.getStripeBlksMul] at h
  by_cases hknown : blkName ∈ base.blkName2StripeId ∧
      base.blkName2StripeId.getD blkName 0 < base.ip2BlkNames.length
  · rw [if_pos hknown] at h
    cases hsel : Hdfs.selectHelpers conf base blkName requestorIP status with
    | none =>
        rw [hsel] at h
        cases h
    | some sel =>
        obtain ⟨setVal, base₁⟩ := sel
        rw [hsel] at h
        simp only at h
        by_cases hsize : setVal.size < conf.ecK
        · rw [if_pos hsize] at h
          cases h
        · rw [if_neg hsize] at h
          obtain ⟨hset, order, heq⟩ :=
            selectHelpers_spec hbase hstatus (hstatus.subset _ hb) hsel
          have hbase₁ : base₁.HoldsStripe conf.toConfig s ip :=
            heq ▸ hbase.withOrder order
          cases h
          exact ⟨setVal, hset, hsize, hbase₁, rfl⟩
  · rw [if_neg hknown] at h
    cases h

/-- The helpers that `HDFS3_MetadataBase` selects: survivors on other nodes than the requestor. -/
def Hdfs3.setVal (conf : RepairConfig) (base : MetadataBase) (blkName : Str) (requestorIP : Nat)
    (status : Status) : BlkSet :=
  Tree.addUpTo conf.ecK (fun it => it.1 ≠ requestorIP ∧ status.getD it.2 0 ≠ 0)
    (base.stripeBlks blkName).toList ∅

/-- What `HDFS3_MetadataBase` returns. -/
theorem hdfs3_getStripeBlksMul_cases {plan : Plan} (hbase : base.HoldsStripe conf.toConfig s ip)
    (hstatus : IsStatus status s lost) (hb : blkName ∈ lost) (hne : plan.isEmpty = false) :
    Hdfs3.getStripeBlksMul conf base blkName requestorIP status = some plan →
      ∃ setVal, AreHelpers s lost ip conf.ecK setVal ∧ ¬ setVal.size < conf.ecK ∧
        plan = planLost base status setVal.toList (fun _ => true) ∅ := by
  intro h
  have hmem : ∀ p, p ∈ base.stripeBlks blkName ↔ p.2 ∈ s ∧ p.1 = ip p.2 :=
    fun p => mem_stripeBlks hbase (hstatus.subset _ hb)
  have hset : AreHelpers s lost ip conf.ecK
      (Hdfs3.setVal conf base blkName requestorIP status) := by
    refine areHelpers_addUpTo (Tree.set_toList_nodup _)
      (fun p hp => (hmem p).1 (TreeSet.mem_toList.1 hp)) ?_
    intro p hp hok
    rw [decide_eq_true_eq] at hok
    exact (hstatus.getD_ne_zero_iff ((hmem p).1 (TreeSet.mem_toList.1 hp)).1).1 hok.2
  unfold Hdfs3.getStripeBlksMul at h
  simp only at h
  split_ifs at h with hknown hsize hcount
  · obtain rfl := Option.some.inj h
    simp at hne
  · exact ⟨_, hset, hsize, (Option.some.inj h).symm⟩

/-- The entries of an HDFS plan: lost blocks, all with the same helpers. -/
theorem hdfs_plan_entry {vec : List (Nat × Str)} {a : Nat} {e : Str × List (Nat × Str)}
    (hbase : base.HoldsStripe conf.toConfig s ip) (hstatus : IsStatus status s lost)
    (hb : blkName ∈ lost) :
    (planLost base status vec (· ≠ blkName)
      ((∅ : Plan).insert requestorIP (blkName, vec)))[a]? = some e →
      e.2 = vec ∧ e.1 ∈ lost := by
  intro he
  rw [getElem?_planLost hbase hstatus] at he
  rcases he with ⟨c, hc, _, _, rfl⟩ | ⟨_, hret⟩
  · exact ⟨rfl, hc⟩
  · rw [TreeMap.getElem?_insert] at hret
    by_cases ha : compare requestorIP a = .eq
    · rw [if_pos ha] at hret
      obtain rfl := Option.some.inj hret
      exact ⟨rfl, hb⟩
    · rw [if_neg ha] at hret
      simp at hret

/-- The entries of an HDFS3 plan. -/
theorem hdfs3_plan_entry {vec : List (Nat × Str)} {a : Nat} {e : Str × List (Nat × Str)}
    (hbase : base.HoldsStripe conf.toConfig s ip) (hstatus : IsStatus status s lost) :
    (planLost base status vec (fun _ => true) ∅)[a]? = some e → e.2 = vec ∧ e.1 ∈ lost := by
  intro he
  rw [getElem?_planLost hbase hstatus] at he
  rcases he with ⟨c, hc, _, _, rfl⟩ | ⟨_, hret⟩
  · exact ⟨rfl, hc⟩
  · simp at hret

/-- The blocks of a stripe with their nodes. -/
theorem stripeBlks_perm (hbase : base.HoldsStripe conf.toConfig s ip) (hb : blkName ∈ s) :
    (base.stripeBlks blkName).toList.Perm (s.map fun b => (ip b, b)) := by
  refine (List.perm_ext_iff_of_nodup (Tree.set_toList_nodup _) ?_).2 fun p => ?_
  · exact hbase.nodup.map fun a b heq => congrArg Prod.snd heq
  · rw [TreeSet.mem_toList, mem_stripeBlks hbase hb, List.mem_map]
    constructor
    · rintro ⟨hp, hip⟩
      exact ⟨p.2, hp, Prod.ext hip.symm rfl⟩
    · rintro ⟨b, hb, rfl⟩
      exact ⟨hb, rfl⟩

end Returns

/-! ## The status of a request -/

/-- The status that a request leaves: all blocks of the stripe there, those it names lost. -/
def requestStatus (allBlks : BlkSet) (lostFiles : List Str) : Status :=
  lostFiles.foldl (fun m b => m.insert b 0)
    (allBlks.toList.foldl (fun (m : Status) it => m.insert it.2 1) ∅)

theorem getElem?_foldl_insert {β γ : Type} (l : List β) (name : β → Str) (v : γ)
    {m : TreeMap Str γ} {b : Str} :
    (l.foldl (fun m it => m.insert (name it) v) m)[b]? =
      if b ∈ l.map name then some v else m[b]? := by
  induction l generalizing m with
  | nil =>
      simp
  | cons a l ih =>
      rw [List.foldl_cons, ih, TreeMap.getElem?_insert, List.map_cons]
      by_cases hl : b ∈ l.map name
      · rw [if_pos hl, if_pos (List.mem_cons_of_mem _ hl)]
      · by_cases ha : b = name a
        · subst ha
          rw [if_neg hl, if_pos (LawfulEqCmp.compare_eq_iff_eq.2 rfl), if_pos (by simp)]
        · rw [if_neg hl, if_neg fun hc => ha (LawfulEqCmp.compare_eq_iff_eq.1 hc).symm,
            if_neg fun hc => (List.mem_cons.1 hc).elim ha hl]

theorem requestStatus_isStatus {conf : RepairConfig} {base : MetadataBase} {s lost : List Str}
    {ip : Str → Nat} (blkName : Str) (hbase : base.HoldsStripe conf.toConfig s ip)
    (hb : blkName ∈ s) (hsub : ∀ b ∈ lost, b ∈ s) (hnodup : lost.Nodup) :
    IsStatus (requestStatus (base.stripeBlks blkName) lost) s lost where
  get := by
    intro b
    have hall : b ∈ (base.stripeBlks blkName).toList.map Prod.snd ↔ b ∈ s := by
      rw [((stripeBlks_perm hbase hb).map Prod.snd).mem_iff, List.map_map, List.mem_map]
      simp
    have hlost := getElem?_foldl_insert lost (fun b => b) 0
      (m := (base.stripeBlks blkName).toList.foldl (fun (m : Status) it => m.insert it.2 1) ∅)
      (b := b)
    rw [requestStatus, hlost, getElem?_foldl_insert]
    simp only [List.map_id', hall]
    by_cases hl : b ∈ lost
    · rw [if_pos hl, if_pos (hsub b hl), if_pos hl]
    · rw [if_neg hl]
      by_cases hs : b ∈ s <;> simp [hs, hl]
  subset := hsub
  nodup := hnodup

/-! ## Loaded metadata bases -/

section Loaded

variable {conf : RepairConfig} {rsu : RSUtil} {stripes : List (List Str)}
  {blkInit : List (Nat × Str)} {s : List Str} {ip : Str → Nat} {base : MetadataBase}

theorem hdfs_holdsStripe {dir : List (Str × Str)} (hk : 1 ≤ conf.ecK) (hkn : conf.ecK < conf.ecN)
    (hdir : IsStore conf.toConfig stripes dir) (hs : s ∈ stripes) (hrep : Reported blkInit s ip) :
    hdfsMetadataBase conf rsu dir blkInit = some base → base.HoldsStripe conf.toConfig s ip := by
  intro hload
  obtain ⟨d, hread, hd⟩ := readStripeStore_describes rsu (Nat.lt_trans hk hkn) hdir
  rw [hdfsMetadataBase, hread] at hload
  obtain rfl := Option.some.inj hload
  exact holdsStripe_receive hk hkn hdir.isStripes hd hs hrep

theorem hdfs3_holdsStripe {cmdResult : Str} (hk : 1 ≤ conf.ecK) (hkn : conf.ecK < conf.ecN)
    (hfsck : IsFsck conf.toConfig stripes cmdResult) (hs : s ∈ stripes)
    (hrep : Reported blkInit s ip) :
    hdfs3MetadataBase conf rsu cmdResult blkInit = some base →
      base.HoldsStripe conf.toConfig s ip := by
  intro hload
  obtain ⟨d, hread, hd⟩ := readFsck_describes rsu hkn.le hfsck
  rw [hdfs3MetadataBase, hread] at hload
  obtain rfl := Option.some.inj hload
  exact holdsStripe_receive hk hkn hfsck.isStripes hd hs hrep

end Loaded

/-! The stripe of the small store, with the first data block lost. -/

/-- The node of a block. -/
def xorIp (b : Str) : Nat :=
  xorStripe.idxOf b + 1

def xorInit : List (Nat × Str) :=
  xorStripe.map fun b => (xorIp b, b)

theorem xorInit_reported : Reported xorInit xorStripe xorIp where
  reported := fun b hb => List.mem_map.2 ⟨b, hb, rfl⟩
  unique := by
    intro b _ a ha
    obtain ⟨c, _, heq⟩ := List.mem_map.1 ha
    cases heq
    rfl
  nodes := by decide

theorem xor_load (conf : RepairConfig) (rsu : RSUtil) (hn : 0 < conf.ecN)
    (hdir : IsStore conf.toConfig [xorStripe] xorDir) :
    ∃ base, hdfsMetadataBase conf rsu xorDir xorInit = some base := by
  obtain ⟨d, hread, _⟩ := readStripeStore_describes rsu hn hdir
  refine ⟨(d.receive conf.msscheduling xorInit).base, ?_⟩
  rw [hdfsMetadataBase, hread]
  rfl

def xorLost : Str :=
  xorStripe.getD 1 []

/-- Three copies of one block. -/
def mirrorConf : RepairConfig where
  ecK := 1
  ecN := 3
  blocksize := 1
  blocksize_le := Config.one_le
  rackInfos := ∅
  shuffle := false
  msscheduling := false
  localIP := 0

theorem mirror_isStore : IsStore mirrorConf.toConfig [xorStripe] xorDir :=
  ⟨⟨xorStripes_isStripes.length, xorStripes_isStripes.nodup⟩, xorDir_isStore.files⟩

end CoRD
