import CoRD.Repair.RSUtil
import CoRD.Util.Tree

/-!
# Metadata — the tables of a metadata base

Where each block lies, which row of its stripe it is, and how it is decoded from others.  The
tables are filled in two steps: first from the description of the stripes, then from the block
reports of the nodes.  The two metadata bases describe stripes differently and share the rest.

A map that is read at a missing key gives the default of its type, as `operator[]` does.
-/

namespace CoRD

open Std

/-- `string`s, as their bytes. -/
abbrev Str := List Char

/-- The order of `pair<unsigned int, string>`. -/
def blkCmp (a b : Nat × Str) : Ordering :=
  compareLex (compareOn Prod.fst) (compareOn Prod.snd) a b

instance : TransCmp blkCmp :=
  inferInstanceAs (TransCmp (compareLex (compareOn (Prod.fst : Nat × Str → Nat))
    (compareOn (Prod.snd : Nat × Str → Str))))

instance : LawfulEqCmp blkCmp where
  eq_of_compare {a b} h := by
    simp only [blkCmp, compareLex, compareOn, Ordering.then_eq_eq, Std.compare_eq_iff_eq] at h
    exact Prod.ext h.1 h.2
  compare_self {a} := by
    simp [blkCmp, compareLex, compareOn]

/-- A set of blocks with the nodes they lie on. -/
abbrev BlkSet := TreeSet (Nat × Str) blkCmp

/-- What the repair side reads of the configuration. -/
structure RepairConfig extends Config where
  rackInfos : TreeMap Nat Str
  shuffle : Bool
  msscheduling : Bool
  localIP : Nat

/-- The members of `HDFS_MetadataBase` and `HDFS3_MetadataBase`. -/
structure MetadataBase where
  blk2Stripe : TreeMap Str BlkSet
  blkIdInStripe : TreeMap Str Nat
  coefficient : TreeMap Str (TreeMap Str GF256)
  blkName2Ip : TreeMap Str Nat
  blkName2StripeId : TreeMap Str Nat
  ip2BlkNames : List (TreeMap Nat Str)
  id2BlkNames : List (TreeMap Nat Str)
  order : TreeMap Nat Nat
  /-- All other blocks of the stripe; only `HDFS_MetadataBase` has it. -/
  blk2All : TreeMap Str (TreeSet Str)

def MetadataBase.empty : MetadataBase where
  blk2Stripe := ∅
  blkIdInStripe := ∅
  coefficient := ∅
  blkName2Ip := ∅
  blkName2StripeId := ∅
  ip2BlkNames := []
  id2BlkNames := []
  order := ∅
  blk2All := ∅

/-! ## Block reports -/

/-- The descriptions of the stripes are read: the tables so far, the blocks that wait for their
report, and for each block those it helps to recover. -/
structure Described where
  base : MetadataBase
  blks : TreeSet Str
  recoveree : TreeMap Str (List Str)

/-- Block `blkName` is recovered from `bName`. -/
def addRecoveree (blkName : Str) (recoveree : TreeMap Str (List Str)) (bName : Str) :
    TreeMap Str (List Str) :=
  recoveree.insert bName (recoveree.getD bName [] ++ [blkName])

/-- The coefficients of the helpers, by name. -/
def coefficientPairs (coef : IntArr) (recoveredBlks : List Str) : List (Str × GF256) :=
  recoveredBlks.zipIdx.map fun it => (it.1, coef it.2)

/-- The block of a report is on node `holderIP`: note its place.  `sched` stands for the
scheduling of several stripes, which only `HDFS_MetadataBase` knows. -/
def MetadataBase.place (base : MetadataBase) (sched : Bool) (holderIP : Nat) (blkName : Str) :
    MetadataBase :=
  match base.blkName2StripeId[blkName]? with
  | none => base
  | some stripeId =>
      let base :=
        if blkName ∈ base.blkName2Ip then base
        else { base with
          blkName2Ip := base.blkName2Ip.insert blkName holderIP
          order := if sched then base.order.insertIfNew holderIP 0 else base.order }
      { base with
        ip2BlkNames := base.ip2BlkNames.modify stripeId fun m => m.insertIfNew holderIP blkName }

/-- The block can serve those it helps to recover. -/
def MetadataBase.serve (base : MetadataBase) (holderIP : Nat) (blkName : Str) (its : List Str) :
    MetadataBase :=
  { base with
    blk2Stripe := its.foldl
      (fun m it => m.insert it ((m.getD it ∅).insert (holderIP, blkName))) base.blk2Stripe }

/-- One message of `blk_init`, a node and a block on it. -/
def Described.report (sched : Bool) (d : Described) (m : Nat × Str) : Described :=
  { d with
    base := (d.base.place sched m.1 m.2).serve m.1 m.2 (d.recoveree.getD m.2 [])
    blks := d.blks.erase m.2 }

/-- The loop over the messages of `blk_init`; it is left once no block is waited for. -/
def Described.receive (sched : Bool) : Described → List (Nat × Str) → Described
  | d, [] => d
  | d, m :: ms =>
      if m.2 ∉ d.blks then d.receive sched ms
      else
        let d := d.report sched m
        if d.blks.isEmpty then d else d.receive sched ms

/-! ## Queries -/

/-- `getCoefficient`; without a status, the table entry. -/
def MetadataBase.getCoefficient (conf : Config) (rsu : RSUtil) (base : MetadataBase)
    (blkName : Str) : Option (TreeMap Str Int) → TreeMap Str GF256
  | none => base.coefficient.getD blkName ∅
  | some status =>
      let intStatus : Nat → Int := status.toList.foldl
        (fun a it => if it.2 = 2 then Function.update a (base.blkIdInStripe.getD it.1 0) 1 else a)
        fun _ => 0
      let stripeId := base.blkName2StripeId.getD blkName 0
      let idx := base.blkIdInStripe.getD blkName 0
      match rsu.getCoefficientMulti idx intStatus with
      | none => ∅
      | some coefs =>
          ((List.range conf.ecN).foldl
            (fun (st : TreeMap Str GF256 × Nat) i =>
              if intStatus i ≠ 0 then
                (st.1.insert (((base.id2BlkNames.getD stripeId ∅).getD i [])) (coefs st.2),
                  st.2 + 1)
              else st) (∅, 0)).1

/-- `getAllBlks` behind its check of the name: the blocks of the stripe by node. -/
def MetadataBase.stripeBlks (base : MetadataBase) (blkName : Str) : BlkSet :=
  Tree.addAll (base.ip2BlkNames.getD (base.blkName2StripeId.getD blkName 0) ∅).toList ∅

/-- The outcomes of `random_shuffle`, one for each call. -/
structure Shuffle where
  shuffled : Nat → List (Nat × Str) → List (Nat × Str)
  perm : ∀ n l, (shuffled n l).Perm l

/-- A shuffle may leave every list as it is. -/
def unshuffled : Shuffle where
  shuffled _ l := l
  perm _ l := List.Perm.refl l

/-- The blocks of a list by the rack of their node. -/
def stripe2Rack (rackInfos : TreeMap Nat Str) (ret : List (Nat × Str)) :
    TreeMap Str (List (Nat × Str)) :=
  Tree.group (fun it => rackInfos.getD it.1 []) ret ∅

/-- The order of the pipeline: each rack shuffled, the rack of the requestor last; with `_shuffle`
any order. -/
def schedulePipeline (conf : RepairConfig) (rand : Shuffle) (requestorIP : Nat)
    (ret : List (Nat × Str)) : List (Nat × Str) :=
  let reqrack := conf.rackInfos.getD requestorIP []
  let racks := (stripe2Rack conf.rackInfos ret).toList.zipIdx.map fun it =>
    (it.1.1, rand.shuffled it.2 it.1.2)
  if conf.shuffle then rand.shuffled racks.length ret
  else
    let newret := (racks.filter fun it => it.1 ≠ reqrack).flatMap Prod.snd
    let mine := (racks.filter fun it => it.1 = reqrack).flatMap Prod.snd
    newret ++ mine

/-- `getStripeBlks` for a single failure, that is without a status, and with rack awareness off. -/
def MetadataBase.getStripeBlks (conf : RepairConfig) (rand : Shuffle) (base : MetadataBase)
    (blkName : Str) (requestorIP : Nat) : List (Nat × Str) :=
  schedulePipeline conf rand requestorIP (base.blk2Stripe.getD blkName ∅).toList

/-- Racks and shuffles only reorder the helpers. -/
theorem schedulePipeline_perm (conf : RepairConfig) (rand : Shuffle) (requestorIP : Nat)
    (ret : List (Nat × Str)) : (schedulePipeline conf rand requestorIP ret).Perm ret := by
  rw [schedulePipeline]
  generalize hracks : ((stripe2Rack conf.rackInfos ret).toList.zipIdx.map fun it =>
    (it.1.1, rand.shuffled it.2 it.1.2)) = racks
  by_cases hs : conf.shuffle = true
  · rw [if_pos hs]
    exact rand.perm _ _
  · rw [if_neg hs]
    have hall : (racks.flatMap Prod.snd).Perm ret := by
      have hshuf : racks.flatMap Prod.snd = (stripe2Rack conf.rackInfos ret).toList.zipIdx.flatMap
          fun it => rand.shuffled it.2 it.1.2 := by
        rw [← hracks, List.flatMap_map]
      have hplain : ((stripe2Rack conf.rackInfos ret).toList.zipIdx.flatMap fun it => it.1.2) =
          (stripe2Rack conf.rackInfos ret).toList.flatMap Prod.snd := by
        conv_rhs => rw [← List.zipIdx_map_fst 0 (stripe2Rack conf.rackInfos ret).toList]
        rw [List.flatMap_map]
      rw [hshuf]
      refine (List.Perm.flatMap_left _ fun it _ => rand.perm it.2 it.1.2).trans ?_
      rw [hplain]
      exact Tree.group_perm _ ret
    refine List.Perm.trans ?_ hall
    rw [← List.flatMap_append]
    apply List.Perm.flatMap_right
    refine List.perm_append_comm.trans ?_
    simpa using List.filter_append_perm (fun it : Str × List (Nat × Str) =>
      decide (it.1 = conf.rackInfos.getD requestorIP [])) racks

/-! ## Tables that describe stripes -/

/-- The blocks that recover row `i` of stripe `s`. -/
def helperNames (conf : Config) (s : List Str) (i : Nat) : List Str :=
  (firstOthers conf i).map fun j => s.getD j []

/-- The tables as they should be once the stripes are described: a stripe is the list of its block
names, row by row. -/
structure Described.Describes (conf : Config) (rsu : RSUtil) (stripes : List (List Str))
    (d : Described) : Prop where
  row : ∀ s ∈ stripes, ∀ i (hi : i < s.length), d.base.blkIdInStripe[s[i]]? = some i
  coefficient : ∀ s ∈ stripes, ∀ i (hi : i < s.length), d.base.coefficient.getD s[i] ∅ =
    Tree.insertAll (coefficientPairs (rsu.getCoefficient i) (helperNames conf s i)) ∅
  stripe : ∀ s ∈ stripes, ∃ id < d.base.ip2BlkNames.length,
    d.base.ip2BlkNames.getD id ∅ = ∅ ∧
    (∀ b, d.base.blkName2StripeId[b]? = some id ↔ b ∈ s) ∧
    ∀ i (hi : i < s.length), (d.base.id2BlkNames.getD id ∅)[i]? = some s[i]
  blks : ∀ b, b ∈ d.blks ↔ ∃ s ∈ stripes, b ∈ s
  recoveree : ∀ h b, b ∈ d.recoveree.getD h [] ↔
    ∃ s ∈ stripes, ∃ i, ∃ hi : i < s.length, s[i] = b ∧ h ∈ helperNames conf s i
  blk2Stripe : d.base.blk2Stripe = ∅
  blkName2Ip : d.base.blkName2Ip = ∅

/-- Disjoint stripes of `ecN` different blocks. -/
structure IsStripes (conf : Config) (stripes : List (List Str)) : Prop where
  length : ∀ s ∈ stripes, s.length = conf.ecN
  nodup : stripes.flatten.Nodup

theorem IsStripes.stripe_nodup {conf : Config} {stripes : List (List Str)} {s : List Str}
    (h : IsStripes conf stripes) : s ∈ stripes → s.Nodup :=
  (List.nodup_flatten.1 h.nodup).1 s

theorem IsStripes.eq_of_mem {conf : Config} {stripes : List (List Str)} {s t : List Str} {b : Str}
    (h : IsStripes conf stripes) (hs : s ∈ stripes) (ht : t ∈ stripes) :
    b ∈ s → b ∈ t → s = t := by
  intro hbs hbt
  by_contra hne
  have hsymm : Std.Symm (List.Disjoint (α := Str)) := ⟨fun _ _ hd => hd.symm⟩
  exact (List.nodup_flatten.1 h.nodup).2.forall hs ht hne hbs hbt

/-- The recoverees that a loop over helpers adds. -/
theorem mem_foldl_addRecoveree {blkName h x : Str} {l : List Str} {m : TreeMap Str (List Str)} :
    x ∈ (l.foldl (addRecoveree blkName) m).getD h [] ↔
      x ∈ m.getD h [] ∨ x = blkName ∧ h ∈ l := by
  induction l generalizing m with
  | nil =>
      simp
  | cons a l ih =>
      rw [List.foldl_cons, ih, addRecoveree, TreeMap.getD_insert]
      by_cases ha : a = h
      · subst ha
        rw [if_pos (LawfulEqCmp.compare_eq_iff_eq.2 rfl), List.mem_append, List.mem_singleton]
        constructor
        · rintro ((hold | heq) | ⟨heq, _⟩)
          · exact Or.inl hold
          · exact Or.inr ⟨heq, by simp⟩
          · exact Or.inr ⟨heq, by simp⟩
        · rintro (hold | ⟨heq, _⟩)
          · exact Or.inl (Or.inl hold)
          · exact Or.inl (Or.inr heq)
      · have hne : h ≠ a := Ne.symm ha
        rw [if_neg fun hc => ha (LawfulEqCmp.compare_eq_iff_eq.1 hc)]
        simp [hne]

section Names

variable {s : List Str} {i : Nat}

theorem map_getD_range (s : List Str) : (List.range s.length).map (fun j => s.getD j []) = s := by
  refine List.ext_getElem (by simp) fun j _ hj => ?_
  simp [List.getD_eq_getElem?_getD, List.getElem?_eq_getElem hj]

/-- Leaving out a block by name is leaving out its row. -/
theorem filter_ne_eq_map {hi : i < s.length} :
    s.Nodup → s.filter (· ≠ s[i]) =
      ((List.range s.length).filter (· ≠ i)).map fun j => s.getD j [] := by
  intro hnodup
  have hmap : ∀ b, s.filter (· ≠ b) =
      ((List.range s.length).map fun j => s.getD j []).filter (· ≠ b) := by
    intro b
    rw [map_getD_range]
  rw [hmap, List.filter_map]
  congr 1
  refine List.filter_congr fun j hj => ?_
  have hjlt := List.mem_range.1 hj
  have hget : s.getD j [] = s[j] := by
    simp [List.getD_eq_getElem?_getD, List.getElem?_eq_getElem hjlt]
  simp only [Function.comp_apply, hget, ne_eq, hnodup.getElem_inj_iff]

theorem helperNames_eq {conf : Config} (hi : i < s.length) :
    s.Nodup → s.length = conf.ecN →
      helperNames conf s i = (s.filter (· ≠ s[i])).take conf.ecK := by
  intro hnodup hlen
  rw [filter_ne_eq_map hnodup, helperNames, firstOthers, hlen, List.map_take]

theorem helperNames_nodup {conf : Config} (hnodup : s.Nodup) (hlen : s.length = conf.ecN)
    (hi : i < s.length) : (helperNames conf s i).Nodup := by
  rw [helperNames_eq hi hnodup hlen]
  exact (hnodup.filter _).sublist (List.take_sublist _ _)

theorem mem_helperNames {conf : Config} {h : Str} (hnodup : s.Nodup) (hlen : s.length = conf.ecN)
    (hi : i < s.length) : h ∈ helperNames conf s i → h ∈ s ∧ h ≠ s[i] := by
  rw [helperNames_eq hi hnodup hlen]
  intro hmem
  have hfilter := List.mem_filter.1 (List.mem_of_mem_take hmem)
  exact ⟨hfilter.1, by simpa using hfilter.2⟩

end Names

/-! ## What the reports leave in the tables -/

section Reports

variable {sched : Bool}

/-- A block that has reported is no longer waited for. -/
theorem mem_blks_report {d : Described} {m : Nat × Str} {b : Str} :
    b ∈ (d.report sched m).blks ↔ b ≠ m.2 ∧ b ∈ d.blks := by
  have hblks : (d.report sched m).blks = d.blks.erase m.2 := rfl
  rw [hblks, TreeSet.mem_erase, ne_eq, LawfulEqCmp.compare_eq_iff_eq]
  exact and_congr_left' ne_comm

/-- The messages that count are those that name a block for the first time. -/
theorem receive_eq_foldl (sched : Bool) (d : Described) (ms : List (Nat × Str)) :
    ∃ proc : List (Nat × Str), d.receive sched ms = proc.foldl (Described.report sched) d ∧
      proc.Sublist ms ∧ (proc.map Prod.snd).Nodup ∧ (∀ m ∈ proc, m.2 ∈ d.blks) ∧
      ∀ b ∈ d.blks, (∃ ip, (ip, b) ∈ ms) → b ∈ proc.map Prod.snd := by
  induction ms generalizing d with
  | nil =>
      exact ⟨[], rfl, List.Sublist.refl _, List.nodup_nil, by simp, by simp⟩
  | cons m ms ih =>
      by_cases hm : m.2 ∈ d.blks
      · -- the message is popped for a block that is waited for
        by_cases hempty : (d.report sched m).blks.isEmpty = true
        · refine ⟨[m], ?_, List.singleton_sublist.2 (by simp), by simp, ?_, ?_⟩
          · simp [Described.receive, hm, hempty]
          · simpa using hm
          · intro b hb _
            have hnot := TreeSet.isEmpty_iff_forall_not_mem.1 hempty b
            have heq : b = m.2 := by
              by_contra hne
              exact hnot (mem_blks_report.2 ⟨hne, hb⟩)
            simp [heq]
        · obtain ⟨proc, hfold, hsub, hnodup, hmem, hall⟩ := ih (d.report sched m)
          refine ⟨m :: proc, ?_, hsub.cons_cons m, ?_, ?_, ?_⟩
          · simp only [Described.receive, hm, not_true_eq_false, if_false, hempty, hfold,
              List.foldl_cons, Bool.false_eq_true]
          · rw [List.map_cons, List.nodup_cons]
            refine ⟨?_, hnodup⟩
            intro hin
            obtain ⟨m', hm', heq⟩ := List.mem_map.1 hin
            exact (mem_blks_report.1 (hmem m' hm')).1 heq
          · intro m' hm'
            rcases List.mem_cons.1 hm' with rfl | hm'
            · exact hm
            · exact (mem_blks_report.1 (hmem m' hm')).2
          · rintro b hb ⟨ip, hip⟩
            by_cases hbm : b = m.2
            · simp [hbm]
            · have hrest : (ip, b) ∈ ms := by
                rcases List.mem_cons.1 hip with heq | hin
                · exact absurd (congrArg Prod.snd heq) hbm
                · exact hin
              exact List.mem_cons_of_mem _ (hall b (mem_blks_report.2 ⟨hbm, hb⟩) ⟨ip, hrest⟩)
      · -- the block is unknown or has reported before
        obtain ⟨proc, hfold, hsub, hnodup, hmem, hall⟩ := ih d
        refine ⟨proc, ?_, hsub.cons m, hnodup, hmem, ?_⟩
        · simp only [Described.receive, hm, not_false_eq_true, if_true, hfold]
        · rintro b hb ⟨ip, hip⟩
          refine hall b hb ⟨ip, ?_⟩
          rcases List.mem_cons.1 hip with heq | hin
          · have hbm : b = m.2 := congrArg Prod.snd heq
            exact absurd (hbm ▸ hb) hm
          · exact hin

variable (base : MetadataBase) (holderIP : Nat) (blkName : Str) (its : List Str)

/-- The tables a report leaves alone. -/
structure SameStripes (base base' : MetadataBase) : Prop where
  blkIdInStripe : base'.blkIdInStripe = base.blkIdInStripe
  coefficient : base'.coefficient = base.coefficient
  blkName2StripeId : base'.blkName2StripeId = base.blkName2StripeId
  id2BlkNames : base'.id2BlkNames = base.id2BlkNames

theorem SameStripes.trans {base base' base'' : MetadataBase} :
    SameStripes base base' → SameStripes base' base'' → SameStripes base base'' := by
  intro h h'
  exact ⟨h'.blkIdInStripe.trans h.blkIdInStripe, h'.coefficient.trans h.coefficient,
    h'.blkName2StripeId.trans h.blkName2StripeId, h'.id2BlkNames.trans h.id2BlkNames⟩

theorem place_sameStripes : SameStripes base (base.place sched holderIP blkName) := by
  unfold MetadataBase.place
  split
  · exact ⟨rfl, rfl, rfl, rfl⟩
  · split <;> exact ⟨rfl, rfl, rfl, rfl⟩

@[simp] theorem place_blk2Stripe :
    (base.place sched holderIP blkName).blk2Stripe = base.blk2Stripe := by
  unfold MetadataBase.place
  split
  · rfl
  · split <;> rfl

theorem foldl_report_sameStripes (d : Described) (proc : List (Nat × Str)) :
    SameStripes d.base (proc.foldl (Described.report sched) d).base ∧
      (proc.foldl (Described.report sched) d).recoveree = d.recoveree := by
  induction proc generalizing d with
  | nil =>
      exact ⟨⟨rfl, rfl, rfl, rfl⟩, rfl⟩
  | cons m proc ih =>
      obtain ⟨hsame, hrec⟩ := ih (d.report sched m)
      have hplace : SameStripes d.base (d.base.place sched m.1 m.2) := place_sameStripes _ _ _
      have hserve : SameStripes (d.base.place sched m.1 m.2) (d.report sched m).base :=
        ⟨rfl, rfl, rfl, rfl⟩
      exact ⟨(hplace.trans hserve).trans hsame, hrec⟩

theorem mem_serve {it : Str} {p : Nat × Str} :
    p ∈ (base.serve holderIP blkName its).blk2Stripe.getD it ∅ ↔
      p ∈ base.blk2Stripe.getD it ∅ ∨ p = (holderIP, blkName) ∧ it ∈ its := by
  have h : ∀ m : TreeMap Str BlkSet,
      p ∈ (its.foldl (fun m it => m.insert it ((m.getD it ∅).insert (holderIP, blkName)))
        m).getD it ∅ ↔ p ∈ m.getD it ∅ ∨ p = (holderIP, blkName) ∧ it ∈ its := by
    induction its with
    | nil =>
        simp
    | cons a its ih =>
        intro m
        rw [List.foldl_cons, ih, TreeMap.getD_insert]
        by_cases ha : a = it
        · subst ha
          rw [if_pos (LawfulEqCmp.compare_eq_iff_eq.2 rfl), TreeSet.mem_insert,
            LawfulEqCmp.compare_eq_iff_eq]
          constructor
          · rintro ((heq | hold) | ⟨heq, _⟩)
            · exact Or.inr ⟨heq.symm, by simp⟩
            · exact Or.inl hold
            · exact Or.inr ⟨heq, by simp⟩
          · rintro (hold | ⟨heq, _⟩)
            · exact Or.inl (Or.inr hold)
            · exact Or.inl (Or.inl heq.symm)
        · have hne : it ≠ a := Ne.symm ha
          rw [if_neg fun hc => ha (LawfulEqCmp.compare_eq_iff_eq.1 hc)]
          simp [hne]
  exact h base.blk2Stripe

/-- A block can be served by the blocks that have reported and help to recover it. -/
theorem mem_blk2Stripe_foldl_report (d : Described) {proc : List (Nat × Str)} (it : Str)
    {p : Nat × Str} :
    p ∈ (proc.foldl (Described.report sched) d).base.blk2Stripe.getD it ∅ ↔
      p ∈ d.base.blk2Stripe.getD it ∅ ∨ p ∈ proc ∧ it ∈ d.recoveree.getD p.2 [] := by
  induction proc generalizing d with
  | nil =>
      simp
  | cons m proc ih =>
      have hrec : (d.report sched m).recoveree = d.recoveree := rfl
      have hbase : (d.report sched m).base =
          (d.base.place sched m.1 m.2).serve m.1 m.2 (d.recoveree.getD m.2 []) := rfl
      rw [List.foldl_cons, ih, hrec, hbase, mem_serve, place_blk2Stripe, List.mem_cons]
      constructor
      · rintro ((hold | ⟨rfl, hit⟩) | ⟨hp, hit⟩)
        · exact Or.inl hold
        · exact Or.inr ⟨Or.inl rfl, hit⟩
        · exact Or.inr ⟨Or.inr hp, hit⟩
      · rintro (hold | ⟨rfl | hp, hit⟩)
        · exact Or.inl (Or.inl hold)
        · exact Or.inl (Or.inr ⟨rfl, hit⟩)
        · exact Or.inr ⟨hp, hit⟩

section Place

variable {base} {holderIP} {blkName}

theorem place_blkName2Ip {b : Str} :
    blkName ∈ base.blkName2StripeId → blkName ∉ base.blkName2Ip →
      (base.place sched holderIP blkName).blkName2Ip[b]? =
        if blkName = b then some holderIP else base.blkName2Ip[b]? := by
  intro hstripe hfresh
  obtain ⟨id, hid⟩ := Option.isSome_iff_exists.1 (TreeMap.mem_iff_isSome_getElem?.1 hstripe)
  simp only [MetadataBase.place, hid, hfresh, if_false, TreeMap.getElem?_insert,
    LawfulEqCmp.compare_eq_iff_eq]

theorem place_blkName2Ip_of_ne (sched : Bool) {b : Str} :
    b ≠ blkName →
      (base.place sched holderIP blkName).blkName2Ip[b]? = base.blkName2Ip[b]? := by
  intro hne
  unfold MetadataBase.place
  split
  · rfl
  · split
    · rfl
    · rw [TreeMap.getElem?_insert, if_neg fun h => hne (LawfulEqCmp.compare_eq_iff_eq.1 h).symm]

theorem place_ip2BlkNames {id : Nat} :
    id < base.ip2BlkNames.length →
      (base.place sched holderIP blkName).ip2BlkNames.getD id ∅ =
        if base.blkName2StripeId[blkName]? = some id then
          (base.ip2BlkNames.getD id ∅).insertIfNew holderIP blkName
        else base.ip2BlkNames.getD id ∅ := by
  intro hlt
  cases hid : base.blkName2StripeId[blkName]? with
  | none =>
      simp [MetadataBase.place, hid]
  | some id' =>
      have hmodify : (base.place sched holderIP blkName).ip2BlkNames =
          base.ip2BlkNames.modify id' fun m => m.insertIfNew holderIP blkName := by
        simp only [MetadataBase.place, hid]
        split <;> rfl
      rw [hmodify, List.getD_eq_getElem?_getD, List.getElem?_modify, List.getD_eq_getElem?_getD,
        List.getElem?_eq_getElem hlt]
      by_cases heq : id' = id
      · simp [heq]
      · simp [heq]

theorem place_ip2BlkNames_length :
    (base.place sched holderIP blkName).ip2BlkNames.length = base.ip2BlkNames.length := by
  unfold MetadataBase.place
  split
  · rfl
  · split <;> exact List.length_modify ..

variable {d : Described} {proc : List (Nat × Str)}

theorem ip2BlkNames_length_foldl :
    (proc.foldl (Described.report sched) d).base.ip2BlkNames.length =
      d.base.ip2BlkNames.length := by
  induction proc generalizing d with
  | nil =>
      rfl
  | cons m proc ih =>
      rw [List.foldl_cons, ih]
      exact place_ip2BlkNames_length

theorem blkName2Ip_foldl_of_not_mem {b : Str} :
    b ∉ proc.map Prod.snd →
      (proc.foldl (Described.report sched) d).base.blkName2Ip[b]? = d.base.blkName2Ip[b]? := by
  induction proc generalizing d with
  | nil =>
      intro _
      rfl
  | cons m proc ih =>
      intro hb
      simp only [List.map_cons, List.mem_cons, not_or] at hb
      rw [List.foldl_cons, ih hb.2]
      exact place_blkName2Ip_of_ne sched hb.1

/-- The node of a block is the one of its report. -/
theorem blkName2Ip_foldl_report (hnodup : (proc.map Prod.snd).Nodup) {m : Nat × Str}
    (hfresh : m.2 ∉ d.base.blkName2Ip) (hstripe : m.2 ∈ d.base.blkName2StripeId) :
    m ∈ proc → (proc.foldl (Described.report sched) d).base.blkName2Ip[m.2]? = some m.1 := by
  induction proc generalizing d with
  | nil =>
      intro hm
      cases hm
  | cons m' proc ih =>
      intro hm
      rw [List.map_cons, List.nodup_cons] at hnodup
      rcases List.mem_cons.1 hm with rfl | hm
      · rw [List.foldl_cons, blkName2Ip_foldl_of_not_mem hnodup.1]
        exact (place_blkName2Ip hstripe hfresh).trans (if_pos rfl)
      · have hne : m.2 ≠ m'.2 := fun heq => hnodup.1 (heq ▸ List.mem_map_of_mem hm)
        have hsame : SameStripes d.base (d.base.place sched m'.1 m'.2) :=
          place_sameStripes _ _ _
        apply ih hnodup.2 _ _ hm
        · intro hmem
          apply hfresh
          rw [TreeMap.mem_iff_isSome_getElem?] at hmem ⊢
          rwa [← place_blkName2Ip_of_ne sched hne]
        · have hbase : (d.report sched m').base.blkName2StripeId = d.base.blkName2StripeId :=
            hsame.blkName2StripeId
          rwa [hbase]

/-- The nodes of a stripe: one `insert` for each report of one of its blocks. -/
theorem ip2BlkNames_foldl_report (sched : Bool) (proc : List (Nat × Str)) {id : Nat} :
    id < d.base.ip2BlkNames.length →
      (proc.foldl (Described.report sched) d).base.ip2BlkNames.getD id ∅ =
        Tree.insertAll (proc.filter fun m => d.base.blkName2StripeId[m.2]? = some id)
          (d.base.ip2BlkNames.getD id ∅) := by
  induction proc generalizing d with
  | nil =>
      intro _
      rfl
  | cons m proc ih =>
      intro hlt
      have hlen : (d.report sched m).base.ip2BlkNames.length = d.base.ip2BlkNames.length :=
        place_ip2BlkNames_length
      have hids : (d.report sched m).base.blkName2StripeId = d.base.blkName2StripeId :=
        (place_sameStripes _ _ _).blkName2StripeId
      have hget : (d.report sched m).base.ip2BlkNames.getD id ∅ =
          if d.base.blkName2StripeId[m.2]? = some id then
            (d.base.ip2BlkNames.getD id ∅).insertIfNew m.1 m.2
          else d.base.ip2BlkNames.getD id ∅ := place_ip2BlkNames hlt
      rw [List.foldl_cons, ih (by rwa [hlen]), hids, hget]
      by_cases hm : d.base.blkName2StripeId[m.2]? = some id
      · rw [if_pos hm, List.filter_cons_of_pos (by simpa using hm)]
        rfl
      · rw [if_neg hm, List.filter_cons_of_neg (by simpa using hm)]

end Place

end Reports

end CoRD
