import CoRD.Repair.HdfsMetadata
import CoRD.Repair.Hdfs3Metadata

/-!
# Decoding — the helpers of a lost block and their coefficients

The contents of a stripe are the words of a code.  Whatever the description of the stripes, a
metadata base knows for each block other blocks of its stripe that combine to its content.
-/

namespace CoRD

open Std

/-! ## Contents -/

/-- The contents of the blocks, position by position: each stripe holds the words of the code over
some data. -/
def Encoded (conf : Config) (encMat : IntArr) (stripes : List (List Str))
    (content : Str → Nat → GF256) : Prop :=
  ∀ s ∈ stripes, ∃ d : Nat → Fin conf.ecK → GF256, ∀ i (hi : i < s.length), ∀ x,
    content s[i] x = LinCode.word (d x) (stackedRow conf encMat i)

/-- What the blocks of a table of coefficients combine to. -/
def combined (content : Str → Nat → GF256) (coef : TreeMap Str GF256) (x : Nat) : GF256 :=
  (coef.toList.map fun p => p.2 * content p.1 x).sum

section Contents

variable {conf : Config} {encMat c : IntArr} {content : Str → Nat → GF256} {s : List Str}

theorem sum_coefficientPairs {names : List Str} (f : Str → GF256) :
    ((coefficientPairs c names).map fun p => p.2 * f p.1).sum =
      ∑ t : Fin names.length, c t * f names[t] := by
  have hmap : ((coefficientPairs c names).map fun p => p.2 * f p.1) =
      List.ofFn fun t : Fin names.length => c t * f names[t] := by
    refine List.ext_getElem (by simp [coefficientPairs]) fun t ht _ => ?_
    simp [coefficientPairs]
  rw [hmap, List.sum_ofFn]

/-- Coefficients that decode the rows decode the contents. -/
theorem sum_content {l : List Nat} {i : Nat} {hi : i < s.length} {d : Fin conf.ecK → GF256}
    {f : Str → GF256}
    (hword : ∀ j (hj : j < s.length), f s[j] = LinCode.word d (stackedRow conf encMat j))
    (hl : ∀ j ∈ l, j < s.length) :
    DecodesFrom conf encMat c l i →
      ((coefficientPairs c (l.map fun j => s.getD j [])).map fun p => p.2 * f p.1).sum =
        f s[i] := by
  intro h
  have hlen : (l.map fun j => s.getD j []).length = l.length := List.length_map _
  calc
    ((coefficientPairs c (l.map fun j => s.getD j [])).map fun p => p.2 * f p.1).sum
      = ∑ t : Fin (l.map fun j => s.getD j []).length,
          c t * f (l.map fun j => s.getD j [])[t] := sum_coefficientPairs f
    _ = ∑ t : Fin l.length, c t * LinCode.word d (stackedRow conf encMat l[t]) := by
      refine Fintype.sum_equiv (finCongr hlen) _ _ fun t => ?_
      have ht : (t : Nat) < l.length := hlen ▸ t.isLt
      have hj := hl _ (List.getElem_mem ht)
      have hget : s.getD l[(t : Nat)] [] = s[l[(t : Nat)]] := by
        simp [List.getD_eq_getElem?_getD, List.getElem?_eq_getElem hj]
      simp only [Fin.getElem_fin, List.getElem_map, hget, hword _ hj, finCongr_apply, Fin.val_cast]
    _ = LinCode.word d (stackedRow conf encMat i) := h.word_eq d
    _ = f s[i] := (hword i hi).symm

/-- A table that lists helpers with their coefficients. -/
theorem combined_eq_sum {coef : TreeMap Str GF256} {l : List (Str × GF256)} (x : Nat) :
    coef.toList.Perm l → combined content coef x = (l.map fun p => p.2 * content p.1 x).sum := by
  intro h
  exact (h.map _).sum_eq

theorem coefficientPairs_map_fst (names : List Str) :
    (coefficientPairs c names).map Prod.fst = names := by
  rw [coefficientPairs, List.map_map]
  exact List.zipIdx_map_fst 0 names

end Contents

/-! ## One lost block -/

/-- The tables decode each block of the stripe `s` from `ecK` others. -/
structure MetadataBase.DecodesSingle (base : MetadataBase) (conf : RepairConfig) (rsu : RSUtil)
    (content : Str → Nat → GF256) (s : List Str) : Prop where
  row : ∀ i (hi : i < s.length), base.blkIdInStripe[s[i]]? = some i
  name : ∃ stripeId, ∀ i (hi : i < s.length), base.blkName2StripeId[s[i]]? = some stripeId ∧
    (base.id2BlkNames.getD stripeId ∅)[i]? = some s[i]
  size : ∀ b ∈ s, (base.getCoefficient conf.toConfig rsu b none).size = conf.ecK
  keys : ∀ b ∈ s, ∀ h ∈ base.getCoefficient conf.toConfig rsu b none, h ∈ s ∧ h ≠ b
  content : ∀ b ∈ s, ∀ x,
    combined content (base.getCoefficient conf.toConfig rsu b none) x = content b x

section Single

variable {conf : RepairConfig} {rsu : RSUtil} {encMat : IntArr} {stripes : List (List Str)}
  {d : Described} {s : List Str} {sched : Bool} {blkInit : List (Nat × Str)}

/-- The helpers of a block, as the queries find them. -/
theorem getCoefficient_toList_perm (sched : Bool) (blkInit : List (Nat × Str)) {i : Nat}
    (hi : i < s.length)
    (hstripes : IsStripes conf.toConfig stripes) (hd : d.Describes conf.toConfig rsu stripes) :
    s ∈ stripes →
      ((d.receive sched blkInit).base.getCoefficient conf.toConfig rsu s[i] none).toList.Perm
        (coefficientPairs (rsu.getCoefficient i) (helperNames conf.toConfig s i)) := by
  intro hs
  obtain ⟨proc, hproc, _⟩ := receive_eq_foldl sched d blkInit
  have hcoef : (d.receive sched blkInit).base.getCoefficient conf.toConfig rsu s[i] none =
      Tree.insertAll (coefficientPairs (rsu.getCoefficient i) (helperNames conf.toConfig s i))
        ∅ := by
    rw [MetadataBase.getCoefficient, hproc, (foldl_report_sameStripes d proc).1.coefficient]
    exact hd.coefficient s hs i hi
  rw [hcoef]
  apply Tree.toList_insertAll_empty
  rw [coefficientPairs_map_fst]
  exact helperNames_nodup (hstripes.stripe_nodup hs) (hstripes.length s hs) hi

theorem decodesSingle {content : Str → Nat → GF256} (hstripes : IsStripes conf.toConfig stripes)
    (hd : d.Describes conf.toConfig rsu stripes) (hrsu : rsu.Decodes conf.toConfig encMat)
    (hcontent : Encoded conf.toConfig encMat stripes content) :
    s ∈ stripes → (d.receive sched blkInit).base.DecodesSingle conf rsu content s := by
  intro hs
  obtain ⟨proc, hproc, _⟩ := receive_eq_foldl sched d blkInit
  -- the reports change where blocks are, not what stripes there are
  have hsame : SameStripes d.base (d.receive sched blkInit).base :=
    hproc ▸ (foldl_report_sameStripes d proc).1
  have hlen := hstripes.length s hs
  have hnodup := hstripes.stripe_nodup hs
  constructor
  case row =>
    intro i hi
    rw [hsame.blkIdInStripe]
    exact hd.row s hs i hi
  case name =>
    obtain ⟨id, _, _, hids, hnames⟩ := hd.stripe s hs
    refine ⟨id, fun i hi => ?_⟩
    rw [hsame.blkName2StripeId, hsame.id2BlkNames]
    exact ⟨(hids _).2 (List.getElem_mem hi), hnames i hi⟩
  case size =>
    intro b hb
    obtain ⟨i, hi, rfl⟩ := List.mem_iff_getElem.1 hb
    have hperm := getCoefficient_toList_perm sched blkInit hi
      hstripes hd hs
    calc
      ((d.receive sched blkInit).base.getCoefficient conf.toConfig rsu s[i] none).size
        = (coefficientPairs (rsu.getCoefficient i) (helperNames conf.toConfig s i)).length := by
          rw [← TreeMap.length_toList]
          exact hperm.length_eq
      _ = (firstOthers conf.toConfig i).length := by
          simp [coefficientPairs, helperNames]
      _ = conf.ecK := (hrsu.single i (hlen ▸ hi)).1
  case keys =>
    intro b hb h hh
    obtain ⟨i, hi, rfl⟩ := List.mem_iff_getElem.1 hb
    have hperm := getCoefficient_toList_perm sched blkInit hi
      hstripes hd hs
    have hkey : h ∈ ((d.receive sched blkInit).base.getCoefficient conf.toConfig rsu s[i]
        none).toList.map Prod.fst := by
      rw [TreeMap.map_fst_toList_eq_keys, TreeMap.mem_keys]
      exact hh
    rw [(hperm.map Prod.fst).mem_iff, coefficientPairs_map_fst] at hkey
    exact mem_helperNames hnodup hlen hi hkey
  case content =>
    intro b hb x
    obtain ⟨i, hi, rfl⟩ := List.mem_iff_getElem.1 hb
    obtain ⟨w, hw⟩ := hcontent s hs
    rw [combined_eq_sum x (getCoefficient_toList_perm sched blkInit hi hstripes hd hs), helperNames]
    exact sum_content (f := fun b => content b x) (fun j hj => hw j hj x)
      (fun j hj => hlen.symm ▸ firstOthers_lt conf.toConfig hj) (hrsu.single i (hlen ▸ hi)).2

/-- Once all blocks of its stripe have reported, a block is served by its helpers. -/
theorem getStripeBlks_perm {i : Nat} {hi : i < s.length} (rand : Shuffle) (requestorIP : Nat)
    (hstripes : IsStripes conf.toConfig stripes) (hd : d.Describes conf.toConfig rsu stripes)
    (hs : s ∈ stripes) :
    (∀ b ∈ s, ∃ ip, (ip, b) ∈ blkInit) →
      (((d.receive sched blkInit).base.getStripeBlks conf rand s[i] requestorIP).map
        Prod.snd).Perm (helperNames conf.toConfig s i) := by
  intro hreported
  obtain ⟨proc, hproc, _, hnodup, _, hall⟩ := receive_eq_foldl sched d blkInit
  have hlen := hstripes.length s hs
  have hmem : ∀ p, p ∈ (d.receive sched blkInit).base.blk2Stripe.getD s[i] ∅ ↔
      p ∈ proc ∧ p.2 ∈ helperNames conf.toConfig s i := by
    intro p
    rw [hproc, mem_blk2Stripe_foldl_report, hd.blk2Stripe, hd.recoveree]
    simp only [TreeMap.getD_emptyc, TreeSet.not_mem_emptyc, false_or]
    refine and_congr_right fun _ => ⟨?_, fun h => ⟨s, hs, i, hi, rfl, h⟩⟩
    rintro ⟨t, ht, j, hj, heq, hh⟩
    obtain ⟨rfl, rfl⟩ := hstripes.row_eq hi ht hs
      (by rw [List.getElem?_eq_getElem hj, heq])
    exact hh
  have hset : (((d.receive sched blkInit).base.blk2Stripe.getD s[i] ∅).toList.map
      Prod.snd).Perm (helperNames conf.toConfig s i) := by
    refine (List.perm_ext_iff_of_nodup ?_ ?_).2 fun h => ?_
    · -- a name is in the set with one node only, that of its first report
      refine List.Nodup.map_on ?_ (Tree.set_toList_nodup _)
      intro p hp q hq heq
      have hp' := ((hmem p).1 (TreeSet.mem_toList.1 hp)).1
      have hq' := ((hmem q).1 (TreeSet.mem_toList.1 hq)).1
      exact List.inj_on_of_nodup_map hnodup hp' hq' heq
    · exact helperNames_nodup (hstripes.stripe_nodup hs) hlen hi
    · rw [List.mem_map]
      constructor
      · rintro ⟨p, hp, rfl⟩
        exact ((hmem p).1 (TreeSet.mem_toList.1 hp)).2
      · intro hh
        have hhs := (mem_helperNames (hstripes.stripe_nodup hs) hlen hi hh).1
        obtain ⟨p, hp, rfl⟩ := List.mem_map.1
          (hall h ((hd.blks h).2 ⟨s, hs, hhs⟩) (hreported h hhs))
        exact ⟨p, TreeSet.mem_toList.2 ((hmem p).2 ⟨hp, hh⟩), rfl⟩
  rw [MetadataBase.getStripeBlks]
  exact ((schedulePipeline_perm conf rand requestorIP _).map Prod.snd).trans hset

end Single

/-- Either description of the stripes leads to tables that decode every block from `ecK` others of
its stripe, the blocks that serve it once all have reported. -/
theorem metadata_decodes_single (conf : RepairConfig) (rsu : RSUtil) (encMat : IntArr)
    (hk : 1 ≤ conf.ecK) (hkn : conf.ecK < conf.ecN) (hrsu : rsu.Decodes conf.toConfig encMat)
    (stripes : List (List Str)) (content : Str → Nat → GF256)
    (hcontent : Encoded conf.toConfig encMat stripes content) (blkInit : List (Nat × Str)) :
    (∀ dir, IsStore conf.toConfig stripes dir →
      ∃ base, hdfsMetadataBase conf rsu dir blkInit = some base ∧
        ∀ s ∈ stripes, base.DecodesSingle conf rsu content s ∧
          ((∀ b ∈ s, ∃ ip, (ip, b) ∈ blkInit) → ∀ rand requestorIP, ∀ b ∈ s,
            ((base.getStripeBlks conf rand b requestorIP).map Prod.snd).Perm
              (base.getCoefficient conf.toConfig rsu b none).keys)) ∧
    (∀ cmdResult, IsFsck conf.toConfig stripes cmdResult →
      ∃ base, hdfs3MetadataBase conf rsu cmdResult blkInit = some base ∧
        ∀ s ∈ stripes, base.DecodesSingle conf rsu content s ∧
          ((∀ b ∈ s, ∃ ip, (ip, b) ∈ blkInit) → ∀ rand requestorIP, ∀ b ∈ s,
            ((base.getStripeBlks conf rand b requestorIP).map Prod.snd).Perm
              (base.getCoefficient conf.toConfig rsu b none).keys)) := by
  -- both descriptions fill the same tables; the rest is about these tables
  have htables : ∀ (d : Described) (sched : Bool), IsStripes conf.toConfig stripes →
      d.Describes conf.toConfig rsu stripes → ∀ s ∈ stripes,
        (d.receive sched blkInit).base.DecodesSingle conf rsu content s ∧
        ((∀ b ∈ s, ∃ ip, (ip, b) ∈ blkInit) → ∀ rand requestorIP, ∀ b ∈ s,
          (((d.receive sched blkInit).base.getStripeBlks conf rand b requestorIP).map
            Prod.snd).Perm
            ((d.receive sched blkInit).base.getCoefficient conf.toConfig rsu b none).keys) := by
    intro d sched hstripes hd s hs
    refine ⟨decodesSingle hstripes hd hrsu hcontent hs, ?_⟩
    intro hreported rand requestorIP b hb
    obtain ⟨i, hi, rfl⟩ := List.mem_iff_getElem.1 hb
    have hkeys := (getCoefficient_toList_perm sched blkInit hi
      hstripes hd hs).map Prod.fst
    rw [coefficientPairs_map_fst, TreeMap.map_fst_toList_eq_keys] at hkeys
    exact (getStripeBlks_perm rand requestorIP hstripes hd hs hreported).trans hkeys.symm
  have hn : 0 < conf.ecN := Nat.lt_trans hk hkn
  constructor
  · intro dir hdir
    obtain ⟨d, hread, hd⟩ := readStripeStore_describes rsu hn hdir
    refine ⟨(d.receive conf.msscheduling blkInit).base, ?_, htables d _ hdir.isStripes hd⟩
    rw [hdfsMetadataBase, hread]
    rfl
  · intro cmdResult hfsck
    obtain ⟨d, hread, hd⟩ := readFsck_describes rsu hkn.le hfsck
    refine ⟨(d.receive false blkInit).base, ?_, htables d _ hfsck.isStripes hd⟩
    rw [hdfs3MetadataBase, hread]
    rfl

/-! ## A small store -/

def xorRepairConf : RepairConfig where
  toConfig := xorConf
  rackInfos := ∅
  shuffle := false
  msscheduling := false
  localIP := 0

noncomputable def xorRSUtil : RSUtil :=
  RSUtil.new invertByAdjugate xorConf xorMat

theorem xorRSUtil_decodes : xorRSUtil.Decodes xorConf xorMat where
  single _ hi := ⟨firstOthers_length xorConf hi (by decide),
    coefficients_decode (by decide) xor_independent invertByAdjugate_inverts hi⟩
  multi_eq_none_iff _ hidx status := getCoefficientMulti_eq_none_iff hidx status
  multi _ hidx _ _ hc :=
    getCoefficientMulti_decodes xor_independent invertByAdjugate_inverts hidx hc

/-- A stripe of two data blocks behind their parity block. -/
def xorStripe : List Str :=
  ["blk_-9223372036854775790".toList, "blk_-9223372036854775792".toList,
    "blk_-9223372036854775791".toList]

/-- The first data block holds ones, the second zeros. -/
def xorContent (b : Str) (_ : Nat) : GF256 :=
  if b = "blk_-9223372036854775791".toList then 0 else 1

theorem xorContent_encoded : Encoded xorConf xorMat [xorStripe] xorContent := by
  intro s hs
  obtain rfl := List.mem_singleton.1 hs
  refine ⟨fun _ j => if (j : Nat) = 0 then 1 else 0, fun i hi x => ?_⟩
  have hsum : ∀ f : Fin xorConf.ecK → GF256, ∑ j, f j = f ⟨0, by decide⟩ + f ⟨1, by decide⟩ :=
    fun f => Fin.sum_univ_two f
  rw [LinCode.word, hsum]
  have hi3 : i < 3 := hi
  interval_cases i <;> simp [xorStripe, xorContent, stackedRow, rowOf, xorMat, xorConf, Config.ecM]

/-- The files list the same names. -/
def xorFile : Str :=
  ("blk_-9223372036854775790_1001:" ++ "blk_-9223372036854775792_1001:" ++
    "blk_-9223372036854775791_1001\n").toList

def xorDir : List (Str × Str) :=
  [(".".toList, []), ("rs:blk_-9223372036854775791_1001".toList, xorFile),
    ("rs:blk_-9223372036854775790_1001".toList, xorFile), ("..".toList, []),
    ("rs:blk_-9223372036854775792_1001".toList, xorFile)]

theorem xorStripes_isStripes : IsStripes xorConf [xorStripe] where
  length := by decide
  nodup := by decide

theorem xorDir_isStore : IsStore xorConf [xorStripe] xorDir where
  isStripes := xorStripes_isStripes
  files := by
    have htext : xorFile = [':'].intercalate (List.zipWith (fun b g => b ++ '_' :: g) xorStripe
        (List.replicate 3 "1001".toList)) ++ ['\n'] := by decide
    have hfile : ∀ i (hi : i < xorStripe.length) pre gen, ':' ∉ pre → '_' ∉ gen →
        StripeFile xorStripe i (pre ++ ':' :: (xorStripe[i] ++ '_' :: gen), xorFile) := by
      intro i hi pre gen hpre hgen
      exact ⟨hi, ⟨pre, gen, hpre, hgen, rfl⟩, by decide,
        List.replicate 3 "1001".toList, ['\n'], rfl, by decide, Or.inr rfl, htext⟩
    have hents : (xorDir.filter fun ent => ent.1 ≠ ['.'] ∧ ent.1 ≠ ['.', '.']) =
        [2, 0, 1].map fun i =>
          ("rs".toList ++ ':' :: (xorStripe.getD i [] ++ '_' :: "1001".toList), xorFile) := by
      decide
    refine ⟨[(xorStripe, 2), (xorStripe, 0), (xorStripe, 1)], by decide, ?_⟩
    rw [hents]
    exact .cons (hfile 2 (by decide) _ _ (by decide) (by decide))
      (.cons (hfile 0 (by decide) _ _ (by decide) (by decide))
        (.cons (hfile 1 (by decide) _ _ (by decide) (by decide)) .nil))

/-- The blocks of the report, in its order. -/
def xorFsckBlks : List FsckBlk :=
  [⟨"Live_repl=3 [".toList, "blk_-9223372036854775792".toList,
      ":DatanodeInfoWithStorage".toList, "10.0.0.1".toList⟩,
    ⟨":9866,DS-1,DISK], ".toList, "blk_-9223372036854775791".toList,
      ":DatanodeInfoWithStorage".toList, "10.0.0.2".toList⟩,
    ⟨":9866,DS-2,DISK], ".toList, "blk_-9223372036854775790".toList,
      ":DatanodeInfoWithStorage".toList, "10.0.0.3".toList⟩]

def xorFsckStripe : FsckStripe where
  stripeId := "blk_-9223372036854775792_1001".toList
  len := " len=402653184 ".toList
  blks := xorFsckBlks
  tail := "9866,DS-3,DISK]]".toList

def xorFsckHead : Str :=
  "0. BP-1-10.0.0.9-1545:".toList

def xorFsck : Str :=
  xorFsckHead ++ [xorFsckStripe].flatMap FsckStripe.text

theorem xorFsck_isFsck : IsFsck xorConf [xorStripe] xorFsck where
  isStripes := xorStripes_isStripes
  printed := by
    have hprinted : ∀ b ∈ xorFsckBlks, b.Printed := by
      intro b hb
      simp only [xorFsckBlks, List.mem_cons, List.not_mem_nil, or_false] at hb
      rcases hb with rfl | rfl | rfl <;>
        exact ⟨by decide, by decide, by decide, by decide, by decide⟩
    have hlead : "Live_repl".toList <+: fsckText xorFsckBlks := by decide +kernel
    have hlast : ∀ i, ¬ "Live_repl".toList <+: ("9866,DS-3,DISK]]".toList.drop 8).drop i := by
      intro i hpre
      have hlong : "Live_repl".toList.length = 9 := by decide
      have hshort : ("9866,DS-3,DISK]]".toList.drop 8).length = 8 := by decide
      have hlen := hpre.length_le
      rw [hlong, List.length_drop, hshort] at hlen
      exact absurd (hlen.trans (Nat.sub_le 8 i)) (by decide)
    refine ⟨xorFsckHead, [xorFsckStripe], by rw [xorFsck], ?_, by decide, by decide⟩
    obtain ⟨r, hr⟩ := hlead
    exact ⟨by decide +kernel, by decide, by decide, rfl, hprinted, ⟨r, hr.symm⟩,
      by decide, by decide, hlast⟩

theorem metadata_decodes_single_xor :
    (∃ base, hdfsMetadataBase xorRepairConf xorRSUtil xorDir [] = some base ∧
      base.DecodesSingle xorRepairConf xorRSUtil xorContent xorStripe) ∧
    (∃ base, hdfs3MetadataBase xorRepairConf xorRSUtil xorFsck [] = some base ∧
      base.DecodesSingle xorRepairConf xorRSUtil xorContent xorStripe) := by
  obtain ⟨hhdfs, hhdfs3⟩ := metadata_decodes_single xorRepairConf xorRSUtil xorMat (by decide)
    (by decide) xorRSUtil_decodes [xorStripe] xorContent xorContent_encoded []
  obtain ⟨base, hbase, hall⟩ := hhdfs xorDir xorDir_isStore
  obtain ⟨base3, hbase3, hall3⟩ := hhdfs3 xorFsck xorFsck_isFsck
  exact ⟨⟨base, hbase, (hall xorStripe (by simp)).1⟩, base3, hbase3,
    (hall3 xorStripe (by simp)).1⟩

end CoRD
