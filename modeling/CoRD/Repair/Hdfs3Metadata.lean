import CoRD.Repair.Metadata
import CoRD.Util.Text

/-!
# Hdfs3Metadata — stripes described by the output of `hdfs fsck`

`HDFS3_MetadataBase` searches the report of `hdfs fsck / -files -blocks -locations` for its
stripes.  The report lists the blocks of a stripe data first; the rows of the code count the
parity blocks first.
-/

namespace CoRD

open Std

/-! ## Reading the report -/

/-- The name of the next block behind `startPos`, and the position behind its address.  `none`
where a search ends without a match, which the code does not expect. -/
def fsckBlk (cmdResult : Str) (startPos : Nat) : Option (Str × Nat) := do
  let currentPos ← Text.find "blk_".toList cmdResult startPos
  let blkName := Text.substr cmdResult currentPos 24
  let currentPos ← Text.find ['['] cmdResult currentPos
  let endPos ← Text.find [':'] cmdResult currentPos
  return (blkName, endPos)

/-- The next `n` blocks. -/
def fsckBlks (cmdResult : Str) : Nat → Nat → Option (List Str × Nat)
  | 0, startPos => some ([], startPos)
  | n + 1, startPos => do
      let (blkName, endPos) ← fsckBlk cmdResult startPos
      let (blkNames, lastPos) ← fsckBlks cmdResult n endPos
      return (blkName :: blkNames, lastPos)

/-- One turn of the loop that fills `tempBlkSet`; the second component is `parityIndex`. -/
def placeTemp (ecK : Nat) (st : List Str × Nat) (it : Str × Nat) : List Str × Nat :=
  if it.2 < ecK then (st.1 ++ [it.1], st.2)
  else (st.1.insertIdx st.2 it.1, st.2 + 1)

/-- The blocks of the report, parity blocks to the front. -/
def parityFirst (ecK : Nat) (blkNames : List Str) : List Str :=
  (blkNames.zipIdx.foldl (placeTemp ecK) ([], 0)).1

/-- The locals of the search. -/
structure Fsck where
  blks : TreeSet Str
  stripe2Blk : TreeMap Str (List Str)

section Load

variable (conf : Config) (rsu : RSUtil)

/-- A stripe is found. -/
def Fsck.add (st : Fsck) (stripeId : Str) (blkNames : List Str) : Fsck where
  blks := Tree.addAll blkNames st.blks
  stripe2Blk := st.stripe2Blk.insertIfNew stripeId (parityFirst conf.ecK blkNames)

/-- The search for stripes from `startPos`; each turn moves ahead, so that the length of the text
is enough fuel. -/
def fsckLoop (cmdResult : Str) : Nat → Option Nat → Fsck → Option Fsck
  | _, none, st => some st
  | 0, some _, _ => none
  | fuel + 1, some startPos, st => do
      guard (44 ≤ startPos)
      let stripeId := Text.substr cmdResult (startPos - 44) 29
      let (blkNames, endPos) ← fsckBlks cmdResult conf.ecN startPos
      fsckLoop cmdResult fuel (Text.find "Live_repl".toList cmdResult (endPos + 9))
        (st.add conf stripeId blkNames)

/-- One turn of the loop over the blocks that may help to recover `iterBlk`. -/
def recoverFrom (iterBlk : Str) (st : List Str × TreeMap Str (List Str)) (recoverBlk : Str) :
    List Str × TreeMap Str (List Str) :=
  if iterBlk ≠ recoverBlk then
    if st.1.length < conf.ecK then
      (st.1 ++ [recoverBlk], addRecoveree iterBlk st.2 recoverBlk)
    else st
  else st

/-- The locals of the loops over the stripes and their blocks. -/
structure StripeScan where
  base : MetadataBase
  recoveree : TreeMap Str (List Str)
  idxInStripe : Nat
  id2BlkName : TreeMap Nat Str

/-- One turn of the loop over the blocks of a stripe. -/
def describeBlk (blkNames : List Str) (stripeIdInt : Nat) (st : StripeScan) (iterBlk : Str) :
    StripeScan :=
  let (recoveredBlks, recoveree) := blkNames.foldl (recoverFrom conf iterBlk) ([], st.recoveree)
  let coef := rsu.getCoefficient st.idxInStripe
  { base := { st.base with
      blkIdInStripe := st.base.blkIdInStripe.insert iterBlk st.idxInStripe
      blkName2StripeId := st.base.blkName2StripeId.insert iterBlk stripeIdInt
      coefficient := st.base.coefficient.insert iterBlk
        (Tree.insertAll (coefficientPairs coef recoveredBlks)
          (st.base.coefficient.getD iterBlk ∅)) }
    recoveree := recoveree
    idxInStripe := st.idxInStripe + 1
    id2BlkName := st.id2BlkName.insert st.idxInStripe iterBlk }

/-- One turn of the loop over the stripes; `stripeIdInt` is the number of those before it. -/
def describeStripe (st : MetadataBase × TreeMap Str (List Str)) (it : List Str × Nat) :
    MetadataBase × TreeMap Str (List Str) :=
  let scan := it.1.foldl (describeBlk conf rsu it.1 it.2)
    { base := st.1, recoveree := st.2, idxInStripe := 0, id2BlkName := ∅ }
  ({ scan.base with
      ip2BlkNames := scan.base.ip2BlkNames ++ [∅]
      id2BlkNames := scan.base.id2BlkNames ++ [scan.id2BlkName] }, scan.recoveree)

/-- `GetMetadata` up to the block reports. -/
def readFsck (cmdResult : Str) : Option Described := do
  let fsck ← fsckLoop conf cmdResult (cmdResult.length + 1)
    (Text.find "Live_repl".toList cmdResult 0) ⟨∅, ∅⟩
  let (base, recoveree) := ((fsck.stripe2Blk.toList.map Prod.snd).zipIdx).foldl
    (describeStripe conf rsu) (MetadataBase.empty, ∅)
  return { base := base, blks := fsck.blks, recoveree := recoveree }

end Load

/-- The constructor, with the messages of `blk_init` it receives. -/
def hdfs3MetadataBase (conf : RepairConfig) (rsu : RSUtil) (cmdResult : Str)
    (blkInit : List (Nat × Str)) : Option MetadataBase :=
  (readFsck conf.toConfig rsu cmdResult).map fun d => (d.receive false blkInit).base

/-! ## The rows -/

theorem foldl_placeTemp_data {ecK i : Nat} {l : List Str} {st : List Str × Nat} :
    i + l.length ≤ ecK → (l.zipIdx i).foldl (placeTemp ecK) st = (st.1 ++ l, st.2) := by
  induction l generalizing st i with
  | nil =>
      intro _
      simp
  | cons b l ih =>
      intro h
      rw [List.length_cons] at h
      have hlt : i < ecK := by omega
      rw [List.zipIdx_cons, List.foldl_cons, placeTemp, if_pos hlt, ih (by omega)]
      simp

theorem insertIdx_length_append {p d : List Str} {b : Str} :
    (p ++ d).insertIdx p.length b = p ++ b :: d := by
  induction p with
  | nil =>
      simp
  | cons a p ih =>
      rw [List.cons_append, List.length_cons, List.insertIdx_succ_cons, ih]
      rfl

theorem foldl_placeTemp_parity {ecK i : Nat} {l p d : List Str} :
    ecK ≤ i → (l.zipIdx i).foldl (placeTemp ecK) (p ++ d, p.length) =
      (p ++ l ++ d, p.length + l.length) := by
  induction l generalizing p i with
  | nil =>
      intro _
      simp
  | cons b l ih =>
      intro h
      have hins : (p ++ d).insertIdx p.length b = (p ++ [b]) ++ d := by
        rw [insertIdx_length_append]
        simp
      have hlen : p.length + 1 = (p ++ [b]).length := by simp
      rw [List.zipIdx_cons, List.foldl_cons, placeTemp, if_neg (Nat.not_lt.2 h)]
      simp only [hins]
      rw [hlen, ih (Nat.le_succ_of_le h)]
      simp [Nat.add_comm, Nat.add_left_comm]

/-- The parity blocks come first, each half in the order of the report. -/
theorem parityFirst_append {ecK : Nat} {data parity : List Str} :
    data.length = ecK → parityFirst ecK (data ++ parity) = parity ++ data := by
  intro hlen
  have hdata : (data.zipIdx 0).foldl (placeTemp ecK) ([], 0) = (data, 0) := by
    rw [foldl_placeTemp_data (by omega)]
    rfl
  have hparity := foldl_placeTemp_parity (p := []) (d := data) (l := parity) (i := ecK) le_rfl
  rw [parityFirst, List.zipIdx_append, List.foldl_append, hdata, hlen, Nat.zero_add]
  exact congrArg Prod.fst hparity

/-! ## One stripe -/

section Stripe

variable {conf : Config} {rsu : RSUtil} {s : List Str} {id : Nat}

/-- The blocks that help to recover a block are the first `ecK` others. -/
theorem foldl_recoverFrom {iterBlk : Str} {recoveree : TreeMap Str (List Str)} {l : List Str} :
    l.foldl (recoverFrom conf iterBlk) ([], recoveree) =
      ((l.filter (· ≠ iterBlk)).take conf.ecK,
        ((l.filter (· ≠ iterBlk)).take conf.ecK).foldl (addRecoveree iterBlk) recoveree) := by
  induction l using List.reverseRecOn with
  | nil =>
      simp
  | append_singleton l b ih =>
      rw [List.foldl_append, ih, List.foldl_cons, List.foldl_nil, recoverFrom, List.filter_append,
        List.take_append]
      by_cases hb : b = iterBlk
      · simp [hb]
      · have hlen : ((l.filter (· ≠ iterBlk)).take conf.ecK).length =
            min conf.ecK (l.filter (· ≠ iterBlk)).length := List.length_take
        rw [if_pos (Ne.symm hb)]
        by_cases hk : ((l.filter (· ≠ iterBlk)).take conf.ecK).length < conf.ecK
        · have hroom : conf.ecK - (l.filter (· ≠ iterBlk)).length ≠ 0 := by omega
          obtain ⟨r, hr⟩ := Nat.exists_eq_succ_of_ne_zero hroom
          rw [if_pos hk, hr]
          simp [hb]
        · have hfull : conf.ecK - (l.filter (· ≠ iterBlk)).length = 0 := by omega
          rw [if_neg hk, hfull]
          simp

/-- The locals when the blocks `l` of the stripe `s` are described. -/
structure DescribeInv (conf : Config) (rsu : RSUtil) (s : List Str) (id : Nat) (st₀ : StripeScan)
    (l : List Str) (st : StripeScan) : Prop where
  idxInStripe : st.idxInStripe = l.length
  row : ∀ i (hi : i < l.length), st.base.blkIdInStripe[l[i]]? = some i
  oldRow : ∀ b ∉ l, st.base.blkIdInStripe[b]? = st₀.base.blkIdInStripe[b]?
  ids : ∀ b, st.base.blkName2StripeId[b]? =
    if b ∈ l then some id else st₀.base.blkName2StripeId[b]?
  coefficient : ∀ i (hi : i < l.length), st.base.coefficient.getD l[i] ∅ =
    Tree.insertAll (coefficientPairs (rsu.getCoefficient i) (helperNames conf s i)) ∅
  oldCoefficient : ∀ b ∉ l, st.base.coefficient.getD b ∅ = st₀.base.coefficient.getD b ∅
  recoveree : ∀ h b, b ∈ st.recoveree.getD h [] ↔ b ∈ st₀.recoveree.getD h [] ∨
    ∃ i, l[i]? = some b ∧ h ∈ helperNames conf s i
  id2BlkName : ∀ i (hi : i < l.length), st.id2BlkName[i]? = some l[i]
  id2BlkNames : st.base.id2BlkNames = st₀.base.id2BlkNames
  ip2BlkNames : st.base.ip2BlkNames = st₀.base.ip2BlkNames
  blk2Stripe : st.base.blk2Stripe = st₀.base.blk2Stripe
  blkName2Ip : st.base.blkName2Ip = st₀.base.blkName2Ip

theorem DescribeInv.step {st₀ st : StripeScan} {l : List Str} {b : Str} (hnodup : s.Nodup)
    (hlen : s.length = conf.ecN) (hpre : l ++ [b] <+: s) (hnew : b ∉ l)
    (hold : st₀.base.coefficient.getD b ∅ = ∅) :
    DescribeInv conf rsu s id st₀ l st →
      DescribeInv conf rsu s id st₀ (l ++ [b]) (describeBlk conf rsu s id st b) := by
  intro h
  have hi : l.length < s.length := by
    have hle := hpre.length_le
    rw [List.length_append, List.length_singleton] at hle
    omega
  have hb : s[l.length] = b := by
    have hget := hpre.getElem (i := l.length) (by simp)
    simpa using hget.symm
  have hnames : (s.filter (· ≠ b)).take conf.ecK = helperNames conf s l.length := by
    rw [helperNames_eq hi hnodup hlen, hb]
  have hstep : describeBlk conf rsu s id st b =
      { base := { st.base with
          blkIdInStripe := st.base.blkIdInStripe.insert b l.length
          blkName2StripeId := st.base.blkName2StripeId.insert b id
          coefficient := st.base.coefficient.insert b
            (Tree.insertAll (coefficientPairs (rsu.getCoefficient l.length)
              (helperNames conf s l.length)) ∅) }
        recoveree := (helperNames conf s l.length).foldl (addRecoveree b) st.recoveree
        idxInStripe := l.length + 1
        id2BlkName := st.id2BlkName.insert l.length b } := by
    rw [describeBlk, foldl_recoverFrom, hnames, h.idxInStripe, h.oldCoefficient b hnew, hold]
  have hne : ∀ x ∈ l, compare b x ≠ .eq := by
    intro x hx hc
    exact hnew (LawfulEqCmp.compare_eq_iff_eq.1 hc ▸ hx)
  have hself : compare b b = .eq := LawfulEqCmp.compare_eq_iff_eq.2 rfl
  -- an index of `l ++ [b]` is one of `l` or the last
  have hlast : ∀ i, i < (l ++ [b]).length → i < l.length ∨ i = l.length := by
    intro i hlt
    rw [List.length_append, List.length_singleton] at hlt
    omega
  rw [hstep]
  constructor
  case idxInStripe =>
    simp
  case row =>
    intro i hlt
    rw [TreeMap.getElem?_insert]
    rcases hlast i hlt with hil | rfl
    · rw [List.getElem_append_left hil, if_neg (hne _ (List.getElem_mem hil))]
      exact h.row i hil
    · rw [List.getElem_concat_length rfl, if_pos hself]
  case oldRow =>
    intro x hx
    rw [List.mem_append, List.mem_singleton, not_or] at hx
    rw [TreeMap.getElem?_insert, if_neg fun hc => hx.2 (LawfulEqCmp.compare_eq_iff_eq.1 hc).symm]
    exact h.oldRow x hx.1
  case ids =>
    intro x
    rw [TreeMap.getElem?_insert, h.ids]
    by_cases hx : b = x
    · simp [hx]
    · rw [if_neg fun hc => hx (LawfulEqCmp.compare_eq_iff_eq.1 hc)]
      simp [Ne.symm hx]
  case coefficient =>
    intro i hlt
    rw [TreeMap.getD_insert]
    rcases hlast i hlt with hil | rfl
    · rw [List.getElem_append_left hil, if_neg (hne _ (List.getElem_mem hil))]
      exact h.coefficient i hil
    · rw [List.getElem_concat_length rfl, if_pos hself]
  case oldCoefficient =>
    intro x hx
    rw [List.mem_append, List.mem_singleton, not_or] at hx
    rw [TreeMap.getD_insert, if_neg fun hc => hx.2 (LawfulEqCmp.compare_eq_iff_eq.1 hc).symm]
    exact h.oldCoefficient x hx.1
  case recoveree =>
    intro x y
    rw [mem_foldl_addRecoveree, h.recoveree, or_assoc]
    refine or_congr_right ?_
    constructor
    · rintro (⟨i, hy, hx⟩ | ⟨rfl, hx⟩)
      · have hil := (List.getElem?_eq_some_iff.1 hy).1
        exact ⟨i, by rw [List.getElem?_append_left hil, hy], hx⟩
      · exact ⟨l.length, by simp, hx⟩
    · rintro ⟨i, hy, hx⟩
      rcases hlast i (List.getElem?_eq_some_iff.1 hy).1 with hil | rfl
      · rw [List.getElem?_append_left hil] at hy
        exact Or.inl ⟨i, hy, hx⟩
      · have hyb : b = y := by simpa using hy
        exact Or.inr ⟨hyb.symm, hx⟩
  case id2BlkName =>
    intro i hlt
    rw [TreeMap.getElem?_insert]
    rcases hlast i hlt with hil | rfl
    · have hidx : compare l.length i ≠ .eq :=
        fun hc => Nat.ne_of_gt hil (LawfulEqCmp.compare_eq_iff_eq.1 hc)
      rw [if_neg hidx, List.getElem_append_left hil]
      exact h.id2BlkName i hil
    · rw [if_pos (LawfulEqCmp.compare_eq_iff_eq.2 rfl), List.getElem_concat_length rfl]
  case id2BlkNames =>
    exact h.id2BlkNames
  case ip2BlkNames =>
    exact h.ip2BlkNames
  case blk2Stripe =>
    exact h.blk2Stripe
  case blkName2Ip =>
    exact h.blkName2Ip

theorem describeInv_foldl (conf : Config) (rsu : RSUtil) (id : Nat) (st₀ : StripeScan)
    {l : List Str} (hnodup : s.Nodup)
    (hlen : s.length = conf.ecN) (hidx : st₀.idxInStripe = 0)
    (hold : ∀ b ∈ s, st₀.base.coefficient.getD b ∅ = ∅) :
    l <+: s → DescribeInv conf rsu s id st₀ l (l.foldl (describeBlk conf rsu s id) st₀) := by
  induction l using List.reverseRecOn with
  | nil =>
      intro _
      constructor <;> simp [hidx]
  | append_singleton l b ih =>
      intro hpre
      have hl : l <+: s := (List.prefix_append l [b]).trans hpre
      have hnew : b ∉ l := by
        have hd : (l ++ [b]).Nodup := hnodup.sublist hpre.sublist
        intro hmem
        exact (List.nodup_append.1 hd).2.2 b hmem b (by simp) rfl
      rw [List.foldl_append, List.foldl_cons, List.foldl_nil]
      exact (ih hl).step hnodup hlen hpre hnew (hold b (hpre.subset (by simp)))

end Stripe

/-! ## All stripes -/

section Stripes

variable {conf : Config} {rsu : RSUtil}

/-- The tables when the stripes `done` are described: each has its position as its number. -/
structure StripesInv (conf : Config) (rsu : RSUtil) (done : List (List Str))
    (st : MetadataBase × TreeMap Str (List Str)) : Prop where
  id2BlkNames : st.1.id2BlkNames.length = done.length
  ip2BlkNames : st.1.ip2BlkNames.length = done.length
  places : ∀ id, st.1.ip2BlkNames.getD id ∅ = ∅
  row : ∀ s ∈ done, ∀ i (hi : i < s.length), st.1.blkIdInStripe[s[i]]? = some i
  coefficient : ∀ s ∈ done, ∀ i (hi : i < s.length), st.1.coefficient.getD s[i] ∅ =
    Tree.insertAll (coefficientPairs (rsu.getCoefficient i) (helperNames conf s i)) ∅
  undescribed : ∀ b, (∀ s ∈ done, b ∉ s) → st.1.coefficient.getD b ∅ = ∅
  ids : ∀ id (hid : id < done.length), ∀ b, st.1.blkName2StripeId[b]? = some id ↔ b ∈ done[id]
  idLt : ∀ (b : Str) (id : Nat), st.1.blkName2StripeId[b]? = some id → id < done.length
  names : ∀ id (hid : id < done.length), ∀ i (hi : i < done[id].length),
    (st.1.id2BlkNames.getD id ∅)[i]? = some done[id][i]
  recoveree : ∀ h b, b ∈ st.2.getD h [] ↔
    ∃ s ∈ done, ∃ i, s[i]? = some b ∧ h ∈ helperNames conf s i
  blk2Stripe : st.1.blk2Stripe = ∅
  blkName2Ip : st.1.blkName2Ip = ∅

theorem StripesInv.step {done : List (List Str)} {s : List Str}
    {st : MetadataBase × TreeMap Str (List Str)} (hlen : s.length = conf.ecN) (hnodup : s.Nodup)
    (hdisj : ∀ t ∈ done, ∀ b ∈ s, b ∉ t) :
    StripesInv conf rsu done st →
      StripesInv conf rsu (done ++ [s]) (describeStripe conf rsu st (s, done.length)) := by
  intro h
  have hscan := describeInv_foldl conf rsu done.length
    { base := st.1, recoveree := st.2, idxInStripe := 0, id2BlkName := ∅ } hnodup hlen rfl
    (fun b hb => h.undescribed b fun t ht => hdisj t ht b hb) (List.prefix_refl s)
  rw [describeStripe]
  generalize s.foldl (describeBlk conf rsu s done.length)
    { base := st.1, recoveree := st.2, idxInStripe := 0, id2BlkName := ∅ } = scan at hscan
  have hother : ∀ t ∈ done, ∀ b ∈ t, b ∉ s := fun t ht b hbt hbs => hdisj t ht b hbs hbt
  -- a number of `done ++ [s]` is one of `done` or the last
  have hlast : ∀ id, id < (done ++ [s]).length → id < done.length ∨ id = done.length := by
    intro id hlt
    rw [List.length_append, List.length_singleton] at hlt
    omega
  constructor
  case id2BlkNames =>
    simp [hscan.id2BlkNames, h.id2BlkNames]
  case ip2BlkNames =>
    simp [hscan.ip2BlkNames, h.ip2BlkNames]
  case places =>
    intro id
    simp only [hscan.ip2BlkNames]
    by_cases hlt : id < st.1.ip2BlkNames.length
    · rw [List.getD_append _ _ _ _ hlt]
      exact h.places id
    · rw [List.getD_append_right _ _ _ _ (Nat.le_of_not_lt hlt)]
      cases id - st.1.ip2BlkNames.length <;> rfl
  case row =>
    intro t ht i hi
    rcases List.mem_append.1 ht with ht | ht
    · have hnot := hother t ht _ (List.getElem_mem hi)
      exact (hscan.oldRow _ hnot).trans (h.row t ht i hi)
    · obtain rfl := List.mem_singleton.1 ht
      exact hscan.row i hi
  case coefficient =>
    intro t ht i hi
    rcases List.mem_append.1 ht with ht | ht
    · have hnot := hother t ht _ (List.getElem_mem hi)
      exact (hscan.oldCoefficient _ hnot).trans (h.coefficient t ht i hi)
    · obtain rfl := List.mem_singleton.1 ht
      exact hscan.coefficient i hi
  case undescribed =>
    intro b hb
    have hbs : b ∉ s := hb s (by simp)
    exact (hscan.oldCoefficient b hbs).trans
      (h.undescribed b fun t ht => hb t (List.mem_append_left _ ht))
  case ids =>
    intro id hid b
    simp only [hscan.ids]
    rcases hlast id hid with hlt | rfl
    · rw [List.getElem_append_left hlt]
      by_cases hb : b ∈ s
      · rw [if_pos hb]
        constructor
        · intro hc
          exact absurd (Option.some.inj hc) (Nat.ne_of_gt hlt)
        · intro hbt
          exact absurd hb (hother _ (List.getElem_mem hlt) b hbt)
      · rw [if_neg hb]
        exact h.ids id hlt b
    · rw [List.getElem_concat_length rfl]
      by_cases hb : b ∈ s
      · simp [hb]
      · simp only [hb, if_false, iff_false]
        intro hc
        exact absurd (h.idLt b _ hc) (Nat.lt_irrefl _)
  case idLt =>
    intro b id hid
    simp only [hscan.ids] at hid
    rw [List.length_append, List.length_singleton]
    by_cases hb : b ∈ s
    · rw [if_pos hb] at hid
      exact Option.some.inj hid ▸ Nat.lt_succ_self _
    · rw [if_neg hb] at hid
      exact Nat.lt_succ_of_lt (h.idLt b id hid)
  case names =>
    intro id hid i hi
    simp only [hscan.id2BlkNames]
    rcases hlast id hid with hlt | rfl
    · have hi' : i < done[id].length := by rwa [List.getElem_append_left hlt] at hi
      simp only [List.getElem_append_left hlt]
      rw [List.getD_append _ _ _ _ (h.id2BlkNames.symm ▸ hlt)]
      exact h.names id hlt i hi'
    · have hi' : i < s.length := by rwa [List.getElem_concat_length rfl] at hi
      simp only [List.getElem_concat_length]
      rw [List.getD_append_right _ _ _ _ (Nat.le_of_eq h.id2BlkNames), h.id2BlkNames,
        Nat.sub_self]
      exact hscan.id2BlkName i hi'
  case recoveree =>
    intro x y
    simp only [hscan.recoveree, h.recoveree, List.mem_append, List.mem_singleton, or_and_right,
      exists_or, exists_eq_left]
  case blk2Stripe =>
    exact hscan.blk2Stripe.trans h.blk2Stripe
  case blkName2Ip =>
    exact hscan.blkName2Ip.trans h.blkName2Ip

theorem stripesInv_foldl (rsu : RSUtil) {stripes : List (List Str)} :
    IsStripes conf stripes → StripesInv conf rsu stripes
      (stripes.zipIdx.foldl (describeStripe conf rsu) (MetadataBase.empty, ∅)) := by
  induction stripes using List.reverseRecOn with
  | nil =>
      intro _
      constructor <;> simp [MetadataBase.empty]
  | append_singleton stripes s ih =>
      intro h
      have hnodup : (stripes.flatten ++ s).Nodup := by
        have hflat := h.nodup
        rwa [List.flatten_append, List.flatten_singleton] at hflat
      have hinit : IsStripes conf stripes :=
        ⟨fun t ht => h.length t (List.mem_append_left _ ht), (List.nodup_append.1 hnodup).1⟩
      have hdisj : ∀ t ∈ stripes, ∀ b ∈ s, b ∉ t := by
        intro t ht b hb hbt
        exact (List.nodup_append.1 hnodup).2.2 b (List.mem_flatten.2 ⟨t, ht, hbt⟩) b hb rfl
      rw [List.zipIdx_append, List.foldl_append, List.zipIdx_singleton, List.foldl_cons,
        List.foldl_nil, Nat.zero_add]
      exact (ih hinit).step (h.length s (by simp)) (List.nodup_append.1 hnodup).2.1 hdisj

end Stripes

/-! ## The text of the report -/

/-- One block as the report prints it: what stands before its name, the name, what stands between
the name and the address, and the address. -/
structure FsckBlk where
  lead : Str
  name : Str
  mid : Str
  addr : Str

def FsckBlk.text (b : FsckBlk) : Str :=
  b.lead ++ (b.name ++ (b.mid ++ '[' :: b.addr))

/-- The searches stop where they should. -/
structure FsckBlk.Printed (b : FsckBlk) : Prop where
  lead : Text.FirstAfter "blk_".toList b.lead
  name : "blk_".toList <+: b.name
  length : b.name.length = 24
  bracket : '[' ∉ b.name ++ b.mid
  colon : ':' ∉ b.addr

/-- The blocks of a stripe: behind each address stands a colon, which is the first character in
front of the next block. -/
def fsckText (bs : List FsckBlk) : Str :=
  bs.flatMap FsckBlk.text

/-- One stripe as the report prints it: its name and length, its blocks, and what follows them. -/
structure FsckStripe where
  stripeId : Str
  len : Str
  blks : List FsckBlk
  tail : Str

def FsckStripe.text (st : FsckStripe) : Str :=
  st.stripeId ++ (st.len ++ (fsckText st.blks ++ ':' :: st.tail))

/-- `u` stands in front of the stripes, and the search for stripes finds each at its place. -/
def Follows (ecN : Nat) : Str → List FsckStripe → Prop
  | u, [] => ∀ i, ¬ "Live_repl".toList <+: u.drop i
  | u, st :: sts =>
      Text.FirstAfter "Live_repl".toList (u ++ (st.stripeId ++ st.len)) ∧
      st.stripeId.length = 29 ∧ st.len.length = 15 ∧ st.blks.length = ecN ∧
      (∀ b ∈ st.blks, b.Printed) ∧
      (∃ r, fsckText st.blks = "Live_repl".toList ++ r) ∧
      (∀ b ∈ st.blks.tail, [':'] <+: b.lead) ∧
      8 ≤ st.tail.length ∧ Follows ecN (st.tail.drop 8) sts

section Search

variable {conf : Config}

theorem fsckBlk_eq {b : FsckBlk} {w v : Str} :
    b.Printed → fsckBlk (w ++ (b.text ++ ':' :: v)) w.length =
      some (b.name, w.length + b.text.length) := by
  intro h
  obtain ⟨rest, hrest⟩ := h.name
  -- the text, cut at the places where the three searches and the copy begin
  have hcut₁ : w ++ (b.text ++ ':' :: v) =
      w ++ (b.lead ++ ("blk_".toList ++ (rest ++ (b.mid ++ '[' :: (b.addr ++ ':' :: v))))) := by
    rw [FsckBlk.text, ← hrest]
    simp
  have hcut₂ : w ++ (b.text ++ ':' :: v) =
      (w ++ b.lead) ++ (b.name ++ (b.mid ++ '[' :: (b.addr ++ ':' :: v))) := by
    rw [FsckBlk.text]
    simp
  have hcut₃ : w ++ (b.text ++ ':' :: v) =
      (w ++ b.lead) ++ ((b.name ++ b.mid) ++ (['['] ++ (b.addr ++ ':' :: v))) := by
    rw [FsckBlk.text]
    simp
  have hcut₄ : w ++ (b.text ++ ':' :: v) =
      (w ++ b.lead ++ (b.name ++ b.mid)) ++ (('[' :: b.addr) ++ ([':'] ++ v)) := by
    rw [FsckBlk.text]
    simp
  have hfind₁ : Text.find "blk_".toList (w ++ (b.text ++ ':' :: v)) w.length =
      some (w.length + b.lead.length) := by
    rw [hcut₁]
    exact Text.find_append h.lead rfl
  have hname : Text.substr (w ++ (b.text ++ ':' :: v)) (w.length + b.lead.length) 24 = b.name := by
    rw [hcut₂]
    exact Text.substr_append List.length_append.symm h.length.symm
  have hfind₂ : Text.find ['['] (w ++ (b.text ++ ':' :: v)) (w.length + b.lead.length) =
      some (w.length + b.lead.length + (b.name ++ b.mid).length) := by
    rw [hcut₃]
    exact Text.find_append (Text.firstAfter_singleton h.bracket) List.length_append.symm
  have hfind₃ : Text.find [':'] (w ++ (b.text ++ ':' :: v))
      (w.length + b.lead.length + (b.name ++ b.mid).length) =
      some (w.length + b.lead.length + (b.name ++ b.mid).length + ('[' :: b.addr).length) := by
    rw [hcut₄]
    refine Text.find_append (Text.firstAfter_singleton ?_) ?_
    · simpa using h.colon
    · simp only [List.length_append]
  have hend : w.length + b.lead.length + (b.name ++ b.mid).length + ('[' :: b.addr).length =
      w.length + b.text.length := by
    simp [FsckBlk.text, Nat.add_assoc]
  rw [fsckBlk, hfind₁]
  simp only [Option.bind_eq_bind, Option.bind_some, hname, hfind₂, hfind₃, hend]
  rfl

theorem fsckBlks_eq {bs : List FsckBlk} {w v : Str} (hp : ∀ b ∈ bs, b.Printed)
    (hlead : ∀ b ∈ bs.tail, [':'] <+: b.lead) :
    fsckBlks (w ++ (fsckText bs ++ ':' :: v)) bs.length w.length =
      some (bs.map FsckBlk.name, w.length + (fsckText bs).length) := by
  induction bs generalizing w with
  | nil =>
      rfl
  | cons b bs ih =>
      -- behind the address stands a colon, of the next block or of the tail
      obtain ⟨v', hv'⟩ : ∃ v', fsckText bs ++ ':' :: v = ':' :: v' := by
        cases bs with
        | nil => exact ⟨v, rfl⟩
        | cons b' bs =>
            obtain ⟨r, hr⟩ := hlead b' (by simp)
            refine ⟨r ++ (b'.name ++ (b'.mid ++ '[' :: b'.addr)) ++
              (fsckText bs ++ ':' :: v), ?_⟩
            simp [fsckText, FsckBlk.text, ← hr]
      have htext : w ++ (fsckText (b :: bs) ++ ':' :: v) = w ++ (b.text ++ ':' :: v') := by
        rw [← hv']
        simp [fsckText]
      have hrest : w ++ (fsckText (b :: bs) ++ ':' :: v) =
          (w ++ b.text) ++ (fsckText bs ++ ':' :: v) := by
        simp [fsckText]
      have hhead : fsckBlk (w ++ (fsckText (b :: bs) ++ ':' :: v)) w.length =
          some (b.name, w.length + b.text.length) := by
        rw [htext]
        exact fsckBlk_eq (hp b (by simp))
      have htail : fsckBlks (w ++ (fsckText (b :: bs) ++ ':' :: v)) bs.length
          (w.length + b.text.length) =
          some (bs.map FsckBlk.name, w.length + b.text.length + (fsckText bs).length) := by
        rw [hrest, ← List.length_append]
        exact ih (fun c hc => hp c (List.mem_cons_of_mem b hc))
          fun c hc => hlead c (List.mem_of_mem_tail hc)
      rw [List.length_cons, fsckBlks, hhead]
      simp only [Option.bind_eq_bind, Option.bind_some, htail]
      simp [fsckText, Nat.add_assoc]

/-- The search finds the stripes in the order of the report. -/
theorem fsckLoop_eq {sts : List FsckStripe} {w u : Str} {fuel : Nat} (st : Fsck)
    (h : Follows conf.ecN u sts) :
    sts.length ≤ fuel →
      fsckLoop conf (w ++ (u ++ sts.flatMap FsckStripe.text)) fuel
        (Text.find "Live_repl".toList (w ++ (u ++ sts.flatMap FsckStripe.text)) w.length) st =
      some (sts.foldl
        (fun st it => st.add conf it.stripeId (it.blks.map FsckBlk.name)) st) := by
  induction sts generalizing w u fuel st with
  | nil =>
      intro _
      have hnone : Text.find "Live_repl".toList
          (w ++ (u ++ [].flatMap FsckStripe.text)) w.length = none := by
        rw [Text.find, List.drop_left, List.flatMap_nil, List.append_nil, Text.findIn_eq_none h]
        rfl
      rw [hnone]
      cases fuel <;> rfl
  | cons s sts ih =>
      intro hfuel
      obtain ⟨hfirst, hid, hlen, hn, hp, ⟨r, hr⟩, hlead, htail, hrest⟩ := h
      cases fuel with
      | zero =>
          exact absurd hfuel (Nat.not_succ_le_zero _)
      | succ fuel =>
          -- the text, cut where the stripe begins, where its blocks begin, and behind the colon
          -- and eight more characters
          have hcut₁ : w ++ (u ++ (s :: sts).flatMap FsckStripe.text) =
              w ++ ((u ++ (s.stripeId ++ s.len)) ++
                ("Live_repl".toList ++ (r ++ ':' :: (s.tail ++ sts.flatMap FsckStripe.text)))) := by
            rw [List.flatMap_cons, FsckStripe.text, hr]
            simp
          have hcut₂ : w ++ (u ++ (s :: sts).flatMap FsckStripe.text) =
              (w ++ u) ++ (s.stripeId ++ (s.len ++ (fsckText s.blks ++
                ':' :: (s.tail ++ sts.flatMap FsckStripe.text)))) := by
            rw [List.flatMap_cons, FsckStripe.text]
            simp
          have hcut₃ : w ++ (u ++ (s :: sts).flatMap FsckStripe.text) =
              (w ++ (u ++ (s.stripeId ++ s.len))) ++ (fsckText s.blks ++
                ':' :: (s.tail ++ sts.flatMap FsckStripe.text)) := by
            rw [List.flatMap_cons, FsckStripe.text]
            simp
          have hcut₄ : w ++ (u ++ (s :: sts).flatMap FsckStripe.text) =
              (w ++ (u ++ (s.stripeId ++ s.len)) ++ (fsckText s.blks ++ ':' :: s.tail.take 8)) ++
                (s.tail.drop 8 ++ sts.flatMap FsckStripe.text) := by
            have hsplit : s.tail ++ sts.flatMap FsckStripe.text =
                s.tail.take 8 ++ (s.tail.drop 8 ++ sts.flatMap FsckStripe.text) := by
              rw [← List.append_assoc, List.take_append_drop]
            rw [List.flatMap_cons, FsckStripe.text]
            simp [hsplit]
          have hpos : (w ++ (u ++ (s.stripeId ++ s.len))).length = w.length + u.length + 44 := by
            simp [hid, hlen, Nat.add_assoc]
          have hfind : Text.find "Live_repl".toList
              (w ++ (u ++ (s :: sts).flatMap FsckStripe.text)) w.length =
              some (w.length + u.length + 44) := by
            rw [hcut₁, Text.find_append hfirst rfl, ← hpos]
            simp only [List.length_append]
          have hstripe : Text.substr (w ++ (u ++ (s :: sts).flatMap FsckStripe.text))
              (w.length + u.length + 44 - 44) 29 = s.stripeId := by
            rw [hcut₂]
            exact Text.substr_append (by rw [Nat.add_sub_cancel, List.length_append]) hid.symm
          have hblks : fsckBlks (w ++ (u ++ (s :: sts).flatMap FsckStripe.text)) conf.ecN
              (w.length + u.length + 44) = some (s.blks.map FsckBlk.name,
                w.length + u.length + 44 + (fsckText s.blks).length) := by
            rw [hcut₃, ← hpos, ← hn]
            exact fsckBlks_eq hp hlead
          have hnext : w.length + u.length + 44 + (fsckText s.blks).length + 9 =
              (w ++ (u ++ (s.stripeId ++ s.len)) ++
                (fsckText s.blks ++ ':' :: s.tail.take 8)).length := by
            rw [List.length_append, hpos]
            simp [htail, Nat.add_assoc]
          have hguard : guard (44 ≤ w.length + u.length + 44) = (some () : Option Unit) :=
            if_pos (Nat.le_add_left _ _)
          rw [hfind, fsckLoop, hguard]
          simp only [Option.bind_eq_bind, Option.bind_some, hstripe, hblks]
          rw [hnext, hcut₄, List.foldl_cons]
          exact ih _ hrest (Nat.le_of_succ_le_succ hfuel)

end Search

/-- The report describes the stripes: it lists the blocks of each data first, in the row order of
the code the parity blocks come first. -/
structure IsFsck (conf : Config) (stripes : List (List Str)) (cmdResult : Str) : Prop where
  isStripes : IsStripes conf stripes
  printed : ∃ pre sts, cmdResult = pre ++ sts.flatMap FsckStripe.text ∧
    Follows conf.ecN pre sts ∧ (sts.map FsckStripe.stripeId).Nodup ∧
    stripes = sts.map fun st =>
      (st.blks.map FsckBlk.name).drop conf.ecK ++ (st.blks.map FsckBlk.name).take conf.ecK

section Reports

variable {conf : Config} {rsu : RSUtil} {stripes : List (List Str)} {cmdResult : Str}

theorem Follows.length_le {u : Str} {sts : List FsckStripe} {ecN : Nat} :
    Follows ecN u sts → sts.length ≤ (sts.flatMap FsckStripe.text).length := by
  induction sts generalizing u with
  | nil =>
      intro _
      exact Nat.le_refl 0
  | cons s sts ih =>
      intro h
      have hrest := ih h.2.2.2.2.2.2.2.2
      rw [List.flatMap_cons, List.length_append, List.length_cons, FsckStripe.text]
      simp only [List.length_append, List.length_cons]
      omega

theorem Follows.length_blks {u : Str} {sts : List FsckStripe} {ecN : Nat} :
    Follows ecN u sts → ∀ st ∈ sts, st.blks.length = ecN := by
  induction sts generalizing u with
  | nil =>
      intro _ st hst
      cases hst
  | cons s sts ih =>
      intro h st hst
      rcases List.mem_cons.1 hst with rfl | hst
      · exact h.2.2.2.1
      · exact ih h.2.2.2.2.2.2.2.2 st hst

/-- What the search leaves in its locals. -/
theorem foldl_add {sts : List FsckStripe} {fsck : Fsck} :
    sts.foldl (fun st it => st.add conf it.stripeId (it.blks.map FsckBlk.name)) fsck =
      { blks := Tree.addAll (sts.flatMap fun it => it.blks.map FsckBlk.name) fsck.blks
        stripe2Blk := Tree.insertAll (sts.map fun it =>
          (it.stripeId, parityFirst conf.ecK (it.blks.map FsckBlk.name))) fsck.stripe2Blk } := by
  induction sts generalizing fsck with
  | nil =>
      rfl
  | cons s sts ih =>
      rw [List.foldl_cons, ih, List.flatMap_cons]
      simp [Fsck.add, Tree.addAll, Tree.insertAll]

/-- The tables of a report that describes stripes. -/
theorem readFsck_describes (rsu : RSUtil) (hk : conf.ecK ≤ conf.ecN) :
    IsFsck conf stripes cmdResult →
      ∃ d, readFsck conf rsu cmdResult = some d ∧ d.Describes conf rsu stripes := by
  intro h
  obtain ⟨pre, sts, htext, hfollows, hids, hstripes⟩ := h.printed
  have hrows : (sts.map fun it => parityFirst conf.ecK (it.blks.map FsckBlk.name)) = stripes := by
    rw [hstripes]
    refine List.map_congr_left fun st hst => ?_
    have hdata : ((st.blks.map FsckBlk.name).take conf.ecK).length = conf.ecK := by
      rw [List.length_take, List.length_map, hfollows.length_blks st hst]
      exact Nat.min_eq_left hk
    conv_lhs => rw [← List.take_append_drop conf.ecK (st.blks.map FsckBlk.name)]
    exact parityFirst_append hdata
  -- the stripes in the order of their names
  let table : TreeMap Str (List Str) := Tree.insertAll (sts.map fun it =>
    (it.stripeId, parityFirst conf.ecK (it.blks.map FsckBlk.name))) ∅
  have hperm : (table.toList.map Prod.snd).Perm stripes := by
    have hkeys : ((sts.map fun it =>
        (it.stripeId, parityFirst conf.ecK (it.blks.map FsckBlk.name))).map Prod.fst).Nodup := by
      rw [List.map_map]
      exact hids
    have hlist : table.toList.Perm (sts.map fun it =>
        (it.stripeId, parityFirst conf.ecK (it.blks.map FsckBlk.name))) :=
      Tree.toList_insertAll_empty hkeys
    refine (hlist.map Prod.snd).trans (List.Perm.of_eq ?_)
    rw [List.map_map]
    exact hrows
  have hmem : ∀ s, s ∈ table.toList.map Prod.snd ↔ s ∈ stripes := fun s => hperm.mem_iff
  have hsorted : IsStripes conf (table.toList.map Prod.snd) :=
    ⟨fun s hs => h.isStripes.length s ((hmem s).1 hs),
      hperm.flatten.nodup_iff.2 h.isStripes.nodup⟩
  have hfound : fsckLoop conf cmdResult (cmdResult.length + 1)
      (Text.find "Live_repl".toList cmdResult 0) ⟨∅, ∅⟩ =
      some ⟨Tree.addAll (sts.flatMap fun it => it.blks.map FsckBlk.name) ∅, table⟩ := by
    have hfuel : sts.length ≤ cmdResult.length + 1 := by
      have hle := hfollows.length_le
      rw [htext, List.length_append]
      omega
    have hloop := fsckLoop_eq (w := []) ⟨∅, ∅⟩ hfollows hfuel
    rw [List.nil_append, ← htext, foldl_add] at hloop
    exact hloop
  have hinv := stripesInv_foldl rsu hsorted
  have hread : readFsck conf rsu cmdResult = some
      { base := ((table.toList.map Prod.snd).zipIdx.foldl (describeStripe conf rsu)
          (MetadataBase.empty, ∅)).1
        blks := Tree.addAll (sts.flatMap fun it => it.blks.map FsckBlk.name) ∅
        recoveree := ((table.toList.map Prod.snd).zipIdx.foldl (describeStripe conf rsu)
          (MetadataBase.empty, ∅)).2 } := by
    rw [readFsck, hfound]
    rfl
  refine ⟨_, hread, ?_⟩
  generalize (table.toList.map Prod.snd).zipIdx.foldl (describeStripe conf rsu)
    (MetadataBase.empty, ∅) = st at hinv
  constructor
  case row =>
    intro s hs
    exact hinv.row s ((hmem s).2 hs)
  case coefficient =>
    intro s hs
    exact hinv.coefficient s ((hmem s).2 hs)
  case stripe =>
    intro s hs
    obtain ⟨id, hid, rfl⟩ := List.mem_iff_getElem.1 ((hmem s).2 hs)
    exact ⟨id, hinv.ip2BlkNames.symm ▸ hid, hinv.places id, hinv.ids id hid, hinv.names id hid⟩
  case blks =>
    intro b
    rw [Tree.mem_addAll, List.mem_flatMap, hstripes]
    simp only [TreeSet.not_mem_emptyc, or_false, List.mem_map, exists_exists_and_eq_and,
      List.mem_append]
    refine exists_congr fun st => and_congr_right fun _ => ?_
    rw [← List.mem_map, ← List.mem_append, List.mem_append, Or.comm, ← List.mem_append,
      List.take_append_drop]
  case recoveree =>
    intro x b
    rw [hinv.recoveree]
    constructor
    · rintro ⟨s, hs, i, heq, hx⟩
      obtain ⟨hi, hb⟩ := List.getElem?_eq_some_iff.1 heq
      exact ⟨s, (hmem s).1 hs, i, hi, hb, hx⟩
    · rintro ⟨s, hs, i, hi, rfl, hx⟩
      exact ⟨s, (hmem s).2 hs, i, List.getElem?_eq_getElem hi, hx⟩
  case blk2Stripe =>
    exact hinv.blk2Stripe
  case blkName2Ip =>
    exact hinv.blkName2Ip

end Reports

end CoRD
