import CoRD.Repair.Metadata
import CoRD.Util.Text

/-!
# HdfsMetadata — stripes described by the files of a directory

`HDFS_MetadataBase` reads one file for each block.  Its name ends in the name of the block, its
content lists the blocks of the stripe, row by row.  The first file of a stripe also gives the
stripe its number.  The files may come in any order.
-/

namespace CoRD

open Std

/-! ## Reading the directory -/

/-- The locals of the constructor between two files; `stripeCnt` is `stripeId + 1`. -/
structure HdfsLoad extends Described where
  stripeCnt : Nat

/-- The locals of the loop over the blocks of one file.  `bidInStripe` starts without a value. -/
structure FileScan where
  base : MetadataBase
  recoveree : TreeMap Str (List Str)
  idxInStripe : Nat
  recoveredBlks : List Str
  bidInStripe : Option Nat
  id2BlkName : TreeMap Nat Str

section Load

variable (conf : Config) (rsu : RSUtil)

/-- One turn of the loop over the blocks `bName` that the file of `blkName` lists. -/
def scanBlk (blkName : Str) (newStripe : Bool) (stripeId : Nat) (st : FileScan) (bName : Str) :
    FileScan :=
  let base :=
    if newStripe then
      { st.base with blkName2StripeId := st.base.blkName2StripeId.insert bName stripeId }
    else st.base
  if bName ≠ blkName then
    let base := { base with
      blk2All := base.blk2All.insert blkName ((base.blk2All.getD blkName ∅).insert bName) }
    if st.recoveredBlks.length < conf.ecK then
      { st with
        base := base
        recoveredBlks := st.recoveredBlks ++ [bName]
        recoveree := addRecoveree blkName st.recoveree bName
        idxInStripe := st.idxInStripe + 1 }
    -- `ecK` blocks are chosen already; this one is only listed in `_blk2All`
    else { st with base := base, idxInStripe := st.idxInStripe + 1 }
  else
    let base := { base with
      blkIdInStripe := base.blkIdInStripe.insert blkName st.idxInStripe }
    -- the lost block itself
    let st := { st with bidInStripe := some st.idxInStripe, idxInStripe := st.idxInStripe + 1 }
    if newStripe then
      { st with
        base := base
        id2BlkName := st.id2BlkName.insert (st.idxInStripe - 1) blkName }
    else
      { st with
        base := { base with
          id2BlkNames := base.id2BlkNames.modify (base.blkName2StripeId.getD blkName 0)
            fun m => m.insert (st.idxInStripe - 1) blkName } }

/-- The name of the block a file is for. -/
def fileBlkName (dName : Str) : Str :=
  Text.beforeLast '_' (Text.afterFirst ':' dName)

/-- The names that the content of a file lists. -/
def fileBlks (rawStripe : Str) : List Str :=
  let rawStripe := if rawStripe.getLast? = some '\n' then rawStripe.dropLast else rawStripe
  (rawStripe.splitOn ':').map (Text.beforeLast '_')

/-- One turn of the loop over the files. -/
def readFile (load : HdfsLoad) (file : Str × Str) : HdfsLoad :=
  let blkName := fileBlkName file.1
  let newStripe := decide (blkName ∉ load.base.blkName2StripeId)
  let stripeCnt := if newStripe then load.stripeCnt + 1 else load.stripeCnt
  let scan := (fileBlks file.2).foldl (scanBlk conf blkName newStripe (stripeCnt - 1))
    { base := load.base, recoveree := load.recoveree, idxInStripe := 0, recoveredBlks := []
      bidInStripe := none, id2BlkName := ∅ }
  -- of the lost block's row; 0 stands for an index that no turn of the loop has set
  let coef := rsu.getCoefficient (scan.bidInStripe.getD 0)
  let base := { scan.base with
    coefficient := scan.base.coefficient.insert blkName
      (Tree.insertAll (coefficientPairs coef scan.recoveredBlks)
        (scan.base.coefficient.getD blkName ∅)) }
  { base :=
      if newStripe then
        { base with
          id2BlkNames := base.id2BlkNames ++ [scan.id2BlkName]
          ip2BlkNames := base.ip2BlkNames ++ [∅] }
      else base
    blks := load.blks.insert blkName
    recoveree := scan.recoveree
    stripeCnt := stripeCnt }

/-- The loop over the directory, and the check behind it; `none` where the check exits. -/
def readStripeStore (dir : List (Str × Str)) : Option Described :=
  let load := (dir.filter fun ent => ent.1 ≠ ['.'] ∧ ent.1 ≠ ['.', '.']).foldl
    (readFile conf rsu) ⟨⟨MetadataBase.empty, ∅, ∅⟩, 0⟩
  if load.base.id2BlkNames.length ≠ load.stripeCnt ∨
      load.base.ip2BlkNames.length ≠ load.stripeCnt then none
  else some load.toDescribed

end Load

/-- The constructor, with the messages of `blk_init` it receives. -/
def hdfsMetadataBase (conf : RepairConfig) (rsu : RSUtil) (dir : List (Str × Str))
    (blkInit : List (Nat × Str)) : Option MetadataBase :=
  (readStripeStore conf.toConfig rsu dir).map fun d => (d.receive conf.msscheduling blkInit).base

/-! ## One file -/

section Scan

variable (conf : Config) (blkName : Str) (newStripe : Bool) (stripeId : Nat)

/-- What one turn of the loop over the blocks of a file does to each of its locals. -/
structure ScanStep (st : FileScan) (bName : Str) (st' : FileScan) : Prop where
  idxInStripe : st'.idxInStripe = st.idxInStripe + 1
  recoveredBlks : st'.recoveredBlks =
    if bName ≠ blkName ∧ st.recoveredBlks.length < conf.ecK then st.recoveredBlks ++ [bName]
    else st.recoveredBlks
  recoveree : st'.recoveree =
    if bName ≠ blkName ∧ st.recoveredBlks.length < conf.ecK then
      addRecoveree blkName st.recoveree bName
    else st.recoveree
  bidInStripe : st'.bidInStripe = if bName = blkName then some st.idxInStripe else st.bidInStripe
  blkName2StripeId : st'.base.blkName2StripeId =
    if newStripe then st.base.blkName2StripeId.insert bName stripeId
    else st.base.blkName2StripeId
  blkIdInStripe : st'.base.blkIdInStripe =
    if bName = blkName then st.base.blkIdInStripe.insert blkName st.idxInStripe
    else st.base.blkIdInStripe
  id2BlkName : st'.id2BlkName =
    if newStripe ∧ bName = blkName then st.id2BlkName.insert st.idxInStripe blkName
    else st.id2BlkName
  id2BlkNames : st'.base.id2BlkNames =
    if ¬ newStripe ∧ bName = blkName then
      st.base.id2BlkNames.modify (st.base.blkName2StripeId.getD blkName 0)
        fun m => m.insert st.idxInStripe blkName
    else st.base.id2BlkNames
  coefficient : st'.base.coefficient = st.base.coefficient
  ip2BlkNames : st'.base.ip2BlkNames = st.base.ip2BlkNames
  blk2Stripe : st'.base.blk2Stripe = st.base.blk2Stripe
  blkName2Ip : st'.base.blkName2Ip = st.base.blkName2Ip

theorem scanBlk_step (st : FileScan) (bName : Str) :
    ScanStep conf blkName newStripe stripeId st bName
      (scanBlk conf blkName newStripe stripeId st bName) := by
  by_cases hb : bName = blkName
  · cases newStripe <;> constructor <;> simp [scanBlk, hb]
  · by_cases hk : st.recoveredBlks.length < conf.ecK
    · cases newStripe <;> constructor <;> simp [scanBlk, hb, hk]
    · cases newStripe <;> constructor <;> simp [scanBlk, hb, hk]

/-- All blocks of a stripe get its number. -/
def numberAll (stripeId : Nat) (l : List Str) (m : TreeMap Str Nat) : TreeMap Str Nat :=
  l.foldl (fun m b => m.insert b stripeId) m

/-- The locals behind the names `l`. -/
structure ScanInv (st₀ : FileScan) (l : List Str) (st : FileScan) : Prop where
  idxInStripe : st.idxInStripe = l.length
  recoveredBlks : st.recoveredBlks = (l.filter (· ≠ blkName)).take conf.ecK
  recoveree : st.recoveree = st.recoveredBlks.foldl (addRecoveree blkName) st₀.recoveree
  bidInStripe : blkName ∈ l → st.bidInStripe = some (l.idxOf blkName)
  blkName2StripeId : st.base.blkName2StripeId =
    if newStripe then numberAll stripeId l st₀.base.blkName2StripeId
    else st₀.base.blkName2StripeId
  blkIdInStripe : st.base.blkIdInStripe =
    if blkName ∈ l then st₀.base.blkIdInStripe.insert blkName (l.idxOf blkName)
    else st₀.base.blkIdInStripe
  id2BlkName : st.id2BlkName =
    if newStripe ∧ blkName ∈ l then st₀.id2BlkName.insert (l.idxOf blkName) blkName
    else st₀.id2BlkName
  id2BlkNames : st.base.id2BlkNames =
    if ¬ newStripe ∧ blkName ∈ l then
      st₀.base.id2BlkNames.modify (st₀.base.blkName2StripeId.getD blkName 0)
        fun m => m.insert (l.idxOf blkName) blkName
    else st₀.base.id2BlkNames
  coefficient : st.base.coefficient = st₀.base.coefficient
  ip2BlkNames : st.base.ip2BlkNames = st₀.base.ip2BlkNames
  blk2Stripe : st.base.blk2Stripe = st₀.base.blk2Stripe
  blkName2Ip : st.base.blkName2Ip = st₀.base.blkName2Ip

variable {conf blkName newStripe stripeId}

theorem ScanInv.step {st₀ st st' : FileScan} {l : List Str} {bName : Str}
    (h : ScanInv conf blkName newStripe stripeId st₀ l st) (hnew : bName ∉ l)
    (hs : ScanStep conf blkName newStripe stripeId st bName st') :
    ScanInv conf blkName newStripe stripeId st₀ (l ++ [bName]) st' := by
  have hmem : blkName ∈ l ++ [bName] ↔ blkName ∈ l ∨ bName = blkName := by
    simp [eq_comm]
  -- the own block is met at its position, once
  have hown : bName = blkName → blkName ∉ l ∧ (l ++ [bName]).idxOf blkName = st.idxInStripe := by
    rintro rfl
    refine ⟨hnew, ?_⟩
    rw [List.idxOf_append_of_notMem hnew, h.idxInStripe]
    simp
  have hpos : blkName ∈ l → (l ++ [bName]).idxOf blkName = l.idxOf blkName :=
    List.idxOf_append_of_mem
  constructor
  case idxInStripe =>
    rw [hs.idxInStripe, h.idxInStripe, List.length_append]
    rfl
  case recoveredBlks =>
    have hlen : st.recoveredBlks.length = min conf.ecK (l.filter (· ≠ blkName)).length := by
      rw [h.recoveredBlks, List.length_take]
    rw [hs.recoveredBlks, List.filter_append, List.take_append, ← h.recoveredBlks]
    by_cases hb : bName = blkName
    · simp [hb]
    · by_cases hk : st.recoveredBlks.length < conf.ecK
      · have hroom : conf.ecK - (l.filter (· ≠ blkName)).length ≠ 0 := by omega
        obtain ⟨r, hr⟩ := Nat.exists_eq_succ_of_ne_zero hroom
        rw [if_pos ⟨hb, hk⟩, hr]
        simp [hb]
      · have hfull : conf.ecK - (l.filter (· ≠ blkName)).length = 0 := by omega
        rw [if_neg fun hc => hk hc.2, hfull]
        simp
  case recoveree =>
    rw [hs.recoveree, hs.recoveredBlks, h.recoveree]
    split
    · rw [List.foldl_append]
      rfl
    · rfl
  case bidInStripe =>
    intro hin
    rw [hs.bidInStripe]
    by_cases hb : bName = blkName
    · rw [if_pos hb, (hown hb).2]
    · have hl := (hmem.1 hin).resolve_right hb
      rw [if_neg hb, hpos hl, h.bidInStripe hl]
  case blkName2StripeId =>
    rw [hs.blkName2StripeId, h.blkName2StripeId]
    cases newStripe <;> simp [numberAll]
  case blkIdInStripe =>
    rw [hs.blkIdInStripe, h.blkIdInStripe]
    by_cases hb : bName = blkName
    · rw [if_pos hb, if_neg (hown hb).1, if_pos (hmem.2 (Or.inr hb)), (hown hb).2]
    · by_cases hl : blkName ∈ l
      · rw [if_neg hb, if_pos hl, if_pos (hmem.2 (Or.inl hl)), hpos hl]
      · rw [if_neg hb, if_neg hl, if_neg fun hc => (hmem.1 hc).elim hl hb]
  case id2BlkName =>
    rw [hs.id2BlkName, h.id2BlkName]
    by_cases hb : bName = blkName
    · obtain ⟨hl, hidx⟩ := hown hb
      by_cases hn : newStripe = true
      · rw [if_pos ⟨hn, hb⟩, if_neg fun hc => hl hc.2, if_pos ⟨hn, hmem.2 (Or.inr hb)⟩, hidx]
      · rw [if_neg fun hc => hn hc.1, if_neg fun hc => hn hc.1, if_neg fun hc => hn hc.1]
    · rw [if_neg fun hc => hb hc.2]
      by_cases hc : newStripe = true ∧ blkName ∈ l
      · rw [if_pos hc, if_pos ⟨hc.1, hmem.2 (Or.inl hc.2)⟩, hpos hc.2]
      · rw [if_neg hc, if_neg fun hc' => hc ⟨hc'.1, (hmem.1 hc'.2).resolve_right hb⟩]
  case id2BlkNames =>
    rw [hs.id2BlkNames, h.id2BlkNames]
    by_cases hb : bName = blkName
    · obtain ⟨hl, hidx⟩ := hown hb
      by_cases hn : newStripe = true
      · rw [if_neg fun hc => hc.1 hn, if_neg fun hc => hc.1 hn, if_neg fun hc => hc.1 hn]
      · have hids : st.base.blkName2StripeId = st₀.base.blkName2StripeId := by
          rw [h.blkName2StripeId, if_neg hn]
        rw [if_pos ⟨hn, hb⟩, if_neg fun hc => hl hc.2, if_pos ⟨hn, hmem.2 (Or.inr hb)⟩, hids, hidx]
    · rw [if_neg fun hc => hb hc.2]
      by_cases hc : ¬ newStripe = true ∧ blkName ∈ l
      · rw [if_pos hc, if_pos ⟨hc.1, hmem.2 (Or.inl hc.2)⟩, hpos hc.2]
      · rw [if_neg hc, if_neg fun hc' => hc ⟨hc'.1, (hmem.1 hc'.2).resolve_right hb⟩]
  case coefficient =>
    exact hs.coefficient.trans h.coefficient
  case ip2BlkNames =>
    exact hs.ip2BlkNames.trans h.ip2BlkNames
  case blk2Stripe =>
    exact hs.blk2Stripe.trans h.blk2Stripe
  case blkName2Ip =>
    exact hs.blkName2Ip.trans h.blkName2Ip

theorem scanInv_foldl (st₀ : FileScan) (hidx : st₀.idxInStripe = 0)
    (hrec : st₀.recoveredBlks = []) {l : List Str} :
    l.Nodup → ScanInv conf blkName newStripe stripeId st₀ l
      (l.foldl (scanBlk conf blkName newStripe stripeId) st₀) := by
  induction l using List.reverseRecOn with
  | nil =>
      intro _
      constructor <;> simp [hidx, hrec, numberAll]
  | append_singleton l bName ih =>
      intro hnodup
      have hl : l.Nodup := (List.nodup_append.1 hnodup).1
      have hnew : bName ∉ l := by
        intro hmem
        exact (List.nodup_append.1 hnodup).2.2 bName hmem bName (by simp) rfl
      rw [List.foldl_append, List.foldl_cons, List.foldl_nil]
      exact (ih hl).step hnew (scanBlk_step conf blkName newStripe stripeId _ bName)

end Scan

/-! ## All files -/

theorem getElem?_numberAll {l : List Str} {id : Nat} {m : TreeMap Str Nat} {b : Str} :
    (numberAll id l m)[b]? = if b ∈ l then some id else m[b]? := by
  induction l generalizing m with
  | nil =>
      simp [numberAll]
  | cons a l ih =>
      have hcons : numberAll id (a :: l) m = numberAll id l (m.insert a id) := rfl
      rw [hcons, ih, TreeMap.getElem?_insert]
      by_cases hl : b ∈ l
      · simp [hl]
      · by_cases ha : b = a
        · simp [ha]
        · rw [if_neg hl, if_neg fun hc => ha (LawfulEqCmp.compare_eq_iff_eq.1 hc).symm,
            if_neg fun hc => (List.mem_cons.1 hc).elim ha hl]

/-- The stripe `s` has the number `id`, and those of its rows are in the table whose files are
read. -/
structure Known (load : HdfsLoad) (done : List (List Str × Nat)) (s : List Str) (id : Nat) :
    Prop where
  lt : id < load.stripeCnt
  ids : ∀ b, load.base.blkName2StripeId[b]? = some id ↔ b ∈ s
  rows : ∀ i, (s, i) ∈ done → ∀ hi : i < s.length,
    (load.base.id2BlkNames.getD id ∅)[i]? = some s[i]

/-- The locals of the constructor when the files of the rows `done` are read. -/
structure LoadInv (conf : Config) (rsu : RSUtil) (done : List (List Str × Nat))
    (load : HdfsLoad) : Prop where
  id2BlkNames : load.base.id2BlkNames.length = load.stripeCnt
  ip2BlkNames : load.base.ip2BlkNames.length = load.stripeCnt
  places : ∀ id, load.base.ip2BlkNames.getD id ∅ = ∅
  row : ∀ p ∈ done, ∀ hi : p.2 < p.1.length, load.base.blkIdInStripe[p.1[p.2]]? = some p.2
  coefficient : ∀ p ∈ done, ∀ hi : p.2 < p.1.length, load.base.coefficient.getD p.1[p.2] ∅ =
    Tree.insertAll (coefficientPairs (rsu.getCoefficient p.2) (helperNames conf p.1 p.2)) ∅
  unread : ∀ b, (∀ p ∈ done, p.1[p.2]? ≠ some b) → load.base.coefficient.getD b ∅ = ∅
  seen : ∀ p ∈ done, ∃ id, Known load done p.1 id
  unseen : ∀ b id, load.base.blkName2StripeId[b]? = some id →
    id < load.stripeCnt ∧ ∃ p ∈ done, b ∈ p.1
  blks : ∀ b, b ∈ load.blks ↔ ∃ p ∈ done, p.1[p.2]? = some b
  recoveree : ∀ h b, b ∈ load.recoveree.getD h [] ↔
    ∃ p ∈ done, p.1[p.2]? = some b ∧ h ∈ helperNames conf p.1 p.2
  blk2Stripe : load.base.blk2Stripe = ∅
  blkName2Ip : load.base.blkName2Ip = ∅

theorem loadInv_nil (conf : Config) (rsu : RSUtil) :
    LoadInv conf rsu [] ⟨⟨MetadataBase.empty, ∅, ∅⟩, 0⟩ := by
  constructor <;> simp [MetadataBase.empty]

section Files

variable {conf : Config} {rsu : RSUtil} {stripes : List (List Str)}
  {done : List (List Str × Nat)} {load : HdfsLoad}

/-- Different rows have different names. -/
theorem IsStripes.row_eq {s t : List Str} {i j : Nat} (hj : j < t.length)
    (h : IsStripes conf stripes) (hs : s ∈ stripes) (ht : t ∈ stripes) :
    s[i]? = some t[j] → s = t ∧ i = j := by
  intro heq
  obtain rfl : s = t := h.eq_of_mem hs ht (List.mem_of_getElem? heq) (List.getElem_mem hj)
  obtain ⟨hi, hget⟩ := List.getElem?_eq_some_iff.1 heq
  exact ⟨rfl, (h.stripe_nodup hs).getElem_inj_iff.1 hget⟩

/-- What reading the file of row `i` of stripe `s` does to each of the locals. -/
structure ReadStep (conf : Config) (rsu : RSUtil) (s : List Str) (i : Nat) (b : Str)
    (load load' : HdfsLoad) : Prop where
  stripeCnt : load'.stripeCnt =
    if b ∉ load.base.blkName2StripeId then load.stripeCnt + 1 else load.stripeCnt
  blkIdInStripe : load'.base.blkIdInStripe = load.base.blkIdInStripe.insert b i
  coefficient : load'.base.coefficient = load.base.coefficient.insert b
    (Tree.insertAll (coefficientPairs (rsu.getCoefficient i) (helperNames conf s i))
      (load.base.coefficient.getD b ∅))
  recoveree : load'.recoveree =
    (helperNames conf s i).foldl (addRecoveree b) load.recoveree
  blks : load'.blks = load.blks.insert b
  blkName2StripeId : load'.base.blkName2StripeId =
    if b ∉ load.base.blkName2StripeId then
      numberAll load.stripeCnt s load.base.blkName2StripeId
    else load.base.blkName2StripeId
  id2BlkNames : load'.base.id2BlkNames =
    if b ∉ load.base.blkName2StripeId then
      load.base.id2BlkNames ++ [(∅ : TreeMap Nat Str compare).insert i b]
    else load.base.id2BlkNames.modify (load.base.blkName2StripeId.getD b 0)
      fun m => m.insert i b
  ip2BlkNames : load'.base.ip2BlkNames =
    if b ∉ load.base.blkName2StripeId then load.base.ip2BlkNames ++ [(∅ : TreeMap Nat Str compare)]
    else load.base.ip2BlkNames
  blk2Stripe : load'.base.blk2Stripe = load.base.blk2Stripe
  blkName2Ip : load'.base.blkName2Ip = load.base.blkName2Ip

theorem readFile_step {s : List Str} {i : Nat} {file : Str × Str} (hnodup : s.Nodup)
    (hlen : s.length = conf.ecN) (hi : i < s.length) (hname : fileBlkName file.1 = s[i])
    (hblks : fileBlks file.2 = s) :
    ReadStep conf rsu s i s[i] load (readFile conf rsu load file) := by
  have hin : s[i] ∈ s := List.getElem_mem hi
  have hidx : s.idxOf s[i] = i := hnodup.idxOf_getElem i hi
  let st₀ : FileScan :=
    { base := load.base, recoveree := load.recoveree, idxInStripe := 0, recoveredBlks := []
      bidInStripe := none, id2BlkName := ∅ }
  by_cases hnew : s[i] ∉ load.base.blkName2StripeId
  · -- the first file of its stripe: a number is given out and two tables grow
    have hscan : ScanInv conf s[i] true load.stripeCnt st₀ s
        (s.foldl (scanBlk conf s[i] true load.stripeCnt) st₀) :=
      scanInv_foldl st₀ rfl rfl hnodup
    have hread : readFile conf rsu load file =
        let scan := s.foldl (scanBlk conf s[i] true load.stripeCnt) st₀
        { base := { scan.base with
            coefficient := scan.base.coefficient.insert s[i]
              (Tree.insertAll (coefficientPairs (rsu.getCoefficient (scan.bidInStripe.getD 0))
                scan.recoveredBlks) (scan.base.coefficient.getD s[i] ∅))
            id2BlkNames := scan.base.id2BlkNames ++ [scan.id2BlkName]
            ip2BlkNames := scan.base.ip2BlkNames ++ [∅] }
          blks := load.blks.insert s[i]
          recoveree := scan.recoveree
          stripeCnt := load.stripeCnt + 1 } := by
      simp [readFile, hname, hblks, hnew, st₀]
    rw [hread]
    generalize s.foldl (scanBlk conf s[i] true load.stripeCnt) st₀ = scan at hscan
    constructor <;> simp [hnew, hscan.bidInStripe hin, hidx, hin, hscan.recoveredBlks,
      hscan.recoveree, hscan.blkIdInStripe, hscan.blkName2StripeId, hscan.id2BlkName,
      hscan.id2BlkNames, hscan.coefficient, hscan.ip2BlkNames, hscan.blk2Stripe,
      hscan.blkName2Ip, helperNames_eq hi hnodup hlen, st₀]
  · -- a later file: the name has its number already
    have hscan : ScanInv conf s[i] false (load.stripeCnt - 1) st₀ s
        (s.foldl (scanBlk conf s[i] false (load.stripeCnt - 1)) st₀) :=
      scanInv_foldl st₀ rfl rfl hnodup
    have hread : readFile conf rsu load file =
        let scan := s.foldl (scanBlk conf s[i] false (load.stripeCnt - 1)) st₀
        { base := { scan.base with
            coefficient := scan.base.coefficient.insert s[i]
              (Tree.insertAll (coefficientPairs (rsu.getCoefficient (scan.bidInStripe.getD 0))
                scan.recoveredBlks) (scan.base.coefficient.getD s[i] ∅)) }
          blks := load.blks.insert s[i]
          recoveree := scan.recoveree
          stripeCnt := load.stripeCnt } := by
      simp [readFile, hname, hblks, hnew, st₀]
    rw [hread]
    generalize s.foldl (scanBlk conf s[i] false (load.stripeCnt - 1)) st₀ = scan at hscan
    constructor <;> simp [hnew, hscan.bidInStripe hin, hidx, hin, hscan.recoveredBlks,
      hscan.recoveree, hscan.blkIdInStripe, hscan.blkName2StripeId,
      hscan.id2BlkNames, hscan.coefficient, hscan.ip2BlkNames, hscan.blk2Stripe,
      hscan.blkName2Ip, helperNames_eq hi hnodup hlen, st₀]

/-- The file of a block of a stripe whose number is known. -/
theorem Known.step_known {s t : List Str} {i id id' : Nat} {load' : HdfsLoad}
    (hstripes : IsStripes conf stripes) (hs : s ∈ stripes) (ht : t ∈ stripes) (hi : i < s.length)
    (hids : load'.base.blkName2StripeId = load.base.blkName2StripeId)
    (hcnt : load'.stripeCnt = load.stripeCnt)
    (hlen : load.base.id2BlkNames.length = load.stripeCnt)
    (hnames : load'.base.id2BlkNames = load.base.id2BlkNames.modify id fun m => m.insert i s[i])
    (hknown : Known load done s id) :
    Known load done t id' → Known load' ((s, i) :: done) t id' := by
  intro h
  have hlt : id' < load.base.id2BlkNames.length := hlen.symm ▸ h.lt
  have hget : load'.base.id2BlkNames.getD id' ∅ =
      if id = id' then (load.base.id2BlkNames.getD id' ∅).insert i s[i]
      else load.base.id2BlkNames.getD id' ∅ := by
    rw [hnames, List.getD_eq_getElem?_getD, List.getElem?_modify, List.getD_eq_getElem?_getD,
      List.getElem?_eq_getElem hlt]
    by_cases heq : id = id' <;> simp [heq]
  constructor
  case lt =>
    exact hcnt.symm ▸ h.lt
  case ids =>
    intro b
    rw [hids]
    exact h.ids b
  case rows =>
    intro j hj hjt
    rw [hget]
    by_cases heq : id = id'
    · -- both numbers are the same, so both stripes are
      subst heq
      have hbt : s[i] ∈ t := (h.ids _).1 ((hknown.ids _).2 (List.getElem_mem hi))
      obtain rfl : s = t := hstripes.eq_of_mem hs ht (List.getElem_mem hi) hbt
      rw [if_pos rfl, TreeMap.getElem?_insert]
      by_cases hij : i = j
      · subst hij
        rw [if_pos (LawfulEqCmp.compare_eq_iff_eq.2 rfl)]
      · have hold : (s, j) ∈ done := by
          refine (List.mem_cons.1 hj).resolve_left fun hc => hij ?_
          exact (Prod.ext_iff.1 hc).2.symm
        rw [if_neg fun hc => hij (LawfulEqCmp.compare_eq_iff_eq.1 hc)]
        exact h.rows j hold hjt
    · have hold : (t, j) ∈ done := by
        refine (List.mem_cons.1 hj).resolve_left fun hc => heq ?_
        obtain rfl : t = s := (Prod.ext_iff.1 hc).1
        have h₁ := (hknown.ids _).2 (List.getElem_mem hi)
        have h₂ := (h.ids _).2 (List.getElem_mem hi)
        exact Option.some.inj (h₁.symm.trans h₂)
      rw [if_neg heq]
      exact h.rows j hold hjt

/-- The first file of a stripe, for the stripes before it. -/
theorem Known.step_new {s t : List Str} {i id : Nat} {load' : HdfsLoad}
    (hstripes : IsStripes conf stripes) (hs : s ∈ stripes) (ht : t ∈ stripes)
    (hfirst : ∀ j, (s, j) ∉ done) (hseen : ∃ j, (t, j) ∈ done)
    (hids : load'.base.blkName2StripeId =
      numberAll load.stripeCnt s load.base.blkName2StripeId)
    (hcnt : load'.stripeCnt = load.stripeCnt + 1)
    (hlen : load.base.id2BlkNames.length = load.stripeCnt)
    (hnames : ∃ m, load'.base.id2BlkNames = load.base.id2BlkNames ++ [m]) :
    Known load done t id → Known load' ((s, i) :: done) t id := by
  intro h
  have hne : t ≠ s := by
    rintro rfl
    obtain ⟨j, hj⟩ := hseen
    exact hfirst j hj
  constructor
  case lt =>
    exact hcnt.symm ▸ Nat.lt_succ_of_lt h.lt
  case ids =>
    intro b
    rw [hids, getElem?_numberAll]
    by_cases hb : b ∈ s
    · rw [if_pos hb]
      constructor
      · intro hc
        exact absurd (Option.some.inj hc) (Nat.ne_of_gt h.lt)
      · intro hbt
        exact absurd (hstripes.eq_of_mem ht hs hbt hb) hne
    · rw [if_neg hb]
      exact h.ids b
  case rows =>
    intro j hj hjt
    have hold : (t, j) ∈ done :=
      (List.mem_cons.1 hj).resolve_left fun hc => hne (Prod.ext_iff.1 hc).1
    obtain ⟨m, hm⟩ := hnames
    have hlt : id < load.base.id2BlkNames.length := hlen.symm ▸ h.lt
    rw [hm, List.getD_append _ _ _ _ hlt]
    exact h.rows j hold hjt

/-- The first file of a stripe makes the stripe known, under the next number. -/
theorem LoadInv.seen_new {s : List Str} {i : Nat} {load' : HdfsLoad}
    (hstripes : IsStripes conf stripes) (hdone : ∀ p ∈ done, p.1 ∈ stripes)
    (hs : s ∈ stripes) (hi : i < s.length) (hr : ReadStep conf rsu s i s[i] load load')
    (h : LoadInv conf rsu done load) (hb : s[i] ∉ load.base.blkName2StripeId) :
    ∀ p ∈ (s, i) :: done, ∃ id, Known load' ((s, i) :: done) p.1 id := by
  have hnone : load.base.blkName2StripeId[s[i]]? = none := TreeMap.getElem?_eq_none hb
  have hfirst : ∀ j, (s, j) ∉ done := by
    intro j hj
    obtain ⟨id, hid⟩ := h.seen (s, j) hj
    have hsome := (hid.ids s[i]).2 (List.getElem_mem hi)
    rw [hnone] at hsome
    cases hsome
  intro p hp
  rcases List.mem_cons.1 hp with rfl | hp
  · refine ⟨load.stripeCnt, ?_, ?_, ?_⟩
    · rw [hr.stripeCnt, if_pos hb]
      exact Nat.lt_succ_self _
    · intro b
      rw [hr.blkName2StripeId, if_pos hb, getElem?_numberAll]
      by_cases hbs : b ∈ s
      · simp [hbs]
      · simp only [hbs, if_false, iff_false]
        intro hc
        exact absurd (h.unseen b _ hc).1 (Nat.lt_irrefl _)
    · intro j hj hjs
      obtain rfl : j = i := by
        rcases List.mem_cons.1 hj with heq | hj
        · exact (Prod.ext_iff.1 heq).2
        · exact absurd hj (hfirst j)
      rw [hr.id2BlkNames, if_pos hb,
        List.getD_append_right _ _ _ _ (Nat.le_of_eq h.id2BlkNames), h.id2BlkNames]
      simp
  · obtain ⟨id, hid⟩ := h.seen p hp
    refine ⟨id, hid.step_new hstripes hs (hdone p hp) hfirst ⟨p.2, hp⟩ ?_ ?_
      h.id2BlkNames ⟨(∅ : TreeMap Nat Str compare).insert i s[i], ?_⟩⟩
    · rw [hr.blkName2StripeId, if_pos hb]
    · rw [hr.stripeCnt, if_pos hb]
    · rw [hr.id2BlkNames, if_pos hb]

/-- Another file of a stripe finds its number. -/
theorem LoadInv.seen_known {s : List Str} {i : Nat} {load' : HdfsLoad}
    (hstripes : IsStripes conf stripes) (hdone : ∀ p ∈ done, p.1 ∈ stripes)
    (hs : s ∈ stripes) (hi : i < s.length) (hr : ReadStep conf rsu s i s[i] load load')
    (h : LoadInv conf rsu done load) (hb : ¬ s[i] ∉ load.base.blkName2StripeId) :
    ∀ p ∈ (s, i) :: done, ∃ id, Known load' ((s, i) :: done) p.1 id := by
  obtain ⟨id, hid⟩ := Option.isSome_iff_exists.1
    (TreeMap.mem_iff_isSome_getElem?.1 (not_not.1 hb))
  obtain ⟨_, q, hq, hqs⟩ := h.unseen _ _ hid
  have hsq : s = q.1 := hstripes.eq_of_mem hs (hdone q hq) (List.getElem_mem hi) hqs
  have hknown : Known load done s id := by
    obtain ⟨id', hid'⟩ := h.seen q hq
    rw [← hsq] at hid'
    have hsome := (hid'.ids s[i]).2 (List.getElem_mem hi)
    rw [hid] at hsome
    exact Option.some.inj hsome ▸ hid'
  have hids : load'.base.blkName2StripeId = load.base.blkName2StripeId := by
    rw [hr.blkName2StripeId, if_neg hb]
  have hcnt : load'.stripeCnt = load.stripeCnt := by
    rw [hr.stripeCnt, if_neg hb]
  have hnames : load'.base.id2BlkNames =
      load.base.id2BlkNames.modify id fun m => m.insert i s[i] := by
    rw [hr.id2BlkNames, if_neg hb, TreeMap.getD_eq_getD_getElem?, hid]
    rfl
  intro p hp
  rcases List.mem_cons.1 hp with rfl | hp
  · exact ⟨id, Known.step_known hstripes hs hs hi hids hcnt h.id2BlkNames hnames hknown hknown⟩
  · obtain ⟨id', hid'⟩ := h.seen p hp
    exact ⟨id', Known.step_known hstripes hs (hdone p hp) hi hids hcnt h.id2BlkNames hnames hknown
      hid'⟩

theorem LoadInv.step {s : List Str} {i : Nat} {load' : HdfsLoad}
    (hstripes : IsStripes conf stripes) (hdone : ∀ p ∈ done, p.1 ∈ stripes)
    (hs : s ∈ stripes) (hi : i < s.length) (hnew : (s, i) ∉ done)
    (hr : ReadStep conf rsu s i s[i] load load') :
    LoadInv conf rsu done load → LoadInv conf rsu ((s, i) :: done) load' := by
  intro h
  -- a row is the block `s[i]` only if it is row `i` of `s`
  have hrow : ∀ p ∈ done, p.1[p.2]? ≠ some s[i] := by
    intro p hp heq
    obtain ⟨h₁, h₂⟩ := hstripes.row_eq hi (hdone p hp) hs heq
    exact hnew (by rw [← h₁, ← h₂]; exact hp)
  have hother : ∀ p ∈ done, ∀ hp : p.2 < p.1.length, s[i] ≠ p.1[p.2] := by
    intro p hp hlt heq
    exact hrow p hp (by rw [heq, List.getElem?_eq_getElem hlt])
  constructor
  case id2BlkNames =>
    rw [hr.id2BlkNames, hr.stripeCnt]
    by_cases hb : s[i] ∉ load.base.blkName2StripeId
    · simp [if_pos hb, h.id2BlkNames]
    · simp [if_neg hb, h.id2BlkNames]
  case ip2BlkNames =>
    rw [hr.ip2BlkNames, hr.stripeCnt]
    by_cases hb : s[i] ∉ load.base.blkName2StripeId
    · simp [if_pos hb, h.ip2BlkNames]
    · simp [if_neg hb, h.ip2BlkNames]
  case places =>
    intro id
    rw [hr.ip2BlkNames]
    split
    · by_cases hlt : id < load.base.ip2BlkNames.length
      · rw [List.getD_append _ _ _ _ hlt]
        exact h.places id
      · rw [List.getD_append_right _ _ _ _ (Nat.le_of_not_lt hlt)]
        cases id - load.base.ip2BlkNames.length <;> rfl
    · exact h.places id
  case row =>
    intro p hp hlt
    rw [hr.blkIdInStripe, TreeMap.getElem?_insert]
    rcases List.mem_cons.1 hp with rfl | hp
    · rw [if_pos (LawfulEqCmp.compare_eq_iff_eq.2 rfl)]
    · rw [if_neg fun hc => hother p hp hlt (LawfulEqCmp.compare_eq_iff_eq.1 hc)]
      exact h.row p hp hlt
  case coefficient =>
    intro p hp hlt
    rw [hr.coefficient, TreeMap.getD_insert]
    rcases List.mem_cons.1 hp with rfl | hp
    · rw [if_pos (LawfulEqCmp.compare_eq_iff_eq.2 rfl), h.unread _ hrow]
    · rw [if_neg fun hc => hother p hp hlt (LawfulEqCmp.compare_eq_iff_eq.1 hc)]
      exact h.coefficient p hp hlt
  case unread =>
    intro b hb
    have hne : s[i] ≠ b := by
      rintro rfl
      exact hb (s, i) (by simp) (List.getElem?_eq_getElem hi)
    rw [hr.coefficient, TreeMap.getD_insert,
      if_neg fun hc => hne (LawfulEqCmp.compare_eq_iff_eq.1 hc)]
    exact h.unread b fun p hp => hb p (List.mem_cons_of_mem _ hp)
  case seen =>
    by_cases hb : s[i] ∉ load.base.blkName2StripeId
    · exact h.seen_new hstripes hdone hs hi hr hb
    · exact h.seen_known hstripes hdone hs hi hr hb
  case unseen =>
    intro b id hid
    by_cases hb : s[i] ∉ load.base.blkName2StripeId
    · rw [hr.blkName2StripeId, if_pos hb, getElem?_numberAll] at hid
      rw [hr.stripeCnt, if_pos hb]
      by_cases hbs : b ∈ s
      · rw [if_pos hbs] at hid
        exact ⟨Option.some.inj hid ▸ Nat.lt_succ_self _, (s, i), by simp, hbs⟩
      · rw [if_neg hbs] at hid
        obtain ⟨hlt, p, hp, hbp⟩ := h.unseen b id hid
        exact ⟨Nat.lt_succ_of_lt hlt, p, List.mem_cons_of_mem _ hp, hbp⟩
    · rw [hr.blkName2StripeId, if_neg hb] at hid
      rw [hr.stripeCnt, if_neg hb]
      obtain ⟨hlt, p, hp, hbp⟩ := h.unseen b id hid
      exact ⟨hlt, p, List.mem_cons_of_mem _ hp, hbp⟩
  case blks =>
    intro b
    rw [hr.blks, TreeSet.mem_insert, LawfulEqCmp.compare_eq_iff_eq, h.blks]
    simp [List.getElem?_eq_getElem hi]
  case recoveree =>
    intro x b
    rw [hr.recoveree, mem_foldl_addRecoveree, h.recoveree]
    simp only [List.mem_cons, exists_eq_or_imp, List.getElem?_eq_getElem hi, Option.some.injEq]
    constructor
    · rintro (hold | ⟨rfl, hx⟩)
      · exact Or.inr hold
      · exact Or.inl ⟨rfl, hx⟩
    · rintro (⟨rfl, hx⟩ | hold)
      · exact Or.inr ⟨rfl, hx⟩
      · exact Or.inl hold
  case blk2Stripe =>
    exact hr.blk2Stripe.trans h.blk2Stripe
  case blkName2Ip =>
    exact hr.blkName2Ip.trans h.blkName2Ip

end Files

/-! ## The directory -/

/-- The file for row `i` of stripe `s`: its name is `prefix:blk_gen`, and it lists the blocks of
the stripe with their generations, with or without an end of line. -/
structure StripeFile (s : List Str) (i : Nat) (file : Str × Str) : Prop where
  lt : i < s.length
  name : ∃ pre gen, ':' ∉ pre ∧ '_' ∉ gen ∧ file.1 = pre ++ ':' :: (s[i] ++ '_' :: gen)
  names : ∀ b ∈ s, ':' ∉ b
  content : ∃ gens : List Str, ∃ nl, gens.length = s.length ∧
    (∀ g ∈ gens, '_' ∉ g ∧ ':' ∉ g ∧ '\n' ∉ g) ∧ (nl = [] ∨ nl = ['\n']) ∧
    file.2 = [':'].intercalate (List.zipWith (fun b g => b ++ '_' :: g) s gens) ++ nl

section Stores

variable {conf : Config} {rsu : RSUtil} {stripes : List (List Str)} {s : List Str} {i : Nat}
  {file : Str × Str}

theorem StripeFile.fileBlkName_eq {hi : i < s.length} (h : StripeFile s i file) :
    fileBlkName file.1 = s[i] := by
  obtain ⟨pre, gen, hpre, hgen, hname⟩ := h.name
  rw [fileBlkName, hname, Text.afterFirst_append hpre, Text.beforeLast_append hgen]

theorem StripeFile.fileBlks_eq (h : StripeFile s i file) : fileBlks file.2 = s := by
  obtain ⟨gens, nl, hlen, hgens, hnl, hfile⟩ := h.content
  have hcount : (List.zipWith (fun b g => b ++ '_' :: g) s gens).length = s.length := by
    rw [List.length_zipWith, hlen, Nat.min_self]
  have hne : List.zipWith (fun b g => b ++ '_' :: g) s gens ≠ [] := by
    intro hc
    rw [hc] at hcount
    exact absurd h.lt (hcount ▸ Nat.not_lt_zero i)
  have hline : ∀ l ∈ List.zipWith (fun b g => b ++ '_' :: g) s gens,
      ∃ b ∈ s, ∃ g ∈ gens, l = b ++ '_' :: g := by
    intro l hl
    obtain ⟨j, hj, rfl⟩ := List.mem_iff_getElem.1 hl
    have hjs : j < s.length := hcount ▸ hj
    rw [List.getElem_zipWith]
    exact ⟨_, List.getElem_mem hjs, _, List.getElem_mem (hlen.symm ▸ hjs), rfl⟩
  -- the end of line is the only one
  have hstrip : (if file.2.getLast? = some '\n' then file.2.dropLast else file.2) =
      [':'].intercalate (List.zipWith (fun b g => b ++ '_' :: g) s gens) := by
    rcases hnl with rfl | rfl
    · obtain ⟨a, ha, hnot⟩ := Text.getLast?_intercalate [':'] (P := (· ≠ '\n')) hne
        fun l hl => by
          obtain ⟨b, _, g, hg, rfl⟩ := hline l hl
          rw [List.getLast?_append_of_ne_nil _ (by simp), List.getLast?_cons]
          refine ⟨_, rfl, ?_⟩
          cases hlast : g.getLast? with
          | none => simp
          | some x =>
              rintro rfl
              exact (hgens g hg).2.2 (List.mem_of_getLast? hlast)
      rw [hfile, List.append_nil, ha, if_neg fun hc => hnot (Option.some.inj hc)]
    · simp [hfile]
  rw [fileBlks, hstrip, List.splitOn_intercalate ':' ?_ hne]
  · refine List.ext_getElem (by simpa using hcount) fun j hj hjs => ?_
    have hjg : j < gens.length := hlen.symm ▸ hjs
    rw [List.getElem_map, List.getElem_zipWith,
      Text.beforeLast_append (hgens _ (List.getElem_mem hjg)).1]
  · intro l hl
    obtain ⟨b, hb, g, hg, rfl⟩ := hline l hl
    simp [h.names b hb, (hgens g hg).2.1]

/-- All rows of all stripes. -/
def stripeRows (stripes : List (List Str)) : List (List Str × Nat) :=
  stripes.flatMap fun s => (List.range s.length).map fun i => (s, i)

theorem mem_stripeRows {p : List Str × Nat} :
    p ∈ stripeRows stripes ↔ p.1 ∈ stripes ∧ p.2 < p.1.length := by
  rw [stripeRows, List.mem_flatMap]
  constructor
  · rintro ⟨s, hs, hp⟩
    obtain ⟨i, hi, rfl⟩ := List.mem_map.1 hp
    exact ⟨hs, List.mem_range.1 hi⟩
  · rintro ⟨hs, hi⟩
    exact ⟨p.1, hs, List.mem_map.2 ⟨p.2, List.mem_range.2 hi, rfl⟩⟩

theorem stripeRows_nodup (h : stripes.flatten.Nodup) : (stripeRows stripes).Nodup := by
  have hnames : (stripeRows stripes).map (fun p => p.1.getD p.2 []) = stripes.flatten := by
    rw [stripeRows, List.map_flatMap, ← List.flatMap_id]
    refine List.flatMap_congr fun s _ => ?_
    rw [List.map_map]
    exact map_getD_range s
  exact List.Nodup.of_map _ (hnames ▸ h)

/-- The directory holds one file for each block, in any order, beside `.` and `..`. -/
structure IsStore (conf : Config) (stripes : List (List Str)) (dir : List (Str × Str)) : Prop where
  isStripes : IsStripes conf stripes
  files : ∃ rows, rows.Perm (stripeRows stripes) ∧ List.Forall₂ (fun p => StripeFile p.1 p.2) rows
    (dir.filter fun ent => ent.1 ≠ ['.'] ∧ ent.1 ≠ ['.', '.'])

/-- Reading files row by row, in any order. -/
theorem loadInv_foldl (rsu : RSUtil) (done : List (List Str × Nat))
    {rows : List (List Str × Nat)} {files : List (Str × Str)}
    {load : HdfsLoad} (hstripes : IsStripes conf stripes)
    (hdone : ∀ p ∈ done, p.1 ∈ stripes) (hrows : ∀ p ∈ rows, p.1 ∈ stripes)
    (hnodup : (rows ++ done).Nodup)
    (hfiles : List.Forall₂ (fun p => StripeFile p.1 p.2) rows files) :
    LoadInv conf rsu done load →
      LoadInv conf rsu (rows.reverse ++ done) (files.foldl (readFile conf rsu) load) := by
  induction hfiles generalizing done load with
  | nil =>
      intro h
      exact h
  | @cons p file rows files hp _ ih =>
      intro h
      have hs : p.1 ∈ stripes := hrows p (by simp)
      have hperm : (p :: rows ++ done).Perm (rows ++ p :: done) := List.perm_middle.symm
      have hnodup' : (rows ++ p :: done).Nodup := hperm.nodup_iff.1 hnodup
      have hnew : (p.1, p.2) ∉ done := by
        have hpd : (p :: done).Nodup := (List.nodup_append.1 hnodup').2.1
        exact (List.nodup_cons.1 hpd).1
      have hstep := h.step hstripes hdone hs hp.lt hnew
        (readFile_step (hstripes.stripe_nodup hs) (hstripes.length _ hs) hp.lt hp.fileBlkName_eq
          hp.fileBlks_eq)
      have hrest := ih (p :: done) (by simpa [hs] using hdone)
        (fun q hq => hrows q (List.mem_cons_of_mem _ hq)) hnodup' hstep
      rw [List.reverse_cons, List.append_assoc]
      exact hrest

/-- The tables of a directory that describes stripes. -/
theorem readStripeStore_describes (rsu : RSUtil) {dir : List (Str × Str)} (hn : 0 < conf.ecN) :
    IsStore conf stripes dir →
      ∃ d, readStripeStore conf rsu dir = some d ∧ d.Describes conf rsu stripes := by
  intro h
  obtain ⟨rows, hperm, hfiles⟩ := h.files
  have hrow : ∀ p, p ∈ rows.reverse ++ [] ↔ p.1 ∈ stripes ∧ p.2 < p.1.length := by
    intro p
    rw [List.append_nil, List.mem_reverse, hperm.mem_iff, mem_stripeRows]
  have hload := loadInv_foldl rsu [] h.isStripes (by simp)
    (fun p hp => (mem_stripeRows.1 (hperm.mem_iff.1 hp)).1)
    (by rw [List.append_nil]; exact hperm.nodup_iff.2 (stripeRows_nodup h.isStripes.nodup))
    hfiles (loadInv_nil conf rsu)
  -- the two sizes agree, so it does not exit
  have hread : readStripeStore conf rsu dir =
      some ((dir.filter fun ent => ent.1 ≠ ['.'] ∧ ent.1 ≠ ['.', '.']).foldl
        (readFile conf rsu) ⟨⟨MetadataBase.empty, ∅, ∅⟩, 0⟩).toDescribed := by
    rw [readStripeStore, if_neg]
    exact not_or.2 ⟨not_not.2 hload.id2BlkNames, not_not.2 hload.ip2BlkNames⟩
  refine ⟨_, hread, ?_⟩
  generalize (dir.filter fun ent => ent.1 ≠ ['.'] ∧ ent.1 ≠ ['.', '.']).foldl
    (readFile conf rsu) ⟨⟨MetadataBase.empty, ∅, ∅⟩, 0⟩ = load at hload
  constructor
  case row =>
    intro s hs i hi
    exact hload.row (s, i) ((hrow _).2 ⟨hs, hi⟩) hi
  case coefficient =>
    intro s hs i hi
    exact hload.coefficient (s, i) ((hrow _).2 ⟨hs, hi⟩) hi
  case stripe =>
    intro s hs
    have hpos : 0 < s.length := h.isStripes.length s hs ▸ hn
    obtain ⟨id, hid⟩ := hload.seen (s, 0) ((hrow _).2 ⟨hs, hpos⟩)
    refine ⟨id, hload.ip2BlkNames.symm ▸ hid.lt, hload.places id, hid.ids, ?_⟩
    intro i hi
    exact hid.rows i ((hrow _).2 ⟨hs, hi⟩) hi
  case blks =>
    intro b
    rw [hload.blks]
    constructor
    · rintro ⟨p, hp, heq⟩
      exact ⟨p.1, ((hrow p).1 hp).1, List.mem_of_getElem? heq⟩
    · rintro ⟨s, hs, hb⟩
      obtain ⟨i, hi, rfl⟩ := List.mem_iff_getElem.1 hb
      exact ⟨(s, i), (hrow _).2 ⟨hs, hi⟩, List.getElem?_eq_getElem hi⟩
  case recoveree =>
    intro x b
    rw [hload.recoveree]
    constructor
    · rintro ⟨p, hp, heq, hx⟩
      obtain ⟨hi, hb⟩ := List.getElem?_eq_some_iff.1 heq
      exact ⟨p.1, ((hrow p).1 hp).1, p.2, hi, hb, hx⟩
    · rintro ⟨s, hs, i, hi, rfl, hx⟩
      exact ⟨(s, i), (hrow _).2 ⟨hs, hi⟩, List.getElem?_eq_getElem hi, hx⟩
  case blk2Stripe =>
    exact hload.blk2Stripe
  case blkName2Ip =>
    exact hload.blkName2Ip

end Stores

end CoRD
