import CoRD.Repair.Plan
import CoRD.Update.Config
import CoRD.Util.Wire

/-!
# FRRequest — repair requests as they are written and as they are read

Four clients write a request for the repair of lost blocks: a node's address, an index or nothing,
and the names, with their lengths or without.  There is no version in it.  The coordinator takes
the second word for an index if it is not above `k`, and for the beginning of a name otherwise, so
that a request of a client with an index above `k` is read as one of the old form.
-/

namespace CoRD

open Std Wire

/-! ## The clients -/

/-- The loop over the lost files: each name behind its length. -/
def putNames : List Bytes → Arr × Nat → Arr × Nat
  | [], st => st
  | name :: names, (cmd, cmdbase) =>
      let cmd := copy cmd cmdbase (le 4 name.length)
      let cmd := copy cmd (cmdbase + 4) name
      putNames names (cmd, cmdbase + 4 + name.length)

/-- `ECPipeInputStream::sendToCoordinator`; `old` is what the array on the stack holds before.
Nothing is defined for a request that does not fit into the array. -/
def Cpp.sendToCoordinator (old : Arr) (locIP : Nat) (lostFiles : List Bytes) : Option Bytes :=
  let cmd := copy old 0 (le 4 locIP)
  let cmd := copy cmd 4 (le 4 0)
  let (cmd, cmdbase) := putNames lostFiles (cmd, 8)
  if cmdbase ≤ COMMAND_MAX_LENGTH then some (first cmd cmdbase) else none

/-- `new byte[n]`, which must be an `int`. -/
def newBytes (n : Nat) : Option Arr :=
  if n < 2 ^ 31 then some fun _ => 0 else none

/-- `ECPipeInputStream.sendRequest` of HDFS 3; there is one request for each index. -/
def Hdfs3.sendRequest (localIp : Nat) (filenames : List Bytes) (index : Nat) : Option Bytes :=
  let totlen := (filenames.map List.length).sum
  if index < filenames.length then
    (newBytes (8 + filenames.length * 4 + totlen)).map fun cmd =>
      let cmd := copy cmd 0 (le 4 localIp)
      let cmd := copy cmd 4 (le 4 index)
      let (cmd, _) := putNames filenames (cmd, 8)
      first cmd (8 + filenames.length * 4 + totlen)
  else none

/-- `ECPipeInputStream.sendRequest` of HDFS 0.20. -/
def Hdfs20.sendRequest (localIp : Nat) (filename : Bytes) : Option Bytes :=
  (newBytes (4 + filename.length)).map fun cmd =>
    first (copy (copy cmd 0 (le 4 localIp)) 4 filename) (4 + filename.length)

/-- `ECPipeInputStream::sendToCoordinator` of QFS, with an array of 256 bytes. -/
def Qfs.sendToCoordinator (old : Arr) (locIP : Nat) (lostFileName : Bytes) : Option Bytes :=
  let fnlen := lostFileName.length
  if fnlen + 4 ≤ 256 then
    some (first (copy (copy old 0 (le 4 locIP)) 4 lostFileName) (fnlen + 4))
  else none

inductive Client
  | cpp
  | hdfs3 (index : Nat)
  | hdfs20
  | qfs

inductive Version
  | v10
  | v11
  deriving DecidableEq

namespace Client

/-- The request of a client; the old ones ask for a single block. -/
def request (old : Arr) (ip : Nat) (lost : List Bytes) : Client → Option Bytes
  | cpp => Cpp.sendToCoordinator old ip lost
  | hdfs3 index => Hdfs3.sendRequest ip lost index
  | hdfs20 =>
      match lost with
      | [name] => Hdfs20.sendRequest ip name
      | _ => none
  | qfs =>
      match lost with
      | [name] => Qfs.sendToCoordinator old ip name
      | _ => none

def index : Client → Nat
  | hdfs3 index => index
  | _ => 0

def version : Client → Version
  | cpp => .v11
  | hdfs3 _ => .v11
  | hdfs20 => .v10
  | qfs => .v10

end Client

/-! ## The coordinator -/

/-- A name as the metadata bases keep it. -/
def nameOf (name : Bytes) : Str :=
  name.map fun b => Char.ofNat b.toNat

/-- `_fileSysType`, for the file systems whose metadata base knows the nodes of blocks. -/
inductive FileSys
  | hdfs
  | hdfs3

/-- `getIPfromBlk`, which gives up on an unknown block. -/
def MetadataBase.getIPfromBlk (base : MetadataBase) (blkName : Str) : Option Nat :=
  base.blkName2Ip[blkName]?

/-- `getAllBlks`, which gives up on an unknown block or stripe. -/
def MetadataBase.getAllBlks (base : MetadataBase) (fs : FileSys) (blkName : Str) : Option BlkSet :=
  let known : Bool := match fs with
    | .hdfs => decide (blkName ∈ base.blkName2StripeId)
    | .hdfs3 => decide (blkName ∈ base.blk2Stripe)
  if known ∧ base.blkName2StripeId.getD blkName 0 < base.ip2BlkNames.length then
    some (base.stripeBlks blkName)
  else none

/-- What `parseFRRequest` returns and sets, and its local `version`. -/
structure FRRequest where
  version : Version
  index : Nat
  reqFile : Str
  lostFiles : List (Str × Nat)
  status : Status

/-- The variables of the loop over the names. -/
structure ParseState where
  reqFile : Str
  lostFiles : List (Str × Nat)
  allBlks : BlkSet
  status : Status
  i : Nat

def ParseState.start : ParseState where
  reqFile := []
  lostFiles := []
  allBlks := ∅
  status := ∅
  i := 0

section Parse

variable (base : MetadataBase) (fs : FileSys) (requestorIP index : Nat)

/-- `for (auto& it : allBlks) _status[it.second] = 1`. -/
def markAll (allBlks : BlkSet) (status : Status) : Status :=
  allBlks.toList.foldl (fun (m : Status) it => m.insert it.2 1) status

/-- One turn of the loop, for a name that has been read. -/
def parseName (st : ParseState) (lostFile : Str) : Option ParseState :=
  match base.getIPfromBlk lostFile with
  | none => none
  | some ip =>
      let reqFile :=
        if index ≠ 0 then if st.i = index then lostFile else st.reqFile
        else if ip = requestorIP then lostFile else st.reqFile
      let filled :=
        if st.allBlks.isEmpty then
          (base.getAllBlks fs lostFile).map fun allBlks => (allBlks, markAll allBlks st.status)
        else some (st.allBlks, st.status)
      filled.map fun q =>
        { reqFile := reqFile, lostFiles := st.lostFiles ++ [(lostFile, ip)], allBlks := q.1,
          status := q.2.insert lostFile 0, i := st.i + 1 }

/-- `while (cmdbase < reqLen)`. -/
def parseLoop (reqStr : Bytes) (cmdbase : Nat) (st : ParseState) : Option ParseState :=
  if cmdbase < reqStr.length then
    let len := word reqStr cmdbase
    match parseName base fs requestorIP index st (nameOf (str reqStr (cmdbase + 4) len)) with
    | none => none
    | some st => parseLoop reqStr (cmdbase + (4 + len)) st
  else some st
termination_by reqStr.length - cmdbase

/-- `Coordinator::parseFRRequest`; `none` stands for its `exit`. -/
def parseFRRequest (ecK : Nat) (reqStr : Bytes) : Option FRRequest :=
  if reqStr.length < 8 then none
  else
    let index := word reqStr 4
    -- an index above `k` is taken for the beginning of a name
    if index > ecK then
      let lostFile := nameOf (cstr reqStr 4)
      match base.getAllBlks fs lostFile, base.getIPfromBlk lostFile with
      | some allBlks, some ip =>
          some { version := .v10, index := 0, reqFile := lostFile, lostFiles := [(lostFile, ip)],
                 status := (markAll allBlks ∅).insert lostFile 0 }
      | _, _ => none
    else
      (parseLoop base fs requestorIP index reqStr 8 .start).map fun st =>
        let reqFile := if st.reqFile = [] then (st.lostFiles.map Prod.fst).headD [] else st.reqFile
        { version := .v11, index := index, reqFile := reqFile, lostFiles := st.lostFiles,
          status := st.status }

end Parse

/-! ## What the requests are -/

/-- The names of a request, each behind its length. -/
def namesBytes (names : List Bytes) : Bytes :=
  names.flatMap fun name => le 4 name.length ++ name

theorem namesBytes_cons (name : Bytes) (names : List Bytes) :
    namesBytes (name :: names) = le 4 name.length ++ (name ++ namesBytes names) := by
  simp [namesBytes]

theorem length_namesBytes (names : List Bytes) :
    (namesBytes names).length = names.length * 4 + (names.map List.length).sum := by
  induction names with
  | nil =>
      rfl
  | cons name names ih =>
      simp only [namesBytes_cons, List.length_append, length_le, ih, List.map_cons, List.sum_cons,
        List.length_cons]
      ring

/-- The loop writes the names behind what stands there already. -/
theorem putNames_spec (names : List Bytes) {cmd : Arr} {l : Bytes} :
    Has cmd 0 l → ∃ cmd', putNames names (cmd, l.length) =
      (cmd', (l ++ namesBytes names).length) ∧ Has cmd' 0 (l ++ namesBytes names) := by
  intro hl
  induction names generalizing cmd l with
  | nil =>
      refine ⟨cmd, ?_, ?_⟩
      · simp [putNames, namesBytes]
      · simpa [namesBytes] using hl
  | cons name names ih =>
      have hlen : Has (copy cmd l.length (le 4 name.length)) 0 (l ++ le 4 name.length) := by
        refine (hl.copy (.inl (Nat.zero_add _).le)).append ?_
        rw [Nat.zero_add]
        exact has_copy _ _ _
      have hend : l.length + 4 = (l ++ le 4 name.length).length := by simp
      have hname : Has (copy (copy cmd l.length (le 4 name.length)) (l.length + 4) name) 0
          (l ++ le 4 name.length ++ name) := by
        rw [hend]
        refine (hlen.copy (.inl (Nat.zero_add _).le)).append ?_
        rw [Nat.zero_add]
        exact has_copy _ _ _
      obtain ⟨cmd', hput, hhas⟩ := ih hname
      have hassoc : l ++ le 4 name.length ++ name ++ namesBytes names =
          l ++ namesBytes (name :: names) := by
        simp [namesBytes_cons]
      have hcur : l.length + 4 + name.length = (l ++ le 4 name.length ++ name).length := by
        simp [Nat.add_assoc]
      rw [hassoc] at hput hhas
      refine ⟨cmd', ?_, hhas⟩
      rw [putNames, hcur]
      exact hput

/-- Two pieces that are written one behind the other. -/
theorem has_two (cmd : Arr) (l l' : Bytes) :
    Has (copy (copy cmd 0 l) l.length l') 0 (l ++ l') := by
  refine ((has_copy cmd 0 l).copy (.inl (Nat.zero_add _).le)).append ?_
  rw [Nat.zero_add]
  exact has_copy _ _ _

/-- A request with an index. -/
def indexedRequest (ip index : Nat) (lost : List Bytes) : Bytes :=
  le 4 ip ++ le 4 index ++ namesBytes lost

theorem putNames_request (cmd : Arr) (ip index : Nat) (lost : List Bytes) :
    ∃ cmd', putNames lost (copy (copy cmd 0 (le 4 ip)) 4 (le 4 index), 8) =
      (cmd', (indexedRequest ip index lost).length) ∧
        Has cmd' 0 (indexedRequest ip index lost) :=
  putNames_spec lost (has_two cmd (le 4 ip) (le 4 index))

theorem cpp_request {old : Arr} {ip : Nat} {lost : List Bytes} {m : Bytes} :
    Cpp.sendToCoordinator old ip lost = some m →
      m = indexedRequest ip 0 lost ∧ m.length ≤ COMMAND_MAX_LENGTH := by
  intro hm
  obtain ⟨cmd', hput, hhas⟩ := putNames_request old ip 0 lost
  simp only [Cpp.sendToCoordinator, hput] at hm
  by_cases hfits : (indexedRequest ip 0 lost).length ≤ COMMAND_MAX_LENGTH
  · rw [if_pos hfits, first_eq hhas] at hm
    obtain rfl := Option.some.inj hm
    exact ⟨rfl, hfits⟩
  · rw [if_neg hfits] at hm
    cases hm

theorem newBytes_eq_some {n : Nat} {cmd : Arr} : newBytes n = some cmd → n < 2 ^ 31 := by
  intro hcmd
  by_contra hn
  rw [newBytes, if_neg hn] at hcmd
  cases hcmd

theorem hdfs3_request {ip index : Nat} {lost : List Bytes} {m : Bytes} :
    Hdfs3.sendRequest ip lost index = some m →
      m = indexedRequest ip index lost ∧ m.length < 2 ^ 31 ∧ index < lost.length := by
  intro hm
  by_cases hindex : index < lost.length
  · rw [Hdfs3.sendRequest, if_pos hindex] at hm
    obtain ⟨cmd, hnew, hfirst⟩ := Option.map_eq_some_iff.1 hm
    obtain ⟨cmd', hput, hhas⟩ := putNames_request cmd ip index lost
    have hlen : (indexedRequest ip index lost).length =
        8 + lost.length * 4 + (lost.map List.length).sum := by
      simp only [indexedRequest, List.length_append, length_le, length_namesBytes]
      ring
    simp only [hput] at hfirst
    rw [← hlen, first_eq hhas] at hfirst
    refine ⟨hfirst.symm, ?_, hindex⟩
    rw [← hfirst, hlen]
    exact newBytes_eq_some hnew
  · rw [Hdfs3.sendRequest, if_neg hindex] at hm
    cases hm

theorem first_two (cmd : Arr) (ip : Nat) (name : Bytes) :
    first (copy (copy cmd 0 (le 4 ip)) 4 name) (4 + name.length) = le 4 ip ++ name := by
  have hlen : 4 + name.length = (le 4 ip ++ name).length := by simp
  rw [hlen]
  exact first_eq (has_two cmd (le 4 ip) name)

theorem hdfs20_request {ip : Nat} {name m : Bytes} :
    Hdfs20.sendRequest ip name = some m → m = le 4 ip ++ name := by
  intro hm
  obtain ⟨cmd, -, hfirst⟩ := Option.map_eq_some_iff.1 hm
  rw [← hfirst, first_two]

theorem qfs_request {old : Arr} {ip : Nat} {name m : Bytes} :
    Qfs.sendToCoordinator old ip name = some m → m = le 4 ip ++ name := by
  intro hm
  by_cases hfits : name.length + 4 ≤ 256
  · simp only [Qfs.sendToCoordinator, if_pos hfits] at hm
    rw [← Option.some.inj hm, Nat.add_comm, first_two]
  · simp only [Qfs.sendToCoordinator, if_neg hfits] at hm
    cases hm

/-! ## Reading the names -/

theorem toNat_byteChar (b : UInt8) : (Char.ofNat b.toNat).toNat = b.toNat := by
  have hvalid : b.toNat.isValidChar := .inl (b.toNat_lt.trans (by decide))
  rw [Char.ofNat, dif_pos hvalid]
  rfl

theorem nameOf_injective : Function.Injective nameOf := by
  refine List.map_injective_iff.2 fun a b hab => ?_
  have hbytes : a.toNat = b.toNat := by rw [← toNat_byteChar a, ← toNat_byteChar b, hab]
  exact UInt8.toNat_inj.1 hbytes

section Names

variable {conf : RepairConfig} {base : MetadataBase} {s : List Str} {ip : Str → Nat}
  {fs : FileSys} {requestorIP index : Nat}

theorem getIPfromBlk_of_mem (hbase : base.HoldsStripe conf.toConfig s ip) {b : Str} :
    b ∈ s → base.getIPfromBlk b = some (ip b) :=
  hbase.place b

theorem getAllBlks_of_mem (hbase : base.HoldsStripe conf.toConfig s ip) (fs : FileSys) {b : Str} :
    b ∈ s → base.getAllBlks fs b = some (base.stripeBlks b) := by
  intro hb
  obtain ⟨id, hid, hstripe, -, -⟩ := hbase.stripe
  have hget : base.blkName2StripeId.getD b 0 = id := by
    rw [TreeMap.getD_eq_getD_getElem?, hstripe b hb, Option.getD_some]
  have hknown : b ∈ base.blkName2StripeId := by
    rw [TreeMap.mem_iff_isSome_getElem?, hstripe b hb]
    rfl
  have hserved := hbase.served b hb
  cases fs with
  | hdfs =>
      simp [MetadataBase.getAllBlks, hget, hknown, hid]
  | hdfs3 =>
      simp [MetadataBase.getAllBlks, hget, hserved, hid]

/-- All blocks of one stripe lead to the same set. -/
theorem stripeBlks_eq (hbase : base.HoldsStripe conf.toConfig s ip) {a b : Str} :
    a ∈ s → b ∈ s → base.stripeBlks a = base.stripeBlks b := by
  intro ha hb
  obtain ⟨id, -, hstripe, -, -⟩ := hbase.stripe
  rw [MetadataBase.stripeBlks, MetadataBase.stripeBlks, TreeMap.getD_eq_getD_getElem?,
    TreeMap.getD_eq_getD_getElem?, hstripe a ha, hstripe b hb]

/-- What the loop has found out once it has read the names `done`. -/
structure ParseInv (base : MetadataBase) (ip : Str → Nat) (requestorIP index : Nat)
    (done : List Str) (st : ParseState) : Prop where
  i : st.i = done.length
  lostFiles : st.lostFiles = done.map fun b => (b, ip b)
  allBlks : ∀ b ∈ done, st.allBlks = base.stripeBlks b
  status : ∀ b ∈ done, st.status = requestStatus (base.stripeBlks b) done
  none_read : done = [] → st.allBlks = ∅ ∧ st.status = ∅
  byIndex : index ≠ 0 → st.reqFile = done.getD index []
  byNode : index = 0 → (st.reqFile = [] ∧ ∀ b ∈ done, ip b ≠ requestorIP) ∨
    (st.reqFile ∈ done ∧ ip st.reqFile = requestorIP)

theorem parseInv_start : ParseInv base ip requestorIP index [] .start where
  i := rfl
  lostFiles := rfl
  allBlks := by simp
  status := by simp
  none_read := fun _ => ⟨rfl, rfl⟩
  byIndex := fun _ => rfl
  byNode := fun _ => .inl ⟨rfl, by simp⟩

theorem stripeBlks_isEmpty (hbase : base.HoldsStripe conf.toConfig s ip) {b : Str} :
    b ∈ s → (base.stripeBlks b).isEmpty = false := by
  intro hb
  have hmem : (ip b, b) ∈ base.stripeBlks b := (mem_stripeBlks hbase hb).2 ⟨hb, rfl⟩
  exact TreeSet.isEmpty_eq_false_iff_exists_mem.2 ⟨_, hmem⟩

/-- One turn reads one name of the stripe. -/
theorem ParseInv.parseName (fs : FileSys) {done : List Str} {st : ParseState} {b : Str}
    (hbase : base.HoldsStripe conf.toConfig s ip) (hsub : ∀ a ∈ done, a ∈ s)
    (h : ParseInv base ip requestorIP index done st) : b ∈ s →
      ∃ st', parseName base fs requestorIP index st b = some st' ∧
        ParseInv base ip requestorIP index (done ++ [b]) st' := by
  intro hb
  -- the set of the stripe is there afterwards, with a status for each of its blocks
  have hfilled : ∃ status,
      (if st.allBlks.isEmpty then
        (base.getAllBlks fs b).map fun allBlks => (allBlks, markAll allBlks st.status)
      else some (st.allBlks, st.status)) = some (base.stripeBlks b, status) ∧
        status.insert b 0 = requestStatus (base.stripeBlks b) (done ++ [b]) := by
    cases hdone : done with
    | nil =>
        obtain ⟨hall, hstatus⟩ := h.none_read hdone
        refine ⟨markAll (base.stripeBlks b) ∅, ?_, rfl⟩
        rw [hall, hstatus, if_pos TreeSet.isEmpty_emptyc, getAllBlks_of_mem hbase fs hb,
          Option.map_some]
    | cons a rest =>
        have ha : a ∈ done := hdone ▸ List.mem_cons_self
        have hsame : base.stripeBlks a = base.stripeBlks b := stripeBlks_eq hbase (hsub a ha) hb
        refine ⟨requestStatus (base.stripeBlks b) done, ?_, ?_⟩
        · rw [h.allBlks a ha, h.status a ha, hsame,
            if_neg (by rw [stripeBlks_isEmpty hbase hb]; exact Bool.false_ne_true)]
        · rw [← hdone, requestStatus, requestStatus, List.foldl_append]
          rfl
  obtain ⟨status, hfilled, hstatus⟩ := hfilled
  have hparse : CoRD.parseName base fs requestorIP index st b = some
      { reqFile :=
          if index ≠ 0 then if st.i = index then b else st.reqFile
          else if ip b = requestorIP then b else st.reqFile
        lostFiles := st.lostFiles ++ [(b, ip b)], allBlks := base.stripeBlks b
        status := status.insert b 0, i := st.i + 1 } := by
    simp only [CoRD.parseName, getIPfromBlk_of_mem hbase hb, hfilled, Option.map_some]
  refine ⟨_, hparse, ?_⟩
  have hmem : ∀ a ∈ done ++ [b], a ∈ s := by
    intro a ha
    rcases List.mem_append.1 ha with ha | ha
    · exact hsub a ha
    · exact List.mem_singleton.1 ha ▸ hb
  exact
    { i := by simp [h.i]
      lostFiles := by simp [h.lostFiles]
      allBlks := fun a ha => stripeBlks_eq hbase hb (hmem a ha)
      status := fun a ha => by rw [hstatus, stripeBlks_eq hbase hb (hmem a ha)]
      none_read := by simp
      byIndex := by
        intro hindex
        simp only [if_pos hindex, h.i, h.byIndex hindex]
        by_cases hlen : done.length = index
        · rw [if_pos hlen, ← hlen]
          simp [List.getD_eq_getElem?_getD]
        · rw [if_neg hlen]
          rcases Nat.lt_or_gt_of_ne hlen with hlt | hgt
          · simp [List.getD_eq_getElem?_getD, List.getElem?_eq_none, hlt.le,
              show done.length + 1 ≤ index from hlt]
          · simp [List.getD_eq_getElem?_getD, List.getElem?_append_left hgt]
      byNode := by
        intro hindex
        simp only [if_neg (not_not.2 hindex)]
        by_cases hnode : ip b = requestorIP
        · rw [if_pos hnode]
          exact .inr ⟨by simp, hnode⟩
        · rw [if_neg hnode]
          rcases h.byNode hindex with ⟨hnone, hall⟩ | ⟨hin, hip⟩
          · refine .inl ⟨hnone, fun a ha => ?_⟩
            rcases List.mem_append.1 ha with ha | ha
            · exact hall a ha
            · exact List.mem_singleton.1 ha ▸ hnode
          · exact .inr ⟨List.mem_append_left _ hin, hip⟩ }

/-- The loop reads all names. -/
theorem ParseInv.parseLoop (fs : FileSys) {reqStr : Bytes}
    (hbase : base.HoldsStripe conf.toConfig s ip) (names : List Bytes) {cmdbase : Nat} {done : List Str} {st : ParseState}
    (hsub : ∀ a ∈ done, a ∈ s) (h : ParseInv base ip requestorIP index done st) :
    (∀ b ∈ names, nameOf b ∈ s) → (∀ b ∈ names, b.length < 256 ^ 4) →
      cmdbase ≤ reqStr.length → At reqStr cmdbase (namesBytes names) →
        ∃ st', parseLoop base fs requestorIP index reqStr cmdbase st = some st' ∧
          ParseInv base ip requestorIP index (done ++ names.map nameOf) st' := by
  intro hnames hlens hle hat
  induction names generalizing cmdbase done st with
  | nil =>
      have hend : cmdbase = reqStr.length := hat.length hle
      refine ⟨st, ?_, by simpa using h⟩
      rw [CoRD.parseLoop, if_neg (by omega)]
  | cons name names ih =>
      rw [namesBytes_cons] at hat
      have hmore := hat.length hle
      simp only [List.length_append, length_le] at hmore
      have hword : word reqStr cmdbase = name.length :=
        hat.word (hlens name List.mem_cons_self)
      have hat' := hat.skip
      rw [length_le] at hat'
      obtain ⟨st', hparse, hinv⟩ := h.parseName fs hbase hsub
        (hnames name List.mem_cons_self)
      have hsub' : ∀ a ∈ done ++ [nameOf name], a ∈ s := by
        intro a ha
        rcases List.mem_append.1 ha with ha | ha
        · exact hsub a ha
        · exact List.mem_singleton.1 ha ▸ hnames name List.mem_cons_self
      have hnext : cmdbase + (4 + name.length) = cmdbase + 4 + name.length := by
        rw [Nat.add_assoc]
      obtain ⟨st'', hloop, hinv'⟩ := ih hsub' hinv
        (fun b hb => hnames b (List.mem_cons_of_mem _ hb))
        (fun b hb => hlens b (List.mem_cons_of_mem _ hb))
        (show cmdbase + (4 + name.length) ≤ reqStr.length by omega)
        (by rw [hnext]; exact hat'.skip)
      refine ⟨st'', ?_, by simpa using hinv'⟩
      rw [CoRD.parseLoop, if_pos (by omega), hword]
      simp only [hat'.str, hparse]
      exact hloop

/-! ## Reading a request -/

/-- The fields `r` are those that the client means: the index, the names in their order with their
nodes, the status of all blocks of the stripe, and a file for the requestor. -/
structure Meant (s : List Str) (ip : Str → Nat) (client : Client) (requestorIP : Nat)
    (lost : List Bytes) (r : FRRequest) : Prop where
  version : r.version = client.version
  index : r.index = client.index
  lostFiles : r.lostFiles = lost.map fun b => (nameOf b, ip (nameOf b))
  status : IsStatus r.status s (lost.map nameOf)
  byIndex : 0 < client.index → (lost.map nameOf)[client.index]? = some r.reqFile
  byNode : client.index = 0 →
    (r.reqFile ∈ lost.map nameOf ∧ ip r.reqFile = requestorIP) ∨
    ((∀ b ∈ lost, ip (nameOf b) ≠ requestorIP) ∧ (lost.map nameOf)[0]? = some r.reqFile)

/-- The coordinator reads the message `m` as it was meant; the address comes from its first
bytes. -/
def ReadsBack (conf : RepairConfig) (base : MetadataBase) (fs : FileSys) (s : List Str)
    (ip : Str → Nat) (client : Client) (requestorIP : Nat) (lost : List Bytes) (m : Bytes) : Prop :=
  word m 0 = requestorIP ∧
    ∃ r, parseFRRequest base fs (word m 0) conf.ecK m = some r ∧
      Meant s ip client requestorIP lost r

theorem nameOf_ne_nil {b : Bytes} : b ≠ [] → nameOf b ≠ [] := by
  intro hne hnil
  exact hne (List.map_eq_nil_iff.1 hnil)

theorem length_indexedRequest (ip index : Nat) (lost : List Bytes) :
    (indexedRequest ip index lost).length = 8 + (namesBytes lost).length := by
  simp [indexedRequest, ← Nat.add_assoc]

/-- Every name is shorter than the request. -/
theorem length_le_of_mem {lost : List Bytes} {b : Bytes} :
    b ∈ lost → b.length ≤ (namesBytes lost).length := by
  intro hb
  have hsum := List.le_sum_of_mem (List.mem_map_of_mem hb : b.length ∈ lost.map List.length)
  rw [length_namesBytes]
  omega

/-- A request with an index that can be told from a name. -/
theorem reads_indexed {client : Client} {lost : List Bytes}
    (hbase : base.HoldsStripe conf.toConfig s ip) (hip : requestorIP < 256 ^ 4)
    (hdistinct : lost.Nodup) (hmem : ∀ b ∈ lost, nameOf b ∈ s) (hnames : ∀ b ∈ lost, b ≠ [])
    (hsize : (indexedRequest requestorIP client.index lost).length < 2 ^ 31) :
    client.version = .v11 → client.index < lost.length → client.index ≤ conf.ecK →
      ReadsBack conf base fs s ip client requestorIP lost
        (indexedRequest requestorIP client.index lost) := by
  intro hversion hlt hle
  rw [length_indexedRequest] at hsize
  have hlen := length_namesBytes lost
  have hidx : client.index < 256 ^ 4 := by omega
  -- the three parts of the message
  have hat₀ : At (indexedRequest requestorIP client.index lost) 0
      (le 4 requestorIP ++ (le 4 client.index ++ namesBytes lost)) := by
    rw [← List.append_assoc]
    exact at_start _
  have hat₄ : At _ 4 (le 4 client.index ++ namesBytes lost) := hat₀.skip
  have hat₈ : At _ 8 (namesBytes lost) := hat₄.skip
  have hword₀ : word (indexedRequest requestorIP client.index lost) 0 = requestorIP :=
    hat₀.word hip
  have hword₄ : word (indexedRequest requestorIP client.index lost) 4 = client.index :=
    hat₄.word hidx
  have hstart : ParseInv base ip requestorIP client.index [] .start := parseInv_start
  obtain ⟨st, hloop, hinv⟩ := hstart.parseLoop fs hbase lost (by simp) hmem
    (fun b hb => (length_le_of_mem hb).trans_lt (by omega))
    (by rw [length_indexedRequest]; exact Nat.le_add_right 8 _) hat₈
  rw [List.nil_append] at hinv
  have hne : lost ≠ [] := List.ne_nil_of_length_pos (Nat.zero_lt_of_lt hlt)
  have hnil : ∀ b ∈ lost.map nameOf, b ≠ [] := by
    intro b hb
    obtain ⟨c, hc, rfl⟩ := List.mem_map.1 hb
    exact nameOf_ne_nil (hnames c hc)
  obtain ⟨b₀, rest, rfl⟩ := List.exists_cons_of_ne_nil hne
  let r : FRRequest :=
    { version := .v11, index := client.index
      reqFile := if st.reqFile = [] then (st.lostFiles.map Prod.fst).headD [] else st.reqFile
      lostFiles := st.lostFiles, status := st.status }
  refine ⟨hword₀, r, ?_, ?_⟩
  · have hlong8 : ¬ (indexedRequest requestorIP client.index (b₀ :: rest)).length < 8 := by
      rw [length_indexedRequest]
      omega
    rw [parseFRRequest, if_neg hlong8, hword₄, hword₀]
    simp only [if_neg (Nat.not_lt.2 hle), hloop, Option.map_some, r]
  · exact
      { version := hversion.symm
        index := rfl
        lostFiles := by simp [r, hinv.lostFiles, Function.comp_def]
        status := by
          have hb₀ : nameOf b₀ ∈ (b₀ :: rest).map nameOf := by simp
          show IsStatus st.status s _
          rw [hinv.status _ hb₀]
          refine requestStatus_isStatus _ hbase (hmem b₀ (by simp)) ?_
            (hdistinct.map nameOf_injective)
          intro b hb
          obtain ⟨c, hc, rfl⟩ := List.mem_map.1 hb
          exact hmem c hc
        byIndex := by
          intro hpos
          have hget : client.index < ((b₀ :: rest).map nameOf).length := by simpa using hlt
          have hfile : st.reqFile = ((b₀ :: rest).map nameOf)[client.index] := by
            rw [hinv.byIndex hpos.ne', List.getD_eq_getElem?_getD, List.getElem?_eq_getElem hget,
              Option.getD_some]
          have hset : st.reqFile ≠ [] := hfile ▸ hnil _ (List.getElem_mem hget)
          have hr : r.reqFile = st.reqFile := if_neg hset
          rw [hr, List.getElem?_eq_getElem hget, hfile]
        byNode := by
          intro hzero
          rcases hinv.byNode hzero with ⟨hunset, hall⟩ | ⟨hin, hnode⟩
          · refine .inr ⟨fun b hb => hall _ (List.mem_map_of_mem hb), ?_⟩
            have hr : r.reqFile = (st.lostFiles.map Prod.fst).headD [] := if_pos hunset
            simp [hr, hinv.lostFiles]
          · have hr : r.reqFile = st.reqFile := if_neg (hnil _ hin)
            rw [hr]
            exact .inl ⟨hin, hnode⟩ }

/-- A request of the old form, for one block. -/
theorem reads_old {client : Client} {name : Bytes}
    (hbase : base.HoldsStripe conf.toConfig s ip) (hip : requestorIP < 256 ^ 4)
    (hmem : nameOf name ∈ s) (hzero : (0 : UInt8) ∉ name) (hlong : 4 ≤ name.length)
    (habove : conf.ecK < ofLe (name.take 4)) :
    client.version = .v10 → client.index = 0 →
      ReadsBack conf base fs s ip client requestorIP [name] (le 4 requestorIP ++ name) := by
  intro hversion hindex
  have hat₀ : At (le 4 requestorIP ++ name) 0 (le 4 requestorIP ++ name) := at_start _
  have hat₄ : At _ 4 name := hat₀.skip
  have hword₀ : word (le 4 requestorIP ++ name) 0 = requestorIP := hat₀.word hip
  have hword₄ : word (le 4 requestorIP ++ name) 4 > conf.ecK := by
    rw [word, hat₄]
    exact habove
  have hcstr : cstr (le 4 requestorIP ++ name) 4 = name := hat₄.cstr hzero
  let r : FRRequest :=
    { version := .v10, index := 0, reqFile := nameOf name
      lostFiles := [(nameOf name, ip (nameOf name))]
      status := requestStatus (base.stripeBlks (nameOf name)) [nameOf name] }
  refine ⟨hword₀, r, ?_, ?_⟩
  · have hlong8 : ¬ (le 4 requestorIP ++ name).length < 8 := by
      rw [List.length_append, length_le]
      omega
    rw [parseFRRequest, if_neg hlong8]
    simp only [if_pos hword₄, hcstr, getAllBlks_of_mem hbase fs hmem,
      getIPfromBlk_of_mem hbase hmem]
    rfl
  · exact
      { version := hversion.symm
        index := hindex.symm
        lostFiles := rfl
        status := requestStatus_isStatus _ hbase hmem (by simpa using hmem) (by simp)
        byIndex := fun hpos => absurd hindex hpos.ne'
        byNode := by
          intro _
          by_cases hnode : ip (nameOf name) = requestorIP
          · exact .inl ⟨List.mem_singleton.2 rfl, hnode⟩
          · exact .inr ⟨by simpa using hnode, rfl⟩ }

/-- An index above `k` is not read as an index. -/
theorem not_reads_of_lt (client : Client) {lost : List Bytes}
    (hsize : client.index < 256 ^ 4) : conf.ecK < client.index →
      ¬ ReadsBack conf base fs s ip client requestorIP lost
        (indexedRequest requestorIP client.index lost) := by
  rintro hlt ⟨-, r, hparse, hmeant⟩
  have hat₀ : At (indexedRequest requestorIP client.index lost) 0
      (le 4 requestorIP ++ (le 4 client.index ++ namesBytes lost)) := by
    rw [← List.append_assoc]
    exact at_start _
  have hat₄ : At _ 4 (le 4 client.index ++ namesBytes lost) := hat₀.skip
  have hword₄ : word (indexedRequest requestorIP client.index lost) 4 = client.index :=
    hat₄.word hsize
  have hlong8 : ¬ (indexedRequest requestorIP client.index lost).length < 8 := by
    rw [length_indexedRequest]
    omega
  rw [parseFRRequest, if_neg hlong8, hword₄] at hparse
  simp only [if_pos (show client.index > conf.ecK from hlt)] at hparse
  -- whatever is read then, the index is zero
  have hzero : r.index = 0 := by
    split at hparse
    · obtain rfl := Option.some.inj hparse
      rfl
    · cases hparse
  have hindex := hmeant.index
  omega

/-- A client's request is read back just when its index is at most `k`. -/
theorem frRequest_readsBack_iff (conf : RepairConfig) (base : MetadataBase) (fs : FileSys)
    (s : List Str) (ip : Str → Nat) (hbase : base.HoldsStripe conf.toConfig s ip)
    (requestorIP : Nat) (hip : requestorIP < 256 ^ 4) (lost : List Bytes) (hne : lost ≠ [])
    (hdistinct : lost.Nodup) (hmem : ∀ b ∈ lost, nameOf b ∈ s)
    (hzero : ∀ b ∈ lost, (0 : UInt8) ∉ b) (hlong : ∀ b ∈ lost, 4 ≤ b.length)
    (habove : ∀ b ∈ lost, conf.ecK < ofLe (b.take 4)) (client : Client) (old : Arr) (m : Bytes)
    (hrequest : client.request old requestorIP lost = some m) :
    ReadsBack conf base fs s ip client requestorIP lost m ↔ client.index ≤ conf.ecK := by
  have hpos : 0 < lost.length := List.length_pos_of_ne_nil hne
  -- the clients that send an index
  have hindexed : m = indexedRequest requestorIP client.index lost → m.length < 2 ^ 31 →
      client.version = .v11 → client.index < lost.length →
        (ReadsBack conf base fs s ip client requestorIP lost m ↔ client.index ≤ conf.ecK) := by
    intro hm hsize hversion hlt
    subst hm
    constructor
    · intro hreads
      by_contra hgt
      have hlen := length_namesBytes lost
      rw [length_indexedRequest] at hsize
      exact not_reads_of_lt client (by omega) (Nat.lt_of_not_le hgt) hreads
    · exact reads_indexed hbase hip hdistinct hmem
        (fun b hb => List.ne_nil_of_length_pos (Nat.zero_lt_of_lt (hlong b hb))) hsize hversion hlt
  -- the clients that send one name
  have hold : ∀ name, lost = [name] → m = le 4 requestorIP ++ name → client.version = .v10 →
      client.index = 0 →
        (ReadsBack conf base fs s ip client requestorIP lost m ↔ client.index ≤ conf.ecK) := by
    intro name hname hm hversion hindex
    subst hname hm
    refine iff_of_true ?_ (hindex ▸ Nat.zero_le _)
    exact reads_old hbase hip (hmem name (by simp)) (hzero name (by simp)) (hlong name (by simp))
      (habove name (by simp)) hversion hindex
  cases client with
  | cpp =>
      obtain ⟨hm, hfits⟩ := cpp_request hrequest
      exact hindexed hm (hfits.trans_lt (by decide)) rfl hpos
  | hdfs3 index =>
      obtain ⟨hm, hsize, hlt⟩ := hdfs3_request hrequest
      exact hindexed hm hsize rfl hlt
  | hdfs20 =>
      match lost, hrequest with
      | [name], hrequest => exact hold name rfl (hdfs20_request hrequest) rfl rfl
  | qfs =>
      match lost, hrequest with
      | [name], hrequest => exact hold name rfl (qfs_request hrequest) rfl rfl

end Names

/-! Three of four copies of a block are lost, and the client asks for the third. -/

/-- The tables for a single stripe. -/
def MetadataBase.ofStripe (s : List Str) (ip : Str → Nat) : MetadataBase where
  blk2Stripe := Tree.insertAll (s.map fun b => (b, ∅)) ∅
  blkIdInStripe := Tree.insertAll s.zipIdx ∅
  coefficient := ∅
  blkName2Ip := Tree.insertAll (s.map fun b => (b, ip b)) ∅
  blkName2StripeId := Tree.insertAll (s.map fun b => (b, 0)) ∅
  ip2BlkNames := [Tree.insertAll (s.map fun b => (ip b, b)) ∅]
  id2BlkNames := [Tree.insertAll (s.zipIdx.map Prod.swap) ∅]
  order := ∅
  blk2All := ∅

/-- The tables for several stripes. -/
def MetadataBase.ofStripes (l : List (List Str)) (ip : Str → Nat) : MetadataBase where
  blk2Stripe := Tree.insertAll (l.flatten.map fun b => (b, ∅)) ∅
  blkIdInStripe := Tree.insertAll (l.flatMap List.zipIdx) ∅
  coefficient := ∅
  blkName2Ip := Tree.insertAll (l.flatten.map fun b => (b, ip b)) ∅
  blkName2StripeId := Tree.insertAll (l.zipIdx.flatMap fun p => p.1.map fun b => (b, p.2)) ∅
  ip2BlkNames := l.map fun s => Tree.insertAll (s.map fun b => (ip b, b)) ∅
  id2BlkNames := l.map fun s => Tree.insertAll (s.zipIdx.map Prod.swap) ∅
  order := ∅
  blk2All := ∅

theorem MetadataBase.ofStripe_eq (s : List Str) (ip : Str → Nat) :
    MetadataBase.ofStripe s ip = MetadataBase.ofStripes [s] ip := by
  simp [MetadataBase.ofStripe, MetadataBase.ofStripes]

theorem MetadataBase.ofStripes_holds {conf : Config} {l : List (List Str)} {s : List Str}
    {ip : Str → Nat} (hs : s ∈ l) : s.length = conf.ecN → l.flatten.Nodup → (s.map ip).Nodup →
      (MetadataBase.ofStripes l ip).HoldsStripe conf s ip := by
  intro hlength hnodup hnodes
  obtain ⟨id, hid⟩ := List.mem_iff_getElem?.1 hs
  have hlt : id < l.length := (List.getElem?_eq_some_iff.1 hid).1
  have hmem : ∀ b ∈ s, b ∈ l.flatten := fun b hb => List.mem_flatten.2 ⟨s, hs, hb⟩
  -- each table is filled under keys that are told apart by the names of the blocks
  have hkeys : ∀ {β : Type} (f : Str → β),
      ((l.flatten.map fun b => (b, f b)).map Prod.fst).Nodup := by
    intro β f
    simpa [Function.comp_def] using hnodup
  have hrowKeys : (l.flatMap List.zipIdx).map Prod.fst = l.flatten := by
    rw [List.map_flatMap, List.flatten_eq_flatMap]
    exact List.flatMap_congr fun s _ => List.zipIdx_map_fst _ s
  have hidKeys : (l.zipIdx.flatMap fun p => p.1.map fun b => (b, p.2)).map Prod.fst =
      l.flatten := by
    calc
      (l.zipIdx.flatMap fun p => p.1.map fun b => (b, p.2)).map Prod.fst =
          l.zipIdx.flatMap Prod.fst := by
        rw [List.map_flatMap]
        refine List.flatMap_congr fun p _ => ?_
        rw [List.map_map]
        exact List.map_id _
      _ = (l.zipIdx.map Prod.fst).flatten := List.flatMap_def
      _ = l.flatten := by rw [List.zipIdx_map_fst]
  have hrows : ∀ i (hi : i < s.length), (s[i], i) ∈ s.zipIdx := by
    intro i hi
    rw [List.mk_mem_zipIdx_iff_getElem?]
    exact List.getElem?_eq_getElem hi
  exact
    { length := hlength
      nodup := (List.sublist_flatten_of_mem hs).nodup hnodup
      nodes := hnodes
      row := by
        intro i hi
        refine (Tree.getElem?_insertAll_empty ?_).2
          (List.mem_flatMap.2 ⟨s, hs, hrows i hi⟩)
        rwa [hrowKeys]
      stripe := by
        refine ⟨id, ?_, ?_, ?_, ?_⟩
        · simpa [MetadataBase.ofStripes] using hlt
        · intro b hb
          refine (Tree.getElem?_insertAll_empty ?_).2 (List.mem_flatMap.2
            ⟨(s, id), List.mk_mem_zipIdx_iff_getElem?.2 hid, List.mem_map.2 ⟨b, hb, rfl⟩⟩)
          rwa [hidKeys]
        · intro i hi
          have hget : (MetadataBase.ofStripes l ip).id2BlkNames.getD id ∅ =
              Tree.insertAll (s.zipIdx.map Prod.swap) ∅ := by
            simp [MetadataBase.ofStripes, List.getD_eq_getElem?_getD, hid]
          rw [hget]
          refine (Tree.getElem?_insertAll_empty ?_).2
            (List.mem_map.2 ⟨(s[i], i), hrows i hi, rfl⟩)
          have hswap : (s.zipIdx.map Prod.swap).map Prod.fst = s.zipIdx.map Prod.snd := by
            rw [List.map_map]
            rfl
          rw [hswap, List.zipIdx_map_snd]
          exact List.nodup_range'
        · intro a b
          have hget : (MetadataBase.ofStripes l ip).ip2BlkNames.getD id ∅ =
              Tree.insertAll (s.map fun b => (ip b, b)) ∅ := by
            simp [MetadataBase.ofStripes, List.getD_eq_getElem?_getD, hid]
          rw [hget]
          refine (Tree.getElem?_insertAll_empty ?_).trans ?_
          · simpa [Function.comp_def] using hnodes
          · rw [List.mem_map]
            constructor
            · rintro ⟨c, hc, hpair⟩
              cases hpair
              exact ⟨hc, rfl⟩
            · rintro ⟨hb, rfl⟩
              exact ⟨b, hb, rfl⟩
      place := by
        intro b hb
        exact (Tree.getElem?_insertAll_empty (hkeys ip)).2 (List.mem_map.2 ⟨b, hmem b hb, rfl⟩)
      served := by
        intro b hb
        have hget : (MetadataBase.ofStripes l ip).blk2Stripe[b]? = some ∅ :=
          (Tree.getElem?_insertAll_empty (hkeys fun _ => (∅ : BlkSet))).2
            (List.mem_map.2 ⟨b, hmem b hb, rfl⟩)
        rw [TreeMap.mem_iff_isSome_getElem?]
        exact Option.isSome_of_eq_some hget }

theorem MetadataBase.ofStripe_holds {conf : Config} {s : List Str} {ip : Str → Nat} :
    s.length = conf.ecN → s.Nodup → (s.map ip).Nodup →
      (MetadataBase.ofStripe s ip).HoldsStripe conf s ip := by
  intro hlength hnodup hnodes
  rw [MetadataBase.ofStripe_eq]
  exact MetadataBase.ofStripes_holds (List.mem_singleton.2 rfl) hlength (by simpa using hnodup)
    hnodes

/-- One data block in four copies. -/
def copiesConf : RepairConfig :=
  { mirrorConf with ecN := 4 }

/-- `blk0` to `blk3`. -/
def copyName (i : UInt8) : Bytes :=
  [0x62, 0x6c, 0x6b, 0x30 + i]

def copyNames : List Bytes :=
  [copyName 0, copyName 1, copyName 2, copyName 3]

def copyStripe : List Str :=
  copyNames.map nameOf

def copyIp (b : Str) : Nat :=
  copyStripe.idxOf b + 1

theorem copies_held :
    (MetadataBase.ofStripe copyStripe copyIp).HoldsStripe copiesConf.toConfig copyStripe copyIp :=
  MetadataBase.ofStripe_holds (by decide) (by decide) (by decide)

/-- Index one is read back. -/
theorem frRequest_readsBack_iff_copies : ∃ m,
    (Client.hdfs3 1).request (fun _ => 0) 9 (copyNames.take 3) = some m ∧
    (ReadsBack copiesConf (MetadataBase.ofStripe copyStripe copyIp) .hdfs3 copyStripe copyIp
      (.hdfs3 1) 9 (copyNames.take 3) m ↔ 1 ≤ copiesConf.ecK) :=
  ⟨_, rfl, frRequest_readsBack_iff copiesConf (MetadataBase.ofStripe copyStripe copyIp) .hdfs3
    copyStripe copyIp copies_held 9 (by decide) (copyNames.take 3) (by decide) (by decide)
    (by decide) (by decide) (by decide) (by decide) (.hdfs3 1) (fun _ => 0) _ rfl⟩

/-- Index two is above `k`. -/
theorem frRequest_misread : (copyNames.take 3).length ≤ copiesConf.ecN - copiesConf.ecK ∧ ∃ m,
    (Client.hdfs3 2).request (fun _ => 0) 9 (copyNames.take 3) = some m ∧
    ¬ ReadsBack copiesConf (MetadataBase.ofStripe copyStripe copyIp) .hdfs3 copyStripe copyIp
      (.hdfs3 2) 9 (copyNames.take 3) m := by
  refine ⟨by decide, indexedRequest 9 2 (copyNames.take 3), by decide, ?_⟩
  exact not_reads_of_lt (.hdfs3 2) (by decide) (by decide)

end CoRD
