import CoRD.Repair.Hdfs3Requests
import CoRD.Repair.PacketRead
import CoRD.Repair.PlanExists

/-!
# ReplyBytes — the cyclic reply from the coordinator to the client

The reply says for each lost block how many nodes the client fetches from, which nodes these are, and
which node the block is repaired for.  The coordinator finds the helpers of a block under its node and
counts all of them but one; the client goes by that count.

`HDFS_MetadataBase` has the entry of the first lost block under the node that asks.  If that is another
node than that of the block, there is nothing to be found for the block, and the count is -1.
-/

namespace CoRD

open Std Wire

namespace ReplyBytes

/-! ## The coordinator -/

/-- An `int` that is compared with a `size_t`. -/
def toSize (x : Int) : Nat :=
  (x % 2 ^ 64).toNat

/-- The bytes of an `int`, as a number. -/
def toWord (x : Int) : Nat :=
  (x % 2 ^ 32).toNat

/-- The buffer with its length, and where the next number goes. -/
structure Reply where
  drCmd : Arr
  drCmdLen : Int
  cmdbase : Nat

/-- What is pushed: the whole buffer. -/
def Reply.bytes (reply : Reply) : Bytes :=
  first reply.drCmd reply.drCmdLen.toNat

/-- One turn of the loop over the lost files, on `drCmd` and `cmdbase`. -/
def putFile (stripes : Plan) (it : Str × Nat) (st : Arr × Nat) : Option (Arr × Nat) :=
  -- `stripes[lostFiles[i].second]` makes an entry without helpers if there is none
  let stripe := (stripes.getD it.2 ([], [])).2
  let numOfFIP := toInt (stripe.length - 1)
  let st := putWord (toWord numOfFIP) st
  if toSize numOfFIP ≠ toSize (stripe.length - 1) then none
  else
    let st := (List.range numOfFIP.toNat).foldl
      (fun st j => putWord (stripe.getD j (0, [])).1 st) st
    some (putWord it.2 st)

def putFiles (stripes : Plan) : List (Str × Nat) → Arr × Nat → Option (Arr × Nat)
  | [], st => some st
  | it :: lostFiles, st => (putFile stripes it st).bind (putFiles stripes lostFiles)

/-- The length of the buffer, an `int`: where it does not fit, the buffer is too small or missing. -/
def drCmdLen (ecK numOfFiles : Nat) : Int :=
  toInt ((4 * (ecK + 1) * numOfFiles : Nat) : Int)

/-- `Coordinator::setupCyclReply`; `old` is what the buffer holds before. -/
def setupCyclReply (old : Arr) (ecK : Nat) (lostFiles : List (Str × Nat)) (stripes : Plan) :
    Option Reply :=
  if lostFiles.isEmpty then none
  else if stripes.isEmpty then none
  else (putFiles stripes lostFiles (old, 0)).map fun st =>
    ⟨st.1, drCmdLen ecK lostFiles.length, st.2⟩

/-! ## The client -/

/-- The loop over the `nj` lost files in `ECPipeInputStream::sendToCoordinator`: for each of them the
nodes whose contexts go to `_cyclPullCtx`, and its own; with it `cmdbase` at the end. -/
def readReply (ecN : Nat) (reqStr : Bytes) :
    Nat → Nat → Read (Option (List (List Nat × Nat) × Nat))
  | 0, cmdbase => return some ([], cmdbase)
  | nj + 1, cmdbase =>
      if cmdbase < reqStr.length then do
        let numOfFetchIPs ← readWord reqStr cmdbase
        if toInt numOfFetchIPs = 0 ∨ ecN < toSize (toInt numOfFetchIPs) then return none
        else
          let ips ← readWords reqStr (cmdbase + 4) (toInt numOfFetchIPs).toNat
          let cmdbase := cmdbase + 4 + 4 * (toInt numOfFetchIPs).toNat
          if cmdbase < reqStr.length then
            let ip ← readWord reqStr cmdbase
            let rest ← readReply ecN reqStr nj (cmdbase + 4)
            return rest.map fun q => ((ips, ip) :: q.1, q.2)
          else return none
      else return none

/-- The reply gets to the client: it has been written inside of the buffer, and the client reads all of
it and nothing else, and finds for each lost file all helpers in its entry but the last, and its
node. -/
structure RoundTrips (conf : Config) (plan : Plan) (lostFiles : List (Str × Nat)) (reply : Reply) :
    Prop where
  inside : reply.cmdbase ≤ reply.drCmdLen
  decoded : ∃ files,
    Reads (readReply conf.ecN reply.bytes lostFiles.length 0) 0
      (some (files, reply.bytes.length)) reply.bytes.length ∧
    List.Forall₂ (fun it file => ∃ e ∈ plan.toList, e.2.1 = it.1 ∧
      file = ((e.2.2.take (conf.ecK - 1)).map Prod.fst, it.2)) lostFiles files

/-! ## What is written -/

section Writing

variable {stripes : Plan} {lostFiles : List (Str × Nat)} {st st' : Arr × Nat} {xs : List Nat}

theorem toWord_lt (x : Int) : toWord x < 256 ^ 4 := by
  rw [toWord]
  omega

theorem toInt_toWord (x : Int) : toInt (toWord x : Nat) = toInt x := by
  have hword : ((toWord x : Nat) : Int) = x % 2 ^ 32 :=
    Int.toNat_of_nonneg (Int.emod_nonneg x (by decide))
  rw [hword, toInt, toInt]
  exact Int.emod_bmod x (2 ^ 32)

/-- The helpers under a node. -/
def helpersAt (stripes : Plan) (a : Nat) : List (Nat × Str) :=
  (stripes.getD a ([], [])).2

/-- The numbers for one lost file. -/
def fileWords (stripes : Plan) (it : Str × Nat) : List Nat :=
  let numOfFIP := toInt ((helpersAt stripes it.2).length - 1)
  toWord numOfFIP :: ((List.range numOfFIP.toNat).map
    (fun j => ((helpersAt stripes it.2).getD j (0, [])).1) ++ [it.2])

theorem putFile_written {it : Str × Nat} (h : Written st xs) :
    putFile stripes it st = some st' → Written st' (xs ++ fileWords stripes it) := by
  intro hput
  rw [putFile] at hput
  simp only at hput
  split at hput
  · cases hput
  · cases hput
    have hloop := ((h.putWord (toWord (toInt ((helpersAt stripes it.2).length - 1)))).foldl
      (fun j => ((helpersAt stripes it.2).getD j (0, [])).1)
      (List.range (toInt ((helpersAt stripes it.2).length - 1)).toNat)).putWord it.2
    rwa [List.append_assoc, List.append_assoc] at hloop

theorem putFiles_written (h : Written st xs) :
    putFiles stripes lostFiles st = some st' →
      Written st' (xs ++ lostFiles.flatMap (fileWords stripes)) := by
  intro hput
  induction lostFiles generalizing st xs with
  | nil =>
      cases hput
      simpa using h
  | cons it lostFiles ih =>
      rcases Option.bind_eq_some_iff.1 hput with ⟨next, hnext, hrest⟩
      have hall := ih (putFile_written h hnext) hrest
      rwa [List.append_assoc, ← List.flatMap_cons] at hall

/-- The count of a vector that is not too long. -/
theorem toInt_pred {n : Nat} : n ≤ 2 ^ 31 → toInt ((n : Int) - 1) = n - 1 := by
  intro hn
  cases n with
  | zero =>
      rfl
  | succ n =>
      rw [Int.natCast_succ, Int.add_sub_cancel]
      exact toInt_natCast_eq_iff.2 (Nat.lt_of_succ_le hn)

/-- The loop comes to its end if no vector is too long. -/
theorem putFiles_ne_none (hlen : ∀ it ∈ lostFiles, (helpersAt stripes it.2).length ≤ 2 ^ 31)
    (st : Arr × Nat) : ∃ st', putFiles stripes lostFiles st = some st' := by
  induction lostFiles generalizing st with
  | nil =>
      exact ⟨st, rfl⟩
  | cons it lostFiles ih =>
      have hcount := toInt_pred (hlen it List.mem_cons_self)
      have hput : ∃ next, putFile stripes it st = some next := by
        refine ⟨_, if_neg ?_⟩
        rw [not_not]
        exact congrArg toSize hcount
      rcases hput with ⟨next, hnext⟩
      rcases ih (fun it' hit' => hlen it' (List.mem_cons_of_mem _ hit')) next with ⟨st', hst'⟩
      exact ⟨st', by rw [putFiles, hnext]; exact hst'⟩

theorem fileWords_eq {it : Str × Nat} :
    (helpersAt stripes it.2).length ≤ 2 ^ 31 → fileWords stripes it =
      (if (helpersAt stripes it.2).isEmpty then 0xffffffff
        else (helpersAt stripes it.2).length - 1) ::
          ((helpersAt stripes it.2).dropLast.map Prod.fst ++ [it.2]) := by
  intro hlen
  rw [fileWords, toInt_pred hlen]
  cases hvec : helpersAt stripes it.2 with
  | nil =>
      rfl
  | cons p vec =>
      rw [hvec, List.length_cons] at hlen
      have hcount : (((p :: vec).length : Nat) : Int) - 1 = vec.length := by
        rw [List.length_cons, Int.natCast_succ, Int.add_sub_cancel]
      have hword : toWord (vec.length : Nat) = vec.length := by
        rw [toWord, Int.emod_eq_of_lt (Int.natCast_nonneg _) (by omega), Int.toNat_natCast]
      have hhelpers : (List.range vec.length).map (fun j => ((p :: vec).getD j (0, [])).1) =
          (p :: vec).dropLast.map Prod.fst := by
        refine List.ext_getElem (by simp) fun j hj _ => ?_
        have hin : j < (p :: vec).length := by
          rw [List.length_map, List.length_range] at hj
          exact Nat.lt_succ_of_lt hj
        simp only [List.getElem_map, List.getElem_range, List.getElem_dropLast,
          List.getD_eq_getElem?_getD, List.getElem?_eq_getElem hin, Option.getD_some]
      rw [hcount, hword, Int.toNat_natCast, hhelpers]
      rfl

/-- The bytes are those of the numbers of the reply. -/
theorem setupCyclReply_written {words : List Nat} (old : Arr) (ecK : Nat)
    (hlen : ∀ it ∈ lostFiles, (helpersAt stripes it.2).length ≤ 2 ^ 31) :
    PipeMul.setupCyclReply lostFiles stripes = some words →
      ∃ reply, setupCyclReply old ecK lostFiles stripes = some reply ∧
        reply.drCmdLen = drCmdLen ecK lostFiles.length ∧
        Written (reply.drCmd, reply.cmdbase) words := by
  intro hwords
  rw [PipeMul.setupCyclReply] at hwords
  split at hwords
  · cases hwords
  · rename_i hne
    rw [not_or] at hne
    rcases putFiles_ne_none hlen (old, 0) with ⟨st, hst⟩
    refine ⟨⟨st.1, drCmdLen ecK lostFiles.length, st.2⟩, ?_, ?_, ?_⟩
    · simp only [setupCyclReply, if_neg hne.1, if_neg hne.2, hst, Option.map_some]
    · dsimp only
    · have hall := putFiles_written (written_nil old) hst
      have hfiles : lostFiles.flatMap (fileWords stripes) = words := by
        rw [← Option.some.inj hwords]
        exact List.flatMap_congr fun it hit => fileWords_eq (hlen it hit)
      rwa [List.nil_append, hfiles] at hall

end Writing

/-! ## What is read -/

section Reading

variable {ecN nj pos : Nat} {s : Bytes}

/-- The numbers of a reply, for what the client is to find. -/
def replyWords (files : List (List Nat × Nat)) : List Nat :=
  files.flatMap fun file => file.1.length :: (file.1 ++ [file.2])

/-- The client can read the numbers for one file. -/
structure Readable (ecN : Nat) (file : List Nat × Nat) : Prop where
  nonempty : file.1 ≠ []
  count : file.1.length ≤ ecN
  int : file.1.length < 2 ^ 31
  words : ∀ x ∈ file.1, x < 256 ^ 4
  node : file.2 < 256 ^ 4

theorem toSize_natCast {n : Nat} : n < 2 ^ 31 → toSize n = n := by
  intro hn
  rw [toSize, Int.emod_eq_of_lt (Int.natCast_nonneg n) (by omega), Int.toNat_natCast]

/-- The client finds what the reply was made of, and reads to its end. -/
theorem readReply_replyWords {files : List (List Nat × Nat)} :
    (∀ file ∈ files, Readable ecN file) → pos ≤ s.length →
      At s pos ((replyWords files).flatMap (le 4)) →
        Reads (readReply ecN s files.length pos) pos (some (files, s.length)) s.length := by
  intro hfiles hpos hat
  induction files generalizing pos with
  | nil =>
      have hend : pos = s.length := hat.length hpos
      rw [← hend]
      exact reads_pure _ _
  | cons file files ih =>
      have hfile := hfiles file List.mem_cons_self
      have hbytes : (replyWords (file :: files)).flatMap (le 4) =
          le 4 file.1.length ++ (file.1.flatMap (le 4) ++
            (le 4 file.2 ++ (replyWords files).flatMap (le 4))) := by
        simp only [replyWords, List.flatMap_cons, List.cons_append, List.flatMap_append,
          List.append_assoc, List.nil_append]
      rw [hbytes] at hat
      have hlen := hat.length hpos
      simp only [List.length_append, length_le, length_flatMap_le] at hlen
      have hint : toInt ((file.1.length : Nat) : Int) = file.1.length :=
        toInt_natCast_eq_iff.2 hfile.int
      have hcount : ¬ ((file.1.length : Int) = 0 ∨ ecN < toSize file.1.length) := by
        rw [not_or, toSize_natCast hfile.int, Nat.not_lt, Int.natCast_eq_zero,
          List.length_eq_zero_iff]
        exact ⟨hfile.nonempty, hfile.count⟩
      rw [List.length_cons, readReply, if_pos (by omega)]
      refine hat.readWord (hfile.int.trans (by decide)) fun hat => ?_
      rw [hint, if_neg hcount, Int.toNat_natCast]
      refine hat.readWords hfile.words fun hat => ?_
      rw [if_pos (by omega)]
      refine hat.readWord hfile.node fun hat => ?_
      exact (ih (fun f hf => hfiles f (List.mem_cons_of_mem _ hf)) (by omega) hat).bind
        (reads_pure _ _)

/-- The number of helpers that the client finds first is the first number in the reply. -/
theorem readReply_first {files : List (List Nat × Nat)} {cmdbase lo hi : Nat} :
    Reads (readReply ecN s (nj + 1) pos) lo (some (files, cmdbase)) hi →
      ∃ file rest, files = file :: rest ∧ file.1.length = (toInt (word s pos)).toNat := by
  intro h
  rw [readReply] at h
  split at h
  · rcases reads_bind_iff.1 h with ⟨numOfFetchIPs, mid, hnum, h⟩
    obtain rfl := hnum.word
    split at h
    · cases congrArg Prod.fst h
    · rcases reads_bind_iff.1 h with ⟨ips, mid, hips, h⟩
      simp only at h
      split at h
      · rcases reads_bind_iff.1 h with ⟨ip, mid, -, h⟩
        rcases reads_bind_iff.1 h with ⟨rest, mid, -, h⟩
        cases rest with
        | none =>
            cases congrArg Prod.fst h
        | some q =>
            cases congrArg Prod.fst h
            exact ⟨_, _, rfl, hips.words⟩
      · cases congrArg Prod.fst h
  · cases congrArg Prod.fst h

theorem length_replyWords {files : List (List Nat × Nat)} {m : Nat} :
    (∀ file ∈ files, file.1.length = m) → (replyWords files).length = (m + 2) * files.length := by
  intro hfiles
  induction files with
  | nil =>
      rfl
  | cons file files ih =>
      have hrest := ih fun f hf => hfiles f (List.mem_cons_of_mem _ hf)
      have hfile := hfiles file List.mem_cons_self
      calc
        (replyWords (file :: files)).length
            = file.1.length + 2 + (replyWords files).length := by
              simp [replyWords]
              ring
        _ = (m + 2) * (file :: files).length := by
              rw [hfile, hrest, List.length_cons]
              ring

end Reading

/-! ## Plans -/

section Plans

variable {conf : RepairConfig} {plan : Plan} {lostFiles : List (Str × Nat)}
  {vec : List (Nat × Str)} {old : Arr} {reply : Reply}

/-- What the client is to find, if all entries have the helpers `vec`. -/
def filesOf (vec : List (Nat × Str)) (ecK : Nat) (lostFiles : List (Str × Nat)) :
    List (List Nat × Nat) :=
  lostFiles.map fun it => ((vec.take (ecK - 1)).map Prod.fst, it.2)

theorem length_of_mem_filesOf (hvec : vec.length = conf.ecK) {file : List Nat × Nat} :
    file ∈ filesOf vec conf.ecK lostFiles → file.1.length = conf.ecK - 1 := by
  intro hfile
  rcases List.mem_map.1 hfile with ⟨it, _, rfl⟩
  rw [List.length_map, List.length_take, hvec, Nat.min_eq_left (Nat.sub_le _ _)]

/-- With an entry for each lost file, the reply is what the client is to find. -/
theorem setupCyclReply_filesOf (old : Arr) (hne : lostFiles ≠ []) (hplan : plan.isEmpty = false)
    (hvec : vec.length = conf.ecK) (hk : 1 ≤ conf.ecK) (hlen : conf.ecK ≤ 2 ^ 31) :
    (∀ it ∈ lostFiles, helpersAt plan it.2 = vec) →
      ∃ reply, setupCyclReply old conf.ecK lostFiles plan = some reply ∧
        reply.drCmdLen = drCmdLen conf.ecK lostFiles.length ∧
        Written (reply.drCmd, reply.cmdbase) (replyWords (filesOf vec conf.ecK lostFiles)) := by
  intro hentries
  have hgiven : ¬ (lostFiles.isEmpty = true ∨ plan.isEmpty = true) := by
    simp [hne, hplan]
  have hnonempty : vec.isEmpty = false := by
    rw [List.isEmpty_eq_false_iff, ← List.length_pos_iff, hvec]
    exact hk
  have hwords : PipeMul.setupCyclReply lostFiles plan =
      some (replyWords (filesOf vec conf.ecK lostFiles)) := by
    rw [PipeMul.setupCyclReply, if_neg hgiven, replyWords, filesOf, List.flatMap_map]
    refine congrArg some (List.flatMap_congr fun it hit => ?_)
    have hstripe : (plan.getD it.2 ([], [])).2 = vec := hentries it hit
    have hcount : (List.map Prod.fst (vec.take (conf.ecK - 1))).length = conf.ecK - 1 := by
      rw [List.length_map, List.length_take, hvec, Nat.min_eq_left (Nat.sub_le _ _)]
    simp only [hstripe, hnonempty, hcount, List.dropLast_eq_take, hvec]
    rfl
  refine setupCyclReply_written old conf.ecK (fun it hit => ?_) hwords
  rw [hentries it hit, hvec]
  exact hlen

/-- The buffer begins with the count for the first lost file. -/
theorem word_bytes {it : Str × Nat} (hreply : setupCyclReply old conf.ecK (it :: lostFiles) plan =
      some reply) :
    (reply.cmdbase : Int) ≤ reply.drCmdLen →
      toInt (word reply.bytes 0) = toInt ((helpersAt plan it.2).length - 1) := by
  intro hinside
  rw [setupCyclReply] at hreply
  split_ifs at hreply
  rcases Option.map_eq_some_iff.1 hreply with ⟨st, hst, rfl⟩
  have hall := putFiles_written (written_nil old) hst
  rw [List.nil_append, List.flatMap_cons, fileWords, List.cons_append] at hall
  have hfits : st.2 ≤ (drCmdLen conf.ecK (it :: lostFiles).length).toNat := by
    rw [Int.le_toNat (Int.le_trans (Int.natCast_nonneg _) hinside)]
    exact hinside
  rw [Reply.bytes, hall.word_first hfits (toWord_lt _), toInt_toWord, toInt, toInt, Int.bmod_bmod]

end Plans

/-! ## Plans of `HDFS_MetadataBase` -/

section Hdfs

variable {conf : RepairConfig} {base base' : MetadataBase} {s lost : List Str} {ip : Str → Nat}
  {status : Status} {blkName : Str} {requestorIP : Nat} {plan : Plan} {vec : List (Nat × Str)}

/-- The node of the block that is asked for has an entry just if it is the node that asks. -/
theorem getElem?_plan_blkName (hbase : base.HoldsStripe conf.toConfig s ip)
    (hstatus : IsStatus status s lost) (hb : blkName ∈ lost) :
    (planLost base status vec (· ≠ blkName)
      ((∅ : Plan).insert requestorIP (blkName, vec)))[ip blkName]? =
        if requestorIP = ip blkName then some (blkName, vec) else none := by
  have hfree : ∀ c ∈ lost, decide (c ≠ blkName) = true → ip blkName ≠ ip c := by
    intro c hc hne hip
    exact of_decide_eq_true hne (List.inj_on_of_nodup_map hbase.nodes (hstatus.subset c hc)
      (hstatus.subset blkName hb) hip.symm)
  by_cases hasks : requestorIP = ip blkName
  · rw [if_pos hasks, getElem?_planLost hbase hstatus]
    refine Or.inr ⟨hfree, ?_⟩
    rw [hasks]
    exact TreeMap.getElem?_insert_self
  · rw [if_neg hasks]
    refine Option.eq_none_iff_forall_ne_some.2 fun e he => ?_
    rcases (getElem?_planLost hbase hstatus).1 he with ⟨c, hc, hne, hip, -⟩ | ⟨-, hret⟩
    · exact hfree c hc hne hip
    · rw [TreeMap.getElem?_insert, if_neg fun h => hasks (LawfulEqCmp.compare_eq_iff_eq.1 h)] at hret
      simp at hret

/-- Everything that is lost has its entry if the node of the block asks. -/
theorem getElem?_plan_lost (hbase : base.HoldsStripe conf.toConfig s ip)
    (hstatus : IsStatus status s lost) (hb : blkName ∈ lost) (hasks : requestorIP = ip blkName)
    {c : Str} : c ∈ lost →
      (planLost base status vec (· ≠ blkName)
        ((∅ : Plan).insert requestorIP (blkName, vec)))[ip c]? = some (c, vec) := by
  intro hc
  by_cases hne : c = blkName
  · rw [hne, getElem?_plan_blkName hbase hstatus hb, if_pos hasks]
  · exact (getElem?_planLost hbase hstatus).2 (Or.inl ⟨c, hc, decide_eq_true hne, rfl, rfl⟩)

theorem helpersAt_of_getElem? {a : Nat} {e : Str × List (Nat × Str)} :
    plan[a]? = some e → helpersAt plan a = e.2 := by
  intro he
  rw [helpersAt, TreeMap.getD_eq_getD_getElem?, he, Option.getD_some]

theorem le_drCmdLen_iff {ecK n : Nat} :
    ((4 * (ecK + 1) * n : Nat) : Int) ≤ drCmdLen ecK n ↔ 4 * (ecK + 1) * n < 2 ^ 31 := by
  rw [← toInt_natCast_eq_iff, drCmdLen]
  constructor
  · intro hle
    rw [toInt, Int.bmod_def] at hle ⊢
    omega
  · intro heq
    exact heq.ge

/-- The entries of a plan: all have the helpers `vec`. -/
structure Entries (conf : RepairConfig) (s lost : List Str) (ip : Str → Nat) (blkName : Str)
    (requestorIP : Nat) (plan : Plan) (vec : List (Nat × Str)) : Prop where
  length : vec.length = conf.ecK
  mem : ∀ p ∈ vec, p.2 ∈ s ∧ p.1 = ip p.2
  all : ∀ e ∈ plan.toList, e.2.2 = vec
  asked : plan[ip blkName]? = if requestorIP = ip blkName then some (blkName, vec) else none
  lost : requestorIP = ip blkName → ∀ c ∈ lost, plan[ip c]? = some (c, vec)

theorem exists_entries (hbase : base.HoldsStripe conf.toConfig s ip)
    (hstatus : IsStatus status s lost) (hb : blkName ∈ lost) :
    Hdfs.getStripeBlksMul conf base blkName requestorIP status = some (plan, base') →
      ∃ vec, Entries conf s lost ip blkName requestorIP plan vec := by
  intro hplan
  rcases hdfs_getStripeBlksMul_cases hbase hstatus hb hplan with ⟨setVal, hset, hsize, hbase', rfl⟩
  refine ⟨setVal.toList, ?_⟩
  constructor
  case length =>
    exact (hset.vec hbase hsize).1
  case mem =>
    intro p hp
    have hp := hset.mem p (TreeSet.mem_toList.1 hp)
    exact ⟨hp.1, hp.2.2⟩
  case all =>
    rintro ⟨a, e⟩ he
    exact (hdfs_plan_entry hbase' hstatus hb (TreeMap.mem_toList_iff_getElem?_eq_some.1 he)).1
  case asked =>
    exact getElem?_plan_blkName hbase' hstatus hb
  case lost =>
    exact fun hasks c hc => getElem?_plan_lost hbase' hstatus hb hasks hc

section Reply

variable {others : List Str} {old : Arr}

/-- The lost files of a request. -/
def lostFilesOf (ip : Str → Nat) (lost : List Str) : List (Str × Nat) :=
  lost.map fun b => (b, ip b)

/-- If the node of the first lost block asks, all is written as the client is to find it. -/
theorem Entries.reply (h : Entries conf s lost ip blkName requestorIP plan vec)
    (hk : 1 ≤ conf.ecK) (hlen : conf.ecK ≤ 2 ^ 31) (hasks : requestorIP = ip blkName)
    (hlost : ∀ b ∈ blkName :: others, b ∈ lost) (old : Arr) :
    ∃ reply, setupCyclReply old conf.ecK (lostFilesOf ip (blkName :: others)) plan = some reply ∧
      reply.drCmdLen = drCmdLen conf.ecK (others.length + 1) ∧
      Written (reply.drCmd, reply.cmdbase)
        (replyWords (filesOf vec conf.ecK (lostFilesOf ip (blkName :: others)))) ∧
      reply.cmdbase = 4 * (conf.ecK + 1) * (others.length + 1) := by
  have hentry : ∀ it ∈ lostFilesOf ip (blkName :: others), helpersAt plan it.2 = vec := by
    intro it hit
    rcases List.mem_map.1 hit with ⟨c, hc, rfl⟩
    exact helpersAt_of_getElem? (h.lost hasks c (hlost c hc))
  have hplan : plan.isEmpty = false := by
    rw [Bool.eq_false_iff]
    intro hempty
    have hfirst := h.lost hasks blkName (hlost blkName List.mem_cons_self)
    rw [TreeMap.getElem?_of_isEmpty hempty] at hfirst
    cases hfirst
  have hfiles : (lostFilesOf ip (blkName :: others)).length = others.length + 1 := by
    simp [lostFilesOf]
  rcases setupCyclReply_filesOf old (by simp [lostFilesOf]) hplan h.length hk hlen hentry with
    ⟨reply, hreply, hdrCmdLen, hwritten⟩
  refine ⟨reply, hreply, hfiles ▸ hdrCmdLen, hwritten, ?_⟩
  calc
    reply.cmdbase
        = 4 * (replyWords (filesOf vec conf.ecK (lostFilesOf ip (blkName :: others)))).length := by
          rw [← length_flatMap_le]
          exact hwritten.pos
    _ = 4 * ((conf.ecK - 1 + 2) * (others.length + 1)) := by
          rw [length_replyWords fun file hfile => length_of_mem_filesOf h.length hfile, filesOf,
            List.length_map, hfiles]
    _ = 4 * (conf.ecK + 1) * (others.length + 1) := by
          rw [← Nat.mul_assoc]
          congr 2
          omega

theorem Entries.roundTrips (h : Entries conf s lost ip blkName requestorIP plan vec)
    (hk : 2 ≤ conf.ecK) (hkn : conf.ecK < conf.ecN) (hword : ∀ b ∈ s, ip b < 2 ^ 32)
    (hsub : ∀ b ∈ lost, b ∈ s) (hlost : ∀ b ∈ blkName :: others, b ∈ lost)
    (hasks : requestorIP = ip blkName) (old : Arr) :
    4 * (conf.ecK + 1) * (others.length + 1) < 2 ^ 31 →
      ∃ reply, setupCyclReply old conf.ecK (lostFilesOf ip (blkName :: others)) plan =
          some reply ∧
        RoundTrips conf.toConfig plan (lostFilesOf ip (blkName :: others)) reply := by
  intro hfits
  have hsmall : conf.ecK < 2 ^ 31 := by
    have hle : conf.ecK + 1 ≤ (conf.ecK + 1) * (others.length + 1) :=
      Nat.le_mul_of_pos_right _ (Nat.succ_pos _)
    rw [Nat.mul_assoc] at hfits
    omega
  rcases h.reply (by omega) hsmall.le hasks hlost old with
    ⟨reply, hreply, hdrCmdLen, hwritten, hcmdbase⟩
  -- the length is an `int`; it does not overflow
  have hexact : reply.drCmdLen = reply.cmdbase := by
    rw [hdrCmdLen, hcmdbase]
    exact toInt_natCast_eq_iff.2 hfits
  have hbytes : reply.bytes =
      (replyWords (filesOf vec conf.ecK (lostFilesOf ip (blkName :: others)))).flatMap (le 4) := by
    have hpos : reply.cmdbase = _ := hwritten.pos
    rw [Reply.bytes, hexact, Int.toNat_natCast, hpos]
    exact first_eq hwritten.has
  have hreadable : ∀ file ∈ filesOf vec conf.ecK (lostFilesOf ip (blkName :: others)),
      Readable conf.ecN file := by
    intro file hfile
    have hlen := length_of_mem_filesOf h.length hfile
    rcases List.mem_map.1 hfile with ⟨it, hit, rfl⟩
    rcases List.mem_map.1 hit with ⟨b, hb, rfl⟩
    constructor
    case nonempty =>
      rw [← List.length_pos_iff, hlen]
      omega
    case count =>
      rw [hlen]
      omega
    case int =>
      rw [hlen]
      omega
    case words =>
      intro x hx
      rcases List.mem_map.1 hx with ⟨p, hp, rfl⟩
      rcases h.mem p (List.mem_of_mem_take hp) with ⟨hps, hip⟩
      rw [hip]
      exact hword p.2 hps
    case node =>
      exact hword b (hsub b (hlost b hb))
  refine ⟨reply, hreply, hexact.ge,
    filesOf vec conf.ecK (lostFilesOf ip (blkName :: others)), ?_, ?_⟩
  · have hat := Eq.trans (at_start reply.bytes) hbytes
    have hread := readReply_replyWords hreadable (Nat.zero_le _) hat
    have hcount : (filesOf vec conf.ecK (lostFilesOf ip (blkName :: others))).length =
        (lostFilesOf ip (blkName :: others)).length := by
      rw [filesOf, List.length_map]
    rwa [hcount] at hread
  · refine List.forall₂_map_right_iff.2 (List.forall₂_same.2 fun it hit => ?_)
    rcases List.mem_map.1 hit with ⟨b, hb, rfl⟩
    exact ⟨(ip b, b, vec), TreeMap.mem_toList_iff_getElem?_eq_some.2 (h.lost hasks b (hlost b hb)),
      rfl, rfl⟩

/-- What gets to the client was asked for by the node of the first lost block, and fits. -/
theorem Entries.of_roundTrips (h : Entries conf s lost ip blkName requestorIP plan vec)
    (hk : 2 ≤ conf.ecK) (hlost : ∀ b ∈ blkName :: others, b ∈ lost) {reply : Reply}
    (hreply : setupCyclReply old conf.ecK (lostFilesOf ip (blkName :: others)) plan =
      some reply) :
    RoundTrips conf.toConfig plan (lostFilesOf ip (blkName :: others)) reply →
      requestorIP = ip blkName ∧ 4 * (conf.ecK + 1) * (others.length + 1) < 2 ^ 31 := by
  rintro ⟨hinside, files, hreads, hfiles⟩
  -- the client finds `k - 1` helpers for the first lost block
  rcases readReply_first hreads with ⟨file, rest, rfl, hcount⟩
  rcases List.forall₂_cons.1 hfiles with ⟨⟨e, he, -, hfile⟩, -⟩
  have hlen : file.1.length = conf.ecK - 1 := by
    rw [hfile, List.length_map, List.length_take, h.all e he, h.length,
      Nat.min_eq_left (Nat.sub_le _ _)]
  have hfirst := word_bytes hreply hinside
  rw [hlen, hfirst] at hcount
  have hasks : requestorIP = ip blkName := by
    by_contra hother
    have hnone : helpersAt plan (ip blkName) = [] := by
      rw [helpersAt, TreeMap.getD_eq_getD_getElem?, h.asked, if_neg hother]
      rfl
    rw [hnone, List.length_nil, toInt_pred (Nat.zero_le _)] at hcount
    simp at hcount
    omega
  have hsmall : conf.ecK ≤ 2 ^ 31 := by
    have hhelpers := helpersAt_of_getElem? (h.lost hasks blkName (hlost _ List.mem_cons_self))
    rw [hhelpers, h.length, toInt, Int.bmod_def] at hcount
    omega
  refine ⟨hasks, ?_⟩
  rcases h.reply (by omega) hsmall hasks hlost old with
    ⟨reply', hreply', hdrCmdLen, -, hcmdbase⟩
  obtain rfl := Option.some.inj (hreply.symm.trans hreply')
  rw [hdrCmdLen, hcmdbase] at hinside
  exact le_drCmdLen_iff.1 hinside

end Reply

/-- A request may name a block twice. -/
theorem requestStatus_dedup (hbase : base.HoldsStripe conf.toConfig s ip)
    (hlost : ∀ b ∈ lost, b ∈ s) : blkName ∈ lost →
      IsStatus ((requestStatus (base.stripeBlks blkName) lost).insert blkName 0) s lost.dedup := by
  intro hb
  have hbs := hlost blkName hb
  have hstatus := requestStatus_isStatus blkName hbase hbs
    (fun b hb => hlost b (List.mem_dedup.1 hb)) (List.nodup_dedup lost)
  have hsame : IsStatus (requestStatus (base.stripeBlks blkName) lost) s lost.dedup := by
    refine ⟨fun b => ?_, hstatus.subset, hstatus.nodup⟩
    rw [← hstatus.get b]
    simp only [requestStatus, getElem?_foldl_insert, List.map_id', List.mem_dedup]
  exact hsame.insert_zero (List.mem_dedup.2 hb)

end Hdfs

/-- With a loaded store, the reply to a request for blocks of one stripe gets to the client just if
the node of the first lost block asks and the buffer has a length. -/
theorem setupCyclReply_roundTrips_iff (conf : RepairConfig) (rsu : RSUtil) (hk : 2 ≤ conf.ecK)
    (hkn : conf.ecK < conf.ecN) (stripes : List (List Str)) (dir : List (Str × Str))
    (hdir : IsStore conf.toConfig stripes dir) (blkInit : List (Nat × Str)) (base : MetadataBase)
    (hload : hdfsMetadataBase conf rsu dir blkInit = some base) (s : List Str) (hs : s ∈ stripes)
    (ip : Str → Nat) (hrep : Reported blkInit s ip) (hword : ∀ b ∈ s, ip b < 2 ^ 32)
    (order : TreeMap Nat Nat) (blkName : Str) (others : List Str)
    (hlost : ∀ b ∈ blkName :: others, b ∈ s) (requestorIP : Nat) (plan : Plan)
    (base' : MetadataBase)
    (hplan : Hdfs.getStripeBlksMul conf { base with order := order } blkName requestorIP
      ((requestStatus (base.stripeBlks blkName) (blkName :: others)).insert blkName 0) =
        some (plan, base')) (old : Arr) :
    (∃ reply, setupCyclReply old conf.ecK (lostFilesOf ip (blkName :: others)) plan = some reply ∧
        RoundTrips conf.toConfig plan (lostFilesOf ip (blkName :: others)) reply) ↔
      requestorIP = ip blkName ∧ 4 * (conf.ecK + 1) * (others.length + 1) < 2 ^ 31 := by
  have hbase := hdfs_holdsStripe (by omega) hkn hdir hs hrep hload
  have hstatus := requestStatus_dedup hbase hlost List.mem_cons_self
  have hmem : ∀ b ∈ blkName :: others, b ∈ (blkName :: others).dedup :=
    fun b hb => List.mem_dedup.2 hb
  rcases exists_entries (hbase.withOrder order) hstatus (hmem _ List.mem_cons_self) hplan with
    ⟨vec, hentries⟩
  constructor
  · rintro ⟨reply, hreply, hround⟩
    exact hentries.of_roundTrips hk hmem hreply hround
  · rintro ⟨hasks, hfits⟩
    exact hentries.roundTrips hk hkn hword hstatus.subset hmem hasks old hfits

/-! One data block of the small store is lost. -/

/-- A plan for it, whoever asks. -/
theorem xor_plan (requestorIP : Nat) :
    ∃ base plan base', hdfsMetadataBase xorRepairConf xorRSUtil xorDir xorInit = some base ∧
      base.HoldsStripe xorRepairConf.toConfig xorStripe xorIp ∧
      Hdfs.getStripeBlksMul xorRepairConf base xorLost requestorIP
        ((requestStatus (base.stripeBlks xorLost) [xorLost]).insert xorLost 0) =
          some (plan, base') := by
  have hb : xorLost ∈ [xorLost] := List.mem_singleton_self _
  rcases xor_load xorRepairConf xorRSUtil (by decide) xorDir_isStore with ⟨base, hload⟩
  have hbase := hdfs_holdsStripe (by decide) (by decide) xorDir_isStore (List.mem_singleton_self _)
    xorInit_reported hload
  have hstatus : IsStatus ((requestStatus (base.stripeBlks xorLost) [xorLost]).insert xorLost 0)
      xorStripe [xorLost] :=
    (requestStatus_isStatus xorLost hbase (by decide) (by decide) (by decide)).insert_zero hb
  have havailable : HdfsAvailable xorRepairConf base.order xorStripe [xorLost] xorIp
      requestorIP := by
    rw [HdfsAvailable, if_neg (by decide), if_pos (by decide)]
    decide
  rcases (hdfs_returns_iff hbase hstatus hb).2 havailable with ⟨plan, base', hplan⟩
  exact ⟨base, plan, base', hload, hbase, hplan⟩

/-- The node of the block asks. -/
theorem setupCyclReply_roundTrips_xor :
    ∃ base plan base', hdfsMetadataBase xorRepairConf xorRSUtil xorDir xorInit = some base ∧
      Hdfs.getStripeBlksMul xorRepairConf base xorLost (xorIp xorLost)
        ((requestStatus (base.stripeBlks xorLost) [xorLost]).insert xorLost 0) =
          some (plan, base') ∧
      ∃ reply, setupCyclReply Wire.zeros 2 (lostFilesOf xorIp [xorLost]) plan = some reply ∧
        RoundTrips xorConf plan (lostFilesOf xorIp [xorLost]) reply := by
  rcases xor_plan (xorIp xorLost) with ⟨base, plan, base', hload, -, hplan⟩
  exact ⟨base, plan, base', hload, hplan, (setupCyclReply_roundTrips_iff xorRepairConf xorRSUtil (by decide) (by decide)
    [xorStripe] xorDir xorDir_isStore xorInit base hload xorStripe (List.mem_singleton_self _) xorIp
    xorInit_reported (by decide) base.order xorLost [] (by decide) (xorIp xorLost) plan base' hplan
    Wire.zeros).2 ⟨rfl, by decide⟩⟩

/-- Another node asks, and nothing gets to the client. -/
theorem not_roundTrips_xor :
    ∃ base plan base', hdfsMetadataBase xorRepairConf xorRSUtil xorDir xorInit = some base ∧
      Hdfs.getStripeBlksMul xorRepairConf base xorLost (xorIp (xorStripe.getD 0 []))
        ((requestStatus (base.stripeBlks xorLost) [xorLost]).insert xorLost 0) =
          some (plan, base') ∧
      ∀ old reply, setupCyclReply old 2 (lostFilesOf xorIp [xorLost]) plan = some reply →
        ¬ RoundTrips xorConf plan (lostFilesOf xorIp [xorLost]) reply := by
  rcases xor_plan (xorIp (xorStripe.getD 0 [])) with ⟨base, plan, base', hload, hbase, hplan⟩
  refine ⟨base, plan, base', hload, hplan, fun old reply hreply hround => ?_⟩
  have hin : ∀ b ∈ [xorLost], b ∈ xorStripe := by decide
  have hlost : ∀ b ∈ [xorLost], b ∈ [xorLost].dedup := by decide
  have hstatus := requestStatus_dedup hbase hin List.mem_cons_self
  rcases exists_entries hbase hstatus (hlost _ List.mem_cons_self) hplan with ⟨vec, hentries⟩
  have hasks := (hentries.of_roundTrips (by decide) hlost hreply hround).1
  exact absurd hasks (by decide)

end ReplyBytes

end CoRD
