import CoRD.Repair.FRRequest
import CoRD.Repair.JobBatch

/-!
# Hdfs3Requests — several HDFS 3 clients at one coordinator

An HDFS 3 client asks for its lost blocks one after the other.  The request with index zero is
planned; for the others the handler answers from what it remembers: the last helper of each block in
a map, under the basic policy, and under the cyclic policy the reply to the latest request with
index zero, of whichever client.

All requests go through one list and one handler.  An entry of the list is kept with the client and
the index it comes from, which the handler does not look at.
-/

namespace CoRD

open Std Wire

/-- `_ECPipePolicy`, for the policies that lead to a `PipeMulCoordinator`. -/
inductive ECPipePolicy
  | basic
  | cyclic
  deriving DecidableEq

namespace PipeMul

/-! ## The handler -/

/-- The variables of `requestHandler` that live from one request to the next; the words of the
buffer are there once it has been filled. -/
structure HandlerVars where
  lastHelperStore : TreeMap Str Nat
  drCmdHistory : Option (List Nat)

/-- What a request leads to. -/
structure Handled where
  vars : HandlerVars
  reply : Option (Str × List Nat)
  cmds : List (Nat × PipeMulCmd)

/-- The plan that is computed for a request with index zero. -/
def planFor (conf : RepairConfig) (base : MetadataBase) (requestorIP : Nat) (r : FRRequest) :
    Option Plan :=
  let filename := (r.lostFiles.getD 0 ([], 0)).1
  Hdfs3.getStripeBlksMul conf base filename requestorIP (r.status.insert filename 0)

/-- `lastHelperStore[it.first] = it2.second.second.back().first` for each lost file in the plan. -/
def storeHelpers (stripes : Plan) (lostFiles : List (Str × Nat)) (store : TreeMap Str Nat) :
    TreeMap Str Nat :=
  lostFiles.foldl
    (fun store it =>
      match stripes.toList.find? fun it2 => it2.2.1 = it.1 with
      | some it2 => store.insert it.1 (it2.2.2.getLastD (0, [])).1
      | none => store) store

/-- `Coordinator::setupCyclReply`: for each lost file the number of its first helpers, these
helpers, and its node.  It gives up without files or without a plan. -/
def setupCyclReply (lostFiles : List (Str × Nat)) (stripes : Plan) : Option (List Nat) :=
  if lostFiles.isEmpty ∨ stripes.isEmpty then none
  else
    some (lostFiles.flatMap fun it =>
      let stripe := (stripes.getD it.2 ([], [])).2
      let numOfFIP := if stripe.isEmpty then 0xffffffff else stripe.length - 1
      numOfFIP :: (stripe.dropLast.map Prod.fst ++ [it.2]))

/-- The words of the basic reply: the last helper of each file, from the second on with its
node. -/
def basicReply (store : TreeMap Str Nat) (lostFiles : List (Str × Nat)) : List Nat :=
  store.getD (lostFiles.getD 0 ([], 0)).1 0 ::
    lostFiles.tail.flatMap fun it => [store.getD it.1 0, it.2]

/-- A request with an index above zero; `none` stands for the `exit`, and for a buffer that has not
been filled. -/
def handleFollowUp (policy : ECPipePolicy) (vars : HandlerVars) (filename : Str) :
    Option Handled :=
  match policy with
  | .cyclic => vars.drCmdHistory.map fun words => ⟨vars, some (filename, words), []⟩
  | .basic =>
      let lastHelper := vars.lastHelperStore.getD filename 0
      if lastHelper = 0 then none
      else
        let store := vars.lastHelperStore.insert filename 0
        some ⟨{ vars with lastHelperStore := store }, some (filename, [lastHelper]), []⟩

section Handler

variable (policy : ECPipePolicy) (conf : RepairConfig) (rsu : RSUtil) (base : MetadataBase)

/-- A request with index zero. -/
def handleFirst (vars : HandlerVars) (requestorIP : Nat) (r : FRRequest) : Option Handled :=
  let filename := (r.lostFiles.getD 0 ([], 0)).1
  match planFor conf base requestorIP r with
  | none => none
  | some stripes =>
      if stripes.toList.any fun it => it.2.1.isEmpty then none
      else
        let vars := { vars with
          lastHelperStore := storeHelpers stripes r.lostFiles vars.lastHelperStore }
        if (outputStripeMul conf.ecK stripes).1 = false then some ⟨vars, none, []⟩
        else
          let cmds := requestHandler conf.toConfig rsu base (r.status.insert filename 0)
            requestorIP stripes
          match policy with
          | .basic =>
              some ⟨vars, some (filename, basicReply vars.lastHelperStore r.lostFiles), cmds⟩
          | .cyclic =>
              (setupCyclReply r.lostFiles stripes).map fun words =>
                ⟨{ vars with drCmdHistory := some words }, some (filename, words), cmds⟩

/-- One turn of the loop of `PipeMulCoordinator::requestHandler`, for the file system HDFS 3. -/
def handle (vars : HandlerVars) (reqStr : Bytes) : Option Handled :=
  let requestorIP := word reqStr 0
  match parseFRRequest base .hdfs3 requestorIP conf.ecK reqStr with
  | none => none
  | some r =>
      if r.index ≠ 0 then handleFollowUp policy vars (r.lostFiles.getD r.index ([], 0)).1
      else handleFirst policy conf rsu base vars requestorIP r

end Handler

end PipeMul

/-! ## The clients and the handler -/

/-- An HDFS 3 client, with the blocks that it repairs. -/
structure Hdfs3Client where
  localIp : Nat
  lostFileNames : List Bytes

/-- The name of its `i`-th lost block. -/
def Hdfs3Client.name (c : Hdfs3Client) (i : Nat) : Str :=
  nameOf (c.lostFileNames.getD i [])

namespace Hdfs3Requests

variable {ι : Type} [DecidableEq ι]

/-- A client is about to send a request, or waits for the reply to it. -/
inductive Phase
  | ready (index : Nat)
  | waiting (index : Nat)
  deriving DecidableEq

/-- The list of requests, the lists of replies, and where everybody is.  `exited` is the request at
which the coordinator ended, `firstOf` the client whose request with index zero was handled
last. -/
structure State (ι : Type) where
  phase : ι → Phase
  got : ι → List (List Nat)
  dr_requests : List (ι × Nat × Bytes)
  replies : Str → List (List Nat)
  vars : PipeMul.HandlerVars
  cmds : List (Nat × PipeMulCmd)
  exited : Option (ι × Nat)
  firstOf : Option ι

def State.init : State ι where
  phase := fun _ => .ready 0
  got := fun _ => []
  dr_requests := []
  replies := fun _ => []
  vars := ⟨∅, none⟩
  cmds := []
  exited := none
  firstOf := none

/-- `rpush`, if there is a reply. -/
def pushReply (replies : Str → List (List Nat)) : Option (Str × List Nat) → Str → List (List Nat)
  | none => replies
  | some (filename, words) => Function.update replies filename (replies filename ++ [words])

section Step

variable (policy : ECPipePolicy) (conf : RepairConfig) (rsu : RSUtil) (base : MetadataBase)
  (client : ι → Hdfs3Client)

/-- A client sends its next request, or takes the reply to the one that it has sent. -/
inductive ClientStep (s : State ι) : State ι → Prop where
  | send {c : ι} {i : Nat} {m : Bytes} (hphase : s.phase c = .ready i)
      (hm : Hdfs3.sendRequest (client c).localIp (client c).lostFileNames i = some m) :
      ClientStep s { s with
        phase := Function.update s.phase c (.waiting i)
        dr_requests := s.dr_requests ++ [(c, i, m)] }
  | receive {c : ι} {i : Nat} {words : List Nat} {rest : List (List Nat)}
      (hphase : s.phase c = .waiting i)
      (hreply : s.replies ((client c).name i) = words :: rest) :
      ClientStep s { s with
        phase := Function.update s.phase c (.ready (i + 1))
        got := Function.update s.got c (s.got c ++ [words])
        replies := Function.update s.replies ((client c).name i) rest }

/-- The handler takes a request. -/
def handlerStep (s : State ι) : Option (State ι) :=
  match s.exited, s.dr_requests with
  | none, (c, i, m) :: rest =>
      let firstOf := if i = 0 then some c else s.firstOf
      match PipeMul.handle policy conf rsu base s.vars m with
      | none => some { s with dr_requests := rest, exited := some (c, i), firstOf := firstOf }
      | some out => some { s with
          dr_requests := rest
          vars := out.vars
          replies := pushReply s.replies out.reply
          cmds := s.cmds ++ out.cmds
          firstOf := firstOf }
  | _, _ => none

/-- No other client's request with index zero came in between. -/
def Undisturbed (s : State ι) : Prop :=
  ∀ c i m rest, s.dr_requests = (c, i, m) :: rest → 0 < i → s.firstOf = some c

/-- A step of the clients or of the handler. -/
inductive Step (s s' : State ι) : Prop where
  | client (h : ClientStep client s s')
  | handler (h : handlerStep policy conf rsu base s = some s')

/-- A step in which the handler is not disturbed, which matters under the cyclic policy only. -/
inductive QuietStep (s s' : State ι) : Prop where
  | client (h : ClientStep client s s')
  | handler (hfree : policy = .cyclic → Undisturbed s)
      (h : handlerStep policy conf rsu base s = some s')

end Step

/-! ## What the replies are to be -/

section Spec

variable (policy : ECPipePolicy) (conf : RepairConfig) (rsu : RSUtil) (base : MetadataBase)

/-- The plan that is computed for a client: that of its request with index zero. -/
def Planned (c : Hdfs3Client) (lostFiles : List (Str × Nat)) (stripes : Plan) : Prop :=
  ∃ m r, Hdfs3.sendRequest c.localIp c.lostFileNames 0 = some m ∧
    parseFRRequest base .hdfs3 (word m 0) conf.ecK m = some r ∧ r.lostFiles = lostFiles ∧
    PipeMul.planFor conf base (word m 0) r = some stripes

/-- The last helper in the entry of a plan for the `i`-th lost block. -/
def IsLastHelper (c : Hdfs3Client) (i ip : Nat) : Prop :=
  ∃ lostFiles stripes, Planned conf base c lostFiles stripes ∧
    ∃ e ∈ stripes.toList, e.2.1 = c.name i ∧ ∃ b, e.2.2.getLast? = some (ip, b)

/-- The client repairs blocks of a stripe. -/
structure Repairs (s : List Str) (ip : Str → Nat) (c : Hdfs3Client) : Prop where
  held : base.HoldsStripe conf.toConfig s ip
  address : c.localIp < 256 ^ 4
  nodup : c.lostFileNames.Nodup
  mem : ∀ b ∈ c.lostFileNames, nameOf b ∈ s
  nonempty : ∀ b ∈ c.lostFileNames, b ≠ []

/-- Its indices can be told from names, there are enough helpers for it, and no block lies on the
node with the address zero, which stands for an answer that has been given. -/
structure Answerable (s : List Str) (ip : Str → Nat) (c : Hdfs3Client) : Prop where
  index : c.lostFileNames.length ≤ conf.ecK + 1
  enough : EnoughHelpers conf.ecK s (c.lostFileNames.map nameOf) ip c.localIp
  node : ∀ b ∈ s, ip b ≠ 0

variable (client : ι → Hdfs3Client)

/-- The reply to a request with index `i > 0`. -/
def RightReply (s : State ι) (c : ι) (i : Nat) (words : List Nat) : Prop :=
  match policy with
  | .basic => ∃ ip, IsLastHelper conf base (client c) i ip ∧ words = [ip]
  | .cyclic => (s.got c)[0]? = some words

/-- The requests with an index above zero are answered, each with its reply, and none of them ends
the coordinator. -/
structure FollowUpsRight (s : State ι) : Prop where
  answered : ∀ c i m rest, s.dr_requests = (c, i, m) :: rest → 0 < i →
    (policy = .cyclic → s.firstOf = some c) →
      ∃ out words, PipeMul.handle policy conf rsu base s.vars m = some out ∧
        out.reply = some ((client c).name i, words) ∧
        RightReply policy conf base client s c i words
  received : ∀ c i words, 0 < i → (s.got c)[i]? = some words →
    RightReply policy conf base client s c i words
  exits : ∀ c i, s.exited = some (c, i) → i = 0

end Spec

/-! ## One request -/

section Request

variable {policy : ECPipePolicy} {conf : RepairConfig} {base : MetadataBase}
  {c : Hdfs3Client} {s : List Str} {ip : Str → Nat} {i : Nat} {m : Bytes}

theorem name_mem (h : Repairs conf base s ip c) : i < c.lostFileNames.length → c.name i ∈ s := by
  intro hi
  rw [Hdfs3Client.name, List.getD_eq_getElem?_getD, List.getElem?_eq_getElem hi, Option.getD_some]
  exact h.mem _ (List.getElem_mem hi)

theorem name_eq_getElem (hi : i < c.lostFileNames.length) :
    (c.lostFileNames.map nameOf)[i]? = some (c.name i) := by
  rw [Hdfs3Client.name, List.getD_eq_getElem?_getD, List.getElem?_map,
    List.getElem?_eq_getElem hi]
  rfl

theorem name_inj (h : Repairs conf base s ip c) {j : Nat} (hi : i < c.lostFileNames.length)
    (hj : j < c.lostFileNames.length) : c.name i = c.name j → i = j := by
  intro heq
  have hnodup : (c.lostFileNames.map nameOf).Nodup := h.nodup.map nameOf_injective
  refine (List.getElem?_inj (by simpa using hi) hnodup).1 ?_
  rw [name_eq_getElem hi, name_eq_getElem hj, heq]

/-- What the handler reads in a request. -/
theorem reads_request (h : Repairs conf base s ip c) (hle : i ≤ conf.ecK) :
    Hdfs3.sendRequest c.localIp c.lostFileNames i = some m → i < c.lostFileNames.length ∧
      ∃ r, word m 0 = c.localIp ∧
        parseFRRequest base .hdfs3 (word m 0) conf.ecK m = some r ∧ r.index = i ∧
        r.lostFiles = (c.lostFileNames.map nameOf).map (fun b => (b, ip b)) ∧
        IsStatus r.status s (c.lostFileNames.map nameOf) := by
  intro hm
  obtain ⟨rfl, hsize, hlt⟩ := hdfs3_request hm
  have hreads : ReadsBack conf base .hdfs3 s ip (.hdfs3 i) c.localIp c.lostFileNames
      (indexedRequest c.localIp i c.lostFileNames) :=
    reads_indexed h.held h.address h.nodup h.mem h.nonempty hsize rfl hlt hle
  obtain ⟨hword, r, hparse, hmeant⟩ := hreads
  refine ⟨hlt, r, hword, hparse, hmeant.index, ?_, hmeant.status⟩
  rw [hmeant.lostFiles, List.map_map]
  rfl

/-- A plan in which each lost block has the same helpers, none of them on the node zero. -/
structure SharedPlan (conf : RepairConfig) (lost : List Str) (ip : Str → Nat)
    (vec : List (Nat × Str)) (stripes : Plan) : Prop where
  perm : stripes.toList.Perm (lost.map fun b => (ip b, (b, vec)))
  shares : SharesHelpers stripes conf.ecK vec
  node : ∀ p ∈ vec, p.1 ≠ 0

/-- The plan for an answerable client. -/
theorem planFor_shared (hk : 1 ≤ conf.ecK) (h : Repairs conf base s ip c)
    (hcan : Answerable conf s ip c) {r : FRRequest} (hpos : 0 < c.lostFileNames.length)
    (hfiles : r.lostFiles = (c.lostFileNames.map nameOf).map fun b => (b, ip b))
    (hstatus : IsStatus r.status s (c.lostFileNames.map nameOf)) :
    ∃ vec stripes, PipeMul.planFor conf base c.localIp r = some stripes ∧
      SharedPlan conf (c.lostFileNames.map nameOf) ip vec stripes := by
  have hfirst : (r.lostFiles.getD 0 ([], 0)).1 = c.name 0 := by
    rw [hfiles, List.getD_eq_getElem?_getD, List.getElem?_map, name_eq_getElem hpos]
    rfl
  have hlost : c.name 0 ∈ c.lostFileNames.map nameOf :=
    List.mem_of_getElem? (name_eq_getElem hpos)
  have hstatus' := hstatus.insert_zero hlost
  obtain ⟨vec, hplan⟩ := hdfs3_getStripeBlksMul_returns c.localIp h.held hstatus' hlost hcan.enough
  have hperm : ∀ vec, (planLost base (r.status.insert (c.name 0) 0) vec
      (fun _ => true) ∅).toList.Perm
        ((c.lostFileNames.map nameOf).map fun b => (ip b, (b, vec))) :=
    fun vec => planLost_toList_perm h.held hstatus'
  have hne : (planLost base (r.status.insert (c.name 0) 0) vec (fun _ => true) ∅).isEmpty =
      false := by
    have hlen := (hperm vec).length_eq
    rw [TreeMap.length_toList, List.length_map, List.length_map] at hlen
    rw [TreeMap.isEmpty_eq_size_eq_zero, hlen]
    exact beq_false_of_ne (Nat.ne_of_gt hpos)
  obtain ⟨setVal, hset, hsize, heq⟩ :=
    hdfs3_getStripeBlksMul_cases h.held hstatus' hlost hne hplan
  obtain ⟨hlen, hnodes, -⟩ := hset.vec h.held hsize
  refine ⟨setVal.toList, planLost base (r.status.insert (c.name 0) 0) setVal.toList
    (fun _ => true) ∅, ?_, hperm setVal.toList, ?_, ?_⟩
  · rw [PipeMul.planFor, hfirst, hplan, heq]
  · refine ⟨fun e he => ?_, hnodes, fun hnil => ?_, hlen.ge⟩
    · obtain ⟨b, -, rfl⟩ := List.mem_map.1 ((hperm setVal.toList).mem_iff.1 he)
      rfl
    · rw [hnil, List.length_nil] at hlen
      omega
  · intro p hp
    obtain ⟨hmem, -, hip⟩ := hset.mem p (TreeSet.mem_toList.1 hp)
    rw [hip]
    exact hcan.node p.2 hmem

/-- The last helper of a shared plan. -/
def lastOf (vec : List (Nat × Str)) : Nat :=
  (vec.getLastD (0, [])).1

theorem SharedPlan.find? {lost : List Str} {vec : List (Nat × Str)} {stripes : Plan} {b : Str}
    (h : SharedPlan conf lost ip vec stripes) : b ∈ lost →
      ∃ e ∈ stripes.toList, (stripes.toList.find? fun it2 => it2.2.1 = b) = some e ∧
        e.2 = (b, vec) := by
  intro hb
  have hmem : (ip b, (b, vec)) ∈ stripes.toList :=
    h.perm.mem_iff.2 (List.mem_map_of_mem hb)
  cases hfind : stripes.toList.find? fun it2 => it2.2.1 = b with
  | none =>
      exact absurd (List.find?_eq_none.1 hfind _ hmem) (by simp)
  | some e =>
      have he := List.mem_of_find?_eq_some hfind
      have hname := List.find?_some hfind
      obtain ⟨b', -, rfl⟩ := List.mem_map.1 (h.perm.mem_iff.1 he)
      exact ⟨_, he, rfl, by simp at hname; rw [hname]⟩

/-- The store afterwards: the last helper for each lost block, and nothing else is new. -/
theorem SharedPlan.getElem?_storeHelpers {lost : List Str} {vec : List (Nat × Str)}
    {stripes : Plan} (h : SharedPlan conf lost ip vec stripes) (store : TreeMap Str Nat) (b : Str) :
    (PipeMul.storeHelpers stripes (lost.map fun b => (b, ip b)) store)[b]? =
      if b ∈ lost then some (lastOf vec) else store[b]? := by
  have hfold : PipeMul.storeHelpers stripes (lost.map fun b => (b, ip b)) store =
      (lost.map fun b => (b, ip b)).foldl (fun store it => store.insert it.1 (lastOf vec))
        store := by
    refine List.foldl_ext _ _ _ fun store it hit => ?_
    obtain ⟨b', hb', rfl⟩ := List.mem_map.1 hit
    obtain ⟨e, -, hfind, he⟩ := h.find? hb'
    simp only [hfind, he]
    rfl
  rw [hfold, getElem?_foldl_insert, List.map_map]
  simp [Function.comp_def]

/-- The reply to the request with index zero under the cyclic policy. -/
def CyclReply (conf : RepairConfig) (base : MetadataBase) (c : Hdfs3Client) (words : List Nat) :
    Prop :=
  ∃ lostFiles stripes, Planned conf base c lostFiles stripes ∧
    PipeMul.setupCyclReply lostFiles stripes = some words

theorem CyclReply.unique {words words' : List Nat} (h : CyclReply conf base c words) :
    CyclReply conf base c words' → words = words' := by
  rintro ⟨lostFiles', stripes', ⟨m', r', hm', hparse', rfl, hplan'⟩, hwords'⟩
  obtain ⟨lostFiles, stripes, ⟨m, r, hm, hparse, rfl, hplan⟩, hwords⟩ := h
  obtain rfl := Option.some.inj (hm.symm.trans hm')
  obtain rfl := Option.some.inj (hparse.symm.trans hparse')
  obtain rfl := Option.some.inj (hplan.symm.trans hplan')
  exact Option.some.inj (hwords.symm.trans hwords')

/-- The store has the last helper for the `j`-th lost block of the client. -/
def Stored (conf : RepairConfig) (base : MetadataBase) (store : TreeMap Str Nat)
    (c : Hdfs3Client) (j : Nat) : Prop :=
  ∃ ip, IsLastHelper conf base c j ip ∧ ip ≠ 0 ∧ store.getD (c.name j) 0 = ip

theorem SharedPlan.lastOf_spec {lost : List Str} {vec : List (Nat × Str)} {stripes : Plan}
    (h : SharedPlan conf lost ip vec stripes) :
    lastOf vec ≠ 0 ∧ ∃ b, vec.getLast? = some (lastOf vec, b) := by
  have hlast : vec.getLast? = some (vec.getLast h.shares.nonempty) :=
    List.getLast?_eq_getLast_of_ne_nil h.shares.nonempty
  have hof : lastOf vec = (vec.getLast h.shares.nonempty).1 := by
    rw [lastOf, List.getLastD_eq_getLast?, hlast, Option.getD_some]
  constructor
  · rw [hof]
    exact h.node _ (List.getLast_mem _)
  · exact ⟨(vec.getLast h.shares.nonempty).2, by rw [hof, hlast]⟩

/-- A request with index zero. -/
theorem handle_first (policy : ECPipePolicy) (rsu : RSUtil) (hk : 1 ≤ conf.ecK)
    (h : Repairs conf base s ip c) (hcan : Answerable conf s ip c) (vars : PipeMul.HandlerVars) :
    Hdfs3.sendRequest c.localIp c.lostFileNames 0 = some m →
      ∃ out words, PipeMul.handle policy conf rsu base vars m = some out ∧
        out.reply = some (c.name 0, words) ∧
        (∀ b, b ∉ c.lostFileNames.map nameOf →
          out.vars.lastHelperStore[b]? = vars.lastHelperStore[b]?) ∧
        (∀ j < c.lostFileNames.length, Stored conf base out.vars.lastHelperStore c j) ∧
        (policy = .cyclic →
          CyclReply conf base c words ∧ out.vars.drCmdHistory = some words) := by
  intro hm
  obtain ⟨hpos, r, hword, hparse, hindex, hfiles, hstatus⟩ := reads_request h (Nat.zero_le _) hm
  obtain ⟨vec, stripes, hplan, hshared⟩ := planFor_shared hk h hcan hpos hfiles hstatus
  have hplanned : Planned conf base c r.lostFiles stripes := by
    refine ⟨m, r, hm, hparse, rfl, ?_⟩
    rw [hword, hplan]
  obtain ⟨hnode, b, hlast⟩ := hshared.lastOf_spec
  have hstore := hshared.getElem?_storeHelpers vars.lastHelperStore
  rw [← hfiles] at hstore
  let store := PipeMul.storeHelpers stripes r.lostFiles vars.lastHelperStore
  have hothers : ∀ b, b ∉ c.lostFileNames.map nameOf →
      store[b]? = vars.lastHelperStore[b]? := by
    intro b hb
    rw [hstore, if_neg hb]
  have hstored : ∀ j < c.lostFileNames.length, Stored conf base store c j := by
    intro j hj
    have hlost : c.name j ∈ c.lostFileNames.map nameOf :=
      List.mem_of_getElem? (name_eq_getElem hj)
    refine ⟨lastOf vec, ?_, hnode, ?_⟩
    · exact ⟨r.lostFiles, stripes, hplanned, _, hshared.perm.mem_iff.2
        (List.mem_map_of_mem hlost), rfl, b, hlast⟩
    · rw [TreeMap.getD_eq_getD_getElem?, hstore, if_pos hlost]
      rfl
  -- the handler gets as far as the reply
  have hnames : (stripes.toList.any fun it => it.2.1.isEmpty) = false := by
    refine List.any_eq_false.2 fun e he => ?_
    obtain ⟨b, hb, rfl⟩ := List.mem_map.1 (hshared.perm.mem_iff.1 he)
    obtain ⟨b', hb', rfl⟩ := List.mem_map.1 hb
    simpa using nameOf_ne_nil (h.nonempty b' hb')
  have hflag := (outputStripeMul_shared hshared.shares).1
  have hfilename : (r.lostFiles.getD 0 ([], 0)).1 = c.name 0 := by
    rw [hfiles, List.getD_eq_getElem?_getD, List.getElem?_map, name_eq_getElem hpos]
    rfl
  have hhandle : PipeMul.handle policy conf rsu base vars m =
      PipeMul.handleFirst policy conf rsu base vars c.localIp r := by
    rw [hword] at hparse
    simp only [PipeMul.handle, hword, hparse, hindex, ne_eq, not_true_eq_false, if_false]
  cases policy with
  | basic =>
      refine ⟨⟨{ vars with lastHelperStore := store },
        some (c.name 0, PipeMul.basicReply store r.lostFiles), PipeMul.requestHandler
          conf.toConfig rsu base (r.status.insert (c.name 0) 0) c.localIp stripes⟩, _, ?_, rfl,
        hothers, hstored, fun heq => by cases heq⟩
      rw [hhandle]
      simp only [PipeMul.handleFirst, hplan, hnames, hflag, hfilename, store]
      rfl
  | cyclic =>
      have hfull : ¬ (r.lostFiles.isEmpty = true ∨ stripes.isEmpty = true) := by
        have hlen := hshared.perm.length_eq
        rw [TreeMap.length_toList, List.length_map, List.length_map] at hlen
        rw [hfiles, TreeMap.isEmpty_eq_size_eq_zero, hlen]
        simpa using List.ne_nil_of_length_pos hpos
      obtain ⟨words, hwords⟩ : ∃ words,
          PipeMul.setupCyclReply r.lostFiles stripes = some words := by
        rw [PipeMul.setupCyclReply, if_neg hfull]
        exact ⟨_, rfl⟩
      refine ⟨⟨⟨store, some words⟩, some (c.name 0, words), PipeMul.requestHandler
          conf.toConfig rsu base (r.status.insert (c.name 0) 0) c.localIp stripes⟩, words, ?_, rfl,
        hothers, hstored, fun _ => ⟨⟨r.lostFiles, stripes, hplanned, hwords⟩, rfl⟩⟩
      rw [hhandle]
      simp only [PipeMul.handleFirst, hplan, hnames, hflag, hfilename, hwords, store]
      rfl

/-- A request with an index above zero. -/
theorem handle_followUp (policy : ECPipePolicy) (rsu : RSUtil) (h : Repairs conf base s ip c)
    (hcan : Answerable conf s ip c) (vars : PipeMul.HandlerVars) (hi : 0 < i) :
    Hdfs3.sendRequest c.localIp c.lostFileNames i = some m →
      PipeMul.handle policy conf rsu base vars m =
        PipeMul.handleFollowUp policy vars (c.name i) := by
  intro hm
  have hlt := (hdfs3_request hm).2.2
  have hindex := hcan.index
  obtain ⟨-, r, -, hparse, hr, hfiles, -⟩ := reads_request h (by omega) hm
  have hfilename : (r.lostFiles.getD i ([], 0)).1 = c.name i := by
    rw [hfiles, List.getD_eq_getElem?_getD, List.getElem?_map, name_eq_getElem hlt]
    rfl
  simp only [PipeMul.handle, hparse, hr, if_pos hi.ne', hfilename]

end Request

/-! ## All clients -/

section System

variable (policy : ECPipePolicy) (conf : RepairConfig) (base : MetadataBase)
  (client : ι → Hdfs3Client)

/-- The handler can still answer the requests of a client from index `i` on. -/
def Remembers (s : State ι) (c : ι) (i : Nat) : Prop :=
  policy = .basic → ∀ j, i ≤ j → j < (client c).lostFileNames.length →
    Stored conf base s.vars.lastHelperStore (client c) j

/-- A reply is what it is to be, whoever has it. -/
def Fits (c : ι) (i : Nat) (words : List Nat) : Prop :=
  match policy with
  | .basic => 0 < i → ∃ ip, IsLastHelper conf base (client c) i ip ∧ words = [ip]
  | .cyclic => CyclReply conf base (client c) words

/-- A client has its request in the list of requests, or a reply in the list of its block, or
neither; the handler remembers what it will ask for. -/
structure Inv (s : State ι) : Prop where
  running : s.exited = none
  nodup : (s.dr_requests.map Prod.fst).Nodup
  queued : ∀ c i m, (c, i, m) ∈ s.dr_requests → s.phase c = .waiting i ∧
    Hdfs3.sendRequest (client c).localIp (client c).lostFileNames i = some m ∧
    (0 < i → Remembers policy conf base client s c i)
  waits : ∀ c i, s.phase c = .waiting i → i < (client c).lostFileNames.length
  ready : ∀ c i, s.phase c = .ready i → 0 < i → Remembers policy conf base client s c i
  short : ∀ name, (s.replies name).length ≤ 1
  replied : ∀ c i words, i < (client c).lostFileNames.length →
    words ∈ s.replies ((client c).name i) →
      s.phase c = .waiting i ∧ c ∉ s.dr_requests.map Prod.fst ∧
      Remembers policy conf base client s c (i + 1) ∧ Fits policy conf base client c i words
  filled : policy = .cyclic → ∀ c, s.firstOf = some c →
    ∃ words, s.vars.drCmdHistory = some words ∧ CyclReply conf base (client c) words
  count : ∀ c i, s.phase c = .ready i ∨ s.phase c = .waiting i → (s.got c).length = i
  received : ∀ c i words, (s.got c)[i]? = some words → Fits policy conf base client c i words

end System

section System

variable {policy : ECPipePolicy} {conf : RepairConfig} {rsu : RSUtil} {base : MetadataBase}
  {client : ι → Hdfs3Client} {stripe : ι → List Str} {ip : Str → Nat} {s s' : State ι}

omit [DecidableEq ι] in
theorem Inv.init : Inv policy conf base client State.init where
  running := rfl
  nodup := List.nodup_nil
  queued := by simp [State.init]
  waits := by simp [State.init]
  ready := by simp [State.init]
  short := by simp [State.init]
  replied := by simp [State.init]
  filled := by simp [State.init]
  count := by simp [State.init]
  received := by simp [State.init]

omit [DecidableEq ι] in
/-- Names tell the clients and the indices apart. -/
theorem client_name_inj (hrep : ∀ c, Repairs conf base (stripe c) ip (client c))
    (hdisj : ∀ c c', c ≠ c' → (stripe c).Disjoint (stripe c')) {c c' : ι} {i i' : Nat}
    (hi : i < (client c).lostFileNames.length) (hi' : i' < (client c').lostFileNames.length) :
    (client c).name i = (client c').name i' → c = c' ∧ i = i' := by
  intro heq
  by_cases hc : c = c'
  · subst hc
    exact ⟨rfl, name_inj (hrep c) hi hi' heq⟩
  · have hin : (client c).name i ∈ stripe c' := heq ▸ name_mem (hrep c') hi'
    exact absurd hin (hdisj c c' hc (name_mem (hrep c) hi))

/-- A client that sends its next request. -/
theorem Inv.send (h : Inv policy conf base client s) {c : ι} {i : Nat} {m : Bytes}
    (hphase : s.phase c = .ready i)
    (hm : Hdfs3.sendRequest (client c).localIp (client c).lostFileNames i = some m) :
    Inv policy conf base client { s with
      phase := Function.update s.phase c (.waiting i)
      dr_requests := s.dr_requests ++ [(c, i, m)] } := by
  -- a client whose request is queued waits, and this one does not
  have hnot : c ∉ s.dr_requests.map Prod.fst := by
    intro hin
    obtain ⟨⟨c', i', m'⟩, he, rfl⟩ := List.mem_map.1 hin
    have hwaits := (h.queued _ _ _ he).1
    rw [hphase] at hwaits
    cases hwaits
  have hother : ∀ {c' : ι} {p : Phase}, c' ≠ c →
      Function.update s.phase c p c' = s.phase c' :=
    fun hne => Function.update_of_ne hne _ _
  exact
    { running := h.running
      nodup := by
        simp only [List.map_append, List.map_cons, List.map_nil]
        exact List.Nodup.append h.nodup (List.nodup_singleton c) (by simpa using hnot)
      queued := by
        intro c' i' m' he
        rcases List.mem_append.1 he with hold | hnew
        · have hne : c' ≠ c := by
            rintro rfl
            exact hnot (List.mem_map.2 ⟨(c', i', m'), hold, rfl⟩)
          simp only [hother hne]
          exact h.queued c' i' m' hold
        · cases List.mem_singleton.1 hnew
          refine ⟨Function.update_self .., hm, fun hpos => h.ready c i hphase hpos⟩
      waits := by
        intro c' i' hwaits
        by_cases hc : c' = c
        · subst hc
          simp only [Function.update_self, Phase.waiting.injEq] at hwaits
          subst hwaits
          exact (hdfs3_request hm).2.2
        · simp only [hother hc] at hwaits
          exact h.waits c' i' hwaits
      ready := by
        intro c' i' hready hpos
        by_cases hc : c' = c
        · subst hc
          simp only [Function.update_self] at hready
          cases hready
        · simp only [hother hc] at hready
          exact h.ready c' i' hready hpos
      short := h.short
      replied := by
        intro c' i' words hi' hmem
        obtain ⟨hwaits, hfree, hrest⟩ := h.replied c' i' words hi' hmem
        have hne : c' ≠ c := by
          rintro rfl
          rw [hphase] at hwaits
          cases hwaits
        refine ⟨by simpa only [hother hne] using hwaits, ?_, hrest⟩
        simpa [hne] using hfree
      filled := h.filled
      count := by
        intro c' i' hat
        by_cases hc : c' = c
        · subst hc
          simp only [Function.update_self] at hat
          rcases hat with hat | hat
          · cases hat
          · cases hat
            exact h.count c' i (.inl hphase)
        · simp only [hother hc] at hat
          exact h.count c' i' hat
      received := h.received }

/-- A client that gets the reply to its request: it was the only one under the name. -/
theorem Inv.receive (h : Inv policy conf base client s) {c : ι} {i : Nat} {words : List Nat}
    {rest : List (List Nat)} (hphase : s.phase c = .waiting i)
    (hreply : s.replies ((client c).name i) = words :: rest) :
    Inv policy conf base client { s with
      phase := Function.update s.phase c (.ready (i + 1))
      got := Function.update s.got c (s.got c ++ [words])
      replies := Function.update s.replies ((client c).name i) rest } := by
  have hi := h.waits c i hphase
  have hmem : words ∈ s.replies ((client c).name i) := by
    rw [hreply]
    exact List.mem_cons_self
  obtain ⟨-, hfree, hremembers, hfits⟩ := h.replied c i words hi hmem
  -- there is never more than one reply under a name
  obtain rfl : rest = [] := by
    have hshort := h.short ((client c).name i)
    rw [hreply, List.length_cons] at hshort
    exact List.eq_nil_of_length_eq_zero (by omega)
  have hlen := h.count c i (.inr hphase)
  have hother : ∀ {c' : ι} {p : Phase}, c' ≠ c →
      Function.update s.phase c p c' = s.phase c' :=
    fun hne => Function.update_of_ne hne _ _
  exact
    { running := h.running
      nodup := h.nodup
      queued := by
        intro c' i' m' he
        have hne : c' ≠ c := by
          rintro rfl
          exact hfree (List.mem_map_of_mem he)
        simp only [hother hne]
        exact h.queued c' i' m' he
      waits := by
        intro c' i' hwaits
        by_cases hc : c' = c
        · subst hc
          simp only [Function.update_self] at hwaits
          cases hwaits
        · simp only [hother hc] at hwaits
          exact h.waits c' i' hwaits
      ready := by
        intro c' i' hready hpos
        by_cases hc : c' = c
        · subst hc
          simp only [Function.update_self, Phase.ready.injEq] at hready
          subst hready
          exact hremembers
        · simp only [hother hc] at hready
          exact h.ready c' i' hready hpos
      short := by
        intro name
        by_cases hname : name = (client c).name i
        · subst hname
          simp only [Function.update_self, List.length_nil]
          exact Nat.zero_le 1
        · simp only [Function.update_of_ne hname]
          exact h.short name
      replied := by
        intro c' i' words' hi' hmem'
        by_cases hname : (client c').name i' = (client c).name i
        · simp only [hname, Function.update_self] at hmem'
          cases hmem'
        · simp only [Function.update_of_ne hname] at hmem'
          obtain ⟨hwaits, hrest⟩ := h.replied c' i' words' hi' hmem'
          have hne : c' ≠ c := by
            rintro rfl
            rw [hphase] at hwaits
            cases hwaits
            exact hname rfl
          exact ⟨by simpa only [hother hne] using hwaits, hrest⟩
      filled := h.filled
      count := by
        intro c' i' hat
        by_cases hc : c' = c
        · subst hc
          simp only [Function.update_self] at hat ⊢
          rcases hat with hat | hat
          · cases hat
            rw [List.length_append, hlen]
            rfl
          · cases hat
        · simp only [hother hc] at hat
          simp only [Function.update_of_ne hc]
          exact h.count c' i' hat
      received := by
        intro c' i' words' hget
        by_cases hc : c' = c
        · subst hc
          simp only [Function.update_self] at hget
          rcases Nat.lt_or_ge i' (s.got c').length with hlt | hge
          · rw [List.getElem?_append_left hlt] at hget
            exact h.received c' i' words' hget
          · rw [List.getElem?_append_right hge, List.getElem?_singleton] at hget
            split at hget
            · rename_i hzero
              cases hget
              obtain rfl : i' = i := by omega
              exact hfits
            · cases hget
        · simp only [Function.update_of_ne hc] at hget
          exact h.received c' i' words' hget }

theorem Inv.clientStep (h : Inv policy conf base client s) :
    ClientStep client s s' → Inv policy conf base client s' := by
  intro hstep
  cases hstep with
  | send hphase hm => exact h.send hphase hm
  | receive hphase hreply => exact h.receive hphase hreply

omit [DecidableEq ι] in
/-- What the handler does with a request that is in the list. -/
theorem Inv.answers (rsu : RSUtil) (hk : 1 ≤ conf.ecK)
    (hrep : ∀ c, Repairs conf base (stripe c) ip (client c))
    (hcan : ∀ c, Answerable conf (stripe c) ip (client c))
    (h : Inv policy conf base client s) {c : ι} {i : Nat} {m : Bytes}
    (he : (c, i, m) ∈ s.dr_requests) (hfree : policy = .cyclic → 0 < i → s.firstOf = some c) :
    ∃ out words, PipeMul.handle policy conf rsu base s.vars m = some out ∧
      out.reply = some ((client c).name i, words) ∧ Fits policy conf base client c i words ∧
      (∀ b, b ∉ (client c).lostFileNames.map nameOf →
        out.vars.lastHelperStore[b]? = s.vars.lastHelperStore[b]?) ∧
      (policy = .basic → ∀ j, i + 1 ≤ j → j < (client c).lostFileNames.length →
        Stored conf base out.vars.lastHelperStore (client c) j) ∧
      (policy = .cyclic → if i = 0 then out.vars.drCmdHistory = some words
        else out.vars.drCmdHistory = s.vars.drCmdHistory) := by
  obtain ⟨-, hm, hremembers⟩ := h.queued c i m he
  rcases Nat.eq_zero_or_pos i with rfl | hpos
  · obtain ⟨out, words, hout, hreply, hothers, hstored, hcycl⟩ :=
      handle_first policy rsu hk (hrep c) (hcan c) s.vars hm
    refine ⟨out, words, hout, hreply, ?_, hothers, fun _ j _ hj => hstored j hj, ?_⟩
    · cases policy with
      | basic => exact fun hpos => absurd hpos (Nat.lt_irrefl 0)
      | cyclic => exact (hcycl rfl).1
    · intro hpolicy
      rw [if_pos rfl]
      exact (hcycl hpolicy).2
  · have hlt := (hdfs3_request hm).2.2
    have hhandle := handle_followUp policy rsu (hrep c) (hcan c) s.vars hpos hm
    cases policy with
    | basic =>
        -- the store still has the last helper, and forgets it with this reply
        obtain ⟨ip', hlast, hne, hget⟩ := hremembers hpos rfl i (Nat.le_refl i) hlt
        let store := s.vars.lastHelperStore.insert ((client c).name i) 0
        refine ⟨⟨{ s.vars with lastHelperStore := store },
          some ((client c).name i, [ip']), []⟩, [ip'], ?_, rfl, fun _ => ⟨ip', hlast, rfl⟩, ?_, ?_,
          (fun heq => by cases heq)⟩
        · rw [hhandle]
          simp only [PipeMul.handleFollowUp, hget, if_neg hne, store]
        · intro b hb
          have hdiff : ¬ compare ((client c).name i) b = .eq := by
            intro heq
            obtain rfl := LawfulEqCmp.compare_eq_iff_eq.1 heq
            exact hb (List.mem_of_getElem? (name_eq_getElem hlt))
          simp only [store]
          rw [TreeMap.getElem?_insert, if_neg hdiff]
        · intro _ j hij hj
          obtain ⟨ip'', hlast', hne', hget'⟩ := hremembers hpos rfl j (by omega) hj
          refine ⟨ip'', hlast', hne', ?_⟩
          have hdiff : ¬ compare ((client c).name i) ((client c).name j) = .eq := by
            intro heq
            have := name_inj (hrep c) hlt hj (LawfulEqCmp.compare_eq_iff_eq.1 heq)
            omega
          simp only [store]
          rw [TreeMap.getD_insert, if_neg hdiff]
          exact hget'
    | cyclic =>
        -- the first request of the same client was the last to fill the history
        obtain ⟨words, hhistory, hwords⟩ := h.filled rfl c (hfree rfl hpos)
        refine ⟨⟨s.vars, some ((client c).name i, words), []⟩, words, ?_, rfl, hwords,
          fun _ _ => rfl, (fun heq => by cases heq), fun _ => ?_⟩
        · rw [hhandle]
          simp only [PipeMul.handleFollowUp, hhistory, Option.map_some]
        · rw [if_neg hpos.ne']

omit [DecidableEq ι] in
/-- What the handler remembers for other clients does not change. -/
theorem Remembers.of_store (hrep : ∀ c, Repairs conf base (stripe c) ip (client c))
    (hdisj : ∀ c c', c ≠ c' → (stripe c).Disjoint (stripe c')) {c c' : ι} {i : Nat}
    {vars : PipeMul.HandlerVars} (hne : c' ≠ c)
    (hothers : ∀ b, b ∉ (client c).lostFileNames.map nameOf →
      vars.lastHelperStore[b]? = s.vars.lastHelperStore[b]?)
    (h : Remembers policy conf base client s c' i) (hvars : s'.vars = vars) :
    Remembers policy conf base client s' c' i := by
  intro hpolicy j hij hj
  obtain ⟨ip', hlast, hnode, hget⟩ := h hpolicy j hij hj
  refine ⟨ip', hlast, hnode, ?_⟩
  have hfree : (client c').name j ∉ (client c).lostFileNames.map nameOf := by
    intro hin
    obtain ⟨b, hb, heq⟩ := List.mem_map.1 hin
    exact hdisj c' c hne (name_mem (hrep c') hj) (heq ▸ (hrep c).mem b hb)
  rw [hvars, TreeMap.getD_eq_getD_getElem?, hothers _ hfree, ← TreeMap.getD_eq_getD_getElem?]
  exact hget

omit [DecidableEq ι] in
/-- The handler takes a request of a client that it has not been disturbed for. -/
theorem Inv.handlerStep (rsu : RSUtil) (hk : 1 ≤ conf.ecK)
    (hrep : ∀ c, Repairs conf base (stripe c) ip (client c))
    (hdisj : ∀ c c', c ≠ c' → (stripe c).Disjoint (stripe c'))
    (hcan : ∀ c, Answerable conf (stripe c) ip (client c))
    (h : Inv policy conf base client s) (hfree : policy = .cyclic → Undisturbed s) :
    Hdfs3Requests.handlerStep policy conf rsu base s = some s' →
      Inv policy conf base client s' := by
  intro hstep
  rcases hqueue : s.dr_requests with _ | ⟨⟨c, i, m⟩, rest⟩
  · simp [Hdfs3Requests.handlerStep, h.running, hqueue] at hstep
  · have he : (c, i, m) ∈ s.dr_requests := by
      rw [hqueue]
      exact List.mem_cons_self
    obtain ⟨out, words, hout, hreply, hfits, hothers, hstored, hhistory⟩ :=
      h.answers rsu hk hrep hcan he fun hpolicy hpos =>
        hfree hpolicy c i m rest hqueue hpos
    obtain ⟨hwaits, hm, -⟩ := h.queued c i m he
    have hi := h.waits c i hwaits
    have hnodup := h.nodup
    rw [hqueue, List.map_cons, List.nodup_cons] at hnodup
    simp only [Hdfs3Requests.handlerStep, h.running, hqueue, hout, hreply] at hstep
    cases hstep
    -- nobody has answered this client yet
    have hnone : s.replies ((client c).name i) = [] := by
      refine List.eq_nil_iff_forall_not_mem.2 fun words' hmem => ?_
      refine (h.replied c i words' hi hmem).2.1 ?_
      rw [hqueue]
      exact List.mem_cons_self
    have hin : ∀ {c' : ι}, c' ∈ rest.map Prod.fst → c' ≠ c := by
      rintro c' hc rfl
      exact hnodup.1 hc
    exact
      { running := rfl
        nodup := hnodup.2
        queued := by
          intro c' i' m' he'
          have hne : c' ≠ c := hin (List.mem_map.2 ⟨_, he', rfl⟩)
          obtain ⟨hwaits', hm', hremembers⟩ :=
            h.queued c' i' m' (by rw [hqueue]; exact List.mem_cons_of_mem _ he')
          exact ⟨hwaits', hm', fun hpos => (hremembers hpos).of_store hrep hdisj hne hothers rfl⟩
        waits := h.waits
        ready := by
          intro c' i' hready hpos
          have hne : c' ≠ c := by
            rintro rfl
            rw [hwaits] at hready
            cases hready
          exact (h.ready c' i' hready hpos).of_store hrep hdisj hne hothers rfl
        short := by
          intro name
          simp only [pushReply]
          by_cases hname : name = (client c).name i
          · subst hname
            rw [Function.update_self, hnone]
            exact Nat.le_refl 1
          · rw [Function.update_of_ne hname]
            exact h.short name
        replied := by
          intro c' i' words' hi' hmem
          simp only [pushReply] at hmem
          by_cases hname : (client c').name i' = (client c).name i
          · obtain ⟨rfl, rfl⟩ := client_name_inj hrep hdisj hi' hi hname
            rw [Function.update_self, hnone, List.nil_append, List.mem_singleton] at hmem
            subst hmem
            exact ⟨hwaits, hnodup.1, hstored, hfits⟩
          · rw [Function.update_of_ne hname] at hmem
            obtain ⟨hwaits', hout', hremembers, hfits'⟩ := h.replied c' i' words' hi' hmem
            rw [hqueue, List.map_cons, List.mem_cons, not_or] at hout'
            exact ⟨hwaits', hout'.2, hremembers.of_store hrep hdisj hout'.1 hothers rfl, hfits'⟩
        filled := by
          intro hpolicy c' hfirst
          have hbuffer := hhistory hpolicy
          by_cases hzero : i = 0
          · simp only [if_pos hzero] at hfirst hbuffer
            cases hfirst
            subst hpolicy
            exact ⟨words, hbuffer, hfits⟩
          · simp only [if_neg hzero] at hfirst hbuffer
            rw [hbuffer]
            exact h.filled hpolicy c' hfirst
        count := h.count
        received := h.received }

/-- Every state of a run in which the handler is not disturbed. -/
theorem inv_of_runs (hk : 1 ≤ conf.ecK)
    (hrep : ∀ c, Repairs conf base (stripe c) ip (client c))
    (hdisj : ∀ c c', c ≠ c' → (stripe c).Disjoint (stripe c'))
    (hcan : ∀ c, Answerable conf (stripe c) ip (client c)) :
    Relation.ReflTransGen (QuietStep policy conf rsu base client) State.init s →
      Inv policy conf base client s := by
  intro hruns
  induction hruns with
  | refl =>
      exact .init
  | tail _ hstep ih =>
      cases hstep with
      | client hstep => exact ih.clientStep hstep
      | handler hfree hstep => exact ih.handlerStep rsu hk hrep hdisj hcan hfree hstep

omit [DecidableEq ι] in
theorem Inv.right (h : Inv policy conf base client s) {c : ι} {i : Nat} {words : List Nat}
    (hpos : 0 < i) (hlen : policy = .cyclic → 0 < (s.got c).length)
    (hfits : Fits policy conf base client c i words) :
    RightReply policy conf base client s c i words := by
  cases policy with
  | basic => exact hfits hpos
  | cyclic =>
      have hpos₀ := hlen rfl
      have hfirst : (s.got c)[0]? = some (s.got c)[0] := List.getElem?_eq_getElem hpos₀
      have heq := (h.received c 0 _ hfirst).unique hfits
      exact hfirst.trans (congrArg some heq)

/-- The requests with an index above zero are answered as they are to be, as long as, under the
cyclic policy, no other client's first request comes in between. -/
theorem followUps_right (policy : ECPipePolicy) (conf : RepairConfig) (rsu : RSUtil)
    (base : MetadataBase) (client : ι → Hdfs3Client) (stripe : ι → List Str) (ip : Str → Nat)
    (hk : 1 ≤ conf.ecK) (hrep : ∀ c, Repairs conf base (stripe c) ip (client c))
    (hdisj : ∀ c c', c ≠ c' → (stripe c).Disjoint (stripe c'))
    (hcan : ∀ c, Answerable conf (stripe c) ip (client c)) :
    ∀ s, Relation.ReflTransGen (QuietStep policy conf rsu base client) State.init s →
      FollowUpsRight policy conf rsu base client s := by
  intro s hruns
  have h := inv_of_runs hk hrep hdisj hcan hruns
  constructor
  · intro c i m rest hqueue hpos hfirst
    have he : (c, i, m) ∈ s.dr_requests := by
      rw [hqueue]
      exact List.mem_cons_self
    obtain ⟨out, words, hout, hreply, hfits, -⟩ :=
      h.answers rsu hk hrep hcan he fun hpolicy _ => hfirst hpolicy
    refine ⟨out, words, hout, hreply, h.right hpos (fun _ => ?_) hfits⟩
    rw [h.count c i (.inr (h.queued c i m he).1)]
    exact hpos
  · intro c i words hpos hget
    refine h.right hpos (fun _ => ?_) (h.received c i words hget)
    exact hpos.trans (List.getElem?_eq_some_iff.1 hget).1
  · intro c i hexit
    rw [h.running] at hexit
    cases hexit

end System

/-! Two clients with two blocks each under the cyclic policy. -/

/-- The cyclic reply ends with the node of the last lost block. -/
theorem CyclReply.getLast? {conf : RepairConfig} {base : MetadataBase} {c : Hdfs3Client}
    {s : List Str} {ip : Str → Nat} {words : List Nat} (h : Repairs conf base s ip c) :
    CyclReply conf base c words →
      words.getLast? = some (ip (c.name (c.lostFileNames.length - 1))) := by
  rintro ⟨lostFiles, stripes, ⟨m, r, hm, hparse, rfl, -⟩, hwords⟩
  obtain ⟨hpos, r', -, hparse', -, hfiles, -⟩ := reads_request h (Nat.zero_le _) hm
  obtain rfl := Option.some.inj (hparse.symm.trans hparse')
  rw [PipeMul.setupCyclReply] at hwords
  split at hwords
  · cases hwords
  · obtain rfl := Option.some.inj hwords
    have hget := name_eq_getElem (c := c) (Nat.sub_lt hpos Nat.one_pos)
    obtain ⟨init, hinit⟩ : ∃ init, c.lostFileNames.map nameOf =
        init ++ [c.name (c.lostFileNames.length - 1)] := by
      have hne : c.lostFileNames.map nameOf ≠ [] := by
        simpa using List.ne_nil_of_length_pos hpos
      refine ⟨(c.lostFileNames.map nameOf).dropLast, ?_⟩
      have hlast : (c.lostFileNames.map nameOf).getLast hne =
          c.name (c.lostFileNames.length - 1) := by
        rw [List.getLast_eq_getElem]
        refine Option.some.inj ((List.getElem?_eq_getElem _).symm.trans ?_)
        rw [List.length_map]
        exact hget
      rw [← hlast, List.dropLast_append_getLast]
    rw [hfiles, hinit, List.map_append, List.flatMap_append]
    simp only [List.map_cons, List.map_nil, List.flatMap_cons, List.flatMap_nil, List.append_nil]
    rw [← List.cons_append, ← List.append_assoc]
    exact List.getLast?_concat

/-- Nothing is under way. -/
structure Idle (s : State ι) : Prop where
  running : s.exited = none
  requests : s.dr_requests = []
  replies : ∀ name, s.replies name = []

/-- A client asks and gets its reply while the others do nothing. -/
theorem exists_round (client : ι → Hdfs3Client) {policy : ECPipePolicy} {conf : RepairConfig}
    {rsu : RSUtil} {base : MetadataBase} {s : State ι} {c : ι} {i : Nat} {m : Bytes}
    {out : PipeMul.Handled} {words : List Nat} (hidle : Idle s) (hphase : s.phase c = .ready i)
    (hm : Hdfs3.sendRequest (client c).localIp (client c).lostFileNames i = some m)
    (hout : PipeMul.handle policy conf rsu base s.vars m = some out)
    (hreply : out.reply = some ((client c).name i, words)) :
    ∃ s', Relation.ReflTransGen (Step policy conf rsu base client) s s' ∧
      s'.phase = Function.update s.phase c (.ready (i + 1)) ∧
      s'.got = Function.update s.got c (s.got c ++ [words]) ∧ Idle s' ∧ s'.vars = out.vars := by
  let s₁ : State ι := { s with
    phase := Function.update s.phase c (.waiting i)
    dr_requests := s.dr_requests ++ [(c, i, m)] }
  let s₂ : State ι := { s₁ with
    dr_requests := []
    vars := out.vars
    replies := pushReply s.replies out.reply
    cmds := s.cmds ++ out.cmds
    firstOf := if i = 0 then some c else s.firstOf }
  have hlist : s₂.replies ((client c).name i) = [words] := by
    simp only [s₂, hreply, pushReply, Function.update_self, hidle.replies, List.nil_append]
  have hwaits : s₂.phase c = .waiting i := Function.update_self ..
  have hsend : Step policy conf rsu base client s s₁ := .client (.send hphase hm)
  have hhandle : Step policy conf rsu base client s₁ s₂ := by
    refine .handler ?_
    simp [Hdfs3Requests.handlerStep, s₁, s₂, hidle.running, hidle.requests, hout]
  refine ⟨_, ((Relation.ReflTransGen.single hsend).tail hhandle).tail
    (.client (.receive hwaits hlist)), Function.update_idem .., rfl, ⟨hidle.running, rfl, ?_⟩, rfl⟩
  intro name
  by_cases hname : name = (client c).name i
  · subst hname
    exact Function.update_self ..
  · simp only [Function.update_of_ne hname, s₂, hreply, pushReply, hidle.replies]

/-- One data block in three copies, and the second one in three others. -/
def twoStripes : List (List Str) :=
  [[copyName 0, copyName 1, copyName 2].map nameOf, [copyName 3, copyName 4, copyName 5].map nameOf]

def twoIp (b : Str) : Nat :=
  twoStripes.flatten.idxOf b + 1

def twoBase : MetadataBase :=
  MetadataBase.ofStripes twoStripes twoIp

/-- Each of the clients repairs two copies. -/
def twoClients (c : Bool) : Hdfs3Client :=
  if c then ⟨10, [copyName 3, copyName 4]⟩ else ⟨9, [copyName 0, copyName 1]⟩

def twoStripe (c : Bool) : List Str :=
  twoStripes.getD c.toNat []

theorem two_repairs (c : Bool) : Repairs mirrorConf twoBase (twoStripe c) twoIp (twoClients c) := by
  have hnodup : twoStripes.flatten.Nodup := by decide
  cases c with
  | false =>
      exact ⟨MetadataBase.ofStripes_holds (by decide) (by decide) hnodup (by decide), by decide,
        by decide, by decide, by decide⟩
  | true =>
      exact ⟨MetadataBase.ofStripes_holds (by decide) (by decide) hnodup (by decide), by decide,
        by decide, by decide, by decide⟩

theorem two_answerable (c : Bool) : Answerable mirrorConf (twoStripe c) twoIp (twoClients c) := by
  cases c with
  | false => exact ⟨by decide, by unfold EnoughHelpers; decide, by decide⟩
  | true => exact ⟨by decide, by unfold EnoughHelpers; decide, by decide⟩

theorem two_disjoint : ∀ c c', c ≠ c' → (twoStripe c).Disjoint (twoStripe c') := by
  intro c c' hne
  have hdisj : ∀ b ∈ twoStripe false, b ∉ twoStripe true := by decide
  cases c <;> cases c'
  · exact absurd rfl hne
  · exact fun b hb hb' => hdisj b hb hb'
  · exact fun b hb hb' => hdisj b hb' hb
  · exact absurd rfl hne

/-- Under the basic policy both clients get their replies. -/
theorem followUps_right_two : ¬ ∃ s, Relation.ReflTransGen
    (QuietStep .basic mirrorConf xorRSUtil twoBase twoClients) State.init s ∧
      ¬ FollowUpsRight .basic mirrorConf xorRSUtil twoBase twoClients s := by
  rintro ⟨s, hruns, hwrong⟩
  exact hwrong (followUps_right .basic mirrorConf xorRSUtil twoBase twoClients twoStripe twoIp
    (by decide) two_repairs two_disjoint two_answerable s hruns)

/-- The first request of one client comes between the two of the other, which gets two different
replies. -/
theorem cyclicReply_mixed : ∃ s words words', Relation.ReflTransGen
    (Step .cyclic mirrorConf xorRSUtil twoBase twoClients) State.init s ∧
      s.got false = [words, words'] ∧ words ≠ words' := by
  obtain ⟨m₀, hm₀⟩ : ∃ m, Hdfs3.sendRequest 9 [copyName 0, copyName 1] 0 = some m := ⟨_, rfl⟩
  obtain ⟨m₁, hm₁⟩ : ∃ m, Hdfs3.sendRequest 10 [copyName 3, copyName 4] 0 = some m := ⟨_, rfl⟩
  obtain ⟨m₂, hm₂⟩ : ∃ m, Hdfs3.sendRequest 9 [copyName 0, copyName 1] 1 = some m := ⟨_, rfl⟩
  obtain ⟨out₀, w₀, hout₀, hreply₀, -, -, hcycl₀⟩ := handle_first .cyclic xorRSUtil (by decide)
    (two_repairs false) (two_answerable false) ⟨∅, none⟩ hm₀
  obtain ⟨out₁, w₁, hout₁, hreply₁, -, -, hcycl₁⟩ := handle_first .cyclic xorRSUtil (by decide)
    (two_repairs true) (two_answerable true) out₀.vars hm₁
  have hout₂ := handle_followUp .cyclic xorRSUtil (two_repairs false) (two_answerable false)
    out₁.vars Nat.one_pos hm₂
  simp only [PipeMul.handleFollowUp, (hcycl₁ rfl).2, Option.map_some] at hout₂
  -- both ask and are answered, and then the first one asks again
  obtain ⟨s₁, hruns₁, hphase₁, hgot₁, hidle₁, hvars₁⟩ := exists_round twoClients
    (c := false) (s := State.init) ⟨rfl, rfl, fun _ => rfl⟩ rfl hm₀ hout₀ hreply₀
  rw [← hvars₁] at hout₁
  obtain ⟨s₂, hruns₂, hphase₂, hgot₂, hidle₂, hvars₂⟩ := exists_round twoClients (c := true)
    (i := 0) hidle₁ (by rw [hphase₁]; rfl) hm₁ hout₁ hreply₁
  rw [← hvars₂] at hout₂
  obtain ⟨s₃, hruns₃, -, hgot₃, -, -⟩ := exists_round twoClients (c := false) (i := 1)
    hidle₂ (by rw [hphase₂, hphase₁]; rfl) hm₂ hout₂ rfl
  refine ⟨s₃, w₀, w₁, (hruns₁.trans hruns₂).trans hruns₃, ?_, ?_⟩
  · rw [hgot₃, hgot₂, hgot₁]
    rfl
  · intro heq
    have hlast₀ := CyclReply.getLast? (two_repairs false) (hcycl₀ rfl).1
    have hlast₁ := CyclReply.getLast? (two_repairs true) (hcycl₁ rfl).1
    rw [heq, hlast₁] at hlast₀
    exact absurd hlast₀ (by decide)

end Hdfs3Requests

end CoRD
