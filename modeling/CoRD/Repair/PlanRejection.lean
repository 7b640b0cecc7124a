import CoRD.Repair.Command
import CoRD.Repair.Hdfs3Requests
import CoRD.Repair.PipeMulRepair
import CoRD.Repair.PlanExists

/-!
# PlanRejection — requests for which there are not enough helpers

`ConvCoordinator` and `PipeMulCoordinator` ask the metadata base for a plan, and `outputStripeMul`
tells them whether to go on with it.  It looks at the entries of the plan: an entry that is short is
noticed, an entry that is missing is not.  `PipeMulCoordinator` looks into the entries before that,
for the last helpers.

The metadata base is a function here, since the handlers call it through the base class; an answer of
`none` stands for its `exit(1)`.
-/

namespace CoRD

open Std

/-- `getStripeBlksMul`, as the coordinators call it. -/
abbrev StripeBlksMul := Str → Nat → Status → Option Plan

/-- `getStripeBlksMul` of `HDFS_MetadataBase`. -/
def Hdfs.stripeBlksMul (conf : RepairConfig) (base : MetadataBase) : StripeBlksMul :=
  fun blkName requestorIP status =>
    (Hdfs.getStripeBlksMul conf base blkName requestorIP status).map Prod.fst

/-- How a turn of the loop of `requestHandler` ends: behind `pastEnd` nothing is known. -/
inductive Turn (α : Type)
  | exit
  | pastEnd
  | done (a : α)

/-- What is sent in a turn, and what `outputStripeMul` has returned if it was called. -/
structure Sent (C : Type) where
  flag : Option Bool
  cmds : List (Nat × C)
  passive : List (Nat × PassiveCmd)
  reply : Option (Str × List Nat)

/-- The plan is taken for a failed one, and nobody hears of the request. -/
structure Sent.Rejected {C : Type} (e : Sent C) : Prop where
  flag : e.flag = some false
  cmds : e.cmds = []
  passive : e.passive = []
  reply : e.reply = none

/-- An entry has too few helpers. -/
def Short (k : Nat) (plan : Plan) : Prop :=
  ∃ e ∈ plan.toList, e.2.2 = [] ∨ e.2.2.length < k

theorem outputStripeMul_eq_false_iff {k : Nat} {plan : Plan} :
    (outputStripeMul k plan).1 = false ↔ Short k plan := by
  have hloop : ∀ (l : List (Nat × Str × List (Nat × Str))) (st : Bool × TreeMap Nat Int),
      (l.foldl (fun st it =>
        (st.1 && !(it.2.2.isEmpty || decide (it.2.2.length < k)), countJobs st.2 it.2.2)) st).1 =
        false ↔ st.1 = false ∨ ∃ e ∈ l, e.2.2 = [] ∨ e.2.2.length < k := by
    intro l
    induction l with
    | nil =>
        intro st
        simp
    | cons it l ih =>
        intro st
        rw [List.foldl_cons, ih]
        simp only [Bool.and_eq_false_iff, Bool.not_eq_false', Bool.or_eq_true,
          List.isEmpty_iff, decide_eq_true_eq, List.mem_cons, exists_eq_or_imp, or_assoc]
  rw [outputStripeMul, hloop]
  simp [Short]

/-! ## The handlers -/

section Handlers

variable (conf : RepairConfig) (rsu : RSUtil) (base : MetadataBase) (fs : FileSys)
  (blks : StripeBlksMul)

namespace Conv

/-- The loop over the helpers, which goes up to `ecK` whatever the vector; `none` if it comes to its
end. -/
def helperCmds (ecK requestorIP : Nat) (filename : Str) (stripe : List (Nat × Str)) :
    Option (List (Nat × ConvCmd)) :=
  (List.range ecK).mapM fun i => do
    let helper ← stripe[i]?
    let next ← if i = ecK - 1 then stripe[0]? else stripe[i + 1]?
    return (helper.1, ConvCmd.helper ecK requestorIP 1 next.1 i filename helper.2)

/-- The blocks on the nodes of the helpers get the status 2. -/
def markNodes (allBlks : List (Nat × Str)) (ips : List Nat) (status : Status) : Status :=
  ips.foldl
    (fun status ip =>
      match allBlks.find? fun it => it.1 = ip with
      | some it => status.insert it.2 2
      | none => status) status

/-- The passive requests, with their nodes. -/
def passiveCmds (stripe_mul : Plan) (requestorIP : Nat) : List (Nat × PassiveCmd) :=
  (stripe_mul.toList.filter fun it => it.1 ≠ requestorIP).map fun it =>
    (it.1, { prevIP := requestorIP, reqIP := requestorIP, lostBlkName := it.2.1 })

/-- A turn of `ConvCoordinator::requestHandler`, from the parsed request on. -/
def turn (requestorIP : Nat) (r : FRRequest) : Turn (Sent ConvCmd) :=
  let filename := r.reqFile
  if r.index ≠ 0 then
    .done { flag := none, cmds := [], passive := [], reply := some (filename, [requestorIP]) }
  else
    let status := r.status.insert filename 0
    match blks filename requestorIP status with
    | none => .exit
    | some stripe_mul =>
        if (outputStripeMul conf.ecK stripe_mul).1 = false then
          .done { flag := some false, cmds := [], passive := [], reply := none }
        else
          -- `stripe_mul[requestorIP]` makes an entry if there is none
          let stripe_mul := stripe_mul.insertIfNew requestorIP ([], [])
          let stripe := (stripe_mul.getD requestorIP ([], [])).2
          match helperCmds conf.ecK requestorIP filename stripe with
          | none => .pastEnd
          | some cmds =>
              match base.getAllBlks fs filename with
              | none => .exit
              | some allBlks =>
                  let ips := cmds.map Prod.fst
                  let status := markNodes allBlks.toList ips status
                  let coef := fun b => base.getCoefficient conf.toConfig rsu b (some status)
                  let jobs := r.lostFiles.filterMap (jobOf conf.ecK coef stripe_mul)
                  let cmd := ConvCmd.requestor conf.ecK requestorIP conf.ecK ips filename jobs
                  .done
                    { flag := some true
                      cmds := cmds ++ [(requestorIP, cmd)]
                      passive := match fs with
                        | .hdfs => passiveCmds stripe_mul requestorIP
                        | .hdfs3 => []
                      reply := some ((r.lostFiles.getD 0 ([], 0)).1, [requestorIP]) }

/-- The turn rejects the request. -/
def Rejects (t : Turn (Sent ConvCmd)) : Prop :=
  ∃ e, t = .done e ∧ e.Rejected

end Conv

namespace PipeMul

variable (policy : ECPipePolicy)

/-- `it2.second.second.back()` is called on an empty vector. -/
def readsBackOfEmpty (stripes : Plan) (lostFiles : List (Str × Nat)) : Bool :=
  lostFiles.any fun it =>
    match stripes.toList.find? fun it2 => it2.2.1 = it.1 with
    | some it2 => it2.2.2.isEmpty
    | none => false

/-- The positions that the loop over `size` helpers looks at. -/
def readPositions (size : Nat) : List Nat :=
  (List.range (size &&& 0xff)).flatMap fun i =>
    [i, if i = 0 then size - 1 else i - 1, if i = (size &&& 0xff) - 1 then 0 else i + 1]

/-- A turn of `PipeMulCoordinator::requestHandler`, from the parsed request on. -/
def turn (vars : HandlerVars) (requestorIP : Nat) (r : FRRequest) :
    Turn (Sent PipeMulCmd × HandlerVars) :=
  if r.index ≠ 0 then
    match fs with
    | .hdfs => .done ({ flag := none, cmds := [], passive := [], reply := none }, vars)
    | .hdfs3 =>
        match handleFollowUp policy vars (r.lostFiles.getD r.index ([], 0)).1 with
        | none => .exit
        | some out =>
            .done ({ flag := none, cmds := [], passive := [], reply := out.reply }, out.vars)
  else
    let filename := (r.lostFiles.getD 0 ([], 0)).1
    let status := r.status.insert filename 0
    match blks filename requestorIP status with
    | none => .exit
    | some stripes =>
        if stripes.toList.any fun it => it.2.1.isEmpty then .exit
        else if readsBackOfEmpty stripes r.lostFiles then .pastEnd
        else
          let vars := { vars with
            lastHelperStore := storeHelpers stripes r.lostFiles vars.lastHelperStore }
          if (outputStripeMul conf.ecK stripes).1 = false then
            .done ({ flag := some false, cmds := [], passive := [], reply := none }, vars)
          -- the loop's bound is the size modulo 256, its neighbours are taken from the whole size
          else if stripes.toList.any fun it =>
              (readPositions it.2.2.length).any fun i => it.2.2.length ≤ i then .pastEnd
          else
            let cmds := requestHandler conf.toConfig rsu base status requestorIP stripes
            let passive := match fs with
              | .hdfs => passiveCmds stripes requestorIP (r.lostFiles.map Prod.fst)
              | .hdfs3 => []
            match policy with
            | .basic =>
                let words := basicReply vars.lastHelperStore r.lostFiles
                .done ({ flag := some true, cmds := cmds, passive := passive,
                         reply := some (filename, words) }, vars)
            | .cyclic =>
                match setupCyclReply r.lostFiles stripes with
                | none => .exit
                | some words =>
                    .done ({ flag := some true, cmds := cmds, passive := passive,
                             reply := some (filename, words) },
                      { vars with drCmdHistory := some words })

/-- The turn rejects the request and remembers nothing of it. -/
def Rejects (store : TreeMap Str Nat) (t : Turn (Sent PipeMulCmd × HandlerVars)) : Prop :=
  ∃ e vars, t = .done (e, vars) ∧ e.Rejected ∧ ∀ b : Str, vars.lastHelperStore[b]? = store[b]?

end PipeMul

end Handlers

/-! ## What `PipeMulCoordinator` does before it looks at the flag -/

/-- Each lost file that has an entry has helpers there, the last of which is already in the store. -/
def NothingToStore (plan : Plan) (lostFiles : List (Str × Nat)) (store : TreeMap Str Nat) : Prop :=
  ∀ it ∈ lostFiles, ∀ e, (plan.toList.find? fun it2 => it2.2.1 = it.1) = some e →
    e.2.2 ≠ [] ∧ store[it.1]? = some (e.2.2.getLastD (0, [])).1

section Store

variable {plan : Plan} {lostFiles : List (Str × Nat)} {store : TreeMap Str Nat}

theorem readsBackOfEmpty_eq_false_iff :
    PipeMul.readsBackOfEmpty plan lostFiles = false ↔
      ∀ it ∈ lostFiles, ∀ e, (plan.toList.find? fun it2 => it2.2.1 = it.1) = some e →
        e.2.2 ≠ [] := by
  rw [PipeMul.readsBackOfEmpty, List.any_eq_false]
  apply forall₂_congr
  intro it _
  cases plan.toList.find? fun it2 => it2.2.1 = it.1 with
  | none =>
      simp
  | some e =>
      simp

/-- What the loop leaves under a name depends on the name only. -/
theorem getElem?_storeHelpers (b : Str) :
    (PipeMul.storeHelpers plan lostFiles store)[b]? =
      if b ∈ lostFiles.map Prod.fst then
        ((plan.toList.find? fun it2 => it2.2.1 = b).map fun e => (e.2.2.getLastD (0, [])).1).or
          store[b]?
      else store[b]? := by
  induction lostFiles generalizing store with
  | nil =>
      rfl
  | cons it lostFiles ih =>
      have hstep : PipeMul.storeHelpers plan (it :: lostFiles) store =
          PipeMul.storeHelpers plan lostFiles
            (match plan.toList.find? fun it2 => it2.2.1 = it.1 with
              | some it2 => store.insert it.1 (it2.2.2.getLastD (0, [])).1
              | none => store) := rfl
      rw [hstep, ih]
      by_cases hb : b = it.1
      · subst hb
        cases hfind : plan.toList.find? fun it2 => it2.2.1 = it.1 with
        | none =>
            simp
        | some e =>
            simp
      · have hkeep : (match plan.toList.find? fun it2 => it2.2.1 = it.1 with
            | some it2 => store.insert it.1 (it2.2.2.getLastD (0, [])).1
            | none => store)[b]? = store[b]? := by
          cases plan.toList.find? fun it2 => it2.2.1 = it.1 with
          | none =>
              rfl
          | some e =>
              simp only
              rw [TreeMap.getElem?_insert, if_neg fun h => hb (LawfulEqCmp.compare_eq_iff_eq.1 h).symm]
        simp only [hkeep, List.map_cons, List.mem_cons, hb, false_or]

theorem nothingToStore_iff :
    NothingToStore plan lostFiles store ↔ PipeMul.readsBackOfEmpty plan lostFiles = false ∧
      ∀ b : Str, (PipeMul.storeHelpers plan lostFiles store)[b]? = store[b]? := by
  rw [readsBackOfEmpty_eq_false_iff]
  constructor
  · intro h
    refine ⟨fun it hit e he => (h it hit e he).1, fun b => ?_⟩
    rw [getElem?_storeHelpers]
    split
    case isTrue hb =>
      rcases List.mem_map.1 hb with ⟨it, hit, rfl⟩
      cases hfind : plan.toList.find? fun it2 => it2.2.1 = it.1 with
      | none =>
          rfl
      | some e =>
          exact (h it hit e hfind).2.symm
    case isFalse =>
      rfl
  · intro h it hit e he
    have hstore := h.2 it.1
    rw [getElem?_storeHelpers, if_pos (List.mem_map_of_mem hit), he] at hstore
    exact ⟨h.1 it hit e he, hstore.symm⟩

end Store

/-! ## When a request is rejected -/

section Reject

variable {conf : RepairConfig} {rsu : RSUtil} {base : MetadataBase} {fs : FileSys}
  {blks : StripeBlksMul} {policy : ECPipePolicy}

/-- What `ConvCoordinator` sends for a request with a plan goes with the flag. -/
theorem conv_turn_flag {requestorIP : Nat} {r : FRRequest} {plan : Plan} (hindex : r.index = 0)
    (hblks : blks r.reqFile requestorIP (r.status.insert r.reqFile 0) = some plan) :
    (Short conf.ecK plan ∧ Conv.turn conf rsu base fs blks requestorIP r =
      .done { flag := some false, cmds := [], passive := [], reply := none }) ∨
      (¬ Short conf.ecK plan ∧ ∀ e, Conv.turn conf rsu base fs blks requestorIP r = .done e →
        e.flag = some true) := by
  simp only [Conv.turn, hindex, ne_eq, not_true_eq_false, if_false, hblks]
  by_cases hshort : Short conf.ecK plan
  · left
    exact ⟨hshort, if_pos (outputStripeMul_eq_false_iff.2 hshort)⟩
  · right
    refine ⟨hshort, fun e he => ?_⟩
    rw [if_neg fun hflag => hshort (outputStripeMul_eq_false_iff.1 hflag)] at he
    split at he
    · cases he
    · split at he
      · cases he
      · cases he
        rfl

/-- A turn that does not send a `false` flag rejects nothing. -/
theorem conv_not_rejects {t : Turn (Sent ConvCmd)} (hflag : ∀ e, t = .done e → e.flag ≠ some false) :
    ¬ Conv.Rejects t := by
  intro h
  rcases h with ⟨e, he, hrej⟩
  exact hflag e he hrej.flag

/-- `ConvCoordinator` rejects a request just when it sees a short entry. -/
theorem conv_rejects_iff (requestorIP : Nat) (r : FRRequest) :
    Conv.Rejects (Conv.turn conf rsu base fs blks requestorIP r) ↔
      r.index = 0 ∧ ∃ plan,
        blks r.reqFile requestorIP (r.status.insert r.reqFile 0) = some plan ∧
          Short conf.ecK plan := by
  by_cases hindex : r.index = 0
  · cases hblks : blks r.reqFile requestorIP (r.status.insert r.reqFile 0) with
    | none =>
        have hexit : Conv.turn conf rsu base fs blks requestorIP r = .exit := by
          simp only [Conv.turn, hindex, ne_eq, not_true_eq_false, if_false, hblks]
        rw [hexit]
        refine iff_of_false (conv_not_rejects fun e he => by cases he) ?_
        rintro ⟨-, plan, hplan, -⟩
        cases hplan
    | some plan =>
        have hturn := @conv_turn_flag conf rsu base fs blks requestorIP r plan hindex hblks
        rcases hturn with ⟨hshort, hdown⟩ | ⟨hnot, hup⟩
        · exact iff_of_true ⟨_, hdown, rfl, rfl, rfl, rfl⟩ ⟨hindex, plan, rfl, hshort⟩
        · refine iff_of_false (conv_not_rejects fun e he => ?_) ?_
          · rw [hup e he]
            decide
          · rintro ⟨-, plan', hplan', hshort⟩
            cases hplan'
            exact hnot hshort
  · have hdummy : Conv.turn conf rsu base fs blks requestorIP r = .done
        { flag := none, cmds := [], passive := [], reply := some (r.reqFile, [requestorIP]) } := by
      simp only [Conv.turn, ne_eq, hindex, not_false_eq_true, if_true]
    rw [hdummy]
    refine iff_of_false (conv_not_rejects fun e he => ?_) fun h => hindex h.1
    cases he
    nofun

/-- What `PipeMulCoordinator` sends goes with the flag; before that it may fail, and it fills its
store. -/
theorem pipeMul_turn_flag {vars : PipeMul.HandlerVars} {requestorIP : Nat} {r : FRRequest}
    {plan : Plan} (hindex : r.index = 0)
    (hblks : blks (r.lostFiles.getD 0 ([], 0)).1 requestorIP
      (r.status.insert (r.lostFiles.getD 0 ([], 0)).1 0) = some plan)
    (hnames : ∀ e ∈ plan.toList, e.2.1 ≠ [])
    (hback : PipeMul.readsBackOfEmpty plan r.lostFiles = false) :
    (Short conf.ecK plan ∧
      PipeMul.turn conf rsu base fs blks policy vars requestorIP r =
        .done ({ flag := some false, cmds := [], passive := [], reply := none }, { vars with
          lastHelperStore := PipeMul.storeHelpers plan r.lostFiles vars.lastHelperStore })) ∨
      (¬ Short conf.ecK plan ∧ ∀ e vars',
        PipeMul.turn conf rsu base fs blks policy vars requestorIP r = .done (e, vars') →
          e.flag = some true) := by
  have hnames' : (plan.toList.any fun it => it.2.1.isEmpty) = false := by
    apply List.any_eq_false.2
    intro e he
    simpa using hnames e he
  simp only [PipeMul.turn, hindex, ne_eq, not_true_eq_false, if_false, hblks, hnames',
    Bool.false_eq_true, hback]
  by_cases hshort : Short conf.ecK plan
  · left
    exact ⟨hshort, if_pos (outputStripeMul_eq_false_iff.2 hshort)⟩
  · right
    refine ⟨hshort, fun e vars' he => ?_⟩
    rw [if_neg fun hflag => hshort (outputStripeMul_eq_false_iff.1 hflag)] at he
    split at he
    · cases he
    · cases policy with
      | basic =>
          cases he
          rfl
      | cyclic =>
          simp only at he
          split at he
          · cases he
          · cases he
            rfl

/-- A turn that does not send a `false` flag rejects nothing. -/
theorem pipeMul_not_rejects {store : TreeMap Str Nat}
    {t : Turn (Sent PipeMulCmd × PipeMul.HandlerVars)}
    (hflag : ∀ e vars', t = .done (e, vars') → e.flag ≠ some false) :
    ¬ PipeMul.Rejects store t := by
  intro h
  rcases h with ⟨e, vars', he, hrej, _⟩
  exact hflag e vars' he hrej.flag

/-- For any but the first request of a node `PipeMulCoordinator` only replies. -/
theorem pipeMul_turn_dummy {vars : PipeMul.HandlerVars} {requestorIP : Nat} {r : FRRequest}
    (hindex : r.index ≠ 0) (e : Sent PipeMulCmd) (vars' : PipeMul.HandlerVars) :
    PipeMul.turn conf rsu base fs blks policy vars requestorIP r = .done (e, vars') →
      e.flag = none := by
  intro he
  simp only [PipeMul.turn, ne_eq, hindex, not_false_eq_true, if_true] at he
  cases fs with
  | hdfs =>
      cases he
      rfl
  | hdfs3 =>
      simp only at he
      split at he
      · cases he
      · cases he
        rfl

/-- `PipeMulCoordinator` exits at an entry without a name. -/
theorem pipeMul_turn_exit {vars : PipeMul.HandlerVars} {requestorIP : Nat} {r : FRRequest}
    {plan : Plan} (hindex : r.index = 0)
    (hblks : blks (r.lostFiles.getD 0 ([], 0)).1 requestorIP
      (r.status.insert (r.lostFiles.getD 0 ([], 0)).1 0) = some plan)
    (hnames : ¬ ∀ e ∈ plan.toList, e.2.1 ≠ []) :
    PipeMul.turn conf rsu base fs blks policy vars requestorIP r = .exit := by
  have hnames' : (plan.toList.any fun it => it.2.1.isEmpty) = true := by
    apply List.any_eq_true.2
    push Not at hnames
    rcases hnames with ⟨e, he, hempty⟩
    exact ⟨e, he, by rw [hempty]; rfl⟩
  simp only [PipeMul.turn, hindex, ne_eq, not_true_eq_false, if_false, hblks, hnames', if_true]

/-- And reads past the end of a vector if there is nothing in it. -/
theorem pipeMul_turn_pastEnd {vars : PipeMul.HandlerVars} {requestorIP : Nat} {r : FRRequest}
    {plan : Plan} (hindex : r.index = 0)
    (hblks : blks (r.lostFiles.getD 0 ([], 0)).1 requestorIP
      (r.status.insert (r.lostFiles.getD 0 ([], 0)).1 0) = some plan)
    (hnames : ∀ e ∈ plan.toList, e.2.1 ≠ [])
    (hback : PipeMul.readsBackOfEmpty plan r.lostFiles = true) :
    PipeMul.turn conf rsu base fs blks policy vars requestorIP r = .pastEnd := by
  have hnames' : (plan.toList.any fun it => it.2.1.isEmpty) = false := by
    apply List.any_eq_false.2
    intro e he
    simpa using hnames e he
  simp only [PipeMul.turn, hindex, ne_eq, not_true_eq_false, if_false, hblks, hnames',
    Bool.false_eq_true, hback, if_true]

/-- `PipeMulCoordinator` rejects a request just when it sees a short entry and has neither an empty
name nor an empty vector met, nor found anything to store. -/
theorem pipeMul_rejects_iff (vars : PipeMul.HandlerVars) (requestorIP : Nat) (r : FRRequest) :
    PipeMul.Rejects vars.lastHelperStore
        (PipeMul.turn conf rsu base fs blks policy vars requestorIP r) ↔
      r.index = 0 ∧ ∃ plan,
        blks (r.lostFiles.getD 0 ([], 0)).1 requestorIP
            (r.status.insert (r.lostFiles.getD 0 ([], 0)).1 0) = some plan ∧
          Short conf.ecK plan ∧ (∀ e ∈ plan.toList, e.2.1 ≠ []) ∧
          NothingToStore plan r.lostFiles vars.lastHelperStore := by
  by_cases hindex : r.index = 0
  · cases hblks : blks (r.lostFiles.getD 0 ([], 0)).1 requestorIP
        (r.status.insert (r.lostFiles.getD 0 ([], 0)).1 0) with
    | none =>
        have hexit : PipeMul.turn conf rsu base fs blks policy vars requestorIP r = .exit := by
          simp only [PipeMul.turn, hindex, ne_eq, not_true_eq_false, if_false, hblks]
        rw [hexit]
        refine iff_of_false (pipeMul_not_rejects fun e vars' he => by cases he) ?_
        rintro ⟨-, plan, hplan, -⟩
        cases hplan
    | some plan =>
        by_cases hnames : ∀ e ∈ plan.toList, e.2.1 ≠ []
        · cases hback : PipeMul.readsBackOfEmpty plan r.lostFiles with
          | true =>
              rw [pipeMul_turn_pastEnd hindex hblks hnames hback]
              refine iff_of_false (pipeMul_not_rejects fun e vars' he => by cases he) ?_
              rintro ⟨-, plan', hplan', -, -, hstore⟩
              cases hplan'
              rw [(nothingToStore_iff.1 hstore).1] at hback
              cases hback
          | false =>
              have hturn := @pipeMul_turn_flag conf rsu base fs blks policy vars requestorIP r plan
                hindex hblks hnames hback
              rcases hturn with ⟨hshort, hdown⟩ | ⟨hnot, hup⟩
              · -- the flag is sent, and the store is what it has become by then
                rw [hdown]
                constructor
                · rintro ⟨e, vars', he, _, hkeep⟩
                  cases he
                  exact ⟨hindex, plan, rfl, hshort, hnames, nothingToStore_iff.2 ⟨hback, hkeep⟩⟩
                · rintro ⟨-, plan', hplan', -, -, hstore⟩
                  cases hplan'
                  exact ⟨_, _, rfl, ⟨rfl, rfl, rfl, rfl⟩, (nothingToStore_iff.1 hstore).2⟩
              · refine iff_of_false (pipeMul_not_rejects fun e vars' he => ?_) ?_
                · rw [hup e vars' he]
                  decide
                · rintro ⟨-, plan', hplan', hshort, -⟩
                  cases hplan'
                  exact hnot hshort
        · rw [pipeMul_turn_exit hindex hblks hnames]
          refine iff_of_false (pipeMul_not_rejects fun e vars' he => by cases he) ?_
          rintro ⟨-, plan', hplan', -, hnames', -⟩
          cases hplan'
          exact hnames hnames'
  · refine iff_of_false (pipeMul_not_rejects fun e vars' he => ?_) fun h => hindex h.1
    rw [pipeMul_turn_dummy hindex e vars' he]
    nofun

/-- The turn is what is modelled for several clients of one coordinator, as far as that goes. -/
theorem handleFirst_of_turn {vars vars' : PipeMul.HandlerVars} {requestorIP : Nat} {r : FRRequest}
    {e : Sent PipeMulCmd} (hindex : r.index = 0)
    (hturn : PipeMul.turn conf rsu base .hdfs3 (Hdfs3.getStripeBlksMul conf base) policy vars
      requestorIP r = .done (e, vars')) :
    PipeMul.handleFirst policy conf rsu base vars requestorIP r =
      some ⟨vars', e.reply, e.cmds⟩ := by
  rcases hplan : Hdfs3.getStripeBlksMul conf base (r.lostFiles.getD 0 ([], 0)).1 requestorIP
      (r.status.insert (r.lostFiles.getD 0 ([], 0)).1 0) with _ | plan
  · simp only [PipeMul.turn, hindex, ne_eq, not_true_eq_false, if_false, hplan] at hturn
    cases hturn
  · simp only [PipeMul.turn, hindex, ne_eq, not_true_eq_false, if_false, hplan] at hturn
    simp only [PipeMul.handleFirst, PipeMul.planFor, hplan]
    split at hturn
    · cases hturn
    · rename_i hnames
      rw [if_neg hnames]
      split at hturn
      · cases hturn
      · split at hturn
        · rename_i hflag
          rw [if_pos hflag]
          cases hturn
          rfl
        · rename_i hflag
          rw [if_neg hflag]
          split at hturn
          · cases hturn
          · cases policy with
            | basic =>
                cases hturn
                rfl
            | cyclic =>
                rcases hwords : PipeMul.setupCyclReply r.lostFiles plan with _ | words
                · simp only [hwords] at hturn
                  cases hturn
                · simp only [hwords] at hturn ⊢
                  cases hturn
                  rfl

/-! ## The empty map -/

theorem toList_emptyPlan : (∅ : Plan).toList = [] := by
  apply List.isEmpty_iff.1
  rw [TreeMap.isEmpty_toList, TreeMap.isEmpty_emptyc]

theorem not_short_empty {k : Nat} : ¬ Short k ∅ := by
  intro h
  rcases h with ⟨e, he, _⟩
  rw [toList_emptyPlan] at he
  cases he

/-- Nothing is missed in the empty map. -/
theorem outputStripeMul_empty (k : Nat) : (outputStripeMul k ∅).1 = true := by
  apply Bool.eq_true_of_not_eq_false
  intro h
  exact not_short_empty (outputStripeMul_eq_false_iff.1 h)

/-- With the empty map, `ConvCoordinator` goes on and looks for the first helper. -/
theorem conv_turn_empty (hk : 1 ≤ conf.ecK) {requestorIP : Nat} {r : FRRequest}
    (hindex : r.index = 0)
    (hblks : blks r.reqFile requestorIP (r.status.insert r.reqFile 0) = some ∅) :
    Conv.turn conf rsu base fs blks requestorIP r = .pastEnd := by
  have hflag := outputStripeMul_empty conf.ecK
  have hcmds : Conv.helperCmds conf.ecK requestorIP r.reqFile [] = none := by
    rcases Nat.exists_eq_add_of_le' hk with ⟨k, hk'⟩
    rw [Conv.helperCmds, hk', List.range_succ_eq_map, List.mapM_cons]
    rfl
  have hempty : ((∅ : Plan).insertIfNew requestorIP ([], [])).getD requestorIP ([], []) =
      ([], []) := by
    simp [TreeMap.getD_insertIfNew]
  simp only [Conv.turn, hindex, ne_eq, not_true_eq_false, if_false, hblks, hflag, hempty, hcmds,
    Bool.true_eq_false]

/-- With the empty map, `PipeMulCoordinator` answers with what it happens to remember. -/
theorem pipeMul_turn_empty {vars : PipeMul.HandlerVars} {requestorIP : Nat} {r : FRRequest}
    (hindex : r.index = 0)
    (hblks : blks (r.lostFiles.getD 0 ([], 0)).1 requestorIP
      (r.status.insert (r.lostFiles.getD 0 ([], 0)).1 0) = some ∅) :
    PipeMul.turn conf rsu base fs blks .basic vars requestorIP r =
      .done
        ({ flag := some true, cmds := [], passive := [],
           reply := some ((r.lostFiles.getD 0 ([], 0)).1,
            PipeMul.basicReply vars.lastHelperStore r.lostFiles) }, vars) := by
  have hflag := outputStripeMul_empty conf.ecK
  have hback : PipeMul.readsBackOfEmpty ∅ r.lostFiles = false := by
    apply readsBackOfEmpty_eq_false_iff.2
    intro it _ e he
    rw [toList_emptyPlan] at he
    cases he
  have hstore : PipeMul.storeHelpers ∅ r.lostFiles vars.lastHelperStore =
      vars.lastHelperStore := by
    rw [PipeMul.storeHelpers]
    apply List.foldl_fixed'
    intro it
    rw [toList_emptyPlan]
    rfl
  have hcmds : PipeMul.requestHandler conf.toConfig rsu base
      (r.status.insert (r.lostFiles.getD 0 ([], 0)).1 0) requestorIP ∅ = [] := by
    rw [PipeMul.requestHandler]
    simp only [toList_emptyPlan, List.foldl_nil, ite_self]
  have hpassive : PipeMul.passiveCmds ∅ requestorIP (r.lostFiles.map Prod.fst) = [] := by
    rw [PipeMul.passiveCmds, toList_emptyPlan]
    simp
  simp only [PipeMul.turn, hindex, ne_eq, not_true_eq_false, if_false, hblks, hflag, hback, hstore,
    toList_emptyPlan, hcmds, List.any_nil, Bool.false_eq_true, Bool.true_eq_false, hpassive]
  cases fs with
  | hdfs =>
      rfl
  | hdfs3 =>
      rfl

/-- No metadata base that has loaded the stripe lets a request be rejected when its helpers are
missing: `HDFS_MetadataBase` exits, and `HDFS3_MetadataBase` returns the empty map. -/
theorem not_rejected_of_missing {s : List Str} {ip : Str → Nat} {requestorIP : Nat} {r : FRRequest}
    (vars : PipeMul.HandlerVars) (hbase : base.HoldsStripe conf.toConfig s ip)
    (hstatus : IsStatus r.status s (r.lostFiles.map Prod.fst))
    (hfile : r.reqFile ∈ r.lostFiles.map Prod.fst)
    (hblks : (¬ EnoughHelpers conf.ecK s (r.lostFiles.map Prod.fst) ip requestorIP ∧
        blks = Hdfs3.getStripeBlksMul conf base) ∨
      (¬ HdfsAvailable conf base.order s (r.lostFiles.map Prod.fst) ip requestorIP ∧
        blks = Hdfs.stripeBlksMul conf base)) :
    ¬ Conv.Rejects (Conv.turn conf rsu base fs blks requestorIP r) ∧
      ¬ PipeMul.Rejects vars.lastHelperStore
        (PipeMul.turn conf rsu base fs blks policy vars requestorIP r) := by
  have hanswer : ∀ b ∈ r.lostFiles.map Prod.fst, ∀ plan,
      blks b requestorIP (r.status.insert b 0) = some plan → ¬ Short conf.ecK plan := by
    intro b hb plan hplan
    have hstatus' := hstatus.insert_zero hb
    rcases hblks with ⟨hfew, rfl⟩ | ⟨hfew, rfl⟩
    · rw [hdfs3_returns_empty hbase hstatus' hb hfew] at hplan
      cases hplan
      exact not_short_empty
    · rcases Option.map_eq_some_iff.1 hplan with ⟨⟨plan', base'⟩, hplan', _⟩
      exact absurd ((hdfs_returns_iff hbase hstatus' hb).1 ⟨plan', base', hplan'⟩) hfew
  have hfirst : (r.lostFiles.getD 0 ([], 0)).1 ∈ r.lostFiles.map Prod.fst := by
    rcases hfiles : r.lostFiles with _ | ⟨it, lostFiles⟩
    · rw [hfiles] at hfile
      cases hfile
    · exact List.mem_cons_self
  constructor
  · intro hrej
    rcases ((conv_rejects_iff requestorIP r).1 hrej).2 with ⟨plan, hplan, hshort⟩
    exact hanswer _ hfile plan hplan hshort
  · intro hrej
    rcases ((pipeMul_rejects_iff vars requestorIP r).1 hrej).2 with ⟨plan, hplan, hshort, _⟩
    exact hanswer _ hfirst plan hplan hshort

end Reject

/-- Which plans are rejected, whatever metadata base they come from; with those that load stripes it
never happens. -/
theorem rejects_iff (conf : RepairConfig) (rsu : RSUtil) (base : MetadataBase) (fs : FileSys)
    (policy : ECPipePolicy) (vars : PipeMul.HandlerVars) (requestorIP : Nat) (r : FRRequest) :
    (∀ blks : StripeBlksMul,
      (Conv.Rejects (Conv.turn conf rsu base fs blks requestorIP r) ↔
        r.index = 0 ∧ ∃ plan,
          blks r.reqFile requestorIP (r.status.insert r.reqFile 0) = some plan ∧
            Short conf.ecK plan) ∧
      (PipeMul.Rejects vars.lastHelperStore
          (PipeMul.turn conf rsu base fs blks policy vars requestorIP r) ↔
        r.index = 0 ∧ ∃ plan,
          blks (r.lostFiles.getD 0 ([], 0)).1 requestorIP
              (r.status.insert (r.lostFiles.getD 0 ([], 0)).1 0) = some plan ∧
            Short conf.ecK plan ∧ (∀ e ∈ plan.toList, e.2.1 ≠ []) ∧
            NothingToStore plan r.lostFiles vars.lastHelperStore)) ∧
    (∀ (s : List Str) (ip : Str → Nat), base.HoldsStripe conf.toConfig s ip →
      IsStatus r.status s (r.lostFiles.map Prod.fst) → r.reqFile ∈ r.lostFiles.map Prod.fst →
      (¬ EnoughHelpers conf.ecK s (r.lostFiles.map Prod.fst) ip requestorIP →
        ¬ Conv.Rejects (Conv.turn conf rsu base fs (Hdfs3.getStripeBlksMul conf base)
            requestorIP r) ∧
        ¬ PipeMul.Rejects vars.lastHelperStore (PipeMul.turn conf rsu base fs
            (Hdfs3.getStripeBlksMul conf base) policy vars requestorIP r)) ∧
      (¬ HdfsAvailable conf base.order s (r.lostFiles.map Prod.fst) ip requestorIP →
        ¬ Conv.Rejects (Conv.turn conf rsu base fs (Hdfs.stripeBlksMul conf base)
            requestorIP r) ∧
        ¬ PipeMul.Rejects vars.lastHelperStore (PipeMul.turn conf rsu base fs
            (Hdfs.stripeBlksMul conf base) policy vars requestorIP r))) := by
  constructor
  · intro blks
    exact ⟨conv_rejects_iff requestorIP r, pipeMul_rejects_iff vars requestorIP r⟩
  · intro s ip hbase hstatus hfile
    constructor
    · intro hfew
      exact not_rejected_of_missing vars hbase hstatus hfile (Or.inl ⟨hfew, rfl⟩)
    · intro hfew
      exact not_rejected_of_missing vars hbase hstatus hfile (Or.inr ⟨hfew, rfl⟩)

section Survivor

open Hdfs3Requests Wire

/-- The node of the third copy asks for the two others: `ConvCoordinator` reads past the end of a
vector, and `PipeMulCoordinator` names the node 0.0.0.0 as the last helper of both. -/
theorem not_rejected_survivor : ∃ m r,
    Hdfs3.sendRequest 3 [copyName 0, copyName 1] 0 = some m ∧
    parseFRRequest twoBase .hdfs3 (word m 0) mirrorConf.ecK m = some r ∧
    Conv.turn mirrorConf xorRSUtil twoBase .hdfs3 (Hdfs3.getStripeBlksMul mirrorConf twoBase) 3 r =
      .pastEnd ∧
    PipeMul.turn mirrorConf xorRSUtil twoBase .hdfs3 (Hdfs3.getStripeBlksMul mirrorConf twoBase)
        .basic ⟨∅, none⟩ 3 r =
      .done
        ({ flag := some true, cmds := [], passive := [],
           reply := some (nameOf (copyName 0), [0, 0, 2]) }, ⟨∅, none⟩) := by
  have hheld := (two_repairs false).held
  have hreads : ReadsBack mirrorConf twoBase .hdfs3 (twoStripe false) twoIp (.hdfs3 0) 3
      [copyName 0, copyName 1] (indexedRequest 3 0 [copyName 0, copyName 1]) :=
    reads_indexed hheld (by decide) (by decide) (by decide) (by decide) (by decide) rfl (by decide)
      (Nat.zero_le _)
  rcases hreads with ⟨_, r, hparse, hmeant⟩
  have hlost : r.reqFile ∈ [copyName 0, copyName 1].map nameOf := by
    rcases hmeant.byNode rfl with hnode | hfirst
    · exact hnode.1
    · exact List.mem_of_getElem? hfirst.2
  have hfew : ¬ EnoughHelpers mirrorConf.ecK (twoStripe false)
      ([copyName 0, copyName 1].map nameOf) twoIp 3 := by
    unfold EnoughHelpers
    decide
  have hanswer : ∀ b ∈ [copyName 0, copyName 1].map nameOf,
      Hdfs3.getStripeBlksMul mirrorConf twoBase b 3 (r.status.insert b 0) = some ∅ := fun b hb =>
    hdfs3_returns_empty hheld (hmeant.status.insert_zero hb) hb hfew
  have hfile : (r.lostFiles.getD 0 ([], 0)).1 = nameOf (copyName 0) := by
    rw [hmeant.lostFiles]
    rfl
  have hwords : PipeMul.basicReply ∅ r.lostFiles = [0, 0, 2] := by
    rw [hmeant.lostFiles]
    decide
  refine ⟨_, r, rfl, hparse, ?_, ?_⟩
  · exact conv_turn_empty (by decide) hmeant.index (hanswer _ hlost)
  · have hplan := hanswer _ (List.mem_cons_self : nameOf (copyName 0) ∈ _)
    rw [← hfile] at hplan
    rw [pipeMul_turn_empty hmeant.index hplan, hfile, hwords]

end Survivor

end CoRD
