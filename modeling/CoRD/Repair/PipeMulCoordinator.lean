import CoRD.Repair.PlanSound

/-!
# PipeMulCoordinator — the commands of a multi-block pipeline

`requestHandler` goes through the plan of a request, entry by entry, and builds one command for
each helper of each entry.  A helper with several jobs gets them numbered downwards: the first
command it is sent has the number of its jobs as index, the last one has index one.

A command is kept as the fields that the worker decodes.  The commands of one request enter the
queue of the distributors in one transaction and each queue is emptied in order, so the `dr_cmds`
list of a helper holds its commands in the order in which they are built here.
-/

namespace CoRD

open Std

/-- A command in `dr_cmds`. -/
structure PipeMulCmd where
  ecK : Nat
  requestorIP : Nat
  prevIP : Nat
  nextIP : Nat
  id : Nat
  coefficient : GF256
  lostBlkName : Str
  localBlkName : Str
  jobInd : Int
  jobNum : Int
  deriving DecidableEq

/-! ## The handler -/

/-- One more job for each helper of the stripe. -/
def countJobs (numOfJobs : TreeMap Nat Int) (stripe : List (Nat × Str)) : TreeMap Nat Int :=
  stripe.foldl
    (fun m it => if it.1 ∈ m then m.insert it.1 (m.getD it.1 0 + 1) else m.insert it.1 1) numOfJobs

/-- `Coordinator::outputStripeMul`: whether every entry has its helpers, and the number of jobs of
each helper. -/
def outputStripeMul (ecK : Nat) (stripe_mul : Plan) : Bool × TreeMap Nat Int :=
  stripe_mul.toList.foldl
    (fun st it =>
      (st.1 && !(it.2.2.isEmpty || decide (it.2.2.length < ecK)), countJobs st.2 it.2.2))
    (true, ∅)

/-- The variables of the loops of `requestHandler`. -/
structure HandlerState where
  status : Status
  indOfJobs : TreeMap Nat Int
  cmds : List (Nat × PipeMulCmd)

namespace PipeMul

section Handler

variable (conf : Config) (rsu : RSUtil) (base : MetadataBase) (requestorIP : Nat)
  (numOfJobs : TreeMap Nat Int)

/-- The command for helper `i` of a stripe; the low byte of `ecK` counts the helpers. -/
def helperCmd (lostFilename : Str) (coef : TreeMap Str GF256) (stripe : List (Nat × Str))
    (ecK : Nat) (indOfJobs : TreeMap Nat Int) (i : Nat) : PipeMulCmd :=
  let helper := stripe.getD i (0, [])
  { ecK := ecK
    requestorIP := requestorIP
    prevIP := (if i = 0 then stripe.getD (ecK - 1) (0, []) else stripe.getD (i - 1) (0, [])).1
    nextIP := (if i = (ecK &&& 0xff) - 1 then stripe.getD 0 (0, [])
      else stripe.getD (i + 1) (0, [])).1
    id := i
    coefficient := coef.getD helper.2 0
    lostBlkName := lostFilename
    localBlkName := helper.2
    jobInd := indOfJobs.getD helper.1 0
    jobNum := numOfJobs.getD helper.1 0 }

/-- One turn of the loop over the helpers of a stripe. -/
def helperStep (lostFilename : Str) (coef : TreeMap Str GF256) (stripe : List (Nat × Str))
    (ecK : Nat) (st : HandlerState) (i : Nat) : HandlerState :=
  let ip := (stripe.getD i (0, [])).1
  { st with
    cmds := st.cmds ++
      [(ip, helperCmd requestorIP numOfJobs lostFilename coef stripe ecK st.indOfJobs i)]
    indOfJobs := st.indOfJobs.insert ip (st.indOfJobs.getD ip 0 - 1) }

/-- One turn of the loop over the plan. -/
def stripeStep (st : HandlerState) (it : Nat × Str × List (Nat × Str)) : HandlerState :=
  let stripe := it.2.2
  let status := markHelpers st.status stripe
  let coef := base.getCoefficient conf rsu it.2.1 (some status)
  let ecK := stripe.length
  (List.range (ecK &&& 0xff)).foldl
    (helperStep requestorIP numOfJobs it.2.1 coef stripe ecK) { st with status := status }

end Handler

/-- `PipeMulCoordinator::requestHandler`, from the plan on: the commands with their nodes. -/
def requestHandler (conf : Config) (rsu : RSUtil) (base : MetadataBase) (status : Status)
    (requestorIP : Nat) (stripes : Plan) : List (Nat × PipeMulCmd) :=
  let flag := (outputStripeMul conf.ecK stripes).1
  let numOfJobs := (outputStripeMul conf.ecK stripes).2
  if flag = false then []
  else
    (stripes.toList.foldl (stripeStep conf rsu base requestorIP numOfJobs)
      { status := status, indOfJobs := numOfJobs, cmds := [] }).cmds

end PipeMul

/-- The commands that end up in the `dr_cmds` list of a node. -/
def drCmds (cmds : List (Nat × PipeMulCmd)) (ip : Nat) : List PipeMulCmd :=
  (cmds.filter fun c => c.1 = ip).map Prod.snd

/-! ## Plans with one vector of helpers -/

/-- All entries of the plan name the same helpers, on distinct nodes, at least `k` of them. -/
structure SharesHelpers (stripes : Plan) (k : Nat) (vec : List (Nat × Str)) : Prop where
  shared : ∀ e ∈ stripes.toList, e.2.2 = vec
  nodes : (vec.map Prod.fst).Nodup
  nonempty : vec ≠ []
  enough : k ≤ vec.length

/-- Two helpers on one node are the same helper. -/
theorem node_inj {vec : List (Nat × Str)} (hnodes : (vec.map Prod.fst).Nodup) {t u : Nat} :
    t < vec.length → u < vec.length →
      ((vec.getD t (0, [])).1 = (vec.getD u (0, [])).1 ↔ t = u) := by
  intro ht hu
  have hget : ∀ v < vec.length, (vec.map Prod.fst)[v]? = some (vec.getD v (0, [])).1 := by
    intro v hv
    simp [List.getD_eq_getElem?_getD, List.getElem?_eq_getElem hv]
  refine ⟨fun heq => ?_, fun heq => by rw [heq]⟩
  refine (List.getElem?_inj (by simpa using ht) hnodes).1 ?_
  rw [hget t ht, hget u hu, heq]

theorem getD_countJobs {vec : List (Nat × Str)} {m : TreeMap Nat Int} {ip : Nat} :
    (vec.map Prod.fst).Nodup →
      (countJobs m vec).getD ip 0 =
        if ip ∈ vec.map Prod.fst then m.getD ip 0 + 1 else m.getD ip 0 := by
  intro hnodes
  induction vec generalizing m with
  | nil =>
      simp [countJobs]
  | cons it vec ih =>
      rw [List.map_cons, List.nodup_cons] at hnodes
      have hstep : ∀ a, (if it.1 ∈ m then m.insert it.1 (m.getD it.1 0 + 1)
          else m.insert it.1 1).getD a 0 = if it.1 = a then m.getD a 0 + 1 else m.getD a 0 := by
        intro a
        by_cases hmem : it.1 ∈ m
        · rw [if_pos hmem, TreeMap.getD_insert]
          by_cases ha : it.1 = a
          · simp [ha]
          · simp [ha]
        · -- the entry that `operator[]` would create starts from zero
          have hzero : m.getD it.1 0 = 0 := TreeMap.getD_eq_fallback hmem
          rw [if_neg hmem, TreeMap.getD_insert]
          by_cases ha : it.1 = a
          · subst ha
            simp [hzero]
          · simp [ha]
      have hfold : countJobs m (it :: vec) = countJobs (if it.1 ∈ m then
          m.insert it.1 (m.getD it.1 0 + 1) else m.insert it.1 1) vec := rfl
      rw [hfold, ih hnodes.2, hstep, List.map_cons]
      by_cases hit : it.1 = ip
      · subst hit
        simp [hnodes.1]
      · have hmem : ip ∈ it.1 :: vec.map Prod.fst ↔ ip ∈ vec.map Prod.fst := by
          simp [Ne.symm hit]
        simp only [hit, if_false, hmem]

/-- The flag is up, and every helper has a job for each entry. -/
theorem outputStripeMul_shared {stripes : Plan} {k : Nat} {vec : List (Nat × Str)}
    (h : SharesHelpers stripes k vec) :
    (outputStripeMul k stripes).1 = true ∧ ∀ ip ∈ vec.map Prod.fst,
      (outputStripeMul k stripes).2.getD ip 0 = stripes.toList.length := by
  have hloop : ∀ (l : List (Nat × Str × List (Nat × Str))) (st : Bool × TreeMap Nat Int),
      (∀ e ∈ l, e.2.2 = vec) →
      let st' := l.foldl
        (fun st it =>
          (st.1 && !(it.2.2.isEmpty || decide (it.2.2.length < k)), countJobs st.2 it.2.2)) st
      st'.1 = st.1 ∧ ∀ ip ∈ vec.map Prod.fst, st'.2.getD ip 0 = st.2.getD ip 0 + l.length := by
    intro l
    induction l with
    | nil =>
        intro st _
        simp
    | cons e l ih =>
        intro st hl
        have he := hl e (by simp)
        have hok : (!(e.2.2.isEmpty || decide (e.2.2.length < k))) = true := by
          rw [he]
          simp [h.nonempty, h.enough]
        obtain ⟨hflag, hnum⟩ := ih _ fun e' he' => hl e' (by simp [he'])
        refine ⟨?_, fun ip hip => ?_⟩
        · rw [List.foldl_cons, hflag, hok, Bool.and_true]
        · rw [List.foldl_cons, hnum ip hip, he, getD_countJobs h.nodes, if_pos hip,
            List.length_cons]
          omega
  obtain ⟨hflag, hnum⟩ := hloop stripes.toList (true, ∅) h.shared
  refine ⟨hflag, fun ip hip => ?_⟩
  rw [outputStripeMul, hnum ip hip]
  simp

/-- Marking the helpers a second time changes nothing. -/
theorem getElem?_markHelpers_twice {status status' : Status} {vec : List (Nat × Str)}
    (h : ∀ b : Str, (markHelpers status' vec)[b]? = (markHelpers status vec)[b]?) (b : Str) :
    (markHelpers (markHelpers status' vec) vec)[b]? = (markHelpers status vec)[b]? := by
  rw [getElem?_markHelpers, h, getElem?_markHelpers]
  by_cases hb : b ∈ vec.map Prod.snd
  · rw [if_pos hb, if_pos hb]
  · rw [if_neg hb, if_neg hb, Option.map_map]
    congr 1
    funext v
    by_cases hv : v = 0 <;> simp [hv]

theorem getCoefficient_congr (conf : Config) (rsu : RSUtil) (base : MetadataBase) (b : Str)
    {status status' : Status} :
    (∀ a : Str, status'[a]? = status[a]?) →
      base.getCoefficient conf rsu b (some status') =
        base.getCoefficient conf rsu b (some status) := by
  intro h
  simp only [MetadataBase.getCoefficient, Tree.toList_eq_of_getElem? h]

/-- The plans of `HDFS_MetadataBase` share their helpers. -/
theorem hdfs_sharesHelpers {conf : RepairConfig} {base base' : MetadataBase} {s lost : List Str}
    {ip : Str → Nat} {status : Status} {blkName : Str} {requestorIP : Nat} {plan : Plan}
    (hk : 1 ≤ conf.ecK) (hbase : base.HoldsStripe conf.toConfig s ip)
    (hstatus : IsStatus status s lost) (hb : blkName ∈ lost) :
    Hdfs.getStripeBlksMul conf base blkName requestorIP status = some (plan, base') →
      ∃ vec, vec.length = conf.ecK ∧ SharesHelpers plan conf.ecK vec := by
  intro hplan
  obtain ⟨setVal, hset, hsize, hbase', rfl⟩ := hdfs_getStripeBlksMul_cases hbase hstatus hb hplan
  obtain ⟨hlen, hnodes, _⟩ := hset.vec hbase hsize
  refine ⟨setVal.toList, hlen, fun e he => ?_, hnodes, fun hnil => ?_, hlen.ge⟩
  · exact (hdfs_plan_entry hbase' hstatus hb
      (TreeMap.mem_toList_iff_getElem?_eq_some.1 he)).1
  · rw [hnil, List.length_nil] at hlen
    omega

/-- So do those of `HDFS3_MetadataBase`. -/
theorem hdfs3_sharesHelpers {conf : RepairConfig} {base : MetadataBase} {s lost : List Str}
    {ip : Str → Nat} {status : Status} {blkName : Str} {requestorIP : Nat} {plan : Plan}
    (hk : 1 ≤ conf.ecK) (hbase : base.HoldsStripe conf.toConfig s ip)
    (hstatus : IsStatus status s lost) (hb : blkName ∈ lost) (hne : plan.isEmpty = false) :
    Hdfs3.getStripeBlksMul conf base blkName requestorIP status = some plan →
      ∃ vec, vec.length = conf.ecK ∧ SharesHelpers plan conf.ecK vec := by
  intro hplan
  obtain ⟨setVal, hset, hsize, rfl⟩ := hdfs3_getStripeBlksMul_cases hbase hstatus hb hne hplan
  obtain ⟨hlen, hnodes, _⟩ := hset.vec hbase hsize
  refine ⟨setVal.toList, hlen, fun e he => ?_, hnodes, fun hnil => ?_, hlen.ge⟩
  · exact (hdfs3_plan_entry hbase hstatus (TreeMap.mem_toList_iff_getElem?_eq_some.1 he)).1
  · rw [hnil, List.length_nil] at hlen
    omega

namespace PipeMul

section Commands

variable (conf : Config) (rsu : RSUtil) (base : MetadataBase) (status : Status)
  (requestorIP : Nat) (vec : List (Nat × Str))

/-- The command for job `j` of `f` at helper `t`, for the lost block `b`. -/
def jobCmd (b : Str) (f j t : Nat) : PipeMulCmd :=
  { helperCmd requestorIP ∅ b (base.getCoefficient conf rsu b (some (markHelpers status vec))) vec
      vec.length ∅ t with
    jobInd := f - j
    jobNum := f }

variable {vec}

/-- What the loop does at the first `m` of the `q` helpers, when each of these has `n` jobs left. -/
theorem helperStep_foldl (ip : Nat) (numOfJobs : TreeMap Nat Int) (b : Str)
    (coef : TreeMap Str GF256) {s : HandlerState} {n : Int} {m q : Nat} (hnodes : (vec.map Prod.fst).Nodup)
    (hq : q ≤ vec.length) :
    m ≤ q → (∀ t < q, s.indOfJobs.getD (vec.getD t (0, [])).1 0 = n) →
      let st' := (List.range m).foldl
        (helperStep ip numOfJobs b coef vec vec.length) s
      st'.status = s.status ∧
      st'.cmds = s.cmds ++ (List.range m).map (fun t => ((vec.getD t (0, [])).1,
        { helperCmd ip numOfJobs b coef vec vec.length ∅ t with jobInd := n })) ∧
      ∀ t < q, st'.indOfJobs.getD (vec.getD t (0, [])).1 0 = if t < m then n - 1 else n := by
  intro hm hn
  induction m with
  | zero =>
      simp only [List.range_zero, List.foldl_nil, List.map_nil, List.append_nil, Nat.not_lt_zero,
        if_false, true_and]
      exact hn
  | succ m ih =>
      obtain ⟨hstatus, hcmds, hind⟩ := ih (Nat.le_of_succ_le hm)
      have hhead := hind m hm
      rw [if_neg (Nat.lt_irrefl m)] at hhead
      simp only [List.range_succ, List.foldl_append, List.foldl_cons, List.foldl_nil,
        List.map_append, List.map_cons, List.map_nil]
      refine ⟨hstatus, ?_, fun t ht => ?_⟩
      · rw [helperStep, hcmds, List.append_assoc, helperCmd, hhead]
        rfl
      · rw [helperStep, TreeMap.getD_insert, hhead]
        have hmq : m < vec.length := Nat.lt_of_lt_of_le hm hq
        have htq : t < vec.length := Nat.lt_of_lt_of_le ht hq
        by_cases htm : m = t
        · subst htm
          simp
        · rw [if_neg fun hc => htm ((node_inj hnodes hmq htq).1
            (LawfulEqCmp.compare_eq_iff_eq.1 hc)), hind t ht]
          by_cases hlt : t < m
          · rw [if_pos hlt, if_pos (Nat.lt_succ_of_lt hlt)]
          · rw [if_neg hlt, if_neg (by omega)]

/-- What the loop over the plan adds to the commands, from job `j` of `f` on. -/
theorem stripeStep_foldl {numOfJobs : TreeMap Nat Int} {f : Nat}
    (hnodes : (vec.map Prod.fst).Nodup)
    (hnum : ∀ t < vec.length, numOfJobs.getD (vec.getD t (0, [])).1 0 = f)
    {l : List (Nat × Str × List (Nat × Str))} (st : HandlerState) (j : Nat) :
    (∀ e ∈ l, e.2.2 = vec) →
    (∀ b : Str, (markHelpers st.status vec)[b]? = (markHelpers status vec)[b]?) →
    (∀ t < vec.length &&& 0xff, st.indOfJobs.getD (vec.getD t (0, [])).1 0 = f - j) →
      (l.foldl (stripeStep conf rsu base requestorIP numOfJobs) st).cmds =
        st.cmds ++ (l.zipIdx j).flatMap fun p =>
          (List.range (vec.length &&& 0xff)).map fun t => ((vec.getD t (0, [])).1,
            jobCmd conf rsu base status requestorIP vec p.1.2.1 f p.2 t) := by
  intro hl hstatus hind
  induction l generalizing st j with
  | nil =>
      simp
  | cons e l ih =>
      have he : e.2.2 = vec := hl e (by simp)
      have hq : vec.length &&& 0xff ≤ vec.length := Nat.and_le_left
      have hcoef := getCoefficient_congr conf rsu base e.2.1 hstatus
      obtain ⟨hstatus', hcmds, hind'⟩ := helperStep_foldl requestorIP numOfJobs e.2.1
        (base.getCoefficient conf rsu e.2.1 (some (markHelpers status vec)))
        (s := { st with status := markHelpers st.status vec }) hnodes hq (Nat.le_refl _) hind
      have hstep : stripeStep conf rsu base requestorIP numOfJobs st e =
          (List.range (vec.length &&& 0xff)).foldl
            (helperStep requestorIP numOfJobs e.2.1
              (base.getCoefficient conf rsu e.2.1 (some (markHelpers status vec))) vec vec.length)
            { st with status := markHelpers st.status vec } := by
        rw [← hcoef, stripeStep, he]
      rw [List.foldl_cons, hstep, ih _ (j + 1) (fun e' he' => hl e' (by simp [he']))]
      · rw [hcmds, List.zipIdx_cons, List.flatMap_cons, List.append_assoc]
        congr 2
        refine List.map_congr_left fun t ht => ?_
        rw [jobCmd, helperCmd, helperCmd,
          hnum t (Nat.lt_of_lt_of_le (List.mem_range.1 ht) hq)]
      · intro b
        rw [hstatus']
        exact getElem?_markHelpers_twice hstatus b
      · intro t ht
        rw [hind' t ht, if_pos ht]
        omega

variable {conf rsu base status requestorIP}

/-- The names of the lost blocks, in the order of the plan. -/
def lostBlkNames (stripes : Plan) : List Str :=
  stripes.toList.map fun e => e.2.1

theorem requestHandler_eq {stripes : Plan} (h : SharesHelpers stripes conf.ecK vec) :
    requestHandler conf rsu base status requestorIP stripes =
      (lostBlkNames stripes).zipIdx.flatMap fun p =>
        (List.range (vec.length &&& 0xff)).map fun t => ((vec.getD t (0, [])).1,
          jobCmd conf rsu base status requestorIP vec p.1 (lostBlkNames stripes).length p.2 t) := by
  obtain ⟨hflag, hnum⟩ := outputStripeMul_shared h
  have hlen : (lostBlkNames stripes).length = stripes.toList.length := List.length_map _
  have hnum' : ∀ t < vec.length, (outputStripeMul conf.ecK stripes).2.getD
      (vec.getD t (0, [])).1 0 = (stripes.toList.length : Int) := by
    intro t ht
    refine hnum _ (List.mem_map.2 ⟨vec.getD t (0, []), ?_, rfl⟩)
    rw [List.getD_eq_getElem _ _ ht]
    exact List.getElem_mem ht
  have hloop := stripeStep_foldl conf rsu base status requestorIP h.nodes hnum'
    { status := status, indOfJobs := (outputStripeMul conf.ecK stripes).2, cmds := [] } 0
    h.shared (fun _ => rfl) fun t ht => by
      rw [hnum' t (Nat.lt_of_lt_of_le ht Nat.and_le_left)]
      simp
  rw [requestHandler, hflag, if_neg (by simp), hloop, List.nil_append, hlen, lostBlkNames,
    List.zipIdx_map, List.flatMap_map]
  rfl

/-- A helper gets one command for each lost block, numbered downwards. -/
theorem drCmds_eq {stripes : Plan} (h : SharesHelpers stripes conf.ecK vec) {t : Nat} :
    t < vec.length &&& 0xff →
      drCmds (requestHandler conf rsu base status requestorIP stripes) (vec.getD t (0, [])).1 =
        (lostBlkNames stripes).zipIdx.map fun p =>
          jobCmd conf rsu base status requestorIP vec p.1 (lostBlkNames stripes).length p.2 t := by
  intro ht
  have hq : vec.length &&& 0xff ≤ vec.length := Nat.and_le_left
  -- of the commands for one entry, one is for this node
  have hone : ∀ (q : Nat), q ≤ vec.length → ∀ g : Nat → PipeMulCmd,
      ((List.range q).map fun u => ((vec.getD u (0, [])).1, g u)).filter
        (fun c => c.1 = (vec.getD t (0, [])).1) =
      if t < q then [((vec.getD t (0, [])).1, g t)] else [] := by
    intro q hqv g
    induction q with
    | zero =>
        simp
    | succ q ih =>
        have hinj := node_inj h.nodes (Nat.lt_of_lt_of_le (Nat.lt_succ_self q) hqv)
          (Nat.lt_of_lt_of_le ht hq)
        rw [List.range_succ, List.map_append, List.filter_append, ih (Nat.le_of_succ_le hqv)]
        by_cases hqt : q = t
        · subst hqt
          simp
        · have hne : ¬ (vec.getD q (0, [])).1 = (vec.getD t (0, [])).1 := mt hinj.1 hqt
          have hlt : t < q + 1 ↔ t < q := by omega
          simp only [List.map_cons, List.map_nil, List.filter_cons, hne, decide_false,
            List.filter_nil, List.append_nil, Bool.false_eq_true, if_false, hlt]
  rw [drCmds, requestHandler_eq h, List.filter_flatMap, List.map_flatMap]
  simp only [hone _ hq, ht, if_true, List.map_cons, List.map_nil]
  rw [← List.map_eq_flatMap]

theorem drCmds_eq_nil {stripes : Plan} (h : SharesHelpers stripes conf.ecK vec) {ip : Nat} :
    (∀ t < vec.length &&& 0xff, (vec.getD t (0, [])).1 ≠ ip) →
      drCmds (requestHandler conf rsu base status requestorIP stripes) ip = [] := by
  intro hip
  rw [drCmds, List.map_eq_nil_iff, List.filter_eq_nil_iff, requestHandler_eq h]
  intro c hc
  obtain ⟨p, _, hp⟩ := List.mem_flatMap.1 hc
  obtain ⟨t, ht, rfl⟩ := List.mem_map.1 hp
  simpa using hip t (List.mem_range.1 ht)

end Commands

end PipeMul

end CoRD
