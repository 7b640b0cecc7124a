import CoRD.Util.Collect
import CoRD.Repair.PipeMulCoordinator

/-!
# JobBatch — the jobs of a request at a helper

A `PipeMulDRWorker` pushes the job of each command it pops on a vector of its own.  The commands of
one request come to a helper numbered downwards; the worker clears the vector at the first of them
and runs it as one batch at the last.  `CyclMulFRWorker` collects its jobs in the same way.

A helper runs `helper.worker.thread.num` workers on one `dr_cmds` list.  Each of them has a vector
of its own, so a request of several jobs stays together only if one worker pops them all.
-/

namespace CoRD

open Std

/-- `PipeMulDRWorker::PipeMulJob`. -/
structure PipeMulJob where
  ecK : Nat
  reqIP : Nat
  prevIP : Nat
  nextIP : Nat
  id : Nat
  coefficient : GF256
  lostBlkName : Str
  localBlkName : Str
  deriving DecidableEq

/-- The job of a command. -/
def PipeMulCmd.job (c : PipeMulCmd) : PipeMulJob where
  ecK := c.ecK
  reqIP := c.requestorIP
  prevIP := c.prevIP
  nextIP := c.nextIP
  id := c.id
  coefficient := c.coefficient
  lostBlkName := c.lostBlkName
  localBlkName := c.localBlkName

/-- What `doProcess` does with its vector on a command. -/
def pushJob (pipeMulJobs : List PipeMulJob) (c : PipeMulCmd) : List PipeMulJob :=
  (if c.jobInd = c.jobNum then [] else pipeMulJobs) ++ [c.job]

/-- The loop of `doProcess` is the loop of a collecting worker. -/
theorem pushJob_eq_take :
    pushJob = Collect.take PipeMulCmd.jobInd PipeMulCmd.jobNum PipeMulCmd.job :=
  rfl

/-! ## The commands of several requests at one helper -/

/-- A request, with the state of the coordinator when it is handled. -/
structure PipeMulRequest (conf : Config) where
  base : MetadataBase
  status : Status
  requestorIP : Nat
  stripes : Plan
  vec : List (Nat × Str)
  shares : SharesHelpers stripes conf.ecK vec

section Node

variable {conf : Config} (rsu : RSUtil) (ip : Nat)

/-- The commands of a request for the node. -/
def PipeMulRequest.cmds (r : PipeMulRequest conf) : List PipeMulCmd :=
  drCmds (PipeMul.requestHandler conf rsu r.base r.status r.requestorIP r.stripes) ip

/-- The commands of each request that has some for the node. -/
def requestCmds (reqs : List (PipeMulRequest conf)) : List (List PipeMulCmd) :=
  (reqs.map fun r => r.cmds rsu ip).filter (· ≠ [])

theorem PipeMulRequest.cmds_numbered (r : PipeMulRequest conf) :
    Collect.Numbered PipeMulCmd.jobInd PipeMulCmd.jobNum (r.cmds rsu ip) := by
  by_cases hip : ∀ t < r.vec.length &&& 0xff, (r.vec.getD t (0, [])).1 ≠ ip
  · rw [cmds, PipeMul.drCmds_eq_nil r.shares hip]
    intro pre c post hnil
    simp at hnil
  · push Not at hip
    obtain ⟨t, ht, rfl⟩ := hip
    rw [cmds, PipeMul.drCmds_eq r.shares ht]
    refine Collect.numbered_of_getElem fun i hi => ?_
    simp [PipeMul.jobCmd]

end Node

/-- The commands of each request at a helper are executed once, together, by one worker, in every
order in which its workers may pop them: just when there is one worker, or no request has two jobs
for the helper. -/
theorem jobs_batched_once_iff (conf : Config) (rsu : RSUtil) (W : Nat) (hW : 1 ≤ W)
    (reqs : List (PipeMulRequest conf)) (ip : Nat) :
    (∀ s : Collect.State PipeMulCmd PipeMulJob W,
      Collect.Runs PipeMulCmd.jobInd PipeMulCmd.jobNum PipeMulCmd.job
        (Collect.State.init W (reqs.flatMap fun r => r.cmds rsu ip)) s →
      Collect.BatchedOnce PipeMulCmd.job (requestCmds rsu ip reqs) s) ↔
        W = 1 ∨ ∀ r ∈ reqs, (r.cmds rsu ip).length ≤ 1 := by
  have hgroups : ∀ g ∈ requestCmds rsu ip reqs,
      Collect.Numbered PipeMulCmd.jobInd PipeMulCmd.jobNum g ∧ g ≠ [] := by
    intro g hg
    obtain ⟨hmem, hne⟩ := List.mem_filter.1 hg
    obtain ⟨r, _, rfl⟩ := List.mem_map.1 hmem
    exact ⟨r.cmds_numbered rsu ip, by simpa using hne⟩
  have hflat : (reqs.flatMap fun r => r.cmds rsu ip) = (requestCmds rsu ip reqs).flatten := by
    rw [requestCmds, List.flatten_filter_ne_nil, List.flatMap]
  rw [hflat, Collect.batchedOnce_iff PipeMulCmd.job hgroups hW]
  refine or_congr Iff.rfl ⟨fun h r hr => ?_, fun h g hg => ?_⟩
  · by_cases hnil : r.cmds rsu ip = []
    · simp [hnil]
    · exact h _ (List.mem_filter.2 ⟨List.mem_map.2 ⟨r, hr, rfl⟩, by simpa using hnil⟩)
  · obtain ⟨r, hr, rfl⟩ := List.mem_map.1 (List.mem_filter.1 hg).1
    exact h r hr

/-! Two of three copies are lost, and the node of the third repairs both. -/

/-- The lost copies. -/
def mirrorLost : List Str :=
  [xorLost, xorStripe.getD 2 []]

/-- The request of the node of the first lost copy. -/
theorem mirror_request : ∃ r : PipeMulRequest mirrorConf.toConfig,
    hdfsMetadataBase mirrorConf xorRSUtil xorDir xorInit = some r.base ∧
    Hdfs.getStripeBlksMul mirrorConf r.base xorLost r.requestorIP r.status =
      some (r.stripes, r.base) ∧
    2 ≤ (r.cmds xorRSUtil (r.vec.getD 0 (0, [])).1).length := by
  have hb : xorLost ∈ mirrorLost := by simp [mirrorLost]
  obtain ⟨base, hload⟩ := xor_load mirrorConf xorRSUtil (by decide) mirror_isStore
  have hbase := hdfs_holdsStripe (by decide) (by decide) mirror_isStore (by simp)
    xorInit_reported hload
  have hstatus : IsStatus (requestStatus (base.stripeBlks xorLost) mirrorLost) xorStripe
      mirrorLost := requestStatus_isStatus xorLost hbase (by decide) (by decide) (by decide)
  obtain ⟨plan, hplan⟩ := hdfs_getStripeBlksMul_returns (xorIp xorLost) hbase hstatus hb rfl
    (by unfold EnoughHelpers; decide)
  obtain ⟨vec, hvec, hshares⟩ := hdfs_sharesHelpers (by decide) hbase hstatus hb hplan
  refine ⟨⟨base, _, xorIp xorLost, plan, vec, hshares⟩, hload, hplan, ?_⟩
  -- both lost copies have an entry
  have hnames : ∀ c ∈ mirrorLost, c ∈ PipeMul.lostBlkNames plan := by
    obtain ⟨setVal, _, _, hbase', rfl⟩ := hdfs_getStripeBlksMul_cases hbase hstatus hb hplan
    intro c hc
    obtain ⟨a, ⟨v, hv⟩, _⟩ := ((hdfs_planKeys_iff (xorIp xorLost) setVal.toList hbase' hstatus
      hb).2 (by decide)).entry c hc
    exact List.mem_map.2 ⟨(a, c, v), TreeMap.mem_toList_iff_getElem?_eq_some.2 hv, rfl⟩
  have hlen : mirrorLost.length ≤ (PipeMul.lostBlkNames plan).length :=
    (List.subperm_of_subset (by decide) hnames).length_le
  have hlow : 0 < vec.length &&& 0xff := by
    rw [hvec]
    decide
  rw [PipeMulRequest.cmds, PipeMul.drCmds_eq hshares hlow, List.length_map, List.length_zipIdx]
  exact hlen

/-- With two workers one of them can run the second job without the first. -/
theorem jobs_split_two_workers : ∃ r : PipeMulRequest mirrorConf.toConfig,
    hdfsMetadataBase mirrorConf xorRSUtil xorDir xorInit = some r.base ∧
    Hdfs.getStripeBlksMul mirrorConf r.base xorLost r.requestorIP r.status =
      some (r.stripes, r.base) ∧
    ∃ ip, ∃ s : Collect.State PipeMulCmd PipeMulJob 2,
      Collect.Runs PipeMulCmd.jobInd PipeMulCmd.jobNum PipeMulCmd.job
        (Collect.State.init 2 (r.cmds xorRSUtil ip)) s ∧ s.queue = [] ∧
      ¬ Collect.BatchedOnce PipeMulCmd.job [r.cmds xorRSUtil ip] s := by
  obtain ⟨r, hload, hplan, hlen⟩ := mirror_request
  have hgroups : ∀ g ∈ [r.cmds xorRSUtil (r.vec.getD 0 (0, [])).1],
      Collect.Numbered PipeMulCmd.jobInd PipeMulCmd.jobNum g ∧ g ≠ [] := by
    intro g hg
    obtain rfl := List.mem_singleton.1 hg
    refine ⟨r.cmds_numbered xorRSUtil _, fun hnil => ?_⟩
    rw [hnil] at hlen
    simp at hlen
  obtain ⟨s, hruns, hqueue, hbroken⟩ := Collect.exists_broken PipeMulCmd.job hgroups
    (List.mem_singleton.2 rfl) hlen (Nat.lt_succ_self 1)
  refine ⟨r, hload, hplan, _, s, ?_, hqueue, fun h => hbroken (h.complete hqueue)⟩
  simpa using hruns

/-- One worker runs both jobs as one batch, in every order of steps. -/
theorem jobs_batched_once_mirror : ∃ r : PipeMulRequest mirrorConf.toConfig,
    hdfsMetadataBase mirrorConf xorRSUtil xorDir xorInit = some r.base ∧
    ∀ ip, ∀ s : Collect.State PipeMulCmd PipeMulJob 1,
      Collect.Runs PipeMulCmd.jobInd PipeMulCmd.jobNum PipeMulCmd.job
        (Collect.State.init 1 ([r].flatMap fun r => r.cmds xorRSUtil ip)) s →
      Collect.BatchedOnce PipeMulCmd.job (requestCmds xorRSUtil ip [r]) s := by
  obtain ⟨r, hload, _⟩ := mirror_request
  exact ⟨r, hload, fun ip => (jobs_batched_once_iff mirrorConf.toConfig xorRSUtil 1 (Nat.le_refl 1)
    [r] ip).2 (Or.inl rfl)⟩

end CoRD
