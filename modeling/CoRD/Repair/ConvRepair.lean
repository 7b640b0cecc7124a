import CoRD.Network.Server
import CoRD.Repair.ConvHelper
import CoRD.Repair.ConvProgress
import CoRD.Repair.PlanRejection
import CoRD.Util.Checked

/-!
# ConvRepair — conventional repairs, from the commands to the packets of the lost blocks

`ConvCoordinator` has one command for each helper and one for the requestor.  A helper leaves the
packets of its block at the requestor, in a list named after the requested file; the requestor pulls
them from lists named after one of its jobs.  Where these names are the same, the workers of any
number of repairs come to an end, with all packets of all lost blocks.
-/

namespace CoRD

namespace ConvDR

open Lists (Event)

/-! ## Workers and repairs -/

/-- A worker has the threads of a helper or those of a requestor. -/
structure Worker where
  helper : Helper
  requestor : State

/-- A step of the worker at `localIP` with a command. -/
def WorkerStep (conf : PacketConfig) (blkDir : Str → Buf) (localIP : Nat) :
    ConvCmd → Worker → Event Nat ListKey Msg → Worker → Prop
  | .helper ecK requestorIP coefficient _ id lostBlkName localBlkName, w, e, w' =>
      0 < coefficient ∧ ∃ s, HelperStep conf blkDir ecK requestorIP id lostBlkName localBlkName
        w.helper e s ∧ w' = { w with helper := s }
  | .requestor ecK _ _ _ _ jobs, w, e, w' =>
      ∃ s, Step conf localIP ecK jobs w.requestor e s ∧ w' = { w with requestor := s }

/-- The threads for a command have returned. -/
def WorkerDone (conf : PacketConfig) : ConvCmd → Worker → Prop
  | .helper .., w => HelperDone conf w.helper
  | .requestor ecK .., w => RequestorDone conf ecK w.requestor

/-- No step with a command is at the lists of commands. -/
theorem WorkerStep.off {conf : PacketConfig} {blkDir : Str → Buf} {host : Nat} {c : ConvCmd}
    {w w' : Worker} {e : Event Nat ListKey Msg} :
    WorkerStep conf blkDir host c w e w' → e.Off ListKey.drCmds := by
  intro hstep
  cases c with
  | helper ecK requestorIP coefficient next id lostBlkName localBlkName =>
      rcases hstep with ⟨-, h, hstep, -⟩
      cases hstep with
      | send hwait hlt hlog =>
          show sendKey ecK id lostBlkName ≠ .drCmds
          unfold sendKey
          split <;> exact fun heq => nomatch heq
      | read hstored hlt hlog => trivial
      | flag hstored => trivial
      | complete hid hlt hflag => trivial
  | requestor ecK requestorIP id ips lostBlkName jobs =>
      rcases hstep with ⟨q, hstep, -⟩
      cases hstep with
      | pull hjob hid hplace hlt => exact fun heq => nomatch heq
      | send hjob hpkt hlt hlog => exact fun heq => nomatch heq
      | store hid hplace => trivial
      | count hid hplace => trivial
      | wake hplace hpkt hlt => trivial
      | combine hplace hid hjob => trivial
      | notify hplace => trivial

/-- The workers: each takes its commands one after the other. -/
def workers (conf : PacketConfig) (blkDir : Str → Buf) :
    Lists.Jobs ConvCmd Worker Nat ListKey Msg where
  step := WorkerStep conf blkDir
  init := ⟨Helper.init, State.init⟩
  Done := WorkerDone conf
  queue := .drCmds
  msg := .cmd

/-- What `ConvCoordinator` sends for a request; the requestor pulls under the name that the helpers
push under. -/
structure Repair (ecK : Nat) where
  requestorIP : Nat
  filename : Str
  stripe : List (Nat × Str)
  jobs : List ConvMulJob
  helpers : List (Nat × ConvCmd)
  sends : Conv.helperCmds ecK requestorIP filename stripe = some helpers
  named : (reqJob requestorIP jobs).map ConvMulJob.lostBlkName = some filename

/-- The commands of a repair. -/
def Repair.cmds {ecK : Nat} (r : Repair ecK) : List (Nat × ConvCmd) :=
  r.helpers ++ [(r.requestorIP,
    .requestor ecK r.requestorIP ecK (r.helpers.map Prod.fst) r.filename r.jobs)]

/-- The lost blocks. -/
def Repair.names {ecK : Nat} (r : Repair ecK) : List Str :=
  r.jobs.map ConvMulJob.lostBlkName

/-- A packet of a helper. -/
def Repair.pkts {ecK : Nat} (conf : PacketConfig) (blkDir : Str → Buf) (r : Repair ecK)
    (id p : Nat) : Msg :=
  conf.packet (blkDir (r.stripe.getD id (0, [])).2) p

/-- A packet of a lost block, as the requestor combines it. -/
def Repair.packet {ecK : Nat} (conf : PacketConfig) (blkDir : Str → Buf) (r : Repair ecK)
    (job : ConvMulJob) (p : Nat) : Msg :=
  ConvDR.packet conf (combination conf (r.pkts conf blkDir) job.coefs p ecK)

/-- The commands of several repairs, in the order in which they are sent. -/
def cmds {ecK : Nat} (batch : List (Repair ecK)) : List (Nat × ConvCmd) :=
  batch.flatMap Repair.cmds

/-- Before the workers have taken their commands. -/
def start {ecK : Nat} (conf : PacketConfig) (blkDir : Str → Buf) (batch : List (Repair ecK)) :
    Lists.State (workers conf blkDir).servers :=
  (workers conf blkDir).serversStart (cmds batch)

/-- The steps that a command takes. -/
def steps (conf : PacketConfig) : ConvCmd → Nat
  | .helper .. => 4 * conf.packetCnt
  | .requestor ecK _ _ _ _ jobs => ecK * (3 * conf.packetCnt) +
      conf.packetCnt * (1 + jobs.length * (ecK + 1)) + conf.packetCnt * jobs.length

/-- The steps that the commands take. -/
def stepsAt (conf : PacketConfig) (cmds : List (Nat × ConvCmd)) (i : Nat) : Nat :=
  (cmds[i]?.map fun c => steps conf c.2).getD 0

/-- The requested file of a command, and its number in the repair. -/
def part : ConvCmd → Str × Nat
  | .helper _ _ _ _ id lostBlkName _ => (lostBlkName, id)
  | .requestor _ _ id _ lostBlkName _ => (lostBlkName, id)

section Repair

variable {ecK : Nat} {r r' : Repair ecK} {batch : List (Repair ecK)}

/-- The command of a helper. -/
theorem getElem?_helperCmds {requestorIP : Nat} {filename : Str} {stripe : List (Nat × Str)}
    {helpers : List (Nat × ConvCmd)} {id : Nat} (hid : id < ecK) :
    Conv.helperCmds ecK requestorIP filename stripe = some helpers →
      ∃ helper next, stripe[id]? = some helper ∧
        helpers[id]? = some (helper.1, .helper ecK requestorIP 1 next id filename helper.2) := by
  intro hsends
  have hmap := congrArg (fun l => l[id]?) (Checked.map_eq_of_mapM hsends)
  simp only [List.getElem?_map, List.getElem?_range hid, Option.map_some] at hmap
  rcases Option.map_eq_some_iff.1 hmap.symm with ⟨c, hc, hcmd⟩
  rcases Option.bind_eq_some_iff.1 hcmd.symm with ⟨helper, hhelper, hrest⟩
  have hnext : ∃ next : Nat × Str, some (helper.1,
      ConvCmd.helper ecK requestorIP 1 next.1 id filename helper.2) = some c := by
    split at hrest
    · rcases Option.bind_eq_some_iff.1 hrest with ⟨next, -, heq⟩
      exact ⟨next, heq⟩
    · rcases Option.bind_eq_some_iff.1 hrest with ⟨next, -, heq⟩
      exact ⟨next, heq⟩
  rcases hnext with ⟨next, heq⟩
  exact ⟨helper, next.1, hhelper, hc.trans heq.symm⟩

theorem length_helperCmds {requestorIP : Nat} {filename : Str} {stripe : List (Nat × Str)}
    {helpers : List (Nat × ConvCmd)} :
    Conv.helperCmds ecK requestorIP filename stripe = some helpers → helpers.length = ecK := by
  intro hsends
  have hmap := congrArg List.length (Checked.map_eq_of_mapM hsends)
  rw [List.length_map, List.length_map, List.length_range] at hmap
  exact hmap.symm

theorem Repair.length_helpers (r : Repair ecK) : r.helpers.length = ecK :=
  length_helperCmds r.sends

theorem Repair.getElem?_helper (r : Repair ecK) {id : Nat} (hid : id < ecK) :
    ∃ host next, r.cmds[id]? = some (host, .helper ecK r.requestorIP 1 next id r.filename
      (r.stripe.getD id (0, [])).2) := by
  rcases getElem?_helperCmds hid r.sends with ⟨helper, next, hhelper, hcmd⟩
  refine ⟨helper.1, next, ?_⟩
  rw [Repair.cmds, List.getElem?_append_left (r.length_helpers.symm ▸ hid), hcmd,
    List.getD_eq_getElem?_getD, hhelper]
  rfl

theorem Repair.getElem?_requestor (r : Repair ecK) :
    r.cmds[ecK]? = some (r.requestorIP,
      .requestor ecK r.requestorIP ecK (r.helpers.map Prod.fst) r.filename r.jobs) := by
  rw [Repair.cmds, List.getElem?_append_right r.length_helpers.le, r.length_helpers, Nat.sub_self]
  rfl

theorem Repair.length_cmds (r : Repair ecK) : r.cmds.length = ecK + 1 := by
  rw [Repair.cmds, List.length_append, r.length_helpers]
  rfl

/-- A repair has one command for each number. -/
theorem Repair.map_part (r : Repair ecK) :
    r.cmds.map (fun c => part c.2) = (List.range (ecK + 1)).map fun id => (r.filename, id) := by
  refine List.ext_getElem? fun i => ?_
  rw [List.getElem?_map, List.getElem?_map]
  rcases Nat.lt_trichotomy i ecK with hlt | rfl | hgt
  · rcases r.getElem?_helper hlt with ⟨host, next, hcmd⟩
    rw [hcmd, List.getElem?_range (Nat.lt_succ_of_lt hlt)]
    rfl
  · rw [r.getElem?_requestor, List.getElem?_range (Nat.lt_succ_self _)]
    rfl
  · rw [List.getElem?_eq_none (r.length_cmds.trans_le hgt),
      List.getElem?_eq_none (by rw [List.length_range]; exact hgt)]
    rfl

theorem Repair.filename_mem (r : Repair ecK) : r.filename ∈ r.names := by
  rcases Option.map_eq_some_iff.1 r.named with ⟨job, hjob, hname⟩
  rw [← hname]
  exact List.mem_map_of_mem (List.mem_of_find?_eq_some hjob)

section Batch

variable (hnodup : (batch.flatMap Repair.names).Nodup)

include hnodup

theorem nodup_filenames : (batch.map Repair.filename).Nodup := by
  refine List.pairwise_map.2 ((List.nodup_flatMap.1 hnodup).2.imp fun {r r'} hdisjoint heq => ?_)
  exact hdisjoint r.filename_mem (heq ▸ r'.filename_mem)

/-- Commands of different repairs have different files, those of one repair different numbers. -/
theorem nodup_part : ((cmds batch).map fun c => part c.2).Nodup := by
  rw [cmds, List.map_flatMap]
  simp only [Repair.map_part]
  refine List.nodup_flatMap.2 ⟨fun r _ => ?_, ?_⟩
  · exact List.nodup_range.map fun _ _ heq => congrArg Prod.snd heq
  · refine (List.pairwise_map.1 (nodup_filenames hnodup)).imp fun {r r'} hne => ?_
    intro q hq hq'
    rcases List.mem_map.1 hq with ⟨id, -, rfl⟩
    rcases List.mem_map.1 hq' with ⟨id', -, heq⟩
    exact hne (congrArg Prod.fst heq).symm

theorem eq_of_part {i i' : Nat} {c c' : Nat × ConvCmd} (hi : (cmds batch)[i]? = some c)
    (hi' : (cmds batch)[i']? = some c') : part c.2 = part c'.2 → i = i' := by
  intro heq
  have hlt : i < ((cmds batch).map fun c => part c.2).length := by
    rw [List.length_map]
    exact (List.getElem?_eq_some_iff.1 hi).1
  refine (List.getElem?_inj hlt (nodup_part hnodup)).1 ?_
  rw [List.getElem?_map, List.getElem?_map, hi, hi', Option.map_some, Option.map_some, heq]

end Batch

/-- Where the commands of a repair are. -/
theorem exists_position (hr : r ∈ batch) :
    ∃ n, ∀ i ≤ ecK, (cmds batch)[n + i]? = r.cmds[i]? := by
  rcases List.append_of_mem hr with ⟨before, after, rfl⟩
  refine ⟨(before.flatMap Repair.cmds).length, fun i hi => ?_⟩
  have hlt : i < r.cmds.length := r.length_cmds.symm ▸ Nat.lt_succ_of_le hi
  rw [cmds, List.flatMap_append, List.flatMap_cons,
    List.getElem?_append_right (Nat.le_add_right _ i), Nat.add_sub_cancel_left,
    List.getElem?_append_left hlt]

/-- What the commands are. -/
theorem cases_of_cmd {c : Nat × ConvCmd} : c ∈ cmds batch → ∃ r ∈ batch,
    (∃ id < ecK, ∃ host next, c = (host, .helper ecK r.requestorIP 1 next id r.filename
      (r.stripe.getD id (0, [])).2)) ∨
    c = (r.requestorIP,
      .requestor ecK r.requestorIP ecK (r.helpers.map Prod.fst) r.filename r.jobs) := by
  intro hc
  rcases List.mem_flatMap.1 hc with ⟨r, hr, hc⟩
  refine ⟨r, hr, ?_⟩
  rcases List.mem_append.1 hc with hhelper | hlast
  · rcases List.getElem_of_mem hhelper with ⟨id, hid, rfl⟩
    have hid' : id < ecK := r.length_helpers ▸ hid
    rcases r.getElem?_helper hid' with ⟨host, next, hcmd⟩
    rw [Repair.cmds, List.getElem?_append_left hid, List.getElem?_eq_getElem hid] at hcmd
    exact Or.inl ⟨id, hid', host, next, Option.some.inj hcmd⟩
  · exact Or.inr (List.mem_singleton.1 hlast)

end Repair

/-! ## Workers that work at the same time -/

section Parties

variable {conf : PacketConfig} {blkDir : Str → Buf} {ecK : Nat} {batch : List (Repair ecK)}
  {tr : List (Nat × Event Nat ListKey Msg)}
  {s : Lists.State ((workers conf blkDir).parties (cmds batch))} {r : Repair ecK} {i : Nat}
  (hruns : Lists.Runs _ ((workers conf blkDir).partiesStart (cmds batch)) tr s)
  (hnodup : (batch.flatMap Repair.names).Nodup)

include hruns

theorem helper_of_party {host requestorIP coefficient next id : Nat}
    {lostBlkName localBlkName : Str}
    (hi : (cmds batch)[i]? = some
      (host, .helper ecK requestorIP coefficient next id lostBlkName localBlkName)) :
    HelperOk conf blkDir ecK requestorIP id lostBlkName localBlkName (Lists.eventsOf i tr)
      (s.loc i).helper := by
  refine helperOk_of_runs ((hruns.toLocal i).map Worker.helper fun w e w' hstep => ?_)
  rcases hstep with ⟨c, hc, hwork⟩
  cases Option.some.inj (hc.symm.trans hi)
  rcases hwork with ⟨-, h, hstep, rfl⟩
  exact hstep

theorem requestor_of_party {host requestorIP id : Nat} {ips : List Nat} {lostBlkName : Str}
    {jobs : List ConvMulJob}
    (hi : (cmds batch)[i]? = some (host, .requestor ecK requestorIP id ips lostBlkName jobs)) :
    Lists.LocalRuns (Step conf host ecK jobs) State.init (Lists.eventsOf i tr)
      (s.loc i).requestor := by
  refine (hruns.toLocal i).map Worker.requestor fun w e w' hstep => ?_
  rcases hstep with ⟨c, hc, hwork⟩
  cases Option.some.inj (hc.symm.trans hi)
  rcases hwork with ⟨q, hstep, rfl⟩
  exact hstep

theorem eventsOf_other : (cmds batch).length ≤ i → Lists.eventsOf i tr = [] := by
  intro hi
  refine (hruns.toLocal i).eq_nil fun w e w' hstep => ?_
  rcases hstep with ⟨c, hc, -⟩
  rw [List.getElem?_eq_none hi] at hc
  cases hc

/-- What a party does is what a helper or a requestor does. -/
theorem cases_of_event {e : Event Nat ListKey Msg} : e ∈ Lists.eventsOf i tr → ∃ r ∈ batch,
    (∃ id < ecK, ∃ host next, (cmds batch)[i]? = some (host, .helper ecK r.requestorIP 1 next id
      r.filename (r.stripe.getD id (0, [])).2)) ∨
    (cmds batch)[i]? = some (r.requestorIP,
      .requestor ecK r.requestorIP ecK (r.helpers.map Prod.fst) r.filename r.jobs) := by
  intro he
  have hlt : i < (cmds batch).length := by
    by_contra hge
    rw [eventsOf_other hruns (not_lt.1 hge)] at he
    exact absurd he List.not_mem_nil
  rcases cases_of_cmd (List.getElem_mem hlt) with ⟨r, hr, ⟨id, hid, host, next, hc⟩ | hc⟩
  · exact ⟨r, hr, Or.inl ⟨id, hid, host, next, by rw [List.getElem?_eq_getElem hlt, hc]⟩⟩
  · exact ⟨r, hr, Or.inr (by rw [List.getElem?_eq_getElem hlt, hc])⟩

/-- A helper pushes to its list at the requestor. -/
theorem push_of_helper {host requestorIP coefficient next id : Nat}
    {lostBlkName localBlkName : Str} {h : Nat} {k : ListKey} {m : Msg}
    (hi : (cmds batch)[i]? = some
      (host, .helper ecK requestorIP coefficient next id lostBlkName localBlkName)) :
    .push h k m ∈ Lists.eventsOf i tr → k = sendKey ecK id lostBlkName := by
  intro he
  have hmem := Lists.mem_pushes.2 he
  rw [(helper_of_party hruns hi).pushes] at hmem
  rcases List.mem_map.1 hmem with ⟨p, -, heq⟩
  cases heq
  rfl

omit hruns in
theorem sendKey_helper {id : Nat} (lostBlkName : Str) : id < ecK →
    sendKey ecK id lostBlkName = .tmpId lostBlkName id :=
  fun hid => if_neg (Nat.ne_of_gt hid)

include hnodup

/-- Who pushes to the list of a helper. -/
theorem producer_of_helper {id j host next : Nat}
    (hj : (cmds batch)[j]? = some (host, .helper ecK r.requestorIP 1 next id r.filename
      (r.stripe.getD id (0, [])).2)) (h : Nat) :
    i ≠ j → Lists.pushed h (.tmpId r.filename id) (Lists.eventsOf i tr) = [] := by
  intro hne
  refine Lists.pushed_eq_nil fun m hm => hne ?_
  rcases cases_of_event hruns hm with ⟨r', -, ⟨id', hid', host', next', hi⟩ | hi⟩
  · have hkey := push_of_helper hruns hi hm
    rw [sendKey_helper _ hid'] at hkey
    injection hkey with hname hnum
    refine eq_of_part hnodup hi hj ?_
    show (r'.filename, id') = (r.filename, id)
    rw [hname, hnum]
  · rcases events_of_runs (requestor_of_party hruns hi) _ hm with ⟨-, job, -, hkey⟩
    cases hkey

/-- Who pops from the list of a helper. -/
theorem consumer_of_helper {id j : Nat}
    (hj : (cmds batch)[j]? = some (r.requestorIP,
      .requestor ecK r.requestorIP ecK (r.helpers.map Prod.fst) r.filename r.jobs)) (h : Nat) :
    i ≠ j → Lists.popped h (.tmpId r.filename id) (Lists.eventsOf i tr) = [] := by
  intro hne
  refine Lists.popped_eq_nil fun m hm => hne ?_
  rcases cases_of_event hruns hm with ⟨r', -, ⟨id', hid', host', next', hi⟩ | hi⟩
  · exact absurd hm ((helper_of_party hruns hi).pops _ _ _)
  · rcases events_of_runs (requestor_of_party hruns hi) _ hm with ⟨-, id', -, hkey⟩
    rcases Option.map_eq_some_iff.1 r'.named with ⟨job, hjob, hname⟩
    rw [pullKey_eq hjob, hname] at hkey
    injection hkey with hname'
    refine eq_of_part hnodup hi hj ?_
    show (r'.filename, ecK) = (r.filename, ecK)
    rw [hname']

/-- What the requestor has pulled from a helper, and what is left there, is what the helper has
sent. -/
theorem link {id i j host next : Nat} (hid : id < ecK)
    (hi : (cmds batch)[i]? = some (host, .helper ecK r.requestorIP 1 next id r.filename
      (r.stripe.getD id (0, [])).2))
    (hj : (cmds batch)[j]? = some (r.requestorIP,
      .requestor ecK r.requestorIP ecK (r.helpers.map Prod.fst) r.filename r.jobs)) :
    Lists.popped r.requestorIP (.tmpId r.filename id) (Lists.eventsOf j tr) ++
        s.lists r.requestorIP (.tmpId r.filename id) =
      (List.range (s.loc i).helper.sent).map (r.pkts conf blkDir id) := by
  have hfifo := hruns.fifo r.requestorIP (.tmpId r.filename id)
  have hpushed : Lists.pushed r.requestorIP (.tmpId r.filename id) (Lists.eventsOf i tr) =
      (List.range (s.loc i).helper.sent).map (r.pkts conf blkDir id) := by
    rw [Lists.pushed_eq_pushes, (helper_of_party hruns hi).pushes, sendKey_helper _ hid,
      List.filter_eq_self.2, List.map_map]
    · rfl
    · intro q hq
      rcases List.mem_map.1 hq with ⟨p, -, rfl⟩
      simp
  rw [Lists.pushed_eq_of_producer fun i' hne =>
      producer_of_helper hruns hnodup hi r.requestorIP hne,
    Lists.popped_eq_of_consumer fun i' hne =>
      consumer_of_helper hruns hnodup hj r.requestorIP hne, hpushed] at hfifo
  exact hfifo

/-- What the requestor pops is what the helpers send. -/
theorem feeds (hr : r ∈ batch) {j : Nat}
    (hj : (cmds batch)[j]? = some (r.requestorIP,
      .requestor ecK r.requestorIP ecK (r.helpers.map Prod.fst) r.filename r.jobs)) :
    Feeds r.requestorIP r.jobs (r.pkts conf blkDir) (Lists.eventsOf j tr) := by
  intro id p m hm
  have hevents := events_of_runs (requestor_of_party hruns hj)
  rcases Option.map_eq_some_iff.1 r.named with ⟨job, hjob, hname⟩
  have hkey : ∀ id, pullKey r.requestorIP r.jobs id = .tmpId r.filename id := by
    intro id
    rw [pullKey_eq hjob, hname]
  rw [popped, hkey] at hm
  have hid : id < ecK := by
    rcases hevents _ (Lists.mem_of_mem_popped (List.mem_of_getElem? hm)) with
      ⟨-, id', hid', heq⟩
    rw [hkey] at heq
    injection heq with _ hnum
    exact hnum ▸ hid'
  rcases exists_position hr with ⟨n, hn⟩
  rcases r.getElem?_helper hid with ⟨host, next, hcmd⟩
  have hlink := link hruns hnodup hid ((hn id hid.le).trans hcmd) hj
  have hprefix := Lists.getElem?_of_isPrefix ⟨_, hlink⟩ hm
  rw [List.getElem?_map, Option.map_eq_some_iff] at hprefix
  rcases hprefix with ⟨q, hq, rfl⟩
  rcases List.getElem?_eq_some_iff.1 hq with ⟨hlt, hget⟩
  rw [List.getElem_range] at hget
  rw [hget]

theorem requestor_spec (hr : r ∈ batch) (hecK : 0 < ecK) {j : Nat}
    (hj : (cmds batch)[j]? = some (r.requestorIP,
      .requestor ecK r.requestorIP ecK (r.helpers.map Prod.fst) r.filename r.jobs)) :
    Requestor conf r.requestorIP ecK r.jobs (r.pkts conf blkDir) (Lists.eventsOf j tr)
      (s.loc j).requestor :=
  requestor_of_runs hecK (requestor_of_party hruns hj) (feeds hruns hnodup hr hj)

theorem eventsOf_length_le (hecK : 0 < ecK) (i : Nat) :
    (Lists.eventsOf i tr).length ≤ stepsAt conf (cmds batch) i := by
  rcases Nat.lt_or_ge i (cmds batch).length with hlt | hge
  · have hget := List.getElem?_eq_getElem hlt
    rw [stepsAt, hget, Option.map_some, Option.getD_some]
    rcases cases_of_cmd (List.getElem_mem hlt) with ⟨r, hr, ⟨id, hid, host, next, hc⟩ | hc⟩
    · rw [hc] at hget ⊢
      exact (helper_of_party hruns hget).length_le
    · rw [hc] at hget ⊢
      rw [length_of_runs hecK (requestor_of_party hruns hget) (feeds hruns hnodup hr hget)]
      exact (requestor_spec hruns hnodup hr hecK hget).rank_le
  · rw [eventsOf_other hruns hge]
    exact Nat.zero_le _

theorem length_le (hecK : 0 < ecK) :
    tr.length ≤ (Finset.range (cmds batch).length).sum (stepsAt conf (cmds batch)) := by
  rw [Lists.length_eq_sum tr (Finset.range (cmds batch).length) fun i hi =>
    eventsOf_other hruns (not_lt.1 fun hlt => hi (Finset.mem_range.2 hlt))]
  exact Finset.sum_le_sum fun i _ => eventsOf_length_le hruns hnodup hecK i

/-- A worker is held up only by the commands before its own. -/
theorem done_of_before (hecK : 0 < ecK) (hlog : conf.packetCnt ≠ 3) {c : Nat × ConvCmd}
    (hc : (cmds batch)[i]? = some c)
    (hbefore : ∀ i' < i, ∀ c', (cmds batch)[i']? = some c' → WorkerDone conf c'.2 (s.loc i')) :
    (∀ e s', Event.Off ListKey.drCmds e → ¬ Lists.Step _ s i e s') →
      WorkerDone conf c.2 (s.loc i) := by
  intro hstuck
  have hnone : ∀ e w, WorkerStep conf blkDir c.1 c.2 (s.loc i) e w →
      ¬ ∀ h k m, e = .pop h k m → ∃ ms, s.lists h k = m :: ms := by
    intro e w hstep hfront
    rcases Lists.Step.of_local (S := (workers conf blkDir).parties (cmds batch))
      ⟨c, hc, hstep⟩ hfront with ⟨s', hs'⟩
    exact hstuck e s' hstep.off hs'
  rcases cases_of_cmd (List.mem_of_getElem? hc) with ⟨r, hr, ⟨id, hid, host, next, rfl⟩ | rfl⟩
  · have hok := helper_of_party hruns hc
    refine hok.done hlog (Nat.ne_of_lt hid) fun e h hstep => ?_
    refine hnone e { s.loc i with helper := h } ⟨Nat.zero_lt_one, h, hstep, rfl⟩ ?_
    rintro h' k m rfl
    cases hstep
  · rcases Option.map_eq_some_iff.1 r.named with ⟨job, hjob, hname⟩
    refine (requestor_spec hruns hnodup hr hecK hc).done hlog hjob (fun e q hpop hstep => ?_)
      fun id hid => ?_
    · exact hnone e { s.loc i with requestor := q } ⟨q, hstep, rfl⟩
        fun h k m heq => absurd heq (hpop h k m)
    · rcases exists_position hr with ⟨n, hn⟩
      rcases r.getElem?_helper hid with ⟨host, next, hcmd⟩
      have hhelper := (hn id hid.le).trans hcmd
      have hpos : i = n + ecK :=
        eq_of_part hnodup hc ((hn ecK (Nat.le_refl _)).trans r.getElem?_requestor) rfl
      have hdone := hbefore (n + id) (hpos ▸ Nat.add_lt_add_left hid n) _ hhelper
      have hlink := link hruns hnodup hid hhelper hc
      rw [show (s.loc (n + id)).helper.sent = conf.packetCnt from hdone.sent] at hlink
      have hkey : pullKey r.requestorIP r.jobs id = .tmpId r.filename id := by
        rw [pullKey_eq hjob, hname]
      rw [popped, hkey]
      -- the list has a packet in front, or all packets have been pulled
      cases hlist : s.lists r.requestorIP (.tmpId r.filename id) with
      | nil =>
          right
          rw [hlist, List.append_nil] at hlink
          rw [hlink, List.length_map, List.length_range]
      | cons m ms =>
          refine Or.inl ⟨m, fun q hstep => ?_⟩
          refine hnone _ { s.loc i with requestor := q } ⟨q, hstep, rfl⟩ fun _ _ _ heq => ?_
          cases heq
          exact ⟨ms, hlist⟩

end Parties

/-! ## Workers that take one command after the other -/

section Workers

variable {conf : PacketConfig} {blkDir : Str → Buf} {ecK : Nat} {batch : List (Repair ecK)}

/-- The workers do what workers that work at the same time can do. -/
theorem exists_parties {tr : List (Nat × Event Nat ListKey Msg)}
    {s : Lists.State (workers conf blkDir).servers}
    (hruns : Lists.Runs _ (start conf blkDir batch) tr s) : ∃ taken finished tr' s',
    Lists.Runs _ ((workers conf blkDir).partiesStart (cmds batch)) tr' s' ∧
    Lists.Jobs.Serves (workers conf blkDir) (cmds batch) taken finished s s' ∧
    Lists.Jobs.SameEvents (workers conf blkDir) (cmds batch) taken finished tr tr' := by
  refine Lists.Jobs.refines (fun c c' heq => ?_)
    (fun host c w e w' (hstep : WorkerStep conf blkDir host c w e w') => hstep.off) hruns
  injection heq

/-- Workers that cannot go on have done all commands. -/
theorem finished_of_stuck (hecK : 0 < ecK) (hlog : conf.packetCnt ≠ 3)
    (hnodup : (batch.flatMap Repair.names).Nodup) {taken finished : Finset Nat}
    {tr' : List (Nat × Event Nat ListKey Msg)} {s : Lists.State (workers conf blkDir).servers}
    {s' : Lists.State ((workers conf blkDir).parties (cmds batch))}
    (hruns' : Lists.Runs _ ((workers conf blkDir).partiesStart (cmds batch)) tr' s')
    (hs : Lists.Jobs.Serves (workers conf blkDir) (cmds batch) taken finished s s') :
    (∀ h e s₁, ¬ Lists.Step _ s h e s₁) → ∀ i < (cmds batch).length, i ∈ finished := by
  intro hstuck
  refine hs.all_finished hstuck (fun i c hc hbefore hparty => ?_)
    (fun host c w e w' (hstep : WorkerStep conf blkDir host c w e w') => hstep.off)
  refine done_of_before hruns' hnodup hecK hlog hc (fun i' hi' c' hc' => ?_) hparty
  exact hs.done i' (hbefore i' hi') c' hc'

section Runs

variable {tr : List (Nat × Event Nat ListKey Msg)} {s : Lists.State (workers conf blkDir).servers}
  {r : Repair ecK} (hecK : 0 < ecK) (hnodup : (batch.flatMap Repair.names).Nodup)
  (hruns : Lists.Runs _ (start conf blkDir batch) tr s)

include hecK hnodup hruns

theorem bounded : tr.length ≤ (Finset.range (cmds batch).length).sum (stepsAt conf (cmds batch)) +
    2 * (cmds batch).length := by
  rcases exists_parties hruns with ⟨taken, finished, tr', s', hruns', hs, hsame⟩
  have hle := length_le hruns' hnodup hecK
  have htaken := Finset.card_le_card hs.range
  have hfinished := Finset.card_le_card hs.subset
  rw [Finset.card_range] at htaken
  have hlength := hsame.length
  omega

variable (hlog : conf.packetCnt ≠ 3) (hstuck : ∀ h e s', ¬ Lists.Step _ s h e s')

include hlog hstuck

end Runs

end Workers

end ConvDR

end CoRD
