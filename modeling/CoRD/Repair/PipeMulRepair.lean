import Mathlib.Data.Nat.Bitwise
import CoRD.Network.Chain
import CoRD.Repair.ECPipeInputStream
import CoRD.Repair.PipeMulHelper

/-!
# PipeMulRepair — a multi-block pipeline from the coordinator to the client

After the coordinator has handled a request, the commands stand in the lists of the helpers, those
for the passive receivers in the lists of the nodes that lost a block, and the client knows from
the reply that each lost block comes from the last helper.  Helpers, passive receivers and client
then work at the same time.  For each lost block the helpers form a chain, and what comes out of it
is the block.

The client forwards all blocks but the first to its own host, in lists named like those of the last
helper; where the client is on the node of the last helper, these are the same lists.
-/

namespace CoRD

namespace PipeMul

open Lists (Event)

/-- `lastHelperStore`: where a lost block is fetched from. -/
def lastHelper (stripes : Plan) (name : Str) : Nat :=
  ((stripes.toList.find? fun e => e.2.1 = name).map fun e =>
    (e.2.2.getD (e.2.2.length - 1) (0, [])).1).getD 0

/-- The passive requests of `requestHandler`, with their nodes. -/
def passiveCmds (stripes : Plan) (requestorIP : Nat) (lostFiles : List Str) :
    List (Nat × PassiveCmd) :=
  if 1 < lostFiles.length then
    (stripes.toList.filter fun e => e.1 ≠ requestorIP).map fun e =>
      (e.1, { prevIP := requestorIP, reqIP := requestorIP, lostBlkName := e.2.1 })
  else []

/-- The parties of a repair: the workers and the passive receivers of all nodes, and the client. -/
inductive Party where
  | worker (ip : Nat)
  | passive (ip : Nat)
  | client
  deriving DecidableEq

section System

variable (pconf : PacketConfig) (blkDir : Str → Buf) {conf : Config} (rsu : RSUtil)
  (r : PipeMulRequest conf) (lostFiles : List Str)

/-- The lost files of the client, as it decodes the reply. -/
def fetches : List (Nat × Str) :=
  lostFiles.map fun b => (lastHelper r.stripes b, b)

/-- A repair after the coordinator has handled the request. -/
def system : Lists.System Party Nat ListKey Msg where
  Loc
    | .worker _ => Worker
    | .passive _ => PassiveState PipeMulCmd
    | .client => Client.State PipeMulCmd
  step
    | .worker ip => Worker.Step pconf blkDir ip
    | .passive ip => PassiveStep pconf ip
    | .client => Client.Step pconf r.requestorIP (fetches r lostFiles)

def start : Lists.State (system pconf blkDir r lostFiles) where
  loc
    | .worker _ => Worker.init
    | .passive _ => PassiveState.waiting
    | .client => Client.State.init
  lists ip
    | .drCmds => (r.cmds rsu ip).map .cmd
    | .drPassive =>
        ((passiveCmds r.stripes r.requestorIP lostFiles).filter fun c => c.1 = ip).map
          fun c => .passive c.2
    | _ => []

end System

/-! ## One request for `k` helpers -/

/-- The request is for the blocks of the plan, and its helpers are counted in one byte. -/
structure ForPlan {conf : Config} (r : PipeMulRequest conf) (lostFiles : List Str) : Prop where
  lost : lostFiles.Perm (lostBlkNames r.stripes)
  nodup : lostFiles.Nodup
  nonempty : lostFiles ≠ []
  max : lostFiles.length ≤ MAX_ECK
  helpers : r.vec.length ≤ 255

section Request

variable {pconf : PacketConfig} {blkDir : Str → Buf} {conf : Config} {rsu : RSUtil}
  {r : PipeMulRequest conf} {lostFiles : List Str}

/-- The node of helper `t`. -/
def node (r : PipeMulRequest conf) (t : Nat) : Nat :=
  (r.vec.getD t (0, [])).1

/-- The block of helper `t`. -/
def blk (r : PipeMulRequest conf) (t : Nat) : Str :=
  (r.vec.getD t (0, [])).2

/-- The coefficient of the block of helper `t` for the lost block `b`. -/
def coefficient (rsu : RSUtil) (r : PipeMulRequest conf) (b : Str) (t : Nat) : GF256 :=
  (r.base.getCoefficient conf rsu b (some (markHelpers r.status r.vec))).getD (blk r t) 0

/-- The command for job `j` at helper `t`. -/
def cmd (rsu : RSUtil) (r : PipeMulRequest conf) (b : Str) (j t : Nat) : PipeMulCmd :=
  jobCmd conf rsu r.base r.status r.requestorIP r.vec b (lostBlkNames r.stripes).length j t

theorem low_byte (h : ForPlan r lostFiles) : r.vec.length &&& 0xff = r.vec.length := by
  have hmod := Nat.and_two_pow_sub_one_eq_mod r.vec.length 8
  rw [show 0xff = 2 ^ 8 - 1 from rfl, hmod]
  exact Nat.mod_eq_of_lt (Nat.lt_of_le_of_lt h.helpers (by decide))

/-- The commands of helper `t`. -/
theorem cmds_node (h : ForPlan r lostFiles) {t : Nat} (ht : t < r.vec.length) :
    r.cmds rsu (node r t) = (lostBlkNames r.stripes).zipIdx.map fun p => cmd rsu r p.1 p.2 t :=
  drCmds_eq r.shares ((low_byte h).symm ▸ ht)

theorem cmds_other (h : ForPlan r lostFiles) {ip : Nat} (hip : ∀ t < r.vec.length, node r t ≠ ip) :
    r.cmds rsu ip = [] :=
  drCmds_eq_nil r.shares fun t ht => hip t ((low_byte h) ▸ ht)

theorem getElem?_cmds (rsu : RSUtil) (h : ForPlan r lostFiles) {t j : Nat} {b : Str} (ht : t < r.vec.length) :
    (lostBlkNames r.stripes)[j]? = some b →
      (r.cmds rsu (node r t))[j]? = some (cmd rsu r b j t) := by
  intro hb
  rw [cmds_node h ht, List.getElem?_map, List.getElem?_zipIdx, hb]
  simp

theorem cmds_isRequest (h : ForPlan r lostFiles) {t : Nat} (ht : t < r.vec.length) :
    IsRequest (r.cmds rsu (node r t)) where
  nonempty := by
    rw [cmds_node h ht]
    intro hnil
    have hlen := congrArg List.length hnil
    rw [List.length_map, List.length_zipIdx, ← h.lost.length_eq] at hlen
    exact h.nonempty (List.eq_nil_of_length_eq_zero hlen)
  max := by
    rw [cmds_node h ht, List.length_map, List.length_zipIdx, ← h.lost.length_eq]
    exact h.max
  numbered := by
    intro n c hc
    have hlen : (r.cmds rsu (node r t)).length = (lostBlkNames r.stripes).length := by
      rw [cmds_node h ht, List.length_map, List.length_zipIdx]
    rw [hlen]
    rw [cmds_node h ht, List.getElem?_map, List.getElem?_zipIdx] at hc
    obtain ⟨p, hp, rfl⟩ := Option.map_eq_some_iff.1 hc
    obtain ⟨b, hb, rfl⟩ := Option.map_eq_some_iff.1 hp
    simp [cmd, jobCmd]
  names := by
    have hnames : (r.cmds rsu (node r t)).map PipeMulCmd.lostBlkName = lostBlkNames r.stripes := by
      rw [cmds_node h ht, List.map_map]
      exact (List.map_congr_left fun p _ => rfl).trans (List.zipIdx_map_fst 0 _)
    rw [hnames]
    exact h.lost.nodup_iff.1 h.nodup

theorem node_eq_iff {t u : Nat} (ht : t < r.vec.length) (hu : u < r.vec.length) :
    node r t = node r u ↔ t = u :=
  node_inj r.shares.nodes ht hu

/-- All helpers but the first get their packets from the one before. -/
theorem prevIP_cmd (rsu : RSUtil) {b : Str} {j t : Nat} (ht : t ≠ 0) :
    (cmd rsu r b j t).prevIP = node r (t - 1) := by
  have hprev : (cmd rsu r b j t).prevIP = (if t = 0 then r.vec.getD (r.vec.length - 1) (0, [])
      else r.vec.getD (t - 1) (0, [])).1 := rfl
  rw [hprev, if_neg ht]
  rfl

/-- The list that helper `t` pushes the packets of `b` to. -/
def outKey (r : PipeMulRequest conf) (b : Str) (t : Nat) : ListKey :=
  if t + 1 = r.vec.length then .blk b else .tmp b

theorem sendKey_cmd (rsu : RSUtil) (h : ForPlan r lostFiles) {b : Str} {j t : Nat} :
    (cmd rsu r b j t).job.sendKey = outKey r b t := by
  have hecK : (cmd rsu r b j t).job.ecK = r.vec.length := rfl
  have hid : (cmd rsu r b j t).job.id = t := rfl
  have hname : (cmd rsu r b j t).job.lostBlkName = b := rfl
  have hflag : r.vec.length &&& 0x100 = 0 := by
    have hlt : r.vec.length < 256 := Nat.lt_of_le_of_lt h.helpers (by decide)
    rw [show 0x100 = 2 ^ 8 from rfl, Nat.and_two_pow, Nat.testBit_eq_false_of_lt hlt]
    rfl
  have hrequestor : r.vec.length ≠ 0x010000 := by
    have hlt := h.helpers
    omega
  rw [PipeMulJob.sendKey, hecK, hid, hname, outKey]
  simp [hflag, hrequestor]

theorem mem_passiveCmds {ip : Nat} {c : PassiveCmd} :
    (ip, c) ∈ passiveCmds r.stripes r.requestorIP lostFiles →
      1 < lostFiles.length ∧ c.prevIP = r.requestorIP := by
  intro hmem
  unfold passiveCmds at hmem
  split at hmem
  · rename_i hlen
    obtain ⟨e, _, heq⟩ := List.mem_map.1 hmem
    cases heq
    exact ⟨hlen, rfl⟩
  · cases hmem

/-! ## Who uses which list -/

section Run

variable {tr : List (Party × Event Nat ListKey Msg)}
  {s : Lists.State (system pconf blkDir r lostFiles)}
  (hruns : Lists.Runs (system pconf blkDir r lostFiles) (start pconf blkDir rsu r lostFiles) tr s)

include hruns

theorem worker_run (ip : Nat) :
    Lists.LocalRuns (Worker.Step pconf blkDir ip) Worker.init (Lists.eventsOf (.worker ip) tr)
      (s.loc (.worker ip)) :=
  hruns.toLocal (.worker ip)

theorem passive_run (ip : Nat) :
    Lists.LocalRuns (PassiveStep pconf ip) .waiting (Lists.eventsOf (.passive ip) tr)
      (s.loc (.passive ip)) :=
  hruns.toLocal (.passive ip)

theorem client_run :
    Lists.LocalRuns (Client.Step pconf r.requestorIP (fetches r lostFiles)) Client.State.init
      (Lists.eventsOf .client tr) (s.loc .client) :=
  hruns.toLocal .client

/-- Nobody pushes commands any more. -/
theorem pushed_cmds (ip : Nat) : Lists.pushed ip .drCmds (tr.map Prod.snd) = [] ∧
    Lists.pushed ip .drPassive (tr.map Prod.snd) = [] := by
  have hkey : ∀ i h k m, .push h k m ∈ Lists.eventsOf i tr → k ≠ .drCmds ∧ k ≠ .drPassive := by
    intro i h k m hm
    cases i with
    | worker ip' =>
        obtain ⟨-, name, rfl | rfl⟩ := worker_uses (worker_run hruns ip') _ hm <;> simp
    | passive ip' =>
        obtain ⟨name, rfl⟩ := (passive_uses (passive_run hruns ip')).2 _ hm
        simp
    | client =>
        obtain ⟨-, j, ip', name, -, rfl⟩ := Client.uses_of_runs (client_run hruns) _ hm
        simp
  constructor
  · have hnone : ∀ i, Lists.pushed ip .drCmds (Lists.eventsOf i tr) = [] :=
      fun i => Lists.pushed_eq_nil fun m hm => (hkey i _ _ m hm).1 rfl
    rw [Lists.pushed_eq_of_producer fun i _ => hnone i, hnone .client]
  · have hnone : ∀ i, Lists.pushed ip .drPassive (Lists.eventsOf i tr) = [] :=
      fun i => Lists.pushed_eq_nil fun m hm => (hkey i _ _ m hm).2 rfl
    rw [Lists.pushed_eq_of_producer fun i _ => hnone i, hnone .client]

/-- Only the worker of a node pops its commands. -/
theorem popped_drCmds (ip : Nat) {i : Party} (hi : i ≠ .worker ip) :
    Lists.popped ip .drCmds (Lists.eventsOf i tr) = [] := by
  refine Lists.popped_eq_nil fun m hm => ?_
  cases i with
  | worker ip' =>
      rcases worker_uses (worker_run hruns ip') _ hm with ⟨rfl, -⟩ | ⟨name, hk⟩
      · exact hi rfl
      · cases hk
  | passive ip' =>
      rcases (passive_uses (passive_run hruns ip')).2 _ hm with ⟨-, hk⟩ | ⟨c, -, -, hk⟩ <;> cases hk
  | client =>
      obtain ⟨name, -, hk⟩ := Client.uses_of_runs (client_run hruns) _ hm
      cases hk

/-- The worker of a node pops its commands in order. -/
theorem popped_drCmds_isPrefix (ip : Nat) :
    Lists.popped ip .drCmds (Lists.eventsOf (.worker ip) tr) ++ s.lists ip .drCmds =
      (r.cmds rsu ip).map .cmd := by
  have hfifo := hruns.fifo ip .drCmds
  rw [(pushed_cmds hruns ip).1, List.append_nil,
    Lists.popped_eq_of_consumer fun i hi => popped_drCmds hruns ip hi] at hfifo
  exact hfifo

theorem helper (h : ForPlan r lostFiles) (hps : pconf.packetSize % 8 = 0) {t : Nat}
    (ht : t < r.vec.length) :
    Helper pconf blkDir (node r t) (r.cmds rsu (node r t))
      (Lists.eventsOf (.worker (node r t)) tr) (s.loc (.worker (node r t))) :=
  helper_of_runs hps (cmds_isRequest h ht) (worker_run hruns (node r t))
    ⟨_, popped_drCmds_isPrefix hruns (node r t)⟩

/-- Nodes without a helper do nothing. -/
theorem other_events (h : ForPlan r lostFiles) {ip : Nat}
    (hip : ∀ t < r.vec.length, node r t ≠ ip) : Lists.eventsOf (.worker ip) tr = [] := by
  have hprefix := popped_drCmds_isPrefix hruns ip
  rw [cmds_other h hip, List.map_nil, List.append_eq_nil_iff] at hprefix
  exact (events_eq_nil (worker_run hruns ip) hprefix.1).1

/-- A passive receiver that has a command pops on the host of the requestor, and there are other
lost blocks. -/
theorem passive_cmd {ip : Nat} {c : PassiveCmd} :
    .pop ip .drPassive (.passive c) ∈ Lists.eventsOf (.passive ip) tr →
      1 < lostFiles.length ∧ c.prevIP = r.requestorIP := by
  intro hmem
  have hfifo := hruns.fifo ip .drPassive
  rw [(pushed_cmds hruns ip).2, List.append_nil] at hfifo
  have hpopped : .passive c ∈ Lists.popped ip .drPassive (tr.map Prod.snd) :=
    Lists.mem_popped (Lists.mem_of_mem_eventsOf hmem)
  have hsent : .passive c ∈ (start pconf blkDir rsu r lostFiles).lists ip .drPassive := by
    rw [← hfifo]
    exact List.mem_append_left _ hpopped
  obtain ⟨q, hq, heq⟩ := List.mem_map.1 hsent
  cases heq
  exact mem_passiveCmds (List.mem_filter.1 hq).1

/-- The list of a stage belongs to the stages on its two sides. -/
theorem producer {b : Str}
    (hreq : lostFiles.length = 1 ∨ r.requestorIP ≠ node r (r.vec.length - 1)) {t : Nat}
    (ht : t < r.vec.length) {i : Party} (hi : i ≠ .worker (node r t)) :
    Lists.pushed (node r t) (outKey r b t) (Lists.eventsOf i tr) = [] := by
  refine Lists.pushed_eq_nil fun m hm => ?_
  cases i with
  | worker ip =>
      obtain ⟨rfl, -⟩ := worker_uses (worker_run hruns ip) _ hm
      exact hi rfl
  | passive ip =>
      obtain ⟨name, hk⟩ := (passive_uses (passive_run hruns ip)).2 _ hm
      unfold outKey at hk
      split at hk <;> cases hk
  | client =>
      obtain ⟨hip, j, ip, name, hj, hk⟩ := Client.uses_of_runs (client_run hruns) _ hm
      -- a block that is forwarded is not the only one, and it is forwarded to the requestor
      have hlast : t = r.vec.length - 1 := by
        unfold outKey at hk
        split at hk
        · omega
        · cases hk
      subst hlast
      rcases hreq with hone | hne
      · have hlen := (List.getElem?_eq_some_iff.1 hj).1
        rw [fetches, List.length_map] at hlen
        omega
      · exact hne hip.symm

theorem consumer (h : ForPlan r lostFiles) (hps : pconf.packetSize % 8 = 0) {b : Str} {t : Nat}
    (ht : t + 1 < r.vec.length) {i : Party} (hi : i ≠ .worker (node r (t + 1))) :
    Lists.popped (node r t) (outKey r b t) (Lists.eventsOf i tr) = [] := by
  have hkey : outKey r b t = .tmp b := if_neg (Nat.ne_of_lt ht)
  rw [hkey]
  cases i with
  | worker ip =>
      by_cases hip : ∃ u < r.vec.length, node r u = ip
      · obtain ⟨u, hu, rfl⟩ := hip
        refine (helper hruns h hps hu).popped_eq_nil (by simp) fun c hc hsrc => hi ?_
        -- a helper that asks there is the next one
        obtain ⟨hid, hprev, -⟩ := source_eq.1 hsrc
        rw [cmds_node h hu] at hc
        obtain ⟨p, _, rfl⟩ := List.mem_map.1 hc
        have hcmd : (cmd rsu r p.1 p.2 u).prevIP = node r (u - 1) := prevIP_cmd rsu hid
        have hprev' : node r t = node r (u - 1) := hprev.trans hcmd
        have ht' := (node_eq_iff (Nat.lt_of_succ_lt ht) (by omega)).1 hprev'
        have hsucc : t + 1 = u := by
          have hne : u ≠ 0 := hid
          omega
        rw [hsucc]
      · push Not at hip
        rw [other_events hruns h hip]
        rfl
  | passive ip =>
      refine Lists.popped_eq_nil fun m hm => ?_
      rcases (passive_uses (passive_run hruns ip)).2 _ hm with ⟨-, hk⟩ | ⟨c, -, -, hk⟩ <;> cases hk
  | client =>
      refine Lists.popped_eq_nil fun m hm => ?_
      obtain ⟨name, -, hk⟩ := Client.uses_of_runs (client_run hruns) _ hm
      cases hk

/-- The packet of helper `t` for the lost block `b`. -/
def share (pconf : PacketConfig) (blkDir : Str → Buf) (rsu : RSUtil) (r : PipeMulRequest conf)
    (b : Str) (t i : Nat) : Msg :=
  pconf.packet (fun x => coefficient rsu r b t * blkDir (blk r t) x) i

omit hruns in
/-- The sum of the packets of the helpers up to `t`. -/
theorem total_share (b : Str) (t i : Nat) :
    Lists.total pconf.plus (fun u => share pconf blkDir rsu r b u i) t =
      pconf.packet (fun x => ((List.range (t + 1)).map fun u =>
        coefficient rsu r b u * blkDir (blk r u) x).sum) i := by
  induction t with
  | zero =>
      simp [Lists.total, share]
  | succ t ih =>
      rw [Lists.total, ih, share, PacketConfig.plus_packet]
      congr 1
      funext x
      rw [List.range_succ (n := t + 1), List.map_append, List.sum_append, add_comm]
      simp

/-- For each lost block the helpers form a chain. -/
theorem chain (h : ForPlan r lostFiles) (hps : pconf.packetSize % 8 = 0)
    (hreq : lostFiles.length = 1 ∨ r.requestorIP ≠ node r (r.vec.length - 1)) {b : Str}
    (hb : b ∈ lostFiles) :
    Lists.Chain tr r.vec.length (fun t => Party.worker (node r t))
      (fun t => (node r t, outKey r b t)) (share pconf blkDir rsu r b) pconf.plus := by
  obtain ⟨j, hj⟩ := List.getElem?_of_mem (h.lost.mem_iff.1 hb)
  have hpos : 0 < r.vec.length := List.length_pos_of_ne_nil r.shares.nonempty
  have hname : 0 < (lostBlkNames r.stripes).length := by
    have hlt := (List.getElem?_eq_some_iff.1 hj).1
    omega
  -- what each helper pushes for `b`, from the run of its own
  have hpayload : ∀ t < r.vec.length, ∀ i v,
      (Lists.pushed (node r t) (outKey r b t) (Lists.eventsOf (.worker (node r t)) tr))[i]? =
        some v →
      (t = 0 → v = share pconf blkDir rsu r b t i) ∧
        (t ≠ 0 → ∃ m, (Lists.popped (node r (t - 1)) (.tmp b)
          (Lists.eventsOf (.worker (node r t)) tr))[i]? = some m ∧
          v = pconf.plus (share pconf blkDir rsu r b t i) m) := by
    intro t ht i v hv
    have hc := getElem?_cmds rsu h ht hj
    have hc₀ := getElem?_cmds rsu h ht (List.getElem?_eq_getElem hname)
    rw [← sendKey_cmd rsu (j := j) h] at hv
    obtain ⟨hfirst, hnext⟩ := (helper hruns h hps ht).payload (cmds_isRequest h ht) hc hc₀ hv
    refine ⟨hfirst, fun hne => ?_⟩
    rw [← prevIP_cmd rsu (b := b) (j := j) hne]
    exact hnext hne
  constructor
  case fifo =>
    intro t ht
    have hfifo := hruns.fifo (node r t) (outKey r b t)
    have hempty : (start pconf blkDir rsu r lostFiles).lists (node r t) (outKey r b t) = [] := by
      unfold outKey
      split <;> rfl
    rw [hempty, List.nil_append] at hfifo
    exact ⟨_, hfifo⟩
  case producer =>
    intro t ht i hi
    exact producer hruns hreq ht hi
  case consumer =>
    intro t ht i hi
    exact consumer hruns h hps ht hi
  case first =>
    intro i v hv
    exact (hpayload 0 hpos i v hv).1 rfl
  case next =>
    intro t ht i v hv
    have hkey : outKey r b t = .tmp b := if_neg (Nat.ne_of_lt ht)
    simp only [hkey]
    exact (hpayload (t + 1) ht i v hv).2 (Nat.succ_ne_zero t)

/-- Only the client pops the packets of the last helper. -/
theorem popped_last
    (hreq : lostFiles.length = 1 ∨ r.requestorIP ≠ node r (r.vec.length - 1)) (b : Str) {i : Party}
    (hi : i ≠ .client) :
    Lists.popped (node r (r.vec.length - 1)) (.blk b) (Lists.eventsOf i tr) = [] := by
  refine Lists.popped_eq_nil fun m hm => ?_
  cases i with
  | worker ip =>
      rcases worker_uses (worker_run hruns ip) _ hm with ⟨-, hk⟩ | ⟨name, hk⟩ <;> cases hk
  | passive ip =>
      rcases (passive_uses (passive_run hruns ip)).2 _ hm with ⟨-, hk⟩ | ⟨c, hc, hip, -⟩
      · cases hk
      · obtain ⟨hlen, hprev⟩ := passive_cmd hruns hc
        rcases hreq with hone | hne
        · omega
        · exact hne (hip.trans hprev).symm
  | client => exact hi rfl

/-- What the client pops from the last helper is, packet after packet, the sum over the helpers. -/
theorem popped_client (h : ForPlan r lostFiles) (hps : pconf.packetSize % 8 = 0)
    (hreq : lostFiles.length = 1 ∨ r.requestorIP ≠ node r (r.vec.length - 1)) {b : Str}
    (hb : b ∈ lostFiles) {i : Nat} {v : Msg} :
    (Lists.popped (node r (r.vec.length - 1)) (.blk b) (Lists.eventsOf .client tr))[i]? = some v →
      v = pconf.packet (fun x => ((List.range r.vec.length).map fun t =>
        coefficient rsu r b t * blkDir (blk r t) x).sum) i := by
  intro hv
  have hpos : 0 < r.vec.length := List.length_pos_of_ne_nil r.shares.nonempty
  have hsucc : r.vec.length - 1 + 1 = r.vec.length := Nat.sub_add_cancel hpos
  have hkey : outKey r b (r.vec.length - 1) = .blk b := if_pos hsucc
  rw [← Lists.popped_eq_of_consumer fun i hi => popped_last hruns hreq b hi, ← hkey] at hv
  have hall := (chain hruns h hps hreq hb).popped_eq (t := r.vec.length - 1) (by omega) hv
  rw [total_share, hsucc] at hall
  exact hall

/-- A state in which no party can take a step: every helper has run its batch to the end. -/
theorem all_done (h : ForPlan r lostFiles) (hps : pconf.packetSize % 8 = 0)
    (hreq : lostFiles.length = 1 ∨ r.requestorIP ≠ node r (r.vec.length - 1))
    (hthree : pconf.packetCnt ≠ 3)
    (hstuck : ∀ i e s', ¬ Lists.Step (system pconf blkDir r lostFiles) s i e s') {t : Nat} :
    t < r.vec.length →
      HelperDone (node r t) (r.cmds rsu (node r t)) (Lists.eventsOf (.worker (node r t)) tr)
        (s.loc (.worker (node r t))) := by
  induction t using Nat.strong_induction_on with
  | _ t ih =>
      intro ht
      have hpops : ∀ h₀ k m w', Worker.Step pconf blkDir (node r t) (s.loc (.worker (node r t)))
          (.pop h₀ k m) w' → ∀ ms, s.lists h₀ k ≠ m :: ms := by
        intro h₀ k m w' hw
        exact Lists.ne_cons_of_stuck (S := system pconf blkDir r lostFiles) hstuck
          (i := .worker (node r t)) hw
      have hlocal : ∀ e w', (∀ h k m, e ≠ .pop h k m) →
          ¬ Worker.Step pconf blkDir (node r t) (s.loc (.worker (node r t))) e w' := by
        intro e w' he
        exact Lists.not_local_of_stuck (S := system pconf blkDir r lostFiles) hstuck
          (i := .worker (node r t)) he
      rcases (helper hruns h hps ht).done_or_waits hthree (cmds_isRequest h ht) hlocal with
        hdone | ⟨n, c, w', hc, hlen, hw⟩ | ⟨c, hc, hid, hlen, hw⟩
      · exact hdone
      · -- the next command stands in the list
        exfalso
        have hprefix := popped_drCmds_isPrefix hruns (node r t)
        have hnext : ((r.cmds rsu (node r t)).map (fun c => (.cmd c : Msg)))[n]? = some (.cmd c) := by
          rw [List.getElem?_map, hc]
          rfl
        rw [← hprefix, List.getElem?_append_right (Nat.le_of_eq hlen), hlen, Nat.sub_self] at hnext
        cases hlist : s.lists (node r t) .drCmds with
        | nil =>
            rw [hlist] at hnext
            cases hnext
        | cons m ms =>
            rw [hlist] at hnext
            cases hnext
            exact hpops _ _ _ _ hw ms hlist
      · -- the predecessor is done, and has pushed the packet
        exfalso
        rw [cmds_node h ht] at hc
        obtain ⟨⟨b, j⟩, hp, rfl⟩ := List.mem_map.1 hc
        have hne : t ≠ 0 := hid
        have hb : b ∈ lostFiles := by
          refine h.lost.mem_iff.2 ?_
          have hfst := List.mem_map_of_mem (f := Prod.fst) hp
          rwa [List.zipIdx_map_fst] at hfst
        have hprev : t - 1 < r.vec.length := by omega
        have hbefore := ih (t - 1) (by omega) hprev
        have hmem : cmd rsu r b j (t - 1) ∈ r.cmds rsu (node r (t - 1)) := by
          rw [cmds_node h hprev]
          exact List.mem_map.2 ⟨(b, j), hp, rfl⟩
        have hpushed := hbefore.pushed_length (cmds_isRequest h hprev) (helper hruns h hps hprev) hmem
        have hchain := chain hruns h hps hreq hb
        have hkey : outKey r b (t - 1) = .tmp b := if_neg (by omega)
        have hsucc : t - 1 + 1 = t := by omega
        have hconsumer := hchain.consumer (t - 1) (by omega)
        have hfifo := hruns.fifo (node r (t - 1)) (outKey r b (t - 1))
        have hempty : (start pconf blkDir rsu r lostFiles).lists (node r (t - 1)) (.tmp b) = [] :=
          rfl
        rw [hsucc] at hconsumer
        rw [Lists.pushed_eq_of_producer (hchain.producer (t - 1) hprev),
          Lists.popped_eq_of_consumer hconsumer, hkey, hempty, List.nil_append] at hfifo
        rw [sendKey_cmd rsu h, hkey] at hpushed
        have hprevIP : (cmd rsu r b j t).prevIP = node r (t - 1) := prevIP_cmd rsu hne
        rw [hprevIP] at hlen hw
        have hlen' : (Lists.popped (node r (t - 1)) (.tmp b)
            (Lists.eventsOf (.worker (node r t)) tr)).length < pconf.packetCnt := hlen
        cases hlist : s.lists (node r (t - 1)) (.tmp b) with
        | nil =>
            rw [hlist, List.append_nil] at hfifo
            rw [hfifo, hpushed] at hlen'
            exact Nat.lt_irrefl _ hlen'
        | cons m ms =>
            obtain ⟨w', hw'⟩ := hw m
            exact hpops _ _ _ _ hw' ms hlist

end Run

end Request

end PipeMul

end CoRD
