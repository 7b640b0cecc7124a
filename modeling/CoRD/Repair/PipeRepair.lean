import Mathlib.Algebra.BigOperators.Group.Finset.Basic
import Mathlib.Data.Nat.Bitwise
import CoRD.Network.Chain
import CoRD.Repair.ClientFile
import CoRD.Repair.PipeCoordinator
import CoRD.Repair.PipeDRWorker

/-!
# PipeRepair — a single-block pipeline from the coordinator to the client

The commands stand in the lists of the helpers, and the client fetches the lost block from the node
named in the reply.  If the coordinator does not find the requestor among the helpers, the helpers
form a chain in the order of the stripe, and the client gets the lost block from the last of them.

If it does find it, the command of the first helper is built from an entry behind the end of the
stripe.  The helpers are counted in one byte, whole words are xored, and a log divides by the tenth
part of the number of packets, so larger stripes, odd packets and three to nine packets fail, too.
-/

namespace CoRD

open Std

namespace PipeDR

open Lists (Event)

/-- The parties of a repair: the workers of all nodes, and the client. -/
inductive Party where
  | worker (ip : Nat)
  | client
  deriving DecidableEq

section System

variable (conf : PacketConfig) (blkDir : Str → Buf) (requestorIP fetchIP : Nat) (filename : Str)
  (cmds : List (Nat × PipeCmd))

/-- A repair after the coordinator has handled the request. -/
def system : Lists.System Party Nat ListKey Msg where
  Loc
    | .worker _ => Worker
    | .client => Client.State PipeCmd
  step
    | .worker ip => Worker.Step conf blkDir ip
    | .client => Client.Step conf requestorIP [(fetchIP, filename)]

def start : Lists.State (system conf blkDir requestorIP fetchIP filename) where
  loc
    | .worker _ => Worker.init
    | .client => Client.State.init
  lists ip
    | .drCmds => (cmds.filter fun c => c.1 = ip).map fun c => .cmd c.2
    | _ => []

/-- In every order of steps the repair comes to an end, the client takes the packets of `content` in
order, and in the end it has written them all. -/
structure Delivers (content : Buf) : Prop where
  bounded : ∃ n, ∀ tr s, Lists.Runs (system conf blkDir requestorIP fetchIP filename)
    (start conf blkDir requestorIP fetchIP filename cmds) tr s → tr.length ≤ n
  packets : ∀ tr s, Lists.Runs (system conf blkDir requestorIP fetchIP filename)
    (start conf blkDir requestorIP fetchIP filename cmds) tr s → ∃ n ≤ conf.packetCnt,
      Lists.popped fetchIP (.blk filename) (Lists.eventsOf .client tr) =
        (List.range n).map (conf.packet content)
  complete : ∀ tr s, Lists.Runs (system conf blkDir requestorIP fetchIP filename)
    (start conf blkDir requestorIP fetchIP filename cmds) tr s →
      (∀ i e s', ¬ Lists.Step (system conf blkDir requestorIP fetchIP filename) s i e s') →
      (s.loc .client : Client.State PipeCmd).file =
        (List.range conf.packetCnt).map (conf.packet content)

end System

/-- Every stage but the first pulls from the host and the list that the stage before pushes to; the
first one pulls nothing, and the last one pushes to the list that the client fetches. -/
structure IsChain (stages : List (Nat × PipeCmd)) (fetchIP : Nat) (filename : Str) : Prop where
  first : ∀ q, stages[0]? = some q → q.2.source = none
  next : ∀ (t : Nat) p q, stages[t]? = some p → stages[t + 1]? = some q →
    q.2.source = some (p.1, p.2.sendKey)
  last : ∀ p, stages.getLast? = some p → (p.1, p.2.sendKey) = (fetchIP, .blk filename)

/-- The combination of the helpers' blocks that the lost block is. -/
def combination (blkDir : Str → Buf) (coef : TreeMap Str GF256) (stripe : List (Nat × Str)) : Buf :=
  fun x => (stripe.map fun h => coef.getD h.2 0 * blkDir h.2 x).sum

/-- A request that has been handled as it should be: no entry behind the end of the stripe is read,
the stages belong to the helpers' blocks, and the commands and the reply form a chain that brings
the lost block to the client. -/
structure Serves (conf : PacketConfig) (requestorIP : Nat) (filename : Str)
    (coef : TreeMap Str GF256) (stripe : List (Nat × Str)) (h : Pipe.Handled) : Prop where
  inRange : ∀ i < h.ecK &&& 0xff, ∀ p ∈ Pipe.indices h.ecK i, p < h.stripe.length
  blocks : (h.cmds.map fun c => c.2.localBlkName).Perm (stripe.map Prod.snd)
  chain : ∃ fetchIP, h.reply = some [fetchIP] ∧
    (∃ stages, stages.Perm h.cmds ∧ IsChain stages fetchIP filename) ∧
    ∀ blkDir, Delivers conf blkDir requestorIP fetchIP filename h.cmds
      (combination blkDir coef stripe)

/-- All requests of a node for blocks with these helpers are served. -/
def Repairs (conf : PacketConfig) (requestorIP : Nat) (stripe : List (Nat × Str)) : Prop :=
  ∀ filename coef, ∃ h,
    Pipe.requestHandler stripe.length true requestorIP filename coef stripe = some h ∧
      Serves conf requestorIP filename coef stripe h

/-! ## The commands for a requestor that is no helper -/

section Commands

variable {requestorIP : Nat} {filename : Str} {coef : TreeMap Str GF256}
  {stripe : List (Nat × Str)}

/-- The node of helper `t`. -/
def node (stripe : List (Nat × Str)) (t : Nat) : Nat :=
  (stripe.getD t (0, [])).1

/-- The command of helper `t`. -/
def cmd (requestorIP : Nat) (filename : Str) (coef : TreeMap Str GF256) (stripe : List (Nat × Str))
    (t : Nat) : PipeCmd :=
  Pipe.helperCmd requestorIP filename coef stripe stripe.length t

/-- The list that helper `t` pushes its packets to. -/
def outKey (filename : Str) (stripe : List (Nat × Str)) (t : Nat) : ListKey :=
  if t + 1 = stripe.length then .blk filename else .tmp filename

theorem low_byte {n : Nat} (h : n ≤ 255) : n &&& 0xff = n := by
  have hmod := Nat.and_two_pow_sub_one_eq_mod n 8
  rw [show 0xff = 2 ^ 8 - 1 from rfl, hmod]
  exact Nat.mod_eq_of_lt (Nat.lt_of_le_of_lt h (by decide))

theorem holder_bit {n : Nat} (h : n ≤ 255) : n &&& 0x100 = 0 := by
  have hlt : n < 256 := Nat.lt_of_le_of_lt h (by decide)
  rw [show 0x100 = 2 ^ 8 from rfl, Nat.and_two_pow, Nat.testBit_eq_false_of_lt hlt]
  rfl

theorem sendKey_cmd (requestorIP : Nat) (coef : TreeMap Str GF256) (hmax : stripe.length ≤ 255)
    (t : Nat) :
    (cmd requestorIP filename coef stripe t).sendKey = outKey filename stripe t := by
  have hecK : (cmd requestorIP filename coef stripe t).ecK = stripe.length := rfl
  have hid : (cmd requestorIP filename coef stripe t).id = t := rfl
  have hname : (cmd requestorIP filename coef stripe t).lostBlkName = filename := rfl
  have hne : stripe.length ≠ 0x010000 := by omega
  rw [PipeCmd.sendKey, hecK, hid, hname, outKey]
  simp [holder_bit hmax, hne]

theorem source_first : (cmd requestorIP filename coef stripe 0).source = none :=
  if_pos rfl

/-- All helpers but the first get their packets from the one before. -/
theorem prevIP_cmd (requestorIP : Nat) (filename : Str) (coef : TreeMap Str GF256) (t : Nat) :
    (cmd requestorIP filename coef stripe (t + 1)).prevIP = node stripe t := by
  show (if t + 1 = 0 then _ else _ : Nat × Str).1 = _
  rw [if_neg t.succ_ne_zero]
  rfl

theorem source_next (t : Nat) : (cmd requestorIP filename coef stripe (t + 1)).source =
    some (node stripe t, .tmp filename) := by
  rw [← prevIP_cmd requestorIP filename coef]
  exact if_neg t.succ_ne_zero

/-- The commands, one for each helper. -/
theorem helperCmds_eq (hmax : stripe.length ≤ 255) :
    Pipe.helperCmds requestorIP filename coef stripe stripe.length =
      (List.range stripe.length).map fun t =>
        (node stripe t, cmd requestorIP filename coef stripe t) := by
  unfold Pipe.helperCmds
  rw [low_byte hmax]
  rfl

theorem getElem?_helperCmds (hmax : stripe.length ≤ 255) {t : Nat} {c : Nat × PipeCmd} :
    (Pipe.helperCmds requestorIP filename coef stripe stripe.length)[t]? = some c →
      t < stripe.length ∧ c = (node stripe t, cmd requestorIP filename coef stripe t) := by
  intro hc
  rw [helperCmds_eq hmax, List.getElem?_map] at hc
  obtain ⟨u, hu, rfl⟩ := Option.map_eq_some_iff.1 hc
  obtain ⟨hlt, rfl⟩ := List.getElem?_eq_some_iff.1 hu
  rw [List.length_range] at hlt
  rw [List.getElem_range]
  exact ⟨hlt, rfl⟩

/-- No entry behind the end of the stripe is read. -/
theorem indices_lt (htwo : 2 ≤ stripe.length) {i p : Nat} (hi : i < stripe.length)
    (hmax : stripe.length ≤ 255) : p ∈ Pipe.indices stripe.length i → p < stripe.length := by
  intro hp
  simp only [Pipe.indices, low_byte hmax, List.mem_cons, List.not_mem_nil, or_false] at hp
  rcases hp with rfl | rfl | rfl
  · split <;> omega
  · split <;> omega
  · exact hi

/-- The commands belong to the blocks of the stripe. -/
theorem blocks_helperCmds (hmax : stripe.length ≤ 255) :
    (Pipe.helperCmds requestorIP filename coef stripe stripe.length).map
      (fun c => c.2.localBlkName) = stripe.map Prod.snd := by
  rw [helperCmds_eq hmax, List.map_map]
  refine List.ext_getElem (by simp) fun i hi hi' => ?_
  rw [List.length_map] at hi'
  simp [cmd, Pipe.helperCmd, List.getD_eq_getElem?_getD, hi']

/-- They form a chain up to the last helper. -/
theorem isChain_helperCmds (htwo : 2 ≤ stripe.length) (hmax : stripe.length ≤ 255) :
    IsChain (Pipe.helperCmds requestorIP filename coef stripe stripe.length)
      (node stripe (stripe.length - 1)) filename where
  first := by
    intro q hq
    obtain ⟨-, rfl⟩ := getElem?_helperCmds hmax hq
    exact source_first
  next := by
    intro t p q hp hq
    obtain ⟨-, rfl⟩ := getElem?_helperCmds hmax hp
    obtain ⟨hlt, rfl⟩ := getElem?_helperCmds hmax hq
    show (cmd requestorIP filename coef stripe (t + 1)).source = _
    rw [source_next, sendKey_cmd _ _ hmax, outKey, if_neg (Nat.ne_of_lt hlt)]
  last := by
    intro p hp
    have hlength : (Pipe.helperCmds requestorIP filename coef stripe stripe.length).length =
        stripe.length := by
      rw [helperCmds_eq hmax, List.length_map, List.length_range]
    rw [List.getLast?_eq_getElem?, hlength] at hp
    obtain ⟨hlt, rfl⟩ := getElem?_helperCmds hmax hp
    show (node stripe _, (cmd requestorIP filename coef stripe _).sendKey) = _
    rw [sendKey_cmd _ _ hmax, outKey, if_pos (by omega)]

/-- The commands of a node. -/
theorem filter_node (hmax : stripe.length ≤ 255) (hnodes : (stripe.map Prod.fst).Nodup) {t : Nat}
    (ht : t < stripe.length) :
    ((Pipe.helperCmds requestorIP filename coef stripe stripe.length).filter
      fun c => c.1 = node stripe t) = [(node stripe t, cmd requestorIP filename coef stripe t)] := by
  have hsame : (List.range stripe.length).filter (fun u => decide (node stripe u = node stripe t)) =
      [t] := by
    have hcongr : (List.range stripe.length).filter
        (fun u => decide (node stripe u = node stripe t)) =
          (List.range stripe.length).filter (fun u => decide (u = t)) := by
      refine List.filter_congr fun u hu => ?_
      have hinj : node stripe u = node stripe t ↔ u = t :=
        node_inj hnodes (List.mem_range.1 hu) ht
      exact decide_eq_decide.2 hinj
    have hone : (List.range stripe.length).count t = 1 :=
      List.count_eq_one_of_mem List.nodup_range (List.mem_range.2 ht)
    rw [hcongr, show (fun u => decide (u = t)) = fun u => u == t from
      funext fun u => (beq_eq_decide u t).symm, List.filter_beq, hone]
    rfl
  rw [helperCmds_eq hmax, List.filter_map]
  show List.map _ ((List.range stripe.length).filter
    (fun u => decide (node stripe u = node stripe t))) = _
  rw [hsame]
  rfl

theorem filter_other (hmax : stripe.length ≤ 255) {ip : Nat}
    (hip : ∀ t < stripe.length, node stripe t ≠ ip) :
    ((Pipe.helperCmds requestorIP filename coef stripe stripe.length).filter
      fun c => c.1 = ip) = [] := by
  rw [helperCmds_eq hmax]
  refine List.filter_eq_nil_iff.2 fun c hc => ?_
  obtain ⟨t, ht, rfl⟩ := List.mem_map.1 hc
  simpa using hip t (List.mem_range.1 ht)

end Commands

/-! ## Who uses which list -/

section Run

variable {conf : PacketConfig} {blkDir : Str → Buf} {requestorIP : Nat} {filename : Str}
  {coef : TreeMap Str GF256} {stripe : List (Nat × Str)}
  {tr : List (Party × Event Nat ListKey Msg)}
  {s : Lists.State (system conf blkDir requestorIP (node stripe (stripe.length - 1)) filename)}
  (hruns : Lists.Runs _ (start conf blkDir requestorIP (node stripe (stripe.length - 1)) filename
    (Pipe.helperCmds requestorIP filename coef stripe stripe.length)) tr s)
  (hmax : stripe.length ≤ 255) (hnodes : (stripe.map Prod.fst).Nodup)

include hruns

theorem worker_run (ip : Nat) :
    Lists.LocalRuns (Worker.Step conf blkDir ip) Worker.init (Lists.eventsOf (.worker ip) tr)
      (s.loc (.worker ip)) :=
  hruns.toLocal (.worker ip)

theorem client_run :
    Lists.LocalRuns
      (Client.Step conf requestorIP [(node stripe (stripe.length - 1), filename)])
      Client.State.init (Lists.eventsOf .client tr) (s.loc .client) :=
  hruns.toLocal .client

/-- The client pops packets of the lost block, and forwards nothing. -/
theorem client_uses {e : Event Nat ListKey Msg} (he : e ∈ Lists.eventsOf .client tr) :
    (∀ h k m, e ≠ .push h k m) ∧
      ∀ h k m, e = .pop h k m → h = node stripe (stripe.length - 1) ∧ k = .blk filename := by
  have huses := Client.uses_of_runs (client_run hruns) e he
  constructor
  · rintro h k m rfl
    obtain ⟨-, j, ip, name, hj, -⟩ := huses
    simp at hj
  · rintro h k m rfl
    obtain ⟨name, hmem, hk⟩ := huses
    cases List.mem_singleton.1 hmem
    exact ⟨rfl, hk⟩

/-- Nobody pushes commands any more. -/
theorem pushed_drCmds (ip : Nat) : Lists.pushed ip .drCmds (tr.map Prod.snd) = [] := by
  have hnone : ∀ i, Lists.pushed ip .drCmds (Lists.eventsOf i tr) = [] := by
    intro i
    refine Lists.pushed_eq_nil fun m hm => ?_
    cases i with
    | worker ip' =>
        obtain ⟨-, name, hk | hk⟩ := worker_uses (worker_run hruns ip') _ hm <;> cases hk
    | client => exact (client_uses hruns hm).1 _ _ _ rfl
  rw [Lists.pushed_eq_of_producer fun i _ => hnone i, hnone .client]

/-- Only the worker of a node pops its commands. -/
theorem popped_drCmds (ip : Nat) {i : Party} (hi : i ≠ .worker ip) :
    Lists.popped ip .drCmds (Lists.eventsOf i tr) = [] := by
  refine Lists.popped_eq_nil fun m hm => ?_
  cases i with
  | worker ip' =>
      rcases worker_uses (worker_run hruns ip') _ hm with ⟨rfl, -⟩ | ⟨name, hk⟩
      · exact hi rfl
      · cases hk
  | client => cases ((client_uses hruns hm).2 _ _ _ rfl).2

/-- The worker of a node pops its commands in order. -/
theorem popped_drCmds_append (ip : Nat) :
    Lists.popped ip .drCmds (Lists.eventsOf (.worker ip) tr) ++ s.lists ip .drCmds =
      ((Pipe.helperCmds requestorIP filename coef stripe stripe.length).filter
        fun c => c.1 = ip).map fun c => .cmd c.2 := by
  have hfifo := hruns.fifo ip .drCmds
  rw [pushed_drCmds hruns ip, List.append_nil,
    Lists.popped_eq_of_consumer fun i hi => popped_drCmds hruns ip hi] at hfifo
  exact hfifo

/-- A stage alone pushes to its list. -/
theorem producer {t : Nat} {i : Party} (hi : i ≠ .worker (node stripe t)) :
    Lists.pushed (node stripe t) (outKey filename stripe t) (Lists.eventsOf i tr) = [] := by
  refine Lists.pushed_eq_nil fun m hm => ?_
  cases i with
  | worker ip =>
      obtain ⟨rfl, -⟩ := worker_uses (worker_run hruns ip) _ hm
      exact hi rfl
  | client => exact (client_uses hruns hm).1 _ _ _ rfl

/-- Only the client pops the packets of the last helper. -/
theorem popped_last {i : Party} (hi : i ≠ .client) :
    Lists.popped (node stripe (stripe.length - 1)) (.blk filename) (Lists.eventsOf i tr) = [] := by
  refine Lists.popped_eq_nil fun m hm => ?_
  cases i with
  | worker ip =>
      rcases worker_uses (worker_run hruns ip) _ hm with ⟨-, hk⟩ | ⟨name, hk⟩ <;> cases hk
  | client => exact hi rfl

include hmax

/-- Nodes without a helper do nothing. -/
theorem other_events {ip : Nat} (hip : ∀ t < stripe.length, node stripe t ≠ ip) :
    Lists.eventsOf (.worker ip) tr = [] := by
  have hprefix := popped_drCmds_append hruns ip
  rw [filter_other hmax hip, List.map_nil, List.append_eq_nil_iff] at hprefix
  exact (events_eq_nil (worker_run hruns ip) hprefix.1).1

include hnodes

theorem helper {t : Nat} (ht : t < stripe.length) :
    Helper conf blkDir (node stripe t) (cmd requestorIP filename coef stripe t)
      (Lists.eventsOf (.worker (node stripe t)) tr) (s.loc (.worker (node stripe t))) := by
  have hprefix := popped_drCmds_append hruns (node stripe t)
  rw [filter_node hmax hnodes ht] at hprefix
  exact helper_of_runs (worker_run hruns (node stripe t)) ⟨_, hprefix⟩

/-- The next stage alone pops from the list of a stage. -/
theorem consumer {t : Nat} (ht : t + 1 < stripe.length) {i : Party}
    (hi : i ≠ .worker (node stripe (t + 1))) :
    Lists.popped (node stripe t) (outKey filename stripe t) (Lists.eventsOf i tr) = [] := by
  have hkey : outKey filename stripe t = .tmp filename := if_neg (Nat.ne_of_lt ht)
  rw [hkey]
  cases i with
  | worker ip =>
      by_cases hip : ∃ u < stripe.length, node stripe u = ip
      · obtain ⟨u, hu, rfl⟩ := hip
        refine (helper hruns hmax hnodes hu).popped_eq_nil (by simp) fun hsrc => hi ?_
        -- a helper that asks there is the next one
        cases u with
        | zero =>
            rw [source_first] at hsrc
            cases hsrc
        | succ u =>
            rw [source_next] at hsrc
            have hsame : node stripe u = node stripe t := (Prod.mk.inj (Option.some.inj hsrc)).1
            have hut : u = t := (node_inj hnodes (by omega) (by omega)).1 hsame
            rw [hut]
      · push Not at hip
        rw [other_events hruns hmax hip]
        rfl
  | client =>
      refine Lists.popped_eq_nil fun m hm => ?_
      cases ((client_uses hruns hm).2 _ _ _ rfl).2

omit hruns hmax hnodes in
/-- The packet of helper `t`. -/
theorem scaled_cmd (t i : Nat) : scaled conf blkDir (cmd requestorIP filename coef stripe t) i =
    conf.packet (fun x => coef.getD (stripe.getD t (0, [])).2 0 *
      blkDir (stripe.getD t (0, [])).2 x) i :=
  rfl

/-- The helpers form a chain. -/
theorem chain (hpos : 0 < stripe.length) :
    Lists.Chain tr stripe.length (fun t => Party.worker (node stripe t))
      (fun t => (node stripe t, outKey filename stripe t))
      (fun t i => scaled conf blkDir (cmd requestorIP filename coef stripe t) i) conf.xor := by
  -- what each helper pushes, from the run of its own
  have hpayload : ∀ t < stripe.length, ∀ i v,
      (Lists.pushed (node stripe t) (outKey filename stripe t)
        (Lists.eventsOf (.worker (node stripe t)) tr))[i]? = some v →
      (t = 0 → v = scaled conf blkDir (cmd requestorIP filename coef stripe t) i) ∧
        (t ≠ 0 → ∃ m, (Lists.popped (cmd requestorIP filename coef stripe t).prevIP (.tmp filename)
          (Lists.eventsOf (.worker (node stripe t)) tr))[i]? = some m ∧
          v = conf.xor (scaled conf blkDir (cmd requestorIP filename coef stripe t) i) m) := by
    intro t ht i v hv
    rw [← sendKey_cmd requestorIP coef hmax] at hv
    exact (helper hruns hmax hnodes ht).payload hv
  constructor
  case fifo =>
    intro t ht
    have hfifo := hruns.fifo (node stripe t) (outKey filename stripe t)
    have hempty : (start conf blkDir requestorIP (node stripe (stripe.length - 1)) filename
        (Pipe.helperCmds requestorIP filename coef stripe stripe.length)).lists (node stripe t)
          (outKey filename stripe t) = [] := by
      unfold outKey
      split <;> rfl
    rw [hempty, List.nil_append] at hfifo
    exact ⟨_, hfifo⟩
  case producer =>
    intro t ht i hi
    exact producer hruns hi
  case consumer =>
    intro t ht i hi
    exact consumer hruns hmax hnodes ht hi
  case first =>
    intro i v hv
    exact (hpayload 0 hpos i v hv).1 rfl
  case next =>
    intro t ht i v hv
    obtain ⟨m, hm, hval⟩ := (hpayload (t + 1) ht i v hv).2 (Nat.succ_ne_zero t)
    rw [prevIP_cmd] at hm
    have hkey : outKey filename stripe t = .tmp filename := if_neg (Nat.ne_of_lt ht)
    simp only [hkey]
    exact ⟨m, hm, hval⟩

/-- What the client pops is, packet after packet, what the helpers make of their packets. -/
theorem popped_client (hpos : 0 < stripe.length) {i : Nat} {v : Msg} :
    (Lists.popped (node stripe (stripe.length - 1)) (.blk filename)
      (Lists.eventsOf .client tr))[i]? = some v →
      v = Lists.total conf.xor
        (fun t => scaled conf blkDir (cmd requestorIP filename coef stripe t) i)
        (stripe.length - 1) := by
  intro hv
  have hsucc : stripe.length - 1 + 1 = stripe.length := Nat.sub_add_cancel hpos
  have hkey : outKey filename stripe (stripe.length - 1) = .blk filename := if_pos hsucc
  rw [← Lists.popped_eq_of_consumer fun i hi => popped_last hruns hi, ← hkey] at hv
  exact (chain hruns hmax hnodes hpos).popped_eq (t := stripe.length - 1) (by omega) hv

/-! ## The end of a run -/

/-- A helper that has done nothing has its command in front of it. -/
theorem command_missing {t : Nat} (ht : t < stripe.length)
    (hes : Lists.eventsOf (.worker (node stripe t)) tr = [])
    (hpops : ∀ h₀ k m w', Worker.Step conf blkDir (node stripe t)
      (s.loc (.worker (node stripe t))) (.pop h₀ k m) w' → ∀ ms, s.lists h₀ k ≠ m :: ms)
    {w' : Worker} : ¬ Worker.Step conf blkDir (node stripe t) (s.loc (.worker (node stripe t)))
      (.pop (node stripe t) .drCmds (.cmd (cmd requestorIP filename coef stripe t))) w' := by
  intro hw
  have hlist := popped_drCmds_append hruns (node stripe t)
  rw [hes, filter_node hmax hnodes ht] at hlist
  exact hpops _ _ _ _ hw [] hlist

/-- All parties come to an end. -/
theorem length_le : tr.length ≤ ((Finset.range stripe.length).image
      (fun t => Party.worker (node stripe t)) ∪ {Party.client}).card *
    (stepBound conf.packetCnt +
      ((Client.State.init : Client.State PipeCmd).left conf.packetCnt + conf.packetCnt)) := by
  have hall := Lists.length_eq_sum tr ((Finset.range stripe.length).image
      (fun t => Party.worker (node stripe t)) ∪ {Party.client}) fun i hi => by
    simp only [Finset.mem_union, Finset.mem_image, Finset.mem_range, Finset.mem_singleton,
      not_or, not_exists, not_and] at hi
    cases i with
    | worker ip => exact other_events hruns hmax fun t ht heq => hi.1 t ht (congrArg _ heq)
    | client => exact absurd rfl hi.2
  rw [hall, ← smul_eq_mul]
  refine Finset.sum_le_card_nsmul _ _ _ fun i hi => ?_
  simp only [Finset.mem_union, Finset.mem_image, Finset.mem_range, Finset.mem_singleton] at hi
  rcases hi with ⟨t, ht, rfl⟩ | rfl
  · exact Nat.le_add_right_of_le (helper hruns hmax hnodes ht).length_le
  · exact Nat.le_add_left_of_le (Client.length_le (client_run hruns))

/-- A state in which no party can take a step: every helper has run its command to the end. -/
theorem all_done (hcnt : ¬ (3 ≤ conf.packetCnt ∧ conf.packetCnt ≤ 9))
    (hstuck : ∀ i e s', ¬ Lists.Step (system conf blkDir requestorIP
      (node stripe (stripe.length - 1)) filename) s i e s') {t : Nat} :
    t < stripe.length →
      HelperDone (node stripe t) (cmd requestorIP filename coef stripe t)
        (Lists.eventsOf (.worker (node stripe t)) tr) (s.loc (.worker (node stripe t))) := by
  have hpops : ∀ u h₀ k m w', Worker.Step conf blkDir (node stripe u)
      (s.loc (.worker (node stripe u))) (.pop h₀ k m) w' → ∀ ms, s.lists h₀ k ≠ m :: ms := by
    intro u h₀ k m w' hw
    exact Lists.ne_cons_of_stuck (S := system conf blkDir requestorIP _ filename) hstuck
      (i := .worker (node stripe u)) hw
  have hlocal : ∀ u e w', (∀ h k m, e ≠ .pop h k m) →
      ¬ Worker.Step conf blkDir (node stripe u) (s.loc (.worker (node stripe u))) e w' := by
    intro u e w' he
    exact Lists.not_local_of_stuck (S := system conf blkDir requestorIP _ filename) hstuck
      (i := .worker (node stripe u)) he
  induction t with
  | zero =>
      intro ht
      rcases (helper hruns hmax hnodes ht).done_or_waits hcnt (hlocal 0) with
        hdone | ⟨hes, w', hw⟩ | ⟨hid, -⟩
      · exact hdone
      · exact absurd hw (command_missing hruns hmax hnodes ht hes (hpops 0))
      · exact absurd rfl hid
  | succ t ih =>
      intro ht
      rcases (helper hruns hmax hnodes ht).done_or_waits hcnt (hlocal (t + 1)) with
        hdone | ⟨hes, w', hw⟩ | ⟨hid, hlen, hw⟩
      · exact hdone
      · exact absurd hw (command_missing hruns hmax hnodes ht hes (hpops (t + 1)))
      · -- the predecessor is done, and has pushed the packet
        exfalso
        have hprev : t < stripe.length := Nat.lt_of_succ_lt ht
        have hpushed := (ih hprev).pushed_length (helper hruns hmax hnodes hprev)
        have hkey : outKey filename stripe t = .tmp filename := if_neg (Nat.ne_of_lt ht)
        have hfifo := hruns.fifo (node stripe t) (outKey filename stripe t)
        have hempty : (start conf blkDir requestorIP (node stripe (stripe.length - 1)) filename
            (Pipe.helperCmds requestorIP filename coef stripe stripe.length)).lists (node stripe t)
              (.tmp filename) = [] := rfl
        rw [Lists.pushed_eq_of_producer fun i hi => producer hruns hi,
          Lists.popped_eq_of_consumer fun i hi => consumer hruns hmax hnodes ht hi, hkey, hempty,
          List.nil_append] at hfifo
        rw [sendKey_cmd _ _ hmax, hkey] at hpushed
        rw [prevIP_cmd] at hlen hw
        have hlen' : (Lists.popped (node stripe t) (.tmp filename)
            (Lists.eventsOf (.worker (node stripe (t + 1))) tr)).length < conf.packetCnt := hlen
        cases hlist : s.lists (node stripe t) (.tmp filename) with
        | nil =>
            rw [hlist, List.append_nil] at hfifo
            rw [hfifo, hpushed] at hlen'
            exact Nat.lt_irrefl _ hlen'
        | cons m ms =>
            obtain ⟨w', hw'⟩ := hw m
            exact hpops (t + 1) _ _ _ _ hw' ms hlist

/-- The client has written the packets of the last helper. -/
theorem client_done (hcnt : ¬ (3 ≤ conf.packetCnt ∧ conf.packetCnt ≤ 9)) (hpos : 0 < stripe.length)
    (hstuck : ∀ i e s', ¬ Lists.Step (system conf blkDir requestorIP
      (node stripe (stripe.length - 1)) filename) s i e s') :
    Client.Done conf (node stripe (stripe.length - 1)) filename (Lists.eventsOf .client tr)
      (s.loc .client) := by
  have hlocal : ∀ e c', (∀ h k m, e ≠ .pop h k m) →
      ¬ (system conf blkDir requestorIP (node stripe (stripe.length - 1)) filename).step .client
        (s.loc .client) e c' :=
    fun e c' he => Lists.not_local_of_stuck hstuck he
  rcases Client.done_or_waits (client_run hruns) hlocal with hdone | ⟨hlen, hc⟩
  · exact hdone
  · exfalso
    have hlast : stripe.length - 1 < stripe.length := Nat.sub_lt hpos Nat.zero_lt_one
    have hkey : outKey filename stripe (stripe.length - 1) = .blk filename :=
      if_pos (Nat.sub_add_cancel hpos)
    have hpushed := (all_done hruns hmax hnodes hcnt hstuck hlast).pushed_length
      (helper hruns hmax hnodes hlast)
    have hfifo := hruns.fifo (node stripe (stripe.length - 1)) (.blk filename)
    have hempty : (start conf blkDir requestorIP (node stripe (stripe.length - 1)) filename
        (Pipe.helperCmds requestorIP filename coef stripe stripe.length)).lists
          (node stripe (stripe.length - 1)) (.blk filename) = [] := rfl
    have hproducer : Lists.pushed (node stripe (stripe.length - 1)) (.blk filename)
        (tr.map Prod.snd) = Lists.pushed (node stripe (stripe.length - 1))
          (outKey filename stripe (stripe.length - 1))
          (Lists.eventsOf (.worker (node stripe (stripe.length - 1))) tr) := by
      rw [← hkey]
      exact Lists.pushed_eq_of_producer fun i hi => producer hruns hi
    rw [hproducer, Lists.popped_eq_of_consumer fun i hi => popped_last hruns hi, hempty,
      List.nil_append] at hfifo
    rw [sendKey_cmd _ _ hmax] at hpushed
    cases hlist : s.lists (node stripe (stripe.length - 1)) (.blk filename) with
    | nil =>
        rw [hlist, List.append_nil] at hfifo
        rw [hfifo, hpushed] at hlen
        exact Nat.lt_irrefl _ hlen
    | cons m ms =>
        obtain ⟨c', hc'⟩ := hc m
        exact Lists.ne_cons_of_stuck (S := system conf blkDir requestorIP _ filename) hstuck
          (i := .client) hc' ms hlist

/-- With three to nine packets the client gets at most one. -/
theorem popped_length_le_one (hthree : 3 ≤ conf.packetCnt) (hnine : conf.packetCnt ≤ 9)
    (hpos : 0 < stripe.length) :
    (Lists.popped (node stripe (stripe.length - 1)) (.blk filename)
      (Lists.eventsOf .client tr)).length ≤ 1 := by
  have hlast : stripe.length - 1 < stripe.length := Nat.sub_lt hpos Nat.zero_lt_one
  have hkey : outKey filename stripe (stripe.length - 1) = .blk filename :=
    if_pos (Nat.sub_add_cancel hpos)
  have hone := (helper hruns hmax hnodes hlast).pushed_length_le_one hthree hnine
  rw [sendKey_cmd _ _ hmax, ← Lists.pushed_eq_of_producer fun i hi => producer hruns hi] at hone
  rw [← Lists.popped_eq_of_consumer fun i hi => popped_last hruns hi, ← hkey]
  exact ((chain hruns hmax hnodes hpos).fifo _ hlast).length_le.trans hone

end Run

/-! ## Requestors that are not found -/

section Served

variable {conf : PacketConfig} {requestorIP : Nat} {filename : Str} {coef : TreeMap Str GF256}
  {stripe : List (Nat × Str)}

/-- What the helpers up to `t` make of packet `i`, if packets are made of whole words. -/
theorem total_scaled (hwords : conf.packetSize % 8 = 0) (blkDir : Str → Buf) (t i : Nat) :
    Lists.total conf.xor
      (fun u => scaled conf blkDir (cmd requestorIP filename coef stripe u) i) t =
      conf.packet (fun x => ((List.range (t + 1)).map fun u =>
        coef.getD (stripe.getD u (0, [])).2 0 * blkDir (stripe.getD u (0, [])).2 x).sum) i := by
  induction t with
  | zero =>
      simp [Lists.total, scaled_cmd]
  | succ t ih =>
      rw [Lists.total, ih, PacketConfig.xor_eq_plus hwords, scaled_cmd, PacketConfig.plus_packet]
      congr 1
      funext x
      rw [List.range_succ (n := t + 1), List.map_append, List.sum_append, add_comm]
      simp

theorem combination_eq (blkDir : Str → Buf) (x : Int) : combination blkDir coef stripe x =
    ((List.range stripe.length).map fun u =>
      coef.getD (stripe.getD u (0, [])).2 0 * blkDir (stripe.getD u (0, [])).2 x).sum := by
  refine congrArg List.sum (List.ext_getElem (by simp) fun i hi hi' => ?_)
  rw [List.length_map] at hi
  simp [List.getD_eq_getElem?_getD, hi]

/-- After the last helper it is the packet of the lost block. -/
theorem total_last (hwords : conf.packetSize % 8 = 0) (hpos : 0 < stripe.length)
    (blkDir : Str → Buf) (i : Nat) :
    Lists.total conf.xor
      (fun u => scaled conf blkDir (cmd requestorIP filename coef stripe u) i) (stripe.length - 1) =
      conf.packet (combination blkDir coef stripe) i := by
  rw [total_scaled hwords, Nat.sub_add_cancel hpos]
  congr 1
  funext x
  exact (combination_eq blkDir x).symm

/-- The client gets the lost block. -/
theorem delivers (hpos : 0 < stripe.length) (hmax : stripe.length ≤ 255)
    (hnodes : (stripe.map Prod.fst).Nodup) (hcnt : ¬ (3 ≤ conf.packetCnt ∧ conf.packetCnt ≤ 9))
    (hwords : conf.packetSize % 8 = 0 ∨ conf.packetCnt = 0) (blkDir : Str → Buf) :
    Delivers conf blkDir requestorIP (node stripe (stripe.length - 1)) filename
      (Pipe.helperCmds requestorIP filename coef stripe stripe.length)
      (combination blkDir coef stripe) := by
  have hpackets : ∀ tr s, Lists.Runs (system conf blkDir requestorIP
      (node stripe (stripe.length - 1)) filename)
      (start conf blkDir requestorIP (node stripe (stripe.length - 1)) filename
        (Pipe.helperCmds requestorIP filename coef stripe stripe.length)) tr s →
      ∃ n ≤ conf.packetCnt, Lists.popped (node stripe (stripe.length - 1)) (.blk filename)
        (Lists.eventsOf .client tr) =
          (List.range n).map (conf.packet (combination blkDir coef stripe)) := by
    intro tr s hruns
    have hle := (Client.fetching_of_runs (client_run hruns)).2.popped_length_le
    refine ⟨_, hle, Lists.eq_map_range fun i v hv => ?_⟩
    have hi := (List.getElem?_eq_some_iff.1 hv).1
    rcases hwords with hwords | hzero
    · rw [popped_client hruns hmax hnodes hpos hv]
      exact total_last hwords hpos blkDir i
    · omega
  refine ⟨⟨_, fun tr s hruns => length_le hruns hmax hnodes⟩, hpackets, fun tr s hruns hstuck => ?_⟩
  obtain ⟨n, -, hpopped⟩ := hpackets tr s hruns
  have hdone := client_done hruns hmax hnodes hcnt hpos hstuck
  have hlength := hdone.popped
  rw [hpopped, List.length_map, List.length_range] at hlength
  rw [hdone.file, hpopped, hlength]

/-- A request of a node that is not found among the helpers. -/
theorem requestHandler_none (hpos : 0 < stripe.length)
    (hnone : Pipe.isRequestorHolder stripe requestorIP = none) :
    Pipe.requestHandler stripe.length true requestorIP filename coef stripe =
      some
        { cmds := Pipe.helperCmds requestorIP filename coef stripe stripe.length
          stripe := stripe
          ecK := stripe.length
          reply := some [node stripe (stripe.length - 1)] } := by
  have hempty : stripe.isEmpty = false := by
    cases stripe with
    | nil => cases hpos
    | cons _ _ => rfl
  have hlast : stripe.getLastD (0, []) = stripe.getD (stripe.length - 1) (0, []) := by
    rw [List.getLastD_eq_getLast?, List.getLast?_eq_getElem?, List.getD_eq_getElem?_getD]
  unfold Pipe.requestHandler
  simp only [Nat.lt_irrefl, if_false, hempty, Bool.false_eq_true, or_self, hnone, if_true, hlast]
  rfl

theorem serves (htwo : 2 ≤ stripe.length) (hmax : stripe.length ≤ 255)
    (hnodes : (stripe.map Prod.fst).Nodup) (hcnt : ¬ (3 ≤ conf.packetCnt ∧ conf.packetCnt ≤ 9))
    (hwords : conf.packetSize % 8 = 0 ∨ conf.packetCnt = 0) :
    Serves conf requestorIP filename coef stripe
      { cmds := Pipe.helperCmds requestorIP filename coef stripe stripe.length
        stripe := stripe
        ecK := stripe.length
        reply := some [node stripe (stripe.length - 1)] } where
  inRange := by
    intro i hi p hp
    have hlow : i < stripe.length := Nat.lt_of_lt_of_eq hi (low_byte hmax)
    exact indices_lt htwo hlow hmax hp
  blocks := List.Perm.of_eq (blocks_helperCmds hmax)
  chain := ⟨_, rfl, ⟨_, List.Perm.refl _, isChain_helperCmds htwo hmax⟩,
    delivers (by omega) hmax hnodes hcnt hwords⟩

end Served

/-! ## Requests that are not served -/

section NotServed

variable {conf : PacketConfig} {requestorIP : Nat} {filename : Str} {coef : TreeMap Str GF256}
  {stripe : List (Nat × Str)}

theorem length_helperCmds (ecK : Nat) :
    (Pipe.helperCmds requestorIP filename coef stripe ecK).length = ecK &&& 0xff := by
  unfold Pipe.helperCmds
  rw [List.length_map, List.length_range]

/-- The helpers are counted in one byte, so of more than 255 some get no command. -/
theorem length_le_of_serves {h : Pipe.Handled} (hnone : Pipe.isRequestorHolder stripe requestorIP = none)
    (hpos : 0 < stripe.length)
    (hreq : Pipe.requestHandler stripe.length true requestorIP filename coef stripe = some h)
    (hserves : Serves conf requestorIP filename coef stripe h) : stripe.length ≤ 255 := by
  rw [requestHandler_none hpos hnone] at hreq
  cases hreq
  have hlength := hserves.blocks.length_eq
  rw [List.length_map, List.length_map, length_helperCmds] at hlength
  rw [← hlength]
  exact Nat.and_le_right

/-- If the requestor is found among the helpers, the first of the other helpers is given a
predecessor from behind the end of the stripe. -/
theorem not_serves_of_holder {h : Pipe.Handled} (htwo : 2 ≤ stripe.length)
    (hholder : Pipe.isRequestorHolder stripe requestorIP ≠ none)
    (hreq : Pipe.requestHandler stripe.length true requestorIP filename coef stripe = some h) :
    ¬ Serves conf requestorIP filename coef stripe h := by
  intro hserves
  obtain ⟨rHolder, hfound⟩ := Option.ne_none_iff_exists'.1 hholder
  have hne : stripe ≠ [] := by
    rintro rfl
    cases htwo
  have hempty : stripe.isEmpty = false := by
    cases stripe with
    | nil => exact absurd rfl hne
    | cons _ _ => rfl
  unfold Pipe.requestHandler at hreq
  simp only [Nat.lt_irrefl, if_false, hempty, Bool.false_eq_true, or_self, hfound, if_true,
    Option.some.injEq] at hreq
  subst hreq
  have hrest : (stripe.eraseIdx rHolder).length = stripe.length - 1 :=
    List.length_eraseIdx_of_lt (Pipe.isRequestorHolder_eq_some hne hfound).1
  -- the commands are as many as the blocks
  have hlength := hserves.blocks.length_eq
  rw [List.length_map, List.length_map, List.length_cons, length_helperCmds,
    Nat.and_or_distrib_right] at hlength
  have hflag : (0x0100 : Nat) &&& 0xff = 0 := rfl
  rw [hflag, Nat.or_zero, hrest] at hlength
  have hbyte : (stripe.length - 1) &&& 0xff ≤ 0xff := Nat.and_le_right
  -- the entry before the first helper
  have hfirst : 0 < ((stripe.eraseIdx rHolder).length ||| 0x0100) &&& 0xff := by
    rw [Nat.and_or_distrib_right, hflag, Nat.or_zero, hrest]
    omega
  have hindex : ((stripe.eraseIdx rHolder).length ||| 0x0100) - 1 <
      (stripe.eraseIdx rHolder).length := hserves.inRange 0 hfirst _ List.mem_cons_self
  rw [hrest] at hindex
  have hge : 0x0100 ≤ (stripe.length - 1) ||| 0x0100 := Nat.right_le_or
  omega

/-- A log that divides by zero stops the reader of the last helper, and the client waits. -/
theorem not_delivers_of_log (hpos : 0 < stripe.length) (hmax : stripe.length ≤ 255)
    (hnodes : (stripe.map Prod.fst).Nodup) (hthree : 3 ≤ conf.packetCnt)
    (hnine : conf.packetCnt ≤ 9) (blkDir : Str → Buf) (content : Buf) :
    ¬ Delivers conf blkDir requestorIP (node stripe (stripe.length - 1)) filename
      (Pipe.helperCmds requestorIP filename coef stripe stripe.length) content := by
  rintro ⟨⟨n, hbounded⟩, -, hcomplete⟩
  obtain ⟨tr, s, hruns, hstuck⟩ := Lists.Runs.exists_stuck hbounded
  have hfile := congrArg List.length (hcomplete tr s hruns hstuck)
  rw [List.length_map, List.length_range, (Client.fetching_of_runs (client_run hruns)).2.file,
    List.length_take] at hfile
  have hone := popped_length_le_one hruns hmax hnodes hthree hnine hpos
  omega

/-- The first helper alone counts. -/
def firstOnly (stripe : List (Nat × Str)) : TreeMap Str GF256 :=
  (∅ : TreeMap Str GF256).insert (stripe.getD 0 (0, [])).2 1

theorem getD_firstOnly (hblks : (stripe.map Prod.snd).Nodup) (hpos : 0 < stripe.length) {t : Nat} :
    t < stripe.length → (firstOnly stripe).getD (stripe.getD t (0, [])).2 0 =
      if t = 0 then 1 else 0 := by
  intro ht
  have hget : ∀ v < stripe.length, (stripe.map Prod.snd)[v]? = some (stripe.getD v (0, [])).2 := by
    intro v hv
    simp [List.getD_eq_getElem?_getD, hv]
  rw [firstOnly]
  by_cases hzero : t = 0
  · subst hzero
    rw [if_pos rfl, TreeMap.getD_insert_self]
  · rw [if_neg hzero, TreeMap.getD_insert, if_neg, TreeMap.getD_emptyc]
    intro heq
    have hsame := LawfulEqCmp.compare_eq_iff_eq.1 heq
    have hsome : (stripe.map Prod.snd)[0]? = (stripe.map Prod.snd)[t]? := by
      rw [hget 0 hpos, hget t ht, hsame]
    exact hzero ((List.getElem?_inj (by simpa using hpos) hblks).1 hsome).symm

theorem sum_first {k : Nat} (hpos : 0 < k) :
    ((List.range k).map fun u => if u = 0 then (1 : GF256) else 0).sum = 1 := by
  obtain ⟨k, rfl⟩ := Nat.exists_eq_succ_of_ne_zero (Nat.ne_of_gt hpos)
  have hothers : ∀ a ∈ (List.range k).map
      ((fun u => if u = 0 then (1 : GF256) else 0) ∘ Nat.succ), a = 0 := by
    intro a ha
    obtain ⟨u, -, rfl⟩ := List.mem_map.1 ha
    show (if u.succ = 0 then (1 : GF256) else 0) = 0
    exact if_neg u.succ_ne_zero
  rw [List.range_succ_eq_map, List.map_cons, List.sum_cons, List.map_map,
    List.sum_eq_zero hothers]
  exact add_zero 1

/-- Bytes behind the last whole word are not xored, so of these only the last helper is seen. -/
theorem not_delivers_of_rest (htwo : 2 ≤ stripe.length) (hmax : stripe.length ≤ 255)
    (hnodes : (stripe.map Prod.fst).Nodup) (hblks : (stripe.map Prod.snd).Nodup)
    (hcnt : ¬ (3 ≤ conf.packetCnt ∧ conf.packetCnt ≤ 9)) (hpackets : conf.packetCnt ≠ 0)
    (hrest : conf.packetSize % 8 ≠ 0) :
    ¬ Delivers conf (fun _ _ => 1) requestorIP (node stripe (stripe.length - 1)) filename
      (Pipe.helperCmds requestorIP filename (firstOnly stripe) stripe stripe.length)
      (combination (fun _ _ => 1) (firstOnly stripe) stripe) := by
  rintro ⟨⟨n, hbounded⟩, -, hcomplete⟩
  obtain ⟨tr, s, hruns, hstuck⟩ := Lists.Runs.exists_stuck hbounded
  have hpos : 0 < stripe.length := by omega
  have hdone := client_done hruns hmax hnodes hcnt hpos hstuck
  have hfile := hcomplete tr s hruns hstuck
  rw [hdone.file] at hfile
  -- the first packet that the client has got
  have hfirst : (Lists.popped (node stripe (stripe.length - 1)) (.blk filename)
      (Lists.eventsOf .client tr))[0]? =
        some (conf.packet (combination (fun _ _ => 1) (firstOnly stripe) stripe) 0) := by
    rw [hfile, List.getElem?_map, List.getElem?_range (Nat.pos_of_ne_zero hpackets)]
    rfl
  have hgot := popped_client hruns hmax hnodes hpos hfirst
  have hlast : stripe.length - 1 = stripe.length - 2 + 1 := by omega
  have hx : ((conf.packetSize - 1 : Nat) : Int) < conf.packetSize := by omega
  have h0 : (0 : Int) ≤ (conf.packetSize - 1 : Nat) := Int.natCast_nonneg _
  have hbyte := congrArg (fun m : Msg => m.str ((conf.packetSize - 1 : Nat) : Int)) hgot
  rw [hlast, Lists.total] at hbyte
  -- its last byte is that of the last helper
  have hsum : combination (fun _ _ => 1) (firstOnly stripe) stripe
      (conf.base 0 + (conf.packetSize - 1 : Nat)) = 1 := by
    rw [combination_eq]
    calc ((List.range stripe.length).map fun u =>
          (firstOnly stripe).getD (stripe.getD u (0, [])).2 0 * 1).sum
        = ((List.range stripe.length).map fun u => if u = 0 then (1 : GF256) else 0).sum := by
          refine congrArg List.sum (List.map_congr_left fun u hu => ?_)
          rw [mul_one, getD_firstOnly hblks hpos (List.mem_range.1 hu)]
      _ = 1 := sum_first hpos
  have hcontra : (1 : GF256) = 0 := by
    calc (1 : GF256)
        = (conf.packet (combination (fun _ _ => 1) (firstOnly stripe) stripe) 0 : Msg).str
            ((conf.packetSize - 1 : Nat) : Int) := by
          rw [PacketConfig.packet, str_packet_bytesOf h0 hx, hsum]
      _ = _ := hbyte
      _ = (scaled conf (fun _ _ => 1) (cmd requestorIP filename (firstOnly stripe) stripe
            (stripe.length - 2 + 1)) 0).str ((conf.packetSize - 1 : Nat) : Int) := by
          show (conf.xor _ _ : Msg).str _ = _
          rw [PacketConfig.xor, str_packet_bytesOf h0 hx, XORBuffers, if_neg (by omega)]
      _ = 0 := by
          rw [scaled_cmd, PacketConfig.packet, str_packet_bytesOf h0 hx,
            getD_firstOnly hblks hpos (by omega), if_neg (Nat.succ_ne_zero _), zero_mul]
  exact one_ne_zero hcontra

end NotServed

/-! ## When a single-block pipeline repairs -/

section Main

variable {conf : PacketConfig} {requestorIP : Nat} {stripe : List (Nat × Str)}

/-- A pipeline of one block is right exactly if the requestor is not found among the helpers, the
helpers can be counted in a byte, no log divides by zero, and packets are made of whole words. -/
theorem pipeline_repairs_iff (htwo : 2 ≤ stripe.length) (hnodes : (stripe.map Prod.fst).Nodup)
    (hblks : (stripe.map Prod.snd).Nodup) :
    Repairs conf requestorIP stripe ↔
      Pipe.isRequestorHolder stripe requestorIP = none ∧ stripe.length ≤ 255 ∧
        ¬ (3 ≤ conf.packetCnt ∧ conf.packetCnt ≤ 9) ∧
        (conf.packetSize % 8 = 0 ∨ conf.packetCnt = 0) := by
  have hpos : 0 < stripe.length := by omega
  constructor
  · intro hrepairs
    have hnone : Pipe.isRequestorHolder stripe requestorIP = none := by
      by_contra hholder
      obtain ⟨h, hreq, hserves⟩ := hrepairs [] ∅
      exact not_serves_of_holder htwo hholder hreq hserves
    have hmax : stripe.length ≤ 255 := by
      obtain ⟨h, hreq, hserves⟩ := hrepairs [] ∅
      exact length_le_of_serves hnone hpos hreq hserves
    have hdelivers : ∀ coef blkDir, Delivers conf blkDir requestorIP
        (node stripe (stripe.length - 1)) []
        (Pipe.helperCmds requestorIP [] coef stripe stripe.length)
        (combination blkDir coef stripe) := by
      intro coef blkDir
      obtain ⟨h, hreq, hserves⟩ := hrepairs [] coef
      rw [requestHandler_none hpos hnone] at hreq
      cases hreq
      obtain ⟨fetchIP, hreply, -, hall⟩ := hserves.chain
      cases hreply
      exact hall blkDir
    have hcnt : ¬ (3 ≤ conf.packetCnt ∧ conf.packetCnt ≤ 9) := by
      rintro ⟨hthree, hnine⟩
      exact not_delivers_of_log hpos hmax hnodes hthree hnine (fun _ => zeros) _ (hdelivers ∅ _)
    refine ⟨hnone, hmax, hcnt, ?_⟩
    by_contra hrest
    rw [not_or] at hrest
    exact not_delivers_of_rest htwo hmax hnodes hblks hcnt hrest.2 hrest.1 (hdelivers _ _)
  · rintro ⟨hnone, hmax, hcnt, hwords⟩ filename coef
    exact ⟨_, requestHandler_none hpos hnone, serves htwo hmax hnodes hcnt hwords⟩

/-- Two helpers. -/
def twoHelpers : List (Nat × Str) :=
  [(1, ['a']), (2, ['b'])]

/-- Another node asks for two packets. -/
theorem repairs_two : Repairs ⟨2, 8, 0⟩ 3 twoHelpers :=
  (pipeline_repairs_iff (by decide) (by decide) (by decide)).2
    ⟨Pipe.isRequestorHolder_eq_none (by decide) (by decide), by decide, by decide, by decide⟩

/-- One of the helpers asks. -/
theorem not_repairs_helper : ¬ Repairs ⟨2, 8, 0⟩ 1 twoHelpers := by
  intro hrepairs
  obtain ⟨h, hreq, hserves⟩ := hrepairs [] ∅
  have hfound : (Pipe.isRequestorHolder twoHelpers 1).isSome = true :=
    Pipe.isRequestorHolder_isSome (by decide) (by decide)
  refine not_serves_of_holder (by decide) (fun hnone => ?_) hreq hserves
  rw [hnone] at hfound
  cases hfound

end Main

end PipeDR

end CoRD
