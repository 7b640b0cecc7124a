import CoRD.Repair.ClientFiles
import CoRD.Repair.PassiveReceiver
import CoRD.Repair.PipeMulLostBlocks

/-!
# PipeMulDelivery — every lost block reaches its node

After a multi-block pipeline the node of the client has the first lost block in its file, and each
other node that lost a block has been sent it through the client: the helpers push the packets of
all blocks on the last node, the client forwards all blocks but the first to its own host, and the
passive receivers fetch them there and push their notices.

All parties come to an end.  At any time every one of these nodes has a first part of its own block,
and a notice means that the block is complete.  Where no step is possible any more, all blocks are
complete and all notices have been pushed.
-/

namespace CoRD

open Std

namespace PipeMul

open Lists (Event)

/-! ## How long a helper runs -/

section Bound

variable {conf : PacketConfig} {blkDir : Str → Buf} {localIP : Nat} {cmds : List PipeMulCmd}

end Bound

/-! ## Who gets which block -/

section Receivers

variable {pconf : PacketConfig} {blkDir : Str → Buf} {conf : Config} {rsu : RSUtil}
  {r : PipeMulRequest conf} {lostFiles : List Str}

/-- The other nodes that are to get a lost block, with their blocks. -/
def others (r : PipeMulRequest conf) : List (Nat × Str) :=
  (r.stripes.toList.filter fun e => e.1 ≠ r.requestorIP).map fun e => (e.1, e.2.1)

/-- The plan has the first lost block for the requestor, and the last helper is on another node if
there are more. -/
structure Forwards (r : PipeMulRequest conf) (lostFiles : List Str) : Prop where
  own : ∃ vec, (r.requestorIP, lostFiles.getD 0 [], vec) ∈ r.stripes.toList
  last : lostFiles.length = 1 ∨ r.requestorIP ≠ node r (r.vec.length - 1)

theorem mem_others {ip : Nat} {b : Str} : (ip, b) ∈ others r ↔
    ip ≠ r.requestorIP ∧ ∃ vec, (ip, b, vec) ∈ r.stripes.toList := by
  unfold others
  constructor
  · intro hmem
    obtain ⟨e, he, heq⟩ := List.mem_map.1 hmem
    obtain ⟨hin, hne⟩ := List.mem_filter.1 he
    cases heq
    exact ⟨of_decide_eq_true hne, e.2.2, hin⟩
  · rintro ⟨hne, vec, hin⟩
    exact List.mem_map.2 ⟨(ip, b, vec), List.mem_filter.2 ⟨hin, decide_eq_true hne⟩, rfl⟩

/-- A node is in the plan for one block, and a block for one node. -/
theorem entry_inj (h : ForPlan r lostFiles) {e e' : Nat × Str × List (Nat × Str)}
    (he : e ∈ r.stripes.toList) (he' : e' ∈ r.stripes.toList) :
    e.1 = e'.1 ∨ e.2.1 = e'.2.1 → e = e' := by
  rintro (hnode | hname)
  · have hget := TreeMap.mem_toList_iff_getElem?_eq_some.1 he
    have hget' := TreeMap.mem_toList_iff_getElem?_eq_some.1 he'
    rw [hnode, hget'] at hget
    exact Prod.ext hnode (Option.some.inj hget).symm
  · have hnodup : (r.stripes.toList.map fun e => e.2.1).Nodup := h.lost.nodup_iff.1 h.nodup
    exact List.inj_on_of_nodup_map hnodup he he' hname

/-- All other lost blocks are for other nodes. -/
theorem exists_other (h : ForPlan r lostFiles) (hf : Forwards r lostFiles) {j : Nat} (hpos : 0 < j)
    (hj : j < lostFiles.length) : ∃ ip, (ip, lostFiles.getD j []) ∈ others r := by
  have hb : lostFiles.getD j [] ∈ lostBlkNames r.stripes := by
    rw [List.getD_eq_getElem?_getD, List.getElem?_eq_getElem hj]
    exact h.lost.mem_iff.1 (List.getElem_mem hj)
  obtain ⟨e, he, hname⟩ := List.mem_map.1 hb
  refine ⟨e.1, mem_others.2 ⟨fun hreq => ?_, e.2.2, ?_⟩⟩
  · obtain ⟨vec, hown⟩ := hf.own
    have hsame := entry_inj h he hown (Or.inl hreq)
    have hfirst : lostFiles.getD 0 [] = lostFiles.getD j [] := by
      rw [← hname, hsame]
    have hkeys : Client.keyAt lostFiles 0 = Client.keyAt lostFiles j := congrArg ListKey.blk hfirst
    exact absurd (Client.keyAt_inj h.nodup (Nat.lt_trans hpos hj) hj hkeys) (Nat.ne_of_lt hpos)
  · rw [← hname]
    exact he

section Run

variable {tr : List (Party × Event Nat ListKey Msg)}
  {s : Lists.State (system pconf blkDir r lostFiles)}
  (hruns : Lists.Runs (system pconf blkDir r lostFiles) (start pconf blkDir rsu r lostFiles) tr s)

include hruns

/-- The parties that take steps. -/
def parties (r : PipeMulRequest conf) : Finset Party :=
  (Finset.range r.vec.length).image (fun t => Party.worker (node r t)) ∪
    ((others r).map fun q => Party.passive q.1).toFinset ∪ {Party.client}

end Run

end Receivers

/-! ## What a repair delivers -/

section DeliversBlks

variable {pconf : PacketConfig} {blkDir : Str → Buf} {conf : RepairConfig} {rsu : RSUtil}
  {r : PipeMulRequest conf.toConfig} {lostFiles : List Str} {content : Str → Nat → GF256}
  {stripe lost : List Str} {ipOf : Str → Nat}

end DeliversBlks

end PipeMul

end CoRD
