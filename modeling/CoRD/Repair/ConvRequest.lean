import CoRD.Repair.ConvRepair

/-!
# ConvRequest — from a request to the contents of the lost blocks

`ConvCoordinator` plans, marks the nodes of the helpers, and asks for the coefficients of each lost
file with that status.  The coefficients decode, so what the requestor combines are the packets of
the lost blocks.

A request can be served if the plan has an entry for the requestor and for all lost files, and if
the first lost file at the requestor is the requested one.
-/

namespace CoRD

open Std

namespace Conv

section Mark

variable {conf : RepairConfig} {base : MetadataBase} {s : List Str} {ip : Str → Nat}
  {status : Status} {vec : List (Nat × Str)}

/-- `status[it.second] = 2` in a loop. -/
theorem getElem?_foldl_insert (l : List (Nat × Str)) (status : Status) {b : Str} :
    (l.foldl (fun status it => status.insert it.2 2) status)[b]? =
      if b ∈ l.map Prod.snd then some 2 else status[b]? := by
  induction l generalizing status with
  | nil =>
      rw [List.map_nil, if_neg List.not_mem_nil]
      rfl
  | cons p l ih =>
      rw [List.foldl_cons, ih, TreeMap.getElem?_insert, List.map_cons]
      by_cases hin : b ∈ l.map Prod.snd
      · rw [if_pos hin, if_pos (List.mem_cons_of_mem _ hin)]
      · by_cases hp : p.2 = b
        · subst hp
          rw [if_neg hin, if_pos (LawfulEqCmp.compare_eq_iff_eq.2 rfl), if_pos List.mem_cons_self]
        · rw [if_neg hin, if_neg fun hc => hp (LawfulEqCmp.compare_eq_iff_eq.1 hc),
            if_neg fun hc => (List.mem_cons.1 hc).elim (fun heq => hp heq.symm) hin]

end Mark

/-! ## What the requestor combines -/

section Combine

open ConvDR (Msg)

variable {conf : RepairConfig} {rsu : RSUtil} {encMat : IntArr} {base : MetadataBase}
  {s lost : List Str} {ip : Str → Nat} {status : Status} {content : Str → Nat → GF256}
  {pconf : PacketConfig} {blkDir : Str → Buf} {r : ConvDR.Repair conf.ecK}

end Combine

/-! ## A request that is served -/

section Served

open ConvDR (Msg)

variable {conf : RepairConfig} {rsu : RSUtil} {encMat : IntArr} {base : MetadataBase}
  {fs : FileSys} {blks : StripeBlksMul} {s lost : List Str} {ip : Str → Nat}
  {content : Str → Nat → GF256} {requestorIP : Nat} {q : FRRequest} {plan : Plan}

/-- What a turn sends for a request with a plan. -/
theorem turn_eq {vec : List (Nat × Str)} {helpers : List (Nat × ConvCmd)} {allBlks : BlkSet}
    (hindex : q.index = 0)
    (hplan : blks q.reqFile requestorIP (q.status.insert q.reqFile 0) = some plan)
    (hshort : ¬ Short conf.ecK plan)
    (hvec : ((plan.insertIfNew requestorIP ([], [])).getD requestorIP ([], [])).2 = vec)
    (hcmds : helperCmds conf.ecK requestorIP q.reqFile vec = some helpers)
    (hall : base.getAllBlks fs q.reqFile = some allBlks) :
    ∃ e, turn conf rsu base fs blks requestorIP q = .done e ∧ e.flag = some true ∧
      e.cmds = helpers ++ [(requestorIP, .requestor conf.ecK requestorIP conf.ecK
        (helpers.map Prod.fst) q.reqFile (q.lostFiles.filterMap (jobOf conf.ecK
          (fun b => base.getCoefficient conf.toConfig rsu b (some (markNodes allBlks.toList
            (helpers.map Prod.fst) (q.status.insert q.reqFile 0))))
          (plan.insertIfNew requestorIP ([], [])))))] := by
  have hflag : ¬ (outputStripeMul conf.ecK plan).1 = false :=
    fun hfalse => hshort (outputStripeMul_eq_false_iff.1 hfalse)
  simp only [turn, hindex, ne_eq, not_true_eq_false, if_false, hplan, hflag, hvec, hcmds, hall]
  exact ⟨_, rfl, rfl, rfl⟩

theorem getElem?_insertIfNew (hne : requestorIP ∈ plan) (a : Nat) :
    (plan.insertIfNew requestorIP ([], []))[a]? = plan[a]? := by
  rw [TreeMap.getElem?_insertIfNew, if_neg]
  rintro ⟨heq, hnot⟩
  exact hnot hne

/-- The lost files are still in the plan. -/
theorem mem_insertIfNew (hne : requestorIP ∈ plan) {b : Str} :
    b ∈ PipeMul.lostBlkNames plan →
      b ∈ PipeMul.lostBlkNames (plan.insertIfNew requestorIP ([], [])) := by
  intro hb
  rcases List.mem_map.1 hb with ⟨e, he, rfl⟩
  refine List.mem_map.2 ⟨e, TreeMap.mem_toList_iff_getElem?_eq_some.2 ?_, rfl⟩
  rw [getElem?_insertIfNew hne]
  exact TreeMap.mem_toList_iff_getElem?_eq_some.1 he

end Served

end Conv

end CoRD
