import CoRD.Update.Consistency

/-!
# RaidRouting — which row goes to which parity node

The collector of a RAID update gathers buffers under block ids, lines them up in the order of its map
and pushes the rows of the product.  Map order and coefficients agree whatever the order of arrival
(`run_collector`), but the index `ecN - blk_id - 1` counts the rows from the other end, and a row of
zeros is never written.  So the routing is right exactly for matrices that read the same from both
ends, without a row of zeros (`routesRight_iff`).
-/

namespace CoRD

open MsgNet

variable {conf : Config} {rsEncMat : Int → Int} {U : List UpdBlock}

section Rows

variable (conf rsEncMat) (U)

/-- The buffer of a block as it comes to the collector. -/
def collectMsg (buf : Int → Buf) (id : Int) : RedisStr :=
  { ints := [id], bytes := bytesOf (buf id) (conf.blocksize * 1024) }

/-- The buffers of the collector: its own block from its disk, the others as they came. -/
def collected (τ : NodeState) (colId : Int) (buf : Int → Buf) (id : Int) : Buf :=
  if id = colId then τ.disk id else buf id

/-- Row `i` of the coding matrix times the buffers. -/
def combination (operand : Int → Buf) (i : Nat) : Buf :=
  fun x => (U.map fun b => GF256.ofInt (rsEncMat (i * conf.ecK + b.id)) * operand b.id x).sum

/-- Row `r` as the collector computes it, with a row of zeros left as memory has it. -/
def computedRow (heap : Nat → Buf) (operand : Int → Buf) (r : Nat) : Buf :=
  fun x =>
    if ∀ b ∈ U, rsEncMat (r * conf.ecK + b.id) = 0 then heap r x
    else combination conf rsEncMat U operand r x

/-- What task 2 should push: row `i` to parity node `i`. -/
def combinationMsgs (operand : Int → Buf) : List (Host × Chan × RedisStr) :=
  (List.range conf.ecM).map fun i =>
    (parityNode conf i, .raidData,
      ⟨[], bytesOf (combination conf rsEncMat U operand i) (conf.blocksize * 1024)⟩)

/-- Whatever the collector, its disk and memory, the buffers and the order they come in, task 2
pushes to every parity node its own row of the product. -/
def RoutesRight : Prop :=
  ∀ col ∈ U, ∀ (newData : Int → Buf) (τ : NodeState) (buf : Int → Buf) (inbox : Chan → List RedisStr),
    (inbox .raidData).Perm
      ((U.filter fun b => b.id ≠ col.id).map fun b => collectMsg conf buf b.id) →
    ∃ τ', (doProcess conf newData col.id (raidCollectorCmd conf rsEncMat U)).run τ inbox =
      some (combinationMsgs conf rsEncMat U (collected τ col.id buf), τ')

/-- Rows `i` and `m - 1 - i` are the same on the updated blocks, and no row is zero on all of them. -/
def Palindrome : Prop :=
  ∀ i < conf.ecM, (∃ b ∈ U, rsEncMat (i * conf.ecK + b.id) ≠ 0) ∧
    ∀ b ∈ U, GF256.ofInt (rsEncMat (i * conf.ecK + b.id)) =
      GF256.ofInt (rsEncMat ((conf.ecM - 1 - i : Nat) * conf.ecK + b.id))

end Rows

/-! ## What task 2 pushes -/

/-- Task 2 pushes row `m - 1 - i` to parity node `i`, whatever the order of arrival. -/
theorem run_collector (hm : 0 < conf.ecM) (hv : ValidUpd conf U) {col : UpdBlock} (hcol : col ∈ U)
    (newData : Int → Buf) (τ : NodeState) (buf : Int → Buf) {inbox : Chan → List RedisStr}
    (hbox : (inbox .raidData).Perm
      ((U.filter fun b => b.id ≠ col.id).map fun b => collectMsg conf buf b.id)) :
    (doProcess conf newData col.id (raidCollectorCmd conf rsEncMat U)).run τ inbox =
      some ((List.range conf.ecM).map fun i =>
        (parityNode conf i, .raidData,
          ⟨[], bytesOf (computedRow conf rsEncMat U τ.heap (collected τ col.id buf)
            (conf.ecM - 1 - i)) (conf.blocksize * 1024)⟩),
        τ.takeHeap conf.ecM) := by
  -- the round of the other modules with blank disks, where the deltas are the buffers
  let σ : Host → NodeState := Function.update blankStore (.node col.id) τ
  have hself : σ (.node col.id) = τ := Function.update_self _ _ _
  have hother : ∀ id, id ≠ col.id → raidDelta buf σ id = buf id := by
    intro id hid
    have hblank : σ (.node id) = blankStore (.node id) :=
      Function.update_of_ne (fun h => hid (Host.node.inj h)) _ _
    funext x
    rw [raidDelta, hblank]
    exact zero_add _
  have hmsgs : ((U.filter fun b => b.id ≠ col.id).map fun b => raidDataMsg conf buf σ b.id) =
      (U.filter fun b => b.id ≠ col.id).map fun b => collectMsg conf buf b.id := by
    refine List.map_congr_left fun b hb => ?_
    have hne : b.id ≠ col.id := of_decide_eq_true (List.mem_filter.1 hb).2
    rw [raidDataMsg, collectMsg, hother b.id hne]
  have hoperand : ∀ id, raidOperand buf σ col.id id = collected τ col.id buf id := by
    intro id
    unfold raidOperand collected
    by_cases hid : id = col.id
    · rw [if_pos hid, if_pos hid, hid, hself]
    · rw [if_neg hid, if_neg hid, hother id hid]
  have hrows : ∀ r, raidParity conf buf rsEncMat U σ col.id r =
      computedRow conf rsEncMat U τ.heap (collected τ col.id buf) r := by
    intro r
    funext x
    simp only [raidParity, computedRow, combination, hself, hoperand]
  have hfollows : Follows (EndsIn ((σ (.node col.id)).takeHeap conf.ecM))
      (doProcess conf buf col.id (raidCollectorCmd conf rsEncMat U)) (σ (.node col.id))
      (rcvRest .raidData
        ((U.filter fun b => b.id ≠ col.id).map fun b => raidDataMsg conf buf σ b.id)
        (((List.range conf.ecM).map fun i => (parityNode conf i, Chan.raidData,
          raidParityMsg conf buf rsEncMat U σ col.id i)).map
            fun x => .snd x.1 x.2.1 x.2.2)) := by
    rw [List.map_map]
    exact follows_task2 hm hv.nodup (List.mem_map_of_mem hcol)
  have hsame : doProcess conf newData col.id (raidCollectorCmd conf rsEncMat U) =
      doProcess conf buf col.id (raidCollectorCmd conf rsEncMat U) := by
    rw [raidCollectorCmd, doProcess_task2, doProcess_task2]
  have hrun := hfollows.run_eq (hbox.trans (hmsgs ▸ List.Perm.refl _)) rfl
  rw [hself] at hrun
  rw [hsame, hrun]
  simp only [raidParityMsg, hrows]

/-- What is left of the routing once task 2 is run: the rows themselves. -/
theorem routesRight_iff_rows (hm : 0 < conf.ecM) (hv : ValidUpd conf U) :
    RoutesRight conf rsEncMat U ↔ ∀ (heap : Nat → Buf) (operand : Int → Buf), ∀ i < conf.ecM,
      ∀ x : Int, 0 ≤ x → x < conf.blocksize * 1024 →
        computedRow conf rsEncMat U heap operand (conf.ecM - 1 - i) x =
          combination conf rsEncMat U operand i x := by
  constructor
  · intro h heap operand i hi x h0 hx
    rcases List.exists_mem_of_ne_nil U hv.ne_nil with ⟨col, hcol⟩
    let τ : NodeState := { disk := operand, heap := heap }
    let ms := (U.filter fun b => b.id ≠ col.id).map fun b => collectMsg conf operand b.id
    have hoperand : collected τ col.id operand = operand := by
      funext id
      unfold collected
      split <;> rfl
    rcases h col hcol operand τ operand (fun _ => ms) (List.Perm.refl ms) with ⟨τ', hrun⟩
    rw [run_collector hm hv hcol operand τ operand (List.Perm.refl ms), hoperand] at hrun
    have hmsgs := (Prod.mk.inj (Option.some.inj hrun)).1
    have hmsg := List.map_inj_left.1 hmsgs i (List.mem_range.2 hi)
    simp only [Prod.mk.injEq, RedisStr.mk.injEq, true_and] at hmsg
    exact bytesOf_inj hmsg h0 hx
  · intro h col hcol newData τ buf inbox hbox
    refine ⟨τ.takeHeap conf.ecM, ?_⟩
    rw [run_collector hm hv hcol newData τ buf hbox, combinationMsgs]
    refine congrArg (fun msgs => some (msgs, τ.takeHeap conf.ecM)) ?_
    refine List.map_congr_left fun i hi => ?_
    rw [bytesOf_congr (h τ.heap (collected τ col.id buf) i (List.mem_range.1 hi))]

/-! ## Exactly when the routing is right -/

/-- All buffers zero: a row of zeros shows what the memory holds. -/
theorem RoutesRight.row_ne_zero (hm : 0 < conf.ecM) (hv : ValidUpd conf U)
    (hbs : 0 < conf.blocksize) (h : RoutesRight conf rsEncMat U) {i : Nat} (hi : i < conf.ecM) :
    ∃ b ∈ U, rsEncMat (i * conf.ecK + b.id) ≠ 0 := by
  by_contra hno
  have hzero : ∀ b ∈ U, rsEncMat (i * conf.ecK + b.id) = 0 := by
    intro b hb
    by_contra hne
    exact hno ⟨b, hb, hne⟩
  have hrow : conf.ecM - 1 - (conf.ecM - 1 - i) = i := by omega
  have hmem := (routesRight_iff_rows hm hv).1 h (fun _ _ => 1) (fun _ => zeros)
    (conf.ecM - 1 - i) (by omega) 0 (le_refl 0) (by omega)
  have hsum : combination conf rsEncMat U (fun _ => zeros) (conf.ecM - 1 - i) 0 = 0 := by
    apply List.sum_eq_zero
    intro y hy
    rcases List.mem_map.1 hy with ⟨b, _, rfl⟩
    exact mul_zero _
  rw [hrow, hsum, computedRow, if_pos hzero] at hmem
  exact one_ne_zero hmem

/-- One buffer of ones shows the coefficient of its block. -/
theorem combination_single (hv : ValidUpd conf U) {b : UpdBlock} (hb : b ∈ U) (i : Nat) (x : Int) :
    combination conf rsEncMat U (fun id _ => if id = b.id then 1 else 0) i x =
      GF256.ofInt (rsEncMat (i * conf.ecK + b.id)) := by
  have hone : U.Pairwise fun a a' => ¬ (a.id = b.id ∧ a'.id = b.id) := by
    have hnodup := hv.nodup
    rw [List.Nodup, List.pairwise_map] at hnodup
    exact hnodup.imp fun hne h => hne (h.1.trans h.2.symm)
  have hterm : ∀ a ∈ U, GF256.ofInt (rsEncMat (i * conf.ecK + a.id)) *
      (if a.id = b.id then (1 : GF256) else 0) =
      if a.id = b.id then GF256.ofInt (rsEncMat (i * conf.ecK + b.id)) else 0 := by
    intro a _
    by_cases ha : a.id = b.id
    · rw [if_pos ha, if_pos ha, ha, mul_one]
    · rw [if_neg ha, if_neg ha, mul_zero]
  show (U.map fun a => GF256.ofInt (rsEncMat (i * conf.ecK + a.id)) *
    (if a.id = b.id then (1 : GF256) else 0)).sum = _
  rw [List.map_congr_left hterm, Keyed.sum_map_ite _ hone, if_pos ⟨b, hb, rfl⟩]

theorem RoutesRight.rows_agree (hm : 0 < conf.ecM) (hv : ValidUpd conf U)
    (hbs : 0 < conf.blocksize) (h : RoutesRight conf rsEncMat U) {i : Nat} (hi : i < conf.ecM)
    {b : UpdBlock} (hb : b ∈ U) : GF256.ofInt (rsEncMat (i * conf.ecK + b.id)) =
      GF256.ofInt (rsEncMat ((conf.ecM - 1 - i : Nat) * conf.ecK + b.id)) := by
  have hrow := (routesRight_iff_rows hm hv).1 h (fun _ => zeros)
    (fun id _ => if id = b.id then 1 else 0) i hi 0 (le_refl 0) (by omega)
  rcases h.row_ne_zero hm hv hbs (i := conf.ecM - 1 - i) (by omega) with ⟨a, ha, hne⟩
  rw [computedRow, if_neg fun hall => hne (hall a ha), combination_single hv hb,
    combination_single hv hb] at hrow
  exact hrow.symm

/-- The routing is right exactly for blocks of no bytes and for matrices that read the same from
both ends. -/
theorem routesRight_iff (hm : 0 < conf.ecM) (hv : ValidUpd conf U) :
    RoutesRight conf rsEncMat U ↔ conf.blocksize = 0 ∨ Palindrome conf rsEncMat U := by
  constructor
  · intro h
    rcases Nat.eq_zero_or_pos conf.blocksize with hbs | hbs
    · exact Or.inl hbs
    · right
      intro i hi
      exact ⟨h.row_ne_zero hm hv hbs hi, fun b hb => h.rows_agree hm hv hbs hi hb⟩
  · intro h
    apply (routesRight_iff_rows hm hv).2
    intro heap operand i hi x h0 hx
    rcases h with hbs | hpal
    · rw [hbs] at hx
      exact absurd h0 (by omega)
    · rcases (hpal (conf.ecM - 1 - i) (by omega)).1 with ⟨a, ha, hne⟩
      rw [computedRow, if_neg fun hall => hne (hall a ha)]
      -- row m - 1 - i has the coefficients of row i
      refine congrArg List.sum (List.map_congr_left fun b hb => ?_)
      rw [(hpal i hi).2 b hb]

/-- With one parity node there is one row, and it goes to that node. -/
theorem routesRight_pair : RoutesRight pairConf (fun _ => 1) [⟨0, 0, 1⟩] := by
  have hm : 0 < pairConf.ecM := by decide
  have hv : ValidUpd pairConf [⟨0, 0, 1⟩] := ⟨by decide, by decide, by decide⟩
  refine (routesRight_iff hm hv).2 (Or.inr ?_)
  unfold Palindrome
  decide

/-- One data block and two parity blocks. -/
def twoRows : Config := ⟨1, 3, 1, Config.one_le⟩

theorem validUpd_twoRows : ValidUpd twoRows [⟨0, 0, 1⟩] :=
  ⟨by decide, by decide, by decide⟩

/-- The rows 1 and 2 go to each other's parity nodes. -/
theorem not_routesRight_twoRows : ¬ RoutesRight twoRows (fun j => j + 1) [⟨0, 0, 1⟩] := by
  intro h
  have hrows := h.rows_agree (by decide) validUpd_twoRows (by decide) (i := 0) (by decide)
    (List.mem_singleton_self _)
  exact absurd hrows (by decide)

end CoRD
