import CoRD.Update.Consistency

/-!
# RaidConsistency — the stripe after a RAID update

The collector encodes its own block as it is, where the others give their deltas, and never writes
its new content; the rows go to the parity nodes in reverse, and these store a row in place of their
block.  `RaidAgrees` says when the stripe is right all the same (`raid_consistent_iff`).
-/

namespace CoRD

open MsgNet

variable {conf : Config} {newData : Int → Buf} {rsEncMat : Int → Int} {U : List UpdBlock}
  {store : Host → NodeState} {rand : Nat}

section Agrees

variable (conf newData rsEncMat) (U : List UpdBlock) (store : Host → NodeState) (col : UpdBlock)

/-- What the deltas of the updated blocks make in row `i` of the encoding. -/
def raidDeltaRow (i : Nat) : Buf :=
  fun x => (U.map fun b =>
    GF256.ofInt (rsEncMat (i * conf.ecK + b.id)) * (block store b.id x + newData b.id x)).sum

/-- Row `r` as the collector sends it when its own bytes stay the same: the deltas and its old block,
or what its memory holds when all coefficients of the row are zero. -/
def raidSentRow (r : Nat) : Buf :=
  fun x =>
    if ∀ b ∈ U, rsEncMat (r * conf.ecK + b.id) = 0 then (store (dataNode col)).heap r x
    else raidDeltaRow conf newData rsEncMat U store r x +
      GF256.ofInt (rsEncMat (r * conf.ecK + col.id)) * block store col.id x

/-- The new bytes of the collector `col` are the ones it has, and the old parity block `i` is the
difference between the deltas in row `i` and what is sent in row `m - 1 - i`. -/
def RaidAgrees : Prop :=
  EqOnBlock conf (block store col.id) (newData col.id) ∧
    ∀ i < conf.ecM, ∀ x : Int, 0 ≤ x → x < conf.blocksize * 1024 →
      block store (parityId conf i) x =
        raidDeltaRow conf newData rsEncMat U store i x +
          raidSentRow conf newData rsEncMat U store col (conf.ecM - 1 - i) x

end Agrees

/-! ## The blocks after the stripe -/

section Effect

theorem block_raid_data (hv : ValidUpd conf U) (hm : 0 < conf.ecM) {b : UpdBlock} (hb : b ∈ U)
    (hne : b.id ≠ (Stripe.mk .raid U rand).raidCollector.id) {x : Int} (h0 : 0 ≤ x)
    (hx : x < conf.blocksize * 1024) :
    block (stripeEffect conf newData rsEncMat ⟨.raid, U, rand⟩ store) b.id x = newData b.id x := by
  let st : Stripe := ⟨.raid, U, rand⟩
  have hcol : st.raidCollector ∈ U := raidCollector_mem hv
  let C : Cast (network conf rsEncMat newData []) store := raidCast hm hv hcol
  have hmem : raidDataRole conf newData store st.raidCollector b ∈ C.roles :=
    mem_raidRoles.2 (Or.inl ⟨b, mem_raidOthers.2 ⟨hb, hne⟩, rfl⟩)
  have hfinal : stripeEffect conf newData rsEncMat st store (dataNode b) =
      (raidDataRole conf newData store st.raidCollector b).final := Cast.final_of_mem hmem
  rw [dataNode] at hfinal
  rw [block, hfinal]
  simp only [raidDataRole, raidDataFinal, writeDataToDisk_disk]
  rw [memcpy_of_mem ⟨h0, by omega⟩, sub_zero]

theorem block_raid_collector (hv : ValidUpd conf U) (hm : 0 < conf.ecM) :
    block (stripeEffect conf newData rsEncMat ⟨.raid, U, rand⟩ store)
        (Stripe.mk .raid U rand).raidCollector.id =
      block store (Stripe.mk .raid U rand).raidCollector.id := by
  let st : Stripe := ⟨.raid, U, rand⟩
  have hcol : st.raidCollector ∈ U := raidCollector_mem hv
  let C : Cast (network conf rsEncMat newData []) store := raidCast hm hv hcol
  have hmem : raidCollectorRole conf newData rsEncMat U store st.raidCollector ∈ C.roles :=
    mem_raidRoles.2 (Or.inr (Or.inl rfl))
  have hfinal : stripeEffect conf newData rsEncMat st store (dataNode st.raidCollector) =
      (raidCollectorRole conf newData rsEncMat U store st.raidCollector).final :=
    Cast.final_of_mem hmem
  rw [dataNode] at hfinal
  rw [block, hfinal]
  rfl

theorem block_raid_outside (hv : ValidUpd conf U) (hm : 0 < conf.ecM) {id : Int}
    (hk : id < conf.ecK) (hid : id ∉ U.map UpdBlock.id) :
    block (stripeEffect conf newData rsEncMat ⟨.raid, U, rand⟩ store) id = block store id := by
  let st : Stripe := ⟨.raid, U, rand⟩
  have hcol : st.raidCollector ∈ U := raidCollector_mem hv
  let C : Cast (network conf rsEncMat newData []) store := raidCast hm hv hcol
  have hout : ∀ r ∈ C.roles, r.host ≠ .node id := by
    intro r hr heq
    rcases mem_raidRoles.1 hr with ⟨b, hb, rfl⟩ | rfl | ⟨i, _, rfl⟩
    · exact hid (Host.node.inj heq ▸ List.mem_map_of_mem (mem_raidOthers.1 hb).1)
    · exact hid (Host.node.inj heq ▸ List.mem_map_of_mem hcol)
    · have hpar : parityId conf i = id := Host.node.inj heq
      simp only [parityId] at hpar
      omega
  exact block_congr (Cast.final_of_not_mem hout)

theorem block_raid_parity (hv : ValidUpd conf U) (hm : 0 < conf.ecM) {i : Nat} (hi : i < conf.ecM)
    {x : Int} (h0 : 0 ≤ x) (hx : x < conf.blocksize * 1024) :
    block (stripeEffect conf newData rsEncMat ⟨.raid, U, rand⟩ store) (parityId conf i) x =
      raidParity conf newData rsEncMat U store (Stripe.mk .raid U rand).raidCollector.id
        (conf.ecM - 1 - i) x := by
  let st : Stripe := ⟨.raid, U, rand⟩
  have hcol : st.raidCollector ∈ U := raidCollector_mem hv
  let C : Cast (network conf rsEncMat newData []) store := raidCast hm hv hcol
  have hmem : raidParityRole conf newData rsEncMat U store st.raidCollector i ∈ C.roles :=
    mem_raidRoles.2 (Or.inr (Or.inr ⟨i, hi, rfl⟩))
  have hfinal : stripeEffect conf newData rsEncMat st store (parityNode conf i) =
      (raidParityRole conf newData rsEncMat U store st.raidCollector i).final :=
    Cast.final_of_mem hmem
  rw [parityNode] at hfinal
  rw [block, hfinal]
  simp only [raidParityRole, writeDataToDisk_disk]
  rw [memcpy_of_mem ⟨h0, by omega⟩, sub_zero]

end Effect

/-! ## What the parity nodes store -/

/-- Row `r` of the collector, when its own delta is zero at byte `x`. -/
theorem raidParity_eq (hnodup : (U.map UpdBlock.id).Nodup) {col : UpdBlock} (hcol : col ∈ U)
    {x : Int} (hsame : block store col.id x = newData col.id x) (r : Nat) :
    raidParity conf newData rsEncMat U store col.id r x =
      raidSentRow conf newData rsEncMat U store col r x := by
  have hterm : ∀ b ∈ U, GF256.ofInt (rsEncMat (r * conf.ecK + b.id)) *
        raidOperand newData store col.id b.id x =
      GF256.ofInt (rsEncMat (r * conf.ecK + b.id)) * (block store b.id x + newData b.id x) +
        if b.id = col.id then
          GF256.ofInt (rsEncMat (r * conf.ecK + col.id)) * block store col.id x
        else 0 := by
    intro b _
    by_cases hb : b.id = col.id
    · rw [raidOperand, if_pos hb, if_pos hb, hb, ← hsame, GF256.add_self, mul_zero, zero_add]
      rfl
    · rw [raidOperand, if_neg hb, if_neg hb, add_zero]
      rfl
  have hone : U.Pairwise fun b b' => ¬ (b.id = col.id ∧ b'.id = col.id) := by
    rw [List.Nodup, List.pairwise_map] at hnodup
    exact hnodup.imp fun hne h => hne (h.1.trans h.2.symm)
  have hsum : (U.map fun b => GF256.ofInt (rsEncMat (r * conf.ecK + b.id)) *
        raidOperand newData store col.id b.id x).sum =
      raidDeltaRow conf newData rsEncMat U store r x +
        GF256.ofInt (rsEncMat (r * conf.ecK + col.id)) * block store col.id x := by
    rw [List.map_congr_left hterm, List.sum_map_add, Keyed.sum_map_ite _ hone,
      if_pos ⟨col, hcol, rfl⟩, raidDeltaRow]
  rw [raidParity, hsum]
  rfl

/-- The encoding after the stripe, at a byte where all updated blocks are new. -/
theorem encode_raid (hv : ValidUpd conf U) (hm : 0 < conf.ecM) {x : Int}
    (hnew : ∀ b ∈ U, block (stripeEffect conf newData rsEncMat ⟨.raid, U, rand⟩ store) b.id x =
      newData b.id x) (i : Nat) :
    encode conf rsEncMat (block (stripeEffect conf newData rsEncMat ⟨.raid, U, rand⟩ store)) i x =
      encode conf rsEncMat (block store) i x + raidDeltaRow conf newData rsEncMat U store i x := by
  refine Eq.trans (encode_congr (fun id h0 hk => ?_) i)
    (encode_writeAll (fun b _ => newData b.id) hv.nodup hv.mem_data i x)
  by_cases hid : id ∈ U.map UpdBlock.id
  · obtain ⟨b, hb, rfl⟩ := List.mem_map.1 hid
    rw [Keyed.writeAll_of_mem hv.nodup hb, hnew b hb]
  · rw [Keyed.writeAll_of_not_mem hid, block_raid_outside hv hm hk hid]

/-- Moving a summand to the other side. -/
theorem eq_add_iff_eq_add (a b c : GF256) : a = b + c ↔ c = a + b := by
  constructor
  · rintro rfl
    rw [add_comm, ← add_assoc, GF256.add_self, zero_add]
  · rintro rfl
    rw [add_comm, add_assoc, GF256.add_self, add_zero]

theorem raid_effect_iff (hv : ValidUpd conf U) (hm : 0 < conf.ecM)
    (hcons : Consistent conf rsEncMat store) :
    ((∀ b ∈ U, EqOnBlock conf
        (block (stripeEffect conf newData rsEncMat ⟨.raid, U, rand⟩ store) b.id) (newData b.id)) ∧
      Consistent conf rsEncMat (stripeEffect conf newData rsEncMat ⟨.raid, U, rand⟩ store)) ↔
    RaidAgrees conf newData rsEncMat U store (Stripe.mk .raid U rand).raidCollector := by
  let st : Stripe := ⟨.raid, U, rand⟩
  have hcol : st.raidCollector ∈ U := raidCollector_mem hv
  -- The collector's block is never written, the others are.
  have hblocks : (∀ b ∈ U, EqOnBlock conf
      (block (stripeEffect conf newData rsEncMat st store) b.id) (newData b.id)) ↔
      EqOnBlock conf (block store st.raidCollector.id) (newData st.raidCollector.id) := by
    constructor
    · intro hall x h0 hx
      rw [← hall _ hcol x h0 hx, block_raid_collector hv hm]
    · intro hsame b hb x h0 hx
      by_cases hid : b.id = st.raidCollector.id
      · rw [hid, block_raid_collector hv hm, hsame x h0 hx]
      · exact block_raid_data hv hm hb hid h0 hx
  rw [hblocks, RaidAgrees]
  refine and_congr_right fun hsame => forall_congr' fun i => forall_congr' fun hi => ?_
  refine forall_congr' fun x => forall_congr' fun h0 => forall_congr' fun hx => ?_
  have hnew : ∀ b ∈ U, block (stripeEffect conf newData rsEncMat st store) b.id x =
      newData b.id x := fun b hb => hblocks.2 hsame b hb x h0 hx
  rw [block_raid_parity hv hm hi h0 hx, encode_raid hv hm hnew, ← hcons i hi x h0 hx,
    raidParity_eq hv.nodup hcol (hsame x h0 hx)]
  exact (eq_add_iff_eq_add _ _ _).symm

/-! ## Main result -/

section Main

variable {es : List (Event Host Chan RedisStr)} {s : State Host Chan RedisStr NodeState Exit}

/-- After a RAID update the named blocks are new and the stripe is consistent exactly when the update
`RaidAgrees`. -/
theorem raid_consistent_iff (hm : 0 < conf.ecM) (hne : U ≠ []) (hnodup : (U.map UpdBlock.id).Nodup)
    (hmem : ∀ b ∈ U, 0 ≤ b.id ∧ b.id < conf.ecK) (hcons : Consistent conf rsEncMat store)
    (hr : Runs (network conf rsEncMat newData [⟨.raid, U, rand⟩]) (State.init store) es s)
    (hstarted : s.started = 1) (hdone : ∀ h, s.proc h = .done) :
    ((∀ b ∈ U, EqOnBlock conf (block s.store b.id) (newData b.id)) ∧
      Consistent conf rsEncMat s.store) ↔
    RaidAgrees conf newData rsEncMat U store (Stripe.mk .raid U rand).raidCollector := by
  have hv : ValidUpd conf U := ⟨hne, hnodup, hmem⟩
  rw [store_of_done hm hv hr hdone hstarted]
  exact raid_effect_iff hv hm hcons

/-- Disks that hold the update pattern already. -/
def patternStore : Host → NodeState :=
  fun _ => { disk := fun _ => geneRadmBuff, heap := fun _ => zeros }

theorem consistent_patternStore : Consistent pairConf (fun _ => 1) patternStore := by
  intro i _ x _ _
  simp [block, patternStore, encode, pairConf]

theorem raid_consistent_iff_pattern :
    ∃ es s, Runs (network pairConf (fun _ => 1) (fun _ => geneRadmBuff) [⟨.raid, [⟨0, 0, 1⟩], 0⟩])
        (State.init patternStore) es s ∧ s.started = 1 ∧ (∀ h, s.proc h = .done) ∧
      Consistent pairConf (fun _ => 1) s.store := by
  have hnodup : (([⟨0, 0, 1⟩] : List UpdBlock).map UpdBlock.id).Nodup := by decide
  have hmem : ∀ b ∈ ([⟨0, 0, 1⟩] : List UpdBlock), 0 ≤ b.id ∧ b.id < pairConf.ecK := by decide
  have hm : 0 < pairConf.ecM := by decide
  have hne : ([⟨0, 0, 1⟩] : List UpdBlock) ≠ [] := by decide
  obtain ⟨es, s, hr, hstarted, hdone, _⟩ := exists_run_done (fun _ => geneRadmBuff) (fun _ => 1)
    ⟨.raid, [⟨0, 0, 1⟩], 0⟩ hm ⟨hne, hnodup, hmem⟩ patternStore
  refine ⟨es, s, hr, hstarted, hdone, ?_⟩
  have hiff := raid_consistent_iff hm hne hnodup hmem consistent_patternStore hr hstarted hdone
  refine (hiff.2 ⟨fun x _ _ => rfl, fun i hi x _ _ => ?_⟩).2
  simp [raidDeltaRow, raidSentRow, block, patternStore, GF256.add_self]

/-- The collector keeps its old block. -/
theorem raid_collector_not_updated :
    Consistent pairConf (fun _ => 1) blankStore ∧
    ∃ es s, Runs (network pairConf (fun _ => 1) (fun _ => geneRadmBuff) [⟨.raid, [⟨0, 0, 1⟩], 0⟩])
        (State.init blankStore) es s ∧ s.started = 1 ∧ (∀ h, s.proc h = .done) ∧
      ¬ ((∀ b ∈ ([⟨0, 0, 1⟩] : List UpdBlock), EqOnBlock pairConf (block s.store b.id) geneRadmBuff) ∧
        Consistent pairConf (fun _ => 1) s.store) := by
  have hv : ValidUpd pairConf [⟨0, 0, 1⟩] := ⟨by decide, by decide, by decide⟩
  have hm : 0 < pairConf.ecM := by decide
  obtain ⟨es, s, hr, hstarted, hdone, _⟩ := exists_run_done (fun _ => geneRadmBuff) (fun _ => 1)
    ⟨.raid, [⟨0, 0, 1⟩], 0⟩ hm hv blankStore
  refine ⟨consistent_blankStore, es, s, hr, hstarted, hdone, fun hall => ?_⟩
  rw [store_of_done hm hv hr hdone hstarted] at hall
  have hsame := ((raid_effect_iff hv hm consistent_blankStore).1 hall).1 0 le_rfl (by decide)
  exact absurd hsame (by decide)

end Main

end CoRD
