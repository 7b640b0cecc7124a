import CoRD.Update.Consistency
import CoRD.Network.Stuck

/-!
# CrdConsistency — the stripe after a CRD update

The data nodes and the parity collector end as they should (`crd_collector_parity`).  The other
parity nodes add up slices whose ranges `CrdUpdate` computes anew, with a `- 1` inside its fold;
what a sub-set has behind the end found that way is cut off (`CutOff`), and the parity is right
exactly when nothing is there (`crd_parity_iff`).
-/

namespace CoRD

open MsgNet

variable {conf : Config} {newData : Int → Buf} {rsEncMat : Int → Int} {U : List UpdBlock}
  {store : Host → NodeState} {q : Nat}

/-! ## Rows and slices -/

theorem crdPlaced_eq (b : UpdBlock) :
    crdPlaced newData store b = rangeDelta newData (block store) b := by
  funext x
  by_cases hx : b.offsetAdd * 1024 ≤ x ∧ x < (b.offsetAdd + b.updSize) * 1024
  · rw [crdPlaced, memcpy_of_mem ⟨hx.1, by linarith [hx.2]⟩, crdDelta, rangeDelta, if_pos hx,
      add_sub_cancel]
    rfl
  · rw [crdPlaced, memcpy_of_not_mem (by rwa [← add_mul]), rangeDelta, if_neg hx, zeros_apply]

/-- Row `i` of the parity delta is what the update adds to parity `i`. -/
theorem encode_updated_eq_crdRow (hnodup : (U.map UpdBlock.id).Nodup)
    (hmem : ∀ b ∈ U, 0 ≤ b.id ∧ b.id < conf.ecK) {i : Nat} {x : Int} (h0 : 0 ≤ x)
    (hx : x < conf.blocksize * 1024) :
    encode conf rsEncMat (updated newData U (block store)) i x =
      encode conf rsEncMat (block store) i x + crdRow conf newData rsEncMat U store i x := by
  rw [encode_updated hnodup hmem, crdRow, if_pos ⟨h0, hx⟩]
  simp only [crdPlaced_eq]

/-- Byte `x` of the sub-set `N` lies before the end of a block of `N`, but not before the end of any
block less the number of blocks listed behind it. -/
def CutOff (N : List UpdBlock) (x : Int) : Prop :=
  (∃ b ∈ N, x < b.endAdd * 1024) ∧
    ∀ (i : Nat) (b : UpdBlock), N[i]? = some b →
      (b.endAdd - (N.length - 1 - i : Int)) * 1024 ≤ x

/-- The fold of `CrdUpdate`: the end of a block counts less one for itself and one for each block
behind it. -/
theorem foldl_max_sub_one_le_iff {N : List UpdBlock} {e c : Int} :
    N.foldl (fun e b => max e (b.offsetAdd + b.updSize) - 1) e ≤ c ↔
      e - N.length ≤ c ∧
        ∀ (i : Nat) (b : UpdBlock), N[i]? = some b → b.endAdd - (N.length - i : Int) ≤ c := by
  induction N generalizing e with
  | nil =>
      simp
  | cons b N ih =>
      rw [List.foldl_cons, ih]
      constructor
      · rintro ⟨hmax, hrest⟩
        have hle := le_max_left e (b.offsetAdd + b.updSize)
        have hle' := le_max_right e (b.offsetAdd + b.updSize)
        refine ⟨by push_cast [List.length_cons]; omega, fun i b' hb' => ?_⟩
        cases i with
        | zero =>
            rw [List.getElem?_cons_zero, Option.some.injEq] at hb'
            subst hb'
            simp only [UpdBlock.endAdd, List.length_cons]
            push_cast
            omega
        | succ i =>
            rw [List.getElem?_cons_succ] at hb'
            have := hrest i b' hb'
            simp only [List.length_cons]
            push_cast
            omega
      · rintro ⟨he, hall⟩
        have hhead := hall 0 b rfl
        simp only [UpdBlock.endAdd, List.length_cons] at he hhead
        push_cast at he hhead
        refine ⟨?_, fun i b' hb' => ?_⟩
        · rcases max_choice e (b.offsetAdd + b.updSize) with h | h <;> rw [h] <;> omega
        · have := hall (i + 1) b' hb'
          simp only [List.length_cons] at this
          push_cast at this
          omega

/-- The end of the range a receiver of sub-set `N` is given. -/
def recvEnd (N : List UpdBlock) : Int :=
  (crdOffSize N).1 + (crdOffSize N).2

/-- Blocks with a non-empty updated range inside their data block. -/
def Ranges (conf : Config) (D : List UpdBlock) : Prop :=
  ∀ b ∈ D, 0 ≤ b.offsetAdd ∧ 0 < b.updSize ∧ b.offsetAdd + b.updSize ≤ conf.blocksize

theorem Ranges.inBlock {D : List UpdBlock} (h : Ranges conf D) : InBlock conf D :=
  fun b hb => ⟨(h b hb).1, (h b hb).2.1.le, (h b hb).2.2⟩

theorem Ranges.endAdd_pos {D : List UpdBlock} (h : Ranges conf D) {b : UpdBlock} (hb : b ∈ D) :
    0 < b.endAdd := by
  have := h b hb
  simp only [UpdBlock.endAdd]
  omega

section SubSet

variable {N : List UpdBlock}

theorem recvEnd_eq (N : List UpdBlock) :
    recvEnd N = N.foldl (fun e b => max e (b.offsetAdd + b.updSize) - 1) 0 + 1 := by
  simp only [recvEnd, crdOffSize]
  omega

theorem recvEnd_le_iff (hN : Ranges conf N) (hne : N ≠ []) {x : Int} :
    recvEnd N * 1024 ≤ x ↔ ∀ (i : Nat) (b : UpdBlock), N[i]? = some b →
      (b.endAdd - (N.length - 1 - i : Int)) * 1024 ≤ x := by
  rw [recvEnd_eq, ← Int.le_ediv_iff_mul_le (by norm_num), Int.add_one_le_iff,
    ← Int.le_sub_one_iff, foldl_max_sub_one_le_iff]
  constructor
  · rintro ⟨-, hall⟩ i b hb
    have := hall i b hb
    rw [← Int.le_ediv_iff_mul_le (by norm_num)]
    omega
  · intro hall
    have hall' : ∀ (i : Nat) (b : UpdBlock), N[i]? = some b →
        b.endAdd - (N.length - i : Int) ≤ x / 1024 - 1 := by
      intro i b hb
      have := hall i b hb
      rw [← Int.le_ediv_iff_mul_le (by norm_num)] at this
      omega
    refine ⟨?_, hall'⟩
    cases N with
    | nil =>
        exact absurd rfl hne
    | cons b N =>
        have hpos := hN.endAdd_pos (List.mem_cons_self (a := b))
        have := hall' 0 b rfl
        push_cast at this
        omega

theorem recvEnd_le_endAdd (hne : N ≠ []) : recvEnd N ≤ endAdd N := by
  have hlen := List.length_pos_of_ne_nil hne
  have hends := Hull.highest_le_iff.1 (le_refl (endAdd N))
  have hfold : N.foldl (fun e b => max e (b.offsetAdd + b.updSize) - 1) 0 ≤ endAdd N - 1 := by
    rw [foldl_max_sub_one_le_iff]
    refine ⟨by have := hends.1; omega, fun i b hb => ?_⟩
    have hi := (List.getElem?_eq_some_iff.1 hb).1
    have := hends.2 b (List.mem_of_getElem? hb)
    omega
  rw [recvEnd_eq]
  omega

theorem startAdd_lt_recvEnd (hN : Ranges conf N) (hne : N ≠ []) : startAdd N < recvEnd N := by
  have hlast := (recvEnd_le_iff hN hne).1 (le_refl (recvEnd N * 1024)) (N.length - 1)
    (N.getLast hne) (by rw [List.getLast_eq_getElem]; simp)
  have hlo : startAdd N ≤ (N.getLast hne).offsetAdd := Hull.lowest_le (List.getLast_mem hne)
  have hsize := (hN _ (List.getLast_mem hne)).2.1
  have hlen := List.length_pos_of_ne_nil hne
  have hcast : ((N.length - 1 : Nat) : Int) = N.length - 1 := by omega
  rw [hcast, sub_self, sub_zero] at hlast
  simp only [UpdBlock.endAdd] at hlast
  omega

theorem sliceOffSize_eq (hN : Ranges conf N) (hne : N ≠ []) :
    sliceOffSize N = (startAdd N, endAdd N - startAdd N) := by
  have hhigh : Hull.highest (fun b => b.endAdd - 1) INT_MIN N = endAdd N - 1 := by
    refine le_antisymm (Hull.highest_le_iff.2 ?_) ?_
    · have hends := Hull.highest_le_iff.1 (le_refl (endAdd N))
      refine ⟨by have := hends.1; simp only [INT_MIN]; omega, fun b hb => ?_⟩
      have := hends.2 b hb
      omega
    · have hle := Hull.highest_le_iff.1
        (le_refl (Hull.highest (fun b => b.endAdd - 1) INT_MIN N))
      have hends : endAdd N ≤ Hull.highest (fun b => b.endAdd - 1) INT_MIN N + 1 := by
        refine Hull.highest_le_iff.2 ⟨?_, fun b hb => ?_⟩
        · obtain ⟨b, hb⟩ := List.exists_mem_of_ne_nil N hne
          have := hle.2 b hb
          have := hN.endAdd_pos hb
          omega
        · have := hle.2 b hb
          omega
      omega
  rw [sliceOffSize, hhigh]
  congr 1
  omega

theorem cutOff_iff (hN : Ranges conf N) (hne : N ≠ []) {x : Int} :
    CutOff N x ↔ recvEnd N * 1024 ≤ x ∧ x < endAdd N * 1024 := by
  rw [CutOff, ← recvEnd_le_iff hN hne, and_comm]
  refine and_congr_right fun _ => ⟨?_, fun hx => ?_⟩
  · rintro ⟨b, hb, hx⟩
    have hle : b.endAdd ≤ endAdd N := Hull.le_highest hb
    omega
  · by_contra hno
    have hall : ∀ b ∈ N, b.endAdd ≤ x / 1024 := by
      intro b hb
      rw [Int.le_ediv_iff_mul_le (by norm_num)]
      exact not_lt.1 fun hlt => hno ⟨b, hb, hlt⟩
    have hzero : 0 ≤ x / 1024 := by
      obtain ⟨b, hb⟩ := List.exists_mem_of_ne_nil N hne
      have := hall b hb
      have := hN.endAdd_pos hb
      omega
    have hle : endAdd N ≤ x / 1024 := Hull.highest_le_iff.2 ⟨hzero, hall⟩
    rw [Int.le_ediv_iff_mul_le (by norm_num)] at hle
    omega

/-- A slice, put in place, is the row up to the end the receiver is given. -/
theorem crdSlicePlaced_apply (hN : Ranges conf N) (hne : N ≠ []) {j : Nat}
    (hj : (getUpdSoluCrd U)[j]? = some N) (i : Nat) (x : Int) :
    crdSlicePlaced conf newData rsEncMat U store i j x =
      if startAdd N * 1024 ≤ x ∧ x < recvEnd N * 1024 then
        crdRow conf newData rsEncMat U store i x
      else 0 := by
  have hget : (getUpdSoluCrd U).getD j [] = N := by
    rw [List.getD_eq_getElem?_getD, hj]
    rfl
  have hstart : (crdOffSize N).1 = startAdd N := rfl
  have hend : (crdOffSize N).1 * 1024 + (crdOffSize N).2 * 1024 = recvEnd N * 1024 := by
    rw [recvEnd, add_mul]
  simp only [crdSlicePlaced, crdSliceMsg, hget, sliceOffSize_eq hN hne]
  by_cases hx : startAdd N * 1024 ≤ x ∧ x < recvEnd N * 1024
  · have hle := recvEnd_le_endAdd hne
    have hpos : (4 : Int) = 4 * ([(j : Int)].length : Int) := rfl
    have h0 : 0 ≤ x - startAdd N * 1024 := by omega
    have hlt : x - startAdd N * 1024 < (endAdd N - startAdd N) * 1024 := by omega
    rw [if_pos hx, memcpy_of_mem (by rw [hend]; exact hx), hstart,
      RedisStr.data_bytesOf hpos h0 hlt, Buf.advance_apply, add_sub_cancel]
  · rw [if_neg hx, memcpy_of_not_mem (by rw [hend]; exact hx), zeros_apply]

end SubSet

/-! ## All slices -/

theorem Ranges.of_mem {N : List UpdBlock} (hU : Ranges conf U) (hN : N ∈ getUpdSoluCrd U) :
    Ranges conf N := fun b hb =>
  hU b ((flatten_getUpdSoluCrd_perm U).mem_iff.1 (List.mem_flatten_of_mem hN hb))

/-- Where two sub-sets both reach there would be no gap between them. -/
theorem eq_of_both_reach (hU : Ranges conf U) {P N : List UpdBlock} (hP : P ∈ getUpdSoluCrd U)
    (hN : N ∈ getUpdSoluCrd U) {x : Int} (hxP : startAdd P * 1024 ≤ x ∧ x < endAdd P * 1024)
    (hxN : startAdd N * 1024 ≤ x ∧ x < endAdd N * 1024) : P = N := by
  by_contra hne
  have hsep : SeparatedSets P N := (pairwise_separated hU.inBlock).forall hP hN hne
  have hsep' : endAdd P < startAdd N ∨ endAdd N < startAdd P := hsep
  omega

/-- Outside all sub-sets a row is zero. -/
theorem crdRow_eq_zero (hnodup : (U.map UpdBlock.id).Nodup) {x : Int}
    (hx : ∀ N ∈ getUpdSoluCrd U, ¬ (startAdd N * 1024 ≤ x ∧ x < endAdd N * 1024)) (i : Nat) :
    crdRow conf newData rsEncMat U store i x = 0 := by
  rw [crdRow]
  split
  · refine List.sum_eq_zero fun y hy => ?_
    obtain ⟨b, hb, rfl⟩ := List.mem_map.1 hy
    obtain ⟨j, N, hN, hbN, _⟩ := exists_subSet hnodup hb
    have hlo : startAdd N ≤ b.offsetAdd := Hull.lowest_le hbN
    have hhi : b.endAdd ≤ endAdd N := Hull.le_highest hbN
    have hout : ¬ (b.offsetAdd * 1024 ≤ x ∧ x < (b.offsetAdd + b.updSize) * 1024) := by
      have := hx N (List.mem_of_getElem? hN)
      simp only [UpdBlock.endAdd] at hhi
      omega
    simp only [crdPlaced_eq, rangeDelta, if_neg hout, mul_zero]
  · rfl

/-- The slices of parity node `i` add up to its row where the range of a receiver reaches. -/
theorem sum_crdSlicePlaced (hU : Ranges conf U) (i : Nat) (x : Int) :
    ((List.range (getUpdSoluCrd U).length).map fun j =>
        crdSlicePlaced conf newData rsEncMat U store i j x).sum =
      if ∃ N ∈ getUpdSoluCrd U, startAdd N * 1024 ≤ x ∧ x < recvEnd N * 1024 then
        crdRow conf newData rsEncMat U store i x
      else 0 := by
  have hslices : (List.range (getUpdSoluCrd U).length).map (fun j =>
        crdSlicePlaced conf newData rsEncMat U store i j x) =
      (getUpdSoluCrd U).map fun N =>
        if startAdd N * 1024 ≤ x ∧ x < recvEnd N * 1024 then
          crdRow conf newData rsEncMat U store i x
        else 0 := by
    refine List.ext_getElem (by simp) fun j hj _ => ?_
    have hlt : j < (getUpdSoluCrd U).length := by simpa using hj
    have hmem := List.getElem_mem hlt
    rw [List.getElem_map, List.getElem_map, List.getElem_range,
      crdSlicePlaced_apply (hU.of_mem hmem) (ne_nil_of_mem hmem) (List.getElem?_eq_getElem hlt)]
  have hone : (getUpdSoluCrd U).Pairwise fun P N =>
      ¬ ((startAdd P * 1024 ≤ x ∧ x < recvEnd P * 1024) ∧
        (startAdd N * 1024 ≤ x ∧ x < recvEnd N * 1024)) := by
    refine (pairwise_separated hU.inBlock).imp_of_mem fun {P N} hP hN hsep hboth => ?_
    have hsep' : endAdd P < startAdd N ∨ endAdd N < startAdd P := hsep
    have := recvEnd_le_endAdd (ne_nil_of_mem hP)
    have := recvEnd_le_endAdd (ne_nil_of_mem hN)
    omega
  rw [hslices, Keyed.sum_map_ite _ hone]

/-- Nothing is added where a sub-set is cut off. -/
theorem sum_crdSlicePlaced_of_cutOff (hU : Ranges conf U) {P : List UpdBlock}
    (hP : P ∈ getUpdSoluCrd U) {x : Int} (hcut : CutOff P x) (i : Nat) :
    ((List.range (getUpdSoluCrd U).length).map fun j =>
      crdSlicePlaced conf newData rsEncMat U store i j x).sum = 0 := by
  rw [cutOff_iff (hU.of_mem hP) (ne_nil_of_mem hP)] at hcut
  have hlt := startAdd_lt_recvEnd (hU.of_mem hP) (ne_nil_of_mem hP)
  rw [sum_crdSlicePlaced hU, if_neg]
  rintro ⟨N, hN, hx⟩
  have hle := recvEnd_le_endAdd (ne_nil_of_mem hN)
  obtain rfl := eq_of_both_reach hU hP hN (x := x) (by omega) (by omega)
  omega

theorem sum_crdSlicePlaced_of_not_cutOff (hU : Ranges conf U) (hnodup : (U.map UpdBlock.id).Nodup)
    {x : Int} (hcut : ∀ N ∈ getUpdSoluCrd U, ¬ CutOff N x) (i : Nat) :
    ((List.range (getUpdSoluCrd U).length).map fun j =>
      crdSlicePlaced conf newData rsEncMat U store i j x).sum =
      crdRow conf newData rsEncMat U store i x := by
  rw [sum_crdSlicePlaced hU]
  by_cases hin : ∃ N ∈ getUpdSoluCrd U, startAdd N * 1024 ≤ x ∧ x < recvEnd N * 1024
  · rw [if_pos hin]
  · rw [if_neg hin, crdRow_eq_zero hnodup]
    intro N hN hx
    by_cases hlt : x < recvEnd N * 1024
    · exact hin ⟨N, hN, hx.1, hlt⟩
    · exact hcut N hN ((cutOff_iff (hU.of_mem hN) (ne_nil_of_mem hN)).2 ⟨not_lt.1 hlt, hx.2⟩)

/-! ## The blocks after the stripe -/

section Effect

variable {rand : Nat}

theorem block_crd_parity (hv : ValidUpd conf U) (hm : 0 < conf.ecM) {i : Nat} (hi : i < conf.ecM)
    (hiq : i ≠ rand % conf.ecM) {x : Int} (h0 : 0 ≤ x) (hx : x < conf.blocksize * 1024) :
    block (stripeEffect conf newData rsEncMat ⟨.crd, U, rand⟩ store) (parityId conf i) x =
      block store (parityId conf i) x + ((List.range (getUpdSoluCrd U).length).map fun j =>
        crdSlicePlaced conf newData rsEncMat U store i j x).sum := by
  let C : Cast (network conf rsEncMat newData []) store := crdCast hv (Nat.mod_lt rand hm)
  have hmem : crdParityRole conf newData rsEncMat U store i ∈ C.roles :=
    mem_crdRoles.2 (Or.inr (Or.inr ⟨i, mem_crdOthers.2 ⟨hi, hiq⟩, rfl⟩))
  have hfinal : stripeEffect conf newData rsEncMat ⟨.crd, U, rand⟩ store (parityNode conf i) =
      (crdParityRole conf newData rsEncMat U store i).final := Cast.final_of_mem hmem
  rw [parityNode] at hfinal
  rw [block, hfinal]
  simp only [crdParityRole, writeDataToDisk_disk]
  rw [memcpy_of_mem ⟨h0, by omega⟩, sub_zero, crdAggre]
  rfl

theorem block_crd_collector (hv : ValidUpd conf U) (hm : 0 < conf.ecM) {x : Int} (h0 : 0 ≤ x)
    (hx : x < conf.blocksize * 1024) :
    block (stripeEffect conf newData rsEncMat ⟨.crd, U, rand⟩ store)
        (parityId conf (rand % conf.ecM)) x =
      block store (parityId conf (rand % conf.ecM)) x +
        crdRow conf newData rsEncMat U store (rand % conf.ecM) x := by
  let C : Cast (network conf rsEncMat newData []) store := crdCast hv (Nat.mod_lt rand hm)
  have hmem : crdCollectorRole conf newData rsEncMat U store (rand % conf.ecM) ∈ C.roles :=
    mem_crdRoles.2 (Or.inr (Or.inl rfl))
  have hfinal : stripeEffect conf newData rsEncMat ⟨.crd, U, rand⟩ store
        (parityNode conf (rand % conf.ecM)) =
      (crdCollectorRole conf newData rsEncMat U store (rand % conf.ecM)).final :=
    Cast.final_of_mem hmem
  rw [parityNode] at hfinal
  rw [block, hfinal]
  simp only [crdCollectorRole, crdCollectorFinal, writeDataToDisk_disk]
  rw [memcpy_of_mem ⟨h0, by omega⟩, sub_zero]
  rfl

theorem block_crd_data (hv : ValidUpd conf U) (hm : 0 < conf.ecM) {b : UpdBlock} (hb : b ∈ U) :
    block (stripeEffect conf newData rsEncMat ⟨.crd, U, rand⟩ store) b.id =
      memcpy (block store b.id) (b.offsetAdd * 1024) (newData b.id) (b.updSize * 1024) := by
  let C : Cast (network conf rsEncMat newData []) store := crdCast hv (Nat.mod_lt rand hm)
  have hmem : crdDataRole conf newData store (rand % conf.ecM) b ∈ C.roles :=
    mem_crdRoles.2 (Or.inl ⟨b, hb, rfl⟩)
  have hfinal : stripeEffect conf newData rsEncMat ⟨.crd, U, rand⟩ store (dataNode b) =
      (crdDataRole conf newData store (rand % conf.ecM) b).final := Cast.final_of_mem hmem
  rw [dataNode] at hfinal
  rw [block, hfinal]
  simp only [crdDataRole, crdDataFinal, writeDataToDisk_disk]
  rfl

theorem cutOff_mem_block (hU : Ranges conf U) {N : List UpdBlock} (hN : N ∈ getUpdSoluCrd U)
    {x : Int} (hcut : CutOff N x) : 0 ≤ x ∧ x < conf.blocksize * 1024 := by
  have hRN := hU.of_mem hN
  obtain ⟨b, hb, hx⟩ := hcut.1
  have hend := (hRN b hb).2.2
  have hcut' := (cutOff_iff hRN (ne_nil_of_mem hN)).1 hcut
  have hlt := startAdd_lt_recvEnd hRN (ne_nil_of_mem hN)
  have hstart : 0 ≤ startAdd N := Hull.le_lowest_iff.2 ⟨by decide, fun b hb => (hRN b hb).1⟩
  simp only [UpdBlock.endAdd] at hx
  omega

/-- After the stripe, parity `i` is right just when its row is zero where sub-sets are cut off. -/
theorem crd_parity_eq_iff (hv : ValidUpd conf U) (hm : 0 < conf.ecM) (hU : Ranges conf U)
    (hcons : Consistent conf rsEncMat store) {i : Nat} (hi : i < conf.ecM)
    (hiq : i ≠ rand % conf.ecM) :
    EqOnBlock conf
        (block (stripeEffect conf newData rsEncMat ⟨.crd, U, rand⟩ store) (parityId conf i))
        (encode conf rsEncMat (updated newData U (block store)) i) ↔
      ∀ N ∈ getUpdSoluCrd U, ∀ x, CutOff N x → crdRow conf newData rsEncMat U store i x = 0 := by
  constructor
  · intro heq N hN x hcut
    obtain ⟨h0, hx⟩ := cutOff_mem_block hU hN hcut
    have hx' := heq x h0 hx
    rw [block_crd_parity hv hm hi hiq h0 hx, sum_crdSlicePlaced_of_cutOff hU hN hcut,
      encode_updated_eq_crdRow hv.nodup hv.mem_data h0 hx, hcons i hi x h0 hx] at hx'
    exact (add_left_cancel hx').symm
  · intro hzero x h0 hx
    rw [block_crd_parity hv hm hi hiq h0 hx,
      encode_updated_eq_crdRow hv.nodup hv.mem_data h0 hx, hcons i hi x h0 hx]
    congr 1
    by_cases hcut : ∃ N ∈ getUpdSoluCrd U, CutOff N x
    · obtain ⟨N, hN, hcutN⟩ := hcut
      rw [sum_crdSlicePlaced_of_cutOff hU hN hcutN, hzero N hN x hcutN]
    · exact sum_crdSlicePlaced_of_not_cutOff hU hv.nodup
        (fun N hN hcutN => hcut ⟨N, hN, hcutN⟩) i

end Effect

/-! ## An empty update vector -/

section Empty

variable {rand : Nat} {es : List (Event Host Chan RedisStr)}
  {s : State Host Chan RedisStr NodeState Exit}

/-- The commands of a CRD update that updates nothing. -/
def EmptyCrdCmd (conf : Config) (rsEncMat : Int → Int) (rand : Nat) (h : Host) (m : RedisStr) :
    Prop :=
  h ≠ .coordinator ∧
    (m = crdCollectorCmd conf rsEncMat [] (parityId conf (rand % conf.ecM)) ∨
      ∃ blkId, m = crdParityCmd [] blkId)

/-- With nothing to update the parity nodes wait for messages that never come. -/
theorem allStuck_of_empty (hm : 0 < conf.ecM)
    (hr : Runs (network conf rsEncMat newData [⟨.crd, [], rand⟩]) (State.init store) es s) :
    AllStuck (network conf rsEncMat newData [⟨.crd, [], rand⟩])
      (EmptyCrdCmd conf rsEncMat rand) store s := by
  have hack : Chan.ack ≠ .updCmds := by decide
  have hcrd : Chan.crdData ≠ .updCmds := by decide
  refine AllStuck.of_runs (fun p hp => ?_) (fun h m hok => ?_) hr
  · cases hp
    refine stuck_sendAll (by simp) ?_
    rw [if_neg (by simp)]
    refine stuck_sendAll (fun x hx => ?_) (stuck_popUntil hack _ _ _ _ _)
    rcases List.mem_cons.1 hx with rfl | hx
    · exact ⟨rfl, by simp, Or.inl rfl⟩
    · obtain ⟨blkId, _, rfl⟩ := List.mem_map.1 hx
      exact ⟨rfl, by simp, Or.inr ⟨blkId, rfl⟩⟩
  · cases h with
    | coordinator =>
        exact absurd rfl hok.1
    | node loc =>
        rcases hok.2 with rfl | ⟨blkId, rfl⟩
        · simp only [network]
          rw [doProcess_crdCollectorCmd conf rsEncMat [] (Nat.mod_lt rand hm) loc]
          exact stuck_popUntil hcrd _ _ _ _ _
        · simp only [network, doProcess_crdParityCmd]
          exact stuck_popUntil hcrd _ _ _ _ _

end Empty

/-! ## Main results -/

section Main

variable {rand : Nat} {es : List (Event Host Chan RedisStr)}
  {s : State Host Chan RedisStr NodeState Exit}

theorem validUpd_of_ne (hnodup : (U.map UpdBlock.id).Nodup)
    (hmem : ∀ b ∈ U, 0 ≤ b.id ∧ b.id < conf.ecK) (hne : U ≠ []) : ValidUpd conf U :=
  ⟨hne, hnodup, hmem⟩

/-- After a CRD update the parity blocks of the receivers encode the new data exactly when the
deltas cancel out at every byte where a sub-set is cut off. -/
theorem crd_parities_iff (hm : 0 < conf.ecM) (hnodup : (U.map UpdBlock.id).Nodup)
    (hmem : ∀ b ∈ U, 0 ≤ b.id ∧ b.id < conf.ecK) (hU : Ranges conf U)
    (hcons : Consistent conf rsEncMat store)
    (hr : Runs (network conf rsEncMat newData [⟨.crd, U, rand⟩]) (State.init store) es s)
    (hstarted : s.started = 1) (hdone : ∀ h, s.proc h = .done) :
    (∀ i < conf.ecM, i ≠ rand % conf.ecM →
      EqOnBlock conf (block s.store (parityId conf i))
        (encode conf rsEncMat (updated newData U (block store)) i)) ↔
    ∀ N ∈ getUpdSoluCrd U, ∀ x, CutOff N x → ∀ i < conf.ecM, i ≠ rand % conf.ecM →
      (U.map fun b => GF256.ofInt (rsEncMat (i * conf.ecK + b.id)) *
        rangeDelta newData (block store) b x).sum = 0 := by
  have hne : U ≠ [] := by
    rintro rfl
    have := ((allStuck_of_empty hm hr).not_begun (hdone .coordinator)).2 rfl
    omega
  have hv := validUpd_of_ne hnodup hmem hne
  have hrow : ∀ N ∈ getUpdSoluCrd U, ∀ x, CutOff N x → ∀ i : Nat,
      crdRow conf newData rsEncMat U store i x =
        (U.map fun b => GF256.ofInt (rsEncMat (i * conf.ecK + b.id)) *
          rangeDelta newData (block store) b x).sum := by
    intro N hN x hcut i
    rw [crdRow, if_pos (cutOff_mem_block hU hN hcut)]
    simp only [crdPlaced_eq]
  rw [store_of_done hm hv hr hdone hstarted]
  constructor
  · intro heq N hN x hcut i hi hiq
    rw [← hrow N hN x hcut]
    exact (crd_parity_eq_iff hv hm hU hcons hi hiq).1 (heq i hi hiq) N hN x hcut
  · intro hzero i hi hiq
    refine (crd_parity_eq_iff hv hm hU hcons hi hiq).2 fun N hN x hcut => ?_
    rw [hrow N hN x hcut]
    exact hzero N hN x hcut i hi hiq

/-- One data block is never cut off. -/
theorem not_cutOff_singleton (b : UpdBlock) (x : Int) : ¬ CutOff [b] x := by
  rintro ⟨⟨b', hb', hx⟩, hall⟩
  obtain rfl := List.mem_singleton.1 hb'
  have := hall 0 b' rfl
  simp at this
  omega

/-- Two data blocks and two parity blocks of two KB. -/
def cutConf : Config := ⟨2, 4, 2, by decide⟩

theorem crd_parities_iff_singleton :
    ∃ es s, Runs (network cutConf (fun _ => 1) (fun _ => geneRadmBuff) [⟨.crd, [⟨0, 1, 1⟩], 0⟩])
        (State.init blankStore) es s ∧ s.started = 1 ∧ (∀ h, s.proc h = .done) ∧
      EqOnBlock cutConf (block s.store (parityId cutConf 1))
        (encode cutConf (fun _ => 1)
          (updated (fun _ => geneRadmBuff) [⟨0, 1, 1⟩] (block blankStore)) 1) := by
  have hnodup : (([⟨0, 1, 1⟩] : List UpdBlock).map UpdBlock.id).Nodup := by decide
  have hmem : ∀ b ∈ ([⟨0, 1, 1⟩] : List UpdBlock), 0 ≤ b.id ∧ b.id < cutConf.ecK := by decide
  have hranges : Ranges cutConf [⟨0, 1, 1⟩] := by
    unfold Ranges
    decide
  have hm : 0 < cutConf.ecM := by decide
  obtain ⟨es, s, hr, hstarted, hdone, _⟩ := exists_run_done (fun _ => geneRadmBuff) (fun _ => 1)
    ⟨.crd, [⟨0, 1, 1⟩], 0⟩ hm (validUpd_of_ne hnodup hmem (by decide)) blankStore
  refine ⟨es, s, hr, hstarted, hdone, ?_⟩
  have hiff := crd_parities_iff hm hnodup hmem hranges consistent_blankStore hr hstarted hdone
  refine hiff.2 (fun N hN x hcut => ?_) 1 (by decide) (by decide)
  rw [getUpdSoluCrd_singleton, List.mem_singleton] at hN
  subst hN
  exact absurd hcut (not_cutOff_singleton _ x)

/-- The first block is updated in both KB, the second one in its first KB only. -/
def cutUpd : List UpdBlock := [⟨0, 0, 2⟩, ⟨1, 0, 1⟩]

theorem getUpdSoluCrd_cutUpd : getUpdSoluCrd cutUpd = [cutUpd] := by
  have hfind : [(⟨1, 0, 1⟩ : UpdBlock)].find? (fun d => isIntersected d [⟨0, 0, 2⟩]) =
      some ⟨1, 0, 1⟩ := by decide
  have hgrow : growSubSet [⟨0, 0, 2⟩] [⟨1, 0, 1⟩] = (cutUpd, []) :=
    (growSubSet_of_some hfind).trans (growSubSet_of_none rfl)
  rw [cutUpd, getUpdSoluCrd_cons, hgrow, getUpdSoluCrd_nil, cutUpd]

theorem cutOff_cutUpd : CutOff cutUpd 1024 := by
  refine ⟨⟨⟨0, 0, 2⟩, by simp [cutUpd], by decide⟩, fun i b hb => ?_⟩
  match i with
  | 0 =>
      cases hb
      decide
  | 1 =>
      cases hb
      decide

/-- The second KB of the first block does not get into parity block 1. -/
theorem crd_parities_cut_off :
    (cutUpd.map UpdBlock.id).Nodup ∧ (∀ b ∈ cutUpd, 0 ≤ b.id ∧ b.id < cutConf.ecK) ∧
    Ranges cutConf cutUpd ∧ Consistent cutConf (fun _ => 1) blankStore ∧
    ∃ es s, Runs (network cutConf (fun _ => 1) (fun _ => geneRadmBuff) [⟨.crd, cutUpd, 0⟩])
        (State.init blankStore) es s ∧ s.started = 1 ∧ (∀ h, s.proc h = .done) ∧
      ¬ ∀ i < cutConf.ecM, i ≠ 0 % cutConf.ecM →
        EqOnBlock cutConf (block s.store (parityId cutConf i))
          (encode cutConf (fun _ => 1)
            (updated (fun _ => geneRadmBuff) cutUpd (block blankStore)) i) := by
  have hnodup : (cutUpd.map UpdBlock.id).Nodup := by decide
  have hmem : ∀ b ∈ cutUpd, 0 ≤ b.id ∧ b.id < cutConf.ecK := by decide
  have hranges : Ranges cutConf cutUpd := by
    unfold Ranges
    decide
  have hv : ValidUpd cutConf cutUpd := validUpd_of_ne hnodup hmem (by decide)
  have hm : 0 < cutConf.ecM := by decide
  obtain ⟨es, s, hr, hstarted, hdone, _⟩ := exists_run_done (fun _ => geneRadmBuff) (fun _ => 1)
    ⟨.crd, cutUpd, 0⟩ hm hv blankStore
  refine ⟨hnodup, hmem, hranges, consistent_blankStore, es, s, hr, hstarted, hdone, fun hall => ?_⟩
  have heq := hall 1 (by decide) (by decide)
  rw [store_of_done hm hv hr hdone hstarted] at heq
  have hmemN : cutUpd ∈ getUpdSoluCrd cutUpd := by
    rw [getUpdSoluCrd_cutUpd]
    exact List.mem_singleton_self _
  have hzero := (crd_parity_eq_iff hv hm hranges consistent_blankStore (by decide)
    (by decide)).1 heq cutUpd hmemN 1024 cutOff_cutUpd
  exact absurd hzero (by decide)

/-- The collector's parity block, the data blocks of the update vector and the other data blocks, as
soon as their nodes have nothing more to do. -/
theorem crd_collector_parity (hm : 0 < conf.ecM) (hnodup : (U.map UpdBlock.id).Nodup)
    (hmem : ∀ b ∈ U, 0 ≤ b.id ∧ b.id < conf.ecK) (hcons : Consistent conf rsEncMat store)
    (hr : Runs (network conf rsEncMat newData [⟨.crd, U, rand⟩]) (State.init store) es s) :
    (s.Finished (parityNode conf (rand % conf.ecM)) 1 →
      EqOnBlock conf (block s.store (parityId conf (rand % conf.ecM)))
        (encode conf rsEncMat (updated newData U (block store)) (rand % conf.ecM))) ∧
    (∀ b ∈ U, s.Finished (dataNode b) 1 → ∀ x,
      block s.store b.id x =
        if b.offsetAdd * 1024 ≤ x ∧ x < (b.offsetAdd + b.updSize) * 1024 then
          newData b.id (x - b.offsetAdd * 1024)
        else block store b.id x) ∧
    ∀ id : Int, 0 ≤ id → id < conf.ecK → id ∉ U.map UpdBlock.id → s.proc (.node id) = .done →
      block s.store id = block store id := by
  by_cases hne : U = []
  · subst hne
    have hstuck := allStuck_of_empty hm hr
    refine ⟨fun hfin => ?_, by simp, fun id _ _ _ _ => ?_⟩
    · have := (hstuck.not_begun hfin.1).1
      have := hfin.2
      omega
    · rw [hstuck.stores]
  · have hv := validUpd_of_ne hnodup hmem hne
    refine ⟨fun hfin x h0 hx => ?_, fun b hb hfin x => ?_, fun id h0 hk hid hdone => ?_⟩
    · rw [block_congr (store_of_finished hm hv hr hfin), block_crd_collector hv hm h0 hx,
        encode_updated_eq_crdRow hnodup hmem h0 hx, hcons _ (Nat.mod_lt rand hm) x h0 hx]
    · rw [block_congr (store_of_finished hm hv hr hfin), block_crd_data hv hm hb, memcpy, ← add_mul]
    · have hroot : Host.node id ≠ .coordinator := by simp
      refine block_congr (store_of_outside hm hv hr hroot (fun r hrole heq => ?_) hdone)
      rcases mem_crdRoles.1 hrole with ⟨b, hb, rfl⟩ | rfl | ⟨i, _, rfl⟩
      · exact hid (Host.node.inj heq ▸ List.mem_map_of_mem hb)
      · have hpar : parityId conf (rand % conf.ecM) = id := Host.node.inj heq
        simp only [parityId] at hpar
        omega
      · have hpar : parityId conf i = id := Host.node.inj heq
        simp only [parityId] at hpar
        omega

theorem crd_collector_parity_cutUpd :
    ∃ es s, Runs (network cutConf (fun _ => 1) (fun _ => geneRadmBuff) [⟨.crd, cutUpd, 0⟩])
        (State.init blankStore) es s ∧ s.Finished (parityNode cutConf 0) 1 ∧
      EqOnBlock cutConf (block s.store (parityId cutConf 0))
        (encode cutConf (fun _ => 1)
          (updated (fun _ => geneRadmBuff) cutUpd (block blankStore)) 0) := by
  have hnodup : (cutUpd.map UpdBlock.id).Nodup := by decide
  have hmem : ∀ b ∈ cutUpd, 0 ≤ b.id ∧ b.id < cutConf.ecK := by decide
  have hm : 0 < cutConf.ecM := by decide
  obtain ⟨es, s, hr, _, _, hfin⟩ := exists_run_done (fun _ => geneRadmBuff) (fun _ => 1)
    ⟨.crd, cutUpd, 0⟩ hm (validUpd_of_ne hnodup hmem (by decide)) blankStore
  have hcol : s.Finished (parityNode cutConf 0) 1 := hfin _ (mem_crdRoles.2 (Or.inr (Or.inl rfl)))
  have hall := crd_collector_parity hm hnodup hmem consistent_blankStore hr
  exact ⟨es, s, hr, hcol, hall.1 hcol⟩

end Main

end CoRD
