import CoRD.Update.Protocol

/-!
# Consistency — parity blocks and the data blocks they encode

A stripe is consistent when every parity block is the encoding of the data blocks.  The encoding is
linear, so what an update changes in it is the encoding of the deltas (`encode_updated`).
-/

namespace CoRD

/-- Block `id` as its node has it. -/
def block (σ : Host → NodeState) (id : Int) : Buf :=
  (σ (.node id)).disk id

theorem block_congr {σ σ' : Host → NodeState} {id : Int} (h : σ (.node id) = σ' (.node id)) :
    block σ id = block σ' id := by
  rw [block, h, block]

section Encoding

variable (conf : Config) (rsEncMat : Int → Int)

/-- The encoding of the data blocks `D` for parity block `i`. -/
def encode (D : Int → Buf) (i : Nat) : Buf :=
  fun x => ∑ j ∈ Finset.range conf.ecK,
    GF256.ofInt (rsEncMat (i * conf.ecK + (j : Nat))) * D (j : Nat) x

/-- The buffers agree on a whole block. -/
def EqOnBlock (A B : Buf) : Prop :=
  ∀ x : Int, 0 ≤ x → x < conf.blocksize * 1024 → A x = B x

/-- Every parity block is the encoding of the data blocks. -/
def Consistent (σ : Host → NodeState) : Prop :=
  ∀ i < conf.ecM, EqOnBlock conf (block σ (parityId conf i)) (encode conf rsEncMat (block σ) i)

end Encoding

section Updated

variable (newData : Int → Buf)

/-- The data blocks with the new bytes in the updated ranges. -/
def updated (U : List UpdBlock) (D : Int → Buf) : Int → Buf :=
  Keyed.writeAll UpdBlock.id
    (fun b old => memcpy old (b.offsetAdd * 1024) (newData b.id) (b.updSize * 1024)) U D

/-- Old xor new in the updated range of `b`, and zeros around it. -/
def rangeDelta (D : Int → Buf) (b : UpdBlock) : Buf :=
  fun x =>
    if b.offsetAdd * 1024 ≤ x ∧ x < (b.offsetAdd + b.updSize) * 1024 then
      D b.id x + newData b.id (x - b.offsetAdd * 1024)
    else 0

end Updated

variable {conf : Config} {newData : Int → Buf} {rsEncMat : Int → Int} {U : List UpdBlock}
  {D : Int → Buf}

/-! ## Linearity -/

theorem encode_update {id : Int} (h0 : 0 ≤ id) (hk : id < conf.ecK) (B : Buf) (i : Nat) (x : Int) :
    encode conf rsEncMat (Function.update D id B) i x =
      encode conf rsEncMat D i x +
        GF256.ofInt (rsEncMat (i * conf.ecK + id)) * (D id x + B x) := by
  obtain ⟨j, rfl⟩ := Int.eq_ofNat_of_zero_le h0
  have hj : j ∈ Finset.range conf.ecK := Finset.mem_range.2 (by omega)
  have hterm : ∀ j' ∈ Finset.range conf.ecK,
      GF256.ofInt (rsEncMat (i * conf.ecK + (j' : Nat))) *
          Function.update D (j : Int) B (j' : Int) x =
        GF256.ofInt (rsEncMat (i * conf.ecK + (j' : Nat))) * D (j' : Nat) x +
          if j' = j then GF256.ofInt (rsEncMat (i * conf.ecK + (j : Nat))) * (D (j : Nat) x + B x)
          else 0 := by
    intro j' _
    by_cases hjj : j' = j
    · subst hjj
      rw [Function.update_self, if_pos rfl, ← mul_add, ← add_assoc, GF256.add_self, zero_add]
    · have hne : (j' : Int) ≠ j := fun h => hjj (by exact_mod_cast h)
      rw [Function.update_of_ne hne, if_neg hjj, add_zero]
  rw [encode, Finset.sum_congr rfl hterm, Finset.sum_add_distrib, Finset.sum_ite_eq' _ j, if_pos hj]
  rfl

theorem encode_congr {D' : Int → Buf} {x : Int}
    (h : ∀ id : Int, 0 ≤ id → id < conf.ecK → D id x = D' id x) (i : Nat) :
    encode conf rsEncMat D i x = encode conf rsEncMat D' i x := by
  refine Finset.sum_congr rfl fun j hj => ?_
  have hj' := Finset.mem_range.1 hj
  rw [h j (by omega) (by omega)]

/-- What rewriting several data blocks adds to the encoding. -/
theorem encode_writeAll (val : UpdBlock → Buf → Buf) (hnodup : (U.map UpdBlock.id).Nodup)
    (hmem : ∀ b ∈ U, 0 ≤ b.id ∧ b.id < conf.ecK) (i : Nat) (x : Int) :
    encode conf rsEncMat (Keyed.writeAll UpdBlock.id val U D) i x =
      encode conf rsEncMat D i x + (U.map fun b =>
        GF256.ofInt (rsEncMat (i * conf.ecK + b.id)) * (D b.id x + val b (D b.id) x)).sum := by
  induction U generalizing D with
  | nil =>
      simp [Keyed.writeAll]
  | cons b U ih =>
      rw [List.map_cons, List.nodup_cons] at hnodup
      have hb := hmem b (by simp)
      have hrest : (U.map fun b' => GF256.ofInt (rsEncMat (i * conf.ecK + b'.id)) *
          (Function.update D b.id (val b (D b.id)) b'.id x +
            val b' (Function.update D b.id (val b (D b.id)) b'.id) x)) =
          U.map fun b' => GF256.ofInt (rsEncMat (i * conf.ecK + b'.id)) *
            (D b'.id x + val b' (D b'.id) x) := by
        refine List.map_congr_left fun b' hb' => ?_
        have hne : b'.id ≠ b.id := fun h => hnodup.1 (h ▸ List.mem_map_of_mem hb')
        rw [Function.update_of_ne hne]
      have hcons : Keyed.writeAll UpdBlock.id val (b :: U) D =
          Keyed.writeAll UpdBlock.id val U (Function.update D b.id (val b (D b.id))) := rfl
      rw [hcons, ih hnodup.2 fun b' hb' => hmem b' (List.mem_cons_of_mem _ hb'), hrest,
        encode_update hb.1 hb.2, List.map_cons, List.sum_cons, add_assoc]

theorem encode_updated (hnodup : (U.map UpdBlock.id).Nodup)
    (hmem : ∀ b ∈ U, 0 ≤ b.id ∧ b.id < conf.ecK) (i : Nat) (x : Int) :
    encode conf rsEncMat (updated newData U D) i x =
      encode conf rsEncMat D i x + (U.map fun b =>
        GF256.ofInt (rsEncMat (i * conf.ecK + b.id)) * rangeDelta newData D b x).sum := by
  rw [updated, encode_writeAll _ hnodup hmem]
  congr 2
  refine List.map_congr_left fun b _ => ?_
  by_cases hx : b.offsetAdd * 1024 ≤ x ∧ x < (b.offsetAdd + b.updSize) * 1024
  · rw [rangeDelta, if_pos hx, memcpy_of_mem ⟨hx.1, by linarith [hx.2]⟩]
  · rw [rangeDelta, if_neg hx, memcpy_of_not_mem (by rwa [← add_mul]), GF256.add_self]

theorem consistent_blankStore : Consistent conf rsEncMat blankStore := by
  intro i _ x _ _
  simp [block, blankStore, encode]

end CoRD
