import CoRD.Coding.ReedSol
import CoRD.Update.CrdConsistency

/-!
# StripeCode — from updates to repairs

The update coordinator encodes with the matrix of `ReedSol`, and `RSUtil` inverts with
`JerasureInvert`.  Put together, a stripe the updates have left consistent can lose any `m` blocks:
the coefficients of `RSUtil` rebuild each of them from `k` others.
-/

namespace CoRD

open MsgNet

/-! ## The decoding coefficients -/

/-- The inversion as `RSUtil` calls it; `inv` is what the array for the inverse held before. -/
def libraryInvert (inv : Nat → IntArr → IntArr) (k : Nat) (mat : IntArr) : IntArr × IntArr :=
  (jerasureInvertMatrix k mat (inv k mat)).2

/-- `RSUtil` over the coding library. -/
def libraryRSUtil (inv : Nat → IntArr → IntArr) (conf : Config) (encMat : IntArr) : RSUtil :=
  RSUtil.new (libraryInvert inv) conf encMat

section Library

variable {conf : Config} {encMat : IntArr}

/-- With any code in which `k` blocks determine the stripe. -/
theorem libraryRSUtil_decodes (inv : Nat → IntArr → IntArr) (hk : conf.ecK < conf.ecN)
    (hmds : LinCode.AnyRowsIndependent conf.ecN (stackedRow conf encMat)) :
    (libraryRSUtil inv conf encMat).Decodes conf encMat where
  single _ hi := ⟨firstOthers_length conf hi hk,
    coefficients_decode hk hmds (jerasureInvertMatrix_inverts inv) hi⟩
  multi_eq_none_iff _ hidx status := getCoefficientMulti_eq_none_iff hidx status
  multi _ hidx _ _ hc :=
    getCoefficientMulti_decodes hmds (jerasureInvertMatrix_inverts inv) hidx hc

/-- The coefficients `RSUtil` computes for the matrix of the update coordinator decode: nothing is
assumed of the library. -/
theorem reedSol_decodes (hk : 0 < conf.ecK) (hkn : conf.ecK < conf.ecN) (hn : conf.ecN ≤ 256)
    (heap heap' : IntArr) (inv : Nat → IntArr → IntArr) :
    ∃ mat, reedSolVandermondeCodingMatrix conf.ecK conf.ecM heap heap' = .ok mat ∧
      (libraryRSUtil inv conf mat).Decodes conf mat := by
  obtain ⟨mat, hmat, hmds, -⟩ := reedSolVandermondeCodingMatrix_cases hk hkn hn heap heap'
  exact ⟨mat, hmat, libraryRSUtil_decodes inv hkn hmds⟩

theorem reedSol_decodes_xor :
    ∃ mat, reedSolVandermondeCodingMatrix xorConf.ecK xorConf.ecM (fun _ => 0) (fun _ => 0) =
        .ok mat ∧
      (libraryRSUtil (fun _ _ _ => 0) xorConf mat).Decodes xorConf mat :=
  reedSol_decodes (by decide) (by decide) (by decide) _ _ _

end Library

/-! ## A consistent stripe -/

/-- The array as the `int`s of `_rsEncMat`. -/
def rsEncMatOf (mat : IntArr) (x : Int) : Int :=
  (mat x.toNat).bits.toNat

theorem ofInt_rsEncMatOf (mat : IntArr) (x : Nat) :
    GF256.ofInt (rsEncMatOf mat x) = mat x := by
  apply GF256.ext
  rw [GF256.ofInt, rsEncMatOf, Int.toNat_natCast, BitVec.ofInt_natCast, BitVec.ofNat_toNat,
    BitVec.setWidth_eq]

/-- Block `i` in the order of the stacked matrix: parity blocks first. -/
def stripeBlock (conf : Config) (σ : Host → NodeState) (i : Nat) : Buf :=
  if i < conf.ecM then block σ (parityId conf i) else block σ ((i - conf.ecM : Nat) : Int)

/-- What the blocks `l` combine to with the coefficients `c`. -/
def rebuilt (conf : Config) (σ : Host → NodeState) (c : IntArr) (l : List Nat) : Buf :=
  fun x => (Finset.range l.length).sum fun t => c t * stripeBlock conf σ (l.getD t 0) x

section Rebuild

variable {conf : Config} {mat : IntArr} {σ : Host → NodeState}

/-- The blocks of a consistent stripe are the words of the code. -/
theorem stripeBlock_eq_word (hcons : Consistent conf (rsEncMatOf mat) σ) {i : Nat}
    (hi : i < conf.ecN) {x : Int} (h0 : 0 ≤ x) (hx : x < conf.blocksize * 1024) :
    stripeBlock conf σ i x =
      LinCode.word (fun j : Fin conf.ecK => block σ (j : Nat) x) (stackedRow conf mat i) := by
  rw [stripeBlock, stackedRow, LinCode.word]
  by_cases him : i < conf.ecM
  · rw [if_pos him, if_pos him, hcons i him x h0 hx, encode, Finset.sum_range]
    refine Finset.sum_congr rfl fun j _ => ?_
    have hpos : (i : Int) * conf.ecK + (j : Nat) = ((i * conf.ecK + j : Nat) : Int) := by
      push_cast
      rfl
    rw [hpos, ofInt_rsEncMatOf]
    rfl
  · have hlt : i - conf.ecM < conf.ecK := by
      have hm : conf.ecM = conf.ecN - conf.ecK := rfl
      omega
    rw [if_neg him, if_neg him,
      Finset.sum_eq_single (⟨i - conf.ecM, hlt⟩ : Fin conf.ecK) (fun j _ hj => ?_) (by simp)]
    · rw [if_pos (by dsimp only; omega), one_mul]
    · have hne : i ≠ conf.ecM + j := by
        intro heq
        exact hj (Fin.ext (by dsimp only; omega))
      rw [if_neg hne, zero_mul]

theorem rebuilt_eq (hcons : Consistent conf (rsEncMatOf mat) σ) {c : IntArr} {l : List Nat}
    {idx : Nat} (hdec : DecodesFrom conf mat c l idx) (hl : ∀ j ∈ l, j < conf.ecN)
    (hidx : idx < conf.ecN) : EqOnBlock conf (rebuilt conf σ c l) (stripeBlock conf σ idx) := by
  intro x h0 hx
  rw [stripeBlock_eq_word hcons hidx h0 hx, ← hdec.word_eq, rebuilt, Finset.sum_range]
  refine Finset.sum_congr rfl fun t _ => ?_
  rw [List.getD_eq_getElem l 0 t.isLt]
  exact congrArg (c t * ·) (stripeBlock_eq_word hcons (hl _ (List.getElem_mem t.isLt)) h0 hx)

/-- Every block is rebuilt from the first `k` others, and any block from any `k` that are left. -/
def Rebuilds (conf : Config) (rsu : RSUtil) (σ : Host → NodeState) : Prop :=
  (∀ i < conf.ecN, (firstOthers conf i).length = conf.ecK ∧
    EqOnBlock conf (rebuilt conf σ (rsu.getCoefficient i) (firstOthers conf i))
      (stripeBlock conf σ i)) ∧
  ∀ idx < conf.ecN, ∀ status : Nat → Int, status idx = 0 →
    (selected conf status).length = conf.ecK →
      ∃ c, rsu.getCoefficientMulti idx status = some c ∧
        EqOnBlock conf (rebuilt conf σ c (selected conf status)) (stripeBlock conf σ idx)

theorem rebuilds_of_decodes (hcons : Consistent conf (rsEncMatOf mat) σ) {rsu : RSUtil}
    (hdec : rsu.Decodes conf mat) : Rebuilds conf rsu σ := by
  refine ⟨fun i hi => ?_, fun idx hidx status hlost hlen => ?_⟩
  · obtain ⟨hlen, hcoef⟩ := hdec.single i hi
    exact ⟨hlen, rebuilt_eq hcons hcoef (fun j hj => firstOthers_lt conf hj) hi⟩
  · have hsome : rsu.getCoefficientMulti idx status ≠ none := by
      rw [ne_eq, hdec.multi_eq_none_iff idx hidx]
      exact not_or.2 ⟨not_not.2 hlost, not_not.2 hlen⟩
    obtain ⟨c, hc⟩ := Option.ne_none_iff_exists'.1 hsome
    refine ⟨c, hc, ?_⟩
    exact rebuilt_eq hcons (hdec.multi idx hidx status c hc) (fun j hj => selected_lt conf hj) hidx

/-- A stripe that is consistent for the matrix of the update coordinator loses no block. -/
theorem consistent_rebuilds (hk : 0 < conf.ecK) (hkn : conf.ecK < conf.ecN) (hn : conf.ecN ≤ 256)
    (heap heap' : IntArr) (inv : Nat → IntArr → IntArr) :
    ∃ mat, reedSolVandermondeCodingMatrix conf.ecK conf.ecM heap heap' = .ok mat ∧
      ∀ σ, Consistent conf (rsEncMatOf mat) σ → Rebuilds conf (libraryRSUtil inv conf mat) σ := by
  obtain ⟨mat, hmat, hmds, -⟩ := reedSolVandermondeCodingMatrix_cases hk hkn hn heap heap'
  exact ⟨mat, hmat, fun σ hcons => rebuilds_of_decodes hcons (libraryRSUtil_decodes inv hkn hmds)⟩

theorem consistent_rebuilds_xor :
    ∃ mat, reedSolVandermondeCodingMatrix xorConf.ecK xorConf.ecM (fun _ => 0) (fun _ => 0) =
        .ok mat ∧
      Rebuilds xorConf (libraryRSUtil (fun _ _ _ => 0) xorConf mat) blankStore := by
  obtain ⟨mat, hmat, hall⟩ := @consistent_rebuilds xorConf (by decide) (by decide)
    (by decide) (fun _ => 0) (fun _ => 0) fun _ _ _ => 0
  exact ⟨mat, hmat, hall blankStore consistent_blankStore⟩

end Rebuild

/-! ## Runs of CRD updates -/

section Crd

variable {conf : Config} {newData : Int → Buf} {rsEncMat : Int → Int} {U : List UpdBlock}
  {store : Host → NodeState} {rand : Nat}

theorem block_crd_outside (hv : ValidUpd conf U) (hm : 0 < conf.ecM) {id : Int}
    (hk : id < conf.ecK) (hid : id ∉ U.map UpdBlock.id) :
    block (stripeEffect conf newData rsEncMat ⟨.crd, U, rand⟩ store) id = block store id := by
  let C : Cast (network conf rsEncMat newData []) store := crdCast hv (Nat.mod_lt rand hm)
  have hparity : ∀ i, Host.node (parityId conf i) ≠ .node id := by
    intro i heq
    have hpar : parityId conf i = id := Host.node.inj heq
    simp only [parityId] at hpar
    omega
  have hout : ∀ r ∈ C.roles, r.host ≠ .node id := by
    intro r hr heq
    rcases mem_crdRoles.1 hr with ⟨b, hb, rfl⟩ | rfl | ⟨i, _, rfl⟩
    · exact hid (Host.node.inj heq ▸ List.mem_map_of_mem hb)
    · exact hparity _ heq
    · exact hparity _ heq
  exact block_congr (Cast.final_of_not_mem hout)

/-- The data blocks after a CRD stripe. -/
theorem block_crd_updated (hv : ValidUpd conf U) (hm : 0 < conf.ecM) {id : Int}
    (hk : id < conf.ecK) :
    block (stripeEffect conf newData rsEncMat ⟨.crd, U, rand⟩ store) id =
      updated newData U (block store) id := by
  rw [updated]
  by_cases hid : id ∈ U.map UpdBlock.id
  · obtain ⟨b, hb, rfl⟩ := List.mem_map.1 hid
    rw [Keyed.writeAll_of_mem hv.nodup hb, block_crd_data hv hm hb]
  · rw [Keyed.writeAll_of_not_mem hid, block_crd_outside hv hm hk hid]

/-- No row is lost where a sub-set is cut off. -/
def CrdAgrees (conf : Config) (newData : Int → Buf) (rsEncMat : Int → Int) (st : Stripe)
    (store : Host → NodeState) : Prop :=
  ∀ i < conf.ecM, i ≠ st.rand % conf.ecM → ∀ N ∈ getUpdSoluCrd st.updBlkVec, ∀ x, CutOff N x →
    crdRow conf newData rsEncMat st.updBlkVec store i x = 0

/-- One CRD stripe keeps the stripe consistent just when it agrees. -/
theorem crd_consistent_step (hv : ValidUpd conf U) (hm : 0 < conf.ecM) (hU : Ranges conf U)
    (hcons : Consistent conf rsEncMat store) :
    Consistent conf rsEncMat (stripeEffect conf newData rsEncMat ⟨.crd, U, rand⟩ store) ↔
      CrdAgrees conf newData rsEncMat ⟨.crd, U, rand⟩ store := by
  have hencode : ∀ i x,
      encode conf rsEncMat (block (stripeEffect conf newData rsEncMat ⟨.crd, U, rand⟩ store)) i x =
        encode conf rsEncMat (updated newData U (block store)) i x := by
    intro i x
    refine encode_congr (fun id _ hk => ?_) i
    rw [block_crd_updated hv hm hk]
  constructor
  · intro hafter i hi hiq
    refine (crd_parity_eq_iff hv hm hU hcons hi hiq).1 fun x h0 hx => ?_
    rw [hafter i hi x h0 hx, hencode]
  · intro hagrees i hi x h0 hx
    rw [hencode]
    by_cases hiq : i = rand % conf.ecM
    · -- the collector always is right
      rw [hiq, block_crd_collector hv hm h0 hx,
        encode_updated_eq_crdRow hv.nodup hv.mem_data h0 hx, hcons _ (Nat.mod_lt rand hm) x h0 hx]
    · exact (crd_parity_eq_iff hv hm hU hcons hi hiq).2 (hagrees i hi hiq) x h0 hx

section Run

variable {stripes : List Stripe}

/-- The data blocks after the first `n` stripes. -/
def dataAfter (newData : Int → Buf) (stripes : List Stripe) (D : Int → Buf) (n : Nat) :
    Int → Buf :=
  (stripes.take n).foldl (fun D st => updated newData st.updBlkVec D) D

theorem dataAfter_succ {D : Int → Buf} {n : Nat} {st : Stripe} (hst : stripes[n]? = some st) :
    dataAfter newData stripes D (n + 1) =
      updated newData st.updBlkVec (dataAfter newData stripes D n) := by
  rw [dataAfter, List.take_add_one, hst, List.foldl_append]
  rfl

/-- Updating depends on the data blocks only as far as they are read. -/
theorem updated_congr {D D' : Int → Buf} {id : Int} (h : D id = D' id) :
    updated newData U D id = updated newData U D' id := by
  rw [updated, updated]
  induction U generalizing D D' with
  | nil =>
      exact h
  | cons b U ih =>
      have hhead : ∀ D : Int → Buf, Keyed.writeAll UpdBlock.id (fun b old =>
            memcpy old (b.offsetAdd * 1024) (newData b.id) (b.updSize * 1024)) (b :: U) D =
          Keyed.writeAll UpdBlock.id (fun b old =>
            memcpy old (b.offsetAdd * 1024) (newData b.id) (b.updSize * 1024)) U
            (Function.update D b.id
              (memcpy (D b.id) (b.offsetAdd * 1024) (newData b.id) (b.updSize * 1024))) :=
        fun _ => rfl
      rw [hhead, hhead]
      apply ih
      by_cases hid : id = b.id
      · subst hid
        rw [Function.update_self, Function.update_self, h]
      · rw [Function.update_of_ne hid, Function.update_of_ne hid, h]

/-- Stripe after stripe: the data blocks get the new bytes, and the stripe stays consistent as long
as every stripe agrees. -/
theorem crd_stores (hm : 0 < conf.ecM) (hall : ∀ st ∈ stripes, ValidUpd conf st.updBlkVec)
    (hcrd : ∀ st ∈ stripes, st.policy = .crd) {n : Nat} :
    n ≤ stripes.length → ∀ id < (conf.ecK : Int),
      block (storesAfter conf newData rsEncMat stripes store n) id =
        dataAfter newData stripes (block store) n id := by
  induction n with
  | zero =>
      intro _ id _
      rfl
  | succ n ih =>
      intro hn id hid
      obtain ⟨st, hst⟩ : ∃ st, stripes[n]? = some st := ⟨_, List.getElem?_eq_getElem hn⟩
      have hmem := List.mem_of_getElem? hst
      have hpolicy := hcrd st hmem
      rw [storesAfter_succ hst, dataAfter_succ hst]
      rcases st with ⟨policy, U, rand⟩
      cases hpolicy
      rw [block_crd_updated (hall _ hmem) hm hid]
      exact updated_congr (ih (by omega) id hid)

theorem crd_consistent_run (hm : 0 < conf.ecM) (hall : ∀ st ∈ stripes, ValidUpd conf st.updBlkVec)
    (hcrd : ∀ st ∈ stripes, st.policy = .crd) (hU : ∀ st ∈ stripes, Ranges conf st.updBlkVec)
    (hcons : Consistent conf rsEncMat store) {n : Nat} (hn : n ≤ stripes.length) :
    (∀ i ≤ n, Consistent conf rsEncMat (storesAfter conf newData rsEncMat stripes store i)) ↔
      ∀ (i : Nat) (st : Stripe), i < n → stripes[i]? = some st →
        CrdAgrees conf newData rsEncMat st (storesAfter conf newData rsEncMat stripes store i) := by
  have hstep : ∀ (i : Nat) (st : Stripe), stripes[i]? = some st →
      Consistent conf rsEncMat (storesAfter conf newData rsEncMat stripes store i) →
      (Consistent conf rsEncMat (storesAfter conf newData rsEncMat stripes store (i + 1)) ↔
        CrdAgrees conf newData rsEncMat st
          (storesAfter conf newData rsEncMat stripes store i)) := by
    intro i st hst hbefore
    have hmem := List.mem_of_getElem? hst
    have hpolicy := hcrd st hmem
    rw [storesAfter_succ hst]
    rcases st with ⟨policy, U, rand⟩
    cases hpolicy
    exact crd_consistent_step (hall _ hmem) hm (hU _ hmem) hbefore
  constructor
  · intro hafter i st hi hst
    exact (hstep i st hst (hafter i (by omega))).1 (hafter (i + 1) (by omega))
  · intro hagrees i
    induction i with
    | zero =>
        intro _
        exact hcons
    | succ i ih =>
        intro hi
        have hst : stripes[i]? = some stripes[i] := List.getElem?_eq_getElem (by omega)
        exact (hstep i _ hst (ih (by omega))).2 (hagrees i _ (by omega) hst)

/-- The stripe no sub-set of which is cut off agrees. -/
theorem crdAgrees_of_not_cutOff {st : Stripe}
    (hcut : ∀ N ∈ getUpdSoluCrd st.updBlkVec, ∀ x, ¬ CutOff N x) (store : Host → NodeState) :
    CrdAgrees conf newData rsEncMat st store :=
  fun _ _ _ N hN x hx => absurd hx (hcut N hN x)

/-- The state between two stripes. -/
theorem store_of_run (hm : 0 < conf.ecM) (hall : ∀ st ∈ stripes, ValidUpd conf st.updBlkVec)
    {es : List (Event Host Chan RedisStr)} {s : State Host Chan RedisStr NodeState Exit}
    (hr : Runs (network conf rsEncMat newData stripes) (State.init store) es s)
    (hdone : ∀ h, s.proc h = .done) :
    s.store = storesAfter conf newData rsEncMat stripes store s.started ∧
      s.started ≤ stripes.length := by
  let S := schedule hm hall newData rsEncMat store
  refine ⟨funext fun h => S.before_of_done hr hdone h, ?_⟩
  by_contra hlt
  obtain ⟨p, hp⟩ := hr.prog_of_lt_started stripes.length (by omega)
  have hnone : stripes[stripes.length]? = none := List.getElem?_eq_none (Nat.le_refl _)
  simp only [network, hnone] at hp
  cases hp

/-- Between two stripes of a run of CRD updates the data blocks hold what was written, and while no
sub-set has been cut off the parity blocks encode it. -/
theorem crd_run_consistent (hm : 0 < conf.ecM) (hall : ∀ st ∈ stripes, ValidUpd conf st.updBlkVec)
    (hcrd : ∀ st ∈ stripes, st.policy = .crd) (hU : ∀ st ∈ stripes, Ranges conf st.updBlkVec)
    (hcons : Consistent conf rsEncMat store)
    {es : List (Event Host Chan RedisStr)} {s : State Host Chan RedisStr NodeState Exit}
    (hr : Runs (network conf rsEncMat newData stripes) (State.init store) es s)
    (hdone : ∀ h, s.proc h = .done) :
    (∀ id < (conf.ecK : Int), block s.store id =
        dataAfter newData stripes (block store) s.started id) ∧
      ((∀ st ∈ stripes.take s.started, ∀ N ∈ getUpdSoluCrd st.updBlkVec, ∀ x, ¬ CutOff N x) →
        Consistent conf rsEncMat s.store) := by
  obtain ⟨hstore, hle⟩ := store_of_run hm hall hr hdone
  rw [hstore]
  refine ⟨crd_stores hm hall hcrd hle, fun hcut => ?_⟩
  refine (crd_consistent_run hm hall hcrd hU hcons hle).2 (fun i st hi hst => ?_) _ (Nat.le_refl _)
  have htake : (stripes.take s.started)[i]? = some st := by
    rw [List.getElem?_take_of_lt hi, hst]
  exact crdAgrees_of_not_cutOff (hcut st (List.mem_of_getElem? htake)) _

end Run

/-- One data block, updated twice. -/
def twiceStripes : List Stripe :=
  [⟨.crd, [⟨0, 0, 1⟩], 0⟩, ⟨.crd, [⟨0, 0, 1⟩], 1⟩]

theorem twiceStripes_valid : ∀ st ∈ twiceStripes, ValidUpd pairConf st.updBlkVec ∧
    Ranges pairConf st.updBlkVec ∧ st.policy = .crd ∧
      ∀ N ∈ getUpdSoluCrd st.updBlkVec, ∀ x, ¬ CutOff N x := by
  intro st hst
  have hvec : st.updBlkVec = [⟨0, 0, 1⟩] ∧ st.policy = .crd := by
    simp only [twiceStripes, List.mem_cons, List.not_mem_nil, or_false] at hst
    rcases hst with rfl | rfl <;> exact ⟨rfl, rfl⟩
  rw [hvec.1, getUpdSoluCrd_singleton]
  refine ⟨⟨by decide, by decide, by decide⟩, ?_, hvec.2, ?_⟩
  · intro b hb
    rw [List.mem_singleton.1 hb]
    decide
  · intro N hN x hcut
    rw [List.mem_singleton.1 hN] at hcut
    exact not_cutOff_singleton _ x hcut

/-- Both updates can be run to their ends, with any coding matrix. -/
theorem exists_run_twice (rsEncMat : Int → Int) :
    ∃ es s, Runs (network pairConf rsEncMat (fun _ => geneRadmBuff) twiceStripes)
        (State.init blankStore) es s ∧ s.started = 2 ∧ ∀ h, s.proc h = .done := by
  have hm : 0 < pairConf.ecM := by decide
  let S := schedule hm (fun st hst => (twiceStripes_valid st hst).1) (fun _ => geneRadmBuff)
    rsEncMat blankStore
  obtain ⟨es, s, hr, hstarted, hdone, _⟩ := S.exists_run_done 2 fun i hi => by
    have hlt : i < twiceStripes.length := hi
    exact ⟨_, congrArg (Option.map (stripeProg pairConf rsEncMat)) (List.getElem?_eq_getElem hlt)⟩
  exact ⟨es, s, hr, hstarted, hdone⟩

theorem crd_run_consistent_twice :
    ∃ es s, Runs (network pairConf (fun _ => 1) (fun _ => geneRadmBuff) twiceStripes)
        (State.init blankStore) es s ∧ s.started = 2 ∧ Consistent pairConf (fun _ => 1) s.store := by
  obtain ⟨es, s, hr, hstarted, hdone⟩ := exists_run_twice fun _ => 1
  refine ⟨es, s, hr, hstarted, ?_⟩
  refine (crd_run_consistent (by decide) (fun st hst => (twiceStripes_valid st hst).1)
    (fun st hst => (twiceStripes_valid st hst).2.2.1)
    (fun st hst => (twiceStripes_valid st hst).2.1) consistent_blankStore hr hdone).2 ?_
  intro st hst
  exact (twiceStripes_valid st (List.mem_of_mem_take hst)).2.2.2

end Crd

/-! ## From an update to a repair -/

section UpdateRepair

variable {conf : Config}

/-- Whatever was updated with CRD, with no sub-set cut off: between two stripes every block that is
lost is rebuilt, as the updates left it, by the coefficients of `RSUtil`. -/
theorem crd_run_rebuilds (hk : 0 < conf.ecK) (hkn : conf.ecK < conf.ecN) (hn : conf.ecN ≤ 256)
    (heap heap' : IntArr) (inv : Nat → IntArr → IntArr) :
    ∃ mat, reedSolVandermondeCodingMatrix conf.ecK conf.ecM heap heap' = .ok mat ∧
      ∀ (newData : Int → Buf) (stripes : List Stripe) (store : Host → NodeState),
        (∀ st ∈ stripes, ValidUpd conf st.updBlkVec ∧ Ranges conf st.updBlkVec ∧
          st.policy = .crd ∧ ∀ N ∈ getUpdSoluCrd st.updBlkVec, ∀ x, ¬ CutOff N x) →
        Consistent conf (rsEncMatOf mat) store →
        ∀ es s, Runs (network conf (rsEncMatOf mat) newData stripes) (State.init store) es s →
          (∀ h, s.proc h = .done) →
            (∀ id < (conf.ecK : Int), block s.store id =
              dataAfter newData stripes (block store) s.started id) ∧
            Rebuilds conf (libraryRSUtil inv conf mat) s.store := by
  obtain ⟨mat, hmat, hmds, -⟩ := reedSolVandermondeCodingMatrix_cases hk hkn hn heap heap'
  refine ⟨mat, hmat, fun newData stripes store hstripes hcons es s hr hdone => ?_⟩
  have hm : 0 < conf.ecM := Nat.sub_pos_of_lt hkn
  have hall : ∀ st ∈ stripes, ValidUpd conf st.updBlkVec := fun st hst => (hstripes st hst).1
  have hcrd : ∀ st ∈ stripes, st.policy = .crd := fun st hst => (hstripes st hst).2.2.1
  have hU : ∀ st ∈ stripes, Ranges conf st.updBlkVec := fun st hst => (hstripes st hst).2.1
  obtain ⟨hstore, hle⟩ := store_of_run hm hall hr hdone
  rw [hstore]
  refine ⟨crd_stores hm hall hcrd hle, rebuilds_of_decodes ?_ (libraryRSUtil_decodes inv hkn hmds)⟩
  refine (crd_consistent_run hm hall hcrd hU hcons hle).2 (fun i st hi hst => ?_) _ (Nat.le_refl _)
  exact crdAgrees_of_not_cutOff (hstripes st (List.mem_of_getElem? hst)).2.2.2 _

theorem crd_run_rebuilds_twice :
    ∃ mat, reedSolVandermondeCodingMatrix pairConf.ecK pairConf.ecM (fun _ => 0) (fun _ => 0) =
        .ok mat ∧
      ∃ es s, Runs (network pairConf (rsEncMatOf mat) (fun _ => geneRadmBuff) twiceStripes)
          (State.init blankStore) es s ∧ s.started = 2 ∧
        Rebuilds pairConf (libraryRSUtil (fun _ _ _ => 0) pairConf mat) s.store := by
  obtain ⟨mat, hmat, hall⟩ := @crd_run_rebuilds pairConf (by decide) (by decide)
    (by decide) (fun _ => 0) (fun _ => 0) fun _ _ _ => 0
  obtain ⟨es, s, hr, hstarted, hdone⟩ := exists_run_twice (rsEncMatOf mat)
  refine ⟨mat, hmat, es, s, hr, hstarted, ?_⟩
  exact (hall _ _ _ twiceStripes_valid consistent_blankStore es s hr hdone).2

end UpdateRepair

end CoRD
