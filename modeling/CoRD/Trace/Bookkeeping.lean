import CoRD.Trace.Merge
import CoRD.Update.Stripe

/-!
# Bookkeeping — the logs of a run and the update vectors made of them

Every log of a run is well-formed (`Log.WF`).  From a well-formed log, flipped or not, come valid
update vectors with ranges inside their blocks, and together they name every block of the log once.
-/

namespace CoRD

/-! ## Update vectors of a well-formed log -/

section UpdVecs

variable {conf : Config} {log : Log}

/-- The global block of an update block in a stripe. -/
def gloBlkIdOf (conf : Config) (stripeId : Nat) (b : UpdBlock) : Nat :=
  stripeId * conf.ecK + b.id.toNat

/-- Update vectors in the order of the stripes that hand over every block of the log once. -/
structure HandedOver (conf : Config) (log : Log) (vecs : List (List UpdBlock)) : Prop where
  valid : ∀ updBlkVec ∈ vecs, ValidUpd conf updBlkVec
  inBlock : ∀ updBlkVec ∈ vecs, InBlock conf updBlkVec
  once : (List.zipWith (fun stripeId updBlkVec => updBlkVec.map (gloBlkIdOf conf stripeId))
    log.stripeId2locBlkId.keys vecs).flatten.Perm log.gloBlkId2startEnd.keys

@[simp] theorem updBlk_id (flip : Bool) (stripeId inId : Nat) :
    (updBlk conf log flip stripeId inId).id = inId := by
  unfold updBlk
  split <;> rfl

theorem locBlks_of_mem {stripe : Nat × List Nat}
    (hs : stripe ∈ log.stripeId2locBlkId.toList) :
    log.stripeId2locBlkId.getD stripe.1 [] = stripe.2 := by
  rw [Std.TreeMap.getD_eq_getD_getElem?, Std.TreeMap.mem_toList_iff_getElem?_eq_some.1 hs]
  rfl

theorem Log.WF.updBlk_inBlock (hlog : log.WF conf) (flip : Bool) (stripeId inId : Nat) :
    InBlock conf [updBlk conf log flip stripeId inId] := by
  have hrange : (log.gloBlkId2startEnd.getD (stripeId * conf.ecK + inId) (0, 0)).1 ≤
        (log.gloBlkId2startEnd.getD (stripeId * conf.ecK + inId) (0, 0)).2 ∧
      (log.gloBlkId2startEnd.getD (stripeId * conf.ecK + inId) (0, 0)).2 ≤ conf.blocksize := by
    rw [Std.TreeMap.getD_eq_getD_getElem?]
    cases hget : log.gloBlkId2startEnd[stripeId * conf.ecK + inId]? with
    | none =>
        exact ⟨le_rfl, Nat.zero_le _⟩
    | some se =>
        exact hlog.range_le _ se hget
  intro b hb
  rw [List.mem_singleton.1 hb]
  unfold updBlk
  simp only
  split <;> simp only <;> omega

theorem Log.WF.validUpd (hlog : log.WF conf) (flip : Bool) {stripe : Nat × List Nat}
    (hs : stripe ∈ log.stripeId2locBlkId.toList) :
    ValidUpd conf (stripe.2.map (updBlk conf log flip stripe.1)) := by
  have hlocs := locBlks_of_mem hs
  have hmem : stripe.1 ∈ log.stripeId2locBlkId := by
    rw [Std.TreeMap.mem_iff_isSome_getElem?, Std.TreeMap.mem_toList_iff_getElem?_eq_some.1 hs]
    rfl
  have hids : (stripe.2.map (updBlk conf log flip stripe.1)).map UpdBlock.id =
      stripe.2.map (fun inId : Nat => (inId : Int)) := by
    simp [Function.comp_def]
  refine ⟨?_, ?_, fun b hb => ?_⟩
  · have hne := hlog.ne_nil stripe.1 hmem
    rw [hlocs] at hne
    simpa using hne
  · rw [hids]
    exact (hlocs ▸ hlog.nodup stripe.1).map Int.ofNat_injective
  · obtain ⟨inId, hin, rfl⟩ := List.mem_map.1 hb
    have hlt := hlog.lt_ecK stripe.1 inId (hlocs.symm ▸ hin)
    rw [updBlk_id]
    omega

theorem Log.WF.inBlock (hlog : log.WF conf) (flip : Bool) (stripe : Nat × List Nat) :
    InBlock conf (stripe.2.map (updBlk conf log flip stripe.1)) := by
  intro b hb
  obtain ⟨inId, _, rfl⟩ := List.mem_map.1 hb
  exact hlog.updBlk_inBlock flip stripe.1 inId _ List.mem_cons_self

/-- The global blocks of the stripes, in the order of the update vectors. -/
def stripeBlks (conf : Config) (log : Log) : List Nat :=
  log.stripeId2locBlkId.toList.flatMap fun stripe =>
    stripe.2.map fun inId => stripe.1 * conf.ecK + inId

theorem flatten_gloBlkIds (conf : Config) (log : Log) (flip : Bool) :
    (List.zipWith (fun stripeId updBlkVec => updBlkVec.map (gloBlkIdOf conf stripeId))
      log.stripeId2locBlkId.keys (updVecs conf flip log)).flatten = stripeBlks conf log := by
  rw [← Std.TreeMap.map_fst_toList_eq_keys, updVecs, List.zipWith_map, List.zipWith_self,
    stripeBlks, List.flatMap]
  simp [Function.comp_def, gloBlkIdOf]

theorem Log.WF.mem_stripeBlks (hk : 0 < conf.ecK) (hlog : log.WF conf) {g : Nat} :
    g ∈ stripeBlks conf log ↔ g ∈ log.gloBlkId2startEnd := by
  rw [hlog.mem_iff, stripeBlks, List.mem_flatMap]
  constructor
  · rintro ⟨stripe, hs, hg⟩
    obtain ⟨inId, hin, rfl⟩ := List.mem_map.1 hg
    have hlocs := locBlks_of_mem hs
    have hlt := hlog.lt_ecK stripe.1 inId (hlocs.symm ▸ hin)
    rw [mul_comm, Nat.mul_add_mod, Nat.mod_eq_of_lt hlt, Nat.mul_add_div hk,
      Nat.div_eq_of_lt hlt, add_zero, hlocs]
    exact hin
  · intro hg
    cases hget : log.stripeId2locBlkId[g / conf.ecK]? with
    | none =>
        rw [Std.TreeMap.getD_eq_getD_getElem?, hget] at hg
        exact absurd hg List.not_mem_nil
    | some locs =>
        rw [Std.TreeMap.getD_eq_getD_getElem?, hget] at hg
        refine ⟨(g / conf.ecK, locs), Std.TreeMap.mem_toList_iff_getElem?_eq_some.2 hget,
          List.mem_map.2 ⟨g % conf.ecK, hg, ?_⟩⟩
        rw [mul_comm]
        exact Nat.div_add_mod g conf.ecK

theorem Log.WF.stripeBlks_nodup (hlog : log.WF conf) : (stripeBlks conf log).Nodup := by
  have hkeys : log.stripeId2locBlkId.toList.Pairwise fun a b => a.1 ≠ b.1 := by
    have h := Std.TreeMap.nodup_keys (t := log.stripeId2locBlkId)
    rw [← Std.TreeMap.map_fst_toList_eq_keys] at h
    exact List.pairwise_map.1 h
  refine List.nodup_flatMap.2 ⟨fun stripe hs => ?_, hkeys.imp_of_mem fun {a b} ha hb hne => ?_⟩
  · have hnodup := hlog.nodup stripe.1
    rw [locBlks_of_mem hs] at hnodup
    exact hnodup.map (add_right_injective _)
  · intro g hga hgb
    obtain ⟨i, hi, rfl⟩ := List.mem_map.1 hga
    obtain ⟨j, hj, heq⟩ := List.mem_map.1 hgb
    have hilt := hlog.lt_ecK a.1 i ((locBlks_of_mem ha).symm ▸ hi)
    have hjlt := hlog.lt_ecK b.1 j ((locBlks_of_mem hb).symm ▸ hj)
    have hdiv := congrArg (· / conf.ecK) heq
    simp only [mul_comm _ conf.ecK, Nat.mul_add_div (Nat.zero_lt_of_lt hilt),
      Nat.div_eq_of_lt hilt, Nat.div_eq_of_lt hjlt, add_zero] at hdiv
    exact hne hdiv.symm

theorem Log.WF.handedOver (hk : 0 < conf.ecK) (hlog : log.WF conf) (flip : Bool) :
    HandedOver conf log (updVecs conf flip log) where
  valid := by
    intro updBlkVec hvec
    obtain ⟨stripe, hs, rfl⟩ := List.mem_map.1 hvec
    exact hlog.validUpd flip hs
  inBlock := by
    intro updBlkVec hvec
    obtain ⟨stripe, _, rfl⟩ := List.mem_map.1 hvec
    exact hlog.inBlock flip stripe
  once := by
    rw [flatten_gloBlkIds]
    refine (List.perm_ext_iff_of_nodup hlog.stripeBlks_nodup Std.TreeMap.nodup_keys).2 fun g => ?_
    rw [hlog.mem_stripeBlks hk, Std.TreeMap.mem_keys]

end UpdVecs

/-! ## Runs -/

section Run

/-- The log and the logs of the rounds are in order, and so is what the policies get of a round. -/
structure LoopState.Bookkept (conf : Config) (s : LoopState) : Prop where
  log_wf : s.log.WF conf
  round_wf : ∀ rd ∈ s.rounds, rd.log.WF conf
  handed : ∀ rd ∈ s.rounds, HandedOver conf rd.log (triggerUpdate conf rd.log)
  handed_multi : ∀ rd ∈ s.rounds, ∀ policy ∈ multiPolicies,
    HandedOver conf rd.log (triggerUpdateByMultiDoProcess conf rd.log policy)

theorem LoopState.LogsOf.bookkept {conf : Config} {s : LoopState} (hk : 0 < conf.ecK)
    (hbs : 0 < conf.blocksize) (h : s.LogsOf conf) : s.Bookkept conf := by
  have hround : ∀ rd ∈ s.rounds, rd.log.WF conf := fun rd hrd =>
    h.round_log rd hrd ▸ logOf_wf hk hbs rd.requests
  exact ⟨h.log_eq ▸ logOf_wf hk hbs s.logged, hround,
    fun rd hrd => (hround rd hrd).handedOver hk _,
    fun rd hrd policy _ => (hround rd hrd).handedOver hk _⟩

end Run

end CoRD
