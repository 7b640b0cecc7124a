import CoRD.Repair.QfsMetadata

/-!
# QfsRequests — repair requests between messages

A chunk server sends its message, waits for the answer and asks for the repair later, over another
queue.  Messages of other servers come in between.  Each of them clears the helpers of all blocks
and the coefficients of the block before it.
-/

namespace CoRD

open Std

namespace Qfs

/-! ## Runs -/

section Runs

variable (conf : Config) (rsu : RSUtil)

/-- What happens in `QFS_MetadataBase`, one thread at a time under `_blkLock_m`: a message is
processed, or one of the two calls for a repair request returns. -/
inductive Event where
  | message (msg : Str) (canRecover : Bool)
  | stripeBlks (blkName : Str) (blks : List (Nat × Str))
  | coefficient (blkName : Str) (coef : TreeMap Str GF256)

/-- The calls only read; one that waits has not returned. -/
inductive Step : Metadata → Event → Metadata → Prop
  | message {s s' : Metadata} {msg : Str} {canRecover : Bool} :
      Processes conf rsu msg s s' canRecover → Step s (.message msg canRecover) s'
  | stripeBlks {s : Metadata} {blkName : Str} {blks : List (Nat × Str)} :
      s.getStripeBlks blkName = some blks → Step s (.stripeBlks blkName blks) s
  | coefficient {s : Metadata} {blkName : Str} {coef : TreeMap Str GF256} :
      s.getCoefficient blkName = some coef → Step s (.coefficient blkName coef) s

inductive Runs : Metadata → List Event → Metadata → Prop
  | nil (s : Metadata) : Runs s [] s
  | cons {s s₁ s₂ : Metadata} {e : Event} {events : List Event} :
      Step conf rsu s e s₁ → Runs s₁ events s₂ → Runs s (e :: events) s₂

/-- A message for block `blkName`. -/
def Event.IsFor (blkName : Str) : Event → Prop
  | .message msg _ => (lostBlk msg).1 = blkName
  | _ => False

/-- A message for another block. -/
def Event.IsOther (blkName : Str) : Event → Prop
  | .message msg _ => (lostBlk msg).1 ≠ blkName
  | _ => False

end Runs

/-- In state `s` both calls return what was computed for the block in state `s₁`: `ecK` helpers
and a coefficient for each of them. -/
def Serves (ecK : Nat) (blkName : Str) (s₁ s : Metadata) : Prop :=
  ∃ helpers coef, s₁.getStripeBlks blkName = some helpers ∧ helpers.length = ecK ∧
    s₁.getCoefficient blkName = some coef ∧
    (∀ b, b ∈ coef ↔ b ∈ helpers.map Prod.snd) ∧
    s.getStripeBlks blkName = some helpers ∧ s.getCoefficient blkName = some coef

/-! ## What a message stores -/

/-- The loop notes helpers for its block only, with the names that it takes. -/
structure Collected (lost : Str) (st : Collect) : Prop where
  only : ∀ b ∈ st.blk2Stripe, b = lost
  names : (st.blk2Stripe.getD lost []).map Prod.snd = st.recoveredBlks

section Loop

variable {ecK : Nat} {lost : Str} {st st' : Collect}

theorem Collected.of_eq (h : Collected lost st) (hstripe : st'.blk2Stripe = st.blk2Stripe)
    (hrec : st'.recoveredBlks = st.recoveredBlks) : Collected lost st' where
  only := hstripe.symm ▸ h.only
  names := by rw [hstripe, hrec, h.names]

theorem note_eq (lost bName : Str) (st : Collect) :
    (note lost bName st).1.blk2Stripe = st.blk2Stripe ∧
      (note lost bName st).1.recoveredBlks = st.recoveredBlks := by
  rw [note]
  split
  · split
    · exact ⟨rfl, rfl⟩
    · exact ⟨rfl, rfl⟩
  · exact ⟨rfl, rfl⟩

theorem Collected.note (h : Collected lost st) (bName : Str) :
    Collected lost (note lost bName st).1 :=
  h.of_eq (note_eq lost bName st).1 (note_eq lost bName st).2

theorem Collected.add (h : Collected lost st) (bName : Str) :
    Collected lost { st with
      ipAssigned := st.ipAssigned.insert st.ip
      blk2Stripe := st.blk2Stripe.insert lost (st.blk2Stripe.getD lost [] ++ [(st.ip, bName)])
      recoveredBlks := st.recoveredBlks ++ [bName] } where
  only := by
    intro b hb
    rcases TreeMap.mem_insert.1 hb with heq | hmem
    · exact (LawfulEqCmp.compare_eq_iff_eq.1 heq).symm
    · exact h.only b hmem
  names := by
    simp only [TreeMap.getD_insert_self, List.map_append, h.names, List.map_cons, List.map_nil]

/-- One turn, branch by branch. -/
theorem Collected.chunk (h : Collected lost st) (bName ipStr : Str) :
    Collected lost (chunk ecK lost bName ipStr st).1 := by
  have haddr : Collected lost
      (if ipStr ≠ [] then { st with ip := (inet_pton ipStr).getD st.ip } else st) := by
    split
    · exact h.of_eq rfl rfl
    · exact h
  rw [Qfs.chunk]
  generalize (if ipStr ≠ [] then { st with ip := (inet_pton ipStr).getD st.ip } else st) = st₁
    at haddr
  split
  · split
    · exact (haddr.add bName).note bName
    · exact haddr
  · split
    · exact haddr
    · exact haddr.note bName

theorem Collected.turn (h : Collected lost st) : Collected lost (turn ecK lost st).1 := by
  rw [Qfs.turn]
  apply Collected.chunk
  exact h.of_eq rfl rfl

theorem Collected.collect (h : Collected lost st) {fuel : Nat} :
    collect ecK lost fuel st = some st' → Collected lost st' := by
  intro hcollect
  induction fuel generalizing st with
  | zero =>
      cases hcollect
  | succ fuel ih =>
      rw [Qfs.collect] at hcollect
      by_cases hgoes : GoesOn ecK st
      · rw [if_pos hgoes] at hcollect
        by_cases hon : (Qfs.turn ecK lost st).2 = true
        · simp only [hon, if_true] at hcollect
          exact ih h.turn hcollect
        · simp only [hon] at hcollect
          cases hcollect
          exact h.turn
      · rw [if_neg hgoes] at hcollect
        cases hcollect
        exact h

theorem collected_loopStart (msg : Str) (ip : Nat) : Collected lost (loopStart msg ip) where
  only := fun b hb => absurd hb TreeMap.not_mem_emptyc
  names := by
    rw [loopStart, TreeMap.getD_emptyc]
    rfl

end Loop

section Message

variable {conf : Config} {rsu : RSUtil} {msg : Str} {s s' : Metadata} {canRecover : Bool}

/-- After a message there are helpers for its block at most. -/
theorem only_of_processes {b : Str} :
    Processes conf rsu msg s s' canRecover → b ≠ (lostBlk msg).1 → s'.getStripeBlks b = none := by
  intro hproc hb
  rcases processes_iff.1 hproc with ⟨fuel, st, hcollect, hanswer⟩
  have hcoll := (collected_loopStart msg s.ip).collect hcollect
  apply TreeMap.getElem?_eq_none
  by_cases hcan : CanRecover conf.ecK st
  · rcases answer_of_canRecover rsu (lostBlk msg).1 _ hcan with ⟨bid, -, heq⟩
    rw [heq] at hanswer
    cases hanswer
    intro hmem
    exact hb (hcoll.only b hmem)
  · rw [answer_of_not hcan] at hanswer
    cases hanswer
    intro hmem
    exact hb (hcoll.only b (TreeMap.mem_of_mem_erase hmem))

/-- What `canRecover` promises, right after the message. -/
theorem serves_of_processes (hk : 1 ≤ conf.ecK) (hs : Cleared s) :
    Processes conf rsu msg s s' true → Serves conf.ecK (lostBlk msg).1 s' s' := by
  intro hproc
  rcases processes_iff.1 hproc with ⟨fuel, st, hcollect, hanswer⟩
  have hcoll := (collected_loopStart msg s.ip).collect hcollect
  by_cases hcan : CanRecover conf.ecK st
  · rcases answer_of_canRecover rsu (lostBlk msg).1 _ hcan with ⟨bid, -, heq⟩
    rw [heq, hs.insert] at hanswer
    cases hanswer
    have hlen : (st.blk2Stripe.getD (lostBlk msg).1 []).length = conf.ecK := by
      rw [← hcan.1, ← hcoll.names, List.length_map]
    have hmem : (lostBlk msg).1 ∈ st.blk2Stripe := by
      apply not_imp_comm.1 TreeMap.getD_eq_fallback
      intro hnil
      rw [hnil, List.length_nil] at hlen
      exact absurd hk (hlen ▸ Nat.not_succ_le_zero 0)
    have hblks : st.blk2Stripe[(lostBlk msg).1]? =
        some (st.blk2Stripe.getD (lostBlk msg).1 []) :=
      TreeMap.getElem?_eq_some_getD hmem
    refine ⟨_, _, hblks, hlen, TreeMap.getElem?_insert_self, ?_, hblks,
      TreeMap.getElem?_insert_self⟩
    intro b
    rw [Tree.mem_insertAll, coefficientPairs_map_fst, hcoll.names]
    simp
  · rw [answer_of_not hcan] at hanswer
    cases hanswer

end Message

/-! ## Requests for a block -/

section Requests

variable {conf : Config} {rsu : RSUtil} {s s₁ s₂ : Metadata} {events : List Event} {blkName : Str}

theorem Runs.cleared (h : Runs conf rsu s events s₂) : Cleared s → Cleared s₂ := by
  intro hs
  induction h with
  | nil s => exact hs
  | cons hstep _ ih =>
      apply ih
      cases hstep with
      | message hproc => exact hs.message hproc
      | stripeBlks _ => exact hs
      | coefficient _ => exact hs

/-- Without a message nothing changes. -/
theorem Runs.eq_of_no_message (h : Runs conf rsu s events s₂) :
    (∀ e ∈ events, ¬ e.IsOther blkName ∧ ¬ e.IsFor blkName) → s₂ = s := by
  intro hnone
  induction h with
  | nil s => rfl
  | cons hstep _ ih =>
      have hrest := ih fun e he => hnone e (List.mem_cons_of_mem _ he)
      have hfirst := hnone _ List.mem_cons_self
      cases hstep with
      | message hproc => exact absurd hfirst.2 hfirst.1
      | stripeBlks _ => exact hrest
      | coefficient _ => exact hrest

theorem Step.waits {e : Event} (h : Step conf rsu s e s₁) (hlatest : ¬ e.IsFor blkName) :
    s₁.getStripeBlks blkName = none ∨ s₁ = s ∧ ¬ e.IsOther blkName := by
  cases h with
  | message hproc => exact Or.inl (only_of_processes hproc (Ne.symm hlatest))
  | stripeBlks _ => exact Or.inr ⟨rfl, id⟩
  | coefficient _ => exact Or.inr ⟨rfl, id⟩

/-- After a message for another block the first call waits, until there is one for the block
itself. -/
theorem Runs.waits (h : Runs conf rsu s events s₂) :
    (∀ e ∈ events, ¬ e.IsFor blkName) →
      (s.getStripeBlks blkName = none ∨ ∃ e ∈ events, e.IsOther blkName) →
        s₂.getStripeBlks blkName = none := by
  intro hlatest hgone
  induction h with
  | nil s =>
      rcases hgone with hnone | ⟨e, he, -⟩
      · exact hnone
      · exact absurd he List.not_mem_nil
  | cons hstep _ ih =>
      apply ih fun e he => hlatest e (List.mem_cons_of_mem _ he)
      rcases hstep.waits (hlatest _ List.mem_cons_self) with hnone | hsame
      · exact Or.inl hnone
      · rcases hgone with hnone | ⟨e, he, hother⟩
        · exact Or.inl (hsame.1 ▸ hnone)
        · rcases List.mem_cons.1 he with rfl | hin
          · exact absurd hother hsame.2
          · exact Or.inr ⟨e, hin, hother⟩

/-- Once it was answered that a block can be recovered, its repair request gets the helpers and the
coefficients if and only if no message for another block has come since. -/
theorem serves_iff_no_other (conf : Config) (rsu : RSUtil) (hk : 1 ≤ conf.ecK) (ip : Nat)
    (before later : List Event) (msg : Str) (s s₁ s₂ : Metadata)
    (hbefore : Runs conf rsu ⟨∅, ∅, [], ip⟩ before s)
    (hmsg : Processes conf rsu msg s s₁ true) (hlater : Runs conf rsu s₁ later s₂)
    (hlatest : ∀ e ∈ later, ¬ e.IsFor (lostBlk msg).1) :
    Serves conf.ecK (lostBlk msg).1 s₁ s₂ ↔ ∀ e ∈ later, ¬ e.IsOther (lostBlk msg).1 := by
  have hcleared : Cleared s := hbefore.cleared fun b _ => TreeMap.getD_emptyc
  constructor
  · intro hserves e he hother
    rcases hserves with ⟨helpers, -, -, -, -, -, hblks, -⟩
    rw [hlater.waits hlatest (Or.inr ⟨e, he, hother⟩)] at hblks
    cases hblks
  · intro hnone
    rw [hlater.eq_of_no_message fun e he => ⟨hnone e he, hlatest e he⟩]
    exact serves_of_processes hk hcleared hmsg

end Requests

/-! ## Two chunk servers -/

/-- Another server asks for a chunk of another stripe. -/
def otherEntries : List (Str × Str) :=
  threeEntries "9.142.1".toList "9.140.1".toList "9.141.1".toList

theorem exists_processes_other (s : Metadata) :
    ∃ s' r, Processes xorConf xorRSUtil
      (metaMessage "9.140.1".toList "10.0.0.8".toList otherEntries) s s' r := by
  have hs : IsStripe "9.140.1".toList otherEntries 1 :=
    threeEntries_isStripe ⟨by decide, by decide⟩ ⟨by decide, by decide⟩ ⟨by decide, by decide⟩
      (by decide) (by decide) (by decide)
  have hrip : inet_pton "10.0.0.8".toList = some (10 + 256 ^ 3 * 8) := by decide +kernel
  have hk : xorConf.ecK < otherEntries.length := by decide
  rcases collect_metaMessage ⟨by decide, by decide⟩ ⟨by decide, by decide⟩ hrip hs hk s.ip with
    ⟨st, hcollect, -⟩
  exact ⟨_, _, processes_iff.2 ⟨_, st, hcollect, rfl⟩⟩

theorem not_serves_between :
    ¬ ∀ (before later : List Event) (msg : Str) (s s₁ s₂ : Metadata),
      Runs xorConf xorRSUtil ⟨∅, ∅, [], 0⟩ before s → Processes xorConf xorRSUtil msg s s₁ true →
        Runs xorConf xorRSUtil s₁ later s₂ → (∀ e ∈ later, ¬ e.IsFor (lostBlk msg).1) →
          Serves 2 (lostBlk msg).1 s₁ s₂ := by
  intro hclaim
  rcases processes_xor with ⟨s₁, hmsg⟩
  rcases exists_processes_other s₁ with ⟨s₂, r, hother⟩
  have hblk : (lostBlk (metaMessage "9.130.1".toList "10.0.0.9".toList xorEntries)).1 =
      "9.130.1".toList := by decide +kernel
  have hblk' : (lostBlk (metaMessage "9.140.1".toList "10.0.0.8".toList otherEntries)).1 =
      "9.140.1".toList := by decide +kernel
  have hserves := hclaim [] _ _ _ _ _ (.nil _) hmsg (.cons (.message hother) (.nil _)) (by
    intro e he hfor
    rw [List.mem_singleton.1 he] at hfor
    have heq : "9.140.1".toList = "9.130.1".toList := hblk'.symm.trans (hfor.trans hblk)
    exact absurd heq (by decide))
  rcases hserves with ⟨helpers, -, -, -, -, -, hblks, -⟩
  have hnone := only_of_processes hother (b := "9.130.1".toList) (by
    rw [hblk']
    decide)
  rw [hblk, hnone] at hblks
  cases hblks

theorem serves_iff_no_other_xor :
    ∃ s₁, Processes xorConf xorRSUtil
        (metaMessage "9.130.1".toList "10.0.0.9".toList xorEntries) ⟨∅, ∅, [], 0⟩ s₁ true ∧
      Serves 2 "9.130.1".toList s₁ s₁ := by
  rcases processes_xor with ⟨s₁, hmsg⟩
  have hblk : (lostBlk (metaMessage "9.130.1".toList "10.0.0.9".toList xorEntries)).1 =
      "9.130.1".toList := by decide +kernel
  have hiff := serves_iff_no_other xorConf xorRSUtil (by decide) 0 [] [] _ _ _ _ (.nil _) hmsg
    (.nil _) (fun e he => absurd he List.not_mem_nil)
  rw [hblk] at hiff
  exact ⟨s₁, hmsg, hiff.2 fun e he => absurd he List.not_mem_nil⟩

end Qfs

end CoRD
