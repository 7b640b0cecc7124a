import Mathlib.Data.Finset.Card
import Mathlib.Data.Finset.Dedup
import CoRD.Util.Ranges
import CoRD.Trace.Request

/-!
# Log — the two maps that requests are merged into

`gloBlkId2startEnd` keeps one range for each touched block, `stripeId2locBlkId` the touched blocks of
each stripe in the order of their first piece.  A new piece of a block already there shrinks both
ends of its range: the source takes the minimum of the ends as well as that of the starts.
-/

namespace CoRD

structure Log where
  gloBlkId2startEnd : Std.TreeMap Nat StartEnd
  stripeId2locBlkId : Std.TreeMap Nat (List Nat)

def Log.empty : Log :=
  { gloBlkId2startEnd := ∅, stripeId2locBlkId := ∅ }

/-- The local block is entered once. -/
def insertLocBlk (stripeId2locBlkId : Std.TreeMap Nat (List Nat)) (stripeId locBlkId : Nat) :
    Std.TreeMap Nat (List Nat) :=
  match stripeId2locBlkId[stripeId]? with
  | none => stripeId2locBlkId.insert stripeId [locBlkId]
  | some v =>
      if locBlkId ∈ v then stripeId2locBlkId
      else stripeId2locBlkId.insert stripeId (v ++ [locBlkId])

def Log.addPiece (ecK : Nat) (log : Log) (p : Nat × StartEnd) : Log :=
  match log.gloBlkId2startEnd[p.1]? with
  | none =>
      { gloBlkId2startEnd := log.gloBlkId2startEnd.insert p.1 p.2
        stripeId2locBlkId := insertLocBlk log.stripeId2locBlkId (p.1 / ecK) (p.1 % ecK) }
  | some old =>
      -- the ends are merged with `min` too
      { log with
        gloBlkId2startEnd :=
          log.gloBlkId2startEnd.insert p.1 (min p.2.1 old.1, min p.2.2 old.2) }

def Log.addRequest (conf : Config) (log : Log) (r : Request) : Log :=
  (pieces conf.blocksize r).foldl (Log.addPiece conf.ecK) log

/-- The log that requests leave when none of them triggers an update. -/
def logOf (conf : Config) (rs : List Request) : Log :=
  rs.foldl (Log.addRequest conf) Log.empty

/-- The log has reached its size: `cur_log_size >= _log_size`, in KB. -/
def Log.Full (conf : TraceConfig) (log : Log) : Prop :=
  conf.logSize * 1024 ≤ (log.gloBlkId2startEnd.size * conf.blocksize : Nat)

instance (conf : TraceConfig) (log : Log) : Decidable (log.Full conf) :=
  inferInstanceAs (Decidable (_ ≤ _))

/-- The pieces of requests in one block. -/
def piecesAt (blocksize : Nat) (rs : List Request) (g : Nat) : List StartEnd :=
  ((rs.flatMap (pieces blocksize)).filter fun p => p.1 = g).map Prod.snd

/-- The blocks that requests touch. -/
def touched (blocksize : Nat) (rs : List Request) : List Nat :=
  (rs.flatMap (gloBlkIds blocksize)).dedup

section Pieces

variable {blocksize : Nat} {rs rs' : List Request} {g : Nat}

theorem mem_piecesAt {se : StartEnd} :
    se ∈ piecesAt blocksize rs g ↔
      ∃ r ∈ rs, g ∈ gloBlkIds blocksize r ∧ se = startEnd blocksize r g := by
  simp only [piecesAt, List.mem_map, List.mem_filter, List.mem_flatMap, decide_eq_true_eq]
  constructor
  · rintro ⟨p, ⟨⟨r, hr, hp⟩, rfl⟩, rfl⟩
    exact ⟨r, hr, mem_pieces.1 hp⟩
  · rintro ⟨r, hr, hmem, rfl⟩
    exact ⟨(g, _), ⟨⟨r, hr, mem_pieces.2 ⟨hmem, rfl⟩⟩, rfl⟩, rfl⟩

theorem piecesAt_perm (h : rs.Perm rs') (g : Nat) :
    (piecesAt blocksize rs g).Perm (piecesAt blocksize rs' g) :=
  ((h.flatMap_right _).filter _).map _

theorem mem_touched : g ∈ touched blocksize rs ↔ ∃ r ∈ rs, g ∈ gloBlkIds blocksize r := by
  simp [touched]

theorem touched_nodup (blocksize : Nat) (rs : List Request) : (touched blocksize rs).Nodup :=
  List.nodup_dedup _

end Pieces

/-! ## One piece -/

section AddPiece

variable {ecK : Nat} {log : Log}

theorem addPiece_range (ecK : Nat) (log : Log) (p : Nat × StartEnd) (g : Nat) :
    (log.addPiece ecK p).gloBlkId2startEnd[g]? =
      if p.1 = g then some (Ranges.meet p.2 log.gloBlkId2startEnd[g]?)
      else log.gloBlkId2startEnd[g]? := by
  unfold Log.addPiece
  by_cases hg : p.1 = g
  · subst hg
    cases hget : log.gloBlkId2startEnd[p.1]? with
    | none =>
        simp [Ranges.meet]
    | some old =>
        simp [Ranges.meet]
  · have hne : ¬ compare p.1 g = .eq := fun h => hg (Std.LawfulEqCmp.eq_of_compare h)
    rw [if_neg hg]
    cases hget : log.gloBlkId2startEnd[p.1]? with
    | none =>
        simp [Std.TreeMap.getElem?_insert, hne]
    | some old =>
        simp [Std.TreeMap.getElem?_insert, hne]

theorem addPiece_mem_range (p : Nat × StartEnd) (g : Nat) :
    g ∈ (log.addPiece ecK p).gloBlkId2startEnd ↔ g = p.1 ∨ g ∈ log.gloBlkId2startEnd := by
  rw [Std.TreeMap.mem_iff_isSome_getElem?, addPiece_range, Std.TreeMap.mem_iff_isSome_getElem?]
  by_cases hg : p.1 = g
  · simp [hg]
  · simp [hg, Ne.symm hg]

theorem insertLocBlk_getD (m : Std.TreeMap Nat (List Nat)) (stripeId locBlkId st : Nat) :
    (insertLocBlk m stripeId locBlkId).getD st [] =
      if stripeId = st ∧ locBlkId ∉ m.getD st [] then m.getD st [] ++ [locBlkId]
      else m.getD st [] := by
  unfold insertLocBlk
  cases hget : m[stripeId]? with
  | none =>
      by_cases hst : stripeId = st
      · subst hst
        simp [Std.TreeMap.getD_eq_getD_getElem?, hget]
      · simp [Std.TreeMap.getD_insert, hst]
  | some v =>
      by_cases hst : stripeId = st
      · subst hst
        by_cases hv : locBlkId ∈ v
        · simp [Std.TreeMap.getD_eq_getD_getElem?, hget, hv]
        · simp [Std.TreeMap.getD_eq_getD_getElem?, hget, hv]
      · by_cases hv : locBlkId ∈ v
        · simp [hv, hst]
        · simp [Std.TreeMap.getD_insert, hv, hst]

theorem mem_insertLocBlk (m : Std.TreeMap Nat (List Nat)) (stripeId locBlkId st : Nat) :
    st ∈ insertLocBlk m stripeId locBlkId ↔ st = stripeId ∨ st ∈ m := by
  unfold insertLocBlk
  cases hget : m[stripeId]? with
  | none =>
      simp [Std.TreeMap.mem_insert, @eq_comm _ st stripeId]
  | some v =>
      have hmem : stripeId ∈ m := by
        rw [Std.TreeMap.mem_iff_isSome_getElem?, hget]
        rfl
      by_cases hv : locBlkId ∈ v
      · simp only [hv, if_true]
        exact ⟨Or.inr, fun h => h.elim (fun heq => heq ▸ hmem) id⟩
      · simp [Std.TreeMap.mem_insert, hv, @eq_comm _ st stripeId]

end AddPiece

/-! ## The two maps agree -/

/-- What `trigger_update` relies on. -/
structure Log.WF (conf : Config) (log : Log) : Prop where
  mem_iff : ∀ g : Nat, g ∈ log.gloBlkId2startEnd ↔
    g % conf.ecK ∈ log.stripeId2locBlkId.getD (g / conf.ecK) []
  nodup : ∀ st : Nat, (log.stripeId2locBlkId.getD st []).Nodup
  lt_ecK : ∀ st : Nat, ∀ i ∈ log.stripeId2locBlkId.getD st [], i < conf.ecK
  ne_nil : ∀ st : Nat, st ∈ log.stripeId2locBlkId → log.stripeId2locBlkId.getD st [] ≠ []
  range_le : ∀ (g : Nat) (se : StartEnd), log.gloBlkId2startEnd[g]? = some se →
    se.1 ≤ se.2 ∧ se.2 ≤ conf.blocksize

section WF

variable {conf : Config} {log : Log}

theorem wf_empty (conf : Config) : Log.empty.WF conf where
  mem_iff := fun g => by simp [Log.empty]
  nodup := fun st => by simp [Log.empty]
  lt_ecK := fun st i hi => by simp [Log.empty] at hi
  ne_nil := fun st hst => by simp [Log.empty] at hst
  range_le := fun g se hse => by simp [Log.empty] at hse

/-- A block that is not in the log is not in its stripe either, so it is entered at the end. -/
theorem addPiece_locBlks (hlog : log.WF conf) (p : Nat × StartEnd) (st : Nat) :
    (log.addPiece conf.ecK p).stripeId2locBlkId.getD st [] =
      if p.1 ∉ log.gloBlkId2startEnd ∧ p.1 / conf.ecK = st then
        log.stripeId2locBlkId.getD st [] ++ [p.1 % conf.ecK]
      else log.stripeId2locBlkId.getD st [] := by
  unfold Log.addPiece
  cases hget : log.gloBlkId2startEnd[p.1]? with
  | none =>
      have hmem : p.1 ∉ log.gloBlkId2startEnd := by
        rw [Std.TreeMap.mem_iff_isSome_getElem?, hget]
        simp
      have hloc : p.1 % conf.ecK ∉ log.stripeId2locBlkId.getD (p.1 / conf.ecK) [] :=
        mt (hlog.mem_iff p.1).2 hmem
      simp only [insertLocBlk_getD, hmem, not_false_eq_true, true_and]
      by_cases hst : p.1 / conf.ecK = st
      · subst hst
        simp [hloc]
      · simp [hst]
  | some old =>
      have hmem : p.1 ∈ log.gloBlkId2startEnd := by
        rw [Std.TreeMap.mem_iff_isSome_getElem?, hget]
        rfl
      simp [hmem]

theorem addPiece_mem_stripe (p : Nat × StartEnd) {st : Nat}
    (h : st ∈ (log.addPiece conf.ecK p).stripeId2locBlkId) :
    st = p.1 / conf.ecK ∧ p.1 ∉ log.gloBlkId2startEnd ∨ st ∈ log.stripeId2locBlkId := by
  unfold Log.addPiece at h
  cases hget : log.gloBlkId2startEnd[p.1]? with
  | none =>
      have hmem : p.1 ∉ log.gloBlkId2startEnd := by
        rw [Std.TreeMap.mem_iff_isSome_getElem?, hget]
        simp
      rw [hget] at h
      exact ((mem_insertLocBlk _ _ _ _).1 h).imp_left fun heq => ⟨heq, hmem⟩
  | some old =>
      rw [hget] at h
      exact Or.inr h

theorem addPiece_wf (hk : 0 < conf.ecK) (hlog : log.WF conf) {p : Nat × StartEnd}
    (hp : p.2.1 ≤ p.2.2 ∧ p.2.2 ≤ conf.blocksize) : (log.addPiece conf.ecK p).WF conf where
  mem_iff := by
    intro g
    rw [addPiece_mem_range, addPiece_locBlks hlog]
    by_cases hmem : p.1 ∈ log.gloBlkId2startEnd
    · rw [if_neg (by simp [hmem]), ← hlog.mem_iff]
      exact ⟨fun h => h.elim (fun heq => heq ▸ hmem) id, Or.inr⟩
    · by_cases hst : p.1 / conf.ecK = g / conf.ecK
      · rw [if_pos ⟨hmem, hst⟩, List.mem_append, List.mem_singleton, ← hlog.mem_iff, or_comm]
        -- within a stripe the local number tells the blocks apart
        have hg : g = p.1 ↔ g % conf.ecK = p.1 % conf.ecK := by
          constructor
          · rintro rfl
            rfl
          · intro hmod
            rw [← Nat.div_add_mod g conf.ecK, ← hst, hmod, Nat.div_add_mod]
        rw [hg]
      · rw [if_neg (fun h => hst h.2), ← hlog.mem_iff]
        have hg : g ≠ p.1 := fun heq => hst (heq ▸ rfl)
        simp [hg]
  nodup := by
    intro st
    rw [addPiece_locBlks hlog]
    split
    case isTrue h =>
      obtain ⟨hmem, rfl⟩ := h
      have hloc := mt (hlog.mem_iff p.1).2 hmem
      exact List.nodup_append.2 ⟨hlog.nodup _, List.nodup_singleton _,
        fun a ha b hb hab => hloc (List.mem_singleton.1 hb ▸ hab ▸ ha)⟩
    case isFalse =>
      exact hlog.nodup st
  lt_ecK := by
    intro st i hi
    rw [addPiece_locBlks hlog] at hi
    split at hi
    · rcases List.mem_append.1 hi with hold | hnew
      · exact hlog.lt_ecK st i hold
      · rw [List.mem_singleton.1 hnew]
        exact Nat.mod_lt _ hk
    · exact hlog.lt_ecK st i hi
  ne_nil := by
    intro st hst
    rw [addPiece_locBlks hlog]
    rcases addPiece_mem_stripe p hst with ⟨rfl, hmem⟩ | hold
    · rw [if_pos ⟨hmem, rfl⟩]
      simp
    · split
      · simp
      · exact hlog.ne_nil st hold
  range_le := by
    intro g se hse
    rw [addPiece_range] at hse
    split at hse
    · cases hget : log.gloBlkId2startEnd[g]? with
      | none =>
          rw [hget] at hse
          exact Option.some.inj hse ▸ hp
      | some old =>
          rw [hget] at hse
          obtain rfl := Option.some.inj hse
          have hold := hlog.range_le g old hget
          simp only [Ranges.meet, le_min_iff, min_le_iff]
          omega
    · exact hlog.range_le g se hse

theorem addRequest_wf (hk : 0 < conf.ecK) (hbs : 0 < conf.blocksize) (hlog : log.WF conf)
    (r : Request) : (log.addRequest conf r).WF conf := by
  have hpieces : ∀ p ∈ pieces conf.blocksize r, p.2.1 ≤ p.2.2 ∧ p.2.2 ≤ conf.blocksize :=
    fun p hp => (mem_pieces.1 hp).2 ▸ startEnd_le_blocksize hbs r p.1
  unfold Log.addRequest
  generalize pieces conf.blocksize r = ps at hpieces
  induction ps generalizing log with
  | nil =>
      exact hlog
  | cons p ps ih =>
      exact ih (addPiece_wf hk hlog (hpieces p List.mem_cons_self))
        fun q hq => hpieces q (List.mem_cons_of_mem p hq)

end WF

/-! ## The log of a list of requests -/

section LogOf

variable {conf : Config} {rs rs' : List Request}

@[simp] theorem logOf_nil (conf : Config) : logOf conf [] = Log.empty := rfl

@[simp] theorem logOf_concat (conf : Config) (rs : List Request) (r : Request) :
    logOf conf (rs ++ [r]) = (logOf conf rs).addRequest conf r := by
  simp [logOf]

theorem foldl_addPiece_range (ecK : Nat) (ps : List (Nat × StartEnd)) (g : Nat) :
    (ps.foldl (Log.addPiece ecK) Log.empty).gloBlkId2startEnd[g]? =
      Ranges.minEnds ((ps.filter fun p => p.1 = g).map Prod.snd) := by
  induction ps using List.reverseRecOn with
  | nil =>
      simp [Log.empty]
  | append_singleton ps p ih =>
      rw [List.foldl_concat, addPiece_range, ih, List.filter_append, List.map_append]
      by_cases hg : p.1 = g
      · simp [hg, Ranges.minEnds_concat]
      · simp [hg]

theorem logOf_eq_foldl (conf : Config) (rs : List Request) :
    logOf conf rs =
      (rs.flatMap (pieces conf.blocksize)).foldl (Log.addPiece conf.ecK) Log.empty := by
  rw [List.foldl_flatMap]
  rfl

/-- The range of a block: the minimum of the starts and that of the ends. -/
theorem logOf_range (conf : Config) (rs : List Request) (g : Nat) :
    (logOf conf rs).gloBlkId2startEnd[g]? = Ranges.minEnds (piecesAt conf.blocksize rs g) := by
  rw [logOf_eq_foldl, foldl_addPiece_range]
  rfl

theorem mem_logOf {g : Nat} :
    g ∈ (logOf conf rs).gloBlkId2startEnd ↔ g ∈ touched conf.blocksize rs := by
  rw [Std.TreeMap.mem_iff_isSome_getElem?, logOf_range, mem_touched]
  constructor
  · intro h
    obtain ⟨se, hse⟩ := List.exists_mem_of_ne_nil (piecesAt conf.blocksize rs g) (by
      rintro hnil
      simp [hnil] at h)
    obtain ⟨r, hr, hmem, _⟩ := mem_piecesAt.1 hse
    exact ⟨r, hr, hmem⟩
  · rintro ⟨r, hr, hmem⟩
    have hne := List.ne_nil_of_mem (mem_piecesAt.2 ⟨r, hr, hmem, rfl⟩)
    obtain ⟨s, lo, hi, hmin, _⟩ := Ranges.exists_bounds hne
    simp [hmin]

theorem logOf_keys_perm (conf : Config) (rs : List Request) :
    (logOf conf rs).gloBlkId2startEnd.keys.Perm (touched conf.blocksize rs) := by
  refine (List.perm_ext_iff_of_nodup Std.TreeMap.nodup_keys (touched_nodup _ _)).2 fun g => ?_
  rw [Std.TreeMap.mem_keys, mem_logOf]

theorem logOf_size (conf : Config) (rs : List Request) :
    (logOf conf rs).gloBlkId2startEnd.size = (touched conf.blocksize rs).length := by
  rw [← (logOf_keys_perm conf rs).length_eq, Std.TreeMap.length_keys]

theorem logOf_wf (hk : 0 < conf.ecK) (hbs : 0 < conf.blocksize) (rs : List Request) :
    (logOf conf rs).WF conf := by
  induction rs using List.reverseRecOn with
  | nil =>
      exact wf_empty conf
  | append_singleton rs r ih =>
      rw [logOf_concat]
      exact addRequest_wf hk hbs ih r

end LogOf

end CoRD
