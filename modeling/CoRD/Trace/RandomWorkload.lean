import CoRD.Trace.Loop

/-!
# RandomWorkload — updates at random places

With `UPWay` at `random`, every data block of stripe 0 gets one update.  Its start is drawn from the
whole block, and its size from what is left behind the start, less one.  A start in the last KB of
the block leaves nothing to draw from: the second modulus is by zero.

Call `2 * i` of `rand` draws the start for block `i`, and call `2 * i + 1` the size.
-/

namespace CoRD

/-! ## The draws -/

/-- The start and the end drawn for one block, unless a modulus is by zero. -/
def randomStartEnd (blocksize draw draw' : Nat) : Option StartEnd :=
  if blocksize = 0 then none
  else
    let offset := draw % blocksize
    if blocksize - offset - 1 = 0 then none
    else
      let updateSize := draw' % (blocksize - offset - 1) + 1
      some (offset, offset + updateSize)

/-- One turn of the loop over the data blocks. -/
def randomTurn (blocksize : Nat) (rand : Nat → Nat) (gloBlkId2startEnd : Std.TreeMap Nat StartEnd)
    (i : Nat) : Option (Std.TreeMap Nat StartEnd) := do
  let startEnd ← randomStartEnd blocksize (rand (2 * i)) (rand (2 * i + 1))
  return gloBlkId2startEnd.insert i startEnd

/-- The two maps in random mode. -/
def randomLog (conf : Config) (rand : Nat → Nat) : Option Log := do
  let gloBlkId2startEnd ← (List.range conf.ecK).foldlM (randomTurn conf.blocksize rand) ∅
  return { gloBlkId2startEnd := gloBlkId2startEnd
           stripeId2locBlkId :=
            (∅ : Std.TreeMap Nat (List Nat)).insert 0 (List.range conf.ecK) }

/-- What `single_doProcess` hands to the update of the configured policy. -/
def singleRandom (conf : Config) (rand : Nat → Nat) : Option (List (List UpdBlock)) :=
  (randomLog conf rand).map (triggerUpdate conf)

/-- What `multi_doProcess` hands to the updates, policy by policy; here `crd_flip` has no turn. -/
def multiRandom (conf : Config) (rand : Nat → Nat) :
    Option (List (MultiPolicy × List (List UpdBlock))) :=
  (randomLog conf rand).map fun log =>
    [MultiPolicy.raid, .delta, .crd].map fun policy =>
      (policy, triggerUpdateByMultiDoProcess conf log policy)

/-- One update vector, with every data block once and a range inside each. -/
def WholeStripe (conf : Config) (vecs : List (List UpdBlock)) : Prop :=
  ∃ updBlkVec, vecs = [updBlkVec] ∧
    (updBlkVec.map UpdBlock.id).Perm ((List.range conf.ecK).map Nat.cast) ∧
    ∀ b ∈ updBlkVec, 0 ≤ b.offsetAdd ∧ 1 ≤ b.updSize ∧ b.offsetAdd + b.updSize ≤ conf.blocksize

/-- No modulus is by zero, and the updates get a whole stripe. -/
def RandomWorkload (conf : Config) (rand : Nat → Nat) : Prop :=
  (∃ vecs, singleRandom conf rand = some vecs ∧ WholeStripe conf vecs) ∧
    ∃ handed, multiRandom conf rand = some handed ∧
      handed.map Prod.fst = [.raid, .delta, .crd] ∧ ∀ turn ∈ handed, WholeStripe conf turn.2

/-! ## One block -/

/-- Only a start in the last KB makes a modulus by zero. -/
theorem randomStartEnd_eq_none_iff {blocksize draw draw' : Nat} (h : 1 ≤ blocksize) :
    randomStartEnd blocksize draw draw' = none ↔ draw % blocksize = blocksize - 1 := by
  have hlt : draw % blocksize < blocksize := Nat.mod_lt draw h
  rw [randomStartEnd, if_neg (Nat.ne_of_gt h)]
  constructor
  · intro hnone
    by_contra hne
    have hleft : blocksize - draw % blocksize - 1 ≠ 0 := by omega
    simp only [if_neg hleft] at hnone
    cases hnone
  · intro heq
    exact if_pos (by omega)

/-- A range that is drawn lies inside the block, and ends before its last KB. -/
theorem randomStartEnd_bounds {blocksize draw draw' : Nat} {se : StartEnd} :
    randomStartEnd blocksize draw draw' = some se → se.1 + 1 ≤ se.2 ∧ se.2 + 1 ≤ blocksize := by
  intro hsome
  rw [randomStartEnd] at hsome
  split at hsome
  · cases hsome
  · rename_i hpos
    simp only at hsome
    split at hsome
    · cases hsome
    · rename_i hleft
      obtain rfl := Option.some.inj hsome
      have hoffset : draw % blocksize < blocksize := Nat.mod_lt draw (Nat.pos_of_ne_zero hpos)
      have hsize : draw' % (blocksize - draw % blocksize - 1) < blocksize - draw % blocksize - 1 :=
        Nat.mod_lt draw' (Nat.pos_of_ne_zero hleft)
      constructor
      · exact Nat.add_le_add_left (Nat.le_add_left 1 _) _
      · show draw % blocksize + (draw' % (blocksize - draw % blocksize - 1) + 1) + 1 ≤ blocksize
        omega

/-! ## The loop -/

section Loop

variable {blocksize : Nat} {rand : Nat → Nat}

theorem foldlM_randomTurn_succ (m : Nat) :
    (List.range (m + 1)).foldlM (randomTurn blocksize rand) ∅ =
      ((List.range m).foldlM (randomTurn blocksize rand) ∅).bind fun t =>
        (randomStartEnd blocksize (rand (2 * m)) (rand (2 * m + 1))).map (t.insert m) := by
  rw [List.range_succ, List.foldlM_append]
  congr 1
  funext t
  rw [List.foldlM_cons, randomTurn]
  cases randomStartEnd blocksize (rand (2 * m)) (rand (2 * m + 1)) <;> rfl

/-- One draw that fails is enough. -/
theorem foldlM_randomTurn_eq_none {m i : Nat} (hi : i < m) :
    randomStartEnd blocksize (rand (2 * i)) (rand (2 * i + 1)) = none →
      (List.range m).foldlM (randomTurn blocksize rand) ∅ = none := by
  intro hnone
  induction m with
  | zero => cases hi
  | succ m ih =>
      rw [foldlM_randomTurn_succ]
      rcases Nat.lt_succ_iff_lt_or_eq.1 hi with hlt | rfl
      · rw [ih hlt]
        rfl
      · rw [hnone]
        cases (List.range i).foldlM (randomTurn blocksize rand) ∅ <;> rfl

/-- When no draw fails, the map has what was drawn. -/
theorem foldlM_randomTurn_eq_some {m : Nat} :
    (∀ i < m, randomStartEnd blocksize (rand (2 * i)) (rand (2 * i + 1)) ≠ none) →
      ∃ t, (List.range m).foldlM (randomTurn blocksize rand) ∅ = some t ∧
        ∀ i < m, t[i]? = randomStartEnd blocksize (rand (2 * i)) (rand (2 * i + 1)) := by
  intro hall
  induction m with
  | zero => exact ⟨∅, rfl, fun i hi => absurd hi (Nat.not_lt_zero i)⟩
  | succ m ih =>
      rcases ih fun i hi => hall i (Nat.lt_succ_of_lt hi) with ⟨t, ht, hget⟩
      rcases Option.ne_none_iff_exists'.1 (hall m (Nat.lt_succ_self m)) with ⟨se, hse⟩
      refine ⟨t.insert m se, ?_, fun i hi => ?_⟩
      · rw [foldlM_randomTurn_succ, ht, hse]
        rfl
      · rcases Nat.lt_succ_iff_lt_or_eq.1 hi with hlt | rfl
        · have hne : ¬ compare m i = .eq := fun h =>
            hlt.ne' (Std.LawfulEqCmp.eq_of_compare h)
          rw [Std.TreeMap.getElem?_insert, if_neg hne, hget i hlt]
        · rw [Std.TreeMap.getElem?_insert_self, hse]

end Loop

/-! ## The whole workload -/

theorem randomLog_eq_none {conf : Config} {rand : Nat → Nat} (h : 1 ≤ conf.blocksize) {i : Nat}
    (hi : i < conf.ecK) :
    rand (2 * i) % conf.blocksize = conf.blocksize - 1 → randomLog conf rand = none := by
  intro heq
  rw [randomLog, foldlM_randomTurn_eq_none hi ((randomStartEnd_eq_none_iff h).2 heq)]
  rfl

theorem randomLog_eq_some {conf : Config} {rand : Nat → Nat} (h : 1 ≤ conf.blocksize) :
    (∀ i < conf.ecK, rand (2 * i) % conf.blocksize ≠ conf.blocksize - 1) →
      ∃ log, randomLog conf rand = some log ∧
        log.stripeId2locBlkId = (∅ : Std.TreeMap Nat (List Nat)).insert 0 (List.range conf.ecK) ∧
        ∀ i < conf.ecK, ∃ se, log.gloBlkId2startEnd[i]? = some se ∧
          se.1 + 1 ≤ se.2 ∧ se.2 + 1 ≤ conf.blocksize := by
  intro hall
  have hdraw : ∀ i < conf.ecK,
      randomStartEnd conf.blocksize (rand (2 * i)) (rand (2 * i + 1)) ≠ none :=
    fun i hi => mt (randomStartEnd_eq_none_iff h).1 (hall i hi)
  rcases foldlM_randomTurn_eq_some hdraw with ⟨t, ht, hget⟩
  refine ⟨_, by rw [randomLog, ht]; rfl, rfl, fun i hi => ?_⟩
  rcases Option.ne_none_iff_exists'.1 (hdraw i hi) with ⟨se, hse⟩
  exact ⟨se, (hget i hi).trans hse, randomStartEnd_bounds hse⟩

/-- Not flipped, the vector of such a log is a whole stripe. -/
theorem wholeStripe_updVecs {conf : Config} {log : Log}
    (hstripe : log.stripeId2locBlkId =
      (∅ : Std.TreeMap Nat (List Nat)).insert 0 (List.range conf.ecK))
    (hrange : ∀ i < conf.ecK, ∃ se, log.gloBlkId2startEnd[i]? = some se ∧
      se.1 + 1 ≤ se.2 ∧ se.2 + 1 ≤ conf.blocksize) :
    WholeStripe conf (updVecs conf false log) := by
  have hlist : log.stripeId2locBlkId.toList = [(0, List.range conf.ecK)] := by
    rw [hstripe]
    rfl
  refine ⟨_, by rw [updVecs, hlist]; rfl, ?_, ?_⟩
  · rw [List.map_map]
    exact List.Perm.of_eq (List.map_congr_left fun i _ => rfl)
  · intro b hb
    rcases List.mem_map.1 hb with ⟨i, hi, rfl⟩
    rcases hrange i (List.mem_range.1 hi) with ⟨se, hget, hpos, hend⟩
    have hstart : log.gloBlkId2startEnd.getD (0 * conf.ecK + i) (0, 0) = se := by
      rw [Nat.zero_mul, Nat.zero_add, Std.TreeMap.getD_eq_getD_getElem?, hget]
      rfl
    show 0 ≤ (updBlk conf log false 0 i).offsetAdd ∧ _
    simp only [updBlk, hstart]
    rw [if_neg (fun h => Bool.false_ne_true h.1)]
    show (0 : Int) ≤ se.1 ∧ (1 : Int) ≤ se.2 - se.1 ∧ (se.1 : Int) + (se.2 - se.1) ≤ conf.blocksize
    omega

/-- The workload is right just when no start is drawn in the last KB of its block. -/
theorem randomWorkload_iff {conf : Config} (h : 1 ≤ conf.blocksize) (rand : Nat → Nat) :
    RandomWorkload conf rand ↔
      ∀ i < conf.ecK, rand (2 * i) % conf.blocksize ≠ conf.blocksize - 1 := by
  constructor
  · rintro ⟨⟨vecs, hsingle, _⟩, _⟩ i hi heq
    rw [singleRandom, randomLog_eq_none h hi heq] at hsingle
    cases hsingle
  · intro hall
    rcases randomLog_eq_some h hall with ⟨log, hlog, hstripe, hrange⟩
    have hwhole := wholeStripe_updVecs hstripe hrange
    refine ⟨⟨_, by rw [singleRandom, hlog]; rfl, hwhole⟩, _, by rw [multiRandom, hlog]; rfl, rfl,
      fun turn hturn => ?_⟩
    rcases List.mem_map.1 hturn with ⟨policy, hpolicy, rfl⟩
    have hflip : triggerUpdateByMultiDoProcess conf log policy = updVecs conf false log := by
      simp only [List.mem_cons, List.not_mem_nil, or_false] at hpolicy
      rcases hpolicy with rfl | rfl | rfl <;> rfl
    show WholeStripe conf (triggerUpdateByMultiDoProcess conf log policy)
    rw [hflip]
    exact hwhole

/-- Blocks of 64 KB, and starts at 5 KB. -/
theorem randomWorkload_iff_five :
    RandomWorkload { ecK := 2, ecN := 3, blocksize := 64, blocksize_le := by decide } fun _ => 5 :=
  (randomWorkload_iff (by decide) _).2 (by decide)

/-- A start in the last of 64 KB. -/
theorem not_randomWorkload_last :
    ¬ RandomWorkload { ecK := 2, ecN := 3, blocksize := 64, blocksize_le := by decide }
      fun _ => 63 := by
  rintro ⟨⟨vecs, hsingle, _⟩, _⟩
  rw [singleRandom, randomLog_eq_none (by decide) (show 0 < 2 by decide) rfl] at hsingle
  cases hsingle

end CoRD
