import CoRD.Trace.Merge

/-!
# Flush — which requests get into a round

Of a trace the loop parses at most `req_num - 1` requests, or one.  The test for the last request
compares with the count before it is incremented, the exit of the loop with the count after it: so
the last log is handed over only if it happens to be full, and the end of the file does not hand it
over either.
-/

namespace CoRD

variable {conf : TraceConfig} {reqNum : Nat}

/-- The requests that the loop over a trace parses before it stops. -/
def parsedRequests (conf : TraceConfig) (reqNum : Nat) (lines : List (List Char)) : List Request :=
  (lines.filterMap (parseLine conf.traceType)).take (max 1 (reqNum - 1))

/-- Requests that fill the log, by the blocks they touch; a limit of one hands over every request. -/
def Fills (conf : TraceConfig) (reqNum : Nat) (rs : List Request) : Prop :=
  conf.logSize * 1024 ≤ ((touched conf.blocksize rs).length * conf.blocksize : Nat) ∨ reqNum ≤ 1

instance : DecidablePred (Fills conf reqNum) :=
  fun _ => inferInstanceAs (Decidable (_ ∨ _))

/-- The requests are cut into groups that fill the log with their last request, and in each group all
pieces of a block have the same end. -/
def FlushedInTime (conf : TraceConfig) (reqNum : Nat) (rs : List Request) : Prop :=
  ∃ gs : List (List Request), gs.flatten = rs ∧ ∀ g ∈ gs, Batch.Minimal (Fills conf reqNum) g ∧
    ∀ blk, Ranges.SameEnd (piecesAt conf.blocksize g blk)

/-- The log has the piece in the range it keeps of the block. -/
def Log.Contains (log : Log) (g : Nat) (se : StartEnd) : Prop :=
  ∃ kept, log.gloBlkId2startEnd[g]? = some kept ∧ kept.1 ≤ se.1 ∧ se.2 ≤ kept.2

/-- Every parsed request is in one round, whose log has all its pieces. -/
structure NoLostWrite (conf : Config) (parsed : List Request) (s : LoopState) : Prop where
  in_rounds : (s.rounds.map Round.requests).flatten = parsed
  contained : ∀ rd ∈ s.rounds, ∀ r ∈ rd.requests, ∀ g ∈ gloBlkIds conf.blocksize r,
    rd.log.Contains g (startEnd conf.blocksize r g)

/-! ## The loop on requests -/

theorem processRequest_count (conf : TraceConfig) (reqNum : Nat) (s : LoopState) (r : Request) :
    (s.processRequest conf reqNum r).count = s.count + 1 := by
  unfold LoopState.processRequest
  simp only
  split <;> rfl

theorem traceLoop_eq_foldl (lines : List (List Char)) (s : LoopState) :
    traceLoop conf reqNum lines s =
      ((lines.filterMap (parseLine conf.traceType)).take (max 1 (reqNum - 1 - s.count))).foldl
        (LoopState.processRequest conf reqNum) s := by
  induction lines generalizing s with
  | nil =>
      simp [traceLoop]
  | cons line lines ih =>
      unfold traceLoop
      cases hline : parseLine conf.traceType line with
      | none =>
          rw [List.filterMap_cons_none hline]
          exact ih s
      | some r =>
          have hcount := processRequest_count conf reqNum s r
          rw [List.filterMap_cons_some hline]
          simp only [hcount]
          split
          case isTrue hstop =>
            have hone : max 1 (reqNum - 1 - s.count) = 1 := by omega
            rw [hone]
            rfl
          case isFalse hmore =>
            have hnext : max 1 (reqNum - 1 - s.count) =
                max 1 (reqNum - 1 - (s.count + 1)) + 1 := by omega
            rw [hnext, List.take_succ_cons, List.foldl_cons, ih, hcount]

/-- The requests of the rounds and those in the log. -/
def LoopState.batches (s : LoopState) : List (List Request) × List Request :=
  (s.rounds.map Round.requests, s.logged)

/-- Before the limit, one more request is one more element of the current batch. -/
theorem batches_processRequest {s : LoopState} (h : s.LogsOf conf.toConfig) (r : Request)
    (hcount : s.count < max 1 (reqNum - 1)) :
    (s.processRequest conf reqNum r).batches = Batch.push (Fills conf reqNum) s.batches r := by
  have hlog : (s.addRequest conf.toConfig r).log = logOf conf.toConfig (s.logged ++ [r]) :=
    (h.addRequest r).log_eq
  have htest : ((s.addRequest conf.toConfig r).log.Full conf ∨
      reqNum ≤ (s.addRequest conf.toConfig r).count + 1) ↔ Fills conf reqNum (s.logged ++ [r]) := by
    have hlimit : reqNum ≤ (s.addRequest conf.toConfig r).count + 1 ↔ reqNum ≤ 1 := by
      show reqNum ≤ s.count + 1 ↔ reqNum ≤ 1
      omega
    rw [hlimit, hlog, Log.Full, logOf_size]
    rfl
  unfold LoopState.processRequest Batch.push
  simp only [htest]
  by_cases hfills : Fills conf reqNum (s.logged ++ [r])
  · simp [LoopState.batches, LoopState.trigger, LoopState.addRequest, hfills]
  · simp [LoopState.batches, LoopState.addRequest, hfills]

theorem batches_foldl (rs : List Request) {s : LoopState} (h : s.LogsOf conf.toConfig)
    (hcount : s.count + rs.length ≤ max 1 (reqNum - 1)) :
    (rs.foldl (LoopState.processRequest conf reqNum) s).batches =
        rs.foldl (Batch.push (Fills conf reqNum)) s.batches ∧
      (rs.foldl (LoopState.processRequest conf reqNum) s).LogsOf conf.toConfig := by
  induction rs generalizing s with
  | nil =>
      exact ⟨rfl, h⟩
  | cons r rs ih =>
      rw [List.length_cons] at hcount
      have hnext := processRequest_count conf reqNum s r
      have hstep : (s.processRequest conf reqNum r).LogsOf conf.toConfig := h.processRequest r
      have hrest := ih hstep (by omega)
      rw [batches_processRequest h r (by omega)] at hrest
      exact hrest

/-- The rounds of a run are the batches of its requests. -/
theorem batches_multiDoProcess (conf : TraceConfig) (reqNum : Nat)
    (traces : List (List (List Char))) :
    (multiDoProcess conf reqNum traces).batches =
      Batch.split (Fills conf reqNum) (traces.flatMap (parsedRequests conf reqNum)) := by
  induction traces using List.reverseRecOn with
  | nil =>
      rfl
  | append_singleton traces lines ih =>
      have hlogs := multiDoProcess_logsOf conf reqNum traces
      have hstart : { multiDoProcess conf reqNum traces with count := 0 }.LogsOf conf.toConfig :=
        ⟨hlogs.log_eq, hlogs.round_log⟩
      have hlen : 0 + (parsedRequests conf reqNum lines).length ≤ max 1 (reqNum - 1) := by
        rw [zero_add]
        exact List.length_take_le _ _
      have hfold := (batches_foldl _ hstart hlen).1
      rw [List.flatMap_append, List.flatMap_singleton, Batch.split, List.foldl_append]
      rw [Batch.split] at ih
      rw [← ih, multiDoProcess, List.foldl_concat, traceLoop_eq_foldl]
      exact hfold

/-- Every parsed request is in one round or still in the log. -/
theorem rounds_append_logged (traces : List (List (List Char))) :
    ((multiDoProcess conf reqNum traces).rounds.map Round.requests).flatten ++
        (multiDoProcess conf reqNum traces).logged =
      traces.flatMap (parsedRequests conf reqNum) := by
  have hflat := (Batch.split_spec (Fills conf reqNum)
    (traces.flatMap (parsedRequests conf reqNum))).flatten
  rw [← batches_multiDoProcess] at hflat
  exact hflat

/-! ## Main result -/

theorem contains_iff_sameEnd (conf : Config) (rs : List Request) :
    (∀ r ∈ rs, ∀ g ∈ gloBlkIds conf.blocksize r,
      (logOf conf rs).Contains g (startEnd conf.blocksize r g)) ↔
    ∀ g, Ranges.SameEnd (piecesAt conf.blocksize rs g) := by
  constructor
  · intro hall g
    by_cases hnil : piecesAt conf.blocksize rs g = []
    · rw [hnil]
      exact fun p hp => absurd hp List.not_mem_nil
    · obtain ⟨s, lo, hi, hmin, _⟩ := Ranges.exists_bounds hnil
      refine (Ranges.covers_minEnds_iff hmin).1 fun p hp => ?_
      obtain ⟨r, hr, hg, rfl⟩ := mem_piecesAt.1 hp
      obtain ⟨kept, hkept, hcov⟩ := hall r hr g hg
      rw [logOf_range, hmin] at hkept
      exact Option.some.inj hkept ▸ hcov
  · intro hall r hr g hg
    have hp := mem_piecesAt.2 ⟨r, hr, hg, rfl⟩
    obtain ⟨s, lo, hi, hmin, _⟩ := Ranges.exists_bounds (List.ne_nil_of_mem hp)
    exact ⟨(s, lo), (logOf_range conf rs g).trans hmin,
      (Ranges.covers_minEnds_iff hmin).2 (hall g) _ hp⟩

theorem noLostWrite_iff (conf : TraceConfig) (reqNum : Nat) (traces : List (List (List Char))) :
    NoLostWrite conf.toConfig (traces.flatMap (parsedRequests conf reqNum))
        (multiDoProcess conf reqNum traces) ↔
      FlushedInTime conf reqNum (traces.flatMap (parsedRequests conf reqNum)) := by
  have hlogs := multiDoProcess_logsOf conf reqNum traces
  have hbatches := batches_multiDoProcess conf reqNum traces
  have hcontained : ∀ rd ∈ (multiDoProcess conf reqNum traces).rounds,
      (∀ r ∈ rd.requests, ∀ g ∈ gloBlkIds conf.blocksize r,
        rd.log.Contains g (startEnd conf.blocksize r g)) ↔
      ∀ g, Ranges.SameEnd (piecesAt conf.blocksize rd.requests g) := fun rd hrd => by
    rw [hlogs.round_log rd hrd]
    exact contains_iff_sameEnd conf.toConfig rd.requests
  constructor
  · intro h
    have hminimal := (Batch.split_spec (Fills conf reqNum)
      (traces.flatMap (parsedRequests conf reqNum))).minimal
    rw [← hbatches] at hminimal
    refine ⟨_, h.in_rounds, fun g hg => ⟨hminimal g hg, ?_⟩⟩
    obtain ⟨rd, hrd, rfl⟩ := List.mem_map.1 hg
    exact (hcontained rd hrd).1 (h.contained rd hrd)
  · rintro ⟨gs, hflat, hgs⟩
    rw [Batch.split_eq (fun g hg => (hgs g hg).1) hflat] at hbatches
    have hrounds : (multiDoProcess conf reqNum traces).rounds.map Round.requests = gs :=
      congrArg Prod.fst hbatches
    refine ⟨hrounds.symm ▸ hflat, fun rd hrd => (hcontained rd hrd).2 ?_⟩
    exact (hgs rd.requests (hrounds ▸ List.mem_map_of_mem hrd)).2

/-- No write is lost exactly when the log was filled just by the last request, and by no two pieces
of one block with different ends before. -/
theorem no_lost_write_iff (conf : TraceConfig) (reqNum : Nat) :
    (∀ traces, NoLostWrite conf.toConfig (traces.flatMap (parsedRequests conf reqNum))
        (multiDoProcess conf reqNum traces) ↔
      FlushedInTime conf reqNum (traces.flatMap (parsedRequests conf reqNum))) ∧
    ∀ lines, NoLostWrite conf.toConfig (parsedRequests conf reqNum lines)
        (singleDoProcess conf reqNum lines) ↔
      FlushedInTime conf reqNum (parsedRequests conf reqNum lines) := by
  refine ⟨noLostWrite_iff conf reqNum, fun lines => ?_⟩
  have h := noLostWrite_iff conf reqNum [lines]
  rwa [List.flatMap_singleton] at h

/-- A trace of one write: the end of the file leaves it in the log. -/
theorem last_write_lost :
    ¬ NoLostWrite smallConf.toConfig (parsedRequests smallConf 5000 ["1,W,0,4096,0".toList])
        (multiDoProcess smallConf 5000 [["1,W,0,4096,0".toList]]) ∧
      ¬ NoLostWrite smallConf.toConfig (parsedRequests smallConf 5000 ["1,W,0,4096,0".toList])
        (singleDoProcess smallConf 5000 ["1,W,0,4096,0".toList]) := by
  constructor
  · intro h
    exact absurd h.in_rounds (by decide)
  · intro h
    exact absurd h.in_rounds (by decide)

end CoRD
