import CoRD.Trace.Loop

/-!
# Merge — what the log keeps of a block

The range kept for a block is the minimum of the starts and of the ends of its pieces.  It does not
depend on the order of the requests, and it is the hull of the pieces only when they all end at the
same KB.
-/

namespace CoRD

variable {conf : TraceConfig} {reqNum : Nat}

/-- Requests that were merged into one log: those since the last trigger, or those of a round. -/
def LoopState.Accumulated (s : LoopState) (rs : List Request) (log : Log) : Prop :=
  (rs = s.logged ∧ log = s.log) ∨ ⟨rs, log⟩ ∈ s.rounds

theorem LoopState.LogsOf.eq_logOf {s : LoopState} (h : s.LogsOf conf.toConfig) {rs : List Request}
    {log : Log} (hacc : s.Accumulated rs log) : log = logOf conf.toConfig rs := by
  rcases hacc with ⟨rfl, rfl⟩ | hmem
  · exact h.log_eq
  · exact h.round_log _ hmem

theorem logOf_range_perm (conf : Config) {rs rs' : List Request} (h : rs'.Perm rs) (g : Nat) :
    (logOf conf rs').gloBlkId2startEnd[g]? = (logOf conf rs).gloBlkId2startEnd[g]? := by
  rw [logOf_range, logOf_range, Ranges.minEnds_perm (piecesAt_perm h g)]

/-- In every run, the range kept for a block is the hull of its pieces, whatever the order of the
requests, exactly when all the pieces have the same end. -/
theorem log_covers_iff {traces : List (List (List Char))} {rs : List Request} {log : Log}
    (hacc : (multiDoProcess conf reqNum traces).Accumulated rs log) (g : Nat) :
    (log.gloBlkId2startEnd[g]? = Ranges.hull (piecesAt conf.blocksize rs g) ∧
      ∀ rs', rs'.Perm rs →
        (logOf conf.toConfig rs').gloBlkId2startEnd[g]? = log.gloBlkId2startEnd[g]?) ↔
    Ranges.SameEnd (piecesAt conf.blocksize rs g) := by
  have hlog : log = logOf conf.toConfig rs := (multiDoProcess_logsOf _ _ _).eq_logOf hacc
  subst hlog
  rw [and_iff_left fun rs' hrs' => logOf_range_perm conf.toConfig hrs' g, logOf_range]
  exact Ranges.minEnds_eq_hull_iff

/-- Two data blocks of 64 KB in a stripe, a log of 4 MB. -/
def smallConf : TraceConfig :=
  { ecK := 2, ecN := 3, blocksize := 64, blocksize_le := by decide, traceType := .Ali, logSize := 4 }

theorem log_covers_iff_one_write :
    (multiDoProcess smallConf 5000 [["1,W,0,4096,0".toList]]).log.gloBlkId2startEnd[0]? =
      Ranges.hull [(0, 4)] := by
  have hsame : Ranges.SameEnd (piecesAt smallConf.blocksize
      (multiDoProcess smallConf 5000 [["1,W,0,4096,0".toList]]).logged 0) := by decide
  exact ((log_covers_iff (Or.inl ⟨rfl, rfl⟩) 0).2 hsame).1

/-- A block written in two places: the later piece is behind the end that is kept. -/
theorem log_forgets_write :
    let s := multiDoProcess smallConf 5000 [["1,W,0,4096,0".toList, "1,W,8192,4096,0".toList]]
    piecesAt smallConf.blocksize s.logged 0 = [(0, 4), (8, 12)] ∧
      s.log.gloBlkId2startEnd[0]? = some (0, 4) ∧
      s.log.gloBlkId2startEnd[0]? ≠ Ranges.hull (piecesAt smallConf.blocksize s.logged 0) := by
  decide

end CoRD
