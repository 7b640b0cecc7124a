import CoRD.Util.CountLoop

/-!
# DiskLoops — loops around `pread` and `pwrite`

A buffer is read or written by calls that may each handle a part of it.  All loops count the bytes
and go on until the buffer is complete.  The nodes for updates and `DRWorker::readPacketFromDisk`
exit at an error.  `PipeDRWorker` and `CyclDRWorker` print a message and call again, and
`PipeDRWorker` stops printing after ten messages.

At the end of a file `pread` returns zero, which is no error for any of them.
-/

namespace CoRD

open CountLoop

/-! ## The loops -/

section Loops

-- call `n` returns `results n`; a loop gets `fuel` turns
variable (results : Nat → Int)

/-- `UPNode::readDataFromDisk`, when `open` has returned `fd`. -/
def UPNode.readDataLoop (fd size : Int) (fuel : Nat) : Option Outcome :=
  if fd < 0 then some .exit
  else loop (fun _ => none) results size fuel

/-- `UPNode::writeDataToDisk`, when `open` has returned `fd`. -/
def UPNode.writeDataLoop (fd size : Int) (fuel : Nat) : Option Outcome :=
  if fd < 0 then some .exit
  else loop (fun _ => none) results size fuel

/-- `DRWorker::readPacketFromDisk`. -/
def DRWorker.readPacketLoop (packetSize : Int) (fuel : Nat) : Option Outcome :=
  loop (fun _ => none) results packetSize fuel

/-- The loop for one packet in `PipeDRWorker::readWorker`; `dr` counts the messages. -/
def PipeDRWorker.readPacketLoop (packetSize : Int) (fuel : Nat) : Option Outcome :=
  loop (fun dr => some (if dr < 10 then dr + 1 else dr)) results packetSize fuel

/-- The loop for one packet in `CyclDRWorker::reader`. -/
def CyclDRWorker.readPacketLoop (packetSize : Int) (fuel : Nat) : Option Outcome :=
  loop (fun printed => some (printed + 1)) results packetSize fuel

/-- All loops come to an end, with their buffers complete or at an error. -/
structure DiskLoopsEnd (fd size : Int) : Prop where
  readData : Ends (UPNode.readDataLoop results fd size) size
  writeData : Ends (UPNode.writeDataLoop results fd size) size
  readPacket : Ends (DRWorker.readPacketLoop results size) size
  pipe : Ends (PipeDRWorker.readPacketLoop results size) size
  cycl : Ends (CyclDRWorker.readPacketLoop results size) size

/-- Without an error, and before the buffer is complete, the results become zero for good. -/
def StaysZero (size : Int) : Prop :=
  ∃ N, (∀ n < N, 0 ≤ results n) ∧ ∑ i ∈ Finset.range N, results i < size ∧
    ∀ n, N ≤ n → results n = 0

/-- Before the buffer is complete, the results become errors and zeros for good. -/
def StaysShort (size : Int) : Prop :=
  ∃ N, ∑ i ∈ Finset.range N, max (results i) 0 < size ∧ ∀ n, N ≤ n → results n ≤ 0

end Loops

/-! ## When they end -/

section Ends

variable {results : Nat → Int} {fd size : Int}

theorem readDataLoop_ends_iff :
    Ends (UPNode.readDataLoop results fd size) size ↔ fd < 0 ∨ ¬ StaysZero results size := by
  by_cases hfd : fd < 0
  · refine iff_of_true ⟨0, .exit, if_pos hfd, fun count hcount => by cases hcount⟩ (Or.inl hfd)
  · have hloop : UPNode.readDataLoop results fd size = loop (fun _ => none) results size :=
      funext fun fuel => if_neg hfd
    rw [hloop, ends_iff_of_exit fun _ => rfl, or_iff_right hfd]
    rfl

theorem writeDataLoop_ends_iff :
    Ends (UPNode.writeDataLoop results fd size) size ↔ fd < 0 ∨ ¬ StaysZero results size :=
  readDataLoop_ends_iff

theorem readPacketLoop_ends_iff :
    Ends (DRWorker.readPacketLoop results size) size ↔ ¬ StaysZero results size :=
  ends_iff_of_exit fun _ => rfl

theorem pipe_readPacketLoop_ends_iff :
    Ends (PipeDRWorker.readPacketLoop results size) size ↔ ¬ StaysShort results size :=
  ends_iff_of_goesOn fun _ => Option.some_ne_none _

theorem cycl_readPacketLoop_ends_iff :
    Ends (CyclDRWorker.readPacketLoop results size) size ↔ ¬ StaysShort results size :=
  ends_iff_of_goesOn fun _ => Option.some_ne_none _

/-- Results that stay zero stay short. -/
theorem StaysZero.staysShort (h : StaysZero results size) : StaysShort results size := by
  rcases h with ⟨N, hpos, hsum, hzero⟩
  refine ⟨N, ?_, fun n hn => (hzero n hn).le⟩
  have hsame : ∑ i ∈ Finset.range N, max (results i) 0 = ∑ i ∈ Finset.range N, results i :=
    Finset.sum_congr rfl fun i hi => max_eq_left (hpos i (Finset.mem_range.1 hi))
  rwa [hsame]

/-- Each loop ends just when its results do not stay short of the buffer in its own way. -/
theorem diskLoops_end_iff (results : Nat → Int) (fd size : Int) :
    (Ends (UPNode.readDataLoop results fd size) size ↔ fd < 0 ∨ ¬ StaysZero results size) ∧
      (Ends (UPNode.writeDataLoop results fd size) size ↔ fd < 0 ∨ ¬ StaysZero results size) ∧
      (Ends (DRWorker.readPacketLoop results size) size ↔ ¬ StaysZero results size) ∧
      (Ends (PipeDRWorker.readPacketLoop results size) size ↔ ¬ StaysShort results size) ∧
      (Ends (CyclDRWorker.readPacketLoop results size) size ↔ ¬ StaysShort results size) ∧
      (DiskLoopsEnd results fd size ↔ ¬ StaysShort results size) := by
  refine ⟨readDataLoop_ends_iff, writeDataLoop_ends_iff, readPacketLoop_ends_iff,
    pipe_readPacketLoop_ends_iff, cycl_readPacketLoop_ends_iff, ?_⟩
  constructor
  · exact fun h => pipe_readPacketLoop_ends_iff.1 h.pipe
  · intro hshort
    have hzero : ¬ StaysZero results size := mt StaysZero.staysShort hshort
    exact
      { readData := readDataLoop_ends_iff.2 (Or.inr hzero)
        writeData := writeDataLoop_ends_iff.2 (Or.inr hzero)
        readPacket := readPacketLoop_ends_iff.2 hzero
        pipe := pipe_readPacketLoop_ends_iff.2 hshort
        cycl := cycl_readPacketLoop_ends_iff.2 hshort }

/-! ## Short files and invalid descriptors -/

/-- Reads of a file that has less than the requested range behind the offset: there are no errors,
and no more bytes come back than there are. -/
theorem staysZero_of_short {length base : Int} (hpos : ∀ n, 0 ≤ results n)
    (hfile : ∀ n, ∑ i ∈ Finset.range n, results i ≤ max (length - base) 0) (hsize : 0 < size) :
    length < base + size → StaysZero results size := by
  intro hshort
  have hgained : ∀ n, gained results n < size := by
    intro n
    have hsame : gained results n = ∑ i ∈ Finset.range n, results i :=
      Finset.sum_congr rfl fun i _ => max_eq_left (hpos i)
    have hle := hfile n
    omega
  rcases forall_gained_lt_iff.1 hgained with ⟨N, hN, hzero⟩
  refine ⟨N, fun n _ => hpos n, ?_, fun n hn => le_antisymm (hzero n hn) (hpos n)⟩
  have hle := hfile N
  omega

/-- So no loop ends at the end of a file. -/
theorem not_ends_of_short {length base : Int} (hfd : 0 ≤ fd) (hpos : ∀ n, 0 ≤ results n)
    (hfile : ∀ n, ∑ i ∈ Finset.range n, results i ≤ max (length - base) 0) (hsize : 0 < size)
    (hshort : length < base + size) :
    ¬ Ends (UPNode.readDataLoop results fd size) size ∧
      ¬ Ends (DRWorker.readPacketLoop results size) size ∧
      ¬ Ends (PipeDRWorker.readPacketLoop results size) size ∧
      ¬ Ends (CyclDRWorker.readPacketLoop results size) size := by
  have hzero := staysZero_of_short hpos hfile hsize hshort
  refine ⟨fun h => ?_, fun h => readPacketLoop_ends_iff.1 h hzero,
    fun h => pipe_readPacketLoop_ends_iff.1 h hzero.staysShort,
    fun h => cycl_readPacketLoop_ends_iff.1 h hzero.staysShort⟩
  rcases readDataLoop_ends_iff.1 h with hneg | hnot
  · exact absurd hfd (not_le.2 hneg)
  · exact hnot hzero

/-- With an invalid descriptor every call fails: the loops that exit do so, and the others do not
end. -/
theorem ends_of_invalid (hsize : 0 < size) (herr : ∀ n, results n < 0) :
    Ends (DRWorker.readPacketLoop results size) size ∧
      ¬ Ends (PipeDRWorker.readPacketLoop results size) size ∧
      ¬ Ends (CyclDRWorker.readPacketLoop results size) size := by
  have hshort : StaysShort results size := ⟨0, hsize, fun n _ => (herr n).le⟩
  refine ⟨readPacketLoop_ends_iff.2 ?_, fun h => pipe_readPacketLoop_ends_iff.1 h hshort,
    fun h => cycl_readPacketLoop_ends_iff.1 h hshort⟩
  rintro ⟨N, _, _, hzero⟩
  exact absurd (hzero N le_rfl) (herr N).ne

/-- A packet of which the file has only the first hundred bytes. -/
theorem not_diskLoopsEnd_eof : ¬ DiskLoopsEnd (fun n => if n = 0 then 100 else 0) 3 4096 := by
  intro h
  refine readPacketLoop_ends_iff.1 h.readPacket ⟨1, ?_, ?_, ?_⟩
  · intro n _
    show (0 : Int) ≤ if n = 0 then 100 else 0
    split <;> decide
  · rw [Finset.sum_range_one]
    decide
  · intro n hn
    exact if_neg (Nat.one_le_iff_ne_zero.1 hn)

end Ends

end CoRD
