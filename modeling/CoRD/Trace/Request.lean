import Mathlib.Data.List.Nodup
import CoRD.Update.Config

/-!
# Request — the lines of a trace and the pieces of a write request

A line of a trace is split at its commas.  Reads and writes of less than one KB are skipped; what is
left of a write is a range of KB, cut into one piece for each global block it touches.  The numbers
of a trace have no sign, and block ids are unbounded.
-/

namespace CoRD

/-! ## Lines -/

inductive TraceType where
  | MSR
  | Ali
  | Ten
  deriving DecidableEq, Repr

/-- What the trace loops read of the configuration; `logSize` in MB. -/
structure TraceConfig extends Config where
  traceType : TraceType
  logSize : Int

/-- Offset and size of a write, in KB. -/
structure Request where
  offset : Nat
  updateSize : Nat
  updateSize_pos : 0 < updateSize
  deriving DecidableEq, Repr

def spliteString (str : List Char) (c : Char) : List (List Char) :=
  str.splitOn c

/-- A number read from a field: its leading digits, 0 if there are none. -/
def readNum (field : List Char) : Nat :=
  ((field.dropWhile Char.isWhitespace).takeWhile Char.isDigit).foldl
    (fun n c => n * 10 + (c.toNat - '0'.toNat)) 0

def isRead (traceType : TraceType) (res : List (List Char)) : Bool :=
  match traceType with
  | .MSR => res.getD 3 [] == "Read".toList
  | .Ali => res.getD 1 [] == "R".toList
  | .Ten => res.getD 3 [] == "0".toList

/-- Offset and size in bytes; the fields of `Ten` count sectors. -/
def byteRange (traceType : TraceType) (res : List (List Char)) : Nat × Nat :=
  match traceType with
  | .MSR => (readNum (res.getD 4 []), readNum (res.getD 5 []))
  | .Ali => (readNum (res.getD 2 []), readNum (res.getD 3 []))
  | .Ten => (readNum (res.getD 1 []) * 512, readNum (res.getD 2 []) * 512)

/-- The request of a line, `none` where the loop goes on with the next line. -/
def parseLine (traceType : TraceType) (line : List Char) : Option Request :=
  let res := spliteString line ','
  if isRead traceType res then
    none
  else
    let bytes := byteRange traceType res
    if h : bytes.2 / 1024 = 0 then
      none
    else
      some ⟨bytes.1 / 1024, bytes.2 / 1024, Nat.pos_of_ne_zero h⟩

/-! ## Pieces -/

/-- `start_end`: the range `[start, end)` of a block in KB. -/
abbrev StartEnd := Nat × Nat

def startBlkId (blocksize : Nat) (r : Request) : Nat :=
  r.offset / blocksize

def endBlkId (blocksize : Nat) (r : Request) : Nat :=
  (r.offset + r.updateSize) / blocksize

/-- The global blocks the loop of a request goes through. -/
def gloBlkIds (blocksize : Nat) (r : Request) : List Nat :=
  List.range' (startBlkId blocksize r) (endBlkId blocksize r + 1 - startBlkId blocksize r)

/-- The piece of a request in one of its blocks. -/
def startEnd (blocksize : Nat) (r : Request) (gloBlkId : Nat) : StartEnd :=
  if gloBlkId = startBlkId blocksize r ∧ gloBlkId ≠ endBlkId blocksize r then
    (r.offset % blocksize, blocksize)
  else if gloBlkId = startBlkId blocksize r ∧ gloBlkId = endBlkId blocksize r then
    (r.offset % blocksize, (r.offset + r.updateSize) % blocksize)
  else if gloBlkId ≠ startBlkId blocksize r ∧ gloBlkId ≠ endBlkId blocksize r then
    (0, blocksize)
  else
    (0, (r.offset + r.updateSize) % blocksize)

/-- The pieces of a request with their blocks, in the order of the loop. -/
def pieces (blocksize : Nat) (r : Request) : List (Nat × StartEnd) :=
  (gloBlkIds blocksize r).map fun gloBlkId => (gloBlkId, startEnd blocksize r gloBlkId)

section Pieces

variable {blocksize : Nat} {r : Request}

theorem startBlkId_le_endBlkId (blocksize : Nat) (r : Request) :
    startBlkId blocksize r ≤ endBlkId blocksize r :=
  Nat.div_le_div_right (Nat.le_add_right _ _)

theorem mem_gloBlkIds {i : Nat} :
    i ∈ gloBlkIds blocksize r ↔ startBlkId blocksize r ≤ i ∧ i ≤ endBlkId blocksize r := by
  have hle := startBlkId_le_endBlkId blocksize r
  rw [gloBlkIds, List.mem_range'_1]
  omega

@[simp] theorem map_fst_pieces (blocksize : Nat) (r : Request) :
    (pieces blocksize r).map Prod.fst = gloBlkIds blocksize r := by
  simp [pieces, Function.comp_def]

theorem mem_pieces {p : Nat × StartEnd} :
    p ∈ pieces blocksize r ↔ p.1 ∈ gloBlkIds blocksize r ∧ p.2 = startEnd blocksize r p.1 := by
  rw [pieces, List.mem_map]
  constructor
  · rintro ⟨i, hi, rfl⟩
    exact ⟨hi, rfl⟩
  · rintro ⟨hmem, hp⟩
    exact ⟨p.1, hmem, Prod.ext rfl hp.symm⟩

/-- A request within one block ends behind its start. -/
theorem offset_mod_lt (heq : startBlkId blocksize r = endBlkId blocksize r) :
    r.offset % blocksize < (r.offset + r.updateSize) % blocksize := by
  have hoff := Nat.div_add_mod r.offset blocksize
  have hend := Nat.div_add_mod (r.offset + r.updateSize) blocksize
  have hpos := r.updateSize_pos
  rw [startBlkId, endBlkId] at heq
  rw [← heq] at hend
  omega

theorem startEnd_le_blocksize (hbs : 0 < blocksize) (r : Request) (i : Nat) :
    (startEnd blocksize r i).1 ≤ (startEnd blocksize r i).2 ∧
      (startEnd blocksize r i).2 ≤ blocksize := by
  have hoff := Nat.mod_lt r.offset hbs
  have hend := Nat.mod_lt (r.offset + r.updateSize) hbs
  unfold startEnd
  split
  · exact ⟨hoff.le, le_refl _⟩
  · split
    case isTrue heq =>
      exact ⟨(offset_mod_lt (heq.1.symm.trans heq.2)).le, hend.le⟩
    case isFalse =>
      split
      · exact ⟨Nat.zero_le _, le_refl _⟩
      · exact ⟨Nat.zero_le _, hend.le⟩

end Pieces

end CoRD
