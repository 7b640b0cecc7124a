import CoRD.Network.Process
import CoRD.Util.Buffer

/-!
# Config — hosts, queues, update blocks and the state of a node

What coordinator and nodes share.  `_helpersIPs` lists the nodes by block id, so a node is named by
its block id and the address of an update block is left out: it is `_helpersIPs[_id]` everywhere.
`int`s are unbounded, and so are the buffers that commands are built in.
-/

namespace CoRD

def INT_MAX : Int := 2147483647

def INT_MIN : Int := -2147483648

/-- The bytes of the arrays that commands and requests are built in. -/
def COMMAND_MAX_LENGTH : Nat := 1024

/-- The configuration: `k` data blocks of `n` blocks in a stripe, block size in KB. -/
structure Config where
  ecK : Nat
  ecN : Nat
  blocksize : Nat
  blocksize_le : (blocksize : Int) ≤ INT_MAX

/-- Blocks of one KB. -/
theorem Config.one_le : ((1 : Nat) : Int) ≤ INT_MAX := by decide

/-- The number of parity blocks. -/
def Config.ecM (conf : Config) : Nat :=
  conf.ecN - conf.ecK

/-- The id of parity block `i`: the last nodes are the parity nodes. -/
def parityId (conf : Config) (i : Nat) : Int :=
  conf.ecK + i

/-- One block of an update vector; offset and size in KB. -/
structure UpdBlock where
  id : Int
  offsetAdd : Int
  updSize : Int
  deriving DecidableEq, Repr, Inhabited

inductive Host where
  | coordinator
  | node (id : Int)
  deriving DecidableEq, Repr

/-- The redis lists of a host. -/
inductive Chan where
  | updCmds
  | raidData
  | deltaData
  | crdData
  | ack
  deriving DecidableEq, Repr

/-- Why a process exits; `endlessLoop` marks a receive loop that has missed its exit. -/
inductive Exit where
  | parseCmdFailed
  | errorMapLoc
  | errorTaskType
  | errorSubSetId
  | endlessLoop
  deriving DecidableEq, Repr

/-- The files `blk_<id>` of a node, and its memory as far as the code reads it before writing it:
`heap i` is what the `i`-th such buffer holds. -/
structure NodeState where
  disk : Int → Buf
  heap : Nat → Buf

/-- The first `n` unwritten buffers are used up. -/
def NodeState.takeHeap (σ : NodeState) (n : Nat) : NodeState :=
  { σ with heap := fun i => σ.heap (i + n) }

abbrev Prog := MsgNet.Proc Host Chan RedisStr NodeState Exit

/-- A command: task type, length in bytes, fields. -/
def mkCmd (taskType : Int) (fields : List Int) : RedisStr :=
  { ints := taskType :: 4 * (fields.length + 2) :: fields, bytes := [] }

/-- The string `"1"` of an acknowledgement. -/
def ackStr : RedisStr :=
  { ints := [], bytes := [⟨0x31#8⟩] }

section Cmd

variable (taskType : Int) (fields : List Int)

@[simp] theorem mkCmd_taskType : (mkCmd taskType fields).int 0 = taskType := rfl

@[simp] theorem mkCmd_len : (mkCmd taskType fields).int 4 = 4 * (fields.length + 2) := rfl

theorem mkCmd_fields : (mkCmd taskType fields).At 8 fields :=
  ⟨[taskType, 4 * (fields.length + 2)], rfl, rfl⟩

end Cmd

end CoRD
