import CoRD.Repair.Hdfs3Requests
import CoRD.Repair.PPRCoordinator
import CoRD.Repair.PipeMulDelivery
import CoRD.Repair.RequestBytes

/-!
# PipeMulRequest — from a request for several blocks to their nodes

With HDFS `PipeMulCoordinator` plans the repair of all blocks of a request at once, under the node of
the client for the first block and under their own nodes for the others.  It sends the commands to
the helpers and tells the other nodes where to fetch their blocks; its reply names the last helper
for each block.  What follows brings every lost block to its node.
-/

namespace CoRD

open Std
open Wire

namespace PipeMul

/-! ## The handler for HDFS -/

section Handler

variable (policy : ECPipePolicy) (conf : RepairConfig) (rsu : RSUtil) (base : MetadataBase)
  (vars : HandlerVars)

end Handler

section Reply

variable {store : TreeMap Str Nat} {last : Nat}

end Reply

/-! ## The plan -/

section Plan

variable {conf : RepairConfig} {base : MetadataBase} {s : List Str} {ip : Str → Nat}
  {status : Status} {first : Str} {rest : List Str} {requestorIP : Nat}

end Plan

/-! ## A request that is served -/

section Request

variable {conf : RepairConfig} {rsu : RSUtil} {encMat : IntArr} {stripes : List (List Str)}
  {content : Str → Nat → GF256} {blkInit : List (Nat × Str)} {dir : List (Str × Str)}
  {base : MetadataBase} {s : List Str} {ip : Str → Nat} {requestorIP : Nat}
  {pconf : PacketConfig} {blkDir : Str → Buf}

end Request

/-! ## A small store -/

end PipeMul

end CoRD
