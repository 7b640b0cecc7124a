import CoRD.Repair.ConvRequest
import CoRD.Repair.PathSelection
import CoRD.Repair.PPRCoordinator
import CoRD.Repair.PipeRepair
import CoRD.Repair.RequestBytes

/-!
# PipeRequest — from the request of a client to its file

`PipeCoordinator` reads a request, asks the metadata base for helpers, puts them in the order of a
path if it is told to, and marks them in the status, which was cleared when the request was read.
Whatever `ecK` survivors these are, the coefficients for that status decode the lost block.  So rack
awareness does no harm here, and what the pipeline brings to the client is the lost block itself.
-/

namespace CoRD

open Std
open Wire

namespace Pipe

/-! ## The program -/

/-- What `PipeCoordinator` reads of the configuration, with the weights of the links and the numbers
of the nodes in them. -/
structure PipeConfig extends RackConfig where
  basic : Bool
  pathSelectionEnabled : Bool
  linkWeight : List (List ℚ)
  ip2idx : TreeMap Nat Nat

section Program

variable (conf : PipeConfig) (requestorIP : Nat)

/-- `lWeightMat`: the weights between the requestor and the helpers. -/
def lWeightMat (stripe : List (Nat × Str)) : List (List ℚ) :=
  let IPids := conf.ip2idx.getD requestorIP 0 :: stripe.map fun it => conf.ip2idx.getD it.1 0
  IPids.map fun i => IPids.map fun j => weight conf.linkWeight i j

/-- The helpers in the order of the path, and `_pathSelection` behind the search. -/
def selectPath (search : PathSelection) (stripe : List (Nat × Str)) :
    Option (PathSelection × List (Nat × Str)) :=
  if conf.pathSelectionEnabled then
    (search.intelligentSearch (lWeightMat conf requestorIP stripe) conf.ecK).bind fun found =>
      (PathSelection.reorder conf.ecK found.2.path stripe).map fun temp => (found.2, temp)
  else some (search, stripe)

/-- The three loops over `_status`. -/
def markRequest (filename : Str) (stripe : List (Nat × Str)) (status : Status) : Status :=
  stripe.foldl (fun (m : Status) it => m.insert it.2 2)
    ((status.map fun _ _ => 1).insert filename 0)

/-- One turn of the loop of `PipeCoordinator::requestHandler` with the message `reqStr`; `none` where
the code exits or goes on to the next request. -/
def handle (rsu : RSUtil) (sorter : SortRacks) (base : MetadataBase) (rand : Shuffle)
    (search : PathSelection) (reqStr : Bytes) : Option (PathSelection × Handled) :=
  if reqStr.length < 4 then none
  else
    let requestorIP := word reqStr 0
    (parseFRRequest base .hdfs requestorIP conf.ecK reqStr).bind fun request =>
      if request.index ≠ 0 then none
      else
        let filename := request.reqFile
        (Hdfs.getStripeBlks conf.toRackConfig sorter base rand filename requestorIP).bind
          fun stripe =>
            let stripe := if conf.ecK < stripe.length then stripe.take conf.ecK else stripe
            if stripe.isEmpty ∨ stripe.length < conf.ecK then none
            else
              (selectPath conf requestorIP search stripe).bind fun path =>
                let status := markRequest filename path.2 request.status
                let coef := base.getCoefficient conf.toConfig rsu filename (some status)
                (requestHandler conf.ecK conf.basic requestorIP filename coef path.2).map
                  fun handled => (path.1, handled)

end Program

/-! ## The helpers -/

section Helpers

variable {conf : RackConfig} {rsu : RSUtil} {stripes : List (List Str)}
  {blkInit : List (Nat × Str)} {dir : List (Str × Str)} {base : MetadataBase} {s : List Str}
  {ip : Str → Nat} {i requestorIP : Nat}

end Helpers

/-! ## What the helpers combine -/

section Combine

variable {conf : Config} {rsu : RSUtil} {encMat : IntArr} {base : MetadataBase} {s : List Str}
  {ip : Str → Nat} {status : Status} {filename : Str} {stripe : List (Nat × Str)}

end Combine

/-! ## A request that is served -/

section Request

variable {conf : PipeConfig} {rsu : RSUtil} {encMat : IntArr} {stripes : List (List Str)}
  {content : Str → Nat → GF256} {blkInit : List (Nat × Str)} {dir : List (Str × Str)}
  {base : MetadataBase} {s : List Str} {ip : Str → Nat} {sorter : SortRacks} {rand : Shuffle}
  {search : PathSelection} {requestorIP : Nat} {filename : Str} {pconf : PacketConfig}
  {blkDir : Str → Buf}

/-- With rack awareness a survivor is in the rack of the requestor, and a path that is asked for is
found. -/
structure Answerable (conf : PipeConfig) (sorter : SortRacks) (base : MetadataBase) (rand : Shuffle)
    (search : PathSelection) (s : List Str) (ip : Str → Nat) (filename : Str) (requestorIP : Nat) :
    Prop where
  rack : conf.rackAware = true → ∃ x ∈ s, x ≠ filename ∧
    conf.rackInfos.getD (ip x) [] = conf.rackInfos.getD requestorIP []
  path : conf.pathSelectionEnabled = true → ∀ stripe,
    Hdfs.getStripeBlks conf.toRackConfig sorter base rand filename requestorIP = some stripe →
      PathSelection.PathFits (lWeightMat conf requestorIP stripe) conf.ecK search

end Request

/-! ## A small store -/

end Pipe

end CoRD
