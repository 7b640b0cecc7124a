import CoRD.Network.Semantics
import CoRD.Update.UPNode

/-!
# UPCoordinator — one stripe after the other

For every stripe the coordinator hands out the commands of the update policy and then waits for the
acknowledgements of the parity nodes.  `rsEncMat` is the coding matrix, row by row; `rand` is what
`rand()` returns for the stripe.
-/

namespace CoRD

open MsgNet (Proc Network)

variable (conf : Config) (rsEncMat : Int → Int)

/-- Column `blkId` of the coding matrix. -/
def coffs (blkId : Int) : List Int :=
  (List.range conf.ecM).map fun j : Nat => rsEncMat (j * conf.ecK + blkId)

/-- The ids of the parity blocks. -/
def parityIds : List Int :=
  (List.range conf.ecM).map (parityId conf)

/-! ## RaidUpdate and DeltaUpdate -/

/-- The command of task 2. -/
def raidCollectorCmd (updBlkVec : List UpdBlock) : RedisStr :=
  mkCmd 2 ((updBlkVec.length : Int) ::
    (updBlkVec.flatMap (fun b => b.id :: coffs conf rsEncMat b.id) ++ parityIds conf))

def raidUpdate (updBlkVec : List UpdBlock) (rand : Nat) : List (Host × Chan × RedisStr) :=
  let updNum := updBlkVec.length
  let collectorId := (updBlkVec.getD (rand % updNum) default).id
  (updBlkVec.filter fun b => b.id ≠ collectorId).map (fun b =>
    (.node b.id, .updCmds, mkCmd 1 [b.id, collectorId])) ++
  [(.node collectorId, .updCmds, raidCollectorCmd conf rsEncMat updBlkVec)] ++
  (parityIds conf).map fun blkId => (.node blkId, .updCmds, mkCmd 3 [blkId])

/-- The command of task 4. -/
def deltaDataCmd (b : UpdBlock) : RedisStr :=
  mkCmd 4 (b.id :: b.offsetAdd :: b.updSize :: (coffs conf rsEncMat b.id ++ parityIds conf))

def deltaUpdate (updBlkVec : List UpdBlock) : List (Host × Chan × RedisStr) :=
  (parityIds conf).map (fun blkId =>
    (.node blkId, .updCmds, mkCmd 5 [(updBlkVec.length : Int), blkId])) ++
  updBlkVec.map fun b => (.node b.id, .updCmds, deltaDataCmd conf rsEncMat b)

/-! ## Sub-sets -/

/-- Whether block `d` meets the range of the sub-set `N`. -/
def isIntersected (d : UpdBlock) (N : List UpdBlock) : Bool :=
  let s1 := d.offsetAdd
  let e1 := s1 + d.updSize
  let s2 := N.foldl (fun s2 b => min s2 b.offsetAdd) INT_MAX
  let e2 := N.foldl (fun e2 b => max e2 (b.offsetAdd + b.updSize)) 0
  if e1 < s2 ∨ e2 < s1 then false else true

/-- The inner loop of `get_upd_solu_crd`: blocks of `D` that meet `N` move to it, one at a time, the
first one first. -/
def growSubSet (N D : List UpdBlock) : List UpdBlock × List UpdBlock :=
  match _h : D.find? (fun d => isIntersected d N) with
  | none => (N, D)
  | some d => growSubSet (N ++ [d]) (D.eraseP fun d => isIntersected d N)
termination_by D.length
decreasing_by
  have hmem := List.mem_of_find?_eq_some _h
  have hlen := List.length_eraseP_of_mem hmem (List.find?_some _h)
  have hpos := List.length_pos_of_mem hmem
  omega

theorem length_growSubSet_le (N D : List UpdBlock) : (growSubSet N D).2.length ≤ D.length := by
  fun_induction growSubSet N D with
  | case1 N D hnone =>
      exact le_rfl
  | case2 N D d hsome ih =>
      exact ih.trans List.length_eraseP_le

/-- `get_upd_solu_crd`: the sub-sets in the order of their ids. -/
def getUpdSoluCrd : List UpdBlock → List (List UpdBlock)
  | [] => []
  | blk :: D =>
      let st := growSubSet [blk] D
      st.1 :: getUpdSoluCrd st.2
termination_by D => D.length
decreasing_by
  have := length_growSubSet_le [blk] D
  simp only [List.length_cons]
  omega

/-- `get_sub_set_id`: the first sub-set with the block, or `-1`. -/
def getSubSetId (updSolu : List (List UpdBlock)) (locBlkId : Int) : Int :=
  match updSolu.findIdx? (fun N => N.any fun b => b.id = locBlkId) with
  | some subSetId => subSetId
  | none => -1

/-- The merged offset and size of a sub-set, as the command of task 8 gives them. -/
def crdOffSize (N : List UpdBlock) : Int × Int :=
  let startAdd := N.foldl (fun s b => min s b.offsetAdd) INT_MAX
  let endAdd := N.foldl (fun e b => max e (b.offsetAdd + b.updSize) - 1) 0
  (startAdd, endAdd - startAdd + 1)

/-! ## CrdUpdate -/

/-- The command of task 7. -/
def crdCollectorCmd (updBlkVec : List UpdBlock) (parityCollectorId : Int) : RedisStr :=
  let updSolu := getUpdSoluCrd updBlkVec
  mkCmd 7 (parityCollectorId :: (updBlkVec.length : Int) :: (updSolu.length : Int) ::
    (updBlkVec.flatMap (fun b =>
      b.id :: getSubSetId updSolu b.id :: b.offsetAdd :: b.updSize :: coffs conf rsEncMat b.id) ++
    (parityIds conf).filter fun blkId => blkId ≠ parityCollectorId))

/-- The command of task 8. -/
def crdParityCmd (updBlkVec : List UpdBlock) (blkId : Int) : RedisStr :=
  let updSolu := getUpdSoluCrd updBlkVec
  mkCmd 8 (blkId :: (updSolu.length : Int) ::
    updSolu.zipIdx.flatMap fun it => [(it.2 : Int), (crdOffSize it.1).1, (crdOffSize it.1).2])

def crdUpdate (updBlkVec : List UpdBlock) (rand : Nat) (next : Prog) : Prog :=
  let parityCollectorId := parityId conf (rand % conf.ecM)
  .sendAll (updBlkVec.map fun b =>
    (.node b.id, .updCmds, mkCmd 6 [b.id, b.offsetAdd, b.updSize, parityCollectorId])) <|
  if updBlkVec.any (fun b => getSubSetId (getUpdSoluCrd updBlkVec) b.id = -1) then
    .abort .errorSubSetId
  else .sendAll
    ((.node parityCollectorId, .updCmds,
        crdCollectorCmd conf rsEncMat updBlkVec parityCollectorId) ::
      ((parityIds conf).filter fun blkId => blkId ≠ parityCollectorId).map fun blkId =>
        (.node blkId, .updCmds, crdParityCmd updBlkVec blkId)) next

/-! ## Stripes -/

inductive Policy where
  | raid
  | delta
  | crd
  deriving DecidableEq, Repr

/-- One round of updates: the policy, the update vector and what `rand()` returns. -/
structure Stripe where
  policy : Policy
  updBlkVec : List UpdBlock
  rand : Nat

/-- `recvAck`. -/
def recvAck : Prog :=
  .popUntil .ack .endlessLoop (fun _ _ => ()) (fun _ => .done) conf.ecM ()

/-- What the coordinator does for one stripe. -/
def stripeProg (st : Stripe) : Prog :=
  match st.policy with
  | .raid => .sendAll (raidUpdate conf rsEncMat st.updBlkVec st.rand) (recvAck conf)
  | .delta => .sendAll (deltaUpdate conf rsEncMat st.updBlkVec) (recvAck conf)
  | .crd => crdUpdate conf rsEncMat st.updBlkVec st.rand (recvAck conf)

/-- The coordinator with its nodes. -/
def network (newData : Int → Buf) (stripes : List Stripe) :
    Network Host Chan RedisStr NodeState Exit :=
  { root := .coordinator
    job := .updCmds
    prog := fun n => stripes[n]?.map (stripeProg conf rsEncMat)
    serve := fun h updCmd =>
      match h with
      | .coordinator => .done
      | .node loc => doProcess conf newData loc updCmd }

end CoRD
