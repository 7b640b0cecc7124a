import CoRD.Network.Cast
import CoRD.Util.Keyed
import CoRD.Update.UPCoordinator

/-!
# Stripe — well-formed update vectors and the hosts they involve

An update vector the coordinator hands to an update policy is not empty and names different data
blocks.  The rounds of the three policies are built from it in the modules that follow.
-/

namespace CoRD

variable {conf : Config} {updBlkVec : List UpdBlock}

/-- Not empty, different ids, all of data blocks. -/
structure ValidUpd (conf : Config) (updBlkVec : List UpdBlock) : Prop where
  ne_nil : updBlkVec ≠ []
  nodup : (updBlkVec.map UpdBlock.id).Nodup
  mem_data : ∀ b ∈ updBlkVec, 0 ≤ b.id ∧ b.id < conf.ecK

/-- The node of parity block `i`. -/
def parityNode (conf : Config) (i : Nat) : Host :=
  .node (parityId conf i)

/-- The node of an update block. -/
def dataNode (b : UpdBlock) : Host :=
  .node b.id

@[simp] theorem parityNode_ne_coordinator (i : Nat) : parityNode conf i ≠ .coordinator := nofun

@[simp] theorem dataNode_ne_coordinator (b : UpdBlock) : dataNode b ≠ .coordinator := nofun

@[simp] theorem coordinator_ne_parityNode (i : Nat) : Host.coordinator ≠ parityNode conf i := nofun

@[simp] theorem coordinator_ne_dataNode (b : UpdBlock) : Host.coordinator ≠ dataNode b := nofun

theorem parityId_injective : Function.Injective (parityId conf) := by
  intro i j h
  simp only [parityId] at h
  omega

theorem parityNode_injective : Function.Injective (parityNode conf) :=
  fun _ _ h => parityId_injective (Host.node.inj h)

theorem parityNodes_nodup (l : List Nat) (hl : l.Nodup) : (l.map (parityNode conf)).Nodup :=
  hl.map parityNode_injective

namespace ValidUpd

theorem dataNodes_nodup (hv : ValidUpd conf updBlkVec) : (updBlkVec.map dataNode).Nodup := by
  have hinj : Function.Injective Host.node := fun _ _ h => Host.node.inj h
  have hmap := hv.nodup.map hinj
  rw [List.map_map] at hmap
  exact hmap

/-- A data block is no parity block. -/
theorem dataNode_ne_parityNode (hv : ValidUpd conf updBlkVec) {b : UpdBlock} (hb : b ∈ updBlkVec)
    (i : Nat) : dataNode b ≠ parityNode conf i := by
  intro h
  have hlt := (hv.mem_data b hb).2
  simp only [dataNode, parityNode, parityId, Host.node.injEq] at h
  omega

theorem parityNode_not_mem (hv : ValidUpd conf updBlkVec) (i : Nat) :
    parityNode conf i ∉ updBlkVec.map dataNode := by
  intro h
  rcases List.mem_map.1 h with ⟨b, hb, heq⟩
  exact hv.dataNode_ne_parityNode hb i heq

theorem dataNode_not_mem (hv : ValidUpd conf updBlkVec) {b : UpdBlock} (hb : b ∈ updBlkVec)
    (l : List Nat) : dataNode b ∉ l.map (parityNode conf) := by
  intro h
  rcases List.mem_map.1 h with ⟨i, _, heq⟩
  exact hv.dataNode_ne_parityNode hb i heq.symm

theorem length_pos (hv : ValidUpd conf updBlkVec) : 0 < updBlkVec.length :=
  List.length_pos_of_ne_nil hv.ne_nil

end ValidUpd

/-! ## Who waits for whom -/

/-- Data nodes serve the collector, all serve the parity nodes, these the coordinator. -/
def hostDepth (conf : Config) (collectorId : Int) : Host → Nat
  | .coordinator => 0
  | .node id => if (conf.ecK : Int) ≤ id then 1 else if id = collectorId then 2 else 3

/-- Commands come first, then what the collector receives, then the other data. -/
def chanRank (collectorId : Int) (h : Host) : Chan → Nat
  | .updCmds => 0
  | .raidData | .deltaData | .crdData => if h = .node collectorId then 1 else 2
  | .ack => 3

@[simp] theorem hostDepth_coordinator (collectorId : Int) :
    hostDepth conf collectorId .coordinator = 0 := rfl

@[simp] theorem hostDepth_parityNode (collectorId : Int) (i : Nat) :
    hostDepth conf collectorId (parityNode conf i) = 1 := by
  simp [hostDepth, parityNode, parityId]

theorem ValidUpd.one_lt_hostDepth (hv : ValidUpd conf updBlkVec) {b : UpdBlock}
    (hb : b ∈ updBlkVec) (collectorId : Int) : 1 < hostDepth conf collectorId (dataNode b) := by
  have hlt := (hv.mem_data b hb).2
  have hnot : ¬ (conf.ecK : Int) ≤ b.id := by omega
  simp only [hostDepth, dataNode, if_neg hnot]
  split <;> omega

@[simp] theorem chanRank_updCmds (collectorId : Int) (h : Host) :
    chanRank collectorId h .updCmds = 0 := rfl

theorem chanRank_pos (collectorId : Int) (h : Host) {c : Chan} (hc : c ≠ .updCmds) :
    0 < chanRank collectorId h c := by
  cases c <;> simp only [chanRank] <;> first | omega | (split <;> omega) | exact absurd rfl hc

theorem chanRank_lt_ack (collectorId : Int) (h h' : Host) {c : Chan} (hc : c ≠ .ack) :
    chanRank collectorId h c < chanRank collectorId h' .ack := by
  cases c <;> simp only [chanRank] <;> first | omega | (split <;> omega) | exact absurd rfl hc

/-! ## Small facts about commands, disks and acknowledgements -/

@[simp] theorem parityIds_length : (parityIds conf).length = conf.ecM := by
  simp [parityIds]

@[simp] theorem coffs_length (rsEncMat : Int → Int) (blkId : Int) :
    (coffs conf rsEncMat blkId).length = conf.ecM := by
  simp [coffs]

theorem coffs_getD {rsEncMat : Int → Int} {i : Nat} (hi : i < conf.ecM) (blkId : Int) :
    (coffs conf rsEncMat blkId).getD i 0 = rsEncMat (i * conf.ecK + blkId) := by
  simp [coffs, List.getD_eq_getElem?_getD, hi]

theorem parityIds_getD {i : Nat} (hi : i < conf.ecM) :
    Host.node ((parityIds conf).getD i 0) = parityNode conf i := by
  simp [parityIds, parityNode, List.getD_eq_getElem?_getD, hi]

/-- The parity blocks but one. -/
theorem filter_parityIds (q : Nat) :
    (parityIds conf).filter (fun blkId => blkId ≠ parityId conf q) =
      ((List.range conf.ecM).filter fun i => i ≠ q).map (parityId conf) := by
  rw [parityIds, List.filter_map]
  refine congrArg (List.map _) (List.filter_congr fun i _ => ?_)
  simp only [Function.comp_apply, ne_eq, parityId_injective.eq_iff]

theorem length_filter_parityIds {q : Nat} (hq : q < conf.ecM) :
    ((parityIds conf).filter fun blkId => blkId ≠ parityId conf q).length =
      conf.ecM - 1 := by
  have hmem : q ∈ (List.range conf.ecM).map id := by simpa using hq
  have hlen := Keyed.length_filter_ne (List.nodup_range.map Function.injective_id) hmem
  simp only [id_eq, List.length_range] at hlen
  rw [filter_parityIds, List.length_map]
  omega

theorem map_parityIds {α : Type} (f : Int → α) :
    (parityIds conf).map f = (List.range conf.ecM).map fun i => f (parityId conf i) := by
  simp [parityIds]

theorem writeDataToDisk_congr (σ : NodeState) (blk : Int) {content content' : Buf} {size : Int}
    (base : Int) (h : ∀ x, 0 ≤ x → x < size → content x = content' x) :
    writeDataToDisk σ blk content size base = writeDataToDisk σ blk content' size base := by
  rw [writeDataToDisk, memcpy_congr (σ.disk blk) base h, ← writeDataToDisk]

@[simp] theorem writeDataToDisk_disk (σ : NodeState) (blk : Int) (content : Buf)
    (size base : Int) :
    (writeDataToDisk σ blk content size base).disk blk = memcpy (σ.disk blk) base content size :=
  Function.update_self _ _ _

theorem readDataFromDisk_apply {σ : NodeState} {blk : Int} {content : Buf} {size base x : Int}
    (h0 : 0 ≤ x) (hx : x < size) :
    readDataFromDisk σ blk content size base x = σ.disk blk (base + x) := by
  rw [readDataFromDisk, memcpy_of_mem ⟨h0, by omega⟩, Buf.advance_apply, sub_zero]

theorem computeDelta_apply {result srcA srcB : Buf} {size x : Int} (h0 : 0 ≤ x)
    (hx : x < size * 1024) : computeDelta result srcA srcB (size * 1024) x = srcA x + srcB x :=
  if_pos ⟨h0, by omega⟩

/-- The acknowledgements of a round. -/
def acks (conf : Config) : List RedisStr :=
  List.replicate conf.ecM ackStr

theorem acks_ne_nil (hm : 0 < conf.ecM) : acks conf ≠ [] := by
  simp only [acks, ne_eq, List.replicate_eq_nil_iff]
  omega

theorem ack_ne_job (rsEncMat : Int → Int) (newData : Int → Buf) (stripes : List Stripe) :
    Chan.ack ≠ (network conf rsEncMat newData stripes).job := by
  simp [network]

open MsgNet in
theorem follows_recvAck (hm : 0 < conf.ecM) {σ : NodeState} :
    Follows (EndsIn σ) (recvAck conf) σ
      ([.rcv .ack (acks conf)] : List (Act Host Chan RedisStr)) := by
  have hlen : (acks conf).length = conf.ecM := by simp [acks]
  have hdone : ∀ l : List RedisStr, l.Perm (acks conf) →
      Follows (EndsIn σ) (.done : Prog) σ
        ([] : List (Act Host Chan RedisStr)) := fun _ _ => ⟨rfl, rfl⟩
  rw [recvAck]
  exact follows_popUntil Chan.ack Exit.endlessLoop _ (acks conf) () hlen (acks_ne_nil hm) hdone

/-! ## Roles the policies share -/

section Roles

open MsgNet

variable {newData : Int → Buf} {rsEncMat : Int → Int} {stripes : List Stripe}
  {σ : Host → NodeState} {collectorId : Int} {c : Chan} {cmd : RedisStr} {final : NodeState}

/-- A parity node that waits for its data, works and acknowledges. -/
theorem fits_parityRole {i : Nat} {ms : List RedisStr} (hjob : c ≠ .updCmds) (hack : c ≠ .ack)
    (hne : ms ≠ [])
    (hplay : Follows (EndsIn final) (doProcess conf newData (parityId conf i) cmd)
      (σ (parityNode conf i)) [.rcv c ms, .snd .coordinator .ack ackStr]) :
    Role.Fits (network conf rsEncMat newData stripes) σ (chanRank collectorId)
      (hostDepth conf collectorId)
      { host := parityNode conf i
        cmd := cmd
        body := [.rcv c ms, .snd .coordinator .ack ackStr]
        final := final } where
  root_ne := parityNode_ne_coordinator i
  once := by
    refine ⟨?_, rfl, trivial⟩
    simp [recvs, network, hjob]
  jobless := fun h => by simp [sends, network]
  plays := hplay
  rank_pos := fun h c' m hm => by
    simp only [List.mem_cons, reduceCtorEq, Act.snd.injEq, List.not_mem_nil, or_false,
      false_or] at hm
    exact chanRank_pos _ _ (by simp [hm.2.1])
  ranked := by
    refine ⟨hne, fun dst c' m hm => ?_, trivial⟩
    simp only [List.mem_singleton, Act.snd.injEq] at hm
    rw [hm.2.1]
    exact chanRank_lt_ack _ _ _ hack
  closing := ⟨by simp, by simp [Closing]⟩

/-- A data node that sends one message to a node nearer to the coordinator. -/
theorem fits_dataRole {b : UpdBlock} {dst : Host} {m : RedisStr} (hjob : c ≠ .updCmds)
    (hdepth : hostDepth conf collectorId dst < hostDepth conf collectorId (dataNode b))
    (hplay : Follows (EndsIn final) (doProcess conf newData b.id cmd) (σ (dataNode b))
      [.snd dst c m]) :
    Role.Fits (network conf rsEncMat newData stripes) σ (chanRank collectorId)
      (hostDepth conf collectorId)
      { host := dataNode b
        cmd := cmd
        body := [.snd dst c m]
        final := final } where
  root_ne := dataNode_ne_coordinator b
  once := ⟨rfl, trivial⟩
  jobless := fun h => by simp [sends, network, hjob]
  plays := hplay
  rank_pos := fun h c' m' hm => by
    simp only [List.mem_singleton, Act.snd.injEq] at hm
    rw [hm.2.1]
    exact chanRank_pos _ _ hjob
  ranked := trivial
  closing := ⟨by simp, by simpa [Closing] using hdepth⟩

end Roles

end CoRD
