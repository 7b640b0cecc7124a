import CoRD.Repair.PPRCoordinator
import CoRD.Repair.PPRPullDRWorker
import CoRD.Util.Forest

/-!
# PPRReduction — the nodes of a repair as one tree

The commands of a repair make the helpers and the requestor nodes of one tree.  A helper has one
parent, and leaves its packets at the host at which the parent pulls them.  So what a helper has of
its own reaches the requestor on one path, and the requestor xors the packets of all helpers.

`XORBuffers` leaves out the bytes behind the last whole word, and of three packets the second one
cannot be logged; nothing else stands in the way.
-/

namespace CoRD

namespace PPRPull

open LowBit
open Std
open Lists (Event)

/-! ## The tree -/

/-- The parent of a helper, as if there were as many helpers as that. -/
def par (c : Nat) : Nat :=
  c + low (c + 1)

theorem lt_par (c : Nat) : c < par c :=
  Nat.lt_add_of_pos_right (low_pos (c + 1))

/-- Helper `c` of `k` is pulled from by node `p`. -/
def Pulled (k c p : Nat) : Prop :=
  ∃ l, children k p = some l ∧ c ∈ l

/-- The index functions come to an end, and the children that they find are those whose parents the
others find. -/
structure Indices (k : Nat) : Prop where
  helper : ∀ p < k, ∃ l : List Word,
    (∀ depth, 32 ≤ depth → getChildrenIndices k depth p = some l) ∧ l.Nodup ∧
      ∀ c : Word, c ∈ l ↔ c.toNat < k ∧ PPRnextIP c = p
  requestor : ∃ (r : Word) (l : List Word), (∀ fuel, 32 ≤ fuel → getID fuel k = some r) ∧
    (∀ depth, 32 ≤ depth → getChildrenIndices k depth r = some l) ∧ l.Nodup ∧
      ∀ c : Word, c ∈ l ↔ c.toNat < k ∧ k ≤ (PPRnextIP c).toNat

section Tree

variable {k : Nat}

theorem toNat_ofNat_of_lt {n : Nat} : n + 1 ≤ 2 ^ 30 → (BitVec.ofNat 32 n).toNat = n := by
  intro hn
  rw [BitVec.toNat_ofNat, Nat.mod_eq_of_lt (by omega)]

theorem indices_spec (hk : 1 ≤ k) : k + 1 < 2 ^ 30 → Indices k := by
  intro hlt
  have hkNat := toNat_ofNat_of_lt hlt.le
  constructor
  case helper =>
    intro p hp
    have hpNat := toNat_ofNat_of_lt (show p + 1 ≤ 2 ^ 30 by omega)
    rcases children_helper (BitVec.ofNat 32 k) (BitVec.ofNat 32 p)
      (by rw [hkNat]; exact hlt) (by rw [BitVec.lt_def, hkNat, hpNat]; exact hp) with
      ⟨l, hl, hnodup, hmem⟩
    refine ⟨l, hl, hnodup, fun c => ?_⟩
    rw [hmem, BitVec.lt_def, hkNat]
    rfl
  case requestor =>
    rcases children_root (BitVec.ofNat 32 k) (by rw [hkNat]; exact hk)
      (by rw [hkNat]; exact hlt) with ⟨r, l, hr, hl, hnodup, hmem⟩
    refine ⟨r, l, hr, hl, hnodup, fun c => ?_⟩
    rw [hmem, BitVec.lt_def, BitVec.le_def, hkNat]

/-- The node that a helper's packets are for. -/
theorem toNat_PPRnextIP_ofNat {c : Nat} : c + 1 < 2 ^ 30 →
    (PPRnextIP (BitVec.ofNat 32 c)).toNat = par c := by
  intro hc
  have hnext := toNat_PPRnextIP (c := BitVec.ofNat 32 c)
    (by rw [toNat_ofNat_of_lt hc.le]; omega)
  rw [toNat_ofNat_of_lt hc.le] at hnext
  rw [par]
  omega

/-- The children of a node, counted as numbers. -/
theorem children_spec (hk : 1 ≤ k) (hlt : k + 1 < 2 ^ 30) {p : Nat} : p ≤ k →
    ∃ l, children k p = some l ∧ l.Nodup ∧ ∀ c, c ∈ l ↔ c < k ∧ min (par c) k = p := by
  intro hp
  have hkNat := toNat_ofNat_of_lt hlt.le
  have hpNat := toNat_ofNat_of_lt (show p + 1 ≤ 2 ^ 30 by omega)
  have hindices := indices_spec hk hlt
  -- as words, and with the parents as words
  have hwords : ∃ l : List Word, (if BitVec.ofNat 32 p < BitVec.ofNat 32 k then
      getChildrenIndices (BitVec.ofNat 32 k) 32 (BitVec.ofNat 32 p)
      else (getID 32 (BitVec.ofNat 32 p)).bind (getChildrenIndices (BitVec.ofNat 32 k) 32)) =
        some l ∧ l.Nodup ∧ ∀ c : Word, c ∈ l ↔ c.toNat < k ∧ min (PPRnextIP c).toNat k = p := by
    rcases hp.lt_or_eq with hhelper | rfl
    · rw [if_pos (by rw [BitVec.lt_def, hkNat, hpNat]; exact hhelper)]
      rcases hindices.helper p hhelper with ⟨l, hl, hnodup, hmem⟩
      refine ⟨l, hl 32 (Nat.le_refl 32), hnodup, fun c => (hmem c).trans (and_congr_right fun _ => ?_)⟩
      rw [← BitVec.toNat_inj]
      show _ = (BitVec.ofNat 32 p).toNat ↔ _
      rw [hpNat]
      omega
    · rw [if_neg (by rw [BitVec.lt_def]; exact Nat.lt_irrefl _)]
      rcases hindices.requestor with ⟨r, l, hr, hl, hnodup, hmem⟩
      refine ⟨l, ?_, hnodup, fun c => (hmem c).trans (and_congr_right fun _ => ?_)⟩
      · have hr' : getID 32 (BitVec.ofNat 32 p) = some r := hr 32 (Nat.le_refl 32)
        rw [hr']
        exact hl 32 (Nat.le_refl 32)
      · omega
  rcases hwords with ⟨l, hl, hnodup, hmem⟩
  refine ⟨l.map BitVec.toNat, ?_, ?_, fun c => ?_⟩
  · exact congrArg (Option.map (List.map BitVec.toNat)) hl
  · exact hnodup.map fun _ _ => BitVec.eq_of_toNat_eq
  · rw [List.mem_map]
    constructor
    · rintro ⟨w, hw, rfl⟩
      have hw' := (hmem w).1 hw
      have hnext := toNat_PPRnextIP_ofNat (show w.toNat + 1 < 2 ^ 30 by omega)
      rw [BitVec.ofNat_toNat, BitVec.setWidth_eq] at hnext
      rw [← hnext]
      exact hw'
    · rintro ⟨hc, hparent⟩
      refine ⟨BitVec.ofNat 32 c, (hmem _).2 ?_, toNat_ofNat_of_lt (by omega)⟩
      rw [toNat_ofNat_of_lt (by omega), toNat_PPRnextIP_ofNat (by omega)]
      exact ⟨hc, hparent⟩

/-- A helper is pulled from by one node. -/
theorem pulled_iff (hk : 1 ≤ k) (hlt : k + 1 < 2 ^ 30) {c p : Nat} : p ≤ k →
    (Pulled k c p ↔ c < k ∧ p = min (par c) k) := by
  intro hp
  rcases children_spec hk hlt hp with ⟨l, hl, -, hmem⟩
  rw [eq_comm, ← hmem, Pulled]
  constructor
  · rintro ⟨l', hl', hc⟩
    cases hl.symm.trans hl'
    exact hc
  · exact fun hc => ⟨l, hl, hc⟩

/-- From a helper one path leads to the requestor. -/
theorem existsUnique_path (hk : 1 ≤ k) (hlt : k + 1 < 2 ^ 30) : ∀ c < k,
    ∃! l : List Nat, (∀ p ∈ l, p < k) ∧ (c :: (l ++ [k])).IsChain (Pulled k) := by
  refine Forest.existsUnique_path (fun c => min (par c) k) (fun c hc => ?_) ?_
  · exact ⟨lt_min (lt_par c) hc, min_le_right _ _⟩
  · intro c hc p hp
    rw [pulled_iff hk hlt hp]
    exact and_iff_right hc

end Tree

/-! ## The nodes -/

section Nodes

variable (conf : PacketConfig) (blkDir : Str → Buf) (requestorIP : Nat) (lostBlkName : Str)
  (coef : TreeMap Str GF256) (stripe : List (Nat × Str))

/-- The workers: each takes the commands for its node one after the other. -/
def workers : Lists.Jobs PPRCmd State Nat ListKey Msg where
  step := Step conf blkDir
  init := State.init
  Done := Done conf
  queue := .drCmds
  msg := .cmd

/-- The commands of a repair, with the nodes that they are for. -/
def cmds : List (Nat × PPRCmd) :=
  PPR.helperCmds requestorIP lostBlkName coef stripe ++
    [(requestorIP, PPR.requestorCmd requestorIP lostBlkName stripe)]

/-- The node of a helper, or of the requestor behind the helpers. -/
def node (i : Nat) : Nat :=
  (PPR.holderIps requestorIP stripe).getD i 0

/-- The command of a helper, or of the requestor. -/
def nodeCmd (i : Nat) : PPRCmd :=
  if i < stripe.length then
    PPR.helperCmd requestorIP lostBlkName coef stripe i (stripe.getD i (0, [])).2
  else PPR.requestorCmd requestorIP lostBlkName stripe

/-- Where the packets of a helper are left and pulled. -/
def home (c : Nat) : Nat :=
  if stripe.length ≤ par c then requestorIP else node requestorIP stripe c

/-- A packet as helper `c` reads and scales it. -/
def scaled (c i : Nat) : Buf :=
  own conf blkDir (nodeCmd requestorIP lostBlkName coef stripe c) i

/-- All that the helpers have for a packet. -/
def sum (i : Nat) : Msg :=
  .packet (bytesOf (fun x => (Finset.range stripe.length).sum fun c =>
    scaled conf blkDir requestorIP lostBlkName coef stripe c i x) conf.packetSize)

/-- Before the workers have taken their commands. -/
def start : Lists.State (workers conf blkDir).servers :=
  (workers conf blkDir).serversStart (cmds requestorIP lostBlkName coef stripe)

/-- What a run has come to: helpers leave their packets where their parents pull them, and the
requestor has so many packets of the lost block. -/
structure Reduced (tr : List (Nat × Event Nat ListKey Msg)) (n : Nat) : Prop where
  pushes : ∀ i h c m, (i, .push h (.tmpId lostBlkName c) m) ∈ tr →
    c < stripe.length ∧ i = node requestorIP stripe c ∧ h = home requestorIP stripe c
  pops : ∀ i h c m, (i, .pop h (.tmpId lostBlkName c) m) ∈ tr →
    h = home requestorIP stripe c ∧
      ∃ p ≤ stripe.length, Pulled stripe.length c p ∧ i = node requestorIP stripe p
  packets : Lists.pushed requestorIP (.blk lostBlkName) (tr.map Prod.snd) =
    (List.range n).map (sum conf blkDir requestorIP lostBlkName coef stripe)

end Nodes

/-- A tree of `k` helpers reduces their packets to those of the lost block, whatever their blocks and
coefficients are and wherever they are: at any time the requestor has a first part of the packets,
and when nothing can happen any more, it has them all and the workers wait for other commands. -/
structure Reduces (conf : PacketConfig) (k : Nat) : Prop where
  indices : Indices k
  paths : ∀ c < k, ∃! l : List Nat, (∀ p ∈ l, p < k) ∧ (c :: (l ++ [k])).IsChain (Pulled k)
  bounded : ∃ n, ∀ (blkDir : Str → Buf) (requestorIP : Nat) (lostBlkName : Str)
    (coef : TreeMap Str GF256) (stripe : List (Nat × Str)), stripe.length = k →
      ∀ tr s, Lists.Runs _ (start conf blkDir requestorIP lostBlkName coef stripe) tr s →
        tr.length ≤ n
  runs : ∀ (blkDir : Str → Buf) (requestorIP : Nat) (lostBlkName : Str) (coef : TreeMap Str GF256)
    (stripe : List (Nat × Str)), stripe.length = k → (∀ it ∈ stripe, it.2 ≠ []) →
      ∀ tr s, Lists.Runs _ (start conf blkDir requestorIP lostBlkName coef stripe) tr s →
        ∃ n ≤ conf.packetCnt,
          Reduced conf blkDir requestorIP lostBlkName coef stripe tr n ∧
          ((∀ i e s', ¬ Lists.Step _ s i e s') →
            n = conf.packetCnt ∧ ∀ i, s.loc i = none ∧ s.lists i .drCmds = [])

/-! ## A run of the nodes -/

section Run

variable {conf : PacketConfig} {blkDir : Str → Buf} {requestorIP : Nat} {lostBlkName : Str}
  {coef : TreeMap Str GF256} {stripe : List (Nat × Str)}

theorem length_cmds :
    (cmds requestorIP lostBlkName coef stripe).length = stripe.length + 1 := by
  rw [cmds, PPR.helperCmds, List.length_append, List.length_map, List.length_zipIdx]
  rfl

theorem node_requestor : node requestorIP stripe stripe.length = requestorIP := by
  rw [node, PPR.holderIps, List.getD_append_right _ _ _ _ (by rw [List.length_map])]
  simp

theorem getElem?_cmds {i : Nat} : i ≤ stripe.length →
    (cmds requestorIP lostBlkName coef stripe)[i]? =
      some (node requestorIP stripe i, nodeCmd requestorIP lostBlkName coef stripe i) := by
  intro hi
  have hlength : (PPR.helperCmds requestorIP lostBlkName coef stripe).length = stripe.length := by
    rw [PPR.helperCmds, List.length_map, List.length_zipIdx]
  rcases hi.lt_or_eq with hlt | rfl
  · rw [cmds, List.getElem?_append_left (hlength ▸ hlt), PPR.helperCmds, List.getElem?_map,
      List.getElem?_zipIdx, List.getElem?_eq_getElem hlt, nodeCmd, if_pos hlt, node, PPR.holderIps,
      List.getD_append _ _ _ _ (by rw [List.length_map]; exact hlt)]
    simp [List.getD_eq_getElem?_getD, hlt]
  · rw [cmds, List.getElem?_append_right hlength.le, hlength, Nat.sub_self, node_requestor, nodeCmd,
      if_neg (Nat.lt_irrefl _)]
    rfl

theorem nodeCmd_ecK (i : Nat) :
    (nodeCmd requestorIP lostBlkName coef stripe i).ecK = stripe.length := by
  unfold nodeCmd
  split <;> rfl

theorem nodeCmd_id {i : Nat} : i ≤ stripe.length →
    (nodeCmd requestorIP lostBlkName coef stripe i).id = i := by
  intro hi
  unfold nodeCmd
  split
  · rfl
  · exact Nat.le_antisymm (Nat.le_of_not_lt ‹_›) hi

theorem nodeCmd_lostBlkName (i : Nat) :
    (nodeCmd requestorIP lostBlkName coef stripe i).lostBlkName = lostBlkName := by
  unfold nodeCmd
  split <;> rfl

theorem nodeCmd_holderIps (i : Nat) :
    (nodeCmd requestorIP lostBlkName coef stripe i).holderIps = PPR.holderIps requestorIP stripe := by
  unfold nodeCmd
  split <;> rfl

/-- The list of a helper's packets is called after the helper. -/
theorem writeKey_helper {c : Nat} : c < stripe.length →
    writeKey (nodeCmd requestorIP lostBlkName coef stripe c) = .tmpId lostBlkName c := by
  intro hc
  rw [writeKey, nodeCmd_id hc.le, nodeCmd_ecK, if_neg (Nat.ne_of_lt hc), nodeCmd_lostBlkName]

theorem writeKey_requestor :
    writeKey (nodeCmd requestorIP lostBlkName coef stripe stripe.length) = .blk lostBlkName := by
  rw [writeKey, nodeCmd_id (Nat.le_refl _), nodeCmd_ecK, if_pos rfl, nodeCmd_lostBlkName]

section Known

variable (hk : 1 ≤ stripe.length) (hlt : stripe.length + 1 < 2 ^ 30)

include hlt

/-- A helper pushes to its home, -/
theorem writeIP_helper {c : Nat} : c < stripe.length →
    writeIP (node requestorIP stripe c) (nodeCmd requestorIP lostBlkName coef stripe c) =
      home requestorIP stripe c := by
  intro hc
  have hparent : BitVec.ofNat 32 stripe.length ≤ PPRnextIP (BitVec.ofNat 32 c) ↔
      stripe.length ≤ par c := by
    rw [BitVec.le_def, toNat_PPRnextIP_ofNat (by omega), toNat_ofNat_of_lt (by omega)]
  rw [writeIP, nodeCmd_id hc.le, nodeCmd_ecK, nodeCmd_holderIps, if_congr hparent rfl rfl, home]
  exact if_congr Iff.rfl node_requestor rfl

/-- and the requestor to its own host. -/
theorem writeIP_requestor :
    writeIP (node requestorIP stripe stripe.length)
      (nodeCmd requestorIP lostBlkName coef stripe stripe.length) = requestorIP := by
  have hparent : BitVec.ofNat 32 stripe.length ≤ PPRnextIP (BitVec.ofNat 32 stripe.length) := by
    rw [BitVec.le_def, toNat_PPRnextIP_ofNat hlt, toNat_ofNat_of_lt hlt.le]
    exact (lt_par _).le
  rw [writeIP, nodeCmd_id (Nat.le_refl _), nodeCmd_ecK, nodeCmd_holderIps, if_pos hparent]
  exact node_requestor

omit hlt in
/-- The parent pulls from there. -/
theorem pullIP_node {c p : Nat} (hp : p ≤ stripe.length) : min (par c) stripe.length = p →
    pullIP (node requestorIP stripe p) (nodeCmd requestorIP lostBlkName coef stripe p) c =
      home requestorIP stripe c := by
  intro hparent
  rw [pullIP, nodeCmd_id hp, nodeCmd_ecK, nodeCmd_holderIps, home]
  rcases hp.lt_or_eq with hhelper | rfl
  · rw [if_pos (Nat.ne_of_lt hhelper), if_neg (by omega)]
    rfl
  · rw [if_neg (not_not.2 rfl), if_pos (by omega)]
    exact node_requestor

end Known

/-! ## Nodes that work at the same time -/

section Parties

variable {tr : List (Nat × Event Nat ListKey Msg)}
  {s : Lists.State ((workers conf blkDir).parties (cmds requestorIP lostBlkName coef stripe))}
  (hk : 1 ≤ stripe.length) (hlt : stripe.length + 1 < 2 ^ 30)
  (hruns : Lists.Runs _
    ((workers conf blkDir).partiesStart (cmds requestorIP lostBlkName coef stripe)) tr s)

/-- The children of a node, as a list -/
def kids (k i : Nat) : List Nat :=
  (children k i).getD []

/-- and as a set. -/
def kidSet (k i : Nat) : Finset Nat :=
  (Finset.range k).filter fun c => min (par c) k = i

theorem sum_getD (f : Nat → GF256) (l : List Nat) :
    ((Finset.range l.length).sum fun num => f (l.getD num 0)) = (l.map f).sum := by
  induction l with
  | nil => rfl
  | cons c l ih =>
      rw [List.length_cons, Finset.sum_range_succ', List.map_cons, List.sum_cons, add_comm]
      exact congrArg (f c + ·) ih

omit hk hlt hruns in
theorem kids_spec {k i : Nat} (hk : 1 ≤ k) (hlt : k + 1 < 2 ^ 30) : i ≤ k →
    children k i = some (kids k i) ∧ (kids k i).Nodup ∧
      ∀ c, c ∈ kids k i ↔ c < k ∧ min (par c) k = i := by
  intro hi
  rcases children_spec hk hlt hi with ⟨l, hl, hspec⟩
  rw [kids, hl]
  exact ⟨rfl, hspec⟩

include hruns in
theorem step_of_party {i : Nat} (hi : i ≤ stripe.length) :
    Lists.LocalRuns (Step conf blkDir (node requestorIP stripe i)
      (nodeCmd requestorIP lostBlkName coef stripe i)) State.init (Lists.eventsOf i tr) (s.loc i) := by
  refine (hruns.toLocal i).mono fun l e l' hstep => ?_
  rcases hstep with ⟨c, hc, hwork⟩
  rw [getElem?_cmds hi] at hc
  cases hc
  exact hwork

include hk hlt hruns in
theorem node_of_party {i : Nat} (hi : i ≤ stripe.length) :
    Node conf blkDir (node requestorIP stripe i) (nodeCmd requestorIP lostBlkName coef stripe i)
      (kids stripe.length i) (Lists.eventsOf i tr) (s.loc i) := by
  rcases kids_spec hk hlt hi with ⟨hchildren, hnodup, -⟩
  refine node_of_runs hnodup ?_ (step_of_party hruns hi)
  rw [nodeCmd_ecK, nodeCmd_id hi]
  exact hchildren

include hruns in
theorem eventsOf_other {i : Nat} : stripe.length < i → Lists.eventsOf i tr = [] := by
  intro hi
  refine (hruns.toLocal i).eq_nil fun l e l' hstep => ?_
  rcases hstep with ⟨c, hc, -⟩
  rw [List.getElem?_eq_none (by rw [length_cmds]; exact hi)] at hc
  cases hc

include hk hlt hruns in
/-- What is pushed, is pushed by a node to its own list. -/
theorem of_push {i h : Nat} {key : ListKey} {m : Msg} : .push h key m ∈ Lists.eventsOf i tr →
    i ≤ stripe.length ∧
      h = writeIP (node requestorIP stripe i) (nodeCmd requestorIP lostBlkName coef stripe i) ∧
      key = writeKey (nodeCmd requestorIP lostBlkName coef stripe i) := by
  intro hpush
  rcases Nat.lt_or_ge stripe.length i with hbehind | hi
  · rw [eventsOf_other hruns hbehind] at hpush
    exact absurd hpush List.not_mem_nil
  · have hmem := Lists.mem_pushes.2 hpush
    rw [(node_of_party hk hlt hruns hi).pushes] at hmem
    rcases List.mem_map.1 hmem with ⟨p, -, heq⟩
    cases heq
    exact ⟨hi, rfl, rfl⟩

include hk hlt hruns in
/-- What is popped, is popped by a parent from a list of its child. -/
theorem of_pop {i h : Nat} {key : ListKey} {m : Msg} : .pop h key m ∈ Lists.eventsOf i tr →
    i ≤ stripe.length ∧ ∃ c < stripe.length, min (par c) stripe.length = i ∧
      h = home requestorIP stripe c ∧ key = .tmpId lostBlkName c := by
  intro hpop
  rcases Nat.lt_or_ge stripe.length i with hbehind | hi
  · rw [eventsOf_other hruns hbehind] at hpop
    exact absurd hpop List.not_mem_nil
  · rcases (node_of_party hk hlt hruns hi).onlyPops h key m hpop with ⟨c, hc, hhost, hkey⟩
    rcases ((kids_spec hk hlt hi).2.2 c).1 hc with ⟨hck, hparent⟩
    rw [pullIP_node hi hparent] at hhost
    rw [nodeCmd_lostBlkName] at hkey
    exact ⟨hi, c, hck, hparent, hhost, hkey⟩

include hk hlt hruns in
/-- What is pushed to the list of a node. -/
theorem pushed_key {i : Nat} (hi : i ≤ stripe.length) :
    Lists.pushed
        (writeIP (node requestorIP stripe i) (nodeCmd requestorIP lostBlkName coef stripe i))
        (writeKey (nodeCmd requestorIP lostBlkName coef stripe i)) (tr.map Prod.snd) =
      (List.range (s.loc i).sent).map (packet conf (s.loc i)) := by
  have hinj : ∀ j ≤ stripe.length, writeKey (nodeCmd requestorIP lostBlkName coef stripe i) =
      writeKey (nodeCmd requestorIP lostBlkName coef stripe j) → j = i := by
    intro j hj heq
    rcases hi.lt_or_eq with hhelper | rfl
    · rw [writeKey_helper hhelper] at heq
      rcases hj.lt_or_eq with hhelper' | rfl
      · rw [writeKey_helper hhelper'] at heq
        injection heq with _ hid
        exact hid.symm
      · rw [writeKey_requestor] at heq
        cases heq
    · rw [writeKey_requestor] at heq
      rcases hj.lt_or_eq with hhelper' | rfl
      · rw [writeKey_helper hhelper'] at heq
        cases heq
      · rfl
  refine (Lists.pushed_eq_of_producer (i := i) fun j hj => Lists.pushed_eq_nil fun m hm => ?_).trans ?_
  · rcases of_push hk hlt hruns hm with ⟨hjk, -, hkey⟩
    exact hj (hinj j hjk hkey)
  · rw [Lists.pushed_eq_pushes, (node_of_party hk hlt hruns hi).pushes, List.filter_eq_self.2,
      List.map_map]
    · rfl
    · intro q hq
      rcases List.mem_map.1 hq with ⟨p, -, rfl⟩
      simp

include hk hlt hruns in
/-- What a parent has pulled and what is left in the list is what the child has sent. -/
theorem link {c : Nat} (hc : c < stripe.length) :
    Lists.popped (home requestorIP stripe c) (.tmpId lostBlkName c)
        (Lists.eventsOf (min (par c) stripe.length) tr) ++
        s.lists (home requestorIP stripe c) (.tmpId lostBlkName c) =
      (List.range (s.loc c).sent).map (packet conf (s.loc c)) := by
  have hpushed := pushed_key hk hlt hruns hc.le
  rw [writeIP_helper hlt hc, writeKey_helper hc] at hpushed
  have hfifo := hruns.fifo (home requestorIP stripe c) (.tmpId lostBlkName c)
  rw [hpushed] at hfifo
  have hpopped : Lists.popped (home requestorIP stripe c) (.tmpId lostBlkName c) (tr.map Prod.snd) =
      Lists.popped (home requestorIP stripe c) (.tmpId lostBlkName c)
        (Lists.eventsOf (min (par c) stripe.length) tr) := by
    refine Lists.popped_eq_of_consumer fun j hj => Lists.popped_eq_nil fun m hm => hj ?_
    rcases of_pop hk hlt hruns hm with ⟨-, c', -, hparent, -, hkey⟩
    injection hkey with _ hid
    rw [← hparent, hid]
  rw [← hpopped]
  exact hfifo

include hk hlt hruns in
/-- What a parent has pulled for a packet that it sends is what the child has sent. -/
theorem received_eq {c i p : Nat} (hc : c < stripe.length)
    (hparent : min (par c) stripe.length = i) : p < (s.loc i).sent →
      p < (s.loc c).sent ∧
        received (node requestorIP stripe i) (nodeCmd requestorIP lostBlkName coef stripe i)
          (Lists.eventsOf i tr) c p = packet conf (s.loc c) p := by
  intro hp
  have hi : i ≤ stripe.length := hparent ▸ min_le_right _ _
  have hnode := node_of_party hk hlt hruns hi
  rcases List.getElem?_of_mem (((kids_spec hk hlt hi).2.2 c).2 ⟨hc, hparent⟩) with ⟨num, hnum⟩
  have hpulled := hnode.lt_length hnum
    (hnode.lt_indicesWaiting (List.getElem?_eq_some_iff.1 hnum).1 hp)
  rw [received]
  rw [pullIP_node hi hparent, nodeCmd_lostBlkName] at hpulled ⊢
  have hlink := link hk hlt hruns hc
  rw [hparent] at hlink
  have hprefix := Lists.getElem?_of_isPrefix ⟨_, hlink⟩ (List.getElem?_eq_getElem hpulled)
  rw [List.getElem?_map, Option.map_eq_some_iff] at hprefix
  rcases hprefix with ⟨q, hq, hpacket⟩
  rcases List.getElem?_eq_some_iff.1 hq with ⟨hlength, hget⟩
  rw [List.getElem_range] at hget
  subst hget
  rw [List.length_range] at hlength
  exact ⟨hlength, (List.getD_eq_getElem _ _ hpulled).trans hpacket.symm⟩

include hk hlt hruns in
/-- A packet that a node sends: its own, and those of its children up to the last word. -/
theorem bytes_sent {i p : Nat} (hi : i ≤ stripe.length) (hp : p < (s.loc i).sent) {x : Int}
    (h0 : 0 ≤ x) : x < conf.packetSize →
      (s.loc i).diskPkts p x = scaled conf blkDir requestorIP lostBlkName coef stripe i p x +
        if x < (8 * (conf.packetSize / 8) : Nat) then
          (kidSet stripe.length i).sum fun c => (s.loc c).diskPkts p x
        else 0 := by
  intro hx
  have hnode := node_of_party hk hlt hruns hi
  rcases kids_spec hk hlt hi with ⟨-, hnodup, hmem⟩
  have hread : p < (s.loc i).waitingToPull :=
    hp.trans_le (hnode.sent.trans hnode.waitingToSend)
  rw [hnode.bytes p hread x h0 hx, scaled, added]
  refine congrArg _ (if_congr Iff.rfl ?_ rfl)
  have hkids : kidSet stripe.length i = (kids stripe.length i).toFinset := by
    ext c
    rw [kidSet, List.mem_toFinset, hmem, Finset.mem_filter, Finset.mem_range]
  rw [hkids, List.sum_toFinset _ hnodup, ← sum_getD]
  refine Finset.sum_congr rfl fun num hnum => ?_
  have hnum := Finset.mem_range.1 hnum
  rw [if_pos (hnode.lt_indicesWaiting hnum hp)]
  rcases (hmem _).1 (List.mem_of_getElem? (getElem?_getD hnum)) with ⟨hc, hparent⟩
  rw [(received_eq hk hlt hruns hc hparent hp).2]
  exact str_packet_bytesOf h0 hx

include hk hlt hruns in
/-- With whole words a packet holds what all helpers below the node have. -/
theorem bytes_total (hwords : conf.packetSize % 8 = 0) {i p : Nat} (hi : i ≤ stripe.length)
    (hp : p < (s.loc i).sent) {x : Int} (h0 : 0 ≤ x) : x < conf.packetSize →
      (s.loc i).diskPkts p x = scaled conf blkDir requestorIP lostBlkName coef stripe i p x +
        (kidSet stripe.length i).sum (Forest.total par fun c =>
          scaled conf blkDir requestorIP lostBlkName coef stripe c p x) := by
  intro hx
  induction i using Nat.strong_induction_on with
  | _ i ih =>
      rw [bytes_sent hk hlt hruns hi hp h0 hx, if_pos (by omega)]
      refine congrArg _ (Finset.sum_congr rfl fun c hc => ?_)
      rcases Finset.mem_filter.1 hc with ⟨hck, hparent⟩
      have hck := Finset.mem_range.1 hck
      have hci : c < i := hparent ▸ lt_min (lt_par c) hck
      rw [ih c hci hck.le (received_eq hk hlt hruns hck hparent hp).1,
        Forest.total_eq lt_par _ hck.le]
      refine congrArg _ (Finset.sum_congr (Finset.filter_congr fun d _ => ?_) fun _ _ => rfl)
      omega

include hk hlt hruns in
/-- The requestor sends the sum of all. -/
theorem packet_requestor (hwords : conf.packetSize % 8 = 0) {p : Nat} :
    p < (s.loc stripe.length).sent →
      packet conf (s.loc stripe.length) p =
        sum conf blkDir requestorIP lostBlkName coef stripe p := by
  intro hp
  refine congrArg ListMsg.packet (bytesOf_congr fun x h0 hx => ?_)
  have hnothing : scaled conf blkDir requestorIP lostBlkName coef stripe stripe.length p x = 0 := by
    rw [scaled, nodeCmd, if_neg (Nat.lt_irrefl _)]
    rfl
  rw [bytes_total hk hlt hruns hwords (Nat.le_refl _) hp h0 hx, hnothing, zero_add,
    ← Forest.sum_roots lt_par]
  refine Finset.sum_congr (Finset.filter_congr fun c _ => ?_) fun _ _ => rfl
  omega

include hk hlt hruns in
/-- The nodes take only so many steps. -/
theorem length_le : tr.length ≤ (stripe.length + 1) *
    (3 * conf.packetCnt + stripe.length * (2 * conf.packetCnt + 1)) := by
  have hother : ∀ i, i ∉ Finset.range (stripe.length + 1) → Lists.eventsOf i tr = [] := by
    intro i hi
    refine eventsOf_other hruns ?_
    rw [Finset.mem_range] at hi
    omega
  rw [Lists.length_eq_sum tr (Finset.range (stripe.length + 1)) hother]
  have hle := Finset.sum_le_card_nsmul (Finset.range (stripe.length + 1))
    (fun i => (Lists.eventsOf i tr).length)
    (3 * conf.packetCnt + stripe.length * (2 * conf.packetCnt + 1)) fun i hi => by
      have hi := Nat.le_of_lt_succ (Finset.mem_range.1 hi)
      rcases kids_spec hk hlt hi with ⟨hchildren, hnodup, hmem⟩
      have hkids : (kids stripe.length i).length ≤ stripe.length := by
        have hsub : kids stripe.length i ⊆ List.range stripe.length :=
          fun c hc => List.mem_range.2 ((hmem c).1 hc).1
        exact (hnodup.subperm hsub).length_le.trans_eq List.length_range
      have hrank := length_le_rank hnodup (by rw [nodeCmd_ecK, nodeCmd_id hi]; exact hchildren)
        (step_of_party hruns hi)
      refine (hrank.trans (node_of_party hk hlt hruns hi).rank_le).trans ?_
      exact Nat.add_le_add_left (Nat.mul_le_mul_right _ hkids) _
  rwa [Finset.card_range, smul_eq_mul] at hle

include hk hlt hruns in
/-- A node whose children are done cannot be held up. -/
theorem done_of_children (hlog : conf.packetCnt ≠ 3) {i : Nat} (hi : i ≤ stripe.length)
    (hbefore : ∀ c < i, (s.loc c).sent = conf.packetCnt) :
    (∀ e s', Event.Off ListKey.drCmds e → ¬ Lists.Step _ s i e s') →
      Done conf (nodeCmd requestorIP lostBlkName coef stripe i) (s.loc i) := by
  intro hstuck
  rcases kids_spec hk hlt hi with ⟨hchildren, -, hmem⟩
  have hnone : ∀ e l, Step conf blkDir (node requestorIP stripe i)
      (nodeCmd requestorIP lostBlkName coef stripe i) (s.loc i) e l →
        ¬ ∀ h key m, e = .pop h key m → ∃ ms, s.lists h key = m :: ms := by
    intro e l hstep hfront
    rcases Lists.Step.of_local (S := (workers conf blkDir).parties
      (cmds requestorIP lostBlkName coef stripe)) ⟨_, getElem?_cmds hi, hstep⟩ hfront with ⟨s', hs'⟩
    exact hstuck e s' (Step.off hstep) hs'
  refine (node_of_party hk hlt hruns hi).done ?_ hlog (fun l hstep => ?_) (fun h key m l hstep => ?_)
    fun c hc => ?_
  · rw [nodeCmd_ecK, nodeCmd_id hi]
    exact hchildren
  · exact hnone _ l hstep fun _ _ _ heq => by cases heq
  · exact hnone _ l hstep fun _ _ _ heq => by cases heq
  · rcases (hmem c).1 hc with ⟨hck, hparent⟩
    have hlink := link hk hlt hruns hck
    rw [hparent, hbefore c (hparent ▸ lt_min (lt_par c) hck)] at hlink
    rw [pullIP_node hi hparent, nodeCmd_lostBlkName]
    -- the list has a packet in front, or all packets have been pulled
    cases hlist : s.lists (home requestorIP stripe c) (.tmpId lostBlkName c) with
    | nil =>
        right
        rw [hlist, List.append_nil] at hlink
        rw [hlink, List.length_map, List.length_range]
    | cons m ms =>
        refine Or.inl ⟨m, fun l hstep => hnone _ l hstep fun _ _ _ heq => ?_⟩
        cases heq
        exact ⟨ms, hlist⟩

end Parties

/-! ## Workers that take one command after the other -/

section Workers

variable {tr : List (Nat × Event Nat ListKey Msg)} {s : Lists.State (workers conf blkDir).servers}
  (hk : 1 ≤ stripe.length) (hlt : stripe.length + 1 < 2 ^ 30)
  (hruns : Lists.Runs _ (start conf blkDir requestorIP lostBlkName coef stripe) tr s)

include hruns in
/-- The workers do what nodes that work at the same time can do. -/
theorem exists_parties : ∃ taken finished tr' s',
    Lists.Runs _ ((workers conf blkDir).partiesStart (cmds requestorIP lostBlkName coef stripe))
      tr' s' ∧
    Lists.Jobs.Serves (workers conf blkDir) (cmds requestorIP lostBlkName coef stripe) taken finished
      s s' ∧
    Lists.Jobs.SameEvents (workers conf blkDir) (cmds requestorIP lostBlkName coef stripe) taken
      finished tr tr' := by
  refine Lists.Jobs.refines (fun c c' heq => ?_) (fun _ _ _ _ _ hstep => Step.off hstep) hruns
  injection heq

include hk hlt hruns in
theorem bounded : tr.length ≤ (stripe.length + 1) *
    (3 * conf.packetCnt + stripe.length * (2 * conf.packetCnt + 1)) + 2 * (stripe.length + 1) := by
  rcases exists_parties hruns with ⟨taken, finished, tr', s', hruns', hs, hsame⟩
  have hle := length_le hk hlt hruns'
  have htaken := Finset.card_le_card hs.range
  have hfinished := Finset.card_le_card hs.subset
  rw [Finset.card_range, length_cmds] at htaken
  have hlength := hsame.length
  omega

include hk hlt in
/-- If every packet can be logged, workers that cannot go on have done all commands. -/
theorem finished_of_stuck {taken finished : Finset Nat} {tr' : List (Nat × Event Nat ListKey Msg)}
    {s' : Lists.State ((workers conf blkDir).parties (cmds requestorIP lostBlkName coef stripe))}
    (hruns' : Lists.Runs _
      ((workers conf blkDir).partiesStart (cmds requestorIP lostBlkName coef stripe)) tr' s')
    (hs : Lists.Jobs.Serves (workers conf blkDir) (cmds requestorIP lostBlkName coef stripe) taken
      finished s s') (hlog : conf.packetCnt ≠ 3) :
    (∀ i e s₁, ¬ Lists.Step _ s i e s₁) → ∀ i ≤ stripe.length, i ∈ finished := by
  intro hstuck i hi
  refine hs.all_finished hstuck (fun i c hc hbefore hparty => ?_)
    (fun _ _ _ _ _ hstep => Step.off hstep) i (by rw [length_cmds]; exact Nat.lt_succ_of_le hi)
  have hi : i ≤ stripe.length := by
    have hlength := (List.getElem?_eq_some_iff.1 hc).1
    rw [length_cmds] at hlength
    exact Nat.le_of_lt_succ hlength
  rw [getElem?_cmds hi] at hc
  cases hc
  refine done_of_children hk hlt hruns' hlog hi (fun c hc => ?_) hparty
  exact (hs.done c (hbefore c hc) _ (getElem?_cmds (hc.le.trans hi))).sent

/-- An event of a worker at another list is one of a node. -/
theorem exists_node {taken finished : Finset Nat} {tr' : List (Nat × Event Nat ListKey Msg)}
    (hsame : Lists.Jobs.SameEvents (workers conf blkDir) (cmds requestorIP lostBlkName coef stripe)
      taken finished tr tr') {i : Nat} {e : Event Nat ListKey Msg} (hmem : (i, e) ∈ tr)
    (hoff : Event.Off ListKey.drCmds e) : e ≠ .internal →
      ∃ j ≤ stripe.length, i = node requestorIP stripe j ∧ e ∈ Lists.eventsOf j tr' := by
  intro hne
  rcases hsame.events i e hmem hoff hne with ⟨j, c, hj, hin⟩
  have hlength := (List.getElem?_eq_some_iff.1 hj).1
  rw [length_cmds] at hlength
  have hjk := Nat.le_of_lt_succ hlength
  rw [getElem?_cmds hjk] at hj
  cases hj
  exact ⟨j, hjk, rfl, List.mem_filterMap.2 ⟨(j, e), hin, if_pos rfl⟩⟩

include hk hlt in
/-- What the workers have done by then. -/
theorem reduced {taken finished : Finset Nat} {tr' : List (Nat × Event Nat ListKey Msg)}
    {s' : Lists.State ((workers conf blkDir).parties (cmds requestorIP lostBlkName coef stripe))}
    (hruns' : Lists.Runs _
      ((workers conf blkDir).partiesStart (cmds requestorIP lostBlkName coef stripe)) tr' s')
    (hsame : Lists.Jobs.SameEvents (workers conf blkDir) (cmds requestorIP lostBlkName coef stripe)
      taken finished tr tr') :
    conf.packetSize % 8 = 0 ∨ conf.packetCnt = 0 →
      Reduced conf blkDir requestorIP lostBlkName coef stripe tr (s'.loc stripe.length).sent := by
  intro hwords
  constructor
  case pushes =>
    intro i h c m hmem
    rcases exists_node hsame hmem (fun heq => nomatch heq) (fun heq => nomatch heq) with
      ⟨j, hj, rfl, hin⟩
    rcases of_push hk hlt hruns' hin with ⟨-, hhost, hkey⟩
    rcases hj.lt_or_eq with hhelper | rfl
    · rw [writeKey_helper hhelper] at hkey
      injection hkey with _ hid
      subst hid
      exact ⟨hhelper, rfl, hhost.trans (writeIP_helper hlt hhelper)⟩
    · rw [writeKey_requestor] at hkey
      cases hkey
  case pops =>
    intro i h c m hmem
    rcases exists_node hsame hmem (fun heq => nomatch heq) (fun heq => nomatch heq) with
      ⟨j, hj, rfl, hin⟩
    rcases of_pop hk hlt hruns' hin with ⟨-, c', hc, hparent, hhost, hkey⟩
    injection hkey with _ hid
    subst hid
    exact ⟨hhost, j, hj, (pulled_iff hk hlt hj).2 ⟨hc, hparent.symm⟩, rfl⟩
  case packets =>
    have hpushed := pushed_key hk hlt hruns' (Nat.le_refl stripe.length)
    rw [writeIP_requestor hlt, writeKey_requestor] at hpushed
    rw [hsame.pushed requestorIP (.blk lostBlkName) (fun heq => nomatch heq), hpushed]
    refine List.map_congr_left fun p hp => ?_
    have hp := List.mem_range.1 hp
    rcases hwords with hwords | hnone
    · exact packet_requestor hk hlt hruns' hwords hp
    · have hle := (node_of_party hk hlt hruns' (Nat.le_refl stripe.length)).sent_le
      omega

end Workers

end Run

/-! ## When a tree reduces -/

section Main

variable {conf : PacketConfig} {k : Nat}

/-- Whole words and packets that can be logged are enough. -/
theorem reduces_of_words (hk : 1 ≤ k) (hlt : k + 1 < 2 ^ 30) (hlog : conf.packetCnt ≠ 3) :
    conf.packetSize % 8 = 0 ∨ conf.packetCnt = 0 → Reduces conf k := by
  intro hwords
  constructor
  case indices => exact indices_spec hk hlt
  case paths => exact existsUnique_path hk hlt
  case bounded =>
    refine ⟨(k + 1) * (3 * conf.packetCnt + k * (2 * conf.packetCnt + 1)) + 2 * (k + 1),
      fun blkDir requestorIP lostBlkName coef stripe hlength tr s hruns => ?_⟩
    subst hlength
    exact bounded hk hlt hruns
  case runs =>
    rintro blkDir requestorIP lostBlkName coef stripe rfl hnames tr s hruns
    rcases exists_parties hruns with ⟨taken, finished, tr', s', hruns', hs, hsame⟩
    refine ⟨(s'.loc stripe.length).sent,
      (node_of_party hk hlt hruns' (Nat.le_refl stripe.length)).sent_le,
      reduced hk hlt hruns' hsame hwords, fun hstuck => ?_⟩
    have hall := finished_of_stuck hk hlt hruns' hs hlog hstuck
    refine ⟨?_, hs.idle fun i hi => hall i (Nat.le_of_lt_succ (by rwa [length_cmds] at hi))⟩
    exact (hs.done _ (hall _ (Nat.le_refl _)) _ (getElem?_cmds (Nat.le_refl _))).sent

/-- Helpers of which only the first one counts. -/
def firstHelper (k : Nat) : List (Nat × Str) :=
  (List.range k).map fun i => (i, if i = 0 then ['a'] else ['b'])

def firstCoefficient : TreeMap Str GF256 :=
  (∅ : TreeMap Str GF256).insert ['a'] 1

theorem length_firstHelper (k : Nat) : (firstHelper k).length = k := by
  rw [firstHelper, List.length_map, List.length_range]

theorem getD_firstHelper {i : Nat} : i < k →
    (firstHelper k).getD i (0, []) = (i, if i = 0 then ['a'] else ['b']) := by
  intro hi
  rw [firstHelper, List.getD_eq_getElem?_getD, List.getElem?_map, List.getElem?_range hi]
  rfl

theorem scaled_firstHelper {i : Nat} (hi : i < k) {x : Int} (h0 : 0 ≤ x) :
    x < conf.packetSize →
      scaled conf (fun _ _ => 1) k [] firstCoefficient (firstHelper k) i 0 x =
        if i = 0 then 1 else 0 := by
  intro hx
  have hcmd : nodeCmd k [] firstCoefficient (firstHelper k) i =
      PPR.helperCmd k [] firstCoefficient (firstHelper k) i (if i = 0 then ['a'] else ['b']) := by
    rw [nodeCmd, if_pos (by rw [length_firstHelper]; exact hi), getD_firstHelper hi]
  have hread : readPacketFromDisk (fun _ => 1) zeros conf.packetSize 0 x = 1 :=
    if_pos ⟨h0, by omega⟩
  have hname : (nodeCmd k [] firstCoefficient (firstHelper k) i).localBlkName ≠ [] := by
    rw [hcmd]
    show (if i = 0 then ['a'] else ['b'] : Str) ≠ []
    split
    · exact List.cons_ne_nil _ _
    · exact List.cons_ne_nil _ _
  rw [scaled, own, if_neg hname, readPkt, RSUtil.multiply, if_pos ⟨h0, hx⟩, Nat.zero_mul, hread,
    mul_one, hcmd]
  show firstCoefficient.getD (if i = 0 then ['a'] else ['b']) 0 = _
  by_cases hfirst : i = 0
  · rw [if_pos hfirst, if_pos hfirst, firstCoefficient, TreeMap.getD_insert_self]
  · rw [if_neg hfirst, if_neg hfirst, firstCoefficient, TreeMap.getD_insert, if_neg (by decide)]
    rfl

theorem nonempty_firstHelper : ∀ it ∈ firstHelper k, it.2 ≠ [] := by
  intro it hit
  rcases List.mem_map.1 hit with ⟨i, -, rfl⟩
  show (if i = 0 then ['a'] else ['b'] : Str) ≠ []
  split
  · exact List.cons_ne_nil _ _
  · exact List.cons_ne_nil _ _

/-- A tree that reduces has come to an end at some time. -/
theorem exists_finished (hk : 1 ≤ k) (hlt : k + 1 < 2 ^ 30) : Reduces conf k →
    ∃ (tr' : List (Nat × Event Nat ListKey Msg))
      (s' : Lists.State ((workers conf fun _ _ => 1).parties
        (cmds k [] firstCoefficient (firstHelper k)))),
      Lists.Runs _ ((workers conf fun _ _ => 1).partiesStart
        (cmds k [] firstCoefficient (firstHelper k))) tr' s' ∧
      (∀ i ≤ k, Done conf (nodeCmd k [] firstCoefficient (firstHelper k) i) (s'.loc i)) ∧
      (List.range conf.packetCnt).map (packet conf (s'.loc k)) =
        (List.range conf.packetCnt).map
          (sum conf (fun _ _ => 1) k [] firstCoefficient (firstHelper k)) := by
  intro hreduces
  have hlength := length_firstHelper k
  rcases hreduces.bounded with ⟨n, hbound⟩
  have hend : ∃ tr s, Lists.Runs _ (start conf (fun _ _ => 1) k [] firstCoefficient
      (firstHelper k)) tr s ∧ ∀ i e s', ¬ Lists.Step _ s i e s' :=
    Lists.Runs.exists_stuck fun tr s hruns => hbound _ _ _ _ _ hlength tr s hruns
  rcases hend with ⟨tr, s, hruns, hstuck⟩
  rcases hreduces.runs _ _ _ _ _ hlength nonempty_firstHelper tr s hruns with
    ⟨m, -, hreduced, hdone⟩
  rcases hdone hstuck with ⟨rfl, hidle⟩
  rcases exists_parties hruns with ⟨taken, finished, tr', s', hruns', hs, hsame⟩
  have hfinished := hs.finished_of_idle hidle
  rw [length_cmds, hlength] at hfinished
  have hall : ∀ i ≤ k, Done conf (nodeCmd k [] firstCoefficient (firstHelper k) i) (s'.loc i) :=
    fun i hi => hs.done i (hfinished i (Nat.lt_succ_of_le hi)) _
      (getElem?_cmds (hi.trans_eq hlength.symm))
  refine ⟨tr', s', hruns', hall, ?_⟩
  have hpushed := pushed_key (hlength.symm ▸ hk) (hlength.symm ▸ hlt) hruns'
    (Nat.le_refl (firstHelper k).length)
  rw [writeIP_requestor (hlength.symm ▸ hlt), writeKey_requestor,
    ← hsame.pushed k (.blk []) (fun heq => nomatch heq), hreduced.packets, hlength,
    (hall k (Nat.le_refl k)).sent] at hpushed
  exact hpushed.symm

/-- Of three packets helper 0 cannot read the second one, and bytes behind the last word are not
xored. -/
theorem words_of_reduces (hk : 1 ≤ k) (hlt : k + 1 < 2 ^ 30) : Reduces conf k →
    conf.packetCnt ≠ 3 ∧ (conf.packetSize % 8 = 0 ∨ conf.packetCnt = 0) := by
  intro hreduces
  have hlength := length_firstHelper k
  rcases exists_finished hk hlt hreduces with ⟨tr', s', hruns', hall, hpackets⟩
  have hname : (nodeCmd k [] firstCoefficient (firstHelper k) 0).localBlkName ≠ [] := by
    rw [nodeCmd, if_pos (by rw [hlength]; exact hk), getD_firstHelper hk]
    exact List.cons_ne_nil _ _
  constructor
  · intro hthree
    have hread := read_le_one hthree hname (step_of_party hruns' (Nat.zero_le _))
    rw [(hall 0 (Nat.zero_le k)).read] at hread
    omega
  · by_contra hnot
    push Not at hnot
    rcases hnot with ⟨hrest, hsome⟩
    have hzero : 0 < conf.packetCnt := Nat.pos_of_ne_zero hsome
    -- the last byte of the first packet
    have hlast : ((conf.packetSize - 1 : Nat) : Int) < conf.packetSize := by omega
    have hfirst := List.map_inj_left.1 hpackets 0 (List.mem_range.2 hzero)
    have hbytes : bytesOf ((s'.loc k).diskPkts 0) conf.packetSize =
        bytesOf (fun x => (Finset.range (firstHelper k).length).sum fun c =>
          scaled conf (fun _ _ => 1) k [] firstCoefficient (firstHelper k) c 0 x)
          conf.packetSize := by
      injection hfirst
    have hbyte := bytesOf_inj hbytes (Int.natCast_nonneg _) hlast
    have hsent : 0 < (s'.loc (firstHelper k).length).sent := by
      rw [hlength, (hall k (Nat.le_refl k)).sent]
      exact hzero
    have hdisk := bytes_sent (hlength.symm ▸ hk) (hlength.symm ▸ hlt) hruns'
      (Nat.le_refl (firstHelper k).length) hsent (Int.natCast_nonneg _) hlast
    have hnothing : scaled conf (fun _ _ => 1) k [] firstCoefficient (firstHelper k) k 0
        (conf.packetSize - 1 : Nat) = 0 := by
      rw [scaled, nodeCmd, if_neg (by rw [hlength]; exact Nat.lt_irrefl k)]
      rfl
    have hone : ((Finset.range k).sum fun c => scaled conf (fun _ _ => 1) k [] firstCoefficient
        (firstHelper k) c 0 (conf.packetSize - 1 : Nat)) = 1 := by
      rw [Finset.sum_congr rfl fun c hc => scaled_firstHelper (Finset.mem_range.1 hc)
        (Int.natCast_nonneg _) hlast, Finset.sum_ite_eq', if_pos (Finset.mem_range.2 hk)]
    rw [hlength, hnothing, if_neg (by omega), add_zero] at hdisk
    rw [hlength, hdisk, hone] at hbyte
    exact absurd hbyte zero_ne_one

/-- A tree reduces exactly if packets are made of whole words, unless there are none, and every
packet can be logged. -/
theorem reduces_iff (hk : 1 ≤ k) (hlt : k + 1 < 2 ^ 30) :
    Reduces conf k ↔
      conf.packetCnt ≠ 3 ∧ (conf.packetSize % 8 = 0 ∨ conf.packetCnt = 0) := by
  constructor
  · exact words_of_reduces hk hlt
  · exact fun h => reduces_of_words hk hlt h.1 h.2

/-- Five helpers. -/
theorem reduces_five : Reduces ⟨4, 16, 0⟩ 5 :=
  (reduces_iff (by decide) (by decide)).2 (by decide)

/-- One helper and three packets. -/
theorem not_reduces_three : ¬ Reduces ⟨3, 8, 0⟩ 1 := by
  intro hreduces
  have hlog := (words_of_reduces (by decide) (by decide) hreduces).1
  exact absurd rfl hlog

end Main

end PPRPull

end CoRD
