import Mathlib.Data.List.Sort
import CoRD.Network.Lists
import CoRD.Util.Bisect
import CoRD.Util.Groups

/-!
# Coordinator — the way of a command to its helper

The handler of a request finds the helper of a command in the table `_ip2Ctx`, puts the position in
front of the command, and pushes it to one of the queues `disQ:0`, `disQ:1`, and so on.  Each queue
is served by a thread, which takes the position off again and pushes the rest to the list
`dr_cmds` of the helper at that position.

The table has the helpers in the order of the configuration, and is searched by bisection.
-/

namespace CoRD

/-! ## The tables -/

/-- `Coordinator::searchCtx`.  To the left of position zero `eId` wraps around, and the next
midpoint is outside the vector. -/
def searchCtx (arr : List Nat) (target sId eId : Nat) : Option Nat :=
  if sId < eId then
    let mid := (sId + eId) / 2
    if arr.getD mid 0 < target then searchCtx arr target (mid + 1) eId
    else if arr.getD mid 0 > target then
      if mid = 0 then none else searchCtx arr target sId (mid - 1)
    else some mid
  else some sId
termination_by eId - sId
decreasing_by all_goals omega

/-- `ECPipeInputStream::findCtx`, up to the position of the context. -/
def findCtx (slaveCtx : List Nat) (ip sid eid : Nat) : Option Nat :=
  if sid < eid then
    let mid := (sid + eid) / 2
    if slaveCtx.getD mid 0 = ip then some mid
    else if slaveCtx.getD mid 0 < ip then findCtx slaveCtx ip (mid + 1) eid
    else findCtx slaveCtx ip sid (mid - 1)
  else if slaveCtx.getD sid 0 = ip then some sid
  else none
termination_by eid - sid
decreasing_by all_goals omega

/-- Where the part of each distributor ends. -/
def rightBounder (slaveCnt distributorThreadNum : Nat) : List Nat :=
  let remaining := slaveCnt % distributorThreadNum
  (List.range' 1 (distributorThreadNum - 1)).foldl
    (fun rightBounder i => rightBounder ++ [rightBounder.getLastD 0 +
      if remaining ≤ i then slaveCnt / distributorThreadNum
      else slaveCnt / distributorThreadNum + 1])
    [if slaveCnt % distributorThreadNum = 0 then slaveCnt / distributorThreadNum
      else slaveCnt / distributorThreadNum + 1]

/-- The variables of the loop over the helpers in `Coordinator::init`. -/
structure InitState where
  idx : Nat
  rBounderId : Nat
  ip2Ctx : List (Nat × Nat)

/-- One turn of the loop. -/
def initStep (rightBounder : List Nat) (st : InitState) (it : Nat) : InitState :=
  let idx := st.idx + 1
  let rBounderId :=
    if idx > rightBounder.getD st.rBounderId 0 then st.rBounderId + 1 else st.rBounderId
  { idx := idx, rBounderId := rBounderId, ip2Ctx := st.ip2Ctx ++ [(it, rBounderId)] }

/-- `_ip2Ctx`: the helpers with the numbers of their queues. -/
def ip2Ctx (helpersIPs : List Nat) (distributorThreadNum : Nat) : List (Nat × Nat) :=
  (helpersIPs.foldl (initStep (rightBounder helpersIPs.length distributorThreadNum))
    { idx := 0, rBounderId := 0, ip2Ctx := [] }).ip2Ctx

/-! ## The search -/

theorem searchCtx_eq (arr : List Nat) (target sId eId : Nat) :
    searchCtx arr target sId eId =
      match Bisect.search (fun i => arr.getD i 0) target sId eId with
      | .hit mid => some mid
      | .stop sId => some sId
      | .below => none := by
  fun_induction searchCtx arr target sId eId with
  | case1 sId eId hlt mid hright ih =>
      rw [Bisect.search_right hlt hright]
      exact ih
  | case2 sId eId hlt mid hright hleft hzero =>
      rw [Bisect.search, if_pos hlt, if_neg hright, if_pos hleft, if_pos hzero]
  | case3 sId eId hlt mid hright hleft hpos ih =>
      rw [Bisect.search_left hlt hleft hpos]
      exact ih
  | case4 sId eId hlt mid hright hleft =>
      rw [Bisect.search_hit hlt (Nat.le_antisymm (Nat.le_of_not_lt hleft) (Nat.le_of_not_lt hright))]
  | case5 sId eId hlt =>
      rw [Bisect.search_stop hlt]

theorem findCtx_eq (slaveCtx : List Nat) (ip sid eid : Nat) :
    findCtx slaveCtx ip sid eid =
      match Bisect.search (fun i => slaveCtx.getD i 0) ip sid eid with
      | .hit mid => some mid
      | .stop sid => if slaveCtx.getD sid 0 = ip then some sid else none
      | .below => none := by
  fun_induction findCtx slaveCtx ip sid eid with
  | case1 sid eid hlt mid heq =>
      rw [Bisect.search_hit hlt heq]
  | case2 sid eid hlt mid hne hright ih =>
      rw [Bisect.search_right hlt hright]
      exact ih
  | case3 sid eid hlt mid hne hright ih =>
      have hleft : ip < slaveCtx.getD mid 0 :=
        Nat.lt_of_le_of_ne (Nat.le_of_not_lt hright) (Ne.symm hne)
      by_cases hzero : mid = 0
      · -- with `eid` at -1 or at zero the loop ends
        rw [Bisect.search, if_pos hlt, if_neg hright, if_pos hleft, if_pos hzero]
        have hsid : sid = mid := by omega
        rw [findCtx, if_neg (by omega), hsid, if_neg hne]
      · rw [Bisect.search_left hlt hleft hzero]
        exact ih
  | case4 sid eid hlt heq =>
      rw [Bisect.search_stop hlt]
      exact (if_pos heq).symm
  | case5 sid eid hlt hne =>
      rw [Bisect.search_stop hlt]
      exact (if_neg hne).symm

/-- The bisection of a list finds position `i` from the entry there. -/
def FindsAt (arr : List Nat) (i : Nat) : Prop :=
  (Bisect.search (fun i => arr.getD i 0) (arr.getD i 0) 0 (arr.length - 1)).At i

theorem searchCtx_eq_some_iff {arr : List Nat} {i : Nat} :
    searchCtx arr (arr.getD i 0) 0 (arr.length - 1) = some i ↔ FindsAt arr i := by
  rw [searchCtx_eq, FindsAt]
  cases Bisect.search (fun i => arr.getD i 0) (arr.getD i 0) 0 (arr.length - 1) <;>
    simp [Bisect.End.At]

theorem findCtx_eq_some_iff {arr : List Nat} {i : Nat} :
    findCtx arr (arr.getD i 0) 0 (arr.length - 1) = some i ↔ FindsAt arr i := by
  rw [findCtx_eq, FindsAt]
  cases Bisect.search (fun i => arr.getD i 0) (arr.getD i 0) 0 (arr.length - 1) with
  | hit mid => simp [Bisect.End.At]
  | below => simp [Bisect.End.At]
  | stop sId =>
      show (if arr.getD sId 0 = arr.getD i 0 then some sId else none) = some i ↔ sId = i
      constructor
      · intro h
        split at h
        · exact Option.some.inj h
        · cases h
      · rintro rfl
        exact if_pos rfl

/-- All entries of a list are found just when they ascend. -/
theorem findsAt_iff {arr : List Nat} :
    (∀ i < arr.length, FindsAt arr i) ↔ arr.Pairwise (· < ·) := by
  rw [List.pairwise_iff_getElem]
  have hget : ∀ i (h : i < arr.length), arr.getD i 0 = arr[i] := by
    intro i h
    simp [List.getD_eq_getElem?_getD, List.getElem?_eq_getElem h]
  constructor
  · intro hall i j hi hj hij
    have hfound : ∀ a, 0 ≤ a → a ≤ arr.length - 1 →
        (Bisect.search (fun i => arr.getD i 0) (arr.getD a 0) 0 (arr.length - 1)).At a :=
      fun a _ ha => hall a (by omega)
    rw [← hget i hi, ← hget j hj]
    exact Bisect.ascending_of_search hfound i j (Nat.zero_le i) hij (by omega)
  · intro hasc i hi
    refine Bisect.search_of_ascending (fun a b _ hab hb => ?_) i (Nat.zero_le i) (by omega)
    have ha' : a < arr.length := by omega
    have hb' : b < arr.length := by omega
    show arr.getD a 0 < arr.getD b 0
    rw [hget a ha', hget b hb']
    exact hasc a b ha' hb' hab

/-! ## The queues -/

/-- Where the part of a distributor starts, which is where the one before it ends. -/
def partStart (slaveCnt distributorThreadNum r : Nat) : Nat :=
  r * (slaveCnt / distributorThreadNum) + min r (slaveCnt % distributorThreadNum)

@[simp] theorem partStart_zero (n D : Nat) : partStart n D 0 = 0 := by
  simp [partStart]

/-- The remainder goes to the first parts. -/
theorem partStart_succ (n D r : Nat) :
    partStart n D (r + 1) = partStart n D r + (n / D + if r < n % D then 1 else 0) := by
  rw [partStart, partStart, Nat.add_mul, Nat.one_mul]
  split <;> omega

theorem partStart_monotone (n D : Nat) : Monotone (partStart n D) :=
  monotone_nat_of_le_succ fun r => (partStart_succ n D r).symm ▸ Nat.le_add_right _ _

/-- The last part ends with the last helper. -/
theorem partStart_self {n D : Nat} (hD : 1 ≤ D) : partStart n D D = n := by
  rw [partStart, Nat.min_eq_right (Nat.mod_lt n hD).le]
  exact Nat.div_add_mod n D

/-- As long as there are helpers left, the next part is not empty. -/
theorem partStart_lt_succ {n D r : Nat} (hD : 1 ≤ D) : partStart n D r < n →
    r < D ∧ partStart n D r < partStart n D (r + 1) := by
  intro hlt
  have hr : r < D := by
    by_contra hge
    have hle := partStart_monotone n D (Nat.le_of_not_lt hge)
    rw [partStart_self hD] at hle
    exact absurd hlt (Nat.not_lt.2 hle)
  refine ⟨hr, ?_⟩
  rw [partStart_succ]
  rcases Nat.eq_zero_or_pos (n / D) with hzero | hpos
  · -- with fewer helpers than threads the remainder is all there is
    have hrem : n % D = n := by
      have hall := Nat.div_add_mod n D
      rwa [hzero, Nat.mul_zero, Nat.zero_add] at hall
    have hsmall : r < n % D := by
      rw [partStart, hzero, hrem] at hlt
      rw [hrem]
      omega
    rw [if_pos hsmall]
    omega
  · omega

theorem rightBounder_eq {n D : Nat} (hD : 1 ≤ D) :
    rightBounder n D = (List.range D).map fun r => partStart n D (r + 1) := by
  have hfirst : (if n % D = 0 then n / D else n / D + 1) = partStart n D 1 := by
    rw [partStart, Nat.one_mul]
    split <;> omega
  have hloop : ∀ m, (List.range' 1 m).foldl
      (fun rightBounder i => rightBounder ++ [rightBounder.getLastD 0 +
        if n % D ≤ i then n / D else n / D + 1])
      [if n % D = 0 then n / D else n / D + 1] =
      (List.range (m + 1)).map fun r => partStart n D (r + 1) := by
    intro m
    induction m with
    | zero =>
        rw [hfirst]
        rfl
    | succ m ih =>
        have hlast : ((List.range (m + 1)).map fun r => partStart n D (r + 1)).getLastD 0 =
            partStart n D (m + 1) := by
          simp [List.range_succ]
        have hnext : partStart n D (m + 1) + (if n % D ≤ 1 + m then n / D else n / D + 1) =
            partStart n D (m + 1 + 1) := by
          rw [partStart_succ n D (m + 1), Nat.add_comm 1 m]
          split <;> split <;> omega
        rw [List.range'_concat, List.foldl_append, ih, List.foldl_cons, List.foldl_nil, hlast,
          Nat.one_mul, hnext, List.range_succ (n := m + 1), List.map_append]
        rfl
  have hsub : D - 1 + 1 = D := Nat.sub_add_cancel hD
  rw [rightBounder, hloop, hsub]

theorem getD_rightBounder {n D r : Nat} (hr : r < D) :
    (rightBounder n D).getD r 0 = partStart n D (r + 1) := by
  rw [rightBounder_eq (Nat.one_le_of_lt hr)]
  simp [List.getD_eq_getElem?_getD, List.getElem?_range hr]

/-- Before a turn of the loop, when the helpers in `l` have got their queues. -/
structure Assigned (n D : Nat) (l : List Nat) (st : InitState) : Prop where
  idx : st.idx = l.length
  lt : st.rBounderId < D
  start_le : partStart n D st.rBounderId ≤ st.idx
  le_bound : st.idx ≤ partStart n D (st.rBounderId + 1)
  names : st.ip2Ctx.map Prod.fst = l
  served : ∀ e ∈ st.ip2Ctx, e.2 < D
  runs : Groups.Runs (partStart n D) (st.ip2Ctx.map Prod.snd)

theorem assigned_init {n D : Nat} (hD : 1 ≤ D) :
    Assigned n D [] { idx := 0, rBounderId := 0, ip2Ctx := [] } where
  idx := rfl
  lt := hD
  start_le := (partStart_zero n D).le
  le_bound := Nat.zero_le _
  names := rfl
  served := fun e he => absurd he List.not_mem_nil
  runs := fun i c hi => by cases hi

/-- A turn of the loop, with a helper left. -/
theorem Assigned.step {n D : Nat} {l : List Nat} {st : InitState} (h : Assigned n D l st)
    (it : Nat) :
    l.length < n → Assigned n D (l ++ [it]) (initStep (rightBounder n D) st it) := by
  intro hn
  have hD : 1 ≤ D := Nat.one_le_of_lt h.lt
  have hlen : (st.ip2Ctx.map Prod.snd).length = l.length := by
    rw [List.length_map, ← h.names, List.length_map]
  let r := (initStep (rightBounder n D) st it).rBounderId
  -- the helper lies in the part of the queue that it gets
  have hpart : r < D ∧ partStart n D r ≤ l.length ∧ l.length < partStart n D (r + 1) := by
    have hidx := h.idx
    have hstart := h.start_le
    show (if st.idx + 1 > (rightBounder n D).getD st.rBounderId 0 then st.rBounderId + 1
      else st.rBounderId) < D ∧ _
    simp only [r, initStep, getD_rightBounder h.lt]
    split
    · rename_i hgt
      -- the part is full, so the next one starts here
      have hfull : partStart n D (st.rBounderId + 1) = l.length := by
        have hbound := h.le_bound
        omega
      rw [← hfull] at hn
      have hnext := partStart_lt_succ hD hn
      exact ⟨hnext.1, hfull.le, hfull.symm.trans_lt hnext.2⟩
    · exact ⟨h.lt, by omega, by omega⟩
  have hidx' : (initStep (rightBounder n D) st it).idx = l.length + 1 :=
    congrArg (· + 1) h.idx
  exact
    { idx := by rw [hidx', List.length_append, List.length_singleton]
      lt := hpart.1
      start_le := by
        rw [hidx']
        exact Nat.le_succ_of_le hpart.2.1
      le_bound := by
        rw [hidx']
        exact hpart.2.2
      names := by
        rw [initStep, List.map_append, h.names]
        rfl
      served := by
        intro e he
        rcases List.mem_append.1 he with hold | hnew
        · exact h.served e hold
        · rw [List.mem_singleton.1 hnew]
          exact hpart.1
      runs := by
        rw [initStep, List.map_append]
        exact h.runs.concat (hlen ▸ hpart.2.1) (hlen ▸ hpart.2.2) }

/-- The loop over helpers that are not more than `n`. -/
theorem assigned_foldl {n D : Nat} (hD : 1 ≤ D) (l : List Nat) : l.length ≤ n →
    Assigned n D l (l.foldl (initStep (rightBounder n D))
      { idx := 0, rBounderId := 0, ip2Ctx := [] }) := by
  intro hlen
  induction l using List.reverseRecOn with
  | nil => exact assigned_init hD
  | append_singleton l it ih =>
      rw [List.length_append, List.length_singleton] at hlen
      rw [List.foldl_append]
      exact (ih (by omega)).step it (by omega)

/-- The helpers keep their order, and their queues are served. -/
theorem ip2Ctx_spec (helpersIPs : List Nat) {D : Nat} (hD : 1 ≤ D) :
    (ip2Ctx helpersIPs D).map Prod.fst = helpersIPs ∧ ∀ e ∈ ip2Ctx helpersIPs D, e.2 < D := by
  have hall := assigned_foldl hD helpersIPs le_rfl
  exact ⟨hall.names, hall.served⟩

theorem length_rightBounder {n D : Nat} (hD : 1 ≤ D) : (rightBounder n D).length = D := by
  rw [rightBounder_eq hD, List.length_map, List.length_range]

theorem pairwise_rightBounder {n D : Nat} (hD : 1 ≤ D) :
    (rightBounder n D).Pairwise (· ≤ ·) := by
  rw [rightBounder_eq hD]
  exact List.pairwise_lt_range.map _ fun r r' hlt => partStart_monotone n D (by omega)

theorem getLast?_rightBounder {n D : Nat} (hD : 1 ≤ D) : (rightBounder n D).getLast? = some n := by
  cases D with
  | zero => cases hD
  | succ D =>
      rw [rightBounder_eq hD, List.range_succ, List.map_append, List.map_singleton,
        List.getLast?_concat, partStart_self hD]

/-- The part of a distributor has the quotient of the helpers, or one more. -/
theorem count_ip2Ctx (helpersIPs : List Nat) {D d : Nat} (hd : d < D) :
    ((ip2Ctx helpersIPs D).map Prod.snd).count d =
      helpersIPs.length / D + if d < helpersIPs.length % D then 1 else 0 := by
  have hD : 1 ≤ D := Nat.one_le_of_lt hd
  have hruns : Groups.Runs (partStart helpersIPs.length D) ((ip2Ctx helpersIPs D).map Prod.snd) :=
    (assigned_foldl hD helpersIPs le_rfl).runs
  have hlen : ((ip2Ctx helpersIPs D).map Prod.snd).length = helpersIPs.length := by
    rw [List.length_map, ← List.length_map Prod.fst, (ip2Ctx_spec helpersIPs hD).1]
  have hend : partStart helpersIPs.length D (d + 1) ≤ helpersIPs.length :=
    (partStart_monotone _ D hd).trans_eq (partStart_self hD)
  calc ((ip2Ctx helpersIPs D).map Prod.snd).count d
      = min helpersIPs.length (partStart helpersIPs.length D (d + 1)) -
          partStart helpersIPs.length D d := by
        rw [hruns.count (partStart_monotone _ D), hlen]
    _ = partStart helpersIPs.length D (d + 1) - partStart helpersIPs.length D d := by
        rw [Nat.min_eq_right hend]
    _ = helpersIPs.length / D + if d < helpersIPs.length % D then 1 else 0 := by
        rw [partStart_succ, Nat.add_sub_cancel_left]

/-- The helpers are partitioned over the distributors, in runs of nearly the same size. -/
theorem helpers_partitioned (helpersIPs : List Nat) {D : Nat} (hD : 1 ≤ D) :
    ((rightBounder helpersIPs.length D).length = D ∧
        (rightBounder helpersIPs.length D).Pairwise (· ≤ ·) ∧
        (rightBounder helpersIPs.length D).getLast? = some helpersIPs.length) ∧
      (∀ j < helpersIPs.length,
        ((helpersIPs.take j).foldl (initStep (rightBounder helpersIPs.length D))
          ⟨0, 0, []⟩).rBounderId < (rightBounder helpersIPs.length D).length) ∧
      ((ip2Ctx helpersIPs D).map Prod.fst = helpersIPs ∧
        ∀ d ∈ (ip2Ctx helpersIPs D).map Prod.snd, d < D) ∧
      Groups.Contiguous ((ip2Ctx helpersIPs D).map Prod.snd) ∧
      ∀ d < D, ∀ d' < D, ((ip2Ctx helpersIPs D).map Prod.snd).count d ≤
        ((ip2Ctx helpersIPs D).map Prod.snd).count d' + 1 := by
  have hall := assigned_foldl hD helpersIPs le_rfl
  refine ⟨⟨length_rightBounder hD, pairwise_rightBounder hD, getLast?_rightBounder hD⟩,
    fun j _ => ?_, ⟨hall.names, fun d hd => ?_⟩, hall.runs.contiguous (partStart_monotone _ D),
    fun d hd d' hd' => ?_⟩
  · rw [length_rightBounder hD]
    exact (assigned_foldl hD (helpersIPs.take j) (List.length_take_le' _ _)).lt
  · rcases List.mem_map.1 hd with ⟨e, he, rfl⟩
    exact hall.served e he
  · rw [count_ip2Ctx helpersIPs hd, count_ip2Ctx helpersIPs hd']
    split <;> split <;> omega

/-- Five helpers and three distributors. -/
theorem helpers_partitioned_five :
    ip2Ctx [10, 11, 12, 13, 14] 3 = [(10, 0), (11, 0), (12, 1), (13, 1), (14, 2)] ∧
      Groups.Contiguous ((ip2Ctx [10, 11, 12, 13, 14] 3).map Prod.snd) :=
  ⟨by decide, (helpers_partitioned [10, 11, 12, 13, 14] (by decide : 1 ≤ 3)).2.2.2.1⟩

/-! ## Handlers and distributors -/

/-- The lists of commands. -/
inductive CmdKey where
  | disQ (d : Nat)
  | drCmds
  deriving DecidableEq

/-- A command with the position of its helper in front, and without. -/
inductive CmdMsg (Cmd : Type) where
  | indexed (idx : Nat) (cmd : Cmd)
  | cmd (cmd : Cmd)
  deriving DecidableEq

/-- The handler of the requests, and the threads of `cmdDistributor`. -/
inductive CmdParty (distributorThreadNum : Nat) where
  | handler
  | distributor (d : Fin distributorThreadNum)
  deriving DecidableEq

section Routing

open Lists (Event)

variable {Cmd : Type} (coordinatorIP : Nat) (helpersIPs : List Nat) (distributorThreadNum : Nat)

/-- The handler pushes the next of its commands to the queue of the helper. -/
inductive HandlerStep : List (Nat × Cmd) → Event Nat CmdKey (CmdMsg Cmd) → List (Nat × Cmd) →
    Prop where
  | push {ip idx : Nat} {cmd : Cmd} {cmds : List (Nat × Cmd)} {entry : Nat × Nat}
      (hidx : searchCtx helpersIPs ip 0 (helpersIPs.length - 1) = some idx)
      (hentry : (ip2Ctx helpersIPs distributorThreadNum)[idx]? = some entry) :
      HandlerStep ((ip, cmd) :: cmds)
        (.push coordinatorIP (.disQ entry.2) (.indexed idx cmd)) cmds

/-- One step of `Coordinator::cmdDistributor`: it gets the next command, or passes it on. -/
inductive DistributorStep (d : Nat) : Option (Nat × Cmd) → Event Nat CmdKey (CmdMsg Cmd) →
    Option (Nat × Cmd) → Prop where
  | pop (idx : Nat) (cmd : Cmd) :
      DistributorStep d none (.pop coordinatorIP (.disQ d) (.indexed idx cmd)) (some (idx, cmd))
  | push {idx : Nat} {cmd : Cmd} {entry : Nat × Nat}
      (hentry : (ip2Ctx helpersIPs distributorThreadNum)[idx]? = some entry) :
      DistributorStep d (some (idx, cmd)) (.push entry.1 .drCmds (.cmd cmd)) none

/-- The handler and the distributors. -/
def cmdSystem (Cmd : Type) :
    Lists.System (CmdParty distributorThreadNum) Nat CmdKey (CmdMsg Cmd) where
  Loc
    | .handler => List (Nat × Cmd)
    | .distributor _ => Option (Nat × Cmd)
  step
    | .handler => HandlerStep coordinatorIP helpersIPs distributorThreadNum
    | .distributor d => DistributorStep coordinatorIP helpersIPs distributorThreadNum d

/-- All queues are empty, and the handler is about to send `cmds`. -/
def cmdStart (cmds : List (Nat × Cmd)) :
    Lists.State (cmdSystem coordinatorIP helpersIPs distributorThreadNum Cmd) where
  loc
    | .handler => cmds
    | .distributor _ => none
  lists _ _ := []

/-- The commands for one helper. -/
def cmdsFor (ip : Nat) (cmds : List (Nat × Cmd)) : List (CmdMsg Cmd) :=
  (cmds.filter fun c => c.1 = ip).map fun c => .cmd c.2

/-- What should have become of the commands: those that are on their way stand in queues that are
served, every helper has got the first of its own, and when nothing moves any more, all of them. -/
structure Routed (cmds : List (Nat × Cmd))
    (tr : List (CmdParty distributorThreadNum × Event Nat CmdKey (CmdMsg Cmd)))
    (s : Lists.State (cmdSystem coordinatorIP helpersIPs distributorThreadNum Cmd)) : Prop where
  served : ∀ h k m, (.handler, .push h k m) ∈ tr →
    ∃ d < distributorThreadNum, h = coordinatorIP ∧ k = .disQ d
  delivered : ∀ ip, Lists.pushed ip .drCmds (tr.map Prod.snd) <+: cmdsFor ip cmds
  complete : (∀ i e s', ¬ Lists.Step (cmdSystem coordinatorIP helpersIPs distributorThreadNum Cmd)
    s i e s') → ∀ ip, Lists.pushed ip .drCmds (tr.map Prod.snd) = cmdsFor ip cmds

end Routing

/-! ## In ascending order all commands arrive -/

section Ascending

open Lists (Event)

variable {Cmd : Type} {coordinatorIP : Nat} {helpersIPs : List Nat} {D : Nat}

/-- The helper at a position. -/
theorem ip2Ctx_get (hD : 1 ≤ D) {idx : Nat} {entry : Nat × Nat} :
    (ip2Ctx helpersIPs D)[idx]? = some entry → helpersIPs[idx]? = some entry.1 ∧ entry.2 < D := by
  intro hentry
  obtain ⟨hnames, hqueues⟩ := ip2Ctx_spec helpersIPs hD
  refine ⟨?_, hqueues entry (List.mem_of_getElem? hentry)⟩
  rw [← hnames, List.getElem?_map, hentry]
  rfl

/-- A helper of the list has an entry. -/
theorem exists_entry (hD : 1 ≤ D) {idx ip : Nat} :
    helpersIPs[idx]? = some ip → ∃ d, (ip2Ctx helpersIPs D)[idx]? = some (ip, d) := by
  intro hip
  rw [← (ip2Ctx_spec helpersIPs hD).1, List.getElem?_map] at hip
  obtain ⟨entry, hentry, rfl⟩ := Option.map_eq_some_iff.1 hip
  exact ⟨entry.2, hentry⟩

/-- What a queue entry becomes in the list of a helper. -/
def route (helpersIPs : List Nat) (ip : Nat) : CmdMsg Cmd → Option (CmdMsg Cmd)
  | .indexed idx cmd => if helpersIPs[idx]? = some ip then some (.cmd cmd) else none
  | .cmd _ => none

/-- What a distributor holds for a helper. -/
def held (helpersIPs : List Nat) (ip : Nat) : Option (Nat × Cmd) → List (CmdMsg Cmd)
  | some c => (route helpersIPs ip (.indexed c.1 c.2)).toList
  | none => []

/-- A distributor passes on what it gets, in order. -/
theorem distributor_run (hD : 1 ≤ D) {d : Nat} {es : List (Event Nat CmdKey (CmdMsg Cmd))}
    {l : Option (Nat × Cmd)} (ip : Nat) :
    Lists.LocalRuns (DistributorStep coordinatorIP helpersIPs D d) none es l →
      Lists.pushed ip .drCmds es ++ held helpersIPs ip l =
        (Lists.popped coordinatorIP (.disQ d) es).filterMap (route helpersIPs ip) := by
  intro hruns
  induction hruns with
  | refl => rfl
  | snoc _ hstep ih =>
      rw [Lists.pushed_append, Lists.popped_append, List.filterMap_append, ← ih]
      cases hstep with
      | pop idx cmd =>
          rw [Lists.popped_pop_self, List.filterMap_cons]
          cases hroute : route helpersIPs ip (.indexed idx cmd) <;>
            simp [held, hroute, Lists.pushed]
      | @push idx cmd entry hentry =>
          obtain ⟨hip, -⟩ := ip2Ctx_get hD hentry
          by_cases heq : entry.1 = ip
          · subst heq
            simp [held, route, hip, Lists.pushed, Lists.popped]
          · simp [held, route, hip, heq, Lists.pushed, Lists.popped]

/-- What a distributor holds it has popped. -/
theorem distributor_holds {d : Nat} {es : List (Event Nat CmdKey (CmdMsg Cmd))}
    {l : Option (Nat × Cmd)} {c : Nat × Cmd} :
    Lists.LocalRuns (DistributorStep coordinatorIP helpersIPs D d) none es l → l = some c →
      .indexed c.1 c.2 ∈ Lists.popped coordinatorIP (.disQ d) es := by
  intro hruns hl
  cases hruns with
  | refl => cases hl
  | snoc _ hstep =>
      cases hstep with
      | pop idx cmd =>
          cases hl
          rw [Lists.popped_append, Lists.popped_pop_self]
          exact List.mem_append_right _ List.mem_cons_self
      | push hentry => cases hl

/-- A distributor pops its own queue only, and pushes commands to helpers. -/
def DistributorUses (coordinatorIP d : Nat) : Event Nat CmdKey (CmdMsg Cmd) → Prop
  | .internal => False
  | .pop h k _ => h = coordinatorIP ∧ k = .disQ d
  | .push _ k _ => k = .drCmds

theorem distributor_uses {d : Nat} {es : List (Event Nat CmdKey (CmdMsg Cmd))}
    {l : Option (Nat × Cmd)} :
    Lists.LocalRuns (DistributorStep coordinatorIP helpersIPs D d) none es l →
      ∀ e ∈ es, DistributorUses coordinatorIP d e := by
  intro hruns
  refine (hruns.invariant (P := fun _ => True) trivial fun l e l' _ hstep => ⟨trivial, ?_⟩).2
  cases hstep with
  | pop idx cmd => exact ⟨rfl, rfl⟩
  | push hentry => rfl

/-- The entry of a command in queue `d`. -/
def toQueue (helpersIPs : List Nat) (D d : Nat) (c : Nat × Cmd) : Option (CmdMsg Cmd) :=
  match (ip2Ctx helpersIPs D)[helpersIPs.idxOf c.1]? with
  | some entry => if entry.2 = d then some (.indexed (helpersIPs.idxOf c.1) c.2) else none
  | none => none

/-- What the handler has pushed, if the search finds every helper. -/
theorem handler_run (hasc : helpersIPs.Pairwise (· < ·)) {cmds l : List (Nat × Cmd)}
    {es : List (Event Nat CmdKey (CmdMsg Cmd))} (hcmds : ∀ c ∈ cmds, c.1 ∈ helpersIPs) :
    Lists.LocalRuns (HandlerStep coordinatorIP helpersIPs D) cmds es l →
      ∃ done, cmds = done ++ l ∧ (∀ d, Lists.pushed coordinatorIP (.disQ d) es =
        done.filterMap (toQueue helpersIPs D d)) ∧
        ∀ e ∈ es, ∃ entry ∈ ip2Ctx helpersIPs D, ∃ m, e = .push coordinatorIP (.disQ entry.2) m := by
  intro hruns
  induction hruns with
  | refl =>
      exact ⟨[], rfl, fun _ => rfl, fun e he => absurd he List.not_mem_nil⟩
  | @snoc l l' es e _ hstep ih =>
      obtain ⟨done, rfl, hpushed, huses⟩ := ih
      cases hstep with
      | @push ip idx cmd rest entry hidx hentry =>
          have hip : ip ∈ helpersIPs := hcmds (ip, cmd) (by simp)
          -- the helper is found at its position
          have hlt := List.idxOf_lt_length_of_mem hip
          have hget : helpersIPs.getD (helpersIPs.idxOf ip) 0 = ip := by
            simp [List.getD_eq_getElem?_getD, List.getElem?_eq_getElem hlt]
          have hfound := searchCtx_eq_some_iff.2 (findsAt_iff.2 hasc _ hlt)
          rw [hget, hidx] at hfound
          cases hfound
          refine ⟨done ++ [(ip, cmd)], by simp, fun d => ?_, fun e he => ?_⟩
          · rw [Lists.pushed_append, hpushed, List.filterMap_append]
            congr 1
            by_cases hd : entry.2 = d
            · simp [toQueue, hentry, hd, Lists.pushed]
            · simp [toQueue, hentry, hd, Lists.pushed]
          · rcases List.mem_append.1 he with hold | hnew
            · exact huses e hold
            · rw [List.mem_singleton.1 hnew]
              exact ⟨entry, List.mem_of_getElem? hentry, _, rfl⟩

/-- The commands for a helper all go through its queue. -/
theorem route_queue (hD : 1 ≤ D) {ip : Nat} {entry : Nat × Nat} {done : List (Nat × Cmd)} {d : Nat}
    (hdone : ∀ c ∈ done, c.1 ∈ helpersIPs)
    (hentry : (ip2Ctx helpersIPs D)[helpersIPs.idxOf ip]? = some entry) :
    (done.filterMap (toQueue helpersIPs D d)).filterMap (route helpersIPs ip) =
      if entry.2 = d then cmdsFor ip done else [] := by
  induction done with
  | nil =>
      simp [cmdsFor]
  | cons c done ih =>
      have hrest := ih fun c' hc' => hdone c' (by simp [hc'])
      have hlt := List.idxOf_lt_length_of_mem (hdone c (by simp))
      have hget : helpersIPs[helpersIPs.idxOf c.1]? = some c.1 := by
        simp [List.getElem?_eq_getElem hlt]
      obtain ⟨d', hd'⟩ := exists_entry (D := D) hD hget
      by_cases hc : c.1 = ip
      · rw [hc, hentry] at hd'
        subst hc
        by_cases hd : entry.2 = d
        · rw [if_pos hd] at hrest ⊢
          simp only [List.filterMap_cons, toQueue, hentry, hd, if_true, route, hget]
          rw [hrest]
          simp [cmdsFor]
        · rw [if_neg hd] at hrest ⊢
          simp only [List.filterMap_cons, toQueue, hentry, hd, if_false]
          exact hrest
      · have hcmds : cmdsFor ip (c :: done) = cmdsFor ip done := by
          simp [cmdsFor, hc]
        rw [hcmds, ← hrest]
        by_cases hd : d' = d
        · simp only [List.filterMap_cons, toQueue, hd', hd, if_true, route, hget,
            Option.some.injEq, hc, if_false]
        · simp only [List.filterMap_cons, toQueue, hd', hd, if_false]

section Run

variable {cmds : List (Nat × Cmd)}
  {tr : List (CmdParty D × Event Nat CmdKey (CmdMsg Cmd))}
  {s : Lists.State (cmdSystem coordinatorIP helpersIPs D Cmd)}

theorem distributor_local
    (hruns : Lists.Runs _ (cmdStart coordinatorIP helpersIPs D cmds) tr s) (d : Fin D) :
    Lists.LocalRuns (DistributorStep coordinatorIP helpersIPs D d) none
      (Lists.eventsOf (.distributor d) tr) (s.loc (.distributor d)) :=
  hruns.toLocal (.distributor d)

theorem handler_local (hruns : Lists.Runs _ (cmdStart coordinatorIP helpersIPs D cmds) tr s) :
    Lists.LocalRuns (HandlerStep coordinatorIP helpersIPs D) cmds
      (Lists.eventsOf .handler tr) (s.loc .handler) :=
  hruns.toLocal .handler

/-- The commands that the handler has not sent yet. -/
def unsent (s : Lists.State (cmdSystem coordinatorIP helpersIPs D Cmd)) : List (Nat × Cmd) :=
  s.loc .handler

/-- What a distributor holds. -/
def holding (s : Lists.State (cmdSystem coordinatorIP helpersIPs D Cmd)) (d : Fin D) :
    Option (Nat × Cmd) :=
  s.loc (.distributor d)

/-- The queue of a distributor is filled by the handler and emptied by the distributor. -/
theorem queue_fifo (hasc : helpersIPs.Pairwise (· < ·)) (hcmds : ∀ c ∈ cmds, c.1 ∈ helpersIPs)
    (hruns : Lists.Runs _ (cmdStart coordinatorIP helpersIPs D cmds) tr s) :
    ∃ done, cmds = done ++ unsent s ∧ ∀ d : Fin D,
      Lists.popped coordinatorIP (.disQ d) (Lists.eventsOf (.distributor d) tr) ++
        s.lists coordinatorIP (.disQ d) = done.filterMap (toQueue helpersIPs D d) := by
  obtain ⟨done, hdone, hpushed, huses⟩ := handler_run hasc hcmds (handler_local hruns)
  refine ⟨done, hdone, fun d => ?_⟩
  have hfifo := hruns.fifo coordinatorIP (.disQ d)
  have hpush : ∀ i : CmdParty D, i ≠ .handler →
      Lists.pushed coordinatorIP (.disQ d) (Lists.eventsOf i tr) = [] := by
    intro i hi
    refine Lists.pushed_eq_nil fun m hm => ?_
    cases i with
    | handler => exact hi rfl
    | distributor d' => cases distributor_uses (distributor_local hruns d') _ hm
  have hpop : ∀ i : CmdParty D, i ≠ .distributor d →
      Lists.popped coordinatorIP (.disQ d) (Lists.eventsOf i tr) = [] := by
    intro i hi
    refine Lists.popped_eq_nil fun m hm => ?_
    cases i with
    | handler =>
        obtain ⟨_, _, _, heq⟩ := huses _ hm
        cases heq
    | distributor d' =>
        obtain ⟨-, hkey⟩ := distributor_uses (distributor_local hruns d') _ hm
        exact hi (congrArg _ (Fin.ext (CmdKey.disQ.inj hkey).symm))
  have hempty : (cmdStart coordinatorIP helpersIPs D cmds).lists coordinatorIP (.disQ d) = [] := rfl
  rw [Lists.pushed_eq_of_producer hpush, Lists.popped_eq_of_consumer hpop, hpushed d, hempty,
    List.nil_append] at hfifo
  exact hfifo

/-- What a distributor has passed on to a helper, what it holds, and what waits in its queue: the
commands for the helper, if they go through this queue. -/
theorem queue_of_helper (hD : 1 ≤ D) (hasc : helpersIPs.Pairwise (· < ·))
    (hcmds : ∀ c ∈ cmds, c.1 ∈ helpersIPs)
    (hruns : Lists.Runs _ (cmdStart coordinatorIP helpersIPs D cmds) tr s) :
    ∃ done, cmds = done ++ unsent s ∧
      ∀ ip entry (d : Fin D), (ip2Ctx helpersIPs D)[helpersIPs.idxOf ip]? = some entry →
        Lists.pushed ip .drCmds (Lists.eventsOf (.distributor d) tr) ++
          held helpersIPs ip (holding s d) ++
            (s.lists coordinatorIP (.disQ d)).filterMap (route helpersIPs ip) =
          if entry.2 = d then cmdsFor ip done else [] := by
  obtain ⟨done, hdone, hfifo⟩ := queue_fifo hasc hcmds hruns
  refine ⟨done, hdone, fun ip entry d hentry => ?_⟩
  have hmem : ∀ c ∈ done, c.1 ∈ helpersIPs := by
    intro c hc
    exact hcmds c (hdone ▸ List.mem_append_left _ hc)
  rw [holding, distributor_run hD ip (distributor_local hruns d), ← List.filterMap_append, hfifo,
    route_queue hD hmem hentry]

/-- All entries of a queue have a helper. -/
theorem queue_valid (hasc : helpersIPs.Pairwise (· < ·)) (hcmds : ∀ c ∈ cmds, c.1 ∈ helpersIPs)
    (hruns : Lists.Runs _ (cmdStart coordinatorIP helpersIPs D cmds) tr s) (d : Fin D) :
    ∀ m ∈ Lists.popped coordinatorIP (.disQ d) (Lists.eventsOf (.distributor d) tr) ++
        s.lists coordinatorIP (.disQ d),
      ∃ idx cmd entry, m = .indexed idx cmd ∧ (ip2Ctx helpersIPs D)[idx]? = some entry := by
  intro m hm
  obtain ⟨done, -, hfifo⟩ := queue_fifo hasc hcmds hruns
  rw [hfifo] at hm
  obtain ⟨c, -, hc⟩ := List.mem_filterMap.1 hm
  unfold toQueue at hc
  split at hc
  · rename_i entry hentry
    split at hc
    · cases hc
      exact ⟨_, _, entry, rfl, hentry⟩
    · cases hc
  · cases hc

/-- The lists of a helper are filled by the distributor of its queue. -/
theorem pushed_drCmds (hD : 1 ≤ D) (hasc : helpersIPs.Pairwise (· < ·))
    (hcmds : ∀ c ∈ cmds, c.1 ∈ helpersIPs)
    (hruns : Lists.Runs _ (cmdStart coordinatorIP helpersIPs D cmds) tr s) {ip : Nat}
    (hip : ip ∈ helpersIPs) :
    ∃ done, cmds = done ++ unsent s ∧ ∃ d : Fin D,
      Lists.pushed ip .drCmds (tr.map Prod.snd) ++ held helpersIPs ip (holding s d) ++
        (s.lists coordinatorIP (.disQ d)).filterMap (route helpersIPs ip) = cmdsFor ip done := by
  obtain ⟨done, hdone, hqueue⟩ := queue_of_helper hD hasc hcmds hruns
  have hlt := List.idxOf_lt_length_of_mem hip
  have hget : helpersIPs[helpersIPs.idxOf ip]? = some ip := by
    simp [List.getElem?_eq_getElem hlt]
  obtain ⟨q, hentry⟩ := exists_entry (D := D) hD hget
  have hq : q < D := (ip2Ctx_get hD hentry).2
  refine ⟨done, hdone, ⟨q, hq⟩, ?_⟩
  have hone : Lists.pushed ip .drCmds (tr.map Prod.snd) =
      Lists.pushed ip .drCmds (Lists.eventsOf (.distributor ⟨q, hq⟩) tr) := by
    refine Lists.pushed_eq_of_producer fun i hi => ?_
    cases i with
    | handler =>
        refine Lists.pushed_eq_nil fun m hm => ?_
        obtain ⟨_, _, _, huses⟩ := handler_run hasc hcmds (handler_local hruns)
        obtain ⟨_, _, _, heq⟩ := huses _ hm
        cases heq
    | distributor d =>
        have hall := hqueue ip _ d hentry
        rw [if_neg fun heq => hi (congrArg _ (Fin.ext heq.symm)), List.append_eq_nil_iff,
          List.append_eq_nil_iff] at hall
        exact hall.1.1
  rw [hone, hqueue ip _ ⟨q, hq⟩ hentry]
  exact if_pos rfl

/-- Other hosts get no commands. -/
theorem pushed_drCmds_other (hD : 1 ≤ D) (hasc : helpersIPs.Pairwise (· < ·))
    (hcmds : ∀ c ∈ cmds, c.1 ∈ helpersIPs)
    (hruns : Lists.Runs _ (cmdStart coordinatorIP helpersIPs D cmds) tr s) {ip : Nat}
    (hip : ip ∉ helpersIPs) :
    Lists.pushed ip .drCmds (tr.map Prod.snd) = [] ∧ cmdsFor ip cmds = [] := by
  constructor
  · have hnone : ∀ i : CmdParty D, Lists.pushed ip .drCmds (Lists.eventsOf i tr) = [] := by
      intro i
      cases i with
      | handler =>
          refine Lists.pushed_eq_nil fun m hm => ?_
          obtain ⟨_, _, _, huses⟩ := handler_run hasc hcmds (handler_local hruns)
          obtain ⟨_, _, _, heq⟩ := huses _ hm
          cases heq
      | distributor d =>
          have hroute : ∀ m : CmdMsg Cmd, route helpersIPs ip m = none := by
            intro m
            cases m with
            | indexed idx cmd => exact if_neg fun hget => hip (List.mem_of_getElem? hget)
            | cmd cmd => rfl
          have hall := distributor_run hD ip (distributor_local hruns d)
          rw [List.filterMap_eq_nil_iff.2 fun m _ => hroute m, List.append_eq_nil_iff] at hall
          exact hall.1
    rw [Lists.pushed_eq_of_producer fun i _ => hnone i, hnone .handler]
  · rw [cmdsFor, List.map_eq_nil_iff, List.filter_eq_nil_iff]
    intro c hc heq
    rw [decide_eq_true_eq] at heq
    exact hip (heq ▸ hcmds c hc)

/-- In ascending order every command arrives at its helper. -/
theorem routed_of_ascending (hD : 1 ≤ D) (hasc : helpersIPs.Pairwise (· < ·))
    (hcmds : ∀ c ∈ cmds, c.1 ∈ helpersIPs)
    (hruns : Lists.Runs _ (cmdStart coordinatorIP helpersIPs D cmds) tr s) :
    Routed coordinatorIP helpersIPs D cmds tr s := by
  refine ⟨?_, ?_, ?_⟩
  · intro h k m hm
    have hmem : .push h k m ∈ Lists.eventsOf .handler tr :=
      List.mem_filterMap.2 ⟨_, hm, if_pos rfl⟩
    obtain ⟨_, _, _, huses⟩ := handler_run hasc hcmds (handler_local hruns)
    obtain ⟨entry, hentry, _, heq⟩ := huses _ hmem
    cases heq
    exact ⟨entry.2, (ip2Ctx_spec helpersIPs hD).2 entry hentry, rfl, rfl⟩
  · intro ip
    by_cases hip : ip ∈ helpersIPs
    · obtain ⟨done, hdone, d, hall⟩ := pushed_drCmds hD hasc hcmds hruns hip
      have hfirst : cmdsFor ip done <+: cmdsFor ip cmds := by
        rw [hdone, cmdsFor, cmdsFor, List.filter_append, List.map_append]
        exact List.prefix_append _ _
      rw [← hall, List.append_assoc] at hfirst
      exact (List.prefix_append _ _).trans hfirst
    · rw [(pushed_drCmds_other hD hasc hcmds hruns hip).1]
      exact List.nil_prefix
  · intro hstuck ip
    by_cases hip : ip ∈ helpersIPs
    · obtain ⟨done, hdone, d, hall⟩ := pushed_drCmds hD hasc hcmds hruns hip
      have hhandler : unsent s = [] := by
        -- the next command could be sent
        cases hrest : unsent s with
        | nil => rfl
        | cons c rest =>
            exfalso
            have hc : c.1 ∈ helpersIPs := by
              apply hcmds
              rw [hdone, hrest]
              simp
            have hlt := List.idxOf_lt_length_of_mem hc
            have hget : helpersIPs[helpersIPs.idxOf c.1]? = some c.1 := by
              simp [List.getElem?_eq_getElem hlt]
            have hfound := searchCtx_eq_some_iff.2 (findsAt_iff.2 hasc _ hlt)
            rw [List.getD_eq_getElem?_getD, hget] at hfound
            obtain ⟨q, hq⟩ := exists_entry (D := D) hD hget
            have hstep : HandlerStep coordinatorIP helpersIPs D (unsent s)
                (.push coordinatorIP (.disQ q) (.indexed (helpersIPs.idxOf c.1) c.2)) rest := by
              rw [hrest]
              exact .push hfound hq
            exact Lists.not_local_of_stuck (S := cmdSystem coordinatorIP helpersIPs D Cmd)
              hstuck (i := .handler) (fun _ _ _ heq => by cases heq) hstep
      have hheld : holding s d = none := by
        -- what it holds could be passed on
        cases hhold : holding s d with
        | none => rfl
        | some c =>
            exfalso
            have hmem := distributor_holds (distributor_local hruns d) hhold
            obtain ⟨_, _, entry, heq, hentry⟩ := queue_valid hasc hcmds hruns d _
              (List.mem_append_left _ hmem)
            cases heq
            have hstep : DistributorStep coordinatorIP helpersIPs D d (holding s d)
                (.push entry.1 .drCmds (.cmd c.2)) none := by
              rw [hhold]
              exact .push hentry
            exact Lists.not_local_of_stuck (S := cmdSystem coordinatorIP helpersIPs D Cmd)
              hstuck (i := .distributor d) (fun _ _ _ heq => by cases heq) hstep
      have hqueue : s.lists coordinatorIP (.disQ d) = [] := by
        -- the first entry could be popped
        cases hlist : s.lists coordinatorIP (.disQ d) with
        | nil => rfl
        | cons m ms =>
            exfalso
            obtain ⟨idx, cmd, _, rfl, _⟩ := queue_valid hasc hcmds hruns d m
              (List.mem_append_right _ (hlist ▸ List.mem_cons_self))
            have hstep : DistributorStep coordinatorIP helpersIPs D d (holding s d)
                (.pop coordinatorIP (.disQ d) (.indexed idx cmd)) (some (idx, cmd)) := by
              rw [hheld]
              exact .pop idx cmd
            exact Lists.ne_cons_of_stuck (S := cmdSystem coordinatorIP helpersIPs D Cmd)
              hstuck (i := .distributor d) hstep ms hlist
      rw [hhandler, List.append_nil] at hdone
      rw [hheld, hqueue, ← hdone] at hall
      simpa [held] using hall
    · obtain ⟨hnone, hcmdsFor⟩ := pushed_drCmds_other hD hasc hcmds hruns hip
      rw [hnone, hcmdsFor]

end Run

end Ascending

/-! ## Otherwise they do not -/

section Converse

open Lists (Event)

variable {Cmd : Type} {coordinatorIP : Nat} {helpersIPs : List Nat} {D : Nat}

/-- A position that the search returns is one of the table. -/
theorem searchCtx_lt {target idx : Nat} (hpos : 0 < helpersIPs.length) :
    searchCtx helpersIPs target 0 (helpersIPs.length - 1) = some idx → idx < helpersIPs.length := by
  intro hidx
  have hat : (Bisect.search (fun i => helpersIPs.getD i 0) target 0 (helpersIPs.length - 1)).At
      idx := by
    rw [searchCtx_eq] at hidx
    cases hsearch : Bisect.search (fun i => helpersIPs.getD i 0) target 0 (helpersIPs.length - 1)
      <;> simp_all [Bisect.End.At]
  have hbounds := Bisect.search_bounds hat
  omega

/-- A command goes to the helper that the search returns. -/
theorem exists_delivery (hD : 1 ≤ D) {ip idx : Nat} (cmd : Cmd) {entry : Nat × Nat}
    (hidx : searchCtx helpersIPs ip 0 (helpersIPs.length - 1) = some idx)
    (hentry : (ip2Ctx helpersIPs D)[idx]? = some entry) :
    ∃ tr s, Lists.Runs _ (cmdStart coordinatorIP helpersIPs D [(ip, cmd)]) tr s ∧
      Lists.pushed entry.1 .drCmds (tr.map Prod.snd) = [.cmd cmd] := by
  have hd := (ip2Ctx_get hD hentry).2
  let S := cmdSystem coordinatorIP helpersIPs D Cmd
  let i : CmdParty D := .distributor ⟨entry.2, hd⟩
  have hsend : S.step .handler ((cmdStart coordinatorIP helpersIPs D [(ip, cmd)]).loc .handler)
      (.push coordinatorIP (.disQ entry.2) (.indexed idx cmd)) ([] : List (Nat × Cmd)) :=
    HandlerStep.push hidx hentry
  obtain ⟨s₁, hruns₁, -, hloc₁, hlists₁⟩ := (Lists.Runs.refl _).extend hsend rfl
  have hnone : s₁.loc i = (none : Option (Nat × Cmd)) := hloc₁ i (by simp [i])
  have hget : S.step i (s₁.loc i) (.pop coordinatorIP (.disQ entry.2) (.indexed idx cmd))
      (some (idx, cmd) : Option (Nat × Cmd)) := by
    rw [hnone]
    exact DistributorStep.pop idx cmd
  obtain ⟨s₂, hruns₂, hsome, -, -⟩ := hruns₁.extend hget
    ⟨[], by rw [hlists₁]; simp [cmdStart], rfl⟩
  have hpass : S.step i (s₂.loc i) (.push entry.1 .drCmds (.cmd cmd))
      (none : Option (Nat × Cmd)) := by
    rw [hsome]
    exact DistributorStep.push hentry
  obtain ⟨s₃, hruns₃, -⟩ := hruns₂.extend hpass rfl
  exact ⟨_, s₃, hruns₃, by simp [Lists.pushed]⟩

/-- Without a position there is nothing to do. -/
theorem stuck_of_not_found {ip : Nat} (cmd : Cmd)
    (hidx : searchCtx helpersIPs ip 0 (helpersIPs.length - 1) = none) :
    ∀ i e s', ¬ Lists.Step (cmdSystem coordinatorIP helpersIPs D Cmd)
      (cmdStart coordinatorIP helpersIPs D [(ip, cmd)]) i e s' := by
  intro i e s' hstep
  obtain ⟨hloc, hlists⟩ := hstep
  cases i with
  | handler =>
      have hhandler : HandlerStep coordinatorIP helpersIPs D [(ip, cmd)] e _ := hloc
      cases hhandler with
      | push hsome hentry =>
          rw [hidx] at hsome
          cases hsome
  | distributor d =>
      have hdistributor : DistributorStep coordinatorIP helpersIPs D d none e _ := hloc
      cases hdistributor with
      | pop idx cmd =>
          obtain ⟨ms, hms, -⟩ := hlists
          cases hms

/-- If all commands arrive, every helper is found. -/
theorem findsAt_of_routed [Inhabited Cmd] (hdistinct : helpersIPs.Nodup) (hD : 1 ≤ D) {i : Nat} :
    i < helpersIPs.length →
    (∀ cmds : List (Nat × Cmd), (∀ c ∈ cmds, c.1 ∈ helpersIPs) → ∀ tr s,
      Lists.Runs _ (cmdStart coordinatorIP helpersIPs D cmds) tr s →
        Routed coordinatorIP helpersIPs D cmds tr s) → FindsAt helpersIPs i := by
  intro hi hrouted
  have hmem : ∀ c ∈ [(helpersIPs[i], (default : Cmd))], c.1 ∈ helpersIPs := by
    intro c hc
    rw [List.mem_singleton.1 hc]
    exact List.getElem_mem hi
  have hget : helpersIPs.getD i 0 = helpersIPs[i] := by
    simp [List.getD_eq_getElem?_getD, List.getElem?_eq_getElem hi]
  rw [← searchCtx_eq_some_iff, hget]
  cases hidx : searchCtx helpersIPs helpersIPs[i] 0 (helpersIPs.length - 1) with
  | none =>
      exfalso
      have hall := (hrouted _ hmem [] _ (.refl _)).complete
        (stuck_of_not_found default hidx) helpersIPs[i]
      simp [cmdsFor, Lists.pushed] at hall
  | some idx =>
      have hlt := searchCtx_lt (Nat.lt_of_le_of_lt (Nat.zero_le i) hi) hidx
      obtain ⟨q, hentry⟩ := exists_entry (D := D) hD (List.getElem?_eq_getElem hlt)
      obtain ⟨tr, s, hruns, hpushed⟩ := exists_delivery hD (default : Cmd) hidx hentry
      have hall := (hrouted _ hmem tr s hruns).delivered helpersIPs[idx]
      rw [hpushed] at hall
      -- the command has arrived at a helper that it is for
      have hsame : helpersIPs[i] = helpersIPs[idx] := by
        by_contra hne
        have hlen := hall.length_le
        simp [cmdsFor, hne] at hlen
      exact congrArg some ((hdistinct.getElem_inj_iff).1 hsame).symm

/-- Every command arrives, exactly once, in order and unchanged, at the helper it is for, in every
order of steps: just when the helpers are configured in ascending order of their addresses.  Just
then both bisections find every helper. -/
theorem cmds_routed_iff [Inhabited Cmd] (coordinatorIP : Nat) (helpersIPs : List Nat)
    (hdistinct : helpersIPs.Nodup) (D : Nat) (hD : 1 ≤ D) :
    ((∀ cmds : List (Nat × Cmd), (∀ c ∈ cmds, c.1 ∈ helpersIPs) → ∀ tr s,
      Lists.Runs _ (cmdStart coordinatorIP helpersIPs D cmds) tr s →
        Routed coordinatorIP helpersIPs D cmds tr s) ↔ helpersIPs.Pairwise (· < ·)) ∧
    ((∀ i < helpersIPs.length, searchCtx helpersIPs (helpersIPs.getD i 0) 0
      (helpersIPs.length - 1) = some i) ↔ helpersIPs.Pairwise (· < ·)) ∧
    ((∀ i < helpersIPs.length, findCtx helpersIPs (helpersIPs.getD i 0) 0
      (helpersIPs.length - 1) = some i) ↔ helpersIPs.Pairwise (· < ·)) := by
  refine ⟨⟨?_, ?_⟩, ?_, ?_⟩
  · intro hrouted
    exact findsAt_iff.1 fun i hi => findsAt_of_routed hdistinct hD hi hrouted
  · intro hasc cmds hcmds tr s hruns
    exact routed_of_ascending hD hasc hcmds hruns
  · simp only [searchCtx_eq_some_iff]
    exact findsAt_iff
  · simp only [findCtx_eq_some_iff]
    exact findsAt_iff

theorem cmds_routed_iff_three :
    (∀ cmds : List (Nat × Nat), (∀ c ∈ cmds, c.1 ∈ [1, 2, 3]) → ∀ tr s,
      Lists.Runs _ (cmdStart 9 [1, 2, 3] 2 cmds) tr s → Routed 9 [1, 2, 3] 2 cmds tr s) ↔
        [1, 2, 3].Pairwise (· < ·) :=
  (cmds_routed_iff 9 [1, 2, 3] (by decide) 2 (by decide)).1

/-- Helper 2 is configured before helper 1, and its command goes to helper 3. -/
theorem cmd_misrouted : searchCtx [2, 1, 3] 2 0 2 = some 2 ∧
    ∃ tr s, Lists.Runs _ (cmdStart 9 [2, 1, 3] 1 [(2, 0)]) tr s ∧
      ¬ Routed 9 [2, 1, 3] 1 [(2, 0)] tr s := by
  have hidx : searchCtx [2, 1, 3] 2 0 2 = some 2 := by
    simp [searchCtx]
  refine ⟨hidx, ?_⟩
  have hentry : (ip2Ctx [2, 1, 3] 1)[2]? = some (3, 0) := by decide
  obtain ⟨tr, s, hruns, hpushed⟩ : ∃ tr s,
      Lists.Runs _ (cmdStart 9 [2, 1, 3] 1 [(2, 0)]) tr s ∧
        Lists.pushed 3 .drCmds (tr.map Prod.snd) = [.cmd 0] :=
    exists_delivery (Nat.le_refl 1) 0 hidx hentry
  refine ⟨tr, s, hruns, fun hrouted => ?_⟩
  have hall := hrouted.delivered 3
  rw [hpushed] at hall
  simp [cmdsFor] at hall

end Converse

end CoRD
