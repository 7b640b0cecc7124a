import CoRD.Network.History
import CoRD.Update.CrdRound
import CoRD.Update.DeltaRound
import CoRD.Update.RaidRound

/-!
# Protocol — stripe after stripe

Every stripe is a round, with the roles of its policy.  `stripeEffect` is what it does to the nodes;
one stripe after the other, they make a schedule (`schedule`).  So no message outlives its stripe
(`stripe_barrier`), and no stripe gets stuck (`deadlock_free`).
-/

namespace CoRD

open MsgNet

section Effect

variable (conf : Config) (newData : Int → Buf) (rsEncMat : Int → Int)

/-- The data block that collects in a RAID update. -/
def Stripe.raidCollector (st : Stripe) : UpdBlock :=
  st.updBlkVec.getD (st.rand % st.updBlkVec.length) default

def stripeRoles (st : Stripe) (σ : Host → NodeState) : List (Role Host Chan RedisStr NodeState) :=
  match st.policy with
  | .raid => raidRoles conf newData rsEncMat st.updBlkVec σ st.raidCollector
  | .delta => deltaRoles conf newData rsEncMat st.updBlkVec σ
  | .crd => crdRoles conf newData rsEncMat st.updBlkVec σ (st.rand % conf.ecM)

/-- The nodes after a stripe. -/
def stripeEffect (st : Stripe) (σ : Host → NodeState) : Host → NodeState :=
  Role.finals (stripeRoles conf newData rsEncMat st σ) σ

/-- The nodes after the first `n` stripes. -/
def storesAfter (stripes : List Stripe) (store : Host → NodeState) (n : Nat) : Host → NodeState :=
  (stripes.take n).foldl (fun σ st => stripeEffect conf newData rsEncMat st σ) store

end Effect

variable {conf : Config} {newData : Int → Buf} {rsEncMat : Int → Int} {stripes : List Stripe}

/-! ## The round of a stripe -/

theorem raidCollector_mem {st : Stripe} (hv : ValidUpd conf st.updBlkVec) :
    st.raidCollector ∈ st.updBlkVec := by
  have hlt := Nat.mod_lt st.rand hv.length_pos
  rw [Stripe.raidCollector, List.getD_eq_getElem _ _ hlt]
  exact List.getElem_mem hlt

def stripeCast (hm : 0 < conf.ecM) {st : Stripe} (hv : ValidUpd conf st.updBlkVec)
    (σ : Host → NodeState) : Cast (network conf rsEncMat newData stripes) σ :=
  match st.policy with
  | .raid => raidCast hm hv (raidCollector_mem hv)
  | .delta => deltaCast hm hv
  | .crd => crdCast hv (Nat.mod_lt st.rand hm)

section StripeCast

variable {hm : 0 < conf.ecM} {st : Stripe} {hv : ValidUpd conf st.updBlkVec}
  {σ : Host → NodeState}

theorem stripeCast_roles :
    (stripeCast hm hv σ : Cast (network conf rsEncMat newData stripes) σ).roles =
      stripeRoles conf newData rsEncMat st σ := by
  rcases st with ⟨policy, updBlkVec, rand⟩
  cases policy <;> rfl

theorem stripeCast_final :
    (stripeCast hm hv σ : Cast (network conf rsEncMat newData stripes) σ).final =
      stripeEffect conf newData rsEncMat st σ := by
  rw [Cast.final, stripeCast_roles, stripeEffect]

theorem stripeCast_acks :
    (stripeCast hm hv σ : Cast (network conf rsEncMat newData stripes) σ).ack = .ack ∧
      (stripeCast hm hv σ : Cast (network conf rsEncMat newData stripes) σ).acks = acks conf := by
  rcases st with ⟨policy, updBlkVec, rand⟩
  cases policy <;> exact ⟨rfl, rfl⟩

/-- The coordinator hands out the commands of the roles, then it waits. -/
theorem stripeProg_eq (hv : ValidUpd conf st.updBlkVec)
    (σ : Host → NodeState) :
    stripeProg conf rsEncMat st =
      .sendAll ((stripeRoles conf newData rsEncMat st σ).map fun r => (r.host, .updCmds, r.cmd))
        (recvAck conf) := by
  rcases st with ⟨policy, updBlkVec, rand⟩
  cases policy with
  | raid =>
      simp only [stripeProg, raidUpdate, stripeRoles, raidRoles, raidOthers, Stripe.raidCollector,
        List.map_append, List.map_cons, List.map_map, map_parityIds, List.append_assoc,
        List.singleton_append]
      rfl
  | delta =>
      simp only [stripeProg, deltaUpdate, stripeRoles, deltaRoles, List.map_append, List.map_map,
        map_parityIds]
      rfl
  | crd =>
      -- Every block finds its sub-set, so the coordinator does not give up.
      have hfound : ¬ (updBlkVec.any fun b =>
          getSubSetId (getUpdSoluCrd updBlkVec) b.id = -1) = true := by
        rw [List.any_eq_true]
        rintro ⟨b, hb, hid⟩
        exact getSubSetId_ne hv.nodup hb (by simpa using hid)
      rw [stripeProg, crdUpdate, if_neg hfound, ← Proc.sendAll_append, filter_parityIds,
        stripeRoles]
      simp only [crdRoles, crdOthers, List.map_append, List.map_cons, List.map_map]
      rfl

theorem follows_stripeProg (hm : 0 < conf.ecM) (hv : ValidUpd conf st.updBlkVec)
    (σ : Host → NodeState) :
    let C : Cast (network conf rsEncMat newData stripes) σ := stripeCast hm hv σ
    Follows (C.round.Ends .coordinator) (stripeProg conf rsEncMat st) (σ .coordinator)
      (C.round.plan .coordinator) := by
  intro C
  have hack : C.ack = .ack ∧ C.acks = acks conf := stripeCast_acks
  have hwait : Follows (EndsIn (σ .coordinator)) (recvAck conf) (σ .coordinator)
      [.rcv C.ack C.acks] := by
    rw [hack.1, hack.2]
    exact follows_recvAck hm
  have hroot := C.follows_root hwait
  rw [stripeCast_roles] at hroot
  rw [stripeProg_eq hv σ]
  exact hroot

end StripeCast

/-! ## The schedule -/

theorem storesAfter_succ {store : Host → NodeState} {n : Nat} {st : Stripe}
    (hst : stripes[n]? = some st) :
    storesAfter conf newData rsEncMat stripes store (n + 1) =
      stripeEffect conf newData rsEncMat st (storesAfter conf newData rsEncMat stripes store n) := by
  rw [storesAfter, List.take_add_one, hst, List.foldl_append]
  rfl

theorem storesAfter_of_none {store : Host → NodeState} {n : Nat} (hst : stripes[n]? = none) :
    storesAfter conf newData rsEncMat stripes store (n + 1) =
      storesAfter conf newData rsEncMat stripes store n := by
  rw [storesAfter, List.take_add_one, hst, Option.toList_none, List.append_nil, storesAfter]

/-- Stripe `n` as a round; behind the last stripe nothing happens. -/
def stripeRound (hm : 0 < conf.ecM) (hall : ∀ st ∈ stripes, ValidUpd conf st.updBlkVec)
    (newData : Int → Buf) (rsEncMat : Int → Int) (store : Host → NodeState) (n : Nat) :
    Round Host Chan RedisStr NodeState :=
  if h : n < stripes.length then
    (stripeCast hm (hall stripes[n] (List.getElem_mem h))
      (storesAfter conf newData rsEncMat stripes store n) :
        Cast (network conf rsEncMat newData stripes) _).round
  else Round.idle fun h τ => τ = storesAfter conf newData rsEncMat stripes store n h

section Schedule

variable {hm : 0 < conf.ecM} {hall : ∀ st ∈ stripes, ValidUpd conf st.updBlkVec}
  {store : Host → NodeState} {n : Nat}

theorem stripeRound_eq {st : Stripe} (hst : stripes[n]? = some st) :
    stripeRound hm hall newData rsEncMat store n =
      (stripeCast hm (hall st (List.mem_of_getElem? hst))
        (storesAfter conf newData rsEncMat stripes store n) :
          Cast (network conf rsEncMat newData stripes) _).round := by
  obtain ⟨hn, rfl⟩ := List.getElem?_eq_some_iff.1 hst
  rw [stripeRound, dif_pos hn]

theorem stripeRound_post (h : Host) (τ : NodeState) :
    (stripeRound hm hall newData rsEncMat store n).post h τ ↔
      τ = storesAfter conf newData rsEncMat stripes store (n + 1) h := by
  cases hst : stripes[n]? with
  | none =>
      have hn : ¬ n < stripes.length := by simpa using hst
      rw [stripeRound, dif_neg hn, storesAfter_of_none hst]
      rfl
  | some st =>
      rw [stripeRound_eq hst, Cast.round_post, stripeCast_final, storesAfter_succ hst]

end Schedule

/-- The stripes, one round each. -/
def schedule (hm : 0 < conf.ecM) (hall : ∀ st ∈ stripes, ValidUpd conf st.updBlkVec)
    (newData : Int → Buf) (rsEncMat : Int → Int) (store : Host → NodeState) :
    Schedule (network conf rsEncMat newData stripes) store where
  round := stripeRound hm hall newData rsEncMat store
  before := fun n h τ => τ = storesAfter conf newData rsEncMat stripes store n h
  live := fun n p hp => by
    have hn : n < stripes.length := by
      obtain ⟨st, hst, _⟩ := Option.map_eq_some_iff.1 hp
      exact (List.getElem?_eq_some_iff.1 hst).1
    rw [stripeRound, dif_pos hn]
    exact Cast.live _
  first := fun _ => rfl
  chain := fun n h τ => (stripeRound_post h τ).1
  root := fun n p hp τ hτ => by
    obtain ⟨st, hst, rfl⟩ := Option.map_eq_some_iff.1 hp
    subst hτ
    rw [stripeRound_eq hst]
    exact follows_stripeProg hm _ _
  ready := fun n p hp h hh τ hτ => by
    obtain ⟨st, hst, rfl⟩ := Option.map_eq_some_iff.1 hp
    subst hτ
    rw [stripeRound_eq hst]
    exact Cast.ready _ hh

/-! ## The barrier -/

/-- When `recvAck` has returned, every queue is empty, and every message sent so far was popped
once: by the node it was addressed to, from the queue it was put in, while that node worked for the
stripe the message was sent for.  At no time does a node pop a message of another stripe. -/
theorem stripe_barrier (hm : 0 < conf.ecM) (hall : ∀ st ∈ stripes, ValidUpd conf st.updBlkVec)
    {store : Host → NodeState} {es : List (Event Host Chan RedisStr)}
    {s : State Host Chan RedisStr NodeState Exit}
    (hr : Runs (network conf rsEncMat newData stripes) (State.init store) es s) :
    (s.proc .coordinator = .done →
      (∀ h c, s.box h c = []) ∧
      ∀ src dst c p, .sent src dst c p ∈ es → popsOf p.uid es = [(dst, c, p, p.round)]) ∧
    ∀ h c p r, .popped h c p r ∈ es → p.round = r := by
  let S := schedule hm hall newData rsEncMat store
  refine ⟨fun hdone => ⟨?_, fun src dst c p hsent => ?_⟩, fun h c p r hpop => ?_⟩
  · exact (S.quiet_of_done hr hdone).box
  · exact S.popsOf_of_sent hr hdone hsent
  · exact S.round_of_popped hr hpop

/-- One data block and one parity block of one KB. -/
def pairConf : Config := ⟨1, 2, 1, Config.one_le⟩

/-- Nodes with nothing but zeros on their disks. -/
def blankStore : Host → NodeState :=
  fun _ => { disk := fun _ => zeros, heap := fun _ => zeros }

/-- The same update under each of the policies. -/
def pairStripes : List Stripe :=
  [⟨.raid, [⟨0, 0, 1⟩], 0⟩, ⟨.delta, [⟨0, 0, 1⟩], 0⟩, ⟨.crd, [⟨0, 0, 1⟩], 0⟩]

theorem validUpd_pairStripes : ∀ st ∈ pairStripes, ValidUpd pairConf st.updBlkVec := by
  intro st hst
  have hvec : st.updBlkVec = [⟨0, 0, 1⟩] := by
    simp only [pairStripes, List.mem_cons, List.not_mem_nil, or_false] at hst
    rcases hst with rfl | rfl | rfl <;> rfl
  rw [hvec]
  exact ⟨by decide, by decide, by decide⟩

theorem stripe_barrier_pairStripes :
    ∃ es s, Runs (network pairConf (fun _ => 1) (fun _ => geneRadmBuff) pairStripes)
        (State.init blankStore) es s ∧ s.started = 3 ∧ s.proc .coordinator = .done ∧
      (∀ h c, s.box h c = []) ∧
      ∀ src dst c p, .sent src dst c p ∈ es → popsOf p.uid es = [(dst, c, p, p.round)] := by
  have hm : 0 < pairConf.ecM := by decide
  let S := schedule hm validUpd_pairStripes (fun _ => geneRadmBuff) (fun _ => 1) blankStore
  obtain ⟨es, s, hr, hstarted, hdone, _⟩ := S.exists_run_done 3 fun i hi => by
    have hlt : i < pairStripes.length := hi
    exact ⟨_, congrArg (Option.map (stripeProg pairConf fun _ => 1))
      (List.getElem?_eq_getElem hlt)⟩
  have hall := stripe_barrier hm validUpd_pairStripes hr
  exact ⟨es, s, hr, hstarted, hdone _, hall.1 (hdone _)⟩

/-! ## Progress -/

/-- While the coordinator waits for acknowledgements, some host can move, and it is a node when no
acknowledgement has arrived; the stripe can be completed on all hosts.  No host ever exits. -/
theorem deadlock_free (hm : 0 < conf.ecM) (hall : ∀ st ∈ stripes, ValidUpd conf st.updBlkVec)
    {store : Host → NodeState} {es : List (Event Host Chan RedisStr)}
    {s : State Host Chan RedisStr NodeState Exit}
    (hr : Runs (network conf rsEncMat newData stripes) (State.init store) es s) :
    (∀ k, s.proc .coordinator = .recv .ack k →
      (∃ h, CanStep (network conf rsEncMat newData stripes) s h) ∧
      (s.box .coordinator .ack = [] →
        ∃ id, CanStep (network conf rsEncMat newData stripes) s (.node id)) ∧
      ∃ es' s', Runs (network conf rsEncMat newData stripes) s es' s' ∧
        ∀ h, s'.proc h = .done) ∧
    ∀ h e, s.proc h ≠ .abort e := by
  let S := schedule hm hall newData rsEncMat store
  refine ⟨fun k hwait => ?_, S.not_aborted hr⟩
  obtain ⟨_, _, _, _, h, _, hcan⟩ := S.exists_canStep hr hwait
  refine ⟨⟨h, hcan⟩, fun hbox => ?_, S.exists_completed hr hwait⟩
  cases h with
  | coordinator =>
      exact absurd hcan (not_canStep_of_recv hwait hbox)
  | node id =>
      exact ⟨id, hcan⟩

/-- The coordinator has handed out the two commands of the first stripe. -/
theorem deadlock_free_pairStripes :
    ∃ es s k, Runs (network pairConf (fun _ => 1) (fun _ => geneRadmBuff)
          [⟨.delta, [⟨0, 0, 1⟩], 0⟩]) (State.init blankStore) es s ∧
      s.proc .coordinator = .recv .ack k ∧ s.box .coordinator .ack = [] ∧
      ∃ id, CanStep (network pairConf (fun _ => 1) (fun _ => geneRadmBuff)
        [⟨.delta, [⟨0, 0, 1⟩], 0⟩]) s (.node id) := by
  have hm : 0 < pairConf.ecM := by decide
  have hv : ValidUpd pairConf [⟨0, 0, 1⟩] := ⟨by decide, by decide, by decide⟩
  have hr : Runs (network pairConf (fun _ => 1) (fun _ => geneRadmBuff)
      [⟨.delta, [⟨0, 0, 1⟩], 0⟩]) (State.init blankStore) _ _ :=
    (((Runs.refl _).snoc (.next rfl rfl)).snoc
      (.send (h := .coordinator) rfl)).snoc (.send (h := .coordinator) rfl)
  have hall := deadlock_free hm (List.forall_mem_singleton.2 hv) hr
  exact ⟨_, _, _, hr, rfl, rfl, (hall.1 _ rfl).2.1 rfl⟩

/-! ## One stripe -/

section OneStripe

variable {st : Stripe} {store : Host → NodeState} {es : List (Event Host Chan RedisStr)}
  {s : State Host Chan RedisStr NodeState Exit}

theorem started_le_one (hr : Runs (network conf rsEncMat newData [st]) (State.init store) es s) :
    s.started ≤ 1 := by
  by_contra hlt
  obtain ⟨p, hp⟩ := hr.prog_of_lt_started 1 (by omega)
  cases hp

/-- A node that has finished its task has the store the stripe leaves. -/
theorem store_of_finished (hm : 0 < conf.ecM) (hv : ValidUpd conf st.updBlkVec)
    (hr : Runs (network conf rsEncMat newData [st]) (State.init store) es s) {h : Host}
    (hfin : s.Finished h 1) : s.store h = stripeEffect conf newData rsEncMat st store h := by
  let S := schedule hm (List.forall_mem_singleton.2 hv) newData rsEncMat store
  have hle := started_le_one hr
  have hstarted : s.started = 1 := by
    rcases (S.reach hr).1 with hq | ⟨n, _, _, _, hs, _, _⟩
    · have hround := hq.round h
      rw [hfin.2] at hround
      omega
    · omega
  have hstore := S.before_of_finished hr (hstarted ▸ hfin)
  rw [hstarted] at hstore
  exact hstore

/-- A node without a task keeps its store. -/
theorem store_of_outside (hm : 0 < conf.ecM) (hv : ValidUpd conf st.updBlkVec)
    (hr : Runs (network conf rsEncMat newData [st]) (State.init store) es s) {h : Host}
    (hroot : h ≠ .coordinator)
    (hout : ∀ r ∈ stripeRoles conf newData rsEncMat st store, r.host ≠ h)
    (hdone : s.proc h = .done) : s.store h = store h := by
  let S := schedule hm (List.forall_mem_singleton.2 hv) newData rsEncMat store
  let C : Cast (network conf rsEncMat newData [st]) store := stripeCast hm hv store
  have hroles : ∀ r ∈ C.roles, r.host ≠ h := by
    rw [stripeCast_roles]
    exact hout
  refine S.store_of_idle hr hdone (fun n => ?_) fun n τ hτ => ?_
  · cases n with
    | zero =>
        exact Cast.plan_of_not_mem hroot hroles
    | succ n =>
        rfl
  · subst hτ
    cases n with
    | zero =>
        rfl
    | succ n =>
        have hfinal : C.final h = store h := Cast.final_of_not_mem hroles
        rw [stripeCast_final] at hfinal
        simpa [storesAfter] using hfinal

/-- Once all hosts are through, the stores are those the stripe leaves. -/
theorem store_of_done (hm : 0 < conf.ecM) (hv : ValidUpd conf st.updBlkVec)
    (hr : Runs (network conf rsEncMat newData [st]) (State.init store) es s)
    (hdone : ∀ h, s.proc h = .done) (hstarted : s.started = 1) :
    s.store = stripeEffect conf newData rsEncMat st store := by
  let S := schedule hm (List.forall_mem_singleton.2 hv) newData rsEncMat store
  funext h
  have hstore := S.before_of_done hr hdone h
  rw [hstarted] at hstore
  exact hstore

/-- The stripe can be run to its end. -/
theorem exists_run_done (newData : Int → Buf) (rsEncMat : Int → Int) (st : Stripe)
    (hm : 0 < conf.ecM) (hv : ValidUpd conf st.updBlkVec) (store : Host → NodeState) :
    ∃ es s, Runs (network conf rsEncMat newData [st]) (State.init store) es s ∧ s.started = 1 ∧
      (∀ h, s.proc h = .done) ∧
      ∀ r ∈ stripeRoles conf newData rsEncMat st store, s.Finished r.host 1 := by
  let S := schedule hm (List.forall_mem_singleton.2 hv) newData rsEncMat store
  let C : Cast (network conf rsEncMat newData [st]) store := stripeCast hm hv store
  obtain ⟨es, s, hr, hstarted, hdone, hfin⟩ := S.exists_run_done 1 fun i hi => by
    obtain rfl : i = 0 := by omega
    exact ⟨_, rfl⟩
  refine ⟨es, s, hr, hstarted, hdone, fun r hrole => hfin 0 r.host rfl ?_⟩
  have hroles : C.roles = stripeRoles conf newData rsEncMat st store := stripeCast_roles
  rw [← hroles] at hrole
  have hplan : C.plan r.host = .rcv .updCmds [r.cmd] :: r.body := Cast.plan_of_mem hrole
  intro hnil
  have hnil' : C.plan r.host = [] := hnil
  rw [hplan] at hnil'
  cases hnil'

end OneStripe

end CoRD
