import CoRD.Network.Schedule

/-!
# Cast — rounds in which every server gets one job

The root hands one job to each of some servers and then waits for acknowledgements.  A *role* is a
server with its job, with the messages it exchanges while it works on it, and with the store it ends
with.  A cast lists the roles of a round; it is a live round when the messages between the roles add
up, mailbox by mailbox.
-/

namespace MsgNet

variable {Host Chan Msg Store Err : Type} [DecidableEq Host] [DecidableEq Chan]

/-- The part of one server in a round. -/
structure Role (Host Chan Msg Store : Type) where
  host : Host
  cmd : Msg
  body : List (Act Host Chan Msg)
  final : Store

/-- The stores after the roles have been played. -/
def Role.finals (roles : List (Role Host Chan Msg Store)) (σ : Host → Store) (h : Host) : Store :=
  match roles.find? fun r => decide (r.host = h) with
  | some r => r.final
  | none => σ h

/-- What a role keeps to by itself, whatever the other roles are. -/
structure Role.Fits (N : Network Host Chan Msg Store Err) (σ : Host → Store)
    (rank : Host → Chan → Nat) (depth : Host → Nat) (r : Role Host Chan Msg Store) : Prop where
  root_ne : r.host ≠ N.root
  once : recvs N.job r.body = 0 ∧ Once r.body
  jobless : ∀ h, sends h N.job r.body = 0
  plays : Follows (EndsIn r.final) (N.serve r.host r.cmd) (σ r.host) r.body
  rank_pos : ∀ h c m, .snd h c m ∈ r.body → 0 < rank h c
  ranked : Ranked rank r.host r.body
  closing : r.body ≠ [] ∧ Closing depth r.host r.body

/-- The roles of a round that starts with the stores `σ`. -/
structure Cast (N : Network Host Chan Msg Store Err) (σ : Host → Store) where
  roles : List (Role Host Chan Msg Store)
  ack : Chan
  acks : List Msg
  rank : Host → Chan → Nat
  depth : Host → Nat
  nodup : (roles.map Role.host).Nodup
  root_ne : ∀ r ∈ roles, r.host ≠ N.root
  ack_ne : ack ≠ N.job
  acks_ne : acks ≠ []
  once : ∀ r ∈ roles, recvs N.job r.body = 0 ∧ Once r.body
  jobless : ∀ r ∈ roles, ∀ h, sends h N.job r.body = 0
  inside : ∀ r ∈ roles, ∀ h c m, .snd h c m ∈ r.body → h = N.root ∨ ∃ r' ∈ roles, r'.host = h
  acked : ∀ c, (roles.map fun q => sends N.root c q.body).sum =
    if ack = c then (acks : Multiset Msg) else 0
  served : ∀ r ∈ roles, ∀ c, (roles.map fun q => sends r.host c q.body).sum = recvs c r.body
  plays : ∀ r ∈ roles, Follows (EndsIn r.final) (N.serve r.host r.cmd) (σ r.host) r.body
  rank_job : ∀ h, rank h N.job = 0
  rank_pos : ∀ r ∈ roles, ∀ h c m, .snd h c m ∈ r.body → 0 < rank h c
  ranked : ∀ r ∈ roles, Ranked rank r.host r.body
  closing : ∀ r ∈ roles, r.body ≠ [] ∧ Closing depth r.host r.body

namespace Cast

variable {N : Network Host Chan Msg Store Err} {σ : Host → Store} (C : Cast N σ)

/-- The role of host `h`, if it has one. -/
def role (h : Host) : Option (Role Host Chan Msg Store) :=
  C.roles.find? fun r => decide (r.host = h)

/-- What the root sends and pops. -/
def rootPlan : List (Act Host Chan Msg) :=
  C.roles.map (fun r => .snd r.host N.job r.cmd) ++ [.rcv C.ack C.acks]

def plan (h : Host) : List (Act Host Chan Msg) :=
  if h = N.root then C.rootPlan
  else
    match C.role h with
    | some r => .rcv N.job [r.cmd] :: r.body
    | none => []

/-- The stores after the round. -/
def final : Host → Store :=
  Role.finals C.roles σ

/-! ## Finding roles -/

variable {C}

theorem role_of_mem {r : Role Host Chan Msg Store} (hr : r ∈ C.roles) : C.role r.host = some r := by
  have hnodup := C.nodup
  unfold role
  generalize C.roles = l at *
  induction l with
  | nil =>
      simp at hr
  | cons r' l ih =>
      rw [List.map_cons, List.nodup_cons] at hnodup
      rcases List.mem_cons.1 hr with rfl | hr
      · simp
      · have hne : r'.host ≠ r.host := fun heq => hnodup.1 (heq ▸ List.mem_map_of_mem hr)
        simpa [hne] using ih hr hnodup.2

theorem role_of_not_mem {h : Host} (hh : ∀ r ∈ C.roles, r.host ≠ h) : C.role h = none := by
  simpa [role] using hh

theorem role_root : C.role N.root = none :=
  role_of_not_mem C.root_ne

theorem plan_root : C.plan N.root = C.rootPlan :=
  if_pos rfl

theorem plan_of_mem {r : Role Host Chan Msg Store} (hr : r ∈ C.roles) :
    C.plan r.host = .rcv N.job [r.cmd] :: r.body := by
  simp [plan, C.root_ne r hr, role_of_mem hr]

theorem plan_of_not_mem {h : Host} (hroot : h ≠ N.root) (hh : ∀ r ∈ C.roles, r.host ≠ h) :
    C.plan h = [] := by
  simp [plan, hroot, role_of_not_mem hh]

theorem final_of_mem {r : Role Host Chan Msg Store} (hr : r ∈ C.roles) :
    C.final r.host = r.final := by
  have hrole := role_of_mem hr
  rw [role] at hrole
  rw [final, Role.finals, hrole]

theorem final_of_not_mem {h : Host} (hh : ∀ r ∈ C.roles, r.host ≠ h) : C.final h = σ h := by
  have hrole := role_of_not_mem hh
  rw [role] at hrole
  rw [final, Role.finals, hrole]

/-- The root, a server with a role, or a host outside. -/
theorem host_cases (C : Cast N σ) (h : Host) :
    h = N.root ∨ (∃ r ∈ C.roles, r.host = h) ∨ (h ≠ N.root ∧ ∀ r ∈ C.roles, r.host ≠ h) := by
  by_cases hroot : h = N.root
  · exact Or.inl hroot
  · by_cases hmem : ∃ r ∈ C.roles, r.host = h
    · exact Or.inr (Or.inl hmem)
    · refine Or.inr (Or.inr ⟨hroot, fun r hr heq => hmem ⟨r, hr, heq⟩⟩)

/-! ## The messages add up -/

theorem sends_rootPlan (h : Host) (c : Chan) :
    sends h c C.rootPlan =
      if N.job = c then (C.role h).elim 0 fun r => ({r.cmd} : Multiset Msg) else 0 := by
  have hnodup := C.nodup
  simp only [rootPlan, sends_append, sends, add_zero, role]
  generalize C.roles = l at *
  induction l with
  | nil =>
      simp [sends]
  | cons r l ih =>
      rw [List.map_cons, List.nodup_cons] at hnodup
      rw [List.map_cons, sends, ih hnodup.2]
      by_cases hc : N.job = c
      · by_cases hh : r.host = h
        · have hnone : l.find? (fun r => decide (r.host = h)) = none := by
            simp only [List.find?_eq_none, decide_eq_true_eq]
            intro r' hr' heq
            exact hnodup.1 (by rw [hh, ← heq]; exact List.mem_map_of_mem hr')
          simp [hc, hh, hnone]
        · simp [hc, hh]
      · simp [hc]

theorem recvs_rootPlan (c : Chan) :
    recvs c C.rootPlan = if C.ack = c then (C.acks : Multiset Msg) else 0 := by
  have hjobs : recvs c (C.roles.map fun r => (.snd r.host N.job r.cmd : Act Host Chan Msg)) = 0 := by
    induction C.roles with
    | nil =>
        rfl
    | cons r l ih =>
        exact ih
  simp [rootPlan, recvs_append, hjobs, recvs]

/-- What all hosts of the round send to one mailbox. -/
theorem sum_sends (C : Cast N σ) (h : Host) (c : Chan) :
    ∑ q ∈ insert N.root (C.roles.map Role.host).toFinset, sends h c (C.plan q) =
      sends h c C.rootPlan + (C.roles.map fun r => sends h c r.body).sum := by
  have hroot : N.root ∉ (C.roles.map Role.host).toFinset := by
    simp only [List.mem_toFinset, List.mem_map, not_exists, not_and]
    exact C.root_ne
  rw [Finset.sum_insert hroot, plan_root, List.sum_toFinset _ C.nodup, List.map_map]
  congr 2
  refine List.map_congr_left fun r hr => ?_
  simp [plan_of_mem hr, sends]

theorem balanced (C : Cast N σ) (h : Host) (c : Chan) :
    ∑ q ∈ insert N.root (C.roles.map Role.host).toFinset, sends h c (C.plan q) =
      recvs c (C.plan h) := by
  rw [sum_sends, sends_rootPlan]
  rcases C.host_cases h with rfl | ⟨r, hr, rfl⟩ | ⟨hroot, hout⟩
  · simp [role_root, plan_root, recvs_rootPlan, C.acked]
  · rw [C.served r hr, role_of_mem hr, plan_of_mem hr]
    by_cases hc : N.job = c <;> simp [recvs, hc]
  · have hzero : ∀ r ∈ C.roles, sends h c r.body = 0 := by
      intro r hr
      refine Multiset.eq_zero_of_forall_notMem fun m hm => ?_
      rcases C.inside r hr h c m (mem_sends.1 hm) with rfl | ⟨r', hr', heq⟩
      · exact hroot rfl
      · exact hout r' hr' heq
    have hsum : (C.roles.map fun r => sends h c r.body).sum = 0 := sum_map_eq_zero hzero
    simp [role_of_not_mem hout, plan_of_not_mem hroot hout, hsum, recvs]

theorem once_plan (C : Cast N σ) (h : Host) : Once (C.plan h) := by
  rcases C.host_cases h with rfl | ⟨r, hr, rfl⟩ | ⟨hroot, hout⟩
  · rw [plan_root, rootPlan]
    induction C.roles with
    | nil =>
        exact ⟨rfl, trivial⟩
    | cons r l ih =>
        exact ih
  · rw [plan_of_mem hr]
    exact C.once r hr
  · rw [plan_of_not_mem hroot hout]
    trivial

/-- The round of a cast. -/
def round (C : Cast N σ) : Round Host Chan Msg Store :=
  { hosts := insert N.root (C.roles.map Role.host).toFinset
    plan := C.plan
    post := fun h τ => τ = C.final h
    support := fun h hh => by
      simp only [Finset.mem_insert, List.mem_toFinset, List.mem_map, not_or, not_exists,
        not_and] at hh
      exact plan_of_not_mem hh.1 hh.2
    once := C.once_plan
    balanced := C.balanced }

@[simp] theorem round_plan (C : Cast N σ) (h : Host) : C.round.plan h = C.plan h := rfl

@[simp] theorem round_post (C : Cast N σ) (h : Host) (τ : Store) :
    C.round.post h τ ↔ τ = C.final h := Iff.rfl

/-! ## The round is live and fits its stores -/

theorem ranked_rootPlan (C : Cast N σ) : Ranked C.rank N.root C.rootPlan := by
  rw [rootPlan]
  induction C.roles with
  | nil =>
      exact ⟨C.acks_ne, by simp, trivial⟩
  | cons r l ih =>
      exact ih

def live (C : Cast N σ) : Live N C.round :=
  { rank := C.rank
    depth := C.depth
    ranked := fun h => by
      rw [round_plan]
      rcases C.host_cases h with rfl | ⟨r, hr, rfl⟩ | ⟨hroot, hout⟩
      · rw [plan_root]
        exact C.ranked_rootPlan
      · rw [plan_of_mem hr]
        refine ⟨by simp, fun dst c m hm => ?_, C.ranked r hr⟩
        rw [C.rank_job]
        exact C.rank_pos r hr dst c m hm
      · rw [plan_of_not_mem hroot hout]
        trivial
    closing := fun h hh => by
      rw [round_plan]
      rcases C.host_cases h with hroot | ⟨r, hr, rfl⟩ | ⟨hroot, hout⟩
      · exact absurd hroot hh
      · rw [plan_of_mem hr]
        rcases C.closing r hr with ⟨hne, hclosing⟩
        cases hbody : r.body with
        | nil =>
            exact absurd hbody hne
        | cons a s =>
            rw [hbody] at hclosing
            exact hclosing
      · rw [plan_of_not_mem hroot hout]
        trivial }

theorem ready (C : Cast N σ) {h : Host} (hroot : h ≠ N.root) : C.round.Ready N h (σ h) := by
  rcases C.host_cases h with hh | ⟨r, hr, rfl⟩ | ⟨_, hout⟩
  · exact absurd hh hroot
  · refine Or.inr ⟨r.cmd, r.body, plan_of_mem hr, (C.plays r hr).mono fun τ s hs => ?_⟩
    exact ⟨hs.1, by rw [round_post, final_of_mem hr]; exact hs.2⟩
  · refine Or.inl ⟨plan_of_not_mem hroot hout, ?_⟩
    rw [round_post, final_of_not_mem hout]

/-- The root's program sends the jobs and then pops the acknowledgements. -/
theorem follows_root (C : Cast N σ) {next : Proc Host Chan Msg Store Err}
    (hnext : Follows (EndsIn (σ N.root)) next (σ N.root) [.rcv C.ack C.acks]) :
    Follows (C.round.Ends N.root)
      (.sendAll (C.roles.map fun r => (r.host, N.job, r.cmd)) next) (σ N.root)
      (C.round.plan N.root) := by
  have hpost : Follows (C.round.Ends N.root) next (σ N.root) [.rcv C.ack C.acks] := by
    refine hnext.mono fun τ s hs => ⟨hs.1, ?_⟩
    rw [round_post, final_of_not_mem C.root_ne]
    exact hs.2
  have hall := follows_sendAll (C.roles.map fun r => (r.host, N.job, r.cmd)) hpost
  rw [round_plan, plan_root, rootPlan]
  simpa [List.map_map, Function.comp_def] using hall

end Cast

end MsgNet
