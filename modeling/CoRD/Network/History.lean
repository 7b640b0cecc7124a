import CoRD.Network.Semantics

/-!
# History — every packet is popped at most once

Packets are numbered in the order in which they are sent.  `popsOf u es` lists the pops of packet
number `u` in a run.  Along every run each packet sent is still in the mailbox it was sent to, and
was never popped, or it was popped once, from that mailbox (`History.of_runs`).
-/

namespace MsgNet

variable {Host Chan Msg Store Err : Type} [DecidableEq Host] [DecidableEq Chan]
  {N : Network Host Chan Msg Store Err} {s s' : State Host Chan Msg Store Err}

/-- The pops of the packet with number `u`: who popped it, from which mailbox and in which
round. -/
def popsOf (u : Nat) (es : List (Event Host Chan Msg)) :
    List (Host × Chan × Packet Msg × Nat) :=
  es.filterMap fun e =>
    match e with
    | .popped h c p r => if p.uid = u then some (h, c, p, r) else none
    | _ => none

omit [DecidableEq Host] [DecidableEq Chan] in
theorem mem_popsOf {u : Nat} {es : List (Event Host Chan Msg)} {h : Host} {c : Chan}
    {p : Packet Msg} {r : Nat} (hmem : (h, c, p, r) ∈ popsOf u es) : .popped h c p r ∈ es := by
  obtain ⟨e, he, heq⟩ := List.mem_filterMap.1 hmem
  cases e with
  | internal =>
      cases heq
  | sent src dst c' p' =>
      cases heq
  | popped h' c' p' r' =>
      simp only [Option.ite_none_right_eq_some, Option.some.injEq, Prod.mk.injEq] at heq
      obtain ⟨_, rfl, rfl, rfl, rfl⟩ := heq
      exact he

/-- What a run leaves behind: packets are numbered in the order they were sent, and each of them
is still in its mailbox or was popped once, from there. -/
structure History (es : List (Event Host Chan Msg)) (s : State Host Chan Msg Store Err) :
    Prop where
  numbered : ∀ src dst c p, .sent src dst c p ∈ es → p.uid < s.clock
  unsent : ∀ u, s.clock ≤ u → popsOf u es = []
  unique : ∀ src dst c p src' dst' c' p', .sent src dst c p ∈ es → .sent src' dst' c' p' ∈ es →
    p.uid = p'.uid → dst = dst' ∧ c = c' ∧ p = p'
  boxed : ∀ h c, ∀ p ∈ s.box h c, popsOf p.uid es = [] ∧ ∃ src, .sent src h c p ∈ es
  sorted : ∀ h c, ((s.box h c).map Packet.uid).Pairwise (· < ·)
  once : ∀ src dst c p, .sent src dst c p ∈ es →
    (popsOf p.uid es = [] ∧ p ∈ s.box dst c) ∨ ∃ r, popsOf p.uid es = [(dst, c, p, r)]

namespace History

variable {es : List (Event Host Chan Msg)}

omit [DecidableEq Host] [DecidableEq Chan] in
theorem init (store : Host → Store) :
    History ([] : List (Event Host Chan Msg)) (State.init store : State Host Chan Msg Store Err) :=
  { numbered := by simp
    unsent := fun _ _ => rfl
    unique := by simp
    boxed := by simp [State.init]
    sorted := by simp [State.init]
    once := by simp }

omit [DecidableEq Host] [DecidableEq Chan] in
/-- A step that moves no message. -/
theorem internal (H : History es s) (hclock : s'.clock = s.clock) (hbox : s'.box = s.box) :
    History (es ++ [.internal]) s' := by
  have hpops : ∀ u, popsOf u (es ++ [.internal]) = popsOf u es := by
    intro u
    simp [popsOf]
  constructor
  case numbered =>
    simpa [hclock] using H.numbered
  case unsent =>
    simpa [hclock, hpops] using H.unsent
  case unique =>
    simpa using H.unique
  case boxed =>
    simpa [hbox, hpops] using H.boxed
  case sorted =>
    simpa [hbox] using H.sorted
  case once =>
    simpa [hbox, hpops] using H.once

/-- A step that sends a packet with the next number. -/
theorem sent (H : History es s) {src dst : Host} {c : Chan} {p : Packet Msg}
    {q : Proc Host Chan Msg Store Err} (hp : p.uid = s.clock) :
    History (es ++ [.sent src dst c p]) ((s.setProc src q).push dst c p) := by
  have hpops : ∀ u, popsOf u (es ++ [.sent src dst c p]) = popsOf u es := by
    intro u
    simp [popsOf]
  have hbox : ∀ h c', ((s.setProc src q).push dst c p).box h c' =
      if h = dst ∧ c' = c then s.box dst c ++ [p] else s.box h c' :=
    fun h c' => State.push_box _ _ _ _ _ _
  have hold : ∀ h c', ∀ p' ∈ s.box h c', p'.uid < s.clock := by
    intro h c' p' hp'
    rcases (H.boxed h c' p' hp').2 with ⟨src', hsent⟩
    exact H.numbered _ _ _ _ hsent
  constructor
  case numbered =>
    intro src' dst' c' p' hmem
    rcases List.mem_append.1 hmem with hmem | hmem
    · have := H.numbered _ _ _ _ hmem
      simp
      omega
    · cases List.mem_singleton.1 hmem
      simp [hp]
  case unsent =>
    intro u hu
    rw [hpops]
    exact H.unsent u (by
      simp at hu
      omega)
  case unique =>
    intro src₁ dst₁ c₁ p₁ src₂ dst₂ c₂ p₂ h₁ h₂ huid
    rcases List.mem_append.1 h₁ with h₁ | h₁ <;> rcases List.mem_append.1 h₂ with h₂ | h₂
    · exact H.unique _ _ _ _ _ _ _ _ h₁ h₂ huid
    · cases List.mem_singleton.1 h₂
      have := H.numbered _ _ _ _ h₁
      omega
    · cases List.mem_singleton.1 h₁
      have := H.numbered _ _ _ _ h₂
      omega
    · cases List.mem_singleton.1 h₁
      cases List.mem_singleton.1 h₂
      exact ⟨rfl, rfl, rfl⟩
  case boxed =>
    intro h c' p' hp'
    rw [hpops]
    rw [hbox] at hp'
    -- a number not yet given out has not been popped
    have hlast : popsOf p.uid es = [] := H.unsent _ (Nat.le_of_eq hp.symm)
    by_cases hd : h = dst ∧ c' = c
    · rw [if_pos hd] at hp'
      rcases List.mem_append.1 hp' with hp' | hp'
      · rcases H.boxed dst c p' hp' with ⟨hnone, src', hsent⟩
        exact ⟨hnone, src', by rw [hd.1, hd.2]; exact List.mem_append_left _ hsent⟩
      · rw [List.mem_singleton.1 hp']
        exact ⟨hlast, src, by rw [hd.1, hd.2]; simp⟩
    · rw [if_neg hd] at hp'
      rcases H.boxed h c' p' hp' with ⟨hnone, src', hsent⟩
      exact ⟨hnone, src', List.mem_append_left _ hsent⟩
  case sorted =>
    intro h c'
    rw [hbox]
    by_cases hd : h = dst ∧ c' = c
    · rw [if_pos hd, List.map_append, List.pairwise_append]
      refine ⟨H.sorted dst c, by simp, fun a ha b hb => ?_⟩
      rcases List.mem_map.1 ha with ⟨p', hp', rfl⟩
      have hlt := hold dst c p' hp'
      simp at hb
      omega
    · rw [if_neg hd]
      exact H.sorted h c'
  case once =>
    intro src' dst' c' p' hmem
    rw [hpops, hbox]
    rcases List.mem_append.1 hmem with hmem | hmem
    · rcases H.once _ _ _ _ hmem with ⟨hnone, hin⟩ | hpopped
      · refine Or.inl ⟨hnone, ?_⟩
        by_cases hd : dst' = dst ∧ c' = c
        · rw [if_pos hd, ← hd.1, ← hd.2]
          exact List.mem_append_left _ hin
        · rw [if_neg hd]
          exact hin
      · exact Or.inr hpopped
    · cases List.mem_singleton.1 hmem
      refine Or.inl ⟨H.unsent _ (Nat.le_of_eq hp.symm), ?_⟩
      simp

/-- A step that pops a packet. -/
theorem popped (H : History es s) {h : Host} {c : Chan} {pk : Packet Msg} {ps : List (Packet Msg)}
    {r : Nat} (hbox : s.box h c = pk :: ps) (hclock : s'.clock = s.clock)
    (hbox' : ∀ h' c', s'.box h' c' = if h' = h ∧ c' = c then ps else s.box h' c') :
    History (es ++ [.popped h c pk r]) s' := by
  have hpops : ∀ u, popsOf u (es ++ [.popped h c pk r]) =
      popsOf u es ++ if pk.uid = u then [(h, c, pk, r)] else [] := by
    intro u
    by_cases hu : pk.uid = u <;> simp [popsOf, hu]
  have hhead : pk ∈ s.box h c := by simp [hbox]
  rcases H.boxed h c pk hhead with ⟨hnone, src₀, hsent₀⟩
  -- the pop takes from one mailbox and leaves the others
  have hsub : ∀ h' c', ∀ p ∈ s'.box h' c', p ∈ s.box h' c' := by
    intro h' c' p hp
    rw [hbox'] at hp
    by_cases hd : h' = h ∧ c' = c
    · rw [if_pos hd] at hp
      rw [hd.1, hd.2, hbox]
      exact List.mem_cons_of_mem _ hp
    · rwa [if_neg hd] at hp
  constructor
  case numbered =>
    simpa [hclock] using H.numbered
  case unsent =>
    intro u hu
    have hlt := H.numbered _ _ _ _ hsent₀
    have hne : ¬ pk.uid = u := by omega
    rw [hpops, H.unsent u (by omega), if_neg hne]
    rfl
  case unique =>
    simpa using H.unique
  case boxed =>
    intro h' c' p hp
    rcases H.boxed h' c' p (hsub h' c' p hp) with ⟨hnone', src', hsent'⟩
    -- another packet in a mailbox has another number, since they are sorted there
    have hne : ¬ pk.uid = p.uid := by
      intro huid
      rcases H.unique _ _ _ _ _ _ _ _ hsent₀ hsent' huid with ⟨rfl, rfl, rfl⟩
      have hsorted := H.sorted h c
      rw [hbox, List.map_cons, List.pairwise_cons] at hsorted
      rw [hbox', if_pos ⟨rfl, rfl⟩] at hp
      have := hsorted.1 pk.uid (List.mem_map_of_mem hp)
      omega
    rw [hpops, hnone', if_neg hne]
    exact ⟨rfl, src', List.mem_append_left _ hsent'⟩
  case sorted =>
    intro h' c'
    rw [hbox']
    by_cases hd : h' = h ∧ c' = c
    · rw [if_pos hd]
      have hsorted := H.sorted h c
      rw [hbox, List.map_cons, List.pairwise_cons] at hsorted
      exact hsorted.2
    · rw [if_neg hd]
      exact H.sorted h' c'
  case once =>
    intro src dst c' p hmem
    have hsent : .sent src dst c' p ∈ es := by simpa using hmem
    by_cases huid : pk.uid = p.uid
    · rcases H.unique _ _ _ _ _ _ _ _ hsent₀ hsent huid with ⟨rfl, rfl, rfl⟩
      refine Or.inr ⟨r, ?_⟩
      rw [hpops, hnone, if_pos rfl]
      rfl
    · rw [hpops, if_neg huid, List.append_nil]
      rcases H.once _ _ _ _ hsent with ⟨hnone', hin⟩ | hpopped
      · refine Or.inl ⟨hnone', ?_⟩
        rw [hbox']
        by_cases hd : dst = h ∧ c' = c
        · rw [if_pos hd]
          rw [hd.1, hd.2, hbox] at hin
          rcases List.mem_cons.1 hin with rfl | hin
          · exact absurd rfl huid
          · exact hin
        · rwa [if_neg hd]
      · exact Or.inr hpopped

theorem step (H : History es s) {h : Host} {e : Event Host Chan Msg} (hstep : Step N h s e s') :
    History (es ++ [e]) s' := by
  cases hstep with
  | next _ _ =>
      exact H.internal rfl rfl
  | serve _ _ hbox =>
      exact H.popped hbox rfl fun h' c' => State.setBox_box _ _ _ _ _ _
  | send _ =>
      exact H.sent rfl
  | recv _ hbox =>
      exact H.popped hbox rfl fun h' c' => State.setBox_box _ _ _ _ _ _
  | load _ =>
      exact H.internal rfl rfl
  | save _ =>
      exact H.internal rfl rfl

theorem of_runs {store : Host → Store} (hr : Runs N (State.init store) es s) : History es s :=
  hr.invariant (History.init store) fun _ _ _ _ _ _ H hstep => H.step hstep

end History

end MsgNet
