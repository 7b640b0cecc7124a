import CoRD.Network.RelayLists

/-!
# RelayProgress — a relay waits for nothing but messages

A relay whose operations and logs do not fail can take a step until its threads have ended, or else
it waits for an answer, and then for the next message of the list that it has asked.
-/

namespace Relay

open Lists (Event)

variable {Pk Host Key Msg : Type} [DecidableEq Host]

/-- No operation on a packet and no log fails. -/
structure Spec.Live (sp : Spec Pk Host Key Msg) : Prop where
  fill : ∀ i, ∀ f ∈ sp.fill i, ∀ p, ∃ p', f p = some p'
  readLog : ∀ i, sp.readLog i = true
  pullLog : ∀ i j, sp.pullLog i j = true
  sendLog : ∀ i j, sp.sendLog i j = true

/-- No thread has failed. -/
structure State.Alive (s : State Pk Host Key Msg) : Prop where
  reader : ∀ i, s.reader ≠ .dead i
  puller : ∀ i j, s.puller ≠ .dead i j
  sender : ∀ i j, s.sender ≠ .dead i j

section Progress

variable {sp : Spec Pk Host Key Msg} {own : Nat → Nat → Msg} {plus : Msg → Msg → Msg}
  {s s' : State Pk Host Key Msg} {es : List (Event Host Key Msg)}

omit [DecidableEq Host] in
theorem State.Alive.start (s : State Pk Host Key Msg) : (Relay.start sp s).Alive where
  reader := fun _ => nofun
  puller := fun _ _ => nofun
  sender := fun _ _ => nofun

omit [DecidableEq Host] in
theorem State.Alive.readerStep (hlive : sp.Live) (h : s.Alive) :
    Relay.readerStep sp s = some s' → s'.Alive := by
  intro hstep
  unfold Relay.readerStep at hstep
  split at hstep
  · split at hstep <;> cases hstep <;> exact { h with reader := fun _ => nofun }
  · obtain ⟨p, -, rfl⟩ := Option.map_eq_some_iff.1 hstep
    exact { h with reader := fun _ => nofun }
  · cases hstep
    rename_i i _
    refine { h with reader := fun i' => ?_ }
    rw [hlive.readLog i]
    exact nofun
  · cases hstep
  · cases hstep

theorem State.Alive.pullerStep (hlive : sp.Live) (h : s.Alive) :
    Relay.pullerStep sp s = some s' → s'.Alive := by
  intro hstep
  have hmove : ∀ {s' : State Pk Host Key Msg}, s'.reader = s.reader → s'.sender = s.sender →
      (∀ i j, s'.puller ≠ .dead i j) → s'.Alive := by
    intro s' hreader hsender hpuller
    exact ⟨hreader ▸ h.reader, hpuller, hsender ▸ h.sender⟩
  unfold Relay.pullerStep at hstep
  split at hstep
  · split at hstep
    · split at hstep
      · split at hstep <;> cases hstep <;> exact hmove rfl rfl fun _ _ => nofun
      · cases hstep
        exact hmove rfl rfl fun _ _ => nofun
    · cases hstep
      exact hmove rfl rfl fun _ _ => nofun
  · split at hstep
    · split at hstep
      · cases hstep
        exact hmove rfl rfl fun _ _ => nofun
      · cases hstep
    · cases hstep
      exact hmove rfl rfl fun _ _ => nofun
  · split at hstep
    · split at hstep
      · cases hstep
        exact hmove rfl rfl fun _ _ => nofun
      · split at hstep
        · cases hstep
        · cases hstep
          exact hmove rfl rfl fun _ _ => nofun
    · cases hstep
      exact hmove rfl rfl fun _ _ => nofun
  · cases hstep
    exact hmove rfl rfl fun _ _ => nofun
  · cases hstep
    rename_i i j _
    refine hmove rfl rfl fun i' j' => ?_
    -- the only way to die is a log line
    rw [hlive.pullLog i j]
    exact nofun
  · cases hstep
  · cases hstep

omit [DecidableEq Host] in
theorem State.Alive.senderStep {e : Event Host Key Msg} (hlive : sp.Live) (h : s.Alive) :
    Relay.senderStep sp s = some (e, s') → s'.Alive := by
  intro hstep
  unfold Relay.senderStep at hstep
  split at hstep
  · split at hstep
    · split at hstep
      · split at hstep
        · cases hstep
          rename_i i j _ _ _ _
          refine { h with sender := fun i' j' => ?_ }
          rw [hlive.sendLog i j]
          exact nofun
        · cases hstep
      · cases hstep
        exact { h with sender := fun _ _ => nofun }
    · cases hstep
      exact { h with sender := fun _ _ => nofun }
  · cases hstep
  · cases hstep

theorem State.Alive.step {e : Event Host Key Msg} (hlive : sp.Live) (h : s.Alive) :
    Step sp s e s' → s'.Alive := by
  intro hstep
  cases hstep with
  | reader hr => exact h.readerStep hlive hr
  | puller hp => exact h.pullerStep hlive hp
  | sender hs => exact h.senderStep hlive hs
  | serve hs =>
      unfold serve at hs
      split at hs
      · cases hs
      · cases hs
        exact { h with }

/-- The reader waits for nobody. -/
theorem Correct.reader_step (hlive : sp.Live) (h : Correct sp own plus es s) (halive : s.Alive) :
    s.reader = .done ∨ ∃ s', Relay.readerStep sp s = some s' := by
  unfold Relay.readerStep
  cases hreader : s.reader with
  | read i =>
      refine Or.inr ?_
      by_cases hi : i < sp.packetCnt
      · exact ⟨_, if_pos hi⟩
      · exact ⟨_, if_neg hi⟩
  | fill i todo =>
      refine Or.inr ?_
      obtain ⟨-, ops, -, hops, -⟩ := h.reading i todo hreader
      cases todo with
      | nil => exact ⟨_, rfl⟩
      | cons f todo =>
          have hmem : f ∈ sp.fill i := by
            rw [hops]
            exact List.mem_append_right ops List.mem_cons_self
          obtain ⟨p', hp'⟩ := hlive.fill i f hmem (s.mem i)
          exact ⟨_, Option.map_eq_some_iff.2 ⟨p', hp', rfl⟩⟩
  | dead i => exact absurd hreader (halive.reader i)
  | done => exact Or.inl rfl

/-- The puller waits for the reader, or for an answer. -/
theorem Correct.puller_step (h : Correct sp own plus es s) (halive : s.Alive)
    (hreader : s.reader = .done) :
    s.puller = .done ∨ (∃ s', Relay.pullerStep sp s = some s') ∨
      ∃ i j h₀ k, s.puller = .get i j ∧ i < sp.packetCnt ∧ j < sp.jobCnt ∧
        sp.src j = some (h₀, k) ∧ s.replies h₀ = [] := by
  unfold Relay.pullerStep
  cases hpuller : s.puller with
  | append i j =>
      refine Or.inr (Or.inl ?_)
      by_cases hi : i < sp.packetCnt
      · by_cases hj : j < sp.jobCnt
        · cases hsrc : sp.src j with
          | none => exact ⟨_, by simp only [if_pos hi, if_pos hj, hsrc]; rfl⟩
          | some q => exact ⟨_, by simp only [if_pos hi, if_pos hj, hsrc]; rfl⟩
        · exact ⟨_, by simp only [if_pos hi, if_neg hj]; rfl⟩
      · exact ⟨_, if_neg hi⟩
  | wait i =>
      refine Or.inr (Or.inl ?_)
      by_cases hi : i < sp.packetCnt
      · -- the reader is done, so no flag is missing
        have hflag : s.flag i = true := by
          rw [h.flag i hi, hreader]
          exact hi
        exact ⟨_, by simp only [if_pos hi, if_pos hflag]; rfl⟩
      · exact ⟨_, if_neg hi⟩
  | get i j =>
      have hloop := h.pullerLoop
      rw [hpuller] at hloop
      by_cases hj : j < sp.jobCnt
      · cases hsrc : sp.src j with
        | none => exact Or.inr (Or.inl ⟨_, by simp only [if_pos hj, hsrc]; rfl⟩)
        | some q =>
            cases hreplies : s.replies q.1 with
            | nil => exact Or.inr (Or.inr ⟨i, j, q.1, q.2, rfl, hloop.1, hj, hsrc, hreplies⟩)
            | cons m ms =>
                exact Or.inr (Or.inl ⟨_, by simp only [if_pos hj, hsrc, hreplies]; rfl⟩)
      · exact Or.inr (Or.inl ⟨_, by simp only [if_neg hj]; rfl⟩)
  | add i j m => exact Or.inr (Or.inl ⟨_, rfl⟩)
  | ready i j => exact Or.inr (Or.inl ⟨_, rfl⟩)
  | dead i j => exact absurd hpuller (halive.puller i j)
  | done => exact Or.inl rfl

/-- The sender waits for the puller. -/
theorem Correct.sender_step (h : Correct sp own plus es s) (halive : s.Alive)
    (hpuller : s.puller = .done) :
    s.sender = .done ∨ ∃ e s', Relay.senderStep sp s = some (e, s') := by
  unfold Relay.senderStep
  cases hsender : s.sender with
  | send i j =>
      refine Or.inr ?_
      by_cases hi : i < sp.packetCnt
      · by_cases hj : j < sp.jobCnt
        · have hready : i < s.ready j := by
            rw [h.ready j hj, hpuller]
            simpa [Puller.counted, count] using hi
          exact ⟨_, _, by simp only [if_pos hi, if_pos hj, if_pos hready]; rfl⟩
        · exact ⟨_, _, by simp only [if_pos hi, if_neg hj]; rfl⟩
      · exact ⟨_, _, if_neg hi⟩
  | dead i j => exact absurd hsender (halive.sender i j)
  | done => exact Or.inl rfl

variable [DecidableEq Key]

/-- A puller that waits for an answer has a request in front for the message it waits for. -/
theorem Correct.waits (hapart : KeysApart sp) (h : Correct sp own plus es s) {i j : Nat} {h₀ : Host}
    {k : Key} (hpuller : s.puller = .get i j) (hi : i < sp.packetCnt) (hj : j < sp.jobCnt)
    (hsrc : sp.src j = some (h₀, k)) :
    s.replies h₀ = [] → (∃ ks, s.pending h₀ = k :: ks) ∧ (Lists.popped h₀ k es).length = i := by
  intro hreplies
  have hasked := h.asked h₀
  obtain ⟨old, hold, hlen⟩ := h.replies h₀
  rw [hreplies, List.append_nil] at hold
  rw [hpuller] at hasked hlen
  simp only [Puller.appended, Puller.taken] at hasked hlen
  have hnext : (asks sp h₀ (cells sp.jobCnt (i, j)) ++ [k]) <+:
      asks sp h₀ (cells sp.jobCnt (sp.packetCnt, 0)) := by
    rw [← asks_succ_of_some hsrc]
    exact (cells_isPrefix hi hj).filterMap _
  have hcount : ((poppedAt h₀ es).map Prod.fst).length =
      (asks sp h₀ (cells sp.jobCnt (i, j))).length := by
    rw [← hlen, ← hold, List.length_map, List.length_map]
  obtain ⟨later, hlater⟩ := hnext
  rw [← hlater, List.append_assoc] at hasked
  obtain ⟨hanswered, hpending⟩ := List.append_inj hasked hcount
  refine ⟨⟨later, hpending⟩, ?_⟩
  rw [popped_eq_filter, List.length_map, ← List.countP_eq_length_filter]
  have hkeys : (poppedAt h₀ es).countP (fun q => decide (q.1 = k)) =
      ((poppedAt h₀ es).map Prod.fst).count k := by
    rw [List.count, List.countP_map]
    exact List.countP_congr fun q _ => by simp
  rw [hkeys, hanswered, count_asks hapart hj hsrc (Nat.le_of_lt hj), count_self]

/-- A relay that can only wait has ended, or waits for the next message of a list it has asked. -/
theorem Correct.idle_or_waits (hapart : KeysApart sp) (hlive : sp.Live)
    (h : Correct sp own plus es s) (halive : s.Alive)
    (hstuck : ∀ e s', (∀ h k m, e ≠ .pop h k m) → ¬ Step sp s e s') :
    s.Idle ∨ ∃ i j h₀ k, i < sp.packetCnt ∧ j < sp.jobCnt ∧ sp.src j = some (h₀, k) ∧
      (Lists.popped h₀ k es).length = i ∧ ∀ m, ∃ s', Step sp s (.pop h₀ k m) s' := by
  have hreader : s.reader = .done := by
    rcases h.reader_step hlive halive with hdone | ⟨s', hs'⟩
    · exact hdone
    · exact absurd (.reader hs') (hstuck .internal s' fun _ _ _ => nofun)
  rcases h.puller_step halive hreader with hdone | ⟨s', hs'⟩ | hwaits
  · rcases h.sender_step halive hdone with hsender | ⟨e, s', hs'⟩
    · exact Or.inl ⟨hreader, hdone, hsender⟩
    · refine absurd (.sender hs') (hstuck e s' fun h₀ k m heq => ?_)
      have hpopped := (Inv.senderStep h hs').2 h₀
      rw [heq] at hpopped
      simp [poppedAt] at hpopped
  · exact absurd (.puller hs') (hstuck .internal s' fun _ _ _ => nofun)
  · obtain ⟨i, j, h₀, k, hpuller, hi, hj, hsrc, hreplies⟩ := hwaits
    obtain ⟨⟨ks, hks⟩, hlen⟩ := h.waits hapart hpuller hi hj hsrc hreplies
    have hserve : ∀ m, ∃ s', serve h₀ m s = some (k, s') :=
      fun m => ⟨_, by simp only [serve, hks]; rfl⟩
    refine Or.inr ⟨i, j, h₀, k, hi, hj, hsrc, hlen, fun m => ?_⟩
    obtain ⟨s', hs'⟩ := hserve m
    exact ⟨s', .serve hs'⟩

end Progress

end Relay
