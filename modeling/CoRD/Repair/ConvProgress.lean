import CoRD.Repair.ConvDRWorker

/-!
# ConvProgress — the requestor of a conventional repair comes to an end

The threads of the requestor take only so many steps, each lost block gets its packets in order, and
once all helpers have delivered nothing holds the requestor up.
-/

namespace CoRD

namespace ConvDR

open Lists (Event)

/-! ## The steps of the threads -/

/-- The steps of a turn of a reading thread. -/
def ReaderPlace.rank : ReaderPlace → Nat
  | .waits => 0
  | .got _ => 1
  | .stored => 2

/-- The steps a reading thread has taken. -/
def Reader.rank (r : Reader) : Nat :=
  3 * r.i + r.place.rank

/-- The steps `requestorMulCompletion` has taken with a packet. -/
def CompletionPlace.rank (ecK : Nat) : CompletionPlace → Nat
  | .waits => 0
  | .combines j id => 1 + j * (ecK + 1) + id

/-- The steps all threads have taken. -/
def State.rank (s : State) (ecK nj : Nat) : Nat :=
  ((Finset.range ecK).sum fun id => (s.readers id).rank) +
    (s.pktId * (1 + nj * (ecK + 1)) + s.place.rank ecK) + (s.sender.1 * nj + s.sender.2)

/-- All threads of the requestor have returned. -/
structure RequestorDone (conf : PacketConfig) (ecK : Nat) (s : State) : Prop where
  readers : ∀ id < ecK, (s.readers id).i = conf.packetCnt ∧ (s.readers id).place = .waits
  pktId : s.pktId = conf.packetCnt
  place : s.place = .waits
  sender : s.sender.1 = conf.packetCnt

section RequestorRun

variable {conf : PacketConfig} {localIP ecK : Nat} {jobs : List ConvMulJob} {pkts : Nat → Nat → Msg}
  {es : List (Event Nat ListKey Msg)} {s s' : State}

/-- One reading thread has taken a step. -/
theorem sum_rank_update {id : Nat} (readers : Nat → Reader) (r : Reader) (hid : id < ecK) :
    r.rank = (readers id).rank + 1 →
      ((Finset.range ecK).sum fun id' => (Function.update readers id r id').rank) =
        ((Finset.range ecK).sum fun id' => (readers id').rank) + 1 := by
  intro hrank
  have hone : ∀ id', (Function.update readers id r id').rank =
      (readers id').rank + if id = id' then 1 else 0 := by
    intro id'
    by_cases heq : id = id'
    · rw [← heq, Function.update_self, hrank, if_pos rfl]
    · rw [Function.update_of_ne (Ne.symm heq), if_neg heq, Nat.add_zero]
  rw [Finset.sum_congr rfl fun id' _ => hone id', Finset.sum_add_distrib, Finset.sum_ite_eq,
    if_pos (Finset.mem_range.2 hid)]

/-- To the next job, or to the next packet. -/
theorem rank_goTo (s : State) (ecK : Nat) {nj j : Nat} : j ≤ nj →
    (s.goTo nj j).pktId * (1 + nj * (ecK + 1)) + (s.goTo nj j).place.rank ecK =
      s.pktId * (1 + nj * (ecK + 1)) + (1 + j * (ecK + 1)) := by
  intro hj
  unfold State.goTo
  by_cases hlt : j < nj
  · rw [if_pos hlt]
    rfl
  · rw [if_neg hlt, hj.antisymm (not_lt.1 hlt)]
    show (s.pktId + 1) * _ + 0 = _
    rw [Nat.succ_mul, Nat.add_zero]

theorem next_position {nj : Nat} {pos : Nat × Nat} : pos.2 < nj →
    (next nj pos).1 * nj + (next nj pos).2 = pos.1 * nj + pos.2 + 1 := by
  intro hlt
  unfold next
  split
  · rfl
  · show (pos.1 + 1) * nj + 0 = _
    rw [Nat.succ_mul]
    omega

theorem Requestor.rank_step (h : Requestor conf localIP ecK jobs pkts es s)
    {e : Event Nat ListKey Msg} :
    Step conf localIP ecK jobs s e s' → s'.rank ecK jobs.length = s.rank ecK jobs.length + 1 := by
  intro hstep
  cases hstep with
  | @pull job id m hjob hid hplace hlt =>
      have hsum := sum_rank_update s.readers ⟨(s.readers id).i, .got m⟩ hid
        (by simp only [Reader.rank, ReaderPlace.rank, hplace])
      simp only [State.rank] at hsum ⊢
      omega
  | @store id m hid hplace =>
      have hsum := sum_rank_update s.readers ⟨(s.readers id).i, .stored⟩ hid
        (by simp only [Reader.rank, ReaderPlace.rank, hplace])
      simp only [State.rank, State.store] at hsum ⊢
      omega
  | @count id hid hplace =>
      have hsum := sum_rank_update s.readers ⟨(s.readers id).i + 1, .waits⟩ hid
        (by simp only [Reader.rank, ReaderPlace.rank, hplace]; omega)
      simp only [State.rank, State.count] at hsum ⊢
      omega
  | wake hplace hpkt hlt =>
      have hgo := rank_goTo s ecK (Nat.zero_le jobs.length)
      rw [State.rank, goTo_readers, goTo_sender, hgo, State.rank, hplace, Nat.zero_mul]
      simp only [CompletionPlace.rank]
      omega
  | combine hplace hid hjob =>
      simp only [State.rank, State.combine, hplace, CompletionPlace.rank]
      omega
  | @notify j hplace =>
      have hat := h.completion.place
      rw [hplace] at hat
      rcases hat with ⟨-, -, -, job, hjob, -⟩
      have hgo := rank_goTo { s with waitingToSend := s.waitingToSend + 1 } ecK
        (lt_length_of_job hjob)
      rw [State.rank, goTo_readers, goTo_sender, hgo, State.rank, hplace, Nat.succ_mul]
      simp only [CompletionPlace.rank]
      omega
  | send hjob hpkt hlt hlog =>
      have hpos := next_position (lt_length_of_job hjob)
      simp only [State.rank] at hpos ⊢
      omega

/-- The threads have taken as many steps as there are events. -/
theorem length_of_runs (hecK : 0 < ecK) (hruns : Lists.LocalRuns (Step conf localIP ecK jobs)
    State.init es s) : Feeds localIP jobs pkts es → es.length = s.rank ecK jobs.length := by
  intro hfeeds
  induction hruns with
  | refl =>
      have hnone : ((Finset.range ecK).sum fun id => (State.init.readers id).rank) = 0 :=
        Finset.sum_eq_zero fun _ _ => rfl
      rw [State.rank, hnone]
      simp [State.init, CompletionPlace.rank]
  | snoc hruns hstep ih =>
      have hreq := requestor_of_runs hecK hruns hfeeds.of_append
      rw [List.length_append, ih hfeeds.of_append, List.length_singleton, hreq.rank_step hstep]

theorem Requestor.completion_le (h : Requestor conf localIP ecK jobs pkts es s) :
    s.waitingToSend ≤ conf.packetCnt * jobs.length ∧
      s.pktId * (1 + jobs.length * (ecK + 1)) + s.place.rank ecK ≤
        conf.packetCnt * (1 + jobs.length * (ecK + 1)) := by
  have hat := h.completion.place
  cases hplace : s.place with
  | waits =>
      rw [hplace] at hat
      exact ⟨hat.trans_le (Nat.mul_le_mul_right _ h.completion.le),
        Nat.mul_le_mul_right _ h.completion.le⟩
  | combines j id =>
      rw [hplace] at hat
      rcases hat with ⟨hpull, hid, hsend, job, hjob, -⟩
      have hj := lt_length_of_job hjob
      have hpkt : s.pktId + 1 ≤ conf.packetCnt := h.lt_packetCnt hpull
      constructor
      · have hle := Nat.mul_le_mul_right jobs.length hpkt
        rw [Nat.succ_mul] at hle
        omega
      · have hle := Nat.mul_le_mul_right (1 + jobs.length * (ecK + 1)) hpkt
        have hrank := Nat.mul_le_mul_right (ecK + 1) (Nat.succ_le_of_lt hj)
        rw [Nat.succ_mul] at hle hrank
        simp only [CompletionPlace.rank]
        omega

theorem Requestor.rank_le (h : Requestor conf localIP ecK jobs pkts es s) :
    s.rank ecK jobs.length ≤ ecK * (3 * conf.packetCnt) +
      conf.packetCnt * (1 + jobs.length * (ecK + 1)) + conf.packetCnt * jobs.length := by
  have hreader : ∀ id ∈ Finset.range ecK, (s.readers id).rank ≤ 3 * conf.packetCnt := by
    intro id hid
    have hok := h.readers id (Finset.mem_range.1 hid)
    have hle := hok.le
    have hlt := hok.lt
    rw [Reader.rank]
    cases hplace : (s.readers id).place with
    | waits =>
        simp only [ReaderPlace.rank]
        omega
    | got m =>
        have hlt := hlt fun heq => by rw [hplace] at heq; cases heq
        simp only [ReaderPlace.rank]
        omega
    | stored =>
        have hlt := hlt fun heq => by rw [hplace] at heq; cases heq
        simp only [ReaderPlace.rank]
        omega
  have hsum := Finset.sum_le_card_nsmul _ _ _ hreader
  rw [Finset.card_range, smul_eq_mul] at hsum
  obtain ⟨hsend, hcompletion⟩ := h.completion_le
  have hsender := h.sender.le
  rw [State.rank]
  omega

/-! ## The packets of one job -/

/-- If every packet can be logged and all helpers deliver, nothing else holds the requestor up. -/
theorem Requestor.done (h : Requestor conf localIP ecK jobs pkts es s)
    (hlog : conf.packetCnt ≠ 3) {job : ConvMulJob} (hreq : reqJob localIP jobs = some job)
    (hstuck : ∀ e s', (∀ h' k m, e ≠ .pop h' k m) → ¬ Step conf localIP ecK jobs s e s')
    (hpull : ∀ id < ecK, (∃ m, ∀ s', ¬ Step conf localIP ecK jobs s
      (.pop localIP (pullKey localIP jobs id) m) s') ∨
        (popped localIP jobs es id).length = conf.packetCnt) :
    RequestorDone conf ecK s := by
  have hnj : 0 < jobs.length := List.length_pos_of_mem (List.mem_of_find?_eq_some hreq)
  have hreaders : ∀ id < ecK,
      (s.readers id).i = conf.packetCnt ∧ (s.readers id).place = .waits := by
    intro id hid
    have hok := h.readers id hid
    have hplace : (s.readers id).place = .waits := by
      cases hplace : (s.readers id).place with
      | waits => rfl
      | got m => exact absurd (.store hid hplace) (hstuck _ _ fun _ _ _ heq => by cases heq)
      | stored => exact absurd (.count hid hplace) (hstuck _ _ fun _ _ _ heq => by cases heq)
    refine ⟨?_, hplace⟩
    by_contra hne
    have hlt : (s.readers id).i < conf.packetCnt := lt_of_le_of_ne hok.le hne
    rcases hpull id hid with ⟨m, hnone⟩ | hlength
    · rw [pullKey_eq hreq] at hnone
      exact hnone _ (.pull hreq hid hplace hlt)
    · rw [hok.length, if_pos hplace] at hlength
      exact hne hlength
  have hfull : s.waitingToPull = conf.packetCnt := by
    rw [h.waitingToPull]
    refine Nat.le_antisymm (PPRPull.le_minNum.1 (Nat.le_refl _)).1 (PPRPull.le_minNum.2 ⟨?_, ?_⟩)
    · exact Nat.le_refl _
    · intro id hid
      rw [(h.readers id hid).counted, (hreaders id hid).1]
  have hplace : s.place = .waits := by
    have hat := h.completion.place
    cases hplace : s.place with
    | waits => rfl
    | combines j id =>
        rw [hplace] at hat
        rcases hat with ⟨-, hid, -, job', hjob', -⟩
        rcases hid.lt_or_eq with hlt | rfl
        · exact absurd (.combine hplace hlt hjob') (hstuck _ _ fun _ _ _ heq => by cases heq)
        · exact absurd (.notify hplace) (hstuck _ _ fun _ _ _ heq => by cases heq)
  have hpkt : s.pktId = conf.packetCnt := by
    by_contra hne
    have hlt : s.pktId < conf.packetCnt := lt_of_le_of_ne h.completion.le hne
    exact hstuck _ _ (fun _ _ _ heq => by cases heq) (.wake hplace hlt (hfull.symm ▸ hlt))
  have hsend : s.waitingToSend = conf.packetCnt * jobs.length := by
    have hat := h.completion.place
    rw [hplace, hpkt] at hat
    exact hat
  refine ⟨hreaders, hpkt, hplace, ?_⟩
  -- all that is finished has been pushed
  have hle := h.sender.le
  rw [hsend] at hle
  have hj : s.sender.2 < jobs.length := by
    rcases h.sender.lt with h0 | hlt
    · rw [h0]
      exact hnj
    · exact hlt
  have hsender : s.sender.1 ≤ conf.packetCnt := by
    by_contra hgt
    have hmore := Nat.mul_le_mul_right jobs.length (Nat.lt_of_not_le hgt)
    rw [Nat.succ_mul] at hmore
    omega
  by_contra hne
  have hlt : s.sender.1 < conf.packetCnt := lt_of_le_of_ne hsender hne
  have hmore := Nat.mul_le_mul_right jobs.length (Nat.succ_le_of_lt hlt)
  rw [Nat.succ_mul] at hmore
  refine hstuck _ _ (fun _ _ _ heq => by cases heq) (.send (List.getElem?_eq_getElem hj) hlt ?_
    fun i _ => pktOutput_isSome i hlog)
  rw [hsend]
  omega

end RequestorRun

/-! ## What the requestor does to the lists -/

/-- The requestor pushes packets of lost blocks, and pops what its helpers have left. -/
def RequestorEvent (localIP ecK : Nat) (jobs : List ConvMulJob) : Event Nat ListKey Msg → Prop
  | .internal => True
  | .push h k _ => h = localIP ∧ ∃ job ∈ jobs, k = .blk job.lostBlkName
  | .pop h k _ => h = localIP ∧ ∃ id < ecK, k = pullKey localIP jobs id

theorem Step.event {conf : PacketConfig} {localIP ecK : Nat} {jobs : List ConvMulJob} {s s' : State}
    {e : Event Nat ListKey Msg} :
    Step conf localIP ecK jobs s e s' → RequestorEvent localIP ecK jobs e := by
  intro hstep
  cases hstep with
  | @pull job id m hjob hid hplace hlt => exact ⟨rfl, id, hid, (pullKey_eq hjob id).symm⟩
  | send hjob hpkt hlt hlog => exact ⟨rfl, _, List.mem_of_getElem? hjob, rfl⟩
  | store hid hplace => trivial
  | count hid hplace => trivial
  | wake hplace hpkt hlt => trivial
  | combine hplace hid hjob => trivial
  | notify hplace => trivial

theorem events_of_runs {conf : PacketConfig} {localIP ecK : Nat} {jobs : List ConvMulJob}
    {es : List (Event Nat ListKey Msg)} {s : State}
    (hruns : Lists.LocalRuns (Step conf localIP ecK jobs) State.init es s) :
    ∀ e ∈ es, RequestorEvent localIP ecK jobs e :=
  (hruns.invariant (P := fun _ => True) trivial fun _ _ _ _ hstep => ⟨trivial, hstep.event⟩).2

end ConvDR

end CoRD
