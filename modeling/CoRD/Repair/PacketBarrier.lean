import CoRD.Repair.ConvDRWorker

/-!
# PacketBarrier — when packets are passed on

Both `ConvDRWorker` and `PPRPullDRWorker` hold a packet back until all reading threads have passed
it.  The first adds one to its counter where the least of the other counters has grown, the second
assigns the least.  Since a turn of one thread raises the least by at most one, this comes to the
same: in every order of steps, the counter is the least.

So a packet that is combined or sent holds what all helpers or children have sent for it, and what
is sent for a job is finished.
-/

namespace CoRD

open Lists (Event LocalRuns)

open PPRPull (minNum)

/-- The loop finds the least of the counters, when they do not go beyond the number of packets. -/
theorem isLeast_minNum {packetCnt totNum : Nat} {nums : Nat → Nat} (hpos : 0 < totNum) :
    (∀ j < totNum, nums j ≤ packetCnt) →
      IsLeast (Set.image nums (Set.Iio totNum)) (minNum packetCnt totNum nums) := by
  intro hle
  constructor
  · by_contra hnot
    -- otherwise all counters have passed one more
    have hless : ∀ j < totNum, minNum packetCnt totNum nums + 1 ≤ nums j := by
      intro j hj
      refine (PPRPull.minNum_le hj).lt_of_ne fun heq => hnot ⟨j, hj, heq.symm⟩
    have hmore : minNum packetCnt totNum nums + 1 ≤ minNum packetCnt totNum nums :=
      PPRPull.le_minNum.2 ⟨(hless 0 hpos).trans (hle 0 hpos), hless⟩
    exact absurd hmore (Nat.lt_irrefl _)
  · rintro _ ⟨j, hj, rfl⟩
    exact PPRPull.minNum_le hj

/-! ## The requestor of a conventional repair -/

namespace ConvDR

/-- Packet `p` of helper `id`, as it was popped. -/
def received (localIP : Nat) (jobs : List ConvMulJob) (es : List (Event Nat ListKey Msg))
    (id p : Nat) : Msg :=
  (popped localIP jobs es id).getD p (.packet [])

/-- What holds of the counters and the buffers after these events. -/
structure Barrier (conf : PacketConfig) (localIP ecK : Nat) (jobs : List ConvMulJob)
    (es : List (Event Nat ListKey Msg)) (s : State) : Prop where
  -- a reading thread has counted what it has popped, except for the packet it works on
  counted : ∀ id < ecK, (popped localIP jobs es id).length =
    s.waitingToPullerNum id + if (s.readers id).place = .waits then 0 else 1
  least : IsLeast (Set.image s.waitingToPullerNum (Set.Iio ecK)) s.waitingToPull
  -- a packet that is being combined has been counted and stored for all helpers
  combines : ∀ j id, s.place = .combines j id → ∀ id' < ecK, s.pktId < s.waitingToPullerNum id' ∧
    Holds conf (s.diskPkts3 s.pktId id') (received localIP jobs es id' s.pktId).str
  -- what `_waitingToSend` has passed is combined from all helpers
  finished : ∀ p j job, jobs[j]? = some job → p * jobs.length + j < s.waitingToSend →
    Holds conf (s.diskPkts3 p (ecK + j))
      (combination conf (received localIP jobs es) job.coefs p ecK)
  -- what has been sent was finished, and stored for all helpers
  behind : s.sender.1 * jobs.length + s.sender.2 ≤ s.waitingToSend
  sent : (Lists.pushes es).map some = (List.range (s.sender.1 * jobs.length + s.sender.2)).map
    (result conf localIP ecK jobs (received localIP jobs es))
  passed : ∀ c < s.sender.1 * jobs.length + s.sender.2, ∀ id < ecK,
    c / jobs.length < s.waitingToPullerNum id

theorem barrier_of_runs {conf : PacketConfig} {localIP ecK : Nat} {jobs : List ConvMulJob}
    {es : List (Event Nat ListKey Msg)} {s : State} (hecK : 0 < ecK) :
    LocalRuns (Step conf localIP ecK jobs) State.init es s →
      Barrier conf localIP ecK jobs es s := by
  intro hruns
  have hfeeds : Feeds localIP jobs (received localIP jobs es) es := by
    intro id p m hm
    rw [received, List.getD_eq_getElem?_getD, hm, Option.getD_some]
  have h := requestor_of_runs hecK hruns hfeeds
  constructor
  case counted =>
    intro id hid
    have hreader := h.readers id hid
    rw [hreader.length, hreader.counted]
  case least =>
    rw [h.waitingToPull]
    refine isLeast_minNum hecK fun id hid => ?_
    exact (h.readers id hid).counted.trans_le (h.readers id hid).le
  case combines =>
    intro j id hplace id' hid'
    have hat := h.completion.place
    rw [hplace] at hat
    exact h.stored hid' hat.1
  case finished => exact fun p j job hjob hlt => (h.completion.finished p j job hjob hlt).2
  case behind => exact h.sender.le
  case sent => exact h.sender.pushes
  case passed =>
    intro c hc id hid
    have hne : jobs ≠ [] := by
      rintro rfl
      rcases h.sender.lt with hzero | hlt
      · rw [hzero, List.length_nil, Nat.mul_zero] at hc
        exact absurd hc (Nat.not_lt_zero c)
      · exact absurd hlt (Nat.not_lt_zero _)
    have hjob := List.getElem?_eq_getElem (Nat.mod_lt c (List.length_pos_iff.2 hne))
    have hfinished := h.completion.finished (c / jobs.length) (c % jobs.length) _ hjob
    rw [Nat.div_add_mod'] at hfinished
    exact (h.stored hid (hfinished (hc.trans_le h.sender.le)).1).1

end ConvDR

/-! ## A node of a reduction tree -/

namespace PPRPull

section Node

variable (conf : PacketConfig) (blkDir : Str → Buf) (localIP : Nat) (cmd : PPRCmd)
  (children : List Nat) (es : List (Event Nat ListKey Msg)) (s : State)

/-- What holds of the counters and the packets after these events. -/
structure Barrier : Prop where
  -- a reading thread has counted what it has popped, except for a reply that it holds
  counted : ∀ num child, children[num]? = some child →
    (Lists.popped (pullIP localIP cmd child) (.tmpId cmd.lostBlkName child) es).length =
      s.indicesWaiting num + (s.replies num).toList.length
  least : children ≠ [] →
    IsLeast (Set.image s.indicesWaiting (Set.Iio children.length)) s.waitingToSend
  -- what has been sent was xored with the packets of all children
  behind : s.sent ≤ s.waitingToSend
  sent : Lists.pushes es = (List.range s.sent).map fun p =>
    (writeIP localIP cmd, writeKey cmd, packet conf s p)
  passed : ∀ p < s.sent, ∀ num < children.length, p < s.indicesWaiting num
  xored : ∀ p < s.sent, ∀ x : Int, 0 ≤ x → x < conf.packetSize →
    s.diskPkts p x = own conf blkDir cmd p x +
      if x < (8 * (conf.packetSize / 8) : Nat) then
        (Finset.range children.length).sum fun num =>
          (received localIP cmd es (children.getD num 0) p).str x
      else 0

end Node

theorem barrier_of_runs {conf : PacketConfig} {blkDir : Str → Buf} {localIP : Nat} {cmd : PPRCmd}
    {children : List Nat} {es : List (Event Nat ListKey Msg)} {s : State}
    (hchildren : PPRPull.children cmd.ecK cmd.id = some children) :
    LocalRuns (Step conf blkDir localIP cmd) State.init es s →
      Barrier conf blkDir localIP cmd children es s := by
  intro hruns
  have h := node_of_runs (children_nodup hchildren) hchildren hruns
  have hpassed : ∀ p < s.sent, ∀ num < children.length, p < s.indicesWaiting num :=
    fun p hp num hnum => h.lt_indicesWaiting hnum hp
  constructor
  case counted =>
    intro num child hchild
    rcases h.pops num child hchild with ⟨xored, hpopped, hlength⟩
    rw [hpopped, List.length_append, hlength]
  case least =>
    intro hne
    rw [h.passed hne]
    exact isLeast_minNum (List.length_pos_iff.2 hne)
      fun num _ => (h.indicesWaiting num).trans h.waitingToPull
  case behind => exact h.sent
  case sent => exact h.pushes
  case passed => exact hpassed
  case xored =>
    intro p hp x h0 hx
    rw [h.bytes p (hp.trans_le (h.sent.trans h.waitingToSend)) x h0 hx, added]
    congr 2
    exact Finset.sum_congr rfl fun num hnum =>
      if_pos (hpassed p hp num (Finset.mem_range.1 hnum))

end PPRPull

/-- For any number of helpers or children, of packets and of jobs, and in every order in which the
threads take their steps, both counters are the least of what the reading threads have counted; and
what is combined or sent has passed all of them. -/
theorem packet_barriers :
    (∀ (conf : PacketConfig) (localIP ecK : Nat) (jobs : List ConvMulJob)
      (es : List (Event Nat ListKey ConvDR.Msg)) (s : ConvDR.State), 0 < ecK →
        LocalRuns (ConvDR.Step conf localIP ecK jobs) ConvDR.State.init es s →
          ConvDR.Barrier conf localIP ecK jobs es s) ∧
      ∀ (conf : PacketConfig) (blkDir : Str → Buf) (localIP : Nat) (cmd : PPRCmd)
        (children : List Nat) (es : List (Event Nat ListKey PPRPull.Msg)) (s : PPRPull.State),
          PPRPull.children cmd.ecK cmd.id = some children →
            LocalRuns (PPRPull.Step conf blkDir localIP cmd) PPRPull.State.init es s →
              PPRPull.Barrier conf blkDir localIP cmd children es s :=
  ⟨fun _ _ _ _ _ _ hecK hruns => ConvDR.barrier_of_runs hecK hruns,
    fun _ _ _ _ _ _ _ hchildren hruns => PPRPull.barrier_of_runs hchildren hruns⟩

/-- Of two helpers the second is counted first, and the packet is in reach when both are counted.
The requestor of a tree with one helper sends its packet. -/
theorem packet_barriers_two :
    (∃ es s, s.waitingToPull = 1 ∧
      ConvDR.Barrier ⟨1, 8, 0⟩ 7 2 [⟨2, 7, [1, 1], []⟩] es s) ∧
    ∃ es s, s.sent = 1 ∧
      PPRPull.Barrier ⟨1, 8, 0⟩ (fun _ => zeros) 7 ⟨1, 1, [5, 7], 1, [], []⟩ [0] es s := by
  constructor
  · let conf : PacketConfig := ⟨1, 8, 0⟩
    let job : ConvMulJob := ⟨2, 7, [1, 1], []⟩
    let m : ConvDR.Msg := .packet [1]
    let s₁ : ConvDR.State :=
      { ConvDR.State.init with
        readers := Function.update ConvDR.State.init.readers 0 ⟨0, .got m⟩ }
    let s₂ : ConvDR.State := { s₁ with readers := Function.update s₁.readers 1 ⟨0, .got m⟩ }
    let s₃ : ConvDR.State := (s₂.store conf 1 m).count conf 2 1
    have hjob : ConvDR.reqJob 7 [job] = some job := rfl
    have h₁ : ConvDR.Step conf 7 2 [job] .init (.pop 7 (.tmpId [] 0) m) s₁ :=
      .pull hjob (by decide) rfl (by decide)
    have h₂ : ConvDR.Step conf 7 2 [job] s₁ (.pop 7 (.tmpId [] 1) m) s₂ :=
      .pull hjob (by decide) rfl (by decide)
    have h₃ : ConvDR.Step conf 7 2 [job] s₂ .internal (s₂.store conf 1 m) := .store (by decide) rfl
    have h₄ : ConvDR.Step conf 7 2 [job] (s₂.store conf 1 m) .internal s₃ := .count (by decide) rfl
    have h₅ : ConvDR.Step conf 7 2 [job] s₃ .internal (s₃.store conf 0 m) := .store (by decide) rfl
    have h₆ : ConvDR.Step conf 7 2 [job] (s₃.store conf 0 m) .internal
        ((s₃.store conf 0 m).count conf 2 0) := .count (by decide) rfl
    have hruns := (((((LocalRuns.refl _).snoc h₁).snoc h₂).snoc h₃).snoc h₄).snoc h₅ |>.snoc h₆
    exact ⟨_, _, rfl, packet_barriers.1 conf 7 2 [job] _ _ (by decide) hruns⟩
  · let conf : PacketConfig := ⟨1, 8, 0⟩
    let cmd : PPRCmd := ⟨1, 1, [5, 7], 1, [], []⟩
    let m : PPRPull.Msg := .packet [1]
    let s₁ : PPRPull.State := { PPRPull.State.init with waitingToPull := 1 }
    let s₂ : PPRPull.State := { s₁ with replies := Function.update s₁.replies 0 (some m) }
    let s₃ : PPRPull.State := s₂.xor conf [0].length 0 m
    have hchildren : PPRPull.children cmd.ecK cmd.id = some [0] := by decide
    have h₁ : PPRPull.Step conf (fun _ => zeros) 7 cmd .init .internal s₁ :=
      .skip rfl (by decide) fun i hi => absurd hi (Nat.not_lt_zero i)
    have h₂ : PPRPull.Step conf (fun _ => zeros) 7 cmd s₁ (.pop 7 (.tmpId [] 0) m) s₂ :=
      .pull hchildren rfl rfl (by decide)
    have h₃ : PPRPull.Step conf (fun _ => zeros) 7 cmd s₂ .internal s₃ := .xor hchildren rfl
    have h₄ : PPRPull.Step conf (fun _ => zeros) 7 cmd s₃ _ { s₃ with sent := 1 } :=
      .send (by decide) fun i hi => absurd hi (Nat.not_lt_zero i)
    have hruns := ((((LocalRuns.refl _).snoc h₁).snoc h₂).snoc h₃).snoc h₄
    exact ⟨_, _, rfl, packet_barriers.2 conf _ 7 cmd _ _ _ hchildren hruns⟩

end CoRD
