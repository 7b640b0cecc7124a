import CoRD.Network.RelayProgress

/-!
# RelayBound — how long the threads of a relay run

Every thread of a relay goes through its loops once.  What is left of the loops shrinks with every
step that is not an answer, and there are no more answers than requests, so a batch comes to an end
after a number of steps that is known beforehand.

A reader with an operation that fails gets no further than the packet it belongs to.
-/

namespace Relay

open Lists (Event)

variable {Pk Host Key Msg : Type}

/-! ## What is left of a thread -/

/-- The steps left in a loop over packets and jobs, with one step for each cell and one for each
packet. -/
def loopLeft (packetCnt jobCnt i j : Nat) : Nat :=
  if i < packetCnt then (packetCnt - (i + 1)) * (jobCnt + 1) + (jobCnt - j) + 1 else 0

theorem loopLeft_cell {packetCnt i : Nat} (jobCnt j : Nat) (hi : i < packetCnt) :
    j < jobCnt → loopLeft packetCnt jobCnt i j = loopLeft packetCnt jobCnt i (j + 1) + 1 := by
  intro hj
  unfold loopLeft
  rw [if_pos hi, if_pos hi]
  omega

theorem loopLeft_packet {packetCnt i : Nat} (jobCnt j : Nat) (hi : i < packetCnt) :
    loopLeft packetCnt jobCnt (i + 1) 0 < loopLeft packetCnt jobCnt i j := by
  unfold loopLeft
  rw [if_pos hi]
  split
  · rename_i hnext
    rw [show packetCnt - (i + 1) = packetCnt - (i + 1 + 1) + 1 by omega, Nat.succ_mul]
    omega
  · omega

/-- The same where a cell takes up to three steps, and waiting for the packet one. -/
def waitLeft (packetCnt jobCnt i : Nat) : Nat :=
  (packetCnt - i) * (3 * jobCnt + 2) + 1

theorem waitLeft_packet {packetCnt i : Nat} (jobCnt : Nat) (hi : i < packetCnt) :
    waitLeft packetCnt jobCnt i = waitLeft packetCnt jobCnt (i + 1) + (3 * jobCnt + 2) := by
  unfold waitLeft
  rw [show packetCnt - i = packetCnt - (i + 1) + 1 by omega, Nat.succ_mul]
  omega

/-- The steps left to the reader, which does at most `c` operations on a packet. -/
def Reader.left (c packetCnt : Nat) : Reader Pk → Nat
  | .read i => (packetCnt - i) * (c + 2) + 1
  | .fill i todo => todo.length + 1 + ((packetCnt - (i + 1)) * (c + 2) + 1)
  | .dead _ => 0
  | .done => 0

def Puller.left (packetCnt jobCnt : Nat) : Puller Msg → Nat
  | .append i j => loopLeft packetCnt jobCnt i j + 1 + waitLeft packetCnt jobCnt 0
  | .wait i => waitLeft packetCnt jobCnt i
  | .get i j => waitLeft packetCnt jobCnt (i + 1) + 3 * (jobCnt - j) + 1
  | .add i j _ => waitLeft packetCnt jobCnt (i + 1) + 3 * (jobCnt - (j + 1)) + 3
  | .ready i j => waitLeft packetCnt jobCnt (i + 1) + 3 * (jobCnt - (j + 1)) + 2
  | .dead _ _ => 0
  | .done => 0

def Sender.left (packetCnt jobCnt : Nat) : Sender → Nat
  | .send i j => loopLeft packetCnt jobCnt i j + 1
  | .dead _ _ => 0
  | .done => 0

section Left

variable (c : Nat) (sp : Spec Pk Host Key Msg)

def State.left (s : State Pk Host Key Msg) : Nat :=
  s.reader.left c sp.packetCnt + s.puller.left sp.packetCnt sp.jobCnt +
    s.sender.left sp.packetCnt sp.jobCnt

variable {c sp} [DecidableEq Host] {s s' : State Pk Host Key Msg}

omit [DecidableEq Host] in
theorem readerStep_left (hc : ∀ i, (sp.fill i).length ≤ c) :
    readerStep sp s = some s' → s'.reader.left c sp.packetCnt < s.reader.left c sp.packetCnt ∧
      s'.puller = s.puller ∧ s'.sender = s.sender := by
  intro hstep
  unfold readerStep at hstep
  split at hstep
  · rename_i i hreader
    split at hstep
    · rename_i hi
      cases hstep
      refine ⟨?_, rfl, rfl⟩
      rw [hreader]
      have hlen := hc i
      simp only [Reader.left]
      rw [show sp.packetCnt - i = sp.packetCnt - (i + 1) + 1 by omega, Nat.succ_mul]
      omega
    · cases hstep
      refine ⟨?_, rfl, rfl⟩
      rw [hreader]
      exact Nat.succ_pos _
  · rename_i i f todo hreader
    obtain ⟨p, -, rfl⟩ := Option.map_eq_some_iff.1 hstep
    refine ⟨?_, rfl, rfl⟩
    rw [hreader]
    simp only [Reader.left, List.length_cons]
    omega
  · rename_i i hreader
    cases hstep
    refine ⟨?_, rfl, rfl⟩
    rw [hreader]
    cases sp.readLog i with
    | true =>
        simp only [Reader.left, if_true, List.length_nil]
        omega
    | false => exact Nat.succ_pos _
  · cases hstep
  · cases hstep

theorem pullerStep_left : pullerStep sp s = some s' →
    s'.puller.left sp.packetCnt sp.jobCnt < s.puller.left sp.packetCnt sp.jobCnt ∧
      s'.reader = s.reader ∧ s'.sender = s.sender := by
  intro hstep
  unfold pullerStep at hstep
  split at hstep
  · rename_i i j hpuller
    rw [hpuller]
    split at hstep
    · rename_i hi
      split at hstep
      · rename_i hj
        -- each turn of the inner loop takes one cell, each turn of the outer one a row
        have hcell := loopLeft_cell sp.jobCnt j hi hj
        split at hstep
        · cases hstep
          refine ⟨?_, rfl, rfl⟩
          simp only [Puller.left]
          omega
        · cases hstep
          refine ⟨?_, rfl, rfl⟩
          simp only [Puller.left]
          omega
      · cases hstep
        have hpacket := loopLeft_packet sp.jobCnt j hi
        refine ⟨?_, rfl, rfl⟩
        simp only [Puller.left]
        omega
    · cases hstep
      refine ⟨?_, rfl, rfl⟩
      simp only [Puller.left]
      omega
  · rename_i i hpuller
    rw [hpuller]
    split at hstep
    · rename_i hi
      split at hstep
      · cases hstep
        have hpacket := waitLeft_packet sp.jobCnt hi
        refine ⟨?_, rfl, rfl⟩
        simp only [Puller.left]
        omega
      · cases hstep
    · cases hstep
      exact ⟨Nat.succ_pos _, rfl, rfl⟩
  · rename_i i j hpuller
    rw [hpuller]
    split at hstep
    · rename_i hj
      split at hstep
      · cases hstep
        refine ⟨?_, rfl, rfl⟩
        simp only [Puller.left]
        omega
      · split at hstep
        · cases hstep
        · cases hstep
          refine ⟨?_, rfl, rfl⟩
          simp only [Puller.left]
          omega
    · cases hstep
      refine ⟨?_, rfl, rfl⟩
      simp only [Puller.left]
      omega
  · rename_i i j m hpuller
    rw [hpuller]
    cases hstep
    refine ⟨?_, rfl, rfl⟩
    simp only [Puller.left]
    omega
  · rename_i i j hpuller
    rw [hpuller]
    cases hstep
    refine ⟨?_, rfl, rfl⟩
    cases sp.pullLog i j with
    | true =>
        simp only [Puller.left, if_true]
        omega
    | false => exact Nat.succ_pos _
  · cases hstep
  · cases hstep

omit [DecidableEq Host] in
theorem senderStep_left {e : Event Host Key Msg} : senderStep sp s = some (e, s') →
    s'.sender.left sp.packetCnt sp.jobCnt < s.sender.left sp.packetCnt sp.jobCnt ∧
      s'.reader = s.reader ∧ s'.puller = s.puller ∧ Lists.pops [e] = [] := by
  intro hstep
  unfold senderStep at hstep
  split at hstep
  · rename_i i j hsender
    rw [hsender]
    split at hstep
    · rename_i hi
      split at hstep
      · rename_i hj
        have hcell := loopLeft_cell sp.jobCnt j hi hj
        split at hstep
        · cases hstep
          refine ⟨?_, rfl, rfl, rfl⟩
          cases sp.sendLog i j with
          | true =>
              simp only [Sender.left, if_true]
              omega
          | false => exact Nat.succ_pos _
        · cases hstep
      · cases hstep
        have hpacket := loopLeft_packet sp.jobCnt j hi
        refine ⟨?_, rfl, rfl, rfl⟩
        simp only [Sender.left]
        omega
    · cases hstep
      exact ⟨Nat.succ_pos _, rfl, rfl, rfl⟩
  · cases hstep
  · cases hstep

/-- Every step but an answer uses up some of what is left. -/
theorem Step.left_lt {e : Event Host Key Msg} (hc : ∀ i, (sp.fill i).length ≤ c) :
    Step sp s e s' → s'.left c sp + 1 ≤ s.left c sp + (Lists.pops [e]).length := by
  intro hstep
  unfold State.left
  cases hstep with
  | reader hr =>
      obtain ⟨hlt, hpuller, hsender⟩ := readerStep_left hc hr
      rw [hpuller, hsender]
      omega
  | puller hp =>
      obtain ⟨hlt, hreader, hsender⟩ := pullerStep_left hp
      rw [hreader, hsender]
      omega
  | sender hs =>
      obtain ⟨hlt, hreader, hpuller, hpops⟩ := senderStep_left hs
      rw [hreader, hpuller]
      omega
  | serve hs =>
      unfold Relay.serve at hs
      split at hs
      · cases hs
      · cases hs
        exact Nat.le_refl _

theorem runs_left {es : List (Event Host Key Msg)} (hc : ∀ i, (sp.fill i).length ≤ c) :
    Lists.LocalRuns (Step sp) s es s' →
      es.length + s'.left c sp ≤ s.left c sp + (Lists.pops es).length := by
  intro hruns
  induction hruns with
  | refl => exact Nat.le_of_eq (Nat.zero_add _)
  | snoc _ hstep ih =>
      have hone := hstep.left_lt hc
      rw [List.length_append, Lists.pops_append, List.length_append, List.length_singleton]
      omega

end Left

/-! ## Answers -/

section Answers

variable [DecidableEq Host] {sp : Spec Pk Host Key Msg} {own : Nat → Nat → Msg}
  {plus : Msg → Msg → Msg} {s s' : State Pk Host Key Msg} {es : List (Event Host Key Msg)}

theorem length_cells (jobCnt packetCnt : Nat) :
    (cells jobCnt (packetCnt, 0)).length = packetCnt * jobCnt := by
  simp [cells]

/-- A relay whose jobs all ask one host gets no more answers than it has cells. -/
theorem Correct.pops_length_le (h : Correct sp own plus es s) {h₀ : Host}
    (hhost : ∀ j < sp.jobCnt, ∀ h k, sp.src j = some (h, k) → h = h₀) :
    (Lists.pops es).length ≤ sp.packetCnt * sp.jobCnt := by
  -- all sources are on one host, so the answers of the others are none
  have hnone : ∀ h', h' ≠ h₀ → poppedAt h' es = [] := by
    intro h' hne
    have hasks : asks sp h' (cells sp.jobCnt (sp.packetCnt, 0)) = [] := by
      refine List.filterMap_eq_nil_iff.2 fun c hc => ?_
      cases hsrc : sp.src c.2 with
      | none => rfl
      | some q =>
          rw [← hhost c.2 (mem_cells (Nat.zero_le _) hc) q.1 q.2 hsrc] at hne
          exact if_neg (Ne.symm hne)
    have hprefix := h.asked_isPrefix h'
    rw [hasks, List.prefix_nil] at hprefix
    exact List.map_eq_nil_iff.1 hprefix
  have hsame : ∀ es' : List (Event Host Key Msg), (∀ h', h' ≠ h₀ → poppedAt h' es' = []) →
      (Lists.pops es').length = (poppedAt h₀ es').length := by
    intro es' hother
    induction es' with
    | nil => rfl
    | cons e es' ih =>
        have hsplit : ∀ h', poppedAt h' (e :: es') = poppedAt h' [e] ++ poppedAt h' es' :=
          fun h' => poppedAt_append h' [e] es'
        have hpops : Lists.pops (e :: es') = Lists.pops [e] ++ Lists.pops es' :=
          Lists.pops_append [e] es'
        have hparts : ∀ h', h' ≠ h₀ → poppedAt h' [e] = [] ∧ poppedAt h' es' = [] := by
          intro h' hne
          have hall := hother h' hne
          rw [hsplit] at hall
          exact List.append_eq_nil_iff.1 hall
        have hhead : (Lists.pops [e]).length = (poppedAt h₀ [e]).length := by
          cases e with
          | internal => rfl
          | push h' k m => rfl
          | pop h' k m =>
              have hh : h' = h₀ := by
                by_contra hne
                have hnil := (hparts h' hne).1
                simp [poppedAt] at hnil
              simp [Lists.pops, poppedAt, hh]
        rw [hpops, hsplit, List.length_append, List.length_append, hhead,
          ih fun h' hne => (hparts h' hne).2]
  calc (Lists.pops es).length
      = ((poppedAt h₀ es).map Prod.fst).length := by rw [hsame es hnone, List.length_map]
    _ ≤ (asks sp h₀ (cells sp.jobCnt (sp.packetCnt, 0))).length := (h.asked_isPrefix h₀).length_le
    _ ≤ (cells sp.jobCnt (sp.packetCnt, 0)).length := List.length_filterMap_le _ _
    _ = sp.packetCnt * sp.jobCnt := length_cells _ _

/-- A batch ends. -/
theorem Correct.length_le {c : Nat} (hc : ∀ i, (sp.fill i).length ≤ c) {h₀ : Host}
    (hhost : ∀ j < sp.jobCnt, ∀ h k, sp.src j = some (h, k) → h = h₀) (h : Correct sp own plus es s')
    (hruns : Lists.LocalRuns (Step sp) (Relay.start sp s) es s') :
    es.length ≤ (Relay.start sp s).left c sp + sp.packetCnt * sp.jobCnt := by
  have hleft := runs_left hc hruns
  have hpops := h.pops_length_le hhost
  omega

/-! ## A reader that fails -/

/-- The reader flags no packet whose operations fail. -/
theorem Correct.filled_le_of_fails {i₀ : Nat} (hi₀ : i₀ < sp.packetCnt)
    (hfails : ∀ p, (sp.fill i₀).foldlM (fun p f => f p) p = none) (h : Correct sp own plus es s)
    {e : Event Host Key Msg} (hfilled : s.reader.filled sp.packetCnt ≤ i₀) :
    Step sp s e s' → s'.reader.filled sp.packetCnt ≤ i₀ := by
  intro hstep
  cases hstep with
  | reader hr =>
      unfold readerStep at hr
      split at hr
      · rename_i i hreader
        rw [hreader] at hfilled
        have hle : i ≤ i₀ := hfilled
        rw [if_pos (by omega)] at hr
        cases hr
        exact hle
      · rename_i i f todo hreader
        rw [hreader] at hfilled
        obtain ⟨p, -, rfl⟩ := Option.map_eq_some_iff.1 hr
        exact hfilled
      · rename_i i hreader
        have hle : i ≤ i₀ := by
          rw [hreader] at hfilled
          exact hfilled
        -- the operations of the packet have all succeeded
        have hne : i ≠ i₀ := by
          rintro rfl
          obtain ⟨-, ops, p, hops, hrun⟩ := h.reading i [] hreader
          rw [List.append_nil] at hops
          rw [← hops, hfails] at hrun
          cases hrun
        cases hr
        have hlt : i + 1 ≤ i₀ := by omega
        cases sp.readLog i <;> exact hlt
      · cases hr
      · cases hr
  | puller hp =>
      rw [(pullerStep_left hp).2.1]
      exact hfilled
  | sender hs =>
      rw [(senderStep_left hs).2.1]
      exact hfilled
  | serve hs =>
      unfold Relay.serve at hs
      split at hs
      · cases hs
      · cases hs
        exact hfilled

end Answers

end Relay
