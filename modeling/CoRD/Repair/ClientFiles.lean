import CoRD.Network.RelayBound
import CoRD.Repair.ECPipeInputStream

/-!
# ClientFiles — the client of several lost blocks

The client asks one host for the packets of all its lost blocks, packet after packet, and takes the
answers in that order.  It writes the packets of the first block to a file, and pushes those of each
other block to a list of its own host.

What it has taken of a block is what it has popped from the list of that block, and what it has
written or pushed is a first part of it.  It takes a bounded number of steps, and waits for nothing
but the next packet of one of the blocks.
-/

namespace CoRD

namespace Client

open Lists (Event)
open Relay (cells count)

variable {Cmd : Type}

/-! ## Positions of the threads -/

section Positions

variable (packetCnt : Nat)

/-- Up to which packet and block the collector has asked. -/
def Collector.askedTo : Collector → Nat × Nat
  | .append i j => (i, j)
  | .get _ _ => (packetCnt, 0)
  | .done => (packetCnt, 0)

/-- Up to where it has taken the answers. -/
def Collector.takenTo : Collector → Nat × Nat
  | .append _ _ => (0, 0)
  | .get i j => (i, j)
  | .done => (packetCnt, 0)

/-- Up to where the forwarder has written. -/
def Forwarder.writtenTo : Forwarder → Nat × Nat
  | .forward i j => (i, j)
  | .done => (packetCnt, 0)

/-- A position in the loops over the packets and `n` blocks. -/
structure InLoops (n : Nat) (a : Nat × Nat) : Prop where
  packet : a.1 ≤ packetCnt
  block : a.2 ≤ n
  last : a.1 = packetCnt → a.2 = 0

end Positions

section Cells

variable {packetCnt n : Nat}

theorem InLoops.start : InLoops packetCnt n (0, 0) :=
  ⟨Nat.zero_le _, Nat.zero_le _, fun _ => rfl⟩

theorem InLoops.finish : InLoops packetCnt n (packetCnt, 0) :=
  ⟨Nat.le_refl _, Nat.zero_le _, fun _ => rfl⟩

theorem InLoops.cell {i j : Nat} (hi : i < packetCnt) : j < n → InLoops packetCnt n (i, j + 1) :=
  fun hj => ⟨Nat.le_of_lt hi, hj, fun heq => absurd heq (Nat.ne_of_lt hi)⟩

theorem InLoops.next {i : Nat} (hi : i < packetCnt) : InLoops packetCnt n (i + 1, 0) :=
  ⟨hi, Nat.zero_le _, fun _ => rfl⟩

/-- The end of the inner loop. -/
theorem InLoops.eq_of_not_lt {i j : Nat} (h : InLoops packetCnt n (i, j)) : ¬ j < n → j = n :=
  fun hj => Nat.le_antisymm h.block (Nat.le_of_not_lt hj)

/-- The end of the outer loop. -/
theorem InLoops.eq_of_end {i j : Nat} (h : InLoops packetCnt n (i, j)) :
    ¬ i < packetCnt → (i, j) = (packetCnt, 0) := by
  intro hi
  have heq : i = packetCnt := Nat.le_antisymm h.packet (Nat.le_of_not_lt hi)
  exact Prod.ext heq (h.last heq)

theorem length_cells_eq (n : Nat) (a : Nat × Nat) : (cells n a).length = a.1 * n + a.2 := by
  simp [cells]

/-- A cell before a position counts. -/
theorem lt_count_of_lt {i j : Nat} {a : Nat × Nat} (ha : a.2 ≤ n) :
    i * n + j < a.1 * n + a.2 → i < count a j := by
  intro hlt
  unfold count
  by_contra hnot
  rcases Nat.lt_or_ge j a.2 with hbefore | hafter
  · rw [if_pos hbefore] at hnot
    have hmul : (a.1 + 1) * n ≤ i * n := Nat.mul_le_mul_right n (Nat.le_of_not_lt hnot)
    rw [Nat.succ_mul] at hmul
    omega
  · rw [if_neg (Nat.not_lt.2 hafter)] at hnot
    have hmul : a.1 * n ≤ i * n := Nat.mul_le_mul_right n (Nat.le_of_not_lt hnot)
    omega

/-- Positions with the same cells before them count the same. -/
theorem count_congr {a a' : Nat × Nat} (ha : a.2 ≤ n) (ha' : a'.2 ≤ n)
    (heq : cells n a = cells n a') {j : Nat} : j < n → count a j = count a' j := by
  intro hj
  have hone := Relay.cells_filter hj a.1 a.2 ha
  have htwo := Relay.cells_filter hj a'.1 a'.2 ha'
  have hall := congrArg List.length (hone.symm.trans ((congrArg _ heq).trans htwo))
  simpa using hall

end Cells

/-! ## What has been asked, taken and written -/

section Fetches

/-- The list of block `j`. -/
def keyAt (names : List Str) (j : Nat) : ListKey :=
  .blk (names.getD j [])

/-- What the client has put out of block `j`: the first one to the file, the others to its host. -/
def output (locIP : Nat) (names : List Str) (es : List (Event Nat ListKey (ListMsg Cmd)))
    (s : State Cmd) (j : Nat) : List (ListMsg Cmd) :=
  if j = 0 then s.file else Lists.pushed locIP (keyAt names j) es

/-- The client of the blocks `names`, which it fetches from `ip`: what it has asked for, got and put
out. -/
structure Fetches (conf : PacketConfig) (locIP ip : Nat) (names : List Str)
    (es : List (Event Nat ListKey (ListMsg Cmd))) (s : State Cmd) : Prop where
  askedLoop : InLoops conf.packetCnt names.length (s.collector.askedTo conf.packetCnt)
  takenLoop : InLoops conf.packetCnt names.length (s.collector.takenTo conf.packetCnt)
  writtenLoop : InLoops conf.packetCnt names.length (s.forwarder.writtenTo conf.packetCnt)
  asked : (Relay.poppedAt ip es).map Prod.fst ++ s.pending ip =
    (cells names.length (s.collector.askedTo conf.packetCnt)).map fun c => keyAt names c.2
  replies : ∃ old, (Relay.poppedAt ip es).map Prod.snd = old ++ s.replies ip ∧
    old.length = (cells names.length (s.collector.takenTo conf.packetCnt)).length
  complete : s.completePacketIndex =
    (cells names.length (s.collector.takenTo conf.packetCnt)).length
  contents : ∀ j < names.length, ∀ i < count (s.collector.takenTo conf.packetCnt) j,
    (Lists.popped ip (keyAt names j) es)[i]? = some (s.contents i j)
  processed : s.processedPacket =
    (cells names.length (s.forwarder.writtenTo conf.packetCnt)).length
  written_le : ∀ j < names.length, count (s.forwarder.writtenTo conf.packetCnt) j ≤
    count (s.collector.takenTo conf.packetCnt) j
  output : ∀ j < names.length, output locIP names es s j =
    (Lists.popped ip (keyAt names j) es).take (count (s.forwarder.writtenTo conf.packetCnt) j)

variable {conf : PacketConfig} {locIP ip : Nat} {names : List Str}
  {es : List (Event Nat ListKey (ListMsg Cmd))} {s s' : State Cmd}

theorem Fetches.init : Fetches conf locIP ip names ([] : List (Event Nat ListKey (ListMsg Cmd)))
    State.init where
  askedLoop := .start
  takenLoop := .start
  writtenLoop := .start
  asked := rfl
  replies := ⟨[], rfl, rfl⟩
  complete := rfl
  contents := fun j _ i hi => absurd hi (by simp [State.init, Collector.takenTo, count])
  processed := rfl
  written_le := fun _ _ => Nat.le_refl _
  output := by
    intro j _
    unfold Client.output
    split <;> rfl

/-- Blocks of different names have different lists. -/
theorem keyAt_inj (hnames : names.Nodup) {j j' : Nat} (hj : j < names.length)
    (hj' : j' < names.length) : keyAt names j = keyAt names j' → j = j' := by
  intro heq
  have hname : names.getD j [] = names.getD j' [] := ListKey.blk.inj heq
  rw [List.getD_eq_getElem?_getD, List.getD_eq_getElem?_getD, List.getElem?_eq_getElem hj,
    List.getElem?_eq_getElem hj', Option.getD_some, Option.getD_some] at hname
  exact (hnames.getElem_inj_iff).1 hname

/-- The requests for one block before a position. -/
theorem count_keys (hnames : names.Nodup) {j : Nat} (hj : j < names.length) {a : Nat × Nat}
    (ha : a.2 ≤ names.length) :
    ((cells names.length a).map fun c => keyAt names c.2).count (keyAt names j) = count a j := by
  have hcells := congrArg List.length (Relay.cells_filter hj a.1 a.2 ha)
  rw [List.length_map, List.length_range, ← List.countP_eq_length_filter] at hcells
  rw [List.count, List.countP_map, ← hcells]
  refine List.countP_congr fun c hc => ?_
  have hc₂ : c.2 < names.length := Relay.mem_cells ha hc
  show (keyAt names c.2 == keyAt names j) = true ↔ decide (c.2 = j) = true
  rw [beq_iff_eq, decide_eq_true_iff]
  exact ⟨keyAt_inj hnames hc₂ hj, fun heq => by rw [heq]⟩

/-- The answer that is taken for packet `i` of block `j` is message `i` of the list of the block. -/
theorem Fetches.getElem?_popped (hnames : names.Nodup) (h : Fetches conf locIP ip names es s)
    {i j : Nat} (hget : s.collector = .get i j) (hi : i < conf.packetCnt) (hj : j < names.length)
    {m : ListMsg Cmd} {ms : List (ListMsg Cmd)} :
    s.replies ip = m :: ms → (Lists.popped ip (keyAt names j) es)[i]? = some m := by
  intro hreplies
  obtain ⟨old, hsplit, hold⟩ := h.replies
  have hasked := h.asked
  rw [hget] at hasked hold
  rw [hreplies] at hsplit
  simp only [Collector.askedTo, Collector.takenTo] at hasked hold
  -- the message, with the key it was popped at
  have hmsg : ((Relay.poppedAt ip es).map Prod.snd)[old.length]? = some m := by
    rw [hsplit, List.getElem?_append_right (Nat.le_refl _), Nat.sub_self]
    rfl
  rw [List.getElem?_map, Option.map_eq_some_iff] at hmsg
  obtain ⟨q, hq, rfl⟩ := hmsg
  obtain ⟨later, hlater⟩ := Relay.cells_isPrefix hi (show j + 1 ≤ names.length from hj)
  rw [Relay.cells_succ, List.append_assoc] at hlater
  have hkey : ((cells names.length (conf.packetCnt, 0)).map fun c => keyAt names c.2)[old.length]? =
      some (keyAt names j) := by
    rw [← hlater, List.getElem?_map, List.getElem?_append_right (Nat.le_of_eq hold.symm), hold,
      Nat.sub_self]
    rfl
  have htake : ((cells names.length (conf.packetCnt, 0)).map fun c => keyAt names c.2).take
      old.length = (cells names.length (i, j)).map fun c => keyAt names c.2 := by
    rw [← List.map_take, ← hlater, hold, List.take_left']
    rfl
  have hone := Relay.getElem?_filter_of_keys hasked hq hkey
  rw [htake, count_keys hnames hj (Nat.le_of_lt hj), Relay.count_self] at hone
  rw [Relay.popped_eq_filter]
  exact hone

/-- Of a block that counts to `i`, at least `i` packets have been popped. -/
theorem Fetches.count_le_length (h : Fetches conf locIP ip names es s) {j : Nat} :
    j < names.length →
      count (s.collector.takenTo conf.packetCnt) j ≤
        (Lists.popped ip (keyAt names j) es).length := by
  intro hj
  by_contra hnot
  have hlast := h.contents j hj _ (Nat.lt_of_not_le hnot)
  rw [List.getElem?_eq_none (Nat.le_refl _)] at hlast
  cases hlast

/-! ## Steps of the collector -/

/-- A collector that goes on to another loop. -/
theorem Fetches.moveCollector (h : Fetches conf locIP ip names es s) {c : Collector}
    (haskedLoop : InLoops conf.packetCnt names.length (c.askedTo conf.packetCnt))
    (htakenLoop : InLoops conf.packetCnt names.length (c.takenTo conf.packetCnt))
    (hasked : cells names.length (c.askedTo conf.packetCnt) =
      cells names.length (s.collector.askedTo conf.packetCnt))
    (htaken : cells names.length (c.takenTo conf.packetCnt) =
      cells names.length (s.collector.takenTo conf.packetCnt)) :
    Fetches conf locIP ip names es { s with collector := c } := by
  have hcount : ∀ j < names.length, count (c.takenTo conf.packetCnt) j =
      count (s.collector.takenTo conf.packetCnt) j :=
    fun j hj => count_congr htakenLoop.block h.takenLoop.block htaken hj
  exact { h with
    askedLoop := haskedLoop
    takenLoop := htakenLoop
    asked := h.asked.trans (by rw [hasked])
    replies := by
      obtain ⟨old, hsplit, hold⟩ := h.replies
      exact ⟨old, hsplit, hold.trans (by rw [htaken])⟩
    complete := h.complete.trans (by rw [htaken])
    contents := fun j hj i hi => h.contents j hj i (hcount j hj ▸ hi)
    written_le := fun j hj => (h.written_le j hj).trans_eq (hcount j hj).symm
    output := h.output }

/-- The files of the client, all on one host. -/
def filesAt (ip : Nat) (names : List Str) : List (Nat × Str) :=
  names.map fun b => (ip, b)

theorem getElem?_filesAt (j : Nat) : (filesAt ip names)[j]? =
    if j < names.length then some (ip, names.getD j []) else none := by
  rw [filesAt, List.getElem?_map]
  by_cases hj : j < names.length
  · rw [if_pos hj, List.getElem?_eq_getElem hj, List.getD_eq_getElem?_getD,
      List.getElem?_eq_getElem hj]
    rfl
  · rw [if_neg hj, List.getElem?_eq_none (Nat.le_of_not_lt hj)]
    rfl

theorem Fetches.collectorStep (hnames : names.Nodup) (h : Fetches conf locIP ip names es s) :
    Client.collectorStep conf (filesAt ip names) s = some s' →
      Fetches conf locIP ip names es s' := by
  intro hstep
  have haskedLoop := h.askedLoop
  have htakenLoop := h.takenLoop
  unfold Client.collectorStep at hstep
  cases hcollector : s.collector with
  | append i j =>
      simp only [hcollector, getElem?_filesAt] at hstep
      rw [hcollector] at haskedLoop
      by_cases hi : i < conf.packetCnt
      · by_cases hj : j < names.length
        · -- one more request
          simp only [if_pos hi, if_pos hj, Option.some.injEq] at hstep
          subst hstep
          refine { h with
            askedLoop := .cell hi hj
            takenLoop := .start
            asked := ?_
            replies := ?_
            complete := ?_
            contents := ?_
            written_le := ?_ }
          · have hasked := h.asked
            rw [hcollector] at hasked
            show _ ++ Function.update s.pending ip _ ip = _
            simp only [Collector.askedTo] at hasked ⊢
            rw [Function.update_self, ← List.append_assoc, hasked, Relay.cells_succ, List.map_append]
            rfl
          · have hreplies := h.replies
            rw [hcollector] at hreplies
            exact hreplies
          · have hcomplete := h.complete
            rw [hcollector] at hcomplete
            exact hcomplete
          · have hcontents := h.contents
            rw [hcollector] at hcontents
            exact hcontents
          · have hwritten := h.written_le
            rw [hcollector] at hwritten
            exact hwritten
        · simp only [if_pos hi, if_neg hj, Option.some.injEq] at hstep
          subst hstep
          have hend := haskedLoop.eq_of_not_lt hj
          refine h.moveCollector (.next hi) .start ?_ ?_
          · rw [hcollector, hend]
            exact Relay.cells_next _ _
          · rw [hcollector]
            rfl
      · simp only [if_neg hi, Option.some.injEq] at hstep
        subst hstep
        refine h.moveCollector .finish .start ?_ ?_
        · rw [hcollector]
          exact congrArg _ (haskedLoop.eq_of_end hi).symm
        · rw [hcollector]
          rfl
  | get i j =>
      simp only [hcollector, getElem?_filesAt] at hstep
      rw [hcollector] at htakenLoop
      by_cases hi : i < conf.packetCnt
      · by_cases hj : j < names.length
        · simp only [if_pos hi, if_pos hj] at hstep
          cases hreplies : s.replies ip with
          | nil => simp [hreplies] at hstep
          | cons m ms =>
              simp only [hreplies, Option.some.injEq] at hstep
              subst hstep
              have hm := h.getElem?_popped hnames hcollector hi hj hreplies
              refine { h with
                askedLoop := .finish
                takenLoop := .cell hi hj
                asked := ?_
                replies := ?_
                complete := ?_
                contents := ?_
                written_le := ?_ }
              · have hasked := h.asked
                rw [hcollector] at hasked
                exact hasked
              · obtain ⟨old, hsplit, hold⟩ := h.replies
                rw [hreplies] at hsplit
                rw [hcollector] at hold
                refine ⟨old ++ [m], ?_, ?_⟩
                · show _ = _ ++ Function.update s.replies ip ms ip
                  rw [hsplit, Function.update_self, List.append_assoc]
                  rfl
                · simp only [Collector.takenTo] at hold ⊢
                  rw [Relay.cells_succ, List.length_append, List.length_append, hold]
                  rfl
              · have hcomplete := h.complete
                rw [hcollector] at hcomplete
                simp only [Collector.takenTo] at hcomplete ⊢
                rw [Relay.cells_succ, List.length_append, hcomplete]
                rfl
              · -- the packet that has just been taken, and those from before
                intro j' hj' i' hi'
                show _ = some (Function.update s.contents i
                  (Function.update (s.contents i) j m) i' j')
                have hcontents := h.contents j' hj' i'
                rw [hcollector] at hcontents
                simp only [Collector.takenTo] at hcontents hi'
                by_cases hsame : i' = i ∧ j' = j
                · obtain ⟨rfl, rfl⟩ := hsame
                  rw [Function.update_self, Function.update_self]
                  exact hm
                · have hkeep : Function.update s.contents i
                      (Function.update (s.contents i) j m) i' j' = s.contents i' j' := by
                    by_cases hpacket : i' = i
                    · subst hpacket
                      rw [Function.update_self, Function.update_of_ne fun heq => hsame ⟨rfl, heq⟩]
                    · rw [Function.update_of_ne hpacket]
                  rw [hkeep]
                  refine hcontents ?_
                  by_cases hblk : j' = j
                  · subst hblk
                    rw [Relay.count_succ_self] at hi'
                    rw [Relay.count_self]
                    omega
                  · rwa [Relay.count_succ_of_ne hblk] at hi'
              · intro j' hj'
                refine (h.written_le j' hj').trans ?_
                rw [hcollector]
                simp only [Collector.takenTo, Relay.count_mk]
                split <;> split <;> omega
        · simp only [if_pos hi, if_neg hj, Option.some.injEq] at hstep
          subst hstep
          have hend := htakenLoop.eq_of_not_lt hj
          refine h.moveCollector .finish (.next hi) ?_ ?_
          · rw [hcollector]
            rfl
          · rw [hcollector, hend]
            exact Relay.cells_next _ _
      · simp only [if_neg hi, Option.some.injEq] at hstep
        subst hstep
        refine h.moveCollector .finish .finish ?_ ?_
        · rw [hcollector]
          rfl
        · rw [hcollector]
          exact congrArg _ (htakenLoop.eq_of_end hi).symm
  | done =>
      simp only [hcollector] at hstep
      cases hstep

/-! ## Steps of the forwarder -/

/-- A forwarder that goes on to another loop. -/
theorem Fetches.moveForwarder (h : Fetches conf locIP ip names es s) {f : Forwarder}
    (hloop : InLoops conf.packetCnt names.length (f.writtenTo conf.packetCnt))
    (hcells : cells names.length (f.writtenTo conf.packetCnt) =
      cells names.length (s.forwarder.writtenTo conf.packetCnt)) :
    Fetches conf locIP ip names es { s with forwarder := f } := by
  have hcount : ∀ j < names.length, count (f.writtenTo conf.packetCnt) j =
      count (s.forwarder.writtenTo conf.packetCnt) j :=
    fun j hj => count_congr hloop.block h.writtenLoop.block hcells hj
  exact { h with
    writtenLoop := hloop
    processed := h.processed.trans (by rw [hcells])
    written_le := fun j hj => (hcount j hj).trans_le (h.written_le j hj)
    output := fun j hj => (h.output j hj).trans (by rw [hcount j hj]) }

/-- An event that pops nothing at `ip`. -/
theorem Fetches.append (h : Fetches conf locIP ip names es s)
    {e : Event Nat ListKey (ListMsg Cmd)} (hpop : ∀ k m, e ≠ .pop ip k m)
    (houtput : ∀ j < names.length, Client.output locIP names (es ++ [e]) s j =
      Client.output locIP names es s j) :
    Fetches conf locIP ip names (es ++ [e]) s := by
  have hat : Relay.poppedAt ip (es ++ [e]) = Relay.poppedAt ip es := by
    rw [Relay.poppedAt_append, show Relay.poppedAt ip [e] = [] from ?_, List.append_nil]
    cases e with
    | internal => rfl
    | push h' k m => rfl
    | pop h' k m =>
        have hne : h' ≠ ip := fun heq => hpop k m (by rw [heq])
        simp [Relay.poppedAt, hne]
  have hpopped : ∀ j, Lists.popped ip (keyAt names j) (es ++ [e]) =
      Lists.popped ip (keyAt names j) es := by
    intro j
    rw [Relay.popped_eq_filter, Relay.popped_eq_filter, hat]
  exact { h with
    asked := hat ▸ h.asked
    replies := hat ▸ h.replies
    contents := fun j hj i hi => (hpopped j) ▸ h.contents j hj i hi
    output := fun j hj => (houtput j hj).trans ((hpopped j) ▸ h.output j hj) }

theorem output_internal (j : Nat) : Client.output locIP names (es ++ [.internal]) s j =
    Client.output locIP names es s j := by
  unfold Client.output
  rw [Lists.pushed_append, show Lists.pushed locIP (keyAt names j)
    ([.internal] : List (Event Nat ListKey (ListMsg Cmd))) = [] from rfl, List.append_nil]

theorem Fetches.internal (h : Fetches conf locIP ip names es s) :
    Fetches conf locIP ip names (es ++ [.internal]) s := by
  refine h.append (fun k m heq => ?_) fun j _ => output_internal j
  cases heq

theorem pushed_keyAt (j : Nat) (m : ListMsg Cmd) :
    Lists.pushed locIP (keyAt names j) [.push locIP (.blk (names.getD j [])) m] = [m] := by
  simp [Lists.pushed, keyAt]

/-- The packet that the forwarder puts out is the next one of its block. -/
theorem Fetches.take_succ (h : Fetches conf locIP ip names es s) {i j : Nat}
    (hforwarder : s.forwarder = .forward i j) (hj : j < names.length)
    (hready : s.processedPacket < s.completePacketIndex) :
    i < count (s.collector.takenTo conf.packetCnt) j ∧
      (Lists.popped ip (keyAt names j) es).take (i + 1) =
        (Lists.popped ip (keyAt names j) es).take i ++ [s.contents i j] := by
  have hprocessed := h.processed
  rw [hforwarder] at hprocessed
  simp only [Forwarder.writtenTo] at hprocessed
  rw [hprocessed, h.complete, length_cells_eq, length_cells_eq] at hready
  have hlt := lt_count_of_lt h.takenLoop.block hready
  refine ⟨hlt, ?_⟩
  rw [List.take_add_one, h.contents j hj i hlt]
  rfl

theorem Fetches.forwarderStep (hnames : names.Nodup) {e : Event Nat ListKey (ListMsg Cmd)}
    (h : Fetches conf locIP ip names es s) :
    Client.forwarderStep conf locIP (filesAt ip names) s = some (e, s') →
      Fetches conf locIP ip names (es ++ [e]) s' := by
  intro hstep
  have hloop := h.writtenLoop
  unfold Client.forwarderStep at hstep
  cases hforwarder : s.forwarder with
  | forward i j =>
      simp only [hforwarder, getElem?_filesAt] at hstep
      rw [hforwarder] at hloop
      by_cases hi : i < conf.packetCnt
      · by_cases hj : j < names.length
        · simp only [if_pos hi, if_pos hj] at hstep
          by_cases hready : s.processedPacket < s.completePacketIndex
          · obtain ⟨hlt, htake⟩ := h.take_succ hforwarder hj hready
            -- what holds of the counters in both cases
            have hprocessed : s.processedPacket + 1 =
                (cells names.length (i, j + 1)).length := by
              rw [h.processed, hforwarder, Relay.cells_succ, List.length_append]
              rfl
            have hle : ∀ j' < names.length, count (i, j + 1) j' ≤
                count (s.collector.takenTo conf.packetCnt) j' := by
              intro j' hj'
              by_cases hblk : j' = j
              · subst hblk
                rw [Relay.count_succ_self]
                exact hlt
              · rw [Relay.count_succ_of_ne hblk]
                have hwritten := h.written_le j' hj'
                rw [hforwarder] at hwritten
                exact hwritten
            have hbefore : ∀ j' < names.length, Client.output locIP names es s j' =
                (Lists.popped ip (keyAt names j') es).take (count (i, j) j') := by
              intro j' hj'
              have houtput := h.output j' hj'
              rw [hforwarder] at houtput
              exact houtput
            by_cases hzero : j = 0
            · simp only [if_pos hready, if_pos hzero, Option.some.injEq, Prod.mk.injEq] at hstep
              obtain ⟨rfl, rfl⟩ := hstep
              subst hzero
              have hfetches : Fetches conf locIP ip names es { s with
                  file := s.file ++ [s.contents i 0]
                  processedPacket := s.processedPacket + 1
                  forwarder := .forward i (0 + 1) } := by
                refine { h with
                  writtenLoop := .cell hi hj
                  processed := hprocessed
                  written_le := hle
                  output := ?_ }
                intro j' hj'
                simp only [Forwarder.writtenTo]
                by_cases hblk : j' = 0
                · subst hblk
                  have hfile : s.file = _ := hbefore 0 hj
                  rw [Relay.count_succ_self, htake]
                  show s.file ++ [s.contents i 0] = _
                  rw [hfile, Relay.count_self]
                · rw [Relay.count_succ_of_ne hblk, ← hbefore j' hj']
                  unfold Client.output
                  rw [if_neg hblk, if_neg hblk]
              exact hfetches.internal
            · simp only [if_pos hready, if_neg hzero, Option.some.injEq, Prod.mk.injEq] at hstep
              obtain ⟨rfl, rfl⟩ := hstep
              have hpopped : ∀ j', Lists.popped ip (keyAt names j')
                  (es ++ [.push locIP (.blk (names.getD j [])) (s.contents i j)]) =
                  Lists.popped ip (keyAt names j') es := by
                intro j'
                rw [Lists.popped_append]
                exact List.append_nil _
              have hat : Relay.poppedAt ip
                  (es ++ [.push locIP (.blk (names.getD j [])) (s.contents i j)]) =
                  Relay.poppedAt ip es := by
                rw [Relay.poppedAt_append]
                exact List.append_nil _
              refine { h with
                writtenLoop := .cell hi hj
                asked := hat ▸ h.asked
                replies := hat ▸ h.replies
                contents := fun j' hj' i' hi' => (hpopped j') ▸ h.contents j' hj' i' hi'
                processed := hprocessed
                written_le := hle
                output := ?_ }
              intro j' hj'
              simp only [Forwarder.writtenTo]
              rw [hpopped]
              have hold := hbefore j' hj'
              unfold Client.output at hold ⊢
              by_cases hblk : j' = j
              · -- the list of the block grows
                subst hblk
                rw [if_neg hzero, Relay.count_self] at hold
                rw [if_neg hzero, Relay.count_succ_self, htake, Lists.pushed_append, hold, pushed_keyAt]
              · rw [Relay.count_succ_of_ne hblk, ← hold]
                by_cases hfirst : j' = 0
                · rw [if_pos hfirst, if_pos hfirst]
                · have hnone : Lists.pushed locIP (keyAt names j')
                      [.push locIP (.blk (names.getD j [])) (s.contents i j)] = [] := by
                    refine Lists.pushed_eq_nil fun m hm => hblk ?_
                    exact keyAt_inj hnames hj' hj (Event.push.inj (List.mem_singleton.1 hm)).2.1
                  rw [if_neg hfirst, if_neg hfirst, Lists.pushed_append, hnone, List.append_nil]
          · simp only [if_neg hready] at hstep
            cases hstep
        · simp only [if_pos hi, if_neg hj, Option.some.injEq, Prod.mk.injEq] at hstep
          obtain ⟨rfl, rfl⟩ := hstep
          have hend := hloop.eq_of_not_lt hj
          refine Fetches.internal (h.moveForwarder (.next hi) ?_)
          rw [hforwarder, hend]
          exact Relay.cells_next _ _
      · simp only [if_neg hi, Option.some.injEq, Prod.mk.injEq] at hstep
        obtain ⟨rfl, rfl⟩ := hstep
        refine Fetches.internal (h.moveForwarder .finish ?_)
        rw [hforwarder]
        exact congrArg _ (hloop.eq_of_end hi).symm
  | done =>
      simp only [hforwarder] at hstep
      cases hstep

/-! ## Answers -/

/-- A message that is popped for the request in front. -/
theorem Fetches.answer {k : ListKey} {ks : List ListKey} {m : ListMsg Cmd}
    (h : Fetches conf locIP ip names es s) (hpending : s.pending ip = k :: ks) :
    Fetches conf locIP ip names (es ++ [.pop ip k m]) { s with
      pending := Function.update s.pending ip ks
      replies := Function.update s.replies ip (s.replies ip ++ [m]) } := by
  have hat : Relay.poppedAt ip (es ++ [.pop ip k m]) = Relay.poppedAt ip es ++ [(k, m)] := by
    rw [Relay.poppedAt_append]
    simp [Relay.poppedAt]
  have htaken : ∀ j, Lists.popped ip (keyAt names j) es <+:
      Lists.popped ip (keyAt names j) (es ++ [.pop ip k m]) := by
    intro j
    rw [Lists.popped_append]
    exact List.prefix_append _ _
  refine { h with asked := ?_, replies := ?_, contents := ?_, output := ?_ }
  · have hasked := h.asked
    rw [hpending] at hasked
    show _ ++ Function.update s.pending ip ks ip = _
    rw [hat, List.map_append, Function.update_self, List.append_assoc]
    exact hasked
  · obtain ⟨old, hsplit, hold⟩ := h.replies
    refine ⟨old, ?_, hold⟩
    show _ = old ++ Function.update s.replies ip (s.replies ip ++ [m]) ip
    rw [hat, List.map_append, hsplit, Function.update_self, List.append_assoc]
    rfl
  · intro j hj i hi
    exact Lists.getElem?_of_isPrefix (htaken j) (h.contents j hj i hi)
  · intro j hj
    have hle := (h.written_le j hj).trans (h.count_le_length hj)
    obtain ⟨later, hlater⟩ := htaken j
    rw [← hlater, List.take_append_of_le_length hle, ← h.output j hj]
    unfold Client.output
    rw [Lists.pushed_append, show Lists.pushed locIP (keyAt names j) [.pop ip k m] = [] from rfl,
      List.append_nil]

end Fetches

/-! ## Until all blocks are written -/

section Progress

variable {conf : PacketConfig} {locIP ip : Nat} {names : List Str}
  {es : List (Event Nat ListKey (ListMsg Cmd))} {s s' : State Cmd}

/-- The client has all packets of all blocks, and has put them out. -/
structure Written (conf : PacketConfig) (locIP ip : Nat) (names : List Str)
    (es : List (Event Nat ListKey (ListMsg Cmd))) (s : State Cmd) : Prop where
  collector : s.collector = .done
  forwarder : s.forwarder = .done
  popped : ∀ j < names.length, (Lists.popped ip (keyAt names j) es).length = conf.packetCnt
  output : ∀ j < names.length, output locIP names es s j = Lists.popped ip (keyAt names j) es

/-- No more packets of a block are popped than there are. -/
theorem Fetches.popped_length_le (hnames : names.Nodup) (h : Fetches conf locIP ip names es s)
    {j : Nat} (hj : j < names.length) :
    (Lists.popped ip (keyAt names j) es).length ≤ conf.packetCnt := by
  have hasked := congrArg (List.count (keyAt names j)) h.asked
  rw [List.count_append, count_keys hnames hj h.askedLoop.block] at hasked
  have hlength : (Lists.popped ip (keyAt names j) es).length =
      ((Relay.poppedAt ip es).map Prod.fst).count (keyAt names j) := by
    rw [Relay.popped_eq_filter, List.length_map, ← List.countP_eq_length_filter, List.count,
      List.countP_map]
    exact List.countP_congr fun q _ => by simp
  have hle : count (s.collector.askedTo conf.packetCnt) j ≤ conf.packetCnt := by
    have hpacket := h.askedLoop.packet
    have hlast := h.askedLoop.last
    unfold count
    split <;> omega
  omega

/-- A collector that cannot go on has ended, or waits for an answer. -/
theorem collector_stuck
    (hstuck : ∀ s', Client.collectorStep conf (filesAt ip names) s ≠ some s') :
    s.collector = .done ∨ ∃ i j, s.collector = .get i j ∧ i < conf.packetCnt ∧ j < names.length ∧
      s.replies ip = [] := by
  unfold Client.collectorStep at hstuck
  cases hcollector : s.collector with
  | append i j =>
      exfalso
      simp only [hcollector, getElem?_filesAt] at hstuck
      by_cases hi : i < conf.packetCnt
      · by_cases hj : j < names.length
        · simp only [if_pos hi, if_pos hj] at hstuck
          exact hstuck _ rfl
        · simp only [if_pos hi, if_neg hj] at hstuck
          exact hstuck _ rfl
      · simp only [if_neg hi] at hstuck
        exact hstuck _ rfl
  | get i j =>
      simp only [hcollector, getElem?_filesAt] at hstuck
      by_cases hi : i < conf.packetCnt
      · by_cases hj : j < names.length
        · simp only [if_pos hi, if_pos hj] at hstuck
          cases hreplies : s.replies ip with
          | nil => exact Or.inr ⟨i, j, rfl, hi, hj, rfl⟩
          | cons m ms =>
              simp only [hreplies] at hstuck
              exact absurd rfl (hstuck _)
        · simp only [if_pos hi, if_neg hj] at hstuck
          exact absurd rfl (hstuck _)
      · simp only [if_neg hi] at hstuck
        exact absurd rfl (hstuck _)
  | done => exact Or.inl rfl

/-- Once everything has been collected, the forwarder waits for nothing. -/
theorem Fetches.forwarder_stuck (h : Fetches conf locIP ip names es s)
    (hdone : s.collector = .done)
    (hstuck : ∀ e s', Client.forwarderStep conf locIP (filesAt ip names) s ≠ some (e, s')) :
    s.forwarder = .done := by
  have hprocessed := h.processed
  have hcomplete := h.complete
  rw [hdone] at hcomplete
  unfold Client.forwarderStep at hstuck
  cases hforwarder : s.forwarder with
  | forward i j =>
      exfalso
      simp only [hforwarder, getElem?_filesAt] at hstuck
      rw [hforwarder] at hprocessed
      by_cases hi : i < conf.packetCnt
      · by_cases hj : j < names.length
        · have hready : s.processedPacket < s.completePacketIndex := by
            rw [hprocessed, hcomplete, length_cells_eq, length_cells_eq]
            simp only [Forwarder.writtenTo, Collector.takenTo]
            have hmul : (i + 1) * names.length ≤ conf.packetCnt * names.length :=
              Nat.mul_le_mul_right _ hi
            rw [Nat.succ_mul] at hmul
            omega
          simp only [if_pos hi, if_pos hj, if_pos hready] at hstuck
          by_cases hzero : j = 0
          · exact hstuck _ _ (if_pos hzero)
          · exact hstuck _ _ (if_neg hzero)
        · simp only [if_pos hi, if_neg hj] at hstuck
          exact hstuck _ _ rfl
      · simp only [if_neg hi] at hstuck
        exact hstuck _ _ rfl
  | done => rfl

end Progress

end Client

end CoRD
