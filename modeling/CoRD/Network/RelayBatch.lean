import CoRD.Network.Relay

/-!
# RelayBatch — what a relay pushes in one batch

When a batch starts with all flags down, every cell is pushed as its own value, or as that plus the
message popped for it.  The invariant says so of the cells in memory, in terms of the positions of
the three threads.
-/

namespace Relay

open Lists (Event)

variable {Pk Host Key Msg : Type} [DecidableEq Host]

/-! ## The messages of a batch -/

/-- What has been popped at a host, with the keys. -/
def poppedAt (h : Host) (es : List (Event Host Key Msg)) : List (Key × Msg) :=
  es.filterMap fun e =>
    match e with
    | .pop h' k m => if h' = h then some (k, m) else none
    | _ => none

/-- What has been pushed anywhere. -/
def pushedAll (es : List (Event Host Key Msg)) : List ((Host × Key) × Msg) :=
  es.filterMap fun e =>
    match e with
    | .push h k m => some ((h, k), m)
    | _ => none

section Batch

variable (sp : Spec Pk Host Key Msg)

/-- The keys asked for at host `h` for some cells. -/
def asks (h : Host) (cs : List (Nat × Nat)) : List Key :=
  cs.filterMap fun c =>
    match sp.src c.2 with
    | some (h', k) => if h' = h then some k else none
    | none => none

/-- The reply to what was asked for the cell. -/
def reply (pops : Host → List (Key × Msg)) (c : Nat × Nat) (h : Host) : Option Msg :=
  (pops h)[(asks sp h (cells sp.jobCnt c)).length]?.map Prod.snd

variable (own : Nat → Nat → Msg) (plus : Msg → Msg → Msg)

/-- What a cell is to be pushed as: its own value, plus the reply if its job has a source. -/
def Expected (pops : Host → List (Key × Msg)) (c : Nat × Nat) (v : Msg) : Prop :=
  match sp.src c.2 with
  | none => v = own c.1 c.2
  | some (h, _) => ∃ m, reply sp pops c h = some m ∧ v = plus (own c.1 c.2) m

/-- What the operations on a packet do to the values of its cells. -/
structure Lawful : Prop where
  fill : ∀ i p p', i < sp.packetCnt → (sp.fill i).foldlM (fun p f => f p) p = some p' →
    ∀ j < sp.jobCnt, sp.load j p' = own i j
  add : ∀ j m p, 0 < sp.packetCnt → j < sp.jobCnt → (sp.src j).isSome →
    sp.load j (sp.add j m p) = plus (sp.load j p) m
  add_ne : ∀ j j' m p, j < sp.jobCnt → j' < sp.jobCnt → j' ≠ j →
    sp.load j' (sp.add j m p) = sp.load j' p

/-- The state of a batch, given what it has popped and pushed so far. -/
structure Inv (pops : Host → List (Key × Msg)) (pushes : List ((Host × Key) × Msg))
    (s : State Pk Host Key Msg) : Prop where
  filled_le : s.reader.filled sp.packetCnt ≤ sp.packetCnt
  flag : ∀ i < sp.packetCnt, s.flag i = true ↔ i < s.reader.filled sp.packetCnt
  reading : ∀ i todo, s.reader = .fill i todo → i < sp.packetCnt ∧
    ∃ ops p, sp.fill i = ops ++ todo ∧ ops.foldlM (fun p f => f p) p = some (s.mem i)
  pullerLoop : s.puller.InLoop sp.packetCnt sp.jobCnt
  senderLoop : s.sender.InLoop sp.packetCnt sp.jobCnt
  /-- The puller has seen only flagged packets. -/
  waited : s.puller.waited sp.packetCnt ≤ s.reader.filled sp.packetCnt
  mem : ∀ i < s.reader.filled sp.packetCnt, ∀ j < sp.jobCnt,
    if i < count (s.puller.added sp.packetCnt) j then
      Expected sp own plus pops (i, j) (sp.load j (s.mem i))
    else sp.load j (s.mem i) = own i j
  ready : ∀ j < sp.jobCnt, s.ready j = count (s.puller.counted sp.packetCnt) j
  sent_le : ∀ j < sp.jobCnt,
    count (s.sender.sent sp.packetCnt) j ≤ count (s.puller.counted sp.packetCnt) j
  pushes : List.Forall₂ (fun c p => p.1 = sp.dst c.2 ∧ Expected sp own plus pops c p.2)
    (cells sp.jobCnt (s.sender.sent sp.packetCnt)) pushes
  asked : ∀ h, (pops h).map Prod.fst ++ s.pending h =
    asks sp h (cells sp.jobCnt (s.puller.appended sp.packetCnt))
  replies : ∀ h, ∃ old, (pops h).map Prod.snd = old ++ s.replies h ∧
    old.length = (asks sp h (cells sp.jobCnt (s.puller.taken sp.packetCnt))).length
  adding : ∀ i j m, s.puller = .add i j m → ∃ h k, sp.src j = some (h, k) ∧
    reply sp pops (i, j) h = some m

end Batch

section Lemmas

variable {sp : Spec Pk Host Key Msg} {own : Nat → Nat → Msg} {plus : Msg → Msg → Msg}
  {pops : Host → List (Key × Msg)} {pushes : List ((Host × Key) × Msg)}
  {s s' : State Pk Host Key Msg}

theorem asks_append (h : Host) (cs cs' : List (Nat × Nat)) :
    asks sp h (cs ++ cs') = asks sp h cs ++ asks sp h cs' :=
  List.filterMap_append

omit [DecidableEq Host] in
/-- No cell has been added that the puller has not seen flagged. -/
theorem count_added_le (p : Puller Msg) (j : Nat) :
    count (p.added sp.packetCnt) j ≤ p.waited sp.packetCnt := by
  cases p <;> simp only [Puller.added, Puller.waited] <;> rw [count_mk] <;>
    split <;> omega

omit [DecidableEq Host] in
/-- No cell is counted as ready before its message has been added. -/
theorem count_counted_le (p : Puller Msg) (j : Nat) :
    count (p.counted sp.packetCnt) j ≤ count (p.added sp.packetCnt) j := by
  cases p with
  | ready i j' =>
      simp only [Puller.counted, Puller.added]
      rw [count_mk, count_mk]
      split <;> split <;> omega
  | append i j' => exact Nat.le_refl _
  | wait i => exact Nat.le_refl _
  | get i j' => exact Nat.le_refl _
  | add i j' m => exact Nat.le_refl _
  | dead i j' => exact Nat.le_refl _
  | done => exact Nat.le_refl _

/-- Nothing is sent before it is read. -/
theorem Inv.sent_le_filled (h : Inv sp own plus pops pushes s) {j : Nat} (hj : j < sp.jobCnt) :
    count (s.sender.sent sp.packetCnt) j ≤ s.reader.filled sp.packetCnt := by
  calc count (s.sender.sent sp.packetCnt) j
      ≤ count (s.puller.counted sp.packetCnt) j := h.sent_le j hj
    _ ≤ count (s.puller.added sp.packetCnt) j := count_counted_le s.puller j
    _ ≤ s.puller.waited sp.packetCnt := count_added_le s.puller j
    _ ≤ s.reader.filled sp.packetCnt := h.waited

/-! ## The reader -/

theorem Inv.readerStep (hsp : Lawful sp own plus) (h : Inv sp own plus pops pushes s) :
    Relay.readerStep sp s = some s' → Inv sp own plus pops pushes s' := by
  intro hstep
  unfold Relay.readerStep at hstep
  have hle := h.filled_le
  have hflag := h.flag
  have hwaited := h.waited
  have hmem := h.mem
  cases hreader : s.reader with
  | read i =>
      have hfilled : s.reader.filled sp.packetCnt = i := by rw [hreader]; rfl
      simp only [hfilled] at hle hflag hwaited hmem
      simp only [hreader] at hstep
      by_cases hi : i < sp.packetCnt
      · rw [if_pos hi] at hstep
        obtain rfl := Option.some.inj hstep
        refine { h with
          filled_le := hle, flag := hflag, reading := ?_, waited := hwaited, mem := hmem }
        intro i' todo heq
        cases heq
        exact ⟨hi, [], s.mem i, rfl, rfl⟩
      · rw [if_neg hi] at hstep
        obtain rfl := Option.some.inj hstep
        obtain rfl : i = sp.packetCnt := Nat.le_antisymm hle (Nat.le_of_not_lt hi)
        refine { h with
          filled_le := hle, flag := hflag, reading := ?_, waited := hwaited, mem := hmem }
        intro i' todo heq
        cases heq
  | fill i todo =>
      have hfilled : s.reader.filled sp.packetCnt = i := by rw [hreader]; rfl
      simp only [hfilled] at hle hflag hwaited hmem
      obtain ⟨hi, ops, p, hops, hrun⟩ := h.reading i todo hreader
      cases todo with
      | nil =>
          simp only [hreader] at hstep
          obtain rfl := Option.some.inj hstep
          have hnew : (if sp.readLog i then Reader.read (i + 1) else Reader.dead (i + 1) :
              Reader Pk).filled sp.packetCnt = i + 1 := by
            split <;> rfl
          refine { h with
            filled_le := ?_, flag := ?_, reading := ?_, waited := ?_, mem := ?_ }
          · rw [hnew]
            exact hi
          · intro i' hi'
            show Function.update s.flag i true i' = true ↔ _
            rw [hnew]
            by_cases hii : i' = i
            · subst hii
              simp
            · rw [Function.update_of_ne hii, hflag i' hi']
              omega
          · intro i' todo heq
            split at heq <;> cases heq
          · rw [hnew]
            exact Nat.le_succ_of_le hwaited
          · intro i' hi' j hj
            rw [hnew] at hi'
            by_cases hii : i' = i
            · -- the packet that is flagged now: filled, and nothing added yet
              subst hii
              have hadded : count (s.puller.added sp.packetCnt) j ≤ i' :=
                Nat.le_trans (count_added_le s.puller j) hwaited
              rw [if_neg (Nat.not_lt.2 hadded)]
              rw [List.append_nil] at hops
              exact hsp.fill i' p _ hi (hops ▸ hrun) j hj
            · exact hmem i' (by omega) j hj
      | cons f todo =>
          simp only [hreader] at hstep
          cases hf : f (s.mem i) with
          | none =>
              rw [hf] at hstep
              cases hstep
          | some p' =>
              rw [hf] at hstep
              obtain rfl := Option.some.inj hstep
              refine { h with
                filled_le := hle, flag := hflag, reading := ?_, waited := hwaited, mem := ?_ }
              · intro i' todo' heq
                cases heq
                refine ⟨hi, ops ++ [f], p, by rw [hops, List.append_assoc]; rfl, ?_⟩
                simp [List.foldlM_append, hrun, hf]
              · intro i' hi' j hj
                -- packets that are flagged are not touched again
                have hne : i' ≠ i := Nat.ne_of_lt hi'
                simp only [Function.update_of_ne hne]
                exact hmem i' hi' j hj
  | dead i =>
      simp only [hreader] at hstep
      cases hstep
  | done =>
      simp only [hreader] at hstep
      cases hstep

/-! ## The puller -/

/-- The cell of a job without a source asks for nothing. -/
theorem asks_succ_of_none {i j : Nat} (h : Host) (hsrc : sp.src j = none) :
    asks sp h (cells sp.jobCnt (i, j + 1)) = asks sp h (cells sp.jobCnt (i, j)) := by
  rw [cells_succ, asks_append]
  simp [asks, hsrc]

/-- A cell asks for its key at the host of its source. -/
theorem asks_succ_of_some {i j : Nat} {h : Host} {k : Key} (hsrc : sp.src j = some (h, k)) :
    asks sp h (cells sp.jobCnt (i, j + 1)) = asks sp h (cells sp.jobCnt (i, j)) ++ [k] := by
  rw [cells_succ, asks_append]
  simp [asks, hsrc]

/-- It asks for nothing anywhere else. -/
theorem asks_succ_of_ne {i j : Nat} {h h' : Host} {k : Key} (hsrc : sp.src j = some (h, k))
    (hne : h' ≠ h) :
    asks sp h' (cells sp.jobCnt (i, j + 1)) = asks sp h' (cells sp.jobCnt (i, j)) := by
  rw [cells_succ, asks_append]
  simp [asks, hsrc, hne.symm]

/-- A step of the puller that touches neither a cell nor a counter. -/
theorem Inv.movePuller (h : Inv sp own plus pops pushes s) {p : Puller Msg}
    {pending : Host → List Key} {replies : Host → List Msg}
    (hloop : p.InLoop sp.packetCnt sp.jobCnt)
    (hwaited : p.waited sp.packetCnt ≤ s.reader.filled sp.packetCnt)
    (hadded : ∀ j < sp.jobCnt,
      count (p.added sp.packetCnt) j = count (s.puller.added sp.packetCnt) j)
    (hcounted : ∀ j < sp.jobCnt,
      count (p.counted sp.packetCnt) j = count (s.puller.counted sp.packetCnt) j)
    (hasked : ∀ h, (pops h).map Prod.fst ++ pending h =
      asks sp h (cells sp.jobCnt (p.appended sp.packetCnt)))
    (hreplies : ∀ h, ∃ old, (pops h).map Prod.snd = old ++ replies h ∧
      old.length = (asks sp h (cells sp.jobCnt (p.taken sp.packetCnt))).length)
    (hadding : ∀ i j m, p = .add i j m → ∃ h k, sp.src j = some (h, k) ∧
      reply sp pops (i, j) h = some m) :
    Inv sp own plus pops pushes { s with pending := pending, replies := replies, puller := p } :=
  { h with
    pullerLoop := hloop
    waited := hwaited
    mem := fun i hi j hj => by
      have hcell := h.mem i hi j hj
      rw [← hadded j hj] at hcell
      exact hcell
    ready := fun j hj => (h.ready j hj).trans (hcounted j hj).symm
    sent_le := fun j hj => Nat.le_trans (h.sent_le j hj) (Nat.le_of_eq (hcounted j hj).symm)
    asked := hasked
    replies := hreplies
    adding := hadding }

theorem Inv.appendStep {i j : Nat} (h : Inv sp own plus pops pushes s)
    (hpuller : s.puller = .append i j) :
    Relay.pullerStep sp s = some s' → Inv sp own plus pops pushes s' := by
  intro hstep
  simp only [Relay.pullerStep, hpuller] at hstep
  have hloop := h.pullerLoop
  have hasked := h.asked
  have hreplies := h.replies
  simp only [hpuller, Puller.InLoop, Puller.appended, Puller.taken] at hloop hasked hreplies
  obtain ⟨hi', hj', hlast⟩ := hloop
  by_cases hi : i < sp.packetCnt
  · rw [if_pos hi] at hstep
    by_cases hj : j < sp.jobCnt
    · rw [if_pos hj] at hstep
      -- a job without a source asks for nothing
      cases hsrc : sp.src j with
      | none =>
          simp only [hsrc] at hstep
          obtain rfl := Option.some.inj hstep
          refine h.movePuller ⟨hi', hj, fun heq => absurd heq (Nat.ne_of_lt hi)⟩ (Nat.zero_le _)
            (fun j' _ => by rw [hpuller]; rfl) (fun j' _ => by rw [hpuller]; rfl) ?_ hreplies
            (fun i' j' m heq => by cases heq)
          intro h'
          exact (hasked h').trans (asks_succ_of_none h' hsrc).symm
      | some q =>
          obtain ⟨h₀, k₀⟩ := q
          simp only [hsrc] at hstep
          obtain rfl := Option.some.inj hstep
          refine h.movePuller ⟨hi', hj, fun heq => absurd heq (Nat.ne_of_lt hi)⟩ (Nat.zero_le _)
            (fun j' _ => by rw [hpuller]; rfl) (fun j' _ => by rw [hpuller]; rfl) ?_ hreplies
            (fun i' j' m heq => by cases heq)
          intro h'
          show _ = asks sp h' (cells sp.jobCnt (i, j + 1))
          by_cases hh : h' = h₀
          · subst hh
            rw [Function.update_self, asks_succ_of_some hsrc, ← hasked h', List.append_assoc]
          · rw [Function.update_of_ne hh, asks_succ_of_ne hsrc hh, ← hasked h']
    · rw [if_neg hj] at hstep
      obtain rfl := Option.some.inj hstep
      obtain rfl : j = sp.jobCnt := Nat.le_antisymm hj' (Nat.le_of_not_lt hj)
      refine h.movePuller ⟨hi, Nat.zero_le _, fun _ => rfl⟩ (Nat.zero_le _)
        (fun j' _ => by rw [hpuller]; rfl) (fun j' _ => by rw [hpuller]; rfl) ?_ hreplies
        (fun i' j' m heq => by cases heq)
      intro h'
      show _ = asks sp h' (cells sp.jobCnt (i + 1, 0))
      rw [cells_next]
      exact hasked h'
  · rw [if_neg hi] at hstep
    obtain rfl := Option.some.inj hstep
    obtain rfl : i = sp.packetCnt := Nat.le_antisymm hi' (Nat.le_of_not_lt hi)
    obtain rfl := hlast rfl
    exact h.movePuller (Nat.zero_le _) (Nat.zero_le _) (fun j' _ => by rw [hpuller]; rfl)
      (fun j' _ => by rw [hpuller]; rfl) hasked hreplies (fun i' j' m heq => by cases heq)

theorem Inv.waitStep {i : Nat} (h : Inv sp own plus pops pushes s) (hpuller : s.puller = .wait i) :
    Relay.pullerStep sp s = some s' → Inv sp own plus pops pushes s' := by
  intro hstep
  simp only [Relay.pullerStep, hpuller] at hstep
  have hloop := h.pullerLoop
  have hwaited := h.waited
  have hasked := h.asked
  have hreplies := h.replies
  simp only [hpuller, Puller.InLoop, Puller.appended, Puller.taken, Puller.waited]
    at hloop hwaited hasked hreplies
  by_cases hi : i < sp.packetCnt
  · rw [if_pos hi] at hstep
    by_cases hflag : s.flag i = true
    · rw [if_pos hflag] at hstep
      obtain rfl := Option.some.inj hstep
      exact h.movePuller ⟨hi, Nat.zero_le _⟩ ((h.flag i hi).1 hflag)
        (fun j' _ => by rw [hpuller]; rfl) (fun j' _ => by rw [hpuller]; rfl) hasked hreplies
        (fun i' j' m heq => by cases heq)
    · rw [if_neg hflag] at hstep
      cases hstep
  · rw [if_neg hi] at hstep
    obtain rfl := Option.some.inj hstep
    obtain rfl : i = sp.packetCnt := Nat.le_antisymm hloop (Nat.le_of_not_lt hi)
    exact h.movePuller trivial hwaited (fun j' _ => by rw [hpuller]; rfl)
      (fun j' _ => by rw [hpuller]; rfl) hasked hreplies (fun i' j' m heq => by cases heq)

theorem Inv.getStep {i j : Nat} (h : Inv sp own plus pops pushes s)
    (hpuller : s.puller = .get i j) :
    Relay.pullerStep sp s = some s' → Inv sp own plus pops pushes s' := by
  intro hstep
  simp only [Relay.pullerStep, hpuller] at hstep
  have hloop := h.pullerLoop
  have hwaited := h.waited
  have hasked := h.asked
  have hreplies := h.replies
  have hmem := h.mem
  simp only [hpuller, Puller.InLoop, Puller.appended, Puller.taken, Puller.waited, Puller.added]
    at hloop hwaited hasked hreplies hmem
  obtain ⟨hi, hj'⟩ := hloop
  by_cases hj : j < sp.jobCnt
  · rw [if_pos hj] at hstep
    cases hsrc : sp.src j with
    | none =>
        -- nothing is added to this cell: what is expected of it is its own value
        simp only [hsrc] at hstep
        obtain rfl := Option.some.inj hstep
        have hcells : ∀ h', asks sp h' (cells sp.jobCnt (i, j + 1)) =
            asks sp h' (cells sp.jobCnt (i, j)) := fun h' => asks_succ_of_none h' hsrc
        refine { h with
          pullerLoop := ⟨hi, hj⟩, waited := hwaited, mem := ?_, ready := ?_, sent_le := ?_,
          asked := hasked, replies := ?_, adding := fun i' j' m heq => by cases heq }
        · intro i' hi' j' hj₁
          have hcell := hmem i' hi' j' hj₁
          show if i' < count (i, j + 1) j' then
            Expected sp own plus pops (i', j') (sp.load j' (s.mem i'))
            else sp.load j' (s.mem i') = own i' j'
          by_cases hjj : j' = j
          · subst hjj
            rw [count_self] at hcell
            rw [count_succ_self]
            by_cases hii : i' = i
            · subst hii
              rw [if_neg (Nat.lt_irrefl i')] at hcell
              rw [if_pos (Nat.lt_succ_self i')]
              simp only [Expected, hsrc]
              exact hcell
            · have hlt : i' < i + 1 ↔ i' < i := by omega
              simpa only [hlt] using hcell
          · rw [count_succ_of_ne hjj]
            exact hcell
        · intro j' hj₁
          rw [h.ready j' hj₁, hpuller]
          rfl
        · intro j' hj₁
          have hle := h.sent_le j' hj₁
          rw [hpuller] at hle
          exact hle
        · intro h'
          obtain ⟨old, hold, hlen⟩ := hreplies h'
          exact ⟨old, hold, hlen.trans (congrArg List.length (hcells h').symm)⟩
    | some q =>
        obtain ⟨h₀, k₀⟩ := q
        simp only [hsrc] at hstep
        cases hms : s.replies h₀ with
        | nil =>
            rw [hms] at hstep
            cases hstep
        | cons m ms =>
            rw [hms] at hstep
            obtain rfl := Option.some.inj hstep
            refine h.movePuller ⟨hi, hj⟩ hwaited (fun j' _ => by rw [hpuller]; rfl)
              (fun j' _ => by rw [hpuller]; rfl) hasked ?_ ?_
            · intro h'
              show ∃ old, _ = old ++ Function.update s.replies h₀ ms h' ∧
                old.length = (asks sp h' (cells sp.jobCnt (i, j + 1))).length
              obtain ⟨old, hold, hlen⟩ := hreplies h'
              by_cases hh : h' = h₀
              · subst hh
                rw [hms] at hold
                refine ⟨old ++ [m], ?_, ?_⟩
                · rw [Function.update_self, hold, List.append_assoc]
                  rfl
                · rw [asks_succ_of_some hsrc, List.length_append, List.length_append, hlen]
                  rfl
              · refine ⟨old, ?_, ?_⟩
                · rw [Function.update_of_ne hh, hold]
                · rw [asks_succ_of_ne hsrc hh, hlen]
            · intro i' j' m' heq
              cases heq
              obtain ⟨old, hold, hlen⟩ := hreplies h₀
              refine ⟨h₀, k₀, hsrc, ?_⟩
              -- the replies taken so far are those of the cells before this one
              rw [reply, ← hlen, ← List.getElem?_map, hold, hms]
              simp
  · rw [if_neg hj] at hstep
    obtain rfl := Option.some.inj hstep
    obtain rfl : j = sp.jobCnt := Nat.le_antisymm hj' (Nat.le_of_not_lt hj)
    refine h.movePuller hi hwaited ?_ ?_ hasked ?_ (fun i' j' m heq => by cases heq)
    · intro j' hj₁
      rw [hpuller]
      exact count_next hj₁
    · intro j' hj₁
      rw [hpuller]
      exact count_next hj₁
    · intro h'
      show ∃ old : List Msg, _ ∧ old.length = (asks sp h' (cells sp.jobCnt (i + 1, 0))).length
      rw [cells_next]
      exact hreplies h'

theorem Inv.addStep (hsp : Lawful sp own plus) {i j : Nat} {m : Msg}
    (h : Inv sp own plus pops pushes s) (hpuller : s.puller = .add i j m) :
    Relay.pullerStep sp s = some s' → Inv sp own plus pops pushes s' := by
  intro hstep
  simp only [Relay.pullerStep, hpuller] at hstep
  obtain rfl := Option.some.inj hstep
  obtain ⟨h₀, k₀, hsrc, hreply⟩ := h.adding i j m hpuller
  have hloop := h.pullerLoop
  have hwaited := h.waited
  have hasked := h.asked
  have hreplies := h.replies
  have hmem := h.mem
  simp only [hpuller, Puller.InLoop, Puller.appended, Puller.taken, Puller.waited, Puller.added]
    at hloop hwaited hasked hreplies hmem
  obtain ⟨hi, hj⟩ := hloop
  refine { h with
    reading := ?_, pullerLoop := ⟨hi, hj⟩, waited := hwaited, mem := ?_, ready := ?_,
    sent_le := ?_, asked := hasked, replies := hreplies,
    adding := fun i' j' m heq => by cases heq }
  · intro i' todo heq
    -- the reader is at a packet that the puller has not reached
    have hne : i' ≠ i := by
      intro hii
      rw [show s.reader = .fill i' todo from heq] at hwaited
      simp only [Reader.filled] at hwaited
      omega
    simp only [Function.update_of_ne hne]
    exact h.reading i' todo heq
  · intro i' hi' j' hj'
    show if i' < count (i, j + 1) j' then
      Expected sp own plus pops (i', j')
        (sp.load j' (Function.update s.mem i (sp.add j m (s.mem i)) i'))
      else sp.load j' (Function.update s.mem i (sp.add j m (s.mem i)) i') = own i' j'
    have hcell := hmem i' hi' j' hj'
    by_cases hii : i' = i
    · subst hii
      rw [Function.update_self]
      by_cases hjj : j' = j
      · subst hjj
        rw [count_self, if_neg (Nat.lt_irrefl i')] at hcell
        rw [count_succ_self, if_pos (Nat.lt_succ_self i')]
        simp only [Expected, hsrc]
        refine ⟨m, hreply, ?_⟩
        rw [hsp.add j' m _ (Nat.zero_lt_of_lt hi) hj (by simp [hsrc]), hcell]
      · rw [hsp.add_ne j j' m _ hj hj' hjj, count_succ_of_ne hjj]
        exact hcell
    · rw [Function.update_of_ne hii]
      by_cases hjj : j' = j
      · subst hjj
        rw [count_self] at hcell
        have hlt : i' < i + 1 ↔ i' < i := by omega
        rw [count_succ_self]
        simpa only [hlt] using hcell
      · rw [count_succ_of_ne hjj]
        exact hcell
  · intro j' hj'
    rw [h.ready j' hj', hpuller]
    rfl
  · intro j' hj'
    have hle := h.sent_le j' hj'
    rw [hpuller] at hle
    exact hle

theorem Inv.readyStep {i j : Nat} (h : Inv sp own plus pops pushes s)
    (hpuller : s.puller = .ready i j) :
    Relay.pullerStep sp s = some s' → Inv sp own plus pops pushes s' := by
  intro hstep
  simp only [Relay.pullerStep, hpuller] at hstep
  obtain rfl := Option.some.inj hstep
  have hloop := h.pullerLoop
  have hwaited := h.waited
  have hasked := h.asked
  have hreplies := h.replies
  have hmem := h.mem
  have hready := h.ready
  have hsent := h.sent_le
  simp only [hpuller, Puller.InLoop, Puller.appended, Puller.taken, Puller.waited, Puller.added,
    Puller.counted] at hloop hwaited hasked hreplies hmem hready hsent
  obtain ⟨hi, hj⟩ := hloop
  -- the log only decides whether the puller goes on or stops there
  have hpos : ∀ {β : Type} (f : Puller Msg → β), f (.get i (j + 1)) = f (.dead i (j + 1)) →
      f (if sp.pullLog i j then .get i (j + 1) else .dead i (j + 1)) = f (.get i (j + 1)) := by
    intro β f heq
    split
    · rfl
    · exact heq.symm
  refine { h with
    pullerLoop := ?_, waited := ?_, mem := ?_, ready := ?_, sent_le := ?_, asked := ?_,
    replies := ?_, adding := ?_ }
  · rw [hpos (fun p => p.InLoop sp.packetCnt sp.jobCnt) rfl]
    exact ⟨hi, hj⟩
  · rw [hpos (fun p => p.waited sp.packetCnt) rfl]
    exact hwaited
  · intro i' hi' j' hj'
    rw [hpos (fun p => p.added sp.packetCnt) rfl]
    exact hmem i' hi' j' hj'
  · intro j' hj'
    show Function.update s.ready j (s.ready j + 1) j' = _
    rw [hpos (fun p => p.counted sp.packetCnt) rfl]
    simp only [Puller.counted]
    by_cases hjj : j' = j
    · subst hjj
      rw [Function.update_self, hready j' hj', count_self, count_succ_self]
    · rw [Function.update_of_ne hjj, hready j' hj', count_succ_of_ne hjj]
  · intro j' hj'
    rw [hpos (fun p => p.counted sp.packetCnt) rfl]
    simp only [Puller.counted]
    refine Nat.le_trans (hsent j' hj') ?_
    by_cases hjj : j' = j
    · subst hjj
      rw [count_self, count_succ_self]
      exact Nat.le_succ i
    · exact Nat.le_of_eq (count_succ_of_ne hjj).symm
  · intro h'
    rw [hpos (fun p => p.appended sp.packetCnt) rfl]
    exact hasked h'
  · intro h'
    rw [hpos (fun p => p.taken sp.packetCnt) rfl]
    exact hreplies h'
  · intro i' j' m heq
    split at heq <;> cases heq

theorem Inv.pullerStep (hsp : Lawful sp own plus) (h : Inv sp own plus pops pushes s) :
    Relay.pullerStep sp s = some s' → Inv sp own plus pops pushes s' := by
  intro hstep
  cases hpuller : s.puller with
  | append i j => exact h.appendStep hpuller hstep
  | wait i => exact h.waitStep hpuller hstep
  | get i j => exact h.getStep hpuller hstep
  | add i j m => exact h.addStep hsp hpuller hstep
  | ready i j => exact h.readyStep hpuller hstep
  | dead i j => simp [Relay.pullerStep, hpuller] at hstep
  | done => simp [Relay.pullerStep, hpuller] at hstep

/-! ## The sender -/

/-- A cell that the sender may push is as it is to be pushed. -/
theorem Inv.expected (h : Inv sp own plus pops pushes s) {i j : Nat} (hj : j < sp.jobCnt) :
    i < s.ready j → Expected sp own plus pops (i, j) (sp.load j (s.mem i)) := by
  intro hready
  rw [h.ready j hj] at hready
  have hadded : i < count (s.puller.added sp.packetCnt) j :=
    Nat.lt_of_lt_of_le hready (count_counted_le s.puller j)
  have hfilled : i < s.reader.filled sp.packetCnt :=
    Nat.lt_of_lt_of_le hadded (Nat.le_trans (count_added_le s.puller j) h.waited)
  have hcell := h.mem i hfilled j hj
  rwa [if_pos hadded] at hcell

theorem Inv.senderStep {e : Event Host Key Msg} (h : Inv sp own plus pops pushes s) :
    Relay.senderStep sp s = some (e, s') →
      Inv sp own plus pops (pushes ++ pushedAll [e]) s' ∧ ∀ h', poppedAt h' [e] = [] := by
  intro hstep
  unfold Relay.senderStep at hstep
  have hloop := h.senderLoop
  have hsent := h.sent_le
  have hpushes := h.pushes
  cases hsender : s.sender with
  | send i j =>
      simp only [hsender] at hstep
      simp only [hsender, Sender.InLoop, Sender.sent] at hloop hsent hpushes
      obtain ⟨hi', hj', hlast⟩ := hloop
      by_cases hi : i < sp.packetCnt
      · rw [if_pos hi] at hstep
        by_cases hj : j < sp.jobCnt
        · rw [if_pos hj] at hstep
          -- the sender goes on only when the packet is counted for this job
          by_cases hready : i < s.ready j
          · rw [if_pos hready] at hstep
            cases hstep
            have hnew : (if sp.sendLog i j then Sender.send i (j + 1)
                else Sender.dead i (j + 1)).sent sp.packetCnt = (i, j + 1) := by
              split <;> rfl
            refine ⟨{ h with senderLoop := ?_, sent_le := ?_, pushes := ?_ }, fun _ => rfl⟩
            · split
              · exact ⟨hi', hj, fun heq => absurd heq (Nat.ne_of_lt hi)⟩
              · exact ⟨hi, hj⟩
            · intro j' hj₁
              rw [hnew]
              by_cases hjj : j' = j
              · subst hjj
                rw [count_succ_self]
                exact h.ready j' hj₁ ▸ hready
              · rw [count_succ_of_ne hjj]
                exact hsent j' hj₁
            · rw [hnew, cells_succ]
              exact List.rel_append hpushes
                (.cons ⟨rfl, h.expected hj hready⟩ .nil)
          · rw [if_neg hready] at hstep
            cases hstep
        · rw [if_neg hj] at hstep
          cases hstep
          obtain rfl : j = sp.jobCnt := Nat.le_antisymm hj' (Nat.le_of_not_lt hj)
          have hnil : pushes ++ pushedAll [(.internal : Event Host Key Msg)] = pushes :=
            List.append_nil pushes
          rw [hnil]
          refine ⟨{ h with senderLoop := ?_, sent_le := ?_, pushes := ?_ }, fun _ => rfl⟩
          · exact ⟨hi, Nat.zero_le _, fun _ => rfl⟩
          · intro j' hj₁
            exact (count_next hj₁).symm ▸ hsent j' hj₁
          · show List.Forall₂ _ (cells sp.jobCnt (i + 1, 0)) pushes
            rw [cells_next]
            exact hpushes
      · rw [if_neg hi] at hstep
        cases hstep
        obtain rfl : i = sp.packetCnt := Nat.le_antisymm hi' (Nat.le_of_not_lt hi)
        obtain rfl := hlast rfl
        have hnil : pushes ++ pushedAll [(.internal : Event Host Key Msg)] = pushes :=
          List.append_nil pushes
        rw [hnil]
        exact ⟨{ h with senderLoop := trivial, sent_le := hsent, pushes := hpushes }, fun _ => rfl⟩
  | dead i j =>
      simp only [hsender] at hstep
      cases hstep
  | done =>
      simp only [hsender] at hstep
      cases hstep

/-! ## Answers -/

theorem reply_mono {pops' : Host → List (Key × Msg)} (hpops : ∀ h, pops h <+: pops' h)
    {c : Nat × Nat} {h : Host} {m : Msg} :
    reply sp pops c h = some m → reply sp pops' c h = some m := by
  intro hreply
  obtain ⟨rest, hrest⟩ := hpops h
  rw [reply, Option.map_eq_some_iff] at hreply ⊢
  obtain ⟨q, hq, hqm⟩ := hreply
  obtain ⟨hlt, -⟩ := List.getElem?_eq_some_iff.1 hq
  refine ⟨q, ?_, hqm⟩
  rw [← hrest, List.getElem?_append_left hlt]
  exact hq

theorem Expected.mono {pops' : Host → List (Key × Msg)} (hpops : ∀ h, pops h <+: pops' h)
    {c : Nat × Nat} {v : Msg} :
    Expected sp own plus pops c v → Expected sp own plus pops' c v := by
  intro hexp
  unfold Expected at hexp ⊢
  split
  · rename_i hsrc
    rw [hsrc] at hexp
    exact hexp
  · rename_i h k hsrc
    rw [hsrc] at hexp
    obtain ⟨m, hreply, hv⟩ := hexp
    exact ⟨m, reply_mono hpops hreply, hv⟩

theorem Inv.serve {h₀ : Host} {k : Key} {m : Msg} (h : Inv sp own plus pops pushes s) :
    Relay.serve h₀ m s = some (k, s') →
      Inv sp own plus (Function.update pops h₀ (pops h₀ ++ [(k, m)])) pushes s' := by
  intro hserve
  unfold Relay.serve at hserve
  cases hpending : s.pending h₀ with
  | nil =>
      rw [hpending] at hserve
      cases hserve
  | cons k' ks =>
      rw [hpending] at hserve
      cases hserve
      -- the messages popped so far stay in front
      have hpops : ∀ h', pops h' <+: Function.update pops h₀ (pops h₀ ++ [(k, m)]) h' := by
        intro h'
        by_cases hh : h' = h₀
        · subst hh
          rw [Function.update_self]
          exact List.prefix_append _ _
        · exact (Function.update_of_ne hh _ pops).symm ▸ List.prefix_refl (pops h')
      refine { h with mem := ?_, pushes := ?_, asked := ?_, replies := ?_, adding := ?_ }
      · intro i hi j hj
        have hcell := h.mem i hi j hj
        by_cases hadded : i < count (s.puller.added sp.packetCnt) j
        · rw [if_pos hadded] at hcell ⊢
          exact hcell.mono hpops
        · rw [if_neg hadded] at hcell ⊢
          exact hcell
      · exact h.pushes.imp fun c p hcp => ⟨hcp.1, hcp.2.mono hpops⟩
      · intro h'
        have hasked := h.asked h'
        by_cases hh : h' = h₀
        · subst hh
          simp only [Function.update_self]
          rw [← hasked, hpending]
          simp
        · simp only [Function.update_of_ne hh]
          exact hasked
      · intro h'
        obtain ⟨old, hold, hlen⟩ := h.replies h'
        refine ⟨old, ?_, hlen⟩
        by_cases hh : h' = h₀
        · subst hh
          simp only [Function.update_self]
          rw [List.map_append, hold, List.append_assoc]
          rfl
        · simp only [Function.update_of_ne hh]
          exact hold
      · intro i j m' hadd
        obtain ⟨h', k', hsrc, hreply⟩ := h.adding i j m' hadd
        exact ⟨h', k', hsrc, reply_mono hpops hreply⟩

/-! ## A whole batch -/

omit [DecidableEq Host] in
theorem pushedAll_append (es es' : List (Event Host Key Msg)) :
    pushedAll (es ++ es') = pushedAll es ++ pushedAll es' :=
  List.filterMap_append

theorem poppedAt_append (h : Host) (es es' : List (Event Host Key Msg)) :
    poppedAt h (es ++ es') = poppedAt h es ++ poppedAt h es' :=
  List.filterMap_append

/-- The invariant of a relay, with all it has popped and pushed. -/
def Correct (sp : Spec Pk Host Key Msg) (own : Nat → Nat → Msg) (plus : Msg → Msg → Msg)
    (es : List (Event Host Key Msg)) (s : State Pk Host Key Msg) : Prop :=
  Inv sp own plus (fun h => poppedAt h es) (pushedAll es) s

/-- No step of a thread and no answer loses the invariant. -/
theorem Correct.step (hsp : Lawful sp own plus) {es : List (Event Host Key Msg)}
    {e : Event Host Key Msg} (h : Correct sp own plus es s) :
    Step sp s e s' → Correct sp own plus (es ++ [e]) s' := by
  intro hstep
  have hpush : pushedAll (es ++ [e]) = pushedAll es ++ pushedAll [e] := pushedAll_append es [e]
  have hpop : (fun h => poppedAt h (es ++ [e])) = fun h => poppedAt h es ++ poppedAt h [e] :=
    funext fun h => poppedAt_append h es [e]
  unfold Correct at h ⊢
  rw [hpush, hpop]
  cases hstep with
  | reader hr =>
      have hpushed : pushedAll [(.internal : Event Host Key Msg)] = [] := rfl
      have hpopped : ∀ h', poppedAt h' [(.internal : Event Host Key Msg)] = [] := fun _ => rfl
      simp only [hpushed, hpopped, List.append_nil]
      exact h.readerStep hsp hr
  | puller hp =>
      have hpushed : pushedAll [(.internal : Event Host Key Msg)] = [] := rfl
      have hpopped : ∀ h', poppedAt h' [(.internal : Event Host Key Msg)] = [] := fun _ => rfl
      simp only [hpushed, hpopped, List.append_nil]
      exact h.pullerStep hsp hp
  | sender hs =>
      obtain ⟨hinv, hpopped⟩ := h.senderStep hs
      simp only [hpopped, List.append_nil]
      exact hinv
  | @serve h₀ k m s' hs =>
      have hpushed : pushedAll [(.pop h₀ k m : Event Host Key Msg)] = [] := rfl
      have hpopped : (fun h' => poppedAt h' es ++ poppedAt h' [.pop h₀ k m]) =
          Function.update (fun h' => poppedAt h' es) h₀ (poppedAt h₀ es ++ [(k, m)]) := by
        funext h'
        by_cases hh : h' = h₀
        · subst hh
          simp [poppedAt]
        · simp [poppedAt, Function.update_of_ne hh, Ne.symm hh]
      rw [hpushed, List.append_nil, hpopped]
      exact h.serve hs

end Lemmas


section Start

variable {sp : Spec Pk Host Key Msg} {own : Nat → Nat → Msg} {plus : Msg → Msg → Msg}
  {s s' : State Pk Host Key Msg} {es : List (Event Host Key Msg)}

/-- A batch that starts with all flags down, nothing asked and nothing answered. -/
theorem Correct.start (hflag : ∀ i < sp.packetCnt, s.flag i = false)
    (hpending : ∀ h, s.pending h = []) (hreplies : ∀ h, s.replies h = []) :
    Correct sp own plus [] (Relay.start sp s) where
  filled_le := Nat.zero_le _
  flag := by
    intro i hi
    show s.flag i = true ↔ i < 0
    simp [hflag i hi]
  reading := fun i todo heq => by cases heq
  pullerLoop := ⟨Nat.zero_le _, Nat.zero_le _, fun _ => rfl⟩
  senderLoop := ⟨Nat.zero_le _, Nat.zero_le _, fun _ => rfl⟩
  waited := Nat.zero_le _
  mem := fun i hi => absurd hi (Nat.not_lt_zero i)
  ready := by
    intro j hj
    show (if j < sp.jobCnt then 0 else s.ready j) = count (0, 0) j
    rw [if_pos hj]
    rfl
  sent_le := fun j hj => Nat.zero_le _
  pushes := .nil
  asked := by
    intro h
    show [] ++ s.pending h = []
    rw [hpending]
    rfl
  replies := fun h => ⟨[], by rw [show (Relay.start sp s).replies h = [] from hreplies h]; rfl, rfl⟩
  adding := fun i j m heq => by cases heq

/-- A run of the threads and the answers. -/
theorem Correct.run (hsp : Lawful sp own plus) (h : Correct sp own plus es s)
    {es' : List (Event Host Key Msg)} :
    Lists.LocalRuns (Step sp) s es' s' → Correct sp own plus (es ++ es') s' := by
  intro hruns
  induction hruns with
  | refl =>
      rwa [List.append_nil]
  | snoc _ hstep ih =>
      rw [← List.append_assoc]
      exact ih.step hsp hstep

/-- Once the threads have ended, every question has been answered and every answer taken. -/
theorem Correct.drained (h : Correct sp own plus es s) :
    s.puller = .done → ∀ h', s.pending h' = [] ∧ s.replies h' = [] := by
  intro hdone h'
  have hasked := congrArg List.length (h.asked h')
  obtain ⟨old, hold, hlen⟩ := h.replies h'
  have hreplies := congrArg List.length hold
  simp only [hdone, Puller.appended, Puller.taken, List.length_append, List.length_map]
    at hasked hlen hreplies
  have hpending : (s.pending h').length = 0 := by omega
  have hrest : (s.replies h').length = 0 := by omega
  exact ⟨List.eq_nil_of_length_eq_zero hpending, List.eq_nil_of_length_eq_zero hrest⟩

end Start

end Relay
