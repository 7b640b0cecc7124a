import CoRD.Network.RelayBatch

/-!
# RelayLists — a batch of a relay, list by list

The lists that the jobs of a relay are asked from are told apart, and so are those they are pushed
to.  Then the messages of one job are the messages of one list, in the order of the packets.
-/

namespace Relay

open Lists (Event)

variable {Pk Host Key Msg : Type} [DecidableEq Host]

section Keys

variable {sp : Spec Pk Host Key Msg} {own : Nat → Nat → Msg} {plus : Msg → Msg → Msg}
  {s : State Pk Host Key Msg} {es : List (Event Host Key Msg)}

/-- Cells are reached one after another. -/
theorem cells_induction {jobCnt : Nat} {motive : Nat × Nat → Prop} (zero : motive (0, 0))
    (succ : ∀ i j, j < jobCnt → motive (i, j) → motive (i, j + 1))
    (next : ∀ i, motive (i, jobCnt) → motive (i + 1, 0)) (i j : Nat) :
    j ≤ jobCnt → motive (i, j) := by
  induction i generalizing j with
  | zero =>
      intro hj
      induction j with
      | zero => exact zero
      | succ j ih => exact succ 0 j hj (ih (Nat.le_of_succ_le hj))
  | succ i ihi =>
      intro hj
      induction j with
      | zero => exact next i (ihi jobCnt (Nat.le_refl _))
      | succ j ih => exact succ (i + 1) j hj (ih (Nat.le_of_succ_le hj))

/-- The cells of one job, packet after packet. -/
theorem cells_filter {jobCnt j : Nat} (hj : j < jobCnt) (i j' : Nat) :
    j' ≤ jobCnt → (cells jobCnt (i, j')).filter (fun c => decide (c.2 = j)) =
      (List.range (count (i, j') j)).map (·, j) := by
  refine cells_induction (motive := fun a => (cells jobCnt a).filter (fun c => decide (c.2 = j)) =
    (List.range (count a j)).map (·, j)) rfl ?_ ?_ i j'
  · intro i j' _ ih
    rw [cells_succ, List.filter_append, ih]
    by_cases hjj : j = j'
    · subst hjj
      rw [count_self, count_succ_self, List.range_succ, List.map_append]
      simp
    · rw [count_succ_of_ne hjj]
      simp [Ne.symm hjj]
  · intro i ih
    rw [cells_next, ih, count_next hj]

theorem mem_cells {jobCnt i j : Nat} (hj : j ≤ jobCnt) {c : Nat × Nat} :
    c ∈ cells jobCnt (i, j) → c.2 < jobCnt := by
  intro hc
  simp only [cells, List.mem_append, List.mem_flatMap, List.mem_map, List.mem_range] at hc
  rcases hc with ⟨i', _, j', hj', rfl⟩ | ⟨j', hj', rfl⟩
  · exact hj'
  · exact Nat.lt_of_lt_of_le hj' hj

theorem cells_prefix_row (jobCnt i : Nat) {j j' : Nat} (hj : j ≤ j') :
    cells jobCnt (i, j) <+: cells jobCnt (i, j') := by
  induction hj with
  | refl => exact List.prefix_refl _
  | step _ ih =>
      rw [cells_succ]
      exact ih.trans (List.prefix_append _ _)

theorem cells_prefix_col (jobCnt : Nat) {i i' : Nat} (hi : i ≤ i') :
    cells jobCnt (i, 0) <+: cells jobCnt (i', 0) := by
  induction hi with
  | refl => exact List.prefix_refl _
  | step _ ih =>
      rw [cells_next]
      exact ih.trans (cells_prefix_row jobCnt _ (Nat.zero_le _))

/-- All positions in the loops are on the way to the end. -/
theorem cells_isPrefix {jobCnt i j packetCnt : Nat} (hi : i < packetCnt) (hj : j ≤ jobCnt) :
    cells jobCnt (i, j) <+: cells jobCnt (packetCnt, 0) := by
  have hrow : cells jobCnt (i, j) <+: cells jobCnt (i + 1, 0) := by
    rw [cells_next]
    exact cells_prefix_row jobCnt i hj
  exact hrow.trans (cells_prefix_col jobCnt hi)

/-- The lists that jobs are asked from and pushed to are told apart. -/
structure KeysApart (sp : Spec Pk Host Key Msg) : Prop where
  src : ∀ j < sp.jobCnt, ∀ j' < sp.jobCnt, sp.src j = sp.src j' → sp.src j ≠ none → j = j'
  dst : ∀ j < sp.jobCnt, ∀ j' < sp.jobCnt, sp.dst j = sp.dst j' → j = j'

variable [DecidableEq Key]

/-- The keys asked for at a host before a cell, counted. -/
theorem count_asks (hapart : KeysApart sp) {j : Nat} {h : Host} {k : Key}
    (hj : j < sp.jobCnt) (hsrc : sp.src j = some (h, k)) {i' j' : Nat} (hj' : j' ≤ sp.jobCnt) :
    (asks sp h (cells sp.jobCnt (i', j'))).count k = count (i', j') j := by
  -- only the cells of the job itself ask for its key
  have hone : ∀ c ∈ cells sp.jobCnt (i', j'), (asks sp h [c] = [k] ↔ c.2 = j) := by
    intro c hc
    have hc₂ : c.2 < sp.jobCnt := mem_cells hj' hc
    constructor
    · intro heq
      have hsame : sp.src c.2 = some (h, k) := by
        cases hs : sp.src c.2 with
        | none => simp [asks, hs] at heq
        | some q =>
            obtain ⟨h', k'⟩ := q
            by_cases hh : h' = h
            · simp only [asks, List.filterMap_cons, hs, if_pos hh, List.filterMap_nil,
                List.cons.injEq, and_true] at heq
              rw [hh, heq]
            · simp [asks, hs, hh] at heq
      exact hapart.src _ hc₂ _ hj (hsame.trans hsrc.symm) (by simp [hsame])
    · intro heq
      simp [asks, heq, hsrc]
  have hcells := congrArg List.length (cells_filter hj i' j' hj')
  rw [List.length_map, List.length_range] at hcells
  rw [← hcells, ← List.countP_eq_length_filter]
  refine (List.countP_filterMap ..).trans (List.countP_congr fun c hc => ?_)
  rw [decide_eq_true_iff, ← hone c hc]
  have hsome : ∀ f : Nat × Nat → Option Key,
      ((f c).map (· == k)).getD false = true ↔ [c].filterMap f = [k] := by
    intro f
    cases hf : f c <;> simp [hf]
  rw [asks, ← hsome]

/-- What a host has answered for one key. -/
theorem popped_eq_filter (h : Host) (k : Key) :
    Lists.popped h k es = ((poppedAt h es).filter fun q => decide (q.1 = k)).map Prod.snd := by
  induction es with
  | nil => rfl
  | cons e es ih =>
      have happ : poppedAt h (e :: es) = poppedAt h [e] ++ poppedAt h es := poppedAt_append h [e] es
      have hpop : Lists.popped h k (e :: es) = Lists.popped h k [e] ++ Lists.popped h k es :=
        Lists.popped_append h k [e] es
      rw [happ, hpop, ih, List.filter_append, List.map_append]
      congr 1
      cases e with
      | internal => rfl
      | push h' k' m => rfl
      | pop h' k' m =>
          by_cases hh : h' = h
          · by_cases hk : k' = k <;> simp [Lists.popped, poppedAt, hh, hk]
          · simp [Lists.popped, poppedAt, hh]

/-- What has been pushed to one list. -/
theorem pushed_eq_filter (h : Host) (k : Key) :
    Lists.pushed h k es = ((pushedAll es).filter fun q => decide (q.1 = (h, k))).map Prod.snd := by
  induction es with
  | nil => rfl
  | cons e es ih =>
      have happ : pushedAll (e :: es) = pushedAll [e] ++ pushedAll es := pushedAll_append [e] es
      have hpush : Lists.pushed h k (e :: es) = Lists.pushed h k [e] ++ Lists.pushed h k es :=
        Lists.pushed_append h k [e] es
      rw [happ, hpush, ih, List.filter_append, List.map_append]
      congr 1
      cases e with
      | internal => rfl
      | pop h' k' m => rfl
      | push h' k' m =>
          by_cases hh : h' = h
          · by_cases hk : k' = k <;> simp [Lists.pushed, pushedAll, hh, hk]
          · simp [Lists.pushed, pushedAll, hh]

/-- What was answered for one key is in the order of the questions. -/
theorem getElem?_filter_of_keys {L : List (Key × Msg)} {ks rest : List Key} {n : Nat} {k : Key}
    {q : Key × Msg} (hkeys : L.map Prod.fst ++ rest = ks) (hq : L[n]? = some q) (hk : ks[n]? = some k) :
    ((L.filter fun q => decide (q.1 = k)).map Prod.snd)[(ks.take n).count k]? = some q.2 := by
  obtain ⟨hn, hqn⟩ := List.getElem?_eq_some_iff.1 hq
  have hqk : q.1 = k := by
    rw [← hkeys, List.getElem?_append_left (by simpa using hn), List.getElem?_map, hq] at hk
    exact Option.some.inj hk
  have htake : ks.take n = (L.take n).map Prod.fst := by
    rw [← hkeys, List.take_append_of_le_length (by simpa using Nat.le_of_lt hn), List.map_take]
  have hsplit : L = L.take n ++ q :: L.drop (n + 1) := by
    rw [← hqn, List.getElem_cons_drop, List.take_append_drop]
  have hcount : (ks.take n).count k =
      (((L.take n).filter fun q => decide (q.1 = k)).map Prod.snd).length := by
    rw [htake, List.length_map, ← List.countP_eq_length_filter, List.count, List.countP_map]
    exact List.countP_congr fun q _ => by simp
  have hat : ∀ A B : List (Key × Msg), (((A ++ q :: B).filter fun q => decide (q.1 = k)).map
      Prod.snd)[((A.filter fun q => decide (q.1 = k)).map Prod.snd).length]? = some q.2 := by
    intro A B
    rw [List.filter_append, List.map_append, List.getElem?_append_right (Nat.le_refl _),
      Nat.sub_self, List.filter_cons_of_pos (by simpa using hqk)]
    rfl
  have hone := hat (L.take n) (L.drop (n + 1))
  rwa [← hsplit, ← hcount] at hone

omit [DecidableEq Key] in
/-- What has been answered so far is asked for in the loops. -/
theorem Correct.asked_isPrefix (h : Correct sp own plus es s) (h₀ : Host) :
    (poppedAt h₀ es).map Prod.fst <+: asks sp h₀ (cells sp.jobCnt (sp.packetCnt, 0)) := by
  have hloop : cells sp.jobCnt (s.puller.appended sp.packetCnt) <+:
      cells sp.jobCnt (sp.packetCnt, 0) := by
    have hin := h.pullerLoop
    cases hpuller : s.puller with
    | append i j =>
        rw [hpuller] at hin
        obtain ⟨hi, hj, hlast⟩ := hin
        rcases Nat.lt_or_eq_of_le hi with hlt | heq
        · exact cells_isPrefix hlt hj
        · have hzero := hlast heq
          subst heq hzero
          exact List.prefix_refl _
    | wait i => exact List.prefix_refl _
    | get i j => exact List.prefix_refl _
    | add i j m => exact List.prefix_refl _
    | ready i j => exact List.prefix_refl _
    | dead i j => exact List.prefix_refl _
    | done => exact List.prefix_refl _
  have hasks : asks sp h₀ (cells sp.jobCnt (s.puller.appended sp.packetCnt)) <+:
      asks sp h₀ (cells sp.jobCnt (sp.packetCnt, 0)) := hloop.filterMap _
  have hanswered : (poppedAt h₀ es).map Prod.fst <+:
      asks sp h₀ (cells sp.jobCnt (s.puller.appended sp.packetCnt)) := by
    rw [← h.asked h₀]
    exact List.prefix_append _ _
  exact hanswered.trans hasks

/-- The reply for a cell is the message of its packet in the list of its job. -/
theorem Correct.reply (hapart : KeysApart sp) (h : Correct sp own plus es s) {i j : Nat}
    {h₀ : Host} {k : Key} {m : Msg} (hi : i < sp.packetCnt) (hj : j < sp.jobCnt)
    (hsrc : sp.src j = some (h₀, k)) :
    reply sp (fun h => poppedAt h es) (i, j) h₀ = some m →
      (Lists.popped h₀ k es)[i]? = some m := by
  intro hreply
  rw [Relay.reply, Option.map_eq_some_iff] at hreply
  obtain ⟨q, hq, rfl⟩ := hreply
  obtain ⟨rest, hrest⟩ := h.asked_isPrefix h₀
  have hnext : (asks sp h₀ (cells sp.jobCnt (i, j)) ++ [k]) <+:
      asks sp h₀ (cells sp.jobCnt (sp.packetCnt, 0)) := by
    rw [← asks_succ_of_some hsrc]
    exact (cells_isPrefix hi hj).filterMap _
  obtain ⟨later, hlater⟩ := hnext
  have hk : (asks sp h₀ (cells sp.jobCnt (sp.packetCnt, 0)))[
      (asks sp h₀ (cells sp.jobCnt (i, j))).length]? = some k := by
    rw [← hlater, List.append_assoc, List.getElem?_append_right (Nat.le_refl _), Nat.sub_self]
    rfl
  have htake : (asks sp h₀ (cells sp.jobCnt (sp.packetCnt, 0))).take
      (asks sp h₀ (cells sp.jobCnt (i, j))).length = asks sp h₀ (cells sp.jobCnt (i, j)) := by
    rw [← hlater, List.append_assoc, List.take_left']
    rfl
  have hone := getElem?_filter_of_keys hrest hq hk
  rw [htake, count_asks hapart hj hsrc (Nat.le_of_lt hj), count_self] at hone
  rw [popped_eq_filter]
  exact hone

omit [DecidableEq Key] in
theorem Inv.sent_snd_le {pops : Host → List (Key × Msg)} {pushes : List ((Host × Key) × Msg)}
    (h : Inv sp own plus pops pushes s) : (s.sender.sent sp.packetCnt).2 ≤ sp.jobCnt := by
  have hloop := h.senderLoop
  cases hsender : s.sender with
  | send i j =>
      rw [hsender] at hloop
      exact hloop.2.1
  | dead i j =>
      rw [hsender] at hloop
      exact hloop.2
  | done => exact Nat.zero_le _

/-- A relay asks only for the sources of its jobs. -/
theorem Correct.popped_eq_nil (h : Correct sp own plus es s) {h₀ : Host} {k : Key} :
    (∀ j < sp.jobCnt, sp.src j ≠ some (h₀, k)) → Lists.popped h₀ k es = [] := by
  intro hnone
  rw [popped_eq_filter, List.map_eq_nil_iff, List.filter_eq_nil_iff]
  intro q hq hqk
  have hask : k ∈ asks sp h₀ (cells sp.jobCnt (sp.packetCnt, 0)) := by
    refine (h.asked_isPrefix h₀).subset (List.mem_map.2 ⟨q, hq, ?_⟩)
    simpa using hqk
  simp only [asks, List.mem_filterMap] at hask
  obtain ⟨c, hc, heq⟩ := hask
  refine hnone c.2 (mem_cells (Nat.zero_le _) hc) ?_
  cases hsrc : sp.src c.2 with
  | none => simp [hsrc] at heq
  | some q =>
      obtain ⟨h', k'⟩ := q
      simp only [hsrc] at heq
      by_cases hh : h' = h₀
      · rw [if_pos hh] at heq
        rw [hh, Option.some.inj heq]
      · rw [if_neg hh] at heq
        cases heq

/-- It pushes only to the destinations of its jobs. -/
theorem Correct.pushed_eq_nil (h : Correct sp own plus es s) {h₀ : Host} {k : Key} :
    (∀ j < sp.jobCnt, sp.dst j ≠ (h₀, k)) → Lists.pushed h₀ k es = [] := by
  intro hnone
  rw [pushed_eq_filter, List.map_eq_nil_iff, List.filter_eq_nil_iff]
  intro q hq hqk
  obtain ⟨n, hn⟩ := List.getElem?_of_mem hq
  have hlen : n < (pushedAll es).length := (List.getElem?_eq_some_iff.1 hn).1
  have hlen' : n < (cells sp.jobCnt (s.sender.sent sp.packetCnt)).length :=
    Nat.lt_of_lt_of_eq hlen h.pushes.length_eq.symm
  have hpair := (List.forall₂_iff_get.1 h.pushes).2 n hlen' hlen
  have hget : (pushedAll es).get ⟨n, hlen⟩ = q := (List.getElem?_eq_some_iff.1 hn).2
  rw [hget] at hpair
  refine hnone _ (mem_cells ?_ (List.getElem_mem hlen')) (hpair.1.symm.trans (by simpa using hqk))
  exact Inv.sent_snd_le h

/-- Job by job, what has been pushed is what is expected, packet after packet. -/
theorem Correct.pushed (hapart : KeysApart sp) (h : Correct sp own plus es s) {j : Nat}
    (hj : j < sp.jobCnt) :
    List.Forall₂ (fun i v => Expected sp own plus (fun h => poppedAt h es) (i, j) v)
      (List.range (count (s.sender.sent sp.packetCnt) j))
      (Lists.pushed (sp.dst j).1 (sp.dst j).2 es) := by
  have hjobs : ∀ c ∈ cells sp.jobCnt (s.sender.sent sp.packetCnt), c.2 < sp.jobCnt :=
    fun c hc => mem_cells (Inv.sent_snd_le h) hc
  have hall := (List.forall₂_and_left _ _).2 ⟨hjobs, h.pushes⟩
  have hsame := List.rel_filter (p := fun c => decide (c.2 = j))
    (q := fun q => decide (q.1 = sp.dst j)) (fun c q hcq => ?_) hall
  · rw [cells_filter hj _ _ (Inv.sent_snd_le h), List.forall₂_map_left_iff] at hsame
    rw [pushed_eq_filter, List.forall₂_map_right_iff]
    exact hsame.imp fun i q hiq => hiq.2.2
  · obtain ⟨hc, hdst, -⟩ := hcq
    show decide (c.2 = j) = true ↔ decide (q.1 = sp.dst j) = true
    rw [decide_eq_true_iff, decide_eq_true_iff, hdst]
    constructor
    · intro heq
      rw [heq]
    · intro heq
      exact hapart.dst _ hc _ hj heq

/-- No list gets more than one message for each packet. -/
theorem Correct.pushed_length (hapart : KeysApart sp) (h : Correct sp own plus es s) {j : Nat}
    (hj : j < sp.jobCnt) :
    (Lists.pushed (sp.dst j).1 (sp.dst j).2 es).length = count (s.sender.sent sp.packetCnt) j ∧
      count (s.sender.sent sp.packetCnt) j ≤ sp.packetCnt := by
  constructor
  · rw [← (h.pushed hapart hj).length_eq, List.length_range]
  · exact Nat.le_trans (Inv.sent_le_filled h hj) h.filled_le

/-- The message of a packet is the relay's own value, plus the message of that packet in the list
of the source. -/
theorem Correct.payload (hapart : KeysApart sp) (h : Correct sp own plus es s) {i j : Nat}
    (hj : j < sp.jobCnt) {v : Msg} :
    (Lists.pushed (sp.dst j).1 (sp.dst j).2 es)[i]? = some v →
      (sp.src j = none → v = own i j) ∧
        ∀ h₀ k, sp.src j = some (h₀, k) →
          ∃ m, (Lists.popped h₀ k es)[i]? = some m ∧ v = plus (own i j) m := by
  intro hv
  obtain ⟨hi, hget⟩ := List.getElem?_eq_some_iff.1 hv
  obtain ⟨hlen, hle⟩ := h.pushed_length hapart hj
  have hi' : i < sp.packetCnt := Nat.lt_of_lt_of_le hi (hlen ▸ hle)
  have hrange : i < (List.range (count (s.sender.sent sp.packetCnt) j)).length := by
    rw [List.length_range, ← hlen]
    exact hi
  have hexp := (h.pushed hapart hj).get hrange hi
  simp only [List.get_eq_getElem, List.getElem_range, hget, Expected] at hexp
  constructor
  · intro hsrc
    rw [hsrc] at hexp
    exact hexp
  · intro h₀ k hsrc
    rw [hsrc] at hexp
    obtain ⟨m, hreply, hval⟩ := hexp
    exact ⟨m, h.reply hapart hi' hj hsrc hreply, hval⟩

/-- A batch whose sender has ended has pushed one message for each packet of each job. -/
theorem Correct.complete (hapart : KeysApart sp) (h : Correct sp own plus es s) {j : Nat}
    (hj : j < sp.jobCnt) :
    s.sender = .done →
      (Lists.pushed (sp.dst j).1 (sp.dst j).2 es).length = sp.packetCnt := by
  intro hdone
  rw [(h.pushed_length hapart hj).1, hdone]
  simp [Sender.sent, count]

end Keys

end Relay
