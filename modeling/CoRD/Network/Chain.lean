import CoRD.Network.Lists

/-!
# Chain — stages that add to what they get

A chain is a row of parties, each of which takes its messages from the list of the one before and
appends to a list of its own.  Nobody else touches these lists, except that the last one is open to
consumers.  If each stage adds a value of its own to the message with the same number, the last
list carries sums over all stages.
-/

namespace Lists

variable {Id Host Key Msg : Type} [DecidableEq Id] [DecidableEq Host] [DecidableEq Key]

/-- The sum of the values of the stages up to `t`. -/
def total (plus : Msg → Msg → Msg) (own : Nat → Msg) : Nat → Msg
  | 0 => own 0
  | t + 1 => plus (own (t + 1)) (total plus own t)

/-- `k` stages with their lists, in a trace. -/
structure Chain (tr : List (Id × Event Host Key Msg)) (k : Nat) (stage : Nat → Id)
    (out : Nat → Host × Key) (own : Nat → Nat → Msg) (plus : Msg → Msg → Msg) : Prop where
  fifo : ∀ t < k, popped (out t).1 (out t).2 (tr.map Prod.snd) <+:
    pushed (out t).1 (out t).2 (tr.map Prod.snd)
  producer : ∀ t < k, ∀ i, i ≠ stage t → pushed (out t).1 (out t).2 (eventsOf i tr) = []
  consumer : ∀ t, t + 1 < k → ∀ i, i ≠ stage (t + 1) →
    popped (out t).1 (out t).2 (eventsOf i tr) = []
  first : ∀ i v, (pushed (out 0).1 (out 0).2 (eventsOf (stage 0) tr))[i]? = some v → v = own 0 i
  next : ∀ t, t + 1 < k → ∀ i v,
    (pushed (out (t + 1)).1 (out (t + 1)).2 (eventsOf (stage (t + 1)) tr))[i]? = some v →
      ∃ m, (popped (out t).1 (out t).2 (eventsOf (stage (t + 1)) tr))[i]? = some m ∧
        v = plus (own (t + 1) i) m

namespace Chain

variable {tr : List (Id × Event Host Key Msg)} {k : Nat} {stage : Nat → Id}
  {out : Nat → Host × Key} {own : Nat → Nat → Msg} {plus : Msg → Msg → Msg}

/-- Message `i` in the list of stage `t` is the sum up to there. -/
theorem pushed_eq (h : Chain tr k stage out own plus) {t i : Nat} {v : Msg} (ht : t < k) :
    (pushed (out t).1 (out t).2 (tr.map Prod.snd))[i]? = some v →
      v = total plus (fun u => own u i) t := by
  intro hv
  induction t generalizing v with
  | zero =>
      rw [pushed_eq_of_producer (h.producer 0 ht)] at hv
      exact h.first i v hv
  | succ t ih =>
      rw [pushed_eq_of_producer (h.producer (t + 1) ht)] at hv
      obtain ⟨m, hm, rfl⟩ := h.next t ht i v hv
      rw [← popped_eq_of_consumer (h.consumer t ht)] at hm
      have ht' : t < k := Nat.lt_of_succ_lt ht
      have hpushed := getElem?_of_isPrefix (h.fifo t ht') hm
      rw [total, ih ht' hpushed]

/-- So is what anybody takes from it. -/
theorem popped_eq (h : Chain tr k stage out own plus) {t i : Nat} {v : Msg} (ht : t < k) :
    (popped (out t).1 (out t).2 (tr.map Prod.snd))[i]? = some v →
      v = total plus (fun u => own u i) t :=
  fun hv => h.pushed_eq ht (getElem?_of_isPrefix (h.fifo t ht) hv)

end Chain

end Lists
