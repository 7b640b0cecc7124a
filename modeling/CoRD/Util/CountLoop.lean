import Mathlib.Algebra.BigOperators.Group.Finset.Basic
import Mathlib.Algebra.Order.BigOperators.Group.Finset
import Mathlib.Algebra.Order.Group.Int
import Mathlib.Order.WellFounded

/-!
# CountLoop — loops that count towards a target

A loop makes calls until their results add up to a target.  A negative result is an error; it ends
the loop, or a message is printed and the loop goes on without counting.  A result of zero counts
nothing and is no error.

Whatever the results are, a loop that goes on at errors comes to its end just when it is not the
case that from some call on, before the target is reached, nothing positive comes back.  A loop that
ends at errors comes to its end just when it is not the case that from some such call on, with no
error before, all results are zero.
-/

namespace CountLoop

/-- How a loop ends: with a count, or at an error. -/
inductive Outcome where
  | complete (count : Int)
  | exit
  deriving DecidableEq

/-- Some function with such a loop ends, with the target reached or at an error. -/
def Ends (f : Nat → Option Outcome) (target : Int) : Prop :=
  ∃ fuel out, f fuel = some out ∧ ∀ count, out = .complete count → target ≤ count

section Loop

-- `onError` says how many messages have been printed after one more error, or ends the loop
variable (onError : Nat → Option Nat) (results : Nat → Int) (target : Int)

/-- The loop from call `n` on, for so many calls at most. -/
def run : Nat → Nat → Int → Nat → Option Outcome
  | 0, _, _, _ => none
  | fuel + 1, n, count, printed =>
      if count < target then
        if results n < 0 then
          match onError printed with
          | none => some .exit
          | some printed => run fuel (n + 1) count printed
        else run fuel (n + 1) (count + results n) printed
      else some (.complete count)

/-- The whole loop. -/
def loop (fuel : Nat) : Option Outcome :=
  run onError results target fuel 0 0 0

/-- What the results before call `n` add up to, without the errors. -/
def gained (n : Nat) : Int :=
  ∑ i ∈ Finset.range n, max (results i) 0

/-- How many messages have been printed before call `n`. -/
def printedAt : Nat → Nat
  | 0 => 0
  | n + 1 => if results n < 0 then (onError (printedAt n)).getD 0 else printedAt n

/-- The loop goes on at call `n`. -/
def GoesOnAt (n : Nat) : Prop :=
  gained results n < target ∧ (results n < 0 → onError (printedAt onError results n) ≠ none)

end Loop

/-! ## What is counted -/

section Gained

variable {results : Nat → Int} {target : Int}

theorem gained_succ (n : Nat) : gained results (n + 1) = gained results n + max (results n) 0 :=
  Finset.sum_range_succ _ n

theorem gained_mono {m n : Nat} (hle : m ≤ n) : gained results m ≤ gained results n := by
  induction n, hle using Nat.le_induction with
  | base => exact Int.le_refl _
  | succ n _ ih =>
      rw [gained_succ]
      exact ih.trans (Int.le_add_of_nonneg_right (le_max_right _ _))

/-- The target is never reached just when nothing more comes back from some call on. -/
theorem forall_gained_lt_iff :
    (∀ n, gained results n < target) ↔
      ∃ N, gained results N < target ∧ ∀ n, N ≤ n → results n ≤ 0 := by
  constructor
  · intro hall
    -- where the least is missing, nothing more can be gained
    let missing : Nat → Nat := fun n => (target - gained results n).toNat
    let N := Function.argmin missing
    refine ⟨N, hall N, fun n hn => ?_⟩
    have hleast : missing N ≤ missing (n + 1) := Function.argmin_le missing (n + 1)
    have hN := hall N
    have hn' := hall (n + 1)
    have hmono : gained results N ≤ gained results n := gained_mono hn
    rw [gained_succ] at hn'
    simp only [missing, gained_succ] at hleast
    omega
  · rintro ⟨N, hN, hzero⟩ n
    rcases Nat.le_total n N with hle | hle
    · exact (gained_mono hle).trans_lt hN
    · induction n, hle using Nat.le_induction with
      | base => exact hN
      | succ n hle ih =>
          rw [gained_succ, max_eq_right (hzero n hle), add_zero]
          exact ih

end Gained

/-! ## Runs -/

section Runs

variable {onError : Nat → Option Nat} {results : Nat → Int} {target : Int}

/-- One call, or the end. -/
theorem run_succ (fuel n : Nat) :
    (GoesOnAt onError results target n ∧
        run onError results target (fuel + 1) n (gained results n) (printedAt onError results n) =
          run onError results target fuel (n + 1) (gained results (n + 1))
            (printedAt onError results (n + 1))) ∨
      (¬ GoesOnAt onError results target n ∧
        ∃ out, run onError results target (fuel + 1) n (gained results n)
            (printedAt onError results n) = some out ∧
          ∀ count, out = .complete count → target ≤ count) := by
  by_cases hlt : gained results n < target
  · by_cases hneg : results n < 0
    · cases herr : onError (printedAt onError results n) with
      | none =>
          refine Or.inr ⟨fun hgo => hgo.2 hneg herr, .exit, ?_, fun count hcount => by cases hcount⟩
          rw [run, if_pos hlt, if_pos hneg]
          simp only [herr]
      | some printed =>
          refine Or.inl ⟨⟨hlt, fun _ => herr ▸ Option.some_ne_none printed⟩, ?_⟩
          rw [run, if_pos hlt, if_pos hneg, gained_succ, max_eq_right hneg.le, add_zero, printedAt,
            if_pos hneg]
          simp only [herr, Option.getD_some]
    · refine Or.inl ⟨⟨hlt, fun h => absurd h hneg⟩, ?_⟩
      rw [run, if_pos hlt, if_neg hneg, gained_succ, max_eq_left (not_lt.1 hneg), printedAt,
        if_neg hneg]
  · refine Or.inr ⟨fun hgo => hlt hgo.1, .complete (gained results n), ?_, fun count hcount => ?_⟩
    · rw [run, if_neg hlt]
    · cases hcount
      exact not_lt.1 hlt

/-- The first calls, as long as the loop goes on. -/
theorem run_add (fuel n : Nat) : (∀ i < n, GoesOnAt onError results target i) →
    loop onError results target (fuel + n) =
      run onError results target fuel n (gained results n) (printedAt onError results n) := by
  intro hall
  induction n generalizing fuel with
  | zero => rfl
  | succ n ih =>
      have hfirst := ih (fuel + 1) fun i hi => hall i (Nat.lt_succ_of_lt hi)
      rw [Nat.add_assoc, Nat.add_comm 1 n] at hfirst
      rcases run_succ fuel n with ⟨-, hstep⟩ | ⟨hstop, -⟩
      · exact hfirst.trans hstep
      · exact absurd (hall n (Nat.lt_succ_self n)) hstop

/-- A loop ends just when it does not go on at every call. -/
theorem ends_iff : Ends (loop onError results target) target ↔
    ¬ ∀ n, GoesOnAt onError results target n := by
  constructor
  · rintro ⟨fuel, out, hrun, -⟩ hall
    have hnone := run_add 0 fuel fun i _ => hall i
    rw [Nat.zero_add, hrun] at hnone
    cases hnone
  · intro hnot
    -- the loop runs up to the first call at which it does not go on
    classical
    have hstop : ∃ n, ¬ GoesOnAt onError results target n := not_forall.1 hnot
    have hbefore : ∀ i < Nat.find hstop, GoesOnAt onError results target i :=
      fun i hi => not_not.1 (Nat.find_min hstop hi)
    rcases run_succ 0 (Nat.find hstop) with ⟨hgo, -⟩ | ⟨-, out, hout, hcomplete⟩
    · exact absurd hgo (Nat.find_spec hstop)
    · exact ⟨_, out, (run_add 1 _ hbefore).trans hout, hcomplete⟩

/-- Errors do not end the loop. -/
theorem ends_iff_of_goesOn (hon : ∀ printed, onError printed ≠ none) :
    Ends (loop onError results target) target ↔
      ¬ ∃ N, gained results N < target ∧ ∀ n, N ≤ n → results n ≤ 0 := by
  rw [ends_iff, ← forall_gained_lt_iff]
  exact not_congr (forall_congr' fun n => and_iff_left fun _ => hon _)

/-- Errors end the loop. -/
theorem ends_iff_of_exit (hexit : ∀ printed, onError printed = none) :
    Ends (loop onError results target) target ↔
      ¬ ∃ N, (∀ n < N, 0 ≤ results n) ∧ ∑ i ∈ Finset.range N, results i < target ∧
        ∀ n, N ≤ n → results n = 0 := by
  rw [ends_iff]
  refine not_congr ?_
  have hgained : ∀ N, (∀ n < N, 0 ≤ results n) →
      gained results N = ∑ i ∈ Finset.range N, results i :=
    fun N hpos => Finset.sum_congr rfl fun i hi => max_eq_left (hpos i (Finset.mem_range.1 hi))
  constructor
  · intro hall
    have hpos : ∀ n, 0 ≤ results n := fun n => not_lt.1 fun hneg => (hall n).2 hneg (hexit _)
    rcases forall_gained_lt_iff.1 fun n => (hall n).1 with ⟨N, hN, hzero⟩
    refine ⟨N, fun n _ => hpos n, ?_, fun n hn => le_antisymm (hzero n hn) (hpos n)⟩
    rwa [← hgained N fun n _ => hpos n]
  · rintro ⟨N, hpos, hN, hzero⟩ n
    have hlt : ∀ n, gained results n < target :=
      forall_gained_lt_iff.2 ⟨N, by rwa [hgained N hpos], fun n hn => (hzero n hn).le⟩
    refine ⟨hlt n, fun hneg => ?_⟩
    rcases Nat.lt_or_ge n N with hbefore | hafter
    · exact absurd (hpos n hbefore) (not_le.2 hneg)
    · exact absurd (hzero n hafter).ge (not_le.2 hneg)

end Runs

end CountLoop
