import Mathlib.Data.List.Basic

/-!
# Checked — loops over arithmetic that may divide by zero

A value is computed unless a division is by zero, and a loop collects its values unless one of its
turns divides by zero.
-/

namespace Checked

variable {α β : Type}

/-- `a % b`. -/
def modulus (a b : Nat) : Option Nat :=
  if b = 0 then none else some (a % b)

/-- `a / b`. -/
def quotient (a b : Nat) : Option Nat :=
  if b = 0 then none else some (a / b)

theorem modulus_eq (a : Nat) {b : Nat} (h : b ≠ 0) : modulus a b = some (a % b) :=
  if_neg h

theorem quotient_eq (a : Nat) {b : Nat} (h : b ≠ 0) : quotient a b = some (a / b) :=
  if_neg h

/-- A loop that gets a value each time collects them. -/
theorem mapM_eq_some {f : α → Option β} {g : α → β} {l : List α} :
    (∀ a ∈ l, f a = some (g a)) → l.mapM f = some (l.map g) := by
  intro h
  induction l with
  | nil =>
      rfl
  | cons a l ih =>
      have hrest := ih fun b hb => h b (List.mem_cons_of_mem _ hb)
      simp [List.mapM_cons, h a List.mem_cons_self, hrest]

/-- What has been collected. -/
theorem map_eq_of_mapM {f : α → Option β} {l : List α} {l' : List β} :
    l.mapM f = some l' → l.map f = l'.map some := by
  intro h
  induction l generalizing l' with
  | nil =>
      cases h
      rfl
  | cons a l ih =>
      rw [List.mapM_cons] at h
      rcases Option.bind_eq_some_iff.1 h with ⟨b, hb, hrest⟩
      rcases Option.bind_eq_some_iff.1 hrest with ⟨bs, hbs, hcons⟩
      cases hcons
      rw [List.map_cons, List.map_cons, hb, ih hbs]

/-- A loop comes to its end just when every turn does. -/
theorem isSome_mapM_iff {f : α → Option β} {l : List α} :
    (l.mapM f).isSome = true ↔ ∀ a ∈ l, (f a).isSome = true := by
  induction l with
  | nil => simp
  | cons a l ih =>
      rw [List.forall_mem_cons, ← ih, List.mapM_cons]
      cases f a with
      | none => simp
      | some b => cases l.mapM f <;> simp

end Checked
