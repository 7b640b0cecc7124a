import Mathlib.Data.List.Infix

/-!
# Text — searching and cutting strings

`find`, `substr` and `find_last_of` of a string class, on lists of characters.
-/

namespace Text

variable {α : Type} [DecidableEq α]

/-! ## Cutting at a character -/

/-- What stands behind the first `c`; all of it without one. -/
def afterFirst (c : α) (s : List α) : List α :=
  if c ∈ s then (s.dropWhile (· ≠ c)).tail else s

/-- What stands before the last `c`; all of it without one. -/
def beforeLast (c : α) (s : List α) : List α :=
  if c ∈ s then (s.reverse.dropWhile (· ≠ c)).tail.reverse else s

theorem dropWhile_ne_append {c : α} {p r : List α} :
    c ∉ p → (p ++ c :: r).dropWhile (· ≠ c) = c :: r := by
  intro hp
  induction p with
  | nil =>
      simp
  | cons a p ih =>
      simp only [List.mem_cons, not_or] at hp
      rw [List.cons_append, List.dropWhile_cons_of_pos (by simpa using Ne.symm hp.1), ih hp.2]

theorem afterFirst_append {c : α} {p r : List α} :
    c ∉ p → afterFirst c (p ++ c :: r) = r := by
  intro hp
  rw [afterFirst, if_pos (by simp), dropWhile_ne_append hp, List.tail_cons]

theorem beforeLast_append {c : α} {p r : List α} :
    c ∉ r → beforeLast c (p ++ c :: r) = p := by
  intro hr
  have hrev : (p ++ c :: r).reverse = r.reverse ++ c :: p.reverse := by simp
  rw [beforeLast, if_pos (by simp), hrev, dropWhile_ne_append (by simpa using hr),
    List.tail_cons, List.reverse_reverse]

omit [DecidableEq α] in
/-- The last character of joined lines is the last of the last line. -/
theorem getLast?_intercalate (sep : List α) {P : α → Prop} {ls : List (List α)} :
    ls ≠ [] → (∀ l ∈ ls, ∃ a, l.getLast? = some a ∧ P a) →
      ∃ a, (sep.intercalate ls).getLast? = some a ∧ P a := by
  intro hne hall
  induction ls with
  | nil =>
      exact absurd rfl hne
  | cons l ls ih =>
      cases ls with
      | nil =>
          rw [List.intercalate_singleton]
          exact hall l (by simp)
      | cons l' ls =>
          obtain ⟨a, ha, hP⟩ := ih (by simp) fun x hx => hall x (List.mem_cons_of_mem l hx)
          refine ⟨a, ?_, hP⟩
          rw [List.intercalate_cons_cons, List.getLast?_append, ha]
          rfl

/-! ## Searching -/

/-- The first position at which `pat` stands. -/
def findIn (pat : List α) : List α → Option Nat
  | [] => if pat = [] then some 0 else none
  | a :: s => if pat.isPrefixOf (a :: s) then some 0 else (findIn pat s).map (· + 1)

/-- `s.find(pat, pos)`. -/
def find (pat s : List α) (pos : Nat) : Option Nat :=
  (findIn pat (s.drop pos)).map (pos + ·)

/-- `s.substr(pos, n)`. -/
def substr (s : List α) (pos n : Nat) : List α :=
  (s.drop pos).take n

/-- In `u ++ pat` the string `pat` begins nowhere inside of `u`. -/
def FirstAfter (pat u : List α) : Prop :=
  ∀ i < u.length, ¬ pat <+: (u ++ pat).drop i

instance (pat u : List α) : Decidable (FirstAfter pat u) :=
  inferInstanceAs (Decidable (∀ i < u.length, ¬ pat <+: (u ++ pat).drop i))

omit [DecidableEq α] in
theorem firstAfter_singleton {c : α} {u : List α} :
    c ∉ u → FirstAfter [c] u := by
  intro hu i hi hpre
  rw [List.drop_append_of_le_length hi.le, List.drop_eq_getElem_cons hi, List.cons_append,
    List.cons_prefix_cons] at hpre
  exact hu (hpre.1 ▸ List.getElem_mem hi)

theorem findIn_append {pat u v : List α} :
    FirstAfter pat u → findIn pat (u ++ (pat ++ v)) = some u.length := by
  intro hfirst
  induction u with
  | nil =>
      cases hpv : pat ++ v with
      | nil =>
          have hpat : pat = [] := (List.append_eq_nil_iff.1 hpv).1
          simp [findIn, hpat]
      | cons a t =>
          have hpre : pat.isPrefixOf (a :: t) = true := by
            rw [List.isPrefixOf_iff_prefix, ← hpv]
            exact List.prefix_append pat v
          simp [findIn, hpre]
  | cons a u ih =>
      have hnot : pat.isPrefixOf (a :: (u ++ (pat ++ v))) = false := by
        rw [Bool.eq_false_iff, ne_eq, List.isPrefixOf_iff_prefix]
        intro hpre
        -- a match before the end of `u` would be one within `u` and the pattern
        have hshort : a :: u ++ pat <+: a :: (u ++ (pat ++ v)) := by
          refine ⟨v, ?_⟩
          simp
        apply hfirst 0 (by simp)
        refine List.prefix_of_prefix_length_le hpre hshort ?_
        rw [List.drop_zero, List.length_append]
        exact Nat.le_add_left _ _
      have htail : FirstAfter pat u := by
        intro i hi hpre
        exact hfirst (i + 1) (by simpa using hi) (by simpa using hpre)
      rw [List.cons_append, findIn, hnot, ih htail]
      rfl

/-- `pat` is found right behind `w ++ u` when the search starts behind `w`. -/
theorem find_append {pat w u v : List α} {pos : Nat} :
    FirstAfter pat u → pos = w.length →
      find pat (w ++ (u ++ (pat ++ v))) pos = some (pos + u.length) := by
  intro hfirst hpos
  rw [find, hpos, List.drop_left, findIn_append hfirst]
  rfl

omit [DecidableEq α] in
theorem substr_append {w m v : List α} {pos n : Nat} :
    pos = w.length → n = m.length → substr (w ++ (m ++ v)) pos n = m := by
  intro hpos hn
  rw [substr, hpos, hn, List.drop_left, List.take_left]

theorem findIn_eq_none {pat s : List α} :
    (∀ i, ¬ pat <+: s.drop i) → findIn pat s = none := by
  intro h
  induction s with
  | nil =>
      have hpat : pat ≠ [] := by
        rintro rfl
        exact h 0 (List.nil_prefix)
      rw [findIn, if_neg hpat]
  | cons a s ih =>
      have hnot : pat.isPrefixOf (a :: s) = false := by
        rw [Bool.eq_false_iff, ne_eq, List.isPrefixOf_iff_prefix]
        exact h 0
      rw [findIn, hnot, ih fun i => h (i + 1)]
      rfl

end Text
