import Mathlib.NumberTheory.Padics.PadicVal.Basic

/-!
# LowBit — trees along the lowest set bits

Adding its lowest set bit to a positive number leads from a node to its parent.  The nodes that lead to
a power of two are those below it, and the nodes that lead to `b + 2 ^ t` through nodes above `b`, for a
multiple `b` of `2 ^ t`, are those in between.

If only the nodes up to `n` exist, a node may have its parent among those that do not.  `cut` lists
the nodes whose first step leads out of the tree, or to its top, in ascending order.
-/

namespace LowBit

/-- The largest power of two that divides a number. -/
def low (x : Nat) : Nat :=
  2 ^ padicValNat 2 x

theorem low_pos (x : Nat) : 0 < low x :=
  Nat.two_pow_pos _

theorem low_dvd (x : Nat) : low x ∣ x :=
  pow_padicValNat_dvd

theorem low_le {x : Nat} : 0 < x → low x ≤ x :=
  fun hx => Nat.le_of_dvd hx (low_dvd x)

/-- The lowest bit above a multiple. -/
theorem low_add {b t : Nat} : 2 ^ (t + 1) ∣ b → low (b + 2 ^ t) = 2 ^ t := by
  rintro ⟨a, rfl⟩
  have hx : 2 ^ (t + 1) * a + 2 ^ t = 2 ^ t * (2 * a + 1) := by
    ring
  have hodd : padicValNat 2 (2 * a + 1) = 0 := by
    apply padicValNat.eq_zero_of_not_dvd
    omega
  rw [hx, low, padicValNat.mul (by positivity) (by omega), padicValNat.prime_pow, hodd,
    Nat.add_zero]

theorem low_two_mul {x : Nat} : 0 < x → low (2 * x) = 2 * low x := by
  intro hx
  rw [low, padicValNat.mul (by decide) (by omega), padicValNat_self, pow_add, pow_one, low]

theorem low_odd (x : Nat) : low (2 * x + 1) = 1 := by
  have hodd := low_add (b := 2 * x) (t := 0) ⟨x, by ring⟩
  simpa using hodd

/-- The lowest bit of the parent is higher. -/
theorem padicValNat_lt_add_low {x : Nat} : 0 < x →
    padicValNat 2 x < padicValNat 2 (x + low x) := by
  intro hx
  rcases low_dvd x with ⟨q, hq⟩
  have hodd : ¬ 2 ∣ q := by
    rintro ⟨r, rfl⟩
    have hmore : 2 ^ (padicValNat 2 x + 1) ∣ x :=
      ⟨r, by rw [pow_succ, ← low, Nat.mul_assoc]; exact hq⟩
    have hle := (padicValNat_dvd_iff_le (by omega)).1 hmore
    omega
  have heven : 2 ∣ q + 1 := by omega
  rcases heven with ⟨r, hr⟩
  have hdvd : 2 ^ (padicValNat 2 x + 1) ∣ x + low x := by
    refine ⟨r, ?_⟩
    calc
      x + low x = low x * (q + 1) := by
        rw [Nat.mul_succ, ← hq]
      _ = 2 ^ (padicValNat 2 x + 1) * r := by
        rw [hr, pow_succ, low]
        ring
  exact (padicValNat_dvd_iff_le (by omega)).1 hdvd

theorem low_lt_add_low {x : Nat} : 0 < x → low x < low (x + low x) :=
  fun hx => Nat.pow_lt_pow_right (by decide) (padicValNat_lt_add_low hx)

/-- The parent of a node in between is not behind the end. -/
theorem add_low_le {b c t : Nat} (hb : 2 ^ t ∣ b) (hbc : b < c) :
    c < b + 2 ^ t → c + low c ≤ b + 2 ^ t := by
  intro hct
  have hnot : ¬ 2 ^ t ∣ c := by
    intro hdvd
    have hdiff : 2 ^ t ∣ c - b := Nat.dvd_sub hdvd hb
    exact absurd (Nat.le_of_dvd (by omega) hdiff) (by omega)
  -- the lowest bit divides both ends
  have hlow : low c ∣ 2 ^ t := by
    rw [low, Nat.pow_dvd_pow_iff_le_right (by decide)]
    by_contra hlt
    exact hnot ((padicValNat_dvd_iff_le (by omega)).2 (by omega))
  have hend : low c ∣ b + 2 ^ t - c :=
    Nat.dvd_sub (dvd_add (hlow.trans hb) hlow) (low_dvd c)
  have hle := Nat.le_of_dvd (by omega) hend
  omega

/-! ## The nodes that leave the tree -/

/-- The nodes up to `n` between `b` and `b + 2 ^ t` whose parents are above `n` or at the end. -/
def cut (n : Nat) : Nat → Nat → List Nat
  | 0, _ => []
  | t + 1, b =>
      (if b + 2 ^ t ≤ n then [b + 2 ^ t] else cut n t b) ++ cut n t (b + 2 ^ t)

theorem mem_cut {n t b c : Nat} : 2 ^ t ∣ b →
    (c ∈ cut n t b ↔
      b < c ∧ c < b + 2 ^ t ∧ c ≤ n ∧ (c + low c = b + 2 ^ t ∨ n < c + low c)) := by
  intro hb
  induction t generalizing b with
  | zero =>
      simp only [cut, List.not_mem_nil, pow_zero, false_iff]
      omega
  | succ t ih =>
      have hdvd : 2 ^ t ∣ b := (pow_dvd_pow 2 (Nat.le_succ t)).trans hb
      have hmid : low (b + 2 ^ t) = 2 ^ t := low_add hb
      have hpos : 0 < 2 ^ t := Nat.two_pow_pos t
      have hright := ih (b := b + 2 ^ t) (dvd_add hdvd dvd_rfl)
      have hleft := ih hdvd
      rw [cut, List.mem_append, hright, pow_succ]
      have hhead : c ∈ (if b + 2 ^ t ≤ n then [b + 2 ^ t] else cut n t b) ↔
          b < c ∧ c ≤ b + 2 ^ t ∧ c ≤ n ∧ (c + low c = b + 2 ^ t * 2 ∨ n < c + low c) := by
        split
        · rename_i hn
          rw [List.mem_singleton]
          constructor
          · rintro rfl
            rw [hmid]
            omega
          · rintro ⟨hbc, hcm, -, hlast⟩
            -- the parent of a node before the middle is not behind it
            by_contra hne
            have hle := add_low_le hdvd hbc (by omega)
            omega
        · rename_i hn
          rw [hleft]
          constructor
          · rintro ⟨hbc, hcm, hcn, hlast⟩
            omega
          · rintro ⟨hbc, hcm, hcn, hlast⟩
            have hle := add_low_le hdvd hbc (by omega)
            omega
      rw [hhead]
      omega

theorem lt_of_mem_cut {n t b c : Nat} (hb : 2 ^ t ∣ b) (hc : c ∈ cut n t b) :
    b < c ∧ c < b + 2 ^ t :=
  ⟨((mem_cut hb).1 hc).1, ((mem_cut hb).1 hc).2.1⟩

theorem pairwise_cut {n t b : Nat} : 2 ^ t ∣ b → (cut n t b).Pairwise (· < ·) := by
  intro hb
  induction t generalizing b with
  | zero =>
      exact List.Pairwise.nil
  | succ t ih =>
      have hdvd : 2 ^ t ∣ b := (pow_dvd_pow 2 (Nat.le_succ t)).trans hb
      have hmid : 2 ^ t ∣ b + 2 ^ t := dvd_add hdvd dvd_rfl
      rw [cut, List.pairwise_append]
      refine ⟨?_, ih hmid, ?_⟩
      · split
        · exact List.pairwise_singleton _ _
        · exact ih hdvd
      · intro c hc d hd
        have hd' := (lt_of_mem_cut hmid hd).1
        have hc' : c ≤ b + 2 ^ t := by
          split at hc
          · exact (List.mem_singleton.1 hc).le
          · exact (lt_of_mem_cut hdvd hc).2.le
        exact Nat.lt_of_le_of_lt hc' hd'

/-! ## Bits -/

/-- The bit itself. -/
theorem and_two_pow_sub {x w : Nat} : 0 < x → x < 2 ^ w → x &&& (2 ^ w - x) = low x := by
  intro hx hw
  induction w generalizing x with
  | zero =>
      omega
  | succ w ih =>
      rw [pow_succ] at hw ⊢
      rcases Nat.even_or_odd' x with ⟨a, rfl | rfl⟩
      · have hsub : 2 ^ w * 2 - 2 * a = 2 * (2 ^ w - a) := by
          omega
        have hand : (2 * a) &&& (2 * (2 ^ w - a)) = 2 * (a &&& (2 ^ w - a)) := by
          simpa [Nat.shiftLeft_eq, Nat.mul_comm] using
            (Nat.shiftLeft_and_distrib (a := a) (b := 2 ^ w - a) (i := 1)).symm
        rw [hsub, hand, ih (by omega) (by omega), low_two_mul (by omega)]
      · have hsub : 2 ^ w * 2 - (2 * a + 1) = 2 * (2 ^ w - (a + 1)) + 1 := by
          omega
        rw [hsub, low_odd]
        apply Nat.eq_of_testBit_eq
        intro i
        cases i with
        | zero =>
            simp
        | succ i =>
            rw [Nat.testBit_and, Nat.testBit_succ, Nat.testBit_succ, Nat.testBit_succ]
            have ha : (2 * a + 1) / 2 = a := by omega
            have hb : (2 * (2 ^ w - (a + 1)) + 1) / 2 = 2 ^ w - (a + 1) := by omega
            rw [ha, hb, Nat.testBit_two_pow_sub_succ (by omega)]
            cases a.testBit i <;> simp

/-- What is left without the bit. -/
theorem and_pred {x : Nat} : 0 < x → x &&& (x - 1) = x - low x := by
  intro hx
  induction x using Nat.strong_induction_on with
  | _ x ih =>
      -- an odd number loses its last bit; an even one is twice a smaller case
      rcases Nat.even_or_odd' x with ⟨a, rfl | rfl⟩
      · have hsub : 2 * a - 1 = 2 * (a - 1) + 1 := by
          omega
        have hand : (2 * a) &&& (2 * (a - 1) + 1) = 2 * (a &&& (a - 1)) := by
          apply Nat.eq_of_testBit_eq
          intro i
          cases i with
          | zero =>
              simp
          | succ i =>
              have hodd : (2 * (a - 1) + 1) / 2 = a - 1 := by omega
              rw [Nat.testBit_and, Nat.testBit_succ, Nat.testBit_succ, Nat.testBit_succ, hodd,
                Nat.mul_div_cancel_left _ (by decide), Nat.mul_div_cancel_left _ (by decide),
                Nat.testBit_and]
        rw [hsub, hand, ih a (by omega) (by omega), low_two_mul (by omega)]
        omega
      · rw [low_odd, Nat.add_sub_cancel]
        apply Nat.eq_of_testBit_eq
        intro i
        cases i with
        | zero =>
            simp
        | succ i =>
            have hodd : (2 * a + 1) / 2 = a := by omega
            rw [Nat.testBit_and, Nat.testBit_succ, Nat.testBit_succ, hodd,
              Nat.mul_div_cancel_left _ (by decide), Bool.and_self]

end LowBit
