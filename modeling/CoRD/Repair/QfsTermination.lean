import CoRD.Repair.QfsMetadata

/-!
# QfsTermination — which messages the parser gets through

The loop of `ProcessMetadata` cuts two fields off in each turn.  When there is no colon left, a cut
leaves the string as it is, so that the last field is cut off again and again, as name and as host.
Only a colon at the end of the message makes the last field empty.  The other exits need a name that
is the lost one, a chunk without a host, or a host that is taken already.

`Endless` lists the messages that take none of the exits.
-/

namespace CoRD

open Std

namespace Qfs

/-! ## Fields -/

/-- The field with number `j`, where the last one is repeated. -/
def field (s : Str) (j : Nat) : Str :=
  (s.splitOn ':').getD (min j ((s.splitOn ':').length - 1)) []

theorem field_of_not_mem {s : Str} (h : ':' ∉ s) (j : Nat) : field s j = s := by
  rw [field, List.splitOn_eq_singleton h]
  simp

theorem field_append_zero {u v : Str} (hu : ':' ∉ u) : field (u ++ ':' :: v) 0 = u := by
  rw [field, List.splitOn_append_cons_self_of_not_mem hu, Nat.zero_min]
  rfl

theorem field_append_succ {u v : Str} (hu : ':' ∉ u) (j : Nat) :
    field (u ++ ':' :: v) (j + 1) = field v j := by
  have hpos : 1 ≤ (v.splitOn ':').length :=
    List.length_pos_iff_ne_nil.2 (List.splitOn_ne_nil ':' v)
  have hmin : min (j + 1) ((v.splitOn ':').length + 1 - 1) =
      min j ((v.splitOn ':').length - 1) + 1 := by omega
  rw [field, field, List.splitOn_append_cons_self_of_not_mem hu, List.length_cons, hmin,
    List.getD_cons_succ]

/-- A string has a first colon, or none. -/
theorem colon_cases (s : Str) : ':' ∉ s ∨ ∃ u v, s = u ++ ':' :: v ∧ ':' ∉ u := by
  by_cases h : ':' ∈ s
  · exact Or.inr (List.eq_append_cons_of_mem h)
  · exact Or.inl h

/-- A cut takes the first field off. -/
theorem field_cut (s : Str) : (cut s).1 = field s 0 ∧ ∀ j, field (cut s).2 j = field s (j + 1) := by
  rcases colon_cases s with hnone | ⟨u, v, rfl, hu⟩
  · rw [cut_plain hnone]
    simp [field_of_not_mem hnone]
  · rw [cut_append hu, field_append_zero hu]
    exact ⟨rfl, fun j => (field_append_succ hu j).symm⟩

theorem field_cut_fst (s : Str) : (cut s).1 = field s 0 := (field_cut s).1

theorem field_cut_snd (s : Str) (j : Nat) : field (cut s).2 j = field s (j + 1) := (field_cut s).2 j

/-- The address after turn `i - 1`: a host that is none leaves the one before. -/
def address (s : Str) (ip : Nat) : Nat → Nat
  | 0 => (inet_pton (field s 1)).getD ip
  | i + 1 => (inet_pton (field s (3 + 2 * i))).getD (address s ip i)

section Turn

variable {ecK : Nat} {lost bName ipStr : Str} {st : Collect}

theorem note_of_ne (h : noVers bName ≠ noVers lost) :
    note lost bName st = ({ st with idxInStripe := st.idxInStripe + 1 }, true) :=
  if_neg (Ne.symm h)

/-- The address of a host is looked at. -/
def Collect.locate (ipStr : Str) (st : Collect) : Collect :=
  { st with ip := (inet_pton ipStr).getD st.ip }

/-- The host that was looked at becomes a helper. -/
def Collect.use (lost bName : Str) (st : Collect) : Collect :=
  { st with
    ipAssigned := st.ipAssigned.insert st.ip
    blk2Stripe := st.blk2Stripe.insert lost (st.blk2Stripe.getD lost [] ++ [(st.ip, bName)])
    recoveredBlks := st.recoveredBlks ++ [bName] }

theorem chunk_free (hhost : ipStr ≠ []) (hless : st.recoveredBlks.length < ecK) :
    (st.locate ipStr).ip ∉ st.ipAssigned →
      chunk ecK lost bName ipStr st = note lost bName ((st.locate ipStr).use lost bName) := by
  intro hfree
  rw [chunk]
  simp only [ne_eq, hhost, not_false_eq_true, if_true, true_and, hless]
  exact if_pos hfree

theorem chunk_taken (hhost : ipStr ≠ []) (hless : st.recoveredBlks.length < ecK) :
    (st.locate ipStr).ip ∈ st.ipAssigned →
      chunk ecK lost bName ipStr st = (st.locate ipStr, false) := by
  intro htaken
  rw [chunk]
  simp only [ne_eq, hhost, not_false_eq_true, if_true, true_and, hless]
  exact if_neg (not_not_intro htaken)

theorem chunk_full (hhost : ipStr ≠ []) :
    ¬ st.recoveredBlks.length < ecK →
      chunk ecK lost bName ipStr st = note lost bName (st.locate ipStr) := by
  intro hfull
  simp only [chunk, ne_eq, hhost, not_false_eq_true, if_true, true_and, hfull, if_false, false_and]
  rfl

end Turn

/-! ## All turns -/

section Turns

variable {ecK : Nat} {lost : Str}

/-- The variables after `i` turns, if the loop goes on for so long. -/
def turns (ecK : Nat) (lost : Str) (st : Collect) : Nat → Collect
  | 0 => st
  | i + 1 => (turn ecK lost (turns ecK lost st i)).1

/-- After `i` turns of a message that takes no exit. -/
structure Endured (ecK : Nat) (s : Str) (ip i : Nat) (st : Collect) : Prop where
  fields : ∀ j, field st.handleStr j = field s (2 + 2 * i + j)
  bid : st.bidInStripe = none
  recovered : st.recoveredBlks.length = min i ecK
  ip_eq : st.ip = address s ip i
  assigned : ∀ a, a ∈ st.ipAssigned ↔ ∃ j ≤ min i ecK, address s ip j = a

variable {s : Str} {ip i : Nat} {st : Collect}

/-- The next name and host are cut off. -/
def Collect.advance (st : Collect) : Collect :=
  { st with handleStr := (cut (cut st.handleStr).2).2 }

/-- The next turn is for the next two fields. -/
theorem Endured.turn_eq (h : Endured ecK s ip i st) :
    turn ecK lost st =
      chunk ecK lost (field s (2 + 2 * i)) (field s (3 + 2 * i)) st.advance := by
  have hname : (cut st.handleStr).1 = field s (2 + 2 * i) := by
    rw [field_cut_fst, h.fields, Nat.add_zero]
  have hhost : (cut (cut st.handleStr).2).1 = field s (3 + 2 * i) := by
    rw [field_cut_fst, field_cut_snd, h.fields]
    exact congrArg _ (by omega)
  rw [turn, hname, hhost, Collect.advance]

/-- Without the other exits, a turn ends the loop only at a host that is taken already. -/
theorem Endured.turn (h : Endured ecK s ip i st) (hname : noVers (field s (2 + 2 * i)) ≠ noVers lost)
    (hhost : field s (3 + 2 * i) ≠ []) :
    ((turn ecK lost st).2 = true ↔ (i < ecK → ∀ j ≤ i, address s ip j ≠ address s ip (i + 1))) ∧
      ((turn ecK lost st).2 = true → Endured ecK s ip (i + 1) (turn ecK lost st).1) := by
  have haddr : (st.advance.locate (field s (3 + 2 * i))).ip = address s ip (i + 1) := by
    show (inet_pton (field s (3 + 2 * i))).getD st.ip = _
    rw [h.ip_eq]
    rfl
  have hfields : ∀ j, field (cut (cut st.handleStr).2).2 j = field s (2 + 2 * (i + 1) + j) := by
    intro j
    rw [field_cut_snd, field_cut_snd, h.fields]
    exact congrArg _ (by omega)
  rw [h.turn_eq]
  have hrec : st.advance.recoveredBlks.length = min i ecK := h.recovered
  by_cases hless : st.advance.recoveredBlks.length < ecK
  · have hi : i < ecK := by
      rw [hrec] at hless
      omega
    have hmin : min i ecK = i := Nat.min_eq_left hi.le
    have hassigned : ∀ a, a ∈ st.advance.ipAssigned ↔ ∃ j ≤ i, address s ip j = a := by
      have hall := h.assigned
      rwa [hmin] at hall
    -- an address that is taken ends the loop, any other makes one more helper
    by_cases htaken : address s ip (i + 1) ∈ st.advance.ipAssigned
    · rw [chunk_taken hhost hless (haddr.symm ▸ htaken)]
      rcases (hassigned _).1 htaken with ⟨j, hj, heq⟩
      exact ⟨iff_of_false Bool.false_ne_true fun hfree => hfree hi j hj heq,
        fun hfalse => absurd hfalse Bool.false_ne_true⟩
    · rw [chunk_free hhost hless (haddr.symm ▸ htaken), note_of_ne hname]
      refine ⟨iff_of_true rfl fun _ j hj heq => htaken ((hassigned _).2 ⟨j, hj, heq⟩), fun _ => ?_⟩
      exact
        { fields := hfields
          bid := h.bid
          recovered := by
            show (st.recoveredBlks ++ [field s (2 + 2 * i)]).length = _
            rw [List.length_append, h.recovered, hmin, Nat.min_eq_left hi, List.length_singleton]
          ip_eq := haddr
          assigned := fun a => by
            have hmem : a ∈ st.advance.ipAssigned.insert (address s ip (i + 1)) ↔
                address s ip (i + 1) = a ∨ a ∈ st.advance.ipAssigned := by
              rw [TreeSet.mem_insert, LawfulEqCmp.compare_eq_iff_eq]
            show a ∈ st.advance.ipAssigned.insert (st.advance.locate _).ip ↔ _
            rw [haddr, hmem, hassigned, Nat.min_eq_left hi]
            constructor
            · rintro (heq | ⟨j, hj, heq⟩)
              · exact ⟨i + 1, Nat.le_refl _, heq⟩
              · exact ⟨j, Nat.le_succ_of_le hj, heq⟩
            · rintro ⟨j, hj, heq⟩
              rcases Nat.le_succ_iff.1 hj with hle | rfl
              · exact Or.inr ⟨j, hle, heq⟩
              · exact Or.inl heq }
  · have hi : ecK ≤ i := by
      rw [hrec] at hless
      omega
    -- there are enough helpers, and the chunk changes nothing that is counted
    have hmin : min (i + 1) ecK = min i ecK := by omega
    rw [chunk_full hhost hless, note_of_ne hname]
    refine ⟨iff_of_true rfl fun hlt => absurd hlt (Nat.not_lt.2 hi), fun _ => ?_⟩
    exact
      { fields := hfields
        bid := h.bid
        recovered := hmin ▸ h.recovered
        ip_eq := haddr
        assigned := hmin ▸ h.assigned }

end Turns

/-! ## The messages that are answered -/

section Answered

variable {conf : Config} {rsu : RSUtil}

end Answered

/-! ## A message without its lost chunk -/

end Qfs

end CoRD
