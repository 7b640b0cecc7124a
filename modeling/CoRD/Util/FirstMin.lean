import Mathlib.Order.Defs.LinearOrder
import Mathlib.Tactic.Order

/-!
# FirstMin — a loop that keeps the first of the smallest

Many loops look for the smallest value of a list, skip some entries, and start from a limit that all
values they are after stay below.  They keep the first entry among several with the same value.
-/

namespace FirstMin

variable {A V α : Type} [LinearOrder α] (skip : A → Bool) (key : A → V) (val : A → α)

/-- The loop, on what is kept and its value. -/
def scan (l : List A) (st : Option V × α) : Option V × α :=
  l.foldl (fun st a => if skip a then st else if val a < st.2 then (some (key a), val a) else st) st

/-- Nothing is kept when nothing is below the limit; otherwise the smallest is, and the first one of
those, in any order `R` in which the list ascends. -/
theorem scan_spec {R : A → A → Prop} {l : List A} (hR : l.Pairwise R) (st : Option V × α) :
    (scan skip key val l st = st ∧ ∀ q ∈ l, skip q = false → st.2 ≤ val q) ∨
      ∃ p ∈ l, skip p = false ∧ val p < st.2 ∧ scan skip key val l st = (some (key p), val p) ∧
        ∀ q ∈ l, skip q = false → val p < val q ∨ val p = val q ∧ (p = q ∨ R p q) := by
  -- the candidates seen so far count only through `st`, so the induction is over all `st`
  induction l generalizing st with
  | nil =>
      exact Or.inl ⟨rfl, fun q hq => absurd hq List.not_mem_nil⟩
  | cons a l ih =>
      have hR' := List.pairwise_cons.1 hR
      cases hskip : skip a with
      | true =>
          have hstep : scan skip key val (a :: l) st = scan skip key val l st := by
            simp [scan, hskip]
          rcases ih hR'.2 st with hkeep | ⟨p, hp, hpskip, hplt, hscan, hmin⟩
          · refine Or.inl ⟨hstep.trans hkeep.1, fun q hq hq' => ?_⟩
            rcases List.mem_cons.1 hq with rfl | hl
            · simp [hskip] at hq'
            · exact hkeep.2 q hl hq'
          · refine Or.inr ⟨p, List.mem_cons_of_mem _ hp, hpskip, hplt, hstep.trans hscan,
              fun q hq hq' => ?_⟩
            rcases List.mem_cons.1 hq with rfl | hl
            · simp [hskip] at hq'
            · exact hmin q hl hq'
      | false =>
          by_cases hlt : val a < st.2
          · -- the new one is smaller; a later one takes its place only if it is smaller still
            have hstep : scan skip key val (a :: l) st =
                scan skip key val l (some (key a), val a) := by
              simp [scan, hskip, hlt]
            right
            rcases ih hR'.2 (some (key a), val a) with hkeep | ⟨p, hp, hpskip, hplt, hscan, hmin⟩
            · refine ⟨a, List.mem_cons_self, hskip, hlt, hstep.trans hkeep.1, fun q hq hq' => ?_⟩
              rcases List.mem_cons.1 hq with rfl | hl
              · exact Or.inr ⟨rfl, Or.inl rfl⟩
              · have hle : val a ≤ val q := hkeep.2 q hl hq'
                exact hle.lt_or_eq.imp_right fun heq => ⟨heq, Or.inr (hR'.1 q hl)⟩
            · have hpa : val p < val a := hplt
              refine ⟨p, List.mem_cons_of_mem _ hp, hpskip, hpa.trans hlt, hstep.trans hscan,
                fun q hq hq' => ?_⟩
              rcases List.mem_cons.1 hq with rfl | hl
              · exact Or.inl hpa
              · exact hmin q hl hq'
          · have hstep : scan skip key val (a :: l) st = scan skip key val l st := by
              simp [scan, hskip, hlt]
            have hle : st.2 ≤ val a := not_lt.1 hlt
            rcases ih hR'.2 st with hkeep | ⟨p, hp, hpskip, hplt, hscan, hmin⟩
            · refine Or.inl ⟨hstep.trans hkeep.1, fun q hq hq' => ?_⟩
              rcases List.mem_cons.1 hq with rfl | hl
              · exact hle
              · exact hkeep.2 q hl hq'
            · refine Or.inr ⟨p, List.mem_cons_of_mem _ hp, hpskip, hplt, hstep.trans hscan,
                fun q hq hq' => ?_⟩
              rcases List.mem_cons.1 hq with rfl | hl
              · exact Or.inl (hplt.trans_le hle)
              · exact hmin q hl hq'

end FirstMin
