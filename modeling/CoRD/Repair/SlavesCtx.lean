import Mathlib.Data.List.GetD
import Mathlib.Data.List.Sort
import CoRD.Util.Bisect

/-!
# SlavesCtx — the connections of a repair worker

A worker connects to every helper when it starts, and keeps the connections in `_slavesCtx`, sorted
by address.  `findCtx` looks an address up by bisection.  Each turn of its loop moves one of the two
bounds past the middle, so that the upper bound may end below the lower one, or below zero; the
comparison behind the loop only reads at the lower bound.

A connection is an address in memory, with zero for `NULL`.
-/

namespace CoRD.DRWorker

/-! ## The table and the search -/

/-- `operator<=` of `pair<unsigned int, redisContext*>`. -/
def pairLe (a b : Nat × Nat) : Bool :=
  a.1 < b.1 || a.1 = b.1 && a.2 ≤ b.2

/-- `_slavesCtx` after `DRWorker::init`; `initCtx i ip` is what the call for helper `i` returns. -/
def slavesCtx (initCtx : Nat → Nat → Nat) (slaveIP : List Nat) : List (Nat × Nat) :=
  (slaveIP.zipIdx.map fun it => (it.1, initCtx it.2 it.1)).mergeSort pairLe

theorem two_mul_tdiv (a : Int) : 2 * a.tdiv 2 ≤ a + 1 ∧ a ≤ 2 * a.tdiv 2 + 1 := by
  have hdiv := Int.mul_tdiv_add_tmod a 2
  have hlt := Int.tmod_lt_of_pos a (show (0 : Int) < 2 by decide)
  have hgt := Int.lt_tmod_of_pos a (show (0 : Int) < 2 by decide)
  omega

/-- The loop of `DRWorker::findCtx`; `none` stands for a read outside the vector. -/
def findCtxLoop (slavesCtx : List (Nat × Nat)) (ip : Nat) (sid eid : Int) : Option Nat :=
  if sid < eid then
    let mid := (sid + eid).tdiv 2
    if 0 ≤ mid then
      match slavesCtx[mid.toNat]? with
      | none => none
      | some (first, second) =>
          if first = ip then some second
          else if first < ip then findCtxLoop slavesCtx ip (mid + 1) eid
          else findCtxLoop slavesCtx ip sid (mid - 1)
    else none
  -- `_slavesCtx[sid]` is read also when the bounds have crossed
  else if 0 ≤ sid then
    match slavesCtx[sid.toNat]? with
    | none => none
    | some (first, second) => some (if first = ip then second else 0)
  else none
termination_by (eid - sid).toNat
decreasing_by
  all_goals
    have hmid : 2 * mid ≤ sid + eid + 1 ∧ sid + eid ≤ 2 * mid + 1 := two_mul_tdiv (sid + eid)
    omega

/-- `DRWorker::findCtx`. -/
def findCtx (slavesCtx : List (Nat × Nat)) (ip : Nat) : Option Nat :=
  findCtxLoop slavesCtx ip 0 ((slavesCtx.length : Int) - 1)

/-! ## Where the search ends -/

theorem findCtxLoop_stop {l : List (Nat × Nat)} {ip sid : Nat} {eid : Int} (hsid : sid < l.length) :
    ¬ (sid : Int) < eid →
      findCtxLoop l ip sid eid = some (if l[sid].1 = ip then l[sid].2 else 0) := by
  intro hlt
  rw [findCtxLoop, if_neg hlt, if_pos (Int.natCast_nonneg sid), Int.toNat_natCast,
    List.getElem?_eq_getElem hsid]

theorem findCtxLoop_turn {l : List (Nat × Nat)} {ip sid eid : Nat}
    (hmid : (sid + eid) / 2 < l.length) :
    sid < eid → findCtxLoop l ip sid eid =
      if l[(sid + eid) / 2].1 = ip then some l[(sid + eid) / 2].2
      else if l[(sid + eid) / 2].1 < ip then findCtxLoop l ip ((sid + eid) / 2 + 1 : Nat) eid
      else findCtxLoop l ip sid (((sid + eid) / 2 : Nat) - 1) := by
  intro hlt
  have htdiv : ((sid : Int) + eid).tdiv 2 = ((sid + eid) / 2 : Nat) := by
    rw [Int.tdiv_eq_ediv_of_nonneg (by omega)]
    omega
  rw [findCtxLoop, if_pos (by omega), htdiv, if_pos (Int.natCast_nonneg _), Int.toNat_natCast,
    List.getElem?_eq_getElem hmid]
  rfl

/-- What is returned when a bisection of the addresses ends. -/
def endCtx (l : List (Nat × Nat)) (ip : Nat) : Bisect.End → Nat
  | .hit mid => (l.getD mid (0, 0)).2
  | .stop sid => if (l.getD sid (0, 0)).1 = ip then (l.getD sid (0, 0)).2 else 0
  | .below => 0

theorem findCtxLoop_eq {l : List (Nat × Nat)} {ip sid eid : Nat} :
    sid < l.length → eid < l.length →
      findCtxLoop l ip sid eid =
        some (endCtx l ip (Bisect.search (fun i => (l.getD i (0, 0)).1) ip sid eid)) := by
  intro hsid heid
  have hget : ∀ i (h : i < l.length), l.getD i (0, 0) = l[i] :=
    fun _ h => List.getD_eq_getElem _ _ h
  fun_induction Bisect.search (fun i => (l.getD i (0, 0)).1) ip sid eid with
  | case1 sid eid hlt hright ih =>
      have hmid : (sid + eid) / 2 < l.length := by omega
      rw [hget _ hmid] at hright
      rw [findCtxLoop_turn hmid hlt, if_neg hright.ne, if_pos hright]
      exact ih (by omega) heid
  | case2 sid eid hlt hright hleft hzero =>
      have hmid : (sid + eid) / 2 < l.length := by omega
      rw [hget _ hmid] at hright hleft
      rw [findCtxLoop_turn hmid hlt, if_neg hleft.ne', if_neg hright]
      -- the upper bound is now below zero, and the entry at the lower one is the one just seen
      have hsame : sid = (sid + eid) / 2 := by omega
      have hne : l[sid].1 ≠ ip := by
        have hne' := hleft.ne'
        simp only [← hsame] at hne'
        exact hne'
      rw [findCtxLoop_stop hsid (by omega), if_neg hne, endCtx]
  | case3 sid eid hlt hright hleft hpos ih =>
      have hmid : (sid + eid) / 2 < l.length := by omega
      rw [hget _ hmid] at hright hleft
      rw [findCtxLoop_turn hmid hlt, if_neg hleft.ne', if_neg hright]
      have hcast : (((sid + eid) / 2 : Nat) : Int) - 1 = ((sid + eid) / 2 - 1 : Nat) := by omega
      rw [hcast]
      exact ih hsid (by omega)
  | case4 sid eid hlt hright hleft =>
      have hmid : (sid + eid) / 2 < l.length := by omega
      rw [hget _ hmid] at hright hleft
      rw [findCtxLoop_turn hmid hlt,
        if_pos (Nat.le_antisymm (Nat.not_lt.1 hleft) (Nat.not_lt.1 hright)), endCtx, hget _ hmid]
  | case5 sid eid hlt =>
      rw [findCtxLoop_stop hsid (by omega), endCtx, hget sid hsid]

/-! ## The table is sorted by address -/

theorem perm_slavesCtx (initCtx : Nat → Nat → Nat) (slaveIP : List Nat) :
    (slavesCtx initCtx slaveIP).Perm (slaveIP.zipIdx.map fun it => (it.1, initCtx it.2 it.1)) :=
  List.mergeSort_perm _ _

theorem mem_slavesCtx_iff {initCtx : Nat → Nat → Nat} {slaveIP : List Nat} {ip ctx : Nat} :
    (ip, ctx) ∈ slavesCtx initCtx slaveIP ↔ ∃ i, slaveIP[i]? = some ip ∧ initCtx i ip = ctx := by
  rw [(perm_slavesCtx initCtx slaveIP).mem_iff, List.mem_map]
  constructor
  · rintro ⟨⟨it, i⟩, hmem, heq⟩
    obtain ⟨rfl, rfl⟩ := Prod.mk.inj heq
    exact ⟨i, List.mem_zipIdx_iff_getElem?.1 hmem, rfl⟩
  · rintro ⟨i, hi, rfl⟩
    exact ⟨(ip, i), List.mem_zipIdx_iff_getElem?.2 hi, rfl⟩

theorem length_slavesCtx (initCtx : Nat → Nat → Nat) (slaveIP : List Nat) :
    (slavesCtx initCtx slaveIP).length = slaveIP.length := by
  rw [(perm_slavesCtx initCtx slaveIP).length_eq, List.length_map, List.length_zipIdx]

theorem pairwise_slavesCtx (initCtx : Nat → Nat → Nat) (slaveIP : List Nat) :
    (slavesCtx initCtx slaveIP).Pairwise fun a b => a.1 ≤ b.1 := by
  have htrans : ∀ a b c : Nat × Nat, pairLe a b → pairLe b c → pairLe a c := by
    simp only [pairLe, Bool.or_eq_true, Bool.and_eq_true, decide_eq_true_eq]
    omega
  have htotal : ∀ a b : Nat × Nat, (pairLe a b || pairLe b a) = true := by
    simp only [pairLe, Bool.or_eq_true, Bool.and_eq_true, decide_eq_true_eq]
    omega
  refine (List.pairwise_mergeSort htrans htotal _).imp fun {a b} hle => ?_
  simp only [pairLe, Bool.or_eq_true, Bool.and_eq_true, decide_eq_true_eq] at hle
  omega

/-! ## What the search finds -/

theorem findCtx_eq {l : List (Nat × Nat)} (hl : l ≠ []) (ip : Nat) :
    findCtx l ip =
      some (endCtx l ip (Bisect.search (fun i => (l.getD i (0, 0)).1) ip 0 (l.length - 1))) := by
  have hpos : 0 < l.length := List.length_pos_of_ne_nil hl
  have hends : findCtx l ip = findCtxLoop l ip (0 : Nat) (l.length - 1 : Nat) := by
    rw [findCtx, Int.ofNat_sub hpos]
    rfl
  rw [hends, findCtxLoop_eq hpos (by omega)]

theorem findCtx_of_mem {l : List (Nat × Nat)} (hsorted : l.Pairwise fun a b => a.1 ≤ b.1) {ip : Nat}
    (hmem : ∃ e ∈ l, e.1 = ip) : ∃ ctx, (ip, ctx) ∈ l ∧ findCtx l ip = some ctx := by
  rcases hmem with ⟨e, he, hip⟩
  have hl : l ≠ [] := List.ne_nil_of_mem he
  rcases List.mem_iff_getElem.1 he with ⟨i, hi, rfl⟩
  have hget : ∀ i (h : i < l.length), l.getD i (0, 0) = l[i] :=
    fun _ h => List.getD_eq_getElem _ _ h
  have hmono : ∀ a b, 0 ≤ a → a ≤ b → b ≤ l.length - 1 →
      (l.getD a (0, 0)).1 ≤ (l.getD b (0, 0)).1 := by
    intro a b _ hab hb
    rw [hget a (by omega), hget b (by omega)]
    rcases Nat.eq_or_lt_of_le hab with rfl | hlt
    · exact Nat.le_refl _
    · exact List.pairwise_iff_getElem.1 hsorted a b (by omega) (by omega) hlt
  rcases Bisect.exists_search_of_monotone hmono (Nat.zero_le i) (by omega)
    (show (l.getD i (0, 0)).1 = ip by rw [hget i hi]; exact hip) with ⟨j, hat, hj⟩
  have hbound := (Bisect.search_bounds hat).2
  have hfound : (ip, (l.getD j (0, 0)).2) ∈ l := by
    rw [← hj, hget j (by omega)]
    exact List.getElem_mem _
  refine ⟨_, hfound, (findCtx_eq hl ip).trans (congrArg some ?_)⟩
  revert hat
  cases Bisect.search (fun i => (l.getD i (0, 0)).1) ip 0 (l.length - 1) with
  | hit mid =>
      rintro rfl
      rfl
  | stop sid =>
      rintro rfl
      exact if_pos hj
  | below => exact False.elim

/-- An address that no entry has is not found: neither bound ever stops at an entry with it. -/
theorem findCtx_of_forall_ne {l : List (Nat × Nat)} (hl : l ≠ []) {ip : Nat}
    (hnone : ∀ e ∈ l, e.1 ≠ ip) : findCtx l ip = some 0 := by
  have hpos : 0 < l.length := List.length_pos_of_ne_nil hl
  have hne : ∀ i < l.length, (l.getD i (0, 0)).1 ≠ ip := by
    intro i hi
    rw [List.getD_eq_getElem _ _ hi]
    exact hnone _ (List.getElem_mem hi)
  have hlt : ∀ i, (Bisect.search (fun i => (l.getD i (0, 0)).1) ip 0 (l.length - 1)).At i →
      i < l.length := by
    intro i hat
    have hbound := (Bisect.search_bounds hat).2
    omega
  rw [findCtx_eq hl ip]
  refine congrArg some ?_
  cases hsearch : Bisect.search (fun i => (l.getD i (0, 0)).1) ip 0 (l.length - 1) with
  | hit mid =>
      have hmid : mid < l.length := hlt mid (by rw [hsearch]; rfl)
      exact absurd (Bisect.eq_of_search_hit hsearch) (hne mid hmid)
  | stop sid =>
      have hsid : sid < l.length := hlt sid (by rw [hsearch]; rfl)
      exact if_neg (hne sid hsid)
  | below => rfl

/-- Whatever is looked up in a table sorted by address: an entry with that address, or `NULL`. -/
theorem findCtx_spec {l : List (Nat × Nat)} (hl : l ≠ []) (hsorted : l.Pairwise fun a b => a.1 ≤ b.1)
    (ip : Nat) :
    (∃ ctx, (ip, ctx) ∈ l ∧ findCtx l ip = some ctx) ∨
      ((∀ e ∈ l, e.1 ≠ ip) ∧ findCtx l ip = some 0) := by
  by_cases hmem : ∃ e ∈ l, e.1 = ip
  · exact Or.inl (findCtx_of_mem hsorted hmem)
  · have hnone : ∀ e ∈ l, e.1 ≠ ip := fun e he hip => hmem ⟨e, he, hip⟩
    exact Or.inr ⟨hnone, findCtx_of_forall_ne hl hnone⟩

/-- After `init`, an address of the list gives a connection to it, and any other gives `NULL`. -/
theorem findCtx_slavesCtx (initCtx : Nat → Nat → Nat) {slaveIP : List Nat} (hne : slaveIP ≠ [])
    (ip : Nat) :
    (ip ∈ slaveIP → ∃ i, slaveIP[i]? = some ip ∧
      findCtx (slavesCtx initCtx slaveIP) ip = some (initCtx i ip)) ∧
      (ip ∉ slaveIP → findCtx (slavesCtx initCtx slaveIP) ip = some 0) := by
  have htable : slavesCtx initCtx slaveIP ≠ [] := by
    rw [← List.length_pos_iff_ne_nil, length_slavesCtx]
    exact List.length_pos_of_ne_nil hne
  rcases findCtx_spec htable (pairwise_slavesCtx initCtx slaveIP) ip with
    ⟨ctx, hmem, hfind⟩ | ⟨hnone, hfind⟩
  · rcases mem_slavesCtx_iff.1 hmem with ⟨i, hi, rfl⟩
    exact ⟨fun _ => ⟨i, hi, hfind⟩, fun hnot => absurd (List.mem_of_getElem? hi) hnot⟩
  · refine ⟨fun hip => ?_, fun _ => hfind⟩
    rcases List.mem_iff_getElem?.1 hip with ⟨i, hi⟩
    exact absurd rfl (hnone _ (mem_slavesCtx_iff.2 ⟨i, hi, rfl⟩))

/-- Three helpers, one of them twice. -/
theorem findCtx_slavesCtx_three :
    (∃ i, [7, 5, 7][i]? = some 7 ∧
      findCtx (slavesCtx (fun i _ => 100 + i) [7, 5, 7]) 7 = some (100 + i)) ∧
      findCtx (slavesCtx (fun i _ => 100 + i) [7, 5, 7]) 6 = some 0 :=
  ⟨(findCtx_slavesCtx (fun i _ => 100 + i) (by decide) 7).1 (by decide),
    (findCtx_slavesCtx (fun i _ => 100 + i) (by decide) 6).2 (by decide)⟩

end CoRD.DRWorker
