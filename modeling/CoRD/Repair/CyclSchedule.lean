import Mathlib.Data.List.Nodup
import Mathlib.Data.List.Range
import Mathlib.Logic.Function.Basic

/-!
# CyclSchedule — which helper has which slice when

A lost block is repaired in groups of `k - 1` slices, and each of the helpers `0, …, k - 2` ends up
with one slice of a group.  Slice `s` starts at helper `s % (k - 1) + 1`, goes on to helper `k - 1`
and from there through `0` up to helper `s % (k - 1)`, which sends it to the requestor.

A helper handles the slices of a group in an order of its own: first the ones below its id
downwards, then the others downwards.  In the last group, which may be shorter, a helper whose id is
larger than the group takes part in every slice and starts none.
-/

namespace CoRD

namespace Cycl

/-! ## The tables -/

section Tables

variable (packetCnt groupSize id : Nat)

/-- The slices of a group in the order in which a helper handles them. -/
def roundSlices (base : Nat) : List Nat :=
  (((List.range id).reverse ++ (List.range' id (groupSize - id)).reverse).map (base + ·)).filter
    (· < packetCnt)

/-- The number of groups. -/
def round : Nat :=
  if packetCnt % groupSize = 0 then packetCnt / groupSize else packetCnt / groupSize + 1

/-- `_pkt2sli` and `_sli2pkt` of a job; a position is also called a packet. -/
structure Tables where
  pkt2sli : List Nat
  sli2pkt : Nat → Nat

/-- The next position gets a slice. -/
def Tables.push (t : Tables) (sli : Nat) : Tables where
  pkt2sli := t.pkt2sli ++ [sli]
  sli2pkt := Function.update t.sli2pkt sli t.pkt2sli.length

/-- The tables as `readerMul` fills them. -/
def tables : Tables :=
  ((List.range (round packetCnt groupSize)).flatMap fun i =>
    roundSlices packetCnt groupSize id (i * groupSize)).foldl Tables.push ⟨[], fun _ => 0⟩

/-! ## The same in one formula -/

/-- The first `i` places of `n` backwards, then the others backwards. -/
def mirror (i n x : Nat) : Nat :=
  if x < i then i - 1 - x else n + i - 1 - x

/-- The number of slices in the group of a position. -/
def width (p : Nat) : Nat :=
  min groupSize (packetCnt - groupSize * (p / groupSize))

/-- The slice of a position, and the position of a slice. -/
def swap (p : Nat) : Nat :=
  groupSize * (p / groupSize) +
    mirror (min id (width packetCnt groupSize p)) (width packetCnt groupSize p) (p % groupSize)

end Tables

theorem mirror_lt {i n x : Nat} : i ≤ n → x < n → mirror i n x < n := by
  intro hi hx
  unfold mirror
  split <;> omega

theorem mirror_mirror {i n x : Nat} : i ≤ n → x < n → mirror i n (mirror i n x) = x := by
  intro hi hx
  unfold mirror
  split <;> split <;> omega

/-- The place of one slice before the start comes first. -/
theorem mirror_eq_zero {i n x : Nat} : i ≤ n → x < n →
    (mirror i n x = 0 ↔ i = x + 1 ∨ (i = 0 ∧ x + 1 = n)) := by
  intro hi hx
  unfold mirror
  split <;> omega

/-- The place where the second part starts comes last. -/
theorem mirror_eq_last {i n x : Nat} : i ≤ n → x < n →
    (mirror i n x = n - 1 ↔ i = x ∨ (i = n ∧ x = 0)) := by
  intro hi hx
  unfold mirror
  split <;> omega

section Positions

variable {packetCnt groupSize : Nat}

/-- A position lies inside its group. -/
theorem mod_lt_width {p : Nat} : 0 < groupSize → p < packetCnt →
    p % groupSize < width packetCnt groupSize p := by
  intro hg hp
  have hsplit : groupSize * (p / groupSize) + p % groupSize = p := Nat.div_add_mod p groupSize
  have hmod : p % groupSize < groupSize := Nat.mod_lt p hg
  unfold width
  omega

/-- Exchanging keeps the group. -/
theorem swap_div_mod (id : Nat) {p : Nat} : 0 < groupSize → p < packetCnt →
    swap packetCnt groupSize id p / groupSize = p / groupSize ∧
      swap packetCnt groupSize id p % groupSize =
        mirror (min id (width packetCnt groupSize p)) (width packetCnt groupSize p)
          (p % groupSize) := by
  intro hg hp
  have hlt := mirror_lt (Nat.min_le_right id (width packetCnt groupSize p)) (mod_lt_width hg hp)
  have hsmall := Nat.lt_of_lt_of_le hlt (Nat.min_le_left groupSize _)
  unfold swap
  constructor
  · rw [Nat.mul_add_div hg, Nat.div_eq_of_lt hsmall, Nat.add_zero]
  · rw [Nat.mul_add_mod, Nat.mod_eq_of_lt hsmall]

theorem swap_lt (id : Nat) {p : Nat} : 0 < groupSize → p < packetCnt →
    swap packetCnt groupSize id p < packetCnt := by
  intro hg hp
  have hlt := mirror_lt (Nat.min_le_right id (width packetCnt groupSize p)) (mod_lt_width hg hp)
  have hbase : groupSize * (p / groupSize) ≤ p := Nat.mul_div_le p groupSize
  have hwidth : width packetCnt groupSize p ≤ packetCnt - groupSize * (p / groupSize) :=
    Nat.min_le_right _ _
  unfold swap
  omega

/-- A position belongs to a full group or to the shorter last one. -/
theorem width_cases {pktId : Nat} : 0 < groupSize → pktId < packetCnt →
    (pktId < packetCnt - packetCnt % groupSize ∧ width packetCnt groupSize pktId = groupSize) ∨
      (groupSize * (pktId / groupSize) = packetCnt - packetCnt % groupSize ∧
        width packetCnt groupSize pktId = packetCnt % groupSize) := by
  intro hg hp
  have hsplit : groupSize * (pktId / groupSize) + pktId % groupSize = pktId :=
    Nat.div_add_mod pktId groupSize
  have hall : groupSize * (packetCnt / groupSize) + packetCnt % groupSize = packetCnt :=
    Nat.div_add_mod packetCnt groupSize
  have hmod := Nat.mod_lt pktId hg
  have hmodAll := Nat.mod_lt packetCnt hg
  unfold width
  rcases Nat.lt_or_eq_of_le (Nat.div_le_div_right (c := groupSize) hp.le) with hlt | heq
  · left
    have hnext := Nat.mul_le_mul_left groupSize (Nat.succ_le_of_lt hlt)
    rw [Nat.mul_succ] at hnext
    omega
  · right
    rw [heq]
    omega

/-- If all groups are full, a position belongs to a full one. -/
theorem width_full {p : Nat} (hfull : packetCnt % groupSize = 0) (hg : 0 < groupSize) :
    p < packetCnt → width packetCnt groupSize p = groupSize := by
  intro hp
  have hin := mod_lt_width hg hp
  rcases width_cases hg hp with ⟨-, hwidth⟩ | ⟨-, hwidth⟩
  · exact hwidth
  · rw [hwidth, hfull] at hin
    exact absurd hin (Nat.not_lt_zero _)

theorem width_congr (packetCnt : Nat) {p q : Nat} (h : p / groupSize = q / groupSize) :
    width packetCnt groupSize p = width packetCnt groupSize q := by
  rw [width, width, h]

theorem swap_swap (id : Nat) {p : Nat} : 0 < groupSize → p < packetCnt →
    swap packetCnt groupSize id (swap packetCnt groupSize id p) = p := by
  intro hg hp
  obtain ⟨hdiv, hmod⟩ := swap_div_mod id hg hp
  have hsame := width_congr packetCnt hdiv
  calc swap packetCnt groupSize id (swap packetCnt groupSize id p)
      = groupSize * (p / groupSize) +
          mirror (min id (width packetCnt groupSize p)) (width packetCnt groupSize p)
            (mirror (min id (width packetCnt groupSize p)) (width packetCnt groupSize p)
              (p % groupSize)) := by
        rw [swap, hsame, hdiv, hmod]
    _ = groupSize * (p / groupSize) + p % groupSize := by
        rw [mirror_mirror (Nat.min_le_right _ _) (mod_lt_width hg hp)]
    _ = p := Nat.div_add_mod p groupSize

theorem swap_inj {id p q : Nat} (hg : 0 < groupSize) (hp : p < packetCnt) (hq : q < packetCnt) :
    swap packetCnt groupSize id p = swap packetCnt groupSize id q → p = q := by
  intro heq
  rw [← swap_swap id hg hp, heq, swap_swap id hg hq]

/-- The next position is in the same group, -/
theorem succ_same_group {p : Nat} : p % groupSize + 1 < groupSize →
    (p + 1) / groupSize = p / groupSize ∧ (p + 1) % groupSize = p % groupSize + 1 := by
  intro hin
  have hsplit : p + 1 = groupSize * (p / groupSize) + (p % groupSize + 1) := by
    rw [← Nat.add_assoc, Nat.div_add_mod]
  constructor
  · rw [hsplit, Nat.mul_add_div (Nat.zero_lt_of_lt hin), Nat.div_eq_of_lt hin, Nat.add_zero]
  · rw [hsplit, Nat.mul_add_mod, Nat.mod_eq_of_lt hin]

/-- or begins the next one. -/
theorem succ_next_group {p : Nat} : p % groupSize + 1 = groupSize →
    (p + 1) / groupSize = p / groupSize + 1 ∧ (p + 1) % groupSize = 0 := by
  intro hend
  have hsplit : p + 1 = groupSize * (p / groupSize + 1) := by
    calc p + 1 = groupSize * (p / groupSize) + (p % groupSize + 1) := by
          rw [← Nat.add_assoc, Nat.div_add_mod]
      _ = groupSize * (p / groupSize + 1) := by rw [hend, Nat.mul_succ]
  constructor
  · rw [hsplit, Nat.mul_div_cancel_left _ (by omega)]
  · rw [hsplit, Nat.mul_mod_right]

/-- If all groups are full, the next helper handles a slice one place later. -/
theorem swap_succ {id p : Nat} (hfull : packetCnt % groupSize = 0) (hid : id < groupSize) :
    p + 1 < packetCnt → p % groupSize + 1 < groupSize →
      swap packetCnt groupSize (id + 1) (p + 1) = swap packetCnt groupSize id p := by
  intro hp hin
  have hg : 0 < groupSize := Nat.zero_lt_of_lt hid
  obtain ⟨hdiv, hmod⟩ := succ_same_group hin
  have hwidth := width_full hfull hg (Nat.lt_of_succ_lt hp)
  rw [swap, swap, width_congr packetCnt hdiv, hwidth, hdiv, hmod, Nat.min_eq_left hid,
    Nat.min_eq_left hid.le]
  refine congrArg _ ?_
  unfold mirror
  split_ifs <;> omega

/-- Then the last helper has the order of the first one. -/
theorem swap_last {p : Nat} (hfull : packetCnt % groupSize = 0) (hg : 0 < groupSize) :
    p < packetCnt → swap packetCnt groupSize groupSize p = swap packetCnt groupSize 0 p := by
  intro hp
  have hin := Nat.mod_lt p hg
  rw [swap, swap, width_full hfull hg hp, Nat.min_self, Nat.zero_min]
  refine congrArg _ ?_
  unfold mirror
  split_ifs <;> omega

/-! ## The tables follow the formula -/

theorem filter_range'_lt (a n b : Nat) :
    (List.range' a n).filter (· < b) = List.range' a (min n (b - a)) := by
  induction n generalizing a with
  | zero =>
      rw [Nat.zero_min]
      rfl
  | succ n ih =>
      rw [List.range'_succ, List.filter_cons, ih]
      by_cases hab : a < b
      · have hmin : min (n + 1) (b - a) = min n (b - (a + 1)) + 1 := by omega
        rw [if_pos (decide_eq_true hab), hmin, List.range'_succ]
      · have hzero : min (n + 1) (b - a) = 0 ∧ min n (b - (a + 1)) = 0 := by omega
        rw [if_neg (by simpa using hab), hzero.1, hzero.2]
        rfl

/-- One group. -/
theorem roundSlices_eq {id : Nat} (hid : id ≤ groupSize) (base : Nat) :
    roundSlices packetCnt groupSize id base =
      (List.range (min groupSize (packetCnt - base))).map fun x =>
        base + mirror (min id (min groupSize (packetCnt - base)))
          (min groupSize (packetCnt - base)) x := by
  have hfilter : ∀ l : List Nat, (l.map (base + ·)).filter (· < packetCnt) =
      (l.filter (· < packetCnt - base)).map (base + ·) := by
    intro l
    rw [List.filter_map]
    refine congrArg _ (List.filter_congr fun x _ => decide_eq_decide.2 ?_)
    show base + x < packetCnt ↔ x < packetCnt - base
    omega
  -- the group is cut off behind the last slice
  rw [roundSlices, hfilter, List.filter_append, List.filter_reverse, List.filter_reverse,
    List.range_eq_range', filter_range'_lt, filter_range'_lt, List.reverse_range',
    List.reverse_range']
  generalize hw : min groupSize (packetCnt - base) = w
  have hfirst : min id (packetCnt - base - 0) = min id w := by omega
  have hsecond : min (groupSize - id) (packetCnt - base - id) = w - min id w := by omega
  have hsum : min id w + (w - min id w) = w := by omega
  have hcomp : ((List.range w).map fun x => base + mirror (min id w) w x) =
      ((List.range w).map (mirror (min id w) w)).map (base + ·) := by
    rw [List.map_map]
    rfl
  rw [hfirst, hsecond, hcomp]
  refine congrArg _ ?_
  conv_rhs => rw [← hsum]
  rw [List.range_add, List.map_append, List.map_map]
  congr 1
  · refine List.map_congr_left fun x hx => ?_
    have hx' := List.mem_range.1 hx
    rw [mirror, hsum, if_pos hx', Nat.zero_add]
  · refine List.map_congr_left fun x hx => ?_
    have hx' := List.mem_range.1 hx
    rw [hsum, Function.comp_apply, mirror, if_neg (by omega)]
    omega

/-- The first groups together. -/
theorem flatMap_roundSlices {id : Nat} (hg : 0 < groupSize) (hid : id ≤ groupSize) (n : Nat) :
    n ≤ round packetCnt groupSize →
      ((List.range n).flatMap fun i => roundSlices packetCnt groupSize id (i * groupSize)) =
        (List.range (min (groupSize * n) packetCnt)).map (swap packetCnt groupSize id) := by
  induction n with
  | zero =>
      intro _
      simp
  | succ n ih =>
      intro hn
      have hbase : groupSize * n < packetCnt := by
        have hsplit := Nat.div_add_mod packetCnt groupSize
        unfold round at hn
        split at hn
        · rename_i hzero
          have := Nat.mul_le_mul_left groupSize hn
          rw [Nat.mul_succ] at this
          omega
        · have := Nat.mul_le_mul_left groupSize (Nat.le_of_succ_le_succ hn)
          omega
      have hmin : min (groupSize * (n + 1)) packetCnt =
          groupSize * n + min groupSize (packetCnt - groupSize * n) := by
        rw [Nat.mul_succ]
        omega
      rw [List.range_succ, List.flatMap_append, ih (Nat.le_of_succ_le hn), hmin,
        Nat.min_eq_left hbase.le, List.range_add, List.map_append, List.flatMap_singleton,
        roundSlices_eq hid, Nat.mul_comm n, List.map_map]
      refine congrArg _ (List.map_congr_left fun x hx => ?_)
      have hx' : x < groupSize := Nat.lt_of_lt_of_le (List.mem_range.1 hx) (Nat.min_le_left _ _)
      have hdiv : (groupSize * n + x) / groupSize = n := by
        rw [Nat.mul_add_div hg, Nat.div_eq_of_lt hx', Nat.add_zero]
      have hmod : (groupSize * n + x) % groupSize = x := by
        rw [Nat.mul_add_mod, Nat.mod_eq_of_lt hx']
      show _ = swap packetCnt groupSize id (groupSize * n + x)
      rw [swap, width, hdiv, hmod]

/-- All groups together have every slice. -/
theorem le_groupSize_mul_round (hg : 0 < groupSize) :
    packetCnt ≤ groupSize * round packetCnt groupSize := by
  have hsplit := Nat.div_add_mod packetCnt groupSize
  have hmod := Nat.mod_lt packetCnt hg
  unfold round
  split
  · omega
  · rw [Nat.mul_succ]
    omega

/-- Filling the tables with different slices. -/
theorem foldl_push {l : List Nat} (hl : l.Nodup) :
    (l.foldl Tables.push ⟨[], fun _ => 0⟩).pkt2sli = l ∧
      ∀ (i s : Nat), l[i]? = some s → (l.foldl Tables.push ⟨[], fun _ => 0⟩).sli2pkt s = i := by
  induction l using List.reverseRecOn with
  | nil =>
      refine ⟨rfl, fun i s h => ?_⟩
      rw [List.getElem?_nil] at h
      cases h
  | append_singleton l a ih =>
      obtain ⟨hnodup, -, hapart⟩ := List.nodup_append.1 hl
      obtain ⟨hlist, hindex⟩ := ih hnodup
      rw [List.foldl_append]
      refine ⟨?_, ?_⟩
      · show _ ++ [a] = l ++ [a]
        rw [hlist]
      · intro i s hs
        show (Function.update _ a _ : Nat → Nat) s = i
        rcases Nat.lt_or_ge i l.length with hi | hi
        · rw [List.getElem?_append_left hi] at hs
          have hne : s ≠ a := hapart s (List.mem_of_getElem? hs) a List.mem_cons_self
          rw [Function.update_of_ne hne]
          exact hindex i s hs
        · rw [List.getElem?_append_right hi] at hs
          obtain ⟨hlt, rfl⟩ := List.getElem?_eq_some_iff.1 hs
          have hzero : i = l.length := by
            simp only [List.length_singleton] at hlt
            omega
          subst hzero
          simp [hlist]

theorem slices_eq {id : Nat} (hg : 0 < groupSize) (hid : id ≤ groupSize) :
    ((List.range (round packetCnt groupSize)).flatMap fun i =>
      roundSlices packetCnt groupSize id (i * groupSize)) =
        (List.range packetCnt).map (swap packetCnt groupSize id) := by
  rw [flatMap_roundSlices hg hid _ (Nat.le_refl _), Nat.min_eq_right (le_groupSize_mul_round hg)]

theorem nodup_swaps {id : Nat} (hg : 0 < groupSize) :
    ((List.range packetCnt).map (swap packetCnt groupSize id)).Nodup := by
  refine List.Nodup.map_on ?_ List.nodup_range
  intro p hp q hq
  exact swap_inj hg (List.mem_range.1 hp) (List.mem_range.1 hq)

/-- The slice of a position. -/
theorem pkt2sli_tables {id p : Nat} (hg : 0 < groupSize) (hid : id ≤ groupSize) :
    p < packetCnt →
      (tables packetCnt groupSize id).pkt2sli[p]? = some (swap packetCnt groupSize id p) := by
  intro hp
  rw [tables, slices_eq hg hid, (foldl_push (nodup_swaps hg)).1]
  simp [hp]

/-- The position of a slice. -/
theorem sli2pkt_tables {id s : Nat} (hg : 0 < groupSize) (hid : id ≤ groupSize) :
    s < packetCnt →
      (tables packetCnt groupSize id).sli2pkt s = swap packetCnt groupSize id s := by
  intro hs
  rw [tables, slices_eq hg hid]
  refine (foldl_push (nodup_swaps hg)).2 _ s ?_
  have hlt : swap packetCnt groupSize id s < packetCnt := swap_lt id hg hs
  simp [hlt, swap_swap id hg hs]

end Positions

/-! ## Where a slice starts and ends -/

section Ends

variable (packetCnt ecK id : Nat)

/-- A position is taken from the helper before. -/
def Pulled (pktId : Nat) : Prop :=
  id = 0 ∨ pktId % (ecK - 1) ≠ 0 ∨
    (packetCnt - packetCnt % (ecK - 1) ≤ pktId ∧ packetCnt % (ecK - 1) < id)

/-- A position is sent as soon as it is read. -/
def Started (pktId : Nat) : Prop :=
  id ≠ 0 ∧ pktId % (ecK - 1) = 0 ∧
    (pktId < packetCnt - packetCnt % (ecK - 1) ∨ id ≤ packetCnt % (ecK - 1))

/-- A position is sent to the requestor. -/
def Last (pktId : Nat) : Prop :=
  (id ≠ ecK - 1 ∧ pktId % (ecK - 1) = ecK - 2) ∨
    (id < packetCnt % (ecK - 1) ∧ pktId = packetCnt - 1)

instance (pktId : Nat) : Decidable (Pulled packetCnt ecK id pktId) :=
  inferInstanceAs (Decidable (_ ∨ _ ∨ _))

instance (pktId : Nat) : Decidable (Started packetCnt ecK id pktId) :=
  inferInstanceAs (Decidable (_ ∧ _ ∧ _))

instance (pktId : Nat) : Decidable (Last packetCnt ecK id pktId) :=
  inferInstanceAs (Decidable (_ ∨ _))

variable {packetCnt ecK id}

/-- What is not started here comes from the helper before. -/
theorem pulled_iff {pktId : Nat} :
    Pulled packetCnt ecK id pktId ↔ ¬ Started packetCnt ecK id pktId := by
  unfold Pulled Started
  omega

/-- A slice starts at the helper behind the one it ends at. -/
theorem started_swap {s : Nat} (hk : 3 ≤ ecK) (hid : id ≤ ecK - 1) : s < packetCnt →
    (Started packetCnt ecK id (swap packetCnt (ecK - 1) id s) ↔ id = s % (ecK - 1) + 1) := by
  intro hs
  have hg : 0 < ecK - 1 := by omega
  obtain ⟨hdiv, hmod⟩ := swap_div_mod id hg hs
  have hin := mod_lt_width hg hs
  have hzero := mirror_eq_zero (Nat.min_le_right id (width packetCnt (ecK - 1) s)) hin
  have hcases := width_cases hg (swap_lt id hg hs)
  rw [width_congr packetCnt hdiv] at hcases
  unfold Started
  rw [hmod, hzero]
  rcases hcases with ⟨hfull, hwidth⟩ | ⟨hbase, hwidth⟩
  case inl =>
    rw [hwidth] at hin ⊢
    omega
  case inr =>
    have hle := Nat.div_mul_le_self (swap packetCnt (ecK - 1) id s) (ecK - 1)
    rw [Nat.mul_comm, hbase] at hle
    rw [hwidth] at hin ⊢
    omega

/-- A slice ends at the helper with its place in the group. -/
theorem last_swap {s : Nat} (hk : 3 ≤ ecK) (hid : id ≤ ecK - 1) : s < packetCnt →
    (Last packetCnt ecK id (swap packetCnt (ecK - 1) id s) ↔ id = s % (ecK - 1)) := by
  intro hs
  have hg : 0 < ecK - 1 := by omega
  obtain ⟨hdiv, hmod⟩ := swap_div_mod id hg hs
  have hin := mod_lt_width hg hs
  have hlast := mirror_eq_last (Nat.min_le_right id (width packetCnt (ecK - 1) s)) hin
  have hlt := mirror_lt (Nat.min_le_right id (width packetCnt (ecK - 1) s)) hin
  have hcases := width_cases hg (swap_lt id hg hs)
  have hsplit := Nat.div_add_mod (swap packetCnt (ecK - 1) id s) (ecK - 1)
  have hshort := Nat.mod_lt packetCnt hg
  have hall := Nat.mod_le packetCnt (ecK - 1)
  rw [width_congr packetCnt hdiv] at hcases
  unfold Last
  rw [hmod] at hsplit ⊢
  rcases hcases with ⟨hfull, hwidth⟩ | ⟨hbase, hwidth⟩
  case inl =>
    rw [hwidth] at hin hlast ⊢
    have hend : ecK - 1 - 1 = ecK - 2 := rfl
    rw [hend] at hlast
    rw [hlast]
    omega
  case inr =>
    rw [hwidth] at hin hlast hlt hsplit ⊢
    generalize mirror (min id (packetCnt % (ecK - 1))) (packetCnt % (ecK - 1)) (s % (ecK - 1)) = m
      at hlast hlt hsplit ⊢
    omega

end Ends

end Cycl

end CoRD
