import CoRD.Util.LowBit

/-!
# PPRIndices — who pulls from whom

The helpers of a reduction tree are numbered from zero.  `PPRnextIP` adds the lowest bit of the number
behind a helper to it, and the helper with the result is the parent; if there are not so many
helpers, the requestor is.  `getChildrenIndices` looks for the children without it: of a node it goes
through the bits below the lowest one, and where there is no such helper it goes on with the children
that this helper would have.  The requestor stands at the next power of two, which `getID` finds.

The loops and the recursion are given a number of turns; 32 are enough.
-/

namespace CoRD

namespace PPRPull

open LowBit

/-! ## The index functions -/

/-- `int` and `unsigned int`. -/
abbrev Word := BitVec 32

/-- `PPRnextIP`; its second argument is not used. -/
def PPRnextIP (id : Word) : Word :=
  let id := id + 1
  id + (id &&& -id) - 1

/-- `while ((idx >> lastOne) % 2 == 0) lastOne ++`, for so many turns. -/
def lastOneLoop (idx : Word) : Nat → Nat → Option Nat
  | 0, _ => none
  | fuel + 1, lastOne =>
      if (idx.sshiftRight lastOne).srem 2 = 0 then lastOneLoop idx fuel (lastOne + 1)
      else some lastOne

/-- `for (-- lastOne; lastOne >= 0; lastOne --)`, with the function that it calls. -/
def childrenLoop (getChildren : Word → Option (List Word)) (ecK : Word) :
    Nat → Word → Option (List Word)
  | 0, _ => some []
  | lastOne + 1, id =>
      let id := id + (1 : Word) <<< lastOne
      let temp := if id ≤ ecK then some [id - 1] else getChildren (id - 1)
      temp.bind fun temp =>
        (childrenLoop getChildren ecK lastOne id).map fun retVal => temp ++ retVal

/-- `getChildrenIndices`, for calls that are nested so deep. -/
def getChildrenIndices (ecK : Word) : Nat → Word → Option (List Word)
  | 0, _ => none
  | depth + 1, idx => do
      let idx := idx + 1
      let lastOne ← lastOneLoop idx 32 0
      let id := (idx.sshiftRight lastOne - 1) <<< lastOne
      childrenLoop (getChildrenIndices ecK depth) ecK lastOne id

/-- `while ((k & (k - 1)) != 0) k += (k & (-k))`, for so many turns. -/
def getIDLoop : Nat → Word → Option Word
  | 0, _ => none
  | fuel + 1, k => if k &&& (k - 1) ≠ 0 then getIDLoop fuel (k + (k &&& -k)) else some k

/-- `getID`. -/
def getID (fuel : Nat) (k : Word) : Option Word :=
  (getIDLoop fuel (k + 1)).map fun k => k - 1

/-! ## What they compute -/

section Index

theorem toNat_lowBit {x : Word} : x ≠ 0 → (x &&& -x).toNat = low x.toNat := by
  intro hx
  have hpos : 0 < x.toNat := by
    rw [Nat.pos_iff_ne_zero]
    exact fun h => hx (BitVec.eq_of_toNat_eq h)
  rw [BitVec.toNat_and, BitVec.toNat_neg, Nat.mod_eq_of_lt (by omega),
    and_two_pow_sub hpos x.isLt]

theorem ne_zero_of_pos {x : Word} : 0 < x.toNat → x ≠ 0 := by
  rintro hpos rfl
  exact absurd hpos (by decide)

/-- The sum with the lowest bit, as long as it fits. -/
theorem toNat_add_lowBit {x : Word} : 0 < x.toNat → x.toNat < 2 ^ 31 →
    (x + (x &&& -x)).toNat = x.toNat + low x.toNat := by
  intro hpos hlt
  have hle := low_le hpos
  rw [BitVec.toNat_add, toNat_lowBit (ne_zero_of_pos hpos), Nat.mod_eq_of_lt (by omega)]

theorem toNat_succ {x : Word} : x.toNat + 1 < 2 ^ 32 → (x + 1).toNat = x.toNat + 1 := by
  intro hlt
  rw [BitVec.toNat_add]
  exact Nat.mod_eq_of_lt hlt

theorem toNat_pred {x : Word} : 0 < x.toNat → (x - 1).toNat = x.toNat - 1 := by
  intro hpos
  have hone : (1 : Word).toNat = 1 := rfl
  rw [BitVec.toNat_sub, hone]
  have := x.isLt
  omega

theorem toNat_PPRnextIP {c : Word} : c.toNat + 1 < 2 ^ 31 →
    (PPRnextIP c).toNat + 1 = c.toNat + 1 + low (c.toNat + 1) := by
  intro hlt
  have hsucc : (c + 1).toNat = c.toNat + 1 := toNat_succ (by omega)
  have hsum := toNat_add_lowBit (x := c + 1) (by omega) (by omega)
  rw [hsucc] at hsum
  rw [PPRnextIP, toNat_pred (by omega), hsum]
  omega

/-- Shifting a number that is not negative. -/
theorem toNat_sshiftRight {x : Word} (l : Nat) : x.toNat < 2 ^ 31 →
    (x.sshiftRight l).toNat = x.toNat / 2 ^ l := by
  intro hlt
  have hmsb : x.msb = false := by
    rw [BitVec.msb_eq_false_iff_two_mul_lt]
    omega
  rw [BitVec.sshiftRight_eq_of_msb_false hmsb, BitVec.toNat_ushiftRight, Nat.shiftRight_eq_div_pow]

theorem srem_two_eq_zero_iff {x : Word} : x.toNat < 2 ^ 31 → (x.srem 2 = 0 ↔ 2 ∣ x.toNat) := by
  intro hlt
  have hmsb : x.msb = false := by
    rw [BitVec.msb_eq_false_iff_two_mul_lt]
    omega
  have hrem : (x.srem 2).toNat = x.toNat % 2 := by
    rw [BitVec.srem_eq, hmsb]
    rfl
  rw [Nat.dvd_iff_mod_eq_zero, ← hrem]
  exact ⟨fun h => by rw [h]; rfl, fun h => BitVec.eq_of_toNat_eq h⟩

theorem lastOneLoop_eq {x : Word} (hpos : 0 < x.toNat) (hlt : x.toNat < 2 ^ 31) {fuel l : Nat} :
    l ≤ padicValNat 2 x.toNat → padicValNat 2 x.toNat < l + fuel →
      lastOneLoop x fuel l = some (padicValNat 2 x.toNat) := by
  intro hl hfuel
  induction fuel generalizing l with
  | zero =>
      omega
  | succ fuel ih =>
      have hshift := toNat_sshiftRight l hlt
      have hdvd : (x.sshiftRight l).srem 2 = 0 ↔ l + 1 ≤ padicValNat 2 x.toNat := by
        rw [srem_two_eq_zero_iff (by rw [hshift]; exact (Nat.div_le_self _ _).trans_lt hlt), hshift,
          ← padicValNat_dvd_iff_le (by omega), pow_succ]
        have hpow : 2 ^ l ∣ x.toNat := (padicValNat_dvd_iff_le (by omega)).2 hl
        rw [Nat.dvd_div_iff_mul_dvd hpow]
      rw [lastOneLoop]
      split
      · rename_i heven
        exact ih (hdvd.1 heven) (by omega)
      · rename_i hodd
        have hnot := mt hdvd.2 hodd
        exact congrArg some (by omega)

theorem toNat_one_shiftLeft {t : Nat} : t < 32 → ((1 : Word) <<< t).toNat = 2 ^ t := by
  intro ht
  have hone : (1 : Word).toNat = 1 := rfl
  rw [BitVec.toNat_shiftLeft, hone, Nat.shiftLeft_eq, Nat.one_mul]
  exact Nat.mod_eq_of_lt (Nat.pow_lt_pow_right (by decide) ht)

/-- Helpers are counted from zero. -/
def indices (l : List Nat) : List Word :=
  l.map fun c => BitVec.ofNat 32 (c - 1)

/-- The node without its lowest bit. -/
theorem toNat_base {x : Word} : 0 < x.toNat → x.toNat < 2 ^ 31 →
    ((x.sshiftRight (padicValNat 2 x.toNat) - 1) <<< padicValNat 2 x.toNat).toNat =
      x.toNat - low x.toNat := by
  intro hpos hlt
  have hle := low_le hpos
  have hshift := toNat_sshiftRight (padicValNat 2 x.toNat) hlt
  have hquot : 0 < x.toNat / low x.toNat := Nat.div_pos hle (low_pos _)
  have hmul : x.toNat / low x.toNat * low x.toNat = x.toNat :=
    Nat.div_mul_cancel (low_dvd x.toNat)
  rw [BitVec.toNat_shiftLeft, toNat_pred (by rw [hshift]; exact hquot), hshift, Nat.shiftLeft_eq]
  show (x.toNat / low x.toNat - 1) * low x.toNat % 2 ^ 32 = _
  rw [Nat.sub_mul, hmul, Nat.one_mul, Nat.mod_eq_of_lt (by omega)]

/-- The loop over the bits below `t`, if the function that it calls is right for these. -/
theorem childrenLoop_eq (ecK : Word) (getChildren : Word → Option (List Word)) {t : Nat}
    (hcall : ∀ x : Word, 0 < x.toNat + 1 → x.toNat + 1 ≤ 2 ^ 30 →
      padicValNat 2 (x.toNat + 1) < t →
        getChildren x = some (indices (cut ecK.toNat (padicValNat 2 (x.toNat + 1))
          (x.toNat + 1 - low (x.toNat + 1))))) (id : Word) :
    2 ^ t ∣ id.toNat → id.toNat + 2 ^ t ≤ 2 ^ 30 →
      childrenLoop getChildren ecK t id = some (indices (cut ecK.toNat t id.toNat)) := by
  intro hdvd hle
  induction t generalizing id with
  | zero =>
      rfl
  | succ t ih =>
      have hpow : 0 < 2 ^ t := Nat.two_pow_pos t
      have ht : t < 32 := by
        have hlt : 2 ^ t < 2 ^ 32 := by
          rw [pow_succ] at hle
          omega
        exact (Nat.pow_lt_pow_iff_right (by decide)).1 hlt
      rw [pow_succ] at hle
      have hid : (id + (1 : Word) <<< t).toNat = id.toNat + 2 ^ t := by
        rw [BitVec.toNat_add, toNat_one_shiftLeft ht, Nat.mod_eq_of_lt (by omega)]
      have hlow : low (id.toNat + 2 ^ t) = 2 ^ t := low_add hdvd
      have hval : padicValNat 2 (id.toNat + 2 ^ t) = t :=
        Nat.pow_right_injective (le_refl 2) hlow
      have hprev : (id + (1 : Word) <<< t - 1).toNat + 1 = id.toNat + 2 ^ t := by
        rw [toNat_pred (by omega), hid]
        omega
      have hdvd' : 2 ^ t ∣ id.toNat := (pow_dvd_pow 2 (Nat.le_succ t)).trans hdvd
      -- what the first bit leads to
      have hhead : (if id + (1 : Word) <<< t ≤ ecK then some [id + (1 : Word) <<< t - 1]
          else getChildren (id + (1 : Word) <<< t - 1)) =
          some (indices (if id.toNat + 2 ^ t ≤ ecK.toNat then [id.toNat + 2 ^ t]
            else cut ecK.toNat t id.toNat)) := by
        by_cases hreal : id.toNat + 2 ^ t ≤ ecK.toNat
        · rw [if_pos (by rw [BitVec.le_def, hid]; exact hreal), if_pos hreal]
          refine congrArg some (congrArg (fun w => [w]) ?_)
          apply BitVec.eq_of_toNat_eq
          rw [BitVec.toNat_ofNat, Nat.mod_eq_of_lt (by omega)]
          omega
        · rw [if_neg (by rw [BitVec.le_def, hid]; exact hreal), if_neg hreal,
            hcall _ (by omega) (by omega) (by rw [hprev, hval]; exact Nat.lt_succ_self t), hprev,
            hval, hlow, Nat.add_sub_cancel]
      have hrest := ih (fun x hpos hx hlt => hcall x hpos hx (Nat.lt_succ_of_lt hlt))
        (id + (1 : Word) <<< t) (by rw [hid]; exact dvd_add hdvd' dvd_rfl)
        (by rw [hid]; omega)
      rw [hid] at hrest
      simp only [childrenLoop, hhead, hrest, cut, indices, List.map_append]
      rfl

/-- `getChildrenIndices` comes to an end, and lists the nodes that leave the tree towards `idx`. -/
theorem getChildrenIndices_eq {ecK idx : Word} {depth : Nat} : idx.toNat + 1 ≤ 2 ^ 30 →
    padicValNat 2 (idx.toNat + 1) < depth →
      getChildrenIndices ecK depth idx = some (indices (cut ecK.toNat
        (padicValNat 2 (idx.toNat + 1)) (idx.toNat + 1 - low (idx.toNat + 1)))) := by
  intro hidx hdepth
  induction depth generalizing idx with
  | zero =>
      exact absurd hdepth (Nat.not_lt_zero _)
  | succ depth ih =>
      have hsucc : (idx + 1).toNat = idx.toNat + 1 := toNat_succ (by omega)
      have hval : padicValNat 2 (idx + 1).toNat < 0 + 32 := by
        have hle := low_le (x := idx.toNat + 1) (by omega)
        rw [hsucc]
        have hpow : 2 ^ padicValNat 2 (idx.toNat + 1) < 2 ^ 32 := by
          show low (idx.toNat + 1) < _
          omega
        exact ((Nat.pow_lt_pow_iff_right (by decide)).1 hpow).trans_eq (Nat.zero_add 32).symm
      have hlast := lastOneLoop_eq (x := idx + 1) (by omega) (by omega) (Nat.zero_le _) hval
      have hbase := toNat_base (x := idx + 1) (by omega) (by omega)
      rw [hsucc] at hlast hbase
      have hle := low_le (x := idx.toNat + 1) (by omega)
      have hdvd : low (idx.toNat + 1) ∣ idx.toNat + 1 - low (idx.toNat + 1) :=
        Nat.dvd_sub (low_dvd _) dvd_rfl
      have hloop := childrenLoop_eq ecK (getChildrenIndices ecK depth)
        (t := padicValNat 2 (idx.toNat + 1))
        (fun x _ hx hlt => ih hx (Nat.lt_of_lt_of_le hlt (Nat.le_of_lt_succ hdepth)))
        (((idx + 1).sshiftRight (padicValNat 2 (idx.toNat + 1)) - 1) <<<
          padicValNat 2 (idx.toNat + 1))
        (by rw [hbase]; exact hdvd)
        (by
          rw [hbase]
          show _ + low (idx.toNat + 1) ≤ _
          omega)
      rw [hbase] at hloop
      simp only [getChildrenIndices, hlast, Option.bind_eq_bind, Option.bind_some]
      exact hloop

/-- A power of two is its own lowest bit, and nothing else is. -/
theorem and_pred_eq_zero_iff {x : Word} : 0 < x.toNat →
    (x &&& (x - 1) = 0 ↔ low x.toNat = x.toNat) := by
  intro hpos
  have hle := low_le hpos
  have hand : (x &&& (x - 1)).toNat = x.toNat - low x.toNat := by
    rw [BitVec.toNat_and, toNat_pred hpos, and_pred hpos]
  constructor
  · intro hzero
    rw [hzero] at hand
    have hzero' : (0 : Word).toNat = 0 := rfl
    omega
  · intro heq
    apply BitVec.eq_of_toNat_eq
    rw [hand, heq, Nat.sub_self]
    rfl

/-- `getID` comes to the power of two that the node lies below. -/
theorem getIDLoop_eq {x : Word} {e : Nat} (fuel : Nat) (he : e ≤ 30) : 2 ^ e < x.toNat →
    x.toNat ≤ 2 ^ (e + 1) → e + 1 ≤ padicValNat 2 x.toNat + fuel →
      ∃ y, getIDLoop (fuel + 1) x = some y ∧ y.toNat = 2 ^ (e + 1) := by
  intro hlow hhigh hfuel
  have hpow : 0 < 2 ^ e := Nat.two_pow_pos e
  have hfits : 2 ^ (e + 1) ≤ 2 ^ 31 := Nat.pow_le_pow_right (by decide) (by omega)
  have hdouble : 2 ^ (e + 1) = 2 ^ e + 2 ^ e := by
    rw [pow_succ]
    omega
  induction fuel generalizing x with
  | zero =>
      have hdvd : 2 ^ (e + 1) ∣ x.toNat := (padicValNat_dvd_iff_le (by omega)).2 hfuel
      have heq : x.toNat = 2 ^ (e + 1) :=
        Nat.le_antisymm hhigh (Nat.le_of_dvd (by omega) hdvd)
      have hself : low x.toNat = x.toNat := by
        rw [heq, low, padicValNat.prime_pow]
      refine ⟨x, ?_, heq⟩
      rw [getIDLoop, if_neg (not_not.2 ((and_pred_eq_zero_iff (by omega)).2 hself))]
  | succ fuel ih =>
      by_cases hself : low x.toNat = x.toNat
      · -- a power of two in this range is the upper end
        refine ⟨x, ?_, ?_⟩
        · rw [getIDLoop, if_neg (not_not.2 ((and_pred_eq_zero_iff (by omega)).2 hself))]
        · have hexp : e < padicValNat 2 x.toNat := by
            refine (Nat.pow_lt_pow_iff_right (a := 2) (by decide)).1 ?_
            rw [← low, hself]
            exact hlow
          have hge : 2 ^ (e + 1) ≤ low x.toNat := Nat.pow_le_pow_right (by decide) hexp
          omega
      · have hlt : x.toNat < 2 ^ (e + 1) := by
          refine Nat.lt_of_le_of_ne hhigh fun heq => hself ?_
          rw [heq, low, padicValNat.prime_pow]
        have hnext := add_low_le (b := 2 ^ e) (t := e) dvd_rfl hlow (by omega)
        have hsum := toNat_add_lowBit (x := x) (by omega) (by omega)
        have hlowpos := low_pos x.toNat
        have hval : padicValNat 2 x.toNat < padicValNat 2 (x + (x &&& -x)).toNat := by
          rw [hsum]
          exact padicValNat_lt_add_low (by omega)
        rcases ih (x := x + (x &&& -x)) (by omega) (by omega) (by omega) with ⟨y, hy, hye⟩
        refine ⟨y, ?_, hye⟩
        rw [getIDLoop, if_pos (mt (and_pred_eq_zero_iff (by omega)).1 hself)]
        exact hy

end Index

section Children

theorem mem_indices {l : List Nat} {c : Word} (hl : ∀ a ∈ l, 0 < a ∧ a ≤ 2 ^ 32) :
    c ∈ indices l ↔ c.toNat + 1 ∈ l := by
  rw [indices, List.mem_map]
  constructor
  · rintro ⟨a, ha, rfl⟩
    rcases hl a ha with ⟨hpos, hle⟩
    rw [BitVec.toNat_ofNat, Nat.mod_eq_of_lt (by omega), Nat.sub_add_cancel hpos]
    exact ha
  · intro hc
    refine ⟨c.toNat + 1, hc, ?_⟩
    rw [Nat.add_sub_cancel]
    exact BitVec.ofNat_toNat 32 c ▸ BitVec.setWidth_eq c

theorem nodup_indices {l : List Nat} (hl : ∀ a ∈ l, 0 < a ∧ a ≤ 2 ^ 32) :
    l.Nodup → (indices l).Nodup := by
  intro hnodup
  refine List.Nodup.map_on ?_ hnodup
  intro a ha b hb heq
  have hnat := congrArg BitVec.toNat heq
  rw [BitVec.toNat_ofNat, BitVec.toNat_ofNat, Nat.mod_eq_of_lt (by have := hl a ha; omega),
    Nat.mod_eq_of_lt (by have := hl b hb; omega)] at hnat
  have ha' := (hl a ha).1
  have hb' := (hl b hb).1
  omega

/-- The children of a node: each of the nodes below it whose first step leads to it or out of the
tree, once. -/
theorem getChildrenIndices_spec (ecK idx : Word) : idx.toNat + 1 ≤ 2 ^ 30 →
    ∃ l, (∀ depth, 32 ≤ depth → getChildrenIndices ecK depth idx = some l) ∧ l.Nodup ∧
      ∀ c, c ∈ l ↔ idx.toNat + 1 - low (idx.toNat + 1) ≤ c.toNat ∧ c < idx ∧ c < ecK ∧
        (PPRnextIP c = idx ∨ ecK ≤ PPRnextIP c) := by
  intro hidx
  have hle := low_le (x := idx.toNat + 1) (by omega)
  have hval : padicValNat 2 (idx.toNat + 1) < 32 := by
    have hpow : 2 ^ padicValNat 2 (idx.toNat + 1) < 2 ^ 32 := by
      show low (idx.toNat + 1) < _
      omega
    exact (Nat.pow_lt_pow_iff_right (by decide)).1 hpow
  have hdvd : 2 ^ padicValNat 2 (idx.toNat + 1) ∣ idx.toNat + 1 - low (idx.toNat + 1) :=
    Nat.dvd_sub (low_dvd _) dvd_rfl
  have hend : idx.toNat + 1 - low (idx.toNat + 1) + 2 ^ padicValNat 2 (idx.toNat + 1) =
      idx.toNat + 1 := Nat.sub_add_cancel hle
  have hrange : ∀ a ∈ cut ecK.toNat (padicValNat 2 (idx.toNat + 1))
      (idx.toNat + 1 - low (idx.toNat + 1)), 0 < a ∧ a ≤ 2 ^ 32 := by
    intro a ha
    have ha' := lt_of_mem_cut hdvd ha
    omega
  refine ⟨_, fun depth hdepth => getChildrenIndices_eq hidx (hval.trans_le hdepth), ?_,
    fun c => ?_⟩
  · refine nodup_indices hrange ((pairwise_cut hdvd).imp fun h => Nat.ne_of_lt h)
  · rw [mem_indices hrange, mem_cut hdvd, hend, BitVec.lt_def, BitVec.lt_def, BitVec.le_def,
      ← BitVec.toNat_inj]
    by_cases hc : c.toNat + 1 < 2 ^ 31
    · have hnext := toNat_PPRnextIP hc
      omega
    · omega

/-- The children of a helper are the helpers that push to it. -/
theorem children_helper (ecK p : Word) (hecK : ecK.toNat + 1 < 2 ^ 30) : p < ecK →
    ∃ l, (∀ depth, 32 ≤ depth → getChildrenIndices ecK depth p = some l) ∧ l.Nodup ∧
      ∀ c, c ∈ l ↔ c < ecK ∧ PPRnextIP c = p := by
  intro hp
  rw [BitVec.lt_def] at hp
  rcases getChildrenIndices_spec ecK p (by omega) with
    ⟨l, hl, hnodup, hmem⟩
  refine ⟨l, hl, hnodup, fun c => ?_⟩
  rw [hmem, BitVec.lt_def, BitVec.lt_def, BitVec.le_def, ← BitVec.toNat_inj]
  by_cases hc : c.toNat + 1 < 2 ^ 31
  · have hnext := toNat_PPRnextIP hc
    have hpos := low_pos (c.toNat + 1)
    have hlow := low_le (x := p.toNat + 1) (by omega)
    have hdvd : 2 ^ padicValNat 2 (p.toNat + 1) ∣ p.toNat + 1 - low (p.toNat + 1) :=
      Nat.dvd_sub (low_dvd _) dvd_rfl
    have hend : p.toNat + 1 - low (p.toNat + 1) + 2 ^ padicValNat 2 (p.toNat + 1) =
        p.toNat + 1 := Nat.sub_add_cancel hlow
    constructor
    · rintro ⟨hge, hlt, hreal, heq | hout⟩
      · exact ⟨hreal, heq⟩
      · -- the parent of a node below `p` is not above it
        have hle := add_low_le (c := c.toNat + 1) hdvd (by omega) (by omega)
        omega
    · rintro ⟨hreal, heq⟩
      have hhigher := low_lt_add_low (x := c.toNat + 1) (by omega)
      rw [show c.toNat + 1 + low (c.toNat + 1) = p.toNat + 1 by omega] at hhigher
      exact ⟨by omega, by omega, hreal, Or.inl heq⟩
  · omega

/-- The node of the requestor: the power of two above all helpers. -/
theorem getID_spec {k : Word} {fuel : Nat} (hfuel : 32 ≤ fuel) (hpos : 0 < k.toNat) :
    k.toNat + 1 < 2 ^ 30 →
      ∃ r, getID fuel k = some r ∧ r.toNat + 1 = 2 ^ (Nat.log 2 k.toNat + 1) ∧
        r.toNat + 1 ≤ 2 ^ 30 ∧ k ≤ r := by
  intro hlt
  have hlog : 2 ^ Nat.log 2 k.toNat ≤ k.toNat := Nat.pow_log_le_self 2 (by omega)
  have hnext : k.toNat < 2 ^ (Nat.log 2 k.toNat + 1) := Nat.lt_pow_succ_log_self (by decide) _
  have he : Nat.log 2 k.toNat < 30 := by
    refine (Nat.pow_lt_pow_iff_right (a := 2) (by decide)).1 ?_
    omega
  have hsucc : (k + 1).toNat = k.toNat + 1 := toNat_succ (by omega)
  rcases Nat.exists_eq_add_of_le' (show 1 ≤ fuel by omega) with ⟨n, rfl⟩
  rcases getIDLoop_eq (x := k + 1) (e := Nat.log 2 k.toNat) n (by omega) (by omega)
    (by omega) (by omega) with ⟨y, hy, hye⟩
  have hfits : 2 ^ (Nat.log 2 k.toNat + 1) ≤ 2 ^ 30 := Nat.pow_le_pow_right (by decide) he
  have hpred := toNat_pred (x := y) (by omega)
  refine ⟨y - 1, ?_, by omega, by omega, ?_⟩
  · rw [getID, hy]
    rfl
  · rw [BitVec.le_def]
    omega

/-- The children of the requestor are the helpers whose parents are no helpers. -/
theorem children_root (ecK : Word) (hpos : 0 < ecK.toNat) : ecK.toNat + 1 < 2 ^ 30 →
    ∃ r l, (∀ fuel, 32 ≤ fuel → getID fuel ecK = some r) ∧
      (∀ depth, 32 ≤ depth → getChildrenIndices ecK depth r = some l) ∧ l.Nodup ∧
        ∀ c, c ∈ l ↔ c < ecK ∧ ecK ≤ PPRnextIP c := by
  intro hlt
  rcases getID_spec (le_refl 32) hpos hlt with ⟨r, -, hpow, hfits, hle⟩
  rcases getChildrenIndices_spec ecK r hfits with ⟨l, hl, hnodup, hmem⟩
  refine ⟨r, l, fun fuel hfuel => ?_, hl, hnodup, fun c => ?_⟩
  · rcases getID_spec hfuel hpos hlt with ⟨r', hr', hpow', -, -⟩
    rw [hr']
    exact congrArg some (BitVec.eq_of_toNat_eq (by omega))
  · have hlow : low (r.toNat + 1) = r.toNat + 1 := by
      rw [hpow, low, padicValNat.prime_pow]
    rw [BitVec.le_def] at hle
    rw [hmem, hlow, BitVec.lt_def, BitVec.lt_def, BitVec.le_def, ← BitVec.toNat_inj]
    omega

end Children

/-! ## Lists without repetition -/

section Nodup

/-- A bit of a word, as `lastOneLoop` looks at it. -/
theorem srem_sshiftRight_eq_zero_iff {x : Word} {l : Nat} : l < 32 →
    ((x.sshiftRight l).srem 2 = 0 ↔ x.getLsbD l = false) := by
  intro hl
  have hodd : ∀ y : Word, y.srem 2 = 0 ↔ y.getLsbD 0 = false := by
    intro y
    have htwo : (2 : Word).toInt = 2 := by decide
    have hzero : (0 : Word).toInt = 0 := by decide
    rw [← BitVec.toInt_inj, BitVec.toInt_srem, htwo, hzero, ← Int.dvd_iff_tmod_eq_zero,
      BitVec.getLsbD, Nat.testBit_zero, BitVec.toInt_eq_toNat_bmod, Int.bmod_def]
    simp only [decide_eq_false_iff_not]
    omega
  rw [hodd, BitVec.getLsbD_sshiftRight]
  simp [hl]

theorem lastOneLoop_some {x : Word} {fuel l t : Nat} : lastOneLoop x fuel l = some t →
    t < l + fuel ∧ (x.sshiftRight t).srem 2 ≠ 0 ∧
      ∀ m, l ≤ m → m < t → (x.sshiftRight m).srem 2 = 0 := by
  intro h
  induction fuel generalizing l with
  | zero => cases h
  | succ fuel ih =>
      rw [lastOneLoop] at h
      by_cases hzero : (x.sshiftRight l).srem 2 = 0
      · rw [if_pos hzero] at h
        rcases ih h with ⟨hlt, hone, hall⟩
        refine ⟨by omega, hone, fun m hl hm => ?_⟩
        rcases hl.eq_or_lt with rfl | hl
        · exact hzero
        · exact hall m hl hm
      · rw [if_neg hzero] at h
        cases h
        exact ⟨by omega, hzero, fun m hl hm => by omega⟩

/-- `lastOneLoop` finds the lowest bit of any word, and what is left without it. -/
theorem lastOneLoop_base {x : Word} {t : Nat} : lastOneLoop x 32 0 = some t →
    t < 32 ∧ 2 ^ (t + 1) ∣ ((x.sshiftRight t - 1) <<< t).toNat ∧
      ((x.sshiftRight t - 1) <<< t).toNat + 2 ^ t = x.toNat := by
  intro h
  rcases lastOneLoop_some h with ⟨hlt, hone, hall⟩
  rw [Nat.zero_add] at hlt
  have hbit : x.toNat.testBit t = true := by
    rw [Ne, srem_sshiftRight_eq_zero_iff hlt, Bool.not_eq_false] at hone
    exact hone
  have hlow : x.toNat % 2 ^ t = 0 := by
    refine Nat.eq_of_testBit_eq fun m => ?_
    rw [Nat.testBit_mod_two_pow, Nat.zero_testBit]
    by_cases hm : m < t
    · have hzero := (srem_sshiftRight_eq_zero_iff (hm.trans hlt)).1 (hall m (Nat.zero_le m) hm)
      rw [show x.toNat.testBit m = false from hzero, Bool.and_false]
    · rw [decide_eq_false hm, Bool.false_and]
  have hmod : x.toNat % 2 ^ (t + 1) = 2 ^ t := by
    have hodd : x.toNat / 2 ^ t % 2 = 1 := by
      rw [Nat.testBit_eq_decide_div_mod_eq] at hbit
      exact of_decide_eq_true hbit
    rw [pow_succ, Nat.mod_mul, hlow, hodd, Nat.zero_add, Nat.mul_one]
  -- shifting back and forth gives the word again
  have hback : x.sshiftRight t <<< t = x := by
    refine BitVec.eq_of_getLsbD_eq fun m hm => ?_
    rw [BitVec.getLsbD_shiftLeft, BitVec.getLsbD_sshiftRight]
    by_cases hmt : m < t
    · have hzero := (srem_sshiftRight_eq_zero_iff hm).1 (hall m (Nat.zero_le m) hmt)
      simp [hmt, hzero]
    · have hsum : t + (m - t) = m := by omega
      simp [hm, hmt, hsum, not_le.2 (show m - t < 32 by omega)]
  have hbase : (x.sshiftRight t - 1) <<< t = x - (1 : Word) <<< t := by
    rw [BitVec.shiftLeft_eq_mul_twoPow, BitVec.mul_comm, BitVec.mul_sub, BitVec.mul_comm,
      ← BitVec.shiftLeft_eq_mul_twoPow, hback, BitVec.mul_comm, ← BitVec.shiftLeft_eq_mul_twoPow]
  have hge : 2 ^ t ≤ x.toNat := Nat.ge_two_pow_of_testBit hbit
  have hval : ((x.sshiftRight t - 1) <<< t).toNat = x.toNat - 2 ^ t := by
    rw [hbase, BitVec.toNat_sub_of_le, toNat_one_shiftLeft hlt]
    rw [BitVec.le_def, toNat_one_shiftLeft hlt]
    exact hge
  rw [hval]
  refine ⟨hlt, ?_, Nat.sub_add_cancel hge⟩
  rw [← hmod]
  exact Nat.dvd_sub_mod _

/-- The loop over the bits below `t`, with nested calls, lists different nodes from a range. -/
theorem childrenLoop_nodup {ecK id : Word} {depth t : Nat} {l : List Word} (ht : t ≤ 32)
    (hdvd : 2 ^ t ∣ id.toNat) : childrenLoop (getChildrenIndices ecK depth) ecK t id = some l →
      l.Nodup ∧ ∀ c ∈ l, id.toNat ≤ c.toNat ∧ c.toNat + 1 < id.toNat + 2 ^ t := by
  intro h
  induction t generalizing id depth l with
  | zero =>
      cases h
      exact ⟨List.nodup_nil, fun c hc => absurd hc List.not_mem_nil⟩
  | succ t ih =>
      have hfit : id.toNat + 2 ^ (t + 1) ≤ 2 ^ 32 := by
        rcases hdvd with ⟨a, ha⟩
        rcases pow_dvd_pow 2 ht with ⟨b, hb⟩
        have hlt := id.isLt
        rw [ha, hb] at hlt
        rw [ha, hb, ← Nat.mul_succ]
        exact Nat.mul_le_mul_left _ (Nat.lt_of_mul_lt_mul_left hlt)
      have hpow : 0 < 2 ^ t := Nat.two_pow_pos t
      have hdvd' : 2 ^ t ∣ id.toNat := (pow_dvd_pow 2 (Nat.le_succ t)).trans hdvd
      rw [pow_succ] at hfit ⊢
      have hid : (id + (1 : Word) <<< t).toNat = id.toNat + 2 ^ t := by
        rw [BitVec.toNat_add, toNat_one_shiftLeft (by omega), Nat.mod_eq_of_lt (by omega)]
      rw [childrenLoop, Option.bind_eq_some_iff] at h
      rcases h with ⟨temp, htemp, hrest⟩
      rcases Option.map_eq_some_iff.1 hrest with ⟨retVal, hloop, rfl⟩
      rcases ih (by omega) (by rw [hid]; exact dvd_add hdvd' dvd_rfl) hloop with ⟨hnodup, hrange⟩
      -- what comes first lies below
      have hfirst : temp.Nodup ∧ ∀ c ∈ temp, id.toNat ≤ c.toNat ∧
          c.toNat + 1 ≤ id.toNat + 2 ^ t := by
        by_cases hreal : id + (1 : Word) <<< t ≤ ecK
        · rw [if_pos hreal] at htemp
          cases htemp
          refine ⟨List.nodup_singleton _, fun c hc => ?_⟩
          rw [List.mem_singleton.1 hc, toNat_pred (by omega), hid]
          omega
        · rw [if_neg hreal] at htemp
          cases depth with
          | zero => cases htemp
          | succ depth =>
              rw [getChildrenIndices, BitVec.sub_add_cancel, Option.bind_eq_bind,
                Option.bind_eq_some_iff] at htemp
              rcases htemp with ⟨lastOne, hlast, hnested⟩
              rcases lastOneLoop_base hlast with ⟨-, hbase, hsum⟩
              -- the nested call comes to the bits that are left in this one
              have hlow : low (id.toNat + 2 ^ t) = 2 ^ t := low_add hdvd
              rw [hid] at hsum
              rw [← hsum, low_add hbase] at hlow
              have hsame : lastOne = t := Nat.pow_right_injective (le_refl 2) hlow
              subst hsame
              have hback : ((id + (1 : Word) <<< lastOne).sshiftRight lastOne - 1) <<< lastOne =
                  id := BitVec.eq_of_toNat_eq (Nat.add_right_cancel hsum)
              simp only [hback] at hnested
              rcases ih (by omega) hdvd' hnested with ⟨hnodup, hrange⟩
              exact ⟨hnodup, fun c hc => ⟨(hrange c hc).1, (hrange c hc).2.le⟩⟩
      refine ⟨List.nodup_append.2 ⟨hfirst.1, hnodup, fun c hc c' hc' heq => ?_⟩, fun c hc => ?_⟩
      · have hlow := (hfirst.2 c hc).2
        have hhigh := (hrange c' hc').1
        rw [heq] at hlow
        omega
      · rcases List.mem_append.1 hc with hc | hc
        · have hlow := hfirst.2 c hc
          omega
        · have hhigh := hrange c hc
          omega

/-- `getChildrenIndices` lists no node twice. -/
theorem getChildrenIndices_nodup {ecK idx : Word} {depth : Nat} {l : List Word} :
    getChildrenIndices ecK depth idx = some l → l.Nodup := by
  intro h
  cases depth with
  | zero => cases h
  | succ depth =>
      rw [getChildrenIndices, Option.bind_eq_bind, Option.bind_eq_some_iff] at h
      rcases h with ⟨lastOne, hlast, hloop⟩
      rcases lastOneLoop_base hlast with ⟨hlt, hbase, -⟩
      exact (childrenLoop_nodup hlt.le ((pow_dvd_pow 2 (Nat.le_succ lastOne)).trans hbase) hloop).1

end Nodup

end PPRPull

end CoRD
