import CoRD.Util.Buffer

/-!
# Jerasure — matrix products over regions

`jerasure_matrix_encode` with `w = 8` and its dot product, over the two region operations of the
Galois library: xor, and multiplication by a constant.  A dot product first xors the regions whose
coefficient is one, then adds the multiples; `init` tells whether the destination has been written
yet, so a row of zeros leaves it alone.
-/

namespace CoRD

/-- `galois_region_xor(src, dest, nbytes)`. -/
def galoisRegionXor (src dest : Buf) (nbytes : Int) : Buf :=
  fun x => if 0 ≤ x ∧ x < nbytes then dest x + src x else dest x

/-- `galois_w08_region_multiply(region, multby, nbytes, r2, add)`. -/
def galoisW08RegionMultiply (region : Buf) (multby : Int) (nbytes : Int) (r2 : Buf) (add : Bool) :
    Buf :=
  fun x =>
    if 0 ≤ x ∧ x < nbytes then
      (if add then r2 x else 0) + GF256.ofInt multby * region x
    else r2 x

/-- The pass over the coefficients that are one. -/
def dotprodOnes (row : Nat → Int) (data : Nat → Buf) (size : Int) (st : Bool × Buf) (i : Nat) :
    Bool × Buf :=
  if row i = 1 then
    if st.1 = false then (true, memcpy st.2 0 (data i) size)
    else (true, galoisRegionXor (data i) st.2 size)
  else st

/-- The pass over the other coefficients. -/
def dotprodRest (row : Nat → Int) (data : Nat → Buf) (size : Int) (st : Bool × Buf) (i : Nat) :
    Bool × Buf :=
  if row i ≠ 0 ∧ row i ≠ 1 then
    (true, galoisW08RegionMultiply (data i) (row i) size st.2 st.1)
  else st

/-- `jerasure_matrix_dotprod` with all sources among the data regions and a coding destination. -/
def jerasureMatrixDotprod (k : Nat) (row : Nat → Int) (data : Nat → Buf) (dptr : Buf) (size : Int) :
    Buf :=
  ((List.range k).foldl (dotprodRest row data size)
    ((List.range k).foldl (dotprodOnes row data size) (false, dptr))).2

/-- `jerasure_matrix_encode(k, m, 8, matrix, data_ptrs, coding_ptrs, size)`: the new contents of the
coding regions. -/
def jerasureMatrixEncode (k m : Nat) (matrix : Nat → Int) (data coding : Nat → Buf) (size : Int) :
    Nat → Buf :=
  fun i =>
    if i < m then jerasureMatrixDotprod k (fun j => matrix (i * k + j)) data (coding i) size
    else coding i

/-! ## The dot product is the dot product -/

/-- What a pass has done at one byte: `S` is the sum so far, valid once `init` is set. -/
def PassInv (dptr : Buf) (size : Int) (S : Buf) (st : Bool × Buf) : Prop :=
  ∀ x, st.2 x = if 0 ≤ x ∧ x < size ∧ st.1 = true then S x else dptr x

theorem dotprodOnes_spec (row : Nat → Int) (data : Nat → Buf) (size : Int) (dptr : Buf) (n : Nat) :
    let st := (List.range n).foldl (dotprodOnes row data size) (false, dptr)
    PassInv dptr size
        (fun x => ∑ i ∈ Finset.range n, if row i = 1 then data i x else 0) st ∧
      (st.1 = false ↔ ∀ i < n, row i ≠ 1) := by
  induction n with
  | zero =>
      simp [PassInv]
  | succ n ih =>
      intro st
      obtain ⟨hinv, hinit⟩ := ih
      have hst : st = dotprodOnes row data size
          ((List.range n).foldl (dotprodOnes row data size) (false, dptr)) n := by
        simp [st, List.range_succ]
      generalize (List.range n).foldl (dotprodOnes row data size) (false, dptr) = st₀ at *
      by_cases h1 : row n = 1
      · -- the first row with a one is copied, every later one is xored in
        cases hb : st₀.1 with
        | false =>
            have hz : ∀ i < n, row i ≠ 1 := hinit.1 hb
            have hsum : ∀ x, ∑ i ∈ Finset.range n, (if row i = 1 then data i x else 0) = 0 :=
              fun x => Finset.sum_eq_zero fun i hi => if_neg (hz i (Finset.mem_range.1 hi))
            have hst' : st = (true, memcpy st₀.2 0 (data n) size) := by
              simp [hst, dotprodOnes, h1, hb]
            refine ⟨fun x => ?_, ?_⟩
            · have hx := hinv x
              simp only [hb, Bool.false_eq_true, and_false, if_false] at hx
              simp [hst', memcpy, Finset.sum_range_succ, hsum, h1, hx]
            · rw [hst']
              simp only [Bool.true_eq_false, false_iff, not_forall]
              exact ⟨n, by simp [h1]⟩
        | true =>
            have hst' : st = (true, galoisRegionXor (data n) st₀.2 size) := by
              simp [hst, dotprodOnes, h1, hb]
            refine ⟨fun x => ?_, ?_⟩
            · have hx := hinv x
              by_cases hr : 0 ≤ x ∧ x < size
              · simp [hst', galoisRegionXor, Finset.sum_range_succ, h1, hx, hr.1, hr.2, hb]
              · simp only [hst', galoisRegionXor, if_neg hr, hx]
                rw [if_neg (fun hc => hr ⟨hc.1, hc.2.1⟩), if_neg (fun hc => hr ⟨hc.1, hc.2.1⟩)]
            · rw [hst']
              simp only [Bool.true_eq_false, false_iff, not_forall]
              exact ⟨n, by simp [h1]⟩
      · have hst' : st = st₀ := by simp [hst, dotprodOnes, h1]
        refine ⟨fun x => ?_, ?_⟩
        · have hx := hinv x
          simp [hst', Finset.sum_range_succ, h1, hx]
        · rw [hst', hinit]
          constructor
          · intro hz i hi
            rcases Nat.lt_succ_iff_lt_or_eq.1 hi with hlt | rfl
            · exact hz i hlt
            · exact h1
          · intro hz i hi
            exact hz i (by omega)

theorem dotprodRest_spec (row : Nat → Int) (data : Nat → Buf) {size : Int} {dptr : Buf} {S : Buf}
    {st₀ : Bool × Buf} (h₀ : PassInv dptr size S st₀) (n : Nat) :
    let st := (List.range n).foldl (dotprodRest row data size) st₀
    PassInv dptr size
        (fun x => (if st₀.1 = true then S x else 0) + ∑ i ∈ Finset.range n,
          if row i ≠ 0 ∧ row i ≠ 1 then GF256.ofInt (row i) * data i x else 0) st ∧
      (st.1 = false ↔ st₀.1 = false ∧ ∀ i < n, row i = 0 ∨ row i = 1) := by
  induction n with
  | zero =>
      intro st
      refine ⟨fun x => ?_, by simp [st]⟩
      have hx := h₀ x
      cases hb : st₀.1 <;> simp [st, hx, hb]
  | succ n ih =>
      intro st
      obtain ⟨hinv, hinit⟩ := ih
      have hst : st = dotprodRest row data size
          ((List.range n).foldl (dotprodRest row data size) st₀) n := by
        simp [st, List.range_succ]
      generalize (List.range n).foldl (dotprodRest row data size) st₀ = st₁ at *
      by_cases h1 : row n ≠ 0 ∧ row n ≠ 1
      · have hst' : st = (true, galoisW08RegionMultiply (data n) (row n) size st₁.2 st₁.1) := by
          simp [hst, dotprodRest, h1]
        refine ⟨fun x => ?_, ?_⟩
        · have hx := hinv x
          by_cases hr : 0 ≤ x ∧ x < size
          · cases hb : st₁.1 with
            | false =>
                have hz := hinit.1 hb
                have hsum : ∑ i ∈ Finset.range n,
                    (if row i ≠ 0 ∧ row i ≠ 1 then GF256.ofInt (row i) * data i x else 0) = 0 :=
                  Finset.sum_eq_zero fun i hi => if_neg fun hc => by
                    rcases hz.2 i (Finset.mem_range.1 hi) with h | h
                    · exact hc.1 h
                    · exact hc.2 h
                simp only [hst', galoisW08RegionMultiply, hr.1, hr.2, and_self, if_true, hb,
                  Bool.false_eq_true, if_false, Finset.sum_range_succ, hsum, hz.1, h1.1, h1.2,
                  ne_eq, not_false_eq_true, zero_add]
            | true =>
                simp only [hb, hr.1, hr.2, and_self, if_true] at hx
                simp only [hst', galoisW08RegionMultiply, hr.1, hr.2, and_self, if_true, hb, hx,
                  Finset.sum_range_succ, h1.1, h1.2, ne_eq, not_false_eq_true, add_assoc]
          · simp only [hst', galoisW08RegionMultiply, if_neg hr, hx]
            rw [if_neg (fun hc => hr ⟨hc.1, hc.2.1⟩), if_neg (fun hc => hr ⟨hc.1, hc.2.1⟩)]
        · rw [hst']
          simp only [Bool.true_eq_false, false_iff, not_and, not_forall]
          intro _
          exact ⟨n, by omega, by tauto⟩
      · have hst' : st = st₁ := by simp [hst, dotprodRest, h1]
        refine ⟨fun x => ?_, ?_⟩
        · have hx := hinv x
          simp [hst', Finset.sum_range_succ, h1, hx]
        · rw [hst', hinit]
          constructor
          · rintro ⟨hf, hz⟩
            refine ⟨hf, fun i hi => ?_⟩
            rcases Nat.lt_succ_iff_lt_or_eq.1 hi with hlt | rfl
            · exact hz i hlt
            · tauto
          · rintro ⟨hf, hz⟩
            exact ⟨hf, fun i hi => hz i (by omega)⟩

/-- In range, a dot product with a coefficient that is not zero is the sum of the multiples; a row
of zeros leaves the destination alone. -/
theorem jerasureMatrixDotprod_apply (k : Nat) (row : Nat → Int) (data : Nat → Buf) (dptr : Buf)
    {size x : Int} (h0 : 0 ≤ x) (hx : x < size) :
    jerasureMatrixDotprod k row data dptr size x =
      if ∀ i < k, row i = 0 then dptr x
      else ∑ i ∈ Finset.range k, GF256.ofInt (row i) * data i x := by
  obtain ⟨hinv₁, hinit₁⟩ := dotprodOnes_spec row data size dptr k
  obtain ⟨hinv₂, hinit₂⟩ := dotprodRest_spec row data hinv₁ k
  rw [jerasureMatrixDotprod, hinv₂ x]
  generalize (List.range k).foldl (dotprodOnes row data size) (false, dptr) = st₁ at *
  generalize (List.range k).foldl (dotprodRest row data size) st₁ = st₂ at *
  by_cases hz : ∀ i < k, row i = 0
  · have hf₁ : st₁.1 = false := hinit₁.2 fun i hi => by
      rw [hz i hi]
      decide
    have hf₂ : st₂.1 = false := hinit₂.2 ⟨hf₁, fun i hi => Or.inl (hz i hi)⟩
    rw [if_neg (by simp [hf₂]), if_pos hz]
  · have ht₂ : st₂.1 = true := by
      by_contra hne
      have hf₂ : st₂.1 = false := by simpa using hne
      obtain ⟨hf₁, hall⟩ := hinit₂.1 hf₂
      refine hz fun i hi => ?_
      rcases hall i hi with h | h
      · exact h
      · exact absurd h (hinit₁.1 hf₁ i hi)
    rw [if_pos ⟨h0, hx, ht₂⟩, if_neg hz]
    -- The two passes split every summand between them.
    have hones : (if st₁.1 = true then ∑ i ∈ Finset.range k, (if row i = 1 then data i x else 0)
        else 0) = ∑ i ∈ Finset.range k, (if row i = 1 then data i x else 0) := by
      by_cases hb : st₁.1 = true
      · rw [if_pos hb]
      · rw [if_neg hb]
        have hno := hinit₁.1 (by simpa using hb)
        exact (Finset.sum_eq_zero fun i hi => if_neg (hno i (Finset.mem_range.1 hi))).symm
    simp only [hones, ← Finset.sum_add_distrib]
    refine Finset.sum_congr rfl fun i _ => ?_
    by_cases h1 : row i = 1
    · simp [h1]
    · by_cases hzero : row i = 0
      · simp [hzero]
      · simp [h1, hzero]

/-- Beyond its size a dot product leaves the destination alone. -/
theorem jerasureMatrixDotprod_of_not_mem (k : Nat) (row : Nat → Int) (data : Nat → Buf)
    (dptr : Buf) {size x : Int} (hx : ¬ (0 ≤ x ∧ x < size)) :
    jerasureMatrixDotprod k row data dptr size x = dptr x := by
  obtain ⟨hinv₁, _⟩ := dotprodOnes_spec row data size dptr k
  obtain ⟨hinv₂, _⟩ := dotprodRest_spec row data hinv₁ k
  rw [jerasureMatrixDotprod, hinv₂ x, if_neg]
  exact fun hc => hx ⟨hc.1, hc.2.1⟩

/-! ## Encoding -/

theorem jerasureMatrixEncode_apply {k m : Nat} {matrix : Nat → Int} {data coding : Nat → Buf}
    {size x : Int} (h0 : 0 ≤ x) (hx : x < size) {i : Nat} (hi : i < m) :
    jerasureMatrixEncode k m matrix data coding size i x =
      if ∀ j < k, matrix (i * k + j) = 0 then coding i x
      else ∑ j ∈ Finset.range k, GF256.ofInt (matrix (i * k + j)) * data j x := by
  rw [jerasureMatrixEncode, if_pos hi, jerasureMatrixDotprod_apply _ _ _ _ h0 hx]

/-- Over a destination of zeros a row of zeros makes no difference. -/
theorem jerasureMatrixEncode_zeros {k m : Nat} {matrix : Nat → Int} {data : Nat → Buf}
    {size x : Int} (h0 : 0 ≤ x) (hx : x < size) {i : Nat} (hi : i < m) :
    jerasureMatrixEncode k m matrix data (fun _ => zeros) size i x =
      ∑ j ∈ Finset.range k, GF256.ofInt (matrix (i * k + j)) * data j x := by
  rw [jerasureMatrixEncode_apply h0 hx hi]
  by_cases hz : ∀ j < k, matrix (i * k + j) = 0
  · rw [if_pos hz]
    refine (Finset.sum_eq_zero fun j hj => ?_).symm
    rw [hz j (Finset.mem_range.1 hj), GF256.ofInt_zero, zero_mul]
  · rw [if_neg hz]

/-- With coefficients one the regions are xored. -/
theorem jerasureMatrixEncode_ones {k : Nat} {data : Nat → Buf} {size x : Int} (h0 : 0 ≤ x)
    (hx : x < size) :
    jerasureMatrixEncode k 1 (fun _ => 1) data (fun _ => zeros) size 0 x =
      ∑ j ∈ Finset.range k, data j x := by
  rw [jerasureMatrixEncode_zeros h0 hx Nat.zero_lt_one]
  simp

end CoRD
