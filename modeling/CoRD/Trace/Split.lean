import CoRD.Trace.Log

/-!
# Split — what the pieces of a request cover

Each piece is the part of the request in its block (`global_start`, `global_end`), so every KB of the
request is in the piece of its own block and in no other.  A request that ends where a block ends
still gets a piece in the next block: an empty one, for which the log gains a block that the request
does not touch.
-/

namespace CoRD

/-- The global range of a piece: its block's first KB is `blk * blocksize`. -/
def globalRange (blocksize : Nat) (p : Nat × StartEnd) : Nat × Nat :=
  (p.1 * blocksize + p.2.1, p.1 * blocksize + p.2.2)

/-- KB `x` is in the piece. -/
def InPiece (blocksize x : Nat) (p : Nat × StartEnd) : Prop :=
  (globalRange blocksize p).1 ≤ x ∧ x < (globalRange blocksize p).2

instance (blocksize x : Nat) (p : Nat × StartEnd) : Decidable (InPiece blocksize x p) :=
  inferInstanceAs (Decidable (_ ∧ _))

/-- KB `x` is in the request. -/
def Request.Has (r : Request) (x : Nat) : Prop :=
  r.offset ≤ x ∧ x < r.offset + r.updateSize

/-- The pieces are ranges inside their blocks that cut the request up, and the log gains no block
that the request does not touch. -/
structure SplitRight (conf : Config) (r : Request) : Prop where
  in_block : ∀ p ∈ pieces conf.blocksize r, p.2.1 < p.2.2 ∧ p.2.2 ≤ conf.blocksize
  once : ∀ x, r.Has x → ∃! p, p ∈ pieces conf.blocksize r ∧ InPiece conf.blocksize x p
  inside : ∀ x, ∀ p ∈ pieces conf.blocksize r, InPiece conf.blocksize x p → r.Has x
  touched : ∀ (log : Log) (g : Nat), g ∈ (log.addRequest conf r).gloBlkId2startEnd →
    g ∈ log.gloBlkId2startEnd ∨ ∃ x, r.Has x ∧ x / conf.blocksize = g

/-! ## One piece -/

section Piece

variable {blocksize : Nat} {r : Request} {i : Nat}

/-- The four branches in one: both ends depend on one test each. -/
theorem startEnd_eq (blocksize : Nat) (r : Request) (i : Nat) :
    startEnd blocksize r i =
      (if i = startBlkId blocksize r then r.offset % blocksize else 0,
        if i = endBlkId blocksize r then (r.offset + r.updateSize) % blocksize else blocksize) := by
  unfold startEnd
  by_cases hstart : i = startBlkId blocksize r
  · by_cases hend : i = endBlkId blocksize r
    · simp [← hstart, ← hend]
    · simp [hstart, hstart ▸ hend]
  · by_cases hend : i = endBlkId blocksize r
    · simp [hend, hend ▸ hstart]
    · simp [hstart, hend]

/-- The piece starts with the request or with the block, whichever is later. -/
theorem global_start (hbs : 0 < blocksize) (hi : i ∈ gloBlkIds blocksize r) :
    (globalRange blocksize (i, startEnd blocksize r i)).1 = max r.offset (i * blocksize) := by
  have hle := (mem_gloBlkIds.1 hi).1
  show i * blocksize + (startEnd blocksize r i).1 = max r.offset (i * blocksize)
  rw [startEnd_eq]
  by_cases hstart : i = startBlkId blocksize r
  · have hdiv : i * blocksize + r.offset % blocksize = r.offset := by
      rw [hstart, startBlkId, Nat.mul_comm]
      exact Nat.div_add_mod _ _
    rw [if_pos hstart, hdiv, max_eq_left]
    exact Nat.le.intro hdiv
  · -- a later block lies behind the offset
    rw [if_neg hstart, Nat.add_zero, max_eq_right]
    apply le_of_lt
    apply (Nat.div_lt_iff_lt_mul hbs).1
    exact lt_of_le_of_ne hle (Ne.symm hstart)

/-- The piece ends with the request or with the block, whichever is earlier. -/
theorem global_end (hbs : 0 < blocksize) (hi : i ∈ gloBlkIds blocksize r) :
    (globalRange blocksize (i, startEnd blocksize r i)).2 =
      min (r.offset + r.updateSize) ((i + 1) * blocksize) := by
  have hle := (mem_gloBlkIds.1 hi).2
  show i * blocksize + (startEnd blocksize r i).2 = _
  rw [startEnd_eq]
  by_cases hend : i = endBlkId blocksize r
  · have hdiv : i * blocksize + (r.offset + r.updateSize) % blocksize =
        r.offset + r.updateSize := by
      rw [hend, endBlkId, Nat.mul_comm]
      exact Nat.div_add_mod _ _
    have hmod := Nat.mod_lt (r.offset + r.updateSize) hbs
    rw [if_pos hend, hdiv, min_eq_left]
    rw [Nat.add_mul, Nat.one_mul]
    omega
  · rw [if_neg hend, min_eq_right]
    · rw [Nat.add_mul, Nat.one_mul]
    · -- the request reaches into a later block
      apply (Nat.le_div_iff_mul_le hbs).1
      exact lt_of_le_of_ne hle hend

/-- A piece holds what the request has in its block. -/
theorem inPiece_iff (hbs : 0 < blocksize) (hi : i ∈ gloBlkIds blocksize r) {x : Nat} :
    InPiece blocksize x (i, startEnd blocksize r i) ↔ r.Has x ∧ x / blocksize = i := by
  rw [InPiece, global_start hbs hi, global_end hbs hi, Request.Has, Nat.div_eq_iff hbs]
  constructor
  · intro h
    have hlow := max_le_iff.1 h.1
    have hhigh := lt_min_iff.1 h.2
    exact ⟨⟨hlow.1, hhigh.1⟩, hlow.2, by rw [Nat.add_mul] at hhigh; omega⟩
  · intro h
    refine ⟨max_le h.1.1 h.2.1, lt_min h.1.2 ?_⟩
    rw [Nat.add_mul]
    omega

/-- Every KB of a request is in one of the blocks of the loop. -/
theorem div_mem_gloBlkIds {x : Nat} (hx : r.Has x) : x / blocksize ∈ gloBlkIds blocksize r := by
  apply mem_gloBlkIds.2
  exact ⟨Nat.div_le_div_right hx.1, Nat.div_le_div_right hx.2.le⟩

/-- The last piece is the only one that may be empty. -/
theorem startEnd_lt (hbs : 0 < blocksize) (r : Request) (i : Nat)
    (hmod : (r.offset + r.updateSize) % blocksize ≠ 0) :
    (startEnd blocksize r i).1 < (startEnd blocksize r i).2 := by
  have hoff := Nat.mod_lt r.offset hbs
  by_cases hstart : i = startBlkId blocksize r
  · by_cases hend : i = endBlkId blocksize r
    · have hlt := offset_mod_lt (hstart.symm.trans hend)
      rw [startEnd_eq, if_pos hstart, if_pos hend]
      exact hlt
    · rw [startEnd_eq, if_pos hstart, if_neg hend]
      exact hoff
  · by_cases hend : i = endBlkId blocksize r
    · rw [startEnd_eq, if_neg hstart, if_pos hend]
      exact Nat.pos_of_ne_zero hmod
    · rw [startEnd_eq, if_neg hstart, if_neg hend]
      exact hbs

/-- At the end of a block, the piece in the next block is empty. -/
theorem startEnd_endBlkId (hmod : (r.offset + r.updateSize) % blocksize = 0) :
    (startEnd blocksize r (endBlkId blocksize r)).2 = 0 := by
  rw [startEnd_eq, if_pos rfl, hmod]

end Piece

/-! ## The whole request -/

section Whole

variable {conf : Config} {r : Request}

theorem addRequest_mem_range {log : Log} {g : Nat} :
    g ∈ (log.addRequest conf r).gloBlkId2startEnd ↔
      g ∈ log.gloBlkId2startEnd ∨ g ∈ gloBlkIds conf.blocksize r := by
  have hpieces : ∀ ps : List (Nat × StartEnd),
      g ∈ (ps.foldl (Log.addPiece conf.ecK) log).gloBlkId2startEnd ↔
        g ∈ log.gloBlkId2startEnd ∨ g ∈ ps.map Prod.fst := by
    intro ps
    induction ps using List.reverseRecOn with
    | nil =>
        simp
    | append_singleton ps p ih =>
        rw [List.foldl_concat, addPiece_mem_range, ih]
        simp only [List.map_append, List.map_cons, List.map_nil, List.mem_append,
          List.mem_singleton]
        tauto
  rw [Log.addRequest, hpieces, map_fst_pieces]

/-- A request is split right exactly when it does not end where a block ends. -/
theorem splitRight_iff (hbs : 0 < conf.blocksize) (r : Request) :
    SplitRight conf r ↔ (r.offset + r.updateSize) % conf.blocksize ≠ 0 := by
  constructor
  · intro h hmod
    have hlast := mem_gloBlkIds.2 ⟨startBlkId_le_endBlkId conf.blocksize r, le_refl _⟩
    have hpiece : (endBlkId conf.blocksize r,
        startEnd conf.blocksize r (endBlkId conf.blocksize r)) ∈ pieces conf.blocksize r :=
      mem_pieces.2 ⟨hlast, rfl⟩
    have hlt : (startEnd conf.blocksize r (endBlkId conf.blocksize r)).1 <
        (startEnd conf.blocksize r (endBlkId conf.blocksize r)).2 := (h.in_block _ hpiece).1
    rw [startEnd_endBlkId hmod] at hlt
    exact Nat.not_lt_zero _ hlt
  · intro hmod
    constructor
    case in_block =>
      intro p hp
      have hp' := mem_pieces.1 hp
      rw [hp'.2]
      exact ⟨startEnd_lt hbs r p.1 hmod, (startEnd_le_blocksize hbs r p.1).2⟩
    case once =>
      intro x hx
      have hmem : x / conf.blocksize ∈ gloBlkIds conf.blocksize r := div_mem_gloBlkIds hx
      refine ⟨(x / conf.blocksize, startEnd conf.blocksize r (x / conf.blocksize)), ?_, ?_⟩
      · exact ⟨mem_pieces.2 ⟨hmem, rfl⟩, (inPiece_iff hbs hmem).2 ⟨hx, rfl⟩⟩
      · intro p hp
        have hp' := mem_pieces.1 hp.1
        have heq : p = (p.1, startEnd conf.blocksize r p.1) := Prod.ext rfl hp'.2
        have hin := hp.2
        rw [heq, inPiece_iff hbs hp'.1] at hin
        rw [heq, hin.2]
    case inside =>
      intro x p hp hin
      have hp' := mem_pieces.1 hp
      have heq : p = (p.1, startEnd conf.blocksize r p.1) := Prod.ext rfl hp'.2
      rw [heq] at hin
      exact ((inPiece_iff hbs hp'.1).1 hin).1
    case touched =>
      intro log g hg
      apply (addRequest_mem_range.1 hg).imp_right
      intro hmem
      -- the piece in the block is not empty, so its first KB is a KB of the request
      have hlt := startEnd_lt hbs r g hmod
      refine ⟨g * conf.blocksize + (startEnd conf.blocksize r g).1,
        (inPiece_iff hbs hmem).1 ⟨le_refl _, ?_⟩⟩
      exact Nat.add_lt_add_left hlt _

/-- Blocks of four KB. -/
theorem four_le_INT_MAX : ((4 : Nat) : Int) ≤ INT_MAX := by decide

def quadConf : Config := ⟨2, 3, 4, four_le_INT_MAX⟩

/-- A request that starts and ends inside a block. -/
theorem splitRight_quad : 0 < quadConf.blocksize ∧ SplitRight quadConf ⟨2, 9, Nat.succ_pos 8⟩ :=
  ⟨by decide, (splitRight_iff (by decide) ⟨2, 9, Nat.succ_pos 8⟩).2 (by decide)⟩

/-- A request that ends with its block is entered in the next block too. -/
theorem not_splitRight_quad : ¬ SplitRight quadConf ⟨0, 4, Nat.succ_pos 3⟩ := by
  intro h
  have hpiece : ((1, (0, 0)) : Nat × StartEnd) ∈ pieces quadConf.blocksize ⟨0, 4, Nat.succ_pos 3⟩ :=
    by decide
  exact absurd (h.in_block _ hpiece).1 (by decide)

end Whole

end CoRD
