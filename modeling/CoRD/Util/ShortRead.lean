import Mathlib.Data.List.Basic
import Mathlib.Algebra.Order.Ring.Int
import Mathlib.Tactic.Ring

/-!
# ShortRead — loops over reads that may be short

A read at an offset gives some of the elements that were asked for, at least one.  A loop asks again
until its buffer is full, and after `r` elements it asks at an offset that depends on `r`.  Whatever
the file and the way in which the reads are split, the loop gives the elements from `pos` on just
when it asks for the right offset each time.

A `fill` is the loop around it, which goes through buffers until one cannot be filled or it is told
to stop.
-/

namespace ShortRead

variable {α β : Type}

/-- `n` elements at an offset, if they are there. -/
def pread (file : List α) (offset : Int) (n : Nat) : Option (List α) :=
  if 0 ≤ offset ∧ offset.toNat + n ≤ file.length then some ((file.drop offset.toNat).take n)
  else none

/-- What a loop puts into its buffer, when the reads give `ns` elements. -/
def readLoop (file : List α) (ask : Nat → Int) : List Nat → Nat → Option (List α)
  | [], _ => some []
  | n :: ns, readLen => do
      let piece ← pread file (ask readLen) n
      let rest ← readLoop file ask ns (readLen + n)
      return piece ++ rest

/-- A way to split a read. -/
structure IsSplit (size : Nat) (ns : List Nat) : Prop where
  pos : ∀ n ∈ ns, 0 < n
  sum : ns.sum = size

theorem isSplit_ones (size : Nat) : IsSplit size (List.replicate size 1) where
  pos := by
    intro n hn
    rw [List.eq_of_mem_replicate hn]
    exact Nat.one_pos
  sum := by
    rw [List.sum_replicate_nat, Nat.mul_one]

theorem pread_natCast {file : List α} {pos n : Nat} (h : pos + n ≤ file.length) :
    pread file pos n = some ((file.drop pos).take n) := by
  rw [pread, if_pos ⟨Int.natCast_nonneg pos, by rwa [Int.toNat_natCast]⟩, Int.toNat_natCast]

/-- The loop goes on where it has stopped. -/
theorem readLoop_eq {file : List α} {ask : Nat → Int} {pos size : Nat}
    (hask : ∀ r < size, ask r = pos + r) (hfile : pos + size ≤ file.length) (ns : List Nat)
    {readLen : Nat} (hpos : ∀ n ∈ ns, 0 < n) (hsum : readLen + ns.sum = size) :
    readLoop file ask ns readLen = some ((file.drop (pos + readLen)).take ns.sum) := by
  induction ns generalizing readLen with
  | nil =>
      simp [readLoop]
  | cons n ns ih =>
      rw [List.sum_cons] at hsum
      have hn := hpos n List.mem_cons_self
      have hoffset : ask readLen = ((pos + readLen : Nat) : Int) := by
        rw [hask readLen (by omega), Int.natCast_add]
      have hrest : readLoop file ask ns (readLen + n) =
          some ((file.drop (pos + (readLen + n))).take ns.sum) :=
        ih (fun m hm => hpos m (List.mem_cons_of_mem _ hm)) (by omega)
      rw [readLoop, hoffset, pread_natCast (by omega), hrest, List.sum_cons]
      simp only [Option.bind_eq_bind, Option.bind_some, Option.pure_def, Option.some.injEq]
      calc
        (file.drop (pos + readLen)).take n ++ (file.drop (pos + (readLen + n))).take ns.sum
            = (file.drop (pos + readLen)).take n ++
                ((file.drop (pos + readLen)).drop n).take ns.sum := by
              rw [List.drop_drop, Nat.add_assoc]
        _ = (file.drop (pos + readLen)).take (n + ns.sum) := List.take_add.symm

/-- One element after the other. -/
theorem getElem?_readLoop_ones {file buf : List α} {ask : Nat → Int} {n readLen r : Nat}
    (hbuf : readLoop file ask (List.replicate n 1) readLen = some buf) (hr : r < n) :
    0 ≤ ask (readLen + r) ∧ buf[r]? = file[(ask (readLen + r)).toNat]? := by
  -- each turn reads one byte; the first is read here, the others in the rest of the loop
  induction n generalizing readLen r buf with
  | zero =>
      exact absurd hr (Nat.not_lt_zero r)
  | succ n ih =>
      rw [List.replicate_succ, readLoop] at hbuf
      rcases Option.bind_eq_some_iff.1 hbuf with ⟨piece, hpiece, hbuf⟩
      rcases Option.bind_eq_some_iff.1 hbuf with ⟨rest, hrest, hbuf⟩
      cases hbuf
      rw [pread] at hpiece
      split at hpiece
      case isFalse =>
        cases hpiece
      case isTrue hin =>
        cases hpiece
        have hlen : ((file.drop (ask readLen).toNat).take 1).length = 1 := by
          rw [List.length_take, List.length_drop]
          omega
        cases r with
        | zero =>
            refine ⟨hin.1, ?_⟩
            rw [List.getElem?_append_left (by rw [hlen]; exact Nat.one_pos),
              List.getElem?_take_of_lt Nat.one_pos, List.getElem?_drop]
            rfl
        | succ r =>
            have hnext := ih hrest (Nat.lt_of_succ_lt_succ hr)
            rw [List.getElem?_append_right (by rw [hlen]; exact Nat.succ_le_succ (Nat.zero_le r)),
              hlen, Nat.add_sub_cancel, Nat.add_right_comm, Nat.add_assoc] at *
            exact hnext

/-- A file in which one element can be told from the others. -/
def marked (x y : α) (length p : Nat) : List α :=
  (List.replicate length x).set p y

/-- A loop that reads right asks for the right offsets. -/
theorem ask_eq_of_readLoop {x y : α} (hxy : x ≠ y) {ask : Nat → Int} {pos size length r : Nat}
    (hr : r < size) (hlength : pos + size ≤ length)
    (hread : readLoop (marked x y length (pos + r)) ask (List.replicate size 1) 0 =
      some (((marked x y length (pos + r)).drop pos).take size)) :
    ask r = pos + r := by
  have hlt : pos + r < length := by omega
  have hget := getElem?_readLoop_ones hread hr
  rw [Nat.zero_add, List.getElem?_take_of_lt hr, List.getElem?_drop] at hget
  have hmark : (marked x y length (pos + r))[pos + r]? = some y := by
    rw [marked, List.getElem?_set_self (by rwa [List.length_replicate])]
  have hasked := hget.2.symm.trans hmark
  by_cases hne : (ask r).toNat = pos + r
  · have hnonneg := hget.1
    omega
  · rw [marked, List.getElem?_set_ne (Ne.symm hne)] at hasked
    have hmem := List.eq_of_mem_replicate (List.mem_of_getElem? hasked)
    exact absurd hmem.symm hxy

/-! ## Buffer after buffer -/

/-- The buffers that are filled in the turns from `i` on. -/
def fill (read : Nat → Option β) (stops : Nat → Bool) : Nat → Nat → List β
  | 0, _ => []
  | n + 1, i =>
      match read i with
      | none => []
      | some buf => buf :: if stops i then [] else fill read stops n (i + 1)

/-- Without a stop, all turns that read are there. -/
theorem getElem?_fill_of_forall {read : Nat → Option β} {stops : Nat → Bool} {n i t : Nat}
    (ht : t < n) (hread : ∀ u ≤ t, (read (i + u)).isSome)
    (hstops : ∀ u < t, stops (i + u) = false) :
    (fill read stops n i)[t]? = read (i + t) := by
  induction n generalizing i t with
  | zero =>
      exact absurd ht (Nat.not_lt_zero t)
  | succ n ih =>
      rcases Option.isSome_iff_exists.1 (hread 0 (Nat.zero_le t)) with ⟨buf, hbuf⟩
      rw [Nat.add_zero] at hbuf
      rw [fill, hbuf]
      cases t with
      | zero =>
          exact hbuf.symm
      | succ t =>
          have hstop := hstops 0 (Nat.succ_pos t)
          rw [Nat.add_zero] at hstop
          simp only [hstop, Bool.false_eq_true, if_false]
          have hnext := ih (i := i + 1) (Nat.lt_of_succ_lt_succ ht)
            (fun u hu => by
              have h := hread (u + 1) (Nat.succ_le_succ hu)
              rwa [← Nat.add_assoc, Nat.add_right_comm] at h)
            (fun u hu => by
              have h := hstops (u + 1) (Nat.succ_lt_succ hu)
              rwa [← Nat.add_assoc, Nat.add_right_comm] at h)
          rw [List.getElem?_cons_succ, hnext, Nat.add_assoc, Nat.add_comm 1 t]

/-- A turn that is there has read, and no turn before it has stopped. -/
theorem of_getElem?_fill {read : Nat → Option β} {stops : Nat → Bool} {n i t : Nat} {buf : β}
    (h : (fill read stops n i)[t]? = some buf) :
    read (i + t) = some buf ∧ ∀ u < t, stops (i + u) = false := by
  induction n generalizing i t with
  | zero =>
      cases h
  | succ n ih =>
      rw [fill] at h
      cases hread : read i with
      | none =>
          rw [hread] at h
          cases h
      | some first =>
          rw [hread] at h
          cases t with
          | zero =>
              cases h
              exact ⟨hread, fun u hu => absurd hu (Nat.not_lt_zero u)⟩
          | succ t =>
              simp only [List.getElem?_cons_succ] at h
              -- a log line that stops the loop leaves the later turns out
              cases hstop : stops i with
              | true =>
                  rw [hstop] at h
                  cases h
              | false =>
                  rw [hstop] at h
                  have hnext := ih h
                  refine ⟨?_, fun u hu => ?_⟩
                  · rw [← hnext.1, Nat.add_assoc, Nat.add_comm 1 t]
                  · cases u with
                    | zero =>
                        exact hstop
                    | succ u =>
                        have hu' := hnext.2 u (Nat.lt_of_succ_lt_succ hu)
                        rwa [Nat.add_assoc, Nat.add_comm 1 u] at hu'

/-- The loop over all turns fills each buffer with the elements from `pos t` on, whatever the file
and the splits, just when it asks for the right offsets and never stops before its last turn. -/
theorem fills_iff {x y : α} (hxy : x ≠ y) {turns size length : Nat} (ask : Nat → Nat → Int)
    (stops : Nat → Bool) {pos : Nat → Nat} (hpos : ∀ t < turns, pos t + size ≤ length) :
    (∀ file : List α, length ≤ file.length → ∀ split : Nat → List Nat,
      (∀ t, IsSplit size (split t)) → ∀ t < turns,
        (fill (fun t => readLoop file (ask t) (split t) 0) stops turns 0)[t]? =
          some ((file.drop (pos t)).take size)) ↔
      (∀ t < turns, ∀ r < size, ask t r = pos t + r) ∧
        ∀ t, t + 1 < turns → stops t = false := by
  constructor
  · intro h
    constructor
    · intro t ht r hr
      -- a file that has its one mark at the byte in question tells where the read was
      have hturn := h (marked x y length (pos t + r))
        (by rw [marked, List.length_set, List.length_replicate]) (fun _ => List.replicate size 1)
        (fun _ => isSplit_ones size) t ht
      have hread := (of_getElem?_fill hturn).1
      rw [Nat.zero_add] at hread
      exact ask_eq_of_readLoop hxy hr (hpos t ht) hread
    · intro t ht
      -- the last turn is reached only if no turn before it stops
      have hturn := h (List.replicate length x) (by rw [List.length_replicate])
        (fun _ => List.replicate size 1) (fun _ => isSplit_ones size) (t + 1) ht
      have hstop := (of_getElem?_fill hturn).2 t (Nat.lt_succ_self t)
      rwa [Nat.zero_add] at hstop
  · intro h file hfile split hsplit t ht
    have hread : ∀ u < turns, readLoop file (ask u) (split u) 0 =
        some ((file.drop (pos u)).take size) := by
      intro u hu
      have hsum := (hsplit u).sum
      have hloop : readLoop file (ask u) (split u) 0 =
          some ((file.drop (pos u + 0)).take (split u).sum) :=
        readLoop_eq (h.1 u hu) ((hpos u hu).trans hfile) (split u) (hsplit u).pos
          (by rw [Nat.zero_add, hsum])
      rwa [Nat.add_zero, hsum] at hloop
    rw [getElem?_fill_of_forall ht (fun u hu => ?_) (fun u hu => ?_), Nat.zero_add, hread t ht]
    · rw [Nat.zero_add, hread u (Nat.lt_of_le_of_lt hu ht)]
      rfl
    · rw [Nat.zero_add]
      exact h.2 u (Nat.lt_of_le_of_lt (Nat.succ_le_of_lt hu) ht)

end ShortRead
