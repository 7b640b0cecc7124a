import CoRD.Repair.PacketRead

/-!
# HadoopStream — the client stream for Hadoop 20

`ECPipeInputStream` hands out a repaired block that arrives packet by packet in a queue.  A call of
`read` copies bytes from the current packet, and takes a new packet whenever one is used up.

The bytes are copied to the front of the array and not to `offset`.  When a packet is used up, its
offset is reset before the two counts that follow are changed by what is left of the packet; they
are changed by a whole packet.  So after a call that starts inside a packet and reads up to its end,
the position in the block is too far on, and a call that starts inside a packet and would read on
stops too early.
-/

namespace CoRD

namespace ECPipeInputStream

/-! ## The stream -/

/-- `_packetSize` and `_packetCnt`. -/
structure Conf where
  packetSize : Nat
  packetCnt : Nat
  packetSize_lt : packetSize < 2 ^ 31
  packetCnt_lt : packetCnt < 2 ^ 31

/-- `_blockSize`; the product may wrap around. -/
def Conf.blockSize (conf : Conf) : Int :=
  toInt (conf.packetSize * conf.packetCnt : Nat)

/-- What comes through the queue. -/
structure Packets (conf : Conf) where
  packets : List (List UInt8)
  length_packets : packets.length = conf.packetCnt
  length_packet : ∀ p ∈ packets, p.length = conf.packetSize

/-- The concatenated packets. -/
def Packets.block {conf : Conf} (content : Packets conf) : List UInt8 :=
  content.packets.flatten

/-- The arguments of a call; of the array only its length matters. -/
structure Call where
  offset : Nat
  len : Nat
  bLength : Nat
  le_bLength : offset + len ≤ bLength
  bLength_lt : bLength < 2 ^ 31

/-- What the stream keeps between two calls. -/
structure State where
  content : List (List UInt8)
  currPacket : Option (List UInt8)
  currOffsetInPkt : Nat
  currOffsetInBlk : Int

/-- The current packet, or the next from the queue; when nothing more comes, `take` waits for good. -/
def State.packet (s : State) : Option (List UInt8 × State) :=
  match s.currPacket, s.content with
  | some pkt, _ => some (pkt, s)
  | none, [] => none
  | none, pkt :: content =>
      some (pkt, { s with content := content, currPacket := some pkt, currOffsetInPkt := 0 })

/-- `System.arraycopy`: the bytes, each with the place it is written to.  It throws an exception
when a place is outside. -/
def arraycopy (src : List UInt8) (srcPos bLength destPos length : Nat) :
    Option (List (UInt8 × Nat)) :=
  if srcPos + length ≤ src.length ∧ destPos + length ≤ bLength then
    some (((src.drop srcPos).take length).zipIdx destPos)
  else none

section Read

variable (conf : Conf)

/-- The loop in `read`.  It gives the count, what was written, and the new state. -/
def readLoop (bLength copied : Nat) (toRead : Int) (s : State) :
    Option (Nat × List (UInt8 × Nat) × State) :=
  if _ : toRead ≤ 0 then some (copied, [], s)
  else
    match s.packet with
    | none => none
    | some (pkt, s) =>
        let left := conf.packetSize - s.currOffsetInPkt
        -- the remainder of a division by zero is an exception
        if _ : conf.packetSize = 0 then none
        else if left ≤ toRead then
          -- from here on the offset is that of the next packet
          let currOffsetInPkt := (s.currOffsetInPkt + left) % conf.packetSize
          let behind := conf.packetSize - currOffsetInPkt
          (arraycopy pkt s.currOffsetInPkt bLength copied left).bind fun writes =>
            (readLoop bLength (copied + left) (toRead - behind)
              { s with
                currPacket := none
                currOffsetInPkt := currOffsetInPkt
                currOffsetInBlk := toInt (s.currOffsetInBlk + behind) }).map
              fun r => (r.1, writes ++ r.2.1, r.2.2)
        else
          -- `toRead` becomes zero
          (arraycopy pkt s.currOffsetInPkt bLength copied toRead.toNat).map fun writes =>
            (copied + toRead.toNat, writes,
              { s with
                currOffsetInPkt := (s.currOffsetInPkt + toRead.toNat) % conf.packetSize
                currOffsetInBlk := toInt (s.currOffsetInBlk + toRead) })
termination_by toRead.toNat
decreasing_by
  have hlt : currOffsetInPkt < conf.packetSize := Nat.mod_lt _ (Nat.pos_of_ne_zero ‹_›)
  simp only [currOffsetInPkt, left] at hlt ⊢
  omega

/-- `toRead` at the start. -/
def toRead (c : Call) (s : State) : Int :=
  min c.len (toInt (conf.blockSize - s.currOffsetInBlk))

def read (c : Call) (s : State) : Option (Nat × List (UInt8 × Nat) × State) :=
  readLoop conf c.bLength 0 (toRead conf c s) s

/-- The stream at the beginning. -/
def init (content : Packets conf) : State where
  content := content.packets
  currPacket := none
  currOffsetInPkt := 0
  currOffsetInBlk := 0

/-- A sequence of calls: their counts and what they wrote, and the state at the end. -/
def run : State → List Call → Option (List (Nat × List (UInt8 × Nat)) × State)
  | s, [] => some ([], s)
  | s, c :: calls =>
      (read conf c s).bind fun r =>
        (run r.2.2 calls).map fun rs => ((r.1, r.2.1) :: rs.1, rs.2)

end Read

/-! ## What the calls should do -/

section Spec

variable {conf : Conf} (content : Packets conf)

/-- The next `n` bytes of the block. -/
def bytes (pos n : Nat) : List UInt8 :=
  (content.block.drop pos).take n

/-- How much a call gets at this position. -/
def count (conf : Conf) (pos : Nat) (c : Call) : Nat :=
  min c.len (conf.packetSize * conf.packetCnt - pos)

/-- Counts and writes of calls from a position on. -/
def expected : Nat → List Call → List (Nat × List (UInt8 × Nat))
  | _, [] => []
  | pos, c :: calls =>
      let n := count conf pos c
      (n, (bytes content pos n).zipIdx c.offset) :: expected (pos + n) calls

/-- How many packets a position in the block has begun. -/
def begun (conf : Conf) (pos : Nat) : Nat :=
  (pos + (conf.packetSize - 1)) / conf.packetSize

/-- Each call writes the next bytes to its own part of the array, together they give the block, and
the packets that were begun are taken from the queue. -/
def ReadsBlock (calls : List Call) : Prop :=
  ∃ rs s, run conf (init conf content) calls = some (rs, s) ∧
    rs = expected content 0 calls ∧
    rs.flatMap (fun r => r.2.map Prod.fst) = content.block.take (calls.map Call.len).sum ∧
    s.content = content.packets.drop
      (begun conf (min (calls.map Call.len).sum (conf.packetSize * conf.packetCnt)))

/-- A call that starts on the boundary of two packets, or does not leave its packet. -/
def Straight (conf : Conf) (pos n : Nat) : Prop :=
  pos % conf.packetSize = 0 ∨ pos % conf.packetSize + n ≤ conf.packetSize

/-- How far the counted position is ahead after a call that gets `n` bytes. -/
def nextDrift (conf : Conf) (pos drift n : Nat) : Nat :=
  if pos % conf.packetSize ≠ 0 ∧ pos % conf.packetSize + n = conf.packetSize then
    drift + pos % conf.packetSize
  else drift

/-- A call that gets nothing; or its part is the front of its array, it does not go on from the
inside of a packet to the next, and by the counted position it stays inside the block. -/
def Served (conf : Conf) (pos drift : Nat) (c : Call) : Prop :=
  count conf pos c = 0 ∨
    c.offset = 0 ∧ Straight conf pos (count conf pos c) ∧
      (pos + drift + count conf pos c : Nat) ≤ conf.blockSize

/-- All calls are such, one after the other. -/
def Aligned (conf : Conf) : List Call → Nat → Nat → Prop
  | [], _, _ => True
  | c :: calls, pos, drift =>
      Served conf pos drift c ∧
        Aligned conf calls (pos + count conf pos c)
          (nextDrift conf pos drift (count conf pos c))

end Spec

/-! ## One turn of the loop -/

section Turn

variable {conf : Conf} {content : Packets conf} {bLength copied k o n pos : Nat} {s : State}

/-- Where the stream stands in the packets: between two of them, or inside of one. -/
inductive Stands (content : Packets conf) (pos : Nat) (s : State) : Prop
  | between : pos % conf.packetSize = 0 → s.currPacket = none →
      s.content = content.packets.drop (pos / conf.packetSize) → Stands content pos s
  | inside {pkt : List UInt8} : pos % conf.packetSize ≠ 0 → s.currPacket = some pkt →
      s.currOffsetInPkt = pos % conf.packetSize →
      content.packets.drop (pos / conf.packetSize) = pkt :: s.content → Stands content pos s

/-- The packet that is read next, when there is something to read. -/
structure Reads (content : Packets conf) (pos : Nat) (pkt : List UInt8) (s : State) : Prop where
  currPacket : s.currPacket = some pkt
  currOffsetInPkt : s.currOffsetInPkt = pos % conf.packetSize
  drop_eq : content.packets.drop (pos / conf.packetSize) = pkt :: s.content

theorem drop_block (k : Nat) :
    content.block.drop (conf.packetSize * k) = (content.packets.drop k).flatten := by
  have hall : ∀ (ps : List (List UInt8)) (k : Nat), (∀ p ∈ ps, p.length = conf.packetSize) →
      ps.flatten.drop (conf.packetSize * k) = (ps.drop k).flatten := by
    intro ps
    induction ps with
    | nil =>
        intro k _
        simp
    | cons p ps ih =>
        intro k hlen
        cases k with
        | zero => rfl
        | succ k =>
            have hp : p.length = conf.packetSize := hlen p List.mem_cons_self
            have hps := ih k fun q hq => hlen q (List.mem_cons_of_mem p hq)
            rw [List.flatten_cons, List.drop_succ_cons, ← hps, Nat.mul_succ, Nat.add_comm, ← hp,
              ← List.drop_drop, List.drop_left]
  exact hall content.packets k content.length_packet

theorem length_block : content.block.length = conf.packetSize * conf.packetCnt := by
  have hconst : content.packets.map List.length =
      List.replicate conf.packetCnt conf.packetSize := by
    rw [List.eq_replicate_iff, List.length_map]
    exact ⟨content.length_packets, fun n hn => by
      rcases List.mem_map.1 hn with ⟨p, hp, rfl⟩
      exact content.length_packet p hp⟩
  rw [Packets.block, List.length_flatten, hconst, List.sum_replicate, smul_eq_mul, Nat.mul_comm]

theorem length_bytes : pos + n ≤ conf.packetSize * conf.packetCnt →
    (bytes content pos n).length = n := by
  intro hle
  rw [bytes, List.length_take, List.length_drop, length_block]
  omega

theorem bytes_add (m : Nat) :
    bytes content pos (m + n) = bytes content pos m ++ bytes content (pos + m) n := by
  rw [bytes, bytes, bytes, List.take_add, List.drop_drop]

theorem zipIdx_bytes_add {m : Nat} : pos + m ≤ conf.packetSize * conf.packetCnt →
    (bytes content pos (m + n)).zipIdx copied =
      (bytes content pos m).zipIdx copied ++
        (bytes content (pos + m) n).zipIdx (copied + m) := by
  intro hle
  rw [bytes_add, List.zipIdx_append, length_bytes hle]

theorem Reads.length_pkt {pkt : List UInt8} (h : Reads content pos pkt s) :
    pkt.length = conf.packetSize := by
  have hmem : pkt ∈ content.packets.drop (pos / conf.packetSize) :=
    h.drop_eq ▸ List.mem_cons_self
  exact content.length_packet pkt (List.mem_of_mem_drop hmem)

/-- Copying from the packet writes the next bytes of the block. -/
theorem Reads.arraycopy_eq {pkt : List UInt8} (h : Reads content pos pkt s)
    (hn : pos % conf.packetSize + n ≤ conf.packetSize) :
    copied + n ≤ bLength →
      arraycopy pkt (pos % conf.packetSize) bLength copied n =
        some ((bytes content pos n).zipIdx copied) := by
  intro hcopied
  have hlen := h.length_pkt
  have hdrop : n ≤ (pkt.drop (pos % conf.packetSize)).length := by
    rw [List.length_drop, hlen]
    omega
  have hbytes : bytes content pos n = (pkt.drop (pos % conf.packetSize)).take n := by
    rw [bytes, ← Nat.div_add_mod pos conf.packetSize, ← List.drop_drop, drop_block,
      Nat.div_add_mod, h.drop_eq, List.flatten_cons,
      List.drop_append_of_le_length (by omega), List.take_append_of_le_length hdrop]
  rw [arraycopy, if_pos ⟨hlen ▸ hn, hcopied⟩, hbytes]

/-- As long as there is something to read, there is a packet. -/
theorem Stands.exists_packet (h : Stands content pos s) :
    pos < conf.packetSize * conf.packetCnt →
      ∃ pkt s', s.packet = some (pkt, s') ∧ Reads content pos pkt s' ∧
        s'.currOffsetInBlk = s.currOffsetInBlk := by
  intro hlt
  cases h with
  | between hzero hnone hcontent =>
      have hk : pos / conf.packetSize < content.packets.length := by
        rw [content.length_packets]
        exact Nat.div_lt_of_lt_mul hlt
      have hdrop := List.drop_eq_getElem_cons hk
      refine ⟨content.packets[pos / conf.packetSize],
        { s with
          content := content.packets.drop (pos / conf.packetSize + 1)
          currPacket := some content.packets[pos / conf.packetSize]
          currOffsetInPkt := 0 }, ?_, ⟨rfl, hzero.symm, hdrop⟩, rfl⟩
      simp only [State.packet, hnone, hcontent.trans hdrop]
  | inside _ hpkt hoff hdrop =>
      exact ⟨_, s, by simp only [State.packet, hpkt], ⟨hpkt, hoff, hdrop⟩, rfl⟩

theorem readLoop_nonpos {t : Int} : t ≤ 0 →
    readLoop conf bLength copied t s = some (copied, [], s) := by
  intro ht
  rw [readLoop, dif_pos ht]

/-- The turn does not use up its packet, and is the last. -/
theorem readLoop_part (h : Stands content pos s) (hn : 0 < n)
    (hpart : pos % conf.packetSize + n < conf.packetSize)
    (hlt : pos < conf.packetSize * conf.packetCnt) :
    copied + n ≤ bLength → ∃ s',
      readLoop conf bLength copied n s =
        some (copied + n, (bytes content pos n).zipIdx copied, s') ∧
      Stands content (pos + n) s' ∧ s'.currOffsetInBlk = toInt (s.currOffsetInBlk + n) := by
  intro hcopied
  rcases h.exists_packet hlt with ⟨pkt, s', hpkt, hreads, hblk⟩
  have hread : ¬ (n : Int) ≤ 0 := by omega
  have hsize : conf.packetSize ≠ 0 := by omega
  have hleft : ¬ ((conf.packetSize - pos % conf.packetSize : Nat) : Int) ≤ n := by omega
  rw [readLoop, dif_neg hread]
  simp only [hpkt, hreads.currOffsetInPkt, dif_neg hsize, if_neg hleft, Int.toNat_natCast,
    hreads.arraycopy_eq hpart.le hcopied, Option.map_some, hblk]
  refine ⟨_, rfl, ?_, rfl⟩
  -- the packet stays the same
  have hmod : (pos + n) % conf.packetSize = pos % conf.packetSize + n := by
    rw [← Nat.mod_add_mod, Nat.mod_eq_of_lt hpart]
  have hdiv : (pos + n) / conf.packetSize = pos / conf.packetSize := by
    have hold := Nat.div_add_mod pos conf.packetSize
    have hnew := Nat.div_add_mod (pos + n) conf.packetSize
    rw [hmod] at hnew
    exact Nat.eq_of_mul_eq_mul_left (Nat.pos_of_ne_zero hsize) (by omega)
  refine .inside (hmod ▸ by omega) hreads.currPacket ?_ (hdiv ▸ hreads.drop_eq)
  rw [hmod, Nat.mod_eq_of_lt hpart]

/-- The turn uses up its packet.  Both counts change by a whole packet. -/
theorem readLoop_rest (bLength copied : Nat) (h : Stands content pos s) {t : Int} (ht : 0 < t)
    (hlt : pos < conf.packetSize * conf.packetCnt)
    (hrest : ((conf.packetSize - pos % conf.packetSize : Nat) : Int) ≤ t) :
    copied + (conf.packetSize - pos % conf.packetSize) ≤ bLength → ∃ s',
      readLoop conf bLength copied t s =
        (readLoop conf bLength (copied + (conf.packetSize - pos % conf.packetSize))
          (t - conf.packetSize) s').map
            (fun r => (r.1, (bytes content pos
              (conf.packetSize - pos % conf.packetSize)).zipIdx copied ++ r.2.1, r.2.2)) ∧
      Stands content (pos + (conf.packetSize - pos % conf.packetSize)) s' ∧
      s'.currOffsetInBlk = toInt (s.currOffsetInBlk + conf.packetSize) := by
  intro hcopied
  rcases h.exists_packet hlt with ⟨pkt, s', hpkt, hreads, hblk⟩
  have hpos : 0 < conf.packetSize := Nat.pos_of_mul_pos_right (Nat.zero_lt_of_lt hlt)
  have hadd : pos % conf.packetSize + (conf.packetSize - pos % conf.packetSize) =
      conf.packetSize := Nat.add_sub_of_le (Nat.mod_lt pos hpos).le
  have hread : ¬ t ≤ 0 := not_le.2 ht
  rw [readLoop, dif_neg hread]
  simp only [hpkt, hreads.currOffsetInPkt, dif_neg hpos.ne', if_pos hrest,
    hreads.arraycopy_eq hadd.le hcopied, Option.bind_some, hblk, hadd, Nat.mod_self, Nat.sub_zero]
  refine ⟨_, rfl, ?_, rfl⟩
  have hnext : pos + (conf.packetSize - pos % conf.packetSize) =
      conf.packetSize * (pos / conf.packetSize + 1) := by
    have hdiv := Nat.div_add_mod pos conf.packetSize
    rw [Nat.mul_succ]
    omega
  rw [hnext]
  refine .between (Nat.mul_mod_right _ _) rfl ?_
  rw [Nat.mul_div_cancel_left _ hpos, ← List.tail_drop, hreads.drop_eq, List.tail_cons]

end Turn

/-! ## The loop -/

section Loop

variable {conf : Conf} {content : Packets conf} {bLength copied n pos drift : Nat} {s : State}

theorem toInt_toInt_add (x y : Int) : toInt (toInt x + y) = toInt (x + y) :=
  Int.bmod_add_bmod

/-- From the boundary of two packets on, both counts stay right. -/
theorem readLoop_between (bLength copied : Nat) (h : Stands content pos s) {x : Int} (hx : s.currOffsetInBlk = toInt x)
    (hpos : pos % conf.packetSize = 0) (hle : pos + n ≤ conf.packetSize * conf.packetCnt) :
    copied + n ≤ bLength → ∃ s',
      readLoop conf bLength copied n s =
        some (copied + n, (bytes content pos n).zipIdx copied, s') ∧
      Stands content (pos + n) s' ∧ s'.currOffsetInBlk = toInt (x + n) := by
  -- the induction is on what is left to read: a turn takes a packet of it, or is the last
  induction n using Nat.strong_induction_on generalizing copied pos s x with
  | _ n ih =>
      intro hcopied
      rcases Nat.eq_zero_or_pos n with rfl | hn
      · exact ⟨s, readLoop_nonpos le_rfl, h, by rw [hx, Int.natCast_zero, add_zero]⟩
      · rcases Nat.lt_or_ge n conf.packetSize with hpart | hrest
        · rcases readLoop_part h hn (by omega) (by omega) hcopied with ⟨s', hrun, hstands, hblk⟩
          exact ⟨s', hrun, hstands, by rw [hblk, hx, toInt_toInt_add]⟩
        · rcases Nat.exists_eq_add_of_le hrest with ⟨m, rfl⟩
          have hleft : conf.packetSize - pos % conf.packetSize = conf.packetSize := by omega
          have hsize : 0 < conf.packetSize := by
            refine Nat.pos_of_ne_zero fun h0 => ?_
            rw [h0, Nat.zero_mul] at hle
            omega
          rcases readLoop_rest bLength copied h (t := (conf.packetSize + m : Nat)) (by omega)
            (by omega) (by omega) (by omega) with ⟨s₁, hturn, hstands, hblk⟩
          have hm : ((conf.packetSize + m : Nat) : Int) - conf.packetSize = m := by omega
          rw [hleft, hm] at hturn
          rw [hleft] at hstands
          rw [hx, toInt_toInt_add] at hblk
          rcases ih m (by omega) (copied + conf.packetSize) hstands hblk
            (by rw [Nat.add_mod_right, hpos]) (by omega) (by omega)
            with ⟨s₂, hrun, hstands₂, hblk₂⟩
          rw [hrun, Option.map_some, ← zipIdx_bytes_add (by omega)] at hturn
          refine ⟨s₂, ?_, ?_, ?_⟩
          · rwa [Nat.add_assoc] at hturn
          · rwa [Nat.add_assoc] at hstands₂
          · rw [hblk₂, Int.natCast_add, add_assoc]

/-- From the inside of a packet as well, up to its end.  Then the counted position is ahead. -/
theorem readLoop_straight (bLength copied : Nat) (h : Stands content pos s)
    (hblk : s.currOffsetInBlk = toInt (pos + drift : Nat)) (hn : 0 < n)
    (hstraight : Straight conf pos n) (hle : pos + n ≤ conf.packetSize * conf.packetCnt) :
    copied + n ≤ bLength → ∃ s',
      readLoop conf bLength copied n s =
        some (copied + n, (bytes content pos n).zipIdx copied, s') ∧
      Stands content (pos + n) s' ∧
      s'.currOffsetInBlk = toInt (pos + n + nextDrift conf pos drift n : Nat) := by
  intro hcopied
  by_cases hzero : pos % conf.packetSize = 0
  · have hsame : nextDrift conf pos drift n = drift := if_neg fun hdrift => hdrift.1 hzero
    rcases readLoop_between bLength copied h hblk hzero hle hcopied with ⟨s', hrun, hstands, hblk'⟩
    refine ⟨s', hrun, hstands, ?_⟩
    rw [hblk', hsame, ← Int.natCast_add, Nat.add_right_comm]
  · have hinside : pos % conf.packetSize + n ≤ conf.packetSize := hstraight.resolve_left hzero
    rcases hinside.lt_or_eq with hpart | hrest
    · have hsame : nextDrift conf pos drift n = drift := if_neg fun hdrift => hpart.ne hdrift.2
      rcases readLoop_part h hn hpart (by omega) hcopied with ⟨s', hrun, hstands, hblk'⟩
      refine ⟨s', hrun, hstands, ?_⟩
      rw [hblk', hblk, toInt_toInt_add, hsame, ← Int.natCast_add, Nat.add_right_comm]
    · have hahead : nextDrift conf pos drift n = drift + pos % conf.packetSize :=
        if_pos ⟨hzero, hrest⟩
      have hleft : conf.packetSize - pos % conf.packetSize = n := by omega
      rcases readLoop_rest bLength copied h (t := n) (by omega) (by omega) (by omega) (by omega)
        with ⟨s', hturn, hstands, hblk'⟩
      rw [hleft] at hturn hstands
      -- less than a packet was left to read, so nothing remains
      rw [readLoop_nonpos (t := (n : Int) - conf.packetSize) (by omega), Option.map_some, List.append_nil] at hturn
      refine ⟨s', hturn, hstands, ?_⟩
      rw [hblk', hblk, toInt_toInt_add, hahead, ← Int.natCast_add]
      congr 2
      omega

/-- From the inside of a packet across its end, less than what was asked for is read. -/
theorem readLoop_across (bLength copied : Nat) (h : Stands content pos s)
    (hblk : s.currOffsetInBlk = toInt (pos + drift : Nat)) (hacross : ¬ Straight conf pos n)
    (hle : pos + n ≤ conf.packetSize * conf.packetCnt) :
    copied + n ≤ bLength → ∃ m writes s',
      readLoop conf bLength copied n s = some (copied + m, writes, s') ∧ m < n := by
  intro hcopied
  rcases not_or.1 hacross with ⟨hinside, hend⟩
  have hpos : 0 < conf.packetSize := Nat.pos_of_ne_zero fun h0 => by
    rw [h0, Nat.mod_zero] at hinside
    rw [h0, Nat.zero_mul] at hle
    omega
  have hlt := Nat.mod_lt pos hpos
  rcases readLoop_rest bLength copied h (t := n) (by omega) (by omega) (by omega) (by omega)
    with ⟨s₁, hturn, hstands, hblk₁⟩
  rcases Nat.lt_or_ge conf.packetSize n with hmore | hless
  · have hsub : (n : Int) - conf.packetSize = (n - conf.packetSize : Nat) := by omega
    rw [hblk, toInt_toInt_add] at hblk₁
    have hboundary : (pos + (conf.packetSize - pos % conf.packetSize)) % conf.packetSize = 0 := by
      rw [← Nat.mod_add_mod, Nat.add_sub_of_le hlt.le, Nat.mod_self]
    rcases readLoop_between (n := n - conf.packetSize) bLength
      (copied + (conf.packetSize - pos % conf.packetSize)) hstands hblk₁ hboundary (by omega)
      (by omega) with ⟨s₂, hrun, -, -⟩
    rw [hsub, hrun, Option.map_some, Nat.add_assoc] at hturn
    exact ⟨_, _, _, hturn, by omega⟩
  · rw [readLoop_nonpos (t := (n : Int) - conf.packetSize) (by omega), Option.map_some] at hturn
    exact ⟨_, _, _, hturn, by omega⟩

end Loop

/-! ## A call -/

section Call

variable {conf : Conf} {content : Packets conf} {pos drift : Nat} {s : State} {c : Call}

/-- Between two calls the counted position may be ahead. -/
structure Consistent (content : Packets conf) (pos drift : Nat) (s : State) : Prop where
  stands : Stands content pos s
  le : pos ≤ conf.packetSize * conf.packetCnt
  currOffsetInBlk : s.currOffsetInBlk = toInt (pos + drift : Nat)
  ge : -2 ^ 31 ≤ conf.blockSize - (pos + drift : Nat)

theorem blockSize_le (conf : Conf) : conf.blockSize ≤ (conf.packetSize * conf.packetCnt : Nat) := by
  rw [Conf.blockSize, toInt, Int.bmod_def]
  omega

theorem blockSize_lt (conf : Conf) : conf.blockSize < 2 ^ 31 := by
  rw [Conf.blockSize, toInt, Int.bmod_def]
  omega

/-- The difference to the block size does not wrap around. -/
theorem Consistent.toRead_eq (h : Consistent content pos drift s) :
    toRead conf c s = min (c.len : Int) (conf.blockSize - (pos + drift : Nat)) := by
  have hge := h.ge
  have hlt := blockSize_lt conf
  have hsub : toInt (conf.blockSize - toInt (pos + drift : Nat)) =
      toInt (conf.blockSize - (pos + drift : Nat)) := Int.sub_bmod_bmod
  rw [toRead, h.currOffsetInBlk, hsub, toInt, Int.bmod_def]
  omega

/-- What a call reads stays inside the block and the array. -/
theorem Consistent.toNat_toRead_le (h : Consistent content pos drift s) :
    (toRead conf c s).toNat ≤ c.bLength ∧ (toRead conf c s).toNat ≤ count conf pos c := by
  have hc := c.le_bLength
  have hle := blockSize_le conf
  rw [h.toRead_eq, count]
  omega

theorem Consistent.count_le (h : Consistent content pos drift s) :
    pos + count conf pos c ≤ conf.packetSize * conf.packetCnt := by
  have hle := h.le
  rw [count]
  omega

theorem nextDrift_zero : nextDrift conf pos drift 0 = drift := by
  refine if_neg fun hdrift => ?_
  rcases hdrift with ⟨hinside, hend⟩
  rw [Nat.add_zero] at hend
  have hpos : 0 < conf.packetSize := hend ▸ Nat.pos_of_ne_zero hinside
  exact (Nat.mod_lt pos hpos).ne hend

theorem nextDrift_le {n : Nat} : nextDrift conf pos drift n ≤ drift + conf.packetSize := by
  rw [nextDrift]
  split <;> omega

theorem straight_zero : pos ≤ conf.packetSize * conf.packetCnt → Straight conf pos 0 := by
  intro hle
  rcases Nat.eq_zero_or_pos conf.packetSize with h0 | hpos
  · rw [h0, Nat.zero_mul, Nat.le_zero] at hle
    exact Or.inl (by rw [hle, Nat.zero_mod])
  · exact Or.inr (Nat.mod_lt pos hpos).le

/-- A call that stays straight for what it reads. -/
theorem Consistent.read_straight {n : Nat} (h : Consistent content pos drift s)
    (hn : (toRead conf c s).toNat = n) : Straight conf pos n → ∃ s',
      read conf c s = some (n, (bytes content pos n).zipIdx 0, s') ∧
        Consistent content (pos + n) (nextDrift conf pos drift n) s' := by
  intro hstraight
  have hbounds := h.toNat_toRead_le (c := c)
  have hcount := h.count_le (c := c)
  have htoRead := h.toRead_eq (c := c)
  rw [read]
  rcases Nat.eq_zero_or_pos n with rfl | hpos
  · exact ⟨s, readLoop_nonpos (Int.toNat_eq_zero.1 hn), nextDrift_zero.symm ▸ h⟩
  · have hread : toRead conf c s = n := by omega
    have hle : pos + n ≤ conf.packetSize * conf.packetCnt := by omega
    rcases readLoop_straight c.bLength 0 h.stands h.currOffsetInBlk hpos hstraight hle
      (by omega) with ⟨s', hrun, hstands, hblk⟩
    rw [Nat.zero_add] at hrun
    refine ⟨s', hread ▸ hrun, hstands, hle, hblk, ?_⟩
    -- the counted position is less than a packet behind the end of the block
    have hblock : (n : Int) ≤ conf.blockSize - (pos + drift : Nat) := by
      rw [← hread, htoRead]
      exact min_le_right _ _
    have hahead : (nextDrift conf pos drift n : Int) ≤ drift + conf.packetSize :=
      mod_cast nextDrift_le
    have hsize : (conf.packetSize : Int) < 2 ^ 31 := mod_cast conf.packetSize_lt
    push_cast at hblock ⊢
    linarith

/-- A call that would go on from the inside of a packet to the next. -/
theorem Consistent.read_across {n : Nat} (h : Consistent content pos drift s)
    (hn : (toRead conf c s).toNat = n) : ¬ Straight conf pos n → ∃ m writes s',
      read conf c s = some (m, writes, s') ∧ m < n := by
  intro hacross
  have hbounds := h.toNat_toRead_le (c := c)
  have hcount := h.count_le (c := c)
  have hpos : 0 < n := Nat.pos_of_ne_zero fun h0 => hacross (h0 ▸ straight_zero h.le)
  have hread : toRead conf c s = n := by omega
  rcases readLoop_across c.bLength 0 h.stands h.currOffsetInBlk hacross (by omega)
    (by omega) with ⟨m, writes, s', hrun, hm⟩
  rw [Nat.zero_add] at hrun
  rw [← hread] at hrun
  exact ⟨m, writes, s', hrun, hm⟩

/-- What a call reads is what it should get just when the counted position stays inside the block. -/
theorem Consistent.toNat_toRead_eq_iff (h : Consistent content pos drift s)
    (hpos : 0 < count conf pos c) : (toRead conf c s).toNat = count conf pos c ↔
      (pos + drift + count conf pos c : Nat) ≤ conf.blockSize := by
  have hbounds := h.toNat_toRead_le (c := c)
  have htoRead := h.toRead_eq (c := c)
  have hlen : count conf pos c ≤ c.len := min_le_left _ _
  generalize conf.blockSize = size at *
  omega

theorem Consistent.read_of_served (h : Consistent content pos drift s) :
    Served conf pos drift c → ∃ s',
      read conf c s = some (count conf pos c,
        (bytes content pos (count conf pos c)).zipIdx c.offset, s') ∧
      Consistent content (pos + count conf pos c) (nextDrift conf pos drift (count conf pos c))
        s' := by
  intro hserved
  rcases Nat.eq_zero_or_pos (count conf pos c) with hzero | hpos
  · have hn : (toRead conf c s).toNat = 0 := Nat.le_zero.1 (hzero ▸ h.toNat_toRead_le.2)
    rcases h.read_straight hn (straight_zero h.le) with ⟨s', hrun, hnext⟩
    rw [hzero]
    exact ⟨s', hrun, hnext⟩
  · rcases hserved.resolve_left hpos.ne' with ⟨hoffset, hstraight, hblock⟩
    rw [hoffset]
    exact h.read_straight ((h.toNat_toRead_eq_iff hpos).2 hblock) hstraight

theorem zipIdx_injective {α : Type} {xs : List α} {i j : Nat} (hxs : xs ≠ []) :
    xs.zipIdx i = xs.zipIdx j → i = j := by
  intro h
  cases xs with
  | nil => exact absurd rfl hxs
  | cons x xs =>
      rw [List.zipIdx_cons, List.zipIdx_cons, List.cons.injEq, Prod.mk.injEq] at h
      exact h.1.2

theorem Consistent.served_of_read (h : Consistent content pos drift s) {s' : State} :
    read conf c s = some (count conf pos c,
      (bytes content pos (count conf pos c)).zipIdx c.offset, s') → Served conf pos drift c := by
  intro hread
  refine or_iff_not_imp_left.2 fun hzero => ?_
  have hpos : 0 < count conf pos c := Nat.pos_of_ne_zero hzero
  have hle := (h.toNat_toRead_le (c := c)).2
  by_cases hstraight : Straight conf pos (toRead conf c s).toNat
  · rcases h.read_straight rfl hstraight with ⟨s₁, hrun, -⟩
    rw [hread, Option.some.injEq, Prod.mk.injEq, Prod.mk.injEq] at hrun
    rcases hrun with ⟨hcount, hwrites, -⟩
    rw [← hcount] at hstraight hwrites
    refine ⟨?_, hstraight, (h.toNat_toRead_eq_iff hpos).1 hcount.symm⟩
    refine zipIdx_injective (List.ne_nil_of_length_pos ?_) hwrites
    rw [length_bytes h.count_le]
    exact hpos
  · rcases h.read_across rfl hstraight with ⟨m, writes, s₁, hrun, hm⟩
    rw [hread, Option.some.injEq, Prod.mk.injEq] at hrun
    exact absurd hrun.1 (hm.trans_le hle).ne'

end Call

/-! ## A sequence of calls -/

section Run

variable {conf : Conf} {content : Packets conf} {pos drift : Nat} {s : State}

theorem run_of_aligned (calls : List Call) (h : Consistent content pos drift s) :
    Aligned conf calls pos drift → ∃ s' drift',
      run conf s calls = some (expected content pos calls, s') ∧
        Consistent content
          (min (pos + (calls.map Call.len).sum) (conf.packetSize * conf.packetCnt)) drift' s' := by
  intro haligned
  induction calls generalizing pos drift s with
  | nil =>
      refine ⟨s, drift, rfl, ?_⟩
      rw [List.map_nil, List.sum_nil, Nat.add_zero, Nat.min_eq_left h.le]
      exact h
  | cons c calls ih =>
      rcases haligned with ⟨hserved, hrest⟩
      rcases h.read_of_served hserved with ⟨s₁, hread, h₁⟩
      rcases ih h₁ hrest with ⟨s₂, drift₂, hrun, h₂⟩
      have hpos : min (pos + count conf pos c + (calls.map Call.len).sum)
          (conf.packetSize * conf.packetCnt) =
            min (pos + ((c :: calls).map Call.len).sum) (conf.packetSize * conf.packetCnt) := by
        have hle := h.le
        rw [List.map_cons, List.sum_cons, count]
        omega
      refine ⟨s₂, drift₂, ?_, hpos ▸ h₂⟩
      simp only [run, hread, Option.bind_some, hrun, Option.map_some, expected]

theorem aligned_of_run (calls : List Call) (h : Consistent content pos drift s) {s' : State} :
    run conf s calls = some (expected content pos calls, s') → Aligned conf calls pos drift := by
  intro hrun
  induction calls generalizing pos drift s with
  | nil => trivial
  | cons c calls ih =>
      simp only [run, Option.bind_eq_some_iff, Option.map_eq_some_iff, expected,
        Prod.mk.injEq, List.cons.injEq] at hrun
      rcases hrun with ⟨⟨n, writes, s₁⟩, hread, ⟨rs, s₂⟩, hcalls, ⟨⟨hn, hwrites⟩, hrs⟩, rfl⟩
      simp only at hn hwrites hrs hcalls
      subst hn hwrites hrs
      have hserved : Served conf pos drift c := h.served_of_read hread
      rcases h.read_of_served hserved with ⟨s₃, hread', hnext⟩
      rw [hread, Option.some.injEq, Prod.mk.injEq, Prod.mk.injEq] at hread'
      rcases hread' with ⟨-, -, rfl⟩
      exact ⟨hserved, ih hnext hcalls⟩

theorem consistent_init : Consistent content 0 0 (init conf content) where
  stands := .between (Nat.zero_mod _) rfl (by rw [Nat.zero_div]; rfl)
  le := Nat.zero_le _
  currOffsetInBlk := rfl
  ge := by
    rw [Conf.blockSize, toInt, Int.bmod_def]
    omega

theorem Consistent.content_eq (h : Consistent content pos drift s) :
    s.content = content.packets.drop (begun conf pos) := by
  have hdiv := Nat.div_add_mod pos conf.packetSize
  cases h.stands with
  | between hzero hnone hcontent =>
      have hbegun : begun conf pos = pos / conf.packetSize := by
        rw [begun]
        rcases Nat.eq_zero_or_pos conf.packetSize with h0 | hpos
        · rw [h0, Nat.div_zero, Nat.div_zero]
        · rw [hzero, Nat.add_zero] at hdiv
          rw [← hdiv, Nat.mul_add_div hpos, Nat.mul_div_cancel_left _ hpos,
            Nat.div_eq_of_lt (Nat.sub_lt hpos Nat.one_pos), Nat.add_zero]
      rw [hcontent, hbegun]
  | inside hinside hpkt hoff hdrop =>
      have hbegun : begun conf pos = pos / conf.packetSize + 1 := by
        have hpos : 0 < conf.packetSize := Nat.pos_of_ne_zero fun h0 => by
          have hle := h.le
          rw [h0, Nat.zero_mul, Nat.le_zero] at hle
          exact hinside (by rw [hle, Nat.zero_mod])
        have hlt := Nat.mod_lt pos hpos
        have hnext : pos + (conf.packetSize - 1) =
            conf.packetSize * (pos / conf.packetSize + 1) + (pos % conf.packetSize - 1) := by
          rw [Nat.mul_succ]
          omega
        have hsmall : (pos % conf.packetSize - 1) / conf.packetSize = 0 :=
          Nat.div_eq_of_lt (by omega)
        rw [begun, hnext, Nat.mul_add_div hpos, hsmall, Nat.add_zero]
      rw [hbegun, ← List.tail_drop, hdrop, List.tail_cons]

/-- What is expected of the calls adds up to the block. -/
theorem flatMap_expected (calls : List Call) : pos ≤ conf.packetSize * conf.packetCnt →
    (expected content pos calls).flatMap (fun r => r.2.map Prod.fst) =
      bytes content pos (calls.map Call.len).sum := by
  intro hpos
  induction calls generalizing pos with
  | nil => rw [List.map_nil, List.sum_nil, bytes, List.take_zero]; rfl
  | cons c calls ih =>
      have hle : pos + count conf pos c ≤ conf.packetSize * conf.packetCnt := by
        rw [count]
        omega
      rw [expected, List.flatMap_cons, ih hle, List.zipIdx_map_fst, List.map_cons, List.sum_cons]
      rcases Nat.le_total c.len (conf.packetSize * conf.packetCnt - pos) with hlen | hend
      · rw [count, Nat.min_eq_left hlen, bytes_add]
      · -- the block is at its end
        have hall : pos + count conf pos c = content.block.length := by
          rw [count, Nat.min_eq_right hend, length_block]
          omega
        have hrest : (content.block.drop pos).length = count conf pos c := by
          rw [List.length_drop, ← hall, Nat.add_sub_cancel_left]
        have hlong : count conf pos c ≤ c.len := min_le_left _ _
        rw [bytes, bytes, bytes, hall, List.drop_length, List.take_nil, List.append_nil,
          List.take_of_length_le hrest.le, List.take_of_length_le (by omega)]

theorem readsBlock_of_aligned (calls : List Call) :
    Aligned conf calls 0 0 → ReadsBlock content calls := by
  intro haligned
  rcases run_of_aligned calls consistent_init haligned with ⟨s, drift, hrun, hs⟩
  rw [Nat.zero_add] at hs
  refine ⟨_, s, hrun, rfl, ?_, hs.content_eq⟩
  rw [flatMap_expected calls (Nat.zero_le _), bytes, List.drop_zero]

/-- The calls read the block just when each of them gets nothing, or writes to the front of its
array, does not go on from the inside of a packet to the next, and stays inside the block by the
counted position. -/
theorem readsBlock_iff (content : Packets conf) (calls : List Call) :
    ReadsBlock content calls ↔ Aligned conf calls 0 0 := by
  constructor
  · rintro ⟨rs, s, hrun, rfl, -, -⟩
    exact aligned_of_run calls consistent_init hrun
  · exact readsBlock_of_aligned calls

/-- Two packets of four bytes are read by a call for three bytes and a call for five.  The second
call gets two bytes. -/
theorem not_readsBlock_across : ¬ ∀ (conf : Conf) (content : Packets conf) (calls : List Call),
    ReadsBlock content calls := by
  intro hall
  let conf : Conf := ⟨4, 2, by decide, by decide⟩
  let content : Packets conf := ⟨[[0, 1, 2, 3], [4, 5, 6, 7]], rfl, by decide⟩
  let calls : List Call :=
    [⟨0, 3, 3, by decide, by decide⟩, ⟨0, 5, 5, by decide, by decide⟩]
  rcases hall conf content calls with ⟨rs, s, hrun, rfl, -, -⟩
  rcases (aligned_of_run calls consistent_init hrun).2.1 with hzero | ⟨-, hstraight, -⟩
  · exact absurd hzero (by decide)
  · rcases hstraight with hboundary | hinside
    · exact absurd hboundary (by decide)
    · exact absurd hinside (by decide)

/-- Calls for whole packets that write to the front of their arrays read the block. -/
theorem readsBlock_of_dvd (hsize : conf.packetSize * conf.packetCnt < 2 ^ 31) (calls : List Call) :
    (∀ c ∈ calls, c.offset = 0 ∧ conf.packetSize ∣ c.len) → ReadsBlock content calls := by
  intro hcalls
  refine readsBlock_of_aligned calls ?_
  have hblock : conf.blockSize = (conf.packetSize * conf.packetCnt : Nat) :=
    toInt_natCast_eq_iff.2 hsize
  -- the position stays on the boundaries, so the counted position is never ahead
  have haligned : ∀ pos ≤ conf.packetSize * conf.packetCnt, conf.packetSize ∣ pos →
      Aligned conf calls pos 0 := by
    induction calls with
    | nil => exact fun pos _ _ => trivial
    | cons c calls ih =>
        intro pos hle hpos
        rcases hcalls c List.mem_cons_self with ⟨hoffset, hlen⟩
        have hmod : pos % conf.packetSize = 0 := Nat.mod_eq_zero_of_dvd hpos
        have hle' : pos + count conf pos c ≤ conf.packetSize * conf.packetCnt := by
          rw [count]
          omega
        have hcount : conf.packetSize ∣ count conf pos c := by
          rcases min_choice c.len (conf.packetSize * conf.packetCnt - pos) with hmin | hmin
          · rwa [count, hmin]
          · rw [count, hmin]
            exact Nat.dvd_sub (Nat.dvd_mul_right _ _) hpos
        have hdrift : nextDrift conf pos 0 (count conf pos c) = 0 :=
          if_neg fun h => h.1 hmod
        refine ⟨Or.inr ⟨hoffset, Or.inl hmod, ?_⟩, ?_⟩
        · rw [hblock, Nat.add_zero]
          exact_mod_cast hle'
        · rw [hdrift]
          exact ih (fun d hd => hcalls d (List.mem_cons_of_mem c hd)) _ hle'
            (Nat.dvd_add hpos hcount)
  exact haligned 0 (Nat.zero_le _) (dvd_zero _)

end Run

end ECPipeInputStream

end CoRD
