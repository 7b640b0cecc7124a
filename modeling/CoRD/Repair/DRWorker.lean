import CoRD.Network.Lists
import CoRD.Repair.Metadata
import CoRD.Util.Buffer

/-!
# DRWorker — what the repair workers share

A block file is worked on in packets.  The workers read packets from disk, scale and xor them, and
pass them on through redis lists.  A list is named after a block, perhaps with a prefix, or holds
commands; block names do not look like such prefixed names.

The block files of all nodes are taken as one directory, since a name lies on one node.
-/

namespace CoRD

/-- What the workers read of the configuration. -/
structure PacketConfig where
  packetCnt : Nat
  packetSize : Nat
  packetSkipSize : Nat

/-! ## Names and contents of lists -/

/-- The names of the lists: `dr_cmds`, `dr_passive`, a block, `tmp:` and a block, `tmp:` with a
block and an id, `fr_end_` and a block. -/
inductive ListKey where
  | drCmds
  | drPassive
  | blk (name : Str)
  | tmp (name : Str)
  | tmpId (name : Str) (id : Nat)
  | frEnd (name : Str)
  deriving DecidableEq

/-- A command in `dr_passive`. -/
structure PassiveCmd where
  prevIP : Nat
  reqIP : Nat
  lostBlkName : Str
  deriving DecidableEq

/-- What is pushed: commands, packets, and the notice that a passive receiver is done. -/
inductive ListMsg (Cmd : Type) where
  | cmd (c : Cmd)
  | passive (c : PassiveCmd)
  | packet (bytes : List GF256)
  | frEnd (localIP : Nat) (name : Str)
  deriving DecidableEq

variable {Cmd : Type}

/-- What a worker sees at `rReply -> element[1] -> str`. -/
def ListMsg.str : ListMsg Cmd → Buf
  | .packet bytes => fun x => bytes.getD x.toNat 0
  | _ => zeros

/-! ## Packets -/

/-- `Computation::XORBuffers`: whole words of eight bytes. -/
def XORBuffers (buf1 buf2 : Buf) (length : Nat) : Buf :=
  fun x => if 0 ≤ x ∧ x < (8 * (length / 8) : Nat) then buf1 x + buf2 x else buf1 x

/-- `RSUtil::multiply(blk, mulby, size)`. -/
def RSUtil.multiply (blk : Buf) (mulby : GF256) (size : Nat) : Buf :=
  fun x => if 0 ≤ x ∧ x < size then mulby * blk x else blk x

/-- `pktOutput`: whether to log a packet, unless it divides by zero. -/
def pktOutput (pktId packetCnt : Nat) : Option Bool :=
  if pktId = 0 ∨ packetCnt ≤ pktId + 1 then some true
  else if packetCnt / 4 = 0 then none
  else some (pktId % (packetCnt / 4) = 0)

/-- Only of three packets one cannot be logged. -/
theorem pktOutput_isSome {packetCnt : Nat} (pktId : Nat) :
    packetCnt ≠ 3 → (pktOutput pktId packetCnt).isSome = true := by
  intro hthree
  unfold pktOutput
  split
  · rfl
  · rw [if_neg (by omega)]
    rfl

/-- `readPacketFromDisk(fd, content, packetSize, base)`. -/
def readPacketFromDisk (fd content : Buf) (packetSize base : Nat) : Buf :=
  memcpy content 0 (fd.advance base) packetSize

/-- Where packet `i` starts in its file. -/
def PacketConfig.base (conf : PacketConfig) (i : Nat) : Nat :=
  conf.packetSkipSize + i * conf.packetSize

/-- What `f` does when it is called with the pointer `b + off`. -/
def Buf.call (b : Buf) (off : Int) (f : Buf → Buf) : Buf :=
  fun x => f (b.advance off) (x - off)

theorem Buf.advance_call (b : Buf) (off : Int) (f : Buf → Buf) :
    (b.call off f).advance off = f (b.advance off) := by
  funext x
  simp [Buf.call]

/-- Bytes outside the range that `f` writes are kept. -/
theorem Buf.call_of_not_mem {b : Buf} {off n : Int} {f : Buf → Buf} {x : Int}
    (hf : ∀ c : Buf, ∀ y, ¬ (0 ≤ y ∧ y < n) → f c y = c y) :
    ¬ (off ≤ x ∧ x < off + n) → b.call off f x = b x := by
  intro hx
  rw [Buf.call, hf _ _ (by omega), Buf.advance_apply]
  congr 1
  omega

theorem XORBuffers_of_not_mem {buf1 buf2 : Buf} {length : Nat} {x : Int} :
    ¬ (0 ≤ x ∧ x < length) → XORBuffers buf1 buf2 length x = buf1 x := by
  intro hx
  exact if_neg (by omega)

theorem multiply_of_not_mem {blk : Buf} {mulby : GF256} {size : Nat} {x : Int} :
    ¬ (0 ≤ x ∧ x < size) → RSUtil.multiply blk mulby size x = blk x :=
  fun hx => if_neg hx

/-- Xoring the words of two packets xors the packets, if they are made of whole words. -/
theorem bytesOf_XORBuffers {buf1 buf2 : Buf} {length : Nat} (h : length % 8 = 0) :
    bytesOf (XORBuffers buf1 buf2 length) length = bytesOf (fun x => buf1 x + buf2 x) length := by
  refine bytesOf_congr fun x h0 hx => if_pos ?_
  omega

theorem bytesOf_multiply {blk : Buf} {mulby : GF256} {size : Nat} :
    bytesOf (RSUtil.multiply blk mulby size) size = bytesOf (fun x => mulby * blk x) size :=
  bytesOf_congr fun _ h0 hx => if_pos ⟨h0, hx⟩

/-- What is seen of a packet is what was pushed. -/
theorem str_packet_bytesOf {f : Buf} {n : Nat} {x : Int} (h0 : 0 ≤ x) (hx : x < n) :
    (.packet (bytesOf f n) : ListMsg Cmd).str x = f x :=
  getD_bytesOf h0 hx

/-- The byte-wise sum of two packets. -/
def PacketConfig.plus (conf : PacketConfig) (a b : ListMsg Cmd) : ListMsg Cmd :=
  .packet (bytesOf (fun x => a.str x + b.str x) conf.packetSize)

/-- A packet after `XORBuffers`. -/
def PacketConfig.xor (conf : PacketConfig) (a b : ListMsg Cmd) : ListMsg Cmd :=
  .packet (bytesOf (XORBuffers a.str b.str conf.packetSize) conf.packetSize)

/-- With packets of whole words this is the sum. -/
theorem PacketConfig.xor_eq_plus {conf : PacketConfig} (h : conf.packetSize % 8 = 0)
    (a b : ListMsg Cmd) : conf.xor a b = conf.plus a b :=
  congrArg ListMsg.packet (bytesOf_XORBuffers h)

/-- Packet `i` of a file. -/
def PacketConfig.packet (conf : PacketConfig) (file : Buf) (i : Nat) : ListMsg Cmd :=
  .packet (bytesOf (fun x => file (conf.base i + x)) conf.packetSize)

theorem PacketConfig.plus_packet (conf : PacketConfig) (f g : Buf) (i : Nat) :
    conf.plus (conf.packet f i : ListMsg Cmd) (conf.packet g i) =
      conf.packet (fun x => f x + g x) i := by
  refine congrArg ListMsg.packet (bytesOf_congr fun x h0 hx => ?_)
  rw [packet, packet, str_packet_bytesOf h0 hx, str_packet_bytesOf h0 hx]

/-! ## Passive receivers -/

/-- Where a passive receiver is: waiting for a command, or fetching a block with so many requests
sent, answers received and packets written. -/
inductive PassiveState (Cmd : Type) where
  | waiting
  | fetching (c : PassiveCmd) (appended : Nat) (answers written : List (ListMsg Cmd))

/-- One step of `DRWorker::passiveReceiver` at a node. -/
inductive PassiveStep (conf : PacketConfig) (localIP : Nat) :
    PassiveState Cmd → Lists.Event Nat ListKey (ListMsg Cmd) → PassiveState Cmd → Prop where
  | command (c : PassiveCmd) :
      PassiveStep conf localIP .waiting (.pop localIP .drPassive (.passive c)) (.fetching c 0 [] [])
  -- all requests are appended before the first answer is taken, but the server may answer earlier
  | append {c : PassiveCmd} {n : Nat} {answers written : List (ListMsg Cmd)}
      (h : n < conf.packetCnt) :
      PassiveStep conf localIP (.fetching c n answers written) .internal
        (.fetching c (n + 1) answers written)
  | answer {c : PassiveCmd} {n : Nat} {answers written : List (ListMsg Cmd)} {m : ListMsg Cmd}
      (h : answers.length < n) :
      PassiveStep conf localIP (.fetching c n answers written)
        (.pop c.prevIP (.blk c.lostBlkName) m) (.fetching c n (answers ++ [m]) written)
  -- `ofs.write`, which begins only when every request has been appended
  | write {c : PassiveCmd} {answers written : List (ListMsg Cmd)} {m : ListMsg Cmd}
      (h : answers[written.length]? = some m) :
      PassiveStep conf localIP (.fetching c conf.packetCnt answers written) .internal
        (.fetching c conf.packetCnt answers (written ++ [m]))
  | finish {c : PassiveCmd} {answers written : List (ListMsg Cmd)}
      (h : written.length = conf.packetCnt) :
      PassiveStep conf localIP (.fetching c conf.packetCnt answers written)
        (.push c.reqIP (.frEnd c.lostBlkName) (.frEnd localIP c.lostBlkName)) .waiting

/-- The command that a passive receiver works on has been popped. -/
def PassiveState.Popped (localIP : Nat) (es : List (Lists.Event Nat ListKey (ListMsg Cmd))) :
    PassiveState Cmd → Prop
  | .waiting => True
  | .fetching c _ _ _ => .pop localIP .drPassive (.passive c) ∈ es

/-- A passive receiver pops its commands and the blocks they name, and pushes only notices. -/
def PassiveUses (localIP : Nat) (es : List (Lists.Event Nat ListKey (ListMsg Cmd))) :
    Lists.Event Nat ListKey (ListMsg Cmd) → Prop
  | .internal => True
  | .pop h k _ => (h = localIP ∧ k = .drPassive) ∨
      ∃ c, .pop localIP .drPassive (.passive c) ∈ es ∧ h = c.prevIP ∧ k = .blk c.lostBlkName
  | .push _ k _ => ∃ name, k = .frEnd name

theorem PassiveUses.mono {localIP : Nat} {es es' : List (Lists.Event Nat ListKey (ListMsg Cmd))}
    {e : Lists.Event Nat ListKey (ListMsg Cmd)} (hsub : ∀ e ∈ es, e ∈ es') :
    PassiveUses localIP es e → PassiveUses localIP es' e := by
  intro h
  cases e with
  | internal => trivial
  | push h' k m => exact h
  | pop h' k m =>
      rcases h with hown | ⟨c, hc, hkey⟩
      · exact Or.inl hown
      · exact Or.inr ⟨c, hsub _ hc, hkey⟩

theorem passive_uses {conf : PacketConfig} {localIP : Nat}
    {es : List (Lists.Event Nat ListKey (ListMsg Cmd))} {s : PassiveState Cmd} :
    Lists.LocalRuns (PassiveStep conf localIP) .waiting es s →
      s.Popped localIP es ∧ ∀ e ∈ es, PassiveUses localIP es e := by
  intro hruns
  induction hruns with
  | refl =>
      exact ⟨trivial, fun e he => absurd he List.not_mem_nil⟩
  | @snoc s s' es e _ hstep ih =>
      obtain ⟨hpopped, huses⟩ := ih
      have hsub : ∀ e' ∈ es, e' ∈ es ++ [e] := fun e' he' => List.mem_append_left [e] he'
      have hlast : e ∈ es ++ [e] := List.mem_append_right es List.mem_cons_self
      have hnew : s'.Popped localIP (es ++ [e]) ∧ PassiveUses localIP (es ++ [e]) e := by
        cases hstep with
        | command c => exact ⟨hlast, Or.inl ⟨rfl, rfl⟩⟩
        | append h => exact ⟨hsub _ hpopped, trivial⟩
        | answer h => exact ⟨hsub _ hpopped, Or.inr ⟨_, hsub _ hpopped, rfl, rfl⟩⟩
        | write h => exact ⟨hsub _ hpopped, trivial⟩
        | finish h => exact ⟨trivial, _, rfl⟩
      refine ⟨hnew.1, fun e' he' => ?_⟩
      rcases List.mem_append.1 he' with hold | hsame
      · exact (huses e' hold).mono hsub
      · obtain rfl := List.mem_singleton.1 hsame
        exact hnew.2

end CoRD
