import CoRD.Repair.DRWorker

/-!
# PassiveReceiver — a node that is sent its lost block

A passive receiver that is sent one command fetches the packets of one block, writes them in the
order in which they come, and pushes its notice when it has written as many as a block has.  It
takes a bounded number of steps, and waits for nothing but the command and the packets.
-/

namespace CoRD

open Lists (Event)

section Receives

variable {Cmd : Type} {conf : PacketConfig} {localIP : Nat} {c : PassiveCmd}
  {es : List (Event Nat ListKey (ListMsg Cmd))} {s : PassiveState Cmd}

/-- Where a receiver of the command `c` is, and what it has popped and pushed. -/
inductive Receives (conf : PacketConfig) (localIP : Nat) (c : PassiveCmd)
    (es : List (Event Nat ListKey (ListMsg Cmd))) (s : PassiveState Cmd) : Prop where
  | waiting (hstate : s = .waiting) (hevents : es = [])
  | fetching (n : Nat) (answers written : List (ListMsg Cmd))
      (hstate : s = .fetching c n answers written)
      (hcmd : Lists.popped localIP .drPassive es = [.passive c])
      (happended : n ≤ conf.packetCnt) (hanswered : answers.length ≤ n)
      (hwritten : written <+: answers)
      (hpopped : Lists.popped c.prevIP (.blk c.lostBlkName) es = answers)
      (hpushed : Lists.pushes es = [])
      (hlength : es.length = 1 + n + answers.length + written.length)
  | finished (hstate : s = .waiting)
      (hcmd : Lists.popped localIP .drPassive es = [.passive c])
      (hpopped : (Lists.popped c.prevIP (.blk c.lostBlkName) es).length = conf.packetCnt)
      (hpushed : Lists.pushes es =
        [(c.reqIP, .frEnd c.lostBlkName, .frEnd localIP c.lostBlkName)])
      (hlength : es.length = 2 + 3 * conf.packetCnt)

/-- No more packets are popped than a block has. -/
theorem Receives.popped_length_le (h : Receives conf localIP c es s) :
    (Lists.popped c.prevIP (.blk c.lostBlkName) es).length ≤ conf.packetCnt := by
  cases h with
  | waiting hstate hevents =>
      subst hevents
      exact Nat.zero_le _
  | fetching n answers written hstate hcmd happended hanswered hwritten hpopped =>
      rw [hpopped]
      exact Nat.le_trans hanswered happended
  | finished hstate hcmd hpopped => exact Nat.le_of_eq hpopped

/-- A receiver ends. -/
theorem Receives.length_le (h : Receives conf localIP c es s) :
    es.length ≤ 2 + 3 * conf.packetCnt := by
  cases h with
  | waiting hstate hevents =>
      subst hevents
      exact Nat.zero_le _
  | fetching n answers written hstate hcmd happended hanswered hwritten hpopped hpushed hlength =>
      have hle := hwritten.length_le
      omega
  | finished hstate hcmd hpopped hpushed hlength => exact Nat.le_of_eq hlength

end Receives

end CoRD
