import CoRD.Repair.PPRReduction
import CoRD.Util.Keyed

/-!
# PPRRequest — from a request to the contents of the lost block

`PPRCoordinator` sends a command to each helper and one to the requestor, and the workers add the
packets up along the tree.  If the commands repair the block, what arrives at the requestor are the
packets of the lost block itself.

The workers read their blocks packet by packet from the first byte on: the skip size of the
configuration is not used.
-/

namespace CoRD

open Std

namespace PPR

section Request

open Lists (Event)
open PPRPull (Msg)

variable {conf : RackConfig} {rsu : RSUtil} {encMat : IntArr} {stripes : List (List Str)}
  {content : Str → Nat → GF256} {blkInit : List (Nat × Str)} {dir : List (Str × Str)}
  {base : MetadataBase} {s : List Str} {ip : Str → Nat} {sorter : SortRacks} {rand : Shuffle}
  {i requestorIP : Nat} {filename : Str} {cmds : List (Nat × PPRCmd)} {last : Nat × PPRCmd}
  {stripe : List (Nat × Str)} {pconf : PacketConfig} {blkDir : Str → Buf}

/-- A packet of a block. -/
def blkPacket (pconf : PacketConfig) (content : Nat → GF256) (p : Nat) : Msg :=
  .packet (bytesOf (fun x => content (p * pconf.packetSize + x.toNat)) pconf.packetSize)

/-- The commands of a request are those of a tree. -/
theorem requestHandler_eq
    (hcmds : requestHandler conf rsu sorter base rand filename requestorIP = some (cmds, last)) :
    ∃ stripe, cmds = helperCmds requestorIP filename
        (base.getCoefficient conf.toConfig rsu filename none) stripe ∧
      last = (requestorIP, requestorCmd requestorIP filename stripe) := by
  rcases Option.map_eq_some_iff.1 hcmds with ⟨ret, -, heq⟩
  injection heq with hhelpers hlast
  exact ⟨_, hhelpers.symm, hlast.symm⟩

section Store

variable (hk : 1 ≤ conf.ecK) (hkn : conf.ecK < conf.ecN) (hrsu : rsu.Decodes conf.toConfig encMat)
  (hcontent : Encoded conf.toConfig encMat stripes content)
  (hdir : IsStore conf.toConfig stripes dir)
  (hload : hdfsMetadataBase conf.toRepairConfig rsu dir blkInit = some base) (hs : s ∈ stripes)
  (hrep : Reported blkInit s ip) (hi : i < s.length)

include hk hkn hrsu hcontent hdir hload hs hrep

end Store

/-! ## What the tree adds up -/

/-- A helper's packet, scaled. -/
theorem scaled_eq {coef : TreeMap Str GF256} {c : Nat}
    (hc : c < stripe.length) (hname : (stripe.getD c (0, [])).2 ≠ []) (p : Nat) {x : Int}
    (h0 : 0 ≤ x) (hx : x < pconf.packetSize) :
    PPRPull.scaled pconf blkDir requestorIP filename coef stripe c p x =
      coef.getD (stripe.getD c (0, [])).2 0 *
        blkDir (stripe.getD c (0, [])).2 ((p * pconf.packetSize : Nat) + x) := by
  have hcmd : PPRPull.nodeCmd requestorIP filename coef stripe c =
      helperCmd requestorIP filename coef stripe c (stripe.getD c (0, [])).2 := by
    rw [PPRPull.nodeCmd, if_pos hc]
  have hown : (helperCmd requestorIP filename coef stripe c
      (stripe.getD c (0, [])).2).localBlkName ≠ [] := hname
  have hread : ∀ blk content : Buf, readPacketFromDisk blk content pconf.packetSize
      (p * pconf.packetSize) x = blk ((p * pconf.packetSize : Nat) + x) := by
    intro blk content
    rw [readPacketFromDisk, memcpy, if_pos ⟨h0, by omega⟩, Buf.advance]
    congr 1
    omega
  rw [PPRPull.scaled, hcmd, PPRPull.own, if_neg hown, PPRPull.readPkt, RSUtil.multiply,
    if_pos ⟨h0, hx⟩, hread]
  rfl

/-- Commands that repair a block add up its packets. -/
theorem sum_eq
    (hrepairs : Repairs conf rsu base content s ip filename (helperCmds requestorIP filename
      (base.getCoefficient conf.toConfig rsu filename none) stripe))
    (hnames : ∀ it ∈ stripe, it.2 ≠ [])
    (hdisk : ∀ b ∈ s, b ≠ filename → ∀ x : Int, 0 ≤ x → blkDir b x = content b x.toNat) (p : Nat) :
    PPRPull.sum pconf blkDir requestorIP filename
        (base.getCoefficient conf.toConfig rsu filename none) stripe p =
      blkPacket pconf (content filename) p := by
  refine congrArg ListMsg.packet (bytesOf_congr fun x h0 hx => ?_)
  let coef := base.getCoefficient conf.toConfig rsu filename none
  have hterm : ∀ c ∈ Finset.range stripe.length,
      PPRPull.scaled pconf blkDir requestorIP filename coef stripe c p x =
        coef.getD (stripe.getD c (0, [])).2 0 *
          content (stripe.getD c (0, [])).2 (p * pconf.packetSize + x.toNat) := by
    intro c hc
    have hc := Finset.mem_range.1 hc
    have hmem : stripe.getD c (0, []) ∈ stripe := by
      rw [List.getD_eq_getElem _ _ hc]
      exact List.getElem_mem hc
    rw [scaled_eq hc (hnames _ hmem) p h0 hx]
    -- the block of a command is that of its helper
    have hblk : ∃ c' ∈ helperCmds requestorIP filename coef stripe,
        c'.2.localBlkName = (stripe.getD c (0, [])).2 := by
      have hin := List.mem_map_of_mem (f := Prod.snd) hmem
      rw [← map_helperCmds requestorIP filename coef stripe fun _ localFile _ => localFile] at hin
      exact List.mem_map.1 hin
    rcases hblk with ⟨c', hc', heq⟩
    rcases hrepairs.survive c' hc' with ⟨hin, hne, -⟩
    rw [← heq, hdisk _ hin hne _ (by omega)]
    congr 2
    omega
  rw [Finset.sum_congr rfl hterm, Keyed.sum_range_getD (fun it : Nat × Str =>
    coef.getD it.2 0 * content it.2 (p * pconf.packetSize + x.toNat)), ← hrepairs.content]
  exact congrArg List.sum (map_helperCmds requestorIP filename coef stripe
    fun _ localFile coefficient => coefficient *
      content localFile (p * pconf.packetSize + x.toNat)).symm

/-! ## A request that is served -/

end Request

end PPR

end CoRD
