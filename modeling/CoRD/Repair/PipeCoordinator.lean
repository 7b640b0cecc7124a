import CoRD.Repair.Command
import CoRD.Util.Bisect

/-!
# PipeCoordinator — the commands of a single-block pipeline

`requestHandler` looks for the requestor among the helpers of the stripe.  If it finds it there, the
requestor gets a command of its own and leaves the stripe, and a flag in `ecK` tells the helpers
that are left.  The low byte of `ecK` counts the helpers.

A command is kept as the fields that the worker decodes.  The helpers come in the order of the
stripe; choosing a path by the weights of the links is left out.
-/

namespace CoRD

open Std

namespace Pipe

/-! ## The handler -/

/-- `Coordinator::isRequestorHolder`; the code gives -1 for no position. -/
def isRequestorHolder (stripe : List (Nat × Str)) (requestorIP : Nat) : Option Nat :=
  match Bisect.search (fun i => (stripe.getD i (0, [])).1) requestorIP 0 (stripe.length - 1) with
  | .hit mid => some mid
  | .stop sid => if (stripe.getD sid (0, [])).1 = requestorIP then some sid else none
  -- here `eid` is -1, and the entry at zero is larger
  | .below => none

section Commands

variable (requestorIP : Nat) (filename : Str) (coef : TreeMap Str GF256)
  (stripe : List (Nat × Str))

/-- The command for a requestor that is a helper. -/
def holderCmd (rHolder : Nat) : PipeCmd :=
  let helper := stripe.getD rHolder (0, [])
  { ecK := 0x010000
    requestorIP := requestorIP
    prevIP := requestorIP
    nextIP := 0
    id := 0x010000
    coefficient := coef.getD helper.2 0
    lostBlkName := filename
    localBlkName := helper.2 }

/-- The command for helper `i`. -/
def helperCmd (ecK i : Nat) : PipeCmd :=
  let helper := stripe.getD i (0, [])
  { ecK := ecK
    requestorIP := requestorIP
    prevIP := (if i = 0 then stripe.getD (ecK - 1) (0, []) else stripe.getD (i - 1) (0, [])).1
    nextIP := (if i = (ecK &&& 0xff) - 1 then stripe.getD 0 (0, [])
      else stripe.getD (i + 1) (0, [])).1
    id := i
    coefficient := coef.getD helper.2 0
    lostBlkName := filename
    localBlkName := helper.2 }

/-- The positions of the stripe that the command for helper `i` is built from. -/
def indices (ecK i : Nat) : List Nat :=
  [if i = 0 then ecK - 1 else i - 1, if i = (ecK &&& 0xff) - 1 then 0 else i + 1, i]

/-- The commands for the helpers, with their nodes. -/
def helperCmds (ecK : Nat) : List (Nat × PipeCmd) :=
  (List.range (ecK &&& 0xff)).map fun i =>
    ((stripe.getD i (0, [])).1, helperCmd requestorIP filename coef stripe ecK i)

end Commands

/-- `Coordinator::setupCyclReply` for a single block, as words; it gives up when a helper is
missing. -/
def setupCyclReply (ecK reqIP : Nat) (stripe : List (Nat × Str)) : Option (List Nat) :=
  let numOfFIP := ecK - 1
  if numOfFIP ≠ stripe.length - 1 then none
  else some (numOfFIP :: ((stripe.take numOfFIP).map Prod.fst ++ [reqIP]))

/-- What a request leads to: the commands with their nodes, the helpers that are left in the stripe,
the `ecK` in their commands, and the words of the reply unless the coordinator gives up. -/
structure Handled where
  cmds : List (Nat × PipeCmd)
  stripe : List (Nat × Str)
  ecK : Nat
  reply : Option (List Nat)

/-- `PipeCoordinator::requestHandler`, from the stripe and its coefficients on; `basic` says whether
the policy has `basic` in its name. -/
def requestHandler (confK : Nat) (basic : Bool) (requestorIP : Nat) (filename : Str)
    (coef : TreeMap Str GF256) (stripe : List (Nat × Str)) : Option Handled :=
  let stripe := if confK < stripe.length then stripe.take confK else stripe
  let reply := fun stripe : List (Nat × Str) =>
    if basic then some [(stripe.getLastD (0, [])).1] else setupCyclReply confK requestorIP stripe
  if stripe.isEmpty ∨ stripe.length < confK then none
  else
    match isRequestorHolder stripe requestorIP with
    | some rHolder =>
        let rest := stripe.eraseIdx rHolder
        -- the flag makes the last helper push under `tmp:`, for the worker of the requestor
        let ecK := rest.length ||| 0x0100
        some
          { cmds := (requestorIP, holderCmd requestorIP filename coef stripe rHolder) ::
              helperCmds requestorIP filename coef rest ecK
            stripe := rest
            ecK := ecK
            reply := reply rest }
    | none =>
        let ecK := stripe.length
        some
          { cmds := helperCmds requestorIP filename coef stripe ecK
            stripe := stripe
            ecK := ecK
            reply := reply stripe }

/-! ## Requestors that are no helpers -/

variable {stripe : List (Nat × Str)} {requestorIP : Nat}

/-- What is found is the requestor, at its position. -/
theorem isRequestorHolder_eq_some (hpos : stripe ≠ []) {i : Nat} :
    isRequestorHolder stripe requestorIP = some i →
      i < stripe.length ∧ (stripe.getD i (0, [])).1 = requestorIP := by
  intro h
  have hlength := List.length_pos_of_ne_nil hpos
  have hbounds : ∀ i, (Bisect.search (fun i => (stripe.getD i (0, [])).1) requestorIP 0
      (stripe.length - 1)).At i → 0 ≤ i ∧ i ≤ max 0 (stripe.length - 1) :=
    fun _ => Bisect.search_bounds
  unfold isRequestorHolder at h
  split at h
  case h_1 mid heq =>
    cases h
    have hlt := (hbounds i (by rw [heq]; rfl)).2
    exact ⟨by omega, Bisect.eq_of_search_hit heq⟩
  case h_2 sid heq =>
    split at h
    · rename_i hsid
      cases h
      have hlt := (hbounds i (by rw [heq]; rfl)).2
      exact ⟨by omega, hsid⟩
    · cases h
  case h_3 =>
    cases h

/-- A requestor that is no helper is not found. -/
theorem isRequestorHolder_eq_none (hpos : stripe ≠ []) :
    requestorIP ∉ stripe.map Prod.fst → isRequestorHolder stripe requestorIP = none := by
  intro hnot
  cases h : isRequestorHolder stripe requestorIP with
  | none => rfl
  | some i =>
      obtain ⟨hi, heq⟩ := isRequestorHolder_eq_some hpos h
      rw [List.getD_eq_getElem?_getD, List.getElem?_eq_getElem hi] at heq
      exact absurd (heq ▸ List.mem_map_of_mem (List.getElem_mem hi)) hnot

/-- In a stripe in ascending order every requestor that is a helper is found. -/
theorem isRequestorHolder_isSome (hasc : (stripe.map Prod.fst).Pairwise (· < ·)) :
    requestorIP ∈ stripe.map Prod.fst → (isRequestorHolder stripe requestorIP).isSome = true := by
  intro hmem
  obtain ⟨n, hn, hget⟩ := List.getElem_of_mem hmem
  rw [List.length_map] at hn
  have hentry : ∀ i < stripe.length, (stripe.map Prod.fst)[i]? =
      some (stripe.getD i (0, [])).1 := by
    intro i hi
    simp [List.getD_eq_getElem?_getD, hi]
  have hlt : ∀ i j, 0 ≤ i → i < j → j ≤ stripe.length - 1 →
      (stripe.getD i (0, [])).1 < (stripe.getD j (0, [])).1 := by
    intro i j _ hij hj
    have hi' := List.getElem?_eq_some_iff.1 (hentry i (by omega))
    have hj' := List.getElem?_eq_some_iff.1 (hentry j (by omega))
    rcases hi' with ⟨hi', hi⟩
    rcases hj' with ⟨hj', hj⟩
    rw [← hi, ← hj]
    exact List.pairwise_iff_getElem.1 hasc i j hi' hj' hij
  have hn' : (stripe.getD n (0, [])).1 = requestorIP := by
    have hsome := hentry n hn
    rw [List.getElem?_eq_getElem (by simpa using hn), hget] at hsome
    exact (Option.some.inj hsome).symm
  have hat := Bisect.search_of_ascending hlt n (Nat.zero_le n) (by omega)
  rw [hn'] at hat
  unfold isRequestorHolder
  split
  · rfl
  · rename_i sid heq
    rw [heq] at hat
    obtain rfl : sid = n := hat
    rw [if_pos hn']
    rfl
  · rename_i heq
    rw [heq] at hat
    exact hat.elim

end Pipe

end CoRD
