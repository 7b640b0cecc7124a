import Mathlib.Data.List.TakeWhile
import CoRD.Repair.Decoding
import CoRD.Util.Text

/-!
# QfsMetadata — the metadata of a lost chunk, from a message

A chunk server of QFS that wants a chunk repaired sends the names and the hosts of all chunks of the
stripe, parity chunks first.  `ProcessMetadata` goes through them once: it takes the first `k` that
have a host as helpers and looks for the place of the lost chunk, which is the one without a host.
The coefficients of `RSUtil` are for the first `k` rows other than the lost one, so it gives up when
it would have to take other rows.

Each message begins by clearing what the messages before have left.
-/

namespace CoRD

open Std

namespace Qfs

/-! ## Addresses and strings -/

/-- A number of a dotted address: no leading zeros, at most 255. -/
def octet (s : Str) : Option Nat :=
  let n := s.foldl (fun n c => 10 * n + (c.toNat - 48)) 0
  if s ≠ [] ∧ s.all Char.isDigit ∧ (s.head? = some '0' → s.length = 1) ∧ n ≤ 255 then some n
  else none

/-- `inet_pton(AF_INET, s, &ip)`: the word that is stored, if one is. -/
def inet_pton (s : Str) : Option Nat :=
  match s.splitOn '.' with
  | [a, b, c, d] => do
      return (← octet a) + 256 * (← octet b) + 256 ^ 2 * (← octet c) + 256 ^ 3 * (← octet d)
  | _ => none

/-- `s.substr(0, start = s.find(':'))` and then `s.substr(start + 1)`.  Without a colon `start` is
-1, and both are all of `s`. -/
def cut (s : Str) : Str × Str :=
  match Text.find [':'] s 0 with
  | some start => (Text.substr s 0 start, s.drop (start + 1))
  | none => (s, s)

/-- A name without its version. -/
def noVers (name : Str) : Str :=
  Text.beforeLast '.' name

/-! ## ProcessMetadata -/

/-- The members of `QFS_MetadataBase`, and the variables of `ProcessMetadata` that a message finds as
the one before has left them. -/
structure Metadata where
  blk2Stripe : TreeMap Str (List (Nat × Str))
  coefficient : TreeMap Str (TreeMap Str GF256)
  blkName : Str
  ip : Nat

/-- The variables of the loop over the chunks; a negative `bidInStripe` is `none`. -/
structure Collect where
  handleStr : Str
  ip : Nat
  ipAssigned : TreeSet Nat
  blk2Stripe : TreeMap Str (List (Nat × Str))
  recoveredBlks : List Str
  bidInStripe : Option Nat
  idxInStripe : Nat

section Loop

variable (ecK : Nat) (blkName : Str)

/-- The end of a turn; the second component says whether the loop goes on. -/
def note (bName : Str) (st : Collect) : Collect × Bool :=
  if noVers blkName = noVers bName then
    if st.bidInStripe = none then
      ({ st with bidInStripe := some (st.idxInStripe % 9), idxInStripe := st.idxInStripe + 1 }, true)
    else (st, false)
  else ({ st with idxInStripe := st.idxInStripe + 1 }, true)

/-- A turn, for a name and a host. -/
def chunk (bName ipStr : Str) (st : Collect) : Collect × Bool :=
  let st := if ipStr ≠ [] then { st with ip := (inet_pton ipStr).getD st.ip } else st
  if ipStr ≠ [] ∧ st.recoveredBlks.length < ecK then
    if st.ip ∉ st.ipAssigned then
      note blkName bName
        { st with
          ipAssigned := st.ipAssigned.insert st.ip
          blk2Stripe := st.blk2Stripe.insert blkName
            (st.blk2Stripe.getD blkName [] ++ [(st.ip, bName)])
          recoveredBlks := st.recoveredBlks ++ [bName] }
    else (st, false)
  else if ipStr = [] ∧ noVers blkName ≠ noVers bName then (st, false)
  else note blkName bName st

/-- A turn: the next name and host are cut off. -/
def turn (st : Collect) : Collect × Bool :=
  let name := cut st.handleStr
  let host := cut name.2
  chunk ecK blkName name.1 host.1 { st with handleStr := host.2 }

/-- The condition of the loop. -/
def GoesOn (st : Collect) : Prop :=
  st.handleStr ≠ [] ∧ (st.recoveredBlks.length < ecK ∨ st.bidInStripe = none)

instance (st : Collect) : Decidable (GoesOn ecK st) :=
  inferInstanceAs (Decidable (_ ∧ (_ ∨ _)))

/-- The loop over the chunks, for at most so many turns. -/
def collect : Nat → Collect → Option Collect
  | 0, _ => none
  | fuel + 1, st =>
      if GoesOn ecK st then
        let next := turn ecK blkName st
        if next.2 then collect fuel next.1 else some next.1
      else some st

end Loop

section Process

variable (conf : Config) (rsu : RSUtil)

/-- The block that a message is about, and what stands behind it; a C string ends at the first
zero. -/
def lostBlk (msg : Str) : Str × Str :=
  cut (msg.takeWhile (· ≠ Char.ofNat 0))

/-- Where the loop over the chunks begins. -/
def loopStart (msg : Str) (ip : Nat) : Collect :=
  let host := cut (lostBlk msg).2
  let ip := (inet_pton host.1).getD ip
  { handleStr := host.2, ip := ip, ipAssigned := (∅ : TreeSet Nat).insert ip, blk2Stripe := ∅,
    recoveredBlks := [], bidInStripe := none, idxInStripe := 0 }

/-- The members after the loop, and the answer `canRecover`. -/
def answer (blkName : Str) (coefficient : TreeMap Str (TreeMap Str GF256)) (st : Collect) :
    Metadata × Bool :=
  match st.bidInStripe, decide (st.recoveredBlks.length = conf.ecK) with
  | some bid, true =>
      let pairs := coefficientPairs (rsu.getCoefficient bid) st.recoveredBlks
      ({ blk2Stripe := st.blk2Stripe
         coefficient := coefficient.insert blkName
           (Tree.insertAll pairs (coefficient.getD blkName ∅))
         blkName := blkName
         ip := st.ip }, true)
  | _, _ =>
      ({ blk2Stripe := st.blk2Stripe.erase blkName
         coefficient := coefficient.erase blkName
         blkName := blkName
         ip := st.ip }, false)

/-- A message: the table of coefficients of the message before is cleared, and all of
`_blk2Stripe`. -/
def processMetadata (fuel : Nat) (msg : Str) (s : Metadata) : Option (Metadata × Bool) :=
  (collect conf.ecK (lostBlk msg).1 fuel (loopStart msg s.ip)).map
    (answer conf rsu (lostBlk msg).1 (s.coefficient.insert s.blkName ∅))

/-- A message is processed. -/
def Processes (msg : Str) (s s' : Metadata) (canRecover : Bool) : Prop :=
  ∃ fuel, processMetadata conf rsu fuel msg s = some (s', canRecover)

/-- What a number of messages can lead to; `ip` is not initialised. -/
inductive Reachable : Metadata → Prop
  | init (ip : Nat) : Reachable ⟨∅, ∅, [], ip⟩
  | message {msg : Str} {s s' : Metadata} {canRecover : Bool} (hs : Reachable s)
      (h : Processes conf rsu msg s s' canRecover) : Reachable s'

end Process

/-- `getStripeBlks` and `getCoefficient`; `none` if they wait. -/
def Metadata.getStripeBlks (s : Metadata) (blkName : Str) : Option (List (Nat × Str)) :=
  s.blk2Stripe[blkName]?

def Metadata.getCoefficient (s : Metadata) (blkName : Str) : Option (TreeMap Str GF256) :=
  s.coefficient[blkName]?

/-! ## Messages -/

/-- The chunks in a message. -/
def entriesText (entries : List (Str × Str)) : Str :=
  entries.flatMap fun e => ':' :: (e.1 ++ ':' :: e.2)

/-- The message for a lost chunk. -/
def metaMessage (lost requestorIP : Str) (entries : List (Str × Str)) : Str :=
  lost ++ ':' :: (requestorIP ++ entriesText entries)

/-- Neither a colon nor the end of a C string. -/
def Plain (s : Str) : Prop :=
  ':' ∉ s ∧ Char.ofNat 0 ∉ s

theorem cut_append {u v : Str} (hu : ':' ∉ u) : cut (u ++ ':' :: v) = (u, v) := by
  have hfind : Text.find [':'] ([] ++ (u ++ ([':'] ++ v))) 0 = some (0 + u.length) :=
    Text.find_append (Text.firstAfter_singleton hu) rfl
  rw [List.nil_append, List.singleton_append] at hfind
  have hdrop : (u ++ ':' :: v).drop (u.length + 1) = v := by
    rw [List.drop_append, List.drop_eq_nil_of_le (Nat.le_succ _), Nat.add_sub_cancel_left]
    rfl
  rw [cut, hfind]
  simp only [Nat.zero_add, Text.substr, List.drop_zero, List.take_left, hdrop]

theorem cut_plain {u : Str} (hu : ':' ∉ u) : cut u = (u, u) := by
  have hfind : Text.find [':'] u 0 = none := by
    rw [Text.find, List.drop_zero, Text.findIn_eq_none]
    · rfl
    · intro i hpre
      apply hu
      exact List.mem_of_mem_drop (hpre.subset (List.mem_singleton_self _))
  rw [cut, hfind]

/-- The text behind a host begins with a colon, or there is none. -/
theorem cut_host {host : Str} (hhost : ':' ∉ host) (entries : List (Str × Str)) :
    cut (host ++ entriesText entries) =
      (host, if entries = [] then host else (entriesText entries).tail) := by
  cases entries with
  | nil =>
      rw [entriesText, List.flatMap_nil, List.append_nil, cut_plain hhost, if_pos rfl]
  | cons e entries =>
      rw [entriesText, List.flatMap_cons, List.cons_append, cut_append hhost,
        if_neg (List.cons_ne_nil _ _)]
      rfl

/-! ## The loop over the chunks of a message -/

section Loop

variable {ecK : Nat} {lost : Str} {entries : List (Str × Str)} {p rip : Nat}

/-- The name and the host of chunk `j`. -/
def name (entries : List (Str × Str)) (j : Nat) : Str := (entries.getD j ([], [])).1

def host (entries : List (Str × Str)) (j : Nat) : Str := (entries.getD j ([], [])).2

/-- The message lists the chunks of a stripe, and only chunk `p`, which has no host, is the lost one
in some version. -/
structure IsStripe (lost : Str) (entries : List (Str × Str)) (p : Nat) : Prop where
  lt : p < entries.length
  plain : ∀ e ∈ entries, Plain e.1 ∧ Plain e.2
  nodup : (entries.map Prod.fst).Nodup
  lost_iff : ∀ j < entries.length, noVers lost = noVers (name entries j) ↔ j = p
  host : host entries p = []

/-- What is left of the message when `i` chunks have been cut off. -/
def restText (entries : List (Str × Str)) (i : Nat) : Str :=
  if i < entries.length then (entriesText (entries.drop i)).tail
  else host entries (entries.length - 1)

/-- The rows that `RSUtil` decodes from, as far as the first `i` chunks go. -/
def othersBelow (ecK p i : Nat) : List Nat :=
  ((List.range i).filter (· ≠ p)).take ecK

/-- The loop has gone through the first `i` chunks and taken the helpers `l`. -/
structure At (ecK : Nat) (lost : Str) (entries : List (Str × Str)) (p rip i : Nat)
    (l : List (Nat × Str)) (st : Collect) : Prop where
  text : st.handleStr = restText entries i
  idx : st.idxInStripe = i
  bid : st.bidInStripe = if p < i then some (p % 9) else none
  recovered : st.recoveredBlks = (othersBelow ecK p i).map (name entries)
  stripe : st.blk2Stripe.getD lost [] = l
  names : l.map Prod.snd = st.recoveredBlks
  located : ∀ h ∈ l, ∃ j < i, j ≠ p ∧ name entries j = h.2 ∧
    inet_pton (host entries j) = some h.1
  nodes : (l.map Prod.fst).Nodup
  requestor : rip ∉ l.map Prod.fst
  assigned : ∀ a, a ∈ st.ipAssigned ↔ a = rip ∨ a ∈ l.map Prod.fst
  current : st.recoveredBlks.length < ecK → st.ip ∈ st.ipAssigned
  hosts : ∀ j < i, j ≠ p → host entries j ≠ []

theorem othersBelow_succ_of_lt {i : Nat} (hi : i ≠ p) (h : (othersBelow ecK p i).length < ecK) :
    othersBelow ecK p (i + 1) = othersBelow ecK p i ++ [i] := by
  have hlen : ((List.range i).filter (· ≠ p)).length < ecK := by
    rw [othersBelow, List.length_take] at h
    omega
  rw [othersBelow, othersBelow, List.range_succ, List.filter_append,
    List.filter_cons_of_pos (by simpa using hi), List.filter_nil,
    List.take_of_length_le (by rw [List.length_append]; exact hlen),
    List.take_of_length_le hlen.le]

/-- Once there are enough, nothing is added. -/
theorem othersBelow_eq {i n : Nat} (hin : i ≤ n) (h : (othersBelow ecK p i).length = ecK) :
    othersBelow ecK p n = othersBelow ecK p i := by
  have hpre : (List.range i).filter (· ≠ p) <+: (List.range n).filter (· ≠ p) := by
    apply List.IsPrefix.filter
    rw [← Nat.add_sub_cancel' hin, List.range_add]
    exact List.prefix_append _ _
  rcases hpre with ⟨rest, hrest⟩
  rw [othersBelow, List.length_take] at h
  rw [othersBelow, othersBelow, ← hrest, List.take_append_of_le_length (by omega)]

variable {i : Nat} {l : List (Nat × Str)} {st : Collect}

/-- What a turn cuts off. -/
theorem At.cut_spec (hs : IsStripe lost entries p) (h : At ecK lost entries p rip i l st)
    (hi : i < entries.length) :
    cut st.handleStr = (name entries i, host entries i ++ entriesText (entries.drop (i + 1))) ∧
      cut (host entries i ++ entriesText (entries.drop (i + 1))) =
        (host entries i, restText entries (i + 1)) := by
  have hget : entries.getD i ([], []) = entries[i] := by
    rw [List.getD_eq_getElem?_getD, List.getElem?_eq_getElem hi]
    rfl
  have hplain := hs.plain entries[i] (List.getElem_mem hi)
  rw [← hget] at hplain
  have htext : (entriesText (entries.drop i)).tail =
      name entries i ++ ':' :: (host entries i ++ entriesText (entries.drop (i + 1))) := by
    rw [List.drop_eq_getElem_cons hi, entriesText, List.flatMap_cons, ← hget, name, host]
    simp [entriesText]
  constructor
  · rw [h.text, restText, if_pos hi, htext]
    exact cut_append hplain.1.1
  · refine (cut_host hplain.2.1 _).trans ?_
    rw [restText]
    congr 1
    by_cases hlast : i + 1 < entries.length
    · rw [if_pos hlast, if_neg (fun hnil => Nat.not_le.2 hlast (List.drop_eq_nil_iff.1 hnil))]
    · rw [if_neg hlast, if_pos (List.drop_eq_nil_iff.2 (Nat.not_lt.1 hlast)),
        show entries.length - 1 = i by omega]
      rfl

/-- The answer that would be given now. -/
def CanRecover (ecK : Nat) (st : Collect) : Prop :=
  st.recoveredBlks.length = ecK ∧ st.bidInStripe ≠ none

theorem At.bid_eq_none_iff (h : At ecK lost entries p rip i l st) :
    st.bidInStripe = none ↔ i ≤ p := by
  rw [h.bid]
  by_cases hp : p < i
  · rw [if_pos hp]
    constructor
    · intro hsome
      cases hsome
    · intro hle
      exact absurd hp (Nat.not_lt.2 hle)
  · rw [if_neg hp]
    exact iff_of_true rfl (Nat.not_lt.1 hp)

theorem At.length_recovered (h : At ecK lost entries p rip i l st) :
    st.recoveredBlks.length = (othersBelow ecK p i).length := by
  rw [h.recovered, List.length_map]

theorem othersBelow_succ_self : othersBelow ecK p (p + 1) = othersBelow ecK p p := by
  rw [othersBelow, othersBelow, List.range_succ, List.filter_append,
    List.filter_cons_of_neg (by simp), List.filter_nil, List.append_nil]

theorem length_othersBelow_le : (othersBelow ecK p i).length ≤ ecK :=
  List.length_take_le _ _

/-- The lost chunk itself. -/
theorem At.chunk_lost (hs : IsStripe lost entries p) (h : At ecK lost entries p rip p l st) :
    ∃ st', chunk ecK lost (name entries p) (host entries p)
        { st with handleStr := restText entries (p + 1) } = (st', true) ∧
      At ecK lost entries p rip (p + 1) l st' := by
  have hsame : noVers lost = noVers (name entries p) := (hs.lost_iff p hs.lt).2 rfl
  have hbid : st.bidInStripe = none := h.bid_eq_none_iff.2 (Nat.le_refl p)
  refine ⟨{ st with
      handleStr := restText entries (p + 1)
      bidInStripe := some (st.idxInStripe % 9)
      idxInStripe := st.idxInStripe + 1 }, ?_, ?_⟩
  · simp only [chunk, note, hs.host, hsame, hbid, ne_eq, not_true_eq_false, if_false, if_true,
      false_and, and_false]
  · exact
      { text := rfl
        idx := congrArg (· + 1) h.idx
        bid := by rw [if_pos (Nat.lt_succ_self p)]; exact congrArg (fun i => some (i % 9)) h.idx
        recovered := by rw [othersBelow_succ_self]; exact h.recovered
        stripe := h.stripe
        names := h.names
        located := fun e he => by
          rcases h.located e he with ⟨j, hj, hrest⟩
          exact ⟨j, hj.trans (Nat.lt_succ_self p), hrest⟩
        nodes := h.nodes
        requestor := h.requestor
        assigned := h.assigned
        current := h.current
        hosts := fun j hj hjp => h.hosts j (Nat.lt_of_le_of_ne (Nat.le_of_lt_succ hj) hjp) hjp }

/-- A chunk that becomes a helper. -/
theorem At.helper (h : At ecK lost entries p rip i l st)
    (hip : i ≠ p) (hhost : host entries i ≠ []) (hless : st.recoveredBlks.length < ecK) {a : Nat}
    (haddr : inet_pton (host entries i) = some a) (hfree : a ∉ st.ipAssigned) :
    At ecK lost entries p rip (i + 1) (l ++ [(a, name entries i)])
      { st with
        handleStr := restText entries (i + 1)
        ip := a
        ipAssigned := st.ipAssigned.insert a
        blk2Stripe := st.blk2Stripe.insert lost
          (st.blk2Stripe.getD lost [] ++ [(a, name entries i)])
        recoveredBlks := st.recoveredBlks ++ [name entries i]
        idxInStripe := st.idxInStripe + 1 } := by
  -- a new address is neither the requestor nor a helper so far
  have hnew := (not_congr (h.assigned a)).1 hfree
  have hmap : (l ++ [(a, name entries i)]).map Prod.fst = l.map Prod.fst ++ [a] := by
    rw [List.map_append, List.map_singleton]
  exact
    { text := rfl
      idx := congrArg (· + 1) h.idx
      bid := by
        have hlt : p < i + 1 ↔ p < i := by omega
        simp only [hlt]
        exact h.bid
      recovered := by
        have hlen := h.length_recovered
        rw [othersBelow_succ_of_lt hip (hlen ▸ hless), List.map_append, List.map_singleton]
        exact congrArg (· ++ [name entries i]) h.recovered
      stripe := by rw [TreeMap.getD_insert_self, h.stripe]
      names := by
        rw [List.map_append, List.map_singleton]
        exact congrArg (· ++ [name entries i]) h.names
      located := fun e he => by
        rcases List.mem_append.1 he with hl | hlast
        · rcases h.located e hl with ⟨j, hj, hrest⟩
          exact ⟨j, hj.trans (Nat.lt_succ_self i), hrest⟩
        · rw [List.mem_singleton.1 hlast]
          exact ⟨i, Nat.lt_succ_self i, hip, rfl, haddr⟩
      nodes := by
        rw [hmap]
        apply List.nodup_append'.2
        exact ⟨h.nodes, List.nodup_singleton a, List.disjoint_singleton.2 fun ha => hnew (Or.inr ha)⟩
      requestor := by
        rw [hmap, List.mem_append, List.mem_singleton, not_or]
        exact ⟨h.requestor, fun heq => hnew (Or.inl heq.symm)⟩
      assigned := fun b => by
        rw [TreeSet.mem_insert, LawfulEqCmp.compare_eq_iff_eq, hmap, List.mem_append,
          List.mem_singleton, h.assigned b, eq_comm]
        tauto
      current := fun _ => TreeSet.mem_insert_self
      hosts := fun j hj hjp => by
        rcases Nat.lt_succ_iff_lt_or_eq.1 hj with hlt | rfl
        · exact h.hosts j hlt hjp
        · exact hhost }

/-- A chunk that comes when there are enough helpers. -/
theorem At.spare (h : At ecK lost entries p rip i l st) (hip : i ≠ p)
    (hhost : host entries i ≠ []) (hfull : ¬ st.recoveredBlks.length < ecK) (a : Nat) :
    At ecK lost entries p rip (i + 1) l
      { st with
        handleStr := restText entries (i + 1)
        ip := a
        idxInStripe := st.idxInStripe + 1 } := by
  have hlen : (othersBelow ecK p i).length = ecK := by
    rw [h.length_recovered] at hfull
    exact Nat.le_antisymm length_othersBelow_le (Nat.not_lt.1 hfull)
  exact
    { text := rfl
      idx := congrArg (· + 1) h.idx
      bid := by
        have hlt : p < i + 1 ↔ p < i := by omega
        simp only [hlt]
        exact h.bid
      recovered := by
        rw [othersBelow_eq (Nat.le_succ i) hlen]
        exact h.recovered
      stripe := h.stripe
      names := h.names
      located := fun e he => by
        rcases h.located e he with ⟨j, hj, hrest⟩
        exact ⟨j, hj.trans (Nat.lt_succ_self i), hrest⟩
      nodes := h.nodes
      requestor := h.requestor
      assigned := h.assigned
      current := fun hless => absurd hless hfull
      hosts := fun j hj hjp => by
        rcases Nat.lt_succ_iff_lt_or_eq.1 hj with hlt | rfl
        · exact h.hosts j hlt hjp
        · exact hhost }

/-- One turn of the loop: it goes on with one chunk more, or it ends without an answer. -/
theorem At.turn (hs : IsStripe lost entries p) (h : At ecK lost entries p rip i l st)
    (hi : i < entries.length) (hgoes : st.recoveredBlks.length < ecK ∨ st.bidInStripe = none) :
    ((turn ecK lost st).2 = true ∧
        ∃ l', At ecK lost entries p rip (i + 1) l' (turn ecK lost st).1) ∨
      ((turn ecK lost st).2 = false ∧ ¬ CanRecover ecK (turn ecK lost st).1) := by
  have hcut := h.cut_spec hs hi
  have hnot : ¬ (st.recoveredBlks.length = ecK ∧ st.bidInStripe ≠ none) := by
    intro hcan
    rcases hgoes with hless | hnone
    · exact absurd hcan.1 hless.ne
    · exact hcan.2 hnone
  have hturn : Qfs.turn ecK lost st = chunk ecK lost (name entries i) (host entries i)
      { st with handleStr := restText entries (i + 1) } := by
    rw [Qfs.turn, hcut.1]
    simp only [hcut.2]
  rw [hturn]
  by_cases hip : i = p
  · subst hip
    rcases h.chunk_lost hs with ⟨st', hchunk, hat⟩
    rw [hchunk]
    exact Or.inl ⟨rfl, l, hat⟩
  · have hother : ¬ noVers lost = noVers (name entries i) := fun heq =>
      hip ((hs.lost_iff i hi).1 heq)
    by_cases hhost : host entries i = []
    · -- another chunk is missing
      right
      simp only [chunk, hhost, hother, ne_eq, not_true_eq_false, if_false, false_and, if_true,
        not_false_eq_true, and_self]
      exact ⟨trivial, hnot⟩
    · by_cases hless : st.recoveredBlks.length < ecK
      · by_cases hfree : (inet_pton (host entries i)).getD st.ip ∈ st.ipAssigned
        · right
          simp only [chunk, hhost, hless, hfree, ne_eq, not_false_eq_true, if_true, and_self,
            not_true_eq_false, if_false]
          exact ⟨trivial, fun hcan => absurd hcan.1 hless.ne⟩
        · left
          rcases haddr : inet_pton (host entries i) with _ | a
          · rw [haddr] at hfree
            exact absurd (h.current hless) hfree
          · rw [haddr, Option.getD_some] at hfree
            simp only [chunk, note, hhost, hless, haddr, hother, Option.getD_some, ne_eq,
              not_false_eq_true, if_true, and_self, if_false]
            rw [if_pos hfree]
            exact ⟨rfl, _, h.helper hip hhost hless haddr hfree⟩
      · left
        simp only [chunk, note, hhost, hless, hother, ne_eq, not_false_eq_true, if_true, and_false,
          if_false, false_and]
        exact ⟨trivial, l, h.spare hip hhost hless _⟩

theorem length_others {n : Nat} (hp : p < n) :
    ((List.range n).filter (· ≠ p)).length = n - 1 := by
  rw [filter_range_ne hp, List.length_append, List.length_range, List.length_range']
  omega

/-- When the loop stops by itself, it has all it needs. -/
theorem At.stops (hs : IsStripe lost entries p) (hk : ecK < entries.length) (hi : i ≤ entries.length)
    (h : At ecK lost entries p rip i l st) :
    (¬ GoesOn ecK st → CanRecover ecK st) ∧ (GoesOn ecK st → i < entries.length) := by
  have hend : i = entries.length → CanRecover ecK st := by
    intro heq
    constructor
    · rw [h.length_recovered, othersBelow, List.length_take, heq, length_others hs.lt]
      omega
    · intro hnone
      exact absurd (heq ▸ h.bid_eq_none_iff.1 hnone) (Nat.not_le.2 hs.lt)
  constructor
  · intro hstop
    rcases hi.eq_or_lt with heq | hlt
    · exact hend heq
    · have htext : st.handleStr ≠ [] := by
        rw [h.text, restText, if_pos hlt, List.drop_eq_getElem_cons hlt, entriesText,
          List.flatMap_cons]
        simp
      rw [GoesOn, not_and, not_or, Nat.not_lt] at hstop
      have hhas := hstop htext
      have hle : st.recoveredBlks.length ≤ ecK := h.length_recovered ▸ length_othersBelow_le
      exact ⟨Nat.le_antisymm hle hhas.1, hhas.2⟩
  · intro hgoes
    apply Nat.lt_of_le_of_ne hi
    intro heq
    have hcan := hend heq
    rcases hgoes.2 with hless | hnone
    · exact absurd hcan.1 hless.ne
    · exact hcan.2 hnone

/-- The whole loop, by induction on the number of chunks that are left. -/
theorem At.collect (hs : IsStripe lost entries p) (hk : ecK < entries.length) :
    ∀ (left : Nat) {i : Nat} {l : List (Nat × Str)} {st : Collect},
      i + left = entries.length → At ecK lost entries p rip i l st →
        ∃ st', collect ecK lost (left + 1) st = some st' ∧
          (¬ CanRecover ecK st' ∨ ∃ i' ≤ entries.length, ∃ l',
            At ecK lost entries p rip i' l' st' ∧ CanRecover ecK st') := by
  intro left
  induction left with
  | zero =>
      intro i l st hleft h
      have hi : i = entries.length := hleft
      have hstop := h.stops hs hk hi.le
      have hnot : ¬ GoesOn ecK st := fun hgoes => (hstop.2 hgoes).ne hi
      refine ⟨st, ?_, Or.inr ⟨i, hi.le, l, h, hstop.1 hnot⟩⟩
      rw [Qfs.collect, if_neg hnot]
  | succ left ih =>
      intro i l st hleft h
      have hi : i ≤ entries.length := hleft ▸ Nat.le_add_right i _
      have hstop := h.stops hs hk hi
      by_cases hgoes : GoesOn ecK st
      · rw [Qfs.collect, if_pos hgoes]
        rcases h.turn hs (hstop.2 hgoes) hgoes.2 with ⟨hon, l', hnext⟩ | ⟨hend, hcannot⟩
        · rcases ih (by omega) hnext with ⟨st', hcollect, hres⟩
          refine ⟨st', ?_, hres⟩
          simp only [hon, if_true]
          exact hcollect
        · refine ⟨_, ?_, Or.inl hcannot⟩
          simp only [hend, Bool.false_eq_true, if_false]
      · refine ⟨st, ?_, Or.inr ⟨i, hi, l, h, hstop.1 hgoes⟩⟩
        rw [Qfs.collect, if_neg hgoes]

/-- More turns than are needed change nothing. -/
theorem collect_mono {fuel more : Nat} {st st' : Collect} (hle : fuel ≤ more) :
    collect ecK lost fuel st = some st' → collect ecK lost more st = some st' := by
  intro h
  induction fuel generalizing more st with
  | zero =>
      rw [collect] at h
      cases h
  | succ fuel ih =>
      rcases Nat.exists_eq_add_of_le' hle with ⟨d, rfl⟩
      rw [← Nat.add_assoc, collect]
      rw [collect] at h
      by_cases hgoes : GoesOn ecK st
      · rw [if_pos hgoes] at h ⊢
        by_cases hon : (Qfs.turn ecK lost st).2 = true
        · simp only [hon, if_true] at h ⊢
          exact ih (Nat.le_add_left fuel d) h
        · simp only [hon] at h ⊢
          exact h
      · rw [if_neg hgoes] at h ⊢
        exact h

/-- Where the loop begins. -/
theorem At.start (hs : IsStripe lost entries p) :
    At ecK lost entries p rip 0 []
      { handleStr := (entriesText entries).tail, ip := rip,
        ipAssigned := (∅ : TreeSet Nat).insert rip, blk2Stripe := ∅, recoveredBlks := [],
        bidInStripe := none, idxInStripe := 0 } :=
  { text := by
      rw [restText, if_pos (Nat.zero_lt_of_lt hs.lt)]
      rfl
    idx := rfl
    bid := (if_neg (Nat.not_lt_zero p)).symm
    recovered := by
      rw [othersBelow, List.range_zero, List.filter_nil, List.take_nil]
      rfl
    stripe := TreeMap.getD_emptyc
    names := rfl
    located := fun e he => absurd he List.not_mem_nil
    nodes := List.nodup_nil
    requestor := List.not_mem_nil
    assigned := fun a => by
      rw [TreeSet.mem_insert, LawfulEqCmp.compare_eq_iff_eq, eq_comm]
      simp
    current := fun _ => TreeSet.mem_insert_self
    hosts := fun j hj => absurd hj (Nat.not_lt_zero j) }

end Loop

/-! ## What the messages before have left -/

section Process

variable {conf : Config} {rsu : RSUtil} {msg : Str} {s s' : Metadata} {canRecover : Bool}

theorem answer_of_canRecover (rsu : RSUtil) (blkName : Str)
    (coefficient : TreeMap Str (TreeMap Str GF256)) {st : Collect} (h : CanRecover conf.ecK st) :
    ∃ bid, st.bidInStripe = some bid ∧
      answer conf rsu blkName coefficient st =
        ({ blk2Stripe := st.blk2Stripe
           coefficient := coefficient.insert blkName
             (Tree.insertAll (coefficientPairs (rsu.getCoefficient bid) st.recoveredBlks)
               (coefficient.getD blkName ∅))
           blkName := blkName
           ip := st.ip }, true) := by
  rcases hbid : st.bidInStripe with _ | bid
  · exact absurd hbid h.2
  · refine ⟨bid, rfl, ?_⟩
    simp only [answer, hbid, h.1, decide_true]

theorem answer_of_not {blkName : Str} {coefficient : TreeMap Str (TreeMap Str GF256)}
    {st : Collect} (h : ¬ CanRecover conf.ecK st) :
    answer conf rsu blkName coefficient st =
      ({ blk2Stripe := st.blk2Stripe.erase blkName
         coefficient := coefficient.erase blkName
         blkName := blkName
         ip := st.ip }, false) := by
  rcases hbid : st.bidInStripe with _ | bid
  · simp only [answer, hbid]
  · have hlen : ¬ st.recoveredBlks.length = conf.ecK := fun hlen =>
      h ⟨hlen, fun hnone => by rw [hbid] at hnone; cases hnone⟩
    simp only [answer, hbid, hlen, decide_false]

theorem processes_iff :
    Processes conf rsu msg s s' canRecover ↔
      ∃ fuel st, collect conf.ecK (lostBlk msg).1 fuel (loopStart msg s.ip) = some st ∧
        answer conf rsu (lostBlk msg).1 (s.coefficient.insert s.blkName ∅) st =
          (s', canRecover) := by
  simp only [Processes, processMetadata, Option.map_eq_some_iff]

/-- Only the block of the last message can have coefficients. -/
def Cleared (s : Metadata) : Prop :=
  ∀ b ≠ s.blkName, s.coefficient.getD b ∅ = ∅

theorem Cleared.insert (h : Cleared s) (b : Str) :
    (s.coefficient.insert s.blkName ∅).getD b ∅ = ∅ := by
  rw [TreeMap.getD_insert]
  split
  · rfl
  · rename_i hne
    exact h b fun heq => hne (by rw [heq, compare_self])

theorem Cleared.message (h : Cleared s) :
    Processes conf rsu msg s s' canRecover → Cleared s' := by
  intro hmsg
  rcases processes_iff.1 hmsg with ⟨fuel, st, -, hanswer⟩
  by_cases hcan : CanRecover conf.ecK st
  · rcases answer_of_canRecover rsu (lostBlk msg).1 _ hcan with ⟨bid, -, heq⟩
    rw [heq] at hanswer
    cases hanswer
    intro b hb
    rw [TreeMap.getD_insert, if_neg fun heq => hb (LawfulEqCmp.compare_eq_iff_eq.1 heq).symm]
    exact h.insert b
  · rw [answer_of_not hcan] at hanswer
    cases hanswer
    intro b hb
    rw [TreeMap.getD_erase, if_neg fun heq => hb (LawfulEqCmp.compare_eq_iff_eq.1 heq).symm]
    exact h.insert b

theorem Reachable.cleared (h : Reachable conf rsu s) : Cleared s := by
  induction h with
  | init ip => exact fun b _ => TreeMap.getD_emptyc
  | message _ hmsg ih => exact ih.message hmsg

/-! ## A message for a stripe -/

/-- The names of the chunks, the lost one under the name it was asked for. -/
def stripeBlks (lost : Str) (entries : List (Str × Str)) (p : Nat) : List Str :=
  (entries.map Prod.fst).set p lost

variable {lost requestorIP : Str} {entries : List (Str × Str)} {p rip : Nat}

theorem lostBlk_metaMessage (hlost : Plain lost) (hreq : Plain requestorIP)
    (hs : IsStripe lost entries p) :
    lostBlk (metaMessage lost requestorIP entries) =
      (lost, requestorIP ++ entriesText entries) := by
  have hzero : ∀ c ∈ metaMessage lost requestorIP entries, c ≠ Char.ofNat 0 := by
    have hentries : Char.ofNat 0 ∉ entriesText entries := by
      intro hmem
      rcases List.mem_flatMap.1 hmem with ⟨e, he, hin⟩
      have hplain := hs.plain e he
      rw [List.mem_cons, List.mem_append, List.mem_cons] at hin
      rcases hin with hcolon | hname | hcolon | hhost
      · exact absurd hcolon (by decide)
      · exact hplain.1.2 hname
      · exact absurd hcolon (by decide)
      · exact hplain.2.2 hhost
    intro c hc heq
    rw [heq, metaMessage, List.mem_append, List.mem_cons, List.mem_append] at hc
    rcases hc with hin | hcolon | hin | hin
    · exact hlost.2 hin
    · exact absurd hcolon (by decide)
    · exact hreq.2 hin
    · exact hentries hin
  have htake : (metaMessage lost requestorIP entries).takeWhile (· ≠ Char.ofNat 0) =
      metaMessage lost requestorIP entries :=
    List.takeWhile_eq_self_iff.2 fun c hc => decide_eq_true (hzero c hc)
  rw [lostBlk, htake, metaMessage]
  exact cut_append hlost.1

theorem At.loopStart (hlost : Plain lost) (hreq : Plain requestorIP)
    (hrip : inet_pton requestorIP = some rip) (hs : IsStripe lost entries p) (ecK ip : Nat) :
    At ecK lost entries p rip 0 []
      (loopStart (metaMessage lost requestorIP entries) ip) := by
  have hne : entries ≠ [] := List.length_pos_iff.1 (Nat.zero_lt_of_lt hs.lt)
  have hhost : cut (requestorIP ++ entriesText entries) =
      (requestorIP, (entriesText entries).tail) := by
    rw [cut_host hreq.1, if_neg hne]
  rw [Qfs.loopStart, lostBlk_metaMessage hlost hreq hs]
  simp only [hhost, hrip, Option.getD_some]
  exact At.start hs

/-- The loop of such a message ends. -/
theorem collect_metaMessage {ecK : Nat} (hlost : Plain lost) (hreq : Plain requestorIP)
    (hrip : inet_pton requestorIP = some rip) (hs : IsStripe lost entries p)
    (hk : ecK < entries.length) (ip : Nat) :
    ∃ st, collect ecK (lostBlk (metaMessage lost requestorIP entries)).1 (entries.length + 1)
        (loopStart (metaMessage lost requestorIP entries) ip) = some st ∧
      (¬ CanRecover ecK st ∨ ∃ i ≤ entries.length, ∃ l,
        At ecK lost entries p rip i l st ∧ CanRecover ecK st) := by
  rw [lostBlk_metaMessage hlost hreq hs]
  exact (At.loopStart hlost hreq hrip hs ecK ip).collect hs hk entries.length (Nat.zero_add _)

/-- What is stored for a chunk that can be recovered. -/
structure Recovers (ecK : Nat) (content : Str → Nat → GF256) (lost : Str)
    (entries : List (Str × Str)) (p rip : Nat) (s : Metadata) : Prop where
  size : (s.blk2Stripe.getD lost []).length = ecK
  nodes : ((s.blk2Stripe.getD lost []).map Prod.fst).Nodup
  requestor : rip ∉ (s.blk2Stripe.getD lost []).map Prod.fst
  surviving : ∀ h ∈ s.blk2Stripe.getD lost [], ∃ j < entries.length, j ≠ p ∧
    name entries j = h.2 ∧ inet_pton (host entries j) = some h.1
  decodes : ∃ coef, s.coefficient[lost]? = some coef ∧
    coef.keys.Perm ((s.blk2Stripe.getD lost []).map Prod.snd) ∧
    ∀ x, combined content coef x = content lost x

theorem length_stripeBlks : (stripeBlks lost entries p).length = entries.length := by
  rw [stripeBlks, List.length_set, List.length_map]

theorem stripeBlks_nodup (hs : IsStripe lost entries p) : (stripeBlks lost entries p).Nodup := by
  by_cases hmem : lost ∈ entries.map Prod.fst
  · -- it is asked for in the version that is listed
    rcases List.mem_iff_getElem.1 hmem with ⟨j, hj, heq⟩
    have hlt : j < entries.length := List.length_map (f := Prod.fst) ▸ hj
    have hname : name entries j = lost := by
      rw [name, List.getD_eq_getElem?_getD, List.getElem?_eq_getElem hlt, ← heq, List.getElem_map]
      rfl
    have hjp : j = p := (hs.lost_iff j hlt).1 (by rw [hname])
    subst hjp
    rw [stripeBlks, ← heq, List.set_getElem_self]
    exact hs.nodup
  · exact hs.nodup.set hmem

theorem helperNames_stripeBlks (hlen : entries.length = conf.ecN) :
    helperNames conf (stripeBlks lost entries p) p = (firstOthers conf p).map (name entries) := by
  apply List.map_congr_left
  intro j hj
  rw [stripeBlks, List.getD_eq_getElem?_getD, List.getElem?_set_ne (firstOthers_ne conf hj).symm,
    List.getElem?_map, name, List.getD_eq_getElem?_getD]
  have hlt : j < entries.length := hlen ▸ firstOthers_lt conf hj
  rw [List.getElem?_eq_getElem hlt]
  rfl

theorem At.recovers {encMat : IntArr} {content : Str → Nat → GF256} {st : Collect} {i : Nat}
    {l : List (Nat × Str)} {coefficient : TreeMap Str (TreeMap Str GF256)}
    (hrsu : rsu.Decodes conf encMat) (hn : conf.ecN ≤ 9) (hlen : entries.length = conf.ecN)
    (hs : IsStripe lost entries p)
    (hcontent : Encoded conf encMat [stripeBlks lost entries p] content)
    (hempty : coefficient.getD lost ∅ = ∅)
    (hi : i ≤ entries.length) (hat : At conf.ecK lost entries p rip i l st)
    (hcan : CanRecover conf.ecK st) :
    Recovers conf.ecK content lost entries p rip
      (answer conf rsu lost coefficient st).1 := by
  have hpn : p < conf.ecN := hlen ▸ hs.lt
  have hps : p < (stripeBlks lost entries p).length := length_stripeBlks.symm ▸ hs.lt
  -- the helpers are those that the coefficients are for
  have hothers : othersBelow conf.ecK p i = firstOthers conf p := by
    have henough : (othersBelow conf.ecK p i).length = conf.ecK :=
      hat.length_recovered.symm.trans hcan.1
    exact (othersBelow_eq (hlen ▸ hi) henough).symm
  have hnames : st.recoveredBlks = helperNames conf (stripeBlks lost entries p) p := by
    rw [hat.recovered, hothers, helperNames_stripeBlks hlen]
  have hbid : st.bidInStripe = some p := by
    rcases Nat.lt_or_ge p i with hp | hp
    · rw [hat.bid, if_pos hp, Nat.mod_eq_of_lt (hpn.trans_le hn)]
    · exact absurd (hat.bid_eq_none_iff.2 hp) hcan.2
  rcases answer_of_canRecover rsu lost coefficient hcan with ⟨bid, hbid', hanswer⟩
  have heq : bid = p := Option.some.inj (hbid'.symm.trans hbid)
  subst heq
  have hl : st.blk2Stripe.getD lost [] = l := hat.stripe
  rw [hanswer]
  have hperm : (Tree.insertAll (coefficientPairs (rsu.getCoefficient bid) st.recoveredBlks)
      (coefficient.getD lost ∅)).toList.Perm
      (coefficientPairs (rsu.getCoefficient bid)
        (helperNames conf (stripeBlks lost entries bid) bid)) := by
    rw [hempty, hnames]
    apply Tree.toList_insertAll_empty
    rw [coefficientPairs_map_fst]
    exact helperNames_nodup (stripeBlks_nodup hs) (length_stripeBlks.trans hlen) hps
  constructor
  case size =>
    calc
      (st.blk2Stripe.getD lost []).length = (l.map Prod.snd).length := by rw [hl, List.length_map]
      _ = st.recoveredBlks.length := congrArg List.length hat.names
      _ = conf.ecK := hcan.1
  case nodes => exact hl.symm ▸ hat.nodes
  case requestor => exact hl.symm ▸ hat.requestor
  case surviving =>
    intro h hh
    rcases hat.located h (hl ▸ hh) with ⟨j, hj, hrest⟩
    exact ⟨j, hj.trans_le hi, hrest⟩
  case decodes =>
    refine ⟨_, TreeMap.getElem?_insert_self, ?_, ?_⟩
    · have hkeys := hperm.map Prod.fst
      rw [coefficientPairs_map_fst, TreeMap.map_fst_toList_eq_keys] at hkeys
      rw [hl, hat.names]
      exact hnames ▸ hkeys
    · intro x
      rcases hcontent _ (List.mem_singleton_self _) with ⟨d, hd⟩
      have hrow : (stripeBlks lost entries bid)[bid] = lost := by
        simp only [stripeBlks, List.getElem_set_self]
      have hsum : ((coefficientPairs (rsu.getCoefficient bid)
          (helperNames conf (stripeBlks lost entries bid) bid)).map
            fun p => p.2 * content p.1 x).sum = content (stripeBlks lost entries bid)[bid] x := by
        apply sum_content (f := fun b => content b x) (fun j hj => hd j hj x) _
          (hrsu.single bid hpn).2
        intro j hj
        rw [length_stripeBlks, hlen]
        exact firstOthers_lt conf hj
      rw [combined_eq_sum x hperm, hsum, hrow]

/-- QFS: when the answer is that a chunk can be recovered, its helpers are `ecK` other chunks of the
stripe on different nodes, and their coefficients decode it; when a chunk that would be needed is
missing too, the answer is that it cannot, and nothing is stored. -/
theorem processMetadata_spec (conf : Config) (rsu : RSUtil) (encMat : IntArr)
    (hrsu : rsu.Decodes conf encMat) (hn : conf.ecN ≤ 9) (s : Metadata)
    (hreach : Reachable conf rsu s) (lost requestorIP : Str) (rip : Nat)
    (entries : List (Str × Str)) (p : Nat) (hlost : Plain lost) (hreq : Plain requestorIP)
    (hrip : inet_pton requestorIP = some rip) (hlen : entries.length = conf.ecN)
    (hs : IsStripe lost entries p) (content : Str → Nat → GF256)
    (hcontent : Encoded conf encMat [stripeBlks lost entries p] content) :
    (∃ s' r, Processes conf rsu (metaMessage lost requestorIP entries) s s' r) ∧
    ∀ s' r, Processes conf rsu (metaMessage lost requestorIP entries) s s' r →
      (r = true → Recovers conf.ecK content lost entries p rip s') ∧
      (r = false → lost ∉ s'.blk2Stripe ∧ lost ∉ s'.coefficient) ∧
      ((∃ q ≤ max p conf.ecK, q ≠ p ∧ host entries q = []) → r = false) := by
  have hpn : p < conf.ecN := hlen ▸ hs.lt
  have hk : conf.ecK < entries.length := by
    have hcount := (hrsu.single p hpn).1
    rw [firstOthers, List.length_take, length_others hpn] at hcount
    omega
  have hblk := lostBlk_metaMessage hlost hreq hs
  rcases collect_metaMessage hlost hreq hrip hs hk s.ip with ⟨st, hcollect, hres⟩
  have hempty := hreach.cleared.insert lost
  constructor
  · exact ⟨_, _, processes_iff.2 ⟨entries.length + 1, st, hcollect, rfl⟩⟩
  · intro s' r hproc
    rcases processes_iff.1 hproc with ⟨fuel, st', hcollect', hanswer⟩
    -- the loop ends in one way only
    have hsame : st' = st := by
      have hmore := collect_mono (Nat.le_max_left (entries.length + 1) fuel) hcollect
      have hmore' := collect_mono (Nat.le_max_right (entries.length + 1) fuel) hcollect'
      exact Option.some.inj (hmore'.symm.trans hmore)
    rw [hblk] at hanswer
    subst hsame
    by_cases hcan : CanRecover conf.ecK st'
    · rcases hres with hnot | ⟨i, hi, l, hat, -⟩
      · exact absurd hcan hnot
      · have hrec := hat.recovers hrsu hn hlen hs hcontent hempty hi hcan
        rw [hanswer] at hrec
        rcases answer_of_canRecover rsu lost (s.coefficient.insert s.blkName ∅) hcan with
          ⟨bid, -, heq⟩
        have hr : r = true := congrArg Prod.snd (hanswer.symm.trans heq)
        refine ⟨fun _ => hrec, fun hfalse => ?_, ?_⟩
        · rw [hr] at hfalse
          cases hfalse
        · rintro ⟨q, hq, hqp, hmissing⟩
          have hpi : p < i := Nat.lt_of_not_le fun hle => hcan.2 (hat.bid_eq_none_iff.2 hle)
          have hki : conf.ecK < i := by
            have hcount := hat.length_recovered.symm.trans hcan.1
            rw [othersBelow, List.length_take, length_others hpi] at hcount
            omega
          apply absurd hmissing
          exact hat.hosts q (hq.trans_lt (max_lt hpi hki)) hqp
    · rw [answer_of_not hcan] at hanswer
      cases hanswer
      refine ⟨fun htrue => (by cases htrue), fun _ => ⟨?_, ?_⟩, fun _ => rfl⟩
      · simp
      · simp

end Process

/-! ## A small stripe -/

/-- A parity chunk and two data chunks, the first of which is lost. -/
def threeEntries (parity lost data : Str) : List (Str × Str) :=
  [(parity, "10.0.0.1".toList), (lost, []), (data, "10.0.0.2".toList)]

theorem threeEntries_isStripe {parity lost data : Str} (hparity : Plain parity) (hlost : Plain lost)
    (hdata : Plain data) (hne : parity ≠ data) (hfirst : noVers lost ≠ noVers parity)
    (hlast : noVers lost ≠ noVers data) : IsStripe lost (threeEntries parity lost data) 1 where
  lt := Nat.one_lt_succ_succ 1
  plain := by
    have h₁ : Plain "10.0.0.1".toList := ⟨by decide, by decide⟩
    have h₂ : Plain "10.0.0.2".toList := ⟨by decide, by decide⟩
    intro e he
    simp only [threeEntries, List.mem_cons, List.not_mem_nil, or_false] at he
    rcases he with rfl | rfl | rfl
    · exact ⟨hparity, h₁⟩
    · exact ⟨hlost, List.not_mem_nil, List.not_mem_nil⟩
    · exact ⟨hdata, h₂⟩
  nodup := by
    have hpl : parity ≠ lost := fun heq => hfirst (congrArg noVers heq).symm
    have hld : lost ≠ data := fun heq => hlast (congrArg noVers heq)
    simp [threeEntries, hpl, hld, hne]
  lost_iff := by
    intro j hj
    have hj3 : j < 3 := hj
    interval_cases j
    · exact iff_of_false hfirst (by decide)
    · exact iff_of_true rfl rfl
    · exact iff_of_false hlast (by decide)
  host := rfl

def xorEntries : List (Str × Str) :=
  threeEntries "9.132.1".toList "9.130.1".toList "9.131.1".toList

theorem xorEntries_isStripe : IsStripe "9.130.1".toList xorEntries 1 :=
  threeEntries_isStripe ⟨by decide, by decide⟩ ⟨by decide, by decide⟩ ⟨by decide, by decide⟩
    (by decide) (by decide) (by decide)

/-- The lost chunk holds ones, the other data chunk zeros. -/
def xorChunks (b : Str) (_ : Nat) : GF256 :=
  if b = "9.131.1".toList then 0 else 1

theorem xorChunks_encoded :
    Encoded xorConf xorMat [stripeBlks "9.130.1".toList xorEntries 1] xorChunks := by
  intro s hs
  have hs' := List.mem_singleton.1 hs
  subst hs'
  refine ⟨fun _ j => if (j : Nat) = 0 then 1 else 0, fun i hi x => ?_⟩
  have hsum : ∀ f : Fin xorConf.ecK → GF256, ∑ j, f j = f ⟨0, by decide⟩ + f ⟨1, by decide⟩ :=
    fun f => Fin.sum_univ_two f
  rw [LinCode.word, hsum]
  have hi3 : i < 3 := hi
  interval_cases i <;>
    simp [stripeBlks, xorEntries, threeEntries, xorChunks, stackedRow, rowOf, xorMat, xorConf, Config.ecM]

/-- The answer to a message, for bounded turns. -/
theorem processes_of_answer {conf : Config} {rsu : RSUtil} {fuel : Nat} {msg : Str} {s : Metadata}
    {r : Bool} :
    (processMetadata conf rsu fuel msg s).map Prod.snd = some r →
      ∃ s', Processes conf rsu msg s s' r := by
  intro h
  rcases Option.map_eq_some_iff.1 h with ⟨⟨s', r'⟩, hproc, rfl⟩
  exact ⟨s', fuel, hproc⟩

theorem processes_xor :
    ∃ s', Processes xorConf xorRSUtil
      (metaMessage "9.130.1".toList "10.0.0.9".toList xorEntries) ⟨∅, ∅, [], 0⟩ s' true := by
  have hanswer : (processMetadata xorConf xorRSUtil 4
      (metaMessage "9.130.1".toList "10.0.0.9".toList xorEntries) ⟨∅, ∅, [], 0⟩).map Prod.snd =
        some true := by
    decide +kernel
  exact processes_of_answer hanswer

theorem processMetadata_spec_xor :
    ∃ s', Processes xorConf xorRSUtil
        (metaMessage "9.130.1".toList "10.0.0.9".toList xorEntries) ⟨∅, ∅, [], 0⟩ s' true ∧
      Recovers 2 xorChunks "9.130.1".toList xorEntries 1 (10 + 256 ^ 3 * 9) s' := by
  rcases processes_xor with ⟨s', hproc⟩
  have hspec := processMetadata_spec xorConf xorRSUtil xorMat xorRSUtil_decodes (by decide)
    ⟨∅, ∅, [], 0⟩ (Reachable.init 0) "9.130.1".toList "10.0.0.9".toList (10 + 256 ^ 3 * 9)
    xorEntries 1 ⟨by decide, by decide⟩ ⟨by decide, by decide⟩ (by decide +kernel) rfl
    xorEntries_isStripe xorChunks xorChunks_encoded
  exact ⟨s', hproc, (hspec.2 s' true hproc).1 rfl⟩

end Qfs

end CoRD
