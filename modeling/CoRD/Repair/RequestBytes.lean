import CoRD.Repair.BlkReports
import CoRD.Repair.FRRequest

/-!
# RequestBytes — requests of any bytes

A request comes from a queue that any program can push to.  The coordinator trusts the lengths in it:
it does not compare them with the bytes that are left, and it clears the status of the last request
before it looks at the first name.  So it reads on behind a request that is cut off, and it gives up on
others with the status gone.
-/

namespace CoRD

open Std Wire

namespace Checked

/-! ## The parser with its reads and its writes -/

/-- How `parseFRRequest` ends. -/
inductive Outcome
  | accepted (r : FRRequest)
  | exit
  -- `string(s, n)` throws for a negative `n`, and nothing catches it
  | lengthError
  -- the code goes on with bytes that it was not given, or with the first of no names
  | undefined

/-- The end of `parseFRRequest`, whether it has read bytes outside of the request, and what it has set
`_status` to, if it has touched it. -/
structure Parsed where
  outcome : Outcome
  outside : Bool
  status : Option Status

section Parse

variable (base : MetadataBase) (fs : FileSys) (requestorIP index : Nat)

/-- `while (cmdbase < reqLen)`; the word of the length is an `int`. -/
def parseLoop (reqStr : Bytes) (cmdbase : Nat) (st : ParseState) : Except Parsed ParseState :=
  if cmdbase < reqStr.length then
    if reqStr.length < cmdbase + 4 then .error ⟨.undefined, true, some st.status⟩
    else
      let len := word reqStr cmdbase
      if 2 ^ 31 ≤ len then .error ⟨.lengthError, false, some st.status⟩
      else if reqStr.length < cmdbase + 4 + len then .error ⟨.undefined, true, some st.status⟩
      else
        match parseName base fs requestorIP index st (nameOf (str reqStr (cmdbase + 4) len)) with
        | none => .error ⟨.exit, false, some st.status⟩
        | some st => parseLoop reqStr (cmdbase + (4 + len)) st
  else .ok st
termination_by reqStr.length - cmdbase

/-- `Coordinator::parseFRRequest`. -/
def parseFRRequest (ecK : Nat) (reqStr : Bytes) : Parsed :=
  if reqStr.length < 8 then ⟨.exit, false, none⟩
  else
    let index := word reqStr 4
    if index > ecK then
      let lostFile := nameOf (cstr reqStr 4)
      -- the zero that ends the name may be the one behind the request
      let outside := decide ((0 : UInt8) ∉ reqStr.drop 4)
      match base.getAllBlks fs lostFile with
      | none => ⟨.exit, outside, some ∅⟩
      | some allBlks =>
          match base.getIPfromBlk lostFile with
          | none => ⟨.exit, outside, some (markAll allBlks ∅)⟩
          | some ip =>
              let status := (markAll allBlks ∅).insert lostFile 0
              ⟨.accepted { version := .v10, index := 0, reqFile := lostFile,
                           lostFiles := [(lostFile, ip)], status := status },
                outside, some status⟩
    else
      match parseLoop base fs requestorIP index reqStr 8 .start with
      | .error stopped => stopped
      | .ok st =>
          match st.lostFiles with
          | [] => ⟨.undefined, false, some st.status⟩
          | (first, _) :: _ =>
              let reqFile := if st.reqFile = [] then first else st.reqFile
              ⟨.accepted { version := .v11, index := index, reqFile := reqFile,
                           lostFiles := st.lostFiles, status := st.status },
                false, some st.status⟩

end Parse

/-- What the parser owes to any bytes: it reads none but these, an accepted request of the new form is
tiled by its lengths, and what it does not accept leaves `_status` alone. -/
structure Robust (reqStr : Bytes) (p : Parsed) : Prop where
  inside : p.outside = false
  tiled : ∀ r, p.outcome = .accepted r → r.version = .v11 →
    ∃ names, At reqStr 8 (namesBytes names) ∧ ∀ name ∈ names, name.length < 2 ^ 31
  rejected : (∀ r, p.outcome ≠ .accepted r) → p.outcome ≠ .undefined ∧ p.status = none

/-! ## What it accepts -/

section Accepts

variable {base : MetadataBase} {fs : FileSys} {requestorIP index ecK : Nat} {reqStr : Bytes}

/-- The loop accepts nothing but what the loop without the checks does. -/
theorem parseLoop_of_ok {cmdbase : Nat} {st st' : ParseState} :
    parseLoop base fs requestorIP index reqStr cmdbase st = .ok st' →
      CoRD.parseLoop base fs requestorIP index reqStr cmdbase st = some st' := by
  intro h
  fun_induction parseLoop base fs requestorIP index reqStr cmdbase st with
  | case1 => cases h
  | case2 => cases h
  | case3 => cases h
  | case4 => cases h
  | case5 cmdbase st hlt hword len hpos hfits next hname ih =>
      have hname' : parseName base fs requestorIP index st
          (nameOf (str reqStr (cmdbase + 4) (word reqStr cmdbase))) = some next := hname
      rw [CoRD.parseLoop, if_pos hlt]
      simp only [hname']
      exact ih h
  | case6 cmdbase st hend =>
      cases h
      rw [CoRD.parseLoop, if_neg hend]

/-- The loop never accepts by itself. -/
theorem parseLoop_not_accepted {cmdbase : Nat} {st : ParseState} {p : Parsed} {r : FRRequest} :
    parseLoop base fs requestorIP index reqStr cmdbase st = .error p → p.outcome ≠ .accepted r := by
  intro h
  fun_induction parseLoop base fs requestorIP index reqStr cmdbase st with
  | case1 =>
      cases h
      exact Outcome.noConfusion
  | case2 =>
      cases h
      exact Outcome.noConfusion
  | case3 =>
      cases h
      exact Outcome.noConfusion
  | case4 =>
      cases h
      exact Outcome.noConfusion
  | case5 cmdbase st hlt hword len hpos hfits next hname ih =>
      exact ih h
  | case6 => cases h

/-- An accepted request is the one that the coordinator goes on with. -/
theorem parseFRRequest_of_accepted {r : FRRequest} :
    (parseFRRequest base fs requestorIP ecK reqStr).outcome = .accepted r →
      CoRD.parseFRRequest base fs requestorIP ecK reqStr = some r := by
  intro h
  rw [parseFRRequest] at h
  rw [CoRD.parseFRRequest]
  split at h
  · cases h
  · rename_i hlen
    rw [if_neg hlen]
    simp only at h ⊢
    split at h
    · rename_i hindex
      rw [if_pos hindex]
      -- both lookups must succeed
      cases hall : base.getAllBlks fs (nameOf (cstr reqStr 4)) with
      | none =>
          rw [hall] at h
          cases h
      | some allBlks =>
          rw [hall] at h
          cases hip : base.getIPfromBlk (nameOf (cstr reqStr 4)) with
          | none =>
              rw [hip] at h
              cases h
          | some ip =>
              rw [hip] at h
              cases h
              rfl
    · rename_i hindex
      rw [if_neg hindex]
      cases hloop : parseLoop base fs requestorIP (word reqStr 4) reqStr 8 .start with
      | error stopped =>
          rw [hloop] at h
          exact absurd h (parseLoop_not_accepted hloop)
      | ok st =>
          rw [parseLoop_of_ok hloop]
          rw [hloop] at h
          cases hfiles : st.lostFiles with
          | nil =>
              simp only [hfiles] at h
              cases h
          | cons file files =>
              simp only [hfiles] at h
              cases h
              simp [hfiles]

end Accepts

/-! ## Known names -/

/-- The tables know the blocks of the stripes with their nodes, and no others. -/
structure Located (base : MetadataBase) (conf : Config) (stripes : List (List Str))
    (ip : Str → Nat) : Prop where
  holds : ∀ s ∈ stripes, base.HoldsStripe conf s ip
  place : ∀ b a, base.blkName2Ip[b]? = some a ↔ (∃ s ∈ stripes, b ∈ s) ∧ a = ip b

section Names

variable {conf : RepairConfig} {base : MetadataBase} {stripes : List (List Str)} {ip : Str → Nat}
  {fs : FileSys} {requestorIP index : Nat} {reqStr : Bytes}

/-- A name is taken if it is that of a block of the store. -/
theorem parseName_ne_none_iff (hbase : Located base conf.toConfig stripes ip) (st : ParseState)
    (b : Str) : parseName base fs requestorIP index st b ≠ none ↔ ∃ s ∈ stripes, b ∈ s := by
  constructor
  · intro hne
    by_contra hunknown
    have hip : base.getIPfromBlk b = none := by
      refine Option.eq_none_iff_forall_not_mem.2 fun a ha => hunknown ?_
      exact ((hbase.place b a).1 ha).1
    rw [parseName, hip] at hne
    exact hne rfl
  · rintro ⟨s, hs, hb⟩
    rw [parseName, getIPfromBlk_of_mem (hbase.holds s hs) hb, ne_eq, Option.map_eq_none_iff,
      getAllBlks_of_mem (hbase.holds s hs) fs hb]
    split <;> exact Option.some_ne_none _

/-- One name is added. -/
theorem lostFiles_parseName {st st' : ParseState} {b : Str} :
    parseName base fs requestorIP index st b = some st' → st'.lostFiles ≠ [] := by
  intro h
  rw [parseName] at h
  split at h
  · cases h
  · rcases Option.map_eq_some_iff.1 h with ⟨q, _, rfl⟩
    simp

/-- A name stands behind its length, and the others follow. -/
theorem namesBytes_split {names : List Bytes} {cmdbase : Nat} (hlt : cmdbase < reqStr.length)
    (hlens : ∀ name ∈ names, name.length < 2 ^ 31) :
    At reqStr cmdbase (namesBytes names) →
      ∃ name rest, names = name :: rest ∧ word reqStr cmdbase = name.length ∧
        cmdbase + 4 + name.length ≤ reqStr.length ∧
        str reqStr (cmdbase + 4) name.length = name ∧
        At reqStr (cmdbase + (4 + name.length)) (namesBytes rest) := by
  intro hat
  have hlen := hat.length hlt.le
  cases names with
  | nil =>
      exact absurd (hlen.symm.trans (Nat.add_zero cmdbase)) hlt.ne'
  | cons name rest =>
      have hshort : name.length < 256 ^ 4 :=
        (hlens name List.mem_cons_self).trans (by decide)
      rw [namesBytes_cons] at hat hlen
      have hat' := hat.skip
      rw [length_le] at hat'
      refine ⟨name, rest, rfl, hat.word hshort, ?_, hat'.str, ?_⟩
      · simp only [List.length_append, length_le] at hlen
        omega
      · rw [← Nat.add_assoc]
        exact hat'.skip

/-- What is read off is a name behind its length. -/
theorem at_namesBytes_cons {names : List Bytes} {cmdbase : Nat}
    (hfits : cmdbase + 4 + word reqStr cmdbase ≤ reqStr.length)
    (hat : At reqStr (cmdbase + (4 + word reqStr cmdbase)) (namesBytes names)) :
    At reqStr cmdbase
      (namesBytes (str reqStr (cmdbase + 4) (word reqStr cmdbase) :: names)) := by
  have hname : (str reqStr (cmdbase + 4) (word reqStr cmdbase)).length = word reqStr cmdbase := by
    rw [str, List.length_take, List.length_drop]
    omega
  have hword : le 4 (word reqStr cmdbase) = (reqStr.drop cmdbase).take 4 := by
    have hfour : ((reqStr.drop cmdbase).take 4).length = 4 := by
      rw [List.length_take, List.length_drop]
      omega
    have hle := le_ofLe ((reqStr.drop cmdbase).take 4)
    rwa [hfour] at hle
  rw [At, namesBytes_cons, hname, hword, ← hat, ← Nat.add_assoc, ← List.drop_drop, str,
    List.take_append_drop, ← List.drop_drop, List.take_append_drop]

/-- The names behind `cmdbase` are known blocks, each behind its length, and nothing is left over. -/
def NamesFrom (stripes : List (List Str)) (reqStr : Bytes) (cmdbase : Nat) (names : List Bytes) :
    Prop :=
  At reqStr cmdbase (namesBytes names) ∧
    ∀ name ∈ names, name.length < 2 ^ 31 ∧ ∃ s ∈ stripes, nameOf name ∈ s

/-- The loop comes to its end just if known names tile the bytes that are left; otherwise it has read
too far or has touched `_status` in vain. -/
theorem parseLoop_spec (fs : FileSys) (requestorIP index : Nat)
    (hbase : Located base conf.toConfig stripes ip) {cmdbase : Nat} (st : ParseState) :
    cmdbase ≤ reqStr.length →
      (∃ names st', NamesFrom stripes reqStr cmdbase names ∧
        parseLoop base fs requestorIP index reqStr cmdbase st = .ok st' ∧
        (names = [] → st' = st) ∧ (names ≠ [] → st'.lostFiles ≠ [])) ∨
      (¬ ∃ names, NamesFrom stripes reqStr cmdbase names) ∧
        ∃ p, parseLoop base fs requestorIP index reqStr cmdbase st = .error p ∧
          p.status ≠ none := by
  intro hle
  fun_induction parseLoop base fs requestorIP index reqStr cmdbase st with
  | case1 cmdbase st hlt hcut =>
      refine Or.inr ⟨?_, _, rfl, Option.some_ne_none _⟩
      rintro ⟨names, hat, hnames⟩
      rcases namesBytes_split hlt (fun name hname => (hnames name hname).1) hat with
        ⟨name, rest, rfl, hword, hfits, -⟩
      omega
  | case2 cmdbase st hlt hcut len hneg =>
      refine Or.inr ⟨?_, _, rfl, Option.some_ne_none _⟩
      rintro ⟨names, hat, hnames⟩
      rcases namesBytes_split hlt (fun name hname => (hnames name hname).1) hat with
        ⟨name, rest, rfl, hword, -⟩
      have hlen : len = name.length := hword
      exact absurd (hlen ▸ (hnames name List.mem_cons_self).1) (Nat.not_lt.2 hneg)
  | case3 cmdbase st hlt hcut len hneg hlong =>
      refine Or.inr ⟨?_, _, rfl, Option.some_ne_none _⟩
      rintro ⟨names, hat, hnames⟩
      rcases namesBytes_split hlt (fun name hname => (hnames name hname).1) hat with
        ⟨name, rest, rfl, hword, hfits, -⟩
      have hlen : len = name.length := hword
      exact absurd (hlen ▸ hfits) (Nat.not_le.2 hlong)
  | case4 cmdbase st hlt hcut len hneg hlong hunknown =>
      refine Or.inr ⟨?_, _, rfl, Option.some_ne_none _⟩
      rintro ⟨names, hat, hnames⟩
      rcases namesBytes_split hlt (fun name hname => (hnames name hname).1) hat with
        ⟨name, rest, rfl, hword, -, hstr, -⟩
      rw [show len = name.length from hword, hstr] at hunknown
      exact (parseName_ne_none_iff hbase st _).2 (hnames name List.mem_cons_self).2 hunknown
  | case5 cmdbase st hlt hcut len hneg hlong next hname ih =>
      have hfits : cmdbase + 4 + word reqStr cmdbase ≤ reqStr.length := Nat.not_lt.1 hlong
      have hnext : cmdbase + (4 + len) ≤ reqStr.length := by
        rwa [← Nat.add_assoc]
      have hknown := (parseName_ne_none_iff hbase st _).1 (hname ▸ Option.some_ne_none next)
      rcases ih hnext with ⟨names, st', ⟨hat, hnames⟩, hloop, hnil, hcons⟩ | ⟨hnone, hstop⟩
      · refine Or.inl ⟨_, st', ⟨at_namesBytes_cons hfits hat, ?_⟩, hloop,
          fun h => absurd h (List.cons_ne_nil _ _), fun _ => ?_⟩
        · intro name hmem
          rcases List.mem_cons.1 hmem with rfl | hmem
          · refine ⟨?_, hknown⟩
            exact Nat.lt_of_le_of_lt (List.length_take_le _ _) (Nat.not_le.1 hneg)
          · exact hnames name hmem
        · by_cases hlast : names = []
          · rw [hnil hlast]
            exact lostFiles_parseName hname
          · exact hcons hlast
      · refine Or.inr ⟨?_, hstop⟩
        rintro ⟨names, hat, hnames⟩
        rcases namesBytes_split hlt (fun name hname => (hnames name hname).1) hat with
          ⟨name, rest, rfl, hword, -, -, hrest⟩
        rw [← hword] at hrest
        exact hnone ⟨rest, hrest, fun name hmem => hnames name (List.mem_cons_of_mem _ hmem)⟩
  | case6 cmdbase st hend =>
      have hat : At reqStr cmdbase (namesBytes []) :=
        List.drop_eq_nil_of_le (Nat.not_lt.1 hend)
      exact Or.inl ⟨[], st, ⟨hat, fun name hmem => absurd hmem List.not_mem_nil⟩, rfl,
        fun _ => rfl, fun h => absurd rfl h⟩

/-- Requests that the parser is safe with: those that are too short for it, those of the old form with
a known name that ends inside, and those of the new form that known names tile. -/
def WellFormed (ecK : Nat) (stripes : List (List Str)) (reqStr : Bytes) : Prop :=
  reqStr.length < 8 ∨
    (ecK < word reqStr 4 ∧ (0 : UInt8) ∈ reqStr.drop 4 ∧
      ∃ s ∈ stripes, nameOf (cstr reqStr 4) ∈ s) ∨
    word reqStr 4 ≤ ecK ∧ ∃ names, names ≠ [] ∧ NamesFrom stripes reqStr 8 names

/-- What is not accepted and has touched `_status` is not robust. -/
theorem not_robust {p : Parsed} (hstatus : p.status ≠ none) :
    (∀ r, p.outcome ≠ .accepted r) → ¬ Robust reqStr p := by
  intro hnot h
  exact hstatus (h.rejected hnot).2

theorem robust_old_iff (hbase : Located base conf.toConfig stripes ip) {ecK : Nat}
    (hlong : ¬ reqStr.length < 8) (hindex : ecK < word reqStr 4) :
    Robust reqStr (parseFRRequest base fs requestorIP ecK reqStr) ↔
      (0 : UInt8) ∈ reqStr.drop 4 ∧ ∃ s ∈ stripes, nameOf (cstr reqStr 4) ∈ s := by
  rw [parseFRRequest, if_neg hlong]
  simp only [gt_iff_lt, if_pos hindex]
  by_cases hknown : ∃ s ∈ stripes, nameOf (cstr reqStr 4) ∈ s
  · rw [and_iff_left hknown]
    rcases hknown with ⟨s, hs, hb⟩
    rw [getAllBlks_of_mem (hbase.holds s hs) fs hb]
    simp only [getIPfromBlk_of_mem (hbase.holds s hs) hb]
    constructor
    · intro h
      exact not_not.1 (of_decide_eq_false h.inside)
    · intro hzero
      constructor
      case inside =>
        exact decide_eq_false (not_not.2 hzero)
      case tiled =>
        intro r hr hversion
        cases hr
        cases hversion
      case rejected =>
        intro hnot
        exact absurd rfl (hnot _)
  · have hip : base.getIPfromBlk (nameOf (cstr reqStr 4)) = none := by
      refine Option.eq_none_iff_forall_not_mem.2 fun a ha => hknown ?_
      exact ((hbase.place _ a).1 ha).1
    refine iff_of_false ?_ fun h => hknown h.2
    rw [hip]
    split <;> exact not_robust (Option.some_ne_none _) fun r => Outcome.noConfusion

theorem robust_new_iff (hbase : Located base conf.toConfig stripes ip) {ecK : Nat}
    (hlong : ¬ reqStr.length < 8) (hindex : ¬ ecK < word reqStr 4) :
    Robust reqStr (parseFRRequest base fs requestorIP ecK reqStr) ↔
      ∃ names, names ≠ [] ∧ NamesFrom stripes reqStr 8 names := by
  rw [parseFRRequest, if_neg hlong]
  simp only [gt_iff_lt, if_neg hindex]
  rcases parseLoop_spec fs requestorIP (word reqStr 4) hbase ParseState.start
    (Nat.not_lt.1 hlong) with
    ⟨names, st, hnames, hloop, hnil, hcons⟩ | ⟨hnone, p, hloop, hstatus⟩
  · rw [hloop]
    simp only
    by_cases hempty : names = []
    · -- the names are those that tile the bytes, so there are none at all
      rw [hnil hempty]
      refine iff_of_false (not_robust (Option.some_ne_none _) fun r => Outcome.noConfusion) ?_
      rintro ⟨names', hne, hat, _⟩
      rcases List.exists_cons_of_ne_nil hne with ⟨name, rest, rfl⟩
      have hend : 8 + (namesBytes names).length = reqStr.length :=
        hnames.1.length (Nat.not_lt.1 hlong)
      have hmore := hat.length (Nat.not_lt.1 hlong)
      rw [hempty] at hend
      rw [← hend, namesBytes_cons] at hmore
      simp [namesBytes] at hmore
    · rcases List.exists_cons_of_ne_nil (hcons hempty) with ⟨⟨first, a⟩, files, hfiles⟩
      rw [hfiles]
      refine iff_of_true ?_ ⟨names, hempty, hnames⟩
      constructor
      case inside => rfl
      case tiled =>
        intro r _ _
        exact ⟨names, hnames.1, fun name hname => (hnames.2 name hname).1⟩
      case rejected =>
        intro hnot
        exact absurd rfl (hnot _)
  · rw [hloop]
    refine iff_of_false (not_robust hstatus fun r => parseLoop_not_accepted hloop) ?_
    rintro ⟨names, _, hnames⟩
    exact hnone ⟨names, hnames⟩

theorem robust_iff (hbase : Located base conf.toConfig stripes ip) (fs : FileSys)
    (requestorIP : Nat) {ecK : Nat} :
    Robust reqStr (parseFRRequest base fs requestorIP ecK reqStr) ↔
      WellFormed ecK stripes reqStr := by
  rw [WellFormed]
  by_cases hshort : reqStr.length < 8
  · refine iff_of_true ?_ (Or.inl hshort)
    rw [parseFRRequest, if_pos hshort]
    exact ⟨rfl, fun r hr => Outcome.noConfusion hr, fun _ => ⟨Outcome.noConfusion, rfl⟩⟩
  · by_cases hindex : ecK < word reqStr 4
    · rw [robust_old_iff hbase hshort hindex]
      simp [hshort, hindex, Nat.not_le.2 hindex]
    · rw [robust_new_iff hbase hshort hindex]
      simp [hshort, hindex, Nat.not_lt.1 hindex]

end Names

/-! ## Loaded stores -/

section Loaded

variable {conf : RepairConfig} {rsu : RSUtil} {stripes : List (List Str)} {d : Described}
  {sched : Bool} {blkInit : List (Nat × Str)} {ip : Str → Nat}

theorem located_receive (hk : 1 ≤ conf.ecK) (hkn : conf.ecK < conf.ecN)
    (hstripes : IsStripes conf.toConfig stripes) (hd : d.Describes conf.toConfig rsu stripes) :
    (∀ s ∈ stripes, Reported blkInit s ip) →
      Located (d.receive sched blkInit).base conf.toConfig stripes ip := by
  intro hrep
  exact ⟨fun s hs => holdsStripe_receive hk hkn hstripes hd hs (hrep s hs),
    (reportedAs_receive hk hkn hstripes hd hrep).place⟩

end Loaded

/-- With a loaded store of either kind, the parser is robust just for the well-formed requests. -/
theorem parseFRRequest_robust_iff (conf : RepairConfig) (rsu : RSUtil) (hk : 1 ≤ conf.ecK)
    (hkn : conf.ecK < conf.ecN) (stripes : List (List Str)) (blkInit : List (Nat × Str))
    (ip : Str → Nat) (hrep : ∀ s ∈ stripes, Reported blkInit s ip) (requestorIP : Nat)
    (reqStr : Bytes) :
    (∀ dir base, IsStore conf.toConfig stripes dir →
      hdfsMetadataBase conf rsu dir blkInit = some base →
        (Robust reqStr (parseFRRequest base .hdfs requestorIP conf.ecK reqStr) ↔
          WellFormed conf.ecK stripes reqStr)) ∧
    ∀ cmdResult base, IsFsck conf.toConfig stripes cmdResult →
      hdfs3MetadataBase conf rsu cmdResult blkInit = some base →
        (Robust reqStr (parseFRRequest base .hdfs3 requestorIP conf.ecK reqStr) ↔
          WellFormed conf.ecK stripes reqStr) := by
  constructor
  · intro dir base hdir hload
    rcases readStripeStore_describes rsu (Nat.lt_trans hk hkn) hdir with ⟨d, hread, hd⟩
    rw [hdfsMetadataBase, hread] at hload
    rw [← Option.some.inj hload]
    exact robust_iff (located_receive hk hkn hdir.isStripes hd hrep) .hdfs requestorIP
  · intro cmdResult base hfsck hload
    rcases readFsck_describes rsu hkn.le hfsck with ⟨d, hread, hd⟩
    rw [hdfs3MetadataBase, hread] at hload
    rw [← Option.some.inj hload]
    exact robust_iff (located_receive hk hkn hfsck.isStripes hd hrep) .hdfs3 requestorIP

/-! Requests to the small store. -/

def xorLostBytes : Bytes :=
  xorLost.map fun c => UInt8.ofNat c.toNat

theorem parseFRRequest_robust_xor :
    ∃ base, hdfsMetadataBase xorRepairConf xorRSUtil xorDir xorInit = some base ∧
      Robust (indexedRequest 1 0 [xorLostBytes])
        (parseFRRequest base .hdfs 1 xorRepairConf.ecK (indexedRequest 1 0 [xorLostBytes])) := by
  rcases xor_load xorRepairConf xorRSUtil (by decide) xorDir_isStore with ⟨base, hload⟩
  refine ⟨base, hload, ((parseFRRequest_robust_iff xorRepairConf xorRSUtil (by decide) (by decide)
    [xorStripe] xorInit xorIp (fun s hs => ?_) 1 _).1 xorDir base xorDir_isStore hload).2
    (Or.inr (Or.inr ⟨by decide, [xorLostBytes], List.cons_ne_nil _ _, rfl, ?_⟩))⟩
  · rw [List.mem_singleton.1 hs]
    exact xorInit_reported
  · intro name hname
    rw [List.mem_singleton.1 hname]
    exact ⟨by decide, xorStripe, List.mem_singleton_self _, by decide⟩

/-- A name with the length -1. -/
def negativeRequest : Bytes :=
  le 4 1 ++ le 4 0 ++ le 4 (2 ^ 32 - 1)

/-- The length of a name, and no name. -/
def cutRequest : Bytes :=
  le 4 1 ++ le 4 0 ++ le 4 24

/-- The coordinator gives up on a negative length with the last status gone, and reads behind a
request that is cut off. -/
theorem not_robust_xor :
    ∃ base, hdfsMetadataBase xorRepairConf xorRSUtil xorDir xorInit = some base ∧
      parseFRRequest base .hdfs 1 xorRepairConf.ecK negativeRequest =
        ⟨.lengthError, false, some ∅⟩ ∧
      ¬ Robust negativeRequest
        (parseFRRequest base .hdfs 1 xorRepairConf.ecK negativeRequest) ∧
      parseFRRequest base .hdfs 1 xorRepairConf.ecK cutRequest = ⟨.undefined, true, some ∅⟩ ∧
      ¬ Robust cutRequest (parseFRRequest base .hdfs 1 xorRepairConf.ecK cutRequest) := by
  rcases xor_load xorRepairConf xorRSUtil (by decide) xorDir_isStore with ⟨base, hload⟩
  have hnegative : parseFRRequest base .hdfs 1 xorRepairConf.ecK negativeRequest =
      ⟨.lengthError, false, some ∅⟩ := by
    rw [parseFRRequest, if_neg (by decide)]
    simp only
    rw [if_neg (by decide), parseLoop, if_pos (by decide), if_neg (by decide)]
    simp only
    rw [if_pos (by decide)]
    rfl
  have hcut : parseFRRequest base .hdfs 1 xorRepairConf.ecK cutRequest =
      ⟨.undefined, true, some ∅⟩ := by
    rw [parseFRRequest, if_neg (by decide)]
    simp only
    rw [if_neg (by decide), parseLoop, if_pos (by decide), if_neg (by decide)]
    simp only
    rw [if_neg (by decide), if_pos (by decide)]
    rfl
  refine ⟨base, hload, hnegative, ?_, hcut, ?_⟩
  · rw [hnegative]
    exact not_robust (Option.some_ne_none _) fun r => Outcome.noConfusion
  · rw [hcut]
    exact not_robust (Option.some_ne_none _) fun r => Outcome.noConfusion

end Checked

end CoRD
