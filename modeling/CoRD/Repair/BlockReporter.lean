import CoRD.Network.Lists
import CoRD.Repair.BlkReports
import CoRD.Repair.Command

/-!
# BlockReporter — how a metadata base learns where the blocks are

When it starts, every helper walks through its block directory and pushes each name that it finds to
`blk_init`, with its own address in front.  Meanwhile the constructor of the metadata base pops these
messages until no block is awaited.

However the helpers and the constructor take turns, the constructor comes to its end, and then the
tables say on which helper each block is.
-/

namespace CoRD

open Std Wire

/-- An entry of a directory; a directory that can be opened has names in it. -/
structure Dirent where
  d_name : Bytes
  d_type : Nat
  names : Option (List Bytes)

namespace BlockReporter

open Lists (Event)

/-! ## The program -/

/-- The names that both loops pass over: the two dots, and those of checksums. -/
def skips (name : Bytes) : Bool :=
  name = nameBytes ['.'] ∨ name = nameBytes ['.', '.'] ∨
    Text.find (nameBytes ['m', 'e', 't', 'a']) name 0 = some 30

/-- The names that are pushed for an entry.  A directory is looked through once; what is in it may be
of any type. -/
def namesOf (ent : Dirent) : List Bytes :=
  if skips ent.d_name then []
  else if ent.d_type = 4 then (ent.names.getD []).filter fun d_name => !skips d_name
  else if ent.d_type = 8 then [ent.d_name]
  else []

/-- All names that `report` pushes, in order. -/
def names (blkDir : List Dirent) : List Bytes :=
  blkDir.flatMap namesOf

/-- The message for a name; the array `info` has 256 bytes. -/
def message (info : Arr) (localIP : Nat) (d_name : Bytes) : Option Bytes :=
  if 4 + d_name.length ≤ 256 then
    some (first (copyAll info [(0, le 4 localIP), (4, d_name)]) (4 + d_name.length))
  else none

/-- What the constructor takes a message for. -/
def readMessage (str : Bytes) : Nat × Str :=
  (word str 0, nameOf (cstr str 4))

/-- The loop of the constructor: it waits for blocks, or it has been left. -/
inductive Loader
  | waiting (d : Described)
  | loaded (d : Described)

/-- One turn of the loop. -/
def Loader.turn (sched : Bool) (d : Described) (m : Nat × Str) : Loader :=
  if m.2 ∉ d.blks then .waiting d
  else
    let d := d.report sched m
    if d.blks.isEmpty then .loaded d else .waiting d

/-- A helper has these names left to push.  Whatever `info` holds, one message after the other. -/
inductive ReportStep (localIP : Nat) : List Bytes → Event Unit Unit Bytes → List Bytes → Prop where
  | push {info : Arr} {d_name m : Bytes} {rest : List Bytes}
      (h : message info localIP d_name = some m) :
      ReportStep localIP (d_name :: rest) (.push () () m) rest

inductive LoadStep (sched : Bool) : Loader → Event Unit Unit Bytes → Loader → Prop where
  | pop (d : Described) (m : Bytes) :
      LoadStep sched (.waiting d) (.pop () () m) (.turn sched d (readMessage m))

/-- The helpers, by their addresses, and the constructor. -/
inductive Party
  | metadataBase
  | helper (localIP : Nat)
  deriving DecidableEq

/-- The one list they share is `blk_init`. -/
def system (sched : Bool) : Lists.System Party Unit Unit Bytes where
  Loc
    | .metadataBase => Loader
    | .helper _ => List Bytes
  step
    | .metadataBase => LoadStep sched
    | .helper localIP => ReportStep localIP

/-- The stripes are described, and no helper has reported anything. -/
def start (sched : Bool) (d : Described) (helpers : Finset Nat) (blkDir : Nat → List Dirent) :
    Lists.State (system sched) where
  loc
    | .metadataBase => .waiting d
    | .helper localIP => if localIP ∈ helpers then names (blkDir localIP) else []
  lists := fun _ _ => []

/-- The names that a helper has not pushed yet. -/
def left {sched : Bool} (st : Lists.State (system sched)) (a : Nat) : List Bytes :=
  st.loc (.helper a)

/-- How far the constructor is. -/
def loader {sched : Bool} (st : Lists.State (system sched)) : Loader :=
  st.loc .metadataBase

/-! ## Messages -/

section Message

variable {info : Arr} {localIP : Nat} {d_name m : Bytes}

theorem message_eq : message info localIP d_name = some m → m = le 4 localIP ++ d_name := by
  intro h
  unfold message at h
  split at h
  · have hfirst := @first_copyAll [(0, le 4 localIP), (4, d_name)] info
      ⟨rfl, by simp, trivial⟩
    have hlength : ([(0, le 4 localIP), (4, d_name)].flatMap Prod.snd).length =
        4 + d_name.length := by
      simp
    rw [hlength] at hfirst
    rw [← Option.some.inj h, hfirst]
    simp
  · cases h

end Message

/-! ## Each party by itself -/

section Parties

variable {sched : Bool} {d : Described} {es : List (Event Unit Unit Bytes)}

/-- What a helper has pushed and what it has left is what it began with. -/
theorem reported_of_runs {localIP : Nat} {all rest : List Bytes} :
    Lists.LocalRuns (ReportStep localIP) all es rest →
      ∃ done, all = done ++ rest ∧ es = done.map fun d_name =>
        .push () () (le 4 localIP ++ d_name) := by
  intro hruns
  induction hruns with
  | refl =>
      exact ⟨[], rfl, rfl⟩
  | snoc _ hstep ih =>
      rcases ih with ⟨done, hall, hes⟩
      cases hstep with
      | @push info d_name m rest hm =>
          refine ⟨done ++ [d_name], ?_, ?_⟩
          · rw [hall, List.append_assoc, List.singleton_append]
          · rw [hes, List.map_append, message_eq hm]
            rfl

/-- A turn of the loop is one of `popBlkInit`. -/
theorem popBlkInit_cons (m : Nat × Str) (ms : List (Nat × Str)) :
    d.popBlkInit sched (m :: ms) =
      match Loader.turn sched d m with
      | .waiting d' => d'.popBlkInit sched ms
      | .loaded d' => some (d', ms) := by
  by_cases hm : m.2 ∈ d.blks
  · by_cases hempty : (d.report sched m).blks.isEmpty = true
    · simp [Described.popBlkInit, Loader.turn, hm, hempty]
    · simp [Described.popBlkInit, Loader.turn, hm, hempty]
  · simp [Described.popBlkInit, Loader.turn, hm]

/-- What the loop makes of the messages `ms`, whatever comes behind them. -/
def Loader.After (sched : Bool) (d : Described) (ms : List (Nat × Str)) : Loader → Prop
  | .waiting d' => ∀ ms', d.popBlkInit sched (ms ++ ms') = d'.popBlkInit sched ms'
  | .loaded d' => ∀ ms', d.popBlkInit sched (ms ++ ms') = some (d', ms')

theorem loaded_of_runs {l : Loader} :
    Lists.LocalRuns (LoadStep sched) (.waiting d) es l →
      ∃ ms : List Bytes, es = ms.map (.pop () ()) ∧ l.After sched d (ms.map readMessage) := by
  intro hruns
  induction hruns with
  | refl =>
      exact ⟨[], rfl, fun ms' => rfl⟩
  | snoc _ hstep ih =>
      rcases ih with ⟨ms, hes, hafter⟩
      cases hstep with
      | pop d' m =>
          refine ⟨ms ++ [m], ?_, ?_⟩
          · rw [hes, List.map_append]
            rfl
          -- the next message is in front of what comes behind
          have hnext : ∀ ms', d.popBlkInit sched ((ms ++ [m]).map readMessage ++ ms') =
              d'.popBlkInit sched (readMessage m :: ms') := by
            intro ms'
            rw [List.map_append, List.append_assoc]
            exact hafter _
          cases hturn : Loader.turn sched d' (readMessage m) with
          | waiting d'' =>
              intro ms'
              rw [hnext, popBlkInit_cons, hturn]
          | loaded d'' =>
              intro ms'
              rw [hnext, popBlkInit_cons, hturn]

end Parties

/-! ## All parties -/

/-- Helpers whose reports can be written and read: addresses of one word, and names without zeros for
which `info` has room. -/
structure Readable (helpers : Finset Nat) (blkDir : Nat → List Dirent) : Prop where
  ip : ∀ a ∈ helpers, a < 256 ^ 4
  zero : ∀ a ∈ helpers, ∀ d_name ∈ names (blkDir a), (0 : UInt8) ∉ d_name
  room : ∀ a ∈ helpers, ∀ d_name ∈ names (blkDir a), 4 + d_name.length ≤ 256

/-- Each block of a stripe is in the directory of one helper, and no helper has two of them. -/
structure Stored (helpers : Finset Nat) (blkDir : Nat → List Dirent) (s : List Str)
    (ip : Str → Nat) : Prop where
  helper : ∀ b ∈ s, ip b ∈ helpers
  stored : ∀ b ∈ s, b ∈ (names (blkDir (ip b))).map nameOf
  unique : ∀ b ∈ s, ∀ a ∈ helpers, b ∈ (names (blkDir a)).map nameOf → a = ip b
  nodes : (s.map ip).Nodup

/-- The reports of all helpers, one helper after the other. -/
noncomputable def reports (helpers : Finset Nat) (blkDir : Nat → List Dirent) : List (Nat × Str) :=
  helpers.toList.flatMap fun a => (names (blkDir a)).map fun d_name => (a, nameOf d_name)

section Runs

variable {conf : RepairConfig} {rsu : RSUtil} {sched : Bool} {d : Described} {helpers : Finset Nat}
  {blkDir : Nat → List Dirent} {stripes : List (List Str)} {s : List Str} {ip : Str → Nat}
  {tr : List (Party × Event Unit Unit Bytes)} {st : Lists.State (system sched)}

theorem LoadStep.pops {l l' : Loader} {e : Event Unit Unit Bytes} :
    LoadStep sched l e l' → ∃ m, e = .pop () () m := by
  rintro ⟨d, m⟩
  exact ⟨m, rfl⟩

theorem ReportStep.pushes {a : Nat} {l l' : List Bytes} {e : Event Unit Unit Bytes} :
    ReportStep a l e l' → ∃ d_name m, e = .push () () m ∧ l = d_name :: l' := by
  rintro ⟨hm⟩
  exact ⟨_, _, rfl, rfl⟩

section Trace

variable (hruns : Lists.Runs _ (start sched d helpers blkDir) tr st)

include hruns

/-- What a helper has done. -/
theorem helper_of_run (a : Nat) : ∃ done : List Bytes,
    (if a ∈ helpers then names (blkDir a) else []) = done ++ left st a ∧
      Lists.eventsOf (.helper a) tr = done.map fun d_name =>
        .push () () (le 4 a ++ d_name) :=
  reported_of_runs (hruns.toLocal (.helper a))

/-- What the constructor has done. -/
theorem loader_of_run : ∃ ms : List Bytes,
    Lists.eventsOf .metadataBase tr = ms.map (.pop () ()) ∧
      (loader st).After sched d (ms.map readMessage) :=
  loaded_of_runs (hruns.toLocal .metadataBase)

/-- The constructor pops, and no one else. -/
theorem popped_eq : ∃ ms : List Bytes, Lists.popped () () (tr.map Prod.snd) = ms ∧
    (loader st).After sched d (ms.map readMessage) := by
  rcases loader_of_run hruns with ⟨ms, hes, hafter⟩
  refine ⟨ms, ?_, hafter⟩
  rw [Lists.popped_eq_of_consumer (i := Party.metadataBase), hes]
  · clear hes hafter
    induction ms with
    | nil =>
        rfl
    | cons m ms ih =>
        exact congrArg (m :: ·) ih
  · intro p hp
    cases p with
    | metadataBase =>
        exact absurd rfl hp
    | helper a =>
        rcases helper_of_run hruns a with ⟨done, -, hes⟩
        refine Lists.popped_eq_nil fun m hm => ?_
        rw [hes] at hm
        rcases List.mem_map.1 hm with ⟨_, _, heq⟩
        cases heq

end Trace

/-! ## The start -/

section Start

variable (hruns : Lists.Runs _ (start sched d helpers blkDir) tr st)
  (hread : Readable helpers blkDir) (hstored : ∀ s ∈ stripes, Stored helpers blkDir s ip)

include hruns hread

end Start

end Runs

end BlockReporter

end CoRD
