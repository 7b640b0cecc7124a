import CoRD.Update.SubSets
import CoRD.Trace.Log
import CoRD.Util.Batch

/-!
# Loop — the loops over traces

`multi_doProcess` and `single_doProcess` share one loop: it merges a request into the log, hands the
log over when it is full or the request limit is near, and counts the request.  `requests` of a round
and `logged` of the state are not in the source; they say which requests a log was made of.
-/

namespace CoRD

/-! ## Update vectors -/

/-- The policies of `multi_doProcess`, in the order of their turns. -/
inductive MultiPolicy where
  | raid
  | delta
  | crd
  | crdFlip
  deriving DecidableEq, Repr

def multiPolicies : List MultiPolicy :=
  [.raid, .delta, .crd, .crdFlip]

/-- The update block of a local block; flipped, the range is mirrored in the block. -/
def updBlk (conf : Config) (log : Log) (flip : Bool) (stripeId inId : Nat) : UpdBlock :=
  let startEnd := log.gloBlkId2startEnd.getD (stripeId * conf.ecK + inId) (0, 0)
  if flip ∧ inId % 2 = 1 then
    let newStart : Int := conf.blocksize - startEnd.2
    let newEnd : Int := conf.blocksize - startEnd.1
    { id := inId, offsetAdd := newStart, updSize := newEnd - newStart }
  else
    { id := inId, offsetAdd := startEnd.1, updSize := startEnd.2 - startEnd.1 }

/-- The update vectors of a log, one for each stripe. -/
def updVecs (conf : Config) (flip : Bool) (log : Log) : List (List UpdBlock) :=
  log.stripeId2locBlkId.toList.map fun stripe =>
    stripe.2.map (updBlk conf log flip stripe.1)

def triggerUpdate (conf : Config) (log : Log) : List (List UpdBlock) :=
  updVecs conf false log

def triggerUpdateByMultiDoProcess (conf : Config) (log : Log) (policy : MultiPolicy) :
    List (List UpdBlock) :=
  updVecs conf (policy = .crdFlip) log

/-! ## The loop -/

/-- A round of updates: the log handed over and the requests it was made of. -/
structure Round where
  requests : List Request
  log : Log

structure LoopState where
  log : Log
  count : Nat
  logged : List Request
  rounds : List Round

def LoopState.init : LoopState :=
  { log := Log.empty, count := 0, logged := [], rounds := [] }

def LoopState.addRequest (conf : Config) (s : LoopState) (r : Request) : LoopState :=
  { s with log := s.log.addRequest conf r, logged := s.logged ++ [r] }

def LoopState.trigger (s : LoopState) : LoopState :=
  { s with log := Log.empty, logged := [], rounds := s.rounds ++ [⟨s.logged, s.log⟩] }

/-- The loop body behind the checks of the line. -/
def LoopState.processRequest (conf : TraceConfig) (reqNum : Nat) (s : LoopState) (r : Request) :
    LoopState :=
  let s := s.addRequest conf.toConfig r
  let s := if s.log.Full conf ∨ reqNum ≤ s.count + 1 then s.trigger else s
  { s with count := s.count + 1 }

/-- The loop over the lines of one trace. -/
def traceLoop (conf : TraceConfig) (reqNum : Nat) : List (List Char) → LoopState → LoopState
  | [], s => s
  | line :: lines, s =>
      match parseLine conf.traceType line with
      | none => traceLoop conf reqNum lines s
      | some r =>
          let s := s.processRequest conf reqNum r
          if reqNum ≤ s.count + 1 then s else traceLoop conf reqNum lines s

/-- All traces; the log is kept from one trace to the next, the count is not. -/
def multiDoProcess (conf : TraceConfig) (reqNum : Nat) (traces : List (List (List Char))) :
    LoopState :=
  traces.foldl (fun s lines => traceLoop conf reqNum lines { s with count := 0 }) LoopState.init

def singleDoProcess (conf : TraceConfig) (reqNum : Nat) (lines : List (List Char)) : LoopState :=
  traceLoop conf reqNum lines LoopState.init

section Loop

variable {conf : TraceConfig} {reqNum : Nat}

/-! ## What holds after every request -/

/-- A property that a request and the start of a trace keep holds at the end of the traces. -/
theorem multiDoProcess_induction {P : LoopState → Prop} (hinit : P LoopState.init)
    (hcount : ∀ s : LoopState, P s → P { s with count := 0 })
    (hstep : ∀ s r, P s → P (s.processRequest conf reqNum r)) (traces : List (List (List Char))) :
    P (multiDoProcess conf reqNum traces) := by
  have hloop : ∀ lines s, P s → P (traceLoop conf reqNum lines s) := by
    intro lines
    induction lines with
    | nil =>
        exact fun s hs => hs
    | cons line lines ih =>
        intro s hs
        unfold traceLoop
        cases parseLine conf.traceType line with
        | none =>
            exact ih s hs
        | some r =>
            have hnext := hstep s r hs
            simp only
            split
            · exact hnext
            · exact ih _ hnext
  induction traces using List.reverseRecOn with
  | nil =>
      exact hinit
  | append_singleton traces lines ih =>
      rw [multiDoProcess, List.foldl_concat]
      exact hloop lines _ (hcount _ ih)

/-- Every log is the log of its requests. -/
structure LoopState.LogsOf (conf : Config) (s : LoopState) : Prop where
  log_eq : s.log = logOf conf s.logged
  round_log : ∀ rd ∈ s.rounds, rd.log = logOf conf rd.requests

theorem logsOf_init (conf : Config) : LoopState.init.LogsOf conf where
  log_eq := rfl
  round_log := fun _ hrd => absurd hrd List.not_mem_nil

theorem LoopState.LogsOf.addRequest {conf : Config} {s : LoopState} (h : s.LogsOf conf)
    (r : Request) : (s.addRequest conf r).LogsOf conf where
  log_eq := by
    show s.log.addRequest conf r = logOf conf (s.logged ++ [r])
    rw [logOf_concat, h.log_eq]
  round_log := h.round_log

theorem LoopState.LogsOf.trigger {conf : Config} {s : LoopState} (h : s.LogsOf conf) :
    s.trigger.LogsOf conf where
  log_eq := rfl
  round_log := by
    intro rd hrd
    rcases List.mem_append.1 hrd with hold | hnew
    · exact h.round_log rd hold
    · exact List.mem_singleton.1 hnew ▸ h.log_eq

theorem LoopState.LogsOf.processRequest {s : LoopState} (h : s.LogsOf conf.toConfig) (r : Request) :
    (s.processRequest conf reqNum r).LogsOf conf.toConfig := by
  have hadd := h.addRequest r
  unfold LoopState.processRequest
  simp only
  split
  · exact ⟨hadd.trigger.log_eq, hadd.trigger.round_log⟩
  · exact ⟨hadd.log_eq, hadd.round_log⟩

theorem multiDoProcess_logsOf (conf : TraceConfig) (reqNum : Nat)
    (traces : List (List (List Char))) :
    (multiDoProcess conf reqNum traces).LogsOf conf.toConfig :=
  multiDoProcess_induction (logsOf_init _) (fun _ h => ⟨h.log_eq, h.round_log⟩)
    (fun _ r h => h.processRequest r) traces

end Loop

end CoRD
