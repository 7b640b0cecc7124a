import CoRD.Util.CondVar

/-!
# WakeUp — the three threads of a helper

A helper reads its packets in one thread, adds what it pulls from the node before it in the main
thread, and sends the results in a third.  `_diskFlag` and `_waitingToSend` tell the next thread how
far the one before is.  Both are tested outside of the lock, so the last notification can fall
between the test and the wait.
-/

namespace CoRD

namespace WakeUp

/-! ## What the threads share -/

inductive Tid where
  | disk
  | main
  | send
  deriving DecidableEq

/-- `_diskMtx[i]`, and `senderMtx[j]` of the job; with one job this is `_mainSenderMtx`. -/
inductive Mutex where
  | disk (i : Nat)
  | sender (j : Nat)
  deriving DecidableEq

/-- `_diskCv`, and `senderCondVar[j]`; with one job this is `_mainSenderCondVar`. -/
inductive Cond where
  | disk
  | sender (j : Nat)
  deriving DecidableEq

/-- The flags of the packets, and `_waitingToSend` of each job. -/
structure Mem where
  diskFlag : Nat → Bool
  waitingToSend : Nat → Nat

def Mem.setFlag (i : Nat) (mem : Mem) : Mem :=
  { mem with diskFlag := Function.update mem.diskFlag i true }

def Mem.ready (j : Nat) (mem : Mem) : Mem :=
  { mem with waitingToSend := Function.update mem.waitingToSend j (mem.waitingToSend j + 1) }

abbrev Instr := CondVar.Instr Mem Mutex Cond

/-! ## The threads -/

/-- A packet is read and multiplied, then its flag is set. -/
def readPacket (i : Nat) : List Instr :=
  [.work, .lock (.disk i), .write (Mem.setFlag i), .notify .disk, .unlock (.disk i)]

def readWorker (packetCnt : Nat) : List Instr :=
  (List.range packetCnt).flatMap readPacket

/-- What has come from the node before is added for job `j`, if there is one. -/
def pullPacket (pulls : Nat → Bool) (j : Nat) : List Instr :=
  (if pulls j then [.work] else []) ++
    [.write (Mem.ready j), .lock (.sender j), .notify (.sender j), .unlock (.sender j)]

/-- `while (!_diskFlag[pktId])`. -/
def awaitDisk (pktId : Nat) : Instr :=
  .await (fun mem => mem.diskFlag pktId) (.disk pktId) .disk

def completion (packetCnt nj : Nat) (pulls : Nat → Bool) : List Instr :=
  (List.range packetCnt).flatMap fun pktId =>
    awaitDisk pktId :: (List.range nj).flatMap (pullPacket pulls)

/-- `while (i >= waitingToSend[j])`. -/
def awaitSend (i j : Nat) : Instr :=
  .await (fun mem => decide (i < mem.waitingToSend j)) (.sender j) (.sender j)

def sendWorker (packetCnt nj : Nat) : List Instr :=
  (List.range packetCnt).flatMap fun i =>
    (List.range nj).flatMap fun j => [awaitSend i j, .work]

/-- The threads of a helper with `nj` jobs. -/
def threads (packetCnt nj : Nat) (pulls : Nat → Bool) : Tid → List Instr
  | .disk => readWorker packetCnt
  | .main => completion packetCnt nj pulls
  | .send => sendWorker packetCnt nj

/-- The first node of the chain has nothing to pull. -/
def PipeDRWorker.threads (packetCnt id : Nat) : Tid → List Instr :=
  WakeUp.threads packetCnt 1 fun _ => id ≠ 0

/-- One job for each lost block, with the position of the node in its chain. -/
def PipeMulDRWorker.threads (packetCnt : Nat) (ids : List Nat) : Tid → List Instr :=
  WakeUp.threads packetCnt ids.length fun j => ids.getD j 0 ≠ 0

/-- The helpers only; nothing is pulled. -/
def ConvDRWorker.threads (packetCnt : Nat) : Tid → List Instr :=
  WakeUp.threads packetCnt 1 fun _ => false

/-- The threads are started; with several jobs the flags of an earlier request may still be set. -/
def started (code : Tid → List Instr) (diskFlag : Nat → Bool) : CondVar.State Tid Mem Mutex Cond :=
  CondVar.start code ⟨diskFlag, fun _ => 0⟩

/-! ## The discipline -/

section Discipline

variable {packetCnt nj : Nat} {pulls : Nat → Bool} {ready : Mem → Bool} {m : Mutex} {c : Cond}

theorem not_await_mem_readWorker : .await ready m c ∉ readWorker packetCnt := by
  simp [readWorker, readPacket]

theorem await_mem_completion (h : .await ready m c ∈ completion packetCnt nj pulls) :
    ∃ pktId, CondVar.Instr.await ready m c = awaitDisk pktId := by
  rcases List.mem_flatMap.1 h with ⟨pktId, -, hin⟩
  rcases List.mem_cons.1 hin with heq | hin
  · exact ⟨pktId, heq⟩
  · rcases List.mem_flatMap.1 hin with ⟨j, -, hin⟩
    rw [pullPacket] at hin
    split at hin <;> simp at hin

theorem await_mem_sendWorker (h : .await ready m c ∈ sendWorker packetCnt nj) :
    ∃ i j, CondVar.Instr.await ready m c = awaitSend i j := by
  rcases List.mem_flatMap.1 h with ⟨i, -, hin⟩
  rcases List.mem_flatMap.1 hin with ⟨j, -, hin⟩
  rcases List.mem_cons.1 hin with heq | hin
  · exact ⟨i, j, heq⟩
  · simp at hin

/-- A flag that is set is notified at once. -/
theorem follows_readWorker :
    CondVar.Follows (CondVar.Signals (threads packetCnt nj pulls) .disk)
      (readWorker packetCnt) := by
  apply CondVar.Follows.flatMap fun i r r' => CondVar.Signals.append
  intro i _
  refine ⟨trivial, Or.inl rfl, ?_, trivial, trivial, trivial⟩
  intro t ht ready m c hawait mem hfalse htrue
  cases t with
  | disk => exact absurd rfl ht
  | main =>
      rcases await_mem_completion hawait with ⟨pktId, heq⟩
      cases heq
      exact Or.inl ⟨_, rfl⟩
  | send =>
      -- the flags are not what the sender waits for
      rcases await_mem_sendWorker hawait with ⟨i', j, heq⟩
      cases heq
      exact absurd htrue (Bool.eq_false_iff.1 hfalse)

theorem not_uses_sender_readWorker {j : Nat} :
    ¬ CondVar.Uses (.sender j) (readWorker packetCnt) := by
  rintro (hunlock | ⟨ready, c, hawait⟩)
  · simp [readWorker, readPacket] at hunlock
  · exact not_await_mem_readWorker hawait

theorem follows_pullPacket (j : Nat) :
    CondVar.Follows (CondVar.Signals (threads packetCnt nj pulls) .main) (pullPacket pulls j) := by
  have hnotify : CondVar.Follows (CondVar.Signals (threads packetCnt nj pulls) .main)
      [.write (Mem.ready j), .lock (.sender j), .notify (.sender j), .unlock (.sender j)] := by
    refine ⟨?_, Or.inl rfl, trivial, trivial, trivial⟩
    intro t ht ready m c hawait mem hfalse htrue
    cases t with
    | disk => exact absurd hawait not_await_mem_readWorker
    | main => exact absurd rfl ht
    | send =>
        rcases await_mem_sendWorker hawait with ⟨i, j', heq⟩
        cases heq
        by_cases hj : j' = j
        · subst hj
          refine Or.inr ⟨⟨_, rfl⟩, fun v huses => ?_⟩
          cases v with
          | disk => exact absurd huses not_uses_sender_readWorker
          | main => exact Or.inr rfl
          | send => exact Or.inl rfl
        · -- the counter of another job
          have hsame : (Mem.ready j mem).waitingToSend j' = mem.waitingToSend j' :=
            Function.update_of_ne hj _ _
          simp only [hsame] at htrue
          exact absurd htrue (Bool.eq_false_iff.1 hfalse)
  rw [pullPacket]
  split
  · exact ⟨trivial, hnotify⟩
  · exact hnotify

theorem follows_completion :
    CondVar.Follows (CondVar.Signals (threads packetCnt nj pulls) .main)
      (completion packetCnt nj pulls) := by
  apply CondVar.Follows.flatMap fun i r r' => CondVar.Signals.append
  intro pktId _
  refine ⟨trivial, ?_⟩
  apply CondVar.Follows.flatMap fun i r r' => CondVar.Signals.append
  intro j _
  exact follows_pullPacket j

theorem follows_sendWorker :
    CondVar.Follows (CondVar.Signals (threads packetCnt nj pulls) .send)
      (sendWorker packetCnt nj) := by
  apply CondVar.Follows.flatMap fun i r r' => CondVar.Signals.append
  intro i _
  apply CondVar.Follows.flatMap fun i r r' => CondVar.Signals.append
  intro j _
  exact ⟨trivial, trivial, trivial⟩

theorem threads_disciplined (packetCnt nj : Nat) (pulls : Nat → Bool) :
    CondVar.Disciplined (threads packetCnt nj pulls) where
  follows u := by
    cases u with
    | disk => exact follows_readWorker
    | main => exact follows_completion
    | send => exact follows_sendWorker
  waiter := by
    intro t t' ready ready' m m' c hawait hawait'
    cases t with
    | disk => exact absurd hawait not_await_mem_readWorker
    | main =>
        rcases await_mem_completion hawait with ⟨pktId, heq⟩
        cases heq
        cases t' with
        | disk => exact absurd hawait' not_await_mem_readWorker
        | main => rfl
        | send =>
            rcases await_mem_sendWorker hawait' with ⟨i, j, heq⟩
            cases heq
    | send =>
        rcases await_mem_sendWorker hawait with ⟨i, j, heq⟩
        cases heq
        cases t' with
        | disk => exact absurd hawait' not_await_mem_readWorker
        | main =>
            rcases await_mem_completion hawait' with ⟨pktId, heq⟩
            cases heq
        | send => rfl

end Discipline

/-! ## Careful runs -/

/-- In every run in which no thread goes to sleep on a condition that holds already, no wake-up is
lost, whatever the number of packets and of jobs. -/
theorem not_lostWakeup_of_careful (packetCnt : Nat) (diskFlag : Nat → Bool) :
    (∀ id s, CondVar.CarefullyReaches (started (PipeDRWorker.threads packetCnt id) diskFlag) s →
      ¬ CondVar.LostWakeup s) ∧
    (∀ ids s, CondVar.CarefullyReaches (started (PipeMulDRWorker.threads packetCnt ids) diskFlag) s →
      ¬ CondVar.LostWakeup s) ∧
    (∀ s, CondVar.CarefullyReaches (started (ConvDRWorker.threads packetCnt) diskFlag) s →
      ¬ CondVar.LostWakeup s) := by
  refine ⟨?_, ?_, ?_⟩
  · intro id s h
    exact CondVar.not_lostWakeup (threads_disciplined _ _ _) h
  · intro ids s h
    exact CondVar.not_lostWakeup (threads_disciplined _ _ _) h
  · intro s h
    exact CondVar.not_lostWakeup (threads_disciplined _ _ _) h

/-- The main thread waits for the first packet, and nothing else has happened. -/
theorem not_lostWakeup_asleep :
    ∃ s, CondVar.CarefullyReaches (started (PipeDRWorker.threads 1 0) fun _ => false) s ∧
      (s.thread .main).phase = .asleep ∧ ¬ CondVar.LostWakeup s := by
  have hstart : CondVar.CarefullyReaches (started (PipeDRWorker.threads 1 0) fun _ => false)
      (started (PipeDRWorker.threads 1 0) fun _ => false) := .refl
  have htest := hstart.own .main rfl (.test rfl) (by rintro (_ | _ | _) <;> decide)
  have henter := htest.own .main rfl (.enter rfl) (by rintro (_ | _ | _) <;> decide)
  have hsleep := henter.sleep .main rfl rfl (by rintro (_ | _ | _) <;> decide)
  exact ⟨_, hsleep, rfl, (not_lostWakeup_of_careful 1 fun _ => false).1 0 _ hsleep⟩

/-! ## A run that is not careful -/

/-- The main thread finds the flag of the only packet unset; before it waits, the disk thread sets
the flag and notifies nobody. -/
theorem exists_lostWakeup :
    ∃ s, CondVar.Reaches (started (threads 1 1 fun _ => false) fun _ => false) s ∧
      CondVar.LostWakeup s := by
  have hstart : CondVar.Reaches (started (threads 1 1 fun _ => false) fun _ => false)
      (started (threads 1 1 fun _ => false) fun _ => false) := .refl
  have htest := hstart.own .main rfl (.test rfl)
  have hread := htest.own .disk rfl .work
  have hlock := hread.own .disk rfl (.lock rfl)
  have hflag := hlock.own .disk rfl .write
  have hnotify := hflag.notifyNone .disk rfl (by intro u; cases u <;> decide)
  have hunlock := hnotify.own .disk rfl .unlock
  have henter := hunlock.own .main rfl (.enter rfl)
  have hsleep := henter.own .main rfl .sleep
  refine ⟨_, hsleep, CondVar.lostWakeup_of_not_mem (t := .main) rfl rfl ?_⟩
  intro u hu
  cases u with
  | disk => exact List.not_mem_nil
  | main => exact absurd rfl hu
  | send =>
      have hsend : .notify .disk ∉ sendWorker 1 1 := by simp [sendWorker, awaitSend]
      exact hsend

/-- It is a run of each of the workers. -/
theorem not_forall_not_lostWakeup :
    (¬ ∀ packetCnt id s, CondVar.Reaches
      (started (PipeDRWorker.threads packetCnt id) fun _ => false) s → ¬ CondVar.LostWakeup s) ∧
    (¬ ∀ packetCnt ids s, CondVar.Reaches
      (started (PipeMulDRWorker.threads packetCnt ids) fun _ => false) s →
        ¬ CondVar.LostWakeup s) ∧
    (¬ ∀ packetCnt s, CondVar.Reaches
      (started (ConvDRWorker.threads packetCnt) fun _ => false) s → ¬ CondVar.LostWakeup s) := by
  rcases exists_lostWakeup with ⟨s, hreach, hlost⟩
  refine ⟨?_, ?_, ?_⟩
  · intro hclaim
    exact hclaim 1 0 s hreach hlost
  · intro hclaim
    exact hclaim 1 [0] s hreach hlost
  · intro hclaim
    exact hclaim 1 s hreach hlost

end WakeUp

end CoRD
