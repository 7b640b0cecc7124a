import Mathlib.Algebra.Order.BigOperators.Group.Finset
import CoRD.Network.Round

/-!
# Progress — a round neither blocks nor ends too early

Two conditions on the scripts of a round:

* a rank on mailboxes that grows from every pop to every send behind it, which rules out hosts
  that wait for each other;
* a depth on hosts such that every server ends with a message to a host of smaller depth, down to
  the root, so that a finished root means a finished round.

Under the first some host of an unfinished round can move (`InRound.exists_canStep`) and every
round can be completed (`InRound.exists_completed`); under the second, once the root is done every
script is over and every mailbox empty (`InRound.over_of_root`).
-/

namespace MsgNet

variable {Host Chan Msg Store Err : Type}

/-- Batches are non-empty, and every send stands behind pops of smaller rank only. -/
def Ranked (rank : Host → Chan → Nat) (h : Host) : List (Act Host Chan Msg) → Prop
  | [] => True
  | .snd _ _ _ :: s => Ranked rank h s
  | .rcv c ms :: s =>
      ms ≠ [] ∧ (∀ dst c' m, .snd dst c' m ∈ s → rank h c < rank dst c') ∧ Ranked rank h s

/-- The script is empty or ends with a message to a host of smaller depth. -/
def Closing (depth : Host → Nat) (h : Host) : List (Act Host Chan Msg) → Prop
  | [] => True
  | [.snd dst _ _] => depth dst < depth h
  | [.rcv _ _] => False
  | _ :: a :: s => Closing depth h (a :: s)

theorem Closing.tail {depth : Host → Nat} {h : Host} {a : Act Host Chan Msg}
    {s : List (Act Host Chan Msg)} (hc : Closing depth h (a :: s)) : Closing depth h s := by
  cases s with
  | nil =>
      trivial
  | cons b s =>
      cases a <;> exact hc

theorem ranked_map_snd {α : Type} (rank : Host → Chan → Nat) (h : Host) (l : List α)
    (dst : α → Host) (c' : Chan) (msg : α → Msg) :
    Ranked rank h (l.map fun a => (.snd (dst a) c' (msg a) : Act Host Chan Msg)) := by
  induction l with
  | nil =>
      trivial
  | cons a l ih =>
      exact ih

theorem closing_map_snd {α : Type} {depth : Host → Nat} {h : Host} {l : List α} {dst : α → Host}
    (c' : Chan) (msg : α → Msg) (hl : ∀ a ∈ l, depth (dst a) < depth h) :
    Closing depth h (l.map fun a => (.snd (dst a) c' (msg a) : Act Host Chan Msg)) := by
  induction l with
  | nil =>
      trivial
  | cons a l ih =>
      cases l with
      | nil =>
          exact hl a (by simp)
      | cons b l =>
          exact ih fun x hx => hl x (List.mem_cons_of_mem _ hx)

theorem SendsOnly.ranked {s : List (Act Host Chan Msg)} (hs : SendsOnly s)
    (rank : Host → Chan → Nat) (h : Host) : Ranked rank h s := by
  induction s with
  | nil =>
      trivial
  | cons a s ih =>
      cases a with
      | snd dst c' m =>
          exact ih fun c' ms hmem => hs c' ms (List.mem_cons_of_mem _ hmem)
      | rcv c' ms =>
          exact absurd (List.mem_cons_self) (hs c' ms)

theorem closing_append {depth : Host → Nat} {h : Host} (s : List (Act Host Chan Msg))
    {t : List (Act Host Chan Msg)} (hne : t ≠ []) (ht : Closing depth h t) :
    Closing depth h (s ++ t) := by
  induction s with
  | nil =>
      exact ht
  | cons a s ih =>
      cases hst : s ++ t with
      | nil =>
          exact absurd (List.append_eq_nil_iff.1 hst).2 hne
      | cons b u =>
          rw [hst] at ih
          rw [List.cons_append, hst]
          cases a <;> exact ih

theorem ranked_rcvRest {rank : Host → Chan → Nat} {h : Host} {c : Chan} (ms : List Msg)
    {s : List (Act Host Chan Msg)}
    (hs : ∀ dst c' m, .snd dst c' m ∈ s → rank h c < rank dst c') (hranked : Ranked rank h s) :
    Ranked rank h (rcvRest c ms s) := by
  cases ms with
  | nil =>
      exact hranked
  | cons m ms =>
      exact ⟨by simp, hs, hranked⟩

theorem closing_rcvRest {depth : Host → Nat} {h : Host} (c : Chan) (ms : List Msg)
    {s : List (Act Host Chan Msg)} (hne : s ≠ []) (hs : Closing depth h s) :
    rcvRest c ms s ≠ [] ∧ Closing depth h (rcvRest c ms s) := by
  cases ms with
  | nil =>
      exact ⟨hne, hs⟩
  | cons m ms =>
      cases s with
      | nil =>
          exact absurd rfl hne
      | cons a s =>
          exact ⟨by simp [rcvRest], hs⟩

theorem Closing.exists_snd {depth : Host → Nat} {h : Host} {s : List (Act Host Chan Msg)}
    (hc : Closing depth h s) (hne : s ≠ []) :
    ∃ dst c m, .snd dst c m ∈ s ∧ depth dst < depth h := by
  induction s with
  | nil =>
      exact absurd rfl hne
  | cons a s ih =>
      cases s with
      | nil =>
          cases a with
          | snd dst c m =>
              exact ⟨dst, c, m, by simp, hc⟩
          | rcv c ms =>
              exact absurd hc (by simp [Closing])
      | cons b s =>
          rcases ih hc.tail (by simp) with ⟨dst, c, m, hmem, hlt⟩
          exact ⟨dst, c, m, List.mem_cons_of_mem _ hmem, hlt⟩

namespace Leaves

variable {s s' : List (Act Host Chan Msg)} {rank : Host → Chan → Nat} {depth : Host → Nat}
  {h : Host}

theorem ranked (hl : Leaves s s') (hs : Ranked rank h s) : Ranked rank h s' := by
  induction hl with
  | refl =>
      exact hs
  | snd _ ih =>
      exact ih
  | @rcv t c ms ms' m _ _ ih =>
      cases ms' with
      | nil =>
          exact ih.2.2
      | cons m' ms' =>
          exact ⟨by simp, ih.2⟩

theorem closing (hl : Leaves s s') (hs : Closing depth h s) : Closing depth h s' := by
  induction hl with
  | refl =>
      exact hs
  | snd _ ih =>
      exact ih.tail
  | @rcv t c ms ms' m _ _ ih =>
      cases ms' with
      | nil =>
          exact ih.tail
      | cons m' ms' =>
          cases t with
          | nil =>
              exact absurd ih (by simp [Closing])
          | cons b t =>
              exact ih

end Leaves

section Rounds

variable [DecidableEq Host] [DecidableEq Chan]

/-- A round whose scripts have a rank and a depth. -/
structure Live (N : Network Host Chan Msg Store Err) (F : Round Host Chan Msg Store) where
  rank : Host → Chan → Nat
  depth : Host → Nat
  ranked : ∀ h, Ranked rank h (F.plan h)
  closing : ∀ h, h ≠ N.root → Closing depth h (F.plan h)

variable {N : Network Host Chan Msg Store Err} {F : Round Host Chan Msg Store} {r : Nat}
  {s : State Host Chan Msg Store Err} {rem : Host → List (Act Host Chan Msg)}

namespace InRound

/-- What is still to be sent to a mailbox is still to be popped from it. -/
theorem mem_recvs_of_snd (I : InRound N F r s rem) {q h : Host} {c : Chan} {m : Msg}
    (hmem : .snd h c m ∈ rem q) : m ∈ recvs c (rem h) := by
  have hq : q ∈ F.hosts := I.mem_hosts (List.ne_nil_of_mem hmem)
  rw [← I.box h c]
  exact Multiset.mem_add.2 (Or.inr (Multiset.mem_sum.2 ⟨q, hq, mem_sends.2 hmem⟩))

/-- What is still to be popped from a mailbox is in it or still to be sent to it. -/
theorem exists_snd_of_mem_recvs (I : InRound N F r s rem) {h : Host} {c : Chan} {m : Msg}
    (hmem : m ∈ recvs c (rem h)) (hbox : s.box h c = []) : ∃ q, .snd h c m ∈ rem q := by
  rw [← I.box h c, hbox] at hmem
  have hsum : m ∈ ∑ q ∈ F.hosts, sends h c (rem q) := by simpa using hmem
  rcases Multiset.mem_sum.1 hsum with ⟨q, _, hq⟩
  exact ⟨q, mem_sends.1 hq⟩

/-! ## The end of a round -/

/-- Once the root's script is over, so is every other. -/
theorem over_of_root (I : InRound N F r s rem) (L : Live N F) (hroot : rem N.root = []) :
    ∀ h, rem h = [] := by
  have hind : ∀ n h, L.depth h = n → rem h = [] := by
    intro n
    induction n using Nat.strong_induction_on with
    | _ n ih =>
        intro h hd
        by_cases hh : h = N.root
        · rw [hh, hroot]
        by_contra hne
        rcases ((I.left h).closing (L.closing h hh)).exists_snd hne with ⟨dst, c, m, hmem, hlt⟩
        have hdst : rem dst = [] := ih (L.depth dst) (by omega) dst rfl
        have := I.mem_recvs_of_snd hmem
        simp [hdst, recvs] at this
  exact fun h => hind (L.depth h) h rfl

/-- A host that has finished its program for the round ends as the round says. -/
theorem post_of_finished (I : InRound N F r s rem) {h : Host} (hdone : s.proc h = .done)
    (hround : s.round h = r) : F.post h (s.store h) := by
  cases I.phase h with
  | running _ hp =>
      rw [hdone] at hp
      exact hp.2
  | waiting _ hrd _ _ =>
      omega

/-- A host whose script is over has taken part in the round. -/
theorem round_of_over (I : InRound N F r s rem) {h : Host} (hplan : F.plan h ≠ [])
    (hrem : rem h = []) : s.round h = r := by
  cases I.phase h with
  | running hrd _ =>
      exact hrd
  | waiting _ _ hs _ =>
      exact absurd (hs.symm.trans hrem) hplan

/-! ## No deadlock -/

/-- Host `h` has something to send, or something to pop that is in its mailbox. -/
def Unblocked (s : State Host Chan Msg Store Err) (rem : Host → List (Act Host Chan Msg))
    (h : Host) : Prop :=
  ∃ a t, rem h = a :: t ∧ ∀ c ms, a = .rcv c ms → s.box h c ≠ []

/-- A host that waits for a message has one in its mailbox, or some host on which it depends,
down the rank, is not blocked. -/
theorem exists_unblocked_of_pop (I : InRound N F r s rem) (L : Live N F) {h : Host} {c : Chan}
    {ms : List Msg} {t : List (Act Host Chan Msg)} (hrem : rem h = .rcv c ms :: t) :
    ∃ h', Unblocked s rem h' := by
  have hind : ∀ n h c ms t, L.rank h c = n → rem h = .rcv c ms :: t → ∃ h', Unblocked s rem h' := by
    intro n
    induction n using Nat.strong_induction_on with
    | _ n ih =>
        intro h c ms t hrank hrem
        by_cases hbox : s.box h c = []
        · have hranked := (I.left h).ranked (L.ranked h)
          rw [hrem] at hranked
          obtain ⟨m, hm⟩ := List.exists_mem_of_ne_nil _ hranked.1
          have hmem : m ∈ recvs c (rem h) := by simp [hrem, recvs, hm]
          rcases I.exists_snd_of_mem_recvs hmem hbox with ⟨q, hq⟩
          cases hremq : rem q with
          | nil =>
              simp [hremq] at hq
          | cons a t' =>
              cases a with
              | snd dst c' m' =>
                  exact ⟨q, _, _, hremq, by simp⟩
              | rcv c' ms' =>
                  have hq' : .snd h c m ∈ t' := by simpa [hremq] using hq
                  have hrq := (I.left q).ranked (L.ranked q)
                  rw [hremq] at hrq
                  have hlt := hrq.2.1 _ _ _ hq'
                  exact ih (L.rank q c') (by omega) q c' ms' t' rfl hremq
        · refine ⟨h, _, _, hrem, fun c' ms' ha => ?_⟩
          cases ha
          exact hbox
  exact hind _ h c ms t rfl hrem

/-- Some host of an unfinished round is not blocked. -/
theorem exists_unblocked (I : InRound N F r s rem) (L : Live N F) {h : Host} (hne : rem h ≠ []) :
    ∃ h', Unblocked s rem h' := by
  cases hrem : rem h with
  | nil =>
      exact absurd hrem hne
  | cons a t =>
      cases a with
      | snd dst c m =>
          exact ⟨h, _, _, hrem, by simp⟩
      | rcv c ms =>
          exact I.exists_unblocked_of_pop L hrem

theorem not_aborted (I : InRound N F r s rem) (h : Host) (e : Err) : s.proc h ≠ .abort e := by
  intro hproc
  have hphase := I.phase h
  rw [hproc] at hphase
  cases hphase with
  | running _ hp =>
      exact hp
  | waiting _ _ _ hp =>
      exact hp

theorem canStep_of_unblocked (I : InRound N F r s rem) {h : Host} (hU : Unblocked s rem h) :
    CanStep N s h := by
  rcases hU with ⟨a, t, hrem, hbox⟩
  have hphase := I.phase h
  cases hproc : s.proc h with
  | done =>
      rw [hproc] at hphase
      cases hphase with
      | running _ hp =>
          have : rem h = [] := hp.1
          simp [hrem] at this
      | waiting hroot _ hs hp =>
          rcases hp.2 with ⟨hnil, _⟩ | ⟨m, t', hplan, _⟩
          · simp [← hs, hrem] at hnil
          · rw [← hs, hrem] at hplan
            cases hplan
            obtain ⟨pk, ps, hpk⟩ := List.exists_cons_of_ne_nil (hbox _ _ rfl)
            exact ⟨_, _, .serve hroot hproc hpk⟩
  | abort e =>
      exact absurd hproc (I.not_aborted h e)
  | send dst c m p =>
      exact ⟨_, _, .send hproc⟩
  | recv c k =>
      rcases I.running_of_not_waiting (h := h) (by
        rw [hproc]
        exact fun _ => follows_nil_recv) with ⟨_, hp⟩
      rw [hproc] at hp
      rcases hp with ⟨ms, t', hrem', _⟩
      rw [hrem] at hrem'
      cases hrem'
      obtain ⟨pk, ps, hpk⟩ := List.exists_cons_of_ne_nil (hbox _ _ rfl)
      exact ⟨_, _, .recv hproc hpk⟩
  | load k =>
      exact ⟨_, _, .load hproc⟩
  | save σ p =>
      exact ⟨_, _, .save hproc⟩

/-- Some host of an unfinished round can move. -/
theorem exists_canStep (I : InRound N F r s rem) (L : Live N F) {h : Host} (hne : rem h ≠ []) :
    ∃ h' ∈ F.hosts, CanStep N s h' := by
  rcases I.exists_unblocked L hne with ⟨h', hU⟩
  refine ⟨h', ?_, I.canStep_of_unblocked hU⟩
  rcases hU with ⟨a, t, hrem, _⟩
  exact I.mem_hosts (by simp [hrem])

end InRound

/-! ## Every round can be completed -/

/-- The number of messages a script still sends or pops. -/
def msgCount : List (Act Host Chan Msg) → Nat
  | [] => 0
  | .snd _ _ _ :: s => msgCount s + 1
  | .rcv _ ms :: s => msgCount s + ms.length

omit [DecidableEq Host] [DecidableEq Chan] in
theorem msgCount_rcvRest (c : Chan) (ms : List Msg) (s : List (Act Host Chan Msg)) :
    msgCount (rcvRest c ms s) = msgCount s + ms.length := by
  cases ms <;> rfl

omit [DecidableEq Chan] in
theorem sum_msgCount_update {hosts : Finset Host} {h : Host} (hh : h ∈ hosts)
    {t : List (Act Host Chan Msg)} (hlt : msgCount t < msgCount (rem h)) :
    ∑ q ∈ hosts, msgCount (Function.update rem h t q) < ∑ q ∈ hosts, msgCount (rem q) := by
  refine Finset.sum_lt_sum (fun q _ => ?_) ⟨h, hh, by simpa using hlt⟩
  by_cases hq : q = h
  · subst hq
    simpa using hlt.le
  · simp [hq]

namespace InRound

/-- A host that is not blocked gets to its next message. -/
theorem exists_message (I : InRound N F r s rem) {h : Host} (hU : Unblocked s rem h) :
    ∃ es s' rem', Runs N s es s' ∧ InRound N F r s' rem' ∧
      ∑ q ∈ F.hosts, msgCount (rem' q) < ∑ q ∈ F.hosts, msgCount (rem q) ∧
      ∀ h', h' ≠ h → s'.proc h' = s.proc h' := by
  rcases hU with ⟨a, t, hrem, hbox⟩
  have hmem : h ∈ F.hosts := I.mem_hosts (by simp [hrem])
  -- Induction on the program: local steps come first, then the message.
  generalize hproc : s.proc h = p
  induction p generalizing s with
  | done =>
      have hphase := I.phase h
      rw [hproc] at hphase
      cases hphase with
      | running _ hp =>
          have : rem h = [] := hp.1
          simp [hrem] at this
      | waiting hroot _ hs hp =>
          rcases hp.2 with ⟨hnil, _⟩ | ⟨m, t', hplan, _⟩
          · simp [← hs, hrem] at hnil
          · rw [← hs, hrem] at hplan
            cases hplan
            obtain ⟨pk, ps, hpk⟩ := List.exists_cons_of_ne_nil (hbox _ _ rfl)
            rcases I.serve_step hroot hproc hpk with ⟨t', hrem', _, hI⟩
            refine ⟨_, _, _, .single (.serve hroot hproc hpk), hI, ?_, fun h' hh => ?_⟩
            · exact sum_msgCount_update hmem (by simp [hrem', msgCount])
            · simp [hh]
  | abort e =>
      exact absurd hproc (I.not_aborted h e)
  | send dst c m p _ =>
      rcases I.sent_step hproc with ⟨t', hrem', _, hI⟩
      refine ⟨_, _, _, .single (.send hproc), hI, ?_, fun h' hh => ?_⟩
      · exact sum_msgCount_update hmem (by simp [hrem', msgCount])
      · simp [hh]
  | recv c k _ =>
      rcases I.running_of_not_waiting (h := h) (by
        rw [hproc]
        exact fun _ => follows_nil_recv) with ⟨_, hp⟩
      rw [hproc] at hp
      rcases hp with ⟨ms, t', hrem', _⟩
      have hbox' : s.box h c ≠ [] := by
        rw [hrem] at hrem'
        cases hrem'
        exact hbox _ _ rfl
      obtain ⟨pk, ps, hpk⟩ := List.exists_cons_of_ne_nil hbox'
      rcases I.recv_step hproc hpk with ⟨ms, ms', t', hrem', hperm, _, hI⟩
      refine ⟨_, _, _, .single (.recv hproc hpk), hI, ?_, fun h' hh => ?_⟩
      · refine sum_msgCount_update hmem ?_
        have := hperm.length_eq
        simp only [List.length_cons] at this
        simp only [hrem', msgCount, msgCount_rcvRest]
        omega
      · simp [hh]
  | load k ih =>
      rcases ih (s.store h) (s := s.setProc h (k (s.store h))) (I.load_step hproc) hbox
        (by simp) with ⟨es, s', rem', hr, hI, hlt, hframe⟩
      refine ⟨_, s', rem', (Runs.single (.load hproc)).trans hr, hI, hlt, fun h' hh => ?_⟩
      rw [hframe h' hh]
      simp [hh]
  | save σ p ih =>
      rcases ih (s := (s.setProc h p).setStore h σ) (I.save_step hproc) hbox
        (by simp) with ⟨es, s', rem', hr, hI, hlt, hframe⟩
      refine ⟨_, s', rem', (Runs.single (.save hproc)).trans hr, hI, hlt, fun h' hh => ?_⟩
      rw [hframe h' hh]
      simp [hh]

/-- A host without messages left gets to the end of its program. -/
theorem exists_done (I : InRound N F r s rem) {h : Host} (hrem : rem h = []) :
    ∃ es s', Runs N s es s' ∧ InRound N F r s' rem ∧ s'.proc h = .done ∧
      ∀ h', h' ≠ h → s'.proc h' = s.proc h' := by
  -- with nothing left to do, what remains of the program only loads and saves
  generalize hproc : s.proc h = p
  have hlocal : ∃ Q : Store → List (Act Host Chan Msg) → Prop, Follows Q p (s.store h) [] := by
    have hphase := I.phase h
    rw [hproc] at hphase
    cases hphase with
    | running _ hp =>
        rw [hrem] at hp
        exact ⟨_, hp⟩
    | waiting _ _ _ hp =>
        exact ⟨_, hp⟩
  induction p generalizing s with
  | done =>
      exact ⟨[], s, .refl s, I, hproc, fun _ _ => rfl⟩
  | abort e =>
      exact absurd hproc (I.not_aborted h e)
  | send dst c m p _ =>
      rcases hlocal with ⟨Q, hQ⟩
      exact absurd hQ follows_nil_send
  | recv c k _ =>
      rcases hlocal with ⟨Q, hQ⟩
      exact absurd hQ follows_nil_recv
  | load k ih =>
      rcases ih (s.store h) (s := s.setProc h (k (s.store h))) (I.load_step hproc)
        (by simp) hlocal with ⟨es, s', hr, hI, hd, hframe⟩
      refine ⟨_, s', (Runs.single (.load hproc)).trans hr, hI, hd, fun h' hh => ?_⟩
      rw [hframe h' hh]
      simp [hh]
  | save σ p ih =>
      have hlocal' : ∃ Q : Store → List (Act Host Chan Msg) → Prop,
          Follows Q p (((s.setProc h p).setStore h σ).store h) [] := by
        rcases hlocal with ⟨Q, hQ⟩
        have hp : Follows Q p σ [] := hQ
        exact ⟨Q, by simpa using hp⟩
      rcases ih (s := (s.setProc h p).setStore h σ) (I.save_step hproc)
        (by simp) hlocal' with ⟨es, s', hr, hI, hd, hframe⟩
      refine ⟨_, s', (Runs.single (.save hproc)).trans hr, hI, hd, fun h' hh => ?_⟩
      rw [hframe h' hh]
      simp [hh]

theorem exists_over (I : InRound N F r s rem) (L : Live N F) {T : Finset Host}
    (hT : F.hosts ⊆ T) (hout : ∀ h, h ∉ T → s.proc h = .done) :
    ∃ es s' rem', Runs N s es s' ∧ InRound N F r s' rem' ∧ (∀ h, rem' h = []) ∧
      ∀ h, h ∉ T → s'.proc h = .done := by
  generalize hn : ∑ q ∈ F.hosts, msgCount (rem q) = n
  induction n using Nat.strong_induction_on generalizing s rem with
  | _ n ih =>
      by_cases hall : ∀ h, rem h = []
      · exact ⟨[], s, rem, .refl s, I, hall, hout⟩
      · rcases not_forall.1 hall with ⟨h, hne⟩
        rcases I.exists_unblocked L hne with ⟨h', hU⟩
        have hmem : h' ∈ F.hosts := by
          rcases hU with ⟨a, t, hrem, _⟩
          exact I.mem_hosts (by simp [hrem])
        rcases I.exists_message hU with ⟨es, s₁, rem₁, hr, hI, hlt, hframe⟩
        have hout₁ : ∀ q, q ∉ T → s₁.proc q = .done := by
          intro q hq
          rw [hframe q (fun hx => hq (hx ▸ hT hmem))]
          exact hout q hq
        rcases ih _ (hn ▸ hlt) hI hout₁ rfl with ⟨es', s₂, rem₂, hr', hI', hover, hout₂⟩
        exact ⟨_, s₂, rem₂, hr.trans hr', hI', hover, hout₂⟩

/-- From every state of a round the round can be completed; `T` holds the hosts that may still have
something to do. -/
theorem exists_completed (I : InRound N F r s rem) (L : Live N F) {T : Finset Host}
    (hT : F.hosts ⊆ T) (hout : ∀ h, h ∉ T → s.proc h = .done) :
    ∃ es s' rem', Runs N s es s' ∧ InRound N F r s' rem' ∧ (∀ h, rem' h = []) ∧
      ∀ h, s'.proc h = .done := by
  rcases I.exists_over L hT hout with ⟨es, s₁, rem₁, hr, hI, hover, hout₁⟩
  have hfin : ∀ S : Finset Host, ∃ es' s', Runs N s₁ es' s' ∧ InRound N F r s' rem₁ ∧
      (∀ h ∈ S, s'.proc h = .done) ∧ ∀ h, h ∉ T → s'.proc h = .done := by
    intro S
    induction S using Finset.induction_on with
    | empty =>
        exact ⟨[], s₁, .refl s₁, hI, by simp, hout₁⟩
    | insert h S hS ih =>
        rcases ih with ⟨es', s', hr', hI', hdone, hout'⟩
        rcases hI'.exists_done (hover h) with ⟨es'', s'', hr'', hI'', hd, hframe⟩
        refine ⟨_, s'', hr'.trans hr'', hI'', fun q hq => ?_, fun q hq => ?_⟩
        · by_cases hqh : q = h
          · rw [hqh, hd]
          · rw [hframe q hqh]
            exact hdone q (by simpa [hqh] using hq)
        · by_cases hqh : q = h
          · rw [hqh, hd]
          · rw [hframe q hqh]
            exact hout' q hq
  rcases hfin T with ⟨es', s', hr', hI', hdone, hout'⟩
  refine ⟨_, s', rem₁, hr.trans hr', hI', hover, fun h => ?_⟩
  by_cases hh : h ∈ T
  · exact hdone h hh
  · exact hout' h hh

end InRound

end Rounds

end MsgNet
