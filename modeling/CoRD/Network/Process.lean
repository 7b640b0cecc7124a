import Mathlib.Data.List.Perm.Basic
import Mathlib.Logic.Function.Basic

/-!
# Process — programs of a host that talks through mailboxes

A host runs a finite program that sends messages to other hosts, pops messages from its own
mailboxes and changes its own store.  A program is a tree: what follows a pop depends on the
message popped, what follows a load on the store.

A *script* lists the messages a program exchanges, with the messages of one loop of pops taken
as a batch whose order is not fixed.  `Follows Q p σ s` says that `p`, started on store `σ`,
exchanges exactly the messages of `s` in every order the batches can arrive in, never aborts, and
ends in `Q`.
-/

namespace MsgNet

/-- A program of one host. -/
inductive Proc (Host Chan Msg Store Err : Type) where
  | done
  | abort (e : Err)
  | send (dst : Host) (c : Chan) (m : Msg) (next : Proc Host Chan Msg Store Err)
  | recv (c : Chan) (next : Msg → Proc Host Chan Msg Store Err)
  | load (next : Store → Proc Host Chan Msg Store Err)
  | save (σ : Store) (next : Proc Host Chan Msg Store Err)

/-- One entry of a script: a message sent, or a batch of messages popped from one mailbox. -/
inductive Act (Host Chan Msg : Type) where
  | snd (dst : Host) (c : Chan) (m : Msg)
  | rcv (c : Chan) (ms : List Msg)

variable {Host Chan Msg Store Err : Type}

namespace Proc

/-- Run `p`, then `q`. -/
def andThen : Proc Host Chan Msg Store Err → Proc Host Chan Msg Store Err →
    Proc Host Chan Msg Store Err
  | done, q => q
  | abort e, _ => abort e
  | send dst c m next, q => send dst c m (next.andThen q)
  | recv c next, q => recv c fun m => (next m).andThen q
  | load next, q => load fun σ => (next σ).andThen q
  | save σ next, q => save σ (next.andThen q)

/-- Send the listed messages in order, then go on with `next`. -/
def sendAll (l : List (Host × Chan × Msg)) (next : Proc Host Chan Msg Store Err) :
    Proc Host Chan Msg Store Err :=
  l.foldr (fun x p => send x.1 x.2.1 x.2.2 p) next

theorem sendAll_append (l l' : List (Host × Chan × Msg)) (next : Proc Host Chan Msg Store Err) :
    sendAll (l ++ l') next = sendAll l (sendAll l' next) :=
  List.foldr_append

/-- Pop `n` messages from one mailbox and fold them into `acc`; `f` may refuse a message. -/
def recvFold {A : Type} (c : Chan) (f : A → Msg → Except Err A)
    (next : A → Proc Host Chan Msg Store Err) : Nat → A → Proc Host Chan Msg Store Err
  | 0, acc => next acc
  | n + 1, acc => recv c fun m =>
      match f acc m with
      | .error e => abort e
      | .ok acc' => recvFold c f next n acc'

/-- The loop `while (1) { pop; count++; if (count == n) break; }` that folds the messages it pops
into `acc`.  The exit test stands behind the pop, so with `n = 0` the loop never ends; a message
that comes then is answered with `never`. -/
def popUntil {A : Type} (c : Chan) (never : Err) (f : A → Msg → A)
    (next : A → Proc Host Chan Msg Store Err) (n : Nat) (acc : A) : Proc Host Chan Msg Store Err :=
  if n = 0 then recv c fun _ => abort never
  else recvFold c (fun a m => .ok (f a m)) next n acc

/-- Run a program alone, with the messages of `inbox` waiting in its mailboxes: the messages it
sends, in order, and its final store.  `none` when it aborts or waits for a message that is not
there. -/
def run [DecidableEq Chan] : Proc Host Chan Msg Store Err → Store → (Chan → List Msg) →
    Option (List (Host × Chan × Msg) × Store)
  | done, σ, _ => some ([], σ)
  | abort _, _, _ => none
  | send dst c m next, σ, inbox =>
      (next.run σ inbox).map fun r => ((dst, c, m) :: r.1, r.2)
  | recv c next, σ, inbox =>
      match inbox c with
      | [] => none
      | m :: ms => (next m).run σ (Function.update inbox c ms)
  | load next, σ, inbox => (next σ).run σ inbox
  | save σ next, _, inbox => next.run σ inbox

/-- A loop of pops, run on a mailbox that holds just its messages. -/
theorem run_recvFold [DecidableEq Chan] {A : Type} (c : Chan) (f : A → Msg → Except Err A)
    (next : A → Proc Host Chan Msg Store Err) (σ : Store) (inbox : Chan → List Msg)
    (ms : List Msg) (acc acc' : A) (hbox : inbox c = ms) (hf : ms.foldlM f acc = .ok acc') :
    (recvFold c f next ms.length acc).run σ inbox =
      (next acc').run σ (Function.update inbox c []) := by
  induction ms generalizing acc inbox with
  | nil =>
      obtain rfl : acc = acc' := by simpa [pure, Except.pure] using hf
      have hsame : Function.update inbox c [] = inbox := by
        rw [← hbox]
        exact Function.update_eq_self c inbox
      rw [hsame]
      rfl
  | cons m ms ih =>
      cases hm : f acc m with
      | error e =>
          simp [hm, bind, Except.bind] at hf
      | ok acc₁ =>
          have hf' : ms.foldlM f acc₁ = .ok acc' := by simpa [hm, bind, Except.bind] using hf
          have hrun := ih (Function.update inbox c ms) acc₁ (by simp) hf'
          simpa [recvFold, run, hbox, hm] using hrun

theorem foldlM_ok {A : Type} (f : A → Msg → A) (ms : List Msg) (acc : A) :
    ms.foldlM (fun a m => (.ok (f a m) : Except Err A)) acc = .ok (ms.foldl f acc) := by
  induction ms generalizing acc with
  | nil =>
      rfl
  | cons m ms ih =>
      exact ih (f acc m)

theorem run_popUntil [DecidableEq Chan] {A : Type} (c : Chan) (never : Err) (f : A → Msg → A)
    (next : A → Proc Host Chan Msg Store Err) (σ : Store) (inbox : Chan → List Msg)
    (ms : List Msg) (acc : A) (hne : ms ≠ []) (hbox : inbox c = ms) :
    (popUntil c never f next ms.length acc).run σ inbox =
      (next (ms.foldl f acc)).run σ (Function.update inbox c []) := by
  have hlen : ms.length ≠ 0 := fun h => hne (List.length_eq_zero_iff.1 h)
  rw [popUntil, if_neg hlen]
  exact run_recvFold c _ next σ inbox ms acc _ hbox (foldlM_ok f ms acc)

end Proc

/-! ## Scripts -/

/-- What is left of a batch and the script behind it once a message of the batch is popped. -/
def rcvRest (c : Chan) (ms : List Msg) (s : List (Act Host Chan Msg)) :
    List (Act Host Chan Msg) :=
  match ms with
  | [] => s
  | m :: ms => .rcv c (m :: ms) :: s

/-- `p` started on `σ` exchanges the messages of the script and ends in `Q`. -/
def Follows (Q : Store → List (Act Host Chan Msg) → Prop) :
    Proc Host Chan Msg Store Err → Store → List (Act Host Chan Msg) → Prop
  | .done, σ, s => Q σ s
  | .abort _, _, _ => False
  | .send dst c m next, σ, s => ∃ s', s = .snd dst c m :: s' ∧ Follows Q next σ s'
  | .recv c next, σ, s => ∃ ms s', s = .rcv c ms :: s' ∧
      ∀ m ms', ms.Perm (m :: ms') → Follows Q (next m) σ (rcvRest c ms' s')
  | .load next, σ, s => Follows Q (next σ) σ s
  | .save σ next, _, s => Follows Q next σ s

/-- The script is over and the store is `τ`. -/
def EndsIn (τ : Store) : Store → List (Act Host Chan Msg) → Prop :=
  fun σ s => s = [] ∧ σ = τ

section Follows

variable {Q Q' : Store → List (Act Host Chan Msg) → Prop}

theorem Follows.mono (hQ : ∀ σ s, Q σ s → Q' σ s) {p : Proc Host Chan Msg Store Err} {σ : Store}
    {s : List (Act Host Chan Msg)} (h : Follows Q p σ s) : Follows Q' p σ s := by
  induction p generalizing σ s with
  | done =>
      exact hQ σ s h
  | abort e =>
      exact h
  | send dst c m next ih =>
      rcases h with ⟨s', rfl, h⟩
      exact ⟨s', rfl, ih h⟩
  | recv c next ih =>
      rcases h with ⟨ms, s', rfl, h⟩
      exact ⟨ms, s', rfl, fun m ms' hms => ih m (h m ms' hms)⟩
  | load next ih =>
      exact ih σ h
  | save τ next ih =>
      exact ih h

theorem Follows.andThen {p q : Proc Host Chan Msg Store Err} {σ : Store}
    {s : List (Act Host Chan Msg)} (h : Follows (Follows Q q) p σ s) :
    Follows Q (p.andThen q) σ s := by
  induction p generalizing σ s with
  | done =>
      exact h
  | abort e =>
      exact h
  | send dst c m next ih =>
      rcases h with ⟨s', rfl, h⟩
      exact ⟨s', rfl, ih h⟩
  | recv c next ih =>
      rcases h with ⟨ms, s', rfl, h⟩
      exact ⟨ms, s', rfl, fun m ms' hms => ih m (h m ms' hms)⟩
  | load next ih =>
      exact ih σ h
  | save τ next ih =>
      exact ih h

theorem follows_sendAll (l : List (Host × Chan × Msg)) {next : Proc Host Chan Msg Store Err}
    {σ : Store} {s : List (Act Host Chan Msg)} (h : Follows Q next σ s) :
    Follows Q (.sendAll l next) σ ((l.map fun x => .snd x.1 x.2.1 x.2.2) ++ s) := by
  induction l with
  | nil =>
      exact h
  | cons x l ih =>
      exact ⟨_, rfl, ih⟩

theorem follows_sendAll_nil (l : List (Host × Chan × Msg)) {next : Proc Host Chan Msg Store Err}
    {σ : Store} (h : Follows Q next σ []) :
    Follows Q (.sendAll l next) σ (l.map fun x => .snd x.1 x.2.1 x.2.2) := by
  have hall := follows_sendAll l h
  rwa [List.append_nil] at hall

/-- A loop of pops follows its batch when, in whatever order the batch arrives, no message is
refused and what comes after the loop follows the rest. -/
theorem follows_recvFold {A : Type} (c : Chan) (f : A → Msg → Except Err A)
    {next : A → Proc Host Chan Msg Store Err} {σ : Store} {s : List (Act Host Chan Msg)}
    (ms : List Msg) (acc : A) {n : Nat} (hn : ms.length = n)
    (h : ∀ l : List Msg, l.Perm ms → ∃ acc', l.foldlM f acc = .ok acc' ∧
      Follows Q (next acc') σ s) :
    Follows Q (.recvFold c f next n acc) σ (rcvRest c ms s) := by
  induction n generalizing ms acc with
  | zero =>
      obtain rfl : ms = [] := List.length_eq_zero_iff.1 hn
      rcases h [] (List.Perm.refl _) with ⟨acc', hacc, hs⟩
      obtain rfl : acc = acc' := by simpa [pure, Except.pure] using hacc
      exact hs
  | succ n ih =>
      cases ms with
      | nil =>
          simp at hn
      | cons m₀ ms₀ =>
          refine ⟨m₀ :: ms₀, s, rfl, fun m ms' hperm => ?_⟩
          have hlen : ms'.length = n := by
            have := hperm.length_eq
            simp only [List.length_cons] at this hn
            omega
          have hnext : ∀ l : List Msg, l.Perm ms' → ∃ acc', (m :: l).foldlM f acc = .ok acc' ∧
              Follows Q (next acc') σ s :=
            fun l hl => h (m :: l) ((hl.cons m).trans hperm.symm)
          cases hm : f acc m with
          | error e =>
              rcases hnext ms' (List.Perm.refl _) with ⟨acc', hacc, _⟩
              simp [hm, bind, Except.bind] at hacc
          | ok acc₁ =>
              have hrest : Follows Q (.recvFold c f next n acc₁) σ (rcvRest c ms' s) := by
                refine ih ms' acc₁ hlen fun l hl => ?_
                rcases hnext l hl with ⟨acc', hacc, hs⟩
                exact ⟨acc', by simpa [hm, bind, Except.bind] using hacc, hs⟩
              simpa [hm] using hrest

theorem follows_popUntil {A : Type} (c : Chan) (never : Err) (f : A → Msg → A)
    {next : A → Proc Host Chan Msg Store Err} {σ : Store} {s : List (Act Host Chan Msg)}
    (ms : List Msg) (acc : A) {n : Nat} (hn : ms.length = n) (hne : ms ≠ [])
    (h : ∀ l : List Msg, l.Perm ms → Follows Q (next (l.foldl f acc)) σ s) :
    Follows Q (.popUntil c never f next n acc) σ (.rcv c ms :: s) := by
  have hlen : n ≠ 0 := by
    rw [← hn]
    exact fun hz => hne (List.length_eq_zero_iff.1 hz)
  have hrest : rcvRest c ms s = Act.rcv c ms :: s := by
    cases ms with
    | nil =>
        exact absurd rfl hne
    | cons m ms =>
        rfl
  rw [Proc.popUntil, if_neg hlen, ← hrest]
  exact follows_recvFold c _ ms acc hn fun l hl => ⟨_, Proc.foldlM_ok f l acc, h l hl⟩

/-- A program put together from pieces: piece `i` exchanges `msgs i` and changes the store by
`eff i`. -/
theorem follows_foldr {ι : Type} {piece : ι → Proc Host Chan Msg Store Err →
      Proc Host Chan Msg Store Err} {msgs : ι → List (Act Host Chan Msg)}
    (eff : ι → Store → Store) (l : List ι)
    (hpiece : ∀ i ∈ l, ∀ next σ s, Follows Q next (eff i σ) s →
      Follows Q (piece i next) σ (msgs i ++ s))
    {last : Proc Host Chan Msg Store Err} {σ : Store} {s : List (Act Host Chan Msg)}
    (hlast : Follows Q last (l.foldl (fun σ i => eff i σ) σ) s) :
    Follows Q (l.foldr piece last) σ (l.flatMap msgs ++ s) := by
  induction l generalizing σ with
  | nil =>
      exact hlast
  | cons i l ih =>
      rw [List.flatMap_cons, List.append_assoc]
      exact hpiece i (by simp) _ σ _
        (ih (fun i hi => hpiece i (List.mem_cons_of_mem _ hi)) hlast)

/-- A run on a mailbox that holds a batch, in whatever order, sends what stands behind the batch in
the script. -/
theorem Follows.run_eq [DecidableEq Chan] {p : Proc Host Chan Msg Store Err} {σ τ : Store} {c : Chan}
    {ms l : List Msg} {out : List (Host × Chan × Msg)} {inbox : Chan → List Msg}
    (h : Follows (EndsIn τ) p σ (rcvRest c ms (out.map fun x => .snd x.1 x.2.1 x.2.2)))
    (hl : l.Perm ms) (hbox : inbox c = l) : p.run σ inbox = some (out, τ) := by
  -- on the program; a receive takes the next message of the order that has come
  induction p generalizing σ ms l out inbox with
  | done =>
      have hs : rcvRest c ms (out.map fun x => Act.snd x.1 x.2.1 x.2.2) = [] ∧ σ = τ := h
      cases ms with
      | nil =>
          rw [Proc.run, hs.2, List.map_eq_nil_iff.1 hs.1]
      | cons m ms =>
          exact absurd hs.1 (List.cons_ne_nil _ _)
  | abort e =>
      exact h.elim
  | send dst c' m next ih =>
      rcases h with ⟨s', hs, h⟩
      cases ms with
      | cons m₀ ms₀ =>
          cases (List.cons.inj hs).1
      | nil =>
          cases out with
          | nil =>
              exact absurd hs (List.cons_ne_nil _ _).symm
          | cons x out =>
              rcases List.cons.inj hs with ⟨hx, hout⟩
              rcases Act.snd.inj hx with ⟨rfl, rfl, rfl⟩
              rw [← hout] at h
              have hnext : next.run _ inbox = some (out, τ) := @ih _ [] l out inbox h hl hbox
              rw [Proc.run, hnext]
              rfl
  | recv c' next ih =>
      rcases h with ⟨ms', s', hs, h⟩
      cases ms with
      | nil =>
          cases out with
          | nil =>
              exact absurd hs (List.cons_ne_nil _ _).symm
          | cons x out =>
              cases (List.cons.inj hs).1
      | cons m₀ ms₀ =>
          rcases List.cons.inj hs with ⟨hbatch, rfl⟩
          rcases Act.rcv.inj hbatch with ⟨rfl, rfl⟩
          cases l with
          | nil =>
              exact absurd hl.symm.eq_nil (List.cons_ne_nil _ _)
          | cons m l =>
              rw [Proc.run, hbox]
              exact ih m (h m l hl.symm) (List.Perm.refl l) (Function.update_self _ _ _)
  | load next ih =>
      exact ih σ h hl hbox
  | save τ' next ih =>
      exact ih h hl hbox

end Follows

end MsgNet
