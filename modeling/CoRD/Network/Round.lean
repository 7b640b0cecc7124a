import Mathlib.Algebra.BigOperators.Group.Finset.Basic
import Mathlib.Algebra.Order.Group.Multiset
import CoRD.Network.Semantics

/-!
# Round — what holds while the hosts work on one of the root's programs

A round gives every host a script.  It is *balanced* when each mailbox is sent exactly the messages
its host is going to pop from it.  While a round runs, every host is somewhere in its script, and
for each mailbox the messages in it together with those still to be sent are the messages still to
be popped.  That invariant is kept by every step of every host (`InRound.step`).
-/

namespace MsgNet

variable {Host Chan Msg Store Err : Type}

/-! ## What a script sends and pops -/

section Scripts

variable [DecidableEq Host] [DecidableEq Chan]

/-- The messages a script sends to mailbox `c` of host `h`. -/
def sends (h : Host) (c : Chan) : List (Act Host Chan Msg) → Multiset Msg
  | [] => 0
  | .snd dst c' m :: s => (if dst = h ∧ c' = c then {m} else 0) + sends h c s
  | .rcv _ _ :: s => sends h c s

omit [DecidableEq Host] in
/-- The messages a script pops from mailbox `c` of its own host. -/
def recvs (c : Chan) : List (Act Host Chan Msg) → Multiset Msg
  | [] => 0
  | .snd _ _ _ :: s => recvs c s
  | .rcv c' ms :: s => (if c' = c then (ms : Multiset Msg) else 0) + recvs c s

/-- No two batches of the script come from one mailbox. -/
def Once : List (Act Host Chan Msg) → Prop
  | [] => True
  | .snd _ _ _ :: s => Once s
  | .rcv c _ :: s => recvs c s = 0 ∧ Once s

theorem sends_append (h : Host) (c : Chan) (s t : List (Act Host Chan Msg)) :
    sends h c (s ++ t) = sends h c s + sends h c t := by
  induction s with
  | nil =>
      simp [sends]
  | cons a s ih =>
      cases a with
      | snd dst c' m =>
          simp [sends, ih, add_assoc]
      | rcv c' ms =>
          simp [sends, ih]

omit [DecidableEq Host] in
theorem recvs_append (c : Chan) (s t : List (Act Host Chan Msg)) :
    recvs c (s ++ t) = recvs c s + recvs c t := by
  induction s with
  | nil =>
      simp [recvs]
  | cons a s ih =>
      cases a with
      | snd dst c' m =>
          simp [recvs, ih]
      | rcv c' ms =>
          simp [recvs, ih, add_assoc]

theorem sends_rcvRest (h : Host) (c c' : Chan) (ms : List Msg) (s : List (Act Host Chan Msg)) :
    sends h c (rcvRest c' ms s) = sends h c s := by
  cases ms <;> rfl

omit [DecidableEq Host] in
theorem recvs_rcvRest (c c' : Chan) (ms : List Msg) (s : List (Act Host Chan Msg)) :
    recvs c (rcvRest c' ms s) = (if c' = c then (ms : Multiset Msg) else 0) + recvs c s := by
  cases ms with
  | nil =>
      simp [rcvRest]
  | cons m ms =>
      rfl

omit [DecidableEq Host] [DecidableEq Chan] in
theorem snd_mem_rcvRest {h : Host} {c c' : Chan} {m : Msg} {ms : List Msg}
    {s : List (Act Host Chan Msg)} : .snd h c m ∈ rcvRest c' ms s ↔ .snd h c m ∈ s := by
  cases ms <;> simp [rcvRest]

omit [DecidableEq Host] in
theorem once_rcvRest {c : Chan} (ms : List Msg) {s : List (Act Host Chan Msg)}
    (hs : recvs c s = 0) (honce : Once s) : Once (rcvRest c ms s) := by
  cases ms with
  | nil =>
      exact honce
  | cons m ms =>
      exact ⟨hs, honce⟩

theorem mem_sends {h : Host} {c : Chan} {m : Msg} {s : List (Act Host Chan Msg)} :
    m ∈ sends h c s ↔ .snd h c m ∈ s := by
  induction s with
  | nil =>
      simp [sends]
  | cons a s ih =>
      cases a with
      | snd dst c' m' =>
          by_cases hd : dst = h ∧ c' = c
          · rcases hd with ⟨rfl, rfl⟩
            simp [sends, ih]
          · have hne : ¬ (Act.snd h c m = Act.snd dst c' m') := by
              intro heq
              cases heq
              exact hd ⟨rfl, rfl⟩
            simp [sends, hd, ih, hne]
      | rcv c' ms =>
          simp [sends, ih]

/-! A loop that sends one message to each of several hosts. -/

theorem sends_map_of_not_mem {α : Type} {l : List α} {dst : α → Host} {c' : Chan} {msg : α → Msg}
    {h : Host} (hh : h ∉ l.map dst) (c : Chan) :
    sends h c (l.map fun a => (.snd (dst a) c' (msg a) : Act Host Chan Msg)) = 0 := by
  refine Multiset.eq_zero_of_forall_notMem fun m hm => ?_
  rcases List.mem_map.1 (mem_sends.1 hm) with ⟨a, ha, heq⟩
  cases heq
  exact hh (List.mem_map_of_mem ha)

theorem sends_map_of_mem {α : Type} {l : List α} {dst : α → Host} {c' : Chan} {msg : α → Msg}
    (hl : (l.map dst).Nodup) {a : α} (ha : a ∈ l) (c : Chan) :
    sends (dst a) c (l.map fun a => (.snd (dst a) c' (msg a) : Act Host Chan Msg)) =
      if c' = c then {msg a} else 0 := by
  induction l with
  | nil =>
      simp at ha
  | cons b l ih =>
      rw [List.map_cons, List.nodup_cons] at hl
      rw [List.map_cons, sends]
      rcases List.mem_cons.1 ha with rfl | ha
      · rw [sends_map_of_not_mem hl.1, add_zero]
        simp
      · have hne : ¬ (dst b = dst a ∧ c' = c) := fun hx => hl.1 (hx.1 ▸ List.mem_map_of_mem ha)
        rw [if_neg hne, zero_add, ih hl.2 ha]

theorem sends_map_of_chan_ne {α : Type} (l : List α) (dst : α → Host) {c c' : Chan}
    (msg : α → Msg) (hc : c' ≠ c) (h : Host) :
    sends h c (l.map fun a => (.snd (dst a) c' (msg a) : Act Host Chan Msg)) = 0 := by
  induction l with
  | nil =>
      rfl
  | cons a l ih =>
      rw [List.map_cons, sends, if_neg fun hx => hc hx.2, zero_add, ih]

omit [DecidableEq Host] in
theorem recvs_map_snd {α : Type} (l : List α) (dst : α → Host) (c' : Chan) (msg : α → Msg)
    (c : Chan) : recvs c (l.map fun a => (.snd (dst a) c' (msg a) : Act Host Chan Msg)) = 0 := by
  induction l with
  | nil =>
      rfl
  | cons a l ih =>
      exact ih

omit [DecidableEq Host] in
theorem once_map_snd {α : Type} (l : List α) (dst : α → Host) (c' : Chan) (msg : α → Msg) :
    Once (l.map fun a => (.snd (dst a) c' (msg a) : Act Host Chan Msg)) := by
  induction l with
  | nil =>
      trivial
  | cons a l ih =>
      exact ih

/-- A loop that sends several messages to one mailbox. -/
theorem sends_map_const {α : Type} (l : List α) (dst : Host) (c' : Chan) (msg : α → Msg) (h : Host)
    (c : Chan) :
    sends h c (l.map fun a => (.snd dst c' (msg a) : Act Host Chan Msg)) =
      if dst = h ∧ c' = c then (l.map msg : Multiset Msg) else 0 := by
  induction l with
  | nil =>
      simp [sends]
  | cons a l ih =>
      rw [List.map_cons, sends, ih]
      by_cases hd : dst = h ∧ c' = c
      · simp only [if_pos hd, List.map_cons, ← Multiset.cons_coe, Multiset.singleton_add]
      · simp only [if_neg hd, add_zero]

theorem sends_flatMap {α : Type} (l : List α) (f : α → List (Act Host Chan Msg)) (h : Host)
    (c : Chan) : sends h c (l.flatMap f) = (l.map fun a => sends h c (f a)).sum := by
  induction l with
  | nil =>
      rfl
  | cons a l ih =>
      rw [List.flatMap_cons, sends_append, ih, List.map_cons, List.sum_cons]

/-- A script without pops. -/
def SendsOnly (s : List (Act Host Chan Msg)) : Prop :=
  ∀ c ms, .rcv c ms ∉ s

omit [DecidableEq Host] in
theorem SendsOnly.recvs {s : List (Act Host Chan Msg)} (hs : SendsOnly s) (c : Chan) :
    recvs c s = 0 := by
  induction s with
  | nil =>
      rfl
  | cons a s ih =>
      cases a with
      | snd dst c' m =>
          exact ih fun c' ms hmem => hs c' ms (List.mem_cons_of_mem _ hmem)
      | rcv c' ms =>
          exact absurd (List.mem_cons_self) (hs c' ms)

omit [DecidableEq Host] in
theorem SendsOnly.once {s : List (Act Host Chan Msg)} (hs : SendsOnly s) : Once s := by
  induction s with
  | nil =>
      trivial
  | cons a s ih =>
      cases a with
      | snd dst c' m =>
          exact ih fun c' ms hmem => hs c' ms (List.mem_cons_of_mem _ hmem)
      | rcv c' ms =>
          exact absurd (List.mem_cons_self) (hs c' ms)

omit [DecidableEq Host] [DecidableEq Chan] in
theorem sum_map_singleton {α : Type} (l : List α) (msg : α → Msg) :
    (l.map fun a => ({msg a} : Multiset Msg)).sum = (l.map msg : Multiset Msg) := by
  induction l with
  | nil =>
      rfl
  | cons a l ih =>
      rw [List.map_cons, List.sum_cons, ih, List.map_cons, ← Multiset.cons_coe,
        Multiset.singleton_add]

omit [DecidableEq Host] in
theorem sum_map_ite_singleton {α : Type} (l : List α) (msg : α → Msg) (c c' : Chan) :
    (l.map fun a => if c' = c then ({msg a} : Multiset Msg) else 0).sum =
      if c' = c then (l.map msg : Multiset Msg) else 0 := by
  by_cases hc : c' = c
  · simp only [if_pos hc, sum_map_singleton]
  · simp [if_neg hc]

omit [DecidableEq Host] [DecidableEq Chan] in
theorem sum_map_eq_zero {α : Type} {l : List α} {f : α → Multiset Msg} (h : ∀ a ∈ l, f a = 0) :
    (l.map f).sum = 0 :=
  List.sum_eq_zero fun x hx => by
    rcases List.mem_map.1 hx with ⟨a, ha, rfl⟩
    exact h a ha

end Scripts

/-- `Leaves s s'`: the script `s'` can be what is left of `s`. -/
inductive Leaves (s : List (Act Host Chan Msg)) : List (Act Host Chan Msg) → Prop where
  | refl : Leaves s s
  | snd {s' : List (Act Host Chan Msg)} {dst : Host} {c : Chan} {m : Msg} :
      Leaves s (.snd dst c m :: s') → Leaves s s'
  | rcv {s' : List (Act Host Chan Msg)} {c : Chan} {ms ms' : List Msg} {m : Msg} :
      Leaves s (.rcv c ms :: s') → ms.Perm (m :: ms') → Leaves s (rcvRest c ms' s')

namespace Leaves

variable {s s' : List (Act Host Chan Msg)}

theorem nil (h : Leaves ([] : List (Act Host Chan Msg)) s) : s = [] := by
  induction h with
  | refl =>
      rfl
  | snd _ ih =>
      cases ih
  | rcv _ _ ih =>
      cases ih

theorem once [DecidableEq Chan] (h : Leaves s s') (hs : Once s) : Once s' := by
  induction h with
  | refl =>
      exact hs
  | snd _ ih =>
      exact ih
  | @rcv t c ms ms' m _ _ ih =>
      cases ms' with
      | nil =>
          exact ih.2
      | cons m' ms' =>
          exact ih

end Leaves

/-! ## Rounds -/

section Rounds

variable [DecidableEq Host] [DecidableEq Chan]

/-- A script for every host, balanced, with at most one batch for each mailbox; `post` says which
stores the scripts may end in. -/
structure Round (Host Chan Msg Store : Type) [DecidableEq Host] [DecidableEq Chan] where
  hosts : Finset Host
  plan : Host → List (Act Host Chan Msg)
  post : Host → Store → Prop
  support : ∀ h, h ∉ hosts → plan h = []
  once : ∀ h, Once (plan h)
  balanced : ∀ h c, ∑ q ∈ hosts, sends h c (plan q) = recvs c (plan h)

/-- The round in which nobody does anything. -/
def Round.idle (post : Host → Store → Prop) : Round Host Chan Msg Store :=
  { hosts := ∅
    plan := fun _ => []
    post := post
    support := fun _ _ => rfl
    once := fun _ => trivial
    balanced := fun _ _ => rfl }

variable (N : Network Host Chan Msg Store Err) (F : Round Host Chan Msg Store) (r : Nat)

/-- The script of `h` is over and its store is as it should be. -/
def Round.Ends (h : Host) (σ : Store) (s : List (Act Host Chan Msg)) : Prop :=
  s = [] ∧ F.post h σ

/-- Host `h`, with store `σ` and no program, can do its part: it has none, or its script is to pop
one request and what it runs for that request follows the rest. -/
def Round.Ready (h : Host) (σ : Store) : Prop :=
  (F.plan h = [] ∧ F.post h σ) ∨
    ∃ m s, F.plan h = .rcv N.job [m] :: s ∧ Follows (F.Ends h) (N.serve h m) σ s

/-- Where host `h` stands in round `r`, with `s` left of its script: it works on the round, or it
still has the last steps of an earlier one to do before it takes the request. -/
inductive Phase (h : Host) (p : Proc Host Chan Msg Store Err) (σ : Store) (rd : Nat)
    (s : List (Act Host Chan Msg)) : Prop where
  | running (hrd : rd = r) (hp : Follows (F.Ends h) p σ s)
  | waiting (hroot : h ≠ N.root) (hrd : rd < r) (hs : s = F.plan h)
      (hp : Follows (fun τ t => t = [] ∧ F.Ready N h τ) p σ [])

/-- The invariant of round `r`; `rem h` is what is left of the script of `h`. -/
structure InRound (s : State Host Chan Msg Store Err) (rem : Host → List (Act Host Chan Msg)) :
    Prop where
  started : s.started = r
  root : s.round N.root = r
  phase : ∀ h, Phase N F r h (s.proc h) (s.store h) (s.round h) (rem h)
  left : ∀ h, Leaves (F.plan h) (rem h)
  box : ∀ h c, ((s.box h c).map Packet.msg : Multiset Msg) + ∑ q ∈ F.hosts, sends h c (rem q) =
    recvs c (rem h)
  fresh : ∀ h c, ∀ pk ∈ s.box h c, pk.round = r

variable {N F r} {s s' : State Host Chan Msg Store Err} {rem : Host → List (Act Host Chan Msg)}

namespace InRound

theorem once (I : InRound N F r s rem) (h : Host) : Once (rem h) :=
  (I.left h).once (F.once h)

theorem mem_hosts (I : InRound N F r s rem) {h : Host} (hne : rem h ≠ []) : h ∈ F.hosts := by
  by_contra hh
  have hleft := I.left h
  rw [F.support h hh] at hleft
  exact hne hleft.nil

/-- A host whose next pop is from mailbox `c` finds there only messages of that batch. -/
theorem mem_batch (I : InRound N F r s rem) {h : Host} {c : Chan} {pk : Packet Msg}
    {ps : List (Packet Msg)} {ms : List Msg} {t : List (Act Host Chan Msg)}
    (hbox : s.box h c = pk :: ps) (hrem : rem h = .rcv c ms :: t) : pk.msg ∈ ms := by
  have honce := I.once h
  rw [hrem] at honce
  have hbal := I.box h c
  have hmem : pk.msg ∈ ((s.box h c).map Packet.msg : Multiset Msg) := by
    simp [hbox]
  have hin : pk.msg ∈ recvs c (rem h) := by
    rw [← hbal]
    exact Multiset.mem_add.2 (Or.inl hmem)
  simpa [hrem, recvs, honce.1] using hin

/-- A mailbox of a host whose script is over is empty. -/
theorem box_nil (I : InRound N F r s rem) {h : Host} (hrem : rem h = []) (c : Chan) :
    s.box h c = [] := by
  have hbal := I.box h c
  rw [hrem] at hbal
  have hcard := congrArg Multiset.card hbal
  simp only [recvs, Multiset.card_add, Multiset.coe_card, List.length_map, Multiset.card_zero] at hcard
  exact List.length_eq_zero_iff.1 (by omega)

end InRound

omit [DecidableEq Chan] in
/-- Replacing one host's script in a sum over the hosts. -/
theorem sum_update (rem : Host → List (Act Host Chan Msg))
    (f : List (Act Host Chan Msg) → Multiset Msg) {hosts : Finset Host} {h : Host} (hh : h ∈ hosts)
    {t : List (Act Host Chan Msg)} {a : Multiset Msg} (hf : f (rem h) = a + f t) :
    ∑ q ∈ hosts, f (rem q) = a + ∑ q ∈ hosts, f (Function.update rem h t q) := by
  have hrest : ∑ q ∈ hosts.erase h, f (Function.update rem h t q) =
      ∑ q ∈ hosts.erase h, f (rem q) := by
    refine Finset.sum_congr rfl fun q hq => ?_
    rw [Function.update_of_ne (Finset.ne_of_mem_erase hq)]
  rw [← Finset.add_sum_erase hosts (fun q => f (rem q)) hh,
    ← Finset.add_sum_erase hosts (fun q => f (Function.update rem h t q)) hh, hrest]
  simp [hf, add_assoc]

namespace InRound

/-! ## One step -/

/-- A step that changes nothing but the program and the store of `h`. -/
theorem local_step (I : InRound N F r s rem) {h : Host} {p : Proc Host Chan Msg Store Err}
    {σ : Store} (hphase : Phase N F r h p σ (s.round h) (rem h)) :
    InRound N F r ((s.setProc h p).setStore h σ) rem := by
  refine ⟨I.started, I.root, fun h' => ?_, I.left, I.box, I.fresh⟩
  by_cases hh : h' = h
  · subst hh
    simpa using hphase
  · simpa [hh] using I.phase h'

/-- What `h` has left after sending the head of its script. -/
theorem send_step (I : InRound N F r s rem) {h dst : Host} {c : Chan} {m : Msg}
    {p : Proc Host Chan Msg Store Err} {t : List (Act Host Chan Msg)}
    (hrem : rem h = .snd dst c m :: t) (hround : s.round h = r)
    (hp : Follows (F.Ends h) p (s.store h) t) :
    InRound N F r ((s.setProc h p).push dst c (s.packet h m)) (Function.update rem h t) := by
  have hmem : h ∈ F.hosts := I.mem_hosts (by simp [hrem])
  constructor
  case started => exact I.started
  case root => exact I.root
  case phase =>
    intro h'
    by_cases hh : h' = h
    · subst hh
      simpa using Phase.running hround hp
    · simpa [hh] using I.phase h'
  case left =>
    intro h'
    by_cases hh : h' = h
    · subst hh
      have hleft := I.left h'
      rw [hrem] at hleft
      simpa using hleft.snd
    · simpa [hh] using I.left h'
  case box =>
    intro h' c'
    have hhead : sends h' c' (rem h) =
        (if dst = h' ∧ c = c' then {m} else 0) + sends h' c' t := by
      rw [hrem]
      rfl
    -- what leaves the plan of `h` comes into the mailbox
    have hsum := sum_update rem (sends h' c') hmem hhead
    have hrecv : recvs c' (Function.update rem h t h') = recvs c' (rem h') := by
      by_cases hh : h' = h
      · subst hh
        simp [hrem, recvs]
      · simp [hh]
    rw [hrecv, ← I.box h' c', hsum, State.push_box]
    by_cases hd : h' = dst ∧ c' = c
    · rcases hd with ⟨rfl, rfl⟩
      simp only [and_self, if_true, List.map_append, List.map_cons, List.map_nil, State.packet]
      rw [← Multiset.coe_add, add_assoc]
      rfl
    · have hd' : ¬ (dst = h' ∧ c = c') := fun hx => hd ⟨hx.1.symm, hx.2.symm⟩
      simp [hd, hd']
  case fresh =>
    intro h' c' pk hpk
    rw [State.push_box] at hpk
    by_cases hd : h' = dst ∧ c' = c
    · simp only [if_pos hd, List.mem_append, List.mem_singleton] at hpk
      rcases hpk with hpk | rfl
      · exact I.fresh dst c pk hpk
      · exact hround
    · simp only [if_neg hd] at hpk
      exact I.fresh h' c' pk hpk

/-- What `h` has left after popping a message `m` of the batch at the head of its script. -/
theorem pop_step (I : InRound N F r s rem) {h : Host} {c : Chan} {pk : Packet Msg}
    {ps : List (Packet Msg)} {ms ms' : List Msg} {t : List (Act Host Chan Msg)}
    {p : Proc Host Chan Msg Store Err} (hbox : s.box h c = pk :: ps)
    (hrem : rem h = .rcv c ms :: t) (hms : ms.Perm (pk.msg :: ms'))
    (hp : Follows (F.Ends h) p (s.store h) (rcvRest c ms' t)) (hroot : h = N.root → s.round h = r) :
    InRound N F r (((s.setBox h c ps).setProc h p).setRound h r)
      (Function.update rem h (rcvRest c ms' t)) := by
  have hmem : h ∈ F.hosts := I.mem_hosts (by simp [hrem])
  constructor
  case started => exact I.started
  case root =>
    by_cases hh : N.root = h
    · simp [hh]
    · simpa [hh] using I.root
  case phase =>
    intro h'
    by_cases hh : h' = h
    · subst hh
      simpa using Phase.running rfl hp
    · simpa [hh] using I.phase h'
  case left =>
    intro h'
    by_cases hh : h' = h
    · subst hh
      have hleft := I.left h'
      rw [hrem] at hleft
      simpa using hleft.rcv hms
    · simpa [hh] using I.left h'
  case box =>
    intro h' c'
    -- nothing is sent; the mailbox and what is to be received lose the same message
    have hhead : sends h' c' (rem h) = 0 + sends h' c' (rcvRest c ms' t) := by
      rw [hrem, sends_rcvRest, zero_add]
      rfl
    have hsum := sum_update rem (sends h' c') hmem hhead
    rw [zero_add] at hsum
    have hbal := I.box h' c'
    rw [hsum] at hbal
    have hboxeq : (((s.setBox h c ps).setProc h p).setRound h r).box h' c' =
        if h' = h ∧ c' = c then ps else s.box h' c' := State.setBox_box s h h' c c' ps
    rw [hboxeq]
    by_cases hh : h' = h
    · subst hh
      rw [Function.update_self, recvs_rcvRest]
      rw [hrem] at hbal
      by_cases hc : c' = c
      · subst hc
        have hmsc : (ms : Multiset Msg) = pk.msg ::ₘ (ms' : Multiset Msg) := Multiset.coe_eq_coe.2 hms
        simp only [recvs, hbox, if_true, hmsc, List.map_cons, ← Multiset.cons_coe,
          Multiset.cons_add, Multiset.cons_inj_right] at hbal
        simpa using hbal
      · have hc' : ¬ c = c' := fun hx => hc hx.symm
        simp only [recvs, if_neg hc', zero_add] at hbal
        simpa [hc, hc'] using hbal
    · simpa [hh] using hbal
  case fresh =>
    intro h' c' pk' hpk
    have hboxeq : (((s.setBox h c ps).setProc h p).setRound h r).box h' c' =
        if h' = h ∧ c' = c then ps else s.box h' c' := State.setBox_box s h h' c c' ps
    rw [hboxeq] at hpk
    by_cases hd : h' = h ∧ c' = c
    · rw [if_pos hd] at hpk
      exact I.fresh h c pk' (by rw [hbox]; exact List.mem_cons_of_mem _ hpk)
    · rw [if_neg hd] at hpk
      exact I.fresh h' c' pk' hpk

omit [DecidableEq Host] [DecidableEq Chan] in
theorem follows_nil_recv {Q : Store → List (Act Host Chan Msg) → Prop} {c : Chan}
    {k : Msg → Proc Host Chan Msg Store Err} {σ : Store} : ¬ Follows Q (.recv c k) σ [] := by
  rintro ⟨ms, t, ht, _⟩
  cases ht

omit [DecidableEq Host] [DecidableEq Chan] in
theorem follows_nil_send {Q : Store → List (Act Host Chan Msg) → Prop} {dst : Host} {c : Chan}
    {m : Msg} {p : Proc Host Chan Msg Store Err} {σ : Store} :
    ¬ Follows Q (.send dst c m p) σ [] := by
  rintro ⟨t, ht, _⟩
  cases ht

/-- A host that sends or pops is at work on the round. -/
theorem running_of_not_waiting (I : InRound N F r s rem) {h : Host}
    (hno : ∀ Q : Store → List (Act Host Chan Msg) → Prop, ¬ Follows Q (s.proc h) (s.store h) []) :
    s.round h = r ∧ Follows (F.Ends h) (s.proc h) (s.store h) (rem h) := by
  cases I.phase h with
  | running hrd hp =>
      exact ⟨hrd, hp⟩
  | waiting _ _ _ hp =>
      exact absurd hp (hno _)

/-- A server whose program is done and whose mailbox holds a request has not taken one yet. -/
theorem ready_of_request (I : InRound N F r s rem) {h : Host} {pk : Packet Msg}
    {ps : List (Packet Msg)} (hdone : s.proc h = .done) (hbox : s.box h N.job = pk :: ps) :
    ∃ t, rem h = .rcv N.job [pk.msg] :: t ∧
      Follows (F.Ends h) (N.serve h pk.msg) (s.store h) t := by
  have hne : rem h ≠ [] := by
    intro hnil
    have := I.box_nil hnil N.job
    simp [hbox] at this
  cases I.phase h with
  | running _ hp =>
      rw [hdone] at hp
      exact absurd hp.1 hne
  | waiting _ _ hs hp =>
      rw [hdone] at hp
      rcases hp.2 with ⟨hnil, _⟩ | ⟨m, t, hplan, ht⟩
      · exact absurd (hs.trans hnil) hne
      · have hrem : rem h = .rcv N.job [m] :: t := hs.trans hplan
        have hm : pk.msg = m := by simpa using I.mem_batch hbox hrem
        subst hm
        exact ⟨t, hrem, ht⟩

end InRound

/-- The event is part of round `r`: its packet was sent in it, and popped in it. -/
def Event.InRound (r : Nat) : Event Host Chan Msg → Prop
  | .internal => True
  | .sent _ _ _ p => p.round = r
  | .popped _ _ p rd => p.round = r ∧ rd = r

namespace InRound

theorem load_step (I : InRound N F r s rem) {h : Host} {k : Store → Proc Host Chan Msg Store Err}
    (hproc : s.proc h = .load k) : InRound N F r (s.setProc h (k (s.store h))) rem := by
  have hphase := I.phase h
  rw [hproc] at hphase
  have hI := I.local_step (h := h) (p := k (s.store h)) (σ := s.store h) (by
    cases hphase with
    | running hrd hp =>
        exact .running hrd hp
    | waiting hroot hrd hs hp =>
        exact .waiting hroot hrd hs hp)
  simpa using hI

theorem save_step (I : InRound N F r s rem) {h : Host} {σ : Store}
    {p : Proc Host Chan Msg Store Err} (hproc : s.proc h = .save σ p) :
    InRound N F r ((s.setProc h p).setStore h σ) rem := by
  have hphase := I.phase h
  rw [hproc] at hphase
  refine I.local_step ?_
  cases hphase with
  | running hrd hp =>
      exact .running hrd hp
  | waiting hroot hrd hs hp =>
      exact .waiting hroot hrd hs hp

theorem sent_step (I : InRound N F r s rem) {h dst : Host} {c : Chan} {m : Msg}
    {p : Proc Host Chan Msg Store Err} (hproc : s.proc h = .send dst c m p) :
    ∃ t, rem h = .snd dst c m :: t ∧ s.round h = r ∧
      InRound N F r ((s.setProc h p).push dst c (s.packet h m)) (Function.update rem h t) := by
  rcases I.running_of_not_waiting (h := h) (by
    rw [hproc]
    exact fun _ => follows_nil_send) with ⟨hround, hp⟩
  rw [hproc] at hp
  rcases hp with ⟨t, hrem, ht⟩
  exact ⟨t, hrem, hround, I.send_step hrem hround ht⟩

theorem recv_step (I : InRound N F r s rem) {h : Host} {c : Chan} {pk : Packet Msg}
    {ps : List (Packet Msg)} {k : Msg → Proc Host Chan Msg Store Err}
    (hproc : s.proc h = .recv c k) (hbox : s.box h c = pk :: ps) :
    ∃ ms ms' t, rem h = .rcv c ms :: t ∧ ms.Perm (pk.msg :: ms') ∧ s.round h = r ∧
      InRound N F r ((s.setBox h c ps).setProc h (k pk.msg))
        (Function.update rem h (rcvRest c ms' t)) := by
  rcases I.running_of_not_waiting (h := h) (by
    rw [hproc]
    exact fun _ => follows_nil_recv) with ⟨hround, hp⟩
  rw [hproc] at hp
  rcases hp with ⟨ms, t, hrem, ht⟩
  rcases List.append_of_mem (I.mem_batch hbox hrem) with ⟨l₁, l₂, hms⟩
  have hperm : ms.Perm (pk.msg :: (l₁ ++ l₂)) := by
    rw [hms]
    exact List.perm_middle
  have hI := I.pop_step hbox hrem hperm (ht _ _ hperm) (fun _ => hround)
  have hsame : (((s.setBox h c ps).setProc h (k pk.msg)).setRound h r) =
      (s.setBox h c ps).setProc h (k pk.msg) := by
    rw [← hround]
    simp [State.setBox]
  rw [hsame] at hI
  exact ⟨ms, _, t, hrem, hperm, hround, hI⟩

theorem serve_step (I : InRound N F r s rem) {h : Host} {pk : Packet Msg}
    {ps : List (Packet Msg)} (hroot : h ≠ N.root) (hdone : s.proc h = .done)
    (hbox : s.box h N.job = pk :: ps) :
    ∃ t, rem h = .rcv N.job [pk.msg] :: t ∧ pk.round = r ∧
      InRound N F r (((s.setBox h N.job ps).setProc h (N.serve h pk.msg)).setRound h pk.round)
        (Function.update rem h t) := by
  rcases I.ready_of_request hdone hbox with ⟨t, hrem, ht⟩
  have hr : pk.round = r := I.fresh h N.job pk (by simp [hbox])
  have hperm : [pk.msg].Perm [pk.msg] := List.Perm.refl _
  have hI := I.pop_step hbox hrem hperm ht fun hx => absurd hx hroot
  refine ⟨t, hrem, hr, ?_⟩
  rw [hr]
  exact hI

/-- Every step keeps the invariant, except that of the root from one program to the next. -/
theorem step (I : InRound N F r s rem) {h : Host} {e : Event Host Chan Msg}
    (hstep : Step N h s e s') :
    (h = N.root ∧ s.proc N.root = .done) ∨
      (∃ rem', InRound N F r s' rem') ∧ e.InRound r := by
  cases hstep with
  | next hdone hprog =>
      exact Or.inl ⟨rfl, hdone⟩
  | serve hroot hdone hbox =>
      rcases I.serve_step hroot hdone hbox with ⟨t, _, hr, hI⟩
      exact Or.inr ⟨⟨_, hI⟩, hr, hr⟩
  | send hproc =>
      rcases I.sent_step hproc with ⟨t, _, hround, hI⟩
      exact Or.inr ⟨⟨_, hI⟩, hround⟩
  | @recv _ _ c pk ps k hproc hbox =>
      rcases I.recv_step hproc hbox with ⟨ms, ms', t, _, _, hround, hI⟩
      exact Or.inr ⟨⟨_, hI⟩, I.fresh h c pk (by simp [hbox]), hround⟩
  | load hproc =>
      exact Or.inr ⟨⟨_, I.load_step hproc⟩, trivial⟩
  | save hproc =>
      exact Or.inr ⟨⟨_, I.save_step hproc⟩, trivial⟩

end InRound

end Rounds

end MsgNet
