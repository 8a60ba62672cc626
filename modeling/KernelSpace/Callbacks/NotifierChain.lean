import Mathlib.Data.List.Perm.Basic
import Mathlib.Logic.Function.Basic
import KernelSpace.Kernel.Notifier
import KernelSpace.Lib.Machine

/-!
# Callbacks — the notifier chain (27g)

`27g.Linux_notifier_chain/linux_notifier_Module-A.c` owns a blocking notifier
chain; any modules `N` use it the way `linux_notifier_Module-B.c` and
`linux_notifier_Module-C.c` do: the init function registers a block and sends
its events, the exit function unregisters the block. The chain has a lock that
many senders share and that a registration has alone. A step is one of

* `insmodA`, `rmmodA` — Module A goes away only when nobody uses its symbols;
* `insmod`, `register`, `initDone`, `rmmod`, `unregister`, `free` — a client;
* `downRead`, `call`, `upRead` — `send_event`, one callback a step.

Every callback returns `NOTIFY_OK`, so the traversal goes on to the end. `sent`
records what no step reads: for each `send_event`, the modules as they were
when it took the lock, and the blocks that it called.
-/

namespace KernelSpace.Callbacks.NotifierChain

open KernelSpace.Kernel KernelSpace.Lib

/-- An event with its message. -/
abbrev Notice := Nat × String

/-- What a client module is made of. -/
structure Client where
  priority : Int
  /-- What its init function sends. -/
  notices : List Notice

variable {N : Type*}

/-- A `send_event` that has the lock, or had it. -/
structure Sent (N : Type*) where
  sender : N
  notice : Notice
  /-- The modules whose blocks were on the chain when it took the lock. -/
  registered : N → Bool
  called : List N

/-- `notifier_call_chain` calls the block `b`. -/
def Sent.call (sent : Sent N) (b : N) : Sent N := { sent with called := sent.called ++ [b] }

/-- Where the code of a client stands. -/
inductive Stage (N : Type*) where
  | absent
  | registering
  | sending (notices : List Notice)
  | calling (sent : Sent N) (notices : List Notice) (i : Nat)
  | loaded
  | unregistering
  | leaving

/-- Between its registration and its unregistration. -/
def Stage.registered : Stage N → Bool
  | sending _ | calling _ _ _ | loaded | unregistering => true
  | _ => false

def Stage.isCalling : Stage N → Bool
  | calling _ _ _ => true
  | _ => false

def Stage.isPresent : Stage N → Bool
  | absent => false
  | _ => true

/-- What is still to be sent. -/
def Stage.left : Stage N → List Notice
  | sending notices => notices
  | calling sent notices _ => sent.notice :: notices
  | _ => []

structure State (N : Type*) where
  /-- Module A is loaded. -/
  framework : Bool
  /-- The modules that use symbols of Module A. -/
  users : List N
  chain : List N
  /-- Who has the lock shared. -/
  readers : List N
  stage : N → Stage N
  sent : List (Sent N)

/-- The steps of a client. -/
inductive ClientEvent where
  | insmod
  | register
  | downRead
  | call
  | upRead
  | initDone
  | rmmod
  | unregister
  | free

inductive Event (N : Type*) where
  | insmodA
  | rmmodA
  | client (m : N) (e : ClientEvent)

variable [DecidableEq N]

def State.goto (s : State N) (m : N) (stage : Stage N) : State N :=
  { s with stage := Function.update s.stage m stage }

@[simp] theorem State.goto_sent (s : State N) (m : N) (stage : Stage N) :
    (s.goto m stage).sent = s.sent := rfl

/-- What is left of the chain after a call that nobody looks at the result of. -/
def ignore (chain : List N) : Except Int (List N) → List N
  | .ok chain' => chain'
  | .error _ => chain

section

variable (client : N → Client)

/-- The clients by their priorities. -/
def priority (m : N) : Int := (client m).priority

/-- A step of the client `m`, which stands at `stage`. -/
def State.next (s : State N) (m : N) (stage : Stage N) : ClientEvent → Option (State N)
  | .insmod =>
    match stage with
    | .absent =>
      if s.framework then some ({ s with users := m :: s.users }.goto m .registering) else none
    | _ => none
  | .register =>
    match stage with
    | .registering =>
      if s.readers.isEmpty then
        let chain := ignore s.chain (Notifier.register (priority client) m s.chain)
        some ({ s with chain }.goto m (.sending (client m).notices))
      else none
    | _ => none
  | .downRead =>
    match stage with
    | .sending (notice :: notices) =>
      let sent : Sent N := ⟨m, notice, fun b => (s.stage b).registered, []⟩
      some ({ s with readers := m :: s.readers }.goto m (.calling sent notices 0))
    | _ => none
  | .call =>
    match stage with
    | .calling sent notices i =>
      match s.chain[i]? with
      | some b => some (s.goto m (.calling (sent.call b) notices (i + 1)))
      | none => none
    | _ => none
  | .upRead =>
    match stage with
    | .calling sent notices i =>
      if s.chain.length ≤ i then
        some ({ s with readers := s.readers.erase m, sent := s.sent ++ [sent] }.goto m
          (.sending notices))
      else none
    | _ => none
  | .initDone =>
    match stage with
    | .sending [] => some (s.goto m .loaded)
    | _ => none
  | .rmmod =>
    match stage with
    | .loaded => some (s.goto m .unregistering)
    | _ => none
  | .unregister =>
    match stage with
    | .unregistering =>
      if s.readers.isEmpty then
        let chain := ignore s.chain (Notifier.unregister m s.chain)
        some ({ s with chain }.goto m .leaving)
      else none
    | _ => none
  | .free =>
    match stage with
    | .leaving => some ({ s with users := s.users.erase m }.goto m .absent)
    | _ => none

def step (s : State N) : Event N → Option (State N)
  | .insmodA => if s.framework then none else some { s with framework := true, chain := [] }
  | .rmmodA =>
    if s.framework && s.users.isEmpty then some { s with framework := false } else none
  | .client m e => s.next client m (s.stage m) e

/-- Module A and the clients, none of them loaded. -/
def system : Machine (State N) (Event N) :=
  ⟨⟨false, [], [], [], fun _ => .absent, []⟩, step client⟩

end

/-! ## What each event does -/

variable {client : N → Client} {s s' : State N} {m b : N}

theorem next_spec {stage : Stage N} {e : ClientEvent}
    (h : s.next client m stage e = some s') :
    match e with
    | .insmod =>
      stage = .absent ∧ s.framework = true ∧
        s' = { s with users := m :: s.users }.goto m .registering
    | .register =>
      stage = .registering ∧ s.readers = [] ∧
        s' = { s with chain := ignore s.chain (Notifier.register (priority client) m s.chain)
          }.goto m (.sending (client m).notices)
    | .downRead => ∃ notice notices,
      stage = .sending (notice :: notices) ∧
        s' = { s with readers := m :: s.readers }.goto m
          (.calling ⟨m, notice, fun b => (s.stage b).registered, []⟩ notices 0)
    | .call => ∃ sent notices i b,
      stage = .calling sent notices i ∧ s.chain[i]? = some b ∧
        s' = s.goto m (.calling (sent.call b) notices (i + 1))
    | .upRead => ∃ sent notices i,
      stage = .calling sent notices i ∧ s.chain.length ≤ i ∧
        s' = { s with readers := s.readers.erase m, sent := s.sent ++ [sent] }.goto m
          (.sending notices)
    | .initDone => stage = .sending [] ∧ s' = s.goto m .loaded
    | .rmmod => stage = .loaded ∧ s' = s.goto m .unregistering
    | .unregister =>
      stage = .unregistering ∧ s.readers = [] ∧
        s' = { s with chain := ignore s.chain (Notifier.unregister m s.chain) }.goto m .leaving
    | .free =>
      stage = .leaving ∧ s' = { s with users := s.users.erase m }.goto m .absent := by
  cases e with
  | insmod | register | downRead | upRead | initDone | rmmod | unregister | free =>
    unfold State.next at h
    dsimp only at h ⊢
    split at h <;> simp_all
  | call =>
    unfold State.next at h
    dsimp only at h ⊢
    split at h
    · split at h
      · exact ⟨_, _, _, _, rfl, by assumption, (Option.some.inj h).symm⟩
      · cases h
    · cases h

/-! ## Lists that follow the stages -/

/-- The list has the modules whose stages pass the test. -/
def Tracks (l : List N) (stage : N → Stage N) (f : Stage N → Bool) : Prop :=
  l.Nodup ∧ ∀ b, b ∈ l ↔ f (stage b) = true

/-- Only what the list says of `m` changes. -/
def Follows (l l' : List N) (m : N) (now : Bool) : Prop :=
  l'.Nodup ∧ (m ∈ l' ↔ now = true) ∧ ∀ b, b ≠ m → (b ∈ l' ↔ b ∈ l)

theorem Tracks.update {l l' : List N} {stage : N → Stage N} {f : Stage N → Bool} {new : Stage N}
    (h : Tracks l stage f) (hl : Follows l l' m (f new)) :
    Tracks l' (Function.update stage m new) f := by
  refine ⟨hl.1, fun b => ?_⟩
  by_cases hb : b = m
  · subst hb
    simpa using hl.2.1
  · rw [hl.2.2 b hb, h.2 b, Function.update_of_ne hb]

theorem Tracks.keep {l : List N} {stage : N → Stage N} {f : Stage N → Bool} {new : Stage N}
    (h : Tracks l stage f) (hf : f new = f (stage m)) :
    Tracks l (Function.update stage m new) f :=
  h.update ⟨h.1, by rw [h.2 m, hf], fun _ _ => Iff.rfl⟩

omit [DecidableEq N] in
theorem Follows.perm {l l' : List N} (h : l.Nodup) (hm : m ∉ l) (hp : l'.Perm (m :: l)) :
    Follows l l' m true := by
  refine ⟨hp.nodup_iff.mpr (List.nodup_cons.mpr ⟨hm, h⟩), by simp [hp.mem_iff], fun b hb => ?_⟩
  simp [hp.mem_iff, hb]

theorem Follows.erase {l : List N} (h : l.Nodup) : Follows l (l.erase m) m false :=
  ⟨h.erase m, by simp [h.not_mem_erase], fun _ hb => List.mem_erase_of_ne hb⟩

/-! ## The invariant -/

/-- Every block that was on the chain is called, once, in the order of the
priorities. -/
structure Sent.Faithful (client : N → Client) (sent : Sent N) : Prop where
  sender : sent.sender ∈ sent.called
  ordered : Notifier.Ordered (priority client) sent.called
  nodup : sent.called.Nodup
  mem : ∀ b, b ∈ sent.called ↔ sent.registered b = true

/-- What a client has sent, since ever. -/
def State.sentBy (s : State N) (m : N) : List Notice :=
  (s.sent.filter (·.sender = m)).map Sent.notice

structure Inv (client : N → Client) (s : State N) : Prop where
  ordered : Notifier.Ordered (priority client) s.chain
  chain : Tracks s.chain s.stage Stage.registered
  readers : Tracks s.readers s.stage Stage.isCalling
  users : Tracks s.users s.stage Stage.isPresent
  framework : s.users ≠ [] → s.framework = true
  /-- The chain is as the sender has found it. -/
  calling : ∀ m sent notices i, s.stage m = .calling sent notices i →
    sent.sender = m ∧ sent.called = s.chain.take i ∧ ∀ b, b ∈ s.chain ↔ sent.registered b = true
  sent : ∀ sent ∈ s.sent, sent.Faithful client

theorem inv_init : Inv client (system client).init where
  ordered := List.Pairwise.nil
  chain := ⟨List.nodup_nil, by simp [system, Stage.registered]⟩
  readers := ⟨List.nodup_nil, by simp [system, Stage.isCalling]⟩
  users := ⟨List.nodup_nil, by simp [system, Stage.isPresent]⟩
  framework := by simp [system]
  calling := by simp [system]
  sent := by simp [system]

/-- A client that holds no lock goes on. -/
theorem calling_goto {stage : Stage N} {P : N → Sent N → Nat → Prop}
    (h : ∀ b sent notices i, s.stage b = .calling sent notices i → P b sent i)
    (hstage : stage.isCalling = false) (b : N) (sent : Sent N) (notices : List Notice) (i : Nat)
    (hb : Function.update s.stage m stage b = .calling sent notices i) : P b sent i := by
  by_cases hbm : b = m
  · subst hbm
    rw [Function.update_self] at hb
    rw [hb] at hstage
    cases hstage
  · rw [Function.update_of_ne hbm] at hb
    exact h b sent notices i hb

omit [DecidableEq N] in
/-- Nobody sends while the chain changes. -/
theorem Inv.not_calling (h : Inv client s) (hreaders : s.readers = []) {sent : Sent N}
    {notices : List Notice} {i : Nat} : s.stage b ≠ .calling sent notices i := by
  intro hb
  have hmem : b ∈ s.readers := (h.readers.2 b).mpr (by rw [hb]; rfl)
  simp [hreaders] at hmem

omit [DecidableEq N] in
theorem inv_insmodA (h : Inv client s) (hframework : s.framework = false) :
    Inv client { s with framework := true, chain := [] } := by
  have husers : s.users = [] := by
    by_contra hne
    rw [h.framework hne] at hframework
    cases hframework
  have habsent : ∀ b, s.stage b = .absent := by
    intro b
    have hb : b ∉ s.users := by simp [husers]
    rw [h.users.2 b] at hb
    cases hstage : s.stage b <;> simp [hstage, Stage.isPresent] at hb ⊢
  exact ⟨List.Pairwise.nil, ⟨List.nodup_nil, by simp [habsent, Stage.registered]⟩, h.readers,
    h.users, fun _ => rfl, by simp [habsent], h.sent⟩

theorem inv_insmod (h : Inv client s) (hstage : s.stage m = .absent)
    (hframework : s.framework = true) :
    Inv client ({ s with users := m :: s.users }.goto m .registering) where
  ordered := h.ordered
  chain := h.chain.keep (by rw [hstage]; rfl)
  readers := h.readers.keep (by rw [hstage]; rfl)
  users := by
    have hm : m ∉ s.users := by rw [h.users.2 m, hstage]; simp [Stage.isPresent]
    exact h.users.update (.perm h.users.1 hm (List.Perm.refl _))
  framework _ := hframework
  calling := calling_goto h.calling rfl
  sent := h.sent

theorem inv_register (h : Inv client s) (hstage : s.stage m = .registering)
    (hreaders : s.readers = []) :
    Inv client ({ s with chain := ignore s.chain (Notifier.register (priority client) m s.chain)
      }.goto m (.sending (client m).notices)) := by
  have hm : m ∉ s.chain := by rw [h.chain.2 m, hstage]; simp [Stage.registered]
  obtain ⟨chain', hok, hordered, hperm⟩ := Notifier.register_spec h.ordered hm
  rw [hok]
  exact ⟨hordered, h.chain.update (.perm h.chain.1 hm hperm), h.readers.keep (by rw [hstage]; rfl),
    h.users.keep (by rw [hstage]; rfl), h.framework,
    calling_goto (fun b _ _ _ hb => absurd hb (h.not_calling hreaders)) rfl, h.sent⟩

theorem inv_downRead (h : Inv client s) {notice : Notice} {notices : List Notice}
    (hstage : s.stage m = .sending (notice :: notices)) :
    Inv client ({ s with readers := m :: s.readers }.goto m
      (.calling ⟨m, notice, fun b => (s.stage b).registered, []⟩ notices 0)) where
  ordered := h.ordered
  chain := h.chain.keep (by rw [hstage]; rfl)
  readers := by
    have hm : m ∉ s.readers := by rw [h.readers.2 m, hstage]; simp [Stage.isCalling]
    exact h.readers.update (.perm h.readers.1 hm (List.Perm.refl _))
  users := h.users.keep (by rw [hstage]; rfl)
  framework := h.framework
  calling b sent notices i hb := by
    by_cases hbm : b = m
    · subst hbm
      simp only [State.goto, Function.update_self, Stage.calling.injEq] at hb
      obtain ⟨rfl, -, rfl⟩ := hb
      exact ⟨rfl, rfl, h.chain.2⟩
    · simp only [State.goto, Function.update_of_ne hbm] at hb
      exact h.calling b sent notices i hb
  sent := h.sent

theorem inv_call (h : Inv client s) {sent : Sent N} {notices : List Notice} {i : Nat}
    (hstage : s.stage m = .calling sent notices i) (hb : s.chain[i]? = some b) :
    Inv client (s.goto m (.calling (sent.call b) notices (i + 1))) where
  ordered := h.ordered
  chain := h.chain.keep (by rw [hstage]; rfl)
  readers := h.readers.keep (by rw [hstage]; rfl)
  users := h.users.keep (by rw [hstage]; rfl)
  framework := h.framework
  calling c sent' notices' j hc := by
    by_cases hcm : c = m
    · subst hcm
      simp only [State.goto, Function.update_self, Stage.calling.injEq] at hc
      obtain ⟨rfl, -, rfl⟩ := hc
      obtain ⟨hsender, hcalled, hmem⟩ := h.calling c sent notices i hstage
      refine ⟨hsender, ?_, hmem⟩
      change sent.called ++ [b] = s.chain.take (i + 1)
      rw [hcalled, List.take_add_one, hb, Option.toList_some]
    · simp only [State.goto, Function.update_of_ne hcm] at hc
      exact h.calling c sent' notices' j hc
  sent := h.sent

theorem inv_upRead (h : Inv client s) {sent : Sent N} {notices : List Notice} {i : Nat}
    (hstage : s.stage m = .calling sent notices i) (hi : s.chain.length ≤ i) :
    Inv client ({ s with readers := s.readers.erase m, sent := s.sent ++ [sent] }.goto m
      (.sending notices)) where
  ordered := h.ordered
  chain := h.chain.keep (by rw [hstage]; rfl)
  readers := h.readers.update (.erase h.readers.1)
  users := h.users.keep (by rw [hstage]; rfl)
  framework := h.framework
  calling := calling_goto h.calling rfl
  sent := by
    obtain ⟨hsender, hcalled, hmem⟩ := h.calling m sent notices i hstage
    rw [List.take_of_length_le hi] at hcalled
    have hm : m ∈ s.chain := by rw [h.chain.2 m, hstage]; rfl
    intro x hx
    rcases List.mem_append.mp hx with hx | hx
    · exact h.sent x hx
    · rw [List.mem_singleton.mp hx]
      refine ⟨by rwa [hsender, hcalled], hcalled ▸ h.ordered, hcalled ▸ h.chain.1, fun b => ?_⟩
      rw [hcalled, hmem b]

theorem inv_unregister (h : Inv client s) (hstage : s.stage m = .unregistering)
    (hreaders : s.readers = []) :
    Inv client ({ s with chain := ignore s.chain (Notifier.unregister m s.chain)
      }.goto m .leaving) := by
  have hm : m ∈ s.chain := by rw [h.chain.2 m, hstage]; rfl
  rw [Notifier.unregister_eq hm]
  exact ⟨h.ordered.erase, h.chain.update (.erase h.chain.1), h.readers.keep (by rw [hstage]; rfl),
    h.users.keep (by rw [hstage]; rfl), h.framework,
    calling_goto (fun b _ _ _ hb => absurd hb (h.not_calling hreaders)) rfl, h.sent⟩

/-- The stage changes, and none of the lists with it. -/
theorem Inv.goto (h : Inv client s) {stage : Stage N}
    (hregistered : stage.registered = (s.stage m).registered)
    (hpresent : stage.isPresent = (s.stage m).isPresent)
    (hcalling : (s.stage m).isCalling = false) (hcalling' : stage.isCalling = false) :
    Inv client (s.goto m stage) where
  ordered := h.ordered
  chain := h.chain.keep hregistered
  readers := h.readers.keep (hcalling'.trans hcalling.symm)
  users := h.users.keep hpresent
  framework := h.framework
  calling := calling_goto h.calling hcalling'
  sent := h.sent

theorem inv_free (h : Inv client s) (hstage : s.stage m = .leaving) :
    Inv client ({ s with users := s.users.erase m }.goto m .absent) where
  ordered := h.ordered
  chain := h.chain.keep (by rw [hstage]; rfl)
  readers := h.readers.keep (by rw [hstage]; rfl)
  users := h.users.update (.erase h.users.1)
  framework hne := h.framework fun hnil => hne (by simp [State.goto, hnil])
  calling := calling_goto h.calling rfl
  sent := h.sent

theorem inv_step {e : Event N} (h : Inv client s) (hs : step client s e = some s') :
    Inv client s' := by
  cases e with
  | insmodA =>
    obtain ⟨hframework, hs⟩ := Option.ite_none_left_eq_some.mp hs
    cases Option.some.inj hs
    exact inv_insmodA h (by simpa using hframework)
  | rmmodA =>
    obtain ⟨hguard, hs⟩ := Option.ite_none_right_eq_some.mp hs
    cases Option.some.inj hs
    simp only [Bool.and_eq_true, List.isEmpty_iff] at hguard
    exact { h with framework := fun hne => absurd hguard.2 hne }
  | client m e =>
    have hspec := next_spec hs
    cases e with
    | insmod =>
      obtain ⟨hstage, hframework, rfl⟩ := hspec
      exact inv_insmod h hstage hframework
    | register =>
      obtain ⟨hstage, hreaders, rfl⟩ := hspec
      exact inv_register h hstage hreaders
    | downRead =>
      obtain ⟨notice, notices, hstage, rfl⟩ := hspec
      exact inv_downRead h hstage
    | call =>
      obtain ⟨sent, notices, i, b, hstage, hb, rfl⟩ := hspec
      exact inv_call h hstage hb
    | upRead =>
      obtain ⟨sent, notices, i, hstage, hi, rfl⟩ := hspec
      exact inv_upRead h hstage hi
    | initDone | rmmod =>
      obtain ⟨hstage, rfl⟩ := hspec
      exact h.goto (by rw [hstage]; rfl) (by rw [hstage]; rfl) (by rw [hstage]; rfl) rfl
    | unregister =>
      obtain ⟨hstage, hreaders, rfl⟩ := hspec
      exact inv_unregister h hstage hreaders
    | free =>
      obtain ⟨hstage, rfl⟩ := hspec
      exact inv_free h hstage

theorem inv_of_reachable (h : (system client).Reachable s) : Inv client s :=
  h.inv inv_init fun _ _ _ => inv_step

/-! ## What a client sends -/

/-- The registration of `m`, with which a load of it goes on to its events. -/
def Event.registers (m : N) : Event N → Bool
  | .client m' .register => m' = m
  | _ => false

/-- What `m` has sent and has still to send. -/
def State.sendsOf (s : State N) (m : N) : List Notice := s.sentBy m ++ (s.stage m).left

/-- A step of another module, or one that leaves what is left as it is. -/
theorem sendsOf_goto {t : State N} {stage : Stage N} (hsent : t.sent = s.sent)
    (hstage : t.stage = s.stage) (hleft : stage.left = (s.stage m).left) (b : N) :
    (t.goto m stage).sendsOf b = s.sendsOf b := by
  have hsentBy : (t.goto m stage).sentBy b = s.sentBy b := by
    rw [State.sentBy, State.goto_sent, hsent, State.sentBy]
  rw [State.sendsOf, State.sendsOf, hsentBy]
  by_cases hb : b = m
  · subst hb
    simp [State.goto, hleft]
  · simp [State.goto, Function.update_of_ne hb, hstage]

/-- A registration adds the notices of the client to what it has to send, and no
other step adds or loses any. -/
theorem sendsOf_step {e : Event N} (h : Inv client s) (hs : step client s e = some s') (b : N) :
    s'.sendsOf b = s.sendsOf b ++ if e.registers b then (client b).notices else [] := by
  cases e with
  | insmodA =>
    obtain ⟨-, hs⟩ := Option.ite_none_left_eq_some.mp hs
    cases Option.some.inj hs
    exact (List.append_nil _).symm
  | rmmodA =>
    obtain ⟨-, hs⟩ := Option.ite_none_right_eq_some.mp hs
    cases Option.some.inj hs
    exact (List.append_nil _).symm
  | client m e =>
    have hspec := next_spec hs
    cases e with
    | register =>
      obtain ⟨hstage, -, rfl⟩ := hspec
      by_cases hb : b = m
      · subst hb
        simp [State.sendsOf, State.sentBy, State.goto, hstage, Stage.left, Event.registers]
      · simp [State.sendsOf, State.sentBy, State.goto, Function.update_of_ne hb, Event.registers,
          Ne.symm hb]
    | upRead =>
      obtain ⟨sent, notices, i, hstage, -, rfl⟩ := hspec
      obtain ⟨hsender, -⟩ := h.calling m sent notices i hstage
      by_cases hb : b = m
      · subst hb
        simp [State.sendsOf, State.sentBy, State.goto, hstage, Stage.left, Event.registers, hsender]
      · have hne : ¬ sent.sender = b := fun heq => hb (heq ▸ hsender)
        simp [State.sendsOf, State.sentBy, State.goto, Function.update_of_ne hb, Event.registers,
          hne]
    | insmod =>
      obtain ⟨hstage, -, rfl⟩ := hspec
      exact (sendsOf_goto rfl rfl (by rw [hstage]; rfl) b).trans (List.append_nil _).symm
    | downRead =>
      obtain ⟨notice, notices, hstage, rfl⟩ := hspec
      exact (sendsOf_goto rfl rfl (by rw [hstage]; rfl) b).trans (List.append_nil _).symm
    | call =>
      obtain ⟨sent, notices, i, c, hstage, -, rfl⟩ := hspec
      exact (sendsOf_goto rfl rfl (by rw [hstage]; rfl) b).trans (List.append_nil _).symm
    | initDone | rmmod | free =>
      obtain ⟨hstage, rfl⟩ := hspec
      exact (sendsOf_goto rfl rfl (by rw [hstage]; rfl) b).trans (List.append_nil _).symm
    | unregister =>
      obtain ⟨hstage, -, rfl⟩ := hspec
      exact (sendsOf_goto rfl rfl (by rw [hstage]; rfl) b).trans (List.append_nil _).symm

/-- **A run**: every registration brings the notices of its client once. -/
theorem sendsOf_exec {es : List (Event N)} (h : Inv client s)
    (hs : (system client).exec s es = some s') (b : N) :
    s'.sendsOf b = s.sendsOf b ++
      (List.replicate (es.countP (Event.registers b)) (client b).notices).flatten := by
  induction es generalizing s with
  | nil =>
    cases hs
    exact (List.append_nil _).symm
  | cons e es ih =>
    obtain ⟨t, ht, hrest⟩ := Machine.exec_cons_iff.mp hs
    rw [ih (inv_step h ht) hrest, sendsOf_step h ht, List.append_assoc]
    congr 1
    by_cases he : e.registers b = true
    · rw [List.countP_cons_of_pos he, List.replicate_succ, List.flatten_cons, if_pos he]
    · rw [List.countP_cons_of_neg he, if_neg he, List.nil_append]

theorem sendsOf_reaches {es : List (Event N)} (hs : (system client).Reaches es s) (b : N) :
    s.sendsOf b = (List.replicate (es.countP (Event.registers b)) (client b).notices).flatten :=
  sendsOf_exec inv_init hs b

/-! ## The two clients -/

/-- `linux_notifier_Module-B.c` and `linux_notifier_Module-C.c`. -/
inductive Module where
  | b
  | c
deriving DecidableEq

def clients : Module → Client
  | .b => ⟨10, []⟩
  | .c => ⟨20, [(1, "Packet"), (2, "CAN"), (3, "IRQ")]⟩

/-- The callback of Module C comes first. -/
theorem Sent.Faithful.called_eq {sent : Sent Module} (h : sent.Faithful clients)
    (hsender : sent.sender = .c) :
    sent.called = if sent.registered .b then [.c, .b] else [.c] := by
  have hc : Module.c ∈ sent.called := hsender ▸ h.sender
  have hcalled : ∀ m rest, sent.called = m :: rest →
      m = .c ∧ rest = if sent.registered .b then [.b] else [] := by
    intro m rest heq
    have hordered := h.ordered
    have hnodup := h.nodup
    have hb := h.mem .b
    rw [heq] at hordered hnodup hb hc
    obtain ⟨hm, hrest⟩ := List.nodup_cons.mp hnodup
    cases m with
    | b =>
      -- then C is behind B
      have hc' : Module.c ∈ rest := by simpa using hc
      have hle := (List.pairwise_cons.mp hordered).1 .c hc'
      simp [priority, clients] at hle
    | c =>
      refine ⟨rfl, ?_⟩
      have hall : ∀ m ∈ rest, m = Module.b := by
        intro m hmem
        cases m with
        | b => rfl
        | c => exact absurd hmem hm
      cases rest with
      | nil =>
        have hnot : sent.registered .b = false := by simpa using hb
        simp [hnot]
      | cons m ms =>
        obtain rfl : m = .b := hall m List.mem_cons_self
        have hnil : ms = [] := by
          by_contra hne
          obtain ⟨m, hmem⟩ := List.exists_mem_of_ne_nil ms hne
          obtain rfl : m = .b := hall m (List.mem_cons_of_mem _ hmem)
          exact (List.nodup_cons.mp hrest).1 hmem
        have hyes : sent.registered .b = true := by simpa using hb
        simp [hnil, hyes]
  cases hlist : sent.called with
  | nil => simp [hlist] at hc
  | cons m rest =>
    obtain ⟨rfl, rfl⟩ := hcalled m rest hlist
    split <;> rfl

/-- Module B sends nothing. -/
theorem sender_eq {s : State Module} (h : (system clients).Reachable s) {sent : Sent Module}
    (hsent : sent ∈ s.sent) : sent.sender = .c := by
  cases hsender : sent.sender with
  | c => rfl
  | b =>
    obtain ⟨es, hes⟩ := h
    have hnil : s.sentBy .b = [] := by
      have hflat : s.sendsOf .b = [] := by simp [sendsOf_reaches hes, clients]
      exact (List.append_eq_nil_iff.mp hflat).1
    have hmem : sent.notice ∈ s.sentBy .b :=
      List.mem_map_of_mem (List.mem_filter.mpr ⟨hsent, by simpa using hsender⟩)
    simp [hnil] at hmem

/-- **The notifier chain.** For any client modules and any order of their
steps: a callback that is called belongs to a module that has registered and is
loaded, as Module A is; no registration and no unregistration is refused; a
`send_event` calls every block that was registered when it took the lock, once,
by falling priorities; and what a client has sent and has still to send are its
events, once and in order for each time that it has registered. With the two
modules of the source, Module B hears each event behind Module C, exactly when it
was registered. -/
theorem notifier_chain :
    (∀ (N : Type) [DecidableEq N] (client : N → Client) (es : List (Event N)) (s : State N),
      (system client).Reaches es s →
      (∀ m sent notices i b, s.stage m = .calling sent notices i → s.chain[i]? = some b →
        (s.stage b).registered = true ∧ s.framework = true) ∧
      (∀ m, s.stage m = .registering →
        ∃ chain, Notifier.register (priority client) m s.chain = .ok chain) ∧
      (∀ m, s.stage m = .unregistering → ∃ chain, Notifier.unregister m s.chain = .ok chain) ∧
      (∀ sent ∈ s.sent, sent.Faithful client) ∧
      ∀ m, s.sentBy m ++ (s.stage m).left =
        (List.replicate (es.countP (Event.registers m)) (client m).notices).flatten) ∧
    ∀ s, (system clients).Reachable s → ∀ sent ∈ s.sent,
      sent.sender = .c ∧ sent.called = if sent.registered .b then [.c, .b] else [.c] := by
  refine ⟨fun N _ client es s hs => ?_, fun s hs sent hsent => ?_⟩
  · have h := inv_of_reachable ⟨es, hs⟩
    refine ⟨fun m sent notices i b hstage hb => ?_, fun m hstage => ?_, fun m hstage => ?_,
      h.sent, sendsOf_reaches hs⟩
    · have hm : m ∈ s.users := by rw [h.users.2 m, hstage]; rfl
      exact ⟨(h.chain.2 b).mp (List.mem_of_getElem? hb), h.framework (List.ne_nil_of_mem hm)⟩
    · have hm : m ∉ s.chain := by rw [h.chain.2 m, hstage]; simp [Stage.registered]
      obtain ⟨chain, hok, -⟩ := Notifier.register_spec h.ordered hm
      exact ⟨chain, hok⟩
    · have hm : m ∈ s.chain := by rw [h.chain.2 m, hstage]; rfl
      exact ⟨_, Notifier.unregister_eq hm⟩
  · have h := inv_of_reachable hs
    have hsender := sender_eq hs hsent
    exact ⟨hsender, (h.sent sent hsent).called_eq hsender⟩

end KernelSpace.Callbacks.NotifierChain
