import Mathlib.Data.Fintype.Basic
import KernelSpace.Callbacks.Single

/-!
# Callbacks — notifications without a lock (27e)

`notify_event` of the single callback tests the pointer and reads it again for
the call, and nothing keeps the other functions away in between. Any threads
`T` notify here, while any clients `M` register, unregister, and are unloaded:
their exit function, which calls `unregister_event_callback` as
`module_b_exit` does or does not, and then the text of the module is freed.
A client that is loaded may register or unregister at any time.

Two things keep a call from going astray:

* a client whose exit function does not unregister does not hold the pointer
  (`Leaves`): the call goes to no module that is gone;
* nobody clears the pointer while a thread is between its test and its call
  (`Waits`): the call does not go through NULL.
-/

namespace KernelSpace.Callbacks.Unlocked

open KernelSpace.Lib
open KernelSpace.Callbacks.Single (registerEventCallback unregisterEventCallback)

/-- A client module: `exited` is between the return of its exit function and
the release of its text. -/
inductive Client where
  | unloaded
  | loaded
  | exited
deriving DecidableEq

/-- A thread in `notify_event`: `tested` is behind `if (callback)`. -/
inductive Notifier where
  | idle
  | tested
deriving DecidableEq

structure State (T M : Type*) where
  callback : Option M
  client : M → Client
  notifier : T → Notifier

inductive Event (T M : Type*) where
  | load (m : M)
  | register (m : M)
  | unregister (m : M)
  | exit (m : M) (unregisters : Bool)
  | free (m : M)
  | test (t : T)
  | call (t : T)

section

variable {T M : Type*}

def State.init (T M : Type*) : State T M := ⟨none, fun _ => .unloaded, fun _ => .idle⟩

variable [DecidableEq T] [DecidableEq M]

def State.setClient (s : State T M) (m : M) (c : Client) : State T M :=
  { s with client := Function.update s.client m c }

def State.setNotifier (s : State T M) (t : T) (n : Notifier) : State T M :=
  { s with notifier := Function.update s.notifier t n }

def step (s : State T M) : Event T M → Option (State T M)
  | .load m => if s.client m = .unloaded then some (s.setClient m .loaded) else none
  | .register m =>
    if s.client m = .loaded then
      some { s with callback := (registerEventCallback s.callback m).2 }
    else none
  | .unregister m =>
    if s.client m = .loaded then some { s with callback := unregisterEventCallback s.callback }
    else none
  | .exit m unregisters =>
    if s.client m = .loaded then
      let callback := if unregisters then unregisterEventCallback s.callback else s.callback
      some ({ s with callback := callback }.setClient m .exited)
    else none
  | .free m => if s.client m = .exited then some (s.setClient m .unloaded) else none
  | .test t =>
    if s.notifier t = .idle then
      some (s.setNotifier t (if s.callback.isSome then .tested else .idle))
    else none
  -- `callback` is read again here, and called
  | .call t => if s.notifier t = .tested then some (s.setNotifier t .idle) else none

/-- Module A with its clients `M` and the threads `T`. -/
def framework (T M : Type*) [DecidableEq T] [DecidableEq M] : Machine (State T M) (Event T M) :=
  ⟨.init T M, step⟩

/-- A call goes to a module that is there. -/
def Live (s : State T M) : Event T M → Prop
  | .call _ => ∃ m, s.callback = some m ∧ s.client m ≠ .unloaded
  | _ => True

/-- A client that exits without unregistering does not hold the pointer. -/
def Leaves (s : State T M) : Event T M → Prop
  | .exit m false => s.callback ≠ some m
  | _ => True

/-- Whoever clears the pointer waits for the notifiers. -/
def Waits (s : State T M) : Event T M → Prop
  | .unregister _ | .exit _ true => ∀ t, s.notifier t = .idle
  | _ => True

omit [DecidableEq T] in
theorem setClient_client (s : State T M) (m n : M) (c : Client) :
    (s.setClient m c).client n = if n = m then c else s.client n := by
  simp only [State.setClient, Function.update_apply]

omit [DecidableEq M] in
theorem setNotifier_notifier (s : State T M) (t u : T) (n : Notifier) :
    (s.setNotifier t n).notifier u = if u = t then n else s.notifier u := by
  simp only [State.setNotifier, Function.update_apply]

/-- **What a step does**, where it is possible. -/
theorem step_spec {s s' : State T M} {e : Event T M} (hs : step s e = some s') :
    match e with
    | .load m => s.client m = .unloaded ∧ s' = s.setClient m .loaded
    | .register m => s.client m = .loaded ∧
        s' = { s with callback := (registerEventCallback s.callback m).2 }
    | .unregister m => s.client m = .loaded ∧ s' = { s with callback := none }
    | .exit m true => s.client m = .loaded ∧
        s' = { s with callback := none }.setClient m .exited
    | .exit m false => s.client m = .loaded ∧ s' = s.setClient m .exited
    | .free m => s.client m = .exited ∧ s' = s.setClient m .unloaded
    | .test t => s.notifier t = .idle ∧
        s' = s.setNotifier t (if s.callback.isSome then .tested else .idle)
    | .call t => s.notifier t = .tested ∧ s' = s.setNotifier t .idle := by
  cases e with
  | exit m unregisters =>
    obtain ⟨hm, heq⟩ := Option.ite_none_right_eq_some.mp hs
    cases unregisters <;> exact ⟨hm, (Option.some.inj heq).symm⟩
  | load m | register m | unregister m | free m | test m | call m =>
    obtain ⟨hm, heq⟩ := Option.ite_none_right_eq_some.mp hs
    exact ⟨hm, (Option.some.inj heq).symm⟩

/-! ## Who holds the pointer -/

/-- The pointer is NULL or a loaded client's. -/
def Held (s : State T M) : Prop := ∀ m, s.callback = some m → s.client m = .loaded

/-- A thread behind its test finds a pointer. -/
def Found (s : State T M) : Prop := ∀ t, s.notifier t = .tested → s.callback ≠ none

theorem Held.next {s s' : State T M} {e : Event T M} (h : Held s) (he : Leaves s e)
    (hs : step s e = some s') : Held s' := by
  have hspec := step_spec hs
  intro n hn
  cases e with
  | load m =>
    obtain ⟨-, rfl⟩ := hspec
    rw [setClient_client]
    split
    · rfl
    · exact h n hn
  | register m =>
    obtain ⟨hm, rfl⟩ := hspec
    cases hcb : s.callback with
    | none =>
      simp only [hcb, registerEventCallback, Option.some.injEq] at hn
      exact hn ▸ hm
    | some o =>
      simp only [hcb, registerEventCallback] at hn
      exact h n (hcb.trans hn)
  | unregister m =>
    obtain ⟨-, rfl⟩ := hspec
    cases hn
  | exit m unregisters =>
    cases unregisters with
    | true =>
      obtain ⟨-, rfl⟩ := hspec
      cases hn
    | false =>
      obtain ⟨-, rfl⟩ := hspec
      have hne : n ≠ m := fun hnm => he (hnm ▸ hn)
      rw [setClient_client, if_neg hne]
      exact h n hn
  | free m =>
    obtain ⟨hm, rfl⟩ := hspec
    have hloaded : s.client n = .loaded := h n hn
    have hne : n ≠ m := by
      intro hnm
      rw [hnm, hm] at hloaded
      cases hloaded
    rwa [setClient_client, if_neg hne]
  | test t | call t =>
    obtain ⟨-, rfl⟩ := hspec
    exact h n hn

theorem Found.next {s s' : State T M} {e : Event T M} (h : Found s) (he : Waits s e)
    (hs : step s e = some s') : Found s' := by
  have hspec := step_spec hs
  intro u hu
  cases e with
  | load m | free m =>
    obtain ⟨-, rfl⟩ := hspec
    exact h u hu
  | register m =>
    obtain ⟨-, rfl⟩ := hspec
    obtain ⟨o, ho⟩ := Option.ne_none_iff_exists'.mp (h u hu)
    simp [ho, registerEventCallback]
  | unregister m =>
    obtain ⟨-, rfl⟩ := hspec
    cases (he u).symm.trans hu
  | exit m unregisters =>
    cases unregisters with
    | true =>
      obtain ⟨-, rfl⟩ := hspec
      cases (he u).symm.trans hu
    | false =>
      obtain ⟨-, rfl⟩ := hspec
      exact h u hu
  | test t =>
    obtain ⟨-, rfl⟩ := hspec
    rw [setNotifier_notifier] at hu
    split at hu
    · split at hu
      · rename_i hsome
        exact Option.isSome_iff_ne_none.mp hsome
      · cases hu
    · exact h u hu
  | call t =>
    obtain ⟨-, rfl⟩ := hspec
    rw [setNotifier_notifier] at hu
    split at hu
    · cases hu
    · exact h u hu

/-- A pointer that is there belongs to a loaded client, so a call is sound. -/
theorem live_of_held {s s' : State T M} {e : Event T M} (hheld : Held s) (hfound : Found s)
    (hs : step s e = some s') : Live s e := by
  cases e with
  | call t =>
    obtain ⟨ht, -⟩ := step_spec hs
    obtain ⟨m, hm⟩ := Option.ne_none_iff_exists'.mp (hfound t ht)
    refine ⟨m, hm, ?_⟩
    rw [hheld m hm]
    exact nofun
  | load | register | unregister | exit | free | test => trivial

/-- **Clients that unregister when they exit**, as `module_b_exit` does, are
not called behind their release, whatever the interleaving. -/
theorem held_of_unregisters {es : List (Event T M)} {s : State T M}
    (h : (framework T M).Reaches es s) (hexit : ∀ m, .exit m false ∉ es) : Held s := by
  have hevents : ∀ e ∈ es, ∀ m, e ≠ .exit m false := fun e he m heq => hexit m (heq ▸ he)
  have hinit : Held (State.init T M) := by
    intro m hm
    cases hm
  have hstep : ∀ (s : State T M) (e : Event T M) (s' : State T M), Held s →
      (∀ m, e ≠ .exit m false) → step s e = some s' → Held s' := by
    intro s e s' hs he hstep
    refine hs.next ?_ hstep
    cases e with
    | exit m unregisters =>
      cases unregisters with
      | true => trivial
      | false => exact absurd rfl (he m)
    | load | register | unregister | free | test | call => trivial
  exact Machine.exec_inv hstep hinit (Machine.along_of_forall _ hevents) h

/-! ## Calls that go astray -/

/-- Some events from `s` on include a call that goes astray. -/
def GoesAstray (s : State T M) : Prop :=
  ∃ fs u, (framework T M).exec s fs = some u ∧ ¬ (framework T M).Along Live s fs

theorem GoesAstray.of_step {s s' : State T M} {e : Event T M} (hs : step s e = some s')
    (h : GoesAstray s') : GoesAstray s := by
  obtain ⟨fs, u, hrun, hbad⟩ := h
  refine ⟨e :: fs, u, Machine.exec_cons_iff.mpr ⟨s', hs, hrun⟩, ?_⟩
  intro halong
  exact hbad (halong.2 s' hs)

/-- A thread behind its test, and nobody there to be called. -/
theorem goesAstray_of_tested {s : State T M} {t : T} (ht : s.notifier t = .tested)
    (hbad : ∀ m, s.callback = some m → s.client m = .unloaded) : GoesAstray s := by
  refine ⟨[.call t], s.setNotifier t .idle, ?_, ?_⟩
  · simp [Machine.exec, framework, step, ht]
  · intro halong
    obtain ⟨m, hm, hthere⟩ := halong.1
    exact hthere (hbad m hm)

/-- A client that holds the pointer is about to be released. -/
theorem goesAstray_of_exited [Inhabited T] {s : State T M} {m : M} (hm : s.client m = .exited)
    (hcb : s.callback = some m) : GoesAstray s := by
  have hfree : step s (.free m : Event T M) = some (s.setClient m .unloaded) := by
    simp [step, hm]
  have hgone : ∀ n, s.callback = some n → (s.setClient m .unloaded).client n = .unloaded := by
    intro n hn
    rw [setClient_client, if_pos (Option.some.inj (hn.symm.trans hcb))]
  refine .of_step hfree ?_
  cases ht : s.notifier default with
  | tested => exact goesAstray_of_tested ht hgone
  | idle =>
    -- a notification that starts now passes its test
    have htest : step (s.setClient m .unloaded) (.test default : Event T M)
        = some ((s.setClient m .unloaded).setNotifier default .tested) := by
      simp [step, State.setClient, ht, hcb]
    refine .of_step htest (goesAstray_of_tested (t := default) ?_ hgone)
    rw [setNotifier_notifier, if_pos rfl]

/-- Behind a step that breaks one of the conditions a call can go astray. -/
theorem goesAstray_of_step [Inhabited T] {s s' : State T M} {e : Event T M}
    (hs : step s e = some s') (he : ¬ (Leaves s e ∧ Waits s e)) : GoesAstray s' := by
  have htested : ¬ (∀ t, s.notifier t = .idle) → ∃ t, s.notifier t = .tested := by
    intro hall
    obtain ⟨t, ht⟩ := not_forall.mp hall
    refine ⟨t, ?_⟩
    cases hn : s.notifier t with
    | idle => exact absurd hn ht
    | tested => rfl
  have hspec := step_spec hs
  cases e with
  | unregister m =>
    obtain ⟨-, rfl⟩ := hspec
    obtain ⟨t, ht⟩ := htested fun hall => he ⟨trivial, hall⟩
    exact goesAstray_of_tested (t := t) ht nofun
  | exit m unregisters =>
    cases unregisters with
    | true =>
      obtain ⟨-, rfl⟩ := hspec
      obtain ⟨t, ht⟩ := htested fun hall => he ⟨trivial, hall⟩
      exact goesAstray_of_tested (t := t) ht nofun
    | false =>
      obtain ⟨-, rfl⟩ := hspec
      have hcb : s.callback = some m := by
        by_contra hne
        exact he ⟨hne, trivial⟩
      refine goesAstray_of_exited (m := m) ?_ hcb
      rw [setClient_client, if_pos rfl]
  | load | register | free | test | call => exact absurd ⟨trivial, trivial⟩ he

/-- **Calls of a notification** go to a client that is there, in every run in
which nobody clears the pointer while a thread is between its test and its
call, and no client exits without unregistering while it holds the pointer; and
any run up to a step that breaks this can go on to a call through NULL or into
a module that has been unloaded. -/
theorem calls_live [Inhabited T] {es : List (Event T M)} {s : State T M}
    (h : (framework T M).Reaches es s) :
    ((framework T M).Along (fun s e => Leaves s e ∧ Waits s e) (.init T M) es →
        (framework T M).Along Live (.init T M) es) ∧
      ∀ e s', step s e = some s' → ¬ (Leaves s e ∧ Waits s e) →
        ∃ fs u, (framework T M).exec s' fs = some u ∧ ¬ (framework T M).Along Live s' fs := by
  refine ⟨fun hcond => ?_, fun e s' hs he => goesAstray_of_step hs he⟩
  have hheld : Held (State.init T M) := by
    intro m hm
    cases hm
  have hfound : Found (State.init T M) := by
    intro t ht
    cases ht
  refine Machine.along_of_inv (I := fun s => Held s ∧ Found s) ?_ ?_ ⟨hheld, hfound⟩
    hcond h
  · exact fun s e s' hI _ hs => live_of_held hI.1 hI.2 hs
  · exact fun s e s' hI he hs => ⟨hI.1.next he.1 hs, hI.2.next he.2 hs⟩

instance [Fintype T] (s : State T M) (e : Event T M) : Decidable (Leaves s e ∧ Waits s e) := by
  cases e with
  | exit m unregisters =>
    cases unregisters <;> unfold Leaves Waits <;> infer_instance
  | load | register | unregister | free | test | call => unfold Leaves Waits; infer_instance

end

/-- A client is called twice and then unloaded; another one takes its place. -/
def inTurn : List (Event Bool Bool) :=
  [.load true, .register true, .test false, .test true, .call true, .call false, .exit true true,
    .load false, .register false, .free true, .test true, .call true]

theorem inTurn_run : ((framework Bool Bool).exec (.init _ _) inTurn).isSome := by decide

theorem calls_live_inTurn : (framework Bool Bool).Along Live (.init _ _) inTurn :=
  (calls_live (Option.some_get inTurn_run).symm).1 (by decide)

/-- The client exits between the test and the call. -/
def clearedBetween : List (Event Unit Unit) :=
  [.load (), .register (), .test (), .exit () true, .call ()]

theorem clearedBetween_run :
    ((framework Unit Unit).exec (.init _ _) clearedBetween).isSome := by decide

theorem call_through_null :
    ¬ ∀ (es : List (Event Unit Unit)) s, (framework Unit Unit).Reaches es s →
      (framework Unit Unit).Along Live (.init _ _) es := by
  intro h
  have hlive := h clearedBetween _ (Option.some_get clearedBetween_run).symm
  obtain ⟨m, hm, -⟩ := hlive.2 _ rfl |>.2 _ rfl |>.2 _ rfl |>.2 _ rfl |>.1
  cases hm

end KernelSpace.Callbacks.Unlocked
