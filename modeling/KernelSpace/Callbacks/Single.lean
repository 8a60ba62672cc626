import Mathlib.Data.List.Count
import Mathlib.Logic.Function.Basic
import KernelSpace.Kernel.Errno
import KernelSpace.Lib.Machine

/-!
# Callbacks — the single callback (27e)

`27e.Callback_Registration_Framework`: Module A has one callback pointer. A
client module registers its callback when it is loaded, ignores the result as
Module B does, and unregisters when it is unloaded. `unregister_event_callback`
takes no argument and clears the pointer, whoever it belongs to.

Each client has one callback, so the pointer is NULL or a client. The three
`notify_event` calls of `module_b_init` are `notify` events after the `load`.
Module A stays loaded: its clients use its symbols.

The registered clients are served exactly as long as no client that was
refused is unloaded under the one that holds the pointer.
-/

namespace KernelSpace.Callbacks.Single

open KernelSpace.Kernel KernelSpace.Lib

/-! ## Module A -/

section

variable {C : Type*}

/-- The return value and `callback`. -/
def registerEventCallback (callback : Option C) (cb : C) : Int × Option C :=
  match callback with
  | some _ => (-EBUSY, callback)
  | none => (0, some cb)

def unregisterEventCallback (_callback : Option C) : Option C := none

/-- The callbacks that are called. -/
def notifyEvent (callback : Option C) : List C :=
  match callback with
  | some cb => [cb]
  | none => []

end

/-! ## The clients -/

/-- A client module: not loaded, or loaded with what its registration
returned. -/
inductive Client where
  | unloaded
  | loaded (ret : Int)
deriving DecidableEq

structure State (M : Type*) where
  callback : Option M
  client : M → Client
  invoked : List (List M)

inductive Event (M : Type*) where
  | load (m : M)
  | unload (m : M)
  | notify

section

variable {M : Type*} [DecidableEq M]

def State.setClient (s : State M) (m : M) (c : Client) : State M :=
  { s with client := Function.update s.client m c }

def step (s : State M) : Event M → Option (State M)
  | .load m =>
    match s.client m with
    | .unloaded =>
      let (ret, callback) := registerEventCallback s.callback m
      some ({ s with callback := callback }.setClient m (.loaded ret))
    | .loaded _ => none
  | .unload m =>
    match s.client m with
    | .unloaded => none
    | .loaded _ =>
      some ({ s with callback := unregisterEventCallback s.callback }.setClient m .unloaded)
  | .notify => some { s with invoked := s.invoked ++ [notifyEvent s.callback] }

end

/-- Module A and its clients `M`. -/
def framework (M : Type*) [DecidableEq M] : Machine (State M) (Event M) :=
  ⟨⟨none, fun _ => .unloaded, []⟩, step⟩

/-! ## Who is served -/

section

variable {M : Type*} [DecidableEq M]

/-- Every client whose registration returned 0 and that is still loaded would
be called exactly once by a `notify_event` now. -/
def Served (s : State M) : Prop :=
  ∀ m, s.client m = .loaded 0 → (notifyEvent s.callback).count m = 1

/-- A client that was refused is unloaded only when nobody holds the pointer. -/
def Considerate (s : State M) : Event M → Prop
  | .unload m => s.client m ≠ .loaded 0 → s.callback = none
  | _ => True

/-- The pointer belongs to the one client that was registered. -/
def Owned (s : State M) : Prop := ∀ m, s.client m = .loaded 0 ↔ s.callback = some m

theorem served_of_owned {s : State M} (h : Owned s) : Served s := by
  intro m hm
  rw [(h m).mp hm]
  simp [notifyEvent]

theorem setClient_client (s : State M) (m n : M) (c : Client) :
    (s.setClient m c).client n = if n = m then c else s.client n := by
  simp only [State.setClient, Function.update_apply]

theorem owned_load {s s' : State M} {m : M} (h : Owned s) (hs : step s (.load m) = some s') :
    Owned s' := by
  simp only [step] at hs
  split at hs
  · rename_i hunloaded
    cases hs
    intro n
    rw [setClient_client]
    cases hcb : s.callback with
    | none =>
      -- the pointer was free and is the client's now
      have hn : s.client n ≠ .loaded 0 := fun hc => nomatch hcb.symm.trans ((h n).mp hc)
      by_cases hnm : n = m
      · simp [hnm, registerEventCallback, State.setClient]
      · simp [hnm, hn, registerEventCallback, State.setClient, Ne.symm hnm]
    | some o =>
      have ho : s.client o = .loaded 0 := (h o).mpr hcb
      have hom : m ≠ o := fun hmo => by
        rw [← hmo, hunloaded] at ho
        cases ho
      by_cases hnm : n = m
      · subst hnm
        simp [registerEventCallback, State.setClient, EBUSY, Ne.symm hom]
      · simp [hnm, registerEventCallback, State.setClient, h n, hcb]
  · cases hs

/-- **The step lemma**: the pointer stays with its owner when steps are
considerate, and otherwise a registered client is not called any more. -/
theorem owned_unload {s s' : State M} {m : M} (h : Owned s) (hs : step s (.unload m) = some s') :
    (Considerate s (.unload m) → Owned s') ∧ (Served s' → Considerate s (.unload m)) := by
  simp only [step] at hs
  split at hs
  · cases hs
  · cases hs
    constructor
    · intro hcons n
      rw [setClient_client]
      simp only [State.setClient, unregisterEventCallback, reduceCtorEq, iff_false]
      by_cases hnm : n = m
      · simp [hnm]
      · intro hn
        rw [if_neg hnm] at hn
        have hown := (h n).mp hn
        by_cases hm : s.client m = .loaded 0
        · exact hnm (Option.some.inj (hown.symm.trans ((h m).mp hm)))
        · cases hown.symm.trans (hcons hm)
    · intro hserved hm
      by_contra hcb
      obtain ⟨o, ho⟩ := Option.ne_none_iff_exists'.mp hcb
      have hreg : s.client o = .loaded 0 := (h o).mpr ho
      have hom : o ≠ m := fun hom => hm (hom ▸ hreg)
      have hcount := hserved o (by rw [setClient_client, if_neg hom]; exact hreg)
      simp [State.setClient, unregisterEventCallback, notifyEvent] at hcount

/-- **Registered clients are served** in every state of a run exactly when no
client that was refused is unloaded while another one holds the pointer. -/
theorem served_iff (es : List (Event M)) (s : State M) (h : (framework M).Reaches es s) :
    (framework M).Always Served (framework M).init es
      ↔ (framework M).Along Considerate (framework M).init es := by
  refine Machine.always_iff_along (I := Owned) (fun _ => served_of_owned) ?_ ?_ ?_ h
  · intro s e s' hs hcons hstep
    cases e with
    | load m => exact owned_load hs hstep
    | unload m => exact (owned_unload hs hstep).1 hcons
    | notify =>
      cases hstep
      exact hs
  · intro s e s' hs hstep hserved
    cases e with
    | unload m => exact (owned_unload hs hstep).2 hserved
    | load m | notify => trivial
  · intro m
    simp [framework]

instance (s : State M) : (e : Event M) → Decidable (Considerate s e)
  | .unload m => inferInstanceAs (Decidable (s.client m ≠ .loaded 0 → s.callback = none))
  | .load _ | .notify => isTrue trivial

end

/-- The holder leaves first, then the client that was refused. -/
def inTurn : List (Event Bool) := [.load false, .load true, .notify, .unload false, .unload true]

theorem inTurn_run : ((framework Bool).exec (framework Bool).init inTurn).isSome := by decide

theorem served_iff_inTurn : (framework Bool).Always Served (framework Bool).init inTurn :=
  (served_iff inTurn _ (Option.some_get inTurn_run).symm).mpr (by decide)

/-- The client that was refused leaves: the one that is registered is not
called any more. -/
theorem refused_client_unregisters :
    ∃ s, (framework Bool).Reaches [.load false, .load true, .unload true, .notify] s ∧
      s.client false = .loaded 0 ∧ s.invoked = [[]] ∧ ¬ Served s := by
  refine ⟨_, rfl, rfl, rfl, ?_⟩
  intro hs
  exact absurd (hs false rfl) (by decide)

end KernelSpace.Callbacks.Single
