import Mathlib.Data.List.Basic
import Mathlib.Logic.Function.Basic
import KernelSpace.Kernel.Errno
import KernelSpace.Lib.Machine

/-!
# Callbacks — the list of callbacks (27f)

`27f.Multiple_Callback_Registration/Multiple_Cb_Registration_Module-A.c`: a
list of callbacks under one mutex. Any threads `T` are inside the three
functions; a step is an allocation, the acquisition or the release of
`callback_lock`, one round of a list traversal (a call of one callback, for
`notify_event`), or the `list_add_tail`. Callbacks are values `C` that do not
come back into the module.

Records that no step reads: the operations in the order in which they took
the lock, and for each notification what was ahead of it and what it called.

A notification calls what replaying that order leaves.
-/

namespace KernelSpace.Callbacks.Multiple

open KernelSpace.Kernel KernelSpace.Lib

/-! ## What the module is for -/

/-- An operation that took the lock. -/
inductive Op (C : Type*) where
  | register (cb : C)
  | unregister (cb : C)
  | notify
deriving DecidableEq

section

variable {C : Type*} [DecidableEq C]

/-- A registration appends; an unregistration removes the oldest entry. -/
def Op.apply (callbacks : List C) : Op C → List C
  | register cb => callbacks ++ [cb]
  | unregister cb => callbacks.erase cb
  | notify => callbacks

/-- The callbacks after the operations, in order. -/
def replay (ops : List (Op C)) : List C := ops.foldl Op.apply []

@[simp] theorem replay_concat (ops : List (Op C)) (op : Op C) :
    replay (ops ++ [op]) = op.apply (replay ops) := by
  simp [replay]

end

/-! ## The functions, step by step -/

/-- Where a thread is. `calling` is the loop of `notify_event` at entry `i`,
with the operations that took the lock before it and the calls made. -/
inductive Pc (C M : Type*) where
  | idle
  | allocate (cb : C)
  | registerLock (cb : C)
  | append (cb : C)
  | unregisterLock (cb : C)
  | search (cb : C) (i : Nat)
  | notifyLock (msg : M)
  | calling (msg : M) (before : List (Op C)) (i : Nat) (invoked : List (C × M))
  | unlock (ret : Option Int)

/-- A notification that has made its calls. -/
structure Notification (C M : Type*) where
  msg : M
  before : List (Op C)
  invoked : List (C × M)

structure State (T C M : Type*) where
  callbackList : List C
  callbackLock : Option T
  pc : T → Pc C M
  ret : T → Option Int
  acquired : List (Op C)
  notifications : List (Notification C M)

/-- A thread calls one of the functions, its `kmalloc` fails, or it takes its
next step. -/
inductive Event (T C M : Type*) where
  | register (t : T) (cb : C)
  | unregister (t : T) (cb : C)
  | notify (t : T) (msg : M)
  | allocFails (t : T)
  | next (t : T)

namespace State

variable {T C M : Type*}

def init : State T C M := ⟨[], none, fun _ => .idle, fun _ => none, [], []⟩

variable [DecidableEq T]

def goto (s : State T C M) (t : T) (pc : Pc C M) : State T C M :=
  { s with pc := Function.update s.pc t pc }

/-- The function is entered by a thread that is in none. -/
def enter (s : State T C M) (t : T) (pc : Pc C M) : Option (State T C M) :=
  match s.pc t with
  | .idle => some (s.goto t pc)
  | _ => none

/-- `mutex_lock(&callback_lock)`, when it gets the lock. -/
def mutexLock (s : State T C M) (t : T) (op : Op C) (pc : Pc C M) : Option (State T C M) :=
  match s.callbackLock with
  | none => some ({ s with callbackLock := some t, acquired := s.acquired ++ [op] }.goto t pc)
  | some _ => none

/-- `mutex_unlock(&callback_lock)`, and the return. -/
def mutexUnlock (s : State T C M) (t : T) (ret : Option Int) : State T C M :=
  { s with callbackLock := none, ret := Function.update s.ret t ret }.goto t .idle

variable [DecidableEq C]

/-- The next step of a thread at `pc`. -/
def next (s : State T C M) (t : T) : Pc C M → Option (State T C M)
  | .idle => none
  | .allocate cb => some (s.goto t (.registerLock cb))
  | .registerLock cb => s.mutexLock t (.register cb) (.append cb)
  | .append cb =>
    some ({ s with callbackList := s.callbackList ++ [cb] }.goto t (.unlock (some 0)))
  | .unregisterLock cb => s.mutexLock t (.unregister cb) (.search cb 0)
  | .search cb i =>
    match s.callbackList[i]? with
    | none => some (s.goto t (.unlock none))
    | some node =>
      if node = cb then
        some ({ s with callbackList := s.callbackList.eraseIdx i }.goto t (.unlock none))
      else some (s.goto t (.search cb (i + 1)))
  | .notifyLock msg => s.mutexLock t .notify (.calling msg s.acquired 0 [])
  | .calling msg before i invoked =>
    match s.callbackList[i]? with
    | none =>
      let done : Notification C M := ⟨msg, before, invoked⟩
      some ({ s with notifications := s.notifications ++ [done] }.goto t (.unlock none))
    | some cb => some (s.goto t (.calling msg before (i + 1) (invoked ++ [(cb, msg)])))
  | .unlock ret => some (s.mutexUnlock t ret)

def step (s : State T C M) : Event T C M → Option (State T C M)
  | .register t cb => s.enter t (.allocate cb)
  | .unregister t cb => s.enter t (.unregisterLock cb)
  | .notify t msg => s.enter t (.notifyLock msg)
  | .allocFails t =>
    match s.pc t with
    | .allocate _ => some ({ s with ret := Function.update s.ret t (some (-ENOMEM)) }.goto t .idle)
    | _ => none
  | .next t => s.next t (s.pc t)

end State

/-- The module with the threads `T`. -/
def framework (T C M : Type*) [DecidableEq T] [DecidableEq C] :
    Machine (State T C M) (Event T C M) := ⟨.init, State.step⟩

/-! ## The invariant -/

section

variable {T C M : Type*} [DecidableEq C]

/-- The search stops at the oldest entry. -/
theorem erase_eq_eraseIdx_of_scan {l : List C} {cb : C} {i : Nat} (hscan : cb ∉ l.take i)
    (hi : l[i]? = some cb) : l.erase cb = l.eraseIdx i := by
  obtain ⟨hlt, hget⟩ := List.getElem?_eq_some_iff.mp hi
  have hsplit : l = l.take i ++ cb :: l.drop (i + 1) := by
    rw [← hget, ← List.drop_eq_getElem_cons hlt, List.take_append_drop]
  rw [List.eraseIdx_eq_take_drop_succ]
  conv => lhs; rw [hsplit]
  rw [List.erase_append_right _ hscan, List.erase_cons_head]

omit [DecidableEq C] in
theorem notMem_of_scan {l : List C} {cb : C} {i : Nat} (hscan : cb ∉ l.take i)
    (hi : l[i]? = none) : cb ∉ l := by
  rwa [List.take_of_length_le (List.getElem?_eq_none_iff.mp hi)] at hscan

/-- The thread is between `mutex_lock` and `mutex_unlock`. -/
def Pc.Inside : Pc C M → Prop
  | append _ | search _ _ | calling _ _ _ _ | unlock _ => True
  | _ => False

/-- What is true of the thread that has the lock. -/
def Critical (s : State T C M) : Pc C M → Prop
  | .append cb => ∃ before, s.acquired = before ++ [.register cb] ∧ s.callbackList = replay before
  | .search cb i => ∃ before, s.acquired = before ++ [.unregister cb] ∧
      s.callbackList = replay before ∧ cb ∉ s.callbackList.take i
  | .calling msg before i invoked => s.acquired = before ++ [.notify] ∧
      s.callbackList = replay before ∧ invoked = (s.callbackList.take i).map fun cb => (cb, msg)
  | .unlock _ => s.callbackList = replay s.acquired
  | _ => False

/-- A notification called what replaying leaves. -/
def Notification.Faithful (n : Notification C M) : Prop :=
  n.invoked = (replay n.before).map fun cb => (cb, n.msg)

structure Inv (s : State T C M) : Prop where
  /-- The list lags behind the lock order by at most the holder's operation. -/
  free : s.callbackLock = none → s.callbackList = replay s.acquired
  critical : ∀ t, s.callbackLock = some t → Critical s (s.pc t)
  inside : ∀ t, (s.pc t).Inside → s.callbackLock = some t
  faithful : ∀ n ∈ s.notifications, n.Faithful

theorem inv_init : Inv (State.init : State T C M) :=
  ⟨fun _ => rfl, nofun, fun _ h => h.elim, nofun⟩

variable [DecidableEq T]

omit [DecidableEq C] in
@[simp] theorem goto_pc_self (s : State T C M) (t : T) (pc : Pc C M) : (s.goto t pc).pc t = pc :=
  Function.update_self ..

omit [DecidableEq C] in
theorem goto_pc_of_ne (s : State T C M) {t u : T} (h : u ≠ t) (pc : Pc C M) :
    (s.goto t pc).pc u = s.pc u := Function.update_of_ne h ..

/-- A thread that does not have the lock moves on and does not get it. -/
theorem Inv.goto_outside {s : State T C M} (h : Inv s) {t : T} (ht : ¬ (s.pc t).Inside)
    {pc : Pc C M} (hpc : ¬ pc.Inside) (ret : T → Option Int) :
    Inv ({ s with ret := ret }.goto t pc) := by
  refine ⟨h.free, ?_, ?_, h.faithful⟩
  · intro u hu
    have hcrit := h.critical u hu
    have hut : u ≠ t := by
      rintro rfl
      cases hp : s.pc u <;> simp_all [Critical, Pc.Inside]
    rw [goto_pc_of_ne _ hut]
    exact hcrit
  · intro u hu
    by_cases hut : u = t
    · subst hut
      rw [goto_pc_self] at hu
      exact absurd hu hpc
    · rw [goto_pc_of_ne _ hut] at hu
      exact h.inside u hu

/-- The thread that has the lock moves on. -/
theorem inv_goto_inside {s : State T C M} {t : T} {pc : Pc C M} (hlock : s.callbackLock = some t)
    (hothers : ∀ u, (s.pc u).Inside → u = t) (hcrit : Critical s pc)
    (hfaith : ∀ n ∈ s.notifications, n.Faithful) : Inv (s.goto t pc) := by
  refine ⟨?_, ?_, ?_, hfaith⟩
  · intro hfree
    cases hlock.symm.trans hfree
  · intro u hu
    cases hlock.symm.trans hu
    rw [goto_pc_self]
    cases pc <;> exact hcrit
  · intro u hu
    by_cases hut : u = t
    · subst hut
      exact hlock
    · rw [goto_pc_of_ne _ hut] at hu
      exact absurd (hothers u hu) hut

/-- The lock is taken. -/
theorem Inv.mutexLock {s s' : State T C M} (h : Inv s) {t : T} {op : Op C} {pc : Pc C M}
    (hs : s.mutexLock t op pc = some s')
    (hcrit : s.callbackList = replay s.acquired →
      Critical { s with acquired := s.acquired ++ [op] } pc) : Inv s' := by
  simp only [State.mutexLock] at hs
  split at hs
  · rename_i hfree
    cases hs
    refine inv_goto_inside rfl ?_ ?_ h.faithful
    · intro u hu
      cases hfree.symm.trans (h.inside u hu)
    · have hc := hcrit (h.free hfree)
      cases pc <;> exact hc
  · cases hs

/-- The lock is released by the thread that has it. -/
theorem Inv.mutexUnlock {s : State T C M} (h : Inv s) {t : T} {ret : Option Int}
    (hpc : s.pc t = .unlock ret) : Inv (s.mutexUnlock t ret) := by
  have hlock : s.callbackLock = some t := h.inside t (by rw [hpc]; trivial)
  have hcrit := h.critical t hlock
  rw [hpc] at hcrit
  refine ⟨fun _ => hcrit, nofun, ?_, h.faithful⟩
  intro u hu
  by_cases hut : u = t
  · subst hut
    rw [State.mutexUnlock, goto_pc_self] at hu
    exact hu.elim
  · rw [State.mutexUnlock, goto_pc_of_ne _ hut] at hu
    exact absurd (Option.some.inj ((h.inside u hu).symm.trans hlock)) hut

theorem Inv.enter {s s' : State T C M} (h : Inv s) {t : T} {pc : Pc C M} (hpc : ¬ pc.Inside)
    (hs : s.enter t pc = some s') : Inv s' := by
  simp only [State.enter] at hs
  split at hs
  · rename_i hidle
    cases hs
    exact h.goto_outside (by rw [hidle]; exact id) hpc s.ret
  · cases hs

theorem inv_next {s s' : State T C M} (h : Inv s) {t : T}
    (hs : s.next t (s.pc t) = some s') : Inv s' := by
  have hothers : (s.pc t).Inside → ∀ u, (s.pc u).Inside → u = t := fun ht u hu =>
    Option.some.inj ((h.inside u hu).symm.trans (h.inside t ht))
  have hcrit : (s.pc t).Inside → Critical s (s.pc t) := fun ht => h.critical t (h.inside t ht)
  have hlock := h.inside t
  cases hpc : s.pc t with
  | idle =>
    rw [hpc] at hs
    cases hs
  | allocate cb =>
    rw [hpc] at hs
    cases hs
    exact h.goto_outside (by rw [hpc]; exact id) id s.ret
  | registerLock cb =>
    rw [hpc] at hs
    exact h.mutexLock hs fun hlist => ⟨s.acquired, rfl, hlist⟩
  | unregisterLock cb =>
    rw [hpc] at hs
    exact h.mutexLock hs fun hlist => ⟨s.acquired, rfl, hlist, by simp⟩
  | notifyLock msg =>
    rw [hpc] at hs
    exact h.mutexLock hs fun hlist => ⟨rfl, hlist, by simp⟩
  | append cb =>
    rw [hpc] at hs hothers hcrit hlock
    cases hs
    obtain ⟨before, hacq, hlist⟩ := hcrit trivial
    refine inv_goto_inside (hlock trivial) (hothers trivial) ?_ h.faithful
    simp only [Critical, hacq, hlist, replay_concat, Op.apply]
  | search cb i =>
    rw [hpc] at hs hothers hcrit hlock
    obtain ⟨before, hacq, hlist, hscan⟩ := hcrit trivial
    simp only [State.next] at hs
    cases hi : s.callbackList[i]? with
    | none =>
      simp only [hi, Option.some.injEq] at hs
      subst hs
      refine inv_goto_inside (hlock trivial) (hothers trivial) ?_ h.faithful
      simp only [Critical, hacq, replay_concat, Op.apply, ← hlist]
      exact (List.erase_of_not_mem (notMem_of_scan hscan hi)).symm
    | some node =>
      simp only [hi] at hs
      split at hs
      · rename_i hnode
        subst hnode
        cases hs
        refine inv_goto_inside (hlock trivial) (hothers trivial) ?_ h.faithful
        simp only [Critical, hacq, replay_concat, Op.apply, ← hlist]
        exact (erase_eq_eraseIdx_of_scan hscan hi).symm
      · rename_i hne
        cases hs
        refine inv_goto_inside (hlock trivial) (hothers trivial) ⟨before, hacq, hlist, ?_⟩ h.faithful
        rw [List.take_add_one, hi]
        intro hmem
        rcases List.mem_append.mp hmem with hmem | hmem
        · exact hscan hmem
        · exact hne (List.mem_singleton.mp hmem).symm
  | calling msg before i invoked =>
    rw [hpc] at hs hothers hcrit hlock
    obtain ⟨hacq, hlist, hinv⟩ := hcrit trivial
    simp only [State.next] at hs
    cases hi : s.callbackList[i]? with
    | none =>
      simp only [hi, Option.some.injEq] at hs
      subst hs
      refine inv_goto_inside (hlock trivial) (hothers trivial) ?_ ?_
      · simp only [Critical, hacq, replay_concat, Op.apply, hlist]
      · intro n hn
        rcases List.mem_append.mp hn with hn | hn
        · exact h.faithful n hn
        · rw [List.mem_singleton.mp hn, Notification.Faithful, ← hlist, hinv,
            List.take_of_length_le (List.getElem?_eq_none_iff.mp hi)]
    | some cb =>
      simp only [hi, Option.some.injEq] at hs
      subst hs
      refine inv_goto_inside (hlock trivial) (hothers trivial) ⟨hacq, hlist, ?_⟩ h.faithful
      rw [List.take_add_one, hi, List.map_append, hinv]
      rfl
  | unlock ret =>
    rw [hpc] at hs
    cases hs
    exact h.mutexUnlock hpc

theorem inv_step {s s' : State T C M} {e : Event T C M} (h : Inv s) (hs : s.step e = some s') :
    Inv s' := by
  cases e with
  | register t cb => exact h.enter id hs
  | unregister t cb => exact h.enter id hs
  | notify t msg => exact h.enter id hs
  | allocFails t =>
    simp only [State.step] at hs
    split at hs
    · rename_i cb hpc
      cases hs
      exact h.goto_outside (by rw [hpc]; exact id) id _
    · cases hs
  | next t => exact inv_next h hs

/-! ## What a step can change -/

omit [DecidableEq C] in
theorem enter_spec {s s' : State T C M} {t : T} {pc : Pc C M} (hs : s.enter t pc = some s') :
    s' = s.goto t pc := by
  simp only [State.enter] at hs
  split at hs
  · exact (Option.some.inj hs).symm
  · cases hs

omit [DecidableEq C] in
theorem mutexLock_spec {s s' : State T C M} {t : T} {op : Op C} {pc : Pc C M}
    (hs : s.mutexLock t op pc = some s') :
    s.callbackLock = none ∧ s'.callbackList = s.callbackList := by
  simp only [State.mutexLock] at hs
  split at hs
  · rename_i hfree
    cases hs
    exact ⟨hfree, rfl⟩
  · cases hs

/-- The list changes only at an append, or at a search for something that is
there; the lock order only when nobody has the lock. -/
theorem next_spec {s s' : State T C M} {t : T} (hs : s.next t (s.pc t) = some s') :
    (s'.callbackList = s.callbackList ∨ (∃ cb, s.pc t = .append cb) ∨
        ∃ cb i, s.pc t = .search cb i ∧ cb ∈ s.callbackList) ∧
      (s'.acquired = s.acquired ∨ s.callbackLock = none) := by
  cases hpc : s.pc t with
  | idle =>
    rw [hpc] at hs
    cases hs
  | allocate cb | unlock ret =>
    rw [hpc] at hs
    cases hs
    exact ⟨.inl rfl, .inl rfl⟩
  | registerLock cb | unregisterLock cb | notifyLock msg =>
    rw [hpc] at hs
    obtain ⟨hfree, hlist⟩ := mutexLock_spec hs
    exact ⟨.inl hlist, .inr hfree⟩
  | append cb =>
    rw [hpc] at hs
    cases hs
    exact ⟨.inr (.inl ⟨cb, rfl⟩), .inl rfl⟩
  | search cb i =>
    rw [hpc] at hs
    simp only [State.next] at hs
    split at hs
    · cases hs
      exact ⟨.inl rfl, .inl rfl⟩
    · rename_i node hi
      split at hs
      · rename_i hnode
        cases hs
        exact ⟨.inr (.inr ⟨cb, i, rfl, hnode ▸ List.mem_of_getElem? hi⟩), .inl rfl⟩
      · cases hs
        exact ⟨.inl rfl, .inl rfl⟩
  | calling msg before i invoked =>
    rw [hpc] at hs
    simp only [State.next] at hs
    split at hs <;> cases hs <;> exact ⟨.inl rfl, .inl rfl⟩

/-- While a thread notifies, nothing changes the list or takes the lock. -/
theorem Inv.quiet {s s' : State T C M} (h : Inv s) {t : T} {msg : M} {before : List (Op C)}
    {i : Nat} {invoked : List (C × M)} (hpc : s.pc t = .calling msg before i invoked)
    {e : Event T C M} (hs : s.step e = some s') :
    s'.callbackList = s.callbackList ∧ s'.acquired = s.acquired := by
  have hlock : s.callbackLock = some t := h.inside t (by rw [hpc]; trivial)
  cases e with
  | register u cb | unregister u cb | notify u m =>
    rw [enter_spec hs]
    exact ⟨rfl, rfl⟩
  | allocFails u =>
    simp only [State.step] at hs
    split at hs <;> cases hs
    exact ⟨rfl, rfl⟩
  | next u =>
    -- whoever changes the list is inside, so it is `t`, which is elsewhere
    have hinside : (s.pc u).Inside → s.pc u = .calling msg before i invoked := by
      intro hu
      rw [Option.some.inj ((h.inside u hu).symm.trans hlock), hpc]
    obtain ⟨hlist, hacq⟩ := next_spec hs
    refine ⟨?_, hacq.resolve_right fun hfree => nomatch hlock.symm.trans hfree⟩
    rcases hlist with hlist | ⟨cb, hu⟩ | ⟨cb, j, hu, -⟩
    · exact hlist
    · exact nomatch hu.symm.trans (hinside (by rw [hu]; trivial))
    · exact nomatch hu.symm.trans (hinside (by rw [hu]; trivial))

/-- **Notifications replay the lock order.** A notification has called what
the registrations and unregistrations that took the lock before it leave, in
order; while it makes its calls nothing changes the list or takes the lock; a
registration whose allocation fails and the search for a callback that is not
in the list change nothing. -/
theorem notify_replays (s : State T C M) (h : (framework T C M).Reachable s) :
    (∀ n ∈ s.notifications, n.invoked = (replay n.before).map fun cb => (cb, n.msg)) ∧
      (∀ t msg before i invoked, s.pc t = .calling msg before i invoked →
        s.acquired = before ++ [.notify] ∧
          invoked = ((replay before).take i).map (fun cb => (cb, msg)) ∧
          ∀ e s', s.step e = some s' →
            s'.callbackList = s.callbackList ∧ s'.acquired = s.acquired) ∧
      (∀ t s', s.step (.allocFails t) = some s' → s'.callbackList = s.callbackList ∧
        s'.acquired = s.acquired ∧ s'.callbackLock = s.callbackLock) ∧
      ∀ t cb i s', s.pc t = .search cb i → cb ∉ s.callbackList → s.step (.next t) = some s' →
        s'.callbackList = s.callbackList := by
  have hinv : Inv s := h.inv inv_init fun _ _ _ => inv_step
  refine ⟨hinv.faithful, ?_, ?_, ?_⟩
  · intro t msg before i invoked hpc
    have hcrit := hinv.critical t (hinv.inside t (by rw [hpc]; trivial))
    rw [hpc] at hcrit
    obtain ⟨hacq, hlist, hinvoked⟩ := hcrit
    exact ⟨hacq, hlist ▸ hinvoked, fun e s' hs => hinv.quiet hpc hs⟩
  · intro t s' hs
    simp only [State.step] at hs
    split at hs <;> cases hs
    exact ⟨rfl, rfl, rfl⟩
  · intro t cb i s' hpc hunknown hs
    rcases (next_spec hs).1 with hlist | ⟨cb', hu⟩ | ⟨cb', j, hu, hmem⟩
    · exact hlist
    · cases hpc.symm.trans hu
    · cases hpc.symm.trans hu
      exact absurd hmem hunknown

end

/-- Three registrations, two of them of one callback, an unregistration of
that callback, and a notification. -/
def session : List (Event Bool Nat Nat) :=
  [Event.register false 1] ++ List.replicate 4 (Event.next false) ++
    [Event.register true 2] ++ List.replicate 4 (Event.next true) ++
    [Event.register false 1] ++ List.replicate 4 (Event.next false) ++
    [Event.unregister true 1] ++ List.replicate 3 (Event.next true) ++
    [Event.notify false 9] ++ List.replicate 4 (Event.next false)

theorem session_run : ((framework Bool Nat Nat).exec .init session).isSome := by decide

theorem notify_replays_session :
    ∃ s, (framework Bool Nat Nat).Reaches session s ∧
      s.notifications.map Notification.invoked = [[(2, 9), (1, 9)]] ∧
      ∀ n ∈ s.notifications, n.invoked = (replay n.before).map fun cb => (cb, n.msg) := by
  refine ⟨_, (Option.some_get session_run).symm, ?_, ?_⟩
  · decide
  · exact (notify_replays _ ⟨session, (Option.some_get session_run).symm⟩).1

end KernelSpace.Callbacks.Multiple
