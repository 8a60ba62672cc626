import Mathlib.Logic.Function.Basic
import KernelSpace.Kernel.ErrPtr
import KernelSpace.Kernel.Kthread
import KernelSpace.Lib.Shutdown

/-!
# KernelThread — two threads and their module (11)

`11.Kernel_Thread/Kernel_Thread.c`: `my_init` runs a first thread and creates a
second one, which it binds to a processor before it wakes it up; where the
second cannot be created it stops the first. `my_exit` stops one after the
other. A step is one of

* `createFirst`, `createSecond` — `kthread_run` and `kthread_create` return;
* `wakeSecond`, `initReturn` — the rest of `my_init`;
* `exit`, `joined`, `exitReturn` — `my_exit`, with the end of each wait;
* `thread` — a thread goes on; `reap` — its `task_struct` goes;
* `rmmod`.

Who is there in a phase is a table of roles (`role`).
-/

namespace KernelSpace.KernelThread

open KernelSpace.Kernel KernelSpace.Lib

/-- `my_thread1` and `my_thread2`. -/
inductive Which where
  | first
  | second
deriving DecidableEq

inductive Phase where
  | absent
  | firstRuns
  | secondCreated
  | secondWoken
  | loaded
  /-- `my_init` waits for the first thread, to return an error. -/
  | failing (err : Int)
  | stopping (w : Which)
  | stopped
  | unloaded
deriving DecidableEq

structure State where
  phase : Phase
  threads : Which → Kthread
  /-- What `my_init` has returned. -/
  insmod : Option Int

inductive Event where
  | createFirst (thread : Ptr)
  | createSecond (thread : Ptr)
  | wakeSecond
  | initReturn
  | exit
  | joined (w : Which)
  | exitReturn
  | thread (w : Which) (e : KthreadEvent)
  | reap (w : Which)
  | rmmod

def State.set (s : State) (w : Which) (t : Kthread) : State :=
  { s with threads := Function.update s.threads w t }

def State.to (s : State) (phase : Phase) : State := { s with phase }

/-- `kthread_stop` returns, for `my_init` or for `my_exit`. -/
def State.afterJoined (s : State) : Which → Option State
  | .first =>
    match s.phase with
    | .failing err => some { s with phase := .absent, insmod := some err }
    | .stopping .first =>
      some ((s.set .second (s.threads .second).askToStop).to (.stopping .second))
    | _ => none
  | .second => if s.phase = .stopping .second then some (s.to .stopped) else none

def step (s : State) : Event → Option State
  | .createFirst thread =>
    if s.phase = .absent then
      some (if isErr thread then { s with insmod := some (ptrErr thread) }
        else (s.set .first .run).to .firstRuns)
    else none
  | .createSecond thread =>
    if s.phase = .firstRuns then
      some (if isErr thread then
          (s.set .first (s.threads .first).askToStop).to (.failing (ptrErr thread))
        else (s.set .second .create).to .secondCreated)
    else none
  | .wakeSecond =>
    if s.phase = .secondCreated then
      some ((s.set .second (s.threads .second).wakeUpProcess).to .secondWoken)
    else none
  | .initReturn =>
    if s.phase = .secondWoken then some { s with phase := .loaded, insmod := some 0 } else none
  | .exit =>
    if s.phase = .loaded then
      some ((s.set .first (s.threads .first).askToStop).to (.stopping .first))
    else none
  | .joined w => (s.threads w).joined.bind fun t => (s.set w t).afterJoined w
  | .exitReturn => if s.phase = .stopped then some (s.to .unloaded) else none
  | .thread w e => ((s.threads w).step e).map (s.set w)
  | .reap w => (s.threads w).reap.map (s.set w)
  | .rmmod => if s.phase = .unloaded then some (s.to .absent) else none

def driver : Machine State Event := ⟨⟨.absent, fun _ => .absent, none⟩, step⟩

/-- The steps of one thread. -/
def Event.isThread (w : Which) : Event → Bool
  | thread w' _ => w' == w
  | _ => false

/-! ## The table of roles -/

inductive Role where
  | gone
  | runs
  | asked
deriving DecidableEq

def Role.Holds : Role → Kthread → Prop
  | gone => Kthread.Gone
  | runs => Kthread.Runs
  | asked => Kthread.Asked

def role : Phase → Which → Role
  | .absent, _ | .stopped, _ | .unloaded, _ => .gone
  | .firstRuns, .first => .runs
  | .firstRuns, .second => .gone
  | .secondCreated, _ | .secondWoken, _ | .loaded, _ => .runs
  | .failing _, .first => .asked
  | .failing _, .second => .gone
  | .stopping .first, .first => .asked
  | .stopping .first, .second => .runs
  | .stopping .second, .first => .gone
  | .stopping .second, .second => .asked

/-- Every thread has the role of the phase. -/
def Inv (s : State) : Prop := ∀ w, (role s.phase w).Holds (s.threads w)

variable {s s' : State} {e : Event} {w : Which}

theorem inv_init : Inv driver.init := fun _ => ⟨.inl rfl, rfl⟩

/-- One thread changes, and the phase with it. -/
theorem Inv.set (h : Inv s) (phase : Phase) {t : Kthread} {insmod : Option Int}
    (hnew : (role phase w).Holds t) (hothers : ∀ v, v ≠ w → role phase v = role s.phase v) :
    Inv ⟨phase, Function.update s.threads w t, insmod⟩ := by
  intro v
  by_cases hv : v = w
  · subst hv
    simpa using hnew
  · have hold := h v
    simpa [hv, hothers v hv] using hold

/-- The phase changes, and no role. -/
theorem Inv.to {phase : Phase} {insmod : Option Int} (h : Inv s)
    (hroles : ∀ v, role phase v = role s.phase v) : Inv ⟨phase, s.threads, insmod⟩ := by
  intro v
  have hold := h v
  rwa [← hroles v] at hold

/-- A thread has one role. -/
theorem Inv.holds (h : Inv s) {phase : Phase} {r : Role} (hphase : s.phase = phase)
    (hr : role phase w = r) : r.Holds (s.threads w) := by
  subst hphase hr
  exact h w

theorem Role.Holds.step {r : Role} {t t' : Kthread} {e : KthreadEvent} (h : r.Holds t)
    (hs : t.step e = some t') : r.Holds t' := by
  cases r with
  | gone =>
    rw [Kthread.Gone.step h] at hs
    cases hs
  | runs => exact Kthread.Runs.step h hs
  | asked => exact Kthread.Asked.step h hs

theorem Role.Holds.reap {r : Role} {t t' : Kthread} (h : r.Holds t) (hs : t.reap = some t') :
    r.Holds t' := by
  cases r with
  | gone => exact Kthread.Gone.reap h hs
  | runs =>
    rw [Kthread.Runs.reap h] at hs
    cases hs
  | asked =>
    rw [Kthread.Asked.reap h] at hs
    cases hs

/-- What the end of a `kthread_stop` does. -/
theorem afterJoined_spec (h : s.afterJoined w = some s') :
    (∃ err, w = .first ∧ s.phase = .failing err ∧
        s' = { s with phase := .absent, insmod := some err }) ∨
      (w = .first ∧ s.phase = .stopping .first ∧
        s' = (s.set .second (s.threads .second).askToStop).to (.stopping .second)) ∨
      w = .second ∧ s.phase = .stopping .second ∧ s' = s.to .stopped := by
  cases w with
  | first =>
    unfold State.afterJoined at h
    cases hp : s.phase with
    | failing err =>
      simp only [hp, Option.some.injEq] at h
      exact .inl ⟨err, rfl, rfl, h.symm⟩
    | stopping v =>
      cases v with
      | first =>
        simp only [hp, Option.some.injEq] at h
        exact .inr (.inl ⟨rfl, rfl, h.symm⟩)
      | second => simp [hp] at h
    | absent | firstRuns | secondCreated | secondWoken | loaded | stopped | unloaded =>
      simp [hp] at h
  | second =>
    obtain ⟨hp, hs⟩ := Option.ite_none_right_eq_some.mp h
    exact .inr (.inr ⟨rfl, hp, (Option.some.inj hs).symm⟩)

theorem inv_joined (h : Inv s) (hs : step s (.joined w) = some s') : Inv s' := by
  obtain ⟨t, hjoined, hafter⟩ := Option.bind_eq_some_iff.mp hs
  have hgone : t.Gone := Kthread.Asked.joined hjoined
  rcases afterJoined_spec hafter with ⟨err, rfl, hp, rfl⟩ | ⟨rfl, hp, rfl⟩ | ⟨rfl, hp, rfl⟩
  · have hp : s.phase = .failing err := hp
    refine h.set .absent hgone fun v hv => ?_
    cases v with
    | first => exact absurd rfl hv
    | second => rw [hp]; rfl
  · have hp : s.phase = .stopping .first := hp
    have hruns : (s.threads .second).Runs := h.holds (w := .second) (r := .runs) hp rfl
    intro v
    cases v with
    | first => exact hgone
    | second => exact hruns.askToStop
  · have hp : s.phase = .stopping .second := hp
    refine h.set .stopped hgone fun v hv => ?_
    cases v with
    | first => rw [hp]; rfl
    | second => exact absurd rfl hv

theorem inv_step (h : Inv s) (hs : step s e = some s') : Inv s' := by
  cases e with
  | createFirst thread =>
    obtain ⟨hp, hs⟩ := Option.ite_none_right_eq_some.mp hs
    cases Option.some.inj hs
    split
    · exact h.to fun _ => rfl
    · refine h.set .firstRuns Kthread.runs_create.wakeUpProcess fun v hv => ?_
      cases v with
      | first => exact absurd rfl hv
      | second => rw [hp]; rfl
  | createSecond thread =>
    obtain ⟨hp, hs⟩ := Option.ite_none_right_eq_some.mp hs
    cases Option.some.inj hs
    have hfirst : (s.threads .first).Runs := h.holds (w := .first) (r := .runs) hp rfl
    split
    · refine h.set (.failing _) hfirst.askToStop fun v hv => ?_
      cases v with
      | first => exact absurd rfl hv
      | second => rw [hp]; rfl
    · refine h.set .secondCreated Kthread.runs_create fun v hv => ?_
      cases v with
      | first => rw [hp]; rfl
      | second => exact absurd rfl hv
  | wakeSecond =>
    obtain ⟨hp, hs⟩ := Option.ite_none_right_eq_some.mp hs
    cases Option.some.inj hs
    have hsecond : (s.threads .second).Runs := h.holds (w := .second) (r := .runs) hp rfl
    refine h.set .secondWoken hsecond.wakeUpProcess fun v _ => ?_
    rw [hp]
    rfl
  | initReturn =>
    obtain ⟨hp, hs⟩ := Option.ite_none_right_eq_some.mp hs
    cases Option.some.inj hs
    refine h.to fun v => ?_
    rw [hp]
    rfl
  | exit =>
    obtain ⟨hp, hs⟩ := Option.ite_none_right_eq_some.mp hs
    cases Option.some.inj hs
    have hfirst : (s.threads .first).Runs := h.holds (w := .first) (r := .runs) hp rfl
    refine h.set (.stopping .first) hfirst.askToStop fun v hv => ?_
    cases v with
    | first => exact absurd rfl hv
    | second => rw [hp]; rfl
  | joined w => exact inv_joined h hs
  | exitReturn =>
    obtain ⟨hp, hs⟩ := Option.ite_none_right_eq_some.mp hs
    cases Option.some.inj hs
    refine h.to fun v => ?_
    rw [hp]
    rfl
  | thread w e =>
    obtain ⟨t, ht, rfl⟩ := Option.map_eq_some_iff.mp hs
    exact h.set _ ((h w).step ht) fun _ _ => rfl
  | reap w =>
    obtain ⟨t, ht, rfl⟩ := Option.map_eq_some_iff.mp hs
    exact h.set _ ((h w).reap ht) fun _ _ => rfl
  | rmmod =>
    obtain ⟨hp, hs⟩ := Option.ite_none_right_eq_some.mp hs
    cases Option.some.inj hs
    refine h.to fun v => ?_
    rw [hp]
    rfl

theorem inv_of_reachable (h : driver.Reachable s) : Inv s :=
  h.inv inv_init fun _ _ _ => inv_step

/-! ## The end of the threads -/

/-- `kthread_stop` waits for the thread. -/
def AskedToStop (w : Which) (s : State) : Prop := role s.phase w = .asked

theorem Inv.asked (h : Inv s) (hasked : AskedToStop w s) : (s.threads w).Asked :=
  h.holds rfl hasked

/-- What is no step of the thread leaves it alone while it is waited for. -/
theorem threads_frame (hasked : AskedToStop w s) (hasked' : AskedToStop w s') (h : Inv s)
    (hs : step s e = some s') (he : e.isThread w = false) : s'.threads w = s.threads w := by
  unfold AskedToStop at hasked hasked'
  cases e with
  | createFirst thread =>
    obtain ⟨hp, -⟩ := Option.ite_none_right_eq_some.mp hs
    rw [hp] at hasked
    cases hasked
  | createSecond thread =>
    obtain ⟨hp, -⟩ := Option.ite_none_right_eq_some.mp hs
    rw [hp] at hasked
    cases w <;> cases hasked
  | wakeSecond | initReturn | exit | exitReturn | rmmod =>
    obtain ⟨hp, -⟩ := Option.ite_none_right_eq_some.mp hs
    rw [hp] at hasked
    cases hasked
  | joined v =>
    obtain ⟨t, hjoined, hafter⟩ := Option.bind_eq_some_iff.mp hs
    rcases afterJoined_spec hafter with ⟨err, rfl, hp, rfl⟩ | ⟨rfl, hp, rfl⟩ | ⟨rfl, hp, rfl⟩
    · cases hasked'
    · have hp : s.phase = .stopping .first := hp
      rw [hp] at hasked
      cases w with
      | first => cases hasked'
      | second => cases hasked
    · cases hasked'
  | thread v e =>
    obtain ⟨t, ht, rfl⟩ := Option.map_eq_some_iff.mp hs
    have hne : w ≠ v := fun heq => by simp [Event.isThread, heq] at he
    exact Function.update_of_ne hne ..
  | reap v =>
    obtain ⟨t, ht, rfl⟩ := Option.map_eq_some_iff.mp hs
    by_cases hv : w = v
    · subst hv
      rw [(h.asked hasked).reap] at ht
      cases ht
    · exact Function.update_of_ne hv ..

theorem thread_step (hasked : AskedToStop w s) (h : Inv s) (hs : step s e = some s')
    (he : e.isThread w = true) : (s'.threads w).stepsLeft < (s.threads w).stepsLeft := by
  cases e with
  | thread v e =>
    obtain rfl : v = w := eq_of_beq he
    obtain ⟨t, ht, rfl⟩ := Option.map_eq_some_iff.mp hs
    have hlt := (h.asked hasked).stepsLeft_lt ht
    simpa [State.set] using hlt
  | createFirst | createSecond | wakeSecond | initReturn | exit | joined | exitReturn | reap
    | rmmod => cases he

theorem Inv.progress (h : Inv s) (hasked : AskedToStop w s) :
    (step s (.joined w)).isSome ∨ ∃ e : Event, e.isThread w = true ∧ (step s e).isSome := by
  rcases (h.asked hasked).progress with hjoined | ⟨e, he⟩
  · obtain ⟨t, ht⟩ := Option.isSome_iff_exists.mp hjoined
    refine .inl ?_
    simp only [step, ht, Option.bind_some]
    unfold AskedToStop at hasked
    cases hp : s.phase with
    | absent | firstRuns | secondCreated | secondWoken | loaded | stopped | unloaded =>
      rw [hp] at hasked
      cases w <;> cases hasked
    | failing err =>
      rw [hp] at hasked
      cases w with
      | first => simp [State.afterJoined, State.set, hp]
      | second => cases hasked
    | stopping v =>
      rw [hp] at hasked
      cases v <;> cases w <;> simp [role] at hasked <;> simp [State.afterJoined, State.set, hp]
  · exact .inr ⟨.thread w e, by simp [Event.isThread], by simpa [step] using he⟩

theorem thread_shutdown (w : Which) :
    driver.Shutdown (Event.isThread w) (.joined w) (AskedToStop w)
      (fun s => role s.phase w = .gone) 3 := by
  refine Machine.shutdown_of_inv (I := Inv) (μ := fun s => (s.threads w).stepsLeft) inv_init
    (fun _ _ _ => inv_step) ?_ ?_ (fun s _ => (s.threads w).stepsLeft_le)
    (fun s h hasked => h.progress hasked) ?_
  · exact fun s e s' h hasked _ hs he => thread_step hasked h hs he
  · intro s e s' h hasked hasked' hs he
    exact Nat.le_of_eq (congrArg Kthread.stepsLeft (threads_frame hasked hasked' h hs he))
  · intro s e h hgone he
    cases e with
    | thread v e =>
      obtain rfl : v = w := eq_of_beq he
      have hrole : (s.threads v).Gone := h.holds rfl hgone
      change ((s.threads v).step e).map _ = none
      rw [hrole.step]
      rfl
    | createFirst | createSecond | wakeSecond | initReturn | exit | joined | exitReturn | reap
      | rmmod => cases he

/-! ## The task_structs -/

/-- The `task_struct`s that the next statements of the module read. -/
def reads : Phase → List Which
  | .absent | .unloaded => []
  | .firstRuns | .failing _ => [.first]
  | .secondCreated | .stopping .second => [.second]
  | .secondWoken | .loaded | .stopping .first | .stopped => [.first, .second]

/-- All but the last `pr_info` of `my_exit` reads memory that is there. -/
theorem live_of_reads (h : Inv s) (hw : w ∈ reads s.phase) (hphase : s.phase ≠ .stopped) :
    (s.threads w).live = true := by
  have hrole := h w
  cases hp : s.phase with
  | absent | unloaded => simp [hp, reads] at hw
  | stopped => exact absurd hp hphase
  | firstRuns | failing | secondCreated =>
    rw [hp] at hw hrole
    cases w <;> first | exact hrole.live | simp [reads] at hw
  | secondWoken | loaded =>
    rw [hp] at hrole
    exact hrole.live
  | stopping v =>
    rw [hp] at hw hrole
    cases v <;> cases w <;> first | exact hrole.live | simp [reads] at hw

/-- **The threads of the module.** Each `kthread_stop` returns, with three
steps of its thread left at most; the failed `my_init` and `my_exit` leave no
thread in the function of the module. A `task_struct` is there whenever a
statement reads it, but for the last `pr_info` of `my_exit`, which may read
two that are gone. -/
theorem threads_shutdown :
    (∀ w, driver.Shutdown (Event.isThread w) (.joined w) (AskedToStop w)
      (fun s => role s.phase w = .gone) 3) ∧
    (∀ s w, driver.Reachable s → s.phase = .absent ∨ s.phase = .unloaded →
      ¬ (s.threads w).InFunction) ∧
    (∀ s w, driver.Reachable s → w ∈ reads s.phase → s.phase ≠ .stopped →
      (s.threads w).live = true) ∧
    ∃ s, driver.Reachable s ∧ s.phase = .stopped ∧
      ∀ w, w ∈ reads s.phase ∧ (s.threads w).live = false := by
  refine ⟨thread_shutdown, fun s w hs hphase => ?_,
    fun s w hs => live_of_reads (inv_of_reachable hs), ?_⟩
  · have hrole := inv_of_reachable hs w
    rcases hphase with hp | hp <;>
      · rw [hp] at hrole
        exact hrole.not_inFunction
  · refine ⟨_, ⟨[.createFirst 4096, .createSecond 8192, .wakeSecond, .initReturn, .exit,
      .thread .first .start, .joined .first, .reap .first, .thread .second .start,
      .joined .second, .reap .second], rfl⟩, rfl, fun w => ?_⟩
    cases w <;> decide

end KernelSpace.KernelThread
