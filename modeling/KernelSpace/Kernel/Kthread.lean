/-!
# A kernel thread

`struct task_struct` of a thread that runs a function of a module, as
`kthread_create`, `wake_up_process`, `kthread_should_stop` and `kthread_stop`
see it. The function is a loop: it tests `kthread_should_stop`, works, tests
again. A thread that is asked to stop before it has run never calls it.

`kthread_stop` has two steps: `askToStop` takes a reference, sets the flag and
wakes the thread; `joined` comes when the thread has exited, and puts the
reference. The memory of a thread that has exited and that nobody holds goes at
any time (`reap`).
-/

namespace KernelSpace.Kernel

/-- Where a thread stands. -/
inductive KthreadPc where
  | none
  | created
  | test
  | body
  | leaving
  | exited
deriving DecidableEq

structure Kthread where
  pc : KthreadPc
  woken : Bool
  shouldStop : Bool
  /-- `kthread_stop` has a reference. -/
  held : Bool
  /-- The `task_struct` is there. -/
  live : Bool
deriving DecidableEq

/-- The steps of a thread. -/
inductive KthreadEvent where
  | start
  | test
  | body
  | exit
deriving DecidableEq

namespace Kthread

/-- No thread yet. -/
def absent : Kthread := ⟨.none, false, false, false, false⟩

/-- `kthread_create`. -/
def create : Kthread := ⟨.created, false, false, false, true⟩

def wakeUpProcess (t : Kthread) : Kthread := { t with woken := true }

/-- `kthread_run`. -/
def run : Kthread := create.wakeUpProcess

def step (t : Kthread) : KthreadEvent → Option Kthread
  | .start =>
    if t.pc = .created ∧ t.woken then
      some { t with pc := if t.shouldStop then .exited else .test }
    else Option.none
  | .test =>
    if t.pc = .test then some { t with pc := if t.shouldStop then .leaving else .body }
    else Option.none
  | .body => if t.pc = .body then some { t with pc := .test } else Option.none
  | .exit => if t.pc = .leaving then some { t with pc := .exited } else Option.none

/-- `kthread_stop`, up to its wait. -/
def askToStop (t : Kthread) : Kthread := { t with woken := true, shouldStop := true, held := true }

/-- `kthread_stop`, return. -/
def joined (t : Kthread) : Option Kthread :=
  if t.pc = .exited then some { t with held := false } else Option.none

def reap (t : Kthread) : Option Kthread :=
  if t.pc = .exited ∧ t.held = false then some { t with live := false } else Option.none

/-- The function of the module has been called and has not returned. -/
def InFunction (t : Kthread) : Prop := t.pc = .test ∨ t.pc = .body ∨ t.pc = .leaving

/-! ## Three roles -/

/-- Nobody has asked it to stop. -/
structure Runs (t : Kthread) : Prop where
  live : t.live = true
  pc : t.pc = .created ∨ t.pc = .test ∨ t.pc = .body
  shouldStop : t.shouldStop = false
  held : t.held = false

/-- `kthread_stop` waits for it. -/
structure Asked (t : Kthread) : Prop where
  live : t.live = true
  pc : t.pc ≠ .none
  woken : t.woken = true
  shouldStop : t.shouldStop = true
  held : t.held = true

/-- Not created, or back from `kthread_stop`. -/
structure Gone (t : Kthread) : Prop where
  pc : t.pc = .none ∨ t.pc = .exited
  held : t.held = false

variable {t t' : Kthread} {e : KthreadEvent}

theorem runs_create : create.Runs := ⟨rfl, .inl rfl, rfl, rfl⟩

theorem Runs.wakeUpProcess (h : t.Runs) : t.wakeUpProcess.Runs :=
  ⟨h.live, h.pc, h.shouldStop, h.held⟩

theorem Runs.askToStop (h : t.Runs) : t.askToStop.Asked := by
  refine ⟨h.live, ?_, rfl, rfl, rfl⟩
  rcases h.pc with hpc | hpc | hpc <;> simp [Kthread.askToStop, hpc]

theorem Asked.joined (h : t.joined = some t') : t'.Gone := by
  obtain ⟨hpc, hs⟩ := Option.ite_none_right_eq_some.mp h
  cases hs
  exact ⟨.inr hpc, rfl⟩

/-- What a step of a thread leaves alone. -/
theorem step_frame (h : t.step e = some t') :
    t'.live = t.live ∧ t'.woken = t.woken ∧ t'.shouldStop = t.shouldStop ∧ t'.held = t.held := by
  cases e <;>
    · obtain ⟨-, hs⟩ := Option.ite_none_right_eq_some.mp h
      cases hs
      exact ⟨rfl, rfl, rfl, rfl⟩

theorem Runs.step (h : t.Runs) (hs : t.step e = some t') : t'.Runs := by
  obtain ⟨hlive, -, hstop, hheld⟩ := step_frame hs
  refine ⟨hlive.trans h.live, ?_, hstop.trans h.shouldStop, hheld.trans h.held⟩
  cases e with
  | start | test | body =>
    obtain ⟨-, hs⟩ := Option.ite_none_right_eq_some.mp hs
    cases hs
    simp [h.shouldStop]
  | exit =>
    obtain ⟨hpc, -⟩ := Option.ite_none_right_eq_some.mp hs
    have hnot := h.pc
    rw [hpc] at hnot
    simp at hnot

theorem Asked.step (h : t.Asked) (hs : t.step e = some t') : t'.Asked := by
  obtain ⟨hlive, hwoken, hstop, hheld⟩ := step_frame hs
  refine ⟨hlive.trans h.live, ?_, hwoken.trans h.woken, hstop.trans h.shouldStop,
    hheld.trans h.held⟩
  cases e <;>
    · obtain ⟨-, hs⟩ := Option.ite_none_right_eq_some.mp hs
      cases hs
      simp [h.shouldStop]

theorem Gone.step (h : t.Gone) : t.step e = Option.none := by
  rcases h.pc with hpc | hpc <;> cases e <;> simp [Kthread.step, hpc]

theorem Gone.reap (h : t.Gone) (hs : t.reap = some t') : t'.Gone := by
  obtain ⟨-, hs⟩ := Option.ite_none_right_eq_some.mp hs
  cases hs
  exact ⟨h.pc, h.held⟩

theorem Runs.reap (h : t.Runs) : t.reap = Option.none := by
  rcases h.pc with hpc | hpc | hpc <;> simp [Kthread.reap, hpc]

theorem Asked.reap (h : t.Asked) : t.reap = Option.none := by
  simp [Kthread.reap, h.held]

theorem Gone.not_inFunction (h : t.Gone) : ¬ t.InFunction := by
  rcases h.pc with hpc | hpc <;> simp [InFunction, hpc]

/-- The steps that a thread can still take once it is asked to stop. -/
def stepsLeft (t : Kthread) : Nat :=
  match t.pc with
  | .none | .exited => 0
  | .created | .leaving => 1
  | .test => 2
  | .body => 3

theorem stepsLeft_le (t : Kthread) : t.stepsLeft ≤ 3 := by
  unfold stepsLeft
  split <;> omega

theorem Asked.stepsLeft_lt (h : t.Asked) (hs : t.step e = some t') :
    t'.stepsLeft < t.stepsLeft := by
  cases e with
  | start =>
    obtain ⟨⟨hpc, -⟩, hs⟩ := Option.ite_none_right_eq_some.mp hs
    cases hs
    simp [stepsLeft, hpc, h.shouldStop]
  | test | body | exit =>
    obtain ⟨hpc, hs⟩ := Option.ite_none_right_eq_some.mp hs
    cases hs
    simp [stepsLeft, hpc, h.shouldStop]

/-- It has exited or goes on. -/
theorem Asked.progress (h : t.Asked) : t.joined.isSome ∨ ∃ e, (t.step e).isSome := by
  cases hpc : t.pc with
  | none => exact absurd hpc h.pc
  | created => exact .inr ⟨.start, by simp [Kthread.step, hpc, h.woken]⟩
  | test => exact .inr ⟨.test, by simp [Kthread.step, hpc]⟩
  | body => exact .inr ⟨.body, by simp [Kthread.step, hpc]⟩
  | leaving => exact .inr ⟨.exit, by simp [Kthread.step, hpc]⟩
  | exited => exact .inl (by simp [Kthread.joined, hpc])

end Kthread

end KernelSpace.Kernel
