import KernelSpace.Kernel.Errno

/-!
# wait_event_interruptible

One thread inside `wait_event_interruptible(wq, cond)`, step by step as the
macro expands:

    fast     if (cond) done, else
    prepare  queue the thread on `wq`, in TASK_INTERRUPTIBLE
    test     if (cond) done, else
    schedule sleep, unless a wake-up came since `prepare`; then `prepare`

The thread is queued before it tests the condition, and a wake-up takes it
off the queue: the flag of `test` and `schedule` says that it is still there.
A signal ends the wait at `schedule`, after one more look at the condition.

A thread that no wake-up has reached since it queued and that has seen the
condition false is `Unwoken`. It sleeps until somebody wakes it, so a user
must show that a wake-up is still to come whenever the condition holds.
`unwoken_of_step` is the part of that argument that is the macro's own: the
thread becomes `Unwoken` only by seeing the condition false.
-/

namespace KernelSpace.Kernel

inductive Wait where
  | fast
  | prepare
  | test (queued : Bool)
  | schedule (queued : Bool)
  | asleep
  | done (ret : Int)
deriving DecidableEq

namespace Wait

/-- The thread's own next step, on the current value of the condition; a
sleeping thread has none. -/
def step (cond : Bool) : Wait → Option Wait
  | fast => some (if cond then done 0 else prepare)
  | prepare => some (test true)
  | test queued => some (if cond then done 0 else schedule queued)
  | schedule queued => some (if queued then asleep else prepare)
  | asleep => none
  | done _ => none

/-- A pending signal, looked at after a test that failed. -/
def interrupt : Wait → Option Wait
  | schedule _ => some (done (-ERESTARTSYS))
  | _ => none

/-- What a wake-up of the queue does to the thread. -/
def wake : Wait → Wait
  | test _ => test false
  | schedule _ => schedule false
  | asleep => prepare
  | w => w

/-- Queued since before its last test, which failed, and not woken since. -/
def Unwoken : Wait → Prop
  | schedule queued => queued = true
  | asleep => True
  | _ => False

theorem not_unwoken_wake (w : Wait) : ¬ w.wake.Unwoken := by
  cases w <;> simp [wake, Unwoken]

/-- No step of the thread makes it `Unwoken` while the condition holds. -/
theorem unwoken_of_step {cond : Bool} {w w' : Wait} (h : w.step cond = some w')
    (hu : w'.Unwoken) : w.Unwoken ∨ cond = false := by
  cases w with
  | fast => cases cond <;> cases h <;> cases hu
  | prepare => cases h; cases hu
  | test queued =>
    cases cond
    · exact .inr rfl
    · cases h
      cases hu
  | schedule queued =>
    cases queued
    · cases h
      cases hu
    · exact .inl rfl
  | asleep => cases h
  | done ret => cases h

/-- The wait is over on its own only when the condition was seen to hold. -/
theorem cond_of_step_done {cond : Bool} {w : Wait} {ret : Int}
    (h : w.step cond = some (done ret)) : cond = true ∧ ret = 0 := by
  cases w with
  | fast => cases cond <;> cases h; exact ⟨rfl, rfl⟩
  | prepare => cases h
  | test queued => cases cond <;> cases h; exact ⟨rfl, rfl⟩
  | schedule queued => cases queued <;> cases h
  | asleep => cases h
  | done ret => cases h

/-- The steps to sleep of a thread that finds its condition false and is not
woken. -/
def stepsToSleep : Wait → Nat
  | test false => 5
  | fast | schedule false => 4
  | prepare => 3
  | test true => 2
  | schedule true => 1
  | asleep | done _ => 0

/-- While the condition is false the wait goes on, to its sleep. -/
theorem exists_step_false {w : Wait} (hdone : ∀ ret, w ≠ done ret) (hawake : w ≠ asleep) :
    ∃ w', w.step false = some w' ∧ w'.stepsToSleep < w.stepsToSleep ∧ ∀ ret, w' ≠ done ret := by
  cases w with
  | fast | prepare => exact ⟨_, rfl, by decide, nofun⟩
  | test queued => cases queued <;> exact ⟨_, rfl, by decide, nofun⟩
  | schedule queued => cases queued <;> exact ⟨_, rfl, by decide, nofun⟩
  | asleep => exact absurd rfl hawake
  | done ret => exact absurd rfl (hdone ret)

theorem wake_eq_done_iff {w : Wait} {ret : Int} : w.wake = done ret ↔ w = done ret := by
  cases w <;> simp [wake]

end Wait

end KernelSpace.Kernel
