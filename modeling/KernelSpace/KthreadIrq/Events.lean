import Mathlib.Data.List.Count
import KernelSpace.Kernel.WaitQueue
import KernelSpace.Lib.Machine

/-!
# KthreadIrq — a thread that waits for interrupts (18)

`18.Kthread_IRQ/kthread_IRQ.c`, after a successful probe: the interrupt
handler sets `data_ready` and wakes the kernel thread, which clears the flag
and processes; `my_remove` stops the thread. A step is one access to what they
share:

* `irqStore`, `irqWake` — `button_irq`, which does not overlap itself;
* `thread` — the next step of `thread_fn`, the wait expanded as in
  `Kernel.WaitQueue`; the thread gets no signals;
* `stopSet`, `stopWake`, `stopReturn` — `kthread_stop`: it sets the flag, wakes
  the thread wherever it is, and returns when the thread has exited.

The model counts interrupts (at the store), interrupts since the flag was last
cleared, and processing passes (at the clearing, with which a pass starts).

The flag protocol makes three promises. That every interrupt is followed by a
pass is stated as a bound with progress: while the flag is set and nobody asks the
thread to stop, it takes at most six steps before a new pass starts, and it always
has a next one, if it sleeps then behind the wake-up that is on its way.
-/

namespace KernelSpace.KthreadIrq

open KernelSpace.Kernel KernelSpace.Lib

/-- Where the thread is in `thread_fn`. -/
inductive ThreadPc where
  | loopTest
  | waiting (w : Wait)
  | stopTest
  | clear
  | process
  | exited
deriving DecidableEq

inductive IrqPc where
  | idle
  | stored
deriving DecidableEq

/-- Where `my_remove` is in `kthread_stop`. -/
inductive StopPc where
  | idle
  | flagged
  | waiting
  | returned
deriving DecidableEq

structure State where
  dataReady : Bool
  shouldStop : Bool
  thread : ThreadPc
  irq : IrqPc
  stop : StopPc
  interrupts : Nat
  sinceClear : Nat
  passes : Nat

/-- The thread just started. -/
def State.probed : State := ⟨false, false, .loopTest, .idle, .idle, 0, 0, 0⟩

inductive Event where
  | thread
  | irqStore
  | irqWake
  | stopSet
  | stopWake
  | stopReturn
deriving DecidableEq

/-- The condition of the wait. -/
def State.cond (s : State) : Bool := s.dataReady || s.shouldStop

/-- A wake-up of the thread, through the queue or directly. -/
def ThreadPc.wake : ThreadPc → ThreadPc
  | waiting w => waiting w.wake
  | pc => pc

/-- The next step of `thread_fn`. The return value of the wait is ignored. -/
def threadStep (s : State) : Option State :=
  match s.thread with
  | .loopTest => some { s with thread := if s.shouldStop then .exited else .waiting .fast }
  | .waiting (.done _) => some { s with thread := .stopTest }
  | .waiting w => (w.step s.cond).map fun w' => { s with thread := .waiting w' }
  | .stopTest => some { s with thread := if s.shouldStop then .exited else .clear }
  | .clear =>
    some { s with dataReady := false, thread := .process, sinceClear := 0, passes := s.passes + 1 }
  | .process => some { s with thread := .loopTest }
  | .exited => none

def step (s : State) : Event → Option State
  | .thread => threadStep s
  | .irqStore =>
    if s.irq = .idle then
      some { s with
        dataReady := true
        irq := .stored
        interrupts := s.interrupts + 1
        sinceClear := s.sinceClear + 1 }
    else none
  | .irqWake =>
    if s.irq = .stored then some { s with irq := .idle, thread := s.thread.wake } else none
  | .stopSet =>
    if s.stop = .idle then some { s with shouldStop := true, stop := .flagged } else none
  | .stopWake =>
    if s.stop = .flagged then some { s with stop := .waiting, thread := s.thread.wake } else none
  | .stopReturn =>
    if s.stop = .waiting ∧ s.thread = .exited then some { s with stop := .returned } else none

/-- The driver from its probe on. -/
def driver : Machine State Event := ⟨.probed, step⟩

/-! ## The invariant -/

/-- A wake-up of the thread is still to come. -/
def State.WakeUpComing (s : State) : Prop := s.irq = .stored ∨ s.stop = .flagged

/-- What the thread knows at its point of the loop. -/
def Knows (s : State) : ThreadPc → Prop
  | .waiting (.done _) | .stopTest => s.cond = true
  | .waiting w => w.Unwoken → s.cond = true → s.WakeUpComing
  | .clear => s.dataReady = true
  | _ => True

structure Inv (s : State) : Prop where
  /-- The flag stands for the interrupts since it was cleared. -/
  flag : s.dataReady = true ↔ 0 < s.sinceClear
  /-- A pass uses up at least one interrupt. -/
  counted : s.passes + s.sinceClear ≤ s.interrupts
  knows : Knows s s.thread

theorem inv_probed : Inv .probed := ⟨by decide, by decide, trivial⟩

theorem knows_waiting {s : State} {w : Wait} (hdone : ∀ ret, w = .done ret → s.cond = true)
    (hwoken : w.Unwoken → s.cond = true → s.WakeUpComing) : Knows s (.waiting w) := by
  cases w with
  | done ret => exact hdone ret rfl
  | fast | prepare | test | schedule | asleep => exact hwoken

/-- A wake-up leaves no thread that waits for one. -/
theorem knows_wake {s t : State} (h : Knows s s.thread) (hcond : t.cond = s.cond)
    (hready : t.dataReady = s.dataReady) : Knows t s.thread.wake := by
  cases hpc : s.thread with
  | waiting w =>
    refine knows_waiting ?_ fun hu => absurd hu w.not_unwoken_wake
    intro ret hw
    rw [hpc, Wait.wake_eq_done_iff.mp hw] at h
    rw [hcond]
    exact h
  | stopTest =>
    rw [hpc] at h
    exact hcond.trans h
  | clear =>
    rw [hpc] at h
    exact hready.trans h
  | loopTest | process | exited => trivial

/-- The condition is made true by somebody who is about to wake the thread. -/
theorem knows_raise {s t : State} (h : Knows s s.thread) (hcond : t.cond = true)
    (hready : s.dataReady = true → t.dataReady = true) (hcoming : t.WakeUpComing) :
    Knows t s.thread := by
  cases hpc : s.thread with
  | waiting w => exact knows_waiting (fun _ _ => hcond) fun _ _ => hcoming
  | stopTest => exact hcond
  | clear =>
    rw [hpc] at h
    exact hready h
  | loopTest | process | exited => trivial

theorem threadStep_waiting {s : State} {w : Wait} (hpc : s.thread = .waiting w)
    (hw : ∀ ret, w ≠ .done ret) :
    threadStep s = (w.step s.cond).map fun w' => { s with thread := .waiting w' } := by
  cases w with
  | done ret => exact absurd rfl (hw ret)
  | fast | prepare | test | schedule | asleep => simp only [threadStep, hpc]

theorem inv_threadStep {s s' : State} (h : Inv s) (hs : threadStep s = some s') : Inv s' := by
  have hk := h.knows
  cases hpc : s.thread with
  | loopTest =>
    simp only [threadStep, hpc, Option.some.injEq] at hs
    subst hs
    refine ⟨h.flag, h.counted, ?_⟩
    split
    · trivial
    · exact fun hu => hu.elim
  | waiting w =>
    rw [hpc] at hk
    by_cases hw : ∃ ret, w = .done ret
    · obtain ⟨ret, rfl⟩ := hw
      simp only [threadStep, hpc, Option.some.injEq] at hs
      subst hs
      exact ⟨h.flag, h.counted, hk⟩
    · rw [threadStep_waiting hpc fun ret hret => hw ⟨ret, hret⟩] at hs
      obtain ⟨w', hstep, rfl⟩ := Option.map_eq_some_iff.mp hs
      refine ⟨h.flag, h.counted, knows_waiting ?_ ?_⟩
      · intro ret hret
        subst hret
        exact (Wait.cond_of_step_done hstep).1
      · intro hu hcond
        -- it was in the same position before, or has just seen the condition false
        rcases Wait.unwoken_of_step hstep hu with hu' | hfalse
        · cases w with
          | done ret => exact absurd ⟨ret, rfl⟩ hw
          | fast | prepare | test | schedule | asleep => exact hk hu' hcond
        · exact absurd (hcond.symm.trans hfalse) (by decide)
  | stopTest =>
    simp only [threadStep, hpc, Option.some.injEq] at hs
    subst hs
    rw [hpc] at hk
    refine ⟨h.flag, h.counted, ?_⟩
    split
    · trivial
    · rename_i hstop
      have hcond : (s.dataReady || s.shouldStop) = true := hk
      change s.dataReady = true
      simpa [hstop] using hcond
  | clear =>
    simp only [threadStep, hpc, Option.some.injEq] at hs
    subst hs
    rw [hpc] at hk
    have hpos : 0 < s.sinceClear := h.flag.mp hk
    have hcounted := h.counted
    refine ⟨by simp, ?_, trivial⟩
    simp only
    omega
  | process =>
    simp only [threadStep, hpc, Option.some.injEq] at hs
    subst hs
    exact ⟨h.flag, h.counted, trivial⟩
  | exited =>
    simp [threadStep, hpc] at hs

theorem inv_step {s s' : State} {e : Event} (h : Inv s) (hs : step s e = some s') : Inv s' := by
  cases e with
  | thread => exact inv_threadStep h hs
  | irqStore =>
    obtain ⟨-, heq⟩ := Option.ite_none_right_eq_some.mp hs
    cases heq
    have hcounted := h.counted
    refine ⟨by simp, by simp only; omega, ?_⟩
    exact knows_raise (s := s) h.knows rfl (fun _ => rfl) (.inl rfl)
  | irqWake =>
    obtain ⟨-, heq⟩ := Option.ite_none_right_eq_some.mp hs
    cases heq
    exact ⟨h.flag, h.counted, knows_wake h.knows rfl rfl⟩
  | stopSet =>
    obtain ⟨-, heq⟩ := Option.ite_none_right_eq_some.mp hs
    cases heq
    refine ⟨h.flag, h.counted, ?_⟩
    exact knows_raise (s := s) h.knows (Bool.or_true _) id (.inr rfl)
  | stopWake =>
    obtain ⟨-, heq⟩ := Option.ite_none_right_eq_some.mp hs
    cases heq
    exact ⟨h.flag, h.counted, knows_wake h.knows rfl rfl⟩
  | stopReturn =>
    obtain ⟨hwait, heq⟩ := Option.ite_none_right_eq_some.mp hs
    cases heq
    refine ⟨h.flag, h.counted, ?_⟩
    rw [hwait.2]
    trivial

/-! ## How far the next pass is -/

/-- The steps of the thread to the start of the next pass, once the flag is
set, when nobody asks it to stop. A sleeper goes on after its wake-up. -/
def ThreadPc.stepsLeft : ThreadPc → Nat
  | .process | .waiting (.schedule _) => 6
  | .loopTest | .waiting .prepare | .waiting .asleep => 5
  | .waiting .fast | .waiting (.test _) => 4
  | .waiting (.done _) => 3
  | .stopTest => 2
  | .clear => 1
  | .exited => 0

theorem stepsLeft_le (pc : ThreadPc) : pc.stepsLeft ≤ 6 := by
  cases pc with
  | waiting w => cases w <;> simp [ThreadPc.stepsLeft]
  | loopTest | stopTest | clear | process | exited => simp [ThreadPc.stepsLeft]

theorem stepsLeft_wake_le (pc : ThreadPc) : pc.wake.stepsLeft ≤ pc.stepsLeft := by
  cases pc with
  | waiting w => cases w <;> simp [ThreadPc.wake, Wait.wake, ThreadPc.stepsLeft]
  | loopTest | stopTest | clear | process | exited => exact Nat.le_refl _

theorem stepsLeft_wait {w w' : Wait} (h : w.step true = some w') :
    (ThreadPc.waiting w').stepsLeft < (ThreadPc.waiting w).stepsLeft := by
  cases w with
  | fast | prepare | test queued =>
    cases h
    simp [ThreadPc.stepsLeft]
  | schedule queued =>
    cases queued <;> cases h <;> simp [ThreadPc.stepsLeft]
  | asleep => cases h
  | done ret => cases h

/-- With the flag set and no request to stop, a step of the thread is one step
nearer to the next pass, or starts it. -/
theorem stepsLeft_threadStep {s s' : State} (hready : s.dataReady = true)
    (hstop : s.shouldStop = false) (hs : threadStep s = some s') :
    s'.passes = s.passes + 1 ∨
      s'.dataReady = true ∧ s'.thread.stepsLeft < s.thread.stepsLeft := by
  have hcond : s.cond = true := by simp [State.cond, hready]
  cases hpc : s.thread with
  | waiting w =>
    by_cases hw : ∃ ret, w = .done ret
    · obtain ⟨ret, rfl⟩ := hw
      simp only [threadStep, hpc, Option.some.injEq] at hs
      subst hs
      exact .inr ⟨hready, by simp [ThreadPc.stepsLeft]⟩
    · rw [threadStep_waiting hpc fun ret hret => hw ⟨ret, hret⟩, hcond] at hs
      obtain ⟨w', hstep, rfl⟩ := Option.map_eq_some_iff.mp hs
      exact .inr ⟨hready, stepsLeft_wait hstep⟩
  | clear =>
    simp only [threadStep, hpc, Option.some.injEq] at hs
    subst hs
    exact .inl rfl
  | loopTest | stopTest | process =>
    simp only [threadStep, hpc, hstop, Option.some.injEq] at hs
    subst hs
    exact .inr ⟨hready, by simp [ThreadPc.stepsLeft]⟩
  | exited => simp [threadStep, hpc] at hs

/-- Other steps do not take the next pass farther away. -/
theorem stepsLeft_other {s s' : State} {e : Event} (he : e ≠ .thread) (hready : s.dataReady = true)
    (hs : step s e = some s') :
    s'.dataReady = true ∧ s'.passes = s.passes ∧ s'.thread.stepsLeft ≤ s.thread.stepsLeft := by
  cases e with
  | thread => exact absurd rfl he
  | irqStore | stopSet | stopReturn =>
    obtain ⟨-, heq⟩ := Option.ite_none_right_eq_some.mp hs
    cases heq
    exact ⟨by simp [hready], rfl, Nat.le_refl _⟩
  | irqWake | stopWake =>
    obtain ⟨-, heq⟩ := Option.ite_none_right_eq_some.mp hs
    cases heq
    exact ⟨hready, rfl, stepsLeft_wake_le s.thread⟩

/-- Passes are only added, and a request to stop stays. -/
theorem step_mono {s s' : State} {e : Event} (hs : step s e = some s') :
    s.passes ≤ s'.passes ∧ (s.shouldStop = true → s'.shouldStop = true) := by
  cases e with
  | thread =>
    simp only [step, threadStep] at hs
    split at hs
    case h_3 =>
      obtain ⟨w', -, rfl⟩ := Option.map_eq_some_iff.mp hs
      exact ⟨Nat.le_refl _, id⟩
    all_goals
      cases hs <;> simp
  | irqStore | irqWake | stopSet | stopWake | stopReturn =>
    obtain ⟨-, heq⟩ := Option.ite_none_right_eq_some.mp hs
    cases heq
    simp

theorem exec_mono {s s' : State} {es : List Event} (h : driver.exec s es = some s') :
    s.passes ≤ s'.passes ∧ (s.shouldStop = true → s'.shouldStop = true) := by
  refine Machine.exec_inv (I := fun t => s.passes ≤ t.passes ∧
    (s.shouldStop = true → t.shouldStop = true)) ?_ ⟨Nat.le_refl _, id⟩ (Machine.along_true s es) h
  intro t e t' ht _ hstep
  have hmono := step_mono hstep
  exact ⟨Nat.le_trans ht.1 hmono.1, fun hstop => hmono.2 (ht.2 hstop)⟩

/-- **The bound**: a run from a state with the flag set, in which no pass
starts and nobody asks the thread to stop. -/
theorem exec_stepsLeft {s s' : State} {es : List Event} (hready : s.dataReady = true)
    (h : driver.exec s es = some s') (hstop : s'.shouldStop = false)
    (hpasses : s'.passes = s.passes) :
    es.count .thread + s'.thread.stepsLeft ≤ s.thread.stepsLeft := by
  induction es generalizing s with
  | nil =>
    cases h
    simp
  | cons e es ih =>
    obtain ⟨t, ht, hrest⟩ := Machine.exec_cons_iff.mp h
    have hmono := exec_mono hrest
    have hmono' := step_mono ht
    have hstop' : s.shouldStop = false := by
      rw [← Bool.not_eq_true]
      intro hc
      rw [hmono.2 (hmono'.2 hc)] at hstop
      cases hstop
    have hpasses' : t.passes = s.passes := by omega
    by_cases he : e = .thread
    · subst he
      rcases stepsLeft_threadStep hready hstop' ht with hnew | ⟨hready', hlt⟩
      · omega
      · have := ih hready' hrest (by omega)
        rw [List.count_cons_self]
        omega
    · obtain ⟨hready', -, hle⟩ := stepsLeft_other he hready ht
      have := ih hready' hrest (by omega)
      rw [List.count_cons_of_ne he]
      omega

/-! ## The thread goes on -/

/-- The thread has left its function only when it was asked to. -/
theorem shouldStop_of_exited {s : State} (h : driver.Reachable s) :
    s.thread = .exited → s.shouldStop = true := by
  refine h.inv (I := fun s => s.thread = .exited → s.shouldStop = true) (fun h => by cases h) ?_
  intro s e s' hI hs hexited
  have hmono := (step_mono hs).2
  cases e with
  | thread =>
    change threadStep s = some s' at hs
    cases hpc : s.thread with
    | loopTest | stopTest =>
      simp only [threadStep, hpc, Option.some.injEq] at hs
      subst hs
      by_contra hstop
      simp [hstop] at hexited
    | waiting w =>
      by_cases hw : ∃ ret, w = .done ret
      · obtain ⟨ret, rfl⟩ := hw
        simp only [threadStep, hpc, Option.some.injEq] at hs
        subst hs
        cases hexited
      · rw [threadStep_waiting hpc fun ret hret => hw ⟨ret, hret⟩] at hs
        obtain ⟨w', -, rfl⟩ := Option.map_eq_some_iff.mp hs
        cases hexited
    | clear | process =>
      simp only [threadStep, hpc, Option.some.injEq] at hs
      subst hs
      cases hexited
    | exited => exact hmono (hI hpc)
  | irqStore | stopSet | stopReturn =>
    obtain ⟨-, heq⟩ := Option.ite_none_right_eq_some.mp hs
    cases heq
    exact hmono (hI hexited)
  | irqWake | stopWake =>
    obtain ⟨-, heq⟩ := Option.ite_none_right_eq_some.mp hs
    cases heq
    refine hmono (hI ?_)
    cases hpc : s.thread with
    | exited => rfl
    | loopTest | waiting | stopTest | clear | process =>
      rw [hpc] at hexited
      cases hexited

/-- Only a sleeper and a thread that has left have no step. -/
theorem threadStep_isSome {s : State} (hawake : s.thread ≠ .waiting .asleep)
    (hpresent : s.thread ≠ .exited) : (threadStep s).isSome = true := by
  cases hpc : s.thread with
  | waiting w =>
    cases w with
    | asleep => exact absurd hpc hawake
    | done ret => simp [threadStep, hpc]
    | fast | prepare | test | schedule => simp [threadStep, hpc, Wait.step]
  | exited => exact absurd hpc hpresent
  | loopTest | stopTest | clear | process => simp [threadStep, hpc]

/-- A wake-up that is to come can come, and then the sleeper has a step. -/
theorem woken_step {s : State} (hasleep : s.thread = .waiting .asleep) (h : s.WakeUpComing) :
    ∃ e t, e ≠ .thread ∧ driver.step s e = some t ∧ t.thread = .waiting .prepare ∧
      (driver.step t .thread).isSome = true := by
  have hwoken : s.thread.wake = .waiting .prepare := by rw [hasleep]; rfl
  rcases h with hirq | hstop
  · refine ⟨.irqWake, { s with irq := .idle, thread := s.thread.wake }, nofun, if_pos hirq, hwoken,
      threadStep_isSome ?_ ?_⟩ <;> simp [hwoken]
  · refine ⟨.stopWake, { s with stop := .waiting, thread := s.thread.wake }, nofun, if_pos hstop,
      hwoken, threadStep_isSome ?_ ?_⟩ <;> simp [hwoken]

/-- **The flag protocol.** In every reachable state: an interrupt since the
last clearing has left the flag set; then a new pass starts within six steps of
the thread unless it is asked to stop, and until it is asked the thread has not
left its function and has a next step, if need be after the wake-up that is
under way; there are no more passes than interrupts; and the thread is asleep
with its condition true only while a wake-up is on its way. -/
theorem events_processed (s : State) (h : driver.Reachable s) :
    (0 < s.sinceClear → s.dataReady = true) ∧
      (s.dataReady = true → ∀ es s', driver.exec s es = some s' → s'.shouldStop = false →
        s'.passes = s.passes → es.count .thread ≤ 6) ∧
      (s.dataReady = true → s.shouldStop = false →
        s.thread ≠ .exited ∧
          ((driver.step s .thread).isSome = true ∨
            s.thread = .waiting .asleep ∧ ∃ e t, e ≠ .thread ∧ driver.step s e = some t ∧
              t.thread = .waiting .prepare ∧ (driver.step t .thread).isSome = true)) ∧
      s.passes ≤ s.interrupts ∧
      (s.thread = .waiting .asleep → s.dataReady = true ∨ s.shouldStop = true →
        s.WakeUpComing) := by
  have hinv : Inv s := h.inv inv_probed fun _ _ _ => inv_step
  have hwake : s.thread = .waiting .asleep → s.dataReady = true ∨ s.shouldStop = true →
      s.WakeUpComing := by
    intro hasleep hcond
    have hk := hinv.knows
    rw [hasleep] at hk
    exact hk trivial ((Bool.or_eq_true _ _).mpr hcond)
  refine ⟨hinv.flag.mpr, ?_, ?_, ?_, hwake⟩
  · intro hready es s' hrun hstop hpasses
    have hbound := exec_stepsLeft hready hrun hstop hpasses
    have hle := stepsLeft_le s.thread
    omega
  · intro hready hstop
    have hpresent : s.thread ≠ .exited := by
      intro hexited
      rw [shouldStop_of_exited h hexited] at hstop
      cases hstop
    refine ⟨hpresent, ?_⟩
    by_cases hasleep : s.thread = .waiting .asleep
    · exact .inr ⟨hasleep, woken_step hasleep (hwake hasleep (.inl hready))⟩
    · exact .inl (threadStep_isSome hasleep hpresent)
  · have := hinv.counted
    omega

/-- The thread has gone to sleep; an interrupt has set the flag and has yet to
wake it. -/
def pressed : List Event := List.replicate 5 .thread ++ [.irqStore]

theorem events_processed_pressed :
    ∃ s, driver.Reaches pressed s ∧ s.thread = .waiting .asleep ∧ s.WakeUpComing ∧
      ∃ e t, e ≠ .thread ∧ driver.step s e = some t ∧ t.thread = .waiting .prepare ∧
        (driver.step t .thread).isSome = true := by
  refine ⟨_, rfl, rfl, ?_, ?_⟩
  · exact (events_processed _ ⟨pressed, rfl⟩).2.2.2.2 rfl (.inl rfl)
  · rcases ((events_processed _ ⟨pressed, rfl⟩).2.2.1 rfl rfl).2 with hstep | ⟨-, hwoken⟩
    · cases hstep
    · exact hwoken

end KernelSpace.KthreadIrq
