import KernelSpace.BlockingRead.Interrupted

/-!
# GpioIrq — the button driver (14)

`14.Interrupt_Handling/gpio_irq_drv.c`: the handler sets `pressed` and wakes
the readers, `dev_read` waits for it. Like `my_read` of the blocking read
driver (10) it does not look at what the wait returns; unlike it, `dev_read`
clears the flag before it copies. A step is one of

* `irqStore`, `irqWake` — `gpio_irq_handler`, which does not overlap itself;
* `read`, `wait`, `signal` — `dev_read` inside `wait_event_interruptible`;
* `clear` — `pressed = 0`;
* `copyOut`, `readFault` — `copy_to_user`, which succeeds or fails, and the
  return.

So a copy that fails has taken the event with it, and an interrupted read may
do the same; `Heeded` excludes both. The returns are judged as in the blocking
read driver.
-/

namespace KernelSpace.GpioIrq

open KernelSpace.Kernel KernelSpace.Lib
open KernelSpace.BlockingRead (Outcome Proper allProper_concat)

/-- What `dev_read` copies, with its NUL. -/
def message : List UInt8 := (CString.lit "BUTTON_PRESSED\n").mem

inductive IrqPc where
  | idle
  | stored
deriving DecidableEq

/-- `cleared` records of the read, for its outcome: that a signal ended its
wait, that there was an event, that it found the flag at 0. -/
inductive ReaderPc where
  | idle
  | waiting (w : Wait)
  | cleared (interrupted event kept : Bool)
deriving DecidableEq

structure State where
  pressed : Int
  irq : IrqPc
  reader : ReaderPc
  unread : Nat
  outcomes : List Outcome

/-- The module as loaded. -/
def State.init : State := ⟨0, .idle, .idle, 0, []⟩

inductive Event where
  | irqStore
  | irqWake
  | read (len : Nat)
  | wait
  | signal
  | clear
  | copyOut
  | readFault
deriving DecidableEq

/-- The condition of the wait. -/
def State.available (s : State) : Bool := decide (s.pressed = 1)

def ReaderPc.wake : ReaderPc → ReaderPc
  | waiting w => waiting w.wake
  | pc => pc

/-- A signal ended the wait. -/
def ReaderPc.interrupted : ReaderPc → Bool
  | cleared interrupted _ _ => interrupted
  | _ => false

/-- The flag that the read has cleared was 0 already. -/
def ReaderPc.kept : ReaderPc → Bool
  | cleared _ _ kept => kept
  | _ => true

def step (s : State) : Event → Option State
  | .irqStore =>
    if s.irq = .idle then some { s with pressed := 1, irq := .stored, unread := s.unread + 1 }
    else none
  | .irqWake =>
    if s.irq = .stored then some { s with irq := .idle, reader := s.reader.wake } else none
  -- the `len` of the caller is not looked at
  | .read _ => if s.reader = .idle then some { s with reader := .waiting .fast } else none
  | .wait =>
    match s.reader with
    | .waiting w => (w.step s.available).map fun w' => { s with reader := .waiting w' }
    | _ => none
  | .signal =>
    match s.reader with
    | .waiting w => w.interrupt.map fun w' => { s with reader := .waiting w' }
    | _ => none
  | .clear =>
    match s.reader with
    | .waiting (.done ret) =>
      some { s with
        pressed := 0
        reader := .cleared (ret ≠ 0) (0 < s.unread) (s.pressed = 0)
        unread := 0 }
    | _ => none
  | .copyOut =>
    match s.reader with
    | .cleared interrupted event kept =>
      some { s with
        reader := .idle
        outcomes := s.outcomes ++ [⟨message.length, interrupted, false, event, kept⟩] }
    | _ => none
  | .readFault =>
    match s.reader with
    | .cleared interrupted event kept =>
      some { s with
        reader := .idle
        outcomes := s.outcomes ++ [⟨-EFAULT, interrupted, true, event, kept⟩] }
    | _ => none

/-- The module with one reader. -/
def driver : Machine State Event := ⟨.init, step⟩

example : message.length = 16 := by decide

/-- All reads so far have returned properly. -/
def AllProper (s : State) : Prop := ∀ o ∈ s.outcomes, Proper o

/-- A read copies only if no signal has ended its wait, and fails to copy only
if it has found the flag at 0 when it cleared it. -/
def Heeded (s : State) : Event → Prop
  | .copyOut => s.reader.interrupted = false
  | .readFault => s.reader.kept = true
  | _ => True

instance (s : State) : (e : Event) → Decidable (Heeded s e)
  | .copyOut => inferInstanceAs (Decidable (s.reader.interrupted = false))
  | .readFault => inferInstanceAs (Decidable (s.reader.kept = true))
  | .irqStore | .irqWake | .read _ | .wait | .signal | .clear => isTrue trivial

/-! ## What each event does -/

theorem step_spec {s s' : State} {e : Event} (h : step s e = some s') :
    match e with
    | .irqStore => s' = { s with pressed := 1, irq := .stored, unread := s.unread + 1 }
    | .irqWake => s' = { s with irq := .idle, reader := s.reader.wake }
    | .read _ => s' = { s with reader := .waiting .fast }
    | .wait => ∃ w w', Wait.step s.available w = some w' ∧ s' = { s with reader := .waiting w' }
    | .signal => ∃ w w', Wait.interrupt w = some w' ∧ s' = { s with reader := .waiting w' }
    | .clear =>
      ∃ ret, s.reader = .waiting (.done ret) ∧
        s' = { s with
          pressed := 0
          reader := .cleared (ret ≠ 0) (0 < s.unread) (s.pressed = 0)
          unread := 0 }
    | .copyOut =>
      ∃ interrupted event kept, s.reader = .cleared interrupted event kept ∧
        s' = { s with
          reader := .idle
          outcomes := s.outcomes ++ [⟨message.length, interrupted, false, event, kept⟩] }
    | .readFault =>
      ∃ interrupted event kept, s.reader = .cleared interrupted event kept ∧
        s' = { s with
          reader := .idle
          outcomes := s.outcomes ++ [⟨-EFAULT, interrupted, true, event, kept⟩] } := by
  cases e with
  | irqStore | irqWake | read =>
    obtain ⟨-, hs⟩ := Option.ite_none_right_eq_some.mp h
    exact (Option.some.inj hs).symm
  | wait | signal =>
    simp only [step] at h
    split at h
    · rename_i w hr
      obtain ⟨w', hw, rfl⟩ := Option.map_eq_some_iff.mp h
      exact ⟨w, w', hw, rfl⟩
    · cases h
  | clear =>
    simp only [step] at h
    split at h
    · rename_i ret hr
      exact ⟨ret, hr, (Option.some.inj h).symm⟩
    · cases h
  | copyOut | readFault =>
    simp only [step] at h
    split at h
    · rename_i interrupted event kept hr
      exact ⟨interrupted, event, kept, hr, (Option.some.inj h).symm⟩
    · cases h

/-! ## The invariant -/

structure Inv (s : State) : Prop where
  /-- The flag stands for the interrupts since it was cleared. -/
  flag : s.pressed = 1 ↔ 0 < s.unread
  /-- Only the reader clears the flag, behind its wait. -/
  seen : s.reader = .waiting (.done 0) → s.pressed = 1
  /-- A read that has not been interrupted has an event. -/
  answered : ∀ event kept, s.reader = .cleared false event kept → event = true
  proper : AllProper s

theorem inv_init : Inv .init :=
  ⟨iff_of_false (by decide) (Nat.lt_irrefl 0), nofun, nofun, nofun⟩

theorem wake_eq_cleared_iff {pc : ReaderPc} {interrupted event kept : Bool} :
    pc.wake = .cleared interrupted event kept ↔ pc = .cleared interrupted event kept := by
  cases pc <;> simp [ReaderPc.wake]

theorem wake_eq_done_iff {pc : ReaderPc} {ret : Int} :
    pc.wake = .waiting (.done ret) ↔ pc = .waiting (.done ret) := by
  cases pc <;> simp [ReaderPc.wake, Wait.wake_eq_done_iff]

theorem Inv.next {s s' : State} {e : Event} (h : Inv s) (he : Heeded s e)
    (hs : step s e = some s') : Inv s' := by
  have hspec := step_spec hs
  cases e with
  | irqStore =>
    obtain rfl : s' = _ := hspec
    exact ⟨iff_of_true rfl (Nat.succ_pos _), fun _ => rfl, h.answered, h.proper⟩
  | irqWake =>
    obtain rfl : s' = _ := hspec
    refine ⟨h.flag, fun hr => h.seen (wake_eq_done_iff.mp hr), fun event kept hr => ?_, h.proper⟩
    exact h.answered event kept (wake_eq_cleared_iff.mp hr)
  | read len =>
    obtain rfl : s' = _ := hspec
    exact ⟨h.flag, nofun, nofun, h.proper⟩
  | wait =>
    obtain ⟨w, w', hw, rfl⟩ := hspec
    refine ⟨h.flag, fun hr => ?_, nofun, h.proper⟩
    obtain rfl := ReaderPc.waiting.inj hr
    exact of_decide_eq_true (Wait.cond_of_step_done hw).1
  | signal =>
    obtain ⟨w, w', hw, rfl⟩ := hspec
    refine ⟨h.flag, fun hr => ?_, nofun, h.proper⟩
    obtain rfl := ReaderPc.waiting.inj hr
    cases w with
    | schedule queued => exact absurd (Wait.done.inj (Option.some.inj hw)) (by decide)
    | fast | prepare | test | asleep | done => cases hw
  | clear =>
    obtain ⟨ret, hr, rfl⟩ := hspec
    refine ⟨by simp, nofun, fun event kept hc => ?_, h.proper⟩
    obtain ⟨hret, rfl, -⟩ := ReaderPc.cleared.inj hc
    obtain rfl : ret = 0 := by simpa using hret
    exact decide_eq_true (h.flag.mp (h.seen hr))
  | copyOut =>
    obtain ⟨interrupted, event, kept, hr, rfl⟩ := hspec
    obtain rfl : interrupted = false := by simpa [Heeded, hr, ReaderPc.interrupted] using he
    refine ⟨h.flag, nofun, nofun, allProper_concat h.proper ⟨fun _ => ?_, ?_⟩⟩
    · exact h.answered event kept hr
    · rintro (hi | hf)
      · cases hi
      · cases hf
  | readFault =>
    obtain ⟨interrupted, event, kept, hr, rfl⟩ := hspec
    obtain rfl : kept = true := by simpa [Heeded, hr, ReaderPc.kept] using he
    refine ⟨h.flag, nofun, nofun, allProper_concat h.proper ⟨fun hpos => ?_, fun _ => ⟨?_, rfl⟩⟩⟩
    · exact absurd hpos (by simp [EFAULT])
    · simp [EFAULT]

/-- An interrupted read that copies, and a fault behind a flag that was set,
are not proper. -/
theorem heeded_of_proper {s s' : State} {e : Event} (hs : step s e = some s')
    (h : AllProper s') : Heeded s e := by
  have hspec := step_spec hs
  cases e with
  | copyOut =>
    obtain ⟨interrupted, event, kept, hr, rfl⟩ := hspec
    cases interrupted with
    | false => rw [Heeded, hr, ReaderPc.interrupted]
    | true =>
      have hlast := (h _ (List.mem_append_right _ (List.mem_singleton_self _))).2 (.inl rfl)
      exact absurd hlast.1 (Int.not_lt.mpr (Int.natCast_nonneg message.length))
  | readFault =>
    obtain ⟨interrupted, event, kept, hr, rfl⟩ := hspec
    have hlast := (h _ (List.mem_append_right _ (List.mem_singleton_self _))).2 (.inr rfl)
    rw [Heeded, hr, ReaderPc.kept]
    exact hlast.2
  | irqStore | irqWake | read | wait | signal | clear => trivial

/-- **All returns of a run are proper** exactly when its reads heed the signal
and lose no event to a failing copy. -/
theorem allProper_iff {es : List Event} {s : State} (h : driver.Reaches es s) :
    driver.Always AllProper .init es ↔ driver.Along Heeded .init es :=
  Machine.always_iff_along (fun _ => Inv.proper) (fun _ _ _ => Inv.next)
    (fun _ _ _ _ => heeded_of_proper) inv_init h

/-- A read that finds the flag up and that nobody interferes with. -/
def uninterrupted (len : Nat) : List Event := [.read len, .wait, .clear, .copyOut]

/-- With the flag up, such a read returns the message for an event. -/
theorem Inv.delivered {s : State} (h : Inv s) (hidle : s.reader = .idle) (hup : s.pressed = 1)
    (len : Nat) :
    ∃ (t : State) (o : Outcome), driver.exec s (uninterrupted len) = some t ∧
      t.outcomes = s.outcomes ++ [o] ∧ o.ret = message.length ∧ o.event = true ∧ Proper o := by
  let o : Outcome := ⟨message.length, false, false, true, false⟩
  let t : State := { s with
    pressed := 0
    reader := .idle
    unread := 0
    outcomes := s.outcomes ++ [o] }
  have hrun : driver.exec s (uninterrupted len) = some t := by
    simp [Machine.exec, driver, uninterrupted, step, hidle, State.available, hup, Wait.step, t, o,
      h.flag.mp hup]
  exact ⟨t, o, hrun, rfl, rfl, rfl, by decide⟩

/-! ## Both drivers -/

/-- **Signals and faults in both drivers**: the returns of a run are all proper
exactly when its reads heed the signals and, in the button driver, lose no event
to a failing copy; and what such a run leaves in the flag goes to a later read. -/
theorem reads_proper_iff {W : Type*} [DecidableEq W] :
    (∀ es (s : BlockingRead.State W), (BlockingRead.driver W).Reaches es s →
      ((BlockingRead.driver W).Always BlockingRead.AllProper (.init W) es ↔
        (BlockingRead.driver W).Along BlockingRead.Heeded (.init W) es) ∧
      ((BlockingRead.driver W).Along BlockingRead.Heeded (.init W) es →
        s.reader = .idle → s.dev.dataAvailable ≠ 0 → ∀ len : Nat,
          ∃ (t : BlockingRead.State W) (o : Outcome),
            (BlockingRead.driver W).exec s (BlockingRead.uninterrupted len) = some t ∧
            t.outcomes = s.outcomes ++ [o] ∧
            o.ret = (min len s.dev.kernelBuffer.str.strlen : Nat) ∧
            o.event = true ∧ Proper o)) ∧
      ∀ es s, driver.Reaches es s →
        (driver.Always AllProper .init es ↔ driver.Along Heeded .init es) ∧
        (driver.Along Heeded .init es → s.reader = .idle → s.pressed = 1 → ∀ len : Nat,
          ∃ (t : State) (o : Outcome), driver.exec s (uninterrupted len) = some t ∧
            t.outcomes = s.outcomes ++ [o] ∧ o.ret = message.length ∧ o.event = true ∧
            Proper o) := by
  refine ⟨fun es s hs => ⟨BlockingRead.allProper_iff hs, fun he hidle hup len => ?_⟩,
    fun es s hs => ⟨allProper_iff hs, fun he hidle hup len => ?_⟩⟩
  · have hinv : BlockingRead.Inv s :=
      Machine.exec_inv (fun _ _ _ => BlockingRead.Inv.next) BlockingRead.inv_init he hs
    exact hinv.delivered hidle hup len
  · have hinv : Inv s := Machine.exec_inv (fun _ _ _ => Inv.next) inv_init he hs
    exact hinv.delivered hidle hup len

/-- A read that a signal ends and that cannot copy either, between a write and
the read that gets it. -/
def retried : List (BlockingRead.Event Unit) :=
  [.read 8, .wait, .wait, .wait, .signal, .write () [65, 66], .setFlag (), .readFault, .wakeUp ()]

/-- The button, pressed twice. -/
def pressedTwice : List Event :=
  [.irqStore, .irqWake, .read 16, .wait, .clear, .copyOut, .irqStore, .irqWake]

theorem retried_run : ((BlockingRead.driver Unit).exec (.init Unit) retried).isSome := by decide

theorem pressedTwice_run : (driver.exec .init pressedTwice).isSome := by decide

theorem reads_proper_iff_retried :
    (∃ t o, (BlockingRead.driver Unit).exec (Option.get _ retried_run)
        (BlockingRead.uninterrupted 8) = some t ∧
      t.outcomes = [⟨-EFAULT, true, true, true, true⟩, o] ∧ o.ret = 2 ∧ o.event = true) ∧
    ∃ t o, driver.exec (Option.get _ pressedTwice_run) (uninterrupted 16) = some t ∧
      t.outcomes = [⟨16, false, false, true, false⟩, o] ∧ o.ret = 16 ∧ o.event = true := by
  obtain ⟨hblocking, hbutton⟩ := reads_proper_iff (W := Unit)
  obtain ⟨t, o, ht, houtcomes, hret, hevent, -⟩ :=
    (hblocking retried _ (Option.some_get retried_run).symm).2 (by decide) (by decide)
      (by decide) 8
  obtain ⟨u, q, hu, hqoutcomes, hqret, hqevent, -⟩ :=
    (hbutton pressedTwice _ (Option.some_get pressedTwice_run).symm).2 (by decide) (by decide)
      (by decide) 16
  exact ⟨⟨t, o, ht, houtcomes, hret, hevent⟩, u, q, hu, hqoutcomes, hqret, hqevent⟩

/-- A message is read, then a signal ends the wait of the next read. -/
def stale : List (BlockingRead.Event Unit) :=
  [.write () [65], .setFlag (), .wakeUp (), .read 8, .wait, .copyOut, .clearFlag,
    .read 8, .wait, .wait, .wait, .signal, .copyOut, .clearFlag]

/-- Nobody presses the button, and a signal ends the wait. -/
def unpressed : List Event := [.read 16, .wait, .wait, .wait, .signal, .clear, .copyOut]

/-- The button is pressed, and the copy fails. -/
def lost : List Event := [.irqStore, .irqWake, .read 16, .wait, .clear, .readFault]

/-- An interrupted read returns the old message of 10 or the message of 14, and
a fault in 14 has taken the press with it. -/
theorem errors_not_proper :
    ((BlockingRead.driver Unit).exec (.init Unit) stale).map (·.outcomes) =
      some [⟨1, false, false, true, false⟩, ⟨1, true, false, false, true⟩] ∧
    ¬ Proper ⟨1, true, false, false, true⟩ ∧
    (driver.exec .init unpressed).map (·.outcomes) = some [⟨16, true, false, false, true⟩] ∧
    ¬ Proper ⟨16, true, false, false, true⟩ ∧
    (driver.exec .init lost).map (fun s => (s.outcomes, s.pressed)) =
      some ([⟨-EFAULT, false, true, true, false⟩], 0) ∧
    ¬ Proper ⟨-EFAULT, false, true, true, false⟩ := by
  refine ⟨by decide, by decide, by decide, by decide, by decide, by decide⟩

end KernelSpace.GpioIrq
