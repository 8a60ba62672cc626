import KernelSpace.Lib.Pending
import KernelSpace.Lib.Shutdown

/-!
# ThreadedIrq — the two halves of an interrupt (16)

`16.Threaded_IRQ/request_threaded_irq.c`: `top_irq` prints and asks for the thread,
`thread_irq` prints, sleeps for a second and prints again. What lies between them is
the kernel's: a flag of the interrupt action that the thread clears when it begins,
so presses that come while the flag is set ask for nothing more. (An edge that comes
during `top_irq` is kept, and makes another one when it is over.) A step is one of

* `probe`, `probeReturn` — `my_probe` up to `devm_request_threaded_irq`, and the
  rest of it;
* `top`, `wakeThread` — `top_irq`, and what the kernel does with its answer;
* `start`, `finish` — the two lines of `thread_irq`;
* `unbind` — `my_remove`, which leaves everything to the devres list;
* `free` — the three parts of `free_irq`: the action goes, so nothing interrupts
  any more; a `top_irq` that runs ends; the thread, which looks at the flag once
  more, exits.

Every top half is followed by a whole run of the bottom half, and at the end of
`free_irq` there is none left to do.
-/

namespace KernelSpace.ThreadedIrq

open KernelSpace.Lib

inductive Line where
  /-- `Probe called` -/
  | probeCalled
  /-- `Invalid GPIO` -/
  | invalidGpio
  /-- `GPIO=%d IRQ=%d` -/
  | numbers
  /-- `Top Half` -/
  | topHalf
  /-- `Thread started` -/
  | started
  /-- `Thread finished` -/
  | finished
  /-- `Remove called` -/
  | removeCalled
deriving DecidableEq

inductive Phase where
  | unbound
  /-- The interrupt is requested, and `my_probe` has not returned. -/
  | requested
  | bound
  | removed
  /-- The action is gone. -/
  | freed
  /-- `kthread_stop` of the interrupt's thread. -/
  | stopping
deriving DecidableEq

/-- How `my_probe` gets on. -/
inductive ProbeEnd where
  | noMemory
  | invalidGpio
  /-- Of the line or of the interrupt. -/
  | refused
  | ok

structure State where
  phase : Phase
  /-- In `top_irq` -/
  irq : Bool
  /-- `IRQTF_RUNTHREAD` -/
  runThread : Bool
  /-- In `thread_irq` -/
  running : Bool
  log : List Line

inductive Event where
  | probe (outcome : ProbeEnd)
  | probeReturn
  | top
  | wakeThread
  | start
  | finish
  | unbind
  | free

/-- The action is there. -/
def Phase.interrupts : Phase → Bool
  | requested | bound | removed => true
  | _ => false

def State.print (s : State) (line : Line) : State := { s with log := s.log ++ [line] }

def step (s : State) : Event → Option State
  | .probe outcome =>
    if s.phase = .unbound then
      match outcome with
      | .noMemory | .refused => some (s.print .probeCalled)
      | .invalidGpio => some ((s.print .probeCalled).print .invalidGpio)
      | .ok => some { s.print .probeCalled with phase := .requested }
    else none
  | .probeReturn =>
    if s.phase = .requested then some { s.print .numbers with phase := .bound } else none
  | .top =>
    if s.phase.interrupts && !s.irq then some { s.print .topHalf with irq := true } else none
  | .wakeThread => if s.irq then some { s with irq := false, runThread := true } else none
  | .start =>
    if s.runThread && !s.running then
      some { s.print .started with runThread := false, running := true }
    else none
  | .finish => if s.running then some { s.print .finished with running := false } else none
  | .unbind =>
    if s.phase = .bound then some { s.print .removeCalled with phase := .removed } else none
  | .free =>
    match s.phase with
    | .removed => some { s with phase := .freed }
    | .freed => if s.irq then none else some { s with phase := .stopping }
    | .stopping => if s.runThread || s.running then none else some { s with phase := .unbound }
    | _ => none

def driver : Machine State Event := ⟨⟨.unbound, false, false, false, []⟩, step⟩

/-- The steps of the two halves. -/
def Event.isHandler : Event → Bool
  | top | wakeThread | start | finish => true
  | _ => false

/-- Neither half has anything to do. -/
def State.AtRest (s : State) : Prop := s.irq = false ∧ s.runThread = false ∧ s.running = false

/-- `free_irq` has been called and has not returned. -/
def State.Freeing (s : State) : Prop := s.phase = .freed ∨ s.phase = .stopping

/-- Every top half has a whole run of the bottom half behind it. -/
def Answered (log : List Line) : Prop :=
  ∀ before behind, log = before ++ .topHalf :: behind →
    ∃ a b c, behind = a ++ .started :: b ++ .finished :: c

/-! ## The invariant -/

structure Inv (s : State) : Prop where
  asked : Pending .topHalf .started s.log → s.irq = true ∨ s.runThread = true
  begun : Pending .started .finished s.log → s.running = true
  count : s.log.count .started + s.runThread.toNat + s.irq.toNat ≤ s.log.count .topHalf
  quiet : s.phase = .stopping → s.irq = false
  unbound : s.phase = .unbound → s.AtRest

variable {s s' : State} {e : Event}

theorem inv_init : Inv driver.init where
  asked := fun h => absurd h pending_nil
  begun := fun h => absurd h pending_nil
  count := Nat.le_refl 0
  quiet := nofun
  unbound := fun _ => ⟨rfl, rfl, rfl⟩

/-- A line of neither half. -/
theorem Inv.print (h : Inv s) {line : Line}
    (hline : line ≠ .topHalf ∧ line ≠ .started ∧ line ≠ .finished) : Inv (s.print line) where
  asked := fun hp => h.asked ((pending_concat.mp hp).resolve_left hline.1).2
  begun := fun hp => h.begun ((pending_concat.mp hp).resolve_left hline.2.1).2
  count := by
    have hstarted : [line].count .started = 0 := List.count_eq_zero.mpr (by simp [hline.2.1.symm])
    have htop : [line].count .topHalf = 0 := List.count_eq_zero.mpr (by simp [hline.1.symm])
    simpa [State.print, List.count_append, hstarted, htop] using h.count
  quiet := h.quiet
  unbound := h.unbound

theorem inv_probe {outcome : ProbeEnd} (h : Inv s) (hs : step s (.probe outcome) = some s') :
    Inv s' := by
  have hprobe : Inv (s.print .probeCalled) := h.print (by decide)
  simp only [step] at hs
  split at hs
  · rename_i hphase
    cases outcome <;> cases hs
    · exact hprobe
    · exact hprobe.print (by decide)
    · exact hprobe
    · obtain ⟨hirq, -, -⟩ := h.unbound hphase
      exact ⟨hprobe.asked, hprobe.begun, hprobe.count, nofun, nofun⟩
  · cases hs

theorem inv_free (h : Inv s) (hs : step s .free = some s') : Inv s' := by
  simp only [step] at hs
  split at hs
  · cases hs
    exact ⟨h.asked, h.begun, h.count, nofun, nofun⟩
  · split at hs <;> cases hs
    exact ⟨h.asked, h.begun, h.count, fun _ => by simpa using ‹¬ s.irq = true›, nofun⟩
  · rename_i hphase
    split at hs <;> cases hs
    rename_i hidle
    simp only [Bool.or_eq_true, not_or, Bool.not_eq_true] at hidle
    exact ⟨h.asked, h.begun, h.count, nofun, fun _ => ⟨h.quiet hphase, hidle⟩⟩
  · cases hs

theorem inv_step (h : Inv s) (hs : step s e = some s') : Inv s' := by
  obtain ⟨hasked, hbegun, hcount, hquiet, hunbound⟩ := id h
  cases e with
  | probe outcome => exact inv_probe h hs
  | probeReturn =>
    simp only [step] at hs
    split at hs <;> cases hs
    have hprint : Inv (s.print .numbers) := h.print (by decide)
    exact ⟨hprint.asked, hprint.begun, hprint.count, nofun, nofun⟩
  | top =>
    simp only [step] at hs
    split at hs <;> cases hs
    rename_i hinterrupts
    simp only [Bool.and_eq_true, Bool.not_eq_true'] at hinterrupts
    obtain ⟨hphase, hirq⟩ := hinterrupts
    refine ⟨fun _ => .inl rfl, fun hp => ?_, ?_, fun hstop => ?_, fun hoff => ?_⟩
    · exact hbegun ((pending_concat.mp hp).resolve_left (by decide)).2
    · simp [State.print, hirq] at hcount ⊢
      omega
    · rw [show s.phase = .stopping from hstop] at hphase
      cases hphase
    · rw [show s.phase = .unbound from hoff] at hphase
      cases hphase
  | wakeThread =>
    simp only [step] at hs
    split at hs <;> cases hs
    rename_i hirq
    refine ⟨fun _ => .inr rfl, hbegun, ?_, fun _ => rfl, fun hoff => ?_⟩
    · simp only [hirq, Bool.toNat_true, Bool.toNat_false] at hcount ⊢
      omega
    · rw [(hunbound hoff).1] at hirq
      cases hirq
  | start =>
    simp only [step] at hs
    split at hs <;> cases hs
    rename_i hready
    simp only [Bool.and_eq_true, Bool.not_eq_true'] at hready
    refine ⟨fun hp => ?_, fun _ => rfl, ?_, hquiet, fun hoff => ?_⟩
    · exact absurd rfl ((pending_concat.mp hp).resolve_left (by decide)).1
    · simp [State.print, hready.1] at hcount ⊢
      omega
    · have hrun := (hunbound hoff).2.1
      rw [hready.1] at hrun
      cases hrun
  | finish =>
    simp only [step] at hs
    split at hs <;> cases hs
    rename_i hrunning
    refine ⟨fun hp => ?_, fun hp => ?_, ?_, hquiet, fun hoff => ?_⟩
    · exact hasked ((pending_concat.mp hp).resolve_left (by decide)).2
    · exact absurd rfl ((pending_concat.mp hp).resolve_left (by decide)).1
    · simpa [State.print, List.count_append] using hcount
    · have hrun := (hunbound hoff).2.2
      rw [hrunning] at hrun
      cases hrun
  | unbind =>
    simp only [step] at hs
    split at hs <;> cases hs
    have hprint : Inv (s.print .removeCalled) := h.print (by decide)
    exact ⟨hprint.asked, hprint.begun, hprint.count, nofun, nofun⟩
  | free => exact inv_free h hs

/-! ## Coming to rest -/

/-- The steps that the two halves can still take when nothing interrupts. -/
def State.stepsLeft (s : State) : Nat :=
  3 * s.irq.toNat + 2 * s.runThread.toNat + s.running.toNat

theorem stepsLeft_le (s : State) : s.stepsLeft ≤ 6 := by
  have hirq := s.irq.toNat_le
  have hrun := s.runThread.toNat_le
  have hrunning := s.running.toNat_le
  simp only [State.stepsLeft]
  omega

/-- Each step of the two halves leaves fewer. -/
theorem handler_step (hfreeing : s.Freeing) (hs : step s e = some s') (he : e.isHandler = true) :
    s'.stepsLeft < s.stepsLeft := by
  cases e with
  | top =>
    simp only [step] at hs
    split at hs <;> cases hs
    rename_i hinterrupts
    rcases hfreeing with hphase | hphase <;> simp [hphase, Phase.interrupts] at hinterrupts
  | wakeThread =>
    simp only [step] at hs
    split at hs <;> cases hs
    rename_i hirq
    have hrun := s.runThread.toNat_le
    simp only [State.stepsLeft, hirq, Bool.toNat_true, Bool.toNat_false]
    omega
  | start =>
    simp only [step] at hs
    split at hs <;> cases hs
    rename_i hready
    simp only [Bool.and_eq_true, Bool.not_eq_true'] at hready
    simp [State.stepsLeft, State.print, hready.1, hready.2]
  | finish =>
    simp only [step] at hs
    split at hs <;> cases hs
    rename_i hrunning
    simp [State.stepsLeft, State.print, hrunning]
  | probe outcome => cases he
  | probeReturn => cases he
  | unbind => cases he
  | free => cases he

theorem stepsLeft_free (hs : step s .free = some s') : s'.stepsLeft = s.stepsLeft := by
  simp only [step] at hs
  split at hs
  · cases hs
    rfl
  · split at hs <;> cases hs
    rfl
  · split at hs <;> cases hs
    rfl
  · cases hs

/-- While `free_irq` runs there is nothing else. -/
theorem free_of_freeing (hfreeing : s.Freeing) (hs : step s e = some s')
    (he : e.isHandler = false) : e = .free := by
  cases e with
  | free => rfl
  | probe outcome =>
    rcases hfreeing with hphase | hphase <;> simp [step, hphase] at hs
  | probeReturn =>
    rcases hfreeing with hphase | hphase <;> simp [step, hphase] at hs
  | unbind =>
    rcases hfreeing with hphase | hphase <;> simp [step, hphase] at hs
  | top => cases he
  | wakeThread => cases he
  | start => cases he
  | finish => cases he

theorem progress (hfreeing : s.Freeing) :
    (step s .free).isSome ∨ ∃ e, e.isHandler = true ∧ (step s e).isSome := by
  cases hirq : s.irq with
  | true => exact .inr ⟨.wakeThread, rfl, by simp [step, hirq]⟩
  | false =>
    rcases hfreeing with hphase | hphase
    · exact .inl (by simp [step, hphase, hirq])
    · cases hrunning : s.running with
      | true => exact .inr ⟨.finish, rfl, by simp [step, hrunning]⟩
      | false =>
        cases hrun : s.runThread with
        | true => exact .inr ⟨.start, rfl, by simp [step, hrun, hrunning]⟩
        | false => exact .inl (by simp [step, hphase, hrun, hrunning])

theorem silent (h : Inv s) (hphase : s.phase = .unbound) (he : e.isHandler = true) :
    step s e = none := by
  obtain ⟨hirq, hrun, hrunning⟩ := h.unbound hphase
  cases e with
  | top => simp [step, hphase, Phase.interrupts]
  | wakeThread => simp [step, hirq]
  | start => simp [step, hrun]
  | finish => simp [step, hrunning]
  | probe outcome => cases he
  | probeReturn => cases he
  | unbind => cases he
  | free => cases he

theorem shutdown : driver.Shutdown Event.isHandler .free State.Freeing (·.phase = .unbound) 6 := by
  refine Machine.shutdown_of_inv (I := Inv) (μ := State.stepsLeft) inv_init (fun _ _ _ => inv_step)
    ?_ ?_ (fun s _ => stepsLeft_le s) (fun _ _ => progress)
    (fun _ _ => silent)
  · exact fun s e s' _ hfreeing _ hs he => handler_step hfreeing hs he
  · intro s e s' _ hfreeing _ hs he
    obtain rfl := free_of_freeing hfreeing hs he
    exact Nat.le_of_eq (stepsLeft_free hs)

/-- **The two halves**: the bottom half runs at most once for each top half; when
neither has anything to do, and so when the device is not bound, every top half has a
whole run of the bottom half behind it; and once `free_irq` is called they have at most
six steps left, it returns, and no step of them comes behind it. -/
theorem halves_answered :
    (∀ s, driver.Reachable s → s.log.count .started ≤ s.log.count .topHalf ∧
      (s.AtRest ∨ s.phase = .unbound → Answered s.log)) ∧
    driver.Shutdown Event.isHandler .free State.Freeing (·.phase = .unbound) 6 := by
  refine ⟨fun s hs => ?_, shutdown⟩
  have hinv : Inv s := hs.inv inv_init fun _ _ _ => inv_step
  refine ⟨by have := hinv.count; omega, fun hrest before behind hlog => ?_⟩
  obtain ⟨hirq, hrun, hrunning⟩ := hrest.elim id hinv.unbound
  refine answered (fun hp => ?_) (fun hp => ?_) hlog
  · exact (hinv.asked hp).elim (by simp [hirq]) (by simp [hrun])
  · simpa [hrunning] using hinv.begun hp

end KernelSpace.ThreadedIrq
