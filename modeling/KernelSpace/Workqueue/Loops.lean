import KernelSpace.Kernel.Workqueue
import KernelSpace.Lib.Shutdown

/-!
# Workqueue — handlers that loop (12)

`12.Workqueue/Binding_custom_workqueue.c` and `workqueue.c`: `my_init` queues
one work item, whose handler loops, and `my_exit` waits in `flush_work` until
the handler has returned. The first handler loops until `stop_work_flag` is
set, which `my_exit` does before it waits; the second one makes ten rounds and
knows no flag. A `Program` is what they differ in. A step is one of

* `insmod`, `queueWork` — `my_init`, which may find no workqueue;
* `workStart`, `test`, `body`, `workFinish` — a worker calls the handler, which
  tests its loop, prints and sleeps, returns;
* `exit`, `flushWork` — `my_exit` up to its wait, and the end of the wait;
* `rmmod` — the workqueue and the memory of the module go.
-/

namespace KernelSpace.Workqueue

open KernelSpace.Kernel KernelSpace.Lib

/-- The loop of a handler, and what `my_exit` does about it. -/
structure Program where
  /-- `my_exit` sets the flag. -/
  raises : Bool
  /-- The loop goes on, from the flag and the rounds made. -/
  again : Bool → Nat → Bool
  rounds : Nat
  /-- Behind `my_exit` it ends. -/
  ends : ∀ i, rounds ≤ i → again raises i = false

/-- `work_handler` of `Binding_custom_workqueue.c`. -/
def binding : Program := ⟨true, fun stopWorkFlag _ => !stopWorkFlag, 0, fun _ _ => rfl⟩

/-- `work_handler` of `workqueue.c`. -/
def plain : Program :=
  ⟨false, fun _ i => decide (i < 10), 10, fun _ h => decide_eq_false (Nat.not_lt.mpr h)⟩

inductive Phase where
  | absent
  | setUp
  | loaded
  | flushing
  | flushed
deriving DecidableEq

/-- Where the handler stands. -/
inductive HandlerPc where
  | idle
  | test
  | body
  | leaving
deriving DecidableEq

structure State where
  phase : Phase
  stopWorkFlag : Bool
  work : Work
  handler : HandlerPc
  /-- The rounds of this call of the handler. -/
  i : Nat

inductive Event where
  | insmod (created : Bool)
  | queueWork
  | workStart
  | test
  | body
  | workFinish
  | exit
  | flushWork
  | rmmod
deriving DecidableEq

section

variable (prog : Program)

def step (s : State) : Event → Option State
  | .insmod created =>
    if s.phase = .absent then
      some (if created then { s with phase := .setUp, stopWorkFlag := false, work := .init } else s)
    else none
  | .queueWork =>
    if s.phase = .setUp then some { s with phase := .loaded, work := s.work.schedule } else none
  | .workStart => s.work.start.map fun work => { s with work, handler := .test, i := 0 }
  | .test =>
    if s.handler = .test then
      some { s with handler := if prog.again s.stopWorkFlag s.i then .body else .leaving }
    else none
  | .body => if s.handler = .body then some { s with handler := .test, i := s.i + 1 } else none
  | .workFinish =>
    if s.handler = .leaving then s.work.finish.map fun work => { s with work, handler := .idle }
    else none
  | .exit =>
    if s.phase = .loaded then some { s with phase := .flushing, stopWorkFlag := prog.raises }
    else none
  | .flushWork =>
    if s.phase = .flushing then s.work.flush.map fun work => { s with phase := .flushed, work }
    else none
  | .rmmod => if s.phase = .flushed then some { s with phase := .absent } else none

def driver : Machine State Event := ⟨⟨.absent, false, .init, .idle, 0⟩, step prog⟩

end

/-- The steps of the worker. -/
def Event.isWorker : Event → Bool
  | workStart | test | body | workFinish => true
  | _ => false

variable {prog : Program} {s s' : State} {e : Event}

/-! ## What each event does -/

theorem step_spec (h : step prog s e = some s') :
    match e with
    | .insmod created =>
      s.phase = .absent ∧
        s' = if created then { s with phase := .setUp, stopWorkFlag := false, work := .init } else s
    | .queueWork => s.phase = .setUp ∧ s' = { s with phase := .loaded, work := s.work.schedule }
    | .workStart =>
      s.work.pending = .queued ∧ s.work.running = false ∧
        s' = { s with work := ⟨.clear, true⟩, handler := .test, i := 0 }
    | .test =>
      s.handler = .test ∧
        s' = { s with handler := if prog.again s.stopWorkFlag s.i then .body else .leaving }
    | .body => s.handler = .body ∧ s' = { s with handler := .test, i := s.i + 1 }
    | .workFinish =>
      s.handler = .leaving ∧
        s' = { s with work := { s.work with running := false }, handler := .idle }
    | .exit => s.phase = .loaded ∧ s' = { s with phase := .flushing, stopWorkFlag := prog.raises }
    | .flushWork =>
      s.phase = .flushing ∧ s.work.pending = .clear ∧ s.work.running = false ∧
        s' = { s with phase := .flushed }
    | .rmmod => s.phase = .flushed ∧ s' = { s with phase := .absent } := by
  cases e with
  | insmod | queueWork | test | body | exit | rmmod =>
    obtain ⟨hguard, hs⟩ := Option.ite_none_right_eq_some.mp h
    exact ⟨hguard, (Option.some.inj hs).symm⟩
  | workStart =>
    obtain ⟨work, hwork, rfl⟩ := Option.map_eq_some_iff.mp h
    obtain ⟨⟨hpending, hrunning⟩, heq⟩ := Option.ite_none_right_eq_some.mp hwork
    cases heq
    exact ⟨hpending, hrunning, rfl⟩
  | workFinish =>
    obtain ⟨hguard, hmap⟩ := Option.ite_none_right_eq_some.mp h
    obtain ⟨work, hwork, rfl⟩ := Option.map_eq_some_iff.mp hmap
    obtain ⟨-, heq⟩ := Option.ite_none_right_eq_some.mp hwork
    cases heq
    exact ⟨hguard, rfl⟩
  | flushWork =>
    obtain ⟨hguard, hmap⟩ := Option.ite_none_right_eq_some.mp h
    obtain ⟨work, hwork, rfl⟩ := Option.map_eq_some_iff.mp hmap
    obtain ⟨⟨hpending, hrunning⟩, heq⟩ := Option.ite_none_right_eq_some.mp hwork
    cases heq
    exact ⟨hguard, hpending, hrunning, rfl⟩

/-! ## The invariant -/

/-- The item is neither queued nor running. -/
def Resting (s : State) : Prop := s.work.pending = .clear ∧ s.handler = .idle

/-- What holds of the flag and the item in a phase. -/
def Sound (prog : Program) (s : State) : Phase → Prop
  | .absent | .flushed => Resting s
  | .setUp => s.stopWorkFlag = false ∧ Resting s
  | .loaded => s.stopWorkFlag = false
  | .flushing => s.stopWorkFlag = prog.raises

structure Inv (prog : Program) (s : State) : Prop where
  running : s.work.running = true ↔ s.handler ≠ .idle
  /-- The item is queued once and never grabbed. -/
  pending : s.work.pending = .clear ∨ s.work.pending = .queued ∧ s.handler = .idle
  phase : Sound prog s s.phase

theorem inv_init : Inv prog (driver prog).init := ⟨by simp [driver, Work.init], .inl rfl, rfl, rfl⟩

/-- Where the item is queued or runs. -/
theorem Inv.active (h : Inv prog s) (hactive : s.work.pending = .queued ∨ s.handler ≠ .idle) :
    s.phase = .loaded ∧ s.stopWorkFlag = false ∨
      s.phase = .flushing ∧ s.stopWorkFlag = prog.raises := by
  have hphase := h.phase
  have hactive' : ¬ Resting s := by
    rintro ⟨hclear, hidle⟩
    simp [hclear, hidle] at hactive
  cases hp : s.phase with
  | absent | flushed =>
    rw [hp] at hphase
    exact absurd hphase hactive'
  | setUp =>
    rw [hp] at hphase
    exact absurd hphase.2 hactive'
  | loaded =>
    rw [hp] at hphase
    exact .inl ⟨rfl, hphase⟩
  | flushing =>
    rw [hp] at hphase
    exact .inr ⟨rfl, hphase⟩

/-- The handler goes on, in a phase that only knows the flag. -/
theorem Inv.goOn (h : Inv prog s) (hactive : s.work.pending = .queued ∨ s.handler ≠ .idle)
    (hphase : s'.phase = s.phase)
    (hflag : s'.stopWorkFlag = s.stopWorkFlag) : Sound prog s' s'.phase := by
  rw [hphase]
  rcases h.active hactive with ⟨hp, hf⟩ | ⟨hp, hf⟩ <;>
    · rw [hp]
      exact hflag.trans hf

theorem inv_step (h : Inv prog s) (hs : step prog s e = some s') : Inv prog s' := by
  have hspec := step_spec hs
  have hphase := h.phase
  cases e with
  | insmod created =>
    obtain ⟨habsent, rfl⟩ := hspec
    cases created with
    | false => exact h
    | true =>
      rw [habsent] at hphase
      have hidle : s.handler = .idle := hphase.2
      exact ⟨by simp [Work.init, hidle], .inl rfl, rfl, rfl, hidle⟩
  | queueWork =>
    obtain ⟨hsetUp, rfl⟩ := hspec
    rw [hsetUp] at hphase
    obtain ⟨hflag, hclear, hidle⟩ := hphase
    have hwork : s.work.schedule = { s.work with pending := .queued } := if_pos hclear
    rw [hwork]
    exact ⟨h.running, .inr ⟨rfl, hidle⟩, hflag⟩
  | workStart =>
    obtain ⟨hqueued, -, rfl⟩ := hspec
    exact ⟨by simp, .inl rfl, h.goOn (.inl hqueued) rfl rfl⟩
  | test =>
    obtain ⟨hpc, rfl⟩ := hspec
    have hclear : s.work.pending = .clear := by simpa [hpc] using h.pending
    have hrunning : s.work.running = true := h.running.mpr (by simp [hpc])
    refine ⟨?_, .inl hclear, h.goOn (.inr (by simp [hpc])) rfl rfl⟩
    cases prog.again s.stopWorkFlag s.i <;> simp [hrunning]
  | body =>
    obtain ⟨hpc, rfl⟩ := hspec
    have hclear : s.work.pending = .clear := by simpa [hpc] using h.pending
    have hrunning : s.work.running = true := h.running.mpr (by simp [hpc])
    exact ⟨by simp [hrunning], .inl hclear, h.goOn (.inr (by simp [hpc])) rfl rfl⟩
  | workFinish =>
    obtain ⟨hpc, rfl⟩ := hspec
    have hclear : s.work.pending = .clear := by simpa [hpc] using h.pending
    exact ⟨by simp, .inl hclear, h.goOn (.inr (by simp [hpc])) rfl rfl⟩
  | exit =>
    obtain ⟨-, rfl⟩ := hspec
    exact ⟨h.running, h.pending, rfl⟩
  | flushWork =>
    obtain ⟨-, hclear, hrunning, rfl⟩ := hspec
    have hidle : s.handler = .idle := by simpa [hrunning] using h.running
    exact ⟨h.running, h.pending, hclear, hidle⟩
  | rmmod =>
    obtain ⟨hflushed, rfl⟩ := hspec
    rw [hflushed] at hphase
    exact ⟨h.running, h.pending, hphase⟩

/-! ## The end of the handler -/

/-- `my_exit` waits in `flush_work`. -/
def Flushing (s : State) : Prop := s.phase = .flushing

/-- The steps that the worker can still take behind `my_exit`. -/
def stepsLeft (prog : Program) (s : State) : Nat :=
  match s.handler with
  | .idle => if s.work.pending = .queued then 2 * prog.rounds + 3 else 0
  | .test => 2 * (prog.rounds - s.i) + 2
  | .body => 2 * (prog.rounds - (s.i + 1)) + 3
  | .leaving => 1

theorem stepsLeft_le (s : State) : stepsLeft prog s ≤ 2 * prog.rounds + 3 := by
  unfold stepsLeft
  cases s.handler with
  | idle => dsimp only; split <;> omega
  | test | body | leaving => dsimp only; omega

theorem Inv.stopWorkFlag (h : Inv prog s) (hf : Flushing s) : s.stopWorkFlag = prog.raises := by
  have hphase := h.phase
  rwa [hf] at hphase

theorem worker_step (h : Inv prog s) (hf : Flushing s) (hs : step prog s e = some s')
    (he : e.isWorker = true) : stepsLeft prog s' < stepsLeft prog s := by
  have hspec := step_spec hs
  cases e with
  | workStart =>
    obtain ⟨hqueued, hrunning, rfl⟩ := hspec
    have hidle : s.handler = .idle := by simpa [hrunning] using h.running
    simp [stepsLeft, hidle, hqueued]
  | test =>
    obtain ⟨hpc, rfl⟩ := hspec
    rw [h.stopWorkFlag hf]
    cases hagain : prog.again prog.raises s.i with
    | false => simp [stepsLeft, hpc]
    | true =>
      have hlt : s.i < prog.rounds := by
        by_contra hle
        rw [prog.ends s.i (Nat.not_lt.mp hle)] at hagain
        cases hagain
      simp only [stepsLeft, hpc, if_true]
      omega
  | body =>
    obtain ⟨hpc, rfl⟩ := hspec
    simp [stepsLeft, hpc]
  | workFinish =>
    obtain ⟨hpc, rfl⟩ := hspec
    have hclear : s.work.pending = .clear := by simpa [hpc] using h.pending
    simp [stepsLeft, hpc, hclear]
  | insmod | queueWork | exit | flushWork | rmmod => cases he

/-- While `my_exit` waits, nothing but the worker takes a step. -/
theorem isWorker_of_flushing (hf : Flushing s) (hf' : Flushing s')
    (hs : step prog s e = some s') : e.isWorker = true := by
  have hspec := step_spec hs
  unfold Flushing at hf hf'
  cases e with
  | workStart | test | body | workFinish => rfl
  | insmod | queueWork | exit | rmmod =>
    rw [hf] at hspec
    cases hspec.1
  | flushWork =>
    obtain ⟨-, -, -, rfl⟩ := hspec
    cases hf'

theorem Inv.progress (h : Inv prog s) (hf : Flushing s) :
    (step prog s .flushWork).isSome ∨
      ∃ e : Event, e.isWorker = true ∧ (step prog s e).isSome := by
  unfold Flushing at hf
  cases hpc : s.handler with
  | idle =>
    have hrunning : s.work.running = false := by simpa [hpc] using h.running
    rcases h.pending with hclear | ⟨hqueued, -⟩
    · exact .inl (by simp [step, hf, Work.flush, hclear, hrunning])
    · exact .inr ⟨.workStart, rfl, by simp [step, Work.start, hqueued, hrunning]⟩
  | test => exact .inr ⟨.test, rfl, by simp [step, hpc]⟩
  | body => exact .inr ⟨.body, rfl, by simp [step, hpc]⟩
  | leaving =>
    have hrunning : s.work.running = true := by simpa [hpc] using h.running
    exact .inr ⟨.workFinish, rfl, by simp [step, hpc, Work.finish, hrunning]⟩

theorem silent_of_resting (hrest : Resting s) (he : e.isWorker = true) : step prog s e = none := by
  obtain ⟨hclear, hidle⟩ := hrest
  cases e with
  | workStart => simp [step, Work.start, hclear]
  | test | body | workFinish => simp [step, hidle]
  | insmod | queueWork | exit | flushWork | rmmod => cases he

/-- **Handlers that end.** Behind the first statements of `my_exit` the worker
has a bounded number of steps left, `flush_work` returns, and behind it the
handler is not called again. -/
theorem work_shutdown (prog : Program) :
    (driver prog).Shutdown Event.isWorker .flushWork Flushing
      (fun s => s.phase = .flushed ∨ s.phase = .absent) (2 * prog.rounds + 3) := by
  refine Machine.shutdown_of_inv (I := Inv prog) (μ := stepsLeft prog) inv_init
    (fun _ _ _ => inv_step) ?_ ?_ (fun s _ => stepsLeft_le s) (fun s h => h.progress) ?_
  · exact fun s e s' h hf _ hs he => worker_step h hf hs he
  · intro s e s' _ hf hf' hs he
    rw [isWorker_of_flushing hf hf' hs] at he
    cases he
  · intro s e h hgone he
    have hphase := h.phase
    refine silent_of_resting (?_ : Resting s) he
    rcases hgone with hp | hp <;> rwa [hp] at hphase

/-! ## Before `my_exit` -/

/-- The item is queued or its function has not left its loop. -/
def Busy (s : State) : Prop :=
  s.work.pending = .queued ∨ s.handler = .test ∨ s.handler = .body

/-- Before `my_exit` the flag is clear, and the loop of
`Binding_custom_workqueue.c` looks at nothing else. -/
theorem busy_step (h : Inv binding s) (hbusy : s.phase = .loaded → Busy s)
    (hs : step binding s e = some s') (hloaded : s'.phase = .loaded) : Busy s' := by
  have hspec := step_spec hs
  have hphase := h.phase
  cases e with
  | insmod created =>
    obtain ⟨habsent, rfl⟩ := hspec
    cases created with
    | false =>
      have hp : s.phase = .loaded := hloaded
      rw [habsent] at hp
      cases hp
    | true => cases hloaded
  | queueWork =>
    obtain ⟨hsetUp, rfl⟩ := hspec
    rw [hsetUp] at hphase
    exact .inl (Work.schedule_queued (by simp [hphase.2.1]))
  | workStart =>
    obtain ⟨-, -, rfl⟩ := hspec
    exact .inr (.inl rfl)
  | test =>
    obtain ⟨-, rfl⟩ := hspec
    have hp : s.phase = .loaded := hloaded
    rw [hp] at hphase
    have hflag : s.stopWorkFlag = false := hphase
    exact .inr (.inr (by simp [hflag, binding]))
  | body =>
    obtain ⟨-, rfl⟩ := hspec
    exact .inr (.inl rfl)
  | workFinish =>
    obtain ⟨hpc, rfl⟩ := hspec
    have hp : s.phase = .loaded := hloaded
    have hqueued : s.work.pending = .queued := by simpa [Busy, hpc] using hbusy hp
    exact .inl hqueued
  | exit =>
    obtain ⟨-, rfl⟩ := hspec
    cases hloaded
  | flushWork =>
    obtain ⟨-, -, -, rfl⟩ := hspec
    cases hloaded
  | rmmod =>
    obtain ⟨-, rfl⟩ := hspec
    cases hloaded

theorem busy_of_loaded (h : (driver binding).Reachable s) (hloaded : s.phase = .loaded) :
    Busy s := by
  have hboth : Inv binding s ∧ (s.phase = .loaded → Busy s) := by
    refine h.inv (I := fun s => Inv binding s ∧ (s.phase = .loaded → Busy s))
      ⟨inv_init, nofun⟩ ?_
    exact fun s e s' hI hs => ⟨inv_step hI.1 hs, busy_step hI.1 hI.2 hs⟩
  exact hboth.2 hloaded

/-- **The two handlers.** The loop that looks at the flag has no end before
`my_exit`, and three steps are left of it behind; the other has at most
twenty-three left. Both times `flush_work` returns, and behind it no handler is
called. -/
theorem handlers_shutdown :
    (∀ s, (driver binding).Reachable s → s.phase = .loaded → Busy s) ∧
      (driver binding).Shutdown Event.isWorker .flushWork Flushing
        (fun s => s.phase = .flushed ∨ s.phase = .absent) 3 ∧
      (driver plain).Shutdown Event.isWorker .flushWork Flushing
        (fun s => s.phase = .flushed ∨ s.phase = .absent) 23 :=
  ⟨fun _ h hloaded => busy_of_loaded h hloaded, work_shutdown binding, work_shutdown plain⟩

end KernelSpace.Workqueue
