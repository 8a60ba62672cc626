import Mathlib.Data.List.Infix
import Mathlib.Tactic.SplitIfs
import KernelSpace.Kernel.Errno
import KernelSpace.Kernel.Workqueue
import KernelSpace.Lib.Machine

/-!
# WorkqueueIrq — interrupt, work item and unbind (17)

`17.Workqueue_IRQ/Workqueue_IRQ.c`: `button_irq` schedules `my_work_func`,
both use the `my_device` that `my_probe` got from `devm_kzalloc`. The driver
core releases what the probe acquired in reverse order after `my_remove` has
returned, and after a probe that failed. A step is one of

* `button`, `scheduleWork`, `irqReturn` — the handler is called, calls
  `schedule_work`, returns;
* `workStart`, `workFinish` — a worker calls `my_work_func`, which returns;
* `remove`, `cancelled` — `my_remove` enters and leaves `cancel_work_sync`;
* `freeIrq`, `irqFreed` — the release of the interrupt line: no handler
  starts any more, then the one that is running has returned;
* `release` — the release of any other resource.

`cancel_work_sync` leaves the interrupt enabled, so the handler can schedule
the work again before the line is freed; nothing cancels it then.
-/

namespace KernelSpace.WorkqueueIrq

open KernelSpace.Kernel KernelSpace.Lib

/-! ## The driver -/

/-- What `my_probe` acquires. -/
inductive Resource where
  | mydev
  | gpio
  | irq
deriving DecidableEq

/-- What the calls of `my_probe` return. -/
structure ProbeEnv where
  allocated : Bool
  gpioIsValid : Bool
  gpioRequest : Int
  irqRequest : Int

/-- The return value and the managed resources, the last acquired first. -/
def myProbe (env : ProbeEnv) : Int × List Resource :=
  if ¬ env.allocated then (-ENOMEM, [])
  else if ¬ env.gpioIsValid then (-EINVAL, [.mydev])
  else if env.gpioRequest ≠ 0 then (env.gpioRequest, [.mydev])
  else if env.irqRequest ≠ 0 then (env.irqRequest, [.gpio, .mydev])
  else (0, [.irq, .gpio, .mydev])

/-- Where the unbinding stands. -/
inductive Phase where
  | bound
  | cancelling
  | removed
deriving DecidableEq

/-- Where the handler stands. -/
inductive IrqPc where
  | idle
  | entered
  | scheduled
deriving DecidableEq

structure State where
  devres : List Resource
  phase : Phase
  freeing : Bool
  handler : IrqPc
  work : Work
deriving DecidableEq

/-- The device after its probe; a failed probe is not followed by `my_remove`. -/
def State.probed (env : ProbeEnv) : State where
  devres := (myProbe env).2
  phase := if (myProbe env).1 = 0 then .bound else .removed
  freeing := false
  handler := .idle
  work := .init

inductive Event where
  | button
  | scheduleWork
  | irqReturn
  | workStart
  | workFinish
  | remove
  | cancelled
  | freeIrq
  | irqFreed
  | release
deriving DecidableEq

def step (s : State) : Event → Option State
  | .button =>
    if .irq ∈ s.devres ∧ s.freeing = false ∧ s.handler = .idle then
      some { s with handler := .entered }
    else none
  | .scheduleWork =>
    if s.handler = .entered then
      some { s with handler := .scheduled, work := s.work.schedule }
    else none
  | .irqReturn => if s.handler = .scheduled then some { s with handler := .idle } else none
  | .workStart => s.work.start.map fun work => { s with work }
  | .workFinish => s.work.finish.map fun work => { s with work }
  | .remove =>
    if s.phase = .bound then s.work.grab.map fun work => { s with phase := .cancelling, work }
    else none
  | .cancelled =>
    if s.phase = .cancelling then s.work.cancelled.map fun work => { s with phase := .removed, work }
    else none
  | .freeIrq =>
    if s.phase = .removed ∧ s.devres.head? = some .irq ∧ s.freeing = false then
      some { s with freeing := true }
    else none
  | .irqFreed =>
    if s.freeing = true ∧ s.handler = .idle then
      some { s with devres := s.devres.tail, freeing := false }
    else none
  | .release =>
    if s.phase = .removed ∧ s.devres ≠ [] ∧ s.devres.head? ≠ some .irq then
      some { s with devres := s.devres.tail }
    else none

/-- The device from its probe on. -/
def device (env : ProbeEnv) : Machine State Event := ⟨.probed env, step⟩

/-! ## The memory and the work -/

/-- The item is neither pending nor running once `my_device` is freed. -/
def Safe (s : State) : Prop :=
  .mydev ∉ s.devres → s.work.pending = .clear ∧ s.work.running = false

instance (s : State) : Decidable (Safe s) :=
  inferInstanceAs
    (Decidable (.mydev ∉ s.devres → s.work.pending = .clear ∧ s.work.running = false))

/-- The handler does not schedule the work after `my_remove` has returned. -/
def InTime (s : State) : Event → Prop
  | .scheduleWork => s.phase ≠ .removed
  | _ => True

instance (s : State) : (e : Event) → Decidable (InTime s e)
  | .scheduleWork => inferInstanceAs (Decidable (s.phase ≠ .removed))
  | .button | .irqReturn | .workStart | .workFinish | .remove | .cancelled | .freeIrq | .irqFreed
  | .release => isTrue trivial

/-! ## What each event does -/

theorem step_spec {s s' : State} {e : Event} (h : step s e = some s') :
    match e with
    | .button => .irq ∈ s.devres ∧ s' = { s with handler := .entered }
    | .scheduleWork =>
      s.handler = .entered ∧ s' = { s with handler := .scheduled, work := s.work.schedule }
    | .irqReturn => s' = { s with handler := .idle }
    | .workStart => ∃ work, s.work.start = some work ∧ s' = { s with work }
    | .workFinish => ∃ work, s.work.finish = some work ∧ s' = { s with work }
    | .remove =>
      s.phase = .bound ∧ ∃ work, s.work.grab = some work ∧
        s' = { s with phase := .cancelling, work }
    | .cancelled =>
      s.phase = .cancelling ∧ ∃ work, s.work.cancelled = some work ∧
        s' = { s with phase := .removed, work }
    | .freeIrq =>
      s.phase = .removed ∧ s.devres.head? = some .irq ∧ s' = { s with freeing := true }
    | .irqFreed =>
      s.freeing = true ∧ s.handler = .idle ∧
        s' = { s with devres := s.devres.tail, freeing := false }
    | .release =>
      s.phase = .removed ∧ s.devres ≠ [] ∧ s.devres.head? ≠ some .irq ∧
        s' = { s with devres := s.devres.tail } := by
  cases e with
  | button =>
    obtain ⟨hguard, hs⟩ := Option.ite_none_right_eq_some.mp h
    exact ⟨hguard.1, (Option.some.inj hs).symm⟩
  | scheduleWork =>
    obtain ⟨hguard, hs⟩ := Option.ite_none_right_eq_some.mp h
    exact ⟨hguard, (Option.some.inj hs).symm⟩
  | irqReturn =>
    obtain ⟨-, hs⟩ := Option.ite_none_right_eq_some.mp h
    exact (Option.some.inj hs).symm
  | workStart =>
    obtain ⟨work, hwork, hs⟩ := Option.map_eq_some_iff.mp h
    exact ⟨work, hwork, hs.symm⟩
  | workFinish =>
    obtain ⟨work, hwork, hs⟩ := Option.map_eq_some_iff.mp h
    exact ⟨work, hwork, hs.symm⟩
  | remove =>
    obtain ⟨hguard, hmap⟩ := Option.ite_none_right_eq_some.mp h
    obtain ⟨work, hwork, hs⟩ := Option.map_eq_some_iff.mp hmap
    exact ⟨hguard, work, hwork, hs.symm⟩
  | cancelled =>
    obtain ⟨hguard, hmap⟩ := Option.ite_none_right_eq_some.mp h
    obtain ⟨work, hwork, hs⟩ := Option.map_eq_some_iff.mp hmap
    exact ⟨hguard, work, hwork, hs.symm⟩
  | freeIrq =>
    obtain ⟨hguard, hs⟩ := Option.ite_none_right_eq_some.mp h
    exact ⟨hguard.1, hguard.2.1, (Option.some.inj hs).symm⟩
  | irqFreed =>
    obtain ⟨hguard, hs⟩ := Option.ite_none_right_eq_some.mp h
    exact ⟨hguard.1, hguard.2, (Option.some.inj hs).symm⟩
  | release =>
    obtain ⟨hguard, hs⟩ := Option.ite_none_right_eq_some.mp h
    exact ⟨hguard.1, hguard.2.1, hguard.2.2, (Option.some.inj hs).symm⟩

/-! ## What every run keeps -/

structure Wf (s : State) : Prop where
  order : s.devres <:+ [.irq, .gpio, .mydev]
  /-- Nothing is released before `my_remove` has returned. -/
  held : s.phase ≠ .removed → .mydev ∈ s.devres
  grabbed : s.phase = .cancelling → s.work.pending = .grabbed
  released : s.phase = .removed → s.work.pending ≠ .grabbed
  /-- The line is freed only when no handler runs. -/
  handling : s.handler ≠ .idle → .irq ∈ s.devres
  freeing : s.freeing = true → s.phase = .removed ∧ .irq ∈ s.devres

theorem myProbe_order (env : ProbeEnv) : (myProbe env).2 <:+ [.irq, .gpio, .mydev] := by
  have hgpio : [.gpio, .mydev] <:+ [Resource.irq, .gpio, .mydev] := by decide
  have hmydev : [.mydev] <:+ [Resource.irq, .gpio, .mydev] := by decide
  unfold myProbe
  split_ifs
  exacts [hmydev, hgpio, List.suffix_refl _, hmydev, List.nil_suffix]

theorem mydev_of_probed {env : ProbeEnv} (h : (myProbe env).1 = 0) :
    .mydev ∈ (myProbe env).2 := by
  unfold myProbe at h ⊢
  split_ifs at h ⊢ <;> simp_all [ENOMEM, EINVAL]

theorem wf_probed (env : ProbeEnv) : Wf (.probed env) where
  order := myProbe_order env
  held hp := by
    by_cases h : (myProbe env).1 = 0
    · exact mydev_of_probed h
    · exact absurd (if_neg h) hp
  grabbed hp := by
    simp only [State.probed] at hp
    split at hp <;> cases hp
  released _ := nofun
  handling h := absurd rfl h
  freeing h := by cases h

/-- A device that has its interrupt line has everything. -/
theorem Wf.devres_eq {s : State} (h : Wf s) (hirq : .irq ∈ s.devres) :
    s.devres = [.irq, .gpio, .mydev] := by
  rcases List.suffix_cons_iff.mp h.order with hall | hrest
  · exact hall
  · have hmem : Resource.irq ∉ [Resource.gpio, .mydev] := by decide
    exact absurd (hrest.subset hirq) hmem

theorem Wf.next {s s' : State} {e : Event} (h : Wf s) (hs : step s e = some s') : Wf s' := by
  have hspec := step_spec hs
  cases e with
  | button =>
    obtain ⟨hirq, rfl⟩ := hspec
    exact ⟨h.order, h.held, h.grabbed, h.released, fun _ => hirq, h.freeing⟩
  | scheduleWork =>
    obtain ⟨hentered, rfl⟩ := hspec
    have hirq : .irq ∈ s.devres := h.handling (by rw [hentered]; decide)
    -- a no-op while `cancel_work_sync` holds PENDING, a queued item otherwise
    refine ⟨h.order, h.held, fun hp => ?_, fun hp => ?_, fun _ => hirq, h.freeing⟩
    · show s.work.schedule.pending = .grabbed
      rw [Work.schedule_grabbed (h.grabbed hp), h.grabbed hp]
    · show s.work.schedule.pending ≠ .grabbed
      rw [Work.schedule_queued (h.released hp)]
      decide
  | irqReturn =>
    obtain rfl : s' = { s with handler := .idle } := hspec
    exact ⟨h.order, h.held, h.grabbed, h.released, fun hp => absurd rfl hp, h.freeing⟩
  | workStart =>
    obtain ⟨work, hwork, rfl⟩ := hspec
    have hqueued := Work.start_pending hwork
    cases Work.start_eq hwork
    refine ⟨h.order, h.held, fun hp => ?_, fun _ => nofun, h.handling, h.freeing⟩
    cases hqueued.symm.trans (h.grabbed hp)
  | workFinish =>
    obtain ⟨work, hwork, rfl⟩ := hspec
    have hpending := Work.finish_pending hwork
    exact ⟨h.order, h.held, fun hp => hpending.trans (h.grabbed hp),
      fun hp => hpending ▸ h.released hp, h.handling, h.freeing⟩
  | remove =>
    obtain ⟨hbound, work, hwork, rfl⟩ := hspec
    refine ⟨h.order, fun _ => h.held (by rw [hbound]; decide), fun _ => Work.grab_pending hwork,
      nofun, h.handling, fun hf => ?_⟩
    cases hbound.symm.trans (h.freeing hf).1
  | cancelled =>
    obtain ⟨hcancelling, work, hwork, rfl⟩ := hspec
    cases Work.cancelled_eq hwork
    exact ⟨h.order, fun hp => absurd rfl hp, nofun, fun _ => nofun, h.handling,
      fun hf => ⟨rfl, (h.freeing hf).2⟩⟩
  | freeIrq =>
    obtain ⟨hremoved, hhead, rfl⟩ := hspec
    exact ⟨h.order, h.held, h.grabbed, h.released, h.handling,
      fun _ => ⟨hremoved, List.mem_of_mem_head? hhead⟩⟩
  | irqFreed =>
    obtain ⟨hfreeing, hidle, rfl⟩ := hspec
    obtain ⟨hremoved, -⟩ := h.freeing hfreeing
    exact ⟨(List.tail_suffix _).trans h.order, fun hp => absurd hremoved hp, h.grabbed, h.released,
      fun hp => absurd hidle hp, nofun⟩
  | release =>
    obtain ⟨hremoved, -, hhead, rfl⟩ := hspec
    -- the line is released on its own, so it was gone before
    have hirq : .irq ∉ s.devres := by
      intro hirq
      rw [h.devres_eq hirq] at hhead
      exact hhead rfl
    exact ⟨(List.tail_suffix _).trans h.order, fun hp => absurd hremoved hp, h.grabbed, h.released,
      fun hp => absurd (h.handling hp) hirq, fun hf => absurd (h.freeing hf).2 hirq⟩

/-! ## Runs without a late interrupt -/

/-- After `my_remove` the item stays as `cancel_work_sync` left it. -/
structure Settled (s : State) : Prop where
  wf : Wf s
  idle : s.phase = .removed → s.work = .init

theorem settled_probed (env : ProbeEnv) : Settled (.probed env) := ⟨wf_probed env, fun _ => rfl⟩

theorem Settled.safe {s : State} (h : Settled s) : Safe s := by
  intro hfreed
  have hremoved : s.phase = .removed := by
    by_contra hp
    exact hfreed (h.wf.held hp)
  rw [h.idle hremoved]
  exact ⟨rfl, rfl⟩

theorem Settled.next {s s' : State} {e : Event} (h : Settled s) (he : InTime s e)
    (hs : step s e = some s') : Settled s' := by
  refine ⟨h.wf.next hs, ?_⟩
  have hspec := step_spec hs
  cases e with
  | scheduleWork =>
    obtain ⟨-, rfl⟩ := hspec
    exact fun hp => absurd hp he
  | workStart =>
    obtain ⟨work, hwork, rfl⟩ := hspec
    intro hp
    rw [h.idle hp] at hwork
    cases hwork
  | workFinish =>
    obtain ⟨work, hwork, rfl⟩ := hspec
    intro hp
    rw [h.idle hp] at hwork
    cases hwork
  | remove =>
    obtain ⟨-, work, -, rfl⟩ := hspec
    exact nofun
  | cancelled =>
    obtain ⟨-, work, hwork, rfl⟩ := hspec
    exact fun _ => Work.cancelled_eq hwork
  | button =>
    obtain ⟨-, rfl⟩ := hspec
    exact h.idle
  | irqReturn =>
    obtain rfl : s' = { s with handler := .idle } := hspec
    exact h.idle
  | freeIrq =>
    obtain ⟨-, -, rfl⟩ := hspec
    exact h.idle
  | irqFreed =>
    obtain ⟨-, -, rfl⟩ := hspec
    exact h.idle
  | release =>
    obtain ⟨-, -, -, rfl⟩ := hspec
    exact h.idle

/-! ## After a late interrupt -/

/-- The handler has queued the item behind `cancel_work_sync`: the releases
may all come before a worker does. -/
theorem unsafe_of_late {env : ProbeEnv} {s s' : State} {e : Event} (h : Wf s)
    (hs : step s e = some s') (he : ¬ InTime s e) :
    ∃ fs t, (device env).exec s' fs = some t ∧ ¬ Safe t := by
  cases e with
  | scheduleWork =>
    obtain ⟨hentered, rfl⟩ := step_spec hs
    have hremoved : s.phase = .removed := not_not.mp he
    have hdevres := h.devres_eq (h.handling (by rw [hentered]; decide))
    have hqueued := Work.schedule_queued (h.released hremoved)
    have hunsafe : ¬ Safe { s with devres := [], freeing := false, handler := .idle,
                                   work := s.work.schedule } := by
      intro hsafe
      cases hqueued.symm.trans (hsafe List.not_mem_nil).1
    -- the line has its handler to wait for, and may already be waiting for it
    cases s.freeing with
    | false =>
      refine ⟨[.irqReturn, .freeIrq, .irqFreed, .release, .release], _, ?_, hunsafe⟩
      simp [device, Machine.exec, step, hremoved, hdevres]
    | true =>
      refine ⟨[.irqReturn, .irqFreed, .release, .release], _, ?_, hunsafe⟩
      simp [device, Machine.exec, step, hremoved, hdevres]
  | button | irqReturn | workStart | workFinish | remove | cancelled | freeIrq | irqFreed
  | release => exact absurd trivial he

/-- **The memory outlives the work** in every run in which the handler does
not schedule it after `my_remove` has returned; and any run up to a step that
does can go on to free the memory with the item queued. -/
theorem mydev_outlives_work (env : ProbeEnv) {es : List Event} {s : State}
    (h : (device env).Reaches es s) :
    ((device env).Along InTime (.probed env) es → (device env).Always Safe (.probed env) es) ∧
      ∀ e s', step s e = some s' → ¬ InTime s e →
        ∃ fs t, (device env).exec s' fs = some t ∧ ¬ Safe t := by
  have hwf : Wf s := Machine.Reachable.inv (wf_probed env) (fun _ _ _ => Wf.next) ⟨es, h⟩
  exact ⟨Machine.always_of_inv (fun _ => Settled.safe) (fun _ _ _ => Settled.next)
    (settled_probed env), fun _ _ => unsafe_of_late hwf⟩

/-- Every call of the probe succeeds. -/
def probeOk : ProbeEnv := ⟨true, true, 0, 0⟩

/-- A press while the work is being cancelled, and one after `my_remove`. -/
def latePress : List Event :=
  [.button, .scheduleWork, .irqReturn, .workStart, .remove, .button, .scheduleWork, .irqReturn,
    .workFinish, .cancelled, .button, .scheduleWork, .irqReturn, .freeIrq, .irqFreed, .release,
    .release]

theorem latePress_run : ((device probeOk).exec (.probed probeOk) latePress).isSome := by decide

/-- The first ten steps of `latePress` and the releases. -/
def earlyPress : List Event := latePress.take 10 ++ [.freeIrq, .irqFreed, .release, .release]

theorem earlyPress_run : ((device probeOk).exec (.probed probeOk) earlyPress).isSome := by decide

theorem mydev_outlives_work_early_press :
    (device probeOk).Always Safe (.probed probeOk) earlyPress :=
  (mydev_outlives_work probeOk (Option.some_get earlyPress_run).symm).1 (by decide)

theorem late_press_outlives_mydev :
    ¬ ∀ env es s, (device env).Reaches es s → Safe s := by
  intro h
  have hsafe := h probeOk latePress _ (Option.some_get latePress_run).symm
  revert hsafe
  decide

end KernelSpace.WorkqueueIrq
