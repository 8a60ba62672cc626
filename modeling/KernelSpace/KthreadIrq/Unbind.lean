import Mathlib.Data.List.Infix
import KernelSpace.Kernel.Errno
import KernelSpace.KthreadIrq.Events

/-!
# KthreadIrq — probe, unbind and the life of my_device (18)

The device of `KthreadIrq.Events` from the start of `my_probe` to the last
release. `button_irq` and `thread_fn` use the `my_device` that `my_probe` got
from `devm_kzalloc`; the driver core releases what the probe acquired in
reverse order, after `my_remove` and after a probe that failed. A step is one
of

* `probe` — the next call of `my_probe`, `kthread_run` the last of them;
* `irqEnter`, `irqStore`, `irqWake`, `irqReturn` — the handler is called, from
  `devm_request_irq` on, sets the flag, wakes the queue and returns;
* `thread` — the next step of `thread_fn`;
* `remove`, `stopWake`, `stopReturn` — `my_remove` enters `kthread_stop`, which
  wakes the thread and returns when it has exited;
* `freeIrq`, `irqFreed` — the release of the interrupt line: no handler starts
  any more, then the one that is running has returned;
* `release` — the release of any other resource.

The order in the probe is what makes it safe: the interrupt line is acquired
after the memory, so it is freed before it, and the thread is started last, so
that no failure of the probe leaves it running.
-/

namespace KernelSpace.KthreadIrq.Unbind

open KernelSpace.Kernel KernelSpace.Lib

/-! ## my_probe -/

/-- What the driver core releases. -/
inductive Resource where
  | mydev
  | gpio
  | irq
deriving DecidableEq

/-- What the calls of `my_probe` return; 0 for a thread that is no error. -/
structure ProbeEnv where
  allocated : Bool
  gpioIsValid : Bool
  gpioRequest : Int
  irqRequest : Int
  kthreadRun : Int

/-- The next call of `my_probe`. -/
inductive ProbePc where
  | alloc
  | gpioGet
  | gpioRequest
  | irqRequest
  | kthreadRun
deriving DecidableEq

/-- What a call of `my_probe` comes to: the next one with what this one has
acquired, or the return value. -/
inductive Outcome where
  | goto (pc : ProbePc) (acquired : List Resource)
  | ret (ret : Int)

def probeStep (env : ProbeEnv) : ProbePc → Outcome
  | .alloc => if ¬ env.allocated then .ret (-ENOMEM) else .goto .gpioGet [.mydev]
  | .gpioGet => if ¬ env.gpioIsValid then .ret (-EINVAL) else .goto .gpioRequest []
  | .gpioRequest =>
    if env.gpioRequest ≠ 0 then .ret env.gpioRequest else .goto .irqRequest [.gpio]
  | .irqRequest => if env.irqRequest ≠ 0 then .ret env.irqRequest else .goto .kthreadRun [.irq]
  | .kthreadRun => .ret env.kthreadRun

/-! ## The device -/

/-- Where the device stands. -/
inductive Phase where
  | probing (pc : ProbePc)
  | bound
  | stopping
  | releasing
deriving DecidableEq

/-- Where the handler stands. -/
inductive HandlerPc where
  | idle
  | entered
  | stored
  | woken
deriving DecidableEq

/-- `shared` is what the handler, the thread and `kthread_stop` share; its
thread makes no step before it is `started`. -/
structure State where
  shared : KthreadIrq.State
  started : Bool
  handler : HandlerPc
  devres : List Resource
  phase : Phase
  freeing : Bool

def State.init : State := ⟨.probed, false, .idle, [], .probing .alloc, false⟩

inductive Event where
  | probe
  | irqEnter
  | irqStore
  | irqWake
  | irqReturn
  | thread
  | remove
  | stopWake
  | stopReturn
  | freeIrq
  | irqFreed
  | release
deriving DecidableEq

/-- The device after a call of `my_probe`. A probe that returns 0 has started
the thread; one that fails is not followed by `my_remove`. -/
def State.probed (s : State) : Outcome → State
  | .goto pc acquired => { s with phase := .probing pc, devres := acquired ++ s.devres }
  | .ret ret =>
    if ret = 0 then { s with phase := .bound, started := true } else { s with phase := .releasing }

/-- A step of what is shared. -/
def State.share (s : State) (e : KthreadIrq.Event) : Option State :=
  (KthreadIrq.step s.shared e).map fun shared => { s with shared }

def step (env : ProbeEnv) (s : State) : Event → Option State
  | .probe =>
    match s.phase with
    | .probing pc => some (s.probed (probeStep env pc))
    | _ => none
  | .irqEnter =>
    if .irq ∈ s.devres ∧ s.freeing = false ∧ s.handler = .idle then
      some { s with handler := .entered }
    else none
  | .irqStore =>
    if s.handler = .entered then { s with handler := .stored }.share .irqStore else none
  | .irqWake => if s.handler = .stored then { s with handler := .woken }.share .irqWake else none
  | .irqReturn => if s.handler = .woken then some { s with handler := .idle } else none
  | .thread => if s.started then s.share .thread else none
  | .remove => if s.phase = .bound then { s with phase := .stopping }.share .stopSet else none
  | .stopWake => if s.phase = .stopping then s.share .stopWake else none
  | .stopReturn =>
    if s.phase = .stopping then { s with phase := .releasing }.share .stopReturn else none
  | .freeIrq =>
    if s.phase = .releasing ∧ s.devres.head? = some .irq ∧ s.freeing = false then
      some { s with freeing := true }
    else none
  | .irqFreed =>
    if s.freeing = true ∧ s.handler = .idle then
      some { s with devres := s.devres.tail, freeing := false }
    else none
  | .release =>
    if s.phase = .releasing ∧ s.devres ≠ [] ∧ s.devres.head? ≠ some .irq then
      some { s with devres := s.devres.tail }
    else none

/-- The device from the start of its probe on. -/
def device (env : ProbeEnv) : Machine State Event := ⟨.init, step env⟩

/-! ## The memory -/

/-- The step of `button_irq` or `thread_fn` that reads or writes `my_device`:
the flag and the queue, which the wait uses to its end. -/
def touches (s : State) : Event → Bool
  | .irqStore => s.handler = .entered
  | .irqWake => s.handler = .stored
  | .thread =>
    match s.shared.thread with
    | .waiting _ | .clear => s.started
    | _ => false
  | _ => false

/-- The event does not touch a `my_device` that is freed. -/
def Live (s : State) (e : Event) : Prop := touches s e = true → .mydev ∈ s.devres

instance (s : State) (e : Event) : Decidable (Live s e) :=
  inferInstanceAs (Decidable (touches s e = true → .mydev ∈ s.devres))

/-! ## What each event does -/

theorem share_spec {s s' : State} {e : KthreadIrq.Event} (h : s.share e = some s') :
    ∃ shared, KthreadIrq.step s.shared e = some shared ∧ s' = { s with shared } := by
  obtain ⟨shared, hshared, rfl⟩ := Option.map_eq_some_iff.mp h
  exact ⟨shared, hshared, rfl⟩

theorem step_spec {env : ProbeEnv} {s s' : State} {e : Event} (h : step env s e = some s') :
    match e with
    | .probe => ∃ pc, s.phase = .probing pc ∧ s' = s.probed (probeStep env pc)
    | .irqEnter =>
      .irq ∈ s.devres ∧ s.handler = .idle ∧ s' = { s with handler := .entered }
    | .irqStore =>
      s.handler = .entered ∧ ∃ shared, KthreadIrq.step s.shared .irqStore = some shared ∧
        s' = { s with handler := .stored, shared }
    | .irqWake =>
      s.handler = .stored ∧ ∃ shared, KthreadIrq.step s.shared .irqWake = some shared ∧
        s' = { s with handler := .woken, shared }
    | .irqReturn => s.handler = .woken ∧ s' = { s with handler := .idle }
    | .thread =>
      s.started = true ∧ ∃ shared, KthreadIrq.step s.shared .thread = some shared ∧
        s' = { s with shared }
    | .remove =>
      s.phase = .bound ∧ ∃ shared, KthreadIrq.step s.shared .stopSet = some shared ∧
        s' = { s with phase := .stopping, shared }
    | .stopWake =>
      s.phase = .stopping ∧ ∃ shared, KthreadIrq.step s.shared .stopWake = some shared ∧
        s' = { s with shared }
    | .stopReturn =>
      s.phase = .stopping ∧ ∃ shared, KthreadIrq.step s.shared .stopReturn = some shared ∧
        s' = { s with phase := .releasing, shared }
    | .freeIrq =>
      s.phase = .releasing ∧ s.devres.head? = some .irq ∧ s' = { s with freeing := true }
    | .irqFreed =>
      s.freeing = true ∧ s.handler = .idle ∧
        s' = { s with devres := s.devres.tail, freeing := false }
    | .release =>
      s.phase = .releasing ∧ s.devres.head? ≠ some .irq ∧
        s' = { s with devres := s.devres.tail } := by
  cases e with
  | probe =>
    simp only [step] at h
    split at h
    · rename_i pc hpc
      exact ⟨pc, hpc, (Option.some.inj h).symm⟩
    · cases h
  | irqEnter =>
    obtain ⟨⟨hirq, -, hidle⟩, hs⟩ := Option.ite_none_right_eq_some.mp h
    exact ⟨hirq, hidle, (Option.some.inj hs).symm⟩
  | irqStore | irqWake | thread | remove | stopWake | stopReturn =>
    obtain ⟨hguard, hs⟩ := Option.ite_none_right_eq_some.mp h
    exact ⟨hguard, share_spec hs⟩
  | irqReturn =>
    obtain ⟨hguard, hs⟩ := Option.ite_none_right_eq_some.mp h
    exact ⟨hguard, (Option.some.inj hs).symm⟩
  | freeIrq =>
    obtain ⟨⟨hphase, hhead, -⟩, hs⟩ := Option.ite_none_right_eq_some.mp h
    exact ⟨hphase, hhead, (Option.some.inj hs).symm⟩
  | irqFreed =>
    obtain ⟨⟨hfreeing, hidle⟩, hs⟩ := Option.ite_none_right_eq_some.mp h
    exact ⟨hfreeing, hidle, (Option.some.inj hs).symm⟩
  | release =>
    obtain ⟨⟨hphase, -, hhead⟩, hs⟩ := Option.ite_none_right_eq_some.mp h
    exact ⟨hphase, hhead, (Option.some.inj hs).symm⟩

theorem driver_reachable_step {t t' : KthreadIrq.State} {e : KthreadIrq.Event}
    (h : driver.Reachable t) (hs : KthreadIrq.step t e = some t') : driver.Reachable t' :=
  h.step (e := e) hs

/-- What the handler, the thread and `kthread_stop` share runs as in
`KthreadIrq.driver`. -/
theorem shared_reachable {env : ProbeEnv} {s : State} (h : (device env).Reachable s) :
    driver.Reachable s.shared := by
  refine Machine.Reachable.inv (I := fun s => driver.Reachable s.shared) .init ?_ h
  intro s e s' hreach hs
  have hspec := step_spec hs
  cases e with
  | probe =>
    obtain ⟨pc, -, rfl⟩ := hspec
    unfold State.probed
    split
    · exact hreach
    · split <;> exact hreach
  | irqEnter | freeIrq | irqFreed | release =>
    obtain ⟨-, -, rfl⟩ := hspec
    exact hreach
  | irqReturn =>
    obtain ⟨-, rfl⟩ := hspec
    exact hreach
  | irqStore | irqWake | thread | remove | stopWake | stopReturn =>
    obtain ⟨-, shared, hshared, rfl⟩ := hspec
    exact driver_reachable_step hreach hshared

/-! ## What every run keeps -/

/-- Everything that a probe acquires, the last acquired first. -/
def allResources : List Resource := [.irq, .gpio, .mydev]

/-- What the probe has acquired before its next call. -/
def ProbePc.acquired : ProbePc → List Resource
  | alloc => []
  | gpioGet | gpioRequest => [.mydev]
  | irqRequest => [.gpio, .mydev]
  | kthreadRun => allResources

structure Wf (s : State) : Prop where
  order : s.devres <:+ allResources
  /-- There is no thread before the last call of the probe. -/
  probing : ∀ pc, s.phase = .probing pc → s.devres = pc.acquired ∧ s.started = false
  held : s.phase = .bound ∨ s.phase = .stopping → s.devres = allResources
  /-- Nothing is released before the thread has exited. -/
  exited : s.phase = .releasing → s.started = true → s.shared.thread = .exited
  /-- The line is freed only when no handler runs. -/
  handling : s.handler ≠ .idle → .irq ∈ s.devres
  freeing : s.freeing = true → s.phase = .releasing ∧ .irq ∈ s.devres

theorem wf_init : Wf .init := by
  refine ⟨List.nil_suffix, ?_, ?_, nofun, fun h => absurd rfl h, nofun⟩
  · intro pc hpc
    cases hpc
    exact ⟨rfl, rfl⟩
  · rintro (h | h) <;> cases h

/-- A device that has its interrupt line has everything. -/
theorem Wf.devres_eq {s : State} (h : Wf s) (hirq : .irq ∈ s.devres) :
    s.devres = allResources := by
  rcases List.suffix_cons_iff.mp h.order with hall | hrest
  · exact hall
  · have hmem : Resource.irq ∉ [Resource.gpio, .mydev] := by decide
    exact absurd (hrest.subset hirq) hmem

/-- A call of the probe acquires what the next one stands on. -/
theorem probeStep_acquired {env : ProbeEnv} {pc pc' : ProbePc} {acquired : List Resource}
    (h : probeStep env pc = .goto pc' acquired) :
    acquired ++ pc.acquired = pc'.acquired ∧ pc'.acquired <:+ allResources := by
  cases pc with
  | alloc | gpioGet | gpioRequest | irqRequest =>
    simp only [probeStep] at h
    split at h <;> cases h
    decide
  | kthreadRun => cases h

/-- Only the start of the thread ends a probe with 0. -/
theorem probeStep_ret {env : ProbeEnv} {pc : ProbePc} (h : probeStep env pc = .ret 0) :
    pc = .kthreadRun := by
  cases pc with
  | alloc | gpioGet =>
    simp only [probeStep] at h
    split at h <;> cases h
  | gpioRequest | irqRequest =>
    simp only [probeStep] at h
    split at h
    · rename_i hfailed
      exact absurd (Outcome.ret.inj h) hfailed
    · cases h
  | kthreadRun => rfl

theorem Wf.probed {env : ProbeEnv} {s : State} (h : Wf s) {pc : ProbePc}
    (hpc : s.phase = .probing pc) : Wf (s.probed (probeStep env pc)) := by
  obtain ⟨hdevres, hstarted⟩ := h.probing pc hpc
  have hfreeing : s.freeing ≠ true := by
    intro hf
    cases hpc.symm.trans (h.freeing hf).1
  cases hout : probeStep env pc with
  | goto pc' acquired =>
    obtain ⟨hacquired, hsuffix⟩ := probeStep_acquired hout
    have hnew : acquired ++ s.devres = pc'.acquired := by rw [hdevres, hacquired]
    refine ⟨?_, ?_, ?_, nofun, ?_, fun hf => absurd hf hfreeing⟩
    · show acquired ++ s.devres <:+ allResources
      rw [hnew]
      exact hsuffix
    · intro pc'' hpc''
      cases hpc''
      exact ⟨hnew, hstarted⟩
    · rintro (hp | hp) <;> cases hp
    · exact fun hrun => List.mem_append_right _ (h.handling hrun)
  | ret ret =>
    rw [State.probed]
    split
    · rename_i hret
      subst hret
      cases probeStep_ret hout
      exact ⟨h.order, nofun, fun _ => hdevres, nofun, h.handling, fun hf => absurd hf hfreeing⟩
    · refine ⟨h.order, nofun, ?_, ?_, h.handling, fun hf => absurd hf hfreeing⟩
      · rintro (hp | hp) <;> cases hp
      · intro _ hs
        cases hstarted.symm.trans hs

theorem Wf.next {env : ProbeEnv} {s s' : State} {e : Event} (h : Wf s)
    (hs : step env s e = some s') : Wf s' := by
  have hspec := step_spec hs
  cases e with
  | probe =>
    obtain ⟨pc, hpc, rfl⟩ := hspec
    exact h.probed hpc
  | irqEnter =>
    obtain ⟨hirq, -, rfl⟩ := hspec
    exact ⟨h.order, h.probing, h.held, h.exited, fun _ => hirq, h.freeing⟩
  | irqStore | irqWake =>
    obtain ⟨hpc, shared, hshared, rfl⟩ := hspec
    have hirq : .irq ∈ s.devres := h.handling (by rw [hpc]; decide)
    obtain ⟨-, heq⟩ := Option.ite_none_right_eq_some.mp hshared
    cases heq
    refine ⟨h.order, h.probing, h.held, ?_, fun _ => hirq, h.freeing⟩
    intro hphase hstarted
    simp [h.exited hphase hstarted, ThreadPc.wake]
  | irqReturn =>
    obtain ⟨-, rfl⟩ := hspec
    exact ⟨h.order, h.probing, h.held, h.exited, fun hp => absurd rfl hp, h.freeing⟩
  | thread =>
    obtain ⟨hstarted, shared, hshared, rfl⟩ := hspec
    refine ⟨h.order, h.probing, h.held, ?_, h.handling, h.freeing⟩
    intro hphase _
    -- the thread has exited, so this was no step of it
    have hexited := h.exited hphase hstarted
    simp [KthreadIrq.step, threadStep, hexited] at hshared
  | remove =>
    obtain ⟨hbound, shared, -, rfl⟩ := hspec
    refine ⟨h.order, ?_, fun _ => h.held (.inl hbound), ?_, h.handling, ?_⟩
    · intro pc hpc
      cases hpc
    · intro hphase
      cases hphase
    · intro hf
      cases hbound.symm.trans (h.freeing hf).1
  | stopWake =>
    obtain ⟨hstopping, shared, -, rfl⟩ := hspec
    refine ⟨h.order, h.probing, h.held, ?_, h.handling, h.freeing⟩
    intro hphase
    cases hstopping.symm.trans hphase
  | stopReturn =>
    obtain ⟨hstopping, shared, hshared, rfl⟩ := hspec
    obtain ⟨⟨-, hexited⟩, heq⟩ := Option.ite_none_right_eq_some.mp hshared
    cases heq
    refine ⟨h.order, ?_, ?_, fun _ _ => hexited, h.handling, ?_⟩
    · intro pc hpc
      cases hpc
    · rintro (hp | hp) <;> cases hp
    · intro hf
      cases hstopping.symm.trans (h.freeing hf).1
  | freeIrq =>
    obtain ⟨hphase, hhead, rfl⟩ := hspec
    exact ⟨h.order, h.probing, h.held, h.exited, h.handling,
      fun _ => ⟨hphase, List.mem_of_mem_head? hhead⟩⟩
  | irqFreed =>
    obtain ⟨hfreeing, hidle, rfl⟩ := hspec
    obtain ⟨hphase, -⟩ := h.freeing hfreeing
    refine ⟨(List.tail_suffix _).trans h.order, ?_, ?_, h.exited, fun hp => absurd hidle hp, ?_⟩
    · intro pc hpc
      cases hphase.symm.trans hpc
    · rintro (hp | hp) <;> cases hphase.symm.trans hp
    · intro hf
      cases hf
  | release =>
    obtain ⟨hphase, hhead, rfl⟩ := hspec
    -- the line is released on its own, so it was gone before
    have hirq : .irq ∉ s.devres := by
      intro hirq
      rw [h.devres_eq hirq] at hhead
      exact hhead rfl
    refine ⟨(List.tail_suffix _).trans h.order, ?_, ?_, h.exited,
      fun hp => absurd (h.handling hp) hirq, fun hf => absurd (h.freeing hf).2 hirq⟩
    · intro pc hpc
      cases hphase.symm.trans hpc
    · rintro (hp | hp) <;> cases hphase.symm.trans hp

/-- The handler and the thread only touch a `my_device` that is there. -/
theorem Wf.live {s : State} (h : Wf s) (e : Event) : Live s e := by
  intro htouch
  have hmydev : Resource.mydev ∈ allResources := by decide
  have hhandler (hrun : s.handler ≠ .idle) : .mydev ∈ s.devres := by
    rw [h.devres_eq (h.handling hrun)]
    exact hmydev
  cases e with
  | irqStore | irqWake =>
    have hpc := of_decide_eq_true htouch
    exact hhandler (by rw [hpc]; decide)
  | thread =>
    obtain ⟨hstarted, hrunning⟩ : s.started = true ∧ s.shared.thread ≠ .exited := by
      simp only [touches] at htouch
      split at htouch
      · exact ⟨htouch, by simp_all⟩
      · exact ⟨htouch, by simp_all⟩
      · cases htouch
    cases hphase : s.phase with
    | probing pc => cases hstarted.symm.trans (h.probing pc hphase).2
    | bound =>
      rw [h.held (.inl hphase)]
      exact hmydev
    | stopping =>
      rw [h.held (.inr hphase)]
      exact hmydev
    | releasing => exact absurd (h.exited hphase hstarted) hrunning
  | probe | irqEnter | irqReturn | remove | stopWake | stopReturn | freeIrq | irqFreed | release =>
    cases htouch

/-- **The memory outlives the handler and the thread**, whichever call of the
probe fails, and however interrupts, the thread and the unbinding interleave. -/
theorem mydev_live (env : ProbeEnv) (s : State) (h : (device env).Reachable s) (e : Event) :
    Live s e :=
  Wf.live (h.inv wf_init fun _ _ _ => Wf.next) e

/-- The thread has been stopped; the interrupt line is still there, and an
interrupt arrives. -/
def stoppedAndPressed : List Event :=
  List.replicate 5 .probe ++ [.remove, .thread, .stopWake, .stopReturn, .irqEnter]

theorem stoppedAndPressed_run :
    ((device ⟨true, true, 0, 0, 0⟩).exec .init stoppedAndPressed).isSome := by decide

theorem mydev_live_stopped :
    Live (((device ⟨true, true, 0, 0, 0⟩).exec .init stoppedAndPressed).get stoppedAndPressed_run)
      .irqStore :=
  mydev_live _ _ ⟨stoppedAndPressed, (Option.some_get stoppedAndPressed_run).symm⟩ .irqStore

end KernelSpace.KthreadIrq.Unbind
