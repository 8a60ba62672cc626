import Mathlib.Data.Fintype.Defs
import KernelSpace.RingBuffer.Threadsafe

/-!
# RingBuffer — the consumer thread and its stop (27d)

`27d.Threadsafe_ring_buffer_bw_modules/Threadsafe_ring_buffer_Module-B.c` over
the ring of Module A: the thread `c` loops on `ring_pop`, any other threads
push, `module_b_exit` calls `kthread_stop`. A step is one of

* `call`, `push`, `wakeUp` — a thread enters `ring_push`, goes through its
  lock, does the wake-up;
* `loopTest` — the consumer looks at `kthread_should_stop` and returns or
  enters `ring_pop`; `wait` and `dequeue` are its steps there;
* `stopSet`, `stopWake`, `stopReturn` — `kthread_stop` sets the flag, wakes the
  consumer, and returns when it has exited.

The wait of `ring_pop` does not know of the flag. A consumer that is in it with
nothing in the ring and nothing on its way into it goes back to sleep after
its wake-up, and `kthread_stop` waits for a push that need not come. It is the
state at `stopSet` that decides.
-/

namespace KernelSpace.ThreadsafeRing.ModuleB

open KernelSpace.Kernel KernelSpace.Lib KernelSpace.RingBuffer

/-- Where `module_b_exit` is in `kthread_stop`. -/
inductive StopPc where
  | idle
  | flagged
  | waiting
  | returned
deriving DecidableEq

/-- `ring` is Module A; `calling` are the pushes that have not come to the
lock. -/
structure State (T : Type*) where
  ring : ThreadsafeRing.State T
  calling : T → Option CString
  shouldStop : Bool
  exited : Bool
  stop : StopPc

/-- The consumer just started. -/
def State.init (T : Type*) : State T := ⟨.init T, fun _ => none, false, false, .idle⟩

inductive Event (T : Type*) where
  | call (t : T) (msg : CString)
  | push (t : T)
  | wakeUp (t : T)
  | loopTest
  | wait
  | dequeue (msg : CharArray maxPacket)
  | stopSet
  | stopWake
  | stopReturn

variable {T : Type*} [DecidableEq T]

/-- A step of Module A. -/
def State.ringStep (s : State T) (e : ThreadsafeRing.Event T) : Option (State T) :=
  (ThreadsafeRing.step s.ring e).map fun ring => { s with ring }

def step (c : T) (s : State T) : Event T → Option (State T)
  | .call t msg =>
    if t ≠ c ∧ s.calling t = none ∧ s.ring.pc t = .idle then
      some { s with calling := Function.update s.calling t (some msg) }
    else none
  | .push t =>
    match s.calling t with
    | some msg => { s with calling := Function.update s.calling t none }.ringStep (.push t msg)
    | none => none
  | .wakeUp t => s.ringStep (.wakeUp t)
  | .loopTest =>
    if s.exited = false ∧ s.ring.pc c = .idle then
      if s.shouldStop then some { s with exited := true } else s.ringStep (.enter c)
    else none
  | .wait => s.ringStep (.wait c)
  | .dequeue msg => s.ringStep (.dequeue c msg)
  | .stopSet =>
    if s.stop = .idle then some { s with shouldStop := true, stop := .flagged } else none
  | .stopWake =>
    if s.stop = .flagged then { s with stop := .waiting }.ringStep (.wakeProcess c) else none
  | .stopReturn =>
    if s.stop = .waiting ∧ s.exited = true then some { s with stop := .returned } else none

/-- Module B with the consumer `c`. -/
def moduleB (c : T) : Machine (State T) (Event T) := ⟨.init T, step c⟩

/-! ## The stop and the sleep -/

/-- Inside `wait_event_interruptible`, with the condition still to be seen. -/
def blocking : Pc → Bool
  | .popping (.done _) => false
  | .popping _ => true
  | _ => false

/-- `kthread_stop` waits for a thread that nothing will wake: the consumer
sleeps, the ring is empty, and no push or wake-up is under way. -/
def Deadlocked (c : T) (s : State T) : Prop :=
  s.stop = .waiting ∧ s.ring.pc c = .popping .asleep ∧ s.ring.nonempty = false ∧
    ∀ t, s.calling t = none ∧ s.ring.pc t ≠ .waking

/-- The stop is requested while the consumer is not in the wait, or finds a
message there, now in the ring or on its way into it. -/
def InTime (c : T) (s : State T) : Event T → Prop
  | .stopSet =>
    blocking (s.ring.pc c) = true →
      s.ring.nonempty = true ∨ ∃ t, (s.calling t).isSome = true
  | _ => True

instance [Fintype T] (c : T) (s : State T) : Decidable (Deadlocked c s) := by
  unfold Deadlocked
  infer_instance

instance [Fintype T] (c : T) (s : State T) (e : Event T) : Decidable (InTime c s e) := by
  cases e <;> unfold InTime <;> infer_instance

/-! ## What each event does -/

theorem ringStep_spec {s s' : State T} {e : ThreadsafeRing.Event T}
    (h : s.ringStep e = some s') :
    ∃ ring, ThreadsafeRing.step s.ring e = some ring ∧ s' = { s with ring } := by
  obtain ⟨ring, hring, rfl⟩ := Option.map_eq_some_iff.mp h
  exact ⟨ring, hring, rfl⟩

theorem step_spec {c : T} {s s' : State T} {e : Event T} (h : step c s e = some s') :
    match e with
    | .call t msg => t ≠ c ∧ s' = { s with calling := Function.update s.calling t (some msg) }
    | .push t =>
      ∃ msg, s.calling t = some msg ∧
        s' = { s with calling := Function.update s.calling t none, ring := ringPush s.ring t msg }
    | .wakeUp t =>
      s.ring.pc t = .waking ∧ s' = { s with ring :=
        { s.ring with pc := Function.update (fun u => (s.ring.pc u).wake) t .idle } }
    | .loopTest =>
      s.shouldStop = true ∧ s' = { s with exited := true } ∨
        s.shouldStop = false ∧ s' = { s with ring := s.ring.setPc c (.popping .fast) }
    | .wait =>
      ∃ w w', s.ring.pc c = .popping w ∧ w.step s.ring.nonempty = some w' ∧
        s' = { s with ring := s.ring.setPc c (.popping w') }
    | .dequeue msg => s' = { s with ring := ringPop s.ring c msg }
    | .stopSet => s.stop = .idle ∧ s' = { s with shouldStop := true, stop := .flagged }
    | .stopWake =>
      s.stop = .flagged ∧
        s' = { s with stop := .waiting, ring := s.ring.setPc c (s.ring.pc c).wake }
    | .stopReturn => s.stop = .waiting ∧ s' = { s with stop := .returned } := by
  cases e with
  | call t msg =>
    obtain ⟨⟨hne, -⟩, hs⟩ := Option.ite_none_right_eq_some.mp h
    exact ⟨hne, (Option.some.inj hs).symm⟩
  | push t =>
    simp only [step] at h
    split at h
    · rename_i msg hmsg
      obtain ⟨ring, hring, rfl⟩ := ringStep_spec h
      obtain ⟨-, rfl⟩ := step_push.mp hring
      exact ⟨msg, hmsg, rfl⟩
    · cases h
  | wakeUp t =>
    obtain ⟨ring, hring, rfl⟩ := ringStep_spec h
    obtain ⟨hwaking, rfl⟩ := step_wakeUp.mp hring
    exact ⟨hwaking, rfl⟩
  | loopTest =>
    obtain ⟨-, hs⟩ := Option.ite_none_right_eq_some.mp h
    split at hs
    · exact .inl ⟨‹_›, (Option.some.inj hs).symm⟩
    · obtain ⟨ring, hring, rfl⟩ := ringStep_spec hs
      obtain ⟨-, rfl⟩ := step_enter.mp hring
      exact .inr ⟨Bool.eq_false_iff.mpr ‹_›, rfl⟩
  | wait =>
    obtain ⟨ring, hring, rfl⟩ := ringStep_spec h
    obtain ⟨w, w', hpc, hw, rfl⟩ := step_wait.mp hring
    exact ⟨w, w', hpc, hw, rfl⟩
  | dequeue msg =>
    obtain ⟨ring, hring, rfl⟩ := ringStep_spec h
    obtain ⟨ret, -, rfl⟩ := step_dequeue.mp hring
    rfl
  | stopSet =>
    obtain ⟨hidle, hs⟩ := Option.ite_none_right_eq_some.mp h
    exact ⟨hidle, (Option.some.inj hs).symm⟩
  | stopWake =>
    obtain ⟨hflagged, hs⟩ := Option.ite_none_right_eq_some.mp h
    obtain ⟨ring, hring, rfl⟩ := ringStep_spec hs
    obtain rfl : ring = _ := step_wakeProcess.mp hring
    exact ⟨hflagged, rfl⟩
  | stopReturn =>
    obtain ⟨⟨hwaiting, -⟩, hs⟩ := Option.ite_none_right_eq_some.mp h
    exact ⟨hwaiting, (Option.some.inj hs).symm⟩

/-- A push leaves a message in the ring, its own or those it was full of. -/
theorem nonempty_ringPush (s : ThreadsafeRing.State T) (t : T) (msg : CString) :
    (ringPush s t msg).nonempty = true := by
  rw [ThreadsafeRing.State.nonempty, decide_eq_true_eq, ne_eq, ← queue_eq_nil_iff]
  by_cases hfull : (queue s.ring).length = ringSize - 1
  · rw [ringPush_full hfull]
    intro hnil
    rw [hnil] at hfull
    cases hfull
  · have hqueue := queue_enqueue (m := maxPacket) (by decide) hfull msg
    rw [ringPush_room hfull]
    show queue (s.ring.enqueue _) ≠ []
    rw [hqueue]
    simp

@[simp] theorem blocking_wake (pc : Pc) : blocking pc.wake = blocking pc := by
  cases pc with
  | popping w => cases w <;> rfl
  | idle | waking => rfl

/-! ## Runs with the stop in time -/

/-- After the stop request, a consumer in the wait has a message to come. -/
structure Ending (c : T) (s : State T) : Prop where
  flag : s.stop ≠ .idle → s.shouldStop = true
  message : s.stop ≠ .idle → blocking (s.ring.pc c) = true →
    s.ring.nonempty = true ∨ ∃ t, (s.calling t).isSome = true

omit [DecidableEq T] in
theorem ending_init (c : T) : Ending c (.init T) := ⟨fun h => absurd rfl h, fun h => absurd rfl h⟩

omit [DecidableEq T] in
theorem Ending.not_deadlocked {c : T} {s : State T} (h : Ending c s) : ¬ Deadlocked c s := by
  rintro ⟨hstop, hasleep, hempty, hnobody⟩
  have hblocking : blocking (s.ring.pc c) = true := by rw [hasleep]; rfl
  rcases h.message (by rw [hstop]; decide) hblocking with hmsg | ⟨t, ht⟩
  · cases hempty.symm.trans hmsg
  · rw [(hnobody t).1] at ht
    cases ht

theorem Ending.next {c : T} {s s' : State T} {e : Event T} (h : Ending c s) (he : InTime c s e)
    (hs : step c s e = some s') : Ending c s' := by
  have hspec := step_spec hs
  cases e with
  | call t msg =>
    obtain ⟨-, rfl⟩ := hspec
    exact ⟨h.flag, fun _ _ => .inr ⟨t, by simp⟩⟩
  | push t =>
    obtain ⟨msg, -, rfl⟩ := hspec
    exact ⟨h.flag, fun _ _ => .inl (nonempty_ringPush s.ring t msg)⟩
  | wakeUp t =>
    obtain ⟨-, rfl⟩ := hspec
    refine ⟨h.flag, fun hstop hblocking => h.message hstop ?_⟩
    dsimp only at hblocking
    rw [Function.update_apply] at hblocking
    split at hblocking
    · cases hblocking
    · rwa [blocking_wake] at hblocking
  | loopTest =>
    rcases hspec with ⟨-, rfl⟩ | ⟨hflag, rfl⟩
    · exact ⟨h.flag, h.message⟩
    · -- the flag is not set, so nobody has asked yet
      have hidle (hstop : s.stop ≠ .idle) : False := by
        cases hflag.symm.trans (h.flag hstop)
      exact ⟨h.flag, fun hstop => (hidle hstop).elim⟩
  | wait =>
    obtain ⟨w, w', hpc, hw, rfl⟩ := hspec
    refine ⟨h.flag, fun hstop _ => h.message hstop ?_⟩
    rw [hpc]
    cases w with
    | done ret => cases hw
    | fast | prepare | test | schedule | asleep => rfl
  | dequeue msg =>
    obtain rfl : s' = _ := hspec
    refine ⟨h.flag, fun _ hblocking => ?_⟩
    have hout : (ringPop s.ring c msg).pc c = .idle := Function.update_self ..
    rw [hout] at hblocking
    cases hblocking
  | stopSet =>
    obtain ⟨-, rfl⟩ := hspec
    exact ⟨fun _ => rfl, fun _ => he⟩
  | stopWake =>
    obtain ⟨hflagged, rfl⟩ := hspec
    have hstop : s.stop ≠ .idle := by rw [hflagged]; decide
    refine ⟨fun _ => h.flag hstop, fun _ hblocking => h.message hstop ?_⟩
    have hpc : (s.ring.setPc c (s.ring.pc c).wake).pc c = (s.ring.pc c).wake :=
      Function.update_self ..
    rwa [hpc, blocking_wake] at hblocking
  | stopReturn =>
    obtain ⟨hwaiting, rfl⟩ := hspec
    have hstop : s.stop ≠ .idle := by rw [hwaiting]; decide
    exact ⟨fun _ => h.flag hstop, fun _ => h.message hstop⟩

/-! ## A stop that is too late -/

/-- The consumer is on its way to sleep, and no message comes. -/
structure Doomed (c : T) (s : State T) : Prop where
  stop : s.stop = .waiting
  blocking : blocking (s.ring.pc c) = true
  empty : s.ring.nonempty = false
  calling : ∀ t, s.calling t = none

/-- Nobody is left to wake it: it goes to sleep for good. -/
theorem Doomed.sleep {c : T} {s : State T} (h : Doomed c s) {w : Wait}
    (hpc : s.ring.pc c = .popping w) (hwaking : ∀ t, s.ring.pc t ≠ .waking) :
    ∃ fs t, (moduleB c).exec s fs = some t ∧ Deadlocked c t := by
  induction hn : w.stepsToSleep using Nat.strong_induction_on generalizing s w with
  | _ n ih =>
    subst hn
    by_cases hasleep : w = .asleep
    · subst hasleep
      exact ⟨[], s, rfl, h.stop, hpc, h.empty, fun t => ⟨h.calling t, hwaking t⟩⟩
    · have hdone : ∀ ret, w ≠ .done ret := by
        rintro ret rfl
        have := h.blocking
        rw [hpc] at this
        cases this
      obtain ⟨w', hstep, hlt, hdone'⟩ := Wait.exists_step_false hdone hasleep
      let s' : State T := { s with ring := s.ring.setPc c (.popping w') }
      have hs : (moduleB c).step s .wait = some s' := by
        show s.ringStep (.wait c) = some s'
        rw [State.ringStep, step_wait.mpr ⟨w, w', hpc, by rw [h.empty]; exact hstep, rfl⟩]
        rfl
      have hpc' : s'.ring.pc c = .popping w' := Function.update_self ..
      have hblocking : ModuleB.blocking (s'.ring.pc c) = true := by
        rw [hpc']
        cases w' with
        | done ret => exact absurd rfl (hdone' ret)
        | fast | prepare | test | schedule | asleep => rfl
      have hwaking' : ∀ t, s'.ring.pc t ≠ .waking := by
        intro t
        by_cases htc : t = c
        · rw [htc, hpc']
          exact nofun
        · rw [show s'.ring.pc t = s.ring.pc t from Function.update_of_ne htc ..]
          exact hwaking t
      obtain ⟨fs, t, hrun, hdead⟩ :=
        ih _ hlt (s := s') ⟨h.stop, hblocking, h.empty, h.calling⟩ hpc' hwaking' rfl
      exact ⟨.wait :: fs, t, Machine.exec_cons_iff.mpr ⟨s', hs, hrun⟩, hdead⟩

/-- The wake-ups that are under way come first. -/
theorem Doomed.deadlocked {c : T} {s : State T} (h : Doomed c s) {wakers : List T}
    (hwaking : ∀ t, s.ring.pc t = .waking → t ∈ wakers) :
    ∃ fs t, (moduleB c).exec s fs = some t ∧ Deadlocked c t := by
  induction wakers generalizing s with
  | nil =>
    cases hpc : s.ring.pc c with
    | popping w => exact h.sleep hpc fun t ht => List.not_mem_nil (hwaking t ht)
    | idle | waking =>
      have := h.blocking
      rw [hpc] at this
      cases this
  | cons u wakers ih =>
    by_cases hu : s.ring.pc u = .waking
    · let pc := Function.update (fun t => (s.ring.pc t).wake) u .idle
      let s' : State T := { s with ring := { s.ring with pc := pc } }
      have hs : (moduleB c).step s (.wakeUp u) = some s' := by
        show s.ringStep (.wakeUp u) = some s'
        rw [State.ringStep, step_wakeUp.mpr ⟨hu, rfl⟩]
        rfl
      have huc : c ≠ u := by
        rintro rfl
        have := h.blocking
        rw [hu] at this
        cases this
      have hblocking : ModuleB.blocking (pc c) = true := by
        rw [show pc c = (s.ring.pc c).wake from Function.update_of_ne huc .., blocking_wake]
        exact h.blocking
      have hleft : ∀ t, pc t = .waking → t ∈ wakers := by
        intro t ht
        by_cases htu : t = u
        · rw [htu, show pc u = .idle from Function.update_self ..] at ht
          cases ht
        · rw [show pc t = (s.ring.pc t).wake from Function.update_of_ne htu ..] at ht
          exact (List.mem_cons.mp (hwaking t (Pc.wake_eq_waking.mp ht))).resolve_left htu
      obtain ⟨fs, t, hrun, hdead⟩ := ih (s := s') ⟨h.stop, hblocking, h.empty, h.calling⟩ hleft
      exact ⟨.wakeUp u :: fs, t, Machine.exec_cons_iff.mpr ⟨s', hs, hrun⟩, hdead⟩
    · refine ih h fun t ht => ?_
      rcases List.mem_cons.mp (hwaking t ht) with rfl | ht'
      · exact absurd ht hu
      · exact ht'

/-- Only a push leaves its thread with a wake-up to do. -/
theorem waking_of_step {c u : T} {s s' : State T} {e : Event T} (hs : step c s e = some s')
    (hu : s'.ring.pc u = .waking) : s.ring.pc u = .waking ∨ e = .push u := by
  -- a thread whose program counter the step sets to something else
  have hset {pc : Pc} {t : T} (hpc : Function.update s.ring.pc t pc u = .waking)
      (hne : pc = .waking → s.ring.pc t = .waking) : s.ring.pc u = .waking := by
    by_cases hut : u = t
    · subst hut
      exact hne ((Function.update_self u pc s.ring.pc).symm.trans hpc)
    · exact (Function.update_of_ne hut pc s.ring.pc).symm.trans hpc
  have hspec := step_spec hs
  cases e with
  | call t msg | stopSet | stopReturn =>
    obtain ⟨-, rfl⟩ := hspec
    exact .inl hu
  | push t =>
    obtain ⟨msg, -, rfl⟩ := hspec
    by_cases hfull : (queue s.ring.ring).length = ringSize - 1
    · simp only [ringPush_full hfull] at hu
      exact .inl hu
    · simp only [ringPush_room hfull] at hu
      by_cases hut : u = t
      · exact .inr (by rw [hut])
      · exact .inl ((Function.update_of_ne hut ..).symm.trans hu)
  | wakeUp t =>
    obtain ⟨-, rfl⟩ := hspec
    dsimp only at hu
    rw [Function.update_apply] at hu
    split at hu
    · cases hu
    · exact .inl (Pc.wake_eq_waking.mp hu)
  | loopTest =>
    rcases hspec with ⟨-, rfl⟩ | ⟨-, rfl⟩
    · exact .inl hu
    · exact .inl (hset hu nofun)
  | wait =>
    obtain ⟨w, w', -, -, rfl⟩ := hspec
    exact .inl (hset hu nofun)
  | dequeue msg =>
    obtain rfl : s' = _ := hspec
    exact .inl (hset hu nofun)
  | stopWake =>
    obtain ⟨-, rfl⟩ := hspec
    exact .inl (hset hu Pc.wake_eq_waking.mp)

/-- Finitely many threads have a wake-up to do. -/
theorem exists_wakers {c : T} {s : State T} (h : (moduleB c).Reachable s) :
    ∃ wakers : List T, ∀ t, s.ring.pc t = .waking → t ∈ wakers := by
  refine Machine.Reachable.inv
    (I := fun s => ∃ wakers : List T, ∀ t, s.ring.pc t = .waking → t ∈ wakers) ?_ ?_ h
  · refine ⟨[], fun t ht => ?_⟩
    cases ht
  · rintro s e s' ⟨wakers, hwaking⟩ hs
    have hcases (u : T) (hu : s'.ring.pc u = .waking) := waking_of_step (c := c) hs hu
    cases e with
    | push t =>
      refine ⟨t :: wakers, fun u hu => ?_⟩
      rcases hcases u hu with hold | hnew
      · exact List.mem_cons_of_mem _ (hwaking u hold)
      · cases hnew
        exact List.mem_cons_self
    | call | wakeUp | loopTest | wait | dequeue | stopSet | stopWake | stopReturn =>
      refine ⟨wakers, fun u hu => hwaking u ?_⟩
      exact (hcases u hu).resolve_right nofun

/-- The wake-up of `kthread_stop` comes next, and finds nothing in the ring. -/
theorem deadlocked_of_not_inTime {c : T} {s s' : State T} {e : Event T}
    (h : (moduleB c).Reachable s) (hs : step c s e = some s') (he : ¬ InTime c s e) :
    ∃ fs t, (moduleB c).exec s' fs = some t ∧ Deadlocked c t := by
  have hreach : (moduleB c).Reachable s' := h.step (e := e) hs
  have hspec := step_spec hs
  cases e with
  | stopSet =>
    obtain ⟨-, rfl⟩ := hspec
    obtain ⟨hblocking, hempty, hcalling⟩ : ModuleB.blocking (s.ring.pc c) = true ∧
        s.ring.nonempty = false ∧ ∀ t, s.calling t = none := by
      simpa [InTime, not_or] using he
    let t : State T :=
      { s with shouldStop := true, stop := .waiting, ring := s.ring.setPc c (s.ring.pc c).wake }
    have hwake : (moduleB c).step { s with shouldStop := true, stop := .flagged } .stopWake
        = some t := rfl
    obtain ⟨wakers, hwakers⟩ := exists_wakers (hreach.step hwake)
    have hdoomed : Doomed c t := by
      refine ⟨rfl, ?_, hempty, hcalling⟩
      rw [show t.ring.pc c = (s.ring.pc c).wake from Function.update_self .., blocking_wake]
      exact hblocking
    obtain ⟨fs, u, hrun, hdead⟩ := hdoomed.deadlocked hwakers
    exact ⟨.stopWake :: fs, u, Machine.exec_cons_iff.mpr ⟨t, hwake, hrun⟩, hdead⟩
  | call | push | wakeUp | loopTest | wait | dequeue | stopWake | stopReturn =>
    exact absurd trivial he

/-- **The stop ends the consumer** in every run in which it is requested while
the consumer is outside the wait or has a message to come; and any run up to a
stop that finds it in the wait with none can go on to a `kthread_stop` that
waits for a thread that nothing will wake. -/
theorem stop_not_deadlocked (c : T) {es : List (Event T)} {s : State T}
    (h : (moduleB c).Reaches es s) :
    ((moduleB c).Along (InTime c) (.init T) es →
        (moduleB c).Always (fun s => ¬ Deadlocked c s) (.init T) es) ∧
      ∀ e s', step c s e = some s' → ¬ InTime c s e →
        ∃ fs t, (moduleB c).exec s' fs = some t ∧ Deadlocked c t :=
  ⟨Machine.always_of_inv (fun _ => Ending.not_deadlocked) (fun _ _ _ => Ending.next)
    (ending_init c), fun _ _ => deadlocked_of_not_inTime ⟨es, h⟩⟩

/-- Nothing is pushed: the consumer has gone to sleep, and is asked to stop. -/
def stopAsleep : List (Event Bool) :=
  [.loopTest, .wait, .wait, .wait, .wait, .stopSet, .stopWake, .wait, .wait, .wait]

theorem stopAsleep_run : ((moduleB true).exec (.init Bool) stopAsleep).isSome := by decide

theorem stop_asleep_deadlocked :
    ¬ ∀ (es : List (Event Bool)) s, (moduleB true).Reaches es s → ¬ Deadlocked true s := by
  intro h
  have hdead := h _ _ (Option.some_get stopAsleep_run).symm
  revert hdead
  decide

/-- The stop finds a push on its way to the ring. -/
def stopPushed : List (Event Bool) :=
  [.loopTest, .wait, .wait, .wait, .wait, .call false (.lit "Packet A"), .stopSet, .stopWake,
    .push false, .wakeUp false, .wait, .wait, .dequeue (.zero maxPacket), .loopTest, .stopReturn]

theorem stopPushed_run : ((moduleB true).exec (.init Bool) stopPushed).isSome := by decide

theorem stop_not_deadlocked_pushed :
    (moduleB true).Always (fun s => ¬ Deadlocked true s) (.init Bool) stopPushed :=
  (stop_not_deadlocked true (Option.some_get stopPushed_run).symm).1 (by decide)

end KernelSpace.ThreadsafeRing.ModuleB
