import KernelSpace.Kernel.Timer
import KernelSpace.Lib.Shutdown

/-!
# KernelTimer — the timer that arms itself (13)

`13.kernel_Timer/kernel_timer_periodic.c`: `timer_callback` arms its timer
again unless `stop_flag` is set, and `my_exit` sets the flag and deletes the
timer. A step is one access to what they share:

* `insmod`, `arm` — `my_init` up to `timer_setup`, and `mod_timer`;
* `expire`, `test`, `rearm`, `callbackReturn` — the callback is called, reads
  the flag, arms the timer, returns;
* `setStop`, `delTimerSync` — `my_exit`;
* `rmmod` — the memory of the module goes.

The callback may have read the flag before `my_exit` sets it, and then arms the
timer once more. A timer expires at any time after it is armed.
-/

namespace KernelSpace.KernelTimer

open KernelSpace.Kernel KernelSpace.Lib

inductive Phase where
  | absent
  | setUp
  | loaded
  | stopping
  | deleted
deriving DecidableEq

/-- Where the callback stands. -/
inductive CallbackPc where
  | idle
  | test
  | rearm
  | returning
deriving DecidableEq

structure State where
  phase : Phase
  stopFlag : Bool
  timer : Timer
  callback : CallbackPc
deriving DecidableEq

inductive Event where
  | insmod
  | arm
  | expire
  | test
  | rearm
  | callbackReturn
  | setStop
  | delTimerSync
  | rmmod
deriving DecidableEq

def step (s : State) : Event → Option State
  | .insmod =>
    if s.phase = .absent then some { s with phase := .setUp, stopFlag := false, timer := .setup }
    else none
  | .arm =>
    if s.phase = .setUp then some { s with phase := .loaded, timer := s.timer.modTimer } else none
  | .expire => s.timer.expire.map fun timer => { s with timer, callback := .test }
  | .test =>
    if s.callback = .test then
      some { s with callback := if s.stopFlag then .returning else .rearm }
    else none
  | .rearm =>
    if s.callback = .rearm then
      some { s with timer := s.timer.modTimer, callback := .returning }
    else none
  | .callbackReturn =>
    if s.callback = .returning then
      s.timer.finish.map fun timer => { s with timer, callback := .idle }
    else none
  | .setStop =>
    if s.phase = .loaded then some { s with phase := .stopping, stopFlag := true } else none
  | .delTimerSync =>
    if s.phase = .stopping then
      s.timer.delTimerSync.map fun timer => { s with phase := .deleted, timer }
    else none
  | .rmmod => if s.phase = .deleted then some { s with phase := .absent } else none

def driver : Machine State Event := ⟨⟨.absent, false, .setup, .idle⟩, step⟩

/-- The steps of the callback. -/
def Event.isCallback : Event → Bool
  | expire | test | rearm | callbackReturn => true
  | _ => false

/-! ## What each event does -/

theorem step_spec {s s' : State} {e : Event} (h : step s e = some s') :
    match e with
    | .insmod =>
      s.phase = .absent ∧ s' = { s with phase := .setUp, stopFlag := false, timer := .setup }
    | .arm => s.phase = .setUp ∧ s' = { s with phase := .loaded, timer := s.timer.modTimer }
    | .expire =>
      s.timer.pending = true ∧ s.timer.running = false ∧
        s' = { s with timer := ⟨false, true⟩, callback := .test }
    | .test =>
      s.callback = .test ∧ s' = { s with callback := if s.stopFlag then .returning else .rearm }
    | .rearm =>
      s.callback = .rearm ∧ s' = { s with timer := s.timer.modTimer, callback := .returning }
    | .callbackReturn =>
      s.callback = .returning ∧
        s' = { s with timer := { s.timer with running := false }, callback := .idle }
    | .setStop => s.phase = .loaded ∧ s' = { s with phase := .stopping, stopFlag := true }
    | .delTimerSync =>
      s.phase = .stopping ∧ s.timer.running = false ∧
        s' = { s with phase := .deleted, timer := { s.timer with pending := false } }
    | .rmmod => s.phase = .deleted ∧ s' = { s with phase := .absent } := by
  cases e with
  | insmod | arm | test | rearm | setStop | rmmod =>
    obtain ⟨hguard, hs⟩ := Option.ite_none_right_eq_some.mp h
    exact ⟨hguard, (Option.some.inj hs).symm⟩
  | expire =>
    obtain ⟨timer, htimer, rfl⟩ := Option.map_eq_some_iff.mp h
    obtain ⟨⟨hpending, hrunning⟩, heq⟩ := Option.ite_none_right_eq_some.mp htimer
    cases heq
    exact ⟨hpending, hrunning, rfl⟩
  | callbackReturn =>
    obtain ⟨hguard, hmap⟩ := Option.ite_none_right_eq_some.mp h
    obtain ⟨timer, htimer, rfl⟩ := Option.map_eq_some_iff.mp hmap
    obtain ⟨-, heq⟩ := Option.ite_none_right_eq_some.mp htimer
    cases heq
    exact ⟨hguard, rfl⟩
  | delTimerSync =>
    obtain ⟨hguard, hmap⟩ := Option.ite_none_right_eq_some.mp h
    obtain ⟨timer, htimer, rfl⟩ := Option.map_eq_some_iff.mp hmap
    obtain ⟨hrunning, heq⟩ := Option.ite_none_left_eq_some.mp htimer
    cases heq
    exact ⟨hguard, by simpa using hrunning, rfl⟩

/-! ## The invariant -/

/-- What holds of the flag, the timer and the callback in a phase. -/
def Sound (s : State) : Phase → Prop
  | .absent | .deleted => s.timer.pending = false ∧ s.callback = .idle
  | .setUp => s.stopFlag = false ∧ s.timer.pending = false ∧ s.callback = .idle
  -- somebody will tick
  | .loaded => s.stopFlag = false ∧
      (s.timer.pending = true ∨ s.callback = .test ∨ s.callback = .rearm)
  | .stopping => s.stopFlag = true

structure Inv (s : State) : Prop where
  running : s.timer.running = true ↔ s.callback ≠ .idle
  /-- The softirq has taken the timer off. -/
  taken : s.callback = .test ∨ s.callback = .rearm → s.timer.pending = false
  phase : Sound s s.phase

theorem inv_init : Inv driver.init := ⟨by decide, by decide, rfl, rfl⟩

theorem Inv.idle {s : State} (h : Inv s) (hrunning : s.timer.running = false) :
    s.callback = .idle := by
  by_contra hne
  rw [h.running.mpr hne] at hrunning
  cases hrunning

/-- Where the timer is armed or the callback runs. -/
theorem Inv.active {s : State} (h : Inv s) (hactive : s.timer.pending = true ∨ s.callback ≠ .idle) :
    s.phase = .loaded ∧ s.stopFlag = false ∨ s.phase = .stopping ∧ s.stopFlag = true := by
  have hphase := h.phase
  have hquiet : ¬ (s.timer.pending = false ∧ s.callback = .idle) := by
    rintro ⟨hpending, hidle⟩
    rcases hactive with hactive | hactive
    · rw [hpending] at hactive
      cases hactive
    · exact hactive hidle
  cases hp : s.phase with
  | absent | deleted =>
    rw [hp] at hphase
    exact absurd hphase hquiet
  | setUp =>
    rw [hp] at hphase
    exact absurd hphase.2 hquiet
  | loaded =>
    rw [hp] at hphase
    exact .inl ⟨rfl, hphase.1⟩
  | stopping =>
    rw [hp] at hphase
    exact .inr ⟨rfl, hphase⟩

theorem inv_step {s s' : State} {e : Event} (h : Inv s) (hs : step s e = some s') : Inv s' := by
  have hspec := step_spec hs
  have hphase := h.phase
  cases e with
  | insmod =>
    obtain ⟨habsent, rfl⟩ := hspec
    rw [habsent] at hphase
    have hidle : s.callback = .idle := hphase.2
    exact ⟨by simp [Timer.setup, hidle], fun _ => rfl, rfl, rfl, hidle⟩
  | arm =>
    obtain ⟨hsetUp, rfl⟩ := hspec
    rw [hsetUp] at hphase
    have hidle : s.callback = .idle := hphase.2.2
    exact ⟨h.running, by simp [hidle], hphase.1, .inl rfl⟩
  | expire =>
    obtain ⟨hpending, -, rfl⟩ := hspec
    refine ⟨by simp, fun _ => rfl, ?_⟩
    rcases h.active (.inl hpending) with ⟨hloaded, hflag⟩ | ⟨hstopping, hflag⟩
    · rw [hloaded]
      exact ⟨hflag, .inr (.inl rfl)⟩
    · rw [hstopping]
      exact hflag
  | test =>
    obtain ⟨hpc, rfl⟩ := hspec
    have hrunning : s.timer.running = true := h.running.mpr (by simp [hpc])
    have htaken : s.timer.pending = false := h.taken (.inl hpc)
    rcases h.active (.inr (by simp [hpc])) with ⟨hloaded, hflag⟩ | ⟨hstopping, hflag⟩
    · refine ⟨by simp [hrunning, hflag], fun _ => htaken, ?_⟩
      rw [hloaded]
      exact ⟨hflag, .inr (.inr (by simp [hflag]))⟩
    · refine ⟨by simp [hrunning, hflag], fun _ => htaken, ?_⟩
      rw [hstopping]
      exact hflag
  | rearm =>
    obtain ⟨hpc, rfl⟩ := hspec
    have hrunning : s.timer.running = true := h.running.mpr (by simp [hpc])
    refine ⟨by simp [Timer.modTimer, hrunning], by simp, ?_⟩
    rcases h.active (.inr (by simp [hpc])) with ⟨hloaded, hflag⟩ | ⟨hstopping, hflag⟩
    · rw [hloaded]
      exact ⟨hflag, .inl rfl⟩
    · rw [hstopping]
      exact hflag
  | callbackReturn =>
    obtain ⟨hpc, rfl⟩ := hspec
    refine ⟨by simp, by simp, ?_⟩
    rcases h.active (.inr (by simp [hpc])) with ⟨hloaded, hflag⟩ | ⟨hstopping, hflag⟩
    · rw [hloaded] at hphase ⊢
      have hpending : s.timer.pending = true := by simpa [hpc] using hphase.2
      exact ⟨hflag, .inl hpending⟩
    · rw [hstopping]
      exact hflag
  | setStop =>
    obtain ⟨-, rfl⟩ := hspec
    exact ⟨h.running, h.taken, rfl⟩
  | delTimerSync =>
    obtain ⟨-, hrunning, rfl⟩ := hspec
    exact ⟨h.running, fun _ => rfl, rfl, h.idle hrunning⟩
  | rmmod =>
    obtain ⟨hdeleted, rfl⟩ := hspec
    rw [hdeleted] at hphase
    exact ⟨h.running, h.taken, hphase⟩

/-! ## The end of the timer -/

/-- The steps that the callback can still take once the flag is set. -/
def State.stepsLeft (s : State) : Nat :=
  match s.callback with
  | .idle => if s.timer.pending then 3 else 0
  | .test => 2
  | .rearm => 5
  | .returning => if s.timer.pending then 4 else 1

/-- The calls of the callback that can still come. -/
def State.callsLeft (s : State) : Nat :=
  match s.callback with
  | .rearm => 1
  | .test => 0
  | .idle | .returning => if s.timer.pending then 1 else 0

/-- A step of the callback once the flag is set. -/
theorem callback_step {s s' : State} {e : Event} (h : Inv s) (hstop : s.stopFlag = true)
    (hs : step s e = some s') (he : e.isCallback = true) :
    s'.stepsLeft < s.stepsLeft ∧
      s'.callsLeft + (if e = .expire then 1 else 0) ≤ s.callsLeft := by
  have hspec := step_spec hs
  cases e with
  | expire =>
    obtain ⟨hpending, hrunning, rfl⟩ := hspec
    simp [State.stepsLeft, State.callsLeft, h.idle hrunning, hpending]
  | test =>
    obtain ⟨hpc, rfl⟩ := hspec
    simp [State.stepsLeft, State.callsLeft, hpc, hstop, h.taken (.inl hpc)]
  | rearm =>
    obtain ⟨hpc, rfl⟩ := hspec
    simp [State.stepsLeft, State.callsLeft, hpc, Timer.modTimer]
  | callbackReturn =>
    obtain ⟨hpc, rfl⟩ := hspec
    cases hpending : s.timer.pending <;>
      simp [State.stepsLeft, State.callsLeft, hpc, hpending]
  | insmod | arm | setStop | delTimerSync | rmmod => cases he

/-- `my_exit` waits in `del_timer_sync`. -/
def Stopping (s : State) : Prop := s.phase = .stopping

/-- While it waits, nothing but the callback takes a step. -/
theorem isCallback_of_stopping {s s' : State} {e : Event} (h : Stopping s) (h' : Stopping s')
    (hs : step s e = some s') : e.isCallback = true := by
  have hspec := step_spec hs
  unfold Stopping at h h'
  cases e with
  | expire | test | rearm | callbackReturn => rfl
  | insmod | arm | setStop | rmmod =>
    rw [h] at hspec
    cases hspec.1
  | delTimerSync =>
    obtain ⟨-, -, rfl⟩ := hspec
    cases h'

theorem Inv.stopFlag {s : State} (h : Inv s) (hstopping : Stopping s) : s.stopFlag = true := by
  have hphase := h.phase
  rwa [hstopping] at hphase

/-- The timer is deleted, or the callback goes on. -/
theorem Inv.progress {s : State} (h : Inv s) (hstopping : Stopping s) :
    (step s .delTimerSync).isSome ∨ ∃ e : Event, e.isCallback = true ∧ (step s e).isSome := by
  cases hpc : s.callback with
  | idle =>
    have hrunning : s.timer.running = false := by simpa [hpc] using h.running
    refine .inl ?_
    unfold Stopping at hstopping
    simp [step, hstopping, Timer.delTimerSync, hrunning]
  | test => exact .inr ⟨.test, rfl, by simp [step, hpc]⟩
  | rearm => exact .inr ⟨.rearm, rfl, by simp [step, hpc]⟩
  | returning =>
    have hrunning : s.timer.running = true := by simpa [hpc] using h.running
    exact .inr ⟨.callbackReturn, rfl, by simp [step, hpc, Timer.finish, hrunning]⟩

/-- Without a timer and a callback there is no step of the callback. -/
theorem Inv.silent {s : State} (h : Inv s) (hgone : s.phase = .deleted ∨ s.phase = .absent)
    {e : Event} (he : e.isCallback = true) : step s e = none := by
  have hphase := h.phase
  have hquiet : s.timer.pending = false ∧ s.callback = .idle := by
    rcases hgone with hp | hp <;> rwa [hp] at hphase
  cases e with
  | expire => simp [step, Timer.expire, hquiet.1]
  | test | rearm | callbackReturn => simp [step, hquiet.2]
  | insmod | arm | setStop | delTimerSync | rmmod => cases he

/-- **The periodic timer.** While the module is loaded the timer goes on
ticking. When `my_exit` has set the flag the callback has five steps left and
is called once more at most, so `del_timer_sync` returns; behind it nothing of
the callback runs, before and after the memory of the module goes. -/
theorem timer_shutdown :
    (∀ s, driver.Reachable s → s.phase = .loaded →
      s.timer.pending = true ∨ s.callback = .test ∨ s.callback = .rearm) ∧
    driver.Shutdown Event.isCallback .delTimerSync Stopping
      (fun s => s.phase = .deleted ∨ s.phase = .absent) 5 ∧
    ∀ s es s', driver.Reachable s → driver.Always Stopping s es → driver.exec s es = some s' →
      es.count .expire ≤ 1 := by
  have hstep : ∀ s e s', Inv s → driver.step s e = some s' → Inv s' := fun _ _ _ => inv_step
  refine ⟨fun s hs hloaded => ?_, ?_, fun s es s' hs hstopping h => ?_⟩
  · have hphase := (hs.inv inv_init hstep).phase
    rw [hloaded] at hphase
    exact hphase.2
  · refine Machine.shutdown_of_inv (I := Inv) (μ := State.stepsLeft) inv_init hstep ?_ ?_ ?_ ?_ ?_
    · exact fun s e s' h hs _ hse he => (callback_step h (h.stopFlag hs) hse he).1
    · intro s e s' _ hs hs' hse he
      rw [isCallback_of_stopping hs hs' hse] at he
      cases he
    · intro s _
      cases hpc : s.callback <;> simp only [State.stepsLeft, hpc] <;> first | omega | split <;> omega
    · exact fun s h hs => h.progress hs
    · exact fun s e h hs he => h.silent hs he
  · have hI : Inv s := hs.inv inv_init hstep
    have hle := Machine.countP_le (D := fun t => Inv t ∧ Stopping t) (μ := State.callsLeft)
      (· == .expire) ?_ ?_ (hstopping.and_inv hstep hI) h
    · have hcalls : s.callsLeft ≤ 1 := by
        cases hpc : s.callback <;> simp only [State.callsLeft, hpc] <;> first | omega | split <;> omega
      have hcount : es.count .expire = es.countP (· == .expire) := rfl
      omega
    · intro t e t' ht ht' hte he
      have he' : e = .expire := eq_of_beq he
      have hlt := (callback_step ht.1 (ht.1.stopFlag ht.2)
        hte (isCallback_of_stopping ht.2 ht'.2 hte)).2
      rw [if_pos he'] at hlt
      omega
    · intro t e t' ht ht' hte he
      have hle := (callback_step ht.1 (ht.1.stopFlag ht.2)
        hte (isCallback_of_stopping ht.2 ht'.2 hte)).2
      omega

/-- The callback has read the flag when `my_exit` sets it: one more call. -/
example : ∃ s, driver.Reaches [.insmod, .arm, .expire, .test, .setStop, .rearm, .callbackReturn,
    .expire, .test, .callbackReturn, .delTimerSync, .rmmod] s ∧ s.phase = .absent := ⟨_, rfl, rfl⟩

end KernelSpace.KernelTimer
