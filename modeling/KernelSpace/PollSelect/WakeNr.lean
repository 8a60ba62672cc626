import KernelSpace.Kernel.Waiters
import KernelSpace.PollSelect.Driver

/-!
# PollSelect — the driver that wakes one process (9)

`9.char_cdev_wake_up_interruptible_nr/char_cdev_wakeip_isr_nr_kernel.c`: the
calls of the poll driver (8), but `my_write` ends with
`wake_up_interruptible_nr(&my_wq, 1)`. Any number of processes use it. One that
calls `poll` or `select` goes through these states, with the kernel's
`do_poll` around `my_poll`:

    idle      outside the call
    checked   my_poll found nothing; triggered says that a wake-up came since
    asleep    in poll_schedule_timeout
    woken     awake again, before the next look
    ready     the call has something to return, or its time is over

`poll_wait` adds an entry that is not exclusive, and nothing else adds one
(`Wf`), so the 1 of `my_write` is no limit.
-/

namespace KernelSpace.PollSelect.WakeNr

open KernelSpace.Kernel KernelSpace.Lib

inductive Pc where
  | idle
  | checked (triggered : Bool)
  | asleep
  | woken
  | ready
deriving DecidableEq

namespace Pc

/-- Behind a first `my_poll` of the call that reported `mask`; a call may poll
several files of the device. -/
def poll (mask : BitVec 32) : Pc → Option Pc
  | idle => some (if mask = 0 then checked false else ready)
  | checked triggered => some (if mask = 0 then checked triggered else ready)
  | _ => none

/-- `poll_schedule_timeout`: no sleep behind a wake-up. -/
def schedule : Pc → Option Pc
  | checked triggered => some (if triggered then woken else asleep)
  | _ => none

/-- Behind a later `my_poll` of the call. -/
def recheck (mask : BitVec 32) : Pc → Option Pc
  | woken => some (if mask = 0 then checked false else ready)
  | _ => none

/-- A signal, or the end of the time. -/
def interrupt : Pc → Option Pc
  | asleep => some ready
  | _ => none

/-- The wake function of an entry that `poll_wait` made, `pollwake`. -/
def pollwake : Pc → Bool × Pc
  | checked _ => (false, checked true)
  | asleep => (true, woken)
  | pc => (false, pc)

end Pc

structure State (P : Type*) where
  dev : Device
  myWq : List (Waiter P)
  pc : P → Pc

inductive Event (P : Type*) where
  | poll (p : P) (events : BitVec 32)
  | schedule (p : P)
  | recheck (p : P) (events : BitVec 32)
  | interrupt (p : P)
  | leave (p : P)
  | write (p : P) (buf : List UInt8) (fault : Option Nat)
  | read (p : P) (len : Nat) (fault : Bool)

section

variable {P : Type*} [DecidableEq P]

def State.setPc (s : State P) (p : P) (pc : Pc) : State P :=
  { s with pc := Function.update s.pc p pc }

/-- `wake_up_interruptible_nr(&my_wq, nr)`. -/
def wakeUpInterruptibleNr (nr : Int) (s : State P) : State P :=
  { s with pc := wakeUpCommon Pc.pollwake nr s.myWq s.pc }

/-- `my_write`: the wake-up only behind a copy that succeeded. -/
def myWrite (s : State P) (buf : List UInt8) (fault : Option Nat) : State P :=
  let s' := { s with dev := (PollSelect.myWrite s.dev buf fault).2 }
  if fault.isSome then s' else wakeUpInterruptibleNr 1 s'

/-- A process inside the call is in no other. -/
def step (s : State P) : Event P → Option (State P)
  | .poll p events => ((s.pc p).poll (myPoll s.dev &&& events)).map fun pc =>
      { s with myWq := ⟨p, false⟩ :: s.myWq }.setPc p pc
  | .schedule p => (s.pc p).schedule.map (s.setPc p)
  | .recheck p events => ((s.pc p).recheck (myPoll s.dev &&& events)).map (s.setPc p)
  | .interrupt p => (s.pc p).interrupt.map (s.setPc p)
  | .leave p =>
    -- poll_freewait takes all entries of the call off the queue
    if s.pc p = .idle ∨ s.pc p = .asleep then none
    else some ({ s with myWq := s.myWq.filter fun w => w.process ≠ p }.setPc p .idle)
  | .write p buf fault => if s.pc p = .idle then some (myWrite s buf fault) else none
  | .read p len fault =>
    if s.pc p = .idle then some { s with dev := (myRead s.dev len fault).2 } else none

/-- The module as loaded. -/
def driver (P : Type*) [DecidableEq P] : Machine (State P) (Event P) where
  init := ⟨calls.init, [], fun _ => .idle⟩
  step := step

variable {s s' : State P} {p q : P}

theorem setPc_pc_self (s : State P) (p : P) (pc : Pc) : (s.setPc p pc).pc p = pc :=
  Function.update_self ..

theorem setPc_pc_of_ne (h : q ≠ p) (s : State P) (pc : Pc) : (s.setPc p pc).pc q = s.pc q :=
  Function.update_of_ne h ..

/-! ## The queue -/

/-- All entries are from `poll_wait`, and a process inside the call has one. -/
structure Wf (s : State P) : Prop where
  shared : ∀ w ∈ s.myWq, w.exclusive = false
  registered : ∀ p, s.pc p ≠ .idle → p ∈ s.myWq.map Waiter.process

theorem wf_init : Wf (driver P).init := ⟨nofun, fun _ h => absurd rfl h⟩

/-- A process with an entry goes on. -/
theorem Wf.setPc (h : Wf s) (hp : p ∈ s.myWq.map Waiter.process) (pc : Pc) :
    Wf (s.setPc p pc) where
  shared := h.shared
  registered q hq := by
    by_cases hqp : q = p
    · exact hqp ▸ hp
    · rw [setPc_pc_of_ne hqp] at hq
      exact h.registered q hq

omit [DecidableEq P] in
/-- `poll_wait`. -/
theorem Wf.enqueue (h : Wf s) (p : P) : Wf { s with myWq := ⟨p, false⟩ :: s.myWq } where
  shared := List.forall_mem_cons.mpr ⟨rfl, h.shared⟩
  registered q hq := List.mem_cons_of_mem _ (h.registered q hq)

/-- `poll_freewait`. -/
theorem Wf.dequeue (h : Wf s) (p : P) :
    Wf ({ s with myWq := s.myWq.filter fun w => w.process ≠ p }.setPc p .idle) where
  shared w hw := h.shared w (List.mem_of_mem_filter hw)
  registered q hq := by
    by_cases hqp : q = p
    · subst hqp
      rw [setPc_pc_self] at hq
      exact absurd rfl hq
    · rw [setPc_pc_of_ne hqp] at hq
      obtain ⟨w, hw, hwq⟩ := List.mem_map.mp (h.registered q hq)
      have hwp : w.process ≠ p := hwq ▸ hqp
      exact List.mem_map.mpr ⟨w, List.mem_filter.mpr ⟨hw, by simpa using hwp⟩, hwq⟩

/-- **A wake-up reaches every process of the queue**, whatever its number. -/
theorem wakeUp_pc (h : Wf s) (nr : Int) (p : P) :
    (wakeUpInterruptibleNr nr s).pc p = (s.pc p).pollwake.2 := by
  have hidem : ∀ pc : Pc, pc.pollwake.2.pollwake.2 = pc.pollwake.2 := by
    intro pc
    cases pc <;> rfl
  have hwake := wakeUpCommon_shared hidem h.shared nr s.pc p
  refine hwake.trans ?_
  split
  · rfl
  · rename_i hp
    have hidle : s.pc p = .idle := by
      by_contra hne
      exact hp (h.registered p hne)
    rw [hidle]
    rfl

theorem Wf.wakeUp (h : Wf s) (nr : Int) : Wf (wakeUpInterruptibleNr nr s) where
  shared := h.shared
  registered p hp := by
    apply h.registered p
    rintro hidle
    rw [wakeUp_pc h, hidle] at hp
    exact hp rfl

theorem Wf.next {e : Event P} (h : Wf s) (hs : step s e = some s') : Wf s' := by
  have hmem {p : P} (hne : s.pc p ≠ .idle) := h.registered p hne
  cases e with
  | poll p events =>
    obtain ⟨pc, -, rfl⟩ := Option.map_eq_some_iff.mp hs
    exact (h.enqueue p).setPc List.mem_cons_self pc
  | schedule p =>
    obtain ⟨pc, hpc, rfl⟩ := Option.map_eq_some_iff.mp hs
    exact h.setPc (hmem fun hidle => by rw [hidle] at hpc; cases hpc) pc
  | recheck p events =>
    obtain ⟨pc, hpc, rfl⟩ := Option.map_eq_some_iff.mp hs
    exact h.setPc (hmem fun hidle => by rw [hidle] at hpc; cases hpc) pc
  | interrupt p =>
    obtain ⟨pc, hpc, rfl⟩ := Option.map_eq_some_iff.mp hs
    exact h.setPc (hmem fun hidle => by rw [hidle] at hpc; cases hpc) pc
  | leave p =>
    simp only [step, Option.ite_none_left_eq_some, Option.some.injEq] at hs
    obtain ⟨-, rfl⟩ := hs
    exact h.dequeue p
  | write p buf fault =>
    simp only [step, Option.ite_none_right_eq_some, Option.some.injEq] at hs
    obtain ⟨-, rfl⟩ := hs
    have hdev : Wf { s with dev := (PollSelect.myWrite s.dev buf fault).2 } :=
      ⟨h.shared, h.registered⟩
    unfold myWrite
    dsimp only
    split
    · exact hdev
    · exact hdev.wakeUp 1
  | read p len fault =>
    simp only [step, Option.ite_none_right_eq_some, Option.some.injEq] at hs
    obtain ⟨-, rfl⟩ := hs
    exact ⟨h.shared, h.registered⟩

theorem wf_of_reachable (h : (driver P).Reachable s) : Wf s :=
  h.inv wf_init fun _ _ _ hwf hs => hwf.next hs

/-! ## Whom a write wakes -/

/-- The step wakes `p`. -/
def Wakes (s s' : State P) (p : P) : Prop := s.pc p = .asleep ∧ s'.pc p ≠ .asleep

/-- Behind a write all sleep on, or none. -/
theorem wakes_myWrite_iff (h : Wf s) (buf : List UInt8) (fault : Option Nat) (p : P) :
    Wakes s (myWrite s buf fault) p ↔ fault = none ∧ s.pc p = .asleep := by
  have hdev : Wf { s with dev := (PollSelect.myWrite s.dev buf fault).2 } :=
    ⟨h.shared, h.registered⟩
  cases fault with
  | some k => exact iff_of_false (fun hw => hw.2 hw.1) fun hnone => nomatch hnone.1
  | none =>
    have hpc : (myWrite s buf none).pc p = (s.pc p).pollwake.2 := wakeUp_pc hdev 1 p
    rw [Wakes, hpc]
    refine ⟨fun hw => ⟨rfl, hw.1⟩, fun hw => ⟨hw.2, ?_⟩⟩
    rw [hw.2]
    decide

/-- At most one process has the property. -/
def AtMostOne (φ : P → Prop) : Prop := ∀ p q, φ p → φ q → p = q

/-- **A write wakes at most one process** exactly if its copy fails or no two
processes sleep, in every state the driver comes to with any number of
processes. -/
theorem wakes_at_most_one_iff (h : (driver P).Reachable s) {writer : P} {buf : List UInt8}
    {fault : Option Nat} (hs : (driver P).step s (.write writer buf fault) = some s') :
    AtMostOne (Wakes s s') ↔ fault ≠ none ∨ AtMostOne fun p => s.pc p = .asleep := by
  have hwrite : s' = myWrite s buf fault := by
    simp only [driver, step, Option.ite_none_right_eq_some, Option.some.injEq] at hs
    exact hs.2.symm
  have hwakes : ∀ p, Wakes s s' p ↔ fault = none ∧ s.pc p = .asleep := fun p =>
    hwrite ▸ wakes_myWrite_iff (wf_of_reachable h) buf fault p
  simp only [AtMostOne, hwakes]
  by_cases hfault : fault = none
  · simp [hfault]
  · exact iff_of_true (fun p q hp => absurd hp.1 hfault) (.inl hfault)

end

/-- Process 0 sleeps. -/
def oneSleeps : State Nat :=
  (State.setPc ⟨calls.init, [⟨0, false⟩], fun _ => .idle⟩ 0 (.checked false)).setPc 0 .asleep

theorem oneSleeps_run : (driver Nat).Reaches [.poll 0 POLLIN, .schedule 0] oneSleeps := rfl

theorem oneSleeps_only {p : Nat} (h : oneSleeps.pc p = .asleep) : p = 0 := by
  by_contra hne
  rw [oneSleeps, setPc_pc_of_ne hne, setPc_pc_of_ne hne] at h
  cases h

theorem wakes_at_most_one_iff_one_sleeps :
    AtMostOne (Wakes oneSleeps (myWrite oneSleeps [72, 105] none)) := by
  have hreachable : (driver Nat).Reachable oneSleeps := ⟨_, oneSleeps_run⟩
  have hwrite : (driver Nat).step oneSleeps (.write 1 [72, 105] none)
      = some (myWrite oneSleeps [72, 105] none) := rfl
  refine (wakes_at_most_one_iff hreachable hwrite).mpr (.inr fun p q hp hq => ?_)
  exact (oneSleeps_only hp).trans (oneSleeps_only hq).symm

/-- Processes 0 and 1 sleep. -/
def twoSleep : List (Event Nat) := [.poll 0 POLLIN, .schedule 0, .poll 1 POLLIN, .schedule 1]

/-- Both are woken by one write. -/
theorem both_sleepers_woken :
    ¬ ∀ (s s' : State Nat) (writer : Nat) (buf : List UInt8) (fault : Option Nat),
      (driver Nat).Reachable s → (driver Nat).step s (.write writer buf fault) = some s' →
      AtMostOne (Wakes s s') := by
  intro h
  have htwo := h _ _ 2 [72, 105] none ⟨twoSleep, rfl⟩ rfl 0 1 ⟨rfl, by decide⟩ ⟨rfl, by decide⟩
  cases htwo

end KernelSpace.PollSelect.WakeNr
