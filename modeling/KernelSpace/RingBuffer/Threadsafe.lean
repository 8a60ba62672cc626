import Mathlib.Logic.Function.Basic
import KernelSpace.Kernel.WaitQueue
import KernelSpace.Lib.Machine
import KernelSpace.RingBuffer.Basic

/-!
# RingBuffer — the thread-safe ring (27d)

`27d.Threadsafe_ring_buffer_bw_modules/Threadsafe_ring_buffer_Module-A.c`,
run by any number of threads `T`. A step is what one thread does between two
points where another may come in:

* `push` — `ring_push` from `spin_lock_irqsave` to `spin_unlock_irqrestore`;
  on success `wake_up_interruptible` is still to come (`wakeUp`);
* `enter`, `wait` — `ring_pop` into its `wait_event_interruptible`, which
  takes no lock, one `Wait` step at a time; `signal` ends the wait,
  `wakeProcess` is a wake-up from outside the module (`kthread_stop`);
* `dequeue` — `ring_pop` from its lock to its unlock. It does not look at
  what the wait returned, and it does not test for an empty ring.

`pushed`, `popped`, `origin` and `taken` are records of the run that no step
reads: the messages of the pushes that returned 0 and the strings of the pops
that returned, in lock order; and, to tell equal messages apart, which push
wrote each slot last and which push each pop returned.
-/

namespace KernelSpace.ThreadsafeRing

open KernelSpace.Kernel KernelSpace.Lib KernelSpace.RingBuffer

def ringSize : Nat := 8
def maxPacket : Nat := 64

abbrev Ring27d := Slots maxPacket ringSize

/-- Where a thread stands. -/
inductive Pc where
  | idle
  | waking
  | popping (w : Wait)
deriving DecidableEq

structure State (T : Type*) where
  ring : Ring27d
  pc : T → Pc
  pushed : List CString
  popped : List CString
  origin : Ring (Option Nat) ringSize
  taken : List (Option Nat)

/-- The state `module_a_init` creates, no thread inside. -/
def State.init (T : Type*) : State T where
  ring := zeroed maxPacket ringSize (by decide)
  pc := fun _ => .idle
  pushed := []
  popped := []
  origin := ⟨.replicate ringSize none, ⟨0, by decide⟩, ⟨0, by decide⟩⟩
  taken := []

inductive Event (T : Type*) where
  | push (t : T) (msg : CString)
  | wakeUp (t : T)
  | enter (t : T)
  | wait (t : T)
  | signal (t : T)
  | wakeProcess (t : T)
  | dequeue (t : T) (buf : CharArray maxPacket)

variable {T : Type*} [DecidableEq T]

/-- `ring->head != ring->tail`, the condition of the wait. -/
def State.nonempty (s : State T) : Bool := decide (s.ring.head ≠ s.ring.tail)

/-- `wake_up_interruptible(&ring->read_queue)` on a thread. -/
def Pc.wake : Pc → Pc
  | popping w => popping w.wake
  | pc => pc

def State.setPc (s : State T) (t : T) (pc : Pc) : State T :=
  { s with pc := Function.update s.pc t pc }

/-- `ring_push` under the lock. -/
def ringPush (s : State T) (t : T) (msg : CString) : State T :=
  let (ret, ring') := pushSlot s.ring msg
  if ret = 0 then
    { s with
      ring := ring'
      pc := Function.update s.pc t .waking
      pushed := s.pushed ++ [msg]
      origin := s.origin.enqueue (some s.pushed.length) }
  else s

/-- `ring_pop` under the lock. -/
def ringPop (s : State T) (t : T) (buf : CharArray maxPacket) : State T :=
  let (buf', ring') := popSlot s.ring buf
  { s with
    ring := ring'
    pc := Function.update s.pc t .idle
    popped := s.popped ++ [buf'.str]
    origin := s.origin.dequeue
    taken := s.taken ++ [s.origin.data.get s.origin.tail] }

def step (s : State T) : Event T → Option (State T)
  | .push t msg => if s.pc t = .idle then some (ringPush s t msg) else none
  | .wakeUp t =>
    if s.pc t = .waking then
      some { s with pc := Function.update (fun u => (s.pc u).wake) t .idle }
    else none
  | .enter t => if s.pc t = .idle then some (s.setPc t (.popping .fast)) else none
  | .wait t =>
    match s.pc t with
    | .popping w => (w.step s.nonempty).map fun w' => s.setPc t (.popping w')
    | _ => none
  | .signal t =>
    match s.pc t with
    | .popping w => w.interrupt.map fun w' => s.setPc t (.popping w')
    | _ => none
  | .wakeProcess t => some (s.setPc t (s.pc t).wake)
  | .dequeue t buf =>
    match s.pc t with
    | .popping (.done _) => some (ringPop s t buf)
    | _ => none

/-- The module, run by the threads `T`. -/
def threads (T : Type*) [DecidableEq T] : Machine (State T) (Event T) := ⟨State.init T, step⟩

/-! ## What each event does -/

theorem Pc.wake_eq_waking {pc : Pc} : pc.wake = .waking ↔ pc = .waking := by
  cases pc <;> simp [Pc.wake]

theorem step_push {s s' : State T} {t : T} {msg : CString} :
    step s (.push t msg) = some s' ↔ s.pc t = .idle ∧ s' = ringPush s t msg := by
  simp [step, eq_comm]

theorem step_wakeUp {s s' : State T} {t : T} :
    step s (.wakeUp t) = some s' ↔
      s.pc t = .waking ∧ s' = { s with pc := Function.update (fun u => (s.pc u).wake) t .idle } := by
  simp [step, eq_comm]

theorem step_enter {s s' : State T} {t : T} :
    step s (.enter t) = some s' ↔ s.pc t = .idle ∧ s' = s.setPc t (.popping .fast) := by
  simp [step, eq_comm]

theorem step_wait {s s' : State T} {t : T} :
    step s (.wait t) = some s' ↔
      ∃ w w', s.pc t = .popping w ∧ w.step s.nonempty = some w' ∧
        s' = s.setPc t (.popping w') := by
  cases hpc : s.pc t with
  | idle => simp [step, hpc]
  | waking => simp [step, hpc]
  | popping w => simp [step, hpc, Option.map_eq_some_iff, eq_comm (a := s')]

theorem step_signal {s s' : State T} {t : T} :
    step s (.signal t) = some s' ↔
      ∃ w w', s.pc t = .popping w ∧ w.interrupt = some w' ∧ s' = s.setPc t (.popping w') := by
  cases hpc : s.pc t with
  | idle => simp [step, hpc]
  | waking => simp [step, hpc]
  | popping w => simp [step, hpc, Option.map_eq_some_iff, eq_comm (a := s')]

theorem step_wakeProcess {s s' : State T} {t : T} :
    step s (.wakeProcess t) = some s' ↔ s' = s.setPc t (s.pc t).wake := by
  simp [step, eq_comm]

theorem step_dequeue {s s' : State T} {t : T} {buf : CharArray maxPacket} :
    step s (.dequeue t buf) = some s' ↔
      ∃ ret, s.pc t = .popping (.done ret) ∧ s' = ringPop s t buf := by
  cases hpc : s.pc t with
  | idle => simp [step, hpc]
  | waking => simp [step, hpc]
  | popping w => cases w <;> simp [step, hpc, eq_comm (a := s')]

/-- A push of a full ring changes nothing. -/
theorem ringPush_full {s : State T} (h : (queue s.ring).length = ringSize - 1) (t : T)
    (msg : CString) : ringPush s t msg = s := by
  rw [ringPush, pushSlot_full h]
  rfl

theorem ringPush_room {s : State T} (h : (queue s.ring).length ≠ ringSize - 1) (t : T)
    (msg : CString) :
    ringPush s t msg =
      { s with
        ring := s.ring.enqueue ((s.ring.data.get s.ring.head).strscpy msg)
        pc := Function.update s.pc t .waking
        pushed := s.pushed ++ [msg]
        origin := s.origin.enqueue (some s.pushed.length) } := by
  rw [ringPush, pushSlot_room h]
  rfl

/-- **What a step can do** to anything but the program counters: a push into a
ring with room, a dequeue, nothing. -/
theorem step_cases {s s' : State T} {e : Event T} (h : step s e = some s') :
    (∃ t msg, e = .push t msg ∧ (queue s.ring).length ≠ ringSize - 1 ∧ s' = ringPush s t msg) ∨
      (∃ t buf, e = .dequeue t buf ∧ s' = ringPop s t buf) ∨
      ((∀ t buf, e ≠ .dequeue t buf) ∧ ∃ pc, s' = { s with pc := pc }) := by
  cases e with
  | push t msg =>
    obtain ⟨-, rfl⟩ := step_push.mp h
    by_cases hfull : (queue s.ring).length = ringSize - 1
    · exact .inr (.inr ⟨nofun, s.pc, ringPush_full hfull t msg⟩)
    · exact .inl ⟨t, msg, rfl, hfull, rfl⟩
  | wakeUp t =>
    obtain ⟨-, rfl⟩ := step_wakeUp.mp h
    exact .inr (.inr ⟨nofun, _, rfl⟩)
  | enter t =>
    obtain ⟨-, rfl⟩ := step_enter.mp h
    exact .inr (.inr ⟨nofun, _, rfl⟩)
  | wait t =>
    obtain ⟨w, w', -, -, rfl⟩ := step_wait.mp h
    exact .inr (.inr ⟨nofun, _, rfl⟩)
  | signal t =>
    obtain ⟨w, w', -, -, rfl⟩ := step_signal.mp h
    exact .inr (.inr ⟨nofun, _, rfl⟩)
  | wakeProcess t =>
    rw [step_wakeProcess.mp h]
    exact .inr (.inr ⟨nofun, _, rfl⟩)
  | dequeue t buf =>
    obtain ⟨ret, -, rfl⟩ := step_dequeue.mp h
    exact .inr (.inl ⟨t, buf, rfl, rfl⟩)

end KernelSpace.ThreadsafeRing
