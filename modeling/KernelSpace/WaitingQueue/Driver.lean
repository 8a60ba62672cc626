import Mathlib.Logic.Function.Basic
import KernelSpace.Kernel.CString
import KernelSpace.Kernel.WaitQueue
import KernelSpace.Lib.Machine

/-!
# WaitingQueue — the driver with one message and a flag (7)

`7.char_cdev_waiting_queue/char_cdev_waiting_queue.c`: a static `buffer`, a
flag `data_available` and a wait queue, no lock. One process writes, the
threads `R` read. A step is what one of them does between two points where
another may come in:

* `write` — `my_write` up to `buffer[len] = '\0'`; `setFlag`; `wakeUp`, after
  which it returns. `writeFault` is a `copy_from_user` that stores `k` bytes,
  clears the rest and fails;
* `read`, `wait`, `signal` — `my_read` inside `wait_event_interruptible`;
  `interrupted` its return of the error;
* `copyOut` — `strlen`, the cut of `len` and `copy_to_user`; `readFault` is a
  `copy_to_user` that fails;
* `clearFlag` — `data_available = 0` and the return.

Messages are numbered in the order of the `write` steps. `inBuffer`,
`completed` and `copiedOut` are records that no step reads: whose message is
in the buffer, which write returned last, which messages reads have copied.
-/

namespace KernelSpace.WaitingQueue

open KernelSpace.Kernel KernelSpace.Lib

/-- `sizeof(buffer)`. -/
def bufferSize : Nat := 100

inductive WriterPc where
  | idle
  | copied (len msg : Nat)
  | flagged (len msg : Nat)
deriving DecidableEq

inductive ReaderPc where
  | idle
  | waiting (len : Nat) (w : Wait)
  | copied (data : List UInt8)
deriving DecidableEq

structure State (R : Type*) where
  buffer : CharArray bufferSize
  dataAvailable : Int
  writer : WriterPc
  reader : R → ReaderPc
  messages : Nat
  inBuffer : Option Nat
  completed : Option Nat
  copiedOut : List Nat

/-- The module as loaded, nobody inside. -/
def State.init (R : Type*) : State R where
  buffer := .zero bufferSize
  dataAvailable := 0
  writer := .idle
  reader := fun _ => .idle
  messages := 0
  inBuffer := none
  completed := none
  copiedOut := []

inductive Event (R : Type*) where
  | write (buf : List UInt8)
  | writeFault (buf : List UInt8) (k : Nat)
  | setFlag
  | wakeUp
  | read (r : R) (len : Nat)
  | wait (r : R)
  | signal (r : R)
  | interrupted (r : R)
  | copyOut (r : R)
  | readFault (r : R)
  | clearFlag (r : R)

/-! ## The functions -/

/-- `if (len > sizeof(buffer)-1) len = sizeof(buffer)-1;` -/
def writeLen (len : Nat) : Nat := if len > bufferSize - 1 then bufferSize - 1 else len

/-- The buffer after `copy_from_user` and the store of the NUL. -/
def fillBuffer (buffer : CharArray bufferSize) (buf : List UInt8) : CharArray bufferSize :=
  let len := writeLen buf.length
  (buffer.store 0 (buf.take len)).store len [0]

/-- The buffer after a `copy_from_user` that failed behind `k` bytes. -/
def faultBuffer (buffer : CharArray bufferSize) (buf : List UInt8) (k : Nat) :
    CharArray bufferSize :=
  let len := writeLen buf.length
  buffer.store 0 ((buf.take len).take k ++ List.replicate (len - k) 0)

/-- What a read of `len` bytes hands out. -/
def readData (buffer : CharArray bufferSize) (len : Nat) : List UInt8 :=
  let dataLen := buffer.str.strlen
  let len := if len > dataLen then dataLen else len
  buffer.bytes.take len

/-- The condition of the wait. -/
def State.available {R : Type*} (s : State R) : Bool := decide (s.dataAvailable ≠ 0)

/-- `wake_up_interruptible(&my_wq)` on a reader. -/
def ReaderPc.wake : ReaderPc → ReaderPc
  | waiting len w => waiting len w.wake
  | pc => pc

variable {R : Type*} [DecidableEq R]

def State.setReader (s : State R) (r : R) (pc : ReaderPc) : State R :=
  { s with reader := Function.update s.reader r pc }

@[simp] theorem setReader_reader_self (s : State R) (r : R) (pc : ReaderPc) :
    (s.setReader r pc).reader r = pc := Function.update_self ..

@[simp] theorem setReader_setReader (s : State R) (r : R) (pc pc' : ReaderPc) :
    (s.setReader r pc).setReader r pc' = s.setReader r pc' := by
  simp only [State.setReader, Function.update_idem]

def step (s : State R) : Event R → Option (State R)
  | .write buf =>
    if s.writer = .idle then
      some { s with
        buffer := fillBuffer s.buffer buf
        writer := .copied (writeLen buf.length) s.messages
        messages := s.messages + 1
        inBuffer := some s.messages }
    else none
  | .writeFault buf k =>
    if s.writer = .idle then
      some { s with buffer := faultBuffer s.buffer buf k, inBuffer := none }
    else none
  | .setFlag =>
    match s.writer with
    | .copied len msg => some { s with dataAvailable := 1, writer := .flagged len msg }
    | _ => none
  | .wakeUp =>
    match s.writer with
    | .flagged _ msg =>
      some { s with
        reader := fun r => (s.reader r).wake, writer := .idle, completed := some msg }
    | _ => none
  | .read r len =>
    if s.reader r = .idle then some (s.setReader r (.waiting len .fast)) else none
  | .wait r =>
    match s.reader r with
    | .waiting len w => (w.step s.available).map fun w' => s.setReader r (.waiting len w')
    | _ => none
  | .signal r =>
    match s.reader r with
    | .waiting len w => w.interrupt.map fun w' => s.setReader r (.waiting len w')
    | _ => none
  | .interrupted r =>
    match s.reader r with
    | .waiting _ (.done ret) => if ret ≠ 0 then some (s.setReader r .idle) else none
    | _ => none
  | .copyOut r =>
    match s.reader r with
    | .waiting len (.done ret) =>
      if ret = 0 then
        some { s.setReader r (.copied (readData s.buffer len)) with
          copiedOut := s.copiedOut ++ s.inBuffer.toList }
      else none
    | _ => none
  | .readFault r =>
    match s.reader r with
    | .waiting _ (.done ret) => if ret = 0 then some (s.setReader r .idle) else none
    | _ => none
  | .clearFlag r =>
    match s.reader r with
    | .copied _ => some { s.setReader r .idle with dataAvailable := 0 }
    | _ => none

/-- The module with one writer and the readers `R`. -/
def driver (R : Type*) [DecidableEq R] : Machine (State R) (Event R) := ⟨State.init R, step⟩

/-! ## What each event does -/

theorem step_write {s s' : State R} {buf : List UInt8} (h : step s (.write buf) = some s') :
    s.writer = .idle ∧ s' = { s with
      buffer := fillBuffer s.buffer buf
      writer := .copied (writeLen buf.length) s.messages
      messages := s.messages + 1
      inBuffer := some s.messages } := by
  simpa [step, eq_comm] using h

theorem step_writeFault {s s' : State R} {buf : List UInt8} {k : Nat}
    (h : step s (.writeFault buf k) = some s') :
    s.writer = .idle ∧ s' = { s with buffer := faultBuffer s.buffer buf k, inBuffer := none } := by
  simpa [step, eq_comm] using h

theorem step_setFlag {s s' : State R} (h : step s .setFlag = some s') :
    ∃ len msg, s.writer = .copied len msg ∧
      s' = { s with dataAvailable := 1, writer := .flagged len msg } := by
  cases hw : s.writer with
  | idle | flagged => simp [step, hw] at h
  | copied len msg => exact ⟨len, msg, rfl, by simpa [step, hw, eq_comm] using h⟩

theorem step_wakeUp {s s' : State R} (h : step s .wakeUp = some s') :
    ∃ len msg, s.writer = .flagged len msg ∧
      s' = { s with
        reader := fun r => (s.reader r).wake, writer := .idle, completed := some msg } := by
  cases hw : s.writer with
  | idle | copied => simp [step, hw] at h
  | flagged len msg => exact ⟨len, msg, rfl, by simpa [step, hw, eq_comm] using h⟩

theorem step_read {s s' : State R} {r : R} {len : Nat} (h : step s (.read r len) = some s') :
    s.reader r = .idle ∧ s' = s.setReader r (.waiting len .fast) := by
  simpa [step, eq_comm] using h

theorem step_wait {s s' : State R} {r : R} (h : step s (.wait r) = some s') :
    ∃ len w w', s.reader r = .waiting len w ∧ w.step s.available = some w' ∧
      s' = s.setReader r (.waiting len w') := by
  cases hr : s.reader r with
  | idle | copied => simp [step, hr] at h
  | waiting len w =>
    simp only [step, hr, Option.map_eq_some_iff] at h
    obtain ⟨w', hw, rfl⟩ := h
    exact ⟨len, w, w', rfl, hw, rfl⟩

theorem step_signal {s s' : State R} {r : R} (h : step s (.signal r) = some s') :
    ∃ len w w', s.reader r = .waiting len w ∧ w.interrupt = some w' ∧
      s' = s.setReader r (.waiting len w') := by
  cases hr : s.reader r with
  | idle | copied => simp [step, hr] at h
  | waiting len w =>
    simp only [step, hr, Option.map_eq_some_iff] at h
    obtain ⟨w', hw, rfl⟩ := h
    exact ⟨len, w, w', rfl, hw, rfl⟩

theorem step_interrupted {s s' : State R} {r : R} (h : step s (.interrupted r) = some s') :
    ∃ len ret, s.reader r = .waiting len (.done ret) ∧ ret ≠ 0 ∧ s' = s.setReader r .idle := by
  simp only [step] at h
  split at h
  · rename_i len ret hr
    split at h <;> cases h
    exact ⟨len, ret, hr, ‹_›, rfl⟩
  · cases h

theorem step_copyOut {s s' : State R} {r : R} (h : step s (.copyOut r) = some s') :
    ∃ len, s.reader r = .waiting len (.done 0) ∧
      s' = { s.setReader r (.copied (readData s.buffer len)) with
        copiedOut := s.copiedOut ++ s.inBuffer.toList } := by
  simp only [step] at h
  split at h
  · rename_i len ret hr
    split at h <;> cases h
    rename_i hret
    subst hret
    exact ⟨len, hr, rfl⟩
  · cases h

theorem step_readFault {s s' : State R} {r : R} (h : step s (.readFault r) = some s') :
    ∃ len, s.reader r = .waiting len (.done 0) ∧ s' = s.setReader r .idle := by
  simp only [step] at h
  split at h
  · rename_i len ret hr
    split at h <;> cases h
    rename_i hret
    subst hret
    exact ⟨len, hr, rfl⟩
  · cases h

theorem step_clearFlag {s s' : State R} {r : R} (h : step s (.clearFlag r) = some s') :
    ∃ data, s.reader r = .copied data ∧ s' = { s.setReader r .idle with dataAvailable := 0 } := by
  cases hr : s.reader r with
  | idle | waiting => simp [step, hr] at h
  | copied data => exact ⟨data, rfl, by simpa [step, hr, eq_comm] using h⟩

end KernelSpace.WaitingQueue
