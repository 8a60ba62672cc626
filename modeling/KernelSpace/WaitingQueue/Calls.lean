import KernelSpace.Kernel.CTypes
import KernelSpace.Lib.Service
import KernelSpace.WaitingQueue.Driver

/-!
# WaitingQueue — one call after the other (7)

`my_write` and `my_read` as functions, for processes that take turns. A read
that finds no data sleeps, so there is no answer to it. `calls` is the service
without signals and faults; each of its calls is a run of the steps that
`Driver` takes the functions apart into (`exec_events`).

The kernel cuts every count to `MAX_RW_COUNT` before it calls the driver.
-/

namespace KernelSpace.WaitingQueue

open KernelSpace.Kernel KernelSpace.Lib

def MAX_RW_COUNT : Nat := 0x7ffff000

/-- `buffer` and `data_available`. -/
structure Device where
  buffer : CharArray bufferSize
  dataAvailable : Int
deriving DecidableEq

/-- The return value and the bytes handed to the user. -/
structure Reply where
  ret : Int
  bytes : List UInt8
deriving DecidableEq

inductive Call where
  | write (buf : List UInt8)
  | read (len : Nat)

/-- `fault` is the number of bytes after which `copy_from_user` fails. -/
def myWrite (dev : Device) (buf : List UInt8) (fault : Option Nat) : Reply × Device :=
  let len := writeLen buf.length
  match fault with
  | some k => (⟨-EFAULT, []⟩, { dev with buffer := faultBuffer dev.buffer buf k })
  | none => (⟨int64 len, []⟩, ⟨fillBuffer dev.buffer buf, 1⟩)

/-- The `len` of a read behind its cut. -/
def readLen (buffer : CharArray bufferSize) (len : Nat) : Nat :=
  let dataLen := buffer.str.strlen
  if len > dataLen then dataLen else len

/-- `fault` is set where `copy_to_user` fails. -/
def myRead (dev : Device) (len : Nat) (signal fault : Bool) : Option (Reply × Device) :=
  if dev.dataAvailable = 0 then
    if signal then some (⟨-ERESTARTSYS, []⟩, dev) else none
  else if fault then some (⟨-EFAULT, []⟩, dev)
  else some (⟨int64 (readLen dev.buffer len), readData dev.buffer len⟩,
    { dev with dataAvailable := 0 })

/-- The module as loaded, without signals and faults. -/
def calls : Service Device Call Reply where
  init := ⟨.zero bufferSize, 0⟩
  step dev
    | .write buf => some (myWrite dev (buf.take MAX_RW_COUNT) none)
    | .read len => myRead dev (min len MAX_RW_COUNT) false false

theorem calls_write {dev dev' : Device} {buf : List UInt8} {reply : Reply}
    (h : calls.step dev (.write buf) = some (reply, dev')) :
    reply = ⟨int64 (writeLen (buf.take MAX_RW_COUNT).length), []⟩ ∧
      dev' = ⟨fillBuffer dev.buffer (buf.take MAX_RW_COUNT), 1⟩ := by
  have heq := Option.some.inj h
  exact ⟨congrArg Prod.fst heq.symm, congrArg Prod.snd heq.symm⟩

theorem calls_read {dev dev' : Device} {len : Nat} {reply : Reply}
    (h : calls.step dev (.read len) = some (reply, dev')) :
    dev.dataAvailable ≠ 0 ∧
      reply = ⟨int64 (readLen dev.buffer (min len MAX_RW_COUNT)),
        readData dev.buffer (min len MAX_RW_COUNT)⟩ ∧
      dev' = { dev with dataAvailable := 0 } := by
  by_cases havail : dev.dataAvailable = 0
  · simp [calls, myRead, havail] at h
  · have heq := Option.some.inj ((if_neg havail).symm.trans h)
    exact ⟨havail, congrArg Prod.fst heq.symm, congrArg Prod.snd heq.symm⟩

/-! ## The text in the buffer -/

/-- Nothing but a NUL is ever stored in the last byte. -/
def Terminated (buffer : CharArray bufferSize) : Prop :=
  buffer.bytes[bufferSize - 1]? = some 0

theorem Terminated.strlen_lt {buffer : CharArray bufferSize} (h : Terminated buffer) :
    buffer.str.strlen < bufferSize :=
  buffer.strlen_lt_iff.mpr (List.mem_of_getElem? h)

theorem Terminated.store {buffer : CharArray bufferSize} (h : Terminated buffer) {i : Nat}
    {bs : List UInt8} (hi : i + bs.length ≤ bufferSize - 1) : Terminated (buffer.store i bs) := by
  rw [Terminated, buffer.getElem?_store (by omega), if_neg (by omega)]
  exact h

theorem writeLen_le (len : Nat) : writeLen len ≤ bufferSize - 1 := by
  unfold writeLen
  split <;> omega

theorem Terminated.fillBuffer {buffer : CharArray bufferSize} (h : Terminated buffer)
    (buf : List UInt8) : Terminated (fillBuffer buffer buf) := by
  have hle := writeLen_le buf.length
  have htext : Terminated (buffer.store 0 (buf.take (writeLen buf.length))) := by
    refine h.store ?_
    rw [List.length_take]
    omega
  by_cases hlast : writeLen buf.length = bufferSize - 1
  · -- the NUL itself goes into the last byte
    have hnul : bufferSize - 1 + [(0 : UInt8)].length ≤ bufferSize := by decide
    unfold WaitingQueue.fillBuffer
    rw [hlast, Terminated, CharArray.getElem?_store _ hnul, if_pos (by decide), Nat.sub_self]
    rfl
  · refine htext.store ?_
    rw [List.length_singleton]
    omega

theorem terminated_init : Terminated calls.init.buffer := rfl

/-- **`strlen` stays in the buffer** in every state of the service. -/
theorem strlen_lt_of_run {cs : List Call} {rs : List Reply} {dev : Device}
    (h : calls.run calls.init cs = some (rs, dev)) : dev.buffer.str.strlen < bufferSize := by
  refine Terminated.strlen_lt (Service.run_inv (I := fun dev => Terminated dev.buffer)
    (P := fun _ => True) ?_ terminated_init (fun _ _ => trivial) h)
  intro dev c r dev' hdev _ hstep
  cases c with
  | write buf =>
    obtain ⟨-, rfl⟩ := calls_write hstep
    exact hdev.fillBuffer _
  | read len =>
    obtain ⟨-, -, rfl⟩ := calls_read hstep
    exact hdev

/-! ## The calls and the steps -/

variable {R : Type*}

def State.device (s : State R) : Device := ⟨s.buffer, s.dataAvailable⟩

/-- Nobody is inside a call. -/
structure Quiet (s : State R) : Prop where
  writer : s.writer = .idle
  reader : ∀ r, s.reader r = .idle

/-- The steps of a call, up to its return. -/
def Call.body (r : R) : Call → List (Event R)
  | write buf => [.write (buf.take MAX_RW_COUNT), .setFlag]
  | read len => [.read r (min len MAX_RW_COUNT), .wait r, .copyOut r]

/-- The step with which it returns. -/
def Call.last (r : R) : Call → Event R
  | write _ => .wakeUp
  | read _ => .clearFlag r

/-- The call that is about to return answers `reply`. -/
def Answers (s : State R) (r : R) (reply : Reply) : Call → Prop
  | .write _ => ∃ len msg, s.writer = .flagged len msg ∧ reply = ⟨int64 len, []⟩
  | .read _ => s.reader r = .copied reply.bytes

variable [DecidableEq R]

theorem exec_write {s : State R} (h : Quiet s) (buf : List UInt8) :
    ∃ t s', (driver R).exec s [.write buf, .setFlag] = some t ∧
      (∃ msg, t.writer = .flagged (writeLen buf.length) msg) ∧
      step t .wakeUp = some s' ∧ Quiet s' ∧ s'.device = ⟨fillBuffer s.buffer buf, 1⟩ := by
  let t : State R := { s with
    buffer := fillBuffer s.buffer buf
    dataAvailable := 1
    writer := .flagged (writeLen buf.length) s.messages
    messages := s.messages + 1
    inBuffer := some s.messages }
  have hrun : (driver R).exec s [.write buf, .setFlag] = some t := by
    simp [Machine.exec, driver, step, h.writer, t]
  refine ⟨t, _, hrun, ⟨s.messages, rfl⟩, rfl, ⟨rfl, fun r => ?_⟩, rfl⟩
  simp [t, h.reader, ReaderPc.wake]

/-- A read up to its copy, by a reader that is not inside one. -/
theorem exec_copyOut {s : State R} {r : R} (hr : s.reader r = .idle) (havail : s.dataAvailable ≠ 0)
    (len : Nat) : (driver R).exec s [.read r len, .wait r, .copyOut r]
      = some { s.setReader r (.copied (readData s.buffer len)) with
          copiedOut := s.copiedOut ++ s.inBuffer.toList } := by
  have hcond : s.available = true := decide_eq_true havail
  have hread : step s (.read r len) = some (s.setReader r (.waiting len .fast)) := if_pos hr
  have hwait : step (s.setReader r (.waiting len .fast)) (.wait r)
      = some (s.setReader r (.waiting len (.done 0))) := by
    have hcond' : (s.setReader r (.waiting len .fast)).available = true := hcond
    simp [step, hcond', Wait.step]
  have hcopy : step (s.setReader r (.waiting len (.done 0))) (.copyOut r)
      = some { s.setReader r (.copied (readData s.buffer len)) with
          copiedOut := s.copiedOut ++ s.inBuffer.toList } := by
    simp only [step, setReader_reader_self, if_pos, setReader_setReader]
    rfl
  exact Machine.exec_cons_iff.mpr ⟨_, hread, Machine.exec_cons_iff.mpr ⟨_, hwait,
    Machine.exec_cons_iff.mpr ⟨_, hcopy, rfl⟩⟩⟩

theorem exec_read {s : State R} (h : Quiet s) (havail : s.dataAvailable ≠ 0) (r : R) (len : Nat) :
    ∃ t s', (driver R).exec s [.read r len, .wait r, .copyOut r] = some t ∧
      t.reader r = .copied (readData s.buffer len) ∧
      step t (.clearFlag r) = some s' ∧ Quiet s' ∧ s'.device = ⟨s.buffer, 0⟩ := by
  let t : State R := { s.setReader r (.copied (readData s.buffer len)) with
    copiedOut := s.copiedOut ++ s.inBuffer.toList }
  have hrun : (driver R).exec s [.read r len, .wait r, .copyOut r] = some t :=
    exec_copyOut (h.reader r) havail len
  have hcopied : t.reader r = .copied (readData s.buffer len) := Function.update_self ..
  have hlast : step t (.clearFlag r) = some { t.setReader r .idle with dataAvailable := 0 } := by
    simp only [step, hcopied]
  refine ⟨t, _, hrun, hcopied, hlast, ⟨h.writer, fun r' => ?_⟩, rfl⟩
  by_cases hr : r' = r
  · subst hr
    exact Function.update_self ..
  · simp [t, State.setReader, Function.update_of_ne hr, h.reader]

/-- A call is a run of its steps, from any state with nobody inside. -/
theorem exec_events {s : State R} (h : Quiet s) (r : R) {c : Call} {reply : Reply} {dev : Device}
    (hc : calls.step s.device c = some (reply, dev)) :
    ∃ t s', (driver R).exec s (c.body r) = some t ∧ Answers t r reply c ∧
      step t (c.last r) = some s' ∧ Quiet s' ∧ s'.device = dev := by
  cases c with
  | write buf =>
    obtain ⟨rfl, rfl⟩ := calls_write hc
    obtain ⟨t, s', hrun, ⟨msg, hmsg⟩, hlast, hquiet, hdev⟩ := exec_write h (buf.take MAX_RW_COUNT)
    exact ⟨t, s', hrun, ⟨_, msg, hmsg, rfl⟩, hlast, hquiet, hdev⟩
  | read len =>
    obtain ⟨havail, rfl, rfl⟩ := calls_read hc
    exact exec_read h havail r (min len MAX_RW_COUNT)

/-- **Processes that take turns** make a run of the driver, which ends in the
same device with nobody inside. -/
theorem exec_calls {s : State R} (h : Quiet s) (r : R) {cs : List Call} {rs : List Reply}
    {dev : Device} (hcs : calls.run s.device cs = some (rs, dev)) :
    ∃ s', (driver R).exec s (cs.flatMap fun c => c.body r ++ [c.last r]) = some s' ∧
      Quiet s' ∧ s'.device = dev := by
  induction cs generalizing s rs with
  | nil =>
    cases hcs
    exact ⟨s, rfl, h, rfl⟩
  | cons c cs ih =>
    obtain ⟨reply, dev', rest, hc, hrest, -⟩ := Service.run_cons_iff.mp hcs
    obtain ⟨t, u, hbody, -, hlast, hquiet, rfl⟩ := exec_events h r hc
    obtain ⟨s', hrun, hs'⟩ := ih hquiet hrest
    refine ⟨s', ?_, hs'⟩
    rw [List.flatMap_cons]
    exact Machine.exec_append_iff.mpr
      ⟨u, Machine.exec_concat_iff.mpr ⟨t, hbody, hlast⟩, hrun⟩

end KernelSpace.WaitingQueue
