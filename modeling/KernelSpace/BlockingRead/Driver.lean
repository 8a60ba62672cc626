import KernelSpace.WaitingQueue.Calls

/-!
# BlockingRead — the blocking read driver (10)

`10.Blocking_Read_Driver/char_blocking_read.c`: the one-message protocol of the
wait-queue driver (7), written again. Two things differ. `my_write` returns the
`len` it was given, not the number of bytes it stored; `my_read` goes on after
a signal, as it does not look at what the wait returns.

Without signals and faults, and with processes that take turns, the buffer and
the flag are the same in both drivers at all times, and a call is answered
alike unless it is a write of more than 99 bytes.
-/

namespace KernelSpace.BlockingRead

open KernelSpace.Kernel KernelSpace.Lib
open KernelSpace.WaitingQueue (Call Reply MAX_RW_COUNT)

/-- `sizeof(kernel_buffer)`. -/
def bufSize : Nat := 100

/-- `kernel_buffer` and `data_available`. -/
structure Device where
  kernelBuffer : CharArray bufSize
  dataAvailable : Int
deriving DecidableEq

/-- `fault` is the number of bytes after which `copy_from_user` fails. -/
def myWrite (dev : Device) (buf : List UInt8) (fault : Option Nat) : Reply × Device :=
  let bytes := min buf.length (bufSize - 1)
  match fault with
  | some k => (⟨-EFAULT, []⟩, { dev with kernelBuffer := dev.kernelBuffer.copyFault buf bytes k })
  | none =>
    (⟨int64 buf.length, []⟩, ⟨(dev.kernelBuffer.store 0 (buf.take bytes)).store bytes [0], 1⟩)

/-- `fault` is set where `copy_to_user` fails. -/
def myRead (dev : Device) (len : Nat) (signal fault : Bool) : Option (Reply × Device) :=
  -- a signal ends the wait, and the read goes on
  if dev.dataAvailable = 0 ∧ ¬ signal then none
  else
    let bytes := min len dev.kernelBuffer.str.strlen
    if fault then some (⟨-EFAULT, []⟩, dev)
    else some (⟨int64 bytes, dev.kernelBuffer.bytes.take bytes⟩, { dev with dataAvailable := 0 })

/-- The module as loaded, without signals and faults. -/
def calls : Service Device Call Reply where
  init := ⟨.zero bufSize, 0⟩
  step dev
    | .write buf => some (myWrite dev (buf.take MAX_RW_COUNT) none)
    | .read len => myRead dev (min len MAX_RW_COUNT) false false

/-! ## The two drivers -/

/-- The same buffer and the same flag. -/
structure Same (s : WaitingQueue.Device) (t : Device) : Prop where
  buffer : s.buffer = t.kernelBuffer
  flag : s.dataAvailable = t.dataAvailable

/-- The call fits in the buffer with its NUL. -/
def Fits : Call → Prop
  | .write buf => buf.length ≤ bufSize - 1
  | .read _ => True

theorem writeLen_eq_min (len : Nat) : WaitingQueue.writeLen len = min len (bufSize - 1) :=
  cut_eq_min ..

theorem readLen_eq_min (buffer : CharArray bufSize) (len : Nat) :
    WaitingQueue.readLen buffer len = min len buffer.str.strlen := cut_eq_min ..

/-- What the two writes return: the number of bytes stored, and the number of
bytes given. -/
theorem ret_eq_iff (buf : List UInt8) :
    int64 (WaitingQueue.writeLen (buf.take MAX_RW_COUNT).length)
      = int64 (buf.take MAX_RW_COUNT).length ↔ buf.length ≤ bufSize - 1 := by
  have hle : (buf.take MAX_RW_COUNT).length ≤ 0x7ffff000 := List.length_take_le ..
  have hlen : (buf.take MAX_RW_COUNT).length = min 0x7ffff000 buf.length := List.length_take
  generalize (buf.take MAX_RW_COUNT).length = len at hle hlen ⊢
  have hcut : WaitingQueue.writeLen len = min len (bufSize - 1) := writeLen_eq_min len
  rw [int64_of_lt (x := (WaitingQueue.writeLen len : Nat)) (by omega) (by omega),
    int64_of_lt (x := (len : Nat)) (by omega) (by omega), hcut]
  unfold bufSize
  omega

theorem step_agree {s : WaitingQueue.Device} {t : Device} (h : Same s t) (c : Call) :
    Option.Rel (fun a b => Same a.2 b.2 ∧ (a.1 = b.1 ↔ Fits c)) (WaitingQueue.calls.step s c)
      (calls.step t c) := by
  obtain ⟨buffer, flag⟩ := s
  obtain ⟨kernelBuffer, flag'⟩ := t
  obtain ⟨rfl, rfl⟩ : buffer = kernelBuffer ∧ flag = flag' := ⟨h.buffer, h.flag⟩
  cases c with
  | write buf =>
    refine .some ⟨⟨?_, rfl⟩, ?_⟩
    · simp only [WaitingQueue.myWrite, myWrite, WaitingQueue.fillBuffer, writeLen_eq_min]
      rfl
    · simp only [WaitingQueue.myWrite, myWrite, Reply.mk.injEq, and_true]
      exact ret_eq_iff buf
  | read len =>
    by_cases hflag : flag = 0
    · simp only [WaitingQueue.calls, calls, WaitingQueue.myRead, myRead, hflag]
      exact .none
    · simp only [WaitingQueue.calls, calls, WaitingQueue.myRead, myRead, hflag, if_false]
      have hlen := readLen_eq_min buffer (min len MAX_RW_COUNT)
      exact .some ⟨⟨rfl, rfl⟩, iff_of_true
        (congrArg (fun n : Nat => Reply.mk (int64 n) (buffer.bytes.take n)) hlen) trivial⟩

/-- **The wait-queue driver and the blocking-read driver** on any history of
calls: both accept it or neither does, they end with the same buffer and the
same flag, and all their replies are the same exactly when no write is longer
than 99 bytes. -/
theorem replies_agree_iff (cs : List Call) :
    Option.Rel (fun a b => Same a.2 b.2 ∧ (a.1 = b.1 ↔ ∀ c ∈ cs, Fits c))
      (WaitingQueue.calls.run WaitingQueue.calls.init cs) (calls.run calls.init cs) :=
  Service.run_exact (R := Same) (P := Fits) (fun _ _ c h => step_agree h c) ⟨rfl, rfl⟩ cs

/-- A write of 100 bytes is answered 99 by one and 100 by the other. -/
theorem long_write_told_apart :
    ¬ ∀ (cs : List Call) rs s rs' t,
      WaitingQueue.calls.run WaitingQueue.calls.init cs = some (rs, s) →
      calls.run calls.init cs = some (rs', t) → rs = rs' ∧ Same s t := by
  intro h
  have hsame := (h [.write (List.replicate 100 65)] _ _ _ _ rfl rfl).1
  revert hsame
  decide

end KernelSpace.BlockingRead
