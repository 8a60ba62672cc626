import KernelSpace.WaitingQueue.Calls

/-!
# PollSelect — the poll driver (8)

`8.char_cdev_poll_select_epoll/char_cdev_poll_select_epoll_kernel.c`: the one
message of the wait-queue driver (7) with a `my_read` that does not wait and a
`my_poll`. `my_poll` tells from the flag whether there is something to read,
`my_read` gives what `strlen` finds in the buffer.

The two agree as long as every message starts with a byte that is not a NUL.
-/

namespace KernelSpace.PollSelect

open KernelSpace.Kernel KernelSpace.Lib
open KernelSpace.WaitingQueue (Reply)

/-- `sizeof(buffer)`. -/
def bufferSize : Nat := 100

def POLLIN : BitVec 32 := 0x0001
def POLLRDNORM : BitVec 32 := 0x0040

/-- `buffer` and `data_available`. -/
structure Device where
  buffer : CharArray bufferSize
  dataAvailable : Int
deriving DecidableEq

/-- `fault` is set where `copy_to_user` fails. -/
def myRead (dev : Device) (len : Nat) (fault : Bool) : Reply × Device :=
  if dev.dataAvailable = 0 then (⟨0, []⟩, dev)
  else
    let dataLen := sizeT (int32 dev.buffer.str.strlen)
    let len := if len > dataLen then dataLen else len
    if fault then (⟨-EFAULT, []⟩, dev)
    else (⟨int64 len, dev.buffer.bytes.take len⟩, { dev with dataAvailable := 0 })

/-- `fault` is the number of bytes after which `copy_from_user` fails. -/
def myWrite (dev : Device) (buf : List UInt8) (fault : Option Nat) : Reply × Device :=
  let len := if buf.length > bufferSize - 1 then bufferSize - 1 else buf.length
  match fault with
  | some k => (⟨-EFAULT, []⟩, { dev with buffer := dev.buffer.copyFault buf len k })
  | none => (⟨int64 len, []⟩, ⟨(dev.buffer.store 0 (buf.take len)).store len [0], 1⟩)

/-- `poll_wait` only registers the process. -/
def myPoll (dev : Device) : BitVec 32 :=
  if dev.dataAvailable ≠ 0 then POLLIN ||| POLLRDNORM else 0

inductive Call where
  | write (buf : List UInt8) (fault : Option Nat)
  | read (len : Nat) (fault : Bool)

/-- The module as loaded. -/
def calls : Service Device Call Reply where
  init := ⟨.zero bufferSize, 0⟩
  step dev
    | .write buf fault => some (myWrite dev buf fault)
    | .read len fault => some (myRead dev len fault)

/-- `my_poll` reports `POLLIN` exactly when the next read that asks for
something gets something. -/
def Agrees (dev : Device) : Prop :=
  ∀ len, 0 < len → (myPoll dev &&& POLLIN ≠ 0 ↔ 1 ≤ (myRead dev len false).1.ret)

/-- The call leaves no flag on an empty text. A write has to start with a byte
that is not a NUL; where its copy fails, only if the flag is set from before,
and then that byte has to arrive. -/
def StartsText (dev : Device) : Call → Prop
  | .write buf none => ∃ b ∈ buf[0]?, b ≠ 0
  | .write buf (some k) => dev.dataAvailable = 0 ∨ buf = [] ∨ (0 < k ∧ ∃ b ∈ buf[0]?, b ≠ 0)
  | .read _ _ => True

instance (dev : Device) (c : Call) : Decidable (StartsText dev c) := by
  cases c with
  | write buf fault => cases fault <;> unfold StartsText <;> infer_instance
  | read len fault => exact isTrue trivial

/-! ## The text in the buffer -/

/-- There is text where the flag is set. -/
def Readable (dev : Device) : Prop := dev.dataAvailable = 0 ∨ ∃ b ∈ dev.buffer.bytes[0]?, b ≠ 0

/-- A read that finds the flag returns what it asked for or the whole text. -/
theorem myRead_ret {dev : Device} (h : dev.dataAvailable ≠ 0) (len : Nat) :
    (myRead dev len false).1.ret = min len dev.buffer.str.strlen := by
  have hlen : dev.buffer.str.strlen ≤ bufferSize := dev.buffer.strlen_le
  have hsize : bufferSize < 0x80000000 := by decide
  have hint : int32 dev.buffer.str.strlen = dev.buffer.str.strlen :=
    int32_of_lt (by omega) (by omega)
  have hcut : sizeT (int32 dev.buffer.str.strlen) = dev.buffer.str.strlen := by
    have hsub := sizeT_sub (a := 0) (Nat.zero_le dev.buffer.str.strlen) (by omega)
    rw [hint]
    simpa using hsub
  simp only [myRead, h, if_false, hcut, Bool.false_eq_true, cut_eq_min]
  exact int64_of_lt (by omega) (by omega)

theorem agrees_iff (dev : Device) : Agrees dev ↔ Readable dev := by
  have hbit : (POLLIN ||| POLLRDNORM) &&& POLLIN ≠ 0 := by decide
  by_cases hflag : dev.dataAvailable = 0
  · refine iff_of_true (fun len _ => ?_) (.inl hflag)
    simp [myPoll, myRead, hflag]
  · have hpoll : myPoll dev &&& POLLIN ≠ 0 := by
      rwa [myPoll, if_pos hflag]
    have htext : (∃ b ∈ dev.buffer.bytes[0]?, b ≠ 0) ↔ 0 < dev.buffer.str.strlen := by
      rw [CharArray.str, CString.lt_strlen_ofBytes_iff]
      simp
    rw [Readable, or_iff_right hflag, htext]
    constructor
    · intro h
      have hone := (h 1 Nat.one_pos).mp hpoll
      rw [myRead_ret hflag] at hone
      omega
    · intro h len hlen
      refine iff_of_true hpoll ?_
      rw [myRead_ret hflag]
      omega

/-! ## What a call leaves -/

section

variable {dev : Device} (buf : List UInt8)

/-- The first byte behind a write that succeeded: the first one written, or the NUL. -/
theorem first_byte_written :
    (myWrite dev buf none).2.buffer.bytes[0]? = some (buf[0]?.getD 0) := by
  let len := min buf.length (bufferSize - 1)
  have hlen : len ≤ bufferSize - 1 := Nat.min_le_right ..
  have htake : (buf.take len).length = len := List.length_take_of_le (Nat.min_le_left ..)
  have hwrite : (myWrite dev buf none).2.buffer
      = (dev.buffer.store 0 (buf.take len)).store len [0] := by
    simp only [myWrite, cut_eq_min, len]
  have hnul : len + [(0 : UInt8)].length ≤ bufferSize := by
    rw [List.length_singleton]
    have : 0 < bufferSize := by decide
    omega
  have htext : 0 + (buf.take len).length ≤ bufferSize := by omega
  rw [hwrite, CharArray.getElem?_store _ hnul, CharArray.getElem?_store _ htext, htake]
  cases buf with
  | nil => rfl
  | cons b buf =>
    have hpos : 0 < len := Nat.lt_min.mpr ⟨Nat.succ_pos _, by decide⟩
    rw [if_neg (by omega), if_pos (by omega), List.getElem?_take_of_lt (by omega)]
    rfl

/-- The first byte behind a write that failed after `k` bytes. -/
theorem first_byte_fault (k : Nat) : (myWrite dev buf (some k)).2.buffer.bytes[0]?
    = if buf = [] then dev.buffer.bytes[0]?
      else some (CharArray.faultByte buf k 0) := by
  have hwrite : (myWrite dev buf (some k)).2.buffer
      = dev.buffer.copyFault buf (min buf.length (bufferSize - 1)) k := by
    simp only [myWrite, cut_eq_min]
  have hle : min buf.length (bufferSize - 1) ≤ bufferSize :=
    Nat.le_trans (Nat.min_le_right ..) (Nat.sub_le ..)
  rw [hwrite, CharArray.getElem?_copyFault _ hle (Nat.min_le_left ..)]
  cases buf with
  | nil => rfl
  | cons b buf =>
    have hpos : 0 < min (b :: buf).length (bufferSize - 1) :=
      Nat.lt_min.mpr ⟨Nat.succ_pos _, by decide⟩
    rw [if_pos hpos, if_neg (List.cons_ne_nil b buf)]

end

/-- **One call**: from a state where the two agree, they agree behind it
exactly if it leaves no flag on an empty text. -/
theorem readable_step_iff {dev dev' : Device} {c : Call} (h : Readable dev)
    (hs : calls.machine.step dev c = some dev') : Readable dev' ↔ StartsText dev c := by
  obtain ⟨r, hstep⟩ := Service.machine_step_iff.mp hs
  cases c with
  | write buf fault =>
    cases fault with
    | none =>
      have hdev : dev' = (myWrite dev buf none).2 := congrArg Prod.snd (Option.some.inj hstep).symm
      have hflag : dev'.dataAvailable ≠ 0 := by
        rw [hdev]
        exact Int.one_ne_zero
      rw [Readable, or_iff_right hflag, hdev, first_byte_written, StartsText]
      cases buf[0]? <;> simp
    | some k =>
      have hdev : dev' = (myWrite dev buf (some k)).2 :=
        congrArg Prod.snd (Option.some.inj hstep).symm
      have hflag : dev'.dataAvailable = dev.dataAvailable := by
        rw [hdev]
        rfl
      rw [Readable, hflag, hdev, first_byte_fault, StartsText]
      refine or_congr_right' fun hset => ?_
      have hold : ∃ b ∈ dev.buffer.bytes[0]?, b ≠ 0 := h.resolve_left hset
      cases buf with
      | nil => simpa using hold
      | cons b buf =>
        simp only [List.cons_ne_nil, if_false, false_or, CharArray.faultByte]
        split <;> simp_all
  | read len fault =>
    have hdev : dev' = (myRead dev len fault).2 := congrArg Prod.snd (Option.some.inj hstep).symm
    refine iff_of_true ?_ trivial
    rw [hdev, myRead]
    split
    · exact h
    · cases fault with
      | true => exact h
      | false => exact .inl rfl

/-- **`POLLIN` means that there is something to read**, in every state of a run
of writes and reads, faults included, exactly when no call of it leaves the
flag on an empty text. -/
theorem poll_agrees_iff {cs : List Call} {dev : Device} (h : calls.machine.Reaches cs dev) :
    calls.machine.Always Agrees calls.init cs ↔ calls.machine.Along StartsText calls.init cs := by
  have hstep : ∀ dev c dev', Readable dev → StartsText dev c →
      calls.machine.step dev c = some dev' → Readable dev' :=
    fun dev c dev' hr hc hs => (readable_step_iff hr hs).mpr hc
  have hbad : ∀ dev c dev', Readable dev → calls.machine.step dev c = some dev' →
      Agrees dev' → StartsText dev c :=
    fun dev c dev' hr hs ha => (readable_step_iff hr hs).mp ((agrees_iff dev').mp ha)
  exact Machine.always_iff_along (fun dev => (agrees_iff dev).mpr) hstep hbad (.inl rfl) h

/-- A text is written and read in two goes, and a second write fails before its first byte. -/
def textThenFault : List Call :=
  [.write [72, 105] none, .read 1 false, .read 1 false, .write [72, 105] (some 0)]

theorem textThenFault_run : (calls.machine.exec calls.init textThenFault).isSome := by decide

theorem poll_agrees_iff_text : calls.machine.Always Agrees calls.init textThenFault :=
  (poll_agrees_iff (Option.some_get textThenFault_run).symm).mpr (by decide)

/-- Behind an empty write `POLLIN` is set and a read returns 0. -/
theorem poll_disagrees_empty_write :
    ¬ ∀ cs dev, calls.machine.Reaches cs dev → Agrees dev := by
  intro h
  have hempty := h [.write [] none] _ rfl 1 Nat.one_pos
  revert hempty
  decide

end KernelSpace.PollSelect
