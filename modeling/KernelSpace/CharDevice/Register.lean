import KernelSpace.CharDevice.Container

/-!
# CharDevice — the register_chrdev driver (3)

`3.chardev_register/chardev_register-2.c`: one buffer for the whole driver,
which ends the data with a NUL and finds its length with `strlen`. Bytes of
older and longer messages stay behind the NUL.

On data without a NUL it is a message device of capacity 99, so it cannot be
told from one minor of the container_of driver while the data is short enough
for both.
-/

namespace KernelSpace.CharDevice

open KernelSpace.Kernel KernelSpace.Lib

namespace Register

/-- `BUF_SIZE`. -/
def bufSize : Nat := 100

def myWrite (kernelBuffer : CharArray bufSize) (buf : List UInt8) (off : Int)
    (fault : Option Nat) : FileReply × CharArray bufSize :=
  let len := if buf.length > bufSize - 1 then bufSize - 1 else buf.length
  match fault with
  | some k => (⟨-EFAULT, [], off⟩, kernelBuffer.copyFault buf len k)
  | none => (⟨int64 len, [], off⟩, (kernelBuffer.store 0 (buf.take len)).store len [0])

def myRead (kernelBuffer : CharArray bufSize) (len : Nat) (off : Int) (fault : Bool) :
    FileReply :=
  readBuffer kernelBuffer (int32 kernelBuffer.str.strlen) len off fault

/-- `my_fops`, on the zeroed `kernel_buffer`. -/
def myFops : FileOps (CharArray bufSize) := ⟨.zero bufSize, myRead, myWrite⟩

/-- The text in the buffer is the message, and its NUL is in the buffer too. -/
def Holds (kernelBuffer : CharArray bufSize) (msg : List UInt8) : Prop :=
  kernelBuffer.str.chars = msg ∧ msg.length < bufSize

theorem bufSize_lt : bufSize < 0x80000000 := by decide

/-- A write of data without a NUL: what fits, and its length. -/
theorem myWrite_eq (kernelBuffer : CharArray bufSize) {buf : List UInt8} (h : 0 ∉ buf)
    (off : Int) :
    (myWrite kernelBuffer buf off none).1 = ⟨(buf.take (bufSize - 1)).length, [], off⟩ ∧
      Holds (myWrite kernelBuffer buf off none).2 (buf.take (bufSize - 1)) := by
  have hlt : (buf.take (bufSize - 1)).length < bufSize :=
    Nat.lt_of_le_of_lt (List.length_take_le ..) (by decide)
  have hcount : int64 (buf.take (bufSize - 1)).length = (buf.take (bufSize - 1)).length := by
    have := bufSize_lt
    exact int64_of_lt (by omega) (by omega)
  let text : CString := ⟨buf.take (bufSize - 1), fun h0 => h (List.mem_of_mem_take h0)⟩
  simp only [myWrite, cut_eq, take_length_take, hcount, true_and]
  exact ⟨congrArg CString.chars (CharArray.str_store_nul kernelBuffer (s := text) hlt), hlt⟩

/-- **The driver keeps one message**, of at most 99 bytes, as long as what is
written has no NUL in it. -/
theorem simulates_message :
    myFops.Simulates (message (bufSize - 1)) Holds fun buf => 0 ∉ buf where
  fresh := ⟨by decide, by decide⟩
  read kernelBuffer msg len off h hoff := by
    obtain ⟨rfl, hlt⟩ := h
    have hstrlen : int32 kernelBuffer.str.strlen = (kernelBuffer.str.strlen : Nat) := by
      have : kernelBuffer.str.strlen < bufSize := hlt
      have := bufSize_lt
      exact int32_of_lt (by omega) (by omega)
    have hread := readBuffer_eq kernelBuffer (d := kernelBuffer.str.strlen) (Nat.le_of_lt hlt)
      bufSize_lt (bufSize - 1) len hoff
    rw [CharArray.take_strlen, ← hstrlen] at hread
    exact ⟨hread, Int.add_nonneg hoff (Int.natCast_nonneg _)⟩
  write kernelBuffer msg buf off _ hoff hW := by
    obtain ⟨hret, hholds⟩ := myWrite_eq kernelBuffer hW off
    exact ⟨hret, hoff, hholds⟩

end Register

/-- Capacity does not matter for data that fits. -/
theorem message_simulates {cap cap' : Nat} :
    (message cap).Simulates (message cap') Eq fun buf => buf.length ≤ cap ∧ buf.length ≤ cap' where
  fresh := rfl
  read msg msg' len off h hoff := by
    subst h
    exact ⟨rfl, Int.add_nonneg hoff (Int.natCast_nonneg _)⟩
  write msg msg' buf off _ hoff hW := by
    have hcut : buf.take cap = buf.take cap' := by
      rw [List.take_of_length_le hW.1, List.take_of_length_le hW.2]
    refine ⟨?_, hoff, hcut⟩
    simp only [message, hcut]
    rfl

/-- **The two drivers cannot be told apart.** On NUL-free data of at most 99
bytes, through any number of files, the `register_chrdev` driver and one minor
of the container_of driver give every call the same return value, the same
bytes and the same offset. -/
theorem same_replies {F : Type*} [DecidableEq F] (minor : Fin Container.minorDevices)
    (cs : List (FileCall F)) (hcs : ∀ c ∈ cs, c.Copies fun buf => 0 ∉ buf ∧ buf.length ≤ 99) :
    Register.myFops.replies (fun _ => ()) cs = Container.fops.replies (fun _ => minor) cs := by
  have hnul : ∀ c ∈ cs, c.Copies fun buf => 0 ∉ buf := fun c hc => (hcs c hc).mono fun _ h => h.1
  have hany : ∀ c ∈ cs, c.Copies fun _ => True := fun c hc => (hcs c hc).mono fun _ _ => trivial
  have hfit : ∀ c ∈ cs, c.Copies fun buf =>
      buf.length ≤ Register.bufSize - 1 ∧ buf.length ≤ Container.bufferSize :=
    fun c hc => (hcs c hc).mono fun _ h => ⟨h.2, Nat.le_succ_of_le h.2⟩
  calc Register.myFops.replies (fun _ => ()) cs
      = (message (Register.bufSize - 1)).replies (fun _ => ()) cs :=
        Register.simulates_message.replies_eq _ hnul
    _ = (message Container.bufferSize).replies (fun _ => ()) cs :=
        message_simulates.replies_eq _ hfit
    _ = (message Container.bufferSize).replies (fun _ => minor) cs :=
        Vfs.replies_rename (Function.injective_of_subsingleton fun _ : Unit => minor) _ _ cs
    _ = Container.fops.replies (fun _ => minor) cs :=
        (Container.simulates_message.replies_eq _ hany).symm

/-- A second write shrinks the message under a file that has read two bytes. -/
def shrunk : List (FileCall Bool) :=
  [.openFile false, .write false [65, 66, 67] none, .openFile true, .read true 2 false,
    .write false [90] none, .read true 5 false]

theorem same_replies_shrunk :
    Register.myFops.replies (fun _ => ()) shrunk
      = Container.fops.replies (fun _ => Container.minorTwo) shrunk :=
  same_replies Container.minorTwo shrunk (by simp [shrunk, FileCall.Copies])

end KernelSpace.CharDevice
