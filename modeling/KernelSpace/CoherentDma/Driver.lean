import KernelSpace.CharDevice.Message
import KernelSpace.CoherentDma.Unbind

/-!
# CoherentDma — what is in the buffer (20)

`my_write` and `my_read` of `20.Coherent_DMA_Buffer/coherent_DMA.c` on the DMA
buffer and `size`, as long as the device is bound. They are those of the
container_of driver (5) with a `size_t` for the size, so the offset is compared
as an unsigned number.
-/

namespace KernelSpace.CoherentDma

open KernelSpace.Kernel KernelSpace.Lib
open KernelSpace.CharDevice (message slice slice_take readBuffer readBuffer_eq cut_eq
  take_length_take)

/-- What is behind `cpu_addr`, and `size`, of `struct my_device`. -/
structure MyDevice where
  cpuAddr : CharArray bufSize
  size : Nat
deriving DecidableEq

def myWrite (mydev : MyDevice) (buf : List UInt8) (off : Int) (fault : Option Nat) :
    FileReply × MyDevice :=
  let len := if buf.length > bufSize then bufSize else buf.length
  match fault with
  | some k => (⟨-EFAULT, [], off⟩, { mydev with cpuAddr := mydev.cpuAddr.copyFault buf len k })
  | none => (⟨int64 len, [], off⟩, ⟨mydev.cpuAddr.store 0 (buf.take len), len⟩)

def myRead (mydev : MyDevice) (len : Nat) (off : Int) (fault : Bool) : FileReply :=
  if sizeT off ≥ mydev.size then ⟨0, [], off⟩
  else
    let left := sizeT (mydev.size - off)
    let len := if len > left then left else len
    if fault then ⟨-EFAULT, [], off⟩
    else ⟨int64 len, (mydev.cpuAddr.bytes.drop (sizeT off)).take len, int64 (off + len)⟩

/-- `fops`, on the zeroed buffer of `dma_alloc_coherent`. -/
def fops : FileOps MyDevice := ⟨⟨.zero bufSize, 0⟩, myRead, myWrite⟩

/-- The device holds the message. -/
def Holds (mydev : MyDevice) (msg : List UInt8) : Prop :=
  mydev.size ≤ bufSize ∧ msg = mydev.cpuAddr.bytes.take mydev.size

theorem bufSize_lt : bufSize < 0x80000000 := by decide

/-- At an offset that a file can have the comparisons are those of the
container_of driver. -/
theorem myRead_eq_readBuffer (mydev : MyDevice) (len : Nat) {off : Int} (hoff : 0 ≤ off)
    (hmax : off < 0x8000000000000000) (fault : Bool) :
    myRead mydev len off fault = readBuffer mydev.cpuAddr mydev.size len off fault := by
  have hto : sizeT off = off.toNat := by
    obtain ⟨o, rfl⟩ := Int.eq_ofNat_of_zero_le hoff
    have hsub := sizeT_sub (a := 0) (Nat.zero_le o) (by omega)
    simpa using hsub
  have htest : off.toNat ≥ mydev.size ↔ off ≥ mydev.size := by omega
  simp only [myRead, readBuffer, hto, htest]

theorem Holds.myRead_eq {mydev : MyDevice} {msg : List UInt8} (h : Holds mydev msg) (len : Nat)
    {off : Int} (hoff : 0 ≤ off) (hmax : off < 0x8000000000000000) :
    myRead mydev len off false = (message bufSize).read msg len off false := by
  obtain ⟨hsize, rfl⟩ := h
  rw [myRead_eq_readBuffer mydev len hoff hmax]
  exact readBuffer_eq mydev.cpuAddr hsize bufSize_lt bufSize len hoff

theorem Holds.size {mydev : MyDevice} {msg : List UInt8} (h : Holds mydev msg) :
    mydev.size = msg.length := by
  rw [h.2, List.length_take_of_le (by rw [mydev.cpuAddr.size]; exact h.1)]

/-- What is left from an offset inside the message, whatever the offset wraps
to. -/
theorem sizeT_left {size : Nat} (hsize : size ≤ bufSize) {off : Int} (h : sizeT off < size) :
    sizeT (size - off) = size - sizeT off := by
  have hlt := bufSize_lt
  unfold sizeT at h ⊢
  omega

/-- A read depends on the message only, failed user copies included. -/
theorem Holds.myRead_congr {mydev mydev' : MyDevice} {msg : List UInt8} (h : Holds mydev msg)
    (h' : Holds mydev' msg) (len : Nat) {off : Int} (hoff : 0 ≤ off) (fault : Bool) :
    myRead mydev len off fault = myRead mydev' len off fault ∧
      0 ≤ (myRead mydev' len off fault).off := by
  have hsize : mydev.size = mydev'.size := h.size.trans h'.size.symm
  simp only [myRead, hsize]
  split
  · exact ⟨rfl, hoff⟩
  · rename_i hinside
    split
    · exact ⟨rfl, hoff⟩
    · have hleft := sizeT_left h'.1 (Nat.lt_of_not_le hinside)
      have hslice : ∀ dev : MyDevice, Holds dev msg → dev.size = mydev'.size →
          (dev.cpuAddr.bytes.drop (sizeT off)).take (min len (mydev'.size - sizeT off))
            = slice msg (sizeT off) len := by
        intro dev hdev heq
        rw [hdev.2, slice_take, heq, Int.toNat_natCast]
      rw [cut_eq_min, hleft, hslice mydev h hsize, hslice mydev' h' rfl]
      refine ⟨rfl, ?_⟩
      have hle := h'.1
      have hlt := bufSize_lt
      have hmoved : int64 (off + (min len (mydev'.size - sizeT off) : Nat))
          = (sizeT off + min len (mydev'.size - sizeT off) : Nat) := by
        have hwrap : (off + (min len (mydev'.size - sizeT off) : Nat)) % 0x10000000000000000
            = (sizeT off + min len (mydev'.size - sizeT off) : Nat) := by
          unfold sizeT at hinside ⊢
          omega
        rw [← int64_emod, hwrap]
        exact int64_of_lt (Int.natCast_nonneg _) (by omega)
      rw [hmoved]
      exact Int.natCast_nonneg _

/-- A write keeps what fits and counts it. -/
theorem myWrite_eq (mydev : MyDevice) (buf : List UInt8) (off : Int) :
    myWrite mydev buf off none = (⟨(buf.take bufSize).length, [], off⟩,
      ⟨mydev.cpuAddr.store 0 (buf.take bufSize), (buf.take bufSize).length⟩) := by
  have hle : (buf.take bufSize).length ≤ bufSize := List.length_take_le ..
  have hlt := bufSize_lt
  simp only [myWrite, cut_eq, take_length_take]
  rw [int64_of_lt (by omega) (by omega)]

theorem holds_myWrite (mydev : MyDevice) (buf : List UInt8) (off : Int) :
    Holds (myWrite mydev buf off none).2 (buf.take bufSize) := by
  rw [myWrite_eq]
  exact ⟨List.length_take_le .., (CharArray.take_store _ (List.length_take_le ..)).symm⟩

section

variable {F : Type*} [DecidableEq F]

/-- The character device on the files `F`. -/
abbrev charDevice (F : Type*) [DecidableEq F] : Service (Vfs MyDevice Unit F) (FileCall F)
    FileReply := vfs fops fun _ => ()

/-- The device holds some message, whatever copies failed before. -/
theorem exists_holds {cs : List (FileCall F)} {rs : List FileReply} {s : Vfs MyDevice Unit F}
    (h : (charDevice F).run (charDevice F).init cs = some (rs, s)) :
    ∃ msg, Holds (s.devices ()) msg := by
  refine Vfs.devices_inv (P := fun mydev => ∃ msg, Holds mydev msg) ⟨_, Nat.zero_le _, rfl⟩ ?_ h ()
  intro mydev buf off fault hdev
  cases fault with
  | none => exact ⟨_, holds_myWrite mydev buf off⟩
  | some k =>
    obtain ⟨msg, hsize, -⟩ := hdev
    exact ⟨_, hsize, rfl⟩

end

end KernelSpace.CoherentDma
