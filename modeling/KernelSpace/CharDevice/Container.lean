import KernelSpace.CharDevice.Message

/-!
# CharDevice — the container_of driver (5)

`5.char_cdev_container+file/char_cdev_container+file.c`: four minors, each a
`struct my_device` with a buffer and the number of bytes in it. `my_open`
finds the structure around the inode's `cdev` and keeps it in
`file->private_data`, so a file is on the device of its inode.

The `pr_info` lines are left out, and with them the `id` field, which only
they read.
-/

namespace KernelSpace.CharDevice

open KernelSpace.Kernel KernelSpace.Lib

namespace Container

/-- `MINOR_DEVICES`. -/
def minorDevices : Nat := 4

/-- `sizeof(dev->buffer)`. -/
def bufferSize : Nat := 100

/-- `struct my_device`. -/
structure Device where
  buffer : CharArray bufferSize
  size : Int
deriving DecidableEq

def myWrite (dev : Device) (buf : List UInt8) (off : Int) (fault : Option Nat) :
    FileReply × Device :=
  let len := if buf.length > bufferSize then bufferSize else buf.length
  match fault with
  | some k => (⟨-EFAULT, [], off⟩, { dev with buffer := dev.buffer.copyFault buf len k })
  | none => (⟨int64 len, [], off⟩, ⟨dev.buffer.store 0 (buf.take len), int32 len⟩)

def myRead (dev : Device) (len : Nat) (off : Int) (fault : Bool) : FileReply :=
  readBuffer dev.buffer dev.size len off fault

/-- `fops`, on the zeroed `devices[]`. -/
def fops : FileOps Device := ⟨⟨.zero bufferSize, 0⟩, myRead, myWrite⟩

/-- The device holds the message. -/
def Holds (dev : Device) (msg : List UInt8) : Prop :=
  ∃ d : Nat, d ≤ bufferSize ∧ dev.size = d ∧ msg = dev.buffer.bytes.take d

theorem Holds.size {dev : Device} {msg : List UInt8} (h : Holds dev msg) :
    dev.size = msg.length ∧ msg.length ≤ bufferSize := by
  obtain ⟨d, hd, hsize, rfl⟩ := h
  have hlen : (dev.buffer.bytes.take d).length = d :=
    List.length_take_of_le (by rwa [dev.buffer.size])
  rw [hlen]
  exact ⟨hsize, hd⟩

theorem bufferSize_lt : bufferSize < 0x80000000 := by decide

/-- A write keeps what fits and counts it. -/
theorem myWrite_eq (dev : Device) (buf : List UInt8) (off : Int) :
    myWrite dev buf off none
      = (⟨(buf.take bufferSize).length, [], off⟩,
          ⟨dev.buffer.store 0 (buf.take bufferSize), (buf.take bufferSize).length⟩) := by
  have hle : (buf.take bufferSize).length ≤ bufferSize := List.length_take_le ..
  have hlt := bufferSize_lt
  simp only [myWrite, cut_eq, take_length_take]
  rw [int32_of_lt (by omega) (by omega), int64_of_lt (by omega) (by omega)]

/-- **The driver keeps one message on each minor**, of at most 100 bytes. -/
theorem simulates_message :
    fops.Simulates (message bufferSize) Holds fun _ => True where
  fresh := ⟨0, Nat.zero_le _, rfl, rfl⟩
  read dev msg len off h hoff := by
    obtain ⟨d, hd, hsize, rfl⟩ := h
    have hread : myRead dev len off false = _ :=
      hsize ▸ readBuffer_eq dev.buffer hd bufferSize_lt bufferSize len hoff
    exact ⟨hread, Int.add_nonneg hoff (Int.natCast_nonneg _)⟩
  write dev msg buf off _ hoff _ := by
    have hwrite : fops.write dev buf off none = _ := myWrite_eq dev buf off
    rw [hwrite]
    refine ⟨rfl, hoff, (buf.take bufferSize).length, List.length_take_le .., rfl, ?_⟩
    exact (CharArray.take_store dev.buffer (List.length_take_le ..)).symm

/-- A read depends on the message only, failed user copies included. -/
theorem Holds.myRead_congr {dev dev' : Device} {msg : List UInt8} (h : Holds dev msg)
    (h' : Holds dev' msg) (len : Nat) {off : Int} (hoff : 0 ≤ off) (fault : Bool) :
    myRead dev len off fault = myRead dev' len off fault ∧ 0 ≤ (myRead dev' len off fault).off := by
  cases fault with
  | false =>
    obtain ⟨hread, -⟩ := simulates_message.read dev msg len off h hoff
    obtain ⟨hread', hmoved⟩ := simulates_message.read dev' msg len off h' hoff
    exact ⟨hread.trans hread'.symm, (congrArg FileReply.off hread').symm ▸ hmoved⟩
  | true =>
    have hsize : dev.size = dev'.size := h.size.1.trans h'.size.1.symm
    rw [myRead, myRead, readBuffer_fault, readBuffer_fault, hsize]
    refine ⟨rfl, ?_⟩
    split <;> exact hoff

/-- A read of `len` bytes at `off` from a device that holds `W`: the bytes
from `off` on, as many as asked for and there are, none behind the end; the
offset moves by the return value, and no conversion changes a value. -/
structure ReadsSlice (dev : Device) (W : List UInt8) (off : Int) (len : Nat) : Prop where
  bytes : (myRead dev len off false).bytes = slice W off len
  ret : (myRead dev len off false).ret = (slice W off len).length
  behind : W.length ≤ off → (myRead dev len off false).ret = 0
  moved : (myRead dev len off false).off = off + (myRead dev len off false).ret
  exact : Exact dev.size off len

theorem readsSlice_of_holds {dev : Device} {W : List UInt8} (h : Holds dev W) {off : Int}
    (hoff : 0 ≤ off) (len : Nat) : ReadsSlice dev W off len := by
  have hread : myRead dev len off false = (message bufferSize).read W len off false :=
    (simulates_message.read dev W len off h hoff).1
  refine ⟨by rw [hread]; rfl, by rw [hread]; rfl, ?_, by rw [hread]; rfl, ?_⟩
  · intro hge
    rw [hread]
    exact congrArg (fun bs => (List.length bs : Int)) (slice_eq_nil hge len)
  · rw [h.size.1]
    exact exact_of_lt (Nat.lt_of_le_of_lt h.size.2 bufferSize_lt) hoff len

section

variable {F : Type*} [DecidableEq F] (inode : F → Fin minorDevices)

/-- The driver on the files `F`. -/
abbrev driver : Service (Vfs Device (Fin minorDevices) F) (FileCall F) FileReply := vfs fops inode

theorem holds_run {cs : List (FileCall F)} {rs : List FileReply}
    {s : Vfs Device (Fin minorDevices) F} (hcs : ∀ c ∈ cs, c.Copies fun _ => True)
    (h : (driver inode).run (driver inode).init cs = some (rs, s)) :
    ∃ t : Vfs (List UInt8) (Fin minorDevices) F, Vfs.Related Holds s t ∧
      Vfs.OnInode inode t ∧ ∀ n, t.devices n = lastWritten bufferSize inode n cs := by
  have hagree := simulates_message.run inode (simulates_message.init inode) hcs
  obtain ⟨t, hrun, hst⟩ := hagree.exists_right h
  exact ⟨t, hst, Vfs.onInode_run hrun, devices_eq_lastWritten hcs hrun⟩

/-- Every device holds some message, whatever copies failed before. -/
theorem exists_holds {cs : List (FileCall F)} {rs : List FileReply}
    {s : Vfs Device (Fin minorDevices) F}
    (h : (driver inode).run (driver inode).init cs = some (rs, s)) (n : Fin minorDevices) :
    ∃ msg, Holds (s.devices n) msg := by
  refine Vfs.devices_inv (P := fun dev => ∃ msg, Holds dev msg)
    ⟨_, 0, Nat.zero_le _, rfl, rfl⟩ ?_ h n
  intro dev buf off fault hdev
  cases fault with
  | none =>
    rw [show fops.write dev buf off none = _ from myWrite_eq dev buf off]
    exact ⟨_, _, List.length_take_le .., rfl, rfl⟩
  | some k =>
    obtain ⟨msg, d, hd, hsize, -⟩ := hdev
    exact ⟨_, d, hd, hsize, rfl⟩

/-- **Reads return what was written last.** After any run of calls whose user
copies succeed, a read through an open file takes its slice of the first 100
bytes of the data written last to the file's minor. From offset 0, and while
nobody writes to that minor, the reads through the file concatenate to the
front of that data, and to all of it once a read that asks for something
returns 0. -/
theorem reads_last_written (cs : List (FileCall F)) (rs : List FileReply)
    (s : Vfs Device (Fin minorDevices) F) (hcs : ∀ c ∈ cs, c.Copies fun _ => True)
    (hrun : (driver inode).run (driver inode).init cs = some (rs, s)) (f : F)
    (file : OpenFile (Fin minorDevices)) (hf : s.files f = some file) :
    (∀ len, ReadsSlice (s.devices file.device)
        (lastWritten bufferSize inode (inode f) cs) file.off len) ∧
      (file.off = 0 → ∀ ds ps s', (driver inode).run s ds = some (ps, s') →
        (∀ d ∈ ds, d.Copies fun _ => True) → (∀ d ∈ ds, Undisturbed inode f d) →
        received f ds ps = (lastWritten bufferSize inode (inode f) cs).take (requested f ds) ∧
          ∀ file' len, s'.files f = some file' → 0 < len →
            (myRead (s'.devices file'.device) len file'.off false).ret = 0 →
            received f ds ps = lastWritten bufferSize inode (inode f) cs) := by
  obtain ⟨t, hst, hon, hW⟩ := holds_run inode hcs hrun
  have hft : t.files f = some file := hst.files ▸ hf
  have hdev : file.device = inode f := hon f file hft
  have hoff : 0 ≤ file.off := hst.offsets f file hft
  refine ⟨fun len => ?_, ?_⟩
  · rw [hdev, ← hW]
    exact readsSlice_of_holds (hst.devices (inode f)) hoff len
  · intro hzero ds ps s' hds hcopies hund
    obtain ⟨t', hdt, hst'⟩ := (simulates_message.run inode hst hcopies).exists_right hds
    obtain ⟨hrec, hfile, hkept⟩ := received_run hon hft hoff hcopies hund hdt
    rw [hW, hzero] at hrec
    refine ⟨hrec, ?_⟩
    intro file' len hf' hlen hret
    rw [hst'.files, hfile, hzero, Int.zero_add] at hf'
    cases hf'
    have hread := readsSlice_of_holds (hst'.devices (inode f))
      (Int.natCast_nonneg (received f ds ps).length) len
    rw [hdev, hread.ret, length_slice, hkept, hW] at hret
    -- nothing is left behind the bytes received, so they are all of them
    have hall : (lastWritten bufferSize inode (inode f) cs).length ≤ requested f ds := by
      have hle : (received f ds ps).length ≤ requested f ds := by
        rw [hrec]
        exact List.length_take_le ..
      omega
    rw [hrec, slice, Int.toNat_zero, List.drop_zero, List.take_of_length_le hall]

end

/-- Two files on minor 2: one writes three bytes, the other one opens the device. -/
def session : List (FileCall Bool) :=
  [.openFile false, .write false [72, 0, 33] none, .openFile true]

/-- The other one reads, two bytes at a time. -/
def pieces : List (FileCall Bool) := [.read true 2 false, .read true 2 false]

def minorTwo : Fin minorDevices := ⟨2, by decide⟩

/-- Behind the first piece the rest is there to be read, and the pieces are the three
bytes. -/
theorem reads_last_written_session :
    (∃ rs s file, (driver fun _ => minorTwo).run (driver fun _ => minorTwo).init
        (session ++ pieces.take 1) = some (rs, s) ∧ s.files true = some file ∧ file.off = 2 ∧
      ∀ len, ReadsSlice (s.devices file.device) [72, 0, 33] file.off len) ∧
    ∃ rs s ps s', (driver fun _ => minorTwo).run (driver fun _ => minorTwo).init session
        = some (rs, s) ∧ (driver fun _ => minorTwo).run s pieces = some (ps, s') ∧
      received true pieces ps = [72, 0, 33] := by
  have hsession : ∀ c ∈ session, c.Copies fun _ => True := by simp [session, FileCall.Copies]
  have hpieces : ∀ c ∈ pieces, c.Copies fun _ => True := by simp [pieces, FileCall.Copies]
  constructor
  · have hcs : ∀ c ∈ session ++ pieces.take 1, c.Copies fun _ => True := by
      simp [session, pieces, FileCall.Copies]
    refine ⟨_, _, _, rfl, rfl, by decide, ?_⟩
    exact (reads_last_written (fun _ => minorTwo) _ _ _ hcs rfl true _ rfl).1
  · refine ⟨_, _, _, _, rfl, rfl, ?_⟩
    obtain ⟨-, hreads⟩ := reads_last_written (fun _ => minorTwo) _ _ _ hsession rfl true _ rfl
    obtain ⟨-, hall⟩ := hreads rfl pieces _ _ rfl hpieces (by simp [pieces, Undisturbed])
    -- the next read is behind the end
    exact hall _ 1 rfl (by decide) (by decide)

end Container

end KernelSpace.CharDevice
