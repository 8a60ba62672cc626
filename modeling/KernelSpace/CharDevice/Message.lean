import KernelSpace.Kernel.CTypes
import KernelSpace.Kernel.CString
import KernelSpace.Kernel.Errno
import KernelSpace.Kernel.Vfs

/-!
# CharDevice — a device that holds one message

What the simple character drivers are for: a write replaces the message of a
device, cut at a capacity, and a read at an offset takes its piece of it and
moves the offset behind that piece. `message` is this meaning without buffers
and C arithmetic; the drivers are compared with it.

Reading a message piece by piece gives the message (`received_eq`), whatever
is done to other files and other devices in between.

`readBuffer` is the read function that the drivers share, on a buffer whose
first `dataLen` bytes are the message; `readBuffer_eq` says that it computes
what `message` says, its mixed signed and unsigned arithmetic included.
-/

namespace KernelSpace.CharDevice

open KernelSpace.Kernel KernelSpace.Lib

/-! ## The message device -/

/-- The piece of `len` bytes of the message at `off`. -/
def slice (msg : List UInt8) (off : Int) (len : Nat) : List UInt8 := (msg.drop off.toNat).take len

/-- Devices that hold a message of at most `cap` bytes. A call whose user copy
fails changes nothing. -/
def message (cap : Nat) : FileOps (List UInt8) where
  fresh := []
  read msg len off fault :=
    if fault then ⟨-EFAULT, [], off⟩
    else ⟨(slice msg off len).length, slice msg off len, off + (slice msg off len).length⟩
  write msg buf off fault :=
    if fault.isSome then (⟨-EFAULT, [], off⟩, msg)
    else (⟨(buf.take cap).length, [], off⟩, buf.take cap)

/-- The message of device `n` after one more call. -/
def afterCall {N F : Type*} [DecidableEq N] (cap : Nat) (inode : F → N) (n : N)
    (msg : List UInt8) : FileCall F → List UInt8
  | .write f buf _ => if inode f = n then buf.take cap else msg
  | _ => msg

/-- What was written last to device `n`, cut at the capacity. -/
def lastWritten {N F : Type*} [DecidableEq N] (cap : Nat) (inode : F → N) (n : N)
    (cs : List (FileCall F)) : List UInt8 := cs.foldl (afterCall cap inode n) []

/-- The bytes that `f` got from the calls, in order. -/
def received {F : Type*} [DecidableEq F] (f : F) :
    List (FileCall F) → List FileReply → List UInt8
  | .read g _ _ :: cs, r :: rs => (if g = f then r.bytes else []) ++ received f cs rs
  | _ :: cs, _ :: rs => received f cs rs
  | _, _ => []

/-- How many bytes `f` asked for in the calls. -/
def requested {F : Type*} [DecidableEq F] (f : F) : List (FileCall F) → Nat
  | [] => 0
  | .read g len _ :: cs => (if g = f then len else 0) + requested f cs
  | _ :: cs => requested f cs

/-- The call neither closes nor repositions `f`, and does not write to its
device. -/
def Undisturbed {N F : Type*} (inode : F → N) (f : F) : FileCall F → Prop
  | .release g | .seek g _ => g ≠ f
  | .write g _ _ => inode g ≠ inode f
  | _ => True

/-- Two pieces, the second one from where the first one ended. -/
theorem slice_append (msg : List UInt8) {off : Int} (hoff : 0 ≤ off) (a b : Nat) :
    slice msg off a ++ slice msg (off + (slice msg off a).length) b = slice msg off (a + b) := by
  have hto : (off + (slice msg off a).length).toNat = off.toNat + (slice msg off a).length := by
    omega
  simp only [slice] at hto ⊢
  rw [hto, ← List.drop_drop, List.take_add]
  congr 1
  rw [List.length_take]
  -- a first piece that fell short reached the end, where both rests are empty
  rcases Nat.le_total a (msg.drop off.toNat).length with hle | hge
  · rw [Nat.min_eq_left hle]
  · rw [Nat.min_eq_right hge, List.drop_length, List.drop_eq_nil_of_le hge]

/-! ## Histories -/

section

variable {N F : Type*} [DecidableEq N] [DecidableEq F] {cap : Nat} {inode : F → N}

/-- **The message of a device** is what was written to it last. -/
theorem devices_eq_lastWritten {s : Vfs (List UInt8) N F} {cs : List (FileCall F)}
    {rs : List FileReply} (hcs : ∀ c ∈ cs, c.Copies fun _ => True)
    (h : (vfs (message cap) inode).run (vfs (message cap) inode).init cs = some (rs, s)) (n : N) :
    s.devices n = lastWritten cap inode n cs := by
  have hwrite : ∀ msg buf off, ((message cap).write msg buf off none).2 = buf.take cap :=
    fun _ _ _ => rfl
  have hmsg := Vfs.devices_run (w := fun _ buf => buf.take cap) hwrite
    (by intro f file hf; cases hf) hcs h n
  have hcall : afterCall cap inode n
      = fun msg c => FileCall.afterWrite (fun _ buf => buf.take cap) inode n msg c := by
    funext msg c
    cases c <;> rfl
  rw [hmsg, lastWritten, hcall]
  rfl

theorem received_cons_of_ne {f : F} {c : FileCall F} (h : c.file ≠ f) (cs : List (FileCall F))
    (r : FileReply) (rs : List FileReply) :
    received f (c :: cs) (r :: rs) = received f cs rs ∧ requested f (c :: cs) = requested f cs := by
  cases c with
  | read g len fault =>
    have hg : g ≠ f := h
    simp [received, requested, hg]
  | openFile | release | seek | write => exact ⟨rfl, rfl⟩

omit [DecidableEq N] [DecidableEq F] in
theorem not_writesTo_of_undisturbed {f : F} {c : FileCall F} (h : Undisturbed inode f c) :
    ¬ c.WritesTo inode (inode f) := by
  cases c with
  | write g buf fault => exact h
  | openFile | release | seek | read => exact id

theorem step_read {s s' : Vfs (List UInt8) N F} {f : F} {file : OpenFile N} {len : Nat}
    {r : FileReply} (hon : Vfs.OnInode inode s) (hf : s.files f = some file)
    (h : s.step (message cap) inode (.read f len false) = some (r, s')) :
    r.bytes = slice (s.devices (inode f)) file.off len ∧
      s'.files f = some { file with off := file.off + r.bytes.length } := by
  obtain ⟨file', hfile', rfl, rfl⟩ := Vfs.step_spec h
  cases hf.symm.trans hfile'
  rw [← hon f file hf, Vfs.setFile_files_self]
  exact ⟨rfl, rfl⟩

/-- **Reading in pieces.** The bytes a file gets from calls that leave it and
its device alone are one slice, from where it stood, of all it asked for. -/
theorem received_run {s s' : Vfs (List UInt8) N F} {f : F} {file : OpenFile N}
    {cs : List (FileCall F)} {rs : List FileReply} (hon : Vfs.OnInode inode s)
    (hf : s.files f = some file) (hoff : 0 ≤ file.off)
    (hcs : ∀ c ∈ cs, c.Copies fun _ => True) (hund : ∀ c ∈ cs, Undisturbed inode f c)
    (h : (vfs (message cap) inode).run s cs = some (rs, s')) :
    received f cs rs = slice (s.devices (inode f)) file.off (requested f cs) ∧
      s'.files f = some { file with off := file.off + (received f cs rs).length } ∧
      s'.devices (inode f) = s.devices (inode f) := by
  induction cs generalizing s rs file with
  | nil =>
    cases h
    simp [received, requested, slice, hf]
  | cons c cs ih =>
    obtain ⟨r, t, rest, hc, hrun, rfl⟩ := Service.run_cons_iff.mp h
    have hdev : t.devices (inode f) = s.devices (inode f) :=
      Vfs.devices_step_of_not_writesTo hon
        (not_writesTo_of_undisturbed (hund c List.mem_cons_self)) hc
    have hon' : Vfs.OnInode inode t := Vfs.onInode_step hon hc
    have hcs' : ∀ d ∈ cs, d.Copies fun _ => True := fun d hd => hcs d (List.mem_cons_of_mem c hd)
    have hund' : ∀ d ∈ cs, Undisturbed inode f d := fun d hd => hund d (List.mem_cons_of_mem c hd)
    by_cases hcf : c.file = f
    · have hnot := hund c List.mem_cons_self
      have hspec := Vfs.step_spec hc
      cases c with
      | openFile g =>
        cases show g = f from hcf
        cases hf.symm.trans hspec.1
      | release g | seek g off => exact absurd hcf hnot
      | write g buf fault => exact absurd (congrArg inode hcf) hnot
      | read g len fault =>
        cases show g = f from hcf
        cases hcs _ List.mem_cons_self
        obtain ⟨hbytes, hfile⟩ := step_read hon hf hc
        have hoff' : 0 ≤ file.off + r.bytes.length := by omega
        obtain ⟨hrec, hfiles, hdevs⟩ := ih hon' hfile hoff' hcs' hund' hrun
        rw [hdev] at hrec hdevs
        simp only [received, requested, if_true]
        refine ⟨?_, ?_, hdevs⟩
        · rw [hrec, hbytes]
          exact slice_append _ hoff _ _
        · rw [hfiles, List.length_append, Int.natCast_add, Int.add_assoc]
    · obtain ⟨hrec, hreq⟩ := received_cons_of_ne hcf cs r rest
      rw [hrec, hreq, ← hdev]
      exact ih hon' (by rwa [Vfs.files_step_of_ne hcf hc]) hoff hcs' hund' hrun

end

/-! ## The read function of the drivers -/

/-- `my_read` on a buffer with `data_len` bytes in it: `len` is a `size_t`,
the offset a `loff_t` and `data_len` an `int`, and C converts where they meet. -/
def readBuffer {n : Nat} (buffer : CharArray n) (dataLen : Int) (len : Nat) (off : Int)
    (fault : Bool) : FileReply :=
  if off ≥ dataLen then ⟨0, [], off⟩
  else
    let left := sizeT (dataLen - off)
    let len := if len > left then left else len
    if fault then ⟨-EFAULT, [], off⟩
    else ⟨int64 len, (buffer.bytes.drop off.toNat).take len, int64 (off + len)⟩

/-- The mixed arithmetic of a read keeps the values: what is left from the
offset as a `size_t`, the test of `len` against it, and the return value and
the offset of a read that ends inside the data. -/
structure Exact (dataLen off : Int) (len : Nat) : Prop where
  left : off < dataLen → (sizeT (dataLen - off) : Int) = dataLen - off
  test : off < dataLen → (len > sizeT (dataLen - off) ↔ (len : Int) > dataLen - off)
  count : ∀ k : Nat, off + k ≤ dataLen → int64 k = k
  moved : ∀ k : Nat, off + k ≤ dataLen → int64 (off + k) = off + k

theorem exact_of_lt {d : Nat} (hd : d < 0x80000000) {off : Int} (hoff : 0 ≤ off) (len : Nat) :
    Exact d off len := by
  have hint : ∀ x : Int, 0 ≤ x → x ≤ d → int64 x = x := fun x h0 hx =>
    int64_of_lt h0 (Int.lt_of_le_of_lt hx (by omega))
  have hleft : off < d → (sizeT (d - off) : Int) = d - off := by
    intro hlt
    obtain ⟨o, rfl⟩ := Int.eq_ofNat_of_zero_le hoff
    rw [sizeT_sub (by omega) (by omega)]
    omega
  refine ⟨hleft, ?_, ?_, ?_⟩
  · intro hlt
    have := hleft hlt
    omega
  · intro k hk
    exact hint k (Int.natCast_nonneg k) (by omega)
  · intro k hk
    exact hint _ (Int.add_nonneg hoff (Int.natCast_nonneg k)) hk

theorem slice_eq_nil {msg : List UInt8} {off : Int} (h : (msg.length : Int) ≤ off) (len : Nat) :
    slice msg off len = [] := by
  rw [slice, List.drop_eq_nil_of_le (by omega), List.take_nil]

theorem slice_take (bytes : List UInt8) (d : Nat) (off : Int) (len : Nat) :
    slice (bytes.take d) off len = (bytes.drop off.toNat).take (min len (d - off.toNat)) := by
  rw [slice, List.drop_take, List.take_take]

theorem length_slice {msg : List UInt8} {off : Int} (len : Nat) :
    (slice msg off len).length = min len (msg.length - off.toNat) := by
  rw [slice, List.length_take, List.length_drop]

/-- `if (len > cap) len = cap;` makes `len` the length of what is kept. -/
theorem cut_eq (buf : List UInt8) (cap : Nat) :
    (if buf.length > cap then cap else buf.length) = (buf.take cap).length := by
  rw [List.length_take, cut_eq_min, Nat.min_comm]

theorem take_length_take (buf : List UInt8) (cap : Nat) :
    buf.take (buf.take cap).length = buf.take cap := by
  rw [List.length_take, ← List.take_take, List.take_length]

theorem readBuffer_fault {n : Nat} (buffer : CharArray n) (dataLen : Int) (len : Nat) (off : Int) :
    readBuffer buffer dataLen len off true
      = if off ≥ dataLen then ⟨0, [], off⟩ else ⟨-EFAULT, [], off⟩ := by
  simp only [readBuffer, if_pos]

/-- **The drivers' read** is that of the message in the buffer. -/
theorem readBuffer_eq {n : Nat} (buffer : CharArray n) {d : Nat} (hd : d ≤ n)
    (hn : n < 0x80000000) (cap len : Nat) {off : Int} (hoff : 0 ≤ off) :
    readBuffer buffer d len off false = (message cap).read (buffer.bytes.take d) len off false := by
  have hlen : d ≤ buffer.bytes.length := by rwa [buffer.size]
  have hmsg : (buffer.bytes.take d).length = d := List.length_take_of_le hlen
  have hexact := exact_of_lt (Nat.lt_of_le_of_lt hd hn) hoff len
  rcases Int.lt_or_le off d with hlt | hge
  · -- something is left from the offset on
    have hleft : sizeT (d - off) = d - off.toNat := by
      have := hexact.left hlt
      omega
    have hcut : (if len > sizeT (d - off) then sizeT (d - off) else len)
        = min len (d - off.toNat) := by
      rw [hleft]
      split <;> omega
    have hslice : (slice (buffer.bytes.take d) off len).length = min len (d - off.toNat) := by
      rw [length_slice, hmsg]
    have hread : readBuffer buffer d len off false
        = ⟨int64 (min len (d - off.toNat) : Nat),
            (buffer.bytes.drop off.toNat).take (min len (d - off.toNat)),
            int64 (off + (min len (d - off.toNat) : Nat))⟩ := by
      rw [readBuffer, if_neg (by omega)]
      simp only [hcut, Bool.false_eq_true, if_false]
    have hle : off + (min len (d - off.toNat) : Nat) ≤ d := by omega
    rw [hread, hexact.count _ hle, hexact.moved _ hle, ← slice_take, ← hslice]
    rfl
  · -- at or behind the end
    have hnil : slice (buffer.bytes.take d) off len = [] := slice_eq_nil (by rwa [hmsg]) len
    rw [readBuffer, if_pos hge]
    simp [message, hnil]

end KernelSpace.CharDevice
