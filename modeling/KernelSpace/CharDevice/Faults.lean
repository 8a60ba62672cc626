import KernelSpace.CharDevice.WriteAll
import KernelSpace.Ioctl.Driver
import KernelSpace.WaitingQueue.Faults

/-!
# CharDevice — writes that fail (5, 6, 7, 20)

Four drivers copy what the user writes straight into the memory that they read
from: the container_of driver, the coherent DMA driver, the wait-queue driver
and `SET_VALUE` of the ioctl driver. What describes the memory (`size`, the
flag) follows only when the copy has succeeded. So a `copy_from_user` that fails
behind `k` bytes leaves the old description on a memory that now begins with
these bytes and zeros. (The DMA engine driver 21a copies into a staging buffer,
which nobody reads.)

`CopiesInPlace` is what the two message drivers have in common here. A failed
call goes unnoticed exactly when it changes nothing in the bytes that show
(`CharArray.Unharmed`).
-/

namespace KernelSpace.CharDevice

open KernelSpace.Kernel KernelSpace.Lib

/-- The call is no write to device `n` that succeeds. -/
def KeepsMessageOf {N F : Type*} (inode : F → N) (n : N) : FileCall F → Prop
  | .write f _ none => inode f ≠ n
  | _ => True

/-- Two devices that hold the same message. -/
def SameMessage {D : Type*} (R : D → List UInt8 → Prop) (dev dev' : D) : Prop :=
  ∃ msg, R dev msg ∧ R dev' msg

/-- A driver that keeps its message at the front of `buffer`, where it copies
what is written: reads see the message only, and a failed write leaves as long
a message there as there was. -/
structure CopiesInPlace {D : Type*} (ops : FileOps D) (cap : Nat) (R : D → List UInt8 → Prop)
    (buffer : D → CharArray cap) : Prop extends KeepsMessage ops cap R where
  fresh : ∃ msg, R ops.fresh msg
  front : ∀ {dev msg}, R dev msg → msg = (buffer dev).bytes.take msg.length
  reads : ∀ {dev dev' msg}, R dev msg → R dev' msg → ∀ len off fault, 0 ≤ off →
    ops.read dev len off fault = ops.read dev' len off fault ∧ 0 ≤ (ops.read dev' len off fault).off
  failed : ∀ dev buf off k, (ops.write dev buf off (some k)).1 = ⟨-EFAULT, [], off⟩
  left : ∀ {dev msg}, R dev msg → ∀ buf off k, R (ops.write dev buf off (some k)).2
    (((buffer dev).copyFault buf (min buf.length cap) k).bytes.take msg.length)

section

variable {D : Type*} {ops : FileOps D} {cap : Nat} {R : D → List UInt8 → Prop}
variable {buffer : D → CharArray cap}

/-- Devices with the same message behave the same from then on. -/
theorem CopiesInPlace.respects (h : CopiesInPlace ops cap R buffer) :
    ops.Respects (SameMessage R) where
  fresh := by
    obtain ⟨msg, hmsg⟩ := h.fresh
    exact ⟨msg, hmsg, hmsg⟩
  read dev dev' len off fault hsame hoff := by
    obtain ⟨msg, hdev, hdev'⟩ := hsame
    exact h.reads hdev hdev' len off fault hoff
  write dev dev' buf off fault hsame hoff := by
    cases fault with
    | none =>
      have hwrite := h.write dev buf off
      have hwrite' := h.write dev' buf off
      exact ⟨hwrite.1.trans hwrite'.1.symm, by rw [hwrite'.1]; exact hoff, _, hwrite.2, hwrite'.2⟩
    | some k =>
      obtain ⟨msg, hdev, hdev'⟩ := hsame
      have hfailed' := h.failed dev' buf off k
      refine ⟨(h.failed dev buf off k).trans hfailed'.symm, by rw [hfailed']; exact hoff, _,
        h.left hdev buf off k, ?_⟩
      have hleft' := h.left hdev' buf off k
      rwa [CharArray.take_copyFault_congr ((h.front hdev').symm.trans (h.front hdev))
        (Nat.min_le_right ..) (Nat.min_le_left ..)] at hleft'

/-- What a read of the whole message returns. -/
theorem CopiesInPlace.read_all (h : CopiesInPlace ops cap R buffer) {dev : D} {msg : List UInt8}
    (hdev : R dev msg) : (ops.read dev msg.length 0 false).bytes = msg := by
  rw [h.read hdev, List.take_length]

variable {N F : Type*} [DecidableEq N] [DecidableEq F] {inode : F → N}

/-- **A failed write** through an open file, after any calls: no later call
tells, before the next write succeeds, exactly when the copy changed nothing in
the message. -/
theorem CopiesInPlace.failed_write_alike_iff (h : CopiesInPlace ops cap R buffer)
    {cs : List (FileCall F)} {rs : List FileReply} {s s' : Vfs D N F}
    (hrun : (vfs ops inode).run (vfs ops inode).init cs = some (rs, s)) {f : F} {buf : List UInt8}
    {k : Nat} {r : FileReply} (hstep : s.step ops inode (.write f buf (some k)) = some (r, s'))
    {msg : List UInt8} (hmsg : R (s.devices (inode f)) msg) :
    r.ret = -EFAULT ∧ ((vfs ops inode).Alike (KeepsMessageOf inode (inode f)) s' s ↔
      (buffer (s.devices (inode f))).Unharmed buf (min buf.length cap) k msg.length) := by
  obtain ⟨file, hf, rfl, rfl⟩ := Vfs.step_spec hstep
  have hdev : file.device = inode f := Vfs.onInode_run hrun f file hf
  rw [hdev]
  have hleft := h.left hmsg buf file.off k
  refine ⟨by rw [h.failed], ?_⟩
  rw [CharArray.unharmed_iff_take _ (Nat.min_le_right ..) (Nat.min_le_left ..), ← h.front hmsg]
  constructor
  · -- read all of the message from the start
    intro halike
    have hreads := halike [.seek f 0, .read f msg.length false] (by simp [KeepsMessageOf])
    simp only [vfs, Service.run, Vfs.step, Vfs.setFile_files_self, Option.map_some, hf,
      Option.bind_some, Vfs.setFile_devices, Vfs.setDevice_devices_self, hdev,
      Option.some.injEq, List.cons.injEq, and_true, true_and] at hreads
    have hbytes : (ops.read (ops.write _ buf file.off (some k)).2 msg.length 0 false).bytes
        = (ops.read (s.devices (inode f)) msg.length 0 false).bytes :=
      congrArg FileReply.bytes hreads
    rwa [h.read_all hmsg, h.read hleft, List.take_take, Nat.min_self] at hbytes
  · intro hsame
    rw [hsame] at hleft
    have hself := h.respects.related_self inode hrun
    have hoff : ∀ g ∈ some file, 0 ≤ g.off := by simpa using hself.offsets f file hf
    have hrelated := (hself.setDevice (inode f) ⟨msg, hleft, hmsg⟩).setFile f hoff
    have hrest : (s.setDevice (inode f) (s.devices (inode f))).setFile f (some file) = s := by
      rw [Vfs.setDevice_self, ← hf, Vfs.setFile_self]
    rw [hrest] at hrelated
    -- the failed call leaves the offset
    have hfile : (⟨inode f, (ops.write (s.devices (inode f)) buf file.off (some k)).1.off⟩ :
        OpenFile N) = file := by rw [h.failed, ← hdev]
    rw [hfile]
    exact h.respects.alike inode hrelated _

end

/-! ## The drivers -/

theorem Container.copiesInPlace :
    CopiesInPlace Container.fops Container.bufferSize Container.Holds Container.Device.buffer where
  toKeepsMessage := Container.keepsMessage
  fresh := ⟨_, 0, Nat.zero_le _, rfl, rfl⟩
  front := by
    intro dev msg h
    have hsize := h.size.1
    obtain ⟨d, -, hd, hmsg⟩ := h
    have hlen : d = msg.length := Int.ofNat_inj.mp (hd.symm.trans hsize)
    rw [← hlen]
    exact hmsg
  reads h h' len off fault hoff := h.myRead_congr h' len hoff fault
  failed dev buf off k := rfl
  left := by
    intro dev msg h buf off k
    refine ⟨msg.length, h.size.2, h.size.1, ?_⟩
    simp only [Container.fops, Container.myWrite, cut_eq_min]

theorem coherentDma_copiesInPlace : CopiesInPlace CoherentDma.fops CoherentDma.bufSize
    CoherentDma.Holds CoherentDma.MyDevice.cpuAddr where
  toKeepsMessage := coherentDma_keepsMessage
  fresh := ⟨_, Nat.zero_le _, rfl⟩
  front h := by
    rw [← h.size]
    exact h.2
  reads h h' len off fault hoff := h.myRead_congr h' len hoff fault
  failed dev buf off k := rfl
  left := by
    intro dev msg h buf off k
    refine ⟨h.1, ?_⟩
    simp only [CoherentDma.fops, CoherentDma.myWrite, cut_eq_min, h.size]

/-- **Writes that fail**, in every state that the four drivers come to: the
reads behind the call, before the next write succeeds, return what they would
have returned without it exactly when the bytes that it leaves where they look
are those that were there. -/
theorem failed_copy_unnoticed_iff {F R : Type*} [DecidableEq F] [DecidableEq R] :
    (∀ (inode : F → Fin Container.minorDevices) cs rs s,
      (Container.driver inode).run (Container.driver inode).init cs = some (rs, s) →
      ∀ f buf k r s', s.step Container.fops inode (.write f buf (some k)) = some (r, s') →
        r.ret = -EFAULT ∧
        ((Container.driver inode).Alike (KeepsMessageOf inode (inode f)) s' s ↔
          (s.devices (inode f)).buffer.Unharmed buf (min buf.length Container.bufferSize) k
            (s.devices (inode f)).size.toNat)) ∧
    (∀ cs rs s, (CoherentDma.charDevice F).run (CoherentDma.charDevice F).init cs = some (rs, s) →
      ∀ f buf k r s',
        s.step CoherentDma.fops (fun _ => ()) (.write f buf (some k)) = some (r, s') →
        r.ret = -EFAULT ∧
        ((CoherentDma.charDevice F).Alike (KeepsMessageOf (fun _ => ()) ()) s' s ↔
          (s.devices ()).cpuAddr.Unharmed buf (min buf.length CoherentDma.bufSize) k
            (s.devices ()).size)) ∧
    (∀ s, (WaitingQueue.driver R).Reachable s →
      ∀ buf k s', WaitingQueue.step s (.writeFault buf k) = some s' →
        WaitingQueue.myWrite s.device buf (some k) = (⟨-EFAULT, []⟩, s'.device) ∧
        ((∃ r, s.reader r = .idle) → (WaitingQueue.LaterReadsAs s' s ↔ s.dataAvailable = 0 ∨
          s.buffer.Unharmed buf (WaitingQueue.writeLen buf.length) k
            (s.buffer.str.strlen + 1)))) ∧
    ∀ cs rs s, Ioctl.driver.run Ioctl.driver.init cs = some (rs, s) →
      ∀ arg k r s', Ioctl.driver.step s (.ioctl Ioctl.SET_VALUE arg (some k)) = some (r, s') →
        r.ret = -EFAULT ∧
        (Ioctl.driver.Alike Ioctl.Call.KeepsValue s' s ↔
          s.Unharmed arg.bytes Ioctl.cfgSize k Ioctl.cfgSize) := by
  refine ⟨?_, ?_, ?_, ?_⟩
  · intro inode cs rs s hrun f buf k r s' hstep
    obtain ⟨msg, hmsg⟩ := Container.exists_holds inode hrun (inode f)
    have hiff := Container.copiesInPlace.failed_write_alike_iff hrun hstep hmsg
    rwa [← Int.toNat_natCast msg.length, ← hmsg.size.1] at hiff
  · intro cs rs s hrun f buf k r s' hstep
    obtain ⟨msg, hmsg⟩ := CoherentDma.exists_holds hrun
    have hiff := coherentDma_copiesInPlace.failed_write_alike_iff hrun hstep hmsg
    rwa [← hmsg.size] at hiff
  · intro s hreach buf k s' hstep
    refine ⟨?_, WaitingQueue.failed_write_laterReads_iff hreach hstep⟩
    obtain ⟨-, rfl⟩ := WaitingQueue.step_writeFault hstep
    rfl
  · intro cs rs s hrun arg k r s' hstep
    exact Ioctl.failed_setValue_alike_iff hstep

/-- The container_of driver holds three bytes, the wait-queue driver one, and
of a write of two the first one is copied. -/
theorem failed_copy_unnoticed_front :
    (∃ rs s r s', (Container.driver fun _ : Bool => Container.minorTwo).run
        (Container.driver fun _ => Container.minorTwo).init Container.session = some (rs, s) ∧
      s.step Container.fops (fun _ => Container.minorTwo) (.write true [72, 5] (some 1))
        = some (r, s') ∧ r.ret = -EFAULT ∧
      (Container.driver fun _ => Container.minorTwo).Alike
        (KeepsMessageOf (fun _ => Container.minorTwo) Container.minorTwo) s' s) ∧
    ∃ s s', (WaitingQueue.driver Bool).exec (WaitingQueue.driver Bool).init
        [.write [72], .setFlag, .wakeUp] = some s ∧
      WaitingQueue.step s (.writeFault [72, 5] 1) = some s' ∧ s.dataAvailable = 1 ∧
      WaitingQueue.LaterReadsAs s' s := by
  obtain ⟨hcontainer, -, hwait, -⟩ := failed_copy_unnoticed_iff (F := Bool) (R := Bool)
  constructor
  · obtain ⟨hret, hiff⟩ :=
      hcontainer (fun _ => Container.minorTwo) Container.session _ _ rfl true [72, 5] 1 _ _ rfl
    exact ⟨_, _, _, _, rfl, rfl, hret, hiff.mpr (by decide)⟩
  · obtain ⟨-, hiff⟩ := hwait _ ⟨[.write [72], .setFlag, .wakeUp], rfl⟩ [72, 5] 1 _ rfl
    exact ⟨_, _, rfl, rfl, rfl, (hiff ⟨true, rfl⟩).mpr (.inr (by decide))⟩

/-- The device holds three bytes, and a write of two fails at once: a read then
finds two zeros. -/
theorem failed_copy_noticed :
    ∃ rs s r s', (Container.driver fun _ : Bool => Container.minorTwo).run
        (Container.driver fun _ => Container.minorTwo).init Container.session = some (rs, s) ∧
      s.step Container.fops (fun _ => Container.minorTwo) (.write true [1, 2] (some 0))
        = some (r, s') ∧ r.ret = -EFAULT ∧
      ¬ (Container.driver fun _ => Container.minorTwo).Alike
        (KeepsMessageOf (fun _ => Container.minorTwo) Container.minorTwo) s' s := by
  refine ⟨_, _, _, _, rfl, rfl, rfl, fun halike => ?_⟩
  have hreads := halike [.seek true 0, .read true 3 false] (by simp [KeepsMessageOf])
  revert hreads
  decide

end KernelSpace.CharDevice
