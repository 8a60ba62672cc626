import Mathlib.Logic.Function.Basic
import KernelSpace.Lib.Service

/-!
# Open files of character devices

What is around the file operations of a character driver: an open file is on
the inode it was opened through and has an offset, which every call is given
and may move. `seek` stands for all that sets the offset of the next call,
the explicit offset of `pread` and `pwrite` included; the kernel lets no
negative one through.

A driver is its `FileOps` on devices `D`; `vfs` is the service it gives with
the inodes `N` and the files `F`. Where two drivers agree call by call under a
relation between their devices (`FileOps.Simulates`), the services do.
-/

namespace KernelSpace.Kernel

open KernelSpace.Lib

/-- What a call comes to: its return value, the bytes it hands to the user,
and the offset it leaves. -/
structure FileReply where
  ret : Int
  bytes : List UInt8
  off : Int
deriving DecidableEq

/-- The file operations, one device at a time. A read whose `fault` is set has
its `copy_to_user` fail; a write's `fault` is the number of bytes after which
its `copy_from_user` fails. -/
structure FileOps (D : Type*) where
  fresh : D
  read (dev : D) (len : Nat) (off : Int) (fault : Bool) : FileReply
  write (dev : D) (buf : List UInt8) (off : Int) (fault : Option Nat) : FileReply × D

inductive FileCall (F : Type*) where
  | openFile (f : F)
  | release (f : F)
  | seek (f : F) (off : Nat)
  | read (f : F) (len : Nat) (fault : Bool)
  | write (f : F) (buf : List UInt8) (fault : Option Nat)

/-- The file a call is on. -/
def FileCall.file {F : Type*} : FileCall F → F
  | openFile f | release f | seek f _ | read f _ _ | write f _ _ => f

/-- The call writes to device `n`. -/
def FileCall.WritesTo {N F : Type*} (inode : F → N) (n : N) : FileCall F → Prop
  | write f _ _ => inode f = n
  | _ => False

/-- Device `n` behind the call, where a write does `w`. -/
def FileCall.afterWrite {D N F : Type*} [DecidableEq N] (w : D → List UInt8 → D) (inode : F → N)
    (n : N) (dev : D) : FileCall F → D
  | write f buf _ => if inode f = n then w dev buf else dev
  | _ => dev

/-- An open file: the device that `my_open` found for its inode, and the
offset. -/
structure OpenFile (N : Type*) where
  device : N
  off : Int
deriving DecidableEq

structure Vfs (D N F : Type*) where
  devices : N → D
  files : F → Option (OpenFile N)

section

variable {D E N F : Type*}

def Vfs.setFile [DecidableEq F] (s : Vfs D N F) (f : F) (file : Option (OpenFile N)) :
    Vfs D N F :=
  { s with files := Function.update s.files f file }

def Vfs.setDevice [DecidableEq N] (s : Vfs D N F) (n : N) (dev : D) : Vfs D N F :=
  { s with devices := Function.update s.devices n dev }

/-- One call on the file `f`, which is on the device `inode f`. -/
def Vfs.step [DecidableEq N] [DecidableEq F] (ops : FileOps D) (inode : F → N) (s : Vfs D N F) :
    FileCall F → Option (FileReply × Vfs D N F)
  | .openFile f =>
    match s.files f with
    | some _ => none
    | none => some (⟨0, [], 0⟩, s.setFile f (some ⟨inode f, 0⟩))
  | .release f => (s.files f).map fun _ => (⟨0, [], 0⟩, s.setFile f none)
  | .seek f off =>
    (s.files f).map fun file => (⟨off, [], off⟩, s.setFile f (some { file with off := off }))
  | .read f len fault =>
    (s.files f).map fun file =>
      let reply := ops.read (s.devices file.device) len file.off fault
      (reply, s.setFile f (some { file with off := reply.off }))
  | .write f buf fault =>
    (s.files f).map fun file =>
      let (reply, dev) := ops.write (s.devices file.device) buf file.off fault
      (reply, (s.setDevice file.device dev).setFile f (some { file with off := reply.off }))

/-- The driver with all its devices fresh and no file open. -/
def vfs [DecidableEq N] [DecidableEq F] (ops : FileOps D) (inode : F → N) :
    Service (Vfs D N F) (FileCall F) FileReply where
  init := ⟨fun _ => ops.fresh, fun _ => none⟩
  step := Vfs.step ops inode

/-- The replies to the calls, in order, from the driver just loaded. -/
def FileOps.replies [DecidableEq N] [DecidableEq F] (ops : FileOps D) (inode : F → N)
    (cs : List (FileCall F)) : Option (List FileReply) :=
  ((vfs ops inode).run (vfs ops inode).init cs).map Prod.fst

/-- The bytes that reads at offset `off` and on return until one returns 0;
`none` when none of them does. -/
def FileOps.readToEnd (ops : FileOps D) (dev : D) : List Nat → Int → Option (List UInt8)
  | [], _ => none
  | len :: lens, off =>
    let reply := ops.read dev len off false
    if reply.ret = 0 then some []
    else (ops.readToEnd dev lens reply.off).map (reply.bytes ++ ·)

/-- The bytes of the replies before the first one that is 0; `none` when there
is none. -/
def upToZero : List FileReply → Option (List UInt8)
  | [] => none
  | r :: rs => if r.ret = 0 then some [] else (upToZero rs).map (r.bytes ++ ·)

/-- The user copies of the call succeed, and what it writes is a `W`. -/
def FileCall.Copies (W : List UInt8 → Prop) : FileCall F → Prop
  | read _ _ fault => fault = false
  | write _ buf fault => fault = none ∧ W buf
  | _ => True

theorem FileCall.Copies.mono {V W : List UInt8 → Prop} (hVW : ∀ buf, V buf → W buf)
    {c : FileCall F} (h : c.Copies V) : c.Copies W := by
  cases c with
  | write f buf fault => exact ⟨h.1, hVW buf h.2⟩
  | read f len fault => exact h
  | openFile | release | seek => trivial

/-- **Agreement of two drivers**, call by call, at offsets that are not
negative and on written data `W`, with devices related by `R`. -/
structure FileOps.Simulates (A : FileOps D) (B : FileOps E) (R : D → E → Prop)
    (W : List UInt8 → Prop) : Prop where
  fresh : R A.fresh B.fresh
  read : ∀ d e len off, R d e → 0 ≤ off →
    A.read d len off false = B.read e len off false ∧ 0 ≤ (B.read e len off false).off
  write : ∀ d e buf off, R d e → 0 ≤ off → W buf →
    (A.write d buf off none).1 = (B.write e buf off none).1 ∧
      0 ≤ (B.write e buf off none).1.off ∧ R (A.write d buf off none).2 (B.write e buf off none).2

/-- The driver itself does not tell devices apart that are related by `R`,
where user copies fail neither. -/
structure FileOps.Respects (ops : FileOps D) (R : D → D → Prop) : Prop where
  fresh : R ops.fresh ops.fresh
  read : ∀ d e len off fault, R d e → 0 ≤ off →
    ops.read d len off fault = ops.read e len off fault ∧ 0 ≤ (ops.read e len off fault).off
  write : ∀ d e buf off fault, R d e → 0 ≤ off →
    (ops.write d buf off fault).1 = (ops.write e buf off fault).1 ∧
      0 ≤ (ops.write e buf off fault).1.off ∧
      R (ops.write d buf off fault).2 (ops.write e buf off fault).2

/-- The same files are open at the same offsets, and the devices are related. -/
structure Vfs.Related (R : D → E → Prop) (s : Vfs D N F) (t : Vfs E N F) : Prop where
  files : s.files = t.files
  offsets : ∀ f file, t.files f = some file → 0 ≤ file.off
  devices : ∀ n, R (s.devices n) (t.devices n)

namespace Vfs

section

variable [DecidableEq F] (s : Vfs D N F) (f : F) (file : Option (OpenFile N))

@[simp] theorem setFile_files_self : (s.setFile f file).files f = file :=
  Function.update_self ..

theorem setFile_files_of_ne {g : F} (h : g ≠ f) : (s.setFile f file).files g = s.files g :=
  Function.update_of_ne h ..

@[simp] theorem setFile_devices : (s.setFile f file).devices = s.devices := rfl

theorem setFile_self : s.setFile f (s.files f) = s := by
  simp only [setFile, Function.update_eq_self]

end

section

variable [DecidableEq N] (s : Vfs D N F) (n : N) (dev : D)

@[simp] theorem setDevice_devices_self : (s.setDevice n dev).devices n = dev :=
  Function.update_self ..

theorem setDevice_devices_of_ne {m : N} (h : m ≠ n) :
    (s.setDevice n dev).devices m = s.devices m := Function.update_of_ne h ..

theorem setDevice_self : s.setDevice n (s.devices n) = s := by
  simp only [setDevice, Function.update_eq_self]

end

/-- Every file is on the device of its inode. -/
def OnInode (inode : F → N) (s : Vfs D N F) : Prop :=
  ∀ f file, s.files f = some file → file.device = inode f

theorem OnInode.setFile [DecidableEq F] {inode : F → N} {s : Vfs D N F} (h : OnInode inode s)
    (f : F) {file : Option (OpenFile N)} (hfile : ∀ g ∈ file, g.device = inode f) :
    OnInode inode (s.setFile f file) := by
  intro g file' hg
  by_cases hgf : g = f
  · subst hgf
    rw [setFile_files_self] at hg
    exact hfile file' hg
  · rw [setFile_files_of_ne s f file hgf] at hg
    exact h g file' hg

section

variable [DecidableEq N] [DecidableEq F] {ops : FileOps D} {inode : F → N}
variable {s s' : Vfs D N F} {c : FileCall F} {r : FileReply}

/-- **What a call does**, the file it is on being open or, for an `open`, not. -/
theorem step_spec (h : s.step ops inode c = some (r, s')) :
    match c with
    | .openFile f => s.files f = none ∧ r = ⟨0, [], 0⟩ ∧ s' = s.setFile f (some ⟨inode f, 0⟩)
    | .release f => ∃ file, s.files f = some file ∧ r = ⟨0, [], 0⟩ ∧ s' = s.setFile f none
    | .seek f off => ∃ file, s.files f = some file ∧ r = ⟨off, [], off⟩ ∧
        s' = s.setFile f (some { file with off := off })
    | .read f len fault => ∃ file, s.files f = some file ∧
        r = ops.read (s.devices file.device) len file.off fault ∧
        s' = s.setFile f (some { file with off := r.off })
    | .write f buf fault => ∃ file, s.files f = some file ∧
        r = (ops.write (s.devices file.device) buf file.off fault).1 ∧
        s' = (s.setDevice file.device (ops.write (s.devices file.device) buf file.off fault).2).setFile
          f (some { file with off := r.off }) := by
  cases c with
  | openFile f =>
    simp only [step] at h
    split at h
    · cases h
    · rename_i hf
      cases h
      exact ⟨hf, rfl, rfl⟩
  | release f | seek f off | read f len fault | write f buf fault =>
    obtain ⟨file, hfile, heq⟩ := Option.map_eq_some_iff.mp h
    cases heq
    exact ⟨file, hfile, rfl, rfl⟩

theorem onInode_step (h : OnInode inode s) (hs : s.step ops inode c = some (r, s')) :
    OnInode inode s' := by
  have hspec := step_spec hs
  cases c with
  | openFile f =>
    obtain ⟨-, -, rfl⟩ := hspec
    exact h.setFile f (by simp)
  | release f =>
    obtain ⟨file, -, -, rfl⟩ := hspec
    exact h.setFile f nofun
  | seek f off | read f len fault =>
    obtain ⟨file, hfile, -, rfl⟩ := hspec
    exact h.setFile f (by simpa using h f file hfile)
  | write f buf fault =>
    obtain ⟨file, hfile, -, rfl⟩ := hspec
    have hdev : OnInode inode (s.setDevice file.device
        (ops.write (s.devices file.device) buf file.off fault).2) := h
    exact hdev.setFile f (by simpa using h f file hfile)

/-- A call on another file leaves the file alone. -/
theorem files_step_of_ne {f : F} (hf : c.file ≠ f) (hs : s.step ops inode c = some (r, s')) :
    s'.files f = s.files f := by
  have hspec := step_spec hs
  cases c with
  | openFile g =>
    obtain ⟨-, -, rfl⟩ := hspec
    exact setFile_files_of_ne s g _ (Ne.symm hf)
  | release g | seek g off | read g len fault | write g buf fault =>
    obtain ⟨file, -, -, rfl⟩ := hspec
    exact setFile_files_of_ne _ g _ (Ne.symm hf)

/-- A call that writes elsewhere leaves the device alone. -/
theorem devices_step_of_not_writesTo {n : N} (h : OnInode inode s) (hn : ¬ c.WritesTo inode n)
    (hs : s.step ops inode c = some (r, s')) : s'.devices n = s.devices n := by
  have hspec := step_spec hs
  cases c with
  | openFile f =>
    obtain ⟨-, -, rfl⟩ := hspec
    rfl
  | release f | seek f off | read f len fault =>
    obtain ⟨file, -, -, rfl⟩ := hspec
    rfl
  | write f buf fault =>
    obtain ⟨file, hfile, -, rfl⟩ := hspec
    rw [setFile_devices, setDevice_devices_of_ne]
    rw [h f file hfile]
    exact Ne.symm hn

theorem devices_step {w : D → List UInt8 → D}
    (hw : ∀ dev buf off, (ops.write dev buf off none).2 = w dev buf) (h : OnInode inode s)
    (hc : c.Copies fun _ => True) (hs : s.step ops inode c = some (r, s')) (n : N) :
    s'.devices n = c.afterWrite w inode n (s.devices n) := by
  by_cases hn : c.WritesTo inode n
  · cases c with
    | write f buf fault =>
      obtain ⟨rfl, -⟩ := hc
      obtain ⟨file, hfile, -, rfl⟩ := step_spec hs
      have hf : inode f = n := hn
      have hdev : file.device = n := (h f file hfile).trans hf
      subst hdev
      rw [FileCall.afterWrite, if_pos hf, ← hw _ buf file.off]
      exact setDevice_devices_self ..
    | openFile | release | seek | read => exact hn.elim
  · rw [devices_step_of_not_writesTo h hn hs]
    cases c with
    | write f buf fault => exact (if_neg hn).symm
    | openFile | release | seek | read => rfl

/-- **The device after a run** whose copies succeed: the writes to it, in order. -/
theorem devices_run {w : D → List UInt8 → D}
    (hw : ∀ dev buf off, (ops.write dev buf off none).2 = w dev buf) (h : OnInode inode s)
    {cs : List (FileCall F)} {rs : List FileReply} (hcs : ∀ c ∈ cs, c.Copies fun _ => True)
    (hrun : (vfs ops inode).run s cs = some (rs, s')) (n : N) :
    s'.devices n = cs.foldl (fun dev c => c.afterWrite w inode n dev) (s.devices n) := by
  induction cs generalizing s rs with
  | nil =>
    cases hrun
    rfl
  | cons c cs ih =>
    obtain ⟨r, t, rest, hc, hrest, -⟩ := Service.run_cons_iff.mp hrun
    rw [List.foldl_cons, ← devices_step hw h (hcs c List.mem_cons_self) hc n]
    exact ih (onInode_step h hc) (fun d hd => hcs d (List.mem_cons_of_mem c hd)) hrest

/-- What every write keeps of a device, its faults included, holds of all
devices. -/
theorem devices_inv {P : D → Prop} (h0 : P ops.fresh)
    (hw : ∀ dev buf off fault, P dev → P (ops.write dev buf off fault).2)
    {cs : List (FileCall F)} {rs : List FileReply}
    (h : (vfs ops inode).run (vfs ops inode).init cs = some (rs, s)) (n : N) :
    P (s.devices n) := by
  have hall : ∀ n, P (s.devices n) := by
    refine Service.run_inv (I := fun s => ∀ n, P (s.devices n)) (P := fun _ => True) ?_
      (fun _ => h0) (fun _ _ => trivial) h
    intro s c r s' hs _ hstep m
    have hspec := step_spec hstep
    cases c with
    | write f buf fault =>
      obtain ⟨file, -, -, rfl⟩ := hspec
      rw [setFile_devices]
      by_cases hm : m = file.device
      · subst hm
        rw [setDevice_devices_self]
        exact hw _ buf file.off fault (hs file.device)
      · rw [setDevice_devices_of_ne _ _ _ hm]
        exact hs m
    | openFile f =>
      obtain ⟨-, -, rfl⟩ := hspec
      exact hs m
    | release f | seek f off | read f len fault =>
      obtain ⟨file, -, -, rfl⟩ := hspec
      exact hs m
  exact hall n

/-- Reads through one file and nothing else in between. -/
theorem upToZero_reads {f : F} {file : OpenFile N} (hf : s.files f = some file) {lens : List Nat}
    {rs : List FileReply}
    (h : (vfs ops inode).run s (lens.map fun len => .read f len false) = some (rs, s')) :
    upToZero rs = ops.readToEnd (s.devices file.device) lens file.off := by
  induction lens generalizing s rs file with
  | nil =>
    cases h
    rfl
  | cons len lens ih =>
    obtain ⟨r, t, rest, hread, hrest, rfl⟩ := Service.run_cons_iff.mp h
    have hstep : s.step ops inode (.read f len false) = some (r, t) := hread
    obtain ⟨file', hfile', rfl, rfl⟩ := step_spec hstep
    cases hf.symm.trans hfile'
    have hnext := ih (setFile_files_self ..) hrest
    simp only [upToZero, FileOps.readToEnd, hnext]
    rfl

theorem onInode_run {cs : List (FileCall F)} {rs : List FileReply}
    (h : (vfs ops inode).run (vfs ops inode).init cs = some (rs, s)) : OnInode inode s := by
  refine Service.run_inv (I := OnInode inode) (P := fun _ => True) ?_ ?_ (fun _ _ => trivial) h
  · intro s c r s' hs _ hstep
    exact onInode_step hs hstep
  · intro f file hf
    cases hf

end

variable {R : D → E → Prop} {s : Vfs D N F} {t : Vfs E N F}

theorem Related.setFile [DecidableEq F] (h : Related R s t) (f : F) {file : Option (OpenFile N)}
    (hoff : ∀ g ∈ file, 0 ≤ g.off) : Related R (s.setFile f file) (t.setFile f file) := by
  refine ⟨?_, ?_, h.devices⟩
  · simp only [Vfs.setFile, h.files]
  · intro g file' hg
    by_cases hgf : g = f
    · subst hgf
      rw [setFile_files_self] at hg
      exact hoff file' hg
    · rw [setFile_files_of_ne t f file hgf] at hg
      exact h.offsets g file' hg

theorem Related.setDevice [DecidableEq N] (h : Related R s t) (n : N) {d : D} {e : E}
    (hde : R d e) : Related R (s.setDevice n d) (t.setDevice n e) := by
  refine ⟨h.files, h.offsets, ?_⟩
  intro m
  by_cases hmn : m = n
  · subst hmn
    rwa [setDevice_devices_self, setDevice_devices_self]
  · rw [setDevice_devices_of_ne s n d hmn, setDevice_devices_of_ne t n e hmn]
    exact h.devices m

/-- **One call on two drivers** that do alike what the call has them do. -/
theorem Related.step [DecidableEq N] [DecidableEq F] {A : FileOps D} {B : FileOps E}
    (h : Related R s t) (inode : F → N) {c : FileCall F}
    (hread : ∀ f len fault, c = .read f len fault → ∀ d e off, R d e → 0 ≤ off →
      A.read d len off fault = B.read e len off fault ∧ 0 ≤ (B.read e len off fault).off)
    (hwrite : ∀ f buf fault, c = .write f buf fault → ∀ d e off, R d e → 0 ≤ off →
      (A.write d buf off fault).1 = (B.write e buf off fault).1 ∧
        0 ≤ (B.write e buf off fault).1.off ∧
        R (A.write d buf off fault).2 (B.write e buf off fault).2) :
    Service.Agree (Related R) (s.step A inode c) (t.step B inode c) := by
  cases c with
  | openFile f =>
    simp only [Vfs.step, h.files]
    cases hf : t.files f with
    | some file => exact .none
    | none => exact .some ⟨rfl, h.setFile f (by simp)⟩
  | release f =>
    simp only [Vfs.step, h.files]
    cases hf : t.files f with
    | none => exact .none
    | some file => exact .some ⟨rfl, h.setFile f nofun⟩
  | seek f off =>
    simp only [Vfs.step, h.files]
    cases hf : t.files f with
    | none => exact .none
    | some file => exact .some ⟨rfl, h.setFile f (by simp)⟩
  | read f len fault =>
    simp only [Vfs.step, h.files]
    cases hf : t.files f with
    | none => exact .none
    | some file =>
      obtain ⟨hreply, hoff⟩ :=
        hread f len fault rfl _ _ _ (h.devices file.device) (h.offsets f file hf)
      simp only [Option.map_some, hreply]
      exact .some ⟨rfl, h.setFile f (by simpa using hoff)⟩
  | write f buf fault =>
    simp only [Vfs.step, h.files]
    cases hf : t.files f with
    | none => exact .none
    | some file =>
      obtain ⟨hreply, hoff, hR⟩ :=
        hwrite f buf fault rfl _ _ _ (h.devices file.device) (h.offsets f file hf)
      simp only [Option.map_some, hreply]
      exact .some ⟨rfl, (h.setDevice file.device hR).setFile f (by simpa using hoff)⟩

/-! A driver does not see the other inodes: `t` has the devices of `s` under
other names, and possibly more. -/

structure Renamed {M : Type*} (g : N → M) (s : Vfs D N F) (t : Vfs D M F) : Prop where
  files : ∀ f, t.files f = (s.files f).map fun file => ⟨g file.device, file.off⟩
  devices : ∀ n, t.devices (g n) = s.devices n

section

variable {M : Type*} {g : N → M} {s : Vfs D N F} {t : Vfs D M F}

theorem Renamed.setFile [DecidableEq F] (h : Renamed g s t) (f : F)
    (file : Option (OpenFile N)) :
    Renamed g (s.setFile f file)
      (t.setFile f (file.map fun file => ⟨g file.device, file.off⟩)) := by
  refine ⟨?_, h.devices⟩
  intro f'
  by_cases hf : f' = f
  · subst hf
    rw [setFile_files_self, setFile_files_self]
  · rw [setFile_files_of_ne _ f _ hf, setFile_files_of_ne _ f _ hf]
    exact h.files f'

theorem Renamed.setDevice [DecidableEq N] [DecidableEq M] (hg : Function.Injective g)
    (h : Renamed g s t) (n : N) (d : D) : Renamed g (s.setDevice n d) (t.setDevice (g n) d) := by
  refine ⟨h.files, ?_⟩
  intro m
  by_cases hmn : m = n
  · subst hmn
    rw [setDevice_devices_self, setDevice_devices_self]
  · rw [setDevice_devices_of_ne _ n _ hmn, setDevice_devices_of_ne _ (g n) _ (hg.ne hmn)]
    exact h.devices m

theorem Renamed.step [DecidableEq N] [DecidableEq M] [DecidableEq F] (hg : Function.Injective g)
    (ops : FileOps D) (inode : F → N) (h : Renamed g s t) (c : FileCall F) :
    Service.Agree (Renamed g) (s.step ops inode c) (t.step ops (g ∘ inode) c) := by
  cases c with
  | openFile f =>
    simp only [Vfs.step, h.files]
    cases hf : s.files f with
    | some file => exact .none
    | none => exact .some ⟨rfl, h.setFile f (some ⟨inode f, 0⟩)⟩
  | release f =>
    simp only [Vfs.step, h.files]
    cases hf : s.files f with
    | none => exact .none
    | some file => exact .some ⟨rfl, h.setFile f none⟩
  | seek f off =>
    simp only [Vfs.step, h.files]
    cases hf : s.files f with
    | none => exact .none
    | some file => exact .some ⟨rfl, h.setFile f (some { file with off := off })⟩
  | read f len fault =>
    simp only [Vfs.step, h.files]
    cases hf : s.files f with
    | none => exact .none
    | some file =>
      simp only [Option.map_some, h.devices]
      exact .some ⟨rfl, h.setFile f (some { file with off := _ })⟩
  | write f buf fault =>
    simp only [Vfs.step, h.files]
    cases hf : s.files f with
    | none => exact .none
    | some file =>
      simp only [Option.map_some, h.devices]
      exact .some ⟨rfl, (h.setDevice hg file.device _).setFile f (some { file with off := _ })⟩

/-- **Renaming the inodes** changes no reply. -/
theorem replies_rename [DecidableEq N] [DecidableEq M] [DecidableEq F]
    (hg : Function.Injective g) (ops : FileOps D) (inode : F → N) (cs : List (FileCall F)) :
    ops.replies inode cs = ops.replies (g ∘ inode) cs := by
  have hinit : Renamed g (vfs ops inode).init (vfs ops (g ∘ inode)).init :=
    ⟨fun _ => rfl, fun _ => rfl⟩
  have hstep : ∀ (s : Vfs D N F) (t : Vfs D M F) (c : FileCall F), Renamed g s t → True →
      Service.Agree (Renamed g) ((vfs ops inode).step s c) ((vfs ops (g ∘ inode)).step t c) :=
    fun _ _ c h _ => h.step hg ops inode c
  exact (Service.run_rel hstep hinit fun _ _ => trivial).fst_eq

end

end Vfs

namespace FileOps.Simulates

variable [DecidableEq N] [DecidableEq F]
variable {A : FileOps D} {B : FileOps E} {R : D → E → Prop} {W : List UInt8 → Prop}

/-- One call on two drivers that agree. -/
theorem step (h : Simulates A B R W) (inode : F → N) {s : Vfs D N F} {t : Vfs E N F}
    {c : FileCall F} (hst : Vfs.Related R s t) (hc : c.Copies W) :
    Service.Agree (Vfs.Related R) (s.step A inode c) (t.step B inode c) := by
  refine hst.step inode ?_ ?_
  · rintro f len fault rfl d e off hde hoff
    cases hc
    exact h.read d e len off hde hoff
  · rintro f buf fault rfl d e off hde hoff
    obtain ⟨rfl, hW⟩ := hc
    obtain ⟨hreply, hmoved, hR⟩ := h.write d e buf off hde hoff hW
    exact ⟨hreply, hreply ▸ hmoved, hR⟩

theorem init (h : Simulates A B R W) (inode : F → N) :
    Vfs.Related R (vfs A inode).init (vfs B inode).init := ⟨rfl, nofun, fun _ => h.fresh⟩

/-- **Agreement over runs**: the same calls get the same replies. -/
theorem run (h : Simulates A B R W) (inode : F → N) {s : Vfs D N F} {t : Vfs E N F}
    (hst : Vfs.Related R s t) {cs : List (FileCall F)} (hcs : ∀ c ∈ cs, c.Copies W) :
    Service.Agree (Vfs.Related R) ((vfs A inode).run s cs) ((vfs B inode).run t cs) :=
  Service.run_rel (fun _ _ _ hst hc => h.step inode hst hc) hst hcs

omit [DecidableEq N] [DecidableEq F] in
theorem readToEnd_eq (h : Simulates A B R W) {d : D} {e : E} (hde : R d e) (lens : List Nat)
    {off : Int} (hoff : 0 ≤ off) : A.readToEnd d lens off = B.readToEnd e lens off := by
  induction lens generalizing off with
  | nil => rfl
  | cons len lens ih =>
    obtain ⟨hread, hnext⟩ := h.read d e len off hde hoff
    simp only [FileOps.readToEnd, hread, ih hnext]

theorem replies_eq (h : Simulates A B R W) (inode : F → N) {cs : List (FileCall F)}
    (hcs : ∀ c ∈ cs, c.Copies W) : A.replies inode cs = B.replies inode cs :=
  (h.run inode (h.init inode) hcs).fst_eq

end FileOps.Simulates

namespace FileOps.Respects

variable [DecidableEq N] [DecidableEq F] {ops : FileOps D} {R : D → D → Prop}

theorem step (h : Respects ops R) (inode : F → N) {s t : Vfs D N F} (hst : Vfs.Related R s t)
    (c : FileCall F) :
    Service.Agree (Vfs.Related R) (s.step ops inode c) (t.step ops inode c) :=
  hst.step inode (fun _ len fault _ d e off => h.read d e len off fault)
    fun _ buf fault _ d e off => h.write d e buf off fault

/-- **Related devices are told apart by no calls.** -/
theorem alike (h : Respects ops R) (inode : F → N) {s t : Vfs D N F} (hst : Vfs.Related R s t)
    (P : FileCall F → Prop) : (vfs ops inode).Alike P s t :=
  Service.alike_of_rel (R := Vfs.Related R) (fun _ _ c hst _ => h.step inode hst c) hst

/-- Every state that the driver comes to is related to itself. -/
theorem related_self (h : Respects ops R) (inode : F → N) {cs : List (FileCall F)}
    {rs : List FileReply} {s : Vfs D N F}
    (hrun : (vfs ops inode).run (vfs ops inode).init cs = some (rs, s)) : Vfs.Related R s s := by
  have hinit : Vfs.Related R (vfs ops inode).init (vfs ops inode).init :=
    ⟨rfl, nofun, fun _ => h.fresh⟩
  have hagree : Service.Agree (Vfs.Related R) ((vfs ops inode).run (vfs ops inode).init cs)
      ((vfs ops inode).run (vfs ops inode).init cs) :=
    Service.run_rel (P := fun _ => True) (fun _ _ c hst _ => h.step inode hst c) hinit
      fun _ _ => trivial
  obtain ⟨t, ht, hst⟩ := hagree.exists_right hrun
  cases hrun.symm.trans ht
  exact hst

end FileOps.Respects

end

end KernelSpace.Kernel
