import Mathlib.Data.Fintype.Basic
import Mathlib.Data.List.Infix
import Mathlib.Logic.Function.Basic
import KernelSpace.Kernel.CTypes
import KernelSpace.Kernel.Errno
import KernelSpace.Lib.Machine

/-!
# CoherentDma — open files and unbind (20)

`20.Coherent_DMA_Buffer/coherent_DMA.c`: `my_open` stores a pointer to the
`my_device` of the inode in the file, `my_read` and `my_write` go through it to
the device and its DMA buffer. `my_remove` takes the character device away and
frees the buffer; the driver core frees the `my_device` after it. A `cdev_del`
stops new opens and leaves open files alone.

Processes `T` call through files `F`, any number of calls at a time, also on
one file. A step of a call is one access to the device: `copy_from_user` and
the store of `size` in a write; the two tests, the cut of `len` and
`copy_to_user` in a read. An `unbind` event is the next step of the unbinding.

The accesses are safe when no file is open, or being opened, at the time
`my_remove` frees the buffer. Nothing in the driver makes it so: with a file
open, the unbinding and one more call on it go to memory that is free.

What is in the buffer is left out: no step depends on it.
-/

namespace KernelSpace.CoherentDma

open KernelSpace.Kernel KernelSpace.Lib

/-- `BUF_SIZE`. -/
def bufSize : Nat := 4096

/-! ## my_probe -/

/-- What `my_probe` acquires. -/
inductive Resource where
  | mydev
  | buffer
  | region
  | cdev
  | devClass
  | device
deriving DecidableEq

/-- What the calls of `my_probe` return; 0 for the pointers that are no error. -/
structure ProbeEnv where
  allocated : Bool
  dmaAllocated : Bool
  allocRegion : Int
  cdevAdd : Int
  classCreate : Int
  deviceCreate : Int

def errDma (held : List Resource) : List Resource := held.erase .buffer

def errChr (held : List Resource) : List Resource := errDma (held.erase .region)

def errCdev (held : List Resource) : List Resource := errChr (held.erase .cdev)

def errClass (held : List Resource) : List Resource := errCdev (held.erase .devClass)

/-- The return value and what is held, the last acquired first. -/
def myProbe (env : ProbeEnv) : Int × List Resource :=
  if ¬ env.allocated then (-ENOMEM, [])
  else if ¬ env.dmaAllocated then (-ENOMEM, [.mydev])
  else if env.allocRegion ≠ 0 then (env.allocRegion, errDma [.buffer, .mydev])
  else if env.cdevAdd ≠ 0 then (env.cdevAdd, errChr [.region, .buffer, .mydev])
  else if env.classCreate ≠ 0 then (env.classCreate, errCdev [.cdev, .region, .buffer, .mydev])
  else if env.deviceCreate ≠ 0 then
    (env.deviceCreate, errClass [.devClass, .cdev, .region, .buffer, .mydev])
  else (0, [.device, .devClass, .cdev, .region, .buffer, .mydev])

/-- What `my_remove` releases, in order. The class is never NULL there. -/
def myRemove : List Resource := [.device, .devClass, .cdev, .region, .buffer]

/-- What the driver core releases after it. -/
def devmRelease : List Resource := [.mydev]

/-- A probe that fails holds nothing but the managed `my_device`, which the
driver core frees; one that succeeds has acquired what the unbinding
releases. -/
theorem myProbe_cases (env : ProbeEnv) :
    (myProbe env).1 ≠ 0 ∧ (∀ r ∈ (myProbe env).2, r = .mydev) ∨
      myProbe env = (0, myRemove ++ devmRelease) := by
  unfold myProbe
  split
  · exact .inl ⟨by decide, nofun⟩
  split
  · exact .inl ⟨by decide, fun _ => List.mem_singleton.mp⟩
  split
  · exact .inl ⟨‹_›, fun _ => List.mem_singleton.mp⟩
  split
  · exact .inl ⟨‹_›, fun _ => List.mem_singleton.mp⟩
  split
  · exact .inl ⟨‹_›, fun _ => List.mem_singleton.mp⟩
  split
  · exact .inl ⟨‹_›, fun _ => List.mem_singleton.mp⟩
  · exact .inr rfl

theorem myProbe_succeeded {env : ProbeEnv} (h : (myProbe env).1 = 0) :
    (myProbe env).2 = myRemove ++ devmRelease := by
  rcases myProbe_cases env with ⟨hfailed, -⟩ | hok
  · exact absurd h hfailed
  · rw [hok]

/-! ## The calls -/

inductive File where
  | closed
  /-- `chrdev_open` has found the device and is about to call `my_open`. -/
  | opening
  | opened (off : Int)
deriving DecidableEq

/-- The next access of a call, with its `len` and `*off`. -/
inductive CallPc where
  | opening
  | copyFromUser (len : Nat) (off : Int)
  | setSize (len : Nat) (off : Int)
  | testOff (len : Nat) (off : Int)
  | testLen (len : Nat) (off : Int)
  | cutLen (off : Int)
  | copyToUser (len : Nat) (off : Int)
deriving DecidableEq

/-- The memory an access goes to. `my_open` only computes an address; a copy
reads `cpu_addr`, and touches the buffer unless it copies no byte. -/
def CallPc.uses : CallPc → List Resource
  | opening => []
  | setSize .. | testOff .. | testLen .. | cutLen .. => [.mydev]
  | copyFromUser len _ | copyToUser len _ => if len = 0 then [.mydev] else [.mydev, .buffer]

theorem CallPc.eq_of_mem_uses {pc : CallPc} {r : Resource} (h : r ∈ pc.uses) :
    r = .mydev ∨ r = .buffer := by
  cases pc with
  | opening => cases h
  | setSize | testOff | testLen | cutLen => exact .inl (List.mem_singleton.mp h)
  | copyFromUser len off | copyToUser len off =>
    simp only [uses] at h
    split at h
    · exact .inl (List.mem_singleton.mp h)
    · exact List.mem_pair.mp h

/-- What an access comes to: the next one, or the return of the call with the
`size` it leaves and the position for the file, if the call sets it. -/
inductive Outcome where
  | goto (pc : CallPc)
  | ret (size : Nat) (off : Option Int)

def callStep (size : Nat) (fault : Bool) : CallPc → Outcome
  | .opening => .ret size (some 0)
  | .copyFromUser len off => if fault then .ret size none else .goto (.setSize len off)
  | .setSize len off => .ret len (some off)
  | .testOff len off => if size ≤ sizeT off then .ret size (some off) else .goto (.testLen len off)
  | .testLen len off =>
    if sizeT (size - off) < len then .goto (.cutLen off) else .goto (.copyToUser len off)
  | .cutLen off => .goto (.copyToUser (sizeT (size - off)) off)
  | .copyToUser len off => if fault then .ret size none else .ret size (some (int64 (off + len)))

structure Call (F : Type*) where
  file : F
  pc : CallPc

/-! ## The device and its files -/

variable {T F : Type*}

/-- `users f` are the processes inside a call on `f`; their references keep the
file from being released. -/
structure State (T F : Type*) where
  held : List Resource
  size : Nat
  files : F → File
  users : F → List T
  calls : T → Option (Call F)

/-- After the probe. Without success nothing is left to call. -/
def State.probed (env : ProbeEnv) : State T F where
  held := if (myProbe env).1 = 0 then (myProbe env).2 else []
  size := 0
  files _ := .closed
  users _ := []
  calls _ := none

inductive Event (T F : Type*) where
  | openFile (t : T) (f : F)
  | write (t : T) (f : F) (len : Nat)
  | read (t : T) (f : F) (len : Nat)
  | release (f : F)
  | next (t : T) (fault : Bool)
  | unbind

variable [DecidableEq T] [DecidableEq F]

/-- Process `t` enters a call on `f`. -/
def State.enter (s : State T F) (t : T) (f : F) (pc : CallPc) : State T F :=
  { s with
    users := Function.update s.users f (t :: s.users f)
    calls := Function.update s.calls t (some ⟨f, pc⟩) }

/-- The call of `t` on `f` makes its step. -/
def State.advance (s : State T F) (t : T) (f : F) : Outcome → State T F
  | .goto pc => { s with calls := Function.update s.calls t (some ⟨f, pc⟩) }
  | .ret size off =>
    { s with
      size := size
      files := match off with
        | some off => Function.update s.files f (.opened off)
        | none => s.files
      users := Function.update s.users f ((s.users f).erase t)
      calls := Function.update s.calls t none }

def step (s : State T F) : Event T F → Option (State T F)
  | .openFile t f =>
    if .cdev ∈ s.held ∧ s.files f = .closed ∧ (s.calls t).isNone then
      some ({ s with files := Function.update s.files f .opening }.enter t f .opening)
    else none
  | .write t f len =>
    match s.files f, s.calls t with
    | .opened off, none => some (s.enter t f (.copyFromUser (min len bufSize) off))
    | _, _ => none
  | .read t f len =>
    match s.files f, s.calls t with
    | .opened off, none => some (s.enter t f (.testOff len off))
    | _, _ => none
  | .release f =>
    match s.files f, s.users f with
    | .opened _, [] => some { s with files := Function.update s.files f .closed }
    | _, _ => none
  | .next t fault => (s.calls t).map fun c => s.advance t c.file (callStep s.size fault c.pc)
  | .unbind =>
    match s.held with
    | [] => none
    | _ :: rest => some { s with held := rest }

/-- The driver from its probe on. -/
def driver (T F : Type*) [DecidableEq T] [DecidableEq F] (env : ProbeEnv) :
    Machine (State T F) (Event T F) := ⟨.probed env, step⟩

/-! ## What each event does -/

theorem step_spec {s s' : State T F} {e : Event T F} (h : step s e = some s') :
    match e with
    | .openFile t f =>
      .cdev ∈ s.held ∧ s.files f = .closed ∧ s.calls t = none ∧
        s' = { s with files := Function.update s.files f .opening }.enter t f .opening
    | .write t f len =>
      s.calls t = none ∧ ∃ off, s.files f = .opened off ∧
        s' = s.enter t f (.copyFromUser (min len bufSize) off)
    | .read t f len =>
      s.calls t = none ∧ ∃ off, s.files f = .opened off ∧ s' = s.enter t f (.testOff len off)
    | .release f =>
      s.users f = [] ∧ s' = { s with files := Function.update s.files f .closed }
    | .next t fault =>
      ∃ c, s.calls t = some c ∧ s' = s.advance t c.file (callStep s.size fault c.pc)
    | .unbind => ∃ r rest, s.held = r :: rest ∧ s' = { s with held := rest } := by
  cases e with
  | openFile t f =>
    obtain ⟨⟨hcdev, hfile, hidle⟩, hs⟩ := Option.ite_none_right_eq_some.mp h
    exact ⟨hcdev, hfile, Option.isNone_iff_eq_none.mp hidle, (Option.some.inj hs).symm⟩
  | write t f len =>
    simp only [step] at h
    split at h
    · rename_i off hfile hidle
      exact ⟨hidle, off, hfile, (Option.some.inj h).symm⟩
    · cases h
  | read t f len =>
    simp only [step] at h
    split at h
    · rename_i off hfile hidle
      exact ⟨hidle, off, hfile, (Option.some.inj h).symm⟩
    · cases h
  | release f =>
    simp only [step] at h
    split at h
    · rename_i off hfile husers
      exact ⟨husers, (Option.some.inj h).symm⟩
    · cases h
  | next t fault =>
    obtain ⟨c, hc, hs⟩ := Option.map_eq_some_iff.mp h
    exact ⟨c, hc, hs.symm⟩
  | unbind =>
    simp only [step] at h
    split at h
    · cases h
    · rename_i r rest hheld
      exact ⟨r, rest, hheld, (Option.some.inj h).symm⟩

/-! ## The memory and the accesses -/

/-- The memory the event goes to. -/
def uses (s : State T F) : Event T F → List Resource
  | .next t _ => match s.calls t with
    | some c => c.pc.uses
    | none => []
  | _ => []

/-- The event goes to no memory that is free. -/
def Live (s : State T F) (e : Event T F) : Prop := ∀ r ∈ uses s e, r ∈ s.held

instance (s : State T F) (e : Event T F) : Decidable (Live s e) :=
  inferInstanceAs (Decidable (∀ r ∈ uses s e, r ∈ s.held))

/-- The buffer is freed with all files closed. -/
def Quiet (s : State T F) : Event T F → Prop
  | .unbind => s.held.head? = some .buffer → ∀ f, s.files f = .closed
  | _ => True

instance [Fintype F] (s : State T F) : (e : Event T F) → Decidable (Quiet s e)
  | .unbind =>
    inferInstanceAs (Decidable (s.held.head? = some .buffer → ∀ f, s.files f = .closed))
  | .openFile .. | .write .. | .read .. | .release _ | .next .. => isTrue trivial

/-! ## What every run keeps -/

structure Wf (s : State T F) : Prop where
  order : s.held <:+ myRemove ++ devmRelease
  /-- A call holds its file. -/
  user : ∀ t c, s.calls t = some c → t ∈ s.users c.file
  inUse : ∀ f, s.users f ≠ [] → s.files f ≠ .closed
  /-- A file is being opened by some process. -/
  opener : ∀ f, s.files f = .opening → ∃ t, s.calls t = some ⟨f, .opening⟩
  process : ∀ f, s.files f ≠ .closed → Nonempty T

omit [DecidableEq T] [DecidableEq F] in
theorem wf_probed (env : ProbeEnv) : Wf (.probed env : State T F) where
  order := by
    by_cases h : (myProbe env).1 = 0
    · simp [State.probed, h, myProbe_succeeded h]
    · simp [State.probed, h]
  user _ _ := nofun
  inUse _ h := absurd rfl h
  opener _ := nofun
  process _ h := absurd rfl h

/-- The memory outlives the character device, and the `my_device` the buffer. -/
theorem held_order {held : List Resource} (h : held <:+ myRemove ++ devmRelease) :
    (.cdev ∈ held → .buffer ∈ held) ∧ (.buffer ∈ held → .mydev ∈ held) ∧
      (held.head? = some .buffer → held = [.buffer, .mydev]) := by
  have hall : ∀ l ∈ (myRemove ++ devmRelease).tails,
      (.cdev ∈ l → .buffer ∈ l) ∧ (.buffer ∈ l → .mydev ∈ l) ∧
        (l.head? = some .buffer → l = [.buffer, .mydev]) := by decide
  exact hall held ((List.mem_tails _ _).mpr h)

theorem user_enter {s : State T F} (h : ∀ t c, s.calls t = some c → t ∈ s.users c.file) (t : T)
    (f : F) (pc : CallPc) (t' : T) (c : Call F) (hc : (s.enter t f pc).calls t' = some c) :
    t' ∈ (s.enter t f pc).users c.file := by
  by_cases ht : t' = t
  · subst ht
    simp only [State.enter, Function.update_self, Option.some.injEq] at hc ⊢
    subst hc
    simp
  · simp only [State.enter, Function.update_of_ne ht] at hc ⊢
    have huser := h t' c hc
    by_cases hf : c.file = f
    · subst hf
      simp [huser]
    · rw [Function.update_of_ne hf]
      exact huser

omit [DecidableEq F] in
/-- The opener of a file is not a process that does something else. -/
theorem opener_update {calls : T → Option (Call F)} {x : Call F} (h : ∃ t', calls t' = some x)
    {t : T} (ht : calls t ≠ some x) (c : Option (Call F)) :
    ∃ t', Function.update calls t c t' = some x := by
  obtain ⟨t', ht'⟩ := h
  have hne : t' ≠ t := by
    rintro rfl
    exact ht ht'
  exact ⟨t', (Function.update_of_ne hne ..).trans ht'⟩

theorem Wf.enter {s : State T F} (h : Wf s) {t : T} {f : F} (hidle : s.calls t = none)
    (hfile : s.files f ≠ .closed) (pc : CallPc) : Wf (s.enter t f pc) where
  order := h.order
  user := user_enter h.user t f pc
  inUse g hg := by
    by_cases hgf : g = f
    · subst hgf
      exact hfile
    · refine h.inUse g ?_
      simpa [State.enter, Function.update_of_ne hgf] using hg
  opener g hg := opener_update (h.opener g hg) (by simp [hidle]) _
  process := h.process

/-- A file that is opened has its opener in `my_open`. -/
theorem Wf.openFile {s : State T F} (h : Wf s) {t : T} {f : F} (hidle : s.calls t = none) :
    Wf ({ s with files := Function.update s.files f .opening }.enter t f .opening) where
  order := h.order
  user := user_enter (s := { s with files := Function.update s.files f .opening }) h.user t f _
  inUse g hg := by
    by_cases hgf : g = f
    · subst hgf
      simp [State.enter]
    · simp only [State.enter, Function.update_of_ne hgf] at hg ⊢
      exact h.inUse g hg
  opener g hg := by
    by_cases hgf : g = f
    · subst hgf
      exact ⟨t, Function.update_self ..⟩
    · simp only [State.enter, Function.update_of_ne hgf] at hg
      exact opener_update (h.opener g hg) (by simp [hidle]) _
  process _ _ := ⟨t⟩

omit [DecidableEq T] in
theorem Wf.release {s : State T F} (h : Wf s) {f : F} (husers : s.users f = []) :
    Wf { s with files := Function.update s.files f .closed } where
  order := h.order
  user := h.user
  inUse g hg := by
    have hgf : g ≠ f := by
      rintro rfl
      exact hg husers
    simp only [Function.update_of_ne hgf]
    exact h.inUse g hg
  opener g hg := by
    have hgf : g ≠ f := by
      rintro rfl
      simp at hg
    simp only [Function.update_of_ne hgf] at hg
    exact h.opener g hg
  process g hg := by
    have hgf : g ≠ f := by
      rintro rfl
      simp at hg
    simp only [Function.update_of_ne hgf] at hg
    exact h.process g hg

theorem Wf.goto {s : State T F} (h : Wf s) {t : T} {c : Call F} (hc : s.calls t = some c)
    (hpc : c.pc ≠ .opening) (pc : CallPc) : Wf (s.advance t c.file (.goto pc)) where
  order := h.order
  user t' c' hc' := by
    by_cases ht : t' = t
    · subst ht
      simp only [State.advance, Function.update_self, Option.some.injEq] at hc'
      subst hc'
      exact h.user t' c hc
    · simp only [State.advance, Function.update_of_ne ht] at hc'
      exact h.user t' c' hc'
  inUse := h.inUse
  opener g hg := by
    refine opener_update (h.opener g hg) ?_ _
    intro ht
    cases hc.symm.trans ht
    exact hpc rfl
  process := h.process

theorem Wf.ret {s : State T F} (h : Wf s) {t : T} {c : Call F} (hc : s.calls t = some c)
    (size : Nat) {off : Option Int} (hoff : off = none → c.pc ≠ .opening) :
    Wf (s.advance t c.file (.ret size off)) where
  order := h.order
  user t' c' hc' := by
    by_cases ht : t' = t
    · subst ht
      simp [State.advance] at hc'
    · simp only [State.advance, Function.update_of_ne ht] at hc' ⊢
      have huser := h.user t' c' hc'
      by_cases hf : c'.file = c.file
      · rw [hf, Function.update_self]
        exact (List.mem_erase_of_ne ht).mpr (hf ▸ huser)
      · rw [Function.update_of_ne hf]
        exact huser
  inUse g hg := by
    have hused : s.users g ≠ [] := by
      by_cases hgf : g = c.file
      · subst hgf
        exact List.ne_nil_of_mem (h.user t c hc)
      · simpa [State.advance, Function.update_of_ne hgf] using hg
    cases off with
    | none => exact h.inUse g hused
    | some off =>
      by_cases hgf : g = c.file
      · simp [State.advance, hgf]
      · simp only [State.advance, Function.update_of_ne hgf]
        exact h.inUse g hused
  opener g hg := by
    have hgf : c.pc = .opening → g ≠ c.file := by
      rintro hpc rfl
      cases off with
      | none => exact hoff rfl hpc
      | some off => simp [State.advance] at hg
    have hg' : s.files g = .opening := by
      cases off with
      | none => exact hg
      | some off =>
        by_cases hgf : g = c.file
        · simp [State.advance, hgf] at hg
        · simpa [State.advance, Function.update_of_ne hgf] using hg
    refine opener_update (h.opener g hg') ?_ _
    intro ht
    cases hc.symm.trans ht
    exact hgf rfl rfl
  process _ _ := ⟨t⟩

theorem Wf.advance {s : State T F} (h : Wf s) {t : T} {c : Call F} (hc : s.calls t = some c)
    (fault : Bool) : Wf (s.advance t c.file (callStep s.size fault c.pc)) := by
  cases hstep : callStep s.size fault c.pc with
  | goto pc =>
    refine h.goto hc ?_ pc
    intro hpc
    simp [hpc, callStep] at hstep
  | ret size off =>
    refine h.ret hc size ?_
    rintro rfl hpc
    simp [hpc, callStep] at hstep

theorem Wf.next {s s' : State T F} {e : Event T F} (h : Wf s) (hs : step s e = some s') :
    Wf s' := by
  have hspec := step_spec hs
  cases e with
  | openFile t f =>
    obtain ⟨-, -, hidle, rfl⟩ := hspec
    exact h.openFile hidle
  | write t f len | read t f len =>
    obtain ⟨hidle, off, hfile, rfl⟩ := hspec
    exact h.enter hidle (by simp [hfile]) _
  | release f =>
    obtain ⟨husers, rfl⟩ := hspec
    exact h.release husers
  | next t fault =>
    obtain ⟨c, hc, rfl⟩ := hspec
    exact h.advance hc fault
  | unbind =>
    obtain ⟨r, rest, hheld, rfl⟩ := hspec
    have hrest : rest <:+ s.held := hheld ▸ List.suffix_cons r rest
    exact ⟨hrest.trans h.order, h.user, h.inUse, h.opener, h.process⟩

/-! ## Runs that free the buffer with all files closed -/

structure Guarded (s : State T F) : Prop where
  wf : Wf s
  /-- No file outlives the buffer. -/
  closed : .buffer ∉ s.held → ∀ f, s.files f = .closed

omit [DecidableEq T] [DecidableEq F] in
theorem guarded_probed (env : ProbeEnv) : Guarded (.probed env : State T F) :=
  ⟨wf_probed env, fun _ _ => rfl⟩

omit [DecidableEq T] [DecidableEq F] in
theorem Guarded.live {s : State T F} (h : Guarded s) (e : Event T F) : Live s e := by
  intro r hr
  cases e with
  | next t fault =>
    cases hc : s.calls t with
    | none => simp [uses, hc] at hr
    | some c =>
      have hused : s.users c.file ≠ [] := List.ne_nil_of_mem (h.wf.user t c hc)
      have hbuffer : .buffer ∈ s.held := by
        by_contra hfreed
        exact h.wf.inUse c.file hused (h.closed hfreed c.file)
      have hmydev := (held_order h.wf.order).2.1 hbuffer
      simp only [uses, hc] at hr
      rcases CallPc.eq_of_mem_uses hr with rfl | rfl
      · exact hmydev
      · exact hbuffer
  | openFile | write | read | release | unbind => cases hr

theorem Guarded.next {s s' : State T F} {e : Event T F} (h : Guarded s) (he : Quiet s e)
    (hs : step s e = some s') : Guarded s' := by
  refine ⟨h.wf.next hs, ?_⟩
  have hspec := step_spec hs
  cases e with
  | openFile t f =>
    obtain ⟨hcdev, -, -, rfl⟩ := hspec
    exact fun hfreed => absurd ((held_order h.wf.order).1 hcdev) hfreed
  | write t f len | read t f len =>
    obtain ⟨-, off, -, rfl⟩ := hspec
    exact h.closed
  | release f =>
    obtain ⟨-, rfl⟩ := hspec
    intro hfreed g
    by_cases hg : g = f
    · subst hg
      exact Function.update_self ..
    · exact (Function.update_of_ne hg ..).trans (h.closed hfreed g)
  | next t fault =>
    obtain ⟨c, hc, rfl⟩ := hspec
    -- a call is under way, so the buffer is not freed
    intro hfreed
    have hheld : .buffer ∉ s.held := by
      cases hstep : callStep s.size fault c.pc <;> simpa [State.advance, hstep] using hfreed
    exact absurd (h.closed hheld c.file)
      (h.wf.inUse c.file (List.ne_nil_of_mem (h.wf.user t c hc)))
  | unbind =>
    obtain ⟨r, rest, hheld, rfl⟩ := hspec
    intro hfreed
    by_cases hr : r = .buffer
    · subst hr
      exact he (by simp [hheld])
    · refine h.closed ?_
      rw [hheld, List.mem_cons, not_or]
      exact ⟨Ne.symm hr, hfreed⟩

/-! ## Runs that free the buffer with a file open -/

/-- Some events from `s` on include an access to memory that is free. -/
def CanMisuse (env : ProbeEnv) (s : State T F) : Prop :=
  ∃ es s', (driver T F env).exec s es = some s' ∧ ¬ (driver T F env).Along Live s es

theorem CanMisuse.of_step {env : ProbeEnv} {s s' : State T F} {e : Event T F}
    (hs : step s e = some s') (h : CanMisuse env s') : CanMisuse env s := by
  obtain ⟨es, t, hrun, hbad⟩ := h
  refine ⟨e :: es, t, Machine.exec_cons_iff.mpr ⟨s', hs, hrun⟩, ?_⟩
  intro halong
  exact hbad (halong.2 s' hs)

theorem canMisuse_of_pc {env : ProbeEnv} {s : State T F} (hheld : s.held = []) {t : T} {c : Call F}
    (hc : s.calls t = some c) (hpc : c.pc ≠ .opening) : CanMisuse env s := by
  refine ⟨[.next t false], s.advance t c.file (callStep s.size false c.pc), ?_, ?_⟩
  · simp [Machine.exec, driver, step, hc]
  · intro halong
    have huses : .mydev ∈ c.pc.uses := by
      cases hc' : c.pc with
      | opening => exact absurd hc' hpc
      | setSize | testOff | testLen | cutLen => exact List.mem_cons_self
      | copyFromUser len off | copyToUser len off =>
        simp only [CallPc.uses]
        split <;> exact List.mem_cons_self
    have hlive : .mydev ∈ s.held := halong.1 .mydev (by simpa [uses, hc] using huses)
    rw [hheld] at hlive
    cases hlive

theorem canMisuse_of_opened {env : ProbeEnv} {s : State T F} (hheld : s.held = []) {t : T} {f : F}
    {off : Int} (hidle : s.calls t = none) (hfile : s.files f = .opened off) :
    CanMisuse env s := by
  have hwrite : step s (.write t f 0) = some (s.enter t f (.copyFromUser 0 off)) := by
    simp [step, hidle, hfile]
  have hcall := Function.update_self t (some (Call.mk f (.copyFromUser 0 off))) s.calls
  exact .of_step hwrite (canMisuse_of_pc hheld hcall nofun)

theorem canMisuse_of_opening {env : ProbeEnv} {s : State T F} (hheld : s.held = []) {t : T}
    {f : F} (hc : s.calls t = some ⟨f, .opening⟩) : CanMisuse env s := by
  have hnext : step s (.next t false) = some (s.advance t f (.ret s.size (some 0))) := by
    simp [step, hc, callStep]
  have hidle : (s.advance t f (.ret s.size (some 0))).calls t = none := Function.update_self ..
  have hfile : (s.advance t f (.ret s.size (some 0))).files f = .opened 0 :=
    Function.update_self ..
  exact .of_step hnext (canMisuse_of_opened hheld hidle hfile)

/-- With everything freed, a file that is not closed is enough. -/
theorem canMisuse_of_not_closed {env : ProbeEnv} {s : State T F} (h : Wf s) (hheld : s.held = [])
    {f : F} (hfile : s.files f ≠ .closed) : CanMisuse env s := by
  cases hf : s.files f with
  | closed => exact absurd hf hfile
  | opening =>
    obtain ⟨t, ht⟩ := h.opener f hf
    exact canMisuse_of_opening hheld ht
  | opened off =>
    obtain ⟨t⟩ := h.process f hfile
    cases hc : s.calls t with
    | none => exact canMisuse_of_opened hheld hc hf
    | some c =>
      obtain ⟨g, pc⟩ := c
      by_cases hpc : pc = .opening
      · subst hpc
        exact canMisuse_of_opening hheld hc
      · exact canMisuse_of_pc hheld hc hpc

theorem canMisuse_of_not_quiet {env : ProbeEnv} {s s' : State T F} {e : Event T F} (h : Wf s)
    (hs : step s e = some s') (he : ¬ Quiet s e) : CanMisuse env s' := by
  have hwf := h.next hs
  have hspec := step_spec hs
  cases e with
  | unbind =>
    obtain ⟨r, rest, hheld, rfl⟩ := hspec
    obtain ⟨hhead, f, hf⟩ : s.held.head? = some .buffer ∧ ∃ f, s.files f ≠ .closed := by
      simpa [Quiet] using he
    have hrest : rest = [.mydev] := by
      have heq := (held_order h.order).2.2 hhead
      rw [hheld] at heq
      exact (List.cons.inj heq).2
    subst hrest
    -- the driver core frees the `my_device` as well
    have hfreed : step { s with held := [.mydev] } (.unbind : Event T F) =
        some { s with held := [] } := rfl
    exact .of_step hfreed (canMisuse_of_not_closed (hwf.next hfreed) rfl hf)
  | openFile | write | read | release | next => exact absurd trivial he

/-- **The memory outlives the accesses** in every run in which the buffer is
freed with all files of the device closed; and any run up to a step that frees
it with a file open can go on to an access to memory that is free. -/
theorem accesses_live (env : ProbeEnv) {es : List (Event T F)} {s : State T F}
    (h : (driver T F env).Reaches es s) :
    ((driver T F env).Along Quiet (.probed env) es →
        (driver T F env).Along Live (.probed env) es) ∧
      ∀ e s', step s e = some s' → ¬ Quiet s e →
        ∃ fs t, (driver T F env).exec s' fs = some t ∧ ¬ (driver T F env).Along Live s' fs := by
  have hwf : Wf s := Machine.Reachable.inv (wf_probed env) (fun _ _ _ => Wf.next) ⟨es, h⟩
  refine ⟨fun hquiet => ?_, fun _ _ => canMisuse_of_not_quiet hwf⟩
  exact Machine.along_of_inv (fun _ e _ hguarded _ _ => hguarded.live e)
    (fun _ _ _ => Guarded.next) (guarded_probed env) hquiet h

/-- Every call of the probe succeeds. -/
def probeOk : ProbeEnv := ⟨true, true, 0, 0, 0, 0⟩

/-- One process opens a file and unbinds the device. -/
def openAndUnbind : List (Event Unit Unit) :=
  [.openFile () (), .next () false] ++ List.replicate 6 .unbind

/-- It closes the file before. -/
def closeAndUnbind : List (Event Unit Unit) :=
  [.openFile () (), .next () false, .write () () 5, .next () false, .next () false, .release ()] ++
    List.replicate 6 .unbind

theorem closeAndUnbind_run :
    ((driver Unit Unit probeOk).exec (.probed probeOk) closeAndUnbind).isSome := by decide

theorem accesses_live_closed :
    (driver Unit Unit probeOk).Along Live (.probed probeOk) closeAndUnbind :=
  (accesses_live probeOk (Option.some_get closeAndUnbind_run).symm).1 (by decide)

theorem write_after_unbind_run : ((driver Unit Unit probeOk).exec (.probed probeOk)
    (openAndUnbind ++ [.write () () 5, .next () false])).isSome := by decide

theorem write_after_unbind :
    ¬ ∀ env es s, (driver Unit Unit env).Reaches es s →
      (driver Unit Unit env).Along Live (.probed env) es := by
  intro h
  have hlive := h probeOk _ _ (Option.some_get write_after_unbind_run).symm
  revert hlive
  decide

end KernelSpace.CoherentDma
