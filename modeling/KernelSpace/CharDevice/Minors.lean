import Mathlib.Data.List.Nodup
import Mathlib.Logic.Function.Basic
import KernelSpace.Kernel.Errno
import KernelSpace.Kernel.ErrPtr
import KernelSpace.Lib.Receipts

/-!
# CharDevice — the devices of the multiple-minor driver (4)

`4.char_cdev_copyfromuser/char_cdev-3.c`: `my_init` takes the device numbers,
the cdev, the class and one device for each minor. Where a `device_create`
fails, the devices made so far are destroyed with the index of the creation
loop, and the error is then read with that index: it is -1 by then, so
`my_init` returns what lies in memory before `my_device`.

`my_device` is read and written through `State.read` and `State.write`, which
keep the indices; `State.myDevice` goes on behind both ends of the array. The
log has what is taken and given back. The sysfs file of a device goes with the
device, and its result only selects a printed line.
-/

namespace KernelSpace.CharDevice.Minors

open KernelSpace.Kernel KernelSpace.Lib
open Receipt (replay releases)

inductive Resource where
  | devNum
  | myCdev
  | myClass
  | device (minor : Nat)
deriving DecidableEq

structure State where
  /-- The memory around `my_device`, in elements of the array. -/
  myDevice : Int → Ptr
  /-- The indices with which `my_device` was accessed. -/
  accesses : List Int
  log : List (Receipt Resource)

namespace State

def read (s : State) (i : Int) : Ptr × State :=
  (s.myDevice i, { s with accesses := s.accesses ++ [i] })

def write (s : State) (i : Int) (dev : Ptr) : State :=
  { s with myDevice := Function.update s.myDevice i dev, accesses := s.accesses ++ [i] }

def acquire (s : State) (r : Resource) : State := { s with log := s.log ++ [.acquire r] }

def release (s : State) (r : Resource) : State := { s with log := s.log ++ [.release r] }

/-- The state at the start, with anything in the memory. -/
def start (memory : Int → Ptr) : State := ⟨memory, [], []⟩

end State

/-- What the kernel functions return. -/
structure Env where
  allocChrdevRegion : Int
  cdevAdd : Int
  classCreate : Ptr
  deviceCreate : Nat → Ptr

/-- `while (--i >= 0) device_destroy(...)`: `i` behind the loop. -/
def destroyDevices : Nat → State → Int × State
  | 0, s => (-1, s)
  | i + 1, s => destroyDevices i (s.release (.device i))

/-- `device_create` of minor `i`, stored in `my_device[i]`. -/
def createDevice (env : Env) (i : Nat) (s : State) : State :=
  let s := s.write i (env.deviceCreate i)
  if isErr (env.deviceCreate i) then s else s.acquire (.device i)

/-- The branch `IS_ERR(my_device[i])` of the loop. -/
def undo (i : Nat) (s : State) : Int × State :=
  let (j, s) := destroyDevices i s
  let s := ((s.release .myClass).release .myCdev).release .devNum
  let (dev, s) := s.read j
  (ptrErr dev, s)

/-- The loop over the minors from `i` on, `left` of them. -/
def createDevices (env : Env) : (left i : Nat) → State → Int × State
  | 0, _, s => (0, s)
  | left + 1, i, s =>
    let (dev, s) := (createDevice env i s).read i
    if isErr dev then undo i s
    else
      -- device_create_file(my_device[i], ...)
      let (_, s) := s.read i
      createDevices env left (i + 1) s

def myInit (numDevices : Nat) (env : Env) (s : State) : Int × State :=
  if env.allocChrdevRegion ≠ 0 then (env.allocChrdevRegion, s)
  else
    let s := s.acquire .devNum
    if env.cdevAdd ≠ 0 then (env.cdevAdd, s.release .devNum)
    else
      let s := s.acquire .myCdev
      if isErr env.classCreate then
        (ptrErr env.classCreate, (s.release .myCdev).release .devNum)
      else createDevices env numDevices 0 (s.acquire .myClass)

/-! ## A device that fails -/

/-- Everything succeeds up to the device of minor `k`, which fails with `e`. -/
structure FailsAt (env : Env) (k : Nat) (e : Int) : Prop where
  region : env.allocChrdevRegion = 0
  cdev : env.cdevAdd = 0
  myClass : isErr env.classCreate = false
  created : ∀ i < k, isErr (env.deviceCreate i) = false
  failed : env.deviceCreate k = errPtr e
  errno : IsErrno e

/-- The devices, in some order, then the class, the cdev and the numbers; no
access outside the array; the error of the failed device. -/
structure Unwinds (numDevices k : Nat) (e : Int) (out : Int × State) : Prop where
  released : ∃ minors : List Nat, minors.Perm (List.range k) ∧
    releases out.2.log = minors.map .device ++ [.myClass, .myCdev, .devNum]
  in_bounds : ∀ i ∈ out.2.accesses, 0 ≤ i ∧ i < numDevices
  ret : out.1 = e

/-- What `my_init` holds when it comes to minor `k`, in the order it took it. -/
def taken (k : Nat) : List Resource :=
  [.devNum, .myCdev, .myClass] ++ (List.range k).map .device

theorem taken_succ (k : Nat) : taken (k + 1) = taken k ++ [.device k] := by
  rw [taken, List.range_succ, List.map_append, ← List.append_assoc]
  rfl

theorem taken_nodup (k : Nat) : (taken k).Nodup := by
  have hdevices : ((List.range k).map Resource.device).Nodup :=
    List.Nodup.map (fun _ _ => Resource.device.inj) List.nodup_range
  rw [taken, List.nodup_append]
  refine ⟨by decide, hdevices, ?_⟩
  rintro r hr r' hr' rfl
  obtain ⟨i, -, rfl⟩ := List.mem_map.mp hr'
  simp at hr

/-- The state in which the loop comes to minor `i`. -/
structure AtMinor (memory : Int → Ptr) (i : Nat) (s : State) : Prop where
  log : s.log = (taken i).map .acquire
  accesses : ∀ j ∈ s.accesses, 0 ≤ j ∧ j < i
  before : s.myDevice (-1) = memory (-1)

section

variable {memory : Int → Ptr} {env : Env} {i k numDevices : Nat} {e : Int} {s : State}

theorem destroyDevices_spec (i : Nat) (s : State) :
    destroyDevices i s
      = (-1, { s with log := s.log ++ ((List.range i).map .device).reverse.map .release }) := by
  induction i generalizing s with
  | zero => simp [destroyDevices]
  | succ i ih =>
    rw [destroyDevices, ih, List.range_succ]
    simp [State.release]

/-- The devices up to `i` and all else go; the index is -1. -/
theorem undo_spec (i : Nat) (s : State) :
    undo i s = (ptrErr (s.myDevice (-1)),
      { s with
        accesses := s.accesses ++ [-1]
        log := s.log ++ (taken i).reverse.map .release }) := by
  simp [undo, destroyDevices_spec, State.release, State.read, taken]

theorem createDevice_myDevice (env : Env) (i : Nat) (s : State) :
    (createDevice env i s).myDevice = Function.update s.myDevice i (env.deviceCreate i) := by
  unfold createDevice
  dsimp only
  split <;> rfl

theorem createDevice_accesses (env : Env) (i : Nat) (s : State) :
    (createDevice env i s).accesses = s.accesses ++ [(i : Int)] := by
  unfold createDevice
  dsimp only
  split <;> rfl

theorem createDevice_before (env : Env) (i : Nat) (s : State) :
    (createDevice env i s).myDevice (-1) = s.myDevice (-1) := by
  rw [createDevice_myDevice, Function.update_of_ne (by omega)]

/-- One round of the loop. -/
theorem createDevices_succ (env : Env) (left i : Nat) (s : State) :
    createDevices env (left + 1) i s =
      if isErr (env.deviceCreate i) then undo i ((createDevice env i s).read i).2
      else createDevices env left (i + 1) (((createDevice env i s).read i).2.read i).2 := by
  have hdev : ((createDevice env i s).read i).1 = env.deviceCreate i := by
    rw [State.read, createDevice_myDevice, Function.update_self]
  rw [← hdev]
  rfl

/-- A device that is made. -/
theorem AtMinor.next (h : AtMinor memory i s) (hok : isErr (env.deviceCreate i) = false) :
    AtMinor memory (i + 1) (((createDevice env i s).read i).2.read i).2 where
  log := by
    have hcreate : createDevice env i s
        = (s.write i (env.deviceCreate i)).acquire (.device i) := by
      rw [createDevice, hok]
      rfl
    rw [hcreate]
    show s.log ++ [.acquire (.device i)] = (taken (i + 1)).map .acquire
    rw [h.log, taken_succ, List.map_append]
    rfl
  accesses := by
    intro j hj
    have hj' : j ∈ s.accesses ∨ j = i := by
      simpa [State.read, createDevice_accesses, or_assoc] using hj
    rcases hj' with hj' | rfl
    · have hold := h.accesses j hj'
      omega
    · omega
  before := (createDevice_before env i s).trans h.before

/-- The loop comes to minor `k` when the ones before it succeed. -/
theorem createDevices_reaches (left d : Nat) (h : AtMinor memory i s)
    (hok : ∀ j < i + d, isErr (env.deviceCreate j) = false) :
    ∃ t, AtMinor memory (i + d) t ∧
      createDevices env (left + d) i s = createDevices env left (i + d) t := by
  induction d generalizing i s with
  | zero => exact ⟨s, h, rfl⟩
  | succ d ih =>
    have hoki : isErr (env.deviceCreate i) = false := hok i (by omega)
    have hi : i + 1 + d = i + (d + 1) := by omega
    obtain ⟨t, ht, hrun⟩ := ih (h.next hoki) (hi ▸ hok)
    rw [hi] at ht hrun
    refine ⟨t, ht, ?_⟩
    rw [← Nat.add_assoc, createDevices_succ, hoki, if_neg Bool.false_ne_true, hrun]

/-- **What `my_init` does when a device fails**: all that was taken is given
back in the opposite order, and then the error is looked for before the array. -/
theorem myInit_failed (hk : k < numDevices) (hfail : FailsAt env k e) (memory : Int → Ptr) :
    let out := myInit numDevices env (.start memory)
    out.1 = ptrErr (memory (-1)) ∧
      out.2.log = (taken k).map .acquire ++ (taken k).reverse.map .release ∧
      ∃ accesses : List Int, out.2.accesses = accesses ++ [-1] ∧
        ∀ j ∈ accesses, 0 ≤ j ∧ j < numDevices := by
  have hstart : AtMinor memory 0
      ((((State.start memory).acquire .devNum).acquire .myCdev).acquire .myClass) :=
    ⟨rfl, nofun, rfl⟩
  obtain ⟨left, rfl⟩ : ∃ left, numDevices = left + 1 + k := ⟨numDevices - k - 1, by omega⟩
  have hcreated : ∀ j < 0 + k, isErr (env.deviceCreate j) = false := by
    simpa using hfail.created
  obtain ⟨t, ht, hrun⟩ := createDevices_reaches (left + 1) k hstart hcreated
  rw [Nat.zero_add] at ht hrun
  have hinit : myInit (left + 1 + k) env (.start memory)
      = undo k ((createDevice env k t).read k).2 := by
    have herr : isErr (env.deviceCreate k) = true := by
      rw [hfail.failed]
      exact isErr_errPtr hfail.errno
    rw [createDevices_succ, herr, if_pos rfl] at hrun
    rw [← hrun]
    simp [myInit, hfail.region, hfail.cdev, hfail.myClass]
  have hlog : (createDevice env k t).log = t.log := by
    rw [createDevice, hfail.failed, isErr_errPtr hfail.errno]
    rfl
  rw [hinit, undo_spec]
  refine ⟨?_, ?_, ((createDevice env k t).read k).2.accesses, rfl, ?_⟩
  · exact congrArg ptrErr ((createDevice_before env k t).trans ht.before)
  · show (createDevice env k t).log ++ _ = _
    rw [hlog, ht.log]
  · intro j hj
    have hj' : j ∈ t.accesses ∨ j = k := by
      simpa [State.read, createDevice_accesses, or_assoc] using hj
    rcases hj' with hj' | rfl
    · have hold := ht.accesses j hj'
      omega
    · omega

/-- **A failed device never leaves `my_init` as it should**: all is given back
once and in order, but the error comes from `my_device[-1]`. -/
theorem failed_device_never_unwinds (hk : k < numDevices) (hfail : FailsAt env k e)
    (memory : Int → Ptr) :
    let out := myInit numDevices env (.start memory)
    ¬ Unwinds numDevices k e out ∧ replay [] out.2.log = some [] ∧
      releases out.2.log
        = (List.range k).reverse.map .device ++ [.myClass, .myCdev, .devNum] ∧
      out.1 = ptrErr (memory (-1)) := by
  obtain ⟨hret, hlog, accesses, haccesses, -⟩ := myInit_failed hk hfail memory
  refine ⟨fun h => ?_, ?_, ?_, hret⟩
  · have hin := h.in_bounds (-1) (by simp [haccesses])
    exact absurd hin.1 (by decide)
  · rw [hlog]
    exact Receipt.replay_unwind (taken_nodup k) nofun
  · rw [hlog, Receipt.releases_append, Receipt.releases_map_acquire,
      Receipt.releases_map_release]
    simp [taken]

end

/-- The third device cannot be made, for want of memory. -/
def thirdFails : Env where
  allocChrdevRegion := 0
  cdevAdd := 0
  classCreate := 0x1000
  deviceCreate i := if i = 2 then errPtr (-ENOMEM) else 0x2000

theorem thirdFails_failsAt : FailsAt thirdFails 2 (-ENOMEM) :=
  ⟨rfl, rfl, by decide, by decide, rfl, by decide⟩

theorem failed_device_never_unwinds_third :
    ¬ Unwinds 4 2 (-ENOMEM) (myInit 4 thirdFails (.start fun _ => 0)) :=
  (failed_device_never_unwinds (by decide) thirdFails_failsAt fun _ => 0).1

/-- With a NULL before the array the failed load is reported as a success. -/
theorem failed_device_reported_success :
    ¬ ∀ (numDevices k : Nat) (e : Int) (env : Env) (memory : Int → Ptr), k < numDevices →
      FailsAt env k e → Unwinds numDevices k e (myInit numDevices env (.start memory)) := by
  intro h
  have hret := (h 4 2 _ thirdFails (fun _ => 0) (by decide) thirdFails_failsAt).ret
  revert hret
  decide

end KernelSpace.CharDevice.Minors
