import KernelSpace.Kernel.CString
import KernelSpace.Kernel.Errno
import KernelSpace.Lib.Service

/-!
# Ioctl — the driver with a settings block (6)

`6.char_cdev_ioctl/char_cdev_ioctl.c`: one static `my_cfg`, which `SET_VALUE`
copies in and `GET_VALUE` copies out. Both copy the whole `struct my_cfg`, so
it is the 40 bytes in memory here: `id` in the bytes 0 to 3, `speed` in 4 to 7,
`name` behind them. `read` and `write` of the device do nothing.

The `pr_info` lines, which alone read the fields, are left out.
-/

namespace KernelSpace.Ioctl

open KernelSpace.Kernel KernelSpace.Lib

/-- `sizeof(struct my_cfg)`. -/
def cfgSize : Nat := 40

/-- `_IOC(dir, type, nr, size)`. -/
def ioc (dir type nr size : Nat) : BitVec 32 :=
  .ofNat 32 (dir <<< 30 ||| size <<< 16 ||| type <<< 8 ||| nr)

/-- The character `A`. -/
def MY_IOCTL_MAGIC : Nat := 0x41

/-- `_IOW(MY_IOCTL_MAGIC, 1, struct my_cfg)`. -/
def SET_VALUE : BitVec 32 := ioc 1 MY_IOCTL_MAGIC 1 cfgSize

/-- `_IOR(MY_IOCTL_MAGIC, 2, struct my_cfg)`. -/
def GET_VALUE : BitVec 32 := ioc 2 MY_IOCTL_MAGIC 2 cfgSize

/-- The return value and the bytes handed to the user. -/
structure Reply where
  ret : Int
  bytes : List UInt8
deriving DecidableEq

/-- `arg` is the struct that the user points to; the `fault` of an `ioctl` is
the number of bytes after which its user copy fails. -/
inductive Call where
  | ioctl (cmd : BitVec 32) (arg : CharArray cfgSize) (fault : Option Nat)
  | read (len : Nat)
  | write (len : Nat)

def myIoctl (myCfg : CharArray cfgSize) (cmd : BitVec 32) (arg : CharArray cfgSize)
    (fault : Option Nat) : Reply × CharArray cfgSize :=
  if cmd = SET_VALUE then
    match fault with
    | some k => (⟨-EFAULT, []⟩, myCfg.copyFault arg.bytes cfgSize k)
    | none => (⟨0, []⟩, myCfg.store 0 arg.bytes)
  else if cmd = GET_VALUE then
    match fault with
    | some _ => (⟨-EFAULT, []⟩, myCfg)
    | none => (⟨0, myCfg.bytes⟩, myCfg)
  else (⟨-EINVAL, []⟩, myCfg)

def myRead (_len : Nat) : Reply := ⟨0, []⟩

def myWrite (len : Nat) : Reply := ⟨len, []⟩

/-- The module as loaded. -/
def driver : Service (CharArray cfgSize) Call Reply where
  init := .zero cfgSize
  step myCfg
    | .ioctl cmd arg fault => some (myIoctl myCfg cmd arg fault)
    | .read len => some (myRead len, myCfg)
    | .write len => some (myWrite len, myCfg)

/-- The call is no `SET_VALUE` that succeeds. -/
def Call.KeepsValue : Call → Prop
  | ioctl cmd _ fault => cmd = SET_VALUE → fault.isSome
  | _ => True

theorem getValue_ne_setValue : GET_VALUE ≠ SET_VALUE := by decide

theorem myIoctl_getValue (myCfg arg : CharArray cfgSize) :
    myIoctl myCfg GET_VALUE arg none = (⟨0, myCfg.bytes⟩, myCfg) := by
  rw [myIoctl, if_neg getValue_ne_setValue, if_pos rfl]

/-- The states that the calls tell apart are all of them: one `GET_VALUE` does. -/
theorem alike_iff (s t : CharArray cfgSize) : driver.Alike Call.KeepsValue s t ↔ s = t := by
  constructor
  · intro h
    have hget := h [.ioctl GET_VALUE (.zero cfgSize) none] (by
      intro c hc
      cases List.mem_singleton.mp hc
      exact fun heq => absurd heq getValue_ne_setValue)
    have hbytes : s.bytes = t.bytes := by
      simpa [Service.run, driver, myIoctl_getValue] using hget
    exact CharArray.ext hbytes
  · rintro rfl cs -
    rfl

/-- **A `SET_VALUE` that fails** goes unnoticed exactly when the bytes that it
leaves in the struct are those that were there. -/
theorem failed_setValue_alike_iff {s s' : CharArray cfgSize} {arg : CharArray cfgSize} {k : Nat}
    {r : Reply} (h : driver.step s (.ioctl SET_VALUE arg (some k)) = some (r, s')) :
    r.ret = -EFAULT ∧
      (driver.Alike Call.KeepsValue s' s ↔ s.Unharmed arg.bytes cfgSize k cfgSize) := by
  cases h
  refine ⟨rfl, ?_⟩
  rw [alike_iff, s.unharmed_iff_take (Nat.le_refl _) arg.size.ge, CharArray.ext_iff,
    List.take_of_length_le (CharArray.size _).le, List.take_of_length_le s.size.le]

end KernelSpace.Ioctl
