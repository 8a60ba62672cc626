import Mathlib.Init

/-!
# Error numbers

The `errno` values the drivers return, negated, as in C.
-/

namespace KernelSpace.Kernel

def ENOENT : Int := 2
def EIO : Int := 5
def EAGAIN : Int := 11
def ENOMEM : Int := 12
def EFAULT : Int := 14
def EBUSY : Int := 16
def EEXIST : Int := 17
def EINVAL : Int := 22
def ENOSPC : Int := 28
def ETIMEDOUT : Int := 110
def ERESTARTSYS : Int := 512

end KernelSpace.Kernel
