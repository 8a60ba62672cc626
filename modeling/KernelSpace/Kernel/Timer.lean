/-!
# A kernel timer

`struct timer_list` as `mod_timer`, the softirq and `del_timer_sync` see it:
whether it is pending, and whether its function is running. The softirq takes a
timer off before it calls the function, so the function may arm it again; the
timer is then pending while it runs, and runs again behind that.

`del_timer_sync` returns when the function is not running, and takes a pending
timer off.
-/

namespace KernelSpace.Kernel

structure Timer where
  pending : Bool
  running : Bool
deriving DecidableEq

namespace Timer

/-- `timer_setup`. -/
def setup : Timer := ⟨false, false⟩

def modTimer (t : Timer) : Timer := { t with pending := true }

/-- The time has come: the function is called. -/
def expire (t : Timer) : Option Timer :=
  if t.pending ∧ t.running = false then some ⟨false, true⟩ else none

/-- The function returns. -/
def finish (t : Timer) : Option Timer :=
  if t.running then some { t with running := false } else none

def delTimerSync (t : Timer) : Option Timer :=
  if t.running then none else some { t with pending := false }

end Timer

end KernelSpace.Kernel
