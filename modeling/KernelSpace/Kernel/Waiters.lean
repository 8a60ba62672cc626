import Mathlib.Logic.Function.Basic
import Mathlib.Data.List.Basic

/-!
# Wait queues with many waiters

A wait queue as a list of entries, from the front, and `__wake_up_common`,
which the `wake_up` macros are calls of. It calls the wake function of each
entry in turn; the function tells whether it woke its process. Only an entry
with `WQ_FLAG_EXCLUSIVE` that did counts against `nr_exclusive`, so in a queue
without such entries the number has no effect (`wakeUpCommon_shared`).
-/

namespace KernelSpace.Kernel

/-- An entry of a wait queue, and whether it has `WQ_FLAG_EXCLUSIVE`. -/
structure Waiter (P : Type*) where
  process : P
  exclusive : Bool
deriving DecidableEq

variable {P W : Type*} [DecidableEq P]

/-- `__wake_up_common` on processes in the states `pc`; `func` is the wake
function of the entries. -/
def wakeUpCommon (func : W → Bool × W) : (nrExclusive : Int) → List (Waiter P) → (P → W) → P → W
  | _, [], pc => pc
  | nrExclusive, curr :: queue, pc =>
    let (ret, state) := func (pc curr.process)
    let pc := Function.update pc curr.process state
    if ret && curr.exclusive then
      if nrExclusive - 1 = 0 then pc else wakeUpCommon func (nrExclusive - 1) queue pc
    else wakeUpCommon func nrExclusive queue pc

/-- **No exclusive entry, no limit**: every process of the queue is woken,
whatever the number. -/
theorem wakeUpCommon_shared {func : W → Bool × W}
    (hfunc : ∀ state, (func (func state).2).2 = (func state).2) {queue : List (Waiter P)}
    (hshared : ∀ w ∈ queue, w.exclusive = false) (nrExclusive : Int) (pc : P → W) (p : P) :
    wakeUpCommon func nrExclusive queue pc p
      = if p ∈ queue.map Waiter.process then (func (pc p)).2 else pc p := by
  induction queue generalizing pc with
  | nil => rfl
  | cons curr queue ih =>
    have hcurr : curr.exclusive = false := hshared curr List.mem_cons_self
    have hstep : wakeUpCommon func nrExclusive (curr :: queue) pc
        = wakeUpCommon func nrExclusive queue
          (Function.update pc curr.process (func (pc curr.process)).2) := by
      simp only [wakeUpCommon, hcurr, Bool.and_false, Bool.false_eq_true, if_false]
    rw [hstep, ih fun w hw => hshared w (List.mem_cons_of_mem curr hw), List.map_cons]
    by_cases hp : p = curr.process
    · -- woken already, and perhaps once more
      subst hp
      rw [Function.update_self, hfunc, ite_self, if_pos List.mem_cons_self]
    · simp only [Function.update_of_ne hp, List.mem_cons, hp, false_or]

end KernelSpace.Kernel
