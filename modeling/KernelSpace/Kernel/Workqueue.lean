/-!
# A work item

`struct work_struct` as `schedule_work`, the worker and `cancel_work_sync`
see it: the PENDING bit, with the reason it is set, and whether the function
is running. The worker clears PENDING when it starts the function, so an item
can be queued again while it runs; it is then run again, not twice at once.

`cancel_work_sync` has two steps: `grab` takes a queued item off its queue
and holds PENDING, which makes every `schedule_work` of the meantime a no-op;
`cancelled` comes when the function is not running.
-/

namespace KernelSpace.Kernel

/-- Why PENDING is set, if it is. -/
inductive Pending where
  | clear
  | queued
  | grabbed
deriving DecidableEq

structure Work where
  pending : Pending
  running : Bool
deriving DecidableEq

namespace Work

/-- `INIT_WORK`. -/
def init : Work := ⟨.clear, false⟩

/-- `schedule_work(&work)`. -/
def schedule (w : Work) : Work :=
  if w.pending = .clear then { w with pending := .queued } else w

/-- A worker takes the item off the queue and calls the function. -/
def start (w : Work) : Option Work :=
  if w.pending = .queued ∧ w.running = false then some ⟨.clear, true⟩ else none

/-- The function returns. -/
def finish (w : Work) : Option Work :=
  if w.running then some { w with running := false } else none

/-- `cancel_work_sync(&work)`, first step. -/
def grab (w : Work) : Option Work :=
  if w.pending = .grabbed then none else some { w with pending := .grabbed }

/-- `cancel_work_sync(&work)`, return. -/
def cancelled (w : Work) : Option Work :=
  if w.pending = .grabbed ∧ w.running = false then some init else none

/-- `flush_work(&work)`, return, where nobody queues the item meanwhile. -/
def flush (w : Work) : Option Work :=
  if w.pending = .clear ∧ w.running = false then some w else none

/-- A grabbed item is not queued. -/
theorem schedule_grabbed {w : Work} (h : w.pending = .grabbed) : w.schedule = w := by
  rw [schedule, if_neg]
  rw [h]
  decide

theorem schedule_queued {w : Work} (h : w.pending ≠ .grabbed) :
    w.schedule.pending = .queued := by
  unfold schedule
  cases hp : w.pending with
  | clear => rfl
  | queued => exact hp
  | grabbed => exact absurd hp h

theorem start_pending {w w' : Work} (h : w.start = some w') : w.pending = .queued := by
  unfold start at h
  split at h
  · exact (by assumption : _ ∧ _).1
  · cases h

theorem start_eq {w w' : Work} (h : w.start = some w') : w' = ⟨.clear, true⟩ := by
  unfold start at h
  split at h <;> cases h
  rfl

theorem finish_pending {w w' : Work} (h : w.finish = some w') : w'.pending = w.pending := by
  unfold finish at h
  split at h <;> cases h
  rfl

theorem grab_pending {w w' : Work} (h : w.grab = some w') : w'.pending = .grabbed := by
  unfold grab at h
  split at h <;> cases h
  rfl

theorem cancelled_eq {w w' : Work} (h : w.cancelled = some w') : w' = init := by
  unfold cancelled at h
  split at h <;> cases h
  rfl

end Work

end KernelSpace.Kernel
