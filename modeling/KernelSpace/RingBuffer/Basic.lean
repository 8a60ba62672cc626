import KernelSpace.Kernel.CString
import KernelSpace.Kernel.Errno
import KernelSpace.Lib.Ring

/-!
# RingBuffer — what the two ring drivers share

27c and 27d have the same `struct ring_buffer` (`Lib.Ring` with `n` slots of
`m` bytes), the same body of `ring_push` and the same last two statements of
`ring_pop`: `pushSlot` and `popSlot`. They differ in what stands around them:
27c tests for an empty ring, 27d waits and takes a lock.

The abstraction is `queue`, the strings in the stored slots, oldest first.
`Packed` says that each of them fits its slot with the terminator, so that a
pop does not cut it a second time.
-/

namespace KernelSpace.RingBuffer

open KernelSpace.Kernel KernelSpace.Lib

variable {m n : Nat}

/-- `struct ring_buffer`. -/
abbrev Slots (m n : Nat) := Ring (CharArray m) n

/-- What `module_a_init` allocates. -/
def zeroed (m n : Nat) (h : 0 < n) : Slots m n where
  data := .replicate n (.zero m)
  head := ⟨0, h⟩
  tail := ⟨0, h⟩

/-- The body of `ring_push`: its return code and the ring. -/
def pushSlot (ring : Slots m n) (msg : CString) : Int × Slots m n :=
  let next := Ring.next ring.head
  if next = ring.tail then (-ENOSPC, ring)
  else
    let data := ring.data.set ring.head ((ring.data.get ring.head).strscpy msg)
    (0, { ring with data, head := next })

/-- The copy out of the slot at `tail` into the caller's buffer, and the
advance of `tail`. -/
def popSlot (ring : Slots m n) (msg : CharArray m) : CharArray m × Slots m n :=
  (msg.strscpy (ring.data.get ring.tail).str, { ring with tail := Ring.next ring.tail })

/-- The stored strings, oldest first. -/
def queue (ring : Slots m n) : List CString := ring.contents.map CharArray.str

/-- Every stored string is one that a copy into `m` bytes does not cut. -/
def Packed (ring : Slots m n) : Prop := ∀ msg ∈ queue ring, msg.take (m - 1) = msg

theorem queue_zeroed (h : 0 < n) : queue (zeroed m n h) = [] := by
  rw [queue, (Ring.contents_eq_nil_iff _).mpr rfl]
  rfl

theorem packed_zeroed (h : 0 < n) : Packed (zeroed m n h) := by
  intro msg hmsg
  rw [queue_zeroed] at hmsg
  cases hmsg

theorem queue_length (ring : Slots m n) : (queue ring).length = ring.count := by
  simp [queue]

theorem queue_eq_nil_iff (ring : Slots m n) : queue ring = [] ↔ ring.head = ring.tail := by
  rw [queue, List.map_eq_nil_iff, Ring.contents_eq_nil_iff]

/-- The full test sees the length of the queue. -/
theorem full_iff (ring : Slots m n) :
    Ring.next ring.head = ring.tail ↔ (queue ring).length = n - 1 := by
  rw [queue_length, Ring.full_iff]

/-! ## `pushSlot` -/

theorem pushSlot_full {ring : Slots m n} (h : (queue ring).length = n - 1) (msg : CString) :
    pushSlot ring msg = (-ENOSPC, ring) := if_pos ((full_iff ring).mpr h)

/-- A push with room stores into the slot at `head`. -/
theorem pushSlot_room {ring : Slots m n} (h : (queue ring).length ≠ n - 1) (msg : CString) :
    pushSlot ring msg = (0, ring.enqueue ((ring.data.get ring.head).strscpy msg)) :=
  if_neg fun hc => h ((full_iff ring).mp hc)

/-- The return code tells the two cases apart. -/
theorem pushSlot_ret_iff (ring : Slots m n) (msg : CString) :
    (pushSlot ring msg).1 = 0 ↔ (queue ring).length ≠ n - 1 := by
  by_cases h : (queue ring).length = n - 1
  · rw [pushSlot_full h]
    have hret : -ENOSPC ≠ 0 := by decide
    exact ⟨fun hc => absurd hc hret, fun hc => absurd h hc⟩
  · rw [pushSlot_room h]
    exact ⟨fun _ => h, fun _ => rfl⟩

/-- **A push with room appends** the message, cut to the slot. -/
theorem queue_enqueue (hm : 0 < m) {ring : Slots m n} (h : (queue ring).length ≠ n - 1)
    (msg : CString) :
    queue (ring.enqueue ((ring.data.get ring.head).strscpy msg))
      = queue ring ++ [msg.take (m - 1)] := by
  have hnext : Ring.next ring.head ≠ ring.tail := fun hc => h ((full_iff ring).mp hc)
  rw [queue, Ring.contents_enqueue hnext, List.map_append, List.map_singleton,
    CharArray.str_strscpy _ _ hm]
  rfl

theorem packed_enqueue (hm : 0 < m) {ring : Slots m n} (hp : Packed ring)
    (h : (queue ring).length ≠ n - 1) (msg : CString) :
    Packed (ring.enqueue ((ring.data.get ring.head).strscpy msg)) := by
  intro s hs
  rw [queue_enqueue hm h, List.mem_append, List.mem_singleton] at hs
  rcases hs with hs | rfl
  · exact hp s hs
  · exact CString.take_take_self msg _

/-! ## `popSlot` -/

/-- **A pop drops the oldest** string of a ring that is not empty. -/
theorem queue_eq_cons {ring : Slots m n} (h : ring.head ≠ ring.tail) (buf : CharArray m) :
    queue ring = (ring.data.get ring.tail).str :: queue (popSlot ring buf).2 := by
  rw [queue, Ring.contents_dequeue h, List.map_cons]
  rfl

/-- What the caller gets is that string, uncut. -/
theorem popSlot_str (hm : 0 < m) {ring : Slots m n} (hp : Packed ring)
    (h : ring.head ≠ ring.tail) (buf : CharArray m) :
    (popSlot ring buf).1.str = (ring.data.get ring.tail).str := by
  have hmem : (ring.data.get ring.tail).str ∈ queue ring := by
    rw [queue_eq_cons h buf]
    exact List.mem_cons_self
  rw [popSlot, CharArray.str_strscpy _ _ hm, hp _ hmem]

theorem packed_popSlot {ring : Slots m n} (hp : Packed ring) (h : ring.head ≠ ring.tail)
    (buf : CharArray m) : Packed (popSlot ring buf).2 := by
  intro s hs
  refine hp s ?_
  rw [queue_eq_cons h buf]
  exact List.mem_cons_of_mem _ hs

end KernelSpace.RingBuffer
