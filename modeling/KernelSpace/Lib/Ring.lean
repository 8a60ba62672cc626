import Mathlib.Data.List.Basic
import Mathlib.Tactic.SplitIfs

/-!
# Ring — a circular buffer with one unused slot

`n` slots, a write index `head` and a read index `tail`. There is no element
count: `head = tail` means empty, and a ring whose next `head` would be `tail`
is full, so at most `n - 1` elements are stored.

The abstraction is `contents`, the stored elements oldest first. What the
users need of it:

* `contents_enqueue` — a store at `head` in a ring that is not full appends;
* `contents_dequeue` — advancing `tail` in a ring that is not empty drops the
  oldest element, which is the one in the slot at `tail`;
* `empty_iff`, `full_iff` — the two index tests against the element count.

Both indices advance by `(i + 1) % n`; the proofs split on whether an index
wraps (`mod_wrap`), after which everything is linear.
-/

namespace KernelSpace.Lib

/-- `n` slots and two indices into them. -/
structure Ring (α : Type*) (n : Nat) where
  data : Vector α n
  head : Fin n
  tail : Fin n
deriving DecidableEq

namespace Ring

variable {α : Type*} {n : Nat}

theorem pos_of_fin (i : Fin n) : 0 < n := Nat.lt_of_le_of_lt (Nat.zero_le _) i.isLt

/-- `(i + 1) % n`. -/
def next (i : Fin n) : Fin n := ⟨(i.val + 1) % n, Nat.mod_lt _ (pos_of_fin i)⟩

/-- The number of stored elements, `(head - tail) mod n`. -/
def count (r : Ring α n) : Nat := (r.head.val + (n - r.tail.val)) % n

/-- The slot of the `i`-th oldest element. -/
def slot (r : Ring α n) (i : Nat) : Fin n :=
  ⟨(r.tail.val + i) % n, Nat.mod_lt _ (pos_of_fin r.tail)⟩

/-- The stored elements, oldest first. -/
def contents (r : Ring α n) : List α := (List.range r.count).map fun i => r.data.get (r.slot i)

/-- Stores `x` at `head` and advances it. -/
def enqueue (r : Ring α n) (x : α) : Ring α n :=
  { r with data := r.data.set r.head x, head := next r.head }

/-- Advances `tail`. -/
def dequeue (r : Ring α n) : Ring α n := { r with tail := next r.tail }

/-! ## Index arithmetic -/

/-- Below twice the modulus, `%` is at most one subtraction. -/
theorem mod_wrap {a n : Nat} (h : a < 2 * n) : a % n = if a < n then a else a - n := by
  split
  · rename_i hlt
    exact Nat.mod_eq_of_lt hlt
  · rename_i hge
    rw [Nat.mod_eq_sub_mod (Nat.not_lt.mp hge), Nat.mod_eq_of_lt (by omega)]

theorem next_val (i : Fin n) : (next i).val = if i.val + 1 < n then i.val + 1 else 0 := by
  have hi := i.isLt
  rw [next]
  show (i.val + 1) % n = _
  rw [mod_wrap (by omega)]
  split
  · rfl
  · omega

theorem count_eq (r : Ring α n) :
    r.count = if r.tail.val ≤ r.head.val then r.head.val - r.tail.val
      else r.head.val + n - r.tail.val := by
  have hh := r.head.isLt
  have ht := r.tail.isLt
  rw [count, mod_wrap (by omega)]
  split_ifs <;> omega

theorem slot_val (r : Ring α n) {i : Nat} (hi : i < n) :
    (r.slot i).val = if r.tail.val + i < n then r.tail.val + i else r.tail.val + i - n := by
  have ht := r.tail.isLt
  exact mod_wrap (by omega)

theorem count_lt (r : Ring α n) : r.count < n := Nat.mod_lt _ (pos_of_fin r.head)

@[simp] theorem length_contents (r : Ring α n) : r.contents.length = r.count := by
  simp [contents]

/-! ## The two index tests -/

theorem empty_iff (r : Ring α n) : r.head = r.tail ↔ r.count = 0 := by
  have hh := r.head.isLt
  have ht := r.tail.isLt
  rw [Fin.ext_iff, count_eq]
  split <;> omega

theorem contents_eq_nil_iff (r : Ring α n) : r.contents = [] ↔ r.head = r.tail := by
  rw [← List.length_eq_zero_iff, length_contents, empty_iff]

theorem full_iff (r : Ring α n) : next r.head = r.tail ↔ r.count = n - 1 := by
  have hh := r.head.isLt
  have ht := r.tail.isLt
  rw [Fin.ext_iff, next_val, count_eq]
  split_ifs <;> omega

/-! ## Enqueue -/

@[simp] theorem enqueue_head (r : Ring α n) (x : α) : (r.enqueue x).head = next r.head := rfl
@[simp] theorem enqueue_tail (r : Ring α n) (x : α) : (r.enqueue x).tail = r.tail := rfl

theorem count_enqueue {r : Ring α n} (h : next r.head ≠ r.tail) (x : α) :
    (r.enqueue x).count = r.count + 1 := by
  have hh := r.head.isLt
  have ht := r.tail.isLt
  rw [ne_eq, Fin.ext_iff, next_val] at h
  rw [count_eq, count_eq, enqueue_head, enqueue_tail, next_val]
  split_ifs at h ⊢ <;> omega

/-- The slots of the stored elements are not the slot at `head`; the next
element's is. -/
theorem slot_eq_head_iff (r : Ring α n) {i : Nat} (hi : i < n) :
    r.slot i = r.head ↔ i = r.count := by
  have hh := r.head.isLt
  have ht := r.tail.isLt
  rw [Fin.ext_iff, slot_val r hi, count_eq]
  split_ifs <;> omega

/-- **A store appends**: the new element becomes the youngest and no stored
one is overwritten. -/
theorem contents_enqueue {r : Ring α n} (h : next r.head ≠ r.tail) (x : α) :
    (r.enqueue x).contents = r.contents ++ [x] := by
  have hcount := r.count_lt
  rw [contents, count_enqueue h, List.range_succ, List.map_append, List.map_singleton]
  -- the slots of the stored elements are read as before, the next one gives `x`
  have hget : ∀ i, i < n → (r.enqueue x).data.get ((r.enqueue x).slot i)
      = if i = r.count then x else r.data.get (r.slot i) := by
    intro i hi
    show (r.data.set r.head x)[(r.slot i).val] = _
    rw [Vector.getElem_set]
    by_cases hslot : i = r.count
    · have : r.head.val = (r.slot i).val := by rw [(r.slot_eq_head_iff hi).mpr hslot]
      rw [if_pos this, if_pos hslot]
    · have : r.head.val ≠ (r.slot i).val := by
        intro hc
        exact hslot ((r.slot_eq_head_iff hi).mp (Fin.ext hc.symm))
      rw [if_neg this, if_neg hslot]
      rfl
  congr 1
  · apply List.map_congr_left
    intro i hi
    have hlt : i < r.count := List.mem_range.mp hi
    rw [hget i (by omega), if_neg (by omega)]
  · rw [hget r.count hcount, if_pos rfl]

/-! ## Dequeue -/

@[simp] theorem dequeue_head (r : Ring α n) : r.dequeue.head = r.head := rfl
@[simp] theorem dequeue_tail (r : Ring α n) : r.dequeue.tail = next r.tail := rfl
theorem count_dequeue {r : Ring α n} (h : r.head ≠ r.tail) :
    r.count = r.dequeue.count + 1 := by
  have hh := r.head.isLt
  have ht := r.tail.isLt
  rw [ne_eq, Fin.ext_iff] at h
  rw [count_eq, count_eq, dequeue_head, dequeue_tail, next_val]
  split_ifs <;> omega

/-- **Advancing `tail` drops the oldest**, the element in the slot at `tail`. -/
theorem contents_dequeue {r : Ring α n} (h : r.head ≠ r.tail) :
    r.contents = r.data.get r.tail :: r.dequeue.contents := by
  have hcount := r.count_lt
  have hdrop := count_dequeue h
  have ht := r.tail.isLt
  rw [contents, contents, hdrop, List.range_succ_eq_map, List.map_cons, List.map_map]
  have hfirst : r.slot 0 = r.tail := by
    rw [Fin.ext_iff, slot_val r (by omega)]
    split <;> omega
  rw [hfirst]
  congr 1
  apply List.map_congr_left
  intro i hi
  have hlt : i < r.dequeue.count := List.mem_range.mp hi
  have hslot : r.slot (i + 1) = r.dequeue.slot i := by
    rw [Fin.ext_iff, slot_val r (by omega), slot_val r.dequeue (by omega), dequeue_tail, next_val]
    split_ifs <;> omega
  show r.data.get (r.slot (i + 1)) = r.data.get (r.dequeue.slot i)
  rw [hslot]

end Ring

end KernelSpace.Lib
