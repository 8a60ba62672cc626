import Mathlib.Init

/-!
# C integer types

Conversions between the C types where a value can leave its range. Counters
and lengths that stay in range are plain `Nat`s in the models.
-/

namespace KernelSpace.Kernel

def INT_MAX : Nat := 0x7fffffff

/-- A value converted to `size_t`. -/
def sizeT (x : Int) : Nat := (x % 0x10000000000000000).toNat

/-- A difference that is not negative does not wrap. -/
theorem sizeT_sub {a b : Nat} (h : a ≤ b) (hb : b < 0x10000000000000000) :
    sizeT ((b : Int) - a) = b - a := by
  unfold sizeT
  rw [Int.emod_eq_of_lt (by omega) (by omega)]
  omega

/-- A value converted to `int`. -/
def int32 (x : Int) : Int := x.bmod 0x100000000

/-- A value converted to `loff_t` or `ssize_t`. -/
def int64 (x : Int) : Int := x.bmod 0x10000000000000000

theorem int32_of_lt {x : Int} (h0 : 0 ≤ x) (h : x < 0x80000000) : int32 x = x :=
  Int.bmod_eq_of_le (by omega) (by omega)

theorem int64_of_lt {x : Int} (h0 : 0 ≤ x) (h : x < 0x8000000000000000) : int64 x = x :=
  Int.bmod_eq_of_le (by omega) (by omega)

theorem int64_emod (x : Int) : int64 (x % 0x10000000000000000) = int64 x :=
  Int.emod_bmod x 0x10000000000000000

/-- `if (len > cap) len = cap;` -/
theorem cut_eq_min (len cap : Nat) : (if len > cap then cap else len) = min len cap := by
  split <;> omega

end KernelSpace.Kernel
