import KernelSpace.Kernel.CTypes

/-!
# Error pointers

The kernel functions that return a pointer return an error number in its place:
the last `MAX_ERRNO` addresses are no memory.
-/

namespace KernelSpace.Kernel

def MAX_ERRNO : Int := 4095

/-- A pointer of 64 bits. -/
abbrev Ptr := BitVec 64

/-- `IS_ERR(p)`: `p >= (unsigned long)-MAX_ERRNO`. -/
def isErr (p : Ptr) : Bool := decide (sizeT (-MAX_ERRNO) ≤ p.toNat)

/-- `PTR_ERR(p)` in an `int`. -/
def ptrErr (p : Ptr) : Int := int32 p.toInt

/-- `ERR_PTR(e)`. -/
def errPtr (e : Int) : Ptr := BitVec.ofInt 64 e

/-- A negative error number, as it is returned. -/
def IsErrno (e : Int) : Prop := -MAX_ERRNO ≤ e ∧ e < 0

instance (e : Int) : Decidable (IsErrno e) := inferInstanceAs (Decidable (_ ∧ _))

theorem isErr_errPtr {e : Int} (h : IsErrno e) : isErr (errPtr e) = true := by
  obtain ⟨hlo, hhi⟩ := h
  have hnat : (errPtr e).toNat = sizeT e := BitVec.toNat_ofInt ..
  rw [isErr, hnat, decide_eq_true_eq, sizeT, sizeT]
  rw [MAX_ERRNO] at hlo ⊢
  omega

theorem ptrErr_errPtr {e : Int} (h : IsErrno e) : ptrErr (errPtr e) = e := by
  obtain ⟨hlo, hhi⟩ := h
  rw [MAX_ERRNO] at hlo
  have hlong : (errPtr e).toInt = e := by
    rw [errPtr, BitVec.toInt_ofInt]
    exact Int.bmod_eq_of_le (by omega) (by omega)
  rw [ptrErr, hlong, int32]
  exact Int.bmod_eq_of_le (by omega) (by omega)

/-- Every error pointer stands for an error number. -/
theorem eq_errPtr_of_isErr {p : Ptr} (h : isErr p = true) : ∃ e, IsErrno e ∧ p = errPtr e := by
  have hlo : 0xfffffffffffff001 ≤ p.toNat := of_decide_eq_true h
  have hlt := p.isLt
  have hint : p.toInt = (p.toNat : Int) - 0x10000000000000000 := by
    rw [BitVec.toInt_eq_toNat_cond]
    split <;> omega
  refine ⟨p.toInt, ?_, (BitVec.ofInt_toInt).symm⟩
  rw [IsErrno, MAX_ERRNO, hint]
  omega

end KernelSpace.Kernel
