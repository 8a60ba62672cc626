import Mathlib.Logic.Function.Basic

/-!
# Ledgers — who holds what

A list of things in use, each with an owner. `share` is what one owner has in
it. Taking and giving back is `book ++ [m]` and `book.erase m`; the lemmas say
what that does to the share of the owner and to the shares of all others, so
that an invariant can be stated owner by owner.
-/

namespace KernelSpace.Lib.Ledger

variable {M T : Type*} [DecidableEq M] [DecidableEq T] (owner : M → T)

/-- What `t` has in the book. -/
def share (book : List M) (t : T) : List M := book.filter fun m => owner m = t

variable {owner} {book : List M} {m : M} {t : T}

omit [DecidableEq M] in
@[simp] theorem mem_share : m ∈ share owner book t ↔ m ∈ book ∧ owner m = t := by
  simp [share]

omit [DecidableEq M] in
theorem share_append_self (h : owner m = t) :
    share owner (book ++ [m]) t = share owner book t ++ [m] := by
  simp [share, h]

omit [DecidableEq M] in
theorem share_append_other (h : owner m ≠ t) :
    share owner (book ++ [m]) t = share owner book t := by
  simp [share, h]

theorem share_erase : share owner (book.erase m) t = (share owner book t).erase m :=
  List.erase_filter.symm

theorem share_erase_other (h : owner m ≠ t) :
    share owner (book.erase m) t = share owner book t := by
  rw [share_erase]
  exact List.erase_of_not_mem fun hm => h (mem_share.mp hm).2

/-- Each owner counts its own. -/
theorem count_share : (share owner book (owner m)).count m = book.count m :=
  List.count_filter (by simp)

end KernelSpace.Lib.Ledger
