import Mathlib.Data.List.Basic
import Mathlib.Data.List.Induction
import Mathlib.Data.List.Nodup

/-!
# Registry — a bounded table without duplicates

`register cap tbl x` appends `x` to `tbl` unless it is there already or the
table is full. Registering a whole history one by one leaves exactly the
first `cap` distinct values of the history, in order of first appearance
(`firstDistinct`, `firstDistinct_concat`).
-/

namespace KernelSpace.Lib

variable {α : Type*} [DecidableEq α]

/-- One registration in a table of capacity `cap`. -/
def register (cap : Nat) (tbl : List α) (x : α) : List α :=
  if x ∈ tbl ∨ cap ≤ tbl.length then tbl else tbl ++ [x]

/-- The first `cap` distinct values of a history, oldest first. -/
def firstDistinct (cap : Nat) (history : List α) : List α := history.eraseDups.take cap

theorem register_of_mem {cap : Nat} {tbl : List α} {x : α} (h : x ∈ tbl) :
    register cap tbl x = tbl := if_pos (.inl h)

theorem register_of_full {cap : Nat} {tbl : List α} {x : α} (h : cap ≤ tbl.length) :
    register cap tbl x = tbl := if_pos (.inr h)

theorem register_nodup {cap : Nat} {tbl : List α} (h : tbl.Nodup) (x : α) :
    (register cap tbl x).Nodup := by
  unfold register
  split
  · exact h
  · rename_i hx
    exact List.nodup_append.mpr ⟨h, by simp, by rintro a ha b hb rfl; simp_all⟩

theorem mem_register {cap : Nat} {tbl : List α} {x y : α} :
    y ∈ register cap tbl x ↔ y ∈ tbl ∨ y = x ∧ tbl.length < cap := by
  unfold register
  split
  · rename_i hx
    constructor
    · exact .inl
    · rintro (h | ⟨rfl, hlt⟩)
      · exact h
      · exact hx.resolve_right (by omega)
  · rename_i hx
    simp only [List.mem_append, List.mem_singleton]
    constructor
    · rintro (h | rfl)
      · exact .inl h
      · exact .inr ⟨rfl, by omega⟩
    · rintro (h | ⟨rfl, -⟩)
      · exact .inl h
      · exact .inr rfl

theorem length_le_length_register (cap : Nat) (tbl : List α) (x : α) :
    tbl.length ≤ (register cap tbl x).length := by
  unfold register
  split <;> simp

/-- A new value in a table that holds the first `cap` of `l`. -/
theorem register_take (cap : Nat) (l : List α) (x : α) (hx : x ∉ l.take cap) :
    register cap (l.take cap) x = (l ++ [x]).take cap := by
  unfold register
  rcases Nat.lt_or_ge l.length cap with hlt | hge
  · rw [List.take_of_length_le (Nat.le_of_lt hlt)] at hx ⊢
    rw [if_neg (by simp [hx]; omega), List.take_of_length_le (by simp; omega)]
  · rw [if_pos (.inr (by simp; omega)), List.take_append_of_le_length hge]

theorem mem_of_mem_firstDistinct {cap : Nat} {history : List α} {x : α}
    (h : x ∈ firstDistinct cap history) : x ∈ history :=
  List.mem_eraseDups.mp (List.mem_of_mem_take h)

theorem eraseDups_concat (l : List α) (x : α) :
    (l ++ [x]).eraseDups = if x ∈ l then l.eraseDups else l.eraseDups ++ [x] := by
  rw [List.eraseDups_append]
  split
  · rename_i hx
    simp [List.removeAll, hx]
  · rename_i hx
    simp [List.removeAll, hx, List.eraseDups_cons]

/-- Recording one more value of a history is one registration. -/
theorem firstDistinct_concat (cap : Nat) (l : List α) (x : α) :
    firstDistinct cap (l ++ [x]) = register cap (firstDistinct cap l) x := by
  rw [firstDistinct, firstDistinct, eraseDups_concat]
  rcases Nat.lt_or_ge l.eraseDups.length cap with hlt | hge
  · -- room left: the table is the whole list of distinct values
    rw [List.take_of_length_le (Nat.le_of_lt hlt)]
    by_cases hx : x ∈ l
    · rw [if_pos hx, List.take_of_length_le (Nat.le_of_lt hlt),
        register_of_mem (List.mem_eraseDups.mpr hx)]
    · have hx' : ¬ (x ∈ l.eraseDups ∨ cap ≤ l.eraseDups.length) := by
        rintro (h | h)
        · exact hx (List.mem_eraseDups.mp h)
        · omega
      have hroom : (l.eraseDups ++ [x]).length ≤ cap := by
        simp only [List.length_append, List.length_singleton]
        omega
      rw [if_neg hx, register, if_neg hx', List.take_of_length_le hroom]
  · -- full: neither side changes
    have hfull : cap ≤ (l.eraseDups.take cap).length := by
      rw [List.length_take]
      omega
    rw [register_of_full hfull]
    split
    · rfl
    · rw [List.take_append_of_le_length hge]

end KernelSpace.Lib
