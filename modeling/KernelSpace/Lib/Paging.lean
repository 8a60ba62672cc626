import Mathlib.Logic.Function.Basic

/-!
# Paging — frames of memory seen through page tables

The contents of the frames, and for each process a page table. What a process
sees at a page is the frame that its table has there. Two views of one frame
change together; `view_write_iff` says when a write to the only mapped frame
goes unseen.
-/

namespace KernelSpace.Lib

/-- Frames `F` with contents `C`; processes `P` with pages `V`. -/
structure Paging (P V F C : Type*) where
  frame : F → C
  table : P → V → Option F

namespace Paging

variable {P V F C : Type*}

/-- What `p` sees at page `v`. -/
def view (m : Paging P V F C) (p : P) (v : V) : Option C := (m.table p v).map m.frame

/-- No table has another frame than `f`. -/
def MapsOnly (f : F) (m : Paging P V F C) : Prop := ∀ p v f', m.table p v = some f' → f' = f

/-- No table has a frame. -/
def Unmapped (m : Paging P V F C) : Prop := ∀ p v, m.table p v = none

variable {m : Paging P V F C} {f : F}

/-- A page that is mapped is a view of the one frame. -/
theorem MapsOnly.view_eq (h : MapsOnly f m) {p : P} {v : V} (hv : m.table p v ≠ none) :
    m.view p v = some (m.frame f) := by
  obtain ⟨f', hf'⟩ := Option.ne_none_iff_exists'.mp hv
  rw [view, hf', h p v f' hf']
  rfl

section Write

variable [DecidableEq F]

def write (m : Paging P V F C) (f : F) (c : C) : Paging P V F C :=
  { m with frame := Function.update m.frame f c }

@[simp] theorem write_table (m : Paging P V F C) (f : F) (c : C) :
    (m.write f c).table = m.table := rfl

@[simp] theorem write_frame (m : Paging P V F C) (f : F) (c : C) : (m.write f c).frame f = c :=
  Function.update_self ..

theorem MapsOnly.write (h : MapsOnly f m) (f' : F) (c : C) : MapsOnly f (m.write f' c) := h

/-- **A write that nobody sees**: it changes nothing, or there is nobody. -/
theorem view_write_iff (h : MapsOnly f m) (c : C) :
    (∀ p v, (m.write f c).view p v = m.view p v) ↔ c = m.frame f ∨ m.Unmapped := by
  constructor
  · intro hview
    by_cases hmapped : m.Unmapped
    · exact .inr hmapped
    · obtain ⟨p, v, hv⟩ : ∃ p v, m.table p v ≠ none := by simpa [Unmapped] using hmapped
      have hsame := hview p v
      rw [(h.write f c).view_eq hv, h.view_eq hv, write_frame] at hsame
      exact .inl (Option.some.inj hsame)
  · rintro (rfl | hnone) p v
    · rw [write, Function.update_eq_self]
    · rw [view, view, write_table, hnone p v]
      rfl

end Write

section SetTable

variable [DecidableEq P]

def setTable (m : Paging P V F C) (p : P) (table : V → Option F) : Paging P V F C :=
  { m with table := Function.update m.table p table }

@[simp] theorem setTable_table_self (m : Paging P V F C) (p : P) (table : V → Option F) :
    (m.setTable p table).table p = table := Function.update_self ..

theorem setTable_table_of_ne {p q : P} (hq : q ≠ p) (m : Paging P V F C) (table : V → Option F) :
    (m.setTable p table).table q = m.table q := Function.update_of_ne hq ..

theorem MapsOnly.setTable (h : MapsOnly f m) (p : P) {table : V → Option F}
    (htable : ∀ v f', table v = some f' → f' = f) : MapsOnly f (m.setTable p table) := by
  intro q v f' hf'
  by_cases hq : q = p
  · subst hq
    rw [setTable_table_self] at hf'
    exact htable v f' hf'
  · rw [setTable_table_of_ne hq] at hf'
    exact h q v f' hf'

end SetTable

end Paging

end KernelSpace.Lib
