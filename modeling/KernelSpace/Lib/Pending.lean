import Mathlib.Data.List.Basic

/-!
# Pending — what a log still waits for

`Pending x y log`: there is an `x` in the log with no `y` behind it. One more entry
decides it together with the log before (`pending_concat`). Where nothing waits for a
`y`, nor a `y` for a `z`, behind every `x` there is a `y` and behind that a `z`
(`answered`).
-/

namespace KernelSpace.Lib

variable {α : Type*} {x y z : α} {log : List α}

def Pending (x y : α) (log : List α) : Prop :=
  ∃ before behind, log = before ++ x :: behind ∧ y ∉ behind

theorem pending_nil : ¬ Pending x y [] := by
  rintro ⟨before, behind, h, -⟩
  simp at h

theorem pending_concat : Pending x y (log ++ [z]) ↔ z = x ∨ z ≠ y ∧ Pending x y log := by
  constructor
  · rintro ⟨before, behind, h, hy⟩
    rcases List.eq_nil_or_concat behind with rfl | ⟨behind, last, rfl⟩
    · obtain ⟨-, hz⟩ := List.append_inj' h rfl
      exact .inl (List.singleton_inj.mp hz)
    · rw [List.concat_eq_append] at h hy
      rw [← List.cons_append, ← List.append_assoc] at h
      obtain ⟨hlog, hz⟩ := List.append_inj' h rfl
      cases List.singleton_inj.mp hz
      rw [List.mem_append, not_or] at hy
      exact .inr ⟨fun heq => hy.2 (heq ▸ List.mem_singleton_self z), before, behind, hlog, hy.1⟩
  · rintro (rfl | ⟨hz, before, behind, rfl, hy⟩)
    · exact ⟨log, [], rfl, List.not_mem_nil⟩
    · refine ⟨before, behind ++ [z], by simp, ?_⟩
      rw [List.mem_append, not_or]
      exact ⟨hy, fun hmem => hz (List.mem_singleton.mp hmem).symm⟩

/-- **Answered**: nothing waits any more. -/
theorem answered (hy : ¬ Pending x y log) (hz : ¬ Pending y z log) {before behind : List α}
    (h : log = before ++ x :: behind) : ∃ a b c, behind = a ++ y :: b ++ z :: c := by
  have hmem : y ∈ behind := by
    by_contra hmem
    exact hy ⟨before, behind, h, hmem⟩
  obtain ⟨a, rest, rfl⟩ := List.append_of_mem hmem
  have hrest : z ∈ rest := by
    by_contra hrest
    exact hz ⟨before ++ x :: a, rest, by simp [h], hrest⟩
  obtain ⟨b, c, rfl⟩ := List.append_of_mem hrest
  exact ⟨a, b, c, by simp⟩

end KernelSpace.Lib
