import Mathlib.Logic.Function.Basic

/-!
# Holdings — a table of numbers, and those who have them

The table says to whom a number belongs, and everybody remembers the number he
was given. A number is given back by its name, so what `release` takes out of the
table is whatever is found there, as far as it `matches`.

The table and the memories agree (`Faithful`) after a release exactly when it is
of the number that was given and finds nobody else there
(`Faithful.release_iff`).
-/

namespace KernelSpace.Lib

structure Holdings (O K : Type*) where
  entry : K → Option O
  held : O → Option K

namespace Holdings

variable {O K : Type*}

def empty : Holdings O K := ⟨fun _ => none, fun _ => none⟩

variable [DecidableEq O] [DecidableEq K]

/-- `o` is given the number `k`, which is free. -/
def take (h : Holdings O K) (o : O) (k : K) : Holdings O K :=
  ⟨Function.update h.entry k (some o), Function.update h.held o (some k)⟩

/-- `o` gives back the number `k`. -/
def release (h : Holdings O K) (o : O) (k : K) (fits : O → Bool) : Holdings O K :=
  ⟨if (h.entry k).any fits then Function.update h.entry k none else h.entry,
    Function.update h.held o none⟩

/-- Everybody is found under the number he remembers, and nobody else is found. -/
def Faithful (h : Holdings O K) : Prop := ∀ o k, h.held o = some k ↔ h.entry k = some o

variable {h : Holdings O K} {o : O} {k : K} {fits : O → Bool}

omit [DecidableEq O] [DecidableEq K] in
theorem faithful_empty : Faithful (empty : Holdings O K) := fun _ _ => iff_of_false nofun nofun

theorem Faithful.take (hf : Faithful h) (hheld : h.held o = none) (hentry : h.entry k = none) :
    Faithful (h.take o k) := by
  intro o' k'
  by_cases ho : o' = o <;> by_cases hk : k' = k
  · subst ho hk
    simp [Holdings.take]
  · subst ho
    have hother : h.entry k' ≠ some o' := by
      rw [ne_eq, ← hf, hheld]
      nofun
    simpa [Holdings.take, hk, Ne.symm hk] using hother
  · subst hk
    have hother : h.held o' ≠ some k' := by
      rw [ne_eq, hf, hentry]
      nofun
    simpa [Holdings.take, ho, Ne.symm ho] using hother
  · simpa [Holdings.take, ho, hk] using hf o' k'

/-- What is found behind a release. -/
theorem release_entry (k' : K) :
    (h.release o k fits).entry k' = if k' = k ∧ (h.entry k).any fits then none else h.entry k' := by
  by_cases hany : (h.entry k).any fits = true
  · by_cases hk : k' = k <;> simp [release, hany, hk]
  · simp [release, hany]

/-- **Giving back by name**: the table and the memories still agree exactly when
the number is the one that was given, and nobody else is taken out. -/
theorem Faithful.release_iff (hf : Faithful h) :
    Faithful (h.release o k fits) ↔
      (∀ k', h.held o = some k' → k' = k ∧ fits o = true) ∧
        ∀ o', h.entry k = some o' → fits o' = true → o' = o := by
  constructor
  · intro hrel
    refine ⟨fun k' hk' => ?_, fun o' ho' hfits => ?_⟩
    · -- what is left in the name of `o` was not given back
      have hnone : (h.release o k fits).entry k' ≠ some o := by
        rw [ne_eq, ← hrel o k']
        simp [release]
      rw [release_entry, (hf o k').mp hk'] at hnone
      by_contra hne
      refine hnone (if_neg fun hcond => hne ⟨hcond.1, ?_⟩)
      obtain ⟨rfl, hany⟩ := hcond
      rwa [(hf o k').mp hk'] at hany
    · by_contra hne
      have hheld : (h.release o k fits).held o' = some k := by
        simpa [release, hne] using (hf o' k).mpr ho'
      have hentry := (hrel o' k).mp hheld
      rw [release_entry, ho', if_pos ⟨rfl, hfits⟩] at hentry
      cases hentry
  · rintro ⟨hown, hother⟩ o' k'
    rw [release_entry]
    by_cases ho : o' = o
    · subst ho
      refine iff_of_false (by simp [release]) fun hentry => ?_
      split at hentry
      · cases hentry
      · rename_i hcond
        obtain ⟨rfl, hfits⟩ := hown k' ((hf o' k').mpr hentry)
        rw [hentry] at hcond
        exact hcond ⟨rfl, hfits⟩
    · have hheld : (h.release o k fits).held o' = h.held o' := Function.update_of_ne ho ..
      rw [hheld, hf]
      split
      · rename_i hcond
        obtain ⟨rfl, hany⟩ := hcond
        refine iff_of_false (fun hentry => ho (hother o' hentry ?_)) nofun
        rwa [hentry] at hany
      · rfl

end Holdings

end KernelSpace.Lib
