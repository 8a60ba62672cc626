import Mathlib.Logic.Function.Basic

/-!
# Shadow — a partial copy of a store

A shadow has some of the contents of a store. It `Agrees` when all it has is
so; the lemmas say how a loss on either side, a write to both and a read go on
with that.
-/

namespace KernelSpace.Lib.Shadow

variable {A V : Type*}

/-- What the shadow has is what the store has. -/
def Agrees (store : A → V) (shadow : A → Option V) : Prop :=
  ∀ a v, shadow a = some v → store a = v

variable {store store' : A → V} {shadow shadow' : A → Option V}

/-- The shadow has nothing new, and the store is the same where it has
something. -/
theorem Agrees.mono (h : Agrees store shadow)
    (hless : ∀ a v, shadow' a = some v → shadow a = some v ∧ store' a = store a) :
    Agrees store' shadow' := by
  intro a v ha
  obtain ⟨hold, hstore⟩ := hless a v ha
  rw [hstore, h a v hold]

variable [DecidableEq A]

/-- What a shadow has behind an update. -/
theorem update_eq_some_iff {a b : A} {v w : V} :
    Function.update shadow a (some v) b = some w ↔
      (a = b ∧ v = w) ∨ a ≠ b ∧ shadow b = some w := by
  by_cases hb : a = b
  · subst hb
    simp
  · simp [hb, Ne.symm hb]

/-- An address takes the same value on both sides. -/
theorem Agrees.write (h : Agrees store shadow) (a : A) (v : V) :
    Agrees (Function.update store a v) (Function.update shadow a (some v)) := by
  intro b w hb
  rcases update_eq_some_iff.mp hb with ⟨rfl, rfl⟩ | ⟨hne, hb⟩
  · exact Function.update_self ..
  · rw [Function.update_of_ne hne.symm, h b w hb]

/-- The shadow takes over what the store has. -/
theorem Agrees.read (h : Agrees store shadow) (a : A) :
    Agrees store (Function.update shadow a (some (store a))) := by
  have hw := h.write a (store a)
  rwa [Function.update_eq_self] at hw

end KernelSpace.Lib.Shadow
