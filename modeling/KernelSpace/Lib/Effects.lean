/-!
# Effects — how a computation ends

Computations in `EStateM` end with a value or an error and leave a state in both
cases. `Ensures x s Q E` says that `x` ends from `s` as `Q` or as `E` has it;
the rules follow the ways in which computations are put together. `bind_ok` is
for computations that are known to have ended well.
-/

namespace KernelSpace.Lib

universe u

variable {ε σ α β : Type u}

/-- `x` ends from `s` with a value and a state as in `Q`, or with an error and a
state as in `E`. -/
def Ensures (x : EStateM ε σ α) (s : σ) (Q : α → σ → Prop) (E : ε → σ → Prop) : Prop :=
  match x.run s with
  | .ok a t => Q a t
  | .error e t => E e t

namespace Ensures

variable {x : EStateM ε σ α} {s : σ} {Q Q' : α → σ → Prop} {E E' : ε → σ → Prop}

theorem pure {a : α} (h : Q a s) : Ensures (Pure.pure a) s Q E := h

theorem throw {e : ε} (h : E e s) : Ensures (MonadExcept.throw e) s Q E := h

theorem mono (h : Ensures x s Q E) (hQ : ∀ a t, Q a t → Q' a t) (hE : ∀ e t, E e t → E' e t) :
    Ensures x s Q' E' := by
  unfold Ensures at h ⊢
  cases hrun : x.run s with
  | ok a t =>
    rw [hrun] at h
    exact hQ a t h
  | error e t =>
    rw [hrun] at h
    exact hE e t h

/-- A computation ends as one does that it comes down to. -/
theorem of_run_eq {y : EStateM ε σ α} {t : σ} (h : x.run s = y.run t) (hy : Ensures y t Q E) :
    Ensures x s Q E := by
  unfold Ensures at hy ⊢
  rw [h]
  exact hy

/-- A sequence ends as its second part does where the first one has left off. -/
theorem bind {f : α → EStateM ε σ β} {R : β → σ → Prop}
    (h : Ensures x s (fun a t => Ensures (f a) t R E) E) : Ensures (x >>= f) s R E := by
  unfold Ensures at h ⊢
  simp only [EStateM.run, Bind.bind, EStateM.bind] at h ⊢
  cases hrun : x s with
  | ok a t =>
    rw [hrun] at h
    exact h
  | error e t =>
    rw [hrun] at h
    exact h

end Ensures

/-- A sequence has ended well: both parts have. -/
theorem bind_ok {x : EStateM ε σ α} {f : α → EStateM ε σ β} {s s' : σ} {b : β}
    (h : (x >>= f).run s = .ok b s') :
    ∃ a t, x.run s = .ok a t ∧ (f a).run t = .ok b s' := by
  simp only [EStateM.run, Bind.bind, EStateM.bind] at h ⊢
  cases hrun : x s with
  | ok a t =>
    rw [hrun] at h
    exact ⟨a, t, rfl, h⟩
  | error e t =>
    rw [hrun] at h
    cases h

end KernelSpace.Lib
