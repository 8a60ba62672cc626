import Mathlib.Data.List.Count
import KernelSpace.Lib.Machine

/-!
# Shutdown — workers that come to rest

Some events of a machine are the steps of workers, `rest` is the event of
somebody who waits until they rest, and from `asked` on they are asked to. The
machine shuts down cleanly (`Shutdown`) when the workers have only so many
steps left once they are asked, the one who waits is never stuck, and in the
states that are `gone` no worker takes a step.

`countP_le` is the bound on the steps by a measure; `shutdown_of_inv` has the
measure and an invariant as its premises.
-/

namespace KernelSpace.Lib.Machine

variable {σ ε : Type*} {M : Machine σ ε}

/-- Within `D`, every event of the workers lowers the measure and no other
raises it. -/
theorem countP_le (works : ε → Bool) {D : σ → Prop} {μ : σ → Nat}
    (hlower : ∀ s e s', D s → D s' → M.step s e = some s' → works e = true → μ s' < μ s)
    (hkeep : ∀ s e s', D s → D s' → M.step s e = some s' → works e = false → μ s' ≤ μ s)
    {s s' : σ} {es : List ε} (hD : M.Always D s es) (h : M.exec s es = some s') :
    es.countP works + μ s' ≤ μ s := by
  induction es generalizing s with
  | nil =>
    cases h
    simp
  | cons e es ih =>
    obtain ⟨t, ht, hrest⟩ := exec_cons_iff.mp h
    have hDt : M.Always D t es := hD.2 t ht
    have hle := ih hDt hrest
    cases hworks : works e with
    | true =>
      have hlt := hlower s e t hD.1 hDt.head ht hworks
      rw [List.countP_cons_of_pos hworks]
      omega
    | false =>
      have hle' := hkeep s e t hD.1 hDt.head ht hworks
      rw [List.countP_cons_of_neg (by simp [hworks])]
      omega

/-- An invariant goes along with every run. -/
theorem Always.and_inv {I Q : σ → Prop} (hstep : ∀ s e s', I s → M.step s e = some s' → I s')
    {s : σ} {es : List ε} (hI : I s) (h : M.Always Q s es) :
    M.Always (fun t => I t ∧ Q t) s es := by
  induction es generalizing s with
  | nil => exact ⟨hI, h⟩
  | cons e es ih => exact ⟨⟨hI, h.1⟩, fun t ht => ih (hstep s e t hI ht) (h.2 t ht)⟩

/-- The workers come to rest once they are asked, within `bound` steps, and
stay there. -/
structure Shutdown (M : Machine σ ε) (works : ε → Bool) (rest : ε) (asked gone : σ → Prop)
    (bound : Nat) : Prop where
  bounded : ∀ s es s', M.Reachable s → M.Always asked s es → M.exec s es = some s' →
    es.countP works ≤ bound
  /-- The one who waits goes on, or a worker does. -/
  progress : ∀ s, M.Reachable s → asked s →
    (M.step s rest).isSome ∨ ∃ e, works e = true ∧ (M.step s e).isSome
  silent : ∀ s e, M.Reachable s → gone s → works e = true → M.step s e = none

/-- **The shutdown rule.** -/
theorem shutdown_of_inv {works : ε → Bool} {rest : ε} {asked gone I : σ → Prop} {μ : σ → Nat}
    {bound : Nat} (hinit : I M.init) (hstep : ∀ s e s', I s → M.step s e = some s' → I s')
    (hlower : ∀ s e s', I s → asked s → asked s' → M.step s e = some s' → works e = true →
      μ s' < μ s)
    (hkeep : ∀ s e s', I s → asked s → asked s' → M.step s e = some s' → works e = false →
      μ s' ≤ μ s)
    (hbound : ∀ s, I s → μ s ≤ bound)
    (hprogress : ∀ s, I s → asked s →
      (M.step s rest).isSome ∨ ∃ e, works e = true ∧ (M.step s e).isSome)
    (hsilent : ∀ s e, I s → gone s → works e = true → M.step s e = none) :
    Shutdown M works rest asked gone bound where
  bounded s es s' hs hasked h := by
    have hI : I s := hs.inv hinit hstep
    have hboth : M.Always (fun t => I t ∧ asked t) s es := hasked.and_inv hstep hI
    have hle := countP_le works (fun s e s' hs hs' => hlower s e s' hs.1 hs.2 hs'.2)
      (fun s e s' hs hs' => hkeep s e s' hs.1 hs.2 hs'.2) hboth h
    have hmax := hbound s hI
    omega
  progress s hs := hprogress s (hs.inv hinit hstep)
  silent s e hs := hsilent s e (hs.inv hinit hstep)

end KernelSpace.Lib.Machine
