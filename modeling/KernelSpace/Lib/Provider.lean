import Mathlib.Data.List.Basic
import KernelSpace.Lib.Machine

/-!
# Provider — a component that others call when they start

A provider is loaded with a fresh state, or its load fails; a client calls it while
it is loaded itself, and leaves. The provider does not go while the client is there,
which needs it. What the client hears at each of its loads is recorded from the load
of the provider on.

`counted_of_reachable` is the rule for what is heard: an invariant of the provider's state
that counts the loads.
-/

namespace KernelSpace.Lib.Provider

/-- `create` is the state of a provider just loaded, `call` what the client makes
of it, with what it hears. -/
structure Pair (σ ρ : Type*) where
  create : σ
  call : σ → ρ × σ

structure State (σ ρ : Type*) where
  provider : Option σ
  client : Bool
  heard : List ρ

inductive Event where
  /-- The load of the provider, which may fail. -/
  | load (ok : Bool)
  | unload
  | loadClient
  | unloadClient

variable {σ ρ : Type*} (pair : Pair σ ρ)

def step (s : State σ ρ) : Event → Option (State σ ρ)
  | .load ok =>
    match s.provider with
    | some _ => none
    | none => some (if ok then { s with provider := some pair.create, heard := [] } else s)
  | .unload => if s.client then none else s.provider.map fun _ => { s with provider := none }
  | .loadClient =>
    if s.client then none
    else s.provider.map fun state => { s with
      provider := some (pair.call state).2
      client := true
      heard := s.heard ++ [(pair.call state).1] }
  | .unloadClient => if s.client then some { s with client := false } else none

def machine : Machine (State σ ρ) Event := ⟨⟨none, false, []⟩, step pair⟩

/-- The provider stands as `J` has it after so many loads of the client, which has
heard what `out` says. -/
structure Counted (J : Nat → σ → Prop) (out : Nat → ρ) (s : State σ ρ) : Prop where
  client : s.client = true → s.provider.isSome = true
  state : ∀ state, s.provider = some state → J s.heard.length state
  heard : s.heard = (List.range s.heard.length).map out

variable {pair} {J : Nat → σ → Prop} {out : Nat → ρ} {s s' : State σ ρ} {e : Event}

theorem counted_step (hcreate : J 0 pair.create)
    (hcall : ∀ k state, J k state → (pair.call state).1 = out k ∧ J (k + 1) (pair.call state).2)
    (h : Counted J out s) (hs : step pair s e = some s') : Counted J out s' := by
  obtain ⟨hclient, hstate, hheard⟩ := id h
  cases e with
  | load ok =>
    simp only [step] at hs
    split at hs
    · cases hs
    · cases hs
      cases ok with
      | true =>
        refine ⟨fun _ => rfl, fun state hsome => ?_, rfl⟩
        cases hsome
        exact hcreate
      | false => exact h
  | unload =>
    simp only [step] at hs
    split at hs
    · cases hs
    · rename_i hoff
      obtain ⟨state, -, rfl⟩ := Option.map_eq_some_iff.mp hs
      exact ⟨fun hon => absurd hon hoff, nofun, hheard⟩
  | loadClient =>
    simp only [step] at hs
    split at hs
    · cases hs
    · obtain ⟨state, hsome, rfl⟩ := Option.map_eq_some_iff.mp hs
      obtain ⟨hout, hnext⟩ := hcall _ state (hstate state hsome)
      have hlen : (s.heard ++ [(pair.call state).1]).length = s.heard.length + 1 := by simp
      refine ⟨fun _ => rfl, fun state' hsome' => ?_, ?_⟩
      · cases hsome'
        rw [hlen]
        exact hnext
      · rw [hlen, List.range_succ, List.map_append, ← hheard, hout]
        rfl
  | unloadClient =>
    simp only [step] at hs
    split at hs <;> cases hs
    exact ⟨nofun, hstate, hheard⟩

/-- **What is heard**: the loads of the client count, from the provider's on. -/
theorem counted_of_reachable (hcreate : J 0 pair.create)
    (hcall : ∀ k state, J k state → (pair.call state).1 = out k ∧ J (k + 1) (pair.call state).2)
    (hs : (machine pair).Reachable s) : Counted J out s :=
  hs.inv ⟨nofun, nofun, rfl⟩ fun _ _ _ => counted_step hcreate hcall

end KernelSpace.Lib.Provider
