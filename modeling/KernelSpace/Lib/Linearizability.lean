import Mathlib.Data.List.Basic

/-!
# Linearizability — concurrent calls of a sequential object

An `Object` is the sequential meaning: what a call answers and how it changes
the state. An `Operation` is one call that returned, with the times at which
it was entered and left. A list of operations is `Linearizable` when some
order of them that respects the times is a sequential history of the object.

Calls that have not returned are not part of the list; an implementation in
which they may already have taken effect needs a wider definition.

`Timed` is what a run that records its calls in the order of their returns
knows about the times. In such a list it is enough that the order of the
returns is a sequential history (`Timed.linearizable`).
-/

namespace KernelSpace.Lib

/-- A sequential object: its initial state, and the reply and the next state
for a call. -/
structure Object (σ ο ρ : Type*) where
  init : σ
  apply : σ → ο → ρ × σ

/-- A call that was entered at `start` and returned `reply` at `finish`. -/
structure Operation (ο ρ : Type*) where
  call : ο
  reply : ρ
  start : Nat
  finish : Nat
deriving DecidableEq

variable {σ ο ρ : Type*}

namespace Object

variable (O : Object σ ο ρ)

/-- The state after the operations, in order. -/
def after (s : σ) (ops : List (Operation ο ρ)) : σ :=
  ops.foldl (fun s op => (O.apply s op.call).2) s

/-- The operations, in order, are a sequential history from `s`. -/
def Legal : σ → List (Operation ο ρ) → Prop
  | _, [] => True
  | s, op :: ops => op.reply = (O.apply s op.call).1 ∧ Legal (O.apply s op.call).2 ops

/-- No operation comes before one that had returned when it was entered. -/
def RespectsTime (ops : List (Operation ο ρ)) : Prop :=
  ops.Pairwise fun a b => ¬ b.finish < a.start

def Linearizable (ops : List (Operation ο ρ)) : Prop :=
  ∃ order, order.Perm ops ∧ RespectsTime order ∧ O.Legal O.init order

theorem after_concat (s : σ) (ops : List (Operation ο ρ)) (op : Operation ο ρ) :
    O.after s (ops ++ [op]) = (O.apply (O.after s ops) op.call).2 := by
  simp [after]

theorem legal_concat_iff {s : σ} {ops : List (Operation ο ρ)} {op : Operation ο ρ} :
    O.Legal s (ops ++ [op]) ↔
      O.Legal s ops ∧ op.reply = (O.apply (O.after s ops) op.call).1 := by
  induction ops generalizing s with
  | nil => simp [Legal, after]
  | cons a ops ih =>
    have hafter : O.after s (a :: ops) = O.after (O.apply s a.call).2 ops := rfl
    rw [List.cons_append, Legal, Legal, ih, hafter, and_assoc]

/-- What a sequential history preserves, for the replies as well: `I` of the
states gives `R` of every operation. -/
theorem Legal.inv {O : Object σ ο ρ} {I : σ → Prop} {R : Operation ο ρ → Prop}
    {ops : List (Operation ο ρ)}
    (hstep : ∀ s, ∀ op ∈ ops, I s → op.reply = (O.apply s op.call).1 →
      I (O.apply s op.call).2 ∧ R op) {s : σ} (hI : I s) (h : O.Legal s ops) :
    ∀ op ∈ ops, R op := by
  induction ops generalizing s with
  | nil => exact nofun
  | cons a ops ih =>
    obtain ⟨hI', hR⟩ := hstep s a List.mem_cons_self hI h.1
    intro op hop
    rcases List.mem_cons.mp hop with rfl | hop
    · exact hR
    · exact ih (fun s op hop => hstep s op (List.mem_cons_of_mem _ hop)) hI' h.2 op hop

end Object

/-- The list is in the order of the returns, which are before `now`. -/
structure Timed (ops : List (Operation ο ρ)) (now : Nat) : Prop where
  span : ∀ op ∈ ops, op.start ≤ op.finish
  past : ∀ op ∈ ops, op.finish < now
  sorted : ops.Pairwise fun a b => a.finish < b.finish

namespace Timed

theorem nil (now : Nat) : Timed ([] : List (Operation ο ρ)) now := ⟨nofun, nofun, .nil⟩

/-- Time passes. -/
theorem succ {ops : List (Operation ο ρ)} {now : Nat} (h : Timed ops now) :
    Timed ops (now + 1) :=
  ⟨h.span, fun op hop => Nat.lt_succ_of_lt (h.past op hop), h.sorted⟩

/-- A call returns now. -/
theorem concat {ops : List (Operation ο ρ)} {now : Nat} (h : Timed ops now)
    {op : Operation ο ρ} (hstart : op.start ≤ now) (hfinish : op.finish = now) :
    Timed (ops ++ [op]) (now + 1) := by
  refine ⟨?_, ?_, ?_⟩
  · intro a ha
    rcases List.mem_append.mp ha with ha | ha
    · exact h.span a ha
    · rw [List.mem_singleton.mp ha, hfinish]
      exact hstart
  · intro a ha
    rcases List.mem_append.mp ha with ha | ha
    · exact Nat.lt_succ_of_lt (h.past a ha)
    · rw [List.mem_singleton.mp ha, hfinish]
      exact Nat.lt_succ_self now
  · rw [List.pairwise_append]
    refine ⟨h.sorted, List.pairwise_singleton _ _, fun a ha b hb => ?_⟩
    rw [List.mem_singleton.mp hb, hfinish]
    exact h.past a ha

/-- **The order of the returns respects the times**, so it is a linearization
as soon as it is a sequential history. -/
theorem linearizable {O : Object σ ο ρ} {ops : List (Operation ο ρ)} {now : Nat}
    (h : Timed ops now) (hlegal : O.Legal O.init ops) : O.Linearizable ops := by
  refine ⟨ops, .refl _, ?_, hlegal⟩
  have hspan : ops.Pairwise fun a _ => a.start ≤ a.finish :=
    List.pairwise_of_forall_mem_list fun a ha _ _ => h.span a ha
  refine (hspan.and h.sorted).imp fun hab => ?_
  omega

end Timed

end KernelSpace.Lib
