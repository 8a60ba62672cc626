import Mathlib.Order.Basic
import Mathlib.Order.Nat
import KernelSpace.Kernel.Errno
import KernelSpace.Lib.Effects

/-!
# Polling with a timeout

`read_poll_timeout(op, val, cond, sleep_us, timeout_us, false, args)` for an
`op` that may fail, as `regmap_read_poll_timeout` uses it: the loop ends at an
error and where the condition holds; where the time is over it reads once more.
Between two looks at the clock the loop sleeps for at least a quarter of
`sleep_us`, so the time does get over (`Clock.checks`).
-/

namespace KernelSpace.Kernel

open KernelSpace.Lib

/-- What `ktime_get` returns to a loop that sleeps, in microseconds. -/
structure Clock (sleepUs : Nat) where
  now : Nat → Nat
  start : now 0 ≤ now 1
  /-- `usleep_range((sleep_us >> 2) + 1, sleep_us)`. -/
  sleeps : ∀ i, now (i + 1) + (sleepUs / 4 + 1) ≤ now (i + 2)

namespace Clock

variable {sleepUs : Nat} (clock : Clock sleepUs) (timeoutUs : Nat)

/-- The look number `i` finds the time over. -/
def Expired (i : Nat) : Prop := clock.now 0 + timeoutUs < clock.now (i + 1)

instance : DecidablePred (clock.Expired timeoutUs) :=
  fun i => inferInstanceAs (Decidable (clock.now 0 + timeoutUs < clock.now (i + 1)))

theorem elapsed (i : Nat) : clock.now 0 + i * (sleepUs / 4 + 1) ≤ clock.now (i + 1) := by
  induction i with
  | zero => simpa using clock.start
  | succ i ih =>
    have hstep : clock.now (i + 1) + (sleepUs / 4 + 1) ≤ clock.now (i + 1 + 1) := clock.sleeps i
    rw [Nat.add_mul]
    omega

theorem expired_at : clock.Expired timeoutUs (timeoutUs / (sleepUs / 4 + 1) + 1) := by
  have hlt : timeoutUs < (timeoutUs / (sleepUs / 4 + 1) + 1) * (sleepUs / 4 + 1) := by
    rw [Nat.mul_comm]
    exact Nat.lt_mul_div_succ timeoutUs (Nat.succ_pos _)
  have hle := clock.elapsed (timeoutUs / (sleepUs / 4 + 1) + 1)
  unfold Expired
  omega

/-- How often the time is not over yet. -/
def checks : Nat := Nat.find ⟨_, clock.expired_at timeoutUs⟩

theorem checks_le : clock.checks timeoutUs ≤ timeoutUs / (sleepUs / 4 + 1) + 1 :=
  Nat.find_min' _ (clock.expired_at timeoutUs)

end Clock

section

variable {σ V : Type} (op : EStateM Int σ V) (cond : V → Bool)

/-- The loop, with `n` looks at the clock to come that find time left. -/
def pollLoop : Nat → EStateM Int σ V
  | 0 => do
    let val ← op
    if cond val then pure val
    else do
      let val ← op
      if cond val then pure val else throw (-ETIMEDOUT)
  | n + 1 => do
    let val ← op
    if cond val then pure val else pollLoop n

def readPollTimeout {sleepUs : Nat} (clock : Clock sleepUs) (timeoutUs : Nat) : EStateM Int σ V :=
  pollLoop op cond (clock.checks timeoutUs)

/-- The values that `op` returns, one time after the other. -/
def Reads : σ → List V → σ → Prop
  | s, [], t => s = t
  | s, v :: vs, t => ∃ s', op.run s = .ok v s' ∧ Reads s' vs t

variable {op cond}

theorem afterRead_run (x : EStateM Int σ V) (s : σ) :
    (do let val ← op; if cond val then pure val else x : EStateM Int σ V).run s =
      match op.run s with
      | .ok val s' => if cond val then .ok val s' else x.run s'
      | .error err s' => .error err s' := by
  simp only [EStateM.run, bind, EStateM.bind]
  cases op s with
  | ok val s' =>
    dsimp only
    split <;> rfl
  | error err s' => rfl

/-- How the loop ends: with a value for which the condition holds, at an error,
or with the last value read when the time was over. -/
theorem pollLoop_spec (op : EStateM Int σ V) (cond : V → Bool) (n : Nat) :
    ∀ s, match (pollLoop op cond n).run s with
      | .ok val t => cond val = true ∧ ∃ vs, Reads op s (vs ++ [val]) t ∧
          (∀ v ∈ vs, cond v = false) ∧ vs.length ≤ n + 1
      | .error err t =>
        (∃ vs s', Reads op s vs s' ∧ op.run s' = .error err t ∧ (∀ v ∈ vs, cond v = false) ∧
          vs.length ≤ n + 1) ∨
        err = -ETIMEDOUT ∧ ∃ vs, Reads op s vs t ∧ (∀ v ∈ vs, cond v = false) ∧
          vs.length = n + 2 := by
  induction n with
  | zero =>
    intro s
    rw [pollLoop, afterRead_run]
    cases hop : op.run s with
    | error err t => exact .inl ⟨[], s, rfl, hop, by simp, by simp⟩
    | ok v s' =>
      dsimp only
      cases hcond : cond v with
      | true =>
        rw [if_pos rfl]
        exact ⟨hcond, [], ⟨s', hop, rfl⟩, by simp, by simp⟩
      | false =>
        rw [if_neg Bool.false_ne_true, afterRead_run]
        cases hop' : op.run s' with
        | error err t => exact .inl ⟨[v], s', ⟨s', hop, rfl⟩, hop', by simpa using hcond, by simp⟩
        | ok w t =>
          dsimp only
          cases hcond' : cond w with
          | true =>
            rw [if_pos rfl]
            exact ⟨hcond', [v], ⟨s', hop, t, hop', rfl⟩, by simpa using hcond, by simp⟩
          | false =>
            rw [if_neg Bool.false_ne_true]
            exact .inr ⟨rfl, [v, w], ⟨s', hop, t, hop', rfl⟩, by simp [hcond, hcond'], rfl⟩
  | succ n ih =>
    intro s
    rw [pollLoop, afterRead_run]
    cases hop : op.run s with
    | error err t => exact .inl ⟨[], s, rfl, hop, by simp, by simp⟩
    | ok v s' =>
      dsimp only
      cases hcond : cond v with
      | true =>
        rw [if_pos rfl]
        exact ⟨hcond, [], ⟨s', hop, rfl⟩, by simp, by simp⟩
      | false =>
        have hrest := ih s'
        rw [if_neg Bool.false_ne_true]
        cases hrun : (pollLoop op cond n).run s' with
        | ok val t =>
          rw [hrun] at hrest
          obtain ⟨hval, vs, hreads, hall, hlen⟩ := hrest
          exact ⟨hval, v :: vs, ⟨s', hop, hreads⟩, by simpa [hcond] using hall, by simpa using hlen⟩
        | error err t =>
          rw [hrun] at hrest
          rcases hrest with ⟨vs, u, hreads, hlast, hall, hlen⟩ | ⟨herr, vs, hreads, hall, hlen⟩
          · exact .inl ⟨v :: vs, u, ⟨s', hop, hreads⟩, hlast, by simpa [hcond] using hall,
              by simpa using hlen⟩
          · exact .inr ⟨herr, v :: vs, ⟨s', hop, hreads⟩, by simpa [hcond] using hall,
              by simpa using hlen⟩

end

end KernelSpace.Kernel
