import KernelSpace.Lib.Machine

/-!
# Service — machines that answer

A service answers every call it accepts: `step s c` is the reply and the next
state, or `none` where the call is not possible. A run is a list of calls and
gives the list of the replies.

Two services with the same calls are compared by a relation between their
states: where every call keeps the relation and gets the same reply from both,
so does every run (`run_rel`); where the replies differ on some calls only, the
runs that have none of these are told apart (`run_exact`). A single service is
its own case of the first rule for what its runs preserve (`run_inv`). Without
its answers it is a machine, with the rules for what holds in every state of a
run.
-/

namespace KernelSpace.Lib

/-- An initial state and an answering step function. -/
structure Service (σ ε ρ : Type*) where
  init : σ
  step : σ → ε → Option (ρ × σ)

namespace Service

variable {σ τ ε ρ : Type*}

/-- The replies to the calls `cs`, in order, and the state after them. -/
def run (S : Service σ ε ρ) : σ → List ε → Option (List ρ × σ)
  | s, [] => some ([], s)
  | s, c :: cs =>
    (S.step s c).bind fun (r, t) => (S.run t cs).map fun (rs, s') => (r :: rs, s')

theorem run_cons_iff {S : Service σ ε ρ} {s s' : σ} {c : ε} {cs : List ε} {rs : List ρ} :
    S.run s (c :: cs) = some (rs, s') ↔
      ∃ r t rest, S.step s c = some (r, t) ∧ S.run t cs = some (rest, s') ∧ rs = r :: rest := by
  simp only [run, Option.bind_eq_some_iff, Option.map_eq_some_iff, Prod.exists, Prod.mk.injEq]
  constructor
  · intro h
    obtain ⟨r, t, hstep, rest, s'', hrun, rfl, rfl⟩ := h
    exact ⟨r, t, rest, hstep, hrun, rfl⟩
  · intro h
    obtain ⟨r, t, rest, hstep, hrun, rfl⟩ := h
    exact ⟨r, t, hstep, rest, s', hrun, rfl, rfl⟩

/-- The service without its answers. -/
def machine (S : Service σ ε ρ) : Machine σ ε := ⟨S.init, fun s c => (S.step s c).map Prod.snd⟩

theorem machine_step_iff {S : Service σ ε ρ} {s s' : σ} {c : ε} :
    S.machine.step s c = some s' ↔ ∃ r, S.step s c = some (r, s') := by
  simp [machine]

/-- **What a run preserves**: `I` of the states and the calls still to come. -/
theorem run_inv {S : Service σ ε ρ} {I : σ → Prop} {P : ε → Prop}
    (hstep : ∀ s c r s', I s → P c → S.step s c = some (r, s') → I s') {s s' : σ}
    {cs : List ε} {rs : List ρ} (hI : I s) (hP : ∀ c ∈ cs, P c)
    (h : S.run s cs = some (rs, s')) : I s' := by
  induction cs generalizing s rs with
  | nil =>
    cases h
    exact hI
  | cons c cs ih =>
    obtain ⟨r, t, rest, hc, hrun, -⟩ := run_cons_iff.mp h
    have ht : I t := hstep s c r t hI (hP c List.mem_cons_self) hc
    exact ih ht (fun d hd => hP d (List.mem_cons_of_mem c hd)) hrun

/-- Two answers agree: both calls are refused, or both get the same reply and
leave related states. -/
def Agree (R : σ → τ → Prop) : Option (ρ × σ) → Option (ρ × τ) → Prop :=
  Option.Rel fun a b => a.1 = b.1 ∧ R a.2 b.2

theorem Agree.bind {π : Type*} {R : σ → τ → Prop} {x : Option (ρ × σ)} {y : Option (ρ × τ)}
    {f : ρ × σ → Option (π × σ)} {g : ρ × τ → Option (π × τ)} (h : Agree R x y)
    (hfg : ∀ r s t, R s t → Agree R (f (r, s)) (g (r, t))) :
    Agree R (x.bind f) (y.bind g) := by
  cases h with
  | none => exact .none
  | @some a b hab =>
    obtain ⟨r, s⟩ := a
    obtain ⟨r', t⟩ := b
    obtain ⟨rfl, hR⟩ := hab
    exact hfg r s t hR

theorem Agree.map {π : Type*} {R : σ → τ → Prop} {x : Option (ρ × σ)} {y : Option (ρ × τ)}
    (h : Agree R x y) (f : ρ → π) :
    Agree R (x.map fun (r, s) => (f r, s)) (y.map fun (r, t) => (f r, t)) := by
  cases h with
  | none => exact .none
  | some hab => exact .some ⟨congrArg f hab.1, hab.2⟩

theorem Agree.fst_eq {R : σ → τ → Prop} {x : Option (ρ × σ)} {y : Option (ρ × τ)}
    (h : Agree R x y) : x.map Prod.fst = y.map Prod.fst := by
  cases h with
  | none => rfl
  | some hab => exact congrArg some hab.1

/-- What the first service answers, the second one answers as well. -/
theorem Agree.exists_right {R : σ → τ → Prop} {x : Option (ρ × σ)} {y : Option (ρ × τ)}
    (h : Agree R x y) {r : ρ} {s : σ} (hx : x = some (r, s)) : ∃ t, y = some (r, t) ∧ R s t := by
  subst hx
  cases h with
  | @some a b hab =>
    obtain ⟨r', t⟩ := b
    obtain ⟨rfl, hR⟩ := hab
    exact ⟨t, rfl, hR⟩

/-- **The simulation rule**: services that agree on every allowed call agree on
every run of allowed calls. -/
theorem run_rel {S : Service σ ε ρ} {T : Service τ ε ρ} {R : σ → τ → Prop} {P : ε → Prop}
    (hstep : ∀ s t c, R s t → P c → Agree R (S.step s c) (T.step t c)) {s : σ} {t : τ}
    {cs : List ε} (hR : R s t) (hP : ∀ c ∈ cs, P c) : Agree R (S.run s cs) (T.run t cs) := by
  induction cs generalizing s t with
  | nil => exact .some ⟨rfl, hR⟩
  | cons c cs ih =>
    have hcall := hstep s t c hR (hP c List.mem_cons_self)
    refine hcall.bind fun r u v huv => ?_
    have hrest := ih huv fun d hd => hP d (List.mem_cons_of_mem c hd)
    exact hrest.map (r :: ·)

/-- No run of calls in `P` tells the two states apart. -/
def Alike (S : Service σ ε ρ) (P : ε → Prop) (s t : σ) : Prop :=
  ∀ cs, (∀ c ∈ cs, P c) → (S.run s cs).map Prod.fst = (S.run t cs).map Prod.fst

theorem alike_of_rel {S : Service σ ε ρ} {R : σ → σ → Prop} {P : ε → Prop}
    (hstep : ∀ s t c, R s t → P c → Agree R (S.step s c) (S.step t c)) {s t : σ} (h : R s t) :
    S.Alike P s t :=
  fun _ hcs => (run_rel hstep h hcs).fst_eq

/-- **Where two services differ**: when they go through related states and give
a call the same reply exactly if `P` holds of it, they give a run the same
replies exactly if `P` holds of all its calls. -/
theorem run_exact {S : Service σ ε ρ} {T : Service τ ε ρ} {R : σ → τ → Prop} {P : ε → Prop}
    (hstep : ∀ s t c, R s t →
      Option.Rel (fun a b => R a.2 b.2 ∧ (a.1 = b.1 ↔ P c)) (S.step s c) (T.step t c))
    {s : σ} {t : τ} (hR : R s t) (cs : List ε) :
    Option.Rel (fun a b => R a.2 b.2 ∧ (a.1 = b.1 ↔ ∀ c ∈ cs, P c)) (S.run s cs)
      (T.run t cs) := by
  induction cs generalizing s t with
  | nil => exact .some ⟨hR, by simp⟩
  | cons c cs ih =>
    have hcall := hstep s t c hR
    rw [run, run]
    revert hcall
    generalize S.step s c = x
    generalize T.step t c = y
    intro hcall
    cases hcall with
    | none => exact .none
    | @some a b hab =>
      obtain ⟨r, u⟩ := a
      obtain ⟨r', v⟩ := b
      have hrest := ih hab.1
      simp only [Option.bind_some]
      revert hrest
      generalize S.run u cs = x
      generalize T.run v cs = y
      intro hrest
      cases hrest with
      | none => exact .none
      | some hrs =>
        refine .some ⟨hrs.1, ?_⟩
        rw [List.cons.injEq, List.forall_mem_cons]
        exact and_congr hab.2 hrs.2

end Service

end KernelSpace.Lib
