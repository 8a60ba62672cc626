import Mathlib.Data.List.Basic

/-!
# Machine — guarded transition systems and their runs

A machine is an initial state and a partial step function: `step s e` is
`none` where the event `e` is not enabled in `s`. All nondeterminism is in
the choice of the events, so a run is a list of events and everything here
stays executable.

Four judgments about the run of `es` from `s`:

* `exec s es` — the state it ends in, when every event is enabled in turn;
* `Along P s es` — every step it takes satisfies `P` of the state BEFORE
  the step and the event (a condition on schedules);
* `Always Q s es` — every state it passes through satisfies `Q`;
* `Since G P s es` — one of its steps satisfies `G`, and all behind that one
  satisfy `P`.

The inductions over runs are done here: `exec_inv` and `Reachable.inv` for
what a run preserves, `exec_sim` for a run of one machine that another one
follows, `always_of_inv` and `along_of_inv` for what holds in every state and
at every step of an allowed run, `along_of_doomed` and `always_iff_along` for
conditions that are needed as well, `iff_since` for a state that is what a step
of the past has made of it.
-/

namespace KernelSpace.Lib

/-- An initial state and a guarded step function. -/
structure Machine (σ ε : Type*) where
  init : σ
  step : σ → ε → Option σ

namespace Machine

variable {σ ε : Type*} (M : Machine σ ε)

/-- The state after the events `es`, in order, from `s`. -/
def exec : σ → List ε → Option σ
  | s, [] => some s
  | s, e :: es => (M.step s e).bind fun s' => exec s' es

/-- `es` is a run of the machine and ends in `s`. -/
def Reaches (es : List ε) (s : σ) : Prop := M.exec M.init es = some s

/-- Some run ends in `s`. -/
def Reachable (s : σ) : Prop := ∃ es, M.Reaches es s

/-- Every step of the run of `es` from `s` satisfies `P`. -/
def Along (P : σ → ε → Prop) : σ → List ε → Prop
  | _, [] => True
  | s, e :: es => P s e ∧ ∀ s', M.step s e = some s' → Along P s' es

/-- Every state of the run of `es` from `s`, both ends included,
satisfies `Q`. -/
def Always (Q : σ → Prop) : σ → List ε → Prop
  | s, [] => Q s
  | s, e :: es => Q s ∧ ∀ s', M.step s e = some s' → Always Q s' es

/-- Some step of the run of `es` from `s` satisfies `G`, and every later one
satisfies `P`. -/
def Since (G P : σ → ε → Prop) : σ → List ε → Prop
  | _, [] => False
  | s, e :: es =>
    ∃ s', M.step s e = some s' ∧ (Since G P s' es ∨ G s e ∧ M.Along P s' es)

variable {M}

@[simp] theorem exec_nil (s : σ) : M.exec s [] = some s := rfl

theorem exec_cons_iff {s s' : σ} {e : ε} {es : List ε} :
    M.exec s (e :: es) = some s' ↔
      ∃ t, M.step s e = some t ∧ M.exec t es = some s' := by
  simp [exec, Option.bind_eq_some_iff]

theorem exec_append (s : σ) (es fs : List ε) :
    M.exec s (es ++ fs) = (M.exec s es).bind fun t => M.exec t fs := by
  induction es generalizing s with
  | nil => rfl
  | cons e es ih =>
    rw [List.cons_append, exec, exec]
    cases M.step s e with
    | none => rfl
    | some t => exact ih t

theorem exec_append_iff {s s' : σ} {es fs : List ε} :
    M.exec s (es ++ fs) = some s' ↔
      ∃ t, M.exec s es = some t ∧ M.exec t fs = some s' := by
  rw [exec_append, Option.bind_eq_some_iff]

theorem exec_concat_iff {s s' : σ} {es : List ε} {e : ε} :
    M.exec s (es ++ [e]) = some s' ↔
      ∃ t, M.exec s es = some t ∧ M.step t e = some s' := by
  simp [exec_append_iff, exec_cons_iff]

/-- A condition on schedules that can be decided step by step can be decided
along a run. -/
def decidableAlong {P : σ → ε → Prop} [∀ s e, Decidable (P s e)] :
    (s : σ) → (es : List ε) → Decidable (M.Along P s es)
  | _, [] => isTrue trivial
  | s, e :: es =>
    match h : M.step s e with
    | none => decidable_of_iff (P s e) ⟨fun hP => ⟨hP, fun s' hs => by simp [h] at hs⟩, And.left⟩
    | some t =>
      have := decidableAlong (P := P) t es
      decidable_of_iff (P s e ∧ M.Along P t es)
        ⟨fun hP => ⟨hP.1, fun s' hs => by cases h.symm.trans hs; exact hP.2⟩,
          fun hP => ⟨hP.1, hP.2 t h⟩⟩

instance {P : σ → ε → Prop} [∀ s e, Decidable (P s e)] (s : σ) (es : List ε) :
    Decidable (M.Along P s es) := decidableAlong s es

/-- A condition on the events alone. -/
theorem along_of_forall {P : ε → Prop} (s : σ) {es : List ε} (h : ∀ e ∈ es, P e) :
    M.Along (fun _ => P) s es := by
  induction es generalizing s with
  | nil => trivial
  | cons e es ih =>
    refine ⟨h e List.mem_cons_self, fun s' _ => ih s' ?_⟩
    exact fun e' he' => h e' (List.mem_cons_of_mem e he')

theorem along_true (s : σ) (es : List ε) : M.Along (fun _ _ => True) s es :=
  along_of_forall s fun _ _ => trivial

/-- What a run does along its way it does at its last step. -/
theorem Along.last {P : σ → ε → Prop} {s t : σ} {es : List ε} {e : ε}
    (h : M.Along P s (es ++ [e])) (hes : M.exec s es = some t) : P t e := by
  induction es generalizing s with
  | nil =>
    cases hes
    exact h.1
  | cons e' es ih =>
    obtain ⟨u, hu, hrest⟩ := exec_cons_iff.mp hes
    exact ih (h.2 u hu) hrest

/-- **The invariant rule**: what every allowed step preserves, every allowed
run preserves. -/
theorem exec_inv {I : σ → Prop} {P : σ → ε → Prop}
    (hstep : ∀ s e s', I s → P s e → M.step s e = some s' → I s') {s s' : σ}
    {es : List ε} (hI : I s) (hP : M.Along P s es) (h : M.exec s es = some s') : I s' := by
  induction es generalizing s with
  | nil =>
    cases h
    exact hI
  | cons e es ih =>
    obtain ⟨t, ht, hrest⟩ := exec_cons_iff.mp h
    exact ih (hstep s e t hI hP.1 ht) (hP.2 t ht) hrest

/-- **The simulation rule**: where every allowed event that the first machine
can take the second one can take as well, into related states, so it can every
allowed run. -/
theorem exec_sim {τ : Type*} {N : Machine τ ε} {R : σ → τ → Prop} {P : ε → Prop}
    (hstep : ∀ s t e s', R s t → P e → M.step s e = some s' → ∃ t', N.step t e = some t' ∧ R s' t')
    {s s' : σ} {t : τ} {es : List ε} (hR : R s t) (hP : ∀ e ∈ es, P e)
    (h : M.exec s es = some s') : ∃ t', N.exec t es = some t' ∧ R s' t' := by
  induction es generalizing s t with
  | nil =>
    cases h
    exact ⟨t, rfl, hR⟩
  | cons e es ih =>
    obtain ⟨u, hu, hrest⟩ := exec_cons_iff.mp h
    obtain ⟨v, hv, huv⟩ := hstep s t e u hR (hP e List.mem_cons_self) hu
    obtain ⟨t', ht', hR'⟩ := ih huv (fun e' he' => hP e' (List.mem_cons_of_mem e he')) hrest
    exact ⟨t', exec_cons_iff.mpr ⟨v, hv, ht'⟩, hR'⟩

/-- The invariant rule for unrestricted runs. -/
theorem Reachable.inv {I : σ → Prop} (h0 : I M.init)
    (hstep : ∀ s e s', I s → M.step s e = some s' → I s') {s : σ}
    (h : M.Reachable s) : I s := by
  obtain ⟨es, hes⟩ := h
  exact exec_inv (fun s e s' hI _ => hstep s e s' hI) h0 (along_true _ es) hes

theorem Reachable.init : M.Reachable M.init := ⟨[], rfl⟩

theorem Reachable.step {s s' : σ} {e : ε} (h : M.Reachable s)
    (hs : M.step s e = some s') : M.Reachable s' := by
  obtain ⟨es, hes⟩ := h
  exact ⟨es ++ [e], exec_concat_iff.mpr ⟨s, hes, hs⟩⟩

theorem Always.head {Q : σ → Prop} {s : σ} {es : List ε} (h : M.Always Q s es) : Q s := by
  cases es with
  | nil => exact h
  | cons e es => exact h.1

/-- What a step from a good state preserves holds at the end of a good run. -/
theorem Always.exec_inv {Q D : σ → Prop}
    (hstep : ∀ s e s', D s → Q s → M.step s e = some s' → D s') {s s' : σ} {es : List ε}
    (hQ : M.Always Q s es) (hD : D s) (h : M.exec s es = some s') : D s' ∧ Q s' := by
  induction es generalizing s with
  | nil =>
    cases h
    exact ⟨hD, hQ⟩
  | cons e es ih =>
    obtain ⟨t, ht, hrest⟩ := exec_cons_iff.mp h
    exact ih (hQ.2 t ht) (hstep s e t hD hQ.1 ht) hrest

/-- A property that holds at the end of every allowed run holds in every
state of every allowed run: the prefixes of an allowed run are allowed. -/
theorem always_of_inv {I Q : σ → Prop} {P : σ → ε → Prop} (hQ : ∀ s, I s → Q s)
    (hstep : ∀ s e s', I s → P s e → M.step s e = some s' → I s') {s : σ}
    {es : List ε} (hI : I s) (hP : M.Along P s es) : M.Always Q s es := by
  induction es generalizing s with
  | nil => exact hQ s hI
  | cons e es ih => exact ⟨hQ s hI, fun t ht => ih (hstep s e t hI hP.1 ht) (hP.2 t ht)⟩

/-- What every allowed step satisfies under the invariant, an allowed run
satisfies along. -/
theorem along_of_inv {I : σ → Prop} {P P' : σ → ε → Prop}
    (hP' : ∀ s e s', I s → P s e → M.step s e = some s' → P' s e)
    (hstep : ∀ s e s', I s → P s e → M.step s e = some s' → I s') {s s' : σ} {es : List ε}
    (hI : I s) (hP : M.Along P s es) (h : M.exec s es = some s') : M.Along P' s es := by
  induction es generalizing s with
  | nil => trivial
  | cons e es ih =>
    obtain ⟨t, ht, hrest⟩ := exec_cons_iff.mp h
    refine ⟨hP' s e t hI hP.1 ht, fun t' ht' => ?_⟩
    cases ht.symm.trans ht'
    exact ih (hstep s e t hI hP.1 ht) (hP.2 t ht) hrest

/-- **What comes of a step**: when `I` holds behind a step exactly if the step
brings it or keeps it, it holds at the end of a run exactly if a step has brought
it, or the beginning has, and all later ones have kept it. -/
theorem iff_since {I D : σ → Prop} {G P : σ → ε → Prop}
    (hD : ∀ s e s', D s → M.step s e = some s' → D s')
    (hstep : ∀ s e s', D s → M.step s e = some s' → (I s' ↔ G s e ∨ P s e ∧ I s)) {s s' : σ}
    {es : List ε} (hs : D s) (h : M.exec s es = some s') :
    I s' ↔ M.Since G P s es ∨ M.Along P s es ∧ I s := by
  induction es generalizing s with
  | nil =>
    cases h
    simp [Since, Along]
  | cons e es ih =>
    obtain ⟨t, ht, hrest⟩ := exec_cons_iff.mp h
    have hsince : M.Since G P s (e :: es) ↔ M.Since G P t es ∨ G s e ∧ M.Along P t es := by
      simp [Since, ht]
    have halong : M.Along P s (e :: es) ↔ P s e ∧ M.Along P t es := by
      simp [Along, ht]
    rw [ih (hD s e t hs ht) hrest, hstep s e t hs ht, hsince, halong]
    tauto

/-- **A condition that is needed**: when a step that breaks it leads to a
state that good states do not leave, and such a state is no good end, the
good runs are allowed ones. -/
theorem along_of_doomed {I D Q : σ → Prop} {P : σ → ε → Prop}
    (hstep : ∀ s e s', I s → P s e → M.step s e = some s' → I s')
    (hbad : ∀ s e s', I s → M.step s e = some s' → ¬ P s e → D s')
    (hdoom : ∀ s e s', D s → Q s → M.step s e = some s' → D s') {s s' : σ} {es : List ε}
    (hend : D s' → ¬ Q s') (hI : I s) (h : M.exec s es = some s') (hQ : M.Always Q s es) :
    M.Along P s es := by
  induction es generalizing s with
  | nil => trivial
  | cons e es ih =>
    obtain ⟨t, ht, hrest⟩ := exec_cons_iff.mp h
    have hgood : M.Always Q t es := hQ.2 t ht
    have hP : P s e := by
      -- otherwise the rest of the run is good and stays in `D` to its end
      by_contra hP
      obtain ⟨hD, hQ'⟩ := hgood.exec_inv hdoom (hbad s e t hI ht hP) hrest
      exact hend hD hQ'
    refine ⟨hP, fun t' ht' => ?_⟩
    cases ht.symm.trans ht'
    exact ih (hstep s e t hI hP ht) hrest hgood

/-- **The exact condition**: when allowed steps keep the invariant and no
other step from it gives a good state, the good runs are the allowed ones. -/
theorem always_iff_along {I Q : σ → Prop} {P : σ → ε → Prop} (hQ : ∀ s, I s → Q s)
    (hstep : ∀ s e s', I s → P s e → M.step s e = some s' → I s')
    (hbad : ∀ s e s', I s → M.step s e = some s' → Q s' → P s e) {s s' : σ} {es : List ε}
    (hI : I s) (h : M.exec s es = some s') : M.Always Q s es ↔ M.Along P s es := by
  refine ⟨along_of_doomed (D := fun s => ¬ Q s) hstep ?_ ?_ id hI h, always_of_inv hQ hstep hI⟩
  · exact fun s e s' hI hs hP hQ' => hP (hbad s e s' hI hs hQ')
  · exact fun s e s' hD hQ' => absurd hQ' hD

end Machine

end KernelSpace.Lib
