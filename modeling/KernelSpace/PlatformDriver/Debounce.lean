import Mathlib.Data.List.Infix
import Mathlib.Logic.Function.Basic
import KernelSpace.Kernel.Errno
import KernelSpace.Lib.Machine

/-!
# PlatformDriver — one debounce for all buttons (15)

`15.PlatformDriver_DT/gpio_platform_DTC.c`: a press is reported when more than
half a second has gone by since `last_jiffies`, the time of the last report.
The driver is bound once per button of the device tree; `last_jiffies` is a
static of the driver, so it is the time of the last report of ANY button.

The handlers of different devices `D` may run at the same time, that of one
device does not overlap itself. An `irq` event is the test, with what the
handler reads of `jiffies` there and at the update; `store` is the update.

`Debounce` is what the driver does for a single button. A device gets the
reports of a single button exactly in the runs in which each of its interrupts
passes or fails the test as it would against its own last report
(`exec_seen`), that is, in which the report of another device does not put an
interrupt into the half second behind it or take it out of the half second
behind the device's own (`undisturbed_iff`).
-/

namespace KernelSpace.PlatformDriver

open KernelSpace.Kernel KernelSpace.Lib

/-- `time_after(a, b)`. -/
def timeAfter (a b : BitVec 64) : Bool := (b - a).slt 0

/-- What `button_irq` reads of `jiffies`, in the test and for the update. -/
structure Ticks where
  test : BitVec 64
  store : BitVec 64
deriving DecidableEq

/-- The test of `button_irq`. -/
def pressed (hz : Nat) (now : Ticks) (lastJiffies : BitVec 64) : Bool :=
  timeAfter now.test (lastJiffies + BitVec.ofNat 64 (hz / 2))

/-! ## A single button -/

/-- The last report, and for every interrupt whether it was reported. -/
structure Debounce where
  last : BitVec 64
  reports : List Bool
deriving DecidableEq

/-- An interrupt that was reported, or not. -/
def Debounce.record (d : Debounce) (now : Ticks) (reported : Bool) : Debounce where
  last := if reported then now.store else d.last
  reports := d.reports ++ [reported]

/-- An interrupt of a single button. -/
def Debounce.irq (hz : Nat) (d : Debounce) (now : Ticks) : Debounce :=
  d.record now (pressed hz now d.last)

theorem Debounce.record_extends (d : Debounce) (now : Ticks) (reported : Bool) :
    d.reports <+: (d.record now reported).reports := List.prefix_append ..

theorem Debounce.foldl_extends (hz : Nat) (d : Debounce) (nows : List Ticks) :
    d.reports <+: (nows.foldl (Debounce.irq hz) d).reports := by
  induction nows generalizing d with
  | nil => exact List.prefix_rfl
  | cons now nows ih => exact (d.record_extends now _).trans (ih (d.irq hz now))

/-! ## The driver -/

structure MyDevice where
  gpio : Int
  irq : Int
deriving DecidableEq

/-- What the calls of `my_probe` return. -/
structure ProbeEnv where
  allocated : Bool
  gpio : Int
  gpioIsValid : Bool
  gpioRequest : Int
  irq : Int
  irqRequest : Int

/-- The return value, and the device where the probe succeeds. -/
def myProbe (env : ProbeEnv) : Int × Option MyDevice :=
  if ¬ env.allocated then (-ENOMEM, none)
  else if ¬ env.gpioIsValid then (-EINVAL, none)
  else if env.gpioRequest ≠ 0 then (env.gpioRequest, none)
  else if env.irqRequest ≠ 0 then (env.irqRequest, none)
  else (0, some ⟨env.gpio, env.irq⟩)

/-- Where the handler of a device is. -/
inductive IrqPc where
  | idle
  | reporting (store : BitVec 64)
deriving DecidableEq

variable {D : Type*}

/-- `seen` is a record that no step reads. -/
structure State (D : Type*) where
  lastJiffies : BitVec 64
  bound : D → Option MyDevice
  handler : D → IrqPc
  seen : D → Debounce

/-- The module as loaded. -/
def State.init (D : Type*) : State D where
  lastJiffies := 0
  bound _ := none
  handler _ := .idle
  seen _ := ⟨0, []⟩

inductive Event (D : Type*) where
  | probe (d : D) (env : ProbeEnv)
  | remove (d : D)
  | irq (d : D) (now : Ticks)
  | store (d : D)

/-- What the event has for device `d`. -/
def Event.input [DecidableEq D] (d : D) : Event D → Option Ticks
  | irq d' now => if d' = d then some now else none
  | _ => none

/-- The interrupts of device `d`, in order. -/
def inputs [DecidableEq D] (d : D) (es : List (Event D)) : List Ticks :=
  es.filterMap (Event.input d)

variable [DecidableEq D]

def step (hz : Nat) (s : State D) : Event D → Option (State D)
  | .probe d env =>
    match s.bound d with
    | none => some { s with bound := Function.update s.bound d (myProbe env).2 }
    | some _ => none
  | .remove d =>
    -- the release of the interrupt line waits for the handler
    match s.bound d, s.handler d with
    | some _, .idle => some { s with bound := Function.update s.bound d none }
    | _, _ => none
  | .irq d now =>
    match s.bound d, s.handler d with
    | some _, .idle =>
      let reported := pressed hz now s.lastJiffies
      some { s with
        handler := Function.update s.handler d (if reported then .reporting now.store else .idle)
        seen := Function.update s.seen d ((s.seen d).record now reported) }
    | _, _ => none
  | .store d =>
    match s.handler d with
    | .reporting store =>
      some { s with lastJiffies := store, handler := Function.update s.handler d .idle }
    | .idle => none

/-- The driver with the devices `D`. -/
def driver (D : Type*) [DecidableEq D] (hz : Nat) : Machine (State D) (Event D) :=
  ⟨State.init D, step hz⟩

/-- An interrupt of `d` passes the test as it would against the last report
of `d`. -/
def Undisturbed (hz : Nat) (d : D) (s : State D) : Event D → Prop
  | .irq d' now => d' = d → pressed hz now s.lastJiffies = pressed hz now (s.seen d).last
  | _ => True

instance (hz : Nat) (d : D) (s : State D) : (e : Event D) → Decidable (Undisturbed hz d s e)
  | .irq d' now =>
    inferInstanceAs
      (Decidable (d' = d → pressed hz now s.lastJiffies = pressed hz now (s.seen d).last))
  | .probe .. | .remove _ | .store _ => isTrue trivial

/-- The times at which a press counts as a bounce of the report at `last`: half a
second, and again from 2^63 ticks behind it on, where the difference changes its
sign. -/
def Bounces (hz : Nat) (now : Ticks) (last : BitVec 64) : Prop :=
  (now.test - last).toNat ≤ hz / 2 ∨ hz / 2 + 0x8000000000000000 < (now.test - last).toNat

/-- An interrupt of `d` bounces off the last report of all devices exactly when it
bounces off the last report of `d`. -/
def OwnBounce (hz : Nat) (d : D) (s : State D) : Event D → Prop
  | .irq d' now => d' = d → (Bounces hz now s.lastJiffies ↔ Bounces hz now (s.seen d).last)
  | _ => True

/-! ## What each event does -/

variable {hz : Nat}

theorem step_spec {s s' : State D} {e : Event D} (h : step hz s e = some s') :
    match e with
    | .probe d env => s' = { s with bound := Function.update s.bound d (myProbe env).2 }
    | .remove d => s' = { s with bound := Function.update s.bound d none }
    | .irq d now =>
      s.handler d = .idle ∧ s' = { s with
        handler := Function.update s.handler d
          (if pressed hz now s.lastJiffies then .reporting now.store else .idle)
        seen := Function.update s.seen d ((s.seen d).record now (pressed hz now s.lastJiffies)) }
    | .store d =>
      ∃ store, s.handler d = .reporting store ∧
        s' = { s with lastJiffies := store, handler := Function.update s.handler d .idle } := by
  cases e with
  | probe d env | remove d =>
    simp only [step] at h
    split at h <;> cases h
    rfl
  | irq d now =>
    simp only [step] at h
    split at h <;> cases h
    rename_i hidle
    exact ⟨hidle, rfl⟩
  | store d =>
    simp only [step] at h
    split at h <;> cases h
    rename_i store hstore
    exact ⟨store, hstore, rfl⟩

/-- The half-second test, as a span of time. -/
theorem pressed_eq_false_iff (hhz : hz / 2 < 0x8000000000000000) (now : Ticks)
    (last : BitVec 64) : pressed hz now last = false ↔ Bounces hz now last := by
  have hdiff : last + BitVec.ofNat 64 (hz / 2) - now.test
      = BitVec.ofNat 64 (hz / 2) - (now.test - last) := by
    bv_omega
  have hlt : (now.test - last).toNat < 0x10000000000000000 := (now.test - last).isLt
  change (last + BitVec.ofNat 64 (hz / 2) - now.test).slt 0#64 = false ↔ _
  rw [hdiff, BitVec.slt_zero_eq_msb, BitVec.msb_eq_decide, decide_eq_false_iff_not,
    BitVec.toNat_sub, BitVec.toNat_ofNat, Bounces]
  omega

omit [DecidableEq D] in
theorem undisturbed_iff (hhz : hz / 2 < 0x8000000000000000) (d : D) (s : State D)
    (e : Event D) : Undisturbed hz d s e ↔ OwnBounce hz d s e := by
  cases e with
  | irq d' now =>
    refine imp_congr_right fun _ => ?_
    rw [← pressed_eq_false_iff hhz, ← pressed_eq_false_iff hhz]
    cases pressed hz now s.lastJiffies <;> cases pressed hz now (s.seen d).last <;> decide
  | probe | remove | store => exact Iff.rfl

theorem Event.input_eq_some {d : D} {e : Event D} {now : Ticks} (h : e.input d = some now) :
    e = .irq d now := by
  cases e with
  | irq d' now' =>
    obtain ⟨rfl, heq⟩ := Option.ite_none_right_eq_some.mp h
    cases heq
    rfl
  | probe | remove | store => cases h

/-- What is recorded of `d` at an interrupt of its own. -/
theorem seen_step_irq {s s' : State D} {d : D} {now : Ticks}
    (h : step hz s (.irq d now) = some s') :
    s'.seen d = (s.seen d).record now (pressed hz now s.lastJiffies) := by
  obtain ⟨-, rfl⟩ := step_spec h
  exact Function.update_self ..

/-- Any other event leaves the record of `d` alone, and cannot disturb it. -/
theorem seen_step_other {s s' : State D} {d : D} {e : Event D} (he : e.input d = none)
    (h : step hz s e = some s') : s'.seen d = s.seen d ∧ Undisturbed hz d s e := by
  have hspec := step_spec h
  cases e with
  | irq d' now =>
    have hne : d' ≠ d := by
      rintro rfl
      simp [Event.input] at he
    obtain ⟨-, rfl⟩ := hspec
    exact ⟨Function.update_of_ne (Ne.symm hne) .., fun heq => absurd heq hne⟩
  | probe d' env =>
    obtain rfl : s' = { s with bound := Function.update s.bound d' (myProbe env).2 } := hspec
    exact ⟨rfl, trivial⟩
  | remove d' =>
    obtain rfl : s' = { s with bound := Function.update s.bound d' none } := hspec
    exact ⟨rfl, trivial⟩
  | store d' =>
    obtain ⟨store, -, rfl⟩ := hspec
    exact ⟨rfl, trivial⟩

theorem reports_extend {s s' : State D} {es : List (Event D)} (d : D)
    (h : (driver D hz).exec s es = some s') : (s.seen d).reports <+: (s'.seen d).reports := by
  refine Machine.exec_inv (I := fun t => (s.seen d).reports <+: (t.seen d).reports) ?_
    List.prefix_rfl (Machine.along_true s es) h
  intro t e t' ht _ hstep
  cases he : e.input d with
  | none => rwa [(seen_step_other he hstep).1]
  | some now =>
    obtain rfl := Event.input_eq_some he
    rw [seen_step_irq hstep]
    exact ht.trans ((t.seen d).record_extends now _)

/-- **A device gets the reports of a single button** in exactly the runs that
do not disturb it. -/
theorem exec_seen {s s' : State D} {es : List (Event D)} (d : D)
    (h : (driver D hz).exec s es = some s') :
    (s'.seen d).reports = ((inputs d es).foldl (Debounce.irq hz) (s.seen d)).reports ↔
      (driver D hz).Along (Undisturbed hz d) s es := by
  induction es generalizing s with
  | nil =>
    cases h
    exact iff_of_true rfl trivial
  | cons e es ih =>
    obtain ⟨t, ht, hrest⟩ := Machine.exec_cons_iff.mp h
    have halong : (driver D hz).Along (Undisturbed hz d) s (e :: es) ↔
        Undisturbed hz d s e ∧ (driver D hz).Along (Undisturbed hz d) t es := by
      refine and_congr_right fun _ => ⟨fun hall => hall t ht, fun hrun t' ht' => ?_⟩
      cases ht.symm.trans ht'
      exact hrun
    rw [halong, ← ih hrest]
    cases he : e.input d with
    | none =>
      obtain ⟨hseen, hundisturbed⟩ := seen_step_other he ht
      rw [inputs, List.filterMap_cons_none he, hseen]
      exact (and_iff_right hundisturbed).symm
    | some now =>
      obtain rfl := Event.input_eq_some he
      have hseen := seen_step_irq ht
      rw [inputs, List.filterMap_cons_some he, List.foldl_cons, hseen]
      by_cases htest : pressed hz now s.lastJiffies = pressed hz now (s.seen d).last
      · have hundisturbed : Undisturbed hz d s (.irq d now) := fun _ => htest
        rw [htest]
        exact (and_iff_right hundisturbed).symm
      · -- this interrupt is answered differently, and the answers stay
        refine iff_of_false ?_ fun hrun => htest (hrun.1 rfl)
        intro heq
        have hactual := reports_extend d hrest
        have hsingle := Debounce.foldl_extends hz ((s.seen d).irq hz now)
          (es.filterMap (Event.input d))
        rw [hseen, heq] at hactual
        have hsame := (List.prefix_of_prefix_length_le hactual hsingle
          (by simp [Debounce.record, Debounce.irq])).eq_of_length
          (by simp [Debounce.record, Debounce.irq])
        simp only [Debounce.record, Debounce.irq, List.append_cancel_left_eq,
          List.cons.injEq, and_true] at hsame
        exact htest hsame

/-! ## A device on its own -/

/-- Nobody but `d` is interrupted. -/
def Only (d : D) : Event D → Prop
  | .irq d' _ => d' = d
  | _ => True

/-- `last_jiffies` is the last report of `d`, up to an update that `d` is about
to make. -/
structure Alone (d : D) (s : State D) : Prop where
  others : ∀ d', d' ≠ d → s.handler d' = .idle
  idle : s.handler d = .idle → (s.seen d).last = s.lastJiffies
  reporting : ∀ store, s.handler d = .reporting store → (s.seen d).last = store

omit [DecidableEq D] in
theorem alone_init (d : D) : Alone d (State.init D) := ⟨fun _ _ => rfl, fun _ => rfl, nofun⟩

theorem Alone.undisturbed {s s' : State D} {d : D} {e : Event D} (h : Alone d s)
    (hs : step hz s e = some s') : Undisturbed hz d s e := by
  have hspec := step_spec hs
  cases e with
  | irq d' now =>
    obtain ⟨hidle, -⟩ := hspec
    rintro rfl
    rw [h.idle hidle]
  | probe | remove | store => trivial

theorem Alone.next {s s' : State D} {d : D} {e : Event D} (h : Alone d s) (he : Only d e)
    (hs : step hz s e = some s') : Alone d s' := by
  have hspec := step_spec hs
  cases e with
  | irq d' now =>
    obtain rfl : d' = d := he
    obtain ⟨hidle, rfl⟩ := hspec
    refine ⟨fun d hd => ?_, fun hreported => ?_, fun store hstore => ?_⟩
    · exact (Function.update_of_ne hd ..).trans (h.others d hd)
    · simp only [Function.update_self] at hreported ⊢
      cases htest : pressed hz now s.lastJiffies with
      | true => simp [htest] at hreported
      | false => exact h.idle hidle
    · simp only [Function.update_self] at hstore ⊢
      cases htest : pressed hz now s.lastJiffies with
      | true => simpa [htest, Debounce.record] using hstore
      | false => simp [htest] at hstore
  | probe d' env =>
    obtain rfl : s' = { s with bound := Function.update s.bound d' (myProbe env).2 } := hspec
    exact ⟨h.others, h.idle, h.reporting⟩
  | remove d' =>
    obtain rfl : s' = { s with bound := Function.update s.bound d' none } := hspec
    exact ⟨h.others, h.idle, h.reporting⟩
  | store d' =>
    obtain ⟨store, hstore, rfl⟩ := hspec
    have hd : d' = d := by
      by_contra hne
      cases (h.others d' hne).symm.trans hstore
    subst hd
    refine ⟨fun d hd => ?_, fun _ => h.reporting store hstore, fun store' hstore' => ?_⟩
    · exact (Function.update_of_ne hd ..).trans (h.others d hd)
    · simp at hstore'

theorem along_of_only (d : D) {s s' : State D} {es : List (Event D)} (hs : Alone d s)
    (hes : ∀ e ∈ es, Only d e) (h : (driver D hz).exec s es = some s') :
    (driver D hz).Along (Undisturbed hz d) s es := by
  exact Machine.along_of_inv (I := Alone d) (P := fun _ => Only d)
    (fun _ _ _ hI _ hstep => hI.undisturbed hstep) (fun _ _ _ hI he hstep => hI.next he hstep) hs
    (Machine.along_of_forall s hes) h

/-- **Noninterference, and its exact condition.** Two runs with the same
interrupts of `d` report the same of them if neither disturbs `d`; and a run
that is compared with one in which nobody else is interrupted reports the same
only if it does not disturb `d`. In ticks: no interrupt of `d` comes within half
a second of the last report of all devices but not of its own, or the other way
round. -/
theorem same_presses_iff (hz : Nat) (d : D) {es es' : List (Event D)} {s s' : State D}
    (h : (driver D hz).Reaches es s) (h' : (driver D hz).Reaches es' s')
    (hd : inputs d es = inputs d es') :
    ((driver D hz).Along (Undisturbed hz d) (State.init D) es →
        (driver D hz).Along (Undisturbed hz d) (State.init D) es' →
        (s.seen d).reports = (s'.seen d).reports) ∧
      ((∀ e ∈ es', Only d e) →
        ((s.seen d).reports = (s'.seen d).reports ↔
          (driver D hz).Along (Undisturbed hz d) (State.init D) es)) ∧
      (hz / 2 < 0x8000000000000000 →
        ((driver D hz).Along (Undisturbed hz d) (State.init D) es ↔
          (driver D hz).Along (OwnBounce hz d) (State.init D) es)) := by
  have hseen := exec_seen d h
  have hseen' := exec_seen d h'
  rw [← hd] at hseen'
  refine ⟨fun hes hes' => (hseen.mpr hes).trans (hseen'.mpr hes').symm, fun honly => ?_,
    fun hhz => ?_⟩
  · have hsingle := hseen'.mpr (along_of_only d (alone_init d) honly h')
    rw [hsingle]
    exact hseen
  · have hticks : Undisturbed hz d = OwnBounce hz d :=
      funext₂ fun t e => propext (undisturbed_iff hhz d t e)
    rw [hticks]

/-- Every call of the probe succeeds. -/
def probeOk : ProbeEnv := ⟨true, 656, true, 0, 88, 0⟩

/-- Button `true` is pressed and bounces, with a tick rate of 250. -/
def pressAndBounce : List (Event Bool) :=
  [.probe true probeOk, .irq true ⟨4295000500, 4295000500⟩, .store true,
    .irq true ⟨4295000503, 4295000503⟩]

/-- Button `false` is pressed two seconds before. -/
def otherBefore : List (Event Bool) :=
  [.probe false probeOk, .irq false ⟨4295000000, 4295000000⟩, .store false] ++ pressAndBounce

/-- Button `false` is pressed 40 ms before. -/
def otherJustBefore : List (Event Bool) :=
  [.probe false probeOk, .irq false ⟨4295000490, 4295000490⟩, .store false] ++ pressAndBounce.take 2

theorem pressAndBounce_run :
    ((driver Bool 250).exec (State.init Bool) pressAndBounce).isSome := by decide

theorem otherBefore_run : ((driver Bool 250).exec (State.init Bool) otherBefore).isSome := by decide

theorem same_presses_iff_otherBefore :
    ∃ s s', (driver Bool 250).Reaches otherBefore s ∧
      (driver Bool 250).Reaches pressAndBounce s' ∧
      (s.seen true).reports = (s'.seen true).reports ∧
      (driver Bool 250).Along (OwnBounce 250 true) (State.init Bool) otherBefore := by
  have hother := (Option.some_get otherBefore_run).symm
  have hpress := (Option.some_get pressAndBounce_run).symm
  obtain ⟨hsame, -, hticks⟩ := same_presses_iff 250 true hother hpress (by decide)
  exact ⟨_, _, hother, hpress, hsame (by decide) (by decide),
    (hticks (by decide)).mp (by decide)⟩

theorem otherJustBefore_run :
    ((driver Bool 250).exec (State.init Bool) otherJustBefore).isSome := by decide

theorem press_run :
    ((driver Bool 250).exec (State.init Bool) (pressAndBounce.take 2)).isSome := by decide

/-- The press of `true` is taken for a bounce of `false`. -/
theorem press_lost_to_other :
    ¬ ∀ (d : Bool) es es' s s', (driver Bool 250).Reaches es s → (driver Bool 250).Reaches es' s' →
      inputs d es = inputs d es' → (s.seen d).reports = (s'.seen d).reports := by
  intro h
  have hsame := h true _ _ _ _ (Option.some_get otherJustBefore_run).symm
    (Option.some_get press_run).symm (by decide)
  revert hsame
  decide

end KernelSpace.PlatformDriver
