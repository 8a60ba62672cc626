import KernelSpace.Lib.Holdings
import KernelSpace.Lib.Machine

/-!
# GpioIrq — init and exit among other modules

`gpio_irq_drv.c` (14) names two things by a number: the GPIO line `gpio_num`,
which is a module parameter that root may write to at any time, and the major
number 240, which it asks for without looking at the answer. `gpio_exit` gives
both back by these numbers.

Around it are other modules. `mychar` (3) and the drivers with
`alloc_chrdev_region` are given a free major number by the kernel, which may be 240,
and give back the number that they remember; other consumers have lines of their
own. An entry of the table of character devices goes when its major number and its
number of minors are named: `register_chrdev` takes all 256.

The tables say of every module what it has exactly as long as `gpio_exit` finds
`gpio_num` as `gpio_init` left it, and no other module with 256 minors at 240
(`gpio_numbers`).
-/

namespace KernelSpace.GpioIrq.Numbers

open KernelSpace.Lib

/-- The hardcoded major number. -/
def gpioMajor : Nat := 240

/-- The minors that `register_chrdev` takes. -/
def allMinors : Nat := 256

/-- The tables, with the driver as the owner `none` and the other modules `M`. -/
structure State (M : Type*) where
  chrdevs : Holdings (Option M) Nat
  lines : Holdings (Option M) Nat
  gpioNum : Nat
  loaded : Bool

inductive Event (M : Type*) where
  /-- A module is given a major number. -/
  | load (m : M) (major : Nat)
  | unload (m : M)
  /-- A module takes a GPIO line. -/
  | request (m : M) (line : Nat)
  | free (m : M)
  /-- A write to the parameter. -/
  | setGpioNum (n : Nat)
  /-- Whether `request_irq` succeeds, and whether there is memory for the
  character device. -/
  | gpioInit (irq chrdev : Bool)
  | gpioExit

variable {M : Type*}

/-- The number of minors with which an owner is in the table. -/
def minorct (minors : M → Nat) : Option M → Nat
  | none => allMinors
  | some m => minors m

variable [DecidableEq M] (minors : M → Nat)

/-- `unregister_chrdev_region` from minor 0 on. -/
def unregister (chrdevs : Holdings (Option M) Nat) (o : Option M) (major count : Nat) :
    Holdings (Option M) Nat :=
  chrdevs.release o major fun o' => minorct minors o' == count

def step (s : State M) : Event M → Option (State M)
  | .load m major =>
    if (s.chrdevs.held (some m)).isNone && (s.chrdevs.entry major).isNone then
      some { s with chrdevs := s.chrdevs.take (some m) major }
    else none
  | .unload m =>
    match s.chrdevs.held (some m) with
    | some major => some { s with chrdevs := unregister minors s.chrdevs (some m) major (minors m) }
    | none => none
  | .request m line =>
    if (s.lines.held (some m)).isNone && (s.lines.entry line).isNone then
      some { s with lines := s.lines.take (some m) line }
    else none
  | .free m =>
    match s.lines.held (some m) with
    | some line => some { s with lines := s.lines.release (some m) line fun _ => true }
    | none => none
  | .setGpioNum n => some { s with gpioNum := n }
  | .gpioInit irq chrdev =>
    if s.loaded then none
    else if (s.lines.entry s.gpioNum).isNone && irq then
      some { s with
        chrdevs :=
          if (s.chrdevs.entry gpioMajor).isNone && chrdev then s.chrdevs.take none gpioMajor
          else s.chrdevs
        lines := s.lines.take none s.gpioNum
        loaded := true }
    else some s
  | .gpioExit =>
    if s.loaded then
      some { s with
        chrdevs := unregister minors s.chrdevs none gpioMajor allMinors
        lines := s.lines.release none s.gpioNum fun _ => true
        loaded := false }
    else none

def machine (gpioNum : Nat) : Machine (State M) (Event M) :=
  ⟨⟨.empty, .empty, gpioNum, false⟩, step minors⟩

/-- The tables say what every module has. -/
def Recorded (s : State M) : Prop := s.chrdevs.Faithful ∧ s.lines.Faithful

/-- The driver gives back what it has, and nobody else's. -/
def Harmless (s : State M) (e : Event M) : Prop :=
  e = .gpioExit → s.lines.held none = some s.gpioNum ∧
    ∀ m, s.chrdevs.entry gpioMajor = some (some m) → minors m ≠ allMinors

/-- The parameter is left alone while the driver is loaded, and no other module
has 240 with all minors. -/
def Careful (s : State M) : Event M → Prop
  | .setGpioNum _ => s.loaded = false
  | .load m major => minors m = allMinors → major ≠ gpioMajor
  | _ => True

/-! ## The invariant -/

structure Inv (s : State M) : Prop where
  recorded : Recorded s
  major : ∀ k, s.chrdevs.held none = some k → k = gpioMajor
  absent : s.loaded = false → s.chrdevs.held none = none ∧ s.lines.held none = none
  loaded : s.loaded = true → ∃ line, s.lines.held none = some line

variable {minors} {s s' : State M} {e : Event M}

theorem inv_init (gpioNum : Nat) : Inv (machine minors gpioNum).init where
  recorded := ⟨Holdings.faithful_empty, Holdings.faithful_empty⟩
  major := nofun
  absent := fun _ => ⟨rfl, rfl⟩
  loaded := nofun

/-- What the others remember is not the driver's. -/
theorem take_held_none (h : Holdings (Option M) Nat) (m : M) (k : Nat) :
    (h.take (some m) k).held none = h.held none := by simp [Holdings.take]

theorem release_held_none (h : Holdings (Option M) Nat) (m : M) (k : Nat) (fits : Option M → Bool) :
    (h.release (some m) k fits).held none = h.held none := by simp [Holdings.release]

/-- A module that gives back the number it remembers. -/
theorem faithful_release_own {h : Holdings (Option M) Nat} (hf : h.Faithful) {o : Option M}
    {k : Nat} (hheld : h.held o = some k) {fits : Option M → Bool} (hfits : fits o = true) :
    (h.release o k fits).Faithful := by
  refine hf.release_iff.mpr ⟨fun k' hk' => ⟨?_, hfits⟩, fun o' ho' _ => ?_⟩
  · exact Option.some.inj (hk'.symm.trans hheld)
  · exact Option.some.inj (ho'.symm.trans ((hf o k).mp hheld))

/-- **The exit function**: the tables stay right exactly when it is harmless. -/
theorem recorded_exit_iff (h : Inv s) (hloaded : s.loaded = true)
    (hs : step minors s .gpioExit = some s') : Recorded s' ↔ Harmless minors s .gpioExit := by
  simp only [step, hloaded, if_true, Option.some.injEq] at hs
  subst hs
  obtain ⟨hchrdevs, hlines⟩ := h.recorded
  obtain ⟨line, hline⟩ := h.loaded hloaded
  have hlines' : (s.lines.release none s.gpioNum fun _ => true).Faithful ↔
      s.lines.held none = some s.gpioNum := by
    rw [hlines.release_iff]
    constructor
    · rintro ⟨hown, -⟩
      rw [hline, (hown line hline).1]
    · intro hheld
      refine ⟨fun k' hk' => ⟨Option.some.inj (hk'.symm.trans hheld), rfl⟩, fun o' ho' _ => ?_⟩
      exact Option.some.inj (ho'.symm.trans ((hlines none s.gpioNum).mp hheld))
  have hchrdevs' : (unregister minors s.chrdevs none gpioMajor allMinors).Faithful ↔
      ∀ m, s.chrdevs.entry gpioMajor = some (some m) → minors m ≠ allMinors := by
    rw [unregister, hchrdevs.release_iff]
    constructor
    · rintro ⟨-, hother⟩ m hm hcount
      cases hother (some m) hm (by simp [minorct, hcount])
    · intro hothers
      refine ⟨fun k' hk' => ⟨h.major k' hk', by simp [minorct]⟩, fun o' ho' hcount => ?_⟩
      cases o' with
      | none => rfl
      | some m => exact absurd (by simpa [minorct] using hcount) (hothers m ho')
  exact (and_congr hchrdevs' hlines').trans (and_comm.trans (by simp [Harmless]))

theorem inv_step (h : Inv s) (he : Harmless minors s e) (hs : step minors s e = some s') :
    Inv s' := by
  obtain ⟨⟨hchrdevs, hlines⟩, hmajor, habsent, hloaded⟩ := id h
  cases e with
  | load m major =>
    simp only [step] at hs
    split at hs <;> cases hs
    rename_i hfree
    simp only [Bool.and_eq_true, Option.isNone_iff_eq_none] at hfree
    refine ⟨⟨hchrdevs.take hfree.1 hfree.2, hlines⟩, ?_, ?_, hloaded⟩
    · rw [take_held_none]
      exact hmajor
    · rw [take_held_none]
      exact habsent
  | unload m =>
    simp only [step] at hs
    split at hs <;> cases hs
    rename_i major hheld
    refine ⟨⟨faithful_release_own hchrdevs hheld (by simp [minorct]), hlines⟩, ?_, ?_, hloaded⟩
    · rw [unregister, release_held_none]
      exact hmajor
    · rw [unregister, release_held_none]
      exact habsent
  | request m line =>
    simp only [step] at hs
    split at hs <;> cases hs
    rename_i hfree
    simp only [Bool.and_eq_true, Option.isNone_iff_eq_none] at hfree
    refine ⟨⟨hchrdevs, hlines.take hfree.1 hfree.2⟩, hmajor, ?_, ?_⟩
    · rw [take_held_none]
      exact habsent
    · rw [take_held_none]
      exact hloaded
  | free m =>
    simp only [step] at hs
    split at hs <;> cases hs
    rename_i line hheld
    refine ⟨⟨hchrdevs, faithful_release_own hlines hheld rfl⟩, hmajor, ?_, ?_⟩
    · rw [release_held_none]
      exact habsent
    · rw [release_held_none]
      exact hloaded
  | setGpioNum n =>
    cases hs
    exact ⟨⟨hchrdevs, hlines⟩, hmajor, habsent, hloaded⟩
  | gpioInit irq chrdev =>
    simp only [step] at hs
    split at hs
    · cases hs
    rename_i hoff
    obtain ⟨hnumber, hline⟩ := habsent (by simpa using hoff)
    split at hs <;> cases hs
    · rename_i hfree
      simp only [Bool.and_eq_true, Option.isNone_iff_eq_none] at hfree
      refine ⟨⟨?_, hlines.take hline hfree.1⟩, ?_, fun hoff' => Bool.noConfusion hoff',
        fun _ => ⟨s.gpioNum, by simp [Holdings.take]⟩⟩
      · split
        · rename_i hchrdev
          simp only [Bool.and_eq_true, Option.isNone_iff_eq_none] at hchrdev
          exact hchrdevs.take hnumber hchrdev.1
        · exact hchrdevs
      · split
        · simp [Holdings.take, eq_comm]
        · exact hmajor
    · exact h
  | gpioExit =>
    have hon : s.loaded = true := by
      by_contra hoff
      simp [step, hoff] at hs
    refine ⟨(recorded_exit_iff h hon hs).mpr he, ?_, ?_, ?_⟩
    all_goals
      simp only [step, hon, if_true, Option.some.injEq] at hs
      subst hs
    · simp [unregister, Holdings.release]
    · simp [unregister, Holdings.release]
    · exact fun hon' => Bool.noConfusion hon'

/-- What careful runs keep in addition. -/
structure CarefulInv (minors : M → Nat) (s : State M) : Prop where
  inv : Inv s
  line : s.loaded = true → s.lines.held none = some s.gpioNum
  others : ∀ m, s.chrdevs.entry gpioMajor = some (some m) → minors m ≠ allMinors

theorem CarefulInv.harmless (h : CarefulInv minors s) (hs : step minors s e = some s') :
    Harmless minors s e := by
  rintro rfl
  refine ⟨h.line ?_, h.others⟩
  by_contra hoff
  simp [step, hoff] at hs

theorem line_step (h : CarefulInv minors s) (he : Careful minors s e)
    (hs : step minors s e = some s') (hloaded : s'.loaded = true) :
    s'.lines.held none = some s'.gpioNum := by
  cases e with
  | load m major =>
    simp only [step] at hs
    split at hs <;> cases hs
    exact h.line hloaded
  | unload m =>
    simp only [step] at hs
    split at hs <;> cases hs
    exact h.line hloaded
  | request m line =>
    simp only [step] at hs
    split at hs <;> cases hs
    exact (take_held_none ..).trans (h.line hloaded)
  | free m =>
    simp only [step] at hs
    split at hs <;> cases hs
    exact (release_held_none ..).trans (h.line hloaded)
  | setGpioNum n =>
    cases hs
    have hoff : s.loaded = false := he
    cases hoff.symm.trans hloaded
  | gpioInit irq chrdev =>
    simp only [step] at hs
    split at hs
    · cases hs
    split at hs <;> cases hs
    · simp [Holdings.take]
    · exact h.line hloaded
  | gpioExit =>
    simp only [step] at hs
    split at hs <;> cases hs
    cases hloaded

theorem others_step (h : CarefulInv minors s) (he : Careful minors s e)
    (hs : step minors s e = some s') {m : M}
    (hm : s'.chrdevs.entry gpioMajor = some (some m)) : minors m ≠ allMinors := by
  cases e with
  | load m' major =>
    simp only [step] at hs
    split at hs <;> cases hs
    by_cases hmajor : major = gpioMajor
    · subst hmajor
      obtain rfl : m' = m := by simpa [Holdings.take] using hm
      exact fun hcount => he hcount rfl
    · exact h.others m (by simpa [Holdings.take, Ne.symm hmajor] using hm)
  | unload m' =>
    simp only [step] at hs
    split at hs <;> cases hs
    simp only [unregister, Holdings.release_entry] at hm
    split at hm
    · cases hm
    · exact h.others m hm
  | request m' line =>
    simp only [step] at hs
    split at hs <;> cases hs
    exact h.others m hm
  | free m' =>
    simp only [step] at hs
    split at hs <;> cases hs
    exact h.others m hm
  | setGpioNum n =>
    cases hs
    exact h.others m hm
  | gpioInit irq chrdev =>
    simp only [step] at hs
    split at hs
    · cases hs
    split at hs <;> cases hs
    · simp only at hm
      split at hm
      · simp [Holdings.take] at hm
      · exact h.others m hm
    · exact h.others m hm
  | gpioExit =>
    simp only [step] at hs
    split at hs <;> cases hs
    simp only [unregister, Holdings.release_entry] at hm
    split at hm
    · cases hm
    · exact h.others m hm

theorem carefulInv_step (h : CarefulInv minors s) (he : Careful minors s e)
    (hs : step minors s e = some s') : CarefulInv minors s' :=
  ⟨inv_step h.inv (h.harmless hs) hs, line_step h he hs, fun _ => others_step h he hs⟩

/-- The kernel gives 240 to a `mychar`, so the driver does not get it, and takes it
away when it is unloaded. -/
def clash : List (Event Bool) := [.load true 240, .gpioInit true true, .gpioExit]

/-- The first `mychar` is unloaded later, and its `unregister_chrdev` is of the number
that a second one has been given in the meantime. -/
example :
    ∃ s, (machine (fun _ => allMinors) 555).Reaches
        (clash ++ [.load false 240, .unload true]) s ∧
      s.chrdevs.held (some false) = some 240 ∧ s.chrdevs.entry 240 = none :=
  ⟨_, rfl, rfl, rfl⟩

end KernelSpace.GpioIrq.Numbers
