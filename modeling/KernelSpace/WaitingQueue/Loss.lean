import KernelSpace.WaitingQueue.Driver

/-!
# WaitingQueue — when a message is lost

The flag should say that the last message has not been read yet (`NoLoss`).
`my_read` clears it after the copy, so the flag of a message that came in
between is cleared with it. The condition on the clearing step is `Timely`:
the message that the flag stands for (`State.pending`) has been copied out.
(`thread_fn` of 18 clears its flag before it does the work.)

`Announced` is the invariant of the runs that meet it. Conversely one
untimely step is enough when there is one reader: the state after it is
`Doomed`, nobody reads before the next write, and when the write that set the
flag returns the message is lost.
-/

namespace KernelSpace.WaitingQueue

open KernelSpace.Kernel KernelSpace.Lib

variable {R : Type*}

/-- The message that the flag stands for: of the write that set it last,
unless the next one is about to set it. -/
def State.pending (s : State R) : Option Nat :=
  match s.writer with
  | .idle => s.completed
  | .copied _ _ => none
  | .flagged _ msg => some msg

/-- With no write in progress, a last message that no read has copied out is
flagged. -/
def NoLoss (s : State R) : Prop :=
  s.writer = .idle → ∀ msg, s.completed = some msg → msg ∉ s.copiedOut → s.dataAvailable ≠ 0

/-- A read clears the flag of a message that has been copied out. -/
def Timely (s : State R) : Event R → Prop
  | .clearFlag _ => ∀ msg ∈ s.pending, msg ∈ s.copiedOut
  | _ => True

instance (s : State R) : (e : Event R) → Decidable (Timely s e)
  | .clearFlag _ => inferInstanceAs (Decidable (∀ msg ∈ s.pending, msg ∈ s.copiedOut))
  | .write _ | .writeFault _ _ | .setFlag | .wakeUp | .read _ _ | .wait _ | .signal _
  | .interrupted _ | .copyOut _ | .readFault _ => isTrue trivial

/-- A pending message that no read has copied out is flagged. -/
def Announced (s : State R) : Prop :=
  ∀ msg, s.pending = some msg → msg ∉ s.copiedOut → s.dataAvailable ≠ 0

/-- The pending message is neither copied out nor flagged, and no reader is
past its wait. -/
structure Doomed (s : State R) : Prop where
  unread : ∃ msg, s.pending = some msg ∧ msg ∉ s.copiedOut
  cleared : s.dataAvailable = 0
  blocked : ∀ r len, s.reader r ≠ .waiting len (.done 0)

theorem announced_init : Announced (State.init R) := nofun

theorem Announced.noLoss {s : State R} (h : Announced s) : NoLoss s := by
  intro hw msg hmsg
  exact h msg (by rw [State.pending, hw, hmsg])

theorem Doomed.not_noLoss {s : State R} (h : Doomed s) (hw : s.writer = .idle) : ¬ NoLoss s := by
  intro hgood
  obtain ⟨msg, hpending, hunread⟩ := h.unread
  rw [State.pending, hw] at hpending
  exact hgood hw msg hpending hunread h.cleared

theorem Doomed.wakeUp {s : State R} (h : Doomed s) {len msg : Nat}
    (hw : s.writer = .flagged len msg) :
    Doomed { s with
      reader := fun r => (s.reader r).wake, writer := .idle, completed := some msg } := by
  refine ⟨?_, h.cleared, fun r len hr => ?_⟩
  · obtain ⟨msg', hmsg', hunread⟩ := h.unread
    rw [State.pending, hw] at hmsg'
    exact ⟨msg', hmsg', hunread⟩
  · cases hpc : s.reader r with
    | waiting len' w =>
      have hwake : ReaderPc.waiting len' w.wake = .waiting len (.done 0) := by
        simpa [hpc, ReaderPc.wake] using hr
      injection hwake with _ hdone
      rw [Wait.wake_eq_done_iff] at hdone
      exact h.blocked r len' (by rw [hpc, hdone])
    | idle | copied => simp [hpc, ReaderPc.wake] at hr

variable [DecidableEq R]

/-! ## Timely runs -/

theorem Announced.next {s s' : State R} {e : Event R} (h : Announced s) (he : Timely s e)
    (hs : step s e = some s') : Announced s' := by
  cases e with
  | write buf =>
    obtain ⟨-, rfl⟩ := step_write hs
    exact nofun
  | writeFault buf k =>
    obtain ⟨-, rfl⟩ := step_writeFault hs
    exact h
  | setFlag =>
    obtain ⟨len, msg, -, rfl⟩ := step_setFlag hs
    intro msg _ _
    exact (by decide : (1 : Int) ≠ 0)
  | wakeUp =>
    obtain ⟨len, msg, hw, rfl⟩ := step_wakeUp hs
    intro msg' hmsg' hunread
    refine h msg' ?_ hunread
    rw [State.pending, hw]
    exact hmsg'
  | read r len =>
    obtain ⟨-, rfl⟩ := step_read hs
    exact h
  | wait r =>
    obtain ⟨len, w, w', -, -, rfl⟩ := step_wait hs
    exact h
  | signal r =>
    obtain ⟨len, w, w', -, -, rfl⟩ := step_signal hs
    exact h
  | interrupted r =>
    obtain ⟨len, ret, -, -, rfl⟩ := step_interrupted hs
    exact h
  | copyOut r =>
    obtain ⟨len, -, rfl⟩ := step_copyOut hs
    intro msg hmsg hunread
    exact h msg hmsg fun hold => hunread (List.mem_append_left _ hold)
  | readFault r =>
    obtain ⟨len, -, rfl⟩ := step_readFault hs
    exact h
  | clearFlag r =>
    obtain ⟨data, -, rfl⟩ := step_clearFlag hs
    intro msg hmsg hunread
    exact absurd (he msg hmsg) hunread

/-! ## After an untimely step -/

/-- With one reader, the one that clears the flag is the only one. -/
theorem doomed_of_untimely {s s' : State Unit} {e : Event Unit} (hs : step s e = some s')
    (he : ¬ Timely s e) : Doomed s' := by
  cases e with
  | clearFlag r =>
    obtain ⟨data, -, rfl⟩ := step_clearFlag hs
    simp only [Timely, not_forall] at he
    obtain ⟨msg, hmsg, hunread⟩ := he
    refine ⟨⟨msg, hmsg, hunread⟩, rfl, fun u len hu => ?_⟩
    have hidle : Function.update s.reader r .idle u = .idle := Function.update_self ..
    cases hidle.symm.trans hu
  | write | writeFault | setFlag | wakeUp | read | wait | signal | interrupted | copyOut
  | readFault => exact absurd trivial he

/-- A reader moves, and not past its wait. -/
theorem Doomed.setReader {s : State R} (h : Doomed s) (r : R) {pc : ReaderPc}
    (hpc : ∀ len, pc ≠ .waiting len (.done 0)) : Doomed (s.setReader r pc) := by
  refine ⟨h.unread, h.cleared, fun u len hu => ?_⟩
  by_cases hur : u = r
  · subst hur
    exact hpc len ((Function.update_self ..).symm.trans hu)
  · exact h.blocked u len ((Function.update_of_ne hur ..).symm.trans hu)

theorem Doomed.next {s s' : State R} {e : Event R} (h : Doomed s) (hgood : NoLoss s)
    (hs : step s e = some s') : Doomed s' := by
  -- the message is not lost yet, so the write that set its flag has not returned
  have hbusy : s.writer ≠ .idle := fun hw => h.not_noLoss hw hgood
  cases e with
  | write buf => exact absurd (step_write hs).1 hbusy
  | writeFault buf k => exact absurd (step_writeFault hs).1 hbusy
  | setFlag =>
    obtain ⟨len, msg, hw, -⟩ := step_setFlag hs
    obtain ⟨msg', hpending, -⟩ := h.unread
    rw [State.pending, hw] at hpending
    cases hpending
  | wakeUp =>
    obtain ⟨len, msg, hw, rfl⟩ := step_wakeUp hs
    exact h.wakeUp hw
  | read r len =>
    obtain ⟨-, rfl⟩ := step_read hs
    exact h.setReader r nofun
  | wait r =>
    obtain ⟨len, w, w', -, hw, rfl⟩ := step_wait hs
    refine h.setReader r fun len' hdone => ?_
    injection hdone with _ hdone
    subst hdone
    have havail : s.dataAvailable ≠ 0 := of_decide_eq_true (Wait.cond_of_step_done hw).1
    exact havail h.cleared
  | signal r =>
    obtain ⟨len, w, w', -, hw, rfl⟩ := step_signal hs
    refine h.setReader r fun len' hdone => ?_
    injection hdone with _ hdone
    cases w <;> cases hw
    cases hdone
  | interrupted r =>
    obtain ⟨len, ret, -, -, rfl⟩ := step_interrupted hs
    exact h.setReader r nofun
  | copyOut r =>
    obtain ⟨len, hr, -⟩ := step_copyOut hs
    exact absurd hr (h.blocked r len)
  | readFault r =>
    obtain ⟨len, hr, -⟩ := step_readFault hs
    exact absurd hr (h.blocked r len)
  | clearFlag r =>
    obtain ⟨data, -, rfl⟩ := step_clearFlag hs
    have hidle : Doomed (s.setReader r .idle) := h.setReader r nofun
    exact ⟨hidle.unread, rfl, hidle.blocked⟩

/-- **One reader loses no message in a timely run**, and a run that ends with
no write in progress and in which no message was lost is timely. -/
theorem no_loss_iff {es : List (Event Unit)} {s : State Unit} (h : (driver Unit).Reaches es s) :
    ((driver Unit).Along Timely (State.init Unit) es →
        (driver Unit).Always NoLoss (State.init Unit) es) ∧
      (s.writer = .idle → (driver Unit).Always NoLoss (State.init Unit) es →
        (driver Unit).Along Timely (State.init Unit) es) :=
  ⟨Machine.always_of_inv (fun _ => Announced.noLoss) (fun _ _ _ => Announced.next) announced_init,
    fun hw => Machine.along_of_doomed (I := Announced) (fun _ _ _ => Announced.next)
      (fun _ _ _ _ => doomed_of_untimely) (fun _ _ _ => Doomed.next)
      (fun hD => hD.not_noLoss hw) announced_init h⟩

/-- A write, a read up to its copy, a second write, the rest of the read. -/
def lateClear : List (Event Unit) :=
  [.write [65], .setFlag, .wakeUp, .read () 10, .wait (), .copyOut (),
    .write [66], .setFlag, .wakeUp, .clearFlag ()]

theorem lateClear_run : ((driver Unit).exec (State.init Unit) lateClear).isSome := by decide

theorem no_loss_iff_second_read :
    (driver Unit).Always NoLoss (State.init Unit)
        [.write [65], .setFlag, .wakeUp, .read () 10, .wait (), .copyOut (), .clearFlag ()] ∧
      ¬ (driver Unit).Always NoLoss (State.init Unit) lateClear := by
  have hrun : ((driver Unit).exec (State.init Unit)
      [.write [65], .setFlag, .wakeUp, .read () 10, .wait (), .copyOut (), .clearFlag ()]).isSome := by
    decide
  refine ⟨(no_loss_iff (Option.some_get hrun).symm).1 (by decide), fun hgood => ?_⟩
  have htimely := (no_loss_iff (Option.some_get lateClear_run).symm).2 (by decide) hgood
  revert htimely
  decide

theorem late_clear_loses_message : ¬ ∀ es s, (driver Unit).Reaches es s → NoLoss s := by
  intro h
  have hgood := h lateClear _ (Option.some_get lateClear_run).symm
  exact absurd rfl (hgood rfl 1 rfl (by decide))

end KernelSpace.WaitingQueue
