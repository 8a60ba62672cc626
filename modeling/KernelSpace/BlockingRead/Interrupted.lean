import Mathlib.Logic.Function.Basic
import KernelSpace.BlockingRead.Driver
import KernelSpace.Kernel.WaitQueue
import KernelSpace.Lib.Machine

/-!
# BlockingRead — reads that a signal ends (10)

The blocking read driver with one reader, any writers `W`, signals and user
copies that fault. A step is what one of them does between two points where
another may come in:

* `write` — `my_write` up to the store of the NUL; `setFlag`; `wakeUp`.
  `writeFault` is a `copy_from_user` that fails behind `k` bytes;
* `read`, `wait`, `signal` — `my_read` inside `wait_event_interruptible`, whose
  return value it does not look at;
* `copyOut` — `strlen`, `min` and `copy_to_user`; `readFault` is one that fails;
* `clearFlag` — `data_available = 0` and the return.

`outcomes` is a record of the reads that have returned, and `unread` counts the
sets of the flag since a read has cleared it; no step reads them. A return is
`Proper` when a positive count answers an event that no earlier read has taken,
and a read that was interrupted or could not copy returns an error and leaves
the flag alone.
-/

namespace KernelSpace.BlockingRead

open KernelSpace.Kernel KernelSpace.Lib

/-! ## What a read may come to -/

/-- A return of a read: its value; that a signal ended its wait; that its copy
failed; that there was an event that no earlier read had cleared; that it left
the flag as it was. -/
structure Outcome where
  ret : Int
  interrupted : Bool
  faulted : Bool
  event : Bool
  kept : Bool
deriving DecidableEq

def Proper (o : Outcome) : Prop :=
  (0 < o.ret → o.event = true) ∧
    (o.interrupted = true ∨ o.faulted = true → o.ret < 0 ∧ o.kept = true)

instance (o : Outcome) : Decidable (Proper o) :=
  inferInstanceAs (Decidable (_ ∧ _))

/-! ## The driver -/

inductive WriterPc where
  | idle
  | copied
  | flagged
deriving DecidableEq

inductive ReaderPc where
  | idle
  | waiting (len : Nat) (w : Wait)
  | copied (bytes : Nat) (interrupted : Bool)
deriving DecidableEq

structure State (W : Type*) where
  dev : Device
  writer : W → WriterPc
  reader : ReaderPc
  unread : Nat
  outcomes : List Outcome

/-- The module as loaded, nobody inside. -/
def State.init (W : Type*) : State W := ⟨⟨.zero bufSize, 0⟩, fun _ => .idle, .idle, 0, []⟩

inductive Event (W : Type*) where
  | write (w : W) (buf : List UInt8)
  | writeFault (w : W) (buf : List UInt8) (k : Nat)
  | setFlag (w : W)
  | wakeUp (w : W)
  | read (len : Nat)
  | wait
  | signal
  | copyOut
  | readFault
  | clearFlag

/-- The condition of the wait. -/
def Device.available (dev : Device) : Bool := decide (dev.dataAvailable ≠ 0)

/-- A signal ended the wait, and the copy succeeded. -/
def ReaderPc.interrupted : ReaderPc → Bool
  | copied _ interrupted => interrupted
  | _ => false

/-- The reader has left its wait because it saw the flag. -/
def ReaderPc.seen : ReaderPc → Bool
  | waiting _ (.done ret) => decide (ret = 0)
  | copied _ interrupted => !interrupted
  | _ => false

def ReaderPc.wake : ReaderPc → ReaderPc
  | waiting len w => waiting len w.wake
  | pc => pc

variable {W : Type*} [DecidableEq W]

def State.setWriter (s : State W) (w : W) (pc : WriterPc) : State W :=
  { s with writer := Function.update s.writer w pc }

def step (s : State W) : Event W → Option (State W)
  | .write w buf =>
    if s.writer w = .idle then
      some { s.setWriter w .copied with
        dev := { s.dev with kernelBuffer := (myWrite s.dev buf none).2.kernelBuffer } }
    else none
  | .writeFault w buf k =>
    if s.writer w = .idle then some { s with dev := (myWrite s.dev buf (some k)).2 } else none
  | .setFlag w =>
    if s.writer w = .copied then
      some { s.setWriter w .flagged with
        dev := { s.dev with dataAvailable := 1 }
        unread := s.unread + 1 }
    else none
  | .wakeUp w =>
    if s.writer w = .flagged then
      some { s.setWriter w .idle with reader := s.reader.wake }
    else none
  | .read len => if s.reader = .idle then some { s with reader := .waiting len .fast } else none
  | .wait =>
    match s.reader with
    | .waiting len w =>
      (w.step s.dev.available).map fun w' => { s with reader := .waiting len w' }
    | _ => none
  | .signal =>
    match s.reader with
    | .waiting len w => w.interrupt.map fun w' => { s with reader := .waiting len w' }
    | _ => none
  | .copyOut =>
    match s.reader with
    | .waiting len (.done ret) =>
      some { s with reader := .copied (min len s.dev.kernelBuffer.str.strlen) (ret ≠ 0) }
    | _ => none
  | .readFault =>
    match s.reader with
    | .waiting _ (.done ret) =>
      some { s with
        reader := .idle
        outcomes := s.outcomes ++ [⟨-EFAULT, ret ≠ 0, true, 0 < s.unread, true⟩] }
    | _ => none
  | .clearFlag =>
    match s.reader with
    | .copied bytes interrupted =>
      some { s with
        dev := { s.dev with dataAvailable := 0 }
        reader := .idle
        unread := 0
        outcomes := s.outcomes ++
          [⟨bytes, interrupted, false, 0 < s.unread, s.dev.dataAvailable = 0⟩] }
    | _ => none

/-- The module with one reader and the writers `W`. -/
def driver (W : Type*) [DecidableEq W] : Machine (State W) (Event W) := ⟨.init W, step⟩

/-- All reads so far have returned properly. -/
def AllProper (s : State W) : Prop := ∀ o ∈ s.outcomes, Proper o

/-- A read that a signal has ended does not get to its last statement: its copy
fails. -/
def Heeded (s : State W) : Event W → Prop
  | .clearFlag => s.reader.interrupted = false
  | _ => True

instance (s : State W) : (e : Event W) → Decidable (Heeded s e)
  | .clearFlag => inferInstanceAs (Decidable (s.reader.interrupted = false))
  | .write _ _ | .writeFault _ _ _ | .setFlag _ | .wakeUp _ | .read _ | .wait | .signal | .copyOut
  | .readFault => isTrue trivial

/-! ## What each event does -/

theorem step_spec {s s' : State W} {e : Event W} (h : step s e = some s') :
    match e with
    | .write w buf =>
      s' = { s.setWriter w .copied with
        dev := { s.dev with kernelBuffer := (myWrite s.dev buf none).2.kernelBuffer } }
    | .writeFault _ buf k => s' = { s with dev := (myWrite s.dev buf (some k)).2 }
    | .setFlag w =>
      s' = { s.setWriter w .flagged with
        dev := { s.dev with dataAvailable := 1 }
        unread := s.unread + 1 }
    | .wakeUp w => s' = { s.setWriter w .idle with reader := s.reader.wake }
    | .read len => s' = { s with reader := .waiting len .fast }
    | .wait =>
      ∃ len w w', Wait.step s.dev.available w = some w' ∧ s' = { s with reader := .waiting len w' }
    | .signal =>
      ∃ len w w', Wait.interrupt w = some w' ∧ s' = { s with reader := .waiting len w' }
    | .copyOut =>
      ∃ len ret, s.reader = .waiting len (.done ret) ∧
        s' = { s with reader := .copied (min len s.dev.kernelBuffer.str.strlen) (ret ≠ 0) }
    | .readFault =>
      ∃ len ret, s.reader = .waiting len (.done ret) ∧
        s' = { s with
          reader := .idle
          outcomes := s.outcomes ++ [⟨-EFAULT, ret ≠ 0, true, 0 < s.unread, true⟩] }
    | .clearFlag =>
      ∃ bytes interrupted, s.reader = .copied bytes interrupted ∧
        s' = { s with
          dev := { s.dev with dataAvailable := 0 }
          reader := .idle
          unread := 0
          outcomes := s.outcomes ++
            [⟨bytes, interrupted, false, 0 < s.unread, s.dev.dataAvailable = 0⟩] } := by
  cases e with
  | write | writeFault | setFlag | wakeUp | read =>
    obtain ⟨-, hs⟩ := Option.ite_none_right_eq_some.mp h
    exact (Option.some.inj hs).symm
  | wait | signal =>
    simp only [step] at h
    split at h
    · rename_i len w hr
      obtain ⟨w', hw, rfl⟩ := Option.map_eq_some_iff.mp h
      exact ⟨len, w, w', hw, rfl⟩
    · cases h
  | copyOut | readFault =>
    simp only [step] at h
    split at h
    · rename_i len ret hr
      exact ⟨len, ret, hr, (Option.some.inj h).symm⟩
    · cases h
  | clearFlag =>
    simp only [step] at h
    split at h
    · rename_i bytes interrupted hr
      exact ⟨bytes, interrupted, hr, (Option.some.inj h).symm⟩
    · cases h

/-! ## The invariant -/

structure Inv (s : State W) : Prop where
  /-- The flag stands for the sets since it was cleared. -/
  flag : s.dev.dataAvailable ≠ 0 ↔ 0 < s.unread
  /-- Nobody else clears a flag that the reader has seen. -/
  seen : s.reader.seen = true → s.dev.dataAvailable ≠ 0
  proper : AllProper s

omit [DecidableEq W] in
theorem inv_init : Inv (.init W) := ⟨iff_of_false (fun h => h rfl) (Nat.lt_irrefl 0), nofun, nofun⟩

@[simp] theorem seen_wake (pc : ReaderPc) : pc.wake.seen = pc.seen := by
  cases pc with
  | waiting len w => cases w <;> rfl
  | idle | copied => rfl

theorem allProper_concat {os : List Outcome} {o : Outcome} (hos : ∀ o ∈ os, Proper o)
    (ho : Proper o) : ∀ o' ∈ os ++ [o], Proper o' := by
  intro o' ho'
  rcases List.mem_append.mp ho' with hold | hnew
  · exact hos o' hold
  · rw [List.mem_singleton.mp hnew]
    exact ho

theorem Inv.next {s s' : State W} {e : Event W} (h : Inv s) (he : Heeded s e)
    (hs : step s e = some s') : Inv s' := by
  have hspec := step_spec hs
  cases e with
  | write w buf =>
    obtain rfl : s' = _ := hspec
    exact ⟨h.flag, h.seen, h.proper⟩
  | writeFault w buf k =>
    obtain rfl : s' = _ := hspec
    exact ⟨h.flag, h.seen, h.proper⟩
  | setFlag w =>
    obtain rfl : s' = _ := hspec
    exact ⟨iff_of_true (by simp) (Nat.succ_pos _), fun _ => by simp, h.proper⟩
  | wakeUp w =>
    obtain rfl : s' = _ := hspec
    refine ⟨h.flag, fun hseen => h.seen ?_, h.proper⟩
    rwa [seen_wake] at hseen
  | read len =>
    obtain rfl : s' = _ := hspec
    exact ⟨h.flag, nofun, h.proper⟩
  | wait =>
    obtain ⟨len, w, w', hw, rfl⟩ := hspec
    refine ⟨h.flag, fun hseen => ?_, h.proper⟩
    cases w' with
    | done ret => exact of_decide_eq_true (Wait.cond_of_step_done hw).1
    | fast | prepare | test | schedule | asleep => cases hseen
  | signal =>
    obtain ⟨len, w, w', hw, rfl⟩ := hspec
    refine ⟨h.flag, fun hseen => ?_, h.proper⟩
    cases w with
    | schedule queued =>
      cases hw
      cases hseen
    | fast | prepare | test | asleep | done => cases hw
  | copyOut =>
    obtain ⟨len, ret, hr, rfl⟩ := hspec
    refine ⟨h.flag, fun hseen => h.seen ?_, h.proper⟩
    rw [hr]
    simpa [ReaderPc.seen] using hseen
  | readFault =>
    obtain ⟨len, ret, hr, rfl⟩ := hspec
    refine ⟨h.flag, nofun, allProper_concat h.proper ⟨fun hpos => ?_, fun _ => ⟨?_, rfl⟩⟩⟩
    · exact absurd hpos (by simp [EFAULT])
    · simp [EFAULT]
  | clearFlag =>
    obtain ⟨bytes, interrupted, hr, rfl⟩ := hspec
    obtain rfl : interrupted = false := by simpa [Heeded, hr, ReaderPc.interrupted] using he
    have hup : s.dev.dataAvailable ≠ 0 := h.seen (by rw [hr]; rfl)
    refine ⟨by simp, nofun, allProper_concat h.proper ⟨fun _ => ?_, ?_⟩⟩
    · exact decide_eq_true (h.flag.mp hup)
    · rintro (hi | hf)
      · cases hi
      · cases hf

/-- An interrupted read that returns a count is not proper. -/
theorem heeded_of_proper {s s' : State W} {e : Event W} (hs : step s e = some s')
    (h : AllProper s') : Heeded s e := by
  have hspec := step_spec hs
  cases e with
  | clearFlag =>
    obtain ⟨bytes, interrupted, hr, rfl⟩ := hspec
    cases interrupted with
    | false => rw [Heeded, hr, ReaderPc.interrupted]
    | true =>
      have hlast := (h _ (List.mem_append_right _ (List.mem_singleton_self _))).2 (.inl rfl)
      exact absurd hlast.1 (Int.not_lt.mpr (Int.natCast_nonneg bytes))
  | write | writeFault | setFlag | wakeUp | read | wait | signal | copyOut | readFault =>
    trivial

/-- **All returns of a run are proper** exactly when no read that a signal has
ended gets to its last statement. -/
theorem allProper_iff {es : List (Event W)} {s : State W} (h : (driver W).Reaches es s) :
    (driver W).Always AllProper (.init W) es ↔ (driver W).Along Heeded (.init W) es :=
  Machine.always_iff_along (fun _ => Inv.proper) (fun _ _ _ => Inv.next)
    (fun _ _ _ _ => heeded_of_proper) inv_init h

/-! ## The calls and the steps -/

/-- A count of bytes from the buffer is no overflow. -/
theorem int64_count (buffer : CharArray bufSize) (len : Nat) :
    int64 (min len buffer.str.strlen : Nat) = (min len buffer.str.strlen : Nat) := by
  have hle : buffer.str.chars.length ≤ buffer.bytes.length :=
    (List.takeWhile_prefix _).length_le
  have hsize : buffer.bytes.length = 100 := buffer.size
  have hlen : buffer.str.strlen = buffer.str.chars.length := rfl
  exact int64_of_lt (by omega) (by omega)

/-- A write that nobody interrupts is `myWrite`. -/
theorem exec_myWrite {s : State W} {w : W} (h : s.writer w = .idle) (buf : List UInt8) :
    ∃ t, (driver W).exec s [.write w buf, .setFlag w, .wakeUp w] = some t ∧
      t.dev = (myWrite s.dev buf none).2 ∧ t.unread = s.unread + 1 := by
  let t : State W := { s.setWriter w .idle with
    dev := (myWrite s.dev buf none).2
    reader := s.reader.wake
    unread := s.unread + 1 }
  have hrun : (driver W).exec s [.write w buf, .setFlag w, .wakeUp w] = some t := by
    simp [Machine.exec, driver, step, h, State.setWriter, t]
    rfl
  exact ⟨t, hrun, rfl, rfl⟩

/-- The wait of a read with nobody else inside: it passes on the flag, or goes
on to a signal. -/
theorem exec_wait {s : State W} (h : s.reader = .idle) (len : Nat) :
    ∃ es ret, (driver W).exec s (.read len :: es)
        = some { s with reader := .waiting len (.done ret) } ∧
      (ret ≠ 0 ↔ s.dev.dataAvailable = 0) := by
  by_cases hflag : s.dev.dataAvailable = 0
  · refine ⟨[.wait, .wait, .wait, .signal], -ERESTARTSYS, ?_, iff_of_true (by decide) hflag⟩
    simp [Machine.exec, driver, step, h, Device.available, hflag, Wait.step, Wait.interrupt]
  · refine ⟨[.wait], 0, ?_, iff_of_false (by decide) hflag⟩
    simp [Machine.exec, driver, step, h, Device.available, hflag, Wait.step]

/-- **A read that nobody interferes with is `myRead`**, with a signal where the
flag is not set. -/
theorem exec_myRead {s : State W} (h : s.reader = .idle) {len : Nat} {signal fault : Bool}
    {reply : WaitingQueue.Reply} {dev : Device}
    (hr : myRead s.dev len signal fault = some (reply, dev)) :
    ∃ es t o, (driver W).exec s es = some t ∧ t.dev = dev ∧ t.outcomes = s.outcomes ++ [o] ∧
      o.ret = reply.ret ∧ o.interrupted = decide (s.dev.dataAvailable = 0) ∧ o.faulted = fault ∧
      o.event = decide (0 < s.unread) := by
  obtain ⟨es, ret, hwait, hret⟩ := exec_wait h len
  have hinterrupted : decide (ret ≠ 0) = decide (s.dev.dataAvailable = 0) := by
    simp only [hret]
  rw [myRead] at hr
  split at hr
  · cases hr
  cases fault with
  | true =>
    cases hr
    let o : Outcome := ⟨-EFAULT, ret ≠ 0, true, 0 < s.unread, true⟩
    let t : State W := { s with reader := .idle, outcomes := s.outcomes ++ [o] }
    have hrun : (driver W).exec s (.read len :: es ++ [.readFault]) = some t :=
      Machine.exec_append_iff.mpr ⟨_, hwait, rfl⟩
    exact ⟨_, t, o, hrun, rfl, rfl, rfl, hinterrupted, rfl, rfl⟩
  | false =>
    simp only [Bool.false_eq_true, if_false, Option.some.injEq, Prod.mk.injEq] at hr
    obtain ⟨hreply, hdev⟩ := hr
    let bytes := min len s.dev.kernelBuffer.str.strlen
    let o : Outcome := ⟨bytes, ret ≠ 0, false, 0 < s.unread, s.dev.dataAvailable = 0⟩
    let t : State W := { s with
      dev := { s.dev with dataAvailable := 0 }
      reader := .idle
      unread := 0
      outcomes := s.outcomes ++ [o] }
    have hrun : (driver W).exec s (.read len :: es ++ [.copyOut, .clearFlag]) = some t :=
      Machine.exec_append_iff.mpr ⟨_, hwait, rfl⟩
    have hret : o.ret = reply.ret := by
      rw [← hreply, int64_count]
    exact ⟨_, t, o, hrun, hdev, rfl, hret, hinterrupted, rfl, rfl⟩

/-- A read that finds the flag up and that nobody interferes with. -/
def uninterrupted (len : Nat) : List (Event W) := [.read len, .wait, .copyOut, .clearFlag]

/-- **What is kept is delivered**: with the flag up, such a read returns the
count of what it copies, for an event. -/
theorem Inv.delivered {s : State W} (h : Inv s) (hidle : s.reader = .idle)
    (hup : s.dev.dataAvailable ≠ 0) (len : Nat) :
    ∃ (t : State W) (o : Outcome), (driver W).exec s (uninterrupted len) = some t ∧
      t.outcomes = s.outcomes ++ [o] ∧ o.ret = (min len s.dev.kernelBuffer.str.strlen : Nat) ∧
      o.event = true ∧ Proper o := by
  let bytes := min len s.dev.kernelBuffer.str.strlen
  let o : Outcome := ⟨bytes, false, false, 0 < s.unread, false⟩
  let t : State W := { s with
    dev := { s.dev with dataAvailable := 0 }
    reader := .idle
    unread := 0
    outcomes := s.outcomes ++ [o] }
  have hrun : (driver W).exec s (uninterrupted len) = some t := by
    simp [Machine.exec, driver, uninterrupted, step, hidle, Device.available, hup, Wait.step, t, o,
      bytes]
  have hunread : o.event = true := decide_eq_true (h.flag.mp hup)
  refine ⟨t, o, hrun, rfl, rfl, hunread, fun _ => hunread, ?_⟩
  rintro (hi | hf)
  · cases hi
  · cases hf

end KernelSpace.BlockingRead
