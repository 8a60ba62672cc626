import KernelSpace.Kernel.Regmap
import KernelSpace.Kernel.Workqueue
import KernelSpace.Lib.Machine

/-!
# Regmap — the samples of an MPU (26c, 26f)

`26f.regmap_interrupt_driven/regmap_interrupt_driven.c`: the chip makes samples
of three values of 16 bits and, for each, sets a bit of `MPU_INT_STATUS` and
pulls its line. The thread of the interrupt reads the status, which clears the
bit, and where it was set the six bytes of the sample. A pulse that comes while
the thread runs makes it run again, like a work item that is queued again. A
step is one of

* `sample` — the chip makes a sample;
* `requestIrq` — the end of `mpu9250_probe`; pulses before it go nowhere;
* `start`, `readStatus`, `bulkRead`, `finish` — `mpu9250_irq`, which looks at
  no return value: what a read that fails leaves in its variables is arbitrary.

A sample may be overwritten before it is read, and may be read twice when it
comes between the two reads. `shown` records which samples were printed.
-/

namespace KernelSpace.Regmap.Interrupt

open KernelSpace.Kernel KernelSpace.Lib

/-! ## Bytes and values -/

/-- `(s16)((hi << 8) | lo)`. -/
def s16 (hi lo : Byte) : Int :=
  ((hi.setWidth 32 <<< 8 ||| lo.setWidth 32).setWidth 16).toInt

/-- What the chip has measured. -/
structure Sample where
  x : BitVec 16
  y : BitVec 16
  z : BitVec 16

/-- The registers from `MPU_ACCEL_XOUT_H` on: the high byte comes first. -/
def Sample.bytes (s : Sample) : List Byte :=
  [s.x, s.y, s.z].flatMap fun v => [v.extractLsb' 8 8, v.extractLsb' 0 8]

/-- What `pr_info` prints of a buffer. -/
def decode (accel : List Byte) : Int × Int × Int :=
  (s16 (accel.getD 0 0) (accel.getD 1 0), s16 (accel.getD 2 0) (accel.getD 3 0),
    s16 (accel.getD 4 0) (accel.getD 5 0))

def Sample.values (s : Sample) : Int × Int × Int := (s.x.toInt, s.y.toInt, s.z.toInt)

theorem s16_halves (v : BitVec 16) : s16 (v.extractLsb' 8 8) (v.extractLsb' 0 8) = v.toInt := by
  unfold s16
  congr 1
  ext i hi
  simp only [BitVec.getElem_setWidth, BitVec.getLsbD_or, BitVec.getLsbD_shiftLeft,
    BitVec.getLsbD_setWidth, BitVec.getLsbD_extractLsb']
  have hwide : i < 32 := by omega
  rw [← BitVec.getLsbD_eq_getElem]
  by_cases hlow : i < 8
  · simp [hlow, hwide]
  · have hback : 8 + (i - 8) = i := by omega
    have hbyte : i - 8 < 8 := by omega
    have hshift : i - 8 < 32 := by omega
    simp [hlow, hwide, hback, hbyte, hshift]

/-- The driver prints what the chip has measured. -/
theorem decode_bytes (s : Sample) : decode s.bytes = s.values := by
  simp [decode, Sample.bytes, Sample.values, s16_halves]

/-! ## The interrupt -/

/-- Where `mpu9250_irq` stands. -/
inductive ThreadPc where
  | idle
  | readStatus
  | bulkRead
  | returning
deriving DecidableEq

structure State where
  /-- What the chip has measured, since ever. -/
  samples : List Sample
  /-- The data ready bit of `MPU_INT_STATUS`. -/
  dataReady : Bool
  /-- How many samples there were when the interrupt was requested. -/
  requested : Option Nat
  /-- The thread of the interrupt. -/
  thread : Work
  pc : ThreadPc
  printed : List (Int × Int × Int)
  shown : List Nat

/-- A read fails and leaves something in its variable, or it succeeds. -/
inductive Event where
  | sample (s : Sample)
  | requestIrq
  | start
  | readStatus (failed : Option Byte)
  | bulkRead (failed : Option (List Byte))
  | finish

/-- The registers of the last sample. -/
def State.accel (s : State) : List Byte :=
  match s.samples.getLast? with
  | some sample => sample.bytes
  | none => List.replicate 6 0

/-- The thread is woken up for a sample, if anybody listens. -/
def State.wake (s : State) : Work :=
  if s.requested.isSome then s.thread.schedule else s.thread

def step (s : State) : Event → Option State
  | .sample sample =>
    some { s with samples := s.samples ++ [sample], dataReady := true, thread := s.wake }
  | .requestIrq =>
    if s.requested.isNone then some { s with requested := some s.samples.length } else none
  | .start => s.thread.start.map fun thread => { s with thread, pc := .readStatus }
  | .readStatus failed =>
    if s.pc = .readStatus then
      match failed with
      | none =>
        -- the read clears the bit
        let pc : ThreadPc := if s.dataReady then .bulkRead else .returning
        some { s with pc, dataReady := false }
      | some status =>
        some { s with pc := if status &&& 0x01 == 0 then .returning else .bulkRead }
    else none
  | .bulkRead failed =>
    if s.pc = .bulkRead then
      match failed with
      | none =>
        let shown := s.shown ++ [s.samples.length - 1]
        some { s with pc := .returning, printed := s.printed ++ [decode s.accel], shown }
      | some accel => some { s with pc := .returning, printed := s.printed ++ [decode accel] }
    else none
  | .finish =>
    if s.pc = .returning then s.thread.finish.map fun thread => { s with thread, pc := .idle }
    else none

def system : Machine State Event := ⟨⟨[], false, none, .init, .idle, [], []⟩, step⟩

/-- No read of it fails. -/
def Event.succeeds : Event → Bool
  | readStatus failed => failed.isNone
  | bulkRead failed => failed.isNone
  | _ => true

variable {s s' : State} {e : Event}

theorem step_spec (h : step s e = some s') :
    match e with
    | .sample sample =>
      s' = { s with samples := s.samples ++ [sample], dataReady := true, thread := s.wake }
    | .requestIrq => s.requested = none ∧ s' = { s with requested := some s.samples.length }
    | .start =>
      s.thread.pending = .queued ∧ s.thread.running = false ∧
        s' = { s with thread := ⟨.clear, true⟩, pc := .readStatus }
    | .readStatus none =>
      s.pc = .readStatus ∧
        s' = { s with pc := if s.dataReady then .bulkRead else .returning, dataReady := false }
    | .readStatus (some status) =>
      s.pc = .readStatus ∧
        s' = { s with pc := if status &&& 0x01 == 0 then .returning else .bulkRead }
    | .bulkRead none =>
      s.pc = .bulkRead ∧
        s' = { s with
          pc := .returning, printed := s.printed ++ [decode s.accel],
          shown := s.shown ++ [s.samples.length - 1] }
    | .bulkRead (some accel) =>
      s.pc = .bulkRead ∧ s' = { s with pc := .returning, printed := s.printed ++ [decode accel] }
    | .finish =>
      s.pc = .returning ∧ s' = { s with thread := { s.thread with running := false }, pc := .idle } := by
  cases e with
  | sample sample => exact (Option.some.inj h).symm
  | requestIrq =>
    obtain ⟨hguard, hs⟩ := Option.ite_none_right_eq_some.mp h
    exact ⟨Option.isNone_iff_eq_none.mp hguard, (Option.some.inj hs).symm⟩
  | start =>
    obtain ⟨thread, hthread, rfl⟩ := Option.map_eq_some_iff.mp h
    obtain ⟨⟨hpending, hrunning⟩, heq⟩ := Option.ite_none_right_eq_some.mp hthread
    cases heq
    exact ⟨hpending, hrunning, rfl⟩
  | readStatus failed =>
    obtain ⟨hguard, hs⟩ := Option.ite_none_right_eq_some.mp h
    cases failed <;> exact ⟨hguard, (Option.some.inj hs).symm⟩
  | bulkRead failed =>
    obtain ⟨hguard, hs⟩ := Option.ite_none_right_eq_some.mp h
    cases failed <;> exact ⟨hguard, (Option.some.inj hs).symm⟩
  | finish =>
    obtain ⟨hguard, hmap⟩ := Option.ite_none_right_eq_some.mp h
    obtain ⟨thread, hthread, rfl⟩ := Option.map_eq_some_iff.mp hmap
    obtain ⟨-, heq⟩ := Option.ite_none_right_eq_some.mp hthread
    cases heq
    exact ⟨hguard, rfl⟩

/-! ## The invariant -/

/-- What was printed of the sample number `i`. -/
def State.valuesAt (s : State) (i : Nat) : Option (Int × Int × Int) :=
  (s.samples[i]?).map Sample.values

/-- A sample has come since the interrupt was requested. -/
def State.Active (s : State) : Prop := ∃ n ∈ s.requested, n < s.samples.length

/-- The last sample is printed, or it will be. -/
def State.Coming (s : State) : Prop :=
  s.pc = .bulkRead ∨
    s.dataReady = true ∧ (s.thread.pending = .queued ∨ s.pc = .readStatus) ∨
    s.shown.getLast? = some (s.samples.length - 1)

/-- The prints of the last sample that may still come. -/
def State.toCome (s : State) : Nat :=
  (if s.dataReady then 1 else 0) + if s.pc = .bulkRead then 1 else 0

structure Inv (s : State) : Prop where
  running : s.thread.running = true ↔ s.pc ≠ .idle
  pending : s.thread.pending ≠ .grabbed
  printed : s.printed.map some = s.shown.map s.valuesAt
  below : ∀ i ∈ s.shown, i < s.samples.length
  sorted : s.shown.Pairwise (· ≤ ·)
  twice : ∀ i, s.shown.count i ≤ 2
  last : s.shown.count (s.samples.length - 1) + s.toCome ≤ 2
  sampled : s.dataReady = true ∨ s.pc = .bulkRead → s.samples ≠ []
  coming : s.Active → s.Coming

theorem inv_init : Inv system.init :=
  ⟨by simp [system, Work.init], by simp [system, Work.init], rfl, by simp [system],
    List.Pairwise.nil, by simp [system], by simp [system, State.toCome], by simp [system],
    by simp [system, State.Active]⟩

theorem wake_running (s : State) : s.wake.running = s.thread.running := by
  unfold State.wake Work.schedule
  split
  · split <;> rfl
  · rfl

theorem wake_pending (h : s.thread.pending ≠ .grabbed) :
    s.wake.pending ≠ .grabbed ∧ (s.requested.isSome = true → s.wake.pending = .queued) := by
  unfold State.wake
  split
  · have hqueued := Work.schedule_queued h
    exact ⟨by simp [hqueued], fun _ => hqueued⟩
  · rename_i hnone
    exact ⟨h, fun hsome => absurd hsome hnone⟩

/-- What is printed of the samples so far is not changed by a new one. -/
theorem valuesAt_concat (sample : Sample) {i : Nat} (hi : i < s.samples.length) :
    ((s.samples ++ [sample])[i]?).map Sample.values = s.valuesAt i := by
  rw [State.valuesAt, List.getElem?_append_left hi]

theorem inv_sample (h : Inv s) (sample : Sample) :
    Inv { s with samples := s.samples ++ [sample], dataReady := true, thread := s.wake } where
  running := by
    rw [show ({ s with samples := s.samples ++ [sample], dataReady := true, thread := s.wake } :
      State).thread.running = s.thread.running from wake_running s]
    exact h.running
  pending := (wake_pending h.pending).1
  printed := by
    rw [show s.printed.map some = s.shown.map s.valuesAt from h.printed]
    exact List.map_congr_left fun i hi => (valuesAt_concat sample (h.below i hi)).symm
  below i hi := by
    have hlt := h.below i hi
    simp only [List.length_append, List.length_singleton]
    omega
  sorted := h.sorted
  twice := h.twice
  last := by
    have hzero : s.shown.count s.samples.length = 0 := by
      refine List.count_eq_zero.mpr fun hmem => ?_
      exact absurd (h.below _ hmem) (Nat.lt_irrefl _)
    simp only [List.length_append, List.length_singleton, Nat.add_sub_cancel, hzero, State.toCome]
    by_cases hpc : s.pc = .bulkRead <;> simp [hpc]
  sampled _ := by simp
  coming := by
    rintro ⟨n, hn, -⟩
    exact .inr (.inl ⟨rfl, .inl ((wake_pending h.pending).2 (Option.isSome_of_mem hn))⟩)

theorem inv_start (h : Inv s) (hrunning : s.thread.running = false) :
    Inv { s with thread := ⟨.clear, true⟩, pc := .readStatus } where
  running := by simp
  pending := by simp
  printed := h.printed
  below := h.below
  sorted := h.sorted
  twice := h.twice
  last := by
    have hlast := h.last
    simp only [State.toCome] at hlast ⊢
    simp only [reduceCtorEq, if_false]
    omega
  sampled hany := h.sampled (.inl (by simpa using hany))
  coming hactive := by
    have hidle : s.pc = .idle := by simpa [hrunning] using h.running
    rcases h.coming hactive with hbulk | ⟨hready, -⟩ | hlast
    · rw [hidle] at hbulk
      cases hbulk
    · exact .inr (.inl ⟨hready, .inr rfl⟩)
    · exact .inr (.inr hlast)

theorem inv_readStatus (h : Inv s) (hpc : s.pc = .readStatus) :
    Inv { s with pc := if s.dataReady then .bulkRead else .returning, dataReady := false } where
  running := by
    have hrunning : s.thread.running = true := h.running.mpr (by simp [hpc])
    cases s.dataReady <;> simp [hrunning]
  pending := h.pending
  printed := h.printed
  below := h.below
  sorted := h.sorted
  twice := h.twice
  last := by
    have hlast := h.last
    simp only [State.toCome, hpc] at hlast ⊢
    cases hready : s.dataReady <;> simpa [hready] using hlast
  sampled hany := by
    cases hready : s.dataReady with
    | true => exact h.sampled (.inl hready)
    | false => simp [hready] at hany
  coming hactive := by
    rcases h.coming hactive with hbulk | ⟨hready, -⟩ | hlast
    · rw [hpc] at hbulk
      cases hbulk
    · exact .inl (by simp [hready])
    · exact .inr (.inr hlast)

theorem valuesAt_last (hne : s.samples ≠ []) :
    s.valuesAt (s.samples.length - 1) = some (decode s.accel) := by
  obtain ⟨samples, sample, hs⟩ := List.eq_nil_or_concat s.samples |>.resolve_left hne
  simp [State.valuesAt, State.accel, hs, decode_bytes]

theorem inv_bulkRead (h : Inv s) (hpc : s.pc = .bulkRead) :
    Inv { s with
      pc := .returning, printed := s.printed ++ [decode s.accel],
      shown := s.shown ++ [s.samples.length - 1] } := by
  have hne : s.samples ≠ [] := h.sampled (.inr hpc)
  have hpos : 0 < s.samples.length := List.length_pos_of_ne_nil hne
  have hlast := h.last
  refine ⟨?_, h.pending, ?_, ?_, ?_, ?_, ?_, ?_, ?_⟩
  · have hrunning : s.thread.running = true := h.running.mpr (by simp [hpc])
    simp [hrunning]
  · simp only [List.map_append, List.map_cons, List.map_nil, h.printed]
    exact congrArg (s.shown.map s.valuesAt ++ [·]) (valuesAt_last hne).symm
  · intro i hi
    rcases List.mem_append.mp hi with hi | hi
    · exact h.below i hi
    · rw [List.mem_singleton.mp hi]
      exact Nat.sub_one_lt (by omega)
  · refine List.pairwise_append.mpr ⟨h.sorted, List.pairwise_singleton .., ?_⟩
    intro i hi j hj
    rw [List.mem_singleton.mp hj]
    have hlt := h.below i hi
    omega
  · intro i
    have htwice := h.twice i
    rw [List.count_append, List.count_singleton]
    by_cases hi : s.samples.length - 1 = i
    · rw [hi] at hlast ⊢
      simp only [State.toCome, hpc, if_true] at hlast
      simp only [beq_self_eq_true, if_true]
      omega
    · simpa [hi] using htwice
  · simp only [State.toCome, hpc, if_true] at hlast ⊢
    simp only [List.count_append, List.count_singleton_self, reduceCtorEq, if_false]
    omega
  · exact fun _ => hne
  · exact fun _ => .inr (.inr (List.getLast?_concat ..))

theorem inv_step (h : Inv s) (he : e.succeeds = true) (hs : step s e = some s') : Inv s' := by
  have hspec := step_spec hs
  cases e with
  | sample sample =>
    cases hspec
    exact inv_sample h sample
  | requestIrq =>
    obtain ⟨-, rfl⟩ := hspec
    refine { h with coming := ?_ }
    rintro ⟨n, hn, hlt⟩
    cases hn
    exact absurd hlt (Nat.lt_irrefl _)
  | start =>
    obtain ⟨-, hrunning, rfl⟩ := hspec
    exact inv_start h hrunning
  | readStatus failed =>
    cases failed with
    | none =>
      obtain ⟨hpc, rfl⟩ := hspec
      exact inv_readStatus h hpc
    | some status => cases he
  | bulkRead failed =>
    cases failed with
    | none =>
      obtain ⟨hpc, rfl⟩ := hspec
      exact inv_bulkRead h hpc
    | some accel => cases he
  | finish =>
    obtain ⟨hpc, rfl⟩ := hspec
    have hlast := h.last
    refine ⟨by simp, h.pending, h.printed, h.below, h.sorted, h.twice, ?_, fun hany => ?_,
      fun hactive => ?_⟩
    · simpa [State.toCome, hpc] using hlast
    · exact h.sampled (.inl (by simpa using hany))
    · rcases h.coming hactive with hbulk | ⟨hready, hqueued | hread⟩ | hlast
      · rw [hpc] at hbulk
        cases hbulk
      · exact .inr (.inl ⟨hready, .inl hqueued⟩)
      · rw [hpc] at hread
        cases hread
      · exact .inr (.inr hlast)

/-- **The samples.** In every run in which no read fails, what is printed are
samples of the chip, in the order in which they were made, none of them more
than twice; and when the thread rests the last sample made since the interrupt
was requested is the last one printed. -/
theorem samples_printed (es : List Event) (s : State) (hs : system.Reaches es s)
    (hreads : ∀ e ∈ es, e.succeeds = true) :
    ∃ shown : List Nat,
      s.printed.map some = shown.map (fun i => (s.samples[i]?).map Sample.values) ∧
      (∀ i ∈ shown, i < s.samples.length) ∧ shown.Pairwise (· ≤ ·) ∧
      (∀ i, shown.count i ≤ 2) ∧
      (s.pc = .idle → s.thread.pending = .clear → s.Active →
        shown.getLast? = some (s.samples.length - 1)) := by
  have h : Inv s := Machine.exec_inv (M := system) (I := Inv) (P := fun _ e => e.succeeds = true)
    (fun _ _ _ hI he hs => inv_step hI he hs) inv_init (Machine.along_of_forall _ hreads) hs
  refine ⟨s.shown, h.printed, h.below, h.sorted, h.twice, fun hpc hclear hactive => ?_⟩
  rcases h.coming hactive with hbulk | ⟨-, hqueued | hread⟩ | hlast
  · rw [hpc] at hbulk
    cases hbulk
  · rw [hclear] at hqueued
    cases hqueued
  · rw [hpc] at hread
    cases hread
  · exact hlast

/-- Two samples while the thread runs, one between its two reads. -/
def overtaken : List Event :=
  [.requestIrq, .sample ⟨1, 2, 3⟩, .start, .readStatus none, .sample ⟨4, 5, 6⟩, .bulkRead none,
    .finish, .start, .readStatus none, .bulkRead none, .finish]

/-- The first sample is never printed, the second one twice. -/
theorem samples_printed_overtaken :
    ∃ s, system.Reaches overtaken s ∧ s.printed = [(4, 5, 6), (4, 5, 6)] ∧
      ∃ shown : List Nat, shown.getLast? = some 1 ∧
        s.printed.map some = shown.map fun i => (s.samples[i]?).map Sample.values := by
  obtain ⟨s, hs, hprinted, hpc, hclear, hactive, hlength⟩ : ∃ s, system.Reaches overtaken s ∧
      s.printed = [(4, 5, 6), (4, 5, 6)] ∧ s.pc = .idle ∧ s.thread.pending = .clear ∧ s.Active ∧
      s.samples.length = 2 := ⟨_, rfl, by decide, rfl, rfl, ⟨0, rfl, by decide⟩, rfl⟩
  obtain ⟨shown, hvalues, -, -, -, hlast⟩ :=
    samples_printed overtaken s hs (by simp [overtaken, Event.succeeds])
  refine ⟨s, hs, hprinted, shown, ?_, hvalues⟩
  rw [hlast hpc hclear hactive, hlength]

end KernelSpace.Regmap.Interrupt
