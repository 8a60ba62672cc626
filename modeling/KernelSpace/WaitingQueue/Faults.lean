import KernelSpace.WaitingQueue.Calls
import KernelSpace.WaitingQueue.Readers

/-!
# WaitingQueue — a write that fails (7)

`my_write` copies straight into `buffer` and raises the flag behind the copy,
so a `copy_from_user` that fails leaves the flag alone and a `buffer` that
begins with the bytes that were copied and zeros.

The run with the failed call and the run without it are compared step by step
(`SameText`): the flag and the readers are the same, and so is the text in
`buffer` as long as somebody can come to read it. Readers inside a read when
the call failed may get something else; the `late` ones may not.
-/

namespace KernelSpace.WaitingQueue

open KernelSpace.Kernel KernelSpace.Lib

variable {R : Type*}

/-- No write succeeds, and where one fails at least a byte was not copied. -/
def Event.BetweenWrites : Event R → Prop
  | .write _ => False
  | .writeFault buf k => k < writeLen buf.length
  | _ => True

instance : (e : Event R) → Decidable e.BetweenWrites
  | .write _ => isFalse id
  | .writeFault buf k => inferInstanceAs (Decidable (k < writeLen buf.length))
  | .setFlag | .wakeUp | .read _ _ | .wait _ | .signal _ | .interrupted _ | .copyOut _
  | .readFault _ | .clearFlag _ => isTrue trivial

/-- A read is handed the front of the text. -/
theorem readData_eq (buffer : CharArray bufferSize) (len : Nat) :
    readData buffer len = buffer.str.chars.take len := by
  rw [readData, cut_eq_min, Nat.min_comm, ← buffer.take_strlen, List.take_take, Nat.min_comm]

theorem faultBuffer_eq (buffer : CharArray bufferSize) (buf : List UInt8) (k : Nat) :
    faultBuffer buffer buf k = buffer.copyFault buf (writeLen buf.length) k := rfl

theorem writeLen_le_length (len : Nat) : writeLen len ≤ len := by
  unfold writeLen
  split <;> omega

theorem writeLen_lt (len : Nat) : writeLen len < bufferSize :=
  Nat.lt_of_le_of_lt (writeLen_le len) (by decide)

theorem Terminated.faultBuffer {buffer : CharArray bufferSize} (h : Terminated buffer)
    (buf : List UInt8) (k : Nat) : Terminated (faultBuffer buffer buf k) := by
  have hle := writeLen_le buf.length
  rw [faultBuffer_eq, Terminated,
    buffer.getElem?_copyFault (writeLen_lt buf.length).le (writeLen_le_length buf.length),
    if_neg (by omega)]
  exact h

variable [DecidableEq R]

/-- **`strlen` stays in the buffer**, whoever is inside and whatever failed. -/
theorem terminated_of_reachable {s : State R} (h : (driver R).Reachable s) :
    Terminated s.buffer := by
  refine h.inv (I := fun s => Terminated s.buffer) terminated_init ?_
  intro s e s' hs hstep
  cases e with
  | write buf =>
    obtain ⟨-, rfl⟩ := step_write hstep
    exact hs.fillBuffer buf
  | writeFault buf k =>
    obtain ⟨-, rfl⟩ := step_writeFault hstep
    exact hs.faultBuffer buf k
  | setFlag =>
    obtain ⟨len, msg, -, rfl⟩ := step_setFlag hstep
    exact hs
  | wakeUp =>
    obtain ⟨len, msg, -, rfl⟩ := step_wakeUp hstep
    exact hs
  | read r len =>
    obtain ⟨-, rfl⟩ := step_read hstep
    exact hs
  | wait r =>
    obtain ⟨len, w, w', -, -, rfl⟩ := step_wait hstep
    exact hs
  | signal r =>
    obtain ⟨len, w, w', -, -, rfl⟩ := step_signal hstep
    exact hs
  | interrupted r =>
    obtain ⟨len, ret, -, -, rfl⟩ := step_interrupted hstep
    exact hs
  | copyOut r =>
    obtain ⟨len, -, rfl⟩ := step_copyOut hstep
    exact hs
  | readFault r =>
    obtain ⟨len, -, rfl⟩ := step_readFault hstep
    exact hs
  | clearFlag r =>
    obtain ⟨data, -, rfl⟩ := step_clearFlag hstep
    exact hs

/-! ## Two runs -/

/-- Two states that the `late` readers cannot tell apart. -/
structure SameText (late : R → Prop) (s t : State R) : Prop where
  flag : t.dataAvailable = s.dataAvailable
  writer : s.writer = .idle ∧ t.writer = .idle
  /-- Where a wait can end, the text is the same. -/
  text : s.dataAvailable ≠ 0 → t.buffer.str = s.buffer.str
  /-- The other readers may have copied something else. -/
  reader : ∀ r, t.reader r = s.reader r ∨
    ∃ data data', s.reader r = .copied data ∧ t.reader r = .copied data'
  late : ∀ r, late r → t.reader r = s.reader r ∧
    ((s.reader r).past = true → t.buffer.str = s.buffer.str)

namespace SameText

variable {late : R → Prop} {s t : State R}

omit [DecidableEq R] in
/-- A reader that has not copied is at the same point in both. -/
theorem reader_eq (h : SameText late s t) {r : R} (hr : ∀ data, s.reader r ≠ .copied data) :
    t.reader r = s.reader r :=
  (h.reader r).resolve_right fun ⟨data, _, hdata, _⟩ => hr data hdata

theorem setReader (h : SameText late s t) {r : R} {pc pc' : ReaderPc}
    (hpc : pc' = pc ∨ ∃ data data', pc = .copied data ∧ pc' = .copied data')
    (hlate : late r → pc' = pc ∧ (pc.past = true → t.buffer.str = s.buffer.str)) :
    SameText late (s.setReader r pc) (t.setReader r pc') := by
  refine ⟨h.flag, h.writer, h.text, ?_, ?_⟩
  · intro u
    by_cases hu : u = r
    · subst hu
      rwa [setReader_reader_self, setReader_reader_self]
    · have hs : (s.setReader r pc).reader u = s.reader u := Function.update_of_ne hu ..
      have ht : (t.setReader r pc').reader u = t.reader u := Function.update_of_ne hu ..
      rw [hs, ht]
      exact h.reader u
  · intro u hlateu
    by_cases hu : u = r
    · subst hu
      rw [setReader_reader_self, setReader_reader_self]
      exact hlate hlateu
    · have hs : (s.setReader r pc).reader u = s.reader u := Function.update_of_ne hu ..
      have ht : (t.setReader r pc').reader u = t.reader u := Function.update_of_ne hu ..
      rw [hs, ht]
      exact h.late u hlateu

/-- A step of a reader that does not take it past its wait. -/
theorem setReader_same (h : SameText late s t) (r : R) {pc : ReaderPc} (hpc : pc.past = false) :
    SameText late (s.setReader r pc) (t.setReader r pc) :=
  h.setReader (.inl rfl) fun _ => ⟨rfl, fun hpast => absurd (hpc.symm.trans hpast) nofun⟩

/-- **A step with the failed call behind it is one without it**, and no late
reader is handed anything else. -/
theorem next (h : SameText late s t) {e : Event R} {s' : State R} (he : e.BetweenWrites)
    (hstep : step s e = some s') : ∃ t', step t e = some t' ∧ SameText late s' t' := by
  cases e with
  | write buf => exact he.elim
  | writeFault buf k =>
    obtain ⟨-, rfl⟩ := step_writeFault hstep
    have hsame : (faultBuffer t.buffer buf k).str = (faultBuffer s.buffer buf k).str := by
      rw [faultBuffer_eq, faultBuffer_eq]
      exact CharArray.str_copyFault_congr _ _ (writeLen_lt _).le (writeLen_le_length _) he
    refine ⟨_, if_pos h.writer.2, h.flag, h.writer, fun _ => hsame, h.reader, fun r hr => ?_⟩
    exact ⟨(h.late r hr).1, fun _ => hsame⟩
  | setFlag =>
    obtain ⟨len, msg, hw, -⟩ := step_setFlag hstep
    cases h.writer.1.symm.trans hw
  | wakeUp =>
    obtain ⟨len, msg, hw, -⟩ := step_wakeUp hstep
    cases h.writer.1.symm.trans hw
  | read r len =>
    obtain ⟨hr, rfl⟩ := step_read hstep
    have ht : t.reader r = .idle := (h.reader_eq (by simp [hr])).trans hr
    exact ⟨_, if_pos ht, h.setReader_same r rfl⟩
  | wait r =>
    obtain ⟨len, w, w', hr, hw, rfl⟩ := step_wait hstep
    have ht : t.reader r = .waiting len w := (h.reader_eq (by simp [hr])).trans hr
    have hcond : t.available = s.available := by rw [State.available, h.flag, State.available]
    refine ⟨t.setReader r (.waiting len w'), by simp only [step, ht, hcond, hw, Option.map_some],
      h.setReader (.inl rfl) fun _ => ⟨rfl, fun hpast => ?_⟩⟩
    exact h.text (of_decide_eq_true (done_of_past hw hpast).1)
  | signal r =>
    obtain ⟨len, w, w', hr, hw, rfl⟩ := step_signal hstep
    have ht : t.reader r = .waiting len w := (h.reader_eq (by simp [hr])).trans hr
    exact ⟨t.setReader r (.waiting len w'), by simp only [step, ht, hw, Option.map_some],
      h.setReader_same r (past_of_interrupt hw len)⟩
  | interrupted r =>
    obtain ⟨len, ret, hr, hret, rfl⟩ := step_interrupted hstep
    have ht : t.reader r = .waiting len (.done ret) := (h.reader_eq (by simp [hr])).trans hr
    exact ⟨t.setReader r .idle, by simp only [step, ht, if_pos hret], h.setReader_same r rfl⟩
  | copyOut r =>
    obtain ⟨len, hr, rfl⟩ := step_copyOut hstep
    have ht : t.reader r = .waiting len (.done 0) := (h.reader_eq (by simp [hr])).trans hr
    have hcopied : SameText late (s.setReader r (.copied (readData s.buffer len)))
        (t.setReader r (.copied (readData t.buffer len))) := by
      refine h.setReader (.inr ⟨_, _, rfl, rfl⟩) fun hlate => ?_
      have hsame := (h.late r hlate).2 (by rw [hr]; rfl)
      exact ⟨by rw [readData_eq, readData_eq, hsame], fun _ => hsame⟩
    refine ⟨{ t.setReader r (.copied (readData t.buffer len)) with
      copiedOut := t.copiedOut ++ t.inBuffer.toList }, by simp only [step, ht, if_pos], ?_⟩
    exact ⟨hcopied.flag, hcopied.writer, hcopied.text, hcopied.reader, hcopied.late⟩
  | readFault r =>
    obtain ⟨len, hr, rfl⟩ := step_readFault hstep
    have ht : t.reader r = .waiting len (.done 0) := (h.reader_eq (by simp [hr])).trans hr
    exact ⟨t.setReader r .idle, by simp only [step, ht, if_pos], h.setReader_same r rfl⟩
  | clearFlag r =>
    obtain ⟨data, hr, rfl⟩ := step_clearFlag hstep
    obtain ⟨data', ht⟩ : ∃ data', t.reader r = .copied data' := by
      rcases h.reader r with heq | ⟨-, data', -, hdata'⟩
      · exact ⟨data, heq.trans hr⟩
      · exact ⟨data', hdata'⟩
    have hidle : SameText late (s.setReader r .idle) (t.setReader r .idle) :=
      h.setReader_same r rfl
    refine ⟨{ t.setReader r .idle with dataAvailable := 0 }, by simp only [step, ht], ?_⟩
    exact ⟨rfl, hidle.writer, fun hflag => absurd rfl hflag, hidle.reader, hidle.late⟩

theorem run (h : SameText late s t) {es : List (Event R)} {s' : State R}
    (hes : ∀ e ∈ es, e.BetweenWrites) (hrun : (driver R).exec s es = some s') :
    ∃ t', (driver R).exec t es = some t' ∧ SameText late s' t' :=
  Machine.exec_sim (fun _ _ _ _ h he hstep => h.next he hstep) h hes hrun

omit [DecidableEq R] in
/-- A reader outside its reads is late for all that follow. -/
theorem of_idle (h : SameText (fun _ => False) s t) {r : R} (hr : s.reader r = .idle) :
    SameText (fun u => u = r) s t := by
  refine ⟨h.flag, h.writer, h.text, h.reader, ?_⟩
  rintro u rfl
  exact ⟨h.reader_eq (by simp [hr]), fun hpast => absurd hpast (by simp [hr, ReaderPc.past])⟩

end SameText

/-! ## The reads behind a failed write -/

/-- Every read that a reader begins after `s`, before the next write succeeds,
goes as it would after `t`: after the same steps the reader is at the same
point, with the same bytes in its hands. -/
def LaterReadsAs (s t : State R) : Prop :=
  ∀ (r : R) (es fs : List (Event R)), (∀ e ∈ es, e.BetweenWrites) → (∀ e ∈ fs, e.BetweenWrites) →
    ∀ u v, (driver R).exec s es = some u → u.reader r = .idle → (driver R).exec u fs = some v →
      ∃ u' v', (driver R).exec t es = some u' ∧ u'.reader r = .idle ∧
        (driver R).exec u' fs = some v' ∧ v'.reader r = v.reader r

theorem SameText.laterReadsAs {s t : State R} (h : SameText (fun _ => False) s t) :
    LaterReadsAs s t := by
  intro r es fs hes hfs u v hu hidle hv
  obtain ⟨u', hu', hsame⟩ := h.run hes hu
  have hsame' := hsame.of_idle hidle
  obtain ⟨v', hv', hend⟩ := hsame'.run hfs hv
  exact ⟨u', v', hu', (hsame'.late r rfl).1.trans hidle, hv', (hend.late r rfl).1⟩

/-- Some reader shows the text while the flag is up. -/
theorem LaterReadsAs.str_eq {s t : State R} (h : LaterReadsAs s t) {r : R}
    (hr : s.reader r = .idle) (hflag : t.dataAvailable = s.dataAvailable)
    (havail : s.dataAvailable ≠ 0) : t.buffer.str = s.buffer.str := by
  have hrun := exec_copyOut hr havail bufferSize
  obtain ⟨t', v', ht', hidle, hv', hread⟩ := h r [] _ nofun
    (by simp [Event.BetweenWrites]) s _ rfl hr hrun
  cases ht'
  have hrun' := exec_copyOut hidle (hflag ▸ havail) bufferSize
  cases hrun'.symm.trans hv'
  have hdata : readData t.buffer bufferSize = readData s.buffer bufferSize := by
    have hcopied : (t.setReader r (.copied (readData t.buffer bufferSize))).reader r
        = (s.setReader r (.copied (readData s.buffer bufferSize))).reader r := hread
    rw [setReader_reader_self, setReader_reader_self] at hcopied
    exact ReaderPc.copied.inj hcopied
  have hall : ∀ buffer : CharArray bufferSize, readData buffer bufferSize = buffer.str.chars := by
    intro buffer
    rw [readData_eq]
    exact List.take_of_length_le buffer.strlen_le
  rw [hall, hall] at hdata
  exact CString.ext hdata

/-- **A write that fails**, in any state that the driver comes to: the reads
behind it go as without it exactly when no data is available or the bytes
that the call leaves are those that were there, up to the NUL. -/
theorem failed_write_laterReads_iff {s s' : State R} (hreach : (driver R).Reachable s)
    {buf : List UInt8} {k : Nat} (h : step s (.writeFault buf k) = some s')
    (hidle : ∃ r, s.reader r = .idle) :
    LaterReadsAs s' s ↔ s.dataAvailable = 0 ∨
      s.buffer.Unharmed buf (writeLen buf.length) k (s.buffer.str.strlen + 1) := by
  obtain ⟨hw, rfl⟩ := step_writeFault h
  have hstr : s.buffer.Unharmed buf (writeLen buf.length) k (s.buffer.str.strlen + 1) ↔
      (faultBuffer s.buffer buf k).str = s.buffer.str := by
    rw [CharArray.str_eq_iff (terminated_of_reachable hreach).strlen_lt,
      s.buffer.unharmed_iff_forall (writeLen_lt _).le (writeLen_le_length _), faultBuffer_eq]
  rw [hstr]
  constructor
  · intro hlater
    by_cases havail : s.dataAvailable = 0
    · exact .inl havail
    · obtain ⟨r, hr⟩ := hidle
      exact .inr (hlater.str_eq hr rfl havail).symm
  · intro hcond
    refine SameText.laterReadsAs ⟨rfl, ⟨hw, hw⟩, fun havail => ?_, fun r => .inl rfl, nofun⟩
    exact (hcond.resolve_left havail).symm

end KernelSpace.WaitingQueue
