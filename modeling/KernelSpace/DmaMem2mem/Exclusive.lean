import KernelSpace.DmaMem2mem.Driver

/-!
# DmaMem2mem — writes that nobody overlaps

The purpose of the device is one message in an atomic cell (`atomicDevice`).
The driver has no lock for that: a `dev_write` clears `dst_buf` and fills it
while `data_len` is still the old length, so a read in the middle returns
what no sequential order explains (`overlappedRead`).

What the code does provide is stated for the runs in which no call overlaps a
`dev_write` (`ExclusiveWrites`) and the calls of the kernel succeed
(`Completes`). Then either one thread writes alone and its statement tells
what is in the buffers and on the engine (`Progress`), or the message is in
`dst_buf` and all that threads do is read it (`Reading`). In both modes the
returned calls, in the order of their returns, are a sequential history.
-/

namespace KernelSpace.DmaMem2mem

open KernelSpace.Kernel KernelSpace.Lib

variable {T : Type*}

/-! ## The atomic device -/

/-- A cell with one message: a write replaces it by the first `BUF_SIZE`
bytes written, a read returns the slice at its offset. -/
def atomicDevice : Object (List UInt8) Call Reply where
  init := []
  apply msg
    | .write buf => (⟨(buf.take bufSize).length, []⟩, buf.take bufSize)
    | .read off len => (⟨((msg.drop off).take len).length, (msg.drop off).take len⟩, msg)

/-- The message after the calls that have returned. -/
def State.message (s : State T) : List UInt8 := atomicDevice.after [] s.history

/-- The bytes that a call brings into the device. -/
def Call.bytes : Call → List UInt8
  | .write buf => buf
  | .read _ _ => []

/-- No byte comes out of the atomic device that no write brought in. -/
theorem not_mem_data_of_linearizable {ops : List (Operation Call Reply)} {b : UInt8}
    (h : atomicDevice.Linearizable ops) (hb : ∀ op ∈ ops, b ∉ op.call.bytes) :
    ∀ op ∈ ops, b ∉ op.reply.data := by
  obtain ⟨order, hperm, -, hlegal⟩ := h
  have hdata : ∀ op ∈ order, b ∉ op.reply.data := by
    refine Object.Legal.inv (I := fun msg => b ∉ msg) (fun msg op hop hmsg hreply => ?_)
      List.not_mem_nil hlegal
    have hbytes := hb op (hperm.subset hop)
    rw [hreply]
    cases hcall : op.call with
    | write buf =>
      rw [hcall] at hbytes
      exact ⟨fun hmem => hbytes (List.mem_of_mem_take hmem), List.not_mem_nil⟩
    | read off len =>
      exact ⟨hmsg, fun hmem => hmsg (List.mem_of_mem_drop (List.mem_of_mem_take hmem))⟩
  exact fun op hop => hdata op (hperm.symm.subset hop)

/-! ## The runs -/

/-- The calls of the kernel succeed, and the timer outlasts the engine. -/
def Completes (s : State T) : Event T → Prop
  | .next _ o => o = .ok
  | .timeout _ => s.queue = []
  | _ => True

def Pc.Writing : Pc → Prop
  | .write _ _ => True
  | _ => False

instance : (pc : Pc) → Decidable pc.Writing
  | .write _ _ => isTrue trivial
  | .idle | .read _ _ _ => isFalse id

/-- A write is entered when no call is in progress, a read when no write is. -/
def ExclusiveWrites (s : State T) : Event T → Prop
  | .call _ (.write _) => ∀ u, s.pc u = .idle
  | .call _ (.read _ _) => ∀ u, ¬ (s.pc u).Writing
  | _ => True

instance (s : State T) : (e : Event T) → Decidable (Completes s e)
  | .next _ o => inferInstanceAs (Decidable (o = .ok))
  | .timeout _ => inferInstanceAs (Decidable (s.queue = []))
  | .call _ _ | .engineCopy | .callback => isTrue trivial

instance {n : Nat} (s : State (Fin n)) : (e : Event (Fin n)) → Decidable (ExclusiveWrites s e)
  | .call _ (.write _) => inferInstanceAs (Decidable (∀ u, s.pc u = .idle))
  | .call _ (.read _ _) => inferInstanceAs (Decidable (∀ u, ¬ (s.pc u).Writing))
  | .next _ _ | .timeout _ | .engineCopy | .callback => isTrue trivial

/-! ## The invariant -/

/-- The bytes a write has to bring to `dst_buf` are in the first bytes of a
buffer. -/
def Holds (a : CharArray bufSize) (buf : List UInt8) : Prop :=
  a.bytes.take (writeLen buf.length) = buf.take (writeLen buf.length)

/-- What a lone write has done when it comes to a statement. -/
def Progress (s : State T) (buf : List UInt8) : WritePc → Prop
  | .copyFromUser => s.queue = []
  | .memset | .mapSrc | .mapDst | .prep | .reinit => s.queue = [] ∧ Holds s.srcBuf buf
  | .submit => s.queue = [] ∧ Holds s.srcBuf buf ∧ s.dmaDone = 0
  | .issue cookie =>
    s.queue = [⟨cookie, writeLen buf.length, false, false⟩] ∧ Holds s.srcBuf buf ∧ s.dmaDone = 0
  | .wait cookie =>
    (s.queue = [⟨cookie, writeLen buf.length, true, false⟩] ∧ Holds s.srcBuf buf ∧
        s.dmaDone = 0) ∨
      (s.queue = [⟨cookie, writeLen buf.length, true, true⟩] ∧ Holds s.dstBuf buf ∧
        s.dmaDone = 0) ∨
      (s.queue = [] ∧ Holds s.dstBuf buf ∧ s.dmaDone = 1)
  | .status _ | .setLen => s.queue = [] ∧ Holds s.dstBuf buf
  | .unmapDst ret | .unmapSrc ret => s.queue = [] ∧ Holds s.dstBuf buf ∧ ret = 0

/-- What a read knows about its lengths. -/
def Clipped (dataLen : Nat) : Pc → Prop
  | .idle => True
  | .write _ _ => False
  | .read _ _ .check => True
  | .read off _ .clip => off < dataLen
  | .read off len (.copyToUser n) => off < dataLen ∧ n = min len (dataLen - off)

/-- No write is in progress and the message is in `dst_buf`. -/
structure Reading (s : State T) : Prop where
  clipped : ∀ t, Clipped s.dataLen (s.pc t)
  queue : s.queue = []
  fits : s.dataLen ≤ bufSize
  stored : s.dstBuf.bytes.take s.dataLen = s.message

/-- One thread writes and everyone else is outside. -/
structure Writing (s : State T) (t : T) (buf : List UInt8) (pc : WritePc) : Prop where
  at_pc : s.pc t = .write buf pc
  alone : ∀ u, u ≠ t → s.pc u = .idle
  progress : Progress s buf pc

/-- The returned calls, in the order of their returns, are what the atomic
device does. -/
structure Recorded (s : State T) : Prop where
  timed : Timed s.history s.clock
  entered : ∀ t, s.pc t ≠ .idle → s.since t ≤ s.clock
  legal : atomicDevice.Legal [] s.history

structure Inv (s : State T) : Prop where
  recorded : Recorded s
  mode : Reading s ∨ ∃ t buf pc, Writing s t buf pc

theorem inv_init (srcBuf dstBuf : CharArray bufSize) : Inv (State.init T srcBuf dstBuf) where
  recorded := ⟨.nil 0, fun _ h => absurd rfl h, trivial⟩
  mode := .inl ⟨fun _ => trivial, rfl, Nat.zero_le _, rfl⟩

/-! ## Lengths and slices -/

theorem writeLen_eq (len : Nat) : writeLen len = min len bufSize := by
  unfold writeLen
  split <;> omega

theorem take_writeLen (buf : List UInt8) : buf.take (writeLen buf.length) = buf.take bufSize := by
  rw [writeLen_eq, Nat.min_comm, ← List.take_take, List.take_length]

theorem length_take_writeLen (buf : List UInt8) :
    (buf.take (writeLen buf.length)).length = writeLen buf.length := by
  rw [List.length_take, writeLen_eq]
  omega

theorem writeLen_le (len : Nat) : writeLen len ≤ bufSize := by
  rw [writeLen_eq]
  exact Nat.min_le_right ..

/-- A buffer holds what was stored at its start. -/
theorem holds_store {a : CharArray bufSize} {buf bs : List UInt8}
    (hbs : bs = buf.take (writeLen buf.length)) : Holds (a.store 0 bs) buf := by
  have hlen : bs.length = writeLen buf.length := by
    rw [hbs]
    exact length_take_writeLen buf
  have hle := writeLen_le buf.length
  rw [Holds, CharArray.store_bytes a (by omega), List.take_zero, List.nil_append,
    List.take_append_of_le_length (by omega), ← hlen, List.take_length, hlen]
  exact hbs

/-- The bytes of a cut read are the slice of the message. -/
theorem slice_eq (msg bytes : List UInt8) (off len dataLen : Nat)
    (hmsg : bytes.take dataLen = msg) :
    (msg.drop off).take len = (bytes.drop off).take (min len (dataLen - off)) := by
  rw [← hmsg, List.drop_take, List.take_take]

/-! ## The records -/

section Records

variable [DecidableEq T]

/-- A thread that stays inside leaves the records alone. -/
theorem Recorded.goto {s s' : State T} (h : Recorded s) {t : T} {pc : Pc}
    (hbusy : s.pc t ≠ .idle) (hpc : s'.pc = Function.update s.pc t pc)
    (hclock : s'.clock = s.clock) (hsince : s'.since = s.since)
    (hhistory : s'.history = s.history) : Recorded s' := by
  refine ⟨?_, fun u hu => ?_, ?_⟩
  · rw [hhistory, hclock]
    exact h.timed
  · rw [hsince, hclock]
    by_cases hut : u = t
    · rw [hut]
      exact h.entered t hbusy
    · rw [hpc, Function.update_of_ne hut] at hu
      exact h.entered u hu
  · rw [hhistory]
    exact h.legal

theorem Recorded.enter {s : State T} (h : Recorded s) (t : T) (pc : Pc) :
    Recorded (s.enter t pc) := by
  refine ⟨h.timed.succ, fun u hu => ?_, h.legal⟩
  show Function.update s.since t s.clock u ≤ s.clock + 1
  by_cases hut : u = t
  · rw [hut, Function.update_self]
    exact Nat.le_succ _
  · have hbusy : s.pc u ≠ .idle := by
      rw [← Function.update_of_ne hut pc s.pc]
      exact hu
    rw [Function.update_of_ne hut]
    exact Nat.le_succ_of_le (h.entered u hbusy)

/-- A thread returns the reply of the atomic device. -/
theorem Recorded.leave {s : State T} (h : Recorded s) {t : T} (hbusy : s.pc t ≠ .idle)
    {call : Call} {reply : Reply} (hreply : reply = (atomicDevice.apply s.message call).1) :
    Recorded (s.leave t call reply) := by
  refine ⟨h.timed.concat (h.entered t hbusy) rfl, fun u hu => ?_, ?_⟩
  · by_cases hut : u = t
    · subst hut
      exact absurd (Function.update_self ..) hu
    · have hold : s.pc u ≠ .idle := by
        rw [← Function.update_of_ne hut .idle s.pc]
        exact hu
      exact Nat.le_succ_of_le (h.entered u hold)
  · exact (atomicDevice.legal_concat_iff).mpr ⟨h.legal, hreply⟩

theorem message_leave (s : State T) (t : T) (call : Call) (reply : Reply) :
    (s.leave t call reply).message = (atomicDevice.apply s.message call).2 :=
  atomicDevice.after_concat [] s.history _

end Records

/-! ## What the modes say -/

theorem Writing.busy {s : State T} {t : T} {buf : List UInt8} {pc : WritePc}
    (h : Writing s t buf pc) : s.pc t ≠ .idle := by
  rw [h.at_pc]
  exact nofun

/-- Nothing that a lone write is waiting for goes wrong. -/
theorem Writing.no_timeout {s : State T} {t : T} {buf : List UInt8} {cookie : Nat}
    (h : Writing s t buf (.wait cookie)) (hqueue : s.queue = []) : s.dmaDone ≠ 0 := by
  rcases h.progress with ⟨hbusy, -, -⟩ | ⟨hbusy, -, -⟩ | ⟨-, -, hdone⟩
  · rw [hqueue] at hbusy
    cases hbusy
  · rw [hqueue] at hbusy
    cases hbusy
  · rw [hdone]
    decide

/-- The engine has a descriptor under way only for a write that waits. -/
theorem Writing.wait_of_issued {s : State T} {t : T} {buf : List UInt8} {pc : WritePc}
    (h : Writing s t buf pc) {tx : Descriptor} {rest : List Descriptor}
    (hqueue : s.queue = tx :: rest) (hissued : tx.issued = true ∨ tx.copied = true) :
    ∃ cookie, pc = .wait cookie := by
  have hprogress := h.progress
  cases pc with
  | wait cookie => exact ⟨cookie, rfl⟩
  | issue cookie =>
    have hnew := hqueue.symm.trans hprogress.1
    cases hnew
    simp at hissued
  | copyFromUser => cases hqueue.symm.trans hprogress
  | memset | mapSrc | mapDst | prep | reinit | submit | status | unmapDst | unmapSrc | setLen =>
    cases hqueue.symm.trans hprogress.1

theorem Reading.not_write {s : State T} (h : Reading s) {t : T} {buf : List UInt8} {pc : WritePc} :
    s.pc t ≠ .write buf pc := by
  intro hpc
  have hclipped := h.clipped t
  rw [hpc] at hclipped
  exact hclipped

/-- The length of the message is `data_len`. -/
theorem Reading.length_message {s : State T} (h : Reading s) : s.message.length = s.dataLen := by
  have hsize := s.dstBuf.size
  have hfits := h.fits
  rw [← h.stored, List.length_take]
  omega

/-- A read that has found its `n` returns the slice of the message. -/
theorem Reading.reply {s : State T} (h : Reading s) {off len n : Nat}
    (hn : n = min len (s.dataLen - off)) :
    (⟨n, (s.dstBuf.bytes.drop off).take n⟩ : Reply)
      = (atomicDevice.apply s.message (.read off len)).1 := by
  show _ = (⟨((s.message.drop off).take len).length, (s.message.drop off).take len⟩ : Reply)
  have hlength := h.length_message
  rw [List.length_take, List.length_drop, hlength, ← hn,
    slice_eq s.message s.dstBuf.bytes off len s.dataLen h.stored, ← hn]

/-- A returned write has accepted what fits. -/
theorem Recorded.write_ret {s : State T} (h : Recorded s) :
    ∀ op ∈ s.history, ∀ buf, op.call = .write buf → op.reply.ret = (buf.take bufSize).length := by
  refine Object.Legal.inv (I := fun _ => True) (fun msg op _ _ hreply => ⟨trivial, ?_⟩) trivial
    h.legal
  intro buf hcall
  rw [hreply, hcall]
  rfl

variable [DecidableEq T]

/-! ## A lone write -/

/-- The write moves on to `pc'`. -/
theorem Writing.goto {s s' : State T} {t : T} {buf : List UInt8} {pc pc' : WritePc}
    (h : Writing s t buf pc) (hrec : Recorded s)
    (hpc : s'.pc = Function.update s.pc t (.write buf pc')) (hclock : s'.clock = s.clock)
    (hsince : s'.since = s.since) (hhistory : s'.history = s.history)
    (hprogress : Progress s' buf pc') : Inv s' := by
  refine ⟨hrec.goto h.busy hpc hclock hsince hhistory, .inr ⟨t, buf, pc', ?_, ?_, hprogress⟩⟩
  · rw [hpc, Function.update_self]
  · intro u hu
    rw [hpc, Function.update_of_ne hu]
    exact h.alone u hu

/-- The write returns. -/
theorem Writing.setLen {s : State T} {t : T} {buf : List UInt8} (h : Writing s t buf .setLen)
    (hrec : Recorded s) :
    Inv { s.leave t (.write buf) ⟨writeLen buf.length, []⟩ with dataLen := writeLen buf.length } := by
  obtain ⟨hqueue, hdst⟩ := h.progress
  have hreply : (⟨writeLen buf.length, []⟩ : Reply)
      = (atomicDevice.apply s.message (.write buf)).1 := by
    show _ = (⟨(buf.take bufSize).length, []⟩ : Reply)
    rw [← take_writeLen, length_take_writeLen]
  have hleave := hrec.leave h.busy hreply
  refine ⟨⟨hleave.timed, hleave.entered, hleave.legal⟩, .inl ⟨fun u => ?_, hqueue, writeLen_le _, ?_⟩⟩
  · have hidle : (s.leave t (.write buf) ⟨writeLen buf.length, []⟩).pc u = .idle := by
      by_cases hut : u = t
      · subst hut
        exact Function.update_self ..
      · exact (Function.update_of_ne hut ..).trans (h.alone u hut)
    show Clipped _ ((s.leave t (.write buf) ⟨writeLen buf.length, []⟩).pc u)
    rw [hidle]
    trivial
  · show s.dstBuf.bytes.take (writeLen buf.length) = (s.leave t (.write buf) _).message
    rw [message_leave, hdst, take_writeLen]
    rfl

theorem Writing.next {s s' : State T} {t : T} {buf : List UInt8} {pc : WritePc}
    (h : Writing s t buf pc) (hrec : Recorded s) (hs : devWrite s t buf .ok pc = some s') :
    Inv s' := by
  have hprogress := h.progress
  cases pc with
  | copyFromUser =>
    cases hs
    exact h.goto hrec rfl rfl rfl rfl ⟨hprogress, holds_store rfl⟩
  | memset =>
    cases hs
    exact h.goto hrec rfl rfl rfl rfl hprogress
  | mapSrc =>
    cases hs
    exact h.goto hrec rfl rfl rfl rfl hprogress
  | mapDst =>
    cases hs
    exact h.goto hrec rfl rfl rfl rfl hprogress
  | prep =>
    cases hs
    exact h.goto hrec rfl rfl rfl rfl hprogress
  | reinit =>
    cases hs
    exact h.goto hrec rfl rfl rfl rfl ⟨hprogress.1, hprogress.2, rfl⟩
  | submit =>
    cases hs
    obtain ⟨hqueue, hsrc, hdone⟩ := hprogress
    refine h.goto hrec rfl rfl rfl rfl ⟨?_, hsrc, hdone⟩
    show s.queue ++ [_] = _
    rw [hqueue]
    rfl
  | issue cookie =>
    cases hs
    obtain ⟨hqueue, hsrc, hdone⟩ := hprogress
    refine h.goto hrec rfl rfl rfl rfl (.inl ⟨?_, hsrc, hdone⟩)
    show s.queue.map _ = _
    rw [hqueue]
    rfl
  | wait cookie =>
    obtain ⟨hdone, hs⟩ := Option.ite_none_right_eq_some.mp hs
    cases hs
    -- the completion can only be the callback of this write's own descriptor
    rcases hprogress with ⟨-, -, hzero⟩ | ⟨-, -, hzero⟩ | ⟨hqueue, hdst, -⟩
    · exact absurd hzero (Nat.ne_of_gt hdone)
    · exact absurd hzero (Nat.ne_of_gt hdone)
    · exact h.goto hrec rfl rfl rfl rfl ⟨hqueue, hdst⟩
  | status cookie =>
    obtain ⟨hqueue, hdst⟩ := hprogress
    have hcomplete : cookie ∉ s.queue.map Descriptor.cookie := by
      rw [hqueue]
      exact List.not_mem_nil
    rw [devWrite, if_pos ⟨rfl, hcomplete⟩] at hs
    cases hs
    exact h.goto hrec rfl rfl rfl rfl ⟨hqueue, hdst, rfl⟩
  | unmapDst ret =>
    cases hs
    exact h.goto hrec rfl rfl rfl rfl hprogress
  | unmapSrc ret =>
    obtain ⟨hqueue, hdst, hret⟩ := hprogress
    rw [devWrite, if_pos hret] at hs
    cases hs
    exact h.goto hrec rfl rfl rfl rfl ⟨hqueue, hdst⟩
  | setLen =>
    cases hs
    exact h.setLen hrec

/-! ## The engine -/

theorem Writing.engine {s s' : State T} {t : T} {buf : List UInt8} {cookie : Nat}
    (h : Writing s t buf (.wait cookie)) (hrec : Recorded s) (hpc : s'.pc = s.pc)
    (hclock : s'.clock = s.clock) (hsince : s'.since = s.since)
    (hhistory : s'.history = s.history) (hprogress : Progress s' buf (.wait cookie)) : Inv s' := by
  refine h.goto hrec ?_ hclock hsince hhistory hprogress
  rw [hpc, ← h.at_pc, Function.update_eq_self]

theorem Inv.engineCopy {s s' : State T} (h : Inv s) (hs : step s .engineCopy = some s') :
    Inv s' := by
  cases hqueue : s.queue with
  | nil => simp [step, hqueue] at hs
  | cons tx rest =>
    simp only [step, hqueue] at hs
    obtain ⟨⟨hissued, hcopied⟩, hs⟩ := Option.ite_none_right_eq_some.mp hs
    cases hs
    rcases h.mode with hread | ⟨t, buf, pc, hwrite⟩
    · cases hqueue.symm.trans hread.queue
    · obtain ⟨cookie, rfl⟩ := hwrite.wait_of_issued hqueue (.inl hissued)
      rcases hwrite.progress with ⟨hq, hsrc, hdone⟩ | ⟨hq, -, -⟩ | ⟨hq, -, -⟩
      · cases hqueue.symm.trans hq
        exact hwrite.engine h.recorded rfl rfl rfl rfl (.inr (.inl ⟨rfl, holds_store hsrc, hdone⟩))
      · cases hqueue.symm.trans hq
        cases hcopied
      · cases hqueue.symm.trans hq

theorem Inv.callback {s s' : State T} (h : Inv s) (hs : step s .callback = some s') :
    Inv s' := by
  cases hqueue : s.queue with
  | nil => simp [step, hqueue] at hs
  | cons tx rest =>
    simp only [step, hqueue] at hs
    obtain ⟨hcopied, hs⟩ := Option.ite_none_right_eq_some.mp hs
    cases hs
    rcases h.mode with hread | ⟨t, buf, pc, hwrite⟩
    · cases hqueue.symm.trans hread.queue
    · obtain ⟨cookie, rfl⟩ := hwrite.wait_of_issued hqueue (.inr hcopied)
      rcases hwrite.progress with ⟨hq, -, -⟩ | ⟨hq, hdst, hdone⟩ | ⟨hq, -, -⟩
      · cases hqueue.symm.trans hq
        cases hcopied
      · cases hqueue.symm.trans hq
        refine hwrite.engine h.recorded rfl rfl rfl rfl (.inr (.inr ⟨rfl, hdst, ?_⟩))
        show s.dmaDone + 1 = 1
        rw [hdone]
      · cases hqueue.symm.trans hq

/-! ## Reads -/

/-- A thread of a state that is being read moves, and knows its lengths. -/
theorem Reading.goto {s s' : State T} (h : Reading s) {t : T} {pc : Pc}
    (hpc : s'.pc = Function.update s.pc t pc) (hclipped : Clipped s.dataLen pc)
    (hlen : s'.dataLen = s.dataLen) (hqueue : s'.queue = s.queue) (hdst : s'.dstBuf = s.dstBuf)
    (hmessage : s'.message = s.message) : Reading s' := by
  refine ⟨fun u => ?_, hqueue.trans h.queue, hlen ▸ h.fits, ?_⟩
  · rw [hpc, hlen]
    by_cases hut : u = t
    · rw [hut, Function.update_self]
      exact hclipped
    · rw [Function.update_of_ne hut]
      exact h.clipped u
  · rw [hdst, hlen, hmessage]
    exact h.stored

theorem Reading.leave {s : State T} (h : Reading s) (hrec : Recorded s) {t : T} {off len : Nat}
    {pc : ReadPc} (hpc : s.pc t = .read off len pc) {reply : Reply}
    (hreply : reply = (atomicDevice.apply s.message (.read off len)).1) :
    Inv (s.leave t (.read off len) reply) := by
  have hbusy : s.pc t ≠ .idle := by
    rw [hpc]
    exact nofun
  exact ⟨hrec.leave hbusy hreply,
    .inl (h.goto (t := t) rfl trivial rfl rfl rfl (message_leave ..))⟩

theorem Reading.next {s : State T} (h : Reading s) (hrec : Recorded s) {t : T} {off len : Nat}
    {pc : ReadPc} (hpc : s.pc t = .read off len pc) : Inv (devRead s t off len .ok pc) := by
  have hbusy : s.pc t ≠ .idle := by
    rw [hpc]
    exact nofun
  have hclipped := h.clipped t
  rw [hpc] at hclipped
  cases pc with
  | check =>
    rw [devRead]
    split
    · rename_i hend
      refine h.leave hrec hpc ?_
      show _ = (⟨((s.message.drop off).take len).length, (s.message.drop off).take len⟩ : Reply)
      rw [List.drop_eq_nil_of_le (by rw [h.length_message]; exact hend), List.take_nil]
      rfl
    · rename_i hoff
      exact ⟨hrec.goto hbusy rfl rfl rfl rfl,
        .inl (h.goto rfl (Nat.lt_of_not_ge hoff) rfl rfl rfl rfl)⟩
  | clip =>
    refine ⟨hrec.goto hbusy rfl rfl rfl rfl, .inl (h.goto rfl ⟨hclipped, ?_⟩ rfl rfl rfl rfl)⟩
    have hsmall : bufSize < 0x10000000000000000 := by decide
    rw [sizeT_sub (Nat.le_of_lt hclipped) (Nat.lt_of_le_of_lt h.fits hsmall)]
    split <;> omega
  | copyToUser n =>
    rw [devRead, if_pos rfl]
    exact h.leave hrec hpc (h.reply hclipped.2)

/-! ## Runs -/

theorem Inv.call {s s' : State T} {t : T} {c : Call} (h : Inv s)
    (hexcl : ExclusiveWrites s (.call t c)) (hs : step s (.call t c) = some s') : Inv s' := by
  cases c with
  | write buf =>
    obtain ⟨-, hs⟩ := Option.ite_none_right_eq_some.mp hs
    cases hs
    rcases h.mode with hread | ⟨u, buf', pc, hwrite⟩
    · refine ⟨h.recorded.enter t _, .inr ⟨t, buf, .copyFromUser, ?_, ?_, hread.queue⟩⟩
      · exact Function.update_self ..
      · intro u hu
        exact (Function.update_of_ne hu ..).trans (hexcl u)
    · exact absurd (hexcl u) hwrite.busy
  | read off len =>
    obtain ⟨-, hs⟩ := Option.ite_none_right_eq_some.mp hs
    cases hs
    rcases h.mode with hread | ⟨u, buf', pc, hwrite⟩
    · exact ⟨h.recorded.enter t _, .inl (hread.goto (t := t) rfl trivial rfl rfl rfl rfl)⟩
    · have hfree := hexcl u
      rw [hwrite.at_pc] at hfree
      exact absurd trivial hfree

theorem Inv.statement {s s' : State T} {t : T} (h : Inv s) (hs : step s (.next t .ok) = some s') :
    Inv s' := by
  cases hpc : s.pc t with
  | idle => simp [step, hpc] at hs
  | write buf pc =>
    simp only [step, hpc] at hs
    rcases h.mode with hread | ⟨u, buf', pc', hwrite⟩
    · exact absurd hpc hread.not_write
    · by_cases hut : t = u
      · subst hut
        cases hwrite.at_pc.symm.trans hpc
        exact hwrite.next h.recorded hs
      · cases (hwrite.alone t hut).symm.trans hpc
  | read off len pc =>
    simp only [step, hpc] at hs
    cases hs
    rcases h.mode with hread | ⟨u, buf', pc', hwrite⟩
    · exact hread.next h.recorded hpc
    · by_cases hut : t = u
      · subst hut
        cases hwrite.at_pc.symm.trans hpc
      · cases (hwrite.alone t hut).symm.trans hpc

/-- When the engine has completed everything, the timer does not run out. -/
theorem Inv.no_timeout {s s' : State T} {t : T} (h : Inv s) (hqueue : s.queue = []) :
    step s (.timeout t) ≠ some s' := by
  intro hs
  simp only [step] at hs
  split at hs
  · rename_i buf cookie hpc
    obtain ⟨hdone, -⟩ := Option.ite_none_right_eq_some.mp hs
    rcases h.mode with hread | ⟨u, buf', pc', hwrite⟩
    · exact hread.not_write hpc
    · by_cases hut : t = u
      · subst hut
        cases hwrite.at_pc.symm.trans hpc
        exact hwrite.no_timeout hqueue hdone
      · cases (hwrite.alone t hut).symm.trans hpc
  · cases hs

theorem Inv.next {s s' : State T} {e : Event T} (h : Inv s)
    (he : Completes s e ∧ ExclusiveWrites s e) (hs : step s e = some s') : Inv s' := by
  obtain ⟨hcompletes, hexcl⟩ := he
  cases e with
  | call t c => exact h.call hexcl hs
  | next t o =>
    cases hcompletes
    exact h.statement hs
  | timeout t => exact absurd hs (h.no_timeout hcompletes)
  | engineCopy => exact h.engineCopy hs
  | callback => exact h.callback hs

/-- **Exclusive writes make the device atomic.** When no call overlaps a
`dev_write`, the calls of the kernel succeed and the engine completes what was
submitted, every write returns the count it accepted, the calls are
linearizable, and no write waits for a completion that is not to come. -/
theorem exclusive_writes_linearizable (srcBuf dstBuf : CharArray bufSize) {es : List (Event T)}
    {s : State T} (h : (device T srcBuf dstBuf).Reaches es s)
    (hc : (device T srcBuf dstBuf).Along (fun s e => Completes s e ∧ ExclusiveWrites s e)
      (.init T srcBuf dstBuf) es) :
    (∀ op ∈ s.history, ∀ buf, op.call = .write buf → op.reply.ret = (buf.take bufSize).length) ∧
      atomicDevice.Linearizable s.history ∧
      ∀ t buf cookie, s.pc t = .write buf (.wait cookie) → 0 < s.dmaDone ∨ s.queue ≠ [] := by
  have hinv : Inv s := Machine.exec_inv (fun _ _ _ => Inv.next) (inv_init srcBuf dstBuf) hc h
  refine ⟨hinv.recorded.write_ret, hinv.recorded.timed.linearizable hinv.recorded.legal,
    fun t buf cookie hpc => ?_⟩
  rcases hinv.mode with hread | ⟨u, buf', pc', hwrite⟩
  · exact absurd hpc hread.not_write
  · by_cases hut : t = u
    · subst hut
      cases hwrite.at_pc.symm.trans hpc
      by_cases hqueue : s.queue = []
      · exact .inl (Nat.pos_of_ne_zero (hwrite.no_timeout hqueue))
      · exact .inr hqueue
    · cases (hwrite.alone t hut).symm.trans hpc

/-- A write by thread 0 that nothing comes in between. -/
def loneWrite (buf : List UInt8) : List (Event (Fin 2)) :=
  .call 0 (.write buf) :: List.replicate 8 (.next 0 .ok) ++ [.engineCopy, .callback] ++
    List.replicate 5 (.next 0 .ok)

def loneRead (off len : Nat) : List (Event (Fin 2)) :=
  .call 1 (.read off len) :: List.replicate 3 (.next 1 .ok)

/-- The read comes when the second write has cleared `dst_buf`. -/
def overlappedRead : List (Event (Fin 2)) :=
  loneWrite [65] ++ (loneWrite [66]).take 3 ++ loneRead 0 1 ++ (loneWrite [66]).drop 3

theorem lone_run : ((device (Fin 2) (.zero _) (.zero _)).exec (.init _ (.zero _) (.zero _))
    (loneWrite [65] ++ loneRead 0 1)).isSome := by decide

theorem overlappedRead_run : ((device (Fin 2) (.zero _) (.zero _)).exec
    (.init _ (.zero _) (.zero _)) overlappedRead).isSome := by decide

theorem exclusive_writes_linearizable_one_each :
    atomicDevice.Linearizable
      (((device (Fin 2) (.zero _) (.zero _)).exec (.init _ (.zero _) (.zero _))
        (loneWrite [65] ++ loneRead 0 1)).get lone_run).history :=
  (exclusive_writes_linearizable (.zero _) (.zero _) (Option.some_get lone_run).symm
    (by decide)).2.1

theorem overlapped_read_not_linearizable :
    ¬ ∀ es s, (device (Fin 2) (.zero _) (.zero _)).Reaches es s →
      (device (Fin 2) (.zero _) (.zero _)).Along Completes (.init _ (.zero _) (.zero _)) es →
      (∀ op ∈ s.history, ∀ buf, op.call = .write buf → 0 ≤ op.reply.ret) ∧
        atomicDevice.Linearizable s.history := by
  intro h
  obtain ⟨-, hlin⟩ := h overlappedRead _ (Option.some_get overlappedRead_run).symm (by decide)
  -- the read has returned a byte 0, and none was written
  have hzero := not_mem_data_of_linearizable (b := 0) hlin (by decide)
  revert hzero
  decide

end KernelSpace.DmaMem2mem
