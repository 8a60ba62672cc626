import KernelSpace.DmaMem2mem.Exclusive
import KernelSpace.Lib.Service

/-!
# DmaMem2mem — one call after another

The device (21a) as its calls see it when they do not overlap: a `dev_write` is
one function of the buffers and of what the kernel and the engine do for it
(`Env`), and so is a `dev_read`. The engine may have moved any number of bytes
when a transfer fails. `exec_devWrite` and `exec_devRead` say that these are
the calls of the device with its statements, where the engine moves all or
nothing.

A read sees the first `data_len` bytes of `dst_buf` and nothing else (`Same`).
A write that fails in `do_dma_transfer` has cleared them.
-/

namespace KernelSpace.DmaMem2mem.Sequential

open KernelSpace.Kernel KernelSpace.Lib

/-! ## The calls -/

structure Device where
  srcBuf : CharArray bufSize
  dstBuf : CharArray bufSize
  dataLen : Nat
deriving DecidableEq

/-- How the calls of a write come out: `copy_from_user` may fault behind `k`
bytes, the others succeed or fail. `moved` is what the engine has moved when
the wait ends. -/
structure Env where
  copyFault : Option Nat
  mapSrc : Bool
  mapDst : Bool
  prep : Bool
  submit : Bool
  moved : Nat
  inTime : Bool
  status : Bool

def doDmaTransfer (d : Device) (len : Nat) (env : Env) : Int × Device :=
  if env.mapSrc = false then (-ENOMEM, d)
  else if env.mapDst = false then (-ENOMEM, d)
  else if env.prep = false then (- Kernel.EIO, d)
  else if env.submit = false then (- Kernel.EIO, d)
  else
    let d := { d with dstBuf := d.dstBuf.store 0 (d.srcBuf.bytes.take (min env.moved len)) }
    if env.inTime = false then (-ETIMEDOUT, d)
    else if env.status = false then (- Kernel.EIO, d)
    else (0, d)

def devWrite (d : Device) (buf : List UInt8) (env : Env) : Reply × Device :=
  let len := writeLen buf.length
  match env.copyFault with
  | some k => (⟨-EFAULT, []⟩, { d with srcBuf := d.srcBuf.copyFault buf len k })
  | none =>
    let d := { d with srcBuf := d.srcBuf.store 0 (buf.take len) }
    let d := { d with dstBuf := .zero bufSize }
    let (ret, d) := doDmaTransfer d len env
    if ret ≠ 0 then (⟨ret, []⟩, d) else (⟨len, []⟩, { d with dataLen := len })

def devRead (d : Device) (off len : Nat) (fault : Bool) : Reply :=
  if off ≥ d.dataLen then ⟨0, []⟩
  else
    let avail := sizeT ((d.dataLen : Int) - off)
    let n := if len > avail then avail else len
    if fault then ⟨-EFAULT, []⟩ else ⟨n, (d.dstBuf.bytes.drop off).take n⟩

/-- A call with what happens to it. The offset of a read is that of its file,
which only its own reads move. -/
inductive Op where
  | write (buf : List UInt8) (env : Env)
  | read (off len : Nat) (fault : Bool)

def step (d : Device) : Op → Option (Reply × Device)
  | .write buf env => some (devWrite d buf env)
  | .read off len fault => some (devRead d off len fault, d)

/-- The device from its load on. -/
def service (srcBuf dstBuf : CharArray bufSize) : Service Device Op Reply :=
  ⟨⟨srcBuf, dstBuf, 0⟩, step⟩

/-- Nothing that a write needs fails. -/
def Env.Succeeds (env : Env) : Prop :=
  env.copyFault = none ∧ env.mapSrc = true ∧ env.mapDst = true ∧ env.prep = true ∧
    env.submit = true ∧ env.inTime = true ∧ env.status = true

def Op.Succeeds : Op → Prop
  | .write _ env => env.Succeeds
  | .read _ _ _ => False

/-- The bytes that the engine moves for a write of `len` bytes. -/
def Env.transferred (env : Env) (len : Nat) : Nat :=
  if env.mapSrc && env.mapDst && env.prep && env.submit then min env.moved len else 0

/-! ## The calls and the statements -/

section Statements

variable {T : Type*}

/-- The part of the state that the calls see. -/
def view (s : State T) : Device := ⟨s.srcBuf, s.dstBuf, s.dataLen⟩

/-- The calls that have returned, with their replies. -/
def record (s : State T) : List (Call × Reply) := s.history.map fun op => (op.call, op.reply)

/-- Thread `t` is back with the reply, the engine idle and the device at `d`. -/
structure Returned [DecidableEq T] (s : State T) (t : T) (call : Call) (answer : Reply × Device)
    (v : State T) : Prop where
  pc : v.pc = Function.update s.pc t .idle
  queue : v.queue = []
  view : view v = answer.2
  record : record v = record s ++ [(call, answer.1)]

/-- The end of `dev_write` behind `do_dma_transfer`. -/
def finish (len : Nat) (transfer : Int × Device) : Reply × Device :=
  if transfer.1 ≠ 0 then (⟨transfer.1, []⟩, transfer.2)
  else (⟨len, []⟩, { transfer.2 with dataLen := len })

variable [DecidableEq T] (srcBuf dstBuf : CharArray bufSize) {s : State T} {t : T}
  {buf : List UInt8}

/-- The statements up to the transfer. -/
theorem exec_enter (hpc : s.pc t = .idle) (buf : List UInt8) :
    ∃ v, (device T srcBuf dstBuf).exec s [.call t (.write buf), .next t .ok, .next t .ok] = some v ∧
      v.pc = Function.update s.pc t (.write buf .mapSrc) ∧ v.queue = s.queue ∧
      view v = ⟨s.srcBuf.store 0 (buf.take (writeLen buf.length)), .zero _, s.dataLen⟩ ∧
      record v = record s := by
  simp [Machine.exec, device, DmaMem2mem.step, DmaMem2mem.devWrite, State.enter, State.goto, hpc,
    view, record]

/-- The statements up to the wait. -/
theorem exec_issue (hpc : s.pc t = .write buf .mapSrc) (hqueue : s.queue = []) :
    ∃ v, (device T srcBuf dstBuf).exec s (List.replicate 6 (.next t .ok)) = some v ∧
      v.pc = Function.update s.pc t (.write buf (.wait s.cookies)) ∧
      v.queue = [⟨s.cookies, writeLen buf.length, true, false⟩] ∧ v.dmaDone = 0 ∧
      view v = view s ∧ record v = record s := by
  simp [List.replicate, Machine.exec, device, DmaMem2mem.step, DmaMem2mem.devWrite, State.goto, hpc,
    hqueue, view, record]

/-- A run that comes back, statement by statement, as a return. -/
theorem returned_of_exec {call : Call} {answer : Reply × Device} {es : List (Event T)}
    (hrun : ∃ v, (device T srcBuf dstBuf).exec s es = some v ∧
      v.pc = Function.update s.pc t .idle ∧ v.queue = [] ∧ view v = answer.2 ∧
      record v = record s ++ [(call, answer.1)]) :
    ∃ es v, (device T srcBuf dstBuf).exec s es = some v ∧ Returned s t call answer v := by
  obtain ⟨v, hexec, hpc, hqueue, hview, hrecord⟩ := hrun
  exact ⟨es, v, hexec, hpc, hqueue, hview, hrecord⟩

/-- The transfer fails with `ret`, and so does the write. -/
theorem returned_of_failed {env : Env} (d : Device) (ret : Int) (es : List (Event T))
    (hret : doDmaTransfer (view s) (writeLen buf.length) env = (ret, d)) (hne : ret ≠ 0)
    (hrun : ∃ v, (device T srcBuf dstBuf).exec s es = some v ∧
      v.pc = Function.update s.pc t .idle ∧ v.queue = [] ∧ view v = d ∧
      record v = record s ++ [(.write buf, ⟨ret, []⟩)]) :
    ∃ es v, (device T srcBuf dstBuf).exec s es = some v ∧
      Returned s t (.write buf)
        (finish (writeLen buf.length) (doDmaTransfer (view s) (writeLen buf.length) env)) v := by
  rw [hret, finish, if_pos hne]
  exact returned_of_exec srcBuf dstBuf hrun

/-- The label `err_unmap_src`: one statement is left. -/
theorem returned_of_unmapSrc {env : Env} (d : Device) (ret : Int) (es : List (Event T))
    (hret : doDmaTransfer (view s) (writeLen buf.length) env = (ret, d)) (hne : ret ≠ 0)
    (hrun : ∃ u, (device T srcBuf dstBuf).exec s es = some u ∧
      u.pc = Function.update s.pc t (.write buf (.unmapSrc ret)) ∧ u.queue = [] ∧ view u = d ∧
      record u = record s) :
    ∃ es v, (device T srcBuf dstBuf).exec s es = some v ∧
      Returned s t (.write buf)
        (finish (writeLen buf.length) (doDmaTransfer (view s) (writeLen buf.length) env)) v := by
  obtain ⟨u, hexec, hpc, hqueue, hview, hrecord⟩ := hrun
  have hu : u.pc t = .write buf (.unmapSrc ret) := by rw [hpc, Function.update_self]
  have hleave : (device T srcBuf dstBuf).step u (.next t .ok)
      = some (u.leave t (.write buf) ⟨ret, []⟩) := by
    simp [device, DmaMem2mem.step, DmaMem2mem.devWrite, hu, hne]
  refine returned_of_failed srcBuf dstBuf d ret (es ++ [.next t .ok]) hret hne
    ⟨u.leave t (.write buf) ⟨ret, []⟩, Machine.exec_concat_iff.mpr ⟨u, hexec, hleave⟩, ?_, hqueue,
      hview, ?_⟩
  · show Function.update u.pc t .idle = _
    rw [hpc, Function.update_idem]
  · rw [← hrecord]
    simp [record, State.leave, State.goto]

/-- The label `err_unmap_dst`: two statements are left. -/
theorem returned_of_unmapDst {env : Env} (d : Device) (ret : Int) (es : List (Event T))
    (hret : doDmaTransfer (view s) (writeLen buf.length) env = (ret, d)) (hne : ret ≠ 0)
    (hrun : ∃ u, (device T srcBuf dstBuf).exec s es = some u ∧
      u.pc = Function.update s.pc t (.write buf (.unmapDst ret)) ∧ u.queue = [] ∧ view u = d ∧
      record u = record s) :
    ∃ es v, (device T srcBuf dstBuf).exec s es = some v ∧
      Returned s t (.write buf)
        (finish (writeLen buf.length) (doDmaTransfer (view s) (writeLen buf.length) env)) v := by
  obtain ⟨u, hexec, hpc, hqueue, hview, hrecord⟩ := hrun
  have hu : u.pc t = .write buf (.unmapDst ret) := by rw [hpc, Function.update_self]
  have hunmap : (device T srcBuf dstBuf).step u (.next t .ok)
      = some (u.goto t (.write buf (.unmapSrc ret))) := by
    simp [device, DmaMem2mem.step, DmaMem2mem.devWrite, hu]
  refine returned_of_unmapSrc srcBuf dstBuf d ret (es ++ [.next t .ok]) hret hne
    ⟨u.goto t (.write buf (.unmapSrc ret)), Machine.exec_concat_iff.mpr ⟨u, hexec, hunmap⟩, ?_,
      hqueue, hview, hrecord⟩
  show Function.update u.pc t _ = _
  rw [hpc, Function.update_idem]

/-- What fails before the descriptor is submitted. -/
theorem exec_refused (hpc : s.pc t = .write buf .mapSrc) (hqueue : s.queue = []) {env : Env}
    (hrefused : env.mapSrc = false ∨ env.mapDst = false ∨ env.prep = false ∨ env.submit = false) :
    ∃ es v, (device T srcBuf dstBuf).exec s es = some v ∧
      Returned s t (.write buf)
        (finish (writeLen buf.length) (doDmaTransfer (view s) (writeLen buf.length) env)) v := by
  by_cases hmapSrc : env.mapSrc = false
  · refine returned_of_failed srcBuf dstBuf (view s) (-ENOMEM) [.next t (.fault 0)]
      (if_pos hmapSrc) (by decide) ?_
    simp [Machine.exec, device, DmaMem2mem.step, DmaMem2mem.devWrite, State.goto, State.leave, hpc,
      hqueue, view, record]
  by_cases hmapDst : env.mapDst = false
  · refine returned_of_unmapSrc srcBuf dstBuf (view s) (-ENOMEM)
      [.next t .ok, .next t (.fault 0)] ?_ (by decide) ?_
    · simp [doDmaTransfer, hmapSrc, hmapDst]
    · simp [Machine.exec, device, DmaMem2mem.step, DmaMem2mem.devWrite, State.goto, hpc, hqueue,
        view, record]
  by_cases hprep : env.prep = false
  · refine returned_of_unmapDst srcBuf dstBuf (view s) (- Kernel.EIO)
      [.next t .ok, .next t .ok, .next t (.fault 0)] ?_ (by decide) ?_
    · simp [doDmaTransfer, hmapSrc, hmapDst, hprep]
    · simp [Machine.exec, device, DmaMem2mem.step, DmaMem2mem.devWrite, State.goto, hpc, hqueue,
        view, record]
  have hsubmit : env.submit = false := by simpa [hmapSrc, hmapDst, hprep] using hrefused
  refine returned_of_unmapDst srcBuf dstBuf (view s) (- Kernel.EIO)
    [.next t .ok, .next t .ok, .next t .ok, .next t .ok, .next t (.fault 0)] ?_ (by decide) ?_
  · simp [doDmaTransfer, hmapSrc, hmapDst, hprep, hsubmit]
  · simp [Machine.exec, device, DmaMem2mem.step, DmaMem2mem.devWrite, State.goto, hpc, hqueue,
      view, record]

/-- How the wait may end. -/
theorem exec_waited {cookie : Nat} (hpc : s.pc t = .write buf (.wait cookie))
    (hqueue : s.queue = [⟨cookie, writeLen buf.length, true, false⟩]) (hdone : s.dmaDone = 0)
    {env : Env}
    (hissued : env.mapSrc = true ∧ env.mapDst = true ∧ env.prep = true ∧ env.submit = true)
    (hmoved : env.moved = 0 ∧ env.inTime = false ∨ writeLen buf.length ≤ env.moved) :
    ∃ es v, (device T srcBuf dstBuf).exec s es = some v ∧
      Returned s t (.write buf)
        (finish (writeLen buf.length) (doDmaTransfer (view s) (writeLen buf.length) env)) v := by
  obtain ⟨hmapSrc, hmapDst, hprep, hsubmit⟩ := hissued
  rcases hmoved with ⟨hmoved, hinTime⟩ | hmoved
  · refine returned_of_unmapDst srcBuf dstBuf (view s) (-ETIMEDOUT) [.timeout t] ?_ (by decide) ?_
    · simp [doDmaTransfer, hmapSrc, hmapDst, hprep, hsubmit, hmoved, hinTime]
    · simp [Machine.exec, device, DmaMem2mem.step, State.goto, hpc, hdone, view, record]
  have hmin : min env.moved (writeLen buf.length) = writeLen buf.length := Nat.min_eq_right hmoved
  let d : Device :=
    { view s with dstBuf := s.dstBuf.store 0 (s.srcBuf.bytes.take (writeLen buf.length)) }
  cases hinTime : env.inTime with
  | false =>
    refine returned_of_unmapDst srcBuf dstBuf d (-ETIMEDOUT) [.engineCopy, .timeout t] ?_
      (by decide) ?_
    · simp [doDmaTransfer, hmapSrc, hmapDst, hprep, hsubmit, hmin, hinTime, view, d]
    · simp [Machine.exec, device, DmaMem2mem.step, State.goto, hpc, hqueue, hdone, view, record, d]
  | true =>
    cases hstatus : env.status with
    | false =>
      refine returned_of_unmapDst srcBuf dstBuf d (- Kernel.EIO)
        [.engineCopy, .callback, .next t .ok, .next t (.fault 0)] ?_ (by decide) ?_
      · simp [doDmaTransfer, hmapSrc, hmapDst, hprep, hsubmit, hmin, hinTime, hstatus, view, d]
      · simp [Machine.exec, device, DmaMem2mem.step, DmaMem2mem.devWrite, State.goto, hpc, hqueue,
          hdone, view, record, d]
    | true =>
      have hret : doDmaTransfer (view s) (writeLen buf.length) env = (0, d) := by
        simp [doDmaTransfer, hmapSrc, hmapDst, hprep, hsubmit, hmin, hinTime, hstatus, view, d]
      have hrun : ∃ v, (device T srcBuf dstBuf).exec s
            ([.engineCopy, .callback] ++ List.replicate 5 (.next t .ok)) = some v ∧
          v.pc = Function.update s.pc t .idle ∧ v.queue = [] ∧
          view v = { d with dataLen := writeLen buf.length } ∧
          record v = record s ++ [(.write buf, ⟨writeLen buf.length, []⟩)] := by
        simp [List.replicate, Machine.exec, device, DmaMem2mem.step, DmaMem2mem.devWrite,
          State.goto, State.leave, hpc, hqueue, hdone, view, record, d]
      rw [hret, finish, if_neg (by simp)]
      exact returned_of_exec srcBuf dstBuf hrun

/-- **A write that nobody overlaps is `devWrite`**, where the engine moves all
of it, or nothing until the timer runs out. -/
theorem exec_devWrite (hpc : s.pc t = .idle) (hqueue : s.queue = []) (buf : List UInt8) {env : Env}
    (hmoved : env.moved = 0 ∧ env.inTime = false ∨ writeLen buf.length ≤ env.moved) :
    ∃ es v, (device T srcBuf dstBuf).exec s es = some v ∧
      Returned s t (.write buf) (devWrite (view s) buf env) v := by
  cases hfault : env.copyFault with
  | some k =>
    have hrun : ∃ v, (device T srcBuf dstBuf).exec s [.call t (.write buf), .next t (.fault k)]
          = some v ∧ v.pc = Function.update s.pc t .idle ∧ v.queue = [] ∧
        view v = (devWrite (view s) buf env).2 ∧
        record v = record s ++ [(.write buf, (devWrite (view s) buf env).1)] := by
      simp [Machine.exec, device, DmaMem2mem.step, DmaMem2mem.devWrite, State.enter, State.goto,
        State.leave, hpc, hqueue, view, record, devWrite, hfault, CharArray.copyFault]
    exact returned_of_exec srcBuf dstBuf hrun
  | none =>
    obtain ⟨u, henter, hupc, huqueue, huview, hurecord⟩ := exec_enter srcBuf dstBuf hpc buf
    have hu : u.pc t = .write buf .mapSrc := by rw [hupc, Function.update_self]
    have hanswer : devWrite (view s) buf env = finish (writeLen buf.length)
        (doDmaTransfer (view u) (writeLen buf.length) env) := by
      rw [huview, devWrite, hfault]
      rfl
    have htransfer : ∃ es v, (device T srcBuf dstBuf).exec u es = some v ∧
        Returned u t (.write buf)
          (finish (writeLen buf.length) (doDmaTransfer (view u) (writeLen buf.length) env)) v := by
      by_cases hrefused : env.mapSrc = false ∨ env.mapDst = false ∨ env.prep = false ∨
          env.submit = false
      · exact exec_refused srcBuf dstBuf hu (huqueue.trans hqueue) hrefused
      · obtain ⟨w, hissue, hwpc, hwqueue, hwdone, hwview, hwrecord⟩ :=
          exec_issue srcBuf dstBuf hu (huqueue.trans hqueue)
        have hw : w.pc t = .write buf (.wait u.cookies) := by rw [hwpc, Function.update_self]
        have hissued : env.mapSrc = true ∧ env.mapDst = true ∧ env.prep = true ∧
            env.submit = true := by simpa using hrefused
        obtain ⟨es, v, hwait, hreturned⟩ :=
          exec_waited srcBuf dstBuf hw hwqueue hwdone hissued hmoved
        refine ⟨_, v, Machine.exec_append_iff.mpr ⟨w, hissue, hwait⟩, ?_, hreturned.queue, ?_, ?_⟩
        · rw [hreturned.pc, hwpc, Function.update_idem]
        · rw [hreturned.view, hwview]
        · rw [hreturned.record, hwview, hwrecord]
    obtain ⟨es, v, hrun, hreturned⟩ := htransfer
    rw [hanswer]
    refine ⟨_, v, Machine.exec_append_iff.mpr ⟨u, henter, hrun⟩, ?_, hreturned.queue,
      hreturned.view, ?_⟩
    · rw [hreturned.pc, hupc, Function.update_idem]
    · rw [hreturned.record, hurecord]

/-- A read that nobody overlaps is `devRead`. -/
theorem exec_devRead (hpc : s.pc t = .idle) (hqueue : s.queue = []) (off len : Nat) (fault : Bool) :
    ∃ es v, (device T srcBuf dstBuf).exec s es = some v ∧
      Returned s t (.read off len) (devRead (view s) off len fault, view s) v := by
  by_cases hend : off ≥ s.dataLen
  · have hrun : ∃ v,
        (device T srcBuf dstBuf).exec s [.call t (.read off len), .next t .ok] = some v ∧
        v.pc = Function.update s.pc t .idle ∧ v.queue = [] ∧ view v = view s ∧
        record v = record s ++ [(.read off len, ⟨0, []⟩)] := by
      simp [Machine.exec, device, DmaMem2mem.step, DmaMem2mem.devRead, State.enter, State.goto,
        State.leave, hpc, hqueue, hend, view, record]
    have hdev : devRead (view s) off len fault = ⟨0, []⟩ := if_pos hend
    rw [hdev]
    exact returned_of_exec srcBuf dstBuf hrun
  · let o : Outcome := if fault then .fault 0 else .ok
    have hrun : ∃ v, (device T srcBuf dstBuf).exec s
          [.call t (.read off len), .next t .ok, .next t .ok, .next t o] = some v ∧
        v.pc = Function.update s.pc t .idle ∧ v.queue = [] ∧ view v = view s ∧
        record v = record s ++ [(.read off len, devRead (view s) off len fault)] := by
      have hoff : ¬ s.dataLen ≤ off := hend
      cases fault with
      | false =>
        simp [Machine.exec, device, DmaMem2mem.step, DmaMem2mem.devRead, State.enter, State.goto,
          State.leave, hpc, hqueue, hoff, view, record, devRead, o]
      | true =>
        simp [Machine.exec, device, DmaMem2mem.step, DmaMem2mem.devRead, State.enter, State.goto,
          State.leave, hpc, hqueue, hoff, view, record, devRead, o]
    exact returned_of_exec srcBuf dstBuf hrun

end Statements

/-! ## What a write does -/

theorem transferred_le (env : Env) (len : Nat) : env.transferred len ≤ len := by
  unfold Env.transferred
  split
  · exact Nat.min_le_right ..
  · exact Nat.zero_le _

/-- A transfer fills `dst_buf` from `src_buf`, as far as it comes. -/
theorem doDmaTransfer_dev (d : Device) (len : Nat) (env : Env) :
    (doDmaTransfer d len env).2 =
      { d with dstBuf := d.dstBuf.store 0 (d.srcBuf.bytes.take (env.transferred len)) } := by
  unfold doDmaTransfer Env.transferred
  cases env.mapSrc with
  | false => simp
  | true =>
    cases env.mapDst with
    | false => simp
    | true =>
      cases env.prep with
      | false => simp
      | true =>
        cases env.submit with
        | false => simp
        | true => cases env.inTime <;> cases env.status <;> simp

/-- What it returns is not up to the device. -/
theorem doDmaTransfer_ret (d d' : Device) (len : Nat) (env : Env) :
    (doDmaTransfer d len env).1 = (doDmaTransfer d' len env).1 := by
  unfold doDmaTransfer
  repeat' split
  all_goals rfl

/-- The transfer of a write fails exactly when the write does not succeed. -/
theorem doDmaTransfer_ret_cases (d : Device) (len : Nat) {env : Env}
    (hfault : env.copyFault = none) :
    (doDmaTransfer d len env).1 = 0 ∧ env.Succeeds ∨
      (doDmaTransfer d len env).1 < 0 ∧ ¬ env.Succeeds := by
  have hnomem : -ENOMEM < 0 := by decide
  have hio : - Kernel.EIO < 0 := by decide
  have htimedout : -ETIMEDOUT < 0 := by decide
  unfold doDmaTransfer Env.Succeeds
  split
  · rename_i hmapSrc
    exact .inr ⟨hnomem, by simp [hmapSrc]⟩
  split
  · rename_i hmapDst
    exact .inr ⟨hnomem, by simp [hmapDst]⟩
  split
  · rename_i hprep
    exact .inr ⟨hio, by simp [hprep]⟩
  split
  · rename_i hsubmit
    exact .inr ⟨hio, by simp [hsubmit]⟩
  split
  · rename_i hinTime
    exact .inr ⟨htimedout, by simp [hinTime]⟩
  split
  · rename_i hstatus
    exact .inr ⟨hio, by simp [hstatus]⟩
  · exact .inl ⟨rfl, by simp_all⟩

/-- `dst_buf` behind a write whose bytes have been copied in. -/
def cleared (buf : List UInt8) (env : Env) : CharArray bufSize :=
  (CharArray.zero bufSize).store 0 (buf.take (env.transferred (writeLen buf.length)))

theorem take_copied (a : CharArray bufSize) (buf : List UInt8) {n : Nat}
    (hn : n ≤ writeLen buf.length) :
    (a.store 0 (buf.take (writeLen buf.length))).bytes.take n = buf.take n := by
  have hholds : (a.store 0 (buf.take (writeLen buf.length))).bytes.take (writeLen buf.length)
      = buf.take (writeLen buf.length) := holds_store rfl
  rw [← Nat.min_eq_left hn, ← List.take_take, hholds, List.take_take]

/-- The device behind `copy_from_user` and `memset`. -/
def copied (d : Device) (buf : List UInt8) : Device :=
  ⟨d.srcBuf.store 0 (buf.take (writeLen buf.length)), .zero bufSize, d.dataLen⟩

theorem devWrite_eq (d : Device) (buf : List UInt8) {env : Env} (hfault : env.copyFault = none) :
    devWrite d buf env =
      finish (writeLen buf.length) (doDmaTransfer (copied d buf) (writeLen buf.length) env) := by
  rw [devWrite, hfault]
  rfl

theorem finish_reply (len : Nat) {x y : Int × Device} (h : x.1 = y.1) :
    (finish len x).1 = (finish len y).1 := by
  unfold finish
  rw [h]
  split <;> rfl

/-- What a write does to what reads see, when it has its bytes. -/
theorem devWrite_copied (d : Device) (buf : List UInt8) {env : Env}
    (hfault : env.copyFault = none) :
    (devWrite d buf env).2.dstBuf = cleared buf env ∧
      (env.Succeeds → (devWrite d buf env).1 = ⟨writeLen buf.length, []⟩ ∧
        (devWrite d buf env).2.dataLen = writeLen buf.length) ∧
      (¬ env.Succeeds → (devWrite d buf env).1.ret < 0 ∧
        (devWrite d buf env).2.dataLen = d.dataLen) := by
  have hdst : (doDmaTransfer (copied d buf) (writeLen buf.length) env).2.dstBuf
      = cleared buf env := by
    rw [doDmaTransfer_dev, cleared]
    show (CharArray.zero bufSize).store 0 ((copied d buf).srcBuf.bytes.take _) = _
    rw [copied, take_copied d.srcBuf buf (transferred_le env _)]
  have hlen : (doDmaTransfer (copied d buf) (writeLen buf.length) env).2.dataLen = d.dataLen := by
    rw [doDmaTransfer_dev, copied]
  rw [devWrite_eq d buf hfault, finish]
  rcases doDmaTransfer_ret_cases (copied d buf) (writeLen buf.length) hfault with
    ⟨hret, hsucc⟩ | ⟨hret, hfail⟩
  · rw [if_neg (not_not.mpr hret)]
    exact ⟨hdst, fun _ => ⟨rfl, rfl⟩, fun hfail => absurd hsucc hfail⟩
  · rw [if_pos (by omega)]
    exact ⟨hdst, fun hsucc => absurd hsucc hfail, fun _ => ⟨hret, hlen⟩⟩

/-! ## What reads see -/

/-- The devices hold the same message. -/
structure Same (d d' : Device) : Prop where
  len : d.dataLen = d'.dataLen
  fits : d.dataLen ≤ bufSize
  bytes : d.dstBuf.bytes.take d.dataLen = d'.dstBuf.bytes.take d.dataLen

/-- A read returns a piece of the message. -/
theorem devRead_eq {d : Device} (hfits : d.dataLen ≤ bufSize) (off len : Nat) (fault : Bool) :
    devRead d off len fault =
      if off ≥ d.dataLen then ⟨0, []⟩
      else if fault then ⟨-EFAULT, []⟩
      else ⟨(min len (d.dataLen - off) : Nat),
        ((d.dstBuf.bytes.take d.dataLen).drop off).take len⟩ := by
  unfold devRead
  split
  · rfl
  · rename_i hoff
    have hsmall : bufSize < 0x10000000000000000 := by decide
    have havail : sizeT ((d.dataLen : Int) - off) = d.dataLen - off :=
      sizeT_sub (Nat.le_of_not_ge hoff) (Nat.lt_of_le_of_lt hfits hsmall)
    have hn : (if len > d.dataLen - off then d.dataLen - off else len)
        = min len (d.dataLen - off) := by
      split <;> omega
    have hslice := slice_eq (d.dstBuf.bytes.take d.dataLen) d.dstBuf.bytes off len d.dataLen rfl
    simp only [havail, hn]
    rw [hslice]

theorem Same.devRead {d d' : Device} (h : Same d d') (off len : Nat) (fault : Bool) :
    devRead d off len fault = devRead d' off len fault := by
  rw [devRead_eq h.fits, devRead_eq (h.len ▸ h.fits), ← h.len, h.bytes]

theorem Same.devWrite {d d' : Device} (h : Same d d') (buf : List UInt8) (env : Env) :
    (devWrite d buf env).1 = (devWrite d' buf env).1 ∧
      Same (devWrite d buf env).2 (devWrite d' buf env).2 := by
  cases hfault : env.copyFault with
  | some k =>
    simp only [Sequential.devWrite, hfault]
    exact ⟨trivial, h.len, h.fits, h.bytes⟩
  | none =>
    obtain ⟨hdst, hsucc, hfail⟩ := devWrite_copied d buf hfault
    obtain ⟨hdst', hsucc', hfail'⟩ := devWrite_copied d' buf hfault
    refine ⟨?_, ?_, ?_, ?_⟩
    · rw [devWrite_eq d buf hfault, devWrite_eq d' buf hfault]
      exact finish_reply _ (doDmaTransfer_ret ..)
    · by_cases henv : env.Succeeds
      · rw [(hsucc henv).2, (hsucc' henv).2]
      · rw [(hfail henv).2, (hfail' henv).2, h.len]
    · by_cases henv : env.Succeeds
      · rw [(hsucc henv).2]
        exact writeLen_le _
      · rw [(hfail henv).2]
        exact h.fits
    · rw [hdst, hdst']

/-- Devices with the same message answer alike from then on. -/
theorem Same.run {d d' : Device} (h : Same d d') (srcBuf dstBuf : CharArray bufSize)
    (cs : List Op) : ((service srcBuf dstBuf).run d cs).map Prod.fst
      = ((service srcBuf dstBuf).run d' cs).map Prod.fst := by
  have hstep : ∀ u v c, Same u v → True → Service.Agree Same (step u c) (step v c) := by
    intro u v c huv _
    cases c with
    | write buf env =>
      obtain ⟨hreply, hsame⟩ := huv.devWrite buf env
      exact .some ⟨hreply, hsame⟩
    | read off len fault => exact .some ⟨huv.devRead off len fault, huv⟩
  exact Service.alike_of_rel hstep h cs fun _ _ => trivial

/-- `data_len` never exceeds the buffers. -/
theorem fits_of_run {srcBuf dstBuf : CharArray bufSize} {cs : List Op} {rs : List Reply}
    {d : Device} (h : (service srcBuf dstBuf).run (service srcBuf dstBuf).init cs = some (rs, d)) :
    d.dataLen ≤ bufSize := by
  refine Service.run_inv (I := fun d => d.dataLen ≤ bufSize) (P := fun _ => True)
    (fun u c r u' hu _ hs => ?_) (Nat.zero_le _) (fun _ _ => trivial) h
  have hsame : Same u u := ⟨rfl, hu, rfl⟩
  cases c with
  | write buf env =>
    have hnext := (hsame.devWrite buf env).2.fits
    have hanswer : devWrite u buf env = (r, u') := Option.some.inj hs
    rw [hanswer] at hnext
    exact hnext
  | read off len fault =>
    cases hs
    exact hu

/-! ## Writes that fail -/

/-- Byte `i` of `dst_buf` behind a write that failed in its transfer. -/
def leftover (buf : List UInt8) (env : Env) (i : Nat) : UInt8 :=
  if i < env.transferred (writeLen buf.length) then buf.getD i 0 else 0

theorem cleared_getElem? (buf : List UInt8) (env : Env) {i : Nat} (hi : i < bufSize) :
    (cleared buf env).bytes[i]? = some (leftover buf env i) := by
  have htransferred : env.transferred (writeLen buf.length) ≤ buf.length :=
    Nat.le_trans (transferred_le env _) (by rw [writeLen_eq]; exact Nat.min_le_left ..)
  have hlength : (buf.take (env.transferred (writeLen buf.length))).length
      = env.transferred (writeLen buf.length) := List.length_take_of_le htransferred
  have hle : 0 + (buf.take (env.transferred (writeLen buf.length))).length ≤ bufSize := by
    rw [hlength, Nat.zero_add]
    exact Nat.le_trans (transferred_le env _) (writeLen_le _)
  rw [cleared, CharArray.getElem?_store _ hle, leftover, hlength, Nat.zero_add, Nat.sub_zero]
  rcases Nat.lt_or_ge i (env.transferred (writeLen buf.length)) with hmoved | hbehind
  · have hin : i < buf.length := Nat.lt_of_lt_of_le hmoved htransferred
    rw [if_pos ⟨Nat.zero_le i, hmoved⟩, if_pos hmoved, List.getElem?_take_of_lt hmoved,
      List.getD_eq_getElem?_getD, List.getElem?_eq_getElem hin, Option.getD_some]
  · rw [if_neg (by omega), if_neg (by omega), CharArray.zero]
    exact List.getElem?_replicate_of_lt hi

/-- The message is what the failed write leaves in its place. -/
def Unharmed (d : Device) (buf : List UInt8) (env : Env) : Prop :=
  ∀ i < d.dataLen, d.dstBuf.bytes[i]? = some (leftover buf env i)

instance (d : Device) (buf : List UInt8) (env : Env) : Decidable (Unharmed d buf env) :=
  inferInstanceAs (Decidable (∀ i < d.dataLen, _))

theorem unharmed_iff {d : Device} (hfits : d.dataLen ≤ bufSize) {buf : List UInt8} {env : Env} :
    Unharmed d buf env ↔
      d.dstBuf.bytes.take d.dataLen = (cleared buf env).bytes.take d.dataLen := by
  rw [CharArray.take_eq_take_iff]
  refine forall₂_congr fun i hi => ?_
  rw [cleared_getElem? buf env (Nat.lt_of_lt_of_le hi hfits)]

/-- The device after the write and the device without it answer alike until a
write succeeds. -/
def Unnoticed (srcBuf dstBuf : CharArray bufSize) (d : Device) (buf : List UInt8) (env : Env) :
    Prop :=
  ∀ cs : List Op, (∀ c ∈ cs, ¬ c.Succeeds) →
    ((service srcBuf dstBuf).run (devWrite d buf env).2 cs).map Prod.fst
      = ((service srcBuf dstBuf).run d cs).map Prod.fst

/-- A read of the whole message tells the devices apart. -/
theorem Unnoticed.take_eq {srcBuf dstBuf : CharArray bufSize} {d : Device} {buf : List UInt8}
    {env : Env} (h : Unnoticed srcBuf dstBuf d buf env) (hfits : d.dataLen ≤ bufSize)
    (hlen : (devWrite d buf env).2.dataLen = d.dataLen) :
    d.dstBuf.bytes.take d.dataLen = (devWrite d buf env).2.dstBuf.bytes.take d.dataLen := by
  have hread := h [.read 0 d.dataLen false] (by simp [Op.Succeeds])
  simp only [Service.run, service, step, Option.bind_some, Option.map_some, Option.some.injEq,
    List.cons.injEq, and_true] at hread
  rw [devRead_eq hfits, devRead_eq (by rw [hlen]; exact hfits), hlen] at hread
  split at hread
  · rename_i hzero
    rw [Nat.le_zero.mp hzero, List.take_zero, List.take_zero]
  · have hdata := congrArg Reply.data hread
    simpa [List.take_take] using hdata.symm

/-- **When a failed write goes unnoticed**: exactly when its bytes could not be
copied in, or what it leaves in `dst_buf` is the message. -/
theorem failed_write_unnoticed_iff {srcBuf dstBuf : CharArray bufSize} {cs : List Op}
    {rs : List Reply} {d : Device}
    (hd : (service srcBuf dstBuf).run (service srcBuf dstBuf).init cs = some (rs, d))
    {buf : List UInt8} {env : Env} (hfail : (devWrite d buf env).1.ret < 0) :
    Unnoticed srcBuf dstBuf d buf env ↔ env.copyFault ≠ none ∨ Unharmed d buf env := by
  have hfits := fits_of_run hd
  by_cases hfault : env.copyFault = none
  · obtain ⟨hdst, hsucc, hkept⟩ := devWrite_copied d buf hfault
    have henv : ¬ env.Succeeds := by
      intro henv
      rw [(hsucc henv).1] at hfail
      exact absurd hfail (Int.not_lt.mpr (Int.natCast_nonneg _))
    have hlen := (hkept henv).2
    rw [or_iff_right (not_not.mpr hfault), unharmed_iff hfits, ← hdst]
    refine ⟨fun h => h.take_eq hfits hlen, fun h cs _ => ?_⟩
    have hsame : Same d (devWrite d buf env).2 := ⟨hlen.symm, hfits, h⟩
    exact (hsame.run srcBuf dstBuf cs).symm
  · refine iff_of_true (fun cs _ => ?_) (.inl hfault)
    obtain ⟨k, hk⟩ := Option.ne_none_iff_exists'.mp hfault
    have hsame : Same d (devWrite d buf env).2 := by
      simp only [devWrite, hk]
      exact ⟨rfl, hfits, rfl⟩
    exact (hsame.run srcBuf dstBuf cs).symm

/-- Nothing fails and the engine moves everything. -/
def Env.ok : Env := ⟨none, true, true, true, true, bufSize, true, true⟩

/-- The device that holds the message "A". -/
def holdsA : Device := (devWrite ⟨.zero _, .zero _, 0⟩ [65] .ok).2

theorem holdsA_run : (service (.zero _) (.zero _)).run (service (.zero _) (.zero _)).init
    [.write [65] .ok] = some ([⟨1, []⟩], holdsA) := rfl

/-- The same message again, and the engine reports an error behind it. -/
theorem failed_write_unnoticed_iff_same_message :
    Unnoticed (.zero _) (.zero _) holdsA [65] { Env.ok with status := false } :=
  (failed_write_unnoticed_iff holdsA_run (by decide)).mpr (.inr (by decide))

/-- A failed mapping of the source loses the message. -/
theorem failed_mapping_noticed :
    (devWrite holdsA [66] { Env.ok with mapSrc := false }).1 = ⟨-ENOMEM, []⟩ ∧
      ¬ Unnoticed (.zero _) (.zero _) holdsA [66] { Env.ok with mapSrc := false } := by
  refine ⟨by decide, fun h => ?_⟩
  have hread := h [.read 0 1 false] (by simp [Op.Succeeds])
  -- the byte 0 is returned for the stored one
  revert hread
  decide

end KernelSpace.DmaMem2mem.Sequential
