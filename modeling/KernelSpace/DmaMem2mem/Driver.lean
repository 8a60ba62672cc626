import Mathlib.Logic.Function.Basic
import KernelSpace.Kernel.CString
import KernelSpace.Kernel.CTypes
import KernelSpace.Kernel.Errno
import KernelSpace.Lib.Linearizability
import KernelSpace.Lib.Machine

/-!
# DmaMem2mem — the character device on a DMA engine (21a)

`21a.DMAengine_mem2mem/dma_mem2mem.c`, called by any number of threads `T`.
`src_buf`, `dst_buf`, `data_len` and the completion `dma_done` are shared and
no lock is taken, so a step is one statement of `dev_write`,
`do_dma_transfer` or `dev_read` that reads or writes one of them, or one call
of the DMA API that may fail (`Outcome`).

The engine takes the issued descriptors in order: `engineCopy` moves exactly
`len` bytes from `src_buf` to `dst_buf`, `callback` runs `dma_callback` and
retires the descriptor. `timeout` is the end of the five seconds of
`wait_for_completion_timeout`.

`clock`, `since` and `history` are records that no step reads: the calls and
returns so far, the time at which each thread entered its call, the calls
that have returned.
-/

namespace KernelSpace.DmaMem2mem

open KernelSpace.Kernel KernelSpace.Lib

/-- `BUF_SIZE`. -/
def bufSize : Nat := 4096

/-- A call from user space: the bytes written, or the file offset and the
length of a read. -/
inductive Call where
  | write (buf : List UInt8)
  | read (off len : Nat)
deriving DecidableEq

/-- The return value and, for a read, the bytes copied to the user. -/
structure Reply where
  ret : Int
  data : List UInt8
deriving DecidableEq

/-- The statement of `dev_write` and `do_dma_transfer` that comes next. -/
inductive WritePc where
  | copyFromUser
  | memset
  | mapSrc
  | mapDst
  | prep
  | reinit
  | submit
  | issue (cookie : Nat)
  | wait (cookie : Nat)
  | status (cookie : Nat)
  | unmapDst (ret : Int)
  | unmapSrc (ret : Int)
  | setLen
deriving DecidableEq

/-- The statement of `dev_read` that comes next; `n` is the cut length. -/
inductive ReadPc where
  | check
  | clip
  | copyToUser (n : Nat)
deriving DecidableEq

inductive Pc where
  | idle
  | write (buf : List UInt8) (pc : WritePc)
  | read (off len : Nat) (pc : ReadPc)
deriving DecidableEq

/-- `copied` is the engine's progress. -/
structure Descriptor where
  cookie : Nat
  len : Nat
  issued : Bool
  copied : Bool
deriving DecidableEq

structure State (T : Type*) where
  srcBuf : CharArray bufSize
  dstBuf : CharArray bufSize
  dataLen : Nat
  dmaDone : Nat
  queue : List Descriptor
  cookies : Nat
  pc : T → Pc
  clock : Nat
  since : T → Nat
  history : List (Operation Call Reply)

/-- The module as loaded; `kmalloc` does not clear the buffers. -/
def State.init (T : Type*) (srcBuf dstBuf : CharArray bufSize) : State T where
  srcBuf := srcBuf
  dstBuf := dstBuf
  dataLen := 0
  dmaDone := 0
  queue := []
  cookies := 0
  pc := fun _ => .idle
  clock := 0
  since := fun _ => 0
  history := []

/-- How a call that may fail came out; a user copy faults behind `k` bytes. -/
inductive Outcome where
  | ok
  | fault (k : Nat)
deriving DecidableEq

inductive Event (T : Type*) where
  | call (t : T) (c : Call)
  | next (t : T) (o : Outcome)
  | timeout (t : T)
  | engineCopy
  | callback

/-! ## The functions -/

/-- `if (len > BUF_SIZE) len = BUF_SIZE;` -/
def writeLen (len : Nat) : Nat := if len > bufSize then bufSize else len

variable {T : Type*} [DecidableEq T]

def State.goto (s : State T) (t : T) (pc : Pc) : State T :=
  { s with pc := Function.update s.pc t pc }

/-- A thread enters the driver. -/
def State.enter (s : State T) (t : T) (pc : Pc) : State T :=
  { s.goto t pc with since := Function.update s.since t s.clock, clock := s.clock + 1 }

/-- A thread returns to user space. -/
def State.leave (s : State T) (t : T) (call : Call) (reply : Reply) : State T :=
  { s.goto t .idle with
    history := s.history ++ [⟨call, reply, s.since t, s.clock⟩], clock := s.clock + 1 }

/-- The next statement of a `dev_write`. -/
def devWrite (s : State T) (t : T) (buf : List UInt8) (o : Outcome) : WritePc → Option (State T)
  | .copyFromUser =>
    let len := writeLen buf.length
    match o with
    | .ok => some { s.goto t (.write buf .memset) with srcBuf := s.srcBuf.store 0 (buf.take len) }
    | .fault k =>
      let part := (buf.take len).take k ++ List.replicate (len - k) 0
      some { s.leave t (.write buf) ⟨-EFAULT, []⟩ with srcBuf := s.srcBuf.store 0 part }
  | .memset => some { s.goto t (.write buf .mapSrc) with dstBuf := .zero bufSize }
  | .mapSrc =>
    if o = .ok then some (s.goto t (.write buf .mapDst))
    else some (s.leave t (.write buf) ⟨-ENOMEM, []⟩)
  | .mapDst =>
    if o = .ok then some (s.goto t (.write buf .prep))
    else some (s.goto t (.write buf (.unmapSrc (-ENOMEM))))
  | .prep =>
    if o = .ok then some (s.goto t (.write buf .reinit))
    else some (s.goto t (.write buf (.unmapDst (- Kernel.EIO))))
  | .reinit => some { s.goto t (.write buf .submit) with dmaDone := 0 }
  | .submit =>
    if o = .ok then
      some { s.goto t (.write buf (.issue s.cookies)) with
        queue := s.queue ++ [⟨s.cookies, writeLen buf.length, false, false⟩]
        cookies := s.cookies + 1 }
    else some (s.goto t (.write buf (.unmapDst (- Kernel.EIO))))
  | .issue cookie =>
    some { s.goto t (.write buf (.wait cookie)) with
      queue := s.queue.map fun tx => { tx with issued := true } }
  | .wait cookie =>
    if 0 < s.dmaDone then
      some { s.goto t (.write buf (.status cookie)) with dmaDone := s.dmaDone - 1 }
    else none
  | .status cookie =>
    -- a descriptor that is still in the queue is DMA_IN_PROGRESS
    if o = .ok ∧ cookie ∉ s.queue.map Descriptor.cookie then
      some (s.goto t (.write buf (.unmapDst 0)))
    else some (s.goto t (.write buf (.unmapDst (- Kernel.EIO))))
  | .unmapDst ret => some (s.goto t (.write buf (.unmapSrc ret)))
  | .unmapSrc ret =>
    if ret = 0 then some (s.goto t (.write buf .setLen))
    else some (s.leave t (.write buf) ⟨ret, []⟩)
  | .setLen =>
    let len := writeLen buf.length
    some { s.leave t (.write buf) ⟨len, []⟩ with dataLen := len }

/-- The next statement of a `dev_read`. -/
def devRead (s : State T) (t : T) (off len : Nat) (o : Outcome) : ReadPc → State T
  | .check =>
    if off ≥ s.dataLen then s.leave t (.read off len) ⟨0, []⟩
    else s.goto t (.read off len .clip)
  | .clip =>
    let avail := sizeT ((s.dataLen : Int) - off)
    s.goto t (.read off len (.copyToUser (if len > avail then avail else len)))
  | .copyToUser n =>
    if o = .ok then s.leave t (.read off len) ⟨n, (s.dstBuf.bytes.drop off).take n⟩
    else s.leave t (.read off len) ⟨-EFAULT, []⟩

def step (s : State T) : Event T → Option (State T)
  | .call t (.write buf) =>
    if s.pc t = .idle then some (s.enter t (.write buf .copyFromUser)) else none
  | .call t (.read off len) =>
    if s.pc t = .idle then some (s.enter t (.read off len .check)) else none
  | .next t o =>
    match s.pc t with
    | .idle => none
    | .write buf pc => devWrite s t buf o pc
    | .read off len pc => some (devRead s t off len o pc)
  | .timeout t =>
    match s.pc t with
    | .write buf (.wait _) =>
      -- dmaengine_terminate_sync drops what the channel still has
      if s.dmaDone = 0 then some { s.goto t (.write buf (.unmapDst (-ETIMEDOUT))) with queue := [] }
      else none
    | _ => none
  | .engineCopy =>
    match s.queue with
    | [] => none
    | tx :: rest =>
      if tx.issued = true ∧ tx.copied = false then
        some { s with
          dstBuf := s.dstBuf.store 0 (s.srcBuf.bytes.take tx.len)
          queue := { tx with copied := true } :: rest }
      else none
  | .callback =>
    match s.queue with
    | [] => none
    | tx :: rest =>
      if tx.copied = true then some { s with dmaDone := s.dmaDone + 1, queue := rest } else none

/-- The device, called by the threads `T`. -/
def device (T : Type*) [DecidableEq T] (srcBuf dstBuf : CharArray bufSize) :
    Machine (State T) (Event T) := ⟨.init T srcBuf dstBuf, step⟩

end KernelSpace.DmaMem2mem
