import KernelSpace.RingBuffer.Basic

/-!
# RingBuffer — the shared ring (27c)

`27c.Shared_ring_buffer_bw_modules/Shared_ring_buffer_Module-A.c`: the ring
that one module exports to others, called by one thread at a time.

The purpose of the module, stated without indices or slots, is a bounded FIFO
queue of strings (`Fifo`). `call_simulates` is the one-step simulation along
the abstraction `queue`, `run_simulates` its lift to sequences of calls.
-/

namespace KernelSpace.SharedRing

open KernelSpace.Kernel KernelSpace.Lib KernelSpace.RingBuffer

def maxPacketSize : Nat := 64
def ringSize : Nat := 8

/-! ## The functions -/

abbrev Ring27c := Slots maxPacketSize ringSize

def moduleAInit : Ring27c := zeroed maxPacketSize ringSize (by decide)

def ringPush (ring : Ring27c) (msg : CString) : Int × Ring27c := pushSlot ring msg

/-- `msg` is the caller's buffer. -/
def ringPop (ring : Ring27c) (msg : CharArray maxPacketSize) :
    Int × CharArray maxPacketSize × Ring27c :=
  if ring.head = ring.tail then (-ENOENT, msg, ring)
  else (0, popSlot ring msg)

/-! ## Calls and what the caller sees of them -/

inductive Call where
  | push (msg : CString)
  | pop (buf : CharArray maxPacketSize)

/-- The return code and, for a `ring_pop` that succeeded, the string in the
caller's buffer. -/
structure Reply where
  ret : Int
  msg : Option CString
deriving DecidableEq

def call (ring : Ring27c) : Call → Reply × Ring27c
  | .push msg =>
    let (ret, ring') := ringPush ring msg
    (⟨ret, none⟩, ring')
  | .pop buf =>
    let (ret, buf', ring') := ringPop ring buf
    (⟨ret, if ret = 0 then some buf'.str else none⟩, ring')

/-- The calls of `cs` in order: their replies and the ring they leave. -/
def run (ring : Ring27c) : List Call → List Reply × Ring27c
  | [] => ([], ring)
  | c :: cs =>
    let (reply, ring') := call ring c
    let (replies, ring'') := run ring' cs
    (reply :: replies, ring'')

/-! ## The abstract queue -/

namespace Fifo

/-- A FIFO queue of at most `RING_SIZE - 1` strings, each of at most
`MAX_PACKET_SIZE - 1` bytes. -/
def call (queue : List CString) : Call → Reply × List CString
  | .push msg =>
    if queue.length = ringSize - 1 then (⟨-ENOSPC, none⟩, queue)
    else (⟨0, none⟩, queue ++ [msg.take (maxPacketSize - 1)])
  | .pop _ =>
    match queue with
    | [] => (⟨-ENOENT, none⟩, [])
    | oldest :: rest => (⟨0, some oldest⟩, rest)

def run (queue : List CString) : List Call → List Reply × List CString
  | [] => ([], queue)
  | c :: cs =>
    let (reply, queue') := call queue c
    let (replies, queue'') := run queue' cs
    (reply :: replies, queue'')

end Fifo

/-! ## The simulation -/

theorem ringPop_empty {ring : Ring27c} (h : queue ring = [])
    (buf : CharArray maxPacketSize) : ringPop ring buf = (-ENOENT, buf, ring) :=
  if_pos ((queue_eq_nil_iff ring).mp h)

theorem ringPop_cons {ring : Ring27c} (hp : Packed ring) {oldest : CString}
    {rest : List CString} (h : queue ring = oldest :: rest) (buf : CharArray maxPacketSize) :
    ∃ buf' ring', ringPop ring buf = (0, buf', ring') ∧ buf'.str = oldest ∧
      queue ring' = rest ∧ Packed ring' := by
  have hne : ring.head ≠ ring.tail := by
    intro hc
    rw [(queue_eq_nil_iff ring).mpr hc] at h
    cases h
  obtain ⟨hhead, htail⟩ := List.cons.inj ((queue_eq_cons hne buf).symm.trans h)
  exact ⟨(popSlot ring buf).1, (popSlot ring buf).2, if_neg hne,
    (popSlot_str (by decide) hp hne buf).trans hhead, htail, packed_popSlot hp hne buf⟩

/-- **One call** of the ring is one call of the queue, with the same reply. -/
theorem call_simulates {ring : Ring27c} (hp : Packed ring) (c : Call) :
    (call ring c).1 = (Fifo.call (queue ring) c).1 ∧
      queue (call ring c).2 = (Fifo.call (queue ring) c).2 ∧ Packed (call ring c).2 := by
  cases c with
  | push msg =>
    by_cases hfull : (queue ring).length = ringSize - 1
    · simp [call, Fifo.call, ringPush, pushSlot_full hfull, hfull, hp]
    · have hpush : ringPush ring msg = _ := pushSlot_room hfull msg
      refine ⟨by simp [call, Fifo.call, hpush, hfull], ?_, ?_⟩
      · simpa [call, Fifo.call, hpush, hfull] using queue_enqueue (by decide) hfull msg
      · simpa [call, hpush] using packed_enqueue (by decide) hp hfull msg
  | pop buf =>
    cases hq : queue ring with
    | nil => simp [call, Fifo.call, ringPop_empty hq, hq, hp, ENOENT]
    | cons oldest rest =>
      obtain ⟨buf', ring', hpop, hstr, hq', hp'⟩ := ringPop_cons hp hq buf
      exact ⟨by simp [call, Fifo.call, hpop, hstr], by simp [call, Fifo.call, hpop, hq'],
        by simpa [call, hpop] using hp'⟩

/-- **A sequence of calls** is the same sequence of calls of the queue. -/
theorem run_simulates {ring : Ring27c} (hp : Packed ring) (cs : List Call) :
    (run ring cs).1 = (Fifo.run (queue ring) cs).1 ∧
      queue (run ring cs).2 = (Fifo.run (queue ring) cs).2 ∧ Packed (run ring cs).2 := by
  induction cs generalizing ring with
  | nil => exact ⟨rfl, rfl, hp⟩
  | cons c cs ih =>
    obtain ⟨hreply, hqueue, hpacked⟩ := call_simulates hp c
    obtain ⟨hreplies, hfinal, hpfinal⟩ := ih hpacked
    refine ⟨?_, ?_, hpfinal⟩
    · show (call ring c).1 :: (run (call ring c).2 cs).1 = _
      rw [hreply, hreplies, hqueue]
      rfl
    · show queue (run (call ring c).2 cs).2 = _
      rw [hfinal, hqueue]
      rfl

/-- A push is refused, without a change, exactly when the queue is full. -/
theorem ringPush_refused_iff (ring : Ring27c) (msg : CString) :
    ringPush ring msg = (-ENOSPC, ring) ↔ (queue ring).length = ringSize - 1 := by
  refine ⟨fun h => ?_, fun h => pushSlot_full h msg⟩
  by_contra hroom
  have hret : (ringPush ring msg).1 = 0 := (pushSlot_ret_iff ring msg).mpr hroom
  rw [h] at hret
  exact absurd hret (show -ENOSPC ≠ 0 by decide)

/-- A pop is refused, without a change, exactly when the queue is empty. -/
theorem ringPop_refused_iff (ring : Ring27c) (buf : CharArray maxPacketSize) :
    ringPop ring buf = (-ENOENT, buf, ring) ↔ queue ring = [] := by
  refine ⟨fun h => ?_, fun h => ringPop_empty h buf⟩
  rw [queue_eq_nil_iff]
  by_contra hne
  rw [ringPop, if_neg hne] at h
  have hret : (0 : Int) = -ENOENT := congrArg Prod.fst h
  exact absurd hret (by decide)

/-- **The ring is a FIFO queue.** From the zeroed ring, any sequence of calls
gets the replies of the abstract queue; and in the state it leaves, a push is
refused without a change exactly when `RING_SIZE - 1` strings are queued, a
pop exactly when none is. -/
theorem ring_is_fifo (cs : List Call) :
    (run moduleAInit cs).1 = (Fifo.run [] cs).1 ∧
      (∀ msg, ringPush (run moduleAInit cs).2 msg = (-ENOSPC, (run moduleAInit cs).2) ↔
        (Fifo.run [] cs).2.length = ringSize - 1) ∧
      (∀ msg, (Fifo.run [] cs).2.length ≠ ringSize - 1 →
        (ringPush (run moduleAInit cs).2 msg).1 = 0) ∧
      (∀ buf, ringPop (run moduleAInit cs).2 buf = (-ENOENT, buf, (run moduleAInit cs).2) ↔
        (Fifo.run [] cs).2 = []) ∧
      ∀ buf oldest rest, (Fifo.run [] cs).2 = oldest :: rest →
        (ringPop (run moduleAInit cs).2 buf).1 = 0 ∧
          (ringPop (run moduleAInit cs).2 buf).2.1.str = oldest := by
  obtain ⟨hreplies, hqueue, hpacked⟩ :=
    run_simulates (show Packed moduleAInit from packed_zeroed (by decide)) cs
  rw [show queue moduleAInit = [] from queue_zeroed (by decide)] at hreplies hqueue
  rw [← hqueue]
  refine ⟨hreplies, ringPush_refused_iff _, fun msg h => (pushSlot_ret_iff _ msg).mpr h,
    ringPop_refused_iff _, fun buf oldest rest h => ?_⟩
  obtain ⟨buf', ring', hpop, hstr, -, -⟩ := ringPop_cons hpacked h buf
  rw [hpop]
  exact ⟨rfl, hstr⟩

/-- Eight pushes and two pops: the eighth push finds the ring full. -/
example : ((run moduleAInit (List.replicate 8 (.push (.lit "Packet A")) ++
    List.replicate 2 (.pop (.zero maxPacketSize)))).1.map Reply.ret)
      = [0, 0, 0, 0, 0, 0, 0, -28, 0, 0] := by decide

end KernelSpace.SharedRing
