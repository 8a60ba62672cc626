import KernelSpace.Kernel.CTypes
import KernelSpace.Lib.Provider
import KernelSpace.RingBuffer.Shared

/-!
# InterModule — a module that another one calls (27a, 27b, 27c)

In each of the three, Module A exports what it has and Module B calls it from its
init function; B needs the symbols of A, so A stays while B is there.

* 27a — a counter, which B increments three times;
* 27b — a buffer, whose text B prints, replaces and prints again;
* 27c — a ring, into which B pushes three packets before it pops until there is
  nothing left.

What B prints at its `k`th load since A's is known (`modules_heard`): 27a goes on
counting, 27b shows the first load another text than the later ones, and 27c has
the same three packets each time. Other modules may have used the ring before; then B
gets what they left, and of its own packets those that fit.
-/

namespace KernelSpace.InterModule

open KernelSpace.Kernel KernelSpace.Lib

/-! ## The counter -/

namespace Counter

/-- The lines of a load of B. -/
inductive Line where
  /-- `Module A : counter=%d` -/
  | incremented (counter : Int)
  /-- `Counter = %d` -/
  | counted (counter : Int)
deriving DecidableEq

/-- `increment_counter`, with its line. -/
def incrementCounter (sharedCounter : Int) : Line × Int :=
  let sharedCounter := int32 (sharedCounter + 1)
  (.incremented sharedCounter, sharedCounter)

def moduleBInit (sharedCounter : Int) : List Line × Int :=
  let (first, sharedCounter) := incrementCounter sharedCounter
  let (second, sharedCounter) := incrementCounter sharedCounter
  let (third, sharedCounter) := incrementCounter sharedCounter
  ([first, second, third, .counted sharedCounter], sharedCounter)

def modules : Provider.Pair Int (List Line) := ⟨0, moduleBInit⟩

/-- What B prints at its load after `k` others. -/
def heard (k : Nat) : List Line :=
  [.incremented (int32 (3 * k + 1)), .incremented (int32 (3 * k + 2)),
    .incremented (int32 (3 * k + 3)), .counted (int32 (3 * k + 3))]

theorem int32_add (x y : Int) : int32 (int32 x + y) = int32 (x + y) := Int.bmod_add_bmod

theorem moduleBInit_spec (k : Nat) (c : Int) (hc : c = int32 (3 * k)) :
    (moduleBInit c).1 = heard k ∧ (moduleBInit c).2 = int32 (3 * (k + 1 : Nat)) := by
  rw [hc]
  have htwo : (3 * k + 1 + 1 : Int) = 3 * k + 2 := by omega
  have hthree : (3 * k + 2 + 1 : Int) = 3 * k + 3 := by omega
  have hnext : (3 * (k + 1 : Nat) : Int) = 3 * k + 3 := by omega
  simp only [moduleBInit, incrementCounter, int32_add, htwo, hthree, hnext, heard]
  exact ⟨trivial, trivial⟩

end Counter

/-! ## The buffer -/

namespace SharedBuffer

def BUFFER_SIZE : Nat := 256

def hello : CString := .lit "Hello from Module A"
def modified : CString := .lit "Modified by Module B"

/-- `module_a_init`: `kzalloc`, and `strcpy` of the text. -/
def moduleAInit : CharArray BUFFER_SIZE := (CharArray.zero BUFFER_SIZE).store 0 hello.mem

/-- The texts behind `Original` and `Modified`. -/
structure Lines where
  original : CString
  modified : CString
deriving DecidableEq

/-- `snprintf` cuts like `strscpy`. -/
def moduleBInit (buf : CharArray BUFFER_SIZE) : Lines × CharArray BUFFER_SIZE :=
  let buf' := buf.strscpy modified
  (⟨buf.str, buf'.str⟩, buf')

def modules : Provider.Pair (CharArray BUFFER_SIZE) Lines := ⟨moduleAInit, moduleBInit⟩

/-- What the buffer says after `k` loads of B. -/
def text (k : Nat) : CString := if k = 0 then hello else modified

theorem moduleBInit_spec (k : Nat) (buf : CharArray BUFFER_SIZE) (h : buf.str = text k) :
    (moduleBInit buf).1 = ⟨text k, modified⟩ ∧ (moduleBInit buf).2.str = text (k + 1) := by
  have hstr : (buf.strscpy modified).str = modified := by
    rw [CharArray.str_strscpy _ _ (by decide)]
    exact CString.take_of_length_le (by decide)
  rw [moduleBInit, hstr, h]
  exact ⟨rfl, by rw [text, if_neg (Nat.succ_ne_zero k)]⟩

theorem str_moduleAInit : moduleAInit.str = text 0 :=
  CharArray.str_store_mem _ (by decide)

end SharedBuffer

/-! ## The ring -/

namespace RingModules

open SharedRing RingBuffer

/-- `while (!ring_pop(buf))`, and the strings that it prints. -/
def receive (ring : Ring27c) (buf : CharArray maxPacketSize) : List CString × Ring27c :=
  let popped := ringPop ring buf
  if _hret : popped.1 = 0 then
    let (rest, ring') := receive popped.2.2 popped.2.1
    (popped.2.1.str :: rest, ring')
  else ([], ring)
termination_by (queue ring).length
decreasing_by
  have hret : (ringPop ring buf).1 = 0 := _hret
  have hne : ring.head ≠ ring.tail := by
    intro hempty
    rw [ringPop, if_pos hempty] at hret
    exact absurd hret (by decide : ¬ (-ENOENT : Int) = 0)
  rw [ringPop, if_neg hne, queue_eq_cons hne buf]
  exact Nat.lt_succ_self _

def packetA : CString := .lit "Packet A"
def packetB : CString := .lit "Packet B"
def packetC : CString := .lit "Packet C"

/-- `buf` is not initialised. -/
def moduleBInit (buf : CharArray maxPacketSize) (ring : Ring27c) : List CString × Ring27c :=
  let (_, ring) := ringPush ring packetA
  let (_, ring) := ringPush ring packetB
  let (_, ring) := ringPush ring packetC
  receive ring buf

def modules (buf : CharArray maxPacketSize) : Provider.Pair Ring27c (List CString) :=
  ⟨moduleAInit, moduleBInit buf⟩

/-- What the loop prints is what the ring holds, and then it is empty. -/
theorem receive_spec (stored : List CString) :
    ∀ {ring : Ring27c}, Packed ring → queue ring = stored → ∀ buf,
      (receive ring buf).1 = stored ∧ queue (receive ring buf).2 = [] ∧
        Packed (receive ring buf).2 := by
  induction stored with
  | nil =>
    intro ring hp hq buf
    have hne : ¬ (ringPop ring buf).1 = 0 := by
      rw [ringPop_empty hq]
      exact (by decide : ¬ (-ENOENT : Int) = 0)
    rw [receive, dif_neg hne]
    exact ⟨rfl, hq, hp⟩
  | cons oldest rest ih =>
    intro ring hp hq buf
    obtain ⟨buf', ring', hpop, hstr, hq', hp'⟩ := ringPop_cons hp hq buf
    obtain ⟨hrest, hempty, hpacked⟩ := ih hp' hq' buf'
    rw [receive, dif_pos (by rw [hpop])]
    simp only [hpop, hstr, hrest]
    exact ⟨trivial, hempty, hpacked⟩

/-- A push of something that fits a slot, into a ring that may be full. -/
theorem ringPush_spec {ring : Ring27c} (hp : Packed ring) {msg : CString}
    (hmsg : msg.take (maxPacketSize - 1) = msg) :
    queue (ringPush ring msg).2 = (queue ring ++ [msg]).take (ringSize - 1) ∧
      Packed (ringPush ring msg).2 := by
  by_cases hfull : (queue ring).length = ringSize - 1
  · rw [ringPush, pushSlot_full hfull]
    exact ⟨(List.take_left' hfull).symm, hp⟩
  · have hlt : (queue ring).length < ringSize := by
      rw [queue_length]
      exact ring.count_lt
    rw [ringPush, pushSlot_room hfull, queue_enqueue (by decide) hfull, hmsg]
    refine ⟨(List.take_of_length_le ?_).symm, packed_enqueue (by decide) hp hfull msg⟩
    rw [List.length_append, List.length_singleton]
    omega

theorem take_take_append {α : Type} (l m : List α) (n : Nat) :
    (l.take n ++ m).take n = (l ++ m).take n := by
  have hlen : n - min n l.length = n - l.length := by omega
  rw [List.take_append, List.take_append, List.take_take, Nat.min_self, List.length_take, hlen]

theorem moduleBInit_spec {ring : Ring27c} (hp : Packed ring) (buf : CharArray maxPacketSize) :
    (moduleBInit buf ring).1 = (queue ring ++ [packetA, packetB, packetC]).take (ringSize - 1) ∧
      queue (moduleBInit buf ring).2 = [] ∧ Packed (moduleBInit buf ring).2 := by
  obtain ⟨hqA, hpA⟩ := ringPush_spec hp (by decide : packetA.take (maxPacketSize - 1) = packetA)
  obtain ⟨hqB, hpB⟩ := ringPush_spec hpA (by decide : packetB.take (maxPacketSize - 1) = packetB)
  obtain ⟨hqC, hpC⟩ := ringPush_spec hpB (by decide : packetC.take (maxPacketSize - 1) = packetC)
  rw [hqB, take_take_append, hqA, List.append_assoc, take_take_append, List.append_assoc] at hqC
  exact receive_spec _ hpC hqC buf

end RingModules

/-! ## The loads -/

open RingModules SharedRing RingBuffer in
/-- **The loads of Module B**, in every order of loads and unloads of the two modules:
B is never there without A, and what it has printed at its loads since A's is known;
what other modules have left in the ring of 27c comes out first. -/
theorem modules_heard (buf : CharArray maxPacketSize) :
    (∀ s, (Provider.machine Counter.modules).Reachable s →
      (s.client = true → s.provider.isSome = true) ∧
        s.heard = (List.range s.heard.length).map Counter.heard) ∧
    (∀ s, (Provider.machine SharedBuffer.modules).Reachable s →
      (s.client = true → s.provider.isSome = true) ∧
        s.heard = (List.range s.heard.length).map fun k =>
          ⟨SharedBuffer.text k, SharedBuffer.modified⟩) ∧
    (∀ s, (Provider.machine (RingModules.modules buf)).Reachable s →
      (s.client = true → s.provider.isSome = true) ∧
        s.heard = List.replicate s.heard.length [packetA, packetB, packetC]) ∧
    ∀ cs : List Call,
      (moduleBInit buf (run moduleAInit cs).2).1
          = ((Fifo.run [] cs).2 ++ [packetA, packetB, packetC]).take (ringSize - 1) ∧
        queue (moduleBInit buf (run moduleAInit cs).2).2 = [] := by
  refine ⟨fun s hs => ?_, fun s hs => ?_, fun s hs => ?_, fun cs => ?_⟩
  · have h : Provider.Counted (fun k c => c = int32 (3 * k)) Counter.heard s :=
      Provider.counted_of_reachable rfl Counter.moduleBInit_spec hs
    exact ⟨h.client, h.heard⟩
  · have h : Provider.Counted (fun k buf => buf.str = SharedBuffer.text k)
        (fun k => ⟨SharedBuffer.text k, SharedBuffer.modified⟩) s :=
      Provider.counted_of_reachable SharedBuffer.str_moduleAInit SharedBuffer.moduleBInit_spec hs
    exact ⟨h.client, h.heard⟩
  · have h : Provider.Counted (fun _ ring => Packed ring ∧ queue ring = [])
        (fun _ => [packetA, packetB, packetC]) s := by
      refine Provider.counted_of_reachable ⟨packed_zeroed (by decide), queue_zeroed (by decide)⟩
        (fun k ring hring => ?_) hs
      obtain ⟨hheard, hempty, hpacked⟩ := moduleBInit_spec hring.1 buf
      rw [hring.2] at hheard
      exact ⟨hheard, hpacked, hempty⟩
    refine ⟨h.client, h.heard.trans ?_⟩
    rw [List.map_const', List.length_range]
  · obtain ⟨-, hqueue, hpacked⟩ := run_simulates (packed_zeroed (by decide) : Packed moduleAInit) cs
    obtain ⟨hheard, hempty, -⟩ := moduleBInit_spec hpacked buf
    rw [hqueue, queue_zeroed] at hheard
    exact ⟨hheard, hempty⟩

end KernelSpace.InterModule
