import KernelSpace.Kernel.CString
import KernelSpace.Lib.Machine

/-!
# StreamingDma — the sender and the receiver (21)

`21.Streaming_DMA/userspace`: `board_sender.c` puts a text into a buffer, sends
it with one `send` and closes; `pc_receiver.c` prints what each `recv` brings
until there is no more. Between them is a byte stream, which is cut where the
network likes: `send` takes some of the bytes, `recv` gives some of those under
way.

The receiver puts a NUL behind what it got and prints with `%s`, so it prints
the whole stream, in whatever pieces, as long as the stream has no NUL of its
own.
-/

namespace KernelSpace.StreamingDma

open KernelSpace.Kernel KernelSpace.Lib

def BUF_SIZE : Nat := 4096

inductive SenderPc where
  | connected
  | sent
  | closed
  /-- `send` has failed, and the socket is closed. -/
  | failed
deriving DecidableEq

inductive ReceiverPc where
  | receiving
  /-- `Board closed the connection.` -/
  | finished
  /-- `recv` has failed. -/
  | failed
deriving DecidableEq

/-- `Received %zd bytes: %s` -/
structure Line where
  received : Nat
  text : CString
deriving DecidableEq

/-- The connection: the two programs, and the bytes under way. -/
structure State where
  sender : SenderPc
  /-- What the sender has printed that it sent. -/
  reported : Nat
  wire : List UInt8
  receiver : ReceiverPc
  buffer : CharArray BUF_SIZE
  lines : List Line
deriving DecidableEq

inductive Event where
  /-- The number of bytes that `send` takes, if it does not fail. -/
  | send (sent : Option Nat)
  | close
  /-- The number of bytes that `recv` gives, if it does not fail. -/
  | recv (received : Option Nat)
deriving DecidableEq

/-- The sender's buffer: zeroed, then printed into. -/
def prepared (message : CString) : CharArray BUF_SIZE :=
  (CharArray.zero BUF_SIZE).store 0 (message.take (BUF_SIZE - 1)).mem

/-- The sender's socket is closed. -/
def SenderPc.isClosed : SenderPc → Bool
  | closed | failed => true
  | _ => false

/-- One round of the receiver's loop, for the bytes that `recv` stored. -/
def State.take (s : State) (n : Nat) : State :=
  let buffer := (s.buffer.store 0 (s.wire.take n)).store n [0]
  { s with wire := s.wire.drop n, buffer := buffer, lines := s.lines ++ [⟨n, buffer.str⟩] }

def step (message : CString) (s : State) : Event → Option State
  | .send sent =>
    if s.sender = .connected then
      match sent with
      | none => some { s with sender := .failed }
      | some n =>
        if n ≤ (prepared message).str.strlen then
          some { s with sender := .sent, reported := n, wire := (prepared message).bytes.take n }
        else none
    else none
  | .close => if s.sender = .sent then some { s with sender := .closed } else none
  | .recv received =>
    if s.receiver = .receiving then
      match received with
      | none => some { s with receiver := .failed }
      | some 0 =>
        if s.wire = [] ∧ s.sender.isClosed then some { s with receiver := .finished } else none
      | some n =>
        if n ≤ s.wire.length ∧ n ≤ BUF_SIZE - 1 then some (s.take n) else none
    else none

/-- The two connected, with anything in the receiver's buffer. -/
def transfer (message : CString) (buffer : CharArray BUF_SIZE) : Machine State Event :=
  ⟨⟨.connected, 0, [], .receiving, buffer, []⟩, step message⟩

/-- What `board_sender.c` sends. -/
def greeting : CString := .lit "Hello from STM32MP257F-DK over end0 (streaming DMA path)\n"

/-! ## The invariant -/

/-- The bytes that the receiver has printed behind `bytes:`. -/
def State.printed (s : State) : List UInt8 := s.lines.flatMap fun line => line.text.chars

structure Inv (message : CString) (s : State) : Prop where
  /-- What was sent is printed or under way. -/
  stream : s.printed ++ s.wire = (message.take (BUF_SIZE - 1)).chars.take s.reported
  reported : s.reported ≤ (message.take (BUF_SIZE - 1)).strlen
  unsent : s.sender = .connected ∨ s.sender = .failed → s.reported = 0
  counts : ∀ line ∈ s.lines, line.received = line.text.strlen
  ended : s.receiver = .finished → s.wire = [] ∧ s.sender.isClosed = true

theorem str_prepared (message : CString) :
    (prepared message).str = message.take (BUF_SIZE - 1) :=
  CharArray.str_store_mem _ (by
    have := message.strlen_take_le (BUF_SIZE - 1)
    have hsize : BUF_SIZE - 1 < BUF_SIZE := by decide
    omega)

theorem take_prepared {message : CString} {n : Nat} (h : n ≤ (prepared message).str.strlen) :
    (prepared message).bytes.take n = (message.take (BUF_SIZE - 1)).chars.take n := by
  rw [← str_prepared, ← (prepared message).take_strlen, List.take_take, Nat.min_eq_left h]

/-- What the receiver prints of a piece without a NUL. -/
theorem printed_piece (buffer : CharArray BUF_SIZE) {piece : List UInt8}
    (hnul : (0 : UInt8) ∉ piece) (hlen : piece.length ≤ BUF_SIZE - 1) :
    (((buffer.store 0 piece).store piece.length [0]).str).chars = piece := by
  have hlt : (CString.mk piece hnul).strlen < BUF_SIZE := by
    have hsize : BUF_SIZE - 1 < BUF_SIZE := by decide
    simp only [CString.strlen]
    omega
  have hstr := buffer.str_store_nul hlt
  simp only [CString.strlen] at hstr
  rw [hstr]

section

variable {message : CString} {s : State}

theorem Inv.nul_notMem (h : Inv message s) : (0 : UInt8) ∉ s.wire := by
  intro hmem
  have hstream : (0 : UInt8) ∈ (message.take (BUF_SIZE - 1)).chars.take s.reported := by
    rw [← h.stream]
    exact List.mem_append_right _ hmem
  exact (message.take (BUF_SIZE - 1)).nonul (List.mem_of_mem_take hstream)

theorem inv_init (message : CString) (buffer : CharArray BUF_SIZE) :
    Inv message (transfer message buffer).init where
  stream := by simp [transfer, State.printed]
  reported := Nat.zero_le _
  unsent := fun _ => rfl
  counts := by simp [transfer]
  ended := nofun

theorem inv_take (h : Inv message s) (hrun : s.receiver = .receiving) {n : Nat}
    (hn : n ≤ s.wire.length) (hroom : n ≤ BUF_SIZE - 1) : Inv message (s.take n) := by
  have hlength : (s.wire.take n).length = n := List.length_take_of_le hn
  have hnul : (0 : UInt8) ∉ s.wire.take n := fun hmem => h.nul_notMem (List.mem_of_mem_take hmem)
  have hpiece := printed_piece s.buffer hnul (by rw [hlength]; exact hroom)
  rw [hlength] at hpiece
  refine ⟨?_, h.reported, h.unsent, fun line hline => ?_, fun hended => ?_⟩
  · calc (s.take n).printed ++ s.wire.drop n
        = s.printed ++ (s.wire.take n ++ s.wire.drop n) := by
          simp [State.printed, State.take, hpiece]
      _ = (message.take (BUF_SIZE - 1)).chars.take s.reported := by
          rw [List.take_append_drop, h.stream]
  · rcases List.mem_append.mp hline with hold | hnew
    · exact h.counts line hold
    · rw [List.mem_singleton.mp hnew, CString.strlen, hpiece, hlength]
  · have hfinished : s.receiver = .finished := hended
    rw [hrun] at hfinished
    cases hfinished

theorem inv_step {e : Event} {s' : State} (h : Inv message s) (hs : step message s e = some s') :
    Inv message s' := by
  cases e with
  | send sent =>
    simp only [step] at hs
    split at hs
    · rename_i hconnected
      have hzero : s.reported = 0 := h.unsent (.inl hconnected)
      have hopen : s.receiver ≠ .finished := by
        intro hended
        have hclosed := (h.ended hended).2
        rw [hconnected] at hclosed
        cases hclosed
      have hempty : s.printed = [] := by
        have hstream := h.stream
        rw [hzero, List.take_zero, List.append_eq_nil_iff] at hstream
        exact hstream.1
      split at hs
      · cases hs
        exact ⟨h.stream, h.reported, fun _ => hzero, h.counts, fun hended => absurd hended hopen⟩
      · split at hs
        · rename_i hfits
          cases hs
          refine ⟨?_, ?_, nofun, h.counts, fun hended => absurd hended hopen⟩
          · rw [take_prepared hfits]
            have hprinted : ({ s with sender := .sent } : State).printed = [] := hempty
            simpa [State.printed] using hprinted
          · rwa [str_prepared] at hfits
        · cases hs
    · cases hs
  | close =>
    simp only [step] at hs
    split at hs
    · cases hs
      exact ⟨h.stream, h.reported, nofun, h.counts, fun hended => ⟨(h.ended hended).1, rfl⟩⟩
    · cases hs
  | recv received =>
    simp only [step] at hs
    split at hs
    · rename_i hrun
      split at hs
      · cases hs
        exact ⟨h.stream, h.reported, h.unsent, h.counts, nofun⟩
      · split at hs
        · rename_i hend
          cases hs
          exact ⟨h.stream, h.reported, h.unsent, h.counts, fun _ => hend⟩
        · cases hs
      · split at hs
        · rename_i hfits
          cases hs
          exact inv_take h hrun hfits.1 hfits.2
        · cases hs
    · cases hs

end

/-- **The transfer.** However the stream is cut, what the receiver prints is a
front of what was sent, each line with the number of bytes it shows; and when it
says that the board has closed the connection, it has printed just the bytes
that the sender reports. -/
theorem transfer_prints (message : CString) (buffer : CharArray BUF_SIZE) (s : State)
    (hs : (transfer message buffer).Reachable s) :
    s.printed <+: message.chars.take s.reported ∧
    (∀ line ∈ s.lines, line.received = line.text.strlen) ∧
    (s.receiver = .finished → s.printed = message.chars.take s.reported) := by
  have h : Inv message s := hs.inv (inv_init message buffer) fun _ _ _ => inv_step
  have hreported : s.reported ≤ BUF_SIZE - 1 :=
    Nat.le_trans h.reported (message.strlen_take_le (BUF_SIZE - 1))
  have hstream : s.printed ++ s.wire = message.chars.take s.reported := by
    rw [h.stream, CString.take, List.take_take, Nat.min_eq_left hreported]
  refine ⟨⟨s.wire, hstream⟩, h.counts, fun hended => ?_⟩
  rw [← hstream, (h.ended hended).1, List.append_nil]

/-- The greeting in two pieces. -/
def inPieces : List Event :=
  [.send (some 57), .recv (some 20), .close, .recv (some 37), .recv (some 0)]

theorem transfer_prints_inPieces :
    ∃ s, (transfer greeting (.zero BUF_SIZE)).Reaches inPieces s ∧ s.lines.length = 2 ∧
      s.printed = greeting.chars.take 57 := by
  obtain ⟨s, hs⟩ := Option.isSome_iff_exists.mp (by decide +kernel :
    ((transfer greeting (.zero BUF_SIZE)).exec (transfer greeting (.zero BUF_SIZE)).init
      inPieces).isSome = true)
  have hview := congrArg (Option.map fun s : State => (s.receiver, s.reported, s.lines.length)) hs
  have hend : (s.receiver, s.reported, s.lines.length) = (.finished, 57, 2) :=
    Option.some.inj (hview.symm.trans (by decide +kernel))
  simp only [Prod.mk.injEq] at hend
  obtain ⟨-, -, hprinted⟩ := transfer_prints greeting (.zero BUF_SIZE) s ⟨_, hs⟩
  exact ⟨s, hs, hend.2.2, by rw [hprinted hend.1, hend.2.1]⟩

end KernelSpace.StreamingDma
