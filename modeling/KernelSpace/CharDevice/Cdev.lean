import Mathlib.Data.List.Induction
import KernelSpace.CharDevice.Message

/-!
# CharDevice — the cdev drivers (4)

`4.char_cdev_copyfromuser/char_cdev-1.c` and `char_cdev-2.c`, which have the
same `my_write` and `my_read`. A write stores its data without a NUL behind it;
a read takes its length from `strlen`, its bytes from the start of the buffer,
and moves the offset.

* While no write is longer than 99 bytes the driver keeps a text that a write
  overwrites from the front (`overwritten`): a shorter message leaves the end of
  a longer one behind it.
* A read to the end in pieces returns the front of the text again and again
  (`Tiles`).
* A write of 100 bytes or more leaves no NUL in the buffer, unless it brings one.
-/

namespace KernelSpace.CharDevice

open KernelSpace.Kernel KernelSpace.Lib

/-! ## A text that is overwritten -/

/-- Devices that hold a text. A write overwrites it from the front, a read
takes its piece from the front too, and the offset only says when to stop. -/
def overwritten : FileOps (List UInt8) where
  fresh := []
  read text len off fault :=
    if text.length ≤ off then ⟨0, [], off⟩
    else if fault then ⟨-EFAULT, [], off⟩
    else ⟨(text.take len).length, text.take len, off + (text.take len).length⟩
  write text buf off fault :=
    if fault.isSome then (⟨-EFAULT, [], off⟩, text)
    else (⟨buf.length, [], off⟩, buf ++ text.drop buf.length)

/-- What is written in the calls, in order. -/
def written {F : Type*} : List (FileCall F) → List (List UInt8)
  | [] => []
  | .write _ buf _ :: cs => buf :: written cs
  | _ :: cs => written cs

/-- `rest` goes on with the front of `text`, as many bytes as the first length
says, behind these with as many as the second one says, and so on to its end. -/
def Tiles (text : List UInt8) : List UInt8 → List Nat → Prop
  | [], _ => True
  | _ :: _, [] => False
  | rest, len :: lens => text.take len <+: rest ∧ Tiles text (rest.drop (text.take len).length) lens

theorem tiles_cons_iff {text rest : List UInt8} (h : rest ≠ []) (len : Nat) (lens : List Nat) :
    Tiles text rest (len :: lens) ↔
      text.take len <+: rest ∧ Tiles text (rest.drop (text.take len).length) lens := by
  cases rest with
  | nil => exact absurd rfl h
  | cons c rest => rfl

/-- A read before the end of the text. -/
theorem readToEnd_cons {text : List UInt8} {len off : Nat} (hlen : 0 < len)
    (hoff : off < text.length) (lens : List Nat) :
    overwritten.readToEnd text (len :: lens) off
      = (overwritten.readToEnd text lens (off + (text.take len).length : Nat)).map
          (text.take len ++ ·) := by
  have hread : overwritten.read text len off false
      = ⟨(text.take len).length, text.take len, off + (text.take len).length⟩ := by
    have hleft : ¬ (text.length : Int) ≤ off := by omega
    simp [overwritten, hleft]
  have hret : ((text.take len).length : Int) ≠ 0 := by
    rw [List.length_take]
    omega
  rw [FileOps.readToEnd, hread]
  simp only [hret, if_false]
  rfl

/-- A read at or behind the end of the text. -/
theorem readToEnd_end {text : List UInt8} {off : Nat} (hoff : text.length ≤ off) (len : Nat)
    (lens : List Nat) : overwritten.readToEnd text (len :: lens) off = some [] := by
  have hend : (text.length : Int) ≤ off := by omega
  simp [FileOps.readToEnd, overwritten, hend]

/-- **A text read in pieces**: every piece is its front, so the pieces are the
text from `off` on if it tiles. They are never fewer bytes than are left. -/
theorem readToEnd_overwritten {text : List UInt8} {lens : List Nat} (hpos : ∀ len ∈ lens, 0 < len)
    {off : Nat} {bytes : List UInt8} (h : overwritten.readToEnd text lens off = some bytes) :
    text.length - off ≤ bytes.length ∧
      (bytes = text.drop off ↔ Tiles text (text.drop off) lens) := by
  induction lens generalizing off bytes with
  | nil => cases h
  | cons len lens ih =>
    rcases Nat.lt_or_ge off text.length with hlt | hge
    · have hlen : 0 < len := hpos len List.mem_cons_self
      rw [readToEnd_cons hlen hlt, Option.map_eq_some_iff] at h
      obtain ⟨tail, htail, rfl⟩ := h
      obtain ⟨hcount, hiff⟩ := ih (fun l hl => hpos l (List.mem_cons_of_mem len hl)) htail
      have hne : text.drop off ≠ [] := List.ne_nil_of_length_pos (by rw [List.length_drop]; omega)
      rw [tiles_cons_iff hne, List.drop_drop, ← hiff]
      refine ⟨?_, ?_, ?_⟩
      · rw [List.length_append]
        omega
      · intro heq
        refine ⟨⟨tail, heq⟩, ?_⟩
        rw [← List.drop_drop, ← heq, List.drop_left]
      · intro htiles
        obtain ⟨⟨rest, hrest⟩, rfl⟩ := htiles
        rw [← List.drop_drop, ← hrest, List.drop_left]
    · rw [readToEnd_end hge] at h
      cases h
      rw [List.drop_eq_nil_of_le hge]
      exact ⟨by omega, iff_of_true rfl trivial⟩

/-- Enough reads come to the end. -/
theorem readToEnd_isSome {text : List UInt8} {lens : List Nat} (hpos : ∀ len ∈ lens, 0 < len)
    {off : Nat} (h : text.length - off < lens.length) :
    (overwritten.readToEnd text lens off).isSome := by
  induction lens generalizing off with
  | nil => exact absurd h (Nat.not_lt_zero _)
  | cons len lens ih =>
    rcases Nat.lt_or_ge off text.length with hlt | hge
    · have hlen : 0 < len := hpos len List.mem_cons_self
      have hrest : text.length - (off + (text.take len).length) < lens.length := by
        rw [List.length_cons] at h
        rw [List.length_take]
        omega
      rw [readToEnd_cons hlen hlt, Option.isSome_map]
      exact ih (fun l hl => hpos l (List.mem_cons_of_mem len hl)) hrest
    · rw [readToEnd_end hge]
      rfl

/-! ## Histories of writes -/

/-- The text behind a write. -/
def overwrite (text buf : List UInt8) : List UInt8 := buf ++ text.drop buf.length

theorem length_overwrite (text buf : List UInt8) :
    (overwrite text buf).length = max buf.length text.length := by
  rw [overwrite, List.length_append, List.length_drop]
  omega

theorem written_concat {F : Type*} (cs : List (FileCall F)) (c : FileCall F) :
    written (cs ++ [c]) = written cs ++ written [c] := by
  induction cs with
  | nil => rfl
  | cons d cs ih =>
    cases d with
    | write f buf fault =>
      rw [List.cons_append, written, ih]
      rfl
    | openFile | release | seek | read => exact ih

/-- The text behind the calls. -/
def textAfter {F : Type*} (cs : List (FileCall F)) : List UInt8 :=
  cs.foldl (fun text c => c.afterWrite overwrite (fun _ => ()) () text) []

/-- What the text is behind the calls: the last message stands at its front,
and it has the length of the longest one. -/
structure Latest {F : Type*} (cs : List (FileCall F)) (last text : List UInt8) : Prop where
  front : last <+: text
  longest : ∀ w ∈ written cs, w.length ≤ text.length
  attained : text = [] ∨ ∃ w ∈ written cs, w.length = text.length

theorem Latest.write {F : Type*} {cs : List (FileCall F)} {last text : List UInt8}
    (h : Latest cs last text) (f : F) (buf : List UInt8) (fault : Option Nat) :
    Latest (cs ++ [.write f buf fault]) buf (overwrite text buf) := by
  have hlen := length_overwrite text buf
  have hwritten : written (cs ++ [.write f buf fault]) = written cs ++ [buf] := written_concat ..
  refine ⟨List.prefix_append .., ?_, .inr ?_⟩
  · intro w hw
    rw [hlen]
    rw [hwritten, List.mem_append, List.mem_singleton] at hw
    rcases hw with hw | rfl
    · exact Nat.le_trans (h.longest w hw) (Nat.le_max_right ..)
    · exact Nat.le_max_left ..
  · rw [hlen, hwritten]
    rcases Nat.le_total text.length buf.length with hle | hge
    · exact ⟨buf, List.mem_append_right _ List.mem_cons_self, (Nat.max_eq_left hle).symm⟩
    · rw [Nat.max_eq_right hge]
      rcases h.attained with rfl | hw
      · exact ⟨buf, List.mem_append_right _ List.mem_cons_self, Nat.le_zero.mp hge⟩
      · obtain ⟨w, hw, hwlen⟩ := hw
        exact ⟨w, List.mem_append_left _ hw, hwlen⟩

/-- The text is the last message exactly when no message was longer. -/
theorem Latest.eq_iff {F : Type*} {cs : List (FileCall F)} {last text : List UInt8}
    (h : Latest cs last text) : text = last ↔ ∀ w ∈ written cs, w.length ≤ last.length := by
  refine ⟨fun heq => heq ▸ h.longest, fun hle => ?_⟩
  have hlen : text.length ≤ last.length := by
    rcases h.attained with rfl | hw
    · exact Nat.zero_le _
    · obtain ⟨w, hw, hwlen⟩ := hw
      exact hwlen ▸ hle w hw
  exact (h.front.eq_of_length_le hlen).symm

theorem latest_textAfter {F : Type*} [DecidableEq F] {cap : Nat} (cs : List (FileCall F))
    (hcs : ∀ w ∈ written cs, w.length ≤ cap) :
    Latest cs (lastWritten cap (fun _ => ()) () cs) (textAfter cs) := by
  induction cs using List.reverseRecOn with
  | nil => exact ⟨List.prefix_refl [], nofun, .inl rfl⟩
  | append_singleton cs c ih =>
    have hwritten := written_concat cs c
    rw [hwritten] at hcs
    obtain ⟨hfront, hlongest, hattained⟩ := ih fun w hw => hcs w (List.mem_append_left _ hw)
    rw [lastWritten, textAfter, List.foldl_concat, List.foldl_concat, ← lastWritten, ← textAfter]
    cases c with
    | write f buf fault =>
      have hbuf : buf.length ≤ cap := hcs buf (List.mem_append_right _ List.mem_cons_self)
      have htake : buf.take cap = buf := List.take_of_length_le hbuf
      simp only [afterCall, FileCall.afterWrite, if_true, htake]
      exact Latest.write ⟨hfront, hlongest, hattained⟩ f buf fault
    | openFile | release | seek | read =>
      simp only [written, List.append_nil] at hwritten
      simp only [afterCall, FileCall.afterWrite]
      exact ⟨hfront, hwritten ▸ hlongest, hwritten ▸ hattained⟩

/-! ## The driver -/

namespace Cdev

/-- `BUF_SIZE`. -/
def bufSize : Nat := 100

def myWrite (kernelBuffer : CharArray bufSize) (buf : List UInt8) (off : Int)
    (fault : Option Nat) : FileReply × CharArray bufSize :=
  let len := if buf.length > bufSize then bufSize else buf.length
  match fault with
  | some k => (⟨-EFAULT, [], off⟩, kernelBuffer.copyFault buf len k)
  | none => (⟨int64 len, [], off⟩, kernelBuffer.store 0 (buf.take len))

def myRead (kernelBuffer : CharArray bufSize) (len : Nat) (off : Int) (fault : Bool) :
    FileReply :=
  let dataLen := int32 kernelBuffer.str.strlen
  if off ≥ dataLen then ⟨0, [], off⟩
  else
    let len := if len > sizeT dataLen then sizeT dataLen else len
    if fault then ⟨-EFAULT, [], off⟩
    -- from the start of the buffer, whatever the offset
    else ⟨int64 len, kernelBuffer.bytes.take len, int64 (off + len)⟩

/-- `my_fops`, on the zeroed `kernel_buffer`. -/
def myFops : FileOps (CharArray bufSize) := ⟨.zero bufSize, myRead, myWrite⟩

/-- Data that fits with a NUL behind it and has none in it. -/
def Text (buf : List UInt8) : Prop := 0 ∉ buf ∧ buf.length < bufSize

/-- The text, and nothing but NULs behind it. -/
structure Holds (kernelBuffer : CharArray bufSize) (text : List UInt8) : Prop where
  bytes : kernelBuffer.bytes = text ++ List.replicate (bufSize - text.length) 0
  isText : Text text

theorem Holds.str_chars {kernelBuffer : CharArray bufSize} {text : List UInt8}
    (h : Holds kernelBuffer text) : kernelBuffer.str.chars = text := by
  obtain ⟨k, hk⟩ : ∃ k, bufSize - text.length = k + 1 :=
    Nat.exists_eq_succ_of_ne_zero (by have := h.isText.2; omega)
  rw [CharArray.str, h.bytes, hk, List.replicate_succ]
  exact congrArg CString.chars (CString.ofBytes_append_nul ⟨text, h.isText.1⟩ _)

theorem Holds.myRead_eq {kernelBuffer : CharArray bufSize} {text : List UInt8}
    (h : Holds kernelBuffer text) (len : Nat) {off : Int} (hoff : 0 ≤ off) :
    myRead kernelBuffer len off false = overwritten.read text len off false := by
  have hlt : text.length < bufSize := h.isText.2
  have hsize : bufSize < 0x80000000 := by decide
  have hstrlen : kernelBuffer.str.strlen = text.length := congrArg List.length h.str_chars
  have hint : int32 kernelBuffer.str.strlen = text.length := by
    rw [hstrlen]
    exact int32_of_lt (by omega) (by omega)
  have hcut : sizeT (text.length : Int) = text.length := by
    simpa using sizeT_sub (a := 0) (Nat.zero_le text.length) (by omega)
  have htake : (text.take len).length = min len text.length := List.length_take
  have hbytes : kernelBuffer.bytes.take (min len text.length) = text.take len := by
    rw [h.bytes, List.take_append_of_le_length (Nat.min_le_right ..), ← List.take_take,
      List.take_length]
  rcases Int.lt_or_le off text.length with hleft | hend
  · have hnot : ¬ (text.length : Int) ≤ off := by omega
    simp only [myRead, overwritten, hint, hcut, cut_eq_min, ge_iff_le, hnot, if_false,
      Bool.false_eq_true, hbytes, htake]
    rw [int64_of_lt (by omega) (by omega), int64_of_lt (by omega) (by omega)]
  · simp only [myRead, overwritten, hint, ge_iff_le, hend, if_true]

theorem Holds.myWrite_eq {kernelBuffer : CharArray bufSize} {text : List UInt8}
    (h : Holds kernelBuffer text) {buf : List UInt8} (hbuf : Text buf) (off : Int) :
    (myWrite kernelBuffer buf off none).1 = ⟨buf.length, [], off⟩ ∧
      Holds (myWrite kernelBuffer buf off none).2 (overwrite text buf) := by
  have hlt : buf.length < bufSize := hbuf.2
  have hsize : bufSize < 0x80000000 := by decide
  have hcut : min buf.length bufSize = buf.length := Nat.min_eq_left hlt.le
  have hlen := length_overwrite text buf
  have htext : text.length < bufSize := h.isText.2
  simp only [myWrite, cut_eq_min, hcut, List.take_length]
  rw [int64_of_lt (by omega) (by omega)]
  refine ⟨rfl, ?_, ?_, by omega⟩
  · have hfit : 0 + buf.length ≤ bufSize := by omega
    rw [CharArray.store_bytes _ hfit, List.take_zero, List.nil_append, Nat.zero_add, h.bytes,
      List.drop_append, List.drop_replicate, hlen, overwrite, List.append_assoc]
    have hrest : bufSize - text.length - (buf.length - text.length)
        = bufSize - max buf.length text.length := by omega
    rw [hrest]
  · intro hmem
    rcases List.mem_append.mp hmem with hnew | hold
    · exact hbuf.1 hnew
    · exact h.isText.1 (List.mem_of_mem_drop hold)

/-- **The driver keeps an overwritten text** as long as every write fits in the
buffer with a NUL behind it. -/
theorem simulates_overwritten : myFops.Simulates overwritten Holds Text where
  fresh := ⟨rfl, List.not_mem_nil, by decide⟩
  read kernelBuffer text len off h hoff := by
    refine ⟨h.myRead_eq len hoff, ?_⟩
    simp only [overwritten]
    split
    · exact hoff
    · exact Int.add_nonneg hoff (Int.natCast_nonneg _)
  write kernelBuffer text buf off h hoff hbuf := by
    obtain ⟨hret, hholds⟩ := h.myWrite_eq hbuf off
    exact ⟨hret, hoff, hholds⟩

section

variable {F : Type*} [DecidableEq F]

/-- The driver on the files `F`. -/
abbrev driver (F : Type*) [DecidableEq F] : Service (Vfs (CharArray bufSize) Unit F) (FileCall F)
    FileReply := vfs myFops fun _ => ()

omit [DecidableEq F] in
theorem written_of_copies {cs : List (FileCall F)} (hcs : ∀ c ∈ cs, c.Copies Text) :
    ∀ w ∈ written cs, w.length ≤ bufSize := by
  induction cs with
  | nil => nofun
  | cons c cs ih =>
    have hrest := ih fun d hd => hcs d (List.mem_cons_of_mem c hd)
    have hc := hcs c List.mem_cons_self
    cases c with
    | write f buf fault =>
      intro w hw
      rcases List.mem_cons.mp hw with rfl | hw
      · exact hc.2.2.le
      · exact hrest w hw
    | openFile | release | seek | read => exact hrest

/-- What the buffer holds behind a run of calls. -/
theorem holds_run {cs : List (FileCall F)} {rs : List FileReply}
    {s : Vfs (CharArray bufSize) Unit F} (hcs : ∀ c ∈ cs, c.Copies Text)
    (h : (driver F).run (driver F).init cs = some (rs, s)) :
    Holds (s.devices ()) (textAfter cs) := by
  have hagree := simulates_overwritten.run (fun _ => ())
    (simulates_overwritten.init fun _ => ()) hcs
  obtain ⟨t, hrun, hst⟩ := hagree.exists_right h
  have hwrite : ∀ text buf off, (overwritten.write text buf off none).2 = overwrite text buf :=
    fun _ _ _ => rfl
  have htext := Vfs.devices_run hwrite (by intro f file hf; cases hf)
    (fun c hc => (hcs c hc).mono fun _ _ => trivial) hrun ()
  have hdev : t.devices () = textAfter cs := htext
  exact hdev ▸ hst.devices ()

/-- **What a file read to its end returns.** Data without a NUL and of at most
99 bytes is written, in any run of calls; then a file is opened and read in
pieces of any positive lengths. The reads come to one that returns 0, and
before it they concatenate to the data written last exactly when no earlier
data was longer and the data is tiled by its own front in these lengths. -/
theorem reads_to_end_iff (cs : List (FileCall F)) (rs : List FileReply)
    (s : Vfs (CharArray bufSize) Unit F) (hcs : ∀ c ∈ cs, c.Copies Text)
    (hrun : (driver F).run (driver F).init cs = some (rs, s)) (f : F) (lens : List Nat)
    (hpos : ∀ len ∈ lens, 0 < len) (r : FileReply) (ps : List FileReply)
    (s' : Vfs (CharArray bufSize) Unit F)
    (hreads : (driver F).run s (.openFile f :: lens.map fun len => .read f len false)
      = some (r :: ps, s')) :
    let last := lastWritten bufSize (fun _ => ()) () cs
    (bufSize ≤ lens.length → (upToZero ps).isSome) ∧
      ∀ bytes, upToZero ps = some bytes →
        (bytes = last ↔ (∀ w ∈ written cs, w.length ≤ last.length) ∧ Tiles last last lens) := by
  intro last
  obtain ⟨r', t, rest, hopen, hreads, heq⟩ := Service.run_cons_iff.mp hreads
  cases heq
  have hstep : s.step myFops (fun _ => ()) (.openFile f) = some (r, t) := hopen
  obtain ⟨-, -, rfl⟩ := Vfs.step_spec hstep
  have hholds : Holds (s.devices ()) (textAfter cs) := holds_run hcs hrun
  have hlatest : Latest cs last (textAfter cs) := latest_textAfter cs (written_of_copies hcs)
  have hall := Vfs.upToZero_reads (Vfs.setFile_files_self ..) hreads
  rw [Vfs.setFile_devices, simulates_overwritten.readToEnd_eq hholds lens (Int.le_refl 0)] at hall
  rw [hall]
  refine ⟨fun hlen => ?_, fun bytes hbytes => ?_⟩
  · have hshort := hholds.isText.2
    have hends : (overwritten.readToEnd (textAfter cs) lens (0 : Nat)).isSome :=
      readToEnd_isSome hpos (by omega)
    exact hends
  · have hpieces : overwritten.readToEnd (textAfter cs) lens (0 : Nat) = some bytes := hbytes
    obtain ⟨hcount, hiff⟩ := readToEnd_overwritten hpos hpieces
    rw [List.drop_zero] at hiff
    rw [← hlatest.eq_iff]
    constructor
    · intro heq
      -- the pieces have as many bytes as the text, so nothing is behind the last message
      have htext : textAfter cs = last := by
        rw [heq] at hcount
        exact (hlatest.front.eq_of_length_le hcount).symm
      refine ⟨htext, ?_⟩
      rw [← htext]
      exact hiff.mp (heq.trans htext.symm)
    · intro h
      obtain ⟨htext, htiles⟩ := h
      rw [← htext] at htiles
      exact (hiff.mpr htiles).trans htext

end

/-- A message is written, and read in pieces of two bytes. -/
def writeCalls (msg : List UInt8) : List (FileCall Bool) := [.openFile true, .write true msg none]

def readCalls : List (FileCall Bool) :=
  .openFile false :: [2, 2, 2].map fun len => .read false len false

/-- A message whose halves are the same comes back. -/
theorem reads_to_end_iff_halves : ∃ rs s r ps s',
    (driver Bool).run (driver Bool).init (writeCalls [97, 98, 97, 98]) = some (rs, s) ∧
      (driver Bool).run s readCalls = some (r :: ps, s') ∧
      ∀ bytes, upToZero ps = some bytes → bytes = [97, 98, 97, 98] := by
  have hcs : ∀ c ∈ writeCalls [97, 98, 97, 98], c.Copies Text := by
    simp [writeCalls, FileCall.Copies, Text, bufSize]
  have htiles : Tiles [97, 98, 97, 98] [97, 98, 97, 98] [2, 2, 2] :=
    ⟨⟨[97, 98], rfl⟩, ⟨[], rfl⟩, trivial⟩
  refine ⟨_, _, _, _, _, rfl, rfl, fun bytes hbytes => ?_⟩
  exact ((reads_to_end_iff _ _ _ hcs rfl false [2, 2, 2] (by decide) _ _ _ rfl).2 bytes hbytes).mpr
    ⟨by decide, htiles⟩

/-- A message of three bytes in pieces of two. -/
theorem front_read_twice :
    ¬ ∀ (cs : List (FileCall Bool)) rs s, (∀ c ∈ cs, c.Copies Text) →
      (driver Bool).run (driver Bool).init cs = some (rs, s) →
      ∀ (f : Bool) (lens : List Nat), (∀ len ∈ lens, 0 < len) → ∀ r ps s',
        (driver Bool).run s (.openFile f :: lens.map fun len => .read f len false)
          = some (r :: ps, s') →
        ∀ bytes, upToZero ps = some bytes → bytes = lastWritten bufSize (fun _ => ()) () cs := by
  intro h
  have hcs : ∀ c ∈ writeCalls [97, 98, 99], c.Copies Text := by
    simp [writeCalls, FileCall.Copies, Text, bufSize]
  have hread := h _ _ _ hcs rfl false [2, 2, 2] (by decide) _ _ _ rfl [97, 98, 97, 98] rfl
  revert hread
  decide

/-! ## Writes of any length -/

/-- `strlen` and `%s` stop inside the buffer. -/
def Terminated (kernelBuffer : CharArray bufSize) : Prop := (0 : UInt8) ∈ kernelBuffer.bytes

instance (kernelBuffer : CharArray bufSize) : Decidable (Terminated kernelBuffer) :=
  inferInstanceAs (Decidable (_ ∈ _))

/-- A write leaves a NUL: it clears what its copy did not bring, or there is
one in the bytes it stores, or behind them. -/
def KeepsNul (kernelBuffer : CharArray bufSize) (buf : List UInt8) (fault : Option Nat) : Prop :=
  (∃ k ∈ fault, k < min buf.length bufSize) ∨ 0 ∈ buf.take bufSize ∨
    0 ∈ kernelBuffer.bytes.drop buf.length

instance (kernelBuffer : CharArray bufSize) (buf : List UInt8) (fault : Option Nat) :
    Decidable (KeepsNul kernelBuffer buf fault) := inferInstanceAs (Decidable (_ ∨ _ ∨ _))

/-- The condition on a call: if it is a write, it leaves a NUL. -/
def CallKeepsNul {F : Type*} (s : Vfs (CharArray bufSize) Unit F) : FileCall F → Prop
  | .write _ buf fault => KeepsNul (s.devices ()) buf fault
  | _ => True

instance {F : Type*} (s : Vfs (CharArray bufSize) Unit F) (c : FileCall F) :
    Decidable (CallKeepsNul s c) := by
  cases c with
  | write f buf fault => exact inferInstanceAs (Decidable (KeepsNul ..))
  | openFile | release | seek | read => exact isTrue trivial

theorem terminated_store_iff (kernelBuffer : CharArray bufSize) {bs : List UInt8}
    (h : bs.length ≤ bufSize) : Terminated (kernelBuffer.store 0 bs) ↔
      0 ∈ bs ∨ 0 ∈ kernelBuffer.bytes.drop bs.length := by
  rw [Terminated, CharArray.store_bytes _ (by omega), List.take_zero, List.nil_append,
    List.mem_append, Nat.zero_add]

/-- **One write** leaves a NUL in the buffer exactly under the condition. -/
theorem terminated_myWrite_iff (kernelBuffer : CharArray bufSize) (buf : List UInt8) (off : Int)
    (fault : Option Nat) :
    Terminated (myWrite kernelBuffer buf off fault).2 ↔ KeepsNul kernelBuffer buf fault := by
  have hlen : (buf.take (min buf.length bufSize)).length = min buf.length bufSize :=
    List.length_take_of_le (Nat.min_le_left ..)
  have htake : buf.take (min buf.length bufSize) = buf.take bufSize := by
    rw [Nat.min_comm, ← List.take_take, List.take_length]
  -- behind a write that filled the buffer there is nothing
  have hdrop : kernelBuffer.bytes.drop (min buf.length bufSize)
      = kernelBuffer.bytes.drop buf.length := by
    have hsize := kernelBuffer.size
    rcases Nat.le_total buf.length bufSize with hle | hge
    · rw [Nat.min_eq_left hle]
    · rw [Nat.min_eq_right hge, List.drop_eq_nil_of_le (by omega),
        List.drop_eq_nil_of_le (by omega)]
  have hstored : Terminated (kernelBuffer.store 0 (buf.take (min buf.length bufSize))) ↔
      0 ∈ buf.take bufSize ∨ 0 ∈ kernelBuffer.bytes.drop buf.length := by
    rw [terminated_store_iff _ (by omega), hlen, hdrop, htake]
  cases fault with
  | none => simpa [myWrite, cut_eq_min, KeepsNul] using hstored
  | some k =>
    simp only [myWrite, cut_eq_min, KeepsNul, CharArray.copyFault, Option.mem_some,
      exists_eq_left']
    by_cases hk : k < min buf.length bufSize
    · refine iff_of_true ?_ (.inl hk)
      have hfit : ((buf.take (min buf.length bufSize)).take k
          ++ List.replicate (min buf.length bufSize - k) 0).length ≤ bufSize := by
        rw [List.length_append, List.length_take, List.length_replicate, hlen]
        omega
      rw [terminated_store_iff _ hfit]
      exact .inl (List.mem_append_right _ (List.mem_replicate.mpr ⟨by omega, rfl⟩))
    · -- all bytes came
      rw [List.take_of_length_le (by omega), Nat.sub_eq_zero_of_le (by omega), List.replicate_zero,
        List.append_nil, hstored, or_iff_right hk]

section

variable {F : Type*} [DecidableEq F]

/-- One call from a state with a NUL in the buffer. -/
theorem terminated_step_iff {s s' : Vfs (CharArray bufSize) Unit F} {c : FileCall F}
    (h : Terminated (s.devices ())) (hs : (driver F).machine.step s c = some s') :
    Terminated (s'.devices ()) ↔ CallKeepsNul s c := by
  obtain ⟨r, hstep⟩ := Service.machine_step_iff.mp hs
  have hcall : s.step myFops (fun _ => ()) c = some (r, s') := hstep
  have hspec := Vfs.step_spec hcall
  cases c with
  | write f buf fault =>
    obtain ⟨file, -, -, rfl⟩ := hspec
    rw [Vfs.setFile_devices, Vfs.setDevice_devices_self]
    exact terminated_myWrite_iff _ buf file.off fault
  | openFile f =>
    obtain ⟨-, -, rfl⟩ := hspec
    exact iff_of_true h trivial
  | release f | seek f off | read f len fault =>
    obtain ⟨file, -, -, rfl⟩ := hspec
    exact iff_of_true h trivial

/-- **The buffer keeps a NUL**, in every state of a run of calls of any lengths
and faults, exactly when each write leaves one. -/
theorem terminated_iff {cs : List (FileCall F)} {s : Vfs (CharArray bufSize) Unit F}
    (h : (driver F).machine.Reaches cs s) :
    (driver F).machine.Always (fun s => Terminated (s.devices ())) (driver F).init cs ↔
      (driver F).machine.Along CallKeepsNul (driver F).init cs := by
  have hinit : Terminated ((driver F).init.devices ()) :=
    List.mem_replicate.mpr ⟨by decide, rfl⟩
  refine Machine.always_iff_along (fun _ => id) ?_ ?_ hinit h
  · exact fun s c s' hs hc hstep => (terminated_step_iff hs hstep).mpr hc
  · exact fun s c s' hs hstep hs' => (terminated_step_iff hs hstep).mp hs'

end

/-- 99 bytes, and 100 bytes of which the last is a NUL. -/
def upToTheEnd : List (FileCall Unit) :=
  [.openFile (), .write () (List.replicate 99 65) none,
    .write () (List.replicate 99 66 ++ [0]) none]

theorem upToTheEnd_run : ((driver Unit).machine.exec (driver Unit).init upToTheEnd).isSome := by
  decide

theorem terminated_iff_upToTheEnd :
    (driver Unit).machine.Always (fun s => Terminated (s.devices ())) (driver Unit).init
      upToTheEnd :=
  (terminated_iff (Option.some_get upToTheEnd_run).symm).mpr (by decide)

/-- A write of 100 bytes without a NUL fills the buffer. -/
theorem full_write_unterminated :
    ¬ ∀ (cs : List (FileCall Unit)) s, (driver Unit).machine.Reaches cs s →
      Terminated (s.devices ()) := by
  intro h
  have hfull := h [.openFile (), .write () (List.replicate 100 65) none] _ rfl
  revert hfull
  decide

end Cdev

end KernelSpace.CharDevice
