import KernelSpace.DmaMem2mem.Sequential
import Mathlib.Data.List.Induction

/-!
# DmaMem2mem — the test program

`dma_test.c` of 21a writes its message, goes back to offset 0 (where `dev_write`
has left it anyway), reads into a cleared buffer of 4096 bytes and compares as
many bytes as the message has. Other processes may have calls of their own
answered between its two, one after the other: of all these calls none overlaps
another.

What it then finds is left by two writes, which need not be its own: `dst_buf` by
the last one that had its bytes copied in (`lastCopied`), `data_len` by the last
one that succeeded (`lastLen`).
-/

namespace KernelSpace.DmaMem2mem.Sequential.Program

open KernelSpace.Kernel

/-! ## The program -/

/-- How the calls of the program come out, and what others call between them, one call
after the other. -/
structure World where
  opened : Bool
  write : Env
  between : List Op
  readFault : Bool

inductive Line where
  /-- `Wrote %zd bytes` -/
  | wrote (n : Int)
  /-- `Read  %zd bytes back` -/
  | readBack (n : Int) (text : CString)
  /-- `MATCH` -/
  | isMatch
  /-- `MISMATCH` -/
  | isMismatch
deriving DecidableEq

/-- The call that `perror` names. -/
inductive Failed where
  | openPath
  | write
  | read
deriving DecidableEq

structure Output where
  lines : List Line
  failed : Option Failed
  status : Int
deriving DecidableEq

/-- The device behind a call. -/
def effect (d : Device) : Op → Device
  | .write buf env => (devWrite d buf env).2
  | .read _ _ _ => d

def calls (d : Device) (cs : List Op) : Device := cs.foldl effect d

/-- `readback` behind the read and its terminator. -/
def readback (got : Reply) : CharArray bufSize :=
  ((CharArray.zero bufSize).store 0 got.data).store got.ret.toNat [0]

def main (msg : CString) (d : Device) (w : World) : Output :=
  if w.opened = false then ⟨[], some .openPath, 1⟩
  else
    let (wrote, d) := devWrite d msg.chars w.write
    if wrote.ret < 0 then ⟨[], some .write, 1⟩
    else
      let d := calls d w.between
      let got := devRead d 0 (bufSize - 1) w.readFault
      if got.ret < 0 then ⟨[.wrote wrote.ret], some .read, 1⟩
      else
        let text := (readback got).str
        let verdict := if CString.strncmp msg text msg.strlen = 0 then Line.isMatch else .isMismatch
        ⟨[.wrote wrote.ret, .readBack got.ret text, verdict], none, 0⟩

/-! ## What the writes leave -/

instance (env : Env) : Decidable env.Succeeds := inferInstanceAs (Decidable (_ ∧ _))

/-- A write that has its bytes copied in. -/
def copiedIn : Op → Option (List UInt8 × Env)
  | .write buf env => if env.copyFault = none then some (buf, env) else none
  | .read _ _ _ => none

/-- The length that a write stores. -/
def stored : Op → Option Nat
  | .write buf env => if env.Succeeds then some (writeLen buf.length) else none
  | .read _ _ _ => none

def lastCopied (cs : List Op) : Option (List UInt8 × Env) := (cs.filterMap copiedIn).getLast?

def lastLen (cs : List Op) : Option Nat := (cs.filterMap stored).getLast?

theorem lastCopied_concat (cs : List Op) (c : Op) :
    lastCopied (cs ++ [c]) = (copiedIn c).or (lastCopied cs) := by
  unfold lastCopied
  cases hc : copiedIn c <;> simp [hc]

theorem lastLen_concat (cs : List Op) (c : Op) :
    lastLen (cs ++ [c]) = (stored c).or (lastLen cs) := by
  unfold lastLen
  cases hc : stored c <;> simp [hc]

/-- The device behind any calls. -/
theorem calls_spec (d : Device) (cs : List Op) :
    (calls d cs).dstBuf = ((lastCopied cs).map fun write => cleared write.1 write.2).getD d.dstBuf ∧
      (calls d cs).dataLen = (lastLen cs).getD d.dataLen := by
  induction cs using List.reverseRecOn with
  | nil => exact ⟨rfl, rfl⟩
  | append_singleton cs c ih =>
    obtain ⟨hdst, hlen⟩ := ih
    have hcalls : calls d (cs ++ [c]) = effect (calls d cs) c := by simp [calls]
    rw [hcalls, lastCopied_concat, lastLen_concat]
    cases c with
    | read off len fault => exact ⟨hdst, hlen⟩
    | write buf env =>
      by_cases hfault : env.copyFault = none
      · obtain ⟨hcleared, hsucc, hfail⟩ := devWrite_copied (calls d cs) buf hfault
        rw [copiedIn, if_pos hfault]
        refine ⟨hcleared, ?_⟩
        by_cases henv : env.Succeeds
        · rw [stored, if_pos henv]
          exact (hsucc henv).2
        · rw [stored, if_neg henv]
          exact (hfail henv).2.trans hlen
      · have henv : ¬ env.Succeeds := fun h => hfault h.1
        obtain ⟨k, hk⟩ := Option.ne_none_iff_exists'.mp hfault
        rw [copiedIn, if_neg hfault, stored, if_neg henv, effect, devWrite, hk]
        exact ⟨hdst, hlen⟩

/-! ## What the program finds -/

/-- The text that is read back begins with the message exactly when the write that
left it moved as much, of a text that begins so. -/
theorem prefix_readback_iff {msg : CString} {buf : List UInt8} {env : Env} {len : Nat} :
    msg.chars <+: ((cleared buf env).bytes.take len).take (bufSize - 1) ↔
      msg.strlen ≤ min (bufSize - 1) len ∧ msg.strlen ≤ env.transferred (writeLen buf.length) ∧
        msg.chars <+: buf := by
  let moved := buf.take (env.transferred (writeLen buf.length))
  have hmoved : 0 + moved.length ≤ bufSize := by
    have hle := Nat.le_trans (transferred_le env (writeLen buf.length)) (writeLen_le buf.length)
    have hlength := List.length_take_le (env.transferred (writeLen buf.length)) buf
    simp only [moved]
    omega
  have hzeros : (cleared buf env).bytes = moved ++ List.replicate (bufSize - moved.length) 0 := by
    rw [cleared, CharArray.store_bytes _ hmoved]
    simp [CharArray.zero, moved]
  have hprefix : msg.chars <+: (cleared buf env).bytes ↔ msg.chars <+: moved := by
    rw [hzeros, ← CString.prefix_ofBytes_iff, CString.ofBytes_append_zeros,
      CString.prefix_ofBytes_iff]
  rw [List.take_take, List.prefix_take_iff, hprefix, List.prefix_take_iff]
  simp only [CString.strlen]
  tauto

theorem str_readback {data : List UInt8} (hdata : data.length ≤ bufSize - 1) :
    (readback ⟨data.length, data⟩).str = CString.ofBytes data := by
  have hsize : bufSize - 1 < bufSize := by decide
  have hstore : 0 + data.length ≤ bufSize := by omega
  have hnul : data.length + [(0 : UInt8)].length ≤ bufSize := by
    simp only [List.length_singleton]
    omega
  have hbytes : (readback ⟨data.length, data⟩).bytes
      = data ++ List.replicate (1 + (bufSize - (data.length + 1))) 0 := by
    rw [readback, Int.toNat_natCast, CharArray.store_bytes _ hnul, CharArray.store_bytes _ hstore]
    simp [CharArray.zero, List.drop_append, List.replicate_add, Nat.sub_sub]
  rw [CharArray.str, hbytes, CString.ofBytes_append_zeros]

/-- What the write that counts for the bytes was asked to write, and how it went. -/
def found (msg : CString) (w : World) : List UInt8 × Env :=
  (lastCopied w.between).getD (msg.chars, w.write)

def foundLen (msg : CString) (w : World) : Nat := (lastLen w.between).getD (writeLen msg.strlen)

theorem lastLen_le {cs : List Op} {n : Nat} (h : lastLen cs = some n) : n ≤ bufSize := by
  obtain ⟨c, -, hc⟩ := List.mem_filterMap.mp (List.mem_of_getLast? h)
  cases c with
  | read off len fault => cases hc
  | write buf env =>
    rw [stored] at hc
    split at hc <;> cases hc
    exact writeLen_le _

theorem foundLen_le (msg : CString) (w : World) : foundLen msg w ≤ bufSize := by
  unfold foundLen
  cases h : lastLen w.between with
  | none => exact writeLen_le _
  | some n => exact lastLen_le h

/-- The bytes that the program reads back. -/
def shown (msg : CString) (w : World) : List UInt8 :=
  ((cleared (found msg w).1 (found msg w).2).bytes.take (foundLen msg w)).take (bufSize - 1)

/-- What the program finds behind a write that succeeded. -/
theorem calls_found (msg : CString) (d : Device) {w : World} (hwrite : w.write.Succeeds) :
    (calls (devWrite d msg.chars w.write).2 w.between).dstBuf
        = cleared (found msg w).1 (found msg w).2 ∧
      (calls (devWrite d msg.chars w.write).2 w.between).dataLen = foundLen msg w := by
  obtain ⟨hcleared, hsucc, -⟩ := devWrite_copied d msg.chars hwrite.1
  obtain ⟨hdst, hlen⟩ := calls_spec (devWrite d msg.chars w.write).2 w.between
  rw [hcleared] at hdst
  rw [(hsucc hwrite).2] at hlen
  refine ⟨hdst.trans ?_, hlen⟩
  unfold found
  cases lastCopied w.between <;> rfl

/-- The read of the program. -/
theorem devRead_found {msg : CString} {w : World} {d : Device}
    (hdst : d.dstBuf = cleared (found msg w).1 (found msg w).2)
    (hlen : d.dataLen = foundLen msg w) :
    devRead d 0 (bufSize - 1) w.readFault =
      if w.readFault = false ∨ foundLen msg w = 0 then ⟨(shown msg w).length, shown msg w⟩
      else ⟨-EFAULT, []⟩ := by
  have hfits := foundLen_le msg w
  have hsize := (cleared (found msg w).1 (found msg w).2).size
  have hshown : (shown msg w).length = min (bufSize - 1) (foundLen msg w) := by
    simp only [shown, List.length_take, hsize]
    omega
  rw [devRead_eq (hlen ▸ hfits), hlen, hdst, hshown]
  by_cases hzero : foundLen msg w = 0
  · simp [shown, hzero]
  · rw [if_neg (by omega), List.drop_zero, Nat.sub_zero]
    cases w.readFault with
    | false => rfl
    | true => simp [hzero]

/-- The calls of the program are all answered. -/
def World.Answers (msg : CString) (w : World) : Prop :=
  w.opened = true ∧ w.write.Succeeds ∧ (w.readFault = false ∨ foundLen msg w = 0)

theorem main_of_answers {msg : CString} (d : Device) {w : World} (h : w.Answers msg) :
    main msg d w = ⟨[.wrote (writeLen msg.strlen),
      .readBack (shown msg w).length (.ofBytes (shown msg w)),
      if msg.chars <+: shown msg w then .isMatch else .isMismatch], none, 0⟩ := by
  obtain ⟨hopened, hwrite, hread⟩ := h
  obtain ⟨-, hsucc, -⟩ := devWrite_copied d msg.chars hwrite.1
  have hwrote := (hsucc hwrite).1
  obtain ⟨hdst, hlen⟩ := calls_found msg d hwrite
  have hgot := devRead_found hdst hlen
  rw [if_pos hread] at hgot
  have htext : (readback ⟨(shown msg w).length, shown msg w⟩).str = CString.ofBytes (shown msg w) :=
    str_readback (List.length_take_le ..)
  have hverdict : CString.strncmp msg (CString.ofBytes (shown msg w)) msg.strlen = 0 ↔
      msg.chars <+: shown msg w :=
    (CString.strncmp_strlen_eq_zero_iff ..).trans CString.prefix_ofBytes_iff
  rcases hdev : devWrite d msg.chars w.write with ⟨wrote, d'⟩
  rw [hdev] at hwrote hgot
  cases hwrote
  simp only [main, hopened, hdev, hgot, htext, hverdict]
  rfl

theorem devWrite_refused (d : Device) (buf : List UInt8) {env : Env} (h : ¬ env.Succeeds) :
    (devWrite d buf env).1.ret < 0 := by
  by_cases hfault : env.copyFault = none
  · obtain ⟨-, -, hfail⟩ := devWrite_copied d buf hfault
    exact (hfail h).1
  · obtain ⟨k, hk⟩ := Option.ne_none_iff_exists'.mp hfault
    have hneg : (-EFAULT : Int) < 0 := by decide
    rw [devWrite, hk]
    exact hneg

theorem main_of_not_answers {msg : CString} (d : Device) {w : World} (h : ¬ w.Answers msg) :
    .isMatch ∉ (main msg d w).lines ∧ (main msg d w).status = 1 := by
  unfold main
  by_cases hopened : w.opened = false
  · rw [if_pos hopened]
    exact ⟨List.not_mem_nil, rfl⟩
  rw [if_neg hopened]
  by_cases hwrite : w.write.Succeeds
  · obtain ⟨-, hsucc, -⟩ := devWrite_copied d msg.chars hwrite.1
    have hwrote := (hsucc hwrite).1
    obtain ⟨hdst, hlen⟩ := calls_found msg d hwrite
    have hread : ¬ (w.readFault = false ∨ foundLen msg w = 0) :=
      fun hread => h ⟨by simpa using hopened, hwrite, hread⟩
    have hgot := devRead_found hdst hlen
    have hfault : (-EFAULT : Int) < 0 := by decide
    have hok : ¬ ((writeLen msg.chars.length : Nat) : Int) < 0 := by omega
    rw [if_neg hread] at hgot
    rcases hdev : devWrite d msg.chars w.write with ⟨wrote, d'⟩
    rw [hdev] at hwrote hgot
    cases hwrote
    simp only [hgot, if_neg hok, if_pos hfault]
    exact ⟨by simp, trivial⟩
  · have hret := devWrite_refused d msg.chars hwrite
    rcases hdev : devWrite d msg.chars w.write with ⟨wrote, d'⟩
    rw [hdev] at hret
    simp only [if_pos hret]
    exact ⟨List.not_mem_nil, trivial⟩

/-- What the program's own write leaves, where no other comes between. -/
theorem found_own (msg : CString) {w : World} (h : ∀ c ∈ w.between, copiedIn c = none) :
    found msg w = (msg.chars, w.write) ∧ foundLen msg w = writeLen msg.strlen := by
  have hcopied : w.between.filterMap copiedIn = [] := List.filterMap_eq_nil_iff.mpr h
  have hstored : w.between.filterMap stored = [] := by
    refine List.filterMap_eq_nil_iff.mpr fun c hc => ?_
    have hnone := h c hc
    cases c with
    | read off len fault => rfl
    | write buf env =>
      rw [copiedIn] at hnone
      refine if_neg fun hsucc => ?_
      rw [if_pos hsucc.1] at hnone
      cases hnone
  rw [found, foundLen, lastCopied, lastLen, hcopied, hstored]
  exact ⟨rfl, rfl⟩

/-- A write that succeeds moves what the engine moves. -/
theorem transferred_of_succeeds {env : Env} (h : env.Succeeds) (len : Nat) :
    env.transferred len = min env.moved len := by
  obtain ⟨-, hmapSrc, hmapDst, hprep, hsubmit, -⟩ := h
  rw [Env.transferred, hmapSrc, hmapDst, hprep, hsubmit]
  rfl

/-- **The verdict**: the program prints `MATCH` exactly when its calls are answered,
its message has no more than 4095 bytes, and the last write that had its bytes
copied in moved as much, of a text that begins with the message, while the last one
that succeeded was as long. With no other writes in between these are its own. It
ends with status 0 whenever its calls are answered, match or not. -/
theorem dma_test_verdict (msg : CString) (d : Device) (w : World) :
    (.isMatch ∈ (main msg d w).lines ↔
      w.Answers msg ∧ msg.strlen ≤ bufSize - 1 ∧ msg.strlen ≤ foundLen msg w ∧
        msg.strlen ≤ (found msg w).2.transferred (writeLen (found msg w).1.length) ∧
        msg.chars <+: (found msg w).1) ∧
    ((∀ c ∈ w.between, copiedIn c = none) →
      (.isMatch ∈ (main msg d w).lines ↔
        w.opened = true ∧ w.write.Succeeds ∧ (w.readFault = false ∨ msg.strlen = 0) ∧
          msg.strlen ≤ bufSize - 1 ∧ msg.strlen ≤ w.write.moved)) ∧
    ((main msg d w).status = 0 ↔ w.Answers msg) := by
  have hiff : .isMatch ∈ (main msg d w).lines ↔
      w.Answers msg ∧ msg.strlen ≤ bufSize - 1 ∧ msg.strlen ≤ foundLen msg w ∧
        msg.strlen ≤ (found msg w).2.transferred (writeLen (found msg w).1.length) ∧
        msg.chars <+: (found msg w).1 := by
    by_cases hanswers : w.Answers msg
    · rw [main_of_answers d hanswers]
      have hshown : msg.chars <+: shown msg w ↔ _ := prefix_readback_iff
      rw [Nat.le_min, and_assoc] at hshown
      rw [and_iff_right hanswers, ← hshown]
      split <;> simp_all
    · exact iff_of_false (main_of_not_answers d hanswers).1 fun h => hanswers h.1
  refine ⟨hiff, fun halone => ?_, ?_⟩
  · obtain ⟨hfound, hlen⟩ := found_own msg halone
    have hsize : bufSize - 1 < bufSize := by decide
    have hzero : writeLen msg.strlen = 0 ↔ msg.strlen = 0 := by
      rw [writeLen_eq]
      omega
    rw [hiff, World.Answers, hfound, hlen, hzero]
    constructor
    · rintro ⟨⟨hopened, hwrite, hread⟩, hroom, -, hmoved, -⟩
      rw [transferred_of_succeeds hwrite] at hmoved
      exact ⟨hopened, hwrite, hread, hroom, (Nat.le_min.mp hmoved).1⟩
    · rintro ⟨hopened, hwrite, hread, hroom, hmoved⟩
      have hwhole : writeLen msg.strlen = msg.strlen := by
        rw [writeLen_eq]
        omega
      refine ⟨⟨hopened, hwrite, hread⟩, hroom, hwhole.ge, ?_, List.prefix_rfl⟩
      rw [transferred_of_succeeds hwrite]
      exact Nat.le_min.mpr ⟨hmoved, hwhole.ge⟩
  · by_cases hanswers : w.Answers msg
    · rw [main_of_answers d hanswers]
      exact iff_of_true rfl hanswers
    · rw [(main_of_not_answers d hanswers).2]
      exact iff_of_false (by decide) hanswers

/-- The engine reports success and has moved nothing, but another process has
written the same message since. -/
def borrowed : World := ⟨true, { Env.ok with moved := 0 }, [.write [65] .ok], false⟩

theorem dma_test_verdict_borrowed :
    .isMatch ∈ (main (.lit "A") ⟨.zero _, .zero _, 0⟩ borrowed).lines := by
  obtain ⟨hiff, -, -⟩ := dma_test_verdict (.lit "A") ⟨.zero _, .zero _, 0⟩ borrowed
  exact hiff.mpr ⟨⟨rfl, by decide, .inl rfl⟩, by decide, by decide, by decide, by decide⟩

end KernelSpace.DmaMem2mem.Sequential.Program
