import KernelSpace.Kernel.Printf

/-!
# Formatted input

The kernel's `vsscanf` for the conversions the drivers use: white space, `%d`
and `%<width>s`. A string is the list of its bytes without the NUL.

* White space in the format skips any amount of it in the input, none
  included; `isSpace` is the kernel's, in which the byte 0xa0 is a space.
* `%d` skips white space, then takes an optional minus sign and digits. The
  value is computed in 64 bits and cut to an `int`.
* `%<width>s` skips white space, then takes up to `width` other bytes.

A conversion at the end of the input ends the scan.
-/

namespace KernelSpace.Kernel

def isSpace (c : UInt8) : Bool := decide (9 ≤ c ∧ c ≤ 13 ∨ c = 32 ∨ c = 160)

def skipSpaces (s : List UInt8) : List UInt8 := s.dropWhile isSpace

inductive Conversion where
  | space
  | int
  | str (width : Nat)

/-- What a conversion stores. -/
inductive Scanned where
  | int (i : BitVec 32)
  | str (s : List UInt8)
deriving DecidableEq

/-- `simple_strtoll(s, &next, 10)`; the product and sums wrap. -/
def simpleStrtoll (s : List UInt8) : BitVec 64 × List UInt8 :=
  if s.head? = some 45 then
    (-BitVec.ofNat 64 (decimalValue (s.tail.takeWhile isDigit)), s.tail.dropWhile isDigit)
  else (BitVec.ofNat 64 (decimalValue (s.takeWhile isDigit)), s.dropWhile isDigit)

/-- `%d`: the `int` and the rest of the input. -/
def scanInt (s : List UInt8) : Option (BitVec 32 × List UInt8) :=
  let str := skipSpaces s
  let digit := if str.head? = some 45 then str.tail.head? else str.head?
  if digit.any isDigit then
    let (val, next) := simpleStrtoll str
    some (val.setWidth 32, next)
  else none

/-- `%<width>s`: the word and the rest of the input. -/
def scanStr (width : Nat) (s : List UInt8) : List UInt8 × List UInt8 :=
  let str := skipSpaces s
  let word := (str.takeWhile fun c => !isSpace c).take width
  (word, str.drop word.length)

/-- What the conversions of `fmt` store; `sscanf` returns their number. -/
def vsscanf : List Conversion → List UInt8 → List Scanned
  | [], _ => []
  | .space :: fmt, s => vsscanf fmt (skipSpaces s)
  | .int :: fmt, s =>
    if s = [] then []
    else
      match scanInt s with
      | some (i, next) => .int i :: vsscanf fmt next
      | none => []
  | .str width :: fmt, s =>
    if s = [] then []
    else .str (scanStr width s).1 :: vsscanf fmt (scanStr width s).2

/-! ## Reading back what was printed -/

theorem isDigit_iff {c : UInt8} : isDigit c = true ↔ 48 ≤ c.toNat ∧ c.toNat ≤ 57 := by
  simp [isDigit, UInt8.le_iff_toNat_le]

theorem not_isSpace_of_isDigit {c : UInt8} (h : isDigit c = true) : isSpace c = false := by
  rw [isDigit_iff] at h
  simp only [isSpace, UInt8.le_iff_toNat_le, ← UInt8.toNat_inj, decide_eq_false_iff_not]
  simp
  omega

/-- Input that starts with something else has no white space to skip. -/
theorem skipSpaces_cons {c : UInt8} (h : isSpace c = false) (s : List UInt8) :
    skipSpaces (c :: s) = c :: s := by
  simp [skipSpaces, h]

/-- A run of characters of one kind ends where another kind starts. -/
theorem takeWhile_stop {p : UInt8 → Bool} {run rest : List UInt8} (hrun : ∀ c ∈ run, p c = true)
    (hrest : ∀ c ∈ rest.head?, p c = false) :
    (run ++ rest).takeWhile p = run ∧ (run ++ rest).dropWhile p = rest := by
  rw [List.takeWhile_append_of_pos hrun, List.dropWhile_append_of_pos hrun]
  cases rest with
  | nil => simp
  | cons c rest =>
    have hc : p c = false := hrest c rfl
    simp [hc]

theorem head_ne_minus {ds rest : List UInt8} (hne : ds ≠ []) (hds : ∀ c ∈ ds, isDigit c = true) :
    (ds ++ rest).head? ≠ some 45 := by
  obtain ⟨c, cs, rfl⟩ := List.exists_cons_of_ne_nil hne
  intro h45
  have hc : isDigit c = true := hds c List.mem_cons_self
  cases Option.some.inj h45
  cases hc

theorem simpleStrtoll_digits {ds rest : List UInt8} (hne : ds ≠ [])
    (hds : ∀ c ∈ ds, isDigit c = true) (hrest : ∀ c ∈ rest.head?, isDigit c = false) :
    simpleStrtoll (ds ++ rest) = (BitVec.ofNat 64 (decimalValue ds), rest) := by
  obtain ⟨htake, hdrop⟩ := takeWhile_stop hds hrest
  rw [simpleStrtoll, if_neg (head_ne_minus hne hds), htake, hdrop]

theorem simpleStrtoll_minus {ds rest : List UInt8} (hds : ∀ c ∈ ds, isDigit c = true)
    (hrest : ∀ c ∈ rest.head?, isDigit c = false) :
    simpleStrtoll (45 :: ds ++ rest) = (-BitVec.ofNat 64 (decimalValue ds), rest) := by
  obtain ⟨htake, hdrop⟩ := takeWhile_stop hds hrest
  have hhead : (45 :: ds ++ rest).head? = some 45 := rfl
  have htail : (45 :: ds ++ rest).tail = ds ++ rest := rfl
  rw [simpleStrtoll, if_pos hhead, htail, htake, hdrop]

theorem scanInt_eq {s str rest : List UInt8} {val : BitVec 64} (hskip : skipSpaces s = str)
    (hdigit : (if str.head? = some 45 then str.tail.head? else str.head?).any isDigit = true)
    (hval : simpleStrtoll str = (val, rest)) : scanInt s = some (val.setWidth 32, rest) := by
  simp only [scanInt, hskip, hdigit, hval, if_true]

/-- The number that digits stand for behind a minus sign or without one. -/
def signed (neg : Bool) (n : Nat) : Int := if neg then -n else n

/-- A minus sign or nothing. -/
def sign (neg : Bool) : List UInt8 := if neg then [45] else []

/-- **`%d` reads a numeral** behind any white space, up to the first character
that is not a digit; the number is cut to an `int`. -/
theorem scanInt_numeral {before ds rest : List UInt8} (neg : Bool)
    (hbefore : ∀ c ∈ before, isSpace c = true) (hne : ds ≠ [])
    (hds : ∀ c ∈ ds, isDigit c = true) (hrest : ∀ c ∈ rest.head?, isDigit c = false) :
    scanInt (before ++ (sign neg ++ ds ++ rest))
      = some (BitVec.ofInt 32 (signed neg (decimalValue ds)), rest) := by
  obtain ⟨d, cs, hd⟩ := List.exists_cons_of_ne_nil hne
  have hdigit : isDigit d = true := hds d (by rw [hd]; exact List.mem_cons_self)
  have hskip (c : UInt8) (tail : List UInt8) (hc : isSpace c = false) :
      skipSpaces (before ++ c :: tail) = c :: tail := by
    rw [skipSpaces, List.dropWhile_append_of_pos hbefore]
    exact skipSpaces_cons hc tail
  cases neg with
  | true =>
    -- 64 bits hold the number before the cut, so the cut is that of the number itself
    have hval : BitVec.ofInt 32 (signed true (decimalValue ds))
        = (-BitVec.ofNat 64 (decimalValue ds)).setWidth 32 := by
      rw [BitVec.setWidth_neg_of_le (by decide), BitVec.setWidth_ofNat_of_le (by decide),
        ← BitVec.ofInt_natCast, ← BitVec.ofInt_neg]
      rfl
    rw [hval]
    refine scanInt_eq (hskip 45 (ds ++ rest) (by decide)) ?_ (simpleStrtoll_minus hds hrest)
    rw [hd]
    exact hdigit
  | false =>
    have hval : BitVec.ofInt 32 (signed false (decimalValue ds))
        = (BitVec.ofNat 64 (decimalValue ds)).setWidth 32 := by
      rw [BitVec.setWidth_ofNat_of_le (by decide), ← BitVec.ofInt_natCast]
      rfl
    have hcons : sign false ++ ds ++ rest = ds ++ rest := rfl
    rw [hval, hcons]
    refine scanInt_eq ?_ ?_ (simpleStrtoll_digits hne hds hrest)
    · rw [hd]
      exact hskip d (cs ++ rest) (not_isSpace_of_isDigit hdigit)
    · rw [if_neg (head_ne_minus hne hds), hd]
      exact hdigit

theorem formatInt_eq (i : BitVec 32) :
    formatInt i = sign (decide (i.toInt < 0)) ++ decimal i.toInt.natAbs := by
  unfold formatInt
  split
  · rename_i hneg
    rw [decide_eq_true hneg]
    rfl
  · rename_i hpos
    rw [decide_eq_false hpos]
    rfl

theorem signed_natAbs (i : Int) : signed (decide (i < 0)) i.natAbs = i := by
  by_cases hneg : i < 0
  · rw [signed, if_pos (decide_eq_true hneg)]
    omega
  · rw [signed, if_neg (by simpa using hneg)]
    omega

/-- **`%d` reads what `%d` printed.** -/
theorem scanInt_formatInt (i : BitVec 32) {rest : List UInt8}
    (hrest : ∀ c ∈ rest.head?, isDigit c = false) :
    scanInt (formatInt i ++ rest) = some (i, rest) := by
  have hbefore : ∀ c ∈ ([] : List UInt8), isSpace c = true := nofun
  have hscan := scanInt_numeral (decide (i.toInt < 0)) hbefore
    (decimal_ne_nil i.toInt.natAbs) (fun _ => isDigit_of_mem_decimal) hrest
  rw [decimal_inv, signed_natAbs, BitVec.ofInt_toInt] at hscan
  rw [formatInt_eq]
  exact hscan

/-- **`%<width>s` reads a word** that is not longer than the width, up to the
white space behind it. -/
theorem scanStr_append {width : Nat} {word rest : List UInt8} (hne : word ≠ [])
    (hword : ∀ c ∈ word, isSpace c = false) (hrest : ∀ c ∈ rest.head?, isSpace c = true)
    (hlen : word.length ≤ width) : scanStr width (word ++ rest) = (word, rest) := by
  have hskip : skipSpaces (word ++ rest) = word ++ rest := by
    obtain ⟨c, cs, rfl⟩ := List.exists_cons_of_ne_nil hne
    exact skipSpaces_cons (hword c List.mem_cons_self) (cs ++ rest)
  have htake : (word ++ rest).takeWhile (fun c => !isSpace c) = word :=
    (takeWhile_stop (fun c hc => by rw [hword c hc]; rfl)
      fun c hc => by rw [hrest c hc]; rfl).1
  simp only [scanStr, hskip, htake, List.take_of_length_le hlen, List.drop_left]

theorem scanStr_word {width : Nat} {word : List UInt8} (hne : word ≠ [])
    (hword : ∀ c ∈ word, isSpace c = false) (hlen : word.length ≤ width) :
    scanStr width word = (word, []) := by
  have hrest : ∀ c ∈ ([] : List UInt8).head?, isSpace c = true := nofun
  simpa using scanStr_append hne hword hrest hlen

/-- What `%<width>s` stores is a word from the input, of at most `width`
bytes. -/
theorem scanStr_spec (width : Nat) (s : List UInt8) :
    (scanStr width s).1.length ≤ width ∧
      ∀ c ∈ (scanStr width s).1, isSpace c = false ∧ c ∈ s := by
  refine ⟨List.length_take_le .., fun c hc => ?_⟩
  have hword : c ∈ (skipSpaces s).takeWhile fun c => !isSpace c := List.mem_of_mem_take hc
  refine ⟨by simpa using List.mem_takeWhile_imp hword, ?_⟩
  have hskipped := (List.takeWhile_prefix _).mem hword
  exact (List.dropWhile_suffix _).mem hskipped

end KernelSpace.Kernel
