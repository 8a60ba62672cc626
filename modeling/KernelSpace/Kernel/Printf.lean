import Mathlib.Data.Nat.Digits.Lemmas
import KernelSpace.Kernel.CString
import KernelSpace.Kernel.CTypes

/-!
# Formatted output

The `printf` family for the conversions the drivers use: `%d` and `%s` between
literal text. A format with its arguments filled in is a list of `Piece`s,
`render` is the text it stands for. `scnprintf` is the kernel's: it writes at
most `size - 1` bytes and a NUL and returns the number of bytes written
without the NUL; a `size` of 0 or above `INT_MAX` writes nothing.

`decimal_inv` and `isDigit_of_mem_decimal` say what a reader of a numeral
needs: it consists of digits and has the value it was made from.
-/

namespace KernelSpace.Kernel

/-! ## Decimal numerals -/

def isDigit (c : UInt8) : Bool := decide (48 ≤ c ∧ c ≤ 57)

/-- The digit `d` as a character. -/
def digitChar (d : Nat) : UInt8 := UInt8.ofNat (48 + d)

/-- The decimal numeral of `n`. -/
def decimal (n : Nat) : List UInt8 :=
  if n = 0 then [digitChar 0] else (Nat.digits 10 n).reverse.map digitChar

/-- The number that a string of digits denotes. -/
def decimalValue (ds : List UInt8) : Nat := ds.foldl (fun n c => n * 10 + (c.toNat - 48)) 0

theorem isDigit_digitChar : ∀ d < 10, isDigit (digitChar d) = true := by decide

theorem digitChar_value : ∀ d < 10, (digitChar d).toNat - 48 = d := by decide

theorem isDigit_of_mem_decimal {n : Nat} {c : UInt8} (h : c ∈ decimal n) : isDigit c = true := by
  unfold decimal at h
  split at h
  · rw [List.mem_singleton.mp h]
    decide
  · obtain ⟨d, hd, rfl⟩ := List.mem_map.mp h
    exact isDigit_digitChar d (Nat.digits_lt_base (by decide) (List.mem_reverse.mp hd))

theorem decimal_ne_nil (n : Nat) : decimal n ≠ [] := by
  unfold decimal
  split
  · exact List.cons_ne_nil _ _
  · rename_i hn
    rw [ne_eq, List.map_eq_nil_iff, List.reverse_eq_nil_iff]
    exact Nat.digits_ne_nil_iff_ne_zero.mpr hn

/-- Most significant digit first, as it is read. -/
theorem foldl_digitChar (ds : List Nat) (h : ∀ d ∈ ds, d < 10) :
    (ds.reverse.map digitChar).foldl (fun n c => n * 10 + (c.toNat - 48)) 0
      = Nat.ofDigits 10 ds := by
  -- the head is the least significant digit, so its character is read last
  induction ds with
  | nil => rfl
  | cons d ds ih =>
    rw [List.reverse_cons, List.map_append, List.foldl_append,
      ih fun d' hd' => h d' (List.mem_cons_of_mem _ hd')]
    simp only [List.map_cons, List.map_nil, List.foldl_cons, List.foldl_nil,
      Nat.ofDigits_cons, digitChar_value d (h d List.mem_cons_self)]
    omega

/-- A numeral denotes the number it was made from. -/
theorem decimal_inv (n : Nat) : decimalValue (decimal n) = n := by
  unfold decimalValue decimal
  split
  · rename_i hn
    rw [hn]
    decide
  · rw [foldl_digitChar _ fun d hd => Nat.digits_lt_base (by decide) hd, Nat.ofDigits_digits]

theorem length_decimal_le {n k : Nat} (hk : 0 < k) (h : n < 10 ^ k) : (decimal n).length ≤ k := by
  unfold decimal
  split
  · exact hk
  · rw [List.length_map, List.length_reverse]
    exact (Nat.digits_length_le_iff (by decide) n).mpr h

/-! ## Conversions -/

/-- `%d` of an `int`. -/
def formatInt (i : BitVec 32) : List UInt8 :=
  if i.toInt < 0 then 45 :: decimal i.toInt.natAbs else decimal i.toInt.natAbs

theorem length_formatInt_le (i : BitVec 32) : (formatInt i).length ≤ 11 := by
  have habs : i.toInt.natAbs < 10 ^ 10 := by
    have hlo := BitVec.le_toInt i
    have hhi := BitVec.toInt_lt (x := i)
    omega
  have hlen := length_decimal_le (by decide) habs
  unfold formatInt
  split
  · rw [List.length_cons]
    omega
  · omega

/-- A numeral has no NUL. -/
theorem nul_not_mem_formatInt (i : BitVec 32) : (0 : UInt8) ∉ formatInt i := by
  have hdecimal (n : Nat) : (0 : UInt8) ∉ decimal n := by
    intro h
    have hdigit := isDigit_of_mem_decimal h
    cases hdigit
  unfold formatInt
  split
  · rw [List.mem_cons, not_or]
    exact ⟨by decide, hdecimal _⟩
  · exact hdecimal _

/-- The digit `d` of a hexadecimal numeral. -/
def hexChar (d : Nat) : UInt8 := UInt8.ofNat (if d < 10 then 48 + d else 87 + d)

/-- `%px` of a pointer: 16 digits. -/
def formatPx (p : BitVec 64) : List UInt8 :=
  (List.range 16).reverse.map fun i => hexChar (p.toNat / 16 ^ i % 16)

/-- `%pa` of a physical address: `0x` and 16 digits. -/
def formatPa (p : BitVec 64) : List UInt8 := (CString.lit "0x").chars ++ formatPx p

theorem length_formatPx (p : BitVec 64) : (formatPx p).length = 16 := by
  simp [formatPx]

/-- A conversion with its argument, or literal text. -/
inductive Piece where
  | lit (text : CString)
  | int (i : BitVec 32)
  | str (s : CString)

def Piece.render : Piece → List UInt8
  | lit text => text.chars
  | int i => formatInt i
  | str s => s.chars

/-- The text of a format. -/
def render (fmt : List Piece) : List UInt8 := fmt.flatMap Piece.render

/-- `snprintf(buf, size, ...)`: the text in `buf`. -/
def snprintf (size : Nat) (fmt : List Piece) : List UInt8 := (render fmt).take (size - 1)

/-- `scnprintf(buf + pos, size, ...)`: the return value and the array. -/
def scnprintf {n : Nat} (buf : CharArray n) (pos size : Nat) (fmt : List Piece) :
    Nat × CharArray n :=
  if size = 0 ∨ INT_MAX < size then (0, buf)
  else
    let text := (render fmt).take (size - 1)
    (text.length, buf.store pos (text ++ [0]))

end KernelSpace.Kernel
