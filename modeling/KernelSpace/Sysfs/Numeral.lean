import KernelSpace.Sysfs.Attributes

/-!
# Sysfs — which texts `value_store` may take

`value_store` hands the text to `sscanf(buf, "%d", &value)` and reports
success without a look at what `sscanf` returned. So text that is no integer,
text behind an integer, and an integer outside the range of an `int` are
reported as stored like any other.

A `Numeral` is an integer as a user may write it: white space around an
optional minus sign and digits. It carries its own grammar, so `Denotes` needs
no side conditions, and `denoted` decides it. The store is right on exactly the
numerals that an `int` can hold.
-/

namespace KernelSpace.Sysfs

open KernelSpace.Kernel

/-! ## Numerals -/

/-- White space, an optional minus sign, digits, white space. -/
structure Numeral where
  before : List UInt8
  negative : Bool
  digits : List UInt8
  after : List UInt8
  before_space : ∀ c ∈ before, isSpace c = true
  digits_ne_nil : digits ≠ []
  digits_digit : ∀ c ∈ digits, isDigit c = true
  after_space : ∀ c ∈ after, isSpace c = true

namespace Numeral

def text (n : Numeral) : List UInt8 := n.before ++ (sign n.negative ++ n.digits ++ n.after)

def value (n : Numeral) : Int := signed n.negative (decimalValue n.digits)

theorem after_not_digit (n : Numeral) : ∀ c ∈ n.after.head?, isDigit c = false := by
  intro c hc
  have hspace : isSpace c = true := n.after_space c (List.mem_of_mem_head? hc)
  by_contra hdigit
  rw [not_isSpace_of_isDigit (by simpa using hdigit)] at hspace
  cases hspace

/-- No NUL ends the text early. -/
theorem nul_not_mem_text (n : Numeral) : (0 : UInt8) ∉ n.text := by
  intro h
  rcases List.mem_append.mp h with h | h
  · cases n.before_space 0 h
  rcases List.mem_append.mp h with h | h
  · rcases List.mem_append.mp h with h | h
    · rw [sign] at h
      split at h <;> simp at h
    · cases n.digits_digit 0 h
  · cases n.after_space 0 h

theorem vsscanf_text (n : Numeral) :
    vsscanf [.int] n.text = [.int (BitVec.ofInt 32 n.value)] := by
  obtain ⟨d, ds, hd⟩ := List.exists_cons_of_ne_nil n.digits_ne_nil
  have hne : n.text ≠ [] := by simp [text, hd]
  have hscan : scanInt n.text = some (BitVec.ofInt 32 n.value, n.after) :=
    scanInt_numeral n.negative n.before_space n.digits_ne_nil n.digits_digit n.after_not_digit
  simp only [vsscanf, if_neg hne, hscan]

end Numeral

/-- `text` is a way to write `i`. -/
def Denotes (text : List UInt8) (i : Int) : Prop := ∃ n : Numeral, n.text = text ∧ n.value = i

/-- The integer that the text denotes. -/
def denoted (text : List UInt8) : Option Int :=
  let str := skipSpaces text
  let negative := decide (str.head? = some 45)
  let body := if negative then str.tail else str
  let digits := body.takeWhile isDigit
  if !digits.isEmpty && (body.dropWhile isDigit).all isSpace then
    some (signed negative (decimalValue digits))
  else none

theorem denotes_of_denoted {text : List UInt8} {i : Int} (h : denoted text = some i) :
    Denotes text i := by
  simp only [denoted, Option.ite_none_right_eq_some, Option.some.injEq, Bool.and_eq_true,
    Bool.not_eq_true', List.isEmpty_eq_false_iff, List.all_eq_true] at h
  obtain ⟨⟨hne, hafter⟩, hvalue⟩ := h
  let str := skipSpaces text
  let negative := decide (str.head? = some 45)
  let body := if negative then str.tail else str
  have hbody : sign negative ++ body = str := by
    by_cases hminus : str.head? = some 45
    · have hneg : negative = true := decide_eq_true hminus
      simp only [body, hneg, if_true]
      exact List.cons_head?_tail hminus
    · have hneg : negative = false := decide_eq_false hminus
      simp only [body, hneg]
      rfl
  have htext : text.takeWhile isSpace
      ++ (sign negative ++ body.takeWhile isDigit ++ body.dropWhile isDigit) = text := by
    rw [List.append_assoc, List.takeWhile_append_dropWhile, hbody]
    exact List.takeWhile_append_dropWhile
  exact ⟨⟨text.takeWhile isSpace, negative, body.takeWhile isDigit, body.dropWhile isDigit,
    fun c => List.mem_takeWhile_imp, hne, fun c => List.mem_takeWhile_imp, hafter⟩, htext, hvalue⟩

theorem denoted_text (n : Numeral) : denoted n.text = some n.value := by
  obtain ⟨htake, hdrop⟩ := takeWhile_stop n.digits_digit n.after_not_digit
  obtain ⟨d, ds, hd⟩ := List.exists_cons_of_ne_nil n.digits_ne_nil
  have hdigit : isDigit d = true := n.digits_digit d (by rw [hd]; exact List.mem_cons_self)
  have hskip : skipSpaces n.text = sign n.negative ++ n.digits ++ n.after := by
    rw [skipSpaces, Numeral.text, List.dropWhile_append_of_pos n.before_space]
    cases n.negative with
    | true => exact skipSpaces_cons (by decide) (n.digits ++ n.after)
    | false =>
      rw [hd]
      exact skipSpaces_cons (not_isSpace_of_isDigit hdigit) (ds ++ n.after)
  have hminus : decide ((sign n.negative ++ n.digits ++ n.after).head? = some 45)
      = n.negative := by
    cases n.negative with
    | true => rfl
    | false => exact decide_eq_false (head_ne_minus n.digits_ne_nil n.digits_digit)
  have hbody : (if n.negative = true then (sign n.negative ++ n.digits ++ n.after).tail
      else sign n.negative ++ n.digits ++ n.after) = n.digits ++ n.after := by
    cases n.negative <;> rfl
  have hempty : n.digits.isEmpty = false := List.isEmpty_eq_false_iff.mpr n.digits_ne_nil
  have hafter : n.after.all isSpace = true := List.all_eq_true.mpr n.after_space
  simp only [denoted, hskip, hminus, hbody, htake, hdrop, hempty, hafter]
  rfl

theorem denoted_eq_some_iff {text : List UInt8} {i : Int} :
    denoted text = some i ↔ Denotes text i := by
  refine ⟨denotes_of_denoted, ?_⟩
  rintro ⟨n, rfl, rfl⟩
  exact denoted_text n

instance (text : List UInt8) (i : Int) : Decidable (Denotes text i) :=
  decidable_of_iff _ denoted_eq_some_iff

/-! ## The store -/

/-- The range of an `int`. -/
def FitsInt (i : Int) : Prop := -0x80000000 ≤ i ∧ i < 0x80000000

instance (i : Int) : Decidable (FitsInt i) := inferInstanceAs (Decidable (_ ∧ _))

/-- The text denotes an `int`. -/
def DenotesInt (text : List UInt8) : Prop := ∃ i, Denotes text i ∧ FitsInt i

/-- `%d` of any integer. -/
def printed (i : Int) : List UInt8 := sign (decide (i < 0)) ++ decimal i.natAbs

/-- The store reports success and shows the integer that the text denotes, or
it reports an error and leaves the value. -/
def StoresOrRefuses (s : State) (buf : List UInt8) : Prop :=
  ((valueStore s buf).1.ret = buf.length ∧ ∃ i, Denotes buf i ∧ FitsInt i ∧
      (valueShow (valueStore s buf).2).bytes = printed i ++ [10]) ∨
    ((valueStore s buf).1.ret < 0 ∧ (valueStore s buf).2.value = s.value)

/-- No text is refused. -/
theorem StoresOrRefuses.denotesInt {s : State} {buf : List UInt8} (h : StoresOrRefuses s buf) :
    DenotesInt buf := by
  rcases h with ⟨-, i, hi, hfits, -⟩ | ⟨hret, -⟩
  · exact ⟨i, hi, hfits⟩
  · exact absurd hret (Int.not_lt.mpr (Int.natCast_nonneg buf.length))

theorem valueStore_numeral (s : State) (n : Numeral) :
    (valueStore s n.text).2 = { s with value := BitVec.ofInt 32 n.value } := by
  rw [valueStore, CString.chars_ofBytes n.nul_not_mem_text, n.vsscanf_text]

theorem valueShow_bytes (s : State) : (valueShow s).bytes = printed s.value.toInt ++ [10] := by
  simp [valueShow, sprintf, render, Piece.render, newline_chars, formatInt_eq, printed]

/-- An integer in range survives its way through an `int`. -/
theorem toInt_ofInt_of_fits {i : Int} (h : FitsInt i) : (BitVec.ofInt 32 i).toInt = i := by
  rw [BitVec.toInt_ofInt]
  exact Int.bmod_eq_of_le (by have := h.1; omega) (by have := h.2; omega)

/-- **`value_store` is right on the numerals of `int`s and on nothing else.** -/
theorem stores_or_refuses_iff (s : State) (buf : List UInt8) :
    StoresOrRefuses s buf ↔ DenotesInt buf := by
  refine ⟨StoresOrRefuses.denotesInt, ?_⟩
  rintro ⟨i, ⟨n, rfl, rfl⟩, hfits⟩
  refine .inl ⟨rfl, n.value, ⟨n, rfl, rfl⟩, hfits, ?_⟩
  rw [valueShow_bytes, valueStore_numeral, toInt_ofInt_of_fits hfits]

/-- Text behind the digits is dropped without an error. -/
theorem trailing_text_stored : ¬ ∀ s buf, StoresOrRefuses s buf := by
  intro h
  obtain ⟨i, hdenotes, -⟩ := (h .init (CString.lit "12abc").chars).denotesInt
  have hnone : denoted (CString.lit "12abc").chars = none := by decide
  cases hnone.symm.trans (denoted_eq_some_iff.mpr hdenotes)

end KernelSpace.Sysfs
