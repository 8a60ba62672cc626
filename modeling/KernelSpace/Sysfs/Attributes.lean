import KernelSpace.Kernel.Scanf
import KernelSpace.Lib.Service

/-!
# Sysfs — two attributes of a kobject (24)

`24.kobject_sysfs/kobject_sysfs.c`: an `int` and a name of at most 31 bytes,
each with a function that prints it and one that scans what the user writes.
The kernel hands a `store` function the written bytes with a NUL behind them.

Writing back what was shown changes nothing. For `value` this is the round trip
of `%d`. For `name` it needs what every `store` keeps (`Word`): a name with
white space in it, or without its NUL, would not be read back. An empty name is
shown as an empty line, which `%31s` scans as an empty word.

The registration of the kobject and the `printk` lines are left out.
-/

namespace KernelSpace.Sysfs

open KernelSpace.Kernel KernelSpace.Lib

/-- `sizeof(name)`. -/
def nameSize : Nat := 32

structure State where
  value : BitVec 32
  name : CharArray nameSize
deriving DecidableEq

/-- The module as loaded. -/
def State.init : State := ⟨0, (CharArray.zero nameSize).store 0 (CString.lit "Linux").mem⟩

/-- The return value and the bytes handed to the user. -/
structure Reply where
  ret : Int
  bytes : List UInt8
deriving DecidableEq

/-- `return sprintf(buf, ...)`. -/
def sprintf (fmt : List Piece) : Reply := ⟨(render fmt).length, render fmt⟩

def valueShow (s : State) : Reply := sprintf [.int s.value, .lit (.lit "\n")]

def valueStore (s : State) (buf : List UInt8) : Reply × State :=
  let s' :=
    match vsscanf [.int] (CString.ofBytes buf).chars with
    | .int i :: _ => { s with value := i }
    | _ => s
  (⟨buf.length, []⟩, s')

def nameShow (s : State) : Reply := sprintf [.str s.name.str, .lit (.lit "\n")]

def nameStore (s : State) (buf : List UInt8) : Reply × State :=
  let s' :=
    match vsscanf [.str 31] (CString.ofBytes buf).chars with
    | .str word :: _ => { s with name := s.name.store 0 (word ++ [0]) }
    | _ => s
  (⟨buf.length, []⟩, s')

/-- `attrs`. -/
inductive Attribute where
  | value
  | name

def Attribute.read (s : State) : Attribute → Reply
  | value => valueShow s
  | name => nameShow s

def Attribute.write (s : State) (buf : List UInt8) : Attribute → Reply × State
  | value => valueStore s buf
  | name => nameStore s buf

inductive Call where
  | read (attr : Attribute)
  | write (attr : Attribute) (buf : List UInt8)

def driver : Service State Call Reply where
  init := .init
  step s
    | .read attr => some (attr.read s, s)
    | .write attr buf => some (attr.write s buf)

/-! ## The name -/

/-- A whitespace-free string of at most 31 bytes. -/
structure Word (name : CharArray nameSize) : Prop where
  short : name.str.strlen ≤ 31
  clean : ∀ c ∈ name.str.chars, isSpace c = false

theorem Word.strlen_lt {name : CharArray nameSize} (h : Word name) :
    name.str.strlen < nameSize := Nat.lt_succ_of_le h.short

theorem init_name : State.init.name.str = .lit "Linux" := CharArray.str_store_mem _ (by decide)

theorem word_init : Word State.init.name := by
  constructor <;> rw [init_name]
  · decide
  · decide +kernel

/-- Whatever was written, a `name_store` leaves the state or a word for the
name. -/
theorem nameStore_cases (s : State) (buf : List UInt8) :
    (nameStore s buf).2 = s ∨ Word (nameStore s buf).2.name := by
  by_cases hempty : (CString.ofBytes buf).chars = []
  · left
    simp only [nameStore, vsscanf, hempty, if_true]
  · right
    obtain ⟨hlen, hchars⟩ := scanStr_spec 31 (CString.ofBytes buf).chars
    let word : CString := ⟨(scanStr 31 (CString.ofBytes buf).chars).1,
      fun h => (CString.ofBytes buf).nonul (hchars 0 h).2⟩
    have hstored : (nameStore s buf).2 = { s with name := s.name.store 0 word.mem } := by
      simp only [nameStore, vsscanf, if_neg hempty]
      rfl
    have hstr : (s.name.store 0 word.mem).str = word :=
      CharArray.str_store_mem _ (Nat.lt_succ_of_le hlen)
    rw [hstored]
    constructor
    · exact (congrArg CString.strlen hstr).trans_le hlen
    · intro c hc
      rw [hstr] at hc
      exact (hchars c hc).1

theorem valueStore_name (s : State) (buf : List UInt8) : (valueStore s buf).2.name = s.name := by
  rw [valueStore]
  dsimp only
  split <;> rfl

/-- **The name is a word** in every state that the driver comes to. -/
theorem word_of_run {cs : List Call} {rs : List Reply} {s : State}
    (h : driver.run driver.init cs = some (rs, s)) : Word s.name := by
  refine Service.run_inv (I := fun s => Word s.name) (P := fun _ => True) ?_ word_init
    (fun _ _ => trivial) h
  intro s c r s' hs _ hstep
  cases c with
  | read attr =>
    cases hstep
    exact hs
  | write attr buf =>
    obtain rfl : s' = (attr.write s buf).2 := congrArg Prod.snd (Option.some.inj hstep).symm
    cases attr with
    | value => exact (valueStore_name s buf).symm ▸ hs
    | name =>
      rcases nameStore_cases s buf with hsame | hword
      · exact hsame.symm ▸ hs
      · exact hword

/-! ## Writing back -/

theorem newline_chars : (CString.lit "\n").chars = [10] := by decide

/-- A line comes to `sscanf` as it was shown. -/
theorem chars_line {text : List UInt8} (h : (0 : UInt8) ∉ text) :
    (CString.ofBytes (text ++ [10])).chars = text ++ [10] := by
  apply CString.chars_ofBytes
  rw [List.mem_append, not_or]
  exact ⟨h, by decide⟩

theorem valueStore_valueShow (s : State) : (valueStore s (valueShow s).bytes).2 = s := by
  have hshow : (valueShow s).bytes = formatInt s.value ++ [10] := by
    simp [valueShow, sprintf, render, Piece.render, newline_chars]
  have hscan : vsscanf [.int] (formatInt s.value ++ [10]) = [.int s.value] := by
    have hint : scanInt (formatInt s.value ++ [10]) = some (s.value, [10]) := by
      apply scanInt_formatInt
      intro c hc
      cases hc
      decide
    simp [vsscanf, hint]
  rw [hshow, valueStore, chars_line (nul_not_mem_formatInt s.value), hscan]

/-- `%31s` reads a word and the newline behind it, the empty word included. -/
theorem scanStr_line {name : CharArray nameSize} (h : Word name) :
    (scanStr 31 (name.str.chars ++ [10])).1 = name.str.chars := by
  by_cases hempty : name.str.chars = []
  · rw [hempty]
    decide
  · rw [scanStr_append hempty h.clean ?_ h.short]
    intro c hc
    cases hc
    decide

theorem nameStore_nameShow {s : State} (h : Word s.name) :
    (nameStore s (nameShow s).bytes).2 = s := by
  have hshow : (nameShow s).bytes = s.name.str.chars ++ [10] := by
    simp [nameShow, sprintf, render, Piece.render, newline_chars]
  have hscan : vsscanf [.str 31] (s.name.str.chars ++ [10]) = [.str s.name.str.chars] := by
    have hne : s.name.str.chars ++ [10] ≠ [] := by simp
    simp only [vsscanf, if_neg hne, scanStr_line h]
  rw [hshow, nameStore, chars_line s.name.str.nonul, hscan]
  have hstore : s.name.store 0 (s.name.str.chars ++ [0]) = s.name :=
    CharArray.store_str_mem h.strlen_lt
  simp only [hstore]

/-- **Writing back what was shown** leaves the whole state as it was, for both
attributes and whatever was written before; and the name is a word throughout.
The `int` may be any. -/
theorem write_read_unchanged (cs : List Call) (rs : List Reply) (s : State)
    (h : driver.run driver.init cs = some (rs, s)) :
    (∀ attr : Attribute, (attr.write s (attr.read s).bytes).2 = s) ∧
      (∀ v : BitVec 32, (valueStore { s with value := v }
        (valueShow { s with value := v }).bytes).2.value = v) ∧
      s.name.str.strlen ≤ 31 ∧ ∀ c ∈ s.name.str.chars, isSpace c = false := by
  have hword := word_of_run h
  refine ⟨fun attr => ?_, fun v => ?_, hword.short, hword.clean⟩
  · cases attr with
    | value => exact valueStore_valueShow s
    | name => exact nameStore_nameShow hword
  · rw [valueStore_valueShow]

/-- The most negative `int`, and a name of which the first word counts. -/
def session : List Call :=
  [.write .value (CString.lit " -2147483648x\n").chars,
    .write .name (CString.lit "\t my name\n").chars]

theorem write_read_unchanged_session :
    ∃ rs s, driver.run driver.init session = some (rs, s) ∧ s.value = 0x80000000 ∧
      s.name.str = .lit "my" ∧ ∀ attr : Attribute, (attr.write s (attr.read s).bytes).2 = s := by
  refine ⟨_, _, rfl, ?_, ?_, ?_⟩
  · decide
  · decide
  · exact (write_read_unchanged session _ _ rfl).1

end KernelSpace.Sysfs
