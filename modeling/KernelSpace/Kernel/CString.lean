import Mathlib.Data.List.Basic
import Mathlib.Data.List.TakeWhile

/-!
# C strings and char arrays

The `<linux/string.h>` functions the drivers call, on two types that carry
their own well-formedness:

* `CString` — the text behind a `const char *`: bytes without a NUL. The
  terminator is not stored, so "NUL-terminated" is the type itself;
* `CharArray n` — `char a[n]`: exactly `n` bytes, with stores at an offset
  (`store`) and the text a `%s` or `strlen` would read from it (`str`).

`store` drops what would fall past the end; each caller's bound says that
nothing does.
-/

namespace KernelSpace.Kernel

/-! ## C strings -/

/-- The text behind a NUL-terminated `const char *`. -/
structure CString where
  chars : List UInt8
  nonul : (0 : UInt8) ∉ chars
deriving DecidableEq

namespace CString

/-- The C string that starts at the first byte of `mem` and ends before the
first NUL (or at the end of `mem`, which every caller rules out). -/
def ofBytes (mem : List UInt8) : CString where
  chars := mem.takeWhile (· ≠ 0)
  nonul := by
    intro h
    simpa using List.mem_takeWhile_imp h

/-- A string literal (ASCII). -/
def lit (s : String) : CString := ofBytes (s.toList.map fun c => c.toNat.toUInt8)

/-- The bytes in memory, terminator included. -/
def mem (s : CString) : List UInt8 := s.chars ++ [0]

def strlen (s : CString) : Nat := s.chars.length

/-- The first `k` bytes of the text. -/
def take (s : CString) (k : Nat) : CString where
  chars := s.chars.take k
  nonul := fun h => s.nonul (List.mem_of_mem_take h)

@[ext] theorem ext {s t : CString} (h : s.chars = t.chars) : s = t := by
  cases s
  cases t
  simpa using h

theorem take_of_length_le {s : CString} {k : Nat} (h : s.strlen ≤ k) : s.take k = s := by
  ext1
  exact List.take_of_length_le h

theorem strlen_take_le (s : CString) (k : Nat) : (s.take k).strlen ≤ k :=
  List.length_take_le k s.chars

theorem take_take_self (s : CString) (k : Nat) : (s.take k).take k = s.take k :=
  take_of_length_le (s.strlen_take_le k)

/-- Reading stops at the first NUL, whatever follows it. -/
theorem ofBytes_append_nul (s : CString) (rest : List UInt8) :
    ofBytes (s.chars ++ 0 :: rest) = s := by
  have hs : ∀ b ∈ s.chars, decide (b ≠ 0) = true := by
    intro b hb
    have : b ≠ 0 := fun h => s.nonul (h ▸ hb)
    simpa using this
  ext1
  change (s.chars ++ 0 :: rest).takeWhile _ = s.chars
  rw [List.takeWhile_append_of_pos hs]
  simp

@[simp] theorem ofBytes_mem (s : CString) : ofBytes s.mem = s := ofBytes_append_nul s []

/-- A text without a NUL is read whole. -/
theorem chars_ofBytes {mem : List UInt8} (h : (0 : UInt8) ∉ mem) : (ofBytes mem).chars = mem := by
  refine List.takeWhile_eq_self_iff.mpr fun b hb => ?_
  have hb0 : b ≠ 0 := fun heq => h (heq ▸ hb)
  simpa using hb0

theorem nul_mem_mem (s : CString) : (0 : UInt8) ∈ s.mem := by simp [mem]

/-- The text goes on as long as the bytes are there and none is a NUL. -/
theorem lt_strlen_ofBytes_iff (mem : List UInt8) (i : Nat) :
    i < (ofBytes mem).strlen ↔ ∀ j ≤ i, ∃ b ∈ mem[j]?, b ≠ 0 := by
  induction mem generalizing i with
  | nil =>
    refine ⟨fun h => absurd h (Nat.not_lt_zero i), fun h => ?_⟩
    obtain ⟨b, hb, -⟩ := h 0 (Nat.zero_le i)
    cases hb
  | cons c mem ih =>
    by_cases hc : c = 0
    · -- the text is empty
      have hnil : (ofBytes (c :: mem)).strlen = 0 := by simp [ofBytes, strlen, hc]
      rw [hnil]
      refine ⟨fun h => absurd h (Nat.not_lt_zero i), fun h => ?_⟩
      obtain ⟨b, hb, hb0⟩ := h 0 (Nat.zero_le i)
      cases hb
      exact absurd hc hb0
    · have hcons : (ofBytes (c :: mem)).strlen = (ofBytes mem).strlen + 1 := by
        simp [ofBytes, strlen, hc]
      rw [hcons]
      cases i with
      | zero =>
        refine iff_of_true (Nat.succ_pos _) fun j hj => ?_
        cases Nat.le_zero.mp hj
        exact ⟨c, rfl, hc⟩
      | succ i =>
        rw [Nat.add_lt_add_iff_right, ih]
        refine ⟨fun h j hj => ?_, fun h j hj => h (j + 1) (Nat.succ_le_succ hj)⟩
        cases j with
        | zero => exact ⟨c, rfl, hc⟩
        | succ j => exact h j (Nat.le_of_succ_le_succ hj)

theorem strlen_ofBytes_le (mem : List UInt8) : (ofBytes mem).strlen ≤ mem.length :=
  List.IsPrefix.length_le (List.takeWhile_prefix _)

/-- `strcmp` on the texts: byte by byte, a shorter text first. -/
def strcmpChars : List UInt8 → List UInt8 → Int
  | [], [] => 0
  | [], _ :: _ => -1
  | _ :: _, [] => 1
  | a :: as, b :: bs => if a = b then strcmpChars as bs else if a < b then -1 else 1

def strcmp (s t : CString) : Int := strcmpChars s.chars t.chars

theorem strcmpChars_eq_zero_iff (as bs : List UInt8) : strcmpChars as bs = 0 ↔ as = bs := by
  induction as generalizing bs with
  | nil => cases bs <;> simp [strcmpChars]
  | cons a as ih =>
    cases bs with
    | nil => simp [strcmpChars]
    | cons b bs =>
      by_cases hab : a = b
      · simp [strcmpChars, hab, ih]
      · have : strcmpChars (a :: as) (b :: bs) ≠ 0 := by
          rw [strcmpChars, if_neg hab]
          split <;> decide
        simp [this, hab]

/-- `strcmp` answers 0 exactly on equal texts. -/
theorem strcmp_eq_zero_iff (s t : CString) : strcmp s t = 0 ↔ s = t := by
  rw [strcmp, strcmpChars_eq_zero_iff, CString.ext_iff]

/-- No more than `n` characters are compared. -/
def strncmp (s t : CString) (n : Nat) : Int := strcmp (s.take n) (t.take n)

theorem strncmp_strlen_eq_zero_iff (s t : CString) :
    strncmp s t s.strlen = 0 ↔ s.chars <+: t.chars := by
  rw [strncmp, strcmp_eq_zero_iff, take_of_length_le (Nat.le_refl s.strlen), CString.ext_iff]
  exact List.prefix_iff_eq_take.symm

/-- What comes behind a NUL does not matter to a text. -/
theorem prefix_ofBytes_iff {s : CString} {mem : List UInt8} :
    s.chars <+: (ofBytes mem).chars ↔ s.chars <+: mem := by
  constructor
  · intro h
    exact h.trans (List.takeWhile_prefix _)
  · rintro ⟨rest, rfl⟩
    have hs : ∀ b ∈ s.chars, decide (b ≠ 0) = true := by
      intro b hb
      have hb0 : b ≠ 0 := fun h => s.nonul (h ▸ hb)
      simpa using hb0
    change s.chars <+: (s.chars ++ rest).takeWhile _
    rw [List.takeWhile_append_of_pos hs]
    exact List.prefix_append ..

theorem ofBytes_append_zeros (mem : List UInt8) (k : Nat) :
    ofBytes (mem ++ List.replicate k 0) = ofBytes mem := by
  have hzeros : (List.replicate k (0 : UInt8)).takeWhile (fun b => decide (b ≠ 0)) = [] := by
    cases k <;> simp [List.replicate_succ]
  ext1
  change (mem ++ List.replicate k 0).takeWhile _ = mem.takeWhile _
  rw [List.takeWhile_append, hzeros, List.append_nil]
  split
  · rename_i hall
    exact ((List.takeWhile_prefix _).eq_of_length hall).symm
  · rfl

end CString

/-! ## Char arrays -/

/-- `char a[n]`. -/
structure CharArray (n : Nat) where
  bytes : List UInt8
  size : bytes.length = n
deriving DecidableEq

namespace CharArray

variable {n : Nat}

@[ext] theorem ext {a b : CharArray n} (h : a.bytes = b.bytes) : a = b := by
  cases a
  cases b
  simpa using h

/-- The zeroed array of static or `kzalloc`ed storage. -/
def zero (n : Nat) : CharArray n := ⟨List.replicate n 0, List.length_replicate⟩

/-- Stores `bs` at offset `i`. -/
def store (a : CharArray n) (i : Nat) (bs : List UInt8) : CharArray n where
  bytes := (a.bytes.take i ++ bs ++ a.bytes.drop (i + bs.length)).take n
  size := by
    have := a.size
    simp only [List.length_take, List.length_append, List.length_drop]
    omega

/-- The text a `%s` or `strlen` reads from the start of the array. -/
def str (a : CharArray n) : CString := CString.ofBytes a.bytes

/-- The array after a `copy_from_user` of `len` bytes to its start that failed
behind `k` of them: the kernel clears the rest. -/
def copyFault (a : CharArray n) (buf : List UInt8) (len k : Nat) : CharArray n :=
  a.store 0 ((buf.take len).take k ++ List.replicate (len - k) 0)

/-- Byte `j` of what a `copy_from_user` of `buf` that failed behind `k` bytes
leaves in the requested length. -/
def faultByte (buf : List UInt8) (k j : Nat) : UInt8 := if j < k then buf.getD j 0 else 0

/-- A store inside the array: what it leaves before and after. -/
theorem store_bytes (a : CharArray n) {i : Nat} {bs : List UInt8} (h : i + bs.length ≤ n) :
    (a.store i bs).bytes = a.bytes.take i ++ bs ++ a.bytes.drop (i + bs.length) := by
  have := a.size
  apply List.take_of_length_le
  simp only [List.length_append, List.length_take, List.length_drop]
  omega

/-- Byte `j` after a store inside the array. -/
theorem getElem?_store (a : CharArray n) {i : Nat} {bs : List UInt8} (h : i + bs.length ≤ n)
    (j : Nat) : (a.store i bs).bytes[j]?
      = if i ≤ j ∧ j < i + bs.length then bs[j - i]? else a.bytes[j]? := by
  have hsize := a.size
  have hfront : (a.bytes.take i).length = i := List.length_take_of_le (by omega)
  rw [store_bytes a h, List.append_assoc]
  rcases Nat.lt_or_ge j i with hlt | hge
  · rw [List.getElem?_append_left (by omega), List.getElem?_take_of_lt hlt, if_neg (by omega)]
  · rw [List.getElem?_append_right (by omega), hfront]
    rcases Nat.lt_or_ge j (i + bs.length) with hin | hbehind
    · rw [List.getElem?_append_left (by omega), if_pos ⟨hge, hin⟩]
    · rw [List.getElem?_append_right (by omega), List.getElem?_drop, if_neg (by omega)]
      have hj : i + bs.length + (j - i - bs.length) = j := by omega
      rw [hj]

theorem getElem?_copyFault (a : CharArray n) {buf : List UInt8} {len : Nat} (hn : len ≤ n)
    (hlen : len ≤ buf.length) (k j : Nat) : (a.copyFault buf len k).bytes[j]?
      = if j < len then some (faultByte buf k j) else a.bytes[j]? := by
  have hcopied : ((buf.take len).take k).length = min k len := by
    rw [List.length_take, List.length_take_of_le hlen]
  have hall : ((buf.take len).take k ++ List.replicate (len - k) 0).length = len := by
    rw [List.length_append, hcopied, List.length_replicate]
    omega
  rw [copyFault, getElem?_store a (by omega), hall, Nat.sub_zero]
  rcases Nat.lt_or_ge j len with hin | hbehind
  · rw [if_pos (by omega), if_pos hin, faultByte]
    split
    · rename_i hk
      rw [List.getElem?_append_left (by omega), List.getElem?_take_of_lt hk,
        List.getElem?_take_of_lt hin, List.getD_eq_getElem?_getD,
        List.getElem?_eq_getElem (Nat.lt_of_lt_of_le hin hlen), Option.getD_some]
    · rw [List.getElem?_append_right (by omega)]
      exact List.getElem?_replicate_of_lt (by omega)
  · rw [if_neg (by omega), if_neg (by omega)]

/-- The text is the first `strlen` bytes. -/
theorem take_strlen (a : CharArray n) : a.bytes.take a.str.strlen = a.str.chars :=
  (List.prefix_iff_eq_take.mp (List.takeWhile_prefix _)).symm

theorem getElem?_str (a : CharArray n) {i : Nat} (h : i < a.str.strlen) :
    a.str.chars[i]? = a.bytes[i]? := by
  rw [← a.take_strlen, List.getElem?_take_of_lt h]

theorem strlen_le (a : CharArray n) : a.str.strlen ≤ n :=
  Nat.le_trans (CString.strlen_ofBytes_le a.bytes) a.size.le

/-- Two arrays have the same front when they agree byte by byte. -/
theorem take_eq_take_iff {a b : CharArray n} {v : Nat} :
    a.bytes.take v = b.bytes.take v ↔ ∀ i < v, a.bytes[i]? = b.bytes[i]? := by
  refine ⟨fun h i hi => ?_, fun h => List.ext_getElem? fun i => ?_⟩
  · rw [← List.getElem?_take_of_lt hi, h, List.getElem?_take_of_lt hi]
  · rcases Nat.lt_or_ge i v with hi | hi
    · rw [List.getElem?_take_of_lt hi, List.getElem?_take_of_lt hi, h i hi]
    · rw [List.getElem?_take_eq_none hi, List.getElem?_take_eq_none hi]

/-- The first `v` bytes behind a failed copy depend on those before it only. -/
theorem take_copyFault_congr {a b : CharArray n} {v : Nat}
    (h : a.bytes.take v = b.bytes.take v) {buf : List UInt8} {len : Nat} (hn : len ≤ n)
    (hlen : len ≤ buf.length) (k : Nat) :
    (a.copyFault buf len k).bytes.take v = (b.copyFault buf len k).bytes.take v := by
  rw [take_eq_take_iff] at h ⊢
  intro i hi
  rw [getElem?_copyFault a hn hlen, getElem?_copyFault b hn hlen, h i hi]

/-- What a failed copy of `len` bytes leaves is what was there, in the first
`v` bytes. -/
def Unharmed (a : CharArray n) (buf : List UInt8) (len k v : Nat) : Prop :=
  ∀ i < min len v, a.bytes[i]? = some (faultByte buf k i)

instance (a : CharArray n) (buf : List UInt8) (len k v : Nat) :
    Decidable (Unharmed a buf len k v) := inferInstanceAs (Decidable (∀ i < _, _))

theorem unharmed_iff_forall (a : CharArray n) {buf : List UInt8} {len : Nat} (hn : len ≤ n)
    (hlen : len ≤ buf.length) (k v : Nat) : Unharmed a buf len k v ↔
      ∀ i < v, (a.copyFault buf len k).bytes[i]? = a.bytes[i]? := by
  refine ⟨fun h i hi => ?_, fun h i hi => ?_⟩
  · rw [getElem?_copyFault a hn hlen]
    split
    · rename_i hlt
      exact (h i (Nat.lt_min.mpr ⟨hlt, hi⟩)).symm
    · rfl
  · obtain ⟨hlt, hv⟩ := Nat.lt_min.mp hi
    rw [← h i hv, getElem?_copyFault a hn hlen, if_pos hlt]

theorem unharmed_iff_take (a : CharArray n) {buf : List UInt8} {len : Nat} (hn : len ≤ n)
    (hlen : len ≤ buf.length) (k v : Nat) : Unharmed a buf len k v ↔
      (a.copyFault buf len k).bytes.take v = a.bytes.take v := by
  rw [unharmed_iff_forall a hn hlen, take_eq_take_iff]

/-- `strlen` stops inside the array exactly when there is a NUL in it. -/
theorem strlen_lt_iff (a : CharArray n) : a.str.strlen < n ↔ (0 : UInt8) ∈ a.bytes := by
  constructor
  · intro hlt
    by_contra hmem
    have hchars : a.str.chars = a.bytes := CString.chars_ofBytes hmem
    have hstr : a.str.strlen = n := (congrArg List.length hchars).trans a.size
    omega
  · intro hmem
    refine Nat.lt_of_le_of_ne a.strlen_le fun heq => a.str.nonul ?_
    have hall : a.bytes = a.str.chars := by
      rw [← a.take_strlen, List.take_of_length_le (by rw [a.size, heq])]
    exact hall ▸ hmem

@[simp] theorem store_nil (a : CharArray n) (i : Nat) : a.store i [] = a := by
  ext1
  have hsize : a.bytes.length ≤ n := a.size.le
  simp [store, List.take_of_length_le hsize]

/-- What is stored at the start of the array stands there. -/
theorem take_store (a : CharArray n) {bs : List UInt8} (h : bs.length ≤ n) :
    (a.store 0 bs).bytes.take bs.length = bs := by
  rw [store_bytes a (by omega), List.take_zero, List.nil_append, List.take_left]

/-- A store that changes nothing. -/
theorem store_eq_self_iff {a : CharArray n} {bs : List UInt8} (h : bs.length ≤ n) :
    a.store 0 bs = a ↔ a.bytes.take bs.length = bs := by
  constructor
  · intro heq
    have htake := a.take_store h
    rwa [heq] at htake
  · intro htake
    ext1
    rw [store_bytes a (by omega), List.take_zero, List.nil_append, Nat.zero_add]
    nth_rewrite 1 [← htake]
    exact List.take_append_drop bs.length a.bytes

/-- A text stored with its terminator at the start of the array is the text
the array holds. -/
theorem str_store_mem (a : CharArray n) {s : CString} (h : s.strlen < n) :
    (a.store 0 s.mem).str = s := by
  have hlen : 0 + s.mem.length ≤ n := by
    simp only [CString.mem, List.length_append, List.length_singleton]
    rw [CString.strlen] at h
    omega
  rw [str, store_bytes a hlen]
  simpa [CString.mem] using CString.ofBytes_append_nul s _

/-- A text stored at the start of the array and its terminator behind it. -/
theorem str_store_nul (a : CharArray n) {s : CString} (h : s.strlen < n) :
    ((a.store 0 s.chars).store s.strlen [0]).str = s := by
  have hlen : 0 + s.chars.length ≤ n := by
    rw [CString.strlen] at h
    omega
  have hnul : s.strlen + [(0 : UInt8)].length ≤ n := h
  have htake : (s.chars ++ a.bytes.drop (0 + s.chars.length)).take s.strlen = s.chars :=
    List.take_left
  rw [str, store_bytes _ hnul, store_bytes a hlen, List.take_zero, List.nil_append, htake,
    List.append_assoc]
  exact CString.ofBytes_append_nul s _

/-- The NUL behind the text. -/
theorem getElem?_strlen {a : CharArray n} (h : a.str.strlen < n) :
    a.bytes[a.str.strlen]? = some 0 := by
  have hin : a.str.strlen < a.bytes.length := by rwa [a.size]
  obtain ⟨b, hb⟩ : ∃ b, a.bytes[a.str.strlen]? = some b := ⟨_, List.getElem?_eq_getElem hin⟩
  by_cases hzero : b = 0
  · rw [hb, hzero]
  · -- otherwise the text would go on
    have hlonger : a.str.strlen < (CString.ofBytes a.bytes).strlen := by
      rw [CString.lt_strlen_ofBytes_iff]
      intro j hj
      rcases Nat.lt_or_eq_of_le hj with hlt | rfl
      · exact (CString.lt_strlen_ofBytes_iff a.bytes j).mp hlt j (Nat.le_refl j)
      · exact ⟨b, hb, hzero⟩
    exact absurd hlonger (Nat.lt_irrefl _)

/-- The text stored over itself. -/
theorem store_str_mem {a : CharArray n} (h : a.str.strlen < n) : a.store 0 a.str.mem = a := by
  have hlen : a.str.mem.length = a.str.strlen + 1 := by
    rw [CString.mem, List.length_append, List.length_singleton, CString.strlen]
  ext1
  refine List.ext_getElem? fun i => ?_
  rw [getElem?_store a (by omega), hlen]
  split
  · rename_i hi
    rw [Nat.sub_zero, CString.mem]
    rcases Nat.lt_or_ge i a.str.strlen with hlt | hge
    · rw [List.getElem?_append_left hlt, getElem?_str a hlt]
    · obtain rfl : i = a.str.strlen := by omega
      rw [getElem?_strlen h]
      exact List.getElem?_concat_length
  · rfl

/-- Two arrays hold the same text when they agree up to its NUL. -/
theorem str_eq_iff {a b : CharArray n} (h : a.str.strlen < n) :
    b.str = a.str ↔ ∀ i < a.str.strlen + 1, b.bytes[i]? = a.bytes[i]? := by
  constructor
  · intro heq i hi
    have hb : b.str.strlen < n := heq ▸ h
    rcases Nat.lt_or_eq_of_le (Nat.le_of_lt_succ hi) with hlt | rfl
    · have hlt' : i < b.str.strlen := heq ▸ hlt
      rw [← getElem?_str a hlt, ← getElem?_str b hlt', heq]
    · rw [getElem?_strlen h, ← getElem?_strlen hb, heq]
  · intro hbytes
    have hlen : b.str.strlen = a.str.strlen := by
      apply Nat.le_antisymm
      · by_contra hlt
        have hgo := (CString.lt_strlen_ofBytes_iff b.bytes a.str.strlen).mp (Nat.lt_of_not_le hlt)
        obtain ⟨c, hc, hc0⟩ := hgo a.str.strlen (Nat.le_refl _)
        rw [hbytes _ (Nat.lt_succ_self _), getElem?_strlen h] at hc
        cases hc
        exact hc0 rfl
      · by_contra hlt
        have hshort := Nat.lt_of_not_le hlt
        have hnul := getElem?_strlen (a := b) (Nat.lt_trans hshort h)
        rw [hbytes _ (Nat.lt_succ_of_lt hshort)] at hnul
        obtain ⟨c, hc, hc0⟩ := (CString.lt_strlen_ofBytes_iff a.bytes b.str.strlen).mp hshort _
          (Nat.le_refl _)
        cases hnul.symm.trans hc
        exact hc0 rfl
    ext1
    refine List.ext_getElem? fun i => ?_
    rcases Nat.lt_or_ge i a.str.strlen with hi | hi
    · rw [getElem?_str a hi, getElem?_str b (hlen ▸ hi), hbytes i (Nat.lt_succ_of_lt hi)]
    · rw [List.getElem?_eq_none (hlen.trans_le hi), List.getElem?_eq_none hi]

/-- The text behind a failed copy ends in the bytes that were cleared, so it is
the same whatever the array held. -/
theorem str_copyFault_congr (a b : CharArray n) {buf : List UInt8} {len k : Nat} (hn : len ≤ n)
    (hlen : len ≤ buf.length) (hk : k < len) :
    (b.copyFault buf len k).str = (a.copyFault buf len k).str := by
  have hends : (a.copyFault buf len k).str.strlen ≤ k := by
    by_contra hlong
    obtain ⟨c, hc, hc0⟩ :=
      (CString.lt_strlen_ofBytes_iff _ k).mp (Nat.lt_of_not_le hlong) k (Nat.le_refl k)
    rw [getElem?_copyFault a hn hlen, if_pos hk, faultByte, if_neg (Nat.lt_irrefl k)] at hc
    cases hc
    exact hc0 rfl
  rw [str_eq_iff (by omega)]
  intro i hi
  rw [getElem?_copyFault a hn hlen, getElem?_copyFault b hn hlen, if_pos (by omega),
    if_pos (by omega)]

/-- `strscpy(dst, src, sizeof(dst))`: at most `n - 1` bytes of the source,
then the terminator. -/
def strscpy (dst : CharArray n) (src : CString) : CharArray n :=
  dst.store 0 (src.take (n - 1)).mem

theorem str_strscpy (dst : CharArray n) (src : CString) (hn : 0 < n) :
    (strscpy dst src).str = src.take (n - 1) :=
  str_store_mem dst (by have := src.strlen_take_le (n - 1); omega)

end CharArray

end KernelSpace.Kernel
