import KernelSpace.LinkedList.History

/-!
# LinkedList — the program and the driver

What `userspace_linked_list.c` asks of the driver, on lists of any length:

* its "Show" reads into a buffer of 128 bytes. `myReadInto` is `my_read` with
  the bytes that it puts into the caller's memory; `len` decides nothing there;
* a file read to its end. `my_read` answers the first call and takes any other
  offset than 0 for the end;
* its "Delete" of an id that it has added. The `int` reaches `my_ioctl` with
  its upper half zero, and is compared with a sign-extended `int`.
-/

namespace KernelSpace.LinkedList

open KernelSpace.Kernel

/-! ## Reads into a buffer -/

/-- `copy_to_user(buf, data)` where the user's memory ends `fault` bytes
behind `buf`: what it writes, and if it fails. -/
def copyToUser (data : List UInt8) : Option Nat → List UInt8 × Bool
  | none => (data, false)
  | some fault => if fault < data.length then (data.take fault, true) else (data, false)

/-- The return value of `my_read` and the bytes it writes at the start of the
user's buffer of `len` bytes. -/
def myReadInto (students : List Student) (kbuf : CharArray readBufSize) (_len off : Nat)
    (fault : Option Nat) : Int × List UInt8 :=
  if off ≠ 0 then (0, [])
  else
    let r := readLoop students ⟨kbuf, 0⟩
    let (written, failed) := copyToUser (r.kbuf.bytes.take r.pos) fault
    (if failed then -EFAULT else r.pos, written)

/-- What a reader of `len` bytes relies on. -/
def WithinLen (len : Nat) (reply : Int × List UInt8) : Prop :=
  reply.2.length ≤ len ∧ reply.1 ≤ len

theorem length_copyToUser (data : List UInt8) (fault : Option Nat) :
    (copyToUser data fault).1.length = min data.length (fault.getD data.length) := by
  cases fault with
  | none => simp [copyToUser]
  | some fault =>
    rw [copyToUser]
    split
    · simp [Nat.min_comm]
    · simp only [Option.getD_some]
      omega

theorem copyToUser_complete {data : List UInt8} {fault : Option Nat}
    (h : (copyToUser data fault).2 = false) : (copyToUser data fault).1 = data := by
  cases fault with
  | none => rfl
  | some fault =>
    rw [copyToUser] at h ⊢
    split at h
    · cases h
    · rename_i hroom
      rw [if_neg hroom]

/-- What the loop leaves for the copy is the listing, cut at 511 bytes. -/
theorem readLoop_listing (students : List Student) (kbuf : CharArray readBufSize) :
    (readLoop students ⟨kbuf, 0⟩).kbuf.bytes.take (readLoop students ⟨kbuf, 0⟩).pos
        = (Records.listing (students.map Student.record)).take 511 ∧
      (readLoop students ⟨kbuf, 0⟩).pos
        = ((Records.listing (students.map Student.record)).take 511).length := by
  obtain ⟨hrendered, -⟩ := readLoop_rendered (rendered_nil kbuf) students
  rw [List.nil_append, ← listing_records] at hrendered
  refine ⟨hrendered.kbuf, ?_⟩
  rw [hrendered.pos, List.length_take, Nat.min_comm]
  rfl

/-- `myReadInto` is `myRead` with the bytes of a failed copy. -/
theorem myReadInto_myRead (students : List Student) (kbuf : CharArray readBufSize)
    (len off : Nat) (fault : Option Nat) :
    ∃ failed, (myReadInto students kbuf len off fault).1 = (myRead students kbuf off failed).ret ∧
      (failed = false →
        (myReadInto students kbuf len off fault).2 = (myRead students kbuf off failed).data) := by
  by_cases hoff : off ≠ 0
  · exact ⟨false, by simp [myReadInto, myRead, hoff]⟩
  · let r := readLoop students ⟨kbuf, 0⟩
    refine ⟨(copyToUser (r.kbuf.bytes.take r.pos) fault).2, ?_, fun hcopied => ?_⟩
    · rw [myReadInto, myRead, if_neg hoff, if_neg hoff]
      cases hcopy : (copyToUser (r.kbuf.bytes.take r.pos) fault).2 <;> simp [r, hcopy]
    · have hdata := copyToUser_complete hcopied
      rw [myReadInto, myRead, if_neg hoff, if_neg hoff]
      simp only [r] at hcopied hdata
      simp [r, hcopied, hdata]

/-- A read from the start of the file hands the shown text to the copy. -/
theorem myReadInto_zero (students : List Student) (kbuf : CharArray readBufSize) (len : Nat)
    (fault : Option Nat) :
    let shown := (Records.listing (students.map Student.record)).take 511
    myReadInto students kbuf len 0 fault =
      (if (copyToUser shown fault).2 then -EFAULT else shown.length,
        (copyToUser shown fault).1) := by
  obtain ⟨hdata, hpos⟩ := readLoop_listing students kbuf
  rw [hpos] at hdata
  simp only [myReadInto, ne_eq, not_true_eq_false, if_false, hpos, hdata]

/-- **A read keeps to the reader's buffer** exactly when it is not from offset
0, or the lines of the list, cut at 511 bytes, are no more than it asked for,
or the user's memory ends before that many bytes. -/
theorem read_within_iff (students : List Student) (kbuf : CharArray readBufSize)
    (len off : Nat) (fault : Option Nat) :
    WithinLen len (myReadInto students kbuf len off fault) ↔
      off ≠ 0 ∨ min (Records.listing (students.map Student.record)).length 511 ≤ len ∨
        ∃ k, fault = some k ∧ k ≤ len := by
  by_cases hoff : off = 0
  · subst hoff
    let shown := (Records.listing (students.map Student.record)).take 511
    have hshown :
        shown.length = min (Records.listing (students.map Student.record)).length 511 := by
      rw [List.length_take, Nat.min_comm]
    have hcopied := length_copyToUser shown fault
    rw [myReadInto_zero, WithinLen, ← hshown]
    have hret : (if (copyToUser shown fault).2 then -EFAULT else (shown.length : Int))
        ≤ (copyToUser shown fault).1.length := by
      cases hfault : (copyToUser shown fault).2 with
      | true =>
        simp [EFAULT]
      | false => simp [copyToUser_complete hfault]
    have hwritten : (copyToUser shown fault).1.length ≤ len
        ↔ shown.length ≤ len ∨ ∃ k, fault = some k ∧ k ≤ len := by
      rw [length_copyToUser]
      cases fault <;> simp
    rw [and_iff_left_of_imp fun h => hret.trans (Int.ofNat_le.mpr h), hwritten]
    simp
  · have hnothing : myReadInto students kbuf len off fault = (0, []) := by
      rw [myReadInto, if_pos hoff]
    simp [WithinLen, hnothing, hoff]

/-- The list after `n` adds of a student with a name of 31 letters. -/
def longNames (n : Nat) : List Student :=
  let name : Name := ⟨.ofBytes (List.replicate 31 65), by decide, by decide, by decide +kernel⟩
  (history [] (List.replicate n (.add 1 name (CharArray.zero bufSize)))).2

/-- Four students fill the program's buffer of 128 bytes and 40 bytes behind it. -/
theorem show_overflows :
    ¬ WithinLen 128 (myReadInto (longNames 4) (CharArray.zero readBufSize) 128 0 none) := by
  have hlen :
      (myReadInto (longNames 4) (CharArray.zero readBufSize) 128 0 none).2.length = 168 := by
    decide +kernel
  rw [WithinLen, hlen]
  omega

/-! ## Reading to the end -/

/-- The bytes that reads from offset `off` on return until one returns 0;
`none` when none of them does. Each finds its own `kbuf` on the stack. -/
def readToEnd (students : List Student) : List (CharArray readBufSize) → Nat → Option (List UInt8)
  | [], _ => none
  | kbuf :: kbufs, off =>
    let reply := myRead students kbuf off false
    if reply.ret = 0 then some []
    else (readToEnd students kbufs reply.off).map (reply.data ++ ·)

/-- Any other offset than 0 is the end. -/
theorem readToEnd_of_ne_zero (students : List Student) {off : Nat} (hoff : off ≠ 0)
    (kbufs : List (CharArray readBufSize)) :
    readToEnd students kbufs off = if kbufs = [] then none else some [] := by
  cases kbufs with
  | nil => rfl
  | cons kbuf kbufs => simp [readToEnd, myRead, hoff]

/-- **A file read to its end** shows the first 511 bytes of the lines, and
takes two calls unless it shows nothing; so it shows every line to its end
exactly when they have no more bytes than that. -/
theorem readToEnd_listing (students : List Student) (kbufs : List (CharArray readBufSize)) :
    let listing := Records.listing (students.map Student.record)
    (readToEnd students kbufs 0 =
        if kbufs.length < (if listing = [] then 1 else 2) then none else some (listing.take 511)) ∧
      (listing.take 511 = listing ↔ listing.length ≤ 511) := by
  intro listing
  refine ⟨?_, List.take_eq_self_iff listing⟩
  cases kbufs with
  | nil =>
    have hcalls : 0 < if listing = [] then 1 else 2 := by split <;> decide
    simp [readToEnd, hcalls]
  | cons kbuf kbufs =>
    have hfirst : myRead students kbuf 0 false
        = ⟨(listing.take 511).length, listing.take 511, (listing.take 511).length⟩ :=
      myRead_listing students kbuf
    simp only [readToEnd, hfirst]
    by_cases hempty : listing = []
    · simp [hempty]
    · have hshown : (listing.take 511).length ≠ 0 := by
        have := List.length_pos_iff.mpr hempty
        rw [List.length_take]
        omega
      have hret : ((listing.take 511).length : Int) ≠ 0 := by omega
      rw [if_neg hret, readToEnd_of_ne_zero _ hshown, if_neg hempty]
      cases kbufs <;> simp

/-- Of thirteen students the last line is cut. -/
theorem thirteen_students_cut :
    readToEnd (longNames 13) [CharArray.zero readBufSize, CharArray.zero readBufSize] 0
      ≠ some (Records.listing ((longNames 13).map Student.record)) := by
  decide +kernel

/-! ## Deleting what was added -/

/-- "Add Student": the program's `write`. -/
def addStudent (students : List Student) (kbuf : CharArray bufSize) (env : WriteEnv)
    (id : BitVec 32) (name : CString) : Int × List Student :=
  myWrite students kbuf env (addText id name)

/-- "Delete Student": the `int` is passed with its upper half zero. -/
def deleteStudent (students : List Student) (id : BitVec 32) : Int × List Student :=
  myIoctl students deleteNode (id.setWidth 64)

/-- A delete that takes a student of that id out of the list. -/
def Deletes (students : List Student) (id : BitVec 32) : Prop :=
  ∃ before node after, students = before ++ node :: after ∧ node.id = id ∧
    deleteStudent students id = (0, before ++ after)

/-- A negative `int` with zeroes above it is no sign-extended `int`. -/
theorem signExtend_eq_setWidth_iff {a b : BitVec 32} :
    a.signExtend 64 = b.setWidth 64 ↔ a = b ∧ 0 ≤ b.toInt := by
  have hzero : (b.setWidth 64).toInt = b.toNat := by
    rw [BitVec.toInt_eq_toNat_of_lt]
    · have := b.isLt
      simp
      omega
    · have := b.isLt
      simp
      omega
  have hsign : (a.signExtend 64).toInt = a.toInt := BitVec.toInt_signExtend_of_le (by decide)
  have hb := BitVec.toInt_eq_toNat_cond b
  have ha := BitVec.toInt_lt (x := a)
  rw [← BitVec.toInt_inj, hzero, hsign]
  constructor
  · intro h
    have hnonneg : b.toInt = b.toNat := by
      rw [hb, if_pos (by omega)]
    exact ⟨BitVec.eq_of_toInt_eq (by omega), by omega⟩
  · rintro ⟨rfl, hnonneg⟩
    split at hb <;> omega

/-- The first node of the id goes; a negative id finds no node at all. -/
theorem deleteFirst_setWidth (id : BitVec 32) (students : List Student) :
    deleteFirst (id.setWidth 64) students =
      if 0 ≤ id.toInt then deleteFirst (id.signExtend 64) students else none := by
  induction students with
  | nil => simp [deleteFirst]
  | cons node rest ih =>
    simp only [deleteFirst, signExtend_eq_setWidth_iff, signExtend_inj, ih]
    by_cases hid : node.id = id <;> by_cases hnonneg : 0 ≤ id.toInt <;> simp [hid, hnonneg]

/-- A delete by the sign-extended id takes a node of the id when there is one. -/
theorem deleteFirst_mem {id : BitVec 32} {students : List Student}
    (h : ∃ node ∈ students, node.id = id) :
    ∃ before node after, students = before ++ node :: after ∧ node.id = id ∧
      deleteFirst (id.signExtend 64) students = some (before ++ after) := by
  induction students with
  | nil =>
    obtain ⟨node, hnode, -⟩ := h
    cases hnode
  | cons node rest ih =>
    by_cases hid : node.id = id
    · exact ⟨[], node, rest, rfl, hid, by rw [deleteFirst, if_pos (signExtend_inj.mpr hid)]; rfl⟩
    · have hrest : ∃ n ∈ rest, n.id = id := by
        obtain ⟨n, hn, hnid⟩ := h
        rcases List.mem_cons.mp hn with rfl | hn
        · exact absurd hnid hid
        · exact ⟨n, hn, hnid⟩
      obtain ⟨before, n, after, hlist, hnid, hdelete⟩ := ih hrest
      refine ⟨node :: before, n, after, by rw [hlist]; rfl, hnid, ?_⟩
      rw [deleteFirst, if_neg fun h => hid (signExtend_inj.mp h), hdelete]
      rfl

/-- A name of any length leaves the id and the space behind it as they are. -/
theorem addText_start (id : BitVec 32) (name : CString) :
    (∃ rest, addText id name = formatInt id ++ 32 :: rest) ∧ (0 : UInt8) ∉ addText id name := by
  have hid := length_formatInt_le id
  obtain ⟨room, hroom⟩ : ∃ room, 127 - (formatInt id).length = room + 1 :=
    ⟨126 - (formatInt id).length, by omega⟩
  have htext : addText id name = formatInt id ++ 32 :: name.chars.take room := by
    rw [addText, snprintf, render_add, List.take_append, List.take_of_length_le (by omega), hroom]
    rfl
  refine ⟨⟨_, htext⟩, ?_⟩
  rw [htext, List.mem_append, List.mem_cons, not_or, not_or]
  exact ⟨nul_not_mem_formatInt id, by decide, fun h => name.nonul (List.mem_of_mem_take h)⟩

/-- **An add that succeeds** appends a student of the id that was typed,
whatever the name. -/
theorem addStudent_success {students : List Student} {kbuf : CharArray bufSize} {env : WriteEnv}
    {id : BitVec 32} {name : CString} (h : (addStudent students kbuf env id name).1 ≠ 0) :
    ∃ word, (addStudent students kbuf env id name).2 = students ++ [newNode id word] := by
  obtain ⟨⟨rest, htext⟩, hnonul⟩ := addText_start id name
  have hint : scanInt (formatInt id ++ 32 :: rest) = some (id, 32 :: rest) := by
    apply scanInt_formatInt
    intro c hc
    cases hc
    decide
  have hscan : vsscanf addFormat (addText id name)
      = .int id :: vsscanf [.space, .str 31] (32 :: rest) := by
    rw [htext]
    simp [addFormat, vsscanf, hint]
  rw [addStudent, myWrite] at h ⊢
  split at h
  · exact absurd rfl h
  · rename_i hlen
    rw [if_neg hlen]
    have hstr := CharArray.str_store_nul kbuf (s := ⟨addText id name, hnonul⟩)
      (Nat.lt_of_not_ge hlen)
    have hkbuf : ((kbuf.store 0 (addText id name)).store (addText id name).length
        [0]).str.chars = addText id name := congrArg CString.chars hstr
    simp only [hkbuf, hscan] at h ⊢
    by_cases hfault : env.copyFault = true
    · simp [hfault] at h
    by_cases halloc : env.allocated = true
    · simp only [hfault, halloc, Bool.false_eq_true, if_false, not_true_eq_false] at h ⊢
      generalize vsscanf [.space, .str 31] (32 :: rest) = scanned at h ⊢
      split at h
      · rename_i id' word heq
        cases heq
        exact ⟨word, rfl⟩
      · exact absurd rfl h
    · simp [hfault, halloc] at h

/-- **The delete finds what the add put in** exactly when the id is not
negative. -/
theorem delete_after_add_iff {students : List Student} {kbuf : CharArray bufSize} {env : WriteEnv}
    {id : BitVec 32} {name : CString} (h : (addStudent students kbuf env id name).1 ≠ 0) :
    Deletes (addStudent students kbuf env id name).2 id ↔ 0 ≤ id.toInt := by
  obtain ⟨word, hadded⟩ := addStudent_success h
  have hmem : ∃ node ∈ (addStudent students kbuf env id name).2, node.id = id := by
    rw [hadded]
    exact ⟨newNode id word, by simp, rfl⟩
  have hdelete := deleteFirst_setWidth id (addStudent students kbuf env id name).2
  constructor
  · rintro ⟨before, node, after, -, -, hret⟩
    by_contra hneg
    rw [if_neg hneg] at hdelete
    rw [deleteStudent, myIoctl, if_pos rfl, hdelete] at hret
    cases hret
  · intro hnonneg
    obtain ⟨before, node, after, hlist, hid, hfirst⟩ := deleteFirst_mem hmem
    rw [if_pos hnonneg] at hdelete
    refine ⟨before, node, after, hlist, hid, ?_⟩
    rw [deleteStudent, myIoctl, if_pos rfl, hdelete, hfirst]

theorem delete_after_add_iff_one :
    (addStudent [] (CharArray.zero bufSize) ⟨false, true⟩ 1 (.lit "Asha")).1 ≠ 0 ∧
      Deletes (addStudent [] (CharArray.zero bufSize) ⟨false, true⟩ 1 (.lit "Asha")).2 1 := by
  have hadded : (addStudent [] (CharArray.zero bufSize) ⟨false, true⟩ 1 (.lit "Asha")).1 ≠ 0 := by
    decide +kernel
  exact ⟨hadded, (delete_after_add_iff hadded).mpr (by decide)⟩

/-- The student -1 is added, and the delete answers 1 and leaves it. -/
theorem negative_id_stays :
    (addStudent [] (CharArray.zero bufSize) ⟨false, true⟩ (-1) (.lit "Asha")).1 = 7 ∧
      deleteStudent (addStudent [] (CharArray.zero bufSize) ⟨false, true⟩ (-1) (.lit "Asha")).2 (-1)
        = (1, [newNode (-1) (CString.lit "Asha").chars]) := by
  decide +kernel

end KernelSpace.LinkedList
