import KernelSpace.LinkedList.Driver

/-!
# LinkedList — what a history of adds and deletes shows

The purpose of the driver is a list of records, each an id and a name
(`Records`): an add appends, a delete removes the oldest record of the id, a
read shows the lines of all of them, cut at 511 bytes.

* `myWrite_add` — the text of an add is parsed back into its record: the
  decimal round trip and the word of `Kernel.Scanf`. This is so for the names
  without the byte 0xa0, which the driver's `sscanf` takes for white space and
  the program's `scanf` does not; of any other name `length_scan_lt` leaves a
  shorter one, or none;
* `deleteFirst_records` — the comparison of a sign-extended `int` with a
  sign-extended `int` is equality of the ids;
* `Rendered.readNode`, `readLoop_rendered` — the loop of `my_read` keeps `pos`
  at 511 or less, so its break is never taken.
-/

namespace KernelSpace.LinkedList

open KernelSpace.Kernel

/-! ## Records and commands -/

/-- White space in user space, where `scanf` has the C locale. -/
def isCSpace (c : UInt8) : Bool := decide (9 ≤ c ∧ c ≤ 13 ∨ c = 32)

/-- A name that the program can read with `%31s`. -/
structure Name where
  text : CString
  nonempty : text.chars ≠ []
  short : text.strlen ≤ 31
  word : ∀ c ∈ text.chars, isCSpace c = false

/-- The kernel has one more white space than user space. -/
def Name.Plain (name : Name) : Prop := 160 ∉ name.text.chars

instance (name : Name) : Decidable name.Plain := inferInstanceAs (Decidable (¬ _))

abbrev Record := BitVec 32 × CString

/-- An add with what the stack of `my_write` holds, or a `DELETE_NODE`. -/
inductive Command where
  | add (id : BitVec 32) (name : Name) (kbuf : CharArray bufSize)
  | delete (id : BitVec 32)

/-- No name with the byte 0xa0. -/
def Command.Plain : Command → Prop
  | add _ name _ => name.Plain
  | delete _ => True

/-- A command in the driver; its allocation and copies succeed. -/
def command (students : List Student) : Command → Int × List Student
  | .add id name kbuf => myWrite students kbuf ⟨false, true⟩ (addText id name.text)
  | .delete id => myIoctl students deleteNode (id.signExtend 64)

/-- The return values of a history and the list it leaves. -/
def history (students : List Student) : List Command → List Int × List Student
  | [] => ([], students)
  | c :: cs =>
    let (ret, students') := command students c
    let (rets, students'') := history students' cs
    (ret :: rets, students'')

namespace Records

def command (records : List Record) : Command → Int × List Record
  | .add id name _ => ((addText id name.text).length, records ++ [(id, name.text)])
  | .delete id =>
    if id ∈ records.map Prod.fst then (0, records.eraseP fun r => r.1 = id) else (1, records)

def history (records : List Record) : List Command → List Int × List Record
  | [] => ([], records)
  | c :: cs =>
    let (ret, records') := command records c
    let (rets, records'') := history records' cs
    (ret :: rets, records'')

/-- The lines of the records. -/
def listing (records : List Record) : List UInt8 :=
  records.flatMap fun r =>
    render [.lit (.lit "ID="), .int r.1, .lit (.lit " Name="), .str r.2, .lit (.lit "\n")]

end Records

/-- The record that a node holds. -/
def Student.record (node : Student) : Record := (node.id, node.name.str)

/-! ## Adds -/

/-- The text of an add, before `snprintf` cuts it. -/
theorem render_add (id : BitVec 32) (name : CString) :
    render [.int id, .lit (.lit " "), .str name] = formatInt id ++ 32 :: name.chars := by
  have hspace : (CString.lit " ").chars = [32] := by decide
  simp [render, Piece.render, hspace]

theorem addText_eq (id : BitVec 32) {name : CString} (h : name.strlen ≤ 31) :
    addText id name = formatInt id ++ 32 :: name.chars ∧ (addText id name).length ≤ 43 := by
  have hid := length_formatInt_le id
  have hlen : (formatInt id ++ 32 :: name.chars).length ≤ 43 := by
    rw [CString.strlen] at h
    simp only [List.length_append, List.length_cons]
    omega
  have htext : addText id name = formatInt id ++ 32 :: name.chars := by
    rw [addText, snprintf, render_add, List.take_of_length_le (by omega)]
  exact ⟨htext, by rw [htext]; exact hlen⟩

theorem isSpace_eq (c : UInt8) : isSpace c = (isCSpace c || c == 160) := by
  by_cases h : c = 160 <;> simp [isSpace, isCSpace, h]

theorem Name.Plain.word {name : Name} (h : name.Plain) :
    ∀ c ∈ name.text.chars, isSpace c = false := by
  intro c hc
  have hne : (c == 160) = false := by
    rw [beq_eq_false_iff_ne]
    rintro rfl
    exact h hc
  rw [isSpace_eq, name.word c hc, hne]
  rfl

/-- The id is read back, and what is behind it is for the name. -/
theorem vsscanf_addText_eq (id : BitVec 32) (name : Name) :
    vsscanf addFormat (addText id name.text)
      = .int id :: vsscanf [.str 31] (skipSpaces name.text.chars) := by
  rw [(addText_eq id name.short).1]
  have hint : scanInt (formatInt id ++ 32 :: name.text.chars)
      = some (id, 32 :: name.text.chars) := by
    apply scanInt_formatInt
    intro c hc
    cases hc
    decide
  have hspace : skipSpaces (32 :: name.text.chars) = skipSpaces name.text.chars := rfl
  have hstart : formatInt id ++ 32 :: name.text.chars ≠ [] := by simp
  simp only [addFormat, vsscanf, if_neg hstart, hint, hspace]

/-- **The driver reads back what the program wrote**, if the name is plain. -/
theorem vsscanf_addText (id : BitVec 32) {name : Name} (h : name.Plain) :
    vsscanf addFormat (addText id name.text) = [.int id, .str name.text.chars] := by
  obtain ⟨c, cs, hname⟩ := List.exists_cons_of_ne_nil name.nonempty
  have hskip : skipSpaces name.text.chars = name.text.chars := by
    rw [hname]
    exact skipSpaces_cons (h.word c (by rw [hname]; exact List.mem_cons_self)) cs
  have hword := scanStr_word name.nonempty h.word name.short
  rw [vsscanf_addText_eq, hskip]
  simp only [vsscanf, if_neg name.nonempty, hword]

/-- Of a name that is not plain there is less to read. -/
theorem length_scan_lt (id : BitVec 32) {name : Name} (h : ¬ name.Plain) :
    vsscanf addFormat (addText id name.text) = [.int id] ∨
      ∃ word, vsscanf addFormat (addText id name.text) = [.int id, .str word] ∧
        word.length < name.text.strlen ∧ (0 : UInt8) ∉ word := by
  rw [vsscanf_addText_eq]
  simp only [vsscanf]
  split
  · exact .inl rfl
  · refine .inr ⟨_, rfl, ?_, ?_⟩
    · obtain ⟨-, hspec⟩ := scanStr_spec 31 (skipSpaces name.text.chars)
      -- a word of the whole length would be the name, and have no 0xa0
      have hinfix : (scanStr 31 (skipSpaces name.text.chars)).1 <:+: name.text.chars :=
        ((List.take_prefix _ _).trans (List.takeWhile_prefix _)).isInfix.trans
          ((List.dropWhile_suffix isSpace).trans (List.dropWhile_suffix isSpace)).isInfix
      refine lt_of_le_of_ne hinfix.length_le fun hlen => h fun hmem => ?_
      rw [← hinfix.eq_of_length hlen] at hmem
      have hspace := (hspec 160 hmem).1
      cases hspace
    · intro h0
      have hmem := ((scanStr_spec 31 (skipSpaces name.text.chars)).2 0 h0).2
      exact name.text.nonul ((List.dropWhile_suffix isSpace).mem hmem)

theorem nul_not_mem_addText (id : BitVec 32) {name : CString} (h : name.strlen ≤ 31) :
    (0 : UInt8) ∉ addText id name := by
  rw [(addText_eq id h).1, List.mem_append, List.mem_cons, not_or, not_or]
  exact ⟨nul_not_mem_formatInt id, by decide, name.nonul⟩

section

variable (students : List Student) {id : BitVec 32} {name : Name} (kbuf : CharArray bufSize)

/-- What `sscanf` is given is the text, whatever the stack held behind it. -/
theorem addText_str (id : BitVec 32) (name : Name) (kbuf : CharArray bufSize) :
    ¬ (addText id name.text).length ≥ bufSize ∧
      ((kbuf.store 0 (addText id name.text)).store (addText id name.text).length [0]).str.chars
        = addText id name.text := by
  have hlen := (addText_eq id name.short).2
  have hfits : ¬ (addText id name.text).length ≥ bufSize := by
    have : bufSize = 128 := rfl
    omega
  have hstr := CharArray.str_store_nul kbuf
    (s := ⟨addText id name.text, nul_not_mem_addText id name.short⟩) (Nat.lt_of_not_ge hfits)
  exact ⟨hfits, congrArg CString.chars hstr⟩

theorem myWrite_word {word : List UInt8}
    (h : vsscanf addFormat (addText id name.text) = [.int id, .str word]) :
    myWrite students kbuf ⟨false, true⟩ (addText id name.text)
      = (((addText id name.text).length : Int), students ++ [newNode id word]) := by
  obtain ⟨hfits, hkbuf⟩ := addText_str id name kbuf
  simp only [myWrite, if_neg hfits, hkbuf, h]
  rfl

theorem myWrite_no_word (h : vsscanf addFormat (addText id name.text) = [.int id]) :
    myWrite students kbuf ⟨false, true⟩ (addText id name.text) = (0, students) := by
  obtain ⟨hfits, hkbuf⟩ := addText_str id name kbuf
  simp only [myWrite, if_neg hfits, hkbuf, h]
  rfl

end

/-- The node of a word holds it. -/
theorem record_newNode (id : BitVec 32) {word : List UInt8} (hword : (0 : UInt8) ∉ word)
    (hshort : word.length ≤ 31) : (newNode id word).record = (id, ⟨word, hword⟩) := by
  have hstr : ((CharArray.zero 32).store 0 (CString.mem ⟨word, hword⟩)).str = ⟨word, hword⟩ :=
    CharArray.str_store_mem _ (Nat.lt_of_le_of_lt hshort (by decide))
  exact congrArg (Prod.mk id) hstr

/-! ## Deletes -/

theorem signExtend_inj {a b : BitVec 32} : a.signExtend 64 = b.signExtend 64 ↔ a = b := by
  refine ⟨fun h => ?_, congrArg _⟩
  have hint := congrArg BitVec.toInt h
  rw [BitVec.toInt_signExtend_of_le (by decide), BitVec.toInt_signExtend_of_le (by decide)] at hint
  exact BitVec.eq_of_toInt_eq hint

/-- A delete takes the oldest record of the id, or finds none. -/
theorem deleteFirst_records (id : BitVec 32) (students : List Student) :
    (deleteFirst (id.signExtend 64) students).map (List.map Student.record)
      = if id ∈ (students.map Student.record).map Prod.fst then
          some ((students.map Student.record).eraseP fun r => r.1 = id)
        else none := by
  induction students with
  | nil => rfl
  | cons node rest ih =>
    by_cases hid : node.id = id
    · rw [deleteFirst, if_pos (signExtend_inj.mpr hid)]
      simp [Student.record, hid]
    · rw [deleteFirst, if_neg fun h => hid (signExtend_inj.mp h), Option.map_map]
      have hcons : List.map Student.record ∘ (node :: ·)
          = (node.record :: ·) ∘ List.map Student.record := rfl
      have hmem : id ∈ ((node :: rest).map Student.record).map Prod.fst
          ↔ id ∈ (rest.map Student.record).map Prod.fst := by
        rw [List.map_cons, List.map_cons, List.mem_cons]
        exact or_iff_right fun h => hid h.symm
      have herase : ((node :: rest).map Student.record).eraseP (fun r => r.1 = id)
          = node.record :: (rest.map Student.record).eraseP fun r => r.1 = id := by
        rw [List.map_cons, List.eraseP_cons_of_neg]
        simp [Student.record, hid]
      -- the head stays, the node to delete is in the rest if anywhere
      rw [hcons, ← Option.map_map, ih]
      by_cases hrest : id ∈ (rest.map Student.record).map Prod.fst
      · rw [if_pos hrest, if_pos (hmem.mpr hrest), herase]
        rfl
      · rw [if_neg hrest, if_neg fun h => hrest (hmem.mp h)]
        rfl

/-! ## Histories -/

theorem command_simulates (students : List Student) {c : Command} (h : c.Plain) :
    (command students c).1 = (Records.command (students.map Student.record) c).1 ∧
      (command students c).2.map Student.record
        = (Records.command (students.map Student.record) c).2 := by
  cases c with
  | add id name kbuf =>
    rw [command, myWrite_word students kbuf (vsscanf_addText id h), Records.command]
    refine ⟨rfl, ?_⟩
    rw [List.map_append, List.map_singleton, record_newNode id name.text.nonul name.short]
  | delete id =>
    have hdelete := deleteFirst_records id students
    rw [command, myIoctl, if_pos rfl, Records.command]
    cases hd : deleteFirst (id.signExtend 64) students with
    | none =>
      rw [hd] at hdelete
      split at hdelete
      · cases hdelete
      · rename_i hmem
        rw [if_neg hmem]
        exact ⟨rfl, rfl⟩
    | some rest =>
      rw [hd] at hdelete
      split at hdelete
      · rename_i hmem
        rw [if_pos hmem]
        exact ⟨rfl, Option.some.inj hdelete⟩
      · cases hdelete

theorem history_simulates (students : List Student) {cs : List Command}
    (h : ∀ c ∈ cs, c.Plain) :
    (history students cs).1 = (Records.history (students.map Student.record) cs).1 ∧
      (history students cs).2.map Student.record
        = (Records.history (students.map Student.record) cs).2 := by
  induction cs generalizing students with
  | nil => exact ⟨rfl, rfl⟩
  | cons c cs ih =>
    obtain ⟨hret, hrecords⟩ := command_simulates students (h c List.mem_cons_self)
    obtain ⟨hrets, hfinal⟩ :=
      ih (command students c).2 fun c' hc' => h c' (List.mem_cons_of_mem c hc')
    rw [hrecords] at hrets hfinal
    refine ⟨?_, hfinal⟩
    show (command students c).1 :: (history (command students c).2 cs).1 = _
    rw [hret, hrets]
    rfl

/-! ## Reads -/

/-- `pos` and the start of `kbuf` are those of a text cut at 511 bytes. -/
structure Rendered (text : List UInt8) (r : ReadBuf) : Prop where
  pos : r.pos = min text.length (readBufSize - 1)
  kbuf : r.kbuf.bytes.take r.pos = text.take (readBufSize - 1)

theorem Rendered.pos_le {text : List UInt8} {r : ReadBuf} (h : Rendered text r) :
    r.pos ≤ readBufSize - 1 := by
  rw [h.pos]
  exact Nat.min_le_right ..

theorem rendered_nil (kbuf : CharArray readBufSize) : Rendered [] ⟨kbuf, 0⟩ := ⟨rfl, rfl⟩

/-- **The loop body** appends a line, as far as the buffer has room. -/
theorem Rendered.readNode {text : List UInt8} {r : ReadBuf} (h : Rendered text r)
    (node : Student) : Rendered (text ++ render (nodeLine node)) (readNode r node) := by
  have hle := h.pos_le
  have hpos := h.pos
  have hbuf : readBufSize = 512 := rfl
  have hsize : sizeT ((readBufSize : Int) - r.pos) = readBufSize - r.pos :=
    sizeT_sub (by omega) (by decide)
  -- there is room for the NUL, and the rest of the line is cut
  let line := (render (nodeLine node)).take (readBufSize - r.pos - 1)
  have hline : line.length = min (readBufSize - r.pos - 1) (render (nodeLine node)).length :=
    List.length_take
  have hnode : LinkedList.readNode r node
      = ⟨r.kbuf.store r.pos (line ++ [0]), r.pos + line.length⟩ := by
    have hwrites : ¬ (readBufSize - r.pos = 0 ∨ INT_MAX < readBufSize - r.pos) := by
      have hmax : INT_MAX = 2147483647 := rfl
      omega
    rw [LinkedList.readNode, hsize, scnprintf, if_neg hwrites]
  have hfits : r.pos + (line ++ [0]).length ≤ readBufSize := by
    rw [List.length_append, List.length_singleton]
    omega
  rw [hnode]
  refine ⟨?_, ?_⟩
  · show r.pos + line.length = _
    rw [List.length_append]
    omega
  · show (r.kbuf.store r.pos (line ++ [0])).bytes.take (r.pos + line.length) = _
    have hfront : (r.kbuf.bytes.take r.pos ++ line).length = r.pos + line.length := by
      have := r.kbuf.size
      rw [List.length_append, List.length_take]
      omega
    rw [CharArray.store_bytes _ hfits, ← List.append_assoc, List.append_assoc _ [0], ← hfront,
      List.take_left, h.kbuf, List.take_append]
    have hcut : readBufSize - r.pos - 1 = readBufSize - 1 - text.length := by omega
    rw [← hcut]

/-- **The break is never taken**: the loop over a list is the loop over its
front and then over its rest, and `pos` stays below `sizeof(kbuf)`. -/
theorem readLoop_rendered {text : List UInt8} {r : ReadBuf} (h : Rendered text r)
    (students : List Student) :
    Rendered (text ++ students.flatMap fun node => render (nodeLine node))
        (readLoop students r) ∧
      ∀ rest, readLoop (students ++ rest) r = readLoop rest (readLoop students r) := by
  induction students generalizing text r with
  | nil =>
    rw [List.flatMap_nil, List.append_nil]
    exact ⟨h, fun rest => rfl⟩
  | cons node students ih =>
    have hnode := h.readNode node
    have hroom : ¬ (readNode r node).pos ≥ readBufSize := by
      have := hnode.pos_le
      have hbuf : readBufSize = 512 := rfl
      omega
    obtain ⟨hrest, happend⟩ := ih hnode
    have hloop (l : List Student) : readLoop (node :: l) r = readLoop l (readNode r node) := by
      rw [readLoop, if_neg hroom]
    refine ⟨?_, fun rest => ?_⟩
    · rw [hloop, List.flatMap_cons, ← List.append_assoc]
      exact hrest
    · rw [List.cons_append, hloop, hloop]
      exact happend rest

theorem listing_records (students : List Student) :
    Records.listing (students.map Student.record)
      = students.flatMap fun node => render (nodeLine node) := by
  rw [Records.listing, List.flatMap_map]
  rfl

/-- What a read from the start of the file shows. -/
theorem myRead_listing (students : List Student) (kbuf : CharArray readBufSize) :
    myRead students kbuf 0 false =
      ⟨((Records.listing (students.map Student.record)).take 511).length,
        (Records.listing (students.map Student.record)).take 511,
        ((Records.listing (students.map Student.record)).take 511).length⟩ := by
  obtain ⟨hrendered, -⟩ := readLoop_rendered (rendered_nil kbuf) students
  rw [List.nil_append, ← listing_records] at hrendered
  have hpos : (readLoop students ⟨kbuf, 0⟩).pos
      = ((Records.listing (students.map Student.record)).take 511).length := by
    rw [hrendered.pos, List.length_take, Nat.min_comm]
    rfl
  have hdata := hrendered.kbuf
  simp only [myRead, ne_eq, not_true_eq_false, if_false, Bool.false_eq_true, Nat.zero_add]
  rw [hdata, hpos]
  rfl

/-! ## What a history shows -/

theorem history_append (students : List Student) (cs cs' : List Command) :
    (history students (cs ++ cs')).2 = (history (history students cs).2 cs').2 := by
  induction cs generalizing students with
  | nil => rfl
  | cons c cs ih => exact ih (command students c).2

theorem Records.history_append (records : List Record) (cs cs' : List Command) :
    (Records.history records (cs ++ cs')).2
      = (Records.history (Records.history records cs).2 cs').2 := by
  induction cs generalizing records with
  | nil => rfl
  | cons c cs ih => exact ih (Records.command records c).2

/-- The first students are deleted one by one, and what is behind them stays. -/
theorem history_deletes (students rest : List Student) :
    (history (students ++ rest) (students.map fun node => .delete node.id)).2 = rest := by
  induction students with
  | nil => rfl
  | cons node students ih =>
    have hfirst : (command (node :: students ++ rest) (.delete node.id)).2 = students ++ rest := by
      rw [command, myIoctl, if_pos rfl, List.cons_append, deleteFirst, if_pos rfl]
    rw [List.map_cons, history]
    dsimp only
    rw [hfirst]
    exact ih

theorem Records.history_deletes (records rest : List Record) :
    (Records.history (records ++ rest) (records.map fun r => .delete r.1)).2 = rest := by
  induction records with
  | nil => rfl
  | cons r records ih =>
    have hfirst : (Records.command (r :: records ++ rest) (.delete r.1)).2 = records ++ rest := by
      rw [Records.command, if_pos (by simp), List.cons_append, List.eraseP_cons_of_pos (by simp)]
    rw [List.map_cons, Records.history]
    dsimp only
    rw [hfirst]
    exact ih

/-- Behind these commands a read shows what the records say. -/
def Reads (cs : List Command) : Prop :=
  ∀ kbuf, myRead (history [] cs).2 kbuf 0 false =
    ⟨((Records.listing (Records.history [] cs).2).take 511).length,
      (Records.listing (Records.history [] cs).2).take 511,
      ((Records.listing (Records.history [] cs).2).take 511).length⟩

/-- The return values and the list are those of the records, and so is what a
read shows; and after any number `k` of nodes its loop has `pos` at 511 or less,
so that `sizeof(kbuf) - pos` does not wrap, and goes on with the other nodes. -/
structure Shows (cs : List Command) : Prop where
  returns : (history [] cs).1 = (Records.history [] cs).1
  list : (history [] cs).2.map Student.record = (Records.history [] cs).2
  reads : Reads cs
  pos : ∀ kbuf k,
    (readLoop ((history [] cs).2.take k) ⟨kbuf, 0⟩).pos ≤ 511 ∧
      sizeT ((readBufSize : Int) - (readLoop ((history [] cs).2.take k) ⟨kbuf, 0⟩).pos)
        = readBufSize - (readLoop ((history [] cs).2.take k) ⟨kbuf, 0⟩).pos ∧
      readLoop (history [] cs).2 ⟨kbuf, 0⟩
        = readLoop ((history [] cs).2.drop k)
            (readLoop ((history [] cs).2.take k) ⟨kbuf, 0⟩)

theorem shows_of_plain {cs : List Command} (h : ∀ c ∈ cs, c.Plain) : Shows cs := by
  obtain ⟨hrets, hrecords⟩ := history_simulates [] h
  rw [List.map_nil] at hrets hrecords
  refine ⟨hrets, hrecords, fun kbuf => ?_, fun kbuf k => ?_⟩
  · rw [myRead_listing, hrecords]
  · obtain ⟨hrendered, happend⟩ :=
      readLoop_rendered (rendered_nil kbuf) ((history [] cs).2.take k)
    have hle := hrendered.pos_le
    have hbuf : readBufSize = 512 := rfl
    refine ⟨hle, sizeT_sub (by omega) (by decide), ?_⟩
    rw [← happend, List.take_append_drop]

theorem length_listing_singleton (id : BitVec 32) (name : CString) :
    (Records.listing [(id, name)]).length = (formatInt id).length + name.strlen + 10 := by
  have hid : (CString.lit "ID=").chars.length = 3 := by decide
  have hname : (CString.lit " Name=").chars.length = 6 := by decide
  have hend : (CString.lit "\n").chars.length = 1 := by decide
  simp only [Records.listing, List.flatMap_cons, List.flatMap_nil, List.append_nil, render,
    Piece.render, List.length_append, hid, hname, hend, CString.strlen]
  omega

/-- A read of a shorter line than that of the record. -/
theorem myRead_ne {students : List Student} {id : BitVec 32} {name : Name}
    (h : (Records.listing (students.map Student.record)).length
      < (Records.listing [(id, name.text)]).length) (kbuf : CharArray readBufSize) :
    (myRead students kbuf 0 false).off ≠ ((Records.listing [(id, name.text)]).take 511).length := by
  have hid := length_formatInt_le id
  have hshort := name.short
  have hline := length_listing_singleton id name.text
  have hfits : 511 ≥ (Records.listing [(id, name.text)]).length := by omega
  rw [myRead_listing, List.take_of_length_le hfits, List.take_of_length_le (by omega)]
  exact Nat.ne_of_lt h

/-- Of a name that is not plain, the line in the list is too short, or missing. -/
theorem command_not_plain (students : List Student) (id : BitVec 32) {name : Name}
    (hname : ¬ name.Plain) (kbuf : CharArray bufSize) :
    ∃ rest, (command students (.add id name kbuf)).2 = students ++ rest ∧
      (Records.listing (rest.map Student.record)).length
        < (Records.listing [(id, name.text)]).length := by
  rw [length_listing_singleton]
  rcases length_scan_lt id hname with hscan | ⟨word, hscan, hlt, hword⟩
  · refine ⟨[], ?_, by simp [Records.listing]⟩
    rw [command, myWrite_no_word students kbuf hscan, List.append_nil]
  · refine ⟨[newNode id word], by rw [command, myWrite_word students kbuf hscan], ?_⟩
    have hshort : word.length ≤ 31 := Nat.le_of_lt (Nat.lt_of_lt_of_le hlt name.short)
    rw [List.map_singleton, record_newNode id hword hshort, length_listing_singleton]
    have : CString.strlen ⟨word, hword⟩ = word.length := rfl
    omega

section

variable {cs : List Command} {name : Name}

/-- The first name that is not plain is not in the list as a record has it. -/
theorem not_shows_of_not_plain (h : ∀ c ∈ cs, c.Plain) (id : BitVec 32)
    (hname : ¬ name.Plain) (kbuf : CharArray bufSize) : ¬ Shows (cs ++ [.add id name kbuf]) := by
  intro hshows
  obtain ⟨-, hrecords⟩ := history_simulates [] h
  rw [List.map_nil] at hrecords
  obtain ⟨rest, hadd, hless⟩ := command_not_plain (history [] cs).2 id hname kbuf
  have hlist := hshows.list
  rw [history_append, Records.history_append, ← hrecords] at hlist
  change (command (history [] cs).2 (.add id name kbuf)).2.map Student.record
    = (history [] cs).2.map Student.record ++ [(id, name.text)] at hlist
  rw [hadd, List.map_append, List.append_cancel_left_eq] at hlist
  rw [hlist] at hless
  exact Nat.lt_irrefl _ hless

/-- When all students before it are deleted, a read shows it. -/
theorem not_reads_of_not_plain (h : ∀ c ∈ cs, c.Plain) (id : BitVec 32)
    (hname : ¬ name.Plain) (kbuf : CharArray bufSize) :
    ∃ ids : List (BitVec 32), ¬ Reads (cs ++ [.add id name kbuf] ++ ids.map .delete) := by
  obtain ⟨-, hrecords⟩ := history_simulates [] h
  rw [List.map_nil] at hrecords
  let students := (history [] cs).2
  obtain ⟨rest, hadd, hless⟩ := command_not_plain students id hname kbuf
  have hids : students.map (fun node => Command.delete node.id)
      = (students.map Student.id).map .delete := by rw [List.map_map]; rfl
  have hids' : (Records.history [] cs).2.map (fun r => Command.delete r.1)
      = (students.map Student.id).map .delete := by
    rw [← hrecords, List.map_map, List.map_map]
    rfl
  refine ⟨students.map Student.id, fun hreads => ?_⟩
  have hleft : (history [] (cs ++ [.add id name kbuf] ++ (students.map Student.id).map .delete)).2
      = rest := by
    rw [history_append, history_append, ← hids]
    show (history (command students (.add id name kbuf)).2 _).2 = rest
    rw [hadd]
    exact history_deletes students rest
  have hleft' : (Records.history []
      (cs ++ [.add id name kbuf] ++ (students.map Student.id).map .delete)).2
        = [(id, name.text)] := by
    rw [Records.history_append, Records.history_append, ← hids']
    exact Records.history_deletes _ _
  have hread := hreads (CharArray.zero readBufSize)
  rw [hleft, hleft'] at hread
  exact myRead_ne hless _ (congrArg ReadReply.off hread)

/-- What fails at the first name that is not plain holds of plain names only. -/
theorem plain_of_prefixes {Q : List Command → Prop} (h : ∀ pre, pre <+: cs → Q pre)
    (hQ : ∀ pre id name kbuf, (∀ c ∈ pre, Command.Plain c) → ¬ Name.Plain name →
      ¬ Q (pre ++ [.add id name kbuf])) : ∀ c ∈ cs, c.Plain := by
  induction cs using List.reverseRecOn with
  | nil => nofun
  | append_singleton cs c ih =>
    have hplain : ∀ c ∈ cs, c.Plain :=
      ih fun pre hpre => h pre (hpre.trans (List.prefix_append cs [c]))
    intro c' hc'
    rcases List.mem_append.mp hc' with hc' | hc'
    · exact hplain c' hc'
    · rw [List.mem_singleton.mp hc']
      cases c with
      | delete id => trivial
      | add id name kbuf =>
        by_contra hname
        exact hQ cs id name kbuf hplain hname (h _ (List.prefix_refl _))

end

/-- **Any history of adds and deletes** shows behind every command what the records
say, exactly when no name in it has the byte 0xa0; and the reads alone tell when one
has, behind some deletes. -/
theorem history_shows_records (cs : List Command) :
    ((∀ pre, pre <+: cs → Shows pre) ↔ ∀ c ∈ cs, c.Plain) ∧
      ((∀ (pre : List Command) (ids : List (BitVec 32)), pre <+: cs →
        Reads (pre ++ ids.map .delete)) ↔ ∀ c ∈ cs, c.Plain) := by
  refine ⟨⟨fun h => plain_of_prefixes h fun pre id name kbuf hplain hname =>
      not_shows_of_not_plain hplain id hname kbuf, fun h pre hpre => ?_⟩,
    ⟨fun h => ?_, fun h pre ids hpre => ?_⟩⟩
  · exact shows_of_plain fun c hc => h c (hpre.subset hc)
  · refine plain_of_prefixes (Q := fun pre => ∀ ids : List (BitVec 32),
      Reads (pre ++ ids.map .delete)) (fun pre hpre ids => h pre ids hpre) ?_
    intro pre id name kbuf hplain hname hreads
    obtain ⟨ids, hwrong⟩ := not_reads_of_not_plain hplain id hname kbuf
    exact hwrong (hreads ids)
  · refine (shows_of_plain fun c hc => ?_).reads
    rcases List.mem_append.mp hc with hc | hc
    · exact h c (hpre.subset hc)
    · obtain ⟨id, -, rfl⟩ := List.mem_map.mp hc
      trivial

/-- `a`, the UTF-8 bytes of `à`, `b`. -/
def accented : Name where
  text := .ofBytes [97, 195, 160, 98]
  nonempty := by decide
  short := by decide
  word := by
    change ∀ c ∈ [(97 : UInt8), 195, 160, 98], isCSpace c = false
    simp [isCSpace]

/-- The student is added, and shown as `a` and half a character. -/
theorem accented_name_cut :
    (history [] [.add 1 accented (CharArray.zero bufSize)]).1 = [6] ∧
      (myRead (history [] [.add 1 accented (CharArray.zero bufSize)]).2
        (CharArray.zero readBufSize) 0 false).data
          = (CString.lit "ID=1 Name=a").chars ++ [195, 10] ∧
      ¬ Shows [.add 1 accented (CharArray.zero bufSize)] := by
  refine ⟨by decide +kernel, by decide +kernel, fun h => ?_⟩
  have hdata := congrArg ReadReply.data (h.reads (CharArray.zero readBufSize))
  revert hdata
  decide +kernel

end KernelSpace.LinkedList
