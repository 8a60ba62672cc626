import KernelSpace.Lib.DoublyLinked
import KernelSpace.LinkedList.Lifetime

/-!
# LinkedList — the pointers behind the list

The driver of `Kernel_linked_list.c` on its memory: `student_list` is a head, each
student is a node that `kzalloc` has made at an address of its choice (also one
that was freed before), linked with `list_add_tail`, unlinked with `list_del` and
given back with `kfree`. An access to what is not allocated has no result.

Any number of processes call it, in the steps that `list_lock` leaves apart: a
`my_write` makes its node, adds it under the lock and prints it after the unlock;
the loops of `my_read` and `my_ioctl` are under the lock as a whole. `my_read` walks
with `list_for_each_entry`; `my_ioctl` and `list_exit` free nodes on their way, with
`list_for_each_entry_safe`.

`Refines` ties the memory to a list of students: a ring of the nodes, the nodes that
are not added yet, and nothing else allocated. Each step keeps it and replies as the
one on lists does (`Refines.step`), as long as no delete takes a node whose print is
still to come; so every such run does, and `list_exit` then leaves the head alone
(`pointers_hold_list`).
-/

namespace KernelSpace.LinkedList.Pointers

open KernelSpace.Kernel KernelSpace.Lib KernelSpace.Lib.DoublyLinked

/-! ## The memory -/

/-- The address of the head. -/
def studentList : Nat := 0

structure Mem where
  links : Memory Nat
  students : Nat → Student

/-- `LIST_HEAD`. -/
def Mem.init : Mem := ⟨.init studentList, fun _ => ⟨0, .zero 32⟩⟩

namespace Mem

/-- The student around a link; around the head there is none. -/
def student (s : Mem) (node : Nat) : Option Student :=
  if node ∈ s.links.live ∧ node ≠ studentList then some (s.students node) else none

def setStudent (s : Mem) (node : Nat) (student : Student) : Option Mem :=
  if node ∈ s.links.live ∧ node ≠ studentList then
    some { s with students := Function.update s.students node student }
  else none

def kzalloc (s : Mem) (node : Nat) : Mem :=
  ⟨s.links.alloc node, Function.update s.students node ⟨0, .zero 32⟩⟩

def kfree (s : Mem) (node : Nat) : Option Mem :=
  if node = studentList then none
  else (s.links.free node).map fun links => { s with links }

def listAddTail (s : Mem) (node : Nat) : Option Mem :=
  (s.links.addTail node studentList).map fun links => { s with links }

def listDel (s : Mem) (node : Nat) : Option Mem :=
  (s.links.del node).map fun links => { s with links }

end Mem

/-! ## The functions -/

/-- What `sscanf` stores in a node, field by field. -/
def scanned (node : Student) : List Scanned → Student
  | [] => node
  | .int id :: fields => scanned { node with id } fields
  | .str name :: fields => scanned { node with name := node.name.store 0 (name ++ [0]) } fields

/-- `my_write` up to the lock: its node, or `none` where it returns 0. `kzalloc` is the
address that the allocation gives, if it gives one. -/
def scanWrite (s : Mem) (kbuf : CharArray bufSize) (copyFault : Bool) (kzalloc : Option Nat)
    (buf : List UInt8) : Option (Mem × Option Nat) :=
  if buf.length ≥ bufSize then some (s, none)
  else if copyFault then some (s, none)
  else
    let kbuf := (kbuf.store 0 buf).store buf.length [0]
    match kzalloc with
    | none => some (s, none)
    | some node => do
      let fields := vsscanf addFormat kbuf.str.chars
      let s := s.kzalloc node
      let s ← s.setStudent node (scanned (← s.student node) fields)
      if fields.length ≠ 2 then
        let s ← s.kfree node
        some (s, none)
      else some (s, some node)

/-- The body of the loop in `my_read`, with its break. -/
def readStudent (s : Mem) (node : Nat) (r : ReadBuf) : Option (ReadBuf × Bool) := do
  let student ← s.student node
  let r := readNode r student
  some (r, r.pos ≥ readBufSize)

def myRead (s : Mem) (fuel : Nat) (kbuf : CharArray readBufSize) (off : Nat) (copyFault : Bool) :
    Option ReadReply :=
  if off ≠ 0 then some ⟨0, [], off⟩
  else do
    let r ← s.links.forEach studentList (readStudent s) fuel ⟨kbuf, 0⟩
    if copyFault then some ⟨-EFAULT, [], off⟩
    else some ⟨r.pos, r.kbuf.bytes.take r.pos, off + r.pos⟩

/-- The body of the loop in `my_ioctl`; the id is printed between the two calls. -/
def deleteNode (arg : BitVec 64) (node : Nat) (s : Mem) : Option (Mem × Option Int) := do
  let student ← s.student node
  if student.id.signExtend 64 = arg then
    let s ← s.listDel node
    let _ ← s.student node
    let s ← s.kfree node
    some (s, some 0)
  else some (s, none)

def myIoctl (s : Mem) (fuel : Nat) (cmd : Nat) (arg : BitVec 64) : Option (Mem × Int) :=
  if cmd = LinkedList.deleteNode then do
    let (s, result) ← Memory.forEachSafe Mem.links studentList (deleteNode arg) fuel s
    some (s, result.getD 1)
  else some (s, 2)

/-- The body of the loop in `list_exit`, which never returns from it. -/
def dropNode (node : Nat) (s : Mem) : Option (Mem × Option Empty) := do
  let s ← s.listDel node
  let s ← s.kfree node
  some (s, none)

def listExit (s : Mem) (fuel : Nat) : Option Mem := do
  let (s, _) ← Memory.forEachSafe Mem.links studentList dropNode fuel s
  some s

/-! ## Processes -/

/-- Where a process is in `my_write`, with its node and `len`. -/
inductive WriterPc where
  | idle
  | parsed (node : Nat) (len : Nat)
  | added (node : Nat) (len : Nat)
deriving DecidableEq

/-- The node whose print is still to come. -/
def WriterPc.printing : WriterPc → Option Nat
  | added node _ => some node
  | _ => none

inductive Reply where
  | ret (r : Int)
  | read (r : ReadReply)
deriving DecidableEq

variable {T : Type*}

structure State (T : Type*) where
  mem : Mem
  writers : T → WriterPc
  replies : List (T × Reply)

inductive Event (T : Type*) where
  | write (t : T) (kbuf : CharArray bufSize) (copyFault : Bool) (kzalloc : Option Nat)
    (buf : List UInt8)
  | add (t : T)
  | print (t : T)
  | read (t : T) (kbuf : CharArray readBufSize) (off : Nat) (copyFault : Bool)
  | ioctl (t : T) (cmd : Nat) (arg : BitVec 64)

def State.reply (s : State T) (t : T) (r : Reply) : State T :=
  { s with replies := s.replies ++ [(t, r)] }

/-- A node that is allocated and not added yet. -/
def State.Pending (s : State T) (node : Nat) : Prop := ∃ t len, s.writers t = .parsed node len

variable [DecidableEq T]

def State.goto (s : State T) (t : T) (pc : WriterPc) : State T :=
  { s with writers := Function.update s.writers t pc }

/-- A step on the memory; its loops have `fuel`. -/
def step (fuel : Nat) (s : State T) : Event T → Option (State T)
  | .write t kbuf copyFault kzalloc buf =>
    match s.writers t with
    | .idle => (scanWrite s.mem kbuf copyFault kzalloc buf).map fun r =>
      r.2.elim ({ s with mem := r.1 }.reply t (.ret 0)) fun node =>
        { s with mem := r.1 }.goto t (.parsed node buf.length)
    | _ => none
  | .add t =>
    match s.writers t with
    | .parsed node len => (s.mem.listAddTail node).map fun mem =>
      { s with mem }.goto t (.added node len)
    | _ => none
  | .print t =>
    match s.writers t with
    | .added node len => (s.mem.student node).map fun _ => (s.goto t .idle).reply t (.ret len)
    | _ => none
  | .read t kbuf off copyFault =>
    match s.writers t with
    | .idle => (myRead s.mem fuel kbuf off copyFault).map fun r => s.reply t (.read r)
    | _ => none
  | .ioctl t cmd arg =>
    match s.writers t with
    | .idle => (myIoctl s.mem fuel cmd arg).map fun r =>
      { s with mem := r.1 }.reply t (.ret r.2)
    | _ => none

def machine (T : Type*) [DecidableEq T] (fuel : Nat) : Machine (State T) (Event T) :=
  ⟨⟨.init, fun _ => .idle, []⟩, step fuel⟩

/-- `node->id == arg`. -/
def Mem.hasId (s : Mem) (arg : BitVec 64) (node : Nat) : Bool :=
  (s.students node).id.signExtend 64 = arg

/-- The node that a `DELETE_NODE` takes: the first of that id. -/
def Mem.victim (s : Mem) (fuel : Nat) (arg : BitVec 64) : Option Nat :=
  (s.links.forEach studentList (fun node found =>
    some (if s.hasId arg node then (some node, true) else (found, false))) fuel none).join

/-- `kzalloc` gives what is not in use. -/
def Fresh (s : State T) : Event T → Prop
  | .write _ _ _ (some node) _ => node ∉ s.mem.links.live
  | _ => True

/-- A delete leaves the nodes that are still to be printed. -/
def Careful (fuel : Nat) (s : State T) : Event T → Prop
  | .ioctl _ cmd arg =>
    cmd = LinkedList.deleteNode → ∀ node ∈ s.mem.victim fuel arg,
      ∀ t, (s.writers t).printing ≠ some node
  | _ => True

instance (s : State T) (e : Event T) : Decidable (Fresh s e) := by
  unfold Fresh
  split <;> infer_instance

instance [Fintype T] (fuel : Nat) (s : State T) (e : Event T) :
    Decidable (Careful fuel s e) := by
  cases e <;> unfold Careful <;> infer_instance

/-! ## The same on lists -/

inductive Stage where
  | idle
  | parsed (student : Student) (len : Nat)
  | added (len : Nat)

structure Listed (T : Type*) where
  students : List Student
  stages : T → Stage
  replies : List (T × Reply)

def Listed.reply (a : Listed T) (t : T) (r : Reply) : Listed T :=
  { a with replies := a.replies ++ [(t, r)] }

def Listed.goto (a : Listed T) (t : T) (stage : Stage) : Listed T :=
  { a with stages := Function.update a.stages t stage }

def Listed.step (a : Listed T) : Event T → Option (Listed T)
  | .write t kbuf copyFault kzalloc buf =>
    match a.stages t with
    | .idle =>
      some ((Lifetime.scanWrite kbuf ⟨copyFault, kzalloc.isSome⟩ buf).elim (a.reply t (.ret 0))
        fun student => a.goto t (.parsed student buf.length))
    | _ => none
  | .add t =>
    match a.stages t with
    | .parsed student len =>
      some ({ a with students := a.students ++ [student] }.goto t (.added len))
    | _ => none
  | .print t =>
    match a.stages t with
    | .added len => some ((a.goto t .idle).reply t (.ret len))
    | _ => none
  | .read t kbuf off copyFault =>
    match a.stages t with
    | .idle => some (a.reply t (.read (LinkedList.myRead a.students kbuf off copyFault)))
    | _ => none
  | .ioctl t cmd arg =>
    match a.stages t with
    | .idle =>
      let r := LinkedList.myIoctl a.students cmd arg
      some ({ a with students := r.2 }.reply t (.ret r.1))
    | _ => none

def listed (T : Type*) [DecidableEq T] : Machine (Listed T) (Event T) :=
  ⟨⟨[], fun _ => .idle, []⟩, Listed.step⟩

/-! ## What the memory holds -/

structure Holds (s : Mem) (pending : Nat → Prop) (nodes : List Nat) (students : List Student) :
    Prop where
  ring : s.links.IsRing studentList nodes
  /-- There is no other node. -/
  live : ∀ a, a ∈ s.links.live ↔ a ∈ studentList :: nodes ∨ pending a
  apart : ∀ a, pending a → a ∉ studentList :: nodes
  data : nodes.map s.students = students

variable {s : Mem} {pending pending' : Nat → Prop} {nodes before after : List Nat}
  {students : List Student} {node fuel : Nat}

theorem holds_init : Holds .init (fun _ => False) [] [] :=
  ⟨Memory.isRing_init studentList, fun a => by simp [Mem.init, Memory.init], nofun, rfl⟩

theorem Holds.congr (h : Holds s pending nodes students) (hiff : ∀ a, pending' a ↔ pending a) :
    Holds s pending' nodes students :=
  ⟨h.ring, fun a => by rw [h.live, hiff], fun a ha => h.apart a ((hiff a).mp ha), h.data⟩

theorem Holds.student (h : Holds s pending nodes students) (hnode : node ∈ nodes) :
    s.student node = some (s.students node) := by
  have hne : node ≠ studentList := by
    have := h.ring.nodup
    grind
  exact if_pos ⟨(h.live node).mpr (.inl (List.mem_cons_of_mem _ hnode)), hne⟩

/-! ## my_write -/

/-- The two fields, or another number of them. -/
theorem vsscanf_addFormat (text : List UInt8) :
    (∃ id name, vsscanf addFormat text = [.int id, .str name]) ∨
      (vsscanf addFormat text).length ≠ 2 := by
  simp only [addFormat, vsscanf]
  split
  · exact .inr (by simp)
  cases scanInt text with
  | none => exact .inr (by simp)
  | some scan =>
    dsimp only
    split
    · exact .inr (by simp)
    · exact .inl ⟨_, _, rfl⟩

/-- The node of an allocation, with what the scan stores in it. -/
theorem Holds.allocate (h : Holds s pending nodes students) (hfresh : node ∉ s.links.live)
    (student : Student) :
    ∃ t, (s.kzalloc node).student node = some ⟨0, .zero 32⟩ ∧
      (s.kzalloc node).setStudent node student = some t ∧
        Holds t (fun a => a = node ∨ pending a) nodes students ∧ t.students node = student ∧
          ∀ a, a ≠ node → t.students a = s.students a := by
  have hout : node ∉ studentList :: nodes := fun hmem => hfresh ((h.live node).mpr (.inl hmem))
  have hne : node ≠ studentList := List.ne_of_not_mem_cons hout
  have hlive : node ∈ (s.kzalloc node).links.live := Finset.mem_insert_self node s.links.live
  have hframe : ∀ a, a ≠ node →
      Function.update (s.kzalloc node).students node student a = s.students a :=
    fun a ha => (Function.update_of_ne ha ..).trans (Function.update_of_ne ha ..)
  refine ⟨_, ?_, if_pos ⟨hlive, hne⟩, ⟨h.ring.alloc hfresh, fun a => ?_, ?_, ?_⟩,
    Function.update_self .., hframe⟩
  · rw [Mem.student, if_pos ⟨hlive, hne⟩]
    exact congrArg some (Function.update_self ..)
  · show a ∈ insert node s.links.live ↔ _
    rw [Finset.mem_insert, h.live]
    exact or_left_comm
  · rintro a (rfl | ha)
    · exact hout
    · exact h.apart a ha
  · rw [← h.data]
    exact List.map_congr_left fun a ha =>
      hframe a fun heq => hout (heq ▸ List.mem_cons_of_mem _ ha)

/-- A scan that fails: the node is as if it had never been. -/
theorem Holds.scanFailed (h : Holds s (fun a => a = node ∨ pending a) nodes students)
    (hnew : ¬ pending node) :
    ∃ u, s.kfree node = some u ∧ Holds u pending nodes students ∧ u.students = s.students := by
  have hout : node ∉ studentList :: nodes := h.apart node (.inl rfl)
  obtain ⟨hfree, hring⟩ := h.ring.free ((h.live node).mpr (.inr (.inl rfl))) hout
  refine ⟨{ s with links := { s.links with live := s.links.live.erase node } }, ?_,
    ⟨hring, fun a => ?_, fun a ha => h.apart a (.inr ha), h.data⟩, rfl⟩
  · rw [Mem.kfree, if_neg (List.ne_of_not_mem_cons hout), hfree, Option.map_some]
  · show a ∈ s.links.live.erase node ↔ _
    rw [Finset.mem_erase, h.live]
    constructor
    · rintro ⟨hne, hmem | heq | ha⟩
      · exact .inl hmem
      · exact absurd heq hne
      · exact .inr ha
    · rintro (hmem | ha)
      · exact ⟨fun heq => hout (heq ▸ hmem), .inl hmem⟩
      · exact ⟨fun heq => hnew (heq ▸ ha), .inr (.inr ha)⟩

/-- `list_add_tail` makes a node that waits the last of the list. -/
theorem Holds.add (h : Holds s pending nodes students) (hnode : pending node) :
    ∃ u, s.listAddTail node = some u ∧ u.students = s.students ∧
      Holds u (fun a => a ≠ node ∧ pending a) (nodes ++ [node])
        (students ++ [s.students node]) := by
  have hout : node ∉ studentList :: nodes := h.apart node hnode
  obtain ⟨links, hadd, hlive, hring⟩ :=
    h.ring.addTail ((h.live node).mpr (.inr hnode)) hout
  refine ⟨{ s with links }, ?_, rfl, hring, fun a => ?_, ?_, ?_⟩
  · rw [Mem.listAddTail, hadd, Option.map_some]
  · show a ∈ links.live ↔ _
    rw [hlive, h.live]
    by_cases ha : a = node
    · subst ha
      simp [hnode]
    · simp [ha]
  · rintro a ⟨hne, ha⟩
    have hold := h.apart a ha
    simp only [List.mem_cons, List.mem_append, not_or] at hold ⊢
    exact ⟨hold.1, hold.2, hne, List.not_mem_nil⟩
  · rw [List.map_append, List.map_singleton]
    exact congrArg (· ++ _) h.data

/-- The part before the lock: no node and a 0, or a node with the student that the
function on lists scans. -/
theorem Holds.scanWrite (h : Holds s pending nodes students) (kbuf : CharArray bufSize)
    (copyFault : Bool) {kzalloc : Option Nat}
    (hfresh : ∀ node ∈ kzalloc, node ∉ s.links.live) (buf : List UInt8) :
    ∃ t, (∀ a ∈ s.links.live, t.students a = s.students a) ∧
      (Pointers.scanWrite s kbuf copyFault kzalloc buf = some (t, none) ∧
          Lifetime.scanWrite kbuf ⟨copyFault, kzalloc.isSome⟩ buf = none ∧
            Holds t pending nodes students ∨
        ∃ node, Pointers.scanWrite s kbuf copyFault kzalloc buf = some (t, some node) ∧
          Lifetime.scanWrite kbuf ⟨copyFault, kzalloc.isSome⟩ buf = some (t.students node) ∧
            node ∉ s.links.live ∧ Holds t (fun a => a = node ∨ pending a) nodes students) := by
  unfold Pointers.scanWrite Lifetime.scanWrite
  split
  · exact ⟨s, fun _ _ => rfl, .inl ⟨rfl, rfl, h⟩⟩
  split
  · exact ⟨s, fun _ _ => rfl, .inl ⟨rfl, rfl, h⟩⟩
  cases kzalloc with
  | none => exact ⟨s, fun _ _ => rfl, .inl ⟨rfl, rfl, h⟩⟩
  | some node =>
    have hnode := hfresh node rfl
    simp only [Option.isSome_some, not_true_eq_false, if_false]
    generalize htext : ((kbuf.store 0 buf).store buf.length [0]).str.chars = text
    obtain ⟨t, hzero, hstore, ht, hstudent, hframe⟩ :=
      h.allocate hnode (scanned ⟨0, .zero 32⟩ (vsscanf addFormat text))
    have hframe' : ∀ a ∈ s.links.live, t.students a = s.students a :=
      fun a ha => hframe a fun heq => hnode (heq ▸ ha)
    simp only [hzero, hstore, Option.bind_eq_bind, Option.bind_some]
    rcases vsscanf_addFormat text with ⟨id, name, hscan⟩ | hscan
    · rw [hscan] at hstudent ⊢
      exact ⟨t, hframe', .inr ⟨node, by simp, by rw [hstudent]; rfl, hnode, ht⟩⟩
    · have hnew : ¬ pending node := fun hpending => hnode ((h.live node).mpr (.inr hpending))
      obtain ⟨u, hfree, hu, hstudents⟩ := ht.scanFailed hnew
      refine ⟨u, by rw [hstudents]; exact hframe', .inl ⟨?_, ?_, hu⟩⟩
      · rw [if_pos hscan, hfree, Option.bind_some]
      · -- the function on lists looks at the fields, not at their number
        clear hstore hstudent
        generalize vsscanf addFormat text = fields at hscan ⊢
        rcases fields with _ | ⟨_ | _, _ | ⟨_ | _, _ | _⟩⟩
        all_goals first | rfl | exact absurd rfl hscan

/-! ## my_read -/

/-- The loop reads the nodes in the order of the list. -/
theorem Holds.read (h : Holds s pending nodes students) (hfuel : nodes.length < fuel)
    (kbuf : CharArray readBufSize) (off : Nat) (copyFault : Bool) :
    myRead s fuel kbuf off copyFault = some (LinkedList.myRead students kbuf off copyFault) := by
  unfold myRead LinkedList.myRead
  split
  · rfl
  have hloop : ∃ r, s.links.forEach studentList (readStudent s) fuel ⟨kbuf, 0⟩ = some r ∧
      r = readLoop students ⟨kbuf, 0⟩ := by
    -- at each node, the loop over the rest of the list is the one over all of it
    refine h.ring.forEach_rule (I := fun rest r => (∀ a ∈ rest, a ∈ nodes) ∧
      readLoop (rest.map s.students) r = readLoop students ⟨kbuf, 0⟩)
      (Q := fun r => r = readLoop students ⟨kbuf, 0⟩) (fun r hI => hI.2) ?_ hfuel
      ⟨fun _ ha => ha, by rw [h.data]⟩
    rintro a rest r ⟨hmem, hrest⟩
    rw [List.map_cons, readLoop] at hrest
    refine ⟨_, _, by rw [readStudent, h.student (hmem a List.mem_cons_self)]; rfl, ?_⟩
    have hmem' : ∀ b ∈ rest, b ∈ nodes := fun b hb => hmem b (List.mem_cons_of_mem a hb)
    by_cases hfull : (readNode r (s.students a)).pos ≥ readBufSize
    · simpa [hfull] using hrest
    · simpa [hfull] using And.intro hmem' hrest
  obtain ⟨r, hloop, hr⟩ := hloop
  simp only [hloop, hr, Option.bind_eq_bind, Option.bind_some]
  split <;> rfl

/-! ## Taking nodes out -/

theorem Holds.delFree (h : Holds s pending (before ++ node :: after) students) :
    ∃ t u, s.listDel node = some t ∧ t.student node = s.student node ∧ t.kfree node = some u ∧
      u.students = s.students ∧
        Holds u pending (before ++ after) ((before ++ after).map s.students) := by
  obtain ⟨links, hdel, hlive, hring⟩ := h.ring.del
  have hnodup := h.ring.nodup
  have hin : node ∈ studentList :: (before ++ node :: after) := by simp
  have hout : node ∉ studentList :: (before ++ after) := by grind
  have hmem : node ∈ links.live := hlive ▸ h.ring.live node hin
  obtain ⟨hfree, hring'⟩ := hring.free hmem hout
  refine ⟨{ s with links }, { s with links := { links with live := links.live.erase node } },
    ?_, ?_, ?_, rfl, hring', fun a => ?_, fun a ha => ?_, rfl⟩
  · rw [Mem.listDel, hdel, Option.map_some]
  · simp only [Mem.student, hlive]
  · rw [Mem.kfree, if_neg (List.ne_of_not_mem_cons hout), hfree, Option.map_some]
  · show a ∈ links.live.erase node ↔ _
    have hnot : ¬ pending node := fun hpending => h.apart node hpending hin
    rw [Finset.mem_erase, hlive, h.live]
    grind
  · have hold := h.apart a ha
    grind

/-! ## my_ioctl -/

theorem deleteFirst_skip {arg : BitVec 64} {students : List Student}
    (hskip : ∀ student ∈ students, student.id.signExtend 64 ≠ arg) (rest : List Student) :
    deleteFirst arg (students ++ rest) = (deleteFirst arg rest).map (students ++ ·) := by
  induction students with
  | nil => simp
  | cons student students ih =>
    have hne := hskip student List.mem_cons_self
    rw [List.cons_append, deleteFirst, if_neg hne,
      ih fun st hst => hskip st (List.mem_cons_of_mem _ hst), Option.map_map]
    rfl

theorem Holds.victim (h : Holds s pending nodes students) (hfuel : nodes.length < fuel)
    (arg : BitVec 64) : s.victim fuel arg = nodes.find? (s.hasId arg) := by
  have hloop : ∃ found, s.links.forEach studentList (fun node found =>
      some (if s.hasId arg node then (some node, true) else (found, false))) fuel none =
        some found ∧ found = nodes.find? (s.hasId arg) := by
    refine h.ring.forEach_rule (I := fun rest found => found = none ∧
      rest.find? (s.hasId arg) = nodes.find? (s.hasId arg)) ?_ ?_ hfuel ⟨rfl, rfl⟩
    · rintro found ⟨rfl, hrest⟩
      exact hrest
    · rintro a rest found ⟨rfl, hrest⟩
      rw [List.find?_cons] at hrest
      cases hid : s.hasId arg a with
      | true =>
        rw [hid] at hrest
        exact ⟨some a, true, rfl, hrest⟩
      | false =>
        rw [hid] at hrest
        exact ⟨none, false, rfl, rfl, hrest⟩
  obtain ⟨found, hfound, rfl⟩ := hloop
  rw [Mem.victim, hfound, Option.join_some]

theorem find_skip {arg : BitVec 64} {passed : List Nat}
    (hskip : ∀ a ∈ passed, (s.students a).id.signExtend 64 ≠ arg) (rest : List Nat) :
    (passed ++ rest).find? (s.hasId arg) = rest.find? (s.hasId arg) := by
  have hnone : passed.find? (s.hasId arg) = none := by simpa [Mem.hasId] using hskip
  rw [List.find?_append, hnone, Option.none_or]

/-- The loop stops at the node that goes, or comes to the end. -/
theorem Holds.deleteLoop (h : Holds s pending nodes students) (hfuel : nodes.length < fuel)
    (arg : BitVec 64) : ∃ t result,
    Memory.forEachSafe Mem.links studentList (deleteNode arg) fuel s = some (t, result) ∧
      (nodes.find? (s.hasId arg) = none ∧ deleteFirst arg students = none ∧ result = none ∧
          t = s ∨
        ∃ before node after, nodes.find? (s.hasId arg) = some node ∧
          nodes = before ++ node :: after ∧
            deleteFirst arg students = some ((before ++ after).map s.students) ∧
              result = some 0 ∧ t.students = s.students ∧
                Holds t pending (before ++ after) ((before ++ after).map s.students)) := by
  -- what the loop has passed has other ids
  refine Memory.forEachSafe_rule (I := fun rest t => t = s ∧ ∃ passed, nodes = passed ++ rest ∧
    ∀ a ∈ passed, (s.students a).id.signExtend 64 ≠ arg) ?_ ?_ ?_ h.ring hfuel
      ⟨rfl, [], rfl, by simp⟩
  · rintro rest t ⟨rfl, passed, hnodes, -⟩
    exact ⟨passed, hnodes ▸ h.ring⟩
  · rintro t ⟨rfl, passed, hnodes, hskip⟩
    refine .inl ⟨?_, ?_, rfl, rfl⟩
    · rw [hnodes, find_skip hskip]
      rfl
    · rw [List.append_nil] at hnodes
      rw [← h.data, hnodes, ← List.append_nil (passed.map _),
        deleteFirst_skip (by simpa using hskip)]
      rfl
  · rintro a rest t ⟨rfl, passed, hnodes, hskip⟩
    have hstudent : t.student a = some (t.students a) := h.student (by simp [hnodes])
    have hstudents :
        students = passed.map t.students ++ (t.students a :: rest.map t.students) := by
      rw [← h.data, hnodes, List.map_append, List.map_cons]
    by_cases hid : (t.students a).id.signExtend 64 = arg
    · have hfind : nodes.find? (t.hasId arg) = some a := by
        rw [hnodes, find_skip hskip]
        simp [Mem.hasId, hid]
      rw [hnodes] at h
      obtain ⟨t', u, hdel, hprint, hfree, hsame, hu⟩ := h.delFree
      have hdelete : deleteFirst arg students = some ((passed ++ rest).map t.students) := by
        rw [hstudents, deleteFirst_skip (by simpa using hskip), deleteFirst, if_pos hid]
        simp
      refine ⟨u, some 0, ?_, .inr ⟨passed, a, rest, hfind, hnodes, hdelete, rfl, hsame, hu⟩⟩
      simp [deleteNode, hstudent, hid, hdel, hprint, hfree]
    · refine ⟨t, none, by simp [deleteNode, hstudent, hid], rfl, passed ++ [a], by simp [hnodes],
        fun b hb => ?_⟩
      rcases List.mem_append.mp hb with hb | hb
      · exact hskip b hb
      · rw [List.mem_singleton.mp hb]
        exact hid

theorem Holds.ioctl (h : Holds s pending nodes students) (hfuel : nodes.length < fuel) (cmd : Nat)
    (arg : BitVec 64) :
    ∃ t nodes', myIoctl s fuel cmd arg = some (t, (LinkedList.myIoctl students cmd arg).1) ∧
      t.students = s.students ∧
        Holds t pending nodes' (LinkedList.myIoctl students cmd arg).2 ∧
          ((cmd = LinkedList.deleteNode → s.victim fuel arg = none) ∧ nodes' = nodes ∨
            ∃ before node after, cmd = LinkedList.deleteNode ∧ s.victim fuel arg = some node ∧
              nodes = before ++ node :: after ∧ nodes' = before ++ after) := by
  unfold myIoctl LinkedList.myIoctl
  split
  swap
  · rename_i hcmd
    exact ⟨s, nodes, rfl, rfl, h, .inl ⟨fun heq => absurd heq hcmd, rfl⟩⟩
  rename_i hcmd
  rw [h.victim hfuel]
  obtain ⟨t, result, hloop, hresult⟩ := h.deleteLoop hfuel arg
  simp only [hloop, Option.bind_eq_bind, Option.bind_some]
  rcases hresult with ⟨hfind, hdelete, rfl, rfl⟩ |
    ⟨before, node, after, hfind, hnodes, hdelete, rfl, hsame, ht⟩
  · rw [hdelete]
    exact ⟨t, nodes, rfl, rfl, h, .inl ⟨fun _ => hfind, rfl⟩⟩
  · rw [hdelete]
    exact ⟨t, before ++ after, rfl, hsame, ht,
      .inr ⟨before, node, after, hcmd, hfind, hnodes, rfl⟩⟩

/-! ## list_exit -/

/-- Each round takes the first node out and frees it. -/
theorem Holds.exit (h : Holds s (fun _ => False) nodes students) (hfuel : nodes.length < fuel) :
    ∃ t, listExit s fuel = some t ∧ t.links.live = {studentList} := by
  have hloop : ∃ t result, Memory.forEachSafe Mem.links studentList dropNode fuel s =
      some (t, result) ∧ Holds t (fun _ => False) [] [] := by
    refine Memory.forEachSafe_rule (I := fun rest t =>
      ∃ students, Holds t (fun _ => False) rest students) ?_ ?_ ?_ h.ring hfuel ⟨students, h⟩
    · rintro rest t ⟨_, ht⟩
      exact ⟨[], ht.ring⟩
    · rintro t ⟨_, ht⟩
      exact ⟨ht.ring, ht.live, ht.apart, rfl⟩
    · rintro a rest t ⟨students, ht⟩
      have ht' : Holds t (fun _ => False) ([] ++ a :: rest) students := ht
      obtain ⟨t', u, hdel, -, hfree, -, hu⟩ := ht'.delFree
      exact ⟨u, none, by simp [dropNode, hdel, hfree], _, hu⟩
  obtain ⟨t, result, hloop, ht⟩ := hloop
  refine ⟨t, by simp [listExit, hloop], Finset.ext fun a => ?_⟩
  rw [ht.live, List.mem_singleton, Finset.mem_singleton, or_false]

/-! ## One step -/

/-- A process in `my_write`, on both sides. -/
def Agrees (s : Mem) (nodes : List Nat) : WriterPc → Stage → Prop
  | .idle, .idle => True
  | .parsed node len, .parsed student len' => len' = len ∧ student = s.students node
  | .added node len, .added len' => len' = len ∧ node ∈ nodes
  | _, _ => False

structure Refines (s : State T) (nodes : List Nat) (a : Listed T) : Prop where
  holds : Holds s.mem s.Pending nodes a.students
  own : ∀ t t' node len len', s.writers t = .parsed node len → s.writers t' = .parsed node len' →
    t = t'
  agrees : ∀ t, Agrees s.mem nodes (s.writers t) (a.stages t)
  replies : s.replies = a.replies

variable {pc : WriterPc} {mem : Mem} {nodes' : List Nat} {sys sys' : State T}
  {lst lst' : Listed T} {t : T} {len : Nat}

theorem Agrees.idle (h : Agrees s nodes pc .idle) : pc = .idle := by
  cases pc <;> first | rfl | cases h

theorem Agrees.parsed {student : Student} (h : Agrees s nodes pc (.parsed student len)) :
    ∃ node, pc = .parsed node len ∧ student = s.students node := by
  cases pc with
  | idle | added => cases h
  | parsed node len' =>
    obtain ⟨rfl, hstudent⟩ := h
    exact ⟨node, rfl, hstudent⟩

theorem Agrees.added (h : Agrees s nodes pc (.added len)) :
    ∃ node, pc = .added node len ∧ node ∈ nodes := by
  cases pc with
  | idle | parsed => cases h
  | added node len' =>
    obtain ⟨rfl, hnode⟩ := h
    exact ⟨node, rfl, hnode⟩

/-- A process that the step does not concern. -/
theorem Agrees.mono {stage : Stage} (h : Agrees s nodes pc stage)
    (hparsed : ∀ node len, pc = .parsed node len → mem.students node = s.students node)
    (hadded : ∀ node, pc.printing = some node → node ∈ nodes → node ∈ nodes') :
    Agrees mem nodes' pc stage := by
  cases stage with
  | idle =>
    obtain rfl := h.idle
    trivial
  | parsed student len =>
    obtain ⟨node, rfl, rfl⟩ := h.parsed
    exact ⟨rfl, (hparsed node len rfl).symm⟩
  | added len =>
    obtain ⟨node, rfl, hnode⟩ := h.added
    exact ⟨rfl, hadded node rfl hnode⟩

/-- Who waits, when one process has gone on. -/
theorem pending_goto (sys : State T) (t : T) (pc : WriterPc) (node : Nat) :
    (sys.goto t pc).Pending node ↔ (∃ len, pc = .parsed node len) ∨
      ∃ t', t' ≠ t ∧ ∃ len, sys.writers t' = .parsed node len := by
  constructor
  · rintro ⟨t', len, ht'⟩
    by_cases heq : t' = t
    · subst heq
      exact .inl ⟨len, (Function.update_self ..).symm.trans ht'⟩
    · exact .inr ⟨t', heq, len, (Function.update_of_ne heq ..).symm.trans ht'⟩
  · rintro (⟨len, rfl⟩ | ⟨t', hne, len, ht'⟩)
    · exact ⟨t, len, Function.update_self ..⟩
    · exact ⟨t', len, (Function.update_of_ne hne ..).trans ht'⟩

omit [DecidableEq T] in
/-- The others that wait, where a process does not. -/
theorem pending_others (ht : ∀ len, sys.writers t ≠ .parsed node len) :
    (∃ t', t' ≠ t ∧ ∃ len, sys.writers t' = .parsed node len) ↔ sys.Pending node := by
  constructor
  · rintro ⟨t', -, len, ht'⟩
    exact ⟨t', len, ht'⟩
  · rintro ⟨t', len, ht'⟩
    exact ⟨t', fun heq => ht len (heq ▸ ht'), len, ht'⟩

theorem own_goto (h : ∀ t t' node len len', sys.writers t = .parsed node len →
      sys.writers t' = .parsed node len' → t = t')
    (hpc : ∀ node len, pc = .parsed node len → ¬ sys.Pending node) :
    ∀ t₁ t₂ node len len', (sys.goto t pc).writers t₁ = .parsed node len →
      (sys.goto t pc).writers t₂ = .parsed node len' → t₁ = t₂ := by
  intro t₁ t₂ node len len' h₁ h₂
  by_cases heq₁ : t₁ = t <;> by_cases heq₂ : t₂ = t
  · rw [heq₁, heq₂]
  · subst heq₁
    exact absurd ⟨t₂, len', (Function.update_of_ne heq₂ ..).symm.trans h₂⟩
      (hpc node len ((Function.update_self ..).symm.trans h₁))
  · subst heq₂
    exact absurd ⟨t₁, len, (Function.update_of_ne heq₁ ..).symm.trans h₁⟩
      (hpc node len' ((Function.update_self ..).symm.trans h₂))
  · exact h t₁ t₂ node len len' ((Function.update_of_ne heq₁ ..).symm.trans h₁)
      ((Function.update_of_ne heq₂ ..).symm.trans h₂)

omit [DecidableEq T] in
theorem Refines.live_of_parsed (h : Refines sys nodes lst) (ht : sys.writers t = .parsed node len) :
    node ∈ sys.mem.links.live :=
  (h.holds.live node).mpr (.inr ⟨t, len, ht⟩)

theorem Refines.write (h : Refines sys nodes lst) (fuel : Nat) {kbuf : CharArray bufSize}
    {copyFault : Bool} {kzalloc : Option Nat} {buf : List UInt8}
    (hfresh : Fresh sys (.write t kbuf copyFault kzalloc buf))
    (hs : lst.step (.write t kbuf copyFault kzalloc buf) = some lst') :
    ∃ sys', step fuel sys (.write t kbuf copyFault kzalloc buf) = some sys' ∧
      Refines sys' nodes lst' := by
  simp only [Listed.step] at hs
  split at hs
  case h_2 => cases hs
  rename_i hstage
  cases hs
  have hpc : sys.writers t = .idle := Agrees.idle (by rw [← hstage]; exact h.agrees t)
  have hnode : ∀ node ∈ kzalloc, node ∉ sys.mem.links.live := by
    rintro node rfl
    exact hfresh
  obtain ⟨mem, hframe, ⟨hscan, hlisted, hmem⟩ | ⟨node, hscan, hlisted, hnew, hmem⟩⟩ :=
    h.holds.scanWrite kbuf copyFault hnode buf
  · refine ⟨{ sys with mem }.reply t (.ret 0), by simp [Pointers.step, hpc, hscan], ?_⟩
    rw [hlisted]
    refine ⟨hmem, h.own, fun t' => (h.agrees t').mono (fun node len ht' => ?_) fun _ _ hin => hin,
      congrArg (· ++ _) h.replies⟩
    exact hframe node (h.live_of_parsed ht')
  · refine ⟨{ sys with mem }.goto t (.parsed node buf.length),
      by simp [Pointers.step, hpc, hscan], ?_⟩
    rw [hlisted]
    have hpending : ¬ sys.Pending node := fun ⟨t', len, ht'⟩ => hnew (h.live_of_parsed ht')
    refine ⟨hmem.congr fun a => ?_, own_goto h.own ?_, fun t' => ?_, h.replies⟩
    · rw [pending_goto, pending_others (by simp [hpc])]
      simp [eq_comm, State.Pending]
    · intro node' len heq
      cases heq
      exact hpending
    · by_cases heq : t' = t
      · subst heq
        simp [State.goto, Listed.goto, Agrees]
      · simp only [State.goto, Listed.goto, Option.elim_some, Function.update_of_ne heq]
        exact (h.agrees t').mono (fun node len ht' => hframe node (h.live_of_parsed ht'))
          fun _ _ hin => hin

theorem Refines.add (h : Refines sys nodes lst) (hs : lst.step (.add t) = some lst') :
    ∃ sys' nodes', step fuel sys (.add t) = some sys' ∧ Refines sys' nodes' lst' ∧
      nodes'.length ≤ nodes.length + 1 := by
  simp only [Listed.step] at hs
  split at hs
  case h_2 => cases hs
  rename_i student len hstage
  cases hs
  obtain ⟨node, hpc, rfl⟩ := Agrees.parsed (by rw [← hstage]; exact h.agrees t)
  obtain ⟨mem, hadd, hstudents, hmem⟩ := h.holds.add ⟨t, len, hpc⟩
  refine ⟨{ sys with mem }.goto t (.added node len), nodes ++ [node],
    by simp [Pointers.step, hpc, hadd], ⟨hmem.congr fun a => ?_,
      own_goto h.own (fun _ _ heq => by cases heq), fun t' => ?_, h.replies⟩, by simp⟩
  · rw [pending_goto]
    constructor
    · rintro (⟨len', heq⟩ | ⟨t', hne, len', ht'⟩)
      · cases heq
      · exact ⟨fun heq => hne (h.own t' t node len' len (heq ▸ ht') hpc), t', len', ht'⟩
    · rintro ⟨hne, t', len', ht'⟩
      refine .inr ⟨t', fun heq => hne ?_, len', ht'⟩
      rw [heq] at ht'
      cases hpc.symm.trans ht'
      rfl
  · by_cases heq : t' = t
    · subst heq
      simp [State.goto, Listed.goto, Agrees]
    · simp only [State.goto, Listed.goto, Function.update_of_ne heq]
      exact (h.agrees t').mono (fun node len ht' => congrFun hstudents node)
        fun _ _ hin => List.mem_append_left _ hin

theorem Refines.print (h : Refines sys nodes lst) (fuel : Nat)
    (hs : lst.step (.print t) = some lst') :
    ∃ sys', step fuel sys (.print t) = some sys' ∧ Refines sys' nodes lst' := by
  simp only [Listed.step] at hs
  split at hs
  case h_2 => cases hs
  rename_i len hstage
  cases hs
  obtain ⟨node, hpc, hnode⟩ := Agrees.added (by rw [← hstage]; exact h.agrees t)
  refine ⟨(sys.goto t .idle).reply t (.ret len),
    by simp [Pointers.step, hpc, h.holds.student hnode],
    h.holds.congr fun a => ?_, own_goto h.own (fun _ _ heq => by cases heq), fun t' => ?_,
    congrArg (· ++ _) h.replies⟩
  · refine (pending_goto sys t .idle a).trans ?_
    rw [pending_others (by simp [hpc])]
    simp
  · by_cases heq : t' = t
    · subst heq
      simp [State.goto, State.reply, Listed.goto, Listed.reply, Agrees]
    · simp only [State.goto, State.reply, Listed.goto, Listed.reply, Function.update_of_ne heq]
      exact h.agrees t'

theorem Refines.read (h : Refines sys nodes lst) (hfuel : nodes.length < fuel)
    {kbuf : CharArray readBufSize} {off : Nat} {copyFault : Bool}
    (hs : lst.step (.read t kbuf off copyFault) = some lst') :
    ∃ sys', step fuel sys (.read t kbuf off copyFault) = some sys' ∧ Refines sys' nodes lst' := by
  simp only [Listed.step] at hs
  split at hs
  case h_2 => cases hs
  rename_i hstage
  cases hs
  have hpc : sys.writers t = .idle := Agrees.idle (by rw [← hstage]; exact h.agrees t)
  refine ⟨_, by rw [Pointers.step, hpc, h.holds.read hfuel]; rfl, ?_⟩
  exact ⟨h.holds, h.own, h.agrees, congrArg (· ++ _) h.replies⟩

/-- A delete frees its node, and nobody else's. -/
theorem Refines.ioctl (h : Refines sys nodes lst) (hfuel : nodes.length < fuel) {cmd : Nat}
    {arg : BitVec 64} (hcareful : Careful fuel sys (.ioctl t cmd arg))
    (hs : lst.step (.ioctl t cmd arg) = some lst') :
    ∃ sys' nodes', step fuel sys (.ioctl t cmd arg) = some sys' ∧ Refines sys' nodes' lst' ∧
      nodes'.length ≤ nodes.length + 1 := by
  simp only [Listed.step] at hs
  split at hs
  case h_2 => cases hs
  rename_i hstage
  cases hs
  have hpc : sys.writers t = .idle := Agrees.idle (by rw [← hstage]; exact h.agrees t)
  obtain ⟨mem, nodes', hcall, hstudents, hmem, hnodes⟩ := h.holds.ioctl hfuel cmd arg
  have hless : nodes'.length ≤ nodes.length + 1 := by
    rcases hnodes with ⟨-, rfl⟩ | ⟨before, node, after, -, -, rfl, rfl⟩
    · omega
    · simp only [List.length_append, List.length_cons]
      omega
  refine ⟨{ sys with mem }.reply t (.ret (LinkedList.myIoctl lst.students cmd arg).1), nodes',
    by simp [Pointers.step, hpc, hcall],
    ⟨hmem, h.own, fun t' => (h.agrees t').mono (fun node _ _ => congrFun hstudents node) ?_,
      congrArg (· ++ _) h.replies⟩, hless⟩
  intro node hprinting hin
  rcases hnodes with ⟨-, rfl⟩ | ⟨before, victim, after, hcmd, hvictim, rfl, rfl⟩
  · exact hin
  · have hne : node ≠ victim := fun heq => hcareful hcmd victim hvictim t' (heq ▸ hprinting)
    simpa [hne] using hin

/-- **One step**: no bad access, and the reply of the step on lists. -/
theorem Refines.step (h : Refines sys nodes lst) (hfuel : nodes.length < fuel) {e : Event T}
    (hfresh : Fresh sys e) (hcareful : Careful fuel sys e) (hs : lst.step e = some lst') :
    ∃ sys' nodes', Pointers.step fuel sys e = some sys' ∧ Refines sys' nodes' lst' ∧
      nodes'.length ≤ nodes.length + 1 := by
  cases e with
  | write t kbuf copyFault kzalloc buf =>
    obtain ⟨sys', hrun, h'⟩ := h.write fuel hfresh hs
    exact ⟨sys', nodes, hrun, h', Nat.le_succ _⟩
  | add t => exact h.add hs
  | print t =>
    obtain ⟨sys', hrun, h'⟩ := h.print fuel hs
    exact ⟨sys', nodes, hrun, h', Nat.le_succ _⟩
  | read t kbuf off copyFault =>
    obtain ⟨sys', hrun, h'⟩ := h.read hfuel hs
    exact ⟨sys', nodes, hrun, h', Nat.le_succ _⟩
  | ioctl t cmd arg => exact h.ioctl hfuel hcareful hs

/-- A delete that takes a node whose print is still to come: the print reads what is
not allocated. -/
theorem Refines.careless (h : Refines sys nodes lst) (hfuel : nodes.length < fuel) {e : Event T}
    (hcareless : ¬ Careful fuel sys e) (hs : Pointers.step fuel sys e = some sys') :
    ∃ t node len, sys'.writers t = .added node len ∧ Pointers.step fuel sys' (.print t) = none := by
  cases e with
  | write | add | print | read => exact absurd trivial hcareless
  | ioctl t cmd arg =>
    simp only [Careful, Classical.not_imp, not_forall, not_not] at hcareless
    obtain ⟨hcmd, node, hvictim, t', hprinting⟩ := hcareless
    obtain ⟨len, ht'⟩ : ∃ len, sys.writers t' = .added node len := by
      cases hpc : sys.writers t' with
      | idle | parsed =>
        rw [hpc] at hprinting
        cases hprinting
      | added node' len =>
        rw [hpc] at hprinting
        cases hprinting
        exact ⟨len, rfl⟩
    obtain ⟨mem, nodes', hcall, -, hmem, hnodes⟩ := h.holds.ioctl hfuel cmd arg
    have hsys : sys'.mem = mem ∧ sys'.writers = sys.writers := by
      simp only [Pointers.step] at hs
      split at hs
      · rw [hcall] at hs
        cases hs
        exact ⟨rfl, rfl⟩
      · cases hs
    obtain ⟨before, victim, after, -, hvictim', hsplit, rfl⟩ := hnodes.resolve_left fun hnone => by
      rw [hnone.1 hcmd] at hvictim
      cases hvictim
    obtain rfl : victim = node := Option.some.inj (hvictim'.symm.trans hvictim)
    have hgone : victim ∉ mem.links.live := by
      have hnodup := h.holds.ring.nodup
      have hnot : ¬ sys.Pending victim := fun hpending =>
        h.holds.apart victim hpending (by simp [hsplit])
      rw [hsplit] at hnodup
      rw [hmem.live]
      rintro (hin | hpending)
      · grind
      · exact hnot hpending
    refine ⟨t', victim, len, by rw [hsys.2, ht'], ?_⟩
    simp [Pointers.step, hsys.1, hsys.2, ht', Mem.student, hgone]

/-! ## Runs -/

/-- A step adds one node at most, which bounds the fuel of a run. -/
theorem Refines.run (h : Refines sys nodes lst) {es : List (Event T)}
    (hfuel : nodes.length + es.length < fuel)
    (hcareful : (machine T fuel).Along (fun s e => Fresh s e ∧ Careful fuel s e) sys es)
    (hs : (listed T).exec lst es = some lst') :
    ∃ sys' nodes', (machine T fuel).exec sys es = some sys' ∧ Refines sys' nodes' lst' ∧
      nodes'.length < fuel := by
  induction es generalizing sys nodes lst with
  | nil =>
    cases hs
    exact ⟨sys, nodes, rfl, h, hfuel⟩
  | cons e es ih =>
    rw [List.length_cons] at hfuel
    obtain ⟨next, hnext, hrest⟩ := Machine.exec_cons_iff.mp hs
    obtain ⟨mid, nodes', hstep, hmid, hle⟩ :=
      h.step (by omega) hcareful.1.1 hcareful.1.2 hnext
    obtain ⟨sys', nodes'', hrun, h', hbound⟩ :=
      ih hmid (by omega) (hcareful.2 mid hstep) hrest
    exact ⟨sys', nodes'', Machine.exec_cons_iff.mpr ⟨mid, hstep, hrun⟩, h', hbound⟩

theorem refines_init (fuel : Nat) : Refines (machine T fuel).init [] (listed T).init :=
  ⟨holds_init.congr fun a => by simp [State.Pending, machine], by simp [machine],
    fun _ => trivial, rfl⟩

/-- **The pointers hold the list**: in every run of the processes in which no delete takes a
node whose print is still to come, no step makes a bad access, the replies are those of
the functions on lists, and the memory is a ring of nodes with the students that these
leave, with no other node allocated but those that wait to be added. When nobody is in a
call, `list_exit` frees every node once and leaves the head alone. A delete that takes
such a node makes its print a bad access. -/
theorem pointers_hold_list {es : List (Event T)} {lst : Listed T}
    (hs : (listed T).Reaches es lst) (hfuel : es.length < fuel)
    (hcareful : (machine T fuel).Along (fun s e => Fresh s e ∧ Careful fuel s e)
      (machine T fuel).init es) :
    ∃ sys nodes, (machine T fuel).Reaches es sys ∧ Refines sys nodes lst ∧
      ((∀ t, sys.writers t = .idle) →
        ∃ mem, listExit sys.mem fuel = some mem ∧ mem.links.live = {studentList}) ∧
      ∀ e sys', Pointers.step fuel sys e = some sys' → ¬ Careful fuel sys e →
        ∃ t node len, sys'.writers t = .added node len ∧
          Pointers.step fuel sys' (.print t) = none := by
  obtain ⟨sys, nodes, hrun, h, hbound⟩ :=
    (refines_init fuel).run (by simpa using hfuel) hcareful hs
  refine ⟨sys, nodes, hrun, h, fun hidle => ?_, fun e sys' hstep hcareless =>
    h.careless hbound hcareless hstep⟩
  exact (h.holds.congr fun a => by simp [State.Pending, hidle]).exit hbound

/-- Two students, of whom the second is added first; it is deleted behind its print, and
its address is used again while the print of the other one is still to come. -/
def reuse : List (Event Bool) :=
  [.write false (.zero bufSize) false (some 7) [49, 32, 97],
    .write true (.zero bufSize) false (some 8) [50, 32, 98], .add true, .add false, .print true,
    .ioctl true 1 2, .write true (.zero bufSize) false (some 8) [51, 32, 99], .print false,
    .add true, .print true, .read false (.zero readBufSize) 0 false]

theorem pointers_hold_list_reuse :
    ∃ lst sys nodes, (listed Bool).Reaches reuse lst ∧ (machine Bool 12).Reaches reuse sys ∧
      Refines sys nodes lst ∧
      ∃ mem, listExit sys.mem 12 = some mem ∧ mem.links.live = {studentList} := by
  obtain ⟨lst, hs⟩ : ∃ lst, (listed Bool).Reaches reuse lst :=
    Option.isSome_iff_exists.mp (by decide +kernel :
      ((listed Bool).exec (listed Bool).init reuse).isSome = true)
  have hidle : ∀ sys ∈ (machine Bool 12).exec (machine Bool 12).init reuse,
      ∀ t, sys.writers t = .idle := by
    decide +kernel
  obtain ⟨sys, nodes, hrun, h, hexit, -⟩ :=
    pointers_hold_list hs (by decide : reuse.length < 12) (by decide +kernel)
  exact ⟨lst, sys, nodes, hs, hrun, h, hexit (hidle sys hrun)⟩

end KernelSpace.LinkedList.Pointers
