import KernelSpace.Kernel.Errno
import KernelSpace.Kernel.Scanf

/-!
# LinkedList — the student list (23)

`23.Kernel_Linked_list/Kernel_linked_list.c`: a list of students under one
mutex, filled by `write` from text, shown by `read`, thinned by `ioctl`. Each
function takes and leaves the list as it is under `list_lock`; `kbuf` is what
the stack holds when the function is entered.

`addText` is what the program `userspace_linked_list.c` writes to add one.
-/

namespace KernelSpace.LinkedList

open KernelSpace.Kernel

/-- `BUF_SIZE`. -/
def bufSize : Nat := 128

/-- `sizeof(kbuf)` in `my_read`. -/
def readBufSize : Nat := 512

/-- `DELETE_NODE`. -/
def deleteNode : Nat := 1

/-- `struct student`. -/
structure Student where
  id : BitVec 32
  name : CharArray 32
deriving DecidableEq

/-! ## my_write -/

/-- What the calls of `my_write` come to. -/
structure WriteEnv where
  copyFault : Bool
  allocated : Bool

/-- `"%d %31s"`. -/
def addFormat : List Conversion := [.int, .space, .str 31]

/-- The zeroed node with the scanned name in it. -/
def newNode (id : BitVec 32) (name : List UInt8) : Student :=
  ⟨id, (CharArray.zero 32).store 0 (name ++ [0])⟩

/-- The return value and the list. -/
def myWrite (students : List Student) (kbuf : CharArray bufSize) (env : WriteEnv)
    (buf : List UInt8) : Int × List Student :=
  if buf.length ≥ bufSize then (0, students)
  else if env.copyFault then (0, students)
  else
    let kbuf := (kbuf.store 0 buf).store buf.length [0]
    if ¬ env.allocated then (0, students)
    else
      match vsscanf addFormat kbuf.str.chars with
      | [.int id, .str name] => (buf.length, students ++ [newNode id name])
      | _ => (0, students)

/-! ## my_read -/

/-- `kbuf` and `pos` in the loop. -/
structure ReadBuf where
  kbuf : CharArray readBufSize
  pos : Nat

/-- `"ID=%d Name=%s\n"` for a node. -/
def nodeLine (node : Student) : List Piece :=
  [.lit (.lit "ID="), .int node.id, .lit (.lit " Name="), .str node.name.str, .lit (.lit "\n")]

/-- The loop body, before the test. -/
def readNode (r : ReadBuf) (node : Student) : ReadBuf :=
  let (n, kbuf) := scnprintf r.kbuf r.pos (sizeT ((readBufSize : Int) - r.pos)) (nodeLine node)
  ⟨kbuf, r.pos + n⟩

/-- `list_for_each_entry`, with its break. -/
def readLoop : List Student → ReadBuf → ReadBuf
  | [], r => r
  | node :: rest, r =>
    if (readNode r node).pos ≥ readBufSize then readNode r node
    else readLoop rest (readNode r node)

/-- What a read returns, copies to the user and leaves as the file offset. -/
structure ReadReply where
  ret : Int
  data : List UInt8
  off : Nat
deriving DecidableEq

def myRead (students : List Student) (kbuf : CharArray readBufSize) (off : Nat)
    (copyFault : Bool) : ReadReply :=
  if off ≠ 0 then ⟨0, [], off⟩
  else
    let r := readLoop students ⟨kbuf, 0⟩
    if copyFault then ⟨-EFAULT, [], off⟩ else ⟨r.pos, r.kbuf.bytes.take r.pos, off + r.pos⟩

/-! ## my_ioctl -/

/-- The list without its first node of that id, which is compared as an
`unsigned long`; `none` when there is no such node. -/
def deleteFirst (arg : BitVec 64) : List Student → Option (List Student)
  | [] => none
  | node :: rest =>
    if node.id.signExtend 64 = arg then some rest else (deleteFirst arg rest).map (node :: ·)

def myIoctl (students : List Student) (cmd : Nat) (arg : BitVec 64) : Int × List Student :=
  if cmd = deleteNode then
    match deleteFirst arg students with
    | some rest => (0, rest)
    | none => (1, students)
  else (2, students)

/-! ## The program -/

/-- The buffer that the program writes: `"%d %s"`. -/
def addText (id : BitVec 32) (name : CString) : List UInt8 :=
  snprintf 128 [.int id, .lit (.lit " "), .str name]

end KernelSpace.LinkedList
