import Mathlib.Data.Fintype.Defs
import Mathlib.Data.List.Nodup
import Mathlib.Logic.Function.Basic
import KernelSpace.Lib.Machine
import KernelSpace.LinkedList.Driver

/-!
# LinkedList — the life of a node

`my_write` and `my_ioctl` by any number of processes, in the steps that the
lock leaves apart: a node is allocated and parsed, added to the list under
`list_lock`, and printed after the unlock; a `DELETE_NODE` takes the first
node of the id off the list and frees it, all under the lock.

Every node has a number of its own that no later node gets. `live` are the
nodes that are allocated, `uses` the nodes that a step reads or writes.

The list is safe: what is in it is live. The node that a `my_write` has added
and not yet printed is in the list like any other, and the lock is not held
any more; so the print is safe as long as no delete takes that very node.
-/

namespace KernelSpace.LinkedList.Lifetime

open KernelSpace.Kernel KernelSpace.Lib

/-! ## The calls in steps -/

structure Node where
  addr : Nat
  student : Student
deriving DecidableEq

/-- `my_write` up to the lock: the parsed node, or `none` where it returns 0
and holds no node. -/
def scanWrite (kbuf : CharArray bufSize) (env : WriteEnv) (buf : List UInt8) : Option Student :=
  if buf.length ≥ bufSize then none
  else if env.copyFault then none
  else
    let kbuf := (kbuf.store 0 buf).store buf.length [0]
    if ¬ env.allocated then none
    else
      match vsscanf addFormat kbuf.str.chars with
      | [.int id, .str name] => some (newNode id name)
      | _ => none

/-- `node->id == arg`. -/
def Node.hasId (arg : BitVec 64) (node : Node) : Bool := node.student.id.signExtend 64 = arg

/-- Where a process is in `my_write`, with its node and `len`. -/
inductive WriterPc where
  | idle
  | parsed (node : Node) (len : Nat)
  | added (node : Node) (len : Nat)
deriving DecidableEq

/-- The node whose print is still to come. -/
def WriterPc.printing : WriterPc → Option Nat
  | added node _ => some node.addr
  | _ => none

variable {T : Type*}

structure State (T : Type*) where
  live : List Nat
  fresh : Nat
  nodes : List Node
  writers : T → WriterPc

def State.init : State T := ⟨[], 0, [], fun _ => .idle⟩

inductive Event (T : Type*) where
  | write (t : T) (kbuf : CharArray bufSize) (env : WriteEnv) (buf : List UInt8)
  | add (t : T)
  | print (t : T)
  | ioctl (t : T) (cmd : Nat) (arg : BitVec 64)

variable [DecidableEq T]

def State.goto (s : State T) (t : T) (pc : WriterPc) : State T :=
  { s with writers := Function.update s.writers t pc }

@[simp] theorem State.goto_writers (s : State T) (t : T) (pc : WriterPc) :
    (s.goto t pc).writers = Function.update s.writers t pc := rfl

def step (s : State T) : Event T → Option (State T)
  | .write t kbuf env buf =>
    match s.writers t, scanWrite kbuf env buf with
    | .idle, some student =>
      some ({ s with live := s.fresh :: s.live, fresh := s.fresh + 1 }.goto t
        (.parsed ⟨s.fresh, student⟩ buf.length))
    | .idle, none => some s
    | _, _ => none
  | .add t =>
    match s.writers t with
    | .parsed node len => some ({ s with nodes := s.nodes ++ [node] }.goto t (.added node len))
    | _ => none
  | .print t =>
    match s.writers t with
    | .added _ _ => some (s.goto t .idle)
    | _ => none
  | .ioctl t cmd arg =>
    match s.writers t with
    | .idle =>
      if cmd = deleteNode then
        match s.nodes.find? (Node.hasId arg) with
        | some node =>
          some { s with
            nodes := s.nodes.eraseP (Node.hasId arg)
            live := s.live.erase node.addr }
        | none => some s
      else some s
    | _ => none

def driver (T : Type*) [DecidableEq T] : Machine (State T) (Event T) := ⟨.init, step⟩

/-- What a step reads or writes of the nodes: an add links its node behind the
last one, an ioctl may walk the whole list. -/
def uses (s : State T) : Event T → List Nat
  | .write .. => []
  | .add t =>
    match s.writers t with
    | .parsed node _ => node.addr :: (s.nodes.map Node.addr).getLast?.toList
    | _ => []
  | .print t => (s.writers t).printing.toList
  | .ioctl .. => s.nodes.map Node.addr

/-- What the event uses is allocated. -/
def Live (s : State T) (e : Event T) : Prop := ∀ a ∈ uses s e, a ∈ s.live

/-- A delete leaves the nodes that are still to be printed. -/
def Careful (s : State T) : Event T → Prop
  | .ioctl _ cmd arg =>
    cmd = deleteNode → ∀ node ∈ s.nodes.find? (Node.hasId arg),
      ∀ t, (s.writers t).printing ≠ some node.addr
  | _ => True

instance (s : State T) (e : Event T) : Decidable (Live s e) := by
  unfold Live
  infer_instance

instance [Fintype T] (s : State T) (e : Event T) : Decidable (Careful s e) := by
  cases e <;> unfold Careful <;> infer_instance

/-! ## What each event does -/

theorem step_spec {s s' : State T} {e : Event T} (h : step s e = some s') :
    match e with
    | .write t kbuf env buf =>
      s.writers t = .idle ∧
        (scanWrite kbuf env buf = none ∧ s' = s ∨
          ∃ student, scanWrite kbuf env buf = some student ∧
            s' = { s with live := s.fresh :: s.live, fresh := s.fresh + 1 }.goto t
              (.parsed ⟨s.fresh, student⟩ buf.length))
    | .add t =>
      ∃ node len, s.writers t = .parsed node len ∧
        s' = { s with nodes := s.nodes ++ [node] }.goto t (.added node len)
    | .print t => ∃ node len, s.writers t = .added node len ∧ s' = s.goto t .idle
    | .ioctl t cmd arg =>
      s.writers t = .idle ∧
        ((cmd = deleteNode → s.nodes.find? (Node.hasId arg) = none) ∧ s' = s ∨
          ∃ node, cmd = deleteNode ∧ s.nodes.find? (Node.hasId arg) = some node ∧
            s' = { s with
              nodes := s.nodes.eraseP (Node.hasId arg)
              live := s.live.erase node.addr }) := by
  cases e with
  | write t kbuf env buf =>
    simp only [step] at h
    split at h
    · rename_i student hpc hscan
      exact ⟨hpc, .inr ⟨student, hscan, (Option.some.inj h).symm⟩⟩
    · rename_i hpc hscan
      exact ⟨hpc, .inl ⟨hscan, (Option.some.inj h).symm⟩⟩
    · cases h
  | add t | print t =>
    simp only [step] at h
    split at h
    · rename_i node len hpc
      exact ⟨node, len, hpc, (Option.some.inj h).symm⟩
    · cases h
  | ioctl t cmd arg =>
    simp only [step] at h
    split at h
    · rename_i hpc
      refine ⟨hpc, ?_⟩
      split at h
      · rename_i hcmd
        split at h
        · rename_i node hfind
          exact .inr ⟨node, hcmd, hfind, (Option.some.inj h).symm⟩
        · rename_i hfind
          exact .inl ⟨fun _ => hfind, (Option.some.inj h).symm⟩
      · rename_i hcmd
        exact .inl ⟨fun h => absurd h hcmd, (Option.some.inj h).symm⟩
    · cases h

/-- The list on both sides of the node that a delete takes. -/
theorem delete_split {arg : BitVec 64} {nodes : List Node} {node : Node}
    (h : nodes.find? (Node.hasId arg) = some node) :
    ∃ before after, nodes = before ++ node :: after ∧
      nodes.eraseP (Node.hasId arg) = before ++ after := by
  obtain ⟨hid, before, after, hsplit, hbefore⟩ := List.find?_eq_some_iff_append.mp h
  refine ⟨before, after, hsplit, ?_⟩
  have hskip : ∀ n ∈ before, ¬ Node.hasId arg n := by
    intro n hn
    simpa using hbefore n hn
  rw [hsplit, List.eraseP_append_right _ hskip, List.eraseP_cons_of_pos hid]

/-! ## The list that the calls make -/

/-- The steps of a write come to `myWrite`. -/
theorem myWrite_scanWrite (students : List Student) (kbuf : CharArray bufSize) (env : WriteEnv)
    (buf : List UInt8) :
    myWrite students kbuf env buf =
      match scanWrite kbuf env buf with
      | some student => (buf.length, students ++ [student])
      | none => (0, students) := by
  unfold myWrite scanWrite
  split
  · rfl
  split
  · rfl
  split
  · rfl
  · dsimp only
    generalize vsscanf addFormat _ = scanned
    rcases scanned with _ | ⟨_ | _, _ | ⟨_ | _, _ | _⟩⟩ <;> rfl

theorem deleteFirst_nodes (arg : BitVec 64) (nodes : List Node) :
    deleteFirst arg (nodes.map Node.student)
      = (nodes.find? (Node.hasId arg)).map fun _ =>
          (nodes.eraseP (Node.hasId arg)).map Node.student := by
  induction nodes with
  | nil => rfl
  | cons node nodes ih =>
    by_cases hid : node.student.id.signExtend 64 = arg
    · simp [deleteFirst, Node.hasId, hid]
    · have hnot : Node.hasId arg node = false := by simp [Node.hasId, hid]
      rw [List.map_cons, deleteFirst, if_neg hid, ih, List.find?_cons_of_neg (by simp [hnot]),
        List.eraseP_cons_of_neg (by simp [hnot]), Option.map_map]
      rfl

/-- **The list under the lock** is changed by the add of a write and by an
ioctl, as the sequential functions say. -/
theorem step_students {s s' : State T} {e : Event T} (h : step s e = some s') :
    s'.nodes.map Node.student =
      match e with
      | .add t => (match s.writers t with
        | .parsed node _ => s.nodes.map Node.student ++ [node.student]
        | _ => s.nodes.map Node.student)
      | .ioctl _ cmd arg => (myIoctl (s.nodes.map Node.student) cmd arg).2
      | _ => s.nodes.map Node.student := by
  have hspec := step_spec h
  cases e with
  | write t kbuf env buf =>
    obtain ⟨-, ⟨-, rfl⟩ | ⟨student, -, rfl⟩⟩ := hspec <;> rfl
  | add t =>
    obtain ⟨node, len, hpc, rfl⟩ := hspec
    simp [State.goto, hpc]
  | print t =>
    obtain ⟨node, len, -, rfl⟩ := hspec
    rfl
  | ioctl t cmd arg =>
    obtain ⟨-, ⟨hnone, rfl⟩ | ⟨node, rfl, hfind, rfl⟩⟩ := hspec
    · by_cases hcmd : cmd = deleteNode
      · simp [myIoctl, hcmd, deleteFirst_nodes, hnone hcmd]
      · simp [myIoctl, hcmd]
    · simp [myIoctl, deleteFirst_nodes, hfind]

/-! ## What every run keeps -/

structure Wf (s : State T) : Prop where
  bound : ∀ a ∈ s.live, a < s.fresh
  nodup : s.live.Nodup
  listed : ∀ node ∈ s.nodes, node.addr ∈ s.live
  /-- No node is in the list twice. -/
  distinct : (s.nodes.map Node.addr).Nodup
  /-- A parsed node is live, and not in the list. -/
  parsed : ∀ t node len, s.writers t = .parsed node len →
    node.addr ∈ s.live ∧ node.addr ∉ s.nodes.map Node.addr
  owner : ∀ t t' node node' len len', s.writers t = .parsed node len →
    s.writers t' = .parsed node' len' → node.addr = node'.addr → t = t'

omit [DecidableEq T] in
theorem wf_init : Wf (.init : State T) :=
  ⟨nofun, List.nodup_nil, nofun, List.nodup_nil, nofun, nofun⟩

/-- A process that is not at a parsed node makes no claim. -/
theorem Wf.goto {s : State T} (h : Wf s) (t : T) {pc : WriterPc}
    (hpc : ∀ node len, pc ≠ .parsed node len) : Wf (s.goto t pc) := by
  have hold {u node len} (hu : (s.goto t pc).writers u = .parsed node len) :
      s.writers u = .parsed node len := by
    rw [State.goto_writers, Function.update_apply] at hu
    split at hu
    · exact absurd hu (hpc node len)
    · exact hu
  refine ⟨h.bound, h.nodup, h.listed, h.distinct, ?_, ?_⟩
  · exact fun u node len hu => h.parsed u node len (hold hu)
  · exact fun u u' node node' len len' hu hu' =>
      h.owner u u' node node' len len' (hold hu) (hold hu')

/-- The allocation: the new node is the caller's own. -/
theorem Wf.allocate {s : State T} (h : Wf s) (t : T) (student : Student) (len : Nat) :
    Wf ({ s with live := s.fresh :: s.live, fresh := s.fresh + 1 }.goto t
      (.parsed ⟨s.fresh, student⟩ len)) := by
  have hnew : s.fresh ∉ s.live := fun hmem => Nat.lt_irrefl _ (h.bound _ hmem)
  have hlisted : s.fresh ∉ s.nodes.map Node.addr := by
    intro hmem
    obtain ⟨node, hnode, haddr⟩ := List.mem_map.mp hmem
    exact hnew (haddr ▸ h.listed node hnode)
  -- who is at a parsed node has the new one or had an old one before
  have hcases {u node len'} (hu : Function.update s.writers t
      (.parsed ⟨s.fresh, student⟩ len) u = .parsed node len') :
      u = t ∧ node.addr = s.fresh ∨ u ≠ t ∧ s.writers u = .parsed node len' := by
    rw [Function.update_apply] at hu
    split at hu
    · cases hu
      exact .inl ⟨‹_›, rfl⟩
    · exact .inr ⟨‹_›, hu⟩
  constructor
  case bound =>
    intro a ha
    rcases List.mem_cons.mp ha with rfl | ha
    · exact Nat.lt_succ_self _
    · exact Nat.lt_succ_of_lt (h.bound a ha)
  case nodup => exact List.nodup_cons.mpr ⟨hnew, h.nodup⟩
  case listed => exact fun node hnode => List.mem_cons_of_mem _ (h.listed node hnode)
  case distinct => exact h.distinct
  case parsed =>
    intro u node len' hu
    rcases hcases hu with ⟨-, haddr⟩ | ⟨-, hu⟩
    · rw [haddr]
      exact ⟨List.mem_cons_self, hlisted⟩
    · obtain ⟨hlive, hprivate⟩ := h.parsed u node len' hu
      exact ⟨List.mem_cons_of_mem _ hlive, hprivate⟩
  case owner =>
    intro u u' node node' len₁ len₂ hu hu' haddr
    rcases hcases hu with ⟨rfl, hnode⟩ | ⟨-, hold⟩ <;>
      rcases hcases hu' with ⟨rfl, hnode'⟩ | ⟨-, hold'⟩
    · rfl
    · have hlive := (h.parsed u' node' len₂ hold').1
      rw [← haddr, hnode] at hlive
      exact absurd hlive hnew
    · have hlive := (h.parsed u node len₁ hold).1
      rw [haddr, hnode'] at hlive
      exact absurd hlive hnew
    · exact h.owner u u' node node' len₁ len₂ hold hold' haddr

/-- The add: the list gets a node that it did not have. -/
theorem Wf.add {s : State T} (h : Wf s) {t : T} {node : Node} {len : Nat}
    (hpc : s.writers t = .parsed node len) :
    Wf ({ s with nodes := s.nodes ++ [node] }.goto t (.added node len)) := by
  obtain ⟨hlive, hprivate⟩ := h.parsed t node len hpc
  have hold {u n l} (hu : Function.update s.writers t (.added node len) u = .parsed n l) :
      u ≠ t ∧ s.writers u = .parsed n l := by
    rw [Function.update_apply] at hu
    split at hu
    · cases hu
    · exact ⟨‹_›, hu⟩
  constructor
  case bound => exact h.bound
  case nodup => exact h.nodup
  case listed =>
    intro n hn
    rcases List.mem_append.mp hn with hn | hn
    · exact h.listed n hn
    · rw [List.mem_singleton.mp hn]
      exact hlive
  case distinct =>
    show ((s.nodes ++ [node]).map Node.addr).Nodup
    rw [List.map_append, List.map_singleton]
    exact List.nodup_append'.mpr ⟨h.distinct, List.nodup_singleton _, by simpa using hprivate⟩
  case parsed =>
    intro u n l hu
    obtain ⟨hut, hu⟩ := hold hu
    obtain ⟨hnlive, hnprivate⟩ := h.parsed u n l hu
    refine ⟨hnlive, ?_⟩
    show n.addr ∉ (s.nodes ++ [node]).map Node.addr
    rw [List.map_append, List.mem_append, List.map_singleton, List.mem_singleton, not_or]
    exact ⟨hnprivate, fun haddr => hut (h.owner u t n node l len hu hpc haddr)⟩
  case owner =>
    intro u u' n n' l l' hu hu'
    exact h.owner u u' n n' l l' (hold hu).2 (hold hu').2

omit [DecidableEq T] in
/-- The delete: the node that goes is the only one of its number. -/
theorem Wf.delete {s : State T} (h : Wf s) {arg : BitVec 64} {node : Node}
    (hfind : s.nodes.find? (Node.hasId arg) = some node) :
    Wf { s with
      nodes := s.nodes.eraseP (Node.hasId arg)
      live := s.live.erase node.addr } := by
  obtain ⟨before, after, hsplit, herase⟩ := delete_split hfind
  have hdistinct : (before.map Node.addr ++ node.addr :: after.map Node.addr).Nodup := by
    have := h.distinct
    rwa [hsplit, List.map_append, List.map_cons] at this
  have hrest : (s.nodes.eraseP (Node.hasId arg)).Sublist s.nodes := List.eraseP_sublist
  have hother : node.addr ∉ (s.nodes.eraseP (Node.hasId arg)).map Node.addr := by
    rw [herase, List.map_append]
    exact (List.nodup_middle.mp hdistinct).notMem
  have hstays {a} (ha : a ∈ s.live) (hne : a ≠ node.addr) : a ∈ s.live.erase node.addr :=
    (List.mem_erase_of_ne hne).mpr ha
  constructor
  case bound => exact fun a ha => h.bound a (List.mem_of_mem_erase ha)
  case nodup => exact h.nodup.erase _
  case listed =>
    intro n hn
    refine hstays (h.listed n (hrest.subset hn)) fun haddr => hother ?_
    exact haddr ▸ List.mem_map_of_mem hn
  case distinct => exact h.distinct.sublist (hrest.map _)
  case parsed =>
    intro u n l hu
    obtain ⟨hlive, hprivate⟩ := h.parsed u n l hu
    refine ⟨hstays hlive fun haddr => hprivate ?_, fun hmem => hprivate ?_⟩
    · exact haddr ▸ List.mem_map_of_mem (List.mem_of_find?_eq_some hfind)
    · exact (hrest.map _).subset hmem
  case owner => exact h.owner

theorem Wf.next {s s' : State T} {e : Event T} (h : Wf s) (hs : step s e = some s') : Wf s' := by
  have hspec := step_spec hs
  cases e with
  | write t kbuf env buf =>
    obtain ⟨-, ⟨-, rfl⟩ | ⟨student, -, rfl⟩⟩ := hspec
    · exact h
    · exact h.allocate t student buf.length
  | add t =>
    obtain ⟨node, len, hpc, rfl⟩ := hspec
    exact h.add hpc
  | print t =>
    obtain ⟨node, len, -, rfl⟩ := hspec
    exact h.goto t nofun
  | ioctl t cmd arg =>
    obtain ⟨-, ⟨-, rfl⟩ | ⟨node, -, hfind, rfl⟩⟩ := hspec
    · exact h
    · exact h.delete hfind

/-! ## Runs without such a delete -/

structure Guarded (s : State T) : Prop where
  wf : Wf s
  /-- What is to be printed is live. -/
  printing : ∀ t a, (s.writers t).printing = some a → a ∈ s.live

omit [DecidableEq T] in
theorem Guarded.live {s : State T} (h : Guarded s) (e : Event T) : Live s e := by
  have hlisted : ∀ a ∈ s.nodes.map Node.addr, a ∈ s.live := by
    intro a ha
    obtain ⟨node, hnode, rfl⟩ := List.mem_map.mp ha
    exact h.wf.listed node hnode
  intro a ha
  cases e with
  | write => cases ha
  | add t =>
    cases hpc : s.writers t with
    | parsed node len =>
      simp only [uses, hpc, List.mem_cons, Option.mem_toList] at ha
      rcases ha with rfl | hlast
      · exact (h.wf.parsed t node len hpc).1
      · exact hlisted a (List.mem_of_getLast? hlast)
    | idle | added => simp [uses, hpc] at ha
  | print t => exact h.printing t a (Option.mem_toList.mp ha)
  | ioctl => exact hlisted a ha

theorem Guarded.next {s s' : State T} {e : Event T} (h : Guarded s) (he : Careful s e)
    (hs : step s e = some s') : Guarded s' := by
  refine ⟨h.wf.next hs, ?_⟩
  have hspec := step_spec hs
  cases e with
  | write t kbuf env buf =>
    obtain ⟨-, ⟨-, rfl⟩ | ⟨student, -, rfl⟩⟩ := hspec
    · exact h.printing
    · intro u a hu
      rw [State.goto_writers, Function.update_apply] at hu
      split at hu
      · cases hu
      · exact List.mem_cons_of_mem _ (h.printing u a hu)
  | add t =>
    obtain ⟨node, len, hpc, rfl⟩ := hspec
    intro u a hu
    rw [State.goto_writers, Function.update_apply] at hu
    split at hu
    · cases hu
      exact (h.wf.parsed t node len hpc).1
    · exact h.printing u a hu
  | print t =>
    obtain ⟨node, len, -, rfl⟩ := hspec
    intro u a hu
    rw [State.goto_writers, Function.update_apply] at hu
    split at hu
    · cases hu
    · exact h.printing u a hu
  | ioctl t cmd arg =>
    obtain ⟨-, ⟨-, rfl⟩ | ⟨node, hcmd, hfind, rfl⟩⟩ := hspec
    · exact h.printing
    · intro u a hu
      refine (List.mem_erase_of_ne ?_).mpr (h.printing u a hu)
      rintro rfl
      exact he hcmd node hfind u hu

/-- After a delete of a node that is still to be printed, its print reads
memory that is free. -/
theorem print_of_not_careful {s s' : State T} {e : Event T} (h : Wf s)
    (hs : step s e = some s') (he : ¬ Careful s e) :
    ∃ t, (step s' (.print t)).isSome ∧ ¬ Live s' (.print t) := by
  have hspec := step_spec hs
  cases e with
  | ioctl t cmd arg =>
    obtain ⟨hcmd, node, hfind, u, hu⟩ : cmd = deleteNode ∧ ∃ node,
        s.nodes.find? (Node.hasId arg) = some node ∧
          ∃ u, (s.writers u).printing = some node.addr := by
      simpa [Careful] using he
    obtain ⟨-, ⟨hnone, -⟩ | ⟨node', -, hfind', rfl⟩⟩ := hspec
    · cases (hnone hcmd).symm.trans hfind
    · cases hfind'.symm.trans hfind
      refine ⟨u, ?_, fun hlive => ?_⟩
      · cases hpc : s.writers u <;> simp [WriterPc.printing, hpc, step] at hu ⊢
      · exact h.nodup.not_mem_erase (hlive node.addr (by simp [uses, hu]))
  | write | add | print => exact absurd trivial he

/-- **The node outlives its print** in every run in which no delete takes a
node that a write has yet to print; and any run up to such a delete can go on
to a print of memory that is free. -/
theorem nodes_live {es : List (Event T)} {s : State T} (h : (driver T).Reaches es s) :
    ((driver T).Along Careful .init es → (driver T).Along Live .init es) ∧
      ∀ e s', step s e = some s' → ¬ Careful s e →
        ∃ t, (step s' (.print t)).isSome ∧ ¬ Live s' (.print t) := by
  have hwf : Wf s := Machine.Reachable.inv wf_init (fun _ _ _ => Wf.next) ⟨es, h⟩
  refine ⟨fun hcareful => ?_, fun _ _ => print_of_not_careful hwf⟩
  have hinit : Guarded (.init : State T) := ⟨wf_init, nofun⟩
  exact Machine.along_of_inv (fun _ e _ hguarded _ _ => hguarded.live e)
    (fun _ _ _ => Guarded.next) hinit hcareful h

/-- One process writes the student 1 up to its print. -/
def addOne : List (Event Bool) :=
  [.write true (CharArray.zero bufSize) ⟨false, true⟩ (addText 1 (.lit "Asha")), .add true]

theorem nodes_live_run :
    ((driver Bool).exec .init (addOne ++ [.print true, .ioctl false deleteNode 1])).isSome := by
  decide +kernel

theorem nodes_live_printed :
    (driver Bool).Along Live .init (addOne ++ [.print true, .ioctl false deleteNode 1]) :=
  (nodes_live (Option.some_get nodes_live_run).symm).1 (by decide +kernel)

theorem print_after_delete_run :
    ((driver Bool).exec .init (addOne ++ [.ioctl false deleteNode 1, .print true])).isSome := by
  decide +kernel

theorem print_after_delete :
    ¬ ∀ es s, (driver Bool).Reaches es s → (driver Bool).Along Live .init es := by
  intro h
  have hlive := h _ _ (Option.some_get print_after_delete_run).symm
  revert hlive
  decide +kernel

end KernelSpace.LinkedList.Lifetime
