import Mathlib.Data.Finset.Erase
import Mathlib.Data.Finset.Insert
import Mathlib.Data.List.Chain
import Mathlib.Data.List.Nodup
import Mathlib.Logic.Function.Basic

/-!
# DoublyLinked — circular lists of pointers

A memory of nodes with a pointer to the next and to the previous one. A pointer
is `none` where it leads nowhere; an access through it, or to a node that is
not live, is bad and has no result.

A ring is a head with the nodes of a list behind it, each linked to its
neighbours both ways, and the last one to the head. The operations on the
pointers are those on the list:

* `IsRing.addTail`, `IsRing.del` — adding at the end and taking one out;
* `IsRing.alloc`, `IsRing.free` — what happens beside the ring;
* `forEach_rule`, `forEachSafe_rule` — the loops over it, where the second one
  may take out and free the node that it is at.

A loop goes on as long as the pointers have it, so it has fuel; the rules say
that it ends.
-/

namespace KernelSpace.Lib.DoublyLinked

universe u

structure Memory (A : Type u) where
  live : Finset A
  next : A → Option A
  prev : A → Option A

namespace Memory

variable {A : Type u} [DecidableEq A]

/-! ## Accesses -/

/-- The node that a pointer leads to. -/
def deref (m : Memory A) : Option A → Option A
  | some a => if a ∈ m.live then some a else none
  | none => none

def getNext (m : Memory A) (p : Option A) : Option (Option A) := (m.deref p).map m.next

def getPrev (m : Memory A) (p : Option A) : Option (Option A) := (m.deref p).map m.prev

def setNext (m : Memory A) (p q : Option A) : Option (Memory A) :=
  (m.deref p).map fun a => { m with next := Function.update m.next a q }

def setPrev (m : Memory A) (p q : Option A) : Option (Memory A) :=
  (m.deref p).map fun a => { m with prev := Function.update m.prev a q }

/-- A head alone. -/
def init (head : A) : Memory A :=
  ⟨{head}, fun a => if a = head then some head else none,
    fun a => if a = head then some head else none⟩

/-- A node with pointers to nowhere. -/
def alloc (m : Memory A) (a : A) : Memory A :=
  ⟨insert a m.live, Function.update m.next a none, Function.update m.prev a none⟩

def free (m : Memory A) (a : A) : Option (Memory A) :=
  (m.deref a).map fun a => { m with live := m.live.erase a }

/-! ## Operations -/

/-- `new` between two neighbours. -/
def add (m : Memory A) (new prev next : Option A) : Option (Memory A) := do
  let m ← m.setPrev next new
  let m ← m.setNext new next
  let m ← m.setPrev new prev
  m.setNext prev new

def addTail (m : Memory A) (new head : A) : Option (Memory A) := do
  let last ← m.getPrev head
  m.add new last head

/-- The neighbours of `entry` linked to each other, and its own pointers poisoned. -/
def del (m : Memory A) (entry : A) : Option (Memory A) := do
  let prev ← m.getPrev entry
  let next ← m.getNext entry
  let m ← m.setPrev next prev
  let m ← m.setNext prev next
  let m ← m.setNext entry none
  m.setPrev entry none

/-! ## Loops -/

/-- From `pos` on; the body says whether to break. -/
def forEachFrom {β : Type u} (m : Memory A) (head : A) (body : A → β → Option (β × Bool)) :
    Nat → Option A → β → Option β
  | 0, _, _ => none
  | fuel + 1, pos, b =>
    if pos = some head then some b
    else do
      let a ← m.deref pos
      let (b, stop) ← body a b
      if stop then some b
      else
        let pos ← m.getNext pos
        forEachFrom m head body fuel pos b

def forEach {β : Type u} (m : Memory A) (head : A) (body : A → β → Option (β × Bool)) (fuel : Nat)
    (b : β) : Option β := do
  let pos ← m.getNext head
  m.forEachFrom head body fuel pos b

/-- From `pos` on, with the position behind it read before the body runs. The body
may change the memory, and ends the loop where it has a result. -/
def forEachSafeFrom {σ β : Type u} (mem : σ → Memory A) (head : A)
    (body : A → σ → Option (σ × Option β)) : Nat → Option A → Option A → σ → Option (σ × Option β)
  | 0, _, _, _ => none
  | fuel + 1, pos, ahead, s =>
    if pos = some head then some (s, none)
    else do
      let a ← (mem s).deref pos
      let (s, result) ← body a s
      if result.isSome then some (s, result)
      else
        let further ← (mem s).getNext ahead
        forEachSafeFrom mem head body fuel ahead further s

def forEachSafe {σ β : Type u} (mem : σ → Memory A) (head : A)
    (body : A → σ → Option (σ × Option β)) (fuel : Nat) (s : σ) : Option (σ × Option β) := do
  let pos ← (mem s).getNext head
  let ahead ← (mem s).getNext pos
  forEachSafeFrom mem head body fuel pos ahead s

/-! ## Rings -/

/-- Neighbours. -/
def Linked (m : Memory A) (a b : A) : Prop := m.next a = some b ∧ m.prev b = some a

structure IsRing (m : Memory A) (head : A) (l : List A) : Prop where
  linked : (head :: l ++ [head]).IsChain m.Linked
  nodup : (head :: l).Nodup
  live : ∀ a ∈ head :: l, a ∈ m.live

variable {m m' : Memory A} {head a b : A} {l before after : List A}

theorem deref_some (ha : a ∈ m.live) : m.deref (some a) = some a := if_pos ha

theorem getNext_some (ha : a ∈ m.live) : m.getNext (some a) = some (m.next a) := by
  rw [getNext, deref_some ha, Option.map_some]

theorem getPrev_some (ha : a ∈ m.live) : m.getPrev (some a) = some (m.prev a) := by
  rw [getPrev, deref_some ha, Option.map_some]

theorem setNext_some (ha : a ∈ m.live) (q : Option A) :
    m.setNext (some a) q = some { m with next := Function.update m.next a q } := by
  rw [setNext, deref_some ha, Option.map_some]

theorem setPrev_some (ha : a ∈ m.live) (q : Option A) :
    m.setPrev (some a) q = some { m with prev := Function.update m.prev a q } := by
  rw [setPrev, deref_some ha, Option.map_some]

/-- A chain does not see the `next` of its last node and of the nodes outside. -/
theorem chain_next (h : l.IsChain m.Linked) (ha : a ∉ l.dropLast) (q : Option A) :
    l.IsChain { m with next := Function.update m.next a q }.Linked := by
  induction l with
  | nil => exact .nil
  | cons b l ih =>
    cases l with
    | nil => exact .singleton b
    | cons c l =>
      obtain ⟨⟨hbc, hcb⟩, hrest⟩ := List.isChain_cons_cons.mp h
      obtain ⟨hne, ha⟩ := not_or.mp (List.mem_cons.not.mp ha)
      refine List.isChain_cons_cons.mpr ⟨⟨?_, hcb⟩, ih hrest ha⟩
      exact (Function.update_of_ne (Ne.symm hne) ..).trans hbc

/-- Nor the `prev` of its first node and of the nodes outside. -/
theorem chain_prev (h : l.IsChain m.Linked) (ha : a ∉ l.tail) (q : Option A) :
    l.IsChain { m with prev := Function.update m.prev a q }.Linked := by
  induction l with
  | nil => exact .nil
  | cons b l ih =>
    cases l with
    | nil => exact .singleton b
    | cons c l =>
      obtain ⟨⟨hbc, hcb⟩, hrest⟩ := List.isChain_cons_cons.mp h
      obtain ⟨hne, ha⟩ := not_or.mp (List.mem_cons.not.mp ha)
      refine List.isChain_cons_cons.mpr ⟨⟨hbc, ?_⟩, ih hrest ha⟩
      exact (Function.update_of_ne (Ne.symm hne) ..).trans hcb

/-- A chain does not see two writes of `next` and two of `prev` that miss it. -/
theorem chain_writes (h : l.IsChain m.Linked) {a b c d : A} (ha : a ∉ l.dropLast)
    (hb : b ∉ l.dropLast) (hc : c ∉ l.tail) (hd : d ∉ l.tail) (p q r t : Option A) :
    l.IsChain (Memory.Linked ⟨m.live, Function.update (Function.update m.next a p) b q,
      Function.update (Function.update m.prev c r) d t⟩) :=
  chain_prev (chain_prev (chain_next (chain_next h ha p) hb q) hc r) hd t

theorem isRing_init (head : A) : (init head).IsRing head [] := by
  refine ⟨List.isChain_cons_cons.mpr ⟨⟨if_pos rfl, if_pos rfl⟩, .singleton head⟩,
    List.nodup_singleton head, fun a ha => ?_⟩
  exact Finset.mem_singleton.mpr (List.mem_singleton.mp ha)

/-- An allocation is beside the ring. -/
theorem IsRing.alloc (h : m.IsRing head l) (ha : a ∉ m.live) : (m.alloc a).IsRing head l := by
  have hout : a ∉ head :: l := fun hmem => ha (h.live a hmem)
  have hnext : a ∉ (head :: l ++ [head]).dropLast := by rwa [List.dropLast_concat]
  have hprev : a ∉ (head :: l ++ [head]).tail := by
    simpa [or_comm] using hout
  refine ⟨chain_prev (chain_next h.linked hnext none) hprev none, h.nodup, fun b hb => ?_⟩
  exact Finset.mem_insert_of_mem (h.live b hb)

theorem IsRing.free (h : m.IsRing head l) (hlive : a ∈ m.live) (ha : a ∉ head :: l) :
    m.free a = some { m with live := m.live.erase a } ∧
      IsRing { m with live := m.live.erase a } head l := by
  refine ⟨by rw [Memory.free, deref_some hlive, Option.map_some], ?_⟩
  refine ⟨h.linked, h.nodup, fun b hb => ?_⟩
  exact Finset.mem_erase.mpr ⟨fun hba => ha (hba ▸ hb), h.live b hb⟩

omit [DecidableEq A] in
/-- The list with the head before it, taken apart at its last node. -/
theorem exists_last (head : A) (l : List A) : ∃ front last, head :: l = front ++ [last] :=
  ⟨_, _, (List.dropLast_concat_getLast (List.cons_ne_nil head l)).symm⟩

omit [DecidableEq A] in
/-- The list with the head behind it, taken apart at its first node. -/
theorem exists_first (head : A) (l : List A) :
    ∃ rest, l ++ [head] = l.headD head :: rest := by
  cases l with
  | nil => exact ⟨[], rfl⟩
  | cons a l => exact ⟨l ++ [head], rfl⟩

omit [DecidableEq A] in
theorem IsRing.next_head (h : m.IsRing head l) : m.next head = some (l.headD head) := by
  obtain ⟨rest, hrest⟩ := exists_first head l
  have hlinked := h.linked
  rw [List.cons_append, hrest] at hlinked
  exact (List.isChain_cons_cons.mp hlinked).1.1

omit [DecidableEq A] in
theorem IsRing.next (h : m.IsRing head (before ++ a :: after)) :
    m.next a = some (after.headD head) := by
  obtain ⟨rest, hrest⟩ := exists_first head after
  have hlinked := h.linked
  rw [show head :: (before ++ a :: after) ++ [head]
    = (head :: before) ++ a :: (after ++ [head]) by simp, hrest] at hlinked
  exact (List.isChain_append_cons_cons.mp hlinked).2.1.1

theorem IsRing.getNext_head (h : m.IsRing head l) :
    m.getNext head = some (some (l.headD head)) := by
  rw [getNext_some (h.live head List.mem_cons_self), h.next_head]

/-- What stands behind a position in the ring is read without a fault. -/
theorem IsRing.getNext_headD (h : m.IsRing head (before ++ l)) :
    ∃ p, m.getNext (some (l.headD head)) = some (some p) ∧
      ∀ a after, l = a :: after → p = after.headD head := by
  cases l with
  | nil => exact ⟨_, h.getNext_head, nofun⟩
  | cons a after =>
    have hlive : a ∈ m.live := h.live a (by simp)
    refine ⟨after.headD head, ?_, ?_⟩
    · show m.getNext (some a) = _
      rw [getNext_some hlive, h.next]
    · intro _ _ hl
      cases hl
      rfl

/-! ## The operations on a ring -/

theorem IsRing.addTail (h : m.IsRing head l) (hlive : a ∈ m.live) (ha : a ∉ head :: l) :
    ∃ m', m.addTail a head = some m' ∧ m'.live = m.live ∧ m'.IsRing head (l ++ [a]) := by
  obtain ⟨front, last, hlast⟩ := exists_last head l
  have hlinked : (front ++ last :: [head]).IsChain m.Linked := by
    have hshape : head :: l ++ [head] = front ++ last :: [head] := by
      rw [hlast, List.append_assoc, List.singleton_append]
    exact hshape ▸ h.linked
  obtain ⟨hfront, hprev, -⟩ := List.isChain_append_cons_cons.mp hlinked
  have hmem : last ∈ head :: l := by simp [hlast]
  have hlastlive := h.live last hmem
  have hheadlive := h.live head List.mem_cons_self
  have hnelast : last ≠ a := fun hla => ha (hla ▸ hmem)
  have hnehead : head ≠ a := fun hha => ha (hha ▸ List.mem_cons_self)
  have hnodup := h.nodup
  have hdrop : last ∉ (head :: l).dropLast ∧ a ∉ (head :: l).dropLast := by
    rw [hlast] at hnodup ha ⊢
    rw [List.dropLast_concat]
    grind
  have htail : head ∉ l ∧ a ∉ l := by grind
  refine ⟨⟨m.live, Function.update (Function.update m.next a (some head)) last (some a),
    Function.update (Function.update m.prev head (some a)) a (some last)⟩, ?_, rfl, ?_, ?_, ?_⟩
  · simp only [Memory.addTail, add, getPrev_some hheadlive, hprev.2, setPrev_some, setNext_some,
      hheadlive, hlastlive, hlive, Option.bind_eq_bind, Option.bind_some]
  · -- the old chain up to the last node, and the two new links
    have hshape : head :: (l ++ [a]) ++ [head] = front ++ last :: a :: [head] := by
      rw [← List.cons_append, hlast, List.append_assoc, List.append_assoc]
      rfl
    rw [hshape]
    refine List.isChain_append_cons_cons.mpr ⟨?_, ⟨?_, ?_⟩,
      List.isChain_cons_cons.mpr ⟨⟨?_, ?_⟩, .singleton head⟩⟩
    · rw [← hlast] at hfront ⊢
      exact chain_writes hfront hdrop.2 hdrop.1 htail.1 htail.2 ..
    · exact Function.update_self ..
    · exact Function.update_self ..
    · exact (Function.update_of_ne hnelast.symm ..).trans (Function.update_self ..)
    · exact (Function.update_of_ne hnehead ..).trans (Function.update_self ..)
  · rw [← List.cons_append]
    exact List.nodup_append'.mpr ⟨h.nodup, List.nodup_singleton a,
      List.disjoint_singleton.mpr ha⟩
  · intro b hb
    rw [← List.cons_append, List.mem_append, List.mem_singleton] at hb
    rcases hb with hb | rfl
    · exact h.live b hb
    · exact hlive

theorem IsRing.del (h : m.IsRing head (before ++ a :: after)) :
    ∃ m', m.del a = some m' ∧ m'.live = m.live ∧ m'.IsRing head (before ++ after) := by
  obtain ⟨front, last, hlast⟩ := exists_last head before
  obtain ⟨first, rest, hrest⟩ : ∃ first rest, after ++ [head] = first :: rest :=
    ⟨_, exists_first head after⟩
  have hlinked : (front ++ last :: a :: first :: rest).IsChain m.Linked := by
    have hshape : head :: (before ++ a :: after) ++ [head]
        = front ++ last :: a :: first :: rest := by
      rw [List.cons_append, List.append_assoc, List.cons_append, hrest, ← List.cons_append, hlast,
        List.append_assoc]
      rfl
    exact hshape ▸ h.linked
  obtain ⟨hfront, hprev, hback⟩ := List.isChain_append_cons_cons.mp hlinked
  obtain ⟨hnext, hback⟩ := List.isChain_cons_cons.mp hback
  have hnodup : (head :: before ++ a :: after).Nodup := h.nodup
  obtain ⟨ha, hstay⟩ := List.nodup_cons.mp (List.nodup_middle.mp hnodup)
  have hlive : ∀ b ∈ head :: before ++ after, b ∈ m.live := fun b hb => h.live b (by grind)
  have halive : a ∈ m.live := h.live a (by simp)
  have hlast' : last ∈ head :: before ++ after := by simp [hlast]
  have hfirst' : first ∈ head :: before ++ after := by
    have : first ∈ after ++ [head] := by simp [hrest]
    grind
  have hnelast : last ≠ a := fun hla => ha (hla ▸ hlast')
  have hnefirst : first ≠ a := fun hfa => ha (hfa ▸ hfirst')
  -- the chain before the node, and the chain behind it
  have hdrop : last ∉ (head :: before).dropLast ∧ a ∉ (head :: before).dropLast := by
    rw [hlast] at hstay ha ⊢
    rw [List.dropLast_concat]
    grind
  have htail : first ∉ before ∧ a ∉ before := by
    cases after <;> grind
  have hdrop' : last ∉ (first :: rest).dropLast ∧ a ∉ (first :: rest).dropLast := by
    rw [← hrest, List.dropLast_concat]
    grind
  have htail' : first ∉ rest ∧ a ∉ rest := by
    cases after <;> grind
  refine ⟨⟨m.live, Function.update (Function.update m.next last (some first)) a none,
    Function.update (Function.update m.prev first (some last)) a none⟩, ?_, rfl, ?_, hstay, hlive⟩
  · simp only [Memory.del, getPrev_some, getNext_some, hprev.2, hnext.1, setPrev_some, setNext_some,
      hlive last hlast', hlive first hfirst', halive, Option.bind_eq_bind, Option.bind_some]
  · -- the chains before and behind the node, and the link over it
    have hshape : head :: (before ++ after) ++ [head] = front ++ last :: first :: rest := by
      rw [List.cons_append, List.append_assoc, hrest, ← List.cons_append, hlast, List.append_assoc]
      rfl
    rw [hshape]
    refine List.isChain_append_cons_cons.mpr ⟨?_, ⟨?_, ?_⟩, ?_⟩
    · rw [← hlast] at hfront ⊢
      exact chain_writes hfront hdrop.1 hdrop.2 htail.1 htail.2 ..
    · exact (Function.update_of_ne hnelast ..).trans (Function.update_self ..)
    · exact (Function.update_of_ne hnefirst ..).trans (Function.update_self ..)
    · exact chain_writes hback hdrop'.1 hdrop'.2 htail'.1 htail'.2 ..

/-! ## The loops over a ring -/

section Loops

variable {σ β : Type u} {fuel : Nat}

theorem IsRing.forEachFrom_rule {body : A → β → Option (β × Bool)} {I : List A → β → Prop}
    {Q : β → Prop} (hend : ∀ b, I [] b → Q b)
    (hbody : ∀ a l b, I (a :: l) b →
      ∃ b' stop, body a b = some (b', stop) ∧ if stop then Q b' else I l b')
    (h : m.IsRing head (before ++ l)) (hfuel : l.length < fuel) {b : β} (hI : I l b) :
    ∃ b', m.forEachFrom head body fuel (some (l.headD head)) b = some b' ∧ Q b' := by
  induction l generalizing before fuel b with
  | nil =>
    obtain ⟨fuel, rfl⟩ := Nat.exists_eq_add_one.mpr hfuel
    exact ⟨b, if_pos rfl, hend b hI⟩
  | cons a l ih =>
    obtain ⟨fuel, rfl⟩ := Nat.exists_eq_add_one.mpr (Nat.zero_lt_of_lt hfuel)
    have hne : some a ≠ some head := by
      have := h.nodup
      grind
    have hlive : a ∈ m.live := h.live a (by simp)
    obtain ⟨b', stop, hrun, hnext⟩ := hbody a l b hI
    rw [List.headD_cons, forEachFrom, if_neg hne]
    simp only [deref_some hlive, hrun, getNext_some hlive, h.next, Option.bind_eq_bind,
      Option.bind_some]
    cases stop with
    | true => exact ⟨b', rfl, hnext⟩
    | false =>
      rw [List.append_cons] at h
      exact ih h (Nat.lt_of_succ_lt_succ hfuel) hnext

/-- **The loop**: what holds of the nodes to come when it enters is kept by its body
until there are none, or up to the break. -/
theorem IsRing.forEach_rule {body : A → β → Option (β × Bool)} {I : List A → β → Prop}
    {Q : β → Prop} (hend : ∀ b, I [] b → Q b)
    (hbody : ∀ a l b, I (a :: l) b →
      ∃ b' stop, body a b = some (b', stop) ∧ if stop then Q b' else I l b')
    (h : m.IsRing head l) (hfuel : l.length < fuel) {b : β} (hI : I l b) :
    ∃ b', m.forEach head body fuel b = some b' ∧ Q b' := by
  have h' : m.IsRing head ([] ++ l) := h
  rw [forEach, h.getNext_head]
  exact h'.forEachFrom_rule hend hbody hfuel hI

theorem forEachSafeFrom_rule {mem : σ → Memory A} {body : A → σ → Option (σ × Option β)}
    {I : List A → σ → Prop} {Q : σ → Option β → Prop}
    (hring : ∀ l s, I l s → ∃ before, (mem s).IsRing head (before ++ l))
    (hend : ∀ s, I [] s → Q s none)
    (hbody : ∀ a l s, I (a :: l) s → ∃ s' result, body a s = some (s', result) ∧
      if result.isSome then Q s' result else I l s')
    (hfuel : l.length < fuel) {s : σ} (hI : I l s) {ahead : A}
    (hahead : ∀ a after, l = a :: after → ahead = after.headD head) :
    ∃ s' result, forEachSafeFrom mem head body fuel (some (l.headD head)) (some ahead) s
      = some (s', result) ∧ Q s' result := by
  induction l generalizing fuel s ahead with
  | nil =>
    obtain ⟨fuel, rfl⟩ := Nat.exists_eq_add_one.mpr hfuel
    exact ⟨s, none, if_pos rfl, hend s hI⟩
  | cons a l ih =>
    obtain ⟨fuel, rfl⟩ := Nat.exists_eq_add_one.mpr (Nat.zero_lt_of_lt hfuel)
    obtain ⟨before, h⟩ := hring _ _ hI
    have hne : some a ≠ some head := by
      have := h.nodup
      grind
    have hlive : a ∈ (mem s).live := h.live a (by simp)
    obtain ⟨s', result, hrun, hnext⟩ := hbody a l s hI
    obtain rfl := hahead a l rfl
    rw [List.headD_cons, forEachSafeFrom, if_neg hne]
    simp only [deref_some hlive, hrun, Option.bind_eq_bind, Option.bind_some]
    cases result with
    | some b => exact ⟨s', some b, rfl, hnext⟩
    | none =>
      -- the body has left a ring with the nodes to come, so the read ahead is good
      obtain ⟨before', h'⟩ := hring l s' hnext
      obtain ⟨further, hread, hfurther⟩ := h'.getNext_headD
      simp only [Option.isSome_none, Bool.false_eq_true, if_false, hread, Option.bind_some]
      exact ih (Nat.lt_of_succ_lt_succ hfuel) hnext hfurther

/-- **The loop that may delete**: the body has to leave a ring with the nodes to
come in it. -/
theorem forEachSafe_rule {mem : σ → Memory A} {body : A → σ → Option (σ × Option β)}
    {I : List A → σ → Prop} {Q : σ → Option β → Prop}
    (hring : ∀ l s, I l s → ∃ before, (mem s).IsRing head (before ++ l))
    (hend : ∀ s, I [] s → Q s none)
    (hbody : ∀ a l s, I (a :: l) s → ∃ s' result, body a s = some (s', result) ∧
      if result.isSome then Q s' result else I l s')
    {s : σ} (h : (mem s).IsRing head l) (hfuel : l.length < fuel) (hI : I l s) :
    ∃ s' result, forEachSafe mem head body fuel s = some (s', result) ∧ Q s' result := by
  have h' : (mem s).IsRing head ([] ++ l) := h
  obtain ⟨ahead, hread, hahead⟩ := h'.getNext_headD
  simp only [forEachSafe, h.getNext_head, hread, Option.bind_eq_bind, Option.bind_some]
  exact forEachSafeFrom_rule hring hend hbody hfuel hI hahead

end Loops

end Memory

end KernelSpace.Lib.DoublyLinked
