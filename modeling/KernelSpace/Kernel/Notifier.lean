import Mathlib.Data.List.Perm.Basic
import KernelSpace.Kernel.Errno

/-!
# A notifier chain

`notifier_chain_register` and `notifier_chain_unregister`: the blocks of a
chain in the order in which they are called. A new block goes in front of the
first one of a lower priority, so behind those of its own; a block that is
there already is refused.
-/

namespace KernelSpace.Kernel.Notifier

variable {B : Type*} [DecidableEq B] (priority : B → Int)

def register (b : B) : List B → Except Int (List B)
  | [] => .ok [b]
  | c :: cs =>
    if c = b then .error (-EEXIST)
    else if priority c < priority b then .ok (b :: c :: cs)
    else (register b cs).map (c :: ·)

def unregister (b : B) : List B → Except Int (List B)
  | [] => .error (-ENOENT)
  | c :: cs => if c = b then .ok cs else (unregister b cs).map (c :: ·)

/-- Higher priorities come first. -/
def Ordered (chain : List B) : Prop := chain.Pairwise fun b c => priority c ≤ priority b

variable {b : B} {chain : List B}

/-- A block that is not there goes in, behind those of its own priority. -/
theorem register_ok (h : b ∉ chain) :
    ∃ hi lo, chain = hi ++ lo ∧ register priority b chain = .ok (hi ++ b :: lo) ∧
      (∀ c ∈ hi, priority b ≤ priority c) ∧ ∀ c ∈ lo.head?, priority c < priority b := by
  induction chain with
  | nil => exact ⟨[], [], rfl, rfl, by simp, by simp⟩
  | cons c cs ih =>
    have hne : c ≠ b := fun heq => h (heq ▸ List.mem_cons_self)
    by_cases hlt : priority c < priority b
    · exact ⟨[], c :: cs, rfl, by simp [register, hne, hlt], by simp, by simpa using hlt⟩
    · obtain ⟨hi, lo, rfl, hok, hhi, hlo⟩ := ih fun hmem => h (List.mem_cons_of_mem c hmem)
      refine ⟨c :: hi, lo, rfl, by simp [register, hne, hlt, hok, Except.map], ?_, hlo⟩
      simpa using ⟨Int.not_lt.mp hlt, hhi⟩

variable {priority}

omit [DecidableEq B] in
theorem Ordered.insert {hi lo : List B} (h : Ordered priority (hi ++ lo))
    (hhi : ∀ c ∈ hi, priority b ≤ priority c)
    (hlo : ∀ c ∈ lo.head?, priority c < priority b) : Ordered priority (hi ++ b :: lo) := by
  obtain ⟨hl, hr, hcross⟩ := List.pairwise_append.mp h
  have hbelow : ∀ c ∈ lo, priority c ≤ priority b := by
    cases lo with
    | nil => simp
    | cons d ds =>
      have hd : priority d < priority b := hlo d rfl
      have htail := (List.pairwise_cons.mp hr).1
      intro c hc
      rcases List.mem_cons.mp hc with rfl | hc
      · omega
      · have hle := htail c hc
        omega
  refine List.pairwise_append.mpr ⟨hl, List.pairwise_cons.mpr ⟨hbelow, hr⟩, ?_⟩
  intro c hc d hd
  rcases List.mem_cons.mp hd with rfl | hd
  · exact hhi c hc
  · exact hcross c hc d hd

theorem register_spec (h : Ordered priority chain) (hb : b ∉ chain) :
    ∃ chain', register priority b chain = .ok chain' ∧ Ordered priority chain' ∧
      chain'.Perm (b :: chain) := by
  obtain ⟨hi, lo, rfl, hok, hhi, hlo⟩ := register_ok priority hb
  exact ⟨_, hok, h.insert hhi hlo, List.perm_middle⟩

theorem unregister_eq (h : b ∈ chain) : unregister b chain = .ok (chain.erase b) := by
  induction chain with
  | nil => simp at h
  | cons c cs ih =>
    by_cases hc : c = b
    · simp [unregister, hc]
    · have hmem : b ∈ cs := (List.mem_cons.mp h).resolve_left (Ne.symm hc)
      simp [unregister, hc, ih hmem, Except.map]

theorem Ordered.erase (h : Ordered priority chain) : Ordered priority (chain.erase b) :=
  h.sublist List.erase_sublist

end KernelSpace.Kernel.Notifier
