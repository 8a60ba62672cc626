import KernelSpace.Kernel.Errno
import KernelSpace.Kernel.Printf
import KernelSpace.Lib.Machine
import KernelSpace.Lib.Paging

/-!
# Mmap — the zero-copy driver (22)

`22.mmap__Zero_Copy_Driver/mmap_kernelspace.c`: one page of memory that any
number of processes map and store to. `my_mmap` prints a greeting with the
addresses of the page into the page, then checks the size and the offset, then
maps the page with `remap_pfn_range`.

The greeting comes before the checks, so a request that is refused overwrites
what the processes have stored. Only a page that has the greeting already, or
that nobody has mapped, is left as it was.

Mappings are shared ones; the page itself is there as long as the module is.
-/

namespace KernelSpace.Mmap

open KernelSpace.Kernel KernelSpace.Lib

/-- `PAGE_SIZE`. -/
def pageSize : Nat := 4096

/-- The module as loaded: `page` and its frame, and the rest of the memory. -/
structure Module where
  page : BitVec 64
  pfn : BitVec 64
  pfn_lt : pfn.toNat < 0x10000000000000
  memory : BitVec 64 → CharArray pageSize

/-- The fields of `struct vm_area_struct` that the driver reads. -/
structure Vma where
  vmStart : BitVec 64
  vmEnd : BitVec 64
  vmPgoff : BitVec 64

def Vma.size (vma : Vma) : BitVec 64 := vma.vmEnd - vma.vmStart

def pageNumber (addr : BitVec 64) : BitVec 64 := addr >>> 12

def pageOffset (addr : BitVec 64) : Nat := addr.toNat % pageSize

/-- Physical frames as the processes `P` see them. -/
abbrev State (P : Type*) := Paging P (BitVec 64) (BitVec 64) (CharArray pageSize)

section

variable (mod : Module)

/-- `virt_to_phys(page)`. -/
def Module.phys : BitVec 64 := mod.pfn <<< 12

/-- What `sprintf` prints into the page. -/
def Module.greeting : List UInt8 :=
  (CString.lit "Hello from Kernel and Kernal Virtual - 0x").chars ++ formatPx mod.page
    ++ (CString.lit " and Physical Address - 0x").chars ++ formatPa mod.phys
    ++ (CString.lit "\n").chars

variable {P : Type*}

/-- `sprintf(page, ...)`. -/
def greet (s : State P) : State P :=
  s.write mod.pfn ((s.frame mod.pfn).store 0 (mod.greeting ++ [0]))

variable [DecidableEq P]

/-- `remap_pfn_range` that succeeds: the pages that `size` bytes from `addr` on
need get the frames from `pfn` on. -/
def remapPfnRange (s : State P) (p : P) (addr pfn size : BitVec 64) : State P :=
  s.setTable p fun v =>
    let i := v - pageNumber addr
    if i < (size + 4095) >>> 12 then some (pfn + i) else s.table p v

/-- `remapped` is whether `remap_pfn_range` succeeds. -/
def myMmap (s : State P) (p : P) (vma : Vma) (remapped : Bool) : Int × State P :=
  let s := greet mod s
  let size := vma.size
  if size > 4096 then (-EINVAL, s)
  else if vma.vmPgoff ≠ 0 then (-EINVAL, s)
  else if remapped = false then (-EAGAIN, s)
  else (0, remapPfnRange s p vma.vmStart (mod.phys >>> 12) size)

inductive Event (P : Type*) where
  | mmap (p : P) (vma : Vma) (remapped : Bool)
  | store (p : P) (addr : BitVec 64) (byte : UInt8)
  | munmap (p : P) (first count : BitVec 64)

def step (s : State P) : Event P → Option (State P)
  | .mmap p vma remapped => some (myMmap mod s p vma remapped).2
  | .store p addr byte =>
    -- without a mapping the process faults
    (s.table p (pageNumber addr)).map fun f =>
      s.write f ((s.frame f).store (pageOffset addr) [byte])
  | .munmap p first count =>
    some (s.setTable p fun v => if v - first < count then none else s.table p v)

/-- The module as loaded, with a zeroed page. -/
def driver (P : Type*) [DecidableEq P] : Machine (State P) (Event P) where
  init := ⟨Function.update mod.memory mod.pfn (.zero pageSize), fun _ _ => none⟩
  step := step mod

/-! ## What a call should do -/

/-- A refused request changes no byte that a process sees; a request that
succeeds leaves no mapping of another frame. -/
def Sound (s : State P) : Event P → Prop
  | .mmap p vma remapped =>
    let (ret, s') := myMmap mod s p vma remapped
    (ret ≠ 0 → ∀ q v, s'.view q v = s.view q v) ∧
      (ret = 0 → ∀ q v f, s'.table q v = some f → f = mod.pfn)
  | _ => True

/-- The request passes the checks and is mapped. -/
def Accepted (vma : Vma) (remapped : Bool) : Prop :=
  vma.size ≤ 4096 ∧ vma.vmPgoff = 0 ∧ remapped = true

instance (vma : Vma) (remapped : Bool) : Decidable (Accepted vma remapped) :=
  inferInstanceAs (Decidable (_ ∧ _))

omit [DecidableEq P] in
/-- The page starts with the greeting. -/
def Greeted (s : State P) : Prop :=
  (s.frame mod.pfn).bytes.take (mod.greeting ++ [0]).length = mod.greeting ++ [0]

/-- Only a page that has the greeting, or that nobody sees, meets a request
that is refused. -/
def Spared (s : State P) : Event P → Prop
  | .mmap _ vma remapped => Accepted vma remapped ∨ Greeted mod s ∨ s.Unmapped
  | _ => True

variable {mod} {s s' : State P} {p : P} {vma : Vma} {remapped : Bool}

/-- The greeting fits into the page. -/
theorem length_greeting (mod : Module) : (mod.greeting ++ [0]).length ≤ pageSize := by
  simp [Module.greeting, formatPa, length_formatPx]
  decide

theorem pfn_phys (mod : Module) : mod.phys >>> 12 = mod.pfn := by
  have hlt := mod.pfn_lt
  apply BitVec.eq_of_toNat_eq
  rw [Module.phys, BitVec.toNat_ushiftRight, BitVec.toNat_shiftLeft, Nat.shiftLeft_eq,
    Nat.shiftRight_eq_div_pow]
  omega

theorem myMmap_refused (h : ¬ Accepted vma remapped) :
    (myMmap mod s p vma remapped).1 ≠ 0 ∧ (myMmap mod s p vma remapped).2 = greet mod s := by
  have hinval : -EINVAL ≠ 0 := by decide
  have hagain : -EAGAIN ≠ 0 := by decide
  unfold myMmap
  dsimp only
  by_cases hsize : vma.size > 4096
  · rw [if_pos hsize]
    exact ⟨hinval, rfl⟩
  rw [if_neg hsize]
  by_cases hpgoff : vma.vmPgoff ≠ 0
  · rw [if_pos hpgoff]
    exact ⟨hinval, rfl⟩
  rw [if_neg hpgoff]
  have hremapped : remapped = false := by
    by_contra hne
    exact h ⟨BitVec.not_lt.mp hsize, not_not.mp hpgoff, by simpa using hne⟩
  rw [if_pos hremapped]
  exact ⟨hagain, rfl⟩

theorem myMmap_accepted (h : Accepted vma remapped) : myMmap mod s p vma remapped
    = (0, remapPfnRange (greet mod s) p vma.vmStart mod.pfn vma.size) := by
  obtain ⟨hsize, hpgoff, rfl⟩ := h
  unfold myMmap
  dsimp only
  rw [if_neg (BitVec.not_lt.mpr hsize), if_neg (not_not.mpr hpgoff), if_neg (by decide),
    pfn_phys]

/-- At most one page is mapped, and it is the page of the module. -/
theorem remapPfnRange_mapsOnly (h : Paging.MapsOnly mod.pfn s) {addr size : BitVec 64}
    (hsize : size ≤ 4096) : Paging.MapsOnly mod.pfn (remapPfnRange s p addr mod.pfn size) := by
  refine h.setTable p fun v f hf => ?_
  dsimp only at hf
  split at hf
  · rename_i hlt
    have hle : size.toNat ≤ 4096 := hsize
    have hpages : ((size + 4095) >>> 12).toNat ≤ 1 := by
      have hconst : (4095 : BitVec 64).toNat = 4095 := rfl
      rw [BitVec.toNat_ushiftRight, BitVec.toNat_add, Nat.shiftRight_eq_div_pow, hconst]
      omega
    have hzero : v - pageNumber addr = 0#64 := by
      have hindex := BitVec.lt_def.mp hlt
      apply BitVec.eq_of_toNat_eq
      rw [BitVec.toNat_zero]
      omega
    rw [hzero, BitVec.add_zero] at hf
    exact (Option.some.inj hf).symm
  · exact h p v f hf

omit [DecidableEq P] in
theorem greet_mapsOnly (h : Paging.MapsOnly mod.pfn s) : Paging.MapsOnly mod.pfn (greet mod s) :=
  h.write _ _

omit [DecidableEq P] in
/-- The greeting goes unseen where it stands already, or where nobody looks. -/
theorem view_greet_iff (h : Paging.MapsOnly mod.pfn s) :
    (∀ q v, (greet mod s).view q v = s.view q v) ↔ Greeted mod s ∨ s.Unmapped := by
  rw [greet, Paging.view_write_iff h, CharArray.store_eq_self_iff (length_greeting mod), Greeted]

/-- Every request leaves the greeting. -/
theorem greeted_myMmap (s : State P) (p : P) (vma : Vma) (remapped : Bool) :
    Greeted mod (myMmap mod s p vma remapped).2 := by
  have hframe : (myMmap mod s p vma remapped).2.frame mod.pfn
      = (s.frame mod.pfn).store 0 (mod.greeting ++ [0]) := by
    by_cases haccepted : Accepted vma remapped
    · rw [myMmap_accepted haccepted]
      exact Paging.write_frame ..
    · rw [(myMmap_refused haccepted).2]
      exact Paging.write_frame ..
  rw [Greeted, hframe]
  exact CharArray.take_store _ (length_greeting mod)

theorem mapsOnly_init : Paging.MapsOnly mod.pfn (driver mod P).init := nofun

theorem mapsOnly_step {e : Event P} (h : Paging.MapsOnly mod.pfn s)
    (hs : (driver mod P).step s e = some s') : Paging.MapsOnly mod.pfn s' := by
  cases e with
  | mmap p vma remapped =>
    obtain rfl : (myMmap mod s p vma remapped).2 = s' := Option.some.inj hs
    by_cases haccepted : Accepted vma remapped
    · rw [myMmap_accepted haccepted]
      exact remapPfnRange_mapsOnly (greet_mapsOnly h) haccepted.1
    · rw [(myMmap_refused haccepted).2]
      exact greet_mapsOnly h
  | store p addr byte =>
    obtain ⟨f, -, rfl⟩ := Option.map_eq_some_iff.mp hs
    exact h.write _ _
  | munmap p first count =>
    obtain rfl := Option.some.inj hs
    refine h.setTable p fun v f hf => ?_
    split at hf
    · cases hf
    · exact h p v f hf

/-- **One request**: what it does is right exactly if it is accepted or spares
what the processes see. -/
theorem sound_iff_spared (h : Paging.MapsOnly mod.pfn s) (e : Event P) :
    Sound mod s e ↔ Spared mod s e := by
  cases e with
  | mmap p vma remapped =>
    by_cases haccepted : Accepted vma remapped
    · have honly : Paging.MapsOnly mod.pfn
          (remapPfnRange (greet mod s) p vma.vmStart mod.pfn vma.size) :=
        remapPfnRange_mapsOnly (greet_mapsOnly h) haccepted.1
      refine iff_of_true ?_ (.inl haccepted)
      simp only [Sound, myMmap_accepted haccepted]
      exact ⟨fun hret => absurd rfl hret, fun _ => honly⟩
    · have hret : (myMmap mod s p vma remapped).1 ≠ 0 := (myMmap_refused haccepted).1
      have hgreet : (myMmap mod s p vma remapped).2 = greet mod s := (myMmap_refused haccepted).2
      have hsound : Sound mod s (.mmap p vma remapped)
          ↔ ∀ q v, (greet mod s).view q v = s.view q v := by
        rw [← hgreet]
        exact ⟨fun h => h.1 hret, fun h => ⟨fun _ => h, fun hzero => absurd hzero hret⟩⟩
      rw [hsound, view_greet_iff h, Spared, or_iff_right haccepted]
  | store p addr byte => exact Iff.rfl
  | munmap p first count => exact Iff.rfl

/-- **Refused requests are harmless**, and requests that succeed map the page
and nothing else, along a run of any number of processes, exactly when every
request of it is accepted or comes to a page that has the greeting or that
nobody has mapped. -/
theorem requests_sound_iff {es : List (Event P)} (h : (driver mod P).Reaches es s) :
    (driver mod P).Along (Sound mod) (driver mod P).init es ↔
      (driver mod P).Along (Spared mod) (driver mod P).init es := by
  have hstep : ∀ (P' : State P → Event P → Prop) s e s', Paging.MapsOnly mod.pfn s → P' s e →
      (driver mod P).step s e = some s' → Paging.MapsOnly mod.pfn s' :=
    fun _ _ _ _ hm _ hs => mapsOnly_step hm hs
  constructor
  · exact fun hsound => Machine.along_of_inv (fun s e _ hm he _ => (sound_iff_spared hm e).mp he)
      (hstep _) mapsOnly_init hsound h
  · exact fun hspared => Machine.along_of_inv (fun s e _ hm he _ => (sound_iff_spared hm e).mpr he)
      (hstep _) mapsOnly_init hspared h

end

/-! A module, a request for its page, and one for two pages. -/

def demo : Module := ⟨0xffff000089abc000, 0x89abc, by decide, fun _ => .zero pageSize⟩

def onePage : Vma := ⟨0x10000, 0x11000, 0⟩

def twoPages : Vma := ⟨0x20000, 0x22000, 0⟩

/-- The refused request finds the greeting of the first one. -/
def refusedLater : List (Event Nat) := [.mmap 0 onePage true, .mmap 1 twoPages true]

theorem requests_sound_iff_refused_later :
    (driver demo Nat).Along (Sound demo) (driver demo Nat).init refusedLater := by
  have hrun : (driver demo Nat).Reaches refusedLater _ := rfl
  refine (requests_sound_iff hrun).mpr
    ⟨.inl (by decide), fun s hs => ⟨.inr (.inl ?_), fun _ _ => trivial⟩⟩
  obtain rfl := Option.some.inj hs
  exact greeted_myMmap ..

/-- Process 0 stores an `X`, and the refused request of process 1 overwrites it. -/
def storedBefore : List (Event Nat) :=
  [.mmap 0 onePage true, .store 0 0x10000 88, .mmap 1 twoPages true]

theorem refused_request_overwrites :
    ¬ ∀ es s, (driver demo Nat).Reaches es s →
      (driver demo Nat).Along (Sound demo) (driver demo Nat).init es := by
  intro h
  have hsound := ((h storedBefore _ rfl).2 _ rfl).2 _ rfl
  have hview := hsound.1.1 (by decide) 0 (pageNumber 0x10000)
  have hfirst := congrArg (fun view => view.map fun frame => frame.bytes[0]?) hview
  revert hfirst
  decide +kernel

end KernelSpace.Mmap
