import KernelSpace.DmaMem2mem.Exclusive
import KernelSpace.Lib.Ledger

/-!
# DmaMem2mem — who owns the buffers

The rule of streaming DMA: between `dma_map_single` and the matching
`dma_unmap_single` a buffer belongs to the device. The CPU does not touch it,
every mapping is taken back exactly once, and not before the engine is done
with the buffer.

`Owned` is the device (21a) with a record of the mappings, which no step reads.
Its steps are those of the device, but the timeout is in two (`expire`, then
`terminate`, which may fail), and the engine may drop a descriptor for an error
(`engineError`), with or without the callback. What an error leaves in
`dst_buf` is not modelled: no statement looks at the bytes of the buffers.

`Sound` is the rule for one statement of one call. That each mapping is taken
back exactly once holds in every run. The rest holds when the calls are
`Careful`: nobody copies or clears while another call has the buffer mapped,
and a call turns to its unmaps only when the queue is empty, and finds it empty
until it has made them.
-/

namespace KernelSpace.DmaMem2mem

open KernelSpace.Kernel KernelSpace.Lib

/-! ## Mappings -/

inductive Buffer where
  | src
  | dst
deriving DecidableEq

inductive Direction where
  | toDevice
  | fromDevice
deriving DecidableEq

/-- A buffer mapped by a call of `owner`. -/
structure Mapping (T : Type*) where
  owner : T
  buffer : Buffer
  len : Nat
  dir : Direction
deriving DecidableEq

variable {T : Type*}

/-- `dma_map_single(dev, src_buf, len, DMA_TO_DEVICE)` of a write. -/
def srcMapping (t : T) (buf : List UInt8) : Mapping T := ⟨t, .src, writeLen buf.length, .toDevice⟩

/-- `dma_map_single(dev, dst_buf, len, DMA_FROM_DEVICE)`. -/
def dstMapping (t : T) (buf : List UInt8) : Mapping T := ⟨t, .dst, writeLen buf.length, .fromDevice⟩

namespace Pc

/-- The buffer that the next statement reads or writes with the CPU. -/
def touched : Pc → Option Buffer
  | write buf .copyFromUser => if writeLen buf.length = 0 then none else some .src
  | write _ .memset => some .dst
  | read _ _ (.copyToUser n) => if n = 0 then none else some .dst
  | _ => none

/-- What the next statement maps, if that succeeds. -/
def mapping (t : T) : Pc → Option (Mapping T)
  | write buf .mapSrc => some (srcMapping t buf)
  | write buf .mapDst => some (dstMapping t buf)
  | _ => none

/-- What the next statement unmaps. -/
def unmapping (t : T) : Pc → Option (Mapping T)
  | write buf (.unmapDst _) => some (dstMapping t buf)
  | write buf (.unmapSrc _) => some (srcMapping t buf)
  | _ => none

/-- The call is between the mapping of the buffer and its unmapping. -/
def holds (b : Buffer) : Pc → Bool
  | write _ .mapDst | write _ (.unmapSrc _) => b = .src
  | write _ .prep | write _ .reinit | write _ .submit | write _ (.issue _) | write _ (.wait _)
  | write _ (.status _) | write _ (.unmapDst _) => true
  | _ => false

/-- The call is done with the engine and will unmap. -/
def leaving : Pc → Bool
  | write _ (.status _) | write _ (.unmapDst _) | write _ (.unmapSrc _) => true
  | _ => false

end Pc

variable [DecidableEq T]

/-- The mappings behind the next statement. -/
def remap (t : T) (o : Outcome) (pc : Pc) (mapped : List (Mapping T)) : List (Mapping T) :=
  match pc.unmapping t with
  | some m => mapped.erase m
  | none => if o = .ok then mapped ++ (pc.mapping t).toList else mapped

/-! ## The device with its mappings -/

structure Owned (T : Type*) where
  dev : State T
  expired : T → Bool
  mapped : List (Mapping T)

inductive Action (T : Type*) where
  | dev (e : Event T)
  | expire (t : T)
  | terminate (t : T) (o : Outcome)
  | engineError (callback : Bool)

namespace Owned

def init (T : Type*) (srcBuf dstBuf : CharArray bufSize) : Owned T :=
  ⟨.init T srcBuf dstBuf, fun _ => false, []⟩

def step (s : Owned T) : Action T → Option (Owned T)
  | .dev (.next t o) =>
    if s.expired t = true then none
    else (DmaMem2mem.step s.dev (.next t o)).map fun dev =>
      { s with dev := dev, mapped := remap t o (s.dev.pc t) s.mapped }
  | .dev (.timeout _) => none
  | .dev e => (DmaMem2mem.step s.dev e).map fun dev => { s with dev := dev }
  | .expire t =>
    match s.dev.pc t with
    | .write _ (.wait _) =>
      if s.dev.dmaDone = 0 then some { s with expired := Function.update s.expired t true }
      else none
    | _ => none
  | .terminate t o =>
    match s.dev.pc t with
    | .write buf (.wait _) =>
      if s.expired t = true then
        some { s with
          dev := { s.dev.goto t (.write buf (.unmapDst (-ETIMEDOUT))) with
            queue := if o = .ok then [] else s.dev.queue }
          expired := Function.update s.expired t false }
      else none
    | _ => none
  | .engineError callback =>
    match s.dev.queue with
    | [] => none
    | tx :: rest =>
      if tx.issued = true then
        some { s with
          dev := { s.dev with
            queue := rest
            dmaDone := if callback then s.dev.dmaDone + 1 else s.dev.dmaDone } }
      else none

/-- The device and its mappings, called by the threads `T`. -/
def machine (T : Type*) [DecidableEq T] (srcBuf dstBuf : CharArray bufSize) :
    Machine (Owned T) (Action T) := ⟨.init T srcBuf dstBuf, step⟩

/-! ## The rule -/

/-- Every mapping is taken back once: an unmap finds its mapping, with the same
length and direction, and a call that returns leaves none behind. -/
structure Balanced (s : Owned T) (t : T) (o : Outcome) : Prop where
  matched : ∀ m, (s.dev.pc t).unmapping t = some m → s.mapped.count m = 1
  settled : ∀ s', step s (.dev (.next t o)) = some s' → s'.dev.pc t = .idle →
    ∀ m ∈ s'.mapped, m.owner ≠ t

/-- What the rule of streaming DMA says of the next statement of `t`. -/
structure Sound (s : Owned T) (t : T) (o : Outcome) : Prop extends Balanced s t o where
  untouched : ∀ b, (s.dev.pc t).touched = some b → ∀ m ∈ s.mapped, m.buffer ≠ b
  retired : ∀ m, (s.dev.pc t).unmapping t = some m → s.dev.queue = []

/-- Only calls touch, map and unmap. -/
def Matched (s : Owned T) : Action T → Prop
  | .dev (.next t o) => Balanced s t o
  | _ => True

/-- The rule, for each action. -/
def Disciplined (s : Owned T) : Action T → Prop
  | .dev (.next t o) => Sound s t o
  | _ => True

/-- No call has the buffer mapped. -/
def Free (s : Owned T) (b : Buffer) : Prop := ∀ u, (s.dev.pc u).holds b = false

/-- A statement that touches a buffer finds it free; a call turns to its unmaps
when nothing is queued or running, and nothing is submitted before it has made
them. -/
def Careful (s : Owned T) : Action T → Prop
  | .dev (.next t o) =>
    match s.dev.pc t with
    | .write buf .copyFromUser => writeLen buf.length = 0 ∨ Free s .src
    | .write _ .memset => Free s .dst
    | .write _ .mapDst | .write _ .prep => o = .ok ∨ s.dev.queue = []
    | .write _ .submit =>
      if o = .ok then ∀ u, (s.dev.pc u).leaving = false else s.dev.queue = []
    | .write _ (.wait _) => s.dev.queue = []
    | .read _ _ (.copyToUser n) => n = 0 ∨ Free s .dst
    | _ => True
  | .terminate _ o => o = .ok ∨ s.dev.queue = []
  | _ => True

end Owned

/-! ## What a statement does to the engine -/

/-- Thread `t` goes to `pc`, and the engine is left alone. -/
structure Moves (s s' : State T) (t : T) (pc : Pc) : Prop where
  pc : s'.pc = Function.update s.pc t pc
  queue : s'.queue = s.queue
  dmaDone : s'.dmaDone = s.dmaDone

theorem devWrite_cases {s s' : State T} {t : T} {buf : List UInt8} {o : Outcome} {pc : WritePc}
    (hs : devWrite s t buf o pc = some s') :
    match pc with
    | .copyFromUser => Moves s s' t (.write buf .memset) ∨ Moves s s' t .idle
    | .memset => Moves s s' t (.write buf .mapSrc)
    | .mapSrc =>
      (o = .ok ∧ Moves s s' t (.write buf .mapDst)) ∨ (o ≠ .ok ∧ Moves s s' t .idle)
    | .mapDst =>
      (o = .ok ∧ Moves s s' t (.write buf .prep)) ∨
        (o ≠ .ok ∧ Moves s s' t (.write buf (.unmapSrc (-ENOMEM))))
    | .prep =>
      (o = .ok ∧ Moves s s' t (.write buf .reinit)) ∨
        (o ≠ .ok ∧ Moves s s' t (.write buf (.unmapDst (- Kernel.EIO))))
    | .reinit =>
      s'.pc = Function.update s.pc t (.write buf .submit) ∧ s'.queue = s.queue ∧ s'.dmaDone = 0
    | .submit =>
      (o = .ok ∧ s'.pc = Function.update s.pc t (.write buf (.issue s.cookies)) ∧
        s'.queue = s.queue ++ [⟨s.cookies, writeLen buf.length, false, false⟩] ∧
        s'.dmaDone = s.dmaDone) ∨
        (o ≠ .ok ∧ Moves s s' t (.write buf (.unmapDst (- Kernel.EIO))))
    | .issue cookie =>
      s'.pc = Function.update s.pc t (.write buf (.wait cookie)) ∧
        s'.queue = s.queue.map (fun tx => { tx with issued := true }) ∧ s'.dmaDone = s.dmaDone
    | .wait cookie =>
      0 < s.dmaDone ∧ s'.pc = Function.update s.pc t (.write buf (.status cookie)) ∧
        s'.queue = s.queue
    | .status _ => ∃ ret, Moves s s' t (.write buf (.unmapDst ret))
    | .unmapDst ret => Moves s s' t (.write buf (.unmapSrc ret))
    | .unmapSrc _ => Moves s s' t (.write buf .setLen) ∨ Moves s s' t .idle
    | .setLen => Moves s s' t .idle := by
  cases pc with
  | copyFromUser =>
    cases o with
    | ok =>
      cases hs
      exact .inl ⟨rfl, rfl, rfl⟩
    | fault k =>
      cases hs
      exact .inr ⟨rfl, rfl, rfl⟩
  | memset | reinit | issue | unmapDst | setLen =>
    cases hs
    exact ⟨rfl, rfl, rfl⟩
  | mapSrc | mapDst | prep =>
    simp only [devWrite] at hs
    split at hs
    · rename_i ho
      cases hs
      exact .inl ⟨ho, rfl, rfl, rfl⟩
    · rename_i ho
      cases hs
      exact .inr ⟨ho, rfl, rfl, rfl⟩
  | submit =>
    simp only [devWrite] at hs
    split at hs
    · rename_i ho
      cases hs
      exact .inl ⟨ho, rfl, rfl, rfl⟩
    · rename_i ho
      cases hs
      exact .inr ⟨ho, rfl, rfl, rfl⟩
  | wait cookie =>
    obtain ⟨hdone, hs⟩ := Option.ite_none_right_eq_some.mp hs
    cases hs
    exact ⟨hdone, rfl, rfl⟩
  | status cookie =>
    simp only [devWrite] at hs
    split at hs
    · cases hs
      exact ⟨_, rfl, rfl, rfl⟩
    · cases hs
      exact ⟨_, rfl, rfl, rfl⟩
  | unmapSrc ret =>
    simp only [devWrite] at hs
    split at hs
    · cases hs
      exact .inl ⟨rfl, rfl, rfl⟩
    · cases hs
      exact .inr ⟨rfl, rfl, rfl⟩

/-! ## The mappings of a call -/

/-- What a call has mapped when it comes to a statement. -/
def held (t : T) : Pc → List (Mapping T)
  | .write buf .mapDst | .write buf (.unmapSrc _) => [srcMapping t buf]
  | .write buf .prep | .write buf .reinit | .write buf .submit | .write buf (.issue _)
  | .write buf (.wait _) | .write buf (.status _) | .write buf (.unmapDst _) =>
    [srcMapping t buf, dstMapping t buf]
  | _ => []

omit [DecidableEq T] in
theorem srcMapping_ne_dstMapping (t : T) (buf buf' : List UInt8) :
    srcMapping t buf ≠ dstMapping t buf' := by
  simp [srcMapping, dstMapping]

omit [DecidableEq T] in
/-- A buffer is held while there is a mapping of it. -/
theorem exists_mem_held_iff {t : T} {pc : Pc} {b : Buffer} :
    (∃ m ∈ held t pc, m.buffer = b) ↔ pc.holds b = true := by
  unfold held
  split <;> cases b <;> simp [Pc.holds, srcMapping, dstMapping]

omit [DecidableEq T] in
theorem held_of_not_writing {t : T} {pc : Pc} (h : ¬ pc.Writing) : held t pc = [] := by
  cases pc with
  | write buf pc => exact absurd trivial h
  | idle | read => rfl

/-- A statement of a call maps and unmaps what is in the call's own share. -/
theorem devWrite_held {s s' : State T} {t : T} {buf : List UInt8} {o : Outcome} {pc : WritePc}
    (hs : devWrite s t buf o pc = some s') :
    ∃ pc', s'.pc = Function.update s.pc t pc' ∧
      held t pc' = remap t o (.write buf pc) (held t (.write buf pc)) := by
  have hcases := devWrite_cases hs
  cases pc with
  | copyFromUser =>
    rcases hcases with hmoves | hmoves
    · exact ⟨_, hmoves.pc, by simp [held, remap, Pc.unmapping, Pc.mapping]⟩
    · exact ⟨_, hmoves.pc, by simp [held, remap, Pc.unmapping, Pc.mapping]⟩
  | memset | setLen => exact ⟨_, hcases.pc, by simp [held, remap, Pc.unmapping, Pc.mapping]⟩
  | mapSrc | mapDst | prep =>
    rcases hcases with ⟨ho, hmoves⟩ | ⟨ho, hmoves⟩
    · exact ⟨_, hmoves.pc, by simp [held, remap, Pc.unmapping, Pc.mapping, ho]⟩
    · exact ⟨_, hmoves.pc, by simp [held, remap, Pc.unmapping, ho]⟩
  | reinit | issue => exact ⟨_, hcases.1, by simp [held, remap, Pc.unmapping, Pc.mapping]⟩
  | submit =>
    rcases hcases with ⟨-, hpc, -⟩ | ⟨-, hmoves⟩
    · exact ⟨_, hpc, by simp [held, remap, Pc.unmapping, Pc.mapping]⟩
    · exact ⟨_, hmoves.pc, by simp [held, remap, Pc.unmapping, Pc.mapping]⟩
  | wait => exact ⟨_, hcases.2.1, by simp [held, remap, Pc.unmapping, Pc.mapping]⟩
  | status =>
    obtain ⟨ret, hmoves⟩ := hcases
    exact ⟨_, hmoves.pc, by simp [held, remap, Pc.unmapping, Pc.mapping]⟩
  | unmapDst =>
    have hne := srcMapping_ne_dstMapping t buf buf
    exact ⟨_, hcases.pc, by simp [held, remap, Pc.unmapping, hne]⟩
  | unmapSrc =>
    rcases hcases with hmoves | hmoves
    · exact ⟨_, hmoves.pc, by simp [held, remap, Pc.unmapping]⟩
    · exact ⟨_, hmoves.pc, by simp [held, remap, Pc.unmapping]⟩

/-- A read moves outside of a write and leaves the engine alone. -/
theorem devRead_spec (d : State T) (t : T) (off len : Nat) (o : Outcome) (pc : ReadPc) :
    ∃ pc', (devRead d t off len o pc).pc = Function.update d.pc t pc' ∧ ¬ pc'.Writing ∧
      (devRead d t off len o pc).queue = d.queue := by
  cases pc with
  | check | copyToUser =>
    rw [devRead]
    split
    · exact ⟨_, rfl, id, rfl⟩
    · exact ⟨_, rfl, id, rfl⟩
  | clip => exact ⟨_, rfl, id, rfl⟩

/-- The same for either call. -/
theorem next_held {s s' : State T} {t : T} {o : Outcome} (hs : step s (.next t o) = some s') :
    ∃ pc', s'.pc = Function.update s.pc t pc' ∧
      held t pc' = remap t o (s.pc t) (held t (s.pc t)) := by
  simp only [step] at hs
  split at hs
  · cases hs
  · rename_i buf pc hpc
    rw [hpc]
    exact devWrite_held hs
  · rename_i off len pc hpc
    cases hs
    obtain ⟨pc', hupdate, houtside, -⟩ := devRead_spec s t off len o pc
    refine ⟨pc', hupdate, ?_⟩
    rw [held_of_not_writing houtside, hpc]
    simp [held, remap, Pc.unmapping, Pc.mapping]

omit [DecidableEq T] in
theorem owner_of_unmapping {t : T} {pc : Pc} {m : Mapping T} (h : pc.unmapping t = some m) :
    m.owner = t := by
  unfold Pc.unmapping at h
  split at h <;> cases h <;> rfl

omit [DecidableEq T] in
theorem owner_of_mapping {t : T} {pc : Pc} {m : Mapping T} (h : pc.mapping t = some m) :
    m.owner = t := by
  unfold Pc.mapping at h
  split at h <;> cases h <;> rfl

/-- A statement of `t` maps and unmaps in the share of `t`. -/
theorem share_remap_self (t : T) (o : Outcome) (pc : Pc) (mapped : List (Mapping T)) :
    Ledger.share Mapping.owner (remap t o pc mapped) t
      = remap t o pc (Ledger.share Mapping.owner mapped t) := by
  unfold remap
  cases pc.unmapping t with
  | some m => exact Ledger.share_erase
  | none =>
    dsimp only
    by_cases ho : o = .ok
    · rw [if_pos ho, if_pos ho]
      cases hm : pc.mapping t with
      | none => simp
      | some m => exact Ledger.share_append_self (owner_of_mapping hm)
    · rw [if_neg ho, if_neg ho]

theorem share_remap_other {t u : T} (hut : u ≠ t) (o : Outcome) (pc : Pc)
    (mapped : List (Mapping T)) :
    Ledger.share Mapping.owner (remap t o pc mapped) u = Ledger.share Mapping.owner mapped u := by
  unfold remap
  cases hm : pc.unmapping t with
  | some m => exact Ledger.share_erase_other (by rw [owner_of_unmapping hm]; exact hut.symm)
  | none =>
    dsimp only
    by_cases ho : o = .ok
    · rw [if_pos ho]
      cases hn : pc.mapping t with
      | none => simp
      | some m => exact Ledger.share_append_other (by rw [owner_of_mapping hn]; exact hut.symm)
    · rw [if_neg ho]

theorem count_held {t : T} {pc : Pc} {m : Mapping T}
    (h : pc.unmapping t = some m) : (held t pc).count m = 1 := by
  unfold Pc.unmapping at h
  split at h <;> cases h
  all_goals simp [held, srcMapping, dstMapping]

namespace Owned

/-! ## What each action does -/

theorem step_spec {s s' : Owned T} {a : Action T} (hs : step s a = some s') :
    match a with
    | .dev (.call t _) =>
      s.dev.pc t = .idle ∧ ∃ pc, s'.dev.pc = Function.update s.dev.pc t pc ∧ held t pc = [] ∧
        pc.leaving = false ∧ s'.dev.queue = s.dev.queue ∧ s'.mapped = s.mapped ∧
        s'.expired = s.expired
    | .dev (.next t o) =>
      s.expired t = false ∧ DmaMem2mem.step s.dev (.next t o) = some s'.dev ∧
        s'.mapped = remap t o (s.dev.pc t) s.mapped ∧ s'.expired = s.expired
    | .dev (.timeout _) => False
    | .dev .engineCopy | .dev .callback | .engineError _ =>
      s'.dev.pc = s.dev.pc ∧ s'.mapped = s.mapped ∧ s'.expired = s.expired ∧
        s.dev.queue ≠ [] ∧
        s'.dev.queue.length + s'.dev.dmaDone ≤ s.dev.queue.length + s.dev.dmaDone
    | .expire t =>
      (∃ buf cookie, s.dev.pc t = .write buf (.wait cookie)) ∧
        s' = { s with expired := Function.update s.expired t true }
    | .terminate t o =>
      ∃ buf cookie, s.dev.pc t = .write buf (.wait cookie) ∧
        s' = { s with
          dev := { s.dev.goto t (.write buf (.unmapDst (-ETIMEDOUT))) with
            queue := if o = .ok then [] else s.dev.queue }
          expired := Function.update s.expired t false } := by
  cases a with
  | dev e =>
    cases e with
    | call t c =>
      obtain ⟨d, hd, rfl⟩ := Option.map_eq_some_iff.mp hs
      cases c with
      | write buf =>
        obtain ⟨hidle, hd⟩ := Option.ite_none_right_eq_some.mp hd
        cases hd
        exact ⟨hidle, _, rfl, rfl, rfl, rfl, rfl, rfl⟩
      | read off len =>
        obtain ⟨hidle, hd⟩ := Option.ite_none_right_eq_some.mp hd
        cases hd
        exact ⟨hidle, _, rfl, rfl, rfl, rfl, rfl, rfl⟩
    | next t o =>
      obtain ⟨hexpired, hs⟩ := Option.ite_none_left_eq_some.mp hs
      obtain ⟨d, hd, rfl⟩ := Option.map_eq_some_iff.mp hs
      exact ⟨Bool.eq_false_iff.mpr hexpired, hd, rfl, rfl⟩
    | timeout t => cases hs
    | engineCopy | callback =>
      obtain ⟨d, hd, rfl⟩ := Option.map_eq_some_iff.mp hs
      simp only [DmaMem2mem.step] at hd
      split at hd
      · cases hd
      · rename_i tx rest hqueue
        obtain ⟨-, hd⟩ := Option.ite_none_right_eq_some.mp hd
        cases hd
        refine ⟨rfl, rfl, rfl, by simp [hqueue], ?_⟩
        rw [hqueue]
        simp only [List.length_cons]
        omega
  | expire t =>
    simp only [step] at hs
    split at hs
    · rename_i buf cookie hpc
      obtain ⟨-, hs⟩ := Option.ite_none_right_eq_some.mp hs
      exact ⟨⟨buf, cookie, hpc⟩, (Option.some.inj hs).symm⟩
    · cases hs
  | terminate t o =>
    simp only [step] at hs
    split at hs
    · rename_i buf cookie hpc
      obtain ⟨-, hs⟩ := Option.ite_none_right_eq_some.mp hs
      exact ⟨buf, cookie, hpc, (Option.some.inj hs).symm⟩
    · cases hs
  | engineError callback =>
    simp only [step] at hs
    split at hs
    · cases hs
    · rename_i tx rest hqueue
      obtain ⟨-, hs⟩ := Option.ite_none_right_eq_some.mp hs
      cases hs
      refine ⟨rfl, rfl, rfl, by simp [hqueue], ?_⟩
      rw [hqueue]
      simp only [List.length_cons]
      split <;> omega

/-- The two statements of a timeout, with nobody in between, are the one of the
device. -/
theorem exec_timeout (srcBuf dstBuf : CharArray bufSize) {s : Owned T} {t : T} {d : State T}
    (hrunning : s.expired t = false) (hd : DmaMem2mem.step s.dev (.timeout t) = some d) :
    (machine T srcBuf dstBuf).exec s [.expire t, .terminate t .ok] = some { s with dev := d } := by
  simp only [DmaMem2mem.step] at hd
  split at hd
  · rename_i buf cookie hpc
    obtain ⟨hdone, hd⟩ := Option.ite_none_right_eq_some.mp hd
    cases hd
    have hexpired : Function.update s.expired t false = s.expired := by
      rw [← hrunning, Function.update_eq_self]
    simp [Machine.exec, machine, step, hpc, hdone, hexpired]
  · cases hd

/-! ## Every run is balanced -/

structure Booked (s : Owned T) : Prop where
  /-- The statement of a call tells what it has mapped. -/
  shares : ∀ t, Ledger.share Mapping.owner s.mapped t = held t (s.dev.pc t)
  waits : ∀ t, s.expired t = true → ∃ buf cookie, s.dev.pc t = .write buf (.wait cookie)

theorem booked_init (srcBuf dstBuf : CharArray bufSize) : Booked (.init T srcBuf dstBuf) :=
  ⟨fun _ => rfl, nofun⟩

/-- Thread `t` moves, and only its share changes. -/
theorem Booked.move {s s' : Owned T} (h : Booked s) {t : T} {pc : Pc}
    (hpc : s'.dev.pc = Function.update s.dev.pc t pc)
    (hself : Ledger.share Mapping.owner s'.mapped t = held t pc)
    (hother : ∀ u, u ≠ t →
      Ledger.share Mapping.owner s'.mapped u = Ledger.share Mapping.owner s.mapped u)
    (hexpired : ∀ u, s'.expired u = true → u ≠ t ∧ s.expired u = true) : Booked s' := by
  refine ⟨fun u => ?_, fun u hu => ?_⟩
  · rw [hpc]
    by_cases hut : u = t
    · rw [hut, Function.update_self]
      exact hself
    · rw [Function.update_of_ne hut, hother u hut]
      exact h.shares u
  · obtain ⟨hut, hu⟩ := hexpired u hu
    rw [hpc, Function.update_of_ne hut]
    exact h.waits u hu

theorem Booked.of_eq {s s' : Owned T} (h : Booked s) (hpc : s'.dev.pc = s.dev.pc)
    (hmapped : s'.mapped = s.mapped) (hexpired : s'.expired = s.expired) : Booked s' := by
  refine ⟨fun u => ?_, fun u hu => ?_⟩
  · rw [hmapped, hpc, h.shares]
  · rw [hexpired] at hu
    rw [hpc]
    exact h.waits u hu

theorem Booked.step {s s' : Owned T} {a : Action T} (h : Booked s) (hs : step s a = some s') :
    Booked s' := by
  have hspec := step_spec hs
  cases a with
  | dev e =>
    cases e with
    | call t c =>
      obtain ⟨hidle, pc, hpc, hheld, -, -, hmapped, hexpired⟩ := hspec
      refine h.move hpc ?_ (fun u _ => by rw [hmapped]) fun u hu => ?_
      · rw [hmapped, h.shares, hidle, hheld]
        rfl
      · rw [hexpired] at hu
        refine ⟨?_, hu⟩
        rintro rfl
        obtain ⟨buf, cookie, hwait⟩ := h.waits u hu
        cases hidle.symm.trans hwait
    | next t o =>
      obtain ⟨hrunning, hd, hmapped, hexpired⟩ := hspec
      obtain ⟨pc, hpc, hheld⟩ := next_held hd
      refine h.move hpc ?_ (fun u hut => ?_) fun u hu => ?_
      · rw [hmapped, share_remap_self, h.shares, hheld]
      · rw [hmapped, share_remap_other hut]
      · rw [hexpired] at hu
        refine ⟨?_, hu⟩
        rintro rfl
        cases hrunning.symm.trans hu
    | timeout t => exact hspec.elim
    | engineCopy | callback =>
      obtain ⟨hpc, hmapped, hexpired, -⟩ := hspec
      exact h.of_eq hpc hmapped hexpired
  | engineError callback =>
    obtain ⟨hpc, hmapped, hexpired, -⟩ := hspec
    exact h.of_eq hpc hmapped hexpired
  | expire t =>
    obtain ⟨hwait, rfl⟩ := hspec
    refine ⟨h.shares, fun u hu => ?_⟩
    by_cases hut : u = t
    · rw [hut]
      exact hwait
    · dsimp only at hu
      rw [Function.update_of_ne hut] at hu
      exact h.waits u hu
  | terminate t o =>
    obtain ⟨buf, cookie, hwait, rfl⟩ := hspec
    refine h.move (t := t) rfl ?_ (fun _ _ => rfl) fun u hu => ?_
    · show Ledger.share Mapping.owner s.mapped t = _
      rw [h.shares, hwait]
      rfl
    · dsimp only at hu
      by_cases hut : u = t
      · rw [hut, Function.update_self] at hu
        cases hu
      · rw [Function.update_of_ne hut] at hu
        exact ⟨hut, hu⟩

/-- A call that is outside has no mapping. -/
theorem Booked.settled {s : Owned T} (h : Booked s) {t : T} (hidle : s.dev.pc t = .idle) :
    ∀ m ∈ s.mapped, m.owner ≠ t := by
  intro m hm howner
  have hshare : m ∈ Ledger.share Mapping.owner s.mapped t := Ledger.mem_share.mpr ⟨hm, howner⟩
  rw [h.shares, hidle] at hshare
  cases hshare

theorem Booked.balanced {s : Owned T} (h : Booked s) (t : T) (o : Outcome) : Balanced s t o := by
  refine ⟨fun m hm => ?_, fun s' hs hidle => (h.step hs).settled hidle⟩
  have hcount : (Ledger.share Mapping.owner s.mapped m.owner).count m = s.mapped.count m :=
    Ledger.count_share
  rw [owner_of_unmapping hm, h.shares, count_held hm] at hcount
  exact hcount.symm

theorem Booked.matched {s : Owned T} (h : Booked s) (a : Action T) : Matched s a := by
  cases a with
  | dev e =>
    cases e with
    | next t o => exact h.balanced t o
    | call | timeout | engineCopy | callback => trivial
  | expire | terminate | engineError => trivial

/-- A buffer is free when there is no mapping of it. -/
theorem Booked.free_iff {s : Owned T} (h : Booked s) {b : Buffer} :
    Free s b ↔ ∀ m ∈ s.mapped, m.buffer ≠ b := by
  refine ⟨fun hfree m hm hb => ?_, fun hmaps u => ?_⟩
  · have hshare : m ∈ held m.owner (s.dev.pc m.owner) := by
      rw [← h.shares]
      exact Ledger.mem_share.mpr ⟨hm, rfl⟩
    have hholds := exists_mem_held_iff.mp ⟨m, hshare, hb⟩
    cases hholds.symm.trans (hfree m.owner)
  · rw [Bool.eq_false_iff]
    intro hholds
    obtain ⟨m, hm, hb⟩ := exists_mem_held_iff (t := u).mpr hholds
    rw [← h.shares] at hm
    exact hmaps m (Ledger.mem_share.mp hm).1 hb

end Owned

end KernelSpace.DmaMem2mem
