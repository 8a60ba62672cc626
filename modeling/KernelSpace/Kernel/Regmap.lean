import KernelSpace.Kernel.Errno
import KernelSpace.Lib.Effects
import KernelSpace.Lib.Shadow

/-!
# A register map

`struct regmap` of a chip on a bus, with registers and values of eight bits. A
`Bus` is what a driver cannot know: whether a transaction goes through, and
whether a failed one has arrived at the chip all the same; and which registers
the chip does not let anybody write.

With a cache, a read that finds its register there makes no transaction, a
write goes to the cache and the chip, and a write that fails takes the register
and the next one out of the cache. `regcache_cache_only` keeps everything from
the bus; `regcache_sync` writes the cached registers out, if they are marked
dirty.

A driver is a computation that ends with a value or a negative error number.
-/

namespace KernelSpace.Kernel

open KernelSpace.Lib

abbrev Byte := BitVec 8

/-- What becomes of a transaction. -/
inductive BusReply where
  | done
  | failed (err : Int) (neg : err < 0) (arrived : Bool)

/-- A transaction is known by its number. -/
structure Bus where
  reply : Nat → BusReply
  readOnly : Nat → Bool

/-- What a driver says of its registers. -/
structure RegmapConfig where
  maxRegister : Nat
  /-- There is a cache. -/
  cacheType : Bool

/-- A line of the log: a format and its arguments. -/
structure Line where
  format : String
  args : List Int
deriving DecidableEq

/-- The chip, its register map and the log. -/
structure Device where
  regs : Nat → Byte
  transactions : Nat
  cache : Nat → Option Byte
  cacheOnly : Bool
  cacheDirty : Bool
  dmesg : List Line

abbrev Driver := EStateM Int Device

/-! ## The log and the bus -/

def devInfo (format : String) (args : List Int) : Driver Unit :=
  modify fun d => { d with dmesg := d.dmesg ++ [⟨format, args⟩] }

/-- `if (ret) { dev_err(...); return ret; }`. -/
def orReport {α : Type} (x : Driver α) (format : String) : Driver α :=
  tryCatch x fun ret => do
    devInfo format []
    throw ret

section

variable (bus : Bus)

/-- What a write makes of the chip. -/
def Bus.store (regs : Nat → Byte) (reg : Nat) (val : Byte) : Nat → Byte :=
  if bus.readOnly reg then regs else Function.update regs reg val

def Bus.read (reg : Nat) : Driver Byte := fun d =>
  let d' := { d with transactions := d.transactions + 1 }
  match bus.reply d.transactions with
  | .done => .ok (d.regs reg) d'
  | .failed err _ _ => .error err d'

def Bus.write (reg : Nat) (val : Byte) : Driver Unit := fun d =>
  let d' := { d with transactions := d.transactions + 1 }
  match bus.reply d.transactions with
  | .done => .ok () { d' with regs := bus.store d.regs reg val }
  | .failed err _ arrived =>
    .error err { d' with regs := if arrived then bus.store d.regs reg val else d.regs }

/-! ## The register map -/

variable (config : RegmapConfig)

/-- `regcache_write`. -/
def RegmapConfig.fill (reg : Nat) (val : Byte) (d : Device) : Device :=
  { d with cache := if config.cacheType then Function.update d.cache reg (some val) else d.cache }

/-- The cache loses what a failed write may have spoilt. -/
def Device.drop (reg : Nat) (d : Device) : Device :=
  { d with cache := fun r => if r = reg ∨ r = reg + 1 then none else d.cache r }

def regmapRead (reg : Nat) : Driver Byte := fun d =>
  match d.cache reg with
  | some val => .ok val d
  | none =>
    if d.cacheOnly then .error (-EBUSY) d
    else if config.maxRegister < reg then .error (- EIO) d
    else
      match bus.read reg d with
      | .ok val d' => .ok val (config.fill reg val d')
      | .error err d' => .error err d'

def regmapWrite (reg : Nat) (val : Byte) : Driver Unit := fun d =>
  if config.maxRegister < reg then .error (- EIO) d
  else
    let d' := config.fill reg val d
    if d.cacheOnly then .ok () { d' with cacheDirty := true }
    else
      match bus.write reg val d' with
      | .ok () d'' => .ok () d''
      | .error err d'' => .error err (d''.drop reg)

/-- The value is written where it differs from the one that is read. -/
def regmapUpdateBits (reg : Nat) (mask val : Byte) : Driver Unit := do
  let orig ← regmapRead bus config reg
  let tmp := orig &&& ~~~mask ||| val &&& mask
  if tmp == orig then pure () else regmapWrite bus config reg tmp

def regcacheCacheOnly (enable : Bool) : Driver Unit :=
  modify fun d => { d with cacheOnly := enable }

def regcacheMarkDirty : Driver Unit := modify fun d => { d with cacheDirty := true }

/-- The cached ones of some registers are written to the chip. -/
def syncRegisters : List Nat → Driver Unit
  | [] => pure ()
  | reg :: regs => fun d =>
    match d.cache reg with
    | none => syncRegisters regs d
    | some val =>
      match bus.write reg val d with
      | .ok () d' => syncRegisters regs d'
      | .error err d' => .error err d'

def regcacheSync : Driver Unit := fun d =>
  if d.cacheDirty then
    match syncRegisters bus (List.range (config.maxRegister + 1)) d with
    | .ok () d' => .ok () { d' with cacheDirty := false }
    | .error err d' => .error err d'
  else .ok () d

end

/-! ## What a call does -/

variable {bus : Bus} {config : RegmapConfig} {d d' : Device} {reg : Nat} {val : Byte}

@[simp] theorem devInfo_run (format : String) (args : List Int) :
    (devInfo format args).run d = .ok () { d with dmesg := d.dmesg ++ [⟨format, args⟩] } := rfl

/-- A report changes no result, and nothing but the log. -/
theorem orReport_run {α : Type} (x : Driver α) (format : String) :
    (orReport x format).run d =
      match x.run d with
      | .ok a d' => .ok a d'
      | .error err d' => .error err { d' with dmesg := d'.dmesg ++ [⟨format, []⟩] } := by
  simp only [orReport, EStateM.run, tryCatch, tryCatchThe, MonadExceptOf.tryCatch]
  delta EStateM.tryCatch
  dsimp only
  cases x d <;> rfl

theorem orReport_ok {α : Type} {x : Driver α} {format : String} {a : α}
    (h : (orReport x format).run d = .ok a d') : x.run d = .ok a d' := by
  rw [orReport_run] at h
  cases hrun : x.run d with
  | ok b d'' =>
    rw [hrun] at h
    exact h
  | error err d'' =>
    rw [hrun] at h
    cases h

theorem Bus.store_apply (r : Nat) :
    bus.store d.regs reg val r =
      if r = reg ∧ bus.readOnly reg = false then val else d.regs r := by
  unfold Bus.store
  by_cases hr : r = reg
  · subst hr
    cases bus.readOnly r <;> simp
  · cases bus.readOnly reg <;> simp [hr]

theorem Bus.read_eq (bus : Bus) (reg : Nat) (d : Device) :
    (∃ err < 0, bus.read reg d = .error err { d with transactions := d.transactions + 1 }) ∨
      bus.read reg d = .ok (d.regs reg) { d with transactions := d.transactions + 1 } := by
  unfold Bus.read
  cases bus.reply d.transactions with
  | done => exact .inr rfl
  | failed err neg arrived => exact .inl ⟨err, neg, rfl⟩

theorem Bus.write_eq (bus : Bus) (reg : Nat) (val : Byte) (d : Device) :
    (∃ err < 0, ∃ arrived : Bool, bus.write reg val d = .error err { d with
      transactions := d.transactions + 1,
      regs := if arrived then bus.store d.regs reg val else d.regs }) ∨
    bus.write reg val d = .ok () { d with
      transactions := d.transactions + 1, regs := bus.store d.regs reg val } := by
  unfold Bus.write
  cases bus.reply d.transactions with
  | done => exact .inr rfl
  | failed err neg arrived => exact .inl ⟨err, neg, arrived, rfl⟩

theorem regmapRead_cached (h : d.cache reg = some val) :
    regmapRead bus config reg d = .ok val d := by
  rw [regmapRead, h]

/-- A read that does not find its register in the cache. -/
theorem regmapRead_uncached (bus : Bus) (config : RegmapConfig) (h : d.cache reg = none) :
    (∃ err < 0, ∃ n ≤ d.transactions + 1, (d.cacheOnly = true → n = d.transactions) ∧
      regmapRead bus config reg d = .error err { d with transactions := n }) ∨
    d.cacheOnly = false ∧ reg ≤ config.maxRegister ∧
      regmapRead bus config reg d = .ok (d.regs reg)
        (config.fill reg (d.regs reg) { d with transactions := d.transactions + 1 }) := by
  have hread : regmapRead bus config reg d =
      if d.cacheOnly then .error (-EBUSY) d
      else if config.maxRegister < reg then .error (- EIO) d
      else
        match bus.read reg d with
        | .ok val d' => .ok val (config.fill reg val d')
        | .error err d' => .error err d' := by
    rw [regmapRead, h]
  by_cases hoff : d.cacheOnly = true
  · rw [if_pos hoff] at hread
    exact .inl ⟨-EBUSY, by decide, d.transactions, Nat.le_succ _, fun _ => rfl, hread⟩
  · rw [if_neg hoff] at hread
    by_cases hmax : config.maxRegister < reg
    · rw [if_pos hmax] at hread
      exact .inl ⟨- EIO, by decide, d.transactions, Nat.le_succ _, fun _ => rfl, hread⟩
    · rw [if_neg hmax] at hread
      rcases Bus.read_eq bus reg d with ⟨err, hneg, heq⟩ | heq
      · rw [heq] at hread
        exact .inl ⟨err, hneg, d.transactions + 1, Nat.le_refl _, fun hon => absurd hon hoff, hread⟩
      · rw [heq] at hread
        exact .inr ⟨by simpa using hoff, Nat.not_lt.mp hmax, hread⟩

theorem regmapWrite_eq (bus : Bus) (config : RegmapConfig) (reg : Nat) (val : Byte) (d : Device) :
    (config.maxRegister < reg ∧ regmapWrite bus config reg val d = .error (- EIO) d) ∨
    (reg ≤ config.maxRegister ∧ d.cacheOnly = true ∧ regmapWrite bus config reg val d =
      .ok () { config.fill reg val d with cacheDirty := true }) ∨
    reg ≤ config.maxRegister ∧ d.cacheOnly = false ∧
      ((∃ err < 0, ∃ arrived : Bool, regmapWrite bus config reg val d =
        .error err (Device.drop reg { config.fill reg val d with
          transactions := d.transactions + 1,
          regs := if arrived then bus.store d.regs reg val else d.regs })) ∨
      regmapWrite bus config reg val d = .ok () { config.fill reg val d with
        transactions := d.transactions + 1, regs := bus.store d.regs reg val }) := by
  unfold regmapWrite
  by_cases hmax : config.maxRegister < reg
  · exact .inl ⟨hmax, if_pos hmax⟩
  · rw [if_neg hmax]
    have hle := Nat.not_lt.mp hmax
    by_cases hoff : d.cacheOnly = true
    · exact .inr (.inl ⟨hle, hoff, if_pos hoff⟩)
    · refine .inr (.inr ⟨hle, by simpa using hoff, ?_⟩)
      rw [if_neg hoff]
      rcases Bus.write_eq bus reg val (config.fill reg val d) with
        ⟨err, hneg, arrived, heq⟩ | heq
      · rw [heq]
        exact .inl ⟨err, hneg, arrived, rfl⟩
      · rw [heq]
        exact .inr rfl

/-! ## What a call that has gone through did -/

theorem read_hit {format : String} {w : Byte}
    (h : (orReport (regmapRead bus config reg) format).run d = .ok val d')
    (hcache : d.cache reg = some w) : val = w ∧ d' = d := by
  have hread : (regmapRead bus config reg).run d = .ok val d' := orReport_ok h
  cases (regmapRead_cached hcache).symm.trans hread
  exact ⟨rfl, rfl⟩

theorem read_miss {format : String}
    (h : (orReport (regmapRead bus config reg) format).run d = .ok val d')
    (hcache : d.cache reg = none) :
    val = d.regs reg ∧
      d' = config.fill reg (d.regs reg) { d with transactions := d.transactions + 1 } := by
  have hread : (regmapRead bus config reg).run d = .ok val d' := orReport_ok h
  rcases regmapRead_uncached bus config hcache with ⟨err, -, n, -, -, heq⟩ | ⟨-, -, heq⟩ <;>
    cases heq.symm.trans hread
  exact ⟨rfl, rfl⟩

theorem write_through {format : String}
    (h : (orReport (regmapWrite bus config reg val) format).run d = .ok () d')
    (honly : d.cacheOnly = false) :
    d' = { config.fill reg val d with
      transactions := d.transactions + 1, regs := bus.store d.regs reg val } := by
  have hwrite : (regmapWrite bus config reg val).run d = .ok () d' := orReport_ok h
  rcases regmapWrite_eq bus config reg val d with
    ⟨-, heq⟩ | ⟨-, hon, -⟩ | ⟨-, -, ⟨err, -, arrived, heq⟩ | heq⟩
  · cases heq.symm.trans hwrite
  · rw [honly] at hon
    cases hon
  · cases heq.symm.trans hwrite
  · cases heq.symm.trans hwrite
    rfl

/-! ## The synchronisation -/

/-- A register of the chip is as it was, or as the cache has it. -/
def Device.Mixed (d : Device) (now : Nat → Byte) : Prop :=
  ∀ r, now r = d.regs r ∨ d.cache r = some (now r)

theorem mixed_store (bus : Bus) {d : Device} (h : d.cache reg = some val) :
    d.Mixed (bus.store d.regs reg val) := by
  intro r
  rw [Bus.store_apply]
  split
  · rename_i hr
    exact .inr (hr.1 ▸ h)
  · exact .inl rfl

theorem store_readOnly {regs : Nat → Byte} {r : Nat} (h : bus.readOnly r = true) :
    bus.store regs reg val r = regs r := by
  unfold Bus.store
  by_cases hr : r = reg
  · subst hr
    rw [if_pos h]
  · split
    · rfl
    · exact Function.update_of_ne hr ..

/-- What is written back is the cache: in part, or all of it, but for what the chip
keeps to itself. -/
theorem syncRegisters_spec (regs : List Nat) :
    ∀ d : Device, ∃ n now, d.Mixed now ∧
      (∀ r, bus.readOnly r = true → now r = d.regs r) ∧
      ((∃ err < 0,
          syncRegisters bus regs d = .error err { d with transactions := n, regs := now }) ∨
        syncRegisters bus regs d = .ok () { d with transactions := n, regs := now } ∧
          ∀ r ∈ regs, ∀ v, bus.readOnly r = false → d.cache r = some v → now r = v) := by
  induction regs with
  | nil =>
    intro d
    exact ⟨d.transactions, d.regs, fun _ => .inl rfl, fun _ _ => rfl, .inr ⟨rfl, by simp⟩⟩
  | cons reg regs ih =>
    intro d
    cases hcache : d.cache reg with
    | none =>
      have hskip : syncRegisters bus (reg :: regs) d = syncRegisters bus regs d := by
        simp only [syncRegisters, hcache]
      obtain ⟨n, now, hmixed, hkept, hend⟩ := ih d
      rw [hskip]
      refine ⟨n, now, hmixed, hkept, hend.imp_right fun hok => ⟨hok.1, fun r hr v hro hv => ?_⟩⟩
      rcases List.mem_cons.mp hr with rfl | hr
      · rw [hcache] at hv
        cases hv
      · exact hok.2 r hr v hro hv
    | some val =>
      have hstep : syncRegisters bus (reg :: regs) d =
          match bus.write reg val d with
          | .ok () d' => syncRegisters bus regs d'
          | .error err d' => .error err d' := by
        simp only [syncRegisters, hcache]
      rcases Bus.write_eq bus reg val d with ⟨err, hneg, arrived, heq⟩ | heq
      · rw [heq] at hstep
        refine ⟨_, _, ?_, ?_, .inl ⟨err, hneg, hstep⟩⟩
        · cases arrived with
          | false => exact fun _ => .inl rfl
          | true => exact mixed_store bus hcache
        · intro r hr
          cases arrived with
          | false => rfl
          | true => exact store_readOnly hr
      · rw [heq] at hstep
        dsimp only at hstep
        obtain ⟨n, now, hmixed, hkept, hend⟩ := ih
          { d with transactions := d.transactions + 1, regs := bus.store d.regs reg val }
        have hmixed : ∀ r, now r = bus.store d.regs reg val r ∨ d.cache r = some (now r) := hmixed
        rw [hstep]
        refine ⟨n, now, fun r => ?_, fun r hr => (hkept r hr).trans (store_readOnly hr),
          hend.imp_right fun hok => ⟨hok.1, fun r hr v hro hv => ?_⟩⟩
        · rcases hmixed r with hnow | hnow
          · rcases mixed_store bus hcache r with hold | hold
            · exact .inl (hnow.trans hold)
            · exact .inr (by rw [hnow]; exact hold)
          · exact .inr hnow
        · rcases List.mem_cons.mp hr with rfl | hr
          · rw [hcache] at hv
            cases hv
            rcases hmixed r with hnow | hnow
            · rw [hnow, Bus.store_apply, if_pos ⟨rfl, hro⟩]
            · rw [hcache] at hnow
              exact (Option.some.inj hnow).symm
          · exact hok.2 r hr v hro hv

end KernelSpace.Kernel
