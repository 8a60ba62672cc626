import KernelSpace.Lib.Machine
import KernelSpace.Regmap.Probe

/-!
# Regmap — a cache over a chip that loses power (26g)

`26g.regcache_ex/regcache_ex.c`: a cached register map for an MPU, `mpu_suspend`
and `mpu_resume`. A step is one of

* `probe`, `remove` — `mpu9250_probe`, whose `devm_kzalloc` and whose
  `devm_regmap_init_i2c` may fail, and the end of the register map;
* `read`, `write` — normal operation: any access through the register map;
* `suspend`, `powerLoss`, `resume` — the chip may lose all it was told between
  the two.

`LastSeen` is what the driver has read from a register or written to it last, told
from the answers of its calls. `regcache_remembers` is that the register map gives
just that, and that a chip which was brought back has it.
-/

namespace KernelSpace.Regmap

open KernelSpace.Kernel KernelSpace.Lib

namespace Regcache

def mpuRegmapConfig : RegmapConfig := ⟨0x7F, true⟩

section

variable (bus : Bus)

def mpuSuspend : Driver Unit := regcacheCacheOnly true

def mpuResume : Driver Unit := do
  regcacheCacheOnly false
  regcacheMarkDirty
  regcacheSync bus mpuRegmapConfig

/-! ## The life of the device -/

inductive Phase where
  | unbound
  | running
  | suspended
deriving DecidableEq

structure State where
  phase : Phase
  dev : Device
  /-- What the last `probe` or `resume` has returned, as long as nothing has
  been suspended since. -/
  ret : Option Int

inductive Event where
  | probe (allocated : Bool) (regmap : Ptr)
  | read (reg : Nat)
  | write (reg : Nat) (val : Byte)
  | suspend
  | powerLoss (lost : Nat → Byte)
  | resume
  | remove

/-- A register map that has just been made. -/
def fresh (d : Device) : Device :=
  { d with cache := fun _ => none, cacheOnly := false, cacheDirty := false }

def step (s : State) : Event → Option State
  | .probe allocated regmap =>
    if s.phase = .unbound then
      match probe (setUp bus mpuRegmapConfig) allocated regmap (fresh s.dev) with
      | .ok () dev => some ⟨.running, dev, some 0⟩
      | .error err dev => some { s with dev := fresh dev, ret := some err }
    else none
  | .read reg =>
    if s.phase = .unbound then none
    else
      match regmapRead bus mpuRegmapConfig reg s.dev with
      | .ok _ dev => some { s with dev }
      | .error _ dev => some { s with dev }
  | .write reg val =>
    if s.phase = .unbound then none
    else
      match regmapWrite bus mpuRegmapConfig reg val s.dev with
      | .ok () dev => some { s with dev }
      | .error _ dev => some { s with dev }
  | .suspend =>
    if s.phase = .running then
      match mpuSuspend s.dev with
      | .ok () dev | .error _ dev => some { s with phase := .suspended, dev, ret := none }
    else none
  | .powerLoss lost =>
    if s.phase = .suspended then
      let regs := fun r => if bus.readOnly r then s.dev.regs r else lost r
      some { s with dev := { s.dev with regs } }
    else none
  | .resume =>
    if s.phase = .suspended then
      match mpuResume bus s.dev with
      | .ok () dev => some { s with phase := .running, dev, ret := some 0 }
      | .error err dev => some { s with phase := .running, dev, ret := some err }
    else none
  | .remove =>
    if s.phase = .running then
      some { s with phase := .unbound, dev := fresh s.dev }
    else none

def system (regs : Nat → Byte) : Machine State Event :=
  ⟨⟨.unbound, ⟨regs, 0, fun _ => none, false, false, []⟩, none⟩, step bus⟩

/-! ## What the driver has seen -/

/-- A step has the driver read `v` from a register, or write it there. -/
def Gives (r : Nat) (v : Byte) (s : State) : Event → Prop
  | .probe allocated regmap =>
    (∃ dev, probe (setUp bus mpuRegmapConfig) allocated regmap (fresh s.dev) = .ok () dev) ∧
      (r = MPU_WHO_AM_I ∧ v = s.dev.regs MPU_WHO_AM_I ∨ r = MPU_PWR_MGMT1 ∧ v = 0x01)
  | .read reg => reg = r ∧ ∃ dev, regmapRead bus mpuRegmapConfig reg s.dev = .ok v dev
  | .write reg val =>
    (reg = r ∧ val = v) ∧ ∃ dev, regmapWrite bus mpuRegmapConfig reg val s.dev = .ok () dev
  | _ => False

/-- A step leaves what was seen of a register as it is. A write that fails spoils the
next register as well. -/
def Keeps (r : Nat) (s : State) : Event → Prop
  | .probe _ _ | .remove => False
  | .write reg val =>
    reg ≠ r ∧
      (reg + 1 = r → ∃ dev, regmapWrite bus mpuRegmapConfig reg val s.dev = .ok () dev)
  | _ => True

/-- What the driver has seen last of a register, in the run of `es`. -/
def LastSeen (regs : Nat → Byte) (es : List Event) (r : Nat) (v : Byte) : Prop :=
  (system bus regs).Since (Gives bus r v) (Keeps bus r) (system bus regs).init es

end

/-- The driver writes to a register. -/
def Event.Writes (r : Nat) : Event → Prop
  | probe _ _ => r = MPU_PWR_MGMT1
  | write reg _ => reg = r
  | _ => False

variable {bus : Bus} {regs regs' : Nat → Byte} {cache cache' : Nat → Option Byte}
  {clean clean' : Prop} {reg r : Nat} {val v : Byte}

/-! ## What an access keeps -/

/-- The part of a cache that can be written back. -/
def writable (bus : Bus) (cache : Nat → Option Byte) : Nat → Option Byte :=
  fun r => if bus.readOnly r then none else cache r

theorem writable_eq_some :
    writable bus cache r = some v ↔ bus.readOnly r = false ∧ cache r = some v := by
  unfold writable
  cases bus.readOnly r <;> simp

theorem writable_update : writable bus (Function.update cache reg (some val)) =
    if bus.readOnly reg then writable bus cache
    else Function.update (writable bus cache) reg (some val) := by
  funext r
  unfold writable
  by_cases hr : r = reg
  · subst hr
    cases hro : bus.readOnly r <;> simp [hro]
  · cases bus.readOnly reg <;> simp [hr]

/-- The cache has registers of the chip, and where it is `clean` it has those that
can be written as they are. -/
structure Sound (bus : Bus) (regs : Nat → Byte) (cache : Nat → Option Byte) (clean : Prop) :
    Prop where
  bounded : ∀ r v, cache r = some v → r ≤ mpuRegmapConfig.maxRegister
  agrees : clean → Shadow.Agrees regs (writable bus cache)

theorem sound_empty : Sound bus regs (fun _ => none) clean :=
  ⟨nofun, fun _ r v hv => by simp [writable] at hv⟩

theorem bounded_update (h : ∀ r v, cache r = some v → r ≤ mpuRegmapConfig.maxRegister)
    (hreg : reg ≤ mpuRegmapConfig.maxRegister) :
    ∀ r v, Function.update cache reg (some val) r = some v →
      r ≤ mpuRegmapConfig.maxRegister := by
  intro r v hv
  rcases Shadow.update_eq_some_iff.mp hv with ⟨rfl, -⟩ | ⟨-, hv⟩
  · exact hreg
  · exact h r v hv

theorem Sound.read (h : Sound bus regs cache clean) (hreg : reg ≤ mpuRegmapConfig.maxRegister) :
    Sound bus regs (Function.update cache reg (some (regs reg))) clean where
  bounded := bounded_update h.bounded hreg
  agrees hclean := by
    rw [writable_update]
    split
    · exact h.agrees hclean
    · exact (h.agrees hclean).read reg

/-- A write that has gone through, or that waits in the cache. -/
theorem Sound.write (h : Sound bus regs cache clean) (hreg : reg ≤ mpuRegmapConfig.maxRegister)
    (hclean : clean' → clean ∧ regs' = bus.store regs reg val) :
    Sound bus regs' (Function.update cache reg (some val)) clean' where
  bounded := bounded_update h.bounded hreg
  agrees hc := by
    obtain ⟨hclean', rfl⟩ := hclean hc
    rw [writable_update, Bus.store]
    split
    · exact h.agrees hclean'
    · exact (h.agrees hclean').write reg val

/-- The cache has lost entries, and the chip has changed at most there. -/
theorem Sound.lose (h : Sound bus regs cache clean)
    (hcache : ∀ r v, cache' r = some v → cache r = some v)
    (hclean : clean' → clean ∧ ∀ r v, cache' r = some v → regs' r = regs r) :
    Sound bus regs' cache' clean' where
  bounded r v hv := h.bounded r v (hcache r v hv)
  agrees hc := (h.agrees (hclean hc).1).mono fun r v hv => by
    obtain ⟨hro, hv⟩ := writable_eq_some.mp hv
    exact ⟨writable_eq_some.mpr ⟨hro, hcache r v hv⟩, (hclean hc).2 r v hv⟩

/-- What is known of the chip when neither `regcache_cache_only` nor a dirty
cache stands between. -/
def Clean (d : Device) : Prop := d.cacheOnly = false ∧ d.cacheDirty = false

/-! ## The probe -/

/-- What a `probe` leaves in the cache. -/
def probed (whoAmI : Byte) : Nat → Option Byte :=
  Function.update (Function.update (fun _ => none) MPU_WHO_AM_I (some whoAmI)) MPU_PWR_MGMT1
    (some 0x01)

theorem probed_eq_some {whoAmI : Byte} : probed whoAmI r = some v ↔
    r = MPU_WHO_AM_I ∧ v = whoAmI ∨ r = MPU_PWR_MGMT1 ∧ v = 0x01 := by
  unfold probed
  by_cases hpwr : r = MPU_PWR_MGMT1
  · subst hpwr
    simp [MPU_WHO_AM_I, MPU_PWR_MGMT1, eq_comm]
  · by_cases hwho : r = MPU_WHO_AM_I
    · subst hwho
      simp [MPU_WHO_AM_I, MPU_PWR_MGMT1, eq_comm]
    · simp [hpwr, hwho]

variable {d d' : Device}

/-- A `probe` that ends well has read both registers and written one; the last
read finds its value in the cache. -/
theorem setUp_ok (h : (setUp bus mpuRegmapConfig).run d = .ok () d')
    (hcache : d.cache = fun _ => none) (honly : d.cacheOnly = false) :
    d'.regs = bus.store d.regs MPU_PWR_MGMT1 0x01 ∧
      d'.cache = Function.update (Function.update (fun _ => none) MPU_WHO_AM_I
        (some (d.regs MPU_WHO_AM_I))) MPU_PWR_MGMT1 (some 0x01) ∧
      d'.cacheOnly = false ∧ d'.cacheDirty = d.cacheDirty ∧
      d'.transactions = d.transactions + 3 := by
  obtain ⟨⟨⟩, d₀, hidentify, h⟩ := bind_ok h
  obtain ⟨val, d₁, hwho, hidentify⟩ := bind_ok hidentify
  obtain ⟨rfl, rfl⟩ := read_miss hwho (by rw [hcache])
  obtain ⟨⟨⟩, d₂, hinfo, hidentify⟩ := bind_ok hidentify
  cases hinfo
  split at hidentify
  · obtain ⟨⟨⟩, d₃, -, hthrow⟩ := bind_ok hidentify
    cases hthrow
  cases hidentify
  obtain ⟨val, d₃, hpwr, h⟩ := bind_ok h
  obtain ⟨rfl, rfl⟩ := read_miss hpwr (by
    simp [RegmapConfig.fill, mpuRegmapConfig, hcache, MPU_WHO_AM_I, MPU_PWR_MGMT1])
  obtain ⟨⟨⟩, d₄, hinfo, h⟩ := bind_ok h
  cases hinfo
  obtain ⟨⟨⟩, d₅, hwrite, h⟩ := bind_ok h
  obtain rfl := write_through hwrite honly
  obtain ⟨val, d₆, hverify, h⟩ := bind_ok h
  -- the register is cached by now
  obtain ⟨rfl, rfl⟩ := read_hit (w := 0x01) hverify (by
    simp [RegmapConfig.fill, mpuRegmapConfig])
  obtain ⟨⟨⟩, d₇, hinfo, h⟩ := bind_ok h
  cases hinfo
  cases h
  refine ⟨rfl, ?_, honly, rfl, rfl⟩
  simp [RegmapConfig.fill, mpuRegmapConfig, hcache]

theorem probe_ok {allocated : Bool} {regmap : Ptr}
    (h : (probe (setUp bus mpuRegmapConfig) allocated regmap) d = .ok () d')
    (hcache : d.cache = fun _ => none) (honly : d.cacheOnly = false) :
    d'.regs = bus.store d.regs MPU_PWR_MGMT1 0x01 ∧ d'.cache = probed (d.regs MPU_WHO_AM_I) ∧
      d'.cacheOnly = false ∧ d'.cacheDirty = d.cacheDirty ∧
      d'.transactions = d.transactions + 3 := by
  obtain ⟨⟨⟩, d₁, hinfo, h⟩ := bind_ok h
  cases hinfo
  split at h
  · cases h
  split at h
  · obtain ⟨⟨⟩, d₂, -, hthrow⟩ := bind_ok h
    cases hthrow
  have hset := setUp_ok h hcache honly
  exact hset

theorem resume_spec (bus : Bus) (d : Device) :
    ∃ n now, (∀ r, bus.readOnly r = true → now r = d.regs r) ∧
      ((∃ err < 0, mpuResume bus d = .error err { d with
        transactions := n, regs := now, cacheOnly := false, cacheDirty := true }) ∨
      mpuResume bus d = .ok () { d with
        transactions := n, regs := now, cacheOnly := false, cacheDirty := false } ∧
        ∀ r ≤ mpuRegmapConfig.maxRegister, ∀ v, bus.readOnly r = false → d.cache r = some v →
          now r = v) := by
  have hresume : mpuResume bus d =
      match syncRegisters bus (List.range (mpuRegmapConfig.maxRegister + 1))
        { d with cacheOnly := false, cacheDirty := true } with
      | .ok () d' => .ok () { d' with cacheDirty := false }
      | .error err d' => .error err d' := rfl
  obtain ⟨n, now, -, hkept, hend⟩ := @syncRegisters_spec bus
    (List.range (mpuRegmapConfig.maxRegister + 1))
    { d with cacheOnly := false, cacheDirty := true }
  rw [hresume]
  refine ⟨n, now, hkept, ?_⟩
  rcases hend with ⟨err, hneg, heq⟩ | ⟨heq, hall⟩
  · rw [heq]
    exact .inl ⟨err, hneg, rfl⟩
  · rw [heq]
    exact .inr ⟨rfl, fun r hr => hall r (List.mem_range.mpr (Nat.lt_succ_of_le hr))⟩

/-! ## What a step does -/

variable {s s' : State}

/-- A read goes through, or it leaves the device as it was but for its transactions. -/
theorem read_cases (hs : step bus s (.read reg) = some s') :
    s.phase ≠ .unbound ∧
    ((∃ n ≤ s.dev.transactions + 1, (s.dev.cacheOnly = true → n = s.dev.transactions) ∧
        s' = { s with dev := { s.dev with transactions := n } } ∧
        ∀ v, (∃ dev, regmapRead bus mpuRegmapConfig reg s.dev = .ok v dev) ↔
          s.dev.cache reg = some v) ∨
      s.dev.cacheOnly = false ∧ s.dev.cache reg = none ∧ reg ≤ mpuRegmapConfig.maxRegister ∧
        s' = { s with dev := { s.dev with
          transactions := s.dev.transactions + 1
          cache := Function.update s.dev.cache reg (some (s.dev.regs reg)) } } ∧
        ∀ v, (∃ dev, regmapRead bus mpuRegmapConfig reg s.dev = .ok v dev) ↔
          v = s.dev.regs reg) := by
  obtain ⟨hphase, hs⟩ := Option.ite_none_left_eq_some.mp hs
  refine ⟨hphase, ?_⟩
  cases hcache : s.dev.cache reg with
  | some val =>
    rw [regmapRead_cached hcache] at hs ⊢
    cases hs
    exact .inl ⟨s.dev.transactions, Nat.le_succ _, fun _ => rfl, rfl, fun v => by simp⟩
  | none =>
    rcases regmapRead_uncached bus mpuRegmapConfig hcache with
      ⟨err, -, n, hn, honly, heq⟩ | ⟨hoff, hmax, heq⟩
    · rw [heq] at hs ⊢
      cases hs
      exact .inl ⟨n, hn, honly, rfl, fun v => by simp⟩
    · rw [heq] at hs ⊢
      cases hs
      exact .inr ⟨hoff, rfl, hmax, rfl, fun v => by simp [eq_comm]⟩

/-- What a failed write leaves of what is known: neither the register nor the
next one. -/
def dropped (reg : Nat) (cache : Nat → Option Byte) : Nat → Option Byte :=
  fun r => if r = reg ∨ r = reg + 1 then none else cache r

theorem dropped_update :
    dropped reg (Function.update cache reg (some val)) = dropped reg cache := by
  funext r
  unfold dropped
  by_cases hr : r = reg <;> simp [hr]

theorem dropped_eq_some :
    dropped reg cache r = some v ↔ (reg ≠ r ∧ reg + 1 ≠ r) ∧ cache r = some v := by
  unfold dropped
  by_cases h : r = reg ∨ r = reg + 1
  · rw [if_pos h]
    exact ⟨nofun, fun hv => by omega⟩
  · rw [if_neg h]
    exact ⟨fun hv => ⟨by omega, hv⟩, And.right⟩

/-- A write is refused, waits in the cache, fails or goes through. -/
theorem write_cases (hs : step bus s (.write reg val) = some s') :
    s.phase ≠ .unbound ∧
    (mpuRegmapConfig.maxRegister < reg ∧ s' = s ∧
        (¬ ∃ dev, regmapWrite bus mpuRegmapConfig reg val s.dev = .ok () dev) ∨
      reg ≤ mpuRegmapConfig.maxRegister ∧ s.dev.cacheOnly = true ∧
        s' = { s with dev := { s.dev with
          cache := Function.update s.dev.cache reg (some val)
          cacheDirty := true } } ∧
        (∃ dev, regmapWrite bus mpuRegmapConfig reg val s.dev = .ok () dev) ∨
      (reg ≤ mpuRegmapConfig.maxRegister ∧ s.dev.cacheOnly = false ∧ ∃ arrived : Bool,
        s' = { s with dev := { s.dev with
          transactions := s.dev.transactions + 1
          regs := if arrived then bus.store s.dev.regs reg val else s.dev.regs
          cache := dropped reg s.dev.cache } } ∧
        ¬ ∃ dev, regmapWrite bus mpuRegmapConfig reg val s.dev = .ok () dev) ∨
      reg ≤ mpuRegmapConfig.maxRegister ∧ s.dev.cacheOnly = false ∧
        s' = { s with dev := { s.dev with
          transactions := s.dev.transactions + 1
          regs := bus.store s.dev.regs reg val
          cache := Function.update s.dev.cache reg (some val) } } ∧
        ∃ dev, regmapWrite bus mpuRegmapConfig reg val s.dev = .ok () dev) := by
  obtain ⟨hphase, hs⟩ := Option.ite_none_left_eq_some.mp hs
  refine ⟨hphase, ?_⟩
  rcases regmapWrite_eq bus mpuRegmapConfig reg val s.dev with
    ⟨hmax, heq⟩ | ⟨hmax, honly, heq⟩ | ⟨hmax, honly, ⟨err, -, arrived, heq⟩ | heq⟩
  · rw [heq] at hs ⊢
    cases hs
    exact .inl ⟨hmax, rfl, by simp⟩
  · rw [heq] at hs ⊢
    cases hs
    exact .inr (.inl ⟨hmax, honly, rfl, _, rfl⟩)
  · rw [heq] at hs ⊢
    cases hs
    refine .inr (.inr (.inl ⟨hmax, honly, arrived, ?_, by simp⟩))
    have hdropped : dropped reg s.dev.cache
        = dropped reg (Function.update s.dev.cache reg (some val)) := dropped_update.symm
    rw [hdropped]
    rfl
  · rw [heq] at hs ⊢
    cases hs
    exact .inr (.inr (.inr ⟨hmax, honly, rfl, _, rfl⟩))

/-- A `probe` has filled the cache, or there is none. -/
theorem probe_cases {allocated : Bool} {regmap : Ptr}
    (hs : step bus s (.probe allocated regmap) = some s') :
    s.phase = .unbound ∧
    (s'.phase = .running ∧ s'.ret = some 0 ∧ s'.dev.cacheDirty = false ∧
        s'.dev.regs = bus.store s.dev.regs MPU_PWR_MGMT1 0x01 ∧
        s'.dev.cache = probed (s.dev.regs MPU_WHO_AM_I) ∧ s'.dev.cacheOnly = false ∧
        (∃ dev, probe (setUp bus mpuRegmapConfig) allocated regmap (fresh s.dev) = .ok () dev) ∨
      s'.phase = .unbound ∧ s'.dev = fresh s'.dev ∧
        ¬ ∃ dev, probe (setUp bus mpuRegmapConfig) allocated regmap (fresh s.dev) =
          .ok () dev) := by
  obtain ⟨hphase, hs⟩ := Option.ite_none_right_eq_some.mp hs
  refine ⟨hphase, ?_⟩
  cases hrun : probe (setUp bus mpuRegmapConfig) allocated regmap (fresh s.dev) with
  | error err dev =>
    rw [hrun] at hs
    cases hs
    exact .inr ⟨hphase, rfl, by simp⟩
  | ok u dev =>
    rw [hrun] at hs
    cases hs
    obtain ⟨hregs, hcache, honly, hdirty, -⟩ := probe_ok hrun rfl rfl
    exact .inl ⟨rfl, rfl, hdirty, hregs, hcache, honly, _, rfl⟩

/-! ## The invariant -/

structure Inv (bus : Bus) (s : State) : Prop where
  sound : Sound bus s.dev.regs s.dev.cache (Clean s.dev)
  cacheOnly : s.dev.cacheOnly = true ↔ s.phase = .suspended
  clean : s.phase = .running → s.ret = some 0 → s.dev.cacheDirty = false

theorem inv_init : Inv bus (system bus regs).init :=
  ⟨sound_empty, by simp [system], nofun⟩

theorem inv_probe {allocated : Bool} {regmap : Ptr}
    (hs : step bus s (.probe allocated regmap) = some s') : Inv bus s' := by
  obtain ⟨-, ⟨hphase, -, hdirty, hregs, hcache, honly, -⟩ | ⟨hphase, hdev, -⟩⟩ := probe_cases hs
  · refine ⟨?_, by simp [honly, hphase], fun _ _ => hdirty⟩
    rw [hregs, hcache]
    have hwho : Sound bus s.dev.regs (Function.update (fun _ => none) MPU_WHO_AM_I
        (some (s.dev.regs MPU_WHO_AM_I))) True := sound_empty.read (by decide)
    exact hwho.write (by decide) fun _ => ⟨trivial, rfl⟩
  · refine ⟨?_, ?_, fun hrunning => by simp [hphase] at hrunning⟩
    · rw [hdev]
      exact sound_empty
    · rw [hdev, hphase]
      simp [fresh]

theorem inv_read (h : Inv bus s) (hs : step bus s (.read reg) = some s') : Inv bus s' := by
  obtain ⟨-, ⟨n, -, -, rfl, -⟩ | ⟨-, -, hmax, rfl, -⟩⟩ := read_cases hs
  · exact ⟨h.sound, h.cacheOnly, h.clean⟩
  · exact ⟨h.sound.read hmax, h.cacheOnly, h.clean⟩

theorem inv_write (h : Inv bus s) (hs : step bus s (.write reg val) = some s') :
    Inv bus s' := by
  obtain ⟨-, ⟨-, rfl, -⟩ | ⟨hmax, honly, rfl, -⟩ | ⟨-, -, arrived, rfl, -⟩ | ⟨hmax, -, rfl, -⟩⟩ :=
    write_cases hs
  · exact h
  · refine ⟨h.sound.write hmax fun hclean => absurd hclean.2 (by simp), h.cacheOnly,
      fun hrunning => ?_⟩
    rw [h.cacheOnly.mp honly] at hrunning
    cases hrunning
  · refine ⟨h.sound.lose (fun r v hv => (dropped_eq_some.mp hv).2) fun hclean => ⟨hclean, ?_⟩,
      h.cacheOnly, h.clean⟩
    intro r v hv
    cases arrived with
    | false => rfl
    | true =>
      have hne : ¬ (r = reg ∧ bus.readOnly reg = false) :=
        fun hr => (dropped_eq_some.mp hv).1.1 hr.1.symm
      exact (Bus.store_apply r).trans (if_neg hne)
  · exact ⟨h.sound.write hmax fun hclean => ⟨hclean, rfl⟩, h.cacheOnly, h.clean⟩

theorem inv_suspend (h : Inv bus s) (hs : step bus s .suspend = some s') : Inv bus s' := by
  obtain ⟨-, hs⟩ := Option.ite_none_right_eq_some.mp hs
  cases hs
  exact ⟨⟨h.sound.bounded, fun hclean => absurd hclean.1 (by simp)⟩, by simp, nofun⟩

theorem inv_powerLoss {lost : Nat → Byte} (h : Inv bus s)
    (hs : step bus s (.powerLoss lost) = some s') : Inv bus s' := by
  obtain ⟨hphase, hs⟩ := Option.ite_none_right_eq_some.mp hs
  cases hs
  have honly : s.dev.cacheOnly = true := h.cacheOnly.mpr hphase
  refine ⟨h.sound.lose (fun _ _ hv => hv) fun hclean => ?_, h.cacheOnly, h.clean⟩
  rw [hclean.1] at honly
  cases honly

theorem inv_resume (h : Inv bus s) (hs : step bus s .resume = some s') : Inv bus s' := by
  obtain ⟨-, hs⟩ := Option.ite_none_right_eq_some.mp hs
  obtain ⟨n, now, -, ⟨err, hneg, heq⟩ | ⟨heq, hall⟩⟩ := resume_spec bus s.dev
  · rw [heq] at hs
    cases hs
    refine ⟨h.sound.lose (fun _ _ hv => hv) fun hclean => absurd hclean.2 (by simp), by simp,
      fun _ hret => ?_⟩
    have hzero : err = 0 := Option.some.inj hret
    omega
  · rw [heq] at hs
    cases hs
    refine ⟨⟨h.sound.bounded, fun _ r v hv => ?_⟩, by simp, fun _ _ => rfl⟩
    obtain ⟨hro, hv⟩ := writable_eq_some.mp hv
    exact hall r (h.sound.bounded r v hv) v hro hv

theorem inv_step {e : Event} (h : Inv bus s) (hs : step bus s e = some s') : Inv bus s' := by
  cases e with
  | probe allocated regmap => exact inv_probe hs
  | read reg => exact inv_read h hs
  | write reg val => exact inv_write h hs
  | suspend => exact inv_suspend h hs
  | powerLoss lost => exact inv_powerLoss h hs
  | resume => exact inv_resume h hs
  | remove =>
    obtain ⟨-, hs⟩ := Option.ite_none_right_eq_some.mp hs
    cases hs
    exact ⟨sound_empty, by simp [fresh], nofun⟩

/-! ## What was seen, and what is cached -/

theorem resume_cache (hs : step bus s .resume = some s') : s'.dev.cache = s.dev.cache := by
  obtain ⟨-, hs⟩ := Option.ite_none_right_eq_some.mp hs
  obtain ⟨n, now, -, ⟨err, -, heq⟩ | ⟨heq, -⟩⟩ := resume_spec bus s.dev <;>
    · rw [heq] at hs
      cases hs
      rfl

/-- The cache has what a step gives, and what it keeps. -/
theorem cache_step {e : Event} (h : Inv bus s) (hs : step bus s e = some s') :
    s'.dev.cache r = some v ↔ Gives bus r v s e ∨ Keeps bus r s e ∧ s.dev.cache r = some v := by
  cases e with
  | probe allocated regmap =>
    obtain ⟨-, ⟨-, -, -, -, hcache, -, hran⟩ | ⟨-, hdev, hran⟩⟩ := probe_cases hs
    · rw [hcache, probed_eq_some]
      simp [Gives, Keeps, hran]
    · have hnone : s'.dev.cache r = none := by
        rw [hdev]
        rfl
      rw [hnone]
      simp [Gives, Keeps, hran]
  | read reg =>
    obtain ⟨-, ⟨n, -, -, rfl, hread⟩ | ⟨-, hnone, -, rfl, hread⟩⟩ := read_cases hs
    · simp only [Gives, Keeps, hread, true_and]
      exact ⟨.inr, fun hor => hor.elim (fun hg => hg.1 ▸ hg.2) id⟩
    · simp only [Gives, Keeps, hread, true_and]
      by_cases hr : r = reg
      · subst hr
        simp [hnone, eq_comm]
      · simp [hr, Ne.symm hr]
  | write reg val =>
    obtain ⟨-, ⟨hmax, rfl, hw⟩ | ⟨-, -, rfl, hw⟩ | ⟨-, -, arrived, rfl, hw⟩ | ⟨-, -, rfl, hw⟩⟩ :=
      write_cases hs
    · simp only [Gives, Keeps, hw, and_false, false_or, imp_false]
      -- a register that there is not is not cached
      refine ⟨fun hv => ⟨?_, hv⟩, And.right⟩
      have hle := h.sound.bounded r v hv
      omega
    · simp only [Gives, Keeps, hw, and_true, imp_true_iff]
      exact Shadow.update_eq_some_iff
    · simp only [Gives, Keeps, hw, and_false, false_or, imp_false]
      exact dropped_eq_some
    · simp only [Gives, Keeps, hw, and_true, imp_true_iff]
      exact Shadow.update_eq_some_iff
  | suspend =>
    obtain ⟨-, hs⟩ := Option.ite_none_right_eq_some.mp hs
    cases hs
    simp [Gives, Keeps]
  | powerLoss lost =>
    obtain ⟨-, hs⟩ := Option.ite_none_right_eq_some.mp hs
    cases hs
    simp [Gives, Keeps]
  | resume =>
    rw [resume_cache hs]
    simp [Gives, Keeps]
  | remove =>
    obtain ⟨-, hs⟩ := Option.ite_none_right_eq_some.mp hs
    cases hs
    simp [Gives, Keeps, fresh]

/-- **The cache is what was seen.** -/
theorem cache_iff_lastSeen {es : List Event} (hs : (system bus regs).Reaches es s) :
    s.dev.cache r = some v ↔ LastSeen bus regs es r v := by
  have hiff := Machine.iff_since (M := system bus regs) (D := Inv bus)
    (I := fun s => s.dev.cache r = some v) (G := Gives bus r v) (P := Keeps bus r)
    (fun _ _ _ => inv_step) (fun _ _ _ => cache_step) inv_init hs
  simpa [system, LastSeen] using hiff

/-! ## What the chip has -/

/-- A register that the chip keeps to itself and that the driver does not write is
cached as it is. -/
theorem readOnly_step {e : Event} (hro : bus.readOnly r = true) (he : ¬ e.Writes r)
    (h : ∀ v, s.dev.cache r = some v → s.dev.regs r = v) (hs : step bus s e = some s') :
    ∀ v, s'.dev.cache r = some v → s'.dev.regs r = v := by
  intro v hv
  cases e with
  | probe allocated regmap =>
    obtain ⟨-, ⟨-, -, -, hregs, hcache, -⟩ | ⟨-, hdev, -⟩⟩ := probe_cases hs
    · rw [hcache, probed_eq_some] at hv
      rcases hv with ⟨rfl, rfl⟩ | ⟨hpwr, -⟩
      · rw [hregs, store_readOnly hro]
      · exact absurd hpwr he
    · rw [hdev] at hv
      cases hv
  | read reg =>
    obtain ⟨-, ⟨n, -, -, rfl, -⟩ | ⟨-, -, -, rfl, -⟩⟩ := read_cases hs
    · exact h v hv
    · rcases Shadow.update_eq_some_iff.mp hv with ⟨rfl, rfl⟩ | ⟨-, hv⟩
      · rfl
      · exact h v hv
  | write reg val =>
    have hne : r ≠ reg := fun hr => he hr.symm
    obtain ⟨-, ⟨-, rfl, -⟩ | ⟨-, -, rfl, -⟩ | ⟨-, -, arrived, rfl, -⟩ | ⟨-, -, rfl, -⟩⟩ :=
      write_cases hs
    · exact h v hv
    · exact h v ((Function.update_of_ne hne ..).symm.trans hv)
    · have hold := h v (dropped_eq_some.mp hv).2
      cases arrived with
      | false => exact hold
      | true => exact (store_readOnly hro).trans hold
    · exact (store_readOnly hro).trans (h v ((Function.update_of_ne hne ..).symm.trans hv))
  | suspend =>
    obtain ⟨-, hs⟩ := Option.ite_none_right_eq_some.mp hs
    cases hs
    exact h v hv
  | powerLoss lost =>
    obtain ⟨-, hs⟩ := Option.ite_none_right_eq_some.mp hs
    cases hs
    exact (if_pos hro).trans (h v hv)
  | resume =>
    rw [resume_cache hs] at hv
    obtain ⟨-, hs⟩ := Option.ite_none_right_eq_some.mp hs
    obtain ⟨n, now, hkept, ⟨err, -, heq⟩ | ⟨heq, -⟩⟩ := resume_spec bus s.dev <;>
      · rw [heq] at hs
        cases hs
        exact (hkept r hro).trans (h v hv)
  | remove =>
    obtain ⟨-, hs⟩ := Option.ite_none_right_eq_some.mp hs
    cases hs
    cases hv

/-- While the device is suspended nothing but `resume` uses the bus. -/
theorem transactions_of_suspended {e : Event} (h : Inv bus s) (hphase : s.phase = .suspended)
    (he : e ≠ .resume) (hs : step bus s e = some s') :
    s'.dev.transactions = s.dev.transactions := by
  have honly : s.dev.cacheOnly = true := h.cacheOnly.mpr hphase
  cases e with
  | probe | suspend | remove => simp [step, hphase] at hs
  | resume => exact absurd rfl he
  | powerLoss lost =>
    obtain ⟨-, hs⟩ := Option.ite_none_right_eq_some.mp hs
    cases hs
    rfl
  | read reg =>
    obtain ⟨-, ⟨n, -, hn, rfl, -⟩ | ⟨hoff, -⟩⟩ := read_cases hs
    · exact hn honly
    · rw [honly] at hoff
      cases hoff
  | write reg val =>
    obtain ⟨-, ⟨-, rfl, -⟩ | ⟨-, -, rfl, -⟩ | ⟨-, hoff, -⟩ | ⟨-, hoff, -⟩⟩ := write_cases hs
    · rfl
    · rfl
    · rw [honly] at hoff
      cases hoff
    · rw [honly] at hoff
      cases hoff

/-- Only the accesses change what is known. -/
def Event.isAccess : Event → Bool
  | read _ | write _ _ => true
  | _ => false

/-- What the probe has written stays known. -/
theorem known_step {e : Event} (he : e.isAccess = false) (hinv : Inv bus s)
    (h : s.phase ≠ .unbound → s.dev.cache MPU_PWR_MGMT1 = some 0x01)
    (hs : step bus s e = some s') (hphase : s'.phase ≠ .unbound) :
    s'.dev.cache MPU_PWR_MGMT1 = some 0x01 := by
  rw [cache_step hinv hs]
  cases e with
  | read | write => cases he
  | probe allocated regmap =>
    obtain ⟨-, ⟨-, -, -, -, -, -, hran⟩ | ⟨hunbound, -⟩⟩ := probe_cases hs
    · exact .inl ⟨hran, .inr ⟨rfl, rfl⟩⟩
    · exact absurd hunbound hphase
  | suspend =>
    obtain ⟨hrunning, -⟩ := Option.ite_none_right_eq_some.mp hs
    exact .inr ⟨trivial, h (by simp [hrunning])⟩
  | powerLoss | resume =>
    obtain ⟨hsuspended, -⟩ := Option.ite_none_right_eq_some.mp hs
    exact .inr ⟨trivial, h (by simp [hsuspended])⟩
  | remove =>
    obtain ⟨-, hs⟩ := Option.ite_none_right_eq_some.mp hs
    cases hs
    exact absurd rfl hphase

/-- The register map answers without the bus from its cache alone. -/
theorem read_unmoved_iff :
    regmapRead bus mpuRegmapConfig r d = .ok v d ↔ d.cache r = some v := by
  refine ⟨fun hread => ?_, regmapRead_cached⟩
  cases hcache : d.cache r with
  | some w =>
    rw [regmapRead_cached hcache] at hread
    cases hread
    rfl
  | none =>
    rcases regmapRead_uncached bus mpuRegmapConfig hcache with
      ⟨err, -, n, -, -, heq⟩ | ⟨-, -, heq⟩
    · rw [heq] at hread
      cases hread
    · rw [heq] at hread
      injection hread with _ hdev
      have hcount : d.transactions + 1 = d.transactions := congrArg Device.transactions hdev
      omega

/-- **The cached register map.** For every bus, every chip and every run: the register
map gives, without the bus, exactly what the driver has read from a register or written
to it last, whatever the chip has lost meanwhile; behind a `probe` or a `resume` that
returns 0 the chip has all of it, but for what was written to a register that the chip
keeps to itself; while the device is suspended nothing uses the bus; and without
further accesses the chip is out of its sleep behind every `resume` that returns 0. -/
theorem regcache_remembers (bus : Bus) (regs : Nat → Byte) (es : List Event) (s : State)
    (hs : (system bus regs).Reaches es s) :
    (∀ r v, LastSeen bus regs es r v ↔ regmapRead bus mpuRegmapConfig r s.dev = .ok v s.dev) ∧
    (s.phase = .running → s.ret = some 0 →
      (∀ r v, LastSeen bus regs es r v →
        bus.readOnly r = false ∨ (∀ e ∈ es, ¬ e.Writes r) → s.dev.regs r = v) ∧
      (bus.readOnly MPU_PWR_MGMT1 = false → (∀ e ∈ es, e.isAccess = false) →
        s.dev.regs MPU_PWR_MGMT1 = 0x01)) ∧
    (s.phase = .suspended → ∀ e s', e ≠ .resume → step bus s e = some s' →
      s'.dev.transactions = s.dev.transactions) := by
  have hinv : Inv bus s := Machine.Reachable.inv (M := system bus regs) inv_init
    (fun _ _ _ => inv_step) ⟨es, hs⟩
  have hagrees : s.phase = .running → s.ret = some 0 →
      Shadow.Agrees s.dev.regs (writable bus s.dev.cache) := by
    intro hphase hret
    refine hinv.sound.agrees ⟨?_, hinv.clean hphase hret⟩
    cases honly : s.dev.cacheOnly with
    | false => rfl
    | true =>
      rw [hinv.cacheOnly.mp honly] at hphase
      cases hphase
  refine ⟨fun r v => (cache_iff_lastSeen hs).symm.trans read_unmoved_iff.symm,
    fun hphase hret => ⟨fun r v hseen hor => ?_, fun hpwr hes => ?_⟩,
    fun hphase e s' he hstep => transactions_of_suspended hinv hphase he hstep⟩
  · have hcache := (cache_iff_lastSeen hs).mpr hseen
    cases hro : bus.readOnly r with
    | false => exact hagrees hphase hret r v (writable_eq_some.mpr ⟨hro, hcache⟩)
    | true =>
      have hunwritten : ∀ e ∈ es, ¬ e.Writes r := hor.resolve_left (by simp [hro])
      exact Machine.exec_inv (M := system bus regs)
        (I := fun s => ∀ v, s.dev.cache r = some v → s.dev.regs r = v)
        (P := fun _ e => ¬ e.Writes r) (fun s e s' hI he hs => readOnly_step hro he hI hs)
        (fun v hv => by simp [system] at hv) (Machine.along_of_forall _ hunwritten) hs v hcache
  · have hknown := Machine.exec_inv (M := system bus regs)
      (I := fun s => Inv bus s ∧
        (s.phase ≠ .unbound → s.dev.cache MPU_PWR_MGMT1 = some 0x01))
      (P := fun _ e => e.isAccess = false)
      (fun s e s' hI he hs => ⟨inv_step hI.1 hs, known_step he hI.1 hI.2 hs⟩)
      ⟨inv_init, fun hne => absurd rfl hne⟩ (Machine.along_of_forall _ hes) hs
    exact hagrees hphase hret _ _ (writable_eq_some.mpr ⟨hpwr, hknown.2 (by simp [hphase])⟩)

/-- A bus that never fails, a chip that takes what it is told. -/
def plainBus : Bus := ⟨fun _ => .done, fun _ => false⟩

/-- A chip loses what it was told between `suspend` and `resume`, while a write waits in
the cache: behind the `resume` it has both. -/
theorem regcache_remembers_resumed :
    ∃ s, (system plainBus fun _ => 0x70).Reaches
      [.probe true 4096, .suspend, .write 0x19 0x07, .powerLoss fun _ => 0x40, .resume] s ∧
      s.dev.regs MPU_PWR_MGMT1 = 0x01 ∧ s.dev.regs 0x19 = 0x07 := by
  obtain ⟨s, hs, hend⟩ : ∃ s, (system plainBus fun _ => 0x70).Reaches
      [.probe true 4096, .suspend, .write 0x19 0x07, .powerLoss fun _ => 0x40, .resume] s ∧
      (s.phase, s.ret) = (.running, some 0) := Option.map_eq_some_iff.mp (by decide +kernel)
  obtain ⟨hphase, hret⟩ := Prod.mk.inj hend
  have hchip := ((regcache_remembers plainBus (fun _ => 0x70) _ s hs).2.1 hphase hret).1
  have hprobed : LastSeen plainBus (fun _ => 0x70)
      [.probe true 4096, .suspend, .write 0x19 0x07, .powerLoss fun _ => 0x40, .resume]
      MPU_PWR_MGMT1 0x01 :=
    ⟨_, rfl, .inr ⟨⟨⟨_, rfl⟩, .inr ⟨rfl, rfl⟩⟩, trivial, fun _ _ =>
      ⟨⟨by decide, fun hnext => absurd hnext (by decide)⟩, fun _ _ => ⟨trivial, fun _ _ =>
        ⟨trivial, fun _ _ => trivial⟩⟩⟩⟩⟩
  have hwritten : LastSeen plainBus (fun _ => 0x70)
      [.probe true 4096, .suspend, .write 0x19 0x07, .powerLoss fun _ => 0x40, .resume]
      0x19 0x07 :=
    ⟨_, rfl, .inl ⟨_, rfl, .inl ⟨_, rfl, .inr ⟨⟨⟨rfl, rfl⟩, _, rfl⟩, trivial, fun _ _ =>
      ⟨trivial, fun _ _ => trivial⟩⟩⟩⟩⟩
  exact ⟨s, hs, hchip _ _ hprobed (.inl rfl), hchip _ _ hwritten (.inl rfl)⟩

end Regcache

end KernelSpace.Regmap
