import KernelSpace.Kernel.ErrPtr
import KernelSpace.Kernel.Poll
import KernelSpace.Kernel.Regmap

/-!
# Regmap — the probes of an MPU (26a, 26b, 26e, 26g)

`mpu9250_probe` of `26a.regmap_ex/regmap.c` and `26g.regcache_ex/regcache_ex.c`
writes a register and reads it back (`setUp`); that of
`26b.regmap_update_bits/regmap_update_bits.c` and
`26e.regmap_read_poll_timeout/regmap_read_poll_timeout.c` sends the chip to
sleep and wakes it up again (`sleepAndWake`). 26b reads the register once at the
end, 26e polls it until the chip is awake.

`probes_spec` says of all three what a probe that fails leaves of the chip, from
its last message, and what the polling adds.
-/

namespace KernelSpace.Regmap

open KernelSpace.Kernel KernelSpace.Lib

def MPU_WHO_AM_I : Nat := 0x75
def MPU_PWR_MGMT1 : Nat := 0x6B
def ENODEV : Int := 19

/-- `BIT(6)`. -/
def SLEEP : Byte := 0x40

/-- `mpu9250_probe`, with what it allocates. -/
def probe (setUp : Driver Unit) (allocated : Bool) (regmap : Ptr) : Driver Unit := do
  devInfo "Probe Started\n" []
  if !allocated then throw (-ENOMEM)
  else if isErr regmap then do
    devInfo "Failed to create regmap\n" []
    throw (ptrErr regmap)
  else setUp

section

variable (bus : Bus) (config : RegmapConfig)

/-- The first access of every probe. -/
def identify : Driver Unit := do
  let val ← orReport (regmapRead bus config MPU_WHO_AM_I) "WHO_AM_I read failed\n"
  devInfo "WHO_AM_I = 0x%02x\n" [val.toNat]
  if val != 0x70 && val != 0x71 then do
    devInfo "Unsupported chip\n" []
    throw (-ENODEV)
  else pure ()

def setUp : Driver Unit := do
  identify bus config
  let val ← orReport (regmapRead bus config MPU_PWR_MGMT1) "PWR_MGMT_1 read failed\n"
  devInfo "PWR_MGMT_1 before = 0x%02x\n" [val.toNat]
  orReport (regmapWrite bus config MPU_PWR_MGMT1 0x01) "PWR_MGMT_1 write failed\n"
  let val ← orReport (regmapRead bus config MPU_PWR_MGMT1) "PWR_MGMT_1 verify failed\n"
  devInfo "PWR_MGMT_1 after = 0x%02x\n" [val.toNat]
  devInfo "Probe Successful\n" []

/-- `verify` is the last access. -/
def sleepAndWake (verify : Driver Byte) : Driver Unit := do
  identify bus config
  let val ← orReport (regmapRead bus config MPU_PWR_MGMT1) "PWR_MGMT_1 read failed\n"
  devInfo "PWR_MGMT_1 before = 0x%02x\n" [val.toNat]
  orReport (regmapUpdateBits bus config MPU_PWR_MGMT1 SLEEP SLEEP) "Sleep Enable Failed\n"
  let val ← orReport (regmapRead bus config MPU_PWR_MGMT1) "Sleep Verify Failed\n"
  devInfo "Sleep ON = 0x%02x\n" [val.toNat]
  orReport (regmapUpdateBits bus config MPU_PWR_MGMT1 SLEEP 0) "Wake Failed\n"
  let val ← verify
  devInfo "Sleep OFF = 0x%02x\n" [val.toNat]
  devInfo "Probe Successful\n" []

/-- The end of 26b. -/
def readAwake : Driver Byte :=
  orReport (regmapRead bus config MPU_PWR_MGMT1) "Wake Verify Failed\n"

/-- The end of 26e. -/
def pollAwake (clock : Clock 1000) : Driver Byte :=
  orReport (readPollTimeout (regmapRead bus config MPU_PWR_MGMT1) (fun val => val &&& SLEEP == 0)
    clock 100000) "Wake Timeout\n"

end

/-- The register map of 26a, 26b and 26e. -/
def mpuRegmapConfig : RegmapConfig := ⟨0x7F, false⟩

/-! ## What one access does -/

/-- A device without a cache: its registers, its log, and a bound on the
transactions. -/
structure At (regs : Nat → Byte) (log : List Line) (n : Nat) (d : Device) : Prop where
  regs : d.regs = regs
  log : d.dmesg = log
  transactions : d.transactions ≤ n
  cache : d.cache = fun _ => none
  cacheOnly : d.cacheOnly = false

variable {bus : Bus} {regs : Nat → Byte} {log : List Line} {n : Nat} {d : Device}

theorem At.mono (h : At regs log n d) {n' : Nat} (hle : n ≤ n') : At regs log n' d :=
  { h with transactions := Nat.le_trans h.transactions hle }

theorem At.info (h : At regs log n d) (format : String) (args : List Int)
    {E : Int → Device → Prop} :
    Ensures (devInfo format args) d (fun _ t => At regs (log ++ [⟨format, args⟩]) n t) E :=
  ⟨h.regs, congrArg (· ++ _) h.log, h.transactions, h.cache, h.cacheOnly⟩

/-- A report comes behind a failure. -/
theorem orReport_ensures {α : Type} {x : Driver α} {format : String} {Q : α → Device → Prop}
    {E : Int → Device → Prop}
    (h : Ensures x d Q fun e t => E e { t with dmesg := t.dmesg ++ [⟨format, []⟩] }) :
    Ensures (orReport x format) d Q E := by
  unfold Ensures at h ⊢
  rw [orReport_run]
  cases hrun : x.run d with
  | ok a t =>
    rw [hrun] at h
    exact h
  | error e t =>
    rw [hrun] at h
    exact h

theorem At.read (h : At regs log n d) (bus : Bus) (reg : Nat) :
    Ensures (regmapRead bus mpuRegmapConfig reg) d
      (fun val t => val = regs reg ∧ At regs log (n + 1) t) (fun _ t => At regs log (n + 1) t) := by
  have hn := h.transactions
  unfold Ensures
  simp only [EStateM.run]
  rcases regmapRead_uncached bus mpuRegmapConfig (by rw [h.cache] : d.cache reg = none) with
    ⟨err, -, m, hm, -, heq⟩ | ⟨-, -, heq⟩
  · rw [heq]
    exact ⟨h.regs, h.log, Nat.le_trans hm (Nat.succ_le_succ hn), h.cache, h.cacheOnly⟩
  · rw [heq]
    exact ⟨by rw [h.regs], h.regs, h.log, Nat.succ_le_succ hn, h.cache, h.cacheOnly⟩

theorem store_self (reg : Nat) : bus.store regs reg (regs reg) = regs := by
  unfold Bus.store
  split
  · rfl
  · exact Function.update_eq_self ..

theorem At.write (h : At regs log n d) (reg : Nat) (val : Byte) :
    Ensures (regmapWrite bus mpuRegmapConfig reg val) d
      (fun _ t => At (bus.store regs reg val) log (n + 1) t)
      (fun _ t => At regs log (n + 1) t ∨ At (bus.store regs reg val) log (n + 1) t) := by
  have hn := h.transactions
  have hnone : ∀ r, (Device.drop r d).cache = fun _ => none := by
    intro r
    simp [Device.drop, h.cache]
  unfold Ensures
  simp only [EStateM.run]
  rcases regmapWrite_eq bus mpuRegmapConfig reg val d with
    ⟨-, heq⟩ | ⟨-, hon, -⟩ | ⟨-, -, ⟨err, -, arrived, heq⟩ | heq⟩
  · rw [heq]
    exact .inl (h.mono (Nat.le_succ n))
  · rw [h.cacheOnly] at hon
    cases hon
  · rw [heq]
    cases arrived with
    | false => exact .inl ⟨h.regs, h.log, Nat.succ_le_succ hn, hnone reg, h.cacheOnly⟩
    | true =>
      exact .inr ⟨by rw [← h.regs]; rfl, h.log, Nat.succ_le_succ hn, hnone reg, h.cacheOnly⟩
  · rw [heq]
    exact ⟨by rw [← h.regs], h.log, Nat.succ_le_succ hn, h.cache, h.cacheOnly⟩

/-- What `regmap_update_bits` makes of a value. -/
def setBits (orig mask val : Byte) : Byte := orig &&& ~~~mask ||| val &&& mask

theorem At.updateBits (h : At regs log n d) (reg : Nat) (mask val : Byte) :
    Ensures (regmapUpdateBits bus mpuRegmapConfig reg mask val) d
      (fun _ t => At (bus.store regs reg (setBits (regs reg) mask val)) log (n + 2) t)
      (fun _ t => At regs log (n + 2) t ∨
        At (bus.store regs reg (setBits (regs reg) mask val)) log (n + 2) t) := by
  refine Ensures.bind ((h.read bus reg).mono ?_ fun _ t ht => .inl (ht.mono (by omega)))
  rintro orig t ⟨rfl, ht⟩
  dsimp only
  split
  · rename_i heq
    have hsame : setBits (regs reg) mask val = regs reg := eq_of_beq heq
    rw [hsame, store_self]
    exact Ensures.pure (ht.mono (by omega))
  · exact ht.write reg _

/-! ## What a failure leaves -/

/-- How a probe may fail: its last message, and the registers behind it. -/
abbrev Ends := List (String × (Nat → Byte))

/-- A probe has failed in one of its ways, within `n` transactions. -/
def Failed (ends : Ends) (log : List Line) (n : Nat) (t : Device) : Prop :=
  ∃ lines msg, t.dmesg = log ++ lines ++ [⟨msg, []⟩] ∧ (msg, t.regs) ∈ ends ∧ t.transactions ≤ n

def unidentified (regs : Nat → Byte) : Ends :=
  [("WHO_AM_I read failed\n", regs), ("Unsupported chip\n", regs)]

/-- The registers of a chip that is sent to sleep, and woken up again. -/
def asleep (bus : Bus) (regs : Nat → Byte) : Nat → Byte :=
  bus.store regs MPU_PWR_MGMT1 (setBits (regs MPU_PWR_MGMT1) SLEEP SLEEP)

def awake (bus : Bus) (regs : Nat → Byte) : Nat → Byte :=
  bus.store (asleep bus regs) MPU_PWR_MGMT1 (setBits (asleep bus regs MPU_PWR_MGMT1) SLEEP 0)

/-- The ends of 26a. -/
def leftSetUp (bus : Bus) (regs : Nat → Byte) : Ends :=
  unidentified regs ++
    [("PWR_MGMT_1 read failed\n", regs), ("PWR_MGMT_1 write failed\n", regs),
      ("PWR_MGMT_1 write failed\n", bus.store regs MPU_PWR_MGMT1 0x01),
      ("PWR_MGMT_1 verify failed\n", bus.store regs MPU_PWR_MGMT1 0x01)]

/-- The ends of 26b and 26e. -/
def leftBehind (bus : Bus) (regs : Nat → Byte) (wakeFailure : String) : Ends :=
  unidentified regs ++
    [("PWR_MGMT_1 read failed\n", regs),
      ("Sleep Enable Failed\n", regs), ("Sleep Enable Failed\n", asleep bus regs),
      ("Sleep Verify Failed\n", asleep bus regs),
      ("Wake Failed\n", asleep bus regs), ("Wake Failed\n", awake bus regs),
      (wakeFailure, awake bus regs)]

/-- The messages of 26a, behind its start. -/
def spokenSetUp (whoAmI before after : Byte) : List Line :=
  [⟨"WHO_AM_I = 0x%02x\n", [whoAmI.toNat]⟩, ⟨"PWR_MGMT_1 before = 0x%02x\n", [before.toNat]⟩,
    ⟨"PWR_MGMT_1 after = 0x%02x\n", [after.toNat]⟩, ⟨"Probe Successful\n", []⟩]

/-- The messages of 26b and 26e, behind their start. -/
def spoken (whoAmI before on off : Byte) : List Line :=
  [⟨"WHO_AM_I = 0x%02x\n", [whoAmI.toNat]⟩, ⟨"PWR_MGMT_1 before = 0x%02x\n", [before.toNat]⟩,
    ⟨"Sleep ON = 0x%02x\n", [on.toNat]⟩, ⟨"Sleep OFF = 0x%02x\n", [off.toNat]⟩,
    ⟨"Probe Successful\n", []⟩]

variable {ends : Ends}

theorem At.failed {regs' : Nat → Byte} {t : Device} {msg : String} {m : Nat} {lines : List Line}
    (h : At regs' (log ++ lines) m t) (hmem : (msg, regs') ∈ ends) (hle : m ≤ n) :
    Failed ends log n { t with dmesg := t.dmesg ++ [⟨msg, []⟩] } :=
  ⟨lines, msg, congrArg (· ++ _) h.log, by rw [show t.regs = regs' from h.regs]; exact hmem,
    Nat.le_trans h.transactions hle⟩

/-- The chips that the probes know. -/
def KnownChip (regs : Nat → Byte) : Prop := regs MPU_WHO_AM_I = 0x70 ∨ regs MPU_WHO_AM_I = 0x71

theorem At.identify {m : Nat} (h : At regs log n d) (hm : n + 1 ≤ m)
    (hends : unidentified regs ⊆ ends) :
    Ensures (identify bus mpuRegmapConfig) d
      (fun _ t => KnownChip regs ∧
        At regs (log ++ [⟨"WHO_AM_I = 0x%02x\n", [(regs MPU_WHO_AM_I).toNat]⟩]) (n + 1) t)
      (fun _ t => Failed ends log m t) := by
  have hnil : ∀ {t : Device} {k : Nat}, At regs log k t → At regs (log ++ []) k t :=
    fun h => (List.append_nil log).symm ▸ h
  refine Ensures.bind (orReport_ensures ((h.read bus MPU_WHO_AM_I).mono ?_ fun _ t ht =>
    (hnil ht).failed (hends (by simp [unidentified])) hm))
  rintro val t ⟨rfl, ht⟩
  refine Ensures.bind ((ht.info _ _).mono (fun _ t ht => ?_) fun _ _ hE => hE)
  split
  · have hfailed : Failed ends log m
        { t with dmesg := t.dmesg ++ [⟨"Unsupported chip\n", []⟩] } :=
      ht.failed (hends (by simp [unidentified])) hm
    exact Ensures.bind hfailed
  · rename_i hchip
    refine Ensures.pure ⟨?_, ht⟩
    simp only [Bool.and_eq_true, bne_iff_ne, ne_eq, not_and_or, not_not] at hchip
    exact hchip

/-! ## Before the first access -/

/-- A chip behind `devm_regmap_init_i2c`. -/
def regmapInit (regs : Nat → Byte) (log : List Line) : Device :=
  ⟨regs, 0, fun _ => none, false, false, log⟩

theorem at_regmapInit (regs : Nat → Byte) (log : List Line) : At regs log 0 (regmapInit regs log) :=
  ⟨rfl, rfl, Nat.le_refl 0, rfl, rfl⟩

def started : Line := ⟨"Probe Started\n", []⟩

/-- A probe without its memory or without its register map: nothing has used the
bus. -/
def Unprobed (allocated : Bool) (regmap : Ptr) (regs : Nat → Byte) (log : List Line) (err : Int)
    (t : Device) : Prop :=
  allocated = false ∧ err = -ENOMEM ∧ t = regmapInit regs (log ++ [started]) ∨
    allocated = true ∧ isErr regmap = true ∧ err = ptrErr regmap ∧
      t = regmapInit regs (log ++ [started, ⟨"Failed to create regmap\n", []⟩])

/-- A probe has succeeded, and has said `lines`. -/
structure Probed (allocated : Bool) (regmap : Ptr) (regs regs' : Nat → Byte)
    (log lines : List Line) (n : Nat) (t : Device) : Prop where
  allocated : allocated = true
  regmap : isErr regmap = false
  chip : KnownChip regs
  regs : t.regs = regs'
  log : t.dmesg = log ++ started :: lines
  transactions : t.transactions ≤ n

/-- A probe has failed, before or behind its first access. -/
def NotProbed (allocated : Bool) (regmap : Ptr) (regs : Nat → Byte) (ends : Ends)
    (log : List Line) (n : Nat) (err : Int) (t : Device) : Prop :=
  Unprobed allocated regmap regs log err t ∨
    allocated = true ∧ isErr regmap = false ∧ Failed ends (log ++ [started]) n t

/-- A probe does what its accesses do, once there is something to access. -/
theorem probe_ensures {body : Driver Unit} {Q : Device → Prop} (allocated : Bool) (regmap : Ptr)
    (h : Ensures body (regmapInit regs (log ++ [started])) (fun _ t => Q t)
      (fun _ t => Failed ends (log ++ [started]) n t)) :
    Ensures (probe body allocated regmap) (regmapInit regs log)
      (fun _ t => (allocated = true ∧ isErr regmap = false) ∧ Q t)
      (NotProbed allocated regmap regs ends log n) := by
  cases allocated with
  | false => exact .inl (.inl ⟨rfl, rfl, rfl⟩)
  | true =>
    cases hregmap : isErr regmap with
    | true =>
      have hrun : (probe body true regmap).run (regmapInit regs log) =
          .error (ptrErr regmap)
            (regmapInit regs (log ++ [started] ++ [⟨"Failed to create regmap\n", []⟩])) := by
        simp only [probe, hregmap]
        rfl
      unfold Ensures
      rw [hrun, List.append_assoc]
      exact .inl (.inr ⟨rfl, hregmap, rfl, rfl⟩)
    | false =>
      have hrun : (probe body true regmap).run (regmapInit regs log) =
          body.run (regmapInit regs (log ++ [started])) := by
        simp only [probe, hregmap]
        rfl
      exact Ensures.of_run_eq hrun
        (h.mono (fun _ t ht => ⟨⟨rfl, rfl⟩, ht⟩) fun _ t ht => .inr ⟨rfl, hregmap, ht⟩)

theorem At.probed {regs' : Nat → Byte} {lines : List Line} {allocated : Bool} {regmap : Ptr}
    {t : Device} (h : At regs' (log ++ [started] ++ lines) n t) (hchip : KnownChip regs)
    (hready : allocated = true ∧ isErr regmap = false) :
    Probed allocated regmap regs regs' log lines n t :=
  ⟨hready.1, hready.2, hchip, h.regs, by rw [h.log, List.append_assoc, List.singleton_append],
    h.transactions⟩

/-! ## The accesses -/

theorem At.setUp (h : At regs log n d) :
    Ensures (setUp bus mpuRegmapConfig) d
      (fun _ t => KnownChip regs ∧ At (bus.store regs MPU_PWR_MGMT1 0x01)
        (log ++ spokenSetUp (regs MPU_WHO_AM_I) (regs MPU_PWR_MGMT1)
          (bus.store regs MPU_PWR_MGMT1 0x01 MPU_PWR_MGMT1)) (n + 4) t)
      (fun _ t => Failed (leftSetUp bus regs) log (n + 4) t) := by
  refine Ensures.bind ((h.identify (by omega) (List.subset_append_left ..)).mono (fun _ t ht => ?_)
    fun _ _ hE => hE)
  obtain ⟨hchip, ht⟩ := ht
  refine Ensures.bind (orReport_ensures ((ht.read bus MPU_PWR_MGMT1).mono ?_ fun _ t ht =>
    ht.failed (by simp [leftSetUp]) (by omega)))
  rintro val t ⟨rfl, ht⟩
  refine Ensures.bind ((ht.info _ _).mono (fun _ t ht => ?_) fun _ _ hE => hE)
  rw [List.append_assoc] at ht
  refine Ensures.bind (orReport_ensures ((ht.write MPU_PWR_MGMT1 0x01).mono ?_ ?_))
  rotate_left
  · rintro _ t (ht | ht) <;> exact ht.failed (by simp [leftSetUp]) (by omega)
  intro _ t ht
  refine Ensures.bind (orReport_ensures ((ht.read bus MPU_PWR_MGMT1).mono ?_ fun _ t ht =>
    ht.failed (by simp [leftSetUp]) (by omega)))
  rintro val t ⟨rfl, ht⟩
  refine Ensures.bind ((ht.info _ _).mono (fun _ t ht => ?_) fun _ _ hE => hE)
  refine (ht.info _ _).mono (fun _ t ht => ⟨hchip, ?_⟩) fun _ _ hE => hE
  simpa [spokenSetUp] using ht

/-- 26b and 26e, for any last access that leaves the chip as it is. -/
theorem At.sleepAndWake {verify : Driver Byte} {wakeFailure : String} {m : Nat} {P : Prop}
    (h : At regs log n d) (hm : n + 7 ≤ m)
    (hverify : ∀ lines t, At (awake bus regs) (log ++ lines) (n + 7) t → Ensures verify t
      (fun val t => (val = awake bus regs MPU_PWR_MGMT1 ∧ P) ∧
        At (awake bus regs) (log ++ lines) m t)
      (fun _ t => Failed (leftBehind bus regs wakeFailure) log m t)) :
    Ensures (sleepAndWake bus mpuRegmapConfig verify) d
      (fun _ t => P ∧ KnownChip regs ∧ At (awake bus regs) (log ++ spoken (regs MPU_WHO_AM_I)
        (regs MPU_PWR_MGMT1) (asleep bus regs MPU_PWR_MGMT1) (awake bus regs MPU_PWR_MGMT1)) m t)
      (fun _ t => Failed (leftBehind bus regs wakeFailure) log m t) := by
  refine Ensures.bind ((h.identify (by omega) (List.subset_append_left ..)).mono (fun _ t ht => ?_)
    fun _ _ hE => hE)
  obtain ⟨hchip, ht⟩ := ht
  refine Ensures.bind (orReport_ensures ((ht.read bus MPU_PWR_MGMT1).mono ?_ fun _ t ht =>
    ht.failed (by simp [leftBehind]) (by omega)))
  rintro val t ⟨rfl, ht⟩
  refine Ensures.bind ((ht.info _ _).mono (fun _ t ht => ?_) fun _ _ hE => hE)
  rw [List.append_assoc] at ht
  refine Ensures.bind (orReport_ensures ((ht.updateBits MPU_PWR_MGMT1 SLEEP SLEEP).mono ?_ ?_))
  rotate_left
  · rintro _ t (ht | ht) <;> exact ht.failed (by simp [leftBehind, asleep]) (by omega)
  intro _ t ht
  refine Ensures.bind (orReport_ensures ((ht.read bus MPU_PWR_MGMT1).mono ?_ fun _ t ht =>
    ht.failed (by simp [leftBehind, asleep]) (by omega)))
  rintro val t ⟨rfl, ht⟩
  refine Ensures.bind ((ht.info _ _).mono (fun _ t ht => ?_) fun _ _ hE => hE)
  rw [List.append_assoc] at ht
  refine Ensures.bind (orReport_ensures ((ht.updateBits MPU_PWR_MGMT1 SLEEP 0).mono ?_ ?_))
  rotate_left
  · rintro _ t (ht | ht) <;> exact ht.failed (by simp [leftBehind, asleep, awake]) (by omega)
  intro _ t ht
  refine Ensures.bind ((hverify _ t ht).mono ?_ fun _ _ hE => hE)
  rintro val t ⟨⟨rfl, hP⟩, ht⟩
  refine Ensures.bind ((ht.info _ _).mono (fun _ t ht => ?_) fun _ _ hE => hE)
  refine (ht.info _ _).mono (fun _ t ht => ⟨hP, hchip, ?_⟩) fun _ _ hE => hE
  simpa [spoken, asleep] using ht

theorem At.reads (reg : Nat) (vs : List Byte) :
    ∀ {d t : Device} {n : Nat}, At regs log n d →
      Reads (regmapRead bus mpuRegmapConfig reg) d vs t →
      At regs log (n + vs.length) t ∧ ∀ v ∈ vs, v = regs reg := by
  induction vs with
  | nil =>
    intro d t n h hreads
    cases hreads
    exact ⟨h, by simp⟩
  | cons v vs ih =>
    intro d t n h hreads
    obtain ⟨d', hrun, hrest⟩ := hreads
    have hread := h.read bus reg
    unfold Ensures at hread
    rw [hrun] at hread
    obtain ⟨rfl, h'⟩ := hread
    obtain ⟨ht, hall⟩ := ih h' hrest
    refine ⟨ht.mono ?_, by simpa using hall⟩
    rw [List.length_cons]
    omega

/-- The loop reads one register all the time. -/
theorem At.poll {sleepUs : Nat} (clock : Clock sleepUs) (timeoutUs reg : Nat) (cond : Byte → Bool)
    (h : At regs log n d) :
    Ensures (readPollTimeout (regmapRead bus mpuRegmapConfig reg) cond clock timeoutUs) d
      (fun val t => (val = regs reg ∧ cond (regs reg) = true) ∧
        At regs log (n + clock.checks timeoutUs + 2) t)
      (fun _ t => At regs log (n + clock.checks timeoutUs + 2) t) := by
  have hloop := pollLoop_spec (regmapRead bus mpuRegmapConfig reg) cond (clock.checks timeoutUs) d
  unfold Ensures readPollTimeout
  cases hrun :
    (pollLoop (regmapRead bus mpuRegmapConfig reg) cond (clock.checks timeoutUs)).run d with
  | ok val t =>
    rw [hrun] at hloop
    obtain ⟨hcond, vs, hreads, -, hlen⟩ := hloop
    obtain ⟨ht, hall⟩ := h.reads reg _ hreads
    have hval : val = regs reg := hall val (by simp)
    have hle : n + (vs ++ [val]).length ≤ n + clock.checks timeoutUs + 2 := by
      simp only [List.length_append, List.length_singleton]
      omega
    exact ⟨⟨hval, hval ▸ hcond⟩, ht.mono hle⟩
  | error err t =>
    rw [hrun] at hloop
    rcases hloop with ⟨vs, s', hreads, hlast, -, hlen⟩ | ⟨-, vs, hreads, -, hlen⟩
    · have hread := (h.reads reg vs hreads).1.read bus reg
      unfold Ensures at hread
      rw [hlast] at hread
      exact hread.mono (by omega)
    · exact (h.reads reg vs hreads).1.mono (by omega)

/-! ## The probes -/

theorem setBits_on (p mask : Byte) : setBits p mask mask = p ||| mask := by
  unfold setBits
  ext i hi
  simp only [BitVec.getElem_or, BitVec.getElem_and, BitVec.getElem_not]
  cases p[i] <;> cases mask[i] <;> rfl

theorem setBits_off (p mask : Byte) : setBits (p ||| mask) mask 0 = p &&& ~~~mask := by
  unfold setBits
  ext i hi
  simp only [BitVec.getElem_or, BitVec.getElem_and, BitVec.getElem_not]
  cases p[i] <;> cases mask[i] <;> simp

/-- A chip that takes what it is told. -/
theorem asleep_eq (h : bus.readOnly MPU_PWR_MGMT1 = false) :
    asleep bus regs = Function.update regs MPU_PWR_MGMT1 (regs MPU_PWR_MGMT1 ||| SLEEP) := by
  rw [asleep, Bus.store, h, setBits_on]
  rfl

theorem awake_eq (h : bus.readOnly MPU_PWR_MGMT1 = false) :
    awake bus regs = Function.update regs MPU_PWR_MGMT1 (regs MPU_PWR_MGMT1 &&& ~~~SLEEP) := by
  rw [awake, asleep_eq h, Bus.store, h, Function.update_self, setBits_off,
    if_neg Bool.false_ne_true, Function.update_idem]

/-- **The probes.** On every bus and every chip, with or without memory and a
register map: a probe that succeeds has said what the chip answered and leaves
it as it was set up, or as `awake` has it; one that fails leaves the registers
that go with its last message. The probe that polls ends within 409
transactions, and succeeds only with a chip that is awake; that of 26b may
succeed with a chip that is still asleep. -/
theorem probes_spec (bus : Bus) (regs : Nat → Byte) (log : List Line) (allocated : Bool)
    (regmap : Ptr) :
    Ensures (probe (setUp bus mpuRegmapConfig) allocated regmap) (regmapInit regs log)
      (fun _ t => Probed allocated regmap regs (bus.store regs MPU_PWR_MGMT1 0x01) log
        (spokenSetUp (regs MPU_WHO_AM_I) (regs MPU_PWR_MGMT1) (t.regs MPU_PWR_MGMT1)) 4 t)
      (NotProbed allocated regmap regs (leftSetUp bus regs) log 4) ∧
    Ensures (probe (sleepAndWake bus mpuRegmapConfig (readAwake bus mpuRegmapConfig)) allocated
        regmap) (regmapInit regs log)
      (fun _ t => Probed allocated regmap regs (awake bus regs) log
        (spoken (regs MPU_WHO_AM_I) (regs MPU_PWR_MGMT1) (asleep bus regs MPU_PWR_MGMT1)
          (t.regs MPU_PWR_MGMT1)) 8 t)
      (NotProbed allocated regmap regs (leftBehind bus regs "Wake Verify Failed\n") log 8) ∧
    (∀ clock : Clock 1000,
      Ensures (probe (sleepAndWake bus mpuRegmapConfig (pollAwake bus mpuRegmapConfig clock))
          allocated regmap) (regmapInit regs log)
        (fun _ t => t.regs MPU_PWR_MGMT1 &&& SLEEP = 0 ∧
          Probed allocated regmap regs (awake bus regs) log
            (spoken (regs MPU_WHO_AM_I) (regs MPU_PWR_MGMT1) (asleep bus regs MPU_PWR_MGMT1)
              (t.regs MPU_PWR_MGMT1)) 409 t)
        (NotProbed allocated regmap regs (leftBehind bus regs "Wake Timeout\n") log 409)) ∧
    (bus.readOnly MPU_PWR_MGMT1 = false →
      asleep bus regs = Function.update regs MPU_PWR_MGMT1 (regs MPU_PWR_MGMT1 ||| SLEEP) ∧
      awake bus regs = Function.update regs MPU_PWR_MGMT1 (regs MPU_PWR_MGMT1 &&& ~~~SLEEP)) ∧
    ∃ bus regs t, (probe (sleepAndWake bus mpuRegmapConfig (readAwake bus mpuRegmapConfig)) true
      0).run (regmapInit regs []) = .ok () t ∧ t.regs MPU_PWR_MGMT1 &&& SLEEP ≠ 0 := by
  have hnew := at_regmapInit regs (log ++ [started])
  refine ⟨?_, ?_, fun clock => ?_, fun hro => ⟨asleep_eq hro, awake_eq hro⟩, ?_⟩
  · refine (probe_ensures allocated regmap hnew.setUp).mono (fun _ t ht => ?_) fun _ _ hE => hE
    obtain ⟨hready, hchip, hat⟩ := ht
    rw [show t.regs = _ from hat.regs]
    exact hat.probed hchip hready
  · refine (probe_ensures allocated regmap (hnew.sleepAndWake (m := 8) (P := True) (by omega)
      fun lines t ht => ?_)).mono (fun _ t ht => ?_) fun _ _ hE => hE
    · refine orReport_ensures ((ht.read bus MPU_PWR_MGMT1).mono
        (fun val t h => ⟨⟨h.1, trivial⟩, h.2⟩)
        fun _ t h => h.failed (by simp [leftBehind]) (by omega))
    · obtain ⟨hready, -, hchip, hat⟩ := ht
      rw [show t.regs = _ from hat.regs]
      exact hat.probed hchip hready
  · have hchecks : clock.checks 100000 ≤ 399 := clock.checks_le 100000
    refine (probe_ensures allocated regmap (hnew.sleepAndWake (m := 409)
      (P := awake bus regs MPU_PWR_MGMT1 &&& SLEEP = 0) (by omega) fun lines t ht => ?_)).mono
      (fun _ t ht => ?_) fun _ _ hE => hE
    · refine orReport_ensures ((ht.poll clock 100000 MPU_PWR_MGMT1 _).mono
        (fun val t h => ⟨⟨h.1.1, eq_of_beq h.1.2⟩, h.2.mono (by omega)⟩)
        fun _ t h => h.failed (by simp [leftBehind]) (by omega))
    · obtain ⟨hready, hoff, hchip, hat⟩ := ht
      rw [show t.regs = _ from hat.regs]
      exact ⟨hoff, hat.probed hchip hready⟩
  · exact ⟨⟨fun _ => .done, fun _ => true⟩, fun _ => 0x70, _, rfl, by decide⟩

end KernelSpace.Regmap
