import KernelSpace.Regmap.Probe

/-!
# Regmap — a configuration in one write (26d)

`mpu9250_probe` of `26d.regmap_bulk_write/regmap_bulk_write.c` writes four registers in a
row, and prints them before and behind it. A burst is one transaction; of one that
fails the chip may have taken any front (`cut`).

`mpu9250_read` compares nothing, and where it cannot read it prints `Verification
Failed` and returns to a probe that goes on. So a probe that succeeds has made its write
(`bulk_spec`), and what it prints behind it are the registers, or that line.
-/

namespace KernelSpace.Regmap.Bulk

open KernelSpace.Kernel KernelSpace.Lib

def MPU_SMPLRT_DIV : Nat := 0x19

/-- `config`, for the registers from `MPU_SMPLRT_DIV` on. -/
def config : List Byte := [0x07, 0x06, 0x18, 0x01]

/-- What a burst makes of the chip. -/
def storeAll (bus : Bus) (regs : Nat → Byte) (reg : Nat) : List Byte → Nat → Byte
  | [] => regs
  | val :: vals => storeAll bus (bus.store regs reg val) (reg + 1) vals

section

variable (bus : Bus) (cut : Nat)

/-- `regmap_bulk_read` of `count` registers. -/
def regmapBulkRead (reg count : Nat) : Driver (List Byte) := fun d =>
  let d' := { d with transactions := d.transactions + 1 }
  match bus.reply d.transactions with
  | .done => .ok ((List.range count).map fun i => d.regs (reg + i)) d'
  | .failed err _ _ => .error err d'

/-- `regmap_bulk_write` -/
def regmapBulkWrite (reg : Nat) (vals : List Byte) : Driver Unit := fun d =>
  let d' := { d with transactions := d.transactions + 1 }
  match bus.reply d.transactions with
  | .done => .ok () { d' with regs := storeAll bus d.regs reg vals }
  | .failed err _ _ => .error err { d' with regs := storeAll bus d.regs reg (vals.take cut) }

def printed (verify : List Byte) : Driver Unit := do
  devInfo "SMPLRT_DIV  = 0x%02x\n" [(verify.getD 0 0).toNat]
  devInfo "CONFIG      = 0x%02x\n" [(verify.getD 1 0).toNat]
  devInfo "GYRO_CONFIG = 0x%02x\n" [(verify.getD 2 0).toNat]
  devInfo "ACCEL_CFG   = 0x%02x\n" [(verify.getD 3 0).toNat]

def mpu9250Read : Driver Unit := fun d =>
  match regmapBulkRead bus MPU_SMPLRT_DIV 4 d with
  | .ok verify d' => printed verify d'
  | .error _ d' => devInfo "Verification Failed\n" [] d'

/-- The probe, behind what it allocates. -/
def setUp : Driver Unit := do
  identify bus mpuRegmapConfig
  devInfo "Before Bulk Write\n" []
  mpu9250Read bus
  orReport (regmapBulkWrite bus cut MPU_SMPLRT_DIV config) "Bulk Write Failed\n"
  devInfo "After Bulk Write\n" []
  mpu9250Read bus
  devInfo "Probe Successful\n" []

end

/-! ## A burst -/

variable {bus : Bus} {cut : Nat} {regs : Nat → Byte} {log : List Line} {n : Nat} {d : Device}

/-- What a register holds behind a burst. -/
theorem storeAll_apply (bus : Bus) (vals : List Byte) (r : Nat) : ∀ (regs : Nat → Byte) (reg : Nat),
    storeAll bus regs reg vals r =
      if reg ≤ r ∧ r < reg + vals.length ∧ bus.readOnly r = false then vals.getD (r - reg) 0
      else regs r := by
  induction vals with
  | nil =>
    intro regs reg
    exact (if_neg (by simp only [List.length_nil]; omega)).symm
  | cons val vals ih =>
    intro regs reg
    have hstore : bus.store regs reg val r = if r = reg ∧ bus.readOnly reg = false then val
        else regs r := Bus.store_apply (d := regmapInit regs []) r
    rw [storeAll, ih, hstore, List.length_cons]
    rcases Nat.lt_trichotomy r reg with hlt | rfl | hgt
    · rw [if_neg (by omega), if_neg (by omega), if_neg (by omega)]
    · rw [if_neg (by omega)]
      simp
    · have hback : r - reg = r - (reg + 1) + 1 := by omega
      rw [if_neg (by omega : ¬ (r = reg ∧ bus.readOnly reg = false)), hback, List.getD_cons_succ]
      exact if_congr (by constructor <;> rintro ⟨h1, h2, h3⟩ <;> exact ⟨by omega, by omega, h3⟩)
        rfl rfl

/-! ## The probe -/

/-- The lines of `mpu9250_read`, for a read that succeeds or fails. -/
def readout (regs : Nat → Byte) : Bool → List Line
  | true =>
    [⟨"SMPLRT_DIV  = 0x%02x\n", [(regs 0x19).toNat]⟩,
      ⟨"CONFIG      = 0x%02x\n", [(regs 0x1A).toNat]⟩,
      ⟨"GYRO_CONFIG = 0x%02x\n", [(regs 0x1B).toNat]⟩,
      ⟨"ACCEL_CFG   = 0x%02x\n", [(regs 0x1C).toNat]⟩]
  | false => [⟨"Verification Failed\n", []⟩]

theorem bulkWrite_ensures (h : At regs log n d) (reg : Nat) (vals : List Byte) :
    Ensures (regmapBulkWrite bus cut reg vals) d
      (fun _ t => At (storeAll bus regs reg vals) log (n + 1) t)
      (fun _ t => At (storeAll bus regs reg (vals.take cut)) log (n + 1) t) := by
  have hn := Nat.succ_le_succ h.transactions
  unfold Ensures
  simp only [EStateM.run, regmapBulkWrite]
  cases bus.reply d.transactions with
  | done => exact ⟨by rw [h.regs], h.log, hn, h.cache, h.cacheOnly⟩
  | failed err neg arrived => exact ⟨by rw [h.regs], h.log, hn, h.cache, h.cacheOnly⟩

theorem printed_ensures (h : At regs log n d) {E : Int → Device → Prop} :
    Ensures (printed ((List.range 4).map fun i => regs (MPU_SMPLRT_DIV + i))) d
      (fun _ t => At regs (log ++ readout regs true) n t) E := by
  refine Ensures.bind ((h.info _ _).mono (fun _ t ht => ?_) fun _ _ hE => hE)
  refine Ensures.bind ((ht.info _ _).mono (fun _ t ht => ?_) fun _ _ hE => hE)
  refine Ensures.bind ((ht.info _ _).mono (fun _ t ht => ?_) fun _ _ hE => hE)
  refine (ht.info _ _).mono (fun _ t ht => ?_) fun _ _ hE => hE
  simpa [readout, MPU_SMPLRT_DIV] using ht

/-- The check that is none: it ends well, and leaves its lines. -/
theorem mpu9250Read_ensures (h : At regs log n d) {E : Int → Device → Prop} :
    Ensures (mpu9250Read bus) d
      (fun _ t => ∃ answered, At regs (log ++ readout regs answered) (n + 1) t) E := by
  have h' : At regs log (n + 1) { d with transactions := d.transactions + 1 } :=
    ⟨h.regs, h.log, Nat.succ_le_succ h.transactions, h.cache, h.cacheOnly⟩
  obtain rfl := h.regs
  cases hreply : bus.reply d.transactions with
  | failed err neg arrived =>
    have hinfo : Ensures _ _
        (fun _ t => ∃ answered, At d.regs (log ++ readout d.regs answered) (n + 1) t) E :=
      (h'.info "Verification Failed\n" []).mono (fun _ t ht => ⟨false, ht⟩) fun _ _ hE => hE
    unfold Ensures at hinfo ⊢
    simpa only [EStateM.run, mpu9250Read, regmapBulkRead, hreply] using hinfo
  | done =>
    have hprinted : Ensures _ _
        (fun _ t => ∃ answered, At d.regs (log ++ readout d.regs answered) (n + 1) t) E :=
      (printed_ensures h').mono (fun _ t ht => ⟨true, ht⟩) fun _ _ hE => hE
    unfold Ensures at hprinted ⊢
    simpa only [EStateM.run, mpu9250Read, regmapBulkRead, hreply] using hprinted

/-- The ends of 26d. -/
def leftBulk (bus : Bus) (cut : Nat) (regs : Nat → Byte) : Ends :=
  unidentified regs ++
    [("Bulk Write Failed\n", storeAll bus regs MPU_SMPLRT_DIV (config.take cut))]

/-- The messages of a probe, behind its start. -/
def spokenBulk (regs regs' : Nat → Byte) (before after : Bool) : List Line :=
  [⟨"WHO_AM_I = 0x%02x\n", [(regs MPU_WHO_AM_I).toNat]⟩, ⟨"Before Bulk Write\n", []⟩] ++
    readout regs before ++ [⟨"After Bulk Write\n", []⟩] ++ readout regs' after ++
    [⟨"Probe Successful\n", []⟩]

theorem setUp_ensures (h : At regs log n d) :
    Ensures (setUp bus cut) d
      (fun _ t => KnownChip regs ∧ ∃ before after,
        At (storeAll bus regs MPU_SMPLRT_DIV config)
          (log ++ spokenBulk regs (storeAll bus regs MPU_SMPLRT_DIV config) before after) (n + 4) t)
      (fun _ t => Failed (leftBulk bus cut regs) log (n + 4) t) := by
  refine Ensures.bind ((h.identify (by omega) (List.subset_append_left ..)).mono (fun _ t ht => ?_)
    fun _ _ hE => hE)
  obtain ⟨hchip, ht⟩ := ht
  refine Ensures.bind ((ht.info _ _).mono (fun _ t ht => ?_) fun _ _ hE => hE)
  refine Ensures.bind ((mpu9250Read_ensures ht).mono ?_ fun _ _ hE => hE)
  rintro _ t ⟨before, ht⟩
  rw [List.append_assoc, List.append_assoc] at ht
  refine Ensures.bind (orReport_ensures ((bulkWrite_ensures ht MPU_SMPLRT_DIV config).mono ?_
    fun _ t ht => ht.failed (by simp [leftBulk]) (by omega)))
  intro _ t ht
  refine Ensures.bind ((ht.info _ _).mono (fun _ t ht => ?_) fun _ _ hE => hE)
  refine Ensures.bind ((mpu9250Read_ensures ht).mono ?_ fun _ _ hE => hE)
  rintro _ t ⟨after, ht⟩
  refine (ht.info _ _).mono (fun _ t ht => ⟨hchip, before, after, ?_⟩) fun _ _ hE => hE
  simpa [spokenBulk] using ht

/-- The registers as the source wants them. -/
def configured : List Line :=
  [⟨"SMPLRT_DIV  = 0x%02x\n", [0x07]⟩, ⟨"CONFIG      = 0x%02x\n", [0x06]⟩,
    ⟨"GYRO_CONFIG = 0x%02x\n", [0x18]⟩, ⟨"ACCEL_CFG   = 0x%02x\n", [0x01]⟩]

/-- **The bulk write.** On every bus and every chip, with or without memory and a
register map: a probe that succeeds has found the right chip, has written the
configuration, and has printed the registers as they were before and are behind
it, or that it could not read them; one that fails has changed nothing, or its
last message is `Bulk Write Failed` and the chip has a front of the
configuration. It takes four transactions at most. A chip that takes what it is
told has exactly the four registers changed, and what is read of them is the
configuration. -/
theorem bulk_spec (bus : Bus) (cut : Nat) (regs : Nat → Byte) (log : List Line) (allocated : Bool)
    (regmap : Ptr) :
    Ensures (probe (setUp bus cut) allocated regmap) (regmapInit regs log)
      (fun _ t => ∃ before after, Probed allocated regmap regs
        (storeAll bus regs MPU_SMPLRT_DIV config) log (spokenBulk regs t.regs before after) 4 t)
      (NotProbed allocated regmap regs (leftBulk bus cut regs) log 4) ∧
    ((∀ r, bus.readOnly r = false) →
      readout (storeAll bus regs MPU_SMPLRT_DIV config) true = configured ∧
        ∀ r, r < 0x19 ∨ 0x1C < r → storeAll bus regs MPU_SMPLRT_DIV config r = regs r) := by
  refine ⟨?_, fun hwritable => ⟨?_, fun r hr => ?_⟩⟩
  · have hsetUp := @setUp_ensures bus cut _ _ _ _ (at_regmapInit regs (log ++ [started]))
    refine (probe_ensures allocated regmap hsetUp).mono (fun _ t ht => ?_) fun _ _ hE => hE
    obtain ⟨hready, hchip, before, after, hat⟩ := ht
    rw [show t.regs = _ from hat.regs]
    exact ⟨before, after, hat.probed hchip hready⟩
  · simp [readout, configured, storeAll_apply, hwritable, config, MPU_SMPLRT_DIV]
  · rw [storeAll_apply, if_neg]
    simp only [MPU_SMPLRT_DIV, config, List.length_cons, List.length_nil]
    omega

end KernelSpace.Regmap.Bulk
