import Mathlib.Data.List.Basic
import KernelSpace.PlatformDriver.Debounce

/-!
# PlatformDriver — the debounce in true time (15)

`jiffies` and `last_jiffies` are `unsigned long`s, so they are the true tick
counts modulo 2^64, and `time_after` looks at the sign of their difference. The
test of `button_irq` against the true counts is `pressed_iff`; it holds as long
as fewer than 2^63 ticks lie between the two.

The record of a run is its `log`: the true times of every interrupt and whether
it was reported. `lastStored` is the time that the last report stored.
-/

namespace KernelSpace.PlatformDriver

open KernelSpace.Kernel KernelSpace.Lib

/-- The true times at which an interrupt runs: of the test, and of the update
behind it. -/
structure TrueTicks where
  test : Nat
  store : Nat
  le : test ≤ store

/-- What `jiffies` is at these times. -/
def TrueTicks.jiffies (now : TrueTicks) : Ticks := ⟨.ofNat 64 now.test, .ofNat 64 now.store⟩

/-- The interrupts of one device come one after the other. -/
def InOrder (nows : List TrueTicks) : Prop := nows.Pairwise fun a b => a.store ≤ b.test

/-- The interrupts in order, each with whether it was reported. -/
abbrev Log := List (TrueTicks × Bool)

/-- The time stored at the last report, and 0 when there was none. -/
def lastStored (log : Log) : Nat :=
  log.foldl (fun last entry => if entry.2 then entry.1.store else last) 0

/-! ## One comparison -/

/-- The difference of two wrapped counts has the sign of the true one. -/
theorem timeAfter_ofNat_iff {a b : Nat} (hab : a < b + 0x8000000000000000)
    (hba : b < a + 0x8000000000000000) : timeAfter (.ofNat 64 a) (.ofNat 64 b) = true ↔ b < a := by
  change (BitVec.ofNat 64 b - BitVec.ofNat 64 a).slt 0#64 = true ↔ b < a
  rw [BitVec.slt_zero_eq_msb, BitVec.msb_eq_decide, decide_eq_true_iff, BitVec.toNat_sub,
    BitVec.toNat_ofNat, BitVec.toNat_ofNat]
  omega

/-- **The test of `button_irq`** in true time. -/
theorem pressed_iff {hz : Nat} (hhz : hz / 2 < 0x8000000000000000) {now : TrueTicks} {last : Nat}
    (hle : last ≤ now.test) (hlt : now.test < last + 0x8000000000000000) :
    pressed hz now.jiffies (.ofNat 64 last) = true ↔ last + hz / 2 < now.test := by
  have hsum : BitVec.ofNat 64 last + BitVec.ofNat 64 (hz / 2) = BitVec.ofNat 64 (last + hz / 2) :=
    (BitVec.ofNat_add last (hz / 2)).symm
  rw [pressed, hsum]
  exact timeAfter_ofNat_iff (by omega) (by omega)

/-! ## The log of a single button -/

theorem lastStored_concat (log : Log) (now : TrueTicks) (reported : Bool) :
    lastStored (log ++ [(now, reported)]) = if reported then now.store else lastStored log := by
  rw [lastStored, List.foldl_append]
  rfl

/-- The single button behind the interrupts. -/
def single (hz : Nat) (nows : List TrueTicks) : Debounce :=
  (nows.map TrueTicks.jiffies).foldl (Debounce.irq hz) ⟨0, []⟩

theorem single_concat (hz : Nat) (nows : List TrueTicks) (now : TrueTicks) :
    single hz (nows ++ [now]) = (single hz nows).irq hz now.jiffies := by
  rw [single, List.map_append, List.foldl_append]
  rfl

/-- `last_jiffies` is the time stored at the last report, wrapped. -/
theorem single_spec (hz : Nat) (nows : List TrueTicks) :
    (single hz nows).reports.length = nows.length ∧
      (single hz nows).last = .ofNat 64 (lastStored (nows.zip (single hz nows).reports)) := by
  induction nows using List.reverseRecOn with
  | nil => exact ⟨rfl, rfl⟩
  | append_singleton nows now ih =>
    obtain ⟨hlen, hlast⟩ := ih
    rw [single_concat, Debounce.irq, Debounce.record, List.zip_append hlen.symm]
    refine ⟨by rw [List.length_append, List.length_append, hlen]; rfl, ?_⟩
    rw [List.zip_cons_cons, List.zip_nil_right, lastStored_concat]
    dsimp only
    split
    · rfl
    · exact hlast

/-- What is reported of an interrupt is the test against the last report
before it. -/
theorem reports_getElem? (hz : Nat) {nows : List TrueTicks} {j : Nat} {now : TrueTicks}
    {reported : Bool} (h : (nows.zip (single hz nows).reports)[j]? = some (now, reported)) :
    reported = pressed hz now.jiffies
      (.ofNat 64 (lastStored ((nows.zip (single hz nows).reports).take j))) := by
  induction nows using List.reverseRecOn with
  | nil => cases h
  | append_singleton nows last ih =>
    have hlen := (single_spec hz nows).1
    have hzip : (nows ++ [last]).zip (single hz (nows ++ [last])).reports
        = nows.zip (single hz nows).reports ++
          [(last, pressed hz last.jiffies (single hz nows).last)] := by
      rw [single_concat, Debounce.irq, Debounce.record, List.zip_append hlen.symm]
      rfl
    have hziplen : (nows.zip (single hz nows).reports).length = nows.length := by
      rw [List.length_zip, hlen, Nat.min_self]
    rw [hzip] at h ⊢
    rcases Nat.lt_or_ge j nows.length with hlt | hge
    · -- an earlier interrupt
      rw [List.getElem?_append_left (by omega)] at h
      rw [List.take_append_of_le_length (by omega)]
      exact ih h
    · -- the last one
      have hj : j = nows.length := by
        have := (List.getElem?_eq_some_iff.mp h).1
        rw [List.length_append, hziplen, List.length_singleton] at this
        omega
      subst hj
      rw [List.getElem?_append_right (by omega), hziplen, Nat.sub_self] at h
      cases h
      rw [List.take_left' hziplen, (single_spec hz nows).2]

/-! ## Logs in order -/

/-- What is before an interrupt is in order and over. -/
theorem InOrder.before {log : Log} (h : InOrder (log.map Prod.fst)) {j : Nat}
    {entry : TrueTicks × Bool} (he : log[j]? = some entry) :
    InOrder ((log.take j).map Prod.fst) ∧ ∀ e ∈ log.take j, e.1.store ≤ entry.1.test := by
  obtain ⟨hj, rfl⟩ := List.getElem?_eq_some_iff.mp he
  have hsplit : log = log.take j ++ log[j] :: log.drop (j + 1) := by
    rw [← List.drop_eq_getElem_cons hj, List.take_append_drop]
  have hmap : log.map Prod.fst
      = (log.take j).map Prod.fst ++ log[j].1 :: (log.drop (j + 1)).map Prod.fst := by
    rw [← List.map_cons, ← List.map_append, ← hsplit]
  rw [InOrder, hmap, List.pairwise_append] at h
  obtain ⟨hbefore, -, hacross⟩ := h
  exact ⟨hbefore, fun e he => hacross e.1 (List.mem_map_of_mem he) _ List.mem_cons_self⟩

theorem lastStored_le {log : Log} {t : Nat} (h : ∀ e ∈ log, e.1.store ≤ t) :
    lastStored log ≤ t := by
  induction log using List.reverseRecOn with
  | nil => exact Nat.zero_le t
  | append_singleton log entry ih =>
    rw [lastStored_concat]
    split
    · exact h entry (List.mem_append_right _ List.mem_cons_self)
    · exact ih fun e he => h e (List.mem_append_left _ he)

/-- The last report is the latest one. -/
theorem store_le_lastStored {log : Log} (h : InOrder (log.map Prod.fst)) {now : TrueTicks}
    (hmem : (now, true) ∈ log) : now.store ≤ lastStored log := by
  induction log using List.reverseRecOn with
  | nil => cases hmem
  | append_singleton log entry ih =>
    have hlast : (log ++ [entry])[log.length]? = some entry := by simp
    obtain ⟨hbefore, hover⟩ := h.before hlast
    rw [List.take_left] at hbefore hover
    rw [lastStored_concat]
    rcases List.mem_append.mp hmem with hlog | hentry
    · split
      · exact (hover _ hlog).trans entry.1.le
      · exact ih hbefore hlog
    · cases List.mem_singleton.mp hentry
      rw [if_pos rfl]

/-! ## The driver -/

variable {D : Type*} [DecidableEq D] {hz : Nat}

/-- **Any interrupts of a bound device** happen in some run. -/
theorem exists_run (hz : Nat) (d : D) {s : State D} (hbound : (s.bound d).isSome)
    (hidle : s.handler d = .idle) (nows : List Ticks) :
    ∃ es s', (driver D hz).exec s es = some s' ∧ (∀ e ∈ es, Only d e) ∧ inputs d es = nows := by
  induction nows generalizing s with
  | nil => exact ⟨[], s, rfl, nofun, rfl⟩
  | cons now nows ih =>
    obtain ⟨mydev, hmydev⟩ := Option.isSome_iff_exists.mp hbound
    have hirq : step hz s (.irq d now) = some { s with
        handler := Function.update s.handler d
          (if pressed hz now s.lastJiffies then .reporting now.store else .idle)
        seen := Function.update s.seen d
          ((s.seen d).record now (pressed hz now s.lastJiffies)) } := by
      simp only [step, hmydev, hidle]
    have hinput : ∀ es, inputs d (.irq d now :: es) = now :: inputs d es := fun es =>
      List.filterMap_cons_some (if_pos rfl)
    by_cases htest : pressed hz now s.lastJiffies = true
    · -- the report is stored before the next interrupt
      rw [if_pos htest] at hirq
      obtain ⟨es, s', hrun, honly, hes⟩ := ih (s := { s with
        lastJiffies := now.store
        handler := Function.update (Function.update s.handler d (.reporting now.store)) d .idle
        seen := Function.update s.seen d
          ((s.seen d).record now (pressed hz now s.lastJiffies)) }) hbound (Function.update_self ..)
      refine ⟨.irq d now :: .store d :: es, s', Machine.exec_cons_iff.mpr ⟨_, hirq,
        Machine.exec_cons_iff.mpr ⟨_, ?_, hrun⟩⟩, ?_, by rw [hinput, ← hes]; rfl⟩
      · simp only [driver, step, Function.update_self]
      · simpa [Only] using honly
    · rw [if_neg htest] at hirq
      obtain ⟨es, s', hrun, honly, hes⟩ := ih (s := { s with
        handler := Function.update s.handler d .idle
        seen := Function.update s.seen d
          ((s.seen d).record now (pressed hz now s.lastJiffies)) }) hbound (Function.update_self ..)
      refine ⟨.irq d now :: es, s', Machine.exec_cons_iff.mpr ⟨_, hirq, hrun⟩, ?_,
        by rw [hinput, hes]⟩
      simpa [Only] using honly

/-- **The debounce, in true time.** When only device `d` is interrupted, and
fewer than 2^63 ticks after the last report, an interrupt is reported exactly
when more than half a second has gone by since the time that the last report
stored, the counters having wrapped or not; so any two reports are more than
half a second apart. -/
theorem reported_iff_elapsed (hhz : hz / 2 < 0x8000000000000000) (d : D) {es : List (Event D)}
    {s : State D} (hrun : (driver D hz).Reaches es s) (honly : ∀ e ∈ es, Only d e)
    {nows : List TrueTicks} (hnows : inputs d es = nows.map TrueTicks.jiffies)
    (horder : InOrder nows)
    (hnear : ∀ j now reported, (nows.zip (s.seen d).reports)[j]? = some (now, reported) →
      now.test < lastStored ((nows.zip (s.seen d).reports).take j) + 0x8000000000000000) :
    (s.seen d).reports.length = nows.length ∧
      (∀ j now reported, (nows.zip (s.seen d).reports)[j]? = some (now, reported) →
        (reported = true ↔
          lastStored ((nows.zip (s.seen d).reports).take j) + hz / 2 < now.test)) ∧
      ∀ (i j : Nat) (a b : TrueTicks), i < j → (nows.zip (s.seen d).reports)[i]? = some (a, true) →
        (nows.zip (s.seen d).reports)[j]? = some (b, true) → a.store + hz / 2 < b.test := by
  have hsingle : (s.seen d).reports = (single hz nows).reports := by
    rw [single, ← hnows]
    exact (exec_seen d hrun).mpr (along_of_only d (alone_init d) honly hrun)
  have hlen := (single_spec hz nows).1
  rw [hsingle] at hnear ⊢
  have hlog : InOrder ((nows.zip (single hz nows).reports).map Prod.fst) := by
    rwa [List.map_fst_zip hlen.ge]
  have hreported : ∀ j now reported,
      (nows.zip (single hz nows).reports)[j]? = some (now, reported) → (reported = true ↔
        lastStored ((nows.zip (single hz nows).reports).take j) + hz / 2 < now.test) := by
    intro j now reported hj
    rw [reports_getElem? hz hj]
    exact pressed_iff hhz (lastStored_le (hlog.before hj).2) (hnear j now reported hj)
  refine ⟨hlen, hreported, ?_⟩
  intro i j a b hij hi hj
  have hmem : (a, true) ∈ (nows.zip (single hz nows).reports).take j := by
    refine List.mem_of_getElem? (i := i) ?_
    rw [List.getElem?_take_of_lt hij, hi]
  have hstored := store_le_lastStored (hlog.before hj).1 hmem
  have helapsed := (hreported j b true hj).mp rfl
  omega

/-- Presses around 2^64, where `jiffies` wraps; the third one bounces. -/
def aroundWrap : List TrueTicks :=
  [⟨9223372036854775807, 9223372036854775807, Nat.le_refl _⟩,
    ⟨18446744073709551566, 18446744073709551567, Nat.le_succ _⟩,
    ⟨18446744073709551626, 18446744073709551626, Nat.le_refl _⟩,
    ⟨18446744073709551716, 18446744073709551716, Nat.le_refl _⟩]

def aroundWrapEvents : List (Event Bool) :=
  [.probe true probeOk, .irq true ⟨0x7fffffffffffffff, 0x7fffffffffffffff⟩, .store true,
    .irq true ⟨0xffffffffffffffce, 0xffffffffffffffcf⟩, .store true, .irq true ⟨10, 10⟩,
    .irq true ⟨100, 100⟩, .store true]

theorem aroundWrap_run :
    ((driver Bool 250).exec (driver Bool 250).init aroundWrapEvents).isSome := by decide

theorem reported_iff_elapsed_aroundWrap :
    ∃ s, (driver Bool 250).Reaches aroundWrapEvents s ∧
      (s.seen true).reports = [true, true, false, true] ∧
      ∀ j now reported, (aroundWrap.zip (s.seen true).reports)[j]? = some (now, reported) →
        (reported = true ↔
          lastStored ((aroundWrap.zip (s.seen true).reports).take j) + 125 < now.test) := by
  have hrun := (Option.some_get aroundWrap_run).symm
  refine ⟨_, hrun, by decide, ?_⟩
  refine (reported_iff_elapsed (by decide) true hrun (by simp [aroundWrapEvents, Only]) (by decide)
    (by unfold InOrder; decide) ?_).2.1
  intro j now reported hj
  have hall : ∀ i < 4, ∀ e ∈ (aroundWrap.zip [true, true, false, true])[i]?, e.1.test
      < lastStored ((aroundWrap.zip [true, true, false, true]).take i) + 0x8000000000000000 := by
    decide
  exact hall j (List.getElem?_eq_some_iff.mp hj).1 _ hj

end KernelSpace.PlatformDriver
