import Mathlib.Data.List.Basic
import Mathlib.Data.List.Nodup

/-!
# Receipts — acquisitions and releases in order

The log of a function that takes resources and gives them back. `replay` goes
through a log and keeps what is held; it stops at a second acquisition of
something held and at a release of something not held, so a log that it goes
through has no double release. `replay [] log = some []` is the ledger of a
function that leaves nothing behind.

`count_release` turns that into counts, `count_release_eq_one` into "released
exactly once"; `replay_unwind` is the function that gives everything back in
the opposite order.
-/

namespace KernelSpace.Lib

/-- One line of the log. -/
inductive Receipt (R : Type*) where
  | acquire (r : R)
  | release (r : R)
deriving DecidableEq

namespace Receipt

variable {R : Type*}

/-- What the log acquires, in order. -/
def acquired (log : List (Receipt R)) : List R :=
  log.filterMap fun
    | acquire r => some r
    | release _ => none

/-- What the log releases, in order. -/
def releases (log : List (Receipt R)) : List R :=
  log.filterMap fun
    | acquire _ => none
    | release r => some r

@[simp] theorem acquired_nil : acquired ([] : List (Receipt R)) = [] := rfl

@[simp] theorem acquired_acquire (r : R) (log : List (Receipt R)) :
    acquired (acquire r :: log) = r :: acquired log := rfl

@[simp] theorem acquired_release (r : R) (log : List (Receipt R)) :
    acquired (release r :: log) = acquired log := rfl

@[simp] theorem acquired_append (log log' : List (Receipt R)) :
    acquired (log ++ log') = acquired log ++ acquired log' := List.filterMap_append

theorem mem_acquired {log : List (Receipt R)} {r : R} : r ∈ acquired log ↔ acquire r ∈ log := by
  induction log with
  | nil => simp
  | cons entry log ih => cases entry <;> simp [ih]

@[simp] theorem releases_append (log log' : List (Receipt R)) :
    releases (log ++ log') = releases log ++ releases log' := List.filterMap_append

@[simp] theorem releases_map_acquire (rs : List R) : releases (rs.map acquire) = [] := by
  simp [releases, List.filterMap_map]

@[simp] theorem releases_map_release (rs : List R) : releases (rs.map release) = rs := by
  simp [releases, List.filterMap_map]

variable [DecidableEq R]

/-- What is held behind the log, last acquired first. -/
def replay : List R → List (Receipt R) → Option (List R)
  | held, [] => some held
  | held, acquire r :: log => if r ∈ held then none else replay (r :: held) log
  | held, release r :: log => if r ∈ held then replay (held.erase r) log else none

variable {held held' : List R} {log : List (Receipt R)} {r : R}

theorem replay_append (held : List R) (log log' : List (Receipt R)) :
    replay held (log ++ log') = (replay held log).bind fun held => replay held log' := by
  induction log generalizing held with
  | nil => rfl
  | cons entry log ih =>
    cases entry <;> simp only [List.cons_append, replay] <;> split
    · rfl
    · exact ih _
    · exact ih _
    · rfl

/-- One more acquisition. -/
theorem replay_concat_acquire (h : replay held log = some held') (hr : r ∉ held') :
    replay held (log ++ [acquire r]) = some (r :: held') := by
  rw [replay_append, h]
  exact if_neg hr

/-- One more release. -/
theorem replay_concat_release (h : replay held log = some held') (hr : r ∈ held') :
    replay held (log ++ [release r]) = some (held'.erase r) := by
  rw [replay_append, h]
  exact if_pos hr

/-- Several things at once, each of them new. -/
theorem replay_acquire {rs : List R} (hrs : rs.Nodup) (hnew : ∀ r ∈ rs, r ∉ held) :
    replay held (rs.map acquire) = some (rs.reverse ++ held) := by
  induction rs generalizing held with
  | nil => rfl
  | cons r rs ih =>
    obtain ⟨hr, hrs⟩ := List.nodup_cons.mp hrs
    have hnew' : ∀ r' ∈ rs, r' ∉ r :: held := by
      intro r' hr' hmem
      rcases List.mem_cons.mp hmem with rfl | hmem
      · exact hr hr'
      · exact hnew r' (List.mem_cons_of_mem r hr') hmem
    rw [List.map_cons, replay, if_neg (hnew r List.mem_cons_self), ih hrs hnew',
      List.reverse_cons, List.append_assoc]
    rfl

/-- The last ones acquired, back in the opposite order. -/
theorem replay_release (rs held : List R) : replay (rs ++ held) (rs.map release) = some held := by
  induction rs with
  | nil => rfl
  | cons r rs ih =>
    rw [List.map_cons, List.cons_append, replay, if_pos List.mem_cons_self,
      List.erase_cons_head, ih]

/-- **Unwinding**: what is acquired and released in the opposite order leaves
what was held before. -/
theorem replay_unwind {rs : List R} (hrs : rs.Nodup) (hnew : ∀ r ∈ rs, r ∉ held) :
    replay held (rs.map acquire ++ rs.reverse.map release) = some held := by
  rw [replay_append, replay_acquire hrs hnew]
  exact replay_release rs.reverse held

/-- **The balance**: acquisitions and releases make up the difference between
what is held before and behind a log. -/
theorem count_release (h : replay held log = some held') (r : R) :
    held.count r + log.count (acquire r) = held'.count r + log.count (release r) := by
  induction log generalizing held with
  | nil =>
    cases h
    simp
  | cons entry log ih =>
    cases entry with
    | acquire s =>
      rw [replay, Option.ite_none_left_eq_some] at h
      have hlog := ih h.2
      by_cases hs : s = r
      · subst hs
        simp only [List.count_cons_self, List.count_cons_of_ne, ne_eq, reduceCtorEq,
          not_false_eq_true] at hlog ⊢
        omega
      · simp only [ne_eq, hs, not_false_eq_true, List.count_cons_of_ne, acquire.injEq,
          reduceCtorEq] at hlog ⊢
        omega
    | release s =>
      rw [replay, Option.ite_none_right_eq_some] at h
      have hlog := ih h.2
      by_cases hs : s = r
      · subst hs
        have hpos : 0 < held.count s := List.count_pos_iff.mpr h.1
        simp only [List.count_erase_self, List.count_cons_self, List.count_cons_of_ne, ne_eq,
          reduceCtorEq, not_false_eq_true] at hlog ⊢
        omega
      · simp only [List.count_erase_of_ne (Ne.symm hs), ne_eq, hs, not_false_eq_true,
          List.count_cons_of_ne, release.injEq, reduceCtorEq] at hlog ⊢
        omega

theorem count_acquired (log : List (Receipt R)) (r : R) :
    (acquired log).count r = log.count (acquire r) := by
  induction log with
  | nil => rfl
  | cons entry log ih =>
    cases entry with
    | acquire s =>
      rw [acquired_acquire, List.count_cons, List.count_cons, ih]
      simp
    | release s =>
      rw [acquired_release, List.count_cons, ih]
      simp

/-- **Released exactly once**: what was acquired once and is no longer held. -/
theorem count_release_eq_one (h : replay [] log = some held) (honce : (acquired log).Nodup)
    (hr : r ∉ held) (hacquired : acquire r ∈ log) : log.count (release r) = 1 := by
  have hcount := count_release h r
  have hle : log.count (acquire r) ≤ 1 := by
    rw [← count_acquired]
    exact List.nodup_iff_count_le_one.mp honce r
  have hpos : 0 < log.count (acquire r) := List.count_pos_iff.mpr hacquired
  rw [List.count_eq_zero_of_not_mem hr, List.count_nil] at hcount
  omega

end Receipt

end KernelSpace.Lib
