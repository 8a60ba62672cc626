import Mathlib.Data.Fintype.Defs
import Mathlib.Data.List.Nodup
import KernelSpace.WaitingQueue.Driver

/-!
# WaitingQueue — how many reads a write feeds

The driver of `WaitingQueue.Driver` with a ledger: how often the flag was set,
how many reads have returned without an error, and on which set of the flag
(counted from 1) each reader has got past its wait. `fed` are the sets on
which the returned reads had. No step of the driver looks at the ledger.

A read tests the flag, copies and clears it in three steps, and a wake-up
reaches every sleeper. So a set of the flag feeds one read only as long as no
reader passes its wait while another one, past its own on the same set, has
yet to clear the flag (`Alone`).

`Effect` is what a step can do to the flag, to who is past its wait and to the
ledger; the invariants follow from it.
-/

namespace KernelSpace.WaitingQueue

open KernelSpace.Kernel KernelSpace.Lib

/-- Between a wait that ended well and the return. -/
def ReaderPc.past : ReaderPc → Bool
  | waiting _ (.done ret) => decide (ret = 0)
  | copied _ => true
  | _ => false

structure Ledger (R : Type*) where
  state : State R
  sets : Nat
  returned : Nat
  pass : R → Option Nat
  fed : List Nat

def Ledger.init (R : Type*) : Ledger R := ⟨.init R, 0, 0, fun _ => none, []⟩

variable {R : Type*}

@[simp] theorem past_wake (pc : ReaderPc) : pc.wake.past = pc.past := by
  cases pc with
  | waiting len w => cases w <;> rfl
  | idle | copied => rfl

variable [DecidableEq R]

/-- The entry for a step of the driver to `state`. -/
def Ledger.record (l : Ledger R) (state : State R) : Event R → Ledger R
  | .setFlag => { l with state, sets := l.sets + 1 }
  | .wait r =>
    if (state.reader r).past then
      { l with state, pass := Function.update l.pass r (some l.sets) }
    else { l with state }
  | .readFault r => { l with state, pass := Function.update l.pass r none }
  | .clearFlag r =>
    { l with
      state
      returned := l.returned + 1
      pass := Function.update l.pass r none
      fed := l.fed ++ (l.pass r).toList }
  | _ => { l with state }

def Ledger.step (l : Ledger R) (e : Event R) : Option (Ledger R) :=
  (WaitingQueue.step l.state e).map fun state => l.record state e

/-- The module with its ledger. -/
def ledger (R : Type*) [DecidableEq R] : Machine (Ledger R) (Event R) := ⟨.init R, Ledger.step⟩

/-- The next step of the wait ends it. -/
def State.passes (s : State R) (r : R) : Bool :=
  match s.reader r with
  | .waiting _ w => decide (w.step s.available = some (.done 0))
  | _ => false

/-- A reader passes its wait while nobody else is past it on the same set of
the flag. -/
def Alone (l : Ledger R) : Event R → Prop
  | .wait r => l.state.passes r = true → ∀ u, l.pass u ≠ some l.sets
  | _ => True

instance [Fintype R] (l : Ledger R) : (e : Event R) → Decidable (Alone l e)
  | .wait r =>
    inferInstanceAs (Decidable (l.state.passes r = true → ∀ u, l.pass u ≠ some l.sets))
  | .write _ | .writeFault _ _ | .setFlag | .wakeUp | .read _ _ | .signal _
  | .interrupted _ | .copyOut _ | .readFault _ | .clearFlag _ => isTrue trivial

/-! ## What a step can do -/

/-- The effect of an event on the ledger, with what its step does to the flag
and to the readers past their waits. -/
inductive Effect (l : Ledger R) : Event R → Ledger R → Prop where
  | set {state : State R} (hpast : ∀ u, (state.reader u).past = (l.state.reader u).past) :
      Effect l .setFlag { l with state, sets := l.sets + 1 }
  | pass {state : State R} {r : R} (hpasses : l.state.passes r = true)
      (hflag : l.state.dataAvailable ≠ 0 ∧ state.dataAvailable = l.state.dataAvailable)
      (hwas : (l.state.reader r).past = false) (hnow : (state.reader r).past = true)
      (hpast : ∀ u, u ≠ r → (state.reader u).past = (l.state.reader u).past) :
      Effect l (.wait r) { l with state, pass := Function.update l.pass r (some l.sets) }
  | fault {state : State R} {r : R} (hflag : state.dataAvailable = l.state.dataAvailable)
      (hnow : (state.reader r).past = false)
      (hpast : ∀ u, u ≠ r → (state.reader u).past = (l.state.reader u).past) :
      Effect l (.readFault r) { l with state, pass := Function.update l.pass r none }
  | clear {state : State R} {r : R} (hflag : state.dataAvailable = 0)
      (hwas : (l.state.reader r).past = true) (hnow : (state.reader r).past = false)
      (hpast : ∀ u, u ≠ r → (state.reader u).past = (l.state.reader u).past) :
      Effect l (.clearFlag r)
        { l with
          state
          returned := l.returned + 1
          pass := Function.update l.pass r none
          fed := l.fed ++ (l.pass r).toList }
  | quiet {state : State R} {e : Event R}
      (hwait : ∀ r, e = .wait r → l.state.passes r = false)
      (hflag : state.dataAvailable = l.state.dataAvailable)
      (hpast : ∀ u, (state.reader u).past = (l.state.reader u).past) :
      Effect l e { l with state }

omit [DecidableEq R] in
theorem past_done {len : Nat} {ret : Int} :
    (ReaderPc.waiting len (.done ret)).past = true ↔ ret = 0 := by
  simp [ReaderPc.past]

theorem past_setReader_of_ne (s : State R) {r u : R} (pc : ReaderPc) (h : u ≠ r) :
    ((s.setReader r pc).reader u).past = (s.reader u).past := by
  rw [show (s.setReader r pc).reader u = s.reader u from Function.update_of_ne h ..]

/-- A step of one reader that does not take it past its wait or back. -/
theorem past_setReader {s : State R} {r : R} {pc : ReaderPc} (h : pc.past = (s.reader r).past)
    (u : R) : ((s.setReader r pc).reader u).past = (s.reader u).past := by
  by_cases hur : u = r
  · subst hur
    rw [setReader_reader_self, h]
  · exact past_setReader_of_ne s pc hur

/-- A reader in its wait is not past it, unless it is done. -/
theorem past_of_step {cond : Bool} {w w' : Wait} (h : w.step cond = some w') (len : Nat) :
    (ReaderPc.waiting len w).past = false := by
  cases w with
  | done ret => cases h
  | fast | prepare | test | schedule | asleep => rfl

/-- A step of the wait takes the reader past it only while the flag is up. -/
theorem done_of_past {cond : Bool} {w w' : Wait} {len : Nat} (h : w.step cond = some w')
    (hpast : (ReaderPc.waiting len w').past = true) : cond = true ∧ w' = .done 0 := by
  cases w' with
  | done ret =>
    obtain ⟨hcond, rfl⟩ := Wait.cond_of_step_done h
    exact ⟨hcond, rfl⟩
  | fast | prepare | test | schedule | asleep => cases hpast

/-- A signal does not. -/
theorem past_of_interrupt {w w' : Wait} (h : w.interrupt = some w') (len : Nat) :
    (ReaderPc.waiting len w').past = false := by
  cases w with
  | schedule queued =>
    cases h
    rfl
  | fast | prepare | test | asleep | done => cases h

theorem step_effect {l l' : Ledger R} {e : Event R} (h : l.step e = some l') : Effect l e l' := by
  obtain ⟨state, hs, rfl⟩ := Option.map_eq_some_iff.mp h
  cases e with
  | write buf =>
    obtain ⟨-, rfl⟩ := step_write hs
    exact .quiet nofun rfl fun _ => rfl
  | writeFault buf k =>
    obtain ⟨-, rfl⟩ := step_writeFault hs
    exact .quiet nofun rfl fun _ => rfl
  | setFlag =>
    obtain ⟨len, msg, -, rfl⟩ := step_setFlag hs
    exact .set fun _ => rfl
  | wakeUp =>
    obtain ⟨len, msg, -, rfl⟩ := step_wakeUp hs
    exact .quiet nofun rfl fun u => past_wake _
  | read r len =>
    obtain ⟨hidle, rfl⟩ := step_read hs
    exact .quiet nofun rfl (past_setReader (by rw [hidle]; rfl))
  | wait r =>
    obtain ⟨len, w, w', hr, hw, rfl⟩ := step_wait hs
    have hwas : (l.state.reader r).past = false := by rw [hr, past_of_step hw]
    by_cases hpast : (ReaderPc.waiting len w').past = true
    · obtain ⟨havailable, rfl⟩ := done_of_past hw hpast
      rw [Ledger.record, setReader_reader_self, if_pos hpast]
      refine .pass ?_ ⟨of_decide_eq_true havailable, rfl⟩ hwas ?_ ?_
      · simp [State.passes, hr, hw]
      · rw [setReader_reader_self]
        exact hpast
      · exact fun u hu => past_setReader_of_ne _ _ hu
    · rw [Ledger.record, setReader_reader_self, if_neg hpast]
      refine .quiet ?_ rfl (past_setReader (by rw [hwas, Bool.eq_false_iff.mpr hpast]))
      intro u hu
      cases hu
      rw [State.passes, hr]
      refine decide_eq_false fun hdone => hpast ?_
      cases hw.symm.trans hdone
      rfl
  | signal r =>
    obtain ⟨len, w, w', hr, hw, rfl⟩ := step_signal hs
    refine .quiet nofun rfl (past_setReader ?_)
    rw [hr, past_of_interrupt hw]
    cases w with
    | schedule queued => rfl
    | fast | prepare | test | asleep | done => cases hw
  | interrupted r =>
    obtain ⟨len, ret, hr, hret, rfl⟩ := step_interrupted hs
    refine .quiet nofun rfl (past_setReader ?_)
    rw [hr]
    exact (Bool.eq_false_iff.mpr fun hp => hret (past_done.mp hp)).symm
  | copyOut r =>
    obtain ⟨len, hr, rfl⟩ := step_copyOut hs
    refine .quiet nofun rfl (past_setReader ?_)
    rw [hr]
    rfl
  | readFault r =>
    obtain ⟨len, hr, rfl⟩ := step_readFault hs
    refine .fault rfl ?_ fun u hu => past_setReader_of_ne _ _ hu
    rw [setReader_reader_self]
    rfl
  | clearFlag r =>
    obtain ⟨data, hr, rfl⟩ := step_clearFlag hs
    refine .clear rfl ?_ ?_ fun u hu => past_setReader_of_ne _ _ hu
    · rw [hr]
      rfl
    · show ((l.state.setReader r .idle).reader r).past = false
      rw [setReader_reader_self]
      rfl

/-! ## The ledger of any run -/

/-- The entries are about sets that there have been. -/
structure Kept (l : Ledger R) : Prop where
  past : ∀ r, (l.pass r).isSome = (l.state.reader r).past
  passed : ∀ r k, l.pass r = some k → 0 < k ∧ k ≤ l.sets
  fed : ∀ k ∈ l.fed, 0 < k ∧ k ≤ l.sets
  /-- The last set has fed nobody while the flag is up. -/
  fresh : l.state.dataAvailable ≠ 0 → 0 < l.sets ∧ l.sets ∉ l.fed
  counted : l.returned = l.fed.length

omit [DecidableEq R] in
theorem kept_init : Kept (.init R) :=
  ⟨fun _ => rfl, nofun, nofun, fun h => absurd rfl h, rfl⟩

/-- Who is past its wait after the entry of `r` has changed. -/
theorem Kept.past_update {l : Ledger R} (h : Kept l) {state : State R} {r : R} {k : Option Nat}
    (hnow : (state.reader r).past = k.isSome)
    (hpast : ∀ u, u ≠ r → (state.reader u).past = (l.state.reader u).past) (u : R) :
    (Function.update l.pass r k u).isSome = (state.reader u).past := by
  by_cases hur : u = r
  · subst hur
    rw [Function.update_self, hnow]
  · rw [Function.update_of_ne hur, h.past, hpast u hur]

theorem Kept.next {l l' : Ledger R} {e : Event R} (h : Kept l) (hs : Effect l e l') : Kept l' := by
  cases hs with
  | set hpast =>
    refine ⟨fun r => by rw [hpast]; exact h.past r, ?_, ?_, fun _ => ⟨Nat.succ_pos _, ?_⟩,
      h.counted⟩
    · exact fun r k hk => ⟨(h.passed r k hk).1, Nat.le_succ_of_le (h.passed r k hk).2⟩
    · exact fun k hk => ⟨(h.fed k hk).1, Nat.le_succ_of_le (h.fed k hk).2⟩
    · exact fun hmem => Nat.not_succ_le_self _ (h.fed _ hmem).2
  | pass hpasses hflag hwas hnow hpast =>
    obtain ⟨hup, hsame⟩ := hflag
    refine ⟨h.past_update hnow hpast, ?_, h.fed, fun _ => h.fresh hup, h.counted⟩
    intro u k hk
    dsimp only at hk
    rw [Function.update_apply] at hk
    split at hk
    · cases hk
      exact ⟨(h.fresh hup).1, Nat.le_refl _⟩
    · exact h.passed u k hk
  | fault hflag hnow hpast =>
    refine ⟨h.past_update hnow hpast, ?_, h.fed, fun hup => h.fresh (hflag ▸ hup), h.counted⟩
    intro u k hk
    dsimp only at hk
    rw [Function.update_apply] at hk
    split at hk
    · cases hk
    · exact h.passed u k hk
  | @clear state r hflag hwas hnow hpast =>
    obtain ⟨k, hk⟩ := Option.isSome_iff_exists.mp ((h.past r).trans hwas)
    refine ⟨h.past_update hnow hpast, ?_, ?_, fun hup => absurd hflag hup, ?_⟩
    · intro u k' hk'
      dsimp only at hk'
      rw [Function.update_apply] at hk'
      split at hk'
      · cases hk'
      · exact h.passed u k' hk'
    · intro k' hk'
      dsimp only at hk'
      rw [hk] at hk'
      rcases List.mem_append.mp hk' with hold | hnew
      · exact h.fed k' hold
      · cases List.mem_singleton.mp hnew
        exact h.passed r k hk
    · simp [hk, h.counted]
  | quiet hwait hflag hpast =>
    exact ⟨fun r => by rw [hpast]; exact h.past r, h.passed, h.fed,
      fun hup => h.fresh (hflag ▸ hup), h.counted⟩

/-! ## Runs in which readers pass alone -/

structure Served (l : Ledger R) : Prop where
  kept : Kept l
  /-- No two readers are past their waits on one set. -/
  alone : ∀ r u k, l.pass r = some k → l.pass u = some k → r = u
  unfed : ∀ r k, l.pass r = some k → k ∉ l.fed
  once : l.fed.Nodup

omit [DecidableEq R] in
theorem served_init : Served (.init R) := ⟨kept_init, nofun, nofun, List.nodup_nil⟩

/-- No set feeds two reads, so there are no more of them than sets. -/
def OncePerSet (l : Ledger R) : Prop := l.fed.Nodup ∧ l.returned ≤ l.sets

omit [DecidableEq R] in
theorem Served.oncePerSet {l : Ledger R} (h : Served l) : OncePerSet l := by
  have hsub : l.fed ⊆ List.range' 1 l.sets := by
    intro k hk
    have := h.kept.fed k hk
    rw [List.mem_range'_1]
    omega
  have hlen := (h.once.subperm hsub).length_le
  rw [List.length_range'] at hlen
  exact ⟨h.once, by rw [h.kept.counted]; exact hlen⟩

theorem Served.next {l l' : Ledger R} {e : Event R} (h : Served l) (he : Alone l e)
    (hs : Effect l e l') : Served l' := by
  have hkept := h.kept.next hs
  cases hs with
  | set hpast | quiet hwait hflag hpast => exact ⟨hkept, h.alone, h.unfed, h.once⟩
  | @pass state r hpasses hflag hwas hnow hpast =>
    have hnobody := he hpasses
    refine ⟨hkept, ?_, ?_, h.once⟩
    · intro u v k hu hv
      dsimp only at hu hv
      rw [Function.update_apply] at hu hv
      split at hu <;> split at hv
      · rename_i hur hvr
        rw [hur, hvr]
      · cases hu
        exact absurd hv (hnobody v)
      · cases hv
        exact absurd hu (hnobody u)
      · exact h.alone u v k hu hv
    · intro u k hu
      dsimp only at hu
      rw [Function.update_apply] at hu
      split at hu
      · cases hu
        exact (h.kept.fresh hflag.1).2
      · exact h.unfed u k hu
  | @fault state r hflag hnow hpast =>
    have hold {u k} (hu : Function.update l.pass r none u = some k) : l.pass u = some k := by
      rw [Function.update_apply] at hu
      split at hu
      · cases hu
      · exact hu
    exact ⟨hkept, fun u v k hu hv => h.alone u v k (hold hu) (hold hv),
      fun u k hu => h.unfed u k (hold hu), h.once⟩
  | @clear state r hflag hwas hnow hpast =>
    obtain ⟨k, hk⟩ := Option.isSome_iff_exists.mp ((h.kept.past r).trans hwas)
    have hold {u k'} (hu : Function.update l.pass r none u = some k') :
        u ≠ r ∧ l.pass u = some k' := by
      rw [Function.update_apply] at hu
      split at hu
      · cases hu
      · exact ⟨‹_›, hu⟩
    refine ⟨hkept, fun u v k' hu hv => h.alone u v k' (hold hu).2 (hold hv).2, ?_, ?_⟩
    · intro u k' hu hmem
      obtain ⟨hur, hu⟩ := hold hu
      dsimp only at hmem
      rw [hk] at hmem
      rcases List.mem_append.mp hmem with hfed | hnew
      · exact h.unfed u k' hu hfed
      · cases List.mem_singleton.mp hnew
        exact hur (h.alone u r k hu hk)
    · have hnew : k ∉ l.fed := h.unfed r k hk
      show (l.fed ++ (l.pass r).toList).Nodup
      rw [hk]
      exact List.nodup_append'.mpr ⟨h.once, List.nodup_singleton k, by simpa using hnew⟩

/-! ## Two readers on one set -/

/-- A copy that is made returns with the entry of its reader. -/
theorem exec_copied {l : Ledger R} {u : R} {data : List UInt8}
    (hu : l.state.reader u = .copied data) :
    ∃ t, (ledger R).exec l [.clearFlag u] = some t ∧ t.sets = l.sets ∧
      t.fed = l.fed ++ (l.pass u).toList ∧
      ∀ v, v ≠ u → t.state.reader v = l.state.reader v ∧ t.pass v = l.pass v := by
  let state : State R := { l.state.setReader u .idle with dataAvailable := 0 }
  have hs : (ledger R).step l (.clearFlag u) = some (l.record state (.clearFlag u)) := by
    show l.step (.clearFlag u) = _
    simp [Ledger.step, WaitingQueue.step, hu, state]
  refine ⟨_, Machine.exec_cons_iff.mpr ⟨_, hs, rfl⟩, rfl, rfl, fun v hv => ⟨?_, ?_⟩⟩
  · exact Function.update_of_ne hv ..
  · exact Function.update_of_ne hv ..

/-- A reader past its wait can go on to its return. -/
theorem exec_return {l : Ledger R} {u : R} (hpast : (l.state.reader u).past = true) :
    ∃ fs t, (ledger R).exec l fs = some t ∧ t.sets = l.sets ∧
      t.fed = l.fed ++ (l.pass u).toList ∧
      ∀ v, v ≠ u → t.state.reader v = l.state.reader v ∧ t.pass v = l.pass v := by
  cases hu : l.state.reader u with
  | idle =>
    rw [hu] at hpast
    cases hpast
  | copied data => exact ⟨_, exec_copied hu⟩
  | waiting len w =>
    obtain rfl : w = .done 0 := by
      rw [hu] at hpast
      cases w with
      | done ret => rw [past_done.mp hpast]
      | fast | prepare | test | schedule | asleep => cases hpast
    let state : State R :=
      { l.state.setReader u (.copied (readData l.state.buffer len)) with
        copiedOut := l.state.copiedOut ++ l.state.inBuffer.toList }
    have hs : (ledger R).step l (.copyOut u) = some { l with state } := by
      show l.step (.copyOut u) = _
      simp [Ledger.step, WaitingQueue.step, hu, state, Ledger.record]
    have hcopied : state.reader u = .copied (readData l.state.buffer len) :=
      Function.update_self ..
    obtain ⟨t, hrun, hsets, hfed, hothers⟩ := exec_copied (l := { l with state }) hcopied
    refine ⟨_, t, Machine.exec_cons_iff.mpr ⟨_, hs, hrun⟩, hsets, hfed, fun v hv => ?_⟩
    obtain ⟨hreader, hpass⟩ := hothers v hv
    exact ⟨hreader.trans (Function.update_of_ne hv ..), hpass⟩

theorem fed_twice_of_not_alone {l l' : Ledger R} {e : Event R} (h : Kept l)
    (hs : l.step e = some l') (he : ¬ Alone l e) :
    ∃ fs t, (ledger R).exec l' fs = some t ∧ t.sets = l'.sets ∧ ¬ t.fed.Nodup := by
  have heffect := step_effect hs
  have hkept := h.next heffect
  cases e with
  | wait r =>
    obtain ⟨hpasses, u, hu⟩ : l.state.passes r = true ∧ ∃ u, l.pass u = some l.sets := by
      simpa [Alone] using he
    cases heffect with
    | quiet hwait hflag hpast => cases hpasses.symm.trans (hwait r rfl)
    | pass _ hflag hwas hnow hpast =>
      have hur : u ≠ r := by
        rintro rfl
        have := h.past u
        rw [hu, hwas] at this
        cases this
      have hpassu : Function.update l.pass r (some l.sets) u = some l.sets := by
        rw [Function.update_of_ne hur, hu]
      have hpastu := (hkept.past u).symm.trans (congrArg Option.isSome hpassu)
      -- `u` returns, then `r`, both on the last set
      obtain ⟨fs, t, hrun, hsets, hfed, hothers⟩ := exec_return hpastu
      obtain ⟨hreader, hpass⟩ := hothers r hur.symm
      obtain ⟨gs, t', hrun', hsets', hfed', -⟩ := exec_return (l := t) (hreader ▸ hnow)
      refine ⟨fs ++ gs, t', Machine.exec_append_iff.mpr ⟨t, hrun, hrun'⟩, hsets'.trans hsets, ?_⟩
      have hpassr : t.pass r = some l.sets := hpass.trans (Function.update_self ..)
      dsimp only at hfed
      rw [hpassu] at hfed
      rw [hfed', hfed, hpassr, List.append_assoc]
      intro hnodup
      have htwice : [l.sets, l.sets].Nodup := hnodup.of_append_right
      simp at htwice
  | write | writeFault | setFlag | wakeUp | read | signal | interrupted | copyOut | readFault
  | clearFlag => exact absurd trivial he

/-- **One read for each set of the flag** in every run in which no reader
passes its wait while another one is past it on the same set; and any run up
to such a step can go on, without a further write, until that set has fed two
reads. -/
theorem one_read_per_set {es : List (Event R)} {l : Ledger R} (h : (ledger R).Reaches es l) :
    ((ledger R).Along Alone (.init R) es → (ledger R).Always OncePerSet (.init R) es) ∧
      ∀ e l', l.step e = some l' → ¬ Alone l e →
        ∃ fs t, (ledger R).exec l' fs = some t ∧ t.sets = l'.sets ∧ ¬ t.fed.Nodup := by
  have hkept : Kept l :=
    Machine.Reachable.inv kept_init (fun _ _ _ hk hs => hk.next (step_effect hs)) ⟨es, h⟩
  exact ⟨Machine.always_of_inv (fun _ => Served.oncePerSet)
    (fun _ _ _ hI he hs => hI.next he (step_effect hs)) served_init,
    fun _ _ => fed_twice_of_not_alone hkept⟩

/-- A write, and two readers that come to it before one has cleared the flag. -/
def twoReaders : List (Event Bool) :=
  [.write [65], .setFlag, .wakeUp, .read true 10, .read false 10, .wait true, .wait false,
    .copyOut true, .copyOut false, .clearFlag true, .clearFlag false]

theorem twoReaders_run : ((ledger Bool).exec (.init Bool) twoReaders).isSome := by decide

theorem one_write_feeds_two :
    ¬ ∀ (es : List (Event Bool)) l, (ledger Bool).Reaches es l → l.returned ≤ l.sets := by
  intro h
  have hle := h _ _ (Option.some_get twoReaders_run).symm
  revert hle
  decide

/-- The second reader comes after the first has cleared the flag, and sleeps
until the next write. -/
def oneByOne : List (Event Bool) :=
  [.write [65], .setFlag, .wakeUp, .read true 10, .wait true, .copyOut true, .read false 10,
    .clearFlag true, .wait false, .wait false, .wait false, .wait false,
    .write [66], .setFlag, .wakeUp, .wait false, .wait false, .copyOut false, .clearFlag false]

theorem oneByOne_run : ((ledger Bool).exec (.init Bool) oneByOne).isSome := by decide

theorem one_read_per_set_oneByOne : (ledger Bool).Always OncePerSet (.init Bool) oneByOne :=
  (one_read_per_set (Option.some_get oneByOne_run).symm).1 (by decide)

end KernelSpace.WaitingQueue
