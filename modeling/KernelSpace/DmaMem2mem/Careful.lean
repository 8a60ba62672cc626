import KernelSpace.DmaMem2mem.Ownership

/-!
# DmaMem2mem — careful calls keep the rule

A run whose actions are `Careful` keeps the rule of streaming DMA
(`disciplined_of_careful`), and an action that is not careful breaks it, at
once or in a continuation (`Booked.careless`). Calls that do not overlap a
`dev_write` are careful, whatever fails in them, if `dmaengine_terminate_sync`
does what it is for (`Alone`).
-/

namespace KernelSpace.DmaMem2mem.Owned

open KernelSpace.Kernel KernelSpace.Lib

variable {T : Type*} [DecidableEq T]

/-! ## Careful runs are sound -/

/-- A call that will unmap finds nothing queued or running. -/
def Drained (d : State T) : Prop := ∀ t, (d.pc t).leaving = true → d.queue = []

/-- Thread `t` moves, and nothing is submitted. -/
theorem Drained.move {d d' : State T} (h : Drained d) {t : T} {pc : Pc}
    (hpc : d'.pc = Function.update d.pc t pc) (hqueue : d.queue = [] → d'.queue = [])
    (hself : pc.leaving = true → d'.queue = []) : Drained d' := by
  intro u hu
  rw [hpc] at hu
  by_cases hut : u = t
  · rw [hut, Function.update_self] at hu
    exact hself hu
  · rw [Function.update_of_ne hut] at hu
    exact hqueue (h u hu)

/-- The same where the engine is left alone. -/
theorem Drained.of_moves {d d' : State T} (h : Drained d) {t : T} {pc : Pc} (hm : Moves d d' t pc)
    (hself : pc.leaving = true → d.queue = []) : Drained d' :=
  h.move hm.pc (fun hnil => hm.queue.trans hnil) fun hl => hm.queue.trans (hself hl)

theorem Drained.devWrite {s : Owned T} {d : State T} (h : Drained s.dev) {t : T}
    {buf : List UInt8} {o : Outcome} {pc : WritePc} (hpc : s.dev.pc t = .write buf pc)
    (hc : Careful s (.dev (.next t o))) (hs : devWrite s.dev t buf o pc = some d) : Drained d := by
  have hcases := devWrite_cases hs
  have hleaving := h t
  rw [hpc] at hleaving
  simp only [Careful, hpc] at hc
  cases pc with
  | copyFromUser =>
    rcases hcases with hmoves | hmoves
    · exact h.of_moves hmoves nofun
    · exact h.of_moves hmoves nofun
  | memset | setLen => exact h.of_moves hcases nofun
  | mapSrc =>
    rcases hcases with ⟨-, hmoves⟩ | ⟨-, hmoves⟩
    · exact h.of_moves hmoves nofun
    · exact h.of_moves hmoves nofun
  | mapDst | prep =>
    rcases hcases with ⟨-, hmoves⟩ | ⟨ho, hmoves⟩
    · exact h.of_moves hmoves nofun
    · exact h.of_moves hmoves fun _ => hc.resolve_left ho
  | reinit => exact h.move hcases.1 (fun hnil => hcases.2.1.trans hnil) nofun
  | submit =>
    rcases hcases with ⟨ho, hd, -⟩ | ⟨ho, hmoves⟩
    · -- nobody is on the way to its unmaps
      rw [if_pos ho] at hc
      intro u hu
      rw [hd] at hu
      by_cases hut : u = t
      · rw [hut, Function.update_self] at hu
        cases hu
      · rw [Function.update_of_ne hut, hc u] at hu
        cases hu
    · rw [if_neg ho] at hc
      exact h.of_moves hmoves fun _ => hc
  | issue =>
    obtain ⟨hd, hqueue, -⟩ := hcases
    refine h.move hd (fun hnil => ?_) nofun
    rw [hqueue, hnil, List.map_nil]
  | wait =>
    obtain ⟨-, hd, hqueue⟩ := hcases
    exact h.move hd (fun hnil => hqueue.trans hnil) fun _ => hqueue.trans hc
  | status =>
    obtain ⟨ret, hmoves⟩ := hcases
    exact h.of_moves hmoves fun _ => hleaving rfl
  | unmapDst => exact h.of_moves hcases fun _ => hleaving rfl
  | unmapSrc =>
    rcases hcases with hmoves | hmoves
    · exact h.of_moves hmoves nofun
    · exact h.of_moves hmoves nofun

theorem leaving_of_not_writing {pc : Pc} (h : ¬ pc.Writing) : pc.leaving = false := by
  cases pc with
  | write buf pc => exact absurd trivial h
  | idle | read => rfl

theorem holds_of_not_writing {pc : Pc} (h : ¬ pc.Writing) (b : Buffer) : pc.holds b = false := by
  cases pc with
  | write buf pc => exact absurd trivial h
  | idle | read => rfl

theorem Drained.step {s s' : Owned T} {a : Action T} (h : Drained s.dev) (hc : Careful s a)
    (hs : step s a = some s') : Drained s'.dev := by
  have hspec := step_spec hs
  cases a with
  | dev e =>
    cases e with
    | call t c =>
      obtain ⟨-, pc, hpc, -, hleaving, hqueue, -⟩ := hspec
      refine h.move hpc (fun hnil => hqueue.trans hnil) fun hl => ?_
      cases hleaving.symm.trans hl
    | next t o =>
      obtain ⟨-, hd, -⟩ := hspec
      simp only [DmaMem2mem.step] at hd
      split at hd
      · cases hd
      · rename_i buf pc hpc
        exact h.devWrite hpc hc hd
      · rename_i off len pc hpc
        rw [← Option.some.inj hd]
        obtain ⟨pc', hpc', houtside, hqueue⟩ := devRead_spec s.dev t off len o pc
        refine h.move hpc' (fun hnil => hqueue.trans hnil) fun hl => ?_
        cases (leaving_of_not_writing houtside).symm.trans hl
    | timeout t => exact hspec.elim
    | engineCopy | callback =>
      obtain ⟨hpc, -, -, hqueue, -⟩ := hspec
      intro u hu
      rw [hpc] at hu
      exact absurd (h u hu) hqueue
  | engineError callback =>
    obtain ⟨hpc, -, -, hqueue, -⟩ := hspec
    intro u hu
    rw [hpc] at hu
    exact absurd (h u hu) hqueue
  | expire t =>
    obtain ⟨-, rfl⟩ := hspec
    exact h
  | terminate t o =>
    obtain ⟨buf, cookie, -, rfl⟩ := hspec
    have hempty : s.dev.queue = [] → (if o = .ok then [] else s.dev.queue) = [] := by
      intro hnil
      rw [hnil, ite_self]
    refine h.move (t := t) rfl hempty fun _ => ?_
    rcases hc with ho | hnil
    · exact if_pos ho
    · exact hempty hnil

omit [DecidableEq T] in
theorem free_of_careful {s : Owned T} {t : T} {o : Outcome} {b : Buffer}
    (hc : Careful s (.dev (.next t o))) (hb : (s.dev.pc t).touched = some b) : Free s b := by
  cases hpc : s.dev.pc t with
  | idle =>
    rw [hpc] at hb
    cases hb
  | write buf pc =>
    rw [hpc] at hb
    simp only [Careful, hpc] at hc
    cases pc with
    | copyFromUser =>
      obtain ⟨hlen, hb⟩ := Option.ite_none_left_eq_some.mp hb
      cases hb
      exact hc.resolve_left hlen
    | memset =>
      cases hb
      exact hc
    | mapSrc | mapDst | prep | reinit | submit | issue | wait | status | unmapDst | unmapSrc
    | setLen => cases hb
  | read off len pc =>
    rw [hpc] at hb
    simp only [Careful, hpc] at hc
    cases pc with
    | copyToUser n =>
      obtain ⟨hn, hb⟩ := Option.ite_none_left_eq_some.mp hb
      cases hb
      exact hc.resolve_left hn
    | check | clip => cases hb

omit [DecidableEq T] in
theorem leaving_of_unmapping {t : T} {pc : Pc} {m : Mapping T} (h : pc.unmapping t = some m) :
    pc.leaving = true := by
  unfold Pc.unmapping at h
  split at h <;> cases h <;> rfl

/-- **Careful statements are sound.** -/
theorem sound_of_careful {s : Owned T} (hb : Booked s) (hd : Drained s.dev) {t : T} {o : Outcome}
    (hc : Careful s (.dev (.next t o))) : Sound s t o where
  toBalanced := hb.balanced t o
  untouched _ htouched := hb.free_iff.mp (free_of_careful hc htouched)
  retired _ hm := hd t (leaving_of_unmapping hm)

theorem disciplined_of_careful {s : Owned T} (hb : Booked s) (hd : Drained s.dev) {a : Action T}
    (hc : Careful s a) : Disciplined s a := by
  cases a with
  | dev e =>
    cases e with
    | next t o => exact sound_of_careful hb hd hc
    | call | timeout | engineCopy | callback => trivial
  | expire | terminate | engineError => trivial

/-! ## What a careless statement leads to -/

/-- A careless statement touches a mapped buffer, or leaves a call on the way
to its unmaps with a descriptor under way. -/
theorem careless {s s' : Owned T} (hb : Booked s) {a : Action T} (hs : step s a = some s')
    (hc : ¬ Careful s a) :
    ¬ Disciplined s a ∨ ∃ u, (s'.dev.pc u).leaving = true ∧ s'.dev.queue ≠ [] := by
  have touches : ∀ {t o b}, a = .dev (.next t o) → (s.dev.pc t).touched = some b → ¬ Free s b →
      ¬ Disciplined s a := by
    rintro t o b rfl htouched hfree hsound
    exact hfree (hb.free_iff.mpr (Sound.untouched hsound b htouched))
  have hspec := step_spec hs
  cases a with
  | dev e =>
    cases e with
    | next t o =>
      obtain ⟨-, hd, -⟩ := hspec
      cases hpc : s.dev.pc t with
      | idle => exact absurd (by simp only [Careful, hpc]) hc
      | write buf pc =>
        simp only [Careful, hpc] at hc
        simp only [DmaMem2mem.step, hpc] at hd
        have hcases := devWrite_cases hd
        have leaves : ∀ pc', s'.dev.pc = Function.update s.dev.pc t pc' → pc'.leaving = true →
            s'.dev.queue = s.dev.queue → s.dev.queue ≠ [] →
            ∃ u, (s'.dev.pc u).leaving = true ∧ s'.dev.queue ≠ [] := by
          intro pc' hpc' hleaving hqueue hbusy
          refine ⟨t, ?_, by rwa [hqueue]⟩
          rwa [hpc', Function.update_self]
        cases pc with
        | copyFromUser =>
          obtain ⟨hlen, hfree⟩ := not_or.mp hc
          exact .inl (touches rfl (by rw [hpc]; exact if_neg hlen) hfree)
        | memset => exact .inl (touches rfl (by rw [hpc]; rfl) hc)
        | mapDst | prep =>
          obtain ⟨ho, hqueue⟩ := not_or.mp hc
          obtain ⟨-, hmoves⟩ := hcases.resolve_left fun hok => ho hok.1
          exact .inr (leaves _ hmoves.pc rfl hmoves.queue hqueue)
        | submit =>
          by_cases ho : o = .ok
          · rw [if_pos ho] at hc
            obtain ⟨u, hu⟩ := not_forall.mp hc
            obtain ⟨-, hd', hqueue, -⟩ := hcases.resolve_right fun hfail => hfail.1 ho
            have hut : u ≠ t := by
              rintro rfl
              rw [hpc] at hu
              exact hu rfl
            refine .inr ⟨u, ?_, by simp [hqueue]⟩
            rw [hd', Function.update_of_ne hut]
            exact Bool.not_eq_false _ ▸ hu
          · rw [if_neg ho] at hc
            obtain ⟨-, hmoves⟩ := hcases.resolve_left fun hok => ho hok.1
            exact .inr (leaves _ hmoves.pc rfl hmoves.queue hc)
        | wait cookie =>
          obtain ⟨-, hd', hqueue⟩ := hcases
          exact .inr (leaves _ hd' rfl hqueue hc)
        | mapSrc | reinit | issue | status | unmapDst | unmapSrc | setLen =>
          exact absurd trivial hc
      | read off len pc =>
        simp only [Careful, hpc] at hc
        cases pc with
        | copyToUser n =>
          obtain ⟨hn, hfree⟩ := not_or.mp hc
          exact .inl (touches rfl (by rw [hpc]; exact if_neg hn) hfree)
        | check | clip => exact absurd trivial hc
    | call | timeout | engineCopy | callback => exact absurd trivial hc
  | terminate t o =>
    obtain ⟨ho, hqueue⟩ := not_or.mp hc
    obtain ⟨buf, cookie, -, rfl⟩ := hspec
    refine .inr ⟨t, ?_, ?_⟩
    · simp [State.goto, Pc.leaving]
    · simpa [ho] using hqueue
  | expire | engineError => exact absurd trivial hc

variable (srcBuf dstBuf : CharArray bufSize)

/-- A call on the way to its unmaps is not kept from going on. -/
theorem Booked.next_of_leaving {s : Owned T} (h : Booked s) {t : T}
    (hl : (s.dev.pc t).leaving = true) {d : State T}
    (hd : DmaMem2mem.step s.dev (.next t .ok) = some d) :
    ∃ s', Owned.step s (.dev (.next t .ok)) = some s' ∧ s'.dev = d := by
  have hrunning : ¬ s.expired t = true := by
    intro hexpired
    obtain ⟨buf, cookie, hpc⟩ := h.waits t hexpired
    rw [hpc] at hl
    cases hl
  refine ⟨{ s with dev := d, mapped := remap t .ok (s.dev.pc t) s.mapped }, ?_, rfl⟩
  simp only [Owned.step, hd, Option.map_some, if_neg hrunning]

/-- An unmap with a descriptor under way breaks the rule. -/
theorem Booked.unmap {s : Owned T} (h : Booked s) {t : T} {m : Mapping T}
    (hm : (s.dev.pc t).unmapping t = some m) (hqueue : s.dev.queue ≠ []) :
    ∃ bs u, (machine T srcBuf dstBuf).exec s bs = some u ∧
      ¬ (machine T srcBuf dstBuf).Along Disciplined s bs := by
  have hd : ∃ d, DmaMem2mem.step s.dev (.next t .ok) = some d := by
    unfold Pc.unmapping at hm
    split at hm
    · rename_i buf ret hpc
      simp only [DmaMem2mem.step, hpc, devWrite]
      exact ⟨_, rfl⟩
    · rename_i buf ret hpc
      simp only [DmaMem2mem.step, hpc, devWrite]
      split
      · exact ⟨_, rfl⟩
      · exact ⟨_, rfl⟩
    · cases hm
  obtain ⟨d, hd⟩ := hd
  obtain ⟨s', hs, -⟩ := h.next_of_leaving (leaving_of_unmapping hm) hd
  refine ⟨[.dev (.next t .ok)], s', Machine.exec_cons_iff.mpr ⟨s', hs, rfl⟩, fun hrule => ?_⟩
  exact hqueue (hrule.1.retired m hm)

/-- So does a call on the way there. -/
theorem Booked.leave {s : Owned T} (h : Booked s) {t : T} (hl : (s.dev.pc t).leaving = true)
    (hqueue : s.dev.queue ≠ []) :
    ∃ bs u, (machine T srcBuf dstBuf).exec s bs = some u ∧
      ¬ (machine T srcBuf dstBuf).Along Disciplined s bs := by
  cases hm : (s.dev.pc t).unmapping t with
  | some m => exact h.unmap srcBuf dstBuf hm hqueue
  | none =>
    have hstatus : ∃ buf cookie, s.dev.pc t = .write buf (.status cookie) := by
      unfold Pc.leaving at hl
      split at hl
      · rename_i buf cookie hpc
        exact ⟨buf, cookie, hpc⟩
      · rename_i hpc
        rw [hpc] at hm
        cases hm
      · rename_i hpc
        rw [hpc] at hm
        cases hm
      · cases hl
    obtain ⟨buf, cookie, hpc⟩ := hstatus
    have hd : ∃ d ret, DmaMem2mem.step s.dev (.next t .ok) = some d ∧
        d.pc t = .write buf (.unmapDst ret) ∧ d.queue = s.dev.queue := by
      simp only [DmaMem2mem.step, hpc, devWrite]
      split
      · exact ⟨_, _, rfl, Function.update_self .., rfl⟩
      · exact ⟨_, _, rfl, Function.update_self .., rfl⟩
    obtain ⟨d, ret, hd, hdpc, hdqueue⟩ := hd
    obtain ⟨s', hs, rfl⟩ := h.next_of_leaving hl hd
    have hunmap : (s'.dev.pc t).unmapping t = some (dstMapping t buf) := by
      rw [hdpc]
      rfl
    obtain ⟨bs, u, hbs, hrule⟩ :=
      (h.step hs).unmap srcBuf dstBuf hunmap (by rw [hdqueue]; exact hqueue)
    refine ⟨.dev (.next t .ok) :: bs, u, Machine.exec_cons_iff.mpr ⟨s', hs, hbs⟩, fun h => ?_⟩
    exact hrule (h.2 s' hs)

/-- **A careless action** breaks the rule, at once or in a continuation. -/
theorem Booked.careless {s s' : Owned T} (h : Booked s) {a : Action T}
    (hs : Owned.step s a = some s')
    (hc : ¬ Careful s a) :
    ∃ bs u, (machine T srcBuf dstBuf).exec s (a :: bs) = some u ∧
      ¬ (machine T srcBuf dstBuf).Along Disciplined s (a :: bs) := by
  rcases Owned.careless h hs hc with hbad | ⟨u, hl, hqueue⟩
  · exact ⟨[], s', Machine.exec_cons_iff.mpr ⟨s', hs, rfl⟩, fun hrule => hbad hrule.1⟩
  · obtain ⟨bs, v, hbs, hrule⟩ := (h.step hs).leave srcBuf dstBuf hl hqueue
    exact ⟨bs, v, Machine.exec_cons_iff.mpr ⟨s', hs, hbs⟩, fun h => hrule (h.2 s' hs)⟩

/-! ## Calls that do not overlap a write -/

/-- No call overlaps a `dev_write`, and `dmaengine_terminate_sync` succeeds.
Everything else may fail. -/
def Alone (s : Owned T) : Action T → Prop
  | .dev e => ExclusiveWrites s.dev e
  | .terminate _ o => o = .ok
  | _ => True

instance (s : Owned Bool) : (a : Action Bool) → Decidable (Alone s a)
  | .dev (.call _ (.write _)) => inferInstanceAs (Decidable (∀ u, s.dev.pc u = .idle))
  | .dev (.call _ (.read _ _)) => inferInstanceAs (Decidable (∀ u, ¬ (s.dev.pc u).Writing))
  | .terminate _ o => inferInstanceAs (Decidable (o = .ok))
  | .dev (.next _ _) | .dev (.timeout _) | .dev .engineCopy | .dev .callback | .expire _
  | .engineError _ => isTrue trivial

/-- What a lone write knows of the engine when it comes to a statement. -/
def Lone (d : State T) : WritePc → Prop
  | .submit => d.queue = [] ∧ d.dmaDone = 0
  | .issue _ | .wait _ => d.queue.length + d.dmaDone ≤ 1
  | _ => d.queue = []

/-- One thread writes and everyone else is outside, or nobody writes. -/
def Separate (d : State T) : Prop :=
  (d.queue = [] ∧ ∀ t, ¬ (d.pc t).Writing) ∨
    ∃ t buf pc, d.pc t = .write buf pc ∧ (∀ u, u ≠ t → d.pc u = .idle) ∧ Lone d pc

omit [DecidableEq T] in
theorem separate_init (srcBuf dstBuf : CharArray bufSize) : Separate (State.init T srcBuf dstBuf) :=
  .inl ⟨rfl, fun _ => id⟩

omit [DecidableEq T] in
/-- Only a lone write can have entered `pc`. -/
theorem Separate.lone {d : State T} (h : Separate d) {t : T} {buf : List UInt8} {pc : WritePc}
    (hpc : d.pc t = .write buf pc) : (∀ u, u ≠ t → d.pc u = .idle) ∧ Lone d pc := by
  rcases h with ⟨-, hnone⟩ | ⟨u, buf', pc', hu, hothers, hlone⟩
  · have hwriting := hnone t
    rw [hpc] at hwriting
    exact absurd trivial hwriting
  · by_cases htu : t = u
    · subst htu
      cases hpc.symm.trans hu
      exact ⟨hothers, hlone⟩
    · cases hpc.symm.trans (hothers t htu)

omit [DecidableEq T] in
/-- While somebody reads, nobody writes. -/
theorem Separate.reading {d : State T} (h : Separate d) {t : T} {off len : Nat} {pc : ReadPc}
    (hpc : d.pc t = .read off len pc) : d.queue = [] ∧ ∀ u, ¬ (d.pc u).Writing := by
  rcases h with hnone | ⟨u, buf', pc', hu, hothers, -⟩
  · exact hnone
  · by_cases htu : t = u
    · subst htu
      cases hpc.symm.trans hu
    · cases hpc.symm.trans (hothers t htu)

/-- The lone write moves on. -/
theorem Separate.goto {d d' : State T} {t : T} {buf : List UInt8} {pc : WritePc}
    (hothers : ∀ u, u ≠ t → d.pc u = .idle)
    (hpc : d'.pc = Function.update d.pc t (.write buf pc)) (hlone : Lone d' pc) : Separate d' := by
  refine .inr ⟨t, buf, pc, ?_, fun u hu => ?_, hlone⟩
  · rw [hpc, Function.update_self]
  · rw [hpc, Function.update_of_ne hu]
    exact hothers u hu

/-- The lone write returns. -/
theorem Separate.leave {d d' : State T} {t : T} (hothers : ∀ u, u ≠ t → d.pc u = .idle)
    (hpc : d'.pc = Function.update d.pc t .idle) (hqueue : d'.queue = []) : Separate d' := by
  refine .inl ⟨hqueue, fun u => ?_⟩
  rw [hpc]
  by_cases hut : u = t
  · rw [hut, Function.update_self]
    exact id
  · rw [Function.update_of_ne hut, hothers u hut]
    exact id

theorem Separate.devWrite {d d' : State T} (h : Separate d) {t : T} {buf : List UInt8}
    {o : Outcome} {pc : WritePc} (hpc : d.pc t = .write buf pc)
    (hs : devWrite d t buf o pc = some d') : Separate d' := by
  obtain ⟨hothers, hlone⟩ := h.lone hpc
  have hcases := devWrite_cases hs
  cases pc with
  | copyFromUser =>
    rcases hcases with hmoves | hmoves
    · exact .goto hothers hmoves.pc (hmoves.queue.trans hlone)
    · exact .leave hothers hmoves.pc (hmoves.queue.trans hlone)
  | memset => exact .goto hothers hcases.pc (hcases.queue.trans hlone)
  | mapSrc =>
    rcases hcases with ⟨-, hmoves⟩ | ⟨-, hmoves⟩
    · exact .goto hothers hmoves.pc (hmoves.queue.trans hlone)
    · exact .leave hothers hmoves.pc (hmoves.queue.trans hlone)
  | mapDst | prep =>
    rcases hcases with ⟨-, hmoves⟩ | ⟨-, hmoves⟩
    · exact .goto hothers hmoves.pc (hmoves.queue.trans hlone)
    · exact .goto hothers hmoves.pc (hmoves.queue.trans hlone)
  | reinit =>
    obtain ⟨hd, hqueue, hdone⟩ := hcases
    exact .goto hothers hd ⟨hqueue.trans hlone, hdone⟩
  | submit =>
    obtain ⟨hnil, hzero⟩ := hlone
    rcases hcases with ⟨-, hd, hqueue, hdone⟩ | ⟨-, hmoves⟩
    · exact .goto hothers hd (by simp [Lone, hqueue, hdone, hnil, hzero])
    · exact .goto hothers hmoves.pc (hmoves.queue.trans hnil)
  | issue =>
    obtain ⟨hd, hqueue, hdone⟩ := hcases
    exact .goto hothers hd (by simpa [Lone, hqueue, hdone] using hlone)
  | wait =>
    obtain ⟨hdone, hd, hqueue⟩ := hcases
    -- the one completion has left no descriptor behind
    have hlength : d.queue.length + d.dmaDone ≤ 1 := hlone
    exact .goto hothers hd (hqueue.trans (List.eq_nil_of_length_eq_zero (by omega)))
  | status =>
    obtain ⟨ret, hmoves⟩ := hcases
    exact .goto hothers hmoves.pc (hmoves.queue.trans hlone)
  | unmapDst => exact .goto hothers hcases.pc (hcases.queue.trans hlone)
  | unmapSrc =>
    rcases hcases with hmoves | hmoves
    · exact .goto hothers hmoves.pc (hmoves.queue.trans hlone)
    · exact .leave hothers hmoves.pc (hmoves.queue.trans hlone)
  | setLen => exact .leave hothers hcases.pc (hcases.queue.trans hlone)

/-- A thread that does not write moves while nobody does. -/
theorem Separate.read {d d' : State T} {t : T} {pc : Pc} (hqueue : d'.queue = [])
    (hnone : ∀ u, ¬ (d.pc u).Writing) (hpc : d'.pc = Function.update d.pc t pc)
    (hself : ¬ pc.Writing) : Separate d' := by
  refine .inl ⟨hqueue, fun u => ?_⟩
  rw [hpc]
  by_cases hut : u = t
  · rw [hut, Function.update_self]
    exact hself
  · rw [Function.update_of_ne hut]
    exact hnone u

omit [DecidableEq T] in
/-- The engine takes a descriptor, or more, for a completion. -/
theorem Separate.engine {d d' : State T} (h : Separate d) (hpc : d'.pc = d.pc)
    (hqueue : d.queue ≠ [])
    (hlength : d'.queue.length + d'.dmaDone ≤ d.queue.length + d.dmaDone) : Separate d' := by
  rcases h with ⟨hnil, -⟩ | ⟨t, buf, pc, ht, hothers, hlone⟩
  · exact absurd hnil hqueue
  · refine .inr ⟨t, buf, pc, by rw [hpc, ht], fun u hu => by rw [hpc, hothers u hu], ?_⟩
    cases pc with
    | issue | wait => exact Nat.le_trans hlength hlone
    | submit => exact absurd hlone.1 hqueue
    | copyFromUser | memset | mapSrc | mapDst | prep | reinit | status | unmapDst | unmapSrc
    | setLen => exact absurd hlone hqueue

theorem Separate.step {s s' : Owned T} {a : Action T} (h : Separate s.dev) (ha : Alone s a)
    (hs : step s a = some s') : Separate s'.dev := by
  have hspec := step_spec hs
  cases a with
  | dev e =>
    cases e with
    | call t c =>
      obtain ⟨d, hd, rfl⟩ := Option.map_eq_some_iff.mp hs
      obtain ⟨hidle, -⟩ := hspec
      cases c with
      | write buf =>
        obtain ⟨-, hd⟩ := Option.ite_none_right_eq_some.mp hd
        cases hd
        rcases h with ⟨hqueue, -⟩ | ⟨u, buf', pc, hu, -, -⟩
        · exact .goto (t := t) (fun u _ => ha u) rfl hqueue
        · cases hu.symm.trans (ha u)
      | read off len =>
        obtain ⟨-, hd⟩ := Option.ite_none_right_eq_some.mp hd
        cases hd
        rcases h with ⟨hqueue, hnone⟩ | ⟨u, buf', pc, hu, -, -⟩
        · exact .read (t := t) hqueue hnone rfl id
        · have hwriting := ha u
          rw [hu] at hwriting
          exact absurd trivial hwriting
    | next t o =>
      obtain ⟨-, hd, -⟩ := hspec
      simp only [DmaMem2mem.step] at hd
      split at hd
      · cases hd
      · rename_i buf pc hpc
        exact h.devWrite hpc hd
      · rename_i off len pc hpc
        rw [← Option.some.inj hd]
        obtain ⟨hqueue, hnone⟩ := h.reading hpc
        obtain ⟨pc', hpc', hself, hqueue'⟩ := devRead_spec s.dev t off len o pc
        exact .read (hqueue'.trans hqueue) hnone hpc' hself
    | timeout t => exact hspec.elim
    | engineCopy | callback =>
      obtain ⟨hpc, -, -, hqueue, hlength⟩ := hspec
      exact h.engine hpc hqueue hlength
  | engineError callback =>
    obtain ⟨hpc, -, -, hqueue, hlength⟩ := hspec
    exact h.engine hpc hqueue hlength
  | expire t =>
    obtain ⟨-, rfl⟩ := hspec
    exact h
  | terminate t o =>
    obtain ⟨buf, cookie, hwait, rfl⟩ := hspec
    obtain ⟨hothers, -⟩ := h.lone hwait
    exact .goto (t := t) hothers rfl (if_pos ha)

omit [DecidableEq T] in
/-- Nobody has a buffer mapped that the lone write has not mapped. -/
theorem Separate.free {s : Owned T} (h : Separate s.dev) {t : T} {buf : List UInt8} {pc : WritePc}
    (hpc : s.dev.pc t = .write buf pc) {b : Buffer} (hself : (s.dev.pc t).holds b = false) :
    Free s b := by
  intro u
  by_cases hut : u = t
  · rw [hut, hself]
  · rw [(h.lone hpc).1 u hut]
    rfl

/-- **Calls that do not overlap a write are careful.** -/
theorem careful_of_alone {s s' : Owned T} {a : Action T} (h : Separate s.dev) (ha : Alone s a)
    (hs : step s a = some s') : Careful s a := by
  have hspec := step_spec hs
  cases a with
  | dev e =>
    cases e with
    | next t o =>
      obtain ⟨-, hd, -⟩ := hspec
      cases hpc : s.dev.pc t with
      | idle => simp only [Careful, hpc]
      | write buf pc =>
        obtain ⟨hothers, hlone⟩ := h.lone hpc
        simp only [Careful, hpc]
        simp only [DmaMem2mem.step, hpc] at hd
        cases pc with
        | copyFromUser => exact .inr (h.free hpc (by rw [hpc]; rfl))
        | memset => exact h.free hpc (by rw [hpc]; rfl)
        | mapDst | prep => exact .inr hlone
        | submit =>
          by_cases ho : o = .ok
          · rw [if_pos ho]
            intro u
            by_cases hut : u = t
            · rw [hut, hpc]
              rfl
            · rw [hothers u hut]
              rfl
          · rw [if_neg ho]
            exact hlone.1
        | wait cookie =>
          obtain ⟨hdone, -⟩ := devWrite_cases hd
          have hlength : s.dev.queue.length + s.dev.dmaDone ≤ 1 := hlone
          exact List.eq_nil_of_length_eq_zero (by omega)
        | mapSrc | reinit | issue | status | unmapDst | unmapSrc | setLen => trivial
      | read off len pc =>
        simp only [Careful, hpc]
        cases pc with
        | copyToUser n =>
          exact .inr fun u => holds_of_not_writing ((h.reading hpc).2 u) .dst
        | check | clip => trivial
    | call | timeout | engineCopy | callback => trivial
  | terminate t o => exact .inl ha
  | expire | engineError => trivial

/-! ## Runs -/

/-- **Who owns the buffers.** In every run each mapping is taken back exactly
once, with its length and direction. A careful run keeps the whole rule, and
what is not careful breaks it, at once or in a continuation; calls that do not
overlap a `dev_write` are careful. -/
theorem streaming_ownership (srcBuf dstBuf : CharArray bufSize) {as : List (Action T)}
    {s : Owned T} (h : (machine T srcBuf dstBuf).Reaches as s) :
    (machine T srcBuf dstBuf).Along Matched (.init T srcBuf dstBuf) as ∧
      ((machine T srcBuf dstBuf).Along Careful (.init T srcBuf dstBuf) as →
        (machine T srcBuf dstBuf).Along Disciplined (.init T srcBuf dstBuf) as) ∧
      (∀ a s', step s a = some s' → ¬ Careful s a → ∃ bs u,
        (machine T srcBuf dstBuf).exec s (a :: bs) = some u ∧
          ¬ (machine T srcBuf dstBuf).Along Disciplined s (a :: bs)) ∧
      ((machine T srcBuf dstBuf).Along Alone (.init T srcBuf dstBuf) as →
        (machine T srcBuf dstBuf).Along Careful (.init T srcBuf dstBuf) as) := by
  have hbooked : ∀ s' a t, Booked s' → (machine T srcBuf dstBuf).step s' a = some t → Booked t :=
    fun _ _ _ h hs => h.step hs
  have hinit := booked_init (T := T) srcBuf dstBuf
  refine ⟨?_, fun hc => ?_, fun a s' hs hc => ?_, fun ha => ?_⟩
  · refine Machine.along_of_inv (I := Booked) (P := fun _ _ => True) (fun s a _ hb _ _ => ?_)
      (fun s a t hb _ => hbooked s a t hb) hinit (Machine.along_true ..) h
    exact hb.matched a
  · exact Machine.along_of_inv (I := fun s => Booked s ∧ Drained s.dev)
      (fun s a _ hinv hc _ => disciplined_of_careful hinv.1 hinv.2 hc)
      (fun s a t hinv hc hs => ⟨hinv.1.step hs, hinv.2.step hc hs⟩) ⟨hinit, nofun⟩ hc h
  · have hb : Booked s := Machine.Reachable.inv hinit hbooked ⟨as, h⟩
    exact hb.careless srcBuf dstBuf hs hc
  · exact Machine.along_of_inv (I := fun s => Separate s.dev)
      (fun s a _ hsep ha hs => careful_of_alone hsep ha hs)
      (fun s a t hsep ha hs => hsep.step ha hs) (separate_init srcBuf dstBuf) ha h

/-- A write whose transfer times out, then one whose transfer completes. -/
def timedOut : List (Action Bool) :=
  [.dev (.call false (.write [65]))] ++ List.replicate 8 (.dev (.next false .ok)) ++
    [.expire false, .terminate false .ok] ++ List.replicate 2 (.dev (.next false .ok)) ++
    [.dev (.call true (.write [66]))] ++ List.replicate 8 (.dev (.next true .ok)) ++
    [.dev .engineCopy, .dev .callback] ++ List.replicate 5 (.dev (.next true .ok))

theorem timedOut_run : ((machine Bool (.zero _) (.zero _)).exec
    (.init _ (.zero _) (.zero _)) timedOut).isSome := by decide

theorem streaming_ownership_timedOut :
    (machine Bool (.zero _) (.zero _)).Along Disciplined (.init _ (.zero _) (.zero _))
      timedOut :=
  have h := streaming_ownership (.zero _) (.zero _) (Option.some_get timedOut_run).symm
  h.2.1 (h.2.2.2 (by decide))

/-- The first write has mapped both buffers when the second enters. -/
def secondWriter : List (Action Bool) :=
  [.dev (.call false (.write [65]))] ++ List.replicate 4 (.dev (.next false .ok)) ++
    [.dev (.call true (.write [66]))]

theorem secondWriter_run : ((machine Bool (.zero _) (.zero _)).exec
    (.init _ (.zero _) (.zero _)) secondWriter).isSome := by decide

theorem secondWriter_copies_run : ((machine Bool (.zero _) (.zero _)).exec
    (.init _ (.zero _) (.zero _)) (secondWriter ++ [.dev (.next true .ok)])).isSome := by decide

/-- The second write copies to a buffer that the device owns. -/
theorem second_writer_touches_mapped :
    ¬ ∀ as s, (machine Bool (.zero _) (.zero _)).Reaches as s →
      (machine Bool (.zero _) (.zero _)).Along Disciplined (.init _ (.zero _) (.zero _)) as := by
  intro h
  have hrule := h _ _ (Option.some_get secondWriter_copies_run).symm
  have hsound : Sound (Option.get _ secondWriter_run) true .ok :=
    hrule.last (Option.some_get secondWriter_run).symm
  exact hsound.untouched .src (by decide) (srcMapping false [65]) (by decide) rfl

end KernelSpace.DmaMem2mem.Owned
