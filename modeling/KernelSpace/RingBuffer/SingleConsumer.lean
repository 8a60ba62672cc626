import KernelSpace.RingBuffer.Counting

/-!
# RingBuffer — one consumer

27d as its Module B uses it: one thread `c` runs `ring_pop`, no signal comes,
any number of threads push. Then what the wait saw still holds at the lock:
pushes do not empty the ring and nobody else dequeues (`Delivering.ready`).

A wake-up is not lost either. The consumer is `Unwoken` only while the ring
is empty or some push stands between its unlock and its wake-up
(`Delivering.woken`): a push into the empty ring leaves such a thread, and
the wake-up takes the consumer out of `Unwoken`.
-/

namespace KernelSpace.ThreadsafeRing

open KernelSpace.Kernel KernelSpace.Lib KernelSpace.RingBuffer

variable {T : Type*}

/-- Only `c` enters `ring_pop`, and no signal ends a wait. -/
def SingleConsumer (c : T) (_ : State T) : Event T → Prop
  | .enter t => t = c
  | .signal _ => False
  | _ => True

instance [DecidableEq T] (c : T) (s : State T) : (e : Event T) → Decidable (SingleConsumer c s e)
  | .enter t => inferInstanceAs (Decidable (t = c))
  | .signal _ => isFalse id
  | .push _ _ | .wakeUp _ | .wait _ | .wakeProcess _ | .dequeue _ _ => isTrue trivial

/-- What holds in every state of a run with one consumer. -/
structure Delivers (s : State T) : Prop where
  /-- The `k`-th pop returned the `k`-th push. -/
  order : s.taken = (List.range s.popped.length).map some
  /-- What was pushed is what was popped and what is stored. -/
  fifo : s.pushed.map (fun msg => msg.take (maxPacket - 1)) = s.popped ++ queue s.ring
  refuses : ∀ msg, (pushSlot s.ring msg).1 ≠ 0 → (queue s.ring).length = ringSize - 1
  awake : ∀ t, s.pc t = .popping .asleep → s.ring.head ≠ s.ring.tail → ∃ u, s.pc u = .waking

/-- The invariant of such a run. -/
structure Delivering (c : T) (s : State T) : Prop where
  others : ∀ t w, s.pc t = .popping w → t = c
  ready : ∀ ret, s.pc c = .popping (.done ret) → s.ring.head ≠ s.ring.tail
  woken : ∀ w, s.pc c = .popping w → w.Unwoken → s.ring.head ≠ s.ring.tail →
    ∃ t, s.pc t = .waking
  packed : Packed s.ring
  fifo : s.pushed.map (fun msg => msg.take (maxPacket - 1)) = s.popped ++ queue s.ring
  exact : Exact s

theorem delivering_init (c : T) : Delivering c (State.init T) where
  others _ _ h := by cases h
  ready _ h := by cases h
  woken _ h := by cases h
  packed := packed_zeroed _
  fifo := by
    rw [show queue (State.init T).ring = [] from queue_zeroed _]
    rfl
  exact := exact_init

theorem Delivering.delivers {c : T} {s : State T} (h : Delivering c s) : Delivers s where
  order := h.exact.taken
  fifo := h.fifo
  refuses msg hret := by
    by_contra hroom
    exact hret ((pushSlot_ret_iff s.ring msg).mpr hroom)
  awake t hpc hne := by
    cases h.others t _ hpc
    exact h.woken _ hpc trivial hne

/-! ## The steps -/

/-- A step that leaves the ring alone has only the program counters to see to. -/
theorem Delivering.setPc {c : T} {s : State T} (h : Delivering c s) {pc : T → Pc}
    (hothers : ∀ t w, pc t = .popping w → t = c)
    (hready : ∀ ret, pc c = .popping (.done ret) → s.ring.head ≠ s.ring.tail)
    (hwoken : ∀ w, pc c = .popping w → w.Unwoken → s.ring.head ≠ s.ring.tail →
      ∃ t, pc t = .waking) :
    Delivering c { s with pc := pc } :=
  ⟨hothers, hready, hwoken, h.packed, h.fifo, h.exact.setPc pc⟩

theorem Pc.wake_eq_popping {pc : Pc} {w : Wait} (h : pc.wake = .popping w) :
    ∃ w', pc = .popping w' ∧ w = w'.wake := by
  cases pc with
  | popping w' =>
    cases h
    exact ⟨w', rfl, rfl⟩
  | idle | waking => cases h

variable [DecidableEq T]

/-- A push leaves its own thread with the wake-up to do. -/
theorem Delivering.push {c t : T} {s : State T} (h : Delivering c s) (hpc : s.pc t = .idle)
    (hroom : (queue s.ring).length ≠ ringSize - 1) (msg : CString) :
    Delivering c (ringPush s t msg) := by
  have hexact := h.exact.ringPush hroom t msg
  rw [ringPush_room hroom] at hexact ⊢
  have hqueue := queue_enqueue (by decide) hroom msg
  have hne : (s.ring.enqueue ((s.ring.data.get s.ring.head).strscpy msg)).head ≠
      (s.ring.enqueue ((s.ring.data.get s.ring.head).strscpy msg)).tail := by
    intro hc
    rw [(queue_eq_nil_iff _).mpr hc] at hqueue
    simp at hqueue
  refine ⟨?_, fun _ _ => hne, ?_, packed_enqueue (by decide) h.packed hroom msg, ?_, hexact⟩
  · intro u w hu
    by_cases hut : u = t
    · subst hut
      simp at hu
    · exact h.others u w (by simpa [hut] using hu)
  · intro w _ _ _
    exact ⟨t, Function.update_self ..⟩
  · show (s.pushed ++ [msg]).map _ = s.popped ++ _
    rw [hqueue, List.map_append, h.fifo, List.append_assoc]
    rfl

/-- When only the consumer has moved, still nobody else pops. -/
theorem Delivering.others_update {c : T} {s : State T} (h : Delivering c s) (pc : Pc) (t : T)
    (w : Wait) (ht : Function.update s.pc c pc t = .popping w) : t = c := by
  by_contra htc
  rw [Function.update_of_ne htc] at ht
  exact htc (h.others t w ht)

theorem Delivering.dequeue {c t : T} {s : State T} (h : Delivering c s) {ret : Int}
    (hpc : s.pc t = .popping (.done ret)) (buf : CharArray maxPacket) :
    Delivering c (ringPop s t buf) := by
  cases h.others t _ hpc
  have hne := h.ready ret hpc
  have hgone : (ringPop s c buf).pc c = .idle := Function.update_self ..
  refine ⟨h.others_update .idle, ?_, ?_, packed_popSlot h.packed hne buf, ?_,
    h.exact.ringPop hne c buf⟩
  · intro ret' hc
    rw [hgone] at hc
    cases hc
  · intro w hc
    rw [hgone] at hc
    cases hc
  · show s.pushed.map _ = (s.popped ++ [(popSlot s.ring buf).1.str]) ++ queue (popSlot s.ring buf).2
    rw [h.fifo, queue_eq_cons hne buf, popSlot_str (by decide) h.packed hne buf,
      List.append_assoc]
    rfl

theorem Delivering.wakeUp {c t : T} {s : State T} (h : Delivering c s) :
    Delivering c { s with pc := Function.update (fun u => (s.pc u).wake) t .idle } := by
  -- whoever is in the wait afterwards was in it before, and has been woken
  have hold (u : T) (w : Wait)
      (hu : Function.update (fun u => (s.pc u).wake) t .idle u = .popping w) :
      ∃ w', s.pc u = .popping w' ∧ w = w'.wake := by
    by_cases hut : u = t
    · subst hut
      simp at hu
    · exact Pc.wake_eq_popping (by simpa [hut] using hu)
  refine h.setPc ?_ ?_ ?_
  · intro u w hu
    obtain ⟨w', hu', -⟩ := hold u w hu
    exact h.others u w' hu'
  · intro ret hc
    obtain ⟨w', hc', hw⟩ := hold c _ hc
    rw [eq_comm, Wait.wake_eq_done_iff] at hw
    exact h.ready ret (hw ▸ hc')
  · intro w hc hu
    obtain ⟨w', -, rfl⟩ := hold c w hc
    exact absurd hu w'.not_unwoken_wake

theorem Delivering.enter {c : T} {s : State T} (h : Delivering c s) :
    Delivering c (s.setPc c (.popping .fast)) := by
  refine h.setPc (h.others_update _) ?_ ?_
  · intro ret hc
    simp at hc
  · intro w hc hu
    simp only [Function.update_self, Pc.popping.injEq] at hc
    subst hc
    cases hu

theorem Delivering.wait {c t : T} {s : State T} (h : Delivering c s) {w w' : Wait}
    (hpc : s.pc t = .popping w) (hw : w.step s.nonempty = some w') :
    Delivering c (s.setPc t (.popping w')) := by
  cases h.others t w hpc
  refine h.setPc (h.others_update _) ?_ ?_
  · intro ret hc
    simp only [Function.update_self, Pc.popping.injEq] at hc
    subst hc
    exact of_decide_eq_true (Wait.cond_of_step_done hw).1
  · intro v hc hu hne
    simp only [Function.update_self, Pc.popping.injEq] at hc
    subst hc
    -- it was `Unwoken` before, with a wake-up to come, or has just seen the ring empty
    rcases Wait.unwoken_of_step hw hu with hu' | hempty
    · obtain ⟨u, hwaking⟩ := h.woken w hpc hu' hne
      have huc : u ≠ c := by
        intro huc
        rw [huc, hpc] at hwaking
        cases hwaking
      exact ⟨u, by simpa [huc] using hwaking⟩
    · exact absurd hne (of_decide_eq_false hempty)

theorem Delivering.wakeProcess {c : T} {s : State T} (h : Delivering c s) (t : T) :
    Delivering c (s.setPc t (s.pc t).wake) := by
  refine h.setPc ?_ ?_ ?_
  · intro u w hu
    by_cases hut : u = t
    · subst hut
      rw [Function.update_self] at hu
      obtain ⟨w', hu', -⟩ := Pc.wake_eq_popping hu
      exact h.others u w' hu'
    · exact h.others u w (by simpa [hut] using hu)
  · intro ret hc
    by_cases hct : c = t
    · subst hct
      rw [Function.update_self] at hc
      obtain ⟨w', hc', hw⟩ := Pc.wake_eq_popping hc
      rw [eq_comm, Wait.wake_eq_done_iff] at hw
      exact h.ready ret (hw ▸ hc')
    · exact h.ready ret (by simpa [hct] using hc)
  · intro w hc hu hne
    by_cases hct : c = t
    · subst hct
      rw [Function.update_self] at hc
      obtain ⟨w', -, rfl⟩ := Pc.wake_eq_popping hc
      exact absurd hu w'.not_unwoken_wake
    · obtain ⟨u, hwaking⟩ := h.woken w (by simpa [hct] using hc) hu hne
      refine ⟨u, ?_⟩
      by_cases hut : u = t
      · subst hut
        rw [Function.update_self]
        exact Pc.wake_eq_waking.mpr hwaking
      · simpa [hut] using hwaking

/-- The consumer finds at the lock what it saw in the wait. -/
theorem Delivering.nonemptyDequeue {c : T} {s s' : State T} {e : Event T} (h : Delivering c s)
    (hs : step s e = some s') : NonemptyDequeue s e := by
  cases e with
  | dequeue t buf =>
    obtain ⟨ret, hpc, -⟩ := step_dequeue.mp hs
    cases h.others t _ hpc
    exact h.ready ret hpc
  | push | wakeUp | enter | wait | signal | wakeProcess => trivial

theorem Delivering.step {c : T} {s s' : State T} {e : Event T} (h : Delivering c s)
    (he : SingleConsumer c s e) (hs : step s e = some s') : Delivering c s' := by
  cases e with
  | push t msg =>
    obtain ⟨hpc, rfl⟩ := step_push.mp hs
    by_cases hfull : (queue s.ring).length = ringSize - 1
    · rw [ringPush_full hfull]
      exact h
    · exact h.push hpc hfull msg
  | wakeUp t =>
    obtain ⟨-, rfl⟩ := step_wakeUp.mp hs
    exact h.wakeUp
  | enter t =>
    obtain ⟨-, rfl⟩ := step_enter.mp hs
    cases he
    exact h.enter
  | wait t =>
    obtain ⟨w, w', hpc, hw, rfl⟩ := step_wait.mp hs
    exact h.wait hpc hw
  | signal t => cases he
  | wakeProcess t =>
    rw [step_wakeProcess.mp hs]
    exact h.wakeProcess t
  | dequeue t buf =>
    obtain ⟨ret, hpc, rfl⟩ := step_dequeue.mp hs
    exact h.dequeue hpc buf

/-- **One consumer gets every message.** In every state of every run in which
only `c` pops and no signal comes, the pops so far returned the first pushes
in order, the rest is stored, a push is refused only by a full ring, and
nobody sleeps on a non-empty ring without a wake-up to come; and no dequeue
of the run is from an empty ring. -/
theorem single_consumer_delivers (c : T) {es : List (Event T)} {s : State T}
    (h : (threads T).Reaches es s)
    (hc : (threads T).Along (SingleConsumer c) (State.init T) es) :
    (threads T).Always Delivers (State.init T) es ∧
      (threads T).Along NonemptyDequeue (State.init T) es :=
  ⟨Machine.always_of_inv (fun _ => Delivering.delivers) (fun _ _ _ => Delivering.step)
      (delivering_init c) hc,
    Machine.along_of_inv (fun _ _ _ hI _ => hI.nonemptyDequeue) (fun _ _ _ => Delivering.step)
      (delivering_init c) hc h⟩

/-- The consumer of Module B and two callers of `ring_push`. -/
inductive Thread where
  | consumer
  | producerA
  | producerB
deriving DecidableEq

/-- The consumer falls asleep, two threads push, the second one wakes it. -/
def sleepingConsumer : List (Event Thread) :=
  [.enter .consumer, .wait .consumer, .wait .consumer, .wait .consumer, .wait .consumer,
    .push .producerA (.lit "Packet A"), .push .producerB (.lit "Packet B"), .wakeUp .producerB,
    .wait .consumer, .wait .consumer, .dequeue .consumer (.zero maxPacket), .wakeUp .producerA,
    .enter .consumer, .wait .consumer, .dequeue .consumer (.zero maxPacket)]

theorem sleepingConsumer_run :
    ((threads Thread).exec (State.init Thread) sleepingConsumer).isSome := by decide

theorem single_consumer_delivers_asleep :
    (threads Thread).Always Delivers (State.init Thread) sleepingConsumer ∧
      (threads Thread).Along NonemptyDequeue (State.init Thread) sleepingConsumer :=
  single_consumer_delivers .consumer (Option.some_get sleepingConsumer_run).symm (by decide)

end KernelSpace.ThreadsafeRing
