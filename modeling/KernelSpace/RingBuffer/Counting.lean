import KernelSpace.RingBuffer.Threadsafe

/-!
# RingBuffer — the books of the thread-safe ring

`Accounted` is what the counts of 27d should satisfy in every state: not more
pops than pushes, as many stored strings as the difference, no push returned
by two pops.

`ring_pop` sees `head != tail` in its wait and takes the lock afterwards,
where it does not look again (27c does), and it goes on to the lock after an
interrupted wait as well. So `tail` can pass `head`. The condition is on the
dequeue step alone: `NonemptyDequeue`. Runs that meet it keep the invariant
`Exact`, in which the ring holds exactly the pushes not yet popped, by number
and in order; the first step that breaks it pops more than was pushed.
-/

namespace KernelSpace.ThreadsafeRing

open KernelSpace.Kernel KernelSpace.Lib KernelSpace.RingBuffer

variable {T : Type*}

/-- The counts agree, and no push was popped twice. -/
structure Accounted (s : State T) : Prop where
  le : s.popped.length ≤ s.pushed.length
  stored : s.ring.count = s.pushed.length - s.popped.length
  once : (s.taken.filterMap id).Nodup

instance (s : State T) : Decidable (Accounted s) :=
  decidable_of_iff
    (s.popped.length ≤ s.pushed.length ∧ s.ring.count = s.pushed.length - s.popped.length ∧
      (s.taken.filterMap id).Nodup)
    ⟨fun h => ⟨h.1, h.2.1, h.2.2⟩, fun h => ⟨h.le, h.stored, h.once⟩⟩

/-- A dequeue finds the ring non-empty. -/
def NonemptyDequeue (s : State T) : Event T → Prop
  | .dequeue _ _ => s.ring.head ≠ s.ring.tail
  | _ => True

instance (s : State T) : (e : Event T) → Decidable (NonemptyDequeue s e)
  | .dequeue _ _ => inferInstanceAs (Decidable (s.ring.head ≠ s.ring.tail))
  | .push _ _ | .wakeUp _ | .enter _ | .wait _ | .signal _ | .wakeProcess _ => isTrue trivial

/-- The slots hold the pushes that no pop has returned, by number. -/
structure Exact (s : State T) : Prop where
  head : s.origin.head = s.ring.head
  tail : s.origin.tail = s.ring.tail
  contents : s.origin.contents = (List.range' s.popped.length s.ring.count).map some
  pushed : s.pushed.length = s.popped.length + s.ring.count
  taken : s.taken = (List.range s.popped.length).map some

theorem exact_init : Exact (State.init T) := by
  have hempty : (State.init T).ring.count = 0 := (Ring.empty_iff _).mp rfl
  refine ⟨rfl, rfl, ?_, ?_, rfl⟩
  · rw [hempty]
    exact (Ring.contents_eq_nil_iff _).mpr rfl
  · rw [hempty]
    rfl

theorem Exact.accounted {s : State T} (h : Exact s) : Accounted s where
  le := by
    have := h.pushed
    omega
  stored := by
    have := h.pushed
    omega
  once := by
    rw [h.taken, List.filterMap_map]
    simpa using List.nodup_range

theorem Exact.setPc {s : State T} (h : Exact s) (pc : T → Pc) : Exact { s with pc := pc } :=
  ⟨h.head, h.tail, h.contents, h.pushed, h.taken⟩

variable [DecidableEq T]

theorem Exact.ringPush {s : State T} (h : Exact s) (hroom : (queue s.ring).length ≠ ringSize - 1)
    (t : T) (msg : CString) : Exact (ringPush s t msg) := by
  rw [ringPush_room hroom]
  have hnext : Ring.next s.ring.head ≠ s.ring.tail := fun hc => hroom ((full_iff _).mp hc)
  have hnext' : Ring.next s.origin.head ≠ s.origin.tail := by
    rw [h.head, h.tail]
    exact hnext
  have hcount := Ring.count_enqueue hnext ((s.ring.data.get s.ring.head).strscpy msg)
  refine ⟨?_, h.tail, ?_, ?_, h.taken⟩
  · show Ring.next s.origin.head = Ring.next s.ring.head
    rw [h.head]
  · show (s.origin.enqueue (some s.pushed.length)).contents = _
    rw [Ring.contents_enqueue hnext', h.contents, hcount, List.range'_1_concat, List.map_append,
      ← h.pushed]
    rfl
  · show (s.pushed ++ [msg]).length = s.popped.length + _
    rw [List.length_append, List.length_singleton, hcount, h.pushed]
    omega

theorem Exact.ringPop {s : State T} (h : Exact s) (hne : s.ring.head ≠ s.ring.tail)
    (t : T) (buf : CharArray maxPacket) : Exact (ringPop s t buf) := by
  have hcount : s.ring.count = s.ring.dequeue.count + 1 := Ring.count_dequeue hne
  have hne' : s.origin.head ≠ s.origin.tail := by
    rw [h.head, h.tail]
    exact hne
  -- the slot at `tail` is the oldest push that no pop has returned
  have hcons := (Ring.contents_dequeue hne').symm.trans h.contents
  rw [hcount, List.range'_succ, List.map_cons] at hcons
  obtain ⟨holdest, hrest⟩ := List.cons.inj hcons
  have hlen (x : CString) : (s.popped ++ [x]).length = s.popped.length + 1 := by simp
  refine ⟨h.head, ?_, ?_, ?_, ?_⟩
  · show Ring.next s.origin.tail = Ring.next s.ring.tail
    rw [h.tail]
  · show s.origin.dequeue.contents = (List.range' (s.popped ++ [_]).length _).map some
    rw [hrest, hlen]
    rfl
  · show s.pushed.length = (s.popped ++ [_]).length + s.ring.dequeue.count
    rw [hlen, h.pushed, hcount]
    omega
  · show s.taken ++ [s.origin.data.get s.origin.tail] = (List.range (s.popped ++ [_]).length).map some
    rw [hlen, List.range_succ, List.map_append, h.taken, holdest]
    rfl

theorem Exact.step {s s' : State T} {e : Event T} (h : Exact s) (he : NonemptyDequeue s e)
    (hs : step s e = some s') : Exact s' := by
  rcases step_cases hs with ⟨t, msg, rfl, hroom, rfl⟩ | ⟨t, buf, rfl, rfl⟩ | ⟨-, pc, rfl⟩
  · exact h.ringPush hroom t msg
  · exact h.ringPop he t buf
  · exact h.setPc pc

/-- A pop of an empty ring returns more than was pushed. -/
theorem nonemptyDequeue_of_accounted {s s' : State T} {e : Event T} (h : Exact s)
    (hs : step s e = some s') (hs' : Accounted s') : NonemptyDequeue s e := by
  cases e with
  | dequeue t buf =>
    intro hempty
    obtain ⟨ret, -, rfl⟩ := step_dequeue.mp hs
    have hzero : s.ring.count = 0 := (Ring.empty_iff _).mp hempty
    have hle : (s.popped ++ [_]).length ≤ s.pushed.length := hs'.le
    have hpushed := h.pushed
    rw [List.length_append, List.length_singleton] at hle
    omega
  | push | wakeUp | enter | wait | signal | wakeProcess => trivial

/-- **The books are right** in every state of a run of any number of threads
exactly when every dequeue of the run finds the ring non-empty. -/
theorem accounted_iff {es : List (Event T)} {s : State T} (h : (threads T).Reaches es s) :
    (threads T).Always Accounted (State.init T) es ↔
      (threads T).Along NonemptyDequeue (State.init T) es :=
  Machine.always_iff_along (I := Exact) (fun _ => Exact.accounted)
    (fun _ _ _ => Exact.step) (fun _ _ _ => nonemptyDequeue_of_accounted) exact_init h

/-- One message and one consumer. -/
def oneConsumer : List (Event (Fin 3)) :=
  [.push 0 (.lit "Packet A"), .wakeUp 0, .enter 1, .wait 1, .dequeue 1 (.zero maxPacket)]

/-- One message and two consumers: both see it in their waits, both dequeue. -/
def twoConsumers : List (Event (Fin 3)) :=
  [.push 0 (.lit "Packet A"), .wakeUp 0, .enter 1, .enter 2, .wait 1, .wait 2,
    .dequeue 1 (.zero maxPacket), .dequeue 2 (.zero maxPacket)]

theorem oneConsumer_run :
    ((threads (Fin 3)).exec (State.init (Fin 3)) oneConsumer).isSome := by decide

theorem twoConsumers_run :
    ((threads (Fin 3)).exec (State.init (Fin 3)) twoConsumers).isSome := by decide

theorem accounted_iff_consumers :
    (threads (Fin 3)).Always Accounted (State.init (Fin 3)) oneConsumer ∧
      ¬ (threads (Fin 3)).Always Accounted (State.init (Fin 3)) twoConsumers := by
  rw [accounted_iff (Option.some_get oneConsumer_run).symm,
    accounted_iff (Option.some_get twoConsumers_run).symm]
  decide

theorem two_consumers_pop_once_pushed :
    ¬ ∀ es s, (threads (Fin 3)).Reaches es s → Accounted s := by
  intro h
  have hbooks := h twoConsumers _ (Option.some_get twoConsumers_run).symm
  revert hbooks
  decide

end KernelSpace.ThreadsafeRing
