import KernelSpace.Callbacks.Multiple

/-!
# Callbacks — behind an unregistration (27f)

`unregister_event_callback` of the list of callbacks stops at the first entry
it finds, and `register_event_callback` takes a callback that is in the list
already. So a callback may be left behind an unregistration. Whether it is
called is a matter of counting: an unregistration takes one of the entries
away, and only a registration brings one.
-/

namespace KernelSpace.Callbacks.Multiple

open KernelSpace.Lib

section

variable {C : Type*} [DecidableEq C]

/-- The entries of a callback after operations that do not register it: each
unregistration takes one, as long as there is one. -/
theorem count_foldl_apply {cb : C} {ops : List (Op C)} (h : .register cb ∉ ops)
    (callbacks : List C) : (ops.foldl Op.apply callbacks).count cb
      = callbacks.count cb - ops.count (.unregister cb) := by
  induction ops generalizing callbacks with
  | nil => rfl
  | cons op ops ih =>
    have hrest : .register cb ∉ ops := fun hmem => h (List.mem_cons_of_mem op hmem)
    rw [List.foldl_cons, ih hrest]
    cases op with
    | register cb' =>
      have hne : cb' ≠ cb := fun heq => h (heq ▸ List.mem_cons_self)
      simp [Op.apply, hne]
    | unregister cb' =>
      by_cases heq : cb' = cb
      · subst heq
        simp only [Op.apply, List.count_erase_self, List.count_cons_self]
        omega
      · simp [Op.apply, List.count_erase_of_ne (Ne.symm heq), heq]
    | notify => simp [Op.apply]

/-- **Behind an unregistration** the callback is gone exactly when it had at
most one entry more than it is unregistered again. -/
theorem notMem_replay_iff {cb : C} {before after : List (Op C)} (h : .register cb ∉ after) :
    cb ∉ replay (before ++ .unregister cb :: after) ↔
      (replay before).count cb ≤ 1 + after.count (.unregister cb) := by
  have hreplay : replay (before ++ .unregister cb :: after)
      = after.foldl Op.apply ((replay before).erase cb) := by
    simp [replay, Op.apply]
  rw [← List.count_eq_zero, hreplay, count_foldl_apply h, List.count_erase_self]
  omega

/-- `cb` is not called, where no registration of it took the lock behind an
unregistration of it, exactly if the list held it at most once more than it was
unregistered in between. -/
def RemovedIff (history : List (Op C)) (called : List C) : Prop :=
  ∀ cb before after, history = before ++ .unregister cb :: after → .register cb ∉ after →
    (cb ∉ called ↔ (replay before).count cb ≤ 1 + after.count (.unregister cb))

variable {T M : Type*} [DecidableEq T]

/-- **An unregistered callback is not called** by a notification exactly when
the unregistration took its last entry. This holds of every notification that
was made; of one that is still at its calls, no callback that is gone has been
called so far. -/
theorem removed_not_called_iff (s : State T C M) (h : (framework T C M).Reachable s) :
    (∀ n ∈ s.notifications, RemovedIff n.before (n.invoked.map Prod.fst)) ∧
      ∀ t msg history i invoked, s.pc t = .calling msg history i invoked →
        ∀ cb before after, history = before ++ .unregister cb :: after → .register cb ∉ after →
          (replay before).count cb ≤ 1 + after.count (.unregister cb) →
          cb ∉ invoked.map Prod.fst := by
  have hinv : Inv s := h.inv inv_init fun _ _ _ => inv_step
  constructor
  · intro n hn cb before after hsplit hafter
    have hcalled : n.invoked.map Prod.fst = replay n.before := by
      rw [hinv.faithful n hn, List.map_map]
      exact List.map_id _
    rw [hcalled, hsplit]
    exact notMem_replay_iff hafter
  · intro t msg history i invoked hpc cb before after hsplit hafter hcount
    have hcrit := hinv.critical t (hinv.inside t (by rw [hpc]; trivial))
    rw [hpc] at hcrit
    obtain ⟨-, hlist, hinvoked⟩ := hcrit
    have hgone : cb ∉ replay history := hsplit ▸ (notMem_replay_iff hafter).mpr hcount
    have hcalled : invoked.map Prod.fst = (replay history).take i := by
      rw [hinvoked, List.map_map, hlist]
      exact List.map_id _
    rw [hcalled]
    exact fun hmem => hgone (List.mem_of_mem_take hmem)

end

/-- A registration, an unregistration and a notification. -/
def registeredOnce : List (Event Bool Nat Nat) :=
  [Event.register false 1] ++ List.replicate 4 (Event.next false) ++
    [Event.unregister true 1] ++ List.replicate 3 (Event.next true) ++
    [Event.notify false 9] ++ List.replicate 3 (Event.next false)

theorem registeredOnce_run : ((framework Bool Nat Nat).exec .init registeredOnce).isSome := by
  decide

theorem removed_not_called_iff_once : ∃ s, (framework Bool Nat Nat).Reaches registeredOnce s ∧
    s.notifications.map Notification.before = [[.register 1, .unregister 1]] ∧
      ∀ n ∈ s.notifications, 1 ∉ n.invoked.map Prod.fst := by
  have hreach := (Option.some_get registeredOnce_run).symm
  refine ⟨_, hreach, by decide, fun n hn => ?_⟩
  have hbefore : n.before = [.register 1] ++ .unregister 1 :: [] := by
    revert n
    decide
  exact ((removed_not_called_iff _ ⟨_, hreach⟩).1 n hn 1 _ _ hbefore (by decide)).mpr (by decide)

/-- Registered twice and unregistered once, the callback is called. -/
theorem registered_twice_called :
    ¬ ∀ s : State Bool Nat Nat, (framework Bool Nat Nat).Reachable s → ∀ n ∈ s.notifications,
      ∀ cb before after, n.before = before ++ .unregister cb :: after →
        .register cb ∉ after → cb ∉ n.invoked.map Prod.fst := by
  intro h
  have hreach := (Option.some_get session_run).symm
  have hcalled :
      ∃ n ∈ (((framework Bool Nat Nat).exec .init session).get session_run).notifications,
        n.before = [.register 1, .register 2, .register 1] ++ .unregister 1 :: [] ∧
        1 ∈ n.invoked.map Prod.fst := by
    decide
  obtain ⟨n, hn, hbefore, hmem⟩ := hcalled
  exact h _ ⟨session, hreach⟩ n hn 1 _ _ hbefore (by decide) hmem

end KernelSpace.Callbacks.Multiple
