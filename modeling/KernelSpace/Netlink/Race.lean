import Mathlib.Data.Fintype.Basic
import KernelSpace.Netlink.Clients

/-!
# Netlink — register_client without a lock

The receive callback runs in the context of the sending process, so several
of them can be inside `register_client` at a time, and nothing in the driver
keeps them apart. Here the function is cut at every access to the shared
table: the two comparisons of each round of the duplicate scan, the capacity
check, the store to `clients[total_clients]` and the increment.

`total_clients` is a plain number here: nothing holds it below `MAX_CLIENTS`
once two callers have passed the capacity check together. A comparison at an
index behind the array reads whatever is in memory there, and the event says
what; a store behind it is only recorded.

The table stays sound in exactly the runs whose stores and increments act on
tests that still hold. A caller nobody interrupts does what `registerClient`
does (`exec_alone`).
-/

namespace KernelSpace.Netlink.Race

open KernelSpace.Kernel KernelSpace.Lib

/-- Where a handler is in `register_client(pid)`. -/
inductive Pc where
  | idle
  | test (i : Nat) (pid : UInt32)
  | compare (i : Nat) (pid : UInt32)
  | check (pid : UInt32)
  | store (pid : UInt32)
  | increment (pid : UInt32)
deriving DecidableEq

/-- The table, the indices stored to so far, and the handlers. -/
structure State (T : Type*) where
  clients : Vector UInt32 maxClients
  totalClients : Nat
  stores : List Nat
  pc : T → Pc

/-- A handler calls `register_client`, or takes its next step; `behind` is
what it finds in memory if it looks behind the array. -/
inductive Event (T : Type*) where
  | call (t : T) (pid : UInt32)
  | next (t : T) (behind : UInt32)

namespace State

variable {T : Type*}

def init : State T := ⟨.replicate maxClients 0, 0, [], fun _ => .idle⟩

/-- `clients[0 .. total_clients)`. -/
def inUse (s : State T) : List UInt32 := s.clients.toList.take s.totalClients

/-- `clients[i]`, also behind the array. -/
def client (s : State T) (i : Nat) (behind : UInt32) : UInt32 := (s.clients[i]?).getD behind

variable [DecidableEq T]

def goto (s : State T) (t : T) (pc : Pc) : State T := { s with pc := Function.update s.pc t pc }

/-- The step a handler takes at `pc`. -/
def next (s : State T) (t : T) (behind : UInt32) : Option (State T) :=
  match s.pc t with
  | .idle => none
  | .test i pid =>
    some (s.goto t (if i < s.totalClients then .compare i pid else .check pid))
  | .compare i pid =>
    some (s.goto t (if s.client i behind = pid then .idle else .test (i + 1) pid))
  | .check pid => some (s.goto t (if maxClients ≤ s.totalClients then .idle else .store pid))
  | .store pid =>
    some ({ s with
      clients := s.clients.setIfInBounds s.totalClients pid
      stores := s.stores ++ [s.totalClients] }.goto t (.increment pid))
  | .increment _ => some ({ s with totalClients := s.totalClients + 1 }.goto t .idle)

def step (s : State T) : Event T → Option (State T)
  | .call t pid => if s.pc t = .idle then some (s.goto t (.test 0 pid)) else none
  | .next t behind => s.next t behind

end State

/-- Any number of handlers on the one table. -/
def handlers (T : Type*) [DecidableEq T] : Machine (State T) (Event T) where
  init := .init
  step := State.step

/-- Handler `t` takes `n` steps in a row. -/
def solo {T : Type*} (t : T) (n : Nat) : List (Event T) := List.replicate n (.next t 0)

/-! ## Soundness, and the steps that keep it -/

/-- The table is what its users take it for. -/
structure Sound {T : Type*} (s : State T) : Prop where
  total : s.totalClients ≤ maxClients
  stores : ∀ i ∈ s.stores, i < maxClients
  nodup : s.inUse.Nodup

/-- What a handler verified still holds when it acts on it: a store finds the
capacity check still passing, and an increment, for the entry it puts in use,
the check and the duplicate scan as well. -/
def Fresh {T : Type*} (s : State T) : Event T → Prop
  | .call _ _ => True
  | .next t _ =>
    match s.pc t with
    | .store _ => s.totalClients < maxClients
    | .increment _ => ∃ h : s.totalClients < maxClients, s.clients[s.totalClients] ∉ s.inUse
    | _ => True

/-- No handler enters `register_client` while another one is inside. -/
def Exclusive {T : Type*} (s : State T) : Event T → Prop
  | .call _ _ => ∀ t, s.pc t = .idle
  | .next _ _ => True

section

variable {T : Type*}

/-- A store behind the entries in use leaves them alone. -/
theorem inUse_setIfInBounds (s : State T) (pid : UInt32) (stores : List Nat) :
    ({ s with
      clients := s.clients.setIfInBounds s.totalClients pid
      stores := stores } : State T).inUse = s.inUse := by
  simp only [State.inUse, Vector.toList_setIfInBounds]
  exact List.take_set_of_le (Nat.le_refl _)

theorem inUse_increment (s : State T) (h : s.totalClients < maxClients) :
    ({ s with totalClients := s.totalClients + 1 } : State T).inUse
      = s.inUse ++ [s.clients[s.totalClients]] := by
  simp only [State.inUse]
  rw [List.take_add_one, Vector.getElem?_toList, Vector.getElem?_eq_getElem h]
  rfl

theorem inUse_length {s : State T} (h : s.totalClients ≤ maxClients) :
    s.inUse.length = s.totalClients := by
  simp only [State.inUse, List.length_take, Vector.length_toList]
  omega

theorem client_eq {s : State T} {i : Nat} (hi : i < s.totalClients)
    (h : s.totalClients ≤ maxClients) (behind : UInt32) :
    s.inUse[i]? = some (s.client i behind) := by
  have hlt : i < maxClients := Nat.lt_of_lt_of_le hi h
  rw [State.inUse, List.getElem?_take_of_lt hi, Vector.getElem?_toList, State.client,
    Vector.getElem?_eq_getElem hlt]
  rfl

variable [DecidableEq T]

@[simp] theorem goto_totalClients (s : State T) (t : T) (pc : Pc) :
    (s.goto t pc).totalClients = s.totalClients := rfl
@[simp] theorem goto_clients (s : State T) (t : T) (pc : Pc) :
    (s.goto t pc).clients = s.clients := rfl
@[simp] theorem goto_stores (s : State T) (t : T) (pc : Pc) :
    (s.goto t pc).stores = s.stores := rfl
@[simp] theorem goto_inUse (s : State T) (t : T) (pc : Pc) : (s.goto t pc).inUse = s.inUse := rfl
@[simp] theorem goto_pc_self (s : State T) (t : T) (pc : Pc) : (s.goto t pc).pc t = pc :=
  Function.update_self ..

theorem goto_pc_of_ne (s : State T) {t u : T} (h : u ≠ t) (pc : Pc) :
    (s.goto t pc).pc u = s.pc u := Function.update_of_ne h ..

@[simp] theorem goto_goto (s : State T) (t : T) (a b : Pc) :
    (s.goto t a).goto t b = s.goto t b := by
  simp [State.goto]

theorem sound_goto (s : State T) (t : T) (pc : Pc) : Sound (s.goto t pc) ↔ Sound s :=
  ⟨fun h => ⟨h.total, h.stores, h.nodup⟩, fun h => ⟨h.total, h.stores, h.nodup⟩⟩

/-- **The step lemma**: from a sound table, the fresh steps are the ones that
leave it sound. -/
theorem sound_next_iff {s s' : State T} {e : Event T} (hs : Sound s) (h : s.step e = some s') :
    Sound s' ↔ Fresh s e := by
  cases e with
  | call t pid =>
    obtain ⟨-, heq⟩ := Option.ite_none_right_eq_some.mp h
    cases heq
    simpa only [sound_goto, Fresh, iff_true]
  | next t behind =>
    simp only [State.step, State.next] at h
    simp only [Fresh]
    cases hpc : s.pc t with
    | idle => simp [hpc] at h
    | store pid =>
      simp only [hpc, Option.some.injEq] at h
      subst h
      rw [sound_goto]
      constructor
      · intro h
        exact h.stores _ (by simp)
      · intro hlt
        refine ⟨hs.total, ?_, ?_⟩
        · intro i hi
          rcases List.mem_append.mp hi with hi | hi
          · exact hs.stores i hi
          · rwa [List.mem_singleton.mp hi]
        · rw [inUse_setIfInBounds]
          exact hs.nodup
    | increment pid =>
      simp only [hpc, Option.some.injEq] at h
      subst h
      rw [sound_goto]
      constructor
      · intro h
        have hlt : s.totalClients < maxClients := h.total
        have hnodup := h.nodup
        rw [inUse_increment s hlt, List.nodup_append] at hnodup
        exact ⟨hlt, fun hmem => hnodup.2.2 _ hmem _ (List.mem_singleton_self _) rfl⟩
      · intro hfresh
        obtain ⟨hlt, hnew⟩ := hfresh
        refine ⟨hlt, hs.stores, ?_⟩
        rw [inUse_increment s hlt, List.nodup_append]
        refine ⟨hs.nodup, List.nodup_singleton _, ?_⟩
        intro a ha b hb hab
        rw [List.mem_singleton.mp hb] at hab
        exact hnew (hab ▸ ha)
    | test i pid | compare i pid | check pid =>
      simp only [hpc, Option.some.injEq] at h
      subst h
      simpa only [sound_goto, iff_true]

end

/-! ## One caller at a time -/

section

variable {T : Type*}

/-- What a handler inside has found out, while it is the only one. -/
def Knows (s : State T) : Pc → Prop
  | .idle => True
  | .test i pid => i ≤ s.totalClients ∧ pid ∉ s.inUse.take i
  | .compare i pid => i < s.totalClients ∧ pid ∉ s.inUse.take i
  | .check pid => pid ∉ s.inUse
  | .store pid => s.totalClients < maxClients ∧ pid ∉ s.inUse
  | .increment pid => ∃ h : s.totalClients < maxClients,
      s.clients[s.totalClients] = pid ∧ pid ∉ s.inUse

/-- The invariant of the runs in which handlers take turns. -/
structure Alone (s : State T) : Prop where
  sound : Sound s
  one : ∀ t u, s.pc t ≠ .idle → u ≠ t → s.pc u = .idle
  knows : ∀ t, Knows s (s.pc t)


theorem sound_init : Sound (State.init : State T) := ⟨Nat.zero_le _, nofun, List.nodup_nil⟩

theorem alone_init : Alone (State.init : State T) :=
  ⟨sound_init, fun _ _ h => absurd rfl h, fun _ => trivial⟩

/-- A handler that is alone finds everything it verified still true. -/
theorem Alone.fresh {s : State T} (h : Alone s) (e : Event T) : Fresh s e := by
  cases e with
  | call t pid => trivial
  | next t behind =>
    have hk := h.knows t
    simp only [Fresh]
    cases hpc : s.pc t with
    | store pid =>
      rw [hpc] at hk
      exact hk.1
    | increment pid =>
      rw [hpc] at hk
      obtain ⟨hlt, hslot, hnew⟩ := hk
      exact ⟨hlt, hslot ▸ hnew⟩
    | idle | test i pid | compare i pid | check pid => trivial

/-- One round of the scan further: entry `i` is not `pid` either. -/
theorem notMem_take_succ {s : State T} {i : Nat} {pid behind : UInt32}
    (hi : i < s.totalClients) (hs : s.totalClients ≤ maxClients)
    (hscan : pid ∉ s.inUse.take i) (hne : s.client i behind ≠ pid) :
    pid ∉ s.inUse.take (i + 1) := by
  rw [List.take_add_one, client_eq hi hs behind]
  intro hmem
  rcases List.mem_append.mp hmem with hmem | hmem
  · exact hscan hmem
  · exact hne (List.mem_singleton.mp hmem).symm

variable [DecidableEq T]

theorem alone_goto {s : State T} {t : T} {pc : Pc} (hs : Sound s)
    (hothers : ∀ u, u ≠ t → s.pc u = .idle) (hk : Knows s pc) : Alone (s.goto t pc) := by
  refine ⟨(sound_goto s t pc).mpr hs, ?_, ?_⟩
  · intro u v hu hv
    have hut : u = t := by
      by_contra hne
      rw [goto_pc_of_ne s hne] at hu
      exact hu (hothers u hne)
    subst hut
    rw [goto_pc_of_ne s hv]
    exact hothers v hv
  · intro u
    by_cases hut : u = t
    · subst hut
      rw [goto_pc_self]
      cases pc <;> exact hk
    · rw [goto_pc_of_ne s hut, hothers u hut]
      trivial

theorem alone_step {s s' : State T} {e : Event T} (ha : Alone s) (he : Exclusive s e)
    (h : s.step e = some s') : Alone s' := by
  have hsound : Sound s' := (sound_next_iff ha.sound h).mpr (ha.fresh e)
  cases e with
  | call t pid =>
    obtain ⟨-, heq⟩ := Option.ite_none_right_eq_some.mp h
    cases heq
    exact alone_goto ha.sound (fun u _ => he u) ⟨Nat.zero_le _, by simp⟩
  | next t behind =>
    have hk := ha.knows t
    have hothers := ha.one t
    simp only [State.step, State.next] at h
    cases hpc : s.pc t <;> simp only [hpc, Option.some.injEq, reduceCtorEq] at h hk hothers
    all_goals
      subst h
      rw [sound_goto] at hsound
      refine alone_goto hsound (fun u hu => hothers u nofun hu) ?_
    case test i pid =>
      obtain ⟨hle, hscan⟩ := hk
      split
      · rename_i hlt
        exact ⟨hlt, hscan⟩
      · rename_i hge
        rwa [List.take_of_length_le (by rw [inUse_length ha.sound.total]; omega)] at hscan
    case compare i pid =>
      obtain ⟨hlt, hscan⟩ := hk
      split
      · trivial
      · rename_i hne
        exact ⟨hlt, notMem_take_succ hlt ha.sound.total hscan hne⟩
    case check pid =>
      split
      · trivial
      · rename_i hroom
        exact ⟨Nat.lt_of_not_le hroom, hk⟩
    case store pid =>
      obtain ⟨hlt, hnew⟩ := hk
      refine ⟨hlt, ?_, ?_⟩
      · simp
      · rwa [inUse_setIfInBounds]
    case increment pid => trivial

/-- **Soundness of the table.** A run keeps the table sound exactly when its
stores and increments act on facts that still hold; it does so when the
handlers go through `register_client` one at a time. -/
theorem registered_soundly_iff (es : List (Event T)) (s : State T)
    (h : (handlers T).Reaches es s) :
    ((handlers T).Always Sound .init es ↔ (handlers T).Along Fresh .init es) ∧
      ((handlers T).Along Exclusive .init es → (handlers T).Always Sound .init es) := by
  constructor
  · refine Machine.always_iff_along (fun _ hs => hs) ?_ ?_ sound_init h
    · intro s e s' hs hfresh hstep
      exact (sound_next_iff hs hstep).mpr hfresh
    · intro s e s' hs hstep hs'
      exact (sound_next_iff hs hstep).mp hs'
  · intro hexcl
    refine Machine.always_of_inv (fun _ ha => ha.sound) ?_ alone_init hexcl
    intro s e s' ha he hstep
    exact alone_step ha he hstep

instance [Fintype T] (s : State T) : (e : Event T) → Decidable (Exclusive s e)
  | .call _ _ => inferInstanceAs (Decidable (∀ t, s.pc t = .idle))
  | .next _ _ => isTrue trivial

end

/-- One handler after the other, with the same port id. -/
def turns : List (Event Bool) :=
  [.call false 7] ++ solo false 4 ++ [.call true 7] ++ solo true 2

theorem turns_run : ((handlers Bool).exec .init turns).isSome := by decide

theorem registered_soundly_turns : (handlers Bool).Always Sound .init turns :=
  (registered_soundly_iff turns _ (Option.some_get turns_run).symm).2 (by decide)

/-- The same two calls, the second scan and check made before the first store. -/
def duplicated : List (Event Bool) :=
  [.call false 7, .call true 7] ++ solo false 2 ++ solo true 4 ++ solo false 2

/-- Nine clients registered in turn, then two more at the same time. -/
def overrun : List (Event Bool) :=
  (List.range 9).flatMap (fun n => .call false (n + 1).toUInt32 :: solo false (2 * n + 4)) ++
    [.call false 10, .call true 11] ++ solo false 20 ++ solo true 20 ++ solo false 2 ++ solo true 2

theorem duplicated_run : ((handlers Bool).exec .init duplicated).isSome := by decide

theorem overrun_run : ((handlers Bool).exec .init overrun).isSome := by decide +kernel

/-- Two handlers put one port id into the table twice; two handlers on a table
with one slot left store behind the array. -/
theorem register_client_races :
    (∃ s, (handlers Bool).Reaches duplicated s ∧ s.inUse = [7, 7] ∧ ¬ Sound s) ∧
      ∃ s, (handlers Bool).Reaches overrun s ∧ maxClients < s.totalClients ∧
        maxClients ∈ s.stores ∧ ¬ Sound s := by
  constructor
  · refine ⟨_, (Option.some_get duplicated_run).symm, ?_, ?_⟩
    · decide
    · intro hs
      exact absurd hs.nodup (by decide)
  · have hover : maxClients < (((handlers Bool).exec .init overrun).get overrun_run).totalClients := by
      decide +kernel
    refine ⟨_, (Option.some_get overrun_run).symm, hover, ?_, ?_⟩
    · decide +kernel
    · intro hs
      exact absurd hs.total (Nat.not_le_of_lt hover)

/-! ## A caller nobody interrupts -/

section

variable {T : Type*}

/-- The racy state shows the table of the sequential model. -/
def Shows (s : State T) (r : Netlink.State) : Prop :=
  s.clients = r.table.clients ∧ s.totalClients = r.table.totalClients

theorem Shows.inUse {s : State T} {r : Netlink.State} (h : Shows s r) :
    s.inUse = r.table.inUse := by
  rw [State.inUse, ClientTable.inUse, h.1, h.2]

variable [DecidableEq T]

theorem exec_solo {s s' : State T} {t : T} (h : s.next t 0 = some s') (n : Nat) :
    (handlers T).exec s (solo t (n + 1)) = (handlers T).exec s' (solo t n) := by
  rw [solo, List.replicate_succ, Machine.exec]
  change (s.next t 0).bind _ = _
  rw [h]
  rfl

theorem next_test (s : State T) (t : T) (i : Nat) (pid : UInt32) :
    (s.goto t (.test i pid)).next t 0
      = some (s.goto t (if i < s.totalClients then .compare i pid else .check pid)) := by
  simp only [State.next, goto_pc_self, goto_goto]
  rfl

theorem next_compare (s : State T) (t : T) (i : Nat) (pid : UInt32) :
    (s.goto t (.compare i pid)).next t 0
      = some (s.goto t (if s.client i 0 = pid then .idle else .test (i + 1) pid)) := by
  simp only [State.next, goto_pc_self, goto_goto]
  rfl

theorem next_check (s : State T) (t : T) (pid : UInt32) :
    (s.goto t (.check pid)).next t 0
      = some (s.goto t (if maxClients ≤ s.totalClients then .idle else .store pid)) := by
  simp only [State.next, goto_pc_self, goto_goto]
  rfl

theorem setIfInBounds_eq_set (clients : Vector UInt32 maxClients) (pid : UInt32) {i : Nat}
    (h : i < maxClients) : clients.setIfInBounds i pid = clients.set i pid h := by
  ext j hj
  rw [Vector.getElem_setIfInBounds hj, Vector.getElem_set]

/-- The table with `pid` stored and counted. -/
def State.appended (s : State T) (pid : UInt32) : State T :=
  { s with
    clients := s.clients.setIfInBounds s.totalClients pid
    stores := s.stores ++ [s.totalClients]
    totalClients := s.totalClients + 1 }

theorem exec_store (s : State T) (t : T) (pid : UInt32) :
    (handlers T).exec (s.goto t (.store pid)) (solo t 2)
      = some ((s.appended pid).goto t .idle) := by
  simp [solo, handlers, Machine.exec, State.step, State.next, State.goto, State.appended]

/-- The duplicate scan from entry `i`, when no entry before `i` ended it. -/
theorem exec_scan (s : State T) (t : T) (pid : UInt32) (hs : s.totalClients ≤ maxClients)
    (rounds : Nat) : ∀ i, i + rounds = s.totalClients → pid ∉ s.inUse.take i →
    ∃ n, (handlers T).exec (s.goto t (.test i pid)) (solo t n)
      = some (s.goto t (if pid ∈ s.inUse then .idle else .check pid)) := by
  induction rounds with
  | zero =>
    intro i hi hscan
    rw [List.take_of_length_le (by rw [inUse_length hs]; omega)] at hscan
    refine ⟨1, ?_⟩
    rw [exec_solo (next_test s t i pid), if_neg hscan, if_neg (by omega)]
    rfl
  | succ rounds ih =>
    intro i hi hscan
    have hlt : i < s.totalClients := by omega
    have htest := next_test s t i pid
    rw [if_pos hlt] at htest
    by_cases hfound : s.client i 0 = pid
    · have hmem : pid ∈ s.inUse := by
        rw [← hfound]
        exact List.mem_of_getElem? (client_eq hlt hs 0)
      refine ⟨2, ?_⟩
      rw [exec_solo htest, exec_solo (next_compare s t i pid), if_pos hfound, if_pos hmem]
      rfl
    · obtain ⟨n, hn⟩ := ih (i + 1) (by omega) (notMem_take_succ hlt hs hscan hfound)
      refine ⟨n + 2, ?_⟩
      rw [exec_solo htest, exec_solo (next_compare s t i pid), if_neg hfound]
      exact hn

/-- **A lone call is `registerClient`.** A handler that calls `register_client`
and takes all its steps before anybody else leaves the table that
`registerClient` leaves, and everybody else where they were. -/
theorem exec_alone (s : State T) (r : Netlink.State) (hr : Shows s r) (t : T) (pid : UInt32)
    (ht : s.pc t = .idle) :
    ∃ n s', (handlers T).exec s (.call t pid :: solo t n) = some s' ∧
      Shows s' (registerClient pid r) ∧ s'.pc = s.pc := by
  have hs : s.totalClients ≤ maxClients := by
    rw [hr.2]
    exact r.table.bounded
  have hcall : (handlers T).step s (.call t pid) = some (s.goto t (.test 0 pid)) := if_pos ht
  have hidle : (s.goto t .idle).pc = s.pc := by
    funext u
    by_cases hut : u = t
    · rw [hut, goto_pc_self, ht]
    · exact goto_pc_of_ne s hut _
  obtain ⟨n, hscan⟩ := exec_scan s t pid hs s.totalClients 0 (Nat.zero_add _) (by simp)
  have hrun : ∀ m, (handlers T).exec s (.call t pid :: solo t (n + m))
      = (handlers T).exec (s.goto t (if pid ∈ s.inUse then .idle else .check pid)) (solo t m) := by
    intro m
    rw [Machine.exec, hcall, Option.bind_some, solo, List.replicate_add, Machine.exec_append]
    change ((handlers T).exec _ (solo t n)).bind _ = _
    rw [hscan]
    rfl
  by_cases hmem : pid ∈ s.inUse
  · refine ⟨n, s.goto t .idle, ?_, ?_, hidle⟩
    · have h := hrun 0
      rwa [if_pos hmem] at h
    · rw [hr.inUse] at hmem
      rw [Shows, registerClient_table_of_mem hmem]
      exact hr
  · have hnot : pid ∉ r.table.inUse := hr.inUse ▸ hmem
    by_cases hfull : maxClients ≤ s.totalClients
    · refine ⟨n + 1, s.goto t .idle, ?_, ?_, hidle⟩
      · rw [hrun 1, if_neg hmem, exec_solo (next_check s t pid), if_pos hfull]
        rfl
      · rw [Shows, registerClient_table_of_full (hr.2 ▸ hfull)]
        exact hr
    · refine ⟨n + 3, (s.appended pid).goto t .idle, ?_, ?_, ?_⟩
      · rw [hrun 3, if_neg hmem, exec_solo (next_check s t pid), if_neg hfull]
        exact exec_store s t pid
      · have hlt : s.totalClients < maxClients := Nat.lt_of_not_le hfull
        have hreg : r.table.registered pid ≠ true := fun h => hnot ((r.table.registered_iff pid).mp h)
        have hset := setIfInBounds_eq_set s.clients pid hlt
        rw [Shows, registerClient, if_neg hreg, dif_neg (hr.2 ▸ hfull)]
        simp [State.appended, ← hr.1, ← hr.2, hset]
      · exact hidle

end

end KernelSpace.Netlink.Race
