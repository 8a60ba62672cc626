import KernelSpace.Netlink.Clients

/-!
# Netlink — when a handling terminates

A send to port id 0 re-enters the driver with a message whose header carries
0 and whose text is not `broadcast`, so its handling is one more reply to
port 0: each level of the nesting makes one `nlmsg_new` call, and the chain
ends only at a call that fails (`reply_isSome`).

A client gets there in two ways: by a header with port id 0, and by the text
`broadcast` once 0 is in the table. `kernelSendAt` reads off the state how
many allocations come before the first such send; the handling terminates
when there is none or when an allocation fails from there on.
-/

namespace KernelSpace.Netlink

open KernelSpace.Kernel KernelSpace.Lib

theorem hello_ne_broadcast : CString.lit "Hello Userspace" ≠ .lit "broadcast" := by decide

theorem message_ne_broadcast : CString.lit "Broadcast Message" ≠ .lit "broadcast" := by decide

/-- Some `nlmsg_new` call fails, the `k`-th or a later one. -/
def Env.FailsFrom (env : Env) (k : Nat) : Prop := ∃ i, k ≤ i ∧ env.nlmsgNew i = false

theorem Env.FailsFrom.here {env : Env} {k : Nat} (h : env.nlmsgNew k = false) :
    env.FailsFrom k := ⟨k, Nat.le_refl k, h⟩

/-- Past a successful call the failure is still to come. -/
theorem Env.failsFrom_succ_iff {env : Env} {k : Nat} (h : env.nlmsgNew k = true) :
    env.FailsFrom (k + 1) ↔ env.FailsFrom k := by
  constructor
  · rintro ⟨i, hi, hf⟩
    exact ⟨i, by omega, hf⟩
  · rintro ⟨i, hi, hf⟩
    rcases Nat.eq_or_lt_of_le hi with rfl | hlt
    · simp [h] at hf
    · exact ⟨i, hlt, hf⟩

/-! ## Replies -/

section Callback

variable {env : Env} {input : State → Datagram → Option State}

/-- A reply that gets no buffer returns. -/
theorem sendReply_of_fails {pid : UInt32} {msg : CString} {s : State}
    (h : env.nlmsgNew s.allocs = false) : (sendReply env input pid msg s).isSome := by
  simp [sendReply, h]

/-- A reply to port 0 that gets a buffer returns when the callback does. -/
theorem sendReply_kernel (msg : CString) {s : State} (h : env.nlmsgNew s.allocs = true) :
    ∃ t : State, t.allocs = s.allocs + 1 ∧ ∀ input : State → Datagram → Option State,
      (sendReply env input 0 msg s).isSome = (input t (nlmsgPut 0 msg)).isSome := by
  refine ⟨{ s with allocs := s.allocs + 1, sends := s.sends ++ [⟨0, nlmsgPut 0 msg⟩] }, rfl, ?_⟩
  intro input
  simp [sendReply, h, nlmsgUnicast_kernel]

end Callback

/-- A reply to port 0 never returns when no buffer allocation fails: each
depth only moves the question one level down. -/
theorem reply_eq_none {env : Env} {depth : Nat} {s : State} {skb : Datagram}
    (hpid : skb.nlmsgPid = 0) (htext : skb.text ≠ .lit "broadcast")
    (hnew : ¬ env.FailsFrom s.allocs) : netlinkRecvMsg env depth s skb = none := by
  induction depth generalizing s skb with
  | zero => rfl
  | succ depth ih =>
    have hok : env.nlmsgNew s.allocs = true := by
      by_contra hf
      exact hnew (.here (Bool.not_eq_true _ ▸ hf))
    have hok' : env.nlmsgNew (afterRegister s skb).allocs = true := by simpa using hok
    obtain ⟨t, hallocs, hsome⟩ := sendReply_kernel (.lit "Hello Userspace") hok'
    rw [netlinkRecvMsg_other htext, hpid, ← Option.not_isSome_iff_eq_none, hsome,
      Option.not_isSome_iff_eq_none]
    refine ih rfl (by simpa using hello_ne_broadcast) ?_
    rwa [hallocs, afterRegister_allocs, Env.failsFrom_succ_iff hok]

/-- It returns when the `n`-th allocation from here fails: the induction is on
the distance to the failing call. -/
theorem reply_isSome {env : Env} (n : Nat) {s : State} {skb : Datagram}
    (hpid : skb.nlmsgPid = 0) (htext : skb.text ≠ .lit "broadcast")
    (hnew : env.nlmsgNew (s.allocs + n) = false) : Terminates env s skb := by
  induction n generalizing s skb with
  | zero =>
    refine ⟨1, ?_⟩
    rw [netlinkRecvMsg_other htext]
    exact sendReply_of_fails (by simpa using hnew)
  | succ n ih =>
    by_cases hok : env.nlmsgNew s.allocs = true
    · have hok' : env.nlmsgNew (afterRegister s skb).allocs = true := by simpa using hok
      obtain ⟨t, hallocs, hsome⟩ := sendReply_kernel (.lit "Hello Userspace") hok'
      have ht : env.nlmsgNew (t.allocs + n) = false := by
        rw [hallocs, afterRegister_allocs, show s.allocs + 1 + n = s.allocs + (n + 1) by omega]
        exact hnew
      have hnested : Terminates env t (nlmsgPut 0 (.lit "Hello Userspace")) :=
        ih rfl (by simpa using hello_ne_broadcast) ht
      obtain ⟨depth, hdepth⟩ := hnested
      exact ⟨depth + 1, by rw [netlinkRecvMsg_other htext, hpid, hsome, hdepth]⟩
    · refine ⟨1, ?_⟩
      rw [netlinkRecvMsg_other htext]
      exact sendReply_of_fails (by simpa using hok)

/-- **A reply to port 0** returns exactly when some buffer allocation of the
chain fails. -/
theorem reply_terminates_iff {env : Env} {s : State} {skb : Datagram}
    (hpid : skb.nlmsgPid = 0) (htext : skb.text ≠ .lit "broadcast") :
    Terminates env s skb ↔ env.FailsFrom s.allocs := by
  constructor
  · rintro ⟨depth, hsome⟩
    by_contra hnew
    rw [reply_eq_none hpid htext hnew] at hsome
    cases hsome
  · rintro ⟨i, hi, hf⟩
    exact reply_isSome (i - s.allocs) hpid htext (by rwa [Nat.add_sub_cancel' hi])

/-! ## Broadcasts -/

/-- **The round for port 0** returns exactly when some allocation from it on
fails. -/
theorem kernelRound_terminates_iff {env : Env} {msg : CString}
    (hmsg : msg ≠ .lit "broadcast") (s : State) :
    (∃ depth, (broadcastRound env (netlinkRecvMsg env depth) msg 0 s).isSome)
      ↔ env.FailsFrom s.allocs := by
  cases hnew : env.nlmsgNew s.allocs with
  | false =>
    exact ⟨fun _ => .here hnew, fun _ => ⟨0, by simp [broadcastRound, hnew]⟩⟩
  | true =>
    let t : State :=
      { s with allocs := s.allocs + 1, sends := s.sends ++ [⟨0, nlmsgPut 0 msg⟩] }
    have hround : ∀ depth, (broadcastRound env (netlinkRecvMsg env depth) msg 0 s).isSome
        = (netlinkRecvMsg env depth t (nlmsgPut 0 msg)).isSome := by
      intro depth
      simp [broadcastRound, hnew, nlmsgUnicast_kernel, t]
    have hnested : Terminates env t (nlmsgPut 0 msg) ↔ env.FailsFrom (s.allocs + 1) :=
      reply_terminates_iff rfl (by simpa using hmsg)
    simp only [hround]
    rw [← Env.failsFrom_succ_iff hnew]
    exact hnested

/-- **A broadcast** returns exactly when port 0 is not in the table it sends
to, or an allocation fails from the one for port 0 on. -/
theorem broadcast_terminates_iff {env : Env} {s : State} {skb : Datagram}
    (htext : skb.text = .lit "broadcast")
    (hnodup : (registerClient skb.nlmsgPid s).table.inUse.Nodup) :
    Terminates env s skb ↔
      (0 ∈ (registerClient skb.nlmsgPid s).table.inUse →
        env.FailsFrom (s.allocs + (registerClient skb.nlmsgPid s).table.inUse.idxOf 0)) := by
  have hrun : Terminates env s skb ↔
      ∃ depth, ((registerClient skb.nlmsgPid s).table.inUse.foldlM
        (fun s pid => broadcastRound env (netlinkRecvMsg env depth)
          (.lit "Broadcast Message") pid s) (afterRegister s skb)).isSome := by
    constructor
    · rintro ⟨depth, h⟩
      cases depth with
      | zero => cases h
      | succ depth => exact ⟨depth, by rwa [netlinkRecvMsg_broadcast_eq htext] at h⟩
    · rintro ⟨depth, h⟩
      exact ⟨depth + 1, by rwa [netlinkRecvMsg_broadcast_eq htext]⟩
  rw [hrun]
  generalize (registerClient skb.nlmsgPid s).table.inUse = pids at hnodup ⊢
  by_cases h0 : 0 ∈ pids
  · -- the rounds before and after the one for port 0 return on their own
    obtain ⟨pre, post, rfl, hpre⟩ := List.eq_append_cons_of_mem h0
    have hpost : 0 ∉ post := by
      have := (List.nodup_append.mp hnodup).2.1
      exact (List.nodup_cons.mp this).1
    have hidx : (pre ++ 0 :: post).idxOf 0 = pre.length := by
      simp [List.idxOf_append_of_notMem hpre]
    have hfold : ∀ depth, ((pre ++ 0 :: post).foldlM
        (fun s pid => broadcastRound env (netlinkRecvMsg env depth)
          (.lit "Broadcast Message") pid s) (afterRegister s skb)).isSome
        = (broadcastRound env (netlinkRecvMsg env depth) (.lit "Broadcast Message") 0
            (pre.foldl (userRound env (.lit "Broadcast Message")) (afterRegister s skb))).isSome := by
      intro depth
      rw [List.foldlM_append, foldlM_broadcastRound_user hpre, Option.bind_eq_bind,
        Option.bind_some, List.foldlM_cons]
      cases broadcastRound env (netlinkRecvMsg env depth) (.lit "Broadcast Message") 0
          (pre.foldl (userRound env (.lit "Broadcast Message")) (afterRegister s skb)) with
      | none => rfl
      | some t =>
        rw [Option.bind_eq_bind, Option.bind_some, foldlM_broadcastRound_user hpost]
        rfl
    simp only [hfold]
    rw [kernelRound_terminates_iff message_ne_broadcast, foldl_userRound_allocs,
      afterRegister_allocs, hidx]
    exact ⟨fun h _ => h, fun h => h h0⟩
  · refine ⟨fun _ h => absurd h h0, fun _ => ⟨0, ?_⟩⟩
    rw [foldlM_broadcastRound_user h0]
    rfl

/-! ## The exact condition, on the state before -/

/-- How many buffers are allocated before the first send to port 0, if the
handling gets to one: a `broadcast` gets there through the table entry 0, new
or old; any other text replies to the header's port id at once. -/
def kernelSendAt (s : State) (skb : Datagram) : Option Nat :=
  if skb.text = .lit "broadcast" then
    if 0 ∈ s.table.inUse then some (s.table.inUse.idxOf 0)
    else if skb.nlmsgPid = 0 ∧ s.table.totalClients < maxClients then some s.table.totalClients
    else none
  else if skb.nlmsgPid = 0 then some 0
  else none

theorem reachable_nodup {env : Env} {s : State} (h : (driver env).Reachable s) :
    s.table.inUse.Nodup := by
  refine h.inv (I := fun s => s.table.inUse.Nodup) (by simp [driver, State.init, ClientTable.inUse]) ?_
  intro s d s' hs hstep
  rw [netlinkRecvMsg_table hstep, registerClient_inUse]
  exact register_nodup hs _

/-- Where a `broadcast` finds port 0 in the table it sends to. -/
theorem kernelSendAt_broadcast {s : State} {skb : Datagram}
    (htext : skb.text = .lit "broadcast") (n : Nat) :
    kernelSendAt s skb = some n ↔
      0 ∈ (registerClient skb.nlmsgPid s).table.inUse ∧
        (registerClient skb.nlmsgPid s).table.inUse.idxOf 0 = n := by
  rw [kernelSendAt, if_pos htext, registerClient_inUse, ← s.table.inUse_length]
  by_cases h0 : 0 ∈ s.table.inUse
  · rw [if_pos h0]
    unfold register
    split
    · simp [h0]
    · simp [h0, List.idxOf_append_of_mem h0]
  · rw [if_neg h0, mem_register]
    by_cases hnew : skb.nlmsgPid = 0 ∧ s.table.inUse.length < maxClients
    · have hroom : ¬ (0 ∈ s.table.inUse ∨ maxClients ≤ s.table.inUse.length) := by
        rintro (h | h)
        · exact h0 h
        · omega
      rw [if_pos hnew, hnew.1, register, if_neg hroom, List.idxOf_append_of_notMem h0]
      simp [hnew.2]
    · rw [if_neg hnew]
      constructor
      · intro h
        cases h
      · rintro ⟨h | ⟨h, hlt⟩, -⟩
        · exact absurd h h0
        · exact absurd ⟨h.symm, hlt⟩ hnew

/-- **Termination of a handling**: it returns exactly when it never gets to a
send to the kernel's own port, or a buffer allocation fails from the one for
that send on. -/
theorem terminates_iff (env : Env) (s : State) (skb : Datagram)
    (hs : (driver env).Reachable s) :
    Terminates env s skb ↔
      ∀ n, kernelSendAt s skb = some n →
        ∃ i, s.allocs + n ≤ i ∧ env.nlmsgNew i = false := by
  by_cases htext : skb.text = .lit "broadcast"
  · have hnodup : (registerClient skb.nlmsgPid s).table.inUse.Nodup := by
      rw [registerClient_inUse]
      exact register_nodup (reachable_nodup hs) _
    rw [broadcast_terminates_iff htext hnodup]
    simp only [kernelSendAt_broadcast htext]
    constructor
    · rintro h n ⟨h0, rfl⟩
      exact h h0
    · intro h h0
      exact h _ ⟨h0, rfl⟩
  · rw [kernelSendAt, if_neg htext]
    by_cases hpid : skb.nlmsgPid = 0
    · rw [if_pos hpid, reply_terminates_iff hpid htext]
      constructor
      · rintro h n ⟨⟩
        exact h
      · intro h
        exact h 0 rfl
    · rw [if_neg hpid]
      constructor
      · rintro - n ⟨⟩
      · intro _
        refine ⟨1, ?_⟩
        rw [netlinkRecvMsg_other htext, sendReply_user hpid]
        rfl

/-- The first message of a client, sent to a driver just loaded. -/
theorem terminates_iff_first_broadcast :
    Terminates ⟨fun _ => true, fun _ => 0⟩ .init (nlmsgPut 7 (.lit "broadcast")) :=
  (terminates_iff ⟨fun _ => true, fun _ => 0⟩ .init (nlmsgPut 7 (.lit "broadcast"))
    Machine.Reachable.init).mpr fun n hn => by
      rw [show kernelSendAt .init (nlmsgPut 7 (.lit "broadcast")) = none by decide] at hn
      cases hn

/-- A header with port id 0 is enough: with a buffer for every call, no bound
on the nesting lets the very first handling return. -/
theorem zero_pid_diverges :
    (driver ⟨fun _ => true, fun _ => 0⟩).Reachable .init ∧
      ¬ Terminates ⟨fun _ => true, fun _ => 0⟩ .init (nlmsgPut 0 (.lit "Hello Kernel")) := by
  refine ⟨Machine.Reachable.init, ?_⟩
  rw [reply_terminates_iff rfl (by decide)]
  rintro ⟨i, -, hi⟩
  cases hi

end KernelSpace.Netlink
