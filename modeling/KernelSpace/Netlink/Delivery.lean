import KernelSpace.Netlink.Clients

/-!
# Netlink — who is registered and who is answered

Histories of messages whose headers carry non-zero port ids. Port 0 then
never enters the table, every send goes to a user port, and a handling is a
function of the state (`handled`). The run invariant is one equation: the
entries in use are the first `maxClients` distinct port ids of the history.
-/

namespace KernelSpace.Netlink

open KernelSpace.Kernel KernelSpace.Lib

/-- The entries of `pids` whose buffer allocation succeeds, the first of them
being the `k`-th `nlmsg_new` call. -/
def allocated (env : Env) (k : Nat) (pids : List UInt32) : List UInt32 :=
  ((pids.zipIdx k).filter fun entry => env.nlmsgNew entry.2).map (·.1)

theorem allocated_cons (env : Env) (k : Nat) (pid : UInt32) (pids : List UInt32) :
    allocated env k (pid :: pids)
      = if env.nlmsgNew k then pid :: allocated env (k + 1) pids
        else allocated env (k + 1) pids := by
  cases h : env.nlmsgNew k <;> simp [allocated, List.zipIdx_cons, h]

theorem allocated_of_all {env : Env} (h : ∀ i, env.nlmsgNew i = true) (k : Nat)
    (pids : List UInt32) : allocated env k pids = pids := by
  simp [allocated, h]

/-! ## Handlings that stay in user space -/

/-- What handling `skb` does, when neither the sender nor an entry of the
table is port 0. -/
def handled (env : Env) (s : State) (skb : Datagram) : State :=
  if skb.text = .lit "broadcast" then
    (registerClient skb.nlmsgPid s).table.inUse.foldl
      (userRound env (.lit "Broadcast Message")) (afterRegister s skb)
  else userReply env (.lit "Hello Userspace") (afterRegister s skb) skb.nlmsgPid

theorem netlinkRecvMsg_user {env : Env} {s : State} {skb : Datagram}
    (hpid : skb.nlmsgPid ≠ 0) (h0 : 0 ∉ s.table.inUse) (depth : Nat) :
    netlinkRecvMsg env (depth + 1) s skb = some (handled env s skb) := by
  unfold handled
  split
  · rename_i htext
    have h0' : 0 ∉ (registerClient skb.nlmsgPid s).table.inUse := by
      rw [registerClient_inUse, mem_register]
      rintro (h | ⟨h, -⟩)
      · exact h0 h
      · exact hpid h.symm
    rw [netlinkRecvMsg_broadcast_eq htext]
    exact foldlM_broadcastRound_user h0' _
  · rename_i htext
    rw [netlinkRecvMsg_other htext]
    exact sendReply_user hpid _

theorem userRound_sends (env : Env) (msg : CString) (s : State) (pid : UInt32) :
    (userRound env msg s pid).sends
      = s.sends ++ if env.nlmsgNew s.allocs then [⟨pid, nlmsgPut 0 msg⟩] else [] := by
  unfold userRound
  simp only
  split
  · split <;> rfl
  · simp

/-- The sends of a broadcast: one for each entry that got a buffer, in order,
whatever became of the others. -/
theorem foldl_userRound_sends (env : Env) (msg : CString) (pids : List UInt32) (s : State) :
    (pids.foldl (userRound env msg) s).sends
      = s.sends ++ (allocated env s.allocs pids).map fun pid => ⟨pid, nlmsgPut 0 msg⟩ := by
  induction pids generalizing s with
  | nil => simp [allocated]
  | cons pid pids ih =>
    rw [List.foldl_cons, ih, userRound_sends, userRound_allocs, allocated_cons]
    split <;> simp

theorem userReply_sends (env : Env) (msg : CString) (s : State) (pid : UInt32) :
    (userReply env msg s pid).sends
      = s.sends ++ if env.nlmsgNew s.allocs then [⟨pid, nlmsgPut 0 msg⟩] else [] := by
  unfold userReply
  simp only
  split <;> simp

theorem handled_broadcast_sends {env : Env} {s : State} {skb : Datagram}
    (h : skb.text = .lit "broadcast") :
    (handled env s skb).sends
      = s.sends ++ (allocated env s.allocs (registerClient skb.nlmsgPid s).table.inUse).map
          fun pid => ⟨pid, nlmsgPut 0 (.lit "Broadcast Message")⟩ := by
  rw [handled, if_pos h, foldl_userRound_sends, afterRegister_sends, afterRegister_allocs]

theorem handled_other_sends {env : Env} {s : State} {skb : Datagram}
    (h : skb.text ≠ .lit "broadcast") :
    (handled env s skb).sends
      = s.sends ++ if env.nlmsgNew s.allocs then
          [⟨skb.nlmsgPid, nlmsgPut 0 (.lit "Hello Userspace")⟩] else [] := by
  rw [handled, if_neg h, userReply_sends, afterRegister_sends, afterRegister_allocs]

/-! ## Runs -/

/-- **The table after a history**: the first `maxClients` distinct port ids,
in order of first appearance. -/
theorem reaches_inUse {env : Env} {es : List Delivery} {s : State}
    (h : (driver env).Reaches es s) :
    s.table.inUse = firstDistinct maxClients (es.map fun e => e.skb.nlmsgPid) := by
  induction es using List.reverseRecOn generalizing s with
  | nil =>
    cases h
    simp [driver, State.init, ClientTable.inUse, firstDistinct]
  | append_singleton es e ih =>
    obtain ⟨t, ht, hstep⟩ := Machine.exec_concat_iff.mp h
    rw [netlinkRecvMsg_table hstep, registerClient_inUse, ih ht, List.map_append,
      List.map_singleton, firstDistinct_concat]

theorem reaches_zero_notMem {env : Env} {es : List Delivery} {s : State}
    (hpid : ∀ e ∈ es, e.skb.nlmsgPid ≠ 0) (h : (driver env).Reaches es s) :
    0 ∉ s.table.inUse := by
  rw [reaches_inUse h]
  intro h0
  obtain ⟨e, he, hz⟩ := List.mem_map.mp (mem_of_mem_firstDistinct h0)
  exact hpid e he hz

/-- **Registration and delivery.** After any history with non-zero port ids
the table holds its first `maxClients` distinct port ids, and the next
message is handled, at any nesting bound, with one send for each table entry
that got a buffer when it is `broadcast`, and with at most one send, to its
own port id, otherwise. -/
theorem clients_and_sends (env : Env) (es : List Delivery) (s : State)
    (hpid : ∀ e ∈ es, e.skb.nlmsgPid ≠ 0) (hrun : (driver env).Reaches es s) :
    s.table.inUse = firstDistinct maxClients (es.map fun e => e.skb.nlmsgPid) ∧
      ∀ skb : Datagram, skb.nlmsgPid ≠ 0 →
        ∃ s', (∀ depth, netlinkRecvMsg env (depth + 1) s skb = some s') ∧
          (skb.text = .lit "broadcast" →
            s'.sends = s.sends ++ (allocated env s.allocs s'.table.inUse).map
              fun pid => ⟨pid, nlmsgPut 0 (.lit "Broadcast Message")⟩) ∧
          (skb.text ≠ .lit "broadcast" →
            ∃ new, s'.sends = s.sends ++ new ∧ new.length ≤ 1 ∧
              ∀ u ∈ new, u.dst = skb.nlmsgPid) := by
  refine ⟨reaches_inUse hrun, fun skb hskb => ?_⟩
  have hhandle : ∀ depth, netlinkRecvMsg env (depth + 1) s skb = some (handled env s skb) :=
    netlinkRecvMsg_user hskb (reaches_zero_notMem hpid hrun)
  refine ⟨handled env s skb, hhandle, fun htext => ?_, fun htext => ?_⟩
  · rw [netlinkRecvMsg_table (hhandle 0), handled_broadcast_sends htext]
  · refine ⟨_, handled_other_sends htext, ?_, ?_⟩
    · split <;> simp
    · split <;> simp

/-- Two clients, the second of them asking for a broadcast. -/
theorem clients_and_sends_two :
    ∃ s, (driver ⟨fun _ => true, fun _ => 0⟩).exec .init
        [⟨nlmsgPut 7 (.lit "Hello Kernel"), 1⟩, ⟨nlmsgPut 9 (.lit "broadcast"), 1⟩] = some s ∧
      s.table.inUse = [7, 9] := by
  have hpid : ∀ e ∈ [(⟨nlmsgPut 7 (.lit "Hello Kernel"), 1⟩ : Delivery),
      ⟨nlmsgPut 9 (.lit "broadcast"), 1⟩], e.skb.nlmsgPid ≠ 0 := by
    intro e he
    rcases List.mem_cons.mp he with rfl | he
    · decide
    · rw [List.mem_singleton.mp he]
      decide
  cases hrun : (driver ⟨fun _ => true, fun _ => 0⟩).exec .init
      [⟨nlmsgPut 7 (.lit "Hello Kernel"), 1⟩, ⟨nlmsgPut 9 (.lit "broadcast"), 1⟩] with
  | none => exact absurd hrun (by decide)
  | some s => exact ⟨s, rfl, (clients_and_sends _ _ s hpid hrun).1⟩

/-- **Who is answered.** With a buffer for every call, a handling sends to its
own sender exactly when the text is not `broadcast` or the sender is among the
first `maxClients` distinct senders, its own message included: a full table
drops the registration, and a broadcast goes to the table only. -/
theorem answered_iff (env : Env) (hnew : ∀ i, env.nlmsgNew i = true) (es : List Delivery)
    (s : State) (hpid : ∀ e ∈ es, e.skb.nlmsgPid ≠ 0) (hrun : (driver env).Reaches es s)
    (skb : Datagram) (hskb : skb.nlmsgPid ≠ 0) :
    ∃ s' new, (∀ depth, netlinkRecvMsg env (depth + 1) s skb = some s') ∧
      s'.sends = s.sends ++ new ∧
      ((∃ u ∈ new, u.dst = skb.nlmsgPid) ↔
        skb.text ≠ .lit "broadcast" ∨
          skb.nlmsgPid ∈ firstDistinct maxClients
            ((es.map fun e => e.skb.nlmsgPid) ++ [skb.nlmsgPid])) := by
  have hhandle : ∀ depth, netlinkRecvMsg env (depth + 1) s skb = some (handled env s skb) :=
    netlinkRecvMsg_user hskb (reaches_zero_notMem hpid hrun)
  by_cases htext : skb.text = .lit "broadcast"
  · refine ⟨_, _, hhandle, handled_broadcast_sends htext, ?_⟩
    rw [allocated_of_all hnew, registerClient_inUse, reaches_inUse hrun, ← firstDistinct_concat]
    simp [htext]
  · refine ⟨_, _, hhandle, handled_other_sends htext, ?_⟩
    simp [hnew, htext]

/-- Every call succeeds. -/
def envOk : Env := ⟨fun _ => true, fun _ => 0⟩

/-- Ten clients say hello and fill the table. -/
def tenHellos : List Delivery :=
  [1, 2, 3, 4, 5, 6, 7, 8, 9, 10].map fun pid => ⟨nlmsgPut pid (.lit "Hello Kernel"), 1⟩

theorem tenHellos_run : ((driver envOk).exec .init tenHellos).isSome := by decide

/-- With a full table an eleventh client is answered when it says hello, and one of
the ten when it asks for a broadcast, but not the eleventh. -/
theorem answered_iff_tableFull :
    ∃ s, (driver envOk).Reaches tenHellos s ∧
      (∃ s' new, netlinkRecvMsg envOk 1 s (nlmsgPut 11 (.lit "Hello Kernel")) = some s' ∧
        s'.sends = s.sends ++ new ∧ ∃ u ∈ new, u.dst = 11) ∧
      (∃ s' new, netlinkRecvMsg envOk 1 s (nlmsgPut 10 (.lit "broadcast")) = some s' ∧
        s'.sends = s.sends ++ new ∧ ∃ u ∈ new, u.dst = 10) ∧
      ∃ s' new, netlinkRecvMsg envOk 1 s (nlmsgPut 11 (.lit "broadcast")) = some s' ∧
        s'.sends = s.sends ++ new ∧ ¬ ∃ u ∈ new, u.dst = 11 := by
  have hrun := (Option.some_get tenHellos_run).symm
  have hanswered := answered_iff envOk (fun _ => rfl) tenHellos _ (by decide) hrun
  refine ⟨_, hrun, ?_, ?_, ?_⟩
  · obtain ⟨s', new, hhandled, hsends, hiff⟩ :=
      hanswered (nlmsgPut 11 (.lit "Hello Kernel")) (by decide)
    exact ⟨s', new, hhandled 0, hsends, hiff.mpr (.inl (by decide))⟩
  · obtain ⟨s', new, hhandled, hsends, hiff⟩ :=
      hanswered (nlmsgPut 10 (.lit "broadcast")) (by decide)
    exact ⟨s', new, hhandled 0, hsends, hiff.mpr (.inr (by decide))⟩
  · obtain ⟨s', new, hhandled, hsends, hiff⟩ :=
      hanswered (nlmsgPut 11 (.lit "broadcast")) (by decide)
    exact ⟨s', new, hhandled 0, hsends, fun hsent => absurd (hiff.mp hsent) (by decide)⟩

/-- Ten clients fill the table; the eleventh asks for a broadcast and gets no
message. -/
theorem eleventh_client_unanswered :
    ∃ s s', (driver ⟨fun _ => true, fun _ => 0⟩).exec .init
        ([1, 2, 3, 4, 5, 6, 7, 8, 9, 10].map fun pid =>
          ⟨nlmsgPut pid (.lit "Hello Kernel"), 1⟩) = some s ∧
      netlinkRecvMsg ⟨fun _ => true, fun _ => 0⟩ 1 s (nlmsgPut 11 (.lit "broadcast")) = some s' ∧
      ∀ u ∈ s'.sends.drop s.sends.length, u.dst ≠ 11 := by
  refine ⟨_, _, rfl, rfl, ?_⟩
  decide

end KernelSpace.Netlink
