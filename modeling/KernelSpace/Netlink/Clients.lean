import KernelSpace.Lib.Registry
import KernelSpace.Netlink.Broadcast

/-!
# Netlink — what the functions do to the client table

One lemma for each function and each part of the state it touches:

* `registerClient` is `Lib.register` on the entries in use;
* a whole handling leaves the table as its own `registerClient` left it
  (`netlinkRecvMsg_table`): the nested calls, which carry port id 0, find 0
  registered or the table full;
* the loop of `sendBroadcast` is a `foldlM` over the entries in use
  (`sendBroadcast_eq_foldlM`), as long as its rounds keep the table.
-/

namespace KernelSpace.Netlink

open KernelSpace.Kernel KernelSpace.Lib

/-! ## The table -/

theorem ClientTable.inUse_length (t : ClientTable) : t.inUse.length = t.totalClients := by
  have := t.bounded
  simp only [inUse, List.length_take, Vector.length_toList]
  omega

theorem ClientTable.getElem?_inUse (t : ClientTable) {i : Nat} (h : i < t.totalClients) :
    t.inUse[i]? = some (t.client i h) := by
  have hi : i < maxClients := Nat.lt_of_lt_of_le h t.bounded
  rw [inUse, List.getElem?_take_of_lt h, client, Vector.getElem?_toList,
    Vector.getElem?_eq_getElem hi]

theorem ClientTable.registered_iff (t : ClientTable) (pid : UInt32) :
    t.registered pid = true ↔ pid ∈ t.inUse := by
  have hget : ∀ i, i < t.totalClients → t.clients[i]? = t.inUse[i]? := by
    intro i hi
    rw [inUse, List.getElem?_take_of_lt hi, Vector.getElem?_toList]
  simp only [registered, List.any_eq_true, List.mem_range, beq_iff_eq]
  constructor
  · intro h
    obtain ⟨i, hi, hpid⟩ := h
    rw [hget i hi] at hpid
    exact List.mem_of_getElem? hpid
  · intro hmem
    obtain ⟨i, hi⟩ := List.mem_iff_getElem?.mp hmem
    have hlt : i < t.totalClients := by
      rw [← t.inUse_length]
      exact (List.getElem?_eq_some_iff.mp hi).1
    exact ⟨i, hlt, by rw [hget i hlt, hi]⟩

/-- The store of `register_client` appends to the entries in use. -/
theorem ClientTable.inUse_store (t : ClientTable) (pid : UInt32)
    (h : t.totalClients < maxClients) :
    (⟨t.clients.set t.totalClients pid h, t.totalClients + 1, h⟩ : ClientTable).inUse
      = t.inUse ++ [pid] := by
  have hlen : t.clients.toList.length = maxClients := Vector.length_toList
  simp only [inUse, Vector.toList_set]
  rw [List.take_add_one, List.take_set_of_le (Nat.le_refl _),
    List.getElem?_set_self (by omega)]
  rfl

@[simp] theorem State.printk_table (s : State) (l : Printk) : (s.printk l).table = s.table := rfl
@[simp] theorem State.printk_allocs (s : State) (l : Printk) : (s.printk l).allocs = s.allocs := rfl
@[simp] theorem State.printk_sends (s : State) (l : Printk) : (s.printk l).sends = s.sends := rfl

/-! ## `registerClient` -/

theorem registerClient_inUse (pid : UInt32) (s : State) :
    (registerClient pid s).table.inUse = register maxClients s.table.inUse pid := by
  unfold registerClient
  split
  · rename_i hreg
    rw [register_of_mem ((s.table.registered_iff pid).mp hreg)]
  · rename_i hreg
    have hmem : pid ∉ s.table.inUse := fun h => hreg ((s.table.registered_iff pid).mpr h)
    split
    · rename_i hfull
      rw [register_of_full (by rwa [s.table.inUse_length])]
      rfl
    · rename_i hfull
      have hnot : ¬ (pid ∈ s.table.inUse ∨ maxClients ≤ s.table.inUse.length) := by
        rw [s.table.inUse_length]
        exact not_or.mpr ⟨hmem, hfull⟩
      rw [register, if_neg hnot]
      exact s.table.inUse_store pid (by omega)

theorem registerClient_table_of_mem {pid : UInt32} {s : State} (h : pid ∈ s.table.inUse) :
    (registerClient pid s).table = s.table := by
  rw [registerClient, if_pos ((s.table.registered_iff pid).mpr h)]

theorem registerClient_table_of_full {pid : UInt32} {s : State}
    (h : maxClients ≤ s.table.totalClients) : (registerClient pid s).table = s.table := by
  unfold registerClient
  split <;> rfl

/-- After a registration the port id is in the table or the table is full. -/
theorem registerClient_mem_or_full (pid : UInt32) (s : State) :
    pid ∈ (registerClient pid s).table.inUse
      ∨ maxClients ≤ (registerClient pid s).table.totalClients := by
  rw [← ClientTable.inUse_length, registerClient_inUse, register]
  split
  · rename_i h
    exact h
  · exact .inl (by simp)

@[simp] theorem registerClient_allocs (pid : UInt32) (s : State) :
    (registerClient pid s).allocs = s.allocs := by
  unfold registerClient
  split
  · rfl
  · split <;> rfl

@[simp] theorem registerClient_sends (pid : UInt32) (s : State) :
    (registerClient pid s).sends = s.sends := by
  unfold registerClient
  split
  · rfl
  · split <;> rfl

/-! ## The sends -/

section Callback

variable {env : Env} {input : State → Datagram → Option State}

/-- A send to a user port queues the message and returns. -/
theorem nlmsgUnicast_user {dst : UInt32} (hdst : dst ≠ 0) (skb : Datagram) (s : State) :
    nlmsgUnicast env input dst skb s
      = some (env.nlmsgUnicast s.sends.length, { s with sends := s.sends ++ [⟨dst, skb⟩] }) :=
  if_neg hdst

theorem nlmsgUnicast_kernel (skb : Datagram) (s : State) :
    nlmsgUnicast env input 0 skb s
      = (input { s with sends := s.sends ++ [⟨0, skb⟩] } skb).map
          fun s' => ((skb.len : Int), s') := rfl

/-- What a send can do to the table is what the callback does to it, and only
a send to port 0 calls it. -/
theorem nlmsgUnicast_table {dst : UInt32} {skb : Datagram} {s s' : State} {ret : Int}
    {t : ClientTable} (hs : s.table = t)
    (hin : ∀ u u', u.table = t → dst = 0 → input u skb = some u' → u'.table = t)
    (h : nlmsgUnicast env input dst skb s = some (ret, s')) : s'.table = t := by
  by_cases hdst : dst = 0
  · subst hdst
    rw [nlmsgUnicast_kernel, Option.map_eq_some_iff] at h
    obtain ⟨u, hu, heq⟩ := h
    cases heq
    exact hin _ _ (by exact hs) rfl hu
  · rw [nlmsgUnicast_user hdst] at h
    cases h
    exact hs

theorem broadcastRound_table {msg : CString} {pid : UInt32} {s s' : State}
    {t : ClientTable} (hs : s.table = t)
    (hin : ∀ u u', u.table = t → pid = 0 → input u (nlmsgPut 0 msg) = some u' → u'.table = t)
    (h : broadcastRound env input msg pid s = some s') : s'.table = t := by
  unfold broadcastRound at h
  simp only at h
  split at h
  · obtain ⟨⟨ret, u⟩, hu, heq⟩ := Option.map_eq_some_iff.mp h
    have hsent := nlmsgUnicast_table (by exact hs) hin hu
    simp only at heq
    split at heq <;> (subst heq; exact hsent)
  · cases h
    exact hs

theorem sendReply_table {msg : CString} {pid : UInt32} {s s' : State}
    {t : ClientTable} (hs : s.table = t)
    (hin : ∀ u u', u.table = t → pid = 0 → input u (nlmsgPut 0 msg) = some u' → u'.table = t)
    (h : sendReply env input pid msg s = some s') : s'.table = t := by
  unfold sendReply at h
  simp only at h
  split at h
  · obtain ⟨⟨ret, u⟩, hu, rfl⟩ := Option.map_eq_some_iff.mp h
    exact nlmsgUnicast_table (by exact hs) hin hu
  · cases h
    exact hs

/-- The loop from index `i` is a fold over the entries from `i` on, as long
as every round keeps the table. -/
theorem sendBroadcastFrom_eq_foldlM {msg : CString} (t : ClientTable)
    (hround : ∀ pid ∈ t.inUse, ∀ s s', s.table = t →
      broadcastRound env input msg pid s = some s' → s'.table = t) :
    ∀ (fuel i : Nat) (s : State), s.table = t → t.totalClients ≤ i + fuel →
      sendBroadcastFrom env input msg fuel i s
        = (t.inUse.drop i).foldlM (fun s pid => broadcastRound env input msg pid s) s := by
  intro fuel
  induction fuel with
  | zero =>
    intro i s _ hle
    rw [List.drop_eq_nil_of_le (by rw [t.inUse_length]; omega)]
    rfl
  | succ fuel ih =>
    intro i s hs hle
    subst hs
    rw [sendBroadcastFrom]
    by_cases hi : i < s.table.totalClients
    · have hi' : i < s.table.inUse.length := by rwa [s.table.inUse_length]
      have hentry : s.table.inUse[i] = s.table.client i hi :=
        Option.some.inj ((List.getElem?_eq_getElem hi').symm.trans (s.table.getElem?_inUse hi))
      rw [dif_pos hi, List.drop_eq_getElem_cons hi', List.foldlM_cons, hentry]
      cases hr : broadcastRound env input msg (s.table.client i hi) s with
      | none => rfl
      | some s' =>
        have hmem : s.table.client i hi ∈ s.table.inUse := hentry ▸ List.getElem_mem hi'
        have hs' : s'.table = s.table := hround _ hmem s s' rfl hr
        exact ih (i + 1) s' hs' (by omega)
    · rw [dif_neg hi, List.drop_eq_nil_of_le (by rw [s.table.inUse_length]; omega)]
      rfl

/-- **The broadcast loop**: one round for each entry in use, in table order. -/
theorem sendBroadcast_eq_foldlM {msg : CString} {s : State}
    (hround : ∀ pid ∈ s.table.inUse, ∀ t t', t.table = s.table →
      broadcastRound env input msg pid t = some t' → t'.table = s.table) :
    sendBroadcast env input msg s
      = s.table.inUse.foldlM (fun s pid => broadcastRound env input msg pid s) s := by
  have hb := s.table.bounded
  rw [sendBroadcast, sendBroadcastFrom_eq_foldlM s.table hround _ _ s rfl (by omega), List.drop_zero]

theorem foldlM_broadcastRound_table {msg : CString} (t : ClientTable) {pids : List UInt32}
    (hround : ∀ pid ∈ pids, ∀ s s', s.table = t →
      broadcastRound env input msg pid s = some s' → s'.table = t) {s s' : State}
    (hs : s.table = t)
    (h : pids.foldlM (fun s pid => broadcastRound env input msg pid s) s = some s') :
    s'.table = t := by
  induction pids generalizing s with
  | nil =>
    cases h
    exact hs
  | cons pid pids ih =>
    rw [List.foldlM_cons] at h
    obtain ⟨u, hu, hrest⟩ := Option.bind_eq_some_iff.mp h
    exact ih (fun p hp => hround p (List.mem_cons_of_mem _ hp))
      (hround pid List.mem_cons_self s u hs hu) hrest

end Callback

/-! ## Sends to user ports

They never reach the callback, so what they do is a function of the state. -/

/-- A round of the broadcast loop for a user port. -/
def userRound (env : Env) (msg : CString) (s : State) (pid : UInt32) : State :=
  let counted := { s with allocs := s.allocs + 1 }
  if env.nlmsgNew s.allocs then
    let sent := { counted with sends := s.sends ++ [⟨pid, nlmsgPut 0 msg⟩] }
    if env.nlmsgUnicast s.sends.length < 0 then sent.printk (.notReachable pid) else sent
  else counted

/-- A reply to a user port. -/
def userReply (env : Env) (msg : CString) (s : State) (pid : UInt32) : State :=
  let counted := { s with allocs := s.allocs + 1 }
  if env.nlmsgNew s.allocs then { counted with sends := s.sends ++ [⟨pid, nlmsgPut 0 msg⟩] }
  else counted.printk .allocFailed

section UserPorts

variable {env : Env} {input : State → Datagram → Option State} {msg : CString}

theorem broadcastRound_user {pid : UInt32} (hpid : pid ≠ 0) (s : State) :
    broadcastRound env input msg pid s = some (userRound env msg s pid) := by
  cases hnew : env.nlmsgNew s.allocs <;>
    simp [broadcastRound, userRound, hnew, nlmsgUnicast_user hpid]

theorem sendReply_user {pid : UInt32} (hpid : pid ≠ 0) (s : State) :
    sendReply env input pid msg s = some (userReply env msg s pid) := by
  cases hnew : env.nlmsgNew s.allocs <;>
    simp [sendReply, userReply, hnew, nlmsgUnicast_user hpid]

theorem foldlM_broadcastRound_user {pids : List UInt32} (h : 0 ∉ pids) (s : State) :
    pids.foldlM (fun s pid => broadcastRound env input msg pid s) s
      = some (pids.foldl (userRound env msg) s) := by
  induction pids generalizing s with
  | nil => rfl
  | cons pid pids ih =>
    have hpid : pid ≠ 0 := fun hc => h (hc ▸ List.mem_cons_self)
    rw [List.foldlM_cons, broadcastRound_user hpid]
    exact ih (fun hc => h (List.mem_cons_of_mem _ hc)) _

@[simp] theorem userRound_allocs (s : State) (pid : UInt32) :
    (userRound env msg s pid).allocs = s.allocs + 1 := by
  unfold userRound
  simp only
  split
  · split <;> rfl
  · rfl

theorem foldl_userRound_allocs (pids : List UInt32) (s : State) :
    (pids.foldl (userRound env msg) s).allocs = s.allocs + pids.length := by
  induction pids generalizing s with
  | nil => rfl
  | cons pid pids ih =>
    rw [List.foldl_cons, ih, userRound_allocs, List.length_cons]
    omega

end UserPorts

/-! ## A whole handling -/

/-- The state in which a handling starts to answer. -/
def afterRegister (s : State) (skb : Datagram) : State :=
  (registerClient skb.nlmsgPid s).printk (.received skb.nlmsgPid skb.text)

@[simp] theorem afterRegister_table (s : State) (skb : Datagram) :
    (afterRegister s skb).table = (registerClient skb.nlmsgPid s).table := rfl

@[simp] theorem afterRegister_allocs (s : State) (skb : Datagram) :
    (afterRegister s skb).allocs = s.allocs := registerClient_allocs _ s

@[simp] theorem afterRegister_sends (s : State) (skb : Datagram) :
    (afterRegister s skb).sends = s.sends := registerClient_sends _ s

theorem netlinkRecvMsg_broadcast {env : Env} {depth : Nat} {s : State} {skb : Datagram}
    (h : skb.text = .lit "broadcast") :
    netlinkRecvMsg env (depth + 1) s skb
      = sendBroadcast env (netlinkRecvMsg env depth) (.lit "Broadcast Message")
          (afterRegister s skb) :=
  if_pos ((CString.strcmp_eq_zero_iff _ _).mpr h)

theorem netlinkRecvMsg_other {env : Env} {depth : Nat} {s : State} {skb : Datagram}
    (h : skb.text ≠ .lit "broadcast") :
    netlinkRecvMsg env (depth + 1) s skb
      = sendReply env (netlinkRecvMsg env depth) skb.nlmsgPid (.lit "Hello Userspace")
          (afterRegister s skb) :=
  if_neg fun hc => h ((CString.strcmp_eq_zero_iff _ _).mp hc)

/-- A round of the broadcast loop keeps the table when 0 is registered or is
not the entry it sends to. -/
theorem broadcastRound_keeps {env : Env} {depth : Nat} {msg : CString} {t : ClientTable}
    (hin : ∀ s skb s', netlinkRecvMsg env depth s skb = some s' →
      s'.table = (registerClient skb.nlmsgPid s).table) :
    ∀ pid ∈ t.inUse, ∀ s s', s.table = t →
      broadcastRound env (netlinkRecvMsg env depth) msg pid s = some s' → s'.table = t := by
  intro pid hpid s s' hs hr
  refine broadcastRound_table hs (fun u u' hu h0 hrun => ?_) hr
  rw [hin u _ u' hrun, nlmsgPut_pid, ← hu]
  exact registerClient_table_of_mem (by rw [hu, ← h0]; exact hpid)

/-- **The table after a handling** is the table after its registration. -/
theorem netlinkRecvMsg_table {env : Env} {depth : Nat} {s s' : State} {skb : Datagram}
    (h : netlinkRecvMsg env depth s skb = some s') :
    s'.table = (registerClient skb.nlmsgPid s).table := by
  induction depth generalizing s skb s' with
  | zero => cases h
  | succ depth ih =>
    have hin : ∀ s skb s', netlinkRecvMsg env depth s skb = some s' →
        s'.table = (registerClient skb.nlmsgPid s).table := fun _ _ _ => ih
    by_cases htext : skb.text = .lit "broadcast"
    · rw [netlinkRecvMsg_broadcast htext,
        sendBroadcast_eq_foldlM (broadcastRound_keeps hin)] at h
      exact foldlM_broadcastRound_table (afterRegister s skb).table
        (broadcastRound_keeps hin) rfl h
    · rw [netlinkRecvMsg_other htext] at h
      refine sendReply_table (afterRegister_table s skb) (fun u u' hu h0 hrun => ?_) h
      rw [ih hrun, nlmsgPut_pid, ← hu]
      rcases registerClient_mem_or_full skb.nlmsgPid s with hmem | hfull
      · exact registerClient_table_of_mem (by rw [hu, ← h0]; exact hmem)
      · exact registerClient_table_of_full (by rw [hu]; exact hfull)

/-- **The broadcast branch of a handling**: one round for each entry in use
after the registration. -/
theorem netlinkRecvMsg_broadcast_eq {env : Env} {depth : Nat} {s : State} {skb : Datagram}
    (h : skb.text = .lit "broadcast") :
    netlinkRecvMsg env (depth + 1) s skb
      = (registerClient skb.nlmsgPid s).table.inUse.foldlM
          (fun s pid => broadcastRound env (netlinkRecvMsg env depth)
            (.lit "Broadcast Message") pid s) (afterRegister s skb) := by
  rw [netlinkRecvMsg_broadcast h]
  exact sendBroadcast_eq_foldlM (broadcastRound_keeps fun _ _ _ => netlinkRecvMsg_table)

end KernelSpace.Netlink
