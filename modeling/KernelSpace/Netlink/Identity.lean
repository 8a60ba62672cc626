import KernelSpace.Netlink.Delivery
import KernelSpace.Netlink.Termination

/-!
# Netlink — whose port id it is

The driver takes the port id it registers and answers from `nlmsg_pid`, a
field the sender fills in as it likes; the port id of the socket that really
sent the datagram is not looked at. Here a datagram comes with that port id
(`Post`), and every handling is recorded with what it registered and sent.

`Own` says that the two port ids are used as if they were the same. It holds
in a run exactly as long as every datagram is `Harmless`: its header tells
the truth, or the driver has nothing to do for the port id it names.
-/

namespace KernelSpace.Netlink

open KernelSpace.Kernel KernelSpace.Lib

/-- A datagram, the port id of the user socket it was sent from, and a bound
on the nesting of its handling. -/
structure Post where
  sender : UInt32
  user : sender ≠ 0
  skb : Datagram
  depth : Nat

/-- What one handling entered into the table and sent. -/
structure Handling where
  post : Post
  registered : List UInt32
  sent : List Unicast

structure Watched where
  driver : State
  history : List Handling

/-- The driver, watched while it handles datagrams one at a time. -/
def watch (env : Env) : Machine Watched Post where
  init := ⟨.init, []⟩
  step w p := (netlinkRecvMsg env p.depth w.driver p.skb).map fun s' =>
    { driver := s'
      history := w.history ++
        [{ post := p
           registered := s'.table.inUse.drop w.driver.table.inUse.length
           sent := s'.sends.drop w.driver.sends.length }] }

/-- Nobody acts for another socket: who is registered has sent a datagram,
and a handling registers and, unless it is a broadcast, answers its own
sender only. -/
structure Own (w : Watched) : Prop where
  entries : ∀ pid ∈ w.driver.table.inUse, ∃ h ∈ w.history, h.post.sender = pid
  registered : ∀ h ∈ w.history, ∀ pid ∈ h.registered, pid = h.post.sender
  replies : ∀ h ∈ w.history, h.post.skb.text ≠ .lit "broadcast" →
    ∀ u ∈ h.sent, u.dst = h.post.sender

/-- The header names the sender, or it names a port id that the table has
already or has no room for, and no reply comes of it: the text is `broadcast`
or there is no buffer. -/
def Harmless (env : Env) (w : Watched) (p : Post) : Prop :=
  p.skb.nlmsgPid = p.sender ∨
    (p.skb.nlmsgPid ∈ w.driver.table.inUse ∨ maxClients ≤ w.driver.table.totalClients) ∧
      (p.skb.text = .lit "broadcast" ∨ env.nlmsgNew w.driver.allocs = false)

section

variable {env : Env}

/-- The entries a registration adds. -/
theorem registerClient_drop (pid : UInt32) (s : State) :
    (registerClient pid s).table.inUse.drop s.table.inUse.length
      = if pid ∈ s.table.inUse ∨ maxClients ≤ s.table.totalClients then [] else [pid] := by
  rw [registerClient_inUse, register, s.table.inUse_length]
  split
  · rw [← s.table.inUse_length, List.drop_length]
  · rw [← s.table.inUse_length, List.drop_left]

/-- A reply without a buffer is no send. -/
theorem netlinkRecvMsg_unsent {depth : Nat} {s s' : State} {skb : Datagram}
    (htext : skb.text ≠ .lit "broadcast") (hnew : env.nlmsgNew s.allocs = false)
    (h : netlinkRecvMsg env depth s skb = some s') : s'.sends = s.sends := by
  cases depth with
  | zero => cases h
  | succ depth =>
    rw [netlinkRecvMsg_other htext] at h
    simp only [sendReply, afterRegister_allocs, hnew] at h
    cases h
    exact afterRegister_sends s skb

/-- A reply with a buffer starts with a send to the port id of the header,
whatever its nested calls send after it. -/
theorem netlinkRecvMsg_replied {depth : Nat} {s s' : State} {skb : Datagram}
    (htext : skb.text ≠ .lit "broadcast") (hnew : env.nlmsgNew s.allocs = true)
    (h : netlinkRecvMsg env depth s skb = some s') :
    ∃ rest, s'.sends
      = s.sends ++ ⟨skb.nlmsgPid, nlmsgPut 0 (.lit "Hello Userspace")⟩ :: rest := by
  induction depth generalizing s s' skb with
  | zero => cases h
  | succ depth ih =>
    rw [netlinkRecvMsg_other htext] at h
    by_cases hpid : skb.nlmsgPid = 0
    · have hnew' : env.nlmsgNew (afterRegister s skb).allocs = true := by simpa using hnew
      rw [hpid, sendReply, if_pos hnew', nlmsgUnicast_kernel] at h
      simp only [Option.map_map, Option.map_eq_some_iff, Function.comp_apply] at h
      obtain ⟨t, ht, rfl⟩ := h
      have htext' : (nlmsgPut 0 (.lit "Hello Userspace")).text ≠ .lit "broadcast" := by
        simpa using hello_ne_broadcast
      rw [hpid]
      -- the callback runs on the reply itself: it answers in turn, or has no buffer
      by_cases hnext : env.nlmsgNew (s.allocs + 1) = true
      · obtain ⟨rest, hrest⟩ := ih htext' (by simpa using hnext) ht
        refine ⟨⟨0, nlmsgPut 0 (.lit "Hello Userspace")⟩ :: rest, ?_⟩
        simpa using hrest
      · rw [Bool.not_eq_true] at hnext
        have hunsent := netlinkRecvMsg_unsent htext' (by simpa using hnext) ht
        exact ⟨[], by simpa using hunsent⟩
    · rw [sendReply_user hpid] at h
      cases h
      refine ⟨[], ?_⟩
      rw [userReply_sends, afterRegister_allocs, afterRegister_sends, hnew]
      rfl

theorem Own.zero_notMem {w : Watched} (hw : Own w) : 0 ∉ w.driver.table.inUse := by
  intro h0
  obtain ⟨h, -, hsender⟩ := hw.entries 0 h0
  exact h.post.user hsender

/-- What a truthful header's handling sends, unless it is a broadcast, goes to
the sender. -/
theorem reply_dst {depth : Nat} {s s' : State} {skb : Datagram} (hpid : skb.nlmsgPid ≠ 0)
    (h0 : 0 ∉ s.table.inUse) (htext : skb.text ≠ .lit "broadcast")
    (h : netlinkRecvMsg env depth s skb = some s') :
    ∀ u ∈ s'.sends.drop s.sends.length, u.dst = skb.nlmsgPid := by
  cases depth with
  | zero => cases h
  | succ depth =>
    rw [netlinkRecvMsg_user hpid h0] at h
    cases h
    rw [handled_other_sends htext, List.drop_left]
    split
    · intro u hu
      rw [List.mem_singleton.mp hu]
    · exact nofun

/-- One more handling that acts for its sender only. -/
theorem Own.concat {w : Watched} (hw : Own w) {s' : State} {a : Handling}
    (hentries : ∀ pid ∈ s'.table.inUse, pid ∈ w.driver.table.inUse ∨ pid = a.post.sender)
    (hregistered : ∀ pid ∈ a.registered, pid = a.post.sender)
    (hreplies : a.post.skb.text ≠ .lit "broadcast" → ∀ u ∈ a.sent, u.dst = a.post.sender) :
    Own ⟨s', w.history ++ [a]⟩ := by
  refine ⟨?_, ?_, ?_⟩
  · intro pid hpid
    rcases hentries pid hpid with hold | rfl
    · obtain ⟨b, hb, hsender⟩ := hw.entries pid hold
      exact ⟨b, List.mem_append_left _ hb, hsender⟩
    · exact ⟨a, List.mem_concat_self .., rfl⟩
  · intro b hb
    rcases List.mem_append.mp hb with hb | hb
    · exact hw.registered b hb
    · rw [List.mem_singleton.mp hb]
      exact hregistered
  · intro b hb
    rcases List.mem_append.mp hb with hb | hb
    · exact hw.replies b hb
    · rw [List.mem_singleton.mp hb]
      exact hreplies

/-- **The step lemma**: from a state in which nobody acted for another socket,
the harmless datagrams are the ones that keep it so. -/
theorem own_step_iff {w w' : Watched} {p : Post} (hw : Own w)
    (h : (watch env).step w p = some w') : Own w' ↔ Harmless env w p := by
  obtain ⟨s', hrun, rfl⟩ := Option.map_eq_some_iff.mp h
  have htable := netlinkRecvMsg_table hrun
  have hnew : s'.table.inUse.drop w.driver.table.inUse.length
      = if p.skb.nlmsgPid ∈ w.driver.table.inUse ∨ maxClients ≤ w.driver.table.totalClients
        then [] else [p.skb.nlmsgPid] := by
    rw [htable, registerClient_drop]
  constructor
  · intro hw'
    by_cases hpid : p.skb.nlmsgPid = p.sender
    · exact .inl hpid
    refine .inr ⟨?_, ?_⟩
    · by_contra hroom
      rw [if_neg hroom] at hnew
      exact hpid (hw'.registered _ (List.mem_concat_self ..) _ (by simp [hnew]))
    · by_contra hreply
      obtain ⟨htext, hbuf⟩ := not_or.mp hreply
      obtain ⟨rest, hsends⟩ := netlinkRecvMsg_replied htext (Bool.not_eq_false _ ▸ hbuf) hrun
      exact hpid (hw'.replies _ (List.mem_concat_self ..) htext
        ⟨p.skb.nlmsgPid, nlmsgPut 0 (.lit "Hello Userspace")⟩ (by simp [hsends]))
  · intro hp
    rcases hp with hpid | ⟨hroom, hquiet⟩
    · -- the header tells the truth
      refine hw.concat ?_ ?_ ?_
      · intro pid hmem
        rw [htable, registerClient_inUse, mem_register, hpid] at hmem
        exact hmem.imp_right And.left
      · intro pid hmem
        rw [hnew, hpid] at hmem
        split at hmem
        · cases hmem
        · exact List.mem_singleton.mp hmem
      · intro htext u hu
        rw [reply_dst (hpid ▸ p.user) hw.zero_notMem htext hrun u hu, hpid]
    · -- nothing is registered, and nothing is sent as a reply
      rw [if_pos hroom] at hnew
      refine hw.concat ?_ ?_ ?_
      · intro pid hmem
        rw [htable, registerClient_inUse, mem_register] at hmem
        rcases hmem with hmem | ⟨rfl, hlt⟩
        · exact .inl hmem
        · rw [ClientTable.inUse_length] at hlt
          exact .inl (hroom.resolve_right (Nat.not_le_of_lt hlt))
      · simp [hnew]
      · intro htext
        rw [netlinkRecvMsg_unsent htext (hquiet.resolve_left htext) hrun]
        simp

/-- **Identity.** In a run of datagrams with arbitrary headers nobody registers
or answers for another socket exactly as long as every datagram is harmless. -/
theorem own_iff_harmless (env : Env) (ps : List Post) (w : Watched)
    (h : (watch env).Reaches ps w) :
    (watch env).Always Own (watch env).init ps
      ↔ (watch env).Along (Harmless env) (watch env).init ps := by
  refine Machine.always_iff_along (fun _ hw => hw) ?_ ?_ ?_ h
  · intro w p w' hw hp hstep
    exact (own_step_iff hw hstep).mpr hp
  · intro w p w' hw hstep hw'
    exact (own_step_iff hw hstep).mp hw'
  · exact ⟨by simp [watch, State.init, ClientTable.inUse], nofun, nofun⟩

instance (w : Watched) (p : Post) : Decidable (Harmless env w p) :=
  inferInstanceAs (Decidable (_ ∨ _))

end

/-- The kernel has a buffer for every message and delivers them all. -/
def plenty : Env := ⟨fun _ => true, fun _ => 0⟩

/-- Socket 5 introduces itself, then socket 9 asks for a broadcast in its name. -/
def borrowed : List Post :=
  [⟨5, by decide, nlmsgPut 5 (.lit "Hello Kernel"), 1⟩,
    ⟨9, by decide, nlmsgPut 5 (.lit "broadcast"), 1⟩]

theorem borrowed_run : ((watch plenty).exec (watch plenty).init borrowed).isSome := by decide

theorem own_iff_harmless_borrowed : (watch plenty).Always Own (watch plenty).init borrowed :=
  (own_iff_harmless plenty borrowed _ (Option.some_get borrowed_run).symm).mpr (by decide)

/-- Socket 5 sends one datagram with port id 7 in its header: 7 is registered
and answered, and has sent nothing. -/
theorem forged_header :
    ∃ w, (watch plenty).Reaches [⟨5, by decide, nlmsgPut 7 (.lit "Hello Kernel"), 1⟩] w ∧
      w.driver.table.inUse = [7] ∧ w.driver.sends.map Unicast.dst = [7] ∧ ¬ Own w := by
  refine ⟨_, rfl, ?_, ?_, ?_⟩
  · decide
  · decide
  · intro hw
    obtain ⟨h, hmem, hsender⟩ := hw.entries 7 (by decide)
    rw [List.mem_singleton.mp hmem] at hsender
    exact absurd hsender (by decide)

end KernelSpace.Netlink
