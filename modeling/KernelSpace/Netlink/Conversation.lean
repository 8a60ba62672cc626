import KernelSpace.Netlink.Delivery

/-!
# Netlink — the clients and the driver (25b)

The three user programs of `25b.Netlink_Socket_Broadcast` and the driver they
talk to. A process is known by its id, which is also the port id it binds; any
number of them run: each binds a socket, sends one message, receives one and
ends. A step is one of

* `bind` — `socket` and `bind`;
* `send` — `sendmsg`, inside of which the driver handles the message and
  queues its answers at the sockets that are there;
* `recv` — `recvmsg`, where there is a message, and the end of the process.

Messages are handled one at a time, as in `driver`. What `nlmsg_unicast` returns
comes with the event: negative where there is no socket at the port, and only
there, so a socket always has room. The first program asks for a broadcast, the
other two greet.
-/

namespace KernelSpace.Netlink.Conversation

open KernelSpace.Kernel KernelSpace.Lib

/-- `netlink_user_client_1_broadcast.c`, `netlink_user_client_2.c` and
`netlink_user_client_3.c`. -/
inductive Program where
  | client1
  | client2
  | client3
deriving DecidableEq

def MAX_PAYLOAD : Nat := 1024

/-- What the program copies to `NLMSG_DATA(nlh)`. -/
def Program.message : Program → CString
  | client1 => .lit "broadcast"
  | client2 | client3 => .lit "Hello Kernel"

/-- What the driver has to say to it. -/
def Program.answer : Program → CString
  | client1 => .lit "Broadcast Message"
  | client2 | client3 => .lit "Hello Userspace"

/-- The message of a process: the buffer is zeroed before the `strcpy`. -/
def Program.datagram (prog : Program) (pid : UInt32) : Datagram where
  nlmsgPid := pid
  payload := prog.message.mem ++ List.replicate (MAX_PAYLOAD - prog.message.mem.length) 0
  terminated := List.mem_append_left _ prog.message.nul_mem_mem

@[simp] theorem datagram_text (prog : Program) (pid : UInt32) :
    (prog.datagram pid).text = prog.message := by
  have hpayload : (prog.datagram pid).payload =
      prog.message.chars ++ 0 :: List.replicate (MAX_PAYLOAD - prog.message.mem.length) 0 := by
    simp [Program.datagram, CString.mem]
  rw [Datagram.text, hpayload]
  exact CString.ofBytes_append_nul ..

theorem message_eq_iff (prog : Program) : prog.message = .lit "broadcast" ↔ prog = .client1 := by
  cases prog <;> decide

/-- Where a process stands. -/
inductive Pc where
  | start
  | bound
  | waiting
  /-- What it has printed behind `Received`. -/
  | done (text : CString)
deriving DecidableEq

/-- A process and the queue of its socket. -/
structure Client where
  pc : Pc
  queue : List CString
deriving DecidableEq

/-- Its socket is there. -/
def Client.isOpen (cl : Client) : Bool := cl.pc == .bound || cl.pc == .waiting

structure System where
  driver : State
  client : UInt32 → Client

inductive Event where
  | bind (pid : UInt32)
  | send (pid : UInt32) (ret : Nat → Int)
  | recv (pid : UInt32)

/-- The texts that some `nlmsg_unicast` calls bring to a port. -/
def arriving (sends : List Unicast) (port : UInt32) : List CString :=
  (sends.filter (·.dst == port)).map fun u => u.skb.text

/-- What the driver has sent from `s` to `s'`. -/
def newSends (s s' : State) : List Unicast := s'.sends.drop s.sends.length

/-- A process, when the driver has gone from `s` to `s'`. -/
def Client.deliver (cl : Client) (s s' : State) (pid : UInt32) : Client :=
  if cl.isOpen then { cl with queue := cl.queue ++ arriving (newSends s s') pid } else cl

/-- `nlmsg_unicast` fails where there is no socket. -/
def System.returns (sys : System) (ret : Nat → Int) (s' : State) : Bool :=
  ((newSends sys.driver s').zipIdx sys.driver.sends.length).all fun (u, n) =>
    decide (0 ≤ ret n) == (sys.client u.dst).isOpen

def System.goto (sys : System) (pid : UInt32) (cl : Client) : System :=
  { sys with client := Function.update sys.client pid cl }

def System.deliver (sys : System) (s' : State) : System :=
  ⟨s', fun pid => (sys.client pid).deliver sys.driver s' pid⟩

section

variable (nlmsgNew : Nat → Bool) (prog : UInt32 → Program)

def step (sys : System) : Event → Option System
  | .bind pid =>
    if pid ≠ 0 ∧ (sys.client pid).pc = .start then some (sys.goto pid ⟨.bound, []⟩) else none
  | .send pid ret =>
    if (sys.client pid).pc = .bound then
      match netlinkRecvMsg ⟨nlmsgNew, ret⟩ 1 sys.driver ((prog pid).datagram pid) with
      | none => none
      | some s' =>
        if sys.returns ret s' then
          let sent := sys.deliver s'
          some (sent.goto pid { sent.client pid with pc := .waiting })
        else none
    else none
  | .recv pid =>
    if (sys.client pid).pc = .waiting then
      match (sys.client pid).queue with
      | [] => none
      | text :: queue => some (sys.goto pid ⟨.done text, queue⟩)
    else none

/-- The module loaded, and the processes to come. -/
def conversation : Machine System Event :=
  ⟨⟨.init, fun _ => ⟨.start, []⟩⟩, step nlmsgNew prog⟩

end

/-! ## What a message brings to the sockets -/

section

variable {env : Env}

theorem handled_inUse (env : Env) (s : State) (skb : Datagram) (hpid : skb.nlmsgPid ≠ 0)
    (h0 : 0 ∉ s.table.inUse) :
    (handled env s skb).table.inUse = register maxClients s.table.inUse skb.nlmsgPid := by
  rw [netlinkRecvMsg_table (netlinkRecvMsg_user hpid h0 0), registerClient_inUse]

/-- A greeting is answered to the sender, and to nobody else. -/
theorem arriving_greeting (hnew : ∀ n, env.nlmsgNew n = true) {s : State} {skb : Datagram}
    (htext : skb.text ≠ .lit "broadcast") (port : UInt32) :
    arriving (newSends s (handled env s skb)) port =
      if skb.nlmsgPid = port then [.lit "Hello Userspace"] else [] := by
  rw [newSends, handled_other_sends htext, hnew, List.drop_left, arriving]
  by_cases hport : skb.nlmsgPid = port <;> simp [hport]

/-- A broadcast goes to whoever is registered by then. -/
theorem arriving_broadcast (env : Env) (hnew : ∀ n, env.nlmsgNew n = true) (s : State)
    (skb : Datagram) (htext : skb.text = .lit "broadcast") (port : UInt32) :
    (∀ text ∈ arriving (newSends s (handled env s skb)) port, text = .lit "Broadcast Message") ∧
    (arriving (newSends s (handled env s skb)) port = [] ↔
      port ∉ register maxClients s.table.inUse skb.nlmsgPid) := by
  rw [newSends, handled_broadcast_sends htext, List.drop_left, arriving,
    allocated_of_all hnew, registerClient_inUse]
  constructor
  · intro text hmem
    simp only [List.mem_map, List.mem_filter] at hmem
    obtain ⟨u, ⟨⟨pid, -, rfl⟩, -⟩, rfl⟩ := hmem
    exact nlmsgPut_text ..
  · simp only [List.map_eq_nil_iff, List.filter_eq_nil_iff, List.mem_map, forall_exists_index,
      and_imp, beq_iff_eq]
    constructor
    · exact fun hnone hmem => hnone _ port hmem rfl rfl
    · rintro hnot _ pid hmem rfl rfl
      exact hnot hmem

end

/-! ## The invariant -/

/-- The process has sent its message. -/
def Pc.sent : Pc → Bool
  | waiting | done _ => true
  | _ => false

/-- What holds of a process that runs `prog`, the table given. -/
def Sound (prog : Program) (pid : UInt32) (inUse : List UInt32) (cl : Client) : Prop :=
  match cl.pc with
  | .start | .bound => cl.queue = []
  | .waiting =>
    (prog ≠ .client1 ∨ pid ∈ inUse → ∃ rest, cl.queue = prog.answer :: rest) ∧
      (prog = .client1 → pid ∉ inUse → cl.queue = [] ∧ maxClients ≤ inUse.length)
  | .done text => text = prog.answer

structure Inv (prog : UInt32 → Program) (sys : System) : Prop where
  unstarted : (sys.client 0).pc = .start
  registered : ∀ pid ∈ sys.driver.table.inUse, (sys.client pid).pc.sent = true
  sound : ∀ pid, Sound (prog pid) pid sys.driver.table.inUse (sys.client pid)

section

variable {nlmsgNew : Nat → Bool} {ret : Nat → Int} {prog : UInt32 → Program} {sys : System}
  {pid other : UInt32}

theorem Inv.unregistered (h : Inv prog sys) (pid : UInt32)
    (hpc : (sys.client pid).pc.sent = false) :
    pid ∉ sys.driver.table.inUse := by
  intro hmem
  rw [h.registered pid hmem] at hpc
  cases hpc

theorem Inv.zero (h : Inv prog sys) : 0 ∉ sys.driver.table.inUse :=
  h.unregistered 0 (by rw [h.unstarted]; rfl)

theorem Inv.ne_zero (h : Inv prog sys) (hpc : (sys.client pid).pc ≠ .start) : pid ≠ 0 := by
  rintro rfl
  exact hpc h.unstarted

/-- What a process sends, as it comes to another one. -/
theorem sound_other (h : Inv prog sys) (hnew : ∀ n, nlmsgNew n = true) (hne : other ≠ pid) :
    Sound (prog other) other (register maxClients sys.driver.table.inUse pid)
      ((sys.client other).deliver sys.driver
        (handled ⟨nlmsgNew, ret⟩ sys.driver ((prog pid).datagram pid)) other) := by
  have hmem : other ∈ register maxClients sys.driver.table.inUse pid ↔
      other ∈ sys.driver.table.inUse := by
    rw [mem_register]
    simp [hne]
  -- nothing comes to a process that is not registered
  have hnothing : other ∉ sys.driver.table.inUse → arriving (newSends sys.driver
      (handled ⟨nlmsgNew, ret⟩ sys.driver ((prog pid).datagram pid))) other = [] := by
    intro hnot
    by_cases htext : (prog pid).message = .lit "broadcast"
    · have hbroadcast := arriving_broadcast ⟨nlmsgNew, ret⟩ hnew sys.driver
        ((prog pid).datagram pid) (by rw [datagram_text, htext]) other
      exact hbroadcast.2.mpr fun hreg => hnot (hmem.mp hreg)
    · rw [arriving_greeting hnew (by rw [datagram_text]; exact htext)]
      exact if_neg fun heq => hne heq.symm
  have hsound := h.sound other
  unfold Sound at hsound ⊢
  unfold Client.deliver Client.isOpen
  cases hpc : (sys.client other).pc with
  | start =>
    rw [hpc] at hsound
    simpa [hpc] using hsound
  | done text =>
    rw [hpc] at hsound
    simpa [hpc] using hsound
  | bound =>
    rw [hpc] at hsound
    have hnot := h.unregistered other (by rw [hpc]; rfl)
    simpa [hpc, hnothing hnot] using hsound
  | waiting =>
    rw [hpc] at hsound
    obtain ⟨hhead, hempty⟩ := hsound
    simp only [beq_self_eq_true, Bool.or_true, if_true]
    refine ⟨fun hany => ?_, fun hprog hnot => ?_⟩
    · rw [hmem] at hany
      obtain ⟨rest, hrest⟩ := hhead hany
      exact ⟨_, by rw [hrest, List.cons_append]⟩
    · have hnot' : other ∉ sys.driver.table.inUse := fun hin => hnot (hmem.mpr hin)
      obtain ⟨hqueue, hfull⟩ := hempty hprog hnot'
      exact ⟨by rw [hqueue, hnothing hnot', List.append_nil],
        Nat.le_trans hfull (length_le_length_register ..)⟩

/-- What a process sends, as it comes to itself. -/
theorem sound_self (h : Inv prog sys) (hnew : ∀ n, nlmsgNew n = true)
    (hpc : (sys.client pid).pc = .bound) :
    Sound (prog pid) pid (register maxClients sys.driver.table.inUse pid)
      { (sys.client pid).deliver sys.driver
        (handled ⟨nlmsgNew, ret⟩ sys.driver ((prog pid).datagram pid)) pid with
          pc := .waiting } := by
  have hqueue : (sys.client pid).queue = [] := by
    have hsound := h.sound pid
    unfold Sound at hsound
    rwa [hpc] at hsound
  have hopen : (sys.client pid).isOpen = true := by simp [Client.isOpen, hpc]
  unfold Sound Client.deliver
  simp only [hopen, if_true, hqueue, List.nil_append]
  by_cases hprog : prog pid = .client1
  · have hbroadcast := arriving_broadcast ⟨nlmsgNew, ret⟩ hnew sys.driver
      ((prog pid).datagram pid) (by rw [datagram_text, (message_eq_iff _).mpr hprog]) pid
    refine ⟨fun hany => ?_, fun _ hnot => ⟨hbroadcast.2.mpr hnot, ?_⟩⟩
    · have hreg := hany.resolve_left fun hne => hne hprog
      cases hnews : arriving (newSends sys.driver
          (handled ⟨nlmsgNew, ret⟩ sys.driver ((prog pid).datagram pid))) pid with
      | nil => exact absurd hreg (hbroadcast.2.mp hnews)
      | cons text rest =>
        have htext := hbroadcast.1 text (by rw [hnews]; exact List.mem_cons_self)
        exact ⟨rest, by rw [htext, hprog]; rfl⟩
    · by_contra hlt
      refine hnot (mem_register.mpr (.inr ⟨rfl, ?_⟩))
      have hle := length_le_length_register maxClients sys.driver.table.inUse pid
      omega
  · have htext : (prog pid).message ≠ .lit "broadcast" := fun heq =>
      hprog ((message_eq_iff _).mp heq)
    rw [arriving_greeting hnew (by rw [datagram_text]; exact htext)]
    refine ⟨fun _ => ⟨[], ?_⟩, fun heq => absurd heq hprog⟩
    cases hp : prog pid with
    | client1 => exact absurd hp hprog
    | client2 => exact if_pos rfl
    | client3 => exact if_pos rfl

theorem inv_init (prog : UInt32 → Program) : Inv prog ⟨.init, fun _ => ⟨.start, []⟩⟩ where
  unstarted := rfl
  registered := by simp [State.init, ClientTable.inUse]
  sound := fun _ => rfl

/-- What a step does. -/
theorem step_spec (h : Inv prog sys) {e : Event} {sys' : System}
    (hs : step nlmsgNew prog sys e = some sys') :
    (∃ pid, e = .bind pid ∧ pid ≠ 0 ∧ (sys.client pid).pc = .start ∧
      sys' = sys.goto pid ⟨.bound, []⟩) ∨
    (∃ pid ret, e = .send pid ret ∧ (sys.client pid).pc = .bound ∧
      sys' = (sys.deliver (handled ⟨nlmsgNew, ret⟩ sys.driver ((prog pid).datagram pid))).goto pid
        { (sys.client pid).deliver sys.driver
            (handled ⟨nlmsgNew, ret⟩ sys.driver ((prog pid).datagram pid)) pid with
              pc := .waiting }) ∨
    (∃ pid text queue, e = .recv pid ∧ (sys.client pid).pc = .waiting ∧
      (sys.client pid).queue = text :: queue ∧ sys' = sys.goto pid ⟨.done text, queue⟩) := by
  cases e with
  | bind pid =>
    simp only [step] at hs
    split at hs
    · rename_i hguard
      exact .inl ⟨pid, rfl, hguard.1, hguard.2, (Option.some.inj hs).symm⟩
    · cases hs
  | send pid ret =>
    simp only [step] at hs
    split at hs
    · rename_i hpc
      have hne : pid ≠ 0 := h.ne_zero (by rw [hpc]; exact Pc.noConfusion)
      rw [netlinkRecvMsg_user hne h.zero] at hs
      simp only at hs
      split at hs
      · exact .inr (.inl ⟨pid, ret, rfl, hpc, (Option.some.inj hs).symm⟩)
      · cases hs
    · cases hs
  | recv pid =>
    simp only [step] at hs
    split at hs
    · split at hs
      · cases hs
      · exact .inr (.inr ⟨pid, _, _, rfl, ‹_›, ‹_›, (Option.some.inj hs).symm⟩)
    · cases hs

/-- A step of one process alone. -/
theorem Inv.goto (h : Inv prog sys) {cl : Client} (hpid : pid ≠ 0)
    (hsent : (sys.client pid).pc.sent = true → cl.pc.sent = true)
    (hsound : Sound (prog pid) pid sys.driver.table.inUse cl) :
    Inv prog (sys.goto pid cl) where
  unstarted := by simpa [System.goto, hpid.symm] using h.unstarted
  registered := by
    intro p hp
    by_cases hp' : p = pid
    · subst hp'
      simpa [System.goto] using hsent (h.registered p hp)
    · simpa [System.goto, hp'] using h.registered p hp
  sound := by
    intro p
    by_cases hp' : p = pid
    · subst hp'
      simpa [System.goto] using hsound
    · simpa [System.goto, hp'] using h.sound p

theorem inv_step (hnew : ∀ n, nlmsgNew n = true) {e : Event} {sys' : System}
    (h : Inv prog sys) (hs : step nlmsgNew prog sys e = some sys') : Inv prog sys' := by
  obtain ⟨pid, rfl, hne, hpc, rfl⟩ | ⟨pid, ret, rfl, hpc, rfl⟩ |
    ⟨pid, text, queue, rfl, hpc, hqueue, rfl⟩ := step_spec h hs
  · refine h.goto hne (fun hsent => ?_) rfl
    rw [hpc] at hsent
    cases hsent
  · have hne : pid ≠ 0 := h.ne_zero (by rw [hpc]; exact Pc.noConfusion)
    have htable := handled_inUse ⟨nlmsgNew, ret⟩ sys.driver ((prog pid).datagram pid)
      hne h.zero
    rw [show ((prog pid).datagram pid).nlmsgPid = pid from rfl] at htable
    refine ⟨?_, fun p hp => ?_, fun p => ?_⟩
    · simpa [System.goto, System.deliver, hne.symm, Client.deliver, apply_ite Client.pc]
        using h.unstarted
    · simp only [System.goto, System.deliver] at hp ⊢
      rw [htable, mem_register] at hp
      by_cases hp' : p = pid
      · subst hp'
        simp [Pc.sent]
      · simpa [hp', Client.deliver, apply_ite Client.pc] using
          h.registered p (hp.resolve_right fun heq => hp' heq.1)
    · simp only [System.goto, System.deliver]
      rw [htable]
      by_cases hp' : p = pid
      · subst hp'
        simpa using sound_self h hnew hpc
      · simpa [hp'] using sound_other h hnew hp'
  · have hne : pid ≠ 0 := h.ne_zero (by rw [hpc]; exact Pc.noConfusion)
    have hsound := h.sound pid
    unfold Sound at hsound
    rw [hpc] at hsound
    refine h.goto hne (fun _ => rfl) ?_
    -- the head of the queue is what the invariant says it is
    by_cases hany : prog pid ≠ .client1 ∨ pid ∈ sys.driver.table.inUse
    · obtain ⟨rest, hrest⟩ := hsound.1 hany
      rw [hqueue] at hrest
      exact (List.cons.inj hrest).1
    · rw [not_or, not_not] at hany
      rw [(hsound.2 hany.1 hany.2).1] at hqueue
      cases hqueue

/-- Unregistered, with the table full, a process that waits for a broadcast waits
on. -/
theorem waiting_step {e : Event} {sys' : System} (h : Inv prog sys)
    (hprog : prog pid = .client1) (hpc : (sys.client pid).pc = .waiting)
    (hnot : pid ∉ sys.driver.table.inUse) (hs : step nlmsgNew prog sys e = some sys') :
    (sys'.client pid).pc = .waiting ∧ pid ∉ sys'.driver.table.inUse := by
  have hfull : (sys.client pid).queue = [] ∧ maxClients ≤ sys.driver.table.inUse.length := by
    have hsound := h.sound pid
    unfold Sound at hsound
    rw [hpc] at hsound
    exact hsound.2 hprog hnot
  obtain ⟨p, rfl, -, hpc', rfl⟩ | ⟨p, ret, rfl, hpc', rfl⟩ |
    ⟨p, text, queue, rfl, hpc', hqueue, rfl⟩ := step_spec h hs
  · have hne : pid ≠ p := by
      rintro rfl
      rw [hpc] at hpc'
      cases hpc'
    exact ⟨by simpa [System.goto, hne] using hpc, hnot⟩
  · have hne : pid ≠ p := by
      rintro rfl
      rw [hpc] at hpc'
      cases hpc'
    have hp : p ≠ 0 := h.ne_zero (by rw [hpc']; exact Pc.noConfusion)
    constructor
    · simpa [System.goto, System.deliver, hne, Client.deliver, apply_ite Client.pc] using hpc
    · simp only [System.goto, System.deliver]
      rw [handled_inUse _ _ _ hp h.zero, mem_register]
      rintro (hin | ⟨-, hlt⟩)
      · exact hnot hin
      · omega
  · have hne : pid ≠ p := by
      rintro rfl
      rw [hfull.1] at hqueue
      cases hqueue
    exact ⟨by simpa [System.goto, hne] using hpc, hnot⟩

/-! ## Runs -/

/-- Who has sent its message, in order. -/
def senders (es : List Event) : List UInt32 :=
  es.filterMap fun
    | .send pid _ => some pid
    | _ => none

theorem reaches_inv (hnew : ∀ n, nlmsgNew n = true) {es : List Event}
    (h : (conversation nlmsgNew prog).Reaches es sys) : Inv prog sys :=
  Machine.Reachable.inv (M := conversation nlmsgNew prog) (inv_init prog)
    (fun _ _ _ hinv hs => inv_step hnew hinv hs) ⟨es, h⟩

/-- The table holds the first ten senders. -/
theorem reaches_senders (hnew : ∀ n, nlmsgNew n = true) {es : List Event}
    (h : (conversation nlmsgNew prog).Reaches es sys) :
    sys.driver.table.inUse = (senders es).take maxClients := by
  induction es using List.reverseRecOn generalizing sys with
  | nil =>
    cases h
    simp [conversation, State.init, ClientTable.inUse, senders]
  | append_singleton es e ih =>
    obtain ⟨t, ht, hs⟩ := Machine.exec_concat_iff.mp h
    have hinv := reaches_inv hnew ht
    have htable := ih ht
    obtain ⟨pid, rfl, -, hpc, rfl⟩ | ⟨pid, ret, rfl, hpc, rfl⟩ |
      ⟨pid, text, queue, rfl, hpc, hqueue, rfl⟩ := step_spec hinv hs
    · simpa [System.goto, senders] using htable
    · have hne : pid ≠ 0 := hinv.ne_zero (by rw [hpc]; exact Pc.noConfusion)
      have hnot := hinv.unregistered pid (by rw [hpc]; rfl)
      rw [htable] at hnot
      simp only [System.goto, System.deliver]
      rw [handled_inUse _ _ _ hne hinv.zero, htable]
      have htake := register_take maxClients (senders es) pid hnot
      simpa [senders, Program.datagram] using htake
    · simpa [System.goto, senders] using htable

/-- The process waits in every continuation. -/
def Blocked (nlmsgNew : Nat → Bool) (prog : UInt32 → Program) (sys : System) (pid : UInt32) :
    Prop :=
  ∀ fs sys', (conversation nlmsgNew prog).exec sys fs = some sys' →
    (sys'.client pid).pc = .waiting

/-- **The conversation**: with memory for every buffer, whatever the order of the
processes, each prints the answer to its own message, `Broadcast Message` or
`Hello Userspace`, though broadcasts of others reach the same socket. One that
waits for it has it in its queue, or waits for ever: just those that ask for a
broadcast behind the first ten senders. -/
theorem conversation_answers (nlmsgNew : Nat → Bool) (hnew : ∀ n, nlmsgNew n = true)
    (prog : UInt32 → Program) (es : List Event) (sys : System)
    (hrun : (conversation nlmsgNew prog).Reaches es sys) (pid : UInt32) :
    (∀ text, (sys.client pid).pc = .done text → text = (prog pid).answer) ∧
    ((sys.client pid).pc = .waiting →
      (Blocked nlmsgNew prog sys pid ↔
        prog pid = .client1 ∧ pid ∉ (senders es).take maxClients) ∧
      (¬ Blocked nlmsgNew prog sys pid →
        ∃ queue, (sys.client pid).queue = (prog pid).answer :: queue)) := by
  have hinv := reaches_inv hnew hrun
  have hsound := hinv.sound pid
  unfold Sound at hsound
  refine ⟨fun text hpc => by rwa [hpc] at hsound, fun hpc => ?_⟩
  rw [hpc, reaches_senders hnew hrun] at hsound
  have hready : prog pid ≠ .client1 ∨ pid ∈ (senders es).take maxClients →
      ¬ Blocked nlmsgNew prog sys pid := by
    intro hany hblocked
    obtain ⟨queue, hqueue⟩ := hsound.1 hany
    have hrecv : (conversation nlmsgNew prog).exec sys [.recv pid]
        = some (sys.goto pid ⟨.done (prog pid).answer, queue⟩) := by
      simp [Machine.exec, conversation, step, hpc, hqueue]
    have hwait := hblocked _ _ hrecv
    simp [System.goto] at hwait
  have hforever : prog pid = .client1 → pid ∉ (senders es).take maxClients →
      Blocked nlmsgNew prog sys pid := by
    intro hprog hnot fs sys' hfs
    rw [← reaches_senders hnew hrun] at hnot
    have hkeep := Machine.exec_inv (M := conversation nlmsgNew prog)
      (I := fun t => Inv prog t ∧ (t.client pid).pc = .waiting ∧
        pid ∉ t.driver.table.inUse) (P := fun _ _ => True)
      (fun t e t' ht _ hs => ⟨inv_step hnew ht.1 hs, waiting_step ht.1 hprog ht.2.1 ht.2.2 hs⟩)
      ⟨hinv, hpc, hnot⟩ (Machine.along_true _ fs) hfs
    exact hkeep.2.1
  refine ⟨⟨fun hblocked => ?_, fun h => hforever h.1 h.2⟩, fun hnot => ?_⟩
  · by_contra hcond
    refine hready ?_ hblocked
    by_contra hneither
    rw [not_or, not_not] at hneither
    exact hcond hneither
  · apply hsound.1
    by_contra hneither
    rw [not_or, not_not] at hneither
    exact hnot (hforever hneither.1 hneither.2)

/-- Process 9 greets, process 7 asks for a broadcast. -/
def pairProg (pid : UInt32) : Program := if pid = 7 then .client1 else .client2

def pairRun : List Event := [.bind 9, .bind 7, .send 9 fun _ => 0, .send 7 fun _ => 0]

/-- Both have sent: who asked for the broadcast has it in its queue. -/
theorem conversation_answers_pair :
    ∃ sys, (conversation (fun _ => true) pairProg).Reaches pairRun sys ∧
      ∃ queue, (sys.client 7).queue = .lit "Broadcast Message" :: queue := by
  let M := conversation (fun _ => true) pairProg
  obtain ⟨sys, hrun⟩ := Option.isSome_iff_exists.mp (by decide +kernel :
    (M.exec M.init pairRun).isSome = true)
  have hwaiting : (sys.client 7).pc = .waiting := by
    have h := congrArg (Option.map fun sys : System => (sys.client 7).pc) hrun
    exact Option.some.inj (h.symm.trans (by decide +kernel))
  obtain ⟨hblocked, hready⟩ := (conversation_answers _ (fun _ => rfl) pairProg _ sys hrun 7).2
    hwaiting
  exact ⟨sys, hrun, hready fun h => (hblocked.mp h).2 (by decide)⟩

end

end KernelSpace.Netlink.Conversation
