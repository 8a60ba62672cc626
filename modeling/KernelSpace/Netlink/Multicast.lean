import KernelSpace.Kernel.CString
import KernelSpace.Lib.Machine
import Mathlib.Data.List.Induction

/-!
# Netlink — the multicast notification (25c)

`25c.Netlink_Socket_MultiCast_libnl`: a module that registers a generic netlink
family and, while it loads, sends one notification to the family's group; and
client programs that resolve the family and its group, join the group and print
what arrives. The steps of the module are

* `insmod` — `genl_register_family`, which picks the numbers of the family and
  of the group, or fails;
* `notify` — `send_multicast_message` and the end of `my_init`;
* `rmmod` — `genl_unregister_family`, which ends all memberships of the group.

A client asks for the two numbers one after the other, and joins the group by
its number, so the module may go and come back in between. It is in the group when
`nl_socket_add_membership` has returned 0, which it does not look at.

The clients call libnl. What its functions return comes with the events, and nothing is
assumed of it: `genl_ctrl_resolve` and `genl_ctrl_resolve_grp` may answer any number,
and `nl_recvmsgs_default` may take the message for a valid one and call `rx_callback`,
or refuse it. What `rx_callback` itself calls is the parameter `Libnl`, of which
`Documented` is relied upon.

A record that the code itself does not keep: for each multicast, who was a member.
-/

namespace KernelSpace.Netlink.Multicast

open KernelSpace.Kernel KernelSpace.Lib

def MY_CMD_NOTIFY : Nat := 1

def MY_ATTR_MSG : Nat := 1

/-- A netlink attribute. -/
structure Nlattr where
  type : Nat
  payload : List UInt8
deriving DecidableEq

/-- A generic netlink message. -/
structure Message where
  cmd : Nat
  attrs : List Nlattr
deriving DecidableEq

def nlaPutString (skb : Message) (attrtype : Nat) (value : CString) : Message :=
  { skb with attrs := skb.attrs ++ [⟨attrtype, value.mem⟩] }

/-- The functions of libnl that `rx_callback` calls. -/
structure Libnl where
  /-- `tb` behind `nla_parse`, by the index. -/
  nlaParse : (maxtype : Nat) → List Nlattr → Nat → Option Nlattr
  nlaGetString : Nlattr → CString

/-- An attribute that comes alone is stored at the index of its type, and the payload of
a string attribute is its string. -/
structure Libnl.Documented (lib : Libnl) : Prop where
  nlaParse : ∀ maxtype nla, 0 < nla.type → nla.type ≤ maxtype →
    lib.nlaParse maxtype [nla] nla.type = some nla
  nlaGetString : ∀ type (text : CString), lib.nlaGetString ⟨type, text.mem⟩ = text

/-- What `send_multicast_message` sends, if there is memory for it. -/
def notification : Message :=
  nlaPutString ⟨MY_CMD_NOTIFY, []⟩ MY_ATTR_MSG (.lit "Button Pressed")

/-- What `rx_callback` prints behind `Received`. -/
def rxCallback (lib : Libnl) (msg : Message) : Option CString :=
  (lib.nlaParse 1 msg.attrs 1).map lib.nlaGetString

theorem rxCallback_notification {lib : Libnl} (hlib : lib.Documented) :
    rxCallback lib notification = some (.lit "Button Pressed") := by
  have hparse : lib.nlaParse 1 notification.attrs 1 =
      some ⟨MY_ATTR_MSG, (CString.lit "Button Pressed").mem⟩ :=
    hlib.nlaParse 1 ⟨MY_ATTR_MSG, (CString.lit "Button Pressed").mem⟩ Nat.one_pos (Nat.le_refl 1)
  rw [rxCallback, hparse, Option.map_some, hlib.nlaGetString]

/-- The numbers that `genl_register_family` has picked. -/
structure Family where
  id : Int
  group : Int
deriving DecidableEq

inductive Phase where
  | absent
  | registered (family : Family)
  | loaded (family : Family)
deriving DecidableEq

inductive Pc where
  | start
  | connected
  | resolved (familyId : Int)
  | located (groupId : Int)
  /-- In the loop around `nl_recvmsgs_default`. -/
  | waiting
  /-- `return -1`. -/
  | failed
deriving DecidableEq

/-- A client, its socket and its output. -/
structure Client where
  pc : Pc
  member : Option Int
  queue : List Message
  printed : List CString
deriving DecidableEq

variable {C : Type*}

structure State (C : Type*) where
  phase : Phase
  client : C → Client
  sent : List (C → Bool)

inductive Event (C : Type*) where
  | insmod (family : Option Family)
  /-- `skb` and `hdr` are whether the two are not `NULL`. -/
  | notify (skb hdr : Bool)
  | rmmod
  | connect (c : C) (ok : Bool)
  | resolve (c : C) (familyId : Int)
  | resolveGrp (c : C) (groupId : Int)
  | addMembership (c : C) (ok : Bool)
  | recv (c : C) (valid : Bool)
deriving DecidableEq

def Client.inGroup (cl : Client) (group : Int) : Bool := cl.member == some group

/-- `genlmsg_multicast` as it comes to a socket. -/
def Client.hear (cl : Client) (group : Int) : Client :=
  if cl.inGroup group then { cl with queue := cl.queue ++ [notification] } else cl

/-- The group is gone. -/
def Client.drop (cl : Client) (group : Int) : Client :=
  if cl.inGroup group then { cl with member := none } else cl

section

variable [DecidableEq C]

/-- libnl hands a message to the callback of a client. -/
def Event.hands (c : C) : Event C → Bool
  | recv d valid => d == c && valid
  | _ => false

/-- It takes one and calls nothing. -/
def Event.refuses (c : C) : Event C → Bool
  | recv d valid => d == c && !valid
  | _ => false

def State.set (s : State C) (c : C) (cl : Client) : State C :=
  { s with client := Function.update s.client c cl }

def State.goto (s : State C) (c : C) (pc : Pc) : State C := s.set c { s.client c with pc := pc }

def step (lib : Libnl) (s : State C) : Event C → Option (State C)
  | .insmod family =>
    if s.phase = .absent then
      match family with
      | none => some s
      | some family => some { s with phase := .registered family }
    else none
  | .notify skb hdr =>
    match s.phase with
    | .registered family =>
      if skb && hdr then
        some ⟨.loaded family, fun c => (s.client c).hear family.group,
          s.sent ++ [fun c => (s.client c).inGroup family.group]⟩
      else some { s with phase := .loaded family }
    | _ => none
  | .rmmod =>
    match s.phase with
    | .loaded family =>
      some { s with phase := .absent, client := fun c => (s.client c).drop family.group }
    | _ => none
  | .connect c ok =>
    if (s.client c).pc = .start then some (s.goto c (if ok then .connected else .failed)) else none
  | .resolve c familyId =>
    if (s.client c).pc = .connected then
      some (s.goto c (if familyId < 0 then .failed else .resolved familyId))
    else none
  | .resolveGrp c groupId =>
    match (s.client c).pc with
    | .resolved _ => some (s.goto c (if groupId < 0 then .failed else .located groupId))
    | _ => none
  | .addMembership c ok =>
    match (s.client c).pc with
    | .located group =>
      some (s.set c { s.client c with pc := .waiting, member := if ok then some group else none })
    | _ => none
  | .recv c valid =>
    if (s.client c).pc = .waiting then
      match (s.client c).queue with
      | [] => none
      | msg :: queue =>
        let printed := if valid then (rxCallback lib msg).toList else []
        some (s.set c { s.client c with
          queue := queue
          printed := (s.client c).printed ++ printed })
    else none

/-- Before the first `insmod`. -/
def system (C : Type*) [DecidableEq C] (lib : Libnl) : Machine (State C) (Event C) :=
  ⟨⟨.absent, fun _ => ⟨.start, none, [], []⟩, []⟩, step lib⟩

end

/-! ## The invariant -/

/-- The multicasts that a client was there for. -/
def State.heard (s : State C) (c : C) : Nat := s.sent.countP (· c)

/-- It has joined. -/
def Client.joined (cl : Client) : Bool := cl.pc == .waiting

/-- `handed` and `refused` are what libnl has done with the messages so far. -/
structure Inv (handed refused : C → Nat) (s : State C) : Prop where
  printed : ∀ c, (s.client c).printed = List.replicate (handed c) (.lit "Button Pressed")
  heard : ∀ c, handed c + refused c + (s.client c).queue.length = s.heard c
  once : ∀ c, s.heard c ≤ 1
  /-- A member that has heard the notification is in the group of the family that is there. -/
  member : ∀ c group, (s.client c).member = some group → s.heard c = 1 →
    ∃ family, s.phase = .loaded family ∧ family.group = group
  outside : ∀ c, (s.client c).joined = false → (s.client c).member = none ∧ s.heard c = 0
  queue : ∀ c, ∀ msg ∈ (s.client c).queue, msg = notification

@[simp] theorem printed_drop (cl : Client) (group : Int) :
    (cl.drop group).printed = cl.printed := by
  unfold Client.drop
  split <;> rfl

@[simp] theorem queue_drop (cl : Client) (group : Int) : (cl.drop group).queue = cl.queue := by
  unfold Client.drop
  split <;> rfl

@[simp] theorem joined_drop (cl : Client) (group : Int) : (cl.drop group).joined = cl.joined := by
  unfold Client.drop
  split <;> rfl

@[simp] theorem joined_hear (cl : Client) (group : Int) : (cl.hear group).joined = cl.joined := by
  unfold Client.hear
  split <;> rfl

@[simp] theorem member_hear (cl : Client) (group : Int) : (cl.hear group).member = cl.member := by
  unfold Client.hear
  split <;> rfl

theorem mem_queue_hear {cl : Client} {group : Int} {msg : Message}
    (h : msg ∈ (cl.hear group).queue) : msg ∈ cl.queue ∨ msg = notification := by
  unfold Client.hear at h
  split at h
  · exact (List.mem_append.mp h).imp_right List.mem_singleton.mp
  · exact .inl h

@[simp] theorem printed_hear (cl : Client) (group : Int) :
    (cl.hear group).printed = cl.printed := by
  unfold Client.hear
  split <;> rfl

theorem length_queue_hear (cl : Client) (group : Int) : (cl.hear group).queue.length =
    cl.queue.length + if cl.inGroup group then 1 else 0 := by
  unfold Client.hear
  split <;> simp

theorem member_drop {cl : Client} {group g : Int} (h : (cl.drop group).member = some g) :
    cl.member = some g ∧ g ≠ group := by
  unfold Client.drop Client.inGroup at h
  split at h
  · cases h
  · rename_i hne
    refine ⟨h, fun heq => hne ?_⟩
    rw [h, heq]
    exact beq_self_eq_true _

theorem heard_multicast (s : State C) (group : Int) (c : C) :
    (s.sent ++ [fun c => (s.client c).inGroup group]).countP (· c) =
      s.heard c + if (s.client c).inGroup group then 1 else 0 := by
  simp [State.heard, List.countP_append, List.countP_cons]

variable {lib : Libnl} {handed refused handed' refused' : C → Nat} {s : State C} {c : C}

theorem inv_insmod (h : Inv handed refused s) {family : Family} (hphase : s.phase = .absent) :
    Inv handed refused { s with phase := .registered family } where
  printed := h.printed
  heard := h.heard
  once := h.once
  member := by
    intro c group hmember hone
    obtain ⟨family, hloaded, -⟩ := h.member c group hmember hone
    rw [hphase] at hloaded
    cases hloaded
  outside := h.outside
  queue := h.queue

/-- Nobody who is a member has heard of the family that is new. -/
theorem Inv.fresh (h : Inv handed refused s) {family : Family}
    (hphase : s.phase = .registered family) {group : Int}
    (hmember : (s.client c).member = some group) : s.heard c = 0 := by
  have hle := h.once c
  by_contra hne
  obtain ⟨family', hloaded, -⟩ := h.member c group hmember (by omega)
  rw [hphase] at hloaded
  cases hloaded

theorem inv_multicast (h : Inv handed refused s) {family : Family}
    (hphase : s.phase = .registered family) :
    Inv handed refused (⟨.loaded family, fun c => (s.client c).hear family.group,
      s.sent ++ [fun c => (s.client c).inGroup family.group]⟩ : State C) where
  printed := by
    intro c
    rw [printed_hear]
    exact h.printed c
  heard := by
    intro c
    rw [State.heard, heard_multicast, length_queue_hear, ← h.heard c]
    exact (Nat.add_assoc ..).symm
  once := by
    intro c
    rw [State.heard, heard_multicast]
    by_cases hin : (s.client c).inGroup family.group = true
    · rw [if_pos hin, h.fresh hphase (eq_of_beq hin)]
    · rw [if_neg hin]
      exact h.once c
  member := by
    intro c group hmember hone
    rw [member_hear] at hmember
    rw [State.heard, heard_multicast, h.fresh hphase hmember] at hone
    refine ⟨family, rfl, ?_⟩
    by_contra hne
    rw [if_neg (by simp [Client.inGroup, hmember, Ne.symm hne])] at hone
    cases hone
  outside := by
    intro c hc
    rw [joined_hear] at hc
    obtain ⟨hmember, hzero⟩ := h.outside c hc
    rw [member_hear, State.heard, heard_multicast, hzero]
    exact ⟨hmember, by simp [Client.inGroup, hmember]⟩
  queue := by
    intro c msg hmsg
    rcases mem_queue_hear hmsg with hold | hnew
    · exact h.queue c msg hold
    · exact hnew

theorem inv_rmmod (h : Inv handed refused s) {family : Family} (hphase : s.phase = .loaded family) :
    Inv handed refused
      { s with phase := .absent, client := fun c => (s.client c).drop family.group } where
  printed := by
    intro c
    rw [printed_drop]
    exact h.printed c
  heard := by
    intro c
    rw [queue_drop]
    exact h.heard c
  once := h.once
  member := by
    intro c group hmember hone
    obtain ⟨hold, hne⟩ := member_drop hmember
    obtain ⟨family', hloaded, hgroup⟩ := h.member c group hold hone
    rw [hphase] at hloaded
    cases hloaded
    exact absurd hgroup.symm hne
  outside := by
    intro c hc
    rw [joined_drop] at hc
    obtain ⟨hmember, hzero⟩ := h.outside c hc
    exact ⟨by simp [Client.drop, Client.inGroup, hmember], hzero⟩
  queue := by
    intro c msg hmsg
    rw [queue_drop] at hmsg
    exact h.queue c msg hmsg

section

variable [DecidableEq C]

/-- What each event does; of a client that has not joined, that it moves on. -/
theorem step_spec {e : Event C} {s' : State C} (h : step lib s e = some s') :
    match e with
    | .insmod family => s.phase = .absent ∧
        s' = family.elim s fun family => { s with phase := .registered family }
    | .notify skb hdr => ∃ family, s.phase = .registered family ∧
        s' = if skb && hdr then
            ⟨.loaded family, fun c => (s.client c).hear family.group,
              s.sent ++ [fun c => (s.client c).inGroup family.group]⟩
          else { s with phase := .loaded family }
    | .rmmod => ∃ family, s.phase = .loaded family ∧
        s' = { s with phase := .absent, client := fun c => (s.client c).drop family.group }
    | .connect c _ | .resolve c _ | .resolveGrp c _ =>
      (s.client c).pc ≠ .waiting ∧ ∃ pc, s' = s.goto c pc
    | .addMembership c ok => ∃ group, (s.client c).pc = .located group ∧
        s' = s.set c { s.client c with pc := .waiting, member := if ok then some group else none }
    | .recv c valid => (s.client c).pc = .waiting ∧ ∃ msg queue,
        (s.client c).queue = msg :: queue ∧
          s' = s.set c { s.client c with
            queue := queue
            printed := (s.client c).printed ++
              if valid then (rxCallback lib msg).toList else [] } := by
  cases e with
  | insmod family =>
    obtain ⟨hphase, h⟩ := Option.ite_none_right_eq_some.mp h
    refine ⟨hphase, ?_⟩
    cases family <;> exact (Option.some.inj h).symm
  | notify skb hdr =>
    simp only [step] at h
    split at h
    · refine ⟨_, ‹_›, ?_⟩
      split at h <;> cases h
      · exact (if_pos ‹_›).symm
      · exact (if_neg ‹_›).symm
    · cases h
  | rmmod =>
    simp only [step] at h
    split at h <;> cases h
    exact ⟨_, ‹_›, rfl⟩
  | connect c _ | resolve c _ =>
    obtain ⟨hpc, h⟩ := Option.ite_none_right_eq_some.mp h
    exact ⟨by rw [hpc]; exact Pc.noConfusion, _, (Option.some.inj h).symm⟩
  | resolveGrp c groupId =>
    simp only [step] at h
    split at h
    · rename_i hpc
      exact ⟨by rw [hpc]; exact Pc.noConfusion, _, (Option.some.inj h).symm⟩
    · cases h
  | addMembership c ok =>
    simp only [step] at h
    split at h <;> cases h
    exact ⟨_, ‹_›, rfl⟩
  | recv c valid =>
    obtain ⟨hpc, h⟩ := Option.ite_none_right_eq_some.mp h
    refine ⟨hpc, ?_⟩
    split at h <;> cases h
    exact ⟨_, _, ‹_›, rfl⟩

theorem inv_init : Inv (fun _ => 0) (fun _ => 0) (system C lib).init where
  printed := fun _ => rfl
  heard := fun _ => rfl
  once := fun _ => Nat.zero_le _
  member := fun _ _ h => by cases h
  outside := fun _ _ => ⟨rfl, rfl⟩
  queue := nofun

/-- A step of one client, which hears nothing. -/
theorem Inv.set (h : Inv handed refused s) {cl : Client}
    (hothers : ∀ d, d ≠ c → handed' d = handed d ∧ refused' d = refused d)
    (hprinted : cl.printed = List.replicate (handed' c) (.lit "Button Pressed"))
    (hheard : handed' c + refused' c + cl.queue.length = s.heard c)
    (hjoined : (s.client c).joined = true → cl.joined = true)
    (hmember : cl.member = (s.client c).member ∨ (s.client c).joined = false)
    (houtside : cl.joined = false → cl.member = none)
    (hqueue : ∀ msg ∈ cl.queue, msg ∈ (s.client c).queue) :
    Inv handed' refused' (s.set c cl) where
  printed := by
    intro d
    by_cases hd : d = c
    · subst hd
      simpa [State.set] using hprinted
    · simpa [State.set, hd, (hothers d hd).1] using h.printed d
  heard := by
    intro d
    by_cases hd : d = c
    · subst hd
      simpa [State.set, State.heard] using hheard
    · simpa [State.set, State.heard, hd, (hothers d hd).1, (hothers d hd).2] using h.heard d
  once := h.once
  member := by
    intro d group hd
    by_cases hdc : d = c
    · subst hdc
      simp only [State.set, Function.update_self] at hd
      rcases hmember with heq | hout
      · exact h.member d group (by rw [← heq, hd])
      · intro hone
        have hzero : s.heard d = 0 := (h.outside d hout).2
        have hheard : s.heard d = 1 := hone
        omega
    · simp only [State.set, Function.update_of_ne hdc] at hd
      exact h.member d group hd
  outside := by
    intro d hd
    by_cases hdc : d = c
    · subst hdc
      simp only [State.set, Function.update_self] at hd ⊢
      refine ⟨houtside hd, (h.outside d ?_).2⟩
      cases hold : (s.client d).joined with
      | false => rfl
      | true =>
        rw [hjoined hold] at hd
        cases hd
    · simp only [State.set, Function.update_of_ne hdc] at hd ⊢
      exact h.outside d hd
  queue := by
    intro d msg hmsg
    by_cases hdc : d = c
    · subst hdc
      simp only [State.set, Function.update_self] at hmsg
      exact h.queue d msg (hqueue msg hmsg)
    · simp only [State.set, Function.update_of_ne hdc] at hmsg
      exact h.queue d msg hmsg

/-- A step of a client that has not joined yet and does not join. -/
theorem Inv.goto (h : Inv handed refused s) {pc : Pc} (hpc : (s.client c).pc ≠ .waiting) :
    Inv handed refused (s.goto c pc) := by
  have hout : (s.client c).joined = false := beq_eq_false_iff_ne.mpr hpc
  refine h.set (fun _ _ => ⟨rfl, rfl⟩) (h.printed c) (h.heard c) (fun hj => ?_) (.inl rfl)
    (fun _ => (h.outside c hout).1) fun _ hmsg => hmsg
  rw [hout] at hj
  cases hj

/-- A step of the module, or of a client that receives nothing. -/
theorem inv_step {e : Event C} {s' : State C} (h : Inv handed refused s)
    (he : ∀ c valid, e ≠ .recv c valid) (hs : step lib s e = some s') : Inv handed refused s' := by
  have hspec := step_spec hs
  cases e with
  | insmod family =>
    obtain ⟨hphase, rfl⟩ := hspec
    cases family with
    | none => exact h
    | some family => exact inv_insmod h hphase
  | notify skb hdr =>
    obtain ⟨family, hphase, rfl⟩ := hspec
    split
    · exact inv_multicast h hphase
    · -- the message is not sent, so no member has heard anything
      refine ⟨h.printed, h.heard, h.once, fun c group hmember hone => ?_, h.outside, h.queue⟩
      have hzero := h.fresh hphase hmember
      have hheard : s.heard c = 1 := hone
      omega
  | rmmod =>
    obtain ⟨family, hphase, rfl⟩ := hspec
    exact inv_rmmod h hphase
  | connect c _ | resolve c _ | resolveGrp c _ =>
    obtain ⟨hpc, pc, rfl⟩ := hspec
    exact h.goto hpc
  | addMembership c ok =>
    obtain ⟨group, hpc, rfl⟩ := hspec
    have hout : (s.client c).joined = false := by simp [Client.joined, hpc]
    exact h.set (fun _ _ => ⟨rfl, rfl⟩) (h.printed c) (h.heard c) (fun _ => rfl) (.inr hout) nofun
      fun _ hmsg => hmsg
  | recv c valid => exact absurd rfl (he c valid)

/-- A message goes to the callback, which prints it, or libnl refuses it. -/
theorem inv_recv (hlib : lib.Documented) {valid : Bool} {s' : State C} (h : Inv handed refused s)
    (hs : step lib s (.recv c valid) = some s') :
    Inv (fun d => handed d + if (Event.recv c valid).hands d then 1 else 0)
      (fun d => refused d + if (Event.recv c valid).refuses d then 1 else 0) s' := by
  obtain ⟨hpc, msg, queue, hqueue, rfl⟩ := step_spec hs
  have hin : (s.client c).joined = true := by simp [Client.joined, hpc]
  have hmsg : msg = notification := h.queue c msg (by rw [hqueue]; exact List.mem_cons_self)
  have hheard := h.heard c
  rw [hqueue, List.length_cons] at hheard
  refine h.set (fun d hd => ?_) ?_ ?_ (fun _ => hin) (.inl rfl) (fun hout => ?_)
    fun msg' hmsg' => ?_
  · simp [Event.hands, Event.refuses, Ne.symm hd]
  · rw [hmsg, rxCallback_notification hlib]
    cases valid with
    | true => simp [Event.hands, h.printed c, List.replicate_succ']
    | false => simp [Event.hands, h.printed c]
  · cases valid <;> simp [Event.hands, Event.refuses] <;> omega
  · have hin' : (s.client c).joined = false := hout
    rw [hin] at hin'
    cases hin'
  · rw [hqueue]
    exact List.mem_cons_of_mem _ hmsg'

/-- **Runs**: the two counts are those of the events. -/
theorem reaches_inv (hlib : lib.Documented) {es : List (Event C)}
    (hs : (system C lib).Reaches es s) :
    Inv (fun c => es.countP (Event.hands c)) (fun c => es.countP (Event.refuses c)) s := by
  induction es using List.reverseRecOn generalizing s with
  | nil =>
    cases hs
    exact inv_init
  | append_singleton es e ih =>
    obtain ⟨t, ht, hstep⟩ := Machine.exec_concat_iff.mp hs
    have hold := ih ht
    simp only [List.countP_append, List.countP_singleton]
    by_cases he : ∃ c valid, e = .recv c valid
    · obtain ⟨c, valid, rfl⟩ := he
      exact inv_recv hlib hold hstep
    · have hnone : ∀ c, e.hands c = false ∧ e.refuses c = false := by
        intro c
        cases e <;> first | exact ⟨rfl, rfl⟩ | exact absurd ⟨_, _, rfl⟩ he
      simpa [hnone] using inv_step hold (fun c valid heq => he ⟨c, valid, heq⟩) hstep

/-! ## Latecomers -/

/-- The notification is out, and the client has nothing. -/
def Late (c : C) (s : State C) : Prop :=
  (∃ family, s.phase = .loaded family) ∧ (s.client c).queue = [] ∧ (s.client c).printed = []

theorem late_set {d : C} {cl : Client} (h : Late c s) (hqueue : cl.queue = (s.client d).queue)
    (hprinted : cl.printed = (s.client d).printed) : Late c (s.set d cl) := by
  obtain ⟨hphase, hq, hp⟩ := h
  refine ⟨hphase, ?_⟩
  by_cases hd : c = d
  · subst hd
    simp [State.set, hqueue, hprinted, hq, hp]
  · simp [State.set, hd, hq, hp]

theorem late_step {e : Event C} {s' : State C} (h : Late c s) (he : e ≠ .rmmod)
    (hs : step lib s e = some s') : Late c s' := by
  obtain ⟨⟨family, hphase⟩, hqueue, hprinted⟩ := id h
  have hspec := step_spec hs
  cases e with
  | insmod _ => simp [hphase] at hspec
  | notify _ _ => simp [hphase] at hspec
  | rmmod => exact absurd rfl he
  | connect d _ | resolve d _ | resolveGrp d _ =>
    obtain ⟨-, pc, rfl⟩ := hspec
    exact late_set h rfl rfl
  | addMembership d ok =>
    obtain ⟨group, -, rfl⟩ := hspec
    exact late_set h rfl rfl
  | recv d valid =>
    obtain ⟨-, msg, queue, hd, rfl⟩ := hspec
    have hcd : c ≠ d := by
      rintro rfl
      rw [hqueue] at hd
      cases hd
    exact ⟨⟨family, hphase⟩, by simpa [State.set, hcd] using hqueue,
      by simpa [State.set, hcd] using hprinted⟩

/-- **The notification.** For any number of clients, any order of the steps, loads and
unloads of the module included, and whatever libnl returns: a client prints `Button
Pressed` once for each message that goes to its callback; a multicast at which it was in
the group is such a message, or one that libnl has refused, or one that waits, and there
is one at most in its life; and a client that has not joined when `my_init` returns
prints nothing before the module is unloaded. -/
theorem multicast_heard (C : Type*) [DecidableEq C] (lib : Libnl) (hlib : lib.Documented)
    (es : List (Event C)) (s : State C) (hs : (system C lib).Reaches es s) (c : C) :
    (s.client c).printed =
      List.replicate (es.countP (Event.hands c)) (.lit "Button Pressed") ∧
    es.countP (Event.hands c) + es.countP (Event.refuses c) + (s.client c).queue.length =
      s.heard c ∧
    s.heard c ≤ 1 ∧
    ((s.client c).joined = false → (∃ family, s.phase = .loaded family) →
      ∀ fs s', (∀ e ∈ fs, e ≠ .rmmod) → (system C lib).exec s fs = some s' →
        (s'.client c).printed = [] ∧ (s'.client c).queue = []) := by
  have h := reaches_inv hlib hs
  refine ⟨h.printed c, h.heard c, h.once c, fun hout hphase fs s' hfs hrun => ?_⟩
  have hheard := h.heard c
  rw [(h.outside c hout).2] at hheard
  have hqueue : (s.client c).queue = [] := List.eq_nil_of_length_eq_zero (by omega)
  have hprinted : (s.client c).printed = [] := by
    rw [h.printed c, show es.countP (Event.hands c) = 0 by omega, List.replicate_zero]
  have hlate := Machine.exec_inv (M := system C lib) (I := Late c) (P := fun _ e => e ≠ .rmmod)
    (fun t e t' ht he hstep => late_step ht he hstep)
    ⟨hphase, hqueue, hprinted⟩ (Machine.along_of_forall _ hfs) hrun
  exact ⟨hlate.2.2, hlate.2.1⟩

/-- The last attribute of each type, and the payload up to its NUL. -/
def plainLibnl : Libnl where
  nlaParse maxtype attrs type :=
    if type ≤ maxtype then attrs.reverse.find? (·.type == type) else none
  nlaGetString nla := .ofBytes nla.payload

theorem plainLibnl_documented : plainLibnl.Documented where
  nlaParse maxtype nla _ hle := by simp [plainLibnl, hle]
  nlaGetString type text := CString.ofBytes_mem text

/-- The client `true` joins while the module loads, and libnl makes of the notification
what it likes. -/
def oneInTime (valid : Bool) : List (Event Bool) :=
  [.insmod (some ⟨30, 5⟩), .connect true true, .resolve true 30, .resolveGrp true 5,
    .addMembership true true, .notify true true, .recv true valid]

/-- The message is printed, or it is refused; the client `false` comes too late. -/
theorem multicast_heard_one_in_time :
    (∃ s, (system Bool plainLibnl).Reaches (oneInTime true) s ∧
      (s.client true).printed = [.lit "Button Pressed"] ∧
      ∀ s', (system Bool plainLibnl).exec s [.connect false true, .resolve false 30,
        .resolveGrp false 5, .addMembership false true] = some s' →
          (s'.client false).printed = []) ∧
    ∃ s, (system Bool plainLibnl).Reaches (oneInTime false) s ∧ (s.client true).printed = [] := by
  obtain ⟨s, hs, hphase, hjoined⟩ : ∃ s, (system Bool plainLibnl).Reaches (oneInTime true) s ∧
      s.phase = .loaded ⟨30, 5⟩ ∧ (s.client false).joined = false := ⟨_, rfl, rfl, rfl⟩
  obtain ⟨t, ht⟩ : ∃ t, (system Bool plainLibnl).Reaches (oneInTime false) t := ⟨_, rfl⟩
  obtain ⟨hprinted, -⟩ := multicast_heard Bool plainLibnl plainLibnl_documented _ s hs true
  obtain ⟨-, -, -, hlate⟩ := multicast_heard Bool plainLibnl plainLibnl_documented _ s hs false
  obtain ⟨hrefused, -⟩ := multicast_heard Bool plainLibnl plainLibnl_documented _ t ht true
  exact ⟨⟨s, hs, hprinted, fun s' hs' => (hlate hjoined ⟨_, hphase⟩ _ s' (by decide) hs').1⟩,
    t, ht, hrefused⟩

end

end KernelSpace.Netlink.Multicast
