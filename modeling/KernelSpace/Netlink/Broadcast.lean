import KernelSpace.Kernel.CString
import KernelSpace.Lib.Machine

/-!
# Netlink — the broadcast driver

`25b.Netlink_Socket_Broadcast/netlink_kernel_broadcast.c`: a table of client
port ids, a receive callback that registers the sender and answers it, and
the text `broadcast`, which is answered to the whole table.

What the kernel decides is the `Env`: whether the `n`-th `nlmsg_new` of the
driver's life returns a buffer, and what the `n`-th `nlmsg_unicast` returns.
Port id 0 is the kernel's own socket: `nlmsg_unicast` to it calls the input
callback, which is `netlinkRecvMsg` itself, before it returns. The calls
therefore nest, and C puts no bound on them; the `depth` argument is such a
bound, and the result is `none` when the nesting would exceed it.
`Terminates` says that some bound is enough.

Records of the run that the code itself does not keep: the count of
`nlmsg_new` calls, every `nlmsg_unicast` attempt, and the `printk` lines.
-/

namespace KernelSpace.Netlink

open KernelSpace.Kernel KernelSpace.Lib

def maxClients : Nat := 10

/-! ## Messages -/

/-- A netlink message: the header's port id (the only header field the
driver reads) and the payload, which holds a NUL. -/
structure Datagram where
  nlmsgPid : UInt32
  payload : List UInt8
  terminated : (0 : UInt8) ∈ payload
deriving DecidableEq

/-- What `nlmsg_data(nlh)` reads as a string. -/
def Datagram.text (skb : Datagram) : CString := .ofBytes skb.payload

/-- `nlmsg_put(skb, portid, 0, NLMSG_DONE, size, 0)`, then the `strcpy` of
the text into the payload. -/
def nlmsgPut (portid : UInt32) (msg : CString) : Datagram :=
  ⟨portid, msg.mem, msg.nul_mem_mem⟩

@[simp] theorem nlmsgPut_text (portid : UInt32) (msg : CString) :
    (nlmsgPut portid msg).text = msg := CString.ofBytes_mem msg

@[simp] theorem nlmsgPut_pid (portid : UInt32) (msg : CString) :
    (nlmsgPut portid msg).nlmsgPid = portid := rfl

/-- `skb->len`: the 16-byte header and the payload, aligned to 4. -/
def Datagram.len (skb : Datagram) : Nat := (16 + skb.payload.length + 3) / 4 * 4

/-! ## The driver's state -/

/-- `clients[MAX_CLIENTS]` and `total_clients`. -/
structure ClientTable where
  clients : Vector UInt32 maxClients
  totalClients : Nat
  bounded : totalClients ≤ maxClients
deriving DecidableEq

/-- `clients[0 .. total_clients)`. -/
def ClientTable.inUse (t : ClientTable) : List UInt32 := t.clients.toList.take t.totalClients

/-- `clients[i]` at an index the loops reach. -/
def ClientTable.client (t : ClientTable) (i : Nat) (h : i < t.totalClients) : UInt32 :=
  have hi : i < maxClients := Nat.lt_of_lt_of_le h t.bounded
  t.clients[i]

/-- The driver's `printk` lines. -/
inductive Printk where
  | clientTableFull
  | clientRegistered (pid : UInt32)
  | notReachable (pid : UInt32)
  | allocFailed
  | received (pid : UInt32) (msg : CString)
deriving DecidableEq

/-- One `nlmsg_unicast` attempt. -/
structure Unicast where
  dst : UInt32
  skb : Datagram
deriving DecidableEq

structure State where
  table : ClientTable
  allocs : Nat
  sends : List Unicast
  log : List Printk
deriving DecidableEq

/-- The zeroed statics of a module just loaded. -/
def State.init : State where
  table := ⟨.replicate maxClients 0, 0, Nat.zero_le _⟩
  allocs := 0
  sends := []
  log := []

def State.printk (s : State) (line : Printk) : State := { s with log := s.log ++ [line] }

/-- The kernel's answers to the driver's calls. -/
structure Env where
  nlmsgNew : Nat → Bool
  nlmsgUnicast : Nat → Int

/-! ## The functions -/

/-- The duplicate scan of `register_client`. -/
def ClientTable.registered (t : ClientTable) (pid : UInt32) : Bool :=
  (List.range t.totalClients).any fun i => t.clients[i]? == some pid

def registerClient (pid : UInt32) (s : State) : State :=
  if s.table.registered pid then s
  else if h : maxClients ≤ s.table.totalClients then s.printk .clientTableFull
  else
    let table : ClientTable :=
      { clients := s.table.clients.set s.table.totalClients pid (by omega)
        totalClients := s.table.totalClients + 1
        bounded := by omega }
    { s with table := table }.printk (.clientRegistered pid)

section Callback

variable (env : Env) (input : State → Datagram → Option State)

/-- `nlmsg_unicast`: port 0 runs the input callback, any other port queues
the message. -/
def nlmsgUnicast (dst : UInt32) (skb : Datagram) (s : State) : Option (Int × State) :=
  let sent := { s with sends := s.sends ++ [⟨dst, skb⟩] }
  if dst = 0 then (input sent skb).map fun s' => ((skb.len : Int), s')
  else some (env.nlmsgUnicast s.sends.length, sent)

/-- One round of the loop of `send_broadcast`, for `pid = clients[i]`: a failed
allocation is `continue`. The source reads `clients[i]` again for the line it
prints; an entry in use is never overwritten. -/
def broadcastRound (msg : CString) (pid : UInt32) (s : State) : Option State :=
  let counted := { s with allocs := s.allocs + 1 }
  if env.nlmsgNew s.allocs then
    (nlmsgUnicast env input pid (nlmsgPut 0 msg) counted).map fun (ret, s') =>
      if ret < 0 then s'.printk (.notReachable pid) else s'
  else some counted

/-- The loop of `send_broadcast` from index `i`, `fuel` rounds at most. The
bound `total_clients` is read again in every round, as the source does. -/
def sendBroadcastFrom (msg : CString) : (fuel i : Nat) → State → Option State
  | 0, _, s => some s
  | fuel + 1, i, s =>
    if h : i < s.table.totalClients then
      (broadcastRound env input msg (s.table.client i h) s).bind
        (sendBroadcastFrom msg fuel (i + 1))
    else some s

/-- `total_clients` never exceeds `MAX_CLIENTS`, so that many rounds are all
the loop can make. -/
def sendBroadcast (msg : CString) (s : State) : Option State :=
  sendBroadcastFrom env input msg maxClients 0 s

def sendReply (pid : UInt32) (msg : CString) (s : State) : Option State :=
  let counted := { s with allocs := s.allocs + 1 }
  if env.nlmsgNew s.allocs then
    (nlmsgUnicast env input pid (nlmsgPut 0 msg) counted).map (·.2)
  else some (counted.printk .allocFailed)

end Callback

/-- The receive callback, its nested calls included, with at most `depth`
calls open at a time. -/
def netlinkRecvMsg (env : Env) : (depth : Nat) → State → Datagram → Option State
  | 0, _, _ => none
  | depth + 1, s, skb =>
    let msg := skb.text
    let pid := skb.nlmsgPid
    let s := (registerClient pid s).printk (.received pid msg)
    if CString.strcmp msg (.lit "broadcast") = 0 then
      sendBroadcast env (netlinkRecvMsg env depth) (.lit "Broadcast Message") s
    else
      sendReply env (netlinkRecvMsg env depth) pid (.lit "Hello Userspace") s

/-- The chain of nested calls that the handling of `skb` starts is finite. -/
def Terminates (env : Env) (s : State) (skb : Datagram) : Prop :=
  ∃ depth, (netlinkRecvMsg env depth s skb).isSome

/-- A datagram handed to the driver, and a bound on the nesting of its
handling. -/
structure Delivery where
  skb : Datagram
  depth : Nat

/-- The driver handling datagrams one at a time. -/
def driver (env : Env) : Machine State Delivery where
  init := .init
  step s d := netlinkRecvMsg env d.depth s d.skb

end KernelSpace.Netlink
