import KernelSpace.Netlink.Broadcast

/-!
# Netlink — the bytes of a datagram (25, 25a, 25b)

`netlink_recv_msg` of the three drivers,
`25.Netlink_Socket/netlink_kernel.c`,
`25a.Netlink_Socket_Multiclient/netlink_kernel_multiclient.c` and
`25b.Netlink_Socket_Broadcast/netlink_kernel_broadcast.c`. A sender in user
space chooses the bytes of a datagram and their number; the handlers take the
port id from the header and the text from behind it, whatever the datagram's
length or the header's `nlmsg_len` is.

Every read is a lookup in the datagram here, so a handler is `none` where it
leaves the datagram. What 25b makes of the port id and the text is
`netlinkRecvMsg` on a `Datagram`, which has its NUL; `exists_datagram` says
that this is what it has of every datagram that it does not leave.
-/

namespace KernelSpace.Netlink

open KernelSpace.Kernel

/-! ## Reads -/

/-- `NLMSG_HDRLEN`, where `nlmsg_data` points to. -/
def nlmsgHdrlen : Nat := 16

/-- The place of `nlmsg_pid` behind `nlmsg_len`, the type, the flags and the
sequence number. -/
def nlmsgPidOffset : Nat := 12

/-- A `u32`, the low byte first. -/
def loadU32 (raw : List UInt8) (i : Nat) : Option UInt32 :=
  raw[i]?.bind fun b0 => raw[i + 1]?.bind fun b1 => raw[i + 2]?.bind fun b2 => raw[i + 3]?.map
    fun b3 => .ofNat (b0.toNat + 0x100 * b1.toNat + 0x10000 * b2.toNat + 0x1000000 * b3.toNat)

/-- The bytes `%s` prints from the memory; it reads on to the NUL. -/
def printString : List UInt8 → Option (List UInt8)
  | [] => none
  | c :: mem => if c = 0 then some [] else (printString mem).map (c :: ·)

/-- `strcmp` of the memory with a literal, which has its NUL. -/
def strcmpMem : List UInt8 → List UInt8 → Option Int
  | c1 :: cs, c2 :: ct =>
    if c1 ≠ c2 then some (if c1 < c2 then -1 else 1)
    else if c1 = 0 then some 0
    else strcmpMem cs ct
  | _, _ => none

theorem loadU32_isSome_iff (raw : List UInt8) (i : Nat) :
    (loadU32 raw i).isSome ↔ i + 3 < raw.length := by
  constructor
  · intro h
    by_contra hle
    have hnone : raw[i + 3]? = none := List.getElem?_eq_none (by omega)
    simp [loadU32, hnone] at h
  · intro h
    have hlookup : ∀ j ≤ i + 3, ∃ b, raw[j]? = some b := fun j hj =>
      ⟨_, List.getElem?_eq_getElem (Nat.lt_of_le_of_lt hj h)⟩
    obtain ⟨b0, h0⟩ := hlookup i (by omega)
    obtain ⟨b1, h1⟩ := hlookup (i + 1) (by omega)
    obtain ⟨b2, h2⟩ := hlookup (i + 2) (by omega)
    obtain ⟨b3, h3⟩ := hlookup (i + 3) (by omega)
    simp [loadU32, h0, h1, h2, h3]

/-- `%s` stays in memory that holds a NUL, and prints the text. -/
theorem printString_eq (mem : List UInt8) :
    printString mem = if 0 ∈ mem then some (CString.ofBytes mem).chars else none := by
  induction mem with
  | nil => rfl
  | cons c mem ih =>
    by_cases hc : c = 0
    · simp [printString, CString.ofBytes, hc]
    · rw [printString, if_neg hc, ih]
      simp only [List.mem_cons, Ne.symm hc, false_or, CString.ofBytes]
      split <;> simp [hc]

/-- `strcmp` stays in memory that holds a NUL, and compares the text. -/
theorem strcmpMem_eq {mem : List UInt8} (h : 0 ∈ mem) (s : CString) :
    strcmpMem mem s.mem = some (CString.strcmp (.ofBytes mem) s) := by
  obtain ⟨chars, hnonul⟩ := s
  simp only [CString.strcmp, CString.ofBytes, CString.mem]
  induction mem generalizing chars with
  | nil => cases h
  | cons c mem ih =>
    cases chars with
    | nil =>
      by_cases hc : c = 0
      · simp [strcmpMem, CString.strcmpChars, hc]
      · simp [strcmpMem, CString.strcmpChars, hc]
    | cons d ds =>
      have hd : d ≠ 0 := fun h0 => hnonul (h0 ▸ List.mem_cons_self)
      by_cases hc : c = 0
      · -- the text ends before the literal
        have hlt : (0 : UInt8) < d := UInt8.pos_iff_ne_zero.mpr hd
        simp [strcmpMem, CString.strcmpChars, hc, Ne.symm hd, hlt]
      · have hmem : 0 ∈ mem := (List.mem_cons.mp h).resolve_left (Ne.symm hc)
        have hrest := ih hmem ds fun h0 => hnonul (List.mem_cons_of_mem d h0)
        by_cases hcd : c = d
        · simpa [strcmpMem, CString.strcmpChars, hcd, hd] using hrest
        · simp [strcmpMem, CString.strcmpChars, hcd, hc]

/-! ## The handlers -/

/-- What a handler has read of the datagram: the port id, the bytes it printed,
and what `strcmp` said where it asks. -/
structure Received where
  pid : UInt32
  printed : List UInt8
  cmp : Option Int
deriving DecidableEq

/-- 25 and 25a print the text and answer the port id. -/
def readReply (raw : List UInt8) : Option Received :=
  (loadU32 raw nlmsgPidOffset).bind fun pid =>
    (printString (raw.drop nlmsgHdrlen)).map fun printed => ⟨pid, printed, none⟩

namespace Single

/-- `netlink_recv_msg` of 25. -/
def netlinkRecvMsg (raw : List UInt8) : Option Received := readReply raw

end Single

namespace Multiclient

/-- `netlink_recv_msg` of 25a; `register_client(pid)` stands between the reads. -/
def netlinkRecvMsg (raw : List UInt8) : Option Received := readReply raw

end Multiclient

namespace BroadcastRaw

/-- `netlink_recv_msg` of 25b, which prints the text and compares it then. -/
def netlinkRecvMsg (raw : List UInt8) : Option Received :=
  (loadU32 raw nlmsgPidOffset).bind fun pid =>
    (printString (raw.drop nlmsgHdrlen)).bind fun printed =>
      (strcmpMem (raw.drop nlmsgHdrlen) (CString.lit "broadcast").mem).map fun cmp =>
        ⟨pid, printed, some cmp⟩

end BroadcastRaw

/-- The three handlers stay in the datagram. -/
structure ReadsWithin (raw : List UInt8) : Prop where
  single : (Single.netlinkRecvMsg raw).isSome
  multiclient : (Multiclient.netlinkRecvMsg raw).isSome
  broadcast : (BroadcastRaw.netlinkRecvMsg raw).isSome

/-- A NUL behind the header leaves room for the port id. -/
theorem exists_pid {raw : List UInt8} (h : 0 ∈ raw.drop nlmsgHdrlen) :
    ∃ pid, loadU32 raw nlmsgPidOffset = some pid := by
  have hlen := List.length_pos_of_mem h
  rw [List.length_drop, nlmsgHdrlen] at hlen
  exact Option.isSome_iff_exists.mp ((loadU32_isSome_iff raw _).mpr (by rw [nlmsgPidOffset]; omega))

/-- What the handlers have of a datagram with a NUL behind its header. -/
theorem handlers_eq {raw : List UInt8} {pid : UInt32} (h : 0 ∈ raw.drop nlmsgHdrlen)
    (hpid : loadU32 raw nlmsgPidOffset = some pid) :
    readReply raw = some ⟨pid, (CString.ofBytes (raw.drop nlmsgHdrlen)).chars, none⟩ ∧
      BroadcastRaw.netlinkRecvMsg raw
        = some ⟨pid, (CString.ofBytes (raw.drop nlmsgHdrlen)).chars,
            some (CString.strcmp (.ofBytes (raw.drop nlmsgHdrlen)) (.lit "broadcast"))⟩ := by
  have hprint : printString (raw.drop nlmsgHdrlen)
      = some (CString.ofBytes (raw.drop nlmsgHdrlen)).chars := by
    rw [printString_eq, if_pos h]
  have hcmp := strcmpMem_eq h (.lit "broadcast")
  constructor
  · simp [readReply, hpid, hprint]
  · simp [BroadcastRaw.netlinkRecvMsg, hpid, hprint, hcmp]

/-- The `Datagram` that 25b handles. -/
theorem exists_datagram {raw : List UInt8} (h : 0 ∈ raw.drop nlmsgHdrlen) :
    ∃ skb : Datagram, skb.payload = raw.drop nlmsgHdrlen ∧
      loadU32 raw nlmsgPidOffset = some skb.nlmsgPid ∧
      BroadcastRaw.netlinkRecvMsg raw = some ⟨skb.nlmsgPid, skb.text.chars,
        some (CString.strcmp skb.text (.lit "broadcast"))⟩ := by
  obtain ⟨pid, hpid⟩ := exists_pid h
  exact ⟨⟨pid, raw.drop nlmsgHdrlen, h⟩, rfl, hpid, (handlers_eq h hpid).2⟩

theorem nul_of_readReply {raw : List UInt8} (h : (readReply raw).isSome) :
    0 ∈ raw.drop nlmsgHdrlen := by
  by_contra hnul
  have hprint : printString (raw.drop nlmsgHdrlen) = none := by
    rw [printString_eq, if_neg hnul]
  simp [readReply, hprint] at h

/-- **The handlers stay in the datagram** exactly when there is a NUL in it
behind the header, whatever its length and its header say. -/
theorem reads_within_iff (raw : List UInt8) : ReadsWithin raw ↔ 0 ∈ raw.drop nlmsgHdrlen := by
  refine ⟨fun h => nul_of_readReply h.single, fun h => ?_⟩
  obtain ⟨pid, hpid⟩ := exists_pid h
  obtain ⟨hreply, hbroadcast⟩ := handlers_eq h hpid
  exact ⟨Option.isSome_of_eq_some hreply, Option.isSome_of_eq_some hreply,
    Option.isSome_of_eq_some hbroadcast⟩

/-- A header and four bytes behind it, none a NUL. -/
theorem unterminated_leaves : ¬ ∀ raw, ReadsWithin raw := by
  intro h
  have hall := (h (List.replicate 20 65)).single
  revert hall
  decide

end KernelSpace.Netlink
