import KernelSpace.Kernel.Waiters
import KernelSpace.PollSelect.Driver

/-!
# PollSelect — the programs and the drivers (8, 9)

`char_cdev_poll_select_epoll_user.c` and `char_cdev_wakeip_isr_nr_user.c` call `poll`
without a time limit, then `read` into 100 bytes. Any number of processes `P`
run them while any number of writers `W` write, and here every access of
`my_poll`, `my_read` and `my_write` to the buffer, the flag or the queue is a
step. A process goes through

    start
    looking   behind poll_wait, before my_poll looks at the flag; triggered says
              that a wake-up came since
    checked   the flag was not set
    asleep    in poll_schedule_timeout
    woken     awake again, before it looks once more
    leaving   poll returns, poll_freewait is to come
    back      before my_read looks at the flag
    found     the flag was set, strlen is to come
    measured  copy_to_user is to come, of len bytes
    copied    the flag is to be cleared
    done      behind read

and a writer is behind `copy_from_user`, behind the store of the NUL, or behind
the flag, where the wake-up is to come.
-/

namespace KernelSpace.PollSelect.Program

open KernelSpace.Kernel KernelSpace.Lib

inductive Pc where
  | start
  | looking (triggered : Bool)
  | checked (triggered : Bool)
  | asleep
  | woken
  | leaving
  | back
  | found
  | measured (len : Nat)
  | copied (text : List UInt8)
  | done (ret : Int) (text : List UInt8)
deriving DecidableEq

/-- Inside `poll`, with an entry in the queue. -/
def Pc.inPoll : Pc → Bool
  | looking _ | checked _ | asleep | woken => true
  | _ => false

/-- On the way to sleep, with no wake-up since, or asleep. -/
def Pc.waits : Pc → Bool
  | checked false | asleep => true
  | _ => false

/-- The wake function of an entry that `poll_wait` made, `pollwake`. -/
def Pc.pollwake : Pc → Bool × Pc
  | looking _ => (false, looking true)
  | checked _ => (false, checked true)
  | asleep => (true, woken)
  | pc => (false, pc)

inductive WriterPc where
  | idle
  | copied (len : Nat)
  | terminated
  | announced
deriving DecidableEq

structure State (P W : Type*) where
  dev : Device
  myWq : List (Waiter P)
  pc : P → Pc
  writer : W → WriterPc

inductive Event (P W : Type*) where
  | pollWait (p : P)
  | look (p : P)
  | schedule (p : P)
  | rise (p : P)
  | interrupt (p : P)
  | freewait (p : P)
  | test (p : P)
  | measure (p : P)
  | copyOut (p : P)
  | clear (p : P)
  /-- `fault` is the number of bytes after which `copy_from_user` fails. -/
  | copyIn (w : W) (buf : List UInt8) (fault : Option Nat)
  | terminate (w : W)
  | setFlag (w : W)
  | wakeUp (w : W)

section

variable {P W : Type*} [DecidableEq P] [DecidableEq W]

def State.setPc (s : State P W) (p : P) (pc : Pc) : State P W :=
  { s with pc := Function.update s.pc p pc }

def State.setWriter (s : State P W) (w : W) (pc : WriterPc) : State P W :=
  { s with writer := Function.update s.writer w pc }

/-- `len` behind the cut of `my_write`. -/
def writeLen (buf : List UInt8) : Nat :=
  if buf.length > bufferSize - 1 then bufferSize - 1 else buf.length

/-- `len` behind the cut of `my_read(file, buf, 100, off)`. -/
def readLen (dev : Device) : Nat :=
  let dataLen := sizeT (int32 dev.buffer.str.strlen)
  if 100 > dataLen then dataLen else 100

/-- `nr` is what the wake-up is given: 1 in both drivers. -/
def step (nr : Int) (s : State P W) : Event P W → Option (State P W)
  | .pollWait p =>
    if s.pc p = .start then some ({ s with myWq := ⟨p, false⟩ :: s.myWq }.setPc p (.looking false))
    else none
  | .look p =>
    match s.pc p with
    | .looking triggered =>
      some (s.setPc p (if myPoll s.dev &&& POLLIN = 0 then .checked triggered else .leaving))
    | _ => none
  | .schedule p =>
    match s.pc p with
    | .checked triggered => some (s.setPc p (if triggered then .looking false else .asleep))
    | _ => none
  | .rise p => if s.pc p = .woken then some (s.setPc p (.looking false)) else none
  | .interrupt p => if s.pc p = .asleep then some (s.setPc p .leaving) else none
  | .freewait p =>
    if s.pc p = .leaving then
      some ({ s with myWq := s.myWq.filter fun entry => entry.process ≠ p }.setPc p .back)
    else none
  | .test p =>
    if s.pc p = .back then
      some (s.setPc p (if s.dev.dataAvailable = 0 then .done 0 [] else .found))
    else none
  | .measure p => if s.pc p = .found then some (s.setPc p (.measured (readLen s.dev))) else none
  | .copyOut p =>
    match s.pc p with
    | .measured len => some (s.setPc p (.copied (s.dev.buffer.bytes.take len)))
    | _ => none
  | .clear p =>
    match s.pc p with
    | .copied text =>
      some ({ s with dev := { s.dev with dataAvailable := 0 } }.setPc p (.done text.length text))
    | _ => none
  | .copyIn w buf fault =>
    if s.writer w = .idle then
      match fault with
      | some k => some { s with dev.buffer := s.dev.buffer.copyFault buf (writeLen buf) k }
      | none =>
        some ({ s with dev.buffer := s.dev.buffer.store 0 (buf.take (writeLen buf)) }.setWriter w
          (.copied (writeLen buf)))
    else none
  | .terminate w =>
    match s.writer w with
    | .copied len =>
      some ({ s with dev.buffer := s.dev.buffer.store len [0] }.setWriter w .terminated)
    | _ => none
  | .setFlag w =>
    if s.writer w = .terminated then
      some ({ s with dev.dataAvailable := 1 }.setWriter w .announced)
    else none
  | .wakeUp w =>
    if s.writer w = .announced then
      some ({ s with pc := wakeUpCommon Pc.pollwake nr s.myWq s.pc }.setWriter w .idle)
    else none

/-- The module as loaded, and the processes to come. -/
def system (P W : Type*) [DecidableEq P] [DecidableEq W] (nr : Int) :
    Machine (State P W) (Event P W) :=
  ⟨⟨calls.init, [], fun _ => .start, fun _ => .idle⟩, step nr⟩

end

/-! ## The invariant -/

section

variable {P W : Type*}

structure Inv (s : State P W) : Prop where
  shared : ∀ entry ∈ s.myWq, entry.exclusive = false
  registered : ∀ p, (s.pc p).inPoll = true → p ∈ s.myWq.map Waiter.process
  /-- Nobody waits while the flag is set, unless a wake-up is to come. -/
  announced : ∀ p, (s.pc p).waits = true → s.dev.dataAvailable ≠ 0 → ∃ w, s.writer w = .announced
  /-- Nothing but a NUL is ever stored in the last byte. -/
  terminated : s.dev.buffer.bytes[bufferSize - 1]? = some 0
  len : ∀ w len, s.writer w = .copied len → len ≤ bufferSize - 1

theorem writeLen_le (buf : List UInt8) : writeLen buf ≤ bufferSize - 1 := by
  unfold writeLen
  split <;> omega

theorem length_take_writeLen (buf : List UInt8) :
    (buf.take (writeLen buf)).length = writeLen buf := by
  refine List.length_take_of_le ?_
  unfold writeLen
  split <;> omega

/-- A store in front of the last byte. -/
theorem last_store {buffer : CharArray bufferSize} {i : Nat} {bs : List UInt8}
    (h : buffer.bytes[bufferSize - 1]? = some 0) (hi : i + bs.length ≤ bufferSize - 1) :
    (buffer.store i bs).bytes[bufferSize - 1]? = some 0 := by
  rw [CharArray.getElem?_store _ (by omega), if_neg (by omega), h]

theorem waits_pollwake (pc : Pc) : pc.pollwake.2.waits = false := by
  cases pc <;> rfl

theorem inPoll_pollwake (pc : Pc) : pc.pollwake.2.inPoll = pc.inPoll := by
  cases pc <;> rfl

variable {s : State P W} {p : P} {w : W} {nr : Int}

theorem inv_clear (h : Inv s) : Inv { s with dev := { s.dev with dataAvailable := 0 } } where
  shared := h.shared
  registered := h.registered
  announced := fun _ _ hflag => absurd rfl hflag
  terminated := h.terminated
  len := h.len

theorem flag_of_look (h : myPoll s.dev &&& POLLIN = 0) : s.dev.dataAvailable = 0 := by
  by_contra hflag
  rw [myPoll, if_pos hflag] at h
  exact absurd h (by decide)

section

variable [DecidableEq W]

/-- A writer that does not come from or to the flag. -/
theorem Inv.write (h : Inv s) {buffer : CharArray bufferSize} {pc : WriterPc}
    (hlast : buffer.bytes[bufferSize - 1]? = some 0) (hfrom : s.writer w ≠ .announced)
    (hlen : ∀ len, pc = .copied len → len ≤ bufferSize - 1) :
    Inv ({ s with dev.buffer := buffer }.setWriter w pc) where
  shared := h.shared
  registered := h.registered
  announced := by
    intro p hp hflag
    obtain ⟨v, hv⟩ := h.announced p hp hflag
    have hvw : v ≠ w := fun heq => hfrom (heq ▸ hv)
    exact ⟨v, by simpa [State.setWriter, hvw] using hv⟩
  terminated := hlast
  len := by
    intro v len hv
    by_cases hvw : v = w
    · subst hvw
      simp only [State.setWriter, Function.update_self] at hv
      exact hlen len hv
    · simp only [State.setWriter, Function.update_of_ne hvw] at hv
      exact h.len v len hv

theorem inv_setFlag (h : Inv s) (w : W) :
    Inv ({ s with dev.dataAvailable := 1 }.setWriter w .announced) where
  shared := h.shared
  registered := h.registered
  announced := fun _ _ _ => ⟨w, by simp [State.setWriter]⟩
  terminated := h.terminated
  len := by
    intro v len hv
    by_cases hvw : v = w
    · subst hvw
      simp [State.setWriter] at hv
    · simp only [State.setWriter, Function.update_of_ne hvw] at hv
      exact h.len v len hv

end

section

variable [DecidableEq P]

/-- **A wake-up reaches every process that waits**, whatever its number. -/
theorem wakeUpCommon_pc (h : Inv s) (nr : Int) (p : P) :
    wakeUpCommon Pc.pollwake nr s.myWq s.pc p = (s.pc p).pollwake.2 := by
  have hidem : ∀ pc : Pc, pc.pollwake.2.pollwake.2 = pc.pollwake.2 := by
    intro pc
    cases pc <;> rfl
  rw [wakeUpCommon_shared hidem h.shared nr s.pc p]
  split
  · rfl
  · rename_i hp
    have hout : (s.pc p).inPoll = false := by
      cases hin : (s.pc p).inPoll with
      | false => rfl
      | true => exact absurd (h.registered p hin) hp
    cases hpc : s.pc p <;> first | rfl | (rw [hpc] at hout; cases hout)

/-- One process goes on, and waits only where the flag is not set. -/
theorem Inv.setPc (h : Inv s) {pc : Pc} (hin : pc.inPoll = true → (s.pc p).inPoll = true)
    (hwaits : pc.waits = true → (s.pc p).waits = true ∨ s.dev.dataAvailable = 0) :
    Inv (s.setPc p pc) where
  shared := h.shared
  registered := by
    intro q hq
    by_cases hqp : q = p
    · subst hqp
      simp only [State.setPc, Function.update_self] at hq
      exact h.registered q (hin hq)
    · simp only [State.setPc, Function.update_of_ne hqp] at hq
      exact h.registered q hq
  announced := by
    intro q hq hflag
    by_cases hqp : q = p
    · subst hqp
      simp only [State.setPc, Function.update_self] at hq
      exact h.announced q ((hwaits hq).resolve_right hflag) hflag
    · simp only [State.setPc, Function.update_of_ne hqp] at hq
      exact h.announced q hq hflag
  terminated := h.terminated
  len := h.len

/-- `poll_wait`. -/
theorem inv_pollWait (h : Inv s) (p : P) :
    Inv ({ s with myWq := ⟨p, false⟩ :: s.myWq }.setPc p (.looking false)) where
  shared := List.forall_mem_cons.mpr ⟨rfl, h.shared⟩
  registered := by
    intro q hq
    by_cases hqp : q = p
    · subst hqp
      exact List.mem_cons_self
    · simp only [State.setPc, Function.update_of_ne hqp] at hq
      exact List.mem_cons_of_mem _ (h.registered q hq)
  announced := by
    intro q hq hflag
    by_cases hqp : q = p
    · subst hqp
      simp [State.setPc, Pc.waits] at hq
    · simp only [State.setPc, Function.update_of_ne hqp] at hq
      exact h.announced q hq hflag
  terminated := h.terminated
  len := h.len

/-- `poll_freewait`. -/
theorem inv_freewait (h : Inv s) (p : P) :
    Inv ({ s with myWq := s.myWq.filter fun entry => entry.process ≠ p }.setPc p .back) where
  shared := fun entry hentry => h.shared entry (List.mem_of_mem_filter hentry)
  registered := by
    intro q hq
    by_cases hqp : q = p
    · subst hqp
      simp [State.setPc, Pc.inPoll] at hq
    · simp only [State.setPc, Function.update_of_ne hqp] at hq
      obtain ⟨entry, hentry, rfl⟩ := List.mem_map.mp (h.registered q hq)
      exact List.mem_map.mpr ⟨entry, List.mem_filter.mpr ⟨hentry, by simpa using hqp⟩, rfl⟩
  announced := by
    intro q hq hflag
    by_cases hqp : q = p
    · subst hqp
      simp [State.setPc, Pc.waits] at hq
    · simp only [State.setPc, Function.update_of_ne hqp] at hq
      exact h.announced q hq hflag
  terminated := h.terminated
  len := h.len

end

variable [DecidableEq P] [DecidableEq W]

theorem inv_init : Inv (system P W nr).init where
  shared := nofun
  registered := nofun
  announced := nofun
  terminated := rfl
  len := nofun

theorem inv_wakeUp (h : Inv s) (w : W) (nr : Int) :
    Inv ({ s with pc := wakeUpCommon Pc.pollwake nr s.myWq s.pc }.setWriter w .idle) where
  shared := h.shared
  registered := by
    intro p hp
    simp only [State.setWriter] at hp
    rw [wakeUpCommon_pc h, inPoll_pollwake] at hp
    exact h.registered p hp
  announced := by
    intro p hp
    simp only [State.setWriter] at hp
    rw [wakeUpCommon_pc h, waits_pollwake] at hp
    cases hp
  terminated := h.terminated
  len := by
    intro v len hv
    by_cases hvw : v = w
    · subst hvw
      simp [State.setWriter] at hv
    · simp only [State.setWriter, Function.update_of_ne hvw] at hv
      exact h.len v len hv

theorem inv_step {e : Event P W} {s' : State P W} (h : Inv s) (hs : step nr s e = some s') :
    Inv s' := by
  cases e with
  | pollWait p =>
    simp only [step, Option.ite_none_right_eq_some, Option.some.injEq] at hs
    obtain ⟨-, rfl⟩ := hs
    exact inv_pollWait h p
  | look p =>
    simp only [step] at hs
    split at hs
    · rename_i triggered hpc
      obtain rfl := Option.some.inj hs
      have hin : (s.pc p).inPoll = true := by rw [hpc]; rfl
      split
      · rename_i hmask
        exact h.setPc (fun _ => hin) fun _ => .inr (flag_of_look hmask)
      · exact h.setPc nofun nofun
    · cases hs
  | schedule p =>
    simp only [step] at hs
    split at hs
    · rename_i triggered hpc
      obtain rfl := Option.some.inj hs
      have hin : (s.pc p).inPoll = true := by rw [hpc]; rfl
      cases triggered with
      | true => exact h.setPc (fun _ => hin) nofun
      | false => exact h.setPc (fun _ => hin) fun _ => .inl (by rw [hpc]; rfl)
    · cases hs
  | rise p =>
    simp only [step, Option.ite_none_right_eq_some, Option.some.injEq] at hs
    obtain ⟨hpc, rfl⟩ := hs
    exact h.setPc (fun _ => by rw [hpc]; rfl) nofun
  | interrupt p =>
    simp only [step, Option.ite_none_right_eq_some, Option.some.injEq] at hs
    obtain ⟨-, rfl⟩ := hs
    exact h.setPc nofun nofun
  | freewait p =>
    simp only [step, Option.ite_none_right_eq_some, Option.some.injEq] at hs
    obtain ⟨-, rfl⟩ := hs
    exact inv_freewait h p
  | test p =>
    simp only [step, Option.ite_none_right_eq_some, Option.some.injEq] at hs
    obtain ⟨-, rfl⟩ := hs
    split <;> exact h.setPc nofun nofun
  | measure p =>
    simp only [step, Option.ite_none_right_eq_some, Option.some.injEq] at hs
    obtain ⟨-, rfl⟩ := hs
    exact h.setPc nofun nofun
  | copyOut p =>
    simp only [step] at hs
    split at hs
    · obtain rfl := Option.some.inj hs
      exact h.setPc nofun nofun
    · cases hs
  | clear p =>
    simp only [step] at hs
    split at hs
    · obtain rfl := Option.some.inj hs
      exact (inv_clear h).setPc nofun nofun
    · cases hs
  | copyIn w buf fault =>
    have hle := writeLen_le buf
    have hsize : bufferSize = 100 := rfl
    simp only [step] at hs
    split at hs
    · rename_i hidle
      split at hs <;> obtain rfl := Option.some.inj hs
      · rename_i k
        refine ⟨h.shared, h.registered, h.announced, ?_, h.len⟩
        rw [CharArray.getElem?_copyFault _ (by omega), if_neg (by omega), h.terminated]
        unfold writeLen
        split <;> omega
      · refine h.write (last_store h.terminated ?_) (by rw [hidle]; exact WriterPc.noConfusion) ?_
        · rw [length_take_writeLen]
          omega
        · intro len hlen
          cases hlen
          exact hle
    · cases hs
  | terminate w =>
    simp only [step] at hs
    split at hs
    · rename_i len hpc
      obtain rfl := Option.some.inj hs
      refine h.write ?_ (by rw [hpc]; exact WriterPc.noConfusion) nofun
      have hlen := h.len w len hpc
      have hsize : bufferSize = 100 := rfl
      have hone : [(0 : UInt8)].length = 1 := rfl
      by_cases hlast : len = bufferSize - 1
      · rw [CharArray.getElem?_store _ (by omega), if_pos (by omega), hlast, Nat.sub_self]
        rfl
      · exact last_store h.terminated (by omega)
    · cases hs
  | setFlag w =>
    simp only [step, Option.ite_none_right_eq_some, Option.some.injEq] at hs
    obtain ⟨-, rfl⟩ := hs
    exact inv_setFlag h w
  | wakeUp w =>
    simp only [step, Option.ite_none_right_eq_some, Option.some.injEq] at hs
    obtain ⟨-, rfl⟩ := hs
    exact inv_wakeUp h w nr

/-- **Poll and read.** For any number of processes and writers, any order of the
statements, and whatever number the wake-up is given: where a process is on its
way to sleep or sleeps while there is data, a writer is about to wake it, and its
wake-up leaves nobody behind; and `strlen` stays inside the buffer. -/
theorem no_sleep_on_data (nr : Int) (s : State P W) (hs : (system P W nr).Reachable s) :
    ((∃ p, (s.pc p).waits = true) → s.dev.dataAvailable ≠ 0 →
      ∃ w s', (system P W nr).step s (.wakeUp w) = some s' ∧ ∀ p, (s'.pc p).waits = false) ∧
    s.dev.buffer.str.strlen < bufferSize := by
  have h : Inv s := hs.inv inv_init fun _ _ _ => inv_step
  refine ⟨fun ⟨p, hp⟩ hflag => ?_,
    s.dev.buffer.strlen_lt_iff.mpr (List.mem_of_getElem? h.terminated)⟩
  obtain ⟨w, hw⟩ := h.announced p hp hflag
  refine ⟨w, _, if_pos hw, fun q => ?_⟩
  simp only [State.setWriter]
  rw [wakeUpCommon_pc h, waits_pollwake]

/-- A process sleeps when the message comes. -/
def toldAsleep : List (Event Unit Unit) :=
  [.pollWait (), .look (), .schedule (), .copyIn () [72, 105] none, .terminate (), .setFlag ()]

theorem no_sleep_on_data_toldAsleep :
    ∃ s, (system Unit Unit 1).Reaches toldAsleep s ∧ s.pc () = .asleep ∧
      ∃ w s', (system Unit Unit 1).step s (.wakeUp w) = some s' ∧ ∀ p, (s'.pc p).waits = false := by
  obtain ⟨s, hs, hpc, hflag⟩ : ∃ s, (system Unit Unit 1).Reaches toldAsleep s ∧
      s.pc () = .asleep ∧ s.dev.dataAvailable = 1 := ⟨_, rfl, rfl, rfl⟩
  obtain ⟨hwake, -⟩ := no_sleep_on_data 1 s ⟨_, hs⟩
  exact ⟨s, hs, hpc, hwake ⟨(), by rw [hpc]; rfl⟩ (by rw [hflag]; decide)⟩

end

end KernelSpace.PollSelect.Program
