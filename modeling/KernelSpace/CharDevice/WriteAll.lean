import KernelSpace.CharDevice.Container
import KernelSpace.CoherentDma.Driver

/-!
# CharDevice — writing all of it (5, 20)

The loop of a program that has more to write than the driver takes at once:
`my_write` with the bytes that are left, until none is. The container_of driver
and the coherent DMA driver take what fits in the buffer and store it at its
start, whatever the offset, so each round of the loop overwrites what the round
before has written, and what stays is the last piece (`lastPiece`).
-/

namespace KernelSpace.CharDevice

open KernelSpace.Kernel KernelSpace.Lib

/-- The loop, with at most `rounds` calls: the device when nothing is left to
write, and `none` when that takes more. -/
def writeAll {D : Type*} (ops : FileOps D) : (rounds : Nat) → D → Int → List UInt8 → Option D
  | _, dev, _, [] => some dev
  | 0, _, _, _ :: _ => none
  | rounds + 1, dev, off, b :: rest =>
    let (reply, dev') := ops.write dev (b :: rest) off none
    writeAll ops rounds dev' reply.off ((b :: rest).drop reply.ret.toNat)

/-- The last of the pieces of `cap` bytes that `w` is cut into. -/
def lastPiece (cap : Nat) (w : List UInt8) : List UInt8 := w.drop ((w.length - 1) / cap * cap)

/-- A driver whose devices hold a message in the sense of `R`: a write replaces
it, cut at `cap`, and says how much it took; a read from 0 gives its front. -/
structure KeepsMessage {D : Type*} (ops : FileOps D) (cap : Nat) (R : D → List UInt8 → Prop) :
    Prop where
  pos : 0 < cap
  unique : ∀ {dev msg msg'}, R dev msg → R dev msg' → msg = msg'
  write : ∀ dev buf off, (ops.write dev buf off none).1 = ⟨(buf.take cap).length, [], off⟩ ∧
    R (ops.write dev buf off none).2 (buf.take cap)
  read : ∀ {dev msg}, R dev msg → ∀ len, (ops.read dev len 0 false).bytes = msg.take len

/-! ## The last piece -/

theorem lastPiece_of_le {cap : Nat} {w : List UInt8} (hne : w ≠ []) (h : w.length ≤ cap) :
    lastPiece cap w = w := by
  have hpos := List.length_pos_iff.mpr hne
  rw [lastPiece, Nat.div_eq_of_lt (by omega), Nat.zero_mul, List.drop_zero]

theorem lastPiece_drop {cap : Nat} (hcap : 0 < cap) {w : List UInt8} (h : cap < w.length) :
    lastPiece cap (w.drop cap) = lastPiece cap w := by
  have hdiv : (w.length - 1) / cap = (w.length - cap - 1) / cap + 1 := by
    rw [← Nat.add_div_right _ hcap]
    congr 1
    omega
  rw [lastPiece, lastPiece, List.drop_drop, List.length_drop, hdiv, Nat.succ_mul, Nat.add_comm cap]

/-- The last piece is the first one: there is one piece only, or the last one
is full and the same. -/
theorem lastPiece_eq_iff {cap : Nat} (hcap : 0 < cap) {w : List UInt8} (hne : w ≠ []) :
    lastPiece cap w = w.take cap ↔
      w.length ≤ cap ∨ cap ∣ w.length ∧ w.drop (w.length - cap) = w.take cap := by
  have hpos := List.length_pos_iff.mpr hne
  constructor
  · intro heq
    rcases Nat.lt_or_ge cap w.length with hlong | hshort
    · -- the last piece has the length of the first one
      have hlen := congrArg List.length heq
      rw [lastPiece, List.length_drop, List.length_take_of_le hlong.le] at hlen
      have hmul : w.length = ((w.length - 1) / cap + 1) * cap := by
        rw [Nat.succ_mul]
        omega
      refine .inr ⟨⟨(w.length - 1) / cap + 1, by rw [Nat.mul_comm]; exact hmul⟩, ?_⟩
      have hstart : w.length - cap = (w.length - 1) / cap * cap := by omega
      rw [hstart]
      exact heq
    · exact .inl hshort
  · intro h
    rcases h with hshort | h
    · rw [lastPiece_of_le hne hshort, List.take_of_length_le hshort]
    · obtain ⟨⟨k, hk⟩, hlast⟩ := h
      obtain ⟨k, rfl⟩ : ∃ j, k = j + 1 := Nat.exists_eq_succ_of_ne_zero (by
        rintro rfl
        omega)
      have hlen : w.length = k * cap + cap := by rw [hk, Nat.mul_comm, Nat.succ_mul]
      have hdiv : (w.length - 1) / cap = k := by
        apply Nat.div_eq_of_lt_le
        · omega
        · rw [Nat.succ_mul]
          omega
      have hstart : (w.length - 1) / cap * cap = w.length - cap := by
        rw [hdiv]
        omega
      rw [lastPiece, hstart]
      exact hlast

/-! ## The loop -/

section

variable {D : Type*} {ops : FileOps D} {cap : Nat} {R : D → List UInt8 → Prop}

/-- One round: what fits is written, and the rest is left. -/
theorem writeAll_cons (h : KeepsMessage ops cap R) (rounds : Nat) (dev : D) (off : Int)
    {w : List UInt8} (hne : w ≠ []) : writeAll ops (rounds + 1) dev off w
      = writeAll ops rounds (ops.write dev w off none).2 off (w.drop cap) := by
  cases w with
  | nil => exact absurd rfl hne
  | cons b rest =>
    have hreply := (h.write dev (b :: rest) off).1
    have hdrop : (b :: rest).drop ((b :: rest).take cap).length = (b :: rest).drop cap := by
      rw [List.length_take]
      rcases Nat.le_total cap (b :: rest).length with hle | hge
      · rw [Nat.min_eq_left hle]
      · rw [Nat.min_eq_right hge, List.drop_length, List.drop_eq_nil_of_le hge]
    simp only [writeAll, hreply, Int.toNat_natCast, hdrop]

/-- The loop comes to its end: every round takes at least a byte. -/
theorem writeAll_isSome (h : KeepsMessage ops cap R) {rounds : Nat} {w : List UInt8}
    (hrounds : w.length ≤ rounds) (dev : D) (off : Int) :
    (writeAll ops rounds dev off w).isSome := by
  induction rounds generalizing dev w with
  | zero =>
    have hnil := List.length_eq_zero_iff.mp (Nat.le_zero.mp hrounds)
    subst hnil
    rfl
  | succ rounds ih =>
    by_cases hne : w = []
    · subst hne
      rfl
    · have hpos := List.length_pos_iff.mpr hne
      have hcap := h.pos
      rw [writeAll_cons h rounds dev off hne]
      refine ih ?_ _
      rw [List.length_drop]
      omega

/-- **What the loop leaves**: the last piece, if there was anything to write. -/
theorem writeAll_spec (h : KeepsMessage ops cap R) {rounds : Nat} {dev dev' : D} {off : Int}
    {w : List UInt8} (hw : writeAll ops rounds dev off w = some dev') :
    if w = [] then dev' = dev else R dev' (lastPiece cap w) := by
  induction rounds generalizing dev w with
  | zero =>
    cases w with
    | nil =>
      cases hw
      rfl
    | cons b rest => cases hw
  | succ rounds ih =>
    by_cases hne : w = []
    · subst hne
      cases hw
      rfl
    · rw [if_neg hne]
      rw [writeAll_cons h rounds dev off hne] at hw
      have hrest := ih hw
      rcases Nat.lt_or_ge cap w.length with hlong | hshort
      · have hleft : w.drop cap ≠ [] := List.ne_nil_of_length_pos (by rw [List.length_drop]; omega)
        rw [if_neg hleft, lastPiece_drop h.pos hlong] at hrest
        exact hrest
      · rw [if_pos (List.drop_eq_nil_of_le hshort)] at hrest
        have hkept := (h.write dev w off).2
        rw [List.take_of_length_le hshort] at hkept
        rw [hrest, lastPiece_of_le hne hshort]
        exact hkept

/-- The loop ends, and leaves the device with the last piece of `w`, which a
read from 0 returns; with nothing to write it leaves the device as it was. -/
def LeavesLast (ops : FileOps D) (cap : Nat) (R : D → List UInt8 → Prop) (dev : D) (off : Int)
    (w : List UInt8) : Prop :=
  ∃ rounds dev', writeAll ops rounds dev off w = some dev' ∧
    if w = [] then dev' = dev
    else R dev' (lastPiece cap w) ∧
      ∀ len, (ops.read dev' len 0 false).bytes = (lastPiece cap w).take len

theorem leavesLast (h : KeepsMessage ops cap R) (dev : D) (off : Int) (w : List UInt8) :
    LeavesLast ops cap R dev off w := by
  have hends := writeAll_isSome h (Nat.le_refl w.length) dev off
  obtain ⟨dev', hrun⟩ := Option.isSome_iff_exists.mp hends
  refine ⟨w.length, dev', hrun, ?_⟩
  have hspec := writeAll_spec h hrun
  split
  · rename_i hnil
    rwa [if_pos hnil] at hspec
  · rename_i hne
    rw [if_neg hne] at hspec
    exact ⟨hspec, h.read hspec⟩

/-- The loop ends, and leaves the device with the first `cap` bytes of `w`,
which a read from 0 returns. -/
def WritesFront (ops : FileOps D) (cap : Nat) (R : D → List UInt8 → Prop) (dev : D) (off : Int)
    (w : List UInt8) : Prop :=
  ∃ rounds dev', writeAll ops rounds dev off w = some dev' ∧ R dev' (w.take cap) ∧
    ∀ len, (ops.read dev' len 0 false).bytes = (w.take cap).take len

/-- With nothing to write the device is empty before; otherwise there is one
piece, or the last piece is full and repeats the first one. -/
def FrontStays (cap : Nat) (msg w : List UInt8) : Prop :=
  (w = [] → msg = []) ∧
    (w.length ≤ cap ∨ cap ∣ w.length ∧ w.drop (w.length - cap) = w.take cap)

theorem writesFront_iff (h : KeepsMessage ops cap R) {dev : D} {msg : List UInt8}
    (hdev : R dev msg) (off : Int) (w : List UInt8) :
    WritesFront ops cap R dev off w ↔ FrontStays cap msg w := by
  by_cases hne : w = []
  · subst hne
    rw [WritesFront, List.take_nil]
    constructor
    · intro hfront
      obtain ⟨rounds, dev'', hw, hR, -⟩ := hfront
      have hsame := writeAll_spec h hw
      rw [if_pos rfl] at hsame
      subst hsame
      exact ⟨fun _ => h.unique hdev hR, .inl (Nat.zero_le _)⟩
    · intro hstays
      obtain rfl := hstays.1 rfl
      exact ⟨0, dev, rfl, hdev, h.read hdev⟩
  · have hcond : FrontStays cap msg w ↔ lastPiece cap w = w.take cap := by
      rw [lastPiece_eq_iff h.pos hne, FrontStays]
      exact and_iff_right fun hnil => absurd hnil hne
    rw [hcond]
    constructor
    · intro hfront
      obtain ⟨rounds, dev'', hw, hR, -⟩ := hfront
      have hlast := writeAll_spec h hw
      rw [if_neg hne] at hlast
      exact h.unique hlast hR
    · intro hlast
      obtain ⟨rounds, dev', hrun, hleft⟩ := leavesLast h dev off w
      rw [if_neg hne, hlast] at hleft
      exact ⟨rounds, dev', hrun, hleft⟩

end

/-! ## The drivers -/

theorem Container.keepsMessage :
    KeepsMessage Container.fops Container.bufferSize Container.Holds where
  pos := by decide
  unique := by
    intro dev msg msg' h h'
    obtain ⟨d, -, hsize, rfl⟩ := h
    obtain ⟨d', -, hsize', rfl⟩ := h'
    have hd : d = d' := by omega
    rw [hd]
  write dev buf off := by
    rw [show Container.fops.write dev buf off none = _ from Container.myWrite_eq dev buf off]
    refine ⟨rfl, (buf.take Container.bufferSize).length, List.length_take_le .., rfl, ?_⟩
    exact (CharArray.take_store dev.buffer (List.length_take_le ..)).symm
  read := by
    intro dev msg h len
    exact (Container.readsSlice_of_holds h (Int.le_refl 0) len).bytes

theorem coherentDma_keepsMessage :
    KeepsMessage CoherentDma.fops CoherentDma.bufSize CoherentDma.Holds where
  pos := by decide
  unique := by
    intro dev msg msg' h h'
    rw [h.2, h'.2]
  write dev buf off := by
    refine ⟨?_, CoherentDma.holds_myWrite dev buf off⟩
    rw [show CoherentDma.fops.write dev buf off none = _ from CoherentDma.myWrite_eq dev buf off]
  read := by
    intro dev msg h len
    rw [show CoherentDma.fops.read dev len 0 false = _ from
      h.myRead_eq len (Int.le_refl 0) (by decide)]
    rfl

/-- **Writing all of it**, from any reachable state of the two drivers: the loop
ends, and the device then holds the last piece of `w`. These are the first
bytes of `w`, as many as fit, exactly when they are all of `w`, or the last
piece is full and repeats them; with nothing to write, when the device was
empty. -/
theorem write_all_leaves_last {F : Type*} [DecidableEq F] (off : Int) (w : List UInt8) :
    (∀ (inode : F → Fin Container.minorDevices) cs rs s,
      (Container.driver inode).run (Container.driver inode).init cs = some (rs, s) → ∀ n,
        LeavesLast Container.fops Container.bufferSize Container.Holds (s.devices n) off w ∧
        ∃ msg, Container.Holds (s.devices n) msg ∧
          (WritesFront Container.fops Container.bufferSize Container.Holds (s.devices n) off w ↔
            FrontStays Container.bufferSize msg w)) ∧
    ∀ cs rs s, (CoherentDma.charDevice F).run (CoherentDma.charDevice F).init cs = some (rs, s) →
      LeavesLast CoherentDma.fops CoherentDma.bufSize CoherentDma.Holds (s.devices ()) off w ∧
      ∃ msg, CoherentDma.Holds (s.devices ()) msg ∧
        (WritesFront CoherentDma.fops CoherentDma.bufSize CoherentDma.Holds (s.devices ()) off w ↔
          FrontStays CoherentDma.bufSize msg w) := by
  constructor
  · intro inode cs rs s hrun n
    obtain ⟨msg, hmsg⟩ := Container.exists_holds inode hrun n
    exact ⟨leavesLast Container.keepsMessage _ off w, msg, hmsg,
      writesFront_iff Container.keepsMessage hmsg off w⟩
  · intro cs rs s hrun
    obtain ⟨msg, hmsg⟩ := CoherentDma.exists_holds hrun
    exact ⟨leavesLast coherentDma_keepsMessage _ off w, msg, hmsg,
      writesFront_iff coherentDma_keepsMessage hmsg off w⟩

/-- Two bytes, written to a device that holds three. -/
theorem write_all_leaves_last_short : ∃ rs s,
    (Container.driver fun _ : Bool => Container.minorTwo).run
      (Container.driver fun _ => Container.minorTwo).init Container.session = some (rs, s) ∧
    LeavesLast Container.fops Container.bufferSize Container.Holds (s.devices Container.minorTwo)
      0 [72, 105] ∧
    WritesFront Container.fops Container.bufferSize Container.Holds
      (s.devices Container.minorTwo) 0 [72, 105] := by
  refine ⟨_, _, rfl, ?_⟩
  obtain ⟨hlast, msg, -, hiff⟩ :=
    (write_all_leaves_last (F := Bool) 0 [72, 105]).1 (fun _ => Container.minorTwo)
      Container.session _ _ rfl Container.minorTwo
  exact ⟨hlast, hiff.mpr ⟨nofun, .inl (by decide)⟩⟩

/-- Of 101 bytes the container_of driver is left with the last one. -/
theorem long_write_keeps_tail :
    ¬ ∀ (off : Int) (w : List UInt8), WritesFront Container.fops Container.bufferSize
      Container.Holds Container.fops.fresh off w := by
  intro h
  have hfresh : Container.Holds Container.fops.fresh [] := ⟨0, Nat.zero_le _, rfl, rfl⟩
  have hstays := (writesFront_iff Container.keepsMessage hfresh 0 _).mp
    (h 0 (List.replicate 100 65 ++ [66]))
  revert hstays
  simp [FrontStays, Container.bufferSize]

end KernelSpace.CharDevice
