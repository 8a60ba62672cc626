import KernelSpace.Kernel.CString
import KernelSpace.Kernel.ErrPtr
import KernelSpace.Kernel.Errno
import KernelSpace.Lib.Receipts

/-!
# DmaMem2mem — the transfer of the kernel-only module (21b)

`21b.DMAEngine_Mem2mem/dma_mem2mem.c`: `dma_m2m_init` takes a channel, two
buffers and two mappings, has the engine copy one buffer to the other, and
keeps the channel until `dma_m2m_exit`. What fails on the way goes to one of
three labels that give back what is held there.

The labels are functions, and each has a precondition: what is held where it is
entered (`Holds`). `errFree` takes any buffers, the channel and nothing else;
the other two take a mapping more. A `kfree(NULL)` gives nothing back.

`memcmp` finds a copy that is not correct, and `dma_m2m_init` prints
`MISMATCH`; it returns 0 all the same.
-/

namespace KernelSpace.DmaMem2mem.KernelOnly

open KernelSpace.Kernel KernelSpace.Lib
open Receipt (replay acquired)

/-- `DMA_BUF_SIZE`. -/
def dmaBufSize : Nat := 256

inductive Resource where
  | dmaChan
  | srcBuf
  | dstBuf
  | srcDma
  | dstDma
deriving DecidableEq

/-- `enum dma_status`. -/
inductive DmaStatus where
  | complete
  | inProgress
  | paused
  | error
  | outOfOrder
deriving DecidableEq

/-- How the kernel functions and the engine behave. A `Bool` is `true` where
the call succeeds, `inTime` where the wait ends before its timeout. -/
structure Env where
  requestChan : Ptr
  kmallocSrc : Bool
  kmallocDst : Bool
  mapSrc : Bool
  mapDst : Bool
  prep : Bool
  submit : Bool
  inTime : Bool
  status : DmaStatus
  /-- What is in `dst_buf` when the wait ends. -/
  moved : CharArray dmaBufSize

structure State where
  /-- `dma_chan`, `src_buf` and `dst_buf`, where they are not NULL. -/
  dmaChan : Bool
  srcBuf : Bool
  dstBuf : Bool
  /-- The bytes of the buffers, which outlast them. -/
  src : CharArray dmaBufSize
  dst : CharArray dmaBufSize
  log : List (Receipt Resource)

namespace State

def acquire (s : State) (r : Resource) : State := { s with log := s.log ++ [.acquire r] }

def release (s : State) (r : Resource) : State := { s with log := s.log ++ [.release r] }

/-- The module as loaded, with anything in the memory that it will get. -/
def start (src dst : CharArray dmaBufSize) : State := ⟨false, false, false, src, dst, []⟩

end State

/-- The text that is copied. -/
def message : CString := .lit "STM32MP257F-DK: real streaming DMA mem2mem transfer!"

/-- `src_buf` for the transfer. -/
def source : CharArray dmaBufSize := (CharArray.zero dmaBufSize).strscpy message

/-- `kfree(src_buf); kfree(dst_buf);` and the pointers cleared. -/
def freeBuffers (s : State) : State :=
  let s := if s.srcBuf then s.release .srcBuf else s
  let s := if s.dstBuf then s.release .dstBuf else s
  { s with srcBuf := false, dstBuf := false }

def releaseChannel (s : State) : State :=
  if s.dmaChan then { s.release .dmaChan with dmaChan := false } else s

/-! The labels. -/

def errFree (ret : Int) (s : State) : Int × State := (ret, releaseChannel (freeBuffers s))

def errUnmapSrc (ret : Int) (s : State) : Int × State := errFree ret (s.release .srcDma)

def errUnmapDst (ret : Int) (s : State) : Int × State := errUnmapSrc ret (s.release .dstDma)

/-- `kmalloc` of both buffers. -/
def allocBuffers (env : Env) (s : State) : State :=
  let s := if env.kmallocSrc then { s.acquire .srcBuf with srcBuf := true }
    else { s with srcBuf := false }
  if env.kmallocDst then { s.acquire .dstBuf with dstBuf := true } else { s with dstBuf := false }

/-- From the descriptor to the end of the wait and behind it. -/
def transfer (env : Env) (s : State) : Int × State :=
  if env.prep = false then errUnmapDst (- Kernel.EIO) s
  else if env.submit = false then errUnmapDst (- Kernel.EIO) s
  else
    let s := { s with dst := env.moved }
    if env.inTime = false then errUnmapDst (-ETIMEDOUT) s
    else
      let s := (s.release .dstDma).release .srcDma
      if env.status ≠ .complete then errFree (- Kernel.EIO) s
      else
        -- memcmp(src_buf, dst_buf, DMA_BUF_SIZE) only selects the printed line
        (0, freeBuffers s)

/-- From the mappings on. -/
def mapAndTransfer (env : Env) (s : State) : Int × State :=
  if env.mapSrc = false then errFree (-ENOMEM) s
  else
    let s := s.acquire .srcDma
    if env.mapDst = false then errUnmapSrc (-ENOMEM) s
    else transfer env (s.acquire .dstDma)

def dmaM2mInit (env : Env) (s : State) : Int × State :=
  if isErr env.requestChan then (ptrErr env.requestChan, { s with dmaChan := false })
  else
    let s := allocBuffers env { s.acquire .dmaChan with dmaChan := true }
    if s.srcBuf = false ∨ s.dstBuf = false then errFree (-ENOMEM) s
    else mapAndTransfer env { s with src := source, dst := .zero dmaBufSize }

def dmaM2mExit (s : State) : State := releaseChannel s

/-! ## What is held -/

/-- What the pointers of the module stand for, last taken first. -/
def State.pointers (s : State) : List Resource :=
  (if s.dstBuf then [.dstBuf] else []) ++ (if s.srcBuf then [.srcBuf] else [])
    ++ (if s.dmaChan then [.dmaChan] else [])

/-- `taken` is what was acquired so far; the mappings `mapped` and what the
pointers stand for are held, and nothing else. -/
structure Holds (taken mapped : List Resource) (s : State) : Prop where
  acquired : acquired s.log = taken
  held : replay [] s.log = some (mapped ++ s.pointers)

section

variable {taken mapped : List Resource} {s : State} {r : Resource}

theorem Holds.acquire (h : Holds taken mapped s) (hr : r ∉ mapped ++ s.pointers) :
    Holds (taken ++ [r]) (r :: mapped) (s.acquire r) where
  acquired := by simp [State.acquire, h.acquired]
  held := Receipt.replay_concat_acquire h.held hr

theorem Holds.release (h : Holds taken (r :: mapped) s) : Holds taken mapped (s.release r) where
  acquired := by simp [State.release, h.acquired]
  held := by
    have hlog := Receipt.replay_concat_release h.held List.mem_cons_self
    rwa [List.cons_append, List.erase_cons_head] at hlog

/-- What is in the buffers does not matter. -/
theorem Holds.fill (h : Holds taken mapped s) (src dst : CharArray dmaBufSize) :
    Holds taken mapped { s with src := src, dst := dst } := ⟨h.acquired, h.held⟩

theorem Holds.freeBuffers (h : Holds taken [] s) : Holds taken [] (freeBuffers s) := by
  obtain ⟨hacquired, hheld⟩ := h
  constructor <;> cases hsrc : s.srcBuf <;> cases hdst : s.dstBuf <;>
    simp [KernelOnly.freeBuffers, State.release, State.pointers, hsrc, hdst, hacquired,
      Receipt.replay_append, hheld, replay]

theorem Holds.releaseChannel (h : Holds taken [] s) : Holds taken [] (releaseChannel s) := by
  obtain ⟨hacquired, hheld⟩ := h
  unfold KernelOnly.releaseChannel
  split
  · rename_i hchan
    constructor
    · simp [State.release, hacquired]
    · cases hsrc : s.srcBuf <;> cases hdst : s.dstBuf <;>
        simp [State.release, State.pointers, hsrc, hdst, hchan, Receipt.replay_append, hheld,
          replay]
  · exact ⟨hacquired, hheld⟩

/-- What `kfree` leaves alone. -/
theorem freeBuffers_keeps (s : State) : (freeBuffers s).dmaChan = s.dmaChan ∧
    (freeBuffers s).src = s.src ∧ (freeBuffers s).dst = s.dst := by
  cases hsrc : s.srcBuf <;> cases hdst : s.dstBuf <;>
    simp [KernelOnly.freeBuffers, State.release, hsrc, hdst]

theorem releaseChannel_pointers (hsrc : s.srcBuf = false) (hdst : s.dstBuf = false) :
    (releaseChannel s).pointers = [] := by
  cases hchan : s.dmaChan <;>
    simp [KernelOnly.releaseChannel, State.release, State.pointers, hsrc, hdst, hchan]

/-! ## The labels -/

/-- An error is returned, nothing is held, and nothing was taken twice. -/
structure Left (out : Int × State) : Prop where
  ret : out.1 ≠ 0
  held : replay [] out.2.log = some []
  once : (acquired out.2.log).Nodup

variable {ret : Int}

theorem left_errFree (hret : ret ≠ 0) (hnodup : taken.Nodup) (h : Holds taken [] s) :
    Left (errFree ret s) where
  ret := hret
  held := by
    have hnone : (releaseChannel (freeBuffers s)).pointers = [] := releaseChannel_pointers rfl rfl
    have hheld := h.freeBuffers.releaseChannel.held
    rwa [hnone] at hheld
  once := h.freeBuffers.releaseChannel.acquired ▸ hnodup

theorem left_errUnmapSrc (hret : ret ≠ 0) (hnodup : taken.Nodup) (h : Holds taken [.srcDma] s) :
    Left (errUnmapSrc ret s) := left_errFree hret hnodup h.release

theorem left_errUnmapDst (hret : ret ≠ 0) (hnodup : taken.Nodup)
    (h : Holds taken [.dstDma, .srcDma] s) : Left (errUnmapDst ret s) :=
  left_errUnmapSrc hret hnodup h.release

/-! ## The load -/

/-- Nothing fails from the descriptor on. -/
structure Env.Transfers (env : Env) : Prop where
  prep : env.prep = true
  submit : env.submit = true
  inTime : env.inTime = true
  status : env.status = .complete

/-- Nothing fails. -/
structure Env.Completes (env : Env) : Prop extends Env.Transfers env where
  requestChan : isErr env.requestChan = false
  kmallocSrc : env.kmallocSrc = true
  kmallocDst : env.kmallocDst = true
  mapSrc : env.mapSrc = true
  mapDst : env.mapDst = true

variable {env : Env}

theorem transfer_failed (hfail : ¬ env.Transfers) (hnodup : taken.Nodup)
    (h : Holds taken [.dstDma, .srcDma] s) : Left (transfer env s) := by
  have hmoved : Holds taken [.dstDma, .srcDma] { s with dst := env.moved } := h.fill s.src env.moved
  unfold transfer
  by_cases hprep : env.prep = false
  · rw [if_pos hprep]
    exact left_errUnmapDst (by decide) hnodup h
  rw [if_neg hprep]
  by_cases hsubmit : env.submit = false
  · rw [if_pos hsubmit]
    exact left_errUnmapDst (by decide) hnodup h
  rw [if_neg hsubmit]
  dsimp only
  by_cases hinTime : env.inTime = false
  · rw [if_pos hinTime]
    exact left_errUnmapDst (by decide) hnodup hmoved
  rw [if_neg hinTime]
  have hstatus : env.status ≠ .complete := fun hstatus =>
    hfail ⟨by simpa using hprep, by simpa using hsubmit, by simpa using hinTime, hstatus⟩
  rw [if_pos hstatus]
  exact left_errFree (by decide) hnodup hmoved.release.release

theorem transfer_eq (h : env.Transfers) (s : State) : transfer env s
    = (0, freeBuffers (({ s with dst := env.moved }.release .dstDma).release .srcDma)) := by
  simp [transfer, h.prep, h.submit, h.inTime, h.status]

/-- No pointer stands for a mapping. -/
theorem mapping_notMem_pointers (s : State) :
    Resource.srcDma ∉ s.pointers ∧ Resource.dstDma ∉ s.pointers := by
  unfold State.pointers
  cases s.srcBuf <;> cases s.dstBuf <;> cases s.dmaChan <;> decide

/-- Both mappings are there. -/
theorem Holds.mappings (h : Holds taken [] s) :
    Holds (taken ++ [.srcDma] ++ [.dstDma]) [.dstDma, .srcDma]
      ((s.acquire .srcDma).acquire .dstDma) := by
  have hsrc := h.acquire (mapping_notMem_pointers s).1
  refine hsrc.acquire ?_
  rw [List.singleton_append, List.mem_cons, not_or]
  exact ⟨by decide, (mapping_notMem_pointers s).2⟩

theorem mapAndTransfer_failed (hfail : ¬ (env.mapSrc = true ∧ env.mapDst = true ∧ env.Transfers))
    (hnodup : (taken ++ [.srcDma] ++ [.dstDma] : List Resource).Nodup) (h : Holds taken [] s) :
    Left (mapAndTransfer env s) := by
  have hnodup_src : (taken ++ [Resource.srcDma]).Nodup := (List.nodup_append.mp hnodup).1
  unfold mapAndTransfer
  by_cases hmapSrc : env.mapSrc = false
  · rw [if_pos hmapSrc]
    exact left_errFree (by decide) (List.nodup_append.mp hnodup_src).1 h
  rw [if_neg hmapSrc]
  dsimp only
  by_cases hmapDst : env.mapDst = false
  · rw [if_pos hmapDst]
    exact left_errUnmapSrc (by decide) hnodup_src (h.acquire (mapping_notMem_pointers s).1)
  rw [if_neg hmapDst]
  have htransfer : ¬ env.Transfers := fun htransfer =>
    hfail ⟨by simpa using hmapSrc, by simpa using hmapDst, htransfer⟩
  exact transfer_failed htransfer hnodup h.mappings

end

section

variable (env : Env) (src dst : CharArray dmaBufSize)

/-- The channel and what `kmalloc` gave. -/
def takenFirst : List Resource :=
  .dmaChan :: ((if env.kmallocSrc then [.srcBuf] else [])
    ++ if env.kmallocDst then [.dstBuf] else [])

/-- The state with the channel and the buffers. -/
def allocated : State :=
  allocBuffers env { (State.start src dst).acquire .dmaChan with dmaChan := true }

theorem allocated_holds : Holds (takenFirst env) [] (allocated env src dst) := by
  cases hsrc : env.kmallocSrc <;> cases hdst : env.kmallocDst <;> constructor <;>
    simp [allocated, allocBuffers, takenFirst, State.start, State.acquire, State.pointers, hsrc,
      hdst, replay]

theorem takenFirst_nodup : (takenFirst env ++ [.srcDma] ++ [.dstDma] : List Resource).Nodup := by
  unfold takenFirst
  cases env.kmallocSrc <;> cases env.kmallocDst <;> decide

theorem allocated_pointers : (allocated env src dst).srcBuf = env.kmallocSrc ∧
    (allocated env src dst).dstBuf = env.kmallocDst ∧ (allocated env src dst).dmaChan = true := by
  cases hsrc : env.kmallocSrc <;> cases hdst : env.kmallocDst <;>
    simp [allocated, allocBuffers, State.acquire, hsrc, hdst]

/-- **A load in which something fails** returns an error and gives everything
back. -/
theorem dmaM2mInit_failed (hfail : ¬ env.Completes) :
    Left (dmaM2mInit env (.start src dst)) := by
  have hnodup := takenFirst_nodup env
  have halloc := allocated_holds env src dst
  obtain ⟨hsrc, hdst, -⟩ := allocated_pointers env src dst
  unfold dmaM2mInit
  by_cases hchan : isErr env.requestChan = true
  · obtain ⟨e, he, heq⟩ := eq_errPtr_of_isErr hchan
    have hret : ptrErr env.requestChan = e := by
      rw [heq]
      exact ptrErr_errPtr he
    rw [if_pos hchan, hret]
    exact ⟨Int.ne_of_lt he.2, rfl, List.nodup_nil⟩
  rw [if_neg hchan]
  change Left (if (allocated env src dst).srcBuf = false ∨ (allocated env src dst).dstBuf = false
    then errFree (-ENOMEM) (allocated env src dst)
    else mapAndTransfer env
      { allocated env src dst with src := source, dst := .zero dmaBufSize })
  rw [hsrc, hdst]
  by_cases hbufs : env.kmallocSrc = false ∨ env.kmallocDst = false
  · rw [if_pos hbufs]
    exact left_errFree (by decide) (List.nodup_append.mp (List.nodup_append.mp hnodup).1).1 halloc
  rw [if_neg hbufs]
  refine mapAndTransfer_failed ?_ hnodup (halloc.fill source (.zero dmaBufSize))
  rintro ⟨hmapSrc, hmapDst, htransfers⟩
  obtain ⟨hkmallocSrc, hkmallocDst⟩ := not_or.mp hbufs
  exact hfail ⟨htransfers, by simpa using hchan, by simpa using hkmallocSrc,
    by simpa using hkmallocDst, hmapSrc, hmapDst⟩

/-- The transfer that completes, statement by statement. -/
theorem mapAndTransfer_eq {env : Env} (h : env.Completes) (s : State) : mapAndTransfer env s
    = (0, freeBuffers (({ (s.acquire .srcDma).acquire .dstDma with
        dst := env.moved }.release .dstDma).release .srcDma)) := by
  simp [mapAndTransfer, h.mapSrc, h.mapDst, transfer_eq h.toTransfers]

/-- **A load that completes** leaves the channel, and in the buffers the source
and what the engine made of the destination. -/
theorem dmaM2mInit_completes {env : Env} (h : env.Completes) :
    ∃ s, dmaM2mInit env (.start src dst) = (0, s) ∧ Holds (takenFirst env ++ [.srcDma] ++ [.dstDma])
      [] s ∧ s.srcBuf = false ∧ s.dstBuf = false ∧ s.dmaChan = true ∧ s.src = source ∧
      s.dst = env.moved := by
  have halloc := allocated_holds env src dst
  obtain ⟨hsrc, hdst, hchan⟩ := allocated_pointers env src dst
  let filled : State := { allocated env src dst with src := source, dst := .zero dmaBufSize }
  have hfilled : Holds (takenFirst env) [] filled := halloc.fill source (.zero dmaBufSize)
  have hinit : dmaM2mInit env (.start src dst) = mapAndTransfer env filled := by
    have hbufs : ¬ ((allocated env src dst).srcBuf = false ∨
        (allocated env src dst).dstBuf = false) := by
      simp [hsrc, hdst, h.kmallocSrc, h.kmallocDst]
    unfold dmaM2mInit
    rw [h.requestChan, if_neg Bool.false_ne_true]
    exact if_neg hbufs
  have hmoved : Holds (takenFirst env ++ [.srcDma] ++ [.dstDma]) [.dstDma, .srcDma]
      { (filled.acquire .srcDma).acquire .dstDma with dst := env.moved } :=
    hfilled.mappings.fill filled.src env.moved
  have hunmapped := hmoved.release.release
  obtain ⟨hkeepChan, hkeepSrc, hkeepDst⟩ := freeBuffers_keeps
    (({ (filled.acquire .srcDma).acquire .dstDma with
      dst := env.moved }.release .dstDma).release .srcDma)
  exact ⟨_, hinit.trans (mapAndTransfer_eq h filled), hunmapped.freeBuffers, rfl, rfl,
    hkeepChan.trans hchan, hkeepSrc, hkeepDst⟩

/-- What a load should leave: behind 0 a copy that is correct and the channel,
which the exit gives back; behind an error nothing. -/
structure Sound (out : Int × State) : Prop where
  verified : out.1 = 0 → out.2.dst = out.2.src
  released : out.1 ≠ 0 → replay [] out.2.log = some [] ∧
    ∀ r, .acquire r ∈ out.2.log → out.2.log.count (.release r) = 1
  channel : out.1 = 0 → replay [] out.2.log = some [.dmaChan]
  exit : out.1 = 0 → replay [] (dmaM2mExit out.2).log = some [] ∧
    (dmaM2mExit out.2).log.count (.release .dmaChan) = 1

theorem Left.sound {out : Int × State} (h : Left out) : Sound out where
  verified hret := absurd hret h.ret
  released _ := ⟨h.held, fun _ hr =>
    Receipt.count_release_eq_one h.held h.once List.not_mem_nil hr⟩
  channel hret := absurd hret h.ret
  exit hret := absurd hret h.ret

/-- **The load is sound**, whatever the kernel and the engine do, exactly when
the engine does not report a copy as complete that differs from the source. -/
theorem sound_iff : Sound (dmaM2mInit env (.start src dst)) ↔
    (env.Completes → env.moved = source) := by
  by_cases hcompletes : env.Completes
  · obtain ⟨s, hinit, hholds, hsrcBuf, hdstBuf, hchan, hsrc, hdst⟩ :=
      dmaM2mInit_completes src dst hcompletes
    rw [hinit]
    refine ⟨fun h _ => hdst.symm.trans ((h.verified rfl).trans hsrc), fun h => ?_⟩
    have hpointers : s.pointers = [.dmaChan] := by
      simp [State.pointers, hsrcBuf, hdstBuf, hchan]
    have hexit := hholds.releaseChannel
    have hnone : (releaseChannel s).pointers = [] := releaseChannel_pointers hsrcBuf hdstBuf
    have hheld : replay [] (releaseChannel s).log = some [] := by
      have hheld := hexit.held
      rwa [hnone] at hheld
    have hacquired : .acquire .dmaChan ∈ (releaseChannel s).log := by
      rw [← Receipt.mem_acquired, hexit.acquired]
      simp [takenFirst]
    constructor
    · exact fun _ => hdst.trans ((h hcompletes).trans hsrc.symm)
    · exact fun hret => absurd rfl hret
    · intro _
      have hheld := hholds.held
      rwa [hpointers] at hheld
    · exact fun _ => ⟨hheld, Receipt.count_release_eq_one hheld
        (hexit.acquired ▸ takenFirst_nodup env) List.not_mem_nil hacquired⟩
  · exact iff_of_true (dmaM2mInit_failed env src dst hcompletes).sound
      fun h => absurd h hcompletes

end

/-- Nothing fails, but the destination stays as it was. -/
def nothingMoved : Env where
  requestChan := 0x1000
  kmallocSrc := true
  kmallocDst := true
  mapSrc := true
  mapDst := true
  prep := true
  submit := true
  inTime := true
  status := .complete
  moved := .zero dmaBufSize

/-- The mismatch is printed and the load succeeds. -/
theorem mismatch_reported_success :
    ¬ ∀ env src dst, Sound (dmaM2mInit env (.start src dst)) := by
  intro h
  have hsound := h nothingMoved (.zero dmaBufSize) (.zero dmaBufSize)
  have hcompletes : nothingMoved.Completes :=
    ⟨⟨rfl, rfl, rfl, rfl⟩, by decide, rfl, rfl, rfl, rfl⟩
  obtain ⟨s, hinit, -, -, -, -, hsrc, hdst⟩ :=
    dmaM2mInit_completes (.zero dmaBufSize) (.zero dmaBufSize) hcompletes
  rw [hinit] at hsound
  have hequal : (CharArray.zero dmaBufSize) = source :=
    hdst.symm.trans ((hsound.verified rfl).trans hsrc)
  have hfirst := congrArg (fun a => a.bytes[0]?) hequal
  revert hfirst
  decide +kernel

end KernelSpace.DmaMem2mem.KernelOnly
