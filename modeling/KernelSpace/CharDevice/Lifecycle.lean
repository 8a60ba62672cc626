import KernelSpace.Kernel.Errno
import KernelSpace.Lib.Lifecycle

/-!
# CharDevice — init and exit of the drivers

The character drivers whose init function tests what it is told: those of
`3.chardev_register`, `char_cdev-1.c` and `char_cdev-2.c` of
`4.char_cdev_copyfromuser`, 6, 10, 21a, 22 and 23. Each init function is here as it is
written: its calls with their tests, what a failing test gives back or the label that
it goes to, and the labels; and so is each exit function. 6 and 10 do not look at what
`device_create` says. `kfree` of `NULL` and `device_destroy` of a device that is not
there do nothing (`silent`).

A user is an open file or a mapping of it: `fops.owner` keeps the module from being
unloaded while there is one. A file can be opened from `cdev_add` on, which is
before the init function ends, and an init function that fails does not look for
open files.
-/

namespace KernelSpace.CharDevice.Lifecycle

open KernelSpace.Kernel KernelSpace.Lib KernelSpace.Lib.Lifecycle

inductive Resource where
  /-- `dma_request_chan_by_mask` -/
  | channel
  /-- `kmalloc` of `src_buf` and of `dst_buf` -/
  | srcBuf
  | dstBuf
  /-- `get_zeroed_page` -/
  | page
  /-- `register_chrdev` -/
  | chrdev
  /-- `alloc_chrdev_region` -/
  | region
  /-- `cdev_add` -/
  | cdev
  /-- `class_create` -/
  | myClass
  /-- `device_create` -/
  | device
deriving DecidableEq

def silent : Resource → Bool
  | .srcBuf | .dstBuf | .device => true
  | _ => false

/-! ## Calls and tests -/

/-- `if (ret) return ret;`, with what is given back before the `return`. -/
def orReturn (r : Resource) (error : Option Int) (releases : List Resource) : Stage Resource :=
  ⟨[r], some ⟨error, releases, none⟩⟩

/-- `if (ret) goto label;`. -/
def orGoto (r : Resource) (error : Option Int) (label : String) : Stage Resource :=
  ⟨[r], some ⟨error, [], some label⟩⟩

/-- A call whose answer is not looked at. -/
def unchecked (r : Resource) : Stage Resource := ⟨[r], none⟩

/-! ## The drivers -/

/-- `char_init` of 3. -/
def charInit : Init Resource where
  stages := [orReturn .chrdev none []]
  labels := []

def charExit : List Resource := [.chrdev]

/-- `my_init` of `char_cdev-1.c`. -/
def cdev1Init : Init Resource where
  stages := [orReturn .region none [], orReturn .cdev none [.region]]
  labels := []

def cdev1Exit : List Resource := [.cdev, .region]

/-- `my_init` of `char_cdev-2.c`. -/
def cdev2Init : Init Resource where
  stages := [orReturn .region (some (-1)) [], orGoto .cdev (some (-1)) "unregister",
    orGoto .myClass (some (-1)) "del_cdev", orGoto .device (some (-1)) "destroy_class"]
  labels := [("destroy_class", [.myClass]), ("del_cdev", [.cdev]), ("unregister", [.region])]

def cdev2Exit : List Resource := [.device, .myClass, .cdev, .region]

/-- `my_init` of 6. -/
def ioctlInit : Init Resource where
  stages := [orReturn .region none [], orGoto .cdev none "err_cdev",
    orGoto .myClass none "err_class", unchecked .device]
  labels := [("err_class", [.cdev]), ("err_cdev", [.region])]

def ioctlExit : List Resource := [.device, .myClass, .cdev, .region]

/-- `my_init` of 10, whose labels say what they begin with. -/
def blockingReadInit : Init Resource where
  stages := [orReturn .region none [], orGoto .cdev none "err_chrdev",
    orGoto .myClass none "err_cdev", unchecked .device]
  labels := [("err_cdev", [.cdev]), ("err_chrdev", [.region])]

def blockingReadExit : List Resource := [.device, .myClass, .cdev, .region]

/-- `dma_m2m_init` of 21a: the two buffers are tested together. -/
def dmaM2mInit : Init Resource where
  stages := [orReturn .channel none [],
    ⟨[.srcBuf, .dstBuf], some ⟨some (-ENOMEM), [], some "err_bufs"⟩⟩,
    orGoto .region none "err_bufs", orGoto .cdev none "err_chrdev",
    orGoto .myClass none "err_cdev", orGoto .device none "err_class"]
  labels := [("err_class", [.myClass]), ("err_cdev", [.cdev]), ("err_chrdev", [.region]),
    ("err_bufs", [.srcBuf, .dstBuf, .channel])]

def dmaM2mExit : List Resource :=
  [.device, .myClass, .cdev, .region, .srcBuf, .dstBuf, .channel]

/-- `my_init` of 22. -/
def mmapInit : Init Resource where
  stages := [orReturn .page (some (-ENOMEM)) [], orGoto .region none "err_page",
    orGoto .cdev none "err_chrdev", orGoto .myClass none "err_cdev",
    orGoto .device none "err_class"]
  labels := [("err_class", [.myClass]), ("err_cdev", [.cdev]), ("err_chrdev", [.region]),
    ("err_page", [.page])]

def mmapExit : List Resource := [.device, .myClass, .cdev, .region, .page]

/-- `list_init` of 23. -/
def listInit : Init Resource where
  stages := [orReturn .region none [], orGoto .cdev none "err_chrdev",
    orGoto .myClass none "err_cdev", orGoto .device none "err_class"]
  labels := [("err_class", [.myClass]), ("err_cdev", [.cdev]), ("err_chrdev", [.region])]

/-- The end of `list_exit`, behind its loop. -/
def listExit : List Resource := [.device, .myClass, .cdev, .region]

/-! ## The labels are for what is there -/

def chardev : Setup Resource :=
  ⟨charInit, charExit, .chrdev, silent, by decide, by decide, by decide, by decide, by decide⟩

def cdev1 : Setup Resource :=
  ⟨cdev1Init, cdev1Exit, .cdev, silent, by decide, by decide, by decide, by decide, by decide⟩

def cdev2 : Setup Resource :=
  ⟨cdev2Init, cdev2Exit, .cdev, silent, by decide, by decide, by decide, by decide, by decide⟩

def ioctl : Setup Resource :=
  ⟨ioctlInit, ioctlExit, .cdev, silent, by decide, by decide, by decide, by decide, by decide⟩

def blockingRead : Setup Resource :=
  ⟨blockingReadInit, blockingReadExit, .cdev, silent,
    by decide, by decide, by decide, by decide, by decide⟩

def dmaMem2mem : Setup Resource :=
  ⟨dmaM2mInit, dmaM2mExit, .cdev, silent, by decide, by decide, by decide, by decide, by decide⟩

def mmapDemo : Setup Resource :=
  ⟨mmapInit, mmapExit, .cdev, silent, by decide, by decide, by decide, by decide, by decide⟩

def linkedList : Setup Resource :=
  ⟨listInit, listExit, .cdev, silent, by decide, by decide, by decide, by decide, by decide⟩

inductive Driver where
  | chardev
  | cdev1
  | cdev2
  | ioctl
  | blockingRead
  | dmaMem2mem
  | mmapDemo
  | linkedList

def Driver.setup : Driver → Setup Resource
  | chardev => Lifecycle.chardev
  | cdev1 => Lifecycle.cdev1
  | cdev2 => Lifecycle.cdev2
  | ioctl => Lifecycle.ioctl
  | blockingRead => Lifecycle.blockingRead
  | dmaMem2mem => Lifecycle.dmaMem2mem
  | mmapDemo => Lifecycle.mmapDemo
  | linkedList => Lifecycle.linkedList

/-- **Init and exit.** For each of the drivers, whichever calls fail, over any
number of loads and unloads: nothing is taken twice or given back without being
there, and an absent module holds nothing; a device, class, cdev or region is
never there without what it was built on; and where files are opened only when
the init function is over, an open file or a mapping finds everything that the
init function tested for. -/
theorem drivers_lifecycle (driver : Driver) (es : List Lifecycle.Event)
    (s : Lifecycle.State Resource) (hs : (machine driver.setup).Reaches es s) :
    (∃ held, Receipt.replay [] s.log = some held ∧ held.Perm s.taken) ∧
    (s.phase = .absent → Receipt.replay [] s.log = some []) ∧
    Layered driver.setup.init.stages s.taken ∧
    ((machine driver.setup).Along Polite (machine driver.setup).init es → 0 < s.users →
      s.phase = .running ∧ ∀ stage ∈ driver.setup.init.stages, stage.tested = true →
        ∀ r ∈ stage.takes, r ∈ s.taken) := by
  have hreach : (machine driver.setup).Reachable s := ⟨es, hs⟩
  have hinv := inv_of_reachable hreach
  refine ⟨hinv.ledger, replay_of_absent hreach, hinv.stands.layered driver.setup.nodup, ?_⟩
  intro hpolite husers
  obtain ⟨hphase, hholds⟩ := in_use hs hpolite husers
  exact ⟨hphase, fun stage hstage htested r hr =>
    List.mem_append_right _ (hholds.tested stage hstage htested r hr)⟩

/-- The second buffer of 21a is refused. -/
def noDstBuf : List Lifecycle.Event :=
  [.start, .take 0, .test, .take 0, .take (-ENOMEM), .test, .giveBack, .giveBack, .giveBack,
    .finish]

theorem drivers_lifecycle_noDstBuf :
    ∃ s, (machine dmaMem2mem).Reaches noDstBuf s ∧ s.ret = -ENOMEM ∧
      s.log = [.acquire .channel, .acquire .srcBuf, .release .srcBuf, .release .channel] ∧
      Receipt.replay [] s.log = some [] := by
  obtain ⟨s, hs, hphase, hret, hlog⟩ : ∃ s, (machine dmaMem2mem).Reaches noDstBuf s ∧
      s.phase = .absent ∧ s.ret = -ENOMEM ∧
      s.log = [.acquire .channel, .acquire .srcBuf, .release .srcBuf, .release .channel] :=
    ⟨_, rfl, rfl, rfl, rfl⟩
  obtain ⟨-, habsent, -⟩ := drivers_lifecycle .dmaMem2mem noDstBuf s hs
  exact ⟨s, hs, hret, hlog, habsent hphase⟩

/-- A process maps the page of 22 between `cdev_add` and the failing `class_create`:
its mapping outlives the page. -/
example : ∃ s, (machine mmapDemo).Reaches
    [.start, .take 0, .test, .take 0, .test, .take 0, .enter, .share, .test, .take (-ENOMEM),
      .test, .giveBack, .giveBack, .giveBack, .finish] s ∧ 0 < s.users ∧ s.taken = [] :=
  ⟨_, rfl, by decide, rfl⟩

end KernelSpace.CharDevice.Lifecycle
