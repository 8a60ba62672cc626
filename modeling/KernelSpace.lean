import KernelSpace.Lib.Machine
import KernelSpace.Lib.Linearizability
import KernelSpace.Lib.Service
import KernelSpace.Lib.Registry
import KernelSpace.Lib.Ring
import KernelSpace.Lib.Ledger
import KernelSpace.Lib.Receipts
import KernelSpace.Lib.Shutdown
import KernelSpace.Lib.Lifecycle
import KernelSpace.Lib.DoublyLinked
import KernelSpace.Lib.Holdings
import KernelSpace.Lib.Pending
import KernelSpace.Lib.Provider
import KernelSpace.Lib.Paging
import KernelSpace.Lib.Effects
import KernelSpace.Lib.Shadow
import KernelSpace.Kernel.Errno
import KernelSpace.Kernel.ErrPtr
import KernelSpace.Kernel.CTypes
import KernelSpace.Kernel.CString
import KernelSpace.Kernel.Printf
import KernelSpace.Kernel.Scanf
import KernelSpace.Kernel.WaitQueue
import KernelSpace.Kernel.Waiters
import KernelSpace.Kernel.Vfs
import KernelSpace.Kernel.Workqueue
import KernelSpace.Kernel.Timer
import KernelSpace.Kernel.Kthread
import KernelSpace.Kernel.Notifier
import KernelSpace.Kernel.Regmap
import KernelSpace.Kernel.Poll
import KernelSpace.Callbacks.Multiple
import KernelSpace.Callbacks.Removal
import KernelSpace.Callbacks.Single
import KernelSpace.Callbacks.Unlocked
import KernelSpace.Callbacks.NotifierChain
import KernelSpace.CharDevice.Message
import KernelSpace.CharDevice.Container
import KernelSpace.CharDevice.Register
import KernelSpace.CharDevice.Cdev
import KernelSpace.CharDevice.Minors
import KernelSpace.CharDevice.WriteAll
import KernelSpace.CharDevice.Faults
import KernelSpace.CharDevice.Lifecycle
import KernelSpace.Ioctl.Driver
import KernelSpace.WaitingQueue.Driver
import KernelSpace.WaitingQueue.Loss
import KernelSpace.WaitingQueue.Readers
import KernelSpace.WaitingQueue.Calls
import KernelSpace.WaitingQueue.Faults
import KernelSpace.BlockingRead.Driver
import KernelSpace.BlockingRead.Interrupted
import KernelSpace.PollSelect.Driver
import KernelSpace.PollSelect.WakeNr
import KernelSpace.PollSelect.Program
import KernelSpace.KernelThread.Lifecycle
import KernelSpace.Workqueue.Loops
import KernelSpace.KernelTimer.Periodic
import KernelSpace.GpioIrq.Driver
import KernelSpace.GpioIrq.Numbers
import KernelSpace.KthreadIrq.Events
import KernelSpace.KthreadIrq.Unbind
import KernelSpace.ThreadedIrq.Driver
import KernelSpace.WorkqueueIrq.Unbind
import KernelSpace.CoherentDma.Unbind
import KernelSpace.CoherentDma.Driver
import KernelSpace.StreamingDma.Transfer
import KernelSpace.DmaMem2mem.Driver
import KernelSpace.DmaMem2mem.Exclusive
import KernelSpace.DmaMem2mem.Ownership
import KernelSpace.DmaMem2mem.Careful
import KernelSpace.DmaMem2mem.Sequential
import KernelSpace.DmaMem2mem.KernelOnly
import KernelSpace.DmaMem2mem.Program
import KernelSpace.LinkedList.Driver
import KernelSpace.LinkedList.History
import KernelSpace.LinkedList.Program
import KernelSpace.LinkedList.Lifetime
import KernelSpace.Netlink.Broadcast
import KernelSpace.Netlink.Raw
import KernelSpace.Netlink.Clients
import KernelSpace.Netlink.Termination
import KernelSpace.Netlink.Delivery
import KernelSpace.Netlink.Race
import KernelSpace.Netlink.Identity
import KernelSpace.Netlink.Conversation
import KernelSpace.Netlink.Multicast
import KernelSpace.PlatformDriver.Debounce
import KernelSpace.PlatformDriver.Wraparound
import KernelSpace.Mmap.Driver
import KernelSpace.Sysfs.Attributes
import KernelSpace.Sysfs.Numeral
import KernelSpace.Regmap.Probe
import KernelSpace.Regmap.Bulk
import KernelSpace.Regmap.Interrupt
import KernelSpace.Regmap.Regcache
import KernelSpace.RingBuffer.Basic
import KernelSpace.RingBuffer.Shared
import KernelSpace.InterModule.Loads
import KernelSpace.RingBuffer.Threadsafe
import KernelSpace.RingBuffer.Counting
import KernelSpace.RingBuffer.SingleConsumer
import KernelSpace.RingBuffer.ModuleB
import KernelSpace.LinkedList.Pointers
