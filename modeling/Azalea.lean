import Azalea.Image.Disk
import Azalea.Memory.Pool
import Azalea.Shm.Containment
import Azalea.Shm.Ownership
import Azalea.Shm.Atomic
import Azalea.Shm.Lifetime
import Azalea.Foundation.Word
import Azalea.Paging.Table
import Azalea.Paging.Boot
import Azalea.Paging.Map
import Azalea.Paging.Tree
import Azalea.Paging.Fill
import Azalea.Foundation.Run
import Azalea.Paging.Demand
import Azalea.Paging.Lookup
import Azalea.Paging.LowHalf
import Azalea.Paging.Frames
import Azalea.Paging.Sideload
import Azalea.Memory.Pages
import Azalea.Offload.Packet
import Azalea.Offload.Transfer
import Azalea.Foundation.Exchange
import Azalea.Foundation.Fifo
import Azalea.Offload.Channel
import Azalea.Offload.Protocol
import Azalea.Offload.Handover
import Azalea.Foundation.Shelf
import Azalea.Sched.Schedule
import Azalea.Sched.Lookup
import Azalea.Sched.Moves
import Azalea.Sched.Trace
import Azalea.Sched.Calls
import Azalea.Sched.Runs
import Azalea.Sched.Select
import Azalea.Sched.Agreement
import Azalea.Sched.States
import Azalea.Sched.Drift
import Azalea.Sched.Population
import Azalea.Sched.History
import Azalea.Sched.Affinity
import Azalea.Sched.Lifecycle
import Azalea.Foundation.Ring
import Azalea.Foundation.Trie
import Azalea.Semaphore.Sem
import Azalea.Semaphore.Create
import Azalea.Semaphore.Protocol
import Azalea.Semaphore.Wakeup
import Azalea.Semaphore.Accounting
import Azalea.Memory.Canonical
import Azalea.Foundation.Ticket
import Azalea.Sync.Mutex
import Azalea.Sync.Spinlock
import Azalea.Smp.ApicId
import Azalea.Memory.Limits
import Azalea.Memory.Metadata
import Azalea.Memory.Complete
import Azalea.Memory.Grant
import Azalea.Memory.Break
import Azalea.Offload.Layout
import Azalea.Offload.Locks
import Azalea.Offload.Queue
import Azalea.Offload.Ownership
import Azalea.Sched.Signal
import Azalea.Offload.Console
import Azalea.Offload.ConsoleProxy
import Azalea.Offload.Wire
import Azalea.Offload.Iovec
import Azalea.Foundation.Bytes
import Azalea.Image.Elf
import Azalea.Utility.Format
import Azalea.Utility.Log
import Azalea.Sched.Create
import Azalea.Paging.Fault
import Azalea.Shm.Contract
import Azalea.Foundation.Links
import Azalea.Sched.DlList
import Azalea.Utility.Memcmp
import Azalea.Utility.Itoa
import Azalea.Utility.ShellStorage
import Azalea.Foundation.Crowd
import Azalea.Foundation.Chain
import Azalea.Offload.ThreadPool
import Azalea.Offload.PoolJobs
import Azalea.Offload.PoolThreads
import Azalea.Offload.PoolWakeup
import Azalea.Offload.ProxyPool
import Azalea.Cpu.Context
import Azalea.Cpu.Descriptor
import Azalea.Cpu.Interrupt
import Azalea.Cpu.SystemCall
