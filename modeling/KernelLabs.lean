import KernelLabs.Lib.AcquireLadder
import KernelLabs.Lib.BoundedText
import KernelLabs.Lib.CountedLoop
import KernelLabs.Lib.GuardedData
import KernelLabs.Lib.Linearization
import KernelLabs.Lib.Lines
import KernelLabs.Lib.LiveText
import KernelLabs.Lib.LockWord
import KernelLabs.Lib.Machine
import KernelLabs.Lib.Moments
import KernelLabs.Lib.Observer
import KernelLabs.Lib.OverwritingFifo
import KernelLabs.Lib.OwnedHeap
import KernelLabs.Lib.Pool
import KernelLabs.Lib.RateEnvelope
import KernelLabs.Lib.ReadModifyWrite
import KernelLabs.Lib.SeekableFile
import KernelLabs.Lib.StoreSections
import KernelLabs.Lib.Tally
import KernelLabs.Lib.Transducer
import KernelLabs.Kernel.Basic
import KernelLabs.Kernel.Decimal
import KernelLabs.Kernel.Kstrtox
import KernelLabs.Kernel.Text
import KernelLabs.Kernel.UserCopy
import KernelLabs.GpioCtrl.State
import KernelLabs.GpioCtrl.Driver
import KernelLabs.GpioCtrl.Unload
import KernelLabs.GpioCtrl.Led
import KernelLabs.GpioCtrl.PollRange
import KernelLabs.GpioCtrl.Deadline
import KernelLabs.GpioCtrl.Interfaces
import KernelLabs.GpioCtrl.Status
import KernelLabs.GpioCtrl.Sections
import KernelLabs.GpioCtrl.Button
import KernelLabs.GpioCtrl.Commands
import KernelLabs.GpioCtrl.Invert
import KernelLabs.GpioCtrl.Counters
import KernelLabs.GpioCtrl.FailedInit
import KernelLabs.GpioCtrl.SavedSettings
import KernelLabs.ModuleParams.Device
import KernelLabs.ModuleParams.Read
import KernelLabs.ModuleParams.Primes
import KernelLabs.RegisterCdev
import KernelLabs.ProcfsSeqfile.EventLog
import KernelLabs.ProcfsSeqfile.Listing
import KernelLabs.ProcfsSeqfile.Decoding
import KernelLabs.OpenRelease.Device
import KernelLabs.OpenRelease.Lifecycle
import KernelLabs.OpenRelease.Accounts
import KernelLabs.ReadWriteCdev.Device
import KernelLabs.ReadWriteCdev.Refinement
import KernelLabs.ReadWriteCdev.Faults
import KernelLabs.IoctlBasics.Transform
import KernelLabs.IoctlBasics.Ioctl
import KernelLabs.IoctlBasics.History
import KernelLabs.RaceDemo.Counter
import KernelLabs.RaceDemo.Stress
import KernelLabs.RaceDemo.Device
import KernelLabs.RaceDemo.SafeModes
import KernelLabs.RaceDemo.Read
import KernelLabs.RaceDemo.StressReport
import KernelLabs.WaitQueues.EventQueue
import KernelLabs.WaitQueues.Delivery
import KernelLabs.WaitQueues.Position
import KernelLabs.WaitQueues.Wakeup
import KernelLabs.WaitQueues.Poll
import KernelLabs.WaitQueues.Accounting
import KernelLabs.KernelMemory.Slot
import KernelLabs.KernelMemory.Unload
import KernelLabs.KernelMemory.Discipline
import KernelLabs.KernelMemory.Allocate
import KernelLabs.KernelMemory.Reports
import KernelLabs.TimersWorkqueues.Heartbeat
import KernelLabs.TimersWorkqueues.SelfDeadlock
import KernelLabs.TimersWorkqueues.Snapshot
import KernelLabs.TimersWorkqueues.Unload
import KernelLabs.Kthreads.Ring
import KernelLabs.Kthreads.Snapshot
import KernelLabs.Kthreads.Listing
import KernelLabs.Kthreads.Drain
import KernelLabs.Kthreads.SnapshotRace
import KernelLabs.Kthreads.Lifecycle
import KernelLabs.Kthreads.Ownership
import KernelLabs.Kthreads.Teardown
import KernelLabs.Kthreads.Custody
import KernelLabs.Kthreads.SingleProducer
import KernelLabs.Kthreads.Decoding
import KernelLabs.Kthreads.Status
import KernelLabs.DebugfsSysfs.Interfaces
import KernelLabs.DebugfsSysfs.RawWrites
import KernelLabs.DebugfsSysfs.Untorn
import KernelLabs.TokenBucket.Limiter
import KernelLabs.TokenBucket.Range
import KernelLabs.TokenBucket.Budget
import KernelLabs.TokenBucket.Consistency
import KernelLabs.TokenBucket.Mode
import KernelLabs.TokenBucket.Conformance
import KernelLabs.TokenBucket.Restore
import KernelLabs.ChunkedReads
import KernelLabs.ModuleLoading
