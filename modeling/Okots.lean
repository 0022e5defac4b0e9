import Okots.Library.ControlRegisters
import Okots.Library.Exec
import Okots.Library.LastWriter
import Okots.Library.MaximalRuns
import Okots.Library.Reachable
import Okots.Library.Stuttering
import Okots.Library.Multimap
import Okots.Library.Mutex
import Okots.Library.Tally
import Okots.Library.StaleCache
import Okots.Library.Gregorian
import Okots.Library.WordBytes
import Okots.Library.InterruptController
import Okots.Library.Lanes
import Okots.Library.LinkChase
import Okots.Library.Memo
import Okots.Library.RefCount
import Okots.Library.SelfDelimiting
import Okots.Library.Base64
import Okots.Result
import Okots.UtilTypes
import Okots.Paging.Entry
import Okots.Paging.Hardware
import Okots.Paging.EntryBits
import Okots.Paging.Normalize
import Okots.Paging.Canonical
import Okots.Paging.Tables
import Okots.Paging.Frames
import Okots.Paging.Tree
import Okots.Paging.ListTree
import Okots.Paging.Translation
import Okots.Paging.UpdatedTree
import Okots.Paging.Shortage
import Okots.Paging.Create
import Okots.Paging.IdentityMap
import Okots.Paging.Update
import Okots.Paging.ExactUpdate
import Okots.Paging.Leaf
import Okots.Paging.Release
import Okots.Paging.Failure
import Okots.Paging.Atomicity
import Okots.Paging.Leaks
import Okots.Paging.Recreate
import Okots.Paging.Lifecycle
import Okots.Paging.HugePages
import Okots.Paging.Built
import Okots.Paging.GetAddr
import Okots.Paging.Attributes
import Okots.Paging.Complete
import Okots.Main
import Okots.Boot
import Okots.EfiMain
import Okots.PhysicalAllocator
import Okots.ChangeAllocator
import Okots.Executor.Basic
import Okots.Executor.Timers
import Okots.Executor.Machine
import Okots.Executor.Completion
import Okots.Executor.Idle
import Okots.Executor.Locks
import Okots.Executor.Join
import Okots.Executor.RawWaker
import Okots.Executor.Fairness
import Okots.MultiCore.Trampoline
import Okots.Footprint
import Okots.MultiCore.TrampolineCode
import Okots.MultiCore.TrampolineBoot
import Okots.MultiCore.Handoff
import Okots.MultiCore.InitTrampoline
import Okots.MultiCore.Launch
import Okots.MultiCore.Startup
import Okots.MultiCore.Shootdown
import Okots.MultiCore.Ipi
import Okots.MultiCore.Panic
import Okots.Logger
import Okots.Logger.Capacity
import Okots.Logger.Iterator
import Okots.Logger.Serial
import Okots.SendAndGet
import Okots.Timer.Rtc
import Okots.Timer.RtcTicks
import Okots.Timer.RtcRegisters
import Okots.Acpi.Pci
import Okots.Acpi.AmlMutex
import Okots.Acpi.AmlTimeout
import Okots.Acpi.PhysicalRegion
import Okots.Acpi.AmlWait
import Okots.Drivers.VirtIo
import Okots.CpuFlags.Expand
import Okots.CpuFlags.Cache
import Okots.CpuFlags.Detect
import Okots.Simd.Kernels
import Okots.Simd.Division
import Okots.Simd.Rotation
import Okots.DirHash
import Okots.Version
