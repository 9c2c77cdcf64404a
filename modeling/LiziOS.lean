import LiziOS.BootChain
import LiziOS.TaskState
import LiziOS.Interrupts.Threads
import LiziOS.Interrupts.Vectors
import LiziOS.UserEntry
import LiziOS.Kernel.LockSafety
import LiziOS.Kernel.LockWaiters
import LiziOS.Kernel.InterruptFlag
import LiziOS.Kernel.IoQueueSafety
import LiziOS.Kernel.TimeSlices
import LiziOS.BitmapSearch
import LiziOS.KernelImage
import LiziOS.ContextSwitch
import LiziOS.ListCells
import LiziOS.BootPages
import LiziOS.ProcessCreation
import LiziOS.ProcessExecution
import LiziOS.KernelAllocation
import LiziOS.FrameOwnership
import LiziOS.PoolGeometry
import LiziOS.Teletype
import LiziOS.FailedAllocation
import LiziOS.MemoryDetection
import LiziOS.RecursiveMap
import LiziOS.PageBinding
import LiziOS.ManagedRange
import LiziOS.DescriptorTables
import LiziOS.SharedKernel
import LiziOS.ProcessAtomicity
import LiziOS.RunningSpace
import LiziOS.Preemption
import LiziOS.FormatOutput
import LiziOS.PrintfBuffer
import LiziOS.BoundedStrings
import LiziOS.StringOrder
import LiziOS.StringSearch
import LiziOS.BitmapMap
import LiziOS.ThreadRecord
import LiziOS.Kernel.CapsLock
import LiziOS.Kernel.MembershipCheck
import LiziOS.Kernel.TypedText
import LiziOS.Kernel.Console
