import BayosKernel.Foundation.BitField
import BayosKernel.Foundation.Agreement
import BayosKernel.Foundation.Bitmap
import BayosKernel.Foundation.BlockList
import BayosKernel.Foundation.ByteMemory
import BayosKernel.Foundation.CString
import BayosKernel.Foundation.Counting
import BayosKernel.Foundation.CyclicOrder
import BayosKernel.Foundation.FirstMax
import BayosKernel.Foundation.ListOrder
import BayosKernel.Foundation.LockOrder
import BayosKernel.Foundation.Machine
import BayosKernel.Foundation.PointerChain
import BayosKernel.Foundation.RingLog
import BayosKernel.Foundation.Settling
import BayosKernel.Foundation.Simulation
import BayosKernel.Foundation.TimeSharing
import BayosKernel.Foundation.PackedStructs
import BayosKernel.Foundation.PrivateMemory
import BayosKernel.Foundation.TextPage
import BayosKernel.Foundation.InterruptController
import BayosKernel.Foundation.StackWords
import BayosKernel.Foundation.StackCode
import BayosKernel.Process
import BayosKernel.RoundRobin
import BayosKernel.InterruptHandlers
import BayosKernel.Semaphore
import BayosKernel.SemaphoreQueue
import BayosKernel.SemaphorePermits
import BayosKernel.Pipe
import BayosKernel.PipeTokens
import BayosKernel.PipeRing
import BayosKernel.PipeCalls
import BayosKernel.PipeFifo
import BayosKernel.PipeKeyboard
import BayosKernel.ProcessList
import BayosKernel.ProcessListLoops
import BayosKernel.ProcessCustody
import BayosKernel.ProcessListRuns
import BayosKernel.ProcessReaping
import BayosKernel.ProcessPids
import BayosKernel.Locking
import BayosKernel.Deadlocks
import BayosKernel.Heap
import BayosKernel.HeapTiling
import BayosKernel.HeapRuns
import BayosKernel.HeapExhaustion
import BayosKernel.PageAllocator
import BayosKernel.HeaderPages
import BayosKernel.AreaLayout
import BayosKernel.PageAllocation
import BayosKernel.PageRuns
import BayosKernel.PageHalts
import BayosKernel.PageTables
import BayosKernel.PageTableInv
import BayosKernel.PageAgreement
import BayosKernel.PageMapping
import BayosKernel.PagePaths
import BayosKernel.PageWalks
import BayosKernel.PageSpaces
import BayosKernel.PageOwnership
import BayosKernel.PageRights
import BayosKernel.UserPages
import BayosKernel.PageProgress
import BayosKernel.HeapPayloads
import BayosKernel.TranslationCache
import BayosKernel.LinkedList
import BayosKernel.LinkedListInsertion
import BayosKernel.ResourceTable
import BayosKernel.ResourceTableMap
import BayosKernel.StringFunctions
import BayosKernel.StringReads
import BayosKernel.HeapUndo
import BayosKernel.LinkedListRemoval
import BayosKernel.Initramfs
import BayosKernel.Vfs
import BayosKernel.VfsOwnership
import BayosKernel.MountLookup
import BayosKernel.LinkedListLifetime
import BayosKernel.ArchiveScan
import BayosKernel.VfsMemory
import BayosKernel.MountTable
import BayosKernel.InitramfsOpen
import BayosKernel.MountFailures
import BayosKernel.Unmount
import BayosKernel.InitramfsReads
import BayosKernel.OpenFiles
import BayosKernel.Syscalls
import BayosKernel.SpaceCopies
import BayosKernel.ForkSyscall
import BayosKernel.HaltedCalls
import BayosKernel.ForkFailures
import BayosKernel.Disclosure
import BayosKernel.AddressSpaces
import BayosKernel.MapMemoryPage
import BayosKernel.RegionPairs
import BayosKernel.ElfLoading
import BayosKernel.SyscallRanges
import BayosKernel.ExecveCall
import BayosKernel.ExecveHeap
import BayosKernel.Preemption
import BayosKernel.StackOwnership
import BayosKernel.StackRuns
import BayosKernel.ElfEnd
import BayosKernel.AnonMemory
import BayosKernel.ImageOverlap
import BayosKernel.Framebuffer
import BayosKernel.ScreenClearing
import BayosKernel.NumberFormats
import BayosKernel.PrintkFormat
import BayosKernel.Memmove
import BayosKernel.DoubleFree
import BayosKernel.AreaIndices
import BayosKernel.ContextSwitch
import BayosKernel.SwitchInvariant
import BayosKernel.SwitchSteps
import BayosKernel.SwitchInsertion
import BayosKernel.SwitchRuns
import BayosKernel.SingleUser
import BayosKernel.SyscallEntry
import BayosKernel.Exceptions
import BayosKernel.ProcessorTables
import BayosKernel.HardwareInterrupts
import BayosKernel.Terminal
import BayosKernel.Keyboard
import BayosKernel.PrintProcess
import BayosKernel.PrivateSpaces
import BayosKernel.ProcessMemories
