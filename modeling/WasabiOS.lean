import WasabiOS.Wfs.AllocatorRuns
import WasabiOS.Wfs.AllocatorExact
import WasabiOS.Wfs.DirectoryRoundTrip
import WasabiOS.Wfs.StringRoundTrip
import WasabiOS.Wfs.BlockListRoundTrip
import WasabiOS.Wfs.GroupAlgebra
import WasabiOS.Wfs.ReadersTotal
import WasabiOS.Host.FileDevice
import WasabiOS.Host.CopyFile
import WasabiOS.Host.TreeWalk
import WasabiOS.Gpt.Guarantees
import WasabiOS.Kernel.LockRuns
import WasabiOS.Testing.TestRuns
import WasabiOS.Testing.TestTargets
import WasabiOS.Wfs.MemTree.LockBalance
import WasabiOS.Wfs.MemTree.LeafDelete
import WasabiOS.Kernel.FrameRuns
import WasabiOS.Kernel.InitExact
import WasabiOS.Kernel.MemStats
import WasabiOS.Shared.SingleArc
import WasabiOS.Shared.UnwrapLock
import WasabiOS.Shared.BarrierTimeout
import WasabiOS.Kernel.TaskRuns
import WasabiOS.Kernel.SlabRuns
import WasabiOS.Kernel.EarlyHeap
import WasabiOS.Kernel.Interrupts
import WasabiOS.Kernel.ApStack
import WasabiOS.Kernel.Nvme.Properties
import WasabiOS.Kernel.Nvme.PrpForms
import WasabiOS.Kernel.Nvme.ReadErrors
import WasabiOS.Shared.OwnedSlice
import WasabiOS.Shared.Duration
import WasabiOS.Shared.TaskLocal
import WasabiOS.Testing.Handshake
import WasabiOS.Logger.Dispatch
