import Prosperismo.AprFiles.Identity
import Prosperismo.Base.Run
import Prosperismo.Base.Sorted
import Prosperismo.Base.Stores
import Prosperismo.BitArray.Ranges
import Prosperismo.BufferCache.Downloads
import Prosperismo.BufferCache.Model
import Prosperismo.BufferCache.Reservation
import Prosperismo.Cfg.Built
import Prosperismo.Cfg.JumpTable
import Prosperismo.Cfg.Partition
import Prosperismo.Cfg.PostDominators
import Prosperismo.Cfg.Reducible
import Prosperismo.Cfg.Simulation
import Prosperismo.Decoder.Coverage
import Prosperismo.Dirents.Listing
import Prosperismo.Elf.Safety
import Prosperismo.Emitter.Emission
import Prosperismo.EventFlag.Names
import Prosperismo.EventFlag.Safety
import Prosperismo.EventQueue.Delivery
import Prosperismo.FileSystem.Trace
import Prosperismo.GpuQueues.Drain
import Prosperismo.GuestAddressSpace.FirstFit
import Prosperismo.GuestAddressSpace.Neighbours
import Prosperismo.GuestPrintf.Conforming
import Prosperismo.GuestPrintf.Safety
import Prosperismo.ImageBarriers.Exact
import Prosperismo.ImageTracking.Runs
import Prosperismo.KernelMemory.Model
import Prosperismo.KernelMemory.Requests
import Prosperismo.LruCache.Order
import Prosperismo.MemoryTracker.Tracking
import Prosperismo.ModuleStart.Order
import Prosperismo.Mounts.Resolution
import Prosperismo.NativePrimitives.Subgroups
import Prosperismo.PageManager.Masked
import Prosperismo.PageOwnerIndex.Exact
import Prosperismo.PageOwnerIndex.Model
import Prosperismo.PageOwnerIndex.Pages
import Prosperismo.PageOwnerIndex.Tables
import Prosperismo.PhysicalMemory.Release
import Prosperismo.Pm4.Boundary
import Prosperismo.Pthread.Wakeups
import Prosperismo.RangeSet.Bytes
import Prosperismo.ReadLane.Preservation
import Prosperismo.ResourceTracking.Covers
import Prosperismo.Resources.Agreement
import Prosperismo.Rtc.Dates
import Prosperismo.Rtc.Rfc3339
import Prosperismo.Rwlocks.Exclusion
import Prosperismo.Semaphore.Conservation
import Prosperismo.Semaphore.Order
import Prosperismo.SrtWalker.Folding
import Prosperismo.StreamBuffer.Disjoint
import Prosperismo.Tile.Surface
import Prosperismo.VirtualRanges.Pointwise
