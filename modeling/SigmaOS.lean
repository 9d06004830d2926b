import SigmaOS.Lib.Run
import SigmaOS.Lib.Extent
import SigmaOS.Mm.Safety
import SigmaOS.Proc.IpcOrder
import SigmaOS.Arch.Paging
import SigmaOS.Arch.PagingMap
import SigmaOS.Arch.PagingRefine
import SigmaOS.Arch.PagingLife
import SigmaOS.Arch.PagingHalves
import SigmaOS.Proc.VmMap
import SigmaOS.Proc.VmMapRange
import SigmaOS.Proc.Resources
import SigmaOS.Proc.Scheduler
import SigmaOS.Proc.SchedulerExclusive
import SigmaOS.Proc.Context
import SigmaOS.Proc.ContextIntegrity
import SigmaOS.Proc.System
import SigmaOS.Proc.Confinement
import SigmaOS.Proc.IpcBalance
import SigmaOS.Proc.IpcSize
import SigmaOS.Proc.IpcWakeup
import SigmaOS.Arch.Pcid
import SigmaOS.Proc.AnonymousRanges
import SigmaOS.Arch.PagingTotal
import SigmaOS.Arch.KernelHalf
import SigmaOS.Arch.CloneIsolation
import SigmaOS.Lib.LinkedList
import SigmaOS.Mm.Heap
import SigmaOS.Mm.HeapLayout
import SigmaOS.Mm.HeapSafety
import SigmaOS.Proc.Elf
import SigmaOS.Proc.ElfImage
import SigmaOS.Lib.Locks
import SigmaOS.Proc.LockOwnership
import SigmaOS.Proc.InitrdArchive
import SigmaOS.Misc.KernelArgs
import SigmaOS.Zeta.Mount
import SigmaOS.Zeta.Vfs
import SigmaOS.Zeta.Descriptors
import SigmaOS.Zeta.Offsets
import SigmaOS.Arch.VtD
import SigmaOS.Proc.DeviceOwnership
import SigmaOS.Lib.LockOrder
import SigmaOS.Proc.LockOrder
import SigmaOS.Proc.Fairness
import SigmaOS.Arch.PagingFrame
import SigmaOS.Proc.ForkAddressSpace
import SigmaOS.Mm.Contiguous
import SigmaOS.Mm.Depth
import SigmaOS.Mm.SortOrder
import SigmaOS.Arch.TeardownExact
import SigmaOS.Arch.PagingProtect
import SigmaOS.Proc.ElfProtection
import SigmaOS.Lib.FirstFit
import SigmaOS.Proc.RangeSearch
import SigmaOS.Drivers.Nvme
import SigmaOS.Drivers.NvmeProtocol
import SigmaOS.Drivers.NvmeNamespaces
import SigmaOS.Acpi.Madt
import SigmaOS.Arch.Dmar
import SigmaOS.Arch.IoApic
import SigmaOS.Arch.Vectors
import SigmaOS.Proc.CpuIdentity
import SigmaOS.Drivers.Xhci
import SigmaOS.Drivers.XhciCommandRing
import SigmaOS.Drivers.XhciEventRing
import SigmaOS.Drivers.XhciCompletion
import SigmaOS.Drivers.XhciStale
import SigmaOS.Drivers.XhciPorts
import SigmaOS.Arch.PcidOrder
import SigmaOS.Proc.SchedulePick
import SigmaOS.Mm.HeapAlignment
import SigmaOS.Mm.HeapRequests
import SigmaOS.Mm.HeapBytes
import SigmaOS.Arch.SlPaging
import SigmaOS.Arch.SlTeardown
import SigmaOS.Arch.Pci
import SigmaOS.Lib.Descent
import SigmaOS.Arch.PciEnumeration
import SigmaOS.Arch.PciTree
import SigmaOS.Arch.PciBar
import SigmaOS.Arch.PciConfig
import SigmaOS.Arch.IrqLock
import SigmaOS.Drivers.Ata
import SigmaOS.Klibc.String
import SigmaOS.Lib.Numeral
import SigmaOS.Klibc.Stdlib
import SigmaOS.Types.Bitmap
import SigmaOS.Smp.Ipi
