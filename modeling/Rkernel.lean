import Rkernel.Arch.BootTables
import Rkernel.Arch.Interrupt
import Rkernel.Arch.IrqPic
import Rkernel.Arch.MpWalk
import Rkernel.Arch.Switch
import Rkernel.Arch.TaskState
import Rkernel.Arch.TlbFlush
import Rkernel.Kern.SchedActualize
import Rkernel.Kern.LockFair
import Rkernel.Kern.LockTouch
import Rkernel.Kern.LockQuiesce
import Rkernel.Kern.SchedPreemptSafety
import Rkernel.Kern.StackOwners
import Rkernel.Kern.WaitOrder
import Rkernel.Kern.ZallocSizes
import Rkernel.Libkern.StringOps
import Rkernel.Physmem.Coverage
import Rkernel.Terminal.Kterm
import Rkernel.Vm.GrowRaceSafety
import Rkernel.Vm.KernelObjects
import Rkernel.Vm.PagerLookup
import Rkernel.Vm.AddressRange
import Rkernel.Vm.FirstFit
import Rkernel.Vm.ProtectionDomain
import Rkernel.Vm.RegionLinks
import Rkernel.Vm.TreeBalance
import Rkernel.Vm.TreeVariants
import Rkernel.Vm.BackedMemory
