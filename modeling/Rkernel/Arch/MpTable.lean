import Rkernel.Arch.WindowRun
import Rkernel.Lib.PartialMemory
import Rkernel.Libkern.Numbers

/-!
# The MP configuration table

The functions of `arch/i686/mp.c`, which look for the MP floating pointer and the configuration
table and walk over its entries, and `_i686_get_mp` of `arch/i686/physmem.c`. The code reads the
tables of the firmware through the window for temporary mappings; a read through an address that
no entry maps has no result, and neither has a loop that does not end.

`struct mp` has 16 bytes with `physaddr` at 4; `struct mpconf` has 44 bytes with `length` at 4,
`version` at 6 and `lapicaddr` at 36. `allMapped` is not in the source: it says that all calls
of `__i686_mp_map_range` so far have succeeded.
-/

open Stretch

namespace Rkernel

namespace Mp

/-- The contents of the physical memory. -/
abbrev Ram := Paddr → Byte

/-- Reads a byte through an address. -/
abbrev Loader := Vaddr → Option Byte

/-- A read through the kernel's page table. -/
def load (ram : Ram) (table : KernelPageTable) : Loader :=
  fun va => (translate table va).map ram

/-- The page table, and the variables for the structures that have been found. -/
structure State where
  table : KernelPageTable
  gMpptr : Vaddr
  gMplen : BitVec 32
  gCtptr : Vaddr
  gCtlen : BitVec 32
  gCbptr : Vaddr
  gCblen : BitVec 32
  gConfTableBody : Vaddr
  allMapped : Bool

/-- Four bytes as an integer, the lowest byte first. -/
def int32 (a b c d : Byte) : BitVec 32 :=
  d ++ c ++ b ++ a

/-- `GETINT` -/
def getint (memory : Loader) (x : Vaddr) : Option (BitVec 32) := do
  let a ← memory x
  let b ← memory (x + 1)
  let c ← memory (x + 2)
  let d ← memory (x + 3)
  return int32 a b c d

/-- A read of a `u_int16_t`. -/
def getshort (memory : Loader) (x : Vaddr) : Option (BitVec 16) := do
  let a ← memory x
  let b ← memory (x + 1)
  return b ++ a

/-- `compare4` with a string constant. -/
def compare4 (memory : Loader) (a : Vaddr) (text : BitVec 32) : Option Bool := do
  return decide ((← getint memory a) = text)

/-- `"_MP_"` -/
def mpText : BitVec 32 :=
  int32 (byte '_') (byte 'M') (byte 'P') (byte '_')

/-- `"PCMP"` -/
def pcmpText : BitVec 32 :=
  int32 (byte 'P') (byte 'C') (byte 'M') (byte 'P')

def sum (memory : Loader) (addr : Vaddr) (len : BitVec 32) : Option Byte :=
  foldCells (· + ·) memory len.toInt.toNat addr 0

/-- The test of `mpsearch2` at an address. -/
def isMp (memory : Loader) (p : Vaddr) : Option Bool := do
  if ← compare4 memory p mpText then
    return decide ((← sum memory p 16) = 0)
  else return false

/-- The loop of `mpsearch2` up to `e`. -/
def mpsearch2Loop (memory : Loader) (e : Vaddr) : (left : ℕ) → Vaddr → Option Vaddr
  | 0, _ => none
  | left + 1, p =>
      if p < e then do
        if ← isMp memory p then return p
        else mpsearch2Loop memory e left (p + 16)
      else some 0

def mpsearch2 (memory : Loader) (va : Vaddr) (len : BitVec 32) : Option Vaddr :=
  mpsearch2Loop memory (va + len) (len.toNat / 16 + 2) va

/-- A call of `__i686_mp_map_range`. -/
def mapRange (pa : Paddr) (n : BitVec 32) (state : State) : Vaddr × State :=
  let mapped := i686MpMapRange pa n state.table
  (mapped.1, { state with
    table := mapped.2
    allMapped := state.allMapped && mapped.1 != 0 })

def mpsearch1 (ram : Ram) (pa : Paddr) (len : BitVec 32) (state : State) :
    Option (Vaddr × State) :=
  let (ptr, state) := mapRange pa len state
  if ptr = 0 then some (0, state)
  else do
    let mp ← mpsearch2 (load ram state.table) ptr len
    if mp = 0 then
      let table ← i686MpUnmapRange ptr len state.table
      return (0, { state with table := table })
    else return (mp, { state with gMpptr := ptr, gMplen := len })

/-- Two bytes of the BIOS data area, the higher one first. -/
def biosWord (high low : Byte) : BitVec 32 :=
  high.setWidth 32 <<< 8 ||| low.setWidth 32

/-- `_i686_get_mp`: `addrs[0]`, `addrs[1]` and the table. -/
def i686GetMp (ram : Ram) (table : KernelPageTable) :
    Option (Paddr × Paddr × KernelPageTable) :=
  let (va, table) := mapPage 0 table
  if va = 0 then some (0, 0, table)
  else do
    let ptr := va + 0x400
    let memory := load ram table
    let ebda := biosWord (← memory (ptr + 0x0f)) (← memory (ptr + 0x0e)) <<< 4
    let base := biosWord (← memory (ptr + 0x14)) (← memory (ptr + 0x13)) <<< 10
    return (ebda, base, unmapPage va table)

/-- The last part of `mpsearch`. -/
def mpsearchRom (ram : Ram) (state : State) : Option (Vaddr × State) :=
  mpsearch1 ram 0xf0000 0x10000 state

/-- `mpsearch` from the test of `addr[1]` on. -/
def mpsearchBase (ram : Ram) (base : Paddr) (state : State) : Option (Vaddr × State) :=
  if 1024 ≤ base then do
    let (mp, state) ← mpsearch1 ram (base - 1024) 1024 state
    if mp = 0 then mpsearchRom ram state else return (mp, state)
  else mpsearchRom ram state

def mpsearch (ram : Ram) (state : State) : Option (Vaddr × State) := do
  let (ebda, base, table) ← i686GetMp ram state.table
  let state := { state with table := table }
  if ebda = 0 then mpsearchBase ram base state
  else
    let (mp, state) ← mpsearch1 ram ebda 1024 state
    if mp = 0 then mpsearchBase ram base state else return (mp, state)

def endpage (va : Vaddr) (n : BitVec 32) : Vaddr :=
  (va + n - 1) &&& ~~~0xfff

/-- The last `if` of `mpconfig`: the checksum, and where the body is. -/
def mpconfigBody (ram : Ram) (pa : Paddr) (conf : Vaddr) (length : BitVec 32) (state : State) :
    Option (Vaddr × State) :=
  if endpage conf 44 < endpage conf length then do
    let checksum ← sum (load ram state.table) conf 44
    let (body, state) := mapRange (pa + 44) state.gCblen state
    let state := { state with gCbptr := body }
    if body = 0 then return (0, state)
    else
      let rest ← sum (load ram state.table) body state.gCblen
      if checksum + rest ≠ 0 then return (0, state)
      else return (conf, { state with gConfTableBody := body })
  else do
    let state := { state with gCbptr := 0 }
    if (← sum (load ram state.table) conf length) ≠ 0 then return (0, state)
    else return (conf, { state with gConfTableBody := conf + 44 })

/-- `mpconfig` with a table address that is not 0. -/
def mpconfigTable (ram : Ram) (pa : Paddr) (state : State) : Option (Vaddr × State) :=
  let (conf, state) := mapRange pa 44 { state with gCtlen := 44 }
  let state := { state with gCtptr := conf }
  let header := load ram state.table
  if conf = 0 then some (0, state)
  else do
    if !(← compare4 header conf pcmpText) then return (0, state)
    else
      let version ← header (conf + 6)
      if version ≠ 1 ∧ version ≠ 4 then return (0, state)
      else
        let length := (← getshort header (conf + 4)).setWidth 32
        mpconfigBody ram pa conf length { state with gCblen := length - 44 }

/-- `mpconfig`: `*pmp`, the result and the state. -/
def mpconfig (ram : Ram) (state : State) : Option (Vaddr × Vaddr × State) := do
  let (mp, state) ← mpsearch ram state
  if mp = 0 then return (mp, 0, state)
  else
    let pa ← getint (load ram state.table) (mp + 4)
    if pa = 0 then return (mp, 0, state)
    else
      let (conf, state) ← mpconfigTable ram pa state
      return (mp, conf, state)

/-- `MPPROC` -/
def mpProc : Byte := 0x00

/-- `MPBUS` -/
def mpBus : Byte := 0x01

/-- `MPIOAPIC` -/
def mpIoapic : Byte := 0x02

/-- `MPIOINTR` -/
def mpIointr : Byte := 0x03

/-- `MPLINTR` -/
def mpLintr : Byte := 0x04

/-- `MPBOOT` -/
def mpBoot : Byte := 0x02

/-- The global variables of `mp.c`. -/
structure Globals where
  i686LocalApic : BitVec 32
  i686IoapicHas : Byte
  i686IoapicId : Byte
  i686Ioapic : BitVec 32
  i686Ncpu : BitVec 32
  i686BootCpu : BitVec 32
  i686CpuApics : ℕ → Byte

/-- The case `MPPROC` of `mpinit`. -/
def readProc (memory : Loader) (p : Vaddr) (globals : Globals) : Option Globals :=
  if globals.i686Ncpu < 256 then do
    let apicid ← memory (p + 1)
    let flags ← memory (p + 3)
    return { globals with
      i686CpuApics := Function.update globals.i686CpuApics globals.i686Ncpu.toNat apicid
      i686BootCpu := if flags &&& mpBoot ≠ 0 then globals.i686Ncpu else globals.i686BootCpu
      i686Ncpu := globals.i686Ncpu + 1 }
  else some { globals with i686Ncpu := globals.i686Ncpu + 1 }

/-- The case `MPIOAPIC` of `mpinit`. -/
def readIoapic (memory : Loader) (p : Vaddr) (globals : Globals) : Option Globals := do
  let apicno ← memory (p + 1)
  let addr ← getint memory (p + 4)
  return { globals with
    i686IoapicHas := 0
    i686IoapicId := apicno
    i686Ioapic := addr }

/-- The loop of `mpinit` up to `e`. -/
def mpinitLoop (memory : Loader) (e : Vaddr) : (left : ℕ) → Vaddr → Globals →
    Option (Bool × Globals)
  | 0, _, _ => none
  | left + 1, p, globals =>
      if p < e then do
        let type ← memory p
        if type = mpProc then
          let globals ← readProc memory p globals
          mpinitLoop memory e left (p + 20) globals
        else if type = mpIoapic then
          let globals ← readIoapic memory p globals
          mpinitLoop memory e left (p + 8) globals
        else if type = mpBus ∨ type = mpIointr ∨ type = mpLintr then
          mpinitLoop memory e left (p + 8) globals
        else return (false, globals)
      else some (true, globals)

def mpinit (memory : Loader) (state : State) (globals : Globals) : Option (Bool × Globals) := do
  let p := state.gConfTableBody
  let e := state.gConfTableBody + state.gCblen
  let (ismp, globals) ← mpinitLoop memory e (e.toNat - p.toNat + 1) p
    { globals with i686Ioapic := 0 }
  return (ismp && decide (1 ≤ globals.i686Ncpu), globals)

/-- `ismp` after the tests behind the call of `mpinit`. -/
def isMultiprocessor (ismp : Bool) (globals : Globals) : Bool :=
  ismp && globals.i686Ioapic != 0 && globals.i686LocalApic != 0 &&
    decide (0xfe000000 ≤ globals.i686Ioapic) && decide (0xfe000000 ≤ globals.i686LocalApic)

/-- The last `if` of `_i686_initmp`. -/
def uniprocessor (globals : Globals) : Globals :=
  { globals with
    i686LocalApic := 0
    i686BootCpu := 0
    i686Ncpu := 1
    i686IoapicHas := 0
    i686Ioapic := 0 }

/-- The local variables before `_i686_initmp`. -/
def initialState (table : KernelPageTable) : State :=
  ⟨table, 0, 0, 0, 0, 0, 0, 0, true⟩

/-- The global variables before `_i686_initmp`. -/
def initialGlobals : Globals :=
  ⟨0, 0, 0, 0, 0, 0, fun _ => 0⟩

/-- The global variables before the call of `mpinit`. -/
def walkGlobals : Globals :=
  { initialGlobals with
    i686IoapicHas := 0
    i686Ioapic := 0
    i686BootCpu := 256 }

/-- `_i686_initmp`: `ismp`, the global and the local variables. -/
def i686Initmp (ram : Ram) (table : KernelPageTable) : Option (Bool × Globals × State) := do
  let (_, conf, state) ← mpconfig ram (initialState table)
  if conf = 0 then return (false, uniprocessor walkGlobals, state)
  else
    let memory := load ram state.table
    let (ismp, globals) ← mpinit memory state walkGlobals
    let lapicaddr ← getint memory (conf + 36)
    let globals := { globals with i686LocalApic := lapicaddr }
    if isMultiprocessor ismp globals then return (true, globals, state)
    else return (false, uniprocessor globals, state)

end Mp

end Rkernel
