import Rkernel.Lib.Memory
import Rkernel.Lib.Transition
import Mathlib.Data.Nat.Bitwise

/-!
# The zone allocator

The functions of `kern/zalloc.c` on byte memory, with pointers and 32-bit words as
natural numbers. The reductions modulo `2 ^ 32` of sizes and counts are written out;
pointers into a memory range do not wrap around. A zone descriptor is the structure
`struct zone` at its address; the zone of zones has a static descriptor, every other
zone has one in a buffer of the zone of zones.

The first word of a buffer is the link of the free list while the buffer is free, and
the address of its zone while the object behind it is in use.

Loops run on fuel, and a function stops without a result when it panics or the fuel
does not suffice. Locks are left out, since the calls of a sequence follow each other.
-/

namespace Rkernel

/-- The addresses the linker gives to `s_zone_zone`, `szz_buf` and two strings. -/
structure ZoneImage where
  sZoneZone : ℕ
  szzBuf : ℕ
  zoneName : ℕ
  nullName : ℕ

/-- Why a call does not return. -/
inductive ZoneStop where
  | panic (message : String)
  | outOfFuel
  deriving DecidableEq

namespace Zone

/-- `sizeof(struct zone)`. -/
def sizeof : ℕ := 24

def znBufsize (memory : Memory) (zone : ℕ) : ℕ := memory.read32 zone

def znFreelist (memory : Memory) (zone : ℕ) : ℕ := memory.read32 (zone + 4)

def znCount (memory : Memory) (zone : ℕ) : ℕ := memory.read32 (zone + 12)

def znMemtype (memory : Memory) (zone : ℕ) : ℕ := memory.read32 (zone + 16)

def setBufsize (memory : Memory) (zone value : ℕ) : Memory := memory.write32 zone value

def setFreelist (memory : Memory) (zone value : ℕ) : Memory := memory.write32 (zone + 4) value

def setName (memory : Memory) (zone value : ℕ) : Memory := memory.write32 (zone + 8) value

def setCount (memory : Memory) (zone value : ℕ) : Memory := memory.write32 (zone + 12) value

def setMemtype (memory : Memory) (zone value : ℕ) : Memory := memory.write32 (zone + 16) value

end Zone

def zoneAutoRefill : ℕ := 1

def zoneArCritical : ℕ := 2

/-- `sizeof(szz_buf)`. -/
def szzBufSize : ℕ := 2 ^ 16

/-- The loop of `calc_bufsize`. -/
def calcBufsizeLoop (size : ℕ) : ℕ → ℕ → ℕ → Except ZoneStop ℕ
  | 0, _, _ => .error .outOfFuel
  | fuel + 1, num, mul =>
      if num < size then
        if num < 128 then
          let doubled := 2 * mul % 2 ^ 32
          calcBufsizeLoop size fuel doubled doubled
        else calcBufsizeLoop size fuel ((num + mul) % 2 ^ 32) mul
      else .ok num

/-- The size of the buffers for objects of a size: room for the header, rounded up. -/
def calcBufsize (fuel size : ℕ) : Except ZoneStop ℕ :=
  calcBufsizeLoop ((size + 4) % 2 ^ 32) fuel 0 1

/-- Take the top of the free list, as the end of `zalloc` does: the buffer gets its zone as header,
and the object is behind the header. -/
def removeTop (memory : Memory) (zone : ℕ) : ℕ × Memory :=
  let top := Zone.znFreelist memory zone
  if top ≠ 0 then
    let unlinked := Zone.setFreelist memory zone (memory.read32 top)
    let owned := unlinked.write32 top zone
    (top + 4, Zone.setCount owned zone ((Zone.znCount owned zone + (2 ^ 32 - 1)) % 2 ^ 32))
  else (0, memory)

/-- Put a buffer on the free list, as `zfree` and `_zcram` do. -/
def pushFree (memory : Memory) (zone buffer : ℕ) : Memory :=
  let linked := memory.write32 buffer (Zone.znFreelist memory zone)
  let pushed := Zone.setFreelist linked zone buffer
  Zone.setCount pushed zone ((Zone.znCount pushed zone + 1) % 2 ^ 32)

/-- The loop of `_zcram`. -/
def zcramLoop (zone bufsize : ℕ) : ℕ → Memory → ℕ → ℕ → Except ZoneStop Memory
  | 0, _, _, _ => .error .outOfFuel
  | fuel + 1, memory, mem, size =>
      if size ≥ bufsize then
        zcramLoop zone bufsize fuel (pushFree memory zone mem) (mem + bufsize) (size - bufsize)
      else .ok memory

/-- `_zcram`, and `zcram` around it. -/
def zcram (fuel : ℕ) (memory : Memory) (zone mem size : ℕ) : Except ZoneStop Memory :=
  if mem = 0 then .error (.panic "zcram: memory at zero")
  else zcramLoop zone (Zone.znBufsize memory zone) fuel memory mem size

/-- The answers of `vm_kalloc_ll` and `vm_alloc_critical` to a requested size: nothing, or the
address and the size of the memory. -/
structure VmSupply where
  vmKallocLl : ℕ → Option (ℕ × ℕ)
  vmAllocCritical : ℕ → Option (ℕ × ℕ)

/-- The memory a zone gets when `_zrefill` asks for `num` buffers. -/
def VmSupply.answer (supply : VmSupply) (memory : Memory) (zone num : ℕ) : Option (ℕ × ℕ) :=
  let size := Zone.znBufsize memory zone * num % 2 ^ 32
  if Zone.znMemtype memory zone &&& zoneArCritical ≠ 0 then supply.vmAllocCritical size
  else supply.vmKallocLl size

/-- No memory is left for any zone. -/
def VmSupply.empty : VmSupply := ⟨fun _ => none, fun _ => none⟩

@[simp]
theorem VmSupply.answer_empty (memory : Memory) (zone num : ℕ) :
    VmSupply.empty.answer memory zone num = none := by
  simp [VmSupply.answer, VmSupply.empty]

/-- `_zrefill`, and `zrefill` around it; `vm_refill` does nothing. -/
def zrefill (fuel : ℕ) (supply : VmSupply) (memory : Memory) (zone min num : ℕ) :
    Except ZoneStop Memory :=
  if Zone.znCount memory zone < min then
    match supply.answer memory zone num with
    | none => .ok memory
    | some (start, size) => zcram fuel memory zone start size
  else .ok memory

/-- The refill attempt of `zalloc`. -/
def zallocRefill (fuel : ℕ) (supply : VmSupply) (memory : Memory) (zone : ℕ) :
    Except ZoneStop Memory :=
  if Zone.znMemtype memory zone &&& zoneAutoRefill ≠ 0 then zrefill fuel supply memory zone 32 32
  else .ok memory

/-- `zalloc`: the object, or null for an empty free list, and the memory behind the call. -/
def zalloc (fuel : ℕ) (supply : VmSupply) (memory : Memory) (zone : ℕ) :
    Except ZoneStop (ℕ × Memory) := do
  if zone = 0 then throw (.panic "zalloc: null zone")
  let refilled ← zallocRefill fuel supply memory zone
  return removeTop refilled zone

/-- `zfree`: the header of an object tells the zone whose free list gets the buffer. -/
def zfree (memory : Memory) (object : ℕ) : Memory :=
  if object = 0 then memory
  else pushFree memory (memory.read32 (object - 4)) (object - 4)

/-- The stores of `zone_bootstrap` to the static descriptor. -/
def bootZone (image : ZoneImage) (memory : Memory) (bufsize : ℕ) : Memory :=
  Zone.setCount (Zone.setName (Zone.setFreelist (Zone.setBufsize memory image.sZoneZone bufsize)
    image.sZoneZone 0) image.sZoneZone image.zoneName) image.sZoneZone 0

/-- `zone_bootstrap`: the zone of zones, filled with the static buffer. -/
def zoneBootstrap (fuel : ℕ) (image : ZoneImage) (memory : Memory) : Except ZoneStop Memory := do
  let bufsize ← calcBufsize fuel Zone.sizeof
  zcram fuel (bootZone image memory bufsize) image.sZoneZone image.szzBuf szzBufSize

/-- The stores of `zinit`. -/
def initZone (memory : Memory) (zone bufsize memtype name : ℕ) : Memory :=
  Zone.setName (Zone.setMemtype (Zone.setFreelist (Zone.setBufsize memory zone bufsize) zone 0)
    zone memtype) zone name

/-- `zinit`, with the static variable `zone_zone`. -/
def zinit (fuel : ℕ) (supply : VmSupply) (image : ZoneImage) (zoneZone : ℕ) (memory : Memory)
    (size memtype name : ℕ) : Except ZoneStop (ℕ × Memory) := do
  if zoneZone = 0 then throw (.panic "zinit: no zone_zone")
  let (z, taken) ← zalloc fuel supply memory zoneZone
  if z = 0 then throw (.panic "zinit")
  let bufsize ← calcBufsize fuel size
  return (z, initZone taken z bufsize memtype (if name ≠ 0 then name else image.nullName))

section Results

variable {fuel zone object z size memtype name zoneZone : ℕ} {supply : VmSupply}
  {image : ZoneImage} {memory result : Memory}

theorem zalloc_eq_ok (returned : zalloc fuel supply memory zone = .ok (object, result)) :
    ∃ refilled, zallocRefill fuel supply memory zone = .ok refilled ∧
      removeTop refilled zone = (object, result) := by
  simp only [zalloc, bind, Except.bind, pure, Except.pure] at returned
  split at returned
  · simp [throw, throwThe, MonadExceptOf.throw] at returned
  · split at returned
    · simp at returned
    · rename_i refilled refill
      rw [Except.ok.injEq] at returned
      exact ⟨refilled, refill, returned⟩

theorem zalloc_of_refill {refilled : Memory} (nonNull : zone ≠ 0)
    (refill : zallocRefill fuel supply memory zone = .ok refilled) :
    zalloc fuel supply memory zone = .ok (removeTop refilled zone) := by
  simp only [zalloc, if_neg nonNull, refill, bind, Except.bind, pure, Except.pure]

/-- Without a refill `zalloc` takes what is on the free list. -/
theorem zalloc_empty (nonNull : zone ≠ 0) :
    zalloc fuel .empty memory zone = .ok (removeTop memory zone) := by
  apply zalloc_of_refill nonNull
  simp [zallocRefill, zrefill]

theorem removeTop_ne_zero (filled : Zone.znFreelist memory zone ≠ 0) :
    (removeTop memory zone).1 ≠ 0 := by
  simp [removeTop, filled]

theorem zinit_eq_ok
    (returned : zinit fuel supply image zoneZone memory size memtype name = .ok (z, result)) :
    ∃ taken bufsize, zalloc fuel supply memory zoneZone = .ok (z, taken) ∧ z ≠ 0 ∧
      calcBufsize fuel size = .ok bufsize ∧
      result = initZone taken z bufsize memtype (if name ≠ 0 then name else image.nullName) := by
  simp only [zinit, bind, Except.bind, pure, Except.pure] at returned
  split at returned
  · simp [throw, throwThe, MonadExceptOf.throw] at returned
  · split at returned
    · simp at returned
    · rename_i taken allocated
      split at returned
      · simp [throw, throwThe, MonadExceptOf.throw] at returned
      · rename_i nonNull
        split at returned
        · simp at returned
        · rename_i bufsize sized
          simp only [Except.ok.injEq, Prod.mk.injEq] at returned
          rcases returned with ⟨rfl, rfl⟩
          exact ⟨taken.2, bufsize, allocated, nonNull, sized, rfl⟩

theorem calcBufsize_zone {bufsize : ℕ} (returned : calcBufsize fuel Zone.sizeof = .ok bufsize) :
    bufsize = 32 := by
  rcases fuel with _ | _ | _ | _ | _ | _ | fuel
  all_goals simp [calcBufsize, calcBufsizeLoop, Zone.sizeof] at returned
  exact returned.symm

theorem zoneBootstrap_eq_ok (returned : zoneBootstrap fuel image memory = .ok result) :
    zcram fuel (bootZone image memory 32) image.sZoneZone image.szzBuf szzBufSize = .ok result := by
  simp only [zoneBootstrap, bind, Except.bind] at returned
  split at returned
  · simp at returned
  · rename_i bufsize sized
    rw [calcBufsize_zone sized] at returned
    exact returned

end Results

/-- The memory, the variable `zone_zone`, and what the callers have been given: the zones, the
objects with their zones, and the memory ranges that belong to the allocator. -/
structure ZoneState where
  memory : Memory
  zoneZone : ℕ
  zones : List ℕ
  live : List (ℕ × ℕ)
  used : List (ℕ × ℕ)

/-- The calls of the allocator, and a store of the users of the objects. -/
inductive ZoneCall where
  | zinit (size memtype name : ℕ) (supply : VmSupply)
  | zcram (zone mem size : ℕ)
  | zalloc (zone : ℕ) (supply : VmSupply)
  | zfree (object : ℕ)
  | zrefill (zone min num : ℕ) (supply : VmSupply)
  | store (memory : Memory)

/-- Two memory ranges, given by address and size, do not overlap. -/
def RangesApart (left right : ℕ × ℕ) : Prop :=
  left.1 + left.2 ≤ right.1 ∨ right.1 + right.2 ≤ left.1

/-- A memory range that a C object can have: neither null nor up to the last address. -/
def RangeValid (range : ℕ × ℕ) : Prop :=
  0 < range.1 ∧ range.1 + range.2 < 2 ^ 32

namespace ZoneState

/-- Memory that nothing of the allocator overlaps. -/
def Fresh (state : ZoneState) (range : ℕ × ℕ) : Prop :=
  RangeValid range ∧ ∀ taken ∈ state.used, RangesApart range taken

/-- One returning call. -/
inductive Step (image : ZoneImage) (state : ZoneState) : ZoneCall → ZoneState → Prop where
  | zinit {fuel size memtype name z : ℕ} {supply : VmSupply} {memory : Memory}
      (sizeLt : size < 2 ^ 32) (memtypeLt : memtype < 2 ^ 32)
      (returned : zinit fuel supply image state.zoneZone state.memory size memtype name =
        .ok (z, memory)) :
      Step image state (.zinit size memtype name supply)
        { state with memory := memory, zones := z :: state.zones }
  | zcram {fuel zone mem size : ℕ} {memory : Memory} (zoneMem : zone ∈ state.zones)
      (fresh : state.Fresh (mem, size))
      (returned : zcram fuel state.memory zone mem size = .ok memory) :
      Step image state (.zcram zone mem size)
        { state with memory := memory, used := (mem, size) :: state.used }
  | zalloc {fuel zone object : ℕ} {supply : VmSupply} {memory : Memory}
      (zoneMem : zone ∈ state.zones)
      (fresh : ∀ range ∈ supply.answer state.memory zone 32, state.Fresh range)
      (returned : zalloc fuel supply state.memory zone = .ok (object, memory)) :
      Step image state (.zalloc zone supply)
        { state with
          memory := memory
          live := if object = 0 then state.live else (zone, object) :: state.live
          used := (supply.answer state.memory zone 32).toList ++ state.used }
  | zfree {zone object : ℕ} {front back : List (ℕ × ℕ)}
      (isLive : state.live = front ++ (zone, object) :: back) :
      Step image state (.zfree object)
        { state with memory := zfree state.memory object, live := front ++ back }
  | zrefill {fuel zone min num : ℕ} {supply : VmSupply} {memory : Memory}
      (zoneMem : zone ∈ state.zones)
      (fresh : ∀ range ∈ supply.answer state.memory zone num, state.Fresh range)
      (returned : zrefill fuel supply state.memory zone min num = .ok memory) :
      Step image state (.zrefill zone min num supply)
        { state with
          memory := memory
          used := (supply.answer state.memory zone num).toList ++ state.used }
  | store {memory : Memory}
      (inside : ∀ byte, memory byte = state.memory byte ∨ ∃ entry ∈ state.live,
        entry.2 ≤ byte ∧ byte < entry.2 + (Zone.znBufsize state.memory entry.1 - 4)) :
      Step image state (.store memory) { state with memory := memory }

end ZoneState

namespace ZoneImage

/-- The static descriptor and the static buffer. -/
def statics (image : ZoneImage) : List (ℕ × ℕ) :=
  [(image.sZoneZone, Zone.sizeof), (image.szzBuf, szzBufSize)]

/-- The two statics are C objects that do not overlap. -/
structure Valid (image : ZoneImage) : Prop where
  valid : ∀ range ∈ image.statics, RangeValid range
  apart : image.statics.Pairwise RangesApart

/-- The state after `zone_bootstrap`, on memory whose static ranges are zero. -/
structure Booted (image : ZoneImage) (state : ZoneState) : Prop where
  memory : ∃ fuel before, zoneBootstrap fuel image before = .ok state.memory ∧
    ∀ range ∈ image.statics, ∀ byte, range.1 ≤ byte → byte < range.1 + range.2 → before byte = 0
  zoneZone : state.zoneZone = image.sZoneZone
  zones : state.zones = []
  live : state.live = []
  used : state.used = image.statics

/-- The sequences of calls behind `zone_bootstrap`. -/
def system (image : ZoneImage) : TransitionSystem ZoneState ZoneCall where
  init := image.Booted
  step := ZoneState.Step image

end ZoneImage

end Rkernel
