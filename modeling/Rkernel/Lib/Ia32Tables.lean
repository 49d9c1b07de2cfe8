import Rkernel.Lib.Bitfields
import Rkernel.Lib.Ia32

/-!
# Descriptor tables of IA-32

The fields of a descriptor as the processor reads them from its two words, tables of descriptors
in memory, and interrupts that find their gate in such a table. A table that is written entry by
entry is read as the last descriptor that went to each entry.
-/

namespace Ia32

/-- A descriptor: the word with the low bits first. -/
structure Descriptor where
  low : Word
  high : Word

namespace Descriptor

def base (d : Descriptor) : Word :=
  Bitfield.word 32 [⟨16, d.low.extractLsb' 16 16⟩, ⟨8, d.high.extractLsb' 0 8⟩,
    ⟨8, d.high.extractLsb' 24 8⟩]

/-- The last offset of the segment; a descriptor with granularity counts pages. -/
def limit (d : Descriptor) : Word :=
  let units := Bitfield.word 32 [⟨16, d.low.extractLsb' 0 16⟩, ⟨4, d.high.extractLsb' 16 4⟩]
  if d.high.extractLsb' 23 1 = 1 then (units <<< 12) ||| 0xfff else units

def type (d : Descriptor) : BitVec 4 :=
  d.high.extractLsb' 8 4

def isSystem (d : Descriptor) : Bool :=
  d.high.extractLsb' 12 1 = 0

def privilege (d : Descriptor) : BitVec 2 :=
  d.high.extractLsb' 13 2

def isPresent (d : Descriptor) : Bool :=
  d.high.extractLsb' 15 1 = 1

/-- The linear address of an offset in the segment, unless the offset is beyond its limit. -/
def linear (d : Descriptor) (offset : Word) : Option Word :=
  if offset ≤ d.limit then some (d.base + offset) else none

/-- The interrupt gate that the descriptor describes, unless it describes something else. -/
def gate (d : Descriptor) : Option Gate :=
  if d.isPresent && d.isSystem && d.type == 0xe then
    some ⟨d.low.extractLsb' 16 16,
      Bitfield.word 32 [⟨16, d.low.extractLsb' 0 16⟩, ⟨16, d.high.extractLsb' 16 16⟩]⟩
  else none

/-- Store the descriptor at an address. -/
def store (d : Descriptor) (address : ℕ) (memory : Memory) : Memory :=
  (memory.write32 address d.low.toNat).write32 (address + 4) d.high.toNat

end Descriptor

/-- GDTR or IDTR. -/
structure TableRegister where
  base : Word
  limit : BitVec 16

namespace TableRegister

/-- A descriptor of a table, unless it is beyond the limit of the table. -/
def entry (table : TableRegister) (index : ℕ) (memory : Memory) : Option Descriptor :=
  if 8 * index + 7 ≤ table.limit.toNat then
    some ⟨BitVec.ofNat 32 (memory.read32 (table.base.toNat + 8 * index)),
      BitVec.ofNat 32 (memory.read32 (table.base.toNat + 8 * index + 4))⟩
  else none

/-- Store a descriptor in a table. -/
def put (table : TableRegister) (index : ℕ) (d : Descriptor) (memory : Memory) : Memory :=
  d.store (table.base.toNat + 8 * index) memory

/-- The processor loads the task register: the descriptor must be that of an available 32-bit task
state, and becomes busy. -/
def ltr (table : TableRegister) (selector : BitVec 16) (memory : Memory) : Option Memory :=
  (table.entry (selector.toNat / 8) memory).bind fun d =>
    if d.isPresent && d.isSystem && d.type = 0x9 then
      some (table.put (selector.toNat / 8) { d with high := d.high ||| 0x200 } memory)
    else none

end TableRegister

/-- An interrupt to level 0 through a table, with the stack for that level and the error code, if
there is one. -/
def interrupt (table : TableRegister) (ss0 : BitVec 16) (esp0 : Word) (vector : ℕ)
    (errorCode : Option Word) (m : Machine) : Option Machine :=
  ((table.entry vector m.memory).bind Descriptor.gate).map fun gate =>
    deliver gate ss0 esp0 errorCode m

namespace TableRegister

variable {table : TableRegister} {memory other : Memory} {index target : ℕ} {d : Descriptor}

theorem entry_congr (same : ∀ byte, table.base.toNat + 8 * index ≤ byte →
    byte < table.base.toNat + 8 * index + 8 → other byte = memory byte) :
    table.entry index other = table.entry index memory := by
  have low : other.read32 (table.base.toNat + 8 * index) =
      memory.read32 (table.base.toNat + 8 * index) :=
    Memory.read32_congr fun byte begins ends => same byte begins (by omega)
  have high : other.read32 (table.base.toNat + 8 * index + 4) =
      memory.read32 (table.base.toNat + 8 * index + 4) :=
    Memory.read32_congr fun byte begins ends => same byte (by omega) (by omega)
  rw [entry, entry, low, high]

theorem put_of_apart {byte : ℕ} (apart : byte < table.base.toNat + 8 * index ∨
    table.base.toNat + 8 * index + 8 ≤ byte) : table.put index d memory byte = memory byte := by
  rw [put, Descriptor.store, Memory.write32_of_apart (by omega),
    Memory.write32_of_apart (by omega)]

theorem entry_put_self (inTable : 8 * index + 7 ≤ table.limit.toNat) :
    table.entry index (table.put index d memory) = some d := by
  rw [entry, if_pos inTable, put, Descriptor.store, Memory.read32_write32_self,
    Memory.read32_write32_of_apart (by omega), Memory.read32_write32_self,
    Nat.mod_eq_of_lt d.low.isLt, Nat.mod_eq_of_lt d.high.isLt, BitVec.ofNat_toNat,
    BitVec.ofNat_toNat, BitVec.setWidth_eq, BitVec.setWidth_eq]

theorem entry_put_of_ne (isOther : target ≠ index) :
    table.entry target (table.put index d memory) = table.entry target memory := by
  apply entry_congr
  intro byte begins ends
  exact put_of_apart (by omega)

/-- A task state is loaded once. -/
theorem ltr_ltr {selector : BitVec 16} {loaded : Memory}
    (isLoaded : table.ltr selector memory = some loaded) : table.ltr selector loaded = none := by
  rw [ltr] at isLoaded
  rcases Option.bind_eq_some_iff.mp isLoaded with ⟨d, isEntry, isPut⟩
  split at isPut
  · next available =>
      cases isPut
      have inTable : 8 * (selector.toNat / 8) + 7 ≤ table.limit.toNat := by
        rw [entry] at isEntry
        split at isEntry
        · assumption
        · contradiction
      have busy : ({ d with high := d.high ||| 0x200 } : Descriptor).type = d.type ||| 2 :=
        BitVec.extractLsb'_or
      have type : d.type = 0x9 := by
        simp only [Bool.and_eq_true, decide_eq_true_eq] at available
        exact available.2
      rw [ltr, entry_put_self inTable, Option.bind_some, busy, type]
      simp
  · contradiction

/-- A table that is filled from its first entry on. -/
theorem entry_foldl_put (descriptors : ℕ → Descriptor) {count : ℕ}
    (fits : 8 * count ≤ table.limit.toNat + 1) (inTable : index < count) :
    table.entry index ((List.range count).foldl
      (fun memory i => table.put i (descriptors i) memory) memory) =
      some (descriptors index) := by
  induction count with
  | zero => exact absurd inTable (Nat.not_lt_zero _)
  | succ count ih =>
      rw [List.range_succ, List.foldl_append]
      rcases Nat.lt_succ_iff_lt_or_eq.mp inTable with isBefore | rfl
      · exact (entry_put_of_ne (Nat.ne_of_lt isBefore)).trans (ih (by omega) isBefore)
      · exact entry_put_self (by omega)

end TableRegister

end Ia32
