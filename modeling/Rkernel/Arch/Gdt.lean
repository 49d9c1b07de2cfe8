import Rkernel.Lib.Ia32Tables
import Rkernel.Lib.Word

/-!
# Segments and gates

The descriptors of `x86/gdt.h`, with their fields in the order of the structures' bit-fields, and
the tables that `hal_initcpu` and `__i686_setup_idt` (`hal.c`) make of them. What is put into a
descriptor is what the processor reads from it; so kernel and user segments map every address to
itself, the segment of `%gs` begins at `cpu_local`, and every vector has the gate to its stub.
-/

namespace Rkernel

open Ia32

/-- `struct segdesc`. -/
structure Segdesc where
  lim15_0 : BitVec 16
  base15_0 : BitVec 16
  base23_16 : BitVec 8
  type : BitVec 4
  s : BitVec 1
  dpl : BitVec 2
  p : BitVec 1
  lim19_16 : BitVec 4
  avl : BitVec 1
  rsv1 : BitVec 1
  db : BitVec 1
  g : BitVec 1
  base31_24 : BitVec 8

/-- The structure in memory. -/
def Segdesc.descriptor (desc : Segdesc) : Descriptor where
  low := Bitfield.word 32 [⟨16, desc.lim15_0⟩, ⟨16, desc.base15_0⟩]
  high := Bitfield.word 32 [⟨8, desc.base23_16⟩, ⟨4, desc.type⟩, ⟨1, desc.s⟩, ⟨2, desc.dpl⟩,
    ⟨1, desc.p⟩, ⟨4, desc.lim19_16⟩, ⟨1, desc.avl⟩, ⟨1, desc.rsv1⟩, ⟨1, desc.db⟩, ⟨1, desc.g⟩,
    ⟨8, desc.base31_24⟩]

/-- `SEG`. -/
def seg (type : BitVec 4) (base lim : Word) (dpl : BitVec 2) : Segdesc where
  lim15_0 := ((lim >>> 12) &&& 0xffff).setWidth 16
  base15_0 := (base &&& 0xffff).setWidth 16
  base23_16 := ((base >>> 16) &&& 0xff).setWidth 8
  type := type
  s := 1
  dpl := dpl
  p := 1
  lim19_16 := (lim >>> 28).setWidth 4
  avl := 0
  rsv1 := 0
  db := 1
  g := 1
  base31_24 := (base >>> 24).setWidth 8

/-- `SEG16`. -/
def seg16 (type : BitVec 4) (base lim : Word) (dpl : BitVec 2) : Segdesc where
  lim15_0 := (lim &&& 0xffff).setWidth 16
  base15_0 := (base &&& 0xffff).setWidth 16
  base23_16 := ((base >>> 16) &&& 0xff).setWidth 8
  type := type
  s := 1
  dpl := dpl
  p := 1
  lim19_16 := (lim >>> 16).setWidth 4
  avl := 0
  rsv1 := 0
  db := 1
  g := 0
  base31_24 := (base >>> 24).setWidth 8

/-- `struct gatedesc`. -/
structure Gatedesc where
  off15_0 : BitVec 16
  cs : BitVec 16
  args : BitVec 5
  rsv1 : BitVec 3
  type : BitVec 4
  s : BitVec 1
  dpl : BitVec 2
  p : BitVec 1
  off31_16 : BitVec 16

/-- The structure in memory. -/
def Gatedesc.descriptor (desc : Gatedesc) : Descriptor where
  low := Bitfield.word 32 [⟨16, desc.off15_0⟩, ⟨16, desc.cs⟩]
  high := Bitfield.word 32 [⟨5, desc.args⟩, ⟨3, desc.rsv1⟩, ⟨4, desc.type⟩, ⟨1, desc.s⟩,
    ⟨2, desc.dpl⟩, ⟨1, desc.p⟩, ⟨16, desc.off31_16⟩]

def stsT32A : BitVec 4 := 0x9
def stsIG32 : BitVec 4 := 0xe
def stsTG32 : BitVec 4 := 0xf
def staX : BitVec 4 := 0x8
def staW : BitVec 4 := 0x2
def staR : BitVec 4 := 0x2
def dplUser : BitVec 2 := 0x3

def segKcode : ℕ := 1
def segKdata : ℕ := 2
def segKcpu : ℕ := 3
def segUcode : ℕ := 4
def segUdata : ℕ := 5
def segTss : ℕ := 6
def nsegs : ℕ := 7

/-- The selector `index << 3`. -/
def selector (index : ℕ) : BitVec 16 :=
  BitVec.ofNat 16 (index <<< 3)

/-- `SETGATE`, which assigns every field. -/
def setgate (istrap : Bool) (sel : BitVec 16) (off : Word) (d : BitVec 2) : Gatedesc where
  off15_0 := (off &&& 0xffff).setWidth 16
  cs := sel
  args := 0
  rsv1 := 0
  type := if istrap then stsTG32 else stsIG32
  s := 0
  dpl := d
  p := 1
  off31_16 := (off >>> 16).setWidth 16

/-- `lgdt` and `lidt`: the halfwords `pd[0]`, `pd[1]` and `pd[2]`, and the register that the
processor loads from them. -/
def loadTable (p : Word) (size : ℕ) : TableRegister :=
  let pd0 := BitVec.ofNat 16 (size - 1)
  let pd1 := (p &&& 0xffff).setWidth 16
  let pd2 := ((p >>> 16) &&& 0xffff).setWidth 16
  ⟨Bitfield.word 32 [⟨16, pd1⟩, ⟨16, pd2⟩], pd0⟩

/-- The tables of `hal_initcpu`, from the addresses of the table, of the task state and of
`cpu_local`. -/
def halInitcpu (gdt tss cpuLocal : Word) (memory : Memory) : TableRegister × Memory :=
  let table := loadTable gdt (8 * nsegs)
  let flat := 0xffffffff
  let memory := table.put segKcode (seg (staX ||| staR) 0 flat 0).descriptor memory
  let memory := table.put segKdata (seg staW 0 flat 0).descriptor memory
  let memory := table.put segUcode (seg (staX ||| staR) 0 flat dplUser).descriptor memory
  let memory := table.put segUdata (seg staW 0 flat dplUser).descriptor memory
  let tssSegment := seg16 stsT32A tss (104 - 1) 0
  let memory := table.put segTss tssSegment.descriptor memory
  let memory := table.put segTss { tssSegment with s := 0 }.descriptor memory
  let memory := table.put segKcpu (seg staW cpuLocal 12 0).descriptor memory
  (table, memory)

/-- The loop of `__i686_setup_idt` up to a vector. -/
def setupGates (table : TableRegister) (i686Vectors : ℕ → Word) (count : ℕ) (memory : Memory) :
    Memory :=
  (List.range count).foldl (fun memory i =>
    table.put i (setgate false (selector segKcode) (i686Vectors i) 0).descriptor memory) memory

/-- `__i686_setup_idt`, from the addresses of the table and of the vectors' stubs. -/
def i686SetupIdt (idt : Word) (i686Vectors : ℕ → Word) (memory : Memory) :
    TableRegister × Memory :=
  let table := loadTable idt (8 * 256)
  (table, setupGates table i686Vectors 256 memory)

section Fields

/-- A field that is masked and shifted out of a word is a stretch of its bits. -/
theorem maskedField {mask : Word} {k : ℕ} (isMask : mask.IsLowMask k) (word : Word) (start : ℕ) :
    ((word >>> start) &&& mask).setWidth k = word.extractLsb' start k := by
  apply BitVec.eq_of_getLsbD_eq
  intro i inField
  simp [isMask.getLsbD, inField]

theorem maskedLowField {mask : Word} {k : ℕ} (isMask : mask.IsLowMask k) (word : Word) :
    (word &&& mask).setWidth k = word.extractLsb' 0 k := by
  simpa using maskedField isMask word 0

theorem highField (word : Word) (start k : ℕ) :
    (word >>> start).setWidth k = word.extractLsb' start k := by
  apply BitVec.eq_of_getLsbD_eq
  intro i inField
  simp [inField]

/-- The halves of a word, put together again. -/
theorem word_halves (word : Word) :
    Bitfield.word 32 [⟨16, word.extractLsb' 0 16⟩, ⟨16, word.extractLsb' 16 16⟩] = word :=
  (@Bitfield.word_pieces 32 word 0 [16, 16] (Nat.le_refl 32)).trans
    (BitVec.ushiftRight_zero word)

/-- The three pieces of a base address, put together again. -/
theorem word_basePieces (word : Word) :
    Bitfield.word 32 [⟨16, word.extractLsb' 0 16⟩, ⟨8, word.extractLsb' 16 8⟩,
      ⟨8, word.extractLsb' 24 8⟩] = word :=
  (@Bitfield.word_pieces 32 word 0 [16, 8, 8] (Nat.le_refl 32)).trans
    (BitVec.ushiftRight_zero word)

/-- The two pieces of a limit in pages, put together again. -/
theorem word_limitPieces (word : Word) :
    Bitfield.word 32 [⟨16, word.extractLsb' 12 16⟩, ⟨4, word.extractLsb' 28 4⟩] = word >>> 12 :=
  @Bitfield.word_pieces 32 word 12 [16, 4] (Nat.le_refl 32)

end Fields

namespace Segdesc

variable (desc : Segdesc)

theorem descriptor_base :
    desc.descriptor.base =
      Bitfield.word 32 [⟨16, desc.base15_0⟩, ⟨8, desc.base23_16⟩, ⟨8, desc.base31_24⟩] := by
  have low : desc.descriptor.low.extractLsb' 16 16 = desc.base15_0 :=
    Bitfield.extractLsb'_word [⟨16, _⟩] desc.base15_0 [] (Nat.le_refl 32)
  have middle : desc.descriptor.high.extractLsb' 0 8 = desc.base23_16 :=
    Bitfield.extractLsb'_word [] desc.base23_16 _ (Nat.le_refl 32)
  have high : desc.descriptor.high.extractLsb' 24 8 = desc.base31_24 :=
    Bitfield.extractLsb'_word [⟨8, _⟩, ⟨4, _⟩, ⟨1, _⟩, ⟨2, _⟩, ⟨1, _⟩, ⟨4, _⟩, ⟨1, _⟩, ⟨1, _⟩,
      ⟨1, _⟩, ⟨1, _⟩] desc.base31_24 [] (Nat.le_refl 32)
  rw [Descriptor.base, low, middle, high]

theorem descriptor_limit :
    desc.descriptor.limit =
      let units := Bitfield.word 32 [⟨16, desc.lim15_0⟩, ⟨4, desc.lim19_16⟩]
      if desc.g = 1 then (units <<< 12) ||| 0xfff else units := by
  have low : desc.descriptor.low.extractLsb' 0 16 = desc.lim15_0 :=
    Bitfield.extractLsb'_word [] desc.lim15_0 _ (Nat.le_refl 32)
  have high : desc.descriptor.high.extractLsb' 16 4 = desc.lim19_16 :=
    Bitfield.extractLsb'_word [⟨8, _⟩, ⟨4, _⟩, ⟨1, _⟩, ⟨2, _⟩, ⟨1, _⟩] desc.lim19_16 _
      (Nat.le_refl 32)
  have granularity : desc.descriptor.high.extractLsb' 23 1 = desc.g :=
    Bitfield.extractLsb'_word [⟨8, _⟩, ⟨4, _⟩, ⟨1, _⟩, ⟨2, _⟩, ⟨1, _⟩, ⟨4, _⟩, ⟨1, _⟩, ⟨1, _⟩,
      ⟨1, _⟩] desc.g _ (Nat.le_refl 32)
  rw [Descriptor.limit, low, high, granularity]

theorem descriptor_access :
    desc.descriptor.type = desc.type ∧ desc.descriptor.privilege = desc.dpl ∧
      desc.descriptor.isSystem = (desc.s = 0 : Bool) ∧
      desc.descriptor.isPresent = (desc.p = 1 : Bool) := by
  have type : desc.descriptor.high.extractLsb' 8 4 = desc.type :=
    Bitfield.extractLsb'_word [⟨8, _⟩] desc.type _ (Nat.le_refl 32)
  have system : desc.descriptor.high.extractLsb' 12 1 = desc.s :=
    Bitfield.extractLsb'_word [⟨8, _⟩, ⟨4, _⟩] desc.s _ (Nat.le_refl 32)
  have privilege : desc.descriptor.high.extractLsb' 13 2 = desc.dpl :=
    Bitfield.extractLsb'_word [⟨8, _⟩, ⟨4, _⟩, ⟨1, _⟩] desc.dpl _ (Nat.le_refl 32)
  have present : desc.descriptor.high.extractLsb' 15 1 = desc.p :=
    Bitfield.extractLsb'_word [⟨8, _⟩, ⟨4, _⟩, ⟨1, _⟩, ⟨2, _⟩] desc.p _ (Nat.le_refl 32)
  refine ⟨type, privilege, ?_, ?_⟩
  · rw [Descriptor.isSystem, system]
  · rw [Descriptor.isPresent, present]

end Segdesc

section Segments

variable (type : BitVec 4) (base lim : Word) (dpl : BitVec 2)

theorem lowMask_ffff : BitVec.IsLowMask (0xffff : Word) 16 := rfl

theorem lowMask_ff : BitVec.IsLowMask (0xff : Word) 8 := rfl

theorem lowMask_fff : BitVec.IsLowMask (0xfff : Word) 12 := rfl

theorem seg_base : (seg type base lim dpl).descriptor.base = base := by
  have low : (seg type base lim dpl).base15_0 = base.extractLsb' 0 16 :=
    maskedLowField lowMask_ffff base
  have middle : (seg type base lim dpl).base23_16 = base.extractLsb' 16 8 :=
    maskedField lowMask_ff base 16
  have high : (seg type base lim dpl).base31_24 = base.extractLsb' 24 8 := highField base 24 8
  rw [Segdesc.descriptor_base, low, middle, high, word_basePieces]

theorem seg16_base : (seg16 type base lim dpl).descriptor.base = base := by
  have low : (seg16 type base lim dpl).base15_0 = base.extractLsb' 0 16 :=
    maskedLowField lowMask_ffff base
  have middle : (seg16 type base lim dpl).base23_16 = base.extractLsb' 16 8 :=
    maskedField lowMask_ff base 16
  have high : (seg16 type base lim dpl).base31_24 = base.extractLsb' 24 8 := highField base 24 8
  rw [Segdesc.descriptor_base, low, middle, high, word_basePieces]

/-- A limit in pages reaches to the end of the page of the last offset. -/
theorem seg_limit : (seg type base lim dpl).descriptor.limit = lim ||| 0xfff := by
  have low : (seg type base lim dpl).lim15_0 = lim.extractLsb' 12 16 :=
    maskedField lowMask_ffff lim 12
  have high : (seg type base lim dpl).lim19_16 = lim.extractLsb' 28 4 := highField lim 28 4
  have inPages : (seg type base lim dpl).descriptor.limit =
      ((lim >>> 12) <<< 12) ||| 0xfff := by
    rw [Segdesc.descriptor_limit, low, high, word_limitPieces]
    rfl
  rw [inPages, ← lowMask_fff.and_not]
  apply BitVec.eq_of_getLsbD_eq
  intro i inWord
  rw [BitVec.getLsbD_or, BitVec.getLsbD_or, BitVec.getLsbD_and, BitVec.getLsbD_not,
    lowMask_fff.getLsbD]
  by_cases inPage : i < 12
  · simp [inPage]
  · simp [inPage, inWord]

theorem seg16_limit (fits : lim.toNat < 2 ^ 20) :
    (seg16 type base lim dpl).descriptor.limit = lim := by
  have low : (seg16 type base lim dpl).lim15_0 = lim.extractLsb' 0 16 :=
    maskedLowField lowMask_ffff lim
  have high : (seg16 type base lim dpl).lim19_16 = lim.extractLsb' 16 4 := highField lim 16 4
  have packed := Bitfield.pack_pieces lim 0 [16, 4]
  rw [Nat.pow_zero, Nat.div_one] at packed
  have inBytes : (seg16 type base lim dpl).descriptor.limit =
      Bitfield.word 32 (Bitfield.pieces lim 0 [16, 4]) := by
    rw [Segdesc.descriptor_limit, low, high]
    rfl
  rw [inBytes, Bitfield.word, packed]
  exact (congrArg (BitVec.ofNat 32) (Nat.mod_eq_of_lt fits)).trans
    (BitVec.ofNat_toNat 32 lim ▸ BitVec.setWidth_eq lim)

end Segments

section Gates

variable (sel : BitVec 16) (off : Word) (d : BitVec 2)

/-- A gate that is not for traps is the interrupt gate to its handler. -/
theorem setgate_gate : (setgate false sel off d).descriptor.gate = some ⟨sel, off⟩ := by
  let desc := setgate false sel off d
  have offLow : desc.descriptor.low.extractLsb' 0 16 = off.extractLsb' 0 16 :=
    (Bitfield.extractLsb'_word [] desc.off15_0 _ (Nat.le_refl 32)).trans
      (maskedLowField lowMask_ffff off)
  have cs : desc.descriptor.low.extractLsb' 16 16 = sel :=
    Bitfield.extractLsb'_word [⟨16, desc.off15_0⟩] sel [] (Nat.le_refl 32)
  have offHigh : desc.descriptor.high.extractLsb' 16 16 = off.extractLsb' 16 16 :=
    (Bitfield.extractLsb'_word [⟨5, _⟩, ⟨3, _⟩, ⟨4, _⟩, ⟨1, _⟩, ⟨2, _⟩, ⟨1, _⟩] desc.off31_16 []
      (Nat.le_refl 32)).trans (highField off 16 16)
  have type : desc.descriptor.type = 0xe :=
    Bitfield.extractLsb'_word [⟨5, _⟩, ⟨3, _⟩] desc.type _ (Nat.le_refl 32)
  have system : desc.descriptor.high.extractLsb' 12 1 = 0 :=
    Bitfield.extractLsb'_word [⟨5, _⟩, ⟨3, _⟩, ⟨4, _⟩] desc.s _ (Nat.le_refl 32)
  have present : desc.descriptor.high.extractLsb' 15 1 = 1 :=
    Bitfield.extractLsb'_word [⟨5, _⟩, ⟨3, _⟩, ⟨4, _⟩, ⟨1, _⟩, ⟨2, _⟩] desc.p _ (Nat.le_refl 32)
  change desc.descriptor.gate = some ⟨sel, off⟩
  rw [Descriptor.gate, Descriptor.isPresent, Descriptor.isSystem, type, system, present, offLow,
    offHigh, cs, word_halves]
  rfl

/-- A table register as the pseudo-descriptor gives it. -/
theorem loadTable_eq (p : Word) (size : ℕ) :
    loadTable p size = ⟨p, BitVec.ofNat 16 (size - 1)⟩ := by
  rw [loadTable, maskedLowField lowMask_ffff, maskedField lowMask_ffff, word_halves]

end Gates

section Tables

variable {gdt tss cpuLocal idt : Word} {memory : Memory}

/-- What `hal_initcpu` has put into the entries. -/
theorem halInitcpu_entries :
    let table := (halInitcpu gdt tss cpuLocal memory).1
    let memory := (halInitcpu gdt tss cpuLocal memory).2
    table.entry segKcode memory = some (seg (staX ||| staR) 0 0xffffffff 0).descriptor ∧
      table.entry segKdata memory = some (seg staW 0 0xffffffff 0).descriptor ∧
      table.entry segUcode memory = some (seg (staX ||| staR) 0 0xffffffff dplUser).descriptor ∧
      table.entry segUdata memory = some (seg staW 0 0xffffffff dplUser).descriptor ∧
      table.entry segTss memory =
        some { seg16 stsT32A tss (104 - 1) 0 with s := 0 }.descriptor ∧
      table.entry segKcpu memory = some (seg staW cpuLocal 12 0).descriptor := by
  have limit : ∀ index < nsegs,
      8 * index + 7 ≤ (halInitcpu gdt tss cpuLocal memory).1.limit.toNat := by
    intro index inTable
    rw [halInitcpu, loadTable_eq]
    change 8 * index + 7 ≤ 55
    change index < 7 at inTable
    omega
  have other {table : TableRegister} {index target : ℕ} {d : Descriptor} {memory : Memory}
      {found : Option Descriptor} (isOther : target ≠ index)
      (before : table.entry target memory = found) :
      table.entry target (table.put index d memory) = found :=
    (TableRegister.entry_put_of_ne isOther).trans before
  refine ⟨?_, ?_, ?_, ?_, ?_, ?_⟩
  · refine other (by decide) (other (by decide) (other (by decide) (other (by decide)
      (other (by decide) (other (by decide) ?_)))))
    exact TableRegister.entry_put_self (limit segKcode (by decide))
  · refine other (by decide) (other (by decide) (other (by decide) (other (by decide)
      (other (by decide) ?_))))
    exact TableRegister.entry_put_self (limit segKdata (by decide))
  · refine other (by decide) (other (by decide) (other (by decide) (other (by decide) ?_)))
    exact TableRegister.entry_put_self (limit segUcode (by decide))
  · refine other (by decide) (other (by decide) (other (by decide) ?_))
    exact TableRegister.entry_put_self (limit segUdata (by decide))
  · refine other (by decide) ?_
    exact TableRegister.entry_put_self (limit segTss (by decide))
  · exact TableRegister.entry_put_self (limit segKcpu (by decide))

/-- A flat segment maps every address to itself. -/
theorem linear_flat (type : BitVec 4) (dpl : BitVec 2) (offset : Word) :
    (seg type 0 0xffffffff dpl).descriptor.linear offset = some offset := by
  have inside : offset ≤ (0xffffffff : Word) ||| 0xfff := Nat.le_of_lt_succ offset.isLt
  rw [Descriptor.linear, seg_limit, seg_base, if_pos inside]
  exact congrArg some (BitVec.zero_add offset)

/-- The processor sees the address space as it is in the kernel's and in the users' segments,
the page from `cpu_local` on in the segment of the CPU, and the task state in its segment. -/
theorem halInitcpu_linear (gdt tss cpuLocal : Word) (memory : Memory) :
    let table := (halInitcpu gdt tss cpuLocal memory).1
    let memory := (halInitcpu gdt tss cpuLocal memory).2
    (∀ segment ∈ [(segKcode, 0), (segKdata, 0), (segUcode, dplUser), (segUdata, dplUser)],
      ∃ d, table.entry segment.1 memory = some d ∧ d.privilege = segment.2 ∧
        d.isPresent = true ∧ d.isSystem = false ∧ ∀ offset, d.linear offset = some offset) ∧
    (∃ d, table.entry segKcpu memory = some d ∧ d.privilege = 0 ∧ d.isPresent = true ∧
      d.isSystem = false ∧
      ∀ offset, d.linear offset = if offset < 0x1000 then some (cpuLocal + offset) else none) ∧
    (∃ d, table.entry segTss memory = some d ∧ d.type = stsT32A ∧ d.isPresent = true ∧
      d.isSystem = true ∧
      ∀ offset, d.linear offset = if offset < 104 then some (tss + offset) else none) ∧
    (∀ index, nsegs ≤ index → table.entry index memory = none) := by
  rcases @halInitcpu_entries gdt tss cpuLocal memory with
    ⟨kcode, kdata, ucode, udata, isTss, kcpu⟩
  have ofSeg (type : BitVec 4) (base lim : Word) (dpl : BitVec 2) :=
    Segdesc.descriptor_access (seg type base lim dpl)
  refine ⟨?_, ?_, ?_, ?_⟩
  · intro segment isFlat
    simp only [List.mem_cons, List.not_mem_nil, or_false] at isFlat
    rcases isFlat with rfl | rfl | rfl | rfl
    · rcases ofSeg (staX ||| staR) 0 0xffffffff 0 with ⟨-, privilege, system, present⟩
      exact ⟨_, kcode, privilege, present, system, linear_flat _ _⟩
    · rcases ofSeg staW 0 0xffffffff 0 with ⟨-, privilege, system, present⟩
      exact ⟨_, kdata, privilege, present, system, linear_flat _ _⟩
    · rcases ofSeg (staX ||| staR) 0 0xffffffff dplUser with ⟨-, privilege, system, present⟩
      exact ⟨_, ucode, privilege, present, system, linear_flat _ _⟩
    · rcases ofSeg staW 0 0xffffffff dplUser with ⟨-, privilege, system, present⟩
      exact ⟨_, udata, privilege, present, system, linear_flat _ _⟩
  · rcases ofSeg staW cpuLocal 12 0 with ⟨-, privilege, system, present⟩
    refine ⟨_, kcpu, privilege, present, system, ?_⟩
    intro offset
    rw [Descriptor.linear, seg_limit, seg_base]
    exact if_congr (@Nat.lt_succ_iff offset.toNat 0xfff).symm rfl rfl
  · let desc : Segdesc := { seg16 stsT32A tss (104 - 1) 0 with s := 0 }
    rcases Segdesc.descriptor_access desc with ⟨type, -, system, present⟩
    have base : desc.descriptor.base = tss := by
      have plain := seg16_base stsT32A tss (104 - 1) 0
      rw [Segdesc.descriptor_base] at plain ⊢
      exact plain
    have limit : desc.descriptor.limit = 104 - 1 := by
      have plain := seg16_limit stsT32A tss (104 - 1) 0 (by decide)
      rw [Segdesc.descriptor_limit] at plain ⊢
      exact plain
    refine ⟨_, isTss, type, present, system, ?_⟩
    intro offset
    have linear : desc.descriptor.linear offset =
        if offset ≤ 104 - 1 then some (tss + offset) else none := by
      rw [Descriptor.linear, limit, base]
    exact linear.trans (if_congr (@Nat.lt_succ_iff offset.toNat 103).symm rfl rfl)
  · intro index beyond
    rw [halInitcpu, loadTable_eq]
    refine if_neg (Nat.not_le_of_lt ?_)
    change 7 ≤ index at beyond
    change 55 < 8 * index + 7
    omega

theorem entry_setupGates {table : TableRegister} (i686Vectors : ℕ → Word) {count vector : ℕ}
    (fits : 8 * count ≤ table.limit.toNat + 1) (isVector : vector < count) :
    table.entry vector (setupGates table i686Vectors count memory) =
      some (setgate false (selector segKcode) (i686Vectors vector) 0).descriptor :=
  TableRegister.entry_foldl_put
    (fun i => (setgate false (selector segKcode) (i686Vectors i) 0).descriptor) fits isVector

/-- `__i686_setup_idt` gives every vector the interrupt gate to its stub, also after memory
outside of the table has been changed. -/
theorem i686SetupIdt_interrupt {i686Vectors : ℕ → Word} {m : Machine}
    (same : ∀ byte, idt.toNat ≤ byte → byte < idt.toNat + 8 * 256 →
      m.memory byte = (i686SetupIdt idt i686Vectors memory).2 byte)
    (ss0 : BitVec 16) (esp0 : Word) {vector : ℕ} (isVector : vector < 256)
    (errorCode : Option Word) :
    interrupt (i686SetupIdt idt i686Vectors memory).1 ss0 esp0 vector errorCode m =
      some (deliver ⟨selector segKcode, i686Vectors vector⟩ ss0 esp0 errorCode m) := by
  let table := loadTable idt (8 * 256)
  have isTable : table = ⟨idt, BitVec.ofNat 16 (8 * 256 - 1)⟩ := loadTable_eq idt (8 * 256)
  have base : table.base = idt := congrArg TableRegister.base isTable
  have limit : table.limit.toNat = 8 * 256 - 1 := by
    rw [isTable]
    rfl
  have isSecond : (i686SetupIdt idt i686Vectors memory).2 =
      setupGates table i686Vectors 256 memory := by
    rw [i686SetupIdt]
  rw [isSecond] at same
  have filled : table.entry vector (setupGates table i686Vectors 256 memory) =
      some (setgate false (selector segKcode) (i686Vectors vector) 0).descriptor :=
    entry_setupGates i686Vectors (by omega) isVector
  have found : table.entry vector m.memory =
      some (setgate false (selector segKcode) (i686Vectors vector) 0).descriptor := by
    refine Eq.trans ?_ filled
    apply TableRegister.entry_congr
    rw [base]
    intro byte begins ends
    exact same byte (by omega) (by omega)
  have isFirst : (i686SetupIdt idt i686Vectors memory).1 = table := rfl
  rw [interrupt, isFirst, found, Option.bind_some, setgate_gate, Option.map_some]

end Tables

end Rkernel
