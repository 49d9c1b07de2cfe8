import Rkernel.Arch.PageTable
import Rkernel.Lib.Transition

/-!
# The kernel's half of the address spaces

The kernel is mapped into every address space (`vm/pmap.h`). `_i686_pmap_pdinit`
(`arch/i686/physmem.c`) begins a page directory by copying the entries of the kernel's half, once.
What keeps the address spaces the same from then on is that `pmap_init` has set these entries for
good: `pmap_enter` writes page tables only, which all directories share.

A run interleaves new directories, pages that are entered, changes to the window, and writes of
anybody else to frames that are no part of the kernel's translation.
-/

namespace Rkernel

namespace PhysMem

/-- The word that a load at an address reads; none means a page fault. -/
def load (mem : PhysMem) (va : Vaddr) : Option Paddr :=
  match mem.walk va with
  | none => none
  | some pte =>
      if pte &&& pteP = 0 then none
      else some (mem.readFrame (pteAddr pte) ((va &&& 0xfff) >>> 2))

/-- `_i686_pmap_pte_get` -/
def pmapPteGet (mem : PhysMem) (pa : Paddr) (i : BitVec 32) : Option (Paddr × PhysMem) :=
  match mem.mapFrame pa with
  | none => some (0, mem)
  | some (va, mapped) =>
      match mapped.load (va + (i <<< 2)) with
      | none => none
      | some pte => some (pte, mapped.unmapFrame va)

/-- A loop of `_i686_pmap_pdinit` from a directory entry on. -/
def pdinitLoop (entry : PhysMem → BitVec 32 → Paddr) (va : Vaddr) :
    (left i : ℕ) → PhysMem → Option PhysMem
  | 0, _, mem => some mem
  | left + 1, i, mem =>
      match mem.store (va + (BitVec.ofNat 32 i <<< 2)) (entry mem (BitVec.ofNat 32 i)) with
      | none => none
      | some stored => pdinitLoop entry va left (i + 1) stored

/-- `_i686_pmap_pdinit` -/
def pmapPdinit (mem : PhysMem) (pa : Paddr) : Option PhysMem :=
  match mem.mapFrame pa with
  | none => none
  | some (va, mapped) =>
      match pdinitLoop (fun _ _ => 0) va 768 0 mapped with
      | none => none
      | some cleared =>
          match pdinitLoop kernelPageDir va 256 768 cleared with
          | none => none
          | some copied => some (copied.unmapFrame va)

/-- The page table entry at an address in the address space of a directory. -/
def walkIn (mem : PhysMem) (directory : Paddr) (va : Vaddr) : Option Paddr :=
  let pde := mem.readFrame directory (pdx va)
  if pde &&& pteP = 0 then none else some (mem.readFrame (pteAddr pde) (ptx va))

/-- A frame that is no part of the kernel's translation. -/
structure Private (mem : PhysMem) (frame : Paddr) : Prop where
  behind : ∃ t, mem.framesBehind frame = t + 1 ∧ ¬t < 4
  notTable : ∀ i : BitVec 32, i.toNat < 1024 → mem.kernelPageDir i &&& pteP ≠ 0 →
    pteAddr (mem.kernelPageDir i) ≠ frame

def setFrame (mem : PhysMem) (frame : Paddr) (words : BitVec 32 → Paddr) : PhysMem :=
  { mem with frames := Function.update mem.frames frame words }

/-- What `_i686_pmap_pdinit` makes of a frame. -/
def newDirectory (mem : PhysMem) (frame : Paddr) (i : BitVec 32) : Paddr :=
  if i.toNat < 768 then 0
  else if i.toNat < 1024 then mem.kernelPageDir i
  else mem.frames frame i

section Frames

variable {mem : PhysMem} {frame : Paddr} {t : ℕ}

theorem writeFrame_eq_setFrame (behind : mem.framesBehind frame = t + 1) (notTable : ¬t < 4)
    (i : BitVec 32) (word : Paddr) :
    mem.writeFrame frame i word =
      mem.setFrame frame (Function.update (mem.frames frame) i word) := by
  simp only [writeFrame, behind, if_neg notTable]
  rfl

theorem readFrame_setFrame_self (behind : mem.framesBehind frame = t + 1) (notTable : ¬t < 4)
    (words : BitVec 32 → Paddr) : (mem.setFrame frame words).readFrame frame = words := by
  have same : (mem.setFrame frame words).framesBehind frame = t + 1 := behind
  funext i
  simp only [readFrame, same, if_neg notTable]
  exact congrFun (Function.update_self ..) i

theorem readFrame_setFrame_of_ne {other : Paddr} (isOther : other ≠ frame)
    (words : BitVec 32 → Paddr) :
    (mem.setFrame frame words).readFrame other = mem.readFrame other := by
  have same : (mem.setFrame frame words).framesBehind other = mem.framesBehind other := rfl
  have frames : (mem.setFrame frame words).frames other = mem.frames other :=
    Function.update_of_ne isOther ..
  funext i
  simp only [readFrame, same, frames]
  rfl

theorem setFrame_setFrame (words others : BitVec 32 → Paddr) :
    (mem.setFrame frame words).setFrame frame others = mem.setFrame frame others := by
  simp only [setFrame, Function.update_idem]

end Frames

section Pdinit

variable {mem : PhysMem} {pa : Paddr} {first t : ℕ}

/-- The memory with a frame mapped at an entry of the window. -/
def withMapping (mem : PhysMem) (first : ℕ) (pa : Paddr) : PhysMem :=
  { mem with kernelPageTable := withRun first 1 pa mem.kernelPageTable }

/-- A store in the page of a mapping writes the word of the frame. -/
theorem store_withMapping (aligned : mem.dirFrame.toNat % 4096 = 0)
    (intact : mem.kernelPageDir 771 = mem.tableFrame 3 ||| ptePw) (begins : kptmin ≤ first)
    (ends : first < kptmax) (behind : mem.framesBehind (pteAddr pa) = t + 1) (notTable : ¬t < 4)
    {i : BitVec 32} (inFrame : i.toNat < 1024) (word : Paddr) :
    (mem.withMapping first pa).store (slotAddress first + (i <<< 2)) word =
      some ((mem.setFrame (pteAddr pa)
        (Function.update (mem.frames (pteAddr pa)) i word)).withMapping first pa) := by
  obtain ⟨inPage, isWord⟩ := slotAddress_word ends inFrame
  have target := @storeFrame_window (mem.withMapping first pa) _ first aligned intact begins ends
    inPage pa (withRun_first first pa _)
  have same : (mem.withMapping first pa).framesBehind (pteAddr pa) = t + 1 := behind
  simp only [store, target, isWord]
  rw [writeFrame_eq_setFrame same notTable]
  rfl

theorem pdinitLoop_eq (aligned : mem.dirFrame.toNat % 4096 = 0)
    (intact : mem.kernelPageDir 771 = mem.tableFrame 3 ||| ptePw) (begins : kptmin ≤ first)
    (ends : first < kptmax) (behind : mem.framesBehind (pteAddr pa) = t + 1) (notTable : ¬t < 4)
    {entry : PhysMem → BitVec 32 → Paddr} {entries : BitVec 32 → Paddr}
    (isEntry : ∀ words, entry ((mem.setFrame (pteAddr pa) words).withMapping first pa) = entries)
    {left i : ℕ} (inFrame : i + left ≤ 1024) (words : BitVec 32 → Paddr) :
    pdinitLoop entry (slotAddress first) left i
        ((mem.setFrame (pteAddr pa) words).withMapping first pa) =
      some ((mem.setFrame (pteAddr pa) fun j =>
        if i ≤ j.toNat ∧ j.toNat < i + left then entries j else words j).withMapping first pa) := by
  induction left generalizing i words with
  | zero =>
      have same : (fun j : BitVec 32 =>
          if i ≤ j.toNat ∧ j.toNat < i + 0 then entries j else words j) = words := by
        funext j
        rw [if_neg (by omega)]
      rw [pdinitLoop, same]
  | succ left ih =>
      have index : (BitVec.ofNat 32 i).toNat = i := by
        rw [BitVec.toNat_ofNat]
        omega
      have isFrame : (mem.setFrame (pteAddr pa) words).frames (pteAddr pa) = words :=
        Function.update_self ..
      have stored := @store_withMapping (mem.setFrame (pteAddr pa) words) pa first t aligned intact
        begins ends behind notTable (BitVec.ofNat 32 i) (by omega)
        (entry ((mem.setFrame (pteAddr pa) words).withMapping first pa) (BitVec.ofNat 32 i))
      rw [isFrame, setFrame_setFrame] at stored
      rw [pdinitLoop, stored]
      simp only
      rw [ih (by omega), isEntry]
      congr 3
      funext j
      by_cases here : j = BitVec.ofNat 32 i
      · rw [if_neg (by rw [here]; omega), if_pos (by rw [here]; omega), here, Function.update_self]
      · have notIndex : j.toNat ≠ i := fun same => here (BitVec.eq_of_toNat_eq (by omega))
        rw [Function.update_of_ne here]
        congr 1
        apply propext
        omega

/-- A new directory has nothing below the kernel's half and the kernel's entries in it; there is
none only if the window is full. -/
theorem pmapPdinit_cases (aligned : mem.dirFrame.toNat % 4096 = 0)
    (intact : mem.kernelPageDir 771 = mem.tableFrame 3 ||| ptePw)
    (behind : mem.framesBehind (pteAddr pa) = t + 1) (notTable : ¬t < 4) :
    mem.pmapPdinit pa = some (mem.setFrame (pteAddr pa) (mem.newDirectory (pteAddr pa))) ∨
      (∀ first, ¬FreeRun mem.kernelPageTable first 1) ∧ mem.pmapPdinit pa = none := by
  rcases mem.mapFrame_cases pa with ⟨first, run, mapped⟩ | ⟨none, failed⟩
  · left
    have firstLt := run.first_lt (by omega)
    have asSet : mem.withMapping first pa =
        (mem.setFrame (pteAddr pa) (mem.frames (pteAddr pa))).withMapping first pa := by
      simp only [setFrame, Function.update_eq_self]
    have cleared := @pdinitLoop_eq mem pa first t aligned intact run.begins firstLt behind notTable
      (fun _ _ => 0) (fun _ => 0) (fun _ => rfl) 768 0 (by omega) (mem.frames (pteAddr pa))
    have copied := @pdinitLoop_eq mem pa first t aligned intact run.begins firstLt behind notTable
      kernelPageDir mem.kernelPageDir (fun _ => rfl) 256 768 (by omega)
      (fun j => if 0 ≤ j.toNat ∧ j.toNat < 0 + 768 then 0 else mem.frames (pteAddr pa) j)
    have words : (fun j : BitVec 32 => if 768 ≤ j.toNat ∧ j.toNat < 768 + 256 then
        mem.kernelPageDir j
        else if 0 ≤ j.toNat ∧ j.toNat < 0 + 768 then 0 else mem.frames (pteAddr pa) j) =
        mem.newDirectory (pteAddr pa) := by
      funext j
      rw [newDirectory]
      split_ifs
      all_goals first
        | rfl
        | omega
    change mem.mapFrame pa = some (slotAddress first, mem.withMapping first pa) at mapped
    rw [pmapPdinit, mapped]
    simp only
    rw [asSet, cleared]
    simp only
    rw [copied, words]
    simp only [unmapFrame, withMapping, setFrame, unmapPage_withRun run]
  · right
    refine ⟨none, ?_⟩
    rw [pmapPdinit, failed]

theorem pmapPdinit_of_erased (erased : mem.kernelPageDir 771 = 0) (pa : Paddr) :
    mem.pmapPdinit pa = none := by
  rcases mem.mapFrame_cases pa with ⟨first, run, mapped⟩ | ⟨-, failed⟩
  · have firstLt := run.first_lt (by omega)
    have inFrame : (BitVec.ofNat 32 0).toNat < 1024 := by decide
    have fault := @storeFrame_of_erased (mem.withMapping first pa) _ first run.begins firstLt
      (slotAddress_word firstLt inFrame).1 erased
    change mem.mapFrame pa = some (slotAddress first, mem.withMapping first pa) at mapped
    rw [pmapPdinit, mapped]
    simp only [pdinitLoop, store, fault]
  · rw [pmapPdinit, failed]

end Pdinit

section Entries

variable {mem next : PhysMem} {pa : Paddr} {first t : ℕ} {i j : BitVec 32} {pte : Paddr}

/-- A bit of an entry that is present and writable. -/
theorem and_bit_ne_zero {entry bit : Paddr} (isSet : entry &&& ptePw = ptePw)
    (isIn : ptePw &&& bit = bit) (nonzero : bit ≠ 0) : entry &&& bit ≠ 0 := by
  intro isClear
  have masked : entry &&& ptePw &&& bit = bit := by
    rw [isSet, isIn]
  rw [BitVec.and_assoc, isIn, isClear] at masked
  exact nonzero masked.symm

/-- Where a store goes to, a load reads from. -/
theorem load_of_storeFrame {va : Vaddr} {frame : Paddr} (target : mem.storeFrame va = some frame) :
    mem.load va = some (mem.readFrame frame ((va &&& 0xfff) >>> 2)) := by
  rw [storeFrame] at target
  split at target
  · contradiction
  · rename_i pte walked
    split at target
    · contradiction
    · rename_i allowed
      rw [not_or, not_not] at allowed
      have present : ¬pte &&& pteP = 0 := and_bit_ne_zero allowed.2 (by decide) (by decide)
      rw [load, walked]
      simp only [if_neg present]
      rw [Option.some.inj target]

theorem pmapPteGet_cases (aligned : mem.dirFrame.toNat % 4096 = 0)
    (intact : mem.kernelPageDir 771 = mem.tableFrame 3 ||| ptePw)
    (behind : mem.framesBehind (pteAddr pa) = t + 1) (notTable : ¬t < 4)
    (inFrame : i.toNat < 1024) :
    mem.pmapPteGet pa i = some (mem.readFrame (pteAddr pa) i, mem) ∨
      (∀ first, ¬FreeRun mem.kernelPageTable first 1) ∧ mem.pmapPteGet pa i = some (0, mem) := by
  rcases mem.mapFrame_cases pa with ⟨first, run, mapped⟩ | ⟨none, failed⟩
  · left
    have firstLt := run.first_lt (by omega)
    obtain ⟨inPage, isWord⟩ := slotAddress_word firstLt inFrame
    have target := @storeFrame_window (mem.withMapping first pa) _ first aligned intact run.begins
      firstLt inPage pa (withRun_first first pa _)
    have same : (mem.withMapping first pa).framesBehind (pteAddr pa) = t + 1 := behind
    have words : (mem.withMapping first pa).readFrame (pteAddr pa) i =
        mem.readFrame (pteAddr pa) i := by
      simp only [readFrame, same, behind, if_neg notTable]
      rfl
    change mem.mapFrame pa = some (slotAddress first, mem.withMapping first pa) at mapped
    rw [pmapPteGet, mapped]
    simp only
    rw [load_of_storeFrame target, isWord, words]
    simp only [unmapFrame, withMapping, unmapPage_withRun run]
  · right
    refine ⟨none, ?_⟩
    rw [pmapPteGet, failed]

/-- Behind `pmap_init`, an entry that is set in a frame outside of the kernel's translation is
read back, all other entries of the frame are read as before, and reading changes nothing. -/
theorem pmapPteGet_pmapPteSet (initialised : mem.Initialised)
    (isPrivate : mem.Private (pteAddr pa)) (inFrame : i.toNat < 1024) (jInFrame : j.toNat < 1024)
    (set : mem.pmapPteSet pa i pte = some next) :
    next.pmapPteGet pa j = some (if j = i then pte else mem.readFrame (pteAddr pa) j, next) := by
  have inv := initialised.inv
  rcases isPrivate.behind with ⟨t, behind, notTable⟩
  rcases inv.tables with intact | erased
  · rcases pmapPteSet_cases inv.aligned (intact 3 (by omega)) behind notTable inFrame pte with
      written | ⟨-, failed⟩
    · rw [written, Option.some.injEq, writeFrame_eq_setFrame behind notTable] at set
      subst set
      have before : mem.readFrame (pteAddr pa) j = mem.frames (pteAddr pa) j := by
        simp only [readFrame, behind, if_neg notTable]
      have words := congrFun (readFrame_setFrame_self behind notTable
        (Function.update (mem.frames (pteAddr pa)) i pte)) j
      rw [Function.update_apply] at words
      rw [before, ← words]
      rcases mem.mapFrame_cases pa with ⟨first, run, -⟩ | ⟨-, full⟩
      · rcases @pmapPteGet_cases (mem.setFrame (pteAddr pa) _) pa t j inv.aligned
          (intact 3 (by omega)) behind notTable jInFrame with got | ⟨full, -⟩
        · exact got
        · exact absurd run (full first)
      · rw [pmapPteSet, full] at written
        contradiction
    · rw [failed] at set
      contradiction
  · rw [pmapPteSet_of_erased erased pa inFrame] at set
    contradiction

end Entries

end PhysMem

/-- Physical memory and the frames of the page directories made so far. -/
structure AddressSpaces where
  mem : PhysMem
  directories : List Paddr

/-- What happens between two states: a new directory, a page entered for the kernel, any change
to the tables of `boot.s` (such as the use of the window), or a word written to another frame. -/
inductive AddressSpaceStep where
  | pdinit (pa : Paddr)
  | enter (va : Vaddr) (pa : Paddr) (prot : VmProt) (flags : BitVec 16)
  | remap (table : KernelPageTable)
  | write (frame : Paddr) (i : BitVec 32) (word : Paddr)

namespace AddressSpaces

/-- Directories are made in frames of their own, and the kernel's half of a directory is not
written by anybody else. -/
def Steps (spaces : AddressSpaces) (step : AddressSpaceStep) (next : AddressSpaces) : Prop :=
  match step with
  | .pdinit pa =>
      spaces.mem.Private (pteAddr pa) ∧
        ∃ mem, spaces.mem.pmapPdinit pa = some mem ∧ next = ⟨mem, pteAddr pa :: spaces.directories⟩
  | .enter va pa prot flags =>
      kernelVab ≤ va ∧ ∃ ret mem,
        spaces.mem.pmapEnter .pInstKernel va pa prot flags = some (ret, mem) ∧
        next = { spaces with mem := mem }
  | .remap table => next = { spaces with mem := { spaces.mem with kernelPageTable := table } }
  | .write frame i word =>
      spaces.mem.Private frame ∧ (frame ∈ spaces.directories → i.toNat < 768) ∧
        next = { spaces with mem := spaces.mem.writeFrame frame i word }

end AddressSpaces

/-- The runs behind `pmap_init`. -/
def addressSpaceSystem : TransitionSystem AddressSpaces AddressSpaceStep where
  init spaces := spaces.mem.Initialised ∧ spaces.mem.DistinctTables ∧ spaces.directories = []
  step := AddressSpaces.Steps

/-- The kernel is mapped in all directories as it is in its own one. -/
def AddressSpaces.Coherent (spaces : AddressSpaces) : Prop :=
  ∀ directory ∈ spaces.directories, ∀ va : Vaddr, 0xc0000000 ≤ va.toNat →
    spaces.mem.walkIn directory va = spaces.mem.walk va

/-- A new directory maps nothing below the kernel's half, and the kernel is mapped as before. -/
structure AddressSpaces.IsNew (spaces next : AddressSpaces) (directory : Paddr) : Prop where
  nothing : ∀ va : Vaddr, va.toNat < 0xc0000000 → next.mem.walkIn directory va = none
  kernel : ∀ va : Vaddr, next.mem.walk va = spaces.mem.walk va

section Runs

variable {spaces next : AddressSpaces} {mem : PhysMem} {frame : Paddr}

/-- The invariant of the runs. -/
structure AddressSpaces.Inv (spaces : AddressSpaces) : Prop where
  init : spaces.mem.InitInv 1024
  distinct : spaces.mem.DistinctTables
  isPrivate : ∀ directory ∈ spaces.directories, spaces.mem.Private directory
  copied : ∀ directory ∈ spaces.directories, ∀ i : BitVec 32, 768 ≤ i.toNat → i.toNat < 1024 →
    spaces.mem.readFrame directory i = spaces.mem.kernelPageDir i

namespace PhysMem

/-- Frames outside of the kernel's translation do not matter to it. -/
theorem walk_setFrame (isPrivate : mem.Private frame) (words : BitVec 32 → Paddr) (va : Vaddr) :
    (mem.setFrame frame words).walk va = mem.walk va := by
  have same : (mem.setFrame frame words).kernelPageDir = mem.kernelPageDir := rfl
  rw [walk, walk, same]
  by_cases absent : mem.kernelPageDir (pdx va) &&& pteP = 0
  · simp only [if_pos absent]
  · have vaLt := va.isLt
    have inDirectory : (pdx va).toNat < 1024 := by
      rw [toNat_pdx]
      omega
    simp only [if_neg absent]
    rw [readFrame_setFrame_of_ne (isPrivate.notTable _ inDirectory absent)]

theorem Private.setFrame (isPrivate : mem.Private frame) (other : Paddr)
    (words : BitVec 32 → Paddr) : (mem.setFrame other words).Private frame :=
  ⟨isPrivate.behind, isPrivate.notTable⟩

end PhysMem

namespace AddressSpaces

theorem Inv.coherent (inv : spaces.Inv) : spaces.Coherent := by
  intro directory isDirectory va above
  have vaLt := va.isLt
  have index : 768 ≤ (pdx va).toNat ∧ (pdx va).toNat < 1024 := by
    rw [toNat_pdx]
    omega
  rw [PhysMem.walkIn, PhysMem.walk, inv.copied directory isDirectory _ index.1 index.2]

theorem Inv.setFrame (inv : spaces.Inv) (words : BitVec 32 → Paddr)
    (kept : frame ∈ spaces.directories → ∀ i : BitVec 32, 768 ≤ i.toNat → i.toNat < 1024 →
      words i = spaces.mem.readFrame frame i) (isPrivate : spaces.mem.Private frame) :
    Inv { spaces with mem := spaces.mem.setFrame frame words } := by
  rcases isPrivate.behind with ⟨t, behind, notTable⟩
  refine ⟨inv.init.congr rfl rfl, inv.distinct, ?_, ?_⟩
  · intro directory isDirectory
    exact (inv.isPrivate directory isDirectory).setFrame frame words
  · intro directory isDirectory i above below
    have copied := inv.copied directory isDirectory i above below
    by_cases isFrame : directory = frame
    · subst directory
      change (spaces.mem.setFrame frame words).readFrame frame i = _
      rw [PhysMem.readFrame_setFrame_self behind notTable, kept isDirectory i above below]
      exact copied
    · change (spaces.mem.setFrame frame words).readFrame directory i = _
      rw [PhysMem.readFrame_setFrame_of_ne isFrame]
      exact copied

/-- A step of `_i686_pmap_pdinit` that returns has made a new directory. -/
theorem Inv.pdinit_eq (inv : spaces.Inv) {pa : Paddr} (isPrivate : spaces.mem.Private (pteAddr pa))
    (returned : spaces.mem.pmapPdinit pa = some mem) :
    mem = spaces.mem.setFrame (pteAddr pa) (spaces.mem.newDirectory (pteAddr pa)) := by
  rcases isPrivate.behind with ⟨t, behind, notTable⟩
  rcases inv.init.tables with intact | erased
  · rcases PhysMem.pmapPdinit_cases inv.init.aligned (intact 3 (by omega)) behind notTable with
      made | ⟨-, failed⟩
    · rw [made, Option.some.injEq] at returned
      exact returned.symm
    · rw [failed] at returned
      contradiction
  · rw [PhysMem.pmapPdinit_of_erased erased] at returned
    contradiction

theorem Inv.pdinit (inv : spaces.Inv) {pa : Paddr} (isPrivate : spaces.mem.Private (pteAddr pa))
    (returned : spaces.mem.pmapPdinit pa = some mem) :
    Inv ⟨mem, pteAddr pa :: spaces.directories⟩ := by
  rcases isPrivate.behind with ⟨t, behind, notTable⟩
  rcases inv.pdinit_eq isPrivate returned with rfl
  have entries : ∀ i : BitVec 32, 768 ≤ i.toNat → i.toNat < 1024 →
      spaces.mem.newDirectory (pteAddr pa) i = spaces.mem.kernelPageDir i := by
    intro i above below
    rw [PhysMem.newDirectory, if_neg (by omega), if_pos below]
  have kept := inv.setFrame (spaces.mem.newDirectory (pteAddr pa)) (by
    intro isDirectory i above below
    rw [entries i above below, inv.copied _ isDirectory i above below]) isPrivate
  refine ⟨kept.init, kept.distinct, ?_, ?_⟩
  · intro directory isDirectory
    rcases List.mem_cons.mp isDirectory with rfl | isOld
    · exact isPrivate.setFrame _ _
    · exact kept.isPrivate directory isOld
  · intro directory isDirectory i above below
    rcases List.mem_cons.mp isDirectory with rfl | isOld
    · rw [PhysMem.readFrame_setFrame_self behind notTable]
      exact entries i above below
    · exact kept.copied directory isOld i above below

theorem Inv.pdinit_isNew (inv : spaces.Inv) {pa : Paddr}
    (isPrivate : spaces.mem.Private (pteAddr pa)) (returned : spaces.mem.pmapPdinit pa = some mem) :
    spaces.IsNew ⟨mem, pteAddr pa :: spaces.directories⟩ (pteAddr pa) := by
  rcases isPrivate.behind with ⟨t, behind, notTable⟩
  rcases inv.pdinit_eq isPrivate returned with rfl
  constructor
  · intro va below
    have noTable : (0 : Paddr) &&& pteP = 0 := by decide
    have index : (pdx va).toNat < 768 := by
      rw [toNat_pdx]
      omega
    rw [PhysMem.walkIn, PhysMem.readFrame_setFrame_self behind notTable, PhysMem.newDirectory,
      if_pos index]
    simp only [if_pos noTable]
  · exact PhysMem.walk_setFrame isPrivate _

theorem Inv.enter (inv : spaces.Inv) {va : Vaddr} {pa : Paddr} {prot : VmProt} {flags : BitVec 16}
    {ret : ℤ} (above : kernelVab ≤ va)
    (returned : spaces.mem.pmapEnter .pInstKernel va pa prot flags = some (ret, mem)) :
    Inv { spaces with mem := mem } := by
  have begins : 0xc1000000 ≤ va.toNat := BitVec.le_def.mp above
  have vaLt := va.isLt
  have inDirectory : (pdx va).toNat < 1024 := by
    rw [toNat_pdx]
    omega
  rcases inv.init.pmapEnter_cases inv.distinct begins pa prot flags with
    ⟨-, unchanged⟩ | ⟨failed, -⟩ | ⟨-, present, t, behind, notTable, written⟩
  · rw [unchanged, Option.some.injEq, Prod.mk.injEq] at returned
    rw [← returned.2]
    exact inv
  · rw [failed] at returned
    contradiction
  · rw [written, Option.some.injEq, Prod.mk.injEq] at returned
    rw [← returned.2, PhysMem.writeFrame_eq_setFrame behind notTable]
    have apart : ∀ directory ∈ spaces.directories,
        directory ≠ pteAddr (spaces.mem.kernelPageDir (pdx va)) := by
      rintro directory isDirectory rfl
      exact (inv.isPrivate _ isDirectory).notTable _ inDirectory present rfl
    refine ⟨inv.init.congr rfl rfl, inv.distinct, ?_, ?_⟩
    · intro directory isDirectory
      exact (inv.isPrivate directory isDirectory).setFrame _ _
    · intro directory isDirectory i above below
      change (spaces.mem.setFrame _ _).readFrame directory i = _
      rw [PhysMem.readFrame_setFrame_of_ne (apart directory isDirectory)]
      exact inv.copied directory isDirectory i above below

theorem Inv.remap (inv : spaces.Inv) (table : KernelPageTable) :
    Inv { spaces with mem := { spaces.mem with kernelPageTable := table } } := by
  refine ⟨inv.init.congr rfl rfl, inv.distinct, ?_, ?_⟩
  · intro directory isDirectory
    exact ⟨(inv.isPrivate directory isDirectory).behind,
      (inv.isPrivate directory isDirectory).notTable⟩
  · intro directory isDirectory i above below
    rcases (inv.isPrivate directory isDirectory).behind with ⟨t, behind, notTable⟩
    have copied := inv.copied directory isDirectory i above below
    have same : PhysMem.framesBehind { spaces.mem with kernelPageTable := table } directory =
        t + 1 := behind
    simp only [PhysMem.readFrame, behind, if_neg notTable] at copied
    simp only [PhysMem.readFrame, same, if_neg notTable]
    exact copied

theorem Inv.step {step : AddressSpaceStep} (inv : spaces.Inv) (steps : spaces.Steps step next) :
    next.Inv := by
  cases step with
  | pdinit pa =>
      rcases steps with ⟨isPrivate, mem, returned, rfl⟩
      exact inv.pdinit isPrivate returned
  | enter va pa prot flags =>
      rcases steps with ⟨above, ret, mem, returned, rfl⟩
      exact inv.enter above returned
  | remap table =>
      rcases steps with rfl
      exact inv.remap table
  | write frame i word =>
      rcases steps with ⟨isPrivate, userHalf, rfl⟩
      rcases isPrivate.behind with ⟨t, behind, notTable⟩
      rw [PhysMem.writeFrame_eq_setFrame behind notTable]
      refine inv.setFrame _ ?_ isPrivate
      intro isDirectory j above below
      have notHere : j ≠ i := by
        rintro rfl
        have inUserHalf := userHalf isDirectory
        omega
      simp only [PhysMem.readFrame, behind, if_neg notTable]
      exact Function.update_of_ne notHere ..

theorem Inv.of_reachable (reachable : addressSpaceSystem.Reachable spaces) : spaces.Inv := by
  apply reachable.invariant
  · rintro start ⟨initialised, distinct, noDirectories⟩
    refine ⟨initialised.inv, distinct, ?_, ?_⟩
    · intro directory isDirectory
      rw [noDirectories] at isDirectory
      contradiction
    · intro directory isDirectory
      rw [noDirectories] at isDirectory
      contradiction
  · intro state step next inv steps
    exact inv.step steps

end AddressSpaces

end Runs

/-- In every run behind `pmap_init`, whatever is entered for the kernel and whatever frames
outside of its translation hold, all directories map the kernel's half as the kernel's directory
does, and a new directory maps nothing else. -/
theorem AddressSpaces.coherent_of_reachable {spaces : AddressSpaces}
    (reachable : addressSpaceSystem.Reachable spaces) :
    spaces.Coherent ∧ ∀ pa next, addressSpaceSystem.step spaces (.pdinit pa) next →
      next.Coherent ∧ spaces.IsNew next (pteAddr pa) := by
  have inv := Inv.of_reachable reachable
  refine ⟨inv.coherent, ?_⟩
  intro pa next steps
  have kept : next.Inv := @Inv.step spaces next (.pdinit pa) inv steps
  refine ⟨kept.coherent, ?_⟩
  rcases steps with ⟨isPrivate, mem, returned, rfl⟩
  exact inv.pdinit_isNew isPrivate returned

section FirstDirectory

theorem PhysMem.oneTable_private : PhysMem.oneTable.Private 0x500000 := by
  refine ⟨⟨767, by decide, by decide⟩, ?_⟩
  intro i inDirectory present sameFrame
  have index : i = BitVec.ofNat 32 i.toNat := by simp
  rw [index, oneTable_entry inDirectory] at present sameFrame
  by_cases isTable : i.toNat = 772
  · rw [if_pos isTable] at sameFrame
    revert sameFrame
    decide
  rw [if_neg isTable] at present sameFrame
  by_cases isBoot : 768 ≤ i.toNat ∧ i.toNat < 772
  · rw [if_pos isBoot] at sameFrame
    have cases : i.toNat = 768 ∨ i.toNat = 769 ∨ i.toNat = 770 ∨ i.toNat = 771 := by omega
    rcases cases with is | is | is | is
    all_goals
      rw [is] at sameFrame
      revert sameFrame
      decide
  · rw [if_neg isBoot] at present
    exact present (by decide)

theorem PhysMem.pmapPteGet_pmapPteSet_first :
    ∃ next, PhysMem.oneTable.pmapPteSet 0x500000 7 0x600003 = some next ∧
      next.pmapPteGet 0x500000 7 = some (0x600003, next) ∧
      next.pmapPteGet 0x500000 8 = some (0, next) := by
  obtain ⟨next, set⟩ : ∃ next, PhysMem.oneTable.pmapPteSet 0x500000 7 0x600003 = some next :=
    ⟨_, rfl⟩
  have isFrame : pteAddr 0x500000 = 0x500000 := by decide
  have isPrivate := PhysMem.oneTable_private
  rw [← isFrame] at isPrivate
  refine ⟨next, set, ?_, ?_⟩
  · exact pmapPteGet_pmapPteSet oneTable_initialised isPrivate (by decide) (by decide) set
  · exact pmapPteGet_pmapPteSet oneTable_initialised isPrivate (by decide) (by decide) set

theorem AddressSpaces.coherent_of_reachable_first :
    ∃ next, addressSpaceSystem.step ⟨PhysMem.oneTable, []⟩ (.pdinit 0x500000) next ∧
      next.Coherent ∧ AddressSpaces.IsNew ⟨PhysMem.oneTable, []⟩ next (pteAddr 0x500000) := by
  have start : addressSpaceSystem.Reachable ⟨PhysMem.oneTable, []⟩ :=
    .init ⟨PhysMem.oneTable_initialised, PhysMem.oneTable_distinctTables, rfl⟩
  have free : FreeRun PhysMem.oneTable.kernelPageTable 3072 1 :=
    ⟨by decide, by decide, fun _ _ => rfl⟩
  have isFrame : pteAddr 0x500000 = 0x500000 := by decide
  have behind : PhysMem.oneTable.framesBehind (pteAddr 0x500000) = 767 + 1 := by decide
  have isPrivate := PhysMem.oneTable_private
  rw [← isFrame] at isPrivate
  rcases @PhysMem.pmapPdinit_cases _ 0x500000 _ (by decide) (by decide) behind (by decide) with
    made | ⟨full, -⟩
  · refine ⟨_, ⟨isPrivate, _, made, rfl⟩, ?_⟩
    exact (coherent_of_reachable start).2 _ _ ⟨isPrivate, _, made, rfl⟩
  · exact absurd free (full 3072)

end FirstDirectory

end Rkernel
