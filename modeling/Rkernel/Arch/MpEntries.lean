import Rkernel.Arch.MpConfig

/-!
# The entries of the MP configuration table

The entries of a table as they stand in the list of the bytes of its body, and the walk of
`mpinit` over them. The walk tests its bound at the first byte of an entry only; an entry of a
processor has 20 bytes, all others have 8. It counts all processors but records the first 256.
-/

open Stretch

namespace Rkernel

namespace Mp

/-- An entry of a table, with the bytes of the body from its first one on. -/
structure MpEntry where
  type : Byte
  bytes : List Byte

namespace MpEntry

def size (type : Byte) : ℕ :=
  if type = mpProc then 20 else 8

def apicid (entry : MpEntry) : Byte :=
  entry.bytes.getD 1 0

def flags (entry : MpEntry) : Byte :=
  entry.bytes.getD 3 0

def addr (entry : MpEntry) : BitVec 32 :=
  int32 (entry.bytes.getD 4 0) (entry.bytes.getD 5 0) (entry.bytes.getD 6 0)
    (entry.bytes.getD 7 0)

end MpEntry

/-- The entries of a body behind some bytes that are skipped, up to the first one of an unknown
type. -/
def mpEntries : (skip : ℕ) → List Byte → List MpEntry
  | _, [] => []
  | skip + 1, _ :: rest => mpEntries skip rest
  | 0, type :: rest =>
      ⟨type, type :: rest⟩ ::
        if type ≤ mpLintr then mpEntries (MpEntry.size type - 1) rest else []

/-- The processor entries among some entries. -/
def processors (entries : List MpEntry) : List MpEntry :=
  entries.filter (·.type = mpProc)

/-- The I/O APIC entries among some entries. -/
def ioapics (entries : List MpEntry) : List MpEntry :=
  entries.filter (·.type = mpIoapic)

/-- The address of the last I/O APIC, 0 if there is none. -/
def ioapicAddress (entries : List MpEntry) : BitVec 32 :=
  ((ioapics entries).getLast?.map MpEntry.addr).getD 0

/-- The fields that are read of the entries end inside the body; `count` processors have been
recorded before. -/
structure Inside (count : ℕ) (entries : List MpEntry) : Prop where
  processors : ∀ entry ∈ (processors entries).take (256 - count), 4 ≤ entry.bytes.length
  ioapics : ∀ entry ∈ ioapics entries, 8 ≤ entry.bytes.length

/-- The entries and the address of the local APIC are those of a multiprocessor system. -/
structure DescribesMp (entries : List MpEntry) (lapicaddr : BitVec 32) : Prop where
  known : ∀ entry ∈ entries, entry.type ≤ mpLintr
  processor : processors entries ≠ []
  ioapic : 0xfe000000 ≤ ioapicAddress entries
  localApic : 0xfe000000 ≤ lapicaddr

/-- The variables after an entry whose fields have been read. -/
def note (globals : Globals) (entry : MpEntry) : Globals :=
  if entry.type = mpProc then
    if globals.i686Ncpu < 256 then
      { globals with
        i686CpuApics := Function.update globals.i686CpuApics globals.i686Ncpu.toNat entry.apicid
        i686BootCpu := if entry.flags &&& mpBoot ≠ 0 then globals.i686Ncpu else globals.i686BootCpu
        i686Ncpu := globals.i686Ncpu + 1 }
    else { globals with i686Ncpu := globals.i686Ncpu + 1 }
  else if entry.type = mpIoapic then
    { globals with
      i686IoapicHas := 0
      i686IoapicId := entry.apicid
      i686Ioapic := entry.addr }
  else globals

/-- The fields that are read of an entry end inside the body. -/
structure Readable (globals : Globals) (entry : MpEntry) : Prop where
  processor : entry.type = mpProc → globals.i686Ncpu < 256 → 4 ≤ entry.bytes.length
  ioapic : entry.type = mpIoapic → 8 ≤ entry.bytes.length

/-- Some bytes from `p` on are those up to `e`, and nothing can be read from there. -/
structure Visible (memory : Loader) (e p : Vaddr) (bytes : List Byte) : Prop where
  shows : Shows memory p bytes
  length : bytes.length = e.toNat - p.toNat
  outside : ∀ va, e ≤ va → memory va = none
  room : e.toNat + 20 ≤ 2 ^ 32

/-- All entries are readable when the walk comes to them. -/
def AllReadable : Globals → List MpEntry → Prop
  | _, [] => True
  | globals, entry :: entries =>
      Readable globals entry ∧ AllReadable (note globals entry) entries

/-- What the walk comes to: `ismp` and the variables, or no result if it reads behind the body. -/
def WalkResult (globals : Globals) (entries : List MpEntry) (result : Option (Bool × Globals)) :
    Prop :=
  (AllReadable globals entries ∧
    result = some (entries.all (·.type ≤ mpLintr), entries.foldl note globals)) ∨
    (¬AllReadable globals entries ∧ result = none)

section Entries

theorem mpEntries_drop (skip : ℕ) (bytes : List Byte) :
    mpEntries skip bytes = mpEntries 0 (bytes.drop skip) := by
  induction skip generalizing bytes with
  | zero => rfl
  | succ skip ih =>
      cases bytes with
      | nil => rfl
      | cons value rest => exact ih rest

theorem MpEntry.size_pos (type : Byte) : 0 < size type := by
  rw [size]
  split
  · omega
  · omega

theorem MpEntry.size_le (type : Byte) : size type ≤ 20 := by
  rw [size]
  split
  · omega
  · omega

theorem mpEntries_cons (type : Byte) (rest : List Byte) :
    mpEntries 0 (type :: rest) = ⟨type, type :: rest⟩ ::
      if type ≤ mpLintr then mpEntries 0 ((type :: rest).drop (MpEntry.size type)) else [] := by
  have size : MpEntry.size type = MpEntry.size type - 1 + 1 := by
    have positive := MpEntry.size_pos type
    omega
  rw [mpEntries, mpEntries_drop, size]
  rfl

end Entries

section Walk

variable {memory : Loader} {e p : Vaddr} {bytes : List Byte} {type : Byte} {globals : Globals}

theorem Visible.read (visible : Visible memory e p bytes) (before : p < e) (k : ℕ)
    (small : k < 20) : memory (p + BitVec.ofNat 32 k) = bytes[k]? := by
  have length := visible.length
  by_cases inside : k < bytes.length
  · rw [visible.shows k inside, List.getElem?_eq_getElem inside]
  · have room := visible.room
    have address : (p + BitVec.ofNat 32 k).toNat = p.toNat + k := by
      rw [BitVec.lt_def] at before
      rw [BitVec.toNat_add, BitVec.toNat_ofNat]
      omega
    rw [List.getElem?_eq_none (by omega)]
    apply visible.outside
    rw [BitVec.le_def, address]
    omega

theorem Visible.readD (visible : Visible memory e p bytes) (before : p < e) (k : ℕ)
    (small : k < 20) (inside : k < bytes.length) :
    memory (p + BitVec.ofNat 32 k) = some (bytes.getD k 0) := by
  rw [visible.read before k small, List.getElem?_eq_getElem inside, List.getD_eq_getElem _ _ inside]

theorem Visible.drop (visible : Visible memory e p bytes) (before : p < e) {size : ℕ}
    (small : size ≤ 20) : Visible memory e (p + BitVec.ofNat 32 size) (bytes.drop size) := by
  have length := visible.length
  have room := visible.room
  rw [BitVec.lt_def] at before
  refine ⟨?_, ?_, visible.outside, room⟩
  · intro k inside
    rw [List.length_drop] at inside
    rw [List.getElem_drop, BitVec.add_assoc, ← BitVec.ofNat_add]
    exact visible.shows (size + k) (by omega)
  · rw [List.length_drop, length, BitVec.toNat_add, BitVec.toNat_ofNat]
    omega

theorem Visible.lt_iff (visible : Visible memory e p bytes) : p < e ↔ bytes ≠ [] := by
  have length := visible.length
  rw [BitVec.lt_def, ← List.length_pos_iff]
  omega

theorem getint_eq_none {x : Vaddr} (noLast : memory (x + 3) = none) : getint memory x = none := by
  rw [getint, noLast]
  cases memory x with
  | none => rfl
  | some a =>
      cases memory (x + 1) with
      | none => rfl
      | some b =>
          cases memory (x + 2) with
          | none => rfl
          | some c => rfl

theorem Visible.readProc (visible : Visible memory e p bytes) (before : p < e)
    (isProc : type = mpProc) :
    (Readable globals ⟨type, bytes⟩ ∧
      readProc memory p globals = some (note globals ⟨type, bytes⟩)) ∨
      (¬Readable globals ⟨type, bytes⟩ ∧ readProc memory p globals = none) := by
  have notIoapic : type ≠ mpIoapic := by
    rw [isProc]
    decide
  rw [Mp.readProc, note, if_pos isProc]
  by_cases recorded : globals.i686Ncpu < 256
  · rw [if_pos recorded, if_pos recorded]
    by_cases inside : 4 ≤ bytes.length
    · have apicid : memory (p + 1) = some (bytes.getD 1 0) :=
        visible.readD before 1 (by omega) (by omega)
      have flags : memory (p + 3) = some (bytes.getD 3 0) :=
        visible.readD before 3 (by omega) (by omega)
      left
      refine ⟨⟨fun _ _ => inside, fun isIoapic => absurd isIoapic notIoapic⟩, ?_⟩
      rw [apicid, flags]
      rfl
    · have noFlags : memory (p + 3) = none := by
        refine (visible.read before 3 (by omega)).trans ?_
        exact List.getElem?_eq_none (by omega)
      right
      refine ⟨fun readable => inside (readable.processor isProc recorded), ?_⟩
      rw [noFlags]
      cases memory (p + 1) with
      | none => rfl
      | some apicid => rfl
  · rw [if_neg recorded, if_neg recorded]
    exact Or.inl ⟨⟨fun _ less => absurd less recorded,
      fun isIoapic => absurd isIoapic notIoapic⟩, rfl⟩

theorem Visible.readIoapic (visible : Visible memory e p bytes) (before : p < e)
    (isIoapic : type = mpIoapic) :
    (Readable globals ⟨type, bytes⟩ ∧
      readIoapic memory p globals = some (note globals ⟨type, bytes⟩)) ∨
      (¬Readable globals ⟨type, bytes⟩ ∧ readIoapic memory p globals = none) := by
  have notProc : type ≠ mpProc := by
    rw [isIoapic]
    decide
  rw [Mp.readIoapic, note, if_neg notProc, if_pos isIoapic]
  by_cases inside : 8 ≤ bytes.length
  · have apicno : memory (p + 1) = some (bytes.getD 1 0) :=
      visible.readD before 1 (by omega) (by omega)
    have cell (k : ℕ) (isLess : k < 4) :
        memory (p + 4 + BitVec.ofNat 32 k) = some (bytes.getD (4 + k) 0) := by
      have read := visible.readD before (4 + k) (by omega) (by omega)
      rw [BitVec.ofNat_add, ← BitVec.add_assoc] at read
      exact read
    have addr : getint memory (p + 4) = some (MpEntry.addr ⟨type, bytes⟩) := by
      have first : memory (p + 4) = some (bytes.getD 4 0) :=
        visible.readD before 4 (by omega) (by omega)
      have second : memory (p + 4 + 1) = some (bytes.getD 5 0) := cell 1 (by omega)
      have third : memory (p + 4 + 2) = some (bytes.getD 6 0) := cell 2 (by omega)
      have fourth : memory (p + 4 + 3) = some (bytes.getD 7 0) := cell 3 (by omega)
      simp only [getint, first, second, third, fourth]
      rfl
    left
    refine ⟨⟨fun isProc => absurd isProc notProc, fun _ => inside⟩, ?_⟩
    rw [apicno, addr]
    rfl
  · have noLast : memory (p + 4 + 3) = none := by
      have read := visible.read before (4 + 3) (by omega)
      rw [BitVec.ofNat_add, ← BitVec.add_assoc, List.getElem?_eq_none (by omega)] at read
      exact read
    right
    refine ⟨fun readable => inside (readable.ioapic isIoapic), ?_⟩
    rw [getint_eq_none noLast]
    cases memory (p + 1) with
    | none => rfl
    | some apicno => rfl

theorem readable_of_other (notProc : type ≠ mpProc) (notIoapic : type ≠ mpIoapic) :
    Readable globals ⟨type, bytes⟩ ∧ note globals ⟨type, bytes⟩ = globals := by
  refine ⟨⟨fun isProc => absurd isProc notProc, fun isIoapic => absurd isIoapic notIoapic⟩, ?_⟩
  rw [note, if_neg notProc, if_neg notIoapic]

theorem le_mpLintr_iff :
    type ≤ mpLintr ↔ type = mpProc ∨ type = mpIoapic ∨ type = mpBus ∨ type = mpIointr ∨
      type = mpLintr := by
  simp only [mpProc, mpIoapic, mpBus, mpIointr, mpLintr]
  bv_omega

/-- The step of the loop to the next entry. -/
theorem WalkResult.cons {entry : MpEntry} {entries : List MpEntry} {read : Option Globals}
    {next : Globals → Option (Bool × Globals)} (known : entry.type ≤ mpLintr)
    (isRead : (Readable globals entry ∧ read = some (note globals entry)) ∨
      (¬Readable globals entry ∧ read = none))
    (rest : ∀ globals, WalkResult globals entries (next globals)) :
    WalkResult globals (entry :: entries) (read.bind next) := by
  rcases isRead with ⟨readable, rfl⟩ | ⟨unreadable, rfl⟩
  · rcases rest (note globals entry) with ⟨others, result⟩ | ⟨unreadable, result⟩
    · refine Or.inl ⟨⟨readable, others⟩, ?_⟩
      rw [Option.bind_some, result, List.all_cons, decide_eq_true known, Bool.true_and]
      rfl
    · exact Or.inr ⟨fun all => unreadable all.2, result⟩
  · exact Or.inr ⟨fun all => unreadable all.1, rfl⟩

theorem mpinitLoop_result {left : ℕ} (visible : Visible memory e p bytes)
    (enough : bytes.length < left) (globals : Globals) :
    WalkResult globals (mpEntries 0 bytes) (mpinitLoop memory e left p globals) := by
  induction left generalizing p bytes globals with
  | zero => exact absurd enough (Nat.not_lt_zero _)
  | succ left ih =>
      rw [mpinitLoop]
      cases bytes with
      | nil =>
          rw [if_neg fun before => visible.lt_iff.mp before rfl]
          exact Or.inl ⟨trivial, rfl⟩
      | cons type rest =>
          have before : p < e := visible.lt_iff.mpr (List.cons_ne_nil _ _)
          have isType : memory p = some type := (shows_cons.mp visible.shows).1
          have next (globals : Globals) :
              WalkResult globals (mpEntries 0 ((type :: rest).drop (MpEntry.size type)))
                (mpinitLoop memory e left (p + BitVec.ofNat 32 (MpEntry.size type)) globals) := by
            have positive := MpEntry.size_pos type
            apply ih (visible.drop before (MpEntry.size_le type))
            rw [List.length_drop]
            rw [List.length_cons] at enough ⊢
            omega
          rw [if_pos before, isType, mpEntries_cons]
          simp only [Option.bind_eq_bind, Option.bind_some]
          by_cases isProc : type = mpProc
          · have known := le_mpLintr_iff.mpr (Or.inl isProc)
            have size : MpEntry.size type = 20 := if_pos isProc
            rw [if_pos isProc, if_pos known]
            rw [size] at next ⊢
            exact WalkResult.cons known (visible.readProc before isProc) next
          · have size : MpEntry.size type = 8 := if_neg isProc
            rw [size] at next
            rw [if_neg isProc, size]
            by_cases isIoapic : type = mpIoapic
            · have known := le_mpLintr_iff.mpr (Or.inr (Or.inl isIoapic))
              rw [if_pos isIoapic, if_pos known]
              exact WalkResult.cons known (visible.readIoapic before isIoapic) next
            · rcases @readable_of_other (type :: rest) type globals isProc isIoapic with
                ⟨readable, same⟩
              rw [if_neg isIoapic]
              by_cases isOther : type = mpBus ∨ type = mpIointr ∨ type = mpLintr
              · have known := le_mpLintr_iff.mpr (Or.inr (Or.inr isOther))
                have read : Readable globals ⟨type, type :: rest⟩ ∧
                    some globals = some (note globals ⟨type, type :: rest⟩) :=
                  ⟨readable, congrArg some same.symm⟩
                rw [if_pos isOther, if_pos known]
                exact WalkResult.cons known (Or.inl read) next
              · have unknown : ¬type ≤ mpLintr := by
                  rw [le_mpLintr_iff]
                  rintro (isProc' | isIoapic' | isOther')
                  · exact isProc isProc'
                  · exact isIoapic isIoapic'
                  · exact isOther isOther'
                rw [if_neg isOther, if_neg unknown]
                refine Or.inl ⟨⟨readable, trivial⟩, ?_⟩
                rw [List.all_cons, decide_eq_false unknown, List.foldl_cons, same]
                rfl

end Walk

section Notes

variable {globals : Globals} {entry : MpEntry} {entries : List MpEntry}

theorem length_mpEntries_le (skip : ℕ) (bytes : List Byte) :
    (mpEntries skip bytes).length ≤ bytes.length := by
  induction bytes generalizing skip with
  | nil =>
      cases skip with
      | zero => exact Nat.le_refl _
      | succ skip => exact Nat.le_refl _
  | cons type rest ih =>
      cases skip with
      | zero =>
          rw [mpEntries, List.length_cons, List.length_cons]
          apply Nat.succ_le_succ
          split
          · exact ih _
          · exact Nat.zero_le _
      | succ skip => exact Nat.le_succ_of_le (ih skip)

theorem processors_cons_proc (isProc : entry.type = mpProc) :
    processors (entry :: entries) = entry :: processors entries :=
  List.filter_cons_of_pos (decide_eq_true isProc)

theorem processors_cons_other (notProc : entry.type ≠ mpProc) :
    processors (entry :: entries) = processors entries :=
  List.filter_cons_of_neg (by simpa using notProc)

theorem ioapics_cons_ioapic (isIoapic : entry.type = mpIoapic) :
    ioapics (entry :: entries) = entry :: ioapics entries :=
  List.filter_cons_of_pos (decide_eq_true isIoapic)

theorem ioapics_cons_other (notIoapic : entry.type ≠ mpIoapic) :
    ioapics (entry :: entries) = ioapics entries :=
  List.filter_cons_of_neg (by simpa using notIoapic)

theorem not_ioapic_of_proc (isProc : entry.type = mpProc) : entry.type ≠ mpIoapic := by
  rw [isProc]
  decide

theorem note_ncpu_proc (isProc : entry.type = mpProc) :
    (note globals entry).i686Ncpu = globals.i686Ncpu + 1 := by
  rw [note, if_pos isProc]
  split
  · rfl
  · rfl

/-- Only an entry of a processor changes the variables for processors. -/
theorem note_other (notProc : entry.type ≠ mpProc) :
    (note globals entry).i686Ncpu = globals.i686Ncpu ∧
      (note globals entry).i686BootCpu = globals.i686BootCpu ∧
      (note globals entry).i686CpuApics = globals.i686CpuApics := by
  rw [note, if_neg notProc]
  split
  · exact ⟨rfl, rfl, rfl⟩
  · exact ⟨rfl, rfl, rfl⟩

theorem note_recorded (isProc : entry.type = mpProc) (recorded : globals.i686Ncpu < 256) :
    (note globals entry).i686CpuApics =
        Function.update globals.i686CpuApics globals.i686Ncpu.toNat entry.apicid ∧
      (note globals entry).i686BootCpu =
        if entry.flags &&& mpBoot ≠ 0 then globals.i686Ncpu else globals.i686BootCpu := by
  rw [note, if_pos isProc, if_pos recorded]
  exact ⟨rfl, rfl⟩

theorem note_ioapic :
    (note globals entry).i686Ioapic =
      if entry.type = mpIoapic then entry.addr else globals.i686Ioapic := by
  rw [note]
  by_cases isProc : entry.type = mpProc
  · rw [if_pos isProc, if_neg (not_ioapic_of_proc isProc)]
    split
    · rfl
    · rfl
  · rw [if_neg isProc]
    split
    · rfl
    · rfl

theorem toNat_ncpu_succ {count : BitVec 32} {others : ℕ}
    (small : count.toNat + (others + 1) < 2 ^ 32) : (count + 1).toNat = count.toNat + 1 := by
  have one : (1 : BitVec 32).toNat = 1 := rfl
  rw [BitVec.toNat_add, one]
  omega

/-- A processor before which less than 256 have been counted is recorded. -/
theorem ncpu_recorded {count : BitVec 32} {others : ℕ}
    (fits : count.toNat + (others + 1) ≤ 256) :
    count < 256 ∧ (count + 1).toNat = count.toNat + 1 := by
  have limit : count < 256 ↔ count.toNat < 256 := BitVec.lt_def
  exact ⟨limit.mpr (by omega), @toNat_ncpu_succ count others (by omega)⟩

theorem forall_mem_take_cons {condition : MpEntry → Prop} (count : ℕ) :
    (∀ other ∈ (entry :: entries).take (256 - count), condition other) ↔
      (count < 256 → condition entry) ∧
        ∀ other ∈ entries.take (256 - (count + 1)), condition other := by
  by_cases recorded : count < 256
  · have more : 256 - count = 256 - (count + 1) + 1 := by omega
    rw [more, List.take_succ_cons, List.forall_mem_cons, forall_prop_of_true recorded]
  · have none : 256 - count = 0 := by omega
    have noneLater : 256 - (count + 1) = 0 := by omega
    rw [none, noneLater, List.take_zero, List.take_zero]
    exact ⟨fun all => ⟨fun less => absurd less recorded, all⟩, fun both => both.2⟩

theorem inside_cons_proc (isProc : entry.type = mpProc) (count : ℕ) :
    Inside count (entry :: entries) ↔
      (count < 256 → 4 ≤ entry.bytes.length) ∧ Inside (count + 1) entries := by
  have first := @forall_mem_take_cons entry (processors entries)
    (fun other => 4 ≤ other.bytes.length) count
  have others : ioapics (entry :: entries) = ioapics entries :=
    ioapics_cons_other (not_ioapic_of_proc isProc)
  rw [← processors_cons_proc isProc] at first
  constructor
  · rintro ⟨procs, apics⟩
    rw [others] at apics
    exact ⟨(first.mp procs).1, (first.mp procs).2, apics⟩
  · rintro ⟨fits, procs, apics⟩
    rw [← others] at apics
    exact ⟨first.mpr ⟨fits, procs⟩, apics⟩

theorem inside_cons_other (notProc : entry.type ≠ mpProc) (count : ℕ) :
    Inside count (entry :: entries) ↔
      (entry.type = mpIoapic → 8 ≤ entry.bytes.length) ∧ Inside count entries := by
  have others : processors (entry :: entries) = processors entries := processors_cons_other notProc
  by_cases isIoapic : entry.type = mpIoapic
  · have first : ioapics (entry :: entries) = entry :: ioapics entries :=
      ioapics_cons_ioapic isIoapic
    constructor
    · rintro ⟨procs, apics⟩
      rw [first, List.forall_mem_cons] at apics
      rw [others] at procs
      exact ⟨fun _ => apics.1, procs, apics.2⟩
    · rintro ⟨fits, procs, apics⟩
      refine ⟨by rwa [others], ?_⟩
      rw [first, List.forall_mem_cons]
      exact ⟨fits isIoapic, apics⟩
  · have same : ioapics (entry :: entries) = ioapics entries := ioapics_cons_other isIoapic
    constructor
    · rintro ⟨procs, apics⟩
      rw [others] at procs
      rw [same] at apics
      exact ⟨fun isIoapic' => absurd isIoapic' isIoapic, procs, apics⟩
    · rintro ⟨-, procs, apics⟩
      exact ⟨by rwa [others], by rwa [same]⟩

/-- The walk reads bytes of the body only exactly if the fields it reads end there. -/
theorem allReadable_iff
    (small : globals.i686Ncpu.toNat + (processors entries).length < 2 ^ 32) :
    AllReadable globals entries ↔ Inside globals.i686Ncpu.toNat entries := by
  induction entries generalizing globals with
  | nil => exact ⟨fun _ => ⟨by simp [processors], by simp [ioapics]⟩, fun _ => trivial⟩
  | cons entry entries ih =>
      by_cases isProc : entry.type = mpProc
      · rw [processors_cons_proc isProc, List.length_cons] at small
        have next := toNat_ncpu_succ small
        have rest := @ih (note globals entry) (by rw [note_ncpu_proc isProc, next]; omega)
        rw [note_ncpu_proc isProc, next] at rest
        have limit : globals.i686Ncpu < 256 ↔ globals.i686Ncpu.toNat < 256 := BitVec.lt_def
        rw [AllReadable, rest, inside_cons_proc isProc, ← limit]
        apply and_congr_left'
        exact ⟨fun readable => readable.processor isProc, fun fits => ⟨fun _ => fits,
          fun isIoapic => absurd isIoapic (not_ioapic_of_proc isProc)⟩⟩
      · rw [processors_cons_other isProc] at small
        have same := (@note_other globals entry isProc).1
        have rest := @ih (note globals entry) (by rw [same]; exact small)
        rw [same] at rest
        rw [AllReadable, rest, inside_cons_other isProc]
        apply and_congr_left'
        exact ⟨fun readable => readable.ioapic,
          fun fits => ⟨fun isProc' => absurd isProc' isProc, fits⟩⟩

theorem foldl_ncpu (entries : List MpEntry) (globals : Globals) :
    (entries.foldl note globals).i686Ncpu =
      globals.i686Ncpu + BitVec.ofNat 32 (processors entries).length := by
  induction entries generalizing globals with
  | nil => exact (BitVec.add_zero _).symm
  | cons entry entries ih =>
      rw [List.foldl_cons, ih]
      by_cases isProc : entry.type = mpProc
      · rw [note_ncpu_proc isProc, processors_cons_proc isProc, List.length_cons,
          Nat.add_comm _ 1, BitVec.ofNat_add, BitVec.add_assoc]
        rfl
      · rw [(note_other isProc).1, processors_cons_other isProc]

theorem foldl_ioapic (entries : List MpEntry) (globals : Globals) :
    (entries.foldl note globals).i686Ioapic =
      ((ioapics entries).getLast?.map MpEntry.addr).getD globals.i686Ioapic := by
  induction entries generalizing globals with
  | nil => rfl
  | cons entry entries ih =>
      rw [List.foldl_cons, ih, note_ioapic]
      by_cases isIoapic : entry.type = mpIoapic
      · rw [if_pos isIoapic, ioapics_cons_ioapic isIoapic, List.getLast?_cons]
        cases (ioapics entries).getLast? with
        | none => rfl
        | some last => rfl
      · rw [if_neg isIoapic, ioapics_cons_other isIoapic]

/-- The processors that the walk comes to are recorded behind those before, in their order. -/
theorem foldl_apics (entries : List MpEntry) (globals : Globals)
    (fits : globals.i686Ncpu.toNat + (processors entries).length ≤ 256) :
    (∀ i < globals.i686Ncpu.toNat,
      (entries.foldl note globals).i686CpuApics i = globals.i686CpuApics i) ∧
      (List.range' globals.i686Ncpu.toNat (processors entries).length).map
          (entries.foldl note globals).i686CpuApics =
        (processors entries).map MpEntry.apicid := by
  induction entries generalizing globals with
  | nil => exact ⟨fun _ _ => rfl, rfl⟩
  | cons entry entries ih =>
      rw [List.foldl_cons]
      by_cases isProc : entry.type = mpProc
      · rw [processors_cons_proc isProc, List.length_cons] at fits ⊢
        rcases ncpu_recorded fits with ⟨recorded, next⟩
        have rest := ih (note globals entry) (by rw [note_ncpu_proc isProc, next]; omega)
        rw [note_ncpu_proc isProc, next, (note_recorded isProc recorded).1] at rest
        rcases rest with ⟨kept, others⟩
        constructor
        · intro i less
          rw [kept i (by omega), Function.update_of_ne (Nat.ne_of_lt less)]
        · rw [List.range'_succ, List.map_cons, List.map_cons, others, kept _ (by omega),
            Function.update_self]
      · have rest := ih (note globals entry)
        rw [(note_other isProc).1, (note_other isProc).2.2] at rest
        rw [processors_cons_other isProc] at fits ⊢
        exact rest fits

/-- The index of the boot processor is that of a recorded processor if one has the flag, and
stays otherwise. -/
theorem foldl_bootCpu (entries : List MpEntry) (globals : Globals)
    (fits : globals.i686Ncpu.toNat + (processors entries).length ≤ 256) :
    ((∃ entry ∈ processors entries, entry.flags &&& mpBoot ≠ 0) →
      (entries.foldl note globals).i686BootCpu.toNat <
        globals.i686Ncpu.toNat + (processors entries).length) ∧
      ((¬∃ entry ∈ processors entries, entry.flags &&& mpBoot ≠ 0) →
        (entries.foldl note globals).i686BootCpu = globals.i686BootCpu) := by
  induction entries generalizing globals with
  | nil => exact ⟨fun ⟨_, isEntry, _⟩ => absurd isEntry List.not_mem_nil, fun _ => rfl⟩
  | cons entry entries ih =>
      rw [List.foldl_cons]
      by_cases isProc : entry.type = mpProc
      · rw [processors_cons_proc isProc, List.length_cons] at fits ⊢
        rcases ncpu_recorded fits with ⟨recorded, next⟩
        have rest := ih (note globals entry) (by rw [note_ncpu_proc isProc, next]; omega)
        rw [note_ncpu_proc isProc, next, (note_recorded isProc recorded).2] at rest
        rcases rest with ⟨found, stays⟩
        rw [List.exists_mem_cons_iff]
        by_cases later : ∃ other ∈ processors entries, other.flags &&& mpBoot ≠ 0
        · constructor
          · intro _
            have less := found later
            omega
          · exact fun none => absurd (Or.inr later) none
        · rw [stays later]
          by_cases boots : entry.flags &&& mpBoot ≠ 0
          · rw [if_pos boots]
            constructor
            · intro _
              omega
            · exact fun none => absurd (Or.inl boots) none
          · rw [if_neg boots]
            constructor
            · rintro (isFirst | isLater)
              · exact absurd isFirst boots
              · exact absurd isLater later
            · exact fun _ => rfl
      · have rest := ih (note globals entry)
        rw [(note_other isProc).1, (note_other isProc).2.1] at rest
        rw [processors_cons_other isProc] at fits ⊢
        exact rest fits

end Notes

end Mp

end Rkernel
