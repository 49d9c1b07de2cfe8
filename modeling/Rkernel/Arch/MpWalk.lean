import Rkernel.Arch.MpEntries

/-!
# The walk over the MP configuration table

`_i686_initmp` with an accepted table. The index of the boot processor is 256 until a processor
with the boot flag is recorded.
-/

open Stretch

namespace Rkernel

namespace Mp

/-- The physical address of the table at `g_ctptr`. -/
def tableAddress (state : State) : Paddr :=
  (translate state.table state.gCtptr).getD 0

/-- The entries of the table at a physical address. -/
def tableEntries (ram : Ram) (pa : Paddr) : List MpEntry :=
  mpEntries 0 (stretch ram (pa + 44) (tableLength ram pa - 44))

/-- Reads of bytes of the body only. -/
def bodyLoader (ram : Ram) (state : State) : Loader :=
  only (fun va => state.gConfTableBody ≤ va ∧ va < state.gConfTableBody + state.gCblen)
    (load ram state.table)

/-- The walk over an accepted table returns and reads bytes of the body only, and the variables
of a system that has been found to be a multiprocessor one are those of its table. -/
structure InitmpCorrect (ram : Ram) (table : KernelPageTable) : Prop where
  walk : ∀ mp conf after, mpconfig ram (initialState table) = some (mp, conf, after) →
    conf ≠ 0 → ∃ result, mpinit (bodyLoader ram after) after walkGlobals = some result
  count : ∀ globals after, i686Initmp ram table = some (true, globals, after) →
    1 ≤ globals.i686Ncpu ∧ globals.i686Ncpu ≤ 256
  boot : ∀ globals after, i686Initmp ram table = some (true, globals, after) →
    globals.i686BootCpu < globals.i686Ncpu
  apics : ∀ globals after, i686Initmp ram table = some (true, globals, after) →
    (List.range globals.i686Ncpu.toNat).map globals.i686CpuApics =
      (processors (tableEntries ram (tableAddress after))).map MpEntry.apicid

/-- The tables that the walk is right for. -/
structure WalkCondition (entries : List MpEntry) (lapicaddr : BitVec 32) : Prop where
  inside : Inside 0 entries
  recorded : DescribesMp entries lapicaddr → (processors entries).length ≤ 256
  boots : DescribesMp entries lapicaddr →
    ∃ entry ∈ processors entries, entry.flags &&& mpBoot ≠ 0

section Reads

variable {small memory : Loader} (below : ∀ va, Below (small va) (memory va))
include below

theorem getint_below (x : Vaddr) : Below (getint small x) (getint memory x) :=
  (below x).bind fun _ => (below (x + 1)).bind fun _ => (below (x + 2)).bind fun _ =>
    (below (x + 3)).bind fun _ => Below.refl _

theorem readProc_below (p : Vaddr) (globals : Globals) :
    Below (readProc small p globals) (readProc memory p globals) := by
  rw [readProc, readProc]
  split
  · exact (below (p + 1)).bind fun _ => (below (p + 3)).bind fun _ => Below.refl _
  · exact Below.refl _

theorem readIoapic_below (p : Vaddr) (globals : Globals) :
    Below (readIoapic small p globals) (readIoapic memory p globals) :=
  (below (p + 1)).bind fun _ => (getint_below below (p + 4)).bind fun _ => Below.refl _

theorem mpinitLoop_below (e : Vaddr) (left : ℕ) (p : Vaddr) (globals : Globals) :
    Below (mpinitLoop small e left p globals) (mpinitLoop memory e left p globals) := by
  induction left generalizing p globals with
  | zero => exact Below.refl _
  | succ left ih =>
      rw [mpinitLoop, mpinitLoop]
      split
      · apply (below p).bind
        intro type
        split
        · exact (readProc_below below p globals).bind fun _ => ih _ _
        · split
          · exact (readIoapic_below below p globals).bind fun _ => ih _ _
          · split
            · exact ih _ _
            · exact Below.refl _
      · exact Below.refl _

theorem mpinit_below (state : State) (globals : Globals) :
    Below (mpinit small state globals) (mpinit memory state globals) :=
  (mpinitLoop_below below _ _ _ _).bind fun _ => Below.refl _

end Reads

section Initmp

variable {ram : Ram} {table : KernelPageTable} {pa : Paddr} {mp conf : Vaddr} {after : State}

theorem Configured.tableAddress_eq (configured : Configured ram pa conf after) :
    tableAddress after = pa := by
  have first := configured.header 0 (by omega)
  rw [BitVec.add_zero, BitVec.add_zero] at first
  rw [tableAddress, configured.pointer, first]
  rfl

theorem Configured.visible (configured : Configured ram pa conf after) :
    Visible (bodyLoader ram after) (after.gConfTableBody + after.gCblen) after.gConfTableBody
      (stretch ram (pa + 44) (tableLength ram pa - 44)) := by
  have shown := shows_of_translates ram configured.body
  rcases configured.toNat_end with ⟨length, room⟩
  refine ⟨?_, ?_, ?_, by omega⟩
  · intro k inside
    have address : (after.gConfTableBody + BitVec.ofNat 32 k).toNat =
        after.gConfTableBody.toNat + k := by
      rw [length_stretch] at inside
      rw [BitVec.toNat_add, BitVec.toNat_ofNat]
      omega
    rw [← shown k inside]
    apply only_of_inside
    rw [length_stretch] at inside
    rw [BitVec.le_def, BitVec.lt_def, address]
    omega
  · rw [length_stretch, length]
  · intro va behind
    apply only_of_outside
    rintro ⟨-, before⟩
    rw [BitVec.lt_def] at before
    rw [BitVec.le_def] at behind
    omega

theorem length_processors_lt (ram : Ram) (pa : Paddr) :
    (processors (tableEntries ram pa)).length < 2 ^ 16 := by
  have filtered : (processors (tableEntries ram pa)).length ≤ (tableEntries ram pa).length :=
    List.length_filter_le _ _
  have entries := length_mpEntries_le 0 (stretch ram (pa + 44) (tableLength ram pa - 44))
  have small : tableLength ram pa < 2 ^ 16 := (shortAt ram (pa + 4)).isLt
  rw [length_stretch] at entries
  exact Nat.lt_of_le_of_lt filtered (Nat.lt_of_le_of_lt entries (by omega))

/-- The variables after the walk over all entries. -/
def walked (ram : Ram) (pa : Paddr) : Globals :=
  (tableEntries ram pa).foldl note walkGlobals

theorem toNat_walked_ncpu (ram : Ram) (pa : Paddr) :
    (walked ram pa).i686Ncpu.toNat = (processors (tableEntries ram pa)).length := by
  have small := length_processors_lt ram pa
  have none : walkGlobals.i686Ncpu = 0 := rfl
  rw [walked, foldl_ncpu, none]
  exact (congrArg BitVec.toNat (BitVec.zero_add _)).trans
    ((BitVec.toNat_ofNat _ _).trans (Nat.mod_eq_of_lt (by omega)))

/-- `mpinit` as it ends over an accepted table. -/
def walkedResult (ram : Ram) (pa : Paddr) : Bool × Globals :=
  ((tableEntries ram pa).all (·.type ≤ mpLintr) && decide (1 ≤ (walked ram pa).i686Ncpu),
    walked ram pa)

theorem Configured.mpinit_cases (configured : Configured ram pa conf after) :
    (Inside 0 (tableEntries ram pa) ∧
      mpinit (bodyLoader ram after) after walkGlobals = some (walkedResult ram pa)) ∨
      (¬Inside 0 (tableEntries ram pa) ∧
        mpinit (bodyLoader ram after) after walkGlobals = none) := by
  have visible := configured.visible
  have few := length_processors_lt ram pa
  have none : walkGlobals.i686Ncpu.toNat = 0 := rfl
  have inside := @allReadable_iff walkGlobals (tableEntries ram pa) (by omega)
  rw [none] at inside
  have walk := mpinitLoop_result visible (Nat.lt_succ_of_le (Nat.le_of_eq visible.length))
    walkGlobals
  rcases walk with ⟨readable, result⟩ | ⟨unreadable, result⟩
  · exact Or.inl ⟨inside.mp readable, congrArg (Option.bind · _) result⟩
  · exact Or.inr ⟨fun isInside => unreadable (inside.mpr isInside),
      congrArg (Option.bind · _) result⟩

/-- The variables after the read of `lapicaddr`. -/
def withLapic (ram : Ram) (pa : Paddr) : Globals :=
  { walked ram pa with i686LocalApic := intAt ram (pa + 36) }

theorem withLapic_localApic (ram : Ram) (pa : Paddr) :
    (withLapic ram pa).i686LocalApic = intAt ram (pa + 36) := by
  rw [withLapic]

theorem withLapic_ioapic (ram : Ram) (pa : Paddr) :
    (withLapic ram pa).i686Ioapic = ioapicAddress (tableEntries ram pa) := by
  have none : walkGlobals.i686Ioapic = 0 := rfl
  rw [withLapic, walked, foldl_ioapic, none, ioapicAddress]

theorem toNat_withLapic_ncpu (ram : Ram) (pa : Paddr) :
    (withLapic ram pa).i686Ncpu.toNat = (processors (tableEntries ram pa)).length := by
  rw [withLapic, ← toNat_walked_ncpu]

/-- What has been recorded of a table with at most 256 processors. -/
theorem withLapic_recorded (recorded : (processors (tableEntries ram pa)).length ≤ 256) :
    ((∃ entry ∈ processors (tableEntries ram pa), entry.flags &&& mpBoot ≠ 0) →
      (withLapic ram pa).i686BootCpu.toNat < (processors (tableEntries ram pa)).length) ∧
      ((¬∃ entry ∈ processors (tableEntries ram pa), entry.flags &&& mpBoot ≠ 0) →
        (withLapic ram pa).i686BootCpu = 256) ∧
      (List.range (processors (tableEntries ram pa)).length).map (withLapic ram pa).i686CpuApics =
        (processors (tableEntries ram pa)).map MpEntry.apicid := by
  have noneYet : walkGlobals.i686Ncpu.toNat = 0 := rfl
  have noBoot : walkGlobals.i686BootCpu = 256 := rfl
  have boot := foldl_bootCpu (tableEntries ram pa) walkGlobals (by omega)
  have apics := foldl_apics (tableEntries ram pa) walkGlobals (by omega)
  rw [noneYet, Nat.zero_add, noBoot] at boot
  rw [noneYet, ← List.range_eq_range'] at apics
  rw [withLapic, walked]
  exact ⟨boot.1, boot.2, apics.2⟩

/-- `_i686_initmp` with a table whose fields are inside its body. -/
theorem Configured.i686Initmp_eq (configured : Configured ram pa conf after)
    (accepted : mpconfig ram (initialState table) = some (mp, conf, after)) (nonzero : conf ≠ 0)
    (inside : Inside 0 (tableEntries ram pa)) :
    i686Initmp ram table =
      if isMultiprocessor (walkedResult ram pa).1 (withLapic ram pa) then
        some (true, withLapic ram pa, after)
      else some (false, uniprocessor (withLapic ram pa), after) := by
  have walk : mpinit (load ram after.table) after walkGlobals = some (walkedResult ram pa) := by
    rcases configured.mpinit_cases with ⟨-, result⟩ | ⟨outside, -⟩
    · exact mpinit_below (fun va => only_below va) after walkGlobals _ result
    · exact absurd inside outside
  have header : Shows (load ram after.table) conf (stretch ram pa 44) :=
    shows_of_translates ram configured.header
  have lapicaddr : getint (load ram after.table) (conf + 36) = some (intAt ram (pa + 36)) :=
    getint_eq (header.part 36 4 (by omega))
  simp only [i686Initmp, accepted, Option.bind_eq_bind, Option.bind_some, if_neg nonzero, walk,
    lapicaddr]
  rfl

theorem isMultiprocessor_iff (ram : Ram) (pa : Paddr) :
    isMultiprocessor (walkedResult ram pa).1 (withLapic ram pa) = true ↔
      DescribesMp (tableEntries ram pa) (intAt ram (pa + 36)) := by
  have one : (1 : BitVec 32).toNat = 1 := rfl
  have notZero {address : BitVec 32} (high : 0xfe000000 ≤ address) : address ≠ 0 := by
    rintro rfl
    exact absurd high (by decide)
  simp only [isMultiprocessor, walkedResult, withLapic_ioapic, withLapic_localApic,
    Bool.and_eq_true, decide_eq_true_eq, List.all_eq_true, bne_iff_ne, BitVec.le_def (x := 1),
    one, toNat_walked_ncpu]
  constructor
  · rintro ⟨⟨⟨⟨⟨known, some⟩, -⟩, -⟩, isHigh⟩, localHigh⟩
    exact ⟨known, List.length_pos_iff.mp some, isHigh, localHigh⟩
  · rintro ⟨known, some, isHigh, localHigh⟩
    exact ⟨⟨⟨⟨⟨known, List.length_pos_iff.mpr some⟩, notZero isHigh⟩, notZero localHigh⟩, isHigh⟩,
      localHigh⟩

theorem configured_of_accepted
    (accepted : mpconfig ram (initialState table) = some (mp, conf, after)) (nonzero : conf ≠ 0) :
    Configured ram (tableAddress after) conf after := by
  rcases mpconfig_result ram (initialState table) with ⟨_, _, _, result, isConfigured, -⟩
  rw [accepted] at result
  cases result
  rcases isConfigured nonzero with ⟨pa, configured, -⟩
  rw [configured.tableAddress_eq]
  exact configured

/-- A multiprocessor system is concluded from an accepted table only. -/
theorem accepted_of_concluded {globals : Globals}
    (concluded : i686Initmp ram table = some (true, globals, after)) :
    ∃ mp conf, mpconfig ram (initialState table) = some (mp, conf, after) ∧ conf ≠ 0 := by
  rcases Option.bind_eq_some_iff.mp concluded with ⟨⟨mp, conf, state⟩, accepted, rest⟩
  by_cases isNull : conf = 0
  · simp only [if_pos isNull] at rest
    cases rest
  · simp only [if_neg isNull] at rest
    rcases Option.bind_eq_some_iff.mp rest with ⟨⟨ismp, walked⟩, -, rest⟩
    rcases Option.bind_eq_some_iff.mp rest with ⟨lapicaddr, -, rest⟩
    simp only at rest
    split at rest
    · cases rest
      exact ⟨mp, conf, accepted, isNull⟩
    · cases rest

/-- A multiprocessor system is concluded from a table whose fields are inside its body exactly if
the table describes one. -/
theorem Configured.concluded_iff (configured : Configured ram pa conf after)
    (accepted : mpconfig ram (initialState table) = some (mp, conf, after)) (nonzero : conf ≠ 0)
    (inside : Inside 0 (tableEntries ram pa)) (globals : Globals) (state : State) :
    i686Initmp ram table = some (true, globals, state) ↔
      DescribesMp (tableEntries ram pa) (intAt ram (pa + 36)) ∧
        withLapic ram pa = globals ∧ after = state := by
  rw [configured.i686Initmp_eq accepted nonzero inside]
  by_cases isMp : isMultiprocessor (walkedResult ram pa).1 (withLapic ram pa) = true
  · have describes := (isMultiprocessor_iff ram pa).mp isMp
    rw [if_pos isMp, Option.some_inj, Prod.mk.injEq, Prod.mk.injEq]
    exact ⟨fun same => ⟨describes, same.2⟩, fun same => ⟨rfl, same.2⟩⟩
  · rw [if_neg isMp]
    constructor
    · intro same
      exact absurd (congrArg Prod.fst (Option.some_inj.mp same)) Bool.false_ne_true
    · rintro ⟨describes, -⟩
      exact absurd ((isMultiprocessor_iff ram pa).mpr describes) isMp

/-- An accepted table of which what is expected holds meets the condition. -/
theorem InitmpCorrect.condition (correct : InitmpCorrect ram table)
    (accepted : mpconfig ram (initialState table) = some (mp, conf, after)) (nonzero : conf ≠ 0) :
    WalkCondition (tableEntries ram (tableAddress after))
      (intAt ram (tableAddress after + 36)) := by
  have configured := configured_of_accepted accepted nonzero
  have inside : Inside 0 (tableEntries ram (tableAddress after)) := by
    rcases configured.mpinit_cases with ⟨inside, -⟩ | ⟨-, noResult⟩
    · exact inside
    · rcases correct.walk mp conf after accepted nonzero with ⟨result, isResult⟩
      rw [noResult] at isResult
      cases isResult
  have concluded := configured.concluded_iff accepted nonzero inside
    (withLapic ram (tableAddress after)) after
  have limit : (256 : BitVec 32).toNat = 256 := rfl
  have recorded (describes : DescribesMp (tableEntries ram (tableAddress after))
      (intAt ram (tableAddress after + 36))) :
      (processors (tableEntries ram (tableAddress after))).length ≤ 256 := by
    rw [← toNat_withLapic_ncpu, ← limit, ← BitVec.le_def]
    exact (correct.count _ _ (concluded.mpr ⟨describes, rfl, rfl⟩)).2
  refine ⟨inside, recorded, ?_⟩
  intro describes
  by_contra noBoot
  -- Without a boot flag the index is 256, which no count up to 256 is above.
  have few := recorded describes
  have less := correct.boot _ _ (concluded.mpr ⟨describes, rfl, rfl⟩)
  rw [(withLapic_recorded few).2.1 noBoot, BitVec.lt_def, toNat_withLapic_ncpu, limit] at less
  exact absurd less (Nat.not_lt_of_le few)

/-- The variables of a system that has been concluded from a table under the condition. -/
theorem WalkCondition.concluded {globals : Globals}
    (condition : WalkCondition (tableEntries ram pa) (intAt ram (pa + 36)))
    (configured : Configured ram pa conf after)
    (accepted : mpconfig ram (initialState table) = some (mp, conf, after)) (nonzero : conf ≠ 0)
    (isConcluded : i686Initmp ram table = some (true, globals, after)) :
    1 ≤ globals.i686Ncpu ∧ globals.i686Ncpu ≤ 256 ∧ globals.i686BootCpu < globals.i686Ncpu ∧
      (List.range globals.i686Ncpu.toNat).map globals.i686CpuApics =
        (processors (tableEntries ram pa)).map MpEntry.apicid := by
  rcases (configured.concluded_iff accepted nonzero condition.inside _ _).mp isConcluded with
    ⟨describes, rfl, -⟩
  have limit : (256 : BitVec 32).toNat = 256 := rfl
  have one : (1 : BitVec 32).toNat = 1 := rfl
  have few := condition.recorded describes
  rcases withLapic_recorded few with ⟨boots, -, apics⟩
  rw [BitVec.le_def, BitVec.le_def, BitVec.lt_def, toNat_withLapic_ncpu, limit, one]
  exact ⟨List.length_pos_iff.mpr describes.processor, few, boots (condition.boots describes),
    apics⟩

end Initmp

/-- `_i686_initmp` does what is expected of it exactly if the fields that the walk reads are
inside the body and a table of a multiprocessor system has at most 256 processors and a boot
processor. -/
theorem i686Initmp_correct_iff (ram : Ram) (table : KernelPageTable) :
    InitmpCorrect ram table ↔
      ∀ mp conf after, mpconfig ram (initialState table) = some (mp, conf, after) → conf ≠ 0 →
        WalkCondition (tableEntries ram (tableAddress after))
          (intAt ram (tableAddress after + 36)) := by
  constructor
  · intro correct mp conf after accepted nonzero
    exact correct.condition accepted nonzero
  · intro conforms
    have concluded {globals : Globals} {after : State}
        (isConcluded : i686Initmp ram table = some (true, globals, after)) :
        1 ≤ globals.i686Ncpu ∧ globals.i686Ncpu ≤ 256 ∧
          globals.i686BootCpu < globals.i686Ncpu ∧
          (List.range globals.i686Ncpu.toNat).map globals.i686CpuApics =
            (processors (tableEntries ram (tableAddress after))).map MpEntry.apicid := by
      rcases accepted_of_concluded isConcluded with ⟨mp, conf, accepted, nonzero⟩
      exact (conforms mp conf after accepted nonzero).concluded
        (configured_of_accepted accepted nonzero) accepted nonzero isConcluded
    refine ⟨?_, ?_, ?_, ?_⟩
    · intro mp conf after accepted nonzero
      rcases (configured_of_accepted accepted nonzero).mpinit_cases with ⟨-, result⟩ | ⟨outside, -⟩
      · exact ⟨_, result⟩
      · exact absurd (conforms mp conf after accepted nonzero).inside outside
    · intro globals after isConcluded
      exact ⟨(concluded isConcluded).1, (concluded isConcluded).2.1⟩
    · intro globals after isConcluded
      exact (concluded isConcluded).2.2.1
    · intro globals after isConcluded
      exact (concluded isConcluded).2.2.2

/-- With the boot flag the only processor is number 0. -/
example : (i686Initmp (firmware 0x100ff0 ([0, 7, 0x14, 3] ++ List.replicate 16 0 ++
    [2, 1, 0x11, 1, 0, 0, 0xc0, 0xfe])) fun _ => 0).map
      (fun result => (result.1, result.2.1.i686Ncpu, result.2.1.i686BootCpu,
        result.2.1.i686CpuApics 0)) = some (true, 1, 0, 7) := by
  decide +kernel

/-- A table with one processor, which has no boot flag, and an I/O APIC. -/
def noBootProcessor : Ram :=
  firmware 0x100000 ([0, 0, 0x14, 1] ++ List.replicate 16 0 ++ [2, 1, 0x11, 1, 0, 0, 0xc0, 0xfe])

/-- The system is concluded to be a multiprocessor one with 1 processor, of which number 256 is
the boot processor. -/
theorem not_initmpCorrect_noBootProcessor : ¬InitmpCorrect noBootProcessor fun _ => 0 := by
  intro correct
  have computed : (i686Initmp noBootProcessor fun _ => 0).map
      (fun result => (result.1, result.2.1.i686Ncpu, result.2.1.i686BootCpu)) =
        some (true, 1, 256) := by
    decide +kernel
  rcases Option.map_eq_some_iff.mp computed with ⟨⟨ismp, globals, after⟩, concluded, isResult⟩
  simp only [Prod.mk.injEq] at isResult
  rcases isResult with ⟨rfl, count, boot⟩
  have less := correct.boot globals after concluded
  rw [count, boot] at less
  exact absurd less (by decide)

end Mp

end Rkernel
