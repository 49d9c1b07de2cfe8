import Mathlib.Algebra.Group.Nat.Defs
import Mathlib.Data.List.GetD
import Mathlib.Data.Nat.Notation
import Mathlib.Logic.Function.Basic

/-!
# Stretches of addressed cells

A memory maps addresses of `w` bits to values. `stretch` reads some consecutive cells as a
list and `overwrite` replaces some consecutive cells by the elements of a list. A loop that
copies cell by cell is an `overwrite` that is built up at one of its two ends.

Addresses wrap around; a list with at most `2 ^ w` elements has a cell for each of them.
-/

namespace Stretch

variable {w : ℕ} {α : Type}

/-- The values of `count` cells from an address on. -/
def stretch (memory : BitVec w → α) (start : BitVec w) (count : ℕ) : List α :=
  (List.range count).map fun k => memory (start + BitVec.ofNat w k)

/-- The memory with the values of a list from an address on. -/
def overwrite (memory : BitVec w → α) (start : BitVec w) (values : List α) : BitVec w → α :=
  fun address => values.getD (address - start).toNat (memory address)

variable {memory : BitVec w → α} {start address : BitVec w} {values : List α} {value : α}

@[simp]
theorem length_stretch (count : ℕ) : (stretch memory start count).length = count := by
  simp [stretch]

@[simp]
theorem overwrite_nil : overwrite memory start [] = memory :=
  rfl

theorem toNat_offset {k : ℕ} (inside : k < 2 ^ w) :
    (start + BitVec.ofNat w k - start).toNat = k := by
  rw [BitVec.add_comm, BitVec.add_sub_cancel, BitVec.toNat_ofNat, Nat.mod_eq_of_lt inside]

theorem eq_add_offset : address = start + BitVec.ofNat w (address - start).toNat := by
  rw [BitVec.ofNat_toNat, BitVec.setWidth_eq, BitVec.add_comm, BitVec.sub_add_cancel]

theorem overwrite_inside {k : ℕ} (fits : values.length ≤ 2 ^ w) (inside : k < values.length) :
    overwrite memory start values (start + BitVec.ofNat w k) = values[k] := by
  rw [overwrite, toNat_offset (by omega), List.getD_eq_getElem _ _ inside]

theorem overwrite_outside
    (outside : ∀ k < values.length, address ≠ start + BitVec.ofNat w k) :
    overwrite memory start values address = memory address := by
  apply List.getD_eq_default
  by_contra inside
  exact outside _ (Nat.lt_of_not_le inside) eq_add_offset

theorem stretch_getElem {count k : ℕ} (inside : k < (stretch memory start count).length) :
    (stretch memory start count)[k] = memory (start + BitVec.ofNat w k) := by
  simp [stretch]

theorem stretch_succ (count : ℕ) :
    stretch memory start (count + 1) = memory start :: stretch memory (start + 1) count := by
  rw [stretch, List.range_succ_eq_map, List.map_cons, List.map_map]
  congr 1
  · simp
  · apply List.map_congr_left
    intro k _
    rw [Function.comp_apply, Nat.succ_eq_add_one, Nat.add_comm k 1, BitVec.ofNat_add,
      BitVec.add_assoc]
    rfl

theorem stretch_succ_last (count : ℕ) :
    stretch memory start (count + 1) =
      stretch memory start count ++ [memory (start + BitVec.ofNat w count)] := by
  rw [stretch, List.range_succ, List.map_append]
  rfl

theorem stretch_add (first count : ℕ) :
    stretch memory start (first + count) =
      stretch memory start first ++ stretch memory (start + BitVec.ofNat w first) count := by
  induction count with
  | zero => exact (List.append_nil _).symm
  | succ count ih =>
      rw [← Nat.add_assoc, stretch_succ_last, ih, stretch_succ_last, List.append_assoc,
        BitVec.add_assoc, ← BitVec.ofNat_add]

theorem stretch_congr {other : BitVec w → α} {count : ℕ}
    (same : ∀ k < count, other (start + BitVec.ofNat w k) = memory (start + BitVec.ofNat w k)) :
    stretch other start count = stretch memory start count := by
  apply List.map_congr_left
  intro k kMem
  exact same k (List.mem_range.mp kMem)

theorem overwrite_singleton :
    overwrite memory start [value] = Function.update memory start value := by
  funext address
  by_cases here : address = start
  · rw [here, overwrite, BitVec.sub_self, Function.update_self]
    rfl
  · rw [Function.update_of_ne here]
    apply overwrite_outside
    intro k inside
    have first : k = 0 := by simpa using inside
    rw [first, BitVec.add_zero]
    exact here

theorem overwrite_append {others : List α} (fits : values.length + others.length ≤ 2 ^ w) :
    overwrite memory start (values ++ others) =
      overwrite (overwrite memory start values) (start + BitVec.ofNat w values.length) others := by
  funext address
  by_cases first : (address - start).toNat < values.length
  · have apart : ∀ k < others.length,
        address ≠ start + BitVec.ofNat w values.length + BitVec.ofNat w k := by
      rintro k inside rfl
      rw [BitVec.add_assoc, ← BitVec.ofNat_add, toNat_offset (by omega)] at first
      omega
    rw [overwrite_outside apart, overwrite, overwrite, List.getD_append _ _ _ _ first]
  · have offset : (address - (start + BitVec.ofNat w values.length)).toNat =
        (address - start).toNat - values.length := by
      have below := (address - start).isLt
      have away : address - (start + BitVec.ofNat w values.length) =
          address - start - BitVec.ofNat w values.length := by
        rw [BitVec.sub_sub]
      have length : (BitVec.ofNat w values.length).toNat = values.length := by
        rw [BitVec.toNat_ofNat, Nat.mod_eq_of_lt (by omega)]
      rw [away, BitVec.toNat_sub_of_le (BitVec.le_def.mpr (by omega)), length]
    have notFirst : overwrite memory start values address = memory address :=
      List.getD_eq_default _ _ (by omega)
    rw [overwrite, overwrite, offset, notFirst, List.getD_append_right _ _ _ _ (by omega)]

/-- The first of the values can be stored before the others. -/
theorem overwrite_cons (fits : values.length < 2 ^ w) :
    overwrite memory start (value :: values) =
      overwrite (Function.update memory start value) (start + 1) values := by
  have split := @overwrite_append w α memory start [value] values (by simp; omega)
  rw [overwrite_singleton] at split
  exact split

/-- The last of the values can be stored before the others. -/
theorem overwrite_concat (fits : values.length < 2 ^ w) :
    overwrite memory start (values ++ [value]) =
      overwrite (Function.update memory (start + BitVec.ofNat w values.length) value) start
        values := by
  rw [overwrite_append (by rw [List.length_singleton]; omega), overwrite_singleton]
  funext address
  by_cases last : address = start + BitVec.ofNat w values.length
  · rw [last, Function.update_self, overwrite_outside, Function.update_self]
    intro k inside same
    have offset := congrArg (fun address => (address - start).toNat) same
    simp only [toNat_offset fits, toNat_offset (Nat.lt_trans inside fits)] at offset
    omega
  · rw [Function.update_of_ne last, overwrite, overwrite, Function.update_of_ne last]

/-- The values of a list are in a stretch of cells already exactly if writing them there changes
nothing. -/
theorem overwrite_eq_self_iff (fits : values.length ≤ 2 ^ w) :
    overwrite memory start values = memory ↔ stretch memory start values.length = values := by
  constructor
  · intro same
    apply List.ext_getElem (length_stretch _)
    intro k _ inside
    rw [stretch_getElem, ← overwrite_inside fits inside, same]
  · intro same
    funext address
    by_cases inside : (address - start).toNat < values.length
    · have value := @overwrite_inside w α memory start values _ fits inside
      have cell := List.getElem_of_eq same.symm inside
      rw [stretch_getElem] at cell
      rw [← eq_add_offset] at value cell
      rw [value, cell]
    · exact List.getD_eq_default _ _ (by omega)

/-- Writing further values changes nothing exactly if they are in their cells already. -/
theorem overwrite_append_eq_iff {others : List α} (fits : values.length + others.length ≤ 2 ^ w) :
    overwrite memory start (values ++ others) = overwrite memory start values ↔
      stretch memory (start + BitVec.ofNat w values.length) others.length = others := by
  have behind : stretch (overwrite memory start values) (start + BitVec.ofNat w values.length)
      others.length = stretch memory (start + BitVec.ofNat w values.length) others.length := by
    apply stretch_congr
    intro j jLt
    apply overwrite_outside
    intro k kLt same
    rw [BitVec.add_assoc, ← BitVec.ofNat_add] at same
    have offset := congrArg (fun address => (address - start).toNat) same
    simp only [toNat_offset (show values.length + j < 2 ^ w by omega),
      toNat_offset (show k < 2 ^ w by omega)] at offset
    omega
  rw [overwrite_append fits, overwrite_eq_self_iff (by omega), behind]

end Stretch
