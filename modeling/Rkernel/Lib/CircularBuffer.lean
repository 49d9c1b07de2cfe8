import Mathlib.Data.Nat.ModEq
import Mathlib.Data.Nat.Notation
import Mathlib.Logic.Function.Basic

/-!
# Circular buffers

A buffer of `size` cells with the indices of the first used cell and of the first free one.
One cell always stays free, so that equal indices mean that the buffer is empty.

`Holds` says which list is stored. It is kept by the two operations on the indices: a value is
stored in the free cell, which appends it to the list, and the first index goes on, which
removes the head of the list.
-/

namespace CircularBuffer

variable {α : Type} {size first last : ℕ} {cells : ℕ → α} {values : List α}

/-- The cells from `first` up to `last` hold a list. -/
structure Holds (size : ℕ) (cells : ℕ → α) (first last : ℕ) (values : List α) : Prop where
  room : values.length < size
  begins : first < size
  ends : last = (first + values.length) % size
  contents : (List.range values.length).map (fun k => cells ((first + k) % size)) = values

theorem holds_nil (begins : first < size) : Holds size cells first first [] where
  room := Nat.zero_lt_of_lt begins
  begins := begins
  ends := (Nat.mod_eq_of_lt begins).symm
  contents := rfl

namespace Holds

theorem last_lt (holds : Holds size cells first last values) : last < size := by
  rw [holds.ends]
  exact Nat.mod_lt _ (Nat.zero_lt_of_lt holds.begins)

/-- Offsets below the size lead to different cells. -/
theorem offset_inj {j k : ℕ} (jLt : j < size) (kLt : k < size)
    (same : (first + j) % size = (first + k) % size) : j = k := by
  have congruent : j ≡ k [MOD size] := Nat.ModEq.add_left_cancel' first same
  exact congruent.eq_of_lt_of_lt jLt kLt

theorem eq_nil_iff (holds : Holds size cells first last values) : first = last ↔ values = [] := by
  have begins := holds.begins
  constructor
  · intro same
    rw [holds.ends] at same
    apply List.length_eq_zero_iff.mp
    apply @offset_inj size first _ _ holds.room (Nat.zero_lt_of_lt begins)
    rw [← same, Nat.add_zero, Nat.mod_eq_of_lt begins]
  · rintro rfl
    rw [holds.ends]
    exact (Nat.mod_eq_of_lt begins).symm

/-- A value is stored in the free cell unless that is the last one. -/
theorem push (holds : Holds size cells first last values) (notFull : (last + 1) % size ≠ first)
    (value : α) :
    Holds size (Function.update cells last value) first ((last + 1) % size)
      (values ++ [value]) := by
  have begins := holds.begins
  have room := holds.room
  have lengthEq : (values ++ [value]).length = values.length + 1 := by simp
  have next : (last + 1) % size = (first + (values.length + 1)) % size := by
    rw [holds.ends, Nat.mod_add_mod, Nat.add_assoc]
  refine ⟨?_, begins, ?_, ?_⟩
  · rw [lengthEq]
    apply Nat.lt_of_le_of_ne room
    intro full
    apply notFull
    change values.length + 1 = size at full
    rw [next, full, Nat.add_mod_right, Nat.mod_eq_of_lt begins]
  · rw [lengthEq, next]
  · rw [lengthEq, List.range_succ, List.map_append]
    congr 1
    · refine Eq.trans ?_ holds.contents
      apply List.map_congr_left
      intro k kMem
      apply Function.update_of_ne
      rw [holds.ends]
      intro same
      have kLt := List.mem_range.mp kMem
      have equal := offset_inj (Nat.lt_trans kLt room) room same
      omega
    · rw [List.map_singleton, ← holds.ends, Function.update_self]

/-- The first index goes on to the next value. -/
theorem pop {value : α} (holds : Holds size cells first last (value :: values)) :
    cells first = value ∧ Holds size cells ((first + 1) % size) last values := by
  have begins := holds.begins
  have contents := holds.contents
  rw [List.length_cons, List.range_succ_eq_map, List.map_cons, List.cons.injEq, Nat.add_zero,
    Nat.mod_eq_of_lt begins, List.map_map] at contents
  refine ⟨contents.1, Nat.lt_of_succ_lt holds.room, Nat.mod_lt _ (Nat.zero_lt_of_lt begins), ?_,
    ?_⟩
  · rw [holds.ends, List.length_cons, Nat.mod_add_mod, Nat.add_assoc, Nat.add_comm 1]
  · refine Eq.trans ?_ contents.2
    apply List.map_congr_left
    intro k _
    change cells (((first + 1) % size + k) % size) = cells ((first + (k + 1)) % size)
    rw [Nat.mod_add_mod, Nat.add_assoc, Nat.add_comm 1]

end Holds

end CircularBuffer
