import Rkernel.Lib.Stretch

/-!
# Reads from a partial memory

A partial memory has values at some addresses only. It shows a list from an address on if the
elements are at the addresses from there, one at each. What a loop reads of the cells it passes
is then a function of the list.
-/

namespace Stretch

variable {w : ℕ} {α β : Type}

/-- The values of a list are in a partial memory from an address on. -/
def Shows (memory : BitVec w → Option α) (start : BitVec w) (values : List α) : Prop :=
  ∀ k (inside : k < values.length), memory (start + BitVec.ofNat w k) = some values[k]

/-- A loop over consecutive cells; it has no result if a cell has no value. -/
def foldCells (f : β → α → β) (memory : BitVec w → Option α) :
    (left : ℕ) → BitVec w → β → Option β
  | 0, _, total => some total
  | left + 1, address, total => do
      let value ← memory address
      foldCells f memory left (address + 1) (f total value)

variable {memory : BitVec w → Option α} {start : BitVec w} {values : List α} {value : α}

theorem shows_append {others : List α} :
    Shows memory start (values ++ others) ↔
      Shows memory start values ∧
        Shows memory (start + BitVec.ofNat w values.length) others := by
  constructor
  · intro shows
    constructor
    · intro k inside
      have cell := shows k (by rw [List.length_append]; omega)
      rw [List.getElem_append_left inside] at cell
      exact cell
    · intro k inside
      have cell := shows (values.length + k) (by rw [List.length_append]; omega)
      simp only [List.getElem_append_right (Nat.le_add_right _ _), Nat.add_sub_cancel_left] at cell
      rw [BitVec.add_assoc, ← BitVec.ofNat_add]
      exact cell
  · rintro ⟨front, back⟩ k inside
    by_cases first : k < values.length
    · rw [List.getElem_append_left first]
      exact front k first
    · have cell := back (k - values.length) (by rw [List.length_append] at inside; omega)
      rw [BitVec.add_assoc, ← BitVec.ofNat_add, Nat.add_sub_cancel' (by omega)] at cell
      rw [List.getElem_append_right (by omega)]
      exact cell

theorem shows_singleton : Shows memory start [value] ↔ memory start = some value := by
  constructor
  · intro shows
    have cell := shows 0 Nat.zero_lt_one
    rw [BitVec.add_zero] at cell
    exact cell
  · intro cell k inside
    have first : k = 0 := by simpa using inside
    subst k
    rw [BitVec.add_zero]
    exact cell

theorem shows_cons :
    Shows memory start (value :: values) ↔
      memory start = some value ∧ Shows memory (start + 1) values := by
  rw [← List.singleton_append, shows_append, shows_singleton]
  rfl

/-- A stretch of a total memory that a partial one shows. -/
theorem shows_stretch {whole : BitVec w → α} {place : BitVec w} {count : ℕ} :
    Shows memory start (stretch whole place count) ↔
      ∀ k < count, memory (start + BitVec.ofNat w k) = some (whole (place + BitVec.ofNat w k)) := by
  constructor
  · intro shows k inside
    rw [shows k (by rw [length_stretch]; exact inside), stretch_getElem]
  · intro cells k inside
    rw [stretch_getElem]
    apply cells
    rwa [length_stretch] at inside

/-- A part of a stretch that is shown. -/
theorem Shows.part {whole : BitVec w → α} {place : BitVec w} {count : ℕ}
    (shows : Shows memory start (stretch whole place count)) (first length : ℕ)
    (inside : first + length ≤ count) :
    Shows memory (start + BitVec.ofNat w first)
      (stretch whole (place + BitVec.ofNat w first) length) := by
  rw [shows_stretch] at shows ⊢
  intro k kLt
  rw [BitVec.add_assoc, BitVec.add_assoc, ← BitVec.ofNat_add]
  exact shows _ (by omega)

theorem Shows.take {whole : BitVec w → α} {place : BitVec w} {count length : ℕ}
    (shows : Shows memory start (stretch whole place count)) (inside : length ≤ count) :
    Shows memory start (stretch whole place length) := by
  rw [shows_stretch] at shows ⊢
  exact fun k kLt => shows k (Nat.lt_of_lt_of_le kLt inside)

theorem Shows.foldCells {f : β → α → β} (shows : Shows memory start values) (total : β) :
    foldCells f memory values.length start total = some (values.foldl f total) := by
  induction values generalizing start total with
  | nil => rfl
  | cons value values ih =>
      obtain ⟨cell, rest⟩ := shows_cons.mp shows
      rw [List.length_cons, Stretch.foldCells, cell]
      exact ih rest _

/-- The result of one computation is that of another if it has one. -/
def Below (result whole : Option α) : Prop :=
  ∀ value, result = some value → whole = some value

theorem Below.refl (result : Option α) : Below result result :=
  fun _ => id

theorem Below.bind {result whole : Option α} {next later : α → Option β}
    (below : Below result whole) (rest : ∀ value, Below (next value) (later value)) :
    Below (result.bind next) (whole.bind later) := by
  intro value isValue
  rcases Option.bind_eq_some_iff.mp isValue with ⟨first, isFirst, isNext⟩
  rw [below first isFirst]
  exact rest first value isNext

/-- The cells of a partial memory at some addresses. -/
def only (inside : BitVec w → Prop) [DecidablePred inside] (memory : BitVec w → Option α) :
    BitVec w → Option α :=
  fun address => if inside address then memory address else none

section Only

variable {inside : BitVec w → Prop} [DecidablePred inside] {address : BitVec w}

theorem only_of_inside (isInside : inside address) :
    only inside memory address = memory address :=
  if_pos isInside

theorem only_of_outside (outside : ¬inside address) : only inside memory address = none :=
  if_neg outside

theorem only_below (address : BitVec w) : Below (only inside memory address) (memory address) := by
  intro value isValue
  by_cases isInside : inside address
  · rwa [only_of_inside isInside] at isValue
  · rw [only_of_outside isInside] at isValue
    cases isValue

end Only

end Stretch
