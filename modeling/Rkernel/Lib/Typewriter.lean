import Mathlib.Data.List.Basic
import Mathlib.Data.Nat.ModEq
import Mathlib.Data.Nat.Notation

/-!
# Typewriters

A typewriter types marks on an endless strip of places, a fixed number of them to a line. A screen
shows the strip from the top to the bottom and then from the top again without being cleared, so
that a cell of the screen shows the mark that was typed last at any of its places.
-/

/-- The place of the next mark and the marks typed so far, the last one first. -/
structure Typewriter (α : Type) where
  place : ℕ
  marks : List (ℕ × α)

namespace Typewriter

variable {α : Type} {size cell : ℕ}

/-- A typewriter that has typed nothing, at the first place. -/
def blank : Typewriter α where
  place := 0
  marks := []

def type (a : α) (typewriter : Typewriter α) : Typewriter α where
  place := typewriter.place + 1
  marks := (typewriter.place, a) :: typewriter.marks

/-- Back to the first place of the line. -/
def carriageReturn (width : ℕ) (typewriter : Typewriter α) : Typewriter α :=
  { typewriter with place := typewriter.place / width * width }

/-- One line further down. -/
def lineFeed (width : ℕ) (typewriter : Typewriter α) : Typewriter α :=
  { typewriter with place := typewriter.place + width }

def typeAll (text : List α) (typewriter : Typewriter α) : Typewriter α :=
  text.foldl (fun typewriter a => typewriter.type a) typewriter

/-- The mark in a cell of a screen of so many cells. -/
def shown (size : ℕ) (typewriter : Typewriter α) (cell : ℕ) : Option α :=
  (typewriter.marks.find? fun mark => mark.1 % size = cell).map Prod.snd

theorem shown_type (typewriter : Typewriter α) (a : α) :
    (typewriter.type a).shown size cell =
      if typewriter.place % size = cell then some a else typewriter.shown size cell := by
  by_cases here : typewriter.place % size = cell
  · simp [shown, type, here]
  · simp [shown, type, here]

theorem place_typeAll (typewriter : Typewriter α) (text : List α) :
    (typewriter.typeAll text).place = typewriter.place + text.length := by
  induction text generalizing typewriter with
  | nil => rfl
  | cons a text ih =>
      change ((typewriter.type a).typeAll text).place = _
      rw [ih, List.length_cons]
      simp only [type]
      omega

/-- Cells that a text does not reach keep their marks. -/
theorem shown_typeAll_of_apart (typewriter : Typewriter α) {text : List α}
    (apart : ∀ k < text.length, (typewriter.place + k) % size ≠ cell) :
    (typewriter.typeAll text).shown size cell = typewriter.shown size cell := by
  induction text generalizing typewriter with
  | nil => rfl
  | cons a text ih =>
      have notHere : typewriter.place % size ≠ cell :=
        apart 0 (Nat.zero_lt_succ _)
      have notLater : ∀ k < text.length, ((typewriter.type a).place + k) % size ≠ cell := by
        intro k kLt
        have later := apart (k + 1) (Nat.succ_lt_succ kLt)
        rwa [Nat.add_comm k, ← Nat.add_assoc] at later
      change ((typewriter.type a).typeAll text).shown size cell = _
      rw [ih (typewriter.type a) notLater, shown_type, if_neg notHere]

theorem typeAll_append (typewriter : Typewriter α) (text more : List α) :
    typewriter.typeAll (text ++ more) = (typewriter.typeAll text).typeAll more :=
  List.foldl_append

/-- A mark of a text can be seen unless another one of the text was typed over it. -/
theorem shown_typeAll (typewriter : Typewriter α) {text : List α} {k : ℕ} (inText : k < text.length)
    (notOver : text.length ≤ k + size) :
    (typewriter.typeAll text).shown size ((typewriter.place + k) % size) = some text[k] := by
  have split : text = text.take k ++ text[k] :: text.drop (k + 1) := by
    rw [← List.drop_eq_getElem_cons inText, List.take_append_drop]
  have before : (typewriter.typeAll (text.take k)).place = typewriter.place + k := by
    rw [place_typeAll, List.length_take, Nat.min_eq_left (Nat.le_of_lt inText)]
  have typed : typewriter.typeAll text =
      ((typewriter.typeAll (text.take k)).type text[k]).typeAll (text.drop (k + 1)) := by
    conv_lhs => rw [split, typeAll_append]
    rfl
  rw [typed, shown_typeAll_of_apart, shown_type, before, if_pos rfl]
  intro j jLt
  rw [List.length_drop] at jLt
  change ((typewriter.typeAll (text.take k)).place + 1 + j) % size ≠ _
  rw [before, Nat.add_assoc]
  intro same
  have congruent : 1 + j ≡ 0 [MOD size] := Nat.ModEq.add_left_cancel' _ same
  have isZero := congruent.eq_of_lt_of_lt (by omega) (by omega)
  omega

end Typewriter
