import Mathlib.Data.List.Nodup
import Mathlib.Data.Nat.Notation

/-!
# Positional numerals

A numeral is a text over an alphabet of digits: the base is the length of the alphabet, and a
digit stands for its position. The value of a text is a function of it, so that a text denotes
one number at most.
-/

universe u

namespace Numeral

variable {α : Type u} [DecidableEq α]

/-- The value after one more digit. -/
def next (alphabet : List α) (value : ℕ) (character : α) : Option ℕ :=
  (alphabet.idxOf? character).map (alphabet.length * value + ·)

/-- The number that a text denotes, if all of its characters are digits. -/
def value (alphabet text : List α) : Option ℕ :=
  text.foldlM (next alphabet) 0

/-- A numeral of a number without superfluous leading zeros. -/
structure Denotes (alphabet text : List α) (number : ℕ) : Prop where
  value : value alphabet text = some number
  nonempty : text ≠ []
  leading : 1 < text.length → text.head? ≠ alphabet.head?

section Digits

variable {alphabet text : List α} {character : α} {number digit : ℕ}

theorem idxOf_digit (nodup : alphabet.Nodup) (isDigit : alphabet[digit]? = some character) :
    alphabet.idxOf? character = some digit := by
  rcases List.getElem?_eq_some_iff.mp isDigit with ⟨below, isCharacter⟩
  refine List.idxOf?_eq_some_iff.mpr ⟨below, isCharacter, ?_⟩
  intro earlier before same
  have sameIndex := (List.Nodup.getElem_inj_iff nodup).mp (same.trans isCharacter.symm)
  omega

theorem value_append_digit (nodup : alphabet.Nodup) (isValue : value alphabet text = some number)
    (isDigit : alphabet[digit]? = some character) :
    value alphabet (text ++ [character]) = some (alphabet.length * number + digit) := by
  rw [value, List.foldlM_append]
  rw [value] at isValue
  simp [isValue, next, idxOf_digit nodup isDigit]

theorem Denotes.single (nodup : alphabet.Nodup) (isDigit : alphabet[digit]? = some character) :
    Denotes alphabet [character] digit where
  value := by simpa using @value_append_digit _ _ alphabet [] _ _ _ nodup rfl isDigit
  nonempty := List.cons_ne_nil _ _
  leading := by simp

/-- The zero digit leads no numeral of a positive number. -/
theorem Denotes.head_ne (denotes : Denotes alphabet text number) (positive : 0 < number) :
    text.head? ≠ alphabet.head? := by
  intro headZero
  cases text with
  | nil => exact denotes.nonempty rfl
  | cons first rest =>
      cases rest with
      | cons second rest => exact denotes.leading (by simp) headZero
      | nil =>
          have isFirst : alphabet.idxOf? first = some 0 := by
            cases alphabet with
            | nil => simp at headZero
            | cons zero others =>
                rw [List.head?_cons, List.head?_cons, Option.some.injEq] at headZero
                rw [headZero, List.idxOf?_cons]
                simp
          have isZero := denotes.value
          simp [Numeral.value, next, isFirst] at isZero
          omega

theorem Denotes.append_digit (denotes : Denotes alphabet text number) (nodup : alphabet.Nodup)
    (positive : 0 < number) (isDigit : alphabet[digit]? = some character) :
    Denotes alphabet (text ++ [character]) (alphabet.length * number + digit) where
  value := value_append_digit nodup denotes.value isDigit
  nonempty := by simp
  leading := by
    intro _
    rw [List.head?_append_of_ne_nil _ denotes.nonempty]
    exact denotes.head_ne positive

end Digits

end Numeral
