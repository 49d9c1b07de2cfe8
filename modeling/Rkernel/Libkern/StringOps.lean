import Rkernel.Libkern.Strings

/-!
# Strings in memory

The other functions of `libkern/string.c`. Strings of bytes are the abstract values: `strcpy` and
`strcat` make strings of strings, `strlen` is the length, `strcmp` and `memcmp` are the
lexicographic order, and `memchr` finds the first byte of its kind.

A loop without a bound gets one; it returns whenever there is a NUL before the bound.
-/

namespace Rkernel

open Stretch

/-- `while(*str)str++,i++;` -/
def strlenLoop (memory : AddressSpace) : (bound : ℕ) → (str i : BitVec 32) → Option (BitVec 32)
  | 0, _, _ => none
  | bound + 1, str, i =>
      if memory str = 0 then some i else strlenLoop memory bound (str + 1) (i + 1)

def strlen (bound : ℕ) (str : BitVec 32) (memory : AddressSpace) : Option (BitVec 32) :=
  strlenLoop memory bound str 0

/-- `for(;(*o = *i); ++o,++i);` -/
def strcpyLoop : (bound : ℕ) → (o i : BitVec 32) → AddressSpace → Option AddressSpace
  | 0, _, _, _ => none
  | bound + 1, o, i, memory =>
      let copied := Function.update memory o (memory i)
      if memory i = 0 then some copied else strcpyLoop bound (o + 1) (i + 1) copied

def strcpy (bound : ℕ) (dest src : BitVec 32) (memory : AddressSpace) :
    Option (BitVec 32 × AddressSpace) :=
  (strcpyLoop bound dest src memory).map fun copied => (dest, copied)

/-- `for(; *o; ++o);` -/
def strcatLoop (memory : AddressSpace) : (bound : ℕ) → (o : BitVec 32) → Option (BitVec 32)
  | 0, _ => none
  | bound + 1, o => if memory o = 0 then some o else strcatLoop memory bound (o + 1)

def strcat (bound : ℕ) (dest src : BitVec 32) (memory : AddressSpace) :
    Option (BitVec 32 × AddressSpace) :=
  match strcatLoop memory bound dest with
  | none => none
  | some o => (strcpyLoop bound o src memory).map fun copied => (dest, copied)

/-- `*a-*b` -/
def byteDifference (a b : Byte) : ℤ :=
  a.toNat - b.toNat

/-- `strcmp`, whose loop ends at a difference or at a NUL. -/
def strcmp (memory : AddressSpace) : (bound : ℕ) → (a b : BitVec 32) → Option ℤ
  | 0, _, _ => none
  | bound + 1, a, b =>
      if memory a = memory b ∧ memory a ≠ 0 then strcmp memory bound (a + 1) (b + 1)
      else some (byteDifference (memory a) (memory b))

/-- `for(;count;--count,++o)*o=c;` -/
def memsetLoop (c : Byte) : (count : ℕ) → (o : BitVec 32) → AddressSpace → AddressSpace
  | 0, _, memory => memory
  | count + 1, o, memory => memsetLoop c count (o + 1) (Function.update memory o c)

def memset (dest ch count : BitVec 32) (memory : AddressSpace) : BitVec 32 × AddressSpace :=
  (dest, memsetLoop (ch.setWidth 8) count.toNat dest memory)

def memcpy (dest src n : BitVec 32) (memory : AddressSpace) : BitVec 32 × AddressSpace :=
  (dest, copyUp n.toNat dest src memory)

/-- `memcmp`, from the bytes that are left. -/
def memcmpLoop (memory : AddressSpace) : (n : ℕ) → (a b : BitVec 32) → ℤ
  | 0, _, _ => 0
  | n + 1, a, b =>
      if memory a = memory b then memcmpLoop memory n (a + 1) (b + 1)
      else byteDifference (memory a) (memory b)

def memcmp (lhs rhs n : BitVec 32) (memory : AddressSpace) : ℤ :=
  memcmpLoop memory n.toNat lhs rhs

/-- `for(;n;++i,--n) if(*i == c) return (void*)i;` -/
def memchrLoop (memory : AddressSpace) (c : Byte) : (n : ℕ) → (i : BitVec 32) → BitVec 32
  | 0, _ => 0
  | n + 1, i => if memory i = c then i else memchrLoop memory c n (i + 1)

def memchr (ptr ch n : BitVec 32) (memory : AddressSpace) : BitVec 32 :=
  memchrLoop memory (ch.setWidth 8) n.toNat ptr

/-- The characters of a string are followed by those of another. -/
def CString.append (before string : CString) : CString where
  chars := before.chars ++ string.chars
  noNul := by
    rw [List.mem_append, not_or]
    exact ⟨before.noNul, string.noNul⟩

section Scan

variable {memory : AddressSpace} {str o i : BitVec 32} {bound : ℕ} {chars : List Byte}

/-- A string that is not empty: its first character, and the string behind it. -/
theorem string_cons {first : Byte} (noNul : 0 ∉ first :: chars)
    (isString : stretch memory str ((first :: chars).length + 1) = (first :: chars) ++ [0]) :
    memory str = first ∧ first ≠ 0 ∧ 0 ∉ chars ∧
      stretch memory (str + 1) (chars.length + 1) = chars ++ [0] := by
  rw [List.length_cons, stretch_succ, List.cons_append, List.cons.injEq] at isString
  refine ⟨isString.1, ?_, List.not_mem_of_not_mem_cons noNul, isString.2⟩
  exact fun isNul => noNul (by simp [isNul])

theorem string_nil (isString : stretch memory str (([] : List Byte).length + 1) = [] ++ [0]) :
    memory str = 0 := by
  simpa [stretch] using isString

theorem add_one_ofNat (start : BitVec 32) (k : ℕ) :
    start + 1 + BitVec.ofNat 32 k = start + BitVec.ofNat 32 (k + 1) := by
  rw [Nat.add_comm k 1, BitVec.ofNat_add, BitVec.add_assoc]
  rfl

theorem strlenLoop_eq (noNul : 0 ∉ chars)
    (isString : stretch memory str (chars.length + 1) = chars ++ [0])
    (enough : chars.length < bound) :
    strlenLoop memory bound str i = some (i + BitVec.ofNat 32 chars.length) := by
  induction chars generalizing str i bound with
  | nil =>
      cases bound with
      | zero => exact absurd enough (Nat.not_lt_zero _)
      | succ bound =>
          rw [strlenLoop, if_pos (string_nil isString), List.length_nil, BitVec.add_zero]
  | cons first chars ih =>
      rcases string_cons noNul isString with ⟨isFirst, nonNul, rest, isRest⟩
      cases bound with
      | zero => exact absurd enough (Nat.not_lt_zero _)
      | succ bound =>
          rw [strlenLoop, isFirst, if_neg nonNul, ih rest isRest (Nat.lt_of_succ_lt_succ enough),
            add_one_ofNat, List.length_cons]

theorem strcatLoop_eq (noNul : 0 ∉ chars)
    (isString : stretch memory o (chars.length + 1) = chars ++ [0])
    (enough : chars.length < bound) :
    strcatLoop memory bound o = some (o + BitVec.ofNat 32 chars.length) := by
  induction chars generalizing o bound with
  | nil =>
      cases bound with
      | zero => exact absurd enough (Nat.not_lt_zero _)
      | succ bound =>
          rw [strcatLoop, if_pos (string_nil isString), List.length_nil, BitVec.add_zero]
  | cons first chars ih =>
      rcases string_cons noNul isString with ⟨isFirst, nonNul, rest, isRest⟩
      cases bound with
      | zero => exact absurd enough (Nat.not_lt_zero _)
      | succ bound =>
          rw [strcatLoop, isFirst, if_neg nonNul, ih rest isRest (Nat.lt_of_succ_lt_succ enough),
            add_one_ofNat, List.length_cons]

/-- What is copied to an address is not read again behind the source. -/
theorem unread_next {value : Byte} {count : ℕ}
    (apart : ∀ k ≤ count, o ≠ i + BitVec.ofNat 32 k) :
    stretch (Function.update memory o value) (i + 1) count = stretch memory (i + 1) count := by
  apply stretch_update
  intro k inside same
  rw [add_one_ofNat] at same
  exact apart (k + 1) inside same.symm

/-- All bytes up to the NUL are copied, and the NUL. -/
theorem strcpyLoop_eq (noNul : 0 ∉ chars)
    (isString : stretch memory i (chars.length + 1) = chars ++ [0])
    (apart : ∀ j ≤ chars.length, ∀ k ≤ chars.length, o + BitVec.ofNat 32 j ≠ i + BitVec.ofNat 32 k)
    (fits : chars.length < 2 ^ 32) (enough : chars.length < bound) :
    strcpyLoop bound o i memory = some (overwrite memory o (chars ++ [0])) := by
  induction chars generalizing o i memory bound with
  | nil =>
      cases bound with
      | zero => exact absurd enough (Nat.not_lt_zero _)
      | succ bound =>
          have isNul := string_nil isString
          rw [strcpyLoop, if_pos isNul, isNul, List.nil_append, overwrite_singleton]
  | cons first chars ih =>
      rcases string_cons noNul isString with ⟨isFirst, nonNul, rest, isRest⟩
      rw [List.length_cons] at apart fits enough
      cases bound with
      | zero => exact absurd enough (Nat.not_lt_zero _)
      | succ bound =>
          have unread := @unread_next memory o i (memory i) (chars.length + 1) fun k kLe => by
            have here := apart 0 (Nat.zero_le _) k kLe
            rwa [BitVec.add_zero] at here
          have nextApart : ∀ j ≤ chars.length, ∀ k ≤ chars.length,
              o + 1 + BitVec.ofNat 32 j ≠ i + 1 + BitVec.ofNat 32 k := by
            intro j jLe k kLe
            rw [add_one_ofNat, add_one_ofNat]
            exact apart (j + 1) (by omega) (k + 1) (by omega)
          have copied := ih rest (unread.trans isRest) nextApart (Nat.lt_of_succ_lt fits)
            (Nat.lt_of_succ_lt_succ enough)
          rw [strcpyLoop, isFirst, if_neg nonNul, ← isFirst, copied, isFirst, List.cons_append,
            overwrite_cons]
          rw [List.length_append, List.length_singleton]
          exact fits

end Scan

section Order

variable {memory : AddressSpace} {a b : BitVec 32} {bound : ℕ} {first second : Byte}
  {xs ys : List Byte}

/-- The sign of a result tells how two sequences of bytes compare. -/
def Compares (result : ℤ) (xs ys : List Byte) : Prop :=
  (result < 0 ↔ xs < ys) ∧ (result = 0 ↔ xs = ys) ∧ (0 < result ↔ ys < xs)

theorem compares_nil : Compares 0 [] [] := by
  simp [Compares]

/-- The first difference decides. -/
theorem compares_of_ne (differ : first ≠ second) :
    Compares (byteDifference first second) (first :: xs) (second :: ys) := by
  have differNat : first.toNat ≠ second.toNat := fun same => differ (BitVec.eq_of_toNat_eq same)
  rw [Compares, byteDifference, List.cons_lt_cons_iff, List.cons_lt_cons_iff, BitVec.lt_def,
    BitVec.lt_def, List.cons.injEq]
  simp only [differ, differ.symm, false_and, or_false, iff_false]
  omega

/-- Equal bytes leave the decision to the rest. -/
theorem Compares.cons {result : ℤ} (compares : Compares result xs ys) :
    Compares result (first :: xs) (first :: ys) := by
  rw [Compares, List.cons_lt_cons_iff, List.cons_lt_cons_iff, BitVec.lt_def, List.cons.injEq]
  simp only [Nat.lt_irrefl, true_and, false_or]
  exact compares

/-- A string that ends is before one that goes on. -/
theorem compares_end_left (nonNul : second ≠ 0) :
    Compares (byteDifference 0 second) [] (second :: ys) := by
  have positive : second.toNat ≠ 0 := fun same => nonNul (BitVec.eq_of_toNat_eq same)
  have zero : (0 : Byte).toNat = 0 := rfl
  rw [Compares, byteDifference, zero]
  simp only [List.nil_lt_cons, reduceCtorEq, List.not_lt_nil, iff_true, iff_false]
  omega

theorem compares_end_right (nonNul : first ≠ 0) :
    Compares (byteDifference first 0) (first :: xs) [] := by
  have positive : first.toNat ≠ 0 := fun same => nonNul (BitVec.eq_of_toNat_eq same)
  have zero : (0 : Byte).toNat = 0 := rfl
  rw [Compares, byteDifference, zero]
  simp only [List.nil_lt_cons, reduceCtorEq, List.not_lt_nil, iff_true, iff_false]
  omega

theorem memcmpLoop_compares (n : ℕ) (a b : BitVec 32) :
    Compares (memcmpLoop memory n a b) (stretch memory a n) (stretch memory b n) := by
  induction n generalizing a b with
  | zero => exact compares_nil
  | succ n ih =>
      rw [memcmpLoop, stretch_succ, stretch_succ]
      split
      · next same =>
          rw [same]
          exact (ih (a + 1) (b + 1)).cons
      · next differ => exact compares_of_ne differ

theorem strcmp_compares (noNulX : 0 ∉ xs) (noNulY : 0 ∉ ys)
    (isX : stretch memory a (xs.length + 1) = xs ++ [0])
    (isY : stretch memory b (ys.length + 1) = ys ++ [0])
    (enough : min xs.length ys.length < bound) :
    ∃ result, strcmp memory bound a b = some result ∧ Compares result xs ys := by
  induction bound generalizing a b xs ys with
  | zero => exact absurd enough (Nat.not_lt_zero _)
  | succ bound ih =>
      rw [strcmp]
      rcases xs with _ | ⟨first, xs⟩
      · have endX := string_nil isX
        rw [if_neg fun goesOn => goesOn.2 endX, endX]
        rcases ys with _ | ⟨second, ys⟩
        · rw [string_nil isY]
          exact ⟨_, rfl, compares_nil⟩
        · rcases string_cons noNulY isY with ⟨isSecond, nonNul, -⟩
          rw [isSecond]
          exact ⟨_, rfl, compares_end_left nonNul⟩
      · rcases string_cons noNulX isX with ⟨isFirst, nonNul, restX, isRestX⟩
        rw [isFirst]
        rcases ys with _ | ⟨second, ys⟩
        · rw [string_nil isY, if_neg fun goesOn => nonNul goesOn.1]
          exact ⟨_, rfl, compares_end_right nonNul⟩
        · rcases string_cons noNulY isY with ⟨isSecond, -, restY, isRestY⟩
          rw [isSecond]
          by_cases same : first = second
          · rw [if_pos ⟨same, nonNul⟩]
            rw [List.length_cons, List.length_cons] at enough
            rcases ih restX restY isRestX isRestY (by omega) with ⟨result, returns, compares⟩
            refine ⟨result, returns, ?_⟩
            rw [same]
            exact compares.cons
          · rw [if_neg fun goesOn => same goesOn.1]
            exact ⟨_, rfl, compares_of_ne same⟩

end Order

section Blocks

variable {memory : AddressSpace}

theorem memsetLoop_eq (c : Byte) {n : ℕ} (fits : n ≤ 2 ^ 32) (o : BitVec 32) :
    memsetLoop c n o memory = overwrite memory o (List.replicate n c) := by
  induction n generalizing o memory with
  | zero => rfl
  | succ n ih =>
      rw [memsetLoop, ih (Nat.le_of_succ_le fits), List.replicate_succ, overwrite_cons]
      rw [List.length_replicate]
      exact fits

/-- Copying upwards to another place. -/
theorem copyUp_apart {n : ℕ} {o i : BitVec 32} (fits : n ≤ 2 ^ 32)
    (apart : ∀ j < n, ∀ k < n, o + BitVec.ofNat 32 j ≠ i + BitVec.ofNat 32 k) :
    copyUp n o i memory = overwrite memory o (stretch memory i n) := by
  induction n generalizing o i memory with
  | zero => rfl
  | succ n ih =>
      have unread := @unread_next memory o i (memory i) n fun k kLe => by
        have here := apart 0 (Nat.succ_pos _) k (Nat.lt_succ_of_le kLe)
        rwa [BitVec.add_zero] at here
      have nextApart : ∀ j < n, ∀ k < n,
          o + 1 + BitVec.ofNat 32 j ≠ i + 1 + BitVec.ofNat 32 k := by
        intro j jLt k kLt
        rw [add_one_ofNat, add_one_ofNat]
        exact apart (j + 1) (Nat.succ_lt_succ jLt) (k + 1) (Nat.succ_lt_succ kLt)
      rw [copyUp, ih (Nat.le_of_succ_le fits) nextApart, unread, stretch_succ, overwrite_cons]
      rw [length_stretch]
      exact fits

theorem copyUp_self (n : ℕ) (o : BitVec 32) : copyUp n o o memory = memory := by
  induction n generalizing o with
  | zero => rfl
  | succ n ih => rw [copyUp, Function.update_eq_self, ih]

/-- Copying upwards to a place inside the source repeats what stands before that place: the last
byte is that value, as the bytes before are. -/
theorem copyUp_repeats {value : Byte} {distance : ℕ} (n : ℕ) {i : BitVec 32}
    (short : distance < 2 ^ 32) (positive : 0 < distance)
    (before : ∀ k < distance, memory (i + BitVec.ofNat 32 k) = value) :
    copyUp (n + 1) (i + BitVec.ofNat 32 distance) i memory
      (i + BitVec.ofNat 32 distance + BitVec.ofNat 32 n) = value := by
  have here : memory i = value := by
    have first := before 0 positive
    rwa [BitVec.add_zero] at first
  induction n generalizing i memory with
  | zero => rw [BitVec.add_zero, copyUp, copyUp, Function.update_self, here]
  | succ n ih =>
      have next : i + BitVec.ofNat 32 distance + 1 = i + 1 + BitVec.ofNat 32 distance := by
        rw [BitVec.add_assoc, BitVec.add_comm (BitVec.ofNat 32 distance), ← BitVec.add_assoc]
      have beforeNext : ∀ k < distance,
          Function.update memory (i + BitVec.ofNat 32 distance) (memory i)
            (i + 1 + BitVec.ofNat 32 k) = value := by
        intro k kLt
        rw [add_one_ofNat]
        by_cases last : k + 1 = distance
        · rw [last, Function.update_self, here]
        · rw [Function.update_of_ne, before _ (by omega)]
          intro same
          have sameNat := congrArg (fun address => (address - i).toNat) same
          simp only [toNat_offset (show k + 1 < 2 ^ 32 by omega), toNat_offset short] at sameNat
          exact last sameNat
      have nextHere := beforeNext 0 positive
      rw [BitVec.add_zero] at nextHere
      rw [copyUp, ← add_one_ofNat, next]
      exact ih beforeNext nextHere

theorem memchrLoop_spec (c : Byte) {n : ℕ} (fits : n ≤ 2 ^ 32) (i : BitVec 32) :
    (∃ k < n, memory (i + BitVec.ofNat 32 k) = c ∧
      (∀ j < k, memory (i + BitVec.ofNat 32 j) ≠ c) ∧
        memchrLoop memory c n i = i + BitVec.ofNat 32 k) ∨
      (∀ k < n, memory (i + BitVec.ofNat 32 k) ≠ c) ∧ memchrLoop memory c n i = 0 := by
  induction n generalizing i with
  | zero => exact Or.inr ⟨fun k kLt => absurd kLt (Nat.not_lt_zero _), rfl⟩
  | succ n ih =>
      rw [memchrLoop]
      split
      · next isHere =>
          left
          refine ⟨0, Nat.succ_pos _, ?_, fun j jLt => absurd jLt (Nat.not_lt_zero _), ?_⟩
          · rw [BitVec.add_zero]
            exact isHere
          · rw [BitVec.add_zero]
      · next notHere =>
          have notFirst {k : ℕ} (before : ∀ j < k, memory (i + 1 + BitVec.ofNat 32 j) ≠ c) :
              ∀ j < k + 1, memory (i + BitVec.ofNat 32 j) ≠ c := by
            intro j jLt
            cases j with
            | zero =>
                rw [BitVec.add_zero]
                exact notHere
            | succ j =>
                rw [← add_one_ofNat]
                exact before j (Nat.lt_of_succ_lt_succ jLt)
          rcases ih (Nat.le_of_succ_le fits) (i + 1) with
            ⟨k, kLt, isThere, isFirst, found⟩ | ⟨nowhere, notFound⟩
          · left
            refine ⟨k + 1, Nat.succ_lt_succ kLt, ?_, notFirst isFirst, ?_⟩
            · rw [← add_one_ofNat]
              exact isThere
            · rw [found, add_one_ofNat]
          · right
            exact ⟨notFirst nowhere, notFound⟩

end Blocks

section Results

variable {memory : AddressSpace} {dest src : BitVec 32} {before string : CString} {bound : ℕ}

/-- The address is none of the bytes. -/
def Outside (start : BitVec 32) (count : ℕ) (address : BitVec 32) : Prop :=
  ∀ k < count, address ≠ start + BitVec.ofNat 32 k

/-- What stands before the bytes that are written stays, and they follow it. -/
theorem stretch_overwrite_behind {values : List Byte} {count : ℕ}
    (fits : count + values.length ≤ 2 ^ 32) :
    stretch (overwrite memory (dest + BitVec.ofNat 32 count) values) dest (count + values.length) =
      stretch memory dest count ++ values := by
  rw [stretch_add]
  congr 1
  · apply stretch_congr
    intro k inside
    apply overwrite_outside
    intro j jLt same
    rw [BitVec.add_assoc, ← BitVec.ofNat_add] at same
    have sameNat := congrArg (fun address => (address - dest).toNat) same
    simp only [toNat_offset (show k < 2 ^ 32 by omega),
      toNat_offset (show count + j < 2 ^ 32 by omega)] at sameNat
    omega
  · apply List.ext_getElem (length_stretch _)
    intro k inside isLt
    rw [stretch_getElem, overwrite_inside (by omega) isLt]

/-- A string that is copied to a place of its own: a comparison finds it equal to the source, its
length is the same, and no other byte is written. -/
theorem strcpy_copies (isString : StringAt memory src string)
    (apart : ApartFrom dest (string.chars.length + 1) src string)
    (fits : string.chars.length < 2 ^ 32) (enough : string.chars.length < bound) :
    ∃ copied, strcpy bound dest src memory = some (dest, copied) ∧
      StringAt copied dest string ∧ strcmp copied bound dest src = some 0 ∧
      strlen bound dest copied = strlen bound src memory ∧
      ∀ address, Outside dest (string.chars.length + 1) address →
        copied address = memory address := by
  have count : string.pointer.length = string.chars.length + 1 := by
    rw [CString.pointer, List.length_append, List.length_singleton]
  have isCopied : strcpyLoop bound dest src memory =
      some (overwrite memory dest string.pointer) :=
    strcpyLoop_eq string.noNul isString
      (fun j jLe => apart j (Nat.lt_succ_of_le jLe)) fits enough
  have outside : ∀ address, Outside dest (string.chars.length + 1) address →
      overwrite memory dest string.pointer address = memory address := by
    intro address isOutside
    apply overwrite_outside
    rw [count]
    exact isOutside
  have there : StringAt (overwrite memory dest string.pointer) dest string := by
    have behind := @stretch_overwrite_behind memory dest string.pointer 0 (by omega)
    rw [BitVec.add_zero, Nat.zero_add, count] at behind
    exact behind
  have stays : StringAt (overwrite memory dest string.pointer) src string := by
    refine Eq.trans (stretch_congr fun k inside => outside _ ?_) isString
    intro j jLt same
    exact apart j jLt k (Nat.le_of_lt_succ inside) same.symm
  refine ⟨_, by rw [strcpy, isCopied, Option.map_some], there, ?_, ?_, outside⟩
  · rcases strcmp_compares string.noNul string.noNul there stays (by rwa [Nat.min_self]) with
      ⟨result, returns, compares⟩
    rw [returns, compares.2.1.mpr rfl]
  · rw [strlen, strlenLoop_eq string.noNul there enough, strlen,
      strlenLoop_eq string.noNul isString enough]

/-- `strcat` makes one string of two, whose length is the sum; no byte but those behind the first
string is written. -/
theorem strcat_appends (isBefore : StringAt memory dest before)
    (isString : StringAt memory src string)
    (apart : ApartFrom (dest + BitVec.ofNat 32 before.chars.length) (string.chars.length + 1) src
      string)
    (fits : before.chars.length + string.chars.length < 2 ^ 32)
    (enough : before.chars.length + string.chars.length < bound) :
    ∃ appended, strcat bound dest src memory = some (dest, appended) ∧
      StringAt appended dest (before.append string) ∧
      strlen bound dest appended =
        some (BitVec.ofNat 32 (before.chars.length + string.chars.length)) ∧
      ∀ address, Outside (dest + BitVec.ofNat 32 before.chars.length) (string.chars.length + 1)
        address → appended address = memory address := by
  have count : string.pointer.length = string.chars.length + 1 := by
    rw [CString.pointer, List.length_append, List.length_singleton]
  have atEnd := strcatLoop_eq before.noNul isBefore
    (Nat.lt_of_le_of_lt (Nat.le_add_right _ _) enough)
  have isCopied := @strcpyLoop_eq memory (dest + BitVec.ofNat 32 before.chars.length) src bound
    string.chars string.noNul isString (fun j jLe => apart j (Nat.lt_succ_of_le jLe))
    (Nat.lt_of_le_of_lt (Nat.le_add_left _ _) fits)
    (Nat.lt_of_le_of_lt (Nat.le_add_left _ _) enough)
  have there : StringAt (overwrite memory (dest + BitVec.ofNat 32 before.chars.length)
      string.pointer) dest (before.append string) := by
    have front : stretch memory dest before.chars.length = before.chars := by
      rw [StringAt, stretch_succ_last, CString.pointer] at isBefore
      exact (List.append_inj isBefore (length_stretch _)).1
    rw [StringAt, CString.append, List.length_append, Nat.add_assoc, ← count,
      stretch_overwrite_behind (by omega), front, CString.pointer, CString.pointer,
      List.append_assoc]
  have returns : strcat bound dest src memory = some (dest, overwrite memory
      (dest + BitVec.ofNat 32 before.chars.length) string.pointer) := by
    rw [strcat, atEnd]
    exact congrArg (Option.map _) isCopied
  refine ⟨_, returns, there, ?_, ?_⟩
  · have length : (before.append string).chars.length =
        before.chars.length + string.chars.length := List.length_append
    rw [strlen, strlenLoop_eq (before.append string).noNul there (by rwa [length]), length]
    exact congrArg some (BitVec.zero_add _)
  · intro address isOutside
    apply overwrite_outside
    rw [← count] at isOutside
    exact isOutside

/-- The string `ab` is appended to the string `x`, and then there are three characters. -/
theorem strcat_appends_ab : ∃ appended,
    strcat 4 0x2000 0x1000 twoStrings = some (0x2000, appended) ∧
    StringAt appended 0x2000 (CString.x.append CString.ab) ∧
    strlen 4 0x2000 appended = some 3 ∧
    ∀ address, Outside (0x2000 + BitVec.ofNat 32 1) 3 address →
      appended address = twoStrings address :=
  strcat_appends twoStrings_x twoStrings_ab (by rw [ApartFrom]; decide) (by decide) (by decide)

/-- `strcmp` returns for two strings, and it orders them as `memcmp` orders any two stretches of
`n` bytes: lexicographically, by the bytes as unsigned numbers. -/
theorem comparisons_order {x y : CString} {a b lhs rhs n : BitVec 32}
    (isX : StringAt memory a x) (isY : StringAt memory b y)
    (enough : min x.chars.length y.chars.length < bound) :
    (∃ result, strcmp memory bound a b = some result ∧ Compares result x.chars y.chars) ∧
      Compares (memcmp lhs rhs n memory) (stretch memory lhs n.toNat)
        (stretch memory rhs n.toNat) :=
  ⟨strcmp_compares x.noNul y.noNul isX isY enough, memcmpLoop_compares n.toNat lhs rhs⟩

theorem comparisons_order_ab :
    (∃ result, strcmp twoStrings 2 0x1000 0x2000 = some result ∧
      Compares result CString.ab.chars CString.x.chars) ∧
    Compares (memcmp 0x1000 0x2000 3 twoStrings) (stretch twoStrings 0x1000 3)
      (stretch twoStrings 0x2000 3) :=
  @comparisons_order twoStrings 2 CString.ab CString.x 0x1000 0x2000 0x1000 0x2000 3 twoStrings_ab
    twoStrings_x (by decide)

/-- `memcpy` does what `memmove` does, whatever the memory is, exactly if the destination does not
begin inside the source. -/
theorem memcpy_eq_memmove_iff {dest src n : BitVec 32} (destFits : dest.toNat + n.toNat ≤ 2 ^ 32)
    (srcFits : src.toNat + n.toNat ≤ 2 ^ 32) :
    (∀ memory : AddressSpace, memcpy dest src n memory = memmove dest src n memory) ↔
      dest.toNat ≤ src.toNat ∨ src.toNat + n.toNat ≤ dest.toNat := by
  constructor
  · intro agree
    by_contra inside
    rw [not_or, Nat.not_le, Nat.not_le] at inside
    rcases inside with ⟨above, below⟩
    obtain ⟨rest, count⟩ : ∃ rest, n.toNat = rest + 1 := ⟨n.toNat - 1, by omega⟩
    -- only the last byte of the source is not zero
    let memory : AddressSpace := fun address =>
      if address = src + BitVec.ofNat 32 rest then 1 else 0
    have isDest : src + BitVec.ofNat 32 (dest.toNat - src.toNat) = dest := by
      apply BitVec.eq_of_toNat_eq
      rw [toNat_add_of_fits srcFits (by omega)]
      omega
    have zeros : ∀ k < dest.toNat - src.toNat, memory (src + BitVec.ofNat 32 k) = 0 := by
      intro k kLt
      apply if_neg
      intro same
      have sameNat := congrArg (fun address => (address - src).toNat) same
      simp only [toNat_offset (show k < 2 ^ 32 by omega),
        toNat_offset (show rest < 2 ^ 32 by omega)] at sameNat
      omega
    have repeated := copyUp_repeats rest (show dest.toNat - src.toNat < 2 ^ 32 by omega)
      (by omega) zeros
    have moved := (memmove_moves memory destFits srcFits).2.1 rest (by omega)
    rw [← agree memory, memcpy, count] at moved
    rw [isDest] at repeated
    have last : memory (src + BitVec.ofNat 32 rest) = 1 := if_pos rfl
    rw [last] at moved
    exact absurd (repeated.symm.trans moved) (by decide)
  · intro notInside memory
    have atMost : n.toNat ≤ 2 ^ 32 := Nat.le_of_lt n.isLt
    rw [memmove_eq destFits srcFits, memcpy]
    congr 1
    rcases notInside with notAbove | above
    · rcases Nat.lt_or_eq_of_le notAbove with below | same
      · exact copyUp_eq below srcFits
      · rw [BitVec.eq_of_toNat_eq same, copyUp_self]
        symm
        rw [overwrite_eq_self_iff (by rwa [length_stretch]), length_stretch]
    · apply copyUp_apart atMost
      intro j jLt k kLt same
      have sameNat := congrArg BitVec.toNat same
      rw [toNat_add_of_fits destFits jLt, toNat_add_of_fits srcFits kLt] at sameNat
      omega

/-- Ten bytes that are to be moved up by three are among those that `memcpy` gets wrong. -/
theorem memcpy_eq_memmove_iff_overlapping :
    ¬∀ memory : AddressSpace, memcpy 0x1003 0x1000 10 memory = memmove 0x1003 0x1000 10 memory := by
  rw [memcpy_eq_memmove_iff (by decide) (by decide)]
  decide

/-- `memset` fills `count` bytes with the low byte of `ch`, and nothing else; `memchr` then finds
that byte at once and no other byte. -/
theorem memset_memchr {ch other count : BitVec 32} (nonZero : count ≠ 0)
    (differ : other.setWidth 8 ≠ ch.setWidth 8) :
    (memset dest ch count memory).2 = overwrite memory dest
        (List.replicate count.toNat (ch.setWidth 8)) ∧
      memchr dest ch count (memset dest ch count memory).2 = dest ∧
      memchr dest other count (memset dest ch count memory).2 = 0 := by
  have atMost : count.toNat ≤ 2 ^ 32 := Nat.le_of_lt count.isLt
  have filled := @memsetLoop_eq memory (ch.setWidth 8) _ atMost dest
  have inside : ∀ k < count.toNat,
      memsetLoop (ch.setWidth 8) count.toNat dest memory (dest + BitVec.ofNat 32 k) =
        ch.setWidth 8 := by
    intro k kLt
    rw [filled, overwrite_inside (by rwa [List.length_replicate])
      (by rwa [List.length_replicate]), List.getElem_replicate]
  refine ⟨filled, ?_, ?_⟩
  · have first : 0 < count.toNat := by
      rw [Nat.pos_iff_ne_zero]
      exact fun isZero => nonZero (BitVec.eq_of_toNat_eq isZero)
    rcases @memchrLoop_spec (memset dest ch count memory).2 (ch.setWidth 8) _ atMost dest with
      ⟨k, kLt, -, isFirst, found⟩ | ⟨nowhere, -⟩
    · have isZero : k = 0 := by
        by_contra later
        exact isFirst 0 (Nat.pos_of_ne_zero later) (inside 0 first)
      rw [memchr, found, isZero, BitVec.add_zero]
    · exact absurd (inside 0 first) (nowhere 0 first)
  · rcases @memchrLoop_spec (memset dest ch count memory).2 (other.setWidth 8) _ atMost dest with
      ⟨k, kLt, isThere, -⟩ | ⟨-, notFound⟩
    · exact absurd (isThere.symm.trans (inside k kLt)) differ
    · exact notFound

end Results

end Rkernel
