import Rkernel.Lib.Stretch
import Rkernel.Libkern.Formatter

/-!
# Copying bytes and strings

`memmove`, `strncpy` and `strncat` (`libkern/string.c`) on memory with addresses of 32 bits.
The loops read the memory as the iterations before have left it. What `__restrict__` lets a
compiler assume is left out: the statements are executed in order.

`memmove` is right for every overlap. The other two stop when `n` is used up or the NUL is
copied, and one `n` counts all iterations of both loops of `strncat`. So `strncpy` does not
pad, and `strncat` neither appends what it should nor a NUL unless both strings fit in `n`.
-/

namespace Rkernel

open Stretch

abbrev AddressSpace := BitVec 32 → Byte

/-- `for(;n; ++i,++o,--n) *o = *i;` -/
def copyUp : (n : ℕ) → (o i : BitVec 32) → AddressSpace → AddressSpace
  | 0, _, _, memory => memory
  | n + 1, o, i, memory => copyUp n (o + 1) (i + 1) (Function.update memory o (memory i))

/-- `for(;n; --i,--o,--n) *o = *i;` -/
def copyDown : (n : ℕ) → (o i : BitVec 32) → AddressSpace → AddressSpace
  | 0, _, _, memory => memory
  | n + 1, o, i, memory => copyDown n (o - 1) (i - 1) (Function.update memory o (memory i))

/-- `memmove`: the returned pointer and the memory. -/
def memmove (dest src n : BitVec 32) (memory : AddressSpace) : BitVec 32 × AddressSpace :=
  if src > dest then (dest, copyUp n.toNat dest src memory)
  else (dest, copyDown n.toNat (dest + (n - 1)) (src + (n - 1)) memory)

/-- `for(;n && (*o = (*i)); ++o,++i,--n);` -/
def copyString : (n : ℕ) → (o i : BitVec 32) → AddressSpace → AddressSpace
  | 0, _, _, memory => memory
  | n + 1, o, i, memory =>
      let copied := Function.update memory o (memory i)
      if memory i = 0 then copied else copyString n (o + 1) (i + 1) copied

/-- `for(;n && *o; ++o,--n);` with what is left of `n`, and the pointer. -/
def scanString : (n : ℕ) → (o : BitVec 32) → AddressSpace → ℕ × BitVec 32
  | 0, o, _ => (0, o)
  | n + 1, o, memory => if memory o = 0 then (n + 1, o) else scanString n (o + 1) memory

def strncpy (dest src n : BitVec 32) (memory : AddressSpace) : BitVec 32 × AddressSpace :=
  (dest, copyString n.toNat dest src memory)

def strncat (dest src n : BitVec 32) (memory : AddressSpace) : BitVec 32 × AddressSpace :=
  let scanned := scanString n.toNat dest memory
  (dest, copyString scanned.1 scanned.2 src memory)

section Move

variable {memory : AddressSpace} {o i : BitVec 32} {n : ℕ}

theorem toNat_add_of_fits {start : BitVec 32} {count k : ℕ} (fits : start.toNat + count ≤ 2 ^ 32)
    (inside : k < count) : (start + BitVec.ofNat 32 k).toNat = start.toNat + k := by
  rw [BitVec.toNat_add, BitVec.toNat_ofNat]
  omega

theorem stretch_update {start address : BitVec 32} {count : ℕ} {value : Byte}
    (apart : ∀ k < count, start + BitVec.ofNat 32 k ≠ address) :
    stretch (Function.update memory address value) start count = stretch memory start count :=
  stretch_congr fun k inside => Function.update_of_ne (apart k inside) _ _

/-- Copying upwards reads no byte that was written, as the source is above. -/
theorem copyUp_eq (above : o.toNat < i.toNat) (fits : i.toNat + n ≤ 2 ^ 32) :
    copyUp n o i memory = overwrite memory o (stretch memory i n) := by
  induction n generalizing o i memory with
  | zero => rfl
  | succ n ih =>
      rw [copyUp, stretch_succ, overwrite_cons (by rw [length_stretch]; omega)]
      cases n with
      | zero => rfl
      | succ n =>
          have one : (1 : BitVec 32).toNat = 1 := rfl
          have nextI : (i + 1).toNat = i.toNat + 1 := by
            rw [BitVec.toNat_add, one]
            omega
          have nextO : (o + 1).toNat = o.toNat + 1 := by
            rw [BitVec.toNat_add, one]
            omega
          have unread : stretch (Function.update memory o (memory i)) (i + 1) (n + 1) =
              stretch memory (i + 1) (n + 1) := by
            apply stretch_update
            intro k inside same
            have sameNat := congrArg BitVec.toNat same
            rw [@toNat_add_of_fits _ (n + 1) _ (by omega) inside] at sameNat
            omega
          rw [ih (by omega) (by omega), unread]

/-- Copying downwards reads no byte that was written, as the source is not above. -/
theorem copyDown_eq (notAbove : i.toNat ≤ o.toNat) (fits : o.toNat + n ≤ 2 ^ 32) :
    copyDown n (o + (BitVec.ofNat 32 n - 1)) (i + (BitVec.ofNat 32 n - 1)) memory =
      overwrite memory o (stretch memory i n) := by
  induction n generalizing memory with
  | zero => rfl
  | succ n ih =>
      have last : BitVec.ofNat 32 (n + 1) - 1 = BitVec.ofNat 32 n := by
        rw [BitVec.ofNat_add]
        exact BitVec.add_sub_cancel _ _
      have before (start : BitVec 32) :
          start + BitVec.ofNat 32 n - 1 = start + (BitVec.ofNat 32 n - 1) := by
        rw [BitVec.sub_eq_add_neg, BitVec.sub_eq_add_neg, BitVec.add_assoc]
      have unread : stretch (Function.update memory (o + BitVec.ofNat 32 n)
            (memory (i + BitVec.ofNat 32 n))) i n = stretch memory i n := by
        apply stretch_update
        intro k inside same
        have sameNat := congrArg BitVec.toNat same
        rw [@toNat_add_of_fits o (n + 1) n (by omega) (by omega),
          @toNat_add_of_fits i n k (by omega) inside] at sameNat
        omega
      rw [last, copyDown, before, before, ih (by omega), unread, stretch_succ_last,
        overwrite_concat (by rw [length_stretch]; omega), length_stretch]

theorem memmove_eq {dest src n : BitVec 32} (destFits : dest.toNat + n.toNat ≤ 2 ^ 32)
    (srcFits : src.toNat + n.toNat ≤ 2 ^ 32) :
    memmove dest src n memory = (dest, overwrite memory dest (stretch memory src n.toNat)) := by
  rw [memmove]
  split
  · rename_i above
    rw [copyUp_eq (BitVec.lt_def.mp above) srcFits]
  · rename_i notAbove
    have down := @copyDown_eq memory dest src n.toNat
      (Nat.le_of_not_lt fun above => notAbove (BitVec.lt_def.mpr above)) destFits
    rw [BitVec.ofNat_toNat, BitVec.setWidth_eq] at down
    rw [down]

/-- `memmove` copies the bytes as they were before the call, whether or not the two buffers
overlap, and changes nothing else. -/
theorem memmove_moves (memory : AddressSpace) {dest src n : BitVec 32}
    (destFits : dest.toNat + n.toNat ≤ 2 ^ 32) (srcFits : src.toNat + n.toNat ≤ 2 ^ 32) :
    (memmove dest src n memory).1 = dest ∧
      (∀ k < n.toNat, (memmove dest src n memory).2 (dest + BitVec.ofNat 32 k) =
        memory (src + BitVec.ofNat 32 k)) ∧
      ∀ address : BitVec 32, address.toNat < dest.toNat ∨ dest.toNat + n.toNat ≤ address.toNat →
        (memmove dest src n memory).2 address = memory address := by
  have count : (stretch memory src n.toNat).length = n.toNat := length_stretch _
  have fits : (stretch memory src n.toNat).length ≤ 2 ^ 32 := by omega
  rw [memmove_eq destFits srcFits]
  refine ⟨rfl, ?_, ?_⟩
  · intro k inside
    change overwrite memory dest _ (dest + BitVec.ofNat 32 k) = _
    rw [@overwrite_inside 32 Byte memory dest _ k fits (by omega), stretch_getElem]
  · intro address outside
    apply overwrite_outside
    rintro k inside rfl
    rw [toNat_add_of_fits destFits (by omega)] at outside
    omega

/-- Ten bytes are moved up by three: the first and the last of them, and the byte behind. -/
theorem memmove_moves_overlapping :
    (memmove 0x1003 0x1000 10 fun address => address.setWidth 8).2 0x1003 = 0x00 ∧
      (memmove 0x1003 0x1000 10 fun address => address.setWidth 8).2 0x100c = 0x09 ∧
      (memmove 0x1003 0x1000 10 fun address => address.setWidth 8).2 0x100d = 0x0d := by
  have moves := @memmove_moves (fun address => address.setWidth 8) 0x1003 0x1000 10 (by decide)
    (by decide)
  exact ⟨moves.2.1 0 (by decide), moves.2.1 9 (by decide), moves.2.2 0x100d (by decide)⟩

end Move

/-- A string stands at an address. -/
def StringAt (memory : AddressSpace) (address : BitVec 32) (string : CString) : Prop :=
  stretch memory address (string.chars.length + 1) = string.pointer

/-- The bytes of a string do not overlap a number of bytes at an address. -/
def ApartFrom (start : BitVec 32) (count : ℕ) (src : BitVec 32) (string : CString) : Prop :=
  ∀ j < count, ∀ k ≤ string.chars.length, start + BitVec.ofNat 32 j ≠ src + BitVec.ofNat 32 k

/-- What the C library promises for `strncpy`: `n` bytes are written, the characters of the
string and then NULs. -/
def StrncpyContract (dest src n : BitVec 32) (memory : AddressSpace) (string : CString) : Prop :=
  strncpy dest src n memory = (dest, overwrite memory dest
    (string.chars.take n.toNat ++ List.replicate (n.toNat - string.chars.length) 0))

/-- What the C library promises for `strncat`: at most `n` characters of the string and a NUL are
written behind the string in the destination. -/
def StrncatContract (dest src n : BitVec 32) (memory : AddressSpace)
    (before string : CString) : Prop :=
  strncat dest src n memory = (dest, overwrite memory
    (dest + BitVec.ofNat 32 before.chars.length) (string.chars.take n.toNat ++ [0]))

section Copy

variable {memory : AddressSpace} {o i : BitVec 32} {n : ℕ} {chars : List Byte}

/-- The bytes up to the NUL are copied, but not more than `n`. -/
theorem copyString_eq (noNul : 0 ∉ chars) (isString : stretch memory i (chars.length + 1) =
      chars ++ [0]) (apart : ∀ j < min n (chars.length + 1), ∀ k ≤ chars.length,
      o + BitVec.ofNat 32 j ≠ i + BitVec.ofNat 32 k) (fits : n ≤ 2 ^ 32) :
    copyString n o i memory = overwrite memory o ((chars ++ [0]).take n) := by
  induction n generalizing chars o i memory with
  | zero => rfl
  | succ n ih =>
      have advance (start : BitVec 32) (j : ℕ) :
          start + 1 + BitVec.ofNat 32 j = start + BitVec.ofNat 32 (j + 1) := by
        rw [Nat.add_comm j 1, BitVec.ofNat_add, BitVec.add_assoc]
        rfl
      cases chars with
      | nil =>
          have isNul : memory i = 0 := by simpa [stretch] using isString
          rw [copyString, if_pos isNul, isNul]
          simp [overwrite_singleton]
      | cons first chars =>
          rw [List.length_cons, stretch_succ, List.cons_append, List.cons.injEq] at isString
          rcases isString with ⟨isFirst, rest⟩
          have nonNul : memory i ≠ 0 := by
            rw [isFirst]
            exact fun isNul => noNul (by simp [isNul])
          have unread : stretch (Function.update memory o (memory i)) (i + 1)
              (chars.length + 1) = chars ++ [0] := by
            rw [stretch_update, rest]
            intro k inside same
            rw [advance] at same
            have here := apart 0 (by simp) (k + 1) (by rw [List.length_cons]; omega)
            rw [BitVec.add_zero] at here
            exact here same.symm
          have nextApart : ∀ j < min n (chars.length + 1), ∀ k ≤ chars.length,
              o + 1 + BitVec.ofNat 32 j ≠ i + 1 + BitVec.ofNat 32 k := by
            intro j jLt k kLe
            rw [advance, advance]
            exact apart (j + 1) (by rw [List.length_cons]; omega) (k + 1)
              (by rw [List.length_cons]; omega)
          have copied := ih (List.not_mem_of_not_mem_cons noNul) unread nextApart (by omega)
          rw [copyString, if_neg nonNul, copied, List.cons_append, List.take_succ_cons,
            overwrite_cons (by rw [List.length_take]; omega), isFirst]

theorem scanString_eq (noNul : 0 ∉ chars)
    (isString : stretch memory o (chars.length + 1) = chars ++ [0]) :
    scanString n o memory = (n - chars.length, o + BitVec.ofNat 32 (min n chars.length)) := by
  induction n generalizing chars o with
  | zero => simp [scanString]
  | succ n ih =>
      cases chars with
      | nil =>
          have isNul : memory o = 0 := by simpa [stretch] using isString
          simp [scanString, isNul]
      | cons first chars =>
          rw [List.length_cons, stretch_succ, List.cons_append, List.cons.injEq] at isString
          rcases isString with ⟨isFirst, rest⟩
          have nonNul : memory o ≠ 0 := by
            rw [isFirst]
            exact fun isNul => noNul (by simp [isNul])
          rw [scanString, if_neg nonNul, ih (List.not_mem_of_not_mem_cons noNul) rest,
            List.length_cons, Nat.add_sub_add_right, Nat.add_min_add_right,
            Nat.add_comm (min n _) 1, BitVec.ofNat_add, BitVec.add_assoc]
          rfl

end Copy

section Contracts

variable {memory : AddressSpace} {dest src n : BitVec 32} {before string : CString}

theorem strncpy_eq (isString : StringAt memory src string)
    (apart : ApartFrom dest n.toNat src string) :
    strncpy dest src n memory = (dest, overwrite memory dest (string.pointer.take n.toNat)) := by
  have copied := copyString_eq string.noNul isString
    (fun j jLt => apart j (Nat.lt_of_lt_of_le jLt (Nat.min_le_left _ _))) (Nat.le_of_lt n.isLt)
  rw [strncpy, copied]
  rfl

theorem strncat_eq (isString : StringAt memory src string) (isBefore : StringAt memory dest before)
    (apart : ApartFrom dest (before.chars.length + min n.toNat string.chars.length + 1) src
      string) :
    strncat dest src n memory = (dest, overwrite memory
      (dest + BitVec.ofNat 32 (min n.toNat before.chars.length))
      (string.pointer.take (n.toNat - before.chars.length))) := by
  have scanned := @scanString_eq memory dest n.toNat _ before.noNul isBefore
  have copied := @copyString_eq memory
    (dest + BitVec.ofNat 32 (min n.toNat before.chars.length)) src
    (n.toNat - before.chars.length) _ string.noNul isString ?_ (by omega)
  · rw [strncat, scanned, copied]
    rfl
  · intro j jLt k kLe
    rw [BitVec.add_assoc, ← BitVec.ofNat_add]
    exact apart _ (by omega) k kLe

theorem stretch_eq_replicate_iff {start : BitVec 32} {count : ℕ} {value : Byte} :
    stretch memory start count = List.replicate count value ↔
      ∀ k < count, memory (start + BitVec.ofNat 32 k) = value := by
  rw [List.eq_replicate_iff, length_stretch]
  simp [stretch]

/-- `strncpy` keeps its contract unless bytes are to be padded that are not zero already. -/
theorem strncpy_contract_iff (isString : StringAt memory src string)
    (apart : ApartFrom dest n.toNat src string) :
    StrncpyContract dest src n memory string ↔ n.toNat ≤ string.chars.length + 1 ∨
      ∀ k, string.chars.length < k → k < n.toNat → memory (dest + BitVec.ofNat 32 k) = 0 := by
  have nLt := n.isLt
  rw [StrncpyContract, strncpy_eq isString apart, Prod.mk.injEq, CString.pointer]
  simp only [true_and]
  by_cases short : n.toNat ≤ string.chars.length
  · have none : n.toNat - string.chars.length = 0 := by omega
    rw [List.take_append_of_le_length short, none, List.replicate_zero, List.append_nil]
    exact iff_of_true rfl (Or.inl (by omega))
  · have padding : n.toNat - string.chars.length = 1 + (n.toNat - (string.chars.length + 1)) := by
      omega
    have behind (k : ℕ) : dest + BitVec.ofNat 32 (string.chars.length + 1) + BitVec.ofNat 32 k =
        dest + BitVec.ofNat 32 (string.chars.length + 1 + k) := by
      rw [BitVec.add_assoc, ← BitVec.ofNat_add]
    have rest := @overwrite_append_eq_iff 32 Byte memory dest (string.chars ++ [0])
      (List.replicate (n.toNat - (string.chars.length + 1)) 0) (by simp; omega)
    rw [List.length_append, List.length_singleton, List.length_replicate,
      stretch_eq_replicate_iff] at rest
    rw [List.take_of_length_le (by simp; omega), List.take_of_length_le (by omega), padding,
      List.replicate_add, List.replicate_one, ← List.append_assoc, eq_comm, rest]
    constructor
    · intro zero
      right
      intro k above below
      have here := zero (k - (string.chars.length + 1)) (by omega)
      rw [behind, Nat.add_sub_cancel' (by omega)] at here
      exact here
    · rintro (small | zero) k kLt
      · omega
      · rw [behind]
        exact zero _ (by omega) (by omega)

/-- The NUL behind a string. -/
theorem StringAt.nul (isBefore : StringAt memory dest before) :
    memory (dest + BitVec.ofNat 32 before.chars.length) = 0 := by
  rw [StringAt, stretch_succ_last, CString.pointer] at isBefore
  simpa using (List.append_inj' isBefore rfl).2

/-- If the string in the destination uses up `n`, nothing is appended. -/
theorem strncat_contract_of_le (isString : StringAt memory src string)
    (isBefore : StringAt memory dest before)
    (apart : ApartFrom dest (before.chars.length + min n.toNat string.chars.length + 1) src
      string) (usedUp : n.toNat ≤ before.chars.length) :
    StrncatContract dest src n memory before string ↔ n.toNat = 0 ∨ string.chars = [] := by
  have nLt := n.isLt
  have none : n.toNat - before.chars.length = 0 := by omega
  have same := @overwrite_eq_self_iff 32 Byte memory
    (dest + BitVec.ofNat 32 before.chars.length) (string.chars.take n.toNat ++ [0])
    (by simp; omega)
  rw [StrncatContract, strncat_eq isString isBefore apart, none, Prod.mk.injEq, List.take_zero,
    overwrite_nil, eq_comm (a := memory), same, ← List.take_eq_nil_iff]
  cases taken : string.chars.take n.toNat with
  | nil => simp [stretch, isBefore.nul]
  | cons first rest =>
      simp only [true_and, List.cons_append, List.length_cons, stretch_succ, List.cons.injEq,
        reduceCtorEq, iff_false, not_and]
      intro isFirst
      have firstMem : first ∈ string.chars := by
        apply List.mem_of_mem_take
        rw [taken]
        exact List.mem_cons_self
      rw [← isFirst, isBefore.nul] at firstMem
      exact absurd firstMem string.noNul

/-- Otherwise the bytes from `dest[n]` on stay as they were. -/
theorem strncat_contract_of_lt (isString : StringAt memory src string)
    (isBefore : StringAt memory dest before)
    (apart : ApartFrom dest (before.chars.length + min n.toNat string.chars.length + 1) src
      string) (left : before.chars.length < n.toNat) :
    StrncatContract dest src n memory before string ↔
      before.chars.length + string.chars.length < n.toNat ∨
        stretch memory (dest + n)
          ((string.chars.take n.toNat ++ [0]).drop (n.toNat - before.chars.length)).length =
            (string.chars.take n.toNat ++ [0]).drop (n.toNat - before.chars.length) := by
  have nLt := n.isLt
  rw [StrncatContract, strncat_eq isString isBefore apart, Prod.mk.injEq,
    Nat.min_eq_right (Nat.le_of_lt left), CString.pointer]
  simp only [true_and]
  by_cases whole : before.chars.length + string.chars.length < n.toNat
  · rw [List.take_of_length_le (by simp; omega), List.take_of_length_le (by omega)]
    exact iff_of_true rfl (Or.inl whole)
  · have copied : (string.chars ++ [0]).take (n.toNat - before.chars.length) =
        (string.chars.take n.toNat ++ [0]).take (n.toNat - before.chars.length) := by
      rw [List.take_append_of_le_length (by omega),
        List.take_append_of_le_length (by rw [List.length_take]; omega), List.take_take,
        Nat.min_eq_left (by omega)]
    have length : ((string.chars.take n.toNat ++ [0]).take
        (n.toNat - before.chars.length)).length = n.toNat - before.chars.length := by
      rw [List.length_take, List.length_append, List.length_take]
      omega
    have rest := @overwrite_append_eq_iff 32 Byte memory
      (dest + BitVec.ofNat 32 before.chars.length)
      ((string.chars.take n.toNat ++ [0]).take (n.toNat - before.chars.length))
      ((string.chars.take n.toNat ++ [0]).drop (n.toNat - before.chars.length))
      (by rw [← List.length_append, List.take_append_drop]; simp; omega)
    have behind : dest + BitVec.ofNat 32 before.chars.length +
        BitVec.ofNat 32 (n.toNat - before.chars.length) = dest + n := by
      rw [BitVec.add_assoc, ← BitVec.ofNat_add, Nat.add_sub_cancel' (Nat.le_of_lt left),
        BitVec.ofNat_toNat, BitVec.setWidth_eq]
    rw [length, List.take_append_drop, behind] at rest
    rw [copied, eq_comm, rest]
    exact (or_iff_right whole).symm

theorem strncat_contract_iff (isString : StringAt memory src string)
    (isBefore : StringAt memory dest before)
    (apart : ApartFrom dest (before.chars.length + min n.toNat string.chars.length + 1) src
      string) :
    StrncatContract dest src n memory before string ↔
      n.toNat = 0 ∨ string.chars = [] ∨ before.chars.length + string.chars.length < n.toNat ∨
        (before.chars.length < n.toNat ∧ stretch memory (dest + n)
          ((string.chars.take n.toNat ++ [0]).drop (n.toNat - before.chars.length)).length =
            (string.chars.take n.toNat ++ [0]).drop (n.toNat - before.chars.length)) := by
  by_cases usedUp : n.toNat ≤ before.chars.length
  · rw [strncat_contract_of_le isString isBefore apart usedUp]
    have notWhole : ¬before.chars.length + string.chars.length < n.toNat := by omega
    have notLeft : ¬before.chars.length < n.toNat := by omega
    simp [notWhole, notLeft]
  · have left : before.chars.length < n.toNat := by omega
    have positive : n.toNat ≠ 0 := by omega
    rw [strncat_contract_of_lt isString isBefore apart left]
    simp only [positive, left, true_and, false_or]
    constructor
    · exact Or.inr
    · rintro (isEmpty | holds)
      · left
        rw [isEmpty, List.length_nil]
        omega
      · exact holds

/-- The two bounded copies keep the contracts of the C library exactly as long as `n` leaves room
for the NUL, or what they do not write stands in the destination already. -/
theorem bounded_copies_contract_iff (isString : StringAt memory src string) :
    (ApartFrom dest n.toNat src string →
      (StrncpyContract dest src n memory string ↔ n.toNat ≤ string.chars.length + 1 ∨
        ∀ k, string.chars.length < k → k < n.toNat → memory (dest + BitVec.ofNat 32 k) = 0)) ∧
    (StringAt memory dest before →
      ApartFrom dest (before.chars.length + min n.toNat string.chars.length + 1) src string →
      (StrncatContract dest src n memory before string ↔
        n.toNat = 0 ∨ string.chars = [] ∨ before.chars.length + string.chars.length < n.toNat ∨
          (before.chars.length < n.toNat ∧ stretch memory (dest + n)
            ((string.chars.take n.toNat ++ [0]).drop (n.toNat - before.chars.length)).length =
              (string.chars.take n.toNat ++ [0]).drop (n.toNat - before.chars.length)))) :=
  ⟨strncpy_contract_iff isString, strncat_contract_iff isString⟩

end Contracts

def CString.ab : CString where
  chars := [byte 'a', byte 'b']
  noNul := by decide

def CString.x : CString where
  chars := [byte 'x']
  noNul := by decide

/-- The string `ab` at 0x1000 and the string `x` at 0x2000; no other byte is zero. -/
def twoStrings : AddressSpace := fun address =>
  if address = 0x1000 then byte 'a'
  else if address = 0x1001 then byte 'b'
  else if address = 0x1002 ∨ address = 0x2001 then 0
  else byte 'x'

theorem twoStrings_ab : StringAt twoStrings 0x1000 CString.ab := by
  rw [StringAt]
  decide

theorem twoStrings_x : StringAt twoStrings 0x2000 CString.x := by
  rw [StringAt]
  decide

/-- With `n` equal to 3 the string is copied with its NUL; with `n` equal to 4 it is appended. -/
theorem bounded_copies_contract_ab : StrncpyContract 0x2000 0x1000 3 twoStrings CString.ab ∧
    StrncatContract 0x2000 0x1000 4 twoStrings CString.x CString.ab := by
  constructor
  · apply ((@bounded_copies_contract_iff _ 0x2000 _ 3 CString.x _ twoStrings_ab).1 ?_).mpr
    · exact Or.inl (by decide)
    · rw [ApartFrom]
      decide
  · apply ((@bounded_copies_contract_iff _ 0x2000 _ 4 CString.x _ twoStrings_ab).2 twoStrings_x
      ?_).mpr
    · exact Or.inr (Or.inr (Or.inl (by decide)))
    · rw [ApartFrom]
      decide

/-- `strncpy` of two characters with `n` equal to 4 leaves the last byte, and `strncat` of them
with `n` equal to 2 appends one character and no NUL. -/
theorem not_bounded_copies_contract :
    (ApartFrom 0x2000 4 0x1000 CString.ab ∧
      ¬StrncpyContract 0x2000 0x1000 4 twoStrings CString.ab) ∧
    (ApartFrom 0x2000 4 0x1000 CString.ab ∧
      ¬StrncatContract 0x2000 0x1000 2 twoStrings CString.x CString.ab) ∧
    StringAt twoStrings 0x1000 CString.ab ∧ StringAt twoStrings 0x2000 CString.x := by
  have apart : ApartFrom 0x2000 4 0x1000 CString.ab := by
    rw [ApartFrom]
    decide
  refine ⟨⟨apart, ?_⟩, ⟨apart, ?_⟩, twoStrings_ab, twoStrings_x⟩
  · intro contract
    have padded := congrArg (fun result => result.2 0x2003) contract
    revert padded
    decide
  · intro contract
    have terminated := congrArg (fun result => result.2 0x2003) contract
    revert terminated
    decide

end Rkernel
