import Mathlib.Data.List.Pairwise
import Mathlib.Data.List.Nodup
import Mathlib.Tactic.Set
import Rkernel.Physmem.Bitmap

/-!
# The layout of the allocation bitmaps

`vm_phys_bm_bootinit` carves the bitmaps out of the static block from its first
word on, each range getting the words its pages need or what is left of the
block. `Carved` states this layout. It gives every managed page a bit of its own
inside the block and, for ranges that do not overlap, an address of its own.
-/

namespace Rkernel

section ClearWords

variable {current remaining j : ℕ} {words : BitArray 32}

theorem clearWords_le (inBlock : current + j ≤ unumber) :
    j ≤ (clearWords current remaining j words).1 ∧
      current + (clearWords current remaining j words).1 ≤ unumber := by
  induction remaining generalizing j words with
  | zero => exact ⟨Nat.le_refl _, inBlock⟩
  | succ remaining ih =>
      simp only [clearWords]
      split
      · exact ⟨Nat.le_refl _, inBlock⟩
      · have next := @ih (j + 1) (Function.update words (current + j) 0) (by omega)
        exact ⟨by omega, next.2⟩

theorem clearWords_of_lt {word : ℕ} (before : word < current + j) :
    (clearWords current remaining j words).2 word = words word := by
  induction remaining generalizing j words with
  | zero => rfl
  | succ remaining ih =>
      simp only [clearWords]
      split
      · rfl
      · rw [ih (by omega), Function.update_of_ne (by omega)]

theorem clearWords_eq_zero {word : ℕ} (after : current + j ≤ word)
    (before : word < current + (clearWords current remaining j words).1) :
    (clearWords current remaining j words).2 word = 0 := by
  induction remaining generalizing j words with
  | zero =>
      simp only [clearWords] at before
      omega
  | succ remaining ih =>
      simp only [clearWords] at before ⊢
      split at before
      · omega
      · rename_i inBlock
        rw [if_neg inBlock]
        by_cases here : word = current + j
        · subst word
          rw [clearWords_of_lt (by omega), Function.update_self]
        · exact ih (by omega) before

end ClearWords

/-- Bitmaps that lie one behind the other from word `low` on, for the first ranges of a list. -/
inductive Carved : ℕ → List PhysmemRange → List PhysmemBmalloc → Prop where
  | nil {low : ℕ} {ranges : List PhysmemRange} : Carved low ranges []
  | cons {low words : ℕ} {range : PhysmemRange} {ranges : List PhysmemRange} {length : Paddr}
      {maps : List PhysmemBmalloc} (fits : length.toNat ≤ 32 * words)
      (inRange : range.pmBegin.toNat + length.toNat * 4096 ≤ range.pmEnd.toNat)
      (inBlock : low + words ≤ unumber) (rest : Carved (low + words) ranges maps) :
      Carved low (range :: ranges) (⟨range, low, length⟩ :: maps)

theorem PhysmemBmalloc.mem_slots {map : PhysmemBmalloc} {slot : ℕ × Paddr} :
    slot ∈ map.slots ↔ ∃ i < map.pmbLength.toNat,
      (32 * map.pmbBitmap + i, mulPagesize (BitVec.ofNat 32 i) + map.pmbRange.pmBegin) = slot := by
  simp [PhysmemBmalloc.slots]

theorem toNat_pageAddress {i : ℕ} {start : Paddr} (inside : start.toNat + i * 4096 < 2 ^ 32) :
    (mulPagesize (BitVec.ofNat 32 i) + start).toNat = start.toNat + i * 4096 := by
  simp only [mulPagesize, BitVec.toNat_add, BitVec.toNat_shiftLeft, BitVec.toNat_ofNat,
    Nat.shiftLeft_eq]
  omega

section Carved

variable {low : ℕ} {ranges : List PhysmemRange} {maps : List PhysmemBmalloc}

theorem Carved.slot_bounds (carved : Carved low ranges maps) {slot : ℕ × Paddr}
    (slotMem : slot ∈ maps.flatMap PhysmemBmalloc.slots) :
    32 * low ≤ slot.1 ∧ slot.1 < 32 * unumber := by
  induction carved with
  | nil => simp at slotMem
  | @cons low words range ranges length maps fits inRange inBlock rest ih =>
      rw [List.flatMap_cons, List.mem_append] at slotMem
      rcases slotMem with here | later
      · rcases PhysmemBmalloc.mem_slots.mp here with ⟨i, iLt, rfl⟩
        simp only at iLt ⊢
        omega
      · have bounds := ih later
        omega

theorem Carved.slots_fst_nodup (carved : Carved low ranges maps) :
    ((maps.flatMap PhysmemBmalloc.slots).map Prod.fst).Nodup := by
  induction carved with
  | nil => simp
  | @cons low words range ranges length maps fits inRange inBlock rest ih =>
      rw [List.flatMap_cons, List.map_append, List.nodup_append]
      refine ⟨?_, ih, ?_⟩
      · simp only [PhysmemBmalloc.slots, List.map_map]
        apply List.Nodup.map _ List.nodup_range
        intro left right same
        simp only [Function.comp_apply] at same
        omega
      · intro left leftMem right rightMem
        rcases List.mem_map.mp leftMem with ⟨slot, slotMem, rfl⟩
        rcases List.mem_map.mp rightMem with ⟨other, otherMem, rfl⟩
        rcases PhysmemBmalloc.mem_slots.mp slotMem with ⟨i, iLt, rfl⟩
        have bounds := rest.slot_bounds otherMem
        simp only at iLt ⊢
        omega

theorem Carved.slot_contained (carved : Carved low ranges maps) {slot : ℕ × Paddr}
    (slotMem : slot ∈ maps.flatMap PhysmemBmalloc.slots) :
    ∃ range ∈ ranges, range.ContainsPage slot.2 ∧
      ∃ i, slot.2.toNat = range.pmBegin.toNat + i * 4096 := by
  induction carved with
  | nil => simp at slotMem
  | @cons low words range ranges length maps fits inRange inBlock rest ih =>
      rw [List.flatMap_cons, List.mem_append] at slotMem
      rcases slotMem with here | later
      · rcases PhysmemBmalloc.mem_slots.mp here with ⟨i, iLt, rfl⟩
        have limit := range.pmEnd.isLt
        simp only at iLt
        have address := @toNat_pageAddress i range.pmBegin (by omega)
        refine ⟨range, by simp, ?_, i, address⟩
        rw [PhysmemRange.ContainsPage, address]
        omega
      · rcases ih later with ⟨other, otherMem, contained⟩
        exact ⟨other, List.mem_cons_of_mem _ otherMem, contained⟩

theorem PhysmemRange.ContainsPage.contains {range : PhysmemRange} {page : Paddr}
    (inside : range.ContainsPage page) : range.Contains page := by
  rcases inside with ⟨above, below⟩
  refine ⟨above, ?_⟩
  rw [BitVec.lt_def]
  omega

theorem Carved.slots_snd_nodup (carved : Carved low ranges maps)
    (disjoint : ranges.Pairwise fun left right =>
      ∀ address, ¬(left.Contains address ∧ right.Contains address)) :
    ((maps.flatMap PhysmemBmalloc.slots).map Prod.snd).Nodup := by
  induction carved with
  | nil => simp
  | @cons low words range ranges length maps fits inRange inBlock rest ih =>
      rw [List.pairwise_cons] at disjoint
      have limit := range.pmEnd.isLt
      rw [List.flatMap_cons, List.map_append, List.nodup_append]
      refine ⟨?_, ih disjoint.2, ?_⟩
      · simp only [PhysmemBmalloc.slots, List.map_map]
        apply List.Nodup.map_on _ List.nodup_range
        intro left leftMem right rightMem same
        simp only [List.mem_range] at leftMem rightMem
        simp only [Function.comp_apply] at same
        have sameNat := congrArg BitVec.toNat same
        rw [@toNat_pageAddress left range.pmBegin (by omega),
          @toNat_pageAddress right range.pmBegin (by omega)] at sameNat
        omega
      · intro left leftMem right rightMem same
        subst right
        rcases List.mem_map.mp leftMem with ⟨slot, slotMem, rfl⟩
        rcases List.mem_map.mp rightMem with ⟨other, otherMem, sameAddress⟩
        have first : Carved low [range] [⟨range, low, length⟩] := .cons fits inRange inBlock .nil
        rcases first.slot_contained (by simpa using slotMem) with ⟨holder, holderMem, inside, -⟩
        rcases rest.slot_contained otherMem with ⟨later, laterMem, otherInside, -⟩
        rw [List.mem_singleton] at holderMem
        subst holder
        rw [sameAddress] at otherInside
        exact disjoint.1 later laterMem slot.2 ⟨inside.contains, otherInside.contains⟩

end Carved

section BootLength

/-- The number of whole pages of a range. -/
def PhysmemRange.pages (range : PhysmemRange) : ℕ :=
  (range.pmEnd.toNat - range.pmBegin.toNat) / 4096

variable {range : PhysmemRange}

theorem PhysmemRange.toNat_pages (ordered : range.pmBegin ≤ range.pmEnd) :
    (divPagesize (range.pmEnd - range.pmBegin)).toNat = range.pages := by
  rw [divPagesize, BitVec.toNat_ushiftRight, BitVec.toNat_sub_of_le ordered,
    Nat.shiftRight_eq_div_pow, pages]

theorem toNat_wordPages {j : ℕ} (inBlock : j ≤ unumber) :
    (BitVec.ofNat 32 j <<< 5).toNat = 32 * j := by
  simp only [unumber] at inBlock
  simp only [BitVec.toNat_shiftLeft, BitVec.toNat_ofNat, Nat.shiftLeft_eq]
  omega

theorem toNat_bootLength (ordered : range.pmBegin ≤ range.pmEnd) {j : ℕ}
    (inBlock : j ≤ unumber) :
    (if BitVec.ofNat 32 j <<< 5 > divPagesize (range.pmEnd - range.pmBegin)
      then divPagesize (range.pmEnd - range.pmBegin) else BitVec.ofNat 32 j <<< 5).toNat =
        min (32 * j) range.pages := by
  split
  · rename_i clamped
    rw [gt_iff_lt, BitVec.lt_def, toNat_wordPages inBlock, PhysmemRange.toNat_pages ordered]
      at clamped
    rw [PhysmemRange.toNat_pages ordered]
    omega
  · rename_i notClamped
    rw [gt_iff_lt, BitVec.lt_def, toNat_wordPages inBlock, PhysmemRange.toNat_pages ordered]
      at notClamped
    rw [toNat_wordPages inBlock]
    omega

theorem bootLength_bounds (ordered : range.pmBegin ≤ range.pmEnd) {j : ℕ}
    (inBlock : j ≤ unumber) {k : Paddr}
    (isLength : k = if BitVec.ofNat 32 j <<< 5 > divPagesize (range.pmEnd - range.pmBegin)
      then divPagesize (range.pmEnd - range.pmBegin) else BitVec.ofNat 32 j <<< 5) :
    k.toNat ≤ 32 * j ∧ range.pmBegin.toNat + k.toNat * 4096 ≤ range.pmEnd.toNat := by
  have length := toNat_bootLength ordered inBlock
  rw [← isLength, PhysmemRange.pages] at length
  rw [BitVec.le_def] at ordered
  omega

end BootLength

/-- What the boot loop adds: a layout from the current word on, with every bit of it clear. -/
theorem bootLoop_carved {nRanges i : ℕ} {ranges : List PhysmemRange} {state : BootState}
    (ordered : ∀ range ∈ ranges, range.pmBegin ≤ range.pmEnd)
    (inBlock : state.current ≤ unumber) :
    ∃ maps, (bootLoop nRanges i ranges state).2.maps = state.maps ++ maps ∧
      Carved state.current ranges maps ∧
      (∀ word < state.current, (bootLoop nRanges i ranges state).2.words word = state.words word) ∧
      ∀ slot ∈ maps.flatMap PhysmemBmalloc.slots,
        (bootLoop nRanges i ranges state).2.words.bit slot.1 = false := by
  induction ranges generalizing i state with
  | nil => exact ⟨[], by simp [bootLoop], .nil, by simp [bootLoop], by simp⟩
  | cons range ranges ih =>
      simp only [bootLoop]
      split
      · exact ⟨[], by simp, .nil, by simp, by simp⟩
      · -- the range gets the words from `state.current` on; later ranges only touch later words
        set pages := divPagesize (range.pmEnd - range.pmBegin) with pagesEq
        set cleared := clearWords state.current ((pages + 31) >>> 5).toNat 0 state.words
          with clearedEq
        set length := if BitVec.ofNat 32 cleared.1 <<< 5 > pages then pages
          else BitVec.ofNat 32 cleared.1 <<< 5 with lengthEq
        have room : state.current + cleared.1 ≤ unumber := (clearWords_le (by omega)).2
        have bounds := bootLength_bounds (ordered range (by simp)) (j := cleared.1) (by omega)
          lengthEq
        have zeroed : ∀ slot ∈ PhysmemBmalloc.slots ⟨range, state.current, length⟩,
            cleared.2.bit slot.1 = false ∧ slot.1 / 32 < state.current + cleared.1 := by
          intro slot slotMem
          rcases PhysmemBmalloc.mem_slots.mp slotMem with ⟨i, iLt, rfl⟩
          simp only at iLt ⊢
          have zero : cleared.2 ((32 * state.current + i) / 32) = 0 :=
            clearWords_eq_zero (by omega) (by rw [← clearedEq]; omega)
          exact ⟨by simp [BitArray.bit, zero], by omega⟩
        have kept : ∀ word < state.current, cleared.2 word = state.words word := by
          intro word before
          exact clearWords_of_lt (by omega)
        split
        · refine ⟨[⟨range, state.current, length⟩], ?_, ?_, ?_, ?_⟩
          · split <;> rfl
          · exact .cons bounds.1 bounds.2 room .nil
          · intro word before
            split <;> exact kept word before
          · intro slot slotMem
            rw [List.flatMap_singleton] at slotMem
            split <;> exact (zeroed slot slotMem).1
        · rcases @ih (i + 1) ⟨state.maps ++ [⟨range, state.current, length⟩], cleared.2,
            state.current + cleared.1, state.outIndex, state.outAddress⟩
            (fun other otherMem => ordered other (List.mem_cons_of_mem _ otherMem)) room with
            ⟨maps, mapsEq, carved, unchanged, clear⟩
          refine ⟨⟨range, state.current, length⟩ :: maps, ?_, .cons bounds.1 bounds.2 room carved,
            ?_, ?_⟩
          · rw [mapsEq]
            simp
          · intro word before
            rw [unchanged word (by simp only; omega)]
            exact kept word before
          · intro slot slotMem
            rw [List.flatMap_cons, List.mem_append] at slotMem
            rcases slotMem with here | later
            · rcases zeroed slot here with ⟨isClear, early⟩
              rw [BitArray.bit, unchanged _ early]
              exact isClear
            · exact clear slot later

end Rkernel
