import Mathlib.Order.Bounds.Basic
import Rkernel.Kern.ZallocSafety

/-!
# Buffer sizes of zones

`calc_bufsize` (`kern/zalloc.c`) doubles a power of two up to the size of a cache line and
adds cache lines from there on. The loop visits all buffer sizes in ascending order, so that
the first one that is large enough is the least.

A zone keeps its buffer size for ever, hence every object that it hands out has room for what
its `zinit` was called with.
-/

namespace Rkernel

/-- The buffer sizes: the powers of two up to a cache line, and whole cache lines. -/
def IsBufsize (n : ℕ) : Prop :=
  (∃ k, 1 ≤ k ∧ k ≤ 7 ∧ n = 2 ^ k) ∨ 128 ∣ n

/-- No shift and no addition of the loop of `calc_bufsize` wraps around. -/
def CalcExact (size : ℕ) : ℕ → ℕ → ℕ → Prop
  | 0, _, _ => True
  | fuel + 1, num, mul =>
      num < size →
        if num < 128 then 2 * mul < 2 ^ 32 ∧ CalcExact size fuel (2 * mul) (2 * mul)
        else num + mul < 2 ^ 32 ∧ CalcExact size fuel (num + mul) mul

/-- The loop of `calc_bufsize` at its head: `num` is a buffer size, and all smaller ones are too
small. -/
structure CalcInv (size num mul : ℕ) : Prop where
  started : num = 0 ∧ mul = 1 ∨ 0 < num ∧ mul = min num 128
  isBufsize : IsBufsize num
  smaller : ∀ n, IsBufsize n → 0 < n → n < num → n < size

theorem isBufsize_iff {n : ℕ} :
    IsBufsize n ↔ n = 2 ∨ n = 4 ∨ n = 8 ∨ n = 16 ∨ n = 32 ∨ n = 64 ∨ n % 128 = 0 := by
  constructor
  · rintro (⟨k, above, below, rfl⟩ | lines)
    · have cases : k = 1 ∨ k = 2 ∨ k = 3 ∨ k = 4 ∨ k = 5 ∨ k = 6 ∨ k = 7 := by omega
      rcases cases with rfl | rfl | rfl | rfl | rfl | rfl | rfl <;> simp
    · omega
  · rintro (rfl | rfl | rfl | rfl | rfl | rfl | lines)
    · exact Or.inl ⟨1, by omega, by omega, rfl⟩
    · exact Or.inl ⟨2, by omega, by omega, rfl⟩
    · exact Or.inl ⟨3, by omega, by omega, rfl⟩
    · exact Or.inl ⟨4, by omega, by omega, rfl⟩
    · exact Or.inl ⟨5, by omega, by omega, rfl⟩
    · exact Or.inl ⟨6, by omega, by omega, rfl⟩
    · exact Or.inr (Nat.dvd_of_mod_eq_zero lines)

section Loop

variable {size num mul : ℕ}

theorem CalcInv.start (size : ℕ) : CalcInv size 0 1 where
  started := Or.inl ⟨rfl, rfl⟩
  isBufsize := Or.inr (Nat.dvd_zero 128)
  smaller := by omega

/-- Below a cache line the next buffer size is the double. -/
theorem CalcInv.shift (inv : CalcInv size num mul) (more : num < size) (small : num < 128) :
    CalcInv size (2 * mul) (2 * mul) ∧ 2 * mul ≤ 128 ∧ num < 2 * mul := by
  have value : num = 0 ∨ num = 2 ∨ num = 4 ∨ num = 8 ∨ num = 16 ∨ num = 32 ∨ num = 64 := by
    have isBufsize := isBufsize_iff.mp inv.isBufsize
    omega
  have doubled : num = 0 ∧ 2 * mul = 2 ∨ 0 < num ∧ 2 * mul = 2 * num := by
    have started := inv.started
    omega
  have nextBufsize : IsBufsize (2 * mul) := by
    apply isBufsize_iff.mpr
    rcases value with rfl | rfl | rfl | rfl | rfl | rfl | rfl <;> omega
  refine ⟨⟨Or.inr ⟨by omega, by omega⟩, nextBufsize, ?_⟩, by omega, by omega⟩
  intro n nBufsize positive below
  by_cases before : n < num
  · exact inv.smaller n nBufsize positive before
  · have same : n = num := by
      rcases isBufsize_iff.mp nBufsize with rfl | rfl | rfl | rfl | rfl | rfl | lines <;> omega
    omega

/-- From a cache line on the next buffer size is a cache line more. -/
theorem CalcInv.add (inv : CalcInv size num mul) (more : num < size) (large : ¬num < 128) :
    CalcInv size (num + mul) mul ∧ mul = 128 := by
  have isBufsize := isBufsize_iff.mp inv.isBufsize
  have started := inv.started
  have line : mul = 128 := by omega
  refine ⟨⟨by omega, isBufsize_iff.mpr (by omega), ?_⟩, line⟩
  intro n nBufsize positive below
  have nCases := isBufsize_iff.mp nBufsize
  by_cases before : n < num
  · exact inv.smaller n nBufsize positive before
  · omega

theorem CalcInv.exact (inv : CalcInv size num mul) (bound : size ≤ 2 ^ 32 - 128) (fuel : ℕ) :
    CalcExact size fuel num mul := by
  induction fuel generalizing num mul with
  | zero => trivial
  | succ fuel ih =>
      intro more
      split
      · rename_i small
        rcases inv.shift more small with ⟨next, doubled, _⟩
        exact ⟨by omega, ih next⟩
      · rename_i large
        rcases inv.add more large with ⟨next, line⟩
        exact ⟨by omega, ih next⟩

theorem CalcInv.least (inv : CalcInv size num mul) (positive : 0 < size)
    (bound : size ≤ 2 ^ 32 - 128) {fuel : ℕ} (enough : size - num < fuel) :
    ∃ bufsize, calcBufsizeLoop size fuel num mul = .ok bufsize ∧
      IsLeast {n | IsBufsize n ∧ size ≤ n} bufsize := by
  induction fuel generalizing num mul with
  | zero => omega
  | succ fuel ih =>
      rw [calcBufsizeLoop]
      split
      · rename_i more
        split
        · rename_i small
          rcases inv.shift more small with ⟨next, doubled, grows⟩
          have exact : 2 * mul % 2 ^ 32 = 2 * mul := Nat.mod_eq_of_lt (by omega)
          simp only [exact]
          exact ih next (by omega)
        · rename_i large
          rcases inv.add more large with ⟨next, line⟩
          have exact : (num + mul) % 2 ^ 32 = num + mul := Nat.mod_eq_of_lt (by omega)
          rw [exact]
          exact ih next (by omega)
      · rename_i enough
        refine ⟨num, rfl, ⟨inv.isBufsize, by omega⟩, ?_⟩
        rintro n ⟨nBufsize, nLarge⟩
        by_contra below
        have small := inv.smaller n nBufsize (by omega) (by omega)
        omega

end Loop

theorem calcBufsizeLoop_mono {size fuel more num mul bufsize : ℕ}
    (returned : calcBufsizeLoop size fuel num mul = .ok bufsize) (le : fuel ≤ more) :
    calcBufsizeLoop size more num mul = .ok bufsize := by
  induction fuel generalizing more num mul with
  | zero => simp [calcBufsizeLoop] at returned
  | succ fuel ih =>
      cases more with
      | zero => omega
      | succ more =>
          rw [calcBufsizeLoop] at returned ⊢
          split at returned
          · rename_i isMore
            rw [if_pos isMore]
            split at returned
            · rename_i small
              rw [if_pos small]
              exact ih returned (by omega)
            · rename_i large
              rw [if_neg large]
              exact ih returned (by omega)
          · rename_i isEnough
            rw [if_neg isEnough]
            exact returned

theorem calcBufsize_unique {fuel other size bufsize others : ℕ}
    (returned : calcBufsize fuel size = .ok bufsize) (again : calcBufsize other size = .ok others) :
    bufsize = others := by
  have first := calcBufsizeLoop_mono returned (Nat.le_max_left fuel other)
  have second := calcBufsizeLoop_mono again (Nat.le_max_right fuel other)
  rw [first] at second
  exact Except.ok.inj second

theorem calcBufsize_least {size : ℕ} (bound : size + 4 ≤ 2 ^ 32 - 128) :
    ∃ bufsize, calcBufsize (size + 5) size = .ok bufsize ∧
      IsLeast {n | IsBufsize n ∧ size + 4 ≤ n} bufsize := by
  have exact : (size + 4) % 2 ^ 32 = size + 4 := Nat.mod_eq_of_lt (by omega)
  rw [calcBufsize, exact]
  exact (CalcInv.start (size + 4)).least (by omega) bound (by omega)

/-- A zone with room for objects of a given size: it has the buffer size, every object in use has
a whole buffer of its own, and cramming memory into the zone comes to an end. -/
structure ServesObjects (image : ZoneImage) (state : ZoneState) (zone size bufsize : ℕ) :
    Prop where
  isBufsize : Zone.znBufsize state.memory zone = bufsize
  safe : state.Safe image
  objects : ∀ object, (zone, object) ∈ state.live → 4 ≤ object ∧ object + size ≤
    object - 4 + bufsize ∧ ∃ taken ∈ state.used,
      taken.1 ≤ object - 4 ∧ object - 4 + bufsize ≤ taken.1 + taken.2
  crams : ∀ mem amount, mem ≠ 0 →
    ∃ fuel memory, zcram fuel state.memory zone mem amount = .ok memory

theorem ZoneLedger.Keeps.trans {ledger changed later : ZoneLedger} (first : ledger.Keeps changed)
    (second : changed.Keeps later) : ledger.Keeps later := by
  intro view viewMem
  rcases first view viewMem with ⟨other, otherMem, sameAddress, sameBufsize⟩
  rcases second other otherMem with ⟨last, lastMem, lastAddress, lastBufsize⟩
  exact ⟨last, lastMem, lastAddress.trans sameAddress, lastBufsize.trans sameBufsize⟩

namespace Tracks

variable {image : ZoneImage} {state later : ZoneState} {ledger : ZoneLedger}

/-- Over every sequence of calls the zones stay and keep their buffer sizes. -/
theorem leads_keeps (tracks : Tracks image state ledger)
    (leads : (image.system.restrict HeaderFits).Leads state later) :
    ∃ changed, Tracks image later changed ∧ ledger.Keeps changed := by
  induction leads with
  | refl => exact ⟨ledger, tracks, fun view viewMem => ⟨view, viewMem, rfl, rfl⟩⟩
  | tail _ stepped ih =>
      rcases ih with ⟨middle, middleTracks, kept⟩
      rcases stepped with ⟨call, stepped, fits⟩
      rcases middleTracks.step_keeps stepped fits with ⟨changed, changedTracks, keptAgain⟩
      exact ⟨changed, changedTracks, kept.trans keptAgain⟩

/-- Two views of one zone have the buffer size that its descriptor holds. -/
theorem bufsize_eq (tracks : Tracks image state ledger) {view other : ZoneView}
    (viewMem : view ∈ ledger.views) (otherMem : other ∈ ledger.views)
    (same : other.address = view.address) : other.bufsize = view.bufsize := by
  have first := (tracks.fields (List.mem_cons_of_mem _ viewMem)).bufsize
  have second := (tracks.fields (List.mem_cons_of_mem _ otherMem)).bufsize
  rw [same, first] at second
  exact second.symm

theorem servesObjects (tracks : Tracks image state ledger) {view : ZoneView} {size : ℕ}
    (viewMem : view ∈ ledger.views) (large : size + 4 ≤ view.bufsize) :
    ServesObjects image state view.address size view.bufsize := by
  have isBufsize := (tracks.fields (List.mem_cons_of_mem _ viewMem)).bufsize
  refine ⟨isBufsize, tracks.safe, ?_, ?_⟩
  · intro object isLive
    rw [← tracks.live, List.mem_map] at isLive
    rcases isLive with ⟨live, liveMem, isEntry⟩
    simp only [Prod.mk.injEq] at isEntry
    rcases isEntry with ⟨isZone, rfl⟩
    rcases tracks.objects live liveMem with ⟨behind, other, otherMem, otherZone, otherSize⟩
    have sameSize : live.size = view.bufsize := by
      rw [← otherSize]
      exact tracks.bufsize_eq viewMem otherMem (otherZone.trans isZone)
    have inside := tracks.object_inside liveMem
    rw [sameSize] at inside
    exact ⟨behind, by omega, inside⟩
  · intro mem amount nonNull
    rw [isBufsize.symm] at large
    simp only [zcram, if_neg nonNull]
    exact ⟨amount + 1, zcramLoop_returns (by omega) _ _ _ (Nat.lt_succ_self amount)⟩

end Tracks

/-- `zinit` makes a zone that serves objects of its size over every sequence of later calls. -/
theorem zinit_servesObjects {image : ZoneImage} (valid : image.Valid) {state after : ZoneState}
    (reachable : (image.system.restrict HeaderFits).Reachable state)
    {size memtype name zone bufsize fuel : ℕ} {supply : VmSupply}
    (stepped : ZoneState.Step image state (.zinit size memtype name supply) after)
    (zones : after.zones = zone :: state.zones) (fits : 2 < (size + 4) % 2 ^ 32)
    (sized : calcBufsize fuel size = .ok bufsize) (large : size + 4 ≤ bufsize)
    {later : ZoneState} (leads : (image.system.restrict HeaderFits).Leads after later) :
    ServesObjects image later zone size bufsize := by
  rcases tracks_of_reachable valid reachable with ⟨ledger, tracks⟩
  cases stepped with
  | @zinit _ _ _ _ made _ _ _ memtypeLt returned =>
      simp only [List.cons.injEq, and_true] at zones
      subst zones
      obtain ⟨found, changed, again, views, inited⟩ := tracks.init fits memtypeLt returned
      rw [calcBufsize_unique sized again]
      rw [calcBufsize_unique sized again] at large
      rcases inited.leads_keeps leads with ⟨last, lastTracks, kept⟩
      have isNew : (⟨made, found, memtype, false, []⟩ : ZoneView) ∈ changed.views := by
        rw [views]
        exact List.mem_cons_self
      rcases kept _ isNew with ⟨view, viewMem, isZone, isSize⟩
      simp only at isZone isSize
      rw [← isZone, ← isSize]
      rw [← isSize] at large
      exact lastTracks.servesObjects viewMem large

/-- `calc_bufsize` returns the least buffer size with room for the header and the object, and a
zone with that buffer size serves the objects it was made for. -/
theorem zone_bufsize_correct (size : ℕ) (bound : size + 4 ≤ 2 ^ 32 - 128) :
    (∀ fuel, CalcExact (size + 4) fuel 0 1) ∧
    ∃ bufsize, (∃ fuel, calcBufsize fuel size = .ok bufsize) ∧
      IsLeast {n | IsBufsize n ∧ size + 4 ≤ n} bufsize ∧
      (∀ zone memory mem amount,
        ∃ fuel result, zcramLoop zone bufsize fuel memory mem amount = .ok result) ∧
      ∀ image : ZoneImage, image.Valid → ∀ state,
        (image.system.restrict HeaderFits).Reachable state →
        ∀ memtype name supply after zone,
          ZoneState.Step image state (.zinit size memtype name supply) after →
          after.zones = zone :: state.zones →
          ∀ later, (image.system.restrict HeaderFits).Leads after later →
            ServesObjects image later zone size bufsize := by
  refine ⟨(CalcInv.start (size + 4)).exact bound, ?_⟩
  rcases calcBufsize_least bound with ⟨bufsize, sized, isLeast⟩
  have large : size + 4 ≤ bufsize := isLeast.1.2
  refine ⟨bufsize, ⟨_, sized⟩, isLeast, ?_, ?_⟩
  · intro zone memory mem amount
    exact ⟨amount + 1, zcramLoop_returns (by omega) _ _ _ (Nat.lt_succ_self amount)⟩
  · intro image valid state reachable memtype name supply after zone stepped zones later leads
    exact zinit_servesObjects valid reachable stepped zones (by omega) sized large leads

/-- Zones of objects of 20 bytes. -/
theorem zone_bufsize_correct_twenty :
    20 + 4 ≤ 2 ^ 32 - 128 ∧ ∃ bufsize, (∃ fuel, calcBufsize fuel 20 = .ok bufsize) ∧
      bufsize = 32 ∧ ∃ state after zone,
        (ZoneImage.low.system.restrict HeaderFits).Reachable state ∧
        ZoneState.Step ZoneImage.low state (.zinit 20 0 0 ⟨fun _ => none, fun _ => none⟩) after ∧
        ServesObjects ZoneImage.low after zone 20 bufsize := by
  obtain ⟨_, bufsize, ⟨fuel, sized⟩, _, _, serves⟩ := zone_bufsize_correct 20 (by decide)
  have known : calcBufsize 6 20 = .ok 32 := by decide
  rcases ZoneImage.exists_booted ZoneImage.low_valid with ⟨booted, isBooted⟩
  obtain ⟨zone, memory, returned, _⟩ := isBooted.zinit ZoneImage.low_valid
    ⟨fun _ => none, fun _ => none⟩ known
  have stepped := ZoneState.Step.zinit (by decide) (by decide) returned
  refine ⟨by decide, bufsize, ⟨fuel, sized⟩, calcBufsize_unique sized known, booted, _, zone,
    .init isBooted, stepped, ?_⟩
  exact serves ZoneImage.low ZoneImage.low_valid booted (.init isBooted) _ _ _ _ _ stepped rfl _
    Relation.ReflTransGen.refl

end Rkernel
