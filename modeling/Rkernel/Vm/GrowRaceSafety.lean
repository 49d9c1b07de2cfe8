import Rkernel.Vm.GrowRace

/-!
# When concurrent growth is safe

A thread that has left the search writes the entries from there on one after another. If no
search ends while another thread has an entry to write, at most one thread writes entries at
any time, and the pages of all other calls lie before its own. `GrowInv` states this with the
span of pages of each call. Without the restriction two threads find the same page.
-/

namespace Rkernel

/-- One of the spans ends where the other has not yet begun. -/
def SpansApart (left right : ℕ × ℕ) : Prop :=
  left.2 ≤ right.1 ∨ right.2 ≤ left.1

/-- The addresses of a span of pages. -/
def spanRange (span : ℕ × ℕ) : Vaddr × Vaddr :=
  (regionPage span.1, BitVec.ofNat 32 ((span.2 - span.1) * 4096))

/-- The invariant of runs in which searches do not end while another thread has an entry to
write: there is at most one such thread, and all other spans lie before its own. -/
structure GrowInv {Tid : Type} (slots : List (ℕ × Paddr)) (count : ℕ) (spans : List (ℕ × ℕ))
    (state : GrowState Tid) : Prop where
  shared : Shared slots count state.kernel
  threads : ∀ thread, (state.pc thread).WellFormed count
  alone : ∀ thread other, state.StoresAhead thread → state.StoresAhead other → thread = other
  apart : ∀ thread other span otherSpan, thread ≠ other → (state.pc thread).span = some span →
    (state.pc other).span = some otherSpan → SpansApart span otherSpan
  returned : state.returned = spans.map spanRange
  bounded : ∀ span ∈ spans, span.1 < span.2 ∧ span.2 ≤ count
  pairwise : spans.Pairwise SpansApart
  returnedApart : ∀ thread span, (state.pc thread).span = some span →
    ∀ other ∈ spans, SpansApart span other
  ahead : ∀ thread span, state.StoresAhead thread → (state.pc thread).span = some span →
    (∀ other otherSpan, thread ≠ other → (state.pc other).span = some otherSpan →
      otherSpan.2 ≤ span.1) ∧ ∀ other ∈ spans, other.2 ≤ span.1
  recorded : ∀ frame ∈ state.allocated, (∃ thread vars, state.pc thread = .store vars frame) ∨
    ∃ i < count, (state.kernel.kernelRmodss 1).dsPages i = frame

section Invariant

variable {Tid : Type} [DecidableEq Tid] {slots : List (ℕ × Paddr)} {count : ℕ}
  {spans : List (ℕ × ℕ)} {state next : GrowState Tid} {thread : Tid} {pc : GrowPc}

theorem spanRange_toNat {span : ℕ × ℕ} (inRegion : span.2 ≤ 128) (nonempty : span.1 < span.2) :
    (spanRange span).1.toNat = 0xc1000000 + span.1 * 4096 ∧
      (spanRange span).2.toNat = (span.2 - span.1) * 4096 := by
  refine ⟨toNat_regionPage (by omega), ?_⟩
  rw [spanRange, BitVec.toNat_ofNat]
  omega

omit [DecidableEq Tid] in
theorem GrowInv.safe (inv : GrowInv slots count spans state) : state.Safe := by
  have inside := inv.shared.inside
  constructor
  · rw [inv.returned, List.pairwise_map]
    apply inv.pairwise.imp_of_mem
    intro later earlier laterMem earlierMem apart
    have laterBound := inv.bounded later laterMem
    have earlierBound := inv.bounded earlier earlierMem
    have laterRange := spanRange_toNat (by omega) laterBound.1
    have earlierRange := spanRange_toNat (by omega) earlierBound.1
    rw [laterRange.1, laterRange.2, earlierRange.1, earlierRange.2]
    simp only [SpansApart] at apart
    omega
  · intro frame isAllocated
    rcases inv.recorded frame isAllocated with pending | ⟨i, recorded, isFrame⟩
    · exact Or.inl pending
    · refine Or.inr ⟨firstRegion, by rw [inv.shared.region]; rfl, i, ?_, isFrame⟩
      have capacity : (state.kernel.kernelRmodss firstRegion.rmoObject).dsNPages.toNat = 128 :=
        congrArg BitVec.toNat inv.shared.capacity
      omega

theorem GrowState.storesAhead_congr (pcs : next.pc = Function.update state.pc thread pc)
    (sizes : ∀ vars, next.nPages vars = state.nPages vars) {other : Tid}
    (isOther : other ≠ thread) : next.StoresAhead other ↔ state.StoresAhead other := by
  simp only [GrowState.StoresAhead, pcs, Function.update_of_ne isOther, sizes]

/-- A step that moves one thread and keeps the returned ranges. -/
theorem GrowInv.move {later : ℕ} (inv : GrowInv slots count spans state) (grows : count ≤ later)
    (pcs : next.pc = Function.update state.pc thread pc)
    (sizes : ∀ vars, next.nPages vars = state.nPages vars)
    (sameReturned : next.returned = state.returned) (shared : Shared slots later next.kernel)
    (others : ∀ other, other ≠ thread → (state.pc other).WellFormed later)
    (wellFormed : pc.WellFormed later)
    (alone : next.StoresAhead thread → ∀ other, other ≠ thread → ¬state.StoresAhead other)
    (placed : ∀ span, pc.span = some span →
      (∀ other otherSpan, other ≠ thread → (state.pc other).span = some otherSpan →
        SpansApart span otherSpan ∧ (state.StoresAhead other → span.2 ≤ otherSpan.1)) ∧
      ∀ other ∈ spans, SpansApart span other)
    (ahead : next.StoresAhead thread → ∀ span, pc.span = some span →
      (∀ other otherSpan, other ≠ thread → (state.pc other).span = some otherSpan →
        otherSpan.2 ≤ span.1) ∧ ∀ other ∈ spans, other.2 ≤ span.1)
    (recorded : ∀ frame ∈ next.allocated, (∃ thread vars, next.pc thread = .store vars frame) ∨
      ∃ i < later, (next.kernel.kernelRmodss 1).dsPages i = frame) :
    GrowInv slots later spans next := by
  have moved : next.pc thread = pc := by rw [pcs, Function.update_self]
  have kept : ∀ other, other ≠ thread → next.pc other = state.pc other := by
    intro other isOther
    rw [pcs, Function.update_of_ne isOther]
  have aheadIff := fun other =>
    @GrowState.storesAhead_congr _ _ state next thread pc pcs sizes other
  refine ⟨shared, ?_, ?_, ?_, sameReturned.trans inv.returned, ?_, inv.pairwise, ?_, ?_, recorded⟩
  · intro other
    by_cases isThread : other = thread
    · rw [isThread, moved]
      exact wellFormed
    · rw [kept other isThread]
      exact others other isThread
  · intro left right leftAhead rightAhead
    by_cases leftIs : left = thread
    · by_cases rightIs : right = thread
      · rw [leftIs, rightIs]
      · rw [leftIs] at leftAhead
        exact absurd ((aheadIff right rightIs).mp rightAhead) (alone leftAhead right rightIs)
    · by_cases rightIs : right = thread
      · rw [rightIs] at rightAhead
        exact absurd ((aheadIff left leftIs).mp leftAhead) (alone rightAhead left leftIs)
      · exact inv.alone left right ((aheadIff left leftIs).mp leftAhead)
          ((aheadIff right rightIs).mp rightAhead)
  · intro left right span otherSpan differ isSpan isOther
    by_cases leftIs : left = thread
    · have rightIs : right ≠ thread := fun same => differ (leftIs.trans same.symm)
      rw [leftIs, moved] at isSpan
      rw [kept right rightIs] at isOther
      exact ((placed span isSpan).1 right otherSpan rightIs isOther).1
    · rw [kept left leftIs] at isSpan
      by_cases rightIs : right = thread
      · rw [rightIs, moved] at isOther
        exact ((placed otherSpan isOther).1 left span leftIs isSpan).1.symm
      · rw [kept right rightIs] at isOther
        exact inv.apart left right span otherSpan differ isSpan isOther
  · intro span spanMem
    have bound := inv.bounded span spanMem
    omega
  · intro other span isSpan
    by_cases isThread : other = thread
    · rw [isThread, moved] at isSpan
      exact (placed span isSpan).2
    · rw [kept other isThread] at isSpan
      exact inv.returnedApart other span isSpan
  · intro other span otherAhead isSpan
    by_cases isThread : other = thread
    · subst other
      rw [moved] at isSpan
      have bounds := ahead otherAhead span isSpan
      refine ⟨?_, bounds.2⟩
      intro third thirdSpan differ isThird
      rw [kept third differ.symm] at isThird
      exact bounds.1 third thirdSpan differ.symm isThird
    · rw [kept other isThread] at isSpan
      have wasAhead := (aheadIff other isThread).mp otherAhead
      have bounds := inv.ahead other span wasAhead isSpan
      refine ⟨?_, bounds.2⟩
      intro third thirdSpan differ isThird
      by_cases thirdIs : third = thread
      · rw [thirdIs, moved] at isThird
        exact ((placed thirdSpan isThird).1 other span isThread isSpan).2 wasAhead
      · rw [kept third thirdIs] at isThird
        exact bounds.1 third thirdSpan differ isThird

/-- A step that moves one thread without changing its span. -/
theorem GrowInv.moveKept (inv : GrowInv slots count spans state)
    (pcs : next.pc = Function.update state.pc thread pc)
    (sizes : ∀ vars, next.nPages vars = state.nPages vars)
    (sameReturned : next.returned = state.returned) (shared : Shared slots count next.kernel)
    (wellFormed : pc.WellFormed count)
    (sameSpan : ∀ span, pc.span = some span → (state.pc thread).span = some span)
    (noNewStores : next.StoresAhead thread → state.StoresAhead thread)
    (recorded : ∀ frame ∈ next.allocated, (∃ thread vars, next.pc thread = .store vars frame) ∨
      ∃ i < count, (next.kernel.kernelRmodss 1).dsPages i = frame) :
    GrowInv slots count spans next := by
  refine inv.move (Nat.le_refl _) pcs sizes sameReturned shared (fun other _ => inv.threads other)
    wellFormed ?_ ?_ ?_ recorded
  · intro isAhead other isOther otherAhead
    exact isOther (inv.alone other thread otherAhead (noNewStores isAhead))
  · intro span isSpan
    have before := sameSpan span isSpan
    refine ⟨?_, inv.returnedApart thread span before⟩
    intro other otherSpan isOther isOtherSpan
    refine ⟨inv.apart thread other span otherSpan isOther.symm before isOtherSpan, ?_⟩
    intro otherAhead
    exact (inv.ahead other otherSpan otherAhead isOtherSpan).1 thread span isOther before
  · intro isAhead span isSpan
    have bounds := inv.ahead thread span (noNewStores isAhead) (sameSpan span isSpan)
    refine ⟨?_, bounds.2⟩
    intro other otherSpan isOther isOtherSpan
    exact bounds.1 other otherSpan isOther.symm isOtherSpan

omit [DecidableEq Tid] in
theorem GrowInv.nPages_eq (inv : GrowInv slots count spans state) {vars : GrowVars}
    (isDs : vars.ds = 1) : state.nPages vars = 128 := by
  rw [GrowState.nPages, isDs, inv.shared.capacity]
  rfl

omit [DecidableEq Tid] in
theorem GrowInv.addReturned (inv : GrowInv slots count spans state) {span : ℕ × ℕ}
    (nonempty : span.1 < span.2) (inside : span.2 ≤ count)
    (apart : ∀ other otherSpan, (state.pc other).span = some otherSpan →
      SpansApart otherSpan span ∧ (state.StoresAhead other → span.2 ≤ otherSpan.1))
    (returnedApart : ∀ other ∈ spans, SpansApart span other) :
    GrowInv slots count (span :: spans)
      { state with returned := spanRange span :: state.returned } := by
  refine ⟨inv.shared, inv.threads, inv.alone, inv.apart, ?_, ?_, ?_, ?_, ?_, inv.recorded⟩
  · simp only [inv.returned, List.map_cons]
  · intro other otherMem
    rcases List.mem_cons.mp otherMem with rfl | earlier
    · exact ⟨nonempty, inside⟩
    · exact inv.bounded other earlier
  · exact List.pairwise_cons.mpr ⟨returnedApart, inv.pairwise⟩
  · intro thread threadSpan isSpan other otherMem
    rcases List.mem_cons.mp otherMem with rfl | earlier
    · exact (apart thread threadSpan isSpan).1
    · exact inv.returnedApart thread threadSpan isSpan other earlier
  · intro thread threadSpan isAhead isSpan
    have bounds := inv.ahead thread threadSpan isAhead isSpan
    refine ⟨bounds.1, ?_⟩
    intro other otherMem
    rcases List.mem_cons.mp otherMem with rfl | earlier
    · exact (apart thread threadSpan isSpan).2 isAhead
    · exact bounds.2 other earlier

/-- Frames stay recorded in a step of a thread that is not about to store one. -/
theorem GrowInv.recorded_goto (inv : GrowInv slots count spans state)
    (noStore : ∀ vars frame, state.pc thread ≠ .store vars frame) :
    ∀ frame ∈ state.allocated,
      (∃ other vars, (state.goto thread pc).pc other = .store vars frame) ∨
        ∃ i < count, (state.kernel.kernelRmodss 1).dsPages i = frame := by
  intro frame isAllocated
  rcases inv.recorded frame isAllocated with ⟨other, vars, isStore⟩ | isRecorded
  · left
    refine ⟨other, vars, ?_⟩
    have isOther : other ≠ thread := by
      rintro rfl
      exact noStore vars frame isStore
    simp only [GrowState.goto, Function.update_of_ne isOther, isStore]
  · exact Or.inr isRecorded

theorem GrowInv.call (inv : GrowInv slots count spans state) (isIdle : state.pc thread = .idle)
    (n : ℕ) : GrowInv slots count spans (state.call thread n) := by
  have start : state.kernel.kernelPd.pdBegin + firstRegion.rmoOffset = kernelVab := by
    rw [inv.shared.domain]
    decide
  simp only [GrowState.call, inv.shared.region, start]
  rw [if_neg (by decide)]
  refine inv.moveKept rfl (fun _ => rfl) rfl inv.shared ⟨rfl, rfl, Nat.zero_le _⟩ ?_ ?_ ?_
  · intro span isSpan
    simp [GrowPc.span] at isSpan
  · simp [GrowState.StoresAhead, GrowState.goto]
  · exact inv.recorded_goto (by simp [isIdle])

theorem GrowInv.search (inv : GrowInv slots count spans state) {vars : GrowVars}
    (isSearch : state.pc thread = .search vars)
    (alone : vars.i < state.nPages vars → state.readPage vars = 0 →
      ∀ other, other ≠ thread → ¬state.StoresAhead other) :
    GrowInv slots count spans (state.advance thread) := by
  obtain ⟨isDs, isStart, begun⟩ : vars.ds = 1 ∧ vars.start = kernelVab ∧ vars.i ≤ count := by
    have wellFormed := inv.threads thread
    rw [isSearch] at wellFormed
    exact wellFormed
  have pages := inv.nPages_eq isDs
  have inside := inv.shared.inside
  have noStore : ∀ vars frame, state.pc thread ≠ .store vars frame := by simp [isSearch]
  simp only [GrowState.advance, isSearch]
  split
  · refine inv.moveKept rfl (fun _ => rfl) rfl inv.shared trivial ?_ ?_ (inv.recorded_goto noStore)
    · simp [GrowPc.span]
    · simp [GrowState.StoresAhead, GrowState.goto]
  · rename_i inRegion
    split
    · rename_i recorded
      have more : vars.i + 1 ≤ count := by
        by_contra last
        rw [GrowState.readPage, isDs] at recorded
        exact recorded (inv.shared.free vars.i (by omega) (by omega))
      refine inv.moveKept rfl (fun _ => rfl) rfl inv.shared ⟨isDs, isStart, more⟩ ?_ ?_
        (inv.recorded_goto noStore)
      · simp [GrowPc.span]
      · simp [GrowState.StoresAhead, GrowState.goto]
    · rename_i notRecorded
      rw [not_not] at notRecorded
      have first : vars.i = count := by
        by_contra earlier
        rw [GrowState.readPage, isDs] at notRecorded
        exact inv.shared.frames vars.i (by omega) notRecorded
      have noOther := alone (by omega) notRecorded
      have address : vars.start + BitVec.ofNat 32 vars.i * 0x1000 = regionPage vars.i := by
        rw [isStart]
        rfl
      rw [address]
      refine inv.move (Nat.le_refl _) rfl (fun _ => rfl) rfl inv.shared
        (fun other _ => inv.threads other) ?_ (fun _ => noOther) ?_ ?_
        (inv.recorded_goto noStore)
      · exact ⟨⟨isDs, by simp only; omega, Nat.zero_le _, rfl, rfl, by simp⟩, begun,
          fun _ _ => first⟩
      · intro span isSpan
        simp only [GrowPc.span, Nat.sub_zero, Option.some.injEq] at isSpan
        subst span
        constructor
        · intro other otherSpan isOther isOtherSpan
          have bound := (inv.threads other).span_le isOtherSpan
          refine ⟨Or.inr (by simp only; omega), ?_⟩
          exact fun otherAhead => absurd otherAhead (noOther other isOther)
        · intro other otherMem
          have bound := inv.bounded other otherMem
          exact Or.inr (by simp only; omega)
      · intro _ span isSpan
        simp only [GrowPc.span, Nat.sub_zero, Option.some.injEq] at isSpan
        subst span
        constructor
        · intro other otherSpan isOther isOtherSpan
          have bound := (inv.threads other).span_le isOtherSpan
          simp only
          omega
        · intro other otherMem
          have bound := inv.bounded other otherMem
          simp only
          omega

theorem GrowInv.finish (inv : GrowInv slots count spans state) {vars : GrowVars}
    (isFill : state.pc thread = .fill vars) :
    ∃ more, GrowInv slots count more (state.finish thread vars) := by
  obtain ⟨filling, begun, -⟩ : vars.Filling ∧ vars.i ≤ count ∧
      (vars.j < vars.n → vars.i < 128 → vars.i = count) := by
    have wellFormed := inv.threads thread
    rw [isFill] at wellFormed
    exact wellFormed
  have isSpan : (state.pc thread).span = some (vars.i - vars.j, vars.i) := by
    rw [isFill]
    rfl
  have stopped : GrowInv slots count spans (state.goto thread .idle) := by
    refine inv.moveKept rfl (fun _ => rfl) rfl inv.shared trivial ?_ ?_
      (inv.recorded_goto (by simp [isFill]))
    · simp [GrowPc.span]
    · simp [GrowState.StoresAhead, GrowState.goto]
  have sr := filling.sr
  by_cases nothing : vars.sr = 0
  · refine ⟨spans, ?_⟩
    simp only [GrowState.finish, if_pos nothing]
    exact stopped
  · have some : vars.j ≠ 0 := by
      intro isZero
      rw [isZero, Nat.zero_mul] at sr
      exact nothing (BitVec.eq_of_toNat_eq sr)
    have counted := filling.counted
    have inRegion := filling.inRegion
    have range : spanRange (vars.i - vars.j, vars.i) = (vars.addr, vars.sr) := by
      have length : vars.i - (vars.i - vars.j) = vars.j := by omega
      rw [spanRange, length, ← filling.addr, ← sr, BitVec.ofNat_toNat, BitVec.setWidth_eq]
    refine ⟨(vars.i - vars.j, vars.i) :: spans, ?_⟩
    simp only [GrowState.finish, if_neg nothing, ← range]
    refine stopped.addReturned (by simp only; omega) begun ?_
      (inv.returnedApart thread _ isSpan)
    intro other otherSpan isOtherSpan
    have isOther : other ≠ thread := by
      rintro rfl
      simp [GrowState.goto, GrowPc.span] at isOtherSpan
    simp only [GrowState.goto, Function.update_of_ne isOther] at isOtherSpan
    refine ⟨inv.apart other thread otherSpan _ isOther isOtherSpan isSpan, ?_⟩
    intro otherAhead
    have wasAhead := (@GrowState.storesAhead_congr _ _ state (state.goto thread .idle) thread .idle
      rfl (fun _ => rfl) other isOther).mp otherAhead
    exact (inv.ahead other otherSpan wasAhead isOtherSpan).1 thread _ isOther isSpan

theorem GrowInv.fill (good : GoodSlots slots) (inv : GrowInv slots count spans state)
    {vars : GrowVars} (isFill : state.pc thread = .fill vars) :
    ∃ more, GrowInv slots count more (state.advance thread) := by
  obtain ⟨filling, begun, isCount⟩ : vars.Filling ∧ vars.i ≤ count ∧
      (vars.j < vars.n → vars.i < 128 → vars.i = count) := by
    have wellFormed := inv.threads thread
    rw [isFill] at wellFormed
    exact wellFormed
  have pages := inv.nPages_eq filling.ds
  have inRegion := filling.inRegion
  simp only [GrowState.advance, isFill]
  split
  · exact inv.finish isFill
  · rename_i goesOn
    rw [not_or, pages] at goesOn
    rcases inv.shared.vmPhysAlloc_cases good with failed | ⟨page, bmas, allocated, nonzero, shared⟩
    · rw [failed]
      exact inv.finish isFill
    · rw [allocated]
      refine ⟨spans, inv.moveKept rfl (fun _ => rfl) rfl shared ?_ ?_ ?_ ?_⟩
      · exact ⟨filling, by omega, by omega, isCount (by omega) (by omega), nonzero⟩
      · intro span isSpan
        rw [isFill]
        exact isSpan
      · intro _
        simp only [GrowState.StoresAhead, isFill, pages]
        omega
      · intro frame isAllocated
        rcases List.mem_cons.mp isAllocated with rfl | earlier
        · exact Or.inl ⟨thread, vars, by simp [GrowState.goto]⟩
        · exact inv.recorded_goto (by simp [isFill]) frame earlier

theorem GrowInv.store (inv : GrowInv slots count spans state) {vars : GrowVars} {curpage : Paddr}
    (isStore : state.pc thread = .store vars curpage) :
    GrowInv slots (count + 1) spans (state.advance thread) := by
  obtain ⟨filling, goesOn, inRegion, isCount, nonzero⟩ : vars.Filling ∧ vars.j < vars.n ∧
      vars.i < 128 ∧ vars.i = count ∧ curpage ≠ 0 := by
    have wellFormed := inv.threads thread
    rw [isStore] at wellFormed
    exact wellFormed
  have isAhead : state.StoresAhead thread := by simp [GrowState.StoresAhead, isStore]
  have isSpan : (state.pc thread).span = some (vars.i - vars.j, vars.i) := by
    rw [isStore]
    rfl
  have noOther : ∀ other, other ≠ thread → ¬state.StoresAhead other :=
    fun other isOther otherAhead => isOther (inv.alone other thread otherAhead isAhead)
  have bounds := inv.ahead thread _ isAhead isSpan
  simp only [GrowState.advance, isStore, filling.ds, isCount]
  refine inv.move (Nat.le_succ _) rfl ?_ rfl (inv.shared.storePage (by omega) nonzero) ?_ ?_
    (fun _ => noOther) ?_ ?_ ?_
  · intro other
    simp only [GrowState.nPages, GrowState.goto, storePage_dsNPages]
  · intro other isOther
    have wellFormed := inv.threads other
    have notAhead := noOther other isOther
    cases isPc : state.pc other with
    | idle => trivial
    | search otherVars =>
        rw [isPc] at wellFormed
        exact ⟨wellFormed.1, wellFormed.2.1, Nat.le_succ_of_le wellFormed.2.2⟩
    | fill otherVars =>
        rw [isPc] at wellFormed
        simp only [GrowState.StoresAhead, isPc, inv.nPages_eq wellFormed.1.ds] at notAhead
        refine ⟨wellFormed.1, Nat.le_succ_of_le wellFormed.2.1, ?_⟩
        exact fun more room => absurd ⟨more, room⟩ notAhead
    | store otherVars otherPage => simp [GrowState.StoresAhead, isPc] at notAhead
    | enter otherVars otherPage =>
        rw [isPc] at wellFormed
        simp only [GrowState.StoresAhead, isPc, inv.nPages_eq wellFormed.1.ds] at notAhead
        refine ⟨wellFormed.1, Nat.lt_succ_of_lt wellFormed.2.1, ?_⟩
        exact fun more room => absurd ⟨more, room⟩ notAhead
  · exact ⟨filling, by omega, fun _ _ => by omega⟩
  · intro span newSpan
    simp only [GrowPc.span, Option.some.injEq] at newSpan
    subst span
    constructor
    · intro other otherSpan isOther isOtherSpan
      have before := bounds.1 other otherSpan isOther.symm isOtherSpan
      exact ⟨Or.inr before, fun otherAhead => absurd otherAhead (noOther other isOther)⟩
    · exact fun other otherMem => Or.inr (bounds.2 other otherMem)
  · intro _ span newSpan
    simp only [GrowPc.span, Option.some.injEq] at newSpan
    subst span
    exact ⟨fun other otherSpan isOther => bounds.1 other otherSpan isOther.symm, bounds.2⟩
  · intro frame isAllocated
    rcases inv.recorded frame isAllocated with
      ⟨other, otherVars, isPending⟩ | ⟨i, recorded, isFrame⟩
    · by_cases isOther : other = thread
      · rw [isOther, isStore, GrowPc.store.injEq] at isPending
        refine Or.inr ⟨count, by omega, ?_⟩
        simp only [GrowState.goto, storePage_dsPages, Function.update_self, isPending.2]
      · refine Or.inl ⟨other, otherVars, ?_⟩
        simp only [GrowState.goto, Function.update_of_ne isOther, isPending]
    · refine Or.inr ⟨i, by omega, ?_⟩
      simp only [GrowState.goto, storePage_dsPages]
      rw [Function.update_of_ne (by omega), isFrame]

theorem GrowInv.enter (inv : GrowInv slots count spans state) {vars : GrowVars} {curpage : Paddr}
    (isEnter : state.pc thread = .enter vars curpage) :
    GrowInv slots count spans (state.advance thread) := by
  obtain ⟨filling, stored, isCount⟩ : vars.Filling ∧ vars.i < count ∧
      (vars.j + 1 < vars.n → vars.i + 1 < 128 → vars.i + 1 = count) := by
    have wellFormed := inv.threads thread
    rw [isEnter] at wellFormed
    exact wellFormed
  have pages := inv.nPages_eq filling.ds
  have inside := inv.shared.inside
  have counted := filling.counted
  simp only [GrowState.advance, isEnter]
  refine inv.moveKept rfl (fun _ => rfl) rfl ?_ ?_ ?_ ?_ (inv.recorded_goto (by simp [isEnter]))
  · exact ⟨inv.shared.domain, inv.shared.region, inv.shared.capacity, inside, inv.shared.takes,
      inv.shared.frames, inv.shared.free⟩
  · refine ⟨⟨filling.ds, by simp only; omega, by simp only; omega, ?_, ?_, ?_⟩, stored, isCount⟩
    · simp only [Nat.add_sub_add_right]
      exact filling.addr
    · simp only [filling.va, regionPage_succ]
    · have pageSize : (0x1000 : BitVec 32).toNat = 0x1000 := rfl
      have inRegion := filling.inRegion
      simp only [BitVec.toNat_add, filling.sr, pageSize]
      omega
  · intro span isSpan
    rw [isEnter]
    simp only [GrowPc.span, Nat.add_sub_add_right] at isSpan ⊢
    exact isSpan
  · simp only [GrowState.StoresAhead, isEnter, GrowState.goto, Function.update_self]
    exact id

theorem GrowInv.step (good : GoodSlots slots) (inv : GrowInv slots count spans state)
    {label : Tid × GrowAction} (stepped : (growSystem Tid).step state label next)
    (alone : state.SearchesAlone label next) :
    ∃ later more, GrowInv slots later more next := by
  obtain ⟨thread, action⟩ := label
  cases action with
  | call n =>
      obtain ⟨isIdle, rfl⟩ := stepped
      exact ⟨count, spans, inv.call isIdle n⟩
  | advance =>
      obtain ⟨notIdle, rfl⟩ := stepped
      cases isPc : state.pc thread with
      | idle => exact absurd isPc notIdle
      | search vars =>
          exact ⟨count, spans, inv.search isPc fun inRegion isFree => alone vars rfl isPc inRegion
            isFree⟩
      | fill vars =>
          obtain ⟨more, filled⟩ := inv.fill good isPc
          exact ⟨count, more, filled⟩
      | store vars curpage => exact ⟨count + 1, spans, inv.store isPc⟩
      | enter vars curpage => exact ⟨count, spans, inv.enter isPc⟩

end Invariant

/-- The memory of a machine with 16 MiB, before the first call. -/
def bootedKernel : KernelVm :=
  (KernelRun.after bootedRanges (fun _ => 0) ⟨fun _ => 0, fun _ _ => 0⟩
    (fun _ => ⟨0, 0, fun _ => 0⟩) []).kernel

theorem bootedKernel_init {Tid : Type} [DecidableEq Tid] :
    (growSystem Tid).init ⟨bootedKernel, fun _ => .idle, [], []⟩ :=
  ⟨_, _, _, _, _, _, bootedRanges_valid, rfl, rfl⟩

/-- The system admits every step that ends no search while another thread has an entry to
write. -/
def AdmitsAlone (sys : TransitionSystem (GrowState Bool) (Bool × GrowAction)) : Prop :=
  ∀ state label next, (growSystem Bool).step state label next →
    state.SearchesAlone label next → sys.step state label next

/-- A run of two threads, with the entries of `ds_pages`, their places and the ranges returned. -/
structure Racing (sys : TransitionSystem (GrowState Bool) (Bool × GrowAction))
    (slots : List (ℕ × Paddr)) (taken : ℕ) (pages : ℕ → Paddr) (pcs : Bool → GrowPc)
    (returned : List (Vaddr × Vaddr)) (state : GrowState Bool) : Prop where
  reachable : sys.Reachable state
  domain : state.kernel.kernelPd = pdInit
  region : state.kernel.kernelRm.rmChilds = [firstRegion]
  capacity : (state.kernel.kernelRmodss 1).dsNPages = 128
  takes : Takes slots taken state.kernel.memoryAllocator
  pages : (state.kernel.kernelRmodss 1).dsPages = pages
  places : state.pc = pcs
  returned : state.returned = returned

section Racing

variable {sys : TransitionSystem (GrowState Bool) (Bool × GrowAction)}
  {slots : List (ℕ × Paddr)} {taken : ℕ} {pages : ℕ → Paddr} {pcs : Bool → GrowPc}
  {returned : List (Vaddr × Vaddr)} {state : GrowState Bool} {vars : GrowVars} {curpage : Paddr}

theorem searchesAlone_of_not_search {label : Bool × GrowAction} {next : GrowState Bool}
    (notSearch : ∀ vars, state.pc label.1 ≠ .search vars) : state.SearchesAlone label next :=
  fun vars _ isSearch => absurd isSearch (notSearch vars)

theorem searchesAlone_of_not_storesAhead {thread : Bool} {next : GrowState Bool}
    (notAhead : ¬state.StoresAhead (!thread)) : state.SearchesAlone (thread, .advance) next := by
  intro vars _ _ _ _ other isOther
  rwa [Bool.eq_not_of_ne isOther]

theorem Racing.nPages_eq (racing : Racing sys slots taken pages pcs returned state)
    (isDs : vars.ds = 1) : state.nPages vars = 128 := by
  rw [GrowState.nPages, isDs, racing.capacity]
  rfl

/-- The variables of a call at the start of its search. -/
def searchVars (n : ℕ) : GrowVars where
  ds := 1
  start := kernelVab + 0
  n := n
  i := 0
  j := 0
  addr := 0
  va := 0
  sr := 0

theorem Racing.call (racing : Racing sys slots taken pages pcs returned state)
    (admits : AdmitsAlone sys) (thread : Bool) (n : ℕ) (isIdle : pcs thread = .idle) :
    ∃ next, Racing sys slots taken pages (Function.update pcs thread (.search (searchVars n)))
      returned next := by
  have notSearch : ∀ vars, state.pc thread ≠ .search vars := by simp [racing.places, isIdle]
  have reachable := racing.reachable.step (admits state (thread, .call n) (state.call thread n)
    ⟨by rw [racing.places, isIdle], rfl⟩ (searchesAlone_of_not_search notSearch))
  have next : state.call thread n = state.goto thread (.search (searchVars n)) := by
    simp only [GrowState.call, racing.region, racing.domain]
    rfl
  rw [next] at reachable
  exact ⟨_, reachable, racing.domain, racing.region, racing.capacity, racing.takes, racing.pages,
    by rw [← racing.places]; rfl, racing.returned⟩

/-- The search passes an entry that is in use. -/
theorem Racing.pass (racing : Racing sys slots taken pages pcs returned state)
    (admits : AdmitsAlone sys) (thread : Bool) (isSearch : pcs thread = .search vars)
    (isDs : vars.ds = 1) (inRegion : vars.i < 128) (isUsed : pages vars.i ≠ 0) :
    ∃ next, Racing sys slots taken pages
      (Function.update pcs thread (.search { vars with i := vars.i + 1 })) returned next := by
  have isPc : state.pc thread = .search vars := by rw [racing.places, isSearch]
  have isRead : state.readPage vars = pages vars.i := by
    rw [GrowState.readPage, isDs, racing.pages]
  have alone : state.SearchesAlone (thread, .advance) (state.advance thread) := by
    intro other _ isOther _ isFree
    rw [isPc, GrowPc.search.injEq] at isOther
    rw [← isOther, isRead] at isFree
    exact absurd isFree isUsed
  have reachable := racing.reachable.step (admits state (thread, .advance) (state.advance thread)
    ⟨by simp [isPc], rfl⟩ alone)
  have next : state.advance thread = state.goto thread (.search { vars with i := vars.i + 1 }) := by
    simp only [GrowState.advance, isPc, racing.nPages_eq isDs, isRead]
    rw [if_neg (by omega), if_pos isUsed]
  rw [next] at reachable
  exact ⟨_, reachable, racing.domain, racing.region, racing.capacity, racing.takes, racing.pages,
    by rw [← racing.places]; rfl, racing.returned⟩

/-- The variables of a call when its search has ended. -/
def GrowVars.found (vars : GrowVars) : GrowVars :=
  { vars with
    addr := vars.start + BitVec.ofNat 32 vars.i * 0x1000
    va := vars.start + BitVec.ofNat 32 vars.i * 0x1000
    sr := 0
    j := 0 }

/-- The search ends at an entry that is free. -/
theorem Racing.find (racing : Racing sys slots taken pages pcs returned state) (thread : Bool)
    (isSearch : pcs thread = .search vars) (isDs : vars.ds = 1) (inRegion : vars.i < 128)
    (isFree : pages vars.i = 0)
    (admitted : (growSystem Bool).step state (thread, .advance) (state.advance thread) →
      sys.step state (thread, .advance) (state.advance thread)) :
    ∃ next, Racing sys slots taken pages (Function.update pcs thread (.fill vars.found)) returned
      next := by
  have isPc : state.pc thread = .search vars := by rw [racing.places, isSearch]
  have isRead : state.readPage vars = 0 := by
    rw [GrowState.readPage, isDs, racing.pages, isFree]
  have reachable := racing.reachable.step (admitted ⟨by simp [isPc], rfl⟩)
  have next : state.advance thread = state.goto thread (.fill vars.found) := by
    simp only [GrowState.advance, isPc, racing.nPages_eq isDs, isRead]
    rw [if_neg (by omega), if_neg (by simp)]
    rfl
  rw [next] at reachable
  exact ⟨_, reachable, racing.domain, racing.region, racing.capacity, racing.takes, racing.pages,
    by rw [← racing.places]; rfl, racing.returned⟩

theorem Racing.reachable_advance (racing : Racing sys slots taken pages pcs returned state)
    (admits : AdmitsAlone sys) (thread : Bool) (notIdle : pcs thread ≠ .idle)
    (notSearch : ∀ vars, pcs thread ≠ .search vars) : sys.Reachable (state.advance thread) := by
  rw [← racing.places] at notIdle notSearch
  exact racing.reachable.step (admits state (thread, .advance) (state.advance thread)
    ⟨notIdle, rfl⟩ (searchesAlone_of_not_search notSearch))

theorem Racing.alloc (racing : Racing sys slots taken pages pcs returned state)
    (admits : AdmitsAlone sys) (thread : Bool) (nodup : (slots.map Prod.fst).Nodup)
    (isFill : pcs thread = .fill vars) (isDs : vars.ds = 1) (goesOn : vars.j < vars.n)
    (inRegion : vars.i < 128) (hasSlot : taken < slots.length) :
    ∃ next, Racing sys slots (taken + 1) pages
      (Function.update pcs thread (.store vars slots[taken].2)) returned next := by
  have reachable := racing.reachable_advance admits thread (by simp [isFill]) (by simp [isFill])
  obtain ⟨bmas, allocated, takes⟩ :=
    racing.takes.vmPhysAlloc_some nodup (List.getElem?_eq_getElem hasSlot)
  have isPc : state.pc thread = .fill vars := by rw [racing.places, isFill]
  have next : state.advance thread = { state with
      kernel := { state.kernel with memoryAllocator := bmas }
      allocated := slots[taken].2 :: state.allocated }.goto thread
        (.store vars slots[taken].2) := by
    simp only [GrowState.advance, isPc, racing.nPages_eq isDs, allocated]
    rw [if_neg (by omega)]
  rw [next] at reachable
  exact ⟨_, reachable, racing.domain, racing.region, racing.capacity, takes, racing.pages,
    by rw [← racing.places]; rfl, racing.returned⟩

theorem Racing.store (racing : Racing sys slots taken pages pcs returned state)
    (admits : AdmitsAlone sys) (thread : Bool) (isStore : pcs thread = .store vars curpage)
    (isDs : vars.ds = 1) :
    ∃ next, Racing sys slots taken (Function.update pages vars.i curpage)
      (Function.update pcs thread (.enter vars curpage)) returned next := by
  have reachable := racing.reachable_advance admits thread (by simp [isStore]) (by simp [isStore])
  have isPc : state.pc thread = .store vars curpage := by rw [racing.places, isStore]
  have next : state.advance thread =
      { state with kernel := state.kernel.storePage vars.ds vars.i curpage }.goto thread
        (.enter vars curpage) := by
    simp only [GrowState.advance, isPc]
  rw [next] at reachable
  refine ⟨_, reachable, racing.domain, racing.region, ?_, racing.takes, ?_,
    by rw [← racing.places]; rfl, racing.returned⟩
  · exact (storePage_dsNPages _ _ _ _ _).trans racing.capacity
  · rw [isDs, ← racing.pages]
    exact storePage_dsPages ..

theorem Racing.enter (racing : Racing sys slots taken pages pcs returned state)
    (admits : AdmitsAlone sys) (thread : Bool) (isEnter : pcs thread = .enter vars curpage) :
    ∃ next, Racing sys slots taken pages (Function.update pcs thread (.fill { vars with
      i := vars.i + 1, j := vars.j + 1, va := vars.va + 0x1000, sr := vars.sr + 0x1000 }))
      returned next := by
  have reachable := racing.reachable_advance admits thread (by simp [isEnter]) (by simp [isEnter])
  have isPc : state.pc thread = .enter vars curpage := by rw [racing.places, isEnter]
  simp only [GrowState.advance, isPc] at reachable
  exact ⟨_, reachable, racing.domain, racing.region, racing.capacity, racing.takes, racing.pages,
    by rw [← racing.places]; rfl, racing.returned⟩

theorem Racing.finish (racing : Racing sys slots taken pages pcs returned state)
    (admits : AdmitsAlone sys) (thread : Bool) (isFill : pcs thread = .fill vars)
    (isDone : vars.n ≤ vars.j) (some : vars.sr ≠ 0) :
    ∃ next, Racing sys slots taken pages (Function.update pcs thread .idle)
      ((vars.addr, vars.sr) :: returned) next := by
  have reachable := racing.reachable_advance admits thread (by simp [isFill]) (by simp [isFill])
  have isPc : state.pc thread = .fill vars := by rw [racing.places, isFill]
  simp only [GrowState.advance, isPc, if_pos (Or.inl isDone : _ ∨ vars.i = state.nPages vars)]
    at reachable
  refine ⟨_, reachable, racing.domain, racing.region, racing.capacity, racing.takes, racing.pages,
    by rw [← racing.places]; rfl, ?_⟩
  simp only [GrowState.finish, if_neg some, racing.returned]

theorem bootedKernel_grown :
    ∃ slots, GoodSlots slots ∧ 254 ≤ slots.length ∧ Grown slots 0 bootedKernel := by
  have good := booted_goodSlots bootedRanges_valid rfl fun _ => 0
  refine ⟨_, good, ?_, vmInit_grown good ⟨rfl, (PhysmemBmaset.booted_spec bootedRanges_valid _).2⟩
    _ _⟩
  rw [PhysmemBmaset.length_slots]
  decide +kernel

theorem racing_booted (isInit : ∀ state, (growSystem Bool).init state → sys.init state) :
    ∃ slots pages, GoodSlots slots ∧ 254 ≤ slots.length ∧ (∀ i < 128, pages i = 0) ∧
      Racing sys slots 252 pages (fun _ => .idle) [] ⟨bootedKernel, fun _ => .idle, [], []⟩ := by
  obtain ⟨slots, good, enough, grown⟩ := bootedKernel_grown
  have tables : min 252 slots.length + 0 = 252 := by omega
  have takes := grown.takes
  rw [tables] at takes
  exact ⟨slots, _, good, enough, fun i inRegion => grown.free i (Nat.zero_le _) inRegion,
    .init (isInit _ bootedKernel_init), grown.domain, grown.region, grown.capacity, takes, rfl,
    rfl, rfl⟩

end Racing

/-- In every run in which no search ends while another thread has an entry to write, the
ranges that are returned are disjoint and no allocated frame is lost. -/
theorem growSystem_safe {Tid : Type} [DecidableEq Tid] {state : GrowState Tid}
    (reachable : ((growSystem Tid).restrict GrowState.SearchesAlone).Reachable state) :
    state.Safe := by
  have invariant : ∃ slots count spans, GoodSlots slots ∧ GrowInv slots count spans state := by
    apply reachable.invariant
    · rintro _ ⟨first, second, words, mmu, rmodss, calls, valid, fromZero, rfl⟩
      have good := booted_goodSlots valid fromZero words
      obtain ⟨count, grownRun⟩ :=
        KernelRun.after_grownRun valid fromZero words mmu rmodss calls
      refine ⟨_, count, [], good, grownRun.grown.shared good, fun _ => trivial, ?_, ?_, rfl, ?_, ?_,
        ?_, ?_, ?_⟩
      · simp [GrowState.StoresAhead]
      · simp [GrowPc.span]
      · simp
      · exact List.Pairwise.nil
      · simp
      · simp [GrowState.StoresAhead]
      · simp
    · rintro source label target ⟨slots, count, spans, good, inv⟩ ⟨stepped, alone⟩
      obtain ⟨later, more, next⟩ := inv.step good stepped alone
      exact ⟨slots, later, more, good, next⟩
  obtain ⟨slots, count, spans, -, inv⟩ := invariant
  exact inv.safe

/-- Both threads call for one page. The second search ends when the first thread has stored its
page but not yet entered it, and both get a range. -/
theorem growSystem_safe_bothReturn : ∃ state : GrowState Bool,
    ((growSystem Bool).restrict GrowState.SearchesAlone).Reachable state ∧
      state.returned = [(0xc1001000, 0x1000), (0xc1000000, 0x1000)] ∧ state.Safe := by
  have admits : AdmitsAlone ((growSystem Bool).restrict GrowState.SearchesAlone) :=
    fun _ _ _ step alone => ⟨step, alone⟩
  obtain ⟨slots, pages, good, enough, free, start⟩ :=
    racing_booted (show ∀ state, (growSystem Bool).init state →
      ((growSystem Bool).restrict GrowState.SearchesAlone).init state from fun _ isInit => isInit)
  have nonzero : slots[252].2 ≠ 0 := by
    intro isZero
    have early := good.nonzero 252 _ (List.getElem?_eq_getElem (by omega)) isZero
    omega
  obtain ⟨_, called⟩ := start.call admits true 1 rfl
  obtain ⟨_, calledToo⟩ := called.call admits false 1 rfl
  obtain ⟨_, found⟩ := calledToo.find true rfl rfl (by decide) (free 0 (by decide)) fun step =>
    ⟨step, searchesAlone_of_not_storesAhead (by simp [GrowState.StoresAhead, calledToo.places])⟩
  obtain ⟨_, allocated⟩ :=
    found.alloc admits true good.bits rfl rfl (by decide) (by decide) (by omega)
  obtain ⟨_, stored⟩ := allocated.store admits true rfl rfl
  obtain ⟨_, passed⟩ := stored.pass admits false rfl rfl (by decide) nonzero
  obtain ⟨_, foundToo⟩ := passed.find false rfl rfl (by decide) (free 1 (by decide)) fun step =>
    ⟨step, searchesAlone_of_not_storesAhead (by simp [GrowState.StoresAhead, passed.places,
      GrowVars.found, searchVars])⟩
  obtain ⟨_, allocatedToo⟩ :=
    foundToo.alloc admits false good.bits rfl rfl (by decide) (by decide) (by omega)
  obtain ⟨_, entered⟩ := allocatedToo.enter admits true rfl
  obtain ⟨_, storedToo⟩ := entered.store admits false rfl rfl
  obtain ⟨_, returned⟩ := storedToo.finish admits true rfl (by decide) (by decide)
  obtain ⟨_, enteredToo⟩ := returned.enter admits false rfl
  obtain ⟨_, last⟩ := enteredToo.finish admits false rfl (by decide) (by decide)
  exact ⟨_, last.reachable, last.returned, growSystem_safe last.reachable⟩

/-- Both threads search before one of them stores: both get the first page of the region. -/
theorem not_safe_bothSearch :
    ∃ state : GrowState Bool, (growSystem Bool).Reachable state ∧ ¬state.Safe := by
  have admits : AdmitsAlone (growSystem Bool) := fun _ _ _ step _ => step
  obtain ⟨slots, pages, good, enough, free, start⟩ :=
    racing_booted (show ∀ state, (growSystem Bool).init state → (growSystem Bool).init state
      from fun _ isInit => isInit)
  obtain ⟨_, called⟩ := start.call admits false 1 rfl
  obtain ⟨_, calledToo⟩ := called.call admits true 1 rfl
  obtain ⟨_, found⟩ := calledToo.find false rfl rfl (by decide) (free 0 (by decide)) id
  obtain ⟨_, foundToo⟩ := found.find true rfl rfl (by decide) (free 0 (by decide)) id
  obtain ⟨_, allocated⟩ :=
    foundToo.alloc admits false good.bits rfl rfl (by decide) (by decide) (by omega)
  obtain ⟨_, allocatedToo⟩ :=
    allocated.alloc admits true good.bits rfl rfl (by decide) (by decide) (by omega)
  obtain ⟨_, stored⟩ := allocatedToo.store admits false rfl rfl
  obtain ⟨_, entered⟩ := stored.enter admits false rfl
  obtain ⟨_, returned⟩ := entered.finish admits false rfl (by decide) (by decide)
  obtain ⟨_, storedToo⟩ := returned.store admits true rfl rfl
  obtain ⟨_, enteredToo⟩ := storedToo.enter admits true rfl
  obtain ⟨_, last⟩ := enteredToo.finish admits true rfl (by decide) (by decide)
  refine ⟨_, last.reachable, ?_⟩
  intro safe
  have disjoint := safe.disjoint
  rw [last.returned] at disjoint
  revert disjoint
  decide

end Rkernel
