import Mathlib.Logic.Function.Basic

/-!
# Cached page table entries

A processor caches entries of the page table that it walks. It may cache a valid entry at any
time and drop an entry at any time; an entry is dropped for certain only by an instruction. A
store to the table leaves a cached entry as it is, so that the page is out of date until it is
invalidated.

`stale` follows a program and collects the pages that can be out of date behind it. What it
collects is sound for every interleaving with the processor's own moves.
-/

namespace Tlb

variable {Page Entry : Type} [DecidableEq Page]

/-- The page table and the entries that are cached. -/
structure State (Page Entry : Type) where
  table : Page → Entry
  cached : Page → Option Entry

inductive Instr (Page Entry : Type) where
  | store (page : Page) (entry : Entry)
  | invalidate (page : Page)
  | invalidateAll

def exec (state : State Page Entry) : Instr Page Entry → State Page Entry
  | .store page entry => { state with table := Function.update state.table page entry }
  | .invalidate page => { state with cached := Function.update state.cached page none }
  | .invalidateAll => { state with cached := fun _ => none }

/-- What the processor does by itself: it caches a valid entry or drops one. -/
inductive Moves (valid : Entry → Prop) (state : State Page Entry) : State Page Entry → Prop where
  | fill (page : Page) (isValid : valid (state.table page)) :
      Moves valid state
        { state with cached := Function.update state.cached page (some (state.table page)) }
  | evict (page : Page) :
      Moves valid state { state with cached := Function.update state.cached page none }

/-- A program is executed, with moves of the processor before, between and after. -/
inductive Runs (valid : Entry → Prop) :
    List (Instr Page Entry) → State Page Entry → State Page Entry → Prop where
  | nil (state : State Page Entry) : Runs valid [] state state
  | move {program : List (Instr Page Entry)} {state moved final : State Page Entry}
      (moves : Moves valid state moved) (runs : Runs valid program moved final) :
      Runs valid program state final
  | exec {instr : Instr Page Entry} {program : List (Instr Page Entry)}
      {state final : State Page Entry} (runs : Runs valid program (exec state instr) final) :
      Runs valid (instr :: program) state final

/-- The processor can use an entry for a page. -/
def Uses (valid : Entry → Prop) (state : State Page Entry) (page : Page) (entry : Entry) : Prop :=
  valid entry ∧ (state.table page = entry ∨ state.cached page = some entry)

/-- What is cached for a page, if anything, is the entry of the table. -/
def Fresh (state : State Page Entry) (page : Page) : Prop :=
  ∀ entry, state.cached page = some entry → state.table page = entry

/-- Only valid entries are cached, and all pages but some are fresh. -/
structure Sound (valid : Entry → Prop) (state : State Page Entry) (outdated : Page → Prop) :
    Prop where
  valid : ∀ page entry, state.cached page = some entry → valid entry
  fresh : ∀ page, ¬outdated page → Fresh state page

/-- The table behind a program. -/
def tableAfter : List (Instr Page Entry) → (Page → Entry) → Page → Entry
  | [], table => table
  | .store page entry :: rest, table => tableAfter rest (Function.update table page entry)
  | .invalidate _ :: rest, table => tableAfter rest table
  | .invalidateAll :: rest, table => tableAfter rest table

/-- The pages that can be out of date behind a program. -/
def stale (valid : Entry → Prop) :
    List (Instr Page Entry) → (Page → Entry) → (Page → Prop) → Page → Prop
  | [], _, outdated => outdated
  | .store page entry :: rest, table, outdated =>
      stale valid rest (Function.update table page entry) fun other =>
        outdated other ∨ other = page ∧ valid (table page) ∧ table page ≠ entry
  | .invalidate page :: rest, table, outdated =>
      stale valid rest table fun other => outdated other ∧ other ≠ page
  | .invalidateAll :: rest, table, _ => stale valid rest table fun _ => False

/-- A program that invalidates every page right behind the store to its entry. -/
inductive Paired : List (Instr Page Entry) → Prop where
  | nil : Paired []
  | cons (page : Page) (entry : Entry) {rest : List (Instr Page Entry)} (paired : Paired rest) :
      Paired (.store page entry :: .invalidate page :: rest)

/-- A program stores to the entry of a page. -/
def Stores (program : List (Instr Page Entry)) (page : Page) : Prop :=
  ∃ entry, .store page entry ∈ program

section Moves

variable {valid : Entry → Prop} {state moved : State Page Entry} {outdated : Page → Prop}

theorem Moves.table_eq (moves : Moves valid state moved) : moved.table = state.table := by
  cases moves with
  | fill _ _ => rfl
  | evict _ => rfl

omit [DecidableEq Page] in
theorem Sound.mono (sound : Sound valid state outdated) {more : Page → Prop}
    (weaker : ∀ page, outdated page → more page) : Sound valid state more :=
  ⟨sound.valid, fun page notMore => sound.fresh page fun isOutdated =>
    notMore (weaker page isOutdated)⟩

theorem Sound.fill (sound : Sound valid state outdated) {page : Page}
    (isValid : valid (state.table page)) :
    Sound valid
      { state with cached := Function.update state.cached page (some (state.table page)) }
      outdated := by
  have isEntry (other : Page) (entry : Entry) (isCached : Function.update state.cached page
      (some (state.table page)) other = some entry) :
      other = page ∧ state.table page = entry ∨ state.cached other = some entry := by
    rcases eq_or_ne other page with rfl | isOther
    · rw [Function.update_self, Option.some.injEq] at isCached
      exact Or.inl ⟨rfl, isCached⟩
    · rw [Function.update_of_ne isOther] at isCached
      exact Or.inr isCached
  constructor
  · intro other entry isCached
    rcases isEntry other entry isCached with ⟨-, rfl⟩ | wasCached
    · exact isValid
    · exact sound.valid other entry wasCached
  · intro other notOutdated entry isCached
    rcases isEntry other entry isCached with ⟨rfl, isTable⟩ | wasCached
    · exact isTable
    · exact sound.fresh other notOutdated entry wasCached

theorem Sound.invalidate (sound : Sound valid state outdated) (page : Page) :
    Sound valid (exec state (.invalidate page)) fun other => outdated other ∧ other ≠ page := by
  have kept (other : Page) (entry : Entry)
      (isCached : (exec state (.invalidate page)).cached other = some entry) :
      other ≠ page ∧ state.cached other = some entry := by
    change Function.update state.cached page none other = some entry at isCached
    rcases eq_or_ne other page with rfl | isOther
    · simp at isCached
    · rw [Function.update_of_ne isOther] at isCached
      exact ⟨isOther, isCached⟩
  constructor
  · intro other entry isCached
    exact sound.valid other entry (kept other entry isCached).2
  · intro other notOutdated entry isCached
    rcases kept other entry isCached with ⟨isOther, wasCached⟩
    exact sound.fresh other (fun isOutdated => notOutdated ⟨isOutdated, isOther⟩) entry wasCached

theorem Sound.move (sound : Sound valid state outdated) (moves : Moves valid state moved) :
    Sound valid moved outdated := by
  cases moves with
  | fill _ isValid => exact sound.fill isValid
  | evict page => exact (sound.invalidate page).mono fun _ => And.left

/-- A store makes its page outdated only if the entry before was valid and another one. -/
theorem Sound.store (sound : Sound valid state outdated) (page : Page) (entry : Entry) :
    Sound valid (exec state (.store page entry)) fun other =>
      outdated other ∨ other = page ∧ valid (state.table page) ∧ state.table page ≠ entry := by
  refine ⟨sound.valid, ?_⟩
  intro other notOutdated old isCached
  rw [not_or] at notOutdated
  have wasFresh := sound.fresh other notOutdated.1 old isCached
  rcases eq_or_ne other page with rfl | isOther
  · have isValid := sound.valid other old isCached
    rw [wasFresh] at notOutdated
    change Function.update state.table other entry other = old
    rw [Function.update_self]
    by_contra differ
    exact notOutdated.2 ⟨rfl, isValid, fun same => differ same.symm⟩
  · change Function.update state.table page entry other = old
    rw [Function.update_of_ne isOther]
    exact wasFresh

theorem Sound.invalidateAll : Sound valid (exec state .invalidateAll) fun _ => False := by
  constructor
  · intro page entry isCached
    contradiction
  · intro page _ entry isCached
    contradiction

omit [DecidableEq Page] in
theorem Sound.uses_iff (sound : Sound valid state outdated) {page : Page}
    (notOutdated : ¬outdated page) {entry : Entry} :
    Uses valid state page entry ↔ valid entry ∧ state.table page = entry := by
  rw [Uses]
  refine and_congr_right fun _ => or_iff_left_of_imp ?_
  exact sound.fresh page notOutdated entry

end Moves

section Programs

variable {valid : Entry → Prop} {program rest : List (Instr Page Entry)}
  {state final : State Page Entry} {outdated : Page → Prop} {page : Page}

/-- Every execution leaves the table that the program makes, and no page is out of date but those
that were collected. -/
theorem Runs.sound (runs : Runs valid program state final)
    (sound : Sound valid state outdated) :
    final.table = tableAfter program state.table ∧
      Sound valid final (stale valid program state.table outdated) := by
  induction runs generalizing outdated with
  | nil state => exact ⟨rfl, sound⟩
  | move moves runs ih =>
      rw [← moves.table_eq]
      exact ih (sound.move moves)
  | exec runs ih =>
      rename_i instr program state final
      cases instr with
      | store page entry => exact ih (sound.store page entry)
      | invalidate page => exact ih (sound.invalidate page)
      | invalidateAll => exact ih Sound.invalidateAll

theorem tableAfter_append (table : Page → Entry) :
    tableAfter (program ++ rest) table = tableAfter rest (tableAfter program table) := by
  induction program generalizing table with
  | nil => rfl
  | cons instr program ih =>
      cases instr with
      | store page entry => exact ih _
      | invalidate page => exact ih _
      | invalidateAll => exact ih _

theorem stale_append (table : Page → Entry) :
    stale valid (program ++ rest) table outdated =
      stale valid rest (tableAfter program table) (stale valid program table outdated) := by
  induction program generalizing table outdated with
  | nil => rfl
  | cons instr program ih =>
      cases instr with
      | store page entry => exact ih _
      | invalidate page => exact ih _
      | invalidateAll => exact ih _

/-- What a program makes of an entry depends on that entry alone. -/
theorem tableAfter_congr {table other : Page → Entry} (same : table page = other page) :
    tableAfter program table page = tableAfter program other page := by
  induction program generalizing table other with
  | nil => exact same
  | cons instr program ih =>
      cases instr with
      | store stored entry =>
          refine ih ?_
          rcases eq_or_ne page stored with rfl | isOther
          · rw [Function.update_self, Function.update_self]
          · rw [Function.update_of_ne isOther, Function.update_of_ne isOther, same]
      | invalidate _ => exact ih same
      | invalidateAll => exact ih same

theorem tableAfter_invalidates (pages : List Page) (table : Page → Entry) :
    tableAfter (pages.map .invalidate) table = table := by
  induction pages with
  | nil => rfl
  | cons page pages ih => exact ih

theorem stale_invalidates (pages : List Page) (table : Page → Entry) :
    stale valid (pages.map .invalidate) table outdated page ↔ outdated page ∧ page ∉ pages := by
  induction pages generalizing outdated with
  | nil => simp [stale]
  | cons first pages ih => rw [List.map_cons, stale, ih, List.mem_cons, not_or, and_assoc]

theorem tableAfter_of_not_stores (untouched : ¬Stores program page) (table : Page → Entry) :
    tableAfter program table page = table page := by
  induction program generalizing table with
  | nil => rfl
  | cons instr program ih =>
      have later : ¬Stores program page := fun ⟨entry, isLater⟩ =>
        untouched ⟨entry, List.mem_cons_of_mem _ isLater⟩
      cases instr with
      | store other entry =>
          have isOther : page ≠ other := by
            rintro rfl
            exact untouched ⟨entry, List.mem_cons_self⟩
          rw [tableAfter, ih later, Function.update_of_ne isOther]
      | invalidate other => exact ih later _
      | invalidateAll => exact ih later _

/-- Only a store makes a page out of date. -/
theorem outdated_or_stores_of_stale (table : Page → Entry)
    (isStale : stale valid program table outdated page) : outdated page ∨ Stores program page := by
  induction program generalizing table outdated with
  | nil => exact Or.inl isStale
  | cons instr program ih =>
      have later (stores : Stores program page) : Stores (instr :: program) page :=
        stores.imp fun _ isIn => List.mem_cons_of_mem _ isIn
      cases instr with
      | store other entry =>
          rcases ih _ isStale with (before | ⟨rfl, -⟩) | stores
          · exact Or.inl before
          · exact Or.inr ⟨entry, List.mem_cons_self⟩
          · exact Or.inr (later stores)
      | invalidate other =>
          rcases ih _ isStale with ⟨before, -⟩ | stores
          · exact Or.inl before
          · exact Or.inr (later stores)
      | invalidateAll =>
          rcases ih _ isStale with isFalse | stores
          · exact isFalse.elim
          · exact Or.inr (later stores)

/-- In a program that pairs its stores, the only page that can be out of date is the one that the
next instruction invalidates. -/
theorem Paired.stale_eq (paired : Paired program) {done : List (Instr Page Entry)}
    (table : Page → Entry) (isCut : program = done ++ rest) :
    (∀ other, ¬stale valid done table (fun _ => False) other) ∨
      ∃ next back, rest = .invalidate next :: back ∧
        ∀ other, stale valid done table (fun _ => False) other → other = next := by
  induction paired generalizing done table with
  | nil =>
      rw [List.nil_eq, List.append_eq_nil_iff] at isCut
      rw [isCut.1]
      exact Or.inl fun _ => id
  | cons page entry paired ih =>
      rename_i back
      match done with
      | [] => exact Or.inl fun _ => id
      | [first] =>
          rw [List.singleton_append, List.cons.injEq] at isCut
          right
          refine ⟨page, back, isCut.2.symm, ?_⟩
          rw [← isCut.1]
          rintro other (isFalse | ⟨isPage, -⟩)
          · exact isFalse.elim
          · exact isPage
      | first :: second :: done =>
          rw [List.cons_append, List.cons_append, List.cons.injEq, List.cons.injEq] at isCut
          have none : (fun other => (False ∨ other = page ∧ valid (table page) ∧
              table page ≠ entry) ∧ other ≠ page) = fun _ => False := by
            funext other
            rw [eq_iff_iff, iff_false]
            rintro ⟨isFalse | ⟨isPage, -⟩, isOther⟩
            · exact isFalse
            · exact isOther isPage
          rw [← isCut.1, ← isCut.2.1, stale, stale, none]
          exact ih _ isCut.2.2

/-- The execution in which the processor caches nothing. -/
theorem runs_uncached (program : List (Instr Page Entry)) (table : Page → Entry) :
    Runs valid program ⟨table, fun _ => none⟩ ⟨tableAfter program table, fun _ => none⟩ := by
  induction program generalizing table with
  | nil => exact .nil _
  | cons instr program ih =>
      cases instr with
      | store page entry => exact .exec (ih _)
      | invalidate page =>
          have same : exec ⟨table, fun _ => none⟩ (.invalidate page : Instr Page Entry) =
              ⟨table, fun _ => none⟩ := by
            rw [exec, Function.update_eq_self_iff.mpr rfl]
          refine .exec ?_
          rw [same]
          exact ih table
      | invalidateAll => exact .exec (ih table)

end Programs

end Tlb
