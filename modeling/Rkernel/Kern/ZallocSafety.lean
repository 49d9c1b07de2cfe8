import Rkernel.Kern.ZallocCells

/-!
# Safety of the zone allocator

Over any sequence of calls every zone has a finite free list whose length is its
`zn_count`, all buffers of all zones are apart, and the header of every object in use
names its zone. The induction goes over a `ZoneLedger`: a view of every zone and the
buffers in use, whose cells are arranged in memory and lie in the ranges the
allocator has been given.

A buffer is at least as large as its header unless the sum of the object size and the
header wraps around to two bytes or less.
-/

namespace Rkernel

/-- The free list that starts with a pointer. -/
def FreeChain (memory : Memory) : ℕ → List ℕ → Prop
  | top, [] => top = 0
  | top, buffer :: free => top = buffer ∧ buffer ≠ 0 ∧ FreeChain memory (memory.read32 buffer) free

/-- The free list of a zone: finite, without repetition, and as long as `zn_count` says. -/
structure FreeList (memory : Memory) (zone : ℕ) (free : List ℕ) : Prop where
  chain : FreeChain memory (Zone.znFreelist memory zone) free
  nodup : free.Nodup
  count : Zone.znCount memory zone = free.length

theorem FreeChain.unique {memory : Memory} {top : ℕ} {free others : List ℕ}
    (chain : FreeChain memory top free) (again : FreeChain memory top others) : free = others := by
  induction free generalizing top others with
  | nil =>
      cases others with
      | nil => rfl
      | cons other others => exact absurd (again.1.symm.trans chain) again.2.1
  | cons buffer free ih =>
      cases others with
      | nil => exact absurd (chain.1.symm.trans again) chain.2.1
      | cons other others =>
          rcases chain with ⟨rfl, _, later⟩
          rcases again with ⟨rfl, _, laterAgain⟩
          rw [ih later laterAgain]

namespace ZoneState

/-- The buffer of a zone's descriptor; the zone of zones has the static descriptor. -/
def descriptorRange (image : ZoneImage) (state : ZoneState) (zone : ℕ) : ℕ × ℕ :=
  if zone = image.sZoneZone then (zone, Zone.sizeof)
  else (zone - 4, Zone.znBufsize state.memory image.sZoneZone)

/-- All descriptors and free buffers, for given free lists, and the buffers of all objects. -/
def blocks (image : ZoneImage) (state : ZoneState) (lists : List (ℕ × List ℕ)) : List (ℕ × ℕ) :=
  lists.flatMap (fun entry => state.descriptorRange image entry.1 ::
    entry.2.map fun buffer => (buffer, Zone.znBufsize state.memory entry.1)) ++
  state.live.map fun entry => (entry.2 - 4, Zone.znBufsize state.memory entry.1)

/-- Every zone has its free list, all buffers are apart and every header names the zone. -/
structure Safe (image : ZoneImage) (state : ZoneState) : Prop where
  lists : ∃ lists : List (ℕ × List ℕ), lists.map Prod.fst = image.sZoneZone :: state.zones ∧
    (∀ entry ∈ lists, FreeList state.memory entry.1 entry.2) ∧
    (state.blocks image lists).Pairwise RangesApart
  objects : ∀ entry ∈ state.live,
    entry.1 ∈ state.zones ∧ state.memory.read32 (entry.2 - 4) = entry.1
  descriptors : ∀ zone ∈ state.zones, state.memory.read32 (zone - 4) = image.sZoneZone

/-- The state is safe; `zfree` returns an object to its zone and leaves the other free lists
alone; `zalloc` and `zcram` return, and `zalloc` returns null exactly for an empty free list. -/
structure Sound (image : ZoneImage) (state : ZoneState) : Prop where
  safe : state.Safe image
  frees : ∀ entry ∈ state.live, ∀ zone ∈ image.sZoneZone :: state.zones, ∀ free,
    FreeList state.memory zone free →
      FreeList (zfree state.memory entry.2) zone
        (if zone = entry.1 then (entry.2 - 4) :: free else free)
  allocates : ∀ zone ∈ state.zones, ∀ supply : VmSupply,
    (∀ range ∈ supply.answer state.memory zone 32, state.Fresh range) →
      ∃ fuel refilled free, zallocRefill fuel supply state.memory zone = .ok refilled ∧
        FreeList refilled zone free ∧
        zalloc fuel supply state.memory zone = .ok (removeTop refilled zone) ∧
        ((removeTop refilled zone).1 = 0 ↔ free = [])
  crams : ∀ zone ∈ state.zones, ∀ mem size, state.Fresh (mem, size) →
    ∃ fuel memory, zcram fuel state.memory zone mem size = .ok memory

end ZoneState

/-- An object in use, with its zone and the size of its buffer. -/
structure LiveView where
  zone : ℕ
  object : ℕ
  size : ℕ

/-- The buffer of an object in use, whose header names the zone. -/
def LiveView.cell (live : LiveView) : Cell :=
  bufferCell false live.size live.zone (live.object - 4)

/-- The zone of zones, the other zones and the objects in use. -/
structure ZoneLedger where
  first : ZoneView
  views : List ZoneView
  live : List LiveView

/-- The ranges of a zone: its descriptor and its free buffers. -/
def ZoneView.ranges (view : ZoneView) : List (ℕ × ℕ) :=
  view.range :: view.free.map fun buffer => (buffer, view.bufsize)

namespace ZoneLedger

/-- All cells of the zones and the objects. -/
def cells (ledger : ZoneLedger) (owner : ℕ) : List Cell :=
  (ledger.first :: ledger.views).flatMap (ZoneView.cells owner) ++ ledger.live.map LiveView.cell

/-- The memory of all cells. -/
def ranges (ledger : ZoneLedger) : List (ℕ × ℕ) :=
  (ledger.first :: ledger.views).flatMap ZoneView.ranges ++
    ledger.live.map fun live => (live.object - 4, live.size)

/-- The zones of a ledger are still there and have the same buffer sizes. -/
def Keeps (ledger changed : ZoneLedger) : Prop :=
  ∀ view ∈ ledger.views, ∃ other ∈ changed.views,
    other.address = view.address ∧ other.bufsize = view.bufsize

end ZoneLedger

/-- The ledger describes the state. -/
structure Tracks (image : ZoneImage) (state : ZoneState) (ledger : ZoneLedger) : Prop where
  arranged : Arranged state.memory (ledger.cells image.sZoneZone)
  inside : ∀ range ∈ ledger.ranges, ∃ taken ∈ state.used,
    taken.1 ≤ range.1 ∧ range.1 + range.2 ≤ taken.1 + taken.2
  used : ∀ range ∈ state.used, RangeValid range
  isZoneZone : state.zoneZone = image.sZoneZone
  first : ledger.first.address = image.sZoneZone ∧ ledger.first.bufsize = 32 ∧
    ledger.first.memtype = 0 ∧ ledger.first.blank = true
  zones : ledger.views.map ZoneView.address = state.zones
  views : ∀ view ∈ ledger.views, view.blank = false ∧ 4 ≤ view.bufsize
  live : ledger.live.map (fun live => (live.zone, live.object)) = state.live
  objects : ∀ live ∈ ledger.live, 4 ≤ live.object ∧
    ∃ view ∈ ledger.views, view.address = live.zone ∧ view.bufsize = live.size

section Ranges

theorem chainCells_ranges (blank : Bool) (size : ℕ) (free : List ℕ) :
    (chainCells blank size free).map (fun cell => (cell.start, cell.size)) =
      free.map fun buffer => (buffer, size) := by
  induction free with
  | nil => rfl
  | cons buffer free ih =>
      rw [chainCells, List.map_cons, List.map_cons, ih]
      rfl

theorem ZoneView.cells_ranges (view : ZoneView) (owner : ℕ) :
    (view.cells owner).map (fun cell => (cell.start, cell.size)) = view.ranges := by
  rw [ZoneView.cells, List.map_cons, chainCells_ranges]
  rfl

theorem ZoneLedger.cells_ranges (ledger : ZoneLedger) (owner : ℕ) :
    (ledger.cells owner).map (fun cell => (cell.start, cell.size)) = ledger.ranges := by
  have each : ((ledger.first :: ledger.views).flatMap (ZoneView.cells owner)).map
      (fun cell => (cell.start, cell.size)) =
        (ledger.first :: ledger.views).flatMap ZoneView.ranges := by
    rw [List.map_flatMap]
    exact List.flatMap_congr fun view _ => view.cells_ranges owner
  rw [ZoneLedger.cells, List.map_append, each, List.map_map, ZoneLedger.ranges]
  rfl

theorem ZoneLedger.mem_ranges {ledger : ZoneLedger} {range : ℕ × ℕ} :
    range ∈ ledger.ranges ↔ (∃ view ∈ ledger.first :: ledger.views, range ∈ view.ranges) ∨
      ∃ live ∈ ledger.live, (live.object - 4, live.size) = range := by
  rw [ZoneLedger.ranges, List.mem_append, List.mem_flatMap, List.mem_map]

theorem ZoneView.mem_ranges {view : ZoneView} {range : ℕ × ℕ} :
    range ∈ view.ranges ↔
      range = view.range ∨ ∃ buffer ∈ view.free, (buffer, view.bufsize) = range := by
  rw [ZoneView.ranges, List.mem_cons, List.mem_map]

theorem ZoneLedger.keeps_free {ledger : ZoneLedger} {first view : ZoneView}
    {front back : List ZoneView} {live : List LiveView} {free : List ℕ}
    (views : ledger.views = front ++ view :: back) :
    ledger.Keeps ⟨first, front ++ { view with free := free } :: back, live⟩ := by
  intro other otherMem
  rw [views, List.mem_append, List.mem_cons] at otherMem
  rcases otherMem with inFront | rfl | inBack
  · exact ⟨other, List.mem_append_left _ inFront, rfl, rfl⟩
  · exact ⟨{ other with free := free }, by simp, rfl, rfl⟩
  · exact ⟨other, by simp [inBack], rfl, rfl⟩

theorem Tracks.apart {image : ZoneImage} {state : ZoneState} {ledger : ZoneLedger}
    (tracks : Tracks image state ledger) : ledger.ranges.Pairwise RangesApart := by
  rw [← ledger.cells_ranges image.sZoneZone, List.pairwise_map]
  exact tracks.arranged.apart

end Ranges

section Focus

variable {owner : ℕ} {first view : ZoneView} {front back : List ZoneView} {live : List LiveView}

/-- The cells of all zones but one. -/
def around (owner : ℕ) (first : ZoneView) (front back : List ZoneView) : List Cell :=
  first.cells owner ++ (front.flatMap (ZoneView.cells owner) ++
    back.flatMap (ZoneView.cells owner))

theorem ZoneLedger.cells_view :
    (ZoneLedger.cells ⟨first, front ++ view :: back, live⟩ owner).Perm
      (view.cells owner ++ (around owner first front back ++ live.map LiveView.cell)) := by
  simp only [ZoneLedger.cells, around, List.flatMap_cons, List.flatMap_append, List.append_assoc]
  have moved := (@List.perm_append_comm_assoc _ (front.flatMap (ZoneView.cells owner))
    (view.cells owner) (back.flatMap (ZoneView.cells owner) ++ live.map LiveView.cell)).append_left
      (first.cells owner)
  exact moved.trans (List.perm_append_comm_assoc _ _ _)

end Focus

namespace Tracks

variable {image : ZoneImage} {state next : ZoneState} {ledger : ZoneLedger}
  {first view : ZoneView} {front back : List ZoneView} {live : List LiveView}

theorem range_bounds (tracks : Tracks image state ledger) {range : ℕ × ℕ}
    (rangeMem : range ∈ ledger.ranges) : 0 < range.1 ∧ range.1 + range.2 < 2 ^ 32 := by
  rcases tracks.inside range rangeMem with ⟨taken, takenMem, inside⟩
  rcases tracks.used taken takenMem with ⟨positive, bounded⟩
  omega

theorem fresh_apart (tracks : Tracks image state ledger) {fresh range : ℕ × ℕ}
    (isFresh : state.Fresh fresh) (rangeMem : range ∈ ledger.ranges) : RangesApart fresh range := by
  rcases tracks.inside range rangeMem with ⟨taken, takenMem, inside⟩
  have apart := isFresh.2 taken takenMem
  simp only [RangesApart] at apart ⊢
  omega

/-- Changing the free list of one zone and the objects in use. -/
theorem update (tracks : Tracks image state ⟨first, front ++ view :: back, live⟩)
    {free : List ℕ} {objects : List LiveView}
    (arranged : Arranged next.memory ({ view with free := free }.cells image.sZoneZone ++
      (around image.sZoneZone first front back ++ objects.map LiveView.cell)))
    (freeInside : ∀ buffer ∈ free, ∃ taken ∈ next.used,
      taken.1 ≤ buffer ∧ buffer + view.bufsize ≤ taken.1 + taken.2)
    (objectsInside : ∀ live ∈ objects, ∃ taken ∈ next.used,
      taken.1 ≤ live.object - 4 ∧ live.object - 4 + live.size ≤ taken.1 + taken.2)
    (usedMono : ∀ range ∈ state.used, range ∈ next.used)
    (usedValid : ∀ range ∈ next.used, RangeValid range)
    (sameZoneZone : next.zoneZone = state.zoneZone) (sameZones : next.zones = state.zones)
    (liveEq : objects.map (fun live => (live.zone, live.object)) = next.live)
    (objectsValid : ∀ live ∈ objects, 4 ≤ live.object ∧
      ∃ other ∈ front ++ view :: back, other.address = live.zone ∧ other.bufsize = live.size) :
    Tracks image next ⟨first, front ++ { view with free := free } :: back, objects⟩ := by
  have kept (other : ZoneView) (otherMem : other ∈ first :: (front ++ view :: back))
      (range : ℕ × ℕ) (rangeMem : range ∈ other.ranges) :
      ∃ taken ∈ next.used, taken.1 ≤ range.1 ∧ range.1 + range.2 ≤ taken.1 + taken.2 := by
    obtain ⟨taken, takenMem, inside⟩ := tracks.inside range
      (ZoneLedger.mem_ranges.mpr (Or.inl ⟨other, otherMem, rangeMem⟩))
    exact ⟨taken, usedMono taken takenMem, inside⟩
  refine ⟨arranged.perm ZoneLedger.cells_view.symm, ?_, usedValid, ?_, tracks.first, ?_, ?_,
    liveEq, ?_⟩
  · intro range rangeMem
    rcases ZoneLedger.mem_ranges.mp rangeMem with
      ⟨other, otherMem, inOther⟩ | ⟨object, objectMem, rfl⟩
    · simp only [List.mem_cons, List.mem_append] at otherMem
      rcases otherMem with rfl | inFront | rfl | inBack
      · exact kept other List.mem_cons_self range inOther
      · exact kept other (by simp [inFront]) range inOther
      · rcases ZoneView.mem_ranges.mp inOther with rfl | ⟨buffer, bufferMem, rfl⟩
        · exact kept view (by simp) view.range (ZoneView.mem_ranges.mpr (Or.inl rfl))
        · exact freeInside buffer bufferMem
      · exact kept other (by simp [inBack]) range inOther
    · exact objectsInside object objectMem
  · rw [sameZoneZone]
    exact tracks.isZoneZone
  · rw [sameZones, ← tracks.zones]
    simp
  · intro other otherMem
    rcases List.mem_append.mp otherMem with inFront | inBack
    · exact tracks.views other (List.mem_append_left _ inFront)
    · rcases List.mem_cons.mp inBack with rfl | later
      · exact tracks.views view (by simp)
      · exact tracks.views other (by simp [later])
  · intro object objectMem
    rcases objectsValid object objectMem with ⟨large, other, otherMem, isZone⟩
    refine ⟨large, ?_⟩
    rcases List.mem_append.mp otherMem with inFront | inBack
    · exact ⟨other, List.mem_append_left _ inFront, isZone⟩
    · rcases List.mem_cons.mp inBack with rfl | later
      · exact ⟨_, List.mem_append_right _ List.mem_cons_self, isZone⟩
      · exact ⟨other, by simp [later], isZone⟩

theorem focus (tracks : Tracks image state ⟨first, front ++ view :: back, live⟩) :
    Arranged state.memory (view.cells image.sZoneZone ++
      (around image.sZoneZone first front back ++ live.map LiveView.cell)) :=
  tracks.arranged.perm ZoneLedger.cells_view

theorem fields (tracks : Tracks image state ledger)
    (viewMem : view ∈ ledger.first :: ledger.views) : view.Fields state.memory := by
  have cellMem : zoneCell image.sZoneZone view ∈ ledger.cells image.sZoneZone :=
    List.mem_append_left _ (List.mem_flatMap.mpr ⟨view, viewMem, List.mem_cons_self⟩)
  exact (tracks.arranged.holds _ cellMem).1

theorem view_bounds (tracks : Tracks image state ledger) (viewMem : view ∈ ledger.views) :
    4 < view.address ∧ view.address + 28 < 2 ^ 32 := by
  have range : view.range = (view.address - 4, 32) := by
    simp [ZoneView.range, (tracks.views view viewMem).1]
  have bounds := tracks.range_bounds (ZoneLedger.mem_ranges.mpr
    (Or.inl ⟨view, List.mem_cons_of_mem _ viewMem, ZoneView.mem_ranges.mpr (Or.inl rfl)⟩))
  rw [range] at bounds
  simp only at bounds
  omega

theorem buffer_bounds (tracks : Tracks image state ledger)
    (viewMem : view ∈ ledger.first :: ledger.views) {buffer : ℕ} (bufferMem : buffer ∈ view.free) :
    0 < buffer ∧ buffer + view.bufsize < 2 ^ 32 :=
  tracks.range_bounds (ZoneLedger.mem_ranges.mpr
    (Or.inl ⟨view, viewMem, ZoneView.mem_ranges.mpr (Or.inr ⟨buffer, bufferMem, rfl⟩)⟩))

theorem free_inside (tracks : Tracks image state ledger)
    (viewMem : view ∈ ledger.first :: ledger.views) {buffer : ℕ} (bufferMem : buffer ∈ view.free) :
    ∃ taken ∈ state.used, taken.1 ≤ buffer ∧ buffer + view.bufsize ≤ taken.1 + taken.2 :=
  tracks.inside (buffer, view.bufsize) (ZoneLedger.mem_ranges.mpr
    (Or.inl ⟨view, viewMem, ZoneView.mem_ranges.mpr (Or.inr ⟨buffer, bufferMem, rfl⟩)⟩))

theorem object_inside (tracks : Tracks image state ledger) {object : LiveView}
    (objectMem : object ∈ ledger.live) : ∃ taken ∈ state.used,
      taken.1 ≤ object.object - 4 ∧ object.object - 4 + object.size ≤ taken.1 + taken.2 :=
  tracks.inside (object.object - 4, object.size)
    (ZoneLedger.mem_ranges.mpr (Or.inr ⟨object, objectMem, rfl⟩))

/-- Different objects in use have different addresses. -/
theorem live_nodup (tracks : Tracks image state ledger) : (state.live.map Prod.snd).Nodup := by
  have apart := tracks.apart
  rw [ZoneLedger.ranges, List.pairwise_append, List.pairwise_map] at apart
  rw [← tracks.live, List.map_map, List.nodup_iff_pairwise_ne, List.pairwise_map]
  apply apart.2.1.imp_of_mem
  intro left right leftMem rightMem apartRanges same
  rcases tracks.objects left leftMem with ⟨_, view, viewMem, _, isSize⟩
  have large := (tracks.views view viewMem).2
  have sameObject : left.object = right.object := same
  rcases tracks.objects right rightMem with ⟨_, other, otherMem, _, otherSize⟩
  have otherLarge := (tracks.views other otherMem).2
  simp only [RangesApart] at apartRanges
  omega

/-- Fresh memory is apart from everything in the ledger. -/
theorem rawCell_arranged (tracks : Tracks image state ledger) {mem size : ℕ}
    (fresh : state.Fresh (mem, size)) {cells : List Cell}
    (arranged : Arranged state.memory cells)
    (reordered : cells.Perm (ledger.cells image.sZoneZone)) :
    Arranged state.memory (rawCell false size mem :: cells) := by
  refine ⟨?_, List.pairwise_cons.mpr ⟨?_, arranged.apart⟩⟩
  · rintro cell (_ | ⟨_, cellMem⟩)
    · intro isBlank
      simp at isBlank
    · exact arranged.holds cell cellMem
  · intro cell cellMem
    have rangeMem : (cell.start, cell.size) ∈ ledger.ranges := by
      rw [← ledger.cells_ranges image.sZoneZone]
      exact List.mem_map_of_mem (reordered.mem_iff.mp cellMem)
    exact tracks.fresh_apart fresh rangeMem

theorem cram (tracks : Tracks image state ⟨first, front ++ view :: back, live⟩)
    {fuel mem size : ℕ} {memory : Memory} (fresh : state.Fresh (mem, size))
    (returned : zcram fuel state.memory view.address mem size = .ok memory) :
    ∃ buffers, Tracks image { state with memory := memory, used := (mem, size) :: state.used }
      ⟨first, front ++ { view with free := buffers ++ view.free } :: back, live⟩ := by
  have viewMem : view ∈ front ++ view :: back := by simp
  rcases tracks.views view viewMem with ⟨notBlank, large⟩
  have memNonNull : mem ≠ 0 := Nat.ne_of_gt fresh.1.1
  have isBufsize := (tracks.fields (List.mem_cons_of_mem _ viewMem)).bufsize
  rw [zcram, if_neg memNonNull, isBufsize] at returned
  have raw : Arranged state.memory (view.cells image.sZoneZone ++ rawCell view.blank size mem ::
      (around image.sZoneZone first front back ++ live.map LiveView.cell)) := by
    rw [notBlank]
    exact (tracks.rawCell_arranged fresh tracks.focus ZoneLedger.cells_view.symm).perm
      List.perm_middle.symm
  obtain ⟨buffers, arranged, bounds, _⟩ :=
    zcramLoop_arranged raw large (by simp [notBlank]) fresh.1.2
    (fun buffer bufferMem => (tracks.buffer_bounds (List.mem_cons_of_mem _ viewMem) bufferMem).2)
    returned
  have widened {taken : ℕ × ℕ} (takenMem : taken ∈ state.used) :
      taken ∈ (mem, size) :: state.used := List.mem_cons_of_mem _ takenMem
  refine ⟨buffers, tracks.update arranged ?_ ?_ (fun _ => widened) ?_ rfl rfl tracks.live
    tracks.objects⟩
  · intro buffer bufferMem
    rcases List.mem_append.mp bufferMem with isNew | isOld
    · exact ⟨(mem, size), List.mem_cons_self, bounds buffer isNew⟩
    · obtain ⟨taken, takenMem, inside⟩ :=
        tracks.free_inside (List.mem_cons_of_mem _ viewMem) isOld
      exact ⟨taken, widened takenMem, inside⟩
  · intro object objectMem
    rcases tracks.object_inside objectMem with ⟨taken, takenMem, inside⟩
    exact ⟨taken, widened takenMem, inside⟩
  · intro range rangeMem
    rcases List.mem_cons.mp rangeMem with rfl | isOld
    · exact fresh.1
    · exact tracks.used range isOld

theorem widen (tracks : Tracks image state ledger) {ranges : List (ℕ × ℕ)}
    (valid : ∀ range ∈ ranges, RangeValid range) :
    Tracks image { state with used := ranges ++ state.used } ledger := by
  refine { tracks with inside := ?_, used := ?_ }
  · intro range rangeMem
    rcases tracks.inside range rangeMem with ⟨taken, takenMem, inside⟩
    exact ⟨taken, List.mem_append_right _ takenMem, inside⟩
  · intro range rangeMem
    rcases List.mem_append.mp rangeMem with isNew | isOld
    · exact valid range isNew
    · exact tracks.used range isOld

theorem refill (tracks : Tracks image state ⟨first, front ++ view :: back, live⟩)
    {fuel min num : ℕ} {supply : VmSupply} {memory : Memory}
    (fresh : ∀ range ∈ supply.answer state.memory view.address num, state.Fresh range)
    (returned : zrefill fuel supply state.memory view.address min num = .ok memory) :
    ∃ buffers, Tracks image
      { state with
        memory := memory
        used := (supply.answer state.memory view.address num).toList ++ state.used }
      ⟨first, front ++ { view with free := buffers ++ view.free } :: back, live⟩ := by
  have unchanged : Tracks image
      { state with
        used := (supply.answer state.memory view.address num).toList ++ state.used }
      ⟨first, front ++ { view with free := [] ++ view.free } :: back, live⟩ :=
    tracks.widen fun range rangeMem => (fresh range (Option.mem_toList.mp rangeMem)).1
  rw [zrefill] at returned
  split at returned
  · cases answer : supply.answer state.memory view.address num with
    | none =>
        simp only [answer, Except.ok.injEq] at returned unchanged
        subst returned
        exact ⟨[], unchanged⟩
    | some range =>
        simp only [answer] at returned
        exact tracks.cram (fresh range answer) returned
  · rw [Except.ok.injEq] at returned
    subst returned
    exact ⟨[], unchanged⟩

theorem take (tracks : Tracks image state ⟨first, front ++ view :: back, live⟩)
    {buffer : ℕ} {free : List ℕ} (listed : view.free = buffer :: free) :
    (removeTop state.memory view.address).1 = buffer + 4 ∧
      Tracks image
        { state with
          memory := (removeTop state.memory view.address).2
          live := (view.address, buffer + 4) :: state.live }
        ⟨first, front ++ { view with free := free } :: back,
          ⟨view.address, buffer + 4, view.bufsize⟩ :: live⟩ := by
  have viewMem : view ∈ front ++ view :: back := by simp
  rcases tracks.views view viewMem with ⟨notBlank, large⟩
  have bounds := tracks.view_bounds viewMem
  have bufferMem : buffer ∈ view.free := by simp [listed]
  have bufferBounds := tracks.buffer_bounds (List.mem_cons_of_mem _ viewMem) bufferMem
  obtain ⟨result, arranged⟩ :=
    removeTop_arranged listed tracks.focus (by omega) (by omega)
  have taken : bufferCell view.blank view.bufsize view.address buffer =
      LiveView.cell ⟨view.address, buffer + 4, view.bufsize⟩ := by
    rw [LiveView.cell, notBlank, Nat.add_sub_cancel]
  refine ⟨result, tracks.update ?_ ?_ ?_ (fun _ => id) tracks.used rfl rfl ?_ ?_⟩
  · rw [taken] at arranged
    exact arranged.perm (List.perm_middle.symm.append_left _)
  · intro other otherMem
    exact tracks.free_inside (List.mem_cons_of_mem _ viewMem) (by simp [listed, otherMem])
  · intro object objectMem
    rcases List.mem_cons.mp objectMem with rfl | isOld
    · simpa using tracks.free_inside (List.mem_cons_of_mem _ viewMem) bufferMem
    · exact tracks.object_inside isOld
  · rw [List.map_cons, tracks.live]
  · intro object objectMem
    rcases List.mem_cons.mp objectMem with rfl | isOld
    · exact ⟨by simp, view, viewMem, rfl, rfl⟩
    · exact tracks.objects object isOld

theorem give {object : LiveView} {before behind : List LiveView}
    (tracks : Tracks image state ⟨first, front ++ view :: back, before ++ object :: behind⟩)
    (isZone : view.address = object.zone) (isSize : view.bufsize = object.size) :
    zfree state.memory object.object =
        pushFree state.memory view.address (object.object - 4) ∧
      Tracks image
        { state with
          memory := pushFree state.memory view.address (object.object - 4)
          live := (before ++ behind).map fun live => (live.zone, live.object) }
        ⟨first, front ++ { view with free := (object.object - 4) :: view.free } :: back,
          before ++ behind⟩ := by
  have viewMem : view ∈ front ++ view :: back := by simp
  have objectMem : object ∈ before ++ object :: behind := by simp
  rcases tracks.views view viewMem with ⟨notBlank, large⟩
  rcases tracks.objects object objectMem with ⟨objectLarge, _⟩
  obtain ⟨header, _⟩ := tracks.arranged.holds object.cell
    (List.mem_append_right _ (List.mem_map_of_mem objectMem))
  rcases tracks.object_inside objectMem with ⟨taken, takenMem, inside⟩
  have valid := tracks.used taken takenMem
  have opened : Arranged state.memory (view.cells image.sZoneZone ++ object.cell ::
      (around image.sZoneZone first front back ++ (before ++ behind).map LiveView.cell)) := by
    apply tracks.focus.perm
    apply List.Perm.append_left
    rw [List.map_append, List.map_append, List.map_cons, ← List.append_assoc, ← List.append_assoc]
    exact List.perm_middle
  have countLt := view.length_lt opened large fun buffer bufferMem =>
    (tracks.buffer_bounds (List.mem_cons_of_mem _ viewMem) bufferMem).2
  have positive := valid.1
  have bounded := valid.2
  have start : object.cell.start = object.object - 4 := rfl
  have arranged := pushFree_arranged opened start isSize.symm large (by simp [notBlank]) countLt
    (by omega)
  constructor
  · rw [zfree, if_neg (by omega), header, isZone]
  · refine tracks.update arranged ?_ ?_ (fun _ => id) tracks.used rfl rfl rfl ?_
    · intro buffer bufferMem
      rcases List.mem_cons.mp bufferMem with rfl | isOld
      · rw [isSize]
        exact ⟨taken, takenMem, inside⟩
      · exact tracks.free_inside (List.mem_cons_of_mem _ viewMem) isOld
    · intro other otherMem
      apply tracks.object_inside
      rcases List.mem_append.mp otherMem with inBefore | inBehind
      · simp [inBefore]
      · simp [inBehind]
    · intro other otherMem
      apply tracks.objects other
      rcases List.mem_append.mp otherMem with inBefore | inBehind
      · simp [inBefore]
      · simp [inBehind]

theorem zoneZone_bounds (tracks : Tracks image state ledger) :
    0 < image.sZoneZone ∧ image.sZoneZone + 24 < 2 ^ 32 := by
  have range : ledger.first.range = (image.sZoneZone, 24) := by
    simp [ZoneView.range, tracks.first.2.2.2, tracks.first.1]
  have bounds := tracks.range_bounds (ZoneLedger.mem_ranges.mpr
    (Or.inl ⟨_, List.mem_cons_self, ZoneView.mem_ranges.mpr (Or.inl rfl)⟩))
  rw [range] at bounds
  exact bounds

/-- The zone of zones is never refilled. -/
theorem zoneZone_refill (tracks : Tracks image state ledger) (fuel : ℕ) (supply : VmSupply) :
    zallocRefill fuel supply state.memory image.sZoneZone = .ok state.memory := by
  have zeroType := (tracks.fields List.mem_cons_self).memtype
  rw [tracks.first.1, tracks.first.2.2.1] at zeroType
  simp [zallocRefill, zeroType]

theorem zoneZone_take (tracks : Tracks image state ledger) {buffer : ℕ} {free : List ℕ}
    (listed : ledger.first.free = buffer :: free) :
    (removeTop state.memory image.sZoneZone).1 = buffer + 4 ∧
      Arranged (removeTop state.memory image.sZoneZone).2
        (bufferCell true 32 image.sZoneZone buffer ::
          ({ ledger.first with free := free }.cells image.sZoneZone ++
            (ledger.views.flatMap (ZoneView.cells image.sZoneZone) ++
              ledger.live.map LiveView.cell))) := by
  rcases tracks.first with ⟨address, isBufsize, _, isBlank⟩
  have bufferMem : buffer ∈ ledger.first.free := by rw [listed]; exact List.mem_cons_self
  have bufferBounds := tracks.buffer_bounds List.mem_cons_self bufferMem
  have bounds := tracks.zoneZone_bounds
  have arranged : Arranged state.memory (ledger.first.cells image.sZoneZone ++
      (ledger.views.flatMap (ZoneView.cells image.sZoneZone) ++
        ledger.live.map LiveView.cell)) := by
    simpa [ZoneLedger.cells] using tracks.arranged
  rcases removeTop_arranged listed arranged (by omega) (by omega) with ⟨result, opened⟩
  have sameBuffer : bufferCell ledger.first.blank ledger.first.bufsize ledger.first.address buffer =
      bufferCell true 32 image.sZoneZone buffer := by rw [address, isBufsize, isBlank]
  have sameZone : removeTop state.memory ledger.first.address =
      removeTop state.memory image.sZoneZone := by rw [address]
  rw [sameZone] at result opened
  rw [sameBuffer] at opened
  exact ⟨result, opened.perm List.perm_middle⟩

/-- `zinit` makes a descriptor from the first buffer of the zone of zones. -/
theorem init_arranged (tracks : Tracks image state ledger) {fuel size memtype name z : ℕ}
    {supply : VmSupply} {memory : Memory} (memtypeLt : memtype < 2 ^ 32)
    (returned : zinit fuel supply image state.zoneZone state.memory size memtype name =
      .ok (z, memory)) :
    ∃ buffer free bufsize, ledger.first.free = buffer :: free ∧ z = buffer + 4 ∧
      calcBufsize fuel size = .ok bufsize ∧
      Arranged memory (ZoneLedger.cells ⟨{ ledger.first with free := free },
        ⟨z, bufsize, memtype, false, []⟩ :: ledger.views, ledger.live⟩ image.sZoneZone) := by
  rcases zinit_eq_ok returned with ⟨taken, bufsize, allocated, nonNull, sized, rfl⟩
  rw [tracks.isZoneZone] at allocated
  rcases zalloc_eq_ok allocated with ⟨refilled, refill, removed⟩
  rw [tracks.zoneZone_refill, Except.ok.injEq] at refill
  subst refill
  cases listed : ledger.first.free with
  | nil =>
      have top := (tracks.fields List.mem_cons_self).freelist
      rw [listed, tracks.first.1] at top
      rw [removeTop_empty top, Prod.mk.injEq] at removed
      exact absurd removed.1.symm nonNull
  | cons buffer free =>
      rcases tracks.zoneZone_take listed with ⟨result, opened⟩
      rw [removed] at result opened
      simp only at result opened
      subst result
      have inited := initZone_arranged (if name ≠ 0 then name else image.nullName) opened
        (calcBufsize_bounds sized).2 memtypeLt
      refine ⟨buffer, free, bufsize, rfl, rfl, sized, inited.perm ?_⟩
      simp only [ZoneLedger.cells, List.flatMap_cons, List.append_assoc]
      exact List.perm_append_comm_assoc _ _ _

theorem init_returns (tracks : Tracks image state ledger) {fuel size bufsize : ℕ}
    (supply : VmSupply) (memtype name : ℕ) (nonempty : ledger.first.free ≠ [])
    (sized : calcBufsize fuel size = .ok bufsize) :
    ∃ z memory, zinit fuel supply image state.zoneZone state.memory size memtype name =
      .ok (z, memory) := by
  rcases List.exists_cons_of_ne_nil nonempty with ⟨buffer, free, listed⟩
  have result := (tracks.zoneZone_take listed).1
  have bounds := tracks.zoneZone_bounds
  have allocated := zalloc_of_refill (Nat.ne_of_gt bounds.1) (tracks.zoneZone_refill fuel supply)
  refine ⟨buffer + 4, initZone (removeTop state.memory image.sZoneZone).2 (buffer + 4) bufsize
    memtype (if name ≠ 0 then name else image.nullName), ?_⟩
  simp only [zinit, tracks.isZoneZone, allocated, sized, bind, Except.bind, pure, Except.pure]
  rw [if_neg (Nat.ne_of_gt bounds.1), result, if_neg (Nat.succ_ne_zero _)]

/-- `zinit` of a zone whose object size leaves room for the header. -/
theorem init (tracks : Tracks image state ledger) {fuel size memtype name z : ℕ}
    {supply : VmSupply} {memory : Memory} (fits : 2 < (size + 4) % 2 ^ 32)
    (memtypeLt : memtype < 2 ^ 32)
    (returned : zinit fuel supply image state.zoneZone state.memory size memtype name =
      .ok (z, memory)) :
    ∃ bufsize changed, calcBufsize fuel size = .ok bufsize ∧
      changed.views = ⟨z, bufsize, memtype, false, []⟩ :: ledger.views ∧
      Tracks image { state with memory := memory, zones := z :: state.zones } changed := by
  obtain ⟨buffer, free, bufsize, listed, rfl, sized, arranged⟩ :=
    tracks.init_arranged memtypeLt returned
  have large := calcBufsize_large sized fits
  rcases tracks.first with ⟨address, isBufsize, isMemtype, isBlank⟩
  refine ⟨bufsize, _, sized, rfl, arranged, ?_, tracks.used, tracks.isZoneZone, tracks.first,
    ?_, ?_, tracks.live, ?_⟩
  · intro range rangeMem
    apply tracks.inside
    rw [ZoneLedger.mem_ranges] at rangeMem ⊢
    rcases rangeMem with ⟨view, viewMem, inView⟩ | isLive
    · simp only [List.mem_cons] at viewMem
      rcases viewMem with rfl | rfl | isOld
      · refine Or.inl ⟨ledger.first, List.mem_cons_self, ?_⟩
        rcases ZoneView.mem_ranges.mp inView with rfl | ⟨other, otherMem, rfl⟩
        · exact ZoneView.mem_ranges.mpr (Or.inl rfl)
        · refine ZoneView.mem_ranges.mpr (Or.inr ⟨other, ?_, rfl⟩)
          rw [listed]
          exact List.mem_cons_of_mem _ otherMem
      · refine Or.inl ⟨ledger.first, List.mem_cons_self, ZoneView.mem_ranges.mpr (Or.inr ?_)⟩
        have isDescriptor : range = (buffer, 32) := by
          simpa [ZoneView.ranges, ZoneView.range] using inView
        refine ⟨buffer, by rw [listed]; exact List.mem_cons_self, ?_⟩
        rw [isDescriptor, isBufsize]
      · exact Or.inl ⟨view, List.mem_cons_of_mem _ isOld, inView⟩
    · exact Or.inr isLive
  · rw [List.map_cons, tracks.zones]
  · intro view viewMem
    rcases List.mem_cons.mp viewMem with rfl | isOld
    · exact ⟨rfl, large⟩
    · exact tracks.views view isOld
  · intro object objectMem
    rcases tracks.objects object objectMem with ⟨objectLarge, view, viewMem, isZone⟩
    exact ⟨objectLarge, view, List.mem_cons_of_mem _ viewMem, isZone⟩

theorem store_objects (tracks : Tracks image state ledger) {memory : Memory}
    (body : ∀ byte, memory byte ≠ state.memory byte →
      ∃ object ∈ ledger.live, object.object ≤ byte ∧ byte < object.object - 4 + object.size) :
    Arranged memory (ledger.live.map LiveView.cell) := by
  have old := tracks.arranged.sublist (List.sublist_append_right _ _)
  refine ⟨?_, old.apart⟩
  intro cell cellMem
  rcases List.mem_map.mp cellMem with ⟨object, objectMem, rfl⟩
  rcases old.holds _ cellMem with ⟨header, large, _⟩
  refine ⟨?_, large, by simp⟩
  rw [← header]
  apply Memory.read32_congr
  intro byte atLeast below
  by_contra changed
  rcases body byte changed with ⟨other, otherMem, above, inBody⟩
  have objectLarge := (tracks.objects object objectMem).1
  have otherLarge := (tracks.objects other otherMem).1
  have apart : object.cell.Apart other.cell := by
    apply old.apart.forall cellMem (List.mem_map_of_mem otherMem)
    intro same
    have sameStart := congrArg Cell.start same
    simp only [LiveView.cell, bufferCell] at sameStart
    omega
  simp only [Cell.Apart, LiveView.cell, bufferCell] at apart
  omega

/-- Stores to objects in use reach neither a header nor anything else. -/
theorem store (tracks : Tracks image state ledger) {memory : Memory}
    (inside : ∀ byte, memory byte = state.memory byte ∨ ∃ entry ∈ state.live,
      entry.2 ≤ byte ∧ byte < entry.2 + (Zone.znBufsize state.memory entry.1 - 4)) :
    Tracks image { state with memory := memory } ledger := by
  have body (byte : ℕ) (changed : memory byte ≠ state.memory byte) :
      ∃ object ∈ ledger.live, object.object ≤ byte ∧ byte < object.object - 4 + object.size := by
    rcases (inside byte).resolve_left changed with ⟨entry, entryMem, above, below⟩
    rw [← tracks.live, List.mem_map] at entryMem
    rcases entryMem with ⟨object, objectMem, rfl⟩
    rcases tracks.objects object objectMem with ⟨large, view, viewMem, isZone, isSize⟩
    have bufsize := (tracks.fields (List.mem_cons_of_mem _ viewMem)).bufsize
    rw [isZone, isSize] at bufsize
    simp only [bufsize] at above below
    exact ⟨object, objectMem, above, by omega⟩
  have framed := Arranged.frame (tracks.arranged.perm List.perm_append_comm)
    (tracks.store_objects body)
    (fun cell cellMem => ⟨cell, cellMem, Nat.le_refl _, Nat.le_refl _⟩) ?_
  · exact { tracks with arranged := framed.perm List.perm_append_comm }
  · intro byte outside
    by_contra changed
    rcases body byte changed with ⟨object, objectMem, above, below⟩
    apply outside object.cell (List.mem_map_of_mem objectMem)
    simp only [Cell.Contains, LiveView.cell, bufferCell]
    omega

theorem allocRefill (tracks : Tracks image state ⟨first, front ++ view :: back, live⟩)
    {fuel : ℕ} {supply : VmSupply} {refilled : Memory}
    (fresh : ∀ range ∈ supply.answer state.memory view.address 32, state.Fresh range)
    (returned : zallocRefill fuel supply state.memory view.address = .ok refilled) :
    ∃ buffers, Tracks image
      { state with
        memory := refilled
        used := (supply.answer state.memory view.address 32).toList ++ state.used }
      ⟨first, front ++ { view with free := buffers ++ view.free } :: back, live⟩ := by
  rw [zallocRefill] at returned
  split at returned
  · exact tracks.refill fresh returned
  · rw [Except.ok.injEq] at returned
    subst returned
    exact ⟨[], tracks.widen fun range rangeMem => (fresh range (Option.mem_toList.mp rangeMem)).1⟩

theorem exists_view (tracks : Tracks image state ledger) {zone : ℕ} (zoneMem : zone ∈ state.zones) :
    ∃ view front back, view.address = zone ∧ ledger.views = front ++ view :: back ∧
      Tracks image state ⟨ledger.first, front ++ view :: back, ledger.live⟩ := by
  rw [← tracks.zones, List.mem_map] at zoneMem
  rcases zoneMem with ⟨view, viewMem, isZone⟩
  rcases List.append_of_mem viewMem with ⟨front, back, views⟩
  exact ⟨view, front, back, isZone, views, views ▸ tracks⟩

theorem exists_object (tracks : Tracks image state ledger) {zone object : ℕ}
    {taken left : List (ℕ × ℕ)} (isLive : state.live = taken ++ (zone, object) :: left) :
    ∃ view front back before size behind,
      view.address = zone ∧ view.bufsize = size ∧ ledger.views = front ++ view :: back ∧
      Tracks image state
        ⟨ledger.first, front ++ view :: back, before ++ ⟨zone, object, size⟩ :: behind⟩ ∧
      (before ++ behind).map (fun live => (live.zone, live.object)) = taken ++ left := by
  have split := tracks.live
  rw [isLive, List.map_eq_append_iff] at split
  rcases split with ⟨before, others, lives, isTaken, isRest⟩
  rcases List.map_eq_cons_iff.mp isRest with ⟨live, behind, rfl, isEntry, isLeft⟩
  simp only [Prod.mk.injEq] at isEntry
  rcases isEntry with ⟨rfl, rfl⟩
  rcases tracks.objects live (by simp [lives]) with ⟨_, view, viewMem, isZone, isSize⟩
  rcases List.append_of_mem viewMem with ⟨front, back, views⟩
  refine ⟨view, front, back, before, live.size, behind, isZone, isSize, views, ?_, ?_⟩
  · rw [← views, ← lives]
    exact tracks
  · rw [List.map_append, isTaken, isLeft]

/-- A call keeps the zones that were there. -/
theorem step_keeps (tracks : Tracks image state ledger) {call : ZoneCall}
    (stepped : ZoneState.Step image state call next)
    (fits : ∀ size memtype name supply, call = .zinit size memtype name supply →
      2 < (size + 4) % 2 ^ 32) :
    ∃ changed, Tracks image next changed ∧ ledger.Keeps changed := by
  cases stepped with
  | zinit _ memtypeLt returned =>
      obtain ⟨bufsize, changed, _, views, inited⟩ :=
        tracks.init (fits _ _ _ _ rfl) memtypeLt returned
      refine ⟨changed, inited, ?_⟩
      intro view viewMem
      rw [views]
      exact ⟨view, List.mem_cons_of_mem _ viewMem, rfl, rfl⟩
  | zcram zoneMem fresh returned =>
      rcases tracks.exists_view zoneMem with ⟨view, front, back, rfl, views, focused⟩
      rcases focused.cram fresh returned with ⟨buffers, changed⟩
      exact ⟨_, changed, ZoneLedger.keeps_free views⟩
  | zalloc zoneMem fresh returned =>
      rcases tracks.exists_view zoneMem with ⟨view, front, back, rfl, views, focused⟩
      rcases zalloc_eq_ok returned with ⟨refilled, refill, removed⟩
      rcases focused.allocRefill fresh refill with ⟨buffers, attempted⟩
      cases listed : buffers ++ view.free with
      | nil =>
          have empty := (attempted.fields (List.mem_cons_of_mem _ (List.mem_append_right _
            List.mem_cons_self))).freelist
          simp only [listed, List.headD_nil] at empty
          rw [removeTop_empty empty, Prod.mk.injEq] at removed
          rcases removed with ⟨rfl, rfl⟩
          exact ⟨_, attempted, ZoneLedger.keeps_free views⟩
      | cons buffer free =>
          rcases attempted.take listed with ⟨result, changed⟩
          simp only [removed] at result changed
          subst result
          rw [if_neg (Nat.succ_ne_zero _)]
          exact ⟨_, changed, ZoneLedger.keeps_free views⟩
  | zfree isLive =>
      obtain ⟨view, front, back, before, size, behind, isZone, isSize, views, focused, left⟩ :=
        tracks.exists_object isLive
      rcases focused.give isZone isSize with ⟨freed, changed⟩
      rw [← left]
      simp only at freed
      rw [freed]
      exact ⟨_, changed, ZoneLedger.keeps_free views⟩
  | zrefill zoneMem fresh returned =>
      rcases tracks.exists_view zoneMem with ⟨view, front, back, rfl, views, focused⟩
      rcases focused.refill fresh returned with ⟨buffers, changed⟩
      exact ⟨_, changed, ZoneLedger.keeps_free views⟩
  | store inside =>
      exact ⟨ledger, tracks.store inside, fun view viewMem => ⟨view, viewMem, rfl, rfl⟩⟩

theorem step (tracks : Tracks image state ledger) {call : ZoneCall}
    (stepped : ZoneState.Step image state call next)
    (fits : ∀ size memtype name supply, call = .zinit size memtype name supply →
      2 < (size + 4) % 2 ^ 32) :
    ∃ changed, Tracks image next changed := by
  rcases tracks.step_keeps stepped fits with ⟨changed, changedTracks, _⟩
  exact ⟨changed, changedTracks⟩

theorem freeChain {memory : Memory} {blank : Bool} {size : ℕ} {free : List ℕ}
    (holds : ∀ cell ∈ chainCells blank size free, cell.holds memory)
    (nonNull : ∀ buffer ∈ free, buffer ≠ 0) : FreeChain memory (free.headD 0) free := by
  induction free with
  | nil => rfl
  | cons buffer free ih =>
      refine ⟨rfl, nonNull buffer List.mem_cons_self, ?_⟩
      rw [(holds _ List.mem_cons_self).1]
      exact ih (fun cell cellMem => holds cell (List.mem_cons_of_mem _ cellMem))
        fun other otherMem => nonNull other (List.mem_cons_of_mem _ otherMem)

theorem freeList (tracks : Tracks image state ledger)
    (viewMem : view ∈ ledger.first :: ledger.views) :
    FreeList state.memory view.address view.free := by
  have fields := tracks.fields viewMem
  have large : 0 < view.bufsize := by
    rcases List.mem_cons.mp viewMem with rfl | isOther
    · rw [tracks.first.2.1]
      decide
    · have := (tracks.views view isOther).2
      omega
  have sub : (view.cells image.sZoneZone).Sublist (ledger.cells image.sZoneZone) := by
    rcases List.append_of_mem viewMem with ⟨front, back, split⟩
    rw [ZoneLedger.cells, split, List.flatMap_append, List.flatMap_cons]
    exact ((List.sublist_append_left _ _).trans (List.sublist_append_right _ _)).trans
      (List.sublist_append_left _ _)
  have arranged := tracks.arranged.sublist sub
  refine ⟨?_, ?_, fields.count⟩
  · rw [fields.freelist]
    apply freeChain
    · exact fun cell cellMem => arranged.holds cell (List.mem_cons_of_mem _ cellMem)
    · exact fun buffer bufferMem => Nat.ne_of_gt (tracks.buffer_bounds viewMem bufferMem).1
  · exact chainCells_nodup (List.pairwise_cons.mp arranged.apart).2 large

theorem view_ne_zoneZone (tracks : Tracks image state ledger) (viewMem : view ∈ ledger.views) :
    view.address ≠ image.sZoneZone := by
  intro same
  have apart := tracks.apart
  rw [ZoneLedger.ranges, List.flatMap_cons, List.append_assoc, List.pairwise_append] at apart
  have rangesApart := apart.2.2 ledger.first.range List.mem_cons_self view.range
    (List.mem_append_left _ (List.mem_flatMap.mpr ⟨view, viewMem, List.mem_cons_self⟩))
  have bounds := tracks.view_bounds viewMem
  simp only [RangesApart, ZoneView.range, tracks.first.2.2.2, (tracks.views view viewMem).1,
    tracks.first.1, same, if_true, Bool.false_eq_true, if_false] at rangesApart
  omega

theorem descriptorRange_eq (tracks : Tracks image state ledger)
    (viewMem : view ∈ ledger.first :: ledger.views) :
    state.descriptorRange image view.address = view.range := by
  rcases tracks.first with ⟨isZoneZone, isBufsize, _, isBlank⟩
  rcases List.mem_cons.mp viewMem with rfl | isOther
  · simp [ZoneState.descriptorRange, ZoneView.range, isZoneZone, isBlank, Zone.sizeof]
  · have bufsize := (tracks.fields List.mem_cons_self).bufsize
    rw [isZoneZone, isBufsize] at bufsize
    simp [ZoneState.descriptorRange, ZoneView.range, tracks.view_ne_zoneZone isOther, bufsize,
      (tracks.views view isOther).1]

theorem blocks_eq (tracks : Tracks image state ledger) :
    state.blocks image ((ledger.first :: ledger.views).map fun view => (view.address, view.free)) =
      ledger.ranges := by
  rw [ZoneState.blocks, ZoneLedger.ranges, List.flatMap_map, ← tracks.live, List.map_map]
  congr 1
  · apply List.flatMap_congr
    intro view viewMem
    rw [tracks.descriptorRange_eq viewMem, (tracks.fields viewMem).bufsize, ZoneView.ranges]
  · apply List.map_congr_left
    intro object objectMem
    rcases tracks.objects object objectMem with ⟨_, view, viewMem, isZone, isSize⟩
    have bufsize := (tracks.fields (List.mem_cons_of_mem _ viewMem)).bufsize
    rw [isZone, isSize] at bufsize
    simp only [Function.comp_apply, bufsize]

theorem safe (tracks : Tracks image state ledger) : state.Safe image := by
  refine ⟨⟨(ledger.first :: ledger.views).map fun view => (view.address, view.free), ?_, ?_, ?_⟩,
    ?_, ?_⟩
  · simp [tracks.first.1, tracks.zones.symm]
  · intro entry entryMem
    rcases List.mem_map.mp entryMem with ⟨view, viewMem, rfl⟩
    exact tracks.freeList viewMem
  · rw [tracks.blocks_eq]
    exact tracks.apart
  · intro entry entryMem
    rw [← tracks.live, List.mem_map] at entryMem
    rcases entryMem with ⟨object, objectMem, rfl⟩
    rcases tracks.objects object objectMem with ⟨_, view, viewMem, isZone, _⟩
    refine ⟨?_, ?_⟩
    · rw [← tracks.zones, ← isZone]
      exact List.mem_map_of_mem viewMem
    · exact (tracks.arranged.holds object.cell
        (List.mem_append_right _ (List.mem_map_of_mem objectMem))).1
  · intro zone zoneMem
    rw [← tracks.zones, List.mem_map] at zoneMem
    rcases zoneMem with ⟨view, viewMem, rfl⟩
    have cellMem : zoneCell image.sZoneZone view ∈ ledger.cells image.sZoneZone :=
      List.mem_append_left _ (List.mem_flatMap.mpr
        ⟨view, List.mem_cons_of_mem _ viewMem, List.mem_cons_self⟩)
    exact ((tracks.arranged.holds _ cellMem).2 (tracks.views view viewMem).1).2

theorem cram_returns (tracks : Tracks image state ⟨first, front ++ view :: back, live⟩)
    {mem size : ℕ} (fresh : state.Fresh (mem, size)) :
    ∃ result, zcram (size + 1) state.memory view.address mem size = .ok result := by
  have viewMem : view ∈ front ++ view :: back := by simp
  have large := (tracks.views view viewMem).2
  have memNonNull : mem ≠ 0 := Nat.ne_of_gt fresh.1.1
  rw [zcram, if_neg memNonNull, (tracks.fields (List.mem_cons_of_mem _ viewMem)).bufsize]
  exact zcramLoop_returns (by omega) _ _ _ (Nat.lt_succ_self size)

theorem allocRefill_returns (tracks : Tracks image state ⟨first, front ++ view :: back, live⟩)
    {supply : VmSupply}
    (fresh : ∀ range ∈ supply.answer state.memory view.address 32, state.Fresh range) :
    ∃ fuel refilled, zallocRefill fuel supply state.memory view.address = .ok refilled := by
  simp only [zallocRefill, zrefill]
  cases answer : supply.answer state.memory view.address 32 with
  | none => exact ⟨0, state.memory, by simp⟩
  | some range =>
      rcases tracks.cram_returns (fresh range answer) with ⟨result, returned⟩
      by_cases auto : Zone.znMemtype state.memory view.address &&& zoneAutoRefill ≠ 0
      · by_cases low : Zone.znCount state.memory view.address < 32
        · exact ⟨range.2 + 1, result, by rw [if_pos auto, if_pos low]; exact returned⟩
        · exact ⟨0, state.memory, by rw [if_pos auto, if_neg low]⟩
      · exact ⟨0, state.memory, by rw [if_neg auto]⟩

theorem removeTop_eq_zero_iff (tracks : Tracks image state ⟨first, front ++ view :: back, live⟩) :
    (removeTop state.memory view.address).1 = 0 ↔ view.free = [] := by
  have viewMem : view ∈ first :: (front ++ view :: back) := by simp
  cases listed : view.free with
  | nil =>
      have empty := (tracks.fields viewMem).freelist
      rw [listed] at empty
      simp [removeTop_empty empty]
  | cons buffer free => simp [(tracks.take listed).1]

theorem frees (tracks : Tracks image state ledger) {entry : ℕ × ℕ} (entryMem : entry ∈ state.live)
    {zone : ℕ} (zoneMem : zone ∈ image.sZoneZone :: state.zones) {free : List ℕ}
    (listed : FreeList state.memory zone free) :
    FreeList (zfree state.memory entry.2) zone
      (if zone = entry.1 then (entry.2 - 4) :: free else free) := by
  rcases List.append_of_mem entryMem with ⟨taken, left, isLive⟩
  obtain ⟨view, front, back, before, size, behind, isZone, isSize, -, focused, _⟩ :=
    tracks.exists_object isLive
  rcases focused.give isZone isSize with ⟨freed, changed⟩
  simp only at freed changed
  rw [freed]
  by_cases same : zone = entry.1
  · rw [if_pos same, same, ← isZone]
    rw [same, ← isZone] at listed
    have old := focused.freeList
      (List.mem_cons_of_mem _ (List.mem_append_right _ List.mem_cons_self))
    rw [listed.chain.unique old.chain]
    exact changed.freeList (List.mem_cons_of_mem _ (List.mem_append_right _ List.mem_cons_self))
  · rw [if_neg same]
    rw [← focused.zones, ← focused.first.1, ← List.map_cons, List.mem_map] at zoneMem
    rcases zoneMem with ⟨other, otherMem, rfl⟩
    rw [listed.chain.unique (focused.freeList otherMem).chain]
    apply changed.freeList
    simp only [List.mem_cons, List.mem_append] at otherMem ⊢
    rcases otherMem with isFirst | inFront | rfl | inBack
    · exact Or.inl isFirst
    · exact Or.inr (Or.inl inFront)
    · exact absurd isZone same
    · exact Or.inr (Or.inr (Or.inr inBack))

theorem sound (tracks : Tracks image state ledger) : state.Sound image := by
  refine ⟨tracks.safe, ?_, ?_, ?_⟩
  · intro entry entryMem zone zoneMem free listed
    exact tracks.frees entryMem zoneMem listed
  · intro zone zoneMem supply fresh
    rcases tracks.exists_view zoneMem with ⟨view, front, back, rfl, -, focused⟩
    rcases focused.allocRefill_returns fresh with ⟨fuel, refilled, refill⟩
    rcases focused.allocRefill fresh refill with ⟨buffers, attempted⟩
    have bounds := focused.view_bounds (List.mem_append_right front List.mem_cons_self)
    refine ⟨fuel, refilled, buffers ++ view.free, refill, ?_, ?_, attempted.removeTop_eq_zero_iff⟩
    · exact attempted.freeList
        (List.mem_cons_of_mem _ (List.mem_append_right _ List.mem_cons_self))
    · exact zalloc_of_refill (by omega) refill
  · intro zone zoneMem mem size fresh
    rcases tracks.exists_view zoneMem with ⟨view, front, back, rfl, -, focused⟩
    rcases focused.cram_returns fresh with ⟨result, returned⟩
    exact ⟨size + 1, result, returned⟩

end Tracks

/-- The zone of zones before it is filled. -/
def bootView (image : ZoneImage) : ZoneView := ⟨image.sZoneZone, 32, 0, true, []⟩

theorem bootZone_fields {image : ZoneImage} {memory : Memory}
    (zero : ∀ byte, image.sZoneZone ≤ byte → byte < image.sZoneZone + 24 → memory byte = 0) :
    (bootView image).Fields (bootZone image memory 32) := by
  refine ⟨?_, ?_, ?_, ?_⟩
  all_goals
    simp only [bootView, bootZone, Zone.znBufsize, Zone.znFreelist, Zone.znCount, Zone.znMemtype,
      Zone.setBufsize, Zone.setFreelist, Zone.setName, Zone.setCount]
  · rw [Memory.read32_write32_of_apart (by omega), Memory.read32_write32_of_apart (by omega),
      Memory.read32_write32_of_apart (by omega)]
    exact Memory.read32_write32_self.trans (by decide)
  · rw [Memory.read32_write32_of_apart (by omega), Memory.read32_write32_of_apart (by omega),
      Memory.read32_write32_self]
    rfl
  · rw [Memory.read32_write32_self]
    rfl
  · rw [Memory.read32_write32_of_apart (by omega), Memory.read32_write32_of_apart (by omega),
      Memory.read32_write32_of_apart (by omega), Memory.read32_write32_of_apart (by omega)]
    exact Memory.read32_of_zero fun byte _ _ => zero byte (by omega) (by omega)

theorem bootZone_arranged {image : ZoneImage} (valid : image.Valid) {memory : Memory}
    (zero : ∀ range ∈ image.statics, ∀ byte, range.1 ≤ byte → byte < range.1 + range.2 →
      memory byte = 0) :
    Arranged (bootZone image memory 32) ((bootView image).cells image.sZoneZone ++
      [rawCell true szzBufSize image.szzBuf]) := by
  have apart : RangesApart (image.sZoneZone, Zone.sizeof) (image.szzBuf, szzBufSize) :=
    List.rel_of_pairwise_cons valid.apart (by simp)
  simp only [RangesApart, Zone.sizeof] at apart
  refine ⟨?_, ?_⟩
  · simp only [ZoneView.cells, bootView, chainCells, List.cons_append, List.nil_append,
      List.mem_cons, List.not_mem_nil, or_false, forall_eq_or_imp, forall_eq]
    constructor
    · have descriptorZero := zero (image.sZoneZone, Zone.sizeof) (by simp [ZoneImage.statics])
      exact ⟨bootZone_fields descriptorZero, by simp⟩
    · intro _ byte atLeast below
      simp only [bootZone, Zone.setBufsize, Zone.setFreelist, Zone.setName, Zone.setCount]
      rw [Memory.write32_of_apart (by omega), Memory.write32_of_apart (by omega),
        Memory.write32_of_apart (by omega), Memory.write32_of_apart (by omega)]
      exact zero (image.szzBuf, szzBufSize) (by simp [ZoneImage.statics]) byte atLeast below
  · simp only [ZoneView.cells, bootView, chainCells, List.cons_append, List.nil_append]
    rw [List.pairwise_pair]
    simp only [Cell.Apart, zoneCell, ZoneView.range, rawCell, if_true]
    exact apart

theorem ZoneImage.Booted.tracks {image : ZoneImage} (valid : image.Valid) {state : ZoneState}
    (booted : image.Booted state) :
    ∃ free, Tracks image state ⟨{ bootView image with free := free }, [], []⟩ ∧
      image.szzBuf ∈ free := by
  rcases booted.memory with ⟨fuel, before, returned, zero⟩
  have arranged := bootZone_arranged valid zero
  have loop := zoneBootstrap_eq_ok returned
  have bufferValid := valid.valid (image.szzBuf, szzBufSize) (by simp [ZoneImage.statics])
  have fields := bootZone_fields
    (zero (image.sZoneZone, Zone.sizeof) (by simp [ZoneImage.statics]))
  have bufsize : Zone.znBufsize (bootZone image before 32) image.sZoneZone = 32 := fields.bufsize
  rw [zcram, if_neg (Nat.ne_of_gt bufferValid.1), bufsize] at loop
  obtain ⟨free, final, bounds, nonempty⟩ :=
    @zcramLoop_arranged _ _ _ (bootView image) _ _ _ _ arranged (by simp [bootView])
      (by simp [bootView]) bufferValid.2 (by simp [bootView]) loop
  refine ⟨free, ⟨?_, ?_, ?_, booted.zoneZone, ⟨rfl, rfl, rfl, rfl⟩, booted.zones.symm, by simp,
    booted.live.symm, by simp⟩, nonempty (show 32 ≤ szzBufSize by decide)⟩
  · simpa [ZoneLedger.cells, bootView] using final
  · intro range rangeMem
    rw [booted.used]
    rcases ZoneLedger.mem_ranges.mp rangeMem with ⟨view, viewMem, inView⟩ | ⟨object, objectMem, _⟩
    · rw [List.mem_singleton.mp viewMem] at inView
      rcases ZoneView.mem_ranges.mp inView with rfl | ⟨buffer, bufferMem, rfl⟩
      · exact ⟨(image.sZoneZone, Zone.sizeof), by simp [ZoneImage.statics], Nat.le_refl _,
          Nat.le_refl _⟩
      · exact ⟨(image.szzBuf, szzBufSize), by simp [ZoneImage.statics], bounds buffer bufferMem⟩
    · simp at objectMem
  · rw [booted.used]
    exact valid.valid

/-- The calls whose object sizes, with the header added in 32 bits, exceed two bytes. -/
def HeaderFits (_source : ZoneState) (call : ZoneCall) (_target : ZoneState) : Prop :=
  ∀ size memtype name supply, call = .zinit size memtype name supply → 2 < (size + 4) % 2 ^ 32

theorem tracks_of_reachable {image : ZoneImage} (valid : image.Valid) {state : ZoneState}
    (reachable : (image.system.restrict HeaderFits).Reachable state) :
    ∃ ledger, Tracks image state ledger := by
  apply reachable.invariant
  · intro booted isBooted
    rcases isBooted.tracks valid with ⟨free, tracks, _⟩
    exact ⟨_, tracks⟩
  · rintro source call target ⟨ledger, tracks⟩ ⟨stepped, fits⟩
    exact tracks.step stepped fits

/-- The zone allocator is safe over every sequence of calls except for the three object sizes
`2 ^ 32 - 4` to `2 ^ 32 - 2`. -/
theorem sound_of_reachable {image : ZoneImage} (valid : image.Valid) {state : ZoneState}
    (reachable : (image.system.restrict HeaderFits).Reachable state) : state.Sound image := by
  rcases tracks_of_reachable valid reachable with ⟨ledger, tracks⟩
  exact tracks.sound

namespace ZoneImage

/-- An image with the descriptor of the zone of zones below its buffers. -/
def low : ZoneImage := ⟨0x1000, 0x10000, 0x2000, 0x2010⟩

theorem low_valid : low.Valid := by
  refine ⟨?_, ?_⟩
  · simp [low, statics, RangeValid, Zone.sizeof, szzBufSize]
  · simp [low, statics, RangesApart, Zone.sizeof, szzBufSize]

theorem exists_booted {image : ZoneImage} (valid : image.Valid) : ∃ state, image.Booted state := by
  have bufferValid := valid.valid (image.szzBuf, szzBufSize) (by simp [statics])
  have fields := @bootZone_fields image (fun _ => 0) fun _ _ _ => rfl
  have bufsize : Zone.znBufsize (bootZone image (fun _ => 0) 32) image.sZoneZone = 32 :=
    fields.bufsize
  have sized : calcBufsize (szzBufSize + 1) Zone.sizeof = .ok 32 := by decide
  obtain ⟨memory, loop⟩ := @zcramLoop_returns image.sZoneZone 32 (by decide) (szzBufSize + 1)
    (bootZone image (fun _ => 0) 32) image.szzBuf szzBufSize (Nat.lt_succ_self _)
  refine ⟨⟨memory, image.sZoneZone, [], [], image.statics⟩, ⟨szzBufSize + 1, fun _ => 0, ?_, ?_⟩,
    rfl, rfl, rfl, rfl⟩
  · simp only [zoneBootstrap, sized, bind, Except.bind, zcram, bufsize]
    rw [if_neg (Nat.ne_of_gt bufferValid.1)]
    exact loop
  · exact fun _ _ _ _ _ => rfl

/-- The first `zinit` after `zone_bootstrap` gets a descriptor in `szz_buf`. -/
theorem Booted.zinit {image : ZoneImage} (valid : image.Valid) {state : ZoneState}
    (booted : image.Booted state) {fuel size bufsize : ℕ} (supply : VmSupply)
    (sized : calcBufsize fuel size = .ok bufsize) :
    ∃ zone memory,
      Rkernel.zinit fuel supply image state.zoneZone state.memory size 0 0 = .ok (zone, memory) ∧
      ZoneView.Fields ⟨zone, bufsize, 0, false, []⟩ memory ∧
      image.szzBuf + 4 ≤ zone ∧ zone + 28 ≤ image.szzBuf + szzBufSize := by
  rcases booted.tracks valid with ⟨free, tracks, nonempty⟩
  obtain ⟨zone, memory, returned⟩ :=
    tracks.init_returns supply 0 0 (List.ne_nil_of_mem nonempty) sized
  obtain ⟨buffer, others, found, listed, rfl, again, arranged⟩ :=
    tracks.init_arranged (by decide) returned
  rw [sized, Except.ok.injEq] at again
  subst again
  refine ⟨_, memory, returned, ?_, ?_⟩
  · exact (arranged.holds (zoneCell image.sZoneZone ⟨buffer + 4, bufsize, 0, false, []⟩)
      (by simp [ZoneLedger.cells, ZoneView.cells])).1
  · have bufferMem : buffer ∈ free := by
      simp only at listed
      simp [listed]
    rcases tracks.free_inside List.mem_cons_self bufferMem with ⟨range, rangeMem, inside⟩
    rw [booted.used] at rangeMem
    simp only [statics, List.mem_cons, List.not_mem_nil, or_false] at rangeMem
    simp only [bootView, Zone.sizeof, szzBufSize] at rangeMem inside
    rcases rangeMem with rfl | rfl
    · simp only at inside
      omega
    · simp only [szzBufSize] at inside ⊢
      omega

end ZoneImage

/-- A zone of objects of 20 bytes. -/
theorem ZoneImage.exists_zone :
    ∃ state, (ZoneImage.low.system.restrict HeaderFits).Reachable state ∧ state.zones ≠ [] := by
  rcases ZoneImage.exists_booted ZoneImage.low_valid with ⟨booted, isBooted⟩
  obtain ⟨zone, memory, returned, _⟩ := isBooted.zinit ZoneImage.low_valid
    ⟨fun _ => none, fun _ => none⟩ (show calcBufsize 6 20 = .ok 32 by decide)
  refine ⟨{ booted with memory := memory, zones := zone :: booted.zones },
    .step (.init isBooted) ⟨.zinit (by decide) (by decide) returned, ?_⟩, List.cons_ne_nil _ _⟩
  rintro size _ _ _ ⟨⟩
  decide

/-- Memory above the statics of the image is fresh after `zone_bootstrap`. -/
theorem ZoneImage.Booted.fresh {state : ZoneState} (booted : ZoneImage.low.Booted state)
    {mem size : ℕ} (above : 0x20000 ≤ mem) (below : mem + size < 2 ^ 32) :
    state.Fresh (mem, size) := by
  have isUsed : state.used = [(0x1000, 24), (0x10000, 2 ^ 16)] := booted.used
  refine ⟨⟨show 0 < mem by omega, below⟩, ?_⟩
  rw [isUsed]
  simp only [List.mem_cons, List.not_mem_nil, or_false, forall_eq_or_imp, forall_eq, RangesApart]
  omega

/-- A zone of objects of 252 bytes that holds a buffer. -/
theorem ZoneImage.exists_filled_zone :
    ∃ state, (ZoneImage.low.system.restrict HeaderFits).Reachable state ∧
      ∃ zone ∈ state.zones, 4 < zone ∧ Zone.znFreelist state.memory zone ≠ 0 := by
  rcases ZoneImage.exists_booted ZoneImage.low_valid with ⟨booted, isBooted⟩
  obtain ⟨zone, memory, returned, fields, above, below⟩ := isBooted.zinit ZoneImage.low_valid
    ⟨fun _ => none, fun _ => none⟩ (show calcBufsize 10 252 = .ok 256 by decide)
  simp only [ZoneImage.low, szzBufSize] at above below
  have crammed : zcram 2 memory zone 0x30000 256 = .ok (pushFree memory zone 0x30000) := by
    have bufsize : Zone.znBufsize memory zone = 256 := fields.bufsize
    rw [zcram, bufsize]
    rfl
  have filled := @ZoneState.Step.zcram ZoneImage.low
    { booted with memory := memory, zones := zone :: booted.zones } _ _ _ _ _ List.mem_cons_self
    (isBooted.fresh (by decide) (by decide)) crammed
  have inited : (ZoneImage.low.system.restrict HeaderFits).Reachable
      { booted with memory := memory, zones := zone :: booted.zones } := by
    refine .step (.init isBooted) ⟨.zinit (by decide) (by decide) returned, ?_⟩
    rintro size _ _ _ ⟨⟩
    decide
  have counted : Zone.znCount memory zone = 0 := fields.count
  have pushed := pushFree_listStep counted (by decide) (show 0x30000 < 2 ^ 32 by decide)
    (show zone + 24 ≤ 0x30000 ∨ 0x30000 + 4 ≤ zone by omega)
  refine ⟨_, inited.step ⟨filled, by rintro _ _ _ _ ⟨⟩⟩, zone, List.mem_cons_self, by omega, ?_⟩
  rw [pushed.freelist]
  decide

theorem sound_of_zinit : ∃ state, (ZoneImage.low.system.restrict HeaderFits).Reachable state ∧
    state.zones ≠ [] ∧ state.Sound ZoneImage.low := by
  rcases ZoneImage.exists_zone with ⟨state, reachable, nonempty⟩
  exact ⟨state, reachable, nonempty, sound_of_reachable ZoneImage.low_valid reachable⟩

theorem FreeChain.second_link {memory : Memory} {top : ℕ} {free : List ℕ}
    (chain : FreeChain memory top free) (two : free.length = 2) :
    memory.read32 (memory.read32 top) = 0 := by
  match free, two with
  | [first, second], _ =>
      rcases chain with ⟨rfl, _, rfl, _, ended⟩
      exact ended

/-- A buffer of two bytes overlaps the link of the next one. -/
theorem pushFree_overlap {memory pushed : Memory} {zone mem : ℕ}
    (isPushed : pushFree (pushFree memory zone mem) zone (mem + 2) = pushed)
    (counted : Zone.znCount memory zone = 0) (memLt : mem + 4 < 2 ^ 32)
    (apart : zone + 24 ≤ mem ∨ mem + 6 ≤ zone) (low : mem % 2 ^ 16 ≠ 0) :
    Zone.znFreelist pushed zone = mem + 2 ∧ Zone.znCount pushed zone = 2 ∧
      pushed.read32 (mem + 2) = mem ∧ pushed.read32 mem ≠ 0 := by
  have first := pushFree_listStep counted (by decide) (show mem < 2 ^ 32 by omega)
    (show zone + 24 ≤ mem ∨ mem + 4 ≤ zone by omega)
  have second := pushFree_listStep first.count (by decide) (show mem + 2 < 2 ^ 32 by omega)
    (show zone + 24 ≤ mem + 2 ∨ mem + 2 + 4 ≤ zone by omega)
  rw [first.freelist, isPushed] at second
  refine ⟨second.freelist, second.count, second.header, ?_⟩
  have link := second.header
  have lowByte := (pushed (mem + 2)).isLt
  have highByte := (pushed (mem + 3)).isLt
  simp only [Memory.read32, Nat.add_assoc, Nat.reduceAdd] at link ⊢
  omega

/-- For an object size of `2 ^ 32 - 2` the addition of the header wraps around, so that the
buffers of the zone have two bytes. -/
theorem not_safe_wrapping : ∃ booted inited crammed zone, ZoneImage.low.Booted booted ∧
    ZoneState.Step ZoneImage.low booted
      (.zinit (2 ^ 32 - 2) 0 0 ⟨fun _ => none, fun _ => none⟩) inited ∧
    ZoneState.Step ZoneImage.low inited (.zcram zone 0x30002 4) crammed ∧
    ZoneImage.low.system.Reachable crammed ∧ ¬crammed.Safe ZoneImage.low := by
  rcases ZoneImage.exists_booted ZoneImage.low_valid with ⟨booted, isBooted⟩
  obtain ⟨zone, memory, returned, fields, above, below⟩ := isBooted.zinit ZoneImage.low_valid
    ⟨fun _ => none, fun _ => none⟩ (show calcBufsize 6 (2 ^ 32 - 2) = .ok 2 by decide)
  simp only [ZoneImage.low, szzBufSize] at above below
  obtain ⟨top, count, link, overlapped⟩ := @pushFree_overlap memory _ zone 0x30002 rfl
    fields.count (by decide) (by omega) (by decide)
  have inited := ZoneState.Step.zinit (by decide) (by decide) returned
  have crammed : zcram 3 memory zone 0x30002 4 =
      .ok (pushFree (pushFree memory zone 0x30002) zone 0x30004) := by
    have bufsize : Zone.znBufsize memory zone = 2 := fields.bufsize
    rw [zcram, bufsize]
    rfl
  have filled := @ZoneState.Step.zcram ZoneImage.low
    { booted with memory := memory, zones := zone :: booted.zones } _ _ _ _ _ List.mem_cons_self
    (isBooted.fresh (by decide) (by decide)) crammed
  refine ⟨booted, _, _, zone, isBooted, inited, filled,
    .step (.step (.init isBooted) inited) filled, ?_⟩
  intro safe
  rcases safe.lists with ⟨lists, zones, listed, _⟩
  have zoneMem : zone ∈ lists.map Prod.fst := by
    rw [zones]
    simp
  rcases List.mem_map.mp zoneMem with ⟨entry, entryMem, rfl⟩
  have freeList := listed entry entryMem
  have ended := freeList.chain.second_link (freeList.count.symm.trans count)
  rw [top, link] at ended
  exact overlapped ended

end Rkernel
