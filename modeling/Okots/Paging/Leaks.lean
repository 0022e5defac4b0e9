import Okots.Paging.Atomicity

/-!
# Frames lost by a failed creation

A builder that is refused a frame returns the table it is filling and fails, and so does every
builder above it: the tables between the top and the refusal are returned, each once.  The tables
below entries that were already written can be reached from the returned tables only, and nobody
walks them again.  So a failed `create_page_table` returns everything exactly when it was refused
before it had finished a table.
-/

namespace Okots

open StateExec Exec PageLevel PageTree

/-! ## Events of a call -/

/-- Every frame allocated among the events is deallocated among them exactly once. -/
def LeakFree (events : List FrameEvent) : Prop :=
  ∀ frame, .alloc frame ∈ events → events.count (.dealloc frame) = 1

/-- The event is an allocation. -/
def FrameEvent.isAlloc : FrameEvent → Bool
  | .alloc _ => true
  | .dealloc _ => false

/-- Number of frames allocated among the events. -/
def allocations (events : List FrameEvent) : Nat := events.countP FrameEvent.isAlloc

section Events

variable {news path : List Nat} {lost : Multiset Nat}

theorem allocations_shrunk : allocations (shrunk (grown [] news) path) = news.length := by
  have returned : ∀ freed : List Nat,
      (freed.map FrameEvent.dealloc).countP FrameEvent.isAlloc = 0 :=
    fun freed => by simp [FrameEvent.isAlloc]
  have served : (news.map FrameEvent.alloc).countP FrameEvent.isAlloc = news.length := by
    rw [List.countP_map, List.countP_eq_length]
    exact fun _ _ => rfl
  rw [allocations, shrunk, grown, List.append_nil, List.countP_append, returned, served, zero_add]

/-- The events of a builder that was served `news` and has returned `path`. -/
theorem leakFree_shrunk_iff (nodup : news.Nodup) (frames : (path : Multiset Nat) + lost = news) :
    LeakFree (shrunk (grown [] news) path) ↔ lost = 0 := by
  have allocated : ∀ frame, .alloc frame ∈ shrunk (grown [] news) path ↔ frame ∈ news := by
    simp [shrunk, grown]
  have returned : ∀ frame,
      (shrunk (grown [] news) path).count (.dealloc frame) = path.count frame := by
    intro frame
    rw [shrunk, grown, List.append_nil, List.count_append,
      List.count_map_of_injective path _ (fun _ _ => FrameEvent.dealloc.inj) frame]
    simp [List.count_eq_zero]
  have split : ∀ frame ∈ news, path.count frame + lost.count frame = 1 := by
    intro frame member
    have counted := congrArg (Multiset.count frame) frames
    rwa [Multiset.count_add, Multiset.coe_count, Multiset.coe_count,
      List.count_eq_one_of_mem nodup member] at counted
  simp only [LeakFree, allocated, returned]
  constructor
  · intro once
    refine Multiset.eq_zero_of_forall_notMem fun frame member => ?_
    have served : frame ∈ news :=
      Multiset.mem_coe.mp (frames ▸ Multiset.mem_add.mpr (.inr member))
    have present := Multiset.count_pos.mpr member
    have single := once frame served
    have total := split frame served
    omega
  · rintro rfl frame member
    exact split frame member

end Events

section Stopped

variable {platform : Platform} {allowHuge level : PageLevel} {vaddrBase : Nat}
  {maps : List Mapping} {memory after : TableMemory} {news path : List Nat} {lost : Multiset Nat}
  (stopped : CreateStopped platform allowHuge level vaddrBase maps memory news path lost after)

include stopped

theorem CreateStopped.events :
    after.history = shrunk (grown [] news) path ++ memory.history := by
  rw [stopped.history]
  simp [shrunk, grown]

/-- A builder that is refused a frame returns every frame it was served exactly when it has
finished no table. -/
theorem CreateStopped.leakFree_iff :
    LeakFree (shrunk (grown [] news) path) ↔
      NoneFinished news.length
        (.relay 7 (listTable platform.crates allowHuge level vaddrBase maps)) := by
  rw [leakFree_shrunk_iff stopped.allocates.nodup stopped.frames]
  exact stopped.clean

end Stopped

/-! ## Refused creations -/

theorem Allocates.length_le {allocator : FrameAllocator} {count : Nat} {news : List Nat}
    (allocates : Allocates (allocator.limited count) [] news) : news.length ≤ count := by
  cases news with
  | nil => exact Nat.zero_le _
  | cons frame older =>
      have room := (Option.ite_none_right_eq_some.mp allocates.2).1
      simpa [grown] using room

/-- With fewer frames than the tree has tables, the creation is served all of them and fails. -/
theorem scarcePlatform_create_fails {mapList : List MemRangeData} {flags : List PageEntryFlags}
    {lists : List MemRangeData × List PageEntryFlags} {maps : List Mapping} {count : Nat}
    (requestable : Requestable (512 * PageLevel.pml4.entrySize) mapList flags)
    (normalized : normalizeMapList .dev stableSort mapList flags = some lists)
    (zipped : lists.1.zip lists.2 = maps)
    (short : count < 1 + ∑ index, (listTable documentedCrates .pdpt .pml4 0 maps index).tables)
    (few : count ≤ 4096) :
    ∃ error after news path lost,
      createPageTable (scarcePlatform count) mapList flags .pdpt .pml4 emptyMemory =
        (.error (.err error), after) ∧
      CreateStopped (scarcePlatform count) .pdpt .pml4 0 maps emptyMemory news path lost after ∧
      news.length = count := by
  obtain rfl := zipped
  rcases run : createPageTable (scarcePlatform count) mapList flags .pdpt .pml4 emptyMemory with
    ⟨reason | top, after⟩
  · have failed := (createPageTable_fails _ _ _ _ _ _).of_error run
    cases reason with
    | panic =>
        obtain ⟨frame, request, high⟩ := failed requestable
        have low := bumpAllocator_first (Option.ite_none_right_eq_some.mp request).2
        exact absurd low (Nat.not_lt.mpr high)
    | err error =>
        rcases failed with ⟨-, rejected⟩ | ⟨-, found, news, path, lost, same, stopped⟩
        · exact absurd ⟨requestable.lengths, requestable.aligned, .inr rfl⟩ rejected
        · obtain rfl := Option.some.inj (normalized.symm.trans same)
          refine ⟨error, after, news, path, lost, rfl, stopped, ?_⟩
          apply le_antisymm stopped.allocates.length_le
          by_contra fewer
          have refused := stopped.refused
          rw [scarcePlatform_serves (Nat.not_le.mp fewer)] at refused
          exact bumpAllocator_serves (by decide) ⟨news, stopped.allocates.of_limited,
            (Nat.not_le.mp fewer).trans_le few, refused⟩
  · obtain ⟨news, made⟩ := (createPageTable_ends _ _ _ _ _ _).of_ok run
    obtain rfl := Option.some.inj (normalized.symm.trans made.normalized)
    exact absurd (short.trans_eq made.created.length.symm)
      (Nat.not_lt.mpr made.created.allocates.length_le)

/-- Only the first entry with a table below it can be the one under construction. -/
theorem NoneFinished.of_first {bits : BitVec 64} {entries : Fin 512 → PageTree} {served : Nat}
    (none : NoneFinished (served + 1) (.relay bits entries)) (some : (entries 0).tables ≠ 0) :
    NoneFinished served (entries 0) := by
  cases none with
  | under index first inside =>
      rcases eq_or_ne index 0 with rfl | other
      · exact inside
      · exact absurd (first 0 (Fin.pos_of_ne_zero other)) some

theorem tables_listTable_pt {crates : X86Crates} {allowHuge : PageLevel} {vaddrBase : Nat}
    {maps : List Mapping} (index : Fin 512) :
    (listTable crates allowHuge .pt vaddrBase maps index).tables = 0 := by
  rw [listTable, listEntry, descend_eq]
  split
  · rfl
  · simp only [canBeHuge_pt, down, Option.map_none, tables_leafTree]

/-- A range across the first two leaf tables. -/
def acrossTables : List Mapping := [(⟨0x1FF000, 0x2000⟩, .dataFlags)]

theorem acrossTables_relay {level next : PageLevel} (step : level.down = some next) :
    listTable documentedCrates .pdpt level 0 acrossTables 0 =
      .relay 7 (listTable documentedCrates .pdpt next 0 acrossTables) := by
  have all : blockMaps level 0 acrossTables = acrossTables := by
    cases level <;> first | decide | cases step
  have small : canBeHuge level .pdpt 0 (0 + level.entrySize) acrossTables = none := by
    cases level <;> decide
  have start : listTable documentedCrates .pdpt level 0 acrossTables 0 =
      listEntry documentedCrates .pdpt level 0 acrossTables := by
    simp [listTable]
  rw [start, listEntry_relay (by rw [all]; exact List.cons_ne_nil _ _) (by rw [all]; exact small)
    step, all]

theorem acrossTables_tables :
    4 < 1 + ∑ index, (listTable documentedCrates .pdpt .pml4 0 acrossTables index).tables := by
  have below : ∀ {level next : PageLevel}, level.down = some next →
      1 + ∑ index, (listTable documentedCrates .pdpt next 0 acrossTables index).tables ≤
        ∑ index, (listTable documentedCrates .pdpt level 0 acrossTables index).tables := by
    intro level next step
    have single := Finset.single_le_sum (fun index _ => Nat.zero_le
      (listTable documentedCrates .pdpt level 0 acrossTables index).tables) (Finset.mem_univ 0)
    rwa [acrossTables_relay step, tables] at single
  have second : listTable documentedCrates .pdpt .pd 0 acrossTables 1 = .relay 7 _ :=
    listEntry_relay (by decide) (by decide) rfl
  have both := request_lt (fun index =>
    (listTable documentedCrates .pdpt .pd 0 acrossTables index).tables)
    (show 0 < (listTable documentedCrates .pdpt .pd 0 acrossTables 1).tables by
      rw [second, tables]
      omega)
  have first := Finset.single_le_sum (fun index _ => Nat.zero_le
    (listTable documentedCrates .pdpt .pd 0 acrossTables index).tables)
    (Finset.mem_Iio.mpr (show (0 : Fin 512) < 1 by decide))
  rw [acrossTables_relay rfl, tables] at first
  have inPdpt := below (show PageLevel.pdpt.down = some .pd from rfl)
  have inPml4 := below (show PageLevel.pml4.down = some .pdpt from rfl)
  omega

theorem acrossTables_normalized :
    normalizeMapList .dev stableSort [⟨0x1FF000, 0x2000⟩] [.dataFlags] =
      some ([⟨0x1FF000, 0x2000⟩], [.dataFlags]) :=
  normalizeMapList_single (MemRangeData.end?_of_fits _ (by decide)) _

/-- The five tables of `acrossTables` cannot be built with four frames. -/
theorem acrossTables_fails {count : Nat} (few : count ≤ 4) :
    ∃ error after news path lost,
      createPageTable (scarcePlatform count) [⟨0x1FF000, 0x2000⟩] [.dataFlags] .pdpt .pml4
        emptyMemory = (.error (.err error), after) ∧
      CreateStopped (scarcePlatform count) .pdpt .pml4 0 acrossTables emptyMemory news path lost
        after ∧
      news.length = count := by
  have requestable : Requestable (512 * PageLevel.pml4.entrySize) [⟨0x1FF000, 0x2000⟩]
      [.dataFlags] := requestable_of_physical (.inl rfl) rfl (by decide) (by decide) (by simp)
  have zipped : List.zip [⟨0x1FF000, 0x2000⟩] [.dataFlags] = acrossTables := rfl
  exact scarcePlatform_create_fails requestable acrossTables_normalized zipped
    (few.trans_lt acrossTables_tables) (few.trans (by decide))

/-- The fourth frame is refused inside the first leaf table. -/
theorem acrossTables_noneFinished :
    NoneFinished 3 (.relay 7 (listTable documentedCrates .pdpt .pml4 0 acrossTables)) := by
  have under : ∀ {level next : PageLevel} {served : Nat}, level.down = some next →
      NoneFinished served (.relay 7 (listTable documentedCrates .pdpt next 0 acrossTables)) →
      NoneFinished (served + 1)
        (.relay 7 (listTable documentedCrates .pdpt level 0 acrossTables)) := by
    intro level next served step inside
    refine .under 0 (fun earlier before => absurd before (Fin.not_lt_zero _)) ?_
    rw [acrossTables_relay step]
    exact inside
  exact under rfl (under rfl (under rfl (.refused _ _)))

/-- The fifth frame is refused after the first leaf table. -/
theorem acrossTables_not_noneFinished :
    ¬ NoneFinished 4 (.relay 7 (listTable documentedCrates .pdpt .pml4 0 acrossTables)) := by
  intro none
  have occupied : ∀ {level next : PageLevel}, level.down = some next →
      (listTable documentedCrates .pdpt level 0 acrossTables 0).tables ≠ 0 := by
    intro level next step
    rw [acrossTables_relay step, tables]
    omega
  have inPml4 := none.of_first (occupied rfl)
  rw [acrossTables_relay rfl] at inPml4
  have inPdpt := inPml4.of_first (occupied rfl)
  rw [acrossTables_relay rfl] at inPdpt
  have inPd := inPdpt.of_first (occupied rfl)
  rw [acrossTables_relay rfl] at inPd
  cases inPd with
  | under index first inside =>
      have table := inside.lt_tables
      rw [tables_listTable_pt] at table
      exact absurd table (Nat.lt_irrefl 0)

/-- The allocator's first refusal comes before a table of the tree of the lists is finished. -/
def UnfinishedRefusal (platform : Platform) (allowHuge target : PageLevel)
    (mapList : List MemRangeData) (flags : List PageEntryFlags) (memory : TableMemory) : Prop :=
  ∃ lists served,
    normalizeMapList platform.profile platform.sort mapList flags = some lists ∧
    Allocates platform.allocator memory.history served ∧
    platform.allocator.allocZeroed (grown memory.history served) = none ∧
    NoneFinished served.length
      (.relay 7 (listTable platform.crates allowHuge target 0 (lists.1.zip lists.2)))

/-- A failed `create_page_table` has deallocated each frame it allocated exactly once if and only if
the lists are turned down or the allocator refuses a frame before a table of the tree is
finished. -/
theorem createPageTable_leakFree_iff (platform : Platform) (mapList : List MemRangeData)
    (flags : List PageEntryFlags) (allowHugeAt target : PageLevel) {memory after : TableMemory}
    {error : Error}
    (run : createPageTable platform mapList flags allowHugeAt target memory =
      (.error (.err error), after)) :
    ∃ events, after.history = events ++ memory.history ∧
      (LeakFree events ↔ (Accepted mapList flags target →
        UnfinishedRefusal platform allowHugeAt target mapList flags memory)) := by
  rcases (createPageTable_fails platform mapList flags allowHugeAt target memory).of_error run with
    ⟨rfl, rejected⟩ | ⟨accepted, lists, news, path, lost, normalized, stopped⟩
  · refine ⟨[], rfl, fun _ accepted => absurd accepted rejected, fun _ _ member => ?_⟩
    exact absurd member List.not_mem_nil
  · refine ⟨shrunk (grown [] news) path, stopped.events, ?_⟩
    rw [stopped.leakFree_iff, forall_prop_of_true accepted]
    constructor
    · intro unfinished
      exact ⟨lists, news, normalized, stopped.allocates, stopped.refused, unfinished⟩
    · rintro ⟨others, served, same, allocates, refused, unfinished⟩
      obtain rfl := Option.some.inj (normalized.symm.trans same)
      rwa [stopped.allocates.unique stopped.refused allocates refused]

/-- The first leaf table of `acrossTables` is refused: the three tables above it are returned. -/
theorem createPageTable_leakFree_iff_threeFrames :
    ∃ error after events,
      createPageTable (scarcePlatform 3) [⟨0x1FF000, 0x2000⟩] [.dataFlags] .pdpt .pml4
        emptyMemory = (.error (.err error), after) ∧
      after.history = events ++ emptyMemory.history ∧ allocations events = 3 ∧
      LeakFree events := by
  obtain ⟨error, after, news, path, lost, run, stopped, count⟩ :=
    acrossTables_fails (show 3 ≤ 4 by decide)
  obtain ⟨events, extended, leakFree⟩ :=
    createPageTable_leakFree_iff (scarcePlatform 3) _ _ _ _ run
  have same : events = shrunk (grown [] news) path := by
    apply List.append_cancel_right
    rw [← extended, stopped.events]
  have served : allocations events = 3 := by rw [same, allocations_shrunk, count]
  refine ⟨error, after, events, run, extended, served, leakFree.mpr fun _ =>
    ⟨_, news, acrossTables_normalized, stopped.allocates, stopped.refused, ?_⟩⟩
  rw [count]
  exact acrossTables_noneFinished

/-- The second leaf table of `acrossTables` is refused when the first one is finished: the top table
and the two below it are returned, the finished leaf table is not. -/
theorem createPageTable_not_leakFree :
    ∃ error after events,
      createPageTable (scarcePlatform 4) [⟨0x1FF000, 0x2000⟩] [.dataFlags] .pdpt .pml4
        emptyMemory = (.error (.err error), after) ∧
      after.history = events ++ emptyMemory.history ∧ ¬ LeakFree events := by
  obtain ⟨error, after, news, path, lost, run, stopped, count⟩ := acrossTables_fails le_rfl
  refine ⟨error, after, shrunk (grown [] news) path, run, stopped.events, ?_⟩
  rw [stopped.leakFree_iff, count]
  exact acrossTables_not_noneFinished

end Okots
