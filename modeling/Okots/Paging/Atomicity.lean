import Okots.Paging.Failure
import Okots.Paging.IdentityMap

/-!
# Failed updates

`update_paging` has no way back: when a frame is refused, the entries already written stay, the
tables already detached and those already finished inside the failing creation are lost.  A failed
update leaves no trace exactly when the refusal comes before any of this has happened.
-/

namespace Okots

open StateExec Exec PageLevel PageTree

variable {platform : Platform} {allowHuge level : PageLevel} {vaddrBase : Nat}
  {maps : List Mapping} {before after : TableMemory} {table : Nat} {news path : List Nat}
  {stray : Multiset Nat} {top : TopPageTable} {newMapList : List MemRangeData}
  {newFlags : List PageEntryFlags}

/-! ## Frames after a refusal -/

namespace UpdateStopped

variable (separated : Separated before level table)
  (stopped : UpdateStopped platform allowHuge level vaddrBase maps before table news path stray
    after)

include stopped

theorem mem_live {frame : Nat} :
    frame ∈ after.live ↔ frame ∉ path ∧ (frame ∈ news ∨ frame ∈ before.live) := by
  rw [TableMemory.live, stopped.history, mem_liveFrames_shrunk, mem_liveFrames_grown]
  rfl

include separated

theorem nodup : (tableFrames after.words level table + (stray + ↑path)).Nodup := by
  rw [stopped.frames]
  exact separated.nodup_add stopped.allocates

/-- A frame of the balance that has not been returned is allocated. -/
theorem live {frame : Nat} (member : frame ∈ tableFrames after.words level table + stray) :
    frame ∈ after.live := by
  have nodup := stopped.nodup separated
  rw [← add_assoc] at nodup
  have balanced : frame ∈ tableFrames before.words level table + (news : Multiset Nat) := by
    rw [← stopped.frames, ← add_assoc]
    exact Multiset.mem_add.mpr (.inl member)
  rw [TableMemory.live, stopped.history, mem_liveFrames_shrunk]
  exact ⟨Multiset.disjoint_left.mp (Multiset.nodup_add.mp nodup).2.2 member,
    separated.live_add balanced⟩

/-- The tables are still pairwise distinct and allocated. -/
theorem separated_after : Separated after level table where
  nodup := (Multiset.nodup_add.mp (stopped.nodup separated)).1
  live _ member := stopped.live separated (Multiset.mem_add.mpr (.inl member))

/-- Every allocated table is reachable exactly when no frame is stray. -/
theorem reachable_iff :
    (∀ frame ∈ after.live, frame ∈ tableFrames before.words level table ∨ frame ∉ before.live →
      frame ∈ tableFrames after.words level table) ↔ stray = 0 := by
  have nodup := stopped.nodup separated
  constructor
  · intro reachable
    refine Multiset.eq_zero_of_forall_notMem fun frame member => ?_
    have live := stopped.live separated (Multiset.mem_add.mpr (.inr member))
    have balanced : frame ∈ tableFrames before.words level table + (news : Multiset Nat) := by
      rw [← stopped.frames]
      exact Multiset.mem_add.mpr (.inr (Multiset.mem_add.mpr (.inl member)))
    refine Multiset.disjoint_left.mp (Multiset.nodup_add.mp nodup).2.2 (reachable frame live ?_)
      (Multiset.mem_add.mpr (.inl member))
    rcases Multiset.mem_add.mp balanced with old | new
    · exact .inl old
    · exact .inr (stopped.allocates.fresh new)
  · rintro rfl frame live owned
    obtain ⟨kept, source⟩ := stopped.mem_live.mp live
    have balanced : frame ∈ tableFrames before.words level table + (news : Multiset Nat) := by
      rw [Multiset.mem_add, Multiset.mem_coe]
      rcases owned with old | foreign
      · exact .inl old
      · exact .inr (source.resolve_right foreign)
    rw [← stopped.frames, zero_add] at balanced
    exact (Multiset.mem_add.mp balanced).resolve_right kept

end UpdateStopped

/-! ## `update_paging` -/

/-- How the incremental branch of `update_paging` fails. -/
def PagingFailed (platform : Platform) (allowHuge : PageLevel) (top : TopPageTable)
    (newMapList : List MemRangeData) (newFlags : List PageEntryFlags) (before : TableMemory) :
    Fault → TableMemory → Prop
  | .panic, _ => ¬ Requestable (512 * top.level.entrySize) newMapList newFlags
  | .err _, after => ∃ lists news path stray,
      normalizeMapList platform.profile platform.sort newMapList newFlags = some lists ∧
      UpdateStopped platform allowHuge top.level 0 (lists.1.zip lists.2) before top.phys news path
        stray after

/-- How many frames the incremental branch of `update_paging` asks for, and what it leaves behind
when it fails. -/
theorem updatePaging_fails (platform : Platform) {allowHugeAt : PageLevel}
    (fragmentation : top.pageFragmentationLevel < cleanRecreateFragmentLevel)
    (virt : top.virt = top.phys) (separated : Separated before top.level top.phys) :
    Ends (updatePaging platform top newMapList newFlags allowHugeAt) before
      (fun _ after => ∃ lists,
        normalizeMapList platform.profile platform.sort newMapList newFlags = some lists ∧
        after.history.length = before.history.length +
          ∑ index, missing (tableTree before.words top.level top.phys index)
            (listTable platform.crates allowHugeAt top.level 0 (lists.1.zip lists.2) index))
      (PagingFailed platform allowHugeAt top newMapList newFlags before) := by
  rw [updatePaging]
  simp only [ends_bind, ends_ofOption]
  refine ⟨fun lists normalized => ?_, fun panic requestable => ?_⟩
  · obtain ⟨maps', flags'⟩ := lists
    simp only
    rw [if_neg (by omega), ends_bind, virt]
    refine (updateRecursive_fails platform allowHugeAt _ top.level top.phys 0 (maps'.zip flags')
      ([], 0) before (tableBlock_top top.level) separated).mono ?_ ?_
    · intro _ after asked
      exact ⟨(maps', flags'), normalized, asked⟩
    · intro reason after failed
      cases reason with
      | panic =>
          intro requestable
          exact failed (requestable.buildable normalized).2
      | err error =>
          obtain ⟨news, path, stray, stopped⟩ := failed
          exact ⟨(maps', flags'), news, path, stray, normalized, stopped⟩
  · exact absurd panic (requestable.normalize_ne_none _ _)

/-- An update to the empty list asks for no frame, so it succeeds with every allocator. -/
theorem updatePaging_clears (platform : Platform) (allowHugeAt : PageLevel)
    (fragmentation : top.pageFragmentationLevel < cleanRecreateFragmentLevel)
    (virt : top.virt = top.phys) (separated : Separated before top.level top.phys) :
    ∃ result after,
      updatePaging platform top [] [] allowHugeAt before = (.ok result, after) ∧
      Updated platform allowHugeAt top.level 0 [] before top.phys [] result.2 after := by
  have requestable : Requestable (512 * top.level.entrySize) [] [] :=
    ⟨rfl, by simp, by simp, by simp⟩
  have needless : ∑ index, missing (tableTree before.words top.level top.phys index)
      (listTable platform.crates allowHugeAt top.level 0 [] index) = 0 := by
    refine Finset.sum_eq_zero fun index _ => missing_eq_zero ?_ _
    rw [listTable, listEntry_empty rfl, tables]
  rcases run : updatePaging platform top [] [] allowHugeAt before with ⟨reason | result, after⟩
  · have failed := (updatePaging_fails platform fragmentation virt separated).of_error run
    cases reason with
    | panic => exact absurd requestable failed
    | err error =>
        obtain ⟨lists, news, path, stray, normalized, stopped⟩ := failed
        obtain rfl : ([], []) = lists := Option.some.inj normalized
        have short := stopped.short
        simp only [List.zip_nil_left] at short
        rw [needless] at short
        exact absurd short (Nat.not_lt_zero _)
  · obtain ⟨lists, news, normalized, -, updated⟩ :=
      (updatePaging_ends platform fragmentation virt separated).of_ok run
    obtain ⟨others, same, asked⟩ :=
      (updatePaging_fails platform fragmentation virt separated).of_ok run
    obtain rfl : ([], []) = lists := Option.some.inj normalized
    obtain rfl : ([], []) = others := Option.some.inj same
    simp only [List.zip_nil_left] at asked
    rw [needless, updated.history, grown, List.length_append, List.length_map] at asked
    obtain rfl : news = [] := List.length_eq_zero_iff.mp (by omega)
    exact ⟨result, after, rfl, updated⟩

/-- Every address translates as before, and every table that was there before or has been allocated
since is reachable unless it has been returned. -/
structure Unchanged (top : TopPageTable) (before after : TableMemory) : Prop where
  translation : ∀ vaddr, hardwareWalk after.words top.level top.phys vaddr Rights.all =
    hardwareWalk before.words top.level top.phys vaddr Rights.all
  frames : ∀ frame ∈ after.live,
    frame ∈ tableFrames before.words top.level top.phys ∨ frame ∉ before.live →
    frame ∈ tableFrames after.words top.level top.phys

/-- The allocator's first refusal does no harm to an update from the tree in memory to the tree of
the list. -/
def HarmlessRefusal (platform : Platform) (allowHuge : PageLevel) (top : TopPageTable)
    (maps : List Mapping) (before : TableMemory) : Prop :=
  ∃ served, Allocates platform.allocator before.history served ∧
    platform.allocator.allocZeroed (grown before.history served) = none ∧
    Harmless top.level Rights.all served.length (tableTree before.words top.level top.phys)
      (listTable platform.crates allowHuge top.level 0 maps)

theorem UpdateStopped.unchanged_iff (separated : Separated before top.level top.phys)
    (stopped : UpdateStopped platform allowHuge top.level 0 maps before top.phys news path stray
      after) :
    Unchanged top before after ↔ HarmlessRefusal platform allowHuge top maps before := by
  have walks : (∀ vaddr, hardwareWalk after.words top.level top.phys vaddr Rights.all =
        hardwareWalk before.words top.level top.phys vaddr Rights.all) ↔
      ∀ index, SameWalk top.level Rights.all (tableTree after.words top.level top.phys index)
        (tableTree before.words top.level top.phys index) := by
    rw [← sameWalk_entries]
    simp only [hardwareWalk_eq_treeWalk]
  have refusal : HarmlessRefusal platform allowHuge top maps before ↔
      Harmless top.level Rights.all news.length (tableTree before.words top.level top.phys)
        (listTable platform.crates allowHuge top.level 0 maps) := by
    constructor
    · rintro ⟨served, allocates, refused, harmless⟩
      rwa [stopped.allocates.unique stopped.refused allocates refused]
    · intro harmless
      exact ⟨news, stopped.allocates, stopped.refused, harmless⟩
  rw [refusal, ← stopped.harmless, ← walks, ← stopped.reachable_iff separated]
  exact ⟨fun unchanged => ⟨unchanged.translation, unchanged.frames⟩,
    fun both => ⟨both.1, both.2⟩⟩

/-! ## A scarce allocator -/

/-- An allocator that refuses once `count` requests have been made. -/
def FrameAllocator.limited (allocator : FrameAllocator) (count : Nat) : FrameAllocator where
  allocZeroed history := if history.length < count then allocator.allocZeroed history else none
  leftover := allocator.leftover
  fresh _ _ request := allocator.fresh _ _ (Option.ite_none_right_eq_some.mp request).2
  aligned _ _ request := allocator.aligned _ _ (Option.ite_none_right_eq_some.mp request).2
  bounded _ _ request := allocator.bounded _ _ (Option.ite_none_right_eq_some.mp request).2
  nonNull _ _ request := allocator.nonNull _ _ (Option.ite_none_right_eq_some.mp request).2

/-- A platform with `count` frames. -/
def scarcePlatform (count : Nat) : Platform :=
  { bumpPlatform 0 with allocator := (bumpAllocator 0).limited count }

theorem scarcePlatform_refuses {count : Nat} {history : List FrameEvent}
    (used : count ≤ history.length) :
    (scarcePlatform count).allocator.allocZeroed history = none :=
  if_neg (Nat.not_lt.mpr used)

theorem scarcePlatform_serves {count : Nat} {news : List Nat} (left : news.length < count) :
    (scarcePlatform count).allocator.allocZeroed (grown emptyMemory.history news) =
      (bumpAllocator 0).allocZeroed (grown emptyMemory.history news) :=
  if_pos (by simpa [grown, emptyMemory] using left)

theorem Allocates.of_limited {allocator : FrameAllocator} {count : Nat} {history : List FrameEvent}
    (allocates : Allocates (allocator.limited count) history news) :
    Allocates allocator history news := by
  induction news with
  | nil => trivial
  | cons frame older induction =>
      exact ⟨induction allocates.1, (Option.ite_none_right_eq_some.mp allocates.2).2⟩

/-- `create_page_table` succeeds when the allocator serves as many frames as the tree has tables. -/
theorem createPageTable_serves (platform : Platform) {mapList : List MemRangeData}
    {flags : List PageEntryFlags} (allowHugeAt : PageLevel) {target : PageLevel}
    {memory : TableMemory} {lists : List MemRangeData × List PageEntryFlags}
    (requestable : Requestable (512 * target.entrySize) mapList flags)
    (kind : target = .pml5 ∨ target = .pml4)
    (normalized : normalizeMapList platform.profile platform.sort mapList flags = some lists)
    (served : ∀ news, Allocates platform.allocator memory.history news →
      news.length < 1 + ∑ index,
        (listTable platform.crates allowHugeAt target 0 (lists.1.zip lists.2) index).tables →
      platform.allocator.allocZeroed (grown memory.history news) ≠ none)
    (canonical : ∀ frame, platform.allocator.allocZeroed memory.history = some frame →
      frame < 2 ^ 47) :
    ∃ top after news,
      createPageTable platform mapList flags allowHugeAt target memory = (.ok top, after) ∧
      CreatedTop platform mapList flags allowHugeAt target memory top news after := by
  obtain ⟨top, after, run, -⟩ := (createPageTable_fails platform mapList flags allowHugeAt target
    memory).exists_ok fun reason after failed => by
      cases reason with
      | panic =>
          obtain ⟨frame, request, high⟩ := failed requestable
          exact absurd (canonical frame request) (by omega)
      | err error =>
          rcases failed with ⟨-, rejected⟩ | ⟨-, found, news, path, lost, same, stopped⟩
          · exact rejected ⟨requestable.lengths, requestable.aligned, kind⟩
          · obtain rfl := Option.some.inj (normalized.symm.trans same)
            exact served news stopped.allocates stopped.short stopped.refused
  obtain ⟨news, made⟩ :=
    (createPageTable_ends platform mapList flags allowHugeAt target memory).of_ok run
  exact ⟨top, after, news, run, made⟩

/-- With exactly the frames of the tree, the tree can be built and no frame is left. -/
theorem scarcePlatform_create {lists : List MemRangeData × List PageEntryFlags}
    (requestable : Requestable (512 * PageLevel.pml4.entrySize) newMapList newFlags)
    (normalized : normalizeMapList .dev stableSort newMapList newFlags = some lists) {count : Nat}
    (exactly : count = 1 + ∑ index,
      (listTable documentedCrates .pdpt .pml4 0 (lists.1.zip lists.2) index).tables) :
    ∃ top created news,
      createPageTable (scarcePlatform count) newMapList newFlags .pdpt .pml4 emptyMemory =
        (.ok top, created) ∧
      CreatedTop (scarcePlatform count) newMapList newFlags .pdpt .pml4 emptyMemory top news
        created ∧
      created.history.length = count := by
  have within : count ≤ PageLevel.pml4.tableCount := by
    obtain ⟨top, after, news, -, made⟩ := createPageTable_run (bumpPlatform 0) .pdpt requestable
      (.inr rfl) (bumpAllocator_serves (by decide)) fun _ request => bumpAllocator_first request
    obtain rfl := Option.some.inj (normalized.symm.trans made.normalized)
    rw [exactly]
    exact made.created.length.symm.trans_le made.created.count
  have size : ∀ news, (grown emptyMemory.history news).length = news.length := by
    simp [grown, emptyMemory]
  have served : ∀ news, Allocates (scarcePlatform count).allocator emptyMemory.history news →
      news.length < 1 + ∑ index,
        (listTable documentedCrates .pdpt .pml4 0 (lists.1.zip lists.2) index).tables →
      (scarcePlatform count).allocator.allocZeroed (grown emptyMemory.history news) ≠ none := by
    intro news allocates short refused
    rw [← exactly] at short
    rw [scarcePlatform_serves short] at refused
    exact bumpAllocator_serves (by decide)
      ⟨news, allocates.of_limited, short.trans_le within, refused⟩
  obtain ⟨top, created, news, run, made⟩ := createPageTable_serves (scarcePlatform count) .pdpt
    requestable (.inr rfl) normalized served fun frame request =>
      bumpAllocator_first (Option.ite_none_right_eq_some.mp request).2
  obtain rfl := Option.some.inj (normalized.symm.trans made.normalized)
  refine ⟨top, created, news, run, made, ?_⟩
  rw [made.created.history, size, exactly]
  exact made.created.length

/-- Without a frame left, an update that needs one fails. -/
theorem scarcePlatform_update {count : Nat} {lists : List MemRangeData × List PageEntryFlags}
    (fragmentation : top.pageFragmentationLevel < cleanRecreateFragmentLevel)
    (virt : top.virt = top.phys) (separated : Separated before top.level top.phys)
    (used : before.history.length = count)
    (requestable : Requestable (512 * top.level.entrySize) newMapList newFlags)
    (normalized : normalizeMapList .dev stableSort newMapList newFlags = some lists)
    {index : Fin 512}
    (needs : 0 < missing (tableTree before.words top.level top.phys index)
      (listTable documentedCrates allowHuge top.level 0 (lists.1.zip lists.2) index)) :
    ∃ error after, updatePaging (scarcePlatform count) top newMapList newFlags allowHuge before =
      (.error (.err error), after) := by
  rcases run : updatePaging (scarcePlatform count) top newMapList newFlags allowHuge before with
    ⟨reason | result, after⟩
  · cases reason with
    | err error => exact ⟨error, after, rfl⟩
    | panic =>
        have failed := (updatePaging_fails _ fragmentation virt separated).of_error run
        exact absurd requestable failed
  · exfalso
    obtain ⟨_, news, -, -, updated⟩ :=
      (updatePaging_ends _ fragmentation virt separated).of_ok run
    obtain ⟨others, same, asked⟩ := (updatePaging_fails _ fragmentation virt separated).of_ok run
    obtain rfl := Option.some.inj (normalized.symm.trans same)
    have refused : (scarcePlatform count).allocator.allocZeroed (grown before.history []) = none :=
      scarcePlatform_refuses used.ge
    obtain rfl := List.suffix_nil.mp (updated.allocates.isSuffix trivial refused)
    have bound := Finset.single_le_sum (fun index _ => Nat.zero_le
      (missing (tableTree before.words top.level top.phys index)
        (listTable documentedCrates allowHuge top.level 0 (lists.1.zip lists.2) index)))
      (Finset.mem_univ index)
    have nothing : ∑ index, missing (tableTree before.words top.level top.phys index)
        (listTable documentedCrates allowHuge top.level 0 (lists.1.zip lists.2) index) = 0 :=
      Nat.add_left_cancel (asked.symm.trans (congrArg List.length updated.history))
    omega

/-- A tree that takes all frames, and an update that needs one more. -/
theorem scarcePlatform_run {mapList : List MemRangeData} {flags : List PageEntryFlags}
    {lists newLists : List MemRangeData × List PageEntryFlags} {count : Nat} {index : Fin 512}
    (requestable : Requestable (512 * PageLevel.pml4.entrySize) mapList flags)
    (newRequestable : Requestable (512 * PageLevel.pml4.entrySize) newMapList newFlags)
    (normalized : normalizeMapList .dev stableSort mapList flags = some lists)
    (newNormalized : normalizeMapList .dev stableSort newMapList newFlags = some newLists)
    (exactly : count = 1 + ∑ index,
      (listTable documentedCrates .pdpt .pml4 0 (lists.1.zip lists.2) index).tables)
    (needs : 0 < missing (listTable documentedCrates .pdpt .pml4 0 (lists.1.zip lists.2) index)
      (listTable documentedCrates .pdpt .pml4 0 (newLists.1.zip newLists.2) index)) :
    ∃ top created news error after,
      createPageTable (scarcePlatform count) mapList flags .pdpt .pml4 emptyMemory =
        (.ok top, created) ∧
      updatePaging (scarcePlatform count) top newMapList newFlags .pdpt created =
        (.error (.err error), after) ∧
      CreatedTop (scarcePlatform count) mapList flags .pdpt .pml4 emptyMemory top news created ∧
      created.history.length = count := by
  obtain ⟨top, created, news, create, made, used⟩ :=
    scarcePlatform_create requestable normalized exactly
  obtain rfl := Option.some.inj (normalized.symm.trans made.normalized)
  obtain ⟨error, after, update⟩ := scarcePlatform_update (made.fragmentation ▸ by decide) made.virt
    (made.level ▸ made.created.separated) used (made.level ▸ newRequestable) newNormalized
    (show 0 < missing (tableTree created.words top.level top.phys index) _ by
      rw [made.level, made.created.tree]
      exact needs)
  exact ⟨top, created, news, error, after, create, update, made, used⟩

/-- A failed update leaves no trace exactly when the refusal was harmless. -/
theorem updatePaging_unchanged_iff_harmless (platform : Platform) {top : TopPageTable}
    {newMapList : List MemRangeData} {newFlags : List PageEntryFlags} {allowHugeAt : PageLevel}
    {lists : List MemRangeData × List PageEntryFlags} {before after : TableMemory} {error : Error}
    (fragmentation : top.pageFragmentationLevel < cleanRecreateFragmentLevel)
    (virt : top.virt = top.phys) (separated : Separated before top.level top.phys)
    (normalized : normalizeMapList platform.profile platform.sort newMapList newFlags = some lists)
    (run : updatePaging platform top newMapList newFlags allowHugeAt before =
      (.error (.err error), after)) :
    Unchanged top before after ↔
      HarmlessRefusal platform allowHugeAt top (lists.1.zip lists.2) before := by
  obtain ⟨others, news, path, stray, same, stopped⟩ :=
    (updatePaging_fails platform fragmentation virt separated).of_error run
  obtain rfl := Option.some.inj (normalized.symm.trans same)
  exact stopped.unchanged_iff separated

/-- A page of the first table below the top, and one of the second. -/
def pagesApart : List Mapping :=
  [(⟨0x1000, 0x1000⟩, .dataFlags), (⟨0x8000000000, 0x1000⟩, .dataFlags)]

theorem normalizeMapList_pagesApart :
    normalizeMapList .dev stableSort pagesApart.unzip.1 pagesApart.unzip.2 =
      some pagesApart.unzip := by
  have added : pagesApart.foldlM (addRange .dev) [] = some pagesApart := by decide
  have sorted : stableSort.byStart pagesApart = pagesApart :=
    stableSort_of_pairwise (by decide)
  have merged : mergeSorted .dev pagesApart = some pagesApart := by decide
  simp only [normalizeMapList, List.zip_unzip, added, Option.bind_eq_bind, Option.bind_some,
    sorted, merged]
  rfl

/-- A mapped page stays as it is when the table for a second page is refused. -/
theorem updatePaging_unchanged_iff_harmless_keptPage :
    ∃ count top created error after,
      createPageTable (scarcePlatform count) [⟨0x1000, 0x1000⟩] [.dataFlags] .pdpt .pml4
        emptyMemory = (.ok top, created) ∧
      updatePaging (scarcePlatform count) top pagesApart.unzip.1 pagesApart.unzip.2 .pdpt created =
        (.error (.err error), after) ∧
      hardwareWalk created.words .pml4 top.phys 0x1000 Rights.all =
        some (requested .dataFlags 0x1000) ∧
      Unchanged top created after := by
  have single : normalizeMapList .dev stableSort [⟨0x1000, 0x1000⟩] [.dataFlags] =
      some ([⟨0x1000, 0x1000⟩], [.dataFlags]) :=
    normalizeMapList_single (MemRangeData.end?_of_fits _ (by decide)) _
  have kept : listTable documentedCrates .pdpt .pml4 0 [(⟨0x1000, 0x1000⟩, .dataFlags)] 0 =
      listTable documentedCrates .pdpt .pml4 0 pagesApart 0 := listEntry_congr (by decide)
  have old : listTable documentedCrates .pdpt .pml4 0 [(⟨0x1000, 0x1000⟩, .dataFlags)] 1 =
      .absent := listEntry_empty (by decide)
  have new : listTable documentedCrates .pdpt .pml4 0 pagesApart 1 = .relay 7 _ :=
    listEntry_relay (by decide) (by decide) rfl
  have needs : 0 < missing
      (listTable documentedCrates .pdpt .pml4 0 [(⟨0x1000, 0x1000⟩, .dataFlags)] 1)
      (listTable documentedCrates .pdpt .pml4 0 pagesApart 1) := by
    rw [old, new]
    simp [missing, tables]
  have page := requestable_page (show 4096 ∣ 0x1000 by decide) (by decide)
  obtain ⟨top, created, news, error, after, create, update, made, used⟩ := scarcePlatform_run
    page (requestable_of_physical (.inl rfl) rfl (by decide) (by decide) (by simp)) single
    normalizeMapList_pagesApart rfl needs
  have mapped := made.translates (by decide) page
    (show 0x1000 < 512 * PageLevel.pml4.entrySize by decide)
  refine ⟨_, top, created, error, after, create, update, mapped.trans (by decide), ?_⟩
  have recorded : top.memoryMapping = ([⟨0x1000, 0x1000⟩], [.dataFlags]) :=
    Option.some.inj (made.normalized.symm.trans single)
  have trees := made.created.tree
  rw [recorded] at trees
  refine (updatePaging_unchanged_iff_harmless (scarcePlatform _) (made.fragmentation ▸ by decide)
    made.virt (made.level ▸ made.created.separated) normalizeMapList_pagesApart update).mpr
      ⟨[], trivial, scarcePlatform_refuses used.ge, ?_⟩
  rw [made.level]
  -- The only entry before the one of the second page is the entry of the first page.
  have before : ∀ earlier : Fin 512, earlier < 1 →
      tableTree created.words .pml4 top.phys earlier =
        listTable documentedCrates .pdpt .pml4 0 pagesApart earlier := by
    intro earlier first
    obtain rfl : earlier = 0 := Fin.ext (Nat.lt_one_iff.mp first)
    exact (trees 0).trans kept
  have asked : earlierRequests (tableTree created.words .pml4 top.phys)
      (listTable documentedCrates .pdpt .pml4 0 pagesApart) 1 = 0 := by
    refine Finset.sum_eq_zero fun earlier member => ?_
    rw [before earlier (Finset.mem_Iio.mp member)]
    exact missing_self _
  have plain : (tableTree created.words .pml4 top.phys 1).tables = 0 := by
    rw [trees]
    exact congrArg tables old
  have refused : NoneFinished 0 (listTable documentedCrates .pdpt .pml4 0 pagesApart 1) := by
    rw [new]
    exact .refused _ _
  have harmless : Harmless .pml4 Rights.all
      (earlierRequests (tableTree created.words .pml4 top.phys)
        (listTable documentedCrates .pdpt .pml4 0 pagesApart) 1 + 0)
      (tableTree created.words .pml4 top.phys)
      (listTable documentedCrates .pdpt .pml4 0 pagesApart) := by
    refine .create 1 (fun earlier first => ?_) plain refused
    rw [before earlier first]
    exact ⟨fun _ => rfl, missing_self _⟩
  rw [asked] at harmless
  exact harmless

/-- A page is lost when the table for another page is refused. -/
theorem updatePaging_loses_page :
    ∃ count top created error after,
      createPageTable (scarcePlatform count) [⟨0x1000, 0x1000⟩] [.dataFlags] .pdpt .pml4
        emptyMemory = (.ok top, created) ∧
      updatePaging (scarcePlatform count) top [⟨0x8000000000, 0x1000⟩] [.dataFlags] .pdpt created =
        (.error (.err error), after) ∧
      ¬ Unchanged top created after := by
  have normalized : ∀ start < 2 ^ 47, normalizeMapList .dev stableSort [⟨start, 0x1000⟩]
      [.dataFlags] = some ([⟨start, 0x1000⟩], [.dataFlags]) := by
    intro start low
    refine normalizeMapList_single (MemRangeData.end?_of_fits _ ?_) _
    simp only [MemRangeData.Fits, usizeCount]
    omega
  have old : listTable documentedCrates .pdpt .pml4 0 [(⟨0x1000, 0x1000⟩, .dataFlags)] 1 =
      .absent := listEntry_empty (by decide)
  have cleared : listTable documentedCrates .pdpt .pml4 0
      [(⟨0x8000000000, 0x1000⟩, .dataFlags)] 0 = .absent := listEntry_empty (by decide)
  have new : listTable documentedCrates .pdpt .pml4 0 [(⟨0x8000000000, 0x1000⟩, .dataFlags)] 1 =
      .relay 7 _ := listEntry_relay (by decide) (by decide) rfl
  have needs : 0 < missing
      (listTable documentedCrates .pdpt .pml4 0 [(⟨0x1000, 0x1000⟩, .dataFlags)] 1)
      (listTable documentedCrates .pdpt .pml4 0 [(⟨0x8000000000, 0x1000⟩, .dataFlags)] 1) := by
    rw [old, new]
    simp [missing, tables]
  obtain ⟨top, created, news, error, after, create, update, made, -⟩ := scarcePlatform_run
    (requestable_page (by decide) (by decide)) (requestable_page (by decide) (by decide))
    (normalized _ (by decide)) (normalized _ (by decide)) rfl needs
  refine ⟨_, top, created, error, after, create, update, fun unchanged => ?_⟩
  have separated : Separated created top.level top.phys := made.level ▸ made.created.separated
  obtain ⟨lists, _, _, _, same, stopped⟩ := (updatePaging_fails _ (made.fragmentation ▸ by decide)
    made.virt separated).of_error update
  obtain rfl := Option.some.inj ((normalized _ (by decide)).symm.trans same)
  obtain ⟨_, -, -, harmless⟩ := (stopped.unchanged_iff separated).mp unchanged
  obtain ⟨index, needed, neutral⟩ := harmless.exists_entry
  have later : 0 < index := by
    refine Fin.pos_of_ne_zero fun zero => needed ?_
    rw [zero, made.level]
    exact congrArg tables cleared
  have walk := (neutral 0 later).walk 0x1000
  rw [made.level] at walk
  have lost : treeWalk (tableTree created.words .pml4 top.phys 0) .pml4 0x1000 Rights.all = none :=
    walk.trans (congrArg (treeWalk · .pml4 0x1000 Rights.all) cleared)
  have mapped := made.translates (by decide) (requestable_page (by decide) (by decide))
    (show 0x1000 < 512 * PageLevel.pml4.entrySize by decide)
  rw [hardwareWalk_eq_treeWalk, show PageLevel.pml4.getIndex 0x1000 = 0 by decide, lost] at mapped
  exact absurd mapped (by decide)

end Okots
