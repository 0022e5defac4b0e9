import Okots.Paging.IdentityMap
import Okots.Paging.Release

/-!
# The clean recreate branch

Above a fragmentation limit `update_paging` builds a second tree, copies its top level over the live
one and frees the second top table.  The list it returns holds the children of the new tree, which
are reachable now, instead of those of the old tree, which are lost.  The recorded list stays the
old one.
-/

namespace Okots

open StateExec Exec PageLevel LastWriter

variable {platform : Platform} {allowHuge level : PageLevel} {before middle after : TableMemory}
  {top : TopPageTable} {maps : List Mapping} {buf : List (Nat × PageLevel)}

/-! ## The branch -/

/-- The top table has the entries of the list, its other tables are new, and the returned tables are
those below it. -/
structure Recreated (platform : Platform) (allowHuge : PageLevel) (top : TopPageTable)
    (maps : List Mapping) (buf : List (Nat × PageLevel)) (after : TableMemory) : Prop where
  tree : ∀ index, tableTree after.words top.level top.phys index =
    listTable platform.crates allowHuge top.level 0 maps index
  children : ∀ frame, frame ∈ detachedFrames after.words buf ↔
    ∃ index, frame ∈ entryFrames after.words top.level (after.words top.phys index)

/-- The copy of the top level: the entries in `done` are those of the second top table. -/
structure CopyLoop (level : PageLevel) (middle : TableMemory) (target source : Nat)
    (done : List (Fin 512)) (buf : List (Nat × PageLevel)) (current : TableMemory) : Prop where
  copied : ∀ index ∈ done, current.words target index = middle.words source index
  frame : ∀ other ≠ target, current.words other = middle.words other
  collected : buf = done.flatMap fun index => childTables level (middle.words source index)

/-- No table is built for an entry of a top table: no range meets its block, or one range covers it
and `allow_huge` admits a huge entry there, for which `create_recursive` writes zero. -/
def LeftEmpty (allowHuge level : PageLevel) (maps : List Mapping) (index : Fin 512) : Prop :=
  blockMaps level (index * level.entrySize) maps = [] ∨
    (canBeHuge level allowHuge (index * level.entrySize)
      (index * level.entrySize + level.entrySize)
      (blockMaps level (index * level.entrySize) maps)).isSome = true

/-- Below the limit of the builders, an entry is left empty only when no range meets its block. -/
theorem LeftEmpty.unmet {index : Fin 512} (empty : LeftEmpty allowHuge level maps index)
    (limit : allowHuge ≤ .pdpt) (kind : level = .pml5 ∨ level = .pml4) :
    blockMaps level (index * level.entrySize) maps = [] := by
  refine empty.resolve_right fun huge => ?_
  obtain ⟨flags, choice⟩ := Option.isSome_iff_exists.mp huge
  obtain ⟨-, -, -, allowed, -⟩ := canBeHuge_eq_some choice
  have high : level.rank ≤ PageLevel.pdpt.rank := Nat.le_trans allowed limit
  rcases kind with rfl | rfl <;> exact absurd high (by decide)

/-- An entry of a top table is absent or refers to a table, since no top table has leaves. -/
theorem listTable_top (crates : X86Crates) (kind : level = .pml5 ∨ level = .pml4)
    (maps : List Mapping) (index : Fin 512) :
    (LeftEmpty allowHuge level maps index ∧
        listTable crates allowHuge level 0 maps index = .absent) ∨
      (¬ LeftEmpty allowHuge level maps index ∧
        ∃ entries, listTable crates allowHuge level 0 maps index = .relay 7 entries) := by
  rw [listTable, Nat.zero_add, LeftEmpty]
  by_cases empty : blockMaps level (index * level.entrySize) maps = []
  · exact .inl ⟨.inl empty, listEntry_empty empty⟩
  cases choice : canBeHuge level allowHuge (index * level.entrySize)
      (index * level.entrySize + level.entrySize)
      (blockMaps level (index * level.entrySize) maps) with
  | some flags =>
      refine .inl ⟨.inr rfl, ?_⟩
      rw [listEntry_hugeLeaf choice]
      rcases kind with rfl | rfl <;> simp [createHugeEntry, leafTree]
  | none =>
      refine .inr ⟨by simp [empty], ?_⟩
      rcases kind with rfl | rfl
      · exact ⟨_, listEntry_relay empty choice rfl⟩
      · exact ⟨_, listEntry_relay empty choice rfl⟩

theorem leafTree_ne_relay {entry flags : BitVec 64} {entries : Fin 512 → PageTree} :
    leafTree entry ≠ .relay flags entries := by
  intro same
  rw [leafTree] at same
  split at same <;> cases same

/-- The entry refers to a table unless it is left empty. -/
theorem relays_of_listTable {entry : BitVec 64} {words : TableWords} {index : Fin 512}
    (kind : level = .pml5 ∨ level = .pml4)
    (tree : entryTree words level entry = listTable platform.crates allowHuge level 0 maps index) :
    (LeftEmpty allowHuge level maps index ∧ entry.getLsbD 0 = false) ∨
      (¬ LeftEmpty allowHuge level maps index ∧ ∃ next, Relays level entry next) := by
  rcases listTable_top platform.crates kind maps index with
    ⟨empty, absent⟩ | ⟨nonempty, entries, relay⟩
  · rw [absent] at tree
    rcases relays_or_childless level entry with ⟨next, relays⟩ | childless
    · rw [relays.entryTree] at tree
      cases tree
    · rw [childless.entryTree, leafTree] at tree
      split at tree
      · cases tree
      · rename_i missing
        exact .inl ⟨empty, by simpa using missing⟩
  · rw [relay] at tree
    rcases relays_or_childless level entry with relays | childless
    · exact .inr ⟨nonempty, relays⟩
    · rw [childless.entryTree] at tree
      exact absurd tree leafTree_ne_relay

/-- The test of the copying loop finds the tables below the second top table. -/
theorem childTables_of_listTable {entry : BitVec 64} {words : TableWords} {next : PageLevel}
    {index : Fin 512} (kind : level = .pml5 ∨ level = .pml4) (step : level.down = some next)
    (tree : entryTree words level entry = listTable platform.crates allowHuge level 0 maps index) :
    childTables level entry =
      if platform.crates.isPresent entry then [(platform.crates.entryAddr entry, next)]
      else [] := by
  rw [platform.crates.isPresent_eq, platform.crates.entryAddr_eq]
  rcases relays_of_listTable kind tree with ⟨-, missing⟩ | ⟨-, found, relays⟩
  · rw [missing, childTables_of_childless (.inr (by rw [isRelay, missing, Bool.false_and]))]
    rfl
  · have present : entry.getLsbD 0 = true := (Bool.and_eq_true_iff.mp relays.relay).1
    obtain rfl : next = found := Option.some.inj (step.symm.trans relays.down)
    rw [present, childTables_of_relays relays]
    rfl

theorem mem_detachedFrames_flatMap {words : TableWords} {source : Fin 512 → BitVec 64}
    {indices : List (Fin 512)} {frame : Nat} :
    frame ∈ detachedFrames words (indices.flatMap fun index => childTables level (source index)) ↔
      ∃ index ∈ indices, frame ∈ entryFrames words level (source index) := by
  induction indices with
  | nil => simp
  | cons index rest induction =>
      rw [List.flatMap_cons, detachedFrames_append, Multiset.mem_add, detachedFrames_childTables,
        induction]
      simp

/-- The loop that copies the second top table over the live one. -/
theorem copyLoop_ends {target source : Nat} {next : PageLevel}
    (kind : level = .pml5 ∨ level = .pml4) (step : level.down = some next)
    (distinct : source ≠ target)
    (tree : ∀ index, tableTree middle.words level source index =
      listTable platform.crates allowHuge level 0 maps index) {fail : Fault → TableMemory → Prop} :
    Ends (foldEach entryIndices [] fun buf idx => do
        let entry ← loadEntry source idx
        storeEntry target idx entry
        return if platform.crates.isPresent entry then
          buf ++ [(platform.crates.entryAddr entry, next)]
        else
          buf) middle
      (CopyLoop level middle target source entryIndices) fail := by
  refine foldEach_ends (CopyLoop level middle target source)
    ⟨by simp, fun _ _ => rfl, rfl⟩ fun done index rest buf current split loop => ?_
  have same : current.words source index = middle.words source index := by
    rw [loop.frame source distinct]
  simp only [loadEntry, storeEntry, ends_bind, ends_read, ends_modify, ends_pure]
  refine ⟨?_, ?_, ?_⟩
  · intro other member
    rcases List.mem_append.mp member with earlier | last
    · have apart : other ≠ index := fun equal => (entryIndices_split split).1 (equal ▸ earlier)
      rw [TableMemory.setEntry_words_of_ne_index apart]
      exact loop.copied other earlier
    · rw [List.mem_singleton.mp last, TableMemory.setEntry_words_self, same]
  · intro other apart
    rw [TableMemory.setEntry_words_of_ne apart, loop.frame other apart]
  · rw [List.flatMap_append, ← loop.collected, List.flatMap_singleton,
      childTables_of_listTable kind step (tree index), same]
    split <;> simp

/-- After the copy and the release of the second top table, the live top table has the entries of
the list. -/
theorem CopyLoop.recreated {source : Nat} {news : List Nat} {current : TableMemory}
    (separated : Separated before top.level top.phys)
    (created : Created platform allowHuge top.level 0 maps before source news middle)
    (loop : CopyLoop top.level middle top.phys source entryIndices buf current)
    (released : Released current {source} after) :
    Recreated platform allowHuge top maps buf after := by
  have topLive : top.phys ∈ before.live := separated.live _ (mem_tableFrames.mpr (.inl rfl))
  have distinct : source ≠ top.phys :=
    fun same => created.allocates.fresh created.mem (same ▸ topLive)
  have nodup : (tableFrames middle.words top.level source).Nodup := by
    rw [created.frames]
    exact Multiset.coe_nodup.mpr created.allocates.nodup
  have stored : ∀ index, after.words top.phys index = middle.words source index := by
    intro index
    rw [released.frame top.phys fun member => distinct (Multiset.mem_singleton.mp member).symm]
    exact loop.copied index (mem_entryIndices index)
  have kept : ∀ index, ∀ frame ∈ entryFrames middle.words top.level (middle.words source index),
      after.words frame = middle.words frame := by
    intro index frame member
    have inTree : frame ∈ tableFrames middle.words top.level source :=
      mem_tableFrames.mpr (.inr ⟨index, member⟩)
    have notTop : frame ≠ top.phys := by
      rintro rfl
      rw [created.frames, Multiset.mem_coe] at inTree
      exact created.allocates.fresh inTree topLive
    have notSource : frame ≠ source := by
      rintro rfl
      rw [tableFrames, Multiset.nodup_add] at nodup
      exact Multiset.disjoint_left.mp nodup.2.2 (Multiset.mem_singleton_self _)
        (mem_joinFrames.mpr ⟨index, member⟩)
    rw [released.frame frame (Multiset.mem_singleton.not.mpr notSource), loop.frame frame notTop]
  have same := fun index => entry_congr top.level (middle.words source index) (kept index)
  refine ⟨fun index => ?_, fun frame => ?_⟩
  · rw [tableTree, stored, (same index).2]
    exact created.tree index
  · have found : frame ∈ detachedFrames middle.words buf ↔
        ∃ index, frame ∈ entryFrames middle.words top.level (middle.words source index) := by
      rw [loop.collected, mem_detachedFrames_flatMap]
      simp [mem_entryIndices]
    have agree : detachedFrames after.words buf = detachedFrames middle.words buf := by
      refine detachedFrames_congr fun held member => ?_
      rw [loop.collected, mem_detachedFrames_flatMap] at member
      obtain ⟨index, -, inEntry⟩ := member
      exact kept index held inEntry
    rw [agree, found]
    exact exists_congr fun index => by rw [stored, (same index).1]

/-- `update_paging` normalizes the lists, and `create_page_table` does so again. -/
def rebuiltLists (platform : Platform) (newMapList : List MemRangeData)
    (newFlags : List PageEntryFlags) : Option (List MemRangeData × List PageEntryFlags) := do
  let lists ← normalizeMapList platform.profile platform.sort newMapList newFlags
  normalizeMapList platform.profile platform.sort lists.1 lists.2

variable {newMapList : List MemRangeData} {newFlags : List PageEntryFlags}

/-- The normalized lists can be mapped if the given ones can. -/
theorem Requestable.normalized {bound : Nat} {profile : Profile} {sort : UnstableSort}
    {lists : List MemRangeData × List PageEntryFlags}
    (requestable : Requestable bound newMapList newFlags)
    (normal : normalizeMapList profile sort newMapList newFlags = some lists) :
    Requestable bound lists.1 lists.2 := by
  obtain ⟨lengths, buildable⟩ := requestable.buildable normal
  refine ⟨lengths, fun range member => ?_, fun range member => ?_, fun range member => ?_⟩
  all_goals obtain ⟨flag, inZip⟩ := exists_mapping_of_mem lengths member
  · exact buildable.tidy.granular _ inZip
  · exact buildable.tidy.fits _ inZip
  · exact buildable.encodable _ inZip

/-- What the recreate branch of `update_paging` does, and the only reasons for it to fail. -/
theorem updatePaging_recreate_ends (platform : Platform)
    (fragmented : cleanRecreateFragmentLevel ≤ top.pageFragmentationLevel)
    (virt : top.virt = top.phys) (separated : Separated before top.level top.phys) :
    Ends (updatePaging platform top newMapList newFlags allowHuge) before
      (fun result after => ∃ lists, rebuiltLists platform newMapList newFlags = some lists ∧
        result.1 = { top with pageFragmentationLevel := 0 } ∧
        (top.level = .pml5 ∨ top.level = .pml4) ∧
        Recreated platform allowHuge top (lists.1.zip lists.2) result.2 after)
      (fun _ _ => Requestable (512 * top.level.entrySize) newMapList newFlags →
        top.level = .pml5 ∨ top.level = .pml4 →
        Exhausted platform.allocator before.history top.level.tableCount ∨
          ∃ frame, platform.allocator.allocZeroed before.history = some frame ∧
            2 ^ 47 ≤ frame) := by
  rw [updatePaging]
  simp only [ends_bind, ends_ofOption]
  refine ⟨fun lists normalized => ?_, fun panic requestable _ => ?_⟩
  · obtain ⟨maps', flags'⟩ := lists
    simp only
    rw [if_pos fragmented]
    simp only [ends_bind, ends_ofOption]
    refine ⟨fun next step => ?_, fun bottom _ kind => ?_⟩
    · refine (createPageTable_ends platform maps' flags' allowHuge top.level before).mono ?_ ?_
      · rintro tmp middle ⟨news, made⟩
        have topLive : top.phys ∈ before.live := separated.live _ (mem_tableFrames.mpr (.inl rfl))
        have distinct : tmp.phys ≠ top.phys :=
          fun same => made.created.allocates.fresh made.created.mem (same ▸ topLive)
        rw [made.virt, virt]
        refine (copyLoop_ends made.kind step distinct made.created.tree).mono ?_
          fun _ _ failed => failed
        intro buf current loop
        refine (deallocTable_ends tmp.phys).mono ?_ fun _ _ failed => failed
        intro _ after released
        refine ⟨tmp.memoryMapping, ?_, rfl, made.kind,
          loop.recreated separated made.created released⟩
        rw [rebuiltLists, normalized]
        exact made.normalized
      · intro _ _ failed requestable kind
        exact failed (requestable.normalized normalized) kind
    · rcases kind with kind | kind <;> rw [kind] at bottom <;> cases bottom
  · exact absurd panic (requestable.normalize_ne_none _ _)

/-! ## When the branch is a correct update -/

/-- A correct update: the new list is translated and recorded, and the returned tables are those
that were reachable and are not any more. -/
structure CorrectUpdate (platform : Platform) (top : TopPageTable)
    (newMapList : List MemRangeData) (newFlags : List PageEntryFlags) (before : TableMemory)
    (top' : TopPageTable) (buf : List (Nat × PageLevel)) (after : TableMemory) : Prop where
  translates : ∀ vaddr < addressBound top.level,
    hardwareWalk after.words top'.level top'.phys vaddr Rights.all =
      (lastFlags (newMapList.zip newFlags) vaddr).map (requested · vaddr)
  recorded : normalizeMapList platform.profile platform.sort newMapList newFlags =
    some top'.memoryMapping
  returned : ∀ frame, frame ∈ detachedFrames after.words buf ↔
    frame ∈ tableFrames before.words top.level top.phys ∧
      frame ∉ tableFrames after.words top'.level top'.phys

/-- There is nothing to do: the top table has no child table and gets none, the new list maps no
address, and it is recorded already. -/
structure NothingToDo (platform : Platform) (allowHuge : PageLevel) (top : TopPageTable)
    (newMapList : List MemRangeData) (newFlags : List PageEntryFlags) (before : TableMemory) :
    Prop where
  childless : ∀ index, Childless top.level (before.words top.phys index)
  leftEmpty : ∀ lists, rebuiltLists platform newMapList newFlags = some lists → ∀ index,
    LeftEmpty allowHuge top.level (lists.1.zip lists.2) index
  uncovered : ∀ vaddr < addressBound top.level, lastFlags (newMapList.zip newFlags) vaddr = none
  recorded : normalizeMapList platform.profile platform.sort newMapList newFlags =
    some top.memoryMapping

/-- Normalizing twice keeps the meaning. -/
theorem rebuiltLists_spec (aligned : ∀ range ∈ newMapList, range.Aligned)
    (fits : ∀ range ∈ newMapList, range.Fits) {lists : List MemRangeData × List PageEntryFlags}
    (rebuilt : rebuiltLists platform newMapList newFlags = some lists) :
    Tidy 4096 (lists.1.zip lists.2) ∧ ∀ address,
      lastFlags (lists.1.zip lists.2) address = lastFlags (newMapList.zip newFlags) address := by
  obtain ⟨maps', flags', normal, -, tidy, -, meaning⟩ :=
    normalizeMapList_spec platform.profile platform.sort 4096
      (fun map member => fits map.1 (List.of_mem_zip member).1)
      (fun map member => aligned map.1 (List.of_mem_zip member).1)
  obtain ⟨maps'', flags'', again, -, tidy', -, meaning'⟩ :=
    normalizeMapList_spec platform.profile platform.sort 4096 tidy.fits tidy.granular
  rw [rebuiltLists, normal, Option.bind_eq_bind, Option.bind_some, again] at rebuilt
  obtain rfl := Option.some.inj rebuilt
  exact ⟨tidy', fun address => (meaning' address).trans (meaning address)⟩

theorem mem_entryFrames_of_relays {words : TableWords} {entry : BitVec 64} {next : PageLevel}
    (relays : Relays level entry next) : tableBase entry ∈ entryFrames words level entry := by
  rw [relays.entryFrames]
  exact mem_tableFrames.mpr (.inl rfl)

theorem Childless.notMem {words : TableWords} {entry : BitVec 64} {frame : Nat}
    (childless : Childless level entry) : frame ∉ Okots.entryFrames words level entry := by
  rw [childless.entryFrames]
  exact Multiset.notMem_zero frame

theorem mem_tableFrames_of_childless {words : TableWords} {table frame : Nat}
    (childless : ∀ index, Childless level (words table index)) :
    frame ∈ tableFrames words level table ↔ frame = table := by
  rw [mem_tableFrames]
  exact or_iff_left fun ⟨index, member⟩ => (childless index).notMem member

/-- A list none of whose ranges meets an entry of the table maps no address of it. -/
theorem lastFlags_of_unmet (tidy : Tidy 4096 maps)
    (unmet : ∀ index : Fin 512, blockMaps level (index * level.entrySize) maps = []) {vaddr : Nat}
    (below : vaddr < 512 * level.entrySize) : lastFlags maps vaddr = none := by
  have buildable : Buildable 0 maps :=
    ⟨tidy, fun _ _ _ negative => absurd negative (Nat.not_lt_zero _)⟩
  obtain ⟨above, inside⟩ := (tableBlock_top level).getIndex (Nat.zero_le vaddr) (by omega)
  rw [Nat.zero_add] at above inside
  rw [← buildable.lastFlags_blockMaps above inside, unmet]
  rfl

namespace Recreated

/-- If the returned tables are as they should be, there are none, before and after. -/
theorem childless_of_returned (recreated : Recreated platform allowHuge top maps buf after)
    (separated : Separated before top.level top.phys)
    (returned : ∀ frame, frame ∈ detachedFrames after.words buf ↔
      frame ∈ tableFrames before.words top.level top.phys ∧
        frame ∉ tableFrames after.words top.level top.phys) :
    (∀ index, Childless top.level (after.words top.phys index)) ∧
      ∀ index, Childless top.level (before.words top.phys index) := by
  have none : ∀ frame, frame ∉ detachedFrames after.words buf := by
    intro frame member
    apply ((returned frame).mp member).2
    exact mem_tableFrames.mpr (.inr ((recreated.children frame).mp member))
  have now : ∀ index, Childless top.level (after.words top.phys index) := by
    intro index
    rcases relays_or_childless top.level (after.words top.phys index) with
      ⟨next, relays⟩ | childless
    · exact absurd ((recreated.children _).mpr ⟨index, mem_entryFrames_of_relays relays⟩) (none _)
    · exact childless
  refine ⟨now, fun index => ?_⟩
  rcases relays_or_childless top.level (before.words top.phys index) with ⟨next, relays⟩ | childless
  · have member : tableBase (before.words top.phys index) ∈
        entryFrames before.words top.level (before.words top.phys index) :=
      mem_entryFrames_of_relays relays
    have lost : tableBase (before.words top.phys index) ∈ detachedFrames after.words buf := by
      refine (returned _).mpr ⟨mem_tableFrames.mpr (.inr ⟨index, member⟩), ?_⟩
      rw [mem_tableFrames_of_childless now]
      exact separated.entry_ne member
    exact absurd lost (none _)
  · exact childless

variable (kind : top.level = .pml5 ∨ top.level = .pml4)
  (recreated : Recreated platform allowHuge top maps buf after)

include kind recreated

theorem childless_iff :
    (∀ index, Childless top.level (after.words top.phys index)) ↔
      ∀ index, LeftEmpty allowHuge top.level maps index := by
  refine forall_congr' fun index => ?_
  rcases relays_of_listTable kind (recreated.tree index) with
    ⟨empty, missing⟩ | ⟨nonempty, next, relays⟩
  · exact iff_of_true (.inr (by rw [isRelay, missing, Bool.false_and])) empty
  · refine iff_of_false (fun childless => ?_) nonempty
    rcases childless with leafLevel | plain
    · rcases kind with same | same <;> rw [same] at leafLevel <;> cases leafLevel
    · rw [relays.relay] at plain
      cases plain

/-- A tree without tables below its top translates nothing. -/
theorem hardwareWalk_of_leftEmpty (empty : ∀ index, LeftEmpty allowHuge top.level maps index)
    (vaddr : Nat) : hardwareWalk after.words top.level top.phys vaddr Rights.all = none := by
  rcases relays_of_listTable kind (recreated.tree (top.level.getIndex vaddr)) with
    ⟨-, missing⟩ | ⟨nonempty, -⟩
  · rw [hardwareWalk]
    exact if_neg (by rw [missing]; exact Bool.false_ne_true)
  · exact absurd (empty _) nonempty

end Recreated

/-- The recreate branch is a correct update exactly when there is nothing to do. -/
theorem updatePaging_recreate_correct_iff (platform : Platform) {top top' : TopPageTable}
    {newMapList : List MemRangeData} {newFlags : List PageEntryFlags} {allowHugeAt : PageLevel}
    {before after : TableMemory} {buf : List (Nat × PageLevel)}
    (fragmented : 512 ≤ top.pageFragmentationLevel) (virt : top.virt = top.phys)
    (separated : Separated before top.level top.phys)
    (update : updatePaging platform top newMapList newFlags allowHugeAt before =
      (.ok (top', buf), after)) :
    CorrectUpdate platform top newMapList newFlags before top' buf after ↔
      NothingToDo platform allowHugeAt top newMapList newFlags before := by
  obtain ⟨lists, rebuilt, rfl, kind, recreated⟩ :=
    (updatePaging_recreate_ends platform fragmented virt separated).of_ok update
  have onlyLists : ∀ others, rebuiltLists platform newMapList newFlags = some others →
      others = lists := fun _ same => (Option.some.inj (rebuilt.symm.trans same)).symm
  constructor
  · intro correct
    obtain ⟨now, old⟩ := recreated.childless_of_returned separated correct.returned
    have empty := (recreated.childless_iff kind).mp now
    refine ⟨old, fun others same => onlyLists others same ▸ empty, fun vaddr below => ?_,
      correct.recorded⟩
    have asked := correct.translates vaddr below
    simp only at asked
    rw [recreated.hardwareWalk_of_leftEmpty kind empty] at asked
    exact Option.map_eq_none_iff.mp asked.symm
  · intro nothing
    have empty := nothing.leftEmpty lists rebuilt
    have now := (recreated.childless_iff kind).mpr empty
    refine ⟨fun vaddr below => ?_, nothing.recorded, fun frame => ?_⟩
    · rw [nothing.uncovered vaddr below]
      exact recreated.hardwareWalk_of_leftEmpty kind empty vaddr
    · rw [recreated.children, mem_tableFrames_of_childless nothing.childless,
        mem_tableFrames_of_childless now]
      exact ⟨fun ⟨index, member⟩ => absurd member (now index).notMem,
        fun both => absurd both.1 both.2⟩

/-! ## Two runs -/

/-- A top table at the fragmentation limit. -/
def TopPageTable.fragmented (top : TopPageTable) : TopPageTable :=
  { top with pageFragmentationLevel := 512 }

/-- A created top table at the fragmentation limit is well formed. -/
theorem CreatedTop.fragmented {mapList : List MemRangeData} {flags : List PageEntryFlags}
    {news : List Nat}
    (made : CreatedTop platform mapList flags allowHuge level before top news after) :
    top.fragmented.level = level ∧ top.fragmented.virt = top.fragmented.phys ∧
      Separated after top.fragmented.level top.fragmented.phys :=
  ⟨made.level, made.virt, made.level ▸ made.created.separated⟩

/-- On the ascending allocator a table can be created and then recreated. -/
theorem bumpPlatform_recreate {mapList : List MemRangeData} {flags : List PageEntryFlags}
    (first : Requestable (512 * PageLevel.pml4.entrySize) mapList flags)
    (second : Requestable (512 * PageLevel.pml4.entrySize) newMapList newFlags) :
    ∃ top news memory top' buf after,
      CreatedTop (bumpPlatform 0) mapList flags .pdpt .pml4 emptyMemory top news memory ∧
      updatePaging (bumpPlatform 0) top.fragmented newMapList newFlags .pdpt memory =
        (.ok (top', buf), after) := by
  obtain ⟨top, memory, news, -, made⟩ := createPageTable_run (bumpPlatform 0) .pdpt first (.inr rfl)
    (bumpAllocator_serves (by decide)) fun _ request => bumpAllocator_first request
  have highest := bumpAllocator_highest made.created.allocates
  have count := made.created.count
  rw [← made.created.history] at highest
  have start : highestFrame 0 emptyMemory.history = 0 := rfl
  have size : PageLevel.pml4.tableCount = 134480385 := rfl
  obtain ⟨level, virt, separated⟩ := made.fragmented
  obtain ⟨⟨top', buf⟩, after, update, -⟩ :=
    (updatePaging_recreate_ends (bumpPlatform 0)
      (show 512 ≤ top.fragmented.pageFragmentationLevel from le_rfl) virt
      separated).exists_ok fun _ _ failed => by
        rw [level] at failed
        rcases failed second (.inr rfl) with exhausted | ⟨frame, request, high⟩
        · exact bumpAllocator_serves (by omega) exhausted
        · have next := bumpAllocator_request request
          omega
  exact ⟨top, news, memory, top', buf, after, made, update⟩

/-- An empty table is recreated from an empty list. -/
theorem updatePaging_recreate_correct_iff_empty :
    ∃ top memory top' buf after,
      updatePaging (bumpPlatform 0) top [] [] .pdpt memory = (.ok (top', buf), after) ∧
      512 ≤ top.pageFragmentationLevel ∧
      CorrectUpdate (bumpPlatform 0) top [] [] memory top' buf after := by
  have requestable : Requestable (512 * PageLevel.pml4.entrySize) [] [] :=
    ⟨rfl, by simp, by simp, by simp⟩
  obtain ⟨top, news, memory, top', buf, after, made, update⟩ :=
    bumpPlatform_recreate requestable requestable
  obtain ⟨level, virt, separated⟩ := made.fragmented
  have recorded : top.memoryMapping = ([], []) := (Option.some.inj made.normalized).symm
  refine ⟨top.fragmented, memory, top', buf, after, update, le_rfl,
    (updatePaging_recreate_correct_iff (bumpPlatform 0) le_rfl virt separated update).mpr
      ⟨fun index => ?_, ?_, fun _ _ => rfl, made.normalized⟩⟩
  · have entry := made.created.tree index
    rw [recorded] at entry
    rw [level]
    rcases relays_of_listTable (.inr rfl) entry with ⟨-, missing⟩ | ⟨nonempty, -⟩
    · exact .inr (by rw [isRelay]; exact Bool.and_eq_false_iff.mpr (.inl missing))
    · exact absurd (.inl rfl) nonempty
  · rintro lists ⟨⟩ index
    exact .inl rfl

/-- One page is replaced by another one: the returned table is reachable from the updated top
table. -/
theorem updatePaging_recreate_returns_reachable :
    ∃ top memory top' buf after frame,
      updatePaging (bumpPlatform 0) top [⟨0x2000, 0x1000⟩] [.dataFlags] .pdpt memory =
        (.ok (top', buf), after) ∧
      512 ≤ top.pageFragmentationLevel ∧ top.virt = top.phys ∧
      Separated memory top.level top.phys ∧
      frame ∈ detachedFrames after.words buf ∧
      frame ∈ tableFrames after.words top'.level top'.phys := by
  have first := requestable_page (show 4096 ∣ 0x1000 by decide) (by decide)
  have second := requestable_page (show 4096 ∣ 0x2000 by decide) (by decide)
  obtain ⟨top, news, memory, top', buf, after, made, update⟩ := bumpPlatform_recreate first second
  obtain ⟨level, virt, separated⟩ := made.fragmented
  obtain ⟨lists, rebuilt, rfl, kind, recreated⟩ :=
    (updatePaging_recreate_ends (bumpPlatform 0) le_rfl virt separated).of_ok update
  obtain ⟨tidy, meaning⟩ := rebuiltLists_spec (by decide) (by decide) rebuilt
  by_cases childless :
      ∀ index, Childless top.fragmented.level (after.words top.fragmented.phys index)
  · have empty := (recreated.childless_iff kind).mp childless
    have unmet := fun index => (empty index).unmet (by decide) kind
    have below : 0x2000 < 512 * top.fragmented.level.entrySize := by
      rw [level]
      decide
    have nothing := lastFlags_of_unmet tidy unmet below
    rw [meaning] at nothing
    exact absurd nothing (by decide)
  · obtain ⟨index, child⟩ := not_forall.mp childless
    obtain ⟨next, relays⟩ := (relays_or_childless _ _).resolve_right child
    have member : tableBase (after.words top.fragmented.phys index) ∈
        entryFrames after.words top.fragmented.level (after.words top.fragmented.phys index) :=
      mem_entryFrames_of_relays relays
    exact ⟨top.fragmented, memory, _, buf, after, _, update, le_rfl, virt, separated,
      (recreated.children _).mpr ⟨index, member⟩, mem_tableFrames.mpr (.inr ⟨index, member⟩)⟩

end Okots
