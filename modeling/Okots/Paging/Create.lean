import Okots.Paging.Frames
import Okots.Paging.ListTree

/-!
# Building a tree

What `create_recursive` leaves in memory: a tree made of newly allocated frames only, whose entries
are those of the list, with every other frame untouched.  The loop over the entries of one table
keeps an invariant over the entries already written; each entry adds the frames of one subtree.
When the list can be encoded, the builder fails only if the allocator refuses a request.
-/

namespace Okots

open StateExec Exec PageLevel

variable {platform : Platform} {allowHuge level : PageLevel} {bound vaddrBase : Nat}
  {maps : List Mapping}

theorem allocTable_ends (platform : Platform) (memory : TableMemory) :
    Ends (allocTable platform) memory
      (fun frame after => platform.allocator.allocZeroed memory.history = some frame ∧
        after = (memory.setFrame frame fun _ => 0).record (.alloc frame))
      (fun _ _ => platform.allocator.allocZeroed memory.history = none) := by
  unfold Ends allocTable
  cases request : platform.allocator.allocZeroed memory.history with
  | none => rfl
  | some frame => exact ⟨rfl, rfl⟩

/-! ## The invariant of the loop -/

/-- The table is owned, the entries in `done` are those of the list, the others are empty, and the
frames below the table are the frames `news` handed out since `memory`. -/
structure CreateLoop (platform : Platform) (allowHuge level : PageLevel) (vaddrBase : Nat)
    (maps : List Mapping) (memory : TableMemory) (table : Nat) (news : List Nat)
    (done : List (Fin 512)) (current : TableMemory) : Prop where
  owned : table ∈ memory.live
  history : current.history = grown memory.history news
  allocates : Allocates platform.allocator memory.history news
  count : news.length ≤ done.length * level.childCount
  frames : tableFrames current.words level table = {table} + ↑news
  frame : ∀ other, other ∉ news → other ≠ table → current.words other = memory.words other
  tree : ∀ index ∈ done, tableTree current.words level table index =
    listTable platform.crates allowHuge level vaddrBase maps index
  rest : ∀ index, index ∉ done → current.words table index = 0

variable {memory current : TableMemory} {table : Nat} {news : List Nat} {done : List (Fin 512)}

theorem CreateLoop.live (loop : CreateLoop platform allowHuge level vaddrBase maps memory table news
    done current) {frame : Nat} (member : frame = table ∨ frame ∈ news) :
    frame ∈ liveFrames current.history := by
  rw [loop.history, mem_liveFrames_grown]
  rcases member with rfl | member
  · exact .inr loop.owned
  · exact .inl member

/-- The frames below the entries of the table have been handed out since `memory`. -/
theorem CreateLoop.mem_news (loop : CreateLoop platform allowHuge level vaddrBase maps memory table
    news done current) {index : Fin 512} {held : Nat}
    (member : held ∈ entryFrames current.words level (current.words table index)) :
    held ∈ news := by
  have below : (joinFrames fun index => entryFrames current.words level
      (current.words table index)) = ↑news := add_left_cancel loop.frames
  rw [← Multiset.mem_coe, ← below]
  exact mem_joinFrames.mpr ⟨index, member⟩

/-- Writing an entry after handing out the frames `more` exchanges the tree below that entry and
leaves the others. -/
theorem CreateLoop.exchange (loop : CreateLoop platform allowHuge level vaddrBase maps memory table
    news done current) (index : Fin 512) (entry : BitVec 64) {built : TableMemory}
    {more : List Nat} (allocates : Allocates platform.allocator current.history more)
    (frame : ∀ other, other ∉ more → built.words other = current.words other) :
    tableFrames (built.setEntry table index entry).words level table +
        entryFrames current.words level (current.words table index) =
      tableFrames current.words level table +
        entryFrames (built.setEntry table index entry).words level entry ∧
    ∀ other ≠ index, (built.setEntry table index entry).words table other =
        current.words table other ∧
      tableTree (built.setEntry table index entry).words level table other =
        tableTree current.words level table other := by
  have others : ∀ other ≠ index,
      (built.setEntry table index entry).words table other = current.words table other := by
    intro other distinct
    rw [TableMemory.setEntry_words_of_ne_index distinct,
      frame table fun member => allocates.fresh member (loop.live (.inl rfl))]
  have kept : ∀ other ≠ index, ∀ held ∈ entryFrames current.words level
      (current.words table other),
      (built.setEntry table index entry).words held = current.words held := by
    intro other _ held member
    have old : held ∈ news := loop.mem_news member
    have distinct : held ≠ table :=
      fun same => loop.allocates.fresh (same ▸ old) loop.owned
    rw [TableMemory.setEntry_words_of_ne distinct,
      frame held fun fresh => allocates.fresh fresh (loop.live (.inr old))]
  obtain ⟨exchanged, unchanged⟩ := table_exchange index others kept
  rw [TableMemory.setEntry_words_self] at exchanged
  exact ⟨exchanged, fun other distinct => ⟨others other distinct, unchanged other distinct⟩⟩

/-- Writing the next entry, after the frames `more` of its subtree have been handed out. -/
theorem CreateLoop.store (loop : CreateLoop platform allowHuge level vaddrBase maps memory table
    news done current) {index : Fin 512} (pending : index ∉ done) {built : TableMemory}
    {more : List Nat} {entry : BitVec 64} (history : built.history = grown current.history more)
    (allocates : Allocates platform.allocator current.history more)
    (count : more.length ≤ level.childCount)
    (frame : ∀ other, other ∉ more → built.words other = current.words other)
    (frames : entryFrames (built.setEntry table index entry).words level entry = ↑more)
    (tree : entryTree (built.setEntry table index entry).words level entry =
      listTable platform.crates allowHuge level vaddrBase maps index) :
    CreateLoop platform allowHuge level vaddrBase maps memory table (more ++ news)
      (done ++ [index]) (built.setEntry table index entry) := by
  obtain ⟨exchanged, unchanged⟩ := loop.exchange index entry allocates frame
  rw [frames, loop.rest index pending, childless_zero.entryFrames, add_zero,
    loop.frames] at exchanged
  refine ⟨loop.owned, ?_, ?_, ?_, ?_, ?_, ?_, ?_⟩
  · rw [grown_append, ← loop.history]
    exact history
  · refine loop.allocates.append ?_
    rw [← loop.history]
    exact allocates
  · have before := loop.count
    rw [List.length_append, List.length_append, List.length_singleton, Nat.succ_mul]
    omega
  · rw [exchanged, ← Multiset.coe_add]
    abel
  · intro other fresh distinct
    rw [List.mem_append, not_or] at fresh
    rw [TableMemory.setEntry_words_of_ne distinct, frame other fresh.1,
      loop.frame other fresh.2 distinct]
  · intro other member
    rcases List.mem_append.mp member with earlier | last
    · rw [(unchanged other fun same => pending (same ▸ earlier)).2]
      exact loop.tree other earlier
    · rw [List.mem_singleton.mp last, tableTree, TableMemory.setEntry_words_self]
      exact tree
  · intro other missing
    rw [List.mem_append, List.mem_singleton, not_or] at missing
    rw [(unchanged other missing.2).1]
    exact loop.rest other missing.1

/-- Writing an entry without a table below it. -/
theorem CreateLoop.storeLeaf (loop : CreateLoop platform allowHuge level vaddrBase maps memory table
    news done current) {index : Fin 512} (pending : index ∉ done) {entry : BitVec 64}
    (childless : Childless level entry)
    (tree : leafTree entry = listTable platform.crates allowHuge level vaddrBase maps index) :
    CreateLoop platform allowHuge level vaddrBase maps memory table news (done ++ [index])
      (current.setEntry table index entry) :=
  loop.store pending (show current.history = grown current.history [] from rfl) trivial
    (Nat.zero_le _) (fun _ _ => rfl) childless.entryFrames (childless.entryTree.trans tree)

/-! ## One entry, one table, the whole tree -/

/-- A tree of the frames `news`, handed out since `memory`, with the entries of the list. -/
structure Created (platform : Platform) (allowHuge level : PageLevel) (vaddrBase : Nat)
    (maps : List Mapping) (memory : TableMemory) (table : Nat) (news : List Nat)
    (after : TableMemory) : Prop where
  first : platform.allocator.allocZeroed memory.history = some table
  history : after.history = grown memory.history news
  allocates : Allocates platform.allocator memory.history news
  count : news.length ≤ level.tableCount
  frames : tableFrames after.words level table = ↑news
  frame : ∀ other, other ∉ news → after.words other = memory.words other
  tree : ∀ index, tableTree after.words level table index =
    listTable platform.crates allowHuge level vaddrBase maps index

theorem Created.mem {after : TableMemory} (created : Created platform allowHuge level vaddrBase maps
    memory table news after) : table ∈ news := by
  rw [← Multiset.mem_coe, ← created.frames]
  exact mem_tableFrames.mpr (.inl rfl)

/-- A relay to a table that does not contain the written table itself. -/
theorem setEntry_relayWord {next : PageLevel} {built : TableMemory} {child : Nat} (index : Fin 512)
    (aligned : 4096 ∣ child) (bounded : child < 2 ^ 52) (step : level.down = some next)
    (apart : table ∉ tableFrames built.words next child) :
    entryFrames (built.setEntry table index (relayWord child)).words level (relayWord child) =
        tableFrames built.words next child ∧
      entryTree (built.setEntry table index (relayWord child)).words level (relayWord child) =
        .relay 7 (tableTree built.words next child) := by
  have relays := relays_relayWord aligned bounded step
  have agree : ∀ frame ∈ tableFrames built.words next child,
      (built.setEntry table index (relayWord child)).words frame = built.words frame :=
    fun frame member => TableMemory.setEntry_words_of_ne fun same => apart (same ▸ member)
  obtain ⟨sameFrames, sameTree⟩ := table_congr agree
  rw [relays.entryFrames, relays.entryTree, tableBase_relayWord aligned bounded, sameFrames,
    sameTree, ← addressField_twelve, relayWord_flags aligned bounded]
  exact ⟨rfl, rfl⟩

/-- A created subtree becomes the next entry of the table. -/
theorem CreateLoop.storeTable {next : PageLevel} {vstart child : Nat} {sub : List Mapping}
    {more : List Nat} {built : TableMemory} {index : Fin 512}
    (loop : CreateLoop platform allowHuge level vaddrBase maps memory table news done current)
    (pending : index ∉ done) (step : level.down = some next)
    (created : Created platform allowHuge next vstart sub current child more built)
    (tree : listTable platform.crates allowHuge level vaddrBase maps index =
      .relay 7 (listTable platform.crates allowHuge next vstart sub)) :
    CreateLoop platform allowHuge level vaddrBase maps memory table (more ++ news)
      (done ++ [index]) (built.setEntry table index (relayWord child)) := by
  have apart : table ∉ tableFrames built.words next child := by
    rw [created.frames, Multiset.mem_coe]
    exact fun member => created.allocates.fresh member (loop.live (.inl rfl))
  obtain ⟨frames, below⟩ := setEntry_relayWord index (created.allocates.aligned created.mem)
    (created.allocates.bounded created.mem) step apart
  refine loop.store pending created.history created.allocates
    (childCount_of_down step ▸ created.count) created.frame (frames.trans created.frames) ?_
  rw [below, tree]
  congr 1
  exact funext created.tree

/-- What `create_recursive` does at the next level. -/
def LowerCreates (platform : Platform) (allowHuge level : PageLevel) (bound : Nat) : Prop :=
  ∀ next, level.down = some next → ∀ vstart sub memory, TableBlock bound next vstart →
    Ends (createRecursive platform vstart next sub allowHuge) memory
      (fun child after => ∃ news,
        Created platform allowHuge next vstart sub memory child news after)
      (fun _ _ => Buildable bound sub →
        Exhausted platform.allocator memory.history next.tableCount)

/-- When the creation of a lower table fails with an error, the table itself is returned. -/
def afterCleanup (platform : Platform) (table : Nat) (fail : Fault → TableMemory → Prop) :
    Fault → TableMemory → Prop
  | .panic, after => fail .panic after
  | .err error, after => fail (.err (error.fromSelf (some "failed to create recursive")))
      ((after.setFrame table (platform.allocator.leftover after.history table)).record
        (.dealloc table))

variable {index : Fin 512}

/-- One iteration of the loop: a leaf is written, or a table is created below the entry; a panic is
possible only for lists that cannot be encoded. -/
theorem createEntry_rule {ok : Unit → TableMemory → Prop} {fail : Fault → TableMemory → Prop}
    (block : TableBlock bound level vaddrBase) (fresh : current.words table index = 0)
    (leaf : ∀ entry, Childless level entry →
      leafTree entry = listTable platform.crates allowHuge level vaddrBase maps index →
      ok () (current.setEntry table index entry))
    (below : ∀ next, level.down = some next →
      listTable platform.crates allowHuge level vaddrBase maps index =
        .relay 7 (listTable platform.crates allowHuge next (vaddrBase + index * level.entrySize)
          (blockMaps level (vaddrBase + index * level.entrySize) maps)) →
      Ends (createRecursive platform (vaddrBase + index * level.entrySize) next
          (blockMaps level (vaddrBase + index * level.entrySize) maps) allowHuge) current
        (fun child built => 4096 ∣ child ∧ child < 2 ^ 52 ∧
          ok () (built.setEntry table index (relayWord child)))
        (afterCleanup platform table fail))
    (panics : ¬ Buildable bound maps → fail .panic current) :
    Ends (createEntry platform allowHuge level (level.down.map fun next =>
        (next, fun vstart sub => createRecursive platform vstart next sub allowHuge))
        table vaddrBase maps index) current ok fail := by
  have entryBlock : Block bound level (vaddrBase + index * level.entrySize) := block.entry index
  rw [createEntry, ends_bind]
  refine .ofOption_of_total
    (fun buildable => ⟨_, subMaps_eq_some _ _ _ buildable.tidy.fits⟩) panics ?_
  intro sub selected
  obtain rfl : sub = blockMaps level (vaddrBase + index * level.entrySize) maps :=
    subMaps_eq_filter selected
  rcases chosen : blockMaps level (vaddrBase + index * level.entrySize) maps with
    _ | ⟨first, rest⟩
  · rw [ends_pure, ← TableMemory.setEntry_of_eq fresh]
    exact leaf 0 childless_zero (listEntry_empty chosen).symm
  simp only
  rw [← chosen]
  split
  · rename_i flags choice
    rw [ends_bind]
    refine .ofOption_of_total
      (fun buildable => (buildable.hugeEntry entryBlock platform.crates choice).1) panics ?_
    intro entry built
    exact leaf entry (createHugeEntry_childless built) (listEntry_huge choice built).symm
  rename_i choice
  cases step : level.down with
  | some next =>
      have inner : level ≠ .pt := by
        rintro rfl
        simp [down] at step
      have nonempty : blockMaps level (vaddrBase + index * level.entrySize) maps ≠ [] := by
        simp [chosen]
      simp only [Option.map_some, ends_bind, ends_handle]
      refine (below next step (listEntry_relay nonempty choice step)).mono ?_ ?_
      · rintro child built ⟨aligned, bounded, stored⟩
        rw [generateRelayEntry_eq platform.crates inner aligned bounded]
        exact stored
      · intro reason after failed
        cases reason with
        | panic => exact failed
        | err error => exact failed
  | none =>
      obtain rfl := down_eq_none.mp step
      have member : first ∈ blockMaps .pt (vaddrBase + index * entrySize .pt) maps := by
        simp [chosen]
      rw [Option.map_none, ends_bind]
      refine .ofOption_of_total
        (fun buildable => buildable.pageEntry entryBlock platform.crates first.2 member) panics ?_
      intro entry built
      exact leaf entry (.inl rfl) (listEntry_page chosen built).symm

/-- One iteration of the loop, given the builder of the lower tables. -/
theorem createEntry_ends (block : TableBlock bound level vaddrBase)
    (lower : LowerCreates platform allowHuge level bound)
    (loop : CreateLoop platform allowHuge level vaddrBase maps memory table news done current)
    (pending : index ∉ done) (short : done.length < 512) :
    Ends (createEntry platform allowHuge level (level.down.map fun next =>
        (next, fun vstart sub => createRecursive platform vstart next sub allowHuge))
        table vaddrBase maps index) current
      (fun _ after => ∃ more, CreateLoop platform allowHuge level vaddrBase maps memory table more
        (done ++ [index]) after)
      (fun _ _ => Buildable bound maps →
        Exhausted platform.allocator memory.history (512 * level.childCount)) := by
  apply createEntry_rule block (loop.rest index pending)
  · intro entry childless tree
    exact ⟨news, loop.storeLeaf pending childless tree⟩
  · intro next step tree
    refine (lower next step _ _ current ((block.entry index).table step)).mono ?_ ?_
    · rintro child built ⟨more, created⟩
      exact ⟨created.allocates.aligned created.mem, created.allocates.bounded created.mem,
        more ++ news, loop.storeTable pending step created tree⟩
    · intro reason after failed
      have excuse : Buildable bound maps →
          Exhausted platform.allocator memory.history (512 * level.childCount) := by
        intro buildable
        have exhausted := failed (buildable.blockMaps level _)
        rw [loop.history] at exhausted
        exact exhausted.ofChild step loop.allocates loop.count short
      cases reason with
      | panic => exact excuse
      | err error => exact excuse
  · intro unbuildable buildable
    exact absurd buildable unbuildable

/-- The empty table satisfies the invariant. -/
theorem CreateLoop.start (memory : TableMemory) (table : Nat) :
    CreateLoop platform allowHuge level vaddrBase maps
      ((memory.setFrame table fun _ => 0).record (.alloc table)) table [] []
      ((memory.setFrame table fun _ => 0).record (.alloc table)) where
  owned := Finset.mem_insert_self _ _
  history := rfl
  allocates := trivial
  count := Nat.zero_le _
  frames := by
    rw [tableFrames]
    simp only [TableMemory.record_words, TableMemory.setFrame_words_self,
      childless_zero.entryFrames, joinFrames_zero]
    rfl
  frame _ _ _ := rfl
  tree := by simp
  rest index _ := by
    rw [TableMemory.record_words, TableMemory.setFrame_words_self]

/-- The completed loop, seen from before the table was allocated. -/
theorem CreateLoop.created {after : TableMemory}
    (request : platform.allocator.allocZeroed memory.history = some table)
    (loop : CreateLoop platform allowHuge level vaddrBase maps
      ((memory.setFrame table fun _ => 0).record (.alloc table)) table news entryIndices after) :
    Created platform allowHuge level vaddrBase maps memory table (news ++ [table]) after where
  first := request
  history := by
    rw [grown_append]
    exact loop.history
  allocates := by
    have served : Allocates platform.allocator memory.history [table] := ⟨trivial, request⟩
    exact served.append loop.allocates
  count := by
    have count := loop.count
    rw [length_entryIndices] at count
    rw [List.length_append, List.length_singleton, tableCount_eq]
    omega
  frames := by
    rw [loop.frames, ← Multiset.coe_add, add_comm]
    rfl
  frame other fresh := by
    rw [List.mem_append, List.mem_singleton, not_or] at fresh
    rw [loop.frame other fresh.1 fresh.2]
    exact TableMemory.setFrame_words_of_ne _ fresh.2
  tree index := loop.tree index (mem_entryIndices index)

/-- What `create_recursive` builds, and the only reason for it to fail. -/
theorem createRecursive_ends (platform : Platform) (allowHuge : PageLevel) (bound : Nat)
    (level : PageLevel) :
    ∀ vaddrBase maps memory, TableBlock bound level vaddrBase →
      Ends (createRecursive platform vaddrBase level maps allowHuge) memory
        (fun table after => ∃ news,
          Created platform allowHuge level vaddrBase maps memory table news after)
        (fun _ _ => Buildable bound maps →
          Exhausted platform.allocator memory.history level.tableCount) := by
  induction level using downInduction with
  | step level induction =>
      intro vaddrBase maps memory block
      rw [createRecursive, descend_eq, createTable, ends_bind]
      refine (allocTable_ends platform memory).mono ?_ ?_
      · rintro table _ ⟨request, rfl⟩
        have served : Allocates platform.allocator memory.history [table] := ⟨trivial, request⟩
        rw [ends_bind]
        have loopEnds := forEach_ends (fun done current => ∃ news,
            CreateLoop platform allowHuge level vaddrBase maps
              ((memory.setFrame table fun _ => 0).record (.alloc table)) table news done current)
          ⟨[], CreateLoop.start memory table⟩ fun done index rest current split loop => by
            obtain ⟨news, loop⟩ := loop
            obtain ⟨pending, short⟩ := entryIndices_split split
            exact createEntry_ends block induction loop pending short
        refine loopEnds.mono ?_ ?_
        · rintro _ after ⟨news, loop⟩
          exact ⟨news ++ [table], loop.created request⟩
        · intro reason after failed buildable
          refine (failed buildable).after served ?_
          rw [tableCount_eq]
          rfl
      · intro reason after refused _
        refine ⟨[], trivial, ?_, refused⟩
        rw [tableCount_eq, List.length_nil]
        omega

/-! ## `create_page_table` -/

/-- Lists that can be mapped in a tree whose addresses end at `bound`. -/
structure Requestable (bound : Nat) (mapList : List MemRangeData) (flags : List PageEntryFlags) :
    Prop where
  lengths : mapList.length = flags.length
  aligned : ∀ range ∈ mapList, range.Aligned
  fits : ∀ range ∈ mapList, range.Fits
  encodable : ∀ range ∈ mapList, ∀ address < bound, range.contains address = true →
    address < 2 ^ 52

/-- The normalized lists can be built and mean what the given lists mean. -/
theorem Requestable.normalize {mapList : List MemRangeData} {flags : List PageEntryFlags}
    (requestable : Requestable bound mapList flags) (profile : Profile) (sort : UnstableSort) :
    ∃ maps' flags', normalizeMapList profile sort mapList flags = some (maps', flags') ∧
      maps'.length = flags'.length ∧ Buildable bound (maps'.zip flags') ∧
      ∀ address, lastFlags (maps'.zip flags') address = lastFlags (mapList.zip flags) address := by
  have inList : ∀ map ∈ mapList.zip flags, map.1 ∈ mapList := fun map member =>
    (List.of_mem_zip member).1
  obtain ⟨maps', flags', normalized, lengths, tidy, -, same⟩ :=
    normalizeMapList_spec profile sort 4096
      (fun map member => requestable.fits map.1 (inList map member))
      (fun map member => requestable.aligned map.1 (inList map member))
  refine ⟨maps', flags', normalized, lengths requestable.lengths, ⟨tidy, ?_⟩, same⟩
  intro map member address below covered
  have written : lastFlags (mapList.zip flags) address ≠ none := by
    rw [← same, Ne, lastFlags, LastWriter.lastWriter_eq_none_iff]
    intro uncovered
    simp [uncovered map member] at covered
  obtain ⟨result, found⟩ := Option.ne_none_iff_exists'.mp written
  obtain ⟨original, originalMember, originalCovers, -⟩ :=
    LastWriter.exists_of_lastWriter_eq_some found
  exact requestable.encodable original.1 (inList original originalMember) address below
    originalCovers

theorem Requestable.normalize_ne_none {mapList : List MemRangeData} {flags : List PageEntryFlags}
    (requestable : Requestable bound mapList flags) (profile : Profile) (sort : UnstableSort) :
    normalizeMapList profile sort mapList flags ≠ none := by
  obtain ⟨maps', flags', normalized, -⟩ := requestable.normalize profile sort
  simp [normalized]

/-- Normalization leaves lists of one length that can be encoded. -/
theorem Requestable.buildable {mapList : List MemRangeData} {flags : List PageEntryFlags}
    {profile : Profile} {sort : UnstableSort} {lists : List MemRangeData × List PageEntryFlags}
    (requestable : Requestable bound mapList flags)
    (normalized : normalizeMapList profile sort mapList flags = some lists) :
    lists.1.length = lists.2.length ∧ Buildable bound (lists.1.zip lists.2) := by
  obtain ⟨maps', flags', same, lengths, buildable, -⟩ := requestable.normalize profile sort
  obtain rfl := Option.some.inj (normalized.symm.trans same)
  exact ⟨lengths, buildable⟩

/-- The outcome of a successful `create_page_table`. -/
structure CreatedTop (platform : Platform) (mapList : List MemRangeData)
    (flags : List PageEntryFlags) (allowHuge target : PageLevel) (memory : TableMemory)
    (top : TopPageTable) (news : List Nat) (after : TableMemory) : Prop where
  lengths : mapList.length = flags.length
  aligned : ∀ range ∈ mapList, range.Aligned
  normalized : normalizeMapList platform.profile platform.sort mapList flags =
    some top.memoryMapping
  created : Created platform allowHuge target 0 (top.memoryMapping.1.zip top.memoryMapping.2)
    memory top.phys news after
  kind : target = .pml5 ∨ target = .pml4
  level : top.level = target
  low : top.phys < 2 ^ 47
  virt : top.virt = top.phys
  fragmentation : top.pageFragmentationLevel = 0

theorem tableBlock_top (target : PageLevel) : TableBlock (512 * target.entrySize) target 0 where
  aligned := Nat.dvd_zero _
  bounded := by omega

/-- The test of the ranges in `create_page_table`. -/
theorem any_unaligned_iff {mapList : List MemRangeData} :
    (mapList.any fun map => decide (¬ 4096 ∣ map.len ∨ ¬ 4096 ∣ map.start)) = true ↔
      ¬ ∀ range ∈ mapList, range.Aligned := by
  simp only [List.any_eq_true, decide_eq_true_eq, MemRangeData.Aligned, not_forall, exists_prop,
    not_and_or, or_comm]

/-- The normalized lists are built, and the frame of the top table is also its virtual address. -/
theorem createTop_ends (platform : Platform) {mapList : List MemRangeData}
    {flags : List PageEntryFlags} (allowHugeAt : PageLevel) {target : PageLevel}
    (memory : TableMemory) {maps' : List MemRangeData} {flags' : List PageEntryFlags}
    (lengths : mapList.length = flags.length) (aligned : ∀ range ∈ mapList, range.Aligned)
    (normalized : normalizeMapList platform.profile platform.sort mapList flags =
      some (maps', flags')) (kind : target = .pml5 ∨ target = .pml4) :
    Ends (do
        let tableAddr ← createRecursive platform 0 target (maps'.zip flags') allowHugeAt
        let phys ← ofOption .panic (platform.crates.physAddrNew tableAddr)
        let virt ← ofOption .panic (platform.crates.virtAddrNew phys)
        return { phys, virt, level := target, pageFragmentationLevel := 0
                 memoryMapping := (maps', flags') }) memory
      (fun top after => ∃ news,
        CreatedTop platform mapList flags allowHugeAt target memory top news after)
      (fun _ _ => Requestable (512 * target.entrySize) mapList flags →
        Exhausted platform.allocator memory.history target.tableCount ∨
          ∃ frame, platform.allocator.allocZeroed memory.history = some frame ∧
            2 ^ 47 ≤ frame) := by
  rw [ends_bind]
  refine (createRecursive_ends platform allowHugeAt _ target 0 (maps'.zip flags') memory
    (tableBlock_top target)).mono ?_ ?_
  · rintro table after ⟨news, created⟩
    have bounded := created.allocates.bounded created.mem
    rw [platform.crates.physAddrNew_eq table bounded]
    simp only [ends_bind, ends_ofOption, Option.some.injEq, forall_eq', reduceCtorEq,
      false_implies, and_true]
    by_cases low : table < 2 ^ 47
    · rw [platform.crates.virtAddrNew_eq table low]
      simp only [ends_pure, Option.some.injEq, forall_eq', reduceCtorEq, false_implies, and_true]
      exact ⟨news, ⟨lengths, aligned, normalized, created, kind, rfl, low, rfl, rfl⟩⟩
    · rw [platform.crates.virtAddrNew_nonCanonical table (by omega) (by omega)]
      simp only [reduceCtorEq, false_implies, forall_const, true_and]
      exact fun _ => .inr ⟨table, created.first, by omega⟩
  · intro reason after failed requestable
    exact .inl (failed (requestable.buildable normalized).2)

theorem createPageTable_ends (platform : Platform) (mapList : List MemRangeData)
    (flags : List PageEntryFlags) (allowHugeAt target : PageLevel) (memory : TableMemory) :
    Ends (createPageTable platform mapList flags allowHugeAt target) memory
      (fun top after => ∃ news,
        CreatedTop platform mapList flags allowHugeAt target memory top news after)
      (fun _ _ => Requestable (512 * target.entrySize) mapList flags →
        target = .pml5 ∨ target = .pml4 →
        Exhausted platform.allocator memory.history target.tableCount ∨
          ∃ frame, platform.allocator.allocZeroed memory.history = some frame ∧
            2 ^ 47 ≤ frame) := by
  rw [createPageTable]
  split
  · rename_i different
    exact fun requestable => absurd requestable.lengths different
  rename_i lengths
  split
  · rename_i unaligned
    exact fun requestable => absurd requestable.aligned (any_unaligned_iff.mp unaligned)
  rename_i aligned
  rw [any_unaligned_iff, not_not] at aligned
  rw [ends_bind, ends_ofOption]
  refine ⟨fun normal normalized => ?_, fun panic requestable => ?_⟩
  · simp only
    split
    · rename_i kind
      exact (createTop_ends platform allowHugeAt memory (Decidable.not_not.mp lengths)
        aligned normalized kind).mono (fun _ _ top => top)
          fun _ _ failed requestable _ => failed requestable
    · rename_i other
      exact fun _ kind => absurd kind other
  · exact absurd panic (requestable.normalize_ne_none _ _)

/-- `create_page_table` succeeds on lists it can map, with enough frames and a low top table. -/
theorem createPageTable_run (platform : Platform) {mapList : List MemRangeData}
    {flags : List PageEntryFlags} (allowHugeAt : PageLevel) {target : PageLevel}
    {memory : TableMemory} (requestable : Requestable (512 * target.entrySize) mapList flags)
    (kind : target = .pml5 ∨ target = .pml4)
    (served : ¬ Exhausted platform.allocator memory.history target.tableCount)
    (canonical : ∀ frame, platform.allocator.allocZeroed memory.history = some frame →
      frame < 2 ^ 47) :
    ∃ top after news,
      createPageTable platform mapList flags allowHugeAt target memory = (.ok top, after) ∧
      CreatedTop platform mapList flags allowHugeAt target memory top news after := by
  obtain ⟨top, after, run, news, made⟩ :=
    (createPageTable_ends platform mapList flags allowHugeAt target memory).exists_ok
      fun _ _ failed => by
        rcases failed requestable kind with exhausted | ⟨frame, request, high⟩
        · exact served exhausted
        · exact absurd (canonical frame request) (by omega)
  exact ⟨top, after, news, run, made⟩

end Okots
