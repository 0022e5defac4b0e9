import Okots.Paging.Release
import Okots.Paging.Shortage

/-!
# Refused frames

What the paging code leaves behind when the allocator refuses a frame.  `create_recursive` returns
the tables on the way to the refused one and loses those it has finished.  `update_recursive` keeps
the entries it has already written and loses the tables it has detached.  An update that fails
changes nothing exactly when the refusal is harmless in the sense of the two trees.
-/

namespace Okots

open StateExec Exec PageLevel PageTree

/-! ## Tables and frames -/

theorem card_joinFrames {ι : Type} [Fintype ι] (frames : ι → Multiset Nat) :
    Multiset.card (joinFrames frames) = ∑ index, Multiset.card (frames index) := by
  rw [joinFrames, Multiset.card_sum]

/-- Every table of a tree has a frame. -/
theorem card_entryFrames (words : TableWords) (level : PageLevel) :
    ∀ entry, Multiset.card (entryFrames words level entry) =
      (entryTree words level entry).tables := by
  induction level using downInduction with
  | step level induction =>
      intro entry
      rcases relays_or_childless level entry with ⟨next, relays⟩ | childless
      · rw [relays.entryFrames, relays.entryTree, tableFrames, Multiset.card_add,
          Multiset.card_singleton, card_joinFrames, PageTree.tables]
        refine congrArg (1 + ·) (Finset.sum_congr rfl fun index _ => ?_)
        exact induction next relays.down _
      · rw [childless.entryFrames, childless.entryTree, tables_leafTree, Multiset.card_zero]

theorem card_tableFrames (words : TableWords) (level : PageLevel) (table : Nat) :
    Multiset.card (tableFrames words level table) =
      1 + ∑ index, (tableTree words level table index).tables := by
  rw [tableFrames, Multiset.card_add, Multiset.card_singleton, card_joinFrames]
  exact congrArg (1 + ·) (Finset.sum_congr rfl fun index _ => card_entryFrames words level _)

theorem sorted_entryIndices : entryIndices.Pairwise (· < ·) := by
  unfold entryIndices
  exact List.pairwise_lt_finRange 512

/-- The entries visited before the current one are those with a smaller index. -/
theorem mem_done_iff {done rest : List (Fin 512)} {index : Fin 512}
    (split : entryIndices = done ++ index :: rest) {other : Fin 512} :
    other ∈ done ↔ other < index := by
  have sorted : (done ++ index :: rest).Pairwise (· < ·) := split ▸ sorted_entryIndices
  obtain ⟨-, later, before⟩ := List.pairwise_append.mp sorted
  constructor
  · intro member
    exact before other member index List.mem_cons_self
  · intro less
    have member : other ∈ done ++ index :: rest := split ▸ mem_entryIndices other
    rcases List.mem_append.mp member with earlier | here
    · exact earlier
    · rcases List.mem_cons.mp here with rfl | after
      · exact absurd less (lt_irrefl _)
      · exact absurd less (lt_asymm ((List.pairwise_cons.mp later).1 other after))

theorem sum_done {done rest : List (Fin 512)} {index : Fin 512}
    (split : entryIndices = done ++ index :: rest) (count : Fin 512 → Nat) :
    (done.map count).sum = ∑ earlier ∈ Finset.Iio index, count earlier := by
  have nodup : done.Nodup := (List.nodup_append.mp (split ▸ nodup_entryIndices)).1
  rw [← List.sum_toFinset count nodup]
  refine Finset.sum_congr (Finset.ext fun earlier => ?_) fun _ _ => rfl
  rw [List.mem_toFinset, Finset.mem_Iio, mem_done_iff split]

theorem sum_entryIndices (count : Fin 512 → Nat) :
    (entryIndices.map count).sum = ∑ index, count index := by
  rw [← List.sum_toFinset count nodup_entryIndices]
  refine Finset.sum_congr (Finset.ext fun index => ?_) fun _ _ => rfl
  simp [mem_entryIndices]

/-! ## Failed creations -/

/-- The builder was served `news` and refused the next frame; it has returned the frames `path` and
lost the frames `lost`. -/
structure CreateStopped (platform : Platform) (allowHuge level : PageLevel) (vaddrBase : Nat)
    (maps : List Mapping) (memory : TableMemory) (news path : List Nat) (lost : Multiset Nat)
    (after : TableMemory) : Prop where
  history : after.history = shrunk (grown memory.history news) path
  allocates : Allocates platform.allocator memory.history news
  refused : platform.allocator.allocZeroed (grown memory.history news) = none
  short : news.length < 1 + ∑ index,
    (listTable platform.crates allowHuge level vaddrBase maps index).tables
  frames : (path : Multiset Nat) + lost = news
  frame : ∀ other ∈ memory.live, after.words other = memory.words other
  clean : lost = 0 ↔ NoneFinished news.length
    (.relay 7 (listTable platform.crates allowHuge level vaddrBase maps))

/-- How `create_recursive` fails: it panics only on lists that cannot be encoded. -/
def CreateFailed (platform : Platform) (allowHuge : PageLevel) (bound : Nat) (level : PageLevel)
    (vaddrBase : Nat) (maps : List Mapping) (memory : TableMemory) :
    Fault → TableMemory → Prop
  | .panic, _ => ¬ Buildable bound maps
  | .err _, after => ∃ news path lost,
      CreateStopped platform allowHuge level vaddrBase maps memory news path lost after

variable {platform : Platform} {allowHuge level : PageLevel} {bound vaddrBase : Nat}
  {maps : List Mapping} {memory before current after : TableMemory} {table : Nat}
  {news : List Nat} {tables : List (Nat × PageLevel)} {done rest : List (Fin 512)}
  {index : Fin 512}

theorem Created.length (created : Created platform allowHuge level vaddrBase maps memory table news
    after) :
    news.length = 1 + ∑ index,
      (listTable platform.crates allowHuge level vaddrBase maps index).tables := by
  have counted := card_tableFrames after.words level table
  rw [created.frames, Multiset.coe_card] at counted
  rw [counted]
  refine congrArg (1 + ·) (Finset.sum_congr rfl fun index _ => ?_)
  rw [created.tree]

/-- The loop has been served the frames of the entries it has written. -/
theorem CreateLoop.length (loop : CreateLoop platform allowHuge level vaddrBase maps memory table
    news done current) (split : entryIndices = done ++ index :: rest) :
    news.length = ∑ earlier ∈ Finset.Iio index,
      (listTable platform.crates allowHuge level vaddrBase maps earlier).tables := by
  have counted := card_tableFrames current.words level table
  rw [loop.frames, Multiset.card_add, Multiset.card_singleton, Multiset.coe_card] at counted
  rw [Nat.add_left_cancel counted, ← Finset.sum_subset (Finset.subset_univ (Finset.Iio index))]
  · refine Finset.sum_congr rfl fun earlier member => ?_
    rw [loop.tree earlier ((mem_done_iff split).mpr (Finset.mem_Iio.mp member))]
  · intro later _ outside
    rw [Finset.mem_Iio, ← mem_done_iff split] at outside
    rw [tableTree, loop.rest later outside, childless_zero.entryTree, tables_leafTree]

/-- A refusal below an entry: the finished entries are lost and the table is returned. -/
theorem CreateStopped.under {next : PageLevel} {vstart : Nat} {sub : List Mapping}
    {more path : List Nat} {lost : Multiset Nat} (contents : Fin 512 → BitVec 64)
    (request : platform.allocator.allocZeroed memory.history = some table)
    (loop : CreateLoop platform allowHuge level vaddrBase maps
      ((memory.setFrame table fun _ => 0).record (.alloc table)) table news done current)
    (split : entryIndices = done ++ index :: rest)
    (tree : listTable platform.crates allowHuge level vaddrBase maps index =
      .relay 7 (listTable platform.crates allowHuge next vstart sub))
    (stopped : CreateStopped platform allowHuge next vstart sub current more path lost after) :
    CreateStopped platform allowHuge level vaddrBase maps memory (more ++ (news ++ [table]))
      (table :: path) (↑news + lost) ((after.setFrame table contents).record (.dealloc table)) := by
  have served : Allocates platform.allocator memory.history [table] := ⟨trivial, request⟩
  have grows : current.history = grown memory.history (news ++ [table]) := by
    rw [grown_append]
    exact loop.history
  have length := loop.length split
  have inside : more.length <
      (listTable platform.crates allowHuge level vaddrBase maps index).tables := by
    rw [tree, PageTree.tables]
    exact stopped.short
  have total : (more ++ (news ++ [table])).length = ∑ earlier ∈ Finset.Iio index,
      (listTable platform.crates allowHuge level vaddrBase maps earlier).tables +
        more.length + 1 := by
    simp only [List.length_append, List.length_singleton, length]
    omega
  refine ⟨?_, ?_, ?_, ?_, ?_, ?_, ?_⟩
  · rw [grown_append, ← grows]
    exact congrArg (FrameEvent.dealloc table :: ·) stopped.history
  · refine (served.append loop.allocates).append ?_
    rw [← grows]
    exact stopped.allocates
  · rw [grown_append, ← grows]
    exact stopped.refused
  · have bound := request_lt (fun index =>
      (listTable platform.crates allowHuge level vaddrBase maps index).tables) inside
    omega
  · rw [← Multiset.coe_add, ← Multiset.coe_add, ← stopped.frames, ← Multiset.cons_coe,
      ← Multiset.singleton_add, Multiset.coe_singleton]
    abel
  · intro other live
    have distinct : other ≠ table := fun same =>
      platform.allocator.fresh _ _ request (same ▸ live)
    have kept : other ∉ news := fun member =>
      loop.allocates.fresh member (Finset.mem_insert_of_mem live)
    have held : other ∈ current.live := by
      rw [TableMemory.live, grows, mem_liveFrames_grown]
      exact .inr live
    rw [TableMemory.record_words, TableMemory.setFrame_words_of_ne _ distinct,
      stopped.frame other held, loop.frame other kept distinct]
    exact TableMemory.setFrame_words_of_ne _ distinct
  · rw [total, noneFinished_relay_iff inside, ← length, tree, ← stopped.clean,
      add_eq_zero, Multiset.coe_eq_zero, List.length_eq_zero_iff]

/-- What `create_recursive` does at the next level when it fails. -/
def LowerCreateFails (platform : Platform) (allowHuge level : PageLevel) (bound : Nat) : Prop :=
  ∀ next, level.down = some next → ∀ vstart sub memory, TableBlock bound next vstart →
    Ends (createRecursive platform vstart next sub allowHuge) memory (fun _ _ => True)
      (CreateFailed platform allowHuge bound next vstart sub memory)

/-- One iteration of the loop that fails. -/
theorem createEntry_fails (block : TableBlock bound level vaddrBase)
    (lower : LowerCreateFails platform allowHuge level bound)
    (request : platform.allocator.allocZeroed memory.history = some table)
    (loop : CreateLoop platform allowHuge level vaddrBase maps
      ((memory.setFrame table fun _ => 0).record (.alloc table)) table news done current)
    (split : entryIndices = done ++ index :: rest) :
    Ends (createEntry platform allowHuge level (level.down.map fun next =>
        (next, fun vstart sub => createRecursive platform vstart next sub allowHuge))
        table vaddrBase maps index) current (fun _ _ => True)
      (CreateFailed platform allowHuge bound level vaddrBase maps memory) := by
  apply createEntry_rule block (loop.rest index (entryIndices_split split).1)
  · exact fun _ _ _ => trivial
  · intro next step tree
    have nextBlock := (block.entry index).table step
    refine ((createRecursive_ends platform allowHuge bound next _ _ current nextBlock).and
      (lower next step _ _ current nextBlock)).mono ?_ ?_
    · rintro child built ⟨⟨more, created⟩, -⟩
      exact ⟨created.allocates.aligned created.mem, created.allocates.bounded created.mem, trivial⟩
    · rintro reason stopped ⟨-, failed⟩
      cases reason with
      | panic => exact fun buildable => failed (buildable.blockMaps level _)
      | err error =>
          obtain ⟨more, path, lost, stop⟩ := failed
          exact ⟨_, _, _, stop.under _ request loop split tree⟩
  · exact id

/-- What a failing `create_recursive` leaves behind. -/
theorem createRecursive_fails (platform : Platform) (allowHuge : PageLevel) (bound : Nat)
    (level : PageLevel) :
    ∀ vaddrBase maps memory, TableBlock bound level vaddrBase →
      Ends (createRecursive platform vaddrBase level maps allowHuge) memory (fun _ _ => True)
        (CreateFailed platform allowHuge bound level vaddrBase maps memory) := by
  induction level using downInduction with
  | step level induction =>
      intro vaddrBase maps memory block
      rw [createRecursive, descend_eq, createTable, ends_bind]
      cases request : platform.allocator.allocZeroed memory.history with
      | none =>
          have refused : allocTable platform memory =
              raise .allocationFailed "Allocation failed" memory := by
            rw [allocTable, request]
          rw [Ends, refused]
          refine ⟨[], [], 0, rfl, trivial, request, ?_, rfl, fun _ _ => rfl, ?_⟩
          · rw [List.length_nil]
            omega
          · exact ⟨fun _ => .refused _ _, fun _ => rfl⟩
      | some table =>
          have served : allocTable platform memory =
              (.ok table, (memory.setFrame table fun _ => 0).record (.alloc table)) := by
            rw [allocTable, request]
          rw [ends_of_run served, ends_bind]
          refine (forEach_ends (fun done current => ∃ news,
              CreateLoop platform allowHuge level vaddrBase maps
                ((memory.setFrame table fun _ => 0).record (.alloc table)) table news done current)
            ⟨[], CreateLoop.start memory table⟩ fun done index rest current split loop => ?_).mono
              (fun _ _ _ => trivial) fun _ _ failed => failed
          obtain ⟨news, loop⟩ := loop
          obtain ⟨pending, short⟩ := entryIndices_split split
          refine ((createEntry_ends block (fun next _ => createRecursive_ends platform allowHuge
            bound next) loop pending short).and
              (createEntry_fails block induction request loop split)).mono ?_ ?_
          · exact fun _ _ both => both.1
          · exact fun _ _ both => both.2

/-- The checks that `create_page_table` makes before its first allocation. -/
structure Accepted (mapList : List MemRangeData) (flags : List PageEntryFlags)
    (target : PageLevel) : Prop where
  lengths : mapList.length = flags.length
  aligned : ∀ range ∈ mapList, range.Aligned
  kind : target = .pml5 ∨ target = .pml4

/-- How `create_page_table` fails: it turns the request down before its first allocation, or it is
refused a frame.  It panics only on lists that cannot be encoded and on a top table outside the
lower half. -/
def BuildFailed (platform : Platform) (mapList : List MemRangeData) (flags : List PageEntryFlags)
    (allowHuge target : PageLevel) (memory : TableMemory) : Fault → TableMemory → Prop
  | .panic, _ => Requestable (512 * target.entrySize) mapList flags →
      ∃ frame, platform.allocator.allocZeroed memory.history = some frame ∧ 2 ^ 47 ≤ frame
  | .err _, after =>
      after = memory ∧ ¬ Accepted mapList flags target ∨
      Accepted mapList flags target ∧ ∃ lists news path lost,
        normalizeMapList platform.profile platform.sort mapList flags = some lists ∧
        CreateStopped platform allowHuge target 0 (lists.1.zip lists.2) memory news path lost after

/-- What a failing `create_page_table` leaves behind. -/
theorem createPageTable_fails (platform : Platform) (mapList : List MemRangeData)
    (flags : List PageEntryFlags) (allowHugeAt target : PageLevel) (memory : TableMemory) :
    Ends (createPageTable platform mapList flags allowHugeAt target) memory (fun _ _ => True)
      (BuildFailed platform mapList flags allowHugeAt target memory) := by
  rw [createPageTable]
  split
  · rename_i different
    exact .inl ⟨rfl, fun accepted => absurd accepted.lengths different⟩
  rename_i lengths
  split
  · rename_i unaligned
    exact .inl ⟨rfl, fun accepted => absurd accepted.aligned (any_unaligned_iff.mp unaligned)⟩
  rename_i aligned
  rw [any_unaligned_iff, not_not] at aligned
  rw [ends_bind, ends_ofOption]
  refine ⟨fun lists normalized => ?_, fun panic requestable => ?_⟩
  · simp only
    split
    · rename_i kind
      rw [ends_bind]
      refine ((createRecursive_ends platform allowHugeAt _ target 0 _ memory
        (tableBlock_top target)).and (createRecursive_fails platform allowHugeAt _ target 0 _ memory
          (tableBlock_top target))).mono ?_ ?_
      · rintro table after ⟨⟨news, created⟩, -⟩
        have bounded := created.allocates.bounded created.mem
        rw [platform.crates.physAddrNew_eq table bounded]
        simp only [ends_bind, ends_ofOption, ends_pure, Option.some.injEq, forall_eq',
          reduceCtorEq, false_implies, and_true, implies_true, true_and]
        intro refused _
        refine ⟨table, created.first, ?_⟩
        by_contra low
        rw [platform.crates.virtAddrNew_eq table (by omega)] at refused
        cases refused
      · rintro reason after ⟨-, failed⟩
        cases reason with
        | panic => exact fun requestable => absurd (requestable.buildable normalized).2 failed
        | err error =>
            obtain ⟨news, path, lost, stopped⟩ := failed
            exact .inr ⟨⟨Decidable.not_not.mp lengths, aligned, kind⟩, lists, news, path, lost,
              normalized, stopped⟩
    · rename_i other
      exact .inl ⟨rfl, fun accepted => other accepted.kind⟩
  · exact absurd panic (requestable.normalize_ne_none _ _)

/-! ## Failed updates -/

/-- The update was served `news` and refused the next frame; it has returned the frames `path`, and
the frames `stray` are neither in the tree nor free.  It has changed nothing exactly when the
refusal is harmless. -/
structure UpdateStopped (platform : Platform) (allowHuge level : PageLevel) (vaddrBase : Nat)
    (maps : List Mapping) (before : TableMemory) (table : Nat) (news path : List Nat)
    (stray : Multiset Nat) (after : TableMemory) : Prop where
  history : after.history = shrunk (grown before.history news) path
  allocates : Allocates platform.allocator before.history news
  refused : platform.allocator.allocZeroed (grown before.history news) = none
  short : news.length < ∑ index, missing (tableTree before.words level table index)
    (listTable platform.crates allowHuge level vaddrBase maps index)
  frames : tableFrames after.words level table + (stray + ↑path) =
    tableFrames before.words level table + ↑news
  frame : ∀ other ∈ before.live, other ∉ tableFrames before.words level table →
    after.words other = before.words other
  harmless : ∀ rights, (∀ index, SameWalk level rights (tableTree after.words level table index)
      (tableTree before.words level table index)) ∧ stray = 0 ↔
    Harmless level rights news.length (tableTree before.words level table)
      (listTable platform.crates allowHuge level vaddrBase maps)

/-- How `update_recursive` fails: it panics only on lists that cannot be encoded. -/
def UpdateFailed (platform : Platform) (allowHuge : PageLevel) (bound : Nat) (level : PageLevel)
    (vaddrBase : Nat) (maps : List Mapping) (before : TableMemory) (table : Nat) :
    Fault → TableMemory → Prop
  | .panic, _ => ¬ Buildable bound maps
  | .err _, after => ∃ news path stray,
      UpdateStopped platform allowHuge level vaddrBase maps before table news path stray after

namespace UpdateLoop

variable (loop : UpdateLoop platform allowHuge level vaddrBase maps before table news tables done
  current)

include loop

theorem tree_pending (pending : index ∉ done) :
    tableTree current.words level table index = tableTree before.words level table index := by
  obtain ⟨same, below⟩ := loop.rest index pending
  rw [tableTree, same, (entry_congr level _ below).2, tableTree]

/-- A visited entry translates as the list, so it is unchanged when the old entry does so too. -/
theorem sameWalk_visited (visited : index ∈ done) {rights : Rights} :
    SameWalk level rights (tableTree current.words level table index)
        (tableTree before.words level table index) ↔
      SameWalk level rights (tableTree before.words level table index)
        (listTable platform.crates allowHuge level vaddrBase maps index) := by
  rw [sameWalk_of_erasePat (loop.tree index visited)]
  exact ⟨fun same vaddr => (same vaddr).symm, fun same vaddr => (same vaddr).symm⟩

/-- The detached tables are those that only the old entries have. -/
theorem card_detached (split : entryIndices = done ++ index :: rest)
    (length : news.length = earlierRequests (tableTree before.words level table)
      (listTable platform.crates allowHuge level vaddrBase maps) index) :
    Multiset.card (detachedFrames current.words tables) = ∑ earlier ∈ Finset.Iio index,
      missing (listTable platform.crates allowHuge level vaddrBase maps earlier)
        (tableTree before.words level table earlier) := by
  set old := tableTree before.words level table
  set new := listTable platform.crates allowHuge level vaddrBase maps
  have counted := congrArg Multiset.card loop.frames
  rw [Multiset.card_add, Multiset.card_add, card_tableFrames, card_tableFrames, Multiset.coe_card,
    length, earlierRequests, ← Finset.sum_add_sum_compl (Finset.Iio index),
    ← Finset.sum_add_sum_compl (Finset.Iio index) fun index => (old index).tables] at counted
  have visited : ∑ earlier ∈ Finset.Iio index,
      (tableTree current.words level table earlier).tables =
        ∑ earlier ∈ Finset.Iio index, (new earlier).tables := by
    refine Finset.sum_congr rfl fun earlier member => ?_
    rw [Finset.mem_Iio, ← mem_done_iff split] at member
    rw [← tables_erasePat _ level, loop.tree earlier member, tables_erasePat]
  have pending : ∑ later ∈ (Finset.Iio index)ᶜ, (tableTree current.words level table later).tables =
      ∑ later ∈ (Finset.Iio index)ᶜ, (old later).tables := by
    refine Finset.sum_congr rfl fun later member => ?_
    rw [Finset.mem_compl, Finset.mem_Iio, ← mem_done_iff split] at member
    rw [loop.tree_pending member]
  have balanced := Finset.sum_congr (rfl : Finset.Iio index = _) fun earlier _ =>
    tables_add_missing (old earlier) (new earlier)
  rw [Finset.sum_add_distrib, Finset.sum_add_distrib] at balanced
  omega

/-- No table is detached when the list needs all tables of the visited entries. -/
theorem detached_eq_zero_iff (split : entryIndices = done ++ index :: rest)
    (length : news.length = earlierRequests (tableTree before.words level table)
      (listTable platform.crates allowHuge level vaddrBase maps) index) :
    (∀ earlier < index, missing (listTable platform.crates allowHuge level vaddrBase maps earlier)
      (tableTree before.words level table earlier) = 0) ↔
      detachedFrames current.words tables = 0 := by
  rw [← Multiset.card_eq_zero, loop.card_detached split length, Finset.sum_eq_zero_iff]
  simp only [Finset.mem_Iio]

/-- After a change below the current entry, the whole table translates as before the loop exactly
when the visited entries and the current one do. -/
theorem sameWalk_iff (split : entryIndices = done ++ index :: rest) {rights : Rights}
    (unchanged : ∀ other ≠ index,
      tableTree after.words level table other = tableTree current.words level table other) :
    (∀ other, SameWalk level rights (tableTree after.words level table other)
        (tableTree before.words level table other)) ↔
      (∀ earlier < index, SameWalk level rights (tableTree before.words level table earlier)
        (listTable platform.crates allowHuge level vaddrBase maps earlier)) ∧
      SameWalk level rights (tableTree after.words level table index)
        (tableTree before.words level table index) := by
  constructor
  · intro same
    refine ⟨fun earlier less => ?_, same index⟩
    have visited := same earlier
    rw [unchanged earlier (ne_of_lt less)] at visited
    exact (loop.sameWalk_visited ((mem_done_iff split).mpr less)).mp visited
  · rintro ⟨visited, here⟩ other
    rcases lt_trichotomy other index with less | rfl | more
    · rw [unchanged other (ne_of_lt less)]
      exact (loop.sameWalk_visited ((mem_done_iff split).mpr less)).mpr (visited other less)
    · exact here
    · have pending : other ∉ done := fun member => lt_asymm more ((mem_done_iff split).mp member)
      rw [unchanged other (ne_of_gt more), loop.tree_pending pending]
      exact fun _ => rfl

/-- A refusal below the current entry, which is not written any more. -/
theorem stop (separated : Separated before level table)
    (split : entryIndices = done ++ index :: rest)
    (length : news.length = earlierRequests (tableTree before.words level table)
      (listTable platform.crates allowHuge level vaddrBase maps) index)
    {more path : List Nat} {stray : Multiset Nat}
    (replaced : EntryReplaced level current after table index)
    (entry : after.words table index = current.words table index)
    (history : after.history = shrunk (grown current.history more) path)
    (allocates : Allocates platform.allocator current.history more)
    (refused : platform.allocator.allocZeroed (grown current.history more) = none)
    (inside : more.length < missing (tableTree before.words level table index)
      (listTable platform.crates allowHuge level vaddrBase maps index))
    (balance : entryFrames after.words level (current.words table index) + (stray + ↑path) =
      entryFrames current.words level (current.words table index) + ↑more)
    (decides : ∀ rights, Harmless level rights
        (earlierRequests (tableTree before.words level table)
          (listTable platform.crates allowHuge level vaddrBase maps) index + more.length)
        (tableTree before.words level table)
        (listTable platform.crates allowHuge level vaddrBase maps) ↔
      (∀ earlier < index, Neutral level rights (tableTree before.words level table earlier)
        (listTable platform.crates allowHuge level vaddrBase maps earlier)) ∧
      SameWalk level rights (tableTree after.words level table index)
        (tableTree before.words level table index) ∧ stray = 0) :
    UpdateStopped platform allowHuge level vaddrBase maps before table (more ++ news) path
      (detachedFrames current.words tables + stray) after := by
  have total : (more ++ news).length = earlierRequests (tableTree before.words level table)
      (listTable platform.crates allowHuge level vaddrBase maps) index + more.length := by
    rw [List.length_append, length, add_comm]
  refine ⟨?_, ?_, ?_, ?_, ?_, fun other => loop.frame_replaced replaced, ?_⟩
  · rw [grown_append, ← loop.history]
    exact history
  · refine loop.allocates.append ?_
    rw [← loop.history]
    exact allocates
  · rw [grown_append, ← loop.history]
    exact refused
  · rw [total]
    exact request_lt (fun index => missing (tableTree before.words level table index)
      (listTable platform.crates allowHuge level vaddrBase maps index)) inside
  · rw [add_assoc]
    exact loop.frames_replaced separated replaced (entry.symm ▸ balance)
  · intro rights
    obtain ⟨-, unchanged⟩ := table_exchange index replaced.others fun other distinct =>
      replaced.entry (loop.separated separated) distinct
    rw [total, decides, loop.sameWalk_iff split unchanged, add_eq_zero,
      ← loop.detached_eq_zero_iff split length]
    constructor
    · rintro ⟨⟨visited, here⟩, kept, none⟩
      exact ⟨fun earlier less => ⟨visited earlier less, kept earlier less⟩, here, none⟩
    · rintro ⟨neutral, here, none⟩
      exact ⟨⟨fun earlier less => (neutral earlier less).walk, here⟩,
        fun earlier less => (neutral earlier less).kept, none⟩

/-- A refusal in the creation of a tree for an entry without a table. -/
theorem stopCreate (separated : Separated before level table)
    (split : entryIndices = done ++ index :: rest)
    (length : news.length = earlierRequests (tableTree before.words level table)
      (listTable platform.crates allowHuge level vaddrBase maps) index)
    {next : PageLevel} {vstart : Nat} {sub : List Mapping} {more path : List Nat}
    {lost : Multiset Nat} (childless : Childless level (current.words table index))
    (tree : listTable platform.crates allowHuge level vaddrBase maps index =
      .relay 7 (listTable platform.crates allowHuge next vstart sub))
    (stopped : CreateStopped platform allowHuge next vstart sub current more path lost after) :
    UpdateStopped platform allowHuge level vaddrBase maps before table (more ++ news) path
      (detachedFrames current.words tables + lost) after := by
  have now := loop.separated separated
  have pending := (entryIndices_split split).1
  have kept : after.words table = current.words table :=
    stopped.frame table (now.live table (mem_tableFrames.mpr (.inl rfl)))
  have old : tableTree before.words level table index = leafTree (current.words table index) := by
    rw [← loop.tree_pending pending, tableTree, childless.entryTree]
  have plain : (tableTree before.words level table index).tables = 0 := by
    rw [old, tables_leafTree]
  have inside : more.length <
      (listTable platform.crates allowHuge level vaddrBase maps index).tables := by
    rw [tree, PageTree.tables]
    exact stopped.short
  refine loop.stop separated split length ⟨fun _ _ => by rw [kept], fun held live _ _ =>
    stopped.frame held live⟩ (by rw [kept]) stopped.history stopped.allocates stopped.refused ?_ ?_
    fun rights => ?_
  · rwa [missing_of_tables_eq_zero plain]
  · rw [childless.entryFrames, childless.entryFrames, zero_add, zero_add, add_comm, stopped.frames]
  · have same : SameWalk level rights (tableTree after.words level table index)
        (tableTree before.words level table index) := by
      rw [old, tableTree, kept, childless.entryTree]
      exact fun _ => rfl
    rw [harmless_create_iff plain inside, tree, ← stopped.clean]
    exact and_congr_right fun _ => (and_iff_right same).symm

/-- A refusal in the update of the table below an entry. -/
theorem stopUpdate (separated : Separated before level table)
    (split : entryIndices = done ++ index :: rest)
    (length : news.length = earlierRequests (tableTree before.words level table)
      (listTable platform.crates allowHuge level vaddrBase maps) index)
    {next : PageLevel} {vstart : Nat} {sub : List Mapping} {more path : List Nat}
    {stray : Multiset Nat} (relays : Relays level (current.words table index) next)
    (tree : listTable platform.crates allowHuge level vaddrBase maps index =
      .relay 7 (listTable platform.crates allowHuge next vstart sub))
    (stopped : UpdateStopped platform allowHuge next vstart sub current
      (tableBase (current.words table index)) more path stray after) :
    UpdateStopped platform allowHuge level vaddrBase maps before table (more ++ news) path
      (detachedFrames current.words tables + stray) after := by
  have now := loop.separated separated
  have pending := (entryIndices_split split).1
  have outside : ∀ held ∈ current.live,
      held ∉ entryFrames current.words level (current.words table index) →
      after.words held = current.words held := by
    intro held live apart
    rw [relays.entryFrames] at apart
    exact stopped.frame held live apart
  have kept : after.words table = current.words table :=
    outside table (now.live table (mem_tableFrames.mpr (.inl rfl))) fun member =>
      now.entry_ne member rfl
  have old : tableTree before.words level table index = .relay
      (current.words table index &&& ~~~addrMask)
      (tableTree current.words next (tableBase (current.words table index))) := by
    rw [← loop.tree_pending pending, tableTree, relays.entryTree]
  refine loop.stop separated split length ⟨fun _ _ => by rw [kept], fun held live _ apart =>
    outside held live apart⟩ (by rw [kept]) stopped.history stopped.allocates stopped.refused ?_ ?_
    fun rights => ?_
  · rw [old, tree, missing]
    exact stopped.short
  · rw [relays.entryFrames, relays.entryFrames]
    exact stopped.frames
  · rw [harmless_update_iff relays.down old tree stopped.short, ← stopped.harmless, old, tableTree,
      kept, relays.entryTree, sameWalk_relay relays.down]

end UpdateLoop

/-- What `update_recursive` asks for at the next level, and how it fails there. -/
def LowerUpdateFails (platform : Platform) (allowHuge level : PageLevel) (bound : Nat) : Prop :=
  ∀ next, level.down = some next → ∀ child vstart sub tmpVec memory,
    TableBlock bound next vstart → Separated memory next child →
    Ends (updateRecursive platform child vstart next sub allowHuge tmpVec) memory
      (fun _ after => after.history.length = memory.history.length +
        ∑ index, missing (tableTree memory.words next child index)
          (listTable platform.crates allowHuge next vstart sub index))
      (UpdateFailed platform allowHuge bound next vstart sub memory child)

/-- One iteration of the loop: how many frames it asks for, and how it fails. -/
theorem updateEntry_fails {tmpVec : Detached}
    (lower : LowerUpdateFails platform allowHuge level bound)
    (block : TableBlock bound level vaddrBase) (separated : Separated before level table)
    (loop : UpdateLoop platform allowHuge level vaddrBase maps before table news tables done
      current) (split : entryIndices = done ++ index :: rest)
    (length : news.length = earlierRequests (tableTree before.words level table)
      (listTable platform.crates allowHuge level vaddrBase maps) index) :
    Ends (updateEntry platform allowHuge level (level.down.map fun next =>
        (next, fun child vstart sub tmpVec =>
          updateRecursive platform child vstart next sub allowHuge tmpVec))
        table vaddrBase maps tmpVec index) current
      (fun _ after => after.history.length = current.history.length +
        missing (tableTree before.words level table index)
          (listTable platform.crates allowHuge level vaddrBase maps index))
      (UpdateFailed platform allowHuge bound level vaddrBase maps before table) := by
  rw [← loop.tree_pending (entryIndices_split split).1, tableTree]
  apply updateEntry_rule block
  · intro entry childless tree
    have plain : (listTable platform.crates allowHuge level vaddrBase maps index).tables = 0 := by
      rw [← tables_erasePat _ level, ← tree, tables_erasePat, tables_leafTree]
    rw [missing_eq_zero plain, add_zero, TableMemory.setEntry_history]
  · intro next relays tree
    refine (lower next relays.down _ _ _ tmpVec current ((block.entry index).table relays.down)
      ((loop.separated separated).child relays)).mono ?_ ?_
    · intro result built served
      rw [tree, relays.entryTree, missing]
      exact served
    · intro reason after failed
      cases reason with
      | panic => exact fun buildable => failed (buildable.blockMaps level _)
      | err error =>
          obtain ⟨more, path, stray, stopped⟩ := failed
          exact ⟨_, _, _, loop.stopUpdate separated split length relays tree stopped⟩
  · intro next step childless tree
    have nextBlock := (block.entry index).table step
    refine ((createRecursive_ends platform allowHuge bound next _ _ current nextBlock).and
      (createRecursive_fails platform allowHuge bound next _ _ current nextBlock)).mono ?_ ?_
    · rintro child built ⟨⟨more, created⟩, -⟩
      refine ⟨created.allocates.aligned created.mem, created.allocates.bounded created.mem, ?_⟩
      rw [tree, childless.entryTree, missing_of_tables_eq_zero (tables_leafTree _),
        PageTree.tables, ← created.length, TableMemory.setEntry_history, created.history, grown,
        List.length_append, List.length_map, add_comm]
    · rintro reason after ⟨-, failed⟩
      cases reason with
      | panic => exact fun buildable => failed (buildable.blockMaps level _)
      | err error =>
          obtain ⟨more, path, lost, stopped⟩ := failed
          exact ⟨_, _, _, loop.stopCreate separated split length childless tree stopped⟩
  · exact id

/-- How many frames `update_recursive` asks for, and what it leaves behind when it fails. -/
theorem updateRecursive_fails (platform : Platform) (allowHuge : PageLevel) (bound : Nat)
    (level : PageLevel) :
    ∀ table vaddrBase maps tmpVec before, TableBlock bound level vaddrBase →
      Separated before level table →
      Ends (updateRecursive platform table vaddrBase level maps allowHuge tmpVec) before
        (fun _ after => after.history.length = before.history.length +
          ∑ index, missing (tableTree before.words level table index)
            (listTable platform.crates allowHuge level vaddrBase maps index))
        (UpdateFailed platform allowHuge bound level vaddrBase maps before table) := by
  induction level using downInduction with
  | step level induction =>
      intro table vaddrBase maps tmpVec before block separated
      rw [updateRecursive, descend_eq, updateTable, ends_bind]
      let requests (index : Fin 512) : Nat := missing (tableTree before.words level table index)
        (listTable platform.crates allowHuge level vaddrBase maps index)
      refine Ends.mono (foldEach_ends (fun done value current =>
          UpdateState platform allowHuge level vaddrBase maps before table tmpVec.1 done value
            current ∧
          current.history.length = before.history.length + (done.map requests).sum)
        ⟨⟨[], [], (List.append_nil _).symm,
          UpdateLoop.start platform allowHuge level vaddrBase maps before table⟩, rfl⟩
        fun done index rest value current split state => ?_) ?_ fun _ _ failed => failed
      · obtain ⟨⟨news, tables, accumulated, loop⟩, served⟩ := state
        obtain ⟨pending, short⟩ := entryIndices_split split
        have earlier : (done.map requests).sum =
            earlierRequests (tableTree before.words level table)
              (listTable platform.crates allowHuge level vaddrBase maps) index :=
          sum_done split requests
        have length : news.length = earlierRequests (tableTree before.words level table)
            (listTable platform.crates allowHuge level vaddrBase maps) index := by
          rw [loop.history, grown, List.length_append, List.length_map, earlier] at served
          omega
        refine ((updateEntry_ends block (fun next _ => updateRecursive_ends platform allowHuge
          bound next) separated loop accumulated pending short).and
            (updateEntry_fails induction block separated loop split length)).mono ?_ ?_
        · rintro _ after ⟨state, asked⟩
          refine ⟨state, ?_⟩
          rw [List.map_append, List.sum_append, List.map_singleton, List.sum_singleton]
          simp only [requests] at served ⊢
          omega
        · exact fun _ _ both => both.2
      · rintro result after ⟨-, served⟩
        rw [sum_entryIndices] at served
        exact served

end Okots
