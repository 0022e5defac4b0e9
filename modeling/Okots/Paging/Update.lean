import Okots.Paging.Create
import Okots.Paging.UpdatedTree

/-!
# Updating a tree

What `update_recursive` does to a tree whose frames are pairwise distinct and allocated: its entries
become those of the new list, up to PAT, whatever they were before; the frames of the tree together
with those of the detached tables are the old frames together with the newly allocated ones; frames
outside the tree keep their contents.  As for building, one loop invariant covers the entries
already visited, and each kind of entry is one application of the same store rule.
-/

namespace Okots

open StateExec Exec PageLevel

/-- The tables of a tree are pairwise distinct and allocated. -/
structure Separated (memory : TableMemory) (level : PageLevel) (table : Nat) : Prop where
  nodup : (tableFrames memory.words level table).Nodup
  live : ∀ frame ∈ tableFrames memory.words level table, frame ∈ memory.live

variable {platform : Platform} {allowHuge level : PageLevel} {bound vaddrBase : Nat}
  {maps : List Mapping} {before current : TableMemory} {table : Nat} {news : List Nat}
  {tables : List (Nat × PageLevel)} {done : List (Fin 512)}

namespace Separated

theorem entry_ne (separated : Separated before level table) {index : Fin 512} {frame : Nat}
    (member : frame ∈ entryFrames before.words level (before.words table index)) :
    frame ≠ table := by
  rintro rfl
  have nodup := separated.nodup
  rw [tableFrames, Multiset.nodup_add] at nodup
  exact Multiset.disjoint_left.mp nodup.2.2 (Multiset.mem_singleton_self _)
    (mem_joinFrames.mpr ⟨index, member⟩)

theorem entry_apart (separated : Separated before level table) {index other : Fin 512}
    (distinct : other ≠ index) {frame : Nat}
    (member : frame ∈ entryFrames before.words level (before.words table other)) :
    frame ∉ entryFrames before.words level (before.words table index) := by
  have nodup := separated.nodup
  rw [tableFrames, Multiset.nodup_add] at nodup
  exact joinFrames_disjoint nodup.2.1 distinct member

theorem entry_live (separated : Separated before level table) {index : Fin 512} {frame : Nat}
    (member : frame ∈ entryFrames before.words level (before.words table index)) :
    frame ∈ before.live :=
  separated.live frame (mem_tableFrames.mpr (.inr ⟨index, member⟩))

/-- The tree below a relay is separated. -/
theorem child (separated : Separated before level table) {next : PageLevel} {index : Fin 512}
    (relays : Relays level (before.words table index) next) :
    Separated before next (tableBase (before.words table index)) := by
  constructor
  · rw [← relays.entryFrames]
    have nodup := separated.nodup
    rw [tableFrames, Multiset.nodup_add] at nodup
    exact joinFrames_nodup nodup.2.1 index
  · intro frame member
    rw [← relays.entryFrames] at member
    exact separated.entry_live member

/-- New frames are none of the tables. -/
theorem nodup_add (separated : Separated before level table)
    (allocates : Allocates platform.allocator before.history news) :
    (tableFrames before.words level table + (news : Multiset Nat)).Nodup := by
  rw [Multiset.nodup_add]
  refine ⟨separated.nodup, Multiset.coe_nodup.mpr allocates.nodup, ?_⟩
  rw [Multiset.disjoint_left]
  exact fun old new => allocates.fresh new (separated.live _ old)

theorem live_add (separated : Separated before level table) {frame : Nat}
    (member : frame ∈ tableFrames before.words level table + (news : Multiset Nat)) :
    frame ∈ liveFrames (grown before.history news) := by
  rw [mem_liveFrames_grown]
  rcases Multiset.mem_add.mp member with old | new
  · exact .inr (separated.live frame old)
  · exact .inl new

end Separated

theorem Created.separated {after : TableMemory}
    (created : Created platform allowHuge level vaddrBase maps before table news after) :
    Separated after level table where
  nodup := by
    rw [created.frames]
    exact Multiset.coe_nodup.mpr created.allocates.nodup
  live frame member := by
    rw [created.frames, Multiset.mem_coe] at member
    rw [TableMemory.live, created.history, mem_liveFrames_grown]
    exact .inl member

/-- Between the two memories at most one entry of `table` has changed, with the tree below it and
frames that were not allocated. -/
structure EntryReplaced (level : PageLevel) (current after : TableMemory) (table : Nat)
    (index : Fin 512) : Prop where
  others : ∀ other ≠ index, after.words table other = current.words table other
  kept : ∀ held ∈ current.live, held ≠ table →
    held ∉ entryFrames current.words level (current.words table index) →
    after.words held = current.words held

namespace EntryReplaced

variable {after : TableMemory} {index : Fin 512}

theorem setEntry (now : Separated current level table) {built : TableMemory} {entry : BitVec 64}
    (frame : ∀ other ∈ current.live,
      other ∉ entryFrames current.words level (current.words table index) →
      built.words other = current.words other) :
    EntryReplaced level current (built.setEntry table index entry) table index where
  others other distinct := by
    have tableLive : table ∈ current.live := now.live table (mem_tableFrames.mpr (.inl rfl))
    rw [TableMemory.setEntry_words_of_ne_index distinct,
      frame table tableLive fun member => now.entry_ne member rfl]
  kept held live distinct outside := by
    rw [TableMemory.setEntry_words_of_ne distinct, frame held live outside]

/-- The trees below the other entries stay. -/
theorem entry (replaced : EntryReplaced level current after table index)
    (now : Separated current level table) {other : Fin 512} (distinct : other ≠ index) :
    ∀ held ∈ entryFrames current.words level (current.words table other),
      after.words held = current.words held :=
  fun held member =>
    replaced.kept held (now.entry_live member) (now.entry_ne member)
      (now.entry_apart distinct member)

/-- Allocated frames outside the tree stay. -/
theorem outside (replaced : EntryReplaced level current after table index) {held : Nat}
    (live : held ∈ current.live) (apart : held ∉ tableFrames current.words level table) :
    after.words held = current.words held := by
  rw [mem_tableFrames, not_or, not_exists] at apart
  exact replaced.kept held live apart.1 (apart.2 index)

end EntryReplaced

/-- The entry above a created table, once it is written. -/
theorem Created.setEntry {next : PageLevel} {vstart child : Nat} {sub : List Mapping}
    {more : List Nat} {built : TableMemory}
    (created : Created platform allowHuge next vstart sub current child more built)
    (now : Separated current level table) (index : Fin 512) (step : level.down = some next) :
    entryFrames (built.setEntry table index (relayWord child)).words level (relayWord child) =
        tableFrames built.words next child ∧
      entryTree (built.setEntry table index (relayWord child)).words level (relayWord child) =
        .relay 7 (tableTree built.words next child) := by
  apply setEntry_relayWord index (created.allocates.aligned created.mem)
    (created.allocates.bounded created.mem) step
  rw [created.frames, Multiset.mem_coe]
  exact fun member =>
    created.allocates.fresh member (now.live table (mem_tableFrames.mpr (.inl rfl)))

/-! ## The invariant of the loop -/

/-- The entries in `done` are those of the list, the others and the trees below them are as in
`before`; the frames `news` have been handed out and `tables` have been detached. -/
structure UpdateLoop (platform : Platform) (allowHuge level : PageLevel) (vaddrBase : Nat)
    (maps : List Mapping) (before : TableMemory) (table : Nat) (news : List Nat)
    (tables : List (Nat × PageLevel)) (done : List (Fin 512)) (current : TableMemory) : Prop where
  history : current.history = grown before.history news
  allocates : Allocates platform.allocator before.history news
  count : news.length ≤ done.length * level.childCount
  frames : tableFrames current.words level table + detachedFrames current.words tables =
    tableFrames before.words level table + ↑news
  frame : ∀ other ∈ before.live, other ∉ tableFrames before.words level table →
    current.words other = before.words other
  tree : ∀ index ∈ done, erasePat level (tableTree current.words level table index) =
    erasePat level (listTable platform.crates allowHuge level vaddrBase maps index)
  rest : ∀ index, index ∉ done → current.words table index = before.words table index ∧
    ∀ frame ∈ entryFrames before.words level (before.words table index),
      current.words frame = before.words frame
  levels : ∀ detached ∈ tables, TableAt before.words level table detached.2 detached.1

namespace UpdateLoop

theorem nodup (separated : Separated before level table)
    (loop : UpdateLoop platform allowHuge level vaddrBase maps before table news tables done
      current) :
    (tableFrames current.words level table + detachedFrames current.words tables).Nodup := by
  rw [loop.frames]
  exact separated.nodup_add loop.allocates

theorem live (separated : Separated before level table)
    (loop : UpdateLoop platform allowHuge level vaddrBase maps before table news tables done
      current) {frame : Nat}
    (member : frame ∈ tableFrames current.words level table + detachedFrames current.words tables) :
    frame ∈ liveFrames current.history := by
  rw [loop.frames] at member
  rw [loop.history]
  exact separated.live_add member

theorem separated (separated : Separated before level table)
    (loop : UpdateLoop platform allowHuge level vaddrBase maps before table news tables done
      current) : Separated current level table where
  nodup := (Multiset.nodup_add.mp (loop.nodup separated)).1
  live _ member := loop.live separated (Multiset.mem_add.mpr (.inl member))

/-- A pending entry has the frames and the tree that it had before the loop. -/
theorem pendingEntry (loop : UpdateLoop platform allowHuge level vaddrBase maps before table news
      tables done current) {index : Fin 512} (pending : index ∉ done) :
    entryFrames current.words level (before.words table index) =
      entryFrames before.words level (before.words table index) :=
  (entry_congr level (before.words table index) (loop.rest index pending).2).1

/-- Allocated frames outside the old tree are outside the tree of the loop. -/
theorem outside (loop : UpdateLoop platform allowHuge level vaddrBase maps before table news
      tables done current) {other : Nat} (live : other ∈ before.live)
    (apart : other ∉ tableFrames before.words level table) :
    other ∈ current.live ∧ other ∉ tableFrames current.words level table := by
  constructor
  · rw [TableMemory.live, loop.history, mem_liveFrames_grown]
    exact .inr live
  · intro member
    have balanced : other ∈ tableFrames before.words level table + (news : Multiset Nat) :=
      loop.frames ▸ Multiset.mem_add.mpr (.inl member)
    rcases Multiset.mem_add.mp balanced with old | new
    · exact apart old
    · exact loop.allocates.fresh new live

section Store

variable {after : TableMemory} {index : Fin 512} {entry : BitVec 64} {more : List Nat}
  {moved : List (Nat × PageLevel)}

/-- The tables detached so far are not touched by a replaced entry. -/
theorem detached_replaced (separated : Separated before level table)
    (loop : UpdateLoop platform allowHuge level vaddrBase maps before table news tables done
      current) (replaced : EntryReplaced level current after table index) :
    detachedFrames after.words tables = detachedFrames current.words tables := by
  refine detachedFrames_congr fun held member => ?_
  refine replaced.outside (loop.live separated (Multiset.mem_add.mpr (.inr member))) ?_
  exact fun inTable =>
    Multiset.disjoint_left.mp (Multiset.nodup_add.mp (loop.nodup separated)).2.2 inTable member

/-- The balance of frames carries over from the entry to the table. -/
theorem frames_replaced (separated : Separated before level table)
    (loop : UpdateLoop platform allowHuge level vaddrBase maps before table news tables done
      current) (replaced : EntryReplaced level current after table index) {lost : Multiset Nat}
    (balance : entryFrames after.words level (after.words table index) + lost =
      entryFrames current.words level (current.words table index) + ↑more) :
    tableFrames after.words level table + (detachedFrames current.words tables + lost) =
      tableFrames before.words level table + ↑(more ++ news) := by
  obtain ⟨exchanged, -⟩ := table_exchange index replaced.others fun other distinct =>
    replaced.entry (loop.separated separated) distinct
  rw [← Multiset.coe_add]
  refine add_right_cancel (b := entryFrames current.words level (current.words table index)) ?_
  calc
    tableFrames after.words level table + (detachedFrames current.words tables + lost) +
        entryFrames current.words level (current.words table index)
      = (tableFrames after.words level table +
          entryFrames current.words level (current.words table index)) +
        (detachedFrames current.words tables + lost) := by abel
    _ = (tableFrames current.words level table + detachedFrames current.words tables) +
        (entryFrames after.words level (after.words table index) + lost) := by
          rw [exchanged]
          abel
    _ = _ := by
          rw [loop.frames, balance]
          abel

/-- Frames outside the table are still those before the loop. -/
theorem frame_replaced (loop : UpdateLoop platform allowHuge level vaddrBase maps before table news
      tables done current) (replaced : EntryReplaced level current after table index) {other : Nat}
    (live : other ∈ before.live) (apart : other ∉ tableFrames before.words level table) :
    after.words other = before.words other := by
  obtain ⟨currentLive, currentApart⟩ := loop.outside live apart
  rw [replaced.outside currentLive currentApart, loop.frame other live apart]

/-- The entries that are still pending are those before the loop. -/
theorem rest_replaced (separated : Separated before level table)
    (loop : UpdateLoop platform allowHuge level vaddrBase maps before table news tables done
      current) (replaced : EntryReplaced level current after table index) {other : Fin 512}
    (missing : other ∉ done) (distinct : other ≠ index) :
    after.words table other = before.words table other ∧
      ∀ frame ∈ entryFrames before.words level (before.words table other),
        after.words frame = before.words frame := by
  obtain ⟨sameEntry, sameBelow⟩ := loop.rest other missing
  refine ⟨(replaced.others other distinct).trans sameEntry, fun held member => ?_⟩
  have inCurrent : held ∈ entryFrames current.words level (current.words table other) := by
    rwa [sameEntry, loop.pendingEntry missing]
  rw [replaced.entry (loop.separated separated) distinct held inCurrent]
  exact sameBelow held member

/-- A table below a pending entry is a table of the old tree. -/
theorem levels_pending (loop : UpdateLoop platform allowHuge level vaddrBase maps before table news
      tables done current) (pending : index ∉ done) {next below : PageLevel} {frame : Nat}
    (relays : Relays level (current.words table index) next)
    (inside : TableAt current.words next (tableBase (current.words table index)) below frame) :
    TableAt before.words level table below frame := by
  obtain ⟨sameEntry, sameBelow⟩ := loop.rest index pending
  rw [sameEntry] at relays inside
  refine .under index relays (inside.congr fun held inChild => ?_)
  rw [← relays.entryFrames, loop.pendingEntry pending] at inChild
  exact (sameBelow held inChild).symm

/-- Writing the next entry: its new frames and the tables detached from it balance its old frames
and the frames `more` handed out for it. -/
theorem store (separated : Separated before level table)
    (loop : UpdateLoop platform allowHuge level vaddrBase maps before table news tables done
      current) (pending : index ∉ done) {built : TableMemory}
    (history : built.history = grown current.history more)
    (allocates : Allocates platform.allocator current.history more)
    (count : more.length ≤ level.childCount)
    (frame : ∀ other ∈ current.live,
      other ∉ entryFrames current.words level (current.words table index) →
      built.words other = current.words other)
    (balance : entryFrames (built.setEntry table index entry).words level entry +
        detachedFrames (built.setEntry table index entry).words moved =
      entryFrames current.words level (current.words table index) + ↑more)
    (tree : erasePat level (entryTree (built.setEntry table index entry).words level entry) =
      erasePat level (listTable platform.crates allowHuge level vaddrBase maps index))
    (levels : ∀ detached ∈ moved, ∃ next, Relays level (current.words table index) next ∧
      TableAt current.words next (tableBase (current.words table index)) detached.2 detached.1) :
    UpdateLoop platform allowHuge level vaddrBase maps before table (more ++ news)
      (tables ++ moved) (done ++ [index]) (built.setEntry table index entry) := by
  have now : Separated current level table := loop.separated separated
  have replaced : EntryReplaced level current (built.setEntry table index entry) table index :=
    .setEntry now frame
  have stored : (built.setEntry table index entry).words table index = entry :=
    TableMemory.setEntry_words_self
  refine ⟨?_, ?_, ?_, ?_, fun other => loop.frame_replaced replaced, ?_, ?_, ?_⟩
  · rw [grown_append, ← loop.history]
    exact history
  · refine loop.allocates.append ?_
    rw [← loop.history]
    exact allocates
  · have earlier := loop.count
    rw [List.length_append, List.length_append, List.length_singleton, Nat.succ_mul]
    omega
  · rw [detachedFrames_append, loop.detached_replaced separated replaced]
    exact loop.frames_replaced separated replaced (stored.symm ▸ balance)
  · intro other member
    rcases List.mem_append.mp member with earlier | last
    · obtain ⟨-, unchanged⟩ := table_exchange index replaced.others fun other distinct =>
        replaced.entry now distinct
      rw [unchanged other fun same => pending (same ▸ earlier)]
      exact loop.tree other earlier
    · rw [List.mem_singleton.mp last, tableTree, stored]
      exact tree
  · intro other missing
    rw [List.mem_append, List.mem_singleton, not_or] at missing
    exact loop.rest_replaced separated replaced missing.1 missing.2
  · intro detached member
    rcases List.mem_append.mp member with earlier | last
    · exact loop.levels detached earlier
    · obtain ⟨next, relays, inside⟩ := levels detached last
      exact loop.levels_pending pending relays inside

end Store

/-- Writing an entry without a table below it detaches the table below the old entry. -/
theorem storeLeaf (separated : Separated before level table)
    (loop : UpdateLoop platform allowHuge level vaddrBase maps before table news tables done
      current) {index : Fin 512} (pending : index ∉ done) {entry : BitVec 64}
    (childless : Childless level entry)
    (tree : erasePat level (leafTree entry) =
      erasePat level (listTable platform.crates allowHuge level vaddrBase maps index)) :
    UpdateLoop platform allowHuge level vaddrBase maps before table news
      (tables ++ childTables level (current.words table index)) (done ++ [index])
      (current.setEntry table index entry) := by
  have now := loop.separated separated
  refine loop.store separated pending (show current.history = grown current.history [] from rfl)
    trivial (Nat.zero_le _) (fun _ _ _ => rfl) ?_ (by rwa [childless.entryTree]) ?_
  · have keeps : ∀ frame ∈ entryFrames current.words level (current.words table index),
        (current.setEntry table index entry).words frame = current.words frame :=
      fun frame member => TableMemory.setEntry_words_of_ne (now.entry_ne member)
    rw [childless.entryFrames, detachedFrames_childTables, (entry_congr level _ keeps).1]
    simp
  · intro detached member
    rcases relays_or_childless level (current.words table index) with ⟨next, relays⟩ | plain
    · rw [childTables_of_relays relays, List.mem_singleton] at member
      subst member
      exact ⟨next, relays, .here _ _⟩
    · simp [childTables_of_childless plain] at member

/-- A created tree becomes the next entry, in place of an entry without a table. -/
theorem storeCreated {next : PageLevel} {vstart child : Nat} {sub : List Mapping}
    {more : List Nat} {built : TableMemory} {index : Fin 512}
    (separated : Separated before level table)
    (loop : UpdateLoop platform allowHuge level vaddrBase maps before table news tables done
      current) (pending : index ∉ done) (step : level.down = some next)
    (childless : Childless level (current.words table index))
    (created : Created platform allowHuge next vstart sub current child more built)
    (tree : listTable platform.crates allowHuge level vaddrBase maps index =
      .relay 7 (listTable platform.crates allowHuge next vstart sub)) :
    UpdateLoop platform allowHuge level vaddrBase maps before table (more ++ news) tables
      (done ++ [index]) (built.setEntry table index (relayWord child)) := by
  obtain ⟨frames, below⟩ := created.setEntry (loop.separated separated) index step
  rw [← List.append_nil tables]
  refine loop.store separated pending created.history created.allocates
    (childCount_of_down step ▸ created.count) ?_ ?_ ?_ (by simp)
  · exact fun other live _ =>
      created.frame other fun member => created.allocates.fresh member live
  · rw [frames, created.frames, childless.entryFrames, detachedFrames_nil, add_comm]
  · rw [below, tree]
    congr 2
    exact funext created.tree

end UpdateLoop

/-! ## One entry, one table, the whole tree -/

/-- The tree has the entries of the list; its frames and those of the detached tables are the old
frames and the frames `news`. -/
structure Updated (platform : Platform) (allowHuge level : PageLevel) (vaddrBase : Nat)
    (maps : List Mapping) (before : TableMemory) (table : Nat) (news : List Nat)
    (tables : List (Nat × PageLevel)) (after : TableMemory) : Prop where
  history : after.history = grown before.history news
  allocates : Allocates platform.allocator before.history news
  count : news.length ≤ level.tableCount
  frames : tableFrames after.words level table + detachedFrames after.words tables =
    tableFrames before.words level table + ↑news
  frame : ∀ other ∈ before.live, other ∉ tableFrames before.words level table →
    after.words other = before.words other
  tree : ∀ index, erasePat level (tableTree after.words level table index) =
    erasePat level (listTable platform.crates allowHuge level vaddrBase maps index)
  levels : ∀ detached ∈ tables, TableAt before.words level table detached.2 detached.1

theorem Updated.nodup {after : TableMemory} (separated : Separated before level table)
    (updated : Updated platform allowHuge level vaddrBase maps before table news tables after) :
    (tableFrames after.words level table + detachedFrames after.words tables).Nodup := by
  rw [updated.frames]
  exact separated.nodup_add updated.allocates

/-- The updated tables are again pairwise distinct and allocated. -/
theorem Updated.separated {after : TableMemory} (separated : Separated before level table)
    (updated : Updated platform allowHuge level vaddrBase maps before table news tables after) :
    Separated after level table where
  nodup := (Multiset.nodup_add.mp (updated.nodup separated)).1
  live frame member := by
    rw [TableMemory.live, updated.history]
    refine separated.live_add ?_
    rw [← updated.frames]
    exact Multiset.mem_add.mpr (.inl member)

section Below

variable {next : PageLevel} {vstart : Nat} {sub : List Mapping} {more : List Nat}
  {moved : List (Nat × PageLevel)} {built : TableMemory} {index : Fin 512}
  (now : Separated current level table) (relays : Relays level (current.words table index) next)
  (updated : Updated platform allowHuge next vstart sub current
    (tableBase (current.words table index)) more moved built)

include now relays updated

theorem Updated.parent_notMem :
    table ∉ tableFrames built.words next (tableBase (current.words table index)) ∧
      table ∉ detachedFrames built.words moved := by
  rw [← not_or, ← Multiset.mem_add, updated.frames, Multiset.mem_add, ← relays.entryFrames]
  rintro (old | new)
  · exact now.entry_ne old rfl
  · exact updated.allocates.fresh new (now.live table (mem_tableFrames.mpr (.inl rfl)))

/-- The entry above an updated table, once it is written again. -/
theorem Updated.setEntry :
    entryFrames (built.setEntry table index
        (relayWord (tableBase (current.words table index)))).words level
        (relayWord (tableBase (current.words table index))) =
        tableFrames built.words next (tableBase (current.words table index)) ∧
      entryTree (built.setEntry table index
        (relayWord (tableBase (current.words table index)))).words level
        (relayWord (tableBase (current.words table index))) =
        .relay 7 (tableTree built.words next (tableBase (current.words table index))) :=
  setEntry_relayWord index (tableBase_aligned _) (tableBase_lt _) relays.down
    (updated.parent_notMem now relays).1

end Below

/-- An updated tree stays below its entry, whose flags are those of a relay again. -/
theorem UpdateLoop.storeUpdated {next : PageLevel} {vstart : Nat} {sub : List Mapping}
    {more : List Nat} {moved : List (Nat × PageLevel)} {built : TableMemory} {index : Fin 512}
    (separated : Separated before level table)
    (loop : UpdateLoop platform allowHuge level vaddrBase maps before table news tables done
      current) (pending : index ∉ done) (relays : Relays level (current.words table index) next)
    (updated : Updated platform allowHuge next vstart sub current
      (tableBase (current.words table index)) more moved built)
    (tree : listTable platform.crates allowHuge level vaddrBase maps index =
      .relay 7 (listTable platform.crates allowHuge next vstart sub)) :
    UpdateLoop platform allowHuge level vaddrBase maps before table (more ++ news)
      (tables ++ moved) (done ++ [index])
      (built.setEntry table index (relayWord (tableBase (current.words table index)))) := by
  have now := loop.separated separated
  have outside := updated.parent_notMem now relays
  obtain ⟨frames, below⟩ := updated.setEntry now relays
  refine loop.store separated pending updated.history updated.allocates
    (childCount_of_down relays.down ▸ updated.count) ?_ ?_ ?_
    fun detached member => ⟨next, relays, updated.levels detached member⟩
  · intro other live apart
    rw [relays.entryFrames] at apart
    exact updated.frame other live apart
  · have keeps : ∀ frame ∈ detachedFrames built.words moved,
        (built.setEntry table index (relayWord (tableBase (current.words table index)))).words
          frame = built.words frame :=
      fun frame member =>
        TableMemory.setEntry_words_of_ne fun same => outside.2 (same ▸ member)
    rw [frames, detachedFrames_congr keeps, updated.frames, relays.entryFrames]
  · rw [below, tree, erasePat_relay relays.down, erasePat_relay relays.down]
    congr 1
    exact funext updated.tree

theorem relays_iff {entry : BitVec 64} :
    (∃ next, Relays level entry next) ↔ isRelay entry = true ∧ level ≠ .pt := by
  constructor
  · rintro ⟨next, relays⟩
    refine ⟨relays.relay, ?_⟩
    rintro rfl
    simpa [down] using relays.down
  · rintro ⟨relay, inner⟩
    rcases relays_or_childless level entry with relays | leafLevel | plain
    · exact relays
    · exact absurd leafLevel inner
    · simp [plain] at relay

/-- The table below an entry is pushed when the test finds one. -/
theorem detachWhen_ends {entry : BitVec 64} {found : Bool}
    (correct : found = true ↔ ∃ next, Relays level entry next) (tmpVec : Detached)
    (memory : TableMemory) {fail : Fault → TableMemory → Prop} :
    Ends (detachWhen found level entry tmpVec) memory
      (fun result after => result = (tmpVec.1 ++ childTables level entry, tmpVec.2) ∧
        after = memory) fail := by
  rw [detachWhen]
  split
  · rename_i holds
    obtain ⟨next, relays⟩ := correct.mp holds
    rw [relays.down, childTables_of_relays relays]
    exact ⟨rfl, rfl⟩
  · rename_i fails
    have childless : Childless level entry := by
      rcases relays_or_childless level entry with relays | childless
      · exact absurd (correct.mpr relays) fails
      · exact childless
    rw [childTables_of_childless childless, List.append_nil]
    exact ⟨rfl, rfl⟩

section Entry

variable {start : List (Nat × PageLevel)} {tmpVec : Detached} {index : Fin 512}

/-- The postcondition holds after a leaf of the list has been written in place of the entry, with
the table below the old entry detached. -/
def WritesLeaf (platform : Platform) (allowHuge level : PageLevel) (vaddrBase : Nat)
    (maps : List Mapping) (current : TableMemory) (table : Nat) (index : Fin 512)
    (tmpVec : Detached) (ok : Detached → TableMemory → Prop) : Prop :=
  ∀ entry, Childless level entry →
    erasePat level (leafTree entry) =
      erasePat level (listTable platform.crates allowHuge level vaddrBase maps index) →
    ok (tmpVec.1 ++ childTables level (current.words table index), tmpVec.2)
      (current.setEntry table index entry)

/-- The same for the entry that an update leaves, whatever was there before. -/
def WritesExact (platform : Platform) (allowHuge level : PageLevel) (vaddrBase : Nat)
    (maps : List Mapping) (current : TableMemory) (table : Nat) (index : Fin 512)
    (tmpVec : Detached) (ok : Detached → TableMemory → Prop) : Prop :=
  ∀ entry, Childless level entry →
    erasePat level (leafTree entry) =
      erasePat level (listTable platform.crates allowHuge level vaddrBase maps index) →
    (∀ old, updatedEntry platform.crates allowHuge level old
      (vaddrBase + index * level.entrySize) maps = leafTree entry) →
    ok (tmpVec.1 ++ childTables level (current.words table index), tmpVec.2)
      (current.setEntry table index entry)

section Leaf

variable {ok : Detached → TableMemory → Prop} {fail : Fault → TableMemory → Prop}
  (leaf : WritesExact platform allowHuge level vaddrBase maps current table index tmpVec ok)

include leaf

/-- An entry that already is the wanted leaf stays as it is. -/
theorem WritesExact.keep (childless : Childless level (current.words table index))
    (tree : erasePat level (leafTree (current.words table index)) =
      erasePat level (listTable platform.crates allowHuge level vaddrBase maps index))
    (exactly : ∀ old, updatedEntry platform.crates allowHuge level old
      (vaddrBase + index * level.entrySize) maps = leafTree (current.words table index)) :
    ok tmpVec current := by
  have kept := leaf _ childless tree exactly
  rwa [TableMemory.setEntry_of_eq rfl, childTables_of_childless childless, List.append_nil] at kept

/-- A leaf is written and the table below the old entry is detached. -/
theorem WritesExact.write {found : Bool} {entry : BitVec 64}
    (correct : found = true ↔ ∃ next, Relays level (current.words table index) next)
    (childless : Childless level entry)
    (tree : erasePat level (leafTree entry) =
      erasePat level (listTable platform.crates allowHuge level vaddrBase maps index))
    (exactly : ∀ old, updatedEntry platform.crates allowHuge level old
      (vaddrBase + index * level.entrySize) maps = leafTree entry) :
    Ends (do
        let tmpVec ← detachWhen found level (current.words table index) tmpVec
        storeEntry table index entry
        return tmpVec) current ok fail := by
  rw [ends_bind]
  refine (detachWhen_ends correct tmpVec current).mono ?_ fun _ _ failed => failed
  rintro _ after ⟨rfl, rfl⟩
  exact leaf entry childless tree exactly

/-- An entry without a requested range is cleared. -/
theorem updateEmpty_rule
    (empty : blockMaps level (vaddrBase + index * level.entrySize) maps = []) :
    Ends (if (current.words table index).getLsbD 0 then do
        let tmpVec ← detachWhen (!(current.words table index).getLsbD 7 && decide (level ≠ .pt))
          level (current.words table index) tmpVec
        storeEntry table index 0
        return tmpVec
      else
        return tmpVec) current ok fail := by
  have tree : erasePat level (leafTree 0) =
      erasePat level (listTable platform.crates allowHuge level vaddrBase maps index) :=
    congrArg _ (listEntry_empty empty).symm
  split
  · rename_i present
    apply leaf.write _ childless_zero tree fun _ => updatedEntry_empty empty
    rw [relays_iff, isRelay, present]
    simp
  · rename_i absent
    have cleared : (current.words table index).getLsbD 0 = false := by simpa using absent
    have same : leafTree (current.words table index) = leafTree 0 := by
      rw [leafTree, cleared]
      rfl
    apply leaf.keep
    · exact .inr (by rw [isRelay, cleared, Bool.false_and])
    · rw [same, tree]
    · intro old
      rw [same]
      exact updatedEntry_empty empty

/-- An entry whose block is mapped by one range becomes a huge leaf, unless it is that leaf. -/
theorem updateHuge_rule {flags : PageEntryFlags} {entry : BitVec 64}
    (choice : canBeHuge level allowHuge (vaddrBase + index * level.entrySize)
      (vaddrBase + index * level.entrySize + level.entrySize)
      (blockMaps level (vaddrBase + index * level.entrySize) maps) = some flags)
    (built : generateHugeEntry platform.crates level (vaddrBase + index * level.entrySize) flags =
      some entry) :
    Ends (if current.words table index ≠ entry then do
        let tmpVec ← detachWhen ((current.words table index).getLsbD 0 &&
          !(current.words table index).getLsbD 7) level (current.words table index) tmpVec
        storeEntry table index entry
        return tmpVec
      else
        return tmpVec) current ok fail := by
  obtain ⟨created, createdBuilt⟩ := createHugeEntry_exists built
  obtain ⟨-, -, inner, -⟩ := canBeHuge_eq_some choice
  have tree : erasePat level (leafTree entry) =
      erasePat level (listTable platform.crates allowHuge level vaddrBase maps index) := by
    rw [listTable, listEntry_huge choice createdBuilt]
    exact erasePat_leafTree inner (createHugeEntry_pat platform.crates createdBuilt built).symm
  have childless := generateHugeEntry_childless built
  have exactly : ∀ old, updatedEntry platform.crates allowHuge level old
      (vaddrBase + index * level.entrySize) maps = leafTree entry :=
    fun _ => updatedEntry_huge choice built
  split
  · apply leaf.write _ childless tree exactly
    rw [relays_iff, isRelay]
    simp [inner]
  · rename_i same
    rw [← Decidable.not_not.mp same] at childless tree exactly
    exact leaf.keep childless tree exactly

end Leaf

/-- An entry of a bottom table is written with no look at the old one, which holds no table. -/
theorem updatePage_rule {ok : Detached → TableMemory → Prop} {fail : Fault → TableMemory → Prop}
    {first : Mapping} {rest : List Mapping} {entry : BitVec 64}
    (leaf : WritesExact platform allowHuge .pt vaddrBase maps current table index tmpVec ok)
    (chosen : blockMaps .pt (vaddrBase + index * entrySize .pt) maps = first :: rest)
    (built : pageEntry platform.crates (vaddrBase + index * entrySize .pt) first.2 = some entry) :
    Ends (do
        storeEntry table index entry
        return tmpVec) current ok fail := by
  have stored := leaf entry (.inl rfl) (congrArg _ (listEntry_page chosen built).symm)
    fun _ => updatedEntry_page chosen built
  rwa [childTables_of_childless (.inl rfl), List.append_nil] at stored

/-- The block of an entry meets a range and is not one huge page, so a table at `next` belongs
below the entry. -/
structure Descends (platform : Platform) (allowHuge level : PageLevel) (vaddrBase : Nat)
    (maps : List Mapping) (index : Fin 512) (next : PageLevel) : Prop where
  step : level.down = some next
  some : blockMaps level (vaddrBase + index * level.entrySize) maps ≠ []
  small : canBeHuge level allowHuge (vaddrBase + index * level.entrySize)
    (vaddrBase + index * level.entrySize + level.entrySize)
    (blockMaps level (vaddrBase + index * level.entrySize) maps) = none

theorem Descends.listTable {next : PageLevel}
    (descends : Descends platform allowHuge level vaddrBase maps index next) :
    listTable platform.crates allowHuge level vaddrBase maps index =
      .relay 7 (listTable platform.crates allowHuge next (vaddrBase + index * level.entrySize)
        (blockMaps level (vaddrBase + index * level.entrySize) maps)) :=
  listEntry_relay descends.some descends.small descends.step

/-- One iteration of the loop: a leaf is written, or the table below the entry is updated, or a new
table is created there.  A panic is possible only for lists that cannot be encoded. -/
theorem updateEntry_exact {ok : Detached → TableMemory → Prop} {fail : Fault → TableMemory → Prop}
    (block : TableBlock bound level vaddrBase)
    (leaf : WritesExact platform allowHuge level vaddrBase maps current table index tmpVec ok)
    (update : ∀ next, Relays level (current.words table index) next →
      Descends platform allowHuge level vaddrBase maps index next →
      Ends (updateRecursive platform (tableBase (current.words table index))
          (vaddrBase + index * level.entrySize) next
          (blockMaps level (vaddrBase + index * level.entrySize) maps) allowHuge tmpVec) current
        (fun result built => ok result
          (built.setEntry table index (relayWord (tableBase (current.words table index)))))
        fail)
    (create : ∀ next, level.down = some next → Childless level (current.words table index) →
      Descends platform allowHuge level vaddrBase maps index next →
      Ends (createRecursive platform (vaddrBase + index * level.entrySize) next
          (blockMaps level (vaddrBase + index * level.entrySize) maps) allowHuge) current
        (fun child built => 4096 ∣ child ∧ child < 2 ^ 52 ∧
          ok tmpVec (built.setEntry table index (relayWord child)))
        fail)
    (panics : ¬ Buildable bound maps → fail .panic current) :
    Ends (updateEntry platform allowHuge level (level.down.map fun next =>
        (next, fun child vstart sub tmpVec =>
          updateRecursive platform child vstart next sub allowHuge tmpVec))
        table vaddrBase maps tmpVec index) current ok fail := by
  have entryBlock : Block bound level (vaddrBase + index * level.entrySize) := block.entry index
  rw [updateEntry]
  simp only [ends_bind, loadEntry, ends_read]
  refine .ofOption_of_total
    (fun buildable => ⟨_, subMaps_eq_some _ _ _ buildable.tidy.fits⟩) panics ?_
  intro sub selected
  obtain rfl : sub = blockMaps level (vaddrBase + index * level.entrySize) maps :=
    subMaps_eq_filter selected
  rcases chosen : blockMaps level (vaddrBase + index * level.entrySize) maps with _ | ⟨first, rest⟩
  · exact updateEmpty_rule leaf chosen
  simp only
  rw [← chosen]
  cases choice : canBeHuge level allowHuge (vaddrBase + index * level.entrySize)
      (vaddrBase + index * level.entrySize + level.entrySize)
      (blockMaps level (vaddrBase + index * level.entrySize) maps) with
  | some flags =>
      rw [ends_bind]
      refine .ofOption_of_total
        (fun buildable => (buildable.hugeEntry entryBlock platform.crates choice).2) panics ?_
      exact fun entry built => updateHuge_rule leaf choice built
  | none =>
      have nonempty : blockMaps level (vaddrBase + index * level.entrySize) maps ≠ [] := by
        simp [chosen]
      cases step : level.down with
      | none =>
          obtain rfl := down_eq_none.mp step
          have member : first ∈ blockMaps .pt (vaddrBase + index * entrySize .pt) maps := by
            simp [chosen]
          rw [Option.map_none, ends_bind]
          refine .ofOption_of_total
            (fun buildable => buildable.pageEntry entryBlock platform.crates first.2 member)
            panics ?_
          exact fun entry built => updatePage_rule leaf chosen built
      | some next =>
          have inner : level ≠ .pt := by
            rintro rfl
            simp [down] at step
          simp only [Option.map_some]
          split <;> rw [ends_bind]
          · rename_i relay
            refine (update next ⟨step, relay⟩ ⟨step, nonempty, choice⟩).mono ?_
              fun _ _ failed => failed
            intro result built stored
            rw [generateRelayEntry_eq platform.crates inner (tableBase_aligned _) (tableBase_lt _)]
            exact stored
          · rename_i plain
            have childless : Childless level (current.words table index) :=
              .inr (by rw [isRelay]; simpa using plain)
            refine (create next step childless ⟨step, nonempty, choice⟩).mono ?_
              fun _ _ failed => failed
            rintro child built ⟨aligned, bounded, stored⟩
            rw [generateRelayEntry_eq platform.crates inner aligned bounded]
            exact stored

/-- The rule up to PAT. -/
theorem updateEntry_rule {ok : Detached → TableMemory → Prop} {fail : Fault → TableMemory → Prop}
    (block : TableBlock bound level vaddrBase)
    (leaf : WritesLeaf platform allowHuge level vaddrBase maps current table index tmpVec ok)
    (update : ∀ next, Relays level (current.words table index) next →
      listTable platform.crates allowHuge level vaddrBase maps index =
        .relay 7 (listTable platform.crates allowHuge next (vaddrBase + index * level.entrySize)
          (blockMaps level (vaddrBase + index * level.entrySize) maps)) →
      Ends (updateRecursive platform (tableBase (current.words table index))
          (vaddrBase + index * level.entrySize) next
          (blockMaps level (vaddrBase + index * level.entrySize) maps) allowHuge tmpVec) current
        (fun result built => ok result
          (built.setEntry table index (relayWord (tableBase (current.words table index)))))
        fail)
    (create : ∀ next, level.down = some next → Childless level (current.words table index) →
      listTable platform.crates allowHuge level vaddrBase maps index =
        .relay 7 (listTable platform.crates allowHuge next (vaddrBase + index * level.entrySize)
          (blockMaps level (vaddrBase + index * level.entrySize) maps)) →
      Ends (createRecursive platform (vaddrBase + index * level.entrySize) next
          (blockMaps level (vaddrBase + index * level.entrySize) maps) allowHuge) current
        (fun child built => 4096 ∣ child ∧ child < 2 ^ 52 ∧
          ok tmpVec (built.setEntry table index (relayWord child)))
        fail)
    (panics : ¬ Buildable bound maps → fail .panic current) :
    Ends (updateEntry platform allowHuge level (level.down.map fun next =>
        (next, fun child vstart sub tmpVec =>
          updateRecursive platform child vstart next sub allowHuge tmpVec))
        table vaddrBase maps tmpVec index) current ok fail := by
  refine updateEntry_exact block (fun entry childless tree _ => leaf entry childless tree)
    (fun next relays descends => update next relays descends.listTable)
    (fun next step childless descends => create next step childless descends.listTable) panics

/-- The state of the loop, with the accumulated list of detached tables. -/
def UpdateState (platform : Platform) (allowHuge level : PageLevel) (vaddrBase : Nat)
    (maps : List Mapping) (before : TableMemory) (table : Nat) (start : List (Nat × PageLevel))
    (done : List (Fin 512)) (tmpVec : Detached) (current : TableMemory) : Prop :=
  ∃ news tables, tmpVec.1 = start ++ tables ∧
    UpdateLoop platform allowHuge level vaddrBase maps before table news tables done current

/-- What `update_recursive` does at the next level. -/
def LowerUpdates (platform : Platform) (allowHuge level : PageLevel) (bound : Nat) : Prop :=
  ∀ next, level.down = some next → ∀ child vstart sub tmpVec memory,
    TableBlock bound next vstart → Separated memory next child →
    Ends (updateRecursive platform child vstart next sub allowHuge tmpVec) memory
      (fun result after => ∃ news tables, result.1 = tmpVec.1 ++ tables ∧
        Updated platform allowHuge next vstart sub memory child news tables after)
      (fun _ _ => Buildable bound sub →
        Exhausted platform.allocator memory.history next.tableCount)

/-- A lower table that runs out of frames exhausts the budget of the table. -/
theorem UpdateLoop.exhausted {next : PageLevel}
    (loop : UpdateLoop platform allowHuge level vaddrBase maps before table news tables done
      current) (short : done.length < 512) (step : level.down = some next) {vstart : Nat}
    (failed : Buildable bound (blockMaps level vstart maps) →
      Exhausted platform.allocator current.history next.tableCount)
    (buildable : Buildable bound maps) :
    Exhausted platform.allocator before.history level.tableCount := by
  have exhausted := failed (buildable.blockMaps level _)
  rw [loop.history] at exhausted
  refine (exhausted.ofChild step loop.allocates loop.count short).mono ?_
  rw [tableCount_eq]
  omega

/-- One iteration of the loop, given the update of the lower tables. -/
theorem updateEntry_ends (block : TableBlock bound level vaddrBase)
    (lower : LowerUpdates platform allowHuge level bound)
    (separated : Separated before level table)
    (loop : UpdateLoop platform allowHuge level vaddrBase maps before table news tables done
      current) (accumulated : tmpVec.1 = start ++ tables) (pending : index ∉ done)
    (short : done.length < 512) :
    Ends (updateEntry platform allowHuge level (level.down.map fun next =>
        (next, fun child vstart sub tmpVec =>
          updateRecursive platform child vstart next sub allowHuge tmpVec))
        table vaddrBase maps tmpVec index) current
      (UpdateState platform allowHuge level vaddrBase maps before table start (done ++ [index]))
      (fun _ _ => Buildable bound maps →
        Exhausted platform.allocator before.history level.tableCount) := by
  apply updateEntry_rule block
  · intro entry childless tree
    refine ⟨news, tables ++ childTables level (current.words table index), ?_,
      loop.storeLeaf separated pending childless tree⟩
    rw [accumulated, List.append_assoc]
  · intro next relays tree
    refine (lower next relays.down _ _ _ tmpVec current ((block.entry index).table relays.down)
      ((loop.separated separated).child relays)).mono ?_
        fun _ _ failed => loop.exhausted short relays.down failed
    rintro result built ⟨more, moved, extended, updated⟩
    refine ⟨more ++ news, tables ++ moved, ?_,
      loop.storeUpdated separated pending relays updated tree⟩
    rw [extended, accumulated, List.append_assoc]
  · intro next step childless tree
    refine (createRecursive_ends platform allowHuge bound next _ _ current
      ((block.entry index).table step)).mono ?_
        fun _ _ failed => loop.exhausted short step failed
    rintro child built ⟨more, created⟩
    exact ⟨created.allocates.aligned created.mem, created.allocates.bounded created.mem,
      more ++ news, tables, accumulated,
      loop.storeCreated separated pending step childless created tree⟩
  · intro unbuildable buildable
    exact absurd buildable unbuildable

end Entry

/-- Before the loop nothing has changed. -/
theorem UpdateLoop.start (platform : Platform) (allowHuge level : PageLevel) (vaddrBase : Nat)
    (maps : List Mapping) (before : TableMemory) (table : Nat) :
    UpdateLoop platform allowHuge level vaddrBase maps before table [] [] [] before where
  history := rfl
  allocates := trivial
  count := Nat.zero_le _
  frames := by simp
  frame _ _ _ := rfl
  tree := by simp
  rest _ _ := ⟨rfl, fun _ _ => rfl⟩
  levels := by simp

/-- What `update_recursive` does, and the only reason for it to fail. -/
theorem updateRecursive_ends (platform : Platform) (allowHuge : PageLevel) (bound : Nat)
    (level : PageLevel) :
    ∀ table vaddrBase maps tmpVec before, TableBlock bound level vaddrBase →
      Separated before level table →
      Ends (updateRecursive platform table vaddrBase level maps allowHuge tmpVec) before
        (fun result after => ∃ news tables, result.1 = tmpVec.1 ++ tables ∧
          Updated platform allowHuge level vaddrBase maps before table news tables after)
        (fun _ _ => Buildable bound maps →
          Exhausted platform.allocator before.history level.tableCount) := by
  induction level using downInduction with
  | step level induction =>
      intro table vaddrBase maps tmpVec before block separated
      rw [updateRecursive, descend_eq, updateTable, ends_bind]
      have loopEnds := foldEach_ends
        (UpdateState platform allowHuge level vaddrBase maps before table tmpVec.1)
        ⟨[], [], (List.append_nil _).symm,
          UpdateLoop.start platform allowHuge level vaddrBase maps before table⟩
        fun done index rest value current split state => by
          obtain ⟨news, tables, accumulated, loop⟩ := state
          obtain ⟨pending, short⟩ := entryIndices_split split
          exact updateEntry_ends block induction separated loop accumulated pending short
      refine loopEnds.mono ?_ fun _ _ failed => failed
      rintro result after ⟨news, tables, accumulated, loop⟩
      have count := loop.count
      rw [length_entryIndices] at count
      refine ⟨news, tables, ?_, loop.history, loop.allocates, ?_, loop.frames, loop.frame,
        fun index => loop.tree index (mem_entryIndices index), loop.levels⟩
      · split <;> exact accumulated
      · rw [tableCount_eq]
        omega

/-! ## `update_paging` -/

/-- What the incremental branch of `update_paging` does, and the only reason for it to fail. -/
theorem updatePaging_ends (platform : Platform) {top : TopPageTable}
    {newMapList : List MemRangeData} {newFlags : List PageEntryFlags} {allowHugeAt : PageLevel}
    (fragmentation : top.pageFragmentationLevel < cleanRecreateFragmentLevel)
    (virt : top.virt = top.phys) (separated : Separated before top.level top.phys) :
    Ends (updatePaging platform top newMapList newFlags allowHugeAt) before
      (fun result after => ∃ lists news,
        normalizeMapList platform.profile platform.sort newMapList newFlags = some lists ∧
        result.1 = { top with memoryMapping := lists } ∧
        Updated platform allowHugeAt top.level 0 (lists.1.zip lists.2) before top.phys news
          result.2 after)
      (fun _ _ => Requestable (512 * top.level.entrySize) newMapList newFlags →
        Exhausted platform.allocator before.history top.level.tableCount) := by
  rw [updatePaging]
  simp only [ends_bind, ends_ofOption]
  refine ⟨fun lists normalized => ?_, fun panic requestable => ?_⟩
  · obtain ⟨maps', flags'⟩ := lists
    simp only
    rw [if_neg (by omega), ends_bind, virt]
    refine (updateRecursive_ends platform allowHugeAt _ top.level top.phys 0 (maps'.zip flags')
      ([], 0) before (tableBlock_top top.level) separated).mono ?_ ?_
    · rintro ⟨buf, count⟩ after ⟨news, tables, extended, updated⟩
      rw [List.nil_append] at extended
      obtain rfl : buf = tables := extended
      exact ⟨(maps', flags'), news, normalized, rfl, updated⟩
    · intro reason after failed requestable
      exact failed (requestable.buildable normalized).2
  · exact absurd panic (requestable.normalize_ne_none _ _)

end Okots
