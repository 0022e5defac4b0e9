import Okots.Paging.Update

/-!
# The exact tree of an update

The invariant of `Okots.Paging.Update` describes the new tree up to PAT.  The same loop, with the
old tree in view, leaves exactly the tree of `updatedTable`.
-/

namespace Okots

open StateExec Exec PageLevel

variable {platform : Platform} {allowHuge level next : PageLevel} {bound vaddrBase : Nat}
  {maps : List Mapping} {before current after : TableMemory} {table : Nat} {news : List Nat}
  {tables : List (Nat × PageLevel)} {done : List (Fin 512)} {index : Fin 512}

/-- The entries in `done` are those that the update leaves. -/
def ExactLoop (platform : Platform) (allowHuge level : PageLevel) (vaddrBase : Nat)
    (maps : List Mapping) (before : TableMemory) (table : Nat) (done : List (Fin 512))
    (current : TableMemory) : Prop :=
  ∀ index ∈ done, tableTree current.words level table index =
    updatedTable platform.crates allowHuge level (tableTree before.words level table) vaddrBase maps
      index

theorem ExactLoop.store
    (written : ExactLoop platform allowHuge level vaddrBase maps before table done current)
    (now : Separated current level table)
    (replaced : EntryReplaced level current after table index) (pending : index ∉ done)
    (tree : tableTree after.words level table index =
      updatedTable platform.crates allowHuge level (tableTree before.words level table) vaddrBase
        maps index) :
    ExactLoop platform allowHuge level vaddrBase maps before table (done ++ [index]) after := by
  intro other member
  rcases List.mem_append.mp member with earlier | last
  · obtain ⟨-, unchanged⟩ := table_exchange index replaced.others fun other distinct =>
      replaced.entry now distinct
    rw [unchanged other fun same => pending (same ▸ earlier)]
    exact written other earlier
  · rw [List.mem_singleton.mp last]
    exact tree

/-- A pending entry has the tree that it had before the loop. -/
theorem UpdateLoop.pendingTree
    (loop : UpdateLoop platform allowHuge level vaddrBase maps before table news tables done
      current) (pending : index ∉ done) :
    tableTree before.words level table index =
      entryTree current.words level (current.words table index) := by
  obtain ⟨sameEntry, sameBelow⟩ := loop.rest index pending
  rw [tableTree, sameEntry]
  exact (entry_congr level (before.words table index) sameBelow).2.symm

theorem not_isRelay_of_childless {words : TableWords} {entry : BitVec 64}
    (childless : Childless level entry) : ¬ (entryTree words level entry).IsRelay := by
  rw [childless.entryTree, leafTree]
  split <;> exact id

/-- What `update_recursive` leaves at the next level. -/
def LowerExact (platform : Platform) (allowHuge level : PageLevel) (bound : Nat) : Prop :=
  ∀ next, level.down = some next → ∀ child vstart sub tmpVec memory,
    TableBlock bound next vstart → Separated memory next child →
    Ends (updateRecursive platform child vstart next sub allowHuge tmpVec) memory
      (fun _ after => ∀ index, tableTree after.words next child index =
        updatedTable platform.crates allowHuge next (tableTree memory.words next child) vstart sub
          index)
      (fun _ _ => True)

/-- One iteration of the loop. -/
theorem updateEntry_exactLoop {tmpVec : Detached} (block : TableBlock bound level vaddrBase)
    (lower : LowerExact platform allowHuge level bound) (separated : Separated before level table)
    (loop : UpdateLoop platform allowHuge level vaddrBase maps before table news tables done
      current)
    (written : ExactLoop platform allowHuge level vaddrBase maps before table done current)
    (pending : index ∉ done) :
    Ends (updateEntry platform allowHuge level (level.down.map fun next =>
        (next, fun child vstart sub tmpVec =>
          updateRecursive platform child vstart next sub allowHuge tmpVec))
        table vaddrBase maps tmpVec index) current
      (fun _ after =>
        ExactLoop platform allowHuge level vaddrBase maps before table (done ++ [index]) after)
      (fun _ _ => True) := by
  have now := loop.separated separated
  have stored : ∀ {built : TableMemory} {entry : BitVec 64},
      tableTree (built.setEntry table index entry).words level table index =
        entryTree (built.setEntry table index entry).words level entry := by
    intro built entry
    rw [tableTree, TableMemory.setEntry_words_self]
  apply updateEntry_exact block
  · intro entry childless _ exactly
    refine written.store now (.setEntry now fun _ _ _ => rfl) pending ?_
    rw [stored, childless.entryTree]
    exact (exactly _).symm
  · intro next relays descends
    have nextBlock := (block.entry index).table relays.down
    have child := now.child relays
    refine ((updateRecursive_ends platform allowHuge bound next _ _ _ tmpVec current nextBlock
      child).and (lower next relays.down _ _ _ tmpVec current nextBlock child)).mono ?_
        fun _ _ _ => trivial
    rintro _ built ⟨⟨more, moved, -, updated⟩, tree⟩
    refine written.store now (.setEntry now fun other live apart => ?_) pending ?_
    · rw [relays.entryFrames] at apart
      exact updated.frame other live apart
    · rw [stored, (updated.setEntry now relays).2, updatedTable, loop.pendingTree pending,
        relays.entryTree, updatedEntry_relay descends.some descends.small descends.step]
      exact congrArg _ (funext tree)
  · intro next step childless descends
    refine (createRecursive_ends platform allowHuge bound next _ _ current
      ((block.entry index).table step)).mono ?_ fun _ _ _ => trivial
    rintro child built ⟨more, created⟩
    refine ⟨created.allocates.aligned created.mem, created.allocates.bounded created.mem, ?_⟩
    refine written.store now (.setEntry now fun other live _ => ?_) pending ?_
    · exact created.frame other fun member => created.allocates.fresh member live
    · rw [stored, (created.setEntry now index step).2, updatedTable,
        updatedEntry_create descends.some descends.small descends.step]
      · exact congrArg _ (funext created.tree)
      · rw [loop.pendingTree pending]
        exact not_isRelay_of_childless childless
  · exact fun _ => trivial

/-- `update_recursive` leaves the tree of the update. -/
theorem updateRecursive_exact (platform : Platform) (allowHuge : PageLevel) (bound : Nat)
    (level : PageLevel) :
    ∀ table vaddrBase maps tmpVec before, TableBlock bound level vaddrBase →
      Separated before level table →
      Ends (updateRecursive platform table vaddrBase level maps allowHuge tmpVec) before
        (fun _ after => ∀ index, tableTree after.words level table index =
          updatedTable platform.crates allowHuge level (tableTree before.words level table)
            vaddrBase maps index)
        (fun _ _ => True) := by
  induction level using downInduction with
  | step level induction =>
      intro table vaddrBase maps tmpVec before block separated
      rw [updateRecursive, descend_eq, updateTable, ends_bind]
      have loopEnds := foldEach_ends
        (fun done tmp current =>
          UpdateState platform allowHuge level vaddrBase maps before table tmpVec.1 done tmp
            current ∧
          ExactLoop platform allowHuge level vaddrBase maps before table done current)
        ⟨⟨[], [], (List.append_nil _).symm,
          UpdateLoop.start platform allowHuge level vaddrBase maps before table⟩, by
            simp [ExactLoop]⟩
        fun done index rest value current split state => by
          obtain ⟨⟨news, tables, accumulated, loop⟩, written⟩ := state
          obtain ⟨pending, short⟩ := entryIndices_split split
          exact (updateEntry_ends block (fun next _ => updateRecursive_ends platform allowHuge
            bound next) separated loop accumulated pending short).and
              (updateEntry_exactLoop block induction separated loop written pending)
      refine loopEnds.mono ?_ fun _ _ _ => trivial
      rintro result after ⟨-, written⟩ index
      exact written index (mem_entryIndices index)

/-- The incremental branch of `update_paging` leaves the tree of the update. -/
theorem updatePaging_exact (platform : Platform) {top : TopPageTable}
    {newMapList : List MemRangeData} {newFlags : List PageEntryFlags} {allowHugeAt : PageLevel}
    (fragmentation : top.pageFragmentationLevel < cleanRecreateFragmentLevel)
    (virt : top.virt = top.phys) (separated : Separated before top.level top.phys) :
    Ends (updatePaging platform top newMapList newFlags allowHugeAt) before
      (fun result after => ∃ lists,
        normalizeMapList platform.profile platform.sort newMapList newFlags = some lists ∧
        result.1 = { top with memoryMapping := lists } ∧
        ∀ index, tableTree after.words top.level top.phys index =
          updatedTable platform.crates allowHugeAt top.level
            (tableTree before.words top.level top.phys) 0 (lists.1.zip lists.2) index)
      (fun _ _ => True) := by
  rw [updatePaging]
  simp only [ends_bind, ends_ofOption]
  refine ⟨fun lists normalized => ?_, fun _ => trivial⟩
  obtain ⟨maps', flags'⟩ := lists
  simp only
  rw [if_neg (by omega), ends_bind, virt]
  refine (updateRecursive_exact platform allowHugeAt _ top.level top.phys 0 (maps'.zip flags')
    ([], 0) before (tableBlock_top top.level) separated).mono ?_ fun _ _ _ => trivial
  exact fun _ after tree => ⟨(maps', flags'), normalized, rfl, tree⟩

end Okots
