import Okots.Paging.HugePages
import Okots.Paging.Lifecycle

/-!
# Trees built by the paging code

A tree is built by `create_page_table`, or by `update_paging` in a run that began with
`create_page_table`.  Its translation is that of the given lists, and every leaf of it comes from
one of their ranges.
-/

namespace Okots

open StateExec Exec PageLevel LastWriter TransitionSystem

/-- A tree that a call with the given lists has left; for an update, with the memory before. -/
inductive BuiltTree (platform : Platform) (allowHuge : PageLevel) (mapList : List MemRangeData)
    (flags : List PageEntryFlags) : Option TableMemory → TopPageTable → TableMemory → Prop
  | create {target : PageLevel} {memory after : TableMemory} {top : TopPageTable}
      (run : createPageTable platform mapList flags allowHuge target memory = (.ok top, after)) :
      BuiltTree platform allowHuge mapList flags none top after
  | update {base : Finset Nat} {memory after : TableMemory} {top top' : TopPageTable}
      {pending : List (List (Nat × PageLevel))} {buf : List (Nat × PageLevel)}
      (reach : PagingReach platform base ⟨memory, some top, pending⟩)
      (run : updatePaging platform top mapList flags allowHuge memory =
        (.ok (top', buf), after)) :
      BuiltTree platform allowHuge mapList flags (some memory) top' after

/-- An entry at `level` on the way to the address is in a table that the call has created. -/
def inNewTable (before : Option TableMemory) (top : TopPageTable) (vaddr : Nat)
    (level : PageLevel) : Bool :=
  match before with
  | none => true
  | some memory => decide (level.rank < (walkEnd memory.words top.level top.phys vaddr).1.rank)

/-- The top table of a run is at level 4 or 5. -/
theorem PagingReach.kind {platform : Platform} {base : Finset Nat} {state : PagingState}
    (reach : PagingReach platform base state) {top : TopPageTable}
    (present : state.top = some top) : top.level = .pml5 ∨ top.level = .pml4 := by
  induction reach generalizing top with
  | start created =>
      obtain ⟨-, -, run⟩ := created
      obtain rfl := Option.some.inj present
      obtain ⟨news, made⟩ := (createPageTable_ends platform _ _ _ _ _).of_ok run
      exact made.level ▸ made.kind
  | next reached taken induction =>
      cases taken with
      | update newMapList newFlags allowHugeAt fragmentation run =>
          obtain ⟨lists, news, -, rfl, -⟩ := (PagingReach.invariant reached).update_run run
          obtain rfl := Option.some.inj present
          have kind := induction rfl
          exact kind
      | free run => exact induction present
      | deallocAll run => cases present
      | hardware history marks => exact induction present

namespace BuiltTree

variable {platform : Platform} {allowHuge : PageLevel} {mapList : List MemRangeData}
  {flags : List PageEntryFlags} {before : Option TableMemory} {top : TopPageTable}
  {after : TableMemory} {vaddr : Nat}
  (built : BuiltTree platform allowHuge mapList flags before top after)

include built

theorem kind : top.level = .pml5 ∨ top.level = .pml4 := by
  cases built with
  | create run =>
      obtain ⟨news, made⟩ := (createPageTable_ends platform _ _ _ _ _).of_ok run
      exact made.level ▸ made.kind
  | update reach run =>
      obtain ⟨lists, news, -, rfl, -⟩ := reach.invariant.update_run run
      have kind := reach.kind rfl
      exact kind

/-- Up to PAT the tree is that of the normalized lists. -/
theorem tree :
    ∃ lists, normalizeMapList platform.profile platform.sort mapList flags = some lists ∧
      ∀ index, erasePat top.level (tableTree after.words top.level top.phys index) =
        erasePat top.level
          (listTable platform.crates allowHuge top.level 0 (lists.1.zip lists.2) index) := by
  cases built with
  | create run =>
      obtain ⟨news, made⟩ := (createPageTable_ends platform _ _ _ _ _).of_ok run
      refine ⟨top.memoryMapping, made.normalized, fun index => ?_⟩
      rw [made.level, made.created.tree]
  | update reach run =>
      obtain ⟨lists, news, normalized, rfl, updated⟩ := reach.invariant.update_run run
      exact ⟨lists, normalized, updated.tree⟩

/-- The tree translates as the lists say. -/
theorem translates (limit : allowHuge ≤ .pdpt)
    (requestable : Requestable (512 * top.level.entrySize) mapList flags)
    (low : vaddr < 512 * top.level.entrySize) :
    hardwareWalk after.words top.level top.phys vaddr Rights.all =
      (lastFlags (mapList.zip flags) vaddr).map (requested · vaddr) := by
  obtain ⟨lists, normalized, trees⟩ := built.tree
  obtain ⟨maps', flags', same, -, buildable, meaning⟩ :=
    requestable.normalize platform.profile platform.sort
  obtain rfl := Option.some.inj (normalized.symm.trans same)
  rw [← meaning]
  have within := ((tableBlock_top top.level).entry (top.level.getIndex vaddr)).bounded
  exact hardwareWalk_of_tableTree limit (tableBlock_top top.level) buildable trees low (by omega)

/-- Physical addresses are translated as the lists say, whatever lies behind them. -/
theorem translates_physical (limit : allowHuge ≤ .pdpt)
    (aligned : ∀ range ∈ mapList, range.Aligned) (fits : ∀ range ∈ mapList, range.Fits)
    (low : vaddr < 512 * top.level.entrySize) (physical : vaddr < 2 ^ 52) :
    hardwareWalk after.words top.level top.phys vaddr Rights.all =
      (lastFlags (mapList.zip flags) vaddr).map (requested · vaddr) := by
  obtain ⟨lists, normalized, trees⟩ := built.tree
  obtain ⟨maps', flags', same, -, tidy, -, meaning⟩ :=
    normalizeMapList_spec platform.profile platform.sort 4096
      (fun map member => fits map.1 (List.of_mem_zip member).1)
      (fun map member => aligned map.1 (List.of_mem_zip member).1)
  obtain rfl := Option.some.inj (normalized.symm.trans same)
  rw [← meaning]
  exact translates_of_tree platform.crates limit built.kind tidy trees low physical

/-- Every leaf of the tree is at the level that the normalized lists give. -/
theorem leafLevel {lists : List MemRangeData × List PageEntryFlags}
    (normalized : normalizeMapList platform.profile platform.sort mapList flags = some lists)
    (low : vaddr < 512 * top.level.entrySize)
    (present : (walkEnd after.words top.level top.phys vaddr).2.getLsbD 0 = true) :
    (walkEnd after.words top.level top.phys vaddr).1 =
      Okots.leafLevel allowHuge (lists.1.zip lists.2) vaddr top.level := by
  obtain ⟨others, same, trees⟩ := built.tree
  obtain rfl := Option.some.inj (normalized.symm.trans same)
  have inside := (tableBlock_top top.level).getIndex (Nat.zero_le vaddr) (by omega)
  have ends := treeEnd_tableTree after.words vaddr top.level top.phys
  rw [if_pos present] at ends
  have walked := treeEnd_erasePat
    (tableTree after.words top.level top.phys (top.level.getIndex vaddr)) vaddr top.level
  have listed := treeEnd_erasePat (listTable platform.crates allowHuge top.level 0
    (lists.1.zip lists.2) (top.level.getIndex vaddr)) vaddr top.level
  rw [trees, ends, listed.1, listed.2] at walked
  rw [← walked.1]
  exact treeEnd_listEntry_level platform.crates allowHuge vaddr top.level _ _
    ((tableBlock_top top.level).entry _).aligned inside.1 inside.2 walked.2

/-- Every leaf of the tree comes from a range of the normalized lists. -/
theorem leafOf (low : vaddr < 512 * top.level.entrySize)
    (present : (walkEnd after.words top.level top.phys vaddr).2.getLsbD 0 = true) :
    ∃ lists map,
      normalizeMapList platform.profile platform.sort mapList flags = some lists ∧
      LeafOf platform.crates allowHuge
        (inNewTable before top vaddr (walkEnd after.words top.level top.phys vaddr).1)
        (lists.1.zip lists.2) vaddr (walkEnd after.words top.level top.phys vaddr).1
        (walkEnd after.words top.level top.phys vaddr).2 map := by
  cases built with
  | create run =>
      obtain ⟨news, made⟩ := (createPageTable_ends platform _ _ _ _ _).of_ok run
      rw [made.level] at low present ⊢
      obtain ⟨map, leaf⟩ := leafOf_listTable low present made.created.tree
      exact ⟨top.memoryMapping, map, made.normalized, leaf⟩
  | update reach run =>
      obtain ⟨virt, fragmentation⟩ := reach.invariant.top _ rfl
      obtain ⟨lists, normalized, rfl, tree⟩ := (updatePaging_exact platform
        (by rw [fragmentation]; decide) virt (reach.invariant.separated rfl)).of_ok run
      obtain ⟨map, leaf⟩ := leafOf_updatedTable low present tree
      rw [treeEnd_tableTree] at leaf
      exact ⟨lists, map, normalized, leaf⟩

/-- Every leaf of the tree has the flags of the last range that covers the address. -/
theorem leafOf_lastFlags (aligned : ∀ range ∈ mapList, range.Aligned)
    (fits : ∀ range ∈ mapList, range.Fits) (low : vaddr < 512 * top.level.entrySize)
    (present : (walkEnd after.words top.level top.phys vaddr).2.getLsbD 0 = true) :
    ∃ maps map, lastFlags (mapList.zip flags) vaddr = some map.2 ∧
      LeafOf platform.crates allowHuge
        (inNewTable before top vaddr (walkEnd after.words top.level top.phys vaddr).1) maps vaddr
        (walkEnd after.words top.level top.phys vaddr).1
        (walkEnd after.words top.level top.phys vaddr).2 map := by
  obtain ⟨lists, map, normalized, leaf⟩ := built.leafOf low present
  obtain ⟨maps', flags', same, -, tidy, -, meaning⟩ :=
    normalizeMapList_spec platform.profile platform.sort 4096
      (fun map member => fits map.1 (List.of_mem_zip member).1)
      (fun map member => aligned map.1 (List.of_mem_zip member).1)
  obtain rfl := Option.some.inj (normalized.symm.trans same)
  exact ⟨_, map, (meaning vaddr).symm.trans (leaf.lastFlags tidy), leaf⟩

end BuiltTree

/-- The leaf of a 2 MiB block, a huge one unless only small pages are admitted. -/
theorem hugeBlock_leafOf (flag : PageEntryFlags) {allowHuge : PageLevel}
    (limit : allowHuge ≤ .pdpt) :
    ∃ top after maps map,
      BuiltTree (bumpPlatform 0) allowHuge [⟨0x200000, 0x200000⟩] [flag] none top after ∧
      top.level = .pml4 ∧ map.2 = flag ∧
      LeafOf (bumpPlatform 0).crates allowHuge true maps 0x200000
        (walkEnd after.words top.level top.phys 0x200000).1
        (walkEnd after.words top.level top.phys 0x200000).2 map ∧
      ((walkEnd after.words top.level top.phys 0x200000).1 = .pt ↔ allowHuge = .pt) := by
  obtain ⟨top, after, run, level, last, present, huge⟩ := hugeBlock_create flag limit
  rw [← level] at present huge
  have built := BuiltTree.create run
  have low : 0x200000 < 512 * top.level.entrySize := by
    rw [level]
    decide
  obtain ⟨maps, map, found, leaf⟩ := built.leafOf_lastFlags (by decide) (by decide) low present
  exact ⟨top, after, maps, map, built, level, Option.some.inj (found.symm.trans last), leaf, huge⟩

end Okots
