import Okots.Paging.Create
import Okots.Paging.Translation

/-!
# The identity map

`create_page_table` builds exactly the requested identity map, as the hardware walks it, when the
mapped addresses are physical addresses and the top table lies where its address is a canonical
virtual address.  Both conditions are needed: physical addresses have 52 bits, and the top table is
accessed through the identity map by a `VirtAddr`.
-/

namespace Okots

open StateExec Exec PageLevel

/-- Addresses below this bound are translated by a tree at `target`. -/
def addressBound : PageLevel → Nat
  | .pml5 => 2 ^ 56
  | _ => 2 ^ 47

/-- A top table with the entries of a tidy list translates as the list says, up to the end of the
physical address space. -/
theorem translates_of_tree (crates : X86Crates) {allowHuge level : PageLevel} {words : TableWords}
    {table : Nat} {maps : List Mapping} {vaddr : Nat} (limit : allowHuge ≤ .pdpt)
    (kind : level = .pml5 ∨ level = .pml4) (tidy : Tidy 4096 maps)
    (tree : ∀ index, erasePat level (tableTree words level table index) =
      erasePat level (listTable crates allowHuge level 0 maps index))
    (below : vaddr < 512 * level.entrySize) (physical : vaddr < 2 ^ 52) :
    hardwareWalk words level table vaddr Rights.all =
      (lastFlags maps vaddr).map (requested · vaddr) := by
  have buildable : Buildable (2 ^ 52) maps := ⟨tidy, fun _ _ _ bounded _ => bounded⟩
  have index := (tableBlock_top level).getIndex (Nat.zero_le vaddr) (by omega)
  refine hardwareWalk_of_tableTree limit (tableBlock_top level) buildable tree below ?_
  have size : level.entrySize = 2 ^ 48 ∨ level.entrySize = 2 ^ 39 := by
    rcases kind with rfl | rfl <;> decide
  rcases size with size | size <;> rw [size] at index ⊢ <;> omega

/-- A tree left by `create_page_table` translates as the given lists say. -/
theorem CreatedTop.translates {platform : Platform} {mapList : List MemRangeData}
    {flags : List PageEntryFlags} {allowHuge target : PageLevel} {memory after : TableMemory}
    {top : TopPageTable} {news : List Nat} {vaddr : Nat} (limit : allowHuge ≤ .pdpt)
    (requestable : Requestable (512 * target.entrySize) mapList flags)
    (made : CreatedTop platform mapList flags allowHuge target memory top news after)
    (below : vaddr < 512 * target.entrySize) :
    hardwareWalk after.words target top.phys vaddr Rights.all =
      (lastFlags (mapList.zip flags) vaddr).map (requested · vaddr) := by
  obtain ⟨maps', flags', normalized, -, buildable, same⟩ :=
    requestable.normalize platform.profile platform.sort
  have stored := made.normalized
  rw [normalized] at stored
  have created := made.created
  rw [← Option.some.inj stored] at created
  rw [← same]
  have within := ((tableBlock_top target).entry (target.getIndex vaddr)).bounded
  exact hardwareWalk_of_tableTree limit (tableBlock_top target) buildable
    (fun index => by rw [created.tree]) below (by omega)

/-- Every range of the lists lies in the physical address space, as far as the tree reaches. -/
theorem requestable_of_physical {mapList : List MemRangeData} {flags : List PageEntryFlags}
    {target : PageLevel} (kind : target = .pml4 ∨ target = .pml5)
    (lengths : mapList.length = flags.length) (aligned : ∀ range ∈ mapList, range.Aligned)
    (fits : ∀ range ∈ mapList, range.Fits)
    (physical : target = .pml5 → ∀ range ∈ mapList, ∀ address, 2 ^ 52 ≤ address →
      address < 2 ^ 57 → range.contains address = false) :
    Requestable (512 * target.entrySize) mapList flags where
  lengths := lengths
  aligned := aligned
  fits := fits
  encodable range member address below covered := by
    rcases kind with rfl | rfl
    · have size : 512 * PageLevel.pml4.entrySize = 2 ^ 48 := by decide
      omega
    · have size : 512 * PageLevel.pml5.entrySize = 2 ^ 57 := by decide
      by_contra high
      have outside := physical rfl range member address (by omega) (by omega)
      simp [outside] at covered

theorem requestable_page {start : Nat} (aligned : 4096 ∣ start) (low : start < 2 ^ 47) :
    Requestable (512 * PageLevel.pml4.entrySize) [⟨start, 0x1000⟩] [.dataFlags] := by
  refine requestable_of_physical (.inl rfl) rfl ?_ ?_ (by simp)
  · simpa [MemRangeData.Aligned] using aligned
  · simp only [List.mem_singleton, forall_eq, MemRangeData.Fits, usizeCount]
    omega

/-- `create_page_table` succeeds and builds exactly the requested identity map. -/
theorem createPageTable_identityMap (platform : Platform) (mapList : List MemRangeData)
    (flags : List PageEntryFlags) (allowHugeAt target : PageLevel) (memory : TableMemory)
    (lengths : mapList.length = flags.length) (aligned : ∀ range ∈ mapList, range.Aligned)
    (fits : ∀ range ∈ mapList, range.Fits) (limit : allowHugeAt ≤ .pdpt)
    (kind : target = .pml4 ∨ target = .pml5)
    (physical : target = .pml5 → ∀ range ∈ mapList, ∀ address, 2 ^ 52 ≤ address →
      address < 2 ^ 57 → range.contains address = false)
    (served : ¬ Exhausted platform.allocator memory.history target.tableCount)
    (canonical : ∀ frame, platform.allocator.allocZeroed memory.history = some frame →
      frame < 2 ^ 47) :
    ∃ top after,
      createPageTable platform mapList flags allowHugeAt target memory = (.ok top, after) ∧
      ∀ vaddr < addressBound target,
        hardwareWalk after.words target top.phys vaddr Rights.all =
          (lastFlags (mapList.zip flags) vaddr).map (requested · vaddr) := by
  have requestable := requestable_of_physical kind lengths aligned fits physical
  obtain ⟨top, after, news, run, made⟩ :=
    createPageTable_run platform allowHugeAt requestable kind.symm served canonical
  refine ⟨top, after, run, fun vaddr below => made.translates limit requestable ?_⟩
  rcases kind with rfl | rfl
  · have size : 512 * PageLevel.pml4.entrySize = 2 ^ 48 := by decide
    have bound : addressBound .pml4 = 2 ^ 47 := rfl
    omega
  · have size : 512 * PageLevel.pml5.entrySize = 2 ^ 57 := by decide
    have bound : addressBound .pml5 = 2 ^ 56 := rfl
    omega

theorem createPageTable_identityMap_overlap :
    ∃ top after,
      createPageTable (bumpPlatform 0) [⟨0x1000, 0x3000⟩, ⟨0x2000, 0x1000⟩]
        [.dataFlags, .present] .pdpt .pml4 emptyMemory = (.ok top, after) ∧
      ∀ vaddr < addressBound .pml4,
        hardwareWalk after.words .pml4 top.phys vaddr Rights.all =
          (lastFlags [(⟨0x1000, 0x3000⟩, .dataFlags), (⟨0x2000, 0x1000⟩, .present)] vaddr).map
            (requested · vaddr) :=
  createPageTable_identityMap (bumpPlatform 0) [⟨0x1000, 0x3000⟩, ⟨0x2000, 0x1000⟩]
    [.dataFlags, .present] .pdpt .pml4 emptyMemory rfl (by decide) (by decide) (by decide)
    (.inl rfl) (by simp) (bumpAllocator_serves (by decide))
    fun frame request => bumpAllocator_first request

/-- A range above the physical address space is not mapped to itself, and a top table outside the
lower canonical half makes the call panic. -/
theorem createPageTable_not_identityMap :
    (¬ Exhausted (bumpPlatform 0).allocator emptyMemory.history PageLevel.pml5.tableCount ∧
      ¬ ∃ top after,
        createPageTable (bumpPlatform 0) [⟨2 ^ 52, 4096⟩] [.dataFlags] .pt .pml5 emptyMemory =
          (.ok top, after) ∧
        ∀ vaddr < addressBound .pml5,
          hardwareWalk after.words .pml5 top.phys vaddr Rights.all =
            (lastFlags [(⟨2 ^ 52, 4096⟩, .dataFlags)] vaddr).map (requested · vaddr)) ∧
    (¬ Exhausted (bumpPlatform (2 ^ 47)).allocator emptyMemory.history PageLevel.pml4.tableCount ∧
      ¬ ∃ top after,
        createPageTable (bumpPlatform (2 ^ 47)) [⟨0, 4096⟩] [.dataFlags] .pt .pml4 emptyMemory =
          (.ok top, after)) := by
  refine ⟨⟨bumpAllocator_serves (by decide), ?_⟩, ⟨bumpAllocator_serves (by decide), ?_⟩⟩
  · rintro ⟨top, after, -, translates⟩
    have walk := translates (2 ^ 52) (by decide)
    have covering : lastFlags [(⟨2 ^ 52, 4096⟩, .dataFlags)] (2 ^ 52) = some .dataFlags := by decide
    rw [covering] at walk
    have bounded := hardwareWalk_phys_lt walk
    simp [requested] at bounded
  · rintro ⟨top, after, run⟩
    obtain ⟨news, made⟩ := (createPageTable_ends _ _ _ _ _ _).of_ok run
    have low := made.low
    rw [bumpAllocator_request made.created.first] at low
    exact absurd low (by decide)

end Okots
