import Okots.Paging.Canonical
import Okots.Paging.IdentityMap
import Okots.Paging.Leaf

/-!
# Use of huge pages

The builder tests whether exactly one range meets the block of an entry and covers it.  Since the
normalized ranges are maximal runs, this local test finds out whether the whole block is covered
with equal flags.  So every leaf sits as high as the flags allow, and a table is built only where
some address below it is covered.
-/

namespace Okots

open StateExec Exec PageLevel LastWriter MaximalRuns

/-- Every address of the block around `vaddr` at `level` has the given flags. -/
def UniformBlock (flagsAt : Nat → Option PageEntryFlags) (level : PageLevel) (vaddr : Nat)
    (flags : PageEntryFlags) : Prop :=
  ∀ address, blockStart level vaddr ≤ address →
    address < blockStart level vaddr + level.entrySize → flagsAt address = some flags

/-- A block inside a single range is uniform. -/
theorem uniformBlock_single {range : MemRangeData} {level : PageLevel} {vaddr : Nat}
    (flags : PageEntryFlags) (start : range.start ≤ blockStart level vaddr)
    (stop : blockStart level vaddr + level.entrySize ≤ range.start + range.len) :
    UniformBlock (lastFlags [(range, flags)]) level vaddr flags := by
  intro address above below
  exact lastWriter_eq_some_of_mem (List.pairwise_singleton _ _) (List.mem_singleton_self _)
    (covers_iff.mpr ⟨start.trans above, below.trans_le stop⟩)

section Blocks

variable {level allowHuge : PageLevel} {vstart vaddr : Nat} {maps : List Mapping}
  {flags : PageEntryFlags} {flagsAt : Nat → Option PageEntryFlags}

theorem MaximalMaps.nodup (maximal : MaximalMaps maps) : maps.Nodup := by
  refine maximal.separated.imp_of_mem fun {left right} member _ separated same => ?_
  have proper := maximal.proper left member
  have order := separated.le
  rw [same] at order proper
  exact absurd proper (Nat.not_lt.mpr order)

theorem MaximalMaps.blockMaps (maximal : MaximalMaps maps) (level : PageLevel) (vstart : Nat) :
    MaximalMaps (blockMaps level vstart maps) where
  proper run member := maximal.proper run (List.mem_of_mem_filter member)
  separated := maximal.separated.filter _

/-- A run that covers the block is the only one that meets it. -/
theorem blockMaps_eq_singleton (maximal : MaximalMaps maps) (fits : ∀ map ∈ maps, map.1.Fits)
    {run : Mapping} (member : run ∈ maps) (start : run.1.start ≤ vstart)
    (stop : vstart + level.entrySize ≤ mapStop run) :
    blockMaps level vstart maps = [run] := by
  have positive : 0 < level.entrySize := by cases level <;> decide
  have ends : ∀ map ∈ maps, map.1.wrappedEnd = mapStop map :=
    fun map inMaps => MemRangeData.wrappedEnd_of_fits (fits map inMaps)
  apply List.perm_singleton.mp
  apply (List.perm_ext_iff_of_nodup (maximal.blockMaps level vstart).nodup
    (List.nodup_singleton run)).mpr
  intro other
  rw [List.mem_singleton]
  constructor
  · intro selected
    obtain ⟨inMaps, meeting⟩ := List.mem_filter.mp selected
    rw [meets, decide_eq_true_eq, ends other inMaps] at meeting
    rcases maximal.trichotomy inMaps member with same | before | later
    · exact same
    · exact absurd before.le (by omega)
    · exact absurd later.le (by omega)
  · rintro rfl
    refine List.mem_filter.mpr ⟨member, ?_⟩
    rw [meets, decide_eq_true_eq, ends other member]
    omega

/-- The test for a huge page finds the blocks with equal flags. -/
theorem canBeHuge_iff (maximal : MaximalMaps maps) (fits : ∀ map ∈ maps, map.1.Fits) :
    canBeHuge level allowHuge vstart (vstart + level.entrySize) (blockMaps level vstart maps) =
        some flags ↔
      level ≠ .pt ∧ level ≤ allowHuge ∧ ∀ address, vstart ≤ address →
        address < vstart + level.entrySize → lastFlags maps address = some flags := by
  have positive : 0 < level.entrySize := by cases level <;> decide
  constructor
  · intro choice
    obtain ⟨map, single, inner, allowed, start, stop⟩ := canBeHuge_eq_some choice
    have member : (map, flags) ∈ maps := List.mem_of_mem_filter (single ▸ List.mem_singleton_self _)
    rw [MemRangeData.wrappedEnd_of_fits (fits _ member)] at stop
    refine ⟨inner, allowed, fun address above below => ?_⟩
    exact lastWriter_eq_some_of_mem maximal.disjoint member
      (within_iff.mpr ⟨start.trans above, below.trans_le stop⟩)
  · rintro ⟨inner, allowed, uniform⟩
    obtain ⟨⟨map, shared⟩, member, start, stop, rfl⟩ :=
      maximal.exists_run (Nat.lt_add_of_pos_right positive) uniform
    rw [blockMaps_eq_singleton maximal fits member start stop, canBeHuge, if_pos]
    refine ⟨inner, allowed, start, ?_⟩
    rw [MemRangeData.wrappedEnd_of_fits (fits _ member)]
    exact stop

end Blocks

/-! ## The level of a leaf -/

theorem rank_injective {left right : PageLevel} (same : left.rank = right.rank) : left = right := by
  cases left <;> cases right <;> cases same <;> rfl

/-- The level is the highest one at which a block around the address may be one page. -/
structure LeafLevel (allowHuge : PageLevel) (flagsAt : Nat → Option PageEntryFlags)
    (level : PageLevel) (vaddr : Nat) (flags : PageEntryFlags) (found : PageLevel) : Prop where
  allowed : found = .pt ∨ found ≤ allowHuge
  uniform : UniformBlock flagsAt found vaddr flags
  highest : ∀ higher, found.rank < higher.rank → higher.rank ≤ level.rank → higher ≤ allowHuge →
    ¬ UniformBlock flagsAt higher vaddr flags

/-- Ranges of whole pages give a page one value. -/
theorem uniformBlock_pt {vaddr : Nat} {maps : List Mapping} {flags : PageEntryFlags}
    (tidy : Tidy 4096 maps) (covered : lastFlags maps vaddr = some flags) :
    UniformBlock (lastFlags maps) .pt vaddr flags := by
  obtain ⟨map, member, contained, rfl⟩ := exists_of_lastWriter_eq_some covered
  intro address above below
  have granular := tidy.granular map member
  have size : PageLevel.pt.entrySize = 4096 := by decide
  have start : 4096 ∣ blockStart .pt vaddr := dvd_blockStart .pt vaddr
  have here := blockStart_le .pt vaddr
  rw [covers_iff] at contained
  exact lastWriter_eq_some_of_mem tidy.disjoint member (covers_iff.mpr (by omega))

/-- A block that fails the test for a huge page has no common flags. -/
theorem not_uniformBlock {allowHuge level next : PageLevel} {vaddr : Nat} {maps : List Mapping}
    {flags : PageEntryFlags} (maximal : MaximalMaps maps) (tidy : Tidy 4096 maps)
    (choice : canBeHuge level allowHuge (blockStart level vaddr)
      (blockStart level vaddr + level.entrySize)
      (blockMaps level (blockStart level vaddr) maps) = none)
    (step : level.down = some next) (allowed : level ≤ allowHuge) :
    ¬ UniformBlock (lastFlags maps) level vaddr flags := by
  intro uniform
  have inner : level ≠ .pt := by
    rintro rfl
    cases step
  have huge := (canBeHuge_iff maximal tidy.fits).mpr ⟨inner, allowed, uniform⟩
  rw [choice] at huge
  cases huge

/-- For maximal runs the test for a huge page finds the highest possible level. -/
theorem leafLevel_of_maximal {allowHuge : PageLevel} {vaddr : Nat} {maps : List Mapping}
    {flags : PageEntryFlags} (maximal : MaximalMaps maps) (tidy : Tidy 4096 maps)
    (covered : lastFlags maps vaddr = some flags) (level : PageLevel) :
    LeafLevel allowHuge (lastFlags maps) level vaddr flags
      (leafLevel allowHuge maps vaddr level) := by
  induction level using downInduction with
  | step level induction =>
      cases choice : canBeHuge level allowHuge (blockStart level vaddr)
          (blockStart level vaddr + level.entrySize)
          (blockMaps level (blockStart level vaddr) maps) with
      | some shared =>
          obtain ⟨-, allowed, uniform⟩ := (canBeHuge_iff maximal tidy.fits).mp choice
          have inside := blockStart_le level vaddr
          have same := uniform vaddr inside.1 inside.2
          rw [covered, Option.some.injEq] at same
          rw [leafLevel_of_huge choice]
          exact ⟨.inr allowed, same ▸ uniform, fun _ more less => absurd more (Nat.not_lt.mpr less)⟩
      | none =>
          cases step : level.down with
          | none =>
              obtain rfl := down_eq_none.mp step
              rw [leafLevel_pt]
              exact ⟨.inl rfl, uniformBlock_pt tidy covered,
                fun _ more less => absurd more (Nat.not_lt.mpr less)⟩
          | some next =>
              have lower := induction next step
              rw [leafLevel_down choice step]
              refine ⟨lower.allowed, lower.uniform, fun higher more less allowed => ?_⟩
              by_cases below : higher.rank ≤ next.rank
              · exact lower.highest higher more below allowed
              -- The only level between the two is the one whose test has failed.
              have rank := rank_of_down step
              obtain rfl : higher = level := rank_injective (by omega)
              exact not_uniformBlock maximal tidy choice step allowed

/-- Without empty ranges, the level of a leaf is the highest one at which the block around the
address is covered with equal flags. -/
theorem Proper.leafLevel {profile : Profile} {sort : UnstableSort} {mapList : List MemRangeData}
    {flags : List PageEntryFlags} {lists : List MemRangeData × List PageEntryFlags}
    {allowHuge level : PageLevel} {vaddr : Nat} {flag : PageEntryFlags}
    (proper : Proper mapList flags) (aligned : ∀ range ∈ mapList, range.Aligned)
    (normalized : normalizeMapList profile sort mapList flags = some lists)
    (last : lastFlags (mapList.zip flags) vaddr = some flag) :
    LeafLevel allowHuge (lastFlags (mapList.zip flags)) level vaddr flag
      (Okots.leafLevel allowHuge (lists.1.zip lists.2) vaddr level) := by
  obtain ⟨maps', flags', same, -, maximal, -, meaning⟩ := proper.normalize profile sort
  obtain ⟨others, otherFlags, again, -, tidy, -⟩ := normalizeMapList_spec profile sort 4096
    (fun map member => proper.fits map.1 (List.of_mem_zip member).1)
    (fun map member => aligned map.1 (List.of_mem_zip member).1)
  obtain rfl := Option.some.inj (normalized.symm.trans same)
  obtain ⟨rfl, rfl⟩ := Prod.mk.inj (Option.some.inj (same.symm.trans again))
  rw [← funext meaning]
  exact leafLevel_of_maximal maximal tidy ((meaning vaddr).trans last) level

/-- The maximal runs `maps` have the flags of `flagsAt` in the block at `vstart` around `vaddr`. -/
structure BlockRuns (flagsAt : Nat → Option PageEntryFlags) (vaddr : Nat) (level : PageLevel)
    (vstart : Nat) (maps : List Mapping) : Prop where
  aligned : level.entrySize ∣ vstart
  above : vstart ≤ vaddr
  below : vaddr < vstart + level.entrySize
  maximal : MaximalMaps maps
  tidy : Tidy 4096 maps
  agree : ∀ address, vstart ≤ address → address < vstart + level.entrySize →
    lastFlags maps address = flagsAt address

namespace BlockRuns

variable {crates : X86Crates} {allowHuge level next : PageLevel} {vstart vaddr : Nat}
  {maps : List Mapping} {flags : PageEntryFlags} {flagsAt : Nat → Option PageEntryFlags}
  (runs : BlockRuns flagsAt vaddr level vstart maps)

include runs

theorem entry (step : level.down = some next) :
    BlockRuns flagsAt vaddr next (vstart + next.getIndex vaddr * next.entrySize)
      (blockMaps level vstart maps) := by
  obtain ⟨aligned, above, below, inside⟩ := entry_block runs.aligned runs.above runs.below step
  refine ⟨aligned, above, below, runs.maximal.blockMaps level vstart,
    runs.tidy.blockMaps level vstart, fun address first last => ?_⟩
  have low : vstart ≤ address := (Nat.le_add_right _ _).trans first
  have high : address < vstart + level.entrySize := last.trans_le inside
  rw [lastFlags_blockMaps runs.tidy.fits low high, runs.agree address low high]

/-- A table is built only for a block with a covered address. -/
theorem exists_covered (nonempty : blockMaps level vstart maps ≠ []) :
    ∃ address, blockStart level vaddr ≤ address ∧
      address < blockStart level vaddr + level.entrySize ∧ flagsAt address ≠ none := by
  obtain ⟨first, rest, selected⟩ := List.exists_cons_of_ne_nil nonempty
  have chosen : first ∈ blockMaps level vstart maps := selected ▸ List.mem_cons_self
  obtain ⟨member, meeting⟩ := List.mem_filter.mp chosen
  rw [meets, decide_eq_true_eq,
    MemRangeData.wrappedEnd_of_fits (runs.tidy.fits first member)] at meeting
  have proper := runs.maximal.proper first member
  rw [mapStop] at proper
  have positive : 0 < level.entrySize := by cases level <;> decide
  have low : vstart ≤ max first.1.start vstart := Nat.le_max_right _ _
  have high : max first.1.start vstart < vstart + level.entrySize := by omega
  refine ⟨max first.1.start vstart, ?_, ?_, ?_⟩
  · rwa [blockStart_eq runs.aligned runs.above runs.below]
  · rwa [blockStart_eq runs.aligned runs.above runs.below]
  · rw [← runs.agree _ low high, lastFlags,
      lastWriter_eq_some_of_mem runs.tidy.disjoint member (covers_iff.mpr (by omega))]
    exact Option.some_ne_none _

end BlockRuns

section Level

variable {crates : X86Crates} {allowHuge : PageLevel} {vaddr : Nat} {flags : PageEntryFlags}
  {flagsAt : Nat → Option PageEntryFlags}

/-- In the tree of maximal runs every table on the way to an address has a covered address in its
block. -/
theorem treeEnd_covered (level : PageLevel) :
    ∀ vstart maps, BlockRuns flagsAt vaddr level vstart maps → ∀ higher,
      (treeEnd (listEntry crates allowHuge level vstart maps) level vaddr).1.rank < higher.rank →
      higher.rank ≤ level.rank →
      ∃ address, blockStart higher vaddr ≤ address ∧
        address < blockStart higher vaddr + higher.entrySize ∧ flagsAt address ≠ none := by
  induction level using downInduction with
  | step level induction =>
      intro vstart maps runs higher more less
      have ends : ¬ (treeEnd (listEntry crates allowHuge level vstart maps) level vaddr).1 =
          level := fun same => absurd (same ▸ more) (Nat.not_lt.mpr less)
      by_cases nonempty : blockMaps level vstart maps = []
      · rw [listEntry_empty nonempty] at ends
        exact absurd rfl ends
      cases choice : canBeHuge level allowHuge vstart (vstart + level.entrySize)
          (blockMaps level vstart maps) with
      | some shared =>
          rw [listEntry_hugeLeaf choice, treeEnd_leafTree] at ends
          exact absurd rfl ends
      | none =>
          cases step : level.down with
          | none =>
              obtain rfl := down_eq_none.mp step
              obtain ⟨first, rest, selected⟩ := List.exists_cons_of_ne_nil nonempty
              rw [listEntry_pageLeaf selected, treeEnd_leafTree] at ends
              exact absurd rfl ends
          | some next =>
              by_cases lower : higher.rank ≤ next.rank
              · rw [listEntry_relay nonempty choice step, treeEnd_relay step] at more
                exact induction next step _ _ (runs.entry step) higher more lower
              · have rank := rank_of_down step
                obtain rfl : higher = level := rank_injective (by omega)
                exact runs.exists_covered nonempty

end Level

/-! ## `create_page_table` -/

section Create

variable {platform : Platform} {mapList : List MemRangeData} {flags : List PageEntryFlags}
  {allowHuge target : PageLevel} {memory after : TableMemory} {top : TopPageTable}
  {news : List Nat} {vaddr : Nat}

/-- The normalized lists of a creation are the maximal runs of the given ones. -/
theorem CreatedTop.blockRuns (proper : Proper mapList flags)
    (made : CreatedTop platform mapList flags allowHuge target memory top news after)
    (low : vaddr < 512 * target.entrySize) :
    BlockRuns (lastFlags (mapList.zip flags)) vaddr target
      (0 + target.getIndex vaddr * target.entrySize)
      (top.memoryMapping.1.zip top.memoryMapping.2) := by
  obtain ⟨maps', flags', normalized, -, maximal, -, meaning⟩ :=
    proper.normalize platform.profile platform.sort
  obtain ⟨others, otherFlags, same, -, tidy, -⟩ :=
    normalizeMapList_spec platform.profile platform.sort 4096
      (fun map member => proper.fits map.1 (List.of_mem_zip member).1)
      (fun map member => made.aligned map.1 (List.of_mem_zip member).1)
  obtain ⟨rfl, rfl⟩ := Prod.mk.inj (Option.some.inj (normalized.symm.trans same))
  have stored := Option.some.inj (normalized.symm.trans made.normalized)
  have block := tableBlock_top target
  have inside := block.getIndex (Nat.zero_le vaddr) (by omega)
  rw [← stored]
  exact ⟨(block.entry _).aligned, inside.1, inside.2, maximal, tidy,
    fun address _ _ => meaning address⟩

theorem CreatedTop.treeEnd
    (made : CreatedTop platform mapList flags allowHuge target memory top news after)
    (vaddr : Nat) :
    treeEnd (listEntry platform.crates allowHuge target
        (0 + target.getIndex vaddr * target.entrySize)
        (top.memoryMapping.1.zip top.memoryMapping.2)) target vaddr =
      ((walkEnd after.words target top.phys vaddr).1,
        if (walkEnd after.words target top.phys vaddr).2.getLsbD 0 then
          some (walkEnd after.words target top.phys vaddr).2
        else
          none) := by
  rw [← treeEnd_tableTree, made.created.tree, listTable]

/-- Every covered address of the lower half has a leaf, at the highest level that is possible. -/
theorem CreatedTop.leafLevel (proper : Proper mapList flags) (limit : allowHuge ≤ .pdpt)
    (made : CreatedTop platform mapList flags allowHuge target memory top news after)
    (low : vaddr < 2 ^ 47) {flag : PageEntryFlags}
    (last : lastFlags (mapList.zip flags) vaddr = some flag) :
    (walkEnd after.words target top.phys vaddr).2.getLsbD 0 = true ∧
      LeafLevel allowHuge (lastFlags (mapList.zip flags)) target vaddr flag
        (walkEnd after.words target top.phys vaddr).1 := by
  have size : 2 ^ 47 ≤ 512 * target.entrySize := by rcases made.kind with rfl | rfl <;> decide
  have below : vaddr < 512 * target.entrySize := low.trans_le size
  have physical : vaddr < 2 ^ 52 := low.trans (by decide)
  have runs := made.blockRuns proper below
  have covered := (runs.agree vaddr runs.above runs.below).trans last
  have translated := translates_of_tree platform.crates limit made.kind runs.tidy
    (fun index => congrArg (erasePat target) (made.created.tree index)) below physical
  rw [covered] at translated
  have present := walkEnd_present translated
  have level := treeEnd_listEntry_level platform.crates allowHuge vaddr target _
    (top.memoryMapping.1.zip top.memoryMapping.2) runs.aligned runs.above runs.below
  rw [made.treeEnd, if_pos present] at level
  rw [level rfl]
  exact ⟨present, proper.leafLevel made.aligned made.normalized last⟩

end Create

/-- `create_page_table` uses huge pages maximally: the leaf of a covered address sits at the highest
admitted level at which the block around the address is covered with equal flags, and tables exist
only above covered addresses. -/
theorem createPageTable_leafLevel (platform : Platform) {mapList : List MemRangeData}
    {flags : List PageEntryFlags} {allowHugeAt target : PageLevel} {memory after : TableMemory}
    {top : TopPageTable} (proper : Proper mapList flags) (limit : allowHugeAt ≤ .pdpt)
    (run : createPageTable platform mapList flags allowHugeAt target memory = (.ok top, after)) :
    (∀ vaddr < 2 ^ 47, ∀ flag, lastFlags (mapList.zip flags) vaddr = some flag →
      (walkEnd after.words target top.phys vaddr).2.getLsbD 0 = true ∧
      (walkEnd after.words target top.phys vaddr).1 ≤ allowHugeAt ∧
      UniformBlock (lastFlags (mapList.zip flags)) (walkEnd after.words target top.phys vaddr).1
        vaddr flag ∧
      ∀ higher ≤ allowHugeAt, (walkEnd after.words target top.phys vaddr).1.rank < higher.rank →
        ¬ UniformBlock (lastFlags (mapList.zip flags)) higher vaddr flag) ∧
    ∀ vaddr < 512 * target.entrySize, ∀ higher ≤ target,
      (walkEnd after.words target top.phys vaddr).1.rank < higher.rank →
      ∃ address, blockStart higher vaddr ≤ address ∧
        address < blockStart higher vaddr + higher.entrySize ∧
        lastFlags (mapList.zip flags) address ≠ none := by
  obtain ⟨news, made⟩ := (createPageTable_ends platform _ _ _ _ _).of_ok run
  constructor
  · intro vaddr low flag last
    have below : allowHugeAt.rank ≤ target.rank := by
      have high : PageLevel.pdpt.rank ≤ target.rank := by rcases made.kind with rfl | rfl <;> decide
      exact Nat.le_trans limit high
    obtain ⟨present, leaf⟩ := made.leafLevel proper limit low last
    refine ⟨present, ?_, leaf.uniform, fun higher allowed more => ?_⟩
    · rcases leaf.allowed with bottom | allowed
      · rw [bottom]
        exact Nat.zero_le _
      · exact allowed
    · exact leaf.highest higher more (Nat.le_trans allowed below) allowed
  · intro vaddr low higher within more
    have deeper : (treeEnd (listEntry platform.crates allowHugeAt target
        (0 + target.getIndex vaddr * target.entrySize)
        (top.memoryMapping.1.zip top.memoryMapping.2)) target vaddr).1.rank < higher.rank := by
      rw [made.treeEnd]
      exact more
    exact treeEnd_covered target _ _ (made.blockRuns proper low) higher deeper within

/-- A 2 MiB block and one page more: the block is one page of the directory, the rest is not. -/
theorem createPageTable_leafLevel_block :
    ∃ top after,
      createPageTable (bumpPlatform 0) [⟨0x200000, 0x201000⟩] [.dataFlags] .pdpt .pml4
        emptyMemory = (.ok top, after) ∧
      (walkEnd after.words .pml4 top.phys 0x200000).1 = .pd := by
  have requestable : Requestable (512 * PageLevel.pml4.entrySize) [⟨0x200000, 0x201000⟩]
      [.dataFlags] := requestable_of_physical (.inl rfl) rfl (by decide) (by decide) (by simp)
  have proper : Proper [⟨0x200000, 0x201000⟩] [.dataFlags] := ⟨rfl, by decide, by decide⟩
  obtain ⟨top, after, -, run, -⟩ := createPageTable_run (bumpPlatform 0) .pdpt requestable
    (.inr rfl) (bumpAllocator_serves (by decide)) fun frame request => bumpAllocator_first request
  refine ⟨top, after, run, ?_⟩
  have uniform : UniformBlock (lastFlags (List.zip [⟨0x200000, 0x201000⟩] [.dataFlags])) .pd
      0x200000 .dataFlags := uniformBlock_single _ (by decide) (by decide)
  have outside : lastFlags (List.zip [⟨0x200000, 0x201000⟩] [.dataFlags]) 0 = none := by decide
  obtain ⟨-, allowed, found, highest⟩ :=
    (createPageTable_leafLevel (bumpPlatform 0) proper (by decide) run).1 0x200000 (by decide)
      .dataFlags (by decide)
  cases level : (walkEnd after.words .pml4 top.phys 0x200000).1 with
  | pt =>
      rw [level] at highest
      exact absurd uniform (highest .pd (by decide) (by decide))
  | pd => rfl
  | pdpt =>
      rw [level] at found
      exact absurd (found 0 (by decide) (by decide)) (by rw [outside]; nofun)
  | pml4 =>
      rw [level] at allowed
      exact absurd allowed (by decide)
  | pml5 =>
      rw [level] at allowed
      exact absurd allowed (by decide)

/-- A 2 MiB block is one page unless only small pages are admitted. -/
theorem hugeBlock_create (flag : PageEntryFlags) {allowHuge : PageLevel}
    (limit : allowHuge ≤ .pdpt) :
    ∃ top after,
      createPageTable (bumpPlatform 0) [⟨0x200000, 0x200000⟩] [flag] allowHuge .pml4
        emptyMemory = (.ok top, after) ∧
      top.level = .pml4 ∧
      lastFlags (List.zip [⟨0x200000, 0x200000⟩] [flag]) 0x200000 = some flag ∧
      (walkEnd after.words .pml4 top.phys 0x200000).2.getLsbD 0 = true ∧
      ((walkEnd after.words .pml4 top.phys 0x200000).1 = .pt ↔ allowHuge = .pt) := by
  have requestable : Requestable (512 * PageLevel.pml4.entrySize) [⟨0x200000, 0x200000⟩]
      [flag] := requestable_of_physical (.inl rfl) rfl (by decide) (by decide) (by simp)
  have proper : Proper [⟨0x200000, 0x200000⟩] [flag] := ⟨rfl, by decide, by decide⟩
  obtain ⟨top, after, news, run, made⟩ := createPageTable_run (bumpPlatform 0) allowHuge
    requestable (.inr rfl) (bumpAllocator_serves (by decide))
    fun frame request => bumpAllocator_first request
  have uniform : UniformBlock (lastFlags (List.zip [⟨0x200000, 0x200000⟩] [flag])) .pd
      0x200000 flag := uniformBlock_single _ (by decide) (by decide)
  have last := uniform 0x200000 (by decide) (by decide)
  obtain ⟨present, leaf⟩ := made.leafLevel proper limit (by decide) last
  refine ⟨top, after, run, made.level, last, present, fun bottom => ?_, fun small => ?_⟩
  · by_contra huge
    refine leaf.highest .pd (by rw [bottom]; decide) (by decide) ?_ uniform
    cases allowHuge <;> first | exact absurd rfl huge | decide
  · rcases leaf.allowed with bottom | allowed
    · exact bottom
    · rw [small] at allowed
      exact rank_injective (Nat.le_zero.mp allowed)

/-! ## A range that wraps -/

/-- A table that no range meets stays empty, and creating it takes one frame. -/
theorem createRecursive_unmet (platform : Platform) (vaddrBase : Nat) (level : PageLevel)
    {maps : List Mapping} (allowHuge : PageLevel) (memory : TableMemory)
    (unmet : ∀ vstart vend, subMaps platform.profile vstart vend maps = some []) :
    Ends (createRecursive platform vaddrBase level maps allowHuge) memory
      (fun table _ => platform.allocator.allocZeroed memory.history = some table)
      (fun _ _ => platform.allocator.allocZeroed memory.history = none) := by
  rw [createRecursive, descend_eq, createTable, ends_bind]
  refine (allocTable_ends platform memory).mono ?_ fun _ _ refused => refused
  rintro table _ ⟨request, -⟩
  rw [ends_bind]
  refine (forEach_ends (fun _ _ => True) trivial fun done index rest current _ _ => ?_).mono
    (fun _ _ _ => request) fun _ _ failed => failed
  rw [createEntry, unmet]
  trivial

/-- A range whose end is computed as 0 meets no block. -/
theorem subMaps_wrapped {profile : Profile} {range : MemRangeData}
    (stop : range.end? profile = some 0) (flag : PageEntryFlags) (vstart vend : Nat) :
    subMaps profile vstart vend [(range, flag)] = some [] := by
  by_cases meeting : range.start < vend <;> simp [subMaps, rangeMeets, stop, meeting]

/-- In a build without overflow checks the end of a range that reaches the top of the address space
is 0: nothing is mapped, although the range covers the second page. -/
theorem createPageTable_not_leafLevel :
    ∃ top after,
      createPageTable { bumpPlatform 0 with profile := .release } [⟨4096, 2 ^ 64 - 4096⟩]
        [.dataFlags] .pt .pml4 emptyMemory = (.ok top, after) ∧
      lastFlags [(⟨4096, 2 ^ 64 - 4096⟩, .dataFlags)] 4096 = some .dataFlags ∧
      (walkEnd after.words .pml4 top.phys 4096).2.getLsbD 0 = false := by
  have stop : MemRangeData.end? .release ⟨4096, 2 ^ 64 - 4096⟩ = some 0 := by decide
  have ends : Ends (createPageTable { bumpPlatform 0 with profile := .release }
      [⟨4096, 2 ^ 64 - 4096⟩] [.dataFlags] .pt .pml4) emptyMemory (fun _ _ => True)
      (fun _ _ => False) := by
    rw [createPageTable, if_neg (by decide), if_neg (by decide), ends_bind,
      ends_ofOption_of_some _ (normalizeMapList_single stop _)]
    dsimp only
    rw [if_pos (.inr rfl), ends_bind]
    refine (createRecursive_unmet { bumpPlatform 0 with profile := .release } 0 .pml4 .pt
      emptyMemory (subMaps_wrapped stop _)).mono ?_ ?_
    · intro table after request
      have low := bumpAllocator_first request
      have bounded : table < 2 ^ 52 := by omega
      rw [ends_bind, ends_ofOption_of_some _ ((bumpPlatform 0).crates.physAddrNew_eq table bounded),
        ends_bind, ends_ofOption_of_some _ ((bumpPlatform 0).crates.virtAddrNew_eq table low)]
      trivial
    · intro _ _ refused
      exact bumpAllocator_serves
        (show highestFrame 0 emptyMemory.history + 4096 * 1 < 2 ^ 52 by decide)
        ⟨[], trivial, Nat.one_pos, refused⟩
  obtain ⟨top, after, run, -⟩ := ends.exists_ok fun _ _ failed => failed
  obtain ⟨news, made⟩ := (createPageTable_ends _ _ _ _ _ _).of_ok run
  refine ⟨top, after, run, by decide, ?_⟩
  have lists : ([⟨4096, 2 ^ 64 - 4096⟩], [.dataFlags]) = top.memoryMapping :=
    Option.some.inj ((normalizeMapList_single stop _).symm.trans made.normalized)
  have ending := made.treeEnd 4096
  rw [← lists, listEntry_empty (by decide)] at ending
  have missing := congrArg Prod.snd ending
  cases present : (walkEnd after.words .pml4 top.phys 4096).2.getLsbD 0 with
  | false => rfl
  | true =>
      rw [present] at missing
      cases missing

end Okots
