import Okots.Paging.Built

/-!
# Attributes of leaves

Every leaf has the attributes of the last range that covers its addresses, except for PAT.  A page
never has PAT, since `to_ptf` leaves it out.  A huge leaf has PAT where it was requested, and in a
table created by the call also where HUGE was: `create_recursive` takes the bit of HUGE, which
`to_pdptf` and `to_pdf` have set, for a PAT bit that it must move.
-/

namespace Okots

open PageLevel LastWriter

/-- The attributes of a leaf. -/
structure LeafAttributes where
  /-- Writable. -/
  writable : Bool
  /-- Accessible in user mode. -/
  user : Bool
  /-- Write-through. -/
  pwt : Bool
  /-- Not cached. -/
  pcd : Bool
  /-- PAT. -/
  pat : Bool
  /-- Accessed. -/
  accessed : Bool
  /-- Dirty. -/
  dirty : Bool
  /-- Global. -/
  global : Bool
  /-- Not executable. -/
  executeDisable : Bool
  deriving DecidableEq

/-- The attributes that the hardware reads in a leaf. -/
def leafAttributes (level : PageLevel) (entry : BitVec 64) : LeafAttributes where
  writable := entry.getLsbD 1
  user := entry.getLsbD 2
  pwt := entry.getLsbD 3
  pcd := entry.getLsbD 4
  pat := patBit level entry
  accessed := entry.getLsbD 5
  dirty := entry.getLsbD 6
  global := entry.getLsbD 8
  executeDisable := entry.getLsbD 63

/-- The attributes that flags ask for. -/
def requestedAttributes (flags : PageEntryFlags) : LeafAttributes where
  writable := flags.contains .writable
  user := flags.contains .userPage
  pwt := flags.contains .pwt
  pcd := flags.contains .pcd
  pat := flags.contains .pat
  accessed := flags.contains .accessed
  dirty := flags.contains .dirty
  global := flags.contains .global
  executeDisable := flags.contains .executeDisable

/-- Flags carried by a leaf are its attributes, up to PAT. -/
theorem CarriesFlags.leafAttributes {flags : PageEntryFlags} {level : PageLevel}
    {entry : BitVec 64} (carries : CarriesFlags flags entry) :
    leafAttributes level entry =
      { requestedAttributes flags with pat := patBit level entry } := by
  simp only [Okots.leafAttributes, requestedAttributes, PageEntryFlags.writable,
    PageEntryFlags.userPage, PageEntryFlags.pwt, PageEntryFlags.pcd, PageEntryFlags.accessed,
    PageEntryFlags.dirty, PageEntryFlags.global, PageEntryFlags.executeDisable, carries.writable,
    carries.user, carries.pwt, carries.pcd, carries.accessed, carries.dirty, carries.global,
    carries.executeDisable]
  rw [PageEntryFlags.contains_flag, PageEntryFlags.contains_flag, PageEntryFlags.contains_flag,
    PageEntryFlags.contains_flag, PageEntryFlags.contains_flag, PageEntryFlags.contains_flag,
    PageEntryFlags.contains_flag, PageEntryFlags.contains_flag]
  all_goals decide

/-- A leaf at the level has PAT exactly if it is requested. -/
def PatKept (level : PageLevel) (created : Bool) (flags : PageEntryFlags) : Prop :=
  if level = .pt then
    flags.contains .pat = false
  else
    flags.contains .pat = true ∨ created = false ∨ flags.contains .huge = false

theorem LeafOf.leafAttributes_iff {crates : X86Crates} {allowHuge level : PageLevel}
    {created : Bool} {vaddr : Nat} {maps : List Mapping} {entry : BitVec 64} {map : Mapping}
    (limit : allowHuge ≤ .pdpt)
    (leaf : LeafOf crates allowHuge created maps vaddr level entry map) :
    leafAttributes level entry = requestedAttributes map.2 ↔ PatKept level created map.2 := by
  have onlyPat : leafAttributes level entry = requestedAttributes map.2 ↔
      patBit level entry = map.2.contains .pat := by
    refine ⟨congrArg LeafAttributes.pat, fun pat => ?_⟩
    rw [(leaf.carries limit).leafAttributes, pat]
    rfl
  rw [onlyPat, leaf.pat limit, PatKept]
  by_cases bottom : level = .pt
  · rw [if_pos bottom, decide_eq_false (not_not.mpr bottom), Bool.false_and]
    exact eq_comm
  · rw [if_neg bottom, decide_eq_true bottom, Bool.true_and]
    cases map.2.contains .pat <;> cases created <;> simp

variable {platform : Platform} {allowHuge : PageLevel} {mapList : List MemRangeData}
  {flags : List PageEntryFlags} {before : Option TableMemory} {top : TopPageTable}
  {after : TableMemory} {vaddr : Nat}

/-- The leaf of a covered address has the attributes of the last range that covers it if and only if
PAT is kept at the level that the lists give; without empty ranges, that is the highest admitted
level at which the block around the address is covered with equal flags. -/
theorem leafAttributes_requested_iff
    (built : BuiltTree platform allowHuge mapList flags before top after)
    (limit : allowHuge ≤ .pdpt) (aligned : ∀ range ∈ mapList, range.Aligned)
    (fits : ∀ range ∈ mapList, range.Fits) (low : vaddr < 512 * top.level.entrySize)
    {lists : List MemRangeData × List PageEntryFlags}
    (normalized : normalizeMapList platform.profile platform.sort mapList flags = some lists)
    {flag : PageEntryFlags} (last : lastFlags (mapList.zip flags) vaddr = some flag) :
    (vaddr < 2 ^ 52 → (walkEnd after.words top.level top.phys vaddr).2.getLsbD 0 = true) ∧
    ((walkEnd after.words top.level top.phys vaddr).2.getLsbD 0 = true →
      (leafAttributes (walkEnd after.words top.level top.phys vaddr).1
          (walkEnd after.words top.level top.phys vaddr).2 = requestedAttributes flag ↔
        PatKept (leafLevel allowHuge (lists.1.zip lists.2) vaddr top.level)
          (inNewTable before top vaddr
            (leafLevel allowHuge (lists.1.zip lists.2) vaddr top.level)) flag)) ∧
    (Proper mapList flags → LeafLevel allowHuge (lastFlags (mapList.zip flags)) top.level vaddr flag
      (leafLevel allowHuge (lists.1.zip lists.2) vaddr top.level)) := by
  refine ⟨fun physical => ?_, fun present => ?_, fun proper => ?_⟩
  · have translated := built.translates_physical limit aligned fits low physical
    rw [last] at translated
    exact walkEnd_present translated
  · obtain ⟨maps, map, found, leaf⟩ := built.leafOf_lastFlags aligned fits low present
    obtain rfl := Option.some.inj (found.symm.trans last)
    rw [← built.leafLevel normalized low present]
    exact leaf.leafAttributes_iff limit
  · exact proper.leafLevel aligned normalized last

/-- A 2 MiB block without PAT and HUGE has its attributes as one page. -/
theorem leafAttributes_requested_iff_dataBlock :
    ∃ top after,
      BuiltTree (bumpPlatform 0) .pdpt [⟨0x200000, 0x200000⟩] [.dataFlags] none top after ∧
      (walkEnd after.words top.level top.phys 0x200000).1 ≠ .pt ∧
      leafAttributes (walkEnd after.words top.level top.phys 0x200000).1
        (walkEnd after.words top.level top.phys 0x200000).2 = requestedAttributes .dataFlags := by
  obtain ⟨top, after, maps, map, built, level, -, leaf, huge⟩ :=
    hugeBlock_leafOf .dataFlags (show PageLevel.pdpt ≤ .pdpt by decide)
  have inner := huge.not.mpr (by decide)
  have low : 0x200000 < 512 * top.level.entrySize := by
    rw [level]
    decide
  have last : lastFlags (List.zip [⟨0x200000, 0x200000⟩] [.dataFlags]) 0x200000 =
      some .dataFlags := by decide
  obtain ⟨lists, normalized, -⟩ := built.tree
  refine ⟨top, after, built, inner, ?_⟩
  apply ((leafAttributes_requested_iff built (by decide) (by decide) (by decide) low normalized
    last).2.1 leaf.present).mpr
  rw [PatKept, ← built.leafLevel normalized low leaf.present, if_neg inner]
  exact .inr (.inr (by decide))

/-- PAT of the leaf of a 2 MiB block. -/
theorem hugeBlock_pat (flag : PageEntryFlags) {allowHuge : PageLevel}
    (limit : allowHuge ≤ .pdpt) :
    ∃ top after,
      BuiltTree (bumpPlatform 0) allowHuge [⟨0x200000, 0x200000⟩] [flag] none top after ∧
      (leafAttributes (walkEnd after.words top.level top.phys 0x200000).1
        (walkEnd after.words top.level top.phys 0x200000).2).pat =
        (decide (allowHuge ≠ .pt) && (flag.contains .pat || flag.contains .huge)) := by
  obtain ⟨top, after, maps, map, built, -, rfl, leaf, huge⟩ := hugeBlock_leafOf flag limit
  refine ⟨top, after, built, ?_⟩
  have bit := leaf.pat limit
  rw [decide_eq_decide.mpr huge.not, Bool.true_and] at bit
  exact bit

/-- A 2 MiB block with PAT has PAT as one page and not as 512 pages, and a block with HUGE has PAT
although it is not requested. -/
theorem leafAttributes_not_requested :
    ∃ top after small smallAfter hinted hintedAfter,
      BuiltTree (bumpPlatform 0) .pdpt [⟨0x200000, 0x200000⟩]
        [PageEntryFlags.dataFlags.union .pat] none top after ∧
      BuiltTree (bumpPlatform 0) .pt [⟨0x200000, 0x200000⟩]
        [PageEntryFlags.dataFlags.union .pat] none small smallAfter ∧
      BuiltTree (bumpPlatform 0) .pdpt [⟨0x200000, 0x200000⟩]
        [PageEntryFlags.dataFlags.union .huge] none hinted hintedAfter ∧
      (leafAttributes (walkEnd after.words top.level top.phys 0x200000).1
        (walkEnd after.words top.level top.phys 0x200000).2).pat = true ∧
      (leafAttributes (walkEnd smallAfter.words small.level small.phys 0x200000).1
        (walkEnd smallAfter.words small.level small.phys 0x200000).2).pat = false ∧
      (leafAttributes (walkEnd hintedAfter.words hinted.level hinted.phys 0x200000).1
        (walkEnd hintedAfter.words hinted.level hinted.phys 0x200000).2).pat = true := by
  obtain ⟨top, after, built, set⟩ := hugeBlock_pat (PageEntryFlags.dataFlags.union .pat)
    (show PageLevel.pdpt ≤ .pdpt by decide)
  obtain ⟨small, smallAfter, smallBuilt, clear⟩ :=
    hugeBlock_pat (PageEntryFlags.dataFlags.union .pat) (show PageLevel.pt ≤ .pdpt by decide)
  obtain ⟨hinted, hintedAfter, hintedBuilt, hint⟩ :=
    hugeBlock_pat (PageEntryFlags.dataFlags.union .huge) (show PageLevel.pdpt ≤ .pdpt by decide)
  exact ⟨top, after, small, smallAfter, hinted, hintedAfter, built, smallBuilt, hintedBuilt,
    set.trans (by decide), clear.trans (by decide), hint.trans (by decide)⟩

end Okots
