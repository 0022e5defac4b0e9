import Okots.Paging.Tree
import Mathlib.Tactic.Positivity

/-!
# The tree of a list of ranges

The tree that a list of ranges asks for, as a function of the list alone, and its translation.  The
builders are compared with this tree entry by entry; that it translates every address as the list
says is proved here once, without memory.
-/

namespace Okots

open PageLevel LastWriter

/-! ## Selected ranges -/

/-- The range meets `[rangeVstart, rangeVend)`. -/
def meets (rangeVstart rangeVend : Nat) (map : Mapping) : Bool :=
  decide (map.1.start < rangeVend ∧ rangeVstart < map.1.wrappedEnd)

/-- The ranges that meet the block of an entry. -/
def blockMaps (level : PageLevel) (vstart : Nat) (maps : List Mapping) : List Mapping :=
  maps.filter (meets vstart (vstart + level.entrySize))

theorem subMaps_eq_filter {profile : Profile} {rangeVstart rangeVend : Nat}
    {maps sub : List Mapping} (selected : subMaps profile rangeVstart rangeVend maps = some sub) :
    sub = maps.filter (meets rangeVstart rangeVend) := by
  induction maps generalizing sub with
  | nil => simpa [subMaps] using selected.symm
  | cons map rest induction =>
      rw [subMaps, Option.bind_eq_bind, Option.bind_eq_some_iff] at selected
      obtain ⟨found, test, selected⟩ := selected
      rw [Option.bind_eq_bind, Option.bind_eq_some_iff] at selected
      obtain ⟨subRest, restSelected, result⟩ := selected
      have agrees : found = meets rangeVstart rangeVend map := by
        unfold rangeMeets at test
        split at test
        · rename_i below
          obtain ⟨stop, ends, rfl⟩ := Option.map_eq_some_iff.mp test
          simp [meets, below, MemRangeData.wrappedEnd_of_end? ends]
        · rename_i above
          simp [meets, above, ← Option.some.inj test]
      rw [← Option.some.inj result, induction restSelected, agrees, List.filter_cons]

theorem subMaps_eq_some (profile : Profile) (rangeVstart rangeVend : Nat) {maps : List Mapping}
    (fits : ∀ map ∈ maps, map.1.Fits) :
    subMaps profile rangeVstart rangeVend maps =
      some (maps.filter (meets rangeVstart rangeVend)) := by
  suffices succeeds : ∃ sub, subMaps profile rangeVstart rangeVend maps = some sub by
    obtain ⟨sub, selected⟩ := succeeds
    rw [selected, subMaps_eq_filter selected]
  induction maps with
  | nil => exact ⟨[], rfl⟩
  | cons map rest induction =>
      obtain ⟨subRest, restSelected⟩ := induction fun other member =>
        fits other (List.mem_cons_of_mem _ member)
      rw [subMaps, restSelected, rangeMeets,
        MemRangeData.end?_of_fits profile (fits map List.mem_cons_self)]
      split <;> exact ⟨_, rfl⟩

theorem canBeHuge_eq_some {level allowHuge : PageLevel} {rangeVstart rangeVend : Nat}
    {sub : List Mapping} {flags : PageEntryFlags}
    (fits : canBeHuge level allowHuge rangeVstart rangeVend sub = some flags) :
    ∃ map, sub = [(map, flags)] ∧ level ≠ .pt ∧ level ≤ allowHuge ∧ map.start ≤ rangeVstart ∧
      rangeVend ≤ map.wrappedEnd := by
  unfold canBeHuge at fits
  split at fits
  · rename_i map found
    split at fits
    · rename_i conditions
      obtain rfl := Option.some.inj fits
      exact ⟨map, rfl, conditions⟩
    · simp at fits
  · simp at fits

theorem canBeHuge_pt (allowHuge : PageLevel) (rangeVstart rangeVend : Nat) (sub : List Mapping) :
    canBeHuge .pt allowHuge rangeVstart rangeVend sub = none := by
  cases huge : canBeHuge .pt allowHuge rangeVstart rangeVend sub with
  | none => rfl
  | some flags =>
      obtain ⟨-, -, inner, -⟩ := canBeHuge_eq_some huge
      exact absurd rfl inner

/-! ## The tree -/

/-- The entry at `level` for the block at `vstart`. -/
def listEntry (crates : X86Crates) (allowHuge : PageLevel) :
    PageLevel → Nat → List Mapping → PageTree :=
  descend fun level lower vstart maps =>
    match blockMaps level vstart maps with
    | [] => .absent
    | first :: rest =>
        match canBeHuge level allowHuge vstart (vstart + level.entrySize) (first :: rest) with
        | some flags => leafTree ((createHugeEntry crates level vstart flags).getD 0)
        | none =>
            match lower with
            | some (next, build) =>
                .relay 7 fun index => build (vstart + index * next.entrySize) (first :: rest)
            | none => leafTree ((pageEntry crates vstart first.2).getD 0)

/-- The entries of the table at `level` for the block at `vaddrBase`. -/
def listTable (crates : X86Crates) (allowHuge level : PageLevel) (vaddrBase : Nat)
    (maps : List Mapping) (index : Fin 512) : PageTree :=
  listEntry crates allowHuge level (vaddrBase + index * level.entrySize) maps

section Equations

variable {crates : X86Crates} {allowHuge level : PageLevel} {vstart : Nat} {maps : List Mapping}

theorem listEntry_empty (none : blockMaps level vstart maps = []) :
    listEntry crates allowHuge level vstart maps = .absent := by
  rw [listEntry, descend_eq]
  simp only [none]

/-- Only the ranges that meet the block matter. -/
theorem listEntry_congr {others : List Mapping}
    (same : blockMaps level vstart maps = blockMaps level vstart others) :
    listEntry crates allowHuge level vstart maps =
      listEntry crates allowHuge level vstart others := by
  rw [listEntry, descend_eq]
  simp only [same]

theorem listEntry_hugeLeaf {flags : PageEntryFlags}
    (huge : canBeHuge level allowHuge vstart (vstart + level.entrySize)
      (blockMaps level vstart maps) = some flags) :
    listEntry crates allowHuge level vstart maps =
      leafTree ((createHugeEntry crates level vstart flags).getD 0) := by
  obtain ⟨map, single, -⟩ := canBeHuge_eq_some huge
  rw [single] at huge
  rw [listEntry, descend_eq]
  simp only [single, huge]

theorem listEntry_huge {flags : PageEntryFlags} {entry : BitVec 64}
    (huge : canBeHuge level allowHuge vstart (vstart + level.entrySize)
      (blockMaps level vstart maps) = some flags)
    (built : createHugeEntry crates level vstart flags = some entry) :
    listEntry crates allowHuge level vstart maps = leafTree entry := by
  rw [listEntry_hugeLeaf huge, built, Option.getD_some]

theorem listEntry_relay {next : PageLevel} (some : blockMaps level vstart maps ≠ [])
    (small : canBeHuge level allowHuge vstart (vstart + level.entrySize)
      (blockMaps level vstart maps) = none)
    (step : level.down = .some next) :
    listEntry crates allowHuge level vstart maps =
      .relay 7 (listTable crates allowHuge next vstart (blockMaps level vstart maps)) := by
  obtain ⟨first, rest, nonempty⟩ := List.exists_cons_of_ne_nil some
  rw [nonempty] at small
  rw [listEntry, descend_eq]
  simp only [nonempty, small, step, Option.map_some]
  rfl

theorem listEntry_pageLeaf {first : Mapping} {rest : List Mapping}
    (some : blockMaps .pt vstart maps = first :: rest) :
    listEntry crates allowHuge .pt vstart maps =
      leafTree ((pageEntry crates vstart first.2).getD 0) := by
  rw [listEntry, descend_eq]
  simp only [some, canBeHuge_pt, down, Option.map_none]

theorem listEntry_page {first : Mapping} {rest : List Mapping} {entry : BitVec 64}
    (some : blockMaps .pt vstart maps = first :: rest)
    (built : pageEntry crates vstart first.2 = .some entry) :
    listEntry crates allowHuge .pt vstart maps = leafTree entry := by
  rw [listEntry_pageLeaf some, built, Option.getD_some]

end Equations

/-! ## Blocks -/

/-- The block of an entry at `level` starts at `vstart` and ends at most at `bound`. -/
structure Block (bound : Nat) (level : PageLevel) (vstart : Nat) : Prop where
  aligned : level.entrySize ∣ vstart
  bounded : vstart + level.entrySize ≤ bound

/-- The block of a table at `level` starts at `vaddrBase` and ends at most at `bound`. -/
structure TableBlock (bound : Nat) (level : PageLevel) (vaddrBase : Nat) : Prop where
  aligned : 512 * level.entrySize ∣ vaddrBase
  bounded : vaddrBase + 512 * level.entrySize ≤ bound

theorem TableBlock.entry {bound : Nat} {level : PageLevel} {vaddrBase : Nat}
    (block : TableBlock bound level vaddrBase) (index : Fin 512) :
    Block bound level (vaddrBase + index * level.entrySize) where
  aligned :=
    Nat.dvd_add (Nat.dvd_trans (Nat.dvd_mul_left _ _) block.aligned) (Nat.dvd_mul_left _ _)
  bounded := by
    have within : (index + 1) * level.entrySize ≤ 512 * level.entrySize :=
      Nat.mul_le_mul_right _ index.isLt
    have bounded := block.bounded
    rw [Nat.succ_mul] at within
    omega

theorem Block.table {bound : Nat} {level next : PageLevel} {vstart : Nat}
    (block : Block bound level vstart) (step : level.down = some next) :
    TableBlock bound next vstart where
  aligned := entrySize_down step ▸ block.aligned
  bounded := entrySize_down step ▸ block.bounded

/-- The entry of a table block that contains an address. -/
theorem TableBlock.getIndex {bound : Nat} {level : PageLevel} {vaddrBase vaddr : Nat}
    (block : TableBlock bound level vaddrBase) (above : vaddrBase ≤ vaddr)
    (below : vaddr < vaddrBase + 512 * level.entrySize) :
    vaddrBase + level.getIndex vaddr * level.entrySize ≤ vaddr ∧
      vaddr < vaddrBase + level.getIndex vaddr * level.entrySize + level.entrySize := by
  have aligned := block.aligned
  cases level <;>
    simp only [PageLevel.getIndex, entrySize, shift, rank, Nat.shiftRight_eq_div_pow,
      Nat.shiftLeft_eq] at * <;>
    omega

/-- A list whose blocks below `bound` have entries. -/
structure Buildable (bound : Nat) (maps : List Mapping) : Prop where
  tidy : Tidy 4096 maps
  encodable : ∀ map ∈ maps, ∀ address < bound, covers map address = true → address < 2 ^ 52

theorem Tidy.blockMaps {maps : List Mapping} (tidy : Tidy 4096 maps) (level : PageLevel)
    (vstart : Nat) : Tidy 4096 (blockMaps level vstart maps) where
  disjoint := tidy.disjoint.filter _
  fits map member := tidy.fits map (List.mem_of_mem_filter member)
  granular map member := tidy.granular map (List.mem_of_mem_filter member)

theorem Buildable.blockMaps {bound : Nat} {maps : List Mapping} (buildable : Buildable bound maps)
    (level : PageLevel) (vstart : Nat) : Buildable bound (blockMaps level vstart maps) where
  tidy := buildable.tidy.blockMaps level vstart
  encodable map member := buildable.encodable map (List.mem_of_mem_filter member)

/-- The ranges outside a block do not matter inside it. -/
theorem lastFlags_blockMaps {maps : List Mapping} (fits : ∀ map ∈ maps, map.1.Fits)
    {level : PageLevel} {vstart vaddr : Nat} (above : vstart ≤ vaddr)
    (below : vaddr < vstart + level.entrySize) :
    lastFlags (blockMaps level vstart maps) vaddr = lastFlags maps vaddr := by
  refine lastWriter_filter fun map member covered => ?_
  have range := covers_iff.mp covered
  have stop := MemRangeData.wrappedEnd_of_fits (fits map member)
  simp only [meets, decide_eq_true_eq, stop]
  omega

theorem Buildable.lastFlags_blockMaps {bound : Nat} {maps : List Mapping}
    (buildable : Buildable bound maps) {level : PageLevel} {vstart vaddr : Nat}
    (above : vstart ≤ vaddr) (below : vaddr < vstart + level.entrySize) :
    lastFlags (Okots.blockMaps level vstart maps) vaddr = lastFlags maps vaddr :=
  Okots.lastFlags_blockMaps buildable.tidy.fits above below

section Leaves

variable {bound : Nat} {maps : List Mapping} {vstart : Nat}

/-- A huge entry is chosen for a block inside one range. -/
theorem Buildable.huge {level allowHuge : PageLevel} {flags : PageEntryFlags}
    (buildable : Buildable bound maps)
    (huge : canBeHuge level allowHuge vstart (vstart + level.entrySize)
      (Okots.blockMaps level vstart maps) = some flags) :
    ∃ map, (map, flags) ∈ Okots.blockMaps level vstart maps ∧ map.start ≤ vstart ∧
      vstart + level.entrySize ≤ map.start + map.len := by
  obtain ⟨map, single, -, -, above, below⟩ := canBeHuge_eq_some huge
  have member : (map, flags) ∈ Okots.blockMaps level vstart maps := by simp [single]
  have fits := (buildable.blockMaps level vstart).tidy.fits _ member
  rw [MemRangeData.wrappedEnd_of_fits fits] at below
  exact ⟨map, member, above, below⟩

/-- A page that meets a range lies inside it. -/
theorem Tidy.page {map : Mapping} (tidy : Tidy 4096 maps) (aligned : 4096 ∣ vstart)
    (member : map ∈ Okots.blockMaps .pt vstart maps) :
    map.1.start ≤ vstart ∧ vstart + 4096 ≤ map.1.start + map.1.len := by
  obtain ⟨inMaps, meeting⟩ := List.mem_filter.mp member
  have granular := tidy.granular map inMaps
  rw [meets, decide_eq_true_eq, MemRangeData.wrappedEnd_of_fits (tidy.fits map inMaps),
    show PageLevel.pt.entrySize = 4096 by decide] at meeting
  omega

theorem Buildable.page {map : Mapping} (buildable : Buildable bound maps)
    (block : Block bound .pt vstart) (member : map ∈ Okots.blockMaps .pt vstart maps) :
    map.1.start ≤ vstart ∧ vstart + 4096 ≤ map.1.start + map.1.len :=
  buildable.tidy.page block.aligned member

/-- A block inside a range starts at a physical address. -/
theorem Buildable.physical {level : PageLevel} {map : Mapping} (buildable : Buildable bound maps)
    (block : Block bound level vstart) (member : map ∈ Okots.blockMaps level vstart maps)
    (above : map.1.start ≤ vstart) (below : vstart + level.entrySize ≤ map.1.start + map.1.len) :
    vstart < 2 ^ 52 := by
  have positive : 0 < level.entrySize := by rw [entrySize_eq]; positivity
  have bounded := block.bounded
  exact (buildable.blockMaps level vstart).encodable map member vstart (by omega)
    (covers_iff.mpr (by omega))

/-- The huge entry chosen for a block can be built, by either builder. -/
theorem Buildable.hugeEntry {level allowHuge : PageLevel} {flags : PageEntryFlags}
    (buildable : Buildable bound maps) (block : Block bound level vstart) (crates : X86Crates)
    (huge : canBeHuge level allowHuge vstart (vstart + level.entrySize)
      (Okots.blockMaps level vstart maps) = some flags) :
    (∃ entry, createHugeEntry crates level vstart flags = some entry) ∧
      ∃ entry, generateHugeEntry crates level vstart flags = some entry := by
  obtain ⟨map, member, above, below⟩ := buildable.huge huge
  have physical := buildable.physical block member above below
  by_cases kind : level = .pdpt ∨ level = .pd
  · obtain ⟨created, builtCreated, -⟩ :=
      createHugeEntry_mapsBlock crates kind flags block.aligned physical
    obtain ⟨generated, builtGenerated, -⟩ :=
      generateHugeEntry_mapsBlock crates kind flags block.aligned physical
    exact ⟨⟨created, builtCreated⟩, ⟨generated, builtGenerated⟩⟩
  · cases level with
    | pdpt | pd => simp at kind
    | pt | pml4 | pml5 => exact ⟨⟨0, rfl⟩, ⟨0, rfl⟩⟩

/-- The entry of a page that meets a range can be built. -/
theorem Buildable.pageEntry {map : Mapping} (buildable : Buildable bound maps)
    (block : Block bound .pt vstart) (crates : X86Crates) (flags : PageEntryFlags)
    (member : map ∈ Okots.blockMaps .pt vstart maps) :
    ∃ entry, pageEntry crates vstart flags = some entry := by
  have inside := buildable.page block member
  obtain ⟨entry, built, -⟩ := pageEntry_mapsBlock crates flags block.aligned
    (buildable.physical block member inside.1 inside.2)
  exact ⟨entry, built⟩

end Leaves

end Okots
