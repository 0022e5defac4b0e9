import Okots.Paging.HugePages
import Okots.Paging.Shortage

/-!
# Dropped requests

`create_page_table` can return `Ok` without having mapped every address of its list.  Addresses
behind the reach of the top table are not looked at, and an entry above the PDPT whose block passes
the test for a huge page is left empty, since no huge page of that size exists.  These are the only
two ways in which a request is dropped.
-/

namespace Okots

open StateExec Exec PageLevel LastWriter

/-! ## Translation by the processor -/

/-- The bits of the address above the translated ones repeat the highest translated bit. -/
def Canonical (target : PageLevel) (vaddr : Nat) : Prop :=
  vaddr < addressBound target ∨ 2 ^ 64 - addressBound target ≤ vaddr

instance (target : PageLevel) (vaddr : Nat) : Decidable (Canonical target vaddr) :=
  inferInstanceAs (Decidable (_ ∨ _))

/-- The processor refuses an address that is not canonical before it walks the tables. -/
def hardwareTranslate (words : TableWords) (target : PageLevel) (table vaddr : Nat) :
    Option Translation :=
  if Canonical target vaddr then hardwareWalk words target table vaddr Rights.all else none

theorem leafBase_isSome_iff {level : PageLevel} {entry : BitVec 64} :
    (leafBase level entry).isSome = true ↔ level ≤ .pdpt := by
  cases level with
  | pt | pd | pdpt => exact iff_of_true rfl (by decide)
  | pml4 | pml5 => exact iff_of_false Bool.false_ne_true (by decide)

/-- A walk succeeds when it ends at a present entry of a level that has leaves. -/
theorem hardwareWalk_isSome_iff (words : TableWords) (level : PageLevel) (table vaddr : Nat)
    (rights : Rights) :
    (hardwareWalk words level table vaddr rights).isSome = true ↔
      (walkEnd words level table vaddr).2.getLsbD 0 = true ∧
        (walkEnd words level table vaddr).1 ≤ .pdpt := by
  rw [← Option.isSome_map (f := Translation.phys), hardwareWalk_phys]
  split
  · rename_i present
    rw [Option.isSome_map, leafBase_isSome_iff]
    exact (and_iff_right present).symm
  · rename_i absent
    exact iff_of_false Bool.false_ne_true fun both => absent both.1

/-- A walk uses the translated bits of the address only. -/
theorem hardwareWalk_mod (words : TableWords) (level : PageLevel) (table vaddr : Nat)
    (rights : Rights) :
    hardwareWalk words level table (vaddr % (512 * level.entrySize)) rights =
      hardwareWalk words level table vaddr rights := by
  have index : level.getIndex (vaddr % (512 * level.entrySize)) = level.getIndex vaddr := by
    simp only [PageLevel.getIndex, Nat.shiftRight_eq_div_pow, ← entrySize_eq, Nat.mul_comm 512,
      Nat.mod_mul_right_div_self, Nat.mod_mod]
  rw [hardwareWalk_eq_treeWalk, hardwareWalk_eq_treeWalk, index, ← treeWalk_mod,
    Nat.mul_comm 512, Nat.mod_mul_right_mod, treeWalk_mod]

/-! ## Pages that do not exist -/

/-- The test for a huge page succeeds for the block around the address at a level without huge
pages. -/
def Oversized (allowHuge level : PageLevel) (maps : List Mapping) (vaddr : Nat) : Prop :=
  ∃ high : PageLevel, PageLevel.pdpt.rank < high.rank ∧ high ≤ level ∧
    canBeHuge high allowHuge (blockStart high vaddr) (blockStart high vaddr + high.entrySize)
      (blockMaps high (blockStart high vaddr) maps) ≠ none

section Oversized

variable {level next allowHuge : PageLevel} {vstart vaddr : Nat} {maps : List Mapping}

theorem not_oversized_of_low (low : level ≤ .pdpt) : ¬ Oversized allowHuge level maps vaddr := by
  rintro ⟨high, above, within, -⟩
  exact absurd (Nat.le_trans within low) (Nat.not_le.mpr above)

/-- With the limits that the kernel uses there is no such page. -/
theorem not_oversized_of_limit (limit : allowHuge ≤ .pdpt) :
    ¬ Oversized allowHuge level maps vaddr := by
  rintro ⟨high, above, -, chosen⟩
  obtain ⟨flags, choice⟩ := Option.ne_none_iff_exists'.mp chosen
  obtain ⟨-, -, -, allowed, -⟩ := canBeHuge_eq_some choice
  exact absurd (Nat.le_trans allowed limit) (Nat.not_le.mpr above)

/-- Where an entry is a table, the test has failed at its level. -/
theorem oversized_down (aligned : level.entrySize ∣ vstart) (above : vstart ≤ vaddr)
    (below : vaddr < vstart + level.entrySize) (step : level.down = some next)
    (small : canBeHuge level allowHuge vstart (vstart + level.entrySize)
      (blockMaps level vstart maps) = none) :
    Oversized allowHuge next (blockMaps level vstart maps) vaddr ↔
      Oversized allowHuge level maps vaddr := by
  have rank := rank_of_down step
  have same {high : PageLevel} (within : high ≤ level) :
      blockMaps high (blockStart high vaddr) (blockMaps level vstart maps) =
        blockMaps high (blockStart high vaddr) maps := by
    obtain ⟨first, last⟩ := blockStart_inside within aligned above below
    exact blockMaps_inside first last
  constructor
  · rintro ⟨high, more, within, chosen⟩
    have higher : high ≤ level := Nat.le_trans within (rank_down step).le
    rw [same higher] at chosen
    exact ⟨high, more, higher, chosen⟩
  · rintro ⟨high, more, within, chosen⟩
    have lower : high ≤ next := by
      by_contra top
      have notBelow : ¬ high.rank ≤ next.rank := top
      have notAbove : high.rank ≤ level.rank := within
      obtain rfl : high = level := rank_injective (by omega)
      rw [blockStart_eq aligned above below] at chosen
      exact chosen small
    rw [← same within] at chosen
    exact ⟨high, more, lower, chosen⟩

end Oversized

/-! ## Built entries -/

/-- Every leaf that the list asks for in the block of an entry can be built. -/
def Encoded (crates : X86Crates) (allowHuge : PageLevel) :
    PageLevel → Nat → List Mapping → Prop :=
  descend fun level lower vstart maps =>
    match blockMaps level vstart maps with
    | [] => True
    | first :: rest =>
        match canBeHuge level allowHuge vstart (vstart + level.entrySize) (first :: rest) with
        | some flags => ∃ entry, createHugeEntry crates level vstart flags = some entry
        | none =>
            match lower with
            | some (next, encoded) =>
                ∀ index : Fin 512, encoded (vstart + index * next.entrySize) (first :: rest)
            | none => ∃ entry, pageEntry crates vstart first.2 = some entry

section Encoded

variable {crates : X86Crates} {allowHuge level next : PageLevel} {vstart : Nat}
  {maps : List Mapping}

theorem encoded_huge_iff {flags : PageEntryFlags}
    (choice : canBeHuge level allowHuge vstart (vstart + level.entrySize)
      (blockMaps level vstart maps) = some flags) :
    Encoded crates allowHuge level vstart maps ↔
      ∃ entry, createHugeEntry crates level vstart flags = some entry := by
  obtain ⟨map, single, -⟩ := canBeHuge_eq_some choice
  rw [single] at choice
  rw [Encoded, descend_eq]
  simp only [single, choice]

theorem encoded_relay_iff (nonempty : blockMaps level vstart maps ≠ [])
    (small : canBeHuge level allowHuge vstart (vstart + level.entrySize)
      (blockMaps level vstart maps) = none) (step : level.down = some next) :
    Encoded crates allowHuge level vstart maps ↔
      ∀ index : Fin 512, Encoded crates allowHuge next (vstart + index * next.entrySize)
        (blockMaps level vstart maps) := by
  obtain ⟨first, rest, selected⟩ := List.exists_cons_of_ne_nil nonempty
  rw [selected] at small
  rw [Encoded, descend_eq]
  simp only [selected, small, step, Option.map_some]

theorem encoded_page_iff {first : Mapping} {rest : List Mapping}
    (selected : blockMaps .pt vstart maps = first :: rest) :
    Encoded crates allowHuge .pt vstart maps ↔
      ∃ entry, pageEntry crates vstart first.2 = some entry := by
  rw [Encoded, descend_eq]
  simp only [selected, canBeHuge_pt, down, Option.map_none]

end Encoded

section Create

variable {platform : Platform} {allowHuge level : PageLevel} {vaddrBase : Nat}
  {maps : List Mapping} {current : TableMemory} {table : Nat}

/-- An entry that has been written was built, and so were the entries of the table below it. -/
theorem createEntry_encoded (index : Fin 512)
    (lower : ∀ next, level.down = some next → ∀ vstart sub memory,
      Ends (createRecursive platform vstart next sub allowHuge) memory
        (fun _ _ => ∀ index : Fin 512,
          Encoded platform.crates allowHuge next (vstart + index * next.entrySize) sub)
        fun _ _ => True) :
    Ends (createEntry platform allowHuge level (level.down.map fun next =>
        (next, fun vstart sub => createRecursive platform vstart next sub allowHuge))
        table vaddrBase maps index) current
      (fun _ _ => Encoded platform.crates allowHuge level
        (vaddrBase + index * level.entrySize) maps) fun _ _ => True := by
  rw [createEntry, ends_bind, ends_ofOption]
  refine ⟨fun sub chosen => ?_, fun _ => trivial⟩
  obtain rfl : sub = blockMaps level (vaddrBase + index * level.entrySize) maps :=
    subMaps_eq_filter chosen
  rcases selected : blockMaps level (vaddrBase + index * level.entrySize) maps with
    _ | ⟨first, rest⟩
  · rw [ends_pure, Encoded, descend_eq]
    simp only [selected]
  have nonempty : blockMaps level (vaddrBase + index * level.entrySize) maps ≠ [] := by
    simp [selected]
  simp only
  rw [← selected]
  split
  · rename_i flags choice
    rw [ends_bind, ends_ofOption]
    exact ⟨fun entry built => (encoded_huge_iff choice).mpr ⟨entry, built⟩, fun _ => trivial⟩
  rename_i choice
  cases step : level.down with
  | some next =>
      simp only [Option.map_some, ends_bind, ends_handle]
      refine (lower next step _ _ _).mono ?_ ?_
      · intro child built encoded
        rw [ends_ofOption]
        exact ⟨fun entry _ => (encoded_relay_iff nonempty choice step).mpr encoded,
          fun _ => trivial⟩
      · intro reason after _
        cases reason <;> trivial
  | none =>
      obtain rfl := down_eq_none.mp step
      rw [Option.map_none, ends_bind, ends_ofOption]
      exact ⟨fun entry built => (encoded_page_iff selected).mpr ⟨entry, built⟩, fun _ => trivial⟩

/-- `create_recursive` returns only if it could build every leaf. -/
theorem createRecursive_encoded (platform : Platform) (allowHuge level : PageLevel) :
    ∀ vaddrBase maps memory,
      Ends (createRecursive platform vaddrBase level maps allowHuge) memory
        (fun _ _ => ∀ index : Fin 512, Encoded platform.crates allowHuge level
          (vaddrBase + index * level.entrySize) maps) fun _ _ => True := by
  induction level using downInduction with
  | step level induction =>
      intro vaddrBase maps memory
      rw [createRecursive, descend_eq, createTable, ends_bind]
      refine (allocTable_ends platform memory).mono ?_ fun _ _ _ => trivial
      intro table started _
      rw [ends_bind]
      refine (forEach_ends (fun done _ => ∀ index : Fin 512, index ∈ done →
        Encoded platform.crates allowHuge level (vaddrBase + index * level.entrySize) maps)
        (by simp) fun done index rest current _ earlier => ?_).mono ?_ fun _ _ failed => failed
      · refine (createEntry_encoded index induction).mono ?_ fun _ _ failed => failed
        intro _ after encoded other member
        rcases List.mem_append.mp member with before | here
        · exact earlier other before
        · rw [List.mem_singleton.mp here]
          exact encoded
      · exact fun _ after all index => all index (mem_entryIndices index)

/-- `create_page_table` returns `Ok` only if it could build every leaf of the normalized list. -/
theorem createPageTable_encoded {mapList : List MemRangeData} {flags : List PageEntryFlags}
    {target : PageLevel} {memory after : TableMemory} {top : TopPageTable}
    (run : createPageTable platform mapList flags allowHuge target memory = (.ok top, after))
    (index : Fin 512) :
    Encoded platform.crates allowHuge target (0 + index * target.entrySize)
      (top.memoryMapping.1.zip top.memoryMapping.2) := by
  have ends : Ends (createPageTable platform mapList flags allowHuge target) memory
      (fun top _ => ∀ index : Fin 512, Encoded platform.crates allowHuge target
        (0 + index * target.entrySize) (top.memoryMapping.1.zip top.memoryMapping.2))
      fun _ _ => True := by
    rw [createPageTable]
    split
    · trivial
    split
    · trivial
    rw [ends_bind, ends_ofOption]
    refine ⟨fun lists _ => ?_, fun _ => trivial⟩
    simp only
    split
    · rw [ends_bind]
      refine (createRecursive_encoded platform allowHuge target 0 _ memory).mono ?_
        fun _ _ failed => failed
      intro table built encoded
      rw [ends_bind, ends_ofOption]
      refine ⟨fun phys _ => ?_, fun _ => trivial⟩
      rw [ends_bind, ends_ofOption]
      exact ⟨fun virt _ => encoded, fun _ => trivial⟩
    · trivial
  exact ends.of_ok run index

end Create

/-! ## Leaves of a tree -/

section Leaves

variable {crates : X86Crates} {allowHuge level : PageLevel} {vstart vaddr : Nat}
  {maps : List Mapping}

/-- The walk in a tree ends at a present entry of a level that has leaves. -/
def EndsAtLeaf (tree : PageTree) (level : PageLevel) (vaddr : Nat) : Prop :=
  ∃ found entry, treeEnd tree level vaddr = (found, some entry) ∧ found ≤ .pdpt

theorem endsAtLeaf_leafTree {entry : BitVec 64} :
    EndsAtLeaf (leafTree entry) level vaddr ↔ entry.getLsbD 0 = true ∧ level ≤ .pdpt := by
  rw [EndsAtLeaf, treeEnd_leafTree]
  constructor
  · rintro ⟨found, shown, ends, low⟩
    obtain ⟨rfl, chosen⟩ := Prod.mk.inj ends
    exact ⟨(Option.ite_none_right_eq_some.mp chosen).1, low⟩
  · rintro ⟨present, low⟩
    exact ⟨level, entry, by rw [if_pos present], low⟩

/-- An address in a block that passes the test for a huge page is covered. -/
theorem lastFlags_of_huge {flags : PageEntryFlags} (tidy : Tidy 4096 maps) (above : vstart ≤ vaddr)
    (below : vaddr < vstart + level.entrySize)
    (choice : canBeHuge level allowHuge vstart (vstart + level.entrySize)
      (blockMaps level vstart maps) = some flags) : lastFlags maps vaddr = some flags := by
  obtain ⟨map, single, -, -, start, stop⟩ := canBeHuge_eq_some choice
  have member : (map, flags) ∈ maps := List.mem_of_mem_filter (single ▸ List.mem_singleton_self _)
  rw [MemRangeData.wrappedEnd_of_fits (tidy.fits _ member)] at stop
  exact lastWriter_eq_some_of_mem tidy.disjoint member
    (covers_iff.mpr ⟨start.trans above, below.trans_le stop⟩)

section Block

variable (aligned : level.entrySize ∣ vstart) (above : vstart ≤ vaddr)
  (below : vaddr < vstart + level.entrySize) (tidy : Tidy 4096 maps)
  (encoded : Encoded crates allowHuge level vstart maps)

include aligned above below tidy encoded

/-- A block that passes the test for a huge page has a leaf unless its level has none. -/
theorem endsAtLeaf_huge {flags : PageEntryFlags}
    (choice : canBeHuge level allowHuge vstart (vstart + level.entrySize)
      (blockMaps level vstart maps) = some flags) :
    EndsAtLeaf (listEntry crates allowHuge level vstart maps) level vaddr ↔
      lastFlags maps vaddr ≠ none ∧ ¬ Oversized allowHuge level maps vaddr := by
  obtain ⟨-, -, inner, -⟩ := canBeHuge_eq_some choice
  obtain ⟨entry, built⟩ := (encoded_huge_iff choice).mp encoded
  have covered := lastFlags_of_huge tidy above below choice
  rw [listEntry_huge choice built, endsAtLeaf_leafTree, covered]
  by_cases low : level ≤ .pdpt
  · have kind := huge_kind inner (Nat.le_refl level.rank) low
    have present := (hugeEntry_carries kind (.inl built)).present
    exact iff_of_true ⟨present, low⟩ ⟨Option.some_ne_none _, not_oversized_of_low low⟩
  · have oversized : Oversized allowHuge level maps vaddr := by
      refine ⟨level, Nat.not_le.mp low, Nat.le_refl _, ?_⟩
      rw [blockStart_eq aligned above below, choice]
      exact Option.some_ne_none _
    exact iff_of_false (fun both => low both.2) fun both => both.2 oversized

/-- A page that meets a range has a leaf. -/
theorem endsAtLeaf_page {first : Mapping} {rest : List Mapping} (bottom : level = .pt)
    (selected : blockMaps level vstart maps = first :: rest) :
    EndsAtLeaf (listEntry crates allowHuge level vstart maps) level vaddr ↔
      lastFlags maps vaddr ≠ none ∧ ¬ Oversized allowHuge level maps vaddr := by
  subst bottom
  obtain ⟨entry, built⟩ := (encoded_page_iff selected).mp encoded
  have member : first ∈ blockMaps .pt vstart maps := selected ▸ List.mem_cons_self
  have inside := tidy.page aligned member
  have size : PageLevel.pt.entrySize = 4096 := by decide
  have covered : lastFlags maps vaddr = some first.2 :=
    lastWriter_eq_some_of_mem tidy.disjoint (List.mem_of_mem_filter member)
      (covers_iff.mpr (by omega))
  have low : PageLevel.pt ≤ .pdpt := by decide
  rw [listEntry_page selected built, endsAtLeaf_leafTree, covered]
  exact iff_of_true ⟨(pageEntry_carries built).present, low⟩
    ⟨Option.some_ne_none _, not_oversized_of_low low⟩

end Block

/-- In the tree of a list an address has a leaf exactly when it is covered and no page is chosen for
it that does not exist. -/
theorem endsAtLeaf_listEntry (crates : X86Crates) (allowHuge : PageLevel) (vaddr : Nat)
    (level : PageLevel) :
    ∀ vstart maps, level.entrySize ∣ vstart → vstart ≤ vaddr → vaddr < vstart + level.entrySize →
      Tidy 4096 maps → Encoded crates allowHuge level vstart maps →
      (EndsAtLeaf (listEntry crates allowHuge level vstart maps) level vaddr ↔
        lastFlags maps vaddr ≠ none ∧ ¬ Oversized allowHuge level maps vaddr) := by
  induction level using downInduction with
  | step level induction =>
      intro vstart maps aligned above below tidy encoded
      have flagged := lastFlags_blockMaps tidy.fits above below
      rcases selected : blockMaps level vstart maps with _ | ⟨first, rest⟩
      · rw [selected] at flagged
        rw [listEntry_empty selected, ← flagged]
        refine iff_of_false ?_ fun both => both.1 rfl
        rintro ⟨found, entry, ends, -⟩
        cases ends
      have nonempty : blockMaps level vstart maps ≠ [] := by simp [selected]
      cases choice : canBeHuge level allowHuge vstart (vstart + level.entrySize)
          (blockMaps level vstart maps) with
      | some flags => exact endsAtLeaf_huge aligned above below tidy encoded choice
      | none =>
          cases step : level.down with
          | none =>
              exact endsAtLeaf_page aligned above below tidy encoded (down_eq_none.mp step) selected
          | some next =>
              obtain ⟨inAligned, inAbove, inBelow, -⟩ := entry_block aligned above below step
              have lower := (encoded_relay_iff nonempty choice step).mp encoded
                (next.getIndex vaddr)
              rw [listEntry_relay nonempty choice step, EndsAtLeaf, treeEnd_relay step, ← flagged,
                ← oversized_down aligned above below step choice]
              exact induction next step _ _ inAligned inAbove inBelow
                (tidy.blockMaps level vstart) lower

end Leaves

/-! ## `create_page_table` -/

section Complete

variable {platform : Platform} {mapList : List MemRangeData} {flags : List PageEntryFlags}
  {allowHuge target : PageLevel} {memory after : TableMemory} {top : TopPageTable}

/-- Below the reach of the top table, the walk finds a leaf exactly for the covered addresses for
which no page is chosen that does not exist. -/
theorem createPageTable_walk_iff (fits : ∀ range ∈ mapList, range.Fits)
    (run : createPageTable platform mapList flags allowHuge target memory = (.ok top, after))
    {vaddr : Nat} (low : vaddr < 512 * target.entrySize) :
    (hardwareWalk after.words target top.phys vaddr Rights.all).isSome = true ↔
      lastFlags (mapList.zip flags) vaddr ≠ none ∧
        ¬ Oversized allowHuge target (top.memoryMapping.1.zip top.memoryMapping.2) vaddr := by
  obtain ⟨news, made⟩ := (createPageTable_ends platform _ _ _ _ _).of_ok run
  obtain ⟨maps', flags', normalized, -, tidy, -, meaning⟩ :=
    normalizeMapList_spec platform.profile platform.sort 4096
      (fun map member => fits map.1 (List.of_mem_zip member).1)
      (fun map member => made.aligned map.1 (List.of_mem_zip member).1)
  have stored := Option.some.inj (normalized.symm.trans made.normalized)
  have block := tableBlock_top target
  have inside := block.getIndex (Nat.zero_le vaddr) (by omega)
  have encoded := createPageTable_encoded run (target.getIndex vaddr)
  have leaf := endsAtLeaf_listEntry platform.crates allowHuge vaddr target _ _
    (block.entry _).aligned inside.1 inside.2 (by rw [← stored]; exact tidy) encoded
  have same : lastFlags (top.memoryMapping.1.zip top.memoryMapping.2) vaddr =
      lastFlags (mapList.zip flags) vaddr := by
    rw [← stored]
    exact meaning vaddr
  rw [← same, ← leaf, hardwareWalk_isSome_iff, EndsAtLeaf, made.treeEnd]
  constructor
  · rintro ⟨present, shallow⟩
    exact ⟨_, _, by rw [if_pos present], shallow⟩
  · rintro ⟨found, entry, ends, shallow⟩
    obtain ⟨rfl, chosen⟩ := Prod.mk.inj ends
    exact ⟨(Option.ite_none_right_eq_some.mp chosen).1, shallow⟩

/-- An address is covered by a list exactly when one of its ranges contains it. -/
theorem lastFlags_ne_none_iff (lengths : mapList.length = flags.length) {vaddr : Nat} :
    lastFlags (mapList.zip flags) vaddr ≠ none ↔
      ∃ range ∈ mapList, range.contains vaddr = true := by
  rw [Ne, lastFlags, lastWriter_eq_none_iff]
  simp only [not_forall, Bool.not_eq_false]
  constructor
  · rintro ⟨map, member, covered⟩
    exact ⟨map.1, (List.of_mem_zip member).1, covered⟩
  · rintro ⟨range, member, covered⟩
    obtain ⟨flag, paired⟩ := exists_mapping_of_mem lengths member
    exact ⟨(range, flag), paired, covered⟩

/-- Both halves of the canonical addresses are walked by the same bits, the upper half by those of
addresses that are not canonical. -/
theorem not_canonical_mod (kind : target = .pml5 ∨ target = .pml4) {vaddr : Nat}
    (fits : vaddr < 2 ^ 64) (upper : 2 ^ 64 - addressBound target ≤ vaddr) :
    ¬ Canonical target (vaddr % (512 * target.entrySize)) := by
  rw [Canonical]
  rcases kind with rfl | rfl
  · have size : 512 * PageLevel.pml5.entrySize = 2 ^ 57 := by decide
    have bound : addressBound .pml5 = 2 ^ 56 := rfl
    rw [size]
    omega
  · have size : 512 * PageLevel.pml4.entrySize = 2 ^ 48 := by decide
    have bound : addressBound .pml4 = 2 ^ 47 := rfl
    rw [size]
    omega

theorem addressBound_lt (kind : target = .pml5 ∨ target = .pml4) :
    addressBound target < 512 * target.entrySize := by
  rcases kind with rfl | rfl <;> decide

/-- A leaf for an upper address is the leaf of an address between the halves, so some range of the
list reaches out of the canonical addresses. -/
theorem exists_not_canonical (fits : ∀ range ∈ mapList, range.Fits)
    (run : createPageTable platform mapList flags allowHuge target memory = (.ok top, after))
    {vaddr : Nat} (bounded : vaddr < 2 ^ 64) (upper : 2 ^ 64 - addressBound target ≤ vaddr)
    (walked : (hardwareWalk after.words target top.phys vaddr Rights.all).isSome = true) :
    ∃ range ∈ mapList, ∃ address, range.contains address = true ∧ ¬ Canonical target address := by
  obtain ⟨news, made⟩ := (createPageTable_ends platform _ _ _ _ _).of_ok run
  have positive : 0 < 512 * target.entrySize := (Nat.zero_le _).trans_lt (addressBound_lt made.kind)
  rw [← hardwareWalk_mod] at walked
  have leaf := (createPageTable_walk_iff fits run (Nat.mod_lt vaddr positive)).mp walked
  obtain ⟨range, member, contained⟩ := (lastFlags_ne_none_iff made.lengths).mp leaf.1
  exact ⟨range, member, _, contained, not_canonical_mod made.kind bounded upper⟩

/-- When `create_page_table` returns `Ok`, the processor finds a leaf for every address of every
listed range exactly when all of them are in the lower half and no page is chosen that does not
exist. -/
theorem createPageTable_complete_iff (fits : ∀ range ∈ mapList, range.Fits)
    (run : createPageTable platform mapList flags allowHuge target memory = (.ok top, after)) :
    (∀ range ∈ mapList, ∀ address, range.contains address = true →
        ∃ walk, hardwareTranslate after.words target top.phys address = some walk) ↔
      ∀ range ∈ mapList, ∀ address, range.contains address = true →
        address < addressBound target ∧
          ∀ lists, normalizeMapList platform.profile platform.sort mapList flags = some lists →
            ¬ Oversized allowHuge target (lists.1.zip lists.2) address := by
  obtain ⟨news, made⟩ := (createPageTable_ends platform _ _ _ _ _).of_ok run
  have reach := addressBound_lt made.kind
  simp only [made.normalized, Option.some.injEq, forall_eq']
  constructor
  · intro complete range member address contained
    obtain ⟨walk, translated⟩ := complete range member address contained
    obtain ⟨canonical, found⟩ := Option.ite_none_right_eq_some.mp translated
    have walked := Option.isSome_of_eq_some found
    have lower : address < addressBound target := by
      rcases canonical with lower | upper
      · exact lower
      · have bounded : address < 2 ^ 64 :=
          (MemRangeData.contains_iff.mp contained).2.trans (fits range member)
        obtain ⟨outer, listed, other, inside, refused⟩ :=
          exists_not_canonical fits run bounded upper walked
        obtain ⟨again, accepted⟩ := complete outer listed other inside
        exact absurd (Option.ite_none_right_eq_some.mp accepted).1 refused
    have leaf := (createPageTable_walk_iff fits run (lower.trans reach)).mp walked
    exact ⟨lower, leaf.2⟩
  · intro fine range member address contained
    obtain ⟨lower, sized⟩ := fine range member address contained
    have leaf := (createPageTable_walk_iff fits run (lower.trans reach)).mpr
      ⟨(lastFlags_ne_none_iff made.lengths).mpr ⟨range, member, contained⟩, sized⟩
    obtain ⟨walk, walked⟩ := Option.isSome_iff_exists.mp leaf
    exact ⟨walk, by rw [hardwareTranslate, if_pos (.inl lower), walked]⟩

/-- One aligned range is always accepted. -/
theorem bumpPlatform_single {range : MemRangeData} (aligned : range.Aligned) (fits : range.Fits)
    (allowHuge : PageLevel) :
    ∃ top after, createPageTable (bumpPlatform 0) [range] [.dataFlags] allowHuge .pml4 emptyMemory =
      (.ok top, after) ∧ top.memoryMapping = ([range], [.dataFlags]) := by
  have requestable : Requestable (512 * PageLevel.pml4.entrySize) [range] [.dataFlags] :=
    requestable_of_physical (.inl rfl) rfl (by simpa using aligned) (by simpa using fits) (by simp)
  obtain ⟨top, after, news, run, made⟩ := createPageTable_run (bumpPlatform 0) allowHuge
    requestable (.inr rfl) (bumpAllocator_serves (by decide))
    fun _ request => bumpAllocator_first request
  have single : normalizeMapList (bumpPlatform 0).profile (bumpPlatform 0).sort [range]
      [.dataFlags] = some ([range], [.dataFlags]) :=
    normalizeMapList_single (MemRangeData.end?_of_fits _ fits) _
  exact ⟨top, after, run, Option.some.inj (made.normalized.symm.trans single)⟩

/-- Two pages, written as one range in the lower half. -/
theorem createPageTable_complete_iff_lowPages :
    ∃ top after, createPageTable (bumpPlatform 0) [⟨0x1000, 0x2000⟩] [.dataFlags] .pdpt .pml4
        emptyMemory = (.ok top, after) ∧
      ∃ walk, hardwareTranslate after.words .pml4 top.phys 0x2abc = some walk := by
  obtain ⟨top, after, run, -⟩ := bumpPlatform_single
    (show MemRangeData.Aligned ⟨0x1000, 0x2000⟩ by decide) (by decide) .pdpt
  refine ⟨top, after, run, (createPageTable_complete_iff (by decide) run).mpr ?_ _
    (List.mem_singleton.mpr rfl) _ (by decide)⟩
  intro range member address contained
  obtain rfl := List.mem_singleton.mp member
  have inRange := (MemRangeData.contains_iff.mp contained).2
  refine ⟨?_, fun _ _ => not_oversized_of_limit (Nat.le_refl _)⟩
  calc address
    _ < 0x1000 + 0x2000 := inRange
    _ < addressBound .pml4 := by decide

/-- A page at the first address behind the top table is dropped, and so is the whole reach of one
entry of the top table when the limit allows a page there: both lists are answered by `Ok`. -/
theorem createPageTable_not_complete :
    (∃ top after, createPageTable (bumpPlatform 0) [⟨2 ^ 48, 0x1000⟩] [.dataFlags] .pdpt .pml4
        emptyMemory = (.ok top, after) ∧
      hardwareWalk after.words .pml4 top.phys (2 ^ 48) Rights.all = none ∧
      hardwareTranslate after.words .pml4 top.phys (2 ^ 48) = none) ∧
    (∃ top after, createPageTable (bumpPlatform 0) [⟨0, 2 ^ 39⟩] [.dataFlags] .pml4 .pml4
        emptyMemory = (.ok top, after) ∧
      hardwareWalk after.words .pml4 top.phys 0 Rights.all = none ∧
      hardwareTranslate after.words .pml4 top.phys 0 = none) := by
  have untranslated {words : TableWords} {table vaddr : Nat}
      (nothing : hardwareWalk words .pml4 table vaddr Rights.all = none) :
      hardwareWalk words .pml4 table vaddr Rights.all = none ∧
        hardwareTranslate words .pml4 table vaddr = none := by
    rw [hardwareTranslate, nothing, ite_self]
    exact ⟨rfl, rfl⟩
  constructor
  · obtain ⟨top, after, run, -⟩ := bumpPlatform_single
      (show MemRangeData.Aligned ⟨2 ^ 48, 0x1000⟩ by decide) (by decide) .pdpt
    refine ⟨top, after, run, untranslated ?_⟩
    have wraps : 2 ^ 48 % (512 * PageLevel.pml4.entrySize) = 0 := by decide
    rw [← hardwareWalk_mod, wraps, ← Option.not_isSome_iff_eq_none,
      createPageTable_walk_iff (by decide) run (by decide)]
    exact fun leaf => leaf.1 rfl
  · obtain ⟨top, after, run, stored⟩ := bumpPlatform_single
      (show MemRangeData.Aligned ⟨0, 2 ^ 39⟩ by decide) (by decide) .pml4
    refine ⟨top, after, run, untranslated ?_⟩
    rw [← Option.not_isSome_iff_eq_none, createPageTable_walk_iff (by decide) run (by decide),
      stored]
    exact fun leaf => leaf.2 ⟨.pml4, by decide, Nat.le_refl _, by decide⟩

end Complete

end Okots
