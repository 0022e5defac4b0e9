import Okots.Paging.ExactUpdate

/-!
# Leaves

Every walk ends at an entry, and every present entry at which a walk ends was built for the block
around the address from the flags of one range: by the creation of its table, or by the update that
found its table in place.
-/

namespace Okots

open PageLevel LastWriter

/-! ## The end of a walk -/

/-- The last entry that the walk for `vaddr` reads, with its level. -/
def walkEnd (words : TableWords) (level : PageLevel) (table vaddr : Nat) : PageLevel × BitVec 64 :=
  let entry := words table (level.getIndex vaddr)
  match _step : level.down with
  | none => (level, entry)
  | some next =>
      if isRelay entry then walkEnd words next (tableBase entry) vaddr else (level, entry)
termination_by level.rank
decreasing_by exact rank_down _step

/-- The same on a tree, with the entry only if it is present. -/
def treeEnd : PageTree → PageLevel → Nat → PageLevel × Option (BitVec 64)
  | .absent, level, _ => (level, none)
  | .leaf entry, level, _ => (level, some entry)
  | .relay _ entries, level, vaddr =>
      match level.down with
      | none => (level, none)
      | some next => treeEnd (entries (next.getIndex vaddr)) next vaddr

theorem rank_of_down {level next : PageLevel} (step : level.down = some next) :
    level.rank = next.rank + 1 := by
  cases level <;> cases step <;> rfl

section Walk

variable {words : TableWords} {level next : PageLevel} {table vaddr : Nat}

theorem walkEnd_of_relays (relays : Relays level (words table (level.getIndex vaddr)) next) :
    walkEnd words level table vaddr =
      walkEnd words next (tableBase (words table (level.getIndex vaddr))) vaddr := by
  rw [walkEnd]
  split
  · rename_i bottom
    rw [relays.down] at bottom
    cases bottom
  · rename_i below step
    obtain rfl := Option.some.inj (relays.down.symm.trans step)
    rw [if_pos relays.relay]

theorem walkEnd_of_childless (childless : Childless level (words table (level.getIndex vaddr))) :
    walkEnd words level table vaddr = (level, words table (level.getIndex vaddr)) := by
  rw [walkEnd]
  split
  · rfl
  · rename_i below step
    rcases childless with rfl | plain
    · cases step
    · rw [plain]
      rfl

theorem treeEnd_leafTree (entry : BitVec 64) (level : PageLevel) (vaddr : Nat) :
    treeEnd (leafTree entry) level vaddr =
      (level, if entry.getLsbD 0 then some entry else none) := by
  unfold leafTree
  split <;> rfl

theorem treeEnd_relay (step : level.down = some next) (flags : BitVec 64)
    (entries : Fin 512 → PageTree) :
    treeEnd (.relay flags entries) level vaddr =
      treeEnd (entries (next.getIndex vaddr)) next vaddr := by
  rw [treeEnd, step]

theorem treeEnd_of_not_isRelay {tree : PageTree} (plain : ¬ tree.IsRelay) :
    (treeEnd tree level vaddr).1 = level := by
  cases tree with
  | absent | leaf => rfl
  | relay => exact absurd trivial plain

theorem treeEnd_rank_le (tree : PageTree) (vaddr : Nat) :
    ∀ level, (treeEnd tree level vaddr).1.rank ≤ level.rank := by
  induction tree with
  | absent | leaf => exact fun _ => le_rfl
  | relay flags entries induction =>
      intro level
      cases step : level.down with
      | none =>
          rw [treeEnd, step]
      | some next =>
          rw [treeEnd_relay step]
          exact (induction _ next).trans (rank_down step).le

theorem rank_le_of_treeEnd {tree : PageTree} {level found : PageLevel} {vaddr : Nat}
    {entry : Option (BitVec 64)} (ends : treeEnd tree level vaddr = (found, entry)) :
    found.rank ≤ level.rank := by
  have rank := treeEnd_rank_le tree vaddr level
  rwa [ends] at rank

/-- The walk of a table ends where the walk of its tree ends. -/
theorem treeEnd_tableTree (words : TableWords) (vaddr : Nat) (level : PageLevel) :
    ∀ table, treeEnd (tableTree words level table (level.getIndex vaddr)) level vaddr =
      ((walkEnd words level table vaddr).1,
        if (walkEnd words level table vaddr).2.getLsbD 0 then
          some (walkEnd words level table vaddr).2
        else
          none) := by
  induction level using downInduction with
  | step level induction =>
      intro table
      rw [tableTree]
      rcases relays_or_childless level (words table (level.getIndex vaddr)) with
        ⟨next, relays⟩ | childless
      · rw [relays.entryTree, treeEnd_relay relays.down, walkEnd_of_relays relays]
        exact induction next relays.down _
      · rw [childless.entryTree, treeEnd_leafTree, walkEnd_of_childless childless]

/-- The hardware translates through the entry at which the walk ends. -/
theorem hardwareWalk_phys (words : TableWords) (vaddr : Nat) (level : PageLevel) :
    ∀ table rights, (hardwareWalk words level table vaddr rights).map Translation.phys =
      if (walkEnd words level table vaddr).2.getLsbD 0 then
        (leafBase (walkEnd words level table vaddr).1 (walkEnd words level table vaddr).2).map
          (· + vaddr % (walkEnd words level table vaddr).1.entrySize)
      else
        none := by
  induction level using downInduction with
  | step level induction =>
      intro table rights
      rcases relays_or_childless level (words table (level.getIndex vaddr)) with
        ⟨next, relays⟩ | childless
      · rw [walkEnd_of_relays relays, ← induction next relays.down _
          (rights.meet (words table (level.getIndex vaddr)))]
        have bits := relays.relay
        simp only [isRelay, Bool.and_eq_true, Bool.not_eq_true'] at bits
        rw [hardwareWalk, if_pos bits.1]
        split
        · rename_i bottom
          rw [relays.down] at bottom
          cases bottom
        · rename_i below step
          obtain rfl := Option.some.inj (relays.down.symm.trans step)
          rw [if_neg (by rw [bits.2]; exact Bool.false_ne_true)]
      · rw [hardwareWalk_eq_treeWalk, tableTree, childless.entryTree,
          walkEnd_of_childless childless, leafTree]
        split
        · rw [treeWalk, leafTranslation, Option.map_map]
          rfl
        · rfl

/-- A walk that succeeds ends at a present entry. -/
theorem walkEnd_present {rights : Rights} {walk : Translation}
    (found : hardwareWalk words level table vaddr rights = some walk) :
    (walkEnd words level table vaddr).2.getLsbD 0 = true := by
  have phys := hardwareWalk_phys words vaddr level table rights
  by_contra absent
  rw [found, if_neg absent] at phys
  cases phys

end Walk

/-! ## The entries of a tree -/

/-- The PAT bits do not move the end of a walk. -/
theorem treeEnd_erasePat (tree : PageTree) (vaddr : Nat) :
    ∀ level, (treeEnd (erasePat level tree) level vaddr).1 = (treeEnd tree level vaddr).1 ∧
      (treeEnd (erasePat level tree) level vaddr).2.isSome =
        (treeEnd tree level vaddr).2.isSome := by
  induction tree with
  | absent | leaf => exact fun _ => ⟨rfl, rfl⟩
  | relay flags entries induction =>
      intro level
      cases step : level.down with
      | none =>
          rw [erasePat, treeEnd, treeEnd, step]
          exact ⟨rfl, rfl⟩
      | some next =>
          rw [erasePat_relay step, treeEnd_relay step, treeEnd_relay step]
          exact induction _ next

/-- The leaf that a creation, or an update, builds at `level` for the block at `vstart`. -/
def leafEntry (crates : X86Crates) (created : Bool) (level : PageLevel) (vstart : Nat)
    (flags : PageEntryFlags) : Option (BitVec 64) :=
  if level = .pt then
    pageEntry crates vstart flags
  else if created then
    createHugeEntry crates level vstart flags
  else
    generateHugeEntry crates level vstart flags

/-- Start of the block of an entry at `level` that contains the address. -/
def blockStart (level : PageLevel) (vaddr : Nat) : Nat := vaddr / level.entrySize * level.entrySize

theorem blockStart_eq {level : PageLevel} {vstart vaddr : Nat} (aligned : level.entrySize ∣ vstart)
    (above : vstart ≤ vaddr) (below : vaddr < vstart + level.entrySize) :
    blockStart level vaddr = vstart := by
  obtain ⟨quotient, rfl⟩ := aligned
  have positive : 0 < level.entrySize := by omega
  have index : vaddr / level.entrySize = quotient := by
    apply Nat.div_eq_of_lt_le
    · rwa [Nat.mul_comm]
    · rwa [Nat.add_mul, Nat.one_mul, Nat.mul_comm]
  rw [blockStart, index, Nat.mul_comm]

theorem dvd_blockStart (level : PageLevel) (vaddr : Nat) :
    level.entrySize ∣ blockStart level vaddr := Nat.dvd_mul_left _ _

theorem blockStart_le (level : PageLevel) (vaddr : Nat) :
    blockStart level vaddr ≤ vaddr ∧ vaddr < blockStart level vaddr + level.entrySize := by
  have positive : 0 < level.entrySize := by cases level <;> decide
  have offset := Nat.mod_lt vaddr positive
  have split := Nat.div_add_mod' vaddr level.entrySize
  rw [blockStart]
  omega

section Nested

variable {level inner : PageLevel} {vstart vaddr : Nat} {maps : List Mapping}

theorem entrySize_dvd (lower : inner ≤ level) : inner.entrySize ∣ level.entrySize := by
  have rank : inner.rank ≤ level.rank := lower
  rw [entrySize_eq, entrySize_eq]
  apply Nat.pow_dvd_pow
  rw [shift, shift]
  omega

/-- The block of a lower level around an address lies inside the block of a higher level. -/
theorem blockStart_inside (lower : inner ≤ level) (aligned : level.entrySize ∣ vstart)
    (above : vstart ≤ vaddr) (below : vaddr < vstart + level.entrySize) :
    vstart ≤ blockStart inner vaddr ∧
      blockStart inner vaddr + inner.entrySize ≤ vstart + level.entrySize := by
  have positive : 0 < inner.entrySize := by cases inner <;> decide
  have divides := entrySize_dvd lower
  obtain ⟨first, rfl⟩ := divides.trans aligned
  obtain ⟨count, size⟩ := divides
  rw [size, ← Nat.mul_add] at below ⊢
  rw [blockStart, Nat.mul_comm _ inner.entrySize]
  have index : first ≤ vaddr / inner.entrySize :=
    (Nat.le_div_iff_mul_le positive).mpr (by rwa [Nat.mul_comm])
  have last : vaddr / inner.entrySize < first + count := Nat.div_lt_of_lt_mul below
  refine ⟨Nat.mul_le_mul_left _ index, ?_⟩
  rw [← Nat.mul_succ]
  exact Nat.mul_le_mul_left _ last

/-- The ranges that meet an inner block are among those that meet the outer one. -/
theorem blockMaps_inside {start : Nat} (above : vstart ≤ start)
    (below : start + inner.entrySize ≤ vstart + level.entrySize) :
    blockMaps inner start (blockMaps level vstart maps) = blockMaps inner start maps := by
  rw [blockMaps, blockMaps, blockMaps, List.filter_filter]
  refine List.filter_congr fun map _ => ?_
  rw [Bool.and_eq_left_iff_imp, meets, meets, decide_eq_true_eq, decide_eq_true_eq]
  omega

end Nested

/-- The entry is the leaf of a range for the block around the address; a huge leaf is chosen only
for a block inside the range. -/
structure LeafOf (crates : X86Crates) (allowHuge : PageLevel) (created : Bool)
    (maps : List Mapping) (vaddr : Nat) (level : PageLevel) (entry : BitVec 64)
    (map : Mapping) : Prop where
  member : map ∈ blockMaps level (blockStart level vaddr) maps
  whole : level ≠ .pt → level ≤ allowHuge ∧ map.1.start ≤ blockStart level vaddr ∧
    blockStart level vaddr + level.entrySize ≤ map.1.wrappedEnd
  built : leafEntry crates created level (blockStart level vaddr) map.2 = some entry
  present : entry.getLsbD 0 = true

section Trees

variable {crates : X86Crates} {allowHuge level found : PageLevel} {created : Bool}
  {vstart vaddr : Nat} {maps : List Mapping} {entry : BitVec 64}

/-- A leaf for a range of a block is a leaf for a range of the list. -/
theorem LeafOf.of_blockMaps {map : Mapping}
    (leaf : LeafOf crates allowHuge created (blockMaps level vstart maps) vaddr found entry map) :
    LeafOf crates allowHuge created maps vaddr found entry map where
  member := by
    obtain ⟨selected, meeting⟩ := List.mem_filter.mp leaf.member
    exact List.mem_filter.mpr ⟨List.mem_of_mem_filter selected, meeting⟩
  whole := leaf.whole
  built := leaf.built
  present := leaf.present

/-- A walk that ends at an entry that may not have been built. -/
theorem treeEnd_getD {built : Option (BitVec 64)}
    (ends : treeEnd (leafTree (built.getD 0)) level vaddr = (found, some entry)) :
    level = found ∧ built = some entry ∧ entry.getLsbD 0 = true := by
  rw [treeEnd_leafTree, Prod.mk.injEq] at ends
  obtain ⟨rfl, chosen⟩ := ends
  cases built with
  | none => cases chosen
  | some built =>
      obtain ⟨present, same⟩ := Option.ite_none_right_eq_some.mp chosen
      obtain rfl := Option.some.inj same
      exact ⟨rfl, rfl, present⟩

section Block

variable (aligned : level.entrySize ∣ vstart) (above : vstart ≤ vaddr)
  (below : vaddr < vstart + level.entrySize)

include aligned above below

/-- The walk ends at a huge leaf of the block. -/
theorem leafOf_huge {flags : PageEntryFlags}
    (choice : canBeHuge level allowHuge vstart (vstart + level.entrySize)
      (blockMaps level vstart maps) = some flags)
    (built : leafEntry crates created level vstart flags = some entry)
    (present : entry.getLsbD 0 = true) :
    ∃ map, LeafOf crates allowHuge created maps vaddr level entry map := by
  obtain ⟨map, single, -, allowed, start, stop⟩ := canBeHuge_eq_some choice
  refine ⟨(map, flags), ?_, ?_, ?_, present⟩ <;> rw [blockStart_eq aligned above below]
  · simp [single]
  · exact fun _ => ⟨allowed, start, stop⟩
  · exact built

/-- The walk ends at a page of the block. -/
theorem leafOf_page {first : Mapping} {rest : List Mapping} (bottom : level = .pt)
    (selected : blockMaps level vstart maps = first :: rest)
    (built : pageEntry crates vstart first.2 = some entry) (present : entry.getLsbD 0 = true) :
    ∃ map, LeafOf crates allowHuge created maps vaddr level entry map := by
  refine ⟨first, ?_, fun inner => absurd bottom inner, ?_, present⟩ <;>
    rw [blockStart_eq aligned above below]
  · rw [selected]
    exact List.mem_cons_self
  · rw [leafEntry, if_pos bottom]
    exact built

/-- The block of the entry below that contains the address. -/
theorem entry_block {next : PageLevel} (step : level.down = some next) :
    next.entrySize ∣ vstart + next.getIndex vaddr * next.entrySize ∧
      vstart + next.getIndex vaddr * next.entrySize ≤ vaddr ∧
      vaddr < vstart + next.getIndex vaddr * next.entrySize + next.entrySize ∧
      vstart + next.getIndex vaddr * next.entrySize + next.entrySize ≤
        vstart + level.entrySize := by
  have size := entrySize_down step
  have block : TableBlock (vstart + 512 * next.entrySize) next vstart := ⟨size ▸ aligned, le_rfl⟩
  have inside := block.getIndex above (size ▸ below)
  exact ⟨(block.entry _).aligned, inside.1, inside.2, size ▸ (block.entry _).bounded⟩

end Block

/-- A walk in the tree of a list ends at a leaf that was created. -/
theorem treeEnd_listEntry (crates : X86Crates) (allowHuge : PageLevel) (vaddr : Nat)
    (level : PageLevel) :
    ∀ vstart maps found entry, level.entrySize ∣ vstart → vstart ≤ vaddr →
      vaddr < vstart + level.entrySize →
      treeEnd (listEntry crates allowHuge level vstart maps) level vaddr = (found, some entry) →
      ∃ map, LeafOf crates allowHuge true maps vaddr found entry map := by
  induction level using downInduction with
  | step level induction =>
      intro vstart maps found entry aligned above below ends
      rcases selected : blockMaps level vstart maps with _ | ⟨first, rest⟩
      · rw [listEntry_empty selected] at ends
        cases ends
      have nonempty : blockMaps level vstart maps ≠ [] := by simp [selected]
      cases choice : canBeHuge level allowHuge vstart (vstart + level.entrySize)
          (blockMaps level vstart maps) with
      | some flags =>
          obtain ⟨-, -, inner, -⟩ := canBeHuge_eq_some choice
          rw [listEntry_hugeLeaf choice] at ends
          obtain ⟨rfl, built, present⟩ := treeEnd_getD ends
          refine leafOf_huge aligned above below choice ?_ present
          rw [leafEntry, if_neg inner]
          exact built
      | none =>
          cases step : level.down with
          | some next =>
              obtain ⟨inAligned, inAbove, inBelow, -⟩ := entry_block aligned above below step
              rw [listEntry_relay nonempty choice step, treeEnd_relay step, listTable] at ends
              obtain ⟨map, leaf⟩ := induction next step _ _ _ _ inAligned inAbove inBelow ends
              exact ⟨map, leaf.of_blockMaps⟩
          | none =>
              obtain rfl := down_eq_none.mp step
              rw [listEntry_pageLeaf selected] at ends
              obtain ⟨rfl, built, present⟩ := treeEnd_getD ends
              exact leafOf_page aligned above below rfl selected built present

/-- The level of the leaf for an address in the tree of a list: the highest one at which the block
around the address passes the test for a huge page. -/
def leafLevel (allowHuge : PageLevel) (maps : List Mapping) (vaddr : Nat) :
    PageLevel → PageLevel :=
  descend fun level lower =>
    if (canBeHuge level allowHuge (blockStart level vaddr)
        (blockStart level vaddr + level.entrySize)
        (blockMaps level (blockStart level vaddr) maps)).isSome then
      level
    else
      (lower.map Prod.snd).getD level

theorem leafLevel_of_huge {flags : PageEntryFlags}
    (choice : canBeHuge level allowHuge (blockStart level vaddr)
      (blockStart level vaddr + level.entrySize)
      (blockMaps level (blockStart level vaddr) maps) = some flags) :
    leafLevel allowHuge maps vaddr level = level := by
  rw [leafLevel, descend_eq, choice]
  rfl

theorem leafLevel_down {next : PageLevel}
    (small : canBeHuge level allowHuge (blockStart level vaddr)
      (blockStart level vaddr + level.entrySize)
      (blockMaps level (blockStart level vaddr) maps) = none) (step : level.down = some next) :
    leafLevel allowHuge maps vaddr level = leafLevel allowHuge maps vaddr next := by
  rw [leafLevel, descend_eq, small, step]
  rfl

theorem leafLevel_pt : leafLevel allowHuge maps vaddr .pt = .pt := by
  rw [leafLevel, descend_eq, canBeHuge_pt]
  rfl

/-- Only the ranges that meet a block around the address matter. -/
theorem leafLevel_blockMaps (aligned : level.entrySize ∣ vstart) (above : vstart ≤ vaddr)
    (below : vaddr < vstart + level.entrySize) (inner : PageLevel) :
    inner ≤ level → leafLevel allowHuge (blockMaps level vstart maps) vaddr inner =
      leafLevel allowHuge maps vaddr inner := by
  induction inner using downInduction with
  | step inner induction =>
      intro lower
      obtain ⟨first, last⟩ := blockStart_inside lower aligned above below
      have same : blockMaps inner (blockStart inner vaddr) (blockMaps level vstart maps) =
          blockMaps inner (blockStart inner vaddr) maps := blockMaps_inside first last
      cases choice : canBeHuge inner allowHuge (blockStart inner vaddr)
          (blockStart inner vaddr + inner.entrySize)
          (blockMaps inner (blockStart inner vaddr) maps) with
      | some flags => rw [leafLevel_of_huge choice, leafLevel_of_huge (same ▸ choice)]
      | none =>
          cases step : inner.down with
          | some next =>
              rw [leafLevel_down choice step, leafLevel_down (same ▸ choice) step]
              exact induction next step (Nat.le_trans (rank_down step).le lower)
          | none =>
              obtain rfl := down_eq_none.mp step
              rw [leafLevel_pt, leafLevel_pt]

/-- A walk in the tree of a list that finds a leaf finds it at the level of the list. -/
theorem treeEnd_listEntry_level (crates : X86Crates) (allowHuge : PageLevel) (vaddr : Nat)
    (level : PageLevel) :
    ∀ vstart maps, level.entrySize ∣ vstart → vstart ≤ vaddr →
      vaddr < vstart + level.entrySize →
      (treeEnd (listEntry crates allowHuge level vstart maps) level vaddr).2.isSome = true →
      (treeEnd (listEntry crates allowHuge level vstart maps) level vaddr).1 =
        leafLevel allowHuge maps vaddr level := by
  induction level using downInduction with
  | step level induction =>
      intro vstart maps aligned above below found
      have start := blockStart_eq aligned above below
      rcases selected : blockMaps level vstart maps with _ | ⟨first, rest⟩
      · rw [listEntry_empty selected] at found
        cases found
      have nonempty : blockMaps level vstart maps ≠ [] := by simp [selected]
      cases choice : canBeHuge level allowHuge vstart (vstart + level.entrySize)
          (blockMaps level vstart maps) with
      | some flags =>
          rw [listEntry_hugeLeaf choice, treeEnd_leafTree, leafLevel_of_huge (start.symm ▸ choice)]
      | none =>
          cases step : level.down with
          | some next =>
              obtain ⟨inAligned, inAbove, inBelow, -⟩ := entry_block aligned above below step
              rw [listEntry_relay nonempty choice step, treeEnd_relay step, listTable] at found ⊢
              rw [induction next step _ _ inAligned inAbove inBelow found,
                leafLevel_down (start.symm ▸ choice) step]
              exact leafLevel_blockMaps aligned above below next (rank_down step).le
          | none =>
              obtain rfl := down_eq_none.mp step
              rw [listEntry_pageLeaf selected, treeEnd_leafTree, leafLevel_pt]

/-- A walk in the tree of an update ends at a leaf that was created if the old walk ended above
it, since its table is new then. -/
theorem treeEnd_updatedEntry (crates : X86Crates) (allowHuge : PageLevel) (vaddr : Nat)
    (level : PageLevel) :
    ∀ old vstart maps found entry, level.entrySize ∣ vstart → vstart ≤ vaddr →
      vaddr < vstart + level.entrySize →
      treeEnd (updatedEntry crates allowHuge level old vstart maps) level vaddr =
        (found, some entry) →
      ∃ map, LeafOf crates allowHuge (decide (found.rank < (treeEnd old level vaddr).1.rank)) maps
        vaddr found entry map := by
  induction level using downInduction with
  | step level induction =>
      intro old vstart maps found entry aligned above below ends
      rcases selected : blockMaps level vstart maps with _ | ⟨first, rest⟩
      · rw [updatedEntry_empty selected] at ends
        cases ends
      have nonempty : blockMaps level vstart maps ≠ [] := by simp [selected]
      cases choice : canBeHuge level allowHuge vstart (vstart + level.entrySize)
          (blockMaps level vstart maps) with
      | some flags =>
          obtain ⟨-, -, inner, -⟩ := canBeHuge_eq_some choice
          rw [updatedEntry_hugeLeaf choice] at ends
          obtain ⟨rfl, built, present⟩ := treeEnd_getD ends
          refine leafOf_huge aligned above below choice ?_ present
          rw [leafEntry, if_neg inner, decide_eq_false (treeEnd_rank_le old vaddr level).not_gt]
          exact built
      | none =>
          cases step : level.down with
          | some next =>
              obtain ⟨inAligned, inAbove, inBelow, -⟩ := entry_block aligned above below step
              by_cases relay : old.IsRelay
              · cases old with
                | absent | leaf => exact absurd relay id
                | relay flags entries =>
                    rw [updatedEntry_relay nonempty choice step, treeEnd_relay step,
                      updatedTable] at ends
                    obtain ⟨map, leaf⟩ :=
                      induction next step _ _ _ _ _ inAligned inAbove inBelow ends
                    rw [treeEnd_relay step]
                    exact ⟨map, leaf.of_blockMaps⟩
              · rw [updatedEntry_create nonempty choice step relay, treeEnd_relay step,
                  listTable] at ends
                have lower := rank_le_of_treeEnd ends
                obtain ⟨map, leaf⟩ := treeEnd_listEntry crates allowHuge vaddr next _ _ _ _
                  inAligned inAbove inBelow ends
                rw [treeEnd_of_not_isRelay relay,
                  decide_eq_true (lower.trans_lt (rank_down step))]
                exact ⟨map, leaf.of_blockMaps⟩
          | none =>
              obtain rfl := down_eq_none.mp step
              rw [updatedEntry_pageLeaf selected] at ends
              obtain ⟨rfl, built, present⟩ := treeEnd_getD ends
              exact leafOf_page aligned above below rfl selected built present

section Tables

variable {words : TableWords} {table : Nat} (low : vaddr < 512 * level.entrySize)
  (present : (walkEnd words level table vaddr).2.getLsbD 0 = true)

include low present

/-- Every leaf of a created tree comes from a range of the list. -/
theorem leafOf_listTable
    (tree : ∀ index, tableTree words level table index =
      listTable crates allowHuge level 0 maps index) :
    ∃ map, LeafOf crates allowHuge true maps vaddr (walkEnd words level table vaddr).1
      (walkEnd words level table vaddr).2 map := by
  have ends := treeEnd_tableTree words vaddr level table
  have inside := (tableBlock_top level).getIndex (Nat.zero_le vaddr) (by omega)
  rw [if_pos present, tree, listTable] at ends
  exact treeEnd_listEntry _ _ _ _ _ _ _ _ ((tableBlock_top level).entry _).aligned inside.1
    inside.2 ends

/-- Every leaf of an updated tree comes from a range of the list. -/
theorem leafOf_updatedTable {old : Fin 512 → PageTree}
    (tree : ∀ index, tableTree words level table index =
      updatedTable crates allowHuge level old 0 maps index) :
    ∃ map, LeafOf crates allowHuge (decide ((walkEnd words level table vaddr).1.rank <
        (treeEnd (old (level.getIndex vaddr)) level vaddr).1.rank)) maps vaddr
      (walkEnd words level table vaddr).1 (walkEnd words level table vaddr).2 map := by
  have ends := treeEnd_tableTree words vaddr level table
  have inside := (tableBlock_top level).getIndex (Nat.zero_le vaddr) (by omega)
  rw [if_pos present, tree, updatedTable] at ends
  exact treeEnd_updatedEntry _ _ _ _ _ _ _ _ _ ((tableBlock_top level).entry _).aligned inside.1
    inside.2 ends

end Tables

end Trees

/-! ## Reading a leaf -/

/-- PAT of a leaf: bit 7 of a page, bit 12 of a huge leaf. -/
def patBit (level : PageLevel) (entry : BitVec 64) : Bool :=
  entry.getLsbD (if level = .pt then 7 else 12)

namespace LeafOf

variable {crates : X86Crates} {allowHuge level : PageLevel} {created : Bool} {vaddr : Nat}
  {maps : List Mapping} {entry : BitVec 64} {map : Mapping}
  (limit : allowHuge ≤ .pdpt)
  (leaf : LeafOf crates allowHuge created maps vaddr level entry map)

include limit leaf

/-- A huge leaf is built by one of the two builders. -/
theorem huge (inner : level ≠ .pt) :
    (level = .pdpt ∨ level = .pd) ∧
      if created then
        createHugeEntry crates level (blockStart level vaddr) map.2 = some entry
      else
        generateHugeEntry crates level (blockStart level vaddr) map.2 = some entry := by
  refine ⟨huge_kind inner (leaf.whole inner).1 limit, ?_⟩
  have built := leaf.built
  rw [leafEntry, if_neg inner] at built
  split at built
  · rwa [if_pos ‹_›]
  · rwa [if_neg ‹_›]

theorem huge_either (inner : level ≠ .pt) :
    createHugeEntry crates level (blockStart level vaddr) map.2 = some entry ∨
      generateHugeEntry crates level (blockStart level vaddr) map.2 = some entry := by
  have built := (leaf.huge limit inner).2
  split at built
  · exact .inl built
  · exact .inr built

/-- A leaf carries the flags of its range. -/
theorem carries : CarriesFlags map.2 entry := by
  by_cases bottom : level = .pt
  · subst bottom
    exact pageEntry_carries leaf.built
  · exact hugeEntry_carries (leaf.huge limit bottom).1 (leaf.huge_either limit bottom)

/-- PAT is lost in pages, and a created huge leaf has PAT for HUGE. -/
theorem pat :
    patBit level entry = (decide (level ≠ .pt) &&
      (map.2.contains .pat || created && map.2.contains .huge)) := by
  have aligned := dvd_blockStart level vaddr
  rw [PageEntryFlags.pat, PageEntryFlags.huge, PageEntryFlags.contains_flag _ (by decide),
    PageEntryFlags.contains_flag _ (by decide)]
  by_cases bottom : level = .pt
  · subst bottom
    exact pageEntry_patBit leaf.built aligned
  · obtain ⟨kind, built⟩ := leaf.huge limit bottom
    rw [patBit, if_neg bottom, decide_eq_true bottom, Bool.true_and]
    split at built
    · rename_i creates
      rw [createHugeEntry_patBit kind built aligned, creates, Bool.true_and]
    · rename_i generates
      rw [generateHugeEntry_patBit kind built aligned, eq_false_of_ne_true generates,
        Bool.false_and, Bool.or_false]

/-- The frame address of a leaf is its base, with PAT read as an address bit in a huge leaf. -/
theorem address :
    ∃ base, leafBase level entry = some base ∧
      tableBase entry = base + if level ≠ .pt ∧ patBit level entry = true then 4096 else 0 := by
  by_cases bottom : level = .pt
  · subst bottom
    refine ⟨(entry &&& addressField 12).toNat, rfl, ?_⟩
    rw [tableBase, addressField_twelve, if_neg fun both => both.1 rfl]
    rfl
  · have kind := (leaf.huge limit bottom).1
    have clear : ∀ index, 12 < index → index < level.shift → entry.getLsbD index = false :=
      fun index above below => hugeEntry_clear kind (leaf.huge_either limit bottom)
        (dvd_blockStart level vaddr) above below
    rw [patBit, if_neg bottom]
    simp only [ne_eq, bottom, not_false_eq_true, true_and]
    rcases kind with rfl | rfl
    · exact ⟨_, rfl, tableBase_of_clear (.inr rfl) clear⟩
    · exact ⟨_, rfl, tableBase_of_clear (.inl rfl) clear⟩

omit limit

/-- The leaf was built from the flags of the range that covers the address. -/
theorem lastFlags (tidy : Tidy 4096 maps) : lastFlags maps vaddr = some map.2 := by
  have inside := blockStart_le level vaddr
  have member : map ∈ maps := List.mem_of_mem_filter leaf.member
  refine lastWriter_eq_some_of_mem tidy.disjoint member (covers_iff.mpr ?_)
  by_cases bottom : level = .pt
  · subst bottom
    have page := tidy.page (dvd_blockStart .pt vaddr) leaf.member
    have size : PageLevel.pt.entrySize = 4096 := by decide
    omega
  · obtain ⟨-, start, stop⟩ := leaf.whole bottom
    rw [MemRangeData.wrappedEnd_of_fits (tidy.fits map member)] at stop
    omega

end LeafOf

end Okots
