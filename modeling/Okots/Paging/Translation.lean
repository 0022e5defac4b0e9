import Okots.Paging.ListTree

/-!
# Translation by a tree

The hardware walk only depends on the tree of entries, and not on the PAT bit of its leaves.  The
tree of a list translates every address of its block to itself, with the attributes of the range
that covers it, and has no leaf for the other addresses.
-/

namespace Okots

open PageLevel LastWriter

/-! ## Walking a tree -/

/-- The hardware walk on a tree of entries. -/
def treeWalk : PageTree → PageLevel → Nat → Rights → Option Translation
  | .absent, _, _, _ => none
  | .leaf entry, level, vaddr, rights => leafTranslation level entry vaddr (rights.meet entry)
  | .relay flags entries, level, vaddr, rights =>
      match level.down with
      | none => none
      | some next => treeWalk (entries (next.getIndex vaddr)) next vaddr (rights.meet flags)

private theorem meet_flags (rights : Rights) (entry : BitVec 64) :
    rights.meet (entry &&& ~~~addrMask) = rights.meet entry := by
  simp [Rights.meet, addrMask]

private theorem treeWalk_leafTree (entry : BitVec 64) (level : PageLevel) (vaddr : Nat)
    (rights : Rights) :
    treeWalk (leafTree entry) level vaddr rights =
      if entry.getLsbD 0 then leafTranslation level entry vaddr (rights.meet entry) else none := by
  unfold leafTree
  split <;> rfl

/-- The walk of a table follows the tree of the selected entry. -/
theorem hardwareWalk_eq_treeWalk (words : TableWords) (vaddr : Nat) (level : PageLevel) :
    ∀ table rights, hardwareWalk words level table vaddr rights =
      treeWalk (tableTree words level table (level.getIndex vaddr)) level vaddr rights := by
  induction level using downInduction with
  | step level induction =>
      intro table rights
      rw [hardwareWalk, tableTree]
      set entry := words table (level.getIndex vaddr)
      rcases relays_or_childless level entry with ⟨next, relays⟩ | childless
      · have bits := relays.relay
        simp only [isRelay, Bool.and_eq_true, Bool.not_eq_true'] at bits
        rw [relays.entryTree, treeWalk, relays.down, if_pos bits.1]
        simp only [bits.2, Bool.false_eq_true, if_false, meet_flags]
        exact induction next relays.down _ _
      · rw [childless.entryTree, treeWalk_leafTree]
        by_cases present : entry.getLsbD 0 = true
        · rw [if_pos present, if_pos present]
          split
          · rfl
          · rename_i next step
            rcases childless with rfl | plain
            · simp [down] at step
            · have size : entry.getLsbD 7 = true := by simpa [isRelay, present] using plain
              rw [if_pos size]
        · rw [if_neg present, if_neg present]

/-! ## PAT -/

/-- The tree of an entry at `level` with the PAT bit of its huge leaves cleared. -/
def erasePat : PageLevel → PageTree → PageTree
  | _, .absent => .absent
  | level, .leaf entry => .leaf (if level = .pt then entry else entry &&& ~~~entryBit 12)
  | level, .relay flags entries =>
      .relay flags fun index => erasePat (level.down.getD .pt) (entries index)

theorem erasePat_relay {level next : PageLevel} (step : level.down = some next) (flags : BitVec 64)
    (entries : Fin 512 → PageTree) :
    erasePat level (.relay flags entries) =
      .relay flags fun index => erasePat next (entries index) := by
  rw [erasePat, step]
  rfl

/-- Huge leaves that agree up to bit 12 are equal up to PAT. -/
theorem erasePat_leafTree {level : PageLevel} {left right : BitVec 64} (inner : level ≠ .pt)
    (same : left &&& ~~~entryBit 12 = right &&& ~~~entryBit 12) :
    erasePat level (leafTree left) = erasePat level (leafTree right) := by
  have present : left.getLsbD 0 = right.getLsbD 0 := by
    have bit := congrArg (fun word => BitVec.getLsbD word 0) same
    simp only [BitVec.getLsbD_and, BitVec.getLsbD_not, getLsbD_entryBit] at bit
    simpa using bit
  unfold leafTree
  rw [present]
  split
  · simp only [erasePat, if_neg inner, same]
  · rfl

private theorem leafTranslation_pat {level : PageLevel} (entry : BitVec 64) (vaddr : Nat)
    (rights : Rights) (inner : level ≠ .pt) :
    leafTranslation level (entry &&& ~~~entryBit 12) vaddr
        (rights.meet (entry &&& ~~~entryBit 12)) =
      leafTranslation level entry vaddr (rights.meet entry) := by
  have bit : ∀ index, 12 ≠ index → index < 64 →
      (entry &&& ~~~entryBit 12).getLsbD index = entry.getLsbD index := by
    intro index other bound
    simp only [BitVec.getLsbD_and, BitVec.getLsbD_not, getLsbD_entryBit, bound, other, decide_true,
      decide_false, Bool.and_false, Bool.not_false, Bool.and_true]
  have meet : rights.meet (entry &&& ~~~entryBit 12) = rights.meet entry := by
    simp only [Rights.meet, bit 1 (by decide) (by decide), bit 2 (by decide) (by decide),
      bit 63 (by decide) (by decide)]
  have base : leafBase level (entry &&& ~~~entryBit 12) = leafBase level entry := by
    cases level with
    | pt => exact absurd rfl inner
    | pd =>
        rw [leafBase, leafBase, BitVec.and_assoc,
          show ~~~entryBit 12 &&& addressField 21 = addressField 21 by decide]
    | pdpt =>
        rw [leafBase, leafBase, BitVec.and_assoc,
          show ~~~entryBit 12 &&& addressField 30 = addressField 30 by decide]
    | pml4 | pml5 => rfl
  rw [leafTranslation, leafTranslation, meet, base, bit 3 (by decide) (by decide),
    bit 4 (by decide) (by decide), bit 8 (by decide) (by decide)]

/-- The PAT bits take no part in the walk. -/
theorem treeWalk_erasePat (tree : PageTree) (vaddr : Nat) :
    ∀ level rights, treeWalk (erasePat level tree) level vaddr rights =
      treeWalk tree level vaddr rights := by
  induction tree with
  | absent => exact fun _ _ => rfl
  | leaf entry =>
      intro level rights
      by_cases leafLevel : level = .pt
      · simp only [erasePat, if_pos leafLevel]
      · simp only [erasePat, if_neg leafLevel, treeWalk]
        exact leafTranslation_pat entry vaddr rights leafLevel
  | relay flags entries induction =>
      intro level rights
      rw [erasePat, treeWalk, treeWalk]
      cases step : level.down with
      | none => rfl
      | some next => exact induction _ _ _

/-! ## The tree of a list -/

private theorem leafTranslation_of_mapsBlock {level : PageLevel} {vstart vaddr : Nat}
    {flags : PageEntryFlags} {entry : BitVec 64} (maps : MapsBlock level vstart flags entry)
    (aligned : level.entrySize ∣ vstart) (above : vstart ≤ vaddr)
    (below : vaddr < vstart + level.entrySize) :
    treeWalk (leafTree entry) level vaddr Rights.all = some (requested flags vaddr) := by
  have offset : vstart + vaddr % level.entrySize = vaddr := by
    obtain ⟨quotient, rfl⟩ := aligned
    have split : vaddr = level.entrySize * quotient + (vaddr - level.entrySize * quotient) := by
      omega
    rw [split, Nat.mul_add_mod, Nat.mod_eq_of_lt (by omega)]
  rw [treeWalk_leafTree, if_pos maps.carries.present, leafTranslation, maps.base, Option.map_some,
    offset, maps.carries.pwt, maps.carries.pcd, maps.carries.global, Rights.meet,
    maps.carries.writable, maps.carries.user, maps.carries.executeDisable]
  simp only [Rights.all, requested, PageEntryFlags.writable, PageEntryFlags.userPage,
    PageEntryFlags.executeDisable, PageEntryFlags.pwt, PageEntryFlags.pcd, PageEntryFlags.global,
    Bool.true_and, Bool.false_or]
  rw [PageEntryFlags.contains_flag, PageEntryFlags.contains_flag, PageEntryFlags.contains_flag,
    PageEntryFlags.contains_flag, PageEntryFlags.contains_flag, PageEntryFlags.contains_flag]
  all_goals decide

theorem huge_kind {level allowHuge : PageLevel} (leafLevel : level ≠ .pt)
    (allowed : level ≤ allowHuge) (limit : allowHuge ≤ .pdpt) : level = .pdpt ∨ level = .pd := by
  have low : level.rank ≤ 2 := Nat.le_trans allowed limit
  cases level with
  | pt => exact absurd rfl leafLevel
  | pd => exact .inr rfl
  | pdpt => exact .inl rfl
  | pml4 | pml5 => simp [rank] at low

private theorem meet_relay : Rights.all.meet 7 = Rights.all := by decide

variable {crates : X86Crates} {allowHuge : PageLevel} {bound vaddr : Nat}

/-- Inside its block, the entry of a list translates as the list says. -/
theorem treeWalk_listEntry (limit : allowHuge ≤ .pdpt) (level : PageLevel) :
    ∀ vstart maps, Block bound level vstart → Buildable bound maps → vstart ≤ vaddr →
      vaddr < vstart + level.entrySize →
      treeWalk (listEntry crates allowHuge level vstart maps) level vaddr Rights.all =
        (lastFlags maps vaddr).map (requested · vaddr) := by
  induction level using downInduction with
  | step level induction =>
      intro vstart maps block buildable above below
      rw [← buildable.lastFlags_blockMaps above below]
      have sub := buildable.blockMaps level vstart
      rcases selected : blockMaps level vstart maps with _ | ⟨first, rest⟩
      · rw [listEntry_empty selected]
        rfl
      rw [← selected]
      have nonempty : blockMaps level vstart maps ≠ [] := by simp [selected]
      cases choice : canBeHuge level allowHuge vstart (vstart + level.entrySize)
          (blockMaps level vstart maps) with
      | some flags =>
          obtain ⟨map, member, mapAbove, mapBelow⟩ := buildable.huge choice
          obtain ⟨-, -, leafLevel, allowed, -⟩ := canBeHuge_eq_some choice
          obtain ⟨entry, built, mapsBlock⟩ := createHugeEntry_mapsBlock crates
            (huge_kind leafLevel allowed limit) flags block.aligned
            (buildable.physical block member mapAbove mapBelow)
          have covered : covers (map, flags) vaddr = true := covers_iff.mpr (by simp only; omega)
          rw [listEntry_huge choice built, lastFlags,
            lastWriter_eq_some_of_mem sub.tidy.disjoint member covered, Option.map_some]
          exact leafTranslation_of_mapsBlock mapsBlock block.aligned above below
      | none =>
          cases step : level.down with
          | some next =>
              have table := block.table step
              have size := entrySize_down step
              have index := table.getIndex above (size ▸ below)
              rw [listEntry_relay nonempty choice step, treeWalk, step]
              simp only [meet_relay]
              exact induction next step _ _ (table.entry _) sub index.1 index.2
          | none =>
              obtain rfl := down_eq_none.mp step
              have member : first ∈ blockMaps .pt vstart maps := by simp [selected]
              have inside := buildable.page block member
              have size : PageLevel.pt.entrySize = 4096 := by decide
              obtain ⟨entry, built, mapsBlock⟩ := pageEntry_mapsBlock crates first.2 block.aligned
                (buildable.physical block member inside.1 inside.2)
              have covered : covers first vaddr = true := covers_iff.mpr (by omega)
              rw [listEntry_page selected built, lastFlags,
                lastWriter_eq_some_of_mem sub.tidy.disjoint member covered, Option.map_some]
              exact leafTranslation_of_mapsBlock mapsBlock block.aligned above below

/-- A table whose entries are those of a list, up to PAT, translates as the list says; only the
blocks up to the address matter. -/
theorem hardwareWalk_of_tableTree {words : TableWords} {level : PageLevel} {table total : Nat}
    {maps : List Mapping} (limit : allowHuge ≤ .pdpt) (block : TableBlock total level 0)
    (buildable : Buildable bound maps)
    (tree : ∀ index, erasePat level (tableTree words level table index) =
      erasePat level (listTable crates allowHuge level 0 maps index))
    (below : vaddr < 512 * level.entrySize)
    (within : level.getIndex vaddr * level.entrySize + level.entrySize ≤ bound) :
    hardwareWalk words level table vaddr Rights.all =
      (lastFlags maps vaddr).map (requested · vaddr) := by
  have index := block.getIndex (Nat.zero_le vaddr) (by omega)
  rw [hardwareWalk_eq_treeWalk, ← treeWalk_erasePat, tree, treeWalk_erasePat, listTable]
  exact treeWalk_listEntry limit level _ _ ⟨(block.entry _).aligned, by omega⟩ buildable index.1
    index.2

end Okots
