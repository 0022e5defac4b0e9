import Okots.Paging.Translation

/-!
# The tree of an update

The tree that an update leaves depends on the old tree as well as on the list: a huge leaf in a
table that was there is written by the update, one in a new table by the creation of that table, and
the two write PAT differently.
-/

namespace Okots

open PageLevel

/-- The entry that an update leaves at `level` for the block at `vstart` in place of `old`. -/
def updatedEntry (crates : X86Crates) (allowHuge : PageLevel) :
    PageLevel → PageTree → Nat → List Mapping → PageTree :=
  descend fun level lower old vstart maps =>
    match blockMaps level vstart maps with
    | [] => .absent
    | first :: rest =>
        match canBeHuge level allowHuge vstart (vstart + level.entrySize) (first :: rest) with
        | some flags => leafTree ((generateHugeEntry crates level vstart flags).getD 0)
        | none =>
            match lower with
            | some (next, update) =>
                match old with
                | .relay _ entries => .relay 7 fun index =>
                    update (entries index) (vstart + index * next.entrySize) (first :: rest)
                | _ => .relay 7 (listTable crates allowHuge next vstart (first :: rest))
            | none => leafTree ((pageEntry crates vstart first.2).getD 0)

/-- The entries that an update leaves in a table at `level` for the block at `vaddrBase`. -/
def updatedTable (crates : X86Crates) (allowHuge level : PageLevel) (old : Fin 512 → PageTree)
    (vaddrBase : Nat) (maps : List Mapping) (index : Fin 512) : PageTree :=
  updatedEntry crates allowHuge level (old index) (vaddrBase + index * level.entrySize) maps

/-- There is a table below the entry. -/
def PageTree.IsRelay : PageTree → Prop
  | .relay _ _ => True
  | _ => False

variable {crates : X86Crates} {allowHuge level next : PageLevel} {old : PageTree} {vstart : Nat}
  {maps : List Mapping}

theorem updatedEntry_empty (none : blockMaps level vstart maps = []) :
    updatedEntry crates allowHuge level old vstart maps = .absent := by
  rw [updatedEntry, descend_eq]
  simp only [none]

theorem updatedEntry_hugeLeaf {flags : PageEntryFlags}
    (huge : canBeHuge level allowHuge vstart (vstart + level.entrySize)
      (blockMaps level vstart maps) = some flags) :
    updatedEntry crates allowHuge level old vstart maps =
      leafTree ((generateHugeEntry crates level vstart flags).getD 0) := by
  obtain ⟨map, single, -⟩ := canBeHuge_eq_some huge
  rw [single] at huge
  rw [updatedEntry, descend_eq]
  simp only [single, huge]

theorem updatedEntry_huge {flags : PageEntryFlags} {entry : BitVec 64}
    (huge : canBeHuge level allowHuge vstart (vstart + level.entrySize)
      (blockMaps level vstart maps) = some flags)
    (built : generateHugeEntry crates level vstart flags = some entry) :
    updatedEntry crates allowHuge level old vstart maps = leafTree entry := by
  rw [updatedEntry_hugeLeaf huge, built, Option.getD_some]

theorem updatedEntry_pageLeaf {first : Mapping} {rest : List Mapping}
    (some : blockMaps .pt vstart maps = first :: rest) :
    updatedEntry crates allowHuge .pt old vstart maps =
      leafTree ((pageEntry crates vstart first.2).getD 0) := by
  rw [updatedEntry, descend_eq]
  simp only [some, canBeHuge_pt, down, Option.map_none]

theorem updatedEntry_page {first : Mapping} {rest : List Mapping} {entry : BitVec 64}
    (some : blockMaps .pt vstart maps = first :: rest)
    (built : pageEntry crates vstart first.2 = .some entry) :
    updatedEntry crates allowHuge .pt old vstart maps = leafTree entry := by
  rw [updatedEntry_pageLeaf some, built, Option.getD_some]

section Tables

variable (some : blockMaps level vstart maps ≠ [])
  (small : canBeHuge level allowHuge vstart (vstart + level.entrySize)
    (blockMaps level vstart maps) = none)
  (step : level.down = .some next)

include some small step

/-- A table that is there is updated. -/
theorem updatedEntry_relay (flags : BitVec 64) (entries : Fin 512 → PageTree) :
    updatedEntry crates allowHuge level (.relay flags entries) vstart maps =
      .relay 7 (updatedTable crates allowHuge next entries vstart
        (blockMaps level vstart maps)) := by
  obtain ⟨first, rest, nonempty⟩ := List.exists_cons_of_ne_nil some
  rw [nonempty] at small
  rw [updatedEntry, descend_eq]
  simp only [nonempty, small, step, Option.map_some]
  rfl

/-- Where no table is, one is created. -/
theorem updatedEntry_create (childless : ¬ old.IsRelay) :
    updatedEntry crates allowHuge level old vstart maps =
      .relay 7 (listTable crates allowHuge next vstart (blockMaps level vstart maps)) := by
  obtain ⟨first, rest, nonempty⟩ := List.exists_cons_of_ne_nil some
  rw [nonempty] at small
  rw [updatedEntry, descend_eq]
  simp only [nonempty, small, step, Option.map_some]
  cases old with
  | absent | leaf => rfl
  | relay => exact absurd trivial childless

end Tables

end Okots
