import Okots.Paging.EntryBits
import Okots.Paging.Tables
import Mathlib.Algebra.BigOperators.Group.Finset.Basic
import Mathlib.Algebra.Order.Group.Multiset
import Mathlib.Tactic.Abel

/-!
# Trees of tables

Two readings of an entry in a memory of table frames: the tree of entries below it, with frame
addresses forgotten, and the frames that hold this tree.  Both depend only on the contents of those
frames.  The frames form a multiset, so that a tree whose tables are pairwise distinct is one whose
frames have no duplicates.
-/

namespace Okots

open PageLevel

/-! ## Frames of the entries of a table -/

section Join

variable {ι : Type} [Fintype ι]

/-- The frames below the entries of a table, together. -/
@[irreducible]
def joinFrames (frames : ι → Multiset Nat) : Multiset Nat := ∑ index, frames index

theorem mem_joinFrames {frames : ι → Multiset Nat} {frame : Nat} :
    frame ∈ joinFrames frames ↔ ∃ index, frame ∈ frames index := by
  simp [joinFrames, Multiset.mem_sum]

theorem joinFrames_zero : joinFrames (fun _ : ι => 0) = 0 := by
  simp [joinFrames]

/-- Replacing the frames of one entry. -/
theorem joinFrames_exchange [DecidableEq ι] (before after : ι → Multiset Nat) (index : ι)
    (others : ∀ other ≠ index, after other = before other) :
    joinFrames after + before index = joinFrames before + after index := by
  have rest : ∑ i ∈ Finset.univ.erase index, after i = ∑ i ∈ Finset.univ.erase index, before i :=
    Finset.sum_congr rfl fun other member => others other (Finset.ne_of_mem_erase member)
  rw [joinFrames, joinFrames, ← Finset.add_sum_erase _ after (Finset.mem_univ index),
    ← Finset.add_sum_erase _ before (Finset.mem_univ index), rest]
  abel

/-- Entries of a table without duplicate frames have no frame in common. -/
theorem joinFrames_disjoint [DecidableEq ι] {frames : ι → Multiset Nat}
    (nodup : (joinFrames frames).Nodup) {left right : ι} (distinct : left ≠ right) {frame : Nat}
    (member : frame ∈ frames left) : frame ∉ frames right := by
  rw [joinFrames, ← Finset.add_sum_erase _ frames (Finset.mem_univ right),
    Multiset.nodup_add] at nodup
  intro inRight
  refine Multiset.disjoint_left.mp nodup.2.2 inRight ?_
  exact Multiset.mem_sum.mpr ⟨left, Finset.mem_erase.mpr ⟨distinct, Finset.mem_univ left⟩, member⟩

theorem joinFrames_nodup [DecidableEq ι] {frames : ι → Multiset Nat}
    (nodup : (joinFrames frames).Nodup) (index : ι) : (frames index).Nodup := by
  rw [joinFrames, ← Finset.add_sum_erase _ frames (Finset.mem_univ index),
    Multiset.nodup_add] at nodup
  exact nodup.1

end Join

/-! ## Entries -/

/-- The entry points to a lower table, unless it is in a leaf table. -/
def isRelay (entry : BitVec 64) : Bool := entry.getLsbD 0 && !entry.getLsbD 7

/-- A tree of entries without the addresses of the table frames. -/
inductive PageTree where
  | absent
  | leaf (entry : BitVec 64)
  | relay (flags : BitVec 64) (entries : Fin 512 → PageTree)

/-- The tree of an entry that is not a relay. -/
def leafTree (entry : BitVec 64) : PageTree :=
  if entry.getLsbD 0 then .leaf entry else .absent

/-- The tree below an entry. -/
def entryTree (words : TableWords) : PageLevel → BitVec 64 → PageTree :=
  descend fun _ lower entry =>
    match lower with
    | none => leafTree entry
    | some (_, next) =>
        if isRelay entry then
          .relay (entry &&& ~~~addrMask) fun index => next (words (tableBase entry) index)
        else
          leafTree entry

/-- The frames below an entry. -/
def entryFrames (words : TableWords) : PageLevel → BitVec 64 → Multiset Nat :=
  descend fun _ lower entry =>
    match lower with
    | none => 0
    | some (_, next) =>
        if isRelay entry then
          {tableBase entry} + joinFrames fun index => next (words (tableBase entry) index)
        else
          0

/-- The frames of a table and of all tables below it. -/
def tableFrames (words : TableWords) (level : PageLevel) (table : Nat) : Multiset Nat :=
  {table} + joinFrames fun index => entryFrames words level (words table index)

/-- The entries of a table, as trees. -/
def tableTree (words : TableWords) (level : PageLevel) (table : Nat) (index : Fin 512) : PageTree :=
  entryTree words level (words table index)

/-- An entry at `level` that refers to a table at `next`. -/
structure Relays (level : PageLevel) (entry : BitVec 64) (next : PageLevel) : Prop where
  down : level.down = some next
  relay : isRelay entry = true

section Readings

variable {words : TableWords} {level next : PageLevel} {entry : BitVec 64}

theorem Relays.entryTree (relays : Relays level entry next) :
    entryTree words level entry =
      .relay (entry &&& ~~~addrMask) (tableTree words next (tableBase entry)) := by
  rw [Okots.entryTree, descend_eq, relays.down]
  simp only [Option.map_some, relays.relay, if_true]
  rfl

theorem Relays.entryFrames (relays : Relays level entry next) :
    entryFrames words level entry = tableFrames words next (tableBase entry) := by
  rw [Okots.entryFrames, descend_eq, relays.down]
  simp only [Option.map_some, relays.relay, if_true]
  rfl

/-- The entry has no table below it. -/
def Childless (level : PageLevel) (entry : BitVec 64) : Prop :=
  level = .pt ∨ isRelay entry = false

theorem Childless.entryTree (childless : Childless level entry) :
    entryTree words level entry = leafTree entry := by
  rw [Okots.entryTree, descend_eq]
  rcases childless with rfl | plain
  · rfl
  · cases level.down <;> simp [plain]

theorem Childless.entryFrames (childless : Childless level entry) :
    entryFrames words level entry = 0 := by
  rw [Okots.entryFrames, descend_eq]
  rcases childless with rfl | plain
  · rfl
  · cases level.down <;> simp [plain]

theorem relays_or_childless (level : PageLevel) (entry : BitVec 64) :
    (∃ next, Relays level entry next) ∨ Childless level entry := by
  by_cases relay : isRelay entry = true
  · cases step : level.down with
    | none => exact .inr (.inl (down_eq_none.mp step))
    | some next => exact .inl ⟨next, step, relay⟩
  · exact .inr (.inr (by simpa using relay))

theorem childless_zero : Childless level 0 := .inr rfl

private theorem hugeLeaf_childless {crates : X86Crates} {vaddr : Nat} {bits : BitVec 64}
    (kind : level = .pdpt ∨ level = .pd) (built : hugeLeaf crates level vaddr bits = some entry) :
    Childless level entry := by
  right
  rw [crates.entryNew_result _ _ _ _ built, crates.flagPS_eq level kind]
  simp only [isRelay, BitVec.getLsbD_or, getLsbD_entryBit]
  simp

theorem createHugeEntry_childless {crates : X86Crates} {vaddr : Nat} {flags : PageEntryFlags}
    (built : createHugeEntry crates level vaddr flags = some entry) : Childless level entry := by
  cases level with
  | pdpt => exact hugeLeaf_childless (.inl rfl) built
  | pd => exact hugeLeaf_childless (.inr rfl) built
  | pt | pml4 | pml5 =>
      obtain rfl := Option.some.inj built
      exact childless_zero

theorem generateHugeEntry_childless {crates : X86Crates} {vaddr : Nat} {flags : PageEntryFlags}
    (built : generateHugeEntry crates level vaddr flags = some entry) : Childless level entry := by
  cases level with
  | pdpt => exact hugeLeaf_childless (.inl rfl) built
  | pd => exact hugeLeaf_childless (.inr rfl) built
  | pt | pml4 | pml5 =>
      obtain rfl := Option.some.inj built
      exact childless_zero

theorem relays_relayWord {frame : Nat} (aligned : 4096 ∣ frame) (bounded : frame < 2 ^ 52)
    (step : level.down = some next) : Relays level (relayWord frame) next where
  down := step
  relay := by
    rw [isRelay, getLsbD_relayWord aligned bounded (by decide),
      getLsbD_relayWord aligned bounded (by decide)]
    decide

end Readings

/-! ## Dependence on memory -/

theorem mem_tableFrames {words : TableWords} {level : PageLevel} {table frame : Nat} :
    frame ∈ tableFrames words level table ↔
      frame = table ∨ ∃ index, frame ∈ entryFrames words level (words table index) := by
  simp [tableFrames, mem_joinFrames]

/-- An entry reads the same in memories that agree on its frames. -/
theorem entry_congr {words words' : TableWords} (level : PageLevel) :
    ∀ entry, (∀ frame ∈ entryFrames words level entry, words' frame = words frame) →
      entryFrames words' level entry = entryFrames words level entry ∧
      entryTree words' level entry = entryTree words level entry := by
  induction level using downInduction with
  | step level induction =>
      intro entry agree
      rcases relays_or_childless level entry with ⟨next, relays⟩ | childless
      · rw [relays.entryFrames] at agree
        have same : words' (tableBase entry) = words (tableBase entry) :=
          agree _ (mem_tableFrames.mpr (.inl rfl))
        have below := fun index => induction next relays.down (words (tableBase entry) index)
          fun frame member => agree frame (mem_tableFrames.mpr (.inr ⟨index, member⟩))
        rw [relays.entryFrames, relays.entryFrames, relays.entryTree, relays.entryTree]
        constructor
        · rw [tableFrames, tableFrames, same]
          simp only [fun index => (below index).1]
        · congr 1
          funext index
          rw [tableTree, tableTree, same, (below index).2]
      · rw [childless.entryFrames, childless.entryFrames, childless.entryTree, childless.entryTree]
        exact ⟨rfl, rfl⟩

/-- A table reads the same in memories that agree on its frames. -/
theorem table_congr {words words' : TableWords} {level : PageLevel} {table : Nat}
    (agree : ∀ frame ∈ tableFrames words level table, words' frame = words frame) :
    tableFrames words' level table = tableFrames words level table ∧
      tableTree words' level table = tableTree words level table := by
  have same : words' table = words table := agree _ (mem_tableFrames.mpr (.inl rfl))
  have below : ∀ index, entryFrames words' level (words table index) =
        entryFrames words level (words table index) ∧
      entryTree words' level (words table index) = entryTree words level (words table index) :=
    fun index => entry_congr level (words table index) fun frame member =>
      agree frame (mem_tableFrames.mpr (.inr ⟨index, member⟩))
  constructor
  · rw [tableFrames, tableFrames, same]
    simp only [fun index => (below index).1]
  · funext index
    rw [tableTree, tableTree, same, (below index).2]

/-- Replacing one entry exchanges its frames and leaves the other entries as they were. -/
theorem table_exchange {words words' : TableWords} {level : PageLevel} {table : Nat}
    (index : Fin 512) (others : ∀ other ≠ index, words' table other = words table other)
    (kept : ∀ other ≠ index, ∀ frame ∈ entryFrames words level (words table other),
      words' frame = words frame) :
    tableFrames words' level table + entryFrames words level (words table index) =
        tableFrames words level table + entryFrames words' level (words' table index) ∧
      ∀ other ≠ index, tableTree words' level table other = tableTree words level table other := by
  have same : ∀ other ≠ index, entryFrames words' level (words table other) =
        entryFrames words level (words table other) ∧
      entryTree words' level (words table other) = entryTree words level (words table other) :=
    fun other distinct => entry_congr level (words table other) (kept other distinct)
  constructor
  · rw [tableFrames, tableFrames, add_assoc, add_assoc]
    congr 1
    refine joinFrames_exchange (fun index => entryFrames words level (words table index))
      (fun index => entryFrames words' level (words' table index)) index fun other distinct => ?_
    rw [others other distinct, (same other distinct).1]
  · intro other distinct
    rw [tableTree, tableTree, others other distinct, (same other distinct).2]

/-! ## Detached tables -/

/-- `frame` is a table at level `found` in the tree below `table`. -/
inductive TableAt (words : TableWords) : PageLevel → Nat → PageLevel → Nat → Prop
  | here (level : PageLevel) (table : Nat) : TableAt words level table level table
  | under {level next found : PageLevel} {table frame : Nat} (index : Fin 512)
      (relays : Relays level (words table index) next)
      (inside : TableAt words next (tableBase (words table index)) found frame) :
      TableAt words level table found frame

/-- The frames of a list of tables. -/
def detachedFrames (words : TableWords) (tables : List (Nat × PageLevel)) : Multiset Nat :=
  (tables.map fun table => tableFrames words table.2 table.1).sum

/-- The table below an entry, with its level. -/
def childTables (level : PageLevel) (entry : BitVec 64) : List (Nat × PageLevel) :=
  match level.down with
  | some next => if isRelay entry then [(tableBase entry, next)] else []
  | none => []

section Detached

variable {words words' : TableWords} {level : PageLevel} {entry : BitVec 64}
  {tables others : List (Nat × PageLevel)}

theorem TableAt.congr {found : PageLevel} {table frame : Nat}
    (inside : TableAt words level table found frame)
    (agree : ∀ frame ∈ tableFrames words level table, words' frame = words frame) :
    TableAt words' level table found frame := by
  induction inside with
  | here => exact .here _ _
  | @under level next found table frame index relays _ induction =>
      have same : words' table = words table := agree _ (mem_tableFrames.mpr (.inl rfl))
      refine .under index (same ▸ relays) ?_
      rw [same]
      refine induction fun held member => agree held (mem_tableFrames.mpr (.inr ⟨index, ?_⟩))
      rwa [relays.entryFrames]

@[simp]
theorem detachedFrames_append :
    detachedFrames words (tables ++ others) =
      detachedFrames words tables + detachedFrames words others := by
  simp [detachedFrames]

@[simp]
theorem detachedFrames_nil : detachedFrames words [] = 0 := rfl

theorem detachedFrames_cons (table : Nat × PageLevel) :
    detachedFrames words (table :: tables) =
      tableFrames words table.2 table.1 + detachedFrames words tables := by
  simp [detachedFrames]

theorem detachedFrames_congr
    (agree : ∀ frame ∈ detachedFrames words tables, words' frame = words frame) :
    detachedFrames words' tables = detachedFrames words tables := by
  induction tables with
  | nil => rw [detachedFrames_nil, detachedFrames_nil]
  | cons table rest induction =>
      rw [detachedFrames_cons] at agree
      have head := (table_congr fun frame member =>
        agree frame (Multiset.mem_add.mpr (.inl member))).1
      have tail := induction fun frame member => agree frame (Multiset.mem_add.mpr (.inr member))
      rw [detachedFrames_cons, detachedFrames_cons, head, tail]

theorem childTables_of_childless (childless : Childless level entry) :
    childTables level entry = [] := by
  rcases childless with rfl | plain
  · rfl
  · cases step : level.down <;> simp [childTables, step, plain]

theorem childTables_of_relays {next : PageLevel} (relays : Relays level entry next) :
    childTables level entry = [(tableBase entry, next)] := by
  simp [childTables, relays.down, relays.relay]

theorem detachedFrames_childTables :
    detachedFrames words (childTables level entry) = entryFrames words level entry := by
  rcases relays_or_childless level entry with ⟨next, relays⟩ | childless
  · rw [childTables_of_relays relays, relays.entryFrames, detachedFrames_cons]
    simp
  · rw [childTables_of_childless childless, childless.entryFrames]
    rfl

end Detached

end Okots
