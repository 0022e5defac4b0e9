import Mathlib.Data.List.Basic
import Mathlib.Logic.Function.Basic

/-!
# Counted references

A heap of cells with strong counts.  A reference to a cell is a handle, which a running function
owns, or a raw pointer, which has been taken out of a handle and waits to be put back.  Cloning a
handle raises the count and dropping one lowers it; the conversions between handles and raw pointers
leave it alone.  A heap is `Counted` when every strong count is the number of references, and every
instruction keeps it so.
-/

namespace RefCount

variable {Data : Type*}

/-- A value with its strong count. -/
structure Cell (Data : Type*) where
  data : Data
  strong : Nat

/-- The cells by address, and the references to them. -/
structure Heap (Data : Type*) where
  /-- A released cell is gone. -/
  cells : Nat → Option (Cell Data)
  /-- The next unused address. -/
  fresh : Nat
  /-- The raw pointers that own a reference. -/
  raws : List Nat
  /-- The handles of the running functions. -/
  handles : List Nat

/-- What a function does with counted references. -/
inductive Instruction (Data : Type*) where
  | new (data : Data)
  | fromRaw (ptr : Nat)
  | clone (ptr : Nat)
  | intoRaw (ptr : Nat)
  | drop (ptr : Nat)

namespace Heap

/-- No cells and no references. -/
def empty : Heap Data := ⟨fun _ => none, 0, [], []⟩

/-- A cell that has lost a reference.  It is released with its last one. -/
def lowered (cell : Cell Data) : Option (Cell Data) :=
  if cell.strong = 1 then none else some { cell with strong := cell.strong - 1 }

/-- Execute an instruction.  There is no result when a reference is used that does not exist, or a
cell that was released. -/
def step (heap : Heap Data) : Instruction Data → Option (Heap Data)
  | .new data =>
      some { heap with
        cells := Function.update heap.cells heap.fresh (some ⟨data, 1⟩)
        fresh := heap.fresh + 1
        handles := heap.fresh :: heap.handles }
  | .fromRaw ptr =>
      if ptr ∈ heap.raws then
        some { heap with raws := heap.raws.erase ptr, handles := ptr :: heap.handles }
      else none
  | .clone ptr =>
      if ptr ∈ heap.handles then
        (heap.cells ptr).map fun cell =>
          { heap with
            cells := Function.update heap.cells ptr (some { cell with strong := cell.strong + 1 })
            handles := ptr :: heap.handles }
      else none
  | .intoRaw ptr =>
      if ptr ∈ heap.handles then
        some { heap with raws := ptr :: heap.raws, handles := heap.handles.erase ptr }
      else none
  | .drop ptr =>
      if ptr ∈ heap.handles then
        (heap.cells ptr).map fun cell =>
          { heap with
            cells := Function.update heap.cells ptr (lowered cell)
            handles := heap.handles.erase ptr }
      else none

/-- The strong count of an address. -/
def strong (heap : Heap Data) (ptr : Nat) : Nat := (heap.cells ptr).elim 0 Cell.strong

/-- The strong counts are the numbers of references, cells are released when there are none, and the
addresses from `fresh` on are unused. -/
structure Counted (heap : Heap Data) : Prop where
  counts : ∀ ptr, heap.strong ptr = heap.raws.count ptr + heap.handles.count ptr
  alive : ∀ ptr cell, heap.cells ptr = some cell → 0 < cell.strong
  unused : ∀ ptr, heap.fresh ≤ ptr → heap.cells ptr = none

theorem counted_empty : (empty : Heap Data).Counted where
  counts _ := rfl
  alive _ _ found := nomatch found
  unused _ _ := rfl

/-! ## The effect of the instructions -/

section Step

variable {heap after : Heap Data} {ptr : Nat} {cell : Cell Data}

theorem step_fromRaw (held : ptr ∈ heap.raws) : heap.step (.fromRaw ptr) =
    some { heap with raws := heap.raws.erase ptr, handles := ptr :: heap.handles } := if_pos held

theorem step_intoRaw {rest : List Nat} (top : heap.handles = ptr :: rest) :
    heap.step (.intoRaw ptr) = some { heap with raws := ptr :: heap.raws, handles := rest } := by
  rw [step, top, if_pos (List.mem_cons_self ..), List.erase_cons_head]

theorem step_clone (held : ptr ∈ heap.handles) (found : heap.cells ptr = some cell) :
    heap.step (.clone ptr) = some { heap with
      cells := Function.update heap.cells ptr (some { cell with strong := cell.strong + 1 })
      handles := ptr :: heap.handles } := by
  rw [step, if_pos held, found, Option.map_some]

theorem step_drop {rest : List Nat} (top : heap.handles = ptr :: rest)
    (found : heap.cells ptr = some cell) :
    heap.step (.drop ptr) = some { heap with
      cells := Function.update heap.cells ptr (lowered cell)
      handles := rest } := by
  rw [step, top, if_pos (List.mem_cons_self ..), found, Option.map_some, List.erase_cons_head]

theorem strong_of_found (found : heap.cells ptr = some cell) : heap.strong ptr = cell.strong := by
  rw [strong, found, Option.elim_some]

theorem lowered_strong (cell : Cell Data) :
    (lowered cell).elim 0 Cell.strong = cell.strong - 1 := by
  rw [lowered]
  split
  · rename_i last
    rw [last, Option.elim_none]
  · rfl

theorem lowered_alive {less : Cell Data} (alive : 0 < cell.strong)
    (kept : lowered cell = some less) : 0 < less.strong ∧ less.data = cell.data := by
  rw [lowered] at kept
  split at kept
  · cases kept
  · obtain rfl := Option.some.inj kept
    exact ⟨Nat.sub_pos_of_lt (by omega), rfl⟩

/-- A reference that moves between two lists is counted once. -/
theorem count_move {source target : List Nat} (held : ptr ∈ source) (other : Nat) :
    (source.erase ptr).count other + (ptr :: target).count other =
      source.count other + target.count other := by
  have positive := List.count_pos_iff.mpr held
  rw [List.count_erase, List.count_cons]
  by_cases same : ptr = other
  · subst same
    simp
    omega
  · simp [same]

end Step

/-! ## Counts -/

section Counted

variable {heap after : Heap Data} {ptr : Nat} {cell : Cell Data}

theorem Counted.lt_fresh (counted : heap.Counted) (found : heap.cells ptr = some cell) :
    ptr < heap.fresh := by
  by_contra beyond
  cases found.symm.trans (counted.unused ptr (Nat.not_lt.mp beyond))

/-- A cell is there exactly when it is referenced. -/
theorem Counted.isSome_iff (counted : heap.Counted) :
    (heap.cells ptr).isSome = true ↔ ptr ∈ heap.raws ∨ ptr ∈ heap.handles := by
  have counts := counted.counts ptr
  rw [← List.count_pos_iff, ← List.count_pos_iff]
  cases found : heap.cells ptr with
  | none =>
      rw [strong, found, Option.elim_none] at counts
      exact iff_of_false Bool.false_ne_true (by omega)
  | some cell =>
      have alive := counted.alive ptr cell found
      rw [strong_of_found found] at counts
      exact iff_of_true rfl (by omega)

/-- No reference is left to a released cell. -/
theorem Counted.exists_cell (counted : heap.Counted)
    (held : ptr ∈ heap.raws ∨ ptr ∈ heap.handles) : ∃ cell, heap.cells ptr = some cell :=
  Option.isSome_iff_exists.mp (counted.isSome_iff.mpr held)

/-- References move, the cells stay. -/
theorem Counted.moved (counted : heap.Counted) {raws handles : List Nat}
    (same : ∀ other, raws.count other + handles.count other =
      heap.raws.count other + heap.handles.count other) :
    Counted { heap with raws, handles } where
  counts other := (counted.counts other).trans (same other).symm
  alive := counted.alive
  unused := counted.unused

/-- One cell changes with the references to it. -/
theorem Counted.updated (counted : heap.Counted) {fresh : Nat} {handles : List Nat}
    {changed : Option (Cell Data)}
    (count : changed.elim 0 Cell.strong = heap.raws.count ptr + handles.count ptr)
    (others : ∀ other, other ≠ ptr → handles.count other = heap.handles.count other)
    (alive : ∀ cell, changed = some cell → 0 < cell.strong) (inside : ptr < fresh)
    (grown : heap.fresh ≤ fresh) :
    Counted { heap with cells := Function.update heap.cells ptr changed, fresh, handles } where
  counts other := by
    unfold strong
    dsimp only
    by_cases same : other = ptr
    · subst same
      rw [Function.update_self]
      exact count
    · rw [Function.update_of_ne same, others other same]
      exact counted.counts other
  alive other cell found := by
    dsimp only at found
    by_cases same : other = ptr
    · subst same
      rw [Function.update_self] at found
      exact alive cell found
    · rw [Function.update_of_ne same] at found
      exact counted.alive other cell found
  unused other beyond := by
    dsimp only at beyond ⊢
    rw [Function.update_of_ne (by omega)]
    exact counted.unused other (by omega)

theorem Counted.new (counted : heap.Counted) (data : Data)
    (run : heap.step (.new data) = some after) : after.Counted := by
  obtain rfl := Option.some.inj run
  have none : heap.cells heap.fresh = none := counted.unused _ (Nat.le_refl _)
  have counts := counted.counts heap.fresh
  rw [strong, none, Option.elim_none] at counts
  refine counted.updated ?_ (fun other different => ?_) ?_ (Nat.lt_succ_self _) (Nat.le_succ _)
  · rw [List.count_cons_self, Option.elim_some]
    dsimp only
    omega
  · exact List.count_cons_of_ne (Ne.symm different)
  · rintro _ ⟨⟩
    exact Nat.one_pos

theorem Counted.clone (counted : heap.Counted) (run : heap.step (.clone ptr) = some after) :
    after.Counted := by
  obtain ⟨held, moved⟩ := Option.ite_none_right_eq_some.mp run
  obtain ⟨cell, found, rfl⟩ := Option.map_eq_some_iff.mp moved
  have counts := counted.counts ptr
  rw [strong_of_found found] at counts
  refine counted.updated ?_ (fun other different => ?_) ?_ (counted.lt_fresh found) (Nat.le_refl _)
  · rw [List.count_cons_self, Option.elim_some]
    dsimp only
    omega
  · exact List.count_cons_of_ne (Ne.symm different)
  · rintro _ ⟨⟩
    exact Nat.succ_pos _

theorem Counted.drop (counted : heap.Counted) (run : heap.step (.drop ptr) = some after) :
    after.Counted := by
  obtain ⟨held, moved⟩ := Option.ite_none_right_eq_some.mp run
  obtain ⟨cell, found, rfl⟩ := Option.map_eq_some_iff.mp moved
  have counts := counted.counts ptr
  have positive := List.count_pos_iff.mpr held
  rw [strong_of_found found] at counts
  refine counted.updated ?_ (fun other different => ?_) ?_ (counted.lt_fresh found) (Nat.le_refl _)
  · rw [lowered_strong, List.count_erase_self]
    omega
  · exact List.count_erase_of_ne different
  · exact fun less kept => (lowered_alive (counted.alive ptr cell found) kept).1

/-- Every instruction keeps the counts right. -/
theorem Counted.step (counted : heap.Counted) (instruction : Instruction Data)
    (run : heap.step instruction = some after) : after.Counted := by
  cases instruction with
  | new data => exact counted.new data run
  | fromRaw ptr =>
      obtain ⟨held, moved⟩ := Option.ite_none_right_eq_some.mp run
      obtain rfl := Option.some.inj moved
      exact counted.moved fun other => count_move held other
  | clone ptr => exact counted.clone run
  | intoRaw ptr =>
      obtain ⟨held, moved⟩ := Option.ite_none_right_eq_some.mp run
      obtain rfl := Option.some.inj moved
      refine counted.moved fun other => ?_
      rw [Nat.add_comm, count_move held other, Nat.add_comm]
  | drop ptr => exact counted.drop run

end Counted

end Heap

end RefCount
