import Mathlib.Data.Set.Insert
import Mathlib.Logic.Function.Basic

/-!
# Private caches of a shared structure

Parties cache items of a shared structure and drop them only when they flush.  A mark is set when
items leave the structure.  Of the items that have left, a party still caches exactly those that it
held at the mark, unless it has flushed since.
-/

namespace StaleCache

/-- What every party caches, what it held at the mark, and whether it has flushed since. -/
structure Caches (ι α : Type*) where
  cached : ι → Set α
  held : ι → Set α
  flushed : ι → Bool

namespace Caches

variable {ι α : Type*}

/-- Nothing is cached. -/
def empty : Caches ι α := ⟨fun _ => ∅, fun _ => ∅, fun _ => false⟩

/-- A party caches an item. -/
def fill [DecidableEq ι] (caches : Caches ι α) (party : ι) (item : α) : Caches ι α :=
  { caches with
    cached := Function.update caches.cached party (insert item (caches.cached party)) }

/-- A party drops its items. -/
def flush [DecidableEq ι] (caches : Caches ι α) (party : ι) : Caches ι α :=
  { caches with
    cached := Function.update caches.cached party ∅
    flushed := Function.update caches.flushed party true }

/-- Set the mark. -/
def mark (caches : Caches ι α) : Caches ι α :=
  { caches with held := caches.cached, flushed := fun _ => false }

/-- Of the items in `gone` a party caches what it held at the mark, unless it has flushed since. -/
def Exact (gone : Set α) (caches : Caches ι α) : Prop :=
  ∀ party, ∀ item ∈ gone,
    item ∈ caches.cached party ↔ caches.flushed party = false ∧ item ∈ caches.held party

variable {gone : Set α} {caches : Caches ι α}

theorem mark_exact (gone : Set α) (caches : Caches ι α) : caches.mark.Exact gone :=
  fun _ _ _ => ⟨fun held => ⟨rfl, held⟩, fun both => both.2⟩

theorem Exact.mono {fewer : Set α} (exact : caches.Exact gone) (subset : fewer ⊆ gone) :
    caches.Exact fewer :=
  fun party item member => exact party item (subset member)

/-- No party caches the item exactly when those that held it have flushed. -/
theorem Exact.uncached_iff {item : α} (exact : caches.Exact gone) (member : item ∈ gone) :
    (∀ party, item ∉ caches.cached party) ↔
      ∀ party, caches.flushed party = true ∨ item ∉ caches.held party := by
  refine forall_congr' fun party => ?_
  rw [exact party item member, not_and_or, Bool.not_eq_false]

variable [DecidableEq ι]

/-- Items that have left the structure are not cached again. -/
theorem Exact.fill (exact : caches.Exact gone) {party : ι} {item : α} (present : item ∉ gone) :
    (caches.fill party item).Exact gone := by
  intro other found member
  refine Iff.trans ?_ (exact other found member)
  simp only [Caches.fill]
  by_cases same : other = party
  · subst same
    rw [Function.update_self, Set.mem_insert_iff]
    exact or_iff_right fun equal => present (equal ▸ member)
  · rw [Function.update_of_ne same]

theorem Exact.flush (exact : caches.Exact gone) (party : ι) : (caches.flush party).Exact gone := by
  intro other found member
  simp only [Caches.flush]
  by_cases same : other = party
  · subst same
    simp
  · rw [Function.update_of_ne same, Function.update_of_ne same]
    exact exact other found member

end Caches
end StaleCache
