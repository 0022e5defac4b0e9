import Mathlib.Data.List.Basic
import Mathlib.Order.Lattice

/-!
# Ordered multimaps

A map from ordered keys to non-shared lists of values, kept as its entries in increasing key order.
`pairs` is the denotation: every value with its key, in the order in which a traversal meets it.
`drain` removes first entries while their key is at most a bound.  Sortedness makes that the same as
filtering all pairs by the bound.
-/

namespace OrderedMultimap

/-- Entries in strictly increasing key order. -/
structure Multimap (κ ω : Type*) [LinearOrder κ] where
  /-- The entries from the smallest key on. -/
  entries : List (κ × List ω)
  /-- Keys increase strictly. -/
  sorted : entries.Pairwise fun left right => left.1 < right.1

variable {κ ω : Type*}

/-- The values of a list of entries, each with its key. -/
def entryPairs (entries : List (κ × List ω)) : List (κ × ω) :=
  entries.flatMap fun entry => entry.2.map (entry.1, ·)

@[simp] theorem entryPairs_nil : entryPairs ([] : List (κ × List ω)) = [] := rfl

@[simp] theorem entryPairs_cons (entry : κ × List ω) (rest : List (κ × List ω)) :
    entryPairs (entry :: rest) = entry.2.map (entry.1, ·) ++ entryPairs rest := rfl

theorem exists_entry_of_mem {entries : List (κ × List ω)} {pair : κ × ω}
    (member : pair ∈ entryPairs entries) : ∃ entry ∈ entries, entry.1 = pair.1 := by
  obtain ⟨entry, listed, inside⟩ := List.mem_flatMap.mp member
  obtain ⟨value, -, rfl⟩ := List.mem_map.mp inside
  exact ⟨entry, listed, rfl⟩

variable [LinearOrder κ]

/-- Append a value to the entry of `key`, which is created if absent. -/
def insertEntry (key : κ) (value : ω) : List (κ × List ω) → List (κ × List ω)
  | [] => [(key, [value])]
  | entry :: rest =>
      if key < entry.1 then (key, [value]) :: entry :: rest
      else if entry.1 < key then entry :: insertEntry key value rest
      else (entry.1, entry.2 ++ [value]) :: rest

theorem exists_of_mem_insertEntry {key : κ} {value : ω} {entries : List (κ × List ω)}
    {inserted : κ × List ω} (member : inserted ∈ insertEntry key value entries) :
    inserted.1 = key ∨ ∃ entry ∈ entries, inserted.1 = entry.1 := by
  induction entries with
  | nil => exact .inl (by rw [List.mem_singleton.mp member])
  | cons entry rest induction =>
      unfold insertEntry at member
      split at member
      · rcases List.mem_cons.mp member with rfl | later
        · exact .inl rfl
        · exact .inr ⟨inserted, later, rfl⟩
      · split at member <;> rcases List.mem_cons.mp member with rfl | later
        · exact .inr ⟨_, List.mem_cons_self, rfl⟩
        · rcases induction later with same | ⟨other, listed, same⟩
          · exact .inl same
          · exact .inr ⟨other, List.mem_cons_of_mem _ listed, same⟩
        · exact .inr ⟨_, List.mem_cons_self, rfl⟩
        · exact .inr ⟨inserted, List.mem_cons_of_mem _ later, rfl⟩

theorem insertEntry_sorted {entries : List (κ × List ω)} (key : κ) (value : ω)
    (sorted : entries.Pairwise fun left right => left.1 < right.1) :
    (insertEntry key value entries).Pairwise fun left right => left.1 < right.1 := by
  induction entries with
  | nil => exact List.pairwise_singleton _ _
  | cons entry rest induction =>
      obtain ⟨first, later⟩ := List.pairwise_cons.mp sorted
      unfold insertEntry
      split
      · rename_i before
        refine List.pairwise_cons.mpr ⟨?_, sorted⟩
        intro other member
        rcases List.mem_cons.mp member with rfl | inside
        · exact before
        · exact lt_trans before (first other inside)
      · split
        · rename_i after
          refine List.pairwise_cons.mpr ⟨?_, induction later⟩
          intro other member
          rcases exists_of_mem_insertEntry member with same | ⟨listed, inside, same⟩
          · rw [same]
            exact after
          · rw [same]
            exact first listed inside
        · exact List.pairwise_cons.mpr ⟨first, later⟩

theorem insertEntry_pairs (key : κ) (value : ω) (entries : List (κ × List ω)) :
    (entryPairs (insertEntry key value entries)).Perm ((key, value) :: entryPairs entries) := by
  induction entries with
  | nil => exact .refl _
  | cons entry rest induction =>
      unfold insertEntry
      split
      · exact .refl _
      · rename_i notBefore
        split
        · exact (induction.append_left _).trans List.perm_middle
        · rename_i notAfter
          have same : key = entry.1 := le_antisymm (not_lt.mp notAfter) (not_lt.mp notBefore)
          simp only [entryPairs_cons, List.map_append, List.map_cons, List.map_nil, same,
            List.append_assoc, List.singleton_append]
          exact List.perm_middle

/-- Remove first entries while their key is at most `bound`; the values removed and what is left. -/
def drainEntries (bound : κ) : List (κ × List ω) → List (κ × ω) × List (κ × List ω)
  | [] => ([], [])
  | entry :: rest =>
      if entry.1 ≤ bound then
        (entry.2.map (entry.1, ·) ++ (drainEntries bound rest).1, (drainEntries bound rest).2)
      else
        ([], entry :: rest)

theorem drainEntries_suffix (bound : κ) (entries : List (κ × List ω)) :
    (drainEntries bound entries).2 <:+ entries := by
  induction entries with
  | nil => exact List.suffix_rfl
  | cons entry rest induction =>
      unfold drainEntries
      split
      · exact induction.trans (List.suffix_cons entry rest)
      · exact List.suffix_rfl

/-- Draining a sorted list of entries filters its pairs by the bound. -/
theorem drainEntries_eq_filter {entries : List (κ × List ω)} (bound : κ)
    (sorted : entries.Pairwise fun left right => left.1 < right.1) :
    (drainEntries bound entries).1 = (entryPairs entries).filter (·.1 ≤ bound) ∧
      entryPairs (drainEntries bound entries).2 =
        (entryPairs entries).filter (bound < ·.1) := by
  induction entries with
  | nil => exact ⟨rfl, rfl⟩
  | cons entry rest induction =>
      obtain ⟨first, later⟩ := List.pairwise_cons.mp sorted
      unfold drainEntries
      split
      · rename_i due
        obtain ⟨drained, kept⟩ := induction later
        simp only [entryPairs_cons, List.filter_append]
        have all : (entry.2.map (entry.1, ·)).filter (·.1 ≤ bound) = entry.2.map (entry.1, ·) :=
          List.filter_eq_self.mpr (by simp [due])
        have none : (entry.2.map (entry.1, ·)).filter (bound < ·.1) = [] :=
          List.filter_eq_nil_iff.mpr (by simp [due])
        exact ⟨by rw [drained, all], by rw [kept, none, List.nil_append]⟩
      · rename_i early
        have above : ∀ pair ∈ entryPairs (entry :: rest), bound < pair.1 := by
          intro pair member
          obtain ⟨other, listed, same⟩ := exists_entry_of_mem member
          rw [← same]
          rcases List.mem_cons.mp listed with rfl | inside
          · exact not_le.mp early
          · exact lt_trans (not_le.mp early) (first other inside)
        constructor
        · exact (List.filter_eq_nil_iff.mpr fun pair member =>
            by simpa using above pair member).symm
        · exact (List.filter_eq_self.mpr fun pair member => by simpa using above pair member).symm

namespace Multimap

/-- The map without entries. -/
def empty : Multimap κ ω := ⟨[], List.Pairwise.nil⟩

/-- All values with their keys, in key order. -/
def pairs (map : Multimap κ ω) : List (κ × ω) := entryPairs map.entries

/-- Append a value at a key. -/
def push (map : Multimap κ ω) (key : κ) (value : ω) : Multimap κ ω :=
  ⟨insertEntry key value map.entries, insertEntry_sorted key value map.sorted⟩

/-- Remove the first entry. -/
def removeFirst (map : Multimap κ ω) : Multimap κ ω :=
  ⟨map.entries.tail, map.sorted.sublist (List.tail_sublist _)⟩

/-- Remove all values with a key of at most `bound`, smallest keys first. -/
def drain (map : Multimap κ ω) (bound : κ) : List (κ × ω) × Multimap κ ω :=
  ((drainEntries bound map.entries).1,
    ⟨(drainEntries bound map.entries).2,
      map.sorted.sublist (drainEntries_suffix bound map.entries).sublist⟩)

@[simp] theorem pairs_empty : (empty : Multimap κ ω).pairs = [] := rfl

theorem pairs_push (map : Multimap κ ω) (key : κ) (value : ω) :
    (map.push key value).pairs.Perm ((key, value) :: map.pairs) :=
  insertEntry_pairs key value map.entries

theorem drained_eq_filter (map : Multimap κ ω) (bound : κ) :
    (map.drain bound).1 = map.pairs.filter (·.1 ≤ bound) :=
  (drainEntries_eq_filter bound map.sorted).1

theorem pairs_drain (map : Multimap κ ω) (bound : κ) :
    (map.drain bound).2.pairs = map.pairs.filter (bound < ·.1) :=
  (drainEntries_eq_filter bound map.sorted).2

/-- A traversal meets the keys in non-decreasing order. -/
theorem pairs_sorted (map : Multimap κ ω) :
    map.pairs.Pairwise fun left right => left.1 ≤ right.1 := by
  refine List.pairwise_flatMap.mpr ⟨?_, map.sorted.imp ?_⟩
  · intro entry _
    exact List.pairwise_map.mpr (List.pairwise_of_forall fun _ _ => le_refl entry.1)
  · intro left right before first inLeft second inRight
    obtain ⟨_, -, rfl⟩ := List.mem_map.mp inLeft
    obtain ⟨_, -, rfl⟩ := List.mem_map.mp inRight
    exact le_of_lt before

end Multimap
end OrderedMultimap
