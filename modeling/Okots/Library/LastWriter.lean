import Mathlib.Data.List.Basic
import Mathlib.Data.List.Pairwise

/-!
# Last-writer-wins lists

A list of items, each covering a set of keys and carrying a value, denotes a partial map: a key is
sent to the value of the last item that covers it.  Replacing items by pieces, permuting disjoint
items and appending lists act on that map in the expected way.
-/

namespace LastWriter

variable {β κ ν : Type*} (covers : β → κ → Bool) (value : β → ν)

/-- The value of the last item that covers `key`. -/
def lastWriter : List β → κ → Option ν
  | [], _ => none
  | item :: rest, key =>
      (lastWriter rest key).or (if covers item key then some (value item) else none)

/-- Two items cover no common key. -/
def Apart (left right : β) : Prop := ∀ key, ¬ (covers left key = true ∧ covers right key = true)

variable {covers value}

theorem Apart.symm {left right : β} (apart : Apart covers left right) :
    Apart covers right left :=
  fun key both => apart key ⟨both.2, both.1⟩

@[simp]
theorem lastWriter_nil (key : κ) : lastWriter covers value [] key = none := rfl

theorem lastWriter_append (left right : List β) (key : κ) :
    lastWriter covers value (left ++ right) key =
      (lastWriter covers value right key).or (lastWriter covers value left key) := by
  induction left with
  | nil => simp
  | cons item left induction => simp [lastWriter, induction, Option.or_assoc]

theorem lastWriter_concat (items : List β) (item : β) (key : κ) :
    lastWriter covers value (items ++ [item]) key =
      if covers item key then some (value item) else lastWriter covers value items key := by
  rw [lastWriter_append]
  by_cases covered : covers item key = true <;> simp [lastWriter, covered]

theorem lastWriter_eq_none_iff {items : List β} {key : κ} :
    lastWriter covers value items key = none ↔ ∀ item ∈ items, covers item key = false := by
  induction items with
  | nil => simp
  | cons item rest induction => simp [lastWriter, induction, and_comm]

theorem exists_of_lastWriter_eq_some {items : List β} {key : κ} {result : ν}
    (written : lastWriter covers value items key = some result) :
    ∃ item ∈ items, covers item key = true ∧ value item = result := by
  induction items with
  | nil => simp at written
  | cons item rest induction =>
      rcases Option.or_eq_some_iff.mp written with inRest | ⟨-, atHead⟩
      · obtain ⟨found, member, facts⟩ := induction inRest
        exact ⟨found, List.mem_cons_of_mem _ member, facts⟩
      · by_cases covered : covers item key = true
        · exact ⟨item, List.mem_cons_self, covered, by simpa [covered] using atHead⟩
        · simp [covered] at atHead

/-- Items that do not cover the key may be dropped. -/
theorem lastWriter_filter {items : List β} {key : κ} {keep : β → Bool}
    (kept : ∀ item ∈ items, covers item key = true → keep item = true) :
    lastWriter covers value (items.filter keep) key = lastWriter covers value items key := by
  induction items with
  | nil => rfl
  | cons item rest induction =>
      have restKept := induction fun other member => kept other (List.mem_cons_of_mem _ member)
      by_cases keeps : keep item = true
      · simp [keeps, lastWriter, restKept]
      · have uncovered : covers item key = false := by
          by_contra covered
          exact keeps (kept item List.mem_cons_self (by simpa using covered))
        simp [keeps, lastWriter, restKept, uncovered]

/-- When all items carry one value, only coverage matters. -/
theorem lastWriter_uniform {items : List β} {key : κ} {result : ν} {covered : Prop}
    [Decidable covered] (uniform : ∀ item ∈ items, value item = result)
    (coverage : (∃ item ∈ items, covers item key = true) ↔ covered) :
    lastWriter covers value items key = if covered then some result else none := by
  cases written : lastWriter covers value items key with
  | none =>
      rw [lastWriter_eq_none_iff] at written
      rw [if_neg]
      intro holds
      obtain ⟨item, member, itemCovers⟩ := coverage.mpr holds
      simp [written item member] at itemCovers
  | some found =>
      obtain ⟨item, member, itemCovers, rfl⟩ := exists_of_lastWriter_eq_some written
      rw [if_pos (coverage.mp ⟨item, member, itemCovers⟩), uniform item member]

/-- Among disjoint items, the one that covers a key determines its value. -/
theorem lastWriter_eq_some_of_mem {items : List β} {item : β} {key : κ}
    (disjoint : items.Pairwise (Apart covers)) (member : item ∈ items)
    (covered : covers item key = true) :
    lastWriter covers value items key = some (value item) := by
  induction items with
  | nil => simp at member
  | cons head rest induction =>
      obtain ⟨headApart, restDisjoint⟩ := List.pairwise_cons.mp disjoint
      rcases List.mem_cons.mp member with rfl | inRest
      · have restNone : lastWriter covers value rest key = none := by
          rw [lastWriter_eq_none_iff]
          intro other otherMember
          by_contra otherCovers
          exact headApart other otherMember key ⟨covered, by simpa using otherCovers⟩
        simp [lastWriter, restNone, covered]
      · simp [lastWriter, induction restDisjoint inRest]

/-- Disjoint items may be reordered. -/
theorem lastWriter_perm {items others : List β} (disjoint : items.Pairwise (Apart covers))
    (perm : items.Perm others) (key : κ) :
    lastWriter covers value items key = lastWriter covers value others key := by
  have othersDisjoint : others.Pairwise (Apart covers) :=
    (perm.pairwise_iff fun apart => Apart.symm apart).mp disjoint
  cases written : lastWriter covers value others key with
  | none =>
      rw [lastWriter_eq_none_iff] at written ⊢
      exact fun item member => written item (perm.mem_iff.mp member)
  | some result =>
      obtain ⟨item, member, covered, rfl⟩ := exists_of_lastWriter_eq_some written
      exact lastWriter_eq_some_of_mem disjoint (perm.mem_iff.mpr member) covered

/-- Replacing every item by pieces that cover what it covered outside `masked` removes the masked
keys from the map and changes nothing else. -/
theorem lastWriter_flatMap {items : List β} {pieces : β → List β} {key : κ} {masked : Prop}
    [Decidable masked]
    (piecewise : ∀ item ∈ items, lastWriter covers value (pieces item) key =
      if masked then none else if covers item key then some (value item) else none) :
    lastWriter covers value (items.flatMap pieces) key =
      if masked then none else lastWriter covers value items key := by
  induction items with
  | nil => simp
  | cons item rest induction =>
      have restPieces := induction fun other member =>
        piecewise other (List.mem_cons_of_mem _ member)
      rw [List.flatMap_cons, lastWriter_append, restPieces, piecewise item List.mem_cons_self]
      by_cases inside : masked <;> simp [lastWriter, inside]

end LastWriter
