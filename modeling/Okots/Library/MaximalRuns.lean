import Mathlib.Order.Lattice
import Okots.Library.LastWriter

/-!
# Maximal runs

A list of half-open intervals with values denotes a partial map.  When the intervals are not empty,
come in order and never touch with equal values, they are the maximal runs of the map, and the list
is determined by the map.
-/

namespace MaximalRuns

open LastWriter

variable {β κ ν : Type*} [LinearOrder κ] (start stop : β → κ) (value : β → ν)

/-- The keys from `start` up to `stop`. -/
def within (run : β) (key : κ) : Bool := decide (start run ≤ key ∧ key < stop run)

/-- The second run comes after the first one and does not continue it. -/
def Separated (left right : β) : Prop :=
  stop left < start right ∨ stop left = start right ∧ value left ≠ value right

/-- Runs that are not empty, in order, and not to be joined. -/
structure Maximal (runs : List β) : Prop where
  proper : ∀ run ∈ runs, start run < stop run
  separated : runs.Pairwise (Separated start stop value)

variable {start stop value} {runs others : List β} {run other : β} {key : κ}

theorem within_iff : within start stop run key = true ↔ start run ≤ key ∧ key < stop run := by
  simp [within]

theorem Separated.le (separated : Separated start stop value run other) :
    stop run ≤ start other := by
  rcases separated with apart | ⟨touch, -⟩
  · exact apart.le
  · exact touch.le

namespace Maximal

theorem tail (maximal : Maximal start stop value (run :: runs)) :
    Maximal start stop value runs where
  proper other member := maximal.proper other (List.mem_cons_of_mem _ member)
  separated := maximal.separated.of_cons

theorem disjoint (maximal : Maximal start stop value runs) :
    runs.Pairwise (Apart (within start stop)) := by
  refine maximal.separated.imp fun separated key both => ?_
  have left := within_iff.mp both.1
  have right := within_iff.mp both.2
  exact absurd (left.2.trans_le separated.le) (not_lt.mpr right.1)

/-- Where a run starts, the list has the value of the run. -/
theorem lastWriter_start (maximal : Maximal start stop value runs) (member : run ∈ runs) :
    lastWriter (within start stop) value runs (start run) = some (value run) :=
  lastWriter_eq_some_of_mem maximal.disjoint member
    (within_iff.mpr ⟨le_rfl, maximal.proper run member⟩)

/-- A key of the first run lies in no later one. -/
theorem lastWriter_tail (maximal : Maximal start stop value (run :: runs))
    (covered : within start stop run key = true) :
    lastWriter (within start stop) value runs key = none := by
  rw [lastWriter_eq_none_iff]
  intro other member
  have apart := (List.pairwise_cons.mp maximal.disjoint).1 other member key
  exact Bool.eq_false_iff.mpr fun both => apart ⟨covered, both⟩

/-- No run of the list starts before the first one. -/
theorem start_le (maximal : Maximal start stop value (run :: runs)) (member : other ∈ run :: runs) :
    start run ≤ start other := by
  rcases List.mem_cons.mp member with rfl | later
  · exact le_rfl
  · have separated := (List.pairwise_cons.mp maximal.separated).1 other later
    exact (maximal.proper run List.mem_cons_self).le.trans separated.le

/-- Of two runs of the list, one comes first. -/
theorem trichotomy (maximal : Maximal start stop value runs) (left : run ∈ runs)
    (right : other ∈ runs) :
    run = other ∨ Separated start stop value run other ∨ Separated start stop value other run := by
  induction runs with
  | nil => simp at left
  | cons first rest induction =>
      have separated := (List.pairwise_cons.mp maximal.separated).1
      rcases List.mem_cons.mp left with rfl | leftLater
      · rcases List.mem_cons.mp right with rfl | rightLater
        · exact .inl rfl
        · exact .inr (.inl (separated other rightLater))
      · rcases List.mem_cons.mp right with rfl | rightLater
        · exact .inr (.inr (separated run leftLater))
        · exact induction maximal.tail leftLater rightLater

/-- A run ends where its value ends. -/
theorem lastWriter_stop (maximal : Maximal start stop value runs) (member : run ∈ runs) :
    lastWriter (within start stop) value runs (stop run) ≠ some (value run) := by
  intro written
  obtain ⟨next, nextMember, covered, same⟩ := exists_of_lastWriter_eq_some written
  obtain ⟨begins, ends⟩ := within_iff.mp covered
  have proper := maximal.proper run member
  rcases maximal.trichotomy member nextMember with rfl | (apart | ⟨-, differ⟩) | before
  · exact absurd ends (lt_irrefl _)
  · exact absurd apart (not_lt.mpr begins)
  · exact differ same.symm
  · exact absurd (ends.trans_le before.le) (not_lt.mpr proper.le)

/-- Keys without a gap that have one value lie in one run. -/
theorem exists_run (maximal : Maximal start stop value runs) {low high : κ} {shared : ν}
    (order : low < high) (constant : ∀ key, low ≤ key → key < high →
      lastWriter (within start stop) value runs key = some shared) :
    ∃ run ∈ runs, start run ≤ low ∧ high ≤ stop run ∧ value run = shared := by
  obtain ⟨run, member, covered, same⟩ :=
    exists_of_lastWriter_eq_some (constant low le_rfl order)
  obtain ⟨begins, ends⟩ := within_iff.mp covered
  refine ⟨run, member, begins, ?_, same⟩
  by_contra short
  rw [not_le] at short
  have written := constant (stop run) ends.le short
  rw [← same] at written
  exact maximal.lastWriter_stop member written

section First

variable (left : Maximal start stop value (run :: runs))
  (right : Maximal start stop value (other :: others))
  (same : ∀ key, lastWriter (within start stop) value (run :: runs) key =
    lastWriter (within start stop) value (other :: others) key)

include left right same

private theorem first_start_le : start other ≤ start run := by
  have written := left.lastWriter_start List.mem_cons_self
  rw [same] at written
  obtain ⟨found, member, covered, -⟩ := exists_of_lastWriter_eq_some written
  exact (right.start_le member).trans (within_iff.mp covered).1

private theorem first_start : start run = start other :=
  le_antisymm (first_start_le right left fun key => (same key).symm)
    (first_start_le left right same)

private theorem first_value : value run = value other := by
  have written := left.lastWriter_start List.mem_cons_self
  rw [same, first_start left right same, right.lastWriter_start List.mem_cons_self] at written
  exact (Option.some.inj written).symm

private theorem first_stop_le : stop other ≤ stop run := by
  by_contra short
  rw [not_le] at short
  have covered : within start stop other (stop run) = true := by
    refine within_iff.mpr ⟨?_, short⟩
    rw [← first_start left right same]
    exact (left.proper run List.mem_cons_self).le
  have written : lastWriter (within start stop) value (other :: others) (stop run) =
      some (value other) := lastWriter_eq_some_of_mem right.disjoint List.mem_cons_self covered
  rw [← same, ← first_value left right same] at written
  exact left.lastWriter_stop List.mem_cons_self written

private theorem first_stop : stop run = stop other :=
  le_antisymm (first_stop_le right left fun key => (same key).symm) (first_stop_le left right same)

end First

/-- Two lists of maximal runs of one map are equal. -/
theorem unique (injective : ∀ left right : β, start left = start right → stop left = stop right →
      value left = value right → left = right) (left : Maximal start stop value runs)
    (right : Maximal start stop value others)
    (same : ∀ key, lastWriter (within start stop) value runs key =
      lastWriter (within start stop) value others key) : runs = others := by
  induction runs generalizing others with
  | nil =>
      cases others with
      | nil => rfl
      | cons other others =>
          have written := right.lastWriter_start List.mem_cons_self
          rw [← same] at written
          cases written
  | cons run runs induction =>
      cases others with
      | nil =>
          have written := left.lastWriter_start List.mem_cons_self
          rw [same] at written
          cases written
      | cons other others =>
          obtain rfl : run = other := injective run other (first_start left right same)
            (first_stop left right same) (first_value left right same)
          refine congrArg _ (induction left.tail right.tail fun key => ?_)
          by_cases covered : within start stop run key = true
          · rw [left.lastWriter_tail covered, right.lastWriter_tail covered]
          · simpa [lastWriter, covered] using same key

end Maximal

/-- Runs in order are maximal as soon as neighbours are not to be joined. -/
theorem maximal_of_isChain (proper : ∀ run ∈ runs, start run < stop run)
    (ordered : runs.Pairwise fun left right => stop left ≤ start right)
    (chain : runs.IsChain fun left right =>
      ¬ (stop left = start right ∧ value left = value right)) :
    Maximal start stop value runs := by
  refine ⟨proper, ?_⟩
  induction runs with
  | nil => exact List.Pairwise.nil
  | cons run rest induction =>
      obtain ⟨before, orderedRest⟩ := List.pairwise_cons.mp ordered
      refine List.pairwise_cons.mpr ⟨fun other member => ?_, ?_⟩
      · cases rest with
        | nil => simp at member
        | cons next rest =>
            obtain ⟨apart, -⟩ := List.isChain_cons_cons.mp chain
            have order := before next List.mem_cons_self
            rcases List.mem_cons.mp member with rfl | later
            · rcases order.lt_or_eq with gap | touch
              · exact .inl gap
              · exact .inr ⟨touch, fun equal => apart ⟨touch, equal⟩⟩
            · have nextProper := proper next (by simp)
              have beyond := (List.pairwise_cons.mp orderedRest).1 other later
              exact .inl (order.trans_lt (nextProper.trans_le beyond))
      · exact induction (fun other member => proper other (List.mem_cons_of_mem _ member))
          orderedRest chain.of_cons

end MaximalRuns
