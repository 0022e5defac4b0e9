import Mathlib.Data.Fintype.Pigeonhole
import Mathlib.Dynamics.PeriodicPts.Defs

/-!
# Following links

Links are followed from item to item until a final item is met.  Among finitely many items the
final one is met exactly when no item before it comes up twice, and then no later than after as
many links as there are items.
-/

namespace LinkChase

variable {α : Type*}

/-- No item on the way from `start` comes up again, except the final one. -/
def NoReturn (next : α → α) (final start : α) : Prop :=
  ∀ early late, early < late → next^[early] start = next^[late] start → next^[early] start = final

variable {next : α → α} {final start : α}

/-- The final item is not left. -/
theorem iterate_of_le (stays : next final = final) {count later : Nat}
    (ended : next^[count] start = final) (order : count ≤ later) :
    next^[later] start = final := by
  obtain ⟨more, rfl⟩ := Nat.exists_eq_add_of_le' order
  rw [Function.iterate_add_apply, ended]
  exact Function.iterate_fixed stays more

/-- An item that comes up twice comes up for ever. -/
theorem noReturn_of_ends (stays : next final = final) {count : Nat}
    (ended : next^[count] start = final) : NoReturn next final start := by
  intro early late order same
  have periodic : Function.IsPeriodicPt next (late - early) (next^[early] start) := by
    rw [Function.IsPeriodicPt, Function.IsFixedPt, ← Function.iterate_add_apply,
      Nat.sub_add_cancel order.le, same]
  have again := periodic.const_mul count
  rw [Function.IsPeriodicPt, Function.IsFixedPt, ← Function.iterate_add_apply] at again
  rw [← again]
  have far : count ≤ count * (late - early) := Nat.le_mul_of_pos_right count (by omega)
  exact iterate_of_le stays ended (far.trans (Nat.le_add_right _ _))

/-- Without a return the final item is met, as there are no other items left. -/
theorem ends_of_noReturn [Fintype α] (noReturn : NoReturn next final start) :
    ∃ count ≤ Fintype.card α, next^[count] start = final := by
  obtain ⟨left, right, distinct, same⟩ := Fintype.exists_ne_map_eq_of_card_lt
    (fun count : Fin (Fintype.card α + 1) => next^[count] start) (by simp)
  rcases Nat.lt_or_gt_of_ne (Fin.val_ne_of_ne distinct) with order | order
  · exact ⟨left, Nat.lt_succ_iff.mp left.isLt, noReturn _ _ order same⟩
  · exact ⟨right, Nat.lt_succ_iff.mp right.isLt, noReturn _ _ order same.symm⟩

/-- The items before the final one are different. -/
theorem nodup_of_noReturn (noReturn : NoReturn next final start) {count : Nat}
    (running : ∀ early < count, next^[early] start ≠ final) :
    ((List.range count).map fun position => next^[position] start).Nodup := by
  refine (List.nodup_map_iff_inj_on List.nodup_range).mpr ?_
  intro left leftIn right rightIn same
  rw [List.mem_range] at leftIn rightIn
  rcases Nat.lt_trichotomy left right with order | equal | order
  · exact absurd (noReturn left right order same) (running left leftIn)
  · exact equal
  · exact absurd (noReturn right left order same.symm) (running right rightIn)

end LinkChase
