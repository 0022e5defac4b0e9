import Mathlib.Algebra.BigOperators.Group.Finset.Basic
import Mathlib.Algebra.BigOperators.Group.Finset.Piecewise
import Mathlib.Data.Fintype.Card

/-!
# Counting parties

How many members of a finite family are at places that satisfy a test.  One member moving changes
the count by its own contribution only.
-/

namespace Tally

variable {ι α : Type*} [Fintype ι]

/-- The number of members whose place passes `test`. -/
def tally (test : α → Bool) (places : ι → α) : Nat :=
  (Finset.univ.filter fun member => test (places member) = true).card

variable {test other : α → Bool} {places : ι → α}

theorem tally_mono (imply : ∀ member, test (places member) = true → other (places member) = true) :
    tally test places ≤ tally other places := by
  refine Finset.card_le_card fun member counted => ?_
  rw [Finset.mem_filter] at counted ⊢
  exact ⟨counted.1, imply member counted.2⟩

theorem tally_eq_zero_iff : tally test places = 0 ↔ ∀ member, test (places member) = false := by
  rw [tally, Finset.card_eq_zero, Finset.filter_eq_empty_iff]
  simp

theorem not_test_of_tally_eq_zero (zero : tally test places = 0) (member : ι) :
    test (places member) = false :=
  tally_eq_zero_iff.mp zero member

variable [DecidableEq ι]

theorem tally_eq_erase (test : α → Bool) (places : ι → α) (member : ι) :
    tally test places =
      (test (places member)).toNat +
        ∑ party ∈ Finset.univ.erase member, (test (places party)).toNat := by
  rw [tally, Finset.card_filter, Finset.add_sum_erase _ (fun party => (test (places party)).toNat)
    (Finset.mem_univ member)]
  refine Finset.sum_congr rfl fun party _ => ?_
  cases test (places party) <;> rfl

/-- When a member moves, the others are counted as before. -/
theorem tally_update (test : α → Bool) (places : ι → α) (member : ι) (place : α) :
    tally test (Function.update places member place) + (test (places member)).toNat =
      tally test places + (test place).toNat := by
  have others : ∑ party ∈ Finset.univ.erase member,
      (test (Function.update places member place party)).toNat =
        ∑ party ∈ Finset.univ.erase member, (test (places party)).toNat := by
    refine Finset.sum_congr rfl fun party other => ?_
    rw [Function.update_of_ne (Finset.ne_of_mem_erase other)]
  rw [tally_eq_erase test _ member, tally_eq_erase test places member, others,
    Function.update_self]
  omega

end Tally
