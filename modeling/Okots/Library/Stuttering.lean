import Mathlib.Data.List.Basic
import Mathlib.Logic.Function.Basic

/-!
# Stuttering simulation

Two systems are driven by schedules, lists of the processes that take the next step.  A step of the
concrete system is matched by a step of the same process in the abstract one, or by none.  Each step
also costs the process one unit of its budget, so that a process whose budget is spent has come as
far as the relation then says.
-/

namespace Stuttering

variable {ι σ τ : Type*} [DecidableEq ι]

/-- The relation is kept by every step, for an abstract state that stays or advances, and a budget
that shrinks. -/
def Keeps (next : σ → ι → σ) (abstractNext : τ → ι → τ) (related : σ → τ → (ι → Nat) → Prop) :
    Prop :=
  ∀ state abstract budget process, related state abstract budget →
    ∃ after, (after = abstract ∨ after = abstractNext abstract process) ∧
      related (next state process) after (Function.update budget process (budget process - 1))

/-- Every schedule has an abstract one that ends in a related state, and has spent the budgets. -/
theorem Keeps.foldl {next : σ → ι → σ} {abstractNext : τ → ι → τ}
    {related : σ → τ → (ι → Nat) → Prop} (keeps : Keeps next abstractNext related)
    (schedule : List ι) :
    ∀ state abstract budget, related state abstract budget →
      ∃ matching : List ι, related (schedule.foldl next state)
        (matching.foldl abstractNext abstract) fun process =>
          budget process - schedule.count process := by
  induction schedule with
  | nil => exact fun state abstract budget holds => ⟨[], holds⟩
  | cons process rest induction =>
      intro state abstract budget holds
      obtain ⟨after, matched, kept⟩ := keeps state abstract budget process holds
      obtain ⟨matching, run⟩ := induction _ _ _ kept
      have spent : (fun other => Function.update budget process (budget process - 1) other -
          rest.count other) = fun other => budget other - (process :: rest).count other := by
        funext other
        by_cases same : process = other
        · subst same
          rw [Function.update_self, List.count_cons_self]
          omega
        · rw [Function.update_of_ne (Ne.symm same), List.count_cons_of_ne same]
      rw [spent] at run
      rcases matched with rfl | rfl
      · exact ⟨matching, run⟩
      · exact ⟨process :: matching, run⟩

end Stuttering
