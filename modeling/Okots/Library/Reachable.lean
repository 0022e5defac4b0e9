import Mathlib.Algebra.Ring.Nat
import Mathlib.Order.OrderIsoNat

/-!
# Reachable states

A transition system is given by its initial states and its steps.  Safety properties are proved by
an invariant: it holds initially and every step keeps it.  A deterministic system is driven by a
list of operations, and `Along` says that a property holds of each operation in the state it
meets.
-/

namespace TransitionSystem

variable {σ : Type*} {initial : σ → Prop} {step : σ → σ → Prop}

/-- The states reached from an initial state by finitely many steps. -/
inductive Reachable (initial : σ → Prop) (step : σ → σ → Prop) : σ → Prop
  | start {state : σ} (holds : initial state) : Reachable initial step state
  | next {state after : σ} (reached : Reachable initial step state) (taken : step state after) :
      Reachable initial step after

/-- Invariant rule; the step may use that its source is reachable. -/
theorem Reachable.invariant {property : σ → Prop} {state : σ}
    (reached : Reachable initial step state) (base : ∀ state, initial state → property state)
    (preserve : ∀ state after, Reachable initial step state → property state → step state after →
      property after) : property state := by
  induction reached with
  | start holds => exact base _ holds
  | next reached taken induction => exact preserve _ _ reached induction taken

/-- A run ends when a measure drops in every step that does not end it. -/
theorem exists_finished (states : Nat → σ) (finished : σ → Prop) (measure : σ → Nat)
    (drops : ∀ count, ¬ finished (states count) → ¬ finished (states (count + 1)) →
      measure (states (count + 1)) < measure (states count)) :
    ∃ count, finished (states count) := by
  by_contra endless
  have running : ∀ count, ¬ finished (states count) := not_exists.mp endless
  have descent : StrictAnti (measure ∘ states) :=
    strictAnti_nat_of_succ_lt fun count => drops count (running count) (running (count + 1))
  exact not_strictAnti_of_wellFoundedLT _ descent

section Along

variable {ι : Type*} {advance : σ → ι → σ} {property other : σ → ι → Prop}

/-- Each operation of the list satisfies `property` in the state in which it is performed. -/
def Along (advance : σ → ι → σ) (property : σ → ι → Prop) : σ → List ι → Prop
  | _, [] => True
  | state, operation :: rest =>
      property state operation ∧ Along advance property (advance state operation) rest

instance decidableAlong [∀ state operation, Decidable (property state operation)] :
    ∀ (state : σ) (operations : List ι), Decidable (Along advance property state operations)
  | _, [] => .isTrue trivial
  | state, operation :: rest =>
      let _ := decidableAlong (advance state operation) rest
      inferInstanceAs (Decidable (_ ∧ _))

/-- Invariant rule for runs; each step may use that its operation is admitted. -/
theorem Along.invariant {holds : σ → Prop} {operations : List ι}
    (preserve : ∀ state operation, holds state → property state operation →
      holds (advance state operation)) :
    ∀ {state}, holds state → Along advance property state operations →
      holds (operations.foldl advance state) := by
  induction operations with
  | nil => exact fun base _ => base
  | cons operation rest induction =>
      intro state base run
      exact induction (preserve state operation base run.1) run.2

/-- A property of the operations alone holds along every run. -/
theorem Along.of_forall {operations : List ι}
    (each : ∀ operation ∈ operations, ∀ state, property state operation) (state : σ) :
    Along advance property state operations := by
  induction operations generalizing state with
  | nil => trivial
  | cons operation rest induction =>
      refine ⟨each operation List.mem_cons_self state, induction ?_ _⟩
      exact fun later member => each later (List.mem_cons_of_mem _ member)

/-- The property of one operation of a run. -/
theorem Along.meets {before after : List ι} {operation : ι} {state : σ}
    (run : Along advance property state (before ++ operation :: after)) :
    property (before.foldl advance state) operation := by
  induction before generalizing state with
  | nil => exact run.1
  | cons first rest induction => exact induction run.2

/-- Two properties that agree wherever the invariant holds agree along every run. -/
theorem along_congr (invariant : σ → Prop) {admitted : σ → ι → Prop}
    (preserve : ∀ state operation, invariant state → admitted state operation →
      invariant (advance state operation))
    (agree : ∀ state operation, invariant state → admitted state operation →
      (property state operation ↔ other state operation)) (operations : List ι) :
    ∀ state, invariant state → Along advance admitted state operations →
      (Along advance property state operations ↔ Along advance other state operations) := by
  induction operations with
  | nil => exact fun _ _ _ => Iff.rfl
  | cons operation rest induction =>
      intro state holds client
      exact and_congr (agree state operation holds client.1)
        (induction _ (preserve state operation holds client.1) client.2)

/-- The same where only the operations that satisfy `other` keep the invariant. -/
theorem along_congr_while (invariant : σ → Prop)
    (preserve : ∀ state operation, invariant state → other state operation →
      invariant (advance state operation))
    (agree : ∀ state operation, invariant state →
      (property state operation ↔ other state operation)) (operations : List ι) :
    ∀ state, invariant state →
      (Along advance property state operations ↔ Along advance other state operations) := by
  induction operations with
  | nil => exact fun _ _ => Iff.rfl
  | cons operation rest induction =>
      intro state holds
      have first := agree state operation holds
      constructor
      · intro run
        have admitted := first.mp run.1
        exact ⟨admitted, (induction _ (preserve state operation holds admitted)).mp run.2⟩
      · intro run
        exact ⟨first.mpr run.1, (induction _ (preserve state operation holds run.1)).mpr run.2⟩

/-- Progress rule: `within steps` holds of states that are at most `steps` counted operations away
from `goal`, so an operation that reaches the goal occurs in every run with enough of them. -/
theorem Along.exists_goal {within : Nat → σ → Prop} {goal : σ → ι → Prop} {count : ι → Nat}
    (nearer : ∀ steps state operation, within steps state → property state operation →
      goal state operation ∨ within (steps - count operation) (advance state operation))
    (positive : ∀ state, ¬ within 0 state) {operations : List ι} :
    ∀ {steps state}, within steps state → Along advance property state operations →
      steps ≤ (operations.map count).sum →
      ∃ before operation after, operations = before ++ operation :: after ∧
        goal (before.foldl advance state) operation := by
  induction operations with
  | nil =>
      intro steps state near _ enough
      obtain rfl : steps = 0 := Nat.le_zero.mp enough
      exact absurd near (positive state)
  | cons operation rest induction =>
      intro steps state near run enough
      rw [List.map_cons, List.sum_cons] at enough
      rcases nearer steps state operation near run.1 with reached | closer
      · exact ⟨[], operation, rest, rfl, reached⟩
      · obtain ⟨before, last, after, split, reached⟩ := induction closer run.2 (by omega)
        exact ⟨operation :: before, last, after, by rw [split, List.cons_append], reached⟩

end Along

end TransitionSystem
