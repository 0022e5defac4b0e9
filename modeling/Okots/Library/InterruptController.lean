import Mathlib.Data.Finset.Lattice.Fold
import Mathlib.Order.Lattice.Nat

/-!
# Interrupt controllers with priorities

An interrupt controller keeps the vectors that are pending and those in service.  A vector enters
service if its priority class is above the class of every vector in service, and an end of interrupt
takes the highest vector out of service.
-/

namespace InterruptController

/-- The vectors that have been accepted but not delivered, and those delivered but not
acknowledged. -/
structure Controller where
  pending : Finset Nat
  inService : Finset Nat
  deriving DecidableEq

/-- Sixteen vectors share a priority class. -/
def priorityClass (vector : Nat) : Nat := vector / 16

namespace Controller

/-- Nothing is pending or in service. -/
def reset : Controller := ⟨∅, ∅⟩

/-- A vector arrives. -/
def accept (controller : Controller) (vector : Nat) : Controller :=
  { controller with pending := insert vector controller.pending }

/-- The vector can enter service. -/
def Deliverable (controller : Controller) (vector : Nat) : Prop :=
  vector ∈ controller.pending ∧
    ∀ earlier ∈ controller.inService, priorityClass earlier < priorityClass vector

instance (controller : Controller) (vector : Nat) : Decidable (controller.Deliverable vector) :=
  inferInstanceAs (Decidable (_ ∧ _))

/-- The vector enters service. -/
def deliver (controller : Controller) (vector : Nat) : Controller :=
  ⟨controller.pending.erase vector, insert vector controller.inService⟩

/-- The highest vector leaves service. -/
def endOfInterrupt (controller : Controller) : Controller :=
  { controller with
    inService := controller.inService.erase (controller.inService.sup id) }

variable {controller : Controller} {vector : Nat}

theorem Deliverable.lt (deliverable : controller.Deliverable vector) {earlier : Nat}
    (member : earlier ∈ controller.inService) : earlier < vector := by
  by_contra above
  have lower := deliverable.2 earlier member
  have upper : priorityClass vector ≤ priorityClass earlier :=
    Nat.div_le_div_right (Nat.not_lt.mp above)
  omega

/-- A vector is not delivered again before it has been acknowledged. -/
theorem not_deliverable_of_mem (member : vector ∈ controller.inService) :
    ¬ controller.Deliverable vector :=
  fun deliverable => Nat.lt_irrefl _ (deliverable.lt member)

theorem deliverable_of_idle (idle : controller.inService = ∅)
    (waiting : vector ∈ controller.pending) : controller.Deliverable vector :=
  ⟨waiting, by simp [idle]⟩

/-- An end of interrupt acknowledges the vector that entered service last. -/
theorem inService_endOfInterrupt {base : Finset Nat} (below : ∀ earlier ∈ base, earlier < vector)
    (top : controller.inService = insert vector base) :
    controller.endOfInterrupt.inService = base := by
  have highest : controller.inService.sup id = vector := by
    rw [top, Finset.sup_insert, id, sup_eq_left]
    exact Finset.sup_le fun earlier member => Nat.le_of_lt (below earlier member)
  have fresh : vector ∉ base := fun member => Nat.lt_irrefl _ (below vector member)
  rw [endOfInterrupt, highest, top, Finset.erase_insert fresh]

end Controller

end InterruptController
