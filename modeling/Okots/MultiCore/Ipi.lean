import Okots.Library.InterruptController
import Okots.Library.Reachable

/-!
# Interrupts between cores

`util_update_paging` broadcasts vector 33 to the other cores, and the executors send vector 65.  The
handler of vector 65 acknowledges its interrupt; the handler of vector 33 flushes the translations
and returns without an end of interrupt.  So vector 33 stays in service on every core that has
handled it once, and no later broadcast is delivered there.
-/

namespace Okots

open InterruptController

/-- The vectors that cores send to each other. -/
inductive IpiVector where
  /-- Handled by `update_paging_handle`. -/
  | paging
  /-- Handled by `Executor::dummy_interrupt`. -/
  | executor
  deriving DecidableEq

/-- Index in the interrupt descriptor table. -/
def IpiVector.number : IpiVector → Nat
  | paging => 33
  | executor => 65

/-- The effects of handlers. -/
inductive HandlerStep where
  /-- `flush_all` -/
  | flush
  /-- `send_eoi` -/
  | eoi
  deriving DecidableEq

/-- `update_paging_handle`. -/
def updatePagingHandle : List HandlerStep := [.flush]

/-- `Executor::dummy_interrupt`. -/
def dummyInterrupt : List HandlerStep := [.eoi]

/-- The handler of a vector. -/
def IpiVector.handler : IpiVector → List HandlerStep
  | paging => updatePagingHandle
  | executor => dummyInterrupt

/-! ## One core -/

/-- A core and its local APIC. -/
structure IpiCore where
  controller : Controller
  /-- The interrupt flag. -/
  enabled : Bool
  /-- What the running handler has still to do. -/
  running : Option (List HandlerStep)
  /-- Vector 33 has arrived and the core has not flushed since. -/
  owed : Bool
  /-- How often the core has flushed. -/
  flushes : Nat
  deriving DecidableEq

namespace IpiCore

/-- A core that has received nothing. -/
def start : IpiCore := ⟨.reset, true, none, false, 0⟩

/-- A vector arrives. -/
def receive (core : IpiCore) (vector : IpiVector) : IpiCore :=
  { core with
    controller := core.controller.accept vector.number
    owed := core.owed || vector = .paging }

/-- The core accepts a vector; its gate is an interrupt gate, which clears the interrupt flag. -/
def deliver (core : IpiCore) (vector : IpiVector) : IpiCore :=
  if core.enabled = true ∧ core.controller.Deliverable vector.number then
    { core with
      controller := core.controller.deliver vector.number
      enabled := false
      running := some vector.handler }
  else
    core

/-- The next step of the running handler; a handler without further steps executes `iretq`. -/
def run (core : IpiCore) : IpiCore :=
  match core.running with
  | none => core
  | some [] => { core with running := none, enabled := true }
  | some (.flush :: rest) =>
      { core with running := some rest, owed := false, flushes := core.flushes + 1 }
  | some (.eoi :: rest) =>
      { core with running := some rest, controller := core.controller.endOfInterrupt }

/-- Code outside handlers sets the interrupt flag. -/
def setEnabled (core : IpiCore) (enabled : Bool) : IpiCore :=
  if core.running = none then { core with enabled } else core

/-- No interrupt is being handled or about to be delivered. -/
def Quiet (core : IpiCore) : Prop :=
  core.running = none ∧
    (core.enabled = true → ∀ vector : IpiVector, ¬ core.controller.Deliverable vector.number)

/-- Nothing is in service, and each vector 33 has been delivered and has flushed the core if it
accepts interrupts. -/
def Settled (core : IpiCore) : Prop :=
  core.controller.inService = ∅ ∧
    (core.enabled = true → 33 ∉ core.controller.pending ∧ core.owed = false)

/-- The vectors in service outside handlers. -/
def standing (flushes : Nat) : Finset Nat := if flushes = 0 then ∅ else {33}

/-- The vectors in service at each point of a handler. -/
def Serving (flushes : Nat) (inService : Finset Nat) : Option (List HandlerStep) → Prop
  | none | some [] => inService = standing flushes
  | some [.flush] => flushes = 0 ∧ inService = {33}
  | some [.eoi] => inService = insert 65 (standing flushes)
  | _ => False

/-- What holds of a core at any time. -/
structure Sound (core : IpiCore) : Prop where
  once : core.flushes ≤ 1
  masked : core.running ≠ none → core.enabled = false
  serving : Serving core.flushes core.controller.inService core.running
  owed : core.owed = true → 33 ∈ core.controller.pending ∨ core.running = some [.flush]

theorem below_executor {flushes vector : Nat} (member : vector ∈ standing flushes) :
    vector < 65 := by
  unfold standing at member
  split at member
  · simp at member
  · have := Finset.mem_singleton.mp member
    omega

theorem sound_start : start.Sound where
  once := Nat.zero_le 1
  masked active := absurd rfl active
  serving := rfl
  owed := nofun

variable {core : IpiCore}

theorem Sound.receive (sound : core.Sound) (vector : IpiVector) : (core.receive vector).Sound where
  once := sound.once
  masked := sound.masked
  serving := sound.serving
  owed arrived := by
    cases vector with
    | paging => exact .inl (Finset.mem_insert_self _ _)
    | executor =>
        have before : core.owed = true := by simpa [IpiCore.receive] using arrived
        exact (sound.owed before).imp_left Finset.mem_insert_of_mem

/-- A core that accepts interrupts runs no handler. -/
theorem Sound.running_eq_none (sound : core.Sound) (enabled : core.enabled = true) :
    core.running = none := by
  by_contra active
  cases enabled.symm.trans (sound.masked active)

theorem Sound.deliver (sound : core.Sound) (vector : IpiVector) : (core.deliver vector).Sound := by
  rw [IpiCore.deliver]
  split
  · rename_i accepted
    obtain ⟨enabled, deliverable⟩ := accepted
    have idle := sound.running_eq_none enabled
    have serving : core.controller.inService = standing core.flushes := by
      have serving := sound.serving
      rwa [idle] at serving
    refine ⟨sound.once, fun _ => rfl, ?_, ?_⟩
    · cases vector with
      | paging =>
          -- vector 33 is in service if the core has flushed before
          have first : core.flushes = 0 := by
            by_contra flushed
            apply Controller.not_deliverable_of_mem _ deliverable
            rw [serving, standing, if_neg flushed]
            exact Finset.mem_singleton_self 33
          refine ⟨first, ?_⟩
          rw [Controller.deliver, serving, standing, if_pos first]
          rfl
      | executor =>
          exact congrArg (insert 65) serving
    · intro owed
      cases vector with
      | paging => exact .inr rfl
      | executor =>
          obtain waiting | flushing := sound.owed owed
          · exact .inl (Finset.mem_erase.mpr ⟨by decide, waiting⟩)
          · cases idle.symm.trans flushing
  · exact sound

theorem Sound.run (sound : core.Sound) : core.run.Sound := by
  obtain ⟨controller, enabled, running, owed, flushes⟩ := core
  obtain ⟨once, masked, serving, pending⟩ := sound
  match running with
  | none => exact ⟨once, masked, serving, pending⟩
  | some [] =>
      refine ⟨once, fun active => absurd rfl active, serving, ?_⟩
      exact fun arrived => (pending arrived).imp_right nofun
  | some [.flush] =>
      obtain ⟨first, service⟩ := serving
      refine ⟨Nat.le_of_eq (congrArg (· + 1) first), fun _ => masked nofun, ?_, nofun⟩
      change controller.inService = standing (flushes + 1)
      rw [standing, if_neg (Nat.succ_ne_zero flushes)]
      exact service
  | some [.eoi] =>
      refine ⟨once, fun _ => masked nofun, ?_, ?_⟩
      · exact Controller.inService_endOfInterrupt (fun _ => below_executor) serving
      · exact fun arrived => (pending arrived).imp_right nofun

theorem Sound.setEnabled (sound : core.Sound) (enabled : Bool) :
    (core.setEnabled enabled).Sound := by
  rw [IpiCore.setEnabled]
  split
  · rename_i idle
    exact ⟨sound.once, fun active => absurd idle active, sound.serving, sound.owed⟩
  · exact sound

theorem Sound.settled_iff (sound : core.Sound) (quiet : core.Quiet) :
    core.Settled ↔ core.flushes = 0 := by
  obtain ⟨idle, still⟩ := quiet
  have serving : core.controller.inService = standing core.flushes := by
    have serving := sound.serving
    rwa [idle] at serving
  constructor
  · rintro ⟨empty, -⟩
    by_contra flushed
    rw [serving, standing, if_neg flushed] at empty
    exact Finset.singleton_ne_empty 33 empty
  · intro first
    have empty : core.controller.inService = ∅ := by rw [serving, standing, if_pos first]
    refine ⟨empty, fun enabled => ?_⟩
    have absent : 33 ∉ core.controller.pending := fun waiting =>
      still enabled .paging (Controller.deliverable_of_idle empty waiting)
    refine ⟨absent, Bool.eq_false_iff.mpr fun owed => ?_⟩
    obtain waiting | flushing := sound.owed owed
    · exact absent waiting
    · cases idle.symm.trans flushing

end IpiCore

/-! ## All cores -/

/-- What happens on the cores. -/
inductive IpiEvent (ι : Type*) where
  /-- `broadcast_fixed_ipi(33)` in `util_update_paging`. -/
  | broadcast (sender : ι)
  /-- `send_fixed_ipi` with vector 65. -/
  | send (target : ι)
  | deliver (core : ι) (vector : IpiVector)
  | run (core : ι)
  | setEnabled (core : ι) (enabled : Bool)

variable {ι : Type*} [DecidableEq ι]

/-- The cores after an event. -/
def ipiStep (cores : ι → IpiCore) : IpiEvent ι → ι → IpiCore
  | .broadcast sender => fun core =>
      if core = sender then cores core else (cores core).receive .paging
  | .send target => Function.update cores target ((cores target).receive .executor)
  | .deliver core vector => Function.update cores core ((cores core).deliver vector)
  | .run core => Function.update cores core (cores core).run
  | .setEnabled core enabled => Function.update cores core ((cores core).setEnabled enabled)

theorem sound_update {cores : ι → IpiCore} {core : ι} {after : IpiCore}
    (sound : ∀ core, (cores core).Sound) (next : after.Sound) (other : ι) :
    (Function.update cores core after other).Sound := by
  by_cases same : other = core
  · rw [same, Function.update_self]
    exact next
  · rw [Function.update_of_ne same]
    exact sound other

theorem sound_ipiStep {cores : ι → IpiCore} (sound : ∀ core, (cores core).Sound)
    (event : IpiEvent ι) (core : ι) : (ipiStep cores event core).Sound := by
  cases event with
  | broadcast sender =>
      change (if core = sender then cores core else (cores core).receive .paging).Sound
      split
      · exact sound core
      · exact (sound core).receive .paging
  | send target => exact sound_update sound ((sound target).receive .executor) core
  | deliver target vector => exact sound_update sound ((sound target).deliver vector) core
  | run target => exact sound_update sound (sound target).run core
  | setEnabled target enabled => exact sound_update sound ((sound target).setEnabled enabled) core

theorem sound_ipiRun {cores : ι → IpiCore} (sound : ∀ core, (cores core).Sound)
    (events : List (IpiEvent ι)) (core : ι) : (events.foldl ipiStep cores core).Sound := by
  induction events generalizing cores with
  | nil => exact sound core
  | cons event rest induction => exact induction (sound_ipiStep sound event)

/-- A core flushes at most once, however many broadcasts there are.  When it is quiet, it is settled
exactly if it has not flushed at all. -/
theorem ipiRun_settled_iff (events : List (IpiEvent ι)) (core : ι) :
    let state := events.foldl ipiStep (fun _ => IpiCore.start) core
    state.flushes ≤ 1 ∧ (state.Quiet → (state.Settled ↔ state.flushes = 0)) := by
  intro state
  have sound : state.Sound := sound_ipiRun (fun _ => IpiCore.sound_start) events core
  exact ⟨sound.once, sound.settled_iff⟩

/-- The second broadcast stays pending on a core that has handled the first one. -/
theorem ipiRun_second_broadcast_pending :
    let events : List (IpiEvent Bool) :=
      [.broadcast false, .deliver true .paging, .run true, .run true, .broadcast false]
    let state := events.foldl ipiStep (fun _ => IpiCore.start) true
    state.Quiet ∧ state.enabled = true ∧ state.owed = true ∧ 33 ∈ state.controller.pending ∧
      state.controller.inService = {33} ∧ ¬ state.Settled := by
  refine ⟨⟨by decide, fun _ vector => ?_⟩, by decide, by decide, by decide, by decide, ?_⟩
  · cases vector <;> decide
  · intro settled
    have empty := settled.1
    revert empty
    decide

end Okots
