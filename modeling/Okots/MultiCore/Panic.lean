import Okots.Library.InterruptController
import Okots.Library.Reachable

/-!
# Stopping the other cores in a panic

A core that panics turns its interrupts off, logs, broadcasts vector 32 and halts.  The handler of
vector 32 turns the interrupts of its core off and halts as well, so a panic is meant to stop all
cores.  Vectors 32 and 33 share a priority class, and the handler of vector 33 never acknowledges
its interrupt.  A core that has handled one change of the page tables therefore takes vector 32 no
more: it goes on after every panic of another core.
-/

namespace Okots

open InterruptController

/-- The vectors with handlers of the kernel, beyond the exceptions. -/
inductive KernelVector where
  /-- Handled by `panic_handler`. -/
  | panic
  /-- Handled by `update_paging_handle`. -/
  | paging
  /-- Handled by `Executor::dummy_interrupt`. -/
  | executor
  /-- Handled by `error_handler`. -/
  | apicError
  deriving DecidableEq

/-- Index in the interrupt descriptor table. -/
def KernelVector.number : KernelVector → Nat
  | panic => 32
  | paging => 33
  | executor => 65
  | apicError => 0xFE

/-- What handlers do. -/
inductive HandlerAction where
  /-- `flush_all` -/
  | flush
  /-- `send_eoi` -/
  | eoi
  /-- `disable`, and `hlt` in a loop that does not end -/
  | halt
  deriving DecidableEq

/-- The handler of a vector. -/
def KernelVector.handlerActions : KernelVector → List HandlerAction
  | panic => [.halt]
  | paging => [.flush]
  | executor | apicError => [.eoi]

/-! ## One core -/

/-- A core and its local APIC. -/
structure AlarmCore where
  controller : Controller
  /-- The interrupt flag. -/
  enabled : Bool
  /-- What the running handler has still to do. -/
  running : Option (List HandlerAction)
  /-- How often the core has flushed. -/
  flushes : Nat
  /-- The core is in the panic handler of the language. -/
  panicked : Bool
  /-- Vector 32 has arrived. -/
  alarmed : Bool
  deriving DecidableEq

namespace AlarmCore

/-- A core that has received nothing. -/
def start : AlarmCore := ⟨.reset, true, none, 0, false, false⟩

/-- The core halts in the handler of vector 32. -/
def Stopped (core : AlarmCore) : Prop := core.running = some [.halt]

/-- The core runs code outside handlers. -/
def Active (core : AlarmCore) : Prop := core.running = none ∧ core.panicked = false

instance (core : AlarmCore) : Decidable core.Stopped := inferInstanceAs (Decidable (_ = _))

instance (core : AlarmCore) : Decidable core.Active := inferInstanceAs (Decidable (_ ∧ _))

/-- A vector arrives. -/
def receive (core : AlarmCore) (vector : KernelVector) : AlarmCore :=
  { core with
    controller := core.controller.accept vector.number
    alarmed := core.alarmed || vector = .panic }

/-- The core accepts a vector; its gate is an interrupt gate, which clears the interrupt flag. -/
def deliver (core : AlarmCore) (vector : KernelVector) : AlarmCore :=
  if core.enabled = true ∧ core.controller.Deliverable vector.number then
    { core with
      controller := core.controller.deliver vector.number
      enabled := false
      running := some vector.handlerActions }
  else
    core

/-- The next step of the running handler; a handler without further steps executes `iretq`. -/
def run (core : AlarmCore) : AlarmCore :=
  if core.panicked then
    core
  else
    match core.running with
    | none | some (.halt :: _) => core
    | some [] => { core with running := none, enabled := true }
    | some (.flush :: rest) => { core with running := some rest, flushes := core.flushes + 1 }
    | some (.eoi :: rest) =>
        { core with running := some rest, controller := core.controller.endOfInterrupt }

/-- Code outside handlers sets the interrupt flag. -/
def setEnabled (core : AlarmCore) (enabled : Bool) : AlarmCore :=
  if core.Active then { core with enabled } else core

/-- The core panics, in a handler or outside. -/
def panic (core : AlarmCore) : AlarmCore :=
  if core.Stopped then core else { core with enabled := false, panicked := true }

/-- The vectors in service outside handlers. -/
def standing (flushes : Nat) : Finset Nat := if flushes = 0 then ∅ else {33}

/-- The vectors in service at each point of a handler. -/
def Serving (flushes : Nat) (inService : Finset Nat) : Option (List HandlerAction) → Prop
  | none | some [] => inService = standing flushes
  | some [.flush] => flushes = 0 ∧ inService = {33}
  | some [.eoi] => ∃ vector, 33 < vector ∧ inService = insert vector (standing flushes)
  | some [.halt] => flushes = 0 ∧ inService = {32}
  | _ => False

/-- What holds of a core at any time. -/
structure Sound (core : AlarmCore) : Prop where
  masked : ¬ core.Active → core.enabled = false
  serving : Serving core.flushes core.controller.inService core.running
  alarmed : core.alarmed = true → 32 ∈ core.controller.pending ∨ core.Stopped

theorem sound_start : start.Sound where
  masked idle := absurd ⟨rfl, rfl⟩ idle
  serving := rfl
  alarmed := nofun

variable {core : AlarmCore}

/-- Nothing of the priority class of vector 33 is delivered to a core that has flushed. -/
theorem eq_zero_of_deliverable {flushes vector : Nat} {controller : Controller}
    (serving : controller.inService = standing flushes) (low : vector / 16 ≤ 2)
    (deliverable : controller.Deliverable vector) : flushes = 0 := by
  by_contra flushed
  have member : 33 ∈ controller.inService := by
    rw [serving, standing, if_neg flushed]
    exact Finset.mem_singleton_self 33
  have above := deliverable.2 33 member
  unfold priorityClass at above
  omega

theorem below_standing {flushes vector earlier : Nat} (above : 33 < vector)
    (member : earlier ∈ standing flushes) : earlier < vector := by
  unfold standing at member
  split at member
  · simp at member
  · rwa [Finset.mem_singleton.mp member]

theorem Sound.receive (sound : core.Sound) (vector : KernelVector) :
    (core.receive vector).Sound where
  masked := sound.masked
  serving := sound.serving
  alarmed arrived := by
    by_cases alarm : vector = .panic
    · subst alarm
      exact .inl (Finset.mem_insert_self _ _)
    · have before : core.alarmed = true := by simpa [AlarmCore.receive, alarm] using arrived
      exact (sound.alarmed before).imp_left Finset.mem_insert_of_mem

theorem Sound.deliver (sound : core.Sound) (vector : KernelVector) :
    (core.deliver vector).Sound := by
  rw [AlarmCore.deliver]
  split
  · rename_i accepted
    obtain ⟨enabled, deliverable⟩ := accepted
    have active : core.Active := by
      by_contra idle
      cases enabled.symm.trans (sound.masked idle)
    have serving : core.controller.inService = standing core.flushes := by
      have serving := sound.serving
      rwa [active.1] at serving
    refine ⟨fun _ => rfl, ?_, fun alarmed => ?_⟩
    · cases vector with
      | panic =>
          have first := eq_zero_of_deliverable serving (by decide) deliverable
          refine ⟨first, ?_⟩
          rw [Controller.deliver, serving, standing, if_pos first]
          rfl
      | paging =>
          have first := eq_zero_of_deliverable serving (by decide) deliverable
          refine ⟨first, ?_⟩
          rw [Controller.deliver, serving, standing, if_pos first]
          rfl
      | executor => exact ⟨65, by decide, congrArg (insert 65) serving⟩
      | apicError => exact ⟨0xFE, by decide, congrArg (insert 0xFE) serving⟩
    · rcases sound.alarmed alarmed with waiting | stopped
      · cases vector with
        | panic => exact .inr rfl
        | paging | executor | apicError =>
            exact .inl (Finset.mem_erase.mpr ⟨by decide, waiting⟩)
      · cases active.1.symm.trans stopped
  · exact sound

theorem Sound.run (sound : core.Sound) : core.run.Sound := by
  obtain ⟨controller, enabled, running, flushes, panicked, alarm⟩ := core
  obtain ⟨masked, serving, alarmed⟩ := sound
  cases panicked with
  | true => exact ⟨masked, serving, alarmed⟩
  | false =>
      match running with
      | none => exact ⟨masked, serving, alarmed⟩
      | some [] =>
          refine ⟨fun idle => absurd ⟨rfl, rfl⟩ idle, serving, ?_⟩
          exact fun arrived => (alarmed arrived).imp_right nofun
      | some [.flush] =>
          obtain ⟨first, service⟩ := serving
          refine ⟨fun _ => masked nofun, ?_, ?_⟩
          · change controller.inService = standing (flushes + 1)
            rw [standing, if_neg (Nat.succ_ne_zero flushes)]
            exact service
          · exact fun arrived => (alarmed arrived).imp_right nofun
      | some [.eoi] =>
          obtain ⟨vector, above, service⟩ := serving
          refine ⟨fun _ => masked nofun, ?_, ?_⟩
          · exact Controller.inService_endOfInterrupt (fun _ => below_standing above) service
          · exact fun arrived => (alarmed arrived).imp_right nofun
      | some [.halt] => exact ⟨masked, serving, alarmed⟩

theorem Sound.setEnabled (sound : core.Sound) (enabled : Bool) :
    (core.setEnabled enabled).Sound := by
  rw [AlarmCore.setEnabled]
  split
  · rename_i active
    exact ⟨fun idle => absurd active idle, sound.serving, sound.alarmed⟩
  · exact sound

theorem Sound.panic (sound : core.Sound) : core.panic.Sound := by
  rw [AlarmCore.panic]
  split
  · exact sound
  · exact ⟨fun _ => rfl, sound.serving, sound.alarmed⟩

/-- A core that halts in the handler of vector 32 has never flushed. -/
theorem Sound.flushes_eq_zero (sound : core.Sound) (stopped : core.Stopped) : core.flushes = 0 := by
  have serving := sound.serving
  rw [Stopped] at stopped
  rw [stopped] at serving
  exact serving.1

/-- No handler has anything left to do, and if interrupts are on, none is about to be delivered. -/
def Quiet (core : AlarmCore) : Prop :=
  (core.running = none ∨ core.Stopped) ∧
    (core.enabled = true → ∀ vector : KernelVector, ¬ core.controller.Deliverable vector.number)

/-- Vector 32 stops exactly the cores that have never flushed. -/
theorem Sound.stopped_iff (sound : core.Sound) (quiet : core.Quiet) (alarmed : core.alarmed = true)
    (accepts : core.enabled = true ∨ core.Stopped) : core.Stopped ↔ core.flushes = 0 := by
  refine ⟨sound.flushes_eq_zero, fun first => ?_⟩
  by_contra going
  have enabled := accepts.resolve_right going
  have serving := sound.serving
  rw [quiet.1.resolve_right going] at serving
  have waiting := (sound.alarmed alarmed).resolve_right going
  have empty : core.controller.inService = ∅ := by
    rw [serving, standing, if_pos first]
  exact quiet.2 enabled .panic (Controller.deliverable_of_idle empty waiting)

end AlarmCore

/-! ## All cores -/

/-- What happens on the cores. -/
inductive AlarmEvent (ι : Type*) where
  /-- `broadcast_fixed_ipi(33)` in `util_update_paging`. -/
  | update (sender : ι)
  /-- `send_fixed_ipi` with vector 65. -/
  | send (sender target : ι)
  /-- The local APIC of a core reports an error. -/
  | apicError (core : ι)
  /-- A core panics. -/
  | panic (core : ι)
  /-- `broadcast_fixed_ipi(32)` of a core that has panicked. -/
  | alarm (sender : ι)
  | deliver (core : ι) (vector : KernelVector)
  | run (core : ι)
  | setEnabled (core : ι) (enabled : Bool)

variable {ι : Type*} [DecidableEq ι]

/-- A vector arrives at all cores but the sender. -/
def broadcast (cores : ι → AlarmCore) (sender : ι) (vector : KernelVector) : ι → AlarmCore :=
  fun core => if core = sender then cores core else (cores core).receive vector

/-- The cores after an event. -/
def alarmStep (cores : ι → AlarmCore) : AlarmEvent ι → ι → AlarmCore
  | .update sender => if (cores sender).Active then broadcast cores sender .paging else cores
  | .send sender target =>
      if (cores sender).Active then
        Function.update cores target ((cores target).receive .executor)
      else
        cores
  | .apicError core => Function.update cores core ((cores core).receive .apicError)
  | .panic core => Function.update cores core (cores core).panic
  | .alarm sender => if (cores sender).panicked then broadcast cores sender .panic else cores
  | .deliver core vector => Function.update cores core ((cores core).deliver vector)
  | .run core => Function.update cores core (cores core).run
  | .setEnabled core enabled => Function.update cores core ((cores core).setEnabled enabled)

/-- What an event can do to one core. -/
inductive AlarmCore.Moves (core : AlarmCore) : AlarmCore → Prop
  | stay : Moves core core
  | receive (vector : KernelVector) : Moves core (core.receive vector)
  | deliver (vector : KernelVector) : Moves core (core.deliver vector)
  | run : Moves core core.run
  | setEnabled (enabled : Bool) : Moves core (core.setEnabled enabled)
  | panic : Moves core core.panic

theorem moves_update {cores : ι → AlarmCore} {target : ι} {after : AlarmCore}
    (moves : (cores target).Moves after) (core : ι) :
    (cores core).Moves (Function.update cores target after core) := by
  by_cases same : core = target
  · subst same
    rw [Function.update_self]
    exact moves
  · rw [Function.update_of_ne same]
    exact .stay

theorem moves_broadcast (cores : ι → AlarmCore) (sender : ι) (vector : KernelVector) (core : ι) :
    (cores core).Moves (broadcast cores sender vector core) := by
  unfold broadcast
  split
  · exact .stay
  · exact .receive vector

theorem moves_alarmStep (cores : ι → AlarmCore) (event : AlarmEvent ι) (core : ι) :
    (cores core).Moves (alarmStep cores event core) := by
  cases event with
  | update sender =>
      rw [alarmStep]
      split
      · exact moves_broadcast cores sender .paging core
      · exact .stay
  | send sender target =>
      rw [alarmStep]
      split
      · exact moves_update (.receive .executor) core
      · exact .stay
  | apicError target => exact moves_update (.receive .apicError) core
  | panic target => exact moves_update .panic core
  | alarm sender =>
      rw [alarmStep]
      split
      · exact moves_broadcast cores sender .panic core
      · exact .stay
  | deliver target vector => exact moves_update (.deliver vector) core
  | run target => exact moves_update .run core
  | setEnabled target enabled => exact moves_update (.setEnabled enabled) core

theorem AlarmCore.Sound.moves {core after : AlarmCore} (sound : core.Sound)
    (moves : core.Moves after) : after.Sound := by
  cases moves with
  | stay => exact sound
  | receive vector => exact sound.receive vector
  | deliver vector => exact sound.deliver vector
  | run => exact sound.run
  | setEnabled enabled => exact sound.setEnabled enabled
  | panic => exact sound.panic

theorem AlarmCore.Moves.flushes_le {core after : AlarmCore} (moves : core.Moves after) :
    core.flushes ≤ after.flushes := by
  cases moves with
  | stay | receive vector => exact Nat.le_refl _
  | deliver vector =>
      rw [AlarmCore.deliver]
      split <;> exact Nat.le_refl _
  | run =>
      rw [AlarmCore.run]
      split
      · exact Nat.le_refl _
      · split
        all_goals first | exact Nat.le_refl _ | exact Nat.le_succ _
  | setEnabled enabled =>
      rw [AlarmCore.setEnabled]
      split <;> exact Nat.le_refl _
  | panic =>
      rw [AlarmCore.panic]
      split <;> exact Nat.le_refl _

/-- All cores keep what holds of them at any time, and none forgets that it has flushed. -/
theorem sound_alarmRun {cores : ι → AlarmCore} (sound : ∀ core, (cores core).Sound)
    (events : List (AlarmEvent ι)) (core : ι) :
    (events.foldl alarmStep cores core).Sound ∧
      (cores core).flushes ≤ (events.foldl alarmStep cores core).flushes := by
  induction events generalizing cores with
  | nil => exact ⟨sound core, Nat.le_refl _⟩
  | cons event rest induction =>
      have moves := moves_alarmStep cores event
      obtain ⟨last, grown⟩ := induction fun core => (sound core).moves (moves core)
      exact ⟨last, (moves core).flushes_le.trans grown⟩

/-- When a panic has been announced to a core and the core has come to rest with its interrupts on,
it has stopped exactly if it has never handled a change of the page tables.  A core that has handled
one is not stopped by any later panic. -/
theorem alarm_stops_iff (events later : List (AlarmEvent ι)) (core : ι) :
    let state := events.foldl alarmStep (fun _ => AlarmCore.start) core
    let last := (events ++ later).foldl alarmStep (fun _ => AlarmCore.start) core
    (state.alarmed = true → state.Quiet → state.enabled = true ∨ state.Stopped →
        (state.Stopped ↔ state.flushes = 0)) ∧
      (state.flushes ≠ 0 → ¬ last.Stopped) := by
  intro state last
  have sound : ∀ core, (events.foldl alarmStep (fun _ => AlarmCore.start) core).Sound :=
    fun core => (sound_alarmRun (fun _ => AlarmCore.sound_start) events core).1
  refine ⟨fun alarmed quiet accepts => (sound core).stopped_iff quiet alarmed accepts, ?_⟩
  intro flushed stopped
  obtain ⟨lastSound, grown⟩ := sound_alarmRun sound later core
  rw [← List.foldl_append] at lastSound grown
  have never : last.flushes = 0 := lastSound.flushes_eq_zero stopped
  exact flushed (Nat.le_zero.mp (grown.trans (Nat.le_of_eq never)))

/-- The second core handles a change of the page tables, then the first one panics. -/
def updateThenPanic : List (AlarmEvent Bool) :=
  [.update false, .deliver true .paging, .run true, .run true, .panic false, .alarm false]

theorem updateThenPanic_goes_on :
    let state := updateThenPanic.foldl alarmStep (fun _ => AlarmCore.start) true
    state.alarmed = true ∧ state.enabled = true ∧ state.Quiet ∧ ¬ state.Stopped := by
  intro state
  have alarmed : state.alarmed = true := by decide
  have enabled : state.enabled = true := by decide
  have quiet : state.Quiet := ⟨.inl (by decide), fun _ vector => by cases vector <;> decide⟩
  refine ⟨alarmed, enabled, quiet, fun stopped => ?_⟩
  have iff := (alarm_stops_iff updateThenPanic [] true).1 alarmed quiet (.inl enabled)
  exact absurd (iff.mp stopped) (by decide)

end Okots
