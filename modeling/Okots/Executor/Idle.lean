import Mathlib.Logic.Relation
import Okots.Executor.Machine

/-!
# Falling asleep and being woken

The idle branch of the run loop tests its tickets and its queue with interrupts off, swaps `noise`,
goes offline and halts.  A notifying spawn function pushes its task, swaps `noise`, loads `online`
and sends an interrupt unless `noise` was set and the executor was online.

After the loop has swapped `noise` to `false`, the first spawn function to swap it sends.  So an
executor that halts on a task of a spawn function has an interrupt pending or on its way.  Wakers
push without a notification: they are safe only while the loop is not between its test of the queue
and the end of the halt, or when an interrupt is pending anyway.
-/

namespace Okots

open TransitionSystem

namespace Pc

/-- The loop has found its queue empty and has not returned from the halt. -/
def window : Pc → Bool
  | .swapNoise | .storeOffline | .halted => true
  | _ => false

/-- The loop has swapped `noise` and will halt, or has halted. -/
def asleep : Pc → Bool
  | .storeOffline | .halted => true
  | _ => false

theorem window_of_asleep {pc : Pc} (asleep : pc.asleep) : pc.window := by
  cases pc <;> first | rfl | cases asleep

end Pc

/-- A call that sends the interrupt whatever the executor does. -/
def SpawnPhase.sends : SpawnPhase → Bool
  | .swapped false | .decided true => true
  | _ => false

/-- A call that has its send step before it and has not decided against it. -/
def SpawnPhase.maySend : SpawnPhase → Bool
  | .pushed | .swapped _ | .decided true => true
  | _ => false

/-- How many steps a call has before it, its send step included. -/
def SpawnPhase.stepsToSend : SpawnPhase → Nat
  | .idle => 0
  | .pushed => 3
  | .swapped _ => 2
  | .decided _ => 1

theorem SpawnPhase.stepsToSend_le (phase : SpawnPhase) : phase.stepsToSend ≤ 3 := by
  cases phase <;> simp [SpawnPhase.stepsToSend]

theorem SpawnPhase.stepsToSend_pos {phase : SpawnPhase} (ahead : phase.maySend) :
    0 < phase.stepsToSend := by
  cases phase <;> first | exact Nat.succ_pos _ | cases ahead

theorem SpawnPhase.maySend_of_sends {phase : SpawnPhase} (sends : phase.sends) :
    phase.maySend := by
  cases phase with
  | idle | pushed => cases sends
  | swapped already => rfl
  | decided needsIpi => cases needsIpi <;> first | rfl | cases sends

namespace ExecutorState

variable {state : ExecutorState}

/-- A task in the queue was put there by `origin`. -/
def HasFrom (state : ExecutorState) (origin : Origin) : Prop :=
  ∃ entry ∈ state.taskQueue, entry.origin = origin

/-- The interrupt is pending or certain to be sent. -/
def Alerted (state : ExecutorState) : Prop :=
  state.ipiPending ∨ ∃ caller, (state.callers caller).sends

/-- Inside the window the loop is reached through the empty queue and moves on to the halt. -/
theorem runStep_window {now : Nat} {outcome : PollOutcome}
    (window : (state.runStep now outcome).pc.window) :
    (state.taskQueue = [] ∧ state.runStep now outcome = { state with pc := .swapNoise }) ∨
    (state.pc = .swapNoise ∧ state.noise = false ∧
      state.runStep now outcome = { state with noise := false, pc := .storeOffline }) ∨
    (state.pc = .storeOffline ∧
      state.runStep now outcome = { state with online := false, pc := .halted }) ∨
    (state.pc = .halted ∧ state.runStep now outcome = state) := by
  revert window
  unfold runStep
  split
  case h_11 ticketsEmpty atPc =>
    cases ticketsEmpty <;> cases empty : state.taskQueue <;> simp [Pc.window]
  case h_12 atPc => cases quiet : state.noise <;> simp [Pc.window, atPc]
  case h_13 atPc => simp [atPc]
  case h_14 atPc => simp [atPc]
  case h_3 => split <;> (try split) <;> simp [Pc.window]
  case h_4 => split <;> simp [Pc.window]
  case h_5 => split <;> simp [Pc.window]
  case h_8 =>
    split
    · rename_i answer
      cases answer <;> simp [finishPoll, Pc.window]
    · simp [Pc.window]
  case h_9 atPc => simp [atPc, Pc.window]
  all_goals simp [Pc.window]

/-- An interrupt finds the loop outside the masked part of the window and ends the halt. -/
theorem resume_not_window (enabled : state.pc.masked = false) :
    state.resume.pc.window = false := by
  unfold resume
  split
  · rfl
  · rename_i awake
    cases atPc : state.pc <;> simp_all [Pc.window, Pc.masked]

section Callers

variable (caller : Nat)

@[simp] theorem pc_callerStep : (state.callerStep caller).pc = state.pc := by
  unfold callerStep
  split <;> rfl

@[simp] theorem online_callerStep : (state.callerStep caller).online = state.online := by
  unfold callerStep
  split <;> rfl

@[simp] theorem taskQueue_callerStep :
    (state.callerStep caller).taskQueue = state.taskQueue := by
  unfold callerStep
  split <;> rfl

@[simp] theorem woken_callerStep : (state.callerStep caller).woken = state.woken := by
  unfold callerStep
  split <;> rfl

/-- A step of one call leaves the other calls alone. -/
theorem callers_callerStep_of_ne {other : Nat} (differs : other ≠ caller) :
    (state.callerStep caller).callers other = state.callers other := by
  unfold callerStep
  split
  · rfl
  all_goals exact Function.update_of_ne differs _ _

/-- The phases of a call, with the value it swaps out and the value it loads. -/
theorem callers_callerStep_self :
    (state.callerStep caller).callers caller =
      match state.callers caller with
      | .idle | .decided _ => .idle
      | .pushed => .swapped state.noise
      | .swapped already => .decided (!already || !state.online) := by
  unfold callerStep
  split <;> rename_i phase <;> simp [phase]

theorem ipiPending_callerStep (pending : state.ipiPending) :
    (state.callerStep caller).ipiPending := by
  unfold callerStep
  split <;> simp [pending]

theorem noise_callerStep (noisy : state.noise) : (state.callerStep caller).noise := by
  unfold callerStep
  split <;> simp [noisy]

/-- The send step of a call that is certain to send makes the interrupt pending. -/
theorem ipiPending_of_decided (decided : state.callers caller = .decided true) :
    (state.callerStep caller).ipiPending := by
  unfold callerStep
  rw [decided]
  exact Bool.or_true _

/-- An alert is not lost by the progress of any call. -/
theorem Alerted.callerStep (alerted : state.Alerted) : (state.callerStep caller).Alerted := by
  obtain pending | ⟨other, sends⟩ := alerted
  · exact .inl (ipiPending_callerStep caller pending)
  by_cases same : other = caller
  · subst same
    cases phase : state.callers other with
    | idle | pushed => simp [phase, SpawnPhase.sends] at sends
    | swapped already =>
        refine .inr ⟨other, ?_⟩
        rw [callers_callerStep_self, phase]
        cases already <;> simp_all [SpawnPhase.sends]
    | decided needsIpi =>
        cases needsIpi with
        | false => simp [phase, SpawnPhase.sends] at sends
        | true => exact .inl (ipiPending_of_decided other phase)
  · exact .inr ⟨other, by rwa [callers_callerStep_of_ne caller same]⟩

/-- A call that finds `noise` clear and sets it is certain to send. -/
theorem alerted_of_noise (quiet : state.noise = false) (noisy : (state.callerStep caller).noise) :
    (state.callerStep caller).Alerted := by
  cases phase : state.callers caller with
  | pushed =>
      refine .inr ⟨caller, ?_⟩
      rw [callers_callerStep_self, phase, quiet]
      rfl
  | idle | swapped | decided => simp [ExecutorState.callerStep, phase, quiet] at noisy

/-- A call that has pushed its task sets `noise` with its next step. -/
theorem pushed_callerStep (pushed : ∃ other, state.callers other = .pushed) :
    (state.callerStep caller).noise ∨
      ∃ other, (state.callerStep caller).callers other = .pushed := by
  obtain ⟨other, pushed⟩ := pushed
  by_cases same : other = caller
  · subst same
    left
    simp [ExecutorState.callerStep, pushed]
  · exact .inr ⟨other, by rwa [callers_callerStep_of_ne caller same]⟩

end Callers

/-- The sleep and wake handshake between the loop and the notifying spawn functions. -/
structure Handshake (state : ExecutorState) : Prop where
  /-- Who sets `noise` after the loop has swapped it sends the interrupt. -/
  alerted : state.pc.asleep → state.noise → state.Alerted
  /-- A task pushed in the window has left `noise` set, or its call is still to set it. -/
  covered : state.pc.window → state.HasFrom .notified →
    state.noise ∨ (∃ caller, state.callers caller = .pushed) ∨ state.Alerted
  offline : state.pc = .halted → state.online = false

/-- Outside the window the handshake asks for nothing. -/
theorem Handshake.of_not_window (awake : state.pc.window = false) : state.Handshake where
  alerted asleep := by simp [Pc.window_of_asleep asleep] at awake
  covered window := by simp [window] at awake
  offline halted := by simp [halted, Pc.window] at awake

/-- The components that the handshake reads, apart from the queue. -/
def idleData (state : ExecutorState) : Pc × Bool × Bool × Bool × (Nat → SpawnPhase) :=
  (state.pc, state.online, state.noise, state.ipiPending, state.callers)

theorem Handshake.frame {after : ExecutorState} (handshake : state.Handshake)
    (same : after.idleData = state.idleData)
    (queued : after.HasFrom .notified → state.HasFrom .notified) : after.Handshake := by
  simp only [idleData, Prod.mk.injEq] at same
  obtain ⟨pc, online, noise, ipiPending, callers⟩ := same
  have alert : after.Alerted ↔ state.Alerted := by rw [Alerted, Alerted, ipiPending, callers]
  refine ⟨?_, ?_, ?_⟩
  · rw [pc, noise, alert]
    exact handshake.alerted
  · rw [pc, noise, alert, callers]
    exact fun window member => handshake.covered window (queued member)
  · rw [pc, online]
    exact handshake.offline

/-- The loop keeps the handshake: it enters the window with an empty queue, and swaps `noise` when
it is clear. -/
theorem Handshake.runStep (handshake : state.Handshake) (now : Nat) (outcome : PollOutcome) :
    (state.runStep now outcome).Handshake := by
  cases window : (state.runStep now outcome).pc.window with
  | false => exact .of_not_window window
  | true =>
      obtain ⟨empty, same⟩ | ⟨atPc, quiet, same⟩ | ⟨atPc, same⟩ | ⟨-, same⟩ :=
        runStep_window window
      · rw [same]
        refine ⟨nofun, fun _ ⟨entry, member, _⟩ => ?_, nofun⟩
        simp [empty] at member
      · rw [same]
        refine ⟨fun _ => nofun, fun _ queued => ?_, nofun⟩
        have covered := handshake.covered (by rw [atPc]; rfl) queued
        rwa [quiet] at covered
      · rw [same]
        exact ⟨fun _ => handshake.alerted (by rw [atPc]; rfl),
          fun _ => handshake.covered (by rw [atPc]; rfl), fun _ => rfl⟩
      · rw [same]
        exact handshake

theorem Handshake.callerStep (handshake : state.Handshake) (caller : Nat) :
    (state.callerStep caller).Handshake where
  alerted asleep noisy := by
    rw [pc_callerStep] at asleep
    cases before : state.noise with
    | false => exact alerted_of_noise caller before noisy
    | true => exact (handshake.alerted asleep before).callerStep caller
  covered window queued := by
    rw [pc_callerStep] at window
    rw [HasFrom, taskQueue_callerStep] at queued
    obtain noisy | pushed | alerted := handshake.covered window queued
    · exact .inl (noise_callerStep caller noisy)
    · exact (pushed_callerStep caller pushed).imp_right .inl
    · exact .inr (.inr (alerted.callerStep caller))
  offline halted := by
    rw [pc_callerStep] at halted
    rw [online_callerStep]
    exact handshake.offline halted

/-- A notifying call that pushes a task has its swap of `noise` before it. -/
theorem Handshake.notify (handshake : state.Handshake) {caller : Nat} (task : Nat)
    (idle : state.callers caller = .idle) :
    (state.next (.notify caller task)).Handshake where
  alerted asleep noisy := by
    obtain pending | ⟨other, sends⟩ := handshake.alerted asleep noisy
    · exact .inl pending
    · have differs : other ≠ caller := by
        rintro rfl
        simp [idle, SpawnPhase.sends] at sends
      exact .inr ⟨other, by simpa [next, differs] using sends⟩
  covered _ _ := .inr (.inl ⟨caller, by simp [next]⟩)
  offline := handshake.offline

/-- A task that is pushed without a notification leaves the handshake alone. -/
theorem hasFrom_push (state : ExecutorState) (task : Nat) {origin other : Origin}
    (differs : other ≠ origin) (queued : (state.push task other).HasFrom origin) :
    state.HasFrom origin := by
  obtain ⟨entry, member, same⟩ := queued
  rcases List.mem_append.mp member with old | new
  · exact ⟨entry, old, same⟩
  · rw [List.mem_singleton.mp new] at same
    exact absurd same differs

/-- Every step keeps the handshake. -/
theorem Handshake.next (handshake : state.Handshake) {event : ExecutorEvent}
    (enabled : state.Enabled event) : (state.next event).Handshake := by
  cases event with
  | run now outcome => exact handshake.runStep now outcome
  | ipi => exact .of_not_window (resume_not_window enabled.2)
  | otherInterrupt => exact .of_not_window (resume_not_window enabled)
  | notify caller task => exact handshake.notify task enabled.1
  | caller caller => exact handshake.callerStep caller
  | spawn task =>
      exact handshake.frame rfl (hasFrom_push state task (by decide))
  | wake task | wakeByRef task =>
      exact handshake.frame rfl (hasFrom_push state task (by decide))
  | cloneWaker | dropWaker | ticket => exact handshake.frame rfl id

theorem handshake_of_reachable {address lapicId : Nat}
    {condition : ExecutorState → ExecutorEvent → Prop}
    (reached : Reachable (· = new address lapicId) (StepsWith condition) state) :
    state.Handshake := by
  refine reached.invariant ?_ ?_
  · rintro _ rfl
    exact .of_not_window rfl
  · rintro state after - handshake ⟨event, -, enabled, rfl⟩
    exact handshake.next enabled

/-- A run along which the executor stays halted, with the number of steps that `caller` takes in
it.  Everything else may happen in between, any number of times. -/
inductive StaysHalted (caller : Nat) : Nat → ExecutorState → ExecutorState → Prop where
  | start (state : ExecutorState) : StaysHalted caller 0 state state
  | own {own : Nat} {first state : ExecutorState} :
      StaysHalted caller own first state → (state.next (.caller caller)).pc = .halted →
      StaysHalted caller (own + 1) first (state.next (.caller caller))
  | other {own : Nat} {first state : ExecutorState} {event : ExecutorEvent} :
      StaysHalted caller own first state → event ≠ .caller caller → state.Enabled event →
      (state.next event).pc = .halted → StaysHalted caller own first (state.next event)

/-- Three steps of the call at most make the interrupt pending, whatever happens between them while
the executor stays halted. -/
structure WillSend (state : ExecutorState) (caller : Nat) : Prop where
  /-- Until the interrupt is pending, the call has its send step before it and has taken fewer than
  three steps. -/
  bounded : ∀ own after, StaysHalted caller own state after →
    after.ipiPending ∨ own < 3 ∧ (after.callers caller).maySend
  /-- The call waits for nobody: its next step is possible everywhere along the run. -/
  moves : ∀ own after, StaysHalted caller own state after →
    StaysHalted caller (own + 1) state (after.next (.caller caller))

/-- What holds after `own` steps of the call while the executor stays halted. -/
structure Awaited (caller own : Nat) (state : ExecutorState) : Prop where
  halted : state.pc = .halted
  offline : state.online = false
  sending : state.ipiPending ∨
    (state.callers caller).maySend ∧ own + (state.callers caller).stepsToSend ≤ 3

/-- A step of the call brings it nearer to its send step: the executor is offline, so the call does
not decide against sending. -/
theorem Awaited.own {caller own : Nat} (awaited : Awaited caller own state) :
    Awaited caller (own + 1) (state.next (.caller caller)) where
  halted := (pc_callerStep caller).trans awaited.halted
  offline := (online_callerStep caller).trans awaited.offline
  sending := by
    obtain pending | ⟨ahead, steps⟩ := awaited.sending
    · exact .inl (ipiPending_callerStep caller pending)
    rw [ExecutorState.next, callers_callerStep_self]
    cases phase : state.callers caller with
    | idle => simp [phase, SpawnPhase.maySend] at ahead
    | pushed =>
        simp only [phase, SpawnPhase.stepsToSend] at steps
        exact .inr ⟨rfl, by simp only [SpawnPhase.stepsToSend]; omega⟩
    | swapped already =>
        simp only [phase, SpawnPhase.stepsToSend] at steps
        refine .inr ⟨?_, by simp only [SpawnPhase.stepsToSend]; omega⟩
        simp [awaited.offline, SpawnPhase.maySend]
    | decided needsIpi =>
        cases needsIpi with
        | false => simp [phase, SpawnPhase.maySend] at ahead
        | true => exact .inl (ipiPending_of_decided caller phase)

/-- A step of anybody else does not change the call, and does not clear the pending interrupt unless
it ends the halt. -/
theorem Awaited.other {caller own : Nat} (awaited : Awaited caller own state)
    {event : ExecutorEvent} (differs : event ≠ .caller caller) (enabled : state.Enabled event)
    (stays : (state.next event).pc = .halted) : Awaited caller own (state.next event) := by
  have halted := awaited.halted
  cases event with
  | run now outcome =>
      have same : state.runStep now outcome = state := by simp [runStep, halted]
      rwa [ExecutorState.next, same]
  | ipi | otherInterrupt => simp [ExecutorState.next, resume, halted] at stays
  | notify other task =>
      refine ⟨halted, awaited.offline, awaited.sending.imp_right ?_⟩
      rintro ⟨ahead, steps⟩
      have apart : caller ≠ other := by
        rintro rfl
        simp [enabled.1, SpawnPhase.maySend] at ahead
      simpa [ExecutorState.next, apart] using And.intro ahead steps
  | caller other =>
      have apart : caller ≠ other := by
        rintro rfl
        exact differs rfl
      refine ⟨stays, (online_callerStep other).trans awaited.offline, ?_⟩
      rw [ExecutorState.next, callers_callerStep_of_ne other apart]
      exact awaited.sending.imp_left (ipiPending_callerStep other)
  | spawn | wake | wakeByRef | cloneWaker | dropWaker | ticket =>
      exact ⟨halted, awaited.offline, awaited.sending⟩

theorem Awaited.staysHalted {caller own : Nat} {after : ExecutorState}
    (awaited : Awaited caller 0 state) (stays : StaysHalted caller own state after) :
    Awaited caller own after := by
  induction stays with
  | start => exact awaited
  | own _ _ induction => exact (induction awaited).own
  | other _ differs enabled stays induction =>
      exact (induction awaited).other differs enabled stays

theorem willSend_of_maySend {caller : Nat} (halted : state.pc = .halted)
    (offline : state.online = false) (ahead : (state.callers caller).maySend) :
    state.WillSend caller := by
  have awaited : Awaited caller 0 state :=
    ⟨halted, offline, .inr ⟨ahead, by simpa using SpawnPhase.stepsToSend_le _⟩⟩
  refine ⟨fun own after stays => ?_, fun own after stays => ?_⟩
  · refine (awaited.staysHalted stays).sending.imp_right fun ⟨ahead, steps⟩ => ⟨?_, ahead⟩
    have left := SpawnPhase.stepsToSend_pos ahead
    omega
  · exact stays.own (awaited.staysHalted stays).own.halted

/-- A halted executor with a task of a notifying spawn function in its queue is about to be
interrupted. -/
theorem Handshake.interrupted (handshake : state.Handshake) (halted : state.pc = .halted)
    (queued : state.HasFrom .notified) :
    state.ipiPending ∨ ∃ caller, state.WillSend caller := by
  have offline := handshake.offline halted
  have willSend : ∀ caller, (state.callers caller).maySend → state.WillSend caller :=
    fun caller ahead => willSend_of_maySend halted offline ahead
  have alert : state.Alerted → state.ipiPending ∨ ∃ caller, state.WillSend caller := by
    rintro (pending | ⟨caller, sends⟩)
    · exact .inl pending
    · exact .inr ⟨caller, willSend caller (SpawnPhase.maySend_of_sends sends)⟩
  obtain noisy | ⟨caller, pushed⟩ | alerted :=
    handshake.covered (by rw [halted]; rfl) queued
  · exact alert (handshake.alerted (by rw [halted]; rfl) noisy)
  · exact .inr ⟨caller, willSend caller (by rw [pushed]; rfl)⟩
  · exact alert alerted

/-- A waker is woken outside the window, or while the interrupt is pending, or while the loop is
still to find `noise` set. -/
def Receptive (state : ExecutorState) : ExecutorEvent → Prop
  | .wake _ | .wakeByRef _ =>
      state.pc.window → state.ipiPending ∨ state.pc = .swapNoise ∧ state.noise
  | _ => True

instance (event : ExecutorEvent) : Decidable (state.Receptive event) :=
  match event with
  | .wake _ | .wakeByRef _ => inferInstanceAs (Decidable (_ → _ ∨ _ ∧ _))
  | .run _ _ | .ipi | .otherInterrupt | .notify _ _ | .caller _ | .spawn _ | .cloneWaker _
  | .dropWaker _ | .ticket _ _ => .isTrue trivial

/-- Woken tasks are queued until they are polled, and the loop does not sleep on them. -/
structure Sheltered (state : ExecutorState) : Prop where
  awake : state.pc.window → state.HasFrom .woken →
    state.ipiPending ∨ state.pc = .swapNoise ∧ state.noise
  queued : ∀ task ∈ state.woken, ⟨task, .woken⟩ ∈ state.taskQueue ∨ task ∈ state.pc.waiting?

/-- A step outside the window that neither wakes nor takes a task. -/
theorem Sheltered.frame {after : ExecutorState} (sheltered : state.Sheltered)
    (awake : after.pc.window → after.HasFrom .woken →
      after.ipiPending ∨ after.pc = .swapNoise ∧ after.noise)
    (queue : state.taskQueue ⊆ after.taskQueue) (woken : after.woken ⊆ state.woken)
    (waiting : ∀ task ∈ state.pc.waiting?, task ∈ after.pc.waiting?) : after.Sheltered where
  awake := awake
  queued task member :=
    (sheltered.queued task (woken member)).imp (fun inside => queue inside) (waiting task)

/-- Pushing a woken task records it and queues it. -/
theorem Sheltered.pushWoken (sheltered : state.Sheltered) (task : Nat)
    (receptive : state.pc.window → state.ipiPending ∨ state.pc = .swapNoise ∧ state.noise) :
    (state.pushWoken task).Sheltered where
  awake window _ := receptive window
  queued other member := by
    rcases List.mem_cons.mp member with rfl | earlier
    · exact .inl (List.mem_append_right _ List.mem_cons_self)
    · exact (sheltered.queued other earlier).imp_left (List.mem_append_left _)

/-- The loop does not halt on a woken task. -/
theorem Sheltered.awake_runStep (sheltered : state.Sheltered) (now : Nat) (outcome : PollOutcome)
    (window : (state.runStep now outcome).pc.window)
    (queued : (state.runStep now outcome).HasFrom .woken) :
    (state.runStep now outcome).ipiPending ∨
      (state.runStep now outcome).pc = .swapNoise ∧ (state.runStep now outcome).noise := by
  obtain ⟨empty, same⟩ | ⟨atPc, quiet, same⟩ | ⟨atPc, same⟩ | ⟨-, same⟩ := runStep_window window <;>
    rw [same] at window queued ⊢
  · obtain ⟨entry, member, -⟩ := queued
    simp [empty] at member
  · have awake := sheltered.awake (by rw [atPc]; rfl) queued
    simpa [quiet] using awake
  · have awake := sheltered.awake (by rw [atPc]; rfl) queued
    simpa [atPc] using awake
  · exact sheltered.awake window queued

/-- A woken task stays queued or in the hands of the loop until its poll begins. -/
theorem Sheltered.queued_runStep (sheltered : state.Sheltered) (now : Nat) (outcome : PollOutcome) :
    ∀ task ∈ (state.runStep now outcome).woken,
      ⟨task, .woken⟩ ∈ (state.runStep now outcome).taskQueue ∨
        task ∈ (state.runStep now outcome).pc.waiting? := by
  have queued := sheltered.queued
  unfold runStep
  split <;> rename_i atPc <;> simp only [atPc, Pc.waiting?] at queued
  case h_2 clock waker due =>
    unfold wakeTicket
    split
    · have pushed := sheltered.pushWoken waker.task (by simp [atPc, Pc.window])
      simpa [atPc, Pc.waiting?, ExecutorState.pushWoken, push] using pushed.queued
    · simpa [Pc.waiting?] using queued
  case h_3 => split <;> (try split) <;> simpa [Pc.waiting?] using queued
  case h_4 =>
    split
    · rename_i empty
      simpa [empty, Pc.waiting?] using queued
    · rename_i entry rest front
      intro task member
      simp only [front, List.mem_cons, Option.not_mem_none, or_false] at queued
      rcases queued task member with rfl | later
      · exact .inr rfl
      · exact .inl later
  case h_5 => split <;> exact queued
  case h_7 current =>
    intro task member
    obtain ⟨earlier, differs⟩ := List.mem_filter.mp member
    refine (queued task earlier).imp_right ?_
    rintro ⟨rfl⟩
    simp at differs
  case h_8 =>
    split
    · rename_i answer
      cases answer <;> simpa [finishPoll, Pc.waiting?] using queued
    · simpa [Pc.waiting?] using queued
  all_goals
    (try split) <;> simpa [atPc, Pc.waiting?] using queued

theorem Sheltered.resume (sheltered : state.Sheltered) (enabled : state.pc.masked = false)
    {pending : Bool} :
    ({ state.resume with ipiPending := pending } : ExecutorState).Sheltered := by
  refine sheltered.frame (fun window => ?_) (List.Subset.refl _) (List.Subset.refl _) ?_
  · simp [resume_not_window enabled] at window
  · intro task member
    simp only [ExecutorState.resume]
    split
    · rename_i halted
      simp [halted, Pc.waiting?] at member
    · exact member

theorem Sheltered.callerStep (sheltered : state.Sheltered) (caller : Nat) :
    (state.callerStep caller).Sheltered := by
  refine sheltered.frame (fun window queued => ?_) (by simp) (by simp) (by simp)
  rw [pc_callerStep] at window
  rw [HasFrom, taskQueue_callerStep] at queued
  rw [pc_callerStep]
  exact (sheltered.awake window queued).imp (ipiPending_callerStep caller)
    (And.imp_right (noise_callerStep caller))

/-- Every step that meets `Receptive` shelters the woken tasks. -/
theorem Sheltered.next (sheltered : state.Sheltered) {event : ExecutorEvent}
    (receptive : state.Receptive event) (enabled : state.Enabled event) :
    (state.next event).Sheltered := by
  cases event with
  | run now outcome =>
      exact ⟨sheltered.awake_runStep now outcome, sheltered.queued_runStep now outcome⟩
  | ipi => exact sheltered.resume enabled.2
  | otherInterrupt => exact sheltered.resume enabled
  | notify caller task =>
      refine sheltered.frame (fun window queued => sheltered.awake window ?_)
        (List.subset_append_left _ _) (List.Subset.refl _) fun _ => id
      exact hasFrom_push state task (by decide) queued
  | spawn task =>
      refine sheltered.frame (fun window queued => sheltered.awake window ?_)
        (List.subset_append_left _ _) (List.Subset.refl _) fun _ => id
      exact hasFrom_push state task (by decide) queued
  | caller caller => exact sheltered.callerStep caller
  | wake task =>
      have pushed := sheltered.pushWoken task receptive
      exact ⟨pushed.awake, pushed.queued⟩
  | wakeByRef task => exact sheltered.pushWoken task receptive
  | cloneWaker | dropWaker | ticket => exact ⟨sheltered.awake, sheltered.queued⟩

theorem sheltered_of_reachable {address lapicId : Nat}
    (reached : Reachable (· = new address lapicId) (StepsWith Receptive) state) :
    state.Sheltered := by
  refine reached.invariant ?_ ?_
  · rintro _ rfl
    exact ⟨nofun, nofun⟩
  · rintro state after - sheltered ⟨event, receptive, enabled, rfl⟩
    exact sheltered.next receptive enabled

/-- A step of the loop. -/
def LoopStep (state after : ExecutorState) : Prop :=
  ∃ now outcome, state.runStep now outcome = after

/-- A wake that does not meet the condition lets the loop halt, if nobody else takes a step, on the
woken task with no interrupt pending. -/
theorem woken_lost_of_not_receptive {task : Nat} (lost : ¬ state.Receptive (.wakeByRef task)) :
    ∃ after, Relation.ReflTransGen LoopStep (state.pushWoken task) after ∧
      task ∈ after.woken ∧ after.pc = .halted ∧ after.ipiPending = false := by
  simp only [Receptive, Classical.not_imp, not_or, not_and, Bool.not_eq_true] at lost
  obtain ⟨window, quiet, clear⟩ := lost
  cases atPc : state.pc with
  | swapNoise =>
      refine ⟨_, .tail (.single ⟨0, .pushes, rfl⟩) ⟨0, .pushes, rfl⟩, ?_⟩
      simp [ExecutorState.runStep, ExecutorState.pushWoken, push, atPc, clear atPc, quiet]
  | storeOffline =>
      refine ⟨_, .single ⟨0, .pushes, rfl⟩, ?_⟩
      simp [ExecutorState.runStep, ExecutorState.pushWoken, push, atPc, quiet]
  | halted =>
      refine ⟨_, .refl, ?_⟩
      simp [ExecutorState.pushWoken, push, atPc, quiet]
  | _ => simp [atPc, Pc.window] at window

end ExecutorState

namespace Cluster

/-- With any number of executors and cores and any interleaving, an executor that is halted with a
task of a notifying spawn function in its queue has the interrupt pending, or some call of a spawn
function is still to send it and will, with at most three steps of its own. -/
theorem spawned_interrupts {cluster : Cluster} (reached : cluster.Reaches fun _ _ => True)
    (index : Nat) (halted : (cluster.executors index).pc = .halted)
    (queued : (cluster.executors index).HasFrom .notified) :
    (cluster.executors index).ipiPending ∨
      ∃ caller, (cluster.executors index).WillSend caller := by
  obtain ⟨lapicId, own⟩ := reached.executor index
  exact (ExecutorState.handshake_of_reachable own).interrupted halted queued

/-- Executor 0 advances by this many accesses; a future that is polled returns `Pending`. -/
def loopSteps (count : Nat) : List ClusterEvent :=
  List.replicate count (.inside 0 (.run 0 (.returns .pending)))

/-- Executor 0 has halted when the task of a spawn function is pushed. -/
theorem spawned_interrupts_asleep :
    ∃ cluster : Cluster, cluster.Reaches (fun _ _ => True) ∧
      (cluster.executors 0).pc = .halted ∧ (cluster.executors 0).taskQueue = [⟨0, .notified⟩] ∧
      ((cluster.executors 0).ipiPending ∨
        ∃ caller, (cluster.executors 0).WillSend caller) := by
  obtain ⟨cluster, reached, checked⟩ := reaches_of_runWith (fun _ _ => True) (fun index => index)
    (.register :: loopSteps 7 ++ [.spawnOn (.spawnSelectedLapicId 0) 0 0])
    (fun cluster => (cluster.executors 0).pc = .halted ∧
      (cluster.executors 0).taskQueue = [⟨0, .notified⟩]) (by decide)
  obtain ⟨halted, queue⟩ : (cluster.executors 0).pc = .halted ∧
    (cluster.executors 0).taskQueue = [⟨0, .notified⟩] := by simpa using checked
  have queued : (cluster.executors 0).HasFrom .notified := ⟨⟨0, .notified⟩, by simp [queue], rfl⟩
  exact ⟨cluster, reached, halted, queue, spawned_interrupts reached 0 halted queued⟩

/-- In every run whose wakes are all received, with any number of executors and cores, an executor
with a task that was woken and has not been polled since is not halted, or has the interrupt
pending. -/
theorem woken_not_lost {cluster : Cluster} (reached : cluster.Reaches ExecutorState.Receptive)
    (index task : Nat) (woken : task ∈ (cluster.executors index).woken) :
    (cluster.executors index).pc ≠ .halted ∨ (cluster.executors index).ipiPending := by
  obtain ⟨lapicId, own⟩ := reached.executor index
  have sheltered := ExecutorState.sheltered_of_reachable own
  by_cases halted : (cluster.executors index).pc = .halted
  · right
    have queued := sheltered.queued task woken
    simp only [halted, Pc.waiting?, Option.not_mem_none, or_false] at queued
    have awake := sheltered.awake (by rw [halted]; rfl) ⟨_, queued, rfl⟩
    simpa [halted] using awake
  · exact .inl halted

/-- Task 0 of executor 0 is polled once and keeps a clone of its waker; the loop then runs on for
`count` accesses before the task is woken. -/
def wakeAfter (count : Nat) : List ClusterEvent :=
  [.register, .inside 0 (.spawn 0)] ++ loopSteps 5 ++ [.inside 0 (.cloneWaker 0)] ++
    loopSteps count ++ [.inside 0 (.wake 0)]

/-- A wake before the loop tests its queue is received. -/
theorem woken_not_lost_early :
    ∃ cluster : Cluster, cluster.Reaches ExecutorState.Receptive ∧
      0 ∈ (cluster.executors 0).woken ∧
      ((cluster.executors 0).pc ≠ .halted ∨ (cluster.executors 0).ipiPending) := by
  obtain ⟨cluster, reached, checked⟩ := reaches_of_runWith ExecutorState.Receptive
    (fun index => index) (wakeAfter 4) (fun cluster => 0 ∈ (cluster.executors 0).woken) (by decide)
  have woken : 0 ∈ (cluster.executors 0).woken := by simpa using checked
  exact ⟨cluster, reached, woken, woken_not_lost reached 0 0 woken⟩

/-- A wake after the loop has halted is lost: the task is queued, nothing is pending, and no call of
a spawn function is in flight. -/
theorem woken_lost_late :
    ∃ cluster : Cluster, cluster.Reaches (fun _ _ => True) ∧
      0 ∈ (cluster.executors 0).woken ∧ (cluster.executors 0).pc = .halted ∧
      (cluster.executors 0).ipiPending = false ∧
      (cluster.executors 0).callers = fun _ => .idle := by
  refine ⟨_, ⟨fun index => index, reachable_runWith (wakeAfter 8) _ _ (.start rfl) rfl⟩, ?_⟩
  exact ⟨by decide, by decide, by decide, rfl⟩

end Cluster
end Okots
