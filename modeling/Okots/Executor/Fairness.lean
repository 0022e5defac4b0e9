import Okots.Executor.Machine

/-!
# No task starves

The queue of an executor is served in order.  Other cores push at its back while the loop runs, wake
and spawn tasks and send interrupts, in any order; none of this delays a task that is already
queued.  So a task is polled after a number of steps of the loop that depends on the tasks before it
and on the wakers in the tickets only, as long as the polls before it return.  The one way to wait
for ever is a loop that has already found its queue empty and goes to sleep.
-/

namespace Okots

open OrderedMultimap TransitionSystem

/-- The loop is not on its way to the halt and does not wait for a lock that it holds. -/
def Pc.awake : Pc → Bool
  | .blocked _ | .swapNoise | .storeOffline | .halted => false
  | _ => true

/-- The steps that the entries of the tickets take, one for each entry and each waker. -/
def ticketSteps (entries : List (Nat × List Waker)) : Nat :=
  (entries.map fun entry => entry.2.length + 1).sum

namespace ExecutorState

/-- The steps that the tickets take at most before the next pop. -/
def pendingWakes (state : ExecutorState) : Nat :=
  match state.pc with
  | .waking _ due => due.length + ticketSteps state.tickets.entries
  | _ => ticketSteps state.tickets.entries

/-- The steps of the loop up to its next pop. -/
def stepsToPop (bound : Nat) (state : ExecutorState) : Nat :=
  match state.pc with
  | .pop => 1
  | .waking _ _ => state.pendingWakes + 2
  | .timers => bound + 3
  | .polling _ | .storeOnline | .testQueue _ => bound + 4
  | .startPoll _ | .testTickets => bound + 5
  | .storeNoise _ => bound + 6
  | .loadNoise _ => bound + 7
  | .blocked _ | .swapNoise | .storeOffline | .halted => 0

/-- A poll blocks on the queue of its own executor. -/
def reenters (state : ExecutorState) : ExecutorEvent → Bool
  | .run _ .pushes =>
      match state.pc with
      | .polling _ => true
      | _ => false
  | _ => false

/-- The tickets hold at most `bound` wakers and entries, and the poll returns. -/
def Returning (bound : Nat) (state : ExecutorState) (event : ExecutorEvent) : Prop :=
  state.pendingWakes ≤ bound ∧ state.reenters event = false

instance (bound : Nat) (state : ExecutorState) (event : ExecutorEvent) :
    Decidable (state.Returning bound event) :=
  inferInstanceAs (Decidable (_ ∧ _))

/-- The steps of the loop in an event. -/
def loopSteps : ExecutorEvent → Nat
  | .run _ _ => 1
  | _ => 0

/-- The loop is awake, the entry is in the queue, and at most `steps` steps of the loop take it out
of there. -/
structure Waits (bound : Nat) (entry : QueueEntry) (steps : Nat) (state : ExecutorState) :
    Prop where
  awake : state.pc.awake = true
  queued : ∃ before after, state.taskQueue = before ++ entry :: after ∧
    state.stepsToPop bound + before.length * (bound + 7) ≤ steps

/-- The loop takes the entry out of the queue. -/
def Takes (entry : QueueEntry) (state : ExecutorState) (event : ExecutorEvent) : Prop :=
  loopSteps event = 1 ∧ state.pc = .pop ∧ ∃ after, state.taskQueue = entry :: after

section Step

variable {bound steps : Nat} {entry : QueueEntry} {state : ExecutorState} {event : ExecutorEvent}

/-- Other cores push at the back and do not move the loop. -/
theorem Waits.grow (waits : Waits bound entry steps state) {after : ExecutorState}
    (pc : after.pc = state.pc) (pushed : List QueueEntry)
    (queue : after.taskQueue = state.taskQueue ++ pushed)
    (tickets : state.pc.holdsTickets = true → after.tickets = state.tickets) :
    Waits bound entry steps after := by
  obtain ⟨awake, before, rest, queued, enough⟩ := waits
  have same : after.stepsToPop bound = state.stepsToPop bound := by
    unfold stepsToPop pendingWakes
    rw [pc]
    cases own : state.pc with
    | waking now due => simp only [tickets (by rw [own]; rfl)]
    | _ => rfl
  refine ⟨by rw [pc, awake], before, rest ++ pushed, ?_, ?_⟩
  · rw [queue, queued, List.append_assoc, List.cons_append]
  · rw [same]
    exact enough

/-- The loop advances towards its next pop. -/
theorem Waits.advance (waits : Waits bound entry steps state) {after : ExecutorState}
    (awake : after.pc.awake = true) (pushed : List QueueEntry)
    (queue : after.taskQueue = state.taskQueue ++ pushed)
    (closer : after.stepsToPop bound < state.stepsToPop bound) :
    Waits bound entry (steps - 1) after := by
  obtain ⟨-, before, rest, queued, enough⟩ := waits
  refine ⟨awake, before, rest ++ pushed, ?_, by omega⟩
  rw [queue, queued, List.append_assoc, List.cons_append]

theorem ticketSteps_cons (deadline : Nat) (due : List Waker) (rest : List (Nat × List Waker)) :
    ticketSteps ((deadline, due) :: rest) = due.length + 1 + ticketSteps rest := by
  simp [ticketSteps]

/-- A pop takes the entry, or brings it one place nearer to the front. -/
theorem Waits.pop (waits : Waits bound entry steps state) (pc : state.pc = .pop) (now : Nat)
    (outcome : PollOutcome) :
    (∃ after, state.taskQueue = entry :: after) ∨
      Waits bound entry (steps - 1) (state.runStep now outcome) := by
  obtain ⟨-, before, rest, queued, enough⟩ := waits
  cases before with
  | nil => exact .inl ⟨rest, queued⟩
  | cons first before =>
      right
      rw [List.cons_append] at queued
      have popped : state.runStep now outcome =
          { state with taskQueue := before ++ entry :: rest, pc := .loadNoise first.task } := by
        simp only [runStep, pc, queued]
      rw [popped]
      refine ⟨rfl, before, rest, rfl, ?_⟩
      have one : state.stepsToPop bound = 1 := by rw [stepsToPop, pc]
      rw [one, List.length_cons, Nat.succ_mul] at enough
      simp only [stepsToPop]
      omega

/-- A step of `check_timers`. -/
theorem Waits.waking (waits : Waits bound entry steps state) {since : Nat} {due : List Waker}
    (pc : state.pc = .waking since due) (now : Nat) (outcome : PollOutcome) :
    Waits bound entry (steps - 1) (state.runStep now outcome) := by
  have before : state.stepsToPop bound =
      due.length + ticketSteps state.tickets.entries + 2 := by
    simp only [stepsToPop, pendingWakes, pc]
  cases due with
  | cons waker due =>
      simp only [runStep, pc]
      unfold wakeTicket
      split
      · refine waits.advance rfl [⟨waker.task, .woken⟩] rfl ?_
        rw [before]
        simp only [stepsToPop, pendingWakes, pushWoken, push, List.length_cons]
        omega
      · refine waits.advance rfl [] (List.append_nil _).symm ?_
        rw [before]
        simp only [stepsToPop, pendingWakes, List.length_cons]
        omega
  | nil =>
      simp only [runStep, pc]
      split
      · refine waits.advance rfl [] (List.append_nil _).symm ?_
        rw [before]
        simp only [stepsToPop]
        omega
      · rename_i deadline due rest entries
        split
        · refine waits.advance rfl [] (List.append_nil _).symm ?_
          rw [before, entries, ticketSteps_cons]
          simp only [stepsToPop, pendingWakes, Multimap.removeFirst, entries, List.tail_cons,
            List.length_nil]
          omega
        · refine waits.advance rfl [] (List.append_nil _).symm ?_
          rw [before]
          simp only [stepsToPop]
          omega

/-- The queue of a waiting entry is not empty. -/
theorem Waits.isEmpty_taskQueue (waits : Waits bound entry steps state) :
    state.taskQueue.isEmpty = false := by
  obtain ⟨-, before, rest, queued, -⟩ := waits
  rw [queued]
  cases before <;> rfl

/-- A step of the loop with the entry in the queue. -/
theorem Waits.run (waits : Waits bound entry steps state) {now : Nat} {outcome : PollOutcome}
    (returning : state.Returning bound (.run now outcome)) :
    Takes entry state (.run now outcome) ∨
      Waits bound entry (steps - 1) (state.runStep now outcome) := by
  obtain ⟨few, returns⟩ := returning
  have stay : state.taskQueue = state.taskQueue ++ [] := (List.append_nil _).symm
  cases pc : state.pc with
  | pop => exact (waits.pop pc now outcome).imp_left fun taken => ⟨rfl, pc, taken⟩
  | waking since due => exact .inr (waits.waking pc now outcome)
  | timers =>
      right
      simp only [runStep, pc]
      refine waits.advance rfl [] stay ?_
      simp only [pendingWakes, pc] at few
      simp only [stepsToPop, pendingWakes, pc, List.length_nil]
      omega
  | loadNoise task =>
      right
      simp only [runStep, pc]
      cases state.noise with
      | true => exact waits.advance rfl [] stay (by simp [stepsToPop, pc])
      | false => exact waits.advance rfl [] stay (by simp [stepsToPop, pc])
  | polling task =>
      right
      simp only [runStep, pc]
      cases outcome with
      | pushes =>
          rw [reenters, pc] at returns
          cases returns
      | returns answer =>
          cases answer with
          | ready => exact waits.advance rfl [] stay (by simp [finishPoll, stepsToPop, pc])
          | pending => exact waits.advance rfl [] stay (by simp [finishPoll, stepsToPop, pc])
  | testQueue ticketsEmpty =>
      right
      simp only [runStep, pc, waits.isEmpty_taskQueue, Bool.and_false]
      exact waits.advance rfl [] stay (by simp [stepsToPop, pc])
  | storeNoise task | startPoll task | testTickets | storeOnline =>
      right
      simp only [runStep, pc]
      exact waits.advance rfl [] stay (by simp [stepsToPop, pc])
  | blocked task | swapNoise | storeOffline | halted =>
      have awake := waits.awake
      rw [pc] at awake
      cases awake

/-- A step of anybody, with the entry in the queue. -/
theorem Waits.next (waits : Waits bound entry steps state) (enabled : state.Enabled event)
    (returning : state.Returning bound event) :
    Takes entry state event ∨ Waits bound entry (steps - loopSteps event) (state.next event) := by
  have resumed : state.resume.pc = state.pc := if_neg fun halted => by
    have awake := waits.awake
    rw [halted] at awake
    cases awake
  have stay : state.taskQueue = state.taskQueue ++ [] := (List.append_nil _).symm
  cases event with
  | run now outcome => exact waits.run returning
  | ipi => exact .inr (waits.grow resumed [] stay fun _ => rfl)
  | otherInterrupt => exact .inr (waits.grow resumed [] stay fun _ => rfl)
  | notify caller task => exact .inr (waits.grow rfl [⟨task, .notified⟩] rfl fun _ => rfl)
  | caller caller =>
      right
      simp only [next, callerStep]
      split <;> exact waits.grow rfl [] stay fun _ => rfl
  | spawn task => exact .inr (waits.grow rfl [⟨task, .direct⟩] rfl fun _ => rfl)
  | wake task | wakeByRef task => exact .inr (waits.grow rfl [⟨task, .woken⟩] rfl fun _ => rfl)
  | cloneWaker task | dropWaker task => exact .inr (waits.grow rfl [] stay fun _ => rfl)
  | ticket deadline waker =>
      refine .inr (waits.grow rfl [] stay fun held => ?_)
      rw [enabled.1] at held
      cases held

/-- Nobody else moves a loop that is not halted. -/
theorem pc_next_of_ne_run (other : ¬ ∃ now outcome, event = .run now outcome)
    (running : state.pc ≠ .halted) : (state.next event).pc = state.pc := by
  cases event with
  | run now outcome => exact absurd ⟨now, outcome, rfl⟩ other
  | ipi | otherInterrupt => exact if_neg running
  | caller caller =>
      simp only [next, callerStep]
      split <;> rfl
  | _ => rfl

theorem Waits.positive (waits : Waits bound entry steps state) : 0 < steps := by
  obtain ⟨awake, before, rest, -, enough⟩ := waits
  have positive : 0 < state.stepsToPop bound := by
    unfold stepsToPop
    cases pc : state.pc <;> simp_all [Pc.awake]
  omega

/-- The task has been taken out of the queue and will be polled in at most `steps` steps. -/
def Taken (task steps : Nat) (state : ExecutorState) : Prop :=
  match state.pc with
  | .loadNoise taken => taken = task ∧ 3 ≤ steps
  | .storeNoise taken => taken = task ∧ 2 ≤ steps
  | .startPoll taken => taken = task ∧ 1 ≤ steps
  | _ => False

/-- The loop starts to poll the task. -/
def Begins (task : Nat) (state : ExecutorState) (event : ExecutorEvent) : Prop :=
  loopSteps event = 1 ∧ state.pc = .startPoll task

/-- The entry is polled after at most `steps` steps of the loop. -/
def Approaches (bound : Nat) (entry : QueueEntry) (steps : Nat) (state : ExecutorState) : Prop :=
  (∃ rest, rest + 3 ≤ steps ∧ Waits bound entry rest state) ∨ Taken entry.task steps state

/-- A step of anybody, with the task taken out of the queue. -/
theorem Taken.next {task : Nat} (taken : Taken task steps state) (event : ExecutorEvent) :
    Begins task state event ∨ Taken task (steps - loopSteps event) (state.next event) := by
  by_cases own : ∃ now outcome, event = .run now outcome
  · obtain ⟨now, outcome, rfl⟩ := own
    unfold Taken at taken
    split at taken
    · rename_i pc
      right
      obtain ⟨rfl, enough⟩ := taken
      simp only [ExecutorState.next, runStep, pc, Taken, loopSteps]
      cases state.noise with
      | true => exact ⟨rfl, by omega⟩
      | false => exact ⟨rfl, by omega⟩
    · rename_i pc
      right
      obtain ⟨rfl, enough⟩ := taken
      simp only [ExecutorState.next, runStep, pc, Taken, loopSteps]
      exact ⟨trivial, by omega⟩
    · rename_i pc
      exact .inl ⟨rfl, by rw [pc, taken.1]⟩
    · exact taken.elim
  · right
    have still : (state.next event).pc = state.pc := pc_next_of_ne_run own fun halted => by
      rw [Taken, halted] at taken
      exact taken
    have none : loopSteps event = 0 := by
      cases event with
      | run now outcome => exact absurd ⟨now, outcome, rfl⟩ own
      | _ => rfl
    unfold Taken at taken ⊢
    rw [still, none]
    exact taken

theorem Approaches.next (approaches : Approaches bound entry steps state)
    (enabled : state.Enabled event) (returning : state.Returning bound event) :
    Begins entry.task state event ∨
      Approaches bound entry (steps - loopSteps event) (state.next event) := by
  rcases approaches with ⟨rest, enough, waits⟩ | taken
  · have positive := waits.positive
    rcases waits.next enabled returning with ⟨own, pc, after, queue⟩ | further
    · right
      right
      cases event with
      | run now outcome =>
          simp only [ExecutorState.next, runStep, pc, queue, Taken, loopSteps]
          exact ⟨trivial, by omega⟩
      | _ => cases own
    · have single : loopSteps event ≤ 1 := by
        unfold loopSteps
        split <;> omega
      exact .inr (.inl ⟨rest - loopSteps event, by omega, further⟩)
  · exact (taken.next event).imp_right .inr

/-- A task that is not polled yet needs a step. -/
theorem not_approaches_zero : ¬ Approaches bound entry 0 state := by
  rintro (⟨rest, enough, -⟩ | taken)
  · omega
  · unfold Taken at taken
    split at taken <;> omega

theorem stepsToPop_le (few : state.pendingWakes ≤ bound) :
    state.stepsToPop bound ≤ bound + 7 := by
  unfold stepsToPop
  split <;> omega

end Step

end ExecutorState

/-! ## Runs of the cluster -/

namespace Cluster

open ExecutorState

/-- The steps of the loop of one executor in an event. -/
def ownSteps (index : Nat) : ClusterEvent → Nat
  | .inside selected event => if selected = index then loopSteps event else 0
  | .register | .spawnOn .. => 0

/-- An event that can happen; at the executor the tickets are bounded and the polls return. -/
def Admits (index bound : Nat) (cluster : Cluster) (event : ClusterEvent) : Prop :=
  cluster.Enabled event ∧
    ∀ step ∈ cluster.local? event, step.1 = index →
      (cluster.executors index).Returning bound step.2

instance (index bound : Nat) (cluster : Cluster) (event : ClusterEvent) :
    Decidable (cluster.Admits index bound event) :=
  inferInstanceAs (Decidable (_ ∧ ∀ step ∈ _, _))

variable {cluster : Cluster} {index bound : Nat} {entry : QueueEntry}

/-- A step of the cluster brings the executor nearer to the poll of a queued task. -/
theorem approaches_next (steps : Nat) (cluster : Cluster) (event : ClusterEvent)
    (approaches : Approaches bound entry steps (cluster.executors index))
    (admitted : cluster.Admits index bound event) :
    (∃ own, cluster.local? event = some (index, own) ∧
        Begins entry.task (cluster.executors index) own) ∨
      Approaches bound entry (steps - ownSteps index event)
        ((cluster.next event).executors index) := by
  obtain ⟨enabled, returning⟩ := admitted
  have taken : ∀ own, cluster.local? event = some (index, own) →
      Begins entry.task (cluster.executors index) own ∨
        Approaches bound entry (steps - loopSteps own) ((cluster.executors index).next own) :=
    fun own concerned => approaches.next (enabled _ concerned).2 (returning _ concerned rfl)
  cases event with
  | register => exact .inr approaches
  | spawnOn function caller task =>
      rcases executors_next (.spawnOn function caller task) index with same | ⟨own, concerned, same⟩
      · rw [same]
        exact .inr approaches
      · obtain ⟨selected, -, pair⟩ := Option.map_eq_some_iff.mp concerned
        obtain ⟨-, rfl⟩ := Prod.mk.inj pair
        rw [same]
        exact (taken _ concerned).imp_left fun begins => ⟨_, concerned, begins⟩
  | inside selected event =>
      by_cases here : selected = index
      · subst here
        rw [ownSteps, if_pos rfl]
        simp only [Cluster.next, nextAt, Function.update_self]
        exact (taken event rfl).imp_left fun begins => ⟨event, rfl, begins⟩
      · rw [ownSteps, if_neg here]
        simp only [Cluster.next, nextAt, Function.update_of_ne (Ne.symm here)]
        exact .inr approaches

/-- A task that is queued at an executor whose loop is awake is polled: the loop needs at most
`bound + 7` steps for each of the tasks before it and for itself, and three more to begin, whatever
the other cores do in the meantime. -/
theorem queued_polled {before after : List QueueEntry} {events : List ClusterEvent}
    (awake : (cluster.executors index).pc.awake = true)
    (queued : (cluster.executors index).taskQueue = before ++ entry :: after)
    (few : (cluster.executors index).pendingWakes ≤ bound)
    (run : Along Cluster.next (Admits index bound) cluster events)
    (enough : (before.length + 1) * (bound + 7) + 3 ≤ (events.map (ownSteps index)).sum) :
    ∃ earlier event later own, events = earlier ++ event :: later ∧
      (earlier.foldl Cluster.next cluster).local? event = some (index, own) ∧
      Begins entry.task ((earlier.foldl Cluster.next cluster).executors index) own := by
  have near : Approaches bound entry ((before.length + 1) * (bound + 7) + 3)
      (cluster.executors index) := by
    refine .inl ⟨_, Nat.le_refl _, awake, before, after, queued, ?_⟩
    have next := stepsToPop_le few
    rw [Nat.succ_mul]
    omega
  obtain ⟨earlier, event, later, split, own, concerned, begins⟩ :=
    Along.exists_goal approaches_next (fun _ => not_approaches_zero) near run enough
  exact ⟨earlier, event, later, own, split, concerned, begins⟩

/-- Two tasks at the first of two executors. -/
def twoQueued : Cluster :=
  [.register, .register, .spawnOn (.spawnSelectedAsyncIndex 0) 0 7,
    .spawnOn (.spawnSelectedAsyncIndex 0) 1 8].foldl Cluster.next (start id)

/-- The other core spawns and goes on with its own loop in the meantime. -/
def disturbed : List ClusterEvent :=
  [.inside 0 (.caller 0), .spawnOn (.spawnSelectedAsyncIndex 0) 2 9,
      .inside 1 (.run 0 (.returns .pending))] ++
    List.replicate 17 (.inside 0 (.run 0 (.returns .pending)))

theorem queued_polled_second :
    ∃ earlier event later own, disturbed = earlier ++ event :: later ∧
      (earlier.foldl Cluster.next twoQueued).local? event = some (0, own) ∧
      Begins 8 ((earlier.foldl Cluster.next twoQueued).executors 0) own :=
  have queued : (twoQueued.executors 0).taskQueue =
      [⟨7, .notified⟩] ++ ⟨8, .notified⟩ :: [] := by decide
  queued_polled (by decide) queued (Nat.le_refl 0) (by decide) (by decide)

end Cluster

end Okots
