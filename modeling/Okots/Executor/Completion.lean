import Okots.Executor.Machine

/-!
# Completed tasks

A waker pushes its task whether or not the task is queued or has completed.  A run is orderly when
no waker of a completed task is woken and no task completes while it is still queued.  In an orderly
run no completed task is polled.  Two wakers of one task are enough to leave the orderly runs.
-/

namespace Okots

open OrderedMultimap TransitionSystem

/-- The wakers still to be woken by `check_timers`. -/
def Pc.due : Pc → List Waker
  | .waking _ due => due
  | _ => []

namespace ExecutorState

/-- The access of the run loop wakes no completed task, and completes no queued task. -/
def OrderlyRun (state : ExecutorState) (outcome : PollOutcome) : Prop :=
  (∀ waker ∈ state.pc.due.head?, waker.queue = state.address → waker.task ∉ state.completed) ∧
    (outcome = .returns .ready →
      ∀ task ∈ state.pc.task?, ∀ entry ∈ state.taskQueue, entry.task ≠ task)

/-- No waker of a completed task is woken, and no task completes while it is still queued. -/
def Orderly (state : ExecutorState) : ExecutorEvent → Prop
  | .run _ outcome => state.OrderlyRun outcome
  | .wake task | .wakeByRef task => task ∉ state.completed
  | _ => True

instance (state : ExecutorState) (outcome : PollOutcome) : Decidable (state.OrderlyRun outcome) :=
  inferInstanceAs (Decidable ((∀ waker ∈ _, _ → _) ∧ (_ → ∀ task ∈ _, ∀ entry ∈ _, _)))

instance (state : ExecutorState) (event : ExecutorEvent) : Decidable (state.Orderly event) :=
  match event with
  | .run _ outcome => inferInstanceAs (Decidable (state.OrderlyRun outcome))
  | .wake _ | .wakeByRef _ => inferInstanceAs (Decidable (_ ∉ _))
  | .ipi | .otherInterrupt | .notify _ _ | .caller _ | .spawn _ | .cloneWaker _ | .dropWaker _
  | .ticket _ _ => .isTrue trivial

/-- Every task that can be polled again has been spawned and has not completed. -/
structure Tracked (state : ExecutorState) : Prop where
  queued : ∀ entry ∈ state.taskQueue, entry.task ∈ state.spawned ∧ entry.task ∉ state.completed
  current : ∀ task ∈ state.pc.task?, task ∈ state.spawned ∧ task ∉ state.completed
  held : ∀ task ∈ state.wakers, task ∈ state.spawned
  ticketed : ∀ ticket ∈ state.tickets.pairs, ticket.2.queue = state.address →
    ticket.2.task ∈ state.spawned
  due : ∀ waker ∈ state.pc.due, waker.queue = state.address → waker.task ∈ state.spawned
  finished : ∀ task ∈ state.completed, task ∈ state.spawned

/-- The components that `Tracked` reads, apart from the program counter. -/
def taskData (state : ExecutorState) :
    Nat × List QueueEntry × List Nat × Tickets × List Nat × List Nat :=
  (state.address, state.taskQueue, state.wakers, state.tickets, state.spawned, state.completed)

variable {state after : ExecutorState}

theorem new_tracked (address lapicId : Nat) : (new address lapicId).Tracked := by
  constructor <;> simp [new, Pc.task?, Pc.due]

/-- A step that changes only flags and moves the loop without taking a task or a waker. -/
theorem Tracked.frame (tracked : state.Tracked) (same : after.taskData = state.taskData)
    (task : ∀ task ∈ after.pc.task?, task ∈ state.pc.task?)
    (due : ∀ waker ∈ after.pc.due, waker ∈ state.pc.due) : after.Tracked := by
  simp only [taskData, Prod.mk.injEq] at same
  obtain ⟨address, taskQueue, wakers, tickets, spawned, completed⟩ := same
  refine ⟨?_, ?_, ?_, ?_, ?_, ?_⟩
  · rw [taskQueue, spawned, completed]
    exact tracked.queued
  · rw [spawned, completed]
    exact fun taken member => tracked.current taken (task taken member)
  · rw [wakers, spawned]
    exact tracked.held
  · rw [tickets, address, spawned]
    exact tracked.ticketed
  · rw [address, spawned]
    exact fun waker member => tracked.due waker (due waker member)
  · rw [completed, spawned]
    exact tracked.finished

/-- A live task may be pushed. -/
theorem Tracked.push (tracked : state.Tracked) {task : Nat} (spawned : task ∈ state.spawned)
    (live : task ∉ state.completed) (origin : Origin) : (state.push task origin).Tracked where
  queued entry member := by
    rcases List.mem_append.mp member with old | new
    · exact tracked.queued entry old
    · rw [List.mem_singleton.mp new]
      exact ⟨spawned, live⟩
  current := tracked.current
  held := tracked.held
  ticketed := tracked.ticketed
  due := tracked.due
  finished := tracked.finished

/-- A task with a new name may be spawned. -/
theorem Tracked.spawn (tracked : state.Tracked) (task : Nat) :
    ({ state with spawned := task :: state.spawned } : ExecutorState).Tracked where
  queued entry member := (tracked.queued entry member).imp_left (List.mem_cons_of_mem _)
  current taken member := (tracked.current taken member).imp_left (List.mem_cons_of_mem _)
  held waker member := List.mem_cons_of_mem _ (tracked.held waker member)
  ticketed ticket member own := List.mem_cons_of_mem _ (tracked.ticketed ticket member own)
  due waker member own := List.mem_cons_of_mem _ (tracked.due waker member own)
  finished done member := List.mem_cons_of_mem _ (tracked.finished done member)

theorem Tracked.pushNew (tracked : state.Tracked) {task : Nat} (fresh : task ∉ state.spawned)
    (origin : Origin) : (state.pushNew task origin).Tracked :=
  (tracked.spawn task).push List.mem_cons_self (fun done => fresh (tracked.finished task done))
    origin

/-- The set of live wakers may lose wakers and gain wakers of spawned tasks. -/
theorem Tracked.withWakers (tracked : state.Tracked) {wakers : List Nat}
    (known : ∀ task ∈ wakers, task ∈ state.spawned) :
    ({ state with wakers } : ExecutorState).Tracked :=
  ⟨tracked.queued, tracked.current, known, tracked.ticketed, tracked.due, tracked.finished⟩

theorem Tracked.withTickets (tracked : state.Tracked) {tickets : Tickets}
    (known : ∀ ticket ∈ tickets.pairs, ticket.2.queue = state.address →
      ticket.2.task ∈ state.spawned) :
    ({ state with tickets } : ExecutorState).Tracked :=
  ⟨tracked.queued, tracked.current, tracked.held, known, tracked.due, tracked.finished⟩

theorem pc_wakeTicket (waker : Waker) : (state.wakeTicket waker).pc = state.pc := by
  unfold wakeTicket
  split <;> rfl

theorem Tracked.wakeTicket (tracked : state.Tracked) {waker : Waker}
    (spawned : waker.queue = state.address → waker.task ∈ state.spawned)
    (live : waker.queue = state.address → waker.task ∉ state.completed) :
    (state.wakeTicket waker).Tracked := by
  unfold ExecutorState.wakeTicket
  split
  · rename_i own
    exact (tracked.push (spawned own) (live own) .woken).frame rfl (fun _ => id) (fun _ => id)
  · exact tracked

/-- The end of a poll completes a task that is not queued, or completes none. -/
theorem Tracked.finishPoll (tracked : state.Tracked) {task : Nat}
    (current : task ∈ state.pc.task?) (answer : Poll)
    (last : answer = .ready → ∀ entry ∈ state.taskQueue, entry.task ≠ task) :
    (state.finishPoll task answer).Tracked := by
  have known : ∀ other ∈ state.wakers.erase task, other ∈ state.spawned :=
    fun other member => tracked.held other (List.mem_of_mem_erase member)
  have dropped := tracked.withWakers known
  cases answer with
  | pending =>
      refine dropped.frame rfl ?_ ?_ <;> simp [ExecutorState.finishPoll, Pc.task?, Pc.due]
  | ready =>
      refine ⟨?_, by simp [ExecutorState.finishPoll, Pc.task?], dropped.held, dropped.ticketed,
        by simp [ExecutorState.finishPoll, Pc.due], ?_⟩
      · intro entry member
        obtain ⟨spawned, live⟩ := tracked.queued entry member
        exact ⟨spawned, List.not_mem_cons_of_ne_of_not_mem (last rfl entry member) live⟩
      · intro done member
        rcases List.mem_cons.mp member with rfl | earlier
        · exact (tracked.current done current).1
        · exact tracked.finished done earlier

/-- Taking the first ticket entry moves its wakers to the loop. -/
theorem Tracked.takeEntry (tracked : state.Tracked) {deadline now : Nat} {due : List Waker}
    {rest : List (Nat × List Waker)} (first : state.tickets.entries = (deadline, due) :: rest) :
    ({ state with
      tickets := state.tickets.removeFirst, pc := .waking now due } : ExecutorState).Tracked := by
  have split : state.tickets.pairs = due.map (deadline, ·) ++ entryPairs rest := by
    rw [Multimap.pairs, first, entryPairs_cons]
  refine ⟨tracked.queued, by simp [Pc.task?], tracked.held, ?_, ?_, tracked.finished⟩
  · intro ticket member
    refine tracked.ticketed ticket ?_
    rw [split]
    refine List.mem_append_right _ ?_
    simpa only [Multimap.pairs, Multimap.removeFirst, first, List.tail_cons] using member
  · intro waker member
    refine tracked.ticketed (deadline, waker) ?_
    rw [split]
    exact List.mem_append_left _ (List.mem_map_of_mem member)

/-- Taking a task from the queue. -/
theorem Tracked.takeTask (tracked : state.Tracked) {entry : QueueEntry} {rest : List QueueEntry}
    (front : state.taskQueue = entry :: rest) :
    ({ state with taskQueue := rest, pc := .loadNoise entry.task } : ExecutorState).Tracked := by
  have queued := tracked.queued
  rw [front] at queued
  refine ⟨fun other member => queued other (List.mem_cons_of_mem _ member), ?_, tracked.held,
    tracked.ticketed, by simp [Pc.due], tracked.finished⟩
  intro task member
  obtain rfl : entry.task = task := by simpa [Pc.task?] using member
  exact queued entry List.mem_cons_self

/-- The run loop keeps track of its tasks. -/
theorem Tracked.runStep (tracked : state.Tracked) (now : Nat) {outcome : PollOutcome}
    (orderly : state.OrderlyRun outcome) : (state.runStep now outcome).Tracked := by
  unfold ExecutorState.runStep
  split
  case h_2 clock waker due atPc =>
    have known : waker.queue = state.address → waker.task ∈ state.spawned :=
      tracked.due waker (by simp [atPc, Pc.due])
    have live := orderly.1 waker (by simp [atPc, Pc.due])
    refine (tracked.wakeTicket known live).frame rfl (by simp [Pc.task?]) ?_
    intro other member
    rw [pc_wakeTicket, atPc]
    exact List.mem_cons_of_mem _ member
  case h_3 clock atPc =>
    split
    · exact tracked.frame rfl (by simp [Pc.task?]) (by simp [Pc.due])
    · rename_i first
      split
      · exact tracked.takeEntry first
      · exact tracked.frame rfl (by simp [Pc.task?]) (by simp [Pc.due])
  case h_4 atPc =>
    split
    · exact tracked.frame rfl (by simp [Pc.task?]) (by simp [Pc.due])
    · rename_i front
      exact tracked.takeTask front
  case h_7 task atPc =>
    have current : task ∈ state.spawned := (tracked.current task (by simp [atPc, Pc.task?])).1
    refine (tracked.withWakers (List.forall_mem_cons.mpr ⟨current, tracked.held⟩)).frame rfl
      ?_ ?_ <;> simp [atPc, Pc.task?, Pc.due]
  case h_8 task atPc =>
    have current : task ∈ state.pc.task? := by simp [atPc, Pc.task?]
    split
    · refine tracked.finishPoll current _ fun ready => ?_
      exact orderly.2 (by rw [ready]) task current
    · exact tracked.frame rfl (by simp [atPc, Pc.task?]) (by simp [Pc.due])
  all_goals
    rename_i atPc
    refine tracked.frame rfl ?_ ?_ <;> (try split) <;> simp_all [Pc.task?, Pc.due]

theorem Tracked.callerStep (tracked : state.Tracked) (caller : Nat) :
    (state.callerStep caller).Tracked := by
  unfold ExecutorState.callerStep
  split <;> exact tracked.frame rfl (fun _ => id) (fun _ => id)

theorem Tracked.addTicket (tracked : state.Tracked) (deadline : Nat) {waker : Waker}
    (live : waker.queue = state.address → waker.task ∈ state.wakers) :
    (state.addTicket deadline waker).Tracked := by
  have known : ∀ ticket ∈ (state.tickets.push deadline waker).pairs,
      ticket.2.queue = state.address → ticket.2.task ∈ state.spawned := by
    intro ticket member own
    rcases List.mem_cons.mp ((Multimap.pairs_push _ _ _).mem_iff.mp member) with rfl | old
    · exact tracked.held _ (live own)
    · exact tracked.ticketed ticket old own
  refine (tracked.withTickets known).withWakers fun task member => tracked.held task ?_
  split at member
  · exact List.mem_of_mem_erase member
  · exact member

/-- Every step of an orderly run keeps track of the tasks. -/
theorem Tracked.next (tracked : state.Tracked) {event : ExecutorEvent}
    (orderly : state.Orderly event) (enabled : state.Enabled event) :
    (state.next event).Tracked := by
  cases event with
  | run now outcome => exact tracked.runStep now orderly
  | ipi | otherInterrupt =>
      refine tracked.frame rfl ?_ ?_ <;> simp only [ExecutorState.next, resume] <;> split <;>
        simp [Pc.task?, Pc.due]
  | notify caller task =>
      exact (tracked.pushNew enabled.2.2 .notified).frame rfl (fun _ => id) (fun _ => id)
  | caller caller => exact tracked.callerStep caller
  | spawn task => exact tracked.pushNew enabled.2 .direct
  | wake task =>
      have pushed := tracked.push (tracked.held task enabled.2) orderly .woken
      have known : ∀ other ∈ state.wakers.erase task, other ∈ state.spawned :=
        fun other member => tracked.held other (List.mem_of_mem_erase member)
      exact (pushed.withWakers known).frame rfl (fun _ => id) (fun _ => id)
  | wakeByRef task =>
      have pushed := tracked.push (tracked.held task enabled.2) orderly .woken
      exact pushed.frame rfl (fun _ => id) (fun _ => id)
  | cloneWaker task =>
      exact tracked.withWakers
        (List.forall_mem_cons.mpr ⟨tracked.held task enabled, tracked.held⟩)
  | dropWaker task =>
      exact tracked.withWakers fun other member => tracked.held other (List.mem_of_mem_erase member)
  | ticket deadline waker => exact tracked.addTicket deadline enabled.2

/-- Every state of an orderly run keeps track of the tasks. -/
theorem tracked_of_reachable {address lapicId : Nat}
    (reached : Reachable (· = new address lapicId) (StepsWith Orderly) state) : state.Tracked := by
  refine reached.invariant ?_ ?_
  · rintro _ rfl
    exact new_tracked address lapicId
  · rintro state after - tracked ⟨event, orderly, enabled, rfl⟩
    exact tracked.next orderly enabled

end ExecutorState

namespace Cluster

/-- In every orderly run, with any number of executors and cores, no executor polls a task whose
poll has returned `Ready`. -/
theorem completed_not_polled {cluster : Cluster} (reached : cluster.Reaches ExecutorState.Orderly)
    (index task : Nat) (polled : (cluster.executors index).pc = .polling task) :
    task ∉ (cluster.executors index).completed := by
  obtain ⟨lapicId, own⟩ := reached.executor index
  exact ((ExecutorState.tracked_of_reachable own).current task (by simp [polled, Pc.task?])).2

/-- The loop of executor 0 from the start of an iteration to the poll of the first queued task. -/
def runToPoll : List ClusterEvent :=
  List.replicate 5 (.inside 0 (.run 0 .pushes))

/-- The poll by executor 0 returns. -/
def pollReturns (answer : Poll) : ClusterEvent := .inside 0 (.run 0 (.returns answer))

/-- Task 0 is spawned on executor 0, waits for its waker, is woken and polled a second time. -/
def wokenOnce : List ClusterEvent :=
  [.register, .spawnOn .spawnGlobal 0 0] ++ runToPoll ++
    [.inside 0 (.cloneWaker 0), pollReturns .pending, .inside 0 (.wake 0)] ++ runToPoll

/-- A second poll is reached by an orderly run, and the task has not completed. -/
theorem completed_not_polled_wokenOnce :
    ∃ cluster : Cluster, cluster.Reaches ExecutorState.Orderly ∧
      (cluster.executors 0).pc = .polling 0 ∧ 0 ∉ (cluster.executors 0).completed := by
  obtain ⟨cluster, reached, polled⟩ := reaches_of_runWith ExecutorState.Orderly
    (fun index => index) wokenOnce (fun cluster => (cluster.executors 0).pc = .polling 0)
    (by decide)
  have polled : (cluster.executors 0).pc = .polling 0 := by simpa using polled
  exact ⟨cluster, reached, polled, completed_not_polled reached 0 0 polled⟩

/-- Task 0 is woken through two wakers between two polls and completes in the first of the two polls
that follow. -/
def wokenTwice : List ClusterEvent :=
  [.register, .spawnOn .spawnGlobal 0 0] ++ runToPoll ++
    [.inside 0 (.cloneWaker 0), pollReturns .pending, .inside 0 (.wakeByRef 0),
      .inside 0 (.wake 0)] ++ runToPoll ++ [pollReturns .ready] ++ runToPoll

/-- Two wakes of one task make the executor poll it after it has completed. -/
theorem completed_polled_wokenTwice :
    ∃ cluster : Cluster, cluster.Reaches (fun _ _ => True) ∧
      (cluster.executors 0).pc = .polling 0 ∧ 0 ∈ (cluster.executors 0).completed := by
  obtain ⟨cluster, reached, checked⟩ := reaches_of_runWith (fun _ _ => True)
    (fun index => index) wokenTwice
    (fun cluster => (cluster.executors 0).pc = .polling 0 ∧ 0 ∈ (cluster.executors 0).completed)
    (by decide)
  exact ⟨cluster, reached, by simpa using checked⟩

end Cluster
end Okots
