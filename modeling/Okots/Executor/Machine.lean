import Mathlib.Data.List.Basic
import Okots.Executor.Basic
import Okots.Library.Reachable
import Okots.UtilTypes

/-!
# The run loop and its environment

One executor as a state machine.  The loop of `Executor::run` advances by single accesses to shared
data.  Other cores push tasks with the spawn functions and with wakers, clone and drop wakers,
register timers and send the interrupt that ends a halt; their steps interleave with the loop in
any order.  The loop holds the lock of its task queue from a successful `pop_front` to the end of
the poll, and the lock of the tickets during `check_timers`.
-/

namespace Okots

open OrderedMultimap TransitionSystem

/-- Who put a task into the queue. -/
inductive Origin where
  /-- One of the three spawn functions that notify the executor. -/
  | notified
  /-- `Executor::spawn` alone. -/
  | direct
  /-- A waker. -/
  | woken
  deriving DecidableEq

/-- A queued task. -/
structure QueueEntry where
  task : Nat
  origin : Origin
  deriving DecidableEq

/-- The next access of the run loop. -/
inductive Pc where
  /-- Lock the tickets and read the clock. -/
  | timers
  /-- Wake the due wakers of a removed entry, then look at the next entry. -/
  | waking (now : Nat) (due : List Waker)
  /-- Lock the queue and pop its front. -/
  | pop
  | loadNoise (task : Nat)
  | storeNoise (task : Nat)
  /-- Make the waker and lock the future. -/
  | startPoll (task : Nat)
  /-- The future is being polled. -/
  | polling (task : Nat)
  /-- The poll waits for the queue lock that its own core holds. -/
  | blocked (task : Nat)
  /-- Interrupts are off; lock the tickets and test whether they are empty. -/
  | testTickets
  | testQueue (ticketsEmpty : Bool)
  | swapNoise
  | storeOffline
  /-- Inside `enable_and_hlt`. -/
  | halted
  | storeOnline
  deriving DecidableEq

namespace Pc

/-- The loop holds the lock of its task queue. -/
def holdsQueue : Pc → Bool
  | .loadNoise _ | .storeNoise _ | .startPoll _ | .polling _ | .blocked _ => true
  | _ => false

/-- The loop holds the lock of the tickets. -/
def holdsTickets : Pc → Bool
  | .waking _ _ => true
  | _ => false

/-- Interrupts are off. -/
def masked : Pc → Bool
  | .testTickets | .testQueue _ | .swapNoise | .storeOffline => true
  | _ => false

/-- The task taken from the queue. -/
def task? : Pc → Option Nat
  | .loadNoise task | .storeNoise task | .startPoll task | .polling task | .blocked task =>
      some task
  | _ => none

/-- The task taken from the queue whose poll has not begun. -/
def waiting? : Pc → Option Nat
  | .loadNoise task | .storeNoise task | .startPoll task => some task
  | _ => none

end Pc

/-- Where a call of a spawn function is. -/
inductive SpawnPhase where
  | idle
  /-- The task has been pushed; swap `noise`. -/
  | pushed
  /-- `noise` was `already`; load `online`. -/
  | swapped (already : Bool)
  /-- Send the interrupt if it is needed. -/
  | decided (needsIpi : Bool)
  deriving DecidableEq

/-- How a poll goes on. -/
inductive PollOutcome where
  | returns (answer : Poll)
  /-- The future pushes a task onto the queue of the executor that polls it. -/
  | pushes
  deriving DecidableEq

/-- One executor, its core and what is in flight towards it. -/
structure ExecutorState where
  /-- The address of the task queue. -/
  address : Nat
  lapicId : Nat
  pc : Pc
  taskQueue : List QueueEntry
  tickets : Tickets
  online : Bool
  noise : Bool
  /-- The interrupt of `executorVector` is pending at the core. -/
  ipiPending : Bool
  /-- The calls of the notifying spawn functions. -/
  callers : Nat → SpawnPhase
  /-- The tasks of the live wakers outside the tickets, once for each waker. -/
  wakers : List Nat
  /-- The tasks spawned so far. -/
  spawned : List Nat
  /-- The tasks whose poll has returned `Ready`. -/
  completed : List Nat
  /-- The tasks that were woken and have not been polled since. -/
  woken : List Nat

/-- A step of the loop, of an interrupt or of another core. -/
inductive ExecutorEvent where
  /-- The loop advances; `now` is the clock and `outcome` how a poll goes on. -/
  | run (now : Nat) (outcome : PollOutcome)
  /-- The pending interrupt is taken. -/
  | ipi
  /-- Another interrupt ends the halt. -/
  | otherInterrupt
  /-- A notifying spawn function pushes its task. -/
  | notify (caller task : Nat)
  /-- A notifying spawn function goes on. -/
  | caller (caller : Nat)
  /-- `Executor::spawn` is called directly. -/
  | spawn (task : Nat)
  | wake (task : Nat)
  | wakeByRef (task : Nat)
  | cloneWaker (task : Nat)
  | dropWaker (task : Nat)
  /-- A waker is put into the tickets. -/
  | ticket (deadline : Nat) (waker : Waker)

namespace ExecutorState

/-- The state made by `Executor::new`. -/
def new (address lapicId : Nat) : ExecutorState where
  address := address
  lapicId := lapicId
  pc := .timers
  taskQueue := []
  tickets := Multimap.empty
  online := true
  noise := false
  ipiPending := false
  callers := fun _ => .idle
  wakers := []
  spawned := []
  completed := []
  woken := []

variable (state : ExecutorState)

/-- Push a task at the back of the queue. -/
def push (task : Nat) (origin : Origin) : ExecutorState :=
  { state with taskQueue := state.taskQueue ++ [⟨task, origin⟩] }

/-- Push a new task. -/
def pushNew (task : Nat) (origin : Origin) : ExecutorState :=
  { state.push task origin with spawned := task :: state.spawned }

/-- Push a task through one of its wakers. -/
def pushWoken (task : Nat) : ExecutorState :=
  { state.push task .woken with woken := task :: state.woken }

/-- Wake a waker taken from the tickets; a foreign waker changes another executor. -/
def wakeTicket (waker : Waker) : ExecutorState :=
  if waker.queue = state.address then state.pushWoken waker.task else state

/-- The end of a poll: the waker made for it is dropped. -/
def finishPoll (task : Nat) : Poll → ExecutorState
  | .ready =>
      { state with
        pc := .timers
        wakers := state.wakers.erase task
        completed := task :: state.completed }
  | .pending => { state with pc := .timers, wakers := state.wakers.erase task }

/-- The next access of `Executor::run`.  A halted loop waits for an interrupt, a blocked one for
ever. -/
def runStep (now : Nat) (outcome : PollOutcome) : ExecutorState :=
  match state.pc with
  | .timers => { state with pc := .waking now [] }
  | .waking now (waker :: due) => { state.wakeTicket waker with pc := .waking now due }
  | .waking now [] =>
      match state.tickets.entries with
      | [] => { state with pc := .pop }
      | (deadline, due) :: _ =>
          if deadline ≤ now then
            { state with tickets := state.tickets.removeFirst, pc := .waking now due }
          else
            { state with pc := .pop }
  | .pop =>
      match state.taskQueue with
      | [] => { state with pc := .testTickets }
      | entry :: rest => { state with taskQueue := rest, pc := .loadNoise entry.task }
  | .loadNoise task =>
      { state with pc := if state.noise then .storeNoise task else .startPoll task }
  | .storeNoise task => { state with noise := false, pc := .startPoll task }
  | .startPoll task =>
      { state with
        pc := .polling task
        wakers := task :: state.wakers
        woken := state.woken.filter (· ≠ task) }
  | .polling task =>
      match outcome with
      | .returns answer => state.finishPoll task answer
      | .pushes => { state with pc := .blocked task }
  | .blocked _ => state
  | .testTickets => { state with pc := .testQueue state.tickets.entries.isEmpty }
  | .testQueue ticketsEmpty =>
      { state with
        pc := if ticketsEmpty && state.taskQueue.isEmpty then .swapNoise else .timers }
  | .swapNoise =>
      { state with noise := false, pc := if state.noise then .timers else .storeOffline }
  | .storeOffline => { state with online := false, pc := .halted }
  | .halted => state
  | .storeOnline => { state with online := true, pc := .timers }

/-- The next step of a notifying spawn function, shared by all three of them. -/
def callerStep (caller : Nat) : ExecutorState :=
  match state.callers caller with
  | .idle => state
  | .pushed =>
      { state with
        noise := true
        callers := Function.update state.callers caller (.swapped state.noise) }
  | .swapped already =>
      { state with
        callers := Function.update state.callers caller (.decided (!already || !state.online)) }
  | .decided needsIpi =>
      { state with
        ipiPending := state.ipiPending || needsIpi
        callers := Function.update state.callers caller .idle }

/-- An interrupt returns from the halt. -/
def resume : ExecutorState :=
  { state with pc := if state.pc = .halted then .storeOnline else state.pc }

/-- Put a waker into the tickets; a waker of this executor is no longer held elsewhere. -/
def addTicket (deadline : Nat) (waker : Waker) : ExecutorState :=
  { state with
    tickets := state.tickets.push deadline waker
    wakers :=
      if waker.queue = state.address then state.wakers.erase waker.task else state.wakers }

/-- When a step can be taken.  Interrupts wait until they are enabled, a push waits for the lock of
the queue, a new ticket for the lock of the tickets; a new task has a new name, and only live wakers
are used. -/
def Enabled : ExecutorEvent → Prop
  | .run _ _ | .caller _ => True
  | .ipi => state.ipiPending ∧ state.pc.masked = false
  | .otherInterrupt => state.pc.masked = false
  | .notify caller task =>
      state.callers caller = .idle ∧ state.pc.holdsQueue = false ∧ task ∉ state.spawned
  | .spawn task => state.pc.holdsQueue = false ∧ task ∉ state.spawned
  | .wake task | .wakeByRef task => state.pc.holdsQueue = false ∧ task ∈ state.wakers
  | .cloneWaker task | .dropWaker task => task ∈ state.wakers
  | .ticket _ waker =>
      state.pc.holdsTickets = false ∧ (waker.queue = state.address → waker.task ∈ state.wakers)

instance (event : ExecutorEvent) : Decidable (state.Enabled event) :=
  match event with
  | .run _ _ | .caller _ => .isTrue trivial
  | .ipi | .spawn _ | .wake _ | .wakeByRef _ => inferInstanceAs (Decidable (_ ∧ _))
  | .otherInterrupt => inferInstanceAs (Decidable (_ = _))
  | .notify _ _ => inferInstanceAs (Decidable (_ ∧ _ ∧ _))
  | .cloneWaker _ | .dropWaker _ => inferInstanceAs (Decidable (_ ∈ _))
  | .ticket _ _ => inferInstanceAs (Decidable (_ ∧ (_ → _)))

/-- The state after a step. -/
def next : ExecutorEvent → ExecutorState
  | .run now outcome => state.runStep now outcome
  | .ipi => { state.resume with ipiPending := false }
  | .otherInterrupt => state.resume
  | .notify caller task =>
      { state.pushNew task .notified with
        callers := Function.update state.callers caller .pushed }
  | .caller caller => state.callerStep caller
  | .spawn task => state.pushNew task .direct
  | .wake task => { state.pushWoken task with wakers := state.wakers.erase task }
  | .wakeByRef task => state.pushWoken task
  | .cloneWaker task => { state with wakers := task :: state.wakers }
  | .dropWaker task => { state with wakers := state.wakers.erase task }
  | .ticket deadline waker => state.addTicket deadline waker

/-- A step whose event meets `condition` in the state before. -/
def StepsWith (condition : ExecutorState → ExecutorEvent → Prop) (state after : ExecutorState) :
    Prop :=
  ∃ event, condition state event ∧ state.Enabled event ∧ state.next event = after

end ExecutorState

/-- The executors of all cores and the counter of `ASYNC_LIST`.  The executors below `len` are
registered; the others have not been made. -/
structure Cluster where
  executors : Nat → ExecutorState
  len : Nat
  counter : Nat

/-- The three functions that spawn on a registered executor and notify it. -/
inductive SpawnFunction where
  | spawnGlobal
  | spawnSelectedAsyncIndex (index : Nat)
  | spawnSelectedLapicId (id : Nat)

/-- A step of one executor, or of the list of executors. -/
inductive ClusterEvent where
  /-- `Executor::new` registers the next executor. -/
  | register
  /-- A spawn function selects its executor and pushes the task. -/
  | spawnOn (function : SpawnFunction) (caller task : Nat)
  /-- Any step of one registered executor. -/
  | inside (index : Nat) (event : ExecutorEvent)

namespace Cluster

/-- Executors with the given local APIC ids, none registered. -/
def start (lapicId : Nat → Nat) : Cluster :=
  ⟨fun index => .new index (lapicId index), 0, 0⟩

variable (cluster : Cluster)

/-- The executor a spawn function selects, unless it returns `false`. -/
def target : SpawnFunction → Option Nat
  | .spawnGlobal => if cluster.len = 0 then none else some (cluster.counter % cluster.len)
  | .spawnSelectedAsyncIndex index => if cluster.len ≤ index then none else some index
  | .spawnSelectedLapicId id =>
      (List.range cluster.len).find? fun index => (cluster.executors index).lapicId = id

/-- The counter after a spawn function has selected its executor. -/
def countUp : SpawnFunction → Nat
  | .spawnGlobal => (cluster.counter + 1) % usizeCount
  | .spawnSelectedAsyncIndex _ | .spawnSelectedLapicId _ => cluster.counter

/-- One executor takes a step. -/
def nextAt (index : Nat) (event : ExecutorEvent) : Cluster :=
  { cluster with
    executors :=
      Function.update cluster.executors index ((cluster.executors index).next event) }

/-- The executor that takes the step, with its own event. -/
def local? : ClusterEvent → Option (Nat × ExecutorEvent)
  | .register => none
  | .spawnOn function caller task =>
      (cluster.target function).map fun index => (index, .notify caller task)
  | .inside index event => some (index, event)

/-- When a step can be taken: only registered executors run. -/
def Enabled (event : ClusterEvent) : Prop :=
  ∀ step ∈ cluster.local? event,
    step.1 < cluster.len ∧ (cluster.executors step.1).Enabled step.2

/-- The cluster after a step.  A spawn function that finds no executor returns `false`. -/
def next : ClusterEvent → Cluster
  | .register => { cluster with len := cluster.len + 1 }
  | .spawnOn function caller task =>
      match cluster.target function with
      | none => cluster
      | some index =>
          { cluster.nextAt index (.notify caller task) with counter := cluster.countUp function }
  | .inside index event => cluster.nextAt index event

/-- The executor that takes the step meets `condition`. -/
def Meets (condition : ExecutorState → ExecutorEvent → Prop) (event : ClusterEvent) : Prop :=
  ∀ step ∈ cluster.local? event, condition (cluster.executors step.1) step.2

/-- A step whose event meets `condition` in the state before. -/
def StepsWith (condition : ExecutorState → ExecutorEvent → Prop) (cluster after : Cluster) : Prop :=
  ∃ event, cluster.Meets condition event ∧ cluster.Enabled event ∧ cluster.next event = after

/-- The clusters reached by steps that meet `condition`. -/
def Reaches (condition : ExecutorState → ExecutorEvent → Prop) (cluster : Cluster) : Prop :=
  ∃ lapicId, Reachable (· = start lapicId) (StepsWith condition) cluster

variable {cluster} {condition : ExecutorState → ExecutorEvent → Prop}

/-- A step of the cluster is the step of the executor it concerns; the others stay. -/
theorem executors_next (event : ClusterEvent) (index : Nat) :
    (cluster.next event).executors index = cluster.executors index ∨
      ∃ own, cluster.local? event = some (index, own) ∧
        (cluster.next event).executors index = (cluster.executors index).next own := by
  have moved : ∀ selected own, cluster.local? event = some (selected, own) →
      (cluster.next event).executors = (cluster.nextAt selected own).executors →
      (cluster.next event).executors index = cluster.executors index ∨
        ∃ own, cluster.local? event = some (index, own) ∧
          (cluster.next event).executors index = (cluster.executors index).next own := by
    intro selected own concerned same
    rw [same]
    by_cases here : index = selected
    · subst here
      exact .inr ⟨own, concerned, by simp [nextAt]⟩
    · exact .inl (by simp [nextAt, here])
  cases event with
  | register => exact .inl rfl
  | spawnOn function caller task =>
      cases found : cluster.target function with
      | none => exact .inl (by simp [next, found])
      | some selected =>
          exact moved selected (.notify caller task) (by simp [local?, found])
            (by simp [next, found])
  | inside selected event => exact moved selected event rfl rfl

theorem executors_stepsWith {after : Cluster} (stepped : StepsWith condition cluster after)
    (index : Nat) :
    after.executors index = cluster.executors index ∨
      ExecutorState.StepsWith condition (cluster.executors index) (after.executors index) := by
  obtain ⟨event, meets, enabled, rfl⟩ := stepped
  refine (executors_next event index).imp_right ?_
  rintro ⟨own, concerned, same⟩
  exact ⟨own, meets _ concerned, (enabled _ concerned).2, same.symm⟩

/-- Every executor of a reached cluster has been reached on its own. -/
theorem Reaches.executor (reached : Reaches condition cluster) (index : Nat) :
    ∃ lapicId, Reachable (· = .new index lapicId) (ExecutorState.StepsWith condition)
      (cluster.executors index) := by
  obtain ⟨lapicId, reached⟩ := reached
  refine ⟨lapicId index, ?_⟩
  induction reached with
  | start holds => exact .start (by rw [holds]; rfl)
  | next _ taken induction =>
      rcases executors_stepsWith taken index with same | stepped
      · rw [same]
        exact induction
      · exact induction.next stepped

instance (event : ClusterEvent) : Decidable (cluster.Enabled event) :=
  inferInstanceAs (Decidable (∀ step ∈ _, _))

instance [∀ state event, Decidable (condition state event)] (event : ClusterEvent) :
    Decidable (cluster.Meets condition event) :=
  inferInstanceAs (Decidable (∀ step ∈ _, _))

/-- Perform a list of events, each of which has to be enabled and to meet `condition`. -/
def runWith (condition : ExecutorState → ExecutorEvent → Prop)
    [∀ state event, Decidable (condition state event)] :
    List ClusterEvent → Cluster → Option Cluster
  | [], cluster => some cluster
  | event :: rest, cluster =>
      if cluster.Meets condition event ∧ cluster.Enabled event then
        runWith condition rest (cluster.next event)
      else none

theorem reachable_runWith {lapicId : Nat → Nat}
    [∀ state event, Decidable (condition state event)] (events : List ClusterEvent) :
    ∀ cluster after, Reachable (· = start lapicId) (StepsWith condition) cluster →
      runWith condition events cluster = some after →
      Reachable (· = start lapicId) (StepsWith condition) after := by
  induction events with
  | nil =>
      intro cluster after reached ran
      obtain rfl := Option.some.inj ran
      exact reached
  | cons event rest induction =>
      intro cluster after reached ran
      rw [runWith] at ran
      split at ran
      · rename_i allowed
        exact induction _ after (reached.next ⟨event, allowed.1, allowed.2, rfl⟩) ran
      · cases ran

/-- A run that can be evaluated reaches the cluster it ends in. -/
theorem reaches_of_runWith (condition : ExecutorState → ExecutorEvent → Prop)
    [∀ state event, Decidable (condition state event)] (lapicId : Nat → Nat)
    (events : List ClusterEvent) (check : Cluster → Bool)
    (ran : (runWith condition events (start lapicId)).any check = true) :
    ∃ cluster, Reaches condition cluster ∧ check cluster = true := by
  obtain ⟨cluster, ends, checked⟩ := (Option.any_eq_true _ _).mp ran
  exact ⟨cluster, ⟨lapicId, reachable_runWith events _ _ (.start rfl) ends⟩, checked⟩

end Cluster
end Okots
