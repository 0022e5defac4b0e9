import Mathlib.Tactic.Common
import Okots.Executor.Basic
import Okots.Library.Mutex
import Okots.Library.Reachable

/-!
# The locks of the run loop

The spin locks that one core takes in `Executor::run` and in the futures it polls.  A guard that is
a temporary of an `if let` scrutinee lives to the end of the block it guards and is dropped before
`else`.  So the task queue stays locked during a poll, and the waker slot of a `JoinInner` stays
locked while its waker is woken.

The only lock that a core can meet again is that of its own task queue: a poll must not push onto
it.  Every other combination of operations and locks is safe.
-/

namespace Okots

open OrderedMultimap StateExec StateExec.Mutex TransitionSystem

/-- The spin mutexes of the executor. -/
inductive SpinMutex where
  | taskQueue (address : Nat)
  | tickets (address : Nat)
  | joinData (task : Nat)
  | joinWaker (task : Nat)
  | future (task : Nat)
  deriving DecidableEq

/-- What a task shares with its `JoinHandle`. -/
structure JoinInner where
  /-- The result has been stored and not taken. -/
  data : Bool
  waker : Option Waker

/-- The data behind the locks.  The `JoinInner` of a task is named by the task. -/
structure LockedData where
  heap : SharedHeap
  joins : Nat → JoinInner
  nextTask : Nat

/-- Programs of one core. -/
abbrev Locked (α : Type) := Exec (Holding SpinMutex LockedData) SpinMutex α

namespace LockedData

variable (data : LockedData)

def wake (waker : Waker) : LockedData := { data with heap := data.heap.wake waker }

/-- Make a task and its `JoinInner`. -/
def makeTask : LockedData :=
  { data with
    joins := Function.update data.joins data.nextTask ⟨false, none⟩
    nextTask := data.nextTask + 1 }

def setJoin (task : Nat) (inner : JoinInner) : LockedData :=
  { data with joins := Function.update data.joins task inner }

/-- The effect of `JoinHandle::poll`. -/
def pollJoin (task : Nat) (waker : Waker) : LockedData :=
  if (data.joins task).data then data.setJoin task { data.joins task with data := false }
  else data.setJoin task { data.joins task with waker := some waker }

def setTickets (address : Nat) (tickets : Tickets) : LockedData :=
  { data with heap.tickets := Function.update data.heap.tickets address tickets }

/-- Take the front of a queue. -/
def popFront (address : Nat) : LockedData :=
  { data with
    heap.queues := Function.update data.heap.queues address (data.heap.queues address).tail }

/-- The effect of `check_timers` on the tickets at `address`. -/
def checkTimers (address now : Nat) : LockedData :=
  (((data.heap.tickets address).drain now).1.map Prod.snd).foldl wake
    (data.setTickets address ((data.heap.tickets address).drain now).2)

end LockedData

/-- `wake` and `wake_by_ref`. -/
def Waker.wake (waker : Waker) : Locked Unit :=
  withLock (.taskQueue waker.queue) (onData (Exec.modify (·.wake waker)))

/-- `Executor::spawn` on the executor with this queue. -/
def spawnOn (queue : Nat) : Locked Unit := do
  let task ← onData (Exec.read LockedData.nextTask)
  onData (Exec.modify LockedData.makeTask)
  withLock (.taskQueue queue) (onData (Exec.modify (·.wake ⟨task, queue⟩)))

/-- `JoinHandle::poll`: the guard of `data` is a local variable of the whole function. -/
def pollJoinHandle (task : Nat) (waker : Waker) : Locked Unit :=
  withLock (.joinData task) do
    if ← onData (Exec.read fun data => (data.joins task).data) then
      onData (Exec.modify fun data =>
        data.setJoin task { data.joins task with data := false })
    else
      withLock (.joinWaker task) (onData (Exec.modify fun data =>
        data.setJoin task { data.joins task with waker := some waker }))

/-- `YieldNow::poll`. -/
def pollYieldNow (yielded : Bool) (waker : Waker) : Locked Unit :=
  if yielded then pure () else waker.wake

/-- `TimerFuture::poll` on the tickets of the thread-local storage. -/
def pollTimer (address : Nat) (timer : TimerFuture) (now : Nat) (waker : Waker) : Locked Unit :=
  if timer.deadline ≤ now then pure ()
  else
    withLock (.tickets address) (onData (Exec.modify fun data =>
      data.setTickets address ((data.heap.tickets address).push timer.deadline waker)))

/-- Wake a waker if there is one. -/
def wakeSome : Option Waker → Locked Unit
  | some waker => waker.wake
  | none => pure ()

/-- The end of the future that `Executor::spawn` wraps around a task: store the result, then take
the waker and wake it while its slot is locked. -/
def completeTask (task : Nat) : Locked Unit := do
  withLock (.joinData task) (onData (Exec.modify fun data =>
    data.setJoin task { data.joins task with data := true }))
  withLock (.joinWaker task) do
    let waker ← onData (Exec.read fun data => (data.joins task).waker)
    onData (Exec.modify fun data => data.setJoin task { data.joins task with waker := none })
    wakeSome waker

/-- What a future does while it is polled. -/
inductive PollAction where
  | yieldNow (yielded : Bool)
  | join (task : Nat)
  | timer (future : TimerFuture) (now : Nat)
  | spawn (queue : Nat)
  | wake (waker : Waker)

/-- The actions of one poll and its answer. -/
structure PollScript where
  actions : List PollAction
  answer : Poll

section Run

variable (self gs : CoreExecutor)

/-- Perform an action of the task that `own` wakes; `gs` is the executor of the thread-local
storage. -/
def PollAction.perform (own : Waker) : PollAction → Locked Unit
  | .yieldNow yielded => pollYieldNow yielded own
  | .join task => pollJoinHandle task own
  | .timer future now => pollTimer gs.tickets future now own
  | .spawn queue => spawnOn queue
  | .wake waker => waker.wake

/-- Poll the wrapped future of a task. -/
def pollTask (task : Nat) (script : PollScript) : Locked Unit := do
  Exec.forEach script.actions (PollAction.perform gs ⟨task, self.taskQueue⟩)
  match script.answer with
  | .ready => completeTask task
  | .pending => pure ()

/-- `Executor::check_timers`: the tickets stay locked while the due wakers are woken. -/
def checkTimersLocked (now : Nat) : Locked Unit :=
  withLock (.tickets self.tickets) do
    let drained ← onData (Exec.read fun data => (data.heap.tickets self.tickets).drain now)
    onData (Exec.modify (·.setTickets self.tickets drained.2))
    Exec.forEach (drained.1.map Prod.snd) Waker.wake

/-- The two branches of the `if let`.  With a task the queue stays locked to the end of the block;
without one it is unlocked before the idle branch, which touches no lock after its two tests. -/
def runBranch (script : PollScript) : Option Nat → Locked Unit
  | some task => do
      withLock (.future task) (pollTask self gs task script)
      unlock (.taskQueue self.taskQueue)
  | none => do
      unlock (.taskQueue self.taskQueue)
      withLock (.tickets self.tickets) (pure ())
      withLock (.taskQueue self.taskQueue) (pure ())

/-- One iteration of `Executor::run`. -/
def runIteration (now : Nat) (script : PollScript) : Locked Unit := do
  checkTimersLocked self now
  lock (.taskQueue self.taskQueue)
  let task ← onData (Exec.read fun data => (data.heap.queues self.taskQueue).head?)
  onData (Exec.modify (·.popFront self.taskQueue))
  runBranch self gs script task

/-- What other cores change before an iteration, and the iteration. -/
structure RunTurn where
  between : LockedData → LockedData
  now : Nat
  script : PollScript

/-- One turn. -/
def runTurn (turn : RunTurn) : Locked Unit := do
  onData (Exec.modify turn.between)
  runIteration self gs turn.now turn.script

end Run

/-- The queue that an action pushes onto. -/
def PollAction.pushes (own : Waker) : PollAction → Option Nat
  | .yieldNow yielded => if yielded then none else some own.queue
  | .spawn queue => some queue
  | .wake waker => some waker.queue
  | .join _ | .timer _ _ => none

/-- The data after an action. -/
def PollAction.effect (gs : CoreExecutor) (own : Waker) (data : LockedData) :
    PollAction → LockedData
  | .yieldNow yielded => if yielded then data else data.wake own
  | .join task => data.pollJoin task own
  | .timer future now =>
      if future.deadline ≤ now then data
      else data.setTickets gs.tickets ((data.heap.tickets gs.tickets).push future.deadline own)
  | .spawn queue => data.makeTask.wake ⟨data.nextTask, queue⟩
  | .wake waker => data.wake waker

/-- The data after the actions of a poll. -/
def PollScript.effect (gs : CoreExecutor) (own : Waker) (script : PollScript) (data : LockedData) :
    LockedData :=
  script.actions.foldl (fun data action => action.effect gs own data) data

/-- No lock other than those of task queues and futures is held. -/
def Plain (held : List SpinMutex) : Prop :=
  (∀ address, .tickets address ∉ held) ∧ (∀ task, .joinData task ∉ held) ∧
    ∀ task, .joinWaker task ∉ held

section Ends

variable {held : List SpinMutex} {data : LockedData}
  {ok : Unit → Holding SpinMutex LockedData → Prop}
  {fail : SpinMutex → Holding SpinMutex LockedData → Prop}

theorem wake_ends {waker : Waker} (free : .taskQueue waker.queue ∉ held) :
    waker.wake.Ends ⟨held, data⟩ ok fail ↔ ok () ⟨held, data.wake waker⟩ := by
  rw [Waker.wake, ends_withLock_of_free free]
  simp

theorem wake_blocks {waker : Waker} (own : .taskQueue waker.queue ∈ held) :
    waker.wake.Ends ⟨held, data⟩ ok fail ↔ fail (.taskQueue waker.queue) ⟨held, data⟩ := by
  rw [Waker.wake, ends_withLock_of_held own]

/-- Waking any number of wakers with no queue locked. -/
theorem wakeAll_ends (free : ∀ address, .taskQueue address ∉ held) (wakers : List Waker) :
    (Exec.forEach wakers Waker.wake).Ends ⟨held, data⟩ ok fail ↔
      ok () ⟨held, wakers.foldl LockedData.wake data⟩ := by
  induction wakers generalizing data with
  | nil => rfl
  | cons waker rest induction =>
      rw [Exec.ends_forEach_cons, wake_ends (free waker.queue), induction]
      rfl

theorem pollJoinHandle_ends (plain : Plain held) (task : Nat) (waker : Waker) :
    (pollJoinHandle task waker).Ends ⟨held, data⟩ ok fail ↔
      ok () ⟨held, data.pollJoin task waker⟩ := by
  have slot : SpinMutex.joinWaker task ∉ SpinMutex.joinData task :: held := by
    simpa using plain.2.2 task
  rw [pollJoinHandle, ends_withLock_of_free (plain.2.1 task), Exec.ends_bind, ends_onData,
    Exec.ends_read]
  unfold LockedData.pollJoin
  split
  · simp
  · rw [ends_withLock_of_free slot]
    simp

/-- An action that pushes onto no locked queue does what it is for. -/
theorem perform_ends {gs : CoreExecutor} {own : Waker} {action : PollAction} (plain : Plain held)
    (free : ∀ queue ∈ action.pushes own, .taskQueue queue ∉ held) :
    (action.perform gs own).Ends ⟨held, data⟩ ok fail ↔
      ok () ⟨held, action.effect gs own data⟩ := by
  cases action with
  | yieldNow yielded =>
      cases yielded with
      | true => exact Iff.rfl
      | false => exact wake_ends (free own.queue rfl)
  | join task => exact pollJoinHandle_ends plain task own
  | timer future now =>
      simp only [PollAction.perform, PollAction.effect, pollTimer]
      split
      · exact Iff.rfl
      · rw [ends_withLock_of_free (plain.1 gs.tickets)]
        simp
  | spawn queue =>
      simp only [PollAction.perform, spawnOn, Exec.ends_bind, ends_onData, Exec.ends_read,
        Exec.ends_modify]
      rw [ends_withLock_of_free (free queue rfl)]
      simp [PollAction.effect]
  | wake waker => exact wake_ends (free waker.queue rfl)

/-- An action that pushes onto a locked queue blocks on its lock. -/
theorem perform_blocks {gs : CoreExecutor} {own : Waker} {action : PollAction} {queue : Nat}
    (pushes : queue ∈ action.pushes own) (locked : .taskQueue queue ∈ held) :
    (action.perform gs own).Ends ⟨held, data⟩ (fun _ _ => False) fun reason _ =>
      reason = .taskQueue queue := by
  cases action with
  | yieldNow yielded =>
      cases yielded with
      | true => cases pushes
      | false =>
          obtain rfl : own.queue = queue := by simpa [PollAction.pushes] using pushes
          exact (wake_blocks locked).mpr rfl
  | join | timer => cases pushes
  | spawn target =>
      obtain rfl : target = queue := by simpa [PollAction.pushes] using pushes
      simp only [PollAction.perform, spawnOn, Exec.ends_bind, ends_onData, Exec.ends_read,
        Exec.ends_modify]
      exact (ends_withLock_of_held locked).mpr rfl
  | wake waker =>
      obtain rfl : waker.queue = queue := by simpa [PollAction.pushes] using pushes
      exact (wake_blocks locked).mpr rfl

/-- The completion wrapper with a waker slot that is empty or names no locked queue. -/
theorem completeTask_ends (plain : Plain held) {task : Nat}
    (free : ∀ waker ∈ (data.joins task).waker, .taskQueue waker.queue ∉ held)
    (kept : ∀ after, ok () ⟨held, after⟩) : (completeTask task).Ends ⟨held, data⟩ ok fail := by
  rw [completeTask, Exec.ends_bind, ends_withLock_of_free (plain.2.1 task), ends_onData,
    Exec.ends_modify, List.erase_cons_head, ends_withLock_of_free (plain.2.2 task)]
  simp only [Exec.ends_bind, ends_onData, Exec.ends_read, Exec.ends_modify,
    LockedData.setJoin, Function.update_self]
  cases slot : (data.joins task).waker with
  | none =>
      simp only [wakeSome, Exec.ends_pure, List.erase_cons_head]
      exact kept _
  | some waker =>
      have unlocked : SpinMutex.taskQueue waker.queue ∉ SpinMutex.joinWaker task :: held := by
        simpa using free waker slot
      rw [wakeSome, wake_ends unlocked, List.erase_cons_head]
      exact kept _

/-- The completion wrapper with a joiner whose queue is locked. -/
theorem completeTask_blocks (plain : Plain held) {task : Nat} {waker : Waker}
    (slot : waker ∈ (data.joins task).waker) (locked : .taskQueue waker.queue ∈ held) :
    (completeTask task).Ends ⟨held, data⟩ (fun _ _ => False) fun reason _ =>
      reason = .taskQueue waker.queue := by
  rw [completeTask, Exec.ends_bind, ends_withLock_of_free (plain.2.1 task), ends_onData,
    Exec.ends_modify, List.erase_cons_head, ends_withLock_of_free (plain.2.2 task)]
  simp only [Exec.ends_bind, ends_onData, Exec.ends_read, Exec.ends_modify,
    LockedData.setJoin, Function.update_self]
  rw [Option.mem_def.mp slot, wakeSome]
  exact (wake_blocks (List.mem_cons_of_mem _ locked)).mpr rfl

theorem performAll_ends {gs : CoreExecutor} {own : Waker} (plain : Plain held)
    (actions : List PollAction)
    (free : ∀ action ∈ actions, ∀ queue ∈ action.pushes own, .taskQueue queue ∉ held) :
    (Exec.forEach actions (PollAction.perform gs own)).Ends ⟨held, data⟩ ok fail ↔
      ok () ⟨held, actions.foldl (fun data action => action.effect gs own data) data⟩ := by
  induction actions generalizing data with
  | nil => rfl
  | cons action rest induction =>
      obtain ⟨first, later⟩ := List.forall_mem_cons.mp free
      rw [Exec.ends_forEach_cons, perform_ends plain first, induction later]
      rfl

theorem performAll_blocks {gs : CoreExecutor} {own : Waker} (plain : Plain held)
    {actions : List PollAction} {action : PollAction} (member : action ∈ actions) {queue : Nat}
    (pushes : queue ∈ action.pushes own) (locked : .taskQueue queue ∈ held) :
    (Exec.forEach actions (PollAction.perform gs own)).Ends ⟨held, data⟩ (fun _ _ => False)
      fun _ _ => True := by
  induction actions generalizing data with
  | nil => cases member
  | cons first rest induction =>
      rw [Exec.ends_forEach_cons]
      by_cases blocks : ∃ other ∈ first.pushes own, SpinMutex.taskQueue other ∈ held
      · obtain ⟨other, pushesOther, lockedOther⟩ := blocks
        exact (perform_blocks pushesOther lockedOther).mono (fun _ _ => False.elim)
          fun _ _ _ => trivial
      · have free : ∀ other ∈ first.pushes own, SpinMutex.taskQueue other ∉ held :=
          fun other pushed held => blocks ⟨other, pushed, held⟩
        rw [perform_ends plain free]
        rcases List.mem_cons.mp member with rfl | later
        · exact absurd locked (free queue pushes)
        · exact induction later

end Ends

section Quiet

variable (self gs : CoreExecutor)

/-- A poll pushes nothing onto the queue of its own executor: no action does, and when the task
completes, no joiner of the same executor is registered. -/
def QuietPoll (task : Nat) (script : PollScript) (data : LockedData) : Prop :=
  (∀ action ∈ script.actions, self.taskQueue ∉ action.pushes ⟨task, self.taskQueue⟩) ∧
    (script.answer = .ready →
      ∀ waker ∈ ((script.effect gs ⟨task, self.taskQueue⟩ data).joins task).waker,
        waker.queue ≠ self.taskQueue)

/-- The task that the iteration of a turn pops, if any, is polled quietly. -/
def Quiet (data : LockedData) (turn : RunTurn) : Prop :=
  let checked := (turn.between data).checkTimers self.tickets turn.now
  ∀ task ∈ (checked.heap.queues self.taskQueue).head?,
    QuietPoll self gs task turn.script (checked.popFront self.taskQueue)

variable {self gs} {data : LockedData} {script : PollScript} {task : Nat}

/-- The locks of a poll. -/
def pollHeld (self : CoreExecutor) (task : Nat) : List SpinMutex :=
  [.future task, .taskQueue self.taskQueue]

theorem plain_pollHeld : Plain (pollHeld self task) := by
  simp [Plain, pollHeld]

theorem taskQueue_mem_pollHeld {address : Nat} :
    .taskQueue address ∈ pollHeld self task ↔ address = self.taskQueue := by
  simp [pollHeld]

theorem pollTask_ends (quiet : QuietPoll self gs task script data) :
    (pollTask self gs task script).Ends ⟨pollHeld self task, data⟩
      (fun _ after => after.held = pollHeld self task) fun _ _ => False := by
  have free : ∀ action ∈ script.actions, ∀ queue ∈ action.pushes ⟨task, self.taskQueue⟩,
      .taskQueue queue ∉ pollHeld self task := by
    intro action member queue pushes locked
    rw [taskQueue_mem_pollHeld] at locked
    exact quiet.1 action member (locked ▸ pushes)
  rw [pollTask, Exec.ends_bind, performAll_ends plain_pollHeld _ free]
  cases answer : script.answer with
  | pending => exact rfl
  | ready =>
      refine completeTask_ends plain_pollHeld (fun waker slot locked => ?_) fun _ => rfl
      exact quiet.2 answer waker slot (taskQueue_mem_pollHeld.mp locked)

theorem pollTask_blocks (loud : ¬ QuietPoll self gs task script data) :
    (pollTask self gs task script).Ends ⟨pollHeld self task, data⟩ (fun _ _ => False)
      fun _ _ => True := by
  have locked : .taskQueue self.taskQueue ∈ pollHeld self task := taskQueue_mem_pollHeld.mpr rfl
  rw [pollTask, Exec.ends_bind]
  by_cases pushes : ∃ action ∈ script.actions,
      self.taskQueue ∈ action.pushes ⟨task, self.taskQueue⟩
  · obtain ⟨action, member, pushed⟩ := pushes
    exact (performAll_blocks plain_pollHeld member pushed locked).mono (fun _ _ => False.elim)
      fun _ _ => id
  · have silent : ∀ action ∈ script.actions,
        self.taskQueue ∉ action.pushes ⟨task, self.taskQueue⟩ :=
      fun action member pushed => pushes ⟨action, member, pushed⟩
    have free : ∀ action ∈ script.actions, ∀ queue ∈ action.pushes ⟨task, self.taskQueue⟩,
        .taskQueue queue ∉ pollHeld self task := by
      intro action member queue pushed held
      rw [taskQueue_mem_pollHeld] at held
      exact silent action member (held ▸ pushed)
    have joined : ∃ waker ∈ ((script.effect gs ⟨task, self.taskQueue⟩ data).joins task).waker,
        script.answer = .ready ∧ waker.queue = self.taskQueue := by
      by_contra none
      exact loud ⟨silent, fun ready waker slot own => none ⟨waker, slot, ready, own⟩⟩
    obtain ⟨waker, slot, ready, own⟩ := joined
    rw [performAll_ends plain_pollHeld _ free, ready]
    refine (completeTask_blocks plain_pollHeld slot ?_).mono (fun _ _ => id) fun _ _ _ => trivial
    rw [own]
    exact locked

theorem checkTimersLocked_ends {ok : Unit → Holding SpinMutex LockedData → Prop}
    {fail : SpinMutex → Holding SpinMutex LockedData → Prop} (now : Nat) :
    (checkTimersLocked self now).Ends ⟨[], data⟩ ok fail ↔
      ok () ⟨[], data.checkTimers self.tickets now⟩ := by
  rw [checkTimersLocked, ends_withLock_of_free List.not_mem_nil]
  simp only [Exec.ends_bind, ends_onData, Exec.ends_read, Exec.ends_modify]
  rw [wakeAll_ends (by simp), List.erase_cons_head]
  rfl

/-- An iteration up to the branch of the `if let`. -/
theorem runIteration_ends {ok : Unit → Holding SpinMutex LockedData → Prop}
    {fail : SpinMutex → Holding SpinMutex LockedData → Prop} (now : Nat) :
    (runIteration self gs now script).Ends ⟨[], data⟩ ok fail ↔
      (runBranch self gs script
        ((data.checkTimers self.tickets now).heap.queues self.taskQueue).head?).Ends
        ⟨[.taskQueue self.taskQueue],
          (data.checkTimers self.tickets now).popFront self.taskQueue⟩ ok fail := by
  rw [runIteration, Exec.ends_bind, checkTimersLocked_ends, Exec.ends_bind,
    ends_lock_of_free List.not_mem_nil]
  simp only [Exec.ends_bind, ends_onData, Exec.ends_read, Exec.ends_modify]

theorem runBranch_none_ends :
    (runBranch self gs script none).Ends ⟨[.taskQueue self.taskQueue], data⟩
      (fun _ after => after.held = []) fun _ _ => False := by
  rw [runBranch, Exec.ends_bind, ends_unlock, List.erase_cons_head, Exec.ends_bind,
    ends_withLock_of_free List.not_mem_nil, Exec.ends_pure, List.erase_cons_head,
    ends_withLock_of_free List.not_mem_nil, Exec.ends_pure, List.erase_cons_head]

theorem runBranch_some_ends {ok : Unit → Holding SpinMutex LockedData → Prop}
    {fail : SpinMutex → Holding SpinMutex LockedData → Prop} :
    (runBranch self gs script (some task)).Ends ⟨[.taskQueue self.taskQueue], data⟩ ok fail ↔
      (pollTask self gs task script).Ends ⟨pollHeld self task, data⟩
        (fun _ after => ok () { after with
          held := (after.held.erase (.future task)).erase (.taskQueue self.taskQueue) })
        fail := by
  have free : SpinMutex.future task ∉ [SpinMutex.taskQueue self.taskQueue] := by simp
  rw [runBranch, Exec.ends_bind, ends_withLock_of_free free]
  rfl

/-- A quiet turn ends with no lock held. -/
theorem runTurn_ends {turn : RunTurn} (quiet : Quiet self gs data turn) :
    (runTurn self gs turn).Ends ⟨[], data⟩ (fun _ after => after.held = []) fun _ _ => False := by
  rw [runTurn, Exec.ends_bind, ends_onData, Exec.ends_modify, runIteration_ends]
  unfold Quiet at quiet
  cases popped : (((turn.between data).checkTimers self.tickets turn.now).heap.queues
      self.taskQueue).head? with
  | none => exact runBranch_none_ends
  | some task =>
      rw [runBranch_some_ends]
      refine (pollTask_ends (quiet task popped)).mono (fun _ after held => ?_) fun _ _ => id
      simp [held, pollHeld]

/-- Any other turn blocks on the core's own lock. -/
theorem runTurn_blocks {turn : RunTurn} (loud : ¬ Quiet self gs data turn) :
    (runTurn self gs turn).Ends ⟨[], data⟩ (fun _ _ => False) fun _ _ => True := by
  rw [runTurn, Exec.ends_bind, ends_onData, Exec.ends_modify, runIteration_ends]
  simp only [Quiet, not_forall] at loud
  obtain ⟨task, popped, loudPoll⟩ := loud
  rw [Option.mem_def.mp popped, runBranch_some_ends]
  exact pollTask_blocks loudPoll

end Quiet

section Runs

variable (self gs : CoreExecutor)

/-- The data after a turn that starts with no lock held. -/
def afterTurn (data : LockedData) (turn : RunTurn) : LockedData :=
  (runTurn self gs turn ⟨[], data⟩).2.data

/-- The core runs its turns without trying to take a lock that it holds. -/
def NeverBlocks (turns : List RunTurn) (data : LockedData) : Prop :=
  (Exec.forEach turns (runTurn self gs)).Ends ⟨[], data⟩ (fun _ after => after.held = [])
    fun _ _ => False

/-- From any data, and whatever futures do and other cores change between iterations, the core never
tries to take a lock it holds exactly when every poll of the run is quiet. -/
theorem neverBlocks_iff_quiet (turns : List RunTurn) (data : LockedData) :
    NeverBlocks self gs turns data ↔ Along (afterTurn self gs) (Quiet self gs) data turns := by
  induction turns generalizing data with
  | nil => exact iff_of_true rfl trivial
  | cons turn rest induction =>
      unfold NeverBlocks
      rw [Exec.ends_forEach_cons, Along]
      by_cases quiet : Quiet self gs data turn
      · obtain ⟨_, after, ran, held⟩ := (runTurn_ends quiet).exists_ok fun _ _ => id
        have same : after = ⟨[], afterTurn self gs data turn⟩ := by
          rw [afterTurn, ran, ← held]
        rw [Exec.ends_of_run ran, same, and_iff_right quiet]
        exact induction _
      · refine iff_of_false (fun ends => ?_) fun along => quiet along.1
        exact (runTurn_blocks quiet).conflict ends (fun _ _ => id) fun _ _ => id

end Runs

theorem not_neverBlocks_of_error {self gs : CoreExecutor} {turns : List RunTurn}
    {data : LockedData} {mutex : SpinMutex}
    (ran : (Exec.forEach turns (runTurn self gs) ⟨[], data⟩).1 = .error mutex) :
    ¬ NeverBlocks self gs turns data := by
  unfold NeverBlocks Exec.Ends
  split
  · rename_i run
    rw [run] at ran
    cases ran
  · exact id

/-- Tasks 0 and 1 have been spawned on the executor with queue 0. -/
def twoTasks : LockedData :=
  (Exec.forEach [0, 0] spawnOn
    ⟨[], ⟨fun _ => [], fun _ => .empty, 0⟩, fun _ => ⟨false, none⟩, 0⟩).2.data

/-- A turn without interference from other cores. -/
def quietly (actions : List PollAction) (answer : Poll) : RunTurn := ⟨id, 0, ⟨actions, answer⟩⟩

/-- How a run of the executor with queue 0 and tickets 1 ends. -/
def runOutcome (turns : List RunTurn) : Except SpinMutex Unit :=
  (Exec.forEach turns (runTurn ⟨0, 1⟩ ⟨2, 3⟩) ⟨[], twoTasks⟩).1

/-- A task that yields, a task that spawns on its own executor, and a task that completes while
another task of the executor waits for it each make the core wait for the queue lock it holds. -/
theorem selfPushes_block :
    (runOutcome [quietly [.yieldNow false] .pending] = .error (.taskQueue 0) ∧
      ¬ NeverBlocks ⟨0, 1⟩ ⟨2, 3⟩ [quietly [.yieldNow false] .pending] twoTasks) ∧
    (runOutcome [quietly [.spawn 0] .pending] = .error (.taskQueue 0) ∧
      ¬ NeverBlocks ⟨0, 1⟩ ⟨2, 3⟩ [quietly [.spawn 0] .pending] twoTasks) ∧
    runOutcome [quietly [.join 1] .pending, quietly [] .ready] = .error (.taskQueue 0) ∧
      ¬ NeverBlocks ⟨0, 1⟩ ⟨2, 3⟩ [quietly [.join 1] .pending, quietly [] .ready] twoTasks := by
  have yields : runOutcome [quietly [.yieldNow false] .pending] = .error (.taskQueue 0) := by
    decide +kernel
  have spawns : runOutcome [quietly [.spawn 0] .pending] = .error (.taskQueue 0) := by
    decide +kernel
  have joins : runOutcome [quietly [.join 1] .pending, quietly [] .ready] =
      .error (.taskQueue 0) := by
    decide +kernel
  exact ⟨⟨yields, not_neverBlocks_of_error yields⟩, ⟨spawns, not_neverBlocks_of_error spawns⟩,
    joins, not_neverBlocks_of_error joins⟩

example :
    runOutcome [quietly [.join 1, .timer ⟨10⟩ 0, .wake ⟨5, 9⟩] .pending, quietly [] .pending] =
      .ok () := by
  decide +kernel

end Okots
