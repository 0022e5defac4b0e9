import Mathlib.Logic.Function.Basic
import Mathlib.Order.Nat
import Okots.Library.Multimap
import Okots.Result

/-!
# Executors, wakers and timers

A `CoreExecutor` holds two shared objects behind `Arc`: the task queue and the ordered map of timer
tickets.  An `Arc` is an address in a `SharedHeap`.  Each core has one `CoreExecutor` in its
thread-local storage, made by `write_none`, and each `Executor` makes another one in
`Executor::new`.  Times are numbers of nanoseconds, tasks are named by numbers.
-/

namespace Okots

open OrderedMultimap StateExec

/-- The data behind a waker: the task and the address of the queue it goes to. -/
structure Waker where
  task : Nat
  queue : Nat
  deriving DecidableEq

/-- The map from deadlines to wakers. -/
abbrev Tickets := Multimap Nat Waker

/-- The objects that are shared through `Arc`. -/
structure SharedHeap where
  /-- Task queues by address, front first. -/
  queues : Nat → List Nat
  /-- Ticket maps by address. -/
  tickets : Nat → Tickets
  /-- The next unused address. -/
  fresh : Nat

namespace SharedHeap

/-- `wake` and `wake_by_ref`: push the task at the back of its queue. -/
def wake (heap : SharedHeap) (waker : Waker) : SharedHeap :=
  { heap with
    queues := Function.update heap.queues waker.queue (heap.queues waker.queue ++ [waker.task]) }

@[simp] theorem tickets_wake (heap : SharedHeap) (waker : Waker) :
    (heap.wake waker).tickets = heap.tickets := rfl

theorem queues_wake (heap : SharedHeap) (waker : Waker) (queue : Nat) :
    (heap.wake waker).queues queue =
      heap.queues queue ++ if waker.queue = queue then [waker.task] else [] := by
  unfold wake
  by_cases same : queue = waker.queue
  · simp [same]
  · simp [Function.update_of_ne same, Ne.symm same]

end SharedHeap

/-- The two shared objects of an executor. -/
structure CoreExecutor where
  taskQueue : Nat
  tickets : Nat

/-- Allocate an empty queue and an empty ticket map. -/
def CoreExecutor.new (heap : SharedHeap) : CoreExecutor × SharedHeap :=
  (⟨heap.fresh, heap.fresh + 1⟩,
    { queues := Function.update heap.queues heap.fresh []
      tickets := Function.update heap.tickets (heap.fresh + 1) Multimap.empty
      fresh := heap.fresh + 2 })

/-- The handle of an executor. -/
structure Executor where
  inner : CoreExecutor
  online : Bool
  noise : Bool
  lapicId : Nat

/-- What a core reads and writes: the heap, its thread-local storage and the list of executors. -/
structure ExecutorCore where
  heap : SharedHeap
  /-- The `executor` field of the thread-local storage. -/
  executor : CoreExecutor
  /-- The interrupt vectors that have a handler. -/
  idtRaw : Nat → Bool
  /-- The executors in `ASYNC_LIST`. -/
  asyncList : List Executor

/-- The vector of the interrupt that ends the halt of an executor. -/
def executorVector : Nat := 65

/-- `write_none`: fresh thread-local storage. -/
def writeNone (heap : SharedHeap) (asyncList : List Executor) : ExecutorCore :=
  { heap := (CoreExecutor.new heap).2
    executor := (CoreExecutor.new heap).1
    idtRaw := fun _ => false
    asyncList }

/-- `Executor::new` on the core with this local APIC id. -/
def Executor.new (lapicId : Nat) : Kernel ExecutorCore Executor := do
  if ← Exec.read fun core => core.idtRaw executorVector then
    raise .alreadyInitialized "executor already initialized"
  else
    let inner ← Exec.read fun core => (CoreExecutor.new core.heap).1
    let me : Executor := { inner, online := true, noise := false, lapicId }
    Exec.modify fun core =>
      { core with
        heap := (CoreExecutor.new core.heap).2
        idtRaw := Function.update core.idtRaw executorVector true
        asyncList := core.asyncList ++ [me] }
    return me

/-- The answer of a poll without a value. -/
inductive Poll where
  | ready
  | pending
  deriving DecidableEq

/-- A future that is ready from `deadline` on. -/
structure TimerFuture where
  deadline : Nat

/-- `TimerFuture::new` at time `now`. -/
def TimerFuture.new (now dur : Nat) : TimerFuture := ⟨now + dur⟩

/-- `TimerFuture::poll` at time `now`; a pending timer leaves its waker in the ticket map of the
thread-local storage. -/
def TimerFuture.poll (timer : TimerFuture) (now : Nat) (waker : Waker) (core : ExecutorCore) :
    Poll × ExecutorCore :=
  if timer.deadline ≤ now then
    (.ready, core)
  else
    let tickets := (core.heap.tickets core.executor.tickets).push timer.deadline waker
    (.pending,
      { core with
        heap.tickets := Function.update core.heap.tickets core.executor.tickets tickets })

/-- `Executor::check_timers` at time `now`: the wakers woken, in order and with their deadlines, and
the core after. -/
def Executor.checkTimers (executor : Executor) (now : Nat) (core : ExecutorCore) :
    List (Nat × Waker) × ExecutorCore :=
  let drained := (core.heap.tickets executor.inner.tickets).drain now
  let kept :=
    { core.heap with
      tickets := Function.update core.heap.tickets executor.inner.tickets drained.2 }
  (drained.1, { core with heap := drained.1.foldl (fun heap ticket => heap.wake ticket.2) kept })

end Okots
