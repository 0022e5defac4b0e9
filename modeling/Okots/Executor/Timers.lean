import Mathlib.Data.List.Perm.Subperm
import Okots.Executor.Basic

/-!
# Timers

`TimerFuture::poll` registers a waker and `check_timers` wakes the wakers that are due.  A
`TimerRun` polls timers and checks them in any order and keeps the list of registered wakers that
have not been woken.  A check fires when it wakes exactly the due ones, in deadline order, and
keeps the others.

The loop of `check_timers` fires whenever it runs on the map in which the timers are registered.
`Executor::new` makes a map of its own, so on the kernel's cores it fires only when nothing is due.
-/

namespace Okots

open OrderedMultimap StateExec

/-- What happens on a core as far as its timers are concerned. -/
inductive TimerEvent where
  /-- A `TimerFuture` is polled at time `now`. -/
  | poll (timer : TimerFuture) (now : Nat) (waker : Waker)
  /-- `check_timers` is called at time `now`. -/
  | check (now : Nat)

/-- A core and the wakers that were registered and not woken. -/
structure TimerRun where
  core : ExecutorCore
  registered : List (Nat × Waker)

namespace TimerRun

variable (executor : Executor) (run : TimerRun)

/-- One event. -/
def advance : TimerEvent → TimerRun
  | .poll timer now waker =>
      match timer.poll now waker run.core with
      | (.ready, core) => { run with core }
      | (.pending, core) => ⟨core, (timer.deadline, waker) :: run.registered⟩
  | .check now =>
      ⟨(executor.checkTimers now run.core).2,
        run.registered.diff (executor.checkTimers now run.core).1⟩

/-- A sequence of events. -/
def advanceAll (events : List TimerEvent) : TimerRun :=
  events.foldl (fun run event => run.advance executor event) run

/-- `check_timers` at time `now` wakes each registered waker that is due exactly once and no other,
in non-decreasing deadline order, and drops none of the rest. -/
structure Fires (now : Nat) : Prop where
  woken : (executor.checkTimers now run.core).1.Perm (run.registered.filter (·.1 ≤ now))
  ordered : (executor.checkTimers now run.core).1.Pairwise fun first second => first.1 ≤ second.1
  kept : (run.registered.filter (now < ·.1)).Subperm
    ((executor.checkTimers now run.core).2.heap.tickets run.core.executor.tickets).pairs

/-- The registered wakers are those in the map of the thread-local storage. -/
def Registered : Prop :=
  run.registered.Perm (run.core.heap.tickets run.core.executor.tickets).pairs

/-- The executor has an empty map of its own. -/
def Detached : Prop :=
  executor.inner.tickets ≠ run.core.executor.tickets ∧
    (run.core.heap.tickets executor.inner.tickets).pairs = []

end TimerRun

section CheckTimers

variable (executor : Executor) (now : Nat) (core : ExecutorCore)

theorem tickets_foldl_wake (woken : List (Nat × Waker)) (heap : SharedHeap) :
    (woken.foldl (fun heap ticket => heap.wake ticket.2) heap).tickets = heap.tickets := by
  induction woken generalizing heap with
  | nil => rfl
  | cons ticket rest induction => exact induction (heap.wake ticket.2)

theorem queues_foldl_wake (woken : List (Nat × Waker)) (heap : SharedHeap) (queue : Nat) :
    (woken.foldl (fun heap ticket => heap.wake ticket.2) heap).queues queue =
      heap.queues queue ++
        ((woken.map Prod.snd).filter fun waker => waker.queue = queue).map Waker.task := by
  induction woken generalizing heap with
  | nil => exact (List.append_nil _).symm
  | cons ticket rest induction =>
      rw [List.foldl_cons, induction, SharedHeap.queues_wake]
      by_cases same : ticket.2.queue = queue <;> simp [same]

/-- The loop removes exactly the due tickets of its map, in deadline order. -/
theorem woken_checkTimers :
    (executor.checkTimers now core).1 =
      (core.heap.tickets executor.inner.tickets).pairs.filter (·.1 ≤ now) :=
  Multimap.drained_eq_filter _ now

theorem tickets_checkTimers :
    ((executor.checkTimers now core).2.heap.tickets executor.inner.tickets).pairs =
      (core.heap.tickets executor.inner.tickets).pairs.filter (now < ·.1) := by
  simp only [Executor.checkTimers, tickets_foldl_wake, Function.update_self]
  exact Multimap.pairs_drain _ now

theorem tickets_checkTimers_of_ne {address : Nat} (other : address ≠ executor.inner.tickets) :
    (executor.checkTimers now core).2.heap.tickets address = core.heap.tickets address := by
  simp only [Executor.checkTimers, tickets_foldl_wake, Function.update_of_ne other]

/-- Every woken task goes to the back of its own queue, in the order in which it was woken. -/
theorem queues_checkTimers (queue : Nat) :
    (executor.checkTimers now core).2.heap.queues queue =
      core.heap.queues queue ++ (((executor.checkTimers now core).1.map Prod.snd).filter
        fun waker => waker.queue = queue).map Waker.task :=
  queues_foldl_wake _ _ queue

theorem ordered_checkTimers :
    (executor.checkTimers now core).1.Pairwise fun first second => first.1 ≤ second.1 := by
  rw [woken_checkTimers]
  exact (Multimap.pairs_sorted _).filter _

end CheckTimers

namespace TimerRun

variable {executor : Executor} {run : TimerRun}

/-- A pending poll adds its waker to the map of the thread-local storage. -/
theorem tickets_poll {timer : TimerFuture} {now : Nat} (waker : Waker) (core : ExecutorCore)
    (early : ¬ timer.deadline ≤ now) (address : Nat) :
    (timer.poll now waker core).2.heap.tickets address =
      if address = core.executor.tickets then
        (core.heap.tickets address).push timer.deadline waker
      else core.heap.tickets address := by
  rw [TimerFuture.poll, if_neg early]
  by_cases same : address = core.executor.tickets
  · simp [same]
  · simp [same]

theorem registered_poll {timer : TimerFuture} {now : Nat} {waker : Waker}
    (registered : run.Registered) :
    (run.advance executor (.poll timer now waker)).Registered := by
  by_cases due : timer.deadline ≤ now
  · simpa [advance, TimerFuture.poll, due] using registered
  · have kept := tickets_poll waker run.core due run.core.executor.tickets
    rw [if_pos rfl] at kept
    unfold Registered
    simp only [advance, TimerFuture.poll, due, if_false] at kept ⊢
    rw [kept]
    exact (registered.cons _).trans (Multimap.pairs_push _ _ _).symm

/-- Checking the map in which the timers are registered fires. -/
theorem fires_of_shared (registered : run.Registered)
    (shared : executor.inner.tickets = run.core.executor.tickets) (now : Nat) :
    run.Fires executor now where
  woken := by
    rw [woken_checkTimers, shared]
    exact (registered.filter _).symm
  ordered := ordered_checkTimers executor now run.core
  kept := by
    rw [← shared, tickets_checkTimers, shared]
    exact (registered.filter _).subperm

/-- Checking an empty map fires only when nothing is due. -/
theorem fires_iff_of_detached (registered : run.Registered) (detached : run.Detached executor)
    (now : Nat) : run.Fires executor now ↔ ∀ ticket ∈ run.registered, now < ticket.1 := by
  have nothing : (executor.checkTimers now run.core).1 = [] := by
    rw [woken_checkTimers, detached.2, List.filter_nil]
  constructor
  · intro fires ticket member
    have woken := fires.woken
    rw [nothing, List.nil_perm, List.filter_eq_nil_iff] at woken
    simpa using woken ticket member
  · intro early
    refine ⟨?_, ordered_checkTimers executor now run.core, ?_⟩
    · rw [nothing,
        List.filter_eq_nil_iff.mpr fun ticket member => by simpa using early ticket member]
    · rw [tickets_checkTimers_of_ne _ _ _ detached.1.symm]
      exact (List.filter_sublist.subperm).trans registered.subperm

theorem executor_advance (event : TimerEvent) :
    (run.advance executor event).core.executor = run.core.executor := by
  cases event with
  | poll timer now waker =>
      by_cases due : timer.deadline ≤ now <;> simp [advance, TimerFuture.poll, due]
  | check now => rfl

/-- One event keeps the executor detached and the registered wakers accounted for. -/
theorem advance_detached (event : TimerEvent) (registered : run.Registered)
    (detached : run.Detached executor) :
    (run.advance executor event).Registered ∧ (run.advance executor event).Detached executor := by
  cases event with
  | poll timer now waker =>
      refine ⟨registered_poll registered, ?_⟩
      unfold Detached
      rw [executor_advance]
      refine ⟨detached.1, ?_⟩
      by_cases due : timer.deadline ≤ now
      · simpa [advance, TimerFuture.poll, due] using detached.2
      · have kept := tickets_poll waker run.core due executor.inner.tickets
        rw [if_neg detached.1] at kept
        simp only [advance, TimerFuture.poll, due, if_false] at kept ⊢
        rw [kept]
        exact detached.2
  | check now =>
      have nothing : (executor.checkTimers now run.core).1 = [] := by
        rw [woken_checkTimers, detached.2, List.filter_nil]
      constructor
      · unfold Registered
        rw [executor_advance]
        simp only [advance, nothing, List.diff_nil]
        rw [tickets_checkTimers_of_ne _ _ _ detached.1.symm]
        exact registered
      · refine ⟨detached.1, ?_⟩
        simp only [advance]
        rw [tickets_checkTimers, detached.2, List.filter_nil]

/-- A whole run keeps the executor detached and the registered wakers accounted for. -/
theorem advanceAll_detached (events : List TimerEvent) (run : TimerRun)
    (registered : run.Registered) (detached : run.Detached executor) :
    (run.advanceAll executor events).Registered ∧
      (run.advanceAll executor events).Detached executor := by
  induction events generalizing run with
  | nil => exact ⟨registered, detached⟩
  | cons event rest induction =>
      obtain ⟨stillRegistered, stillDetached⟩ := advance_detached event registered detached
      exact induction _ stillRegistered stillDetached

/-- The thread-local storage has its ticket map, and no timer has been polled. -/
def Booted (core : ExecutorCore) : Prop :=
  core.executor.tickets < core.heap.fresh ∧
    (core.heap.tickets core.executor.tickets).pairs = []

theorem booted_writeNone (heap : SharedHeap) (asyncList : List Executor) :
    Booted (writeNone heap asyncList) := by
  simp [Booted, writeNone, CoreExecutor.new]

/-- What a successful `Executor::new` has made, as far as timers are concerned. -/
theorem new_ends (lapicId : Nat) (before : ExecutorCore) :
    (Executor.new lapicId).Ends before
      (fun executor core => executor.inner = (CoreExecutor.new before.heap).1 ∧
        core.heap = (CoreExecutor.new before.heap).2 ∧ core.executor = before.executor)
      fun _ core => core = before := by
  unfold Executor.new
  rw [Exec.ends_bind, Exec.ends_read]
  split
  · exact rfl
  · simp only [Exec.ends_bind, Exec.ends_read, Exec.ends_modify, Exec.ends_pure, and_self]

/-- `Executor::new` makes a ticket map other than the one of the thread-local storage. -/
theorem detached_new {lapicId : Nat} {before core : ExecutorCore} (booted : Booted before)
    (made : Executor.new lapicId before = (.ok executor, core)) :
    (TimerRun.mk core []).Registered ∧ (TimerRun.mk core []).Detached executor := by
  obtain ⟨inner, heap, gs⟩ := (new_ends lapicId before).of_ok made
  have other : before.executor.tickets ≠ before.heap.fresh + 1 := by
    have := booted.1
    omega
  constructor
  · simp [Registered, heap, gs, CoreExecutor.new, Function.update_of_ne other, booted.2]
  · simp [Detached, inner, heap, gs, CoreExecutor.new, other.symm]

/-- On a core whose executor was made by `Executor::new`, after any polls and checks, a call of
`check_timers` fires exactly when no registered waker is due. -/
theorem fires_iff_nothing_due {lapicId : Nat} {before core : ExecutorCore} (booted : Booted before)
    (made : Executor.new lapicId before = (.ok executor, core)) (events : List TimerEvent)
    (now : Nat) :
    ((TimerRun.mk core []).advanceAll executor events).Fires executor now ↔
      ∀ ticket ∈ ((TimerRun.mk core []).advanceAll executor events).registered, now < ticket.1 := by
  obtain ⟨registered, detached⟩ := detached_new booted made
  obtain ⟨stillRegistered, stillDetached⟩ := advanceAll_detached events _ registered detached
  exact fires_iff_of_detached stillRegistered stillDetached now

/-- A core with fresh thread-local storage in an empty heap. -/
def freshCore : ExecutorCore := writeNone ⟨fun _ => [], fun _ => .empty, 0⟩ []

/-- The executor that `Executor::new` makes on `freshCore`. -/
def freshExecutor : Executor := ⟨⟨2, 3⟩, true, false, 0⟩

/-- The first run of `freshExecutor`: task 7 polls a timer with deadline 10 at time 0. -/
def firstPoll : TimerRun :=
  (TimerRun.mk (Executor.new 0 freshCore).2 []).advanceAll freshExecutor
    [.poll (.new 0 10) 0 ⟨7, 2⟩]

/-- A timer that is not due is neither woken nor dropped. -/
theorem fires_before_deadline :
    Booted freshCore ∧
      Executor.new 0 freshCore = (.ok freshExecutor, (Executor.new 0 freshCore).2) ∧
      firstPoll.Fires freshExecutor 5 :=
  have booted : Booted freshCore := booted_writeNone _ _
  have made : Executor.new 0 freshCore = (.ok freshExecutor, (Executor.new 0 freshCore).2) := rfl
  ⟨booted, made, (fires_iff_nothing_due booted made [.poll (.new 0 10) 0 ⟨7, 2⟩] 5).mpr (by decide)⟩

/-- A check at time 20 does not wake the timer with deadline 10. -/
theorem not_fires_after_deadline :
    Executor.new 0 freshCore = (.ok freshExecutor, (Executor.new 0 freshCore).2) ∧
      (10, ⟨7, 2⟩) ∈ firstPoll.registered ∧ (freshExecutor.checkTimers 20 firstPoll.core).1 = [] ∧
      ¬ firstPoll.Fires freshExecutor 20 := by
  refine ⟨rfl, by decide, by decide, ?_⟩
  intro fires
  have woken := fires.woken
  revert woken
  decide

end TimerRun
end Okots
