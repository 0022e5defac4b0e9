import Mathlib.Data.List.Basic
import Okots.Executor.Locks
import Okots.Library.Reachable

/-!
# Join handles

The wrapper that `Executor::spawn` puts around a future stores the output under the lock of `data`,
then takes the registered waker under the lock of `waker` and wakes it.  `JoinHandle::poll` holds
the lock of `data` from its test to its end, also while it registers its waker.  So a waker
registered by a poll that found no output is in its slot before the wrapper looks there: no wake-up
is lost, and one poll at most takes the output.

A `JoinHandle` is not cloned, so its polls come one after another; each of them may carry another
waker.  The types of the output and of the wakers are arbitrary.
-/

namespace Okots

open TransitionSystem

variable {τ ω : Type*}

/-- The next access of the completion wrapper. -/
inductive WrapperPc (ω : Type*) where
  /-- The inner future is awaited; then its output is stored. -/
  | awaiting
  /-- Take the waker. -/
  | taking
  /-- Wake the waker, with its slot locked. -/
  | waking (waker : ω)
  | finished

/-- Where the holder of the handle is. -/
inductive HandlePc (ω : Type*) where
  | idle
  /-- A poll has found no output; it keeps `data` locked and registers its waker. -/
  | registering (waker : ω)

/-- What a poll returned; a pending one with the waker it carried. -/
inductive JoinPoll (τ ω : Type*) where
  | ready (output : τ)
  | pending (waker : ω)

/-- `Some` output of a poll that returned `Ready`. -/
def JoinPoll.output? : JoinPoll τ ω → Option τ
  | .ready output => some output
  | .pending _ => none

/-- The waker of a poll that returned `Pending`. -/
def JoinPoll.waker? : JoinPoll τ ω → Option ω
  | .ready _ => none
  | .pending waker => some waker

/-- A `JoinInner`, the two parties that share it, the results of the polls in order and the wakers
woken by the wrapper. -/
structure JoinState (τ ω : Type*) where
  data : Option τ
  waker : Option ω
  wrapper : WrapperPc ω
  handle : HandlePc ω
  polls : List (JoinPoll τ ω)
  woken : List ω

/-- One section under a lock. -/
inductive JoinEvent (ω : Type*) where
  /-- `*inner_clone.data.lock() = Some(res)`. -/
  | storeData
  /-- `inner_clone.waker.lock().take()`. -/
  | takeWaker
  /-- `waker.wake()`, the end of the wrapper. -/
  | wake
  /-- `JoinHandle::poll` locks `data` and takes what is there. -/
  | pollData (waker : ω)
  /-- The poll stores its waker and returns `Pending`. -/
  | registerWaker

namespace JoinState

/-- A new task and its handle. -/
def start : JoinState τ ω := ⟨none, none, .awaiting, .idle, [], []⟩

variable (state : JoinState τ ω)

/-- When a section can be entered: its party is there, and the other one does not hold the lock. -/
def Enabled : JoinEvent ω → Prop
  | .storeData =>
      match state.wrapper, state.handle with
      | .awaiting, .idle => True
      | _, _ => False
  | .takeWaker =>
      match state.wrapper with
      | .taking => True
      | _ => False
  | .wake =>
      match state.wrapper with
      | .waking _ => True
      | _ => False
  | .pollData _ =>
      match state.handle with
      | .idle => True
      | .registering _ => False
  | .registerWaker =>
      match state.handle, state.wrapper with
      | .registering _, .waking _ => False
      | .registering _, _ => True
      | .idle, _ => False

/-- The state after a section; `output` is what the inner future returns. -/
def next (output : τ) (state : JoinState τ ω) : JoinEvent ω → JoinState τ ω
  | .storeData => { state with data := some output, wrapper := .taking }
  | .takeWaker =>
      match state.waker with
      | some waker => { state with waker := none, wrapper := .waking waker }
      | none => { state with wrapper := .finished }
  | .wake =>
      match state.wrapper with
      | .waking waker => { state with woken := state.woken ++ [waker], wrapper := .finished }
      | _ => state
  | .pollData waker =>
      match state.data with
      | some result => { state with data := none, polls := state.polls ++ [.ready result] }
      | none => { state with handle := .registering waker }
  | .registerWaker =>
      match state.handle with
      | .registering waker =>
          { state with
            waker := some waker
            handle := .idle
            polls := state.polls ++ [.pending waker] }
      | .idle => state

/-- What the model of the locks keeps of the shared data. -/
def inner (state : JoinState τ Waker) : JoinInner := ⟨state.data.isSome, state.waker⟩

/-- A poll that meets no other section has the effect that the model of the locks gives it. -/
theorem inner_poll {state : JoinState τ Waker} {data : LockedData} {task : Nat} (output : τ)
    (shared : data.joins task = state.inner) (idle : state.handle = .idle) (waker : Waker) :
    (data.pollJoin task waker).joins task =
      ((next output (next output state (.pollData waker)) .registerWaker)).inner := by
  cases present : state.data with
  | none => simp [LockedData.pollJoin, LockedData.setJoin, shared, inner, next, present]
  | some result =>
      simp [LockedData.pollJoin, LockedData.setJoin, shared, inner, next, present, idle]

/-- The outputs returned by polls. -/
def outputs : List τ := state.polls.filterMap JoinPoll.output?

/-- The waker of the latest pending poll. -/
def latestWaker : Option ω := (state.polls.filterMap JoinPoll.waker?).getLast?

/-- At most one poll has returned an output, and it is that of the inner future.  Once the wrapper
has finished, a poll has returned `Ready`, or the waker of the latest pending poll has been woken,
or no poll has happened and the next one returns `Ready`. -/
structure Delivers (output : τ) (state : JoinState τ ω) : Prop where
  once : state.outputs = [] ∨ state.outputs = [output]
  notified : state.wrapper = .finished →
    state.outputs = [output] ∨
    (∃ waker, state.latestWaker = some waker ∧ waker ∈ state.woken) ∨
    (state.polls = [] ∧ ∀ waker, state.Enabled (.pollData waker) ∧
      (state.next output (.pollData waker)).polls = [.ready output])

/-- Before the output is stored, the slot holds the latest waker.  From then on either the output is
still there and no poll is under way, or one poll has returned it; as long as none has, the latest
waker goes from the slot to the wrapper and is woken. -/
structure Tracked (output : τ) (state : JoinState τ ω) : Prop where
  awaiting : state.wrapper = .awaiting →
    state.data = none ∧ state.outputs = [] ∧ state.waker = state.latestWaker
  stored : state.wrapper ≠ .awaiting →
    (state.data = some output ∧ state.outputs = [] ∧ state.handle = .idle) ∨
      (state.data = none ∧ state.outputs = [output])
  taking : state.wrapper = .taking → state.outputs = [] → state.waker = state.latestWaker
  waking : ∀ waker, state.wrapper = .waking waker → state.outputs = [] →
    state.latestWaker = some waker
  finished : state.wrapper = .finished → state.outputs = [] →
    ∀ waker, state.latestWaker = some waker → waker ∈ state.woken

variable {state} {output : τ}

theorem start_tracked (output : τ) : (start : JoinState τ ω).Tracked output where
  awaiting _ := ⟨rfl, rfl, rfl⟩
  stored other := absurd rfl other
  taking := nofun
  waking := nofun
  finished := nofun

theorem outputs_ready {after : JoinState τ ω} {result : τ}
    (polled : after.polls = state.polls ++ [.ready result]) :
    after.outputs = state.outputs ++ [result] := by
  simp [outputs, polled, JoinPoll.output?]

theorem outputs_pending {after : JoinState τ ω} {waker : ω}
    (polled : after.polls = state.polls ++ [.pending waker]) : after.outputs = state.outputs := by
  simp [outputs, polled, JoinPoll.output?]

theorem latestWaker_pending {after : JoinState τ ω} {waker : ω}
    (polled : after.polls = state.polls ++ [.pending waker]) :
    after.latestWaker = some waker := by
  simp [latestWaker, polled, JoinPoll.waker?]

namespace Tracked

/-- Nothing remains to be tracked once a poll has returned the output. -/
theorem of_returned (past : state.wrapper ≠ .awaiting) (absent : state.data = none)
    (returned : state.outputs = [output]) : state.Tracked output where
  awaiting early := absurd early past
  stored _ := .inr ⟨absent, returned⟩
  taking _ fresh := absurd (returned.symm.trans fresh) nofun
  waking _ _ fresh := absurd (returned.symm.trans fresh) nofun
  finished _ fresh := absurd (returned.symm.trans fresh) nofun

theorem returned_of_absent (tracked : state.Tracked output) (past : state.wrapper ≠ .awaiting)
    (absent : state.data = none) : state.outputs = [output] := by
  rcases tracked.stored past with ⟨there, -⟩ | ⟨-, returned⟩
  · exact absurd (absent.symm.trans there) nofun
  · exact returned

theorem storeData (tracked : state.Tracked output) (enabled : state.Enabled .storeData) :
    (state.next output .storeData).Tracked output := by
  cases wrapper : state.wrapper with
  | taking | waking | finished => simp [Enabled, wrapper] at enabled
  | awaiting =>
      cases handle : state.handle with
      | registering waker => simp [Enabled, wrapper, handle] at enabled
      | idle =>
          obtain ⟨-, outputs, slot⟩ := tracked.awaiting wrapper
          exact ⟨nofun, fun _ => .inl ⟨rfl, outputs, handle⟩, fun _ _ => slot, nofun, nofun⟩

theorem takeWaker (tracked : state.Tracked output) (enabled : state.Enabled .takeWaker) :
    (state.next output .takeWaker).Tracked output := by
  cases wrapper : state.wrapper with
  | awaiting | waking | finished => simp [Enabled, wrapper] at enabled
  | taking =>
      have stored := tracked.stored (by simp [wrapper])
      have slot := tracked.taking wrapper
      cases registered : state.waker with
      | none =>
          simp only [next, registered]
          refine ⟨nofun, fun _ => stored, nofun, nofun, fun _ fresh waker latest => ?_⟩
          have empty : state.latestWaker = none := by rw [← slot fresh, registered]
          exact absurd (empty.symm.trans latest) nofun
      | some waker =>
          simp only [next, registered]
          refine ⟨nofun, fun _ => stored, nofun, ?_, nofun⟩
          rintro _ ⟨rfl⟩ fresh
          exact (slot fresh).symm.trans registered

theorem wake (tracked : state.Tracked output) (enabled : state.Enabled .wake) :
    (state.next output .wake).Tracked output := by
  cases wrapper : state.wrapper with
  | awaiting | taking | finished => simp [Enabled, wrapper] at enabled
  | waking waker =>
      have stored := tracked.stored (by simp [wrapper])
      simp only [next, wrapper]
      refine ⟨nofun, fun _ => stored, nofun, nofun, fun _ fresh latest found => ?_⟩
      have same : some latest = some waker :=
        found.symm.trans (tracked.waking waker wrapper fresh)
      simp [Option.some.inj same]

theorem pollData (tracked : state.Tracked output) (waker : ω) :
    (state.next output (.pollData waker)).Tracked output := by
  cases present : state.data with
  | none =>
      by_cases early : state.wrapper = .awaiting
      · obtain ⟨-, fresh, slot⟩ := tracked.awaiting early
        simp only [next, present, early]
        exact ⟨fun _ => ⟨rfl, fresh, slot⟩, fun past => absurd rfl past, nofun, nofun, nofun⟩
      · have returned := tracked.returned_of_absent early present
        simp only [next, present]
        exact of_returned early rfl returned
  | some result =>
      have past : state.wrapper ≠ .awaiting := by
        intro early
        exact absurd (present.symm.trans (tracked.awaiting early).1) nofun
      rcases tracked.stored past with ⟨there, fresh, -⟩ | ⟨absent, -⟩
      · obtain rfl : result = output := Option.some.inj (present.symm.trans there)
        simp only [next, present]
        refine of_returned past rfl ?_
        rw [outputs_ready rfl, fresh, List.nil_append]
      · exact absurd (present.symm.trans absent) nofun

theorem registerWaker (tracked : state.Tracked output) (enabled : state.Enabled .registerWaker) :
    (state.next output .registerWaker).Tracked output := by
  cases handle : state.handle with
  | idle => simp [Enabled, handle] at enabled
  | registering waker =>
      simp only [next, handle]
      by_cases early : state.wrapper = .awaiting
      · obtain ⟨absent, fresh, -⟩ := tracked.awaiting early
        refine ⟨fun _ => ⟨absent, ?_, ?_⟩, fun past => absurd early past, ?_, ?_, ?_⟩
        · rw [outputs_pending rfl, fresh]
        · rw [latestWaker_pending rfl]
        · exact fun taking => absurd (early.symm.trans taking) nofun
        · exact fun _ waking => absurd (early.symm.trans waking) nofun
        · exact fun finished => absurd (early.symm.trans finished) nofun
      · rcases tracked.stored early with ⟨-, -, idle⟩ | ⟨absent, returned⟩
        · exact absurd (handle.symm.trans idle) nofun
        · refine of_returned early absent ?_
          rw [outputs_pending rfl, returned]

theorem next (tracked : state.Tracked output) {event : JoinEvent ω}
    (enabled : state.Enabled event) :
    (state.next output event).Tracked output := by
  cases event with
  | storeData => exact tracked.storeData enabled
  | takeWaker => exact tracked.takeWaker enabled
  | wake => exact tracked.wake enabled
  | pollData waker => exact tracked.pollData waker
  | registerWaker => exact tracked.registerWaker enabled

theorem once (tracked : state.Tracked output) :
    state.outputs = [] ∨ state.outputs = [output] := by
  by_cases early : state.wrapper = .awaiting
  · exact .inl (tracked.awaiting early).2.1
  · rcases tracked.stored early with ⟨-, fresh, -⟩ | ⟨-, returned⟩
    · exact .inl fresh
    · exact .inr returned

end Tracked

/-- Without an output and without a waker there has been no poll. -/
theorem polls_eq_nil (fresh : state.outputs = []) (none : state.latestWaker = none) :
    state.polls = [] := by
  rw [latestWaker, List.getLast?_eq_none_iff, List.filterMap_eq_nil_iff] at none
  rw [outputs, List.filterMap_eq_nil_iff] at fresh
  refine List.eq_nil_iff_forall_not_mem.mpr fun poll member => ?_
  cases poll with
  | ready result => exact absurd (fresh _ member) nofun
  | pending waker => exact absurd (none _ member) nofun

theorem Tracked.delivers (tracked : state.Tracked output) : state.Delivers output := by
  refine ⟨tracked.once, fun finished => ?_⟩
  rcases tracked.stored (by simp [finished]) with ⟨there, fresh, idle⟩ | ⟨-, returned⟩
  · cases latest : state.latestWaker with
    | some waker =>
        exact .inr (.inl ⟨waker, rfl, tracked.finished finished fresh waker latest⟩)
    | none =>
        have nothing := polls_eq_nil fresh latest
        refine .inr (.inr ⟨nothing, fun waker => ⟨?_, ?_⟩⟩)
        · simp [Enabled, idle]
        · simp [JoinState.next, there, nothing]
  · exact .inl returned

/-- In every interleaving of the wrapper with the polls of the handle, neither the output nor the
wake-up is lost. -/
theorem foldl_delivers (output : τ) (events : List (JoinEvent ω))
    (enabled : Along (next output) Enabled start events) :
    (events.foldl (next output) start).Delivers output := by
  have tracked : Tracked output (events.foldl (next output) start) :=
    enabled.invariant (fun _ _ tracked allowed => tracked.next allowed) (start_tracked output)
  exact tracked.delivers

/-- A poll with waker 1 registers before the output 7 is stored; the wrapper wakes it. -/
theorem foldl_delivers_pendingFirst :
    Along (next 7) Enabled (start : JoinState Nat Nat)
        [.pollData 1, .registerWaker, .storeData, .takeWaker, .wake] ∧
      ([.pollData 1, .registerWaker, .storeData, .takeWaker, .wake].foldl (next 7)
        (start : JoinState Nat Nat)).Delivers 7 :=
  ⟨⟨trivial, trivial, trivial, trivial, trivial, trivial⟩,
    foldl_delivers 7 _ ⟨trivial, trivial, trivial, trivial, trivial, trivial⟩⟩

end JoinState
end Okots
