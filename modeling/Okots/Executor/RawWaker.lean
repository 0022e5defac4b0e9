import Okots.Executor.Basic
import Okots.Library.Reachable
import Okots.Library.RefCount

/-!
# Raw wakers

The wakers of an executor are raw pointers to counted `WakerData`.  The four functions of their
vtable turn the pointer into a handle and back by hand.  Here every function is the sequence of its
steps on the counted heap, so that the counts can be followed inside a function.  While a function
runs on a waker, the reference of that waker is in the handle `data`.

Above the steps stands the view of the callers, who see live wakers and pushed tasks only.
-/

namespace Okots.RawWaker

open RefCount TransitionSystem

/-! ## The functions of the vtable -/

/-- The counted `WakerData` and the task queues. -/
structure State where
  arcs : Heap Waker
  shared : SharedHeap

/-- A step of a function: an operation on a counted reference, or
`data.queue.lock().push_back(Arc::clone(&data.task))`. -/
inductive Step where
  | arc (instruction : Instruction Waker)
  | push (ptr : Nat)

/-- Execute a step.  There is no result when it uses a reference that it does not have. -/
def State.exec (state : State) : Step → Option State
  | .arc instruction => (state.arcs.step instruction).map fun arcs => { state with arcs }
  | .push ptr =>
      if ptr ∈ state.arcs.handles then
        (state.arcs.cells ptr).map fun cell =>
          { state with shared := state.shared.wake cell.data }
      else none

/-- Execute steps in order. -/
def State.run (state : State) : List Step → Option State
  | [] => some state
  | step :: rest => (state.exec step).bind fun after => after.run rest

/-- `Executor::create_waker`, where `ptr` is the address of the new `WakerData`. -/
def createWaker (ptr : Nat) (inner : CoreExecutor) (task : Nat) : List Step :=
  [.arc (.new { task, queue := inner.taskQueue }), .arc (.intoRaw ptr)]

def clone (ptr : Nat) : List Step :=
  [.arc (.fromRaw ptr), .arc (.clone ptr), .arc (.intoRaw ptr), .arc (.intoRaw ptr)]

/-- The handle is dropped at the end of the function. -/
def wake (ptr : Nat) : List Step := [.arc (.fromRaw ptr), .push ptr, .arc (.drop ptr)]

def wakeByRef (ptr : Nat) : List Step := [.arc (.fromRaw ptr), .push ptr, .arc (.intoRaw ptr)]

/-- `let _ =` drops the handle at once. -/
def drop (ptr : Nat) : List Step := [.arc (.fromRaw ptr), .arc (.drop ptr)]

/-- A call of a caller.  A waker is named by its pointer. -/
inductive Operation where
  | createWaker (inner : CoreExecutor) (task : Nat)
  | clone (ptr : Nat)
  | wake (ptr : Nat)
  | wakeByRef (ptr : Nat)
  | drop (ptr : Nat)

/-- The steps of a call, with the next unused address. -/
def Operation.steps (fresh : Nat) : Operation → List Step
  | .createWaker inner task => RawWaker.createWaker fresh inner task
  | .clone ptr => RawWaker.clone ptr
  | .wake ptr => RawWaker.wake ptr
  | .wakeByRef ptr => RawWaker.wakeByRef ptr
  | .drop ptr => RawWaker.drop ptr

/-! ## The view of the callers -/

/-- The data of the wakers created so far by address, the pointers of the live wakers, and the data
of the wakers that were woken, in order. -/
structure Wakers where
  created : List Waker
  live : List Nat
  woken : List Waker

namespace Wakers

/-- No waker has been created. -/
def start : Wakers := ⟨[], [], []⟩

/-- What a call means to its caller. -/
def perform (wakers : Wakers) : Operation → Wakers
  | .createWaker inner task =>
      { wakers with
        created := wakers.created ++ [{ task, queue := inner.taskQueue }]
        live := wakers.created.length :: wakers.live }
  | .clone ptr => { wakers with live := ptr :: wakers.live }
  | .wake ptr =>
      { wakers with
        live := wakers.live.erase ptr
        woken := wakers.woken ++ wakers.created[ptr]?.toList }
  | .wakeByRef ptr => { wakers with woken := wakers.woken ++ wakers.created[ptr]?.toList }
  | .drop ptr => { wakers with live := wakers.live.erase ptr }

/-- A waker is used only while it is live. -/
def Legal (wakers : Wakers) : Operation → Prop
  | .createWaker .. => True
  | .clone ptr | .wake ptr | .wakeByRef ptr | .drop ptr => ptr ∈ wakers.live

instance (wakers : Wakers) (operation : Operation) : Decidable (wakers.Legal operation) :=
  match operation with
  | .createWaker .. => .isTrue trivial
  | .clone _ | .wake _ | .wakeByRef _ | .drop _ => inferInstanceAs (Decidable (_ ∈ _))

/-- The steps of a sequence of calls. -/
def steps (wakers : Wakers) : List Operation → List Step
  | [] => []
  | operation :: rest =>
      operation.steps wakers.created.length ++ (wakers.perform operation).steps rest

end Wakers

/-! ## Counts inside the functions -/

section Run

variable {state after : State}

theorem exec_arc {instruction : Instruction Waker} {arcs : Heap Waker}
    (step : state.arcs.step instruction = some arcs) :
    state.exec (.arc instruction) = some { state with arcs } := by
  rw [State.exec, step, Option.map_some]

theorem exec_push {ptr : Nat} {cell : Cell Waker} (held : ptr ∈ state.arcs.handles)
    (found : state.arcs.cells ptr = some cell) :
    state.exec (.push ptr) = some { state with shared := state.shared.wake cell.data } := by
  rw [State.exec, if_pos held, found, Option.map_some]

theorem run_cons {between : State} {step : Step} {rest : List Step}
    (first : state.exec step = some between) (others : between.run rest = some after) :
    state.run (step :: rest) = some after := by
  rw [State.run, first, Option.bind_some, others]

theorem run_append (state : State) (left right : List Step) :
    state.run (left ++ right) = (state.run left).bind fun after => after.run right := by
  induction left generalizing state with
  | nil => rfl
  | cons step rest induction =>
      rw [List.cons_append, State.run, State.run, Option.bind_assoc]
      exact congrArg _ (funext fun between => induction between)

/-- Every step keeps the counts right. -/
theorem exec_counted (counted : state.arcs.Counted) (step : Step)
    (executed : state.exec step = some after) : after.arcs.Counted := by
  cases step with
  | arc instruction =>
      obtain ⟨arcs, run, rfl⟩ := Option.map_eq_some_iff.mp executed
      exact counted.step instruction run
  | push ptr =>
      obtain ⟨-, pushed⟩ := Option.ite_none_right_eq_some.mp executed
      obtain ⟨cell, -, rfl⟩ := Option.map_eq_some_iff.mp pushed
      exact counted

theorem run_counted (counted : state.arcs.Counted) (steps : List Step)
    (executed : state.run steps = some after) : after.arcs.Counted := by
  induction steps generalizing state with
  | nil =>
      obtain rfl := Option.some.inj executed
      exact counted
  | cons step rest induction =>
      obtain ⟨between, first, others⟩ := Option.bind_eq_some_iff.mp executed
      exact induction (exec_counted counted step first) others

end Run

/-! ## Between the calls -/

/-- The heap between two calls: the references are those of the live wakers. -/
structure Refines (shared : SharedHeap) (wakers : Wakers) (state : State) : Prop where
  counted : state.arcs.Counted
  idle : state.arcs.handles = []
  live : state.arcs.raws.Perm wakers.live
  fresh : state.arcs.fresh = wakers.created.length
  data : ∀ ptr cell, state.arcs.cells ptr = some cell → wakers.created[ptr]? = some cell.data
  pushes : state.shared = wakers.woken.foldl SharedHeap.wake shared

/-- The heap before the first waker. -/
def State.start (shared : SharedHeap) : State := ⟨Heap.empty, shared⟩

theorem refines_start (shared : SharedHeap) : Refines shared .start (.start shared) where
  counted := Heap.counted_empty
  idle := rfl
  live := .nil
  fresh := rfl
  data _ _ found := nomatch found
  pushes := rfl

section Calls

variable {shared : SharedHeap} {wakers : Wakers} {state : State} {ptr : Nat}

/-- The data of a cell that has changed its count. -/
theorem Refines.data_update (refines : Refines shared wakers state) {changed : Option (Cell Waker)}
    (same : ∀ cell, changed = some cell → wakers.created[ptr]? = some cell.data)
    (other : Nat) (cell : Cell Waker)
    (found : Function.update state.arcs.cells ptr changed other = some cell) :
    wakers.created[other]? = some cell.data := by
  by_cases here : other = ptr
  · subst here
    rw [Function.update_self] at found
    exact same cell found
  · rw [Function.update_of_ne here] at found
    exact refines.data other cell found

/-- A cell that has lost a reference is released or keeps its data. -/
theorem Refines.data_lowered (refines : Refines shared wakers state) {cell : Cell Waker}
    (found : state.arcs.cells ptr = some cell) (other : Nat) (less : Cell Waker)
    (kept : Function.update state.arcs.cells ptr (Heap.lowered cell) other = some less) :
    wakers.created[other]? = some less.data := by
  refine refines.data_update (fun changed same => ?_) other less kept
  rw [(Heap.lowered_alive (refines.counted.alive ptr cell found) same).2]
  exact refines.data ptr cell found

/-- A reference that was taken and put back. -/
theorem Refines.live_putBack (refines : Refines shared wakers state) (live : ptr ∈ wakers.live) :
    (ptr :: state.arcs.raws.erase ptr).Perm wakers.live := by
  have held : ptr ∈ state.arcs.raws := refines.live.mem_iff.mpr live
  exact (List.perm_cons_erase held).symm.trans refines.live

theorem Refines.pushes_wake (refines : Refines shared wakers state) {cell : Cell Waker}
    (found : state.arcs.cells ptr = some cell) :
    state.shared.wake cell.data =
      (wakers.woken ++ wakers.created[ptr]?.toList).foldl SharedHeap.wake shared := by
  rw [refines.data ptr cell found, List.foldl_append, ← refines.pushes]
  rfl

/-- Every function of the vtable begins by taking the reference of its waker. -/
theorem Refines.fromRaw (refines : Refines shared wakers state) (live : ptr ∈ wakers.live) :
    (∃ cell, state.arcs.cells ptr = some cell) ∧
      state.exec (.arc (.fromRaw ptr)) = some { state with
        arcs := { state.arcs with raws := state.arcs.raws.erase ptr, handles := [ptr] } } := by
  have held : ptr ∈ state.arcs.raws := refines.live.mem_iff.mpr live
  refine ⟨refines.counted.exists_cell (.inl held), ?_⟩
  rw [exec_arc (Heap.step_fromRaw held), refines.idle]

theorem Refines.createWaker (refines : Refines shared wakers state) (inner : CoreExecutor)
    (task : Nat) :
    ∃ after, state.run (RawWaker.createWaker wakers.created.length inner task) = some after ∧
      Refines shared (wakers.perform (.createWaker inner task)) after := by
  have run : state.run (RawWaker.createWaker wakers.created.length inner task) = some { state with
      arcs :=
        { cells := Function.update state.arcs.cells state.arcs.fresh
            (some ⟨{ task, queue := inner.taskQueue }, 1⟩)
          fresh := state.arcs.fresh + 1
          raws := state.arcs.fresh :: state.arcs.raws
          handles := [] } } := by
    rw [← refines.fresh]
    refine run_cons (exec_arc rfl) (run_cons (exec_arc (Heap.step_intoRaw ?_)) rfl)
    rw [refines.idle]
  refine ⟨_, run, run_counted refines.counted _ run, rfl, ?_, ?_, ?_, refines.pushes⟩
  · rw [refines.fresh]
    exact refines.live.cons _
  · rw [Wakers.perform, List.length_append, refines.fresh]
    rfl
  · intro other cell found
    dsimp only at found
    by_cases here : other = state.arcs.fresh
    · subst here
      rw [Function.update_self] at found
      obtain rfl := Option.some.inj found
      rw [refines.fresh]
      exact List.getElem?_concat_length
    · rw [Function.update_of_ne here] at found
      have old := refines.data other cell found
      obtain ⟨inside, -⟩ := List.getElem?_eq_some_iff.mp old
      exact (List.getElem?_append_left inside).trans old

theorem Refines.clone (refines : Refines shared wakers state) (live : ptr ∈ wakers.live) :
    ∃ after, state.run (RawWaker.clone ptr) = some after ∧
      Refines shared (wakers.perform (.clone ptr)) after := by
  obtain ⟨⟨cell, found⟩, taken⟩ := refines.fromRaw live
  have run : state.run (RawWaker.clone ptr) = some { state with
      arcs := { state.arcs with
        cells := Function.update state.arcs.cells ptr (some { cell with strong := cell.strong + 1 })
        raws := ptr :: ptr :: state.arcs.raws.erase ptr
        handles := [] } } := by
    refine run_cons taken (run_cons (exec_arc (Heap.step_clone ?_ found)) ?_)
    · exact List.mem_cons_self ..
    · exact run_cons (exec_arc (Heap.step_intoRaw rfl)) (run_cons (exec_arc (Heap.step_intoRaw rfl))
        rfl)
  refine ⟨_, run, run_counted refines.counted _ run, rfl, (refines.live_putBack live).cons ptr,
    refines.fresh, ?_, refines.pushes⟩
  refine refines.data_update fun changed same => ?_
  obtain rfl := Option.some.inj same
  exact refines.data ptr cell found

theorem Refines.wakeByRef (refines : Refines shared wakers state) (live : ptr ∈ wakers.live) :
    ∃ after, state.run (RawWaker.wakeByRef ptr) = some after ∧
      Refines shared (wakers.perform (.wakeByRef ptr)) after := by
  obtain ⟨⟨cell, found⟩, taken⟩ := refines.fromRaw live
  have run : state.run (RawWaker.wakeByRef ptr) = some
      { shared := state.shared.wake cell.data
        arcs := { state.arcs with raws := ptr :: state.arcs.raws.erase ptr, handles := [] } } := by
    refine run_cons taken (run_cons (exec_push ?_ found) ?_)
    · exact List.mem_cons_self ..
    · exact run_cons (exec_arc (Heap.step_intoRaw rfl)) rfl
  exact ⟨_, run, run_counted refines.counted _ run, rfl, refines.live_putBack live, refines.fresh,
    refines.data, refines.pushes_wake found⟩

theorem Refines.wake (refines : Refines shared wakers state) (live : ptr ∈ wakers.live) :
    ∃ after, state.run (RawWaker.wake ptr) = some after ∧
      Refines shared (wakers.perform (.wake ptr)) after := by
  obtain ⟨⟨cell, found⟩, taken⟩ := refines.fromRaw live
  have run : state.run (RawWaker.wake ptr) = some
      { shared := state.shared.wake cell.data
        arcs := { state.arcs with
          cells := Function.update state.arcs.cells ptr (Heap.lowered cell)
          raws := state.arcs.raws.erase ptr
          handles := [] } } := by
    refine run_cons taken (run_cons (exec_push ?_ found) ?_)
    · exact List.mem_cons_self ..
    · exact run_cons (exec_arc (Heap.step_drop rfl found)) rfl
  exact ⟨_, run, run_counted refines.counted _ run, rfl, refines.live.erase ptr, refines.fresh,
    refines.data_lowered found, refines.pushes_wake found⟩

theorem Refines.drop (refines : Refines shared wakers state) (live : ptr ∈ wakers.live) :
    ∃ after, state.run (RawWaker.drop ptr) = some after ∧
      Refines shared (wakers.perform (.drop ptr)) after := by
  obtain ⟨⟨cell, found⟩, taken⟩ := refines.fromRaw live
  have run : state.run (RawWaker.drop ptr) = some { state with
      arcs := { state.arcs with
        cells := Function.update state.arcs.cells ptr (Heap.lowered cell)
        raws := state.arcs.raws.erase ptr
        handles := [] } } := by
    exact run_cons taken (run_cons (exec_arc (Heap.step_drop rfl found)) rfl)
  exact ⟨_, run, run_counted refines.counted _ run, rfl, refines.live.erase ptr, refines.fresh,
    refines.data_lowered found, refines.pushes⟩

/-- Every legal call runs to its end and does what it means to its caller. -/
theorem Refines.perform (refines : Refines shared wakers state) {operation : Operation}
    (legal : wakers.Legal operation) :
    ∃ after, state.run (operation.steps wakers.created.length) = some after ∧
      Refines shared (wakers.perform operation) after := by
  cases operation with
  | createWaker inner task => exact refines.createWaker inner task
  | clone ptr => exact refines.clone legal
  | wake ptr => exact refines.wake legal
  | wakeByRef ptr => exact refines.wakeByRef legal
  | drop ptr => exact refines.drop legal

theorem Refines.run (refines : Refines shared wakers state) {operations : List Operation}
    (legal : Along Wakers.perform Wakers.Legal wakers operations) :
    ∃ after, state.run (wakers.steps operations) = some after ∧
      Refines shared (operations.foldl Wakers.perform wakers) after := by
  induction operations generalizing wakers state with
  | nil => exact ⟨state, rfl, refines⟩
  | cons operation rest induction =>
      obtain ⟨between, first, held⟩ := refines.perform legal.1
      obtain ⟨after, others, final⟩ := induction held legal.2
      refine ⟨after, ?_, final⟩
      rw [Wakers.steps, run_append, first, Option.bind_some, others]

end Calls

/-- For every sequence of calls that use live wakers only: after each step, also inside a call, the
strong count of every `WakerData` is the number of wakers at rest on it plus the handles of the
running function.  After the calls there are no handles, the wakers are the live ones, each `wake`
and `wake_by_ref` has pushed its task once to the queue of its executor, and a `WakerData` exists
exactly while a waker on it is live. -/
theorem rawWakers_counted (shared : SharedHeap) (operations : List Operation)
    (legal : Along Wakers.perform Wakers.Legal .start operations) :
    (∀ done rest, Wakers.steps .start operations = done ++ rest →
      ∃ state, (State.start shared).run done = some state ∧
        ∀ ptr, state.arcs.strong ptr =
          state.arcs.raws.count ptr + state.arcs.handles.count ptr) ∧
    ∃ state wakers, (State.start shared).run (Wakers.steps .start operations) = some state ∧
      operations.foldl Wakers.perform .start = wakers ∧
      state.arcs.handles = [] ∧ state.arcs.raws.Perm wakers.live ∧
      (∀ ptr, state.arcs.strong ptr = wakers.live.count ptr) ∧
      state.shared = wakers.woken.foldl SharedHeap.wake shared ∧
      ∀ ptr, (state.arcs.cells ptr).isSome = true ↔ ptr ∈ wakers.live := by
  obtain ⟨final, run, refines⟩ := (refines_start shared).run legal
  constructor
  · intro done rest split
    rw [split, run_append] at run
    obtain ⟨state, first, -⟩ := Option.bind_eq_some_iff.mp run
    exact ⟨state, first, (run_counted Heap.counted_empty done first).counts⟩
  · refine ⟨final, _, run, rfl, refines.idle, refines.live, fun ptr => ?_, refines.pushes,
      fun ptr => ?_⟩
    · rw [refines.counted.counts, refines.idle, refines.live.count_eq, List.count_nil,
        Nat.add_zero]
    · rw [refines.counted.isSome_iff, refines.idle, refines.live.mem_iff]
      exact or_iff_left (List.not_mem_nil)

/-- Two wakers on one task: it is pushed twice, and the last waker releases the data. -/
theorem rawWakers_counted_twice :
    ∃ state,
      (State.start ⟨fun _ => [], fun _ => OrderedMultimap.Multimap.empty, 9⟩).run
          (Wakers.steps .start
            [.createWaker ⟨7, 8⟩ 3, .clone 0, .wakeByRef 0, .wake 0, .drop 0]) = some state ∧
        state.shared.queues 7 = [3, 3] ∧ state.arcs.cells 0 = none := by
  obtain ⟨-, state, wakers, run, rfl, -, -, -, pushes, exists_iff⟩ := rawWakers_counted
    ⟨fun _ => [], fun _ => OrderedMultimap.Multimap.empty, 9⟩
    [.createWaker ⟨7, 8⟩ 3, .clone 0, .wakeByRef 0, .wake 0, .drop 0] (by decide)
  refine ⟨state, run, by rw [pushes]; rfl, ?_⟩
  rw [← Option.not_isSome_iff_eq_none, exists_iff]
  decide

end Okots.RawWaker
