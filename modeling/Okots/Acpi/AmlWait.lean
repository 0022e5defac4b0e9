import Okots.Acpi.AmlMutex

/-!
# Waiting for an AML mutex

The steps of the calls of several cores, in any interleaving.  A core that waits in `acquire` keeps
`AML_MUTEXES` locked, and the owner of the mutex needs that lock to release it.  So an owner that is
in `release` while another core waits for its mutex is always blocked by that core; if the wait has
no timeout, the release never ends.
-/

namespace Okots

/-- Where a core is. -/
inductive AmlPlace where
  | idle
  /-- At `AML_MUTEXES.lock()`. -/
  | enter (call : AmlCall)
  /-- In `create_mutex`. -/
  | push
  /-- In `acquire`, before the test of the owner. -/
  | testOwner (handle : BitVec 32) (timeout : BitVec 16)
  /-- At the top of the loop of `acquire`. -/
  | tryLock (handle : BitVec 32) (timeout : BitVec 16) (elapsed : Nat)
  /-- In `release`, before the count is read. -/
  | decrement (handle : BitVec 32)
  /-- In `release`, at `force_unlock`. -/
  | unlock (handle : BitVec 32)
  /-- About to drop the guard of the table and to return. -/
  | leave (call : AmlCall)
  | panicked
  deriving DecidableEq

namespace AmlPlace

/-- The place behind `AML_MUTEXES.lock()`. -/
def first : AmlCall → AmlPlace
  | .createMutex => push
  | .acquire handle timeout => testOwner handle timeout
  | .release handle => decrement handle

/-- The core holds the lock of the table; a core that panics does not give it back. -/
def Inside : AmlPlace → Prop
  | idle | enter _ => False
  | _ => True

theorem inside_first (call : AmlCall) : (first call).Inside := by
  cases call <;> trivial

end AmlPlace

/-- The cores, the table and its lock. -/
structure AmlConfig where
  /-- The core that holds `AML_MUTEXES`. -/
  table : Option (BitVec 32)
  mutexes : List AmlMutexInner
  place : BitVec 32 → AmlPlace

/-- A core begins a call, or takes its next step. -/
inductive AmlAction where
  | call (core : BitVec 32) (call : AmlCall)
  | run (core : BitVec 32)

namespace AmlConfig

/-- All cores are idle and no mutex has been created. -/
def start : AmlConfig := ⟨none, [], fun _ => .idle⟩

/-- Moves a core. -/
def goto (config : AmlConfig) (core : BitVec 32) (place : AmlPlace) : AmlConfig :=
  { config with place := Function.update config.place core place }

/-- Replaces the mutex of a handle and moves a core. -/
def put (config : AmlConfig) (handle : BitVec 32) (inner : AmlMutexInner) (core : BitVec 32)
    (place : AmlPlace) : AmlConfig :=
  { config with mutexes := config.mutexes.set handle.toNat inner }.goto core place

/-- The steps of `acquire` on its mutex: the test of the owner. -/
def testOwner (profile : Profile) (config : AmlConfig) (core handle : BitVec 32)
    (timeout : BitVec 16) (inner : AmlMutexInner) : AmlConfig :=
  if inner.owner = some core then
    match uintAdd 32 profile inner.count 1 with
    | none => config.goto core .panicked
    | some count => config.put handle { inner with count } core (.leave (.acquire handle timeout))
  else
    config.goto core (.tryLock handle timeout 0)

/-- An iteration of the loop of `acquire`. -/
def tryLock (profile : Profile) (config : AmlConfig) (core handle : BitVec 32)
    (timeout : BitVec 16) (elapsed : Nat) (inner : AmlMutexInner) : AmlConfig :=
  match inner.attempt profile timeout elapsed with
  | .taken => config.put handle ⟨true, some core, 1⟩ core (.leave (.acquire handle timeout))
  | .timedOut => config.goto core (.leave (.acquire handle timeout))
  | .again next => config.goto core (.tryLock handle timeout next)
  | .overflow => config.goto core .panicked

/-- `release` up to `force_unlock`. -/
def decrement (config : AmlConfig) (core handle : BitVec 32) (inner : AmlMutexInner) : AmlConfig :=
  if 0 < inner.count then
    if inner.count - 1 = 0 then
      config.put handle { inner with owner := none, count := 0 } core (.unlock handle)
    else
      config.put handle { inner with count := inner.count - 1 } core (.leave (.release handle))
  else
    config.goto core (.leave (.release handle))

/-- A step on the mutex of a handle. -/
def withMutex (config : AmlConfig) (core handle : BitVec 32) (body : AmlMutexInner → AmlConfig) :
    AmlConfig :=
  match config.mutexes[handle.toNat]? with
  | none => config.goto core .panicked
  | some inner => body inner

/-- The next step of a core. -/
def advance (profile : Profile) (config : AmlConfig) (core : BitVec 32) : AmlConfig :=
  match config.place core with
  | .idle | .panicked => config
  | .enter call =>
      match config.table with
      | none => { config with table := some core }.goto core (.first call)
      | some _ => config
  | .push =>
      { config with mutexes := (TmpHandler.createMutex config.mutexes).2 }.goto core
        (.leave .createMutex)
  | .testOwner handle timeout =>
      config.withMutex core handle (config.testOwner profile core handle timeout)
  | .tryLock handle timeout elapsed =>
      config.withMutex core handle (config.tryLock profile core handle timeout elapsed)
  | .decrement handle => config.withMutex core handle (config.decrement core handle)
  | .unlock handle =>
      config.withMutex core handle fun inner =>
        config.put handle { inner with lock := false } core (.leave (.release handle))
  | .leave _ => { config with table := none }.goto core .idle

/-- Performs an action; only an idle core begins a call. -/
def step (profile : Profile) (config : AmlConfig) : AmlAction → AmlConfig
  | .call core call => if config.place core = .idle then config.goto core (.enter call) else config
  | .run core => config.advance profile core

/-! ## The lock of the table -/

/-- The core inside a call is the one that holds the lock of the table, and a mutex with an owner
is locked. -/
structure Guarded (config : AmlConfig) : Prop where
  guard : ∀ core, (config.place core).Inside ↔ config.table = some core
  locked : ∀ inner ∈ config.mutexes, inner.owner.isSome = true → inner.lock = true
  freed : ∀ core handle inner, config.place core = .unlock handle →
    config.mutexes[handle.toNat]? = some inner → inner.owner = none

/-- A step of `core` that keeps the lock of the table. -/
structure Turned (config : AmlConfig) (core : BitVec 32) (after : AmlConfig) : Prop where
  table : after.table = config.table
  others : ∀ other, other ≠ core → after.place other = config.place other
  inside : (after.place core).Inside
  locked : ∀ inner ∈ after.mutexes, inner.owner.isSome = true → inner.lock = true
  freed : ∀ handle inner, after.place core = .unlock handle →
    after.mutexes[handle.toNat]? = some inner → inner.owner = none

section Turn

variable {config after : AmlConfig} {core handle : BitVec 32} {inner : AmlMutexInner}
  {place : AmlPlace}

theorem place_goto_self : (config.goto core place).place core = place := Function.update_self ..

theorem place_goto_of_ne {other : BitVec 32} (different : other ≠ core) :
    (config.goto core place).place other = config.place other := Function.update_of_ne different ..

theorem turned_goto {mutexes : List AmlMutexInner} (inside : place.Inside)
    (locked : ∀ inner ∈ mutexes, inner.owner.isSome = true → inner.lock = true)
    (freed : ∀ handle inner, place = .unlock handle → mutexes[handle.toNat]? = some inner →
      inner.owner = none) :
    config.Turned core ({ config with mutexes }.goto core place) where
  table := rfl
  others other different := place_goto_of_ne different
  inside := by
    rw [place_goto_self]
    exact inside
  locked := locked
  freed handle found at_unlock := by
    rw [place_goto_self] at at_unlock
    exact freed handle found at_unlock

theorem Guarded.goto (guarded : config.Guarded) (inside : place.Inside)
    (elsewhere : ∀ handle, place ≠ .unlock handle) :
    config.Turned core (config.goto core place) :=
  turned_goto inside guarded.locked fun handle _ at_unlock => absurd at_unlock (elsewhere handle)

theorem Guarded.put (guarded : config.Guarded) (inside : place.Inside)
    (locked : inner.owner.isSome = true → inner.lock = true)
    (freed : ∀ other, place = .unlock other → other = handle ∧ inner.owner = none) :
    config.Turned core (config.put handle inner core place) := by
  refine turned_goto inside ?_ ?_
  · intro other member
    obtain old | rfl := List.mem_or_eq_of_mem_set member
    · exact guarded.locked other old
    · exact locked
  · intro other found at_unlock entry
    obtain ⟨rfl, none⟩ := freed other at_unlock
    obtain ⟨_, value⟩ := List.getElem?_eq_some_iff.mp entry
    rw [List.getElem_set_self] at value
    rw [← value]
    exact none

theorem Guarded.withMutex {body : AmlMutexInner → AmlConfig} (guarded : config.Guarded)
    (turned : ∀ inner, config.mutexes[handle.toNat]? = some inner →
      config.Turned core (body inner)) :
    config.Turned core (config.withMutex core handle body) := by
  rw [AmlConfig.withMutex]
  cases entry : config.mutexes[handle.toNat]? with
  | none => exact guarded.goto trivial nofun
  | some inner => exact turned inner entry

theorem Guarded.turned_push (guarded : config.Guarded) :
    config.Turned core
      ({ config with mutexes := (TmpHandler.createMutex config.mutexes).2 }.goto core
        (.leave .createMutex)) := by
  refine turned_goto trivial ?_ nofun
  intro inner member
  obtain old | new := List.mem_append.mp member
  · exact guarded.locked inner old
  · obtain rfl := List.mem_singleton.mp new
    nofun

theorem Guarded.turned_testOwner {profile : Profile} {timeout : BitVec 16}
    (guarded : config.Guarded) (entry : config.mutexes[handle.toNat]? = some inner) :
    config.Turned core (config.testOwner profile core handle timeout inner) := by
  rw [AmlConfig.testOwner]
  split
  · cases uintAdd 32 profile inner.count 1 with
    | none => exact guarded.goto trivial nofun
    | some count =>
        refine guarded.put trivial ?_ nofun
        exact guarded.locked inner (List.mem_of_getElem? entry)
  · exact guarded.goto trivial nofun

theorem Guarded.turned_tryLock {profile : Profile} {timeout : BitVec 16} {elapsed : Nat}
    (guarded : config.Guarded) :
    config.Turned core (config.tryLock profile core handle timeout elapsed inner) := by
  rw [AmlConfig.tryLock]
  cases inner.attempt profile timeout elapsed with
  | taken => exact guarded.put trivial (fun _ => rfl) nofun
  | timedOut => exact guarded.goto trivial nofun
  | again next => exact guarded.goto trivial nofun
  | overflow => exact guarded.goto trivial nofun

theorem Guarded.turned_decrement (guarded : config.Guarded)
    (entry : config.mutexes[handle.toNat]? = some inner) :
    config.Turned core (config.decrement core handle inner) := by
  rw [AmlConfig.decrement]
  split
  · split
    · refine guarded.put trivial nofun ?_
      rintro other same
      cases same
      exact ⟨rfl, rfl⟩
    · refine guarded.put trivial ?_ nofun
      exact guarded.locked inner (List.mem_of_getElem? entry)
  · exact guarded.goto trivial nofun

/-- The steps inside a call. -/
theorem Guarded.advance_inside (guarded : config.Guarded) (profile : Profile)
    (inside : (config.place core).Inside) (stays : ∀ call, config.place core ≠ .leave call) :
    config.Turned core (config.advance profile core) := by
  rw [advance]
  cases at_place : config.place core with
  | idle => simp [at_place, AmlPlace.Inside] at inside
  | enter call => simp [at_place, AmlPlace.Inside] at inside
  | leave call => exact absurd at_place (stays call)
  | panicked =>
      refine ⟨rfl, fun _ _ => rfl, by rwa [at_place] at inside ⊢, guarded.locked, ?_⟩
      exact fun handle inner => guarded.freed core handle inner
  | push => exact guarded.turned_push
  | testOwner handle timeout =>
      exact guarded.withMutex fun inner entry => guarded.turned_testOwner entry
  | tryLock handle timeout elapsed =>
      exact guarded.withMutex fun inner entry => guarded.turned_tryLock
  | decrement handle =>
      exact guarded.withMutex fun inner entry => guarded.turned_decrement entry
  | unlock handle =>
      apply guarded.withMutex
      intro inner entry
      refine guarded.put trivial ?_ nofun
      intro owned
      simp [guarded.freed core handle inner at_place entry] at owned

theorem Guarded.of_turned (guarded : config.Guarded) (inside : (config.place core).Inside)
    (turned : config.Turned core after) : after.Guarded := by
  have guard (other : BitVec 32) : (after.place other).Inside ↔ after.table = some other := by
    rw [turned.table]
    by_cases same : other = core
    · rw [same]
      exact iff_of_true turned.inside ((guarded.guard core).mp inside)
    · rw [turned.others other same]
      exact guarded.guard other
  refine ⟨guard, turned.locked, ?_⟩
  intro other handle inner at_unlock
  have holds := (guard other).mp (by rw [at_unlock]; trivial)
  rw [turned.table, (guarded.guard core).mp inside] at holds
  obtain rfl := Option.some.inj holds
  exact turned.freed handle inner at_unlock

/-- A core that enters, leaves or begins a call changes nothing but the lock of the table. -/
theorem Guarded.outside (guarded : config.Guarded) {table : Option (BitVec 32)}
    (moved : place.Inside ↔ table = some core)
    (elsewhere : ∀ handle, place ≠ .unlock handle)
    (kept : ∀ other, other ≠ core → ((config.place other).Inside ↔ table = some other)) :
    ({ config with table }.goto core place).Guarded := by
  refine ⟨?_, guarded.locked, ?_⟩
  · intro other
    by_cases same : other = core
    · subst same
      rw [place_goto_self]
      exact moved
    · rw [place_goto_of_ne same]
      exact kept other same
  · intro other handle inner at_unlock
    by_cases same : other = core
    · subst same
      rw [place_goto_self] at at_unlock
      exact absurd at_unlock (elsewhere handle)
    · rw [place_goto_of_ne same] at at_unlock
      exact guarded.freed other handle inner at_unlock

theorem Guarded.leave {call : AmlCall} (guarded : config.Guarded)
    (at_leave : config.place core = .leave call) :
    ({ config with table := none }.goto core .idle).Guarded := by
  have holds := (guarded.guard core).mp (by rw [at_leave]; trivial)
  refine guarded.outside (by simp [AmlPlace.Inside]) nofun ?_
  intro other different
  rw [guarded.guard other, holds]
  simp [different.symm]

theorem Guarded.enter {call : AmlCall} (guarded : config.Guarded) (free : config.table = none) :
    ({ config with table := some core }.goto core (.first call)).Guarded := by
  refine guarded.outside (iff_of_true (AmlPlace.inside_first call) rfl) ?_ ?_
  · cases call <;> nofun
  · intro other different
    rw [guarded.guard other, free]
    simp [different.symm]

theorem Guarded.begin {call : AmlCall} (guarded : config.Guarded)
    (idle : config.place core = .idle) : (config.goto core (.enter call)).Guarded := by
  refine guarded.outside ?_ nofun fun other _ => guarded.guard other
  rw [← guarded.guard core, idle]
  exact Iff.rfl

theorem Guarded.advance (guarded : config.Guarded) (profile : Profile) (core : BitVec 32) :
    (config.advance profile core).Guarded := by
  by_cases leaving : ∃ call, config.place core = .leave call
  · obtain ⟨call, at_leave⟩ := leaving
    rw [AmlConfig.advance, at_leave]
    exact guarded.leave at_leave
  by_cases inside : (config.place core).Inside
  · apply guarded.of_turned inside
    exact guarded.advance_inside profile inside fun call at_leave => leaving ⟨call, at_leave⟩
  rw [AmlConfig.advance]
  cases at_place : config.place core with
  | idle => exact guarded
  | enter call =>
      cases free : config.table with
      | some holder => exact guarded
      | none => exact guarded.enter free
  | _ => exact absurd (by rw [at_place]; trivial) inside

theorem Guarded.step (guarded : config.Guarded) (profile : Profile) (action : AmlAction) :
    (config.step profile action).Guarded := by
  cases action with
  | run core => exact guarded.advance profile core
  | call core call =>
      rw [AmlConfig.step]
      split
      · rename_i idle
        exact guarded.begin idle
      · exact guarded

theorem guarded_start : start.Guarded where
  guard core := by simp [start, AmlPlace.Inside]
  locked inner member := by cases member
  freed core handle inner at_unlock := by cases at_unlock

theorem Guarded.run (guarded : config.Guarded) (profile : Profile) (actions : List AmlAction) :
    (actions.foldl (AmlConfig.step profile) config).Guarded := by
  induction actions generalizing config with
  | nil => exact guarded
  | cons action rest induction => exact induction (guarded.step profile action)

end Turn

/-! ## Atomicity -/

/-- The request whose call ends with an action. -/
def returned (config : AmlConfig) : AmlAction → Option AmlRequest
  | .call _ _ => none
  | .run core =>
      match config.place core with
      | .leave call => some ⟨core, call⟩
      | _ => none

/-- The requests that have been served, in the order in which they returned. -/
def served (profile : Profile) (config : AmlConfig) : List AmlAction → List AmlRequest
  | [] => []
  | action :: rest =>
      (config.returned action).toList ++ served profile (config.step profile action) rest

/-- How far the core that holds the table is with its request, which `system` has not served. -/
def Pending (profile : Profile) (system : AmlSystem) (core : BitVec 32)
    (mutexes : List AmlMutexInner) : AmlPlace → Prop
  | .tryLock handle _ _ => mutexes = system.mutexes ∧
      ∀ inner, mutexes[handle.toNat]? = some inner → inner.owner ≠ some core
  | .unlock handle => ∃ inner, system.mutexes[handle.toNat]? = some inner ∧ inner.count = 1 ∧
      mutexes = system.mutexes.set handle.toNat { inner with owner := none, count := 0 }
  | .leave call => (system.step profile ⟨core, call⟩).mutexes = mutexes ∧
      (system.step profile ⟨core, call⟩).stuck = false
  | .panicked => True
  | _ => mutexes = system.mutexes

/-- `system` has served the requests that have returned. -/
structure Refines (profile : Profile) (config : AmlConfig) (system : AmlSystem) : Prop where
  running : system.stuck = false
  free : config.table = none → config.mutexes = system.mutexes
  held : ∀ core, config.table = some core →
    Pending profile system core config.mutexes (config.place core)

section Refine

variable {profile : Profile} {config : AmlConfig} {system : AmlSystem} {core handle : BitVec 32}
  {timeout : BitVec 16} {inner : AmlMutexInner}

/-- A turn at a mutex that returns. -/
theorem pending_leave_acquire {next : AmlMutexInner} (running : system.stuck = false)
    (entry : system.mutexes[handle.toNat]? = some inner)
    (call : inner.acquire profile core timeout = some (.ok (), next)) :
    Pending profile system core (system.mutexes.set handle.toNat next)
      (.leave (.acquire handle timeout)) := by
  have after := AmlSystem.step_acquire_ok running entry call
  exact ⟨congrArg AmlSystem.mutexes after, (congrArg AmlSystem.stuck after).trans running⟩

theorem pending_leave_release (running : system.stuck = false)
    (entry : system.mutexes[handle.toNat]? = some inner) :
    Pending profile system core (system.mutexes.set handle.toNat inner.release)
      (.leave (.release handle)) := by
  have after : system.step profile ⟨core, .release handle⟩ = _ :=
    AmlSystem.step_release running entry
  exact ⟨congrArg AmlSystem.mutexes after, (congrArg AmlSystem.stuck after).trans running⟩

/-- How far `core` is with its request in a configuration. -/
def PendingAt (profile : Profile) (system : AmlSystem) (core : BitVec 32) (config : AmlConfig) :
    Prop :=
  Pending profile system core config.mutexes (config.place core)

theorem pendingAt_goto {mutexes : List AmlMutexInner} {place : AmlPlace}
    (pending : Pending profile system core mutexes place) :
    PendingAt profile system core ({ config with mutexes }.goto core place) := by
  rw [PendingAt, place_goto_self]
  exact pending

theorem pendingAt_withMutex {body : AmlMutexInner → AmlConfig}
    (found : ∀ inner, config.mutexes[handle.toNat]? = some inner →
      PendingAt profile system core (body inner)) :
    PendingAt profile system core (config.withMutex core handle body) := by
  rw [withMutex]
  cases entry : config.mutexes[handle.toNat]? with
  | none => exact pendingAt_goto trivial
  | some inner => exact found inner entry

theorem pendingAt_testOwner (running : system.stuck = false)
    (same : config.mutexes = system.mutexes)
    (entry : config.mutexes[handle.toNat]? = some inner) :
    PendingAt profile system core (config.testOwner profile core handle timeout inner) := by
  rw [testOwner]
  split
  · rename_i own
    cases sum : uintAdd 32 profile inner.count 1 with
    | none => exact pendingAt_goto trivial
    | some count =>
        have call : inner.acquire profile core timeout = some (.ok (), { inner with count }) := by
          rw [AmlMutexInner.acquire, if_pos own, sum]
          rfl
        apply pendingAt_goto
        rw [same] at entry ⊢
        exact pending_leave_acquire running entry call
  · rename_i foreign
    refine pendingAt_goto ⟨same, ?_⟩
    intro found lookup
    obtain rfl := Option.some.inj (entry.symm.trans lookup)
    exact foreign

theorem pendingAt_tryLock {elapsed : Nat} (running : system.stuck = false)
    (same : config.mutexes = system.mutexes) (foreign : inner.owner ≠ some core)
    (entry : config.mutexes[handle.toNat]? = some inner) :
    PendingAt profile system core (config.tryLock profile core handle timeout elapsed inner) := by
  rw [tryLock]
  have stay (next : Nat) : Pending profile system core config.mutexes
      (.tryLock handle timeout next) := by
    refine ⟨same, ?_⟩
    intro found lookup
    obtain rfl := Option.some.inj (entry.symm.trans lookup)
    exact foreign
  cases outcome : inner.attempt profile timeout elapsed with
  | overflow => exact pendingAt_goto trivial
  | again next => exact pendingAt_goto (stay next)
  | taken =>
      have call : inner.acquire profile core timeout = some (.ok (), ⟨true, some core, 1⟩) :=
        AmlMutexInner.acquire_of_free foreign (AmlMutexInner.lock_of_taken outcome)
      apply pendingAt_goto
      rw [same] at entry ⊢
      exact pending_leave_acquire running entry call
  | timedOut =>
      have call : inner.acquire profile core timeout =
          some (.error .mutexAcquireTimeout, inner) := by
        obtain ⟨held, finite⟩ := AmlMutexInner.lock_of_timedOut outcome
        exact AmlMutexInner.acquire_of_timeout foreign held finite
      rw [same] at entry
      have after := AmlSystem.step_acquire_error running entry call
      refine pendingAt_goto ⟨?_, ?_⟩
      · rw [after, same]
      · rw [after, running]

theorem pendingAt_decrement (running : system.stuck = false)
    (same : config.mutexes = system.mutexes)
    (entry : config.mutexes[handle.toNat]? = some inner) :
    PendingAt profile system core (config.decrement core handle inner) := by
  rw [same] at entry
  have leave : Pending profile system core _ (.leave (.release handle)) :=
    pending_leave_release running entry
  rw [decrement]
  obtain zero | one | nested : inner.count = 0 ∨ inner.count = 1 ∨ 1 < inner.count := by omega
  · rw [if_neg (by omega)]
    apply pendingAt_goto
    rw [AmlMutexInner.release_of_zero zero, AmlSystem.set_of_entry entry] at leave
    rw [same]
    exact leave
  · rw [if_pos (by omega), if_pos (by omega)]
    refine pendingAt_goto ⟨inner, entry, one, ?_⟩
    rw [same]
  · rw [if_pos (by omega), if_neg (by omega)]
    apply pendingAt_goto
    rw [AmlMutexInner.release_of_gt nested] at leave
    rw [same]
    exact leave

theorem pendingAt_unlock (running : system.stuck = false)
    (entry : system.mutexes[handle.toNat]? = some inner) (one : inner.count = 1)
    (changed : config.mutexes =
      system.mutexes.set handle.toNat { inner with owner := none, count := 0 }) :
    PendingAt profile system core (config.withMutex core handle fun inner =>
      config.put handle { inner with lock := false } core (.leave (.release handle))) := by
  apply pendingAt_withMutex
  intro found lookup
  obtain ⟨_, value⟩ := List.getElem?_eq_some_iff.mp (changed ▸ lookup)
  rw [List.getElem_set_self] at value
  apply pendingAt_goto
  rw [← value, changed, List.set_set]
  have leave : Pending profile system core _ (.leave (.release handle)) :=
    pending_leave_release running entry
  rw [AmlMutexInner.release_of_one one] at leave
  exact leave

/-- The next step inside a call. -/
theorem Refines.advance_inside (refines : config.Refines profile system) (guarded : config.Guarded)
    (inside : (config.place core).Inside) (stays : ∀ call, config.place core ≠ .leave call) :
    (config.advance profile core).Refines profile system := by
  have turned := guarded.advance_inside profile inside stays
  have holds := (guarded.guard core).mp inside
  have running := refines.running
  have pending := refines.held core holds
  refine ⟨running, ?_, ?_⟩
  · intro free
    rw [turned.table, holds] at free
    cases free
  intro holder also
  rw [turned.table, holds] at also
  obtain rfl := Option.some.inj also
  change PendingAt profile system core (config.advance profile core)
  rw [advance]
  cases at_place : config.place core with
  | idle => simp [at_place, AmlPlace.Inside] at inside
  | enter call => simp [at_place, AmlPlace.Inside] at inside
  | leave call => exact absurd at_place (stays call)
  | panicked =>
      rw [PendingAt, at_place]
      trivial
  | push =>
      rw [at_place] at pending
      apply pendingAt_goto
      rw [show config.mutexes = system.mutexes from pending]
      constructor <;> simp [AmlSystem.step, running]
  | testOwner handle timeout =>
      rw [at_place] at pending
      exact pendingAt_withMutex fun inner entry => pendingAt_testOwner running pending entry
  | tryLock handle timeout elapsed =>
      rw [at_place] at pending
      exact pendingAt_withMutex fun inner entry =>
        pendingAt_tryLock running pending.1 (pending.2 inner entry) entry
  | decrement handle =>
      rw [at_place] at pending
      exact pendingAt_withMutex fun inner entry => pendingAt_decrement running pending entry
  | unlock handle =>
      rw [at_place] at pending
      obtain ⟨inner, entry, one, changed⟩ := pending
      exact pendingAt_unlock running entry one changed

theorem Refines.advance_leave {call : AmlCall} (refines : config.Refines profile system)
    (guarded : config.Guarded) (at_leave : config.place core = .leave call) :
    (config.advance profile core).Refines profile (system.step profile ⟨core, call⟩) := by
  have holds := (guarded.guard core).mp (by rw [at_leave]; trivial)
  have pending := refines.held core holds
  rw [at_leave] at pending
  obtain ⟨mutexes, running⟩ := pending
  rw [advance, at_leave]
  exact ⟨running, fun _ => mutexes.symm, nofun⟩

/-- A core at the lock of the table does not touch the mutexes. -/
theorem Refines.advance_outside (refines : config.Refines profile system)
    (outside : ¬ (config.place core).Inside) :
    (config.advance profile core).Refines profile system := by
  rw [advance]
  cases at_place : config.place core with
  | idle => exact refines
  | enter call =>
      cases free : config.table with
      | some holder => exact refines
      | none =>
          refine ⟨refines.running, nofun, ?_⟩
          intro holder holds
          obtain rfl : core = holder := Option.some.inj holds
          apply pendingAt_goto
          have same := refines.free free
          cases call <;> exact same
  | _ => exact absurd (by rw [at_place]; trivial) outside

theorem Refines.begin {call : AmlCall} (refines : config.Refines profile system)
    (guarded : config.Guarded) (idle : config.place core = .idle) :
    (config.goto core (.enter call)).Refines profile system := by
  refine ⟨refines.running, refines.free, ?_⟩
  intro holder holds
  have different : holder ≠ core := by
    rintro rfl
    have inside := (guarded.guard holder).mpr holds
    simp [idle, AmlPlace.Inside] at inside
  rw [place_goto_of_ne different]
  exact refines.held holder holds

theorem returned_of_stays (stays : ∀ call, config.place core ≠ .leave call) :
    config.returned (.run core) = none := by
  rw [returned]
  split
  · rename_i call at_leave
    exact absurd at_leave (stays call)
  · rfl

theorem Refines.step (refines : config.Refines profile system) (guarded : config.Guarded)
    (action : AmlAction) :
    (config.step profile action).Refines profile
      ((config.returned action).toList.foldl (AmlSystem.step profile) system) := by
  cases action with
  | call core call =>
      rw [AmlConfig.step]
      split
      · rename_i idle
        exact refines.begin guarded idle
      · exact refines
  | run core =>
      rw [AmlConfig.step]
      by_cases leaving : ∃ call, config.place core = .leave call
      · obtain ⟨call, at_leave⟩ := leaving
        rw [returned, at_leave]
        exact refines.advance_leave guarded at_leave
      have stays (call : AmlCall) : config.place core ≠ .leave call :=
        fun at_leave => leaving ⟨call, at_leave⟩
      rw [returned_of_stays stays]
      by_cases inside : (config.place core).Inside
      · exact refines.advance_inside guarded inside stays
      · exact refines.advance_outside inside

theorem Refines.run (refines : config.Refines profile system) (guarded : config.Guarded)
    (actions : List AmlAction) :
    (actions.foldl (AmlConfig.step profile) config).Refines profile
      ((config.served profile actions).foldl (AmlSystem.step profile) system) := by
  induction actions generalizing config system with
  | nil => exact refines
  | cons action rest induction =>
      rw [List.foldl_cons, served, List.foldl_append]
      exact induction (refines.step guarded action) (guarded.step profile action)

theorem refines_start : start.Refines profile .start where
  running := rfl
  free _ := rfl
  held core holds := by cases holds

end Refine

/-- Calls are atomic: whenever no core holds the table, the mutexes are what the requests that have
returned leave when they are served one after the other. -/
theorem mutexes_eq_served (profile : Profile) (actions : List AmlAction)
    (free : (actions.foldl (AmlConfig.step profile) start).table = none) :
    (actions.foldl (AmlConfig.step profile) start).mutexes =
      ((start.served profile actions).foldl (AmlSystem.step profile) .start).mutexes :=
  (refines_start.run guarded_start actions).free free

/-! ## Deadlock -/

/-- The core is in the loop of `acquire` for a mutex. -/
def Waits (config : AmlConfig) (core handle : BitVec 32) : Prop :=
  ∃ timeout elapsed, config.place core = .tryLock handle timeout elapsed

/-- The core owns a mutex. -/
def Owns (config : AmlConfig) (core handle : BitVec 32) : Prop :=
  ∃ inner, config.mutexes[handle.toNat]? = some inner ∧ inner.owner = some core

/-- The core executes `release` on a mutex. -/
def Releases (config : AmlConfig) (core handle : BitVec 32) : Prop :=
  config.place core = .enter (.release handle) ∨ config.place core = .decrement handle ∨
    config.place core = .unlock handle ∨ config.place core = .leave (.release handle)

/-- The core is at `AML_MUTEXES.lock()` while another core holds the lock. -/
def BlockedBy (config : AmlConfig) (core holder : BitVec 32) : Prop :=
  (∃ call, config.place core = .enter call) ∧ config.table = some holder

/-- A core waits for a mutex whose owner executes `release` on it and is blocked by that core. -/
def Deadlocked (config : AmlConfig) (waiter owner handle : BitVec 32) : Prop :=
  waiter ≠ owner ∧ config.Waits waiter handle ∧ config.Owns owner handle ∧
    config.Releases owner handle ∧ config.BlockedBy owner waiter

/-- An owner that executes `release` while another core waits is blocked by that core. -/
theorem Guarded.deadlocked {config : AmlConfig} {waiter owner handle : BitVec 32}
    (guarded : config.Guarded) (different : waiter ≠ owner) (waits : config.Waits waiter handle)
    (owns : config.Owns owner handle) (releases : config.Releases owner handle) :
    config.Deadlocked waiter owner handle := by
  refine ⟨different, waits, owns, releases, ?_⟩
  obtain ⟨timeout, elapsed, at_loop⟩ := waits
  have holds := (guarded.guard waiter).mp (by rw [at_loop]; trivial)
  refine ⟨?_, holds⟩
  by_contra entered
  have inside : (config.place owner).Inside := by
    obtain enter | decrement | unlock | leave := releases
    · exact absurd ⟨_, enter⟩ entered
    · rw [decrement]; trivial
    · rw [unlock]; trivial
    · rw [leave]; trivial
  exact different (Option.some.inj (holds.symm.trans ((guarded.guard owner).mp inside)))

/-- The owner is at the lock of the table, and the core that holds it does not come back. -/
structure Stranded (config : AmlConfig) (waiter owner handle : BitVec 32) : Prop where
  table : config.table = some waiter
  waiting : (∃ elapsed, config.place waiter = .tryLock handle 0xFFFF#16 elapsed) ∨
    config.place waiter = .panicked
  locked : ∀ inner, config.mutexes[handle.toNat]? = some inner → inner.lock = true
  blocked : config.place owner = .enter (.release handle)

section Stranded

variable {config : AmlConfig} {waiter owner handle : BitVec 32}
  (stranded : config.Stranded waiter owner handle)

include stranded

theorem Stranded.waiter_ne_owner : waiter ≠ owner := by
  rintro rfl
  have blocked := stranded.blocked
  obtain ⟨elapsed, at_loop⟩ | panicked := stranded.waiting
  · cases at_loop.symm.trans blocked
  · cases panicked.symm.trans blocked

/-- The waiter stays in the loop or panics. -/
theorem Stranded.goto_waiter {place : AmlPlace}
    (waiting : (∃ elapsed, place = .tryLock handle 0xFFFF#16 elapsed) ∨ place = .panicked) :
    (config.goto waiter place).Stranded waiter owner handle where
  table := stranded.table
  waiting := by
    rw [place_goto_self]
    exact waiting
  locked := stranded.locked
  blocked := by
    rw [place_goto_of_ne stranded.waiter_ne_owner.symm]
    exact stranded.blocked

theorem Stranded.advance_waiter (profile : Profile) :
    (config.advance profile waiter).Stranded waiter owner handle := by
  obtain ⟨elapsed, at_loop⟩ | panicked := stranded.waiting
  · rw [AmlConfig.advance, at_loop]
    change (config.withMutex waiter handle
      (config.tryLock profile waiter handle 0xFFFF#16 elapsed)).Stranded waiter owner handle
    rw [withMutex]
    cases entry : config.mutexes[handle.toNat]? with
    | none => exact stranded.goto_waiter (.inr rfl)
    | some inner =>
        -- neither the lock nor the timeout ends the loop
        have held := stranded.locked inner entry
        simp only [tryLock, AmlMutexInner.attempt, held]
        rw [if_neg (by simp), if_neg (by simp)]
        cases uintAdd 16 profile elapsed 1 with
        | none => exact stranded.goto_waiter (.inr rfl)
        | some next => exact stranded.goto_waiter (.inl ⟨next, rfl⟩)
  · rw [AmlConfig.advance, panicked]
    exact stranded

/-- The other cores do not get the lock of the table. -/
theorem Stranded.advance_other (guarded : config.Guarded) (profile : Profile) {core : BitVec 32}
    (other : core ≠ waiter) : config.advance profile core = config := by
  have outside : ¬ (config.place core).Inside := by
    intro inside
    have holds := (guarded.guard core).mp inside
    exact other (Option.some.inj (holds.symm.trans stranded.table))
  rw [AmlConfig.advance]
  cases at_place : config.place core with
  | idle => rfl
  | enter call => rw [stranded.table]
  | _ => exact absurd (by rw [at_place]; trivial) outside

theorem Stranded.step (guarded : config.Guarded) (profile : Profile) (action : AmlAction) :
    (config.step profile action).Stranded waiter owner handle := by
  cases action with
  | run core =>
      rw [AmlConfig.step]
      by_cases same : core = waiter
      · rw [same]
        exact stranded.advance_waiter profile
      · rw [stranded.advance_other guarded profile same]
        exact stranded
  | call core call =>
      rw [AmlConfig.step]
      split
      · rename_i idle
        have not_waiter : waiter ≠ core := by
          rintro rfl
          obtain ⟨elapsed, at_loop⟩ | panicked := stranded.waiting
          · cases idle.symm.trans at_loop
          · cases idle.symm.trans panicked
        have not_owner : owner ≠ core := by
          rintro rfl
          cases idle.symm.trans stranded.blocked
        refine ⟨stranded.table, ?_, stranded.locked, ?_⟩
        · rw [place_goto_of_ne not_waiter]
          exact stranded.waiting
        · rw [place_goto_of_ne not_owner]
          exact stranded.blocked
      · exact stranded

theorem Stranded.run (guarded : config.Guarded) (profile : Profile) (actions : List AmlAction) :
    (actions.foldl (AmlConfig.step profile) config).Stranded waiter owner handle := by
  induction actions generalizing config with
  | nil => exact stranded
  | cons action rest induction =>
      exact induction (stranded.step guarded profile action) (guarded.step profile action)

end Stranded

/-- A deadlock with a core that waits without a timeout. -/
theorem Guarded.stranded {config : AmlConfig} {waiter owner handle : BitVec 32} {elapsed : Nat}
    (guarded : config.Guarded) (deadlocked : config.Deadlocked waiter owner handle)
    (at_loop : config.place waiter = .tryLock handle 0xFFFF#16 elapsed) :
    config.Stranded waiter owner handle := by
  obtain ⟨-, -, ⟨inner, entry, owner_eq⟩, releases, ⟨call, entered⟩, holds⟩ := deadlocked
  refine ⟨holds, .inl ⟨elapsed, at_loop⟩, ?_, ?_⟩
  · intro found lookup
    obtain rfl := Option.some.inj (entry.symm.trans lookup)
    exact guarded.locked inner (List.mem_of_getElem? entry) (by rw [owner_eq]; rfl)
  · obtain enter | decrement | unlock | leave := releases
    · exact enter
    · cases entered.symm.trans decrement
    · cases entered.symm.trans unlock
    · cases entered.symm.trans leave

end AmlConfig

/-- No core is deadlocked exactly if no owner executes `release` on a mutex while another core waits
for it; and if that core waits without a timeout, the owner never gets behind the lock. -/
theorem amlRun_deadlockFree_iff (profile : Profile) (actions : List AmlAction) :
    let config := actions.foldl (AmlConfig.step profile) .start
    ((∀ waiter owner handle, ¬ config.Deadlocked waiter owner handle) ↔
      ∀ waiter owner handle, waiter ≠ owner → config.Waits waiter handle →
        config.Owns owner handle → ¬ config.Releases owner handle) ∧
    ∀ waiter owner handle elapsed, config.Deadlocked waiter owner handle →
      config.place waiter = .tryLock handle 0xFFFF#16 elapsed → ∀ later : List AmlAction,
        (later.foldl (AmlConfig.step profile) config).place owner = .enter (.release handle) := by
  intro config
  have guarded : config.Guarded := AmlConfig.guarded_start.run profile actions
  refine ⟨⟨?_, ?_⟩, ?_⟩
  · intro free waiter owner handle different waits owns releases
    exact free waiter owner handle (guarded.deadlocked different waits owns releases)
  · rintro apart waiter owner handle ⟨different, waits, owns, releases, -⟩
    exact apart waiter owner handle different waits owns releases
  · intro waiter owner handle elapsed deadlocked at_loop later
    exact ((guarded.stranded deadlocked at_loop).run guarded profile later).blocked

/-- Core 0 owns a mutex, core 1 waits for it, and core 0 releases it. -/
theorem amlWait_deadlocks :
    let actions : List AmlAction :=
      [.call 0 .createMutex, .run 0, .run 0, .run 0,
        .call 0 (.acquire 0 0xFFFF), .run 0, .run 0, .run 0, .run 0,
        .call 1 (.acquire 0 0xFFFF), .run 1, .run 1, .run 1, .call 0 (.release 0), .run 0]
    (actions.foldl (AmlConfig.step .release) .start).Deadlocked 1 0 0 := by
  refine ⟨by decide, ⟨0xFFFF, 1, by decide⟩, ⟨⟨true, some 0, 1⟩, by decide, rfl⟩, .inl ?_, ?_, ?_⟩
  · decide
  · exact ⟨.release 0, by decide⟩
  · decide

end Okots
