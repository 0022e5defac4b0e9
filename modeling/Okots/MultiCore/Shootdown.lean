import Okots.Library.Reachable
import Okots.Library.StaleCache
import Okots.Main
import Okots.Paging.Atomicity

/-!
# Freeing tables while other cores walk them

`util_update_paging` edits the tables, broadcasts interrupt 33 to the other cores, whose handlers
flush their translations, and frees the detached tables.  It does not wait for the handlers, and the
core that runs it does not flush at all.  A frame is freed while no core can walk it exactly when
every core that held an entry for it at the end of the edit has flushed by chance.
-/

namespace Okots

open StateExec Exec PageLevel StaleCache TransitionSystem

/-! ## Single deallocations -/

/-- The memory after one frame has been returned. -/
def deallocFrame (platform : Platform) (memory : TableMemory) (frame : Nat) : TableMemory :=
  (memory.setFrame frame (platform.allocator.leftover memory.history frame)).record (.dealloc frame)

/-- The frames returned between two histories, in order. -/
def deallocations (before after : List FrameEvent) : List Nat :=
  ((after.take (after.length - before.length)).filterMap fun event =>
    match event with
    | .dealloc frame => some frame
    | .alloc _ => none).reverse

/-- The frames that `free_not_used_paging` returns, in order. -/
def freeOrder (platform : Platform) (tables : List (Nat × PageLevel)) (memory : TableMemory) :
    List Nat :=
  deallocations memory.history (freeNotUsedPaging platform tables memory).2.history

variable {platform : Platform} {memory : TableMemory} {tables : List (Nat × PageLevel)}

theorem foldl_deallocFrame_history (order : List Nat) (memory : TableMemory) :
    (order.foldl (deallocFrame platform) memory).history =
      shrunk memory.history order.reverse := by
  induction order generalizing memory with
  | nil => rfl
  | cons frame rest induction =>
      rw [List.foldl_cons, induction, List.reverse_cons, shrunk, shrunk, List.map_append,
        List.append_assoc]
      rfl

theorem deallocations_shrunk (history : List FrameEvent) (order : List Nat) :
    deallocations history (shrunk history order.reverse) = order := by
  have taken : (shrunk history order.reverse).take
      ((shrunk history order.reverse).length - history.length) = order.reverse.map .dealloc := by
    simp [shrunk]
  rw [deallocations, taken, List.filterMap_map]
  simp

/-- From the first memory to the second one only frames have been returned. -/
def OnlyDeallocates (platform : Platform) (before after : TableMemory) : Prop :=
  ∃ order, after = List.foldl (deallocFrame platform) before order

theorem OnlyDeallocates.refl (memory : TableMemory) : OnlyDeallocates platform memory memory :=
  ⟨[], rfl⟩

theorem OnlyDeallocates.trans {middle after : TableMemory}
    (first : OnlyDeallocates platform memory middle)
    (second : OnlyDeallocates platform middle after) : OnlyDeallocates platform memory after := by
  obtain ⟨order, rfl⟩ := first
  obtain ⟨later, rfl⟩ := second
  exact ⟨order ++ later, (List.foldl_append ..).symm⟩

/-- `dealloc_recursive` only returns frames. -/
theorem deallocRecursive_onlyDeallocates (platform : Platform) (level : PageLevel) :
    ∀ target memory, Ends (deallocRecursive platform target level) memory
      (fun _ after => OnlyDeallocates platform memory after) (fun _ _ => False) := by
  induction level using downInduction with
  | step level induction =>
      intro target memory
      rw [deallocRecursive, descend_eq, deallocLevel, ends_bind]
      have children : Ends (deallocChildren platform
          (level.down.map fun next => (next, fun child => deallocRecursive platform child next))
          target) memory (fun _ after => OnlyDeallocates platform memory after)
          (fun _ _ => False) := by
        cases step : level.down with
        | none => exact OnlyDeallocates.refl memory
        | some next =>
            refine forEach_ends (fun _ current => OnlyDeallocates platform memory current)
              (OnlyDeallocates.refl memory) fun _ index _ current _ earlier => ?_
            rw [ends_bind, loadEntry, ends_read]
            split
            · exact (induction next step _ current).mono (fun _ _ later => earlier.trans later)
                fun _ _ failed => failed
            · exact earlier
      refine children.mono (fun _ middle freed => ?_) fun _ _ failed => failed
      exact freed.trans ⟨[target], rfl⟩

/-- `free_not_used_paging` returns the frames of `freeOrder` one after the other. -/
theorem freeNotUsedPaging_eq (platform : Platform) (tables : List (Nat × PageLevel))
    (memory : TableMemory) :
    freeNotUsedPaging platform tables memory =
      (.ok (), (freeOrder platform tables memory).foldl (deallocFrame platform) memory) := by
  have ends : Ends (freeNotUsedPaging platform tables) memory
      (fun _ after => OnlyDeallocates platform memory after) (fun _ _ => False) :=
    forEach_ends (fun _ current => OnlyDeallocates platform memory current)
      (OnlyDeallocates.refl memory) fun _ target _ current _ earlier =>
        (deallocRecursive_onlyDeallocates platform target.2 target.1 current).mono
          (fun _ _ later => earlier.trans later) fun _ _ failed => failed
  obtain ⟨_, _, run, order, rfl⟩ := ends.exists_ok fun _ _ failed => failed
  rw [freeOrder, run, foldl_deallocFrame_history, deallocations_shrunk]

theorem shrunk_injective (history : List FrameEvent) : Function.Injective (shrunk history) := by
  intro left right same
  have mapped : left.map FrameEvent.dealloc = right.map .dealloc := List.append_cancel_right same
  exact List.map_injective_iff.mpr (fun _ _ => FrameEvent.dealloc.inj) mapped

/-- The returned frames are those of the detached tables. -/
theorem mem_freeOrder (nodup : (detachedFrames memory.words tables).Nodup) {frame : Nat} :
    frame ∈ freeOrder platform tables memory ↔ frame ∈ detachedFrames memory.words tables := by
  have run := freeNotUsedPaging_eq platform tables memory
  obtain ⟨after, released, freed⟩ := freeNotUsedPaging_run platform nodup
  obtain ⟨order, same, history⟩ := freed.history
  obtain ⟨-, rfl⟩ := Prod.mk.inj (run.symm.trans released)
  rw [foldl_deallocFrame_history] at history
  rw [← same, ← shrunk_injective _ history]
  simp

/-! ## The model -/

/-- Where the core that runs `util_update_paging` is. -/
inductive UpdatePc (ι : Type*) where
  | idle
  /-- `update_paging` is editing the tables and will leave `edited`; it will return the detached
  tables or fail. -/
  | editing (initiator : ι) (outcome : Option (List (Nat × PageLevel))) (edited : CoreState)
  /-- The interrupt has not been sent. -/
  | edited (initiator : ι) (tables : List (Nat × PageLevel))
  /-- The frames that `free_not_used_paging` has still to return. -/
  | freeing (initiator : ι) (frames : List Nat)

/-- Cores that share the installed table. -/
structure Shootdown (ι : Type*) where
  /-- The tables and the installed top table. -/
  core : CoreState
  pc : UpdatePc ι
  /-- The frames that cached paging-structure entries point to. -/
  caches : Caches ι Nat
  /-- Interrupt 33 has been sent to the core and not been handled. -/
  pending : ι → Bool

/-- A step of one core. -/
inductive ShootdownEvent (ι : Type*) where
  /-- The core caches an entry that points to `frame`. -/
  | walk (core : ι) (frame : Nat)
  /-- The core flushes for a reason of its own. -/
  | flush (core : ι)
  /-- The core handles interrupt 33. -/
  | deliver (core : ι)
  /-- `util_update_paging` is called. -/
  | edit (initiator : ι) (mapList : List MemRangeData) (flags : List PageEntryFlags)
  /-- `update_paging` returns. -/
  | finishEdit
  | broadcast
  /-- `free_not_used_paging` returns the next frame. -/
  | free
  /-- `util_update_paging` returns. -/
  | finish

/-- `util_update_paging` up to the broadcast. -/
def editTables (platform : Platform) (features : CpuFeatures) (mapList : List MemRangeData)
    (flags : List PageEntryFlags) : Core (List (Nat × PageLevel)) := do
  let kept ← ofOption .panic (retainFlags features.nx 0 mapList flags)
  let old ← read CoreState.pageTable
  let res ← onTables (updatePaging platform old kept.1 kept.2 features.allowHuge)
  return res.2

/-- `util_update_paging` frees what the edit returns. -/
theorem utilUpdatePaging_eq (platform : Platform) (features : CpuFeatures)
    (mapList : List MemRangeData) (flags : List PageEntryFlags) (core : CoreState) :
    utilUpdatePaging platform features true mapList flags core =
      (editTables platform features mapList flags >>= fun tables =>
        onTables (freeNotUsedPaging platform tables)) core := by
  simp only [utilUpdatePaging, editTables, bind, pure, Exec.read]
  cases retainFlags features.nx 0 mapList flags with
  | none => rfl
  | some kept =>
      simp only [ofOption, pure, onTables, zoom]
      rcases updatePaging platform core.pageTable kept.1 kept.2 features.allowHuge core.memory with
        ⟨_ | _, _⟩ <;> rfl

/-- The tables a walk from the installed top table can meet. -/
def reachableFrames (features : CpuFeatures) (core : CoreState) : Multiset Nat :=
  tableFrames core.memory.words features.target core.cr3

namespace Shootdown

variable {ι : Type*}

/-- No core has cached anything and no update is running. -/
def start (core : CoreState) : Shootdown ι := ⟨core, .idle, .empty, fun _ => false⟩

/-- Which steps are possible. A table that can be reached while the tables are being edited can be
reached before or after. -/
def Enabled (platform : Platform) (features : CpuFeatures) (state : Shootdown ι) :
    ShootdownEvent ι → Prop
  | .walk _ frame =>
      frame ∈ reachableFrames features state.core ∨
        ∃ initiator outcome edited, state.pc = .editing initiator outcome edited ∧
          frame ∈ reachableFrames features edited
  | .flush _ => True
  | .deliver core => state.pending core = true
  | .edit _ mapList flags =>
      state.pc = .idle ∧
        (editTables platform features mapList flags state.core).1 ≠ .error .panic
  | .finishEdit => ∃ initiator outcome edited, state.pc = .editing initiator outcome edited
  | .broadcast => ∃ initiator tables, state.pc = .edited initiator tables
  | .free => ∃ initiator frame rest, state.pc = .freeing initiator (frame :: rest)
  | .finish => ∃ initiator, state.pc = .freeing initiator []

variable [DecidableEq ι]

/-- The state after a step. -/
def next (platform : Platform) (features : CpuFeatures) (state : Shootdown ι) :
    ShootdownEvent ι → Shootdown ι
  | .walk core frame => { state with caches := state.caches.fill core frame }
  | .flush core => { state with caches := state.caches.flush core }
  | .deliver core =>
      { state with
        caches := state.caches.flush core
        pending := Function.update state.pending core false }
  | .edit initiator mapList flags =>
      match editTables platform features mapList flags state.core with
      | (.ok tables, edited) => { state with pc := .editing initiator (some tables) edited }
      | (.error _, edited) => { state with pc := .editing initiator none edited }
  | .finishEdit =>
      match state.pc with
      | .editing initiator (some tables) edited =>
          { state with core := edited, pc := .edited initiator tables, caches := state.caches.mark }
      | .editing _ none edited => { state with core := edited, pc := .idle }
      | _ => state
  | .broadcast =>
      match state.pc with
      | .edited initiator tables =>
          { state with
            pc := .freeing initiator (freeOrder platform tables state.core.memory)
            pending := fun core => if core = initiator then state.pending core else true }
      | _ => state
  | .free =>
      match state.pc with
      | .freeing initiator (frame :: rest) =>
          { state with
            core := { state.core with memory := deallocFrame platform state.core.memory frame }
            pc := .freeing initiator rest }
      | _ => state
  | .finish =>
      match state.pc with
      | .freeing _ [] => { state with pc := .idle }
      | _ => state

end Shootdown

/-! ## The shared table -/

/-- The installed table is the recorded one, its tables are pairwise distinct and allocated, and it
is updated in place. -/
structure SharedTable (features : CpuFeatures) (core : CoreState) : Prop where
  installed : core.cr3 = core.pageTable.phys
  virt : core.pageTable.virt = core.pageTable.phys
  level : core.pageTable.level = features.target
  fragmentation : core.pageTable.pageFragmentationLevel < cleanRecreateFragmentLevel
  separated : Separated core.memory features.target core.cr3

/-- The detached tables are pairwise distinct and no part of the installed tree. -/
structure Unlinked (features : CpuFeatures) (core : CoreState) (tables : List (Nat × PageLevel)) :
    Prop where
  nodup : (detachedFrames core.memory.words tables).Nodup
  apart : ∀ frame ∈ detachedFrames core.memory.words tables, frame ∉ reachableFrames features core

variable {features : CpuFeatures} {core : CoreState}

/-- Changing the table memory keeps the record. -/
theorem SharedTable.withMemory (shared : SharedTable features core)
    (separated : Separated memory features.target core.cr3) :
    SharedTable features { core with memory } :=
  ⟨shared.installed, shared.virt, shared.level, shared.fragmentation, separated⟩

/-- The recorded table is the installed one, so it is well formed too. -/
theorem SharedTable.recorded (shared : SharedTable features core) :
    Separated core.memory core.pageTable.level core.pageTable.phys := by
  rw [shared.level, ← shared.installed]
  exact shared.separated

/-- An update of a shared table, whether it succeeds or not, leaves a shared table, from which the
returned tables cannot be reached. -/
theorem editTables_ends (platform : Platform) (mapList : List MemRangeData)
    (flags : List PageEntryFlags) (shared : SharedTable features core) :
    Ends (editTables platform features mapList flags) core
      (fun tables after => SharedTable features after ∧ Unlinked features after tables)
      (fun reason after => reason ≠ .panic → SharedTable features after) := by
  have separated := shared.recorded
  rw [editTables, ends_bind, ends_ofOption]
  refine ⟨fun kept _ => ?_, fun _ clean => absurd rfl clean⟩
  simp only [onTables, ends_bind, ends_read, ends_zoom, ends_pure]
  refine ((updatePaging_ends platform shared.fragmentation shared.virt separated).and
    (updatePaging_fails platform shared.fragmentation shared.virt separated)).mono ?_ ?_
  · rintro ⟨updatedTop, tables⟩ after ⟨⟨lists, news, -, -, updated⟩, -⟩
    have nodup := Multiset.nodup_add.mp (updated.nodup separated)
    have again := updated.separated separated
    rw [shared.level, ← shared.installed] at nodup again
    exact ⟨shared.withMemory again, nodup.2.1, fun frame => Multiset.disjoint_right.mp nodup.2.2⟩
  · rintro reason after ⟨-, failed⟩ clean
    cases reason with
    | panic => exact absurd rfl clean
    | err error =>
        obtain ⟨lists, news, path, stray, -, stopped⟩ := failed
        refine shared.withMemory ?_
        rw [← shared.level, shared.installed]
        exact stopped.separated_after separated

/-! ## Runs -/

namespace Shootdown

variable {ι : Type*} {state : Shootdown ι} {event : ShootdownEvent ι}

/-- What holds of the tables to be freed: no walk from the installed table meets them, and the cores
that cache them are those that did so at the end of the edit and have not flushed since. -/
def PhaseInv (features : CpuFeatures) (core : CoreState) (caches : Caches ι Nat) :
    UpdatePc ι → Prop
  | .idle => True
  | .editing _ outcome edited =>
      SharedTable features edited ∧ ∀ tables ∈ outcome, Unlinked features edited tables
  | .edited _ tables =>
      Unlinked features core tables ∧
        caches.Exact {frame | frame ∈ detachedFrames core.memory.words tables}
  | .freeing _ frames =>
      (∀ frame ∈ frames, frame ∉ reachableFrames features core) ∧
        caches.Exact {frame | frame ∈ frames}

/-- The invariant of the runs. -/
structure Inv (features : CpuFeatures) (state : Shootdown ι) : Prop where
  shared : SharedTable features state.core
  phase : PhaseInv features state.core state.caches state.pc

/-- Returning a frame outside the tree keeps the shared table. -/
theorem deallocFrame_shared (platform : Platform) {frame : Nat}
    (shared : SharedTable features core)
    (apart : frame ∉ reachableFrames features core) :
    SharedTable features { core with memory := deallocFrame platform core.memory frame } ∧
      reachableFrames features { core with memory := deallocFrame platform core.memory frame } =
        reachableFrames features core := by
  have kept : ∀ other ∈ tableFrames core.memory.words features.target core.cr3,
      (deallocFrame platform core.memory frame).words other = core.memory.words other :=
    fun other member => TableMemory.setFrame_words_of_ne _ fun same => apart (same ▸ member)
  have same := (table_congr kept).1
  refine ⟨shared.withMemory ⟨same ▸ shared.separated.nodup, fun other member => ?_⟩, same⟩
  rw [same] at member
  have distinct : other ≠ frame := fun equal => apart (equal ▸ member)
  exact Finset.mem_erase.mpr ⟨distinct, shared.separated.live other member⟩

/-- The frame that the step returns is cached by no core. -/
def FreesUncached (state : Shootdown ι) : ShootdownEvent ι → Prop
  | .free => ∀ initiator frame rest, state.pc = .freeing initiator (frame :: rest) →
      ∀ core, frame ∉ state.caches.cached core
  | _ => True

/-- Every core, the one that runs the update included, has flushed since the end of the edit, or did
not cache the frame that the step returns at that time. -/
def HoldersFlushed (state : Shootdown ι) : ShootdownEvent ι → Prop
  | .free => ∀ initiator frame rest, state.pc = .freeing initiator (frame :: rest) →
      ∀ core, state.caches.flushed core = true ∨ frame ∉ state.caches.held core
  | _ => True

theorem Inv.freesUncached_iff (inv : Inv features state) :
    state.FreesUncached event ↔ state.HoldersFlushed event := by
  cases event with
  | free =>
      refine forall_congr' fun initiator => forall₂_congr fun frame rest => ?_
      refine forall_congr' fun here => ?_
      have phase := inv.phase
      rw [here] at phase
      exact phase.2.uncached_iff List.mem_cons_self
  | walk | flush | deliver | edit | finishEdit | broadcast | finish => exact Iff.rfl

variable [DecidableEq ι]

/-- Flushing keeps the invariant. -/
theorem Inv.flush (inv : Inv features state) (core : ι) :
    PhaseInv features state.core (state.caches.flush core) state.pc := by
  have phase := inv.phase
  revert phase
  cases state.pc with
  | idle => exact id
  | editing => exact id
  | edited initiator tables => exact fun phase => ⟨phase.1, phase.2.flush core⟩
  | freeing initiator frames => exact fun phase => ⟨phase.1, phase.2.flush core⟩

/-- A walk caches reachable tables only. -/
theorem Inv.walk {frame : Nat} (inv : Inv features state) (core : ι)
    (enabled : state.Enabled platform features (.walk core frame)) :
    PhaseInv features state.core (state.caches.fill core frame) state.pc := by
  have phase := inv.phase
  cases here : state.pc with
  | idle => trivial
  | editing initiator outcome edited => rwa [here] at phase
  | edited initiator tables =>
      rw [here] at phase
      have reachable : frame ∈ reachableFrames features state.core :=
        enabled.resolve_right (by simp [here])
      exact ⟨phase.1, phase.2.fill fun gone => phase.1.apart frame gone reachable⟩
  | freeing initiator frames =>
      rw [here] at phase
      have reachable : frame ∈ reachableFrames features state.core :=
        enabled.resolve_right (by simp [here])
      exact ⟨phase.1, phase.2.fill fun gone => phase.1 frame gone reachable⟩

/-- Every step keeps the invariant. -/
theorem Inv.step (inv : Inv features state) (enabled : state.Enabled platform features event) :
    Inv features (state.next platform features event) := by
  have phase := inv.phase
  cases event with
  | walk core frame => exact ⟨inv.shared, inv.walk core enabled⟩
  | flush core => exact ⟨inv.shared, inv.flush core⟩
  | deliver core => exact ⟨inv.shared, inv.flush core⟩
  | edit initiator mapList flags =>
      obtain ⟨-, clean⟩ := enabled
      have ends := editTables_ends platform mapList flags inv.shared
      rcases run : editTables platform features mapList flags state.core with
        ⟨reason | tables, edited⟩
      · simp only [next, run]
        refine ⟨inv.shared, ends.of_error run fun panic => clean ?_, by simp⟩
        rw [run, panic]
      · simp only [next, run]
        obtain ⟨shared, unlinked⟩ := ends.of_ok run
        exact ⟨inv.shared, shared, by simpa using unlinked⟩
  | finishEdit =>
      obtain ⟨initiator, outcome, edited, here⟩ := enabled
      rw [here] at phase
      cases outcome with
      | none =>
          simp only [next, here]
          exact ⟨phase.1, trivial⟩
      | some tables =>
          simp only [next, here]
          exact ⟨phase.1, phase.2 tables rfl, Caches.mark_exact _ _⟩
  | broadcast =>
      obtain ⟨initiator, tables, here⟩ := enabled
      rw [here] at phase
      simp only [next, here]
      obtain ⟨unlinked, exact⟩ := phase
      refine ⟨inv.shared, fun frame member => ?_, exact.mono fun frame member => ?_⟩
      · exact unlinked.apart frame ((mem_freeOrder unlinked.nodup).mp member)
      · exact (mem_freeOrder unlinked.nodup).mp member
  | free =>
      obtain ⟨initiator, frame, rest, here⟩ := enabled
      rw [here] at phase
      simp only [next, here]
      obtain ⟨apart, exact⟩ := phase
      obtain ⟨shared, same⟩ := deallocFrame_shared platform inv.shared
        (apart frame List.mem_cons_self)
      refine ⟨shared, fun other member => ?_, exact.mono fun other member => ?_⟩
      · rw [same]
        exact apart other (List.mem_cons_of_mem _ member)
      · exact List.mem_cons_of_mem _ member
  | finish =>
      obtain ⟨initiator, here⟩ := enabled
      simp only [next, here]
      exact ⟨inv.shared, trivial⟩

/-- In every run of any number of cores, no freed frame is cached exactly when each core that cached
it at the end of the edit has flushed before it is freed. -/
theorem along_freesUncached_iff (platform : Platform) (features : CpuFeatures)
    (initial : Shootdown ι) (shared : SharedTable features initial.core)
    (idle : initial.pc = .idle) {events : List (ShootdownEvent ι)}
    (enabled : Along (next platform features) (Enabled platform features) initial events) :
    Along (next platform features) FreesUncached initial events ↔
      Along (next platform features) HoldersFlushed initial events := by
  refine along_congr (Inv features) (fun state event inv admitted => inv.step admitted)
    (fun state event inv _ => inv.freesUncached_iff) events initial ⟨shared, ?_⟩ enabled
  rw [idle]
  trivial

/-! ## Uninterrupted calls -/

/-- The steps of a call that returns `count` frames. -/
def callEvents (initiator : ι) (mapList : List MemRangeData) (flags : List PageEntryFlags)
    (count : Nat) : List (ShootdownEvent ι) :=
  [.edit initiator mapList flags, .finishEdit, .broadcast] ++ List.replicate count .free ++
    [.finish]

/-- The frames are returned one after the other. -/
theorem foldl_free (initiator : ι) (frames : List Nat) :
    ∀ state : Shootdown ι, state.pc = .freeing initiator frames →
      (List.replicate frames.length .free).foldl (next platform features) state =
        { state with
          core := { state.core with
            memory := frames.foldl (deallocFrame platform) state.core.memory }
          pc := .freeing initiator [] } := by
  induction frames with
  | nil =>
      intro state here
      rw [← here]
      rfl
  | cons frame rest induction =>
      intro state here
      rw [List.length_cons, List.replicate_succ, List.foldl_cons, induction]
      · simp only [next, here, List.foldl_cons]
      · simp only [next, here]

/-- The steps of one core, without interruption, compute what `util_update_paging` computes. -/
theorem foldl_callEvents (platform : Platform) (features : CpuFeatures) (initiator : ι)
    {state : Shootdown ι} {mapList : List MemRangeData} {flags : List PageEntryFlags}
    {after : CoreState}
    (run : utilUpdatePaging platform features true mapList flags state.core = (.ok (), after)) :
    ∃ count,
      ((callEvents initiator mapList flags count).foldl (next platform features) state).core =
        after := by
  rw [utilUpdatePaging_eq] at run
  rcases edit : editTables platform features mapList flags state.core with ⟨reason | tables, edited⟩
  · simp [bind, edit] at run
  simp only [bind, edit, onTables, zoom, freeNotUsedPaging_eq, Prod.mk.injEq, true_and] at run
  refine ⟨(freeOrder platform tables edited.memory).length, ?_⟩
  rw [callEvents, List.foldl_append, List.foldl_append]
  simp only [List.foldl_cons, List.foldl_nil, next, edit]
  rw [foldl_free initiator _ _ rfl]
  exact run

end Shootdown

/-! ## Two runs -/

/-- The table of a core is updated in place. -/
theorem CoreInv.sharedTable {base : Finset Nat} {initial : List Mapping}
    (inv : CoreInv features base initial core) : SharedTable features core := by
  obtain ⟨pending, tables⟩ := inv.tables
  obtain ⟨virt, fragmentation⟩ := tables.top core.pageTable rfl
  have separated := tables.separated rfl
  rw [inv.level, ← inv.installed] at separated
  exact ⟨inv.installed, virt, inv.level, fragmentation ▸ by decide, separated⟩

/-- An update to the empty list detaches the tables below the top table. -/
theorem Updated.detaches {allowHuge level : PageLevel} {before after : TableMemory} {table : Nat}
    {index : Fin 512}
    (updated : Updated platform allowHuge level 0 [] before table [] tables after)
    (present : (tableTree before.words level table index).tables ≠ 0) :
    ∃ frame, frame ∈ detachedFrames after.words tables := by
  have counted := congrArg Multiset.card updated.frames
  have empty : ∀ index, (tableTree after.words level table index).tables = 0 := by
    intro index
    rw [← PageTree.tables_erasePat _ level, updated.tree, PageTree.tables_erasePat, listTable,
      listEntry_empty rfl, PageTree.tables]
  have bound := Finset.single_le_sum (fun index _ => Nat.zero_le
    (tableTree before.words level table index).tables) (Finset.mem_univ index)
  rw [Multiset.coe_nil, add_zero, Multiset.card_add, card_tableFrames, card_tableFrames,
    Finset.sum_eq_zero fun index _ => empty index] at counted
  exact Multiset.card_pos_iff_exists_mem.mp (by omega)

/-- Clearing a shared table with a table below it succeeds, and the first frame it returns could be
reached before. -/
theorem editTables_clears (platform : Platform) (shared : SharedTable features core)
    {index : Fin 512}
    (present : (tableTree core.memory.words core.pageTable.level core.pageTable.phys index).tables ≠
      0) :
    ∃ tables edited frame rest,
      editTables platform features [] [] core = (.ok tables, edited) ∧
      freeOrder platform tables edited.memory = frame :: rest ∧
      frame ∈ reachableFrames features core := by
  have separated := shared.recorded
  obtain ⟨⟨top, tables⟩, after, update, updated⟩ :=
    updatePaging_clears platform features.allowHuge shared.fragmentation shared.virt separated
  have nodup := (Multiset.nodup_add.mp (updated.nodup separated)).2.1
  obtain ⟨found, member⟩ := updated.detaches present
  have listed : found ∈ freeOrder platform tables after := (mem_freeOrder nodup).mpr member
  obtain ⟨frame, rest, order⟩ := List.exists_cons_of_ne_nil (List.ne_nil_of_mem listed)
  refine ⟨tables, { core with memory := after }, frame, rest, ?_, order, ?_⟩
  · simp only [editTables, retainFlags, ofOption, bind, pure, Exec.read, onTables, zoom, update]
  · have first : frame ∈ freeOrder platform tables after := order ▸ List.mem_cons_self
    have balance := updated.frames
    rw [Multiset.coe_nil, add_zero, shared.level, ← shared.installed] at balance
    rw [reachableFrames, ← balance]
    exact Multiset.mem_add.mpr (.inr ((mem_freeOrder nodup).mp first))

/-- Removing the only page of a table detaches a table that could be reached before. -/
theorem editTables_detaches :
    ∃ created tables edited frame rest,
      createPaging (bumpPlatform 0) fourLevels [⟨0x1000, 0x1000⟩] [.dataFlags] bootState =
        (.ok (), created) ∧
      SharedTable fourLevels created ∧
      editTables (bumpPlatform 0) fourLevels [] [] created = (.ok tables, edited) ∧
      freeOrder (bumpPlatform 0) tables edited.memory = frame :: rest ∧
      frame ∈ reachableFrames fourLevels created := by
  have mappable := addPage_mappable 0x1000 (by decide) (by decide)
  obtain ⟨created, create, inv, -, -⟩ := bumpPlatform_createPaging mappable
  obtain ⟨-, news, made⟩ := (createPaging_created (bumpPlatform 0) bootState rfl
    mappable.flagged).of_ok create
  have present : (tableTree created.memory.words created.pageTable.level created.pageTable.phys
      0).tables ≠ 0 := by
    have single : created.pageTable.memoryMapping = ([⟨0x1000, 0x1000⟩], [.dataFlags]) :=
      Option.some.inj (made.normalized.symm.trans
        (normalizeMapList_single (MemRangeData.end?_of_fits _ (by decide)) _))
    have entry := made.created.tree 0
    rw [single, ← made.level] at entry
    rw [entry, made.level, listTable, listEntry_relay (by decide) (by decide) rfl]
    simp [PageTree.tables]
  obtain ⟨tables, edited, frame, rest, edit, order, reachable⟩ :=
    editTables_clears (bumpPlatform 0) inv.sharedTable present
  exact ⟨created, tables, edited, frame, rest, create, inv.sharedTable, edit, order, reachable⟩

namespace Shootdown

/-- The other core handles the interrupt before the first frame is freed. -/
theorem along_freesUncached_iff_delivered :
    ∃ created frame,
      createPaging (bumpPlatform 0) fourLevels [⟨0x1000, 0x1000⟩] [.dataFlags] bootState =
        (.ok (), created) ∧
      Along (next (bumpPlatform 0) fourLevels) (Enabled (bumpPlatform 0) fourLevels)
        (start created : Shootdown (Fin 2))
        [.walk 1 frame, .edit 0 [] [], .finishEdit, .broadcast, .deliver 1, .free] ∧
      Along (next (bumpPlatform 0) fourLevels) FreesUncached (start created : Shootdown (Fin 2))
        [.walk 1 frame, .edit 0 [] [], .finishEdit, .broadcast, .deliver 1, .free] := by
  obtain ⟨created, tables, edited, frame, rest, create, shared, edit, order, reachable⟩ :=
    editTables_detaches
  have enabled : Along (next (bumpPlatform 0) fourLevels) (Enabled (bumpPlatform 0) fourLevels)
      (start created : Shootdown (Fin 2))
      [.walk 1 frame, .edit 0 [] [], .finishEdit, .broadcast, .deliver 1, .free] := by
    simp [Along, Enabled, next, start, edit, order, reachable]
  refine ⟨created, frame, create, enabled, ?_⟩
  refine (along_freesUncached_iff (bumpPlatform 0) fourLevels (start created) shared rfl
    enabled).mpr ?_
  simp [Along, HoldersFlushed, next, start, edit, order, Caches.fill, Caches.flush, Caches.mark,
    Caches.empty, Fin.forall_fin_two]

/-- Both cores still cache the frame that the next step frees. -/
theorem free_while_cached :
    ∃ created frame rest state,
      createPaging (bumpPlatform 0) fourLevels [⟨0x1000, 0x1000⟩] [.dataFlags] bootState =
        (.ok (), created) ∧
      Along (next (bumpPlatform 0) fourLevels) (Enabled (bumpPlatform 0) fourLevels)
        (start created : Shootdown (Fin 2))
        [.walk 0 frame, .walk 1 frame, .edit 0 [] [], .finishEdit, .broadcast, .free] ∧
      [.walk 0 frame, .walk 1 frame, .edit 0 [] [], .finishEdit, .broadcast].foldl
        (next (bumpPlatform 0) fourLevels) (start created : Shootdown (Fin 2)) = state ∧
      state.pc = .freeing 0 (frame :: rest) ∧
      frame ∈ state.caches.cached 0 ∧ frame ∈ state.caches.cached 1 := by
  obtain ⟨created, tables, edited, frame, rest, create, shared, edit, order, reachable⟩ :=
    editTables_detaches
  refine ⟨created, frame, rest, _, create, ?_, rfl, ?_⟩
  · simp [Along, Enabled, next, start, edit, order, reachable]
  · simp [next, start, edit, order, Caches.fill, Caches.mark, Caches.empty]

end Shootdown

end Okots
