import Okots.Library.Reachable
import Okots.Paging.IdentityMap
import Okots.Paging.Release

/-!
# Runs of the paging code

A top table is created, updated any number of times and finally released; the lists of detached
tables returned by the updates are released at any later time, and meanwhile the processor sets
accessed and dirty bits.  In every run the allocated table frames are exactly those reachable from
the top table together with those of the detached lists, and an update leaves the tree that a
creation from the same lists would have built.
-/

namespace Okots

open StateExec Exec PageLevel TransitionSystem

/-! ## States and steps -/

/-- The tables of one owner: the current top table and the lists not yet released. -/
structure PagingState where
  /-- Table memory. -/
  memory : TableMemory
  /-- The top table, until `dealloc_all` consumes it. -/
  top : Option TopPageTable
  /-- Results of `update_paging` that have not been released. -/
  pending : List (List (Nat × PageLevel))

/-- Frames reachable from the top table. -/
def topFrames (state : PagingState) : Multiset Nat :=
  match state.top with
  | some top => tableFrames state.memory.words top.level top.phys
  | none => 0

/-- Frames reachable from the top table or from a list not yet released. -/
def pagingFrames (state : PagingState) : Multiset Nat :=
  topFrames state + detachedFrames state.memory.words state.pending.flatten

/-- Accessed and dirty bits may have been set. -/
def MarksOnly (before after : BitVec 64) : Prop :=
  ∃ marks, marks &&& ~~~0x60#64 = 0 ∧ after = before ||| marks

/-- A table has been created; `base` are the frames allocated before. -/
inductive PagingStart (platform : Platform) (base : Finset Nat) : PagingState → Prop
  | create {mapList : List MemRangeData} {flags : List PageEntryFlags}
      {allowHugeAt target : PageLevel} {memory after : TableMemory} {top : TopPageTable}
      (live : memory.live = base) (disciplined : Disciplined memory.history)
      (run : createPageTable platform mapList flags allowHugeAt target memory = (.ok top, after)) :
      PagingStart platform base ⟨after, some top, []⟩

/-- The steps of a run. Memory outside the tables may change at any time. -/
inductive PagingStep (platform : Platform) : PagingState → PagingState → Prop
  | update {memory after : TableMemory} {top top' : TopPageTable}
      {pending : List (List (Nat × PageLevel))} {buf : List (Nat × PageLevel)}
      (newMapList : List MemRangeData) (newFlags : List PageEntryFlags) (allowHugeAt : PageLevel)
      (fragmentation : top.pageFragmentationLevel < cleanRecreateFragmentLevel)
      (run : updatePaging platform top newMapList newFlags allowHugeAt memory =
        (.ok (top', buf), after)) :
      PagingStep platform ⟨memory, some top, pending⟩ ⟨after, some top', buf :: pending⟩
  | free {memory after : TableMemory} {top : Option TopPageTable}
      {earlier later : List (List (Nat × PageLevel))} {buf : List (Nat × PageLevel)}
      (run : freeNotUsedPaging platform buf memory = (.ok (), after)) :
      PagingStep platform ⟨memory, top, earlier ++ buf :: later⟩ ⟨after, top, earlier ++ later⟩
  | deallocAll {memory after : TableMemory} {top : TopPageTable}
      {pending : List (List (Nat × PageLevel))}
      (run : deallocAll platform top memory = (.ok (), after)) :
      PagingStep platform ⟨memory, some top, pending⟩ ⟨after, none, pending⟩
  | hardware {memory after : TableMemory} {top : Option TopPageTable}
      {pending : List (List (Nat × PageLevel))} (history : after.history = memory.history)
      (marks : ∀ frame ∈ pagingFrames ⟨memory, top, pending⟩, ∀ index,
        MarksOnly (memory.words frame index) (after.words frame index)) :
      PagingStep platform ⟨memory, top, pending⟩ ⟨after, top, pending⟩

/-- States reached in a run that starts with the frames `base` allocated. -/
abbrev PagingReach (platform : Platform) (base : Finset Nat) : PagingState → Prop :=
  Reachable (PagingStart platform base) (PagingStep platform)

/-! ## Accessed and dirty bits -/

theorem MarksOnly.isRelay {before after : BitVec 64} (marked : MarksOnly before after) :
    isRelay after = isRelay before := by
  obtain ⟨marks, masked, rfl⟩ := marked
  have bit : ∀ index, index = 0 ∨ index = 7 → marks.getLsbD index = false := by
    intro index place
    have clear := congrArg (fun word => BitVec.getLsbD word index) masked
    simp only [BitVec.getLsbD_and, BitVec.getLsbD_not] at clear
    rcases place with rfl | rfl <;> simpa using clear
  rw [Okots.isRelay, Okots.isRelay, BitVec.getLsbD_or, BitVec.getLsbD_or, bit 0 (.inl rfl),
    bit 7 (.inr rfl), Bool.or_false, Bool.or_false]

theorem MarksOnly.tableBase {before after : BitVec 64} (marked : MarksOnly before after) :
    tableBase after = tableBase before := by
  obtain ⟨marks, masked, rfl⟩ := marked
  have outside : marks &&& addrMask = 0 := by
    rw [show addrMask = ~~~0x60#64 &&& addrMask by decide, ← BitVec.and_assoc, masked]
    simp
  rw [Okots.tableBase, Okots.tableBase, BitVec.and_or_distrib_right, outside]
  simp

/-- Accessed and dirty bits do not change which frames a tree has. -/
theorem tableFrames_marks {words words' : TableWords} (level : PageLevel) :
    ∀ table, (∀ frame ∈ tableFrames words level table, ∀ index,
      MarksOnly (words frame index) (words' frame index)) →
      tableFrames words' level table = tableFrames words level table := by
  induction level using downInduction with
  | step level induction =>
      intro table marks
      rw [tableFrames, tableFrames]
      congr 2
      funext index
      have marked := marks table (mem_tableFrames.mpr (.inl rfl)) index
      rcases relays_or_childless level (words table index) with ⟨next, relays⟩ | childless
      · have relays' : Relays level (words' table index) next :=
          ⟨relays.down, marked.isRelay.trans relays.relay⟩
        rw [relays.entryFrames, relays'.entryFrames, marked.tableBase]
        refine induction next relays.down _ fun frame member => marks frame ?_
        rw [mem_tableFrames]
        exact .inr ⟨index, relays.entryFrames ▸ member⟩
      · have childless' : Childless level (words' table index) :=
          childless.imp id fun plain => marked.isRelay.trans plain
        rw [childless.entryFrames, childless'.entryFrames]

theorem detachedFrames_marks {words words' : TableWords} {tables : List (Nat × PageLevel)}
    (marks : ∀ frame ∈ detachedFrames words tables, ∀ index,
      MarksOnly (words frame index) (words' frame index)) :
    detachedFrames words' tables = detachedFrames words tables := by
  induction tables with
  | nil => rw [detachedFrames_nil, detachedFrames_nil]
  | cons table rest induction =>
      rw [detachedFrames_cons] at marks
      rw [detachedFrames_cons, detachedFrames_cons,
        tableFrames_marks table.2 table.1 fun frame member =>
          marks frame (Multiset.mem_add.mpr (.inl member)),
        induction fun frame member => marks frame (Multiset.mem_add.mpr (.inr member))]

/-! ## Conservation of frames -/

/-- The allocated frames are `base` and the frames of the tables, without any overlap. -/
structure PagingInv (base : Finset Nat) (state : PagingState) : Prop where
  top : ∀ top, state.top = some top → top.virt = top.phys ∧ top.pageFragmentationLevel = 0
  nodup : (pagingFrames state).Nodup
  live : ∀ frame, frame ∈ state.memory.live ↔ frame ∈ base ∨ frame ∈ pagingFrames state
  foreign : ∀ frame ∈ pagingFrames state, frame ∉ base

variable {platform : Platform} {base : Finset Nat} {memory after : TableMemory}
  {top top' : Option TopPageTable} {pending pending' : List (List (Nat × PageLevel))}

theorem pagingFrames_congr
    (agree : ∀ frame ∈ pagingFrames ⟨memory, top, pending⟩,
      after.words frame = memory.words frame) :
    pagingFrames ⟨after, top, pending⟩ = pagingFrames ⟨memory, top, pending⟩ := by
  have lists : detachedFrames after.words pending.flatten =
      detachedFrames memory.words pending.flatten :=
    detachedFrames_congr fun frame member => agree frame (Multiset.mem_add.mpr (.inr member))
  have trees : topFrames ⟨after, top, pending⟩ = topFrames ⟨memory, top, pending⟩ := by
    cases top with
    | none => rfl
    | some top =>
        exact (table_congr fun frame member => agree frame (Multiset.mem_add.mpr (.inl member))).1
  rw [pagingFrames, pagingFrames, lists, trees]

namespace PagingInv

theorem separated (inv : PagingInv base ⟨memory, top, pending⟩) {current : TopPageTable}
    (present : top = some current) : Separated memory current.level current.phys := by
  subst present
  refine ⟨(Multiset.nodup_add.mp inv.nodup).1, fun frame member => ?_⟩
  exact (inv.live frame).mpr (.inr (Multiset.mem_add.mpr (.inl member)))

theorem create {mapList : List MemRangeData} {flags : List PageEntryFlags}
    {allowHugeAt target : PageLevel} {current : TopPageTable} {news : List Nat}
    (live : memory.live = base)
    (made : CreatedTop platform mapList flags allowHugeAt target memory current news after) :
    PagingInv base ⟨after, some current, []⟩ := by
  have frames : pagingFrames ⟨after, some current, []⟩ = ↑news := by
    have tree := made.created.frames
    rw [← made.level] at tree
    rw [pagingFrames, topFrames]
    simp only [tree, List.flatten_nil, detachedFrames_nil, add_zero]
  have allocates := made.created.allocates
  refine ⟨?_, ?_, ?_, ?_⟩
  · rintro _ ⟨⟩
    exact ⟨made.virt, made.fragmentation⟩
  · rw [frames]
    exact Multiset.coe_nodup.mpr allocates.nodup
  · intro frame
    rw [frames, TableMemory.live, made.created.history, mem_liveFrames_grown, ← live, or_comm]
    rfl
  · intro frame member
    rw [frames] at member
    rw [← live]
    exact allocates.fresh member

/-- An update moves frames from the tree to the new list and adds the newly allocated ones. -/
theorem update {current : TopPageTable} {allowHuge : PageLevel} {maps : List Mapping}
    {lists : List MemRangeData × List PageEntryFlags} {news : List Nat}
    {buf : List (Nat × PageLevel)} (inv : PagingInv base ⟨memory, some current, pending⟩)
    (updated : Updated platform allowHuge current.level 0 maps memory current.phys news buf after) :
    PagingInv base ⟨after, some { current with memoryMapping := lists }, buf :: pending⟩ := by
  have apart := (Multiset.nodup_add.mp inv.nodup).2.2
  have kept : detachedFrames after.words pending.flatten =
      detachedFrames memory.words pending.flatten := by
    refine detachedFrames_congr fun frame member => updated.frame frame ?_ ?_
    · exact (inv.live frame).mpr (.inr (Multiset.mem_add.mpr (.inr member)))
    · exact fun inTree => Multiset.disjoint_left.mp apart inTree member
  have frames : pagingFrames ⟨after, some { current with memoryMapping := lists },
      buf :: pending⟩ = pagingFrames ⟨memory, some current, pending⟩ + ↑news := by
    calc
      pagingFrames ⟨after, some { current with memoryMapping := lists }, buf :: pending⟩
        = (tableFrames after.words current.level current.phys + detachedFrames after.words buf) +
            detachedFrames after.words pending.flatten := by
          rw [pagingFrames, topFrames]
          simp only [List.flatten_cons, detachedFrames_append]
          abel
      _ = (tableFrames memory.words current.level current.phys + ↑news) +
            detachedFrames memory.words pending.flatten := by rw [updated.frames, kept]
      _ = _ := by
          rw [pagingFrames, topFrames]
          abel
  have newsFresh : ∀ frame ∈ news, frame ∉ base ∧
      frame ∉ pagingFrames ⟨memory, some current, pending⟩ := by
    intro frame member
    have free := updated.allocates.fresh member
    exact ⟨fun inBase => free ((inv.live frame).mpr (.inl inBase)),
      fun inTables => free ((inv.live frame).mpr (.inr inTables))⟩
  refine ⟨?_, ?_, ?_, ?_⟩
  · rintro _ ⟨⟩
    exact inv.top current rfl
  · rw [frames, Multiset.nodup_add]
    refine ⟨inv.nodup, Multiset.coe_nodup.mpr updated.allocates.nodup, ?_⟩
    rw [Multiset.disjoint_right]
    exact fun member => (newsFresh _ member).2
  · intro frame
    have old := inv.live frame
    rw [frames, TableMemory.live, updated.history, mem_liveFrames_grown, Multiset.mem_add,
      Multiset.mem_coe, ← or_assoc, ← old]
    exact or_comm
  · intro frame member
    rw [frames, Multiset.mem_add] at member
    rcases member with old | new
    · exact inv.foreign frame old
    · exact (newsFresh frame new).1

/-- Releasing a part of the frames leaves the rest. -/
theorem release {freed : Multiset Nat} (inv : PagingInv base ⟨memory, top, pending⟩)
    (split : pagingFrames ⟨memory, top, pending⟩ = freed + pagingFrames ⟨memory, top', pending'⟩)
    (released : Released memory freed after) (same : ∀ current, top' = some current →
      top = some current) :
    PagingInv base ⟨after, top', pending'⟩ := by
  have nodup := inv.nodup
  rw [split, Multiset.nodup_add] at nodup
  obtain ⟨-, keptNodup, apart⟩ := nodup
  have member : ∀ frame ∈ freed, frame ∈ pagingFrames ⟨memory, top, pending⟩ := fun frame inFreed =>
    split ▸ Multiset.mem_add.mpr (.inl inFreed)
  have kept : pagingFrames ⟨after, top', pending'⟩ = pagingFrames ⟨memory, top', pending'⟩ :=
    pagingFrames_congr fun frame inKept =>
      released.frame frame (Multiset.disjoint_right.mp apart inKept)
  refine ⟨fun current present => inv.top current (same current present), ?_, ?_, ?_⟩
  · rw [kept]
    exact keptNodup
  · intro frame
    have old := inv.live frame
    rw [released.mem_live, old, kept, split, Multiset.mem_add]
    constructor
    · rintro ⟨outside, inBase | inFreed | inKept⟩
      · exact .inl inBase
      · exact absurd inFreed outside
      · exact .inr inKept
    · rintro (inBase | inKept)
      · exact ⟨fun inFreed => inv.foreign frame (member frame inFreed) inBase, .inl inBase⟩
      · exact ⟨Multiset.disjoint_right.mp apart inKept, .inr (.inr inKept)⟩
  · intro frame inKept
    rw [kept] at inKept
    exact inv.foreign frame (split ▸ Multiset.mem_add.mpr (.inr inKept))

/-- A part of the frames can be released. -/
theorem disciplined_release {freed kept : Multiset Nat}
    (inv : PagingInv base ⟨memory, top, pending⟩) (disciplined : Disciplined memory.history)
    (split : pagingFrames ⟨memory, top, pending⟩ = freed + kept)
    (released : Released memory freed after) : Disciplined after.history := by
  have nodup := inv.nodup
  rw [split, Multiset.nodup_add] at nodup
  refine released.disciplined disciplined nodup.1 fun frame inFreed => ?_
  exact (inv.live frame).mpr (.inr (split ▸ Multiset.mem_add.mpr (.inl inFreed)))

theorem hardware (inv : PagingInv base ⟨memory, top, pending⟩)
    (history : after.history = memory.history)
    (marks : ∀ frame ∈ pagingFrames ⟨memory, top, pending⟩, ∀ index,
      MarksOnly (memory.words frame index) (after.words frame index)) :
    PagingInv base ⟨after, top, pending⟩ := by
  have frames : pagingFrames ⟨after, top, pending⟩ = pagingFrames ⟨memory, top, pending⟩ := by
    have lists := detachedFrames_marks fun frame member =>
      marks frame (Multiset.mem_add.mpr (.inr member))
    rw [pagingFrames, pagingFrames, lists]
    congr 1
    cases top with
    | none => rfl
    | some top =>
        exact tableFrames_marks top.level top.phys fun frame member =>
          marks frame (Multiset.mem_add.mpr (.inl member))
  have live : after.live = memory.live := congrArg liveFrames history
  exact ⟨inv.top, frames ▸ inv.nodup, fun frame => by rw [live, frames]; exact inv.live frame,
    fun frame member => inv.foreign frame (frames ▸ member)⟩

theorem split_free (earlier : List (List (Nat × PageLevel)))
    {later : List (List (Nat × PageLevel))} {buf : List (Nat × PageLevel)} :
    pagingFrames ⟨memory, top, earlier ++ buf :: later⟩ =
      detachedFrames memory.words buf + pagingFrames ⟨memory, top, earlier ++ later⟩ := by
  simp only [pagingFrames, topFrames, List.flatten_append, List.flatten_cons,
    detachedFrames_append]
  abel

theorem split_deallocAll {current : TopPageTable} :
    pagingFrames ⟨memory, some current, pending⟩ =
      tableFrames memory.words current.level current.phys +
        pagingFrames ⟨memory, none, pending⟩ := by
  simp [pagingFrames, topFrames]

theorem free_run {earlier later : List (List (Nat × PageLevel))} {buf : List (Nat × PageLevel)}
    (platform : Platform) (inv : PagingInv base ⟨memory, top, earlier ++ buf :: later⟩) :
    ∃ after, freeNotUsedPaging platform buf memory = (.ok (), after) ∧
      Released memory (detachedFrames memory.words buf) after := by
  have nodup := inv.nodup
  rw [split_free] at nodup
  exact freeNotUsedPaging_run platform (Multiset.nodup_add.mp nodup).1

theorem deallocAll_run {current : TopPageTable} (platform : Platform)
    (inv : PagingInv base ⟨memory, some current, pending⟩) :
    ∃ after, deallocAll platform current memory = (.ok (), after) ∧
      Released memory (tableFrames memory.words current.level current.phys) after :=
  Okots.deallocAll_run platform (inv.top current rfl).1 (Multiset.nodup_add.mp inv.nodup).1

theorem update_run {current current' : TopPageTable} {newMapList : List MemRangeData}
    {newFlags : List PageEntryFlags} {allowHugeAt : PageLevel} {buf : List (Nat × PageLevel)}
    (inv : PagingInv base ⟨memory, some current, pending⟩)
    (run : updatePaging platform current newMapList newFlags allowHugeAt memory =
      (.ok (current', buf), after)) :
    ∃ lists news, normalizeMapList platform.profile platform.sort newMapList newFlags =
        some lists ∧ current' = { current with memoryMapping := lists } ∧
      Updated platform allowHugeAt current.level 0 (lists.1.zip lists.2) memory current.phys news
        buf after := by
  obtain ⟨virt, fragmentation⟩ := inv.top current rfl
  have below : current.pageFragmentationLevel < cleanRecreateFragmentLevel := by
    rw [fragmentation]
    decide
  exact (updatePaging_ends platform below virt (inv.separated rfl)).of_ok run

/-- An update succeeds on lists it can map, with enough frames. -/
theorem update_succeeds {current : TopPageTable} {newMapList : List MemRangeData}
    {newFlags : List PageEntryFlags} (allowHugeAt : PageLevel)
    (inv : PagingInv base ⟨memory, some current, pending⟩)
    (requestable : Requestable (512 * current.level.entrySize) newMapList newFlags)
    (served : ¬ Exhausted platform.allocator memory.history current.level.tableCount) :
    ∃ current' buf after, updatePaging platform current newMapList newFlags allowHugeAt memory =
      (.ok (current', buf), after) := by
  obtain ⟨virt, fragmentation⟩ := inv.top current rfl
  have below : current.pageFragmentationLevel < cleanRecreateFragmentLevel := by
    rw [fragmentation]
    decide
  obtain ⟨⟨current', buf⟩, after, run, -⟩ := (updatePaging_ends platform below virt
    (inv.separated rfl)).exists_ok fun _ _ failed => served (failed requestable)
  exact ⟨current', buf, after, run⟩

/-- Every step keeps the invariant. -/
theorem step {state next : PagingState} (inv : PagingInv base state)
    (taken : PagingStep platform state next) : PagingInv base next := by
  cases taken with
  | update newMapList newFlags allowHugeAt fragmentation run =>
      obtain ⟨lists, news, -, rfl, updated⟩ := inv.update_run run
      exact inv.update updated
  | free run =>
      obtain ⟨after, sameRun, released⟩ := inv.free_run platform
      obtain ⟨-, rfl⟩ := Prod.mk.inj (run.symm.trans sameRun)
      exact inv.release (split_free _) released fun _ present => present
  | deallocAll run =>
      obtain ⟨after, sameRun, released⟩ := inv.deallocAll_run platform
      obtain ⟨-, rfl⟩ := Prod.mk.inj (run.symm.trans sameRun)
      exact inv.release split_deallocAll released (by simp)
  | hardware history marks => exact inv.hardware history marks

/-- Every step allocates free frames and returns allocated ones. -/
theorem disciplined_step {state next : PagingState} (inv : PagingInv base state)
    (disciplined : Disciplined state.memory.history) (taken : PagingStep platform state next) :
    Disciplined next.memory.history := by
  cases taken with
  | update newMapList newFlags allowHugeAt fragmentation run =>
      obtain ⟨lists, news, -, rfl, updated⟩ := inv.update_run run
      simp only [updated.history]
      exact disciplined.grown updated.allocates
  | free run =>
      obtain ⟨after, sameRun, released⟩ := inv.free_run platform
      obtain ⟨-, rfl⟩ := Prod.mk.inj (run.symm.trans sameRun)
      exact inv.disciplined_release disciplined (split_free _) released
  | deallocAll run =>
      obtain ⟨after, sameRun, released⟩ := inv.deallocAll_run platform
      obtain ⟨-, rfl⟩ := Prod.mk.inj (run.symm.trans sameRun)
      exact inv.disciplined_release disciplined split_deallocAll released
  | hardware history marks => exact history ▸ disciplined

end PagingInv

/-- The invariant holds throughout every run. -/
theorem PagingReach.invariant {state : PagingState} (reach : PagingReach platform base state) :
    PagingInv base state := by
  refine Reachable.invariant reach ?_ fun _ _ _ inv taken => inv.step taken
  rintro _ ⟨live, -, run⟩
  obtain ⟨news, made⟩ := (createPageTable_ends platform _ _ _ _ _).of_ok run
  exact PagingInv.create live made

theorem PagingReach.disciplined {state : PagingState} (reach : PagingReach platform base state) :
    Disciplined state.memory.history := by
  induction reach with
  | start created =>
      obtain ⟨-, disciplined, run⟩ := created
      obtain ⟨news, made⟩ := (createPageTable_ends platform _ _ _ _ _).of_ok run
      simp only [made.created.history]
      exact disciplined.grown made.created.allocates
  | next reached taken induction =>
      exact (PagingReach.invariant reached).disciplined_step induction taken

/-- Only frames that are no longer reachable from the top table are deallocated. -/
theorem PagingInv.deallocated {state next : PagingState} (inv : PagingInv base state)
    (taken : PagingStep platform state next) :
    ∃ events, next.memory.history = events ++ state.memory.history ∧
      ∀ frame, FrameEvent.dealloc frame ∈ events →
        frame ∉ topFrames next ∧ (next.top.isSome = true → frame ∉ topFrames state) := by
  cases taken with
  | update newMapList newFlags allowHugeAt fragmentation run =>
      obtain ⟨lists, news, -, rfl, updated⟩ := inv.update_run run
      exact ⟨news.map .alloc, updated.history, by simp⟩
  | @free memory after top earlier later buf run =>
      obtain ⟨after, sameRun, released⟩ := inv.free_run platform
      obtain ⟨-, rfl⟩ := Prod.mk.inj (run.symm.trans sameRun)
      obtain ⟨freed, listed, history⟩ := released.history
      have next := inv.step (.free run)
      have apart := inv.nodup
      rw [split_free, Multiset.nodup_add] at apart
      refine ⟨freed.map .dealloc, history, fun frame event => ?_⟩
      have inFreed : frame ∈ detachedFrames memory.words buf := by
        rw [← listed]
        simpa using event
      constructor
      · intro inTop
        have live := (next.live frame).mpr (.inr (Multiset.mem_add.mpr (.inl inTop)))
        exact (released.mem_live.mp live).1 inFreed
      · intro _ inTop
        exact Multiset.disjoint_left.mp apart.2.2 inFreed (Multiset.mem_add.mpr (.inl inTop))
  | deallocAll run =>
      obtain ⟨after, sameRun, released⟩ := inv.deallocAll_run platform
      obtain ⟨-, rfl⟩ := Prod.mk.inj (run.symm.trans sameRun)
      obtain ⟨freed, -, history⟩ := released.history
      exact ⟨freed.map .dealloc, history, fun frame _ => ⟨by simp [topFrames], by simp⟩⟩
  | hardware history marks => exact ⟨[], history, by simp⟩

/-- The tables returned by an update root disjoint trees and are tables of the old tree at their
levels. -/
theorem PagingInv.detached {current current' : TopPageTable} {newMapList : List MemRangeData}
    {newFlags : List PageEntryFlags} {allowHugeAt : PageLevel} {buf : List (Nat × PageLevel)}
    (inv : PagingInv base ⟨memory, some current, pending⟩)
    (run : updatePaging platform current newMapList newFlags allowHugeAt memory =
      (.ok (current', buf), after)) :
    buf.Pairwise (fun left right =>
        Disjoint (tableFrames after.words left.2 left.1)
          (tableFrames after.words right.2 right.1)) ∧
      ∀ table ∈ buf, TableAt memory.words current.level current.phys table.2 table.1 := by
  obtain ⟨lists, news, -, rfl, updated⟩ := inv.update_run run
  refine ⟨?_, updated.levels⟩
  have next : PagingInv base ⟨after, some { current with memoryMapping := lists },
      buf :: pending⟩ := inv.update updated
  have nodup := next.nodup
  rw [pagingFrames, List.flatten_cons, detachedFrames_append, Multiset.nodup_add,
    Multiset.nodup_add] at nodup
  have listNodup := nodup.2.1.1
  clear nodup next run updated
  induction buf with
  | nil => exact .nil
  | cons table rest induction =>
      rw [detachedFrames_cons, Multiset.nodup_add] at listNodup
      refine .cons (fun other member => ?_) (induction listNodup.2.1)
      refine listNodup.2.2.mono_right ?_
      obtain ⟨before, behind, rfl⟩ := List.append_of_mem member
      rw [detachedFrames_append, detachedFrames_cons]
      exact le_add_left (Multiset.le_add_right _ _)

/-- A page is mapped, then the list is replaced by a larger range. -/
theorem bumpPlatform_run :
    ∃ top after top' buf after',
      createPageTable (bumpPlatform 0) [⟨0x1000, 0x1000⟩] [.dataFlags] .pdpt .pml4 emptyMemory =
        (.ok top, after) ∧
      PagingReach (bumpPlatform 0) ∅ ⟨after, some top, []⟩ ∧
      updatePaging (bumpPlatform 0) top [⟨0x200000, 0x200000⟩] [.dataFlags] .pdpt after =
        (.ok (top', buf), after') ∧
      top.level = .pml4 := by
  have requestable : ∀ range : MemRangeData, range.Aligned → range.Fits →
      Requestable (512 * PageLevel.pml4.entrySize) [range] [.dataFlags] :=
    fun range aligned fits => requestable_of_physical (.inl rfl) rfl
      (by simpa using aligned) (by simpa using fits) (by simp)
  obtain ⟨top, after, news, run, made⟩ := createPageTable_run (bumpPlatform 0) .pdpt
    (requestable ⟨0x1000, 0x1000⟩ (by decide) (by decide)) (.inr rfl)
    (bumpAllocator_serves (by decide)) fun _ request => bumpAllocator_first request
  have live : emptyMemory.live = ∅ := rfl
  have disciplined : Disciplined emptyMemory.history := trivial
  have reach : PagingReach (bumpPlatform 0) ∅ ⟨after, some top, []⟩ :=
    .start (.create live disciplined run)
  have room : highestFrame 0 after.history + 4096 * PageLevel.pml4.tableCount < 2 ^ 52 := by
    have highest := bumpAllocator_highest made.created.allocates
    have count := made.created.count
    rw [← made.created.history] at highest
    have start : highestFrame 0 emptyMemory.history = 0 := rfl
    have size : PageLevel.pml4.tableCount = 134480385 := rfl
    omega
  rw [← made.level] at room requestable
  have served : ¬ Exhausted (bumpPlatform 0).allocator after.history top.level.tableCount :=
    bumpAllocator_serves room
  obtain ⟨top', buf, after', update⟩ := reach.invariant.update_succeeds .pdpt
    (requestable ⟨0x200000, 0x200000⟩ (by decide) (by decide)) served
  exact ⟨top, after, top', buf, after', run, reach, update, made.level⟩

/-- Table frames are neither leaked nor freed twice nor freed while reachable. -/
theorem paging_frames_conserved (platform : Platform) {state : PagingState}
    (reach : PagingReach platform ∅ state) :
    (state.pending = [] → ∀ frame, frame ∈ state.memory.live ↔ frame ∈ topFrames state) ∧
    (state.top = none → state.pending = [] → state.memory.live = ∅) ∧
    Disciplined state.memory.history ∧
    (∀ next, PagingStep platform state next →
      ∃ events, next.memory.history = events ++ state.memory.history ∧
        ∀ frame, FrameEvent.dealloc frame ∈ events →
          frame ∉ topFrames next ∧ (next.top.isSome = true → frame ∉ topFrames state)) ∧
    (∀ top newMapList newFlags allowHugeAt top' buf after, state.top = some top →
      updatePaging platform top newMapList newFlags allowHugeAt state.memory =
        (.ok (top', buf), after) →
      buf.Pairwise (fun left right => Disjoint (tableFrames after.words left.2 left.1)
        (tableFrames after.words right.2 right.1)) ∧
      ∀ table ∈ buf, TableAt state.memory.words top.level top.phys table.2 table.1) ∧
    (∀ earlier buf later, state.pending = earlier ++ buf :: later →
      ∃ after, freeNotUsedPaging platform buf state.memory = (.ok (), after)) ∧
    (∀ top, state.top = some top →
      ∃ after, deallocAll platform top state.memory = (.ok (), after)) := by
  obtain ⟨memory, top, pending⟩ := state
  have inv : PagingInv ∅ ⟨memory, top, pending⟩ := reach.invariant
  have released : pending = [] → ∀ frame, frame ∈ memory.live ↔
      frame ∈ topFrames ⟨memory, top, pending⟩ := by
    rintro rfl frame
    rw [inv.live frame]
    simp [pagingFrames]
  refine ⟨released, ?_, reach.disciplined, fun _ => inv.deallocated, ?_, ?_, ?_⟩
  · rintro rfl empty
    refine Finset.eq_empty_of_forall_notMem fun frame live => ?_
    simpa [topFrames] using (released empty frame).mp live
  · rintro current newMapList newFlags allowHugeAt current' buf after rfl run
    exact inv.detached run
  · rintro earlier buf later rfl
    obtain ⟨after, run, -⟩ := inv.free_run platform
    exact ⟨after, run⟩
  · rintro current rfl
    obtain ⟨after, run, -⟩ := inv.deallocAll_run platform
    exact ⟨after, run⟩

theorem paging_frames_conserved_bumpPlatform :
    ∃ state, PagingReach (bumpPlatform 0) ∅ state ∧ state.top.isSome = true ∧
      ∀ frame, frame ∈ state.memory.live ↔ frame ∈ topFrames state := by
  obtain ⟨top, after, top', buf, after', -, reach, update, -⟩ := bumpPlatform_run
  have fragmentation : top.pageFragmentationLevel < cleanRecreateFragmentLevel := by
    rw [(reach.invariant.top top rfl).2]
    decide
  have updated := Reachable.next reach (.update _ _ _ fragmentation update)
  obtain ⟨freed, free⟩ :=
    (paging_frames_conserved (bumpPlatform 0) updated).2.2.2.2.2.1 [] buf [] rfl
  have taken : PagingStep (bumpPlatform 0) ⟨after', some top', [] ++ buf :: []⟩
      ⟨freed, some top', [] ++ []⟩ := .free free
  have released : PagingReach (bumpPlatform 0) ∅ ⟨freed, some top', []⟩ := .next updated taken
  exact ⟨_, released, rfl, (paging_frames_conserved (bumpPlatform 0) released).1 rfl⟩

/-! ## Agreement with a rebuilt tree -/

/-- In every run the next update leaves the tree that a creation from the same lists builds, up to
the addresses of the table frames and the PAT bits. -/
theorem updatePaging_eq_createPageTable (platform : Platform) (allocator : FrameAllocator)
    {base : Finset Nat} {state : PagingState} (reach : PagingReach platform base state)
    {top top' built : TopPageTable} {newMapList : List MemRangeData}
    {newFlags : List PageEntryFlags} {allowHugeAt : PageLevel} {buf : List (Nat × PageLevel)}
    {after memory rebuilt : TableMemory} (present : state.top = some top)
    (update : updatePaging platform top newMapList newFlags allowHugeAt state.memory =
      (.ok (top', buf), after))
    (create : createPageTable { platform with allocator := allocator } newMapList newFlags
      allowHugeAt top.level memory = (.ok built, rebuilt)) :
    top'.phys = top.phys ∧ top'.level = built.level ∧
      ∀ index, erasePat top'.level (tableTree after.words top'.level top'.phys index) =
        erasePat built.level (tableTree rebuilt.words built.level built.phys index) := by
  obtain ⟨current, _, pending⟩ := state
  obtain rfl := present
  obtain ⟨lists, news, normalized, rfl, updated⟩ := reach.invariant.update_run update
  obtain ⟨more, made⟩ := (createPageTable_ends _ _ _ _ _ _).of_ok create
  have same : lists = built.memoryMapping :=
    Option.some.inj (normalized.symm.trans made.normalized)
  refine ⟨rfl, made.level.symm, fun index => ?_⟩
  simp only [made.level]
  rw [updated.tree, made.created.tree, same]

theorem updatePaging_eq_createPageTable_bumpPlatform :
    ∃ top memory top' buf after built rebuilt,
      PagingReach (bumpPlatform 0) ∅ ⟨memory, some top, []⟩ ∧
      updatePaging (bumpPlatform 0) top [⟨0x200000, 0x200000⟩] [.dataFlags] .pdpt memory =
        (.ok (top', buf), after) ∧
      createPageTable (bumpPlatform 0) [⟨0x200000, 0x200000⟩] [.dataFlags] .pdpt top.level
        emptyMemory = (.ok built, rebuilt) ∧
      ∀ index, erasePat top'.level (tableTree after.words top'.level top'.phys index) =
        erasePat built.level (tableTree rebuilt.words built.level built.phys index) := by
  obtain ⟨top, memory, top', buf, after, -, reach, update, level⟩ := bumpPlatform_run
  have requestable : Requestable (512 * top.level.entrySize) [⟨0x200000, 0x200000⟩]
      [.dataFlags] :=
    requestable_of_physical (.inl level) rfl (by decide) (by decide) (by simp [level])
  have room : highestFrame 0 emptyMemory.history + 4096 * top.level.tableCount < 2 ^ 52 := by
    rw [level]
    decide
  obtain ⟨built, rebuilt, -, create, -⟩ := createPageTable_run (bumpPlatform 0) .pdpt requestable
    (.inr level) (bumpAllocator_serves room) fun _ request => bumpAllocator_first request
  exact ⟨top, memory, top', buf, after, built, rebuilt, reach, update, create,
    (updatePaging_eq_createPageTable (bumpPlatform 0) (bumpAllocator 0) reach rfl update
      create).2.2⟩

end Okots
