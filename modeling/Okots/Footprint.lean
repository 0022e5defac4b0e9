import Okots.Main

/-!
# What the paging functions write

The tables live in the same memory as everything else.  A frame is foreign to a tree when it is not
one of its tables and the allocator cannot hand it out in between: it is in use, or it is not part
of the heap.  Neither the builder nor the update writes to a foreign frame, whether they return, end
with an error or panic halfway; so the image of the trampoline and the arrays of the kernel survive
every change of the mapping.
-/

namespace Okots

open StateExec Exec PageLevel

/-- A frame outside the tables `owned` that stays out of reach of the allocator. -/
def Foreign (platform : Platform) (owned : Multiset Nat) (memory : TableMemory) (frame : Nat) :
    Prop :=
  frame ∉ owned ∧
    (frame ∈ memory.live ∨ ∀ history, platform.allocator.allocZeroed history ≠ some frame)

/-- Between the two memories nothing was given back that had been in use, and no foreign frame was
written. -/
structure Spares (platform : Platform) (owned : Multiset Nat) (before after : TableMemory) :
    Prop where
  live : before.live ⊆ after.live
  words : ∀ frame, Foreign platform owned before frame → after.words frame = before.words frame

variable {platform : Platform} {owned : Multiset Nat} {before current after : TableMemory}
  {table : Nat} {index : Fin 512}

theorem Foreign.notMem_of_allocates {frame : Nat} {news : List Nat}
    (foreign : Foreign platform owned before frame)
    (allocates : Allocates platform.allocator before.history news) : frame ∉ news := by
  intro member
  rcases foreign.2 with live | never
  · exact allocates.fresh member live
  · obtain ⟨earlier, -, request⟩ := allocates.exists_request member
    exact never earlier request

namespace Spares

theorem refl (platform : Platform) (owned : Multiset Nat) (memory : TableMemory) :
    Spares platform owned memory memory :=
  ⟨Finset.Subset.refl _, fun _ _ => rfl⟩

/-- A part that works on other tables is spared as well when these are not foreign. -/
theorem trans {part : Multiset Nat} (first : Spares platform owned before current)
    (second : Spares platform part current after)
    (inside : ∀ frame, Foreign platform owned before frame → frame ∉ part) :
    Spares platform owned before after := by
  refine ⟨first.live.trans second.live, fun frame foreign => ?_⟩
  have still : Foreign platform part current frame :=
    ⟨inside frame foreign, foreign.2.imp (fun live => first.live live) id⟩
  rw [second.words frame still, first.words frame foreign]

theorem setFrame (spares : Spares platform owned before current)
    (own : ¬ Foreign platform owned before table) (contents : Fin 512 → BitVec 64) :
    Spares platform owned before (current.setFrame table contents) := by
  refine ⟨spares.live, fun frame foreign => ?_⟩
  have other : frame ≠ table := by
    rintro rfl
    exact own foreign
  rw [TableMemory.setFrame_words_of_ne _ other, spares.words frame foreign]

theorem setEntry (spares : Spares platform owned before current)
    (own : ¬ Foreign platform owned before table) (entry : BitVec 64) :
    Spares platform owned before (current.setEntry table index entry) :=
  spares.setFrame own _

/-- A frame that the allocator hands out is not foreign. -/
theorem request (spares : Spares platform owned before current)
    (request : platform.allocator.allocZeroed current.history = some table) :
    table ∉ before.live ∧ ¬ Foreign platform owned before table := by
  have fresh : table ∉ before.live := fun live =>
    platform.allocator.fresh _ _ request (spares.live live)
  exact ⟨fresh, fun foreign => foreign.2.elim fresh fun never => never _ request⟩

theorem alloc (spares : Spares platform owned before current)
    (request : platform.allocator.allocZeroed current.history = some table) :
    Spares platform owned before
      ((current.setFrame table fun _ => 0).record (.alloc table)) := by
  obtain ⟨live, words⟩ := spares.setFrame (spares.request request).2 fun _ => 0
  exact ⟨fun frame member => Finset.mem_insert_of_mem (live member), words⟩

theorem dealloc (spares : Spares platform owned before current) (fresh : table ∉ before.live)
    (own : ¬ Foreign platform owned before table) (contents : Fin 512 → BitVec 64) :
    Spares platform owned before ((current.setFrame table contents).record (.dealloc table)) := by
  obtain ⟨live, words⟩ := spares.setFrame own contents
  refine ⟨fun frame member => Finset.mem_erase.mpr ⟨?_, live member⟩, words⟩
  rintro rfl
  exact fresh member

end Spares

/-! ## Creation -/

variable {allowHuge level : PageLevel} {bound vaddrBase : Nat} {maps : List Mapping}

/-- However it ends, the program spares the foreign frames. -/
def EndsSparing {α : Type} (platform : Platform) (owned : Multiset Nat) (before : TableMemory)
    (program : Paging α) (current : TableMemory) : Prop :=
  Ends program current (fun _ after => Spares platform owned before after)
    fun _ after => Spares platform owned before after

/-- One iteration of the builder, given the builder of the lower tables. -/
theorem createEntry_spares {lower : Option (PageLevel × (Nat → List Mapping → Paging Nat))}
    (spares : Spares platform owned before current) (fresh : table ∉ before.live)
    (own : ¬ Foreign platform owned before table)
    (below : ∀ next ∈ lower, ∀ vstart sub,
      EndsSparing platform owned before (next.2 vstart sub) current) :
    EndsSparing platform owned before
      (createEntry platform allowHuge level lower table vaddrBase maps index) current := by
  have stored : ∀ value : Option (BitVec 64),
      EndsSparing platform owned before (do
        let rawEntry ← ofOption .panic value
        storeEntry table index rawEntry) current := by
    intro value
    rw [EndsSparing, ends_bind, ends_ofOption]
    exact ⟨fun entry _ => spares.setEntry own entry, fun _ => spares⟩
  rw [EndsSparing, createEntry, ends_bind, ends_ofOption]
  refine ⟨fun sub _ => ?_, fun _ => spares⟩
  split
  · exact spares
  split
  · exact stored _
  split
  · rename_i _ createNext
    rw [ends_bind, ends_handle]
    refine (below _ rfl _ _).mono ?_ ?_
    · intro child built spared
      rw [ends_bind, ends_ofOption]
      exact ⟨fun entry _ => spared.setEntry own entry, fun _ => spared⟩
    · intro reason built spared
      cases reason with
      | panic => exact spared
      | err error => exact spared.dealloc fresh own _
  · exact stored _

theorem allocTable_spares (spares : Spares platform owned before current) :
    Ends (allocTable platform) current
      (fun table after => platform.allocator.allocZeroed current.history = some table ∧
        Spares platform owned before after)
      fun _ after => Spares platform owned before after := by
  unfold Ends allocTable
  cases request : platform.allocator.allocZeroed current.history with
  | none => exact spares
  | some table => exact ⟨rfl, spares.alloc request⟩

/-- `create_recursive` writes to frames it has just obtained. -/
theorem createRecursive_spares (platform : Platform) (allowHuge level : PageLevel) :
    ∀ vaddrBase maps memory, EndsSparing platform 0 memory
      (createRecursive platform vaddrBase level maps allowHuge) memory := by
  induction level using downInduction with
  | step level induction =>
      intro vaddrBase maps memory
      rw [EndsSparing, createRecursive, descend_eq, createTable, ends_bind]
      have initial := Spares.refl platform 0 memory
      refine (allocTable_spares initial).mono ?_ fun _ _ spared => spared
      rintro table allocated ⟨request, spared⟩
      obtain ⟨fresh, own⟩ := initial.request request
      rw [ends_bind]
      refine forEach_ends (fun _ current => Spares platform 0 memory current) spared ?_
      intro done index rest current split spares
      refine createEntry_spares spares fresh own fun next member vstart sub => ?_
      obtain ⟨lower, step, rfl⟩ := Option.map_eq_some_iff.mp member
      have below := induction lower step vstart sub current
      exact below.mono (fun _ _ spared => spares.trans spared fun _ _ => Multiset.notMem_zero _)
        fun _ _ spared => spares.trans spared fun _ _ => Multiset.notMem_zero _

/-! ## Update -/

/-- One iteration of the update, given the update of the lower tables. -/
theorem updateEntry_spares {tmpVec : Detached}
    {lower : Option (PageLevel × (Nat → Nat → List Mapping → Detached → Paging Detached))}
    (spares : Spares platform owned before current) (own : ¬ Foreign platform owned before table)
    (below : ∀ next ∈ lower, isRelay (current.words table index) = true → ∀ sub tmpVec,
      EndsSparing platform owned before (next.2 (tableBase (current.words table index))
        (vaddrBase + index * level.entrySize) sub tmpVec) current) :
    EndsSparing platform owned before
      (updateEntry platform allowHuge level lower table vaddrBase maps tmpVec index) current := by
  have detached : ∀ found entry (value : BitVec 64),
      EndsSparing platform owned before (do
        let tmpVec ← detachWhen found level entry tmpVec
        storeEntry table index value
        return tmpVec) current := by
    intro found entry value
    rw [EndsSparing, detachWhen, ends_bind]
    split
    · rw [ends_bind, ends_ofOption]
      exact ⟨fun next _ => spares.setEntry own value, fun _ => spares⟩
    · exact spares.setEntry own value
  have stored : ∀ {built}, Spares platform owned before built → ∀ (value : Option (BitVec 64))
      (tmpVec : Detached), EndsSparing platform owned before (do
        let rawEntry ← ofOption .panic value
        storeEntry table index rawEntry
        return tmpVec) built := by
    intro built spared value tmpVec
    rw [EndsSparing, ends_bind, ends_ofOption]
    exact ⟨fun entry _ => spared.setEntry own entry, fun _ => spared⟩
  rw [EndsSparing, updateEntry, ends_bind, ends_ofOption]
  refine ⟨fun sub _ => ?_, fun _ => spares⟩
  rw [ends_bind, loadEntry, ends_read]
  dsimp only
  split
  · split
    · exact detached _ _ _
    · exact spares
  split
  · rw [ends_bind, ends_ofOption]
    refine ⟨fun entry _ => ?_, fun _ => spares⟩
    split
    · exact detached _ _ _
    · exact spares
  split
  · split
    · rename_i relay
      rw [ends_bind]
      refine (below _ rfl relay _ _).mono ?_ fun _ _ spared => spared
      exact fun result built spared => stored spared _ _
    · rw [ends_bind]
      refine (createRecursive_spares platform allowHuge _ _ _ _).mono ?_ ?_
      · intro child built spared
        exact stored (spares.trans spared fun _ _ => Multiset.notMem_zero _) _ _
      · exact fun _ _ spared => spares.trans spared fun _ _ => Multiset.notMem_zero _
  · exact stored spares _ _

/-- The tree of the loop has no foreign frames. -/
theorem UpdateLoop.notMem_of_foreign {news : List Nat} {tables : List (Nat × PageLevel)}
    {done : List (Fin 512)} {frame : Nat}
    (loop : UpdateLoop platform allowHuge level vaddrBase maps before table news tables done
      current) (foreign : Foreign platform (tableFrames before.words level table) before frame) :
    frame ∉ tableFrames current.words level table := by
  intro member
  have balanced : frame ∈ tableFrames before.words level table + (news : Multiset Nat) :=
    loop.frames ▸ Multiset.mem_add.mpr (.inl member)
  rcases Multiset.mem_add.mp balanced with old | new
  · exact foreign.1 old
  · exact foreign.notMem_of_allocates loop.allocates new

/-- `update_recursive` writes to the tables of its tree and to frames it has just obtained. -/
theorem updateRecursive_spares (platform : Platform) (allowHuge : PageLevel) (bound : Nat)
    (level : PageLevel) :
    ∀ table vaddrBase maps tmpVec before, TableBlock bound level vaddrBase →
      Separated before level table →
      EndsSparing platform (tableFrames before.words level table) before
        (updateRecursive platform table vaddrBase level maps allowHuge tmpVec) before := by
  induction level using downInduction with
  | step level induction =>
      intro table vaddrBase maps tmpVec before block separated
      rw [EndsSparing, updateRecursive, descend_eq, updateTable, ends_bind]
      have own : ¬ Foreign platform (tableFrames before.words level table) before table :=
        fun foreign => foreign.1 (mem_tableFrames.mpr (.inl rfl))
      refine (foldEach_ends (fun done value current =>
          UpdateState platform allowHuge level vaddrBase maps before table tmpVec.1 done value
            current ∧
          Spares platform (tableFrames before.words level table) before current)
        ⟨⟨[], [], (List.append_nil _).symm,
          UpdateLoop.start platform allowHuge level vaddrBase maps before table⟩,
          Spares.refl _ _ _⟩ ?_).mono ?_ fun _ _ spared => spared
      · rintro done index rest value current split ⟨⟨news, tables, accumulated, loop⟩, spares⟩
        obtain ⟨pending, short⟩ := entryIndices_split split
        have now := loop.separated separated
        have lower : LowerUpdates platform allowHuge level bound := fun next _ =>
          updateRecursive_ends platform allowHuge bound next
        refine ((updateEntry_ends block lower separated loop accumulated pending short).and
          (updateEntry_spares spares own ?_)).mono (fun _ _ both => both) fun _ _ both => both.2
        intro next member relay sub tmpVec
        obtain ⟨lower, step, rfl⟩ := Option.map_eq_some_iff.mp member
        have relays : Relays level (current.words table index) lower := ⟨step, relay⟩
        have apart : ∀ frame,
            Foreign platform (tableFrames before.words level table) before frame →
            frame ∉ tableFrames current.words lower (tableBase (current.words table index)) := by
          intro frame foreign inside
          refine loop.notMem_of_foreign foreign (mem_tableFrames.mpr (.inr ⟨index, ?_⟩))
          rwa [relays.entryFrames]
        refine (induction lower step _ _ sub tmpVec current ((block.entry index).table step)
          (now.child relays)).mono ?_ ?_
        · exact fun _ _ spared => spares.trans spared apart
        · exact fun _ _ spared => spares.trans spared apart
      · rintro result after ⟨-, spared⟩
        exact spared

/-- The incremental branch of `update_paging`. -/
theorem updatePaging_spares (platform : Platform) {top : TopPageTable}
    {newMapList : List MemRangeData} {newFlags : List PageEntryFlags} {allowHugeAt : PageLevel}
    (fragmentation : top.pageFragmentationLevel < cleanRecreateFragmentLevel)
    (virt : top.virt = top.phys) (separated : Separated before top.level top.phys) :
    EndsSparing platform (tableFrames before.words top.level top.phys) before
      (updatePaging platform top newMapList newFlags allowHugeAt) before := by
  rw [EndsSparing, updatePaging, ends_bind, ends_ofOption]
  refine ⟨fun lists _ => ?_, fun _ => Spares.refl _ _ _⟩
  simp only
  rw [if_neg (by omega), ends_bind, virt]
  exact (updateRecursive_spares platform allowHugeAt _ top.level top.phys 0 _ ([], 0) before
    (tableBlock_top top.level) separated).mono (fun _ _ spared => spared) fun _ _ spared => spared

/-! ## The functions of `Main` -/

variable {features : CpuFeatures} {base : Finset Nat} {initial : List Mapping} {state : CoreState}

/-- The tables of a core. -/
def CoreState.tables (state : CoreState) : Multiset Nat :=
  tableFrames state.memory.words state.pageTable.level state.pageTable.phys

/-- A foreign frame of a core is not written and stays foreign. -/
def Kept (platform : Platform) (before after : CoreState) : Prop :=
  ∀ frame, Foreign platform before.tables before.memory frame →
    Foreign platform after.tables after.memory frame ∧
      after.memory.words frame = before.memory.words frame

section Released

variable {news : List Nat} {tables : List (Nat × PageLevel)} {frame : Nat}
  (separated : Separated before level table)
  (updated : Updated platform allowHuge level vaddrBase maps before table news tables current)

include updated in
/-- Neither the updated tree nor the detached tables have foreign frames. -/
theorem Updated.notMem_of_foreign
    (foreign : Foreign platform (tableFrames before.words level table) before frame) :
    frame ∉ tableFrames current.words level table ∧
      frame ∉ detachedFrames current.words tables := by
  rw [← not_or, ← Multiset.mem_add, updated.frames, Multiset.mem_add, not_or]
  exact ⟨foreign.1, foreign.notMem_of_allocates updated.allocates⟩

include separated updated in
/-- The release of the detached tables leaves foreign frames alone. -/
theorem Updated.foreign_released
    (released : Released current (detachedFrames current.words tables) after)
    (foreign : Foreign platform (tableFrames before.words level table) before frame) :
    Foreign platform (tableFrames after.words level table) after frame ∧
      after.words frame = current.words frame := by
  obtain ⟨notTable, notDetached⟩ := updated.notMem_of_foreign foreign
  have nodup := updated.nodup separated
  have same : tableFrames after.words level table = tableFrames current.words level table :=
    (table_congr fun held member => released.frame held fun inDetached =>
      Multiset.disjoint_left.mp (Multiset.nodup_add.mp nodup).2.2 member inDetached).1
  refine ⟨⟨same ▸ notTable, foreign.2.imp (fun live => ?_) id⟩, released.frame frame notDetached⟩
  obtain ⟨freed, frames, history⟩ := released.history
  rw [TableMemory.live, history, mem_liveFrames_shrunk, updated.history, mem_liveFrames_grown]
  exact ⟨fun member => notDetached (frames ▸ member), .inr live⟩

end Released

/-- The foreign frames hold what they held. -/
def Untouched (platform : Platform) (before after : CoreState) : Prop :=
  ∀ frame, Foreign platform before.tables before.memory frame →
    after.memory.words frame = before.memory.words frame

section Calls

variable (platform : Platform) {features : CpuFeatures} {base : Finset Nat}
  {initial : List Mapping} {state : CoreState}

/-- `util_update_paging` returns, fails or panics without a write to a foreign frame. -/
theorem utilUpdatePaging_spares (free : Bool) (mapList : List MemRangeData)
    (flags : List PageEntryFlags) (inv : CoreInv features base initial state) :
    Ends (utilUpdatePaging platform features free mapList flags) state
      (fun _ after => Kept platform state after) fun _ after => Untouched platform state after := by
  obtain ⟨pending, tables⟩ := inv.tables
  obtain ⟨virt, fragmentation⟩ := tables.top state.pageTable rfl
  have below : state.pageTable.pageFragmentationLevel < cleanRecreateFragmentLevel := by
    rw [fragmentation]
    decide
  have separated := tables.separated rfl
  rw [utilUpdatePaging, ends_bind, ends_ofOption]
  refine ⟨fun kept _ => ?_, fun _ _ _ => rfl⟩
  simp only [onTables, ends_bind, ends_zoom, ends_read]
  refine ((updatePaging_ends platform below virt separated).and
    (updatePaging_spares platform below virt separated)).mono ?_ fun _ _ both => both.2.words
  rintro ⟨updatedTop, buf⟩ middle ⟨⟨lists, news, -, -, updated⟩, spared⟩
  cases free with
  | false =>
      intro frame foreign
      exact ⟨⟨(updated.notMem_of_foreign foreign).1,
        foreign.2.imp (fun live => spared.live live) id⟩, spared.words frame foreign⟩
  | true =>
      have nodup := (Multiset.nodup_add.mp (updated.nodup separated)).2.1
      simp only [if_true, ends_zoom]
      refine (freeNotUsedPaging_ends platform nodup).mono ?_ fun _ _ failed => failed
      intro _ after released frame foreign
      obtain ⟨still, same⟩ := updated.foreign_released separated released foreign
      exact ⟨still, same.trans (spared.words frame foreign)⟩

/-- `util_update_add_paging`, with the record that the next call starts from. -/
theorem utilUpdateAddPaging_spares (free : Bool) (mapList : List MemRangeData)
    (flags : List PageEntryFlags) (inv : CoreInv features base initial state) :
    Ends (utilUpdateAddPaging platform features free mapList flags) state
      (fun _ after => CoreInv features base initial after ∧ Kept platform state after)
      fun _ after => Untouched platform state after := by
  rw [utilUpdateAddPaging, ends_bind, ends_read]
  refine ((utilUpdatePaging_ends free inv).and
    (utilUpdatePaging_spares platform free _ _ inv)).mono ?_ fun _ _ both => both.2
  rintro _ after ⟨⟨kept, lists, -, -, updated⟩, spared⟩
  exact ⟨updated.coreInv inv, spared⟩

/-- A sequence of additions. -/
theorem addCalls_spares (calls : List AddCall) (inv : CoreInv features base initial state) :
    Ends (addCalls platform features calls) state
      (fun _ after => CoreInv features base initial after ∧ Kept platform state after)
      fun _ after => Untouched platform state after := by
  refine forEach_ends (fun _ current => CoreInv features base initial current ∧
    Kept platform state current) ⟨inv, fun _ foreign => ⟨foreign, rfl⟩⟩ ?_
  rintro done call rest current - ⟨currentInv, kept⟩
  refine (utilUpdateAddPaging_spares platform call.free call.mapList call.flags
    currentInv).mono ?_ ?_
  · rintro _ after ⟨afterInv, further⟩
    refine ⟨afterInv, fun frame foreign => ?_⟩
    obtain ⟨still, same⟩ := kept frame foreign
    obtain ⟨again, equal⟩ := further frame still
    exact ⟨again, equal.trans same⟩
  · intro _ after untouched frame foreign
    obtain ⟨still, same⟩ := kept frame foreign
    exact (untouched frame still).trans same

/-- A sequence of additions, whichever of them fails, leaves every foreign frame with the contents
it had. -/
theorem addCalls_untouched (calls : List AddCall) (inv : CoreInv features base initial state)
    {frame : Nat} (foreign : Foreign platform state.tables state.memory frame) :
    (addCalls platform features calls state).2.memory.words frame =
      state.memory.words frame := by
  have spares := addCalls_spares platform calls inv
  rcases run : addCalls platform features calls state with ⟨_ | _, after⟩
  · exact spares.of_error run frame foreign
  · exact ((spares.of_ok run).2 frame foreign).2

end Calls

/-- A core whose frames in use are as they were. -/
theorem CoreInv.congr {features : CpuFeatures} {base : Finset Nat} {initial : List Mapping}
    {state after : CoreState} (inv : CoreInv features base initial state)
    (cr3 : after.cr3 = state.cr3) (pageTable : after.pageTable = state.pageTable)
    (history : after.memory.history = state.memory.history)
    (agree : ∀ frame ∈ state.memory.live, after.memory.words frame = state.memory.words frame) :
    CoreInv features base initial after := by
  obtain ⟨pending, tables⟩ := inv.tables
  have frames : pagingFrames ⟨after.memory, some state.pageTable, pending⟩ =
      pagingFrames ⟨state.memory, some state.pageTable, pending⟩ :=
    pagingFrames_congr fun frame member => agree frame ((tables.live frame).mpr (.inr member))
  refine ⟨?_, ?_, ?_, ?_, pending, ?_⟩
  · rw [cr3, pageTable, inv.installed]
  · rw [pageTable, inv.level]
  · rw [pageTable]
    exact inv.mapping
  · rw [pageTable]
    exact inv.meaning
  · rw [pageTable]
    refine ⟨tables.top, ?_, fun frame => ?_, fun frame member => ?_⟩
    · rw [frames]
      exact tables.nodup
    · rw [frames, TableMemory.live, history]
      exact tables.live frame
    · rw [frames] at member
      exact tables.foreign frame member

/-! ## A realization -/

section Bump

variable {base : Nat} {mapList : List MemRangeData} {flags : List PageEntryFlags}
  {state : CoreState}

theorem base_le_highestFrame (base : Nat) (history : List FrameEvent) :
    base ≤ highestFrame base history := by
  induction history with
  | nil => exact Nat.le_refl _
  | cons event rest induction =>
      cases event with
      | alloc newest => exact Nat.le_trans induction (Nat.le_max_right _ _)
      | dealloc freed => exact induction

/-- The ascending allocator hands out frames above its base. -/
theorem bumpAllocator_above {history : List FrameEvent} {frame : Nat}
    (request : (bumpAllocator base).allocZeroed history = some frame) : base < frame := by
  have lowest := base_le_highestFrame base history
  have next := bumpAllocator_request request
  omega

/-- A core whose first table has been installed, with a heap above `base`. -/
structure Installed (base : Nat) (mapList : List MemRangeData) (flags : List PageEntryFlags)
    (state created : CoreState) : Prop where
  run : createPaging (bumpPlatform base) fourLevels mapList flags state = (.ok (), created)
  coreInv : CoreInv fourLevels ∅ (mapList.zip flags) created
  live : ∀ frame ∈ created.memory.live, base < frame ∧ 4096 ∣ frame ∧ frame < 2 ^ 52
  highest : highestFrame base created.memory.history ≤ base + 4096 * PageLevel.pml4.tableCount
  low : created.cr3 < 2 ^ 47
  words : ∀ frame ≤ base, created.memory.words frame = state.memory.words frame

/-- On the ascending allocator `create_paging` succeeds, wherever the heap starts. -/
theorem exists_installed (mappable : Mappable mapList flags)
    (first : state.memory.history = []) (low : base < 2 ^ 46) :
    ∃ created, Installed base mapList flags state created := by
  have nx : fourLevels.nx = true := rfl
  have size : PageLevel.pml4.tableCount = 134480385 := rfl
  have target : fourLevels.target.tableCount = 134480385 := rfl
  have start : highestFrame base state.memory.history = base := by rw [first]; rfl
  obtain ⟨_, created, run, ⟨inv, -, -⟩, installed, news, made⟩ :=
    ((createPaging_ends (bumpPlatform base) state nx mappable).and
      (createPaging_created (bumpPlatform base) state nx mappable.flagged)).exists_ok
        fun _ _ failed => by
          rcases failed.1 mappable.requestable with exhausted | ⟨frame, request, high⟩
          · exact bumpAllocator_serves (by rw [start]; omega) exhausted
          · have next := bumpAllocator_request request
            rw [start] at next
            omega
  have history := made.created.history
  have allocates := made.created.allocates
  have above : ∀ frame ∈ news, base < frame := by
    intro frame member
    obtain ⟨earlier, -, request⟩ := allocates.exists_request member
    exact bumpAllocator_above request
  refine ⟨created, run, ?_, fun frame live => ?_, ?_, installed ▸ made.low, fun frame below => ?_⟩
  · have empty : state.memory.live = ∅ := by rw [TableMemory.live, first]; rfl
    rw [← empty]
    exact inv
  · rw [TableMemory.live, history, mem_liveFrames_grown, first] at live
    have member := live.resolve_right (Finset.notMem_empty _)
    exact ⟨above frame member, allocates.aligned member, allocates.bounded member⟩
  · have grows := bumpAllocator_highest allocates
    have count := made.created.count
    rw [history]
    omega
  · exact made.created.frame frame fun member => absurd (above frame member) (by omega)

/-- Additions leave the memory below the heap alone. -/
theorem addCalls_untouched_low :
    ∃ created, Installed 0xC000 [⟨0x1000, 0xF000⟩] [.dataFlags] bootState created ∧
      (addCalls (bumpPlatform 0xC000) fourLevels
        [⟨true, [⟨0x40000000, 0x200000⟩], [.dataFlags]⟩, ⟨true, [⟨0x7000, 0x1000⟩], [.dataFlags]⟩]
        created).2.memory.words 0x7000 = created.memory.words 0x7000 := by
  have mappable : Mappable [⟨0x1000, 0xF000⟩] [PageEntryFlags.dataFlags] :=
    ⟨rfl, by decide, by decide, by decide⟩
  obtain ⟨created, installed⟩ : ∃ created, Installed 0xC000 _ _ bootState created :=
    exists_installed mappable rfl (by decide)
  refine ⟨created, installed, addCalls_untouched _ _ installed.coreInv ⟨?_, .inr ?_⟩⟩
  · intro member
    obtain ⟨pending, tables⟩ := installed.coreInv.tables
    have live := (tables.separated rfl).live _ member
    exact absurd (installed.live _ live).1 (by decide)
  · intro history request
    exact absurd (bumpAllocator_above request) (by decide)

end Bump

end Okots
