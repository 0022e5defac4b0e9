import Okots.Paging.ExactUpdate
import Okots.Paging.Lifecycle

/-!
# The page table of a core

`Main` keeps the top table of a core in its thread-local storage and installs it in `CR3`.  Adding
ranges starts from the list recorded there, but `util_update_paging` works on a copy of the record,
so the list of an earlier addition is not part of the next one: after any sequence of additions the
installed table maps the initial list and the list of the last call.
-/

namespace Okots

open StateExec Exec PageLevel LastWriter

/-! ## The model -/

/-- The processor features read by the paging functions of `Main`. -/
structure CpuFeatures where
  /-- `environment::paging::NX`. -/
  nx : Bool
  /-- `environment::paging::PdptHuge`. -/
  pdptHuge : Bool
  /-- `current::paging::Pml5`. -/
  pml5 : Bool

/-- Largest level with huge entries. -/
def CpuFeatures.allowHuge (features : CpuFeatures) : PageLevel :=
  if features.pdptHuge then .pdpt else .pd

/-- Level of the top table. -/
def CpuFeatures.target (features : CpuFeatures) : PageLevel :=
  if features.pml5 then .pml5 else .pml4

/-- What the paging functions of `Main` read and write on one core. -/
structure CoreState where
  /-- Table memory. -/
  memory : TableMemory
  /-- Frame of the installed top table. -/
  cr3 : Nat
  /-- `read_gs().page_table`. -/
  pageTable : TopPageTable

/-- Functions of `Main`. -/
abbrev Core (α : Type) := Kernel CoreState α

/-- Run a function of the paging module. -/
def onTables {α : Type} (program : Paging α) : Core α :=
  zoom CoreState.memory (fun memory state => { state with memory }) program

/-- `!PageEntryFlags::EXECUTE_DISABLE`. -/
def nxMask : PageEntryFlags := ⟨0x5FF#16⟩

/-- The closure of `flags.retain_mut`, applied to each flag in order: entries without flags are
removed from both lists, the other list by a running index. -/
def retainFlags (nx : Bool) : Nat → List MemRangeData → List PageEntryFlags →
    Option (List MemRangeData × List PageEntryFlags)
  | _, mapList, [] => some (mapList, [])
  | i, mapList, flag :: rest =>
      let flag := if nx then flag else ⟨flag.bits &&& nxMask.bits⟩
      if flag.isEmpty then
        if i < mapList.length then retainFlags nx i (mapList.eraseIdx i) rest else none
      else
        (retainFlags nx (i + 1) mapList rest).map fun kept => (kept.1, flag :: kept.2)

/-- `set_current`; a frame that is not page-aligned makes it panic. -/
def setCurrent (table : TopPageTable) : Core Unit :=
  if 4096 ∣ table.phys then modify fun state => { state with cr3 := table.phys } else fault .panic

/-- `create_paging`. -/
def createPaging (platform : Platform) (features : CpuFeatures) (mapList : List MemRangeData)
    (flags : List PageEntryFlags) : Core Unit := do
  let kept ← ofOption .panic (retainFlags features.nx 0 mapList flags)
  let res ← onTables
    (createPageTable platform kept.1 kept.2 features.allowHuge features.target)
  setCurrent res
  modify fun state => { state with pageTable := res }

/-- `util_update_paging`. The updated copy of the top table is dropped; the interrupt that makes
the other cores flush their translations has no effect on the tables. -/
def utilUpdatePaging (platform : Platform) (features : CpuFeatures) (free : Bool)
    (mapList : List MemRangeData) (flags : List PageEntryFlags) : Core Unit := do
  let kept ← ofOption .panic (retainFlags features.nx 0 mapList flags)
  let old ← read CoreState.pageTable
  let res ← onTables (updatePaging platform old kept.1 kept.2 features.allowHuge)
  if free then onTables (freeNotUsedPaging platform res.2) else pure ()

/-- `util_update_add_paging`. -/
def utilUpdateAddPaging (platform : Platform) (features : CpuFeatures) (free : Bool)
    (mapList : List MemRangeData) (flags : List PageEntryFlags) : Core Unit := do
  let old ← read fun state => state.pageTable.memoryMapping
  utilUpdatePaging platform features free (old.1 ++ mapList) (old.2 ++ flags)

/-- One call of `util_update_add_paging`. -/
structure AddCall where
  /-- The const parameter `FREE`. -/
  free : Bool
  /-- Ranges to add. -/
  mapList : List MemRangeData
  /-- Their flags. -/
  flags : List PageEntryFlags

/-- The added ranges with their flags. -/
def AddCall.ranges (call : AddCall) : List Mapping := call.mapList.zip call.flags

/-- A sequence of additions. -/
def addCalls (platform : Platform) (features : CpuFeatures) (calls : List AddCall) : Core Unit :=
  forEach calls fun call =>
    utilUpdateAddPaging platform features call.free call.mapList call.flags

/-! ## Lists -/

/-- Lists of aligned ranges with flags. -/
structure Mappable (mapList : List MemRangeData) (flags : List PageEntryFlags) : Prop where
  lengths : mapList.length = flags.length
  aligned : ∀ range ∈ mapList, range.Aligned
  fits : ∀ range ∈ mapList, range.Fits
  flagged : ∀ flag ∈ flags, flag.isEmpty = false

theorem Mappable.append {mapList mapList' : List MemRangeData} {flags flags' : List PageEntryFlags}
    (left : Mappable mapList flags) (right : Mappable mapList' flags') :
    Mappable (mapList ++ mapList') (flags ++ flags') where
  lengths := by rw [List.length_append, List.length_append, left.lengths, right.lengths]
  aligned range member :=
    (List.mem_append.mp member).elim (left.aligned range) (right.aligned range)
  fits range member := (List.mem_append.mp member).elim (left.fits range) (right.fits range)
  flagged flag member := (List.mem_append.mp member).elim (left.flagged flag) (right.flagged flag)

/-- Nothing is removed when the processor supports NX and every range has flags. -/
theorem retainFlags_eq {flags : List PageEntryFlags}
    (flagged : ∀ flag ∈ flags, flag.isEmpty = false) (i : Nat) (mapList : List MemRangeData) :
    retainFlags true i mapList flags = some (mapList, flags) := by
  induction flags generalizing i with
  | nil => rfl
  | cons flag rest induction =>
      have head : flag.isEmpty = false := flagged flag List.mem_cons_self
      have tail := induction (fun other member => flagged other (List.mem_cons_of_mem _ member))
        (i + 1)
      simp only [retainFlags, if_true, head, Bool.false_eq_true, if_false, tail, Option.map_some]

/-- A normalized list is again a list of aligned ranges with flags, with the same meaning. -/
theorem Mappable.normalize {profile : Profile} {sort : UnstableSort} {mapList : List MemRangeData}
    {flags : List PageEntryFlags} {lists : List MemRangeData × List PageEntryFlags}
    (mappable : Mappable mapList flags)
    (normalized : normalizeMapList profile sort mapList flags = some lists) :
    Mappable lists.1 lists.2 ∧ Tidy 4096 (lists.1.zip lists.2) ∧
      ∀ address, lastFlags (lists.1.zip lists.2) address =
        lastFlags (mapList.zip flags) address := by
  have inList : ∀ map ∈ mapList.zip flags, map.1 ∈ mapList := fun map member =>
    (List.of_mem_zip member).1
  obtain ⟨maps', flags', same, lengths, tidy, -, meaning⟩ := normalizeMapList_spec profile sort 4096
    (fun map member => mappable.fits map.1 (inList map member))
    (fun map member => mappable.aligned map.1 (inList map member))
  rw [normalized] at same
  obtain rfl := Option.some.inj same
  have equal := lengths mappable.lengths
  have paired : ∀ range ∈ maps', ∃ map ∈ maps'.zip flags', map.1 = range := by
    intro range member
    obtain ⟨position, bound, rfl⟩ := List.getElem_of_mem member
    refine ⟨(maps'[position], flags'[position]), ?_, rfl⟩
    exact List.mem_iff_getElem.mpr ⟨position, by simp; omega, by simp⟩
  refine ⟨⟨equal, ?_, ?_, normalizeMapList_flags mappable.flagged normalized⟩, tidy, meaning⟩
  · intro range member
    obtain ⟨map, inZip, rfl⟩ := paired range member
    exact tidy.granular map inZip
  · intro range member
    obtain ⟨map, inZip, rfl⟩ := paired range member
    exact tidy.fits map inZip

/-! ## The installed table -/

/-- The installed table translates the addresses below `2^47` as the list says. -/
def Translates (features : CpuFeatures) (state : CoreState) (maps : List Mapping) : Prop :=
  ∀ vaddr < 2 ^ 47, hardwareWalk state.memory.words features.target state.cr3 vaddr Rights.all =
    (lastFlags maps vaddr).map (requested · vaddr)

/-- The record of the core describes the installed table and still holds the initial list. -/
structure CoreInv (features : CpuFeatures) (base : Finset Nat) (initial : List Mapping)
    (state : CoreState) : Prop where
  installed : state.cr3 = state.pageTable.phys
  level : state.pageTable.level = features.target
  mapping : Mappable state.pageTable.memoryMapping.1 state.pageTable.memoryMapping.2
  meaning : ∀ address, lastFlags
    (state.pageTable.memoryMapping.1.zip state.pageTable.memoryMapping.2) address =
      lastFlags initial address
  tables : ∃ pending, PagingInv base ⟨state.memory, some state.pageTable, pending⟩

/-- The requests to the allocator made by one call. -/
def Requests (platform : Platform) (features : CpuFeatures) (before after : CoreState) : Prop :=
  ∃ news freed, after.memory.history = shrunk (grown before.memory.history news) freed ∧
    Allocates platform.allocator before.memory.history news ∧
    news.length ≤ features.target.tableCount

variable {platform : Platform} {features : CpuFeatures} {base : Finset Nat}
  {initial : List Mapping} {state : CoreState} {mapList : List MemRangeData}
  {flags : List PageEntryFlags}

theorem CpuFeatures.limit (features : CpuFeatures) : features.allowHuge ≤ .pdpt := by
  rw [allowHuge]
  split <;> decide

theorem CpuFeatures.kind (features : CpuFeatures) :
    features.target = .pml5 ∨ features.target = .pml4 := by
  rw [target]
  split
  · exact .inl rfl
  · exact .inr rfl

theorem CpuFeatures.low_lt_span (features : CpuFeatures) :
    2 ^ 47 < 512 * features.target.entrySize := by
  rcases features.kind with kind | kind <;> rw [kind] <;> decide

/-- `create_paging` installs the tree of `create_page_table`. -/
theorem createPaging_created (platform : Platform) (state : CoreState) (nx : features.nx = true)
    (flagged : ∀ flag ∈ flags, flag.isEmpty = false) :
    Ends (createPaging platform features mapList flags) state
      (fun _ after => after.cr3 = after.pageTable.phys ∧ ∃ news,
        CreatedTop platform mapList flags features.allowHuge features.target state.memory
          after.pageTable news after.memory)
      (fun _ _ => Requestable (512 * features.target.entrySize) mapList flags →
        Exhausted platform.allocator state.memory.history features.target.tableCount ∨
          ∃ frame, platform.allocator.allocZeroed state.memory.history = some frame ∧
            2 ^ 47 ≤ frame) := by
  rw [createPaging, nx, retainFlags_eq flagged]
  simp only [ofOption, onTables, ends_bind, ends_zoom]
  refine (createPageTable_ends platform mapList flags features.allowHuge features.target
    state.memory).mono ?_ fun _ _ failed requestable => failed requestable features.kind
  rintro top after ⟨news, made⟩
  have aligned : 4096 ∣ top.phys := made.created.allocates.aligned made.created.mem
  rw [setCurrent, if_pos aligned]
  exact ⟨rfl, news, made⟩

theorem createPaging_ends (platform : Platform) (state : CoreState) (nx : features.nx = true)
    (mappable : Mappable mapList flags) :
    Ends (createPaging platform features mapList flags) state
      (fun _ after => CoreInv features state.memory.live (mapList.zip flags) after ∧
        Translates features after (mapList.zip flags) ∧ Requests platform features state after)
      (fun _ _ => Requestable (512 * features.target.entrySize) mapList flags →
        Exhausted platform.allocator state.memory.history features.target.tableCount ∨
          ∃ frame, platform.allocator.allocZeroed state.memory.history = some frame ∧
            2 ^ 47 ≤ frame) := by
  refine (createPaging_created platform state nx mappable.flagged).mono ?_ fun _ _ failed => failed
  rintro _ after ⟨installed, news, made⟩
  have created := made.created
  obtain ⟨mapping, tidy, meaning⟩ := mappable.normalize made.normalized
  refine ⟨⟨installed, made.level, mapping, meaning, [], PagingInv.create rfl made⟩, ?_, news, [],
    created.history, created.allocates, created.count⟩
  intro vaddr below
  have span := features.low_lt_span
  rw [← meaning, installed]
  exact translates_of_tree platform.crates features.limit features.kind tidy
    (fun index => by rw [created.tree]) (by omega) (by omega)

/-- Releasing a detached list does not touch the tree of the top table. -/
theorem PagingInv.tree_free {memory after : TableMemory} {top : TopPageTable}
    {pending : List (List (Nat × PageLevel))} {buf : List (Nat × PageLevel)}
    (inv : PagingInv base ⟨memory, some top, buf :: pending⟩)
    (released : Released memory (detachedFrames memory.words buf) after) :
    tableTree after.words top.level top.phys = tableTree memory.words top.level top.phys := by
  refine (table_congr fun frame member => released.frame frame fun inBuf => ?_).2
  have nodup := inv.nodup
  rw [pagingFrames, List.flatten_cons, detachedFrames_append, Multiset.nodup_add] at nodup
  exact Multiset.disjoint_left.mp nodup.2.2 member (Multiset.mem_add.mpr (.inl inBuf))

/-- Releasing the list that an update has detached leaves the tree as it is. -/
theorem PagingInv.free_ends (platform : Platform) {memory : TableMemory} {top : TopPageTable}
    {pending : List (List (Nat × PageLevel))} {buf : List (Nat × PageLevel)}
    {fail : Fault → TableMemory → Prop}
    (inv : PagingInv base ⟨memory, some top, buf :: pending⟩) :
    Ends (freeNotUsedPaging platform buf) memory
      (fun _ after => PagingInv base ⟨after, some top, pending⟩ ∧
        tableTree after.words top.level top.phys = tableTree memory.words top.level top.phys ∧
        ∃ freed, after.history = shrunk memory.history freed) fail := by
  have split : pagingFrames ⟨memory, some top, buf :: pending⟩ =
      detachedFrames memory.words buf + pagingFrames ⟨memory, some top, pending⟩ :=
    PagingInv.split_free []
  have nodup := inv.nodup
  rw [split, Multiset.nodup_add] at nodup
  refine (freeNotUsedPaging_ends platform nodup.1).mono ?_ fun _ _ failed => failed
  intro _ after released
  obtain ⟨freed, -, history⟩ := released.history
  exact ⟨inv.release split released fun _ present => present, inv.tree_free released, freed,
    history⟩

/-- The recorded list followed by an added one means the initial list followed by it. -/
theorem CoreInv.meaning_append (inv : CoreInv features base initial state) (address : Nat) :
    lastFlags ((state.pageTable.memoryMapping.1 ++ mapList).zip
        (state.pageTable.memoryMapping.2 ++ flags)) address =
      lastFlags (initial ++ mapList.zip flags) address := by
  rw [List.zip_append inv.mapping.lengths, lastFlags, lastFlags, lastWriter_append,
    lastWriter_append]
  exact congrArg _ (inv.meaning address)

/-- The outcome of `util_update_paging` with normalized lists: the tables are those of the lists,
and the record of the core is as before. -/
structure CoreUpdated (platform : Platform) (features : CpuFeatures) (base : Finset Nat)
    (lists : List MemRangeData × List PageEntryFlags) (before after : CoreState) : Prop where
  installed : after.cr3 = before.cr3
  record : after.pageTable = before.pageTable
  tables : ∃ pending, PagingInv base ⟨after.memory, some before.pageTable, pending⟩
  requests : Requests platform features before after
  erased : ∀ index, erasePat before.pageTable.level
      (tableTree after.memory.words before.pageTable.level before.pageTable.phys index) =
    erasePat before.pageTable.level
      (listTable platform.crates features.allowHuge before.pageTable.level 0
        (lists.1.zip lists.2) index)
  tree : ∀ index,
    tableTree after.memory.words before.pageTable.level before.pageTable.phys index =
      updatedTable platform.crates features.allowHuge before.pageTable.level
        (tableTree before.memory.words before.pageTable.level before.pageTable.phys) 0
        (lists.1.zip lists.2) index

/-- `util_update_paging` with any lists. -/
theorem utilUpdatePaging_ends (free : Bool) (inv : CoreInv features base initial state) :
    Ends (utilUpdatePaging platform features free mapList flags) state
      (fun _ after => ∃ kept lists, retainFlags features.nx 0 mapList flags = some kept ∧
        normalizeMapList platform.profile platform.sort kept.1 kept.2 = some lists ∧
        CoreUpdated platform features base lists state after)
      (fun _ _ => ∀ kept, retainFlags features.nx 0 mapList flags = some kept →
        Requestable (512 * features.target.entrySize) kept.1 kept.2 →
        Exhausted platform.allocator state.memory.history features.target.tableCount) := by
  obtain ⟨pending, tables⟩ := inv.tables
  obtain ⟨virt, fragmentation⟩ := tables.top state.pageTable rfl
  have below : state.pageTable.pageFragmentationLevel < cleanRecreateFragmentLevel := by
    rw [fragmentation]
    decide
  have separated := tables.separated rfl
  rw [utilUpdatePaging, ends_bind, ends_ofOption]
  refine ⟨fun kept retained => ?_, fun panics kept retained => ?_⟩
  · simp only [onTables, ends_bind, ends_zoom, ends_read]
    refine ((updatePaging_ends platform below virt separated).and
      (updatePaging_exact platform below virt separated)).mono ?_ ?_
    · rintro ⟨updatedTop, buf⟩ middle ⟨⟨lists, news, normalized, -, updated⟩, others, same, -, tree⟩
      obtain rfl := Option.some.inj (same.symm.trans normalized)
      have next : PagingInv base ⟨middle, some state.pageTable, buf :: pending⟩ :=
        tables.update updated
      have count : news.length ≤ features.target.tableCount := inv.level ▸ updated.count
      cases free with
      | false =>
          exact ⟨kept, others, retained, same, rfl, rfl, ⟨_, next⟩,
            ⟨news, [], updated.history, updated.allocates, count⟩, updated.tree, tree⟩
      | true =>
          simp only [if_true, ends_zoom]
          refine (next.free_ends platform).mono ?_ fun _ _ failed => failed
          rintro _ after ⟨released, unchanged, freed, history⟩
          rw [updated.history] at history
          refine ⟨kept, others, retained, same, rfl, rfl, ⟨pending, released⟩,
            ⟨news, freed, history, updated.allocates, count⟩, ?_, ?_⟩
          · simp only [unchanged]
            exact updated.tree
          · simp only [unchanged]
            exact tree
    · rintro reason after ⟨failed, -⟩ others same requestable
      obtain rfl := Option.some.inj (retained.symm.trans same)
      rw [← inv.level] at requestable ⊢
      exact failed requestable
  · rw [panics] at retained
    cases retained

section Updated

variable {lists : List MemRangeData × List PageEntryFlags} {after : CoreState}
  (inv : CoreInv features base initial state)
  (updated : CoreUpdated platform features base lists state after)

include inv updated

theorem CoreUpdated.coreInv : CoreInv features base initial after where
  installed := by rw [updated.installed, updated.record, inv.installed]
  level := by rw [updated.record, inv.level]
  mapping := by
    rw [updated.record]
    exact inv.mapping
  meaning := by
    rw [updated.record]
    exact inv.meaning
  tables := by
    rw [updated.record]
    exact updated.tables

/-- The updated table translates as the given lists say. -/
theorem CoreUpdated.translates {kept : List MemRangeData × List PageEntryFlags}
    (mappable : Mappable kept.1 kept.2)
    (normalized : normalizeMapList platform.profile platform.sort kept.1 kept.2 = some lists) :
    Translates features after (kept.1.zip kept.2) := by
  obtain ⟨-, tidy, meaning⟩ := mappable.normalize normalized
  intro vaddr low
  have span := features.low_lt_span
  rw [← meaning, updated.installed, inv.installed]
  refine translates_of_tree platform.crates features.limit features.kind tidy (fun index => ?_)
    (by omega) (by omega)
  rw [← inv.level]
  exact updated.erased index

end Updated

/-- One addition: the installed table maps the initial list and the added one. -/
theorem utilUpdateAddPaging_ends (nx : features.nx = true) (free : Bool)
    (inv : CoreInv features base initial state) (mappable : Mappable mapList flags) :
    Ends (utilUpdateAddPaging platform features free mapList flags) state
      (fun _ after => CoreInv features base initial after ∧
        Translates features after (initial ++ mapList.zip flags) ∧
        Requests platform features state after ∧ after.pageTable = state.pageTable)
      (fun _ _ => Requestable (512 * features.target.entrySize)
          (state.pageTable.memoryMapping.1 ++ mapList) (state.pageTable.memoryMapping.2 ++ flags) →
        Exhausted platform.allocator state.memory.history features.target.tableCount) := by
  have joined := inv.mapping.append mappable
  have retained := retainFlags_eq joined.flagged 0 (state.pageTable.memoryMapping.1 ++ mapList)
  rw [← nx] at retained
  rw [utilUpdateAddPaging, ends_bind, ends_read]
  refine (utilUpdatePaging_ends free inv).mono ?_ fun _ _ failed => failed _ retained
  rintro _ after ⟨kept, lists, same, normalized, updated⟩
  obtain rfl := Option.some.inj (retained.symm.trans same)
  refine ⟨updated.coreInv inv, fun vaddr low => ?_, updated.requests, updated.record⟩
  rw [← inv.meaning_append]
  exact updated.translates inv joined normalized vaddr low

/-! ## Sequences of additions -/

/-- The ranges of the last call. -/
def lastRanges (calls : List AddCall) : List Mapping :=
  match calls.getLast? with
  | some call => call.ranges
  | none => []

/-- Additions of any lists keep the record of the core. -/
theorem addCalls_coreInv (platform : Platform) (inv : CoreInv features base initial state)
    (calls : List AddCall) :
    Ends (addCalls platform features calls) state
      (fun _ after => CoreInv features base initial after) (fun _ _ => True) := by
  refine forEach_ends (fun _ current => CoreInv features base initial current) inv ?_
  intro done call rest current _ currentInv
  rw [utilUpdateAddPaging, ends_bind, ends_read]
  refine (utilUpdatePaging_ends call.free currentInv).mono ?_ fun _ _ _ => trivial
  rintro _ after ⟨kept, lists, -, -, updated⟩
  exact updated.coreInv currentInv

/-- After any number of additions the installed table maps the initial list and the last one. -/
theorem addCalls_ends (nx : features.nx = true) (inv : CoreInv features base initial state)
    (start : Translates features state initial) {calls : List AddCall}
    (mappable : ∀ call ∈ calls, Mappable call.mapList call.flags) :
    Ends (addCalls platform features calls) state
      (fun _ after => CoreInv features base initial after ∧
        Translates features after (initial ++ lastRanges calls))
      (fun _ _ => True) := by
  refine forEach_ends (fun done current => CoreInv features base initial current ∧
    Translates features current (initial ++ lastRanges done)) ?_ ?_
  · rw [lastRanges, List.getLast?_nil, List.append_nil]
    exact ⟨inv, start⟩
  · rintro done call rest current split ⟨currentInv, -⟩
    have member : call ∈ calls := by simp [split]
    refine (utilUpdateAddPaging_ends nx call.free currentInv (mappable call member)).mono ?_
      fun _ _ _ => trivial
    rintro _ after ⟨afterInv, translates, -⟩
    rw [lastRanges, List.getLast?_concat]
    exact ⟨afterInv, translates⟩

/-- Outside the ranges of the last call, the earlier calls ask for nothing that the initial list
does not already say. -/
def RepeatsInitial (initial : List Mapping) (earlier : List AddCall) (last : AddCall) : Prop :=
  ∀ vaddr < 2 ^ 47, lastFlags last.ranges vaddr = none →
    (lastFlags (initial ++ earlier.flatMap AddCall.ranges) vaddr).map (requested · vaddr) =
      (lastFlags initial vaddr).map (requested · vaddr)

/-- NX and 1 GiB pages, four levels. -/
def fourLevels : CpuFeatures := ⟨true, true, false⟩

/-- Before the first table is installed. -/
def bootState : CoreState where
  memory := emptyMemory
  cr3 := 0
  pageTable :=
    { phys := 0, virt := 0, level := .pt, pageFragmentationLevel := 0, memoryMapping := ([], []) }

theorem Mappable.requestable (mappable : Mappable mapList flags) :
    Requestable (512 * fourLevels.target.entrySize) mapList flags :=
  requestable_of_physical (.inl rfl) mappable.lengths mappable.aligned mappable.fits
    (by simp [fourLevels, CpuFeatures.target])

theorem highestFrame_shrunk (limit : Nat) (history : List FrameEvent) (freed : List Nat) :
    highestFrame limit (shrunk history freed) = highestFrame limit history := by
  induction freed with
  | nil => rfl
  | cons frame rest induction => exact induction

theorem Requests.highest {after : CoreState}
    (requests : Requests (bumpPlatform 0) fourLevels state after) :
    highestFrame 0 after.memory.history ≤
      highestFrame 0 state.memory.history + 4096 * PageLevel.pml4.tableCount := by
  obtain ⟨news, freed, history, allocates, count⟩ := requests
  have grows := bumpAllocator_highest allocates
  have count' : news.length ≤ PageLevel.pml4.tableCount := count
  rw [history, highestFrame_shrunk]
  omega

/-- On the ascending allocator `create_paging` succeeds. -/
theorem bumpPlatform_createPaging (mappable : Mappable mapList flags) :
    ∃ created,
      createPaging (bumpPlatform 0) fourLevels mapList flags bootState = (.ok (), created) ∧
      CoreInv fourLevels bootState.memory.live (mapList.zip flags) created ∧
      Translates fourLevels created (mapList.zip flags) ∧
      Requests (bumpPlatform 0) fourLevels bootState created := by
  obtain ⟨_, created, create, facts⟩ :=
    (createPaging_ends (bumpPlatform 0) bootState (show fourLevels.nx = true from rfl)
      mappable).exists_ok fun _ _ failed => by
        rcases failed mappable.requestable with exhausted | ⟨frame, request, high⟩
        · exact bumpAllocator_serves (by decide) exhausted
        · have low : frame < 2 ^ 47 := bumpAllocator_first request
          omega
  exact ⟨created, create, facts⟩

/-- On the ascending allocator short sequences of additions succeed. -/
theorem bumpPlatform_addCalls {calls : List AddCall} (initialMappable : Mappable mapList flags)
    (mappable : ∀ call ∈ calls, Mappable call.mapList call.flags) (short : calls.length < 1000) :
    ∃ created final,
      createPaging (bumpPlatform 0) fourLevels mapList flags bootState = (.ok (), created) ∧
      addCalls (bumpPlatform 0) fourLevels calls created = (.ok (), final) ∧
      Translates fourLevels final (mapList.zip flags ++ lastRanges calls) := by
  have size : PageLevel.pml4.tableCount = 134480385 := rfl
  obtain ⟨created, create, inv, translates, requests⟩ := bumpPlatform_createPaging initialMappable
  have start : highestFrame 0 created.memory.history ≤ 4096 * PageLevel.pml4.tableCount := by
    have highest := requests.highest
    have zero : highestFrame 0 bootState.memory.history = 0 := rfl
    omega
  have ends : Ends (addCalls (bumpPlatform 0) fourLevels calls) created
      (fun _ after => CoreInv fourLevels bootState.memory.live (mapList.zip flags) after ∧
        highestFrame 0 after.memory.history ≤ 4096 * 134480385 * (calls.length + 1))
      (fun _ _ => False) := by
    refine forEach_ends (fun done current =>
      CoreInv fourLevels bootState.memory.live (mapList.zip flags) current ∧
        highestFrame 0 current.memory.history ≤ 4096 * 134480385 * (done.length + 1))
      ⟨inv, by simpa [size] using start⟩ ?_
    rintro done call rest current split ⟨currentInv, highest⟩
    have callMappable := mappable call (by simp [split])
    have length := congrArg List.length split
    rw [List.length_append, List.length_cons] at length
    refine (utilUpdateAddPaging_ends rfl call.free currentInv callMappable).mono ?_ ?_
    · rintro _ after ⟨afterInv, -, requests, -⟩
      have next := requests.highest
      refine ⟨afterInv, ?_⟩
      rw [List.length_append, List.length_singleton]
      omega
    · intro _ _ failed
      refine bumpAllocator_serves ?_
        (failed (currentInv.mapping.append callMappable).requestable)
      have budget : fourLevels.target.tableCount = 134480385 := rfl
      omega
  obtain ⟨_, final, adds, -⟩ := ends.exists_ok fun _ _ failed => failed
  exact ⟨created, final, create, adds, ((addCalls_ends rfl inv translates mappable).of_ok adds).2⟩

/-- A sequence of additions keeps the mappings of all calls exactly when the calls before the last
one ask for nothing new. -/
theorem addCalls_translates_iff (platform : Platform) (features : CpuFeatures)
    (nx : features.nx = true) {start created final : CoreState} {mapList : List MemRangeData}
    {flags : List PageEntryFlags} (calls : List AddCall) (last : AddCall)
    (mappable : Mappable mapList flags)
    (callsMappable : ∀ call ∈ calls ++ [last], Mappable call.mapList call.flags)
    (create : createPaging platform features mapList flags start = (.ok (), created))
    (adds : addCalls platform features (calls ++ [last]) created = (.ok (), final)) :
    Translates features final (mapList.zip flags ++ (calls ++ [last]).flatMap AddCall.ranges) ↔
      RepeatsInitial (mapList.zip flags) calls last := by
  obtain ⟨inv, translates, -⟩ := (createPaging_ends platform start nx mappable).of_ok create
  obtain ⟨-, installed⟩ := (addCalls_ends nx inv translates callsMappable).of_ok adds
  have lastOne : lastRanges (calls ++ [last]) = last.ranges := by
    rw [lastRanges, List.getLast?_concat]
  have whole : ∀ vaddr,
      lastFlags (mapList.zip flags ++ (calls ++ [last]).flatMap AddCall.ranges) vaddr =
        (lastFlags last.ranges vaddr).or
          (lastFlags (mapList.zip flags ++ calls.flatMap AddCall.ranges) vaddr) := by
    intro vaddr
    rw [List.flatMap_append, ← List.append_assoc, lastFlags, lastWriter_append]
    simp [lastFlags]
  have onlyLast : ∀ vaddr, lastFlags (mapList.zip flags ++ lastRanges (calls ++ [last])) vaddr =
      (lastFlags last.ranges vaddr).or (lastFlags (mapList.zip flags) vaddr) := by
    intro vaddr
    rw [lastOne, lastFlags, lastWriter_append]
    rfl
  refine forall₂_congr fun vaddr below => ?_
  rw [installed vaddr below, whole, onlyLast]
  cases lastFlags last.ranges vaddr with
  | none => simp [eq_comm]
  | some found => simp

/-- One page. -/
def addPage (start : Nat) : AddCall := ⟨true, [⟨start, 0x1000⟩], [.dataFlags]⟩

theorem addPage_mappable (start : Nat) (aligned : 4096 ∣ start) (fits : start + 0x1000 < 2 ^ 64) :
    Mappable (addPage start).mapList (addPage start).flags where
  lengths := rfl
  aligned := by simpa [addPage, MemRangeData.Aligned] using aligned
  fits := by simpa [addPage, MemRangeData.Fits, usizeCount] using fits
  flagged := by
    simp only [addPage, List.mem_singleton, forall_eq]
    decide

theorem addCalls_translates_iff_addPage :
    ∃ created final,
      createPaging (bumpPlatform 0) fourLevels [⟨0x1000, 0x1000⟩] [.dataFlags] bootState =
        (.ok (), created) ∧
      addCalls (bumpPlatform 0) fourLevels [addPage 0x2000] created = (.ok (), final) ∧
      Translates fourLevels final
        [(⟨0x1000, 0x1000⟩, .dataFlags), (⟨0x2000, 0x1000⟩, .dataFlags)] := by
  have first := addPage_mappable 0x1000 (by decide) (by decide)
  have second : ∀ call ∈ [addPage 0x2000], Mappable call.mapList call.flags := by
    simpa using addPage_mappable 0x2000 (by decide) (by decide)
  obtain ⟨created, final, create, adds, -⟩ := bumpPlatform_addCalls first second (by decide)
  refine ⟨created, final, create, adds, ?_⟩
  refine (addCalls_translates_iff (bumpPlatform 0) fourLevels rfl [] (addPage 0x2000) first second
    create adds).mpr fun vaddr _ _ => ?_
  simp

/-- The second of three pages is lost when the third one is added. -/
theorem addCalls_loses_page :
    ∃ created final,
      createPaging (bumpPlatform 0) fourLevels [⟨0x1000, 0x1000⟩] [.dataFlags] bootState =
        (.ok (), created) ∧
      addCalls (bumpPlatform 0) fourLevels [addPage 0x2000, addPage 0x3000] created =
        (.ok (), final) ∧
      hardwareWalk final.memory.words .pml4 final.cr3 0x2000 Rights.all = none ∧
      (lastFlags ((⟨0x1000, 0x1000⟩, .dataFlags) ::
        [addPage 0x2000, addPage 0x3000].flatMap AddCall.ranges) 0x2000).isSome = true := by
  have first := addPage_mappable 0x1000 (by decide) (by decide)
  have others : ∀ call ∈ [addPage 0x2000, addPage 0x3000], Mappable call.mapList call.flags := by
    simpa using ⟨addPage_mappable 0x2000 (by decide) (by decide),
      addPage_mappable 0x3000 (by decide) (by decide)⟩
  obtain ⟨created, final, create, adds, translates⟩ := bumpPlatform_addCalls first others
    (by decide)
  refine ⟨created, final, create, adds, ?_, by decide⟩
  exact translates 0x2000 (by decide)

end Okots
