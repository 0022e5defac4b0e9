import Okots.Boot
import Okots.Paging.GetAddr

/-!
# Physical regions for the ACPI tables

`map_physical_region` asks `get_addr` about the first address of the region only.  If that address
has no translation, the pages of the whole region are added.  If it has one, nothing is added, and
the rest of the region is mapped only if it was mapped before.
-/

namespace Okots

open StateExec Exec PageLevel LastWriter

/-! ## The model -/

/-- `get_addr` on a core, which reads `CR3` and `CR4`. -/
def currentGetAddr (platform : Platform) (features : CpuFeatures) (addr : Nat) : Core Nat := do
  let cr3 ← read CoreState.cr3
  onTables (getAddr platform features.pml5 cr3 addr)

/-- `Result::is_err`. -/
def isErr {α : Type} (program : Core α) : Core Bool :=
  handle (do let _ ← program; return false) fun reason =>
    match reason with
    | .panic => fault .panic
    | .err _ => pure true

/-- `Result::unwrap`. -/
def unwrap {α : Type} (program : Core α) : Core α := handle program fun _ => fault .panic

/-- `PRESENT | WRITABLE | PCD | EXECUTE_DISABLE`. -/
def regionFlags : PageEntryFlags :=
  ((PageEntryFlags.present.union .writable).union .pcd).union .executeDisable

/-- `PhysicalMapping`. -/
structure PhysicalMapping where
  /-- Physical start of the region. -/
  physicalStart : Nat
  /-- Virtual start of the region. -/
  virtualStart : Nat
  /-- Length of the region. -/
  regionLength : Nat
  /-- Length of the mapping. -/
  mappedLength : Nat

/-- `TmpHandler::map_physical_region`. -/
def mapPhysicalRegion (platform : Platform) (features : CpuFeatures)
    (physicalAddress size : Nat) : Core PhysicalMapping := do
  let pageBase := physicalAddress &&& pageMask
  let offset ← ofOption .panic (usizeSub platform.profile physicalAddress pageBase)
  let length ← ofOption .panic (usizeAdd platform.profile size offset)
  let padded ← ofOption .panic (usizeAdd platform.profile length 0xFFF)
  let alignedSize := padded &&& pageMask
  let addr ← ofOption .panic (platform.crates.virtAddrNew physicalAddress)
  let unmapped ← isErr (currentGetAddr platform features addr)
  if unmapped then
    unwrap (utilUpdateAddPaging platform features true [⟨pageBase, alignedSize⟩] [regionFlags])
  else
    pure ()
  if physicalAddress = 0 then
    fault .panic
  else
    return { physicalStart := physicalAddress, virtualStart := physicalAddress
             regionLength := size, mappedLength := alignedSize }

/-! ## The pages of a region -/

/-- The range that `map_physical_region` adds. -/
def regionRange (physicalAddress size : Nat) : MemRangeData where
  start := physicalAddress / 4096 * 4096
  len := (size + physicalAddress % 4096 + 0xFFF) / 4096 * 4096

theorem regionRange_aligned (physicalAddress size : Nat) :
    (regionRange physicalAddress size).Aligned :=
  ⟨Nat.dvd_mul_left _ _, Nat.dvd_mul_left _ _⟩

theorem regionRange_covers {physicalAddress size address : Nat}
    (above : physicalAddress ≤ address) (below : address < physicalAddress + size) :
    (regionRange physicalAddress size).contains address = true := by
  rw [MemRangeData.contains_iff]
  simp only [regionRange]
  omega

section Region

variable {physicalAddress size : Nat} (low : physicalAddress + size < 2 ^ 47)

include low

theorem regionRange_fits : (regionRange physicalAddress size).Fits := by
  simp only [MemRangeData.Fits, regionRange, usizeCount]
  omega

/-- In the lower half no address computation of the call overflows. -/
theorem mapPhysicalRegion_eq (platform : Platform) (features : CpuFeatures) :
    mapPhysicalRegion platform features physicalAddress size = (do
      let unmapped ← isErr (currentGetAddr platform features physicalAddress)
      if unmapped then
        unwrap (utilUpdateAddPaging platform features true [regionRange physicalAddress size]
          [regionFlags])
      else
        pure ()
      if physicalAddress = 0 then
        fault .panic
      else
        return { physicalStart := physicalAddress, virtualStart := physicalAddress
                 regionLength := size
                 mappedLength := (regionRange physicalAddress size).len }) := by
  have count : usizeCount = 2 ^ 64 := rfl
  have base : physicalAddress &&& pageMask = physicalAddress / 4096 * 4096 :=
    and_pageMask (by omega)
  have offset : usizeSub platform.profile physicalAddress (physicalAddress / 4096 * 4096) =
      some (physicalAddress % 4096) := by
    have below : physicalAddress / 4096 * 4096 ≤ physicalAddress := Nat.div_mul_le_self _ _
    have rest : physicalAddress - physicalAddress / 4096 * 4096 = physicalAddress % 4096 := by omega
    rw [usizeSub_of_le _ below, rest]
  have length : usizeAdd platform.profile size (physicalAddress % 4096) =
      some (size + physicalAddress % 4096) := usizeAdd_of_lt _ (by omega)
  have padded : usizeAdd platform.profile (size + physicalAddress % 4096) 0xFFF =
      some (size + physicalAddress % 4096 + 0xFFF) := usizeAdd_of_lt _ (by omega)
  have rounded : (size + physicalAddress % 4096 + 0xFFF) &&& pageMask =
      (size + physicalAddress % 4096 + 0xFFF) / 4096 * 4096 := and_pageMask (by omega)
  simp only [mapPhysicalRegion, base, offset, length, padded, rounded, ofOption_some_bind,
    platform.crates.virtAddrNew_eq _ (show physicalAddress < 2 ^ 47 by omega)]
  rfl

end Region

/-! ## Addresses that resolve to themselves -/

/-- `get_addr` returns the address itself. -/
def Resolves (platform : Platform) (features : CpuFeatures) (state : CoreState)
    (addr : Nat) : Prop :=
  currentGetAddr platform features addr state = (.ok addr, state)

variable {platform : Platform} {features : CpuFeatures} {base : Finset Nat}
  {initial : List Mapping} {state after : CoreState} {addr : Nat}

/-- Looking up an address changes nothing. -/
theorem currentGetAddr_eq (platform : Platform) (features : CpuFeatures) (state : CoreState)
    (addr : Nat) :
    currentGetAddr platform features addr state =
      ((getAddr platform (decide (features.target = .pml5)) state.cr3 addr state.memory).1,
        state) := by
  have depth : features.pml5 = decide (features.target = .pml5) := by
    rw [CpuFeatures.target]
    cases features.pml5 <;> rfl
  have unchanged := lookedUp_state platform addr
    (walkEnd state.memory.words features.target state.cr3 addr) state.memory
  rw [← getAddr_eq_lookedUp features.kind] at unchanged
  have run : currentGetAddr platform features addr state =
      ((getAddr platform features.pml5 state.cr3 addr state.memory).1,
        { state with memory := (getAddr platform features.pml5 state.cr3 addr state.memory).2 }) :=
    rfl
  rw [run, depth, unchanged]

/-- At a leaf for flags without PAT and HUGE `get_addr` returns what the hardware finds. -/
theorem resolves_of_leafOf {allowHuge : PageLevel} {created : Bool} {maps : List Mapping}
    {map : Mapping} {flag : PageEntryFlags} (limit : allowHuge ≤ .pdpt)
    (leaf : LeafOf platform.crates allowHuge created maps addr
      (walkEnd state.memory.words features.target state.cr3 addr).1
      (walkEnd state.memory.words features.target state.cr3 addr).2 map)
    (noPat : map.2.contains .pat = false) (noHuge : map.2.contains .huge = false)
    (translated : hardwareWalk state.memory.words features.target state.cr3 addr Rights.all =
      some (requested flag addr)) :
    Resolves platform features state addr := by
  obtain ⟨walk, found, -, returned⟩ := leaf.getAddr features.kind limit
  obtain rfl := Option.some.inj (found.symm.trans translated)
  have plain : ¬ EndsAtPat state.memory.words features.target state.cr3 addr := by
    rintro ⟨-, -, pat⟩
    rw [leaf.pat limit, noPat, noHuge, Bool.and_false, Bool.or_false, Bool.and_false] at pat
    cases pat
  rw [Resolves, currentGetAddr_eq, returned plain]
  rfl

/-- After an update the addresses of a range without PAT and HUGE resolve to themselves. -/
theorem CoreUpdated.resolves {lists kept : List MemRangeData × List PageEntryFlags}
    (updated : CoreUpdated platform features base lists state after)
    (inv : CoreInv features base initial state) (mappable : Mappable kept.1 kept.2)
    (normalized : normalizeMapList platform.profile platform.sort kept.1 kept.2 = some lists)
    (low : addr < 2 ^ 47) {flag : PageEntryFlags}
    (last : lastFlags (kept.1.zip kept.2) addr = some flag)
    (noPat : flag.contains .pat = false) (noHuge : flag.contains .huge = false) :
    Resolves platform features after addr := by
  have translated := updated.translates inv mappable normalized addr low
  rw [last, Option.map_some] at translated
  have span := features.low_lt_span
  have tree := updated.tree
  rw [inv.level, ← inv.installed, ← updated.installed] at tree
  obtain ⟨map, leaf⟩ := leafOf_updatedTable (by omega) (walkEnd_present translated) tree
  obtain ⟨-, tidy, meaning⟩ := mappable.normalize normalized
  obtain rfl := Option.some.inj
    ((leaf.lastFlags tidy).symm.trans ((meaning addr).trans last))
  exact resolves_of_leafOf features.limit leaf noPat noHuge translated

section Created

variable {mapList : List MemRangeData} {flags : List PageEntryFlags}
  (fits : ∀ range ∈ mapList, range.Fits)
  (create : createPaging platform features mapList flags state = (.ok (), after))
  (low : addr < 2 ^ 47)

include fits create low

/-- Every leaf of an installed table has the flags of the last retained range. -/
theorem createPaging_leafOf
    (present : (walkEnd after.memory.words features.target after.cr3 addr).2.getLsbD 0 = true) :
    ∃ maps map,
      lastFlags (retainedMaps features.nx (mapList.zip flags)) addr = some map.2 ∧
      LeafOf platform.crates features.allowHuge true maps addr
        (walkEnd after.memory.words features.target after.cr3 addr).1
        (walkEnd after.memory.words features.target after.cr3 addr).2 map := by
  obtain ⟨installed, mappable, news, made⟩ :=
    createPaging_retained (createPaging_lengths create) fits create
  obtain ⟨-, tidy, meaning⟩ := mappable.normalize made.normalized
  have span := features.low_lt_span
  rw [installed] at present ⊢
  obtain ⟨map, leaf⟩ := leafOf_listTable (by omega) present made.created.tree
  refine ⟨_, map, ?_, leaf⟩
  rw [← zip_retainedLists, ← meaning]
  exact leaf.lastFlags tidy

/-- After `create_paging` the addresses of a range without PAT and HUGE resolve to themselves. -/
theorem createPaging_resolves {flag : PageEntryFlags}
    (last : lastFlags (retainedMaps features.nx (mapList.zip flags)) addr = some flag)
    (noPat : flag.contains .pat = false) (noHuge : flag.contains .huge = false) :
    Resolves platform features after addr := by
  have span := features.low_lt_span
  have translated := createPaging_translates (createPaging_lengths create) fits create
    (show addr < 512 * features.target.entrySize by omega) (by omega)
  rw [last, Option.map_some] at translated
  obtain ⟨maps, map, found, leaf⟩ :=
    createPaging_leafOf fits create low (walkEnd_present translated)
  obtain rfl := Option.some.inj (found.symm.trans last)
  exact resolves_of_leafOf features.limit leaf noPat noHuge translated

/-- After `create_paging` an address in no range has no translation. -/
theorem createPaging_missing
    (uncovered : lastFlags (retainedMaps features.nx (mapList.zip flags)) addr = none) :
    ∃ error, currentGetAddr platform features addr after = (.error (.err error), after) := by
  have absent : (walkEnd after.memory.words features.target after.cr3 addr).2.getLsbD 0 =
      false := by
    apply eq_false_of_ne_true
    intro present
    obtain ⟨maps, map, found, -⟩ := createPaging_leafOf fits create low present
    rw [uncovered] at found
    cases found
  obtain ⟨error, failed⟩ : ∃ error, getAddr platform (decide (features.target = .pml5)) after.cr3
      addr after.memory = (.error (.err error), after.memory) :=
    (getAddr_absent features.kind absent).2
  refine ⟨error, ?_⟩
  rw [currentGetAddr_eq, failed]

end Created

/-! ## Adding a region -/

/-- The flags of a region, with or without NX. -/
theorem maskFlags_regionFlags (nx : Bool) :
    (maskFlags nx regionFlags).isEmpty = false ∧
      (maskFlags nx regionFlags).contains .pat = false ∧
      (maskFlags nx regionFlags).contains .huge = false := by
  cases nx <;> decide

/-- A range added with the flags of a region decides about its addresses. -/
theorem lastFlags_retainedMaps_concat (nx : Bool) (maps : List Mapping) {range : MemRangeData}
    (covered : range.contains addr = true) :
    lastFlags (retainedMaps nx (maps ++ [(range, regionFlags)])) addr =
      some (maskFlags nx regionFlags) := by
  have kept : retainedMaps nx (maps ++ [(range, regionFlags)]) =
      retainedMaps nx maps ++ [(range, maskFlags nx regionFlags)] := by
    simp [retainedMaps, maskedMaps, (maskFlags_regionFlags nx).1]
  rw [kept, lastFlags, lastWriter_concat]
  exact if_pos covered

/-- The lists of an update that adds a region. -/
def regionLists (features : CpuFeatures) (state : CoreState) (physicalAddress size : Nat) :
    List MemRangeData × List PageEntryFlags :=
  retainedLists features.nx
    (state.pageTable.memoryMapping.1 ++ [regionRange physicalAddress size])
    (state.pageTable.memoryMapping.2 ++ [regionFlags])

/-- The recorded list can be extended by a region. -/
theorem CoreInv.append_region {physicalAddress size : Nat} (low : physicalAddress + size < 2 ^ 47)
    (inv : CoreInv features base initial state) :
    Mappable (state.pageTable.memoryMapping.1 ++ [regionRange physicalAddress size])
      (state.pageTable.memoryMapping.2 ++ [regionFlags]) := by
  have flagged : regionFlags.isEmpty = false := by decide
  apply inv.mapping.append
  exact ⟨rfl, by simpa using regionRange_aligned physicalAddress size,
    by simpa using regionRange_fits low, by simpa using flagged⟩

/-- After the pages of a region have been added, its addresses resolve to themselves. -/
theorem addRegion_ends {physicalAddress size : Nat} (low : physicalAddress + size < 2 ^ 47)
    (inv : CoreInv features base initial state) :
    Ends (utilUpdateAddPaging platform features true [regionRange physicalAddress size]
        [regionFlags]) state
      (fun _ after => ∀ address, physicalAddress ≤ address → address < physicalAddress + size →
        Resolves platform features after address)
      (fun _ _ => Requestable (512 * features.target.entrySize)
          (regionLists features state physicalAddress size).1
          (regionLists features state physicalAddress size).2 →
        Exhausted platform.allocator state.memory.history features.target.tableCount) := by
  have joined := inv.append_region low
  have retained := retainFlags_eq_retained features.nx joined.lengths
  rw [utilUpdateAddPaging, ends_bind, ends_read]
  refine (utilUpdatePaging_ends true inv).mono ?_ fun _ _ failed => failed _ retained
  rintro _ after ⟨kept, lists, same, normalized, updated⟩ address above below
  obtain rfl := Option.some.inj (retained.symm.trans same)
  obtain ⟨-, noPat, noHuge⟩ := maskFlags_regionFlags features.nx
  refine updated.resolves inv (retainedLists_mappable features.nx joined.aligned joined.fits)
    normalized (by omega) ?_ noPat noHuge
  rw [zip_retainedLists, List.zip_append inv.mapping.lengths]
  exact lastFlags_retainedMaps_concat features.nx _ (regionRange_covers above below)

/-! ## Mapping a region -/

/-- If the first address resolves, nothing is done; otherwise the region is added. -/
theorem mapPhysicalRegion_ends (platform : Platform) {physicalAddress size : Nat}
    (low : physicalAddress + size < 2 ^ 47) (inv : CoreInv features base initial state) :
    Ends (mapPhysicalRegion platform features physicalAddress size) state
      (fun mapping after => mapping.mappedLength = (regionRange physicalAddress size).len ∧
        ((∃ value, currentGetAddr platform features physicalAddress state = (.ok value, state)) ∧
            after = state ∨
          (∃ error, currentGetAddr platform features physicalAddress state =
              (.error (.err error), state)) ∧
            ∀ address, physicalAddress ≤ address → address < physicalAddress + size →
              Resolves platform features after address))
      (fun _ _ => physicalAddress = 0 ∨
        currentGetAddr platform features physicalAddress state = (.error .panic, state) ∨
        (Requestable (512 * features.target.entrySize)
            (regionLists features state physicalAddress size).1
            (regionLists features state physicalAddress size).2 →
          Exhausted platform.allocator state.memory.history features.target.tableCount)) := by
  have lookup := currentGetAddr_eq platform features state physicalAddress
  rw [mapPhysicalRegion_eq low, ends_bind, isErr, ends_handle, ends_bind]
  cases outcome : (getAddr platform (decide (features.target = .pml5)) state.cr3 physicalAddress
    state.memory).1 with
  | ok value =>
      rw [outcome] at lookup
      rw [ends_of_run lookup, ends_pure]
      by_cases null : physicalAddress = 0
      · rw [if_neg Bool.false_ne_true, if_pos null]
        exact .inl null
      · rw [if_neg Bool.false_ne_true, if_neg null]
        exact ⟨rfl, .inl ⟨⟨value, lookup⟩, rfl⟩⟩
  | error reason =>
      rw [outcome] at lookup
      rw [ends_of_fault lookup]
      cases reason with
      | panic => exact .inr (.inl lookup)
      | err error =>
          simp only [ends_pure, if_true, ends_bind, unwrap, ends_handle]
          refine (addRegion_ends low inv).mono ?_ fun _ _ failed => .inr (.inr failed)
          intro _ after resolves
          by_cases null : physicalAddress = 0
          · rw [if_pos null]
            exact .inl null
          · rw [if_neg null]
            exact ⟨rfl, .inr ⟨⟨error, lookup⟩, resolves⟩⟩

/-- After `map_physical_region` every byte of the region resolves to itself if and only if its first
address had no translation before, or every byte resolved already. -/
theorem mapPhysicalRegion_resolves_iff (platform : Platform) (features : CpuFeatures)
    {start created state after : CoreState} {mapList : List MemRangeData}
    {flags : List PageEntryFlags} (fits : ∀ range ∈ mapList, range.Fits)
    (create : createPaging platform features mapList flags start = (.ok (), created))
    (calls : List AddCall) (adds : addCalls platform features calls created = (.ok (), state))
    {physicalAddress size : Nat} (low : physicalAddress + size < 2 ^ 47)
    {mapping : PhysicalMapping}
    (run : mapPhysicalRegion platform features physicalAddress size state = (.ok mapping, after)) :
    ((∀ address, physicalAddress ≤ address → address < physicalAddress + size →
        Resolves platform features after address) ↔
      (∃ error, currentGetAddr platform features physicalAddress state =
          (.error (.err error), state)) ∨
        ∀ address, physicalAddress ≤ address → address < physicalAddress + size →
          Resolves platform features state address) ∧
    physicalAddress + size ≤ (physicalAddress &&& pageMask) + mapping.mappedLength := by
  have inv := (addCalls_coreInv platform (createPaging_coreInv fits create) calls).of_ok adds
  obtain ⟨mapped, outcome⟩ := (mapPhysicalRegion_ends platform low inv).of_ok run
  constructor
  · rcases outcome with ⟨⟨value, present⟩, rfl⟩ | ⟨missing, resolves⟩
    · have found : ¬ ∃ error, currentGetAddr platform features physicalAddress after =
          (.error (.err error), after) := by
        rintro ⟨error, missing⟩
        rw [present] at missing
        cases missing
      rw [or_iff_right found]
    · exact iff_of_true resolves (.inl missing)
  · have count : usizeCount = 2 ^ 64 := rfl
    rw [mapped, and_pageMask (by omega)]
    simp only [regionRange]
    omega

/-- On the ascending allocator `map_physical_region` succeeds right after `create_paging`. -/
theorem bumpPlatform_mapPhysicalRegion {physicalAddress size : Nat}
    (positive : 0 < physicalAddress) (low : physicalAddress + size < 2 ^ 47)
    (inv : CoreInv fourLevels base initial state)
    (requests : Requests (bumpPlatform 0) fourLevels bootState state)
    (answers : currentGetAddr (bumpPlatform 0) fourLevels physicalAddress state ≠
      (.error .panic, state)) :
    ∃ mapping after, mapPhysicalRegion (bumpPlatform 0) fourLevels physicalAddress size state =
      (.ok mapping, after) := by
  have joined := inv.append_region low
  have served : ¬ Exhausted (bumpPlatform 0).allocator state.memory.history
      fourLevels.target.tableCount := by
    have highest := requests.highest
    have zero : highestFrame 0 bootState.memory.history = 0 := rfl
    have budget : PageLevel.pml4.tableCount = 134480385 := rfl
    have tables : fourLevels.target.tableCount = 134480385 := rfl
    exact bumpAllocator_serves (by omega)
  obtain ⟨mapping, after, run, -⟩ :=
    (mapPhysicalRegion_ends (bumpPlatform 0) low inv).exists_ok fun _ _ failed => by
      rcases failed with null | panics | exhausted
      · omega
      · exact answers panics
      · apply served
        exact exhausted (retainedLists_mappable true joined.aligned joined.fits).requestable
  exact ⟨mapping, after, run⟩

/-- One page is mapped, the pages after it are not. -/
theorem onePage_create :
    ∃ created,
      createPaging (bumpPlatform 0) fourLevels [⟨0x1000, 0x1000⟩] [.dataFlags] bootState =
        (.ok (), created) ∧
      CoreInv fourLevels bootState.memory.live [(⟨0x1000, 0x1000⟩, .dataFlags)] created ∧
      Requests (bumpPlatform 0) fourLevels bootState created ∧
      Resolves (bumpPlatform 0) fourLevels created 0x1800 ∧
      ∀ address, 0x2000 ≤ address → address < 2 ^ 47 →
        ∃ error, currentGetAddr (bumpPlatform 0) fourLevels address created =
          (.error (.err error), created) := by
  have mappable := addPage_mappable 0x1000 (by decide) (by decide)
  obtain ⟨created, create, inv, -, requests⟩ := bumpPlatform_createPaging mappable
  have fits : ∀ range ∈ [(⟨0x1000, 0x1000⟩ : MemRangeData)], range.Fits := by decide
  refine ⟨created, create, inv, requests, ?_, fun address above low => ?_⟩
  · exact createPaging_resolves fits create (by decide)
      (show lastFlags (retainedMaps true [(⟨0x1000, 0x1000⟩, .dataFlags)]) 0x1800 =
        some .dataFlags by decide) (by decide) (by decide)
  · apply createPaging_missing fits create low
    apply lastWriter_eq_none_iff.mpr
    intro map member
    obtain rfl : map = (⟨0x1000, 0x1000⟩, .dataFlags) := List.mem_singleton.mp member
    apply eq_false_of_ne_true
    intro covered
    have inside := covers_iff.mp covered
    simp only at inside
    omega

/-- A region of two pages none of which is mapped. -/
theorem mapPhysicalRegion_resolves_iff_newPages :
    ∃ created mapping after,
      createPaging (bumpPlatform 0) fourLevels [⟨0x1000, 0x1000⟩] [.dataFlags] bootState =
        (.ok (), created) ∧
      mapPhysicalRegion (bumpPlatform 0) fourLevels 0x2800 0x1000 created =
        (.ok mapping, after) ∧
      ∀ address, 0x2800 ≤ address → address < 0x3800 →
        Resolves (bumpPlatform 0) fourLevels after address := by
  obtain ⟨created, create, inv, requests, -, missing⟩ := onePage_create
  obtain ⟨error, fails⟩ := missing 0x2800 (by decide) (by decide)
  obtain ⟨mapping, after, run⟩ : ∃ mapping after, mapPhysicalRegion (bumpPlatform 0) fourLevels
      0x2800 0x1000 created = (.ok mapping, after) := by
    apply bumpPlatform_mapPhysicalRegion (by decide) (by decide) inv requests
    rw [fails]
    nofun
  refine ⟨created, mapping, after, create, run, ?_⟩
  exact (mapPhysicalRegion_resolves_iff (bumpPlatform 0) fourLevels (by decide) create [] rfl
    (by decide) run).1.mpr (.inl ⟨error, fails⟩)

/-- A region that begins in a mapped page and ends in the next one, which is not mapped. -/
theorem mapPhysicalRegion_not_resolves :
    ∃ created mapping after error,
      createPaging (bumpPlatform 0) fourLevels [⟨0x1000, 0x1000⟩] [.dataFlags] bootState =
        (.ok (), created) ∧
      mapPhysicalRegion (bumpPlatform 0) fourLevels 0x1800 0x1000 created =
        (.ok mapping, after) ∧
      currentGetAddr (bumpPlatform 0) fourLevels 0x2000 after = (.error (.err error), after) := by
  obtain ⟨created, create, inv, requests, resolves, missing⟩ := onePage_create
  obtain ⟨mapping, after, run⟩ : ∃ mapping after, mapPhysicalRegion (bumpPlatform 0) fourLevels
      0x1800 0x1000 created = (.ok mapping, after) := by
    apply bumpPlatform_mapPhysicalRegion (by decide) (by decide) inv requests
    rw [resolves]
    nofun
  obtain ⟨error, absent⟩ := missing 0x2000 (by decide) (by decide)
  obtain ⟨-, ⟨-, rfl⟩ | ⟨⟨error, fails⟩, -⟩⟩ :=
    (mapPhysicalRegion_ends (bumpPlatform 0) (by decide) inv).of_ok run
  · exact ⟨after, mapping, after, error, create, run, absent⟩
  · rw [resolves] at fails
    cases fails

end Okots
