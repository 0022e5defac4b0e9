import Okots.Main

/-!
# The mapping of the boot processor

`Main::update_paging` turns the UEFI memory map into a list of ranges: everything, then the code and
device descriptors, then the stack, then the null page without flags.  The policy is the order of
the ranges, a later one overriding an earlier one.

Two slips break it.  `create_paging` removes the ranges without flags before the overlaps are
resolved, so such a range unmaps nothing.  And the stack range starts at the top of the stack, not
at its bottom, so it overrides whatever lies behind the stack.
-/

namespace Okots

open StateExec Exec LastWriter

/-! ## The model -/

/-- `uefi::MemoryType`, as far as the paging code tells types apart. -/
inductive MemoryType where
  | loaderCode
  | loaderData
  | runtimeServicesCode
  | mmio
  | mmioPortSpace
  | other (value : Nat)
  deriving DecidableEq

/-- An entry of the UEFI memory map. -/
structure MemoryDescriptor where
  ty : MemoryType
  physStart : Nat
  pageCount : Nat
  deriving DecidableEq

namespace MemoryDescriptor

/-- The memory of a descriptor. -/
def range (descriptor : MemoryDescriptor) : MemRangeData :=
  ⟨descriptor.physStart, descriptor.pageCount * 4096⟩

/-- `RUNTIME_SERVICES_CODE` or `LOADER_CODE`. -/
def isCode (descriptor : MemoryDescriptor) : Bool :=
  descriptor.ty = .runtimeServicesCode || descriptor.ty = .loaderCode

/-- `MMIO` or `MMIO_PORT_SPACE`. -/
def isMmio (descriptor : MemoryDescriptor) : Bool :=
  descriptor.ty = .mmio || descriptor.ty = .mmioPortSpace

end MemoryDescriptor

/-- `Main::stack_data`. -/
structure StackData where
  top : Nat
  len : Nat

namespace PageEntryFlags

/-- `PRESENT | WRITABLE | EXECUTE_DISABLE`. -/
def plainFlags : PageEntryFlags := (PageEntryFlags.present.union .writable).union .executeDisable

/-- `PRESENT | WRITABLE`. -/
def codeFlags : PageEntryFlags := PageEntryFlags.present.union .writable

/-- `PCD | PRESENT | WRITABLE | EXECUTE_DISABLE`. -/
def mmioFlags : PageEntryFlags :=
  ((PageEntryFlags.pcd.union .present).union .writable).union .executeDisable

/-- `PageEntryFlags::empty()`. -/
def empty : PageEntryFlags := ⟨0⟩

end PageEntryFlags

namespace Main

/-- The end of a descriptor, as `usize` arithmetic computes it. -/
def descriptorEnd (profile : Profile) (descriptor : MemoryDescriptor) : Option Nat := do
  let len ← usizeMul profile descriptor.pageCount 4096
  usizeAdd profile descriptor.physStart len

/-- One iteration of the loop over the memory map. -/
def pushDescriptor (profile : Profile) (lists : List MemRangeData × List PageEntryFlags)
    (descriptor : MemoryDescriptor) : Option (List MemRangeData × List PageEntryFlags) := do
  if descriptor.isCode then
    let len ← usizeMul profile descriptor.pageCount 4096
    return (lists.1 ++ [⟨descriptor.physStart, len⟩], lists.2 ++ [.codeFlags])
  else if descriptor.isMmio then
    let len ← usizeMul profile descriptor.pageCount 4096
    return (lists.1 ++ [⟨descriptor.physStart, len⟩], lists.2 ++ [.mmioFlags])
  else
    return lists

/-- `Main::update_paging`. -/
def updatePaging (profile : Profile) (map : List MemoryDescriptor) (stack : StackData) :
    Option (List MemRangeData × List PageEntryFlags) := do
  let ends ← map.mapM (descriptorEnd profile)
  let last := ends.max?.getD 0
  let lists ← map.foldlM (pushDescriptor profile) ([⟨0, last⟩], [.plainFlags])
  return (lists.1 ++ [⟨stack.top, stack.len⟩] ++ [⟨0, 4096⟩],
    lists.2 ++ [.plainFlags] ++ [.empty])

/-- The paging part of `exit_uefi`. -/
def exitUefiPaging (platform : Platform) (features : CpuFeatures) (map : List MemoryDescriptor)
    (stack : StackData) : Core Unit := do
  let lists ← ofOption .panic (updatePaging platform.profile map stack)
  createPaging platform features lists.1 lists.2

end Main

/-! ## Ranges without flags -/

/-- The flags `create_paging` uses: without NX the bit `EXECUTE_DISABLE` is masked. -/
def maskFlags (nx : Bool) (flags : PageEntryFlags) : PageEntryFlags :=
  if nx then flags else ⟨flags.bits &&& nxMask.bits⟩

/-- The list with the masked flags. -/
def maskedMaps (nx : Bool) (maps : List Mapping) : List Mapping :=
  maps.map fun map => (map.1, maskFlags nx map.2)

/-- The entries that keep a flag. -/
def retainedMaps (nx : Bool) (maps : List Mapping) : List Mapping :=
  (maskedMaps nx maps).filter fun map => !map.2.isEmpty

theorem retainFlags_cons (nx : Bool) (i : Nat) (mapList : List MemRangeData)
    (flag : PageEntryFlags) (rest : List PageEntryFlags) :
    retainFlags nx i mapList (flag :: rest) =
      if (maskFlags nx flag).isEmpty then
        if i < mapList.length then retainFlags nx i (mapList.eraseIdx i) rest else none
      else
        (retainFlags nx (i + 1) mapList rest).map fun kept =>
          (kept.1, maskFlags nx flag :: kept.2) := rfl

/-- `flags.retain_mut` keeps the two lists in step. -/
theorem retainFlags_append (nx : Bool) {mapList : List MemRangeData} {flags : List PageEntryFlags}
    (lengths : mapList.length = flags.length) (kept : List MemRangeData) :
    retainFlags nx kept.length (kept ++ mapList) flags =
      some (kept ++ (retainedMaps nx (mapList.zip flags)).map Prod.fst,
        (retainedMaps nx (mapList.zip flags)).map Prod.snd) := by
  induction flags generalizing mapList kept with
  | nil =>
      rw [List.eq_nil_of_length_eq_zero lengths]
      rfl
  | cons flag rest induction =>
      obtain ⟨range, ranges, rfl⟩ := List.exists_cons_of_length_eq_add_one lengths
      have tail : ranges.length = rest.length := Nat.succ.inj lengths
      have zipped : retainedMaps nx ((range :: ranges).zip (flag :: rest)) =
          if (maskFlags nx flag).isEmpty then retainedMaps nx (ranges.zip rest)
          else (range, maskFlags nx flag) :: retainedMaps nx (ranges.zip rest) := by
        cases keeps : (maskFlags nx flag).isEmpty <;> simp [retainedMaps, maskedMaps, keeps]
      have unfolded : retainFlags nx kept.length (kept ++ range :: ranges) (flag :: rest) =
          if (maskFlags nx flag).isEmpty then retainFlags nx kept.length (kept ++ ranges) rest
          else (retainFlags nx (kept.length + 1) (kept ++ range :: ranges) rest).map
            fun lists => (lists.1, maskFlags nx flag :: lists.2) := by
        have inside : kept.length < (kept ++ range :: ranges).length := by simp
        have erased : (kept ++ range :: ranges).eraseIdx kept.length = kept ++ ranges := by
          simp [List.eraseIdx_append_of_length_le]
        rw [retainFlags_cons, if_pos inside, erased]
      rw [unfolded, zipped]
      split
      · exact induction tail kept
      · have next := induction tail (kept ++ [range])
        rw [List.length_append, List.length_singleton, List.append_assoc,
          List.singleton_append] at next
        simp [next]

theorem retainedMaps_flagged {nx : Bool} {maps : List Mapping} {map : Mapping}
    (member : map ∈ retainedMaps nx maps) : map.2.isEmpty = false := by
  simpa using (List.mem_filter.mp member).2

theorem mem_of_mem_retainedMaps {nx : Bool} {maps : List Mapping} {map : Mapping}
    (member : map ∈ retainedMaps nx maps) : ∃ original ∈ maps, original.1 = map.1 := by
  obtain ⟨original, inMaps, rfl⟩ := List.mem_map.mp (List.mem_of_mem_filter member)
  exact ⟨original, inMaps, rfl⟩

/-- The two lists that `create_paging` passes on. -/
def retainedLists (nx : Bool) (mapList : List MemRangeData) (flags : List PageEntryFlags) :
    List MemRangeData × List PageEntryFlags :=
  (retainedMaps nx (mapList.zip flags)).unzip

theorem zip_retainedLists (nx : Bool) (mapList : List MemRangeData) (flags : List PageEntryFlags) :
    (retainedLists nx mapList flags).1.zip (retainedLists nx mapList flags).2 =
      retainedMaps nx (mapList.zip flags) :=
  List.zip_unzip _

variable {platform : Platform} {features : CpuFeatures} {mapList : List MemRangeData}
  {flags : List PageEntryFlags} {before after : CoreState}

theorem retainedLists_flagged (nx : Bool) :
    ∀ flag ∈ (retainedLists nx mapList flags).2, flag.isEmpty = false := by
  rw [retainedLists, List.unzip_snd]
  exact List.forall_mem_map.mpr fun _ => retainedMaps_flagged

theorem retainedLists_ranges (nx : Bool) {property : MemRangeData → Prop}
    (all : ∀ range ∈ mapList, property range) :
    ∀ range ∈ (retainedLists nx mapList flags).1, property range := by
  rw [retainedLists, List.unzip_fst]
  refine List.forall_mem_map.mpr fun map member => ?_
  obtain ⟨original, inMaps, same⟩ := mem_of_mem_retainedMaps member
  exact same ▸ all original.1 (List.of_mem_zip inMaps).1

theorem retainFlags_eq_retained (nx : Bool) (lengths : mapList.length = flags.length) :
    retainFlags nx 0 mapList flags = some (retainedLists nx mapList flags) := by
  have first := retainFlags_append nx lengths []
  rw [List.length_nil, List.nil_append, List.nil_append, ← List.unzip_fst, ← List.unzip_snd]
    at first
  exact first

theorem retainedLists_mappable (nx : Bool) (aligned : ∀ range ∈ mapList, range.Aligned)
    (fits : ∀ range ∈ mapList, range.Fits) :
    Mappable (retainedLists nx mapList flags).1 (retainedLists nx mapList flags).2 where
  lengths := by simp [retainedLists]
  aligned := retainedLists_ranges nx aligned
  fits := retainedLists_ranges nx fits
  flagged := retainedLists_flagged nx

/-- `create_paging` maps the retained lists. -/
theorem createPaging_eq_retained (platform : Platform) (features : CpuFeatures)
    (lengths : mapList.length = flags.length) :
    createPaging platform features mapList flags =
      createPaging platform { features with nx := true }
        (retainedLists features.nx mapList flags).1
        (retainedLists features.nx mapList flags).2 := by
  rw [createPaging, createPaging, retainFlags_eq_retained features.nx lengths,
    retainFlags_eq (retainedLists_flagged features.nx)]
  rfl

/-- Every flag that is removed removes one range. -/
theorem retainFlags_lengths {nx : Bool} {flags : List PageEntryFlags} {i : Nat}
    {mapList : List MemRangeData} {kept : List MemRangeData × List PageEntryFlags}
    (retained : retainFlags nx i mapList flags = some kept) :
    kept.1.length + flags.length = mapList.length + kept.2.length := by
  induction flags generalizing i mapList kept with
  | nil =>
      obtain rfl := Option.some.inj retained
      rfl
  | cons flag rest induction =>
      rw [retainFlags_cons] at retained
      split at retained
      · split at retained
        · rename_i inside
          have shorter := induction retained
          rw [List.length_eraseIdx_of_lt inside] at shorter
          rw [List.length_cons]
          omega
        · cases retained
      · obtain ⟨lists, found, rfl⟩ := Option.map_eq_some_iff.mp retained
        have lengths := induction found
        simp only [List.length_cons]
        omega

/-- `create_paging` succeeds only for lists of one length. -/
theorem createPaging_lengths
    (create : createPaging platform features mapList flags before = (.ok (), after)) :
    mapList.length = flags.length := by
  have ends : Ends (createPaging platform features mapList flags) before
      (fun _ _ => mapList.length = flags.length) (fun _ _ => True) := by
    rw [createPaging, ends_bind, ends_ofOption]
    refine ⟨fun kept retained => ?_, fun _ => trivial⟩
    rw [ends_bind, onTables, ends_zoom]
    refine (createPageTable_ends platform kept.1 kept.2 _ _ _).mono ?_ fun _ _ _ => trivial
    rintro top built ⟨news, made⟩
    have lengths := retainFlags_lengths retained
    have same := made.lengths
    rw [ends_bind, setCurrent]
    split
    · rw [ends_modify, ends_modify]
      omega
    · trivial
  exact ends.of_ok create

/-- `create_paging` installs the tree of the retained lists. -/
theorem createPaging_retained (lengths : mapList.length = flags.length)
    (fits : ∀ range ∈ mapList, range.Fits)
    (create : createPaging platform features mapList flags before = (.ok (), after)) :
    after.cr3 = after.pageTable.phys ∧
      Mappable (retainedLists features.nx mapList flags).1
        (retainedLists features.nx mapList flags).2 ∧
      ∃ news, CreatedTop platform (retainedLists features.nx mapList flags).1
        (retainedLists features.nx mapList flags).2 features.allowHuge features.target
        before.memory after.pageTable news after.memory := by
  rw [createPaging_eq_retained platform features lengths] at create
  obtain ⟨installed, news, made⟩ :=
    (createPaging_created platform before
      (show ({ features with nx := true } : CpuFeatures).nx = true from rfl)
      (retainedLists_flagged features.nx)).of_ok create
  exact ⟨installed, ⟨made.lengths, made.aligned, retainedLists_ranges features.nx fits,
    retainedLists_flagged features.nx⟩, news, made⟩

theorem createPaging_coreInv (fits : ∀ range ∈ mapList, range.Fits)
    (create : createPaging platform features mapList flags before = (.ok (), after)) :
    CoreInv features before.memory.live (retainedMaps features.nx (mapList.zip flags)) after := by
  obtain ⟨installed, mappable, news, made⟩ :=
    createPaging_retained (createPaging_lengths create) fits create
  obtain ⟨mapping, -, meaning⟩ := mappable.normalize made.normalized
  rw [zip_retainedLists] at meaning
  exact ⟨installed, made.level, mapping, meaning, [], PagingInv.create rfl made⟩

/-- After success the installed table translates as the retained list says. -/
theorem createPaging_translates (lengths : mapList.length = flags.length)
    (fits : ∀ range ∈ mapList, range.Fits)
    (create : createPaging platform features mapList flags before = (.ok (), after))
    {vaddr : Nat} (below : vaddr < 512 * features.target.entrySize) (physical : vaddr < 2 ^ 52) :
    hardwareWalk after.memory.words features.target after.cr3 vaddr Rights.all =
      (lastFlags (retainedMaps features.nx (mapList.zip flags)) vaddr).map (requested · vaddr) := by
  obtain ⟨installed, mappable, news, made⟩ := createPaging_retained lengths fits create
  obtain ⟨-, tidy, meaning⟩ := mappable.normalize made.normalized
  rw [← zip_retainedLists, ← meaning, installed]
  exact translates_of_tree platform.crates features.limit features.kind tidy
    (fun index => congrArg (erasePat features.target) (made.created.tree index)) below physical

/-- An address is mapped by the installed table. -/
def Mapped (features : CpuFeatures) (state : CoreState) (vaddr : Nat) : Prop :=
  (hardwareWalk state.memory.words features.target state.cr3 vaddr Rights.all).isSome = true

/-- The last range that contains the address has flags. -/
def LastFlagged (maps : List Mapping) (vaddr : Nat) : Prop :=
  ∃ flags, lastFlags maps vaddr = some flags ∧ flags.isEmpty = false

/-- A range without flags that is the last one to contain an address overrides no range with
flags. -/
def OverridesNothing (maps : List Mapping) (vaddr : Nat) : Prop :=
  ∀ flags, lastFlags maps vaddr = some flags → flags.isEmpty = true →
    ∀ map ∈ maps, covers map vaddr = true → map.2.isEmpty = true

theorem mapped_iff_retained (lengths : mapList.length = flags.length)
    (fits : ∀ range ∈ mapList, range.Fits)
    (create : createPaging platform features mapList flags before = (.ok (), after))
    {vaddr : Nat} (below : vaddr < 2 ^ 47) :
    Mapped features after vaddr ↔ ∃ map ∈ maskedMaps features.nx (mapList.zip flags),
      covers map vaddr = true ∧ map.2.isEmpty = false := by
  have span := features.low_lt_span
  rw [Mapped, createPaging_translates lengths fits create (by omega) (by omega), Option.isSome_map,
    Option.isSome_iff_ne_none, ne_eq, lastFlags, lastWriter_eq_none_iff]
  simp [retainedMaps, and_comm]

/-- Every range decides as the last one exactly when the ranges without flags come first. -/
theorem lastFlagged_iff_overridesNothing (maps : List Mapping) (vaddr : Nat) :
    ((∃ map ∈ maps, covers map vaddr = true ∧ map.2.isEmpty = false) ↔ LastFlagged maps vaddr) ↔
      OverridesNothing maps vaddr := by
  simp only [LastFlagged, OverridesNothing]
  cases last : lastFlags maps vaddr with
  | none =>
      have uncovered := lastWriter_eq_none_iff.mp last
      simp +contextual [uncovered]
  | some flags =>
      obtain ⟨map, member, covered, same⟩ := exists_of_lastWriter_eq_some last
      cases empty : flags.isEmpty with
      | false =>
          have flagged : ∃ map ∈ maps, covers map vaddr = true ∧ map.2.isEmpty = false :=
            ⟨map, member, covered, same ▸ empty⟩
          simp [flagged, empty]
      | true => simp [empty]

/-- `create_paging` lets the last range of an address decide whether it is mapped exactly when the
ranges without flags override nothing. -/
theorem createPaging_mapped_iff_lastFlagged (platform : Platform) (features : CpuFeatures)
    {before after : CoreState} {mapList : List MemRangeData} {flags : List PageEntryFlags}
    (lengths : mapList.length = flags.length) (fits : ∀ range ∈ mapList, range.Fits)
    (create : createPaging platform features mapList flags before = (.ok (), after)) :
    (∀ vaddr < 2 ^ 47, Mapped features after vaddr ↔
        LastFlagged (maskedMaps features.nx (mapList.zip flags)) vaddr) ↔
      ∀ vaddr < 2 ^ 47, OverridesNothing (maskedMaps features.nx (mapList.zip flags)) vaddr := by
  refine forall₂_congr fun vaddr below => ?_
  rw [mapped_iff_retained lengths fits create below]
  exact lastFlagged_iff_overridesNothing _ vaddr

/-- Disjoint ranges override nothing. -/
theorem overridesNothing_of_apart {maps : List Mapping} (apart : maps.Pairwise (Apart covers))
    (vaddr : Nat) : OverridesNothing maps vaddr := by
  intro flags last empty map member covered
  have own : lastFlags maps vaddr = some map.2 := lastWriter_eq_some_of_mem apart member covered
  rw [own] at last
  rw [Option.some.inj last]
  exact empty

/-- On the ascending allocator `create_paging` succeeds with or without NX. -/
theorem bumpPlatform_createPaging_retained (nx : Bool) (lengths : mapList.length = flags.length)
    (aligned : ∀ range ∈ mapList, range.Aligned) (fits : ∀ range ∈ mapList, range.Fits) :
    ∃ created, createPaging (bumpPlatform 0) { fourLevels with nx } mapList flags bootState =
      (.ok (), created) := by
  obtain ⟨created, create, -⟩ :=
    bumpPlatform_createPaging (retainedLists_mappable nx aligned fits)
  exact ⟨created, by rw [createPaging_eq_retained _ _ lengths]; exact create⟩

/-- Without NX a range whose only flag is `EXECUTE_DISABLE` is not mapped. -/
theorem createPaging_mapped_iff_lastFlagged_masked :
    ∃ after, createPaging (bumpPlatform 0) { fourLevels with nx := false }
        [⟨0x1000, 0x1000⟩, ⟨0x3000, 0x1000⟩] [.dataFlags, .executeDisable] bootState =
          (.ok (), after) ∧
      ∀ vaddr < 2 ^ 47, Mapped { fourLevels with nx := false } after vaddr ↔
        LastFlagged (maskedMaps false
          [(⟨0x1000, 0x1000⟩, .dataFlags), (⟨0x3000, 0x1000⟩, .executeDisable)]) vaddr := by
  have fits : ∀ range ∈ [(⟨0x1000, 0x1000⟩ : MemRangeData), ⟨0x3000, 0x1000⟩], range.Fits := by
    decide
  obtain ⟨after, create⟩ := bumpPlatform_createPaging_retained false
    (show [(⟨0x1000, 0x1000⟩ : MemRangeData), ⟨0x3000, 0x1000⟩].length =
      [PageEntryFlags.dataFlags, .executeDisable].length from rfl) (by decide) fits
  refine ⟨after, create, (createPaging_mapped_iff_lastFlagged _ _ rfl fits create).mpr
    fun vaddr _ => overridesNothing_of_apart ?_ vaddr⟩
  simp only [maskedMaps, List.zip_cons_cons, List.map_cons, List.pairwise_cons, Apart,
    covers, MemRangeData.contains_iff]
  simp
  omega

/-! ## The list of `Main::update_paging` -/

/-- The range pushed for a descriptor. -/
def MemoryDescriptor.mapping (descriptor : MemoryDescriptor) : Option Mapping :=
  if descriptor.isCode then some (descriptor.range, .codeFlags)
  else if descriptor.isMmio then some (descriptor.range, .mmioFlags)
  else none

/-- The highest end of a descriptor. -/
def lastEnd (map : List MemoryDescriptor) : Nat :=
  (map.map fun descriptor => descriptor.physStart + descriptor.pageCount * 4096).max?.getD 0

/-- The ranges of `Main::update_paging` in their order. -/
def bootMaps (map : List MemoryDescriptor) (stack : StackData) : List Mapping :=
  (⟨0, lastEnd map⟩, .plainFlags) :: map.filterMap MemoryDescriptor.mapping ++
    [(⟨stack.top, stack.len⟩, .plainFlags), (⟨0, 4096⟩, .empty)]

variable {profile : Profile} {map : List MemoryDescriptor} {stack : StackData}

theorem MemoryDescriptor.len_eq {descriptor : MemoryDescriptor} (fits : descriptor.range.Fits) :
    usizeMul profile descriptor.pageCount 4096 = some (descriptor.pageCount * 4096) :=
  usizeMul_of_lt profile (lt_of_le_of_lt (Nat.le_add_left _ _) fits)

theorem Main.descriptorEnd_eq {descriptor : MemoryDescriptor} (fits : descriptor.range.Fits) :
    Main.descriptorEnd profile descriptor =
      some (descriptor.physStart + descriptor.pageCount * 4096) := by
  rw [Main.descriptorEnd, MemoryDescriptor.len_eq fits]
  exact usizeAdd_of_lt profile fits

theorem Main.foldlM_pushDescriptor (fits : ∀ descriptor ∈ map, descriptor.range.Fits)
    (lists : List MemRangeData × List PageEntryFlags) :
    map.foldlM (Main.pushDescriptor profile) lists =
      some (lists.1 ++ (map.filterMap MemoryDescriptor.mapping).map Prod.fst,
        lists.2 ++ (map.filterMap MemoryDescriptor.mapping).map Prod.snd) := by
  induction map generalizing lists with
  | nil => simp
  | cons descriptor rest induction =>
      have others := induction fun other member => fits other (List.mem_cons_of_mem _ member)
      rw [List.foldlM_cons, Main.pushDescriptor,
        MemoryDescriptor.len_eq (fits descriptor List.mem_cons_self)]
      cases code : descriptor.isCode <;> cases mmio : descriptor.isMmio <;>
        simp [others, MemoryDescriptor.mapping, MemoryDescriptor.range, code, mmio]

theorem Main.mapM_descriptorEnd (fits : ∀ descriptor ∈ map, descriptor.range.Fits) :
    map.mapM (Main.descriptorEnd profile) =
      some (map.map fun descriptor => descriptor.physStart + descriptor.pageCount * 4096) := by
  induction map with
  | nil => rfl
  | cons descriptor rest induction =>
      have others := induction fun other member => fits other (List.mem_cons_of_mem _ member)
      rw [List.mapM_cons, others, Main.descriptorEnd_eq (fits descriptor List.mem_cons_self)]
      rfl

/-- `Main::update_paging` succeeds on descriptors with an end. -/
theorem Main.updatePaging_eq (fits : ∀ descriptor ∈ map, descriptor.range.Fits) :
    Main.updatePaging profile map stack = some (bootMaps map stack).unzip := by
  rw [Main.updatePaging, Main.mapM_descriptorEnd fits]
  simp [Main.foldlM_pushDescriptor fits, bootMaps, lastEnd]

theorem le_lastEnd {descriptor : MemoryDescriptor} (member : descriptor ∈ map) :
    descriptor.physStart + descriptor.pageCount * 4096 ≤ lastEnd map :=
  List.le_max?_getD_of_mem (List.mem_map_of_mem member)

theorem lt_lastEnd {descriptor : MemoryDescriptor} (member : descriptor ∈ map) {vaddr : Nat}
    (inside : descriptor.range.contains vaddr = true) : vaddr < lastEnd map :=
  lt_of_lt_of_le (MemRangeData.contains_iff.mp inside).2 (le_lastEnd member)

/-- A memory map of the machine: the descriptors are disjoint and lie in the physical address
space. -/
structure Physical (map : List MemoryDescriptor) : Prop where
  disjoint : map.Pairwise fun left right =>
    ∀ address, ¬ (left.range.contains address = true ∧ right.range.contains address = true)
  bounded : ∀ descriptor ∈ map, descriptor.physStart + descriptor.pageCount * 4096 ≤ 2 ^ 52

/-- The memory of the stack lies inside a `LOADER_DATA` descriptor. -/
def StackData.Inside (stack : StackData) (map : List MemoryDescriptor) : Prop :=
  ∃ descriptor ∈ map, descriptor.ty = .loaderData ∧
    descriptor.physStart + stack.len ≤ stack.top ∧
    stack.top ≤ descriptor.physStart + descriptor.pageCount * 4096

/-- The range that `Main::update_paging` pushes for the stack. -/
def StackData.pushed (stack : StackData) : MemRangeData := ⟨stack.top, stack.len⟩

/-- Translation of an address by the installed table; higher addresses are not canonical. -/
def translation (features : CpuFeatures) (state : CoreState) (vaddr : Nat) : Option Translation :=
  if vaddr < addressBound features.target then
    hardwareWalk state.memory.words features.target state.cr3 vaddr Rights.all
  else
    none

@[simp]
theorem requested_plainFlags (vaddr : Nat) :
    requested .plainFlags vaddr = ⟨vaddr, ⟨true, false, true⟩, false, false, false⟩ := rfl

@[simp]
theorem requested_codeFlags (vaddr : Nat) :
    requested .codeFlags vaddr = ⟨vaddr, ⟨true, false, false⟩, false, false, false⟩ := rfl

@[simp]
theorem requested_mmioFlags (vaddr : Nat) :
    requested .mmioFlags vaddr = ⟨vaddr, ⟨true, false, true⟩, false, true, false⟩ := rfl

/-- The mapping policy. -/
structure BootPolicy (features : CpuFeatures) (state : CoreState) (map : List MemoryDescriptor) :
    Prop where
  code : ∀ descriptor ∈ map, descriptor.isCode = true → ∀ vaddr,
    descriptor.range.contains vaddr = true → 4096 ≤ vaddr →
    ∃ found, translation features state vaddr = some found ∧ found.phys = vaddr ∧
      found.rights.writable = true ∧ found.rights.executeDisable = false
  mmio : ∀ descriptor ∈ map, descriptor.isMmio = true → ∀ vaddr,
    descriptor.range.contains vaddr = true →
    ∃ found, translation features state vaddr = some found ∧ found.phys = vaddr ∧
      found.pcd = true ∧ found.rights.executeDisable = true
  other : ∀ vaddr < lastEnd map,
    (∀ descriptor ∈ map, descriptor.isCode = true ∨ descriptor.isMmio = true →
      descriptor.range.contains vaddr = false) →
    ∃ found, translation features state vaddr = some found ∧ found.phys = vaddr ∧
      found.rights.writable = true ∧ found.rights.executeDisable = true

theorem Physical.fits (physical : Physical map) : ∀ descriptor ∈ map, descriptor.range.Fits := by
  intro descriptor member
  exact lt_of_le_of_lt (physical.bounded descriptor member) (by decide)

theorem Physical.lastEnd_le (physical : Physical map) : lastEnd map ≤ 2 ^ 52 := by
  rw [lastEnd]
  cases greatest : (map.map fun descriptor =>
      descriptor.physStart + descriptor.pageCount * 4096).max? with
  | none => exact Nat.zero_le _
  | some last =>
      obtain ⟨descriptor, member, rfl⟩ := List.mem_map.mp (List.max?_mem greatest)
      exact physical.bounded descriptor member

theorem MemoryDescriptor.range_of_mapping {descriptor : MemoryDescriptor} {mapping : Mapping}
    (pushed : descriptor.mapping = some mapping) :
    mapping.1 = descriptor.range ∧ mapping.2.isEmpty = false := by
  rw [MemoryDescriptor.mapping] at pushed
  split at pushed
  · cases pushed
    exact ⟨rfl, rfl⟩
  · split at pushed <;> cases pushed
    exact ⟨rfl, rfl⟩

theorem MemoryDescriptor.mapping_of_isMmio {descriptor : MemoryDescriptor}
    (mmio : descriptor.isMmio = true) :
    descriptor.mapping = some (descriptor.range, .mmioFlags) := by
  have notCode : descriptor.isCode = false := by
    rw [MemoryDescriptor.isMmio, Bool.or_eq_true, decide_eq_true_eq, decide_eq_true_eq] at mmio
    rcases mmio with kind | kind <;> simp [MemoryDescriptor.isCode, kind]
  simp [MemoryDescriptor.mapping, notCode, mmio]

theorem bootMaps_fits (physical : Physical map) (inside : stack.Inside map) :
    ∀ range ∈ (bootMaps map stack).unzip.1, range.Fits := by
  have last := physical.lastEnd_le
  obtain ⟨holder, member, -, bottom, top⟩ := inside
  have bounded := physical.bounded holder member
  rw [List.unzip_fst]
  refine List.forall_mem_map.mpr fun mapping listed => ?_
  simp only [bootMaps, List.cons_append, List.mem_cons, List.mem_append, List.mem_filterMap,
    List.not_mem_nil, or_false] at listed
  rcases listed with rfl | ⟨descriptor, inMap, pushed⟩ | rfl | rfl
  · simp only [MemRangeData.Fits, usizeCount]
    omega
  · rw [(MemoryDescriptor.range_of_mapping pushed).1]
    exact physical.fits descriptor inMap
  · simp only [MemRangeData.Fits, usizeCount]
    omega
  · decide

/-- The flags of an address in the installed mapping. -/
def bootFlags (map : List MemoryDescriptor) (stack : StackData) (vaddr : Nat) :
    Option PageEntryFlags :=
  if stack.pushed.contains vaddr then some .plainFlags
  else (lastFlags (map.filterMap MemoryDescriptor.mapping) vaddr).or
    (if vaddr < lastEnd map then some .plainFlags else none)

theorem retainedMaps_bootMaps (map : List MemoryDescriptor) (stack : StackData) :
    retainedMaps true (bootMaps map stack) =
      ((⟨0, lastEnd map⟩, .plainFlags) :: map.filterMap MemoryDescriptor.mapping) ++
        [(stack.pushed, .plainFlags)] := by
  have masked : maskedMaps true (bootMaps map stack) = bootMaps map stack := List.map_id' _
  have kept : (map.filterMap MemoryDescriptor.mapping).filter (fun mapping => !mapping.2.isEmpty) =
      map.filterMap MemoryDescriptor.mapping := by
    refine List.filter_eq_self.mpr fun mapping member => ?_
    obtain ⟨descriptor, -, pushed⟩ := List.mem_filterMap.mp member
    rw [(MemoryDescriptor.range_of_mapping pushed).2]
    rfl
  rw [retainedMaps, masked, bootMaps, List.filter_append, List.filter_cons_of_pos rfl, kept]
  rfl

/-- The stack range overrides the descriptors, and these override the base range. -/
theorem lastFlags_retainedMaps_bootMaps (vaddr : Nat) :
    lastFlags (retainedMaps true (bootMaps map stack)) vaddr = bootFlags map stack vaddr := by
  rw [retainedMaps_bootMaps, lastFlags, lastWriter_concat, lastWriter, bootFlags]
  simp [covers, MemRangeData.contains, lastFlags]

/-- The flags of a descriptor's own range. -/
theorem bootFlags_of_mapping (physical : Physical map) {descriptor : MemoryDescriptor}
    (member : descriptor ∈ map) {mapping : Mapping} (pushed : descriptor.mapping = some mapping)
    {vaddr : Nat} (inside : descriptor.range.contains vaddr = true)
    (clear : stack.pushed.contains vaddr = false) :
    bootFlags map stack vaddr = some mapping.2 := by
  have apart : (map.filterMap MemoryDescriptor.mapping).Pairwise (Apart covers) := by
    apply physical.disjoint.filterMap
    intro left right disjoint leftMap leftPushed rightMap rightPushed address both
    rw [covers, covers, (MemoryDescriptor.range_of_mapping leftPushed).1,
      (MemoryDescriptor.range_of_mapping rightPushed).1] at both
    exact disjoint address both
  have covered : covers mapping vaddr = true := by
    rw [covers, (MemoryDescriptor.range_of_mapping pushed).1]
    exact inside
  have written : lastFlags (map.filterMap MemoryDescriptor.mapping) vaddr = some mapping.2 :=
    lastWriter_eq_some_of_mem apart (List.mem_filterMap.mpr ⟨descriptor, member, pushed⟩) covered
  simp [bootFlags, clear, written]

/-- The flags of the addresses that belong to no descriptor with flags of its own. -/
theorem bootFlags_of_other {vaddr : Nat} (below : vaddr < lastEnd map)
    (others : ∀ descriptor ∈ map, descriptor.isCode = true ∨ descriptor.isMmio = true →
      descriptor.range.contains vaddr = false) :
    bootFlags map stack vaddr = some .plainFlags := by
  have unwritten : lastFlags (map.filterMap MemoryDescriptor.mapping) vaddr = none := by
    refine lastWriter_eq_none_iff.mpr fun mapping member => ?_
    obtain ⟨descriptor, inMap, pushed⟩ := List.mem_filterMap.mp member
    rw [covers, (MemoryDescriptor.range_of_mapping pushed).1]
    apply others descriptor inMap
    by_contra neither
    rw [not_or, Bool.not_eq_true, Bool.not_eq_true] at neither
    simp [MemoryDescriptor.mapping, neither] at pushed
  rw [bootFlags, unwritten, if_pos below]
  exact ite_self _

theorem addressBound_le_span (features : CpuFeatures) :
    addressBound features.target ≤ 512 * features.target.entrySize := by
  rcases features.kind with kind | kind <;> rw [kind] <;> decide

/-- `exit_uefi` installs the ranges of `Main::update_paging`. -/
theorem exitUefiPaging_eq (platform : Platform) (features : CpuFeatures)
    (fits : ∀ descriptor ∈ map, descriptor.range.Fits) :
    Main.exitUefiPaging platform features map stack =
      createPaging platform features (bootMaps map stack).unzip.1 (bootMaps map stack).unzip.2 := by
  rw [Main.exitUefiPaging, Main.updatePaging_eq fits]
  rfl

/-- The mapping installed by `exit_uefi`. -/
theorem exitUefiPaging_translation (nx : features.nx = true) (physical : Physical map)
    (inside : stack.Inside map)
    (install : Main.exitUefiPaging platform features map stack before = (.ok (), after))
    {vaddr : Nat} (below : vaddr < 2 ^ 52) :
    translation features after vaddr =
      if vaddr < addressBound features.target then
        (bootFlags map stack vaddr).map (requested · vaddr)
      else none := by
  have span := addressBound_le_span features
  rw [exitUefiPaging_eq platform features physical.fits] at install
  rw [translation]
  split
  · rw [createPaging_translates (by simp) (bootMaps_fits physical inside) install (by omega) below,
      nx, List.zip_unzip, lastFlags_retainedMaps_bootMaps]
  · rfl

/-- The null page stays mapped for every memory map: the range without flags has no effect. -/
theorem exitUefiPaging_maps_null (nx : features.nx = true) (physical : Physical map)
    (inside : stack.Inside map)
    (install : Main.exitUefiPaging platform features map stack before = (.ok (), after))
    (memory : 0 < lastEnd map) : translation features after 0 ≠ none := by
  have low : 0 < addressBound features.target := by
    rcases features.kind with kind | kind <;> rw [kind] <;> decide
  rw [exitUefiPaging_translation nx physical inside install (by decide), if_pos low, ne_eq,
    Option.map_eq_none_iff, bootFlags, if_pos memory]
  split <;> simp

/-- On the ascending allocator `exit_uefi` succeeds with page-aligned ranges. -/
theorem bumpPlatform_exitUefiPaging (physical : Physical map) (inside : stack.Inside map)
    (aligned : ∀ range ∈ (bootMaps map stack).unzip.1, range.Aligned) :
    ∃ after, Main.exitUefiPaging (bumpPlatform 0) fourLevels map stack bootState =
      (.ok (), after) := by
  have lengths : (bootMaps map stack).unzip.1.length = (bootMaps map stack).unzip.2.length := by
    simp
  rw [exitUefiPaging_eq _ _ physical.fits]
  exact bumpPlatform_createPaging_retained true lengths aligned (bootMaps_fits physical inside)

/-- Conventional memory, the loader data that `allocate` has asked for, which is the stack and, in
one page behind its top, the gap and `Main`, and then loader code. -/
def stackBeforeCode : List MemoryDescriptor :=
  [⟨.other 7, 0, 16⟩, ⟨.loaderData, 0x10000, 9⟩, ⟨.loaderCode, 0x19000, 4⟩]

/-- Room behind the stack, then code and a device. -/
def stackBeforeData : List MemoryDescriptor :=
  [⟨.other 7, 0, 16⟩, ⟨.loaderData, 0x10000, 16⟩, ⟨.loaderCode, 0x20000, 4⟩, ⟨.mmio, 0x30000, 1⟩]

/-- A stack of `STACK_SIZE`. -/
def bootStack : StackData := ⟨0x18000, 0x8000⟩

theorem Physical.of_ascending
    (ascending : map.Pairwise fun left right =>
      left.physStart + left.pageCount * 4096 ≤ right.physStart)
    (bounded : ∀ descriptor ∈ map, descriptor.physStart + descriptor.pageCount * 4096 ≤ 2 ^ 52) :
    Physical map where
  disjoint := ascending.imp fun order address both => by
    have left := (MemRangeData.contains_iff.mp both.1).2
    have right := (MemRangeData.contains_iff.mp both.2).1
    simp only [MemoryDescriptor.range] at left right
    omega
  bounded := bounded

/-- The null page is mapped although the last range that contains it has no flags. -/
theorem createPaging_maps_null :
    ∃ lists after,
      Main.updatePaging .dev stackBeforeCode bootStack = some lists ∧
      createPaging (bumpPlatform 0) fourLevels lists.1 lists.2 bootState = (.ok (), after) ∧
      lastFlags (maskedMaps fourLevels.nx (lists.1.zip lists.2)) 0 = some .empty ∧
      Mapped fourLevels after 0 := by
  have physical : Physical stackBeforeCode := .of_ascending (by decide) (by decide)
  have inside : bootStack.Inside stackBeforeCode := ⟨⟨.loaderData, 0x10000, 9⟩, by decide⟩
  obtain ⟨after, install⟩ := bumpPlatform_exitUefiPaging physical inside (by decide)
  have mapped := exitUefiPaging_maps_null rfl physical inside install (by decide)
  rw [exitUefiPaging_eq _ _ physical.fits] at install
  refine ⟨_, after, Main.updatePaging_eq physical.fits, install, by decide, ?_⟩
  exact Option.isSome_iff_ne_none.mpr mapped

/-- No page of a device, and no page of code but the null page, lies in the range pushed for the
stack, and all memory has canonical addresses. -/
structure StackClear (features : CpuFeatures) (map : List MemoryDescriptor) (stack : StackData) :
    Prop where
  canonical : lastEnd map ≤ addressBound features.target
  clear : ∀ descriptor ∈ map, ∀ vaddr, descriptor.range.contains vaddr = true →
    (descriptor.isCode = true ∧ 4096 ≤ vaddr) ∨ descriptor.isMmio = true →
    stack.pushed.contains vaddr = false

theorem BootPolicy.translated {state : CoreState} (policy : BootPolicy features state map)
    {vaddr : Nat} (page : 4096 ≤ vaddr) (below : vaddr < lastEnd map) :
    translation features state vaddr ≠ none := by
  by_cases special : ∃ descriptor ∈ map, (descriptor.isCode = true ∨ descriptor.isMmio = true) ∧
      descriptor.range.contains vaddr = true
  · obtain ⟨descriptor, member, code | mmio, inside⟩ := special
    · obtain ⟨found, same, -⟩ := policy.code descriptor member code vaddr inside page
      simp [same]
    · obtain ⟨found, same, -⟩ := policy.mmio descriptor member mmio vaddr inside
      simp [same]
  · obtain ⟨found, same, -⟩ := policy.other vaddr below fun descriptor member kind => by
      by_contra inside
      exact special ⟨descriptor, member, kind, by simpa using inside⟩
    simp [same]

section Installed

variable (nx : features.nx = true) (physical : Physical map) (inside : stack.Inside map)
  (install : Main.exitUefiPaging platform features map stack before = (.ok (), after))

include nx physical inside install

theorem StackClear.walk (stackClear : StackClear features map stack) {vaddr : Nat}
    (below : vaddr < lastEnd map) :
    translation features after vaddr =
      (bootFlags map stack vaddr).map (requested · vaddr) := by
  have canonical := stackClear.canonical
  have last := physical.lastEnd_le
  rw [exitUefiPaging_translation nx physical inside install (by omega), if_pos (by omega)]

theorem StackClear.bootPolicy (stackClear : StackClear features map stack) :
    BootPolicy features after map where
  code descriptor member code vaddr covered page := by
    have clear := stackClear.clear descriptor member vaddr covered (.inl ⟨code, page⟩)
    have pushed : descriptor.mapping = some (descriptor.range, .codeFlags) := if_pos code
    rw [stackClear.walk nx physical inside install (lt_lastEnd member covered),
      bootFlags_of_mapping physical member pushed covered clear]
    simp
  mmio descriptor member mmio vaddr covered := by
    have clear := stackClear.clear descriptor member vaddr covered (.inr mmio)
    have pushed := MemoryDescriptor.mapping_of_isMmio mmio
    rw [stackClear.walk nx physical inside install (lt_lastEnd member covered),
      bootFlags_of_mapping physical member pushed covered clear]
    simp
  other vaddr below others := by
    rw [stackClear.walk nx physical inside install below, bootFlags_of_other below others]
    simp

theorem BootPolicy.stackClear (policy : BootPolicy features after map) :
    StackClear features map stack := by
  have last := physical.lastEnd_le
  have canonical : lastEnd map ≤ addressBound features.target := by
    by_contra beyond
    have low : 2 ^ 47 ≤ addressBound features.target := by
      rcases features.kind with kind | kind <;> rw [kind] <;> decide
    apply policy.translated (show 4096 ≤ lastEnd map - 1 by omega) (by omega)
    rw [exitUefiPaging_translation nx physical inside install (by omega), if_neg (by omega)]
  refine ⟨canonical, fun descriptor member vaddr covered special => ?_⟩
  by_contra overridden
  have pushed : stack.pushed.contains vaddr = true := by simpa using overridden
  have below := lt_lastEnd member covered
  have found : translation features after vaddr = some (requested .plainFlags vaddr) := by
    rw [exitUefiPaging_translation nx physical inside install (by omega), if_pos (by omega),
      bootFlags, if_pos pushed]
    rfl
  rcases special with ⟨code, page⟩ | mmio
  · obtain ⟨other, same, -, -, executable⟩ := policy.code descriptor member code vaddr covered page
    rw [found] at same
    cases same
    simp at executable
  · obtain ⟨other, same, -, uncached, -⟩ := policy.mmio descriptor member mmio vaddr covered
    rw [found] at same
    cases same
    simp at uncached

end Installed

/-- `exit_uefi` installs the mapping policy exactly when nothing that needs other flags lies in the
range pushed for the stack. -/
theorem bootPolicy_iff_stackClear (platform : Platform) (features : CpuFeatures)
    (nx : features.nx = true) {before after : CoreState} {map : List MemoryDescriptor}
    {stack : StackData} (physical : Physical map) (inside : stack.Inside map)
    (install : Main.exitUefiPaging platform features map stack before = (.ok (), after)) :
    BootPolicy features after map ↔ StackClear features map stack :=
  ⟨BootPolicy.stackClear nx physical inside install,
    StackClear.bootPolicy nx physical inside install⟩

theorem bootPolicy_iff_stackClear_dataBehind :
    ∃ after, Main.exitUefiPaging (bumpPlatform 0) fourLevels stackBeforeData bootStack bootState =
        (.ok (), after) ∧ BootPolicy fourLevels after stackBeforeData := by
  have physical : Physical stackBeforeData := .of_ascending (by decide) (by decide)
  have inside : bootStack.Inside stackBeforeData := ⟨⟨.loaderData, 0x10000, 16⟩, by decide⟩
  obtain ⟨after, install⟩ := bumpPlatform_exitUefiPaging physical inside (by decide)
  refine ⟨after, install, (bootPolicy_iff_stackClear _ _ rfl physical inside install).mpr
    ⟨by decide, fun descriptor member vaddr covered special => ?_⟩⟩
  have behind : ∀ descriptor ∈ stackBeforeData,
      descriptor.isCode = true ∨ descriptor.isMmio = true → 0x20000 ≤ descriptor.physStart := by
    decide
  have start := behind descriptor member (special.imp_left And.left)
  have low := (MemRangeData.contains_iff.mp covered).1
  by_contra pushed
  have high := (MemRangeData.contains_iff.mp (by simpa using pushed)).2
  simp only [MemoryDescriptor.range, StackData.pushed, bootStack] at low high
  omega

/-- The first page of the loader code behind the stack is not executable. -/
theorem bootPolicy_fails_codeBehind :
    ∃ after, Main.exitUefiPaging (bumpPlatform 0) fourLevels stackBeforeCode bootStack bootState =
        (.ok (), after) ∧
      translation fourLevels after 0x19000 =
        some ⟨0x19000, ⟨true, false, true⟩, false, false, false⟩ ∧
      ¬ BootPolicy fourLevels after stackBeforeCode := by
  have physical : Physical stackBeforeCode := .of_ascending (by decide) (by decide)
  have inside : bootStack.Inside stackBeforeCode := ⟨⟨.loaderData, 0x10000, 9⟩, by decide⟩
  obtain ⟨after, install⟩ := bumpPlatform_exitUefiPaging physical inside (by decide)
  refine ⟨after, install, ?_, fun policy => ?_⟩
  · rw [exitUefiPaging_translation rfl physical inside install (by decide)]
    rfl
  · have clear := (policy.stackClear rfl physical inside install).clear ⟨.loaderCode, 0x19000, 4⟩
      (by decide) 0x19000 (by decide) (by decide)
    exact absurd clear (by decide)

end Okots
