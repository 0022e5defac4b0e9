import Okots.MultiCore.InitTrampoline

/-!
# Starting the other processors

When `init_trampoline` has returned, every processor that is started arrives at the entry point on
the tables of the first one, in every interleaving of the instructions.  The image and the array of
the stacks survive the change of the mapping because the frames of the tables are apart from them.
The magic number in the image is never cleared, so the trampoline is installed once.
-/

namespace Okots.Trampoline

open StateExec Exec LastWriter

/-- The list that the next addition starts from. -/
def recorded (state : CoreState) : List Mapping :=
  state.pageTable.memoryMapping.1.zip state.pageTable.memoryMapping.2

/-- A frame behind the image. -/
structure BehindImage (frame : Nat) : Prop where
  aligned : 4096 ∣ frame
  bounded : frame < 2 ^ 52
  image : trampTarget + imageLength ≤ frame

/-- The frames in use and those that the allocator hands out are behind the image. -/
structure HeapApart (platform : Platform) (state : CoreState) : Prop where
  heap : ∀ frame ∈ state.memory.live, BehindImage frame
  served : ∀ history frame, platform.allocator.allocZeroed history = some frame →
    BehindImage frame

/-! ## Adding the image -/

section Add

variable {platform : Platform} {features : CpuFeatures} {call : TrampolineCall} {base : Finset Nat}
  {initial : List Mapping} {state middle after : CoreState}

/-- The image is the last range of the retained list. -/
theorem lastFlags_image (nx : Bool) (maps : List Mapping) (address : Nat) :
    lastFlags (retainedMaps nx (maps ++ [(imageRange, .dataFlags)])) address =
      if imageRange.contains address then some .dataFlags
      else lastFlags (retainedMaps nx maps) address := by
  have flags : retainedMaps nx (maps ++ [(imageRange, .dataFlags)]) =
      retainedMaps nx maps ++ [(imageRange, .dataFlags)] := by
    cases nx <;> simp [retainedMaps, maskedMaps, maskFlags] <;> decide
  rw [flags, lastFlags, lastWriter_concat]
  rfl

/-- What the addition of the image leaves. -/
structure ImageAdded (platform : Platform) (features : CpuFeatures) (base : Finset Nat)
    (initial : List Mapping) (state after : CoreState) : Prop where
  coreInv : CoreInv features base initial after
  cr3 : after.cr3 = state.cr3
  translates : Translates features after
    (retainedMaps features.nx (recorded state ++ [(imageRange, .dataFlags)]))
  resolves : ∀ address < 2 ^ 47, ∀ flag,
    lastFlags (retainedMaps features.nx (recorded state ++ [(imageRange, .dataFlags)])) address =
      some flag → flag.contains .pat = false → flag.contains .huge = false →
    Resolves platform features after address
  missing : ∀ address < 2 ^ 47,
    lastFlags (retainedMaps features.nx (recorded state ++ [(imageRange, .dataFlags)])) address =
      none → ∃ error,
    currentGetAddr platform features address after = (.error (.err error), after)
  requests : Requests platform features state after
  kept : Kept platform state after

/-- The lists of the update that adds the image. -/
def imageLists (features : CpuFeatures) (state : CoreState) :
    List MemRangeData × List PageEntryFlags :=
  retainedLists features.nx (state.pageTable.memoryMapping.1 ++ [imageRange])
    (state.pageTable.memoryMapping.2 ++ [.dataFlags])

/-- The list with the image can be mapped. -/
theorem mappable_image (inv : CoreInv features base initial state) :
    Mappable (state.pageTable.memoryMapping.1 ++ [imageRange])
      (state.pageTable.memoryMapping.2 ++ [PageEntryFlags.dataFlags]) := by
  refine inv.mapping.append ⟨rfl, ?_, ?_, ?_⟩
  · simp [imageRange, MemRangeData.Aligned]
  · simp [imageRange, MemRangeData.Fits, usizeCount]
  · simp only [List.mem_singleton, forall_eq]
    decide

/-- After an update an address in no range has no translation. -/
theorem missing_of_updated {lists kept : List MemRangeData × List PageEntryFlags}
    (updated : CoreUpdated platform features base lists state after)
    (inv : CoreInv features base initial state) (mappable : Mappable kept.1 kept.2)
    (normalized : normalizeMapList platform.profile platform.sort kept.1 kept.2 = some lists)
    {address : Nat} (low : address < 2 ^ 47)
    (uncovered : lastFlags (kept.1.zip kept.2) address = none) :
    ∃ error, currentGetAddr platform features address after = (.error (.err error), after) := by
  have span := features.low_lt_span
  have tree := updated.tree
  rw [inv.level, ← inv.installed, ← updated.installed] at tree
  obtain ⟨-, tidy, meaning⟩ := mappable.normalize normalized
  have absent : (walkEnd after.memory.words features.target after.cr3 address).2.getLsbD 0 =
      false := by
    apply eq_false_of_ne_true
    intro present
    obtain ⟨map, leaf⟩ := leafOf_updatedTable (by omega) present tree
    cases (leaf.lastFlags tidy).symm.trans ((meaning address).trans uncovered)
  obtain ⟨error, failed⟩ := (getAddr_absent features.kind absent).2
  refine ⟨error, ?_⟩
  rw [currentGetAddr_eq, failed]

/-- After the addition, the image is mapped with its own flags and the rest as before. -/
theorem addImage_ends (inv : CoreInv features base initial state) :
    Ends (utilUpdateAddPaging platform features true [imageRange] [.dataFlags]) state
      (fun _ after => ImageAdded platform features base initial state after)
      fun _ _ => Requestable (512 * features.target.entrySize) (imageLists features state).1
          (imageLists features state).2 →
        Exhausted platform.allocator state.memory.history features.target.tableCount := by
  have joined := mappable_image inv
  have retained := retainFlags_eq_retained features.nx joined.lengths
  have mappable : Mappable (imageLists features state).1 (imageLists features state).2 :=
    retainedLists_mappable features.nx joined.aligned joined.fits
  have zipped : (imageLists features state).1.zip (imageLists features state).2 =
      retainedMaps features.nx (recorded state ++ [(imageRange, .dataFlags)]) := by
    rw [imageLists, zip_retainedLists, List.zip_append inv.mapping.lengths]
    rfl
  rw [utilUpdateAddPaging, ends_bind, ends_read]
  refine ((utilUpdatePaging_ends true inv).and
    (utilUpdatePaging_spares platform true _ _ inv)).mono ?_ ?_
  · rintro _ after ⟨⟨kept, lists, same, normalized, updated⟩, spared⟩
    obtain rfl := Option.some.inj (retained.symm.trans same)
    have translates := updated.translates inv mappable normalized
    rw [zipped] at translates
    refine ⟨updated.coreInv inv, updated.installed, translates, ?_, ?_, updated.requests, spared⟩
    · intro address low flag last
      refine updated.resolves inv mappable normalized low ?_
      rw [zipped]
      exact last
    · intro address low uncovered
      refine missing_of_updated updated inv mappable normalized low ?_
      rw [zipped]
      exact uncovered
  · rintro _ after ⟨failed, -⟩ requestable
    exact failed _ retained requestable

end Add

/-! ## What the call leaves alone -/

section Apart

variable {platform : Platform} {features : CpuFeatures} {call : TrampolineCall} {base : Finset Nat}
  {initial : List Mapping} {state middle after : CoreState}

/-- The tables of a core are in use. -/
theorem tables_live (inv : CoreInv features base initial state) {frame : Nat}
    (member : frame ∈ state.tables) : frame ∈ state.memory.live := by
  obtain ⟨pending, tables⟩ := inv.tables
  exact (tables.separated rfl).live frame member

/-- The frames before the heap are foreign to the tables. -/
theorem HeapApart.foreign (apart : HeapApart platform state)
    (inv : CoreInv features base initial state) {frame : Nat} (before : ¬ BehindImage frame) :
    Foreign platform state.tables state.memory frame :=
  ⟨fun member => before (apart.heap frame (tables_live inv member)),
    .inr fun history request => before (apart.served history frame request)⟩

/-- A change of the mapping keeps the heap behind the image. -/
theorem HeapApart.requests (apart : HeapApart platform state)
    (requests : Requests platform features state after) : HeapApart platform after := by
  obtain ⟨news, freed, history, allocates, -⟩ := requests
  refine ⟨fun frame live => ?_, apart.served⟩
  rw [TableMemory.live, history, mem_liveFrames_shrunk, mem_liveFrames_grown] at live
  rcases live.2 with new | old
  · obtain ⟨earlier, -, request⟩ := allocates.exists_request new
    exact apart.served earlier frame request
  · exact apart.heap frame old

theorem physical_congr {words words' : TableWords} {index : Nat}
    (same : words (4096 * (index / 512)) = words' (4096 * (index / 512))) :
    physical words index = physical words' index := by
  rw [physical, physical, same]

variable (installs : Installs platform features call state middle after)

include installs

/-- Behind the image memory is as before the copy. -/
theorem Installs.physical_behind {index : Nat} (behind : trampTarget + imageLength ≤ 8 * index) :
    physical after.memory.words index = physical middle.memory.words index := by
  simp only [trampTarget, imageLength] at behind
  have outside : ∀ address < 0xD000, index ≠ address / 8 := by
    intro address small
    omega
  rw [installs.rewritten.memory, argsMemory, Function.update_of_ne (outside _ (by decide)),
    Function.update_of_ne (outside _ (by decide)), Function.update_of_ne (outside _ (by decide)),
    Function.update_of_ne (outside _ (by decide)), Function.update_of_ne (outside _ (by decide)),
    imageMemory, if_neg]
  simp only [trampTarget, imageLength]
  omega

/-- A frame behind the image is as before the copy. -/
theorem Installs.words_behind {frame : Nat} (behind : BehindImage frame) :
    after.memory.words frame = middle.memory.words frame := by
  have above := behind.image
  have later : (physical after.memory.words).tables frame = after.memory.words frame :=
    tables_physical behind.aligned
  have earlier : (physical middle.memory.words).tables frame = middle.memory.words frame :=
    tables_physical behind.aligned
  rw [← later, ← earlier]
  funext index
  obtain ⟨number, rfl⟩ := behind.aligned
  exact installs.physical_behind (by omega)

/-- The core is in order when the call returns. -/
theorem Installs.coreInv (inv : CoreInv features base initial state)
    (apart : HeapApart platform state) : CoreInv features base initial after := by
  have added := (addImage_ends inv).of_ok installs.added
  have rewritten := installs.rewritten
  refine added.coreInv.congr rewritten.cr3 rewritten.pageTable rewritten.history ?_
  intro frame live
  exact installs.words_behind ((apart.requests added.requests).heap frame live)

theorem Installs.heapApart (inv : CoreInv features base initial state)
    (apart : HeapApart platform state) : HeapApart platform after := by
  have added := (addImage_ends inv).of_ok installs.added
  obtain ⟨heap, served⟩ := apart.requests added.requests
  rw [TableMemory.live, ← installs.rewritten.history] at heap
  exact ⟨heap, served⟩

theorem Installs.cr3 (inv : CoreInv features base initial state) : after.cr3 = state.cr3 :=
  installs.rewritten.cr3.trans ((addImage_ends inv).of_ok installs.added).cr3

/-- The magic number stands in the installed image. -/
theorem Installs.magic : physical after.memory.words (trampTarget / 8) = magic := by
  rw [installs.rewritten.memory]
  rfl

end Apart

/-! ## When the call returns -/

section Returns

variable {platform : Platform} {features : CpuFeatures} {call : TrampolineCall} {base : Finset Nat}
  {initial : List Mapping} {state : CoreState}

theorem freshImage_congr {words words' : TableWords} (same : words 0x7000 = words' 0x7000) :
    freshImage (physical words) = freshImage (physical words') := by
  have fields : ∀ index, 4096 * (index / 512) = 0x7000 →
      physical words index = physical words' index := by
    intro index frame
    apply physical_congr
    rw [frame, same]
  rw [freshImage, freshImage, fields _ rfl, fields _ rfl, fields _ rfl, fields _ rfl, fields _ rfl]

/-- What a call needs apart from the mapping: valid stacks, enough frames for the tables, and an
image that no runtime service uses and that has not been installed. -/
structure Installable (platform : Platform) (features : CpuFeatures) (call : TrampolineCall)
    (state : CoreState) : Prop where
  stack : initTrampolineStackChecks call.stack state = (.ok (), state)
  requestable : Requestable (512 * features.target.entrySize) (imageLists features state).1
    (imageLists features state).2
  enough : ¬ Exhausted platform.allocator state.memory.history features.target.tableCount
  unused : ∀ descriptor ∈ call.uefiMap, Unused descriptor
  absent : call.overWrite = true ∨ freshImage (physical state.memory.words) = false ∧
    physical state.memory.words (trampTarget / 8) ≠ magic

/-- The address behind the image is in no part of the added range. -/
theorem lastFlags_behind (nx : Bool) (maps : List Mapping) :
    lastFlags (retainedMaps nx (maps ++ [(imageRange, .dataFlags)])) (trampTarget + imageLength) =
      lastFlags (retainedMaps nx maps) (trampTarget + imageLength) :=
  lastFlags_image nx maps _

/-- The call returns when the address behind the image is mapped. -/
theorem Installable.exists_returned (installable : Installable platform features call state)
    (inv : CoreInv features base initial state) (apart : HeapApart platform state)
    {flag : PageEntryFlags} (found : lastFlags (retainedMaps features.nx (recorded state))
      (trampTarget + imageLength) = some flag)
    (noPat : flag.contains .pat = false) (noHuge : flag.contains .huge = false) :
    ∃ after, initTrampoline platform features call state = (.ok (), after) := by
  obtain ⟨_, middle, run, added⟩ : ∃ value middle,
      utilUpdateAddPaging platform features true [imageRange] [.dataFlags] state =
        (.ok value, middle) ∧ ImageAdded platform features base initial state middle :=
    (addImage_ends inv).exists_ok fun _ _ failed =>
      installable.enough (failed installable.requestable)
  have start : Resolves platform features middle trampTarget :=
    added.resolves _ (by decide) .dataFlags (lastFlags_image _ _ _) (by decide) (by decide)
  have behind : Resolves platform features middle (trampTarget + imageLength) :=
    added.resolves _ (by decide) flag ((lastFlags_behind _ _).trans found) noPat noHuge
  have foreign : Foreign platform state.tables state.memory 0x7000 :=
    apart.foreign inv fun behind => absurd behind.image (by decide)
  have same := (added.kept _ foreign).2
  have word : physical middle.memory.words (trampTarget / 8) =
      physical state.memory.words (trampTarget / 8) := physical_congr same
  refine initTrampoline_returns installable.stack run installable.unused start behind ?_
  rw [freshImage_congr same, word]
  exact installable.absent

end Returns

/-! ## What the other processors find -/

/-- The array of the stacks is above the image, in the lower half, mapped, not for the user if
`CR4.SMAP` is set, and apart from the frames of the heap that tables are made of. -/
structure ArrayMapped (platform : Platform) (features : CpuFeatures) (call : TrampolineCall)
    (state : CoreState) : Prop where
  aligned : call.stackPtr.toNat % 8 = 0
  image : trampTarget + imageLength ≤ call.stackPtr.toNat
  room : call.stackPtr.toNat + 8 * call.stack.length ≤ 2 ^ 47
  mapped : ∀ index < call.stack.length,
    ∃ flag, lastFlags (retainedMaps features.nx (recorded state))
        (call.stackPtr.toNat + 8 * index) = some flag ∧
      (flag.contains .userPage = true →
        call.cr4.getLsbD ControlRegisters.supervisorAccessPrevention = false)
  heap : ∀ frame ∈ state.memory.live, frame + 4096 ≤ call.stackPtr.toNat ∨
    call.stackPtr.toNat + 8 * call.stack.length ≤ frame
  served : ∀ history frame, platform.allocator.allocZeroed history = some frame →
    frame + 4096 ≤ call.stackPtr.toNat ∨ call.stackPtr.toNat + 8 * call.stack.length ≤ frame
  stored : ∀ index (bound : index < call.stack.length),
    physical state.memory.words (call.stackPtr.toNat / 8 + index) = call.stack[index]

/-- Without NX no range disables execution. -/
theorem executeDisable_of_retained {nx : Bool} {maps : List Mapping} {address : Nat}
    {flag : PageEntryFlags} (found : lastFlags (retainedMaps nx maps) address = some flag)
    (disabled : flag.contains .executeDisable = true) : nx = true := by
  by_contra without
  rw [Bool.not_eq_true] at without
  subst without
  obtain ⟨map, member, -, rfl⟩ := exists_of_lastWriter_eq_some found
  obtain ⟨original, -, rfl⟩ := List.mem_map.mp (List.mem_of_mem_filter member)
  rw [PageEntryFlags.executeDisable, PageEntryFlags.contains_flag _ (by decide)] at disabled
  simp [maskFlags, nxMask] at disabled

section Mapped

variable {platform : Platform} {features : CpuFeatures} {call : TrampolineCall} {base : Finset Nat}
  {initial : List Mapping} {state middle after : CoreState} {pointers : List Word}
  {memory : Quadwords} (inv : CoreInv features base initial state)
  (apart : HeapApart platform state) (array : ArrayMapped platform features call state)
  (installs : Installs platform features call state middle after)

include inv installs in
/-- A table is apart from the image and from the array. -/
theorem Installs.table_apart (apart : HeapApart platform state)
    (array : ArrayMapped platform features call state) :
    ∀ frame ∈ tableFrames middle.memory.words features.target middle.cr3, BehindImage frame ∧
      (frame + 4096 ≤ call.stackPtr.toNat ∨
        call.stackPtr.toNat + 8 * call.stack.length ≤ frame) := by
  have added := (addImage_ends inv).of_ok installs.added
  intro frame member
  rw [added.coreInv.installed, ← added.coreInv.level] at member
  have live := tables_live added.coreInv member
  refine ⟨(apart.requests added.requests).heap frame live, ?_⟩
  obtain ⟨news, freed, history, allocates, -⟩ := added.requests
  rw [TableMemory.live, history, mem_liveFrames_shrunk, mem_liveFrames_grown] at live
  rcases live.2 with new | old
  · obtain ⟨earlier, -, request⟩ := allocates.exists_request new
    exact array.served earlier frame request
  · exact array.heap frame old

include inv array installs in
/-- The array holds the stacks when the call returns. -/
theorem Installs.stored (index : Nat) (bound : index < call.stack.length) :
    physical after.memory.words (call.stackPtr.toNat / 8 + index) = call.stack[index] := by
  have added := (addImage_ends inv).of_ok installs.added
  have aligned := array.aligned
  have image := array.image
  have inside : ∀ frame, frame = 4096 * ((call.stackPtr.toNat / 8 + index) / 512) →
      ¬ (frame + 4096 ≤ call.stackPtr.toNat ∨
        call.stackPtr.toNat + 8 * call.stack.length ≤ frame) := by
    intro frame same
    omega
  have foreign : Foreign platform state.tables state.memory
      (4096 * ((call.stackPtr.toNat / 8 + index) / 512)) :=
    ⟨fun member => inside _ rfl (array.heap _ (tables_live inv member)),
      .inr fun history request => inside _ rfl (array.served history _ request)⟩
  rw [installs.physical_behind (by omega), physical_congr (added.kept _ foreign).2]
  exact array.stored index bound

variable (sentinel : call.stack = pointers ++ [1])
  (agrees : Agrees (call.args features state.cr3) pointers.length (physical after.memory.words)
    memory)

include array sentinel agrees in
/-- Outside the array, memory is as it was when the call returned. -/
theorem memory_outside {index : Nat}
    (outside : 8 * index < call.stackPtr.toNat ∨
      call.stackPtr.toNat + 8 * call.stack.length ≤ 8 * index) :
    memory index = physical after.memory.words index := by
  have aligned := array.aligned
  have length : call.stack.length = pointers.length + 1 := by simp [sentinel]
  refine agrees index ?_
  simp only [Args.first, TrampolineCall.args]
  omega

include inv array installs sentinel agrees

omit apart in
theorem memory_loaded : Ap.Loaded (call.args features state.cr3) memory := by
  have below := array.image
  simp only [trampTarget, imageLength] at below
  have same : middle.cr3 = state.cr3 := ((addImage_ends inv).of_ok installs.added).cr3
  refine (loaded_installed _ call.code (physical middle.memory.words)).congr fun index small => ?_
  rw [memory_outside array sentinel agrees (.inl (by omega)), installs.rewritten.memory, same]

include apart

/-- The tables of the kernel translate in the memory of the other processors as on the first one. -/
theorem memory_walk (address : Nat) (small : address < 2 ^ 47) :
    hardwareWalk memory.tables features.target state.cr3 address Rights.all =
      (lastFlags (retainedMaps features.nx (recorded state ++ [(imageRange, .dataFlags)]))
        address).map (requested · address) := by
  have added := (addImage_ends inv).of_ok installs.added
  have tables : ∀ frame ∈ tableFrames middle.memory.words features.target middle.cr3,
      memory.tables frame = middle.memory.words frame := by
    intro frame member
    obtain ⟨behind, disjoint⟩ := installs.table_apart inv apart array frame member
    rw [← installs.words_behind behind]
    refine Eq.trans ?_ (tables_physical behind.aligned)
    funext index
    have bound := index.isLt
    obtain ⟨number, rfl⟩ := behind.aligned
    exact memory_outside array sentinel agrees (by omega)
  rw [← added.translates address small, ← added.cr3, hardwareWalk_eq_treeWalk,
    hardwareWalk_eq_treeWalk, (table_congr tables).2]

/-- An address of the lists can be accessed at its place. -/
theorem memory_translate (levels : call.cr4.getLsbD ControlRegisters.fiveLevels = features.pml5)
    {address : Nat} (small : address < 2 ^ 47) {flag : PageEntryFlags}
    (found : lastFlags (retainedMaps features.nx (recorded state ++ [(imageRange, .dataFlags)]))
      address = some flag) (cd nw : Bool) {access : Ap.Access}
    (executable : access = .fetch → flag.contains .executeDisable = false)
    (supervisor : flag.contains .userPage = true → call.cr4.getLsbD access.prevention = false) :
    Ap.translate (Ap.kernel cd nw (call.args features state.cr3)) memory access address =
      some address := by
  have walk := memory_walk inv apart array installs sentinel agrees address small
  rw [found, Option.map_some] at walk
  have same : middle.cr3 = state.cr3 := ((addImage_ends inv).of_ok installs.added).cr3
  have top : BehindImage state.cr3 := same ▸
    (installs.table_apart inv apart array middle.cr3 (mem_tableFrames.mpr (.inl rfl))).1
  have table : tableBase (BitVec.ofNat 64 state.cr3) = state.cr3 := by
    rw [tableBase, ← addressField_twelve, ofNat_and_addressField (.inl rfl) top.aligned top.bounded,
      BitVec.toNat_ofNat, Nat.mod_eq_of_lt (top.bounded.trans (by decide))]
  have level : (if features.pml5 then PageLevel.pml5 else .pml4) = features.target := rfl
  have marked := executeDisable_of_retained found
  have canonical : ∀ controls, Ap.canonical controls address = true := fun _ =>
    Ap.canonical_of_lt small
  simp only [Ap.translate, Ap.kernel, TrampolineCall.args, ControlRegisters.Controls.paging,
    ControlRegisters.Controls.longMode, Ap.cr0At_pg, Ap.eferAt_lma, canonical, Bool.and_self,
    if_true, levels, level, table, walk, Option.bind_some]
  refine if_pos ?_
  have admitted : (flag.contains .userPage && call.cr4.getLsbD access.prevention) = false := by
    cases user : flag.contains .userPage with
    | false => rfl
    | true => exact supervisor user
  cases disabled : flag.contains .executeDisable with
  | false => cases access <;> simp [Ap.permits, requested, disabled, admitted]
  | true =>
      cases access with
      | read | write => simp [Ap.permits, requested, marked disabled, admitted]
      | fetch => exact absurd (disabled.symm.trans (executable rfl)) Bool.noConfusion

end Mapped

/-- What has to hold of the other processors, of the addresses and of the entry point. -/
structure Launchable (env : ApEnv) (features : CpuFeatures) (call : TrampolineCall) (cr3 : Nat) :
    Prop where
  supports : Ap.Supports env.support features.nx features.pml5
  switches : Ap.Switches env.support (call.args features cr3)
  injective : Function.Injective env.address
  outside : ∀ label, env.address label ≠ call.entryPoint
  target : call.entryPoint ≠ 0

section Launch

variable {platform : Platform} {features : CpuFeatures} {call : TrampolineCall} {base : Finset Nat}
  {initial : List Mapping} {state middle after : CoreState} {env : ApEnv} {pointers : List Word}

/-- A call that returns has prepared the other processors. -/
theorem Installs.prepared (installs : Installs platform features call state middle after)
    (inv : CoreInv features base initial state) (apart : HeapApart platform state)
    (array : ArrayMapped platform features call state) (sentinel : call.stack = pointers ++ [1])
    (launchable : Launchable env features call state.cr3) :
    Prepared env (call.args features state.cr3) pointers.length (physical after.memory.words) := by
  have length : call.stack.length = pointers.length + 1 := by simp [sentinel]
  have room := array.room
  have levels := launchable.switches.levels
  refine ⟨launchable.supports, launchable.switches, launchable.injective, launchable.outside,
    launchable.target, array.aligned, ?_, ?_, ?_, ?_, ?_⟩
  · simp only [TrampolineCall.args]
    omega
  · intro memory agrees
    exact memory_loaded inv array installs sentinel agrees
  · intro cd nw memory agrees
    exact memory_translate inv apart array installs sentinel agrees levels (by decide)
      (lastFlags_image _ _ codePage) cd nw (fun _ => by decide)
      fun user => absurd user (by decide)
  · intro memory agrees cd nw address member
    have image : imageRange.contains address = true ∧ address < 2 ^ 47 := by
      simp only [List.mem_cons, List.not_mem_nil, or_false] at member
      rcases member with rfl | rfl <;> decide
    have last := lastFlags_image features.nx (recorded state) address
    rw [if_pos image.1] at last
    exact memory_translate inv apart array installs sentinel agrees levels image.2 last cd nw
      (fun fetch => nomatch fetch) fun user => absurd user (by decide)
  · intro memory agrees cd nw index within access kind
    have above := array.image
    simp only [trampTarget, imageLength] at above
    obtain ⟨flag, found, supervisor⟩ := array.mapped index (by omega)
    have last := lastFlags_image features.nx (recorded state) (call.stackPtr.toNat + 8 * index)
    rw [if_neg, found] at last
    · refine memory_translate inv apart array installs sentinel agrees levels (by omega) last cd
        nw ?_ ?_
      · rintro rfl
        simp at kind
      · simp only [List.mem_cons, List.not_mem_nil, or_false] at kind
        rcases kind with rfl | rfl <;> exact supervisor
    · rw [MemRangeData.contains_iff]
      simp only [imageRange]
      omega

/-- An array that passes the checks is a list of aligned stack pointers and the sentinel. -/
theorem aligned_of_initTrampolineStackChecks {stack pointers : List Word}
    (passed : initTrampolineStackChecks stack state = (.ok (), state))
    (sentinel : stack = pointers ++ [1]) :
    ∀ pointer ∈ pointers, 16 ∣ pointer.toNat := by
  subst sentinel
  intro pointer member
  obtain ⟨index, bound, rfl⟩ := List.getElem_of_mem member
  have entry : (pointers[index], index) ∈ (pointers ++ [1]).zipIdx := by
    rw [List.mem_zipIdx_iff_getElem?, List.getElem?_append_left bound]
    exact List.getElem?_eq_getElem bound
  have inner : index ≠ (pointers ++ [1]).length - 1 := by
    rw [List.length_append, List.length_singleton]
    omega
  unfold initTrampolineStackChecks at passed
  split at passed
  · cases passed
  rename_i noneInvalid
  rw [stackPointerIsInvalid, Bool.not_eq_true, List.any_eq_false] at noneInvalid
  have ok := noneInvalid _ entry
  simp only [inner, decide_false, Bool.false_and, Bool.or_false, Bool.or_eq_true, decide_eq_true_eq,
    not_or, Bool.not_eq_eq_eq_not, Bool.not_true, decide_eq_false_iff_not, not_not] at ok
  exact Nat.dvd_of_mod_eq_zero ok.2

end Launch

/-! ## A realization -/

/-- Two stacks and the sentinel, stored at `0xE000`. -/
def twoStacks : TrampolineCall where
  overWrite := false
  entryPoint := 0x100000
  stackPtr := 0xE000
  stack := [0x18000, 0x19000, 1]
  uefiMap := [⟨MemoryType.other 7, 0, 0x20⟩]
  code _ := 0
  cr4 := 0x20

/-- Before the first table is installed; the array has been written. -/
def stacksState : CoreState :=
  { bootState with
    memory := ⟨fun frame index =>
      if frame = 0xE000 then twoStacks.stack.getD index.val 0 else 0, []⟩ }

/-- A processor that supports everything, and an address for each label. -/
def anyProcessor : ApEnv where
  support := ⟨BitVec.allOnes 64, BitVec.allOnes 64, 52⟩
  address
    | .trampolineFn => 0x8000
    | .trampoline32 => 0x8001
    | .notNx => 0x8002
    | .jmpTo64 => 0x8003
    | .p4 => 0x8004
    | .ed => 0x8005
    | .trampoline64 => 0x8006
    | .flushed => 0x8007
    | .findIterEnded => 0x8008
    | .findIter => 0x8009
    | .next => 0x800A
    | .found => 0x800B
    | .t64Co1 => 0x800C
    | .stayTmpPaging => 0x800D

/-- A processor that has been started. -/
def startedAp : Ap where
  register _ := 0
  zf := false
  interruptFlag := false
  controls := ⟨Ap.cr0At true true false false, 0, 0, 0⟩
  code := .bits16
  descriptors := []
  segments _ := ⟨0, 0xFFFF, true⟩
  pc := .run (codeAt .trampolineFn)

section Realization

variable {created : CoreState}
  (installed : Installed 0x20000 [⟨0x1000, 0x1F000⟩] [.dataFlags] stacksState created)

include installed

theorem installed_mapped (address : Nat) (above : 0x1000 ≤ address) (below : address < 0x20000) :
    lastFlags (retainedMaps true (recorded created)) address = some .dataFlags := by
  have inv := installed.coreInv
  have same : retainedMaps true (recorded created) = recorded created := by
    rw [recorded, ← zip_retainedLists]
    have kept := retainFlags_eq_retained true inv.mapping.lengths
    rw [retainFlags_eq inv.mapping.flagged] at kept
    rw [← Option.some.inj kept]
  rw [same, recorded, inv.meaning]
  have covered : covers (⟨0x1000, 0x1F000⟩, PageEntryFlags.dataFlags) address = true :=
    covers_iff.mpr ⟨above, below⟩
  simp [lastFlags, lastWriter, covered]

theorem installed_heapApart : HeapApart (bumpPlatform 0x20000) created := by
  constructor
  · intro frame live
    obtain ⟨above, aligned, bounded⟩ := installed.live frame live
    exact ⟨aligned, bounded, by simp only [trampTarget, imageLength]; omega⟩
  · intro history frame request
    have above := bumpAllocator_above request
    exact ⟨(bumpAllocator _).aligned _ _ request, (bumpAllocator _).bounded _ _ request,
      by simp only [trampTarget, imageLength]; omega⟩

theorem installed_installable :
    Installable (bumpPlatform 0x20000) fourLevels twoStacks created := by
  have inv := installed.coreInv
  have joined := mappable_image inv
  have frame : created.memory.words 0x7000 = fun _ => 0 := installed.words 0x7000 (by decide)
  refine ⟨rfl, (retainedLists_mappable _ joined.aligned joined.fits).requestable, ?_, ?_, ?_⟩
  · refine bumpAllocator_serves ?_
    have highest := installed.highest
    have size : PageLevel.pml4.tableCount = 134480385 := rfl
    have target : fourLevels.target.tableCount = 134480385 := rfl
    omega
  · intro descriptor member
    obtain rfl := List.mem_singleton.mp member
    exact ⟨by decide, by decide⟩
  · have empty : freshImage (physical created.memory.words) = freshImage (physical fun _ _ => 0) :=
      freshImage_congr frame
    have word : physical created.memory.words (trampTarget / 8) =
        physical (fun _ _ => 0) (trampTarget / 8) := physical_congr frame
    refine .inr ⟨empty.trans (by decide), ?_⟩
    rw [word]
    decide

theorem installed_array : ArrayMapped (bumpPlatform 0x20000) fourLevels twoStacks created := by
  have frame : created.memory.words 0xE000 = fun index => twoStacks.stack.getD index.val 0 :=
    installed.words 0xE000 (by decide)
  have pointer : twoStacks.stackPtr.toNat = 0xE000 := rfl
  have length : twoStacks.stack.length = 3 := rfl
  refine ⟨rfl, by decide, by decide, ?_, ?_, ?_, ?_⟩
  · intro index bound
    rw [length] at bound
    have found := installed_mapped installed (0xE000 + 8 * index) (by omega) (by omega)
    rw [pointer]
    exact ⟨_, found, fun user => absurd user (by decide)⟩
  · intro frame live
    have above := (installed.live frame live).1
    omega
  · intro history frame request
    have above := bumpAllocator_above request
    omega
  · intro index bound
    rw [length] at bound
    obtain rfl | rfl | rfl : index = 0 ∨ index = 1 ∨ index = 2 := by omega
    · exact congrFun frame 0
    · exact congrFun frame 1
    · exact congrFun frame 2

theorem installed_launchable : Launchable anyProcessor fourLevels twoStacks created.cr3 := by
  have low := installed.low
  refine ⟨⟨by decide, fun _ => by decide, by decide, fun _ => by decide, by decide⟩,
    ⟨?_, ?_, ?_, ?_, ?_⟩, ?_, ?_, by decide⟩
  · exact (by decide : (0x20 : Word) &&& ~~~BitVec.allOnes 64 = 0)
  · exact (by decide : (0x20 : Word).getLsbD ControlRegisters.physicalAddressExtension = true)
  · exact (by decide : (0x20 : Word).getLsbD ControlRegisters.fiveLevels = false)
  · exact (by decide : (0x20 : Word).getLsbD ControlRegisters.controlFlowEnforcement = false)
  · have table : (twoStacks.args fourLevels created.cr3).pmlAddr.toNat = created.cr3 % 2 ^ 64 := rfl
    have bits : anyProcessor.support.physicalBits = 52 := rfl
    rw [table, bits]
    omega
  · intro left right same
    cases left <;> cases right <;> first | rfl | exact absurd same (by decide)
  · intro label
    cases label <;> decide

/-- The call returns. -/
theorem installed_returns :
    ∃ after, initTrampoline (bumpPlatform 0x20000) fourLevels twoStacks created =
      (.ok (), after) :=
  (installed_installable installed).exists_returned installed.coreInv
    (installed_heapApart installed) (installed_mapped installed _ (by decide) (by decide))
    (by decide) (by decide)

end Realization

theorem exists_stacksState :
    ∃ created, Installed 0x20000 [⟨0x1000, 0x1F000⟩] [.dataFlags] stacksState created := by
  refine exists_installed ⟨rfl, ?_, ?_, ?_⟩ rfl ?_ <;> decide

/-! ## The call in a run of the kernel -/

section Results

variable {platform : Platform} {features : CpuFeatures} {call again : TrampolineCall}
  {base : Finset Nat} {initial : List Mapping} {state installed current after : CoreState}
  {env : ApEnv}

/-- When nothing else is in its way, the call returns exactly when the address behind the image is
mapped. -/
theorem initTrampoline_returns_iff (inv : CoreInv features base initial state)
    (apart : HeapApart platform state) (installable : Installable platform features call state)
    (plain : ∀ flag, lastFlags (retainedMaps features.nx (recorded state))
      (trampTarget + imageLength) = some flag →
        flag.contains .pat = false ∧ flag.contains .huge = false) :
    (∃ after, initTrampoline platform features call state = (.ok (), after)) ↔
      (lastFlags (retainedMaps features.nx (recorded state))
        (trampTarget + imageLength)).isSome = true := by
  constructor
  · rintro ⟨after, returned⟩
    obtain ⟨middle, installs⟩ := initTrampoline_ends.of_ok returned
    have added := (addImage_ends inv).of_ok installs.added
    rw [Option.isSome_iff_ne_none]
    intro uncovered
    obtain ⟨error, failed⟩ :=
      added.missing _ (by decide) ((lastFlags_behind _ _).trans uncovered)
    cases failed.symm.trans installs.behind
  · intro mapped
    obtain ⟨flag, found⟩ := Option.isSome_iff_exists.mp mapped
    obtain ⟨noPat, noHuge⟩ := plain flag found
    exact installable.exists_returned inv apart found noPat noHuge

/-- With all of the low memory mapped the call returns. -/
theorem initTrampoline_returns_iff_mapped :
    ∃ created, Installed 0x20000 [⟨0x1000, 0x1F000⟩] [.dataFlags] stacksState created ∧
      ((∃ after, initTrampoline (bumpPlatform 0x20000) fourLevels twoStacks created =
          (.ok (), after)) ↔
        (lastFlags (retainedMaps true (recorded created)) 0xD000).isSome = true) := by
  obtain ⟨created, installed⟩ := exists_stacksState
  refine ⟨created, installed, initTrampoline_returns_iff installed.coreInv
    (installed_heapApart installed) (installed_installable installed) ?_⟩
  intro flag found
  obtain rfl := Option.some.inj
    ((installed_mapped installed _ (by decide) (by decide)).symm.trans found)
  decide

/-- After a call has returned and the mapping has been changed any number of times, a call that may
not overwrite the image does not return. -/
theorem initTrampoline_once (inv : CoreInv features base initial state)
    (apart : HeapApart platform state)
    (returned : initTrampoline platform features call state = (.ok (), installed))
    (calls : List AddCall) (added : addCalls platform features calls installed = (.ok (), current))
    (kept : again.overWrite = false) (after : CoreState) :
    initTrampoline platform features again current ≠ (.ok (), after) := by
  intro twice
  obtain ⟨middle, first⟩ := initTrampoline_ends.of_ok returned
  obtain ⟨last, second⟩ := initTrampoline_ends.of_ok twice
  have installedInv := first.coreInv inv apart
  obtain ⟨currentInv, keptCalls⟩ := (addCalls_spares platform calls installedInv).of_ok added
  have keptImage := ((addImage_ends currentInv).of_ok second.added).kept
  have foreign : Foreign platform installed.tables installed.memory
      (4096 * (trampTarget / 8 / 512)) :=
    (first.heapApart inv apart).foreign installedInv fun behind => absurd behind.image (by decide)
  obtain ⟨still, words⟩ := keptCalls _ foreign
  have word : physical last.memory.words (trampTarget / 8) = magic := by
    rw [← first.magic]
    exact physical_congr ((keptImage _ still).2.trans words)
  rcases second.once with overWrite | absent
  · rw [kept] at overWrite
    cases overWrite
  · exact absent word

/-- The same call again is refused. -/
theorem initTrampoline_once_again :
    ∃ created installed, Installed 0x20000 [⟨0x1000, 0x1F000⟩] [.dataFlags] stacksState created ∧
      initTrampoline (bumpPlatform 0x20000) fourLevels twoStacks created = (.ok (), installed) ∧
      ∀ after, initTrampoline (bumpPlatform 0x20000) fourLevels twoStacks installed ≠
        (.ok (), after) := by
  obtain ⟨created, ready⟩ := exists_stacksState
  obtain ⟨installed, returned⟩ := installed_returns ready
  exact ⟨created, installed, ready, returned, initTrampoline_once ready.coreInv
    (installed_heapApart ready) returned [] rfl rfl⟩

/-- In every interleaving, the processors that are started after `init_trampoline` has returned
arrive at the entry point, each with a slot of its own. -/
theorem initTrampoline_handedOver {ι : Type*} [DecidableEq ι] [Fintype ι] {cpus : ι → Ap}
    (inv : CoreInv features base initial state) (apart : HeapApart platform state)
    (array : ArrayMapped platform features call state)
    (launchable : Launchable env features call state.cr3)
    (returned : initTrampoline platform features call state = (.ok (), after))
    (started : ∀ processor, ∃ cd nw cr3, Ap.Started cd nw cr3 (cpus processor))
    (enough : Fintype.card ι < call.stack.length) (schedule : List ι) :
    HandedOver (call.args features state.cr3) call.stack.dropLast
      (schedule.foldl (Machine.next env) ⟨physical after.memory.words, cpus⟩)
      fun processor => schedule.count processor := by
  obtain ⟨middle, installs⟩ := initTrampoline_ends.of_ok returned
  obtain ⟨pointers, sentinel, valid⟩ := pointers_of_initTrampolineStackChecks installs.stack
  have aligned := aligned_of_initTrampolineStackChecks installs.stack sentinel
  have length : call.stack.length = pointers.length + 1 := by simp [sentinel]
  have pointersEq : call.stack.dropLast = pointers := by rw [sentinel, List.dropLast_concat]
  rw [pointersEq]
  refine foldl_handedOver (installs.prepared inv apart array sentinel launchable)
    (fun pointer member => ⟨(valid pointer member).1, aligned pointer member⟩) ⟨?_, ?_⟩ started
    (by omega) schedule
  · intro index bound
    have stored := installs.stored inv array index (by omega)
    simp only [sentinel, List.getElem_append_left bound] at stored
    exact stored
  · have stored := installs.stored inv array pointers.length (by omega)
    simp only [sentinel, List.getElem_concat_length] at stored
    exact stored

/-- Two processors and two stacks. -/
theorem initTrampoline_handedOver_two :
    ∃ created after,
      initTrampoline (bumpPlatform 0x20000) fourLevels twoStacks created = (.ok (), after) ∧
      ∀ schedule : List (Fin 2),
        HandedOver (twoStacks.args fourLevels created.cr3) [0x18000, 0x19000]
          (schedule.foldl (Machine.next anyProcessor)
            ⟨physical after.memory.words, fun _ => startedAp⟩)
          fun processor => schedule.count processor := by
  obtain ⟨created, installed⟩ := exists_stacksState
  obtain ⟨after, returned⟩ := installed_returns installed
  refine ⟨created, after, returned, fun schedule => initTrampoline_handedOver installed.coreInv
    (installed_heapApart installed) (installed_array installed) (installed_launchable installed)
    returned (fun _ => ⟨true, true, 0, rfl, rfl, rfl, rfl, by decide⟩) (by decide) schedule⟩

end Results

end Okots.Trampoline
