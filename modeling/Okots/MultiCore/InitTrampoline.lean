import Okots.Acpi.PhysicalRegion
import Okots.Footprint
import Okots.MultiCore.Handoff

/-!
# Installing the trampoline

`init_trampoline` maps the pages of the image, checks that nobody else uses them, copies the image
and fills in the arguments.  Its specification says what a call that returns has found and done.
One of the checks is easy to miss: not only the image but also the address behind it has to be
mapped, although the call itself only maps the image.
-/

namespace Okots.Trampoline

open StateExec Exec LastWriter

/-! ## The model -/

/-- Physical memory as quadwords. -/
def physical (words : TableWords) : Quadwords := fun index =>
  words (4096 * (index / 512)) ⟨index % 512, Nat.mod_lt _ (Nat.zero_lt_succ _)⟩

/-- Read a quadword of physical memory. -/
def loadWord (address : Nat) : Core Word :=
  read fun state => physical state.memory.words (address / 8)

/-- Write a quadword of physical memory. -/
def storeWord (address : Nat) (value : Word) : Core Unit := modify fun state =>
  { state with
    memory := state.memory.setEntry (4096 * (address / 8 / 512))
      ⟨address / 8 % 512, Nat.mod_lt _ (Nat.zero_lt_succ _)⟩ value }

/-- `TRAMPOLINE_BINARY.len()`. -/
def imageLength : Nat := 0xD000 - trampTarget

/-- `safety` in the image. -/
def magic : Word := 0x54855fafb595ad

/-- A quadword of the image; `code` is the assembled code page. -/
def imageWord (code : Nat → Word) (address : Nat) : Word :=
  if address = trampTarget then magic
  else if address = argsPmlAddr then 0x56
  else if address = argsStack then 0x72
  else if address = argsTarget then 0x85
  else if address = trampTarget + 32 then 0x95
  else if address = argsCr4 then 0
  else if address = argsFlags then 0b10
  else if codePage ≤ address ∧ address < tmpP5 then code address
  else if address = tmpP5 then BitVec.ofNat 64 (tmpP4 + 0b11)
  else if address = tmpP4 then BitVec.ofNat 64 (tmpPdpt + 0b11)
  else if address = tmpPdpt then BitVec.ofNat 64 (tmpPd + 0b11)
  else if address = tmpPd then 0b10000111
  else 0

/-- `copy_nonoverlapping` of the image to its place. -/
def copyImage (code : Nat → Word) : Core Unit := modify fun state =>
  { state with
    memory := { state.memory with
      words := fun frame index =>
        if trampTarget ≤ frame + 8 * index.val ∧ frame + 8 * index.val < trampTarget + imageLength
        then imageWord code (frame + 8 * index.val)
        else state.memory.words frame index } }

/-- The errors of `init_trampoline`. -/
inductive TrampolineFault where
  | core (fault : Fault)
  | notSupported (message : String)
  | internalError (message : String)

/-- A function of a core. -/
def ofCore {α : Type} (program : Core α) : Exec CoreState TrampolineFault α := fun state =>
  match program state with
  | (.ok value, after) => (.ok value, after)
  | (.error reason, after) => (.error (.core reason), after)

/-- The value of a result, `none` for an error. -/
def attempt {α : Type} (program : Core α) : Core (Option α) :=
  handle (do let value ← program; return some value) fun reason =>
    match reason with
    | .panic => fault .panic
    | .err _ => pure none

/-- The pages of the image. -/
def imageRange : MemRangeData := ⟨0x7000, 0x6000⟩

/-- One entry of the memory map is checked against the image. -/
def checkDescriptor (profile : Profile) (descriptor : MemoryDescriptor) : Core Unit := do
  let size ← ofOption .panic (uintMul 64 profile descriptor.pageCount 4096)
  let memEnd ← ofOption .panic (uintAdd 64 profile descriptor.physStart size)
  if descriptor.physStart < trampTarget + imageLength ∧ trampTarget < memEnd ∧
      (descriptor.ty = .runtimeServicesCode ∨ descriptor.ty = .other 6) then
    raise .allocationFailed "The location for the trampoline code is already in use."
  else
    pure ()

/-- The five fields of a fresh image. -/
def isFresh : Core Bool := do
  let tmpTable ← loadWord argsPmlAddr
  let stack ← loadWord argsStack
  let target ← loadWord argsTarget
  let frarg ← loadWord (trampTarget + 32)
  let flags ← loadWord argsFlags
  return tmpTable = 0x56 && stack = 0x72 && target = 0x85 && frarg = 0x95 &&
    flags &&& 0xFF = 0b10

/-- What `init_trampoline` is called with, and what it reads from the processor. -/
structure TrampolineCall where
  /-- The const parameter `OVER_WRITE`. -/
  overWrite : Bool
  entryPoint : Word
  /-- `stack.as_mut_ptr()`. -/
  stackPtr : Word
  stack : List Word
  uefiMap : List MemoryDescriptor
  /-- The assembled code page. -/
  code : Nat → Word
  /-- `Cr4::read().bits()`. -/
  cr4 : Word

/-- `init_trampoline`. -/
def initTrampoline (platform : Platform) (features : CpuFeatures) (call : TrampolineCall) :
    Exec CoreState TrampolineFault Unit := do
  ofCore (initTrampolineStackChecks call.stack)
  ofCore (unwrap (utilUpdateAddPaging platform features true [imageRange] [.dataFlags]))
  ofCore (forEach call.uefiMap (checkDescriptor platform.profile))
  let first ← ofCore (attempt (currentGetAddr platform features trampTarget))
  let last ← ofCore (attempt (currentGetAddr platform features (trampTarget + imageLength)))
  match first, last with
  | some first, some last =>
      if trampTarget ≠ first ∨ trampTarget + imageLength ≠ last then
        fault (.notSupported "The scope of influence must be a 1:1 mapping.")
      else
        let fresh ← ofCore isFresh
        let safety ← ofCore (loadWord trampTarget)
        if !call.overWrite && (fresh || safety = magic) then
          fault (.internalError "It has already been created.")
        else
          ofCore (copyImage call.code)
          let fresh ← ofCore isFresh
          let safety ← ofCore (loadWord trampTarget)
          if !(fresh && safety = magic) then
            fault (.internalError "The health check failed.")
          else
            let flags ← ofCore (loadWord argsFlags)
            ofCore (storeWord argsFlags
              ((flags &&& ~~~0xFF) ||| flagByte features.nx features.pml5))
            ofCore (storeWord argsStack call.stackPtr)
            ofCore (storeWord argsTarget call.entryPoint)
            let cr3 ← ofCore (read CoreState.cr3)
            ofCore (storeWord argsPmlAddr (BitVec.ofNat 64 cr3))
            ofCore (storeWord argsCr4 call.cr4)
  | _, _ => ofCore (raise .invalidData "Mapping is required.")

/-! ## Physical memory -/

section Physical

variable {words : TableWords} {memory : TableMemory} {state after : CoreState}

theorem ends_ofCore {α : Type} {program : Core α} {ok : α → CoreState → Prop}
    {fail : TrampolineFault → CoreState → Prop} :
    Ends (ofCore program) state ok fail ↔
      Ends program state ok fun reason after => fail (.core reason) after := by
  unfold Ends ofCore
  rcases program state with ⟨_ | _, _⟩ <;> rfl

theorem physical_setEntry (index : Nat) (value : Word) :
    physical (memory.setEntry (4096 * (index / 512))
        ⟨index % 512, Nat.mod_lt _ (Nat.zero_lt_succ _)⟩ value).words =
      Function.update (physical memory.words) index value := by
  funext other
  by_cases same : other = index
  · subst same
    rw [Function.update_self, physical, TableMemory.setEntry_words_self]
  · rw [Function.update_of_ne same, physical, physical]
    by_cases frame : other / 512 = index / 512
    · rw [frame, TableMemory.setEntry_words_of_ne_index]
      intro offset
      have values := Fin.mk.inj offset
      omega
    · rw [TableMemory.setEntry_words_of_ne (by omega)]

/-- The tables in physical memory are those of the frames. -/
theorem tables_physical {frame : Nat} (aligned : 4096 ∣ frame) :
    (physical words).tables frame = words frame := by
  obtain ⟨number, rfl⟩ := aligned
  funext index
  have bound := index.isLt
  have frame : (4096 * number / 8 + index.val) / 512 = number := by omega
  have offset : (4096 * number / 8 + index.val) % 512 = index.val := by omega
  simp only [Quadwords.tables, physical, frame, offset]

end Physical

/-! ## The installed image -/

/-- Physical memory with the image. -/
def imageMemory (code : Nat → Word) (memory : Quadwords) : Quadwords := fun index =>
  if trampTarget ≤ 8 * index ∧ 8 * index < trampTarget + imageLength then
    imageWord code (8 * index)
  else memory index

/-- The arguments that a call leaves in the image. -/
def TrampolineCall.args (call : TrampolineCall) (features : CpuFeatures) (cr3 : Nat) : Args where
  pmlAddr := BitVec.ofNat 64 cr3
  stack := call.stackPtr
  target := call.entryPoint
  cr4 := call.cr4
  nx := features.nx
  la57 := features.pml5

/-- Physical memory with the image and the arguments. -/
def argsMemory (args : Args) (memory : Quadwords) : Quadwords :=
  Function.update (Function.update (Function.update (Function.update (Function.update memory
    (argsFlags / 8) ((memory (argsFlags / 8) &&& ~~~0xFF) ||| flagByte args.nx args.la57))
    (argsStack / 8) args.stack) (argsTarget / 8) args.target) (argsPmlAddr / 8) args.pmlAddr)
    (argsCr4 / 8) args.cr4

/-- The image and the arguments are what the other processors read. -/
theorem loaded_installed (args : Args) (code : Nat → Word) (memory : Quadwords) :
    Ap.Loaded args (argsMemory args (imageMemory code memory)) where
  pmlAddr := rfl
  stack := rfl
  target := rfl
  cr4 := rfl
  flags := by
    have byte : ∀ nx la57, Ap.low .w8 (((0b10 : Word) &&& ~~~0xFF) ||| flagByte nx la57) =
        flagByte nx la57 := by decide
    exact byte args.nx args.la57
  p5Entry := rfl
  p4Entry := rfl
  pdptEntry := rfl
  pdEntry := rfl

section Spec

variable {platform : Platform} {features : CpuFeatures} {call : TrampolineCall}
  {state after : CoreState}

/-- A core whose memory alone has changed. -/
structure Rewritten (before after : CoreState) (memory : Quadwords) : Prop where
  cr3 : after.cr3 = before.cr3
  pageTable : after.pageTable = before.pageTable
  history : after.memory.history = before.memory.history
  memory : physical after.memory.words = memory

theorem Rewritten.storeWord {before : CoreState} {memory : Quadwords}
    (rewritten : Rewritten before state memory) (address : Nat) (value : Word) :
    Ends (storeWord address value) state (fun _ after =>
      Rewritten before after (Function.update memory (address / 8) value)) fun _ _ => True := by
  rw [Trampoline.storeWord, ends_modify]
  refine ⟨rewritten.cr3, rewritten.pageTable, rewritten.history, ?_⟩
  rw [← rewritten.memory]
  exact physical_setEntry _ _

theorem copyImage_ends (code : Nat → Word) {fail : Fault → CoreState → Prop} :
    Ends (copyImage code) state (fun _ after =>
      Rewritten state after (imageMemory code (physical state.memory.words))) fail := by
  rw [copyImage, ends_modify]
  refine ⟨rfl, rfl, rfl, ?_⟩
  funext index
  have address : 4096 * (index / 512) + 8 * (index % 512) = 8 * index := by omega
  simp only [physical, imageMemory, address]

/-- What a call that returns has found and done. -/
structure Installs (platform : Platform) (features : CpuFeatures) (call : TrampolineCall)
    (state middle after : CoreState) : Prop where
  stack : initTrampolineStackChecks call.stack state = (.ok (), state)
  added : utilUpdateAddPaging platform features true [imageRange] [.dataFlags] state =
    (.ok (), middle)
  behind : Resolves platform features middle (trampTarget + imageLength)
  once : call.overWrite = true ∨ physical middle.memory.words (trampTarget / 8) ≠ magic
  rewritten : Rewritten middle after (argsMemory (call.args features middle.cr3)
    (imageMemory call.code (physical middle.memory.words)))

theorem initTrampolineStackChecks_ends (stack : List Word) :
    Ends (initTrampolineStackChecks stack) state (fun _ after => after = state)
      fun _ _ => True := by
  rw [initTrampolineStackChecks]
  split
  · trivial
  · split
    · trivial
    · rfl

theorem checkDescriptor_ends (profile : Profile) (descriptor : MemoryDescriptor) :
    Ends (checkDescriptor profile descriptor) state (fun _ after => after = state)
      fun _ _ => True := by
  rw [checkDescriptor, ends_bind, ends_ofOption]
  refine ⟨fun size _ => ?_, fun _ => trivial⟩
  rw [ends_bind, ends_ofOption]
  refine ⟨fun memEnd _ => ?_, fun _ => trivial⟩
  split
  · trivial
  · rfl

/-- The lookup of an address changes nothing. -/
theorem attempt_getAddr_ends (address : Nat) :
    Ends (attempt (currentGetAddr platform features address)) state
      (fun found after => after = state ∧
        ∀ value, found = some value →
          currentGetAddr platform features address state = (.ok value, state))
      fun _ _ => True := by
  have unchanged : (currentGetAddr platform features address state).2 = state := by
    rw [currentGetAddr_eq]
  rw [attempt, ends_handle, ends_bind]
  refine (ends_run _ _).mono ?_ ?_
  · intro value after run
    rw [run] at unchanged
    obtain rfl : after = state := unchanged
    refine ⟨rfl, ?_⟩
    rintro _ ⟨⟩
    exact run
  · intro reason after run
    rw [run] at unchanged
    obtain rfl : after = state := unchanged
    cases reason with
    | panic => trivial
    | err error => exact ⟨rfl, nofun⟩

/-- The five fields of a fresh image, in physical memory. -/
def freshImage (memory : Quadwords) : Bool :=
  memory (argsPmlAddr / 8) = 0x56 && memory (argsStack / 8) = 0x72 &&
    memory (argsTarget / 8) = 0x85 && memory ((trampTarget + 32) / 8) = 0x95 &&
    memory (argsFlags / 8) &&& 0xFF = 0b10

theorem isFresh_run (state : CoreState) :
    isFresh state = (.ok (freshImage (physical state.memory.words)), state) := rfl

theorem freshImage_imageMemory (code : Nat → Word) (memory : Quadwords) :
    freshImage (imageMemory code memory) = true := by
  have fields : imageMemory code memory (argsPmlAddr / 8) = 0x56 ∧
      imageMemory code memory (argsStack / 8) = 0x72 ∧
      imageMemory code memory (argsTarget / 8) = 0x85 ∧
      imageMemory code memory ((trampTarget + 32) / 8) = 0x95 ∧
      imageMemory code memory (argsFlags / 8) = 0b10 := ⟨rfl, rfl, rfl, rfl, rfl⟩
  obtain ⟨pmlAddr, stack, target, frarg, flags⟩ := fields
  rw [freshImage, pmlAddr, stack, target, frarg, flags]
  decide

theorem initTrampoline_ends :
    Ends (initTrampoline platform features call) state
      (fun _ after => ∃ middle, Installs platform features call state middle after)
      fun _ _ => True := by
  rw [initTrampoline, ends_bind, ends_ofCore]
  refine ((ends_run _ _).and (initTrampolineStackChecks_ends _)).mono ?_ fun _ _ _ => trivial
  rintro _ _ ⟨stack, rfl⟩
  rw [ends_bind, ends_ofCore, unwrap, ends_handle]
  refine (ends_run _ _).mono ?_ fun _ _ _ => trivial
  intro _ middle added
  rw [ends_bind, ends_ofCore]
  have scanned : Ends (forEach call.uefiMap (checkDescriptor platform.profile)) middle
      (fun _ after => after = middle) fun _ _ => True :=
    forEach_ends (fun _ current => current = middle) rfl fun _ descriptor _ _ _ same =>
      same ▸ checkDescriptor_ends _ descriptor
  refine scanned.mono ?_ fun _ _ _ => trivial
  rintro _ _ rfl
  rw [ends_bind, ends_ofCore]
  refine (attempt_getAddr_ends _).mono ?_ fun _ _ _ => trivial
  rintro first _ ⟨rfl, -⟩
  rw [ends_bind, ends_ofCore]
  refine (attempt_getAddr_ends _).mono ?_ fun _ _ _ => trivial
  rintro last middle ⟨rfl, found⟩
  split
  case h_2 => trivial
  rename_i first last
  split
  · trivial
  rename_i identity
  obtain ⟨-, behind⟩ := not_or.mp identity
  have resolves : Resolves platform features middle (trampTarget + imageLength) := by
    have returned := found last rfl
    rwa [← not_not.mp behind] at returned
  rw [ends_bind, ends_ofCore, ends_of_run (isFresh_run _), ends_bind, ends_ofCore, loadWord,
    ends_read]
  split
  · trivial
  rename_i allowed
  rw [ends_bind, ends_ofCore]
  refine (copyImage_ends _).mono ?_ fun _ _ failed => failed
  intro _ copied image
  rw [ends_bind, ends_ofCore, ends_of_run (isFresh_run _), ends_bind, ends_ofCore, ends_read]
  split
  · trivial
  rw [ends_bind, ends_ofCore, loadWord, ends_read, ends_bind, ends_ofCore]
  refine (image.storeWord _ _).mono ?_ fun _ _ _ => trivial
  intro _ flagged first
  rw [ends_bind, ends_ofCore]
  refine (first.storeWord _ _).mono ?_ fun _ _ _ => trivial
  intro _ stacked second
  rw [ends_bind, ends_ofCore]
  refine (second.storeWord _ _).mono ?_ fun _ _ _ => trivial
  intro _ targeted third
  rw [ends_bind, ends_ofCore, ends_read, ends_bind, ends_ofCore]
  refine (third.storeWord _ _).mono ?_ fun _ _ _ => trivial
  intro _ tabled fourth
  rw [ends_ofCore]
  refine (fourth.storeWord _ _).mono ?_ fun _ _ _ => trivial
  intro _ after last
  refine ⟨_, stack, added, resolves, ?_, ?_⟩
  · simp only [Bool.and_eq_true, Bool.not_eq_true', Bool.or_eq_true, decide_eq_true_eq] at allowed
    by_cases overWrite : call.overWrite = true
    · exact .inl overWrite
    · exact .inr fun safety => allowed ⟨by simpa using overWrite, .inr safety⟩
  · rw [image.memory, third.cr3] at last
    exact last

end Spec

/-! ## When it returns -/

/-- No runtime service of the firmware uses the memory of the image. -/
def Unused (descriptor : MemoryDescriptor) : Prop :=
  descriptor.physStart + descriptor.pageCount * 4096 < 2 ^ 64 ∧
    ¬ (descriptor.physStart < trampTarget + imageLength ∧
      trampTarget < descriptor.physStart + descriptor.pageCount * 4096 ∧
      (descriptor.ty = .runtimeServicesCode ∨ descriptor.ty = .other 6))

section Returns

variable {platform : Platform} {features : CpuFeatures} {call : TrampolineCall}
  {state middle : CoreState}

theorem checkDescriptor_run (profile : Profile) {descriptor : MemoryDescriptor}
    (unused : Unused descriptor) :
    Ends (checkDescriptor profile descriptor) state (fun _ after => after = state)
      fun _ _ => False := by
  obtain ⟨bounded, free⟩ := unused
  have size : uintMul 64 profile descriptor.pageCount 4096 =
      some (descriptor.pageCount * 4096) := uintMul_of_lt profile (by omega)
  rw [checkDescriptor, size, ends_bind, ofOption, ends_pure, uintAdd_of_lt profile bounded,
    ends_bind, ofOption, ends_pure, if_neg free]
  rfl

theorem attempt_getAddr_run {address : Nat} (resolves : Resolves platform features state address) :
    attempt (currentGetAddr platform features address) state = (.ok (some address), state) := by
  have ends : Ends (attempt (currentGetAddr platform features address)) state
      (fun found after => (found, after) = (some address, state)) fun _ _ => False := by
    rw [attempt, ends_handle, ends_bind, ends_of_run resolves]
    rfl
  obtain ⟨found, after, run, same⟩ := ends.exists_ok fun _ _ => id
  rw [run, Prod.mk.inj same |>.1, Prod.mk.inj same |>.2]

/-- A call that finds nothing to complain about returns. -/
theorem initTrampoline_returns
    (stack : initTrampolineStackChecks call.stack state = (.ok (), state))
    (added : utilUpdateAddPaging platform features true [imageRange] [.dataFlags] state =
      (.ok (), middle))
    (unused : ∀ descriptor ∈ call.uefiMap, Unused descriptor)
    (start : Resolves platform features middle trampTarget)
    (behind : Resolves platform features middle (trampTarget + imageLength))
    (absent : call.overWrite = true ∨ freshImage (physical middle.memory.words) = false ∧
      physical middle.memory.words (trampTarget / 8) ≠ magic) :
    ∃ after, initTrampoline platform features call state = (.ok (), after) := by
  have ends : Ends (initTrampoline platform features call) state (fun _ _ => True)
      fun _ _ => False := by
    rw [initTrampoline, ends_bind, ends_ofCore, ends_of_run stack, ends_bind, ends_ofCore, unwrap,
      ends_handle, ends_of_run added, ends_bind, ends_ofCore]
    have scanned : Ends (forEach call.uefiMap (checkDescriptor platform.profile)) middle
        (fun _ after => after = middle) fun _ _ => False :=
      forEach_ends (fun _ current => current = middle) rfl fun done descriptor rest _ split same =>
        same ▸ checkDescriptor_run _ (unused descriptor (by simp [split]))
    refine scanned.mono ?_ fun _ _ failed => failed
    rintro _ _ rfl
    rw [ends_bind, ends_ofCore, ends_of_run (attempt_getAddr_run start), ends_bind, ends_ofCore,
      ends_of_run (attempt_getAddr_run behind)]
    simp only [ne_eq, not_true_eq_false, or_self, if_false]
    rw [ends_bind, ends_ofCore, ends_of_run (isFresh_run _), ends_bind, ends_ofCore, loadWord,
      ends_read, if_neg]
    · rw [ends_bind, ends_ofCore]
      refine (copyImage_ends _).mono ?_ fun _ _ failed => failed
      intro _ copied image
      have safety : ∀ memory, imageMemory call.code memory (trampTarget / 8) = magic :=
        fun _ => rfl
      rw [ends_bind, ends_ofCore, ends_of_run (isFresh_run _), ends_bind, ends_ofCore, ends_read,
        image.memory, freshImage_imageMemory, safety, if_neg (by simp)]
      simp only [loadWord, storeWord, ends_bind, ends_ofCore, ends_read, ends_modify]
    · rcases absent with overWrite | ⟨fresh, magic⟩
      · simp [overWrite]
      · simp [fresh, magic]
  obtain ⟨_, after, run, -⟩ := ends.exists_ok fun _ _ => id
  exact ⟨after, run⟩

end Returns

end Okots.Trampoline
