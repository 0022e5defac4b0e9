import Okots.Result
import Okots.Paging.Hardware
import Okots.Paging.Normalize
import Mathlib.Data.Finset.Insert
import Mathlib.Data.Finset.Erase

/-!
# Building, updating and freeing page tables

The functions of the paging module over an explicit memory of table frames.  Frames come from the
kernel allocator, whose answers are a parameter; its history is kept, so that leaks, double frees
and uses after free are statements about a run.  The default feature set is modelled: the list
checks at the entry of `create_page_table` are on, the repeated ones inside the recursion are off.
-/

namespace Okots

open StateExec Exec

/-! ## Table frames -/

/-- One request served by the frame allocator. -/
inductive FrameEvent where
  | alloc (frame : Nat)
  | dealloc (frame : Nat)
  deriving DecidableEq, Repr

/-- Frames allocated and not yet deallocated; the history lists the newest event first. -/
def liveFrames : List FrameEvent → Finset Nat
  | [] => ∅
  | .alloc frame :: history => insert frame (liveFrames history)
  | .dealloc frame :: history => (liveFrames history).erase frame

/-- The kernel allocator, asked for 4096 bytes aligned to 4096. Its answer may depend on every
earlier request; `none` is a null pointer. -/
structure FrameAllocator where
  /-- `alloc_zeroed`. -/
  allocZeroed : List FrameEvent → Option Nat
  /-- What a frame holds once it has been given back. -/
  leftover : List FrameEvent → Nat → Fin 512 → BitVec 64
  fresh : ∀ history frame, allocZeroed history = some frame → frame ∉ liveFrames history
  aligned : ∀ history frame, allocZeroed history = some frame → 4096 ∣ frame
  bounded : ∀ history frame, allocZeroed history = some frame → frame < 2 ^ 52
  nonNull : ∀ history frame, allocZeroed history = some frame → 0 < frame

/-- What the paging code is compiled with and runs on. -/
structure Platform where
  /-- Build profile. -/
  profile : Profile
  /-- Sorting routine of the standard library. -/
  sort : UnstableSort
  /-- Architecture crates. -/
  crates : X86Crates
  /-- Frame allocator. -/
  allocator : FrameAllocator

/-- Memory of the table frames. -/
structure TableMemory where
  /-- Entries of every frame. -/
  words : TableWords
  /-- Requests made to the frame allocator, newest first. -/
  history : List FrameEvent

namespace TableMemory

/-- Frames currently allocated. -/
def live (memory : TableMemory) : Finset Nat := liveFrames memory.history

/-- Replace the contents of a frame. -/
def setFrame (memory : TableMemory) (frame : Nat) (contents : Fin 512 → BitVec 64) :
    TableMemory :=
  { memory with words := Function.update memory.words frame contents }

/-- Write one entry. -/
def setEntry (memory : TableMemory) (table : Nat) (index : Fin 512) (entry : BitVec 64) :
    TableMemory :=
  memory.setFrame table (Function.update (memory.words table) index entry)

/-- Record a request to the allocator. -/
def record (memory : TableMemory) (event : FrameEvent) : TableMemory :=
  { memory with history := event :: memory.history }

section Updates

variable {memory : TableMemory} {table frame : Nat} {index other : Fin 512} {entry : BitVec 64}

@[simp]
theorem setFrame_history (contents : Fin 512 → BitVec 64) :
    (memory.setFrame frame contents).history = memory.history := rfl

@[simp]
theorem setEntry_history : (memory.setEntry table index entry).history = memory.history := rfl

@[simp]
theorem record_words (event : FrameEvent) : (memory.record event).words = memory.words := rfl

@[simp]
theorem record_history (event : FrameEvent) :
    (memory.record event).history = event :: memory.history := rfl

@[simp]
theorem setFrame_words_self (contents : Fin 512 → BitVec 64) :
    (memory.setFrame frame contents).words frame = contents := by
  simp [setFrame]

theorem setFrame_words_of_ne (contents : Fin 512 → BitVec 64) (distinct : table ≠ frame) :
    (memory.setFrame frame contents).words table = memory.words table :=
  Function.update_of_ne distinct _ _

@[simp]
theorem setEntry_words_self : (memory.setEntry table index entry).words table index = entry := by
  simp [setEntry]

theorem setEntry_words_of_ne_index (distinct : other ≠ index) :
    (memory.setEntry table index entry).words table other = memory.words table other := by
  simp [setEntry, distinct]

theorem setEntry_words_of_ne (distinct : frame ≠ table) :
    (memory.setEntry table index entry).words frame = memory.words frame :=
  setFrame_words_of_ne _ distinct

theorem setEntry_of_eq (same : memory.words table index = entry) :
    memory.setEntry table index entry = memory := by
  rw [setEntry, setFrame, ← same, Function.update_eq_self, Function.update_eq_self]

end Updates

end TableMemory

/-- Paging functions. -/
abbrev Paging (α : Type) := Kernel TableMemory α

/-- `alloc_zeroed(layout)`, with the null pointer reported as an error. -/
def allocTable (platform : Platform) : Paging Nat := fun memory =>
  match platform.allocator.allocZeroed memory.history with
  | some frame => (.ok frame, (memory.setFrame frame fun _ => 0).record (.alloc frame))
  | none => raise .allocationFailed "Allocation failed" memory

/-- `dealloc(ptr, layout)`. -/
def deallocTable (platform : Platform) (frame : Nat) : Paging Unit := modify fun memory =>
  (memory.setFrame frame (platform.allocator.leftover memory.history frame)).record
    (.dealloc frame)

/-- Read an entry. -/
def loadEntry (table : Nat) (index : Fin 512) : Paging (BitVec 64) :=
  read fun memory => memory.words table index

/-- Write an entry. -/
def storeEntry (table : Nat) (index : Fin 512) (entry : BitVec 64) : Paging Unit :=
  modify fun memory => memory.setEntry table index entry

/-- The indices of a table, in order. -/
def entryIndices : List (Fin 512) := List.finRange 512

theorem nodup_entryIndices : entryIndices.Nodup := List.nodup_finRange 512

theorem mem_entryIndices (index : Fin 512) : index ∈ entryIndices := List.mem_finRange index

theorem length_entryIndices : entryIndices.length = 512 := List.length_finRange

attribute [irreducible] entryIndices

/-- The indices before the current one are other indices, and fewer than 512. -/
theorem entryIndices_split {done rest : List (Fin 512)} {index : Fin 512}
    (split : entryIndices = done ++ index :: rest) : index ∉ done ∧ done.length < 512 := by
  have nodup := split ▸ nodup_entryIndices
  have length := congrArg List.length split
  rw [length_entryIndices, List.length_append, List.length_cons] at length
  exact ⟨fun earlier => (List.nodup_append.mp nodup).2.2 index earlier index List.mem_cons_self rfl,
    by omega⟩

/-! ## Selecting ranges -/

/-- The test `m.start() < range_vend && m.end() > range_vstart`. The end of a range is computed only
when its start is below `rangeVend`. -/
def rangeMeets (profile : Profile) (rangeVstart rangeVend : Nat) (map : MemRangeData) :
    Option Bool :=
  if map.start < rangeVend then
    (map.end? profile).map fun mapEnd => decide (mapEnd > rangeVstart)
  else
    some false

/-- The ranges that meet `[rangeVstart, rangeVend)`: `sub_map` and `sub_flags`. -/
def subMaps (profile : Profile) (rangeVstart rangeVend : Nat) :
    List Mapping → Option (List Mapping)
  | [] => some []
  | map :: rest => do
      let meets ← rangeMeets profile rangeVstart rangeVend map.1
      let subRest ← subMaps profile rangeVstart rangeVend rest
      return if meets then map :: subRest else subRest

/-- `can_be_huge`; the end of a selected range has already been computed without a panic. -/
def canBeHuge (level allowHuge : PageLevel) (rangeVstart rangeVend : Nat) (sub : List Mapping) :
    Option PageEntryFlags :=
  match sub with
  | [(map, flags)] =>
      if level ≠ .pt ∧ level ≤ allowHuge ∧ map.start ≤ rangeVstart ∧
          map.wrappedEnd ≥ rangeVend then
        some flags
      else
        none
  | _ => none

/-! ## Creation -/

/-- The body of the loop of `create_recursive`.  `lower` is `level.down()` with the recursive
call. -/
def createEntry (platform : Platform) (allowHuge level : PageLevel)
    (lower : Option (PageLevel × (Nat → List Mapping → Paging Nat))) (tablePtr vaddrBase : Nat)
    (maps : List Mapping) (idx : Fin 512) : Paging Unit := do
  let rangeVstart := vaddrBase + idx * level.entrySize
  let rangeVend := rangeVstart + level.entrySize
  let sub ← ofOption .panic (subMaps platform.profile rangeVstart rangeVend maps)
  match sub with
  | [] => pure ()
  | first :: _ =>
      match canBeHuge level allowHuge rangeVstart rangeVend sub with
      | some flags =>
          let rawEntry ← ofOption .panic (createHugeEntry platform.crates level rangeVstart flags)
          storeEntry tablePtr idx rawEntry
      | none =>
          match lower with
          | some (_, createNext) =>
              let nextTable ← handle (createNext rangeVstart sub) fun reason =>
                match reason with
                | .panic => fault .panic
                | .err error => do
                    deallocTable platform tablePtr
                    fault (.err (error.fromSelf (some "failed to create recursive")))
              let rawEntry ← ofOption .panic (generateRelayEntry platform.crates level nextTable)
              storeEntry tablePtr idx rawEntry
          | none =>
              let rawEntry ← ofOption .panic (pageEntry platform.crates rangeVstart first.2)
              storeEntry tablePtr idx rawEntry

/-- One level of `create_recursive`. -/
def createTable (platform : Platform) (allowHuge level : PageLevel)
    (lower : Option (PageLevel × (Nat → List Mapping → Paging Nat))) (vaddrBase : Nat)
    (maps : List Mapping) : Paging Nat := do
  let tablePtr ← allocTable platform
  forEach entryIndices (createEntry platform allowHuge level lower tablePtr vaddrBase maps)
  return tablePtr

/-- `create_recursive`, on the zipped lists. -/
def createRecursive (platform : Platform) (vaddrBase : Nat) (level : PageLevel)
    (maps : List Mapping) (allowHuge : PageLevel) : Paging Nat :=
  level.descend (createTable platform allowHuge) vaddrBase maps

/-- `TopPageTable`. -/
structure TopPageTable where
  /-- Physical address of the top table. -/
  phys : Nat
  /-- Virtual address of the top table. -/
  virt : Nat
  /-- Level of the top table. -/
  level : PageLevel
  /-- Updates since the tree was last built, as counted by the update code. -/
  pageFragmentationLevel : Nat
  /-- The list the tree was built from. -/
  memoryMapping : List MemRangeData × List PageEntryFlags

/-- `create_page_table`. The normalized lists, which the source leaves in its arguments, are the
`memoryMapping` of the result. -/
def createPageTable (platform : Platform) (mapList : List MemRangeData)
    (flags : List PageEntryFlags) (allowHugeAt target : PageLevel) : Paging TopPageTable := do
  if mapList.length ≠ flags.length then
    raise .invalidData "map_list length is not eq to flags"
  else if mapList.any fun map => decide (¬ 4096 ∣ map.len ∨ ¬ 4096 ∣ map.start) then
    raise .invalidData "map data align/size align is need 4096, but not 4096"
  else
    let (maps', flags') ← ofOption .panic
      (normalizeMapList platform.profile platform.sort mapList flags)
    if target = .pml5 ∨ target = .pml4 then
      let tableAddr ← createRecursive platform 0 target (maps'.zip flags') allowHugeAt
      let phys ← ofOption .panic (platform.crates.physAddrNew tableAddr)
      let virt ← ofOption .panic (platform.crates.virtAddrNew phys)
      return { phys, virt, level := target, pageFragmentationLevel := 0
               memoryMapping := (maps', flags') }
    else
      raise .invalidData "Invalid target level"

/-! ## Release -/

/-- The loop of `dealloc_recursive`, entered unless the level has no lower one. -/
def deallocChildren (platform : Platform) (lower : Option (PageLevel × (Nat → Paging Unit)))
    (target : Nat) : Paging Unit :=
  match lower with
  | some (_, deallocNext) =>
      forEach entryIndices fun idx => do
        let entry ← loadEntry target idx
        if platform.crates.isPresent entry && !platform.crates.isHugePage entry then
          deallocNext (platform.crates.entryAddr entry)
        else
          pure ()
  | none => pure ()

/-- One level of `dealloc_recursive`. -/
def deallocLevel (platform : Platform) (_level : PageLevel)
    (lower : Option (PageLevel × (Nat → Paging Unit))) (target : Nat) : Paging Unit := do
  deallocChildren platform lower target
  deallocTable platform target

/-- `dealloc_recursive`. -/
def deallocRecursive (platform : Platform) (target : Nat) (level : PageLevel) : Paging Unit :=
  level.descend (deallocLevel platform) target

/-- `dealloc_all`. -/
def deallocAll (platform : Platform) (map : TopPageTable) : Paging Unit :=
  deallocRecursive platform map.virt map.level

/-- `free_not_used_paging`. -/
def freeNotUsedPaging (platform : Platform) (deallocTarget : List (Nat × PageLevel)) :
    Paging Unit :=
  forEach deallocTarget fun target => deallocRecursive platform target.1 target.2

/-! ## Update -/

/-- All entries continue the first one with equal flags. -/
def allAligned (table : Fin 512 → BitVec 64) (entrySize : Nat) : Bool :=
  entryIndices.tail.all fun idx =>
    table idx &&& flagsMask == table 0 &&& flagsMask &&
      table idx &&& addrMask == (table 0 &&& addrMask) + BitVec.ofNat 64 (idx * entrySize)

/-- The final test of `update_recursive`: the table could be one entry of its parent. -/
def couldBeHuge (level allowHuge : PageLevel) (table : Fin 512 → BitVec 64) : Bool :=
  decide (level ≤ allowHuge) && (table 0).getLsbD 0 &&
    ((table 0).getLsbD 7 || decide (level = .pt)) && allAligned table level.entrySize

/-- Tables detached by an update, with their levels, and the count of tables found mergeable:
`tmp_vec` and `frlevel`. -/
abbrev Detached := List (Nat × PageLevel) × Nat

/-- Push the table of an entry found to be a relay. -/
def detachWhen (found : Bool) (level : PageLevel) (entry : BitVec 64) (tmpVec : Detached) :
    Paging Detached :=
  if found then do
    let nextLevel ← ofOption .panic level.down
    return (tmpVec.1 ++ [(tableBase entry, nextLevel)], tmpVec.2)
  else
    return tmpVec

/-- The body of the loop of `update_recursive`.  `lower` is `level.down()` with the recursive
call. -/
def updateEntry (platform : Platform) (allowHuge level : PageLevel)
    (lower : Option (PageLevel × (Nat → Nat → List Mapping → Detached → Paging Detached)))
    (tablePtr vaddrBase : Nat) (maps : List Mapping) (tmpVec : Detached) (idx : Fin 512) :
    Paging Detached := do
  let rangeVstart := vaddrBase + idx * level.entrySize
  let rangeVend := rangeVstart + level.entrySize
  let sub ← ofOption .panic (subMaps platform.profile rangeVstart rangeVend maps)
  let currentEntry ← loadEntry tablePtr idx
  let isPresent := currentEntry.getLsbD 0
  let isHuge := currentEntry.getLsbD 7
  match sub with
  | [] =>
      if isPresent then
        let tmpVec ← detachWhen (!isHuge && decide (level ≠ .pt)) level currentEntry tmpVec
        storeEntry tablePtr idx 0
        return tmpVec
      else
        return tmpVec
  | first :: _ =>
      match canBeHuge level allowHuge rangeVstart rangeVend sub with
      | some flags =>
          let targetEntry ← ofOption .panic
            (generateHugeEntry platform.crates level rangeVstart flags)
          if currentEntry ≠ targetEntry then
            let tmpVec ← detachWhen (isPresent && !isHuge) level currentEntry tmpVec
            storeEntry tablePtr idx targetEntry
            return tmpVec
          else
            return tmpVec
      | none =>
          match lower with
          | some (nextLevel, updateNext) =>
              if isPresent && !isHuge then
                let nextPtr := tableBase currentEntry
                let tmpVec ← updateNext nextPtr rangeVstart sub tmpVec
                let rawEntry ← ofOption .panic (generateRelayEntry platform.crates level nextPtr)
                storeEntry tablePtr idx rawEntry
                return tmpVec
              else
                let nextPtr ← createRecursive platform rangeVstart nextLevel sub allowHuge
                let rawEntry ← ofOption .panic (generateRelayEntry platform.crates level nextPtr)
                storeEntry tablePtr idx rawEntry
                return tmpVec
          | none =>
              let rawEntry ← ofOption .panic (pageEntry platform.crates rangeVstart first.2)
              storeEntry tablePtr idx rawEntry
              return tmpVec

/-- One level of `update_recursive`. -/
def updateTable (platform : Platform) (allowHuge level : PageLevel)
    (lower : Option (PageLevel × (Nat → Nat → List Mapping → Detached → Paging Detached)))
    (tablePtr vaddrBase : Nat) (maps : List Mapping) (tmpVec : Detached) : Paging Detached := do
  let tmpVec ← foldEach entryIndices tmpVec
    (updateEntry platform allowHuge level lower tablePtr vaddrBase maps)
  let table ← read fun memory => memory.words tablePtr
  return if couldBeHuge level allowHuge table then (tmpVec.1, tmpVec.2 + 1) else tmpVec

/-- `update_recursive`, on the zipped lists. -/
def updateRecursive (platform : Platform) (tablePtr vaddrBase : Nat) (level : PageLevel)
    (maps : List Mapping) (allowHuge : PageLevel) (tmpVec : Detached) : Paging Detached :=
  level.descend (updateTable platform allowHuge) tablePtr vaddrBase maps tmpVec

/-- `CLEAN_RECREATE_FRAGMENT_LEVEL`. -/
def cleanRecreateFragmentLevel : Nat := 512

/-- `update_paging`: the updated top table and the tables to release. -/
def updatePaging (platform : Platform) (top : TopPageTable) (newMapList : List MemRangeData)
    (newFlags : List PageEntryFlags) (allowHugeAt : PageLevel) :
    Paging (TopPageTable × List (Nat × PageLevel)) := do
  let (maps', flags') ← ofOption .panic
    (normalizeMapList platform.profile platform.sort newMapList newFlags)
  if top.pageFragmentationLevel ≥ cleanRecreateFragmentLevel then
    let tmpLevel ← ofOption .panic top.level.down
    let tmp ← createPageTable platform maps' flags' allowHugeAt top.level
    let buf ← foldEach entryIndices [] fun buf idx => do
      let entry ← loadEntry tmp.virt idx
      storeEntry top.virt idx entry
      return if platform.crates.isPresent entry then
        buf ++ [(platform.crates.entryAddr entry, tmpLevel)]
      else
        buf
    deallocTable platform tmp.virt
    return ({ top with pageFragmentationLevel := 0 }, buf)
  else
    let (buf, _) ← updateRecursive platform top.virt 0 top.level (maps'.zip flags') allowHugeAt
      ([], 0)
    return ({ top with memoryMapping := (maps', flags') }, buf)

end Okots
