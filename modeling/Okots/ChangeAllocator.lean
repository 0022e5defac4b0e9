import Mathlib.Data.Finset.Card
import Mathlib.Order.Interval.Finset.Nat
import Okots.Boot
import Okots.PhysicalAllocator

/-!
# Collecting memory for the kernel's heap

`Main::change_allocator` takes memory from the firmware and gives it to the talc heap.  It asks for
the same size again after a success and for half of it after a failure, until the size is too small.
The firmware answers as it likes, as long as the pages it returns were free.
-/

namespace Okots

open TransitionSystem

def allocatorFirstCreateSizeOptionMaxAllocateSize : Nat := 1024 * 1024 * 1024 * 2

def allocatorFirstCreateSizeOptionMinAllocateSize : Nat := 4096 * 2

/-- `MemoryType::CONVENTIONAL`. -/
def MemoryType.conventional : MemoryType := .other 7

/-- The bytes of conventional memory, added to `value`. -/
def conventionalBytes (profile : Profile) : List MemoryDescriptor → Nat → Option Nat
  | [], value => some value
  | entry :: rest, value =>
      if entry.ty ≠ .conventional then
        conventionalBytes profile rest value
      else do
        let bytes ← uintMul 64 profile entry.pageCount 4096
        let sum ← uintAdd 64 profile value bytes
        conventionalBytes profile rest sum

/-- The loop of `change_allocator`, with the pages that the firmware has left. -/
structure Collection (υ τ : Type*) where
  free : Finset Nat
  currentAttemptSize : Nat
  allocator : OsPhysicalAllocator υ τ
  /-- The ranges that were passed to `add_target_to_os_alloc`. -/
  ranges : List MemRangeData
  finished : Bool

namespace Collection

variable {υ τ : Type*} (claim : MemRangeData → τ → τ)

/-- The state before the loop. -/
def start (profile : Profile) (map : List MemoryDescriptor) (free : Finset Nat)
    (allocator : OsPhysicalAllocator υ τ) : Option (Collection υ τ) :=
  (conventionalBytes profile map 0).map fun value =>
    { free, allocator, ranges := [], finished := false
      currentAttemptSize := min allocatorFirstCreateSizeOptionMaxAllocateSize value }

def requestSize (state : Collection υ τ) : Nat := state.currentAttemptSize &&& pageMask

def pages (state : Collection υ τ) : Nat := state.requestSize / 4096

/-- What `allocate_pages` may answer: a failure, or the first of as many free pages as were asked
for.  A request for no pages fails. -/
def Allowed (state : Collection υ τ) : Option Nat → Prop
  | none => True
  | some first => state.pages ≠ 0 ∧ Finset.Ico first (first + state.pages) ⊆ state.free

instance (state : Collection υ τ) (answer : Option Nat) : Decidable (state.Allowed answer) :=
  match answer with
  | none => .isTrue trivial
  | some _ => inferInstanceAs (Decidable (_ ∧ _))

/-- The size after a failed request: half of it, and at least a page. -/
def nextAttemptSize (currentAttemptSize : Nat) : Nat :=
  let halved := currentAttemptSize / 2
  if halved < 4096 then 4096 else halved

/-- One iteration.  When the size has become too small the loop ends and the switch is turned. -/
def attempt (state : Collection υ τ) : Option Nat → Collection υ τ
  | some first =>
      let range : MemRangeData := ⟨4096 * first, state.requestSize⟩
      { state with
        free := state.free \ Finset.Ico first (first + state.pages)
        allocator := state.allocator.addTargetToOsAlloc claim range
        ranges := state.ranges ++ [range] }
  | none =>
      let next := nextAttemptSize state.currentAttemptSize
      if next < allocatorFirstCreateSizeOptionMinAllocateSize then
        { state with
          currentAttemptSize := next
          allocator := state.allocator.changeToOsAllocator
          finished := true }
      else
        { state with currentAttemptSize := next }

/-- The state after a number of iterations, given the answers of the firmware. -/
def loop (first : Collection υ τ) (answers : Nat → Option Nat) : Nat → Collection υ τ
  | 0 => first
  | count + 1 =>
      let state := loop first answers count
      if state.finished then state else state.attempt claim (answers count)

/-! ## One iteration -/

section Attempt

variable {claim} {state : Collection υ τ}

theorem requestSize_eq (bounded : state.currentAttemptSize < usizeCount) :
    state.requestSize = 4096 * state.pages := by
  rw [pages, requestSize, and_pageMask bounded]
  omega

theorem nextAttemptSize_lt {size : Nat}
    (large : ¬ nextAttemptSize size < allocatorFirstCreateSizeOptionMinAllocateSize) :
    nextAttemptSize size < size := by
  have least : allocatorFirstCreateSizeOptionMinAllocateSize = 8192 := rfl
  simp only [nextAttemptSize] at large ⊢
  by_cases small : size / 2 < 4096
  · rw [if_pos small] at large
    omega
  · rw [if_neg small]
    omega

theorem nextAttemptSize_le {size : Nat}
    (bounded : size ≤ allocatorFirstCreateSizeOptionMaxAllocateSize) :
    nextAttemptSize size ≤ allocatorFirstCreateSizeOptionMaxAllocateSize := by
  have most : allocatorFirstCreateSizeOptionMaxAllocateSize = 2147483648 := rfl
  simp only [nextAttemptSize]
  split <;> omega

/-- A failed request ends the loop or lowers the size. -/
theorem attempt_none (claim : MemRangeData → τ → τ) (state : Collection υ τ) :
    (nextAttemptSize state.currentAttemptSize < allocatorFirstCreateSizeOptionMinAllocateSize ∧
      state.attempt claim none =
        { state with
          currentAttemptSize := nextAttemptSize state.currentAttemptSize
          allocator := state.allocator.changeToOsAllocator
          finished := true }) ∨
    (¬ nextAttemptSize state.currentAttemptSize < allocatorFirstCreateSizeOptionMinAllocateSize ∧
      state.attempt claim none =
        { state with currentAttemptSize := nextAttemptSize state.currentAttemptSize }) := by
  by_cases small : nextAttemptSize state.currentAttemptSize <
      allocatorFirstCreateSizeOptionMinAllocateSize
  · exact .inl ⟨small, if_pos small⟩
  · exact .inr ⟨small, if_neg small⟩

/-- An iteration that does not end the loop takes pages or makes the request smaller. -/
theorem attempt_drops {answer : Option Nat} (allowed : state.Allowed answer)
    (running : (state.attempt claim answer).finished = false) :
    (state.attempt claim answer).free.card + (state.attempt claim answer).currentAttemptSize <
      state.free.card + state.currentAttemptSize := by
  cases answer with
  | some first =>
      obtain ⟨nonzero, inFree⟩ := allowed
      have smaller : state.free \ Finset.Ico first (first + state.pages) ⊂ state.free := by
        refine Finset.sdiff_ssubset inFree ?_
        rw [Finset.nonempty_Ico]
        omega
      have card := Finset.card_lt_card smaller
      simp only [attempt]
      omega
  | none =>
      rcases attempt_none claim state with ⟨-, ended⟩ | ⟨large, again⟩
      · rw [ended] at running
        cases running
      · rw [again]
        exact Nat.add_lt_add_left (nextAttemptSize_lt large) _

end Attempt

/-! ## What has been collected -/

/-- What `add_target_to_os_alloc` claims lies in the range and not below the offset. -/
theorem claimedRange_inside {range claimed : MemRangeData}
    (claims : claimedRange range = some claimed) :
    allocatorAddOffset ≤ claimed.start ∧
      ∀ address, claimed.contains address = true → range.contains address = true := by
  unfold claimedRange at claims
  split at claims
  · rename_i low
    dsimp only at claims
    split at claims
    · cases claims
    · obtain rfl := Option.some.inj claims
      refine ⟨Nat.le_refl _, fun address contained => ?_⟩
      rw [MemRangeData.contains_iff] at contained ⊢
      dsimp only at contained
      omega
  · obtain rfl := Option.some.inj claims
    exact ⟨by omega, fun _ => id⟩

/-- No address is in both ranges. -/
def DisjointRanges (left right : MemRangeData) : Prop :=
  ∀ address, ¬ (left.contains address = true ∧ right.contains address = true)

/-- Invariant of the loop: the ranges are made of pages that were free and are not any more, and the
heap has claimed what is usable of them. -/
structure Collected (heap : τ) (state : Collection υ τ) : Prop where
  bounded : state.currentAttemptSize ≤ allocatorFirstCreateSizeOptionMaxAllocateSize
  aligned : ∀ range ∈ state.ranges, 4096 ∣ range.len
  taken : ∀ range ∈ state.ranges, ∀ address, range.contains address = true →
    address / 4096 ∉ state.free
  disjoint : state.ranges.Pairwise DisjointRanges
  claims : state.allocator.osAllocator =
    (state.ranges.filterMap claimedRange).foldl (fun heap range => claim range heap) heap
  switched : state.finished = true → state.allocator.useOsAlloc.isCompleted = true

section Collected

variable {claim} {heap : τ} {state : Collection υ τ}

theorem Collected.fits (collected : Collected claim heap state) :
    state.currentAttemptSize < usizeCount :=
  Nat.lt_of_le_of_lt collected.bounded (by decide)

theorem collected_start {profile : Profile} {map : List MemoryDescriptor} {free : Finset Nat}
    {allocator : OsPhysicalAllocator υ τ}
    (started : start profile map free allocator = some state) :
    Collected claim allocator.osAllocator state := by
  obtain ⟨value, -, rfl⟩ := Option.map_eq_some_iff.mp started
  exact ⟨Nat.min_le_left _ _, by simp, by simp, .nil, rfl, by simp⟩

/-- The pages of a returned range. -/
theorem mem_Ico_of_contains {first pages address : Nat}
    (contained : MemRangeData.contains ⟨4096 * first, 4096 * pages⟩ address = true) :
    address / 4096 ∈ Finset.Ico first (first + pages) := by
  rw [MemRangeData.contains_iff] at contained
  rw [Finset.mem_Ico]
  dsimp only at contained
  omega

theorem addTarget_osAllocator (allocator : OsPhysicalAllocator υ τ) (range : MemRangeData) :
    (allocator.addTargetToOsAlloc claim range).osAllocator =
      ([range].filterMap claimedRange).foldl (fun heap range => claim range heap)
        allocator.osAllocator := by
  unfold OsPhysicalAllocator.addTargetToOsAlloc
  cases claims : claimedRange range <;> simp [claims]

/-- A successful request adds a range of pages that no earlier range has. -/
theorem Collected.grant (collected : Collected claim heap state)
    (running : state.finished = false) {first : Nat} (allowed : state.Allowed (some first)) :
    Collected claim heap (state.attempt claim (some first)) := by
  obtain ⟨-, inFree⟩ := allowed
  have size := requestSize_eq collected.fits
  have given {address : Nat}
      (contained : MemRangeData.contains ⟨4096 * first, state.requestSize⟩ address = true) :
      address / 4096 ∈ Finset.Ico first (first + state.pages) :=
    mem_Ico_of_contains (size ▸ contained)
  refine ⟨collected.bounded, ?_, ?_, ?_, ?_, fun finished => ?_⟩
  · intro range member
    rcases List.mem_append.mp member with earlier | last
    · exact collected.aligned range earlier
    · rw [List.mem_singleton.mp last]
      exact ⟨state.pages, size⟩
  · intro range member address contained
    rw [attempt, Finset.mem_sdiff, not_and_not_right]
    intro free
    rcases List.mem_append.mp member with earlier | last
    · exact absurd free (collected.taken range earlier address contained)
    · rw [List.mem_singleton.mp last] at contained
      exact given contained
  · refine List.pairwise_append.mpr ⟨collected.disjoint, List.pairwise_singleton _ _, ?_⟩
    rintro range earlier _ last address ⟨inRange, inLast⟩
    rw [List.mem_singleton.mp last] at inLast
    exact collected.taken range earlier address inRange (inFree (given inLast))
  · rw [attempt, addTarget_osAllocator, collected.claims, List.filterMap_append,
      List.foldl_append]
  · cases running.symm.trans finished

/-- A failed request changes the size and perhaps turns the switch. -/
theorem Collected.refuse (collected : Collected claim heap state)
    (running : state.finished = false) : Collected claim heap (state.attempt claim none) := by
  have smaller := nextAttemptSize_le collected.bounded
  rcases attempt_none claim state with ⟨-, ended⟩ | ⟨-, again⟩
  · rw [ended]
    exact ⟨smaller, collected.aligned, collected.taken, collected.disjoint, collected.claims,
      fun _ => rfl⟩
  · rw [again]
    refine ⟨smaller, collected.aligned, collected.taken, collected.disjoint, collected.claims,
      fun finished => ?_⟩
    cases running.symm.trans finished

theorem Collected.loop {first : Collection υ τ} (collected : Collected claim heap first)
    {answers : Nat → Option Nat}
    (allowed : ∀ count, (loop claim first answers count).finished = false →
      (loop claim first answers count).Allowed (answers count)) (count : Nat) :
    Collected claim heap (loop claim first answers count) := by
  induction count with
  | zero => exact collected
  | succ count induction =>
      rw [Collection.loop]
      split
      · exact induction
      · rename_i running
        have active := Bool.eq_false_iff.mpr running
        have legal := allowed count active
        cases answer : answers count with
        | none => exact induction.refuse active
        | some first => exact induction.grant active (answer ▸ legal)

end Collected

/-- For every memory map, every set of free pages and all allowed answers of the firmware, the loop
ends.  The ranges it has passed on are whole pages and disjoint, and what the heap claims of each
lies in the range and not below the offset. -/
theorem loop_collects {profile : Profile} {map : List MemoryDescriptor} {free : Finset Nat}
    {allocator : OsPhysicalAllocator υ τ} {first : Collection υ τ}
    (started : start profile map free allocator = some first) (answers : Nat → Option Nat)
    (allowed : ∀ count, (loop claim first answers count).finished = false →
      (loop claim first answers count).Allowed (answers count)) :
    ∃ count final, loop claim first answers count = final ∧ final.finished = true ∧
      final.allocator.useOsAlloc.isCompleted = true ∧
      (∀ range ∈ final.ranges, 4096 ∣ range.len) ∧
      final.ranges.Pairwise DisjointRanges ∧
      final.allocator.osAllocator = (final.ranges.filterMap claimedRange).foldl
        (fun heap range => claim range heap) allocator.osAllocator ∧
      ∀ range ∈ final.ranges, ∀ claimed, claimedRange range = some claimed →
        allocatorAddOffset ≤ claimed.start ∧
          ∀ address, claimed.contains address = true → range.contains address = true := by
  obtain ⟨count, finished⟩ : ∃ count, (loop claim first answers count).finished = true := by
    refine exists_finished (loop claim first answers) (fun state => state.finished = true)
      (fun state => state.free.card + state.currentAttemptSize) fun count running still => ?_
    have active := Bool.eq_false_iff.mpr running
    have step : loop claim first answers (count + 1) =
        (loop claim first answers count).attempt claim (answers count) := if_neg running
    rw [step] at still ⊢
    exact attempt_drops (allowed count active) (Bool.eq_false_iff.mpr still)
  have collected := (collected_start started).loop allowed count
  exact ⟨count, _, rfl, finished, collected.switched finished, collected.aligned,
    collected.disjoint, collected.claims, fun _ _ _ => claimedRange_inside⟩

/-- Four free pages of conventional memory. -/
def fourPages : Collection Unit (List MemRangeData) where
  free := Finset.Ico 16 20
  currentAttemptSize := 0x4000
  allocator := .new () []
  ranges := []
  finished := false

/-- The firmware gives the four pages at once and then nothing. -/
theorem loop_collects_fourPages :
    start .dev [⟨.conventional, 0x10000, 4⟩, ⟨.mmio, 0x20000, 8⟩] (Finset.Ico 16 20)
        (.new () []) = some fourPages ∧
      ∃ count final, loop List.cons fourPages (fun count => if count = 0 then some 16 else none)
        count = final ∧ final.finished = true := by
  have started : start .dev [⟨.conventional, 0x10000, 4⟩, ⟨.mmio, 0x20000, 8⟩] (Finset.Ico 16 20)
      (.new () []) = some fourPages := rfl
  obtain ⟨count, final, reached, finished, -⟩ := loop_collects List.cons started
    (fun count => if count = 0 then some 16 else none) fun count _ => by
      cases count with
      | zero => decide
      | succ count => trivial
  exact ⟨started, count, final, reached, finished⟩

end Collection

end Okots
