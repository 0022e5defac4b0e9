import Okots.Paging.Tables
import Mathlib.Data.Finset.Union

/-!
# Sequences of frame requests

Table builders only ever ask for frames, so between two points the allocator history grows by a
list of allocations.  A budget bounds the number of requests a builder makes; with an allocator that
serves that many, a builder cannot run out of frames.
-/

namespace Okots

/-- The history after the frames `news` have been handed out, the last one first. -/
def grown (history : List FrameEvent) (news : List Nat) : List FrameEvent :=
  news.map .alloc ++ history

/-- The allocator hands out exactly `news`, the last one first. -/
def Allocates (allocator : FrameAllocator) (history : List FrameEvent) : List Nat → Prop
  | [] => True
  | frame :: older =>
      Allocates allocator history older ∧
        allocator.allocZeroed (grown history older) = some frame

/-- The allocator refuses one of the next `budget` requests. -/
def Exhausted (allocator : FrameAllocator) (history : List FrameEvent) (budget : Nat) : Prop :=
  ∃ news, Allocates allocator history news ∧ news.length < budget ∧
    allocator.allocZeroed (grown history news) = none

variable {allocator : FrameAllocator} {history : List FrameEvent} {news older newer : List Nat}

theorem grown_append : grown history (newer ++ older) = grown (grown history older) newer := by
  simp [grown]

theorem mem_liveFrames_grown {frame : Nat} :
    frame ∈ liveFrames (grown history news) ↔ frame ∈ news ∨ frame ∈ liveFrames history := by
  induction news with
  | nil => simp [grown]
  | cons head rest induction =>
      have unfolded : grown history (head :: rest) = .alloc head :: grown history rest := rfl
      rw [unfolded, liveFrames, Finset.mem_insert, induction, List.mem_cons, or_assoc]

theorem Allocates.append (first : Allocates allocator history older)
    (second : Allocates allocator (grown history older) newer) :
    Allocates allocator history (newer ++ older) := by
  induction newer with
  | nil => exact first
  | cons frame rest induction =>
      rw [List.cons_append, Allocates, grown_append]
      exact ⟨induction second.1, second.2⟩

theorem Allocates.exists_request (allocates : Allocates allocator history news) {frame : Nat}
    (member : frame ∈ news) :
    ∃ earlier, (∀ live ∈ liveFrames history, live ∈ liveFrames earlier) ∧
      allocator.allocZeroed earlier = some frame := by
  induction news with
  | nil => simp at member
  | cons head rest induction =>
      rcases List.mem_cons.mp member with rfl | inRest
      · exact ⟨_, fun live held => mem_liveFrames_grown.mpr (.inr held), allocates.2⟩
      · exact induction allocates.1 inRest

theorem Allocates.fresh (allocates : Allocates allocator history news) {frame : Nat}
    (member : frame ∈ news) : frame ∉ liveFrames history := by
  obtain ⟨earlier, held, request⟩ := allocates.exists_request member
  exact fun live => allocator.fresh _ _ request (held frame live)

theorem Allocates.aligned (allocates : Allocates allocator history news) {frame : Nat}
    (member : frame ∈ news) : 4096 ∣ frame := by
  obtain ⟨earlier, -, request⟩ := allocates.exists_request member
  exact allocator.aligned _ _ request

theorem Allocates.bounded (allocates : Allocates allocator history news) {frame : Nat}
    (member : frame ∈ news) : frame < 2 ^ 52 := by
  obtain ⟨earlier, -, request⟩ := allocates.exists_request member
  exact allocator.bounded _ _ request

theorem Allocates.nodup (allocates : Allocates allocator history news) : news.Nodup := by
  induction news with
  | nil => exact List.nodup_nil
  | cons frame rest induction =>
      refine List.nodup_cons.mpr ⟨fun member => ?_, induction allocates.1⟩
      exact allocator.fresh _ _ allocates.2 (mem_liveFrames_grown.mpr (.inl member))

theorem Allocates.of_append (allocates : Allocates allocator history (newer ++ older)) :
    Allocates allocator history older := by
  induction newer with
  | nil => exact allocates
  | cons frame rest induction => exact induction allocates.1

/-- Frames handed out before a refusal are among those handed out up to the refusal. -/
theorem Allocates.isSuffix {served : List Nat} (allocates : Allocates allocator history news)
    (total : Allocates allocator history served)
    (refused : allocator.allocZeroed (grown history served) = none) : news <:+ served := by
  induction news with
  | nil => exact List.nil_suffix
  | cons frame older induction =>
      obtain ⟨newer, rfl⟩ := induction allocates.1
      rcases List.eq_nil_or_concat newer with rfl | ⟨rest, next, rfl⟩
      · rw [List.nil_append, allocates.2] at refused
        cases refused
      · rw [List.concat_append] at total ⊢
        have same := total.of_append.2.symm.trans allocates.2
        rw [Option.some.inj same]
        exact List.suffix_append _ _

/-- Which frames are handed out before the first refusal is determined by the allocator. -/
theorem Allocates.unique {served : List Nat} (allocates : Allocates allocator history news)
    (refused : allocator.allocZeroed (grown history news) = none)
    (total : Allocates allocator history served)
    (refusedTotal : allocator.allocZeroed (grown history served) = none) : news = served := by
  have left := allocates.isSuffix total refusedTotal
  have right := total.isSuffix allocates refused
  exact left.eq_of_length (le_antisymm left.length_le right.length_le)

/-- Requests already served count towards the budget. -/
theorem Exhausted.after {budget total : Nat} (allocates : Allocates allocator history older)
    (exhausted : Exhausted allocator (grown history older) budget)
    (within : older.length + budget ≤ total) : Exhausted allocator history total := by
  obtain ⟨more, served, short, refused⟩ := exhausted
  refine ⟨more ++ older, allocates.append served, ?_, ?_⟩
  · rw [List.length_append]
    omega
  · rw [grown_append]
    exact refused

/-! ## Budgets -/

namespace PageLevel

/-- The largest number of tables in a tree at this level. -/
def tableCount : PageLevel → Nat :=
  descend fun _ lower =>
    match lower with
    | none => 1
    | some (_, count) => 1 + 512 * count

/-- The largest number of tables below one entry. -/
def childCount (level : PageLevel) : Nat := (level.down.map tableCount).getD 0

theorem tableCount_eq (level : PageLevel) : level.tableCount = 1 + 512 * level.childCount := by
  rw [tableCount, descend_eq, childCount]
  cases level.down <;> rfl

theorem childCount_of_down {level next : PageLevel} (step : level.down = some next) :
    level.childCount = next.tableCount := by
  rw [childCount, step]
  rfl

end PageLevel

/-- A table below an entry that runs out of frames exhausts the budget of all entries. -/
theorem Exhausted.ofChild {level next : PageLevel} {visited : Nat} (step : level.down = some next)
    (allocates : Allocates allocator history older)
    (count : older.length ≤ visited * level.childCount) (short : visited < 512)
    (exhausted : Exhausted allocator (grown history older) next.tableCount) :
    Exhausted allocator history (512 * level.childCount) := by
  refine exhausted.after allocates ?_
  have within : (visited + 1) * level.childCount ≤ 512 * level.childCount :=
    Nat.mul_le_mul_right _ short
  rw [Nat.succ_mul] at within
  rw [← PageLevel.childCount_of_down step]
  omega

/-- A larger budget is exhausted as well. -/
theorem Exhausted.mono {budget total : Nat} (exhausted : Exhausted allocator history budget)
    (within : budget ≤ total) : Exhausted allocator history total := by
  obtain ⟨more, served, short, refused⟩ := exhausted
  exact ⟨more, served, short.trans_le within, refused⟩

/-! ## A realization -/

/-- The highest frame handed out, at least `base`. -/
def highestFrame (base : Nat) : List FrameEvent → Nat
  | [] => base
  | .alloc frame :: history => max frame (highestFrame base history)
  | .dealloc _ :: history => highestFrame base history

theorem le_highestFrame (base : Nat) {frame : Nat} (live : frame ∈ liveFrames history) :
    frame ≤ highestFrame base history := by
  induction history with
  | nil => simp [liveFrames] at live
  | cons event history induction =>
      cases event with
      | alloc newest =>
          rcases Finset.mem_insert.mp live with rfl | older
          · exact Nat.le_max_left _ _
          · exact Nat.le_trans (induction older) (Nat.le_max_right _ _)
      | dealloc freed => exact induction (Finset.mem_of_mem_erase live)

/-- An allocator that hands out ascending frames above `base` and never reuses one. -/
def bumpAllocator (base : Nat) : FrameAllocator where
  allocZeroed history :=
    let next := 4096 * (highestFrame base history / 4096 + 1)
    if next < 2 ^ 52 then some next else none
  leftover _ _ _ := 0
  fresh history frame request live := by
    have below := le_highestFrame base live
    simp only [Option.ite_none_right_eq_some, Option.some.injEq] at request
    omega
  aligned history frame request := by
    simp only [Option.ite_none_right_eq_some, Option.some.injEq] at request
    omega
  bounded history frame request := by
    simp only [Option.ite_none_right_eq_some, Option.some.injEq] at request
    omega
  nonNull history frame request := by
    simp only [Option.ite_none_right_eq_some, Option.some.injEq] at request
    omega

theorem bumpAllocator_request {base frame : Nat}
    (request : (bumpAllocator base).allocZeroed history = some frame) :
    frame = 4096 * (highestFrame base history / 4096 + 1) := by
  simp only [bumpAllocator, Option.ite_none_right_eq_some, Option.some.injEq] at request
  exact request.2.symm

theorem bumpAllocator_highest {base : Nat}
    (allocates : Allocates (bumpAllocator base) history news) :
    highestFrame base (grown history news) ≤ highestFrame base history + 4096 * news.length := by
  induction news with
  | nil => simp [grown]
  | cons frame older induction =>
      have before := induction allocates.1
      have request := bumpAllocator_request allocates.2
      have unfolded : highestFrame base (grown history (frame :: older)) =
          max frame (highestFrame base (grown history older)) := rfl
      rw [unfolded, List.length_cons]
      omega

/-- A platform with the ascending allocator. -/
def bumpPlatform (base : Nat) : Platform where
  profile := .dev
  sort := stableSort
  crates := documentedCrates
  allocator := bumpAllocator base

/-- Present and writable. -/
def PageEntryFlags.dataFlags : PageEntryFlags := PageEntryFlags.present.union .writable

/-- No frame has been handed out. -/
def emptyMemory : TableMemory where
  words _ _ := 0
  history := []

theorem bumpAllocator_first {frame : Nat}
    (request : (bumpAllocator 0).allocZeroed emptyMemory.history = some frame) :
    frame < 2 ^ 47 := by
  rw [bumpAllocator_request request]
  decide

/-- The ascending allocator serves a budget that fits below the top of physical memory. -/
theorem bumpAllocator_serves {base budget : Nat}
    (room : highestFrame base history + 4096 * budget < 2 ^ 52) :
    ¬ Exhausted (bumpAllocator base) history budget := by
  rintro ⟨news, allocates, short, refused⟩
  have highest := bumpAllocator_highest allocates
  simp only [bumpAllocator, ite_eq_right_iff, reduceCtorEq, imp_false] at refused
  omega

end Okots
