import Okots.Paging.Update

/-!
# Releasing tables

`dealloc_recursive` returns exactly the frames of a tree, each once, and touches no other frame.
The events of a history are disciplined when frames are handed out only while free and returned only
while handed out, so a disciplined history has neither a double free nor a free of a foreign frame.
-/

namespace Okots

open StateExec Exec PageLevel

/-! ## Disciplined histories -/

/-- Every allocated frame was free and every deallocated frame was allocated. -/
def Disciplined : List FrameEvent → Prop
  | [] => True
  | .alloc frame :: history => frame ∉ liveFrames history ∧ Disciplined history
  | .dealloc frame :: history => frame ∈ liveFrames history ∧ Disciplined history

theorem Disciplined.grown {allocator : FrameAllocator} {history : List FrameEvent}
    {news : List Nat} (disciplined : Disciplined history)
    (allocates : Allocates allocator history news) : Disciplined (grown history news) := by
  induction news with
  | nil => exact disciplined
  | cons frame older induction =>
      exact ⟨allocator.fresh _ _ allocates.2, induction allocates.1⟩

/-- The history after the frames `freed` have been returned, the last one first. -/
def shrunk (history : List FrameEvent) (freed : List Nat) : List FrameEvent :=
  freed.map .dealloc ++ history

variable {history : List FrameEvent} {freed : List Nat}

theorem mem_liveFrames_shrunk {frame : Nat} :
    frame ∈ liveFrames (shrunk history freed) ↔ frame ∉ freed ∧ frame ∈ liveFrames history := by
  induction freed with
  | nil => simp [shrunk]
  | cons head rest induction =>
      have unfolded : shrunk history (head :: rest) = .dealloc head :: shrunk history rest := rfl
      rw [unfolded, liveFrames, Finset.mem_erase, induction, List.mem_cons, not_or, and_assoc]

theorem Disciplined.shrunk (disciplined : Disciplined history) (nodup : freed.Nodup)
    (live : ∀ frame ∈ freed, frame ∈ liveFrames history) :
    Disciplined (shrunk history freed) := by
  induction freed with
  | nil => exact disciplined
  | cons frame rest induction =>
      obtain ⟨single, restNodup⟩ := List.nodup_cons.mp nodup
      exact ⟨mem_liveFrames_shrunk.mpr ⟨single, live frame List.mem_cons_self⟩,
        induction restNodup fun other member => live other (List.mem_cons_of_mem _ member)⟩

/-! ## Released frames -/

/-- The given frames have been returned, each once, and no other frame was touched. -/
structure Released (memory : TableMemory) (frames : Multiset Nat) (after : TableMemory) : Prop where
  history : ∃ freed : List Nat, (freed : Multiset Nat) = frames ∧
    after.history = shrunk memory.history freed
  frame : ∀ other, other ∉ frames → after.words other = memory.words other

variable {platform : Platform} {memory middle after : TableMemory} {frames more : Multiset Nat}

namespace Released

theorem refl (memory : TableMemory) : Released memory 0 memory where
  history := ⟨[], rfl, rfl⟩
  frame _ _ := rfl

theorem trans (first : Released memory frames middle) (second : Released middle more after) :
    Released memory (frames + more) after where
  history := by
    obtain ⟨freed, rfl, firstHistory⟩ := first.history
    obtain ⟨later, rfl, secondHistory⟩ := second.history
    refine ⟨later ++ freed, ?_, ?_⟩
    · rw [← Multiset.coe_add, add_comm]
    · rw [secondHistory, firstHistory, shrunk, shrunk, shrunk, List.map_append, List.append_assoc]
  frame other outside := by
    rw [Multiset.mem_add, not_or] at outside
    rw [second.frame other outside.2, first.frame other outside.1]

theorem mem_live (released : Released memory frames after) {frame : Nat} :
    frame ∈ after.live ↔ frame ∉ frames ∧ frame ∈ memory.live := by
  obtain ⟨freed, rfl, history⟩ := released.history
  rw [TableMemory.live, history, mem_liveFrames_shrunk]
  rfl

theorem disciplined (released : Released memory frames after)
    (disciplined : Disciplined memory.history) (nodup : frames.Nodup)
    (live : ∀ frame ∈ frames, frame ∈ memory.live) : Disciplined after.history := by
  obtain ⟨freed, rfl, history⟩ := released.history
  rw [history]
  exact disciplined.shrunk (Multiset.coe_nodup.mp nodup) live

end Released

/-! ## `dealloc_recursive` and `free_not_used_paging` -/

theorem deallocTable_ends (target : Nat) {fail : Fault → TableMemory → Prop} :
    Ends (deallocTable platform target) memory
      (fun _ after => Released memory {target} after) fail := by
  refine ⟨⟨[target], rfl, rfl⟩, fun other outside => ?_⟩
  exact TableMemory.setFrame_words_of_ne _ (Multiset.mem_singleton.not.mp outside)

/-- The test of `dealloc_recursive` finds the relays. -/
theorem isRelay_crates (crates : X86Crates) (entry : BitVec 64) :
    (crates.isPresent entry && !crates.isHugePage entry) = isRelay entry := by
  rw [crates.isPresent_eq, crates.isHugePage_eq, isRelay]

/-- The frames of the parts at the visited indices. -/
def visitedFrames (part : Fin 512 → Multiset Nat) (done : List (Fin 512)) : Multiset Nat :=
  joinFrames fun index => if index ∈ done then part index else 0

section Visited

variable {part : Fin 512 → Multiset Nat} {done : List (Fin 512)} {index : Fin 512}

theorem visitedFrames_nil : visitedFrames part [] = 0 := by
  have empty : (fun index => if index ∈ [] then part index else 0) = fun _ => (0 : Multiset Nat) :=
    funext fun index => if_neg List.not_mem_nil
  rw [visitedFrames, empty, joinFrames_zero]

theorem visitedFrames_entryIndices : visitedFrames part entryIndices = joinFrames part :=
  congrArg joinFrames (funext fun index => if_pos (mem_entryIndices index))

theorem visitedFrames_concat (pending : index ∉ done) :
    visitedFrames part (done ++ [index]) = visitedFrames part done + part index := by
  have exchanged := joinFrames_exchange (fun other => if other ∈ done then part other else 0)
    (fun other => if other ∈ done ++ [index] then part other else 0) index
    fun other distinct => by simp [distinct]
  simpa [visitedFrames, pending] using exchanged

theorem mem_visitedFrames {frame : Nat} :
    frame ∈ visitedFrames part done ↔ ∃ index ∈ done, frame ∈ part index := by
  rw [visitedFrames, mem_joinFrames]
  refine exists_congr fun index => ?_
  by_cases member : index ∈ done <;> simp [member]

end Visited

/-- The tree below one entry is released; the frames released before are those of other entries. -/
theorem deallocChild_ends {level next : PageLevel} {target : Nat} {done : List (Fin 512)}
    {index : Fin 512} {current : TableMemory} {fail : Fault → TableMemory → Prop}
    (step : level.down = some next)
    (lower : ∀ child memory, (tableFrames memory.words next child).Nodup →
      Ends (deallocRecursive platform child next) memory
        (fun _ after => Released memory (tableFrames memory.words next child) after) fail)
    (nodup : (tableFrames memory.words level target).Nodup) (pending : index ∉ done)
    (released : Released memory (visitedFrames (fun index =>
      entryFrames memory.words level (memory.words target index)) done) current) :
    Ends (if isRelay (current.words target index) then
        deallocRecursive platform (tableBase (current.words target index)) next
      else pure ()) current
      (fun _ after => Released memory (visitedFrames (fun index =>
        entryFrames memory.words level (memory.words target index)) (done ++ [index])) after)
      fail := by
  rw [tableFrames, Multiset.nodup_add] at nodup
  obtain ⟨-, belowNodup, apart⟩ := nodup
  have sameTarget : current.words target = memory.words target := by
    refine released.frame target fun member => ?_
    obtain ⟨other, -, inOther⟩ := mem_visitedFrames.mp member
    exact Multiset.disjoint_left.mp apart (Multiset.mem_singleton_self _)
      (mem_joinFrames.mpr ⟨other, inOther⟩)
  have sameBelow : ∀ frame ∈ entryFrames memory.words level (memory.words target index),
      current.words frame = memory.words frame := by
    intro frame inPart
    refine released.frame frame fun member => ?_
    obtain ⟨other, earlier, inOther⟩ := mem_visitedFrames.mp member
    have distinct : other ≠ index := fun same => pending (same ▸ earlier)
    exact joinFrames_disjoint belowNodup distinct inOther inPart
  have sameFrames := (entry_congr level (memory.words target index) sameBelow).1
  rw [visitedFrames_concat pending, sameTarget, ← sameFrames]
  split
  · rename_i relay
    have relays : Relays level (memory.words target index) next := ⟨step, relay⟩
    have childNodup : (entryFrames memory.words level (memory.words target index)).Nodup :=
      joinFrames_nodup belowNodup index
    rw [← sameFrames, relays.entryFrames] at childNodup
    rw [relays.entryFrames]
    exact (lower _ current childNodup).mono (fun _ after freed => released.trans freed)
      fun _ _ failed => failed
  · rename_i plain
    have childless : Childless level (memory.words target index) := .inr (by simpa using plain)
    rw [childless.entryFrames, add_zero]
    exact released

/-- The trees below the entries of a table are released one after the other. -/
theorem deallocChildren_ends {level : PageLevel} {target : Nat}
    {fail : Fault → TableMemory → Prop}
    (lower : ∀ next, level.down = some next → ∀ child memory,
      (tableFrames memory.words next child).Nodup →
      Ends (deallocRecursive platform child next) memory
        (fun _ after => Released memory (tableFrames memory.words next child) after) fail)
    (nodup : (tableFrames memory.words level target).Nodup) :
    Ends (deallocChildren platform
        (level.down.map fun next => (next, fun child => deallocRecursive platform child next))
        target) memory
      (fun _ after => Released memory
        (joinFrames fun index => entryFrames memory.words level (memory.words target index)) after)
      fail := by
  cases step : level.down with
  | none =>
      obtain rfl := down_eq_none.mp step
      have empty : (fun index => entryFrames memory.words .pt (memory.words target index)) =
          fun _ => 0 := funext fun index => Childless.entryFrames (.inl rfl)
      rw [empty, joinFrames_zero]
      exact Released.refl memory
  | some next =>
      rw [← visitedFrames_entryIndices]
      refine forEach_ends (fun done current => Released memory (visitedFrames (fun index =>
        entryFrames memory.words level (memory.words target index)) done) current)
        (visitedFrames_nil ▸ Released.refl memory) ?_
      intro done index rest current split released
      rw [ends_bind, loadEntry, ends_read, isRelay_crates, platform.crates.entryAddr_eq]
      exact deallocChild_ends step (lower next step) nodup (entryIndices_split split).1 released

/-- A tree without duplicate frames is released frame by frame. -/
theorem deallocRecursive_ends (platform : Platform) {fail : Fault → TableMemory → Prop}
    (level : PageLevel) :
    ∀ target memory, (tableFrames memory.words level target).Nodup →
      Ends (deallocRecursive platform target level) memory
        (fun _ after => Released memory (tableFrames memory.words level target) after) fail := by
  induction level using downInduction with
  | step level induction =>
      intro target memory nodup
      rw [deallocRecursive, descend_eq, deallocLevel, ends_bind]
      refine (deallocChildren_ends induction nodup).mono (fun _ middle released => ?_)
        fun _ _ failed => failed
      refine (deallocTable_ends target).mono (fun _ after freed => ?_) fun _ _ failed => failed
      rw [tableFrames, add_comm]
      exact released.trans freed

/-- A list of detached trees without common frames is released. -/
theorem freeNotUsedPaging_ends (platform : Platform) {tables : List (Nat × PageLevel)}
    {fail : Fault → TableMemory → Prop} (nodup : (detachedFrames memory.words tables).Nodup) :
    Ends (freeNotUsedPaging platform tables) memory
      (fun _ after => Released memory (detachedFrames memory.words tables) after) fail := by
  refine forEach_ends
    (fun done current => Released memory (detachedFrames memory.words done) current)
    (Released.refl memory) ?_
  intro done target rest current split released
  rw [split, detachedFrames_append, detachedFrames_cons, ← add_assoc, Multiset.nodup_add] at nodup
  obtain ⟨targetNodup, -, -⟩ := nodup
  rw [Multiset.nodup_add] at targetNodup
  obtain ⟨-, ownNodup, apart⟩ := targetNodup
  have same := (table_congr fun frame member =>
    released.frame frame fun earlier => Multiset.disjoint_left.mp apart earlier member).1
  rw [detachedFrames_append, detachedFrames_cons, detachedFrames_nil, add_zero, ← same]
  refine (deallocRecursive_ends platform target.2 target.1 current (same ▸ ownNodup)).mono
    (fun _ after freed => released.trans freed) fun _ _ failed => failed

/-- Releasing a list without common frames succeeds. -/
theorem freeNotUsedPaging_run (platform : Platform) {tables : List (Nat × PageLevel)}
    (nodup : (detachedFrames memory.words tables).Nodup) :
    ∃ after, freeNotUsedPaging platform tables memory = (.ok (), after) ∧
      Released memory (detachedFrames memory.words tables) after := by
  have ends : Ends (freeNotUsedPaging platform tables) memory
      (fun _ after => Released memory (detachedFrames memory.words tables) after)
      (fun _ _ => False) := freeNotUsedPaging_ends platform nodup
  obtain ⟨_, after, run, released⟩ := ends.exists_ok fun _ _ failed => failed
  exact ⟨after, run, released⟩

/-- `dealloc_all` succeeds on a tree without duplicate frames. -/
theorem deallocAll_run (platform : Platform) {top : TopPageTable} (virt : top.virt = top.phys)
    (nodup : (tableFrames memory.words top.level top.phys).Nodup) :
    ∃ after, deallocAll platform top memory = (.ok (), after) ∧
      Released memory (tableFrames memory.words top.level top.phys) after := by
  have ends : Ends (deallocAll platform top) memory
      (fun _ after => Released memory (tableFrames memory.words top.level top.phys) after)
      (fun _ _ => False) := by
    rw [deallocAll, virt]
    exact deallocRecursive_ends platform top.level top.phys memory nodup
  obtain ⟨_, after, run, released⟩ := ends.exists_ok fun _ _ failed => failed
  exact ⟨after, run, released⟩

end Okots
