import Mathlib.Tactic.Common
import Okots.Library.Reachable
import Okots.UtilTypes

/-!
# The physical allocator

`OsPhysicalAllocator` is the global allocator of the kernel.  Requests go to the UEFI pool until
`change_to_os_allocator` has been called, and to the talc heap from then on.  The two heaps are
parameters.  A `Session` runs a sequence of operations and keeps the client's ledger: which pointers
are allocated, which heap returned each one, and on which side of the switch.
-/

namespace Okots

open TransitionSystem

/-- Size and alignment of a block. -/
structure Layout where
  size : Nat
  align : Nat

/-- The `GlobalAlloc` interface over a heap of type `η`.  The null pointer is `0`. -/
structure GlobalAlloc (η : Type*) where
  alloc : Layout → η → Nat × η
  allocZeroed : Layout → η → Nat × η
  realloc : Nat → Layout → Nat → η → Nat × η
  dealloc : Nat → Layout → η → η

/-- A `spin::Once` that guards no value. -/
structure Once where
  isCompleted : Bool

/-- Run the empty initialiser unless it has run. -/
def Once.callOnce (_ : Once) : Once := ⟨true⟩

/-- The two heaps and the one-way switch between them. -/
structure OsPhysicalAllocator (υ τ : Type*) where
  uefiAlloc : υ
  osAllocator : τ
  useOsAlloc : Once

/-- The heap that a request is handed to. -/
inductive Backend where
  | uefi
  | os
  deriving DecidableEq

/-- A served request: the heap that served it, the pointer it returned and the allocator after. -/
structure Served (υ τ : Type*) where
  backend : Backend
  pointer : Nat
  after : OsPhysicalAllocator υ τ

/-- Ranges are given to the talc heap from this address on. -/
def allocatorAddOffset : Nat := 0x10000

/-- The part of a range that `add_target_to_os_alloc` claims, if any. -/
def claimedRange (data : MemRangeData) : Option MemRangeData :=
  if data.start < allocatorAddOffset then
    let tmp := allocatorAddOffset - data.start
    if data.len < tmp ∨ data.len - tmp < 1024 then none
    else some ⟨allocatorAddOffset, data.len - tmp⟩
  else
    some data

namespace OsPhysicalAllocator

variable {υ τ : Type*}

/-- The allocator before any request. -/
def new (uefiAlloc : υ) (osAllocator : τ) : OsPhysicalAllocator υ τ :=
  ⟨uefiAlloc, osAllocator, ⟨false⟩⟩

/-- Give a range to the talc heap through its `claim`. -/
def addTargetToOsAlloc (claim : MemRangeData → τ → τ) (self : OsPhysicalAllocator υ τ)
    (data : MemRangeData) : OsPhysicalAllocator υ τ :=
  match claimedRange data with
  | none => self
  | some range => { self with osAllocator := claim range self.osAllocator }

/-- Turn the switch. -/
def changeToOsAllocator (self : OsPhysicalAllocator υ τ) : OsPhysicalAllocator υ τ :=
  { self with useOsAlloc := self.useOsAlloc.callOnce }

/-- The branch shared by the four methods of `GlobalAlloc`. -/
def dispatch (self : OsPhysicalAllocator υ τ) (onOs : τ → Nat × τ) (onUefi : υ → Nat × υ) :
    Served υ τ :=
  if self.useOsAlloc.isCompleted then
    let answer := onOs self.osAllocator
    ⟨.os, answer.1, { self with osAllocator := answer.2 }⟩
  else
    let answer := onUefi self.uefiAlloc
    ⟨.uefi, answer.1, { self with uefiAlloc := answer.2 }⟩

variable (uefi : GlobalAlloc υ) (talc : GlobalAlloc τ) (self : OsPhysicalAllocator υ τ)

def alloc (layout : Layout) : Served υ τ :=
  self.dispatch (talc.alloc layout) (uefi.alloc layout)

def dealloc (ptr : Nat) (layout : Layout) : Served υ τ :=
  self.dispatch (fun heap => (0, talc.dealloc ptr layout heap))
    (fun heap => (0, uefi.dealloc ptr layout heap))

def allocZeroed (layout : Layout) : Served υ τ :=
  self.dispatch (talc.allocZeroed layout) (uefi.allocZeroed layout)

def realloc (ptr : Nat) (layout : Layout) (newSize : Nat) : Served υ τ :=
  self.dispatch (talc.realloc ptr layout newSize) (uefi.realloc ptr layout newSize)

end OsPhysicalAllocator

/-- The heap in use on either side of the switch. -/
def Backend.side (switched : Bool) : Backend := if switched then .os else .uefi

theorem Backend.side_injective : Function.Injective Backend.side := by
  intro left right same
  cases left <;> cases right <;> first | rfl | cases same

/-- A call of one of the four methods of `GlobalAlloc`. -/
inductive Request where
  | alloc (layout : Layout)
  | allocZeroed (layout : Layout)
  | realloc (ptr : Nat) (layout : Layout) (newSize : Nat)
  | dealloc (ptr : Nat) (layout : Layout)

/-- The block a request gives back to the allocator. -/
def Request.block? : Request → Option Nat
  | .alloc _ | .allocZeroed _ => none
  | .realloc ptr _ _ | .dealloc ptr _ => some ptr

/-- What the allocator is asked to do. -/
inductive Operation where
  | request (call : Request)
  | addTargetToOsAlloc (data : MemRangeData)
  | changeToOsAllocator

/-- A block as its client knows it. -/
structure HeapBlock where
  /-- The heap that returned the block. -/
  owner : Backend
  /-- The switch had been turned when the block was returned. -/
  afterSwitch : Bool

/-- The allocator together with the ledger of its client. -/
structure Session (υ τ : Type*) where
  allocator : OsPhysicalAllocator υ τ
  /-- The pointers that are currently allocated. -/
  blocks : Nat → Option HeapBlock
  /-- `change_to_os_allocator` has been called. -/
  switched : Bool

/-- The two heaps of the kernel: the UEFI pool, and the talc heap with its `claim`. -/
structure Heaps (υ τ : Type*) where
  uefi : GlobalAlloc υ
  talc : GlobalAlloc τ
  claim : MemRangeData → τ → τ

namespace Session

variable {υ τ : Type*} (heaps : Heaps υ τ)

/-- A client that has not used the allocator. -/
def start (uefiAlloc : υ) (osAllocator : τ) : Session υ τ :=
  ⟨.new uefiAlloc osAllocator, fun _ => none, false⟩

/-- The allocator's answer to a request. -/
def serve (session : Session υ τ) : Request → Served υ τ
  | .alloc layout => session.allocator.alloc heaps.uefi heaps.talc layout
  | .allocZeroed layout => session.allocator.allocZeroed heaps.uefi heaps.talc layout
  | .realloc ptr layout newSize =>
      session.allocator.realloc heaps.uefi heaps.talc ptr layout newSize
  | .dealloc ptr layout => session.allocator.dealloc heaps.uefi heaps.talc ptr layout

/-- Strike out a pointer. -/
def forget (session : Session υ τ) (ptr : Nat) : Session υ τ :=
  { session with blocks := Function.update session.blocks ptr none }

/-- Enter a returned pointer; a null pointer is no block. -/
def enter (session : Session υ τ) (served : Served υ τ) : Session υ τ :=
  if served.pointer = 0 then session
  else
    { session with
      blocks := Function.update session.blocks served.pointer
        (some ⟨served.backend, session.switched⟩) }

/-- The ledger after a request.  A failed `realloc` leaves the old block allocated. -/
def record (session : Session υ τ) (served : Served υ τ) : Request → Session υ τ
  | .alloc _ | .allocZeroed _ => session.enter served
  | .realloc ptr _ _ => if served.pointer = 0 then session else (session.forget ptr).enter served
  | .dealloc ptr _ => session.forget ptr

/-- Perform one operation. -/
def perform (session : Session υ τ) : Operation → Session υ τ
  | .request call =>
      { session.record (session.serve heaps call) call with
        allocator := (session.serve heaps call).after }
  | .addTargetToOsAlloc data =>
      { session with allocator := session.allocator.addTargetToOsAlloc heaps.claim data }
  | .changeToOsAllocator =>
      { session with allocator := session.allocator.changeToOsAllocator, switched := true }

/-- The client passes only pointers that are currently allocated. -/
def Client (session : Session υ τ) : Operation → Prop
  | .request call => ∀ ptr ∈ call.block?, (session.blocks ptr).isSome
  | _ => True

/-- A block that is given back reaches the heap that returned it. -/
def ReturnsToOwner (session : Session υ τ) : Operation → Prop
  | .request call => ∀ ptr ∈ call.block?,
      (session.blocks ptr).map HeapBlock.owner = some (session.serve heaps call).backend
  | _ => True

/-- No block that was returned before the switch is given back after it. -/
def StaysOnSide (session : Session υ τ) : Operation → Prop
  | .request call => ∀ ptr ∈ call.block?, session.switched →
      (session.blocks ptr).map HeapBlock.afterSwitch = some true
  | _ => True

instance (session : Session υ τ) (operation : Operation) : Decidable (session.Client operation) :=
  match operation with
  | .request _ => inferInstanceAs (Decidable (∀ ptr ∈ _, _))
  | .addTargetToOsAlloc _ | .changeToOsAllocator => .isTrue trivial

instance (session : Session υ τ) (operation : Operation) :
    Decidable (session.ReturnsToOwner heaps operation) :=
  match operation with
  | .request _ => inferInstanceAs (Decidable (∀ ptr ∈ _, _))
  | .addTargetToOsAlloc _ | .changeToOsAllocator => .isTrue trivial

instance (session : Session υ τ) (operation : Operation) :
    Decidable (session.StaysOnSide operation) :=
  match operation with
  | .request _ => inferInstanceAs (Decidable (∀ ptr ∈ _, _ → _))
  | .addTargetToOsAlloc _ | .changeToOsAllocator => .isTrue trivial

/-- The switch is where the client left it, and the owner of a block is the heap that was in use
when the block was returned. -/
structure Accounted (session : Session υ τ) : Prop where
  switch : session.allocator.useOsAlloc.isCompleted = session.switched
  owner : ∀ ptr block, session.blocks ptr = some block → block.owner = .side block.afterSwitch
  order : ∀ ptr block, session.blocks ptr = some block → block.afterSwitch → session.switched

theorem start_accounted (uefiAlloc : υ) (osAllocator : τ) :
    (start uefiAlloc osAllocator).Accounted :=
  ⟨rfl, by simp [start], by simp [start]⟩

section Dispatch

variable (self : OsPhysicalAllocator υ τ) (onOs : τ → Nat × τ) (onUefi : υ → Nat × υ)

theorem backend_dispatch :
    (self.dispatch onOs onUefi).backend = .side self.useOsAlloc.isCompleted := by
  unfold OsPhysicalAllocator.dispatch Backend.side
  split <;> rfl

theorem switch_dispatch : (self.dispatch onOs onUefi).after.useOsAlloc = self.useOsAlloc := by
  unfold OsPhysicalAllocator.dispatch
  split <;> rfl

end Dispatch

theorem backend_serve (session : Session υ τ) (call : Request) :
    (session.serve heaps call).backend = .side session.allocator.useOsAlloc.isCompleted := by
  cases call <;> exact backend_dispatch _ _ _

theorem switch_serve (session : Session υ τ) (call : Request) :
    (session.serve heaps call).after.useOsAlloc = session.allocator.useOsAlloc := by
  cases call <;> exact switch_dispatch _ _ _

variable {session : Session υ τ}

/-- A change of the heaps that leaves the switch alone keeps the ledger right. -/
theorem Accounted.withAllocator (accounted : session.Accounted)
    {allocator : OsPhysicalAllocator υ τ}
    (same : allocator.useOsAlloc = session.allocator.useOsAlloc) :
    ({ session with allocator } : Session υ τ).Accounted :=
  ⟨by rw [← accounted.switch, same], accounted.owner, accounted.order⟩

theorem Accounted.forget (accounted : session.Accounted) (ptr : Nat) :
    (session.forget ptr).Accounted := by
  have kept : ∀ other block, (session.forget ptr).blocks other = some block →
      session.blocks other = some block := by
    intro other block found
    simp only [Session.forget, Function.update_apply] at found
    split at found
    · cases found
    · exact found
  exact ⟨accounted.switch, fun other block found => accounted.owner other block (kept _ _ found),
    fun other block found => accounted.order other block (kept _ _ found)⟩

theorem Accounted.enter (accounted : session.Accounted) {served : Served υ τ}
    (current : served.backend = .side session.switched) : (session.enter served).Accounted := by
  unfold Session.enter
  split
  · exact accounted
  · refine ⟨accounted.switch, ?_, ?_⟩
    all_goals
      intro ptr block found
      simp only [Function.update_apply] at found
      split at found
    · obtain rfl := Option.some.inj found
      exact current
    · exact accounted.owner ptr block found
    · obtain rfl := Option.some.inj found
      exact id
    · exact accounted.order ptr block found

theorem Accounted.record (accounted : session.Accounted) {served : Served υ τ}
    (current : served.backend = .side session.switched) (call : Request) :
    (session.record served call).Accounted := by
  cases call with
  | alloc | allocZeroed => exact accounted.enter current
  | realloc ptr =>
      rw [Session.record]
      split
      · exact accounted
      · exact (accounted.forget ptr).enter current
  | dealloc ptr => exact accounted.forget ptr

theorem enter_allocator (session : Session υ τ) (served : Served υ τ) :
    (session.enter served).allocator = session.allocator := by
  unfold enter
  split <;> rfl

theorem record_allocator (served : Served υ τ) (call : Request) :
    (session.record served call).allocator = session.allocator := by
  cases call with
  | alloc | allocZeroed => exact session.enter_allocator served
  | realloc ptr =>
      rw [record]
      split
      · rfl
      · exact (session.forget ptr).enter_allocator served
  | dealloc => rfl

/-- Every operation keeps the ledger right. -/
theorem Accounted.perform (accounted : session.Accounted) (operation : Operation) :
    (session.perform heaps operation).Accounted := by
  cases operation with
  | request call =>
      have current : (session.serve heaps call).backend = .side session.switched := by
        rw [backend_serve, accounted.switch]
      refine (accounted.record current call).withAllocator ?_
      rw [switch_serve, record_allocator]
  | addTargetToOsAlloc data =>
      refine accounted.withAllocator ?_
      unfold OsPhysicalAllocator.addTargetToOsAlloc
      split <;> rfl
  | changeToOsAllocator => exact ⟨rfl, accounted.owner, fun _ _ _ _ => rfl⟩

/-- With a right ledger a request reaches the owner of its block exactly when the block is from
this side of the switch. -/
theorem Accounted.returnsToOwner_iff (accounted : session.Accounted) (operation : Operation)
    (client : session.Client operation) :
    session.ReturnsToOwner heaps operation ↔ session.StaysOnSide operation := by
  cases operation with
  | request call =>
      refine forall₂_congr fun ptr passed => ?_
      obtain ⟨block, found⟩ := Option.isSome_iff_exists.mp (client ptr passed)
      rw [found, backend_serve, accounted.switch, Option.map_some, Option.map_some,
        Option.some_inj, Option.some_inj, accounted.owner ptr block found,
        Backend.side_injective.eq_iff]
      constructor
      · exact fun same switched => same.trans switched
      · intro onSide
        exact Bool.eq_iff_iff.mpr ⟨accounted.order ptr block found, onSide⟩
  | addTargetToOsAlloc | changeToOsAllocator => exact Iff.rfl

/-- For every sequence of operations of a client that passes only allocated pointers, all blocks go
back to the heap they came from exactly when none is given back across the switch. -/
theorem returnsToOwner_iff_staysOnSide (uefiAlloc : υ) (osAllocator : τ)
    (operations : List Operation)
    (client : Along (perform heaps) Client (start uefiAlloc osAllocator) operations) :
    Along (perform heaps) (ReturnsToOwner heaps) (start uefiAlloc osAllocator) operations ↔
      Along (perform heaps) StaysOnSide (start uefiAlloc osAllocator) operations :=
  along_congr Accounted (fun _ operation accounted _ => accounted.perform heaps operation)
    (fun _ operation accounted => accounted.returnsToOwner_iff heaps operation) operations _
    (start_accounted _ _) client

/-- Heaps that hand out fresh addresses. -/
def bumpHeaps : Heaps Nat Nat :=
  let bump : GlobalAlloc Nat :=
    { alloc := fun layout heap => (heap, heap + layout.size)
      allocZeroed := fun layout heap => (heap, heap + layout.size)
      realloc := fun _ _ newSize heap => (heap, heap + newSize)
      dealloc := fun _ _ heap => heap }
  { uefi := bump, talc := bump, claim := fun range _ => range.start }

/-- A client that frees its UEFI block, switches, and grows and frees a talc block. -/
theorem returnsToOwner_of_oneSided :
    Along (perform bumpHeaps) (ReturnsToOwner bumpHeaps) (start 4096 0)
      [.request (.alloc ⟨64, 8⟩), .request (.dealloc 4096 ⟨64, 8⟩),
        .addTargetToOsAlloc ⟨0x8000, 0x10000⟩, .changeToOsAllocator,
        .request (.alloc ⟨64, 8⟩), .request (.realloc 0x10000 ⟨64, 8⟩ 128),
        .request (.dealloc 0x10040 ⟨128, 8⟩)] :=
  (returnsToOwner_iff_staysOnSide bumpHeaps 4096 0 _ (by decide)).mpr (by decide)

/-- A log record is allocated before the switch and dropped after it: the UEFI block is handed to
the talc heap. -/
theorem evictedLog_not_returnsToOwner :
    Along (perform bumpHeaps) Client (start 4096 0)
        [.request (.alloc ⟨64, 8⟩), .addTargetToOsAlloc ⟨0x8000, 0x10000⟩, .changeToOsAllocator,
          .request (.dealloc 4096 ⟨64, 8⟩)] ∧
      ¬ Along (perform bumpHeaps) (ReturnsToOwner bumpHeaps) (start 4096 0)
        [.request (.alloc ⟨64, 8⟩), .addTargetToOsAlloc ⟨0x8000, 0x10000⟩, .changeToOsAllocator,
          .request (.dealloc 4096 ⟨64, 8⟩)] := by
  constructor <;> decide

end Session
end Okots
