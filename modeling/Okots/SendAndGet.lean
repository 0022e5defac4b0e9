import Mathlib.Data.List.ReduceOption
import Okots.PhysicalAllocator

/-!
# Handing a buffer over

A `Data` carries a buffer to the callee of a function.  The first accessor that succeeds takes the
pointer out of it, and `drop` frees an owned buffer whose pointer is still there.  `get_slice` takes
the pointer of an owned buffer as well, but only lends the buffer, so nobody frees it afterwards.
-/

namespace Okots

/-- `DataTag`. -/
structure DataTag where
  bits : BitVec 8
  deriving DecidableEq

namespace DataTag

def borrow (tag : DataTag) : Bool := tag.bits.getLsbD 0
def isStatic (tag : DataTag) : Bool := tag.bits.getLsbD 1
def isMut (tag : DataTag) : Bool := tag.bits.getLsbD 2

def empty : DataTag := ⟨0#8⟩
def asStaticBorrow (tag : DataTag) : DataTag := ⟨tag.bits ||| (1#8 <<< 1) ||| (1#8 <<< 0)⟩
def asMut (tag : DataTag) : DataTag := ⟨tag.bits ||| (1#8 <<< 2)⟩

end DataTag

/-- The parts of a `Vec`. -/
structure RawVec where
  ptr : Nat
  len : Nat
  cap : Nat
  deriving DecidableEq

/-- `Data`; address 0 is the null pointer. -/
structure Data where
  ver : Nat
  ptr : Nat
  len : Nat
  cap : Nat
  tag : DataTag
  deriving DecidableEq

/-- The buffer of a `Vec` or of a slice, whose elements have the given layout. -/
structure Buffer (layout : Layout) where
  ptr : Nat
  len : Nat
  /-- Capacity of the `Vec`; a slice has none. -/
  cap : Nat
  nonNull : ptr ≠ 0
  aligned : layout.align ∣ ptr

def structVer : Nat := 1

/-- `isize::MAX`. -/
def isizeMax : Nat := 2 ^ 63 - 1

/-- The elements that `from_raw_parts` shows. -/
def elementsAt {α : Type*} (layout : Layout) (memory : Nat → α) (ptr len : Nat) : List α :=
  (List.range len).map fun index => memory (ptr + index * layout.size)

/-- What a successful accessor returns. -/
structure Handed (α : Type*) where
  contents : List α
  /-- The `Vec` that owns the buffer from now on. -/
  vec : Option RawVec

/-- The public accessors. -/
inductive Accessor where
  | getSliceStatic
  | getSliceStaticMut
  | getSlice
  | getMutSlice
  | takeVec
  deriving DecidableEq

/-- The constructors. -/
inductive DataOrigin where
  | static
  | staticMut
  | owned
  | borrow
  deriving DecidableEq

namespace Data

variable {layout : Layout}

/-- `Data::new_static`. -/
def newStatic (data : Buffer layout) : Data :=
  ⟨structVer, data.ptr, data.len, data.len, DataTag.empty.asStaticBorrow⟩

/-- `Data::new_static_mut`. -/
def newStaticMut (data : Buffer layout) : Data :=
  ⟨structVer, data.ptr, data.len, data.len, DataTag.empty.asStaticBorrow.asMut⟩

/-- `Data::new_owned`. -/
def newOwned (v : Buffer layout) : Data := ⟨structVer, v.ptr, v.len, v.cap, DataTag.empty⟩

/-- `Data::new_borrow`. -/
def newBorrow (data : Buffer layout) : Data :=
  ⟨structVer, data.ptr, data.len, data.len, ⟨1#8 <<< 0⟩⟩

/-- The constructor of that name. -/
def new : DataOrigin → Buffer layout → Data
  | .static => newStatic
  | .staticMut => newStaticMut
  | .owned => newOwned
  | .borrow => newBorrow

/-- `Data::get_raw_ptr`. -/
def getRawPtr (layout : Layout) (data : Data) : Option Nat × Data :=
  if data.ptr = 0 ∨ data.len > isizeMax ∨ ¬ layout.align ∣ data.ptr then
    (none, data)
  else
    (some data.ptr, { data with ptr := 0 })

variable {α : Type*} (layout) (memory : Nat → α) (data : Data)

/-- A slice over the pointer that `get_raw_ptr` returns. -/
def rawSlice : Option (Handed α) × Data :=
  let (ptr, after) := getRawPtr layout data
  (ptr.map fun ptr => ⟨elementsAt layout memory ptr data.len, none⟩, after)

/-- `Data::get_slice_static`. -/
def getSliceStatic : Option (Handed α) × Data :=
  if !data.tag.isStatic then (none, data) else rawSlice layout memory data

/-- `Data::get_slice_static_mut`. -/
def getSliceStaticMut : Option (Handed α) × Data :=
  if !data.tag.isStatic || !data.tag.isMut then (none, data) else rawSlice layout memory data

/-- `Data::get_slice`. -/
def getSlice : Option (Handed α) × Data := rawSlice layout memory data

/-- `Data::get_mut_slice`. -/
def getMutSlice : Option (Handed α) × Data :=
  if !data.tag.isMut then (none, data) else rawSlice layout memory data

/-- `Data::take_vec`. -/
def takeVec : Option (Handed α) × Data :=
  if data.tag.borrow || data.tag.isStatic then
    (none, data)
  else
    let (ptr, after) := getRawPtr layout data
    (ptr.map fun ptr =>
      ⟨elementsAt layout memory ptr data.len, some ⟨ptr, data.len, data.cap⟩⟩, after)

/-- The accessor of that name. -/
def access : Accessor → Option (Handed α) × Data
  | .getSliceStatic => getSliceStatic layout memory data
  | .getSliceStaticMut => getSliceStaticMut layout memory data
  | .getSlice => getSlice layout memory data
  | .getMutSlice => getMutSlice layout memory data
  | .takeVec => takeVec layout memory data

/-- The `Vec` that `drop` rebuilds and frees. -/
def drop : Option RawVec :=
  if !data.tag.borrow && data.ptr != 0 then some ⟨data.ptr, data.len, data.cap⟩ else none

/-- Accessor calls, one after another: their answers and the `Data` they leave. -/
def run : List Accessor → Data → List (Option (Handed α)) × Data
  | [], data => ([], data)
  | accessor :: rest, data =>
      let (answer, after) := access layout memory data accessor
      let (answers, last) := run rest after
      (answer :: answers, last)

/-! ## Single calls -/

theorem getRawPtr_of_none {after : Data} (refused : getRawPtr layout data = (none, after)) :
    after = data := by
  rw [getRawPtr] at refused
  split at refused
  · exact (Prod.mk.inj refused).2.symm
  · simp at refused

variable {data} in
/-- A refused call leaves the `Data` as it was. -/
theorem access_of_none {after : Data} {accessor : Accessor}
    (refused : access layout memory data accessor = (none, after)) : after = data := by
  have raw : (getRawPtr layout data).1 = none → (getRawPtr layout data).2 = data :=
    fun none => getRawPtr_of_none layout data (Prod.ext none rfl)
  cases accessor <;>
    simp only [access, getSliceStatic, getSliceStaticMut, getSlice, getMutSlice, takeVec,
      rawSlice] at refused
  all_goals
    try split at refused
    all_goals
      obtain ⟨answer, rfl⟩ := Prod.mk.inj refused
      first
        | rfl
        | exact raw (Option.map_eq_none_iff.mp answer)

/-- The accessors that the tag of a constructor admits. -/
def admits : DataOrigin → Accessor → Bool
  | _, .getSlice => true
  | .owned, .takeVec => true
  | .static, .getSliceStatic => true
  | .staticMut, .getSliceStatic | .staticMut, .getSliceStaticMut | .staticMut, .getMutSlice => true
  | _, _ => false

variable {layout data} (origin : DataOrigin) (buffer : Buffer layout)

/-- What an admitted accessor returns. -/
def hand (accessor : Accessor) : Handed α where
  contents := elementsAt layout memory buffer.ptr buffer.len
  vec := if accessor = .takeVec then some ⟨buffer.ptr, buffer.len, buffer.cap⟩ else none

/-- A `Data` whose pointer has been taken. -/
def spent : Data := { new origin buffer with ptr := 0 }

theorem access_spent (accessor : Accessor) :
    access layout memory (spent origin buffer) accessor = (none, spent origin buffer) := by
  have raw : getRawPtr layout (spent origin buffer) = (none, spent origin buffer) :=
    if_pos (.inl rfl)
  cases accessor <;>
    simp [access, getSliceStatic, getSliceStaticMut, getSlice, getMutSlice, takeVec, rawSlice, raw]

@[simp]
theorem new_ptr : (new origin buffer).ptr = buffer.ptr := by cases origin <;> rfl

@[simp]
theorem new_len : (new origin buffer).len = buffer.len := by cases origin <;> rfl

/-- The tags of the four constructors. -/
def tagOf : DataOrigin → DataTag
  | .static => DataTag.empty.asStaticBorrow
  | .staticMut => DataTag.empty.asStaticBorrow.asMut
  | .owned => DataTag.empty
  | .borrow => ⟨1#8 <<< 0⟩

@[simp]
theorem new_tag : (new origin buffer).tag = tagOf origin := by cases origin <;> rfl

@[simp]
theorem tagOf_borrow : (tagOf origin).borrow = decide (origin ≠ .owned) := by
  cases origin <;> decide

@[simp]
theorem tagOf_isStatic :
    (tagOf origin).isStatic = decide (origin = .static ∨ origin = .staticMut) := by
  cases origin <;> decide

@[simp]
theorem tagOf_isMut : (tagOf origin).isMut = decide (origin = .staticMut) := by
  cases origin <;> decide

theorem access_new_of_long (long : isizeMax < buffer.len) (accessor : Accessor) :
    access layout memory (new origin buffer) accessor = (none, new origin buffer) := by
  have raw : getRawPtr layout (new origin buffer) = (none, new origin buffer) :=
    if_pos (.inr (.inl (by rwa [new_len])))
  cases accessor <;>
    simp [access, getSliceStatic, getSliceStaticMut, getSlice, getMutSlice, takeVec, rawSlice, raw]

theorem access_new (short : buffer.len ≤ isizeMax) (accessor : Accessor) :
    access layout memory (new origin buffer) accessor =
      if admits origin accessor then (some (hand memory buffer accessor), spent origin buffer)
      else (none, new origin buffer) := by
  have raw : getRawPtr layout (new origin buffer) = (some buffer.ptr, spent origin buffer) := by
    rw [getRawPtr, new_ptr, if_neg]
    · rfl
    rintro (null | long | misaligned)
    · exact buffer.nonNull null
    · exact absurd short (Nat.not_le_of_gt (new_len origin buffer ▸ long))
    · exact misaligned buffer.aligned
  cases accessor with
  | takeVec =>
      cases origin <;> simp [access, takeVec, raw, hand, admits]
      rfl
  | getSliceStatic | getSliceStaticMut | getSlice | getMutSlice =>
      cases origin <;>
        simp [access, getSliceStatic, getSliceStaticMut, getSlice, getMutSlice, rawSlice, raw, hand,
          admits]

/-! ## Sequences of calls -/

/-- The call that takes the pointer. -/
def taker (calls : List Accessor) : Option Accessor :=
  if buffer.len ≤ isizeMax then calls.find? (admits origin) else none

theorem admits_of_taker {calls : List Accessor} {accessor : Accessor}
    (taken : taker origin buffer calls = some accessor) : admits origin accessor = true := by
  rw [taker] at taken
  split at taken
  · exact List.find?_some taken
  · simp at taken

theorem run_spent (calls : List Accessor) :
    (run layout memory calls (spent origin buffer)).1.reduceOption = [] ∧
      (run layout memory calls (spent origin buffer)).2 = spent origin buffer := by
  induction calls with
  | nil => exact ⟨rfl, rfl⟩
  | cons accessor rest induction =>
      simp only [run, access_spent, List.reduceOption_cons_of_none]
      exact induction

/-- Only the call that takes the pointer is answered. -/
theorem run_new (calls : List Accessor) :
    (run layout memory calls (new origin buffer)).1.reduceOption =
        ((taker origin buffer calls).map (hand memory buffer)).toList ∧
      (run layout memory calls (new origin buffer)).2 =
        if (taker origin buffer calls).isSome then spent origin buffer else new origin buffer := by
  by_cases short : buffer.len ≤ isizeMax
  · simp only [taker, if_pos short]
    induction calls with
    | nil => exact ⟨rfl, rfl⟩
    | cons accessor rest induction =>
        simp only [run, access_new memory origin buffer short]
        by_cases admitted : admits origin accessor = true
        · obtain ⟨silent, last⟩ := run_spent memory origin buffer rest
          simp [admitted, List.find?_cons_of_pos, silent, last]
        · simp only [if_neg admitted, List.find?_cons_of_neg admitted,
            List.reduceOption_cons_of_none]
          exact induction
  · simp only [taker, if_neg short]
    induction calls with
    | nil => exact ⟨rfl, rfl⟩
    | cons accessor rest induction =>
        simp only [run, access_new_of_long memory origin buffer (Nat.not_le.mp short),
          List.reduceOption_cons_of_none]
        exact induction

/-- Who owns the buffer in the end: the returned `Vec`s and the `Vec` freed by `drop`. -/
def owners (layout : Layout) (memory : Nat → α) (calls : List Accessor) (data : Data) :
    List RawVec :=
  (run layout memory calls data).1.reduceOption.filterMap Handed.vec ++
    (drop (run layout memory calls data).2).toList

theorem drop_spent : drop (spent origin buffer) = none := by simp [drop, spent]

theorem drop_new_owned :
    drop (new .owned buffer) = some ⟨buffer.ptr, buffer.len, buffer.cap⟩ := by
  rw [drop, new_tag, tagOf_borrow, new_ptr, if_pos (by simp [buffer.nonNull])]
  rfl

/-- The owner of an owned buffer, by the call that took the pointer. -/
theorem owners_owned (calls : List Accessor) :
    owners layout memory calls (new .owned buffer) =
      if taker .owned buffer calls = some .getSlice then []
      else [⟨buffer.ptr, buffer.len, buffer.cap⟩] := by
  obtain ⟨answers, last⟩ := run_new memory .owned buffer calls
  rw [owners, answers, last]
  cases taken : taker .owned buffer calls with
  | none => simp [drop_new_owned]
  | some accessor =>
      have admitted := admits_of_taker _ _ taken
      cases accessor <;> simp_all [admits, hand, drop_spent]

/-- Nobody owns a buffer that was only borrowed. -/
theorem owners_foreign (foreign : origin ≠ .owned) (calls : List Accessor) :
    owners layout memory calls (new origin buffer) = [] := by
  obtain ⟨answers, last⟩ := run_new memory origin buffer calls
  rw [owners, answers, last]
  cases taken : taker origin buffer calls with
  | none => simp [drop, foreign]
  | some accessor =>
      have lent : accessor ≠ .takeVec := by
        rintro rfl
        have admitted := admits_of_taker _ _ taken
        cases origin <;> simp_all [admits]
      simp [hand, lent, drop_spent]

/-- The first call that an owned `Data` admits only lends the buffer. -/
def LendsFirst (calls : List Accessor) : Prop :=
  calls.find? (fun call => decide (call = .getSlice ∨ call = .takeVec)) = some .getSlice

theorem taker_owned_eq_getSlice_iff (calls : List Accessor) :
    taker .owned buffer calls = some .getSlice ↔ buffer.len ≤ isizeMax ∧ LendsFirst calls := by
  have same : admits .owned = fun call => decide (call = .getSlice ∨ call = .takeVec) := by
    funext call
    cases call <;> rfl
  rw [taker, LendsFirst, same]
  split
  · rename_i short
    exact (and_iff_right short).symm
  · rename_i long
    exact ⟨nofun, fun both => absurd both.1 long⟩

/-- At most one accessor is answered, with the contents of the buffer, and a refused call changes
nothing.  An owned buffer has one owner in the end exactly when it is not lent before it is taken,
and another buffer is never owned. -/
theorem run_handsOver (layout : Layout) (memory : Nat → α) (origin : DataOrigin)
    (buffer : Buffer layout) (calls : List Accessor) :
    (run layout memory calls (new origin buffer)).1.reduceOption.length ≤ 1 ∧
    (∀ handed ∈ (run layout memory calls (new origin buffer)).1.reduceOption,
      handed.contents = elementsAt layout memory buffer.ptr buffer.len ∧
        handed.contents.length = buffer.len) ∧
    (∀ done accessor rest after, calls = done ++ accessor :: rest →
      access layout memory (run layout memory done (new origin buffer)).2 accessor =
        (none, after) →
      after = (run layout memory done (new origin buffer)).2) ∧
    (origin = .owned → (owners layout memory calls (new origin buffer) =
        [⟨buffer.ptr, buffer.len, buffer.cap⟩] ↔
      (buffer.len ≤ isizeMax → ¬ LendsFirst calls))) ∧
    (origin ≠ .owned → owners layout memory calls (new origin buffer) = []) := by
  obtain ⟨answers, last⟩ := run_new memory origin buffer calls
  refine ⟨?_, ?_, ?_, ?_, ?_⟩
  · rw [answers]
    cases taker origin buffer calls <;> simp
  · rw [answers]
    intro handed member
    obtain ⟨accessor, -, rfl⟩ := Option.map_eq_some_iff.mp (Option.mem_toList.mp member)
    exact ⟨rfl, by simp [hand, elementsAt]⟩
  · intro done accessor rest after _ refused
    exact access_of_none layout memory refused
  · rintro rfl
    rw [owners_owned, ← not_and, ← taker_owned_eq_getSlice_iff]
    split <;> simp_all
  · exact fun foreign => owners_foreign memory origin buffer foreign calls

/-- An owned buffer that is lent is never freed. -/
theorem newOwned_getSlice_leaks :
    owners ⟨4, 4⟩ (fun address => address) [.getSlice, .takeVec]
      (newOwned (⟨0x1000, 3, 4, by decide, by decide⟩ : Buffer ⟨4, 4⟩)) = [] := by
  decide

end Data

end Okots
