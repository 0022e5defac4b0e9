import Mathlib.Algebra.Group.Nat.Defs
import Mathlib.Tactic.Common

/-!
# Machine integers and memory ranges

Unsigned arithmetic follows the build profile: overflow checks are on in the `dev` profile and off
in the `release` profile.  A `none` stands for the panic of a failed check.
-/

namespace Okots

/-- The two build profiles of the kernel. -/
inductive Profile where
  | dev
  | release
  deriving DecidableEq

/-- Number of values of a `usize`. -/
def usizeCount : Nat := 2 ^ 64

/-- `usize` addition. -/
def usizeAdd (profile : Profile) (left right : Nat) : Option Nat :=
  if left + right < usizeCount then
    some (left + right)
  else
    match profile with
    | .dev => none
    | .release => some ((left + right) % usizeCount)

/-- `usize` multiplication. -/
def usizeMul (profile : Profile) (left right : Nat) : Option Nat :=
  if left * right < usizeCount then
    some (left * right)
  else
    match profile with
    | .dev => none
    | .release => some ((left * right) % usizeCount)

/-- `usize` subtraction. -/
def usizeSub (profile : Profile) (left right : Nat) : Option Nat :=
  if right ≤ left then
    some (left - right)
  else
    match profile with
    | .dev => none
    | .release => some ((left + usizeCount - right) % usizeCount)

theorem usizeAdd_of_lt (profile : Profile) {left right : Nat} (fits : left + right < usizeCount) :
    usizeAdd profile left right = some (left + right) := by
  simp [usizeAdd, fits]

theorem usizeMul_of_lt (profile : Profile) {left right : Nat} (fits : left * right < usizeCount) :
    usizeMul profile left right = some (left * right) := by
  simp [usizeMul, fits]

theorem usizeSub_of_le (profile : Profile) {left right : Nat} (order : right ≤ left) :
    usizeSub profile left right = some (left - right) := by
  simp [usizeSub, order]

/-- `!0xFFF`. -/
def pageMask : Nat := 0xFFFFFFFFFFFFF000

theorem and_pageMask {value : Nat} (fits : value < usizeCount) :
    value &&& pageMask = value / 4096 * 4096 := by
  have mask : pageMask = (2 ^ 52 - 1) <<< 12 := by decide
  apply Nat.eq_of_testBit_eq
  intro index
  rw [Nat.testBit_and, mask, Nat.testBit_shiftLeft, Nat.testBit_two_pow_sub_one,
    show (4096 : Nat) = 2 ^ 12 from rfl, Nat.testBit_mul_two_pow, Nat.testBit_div_two_pow]
  by_cases high : 12 ≤ index
  · have position : index - 12 + 12 = index := by omega
    rw [decide_eq_true high, position, Bool.true_and]
    by_cases inside : index - 12 < 52
    · simp [inside]
    · have beyond : value.testBit index = false := by
        apply Nat.testBit_lt_two_pow
        exact Nat.lt_of_lt_of_le fits (Nat.pow_le_pow_right (by decide) (by omega))
      simp [beyond]
  · simp [high]

/-- The result of an operation on unsigned integers of a width, given its value before wrapping. -/
def uintWrap (width : Nat) (profile : Profile) (value : Nat) : Option Nat :=
  if value < 2 ^ width then
    some value
  else
    match profile with
    | .dev => none
    | .release => some (value % 2 ^ width)

/-- Addition of unsigned integers of a width. -/
def uintAdd (width : Nat) (profile : Profile) (left right : Nat) : Option Nat :=
  uintWrap width profile (left + right)

/-- Multiplication of unsigned integers of a width. -/
def uintMul (width : Nat) (profile : Profile) (left right : Nat) : Option Nat :=
  uintWrap width profile (left * right)

/-- Subtraction of unsigned integers of a width. -/
def uintSub (width : Nat) (profile : Profile) (left right : Nat) : Option Nat :=
  if right ≤ left then
    some (left - right)
  else
    match profile with
    | .dev => none
    | .release => some ((left + 2 ^ width - right) % 2 ^ width)

section Unsigned

variable {width left right : Nat} (profile : Profile)

theorem uintAdd_of_lt (fits : left + right < 2 ^ width) :
    uintAdd width profile left right = some (left + right) := if_pos fits

theorem uintAdd_eq_none_iff :
    uintAdd width profile left right = none ↔ profile = .dev ∧ 2 ^ width ≤ left + right := by
  unfold uintAdd uintWrap
  by_cases fits : left + right < 2 ^ width
  · simp [fits]
  · cases profile <;> simp [fits, Nat.not_lt.mp fits]

theorem uintMul_of_lt (fits : left * right < 2 ^ width) :
    uintMul width profile left right = some (left * right) := if_pos fits

theorem uintSub_of_le (order : right ≤ left) :
    uintSub width profile left right = some (left - right) := if_pos order

/-! Without overflow checks every operation has a result. -/

theorem uintWrap_release (width value : Nat) :
    ∃ result, uintWrap width .release value = some result := by
  rw [uintWrap]
  split
  · exact ⟨_, rfl⟩
  · exact ⟨_, rfl⟩

theorem uintAdd_release (width left right : Nat) :
    ∃ sum, uintAdd width .release left right = some sum :=
  uintWrap_release width (left + right)

theorem uintMul_release (width left right : Nat) :
    ∃ product, uintMul width .release left right = some product :=
  uintWrap_release width (left * right)

theorem uintSub_release (width left right : Nat) :
    ∃ difference, uintSub width .release left right = some difference := by
  rw [uintSub]
  split
  · exact ⟨_, rfl⟩
  · exact ⟨_, rfl⟩

end Unsigned

/-- A start address and a length in bytes. -/
structure MemRangeData where
  /-- First address of the range. -/
  start : Nat
  /-- Number of bytes. -/
  len : Nat
  deriving DecidableEq, Repr

namespace MemRangeData

/-- The address after the last byte, as `usize` addition computes it. -/
def end? (profile : Profile) (range : MemRangeData) : Option Nat :=
  usizeAdd profile range.start range.len

/-- The value `end` has whenever it does not panic. -/
def wrappedEnd (range : MemRangeData) : Nat := (range.start + range.len) % usizeCount

/-- The end address is a `usize`. -/
def Fits (range : MemRangeData) : Prop := range.start + range.len < usizeCount

/-- Start and length are multiples of the page size. -/
def Aligned (range : MemRangeData) : Prop := 4096 ∣ range.start ∧ 4096 ∣ range.len

instance (range : MemRangeData) : Decidable range.Fits := inferInstanceAs (Decidable (_ < _))

instance (range : MemRangeData) : Decidable range.Aligned := inferInstanceAs (Decidable (_ ∧ _))

/-- The bytes of a range. -/
def contains (range : MemRangeData) (address : Nat) : Bool :=
  decide (range.start ≤ address ∧ address < range.start + range.len)

theorem contains_iff {range : MemRangeData} {address : Nat} :
    range.contains address = true ↔
      range.start ≤ address ∧ address < range.start + range.len := by
  simp [contains]

theorem wrappedEnd_of_fits {range : MemRangeData} (fits : range.Fits) :
    range.wrappedEnd = range.start + range.len :=
  Nat.mod_eq_of_lt fits

theorem end?_of_fits (profile : Profile) {range : MemRangeData} (fits : range.Fits) :
    range.end? profile = some (range.start + range.len) :=
  usizeAdd_of_lt profile fits

theorem wrappedEnd_of_end? {profile : Profile} {range : MemRangeData} {stop : Nat}
    (ends : range.end? profile = some stop) : stop = range.wrappedEnd := by
  unfold end? usizeAdd at ends
  unfold wrappedEnd
  split at ends
  · rename_i fits
    rw [Nat.mod_eq_of_lt fits]
    exact (Option.some.inj ends).symm
  · cases profile with
    | dev => simp at ends
    | release => exact (Option.some.inj ends).symm

end MemRangeData
end Okots
