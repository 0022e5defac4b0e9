import Okots.Simd.Kernels

/-!
# Rotation kernels

The vector kernels of `batch_rotl` and `batch_rotr` combine a left shift with a right shift.  For a
signed type the right shift is arithmetic and fills with the sign, so a negative element comes out
rotated only if the bits that the sign covers are set anyway.
-/

namespace Okots

open Lanes

namespace ElementType

variable (type : ElementType)

/-- The number of bits as a lane. -/
def laneBits : type.Element := BitVec.ofNat type.width (type.size * 8)

/-- The lanes of `def_shift!` for `rotl`. -/
def laneRotl (value amount : type.Element) : type.Element :=
  type.laneShl value amount ||| type.laneShr value (type.laneBits - amount)

/-- The lanes of `def_shift!` for `rotr`. -/
def laneRotr (value amount : type.Element) : type.Element :=
  type.laneShr value amount ||| type.laneShl value (type.laneBits - amount)

end ElementType

/-- `batch_rotl`. -/
def batchRotl (type : ElementType) (a : List type.Element) (n : BitVec 32) :=
  batchUnary type (eachLane (type.laneRotl · (n.setWidth type.width)))
    (fun x => some (x.rotateLeft n.toNat)) a

/-- `batch_rotr`. -/
def batchRotr (type : ElementType) (a : List type.Element) (n : BitVec 32) :=
  batchUnary type (eachLane (type.laneRotr · (n.setWidth type.width)))
    (fun x => some (x.rotateRight n.toNat)) a

/-- The sign that an arithmetic right shift fills in changes nothing: the type is unsigned, the
value is not negative, or the lowest `distance` bits are set. -/
def SignHarmless (type : ElementType) (distance : Nat) (x : type.Element) : Prop :=
  type.signed = true → x.msb = true → ∀ bit < distance, x.getLsbD bit = true

/-! ## One element -/

section Element

variable {type : ElementType} (x : type.Element)

theorem width_pos (type : ElementType) : 0 < type.width := by
  cases type <;> decide

/-- The distance of the complementary shift. -/
theorem toNat_complement (type : ElementType) (n : BitVec 32) :
    (type.laneBits - n.setWidth type.width).toNat % type.width =
      (type.width - n.toNat % type.width) % type.width := by
  have bound := n.isLt
  rw [ElementType.laneBits, BitVec.toNat_sub, BitVec.toNat_setWidth, BitVec.toNat_ofNat]
  cases type <;> simp only [ElementType.width, ElementType.size] <;> omega

/-- The bits of a right shift. -/
theorem getLsbD_shr {distance bit : Nat} (inside : bit < type.width) :
    (type.shr x distance).getLsbD bit =
      if distance + bit < type.width then x.getLsbD (distance + bit)
      else type.signed && x.msb := by
  rw [ElementType.shr]
  cases type.signed with
  | false =>
      rw [if_neg Bool.false_ne_true, BitVec.getLsbD_ushiftRight, Bool.false_and]
      split
      · rfl
      · rename_i outside
        exact BitVec.getLsbD_of_ge _ _ (Nat.not_lt.mp outside)
  | true =>
      rw [if_pos rfl, BitVec.getLsbD_sshiftRight, decide_eq_false (Nat.not_le.mpr inside),
        Bool.not_false, Bool.true_and, Bool.true_and]

/-- The bits of the two shifts of a rotation. -/
theorem getLsbD_shifts {left right bit : Nat} (inside : bit < type.width)
    (opposite : right + left = type.width) :
    ((x <<< left) ||| type.shr x right).getLsbD bit =
      if bit < left then x.getLsbD (right + bit)
      else (x.getLsbD (bit - left) || (type.signed && x.msb)) := by
  rw [BitVec.getLsbD_or, BitVec.getLsbD_shiftLeft, getLsbD_shr x inside, decide_eq_true inside]
  by_cases low : bit < left
  · rw [if_pos low, if_pos (by omega), decide_eq_true low]
    simp
  · rw [if_neg low, if_neg (by omega), decide_eq_false low]
    simp

/-- The shifts give the rotated value exactly if the sign does no harm. -/
theorem shifts_eq_iff {left right : Nat} {rotated : type.Element}
    (opposite : right + left = type.width ∨ right = 0 ∧ left = 0)
    (bits : ∀ bit < type.width, rotated.getLsbD bit =
      if bit < left then x.getLsbD (right + bit) else x.getLsbD (bit - left)) :
    (x <<< left) ||| type.shr x right = rotated ↔ SignHarmless type right x := by
  obtain opposite | ⟨rfl, rfl⟩ := opposite
  · constructor
    · intro same signed negative bit low
      have inside : left + bit < type.width := by omega
      have value := congrArg (·.getLsbD (left + bit)) same
      simp only [getLsbD_shifts x inside opposite, bits _ inside] at value
      rw [if_neg (by omega), if_neg (by omega), Nat.add_sub_cancel_left, signed, negative] at value
      simpa using value.symm
    · intro harmless
      apply BitVec.eq_of_getLsbD_eq
      intro bit inside
      rw [getLsbD_shifts x inside opposite, bits bit inside]
      split
      · rfl
      · rename_i high
        cases sign : type.signed && x.msb with
        | false => rw [Bool.or_false]
        | true =>
            obtain ⟨signed, negative⟩ := Bool.and_eq_true_iff.mp sign
            rw [harmless signed negative (bit - left) (by omega), Bool.or_true]
  · refine iff_of_true ?_ fun _ _ bit none => absurd none (Nat.not_lt_zero bit)
    apply BitVec.eq_of_getLsbD_eq
    intro bit inside
    rw [BitVec.shiftLeft_zero, BitVec.getLsbD_or, getLsbD_shr x inside, bits bit inside,
      if_pos (by omega), if_neg (Nat.not_lt_zero bit), Nat.zero_add, Nat.sub_zero, Bool.or_self]

theorem complement_cases {distance width : Nat} (small : distance < width) :
    (width - distance) % width + distance = width ∨
      (width - distance) % width = 0 ∧ distance = 0 := by
  obtain rfl | positive := Nat.eq_zero_or_pos distance
  · exact .inr ⟨by rw [Nat.sub_zero, Nat.mod_self], rfl⟩
  · rw [Nat.mod_eq_of_lt (by omega)]
    exact .inl (by omega)

theorem laneRotl_eq_iff (n : BitVec 32) :
    type.laneRotl x (n.setWidth type.width) = x.rotateLeft n.toNat ↔
      SignHarmless type ((type.width - n.toNat % type.width) % type.width) x := by
  have cases := complement_cases (Nat.mod_lt n.toNat (width_pos type))
  rw [ElementType.laneRotl, ElementType.laneShl, ElementType.laneShr, toNat_amount,
    toNat_complement]
  refine shifts_eq_iff x cases fun bit inside => ?_
  rw [BitVec.getLsbD_rotateLeft, cond_eq_ite, decide_eq_true inside, Bool.true_and]
  simp only [decide_eq_true_eq]
  by_cases low : bit < n.toNat % type.width
  · rw [if_pos low, if_pos low]
    congr 1
    omega
  · rw [if_neg low, if_neg low]

theorem laneRotr_eq_iff (n : BitVec 32) :
    type.laneRotr x (n.setWidth type.width) = x.rotateRight n.toNat ↔
      SignHarmless type (n.toNat % type.width) x := by
  have cases := complement_cases (Nat.mod_lt n.toNat (width_pos type))
  rw [ElementType.laneRotr, ElementType.laneShl, ElementType.laneShr, toNat_amount,
    toNat_complement, BitVec.or_comm]
  refine shifts_eq_iff x (cases.imp (fun sum => by omega) And.symm) fun bit inside => ?_
  rw [BitVec.getLsbD_rotateRight, cond_eq_ite, decide_eq_true inside, Bool.true_and]
  simp only [decide_eq_true_eq]
  obtain sum | ⟨whole, zero⟩ := cases
  · rw [show (type.width - n.toNat % type.width) % type.width =
      type.width - n.toNat % type.width by omega]
  · rw [whole, zero, if_pos (by omega), if_neg (Nat.not_lt_zero bit), Nat.zero_add, Nat.sub_zero]

end Element

/-! ## Slices -/

/-- A kernel that always ends gives what the scalar loop gives exactly if it does so for each
element. -/
theorem batchUnary_eq_some_iff {type : ElementType} {level : SimdLevel} (simd : level ≠ .none)
    (vector element : type.Element → type.Element) (a : List type.Element) :
    ∃ final, batchUnary type (eachLane vector) (fun x => some (element x)) a .none = some final ∧
      (batchUnary type (eachLane vector) (fun x => some (element x)) a level = some final ↔
        ∀ x ∈ a, vector x = element x) := by
  have loop : batchUnary type (eachLane vector) (fun x => some (element x)) a .none =
      some (overwrite (fun index => element (a.getD index 0)) a.length a) :=
    scalar_pointwise (Nat.le_refl _) element
  refine ⟨_, loop, ?_⟩
  rw [batchUnary_pointwise simd, Option.some.injEq, overwrite_inj (Nat.le_refl _)]
  constructor
  · intro same x member
    obtain ⟨index, found⟩ := List.mem_iff_getElem?.mp member
    obtain ⟨inside, -⟩ := List.getElem?_eq_some_iff.mp found
    have value := same index inside
    rwa [List.getD_eq_getElem?_getD, found, Option.getD_some] at value
  · intro same index inside
    exact same _ (List.mem_of_getElem? (getElem?_eq_getD inside 0))

/-- The rotation kernels agree with the scalar loops exactly if the sign does no harm to any
element. -/
theorem batchRotation_agrees_iff (type : ElementType) (level : SimdLevel) (simd : level ≠ .none)
    (a : List type.Element) (n : BitVec 32) :
    (∃ final, batchRotl type a n .none = some final ∧
      (batchRotl type a n level = some final ↔
        ∀ x ∈ a, SignHarmless type ((type.width - n.toNat % type.width) % type.width) x)) ∧
    ∃ final, batchRotr type a n .none = some final ∧
      (batchRotr type a n level = some final ↔
        ∀ x ∈ a, SignHarmless type (n.toNat % type.width) x) := by
  refine ⟨?_, ?_⟩
  · simp only [← laneRotl_eq_iff]
    exact batchUnary_eq_some_iff simd _ _ a
  · simp only [← laneRotr_eq_iff]
    exact batchUnary_eq_some_iff simd _ _ a

/-- Unsigned elements are rotated, and so is a negative one by a bit that is set. -/
theorem batchRotation_agrees_harmless :
    batchRotl .u64 [0x8000000000000001] 1 .sse4 = some [3] ∧
      batchRotr .u64 [3] 1 .sse4 = some [0x8000000000000001] ∧
      batchRotr .i64 [0x8000000000000001] 1 .sse4 = some [0xC000000000000000] := by
  obtain ⟨⟨left, left_loop, left_iff⟩, -⟩ :=
    batchRotation_agrees_iff .u64 .sse4 (by decide) [0x8000000000000001] 1
  obtain ⟨-, right, right_loop, right_iff⟩ :=
    batchRotation_agrees_iff .u64 .sse4 (by decide) [3] 1
  obtain ⟨-, signed, signed_loop, signed_iff⟩ :=
    batchRotation_agrees_iff .i64 .sse4 (by decide) [0x8000000000000001] 1
  refine ⟨(left_iff.mpr ?_).trans (left_loop.symm.trans (by decide)),
    (right_iff.mpr ?_).trans (right_loop.symm.trans (by decide)),
    (signed_iff.mpr ?_).trans (signed_loop.symm.trans (by decide))⟩
  · exact fun _ _ signed => by cases signed
  · exact fun _ _ signed => by cases signed
  · intro x member _ _ bit low
    obtain rfl := List.mem_singleton.mp member
    obtain rfl : bit = 0 := Nat.lt_one_iff.mp low
    decide

/-- `i64::MIN` rotated left by one. -/
theorem batchRotl_signed_differs :
    batchRotl .i64 [0x8000000000000000] 1 .none = some [1] ∧
      batchRotl .i64 [0x8000000000000000] 1 .sse4 = some [0xFFFFFFFFFFFFFFFF] :=
  ⟨by decide, by decide⟩

end Okots
