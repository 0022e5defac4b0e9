import Okots.Library.Lanes
import Okots.UtilTypes

/-!
# Integer kernels

The functions that `setup_simd_types!` generates for the integer types.  At `SimdLevel::None` they
are scalar loops, at the other levels loops over vector registers of 128, 256 or 512 bits.  A
computation that panics is `none`.
-/

namespace Okots

open Lanes

/-- The integer types of `setup_simd_types!`. -/
inductive ElementType where
  | u8
  | u16
  | u32
  | u64
  | i8
  | i16
  | i32
  | i64
  deriving DecidableEq

namespace ElementType

/-- `size_of`. -/
def size : ElementType → Nat
  | u8 | i8 => 1
  | u16 | i16 => 2
  | u32 | i32 => 4
  | u64 | i64 => 8

/-- Number of bits. -/
def width (type : ElementType) : Nat := 8 * type.size

def signed : ElementType → Bool
  | u8 | u16 | u32 | u64 => false
  | i8 | i16 | i32 | i64 => true

/-- Number of lanes of a register. -/
def lanes (type : ElementType) (bits : Nat) : Nat := bits / 8 / type.size

/-- Values of the type. -/
abbrev Element (type : ElementType) := BitVec type.width

end ElementType

/-- `SimdLevel`. -/
inductive SimdLevel where
  | none
  | sse4
  | avx2
  | avx512
  deriving DecidableEq

/-- Width of the registers of a level. -/
def SimdLevel.bits : SimdLevel → Nat
  | none => 0
  | sse4 => 128
  | avx2 => 256
  | avx512 => 512

/-! ## Loops -/

section Batch

variable (type : ElementType)

/-- Operations on registers of any number of lanes. -/
abbrev VectorOp :=
  ∀ lanes, Register lanes type.Element → Option (Register lanes type.Element)

abbrev VectorOp₂ :=
  ∀ lanes, Register lanes type.Element → Register lanes type.Element →
    Option (Register lanes type.Element)

/-- The kernels of `def_arith!` and `def_logic!` and the functions that choose among them. -/
def batchBinary (vector : VectorOp₂ type)
    (element : type.Element → type.Element → Option type.Element) (a b : List type.Element)
    (level : SimdLevel) : Option (List type.Element) :=
  let len := min a.length b.length
  match level with
  | .avx512 => binary len 0 (vector (type.lanes 512)) a b
  | .avx2 => binary len 0 (vector (type.lanes 256)) a b
  | .sse4 => binary len 0 (vector (type.lanes 128)) a b
  | .none => scalar len (fun i old => b[i]?.bind (element old)) a

/-- The kernels of `def_not!` and `def_shift!` and the functions that choose among them. -/
def batchUnary (vector : VectorOp type) (element : type.Element → Option type.Element)
    (a : List type.Element) (level : SimdLevel) : Option (List type.Element) :=
  let len := a.length
  match level with
  | .avx512 => unary len 0 (vector (type.lanes 512)) a
  | .avx2 => unary len 0 (vector (type.lanes 256)) a
  | .sse4 => unary len 0 (vector (type.lanes 128)) a
  | .none => scalar len (fun _ old => element old) a

end Batch

/-- An operation on each lane. -/
def eachLane {α : Type*} (f : α → α) (lanes : Nat) (value : Register lanes α) :
    Option (Register lanes α) :=
  some fun lane => f (value lane)

def eachLane₂ {α : Type*} (f : α → α → α) (lanes : Nat) (left right : Register lanes α) :
    Option (Register lanes α) :=
  some fun lane => f (left lane) (right lane)

/-! ## Arithmetic and logic -/

section Operations

variable (type : ElementType) (a b : List type.Element)

/-- `batch_add`. -/
def batchAdd := batchBinary type (eachLane₂ (· + ·)) (fun x y => some (x + y)) a b

/-- `batch_sub`. -/
def batchSub := batchBinary type (eachLane₂ (· - ·)) (fun x y => some (x - y)) a b

/-- `batch_mul`. -/
def batchMul := batchBinary type (eachLane₂ (· * ·)) (fun x y => some (x * y)) a b

/-- `batch_bitand`. -/
def batchBitand := batchBinary type (eachLane₂ (· &&& ·)) (fun x y => some (x &&& y)) a b

/-- `batch_bitor`. -/
def batchBitor := batchBinary type (eachLane₂ (· ||| ·)) (fun x y => some (x ||| y)) a b

/-- `batch_bitxor`. -/
def batchBitxor := batchBinary type (eachLane₂ (· ^^^ ·)) (fun x y => some (x ^^^ y)) a b

/-- `batch_not`. -/
def batchNot := batchUnary type (eachLane (~~~ ·)) (fun x => some (~~~x)) a

end Operations

/-! ## Shifts -/

/-- The distance of a scalar shift. -/
def shiftDistance (profile : Profile) (width : Nat) (n : BitVec 32) : Option Nat :=
  if n.toNat < width then
    some n.toNat
  else
    match profile with
    | .dev => none
    | .release => some (n.toNat % width)

namespace ElementType

variable (type : ElementType)

/-- A right shift; it is arithmetic for the signed types. -/
def shr (value : type.Element) (distance : Nat) : type.Element :=
  if type.signed then value.sshiftRight distance else value >>> distance

/-- A left shift of a lane by the value of another one, modulo the width. -/
def laneShl (value amount : type.Element) : type.Element := value <<< (amount.toNat % type.width)

/-- A right shift of a lane by the value of another one, modulo the width. -/
def laneShr (value amount : type.Element) : type.Element :=
  type.shr value (amount.toNat % type.width)

end ElementType

/-- `batch_shl`. -/
def batchShl (profile : Profile) (type : ElementType) (a : List type.Element) (n : BitVec 32) :=
  batchUnary type (eachLane (type.laneShl · (n.setWidth type.width)))
    (fun x => (shiftDistance profile type.width n).map (x <<< ·)) a

/-- `batch_shr`. -/
def batchShr (profile : Profile) (type : ElementType) (a : List type.Element) (n : BitVec 32) :=
  batchUnary type (eachLane (type.laneShr · (n.setWidth type.width)))
    (fun x => (shiftDistance profile type.width n).map (type.shr x)) a

/-! ## Agreement with the scalar loop -/

/-- Two runs on `a` end with the same slice, which differs from `a` in its first `len` elements at
most. -/
def Agrees {α : Type*} (len : Nat) (a : List α) (vector scalar : Option (List α)) : Prop :=
  ∃ result, vector = some result ∧ scalar = some result ∧ result.length = a.length ∧
    ∀ index, len ≤ index → result[index]? = a[index]?

theorem agrees_overwrite {α : Type*} {len : Nat} {a : List α} {vector scalar : Option (List α)}
    {result : Nat → α} (vector_eq : vector = some (overwrite result len a))
    (scalar_eq : scalar = some (overwrite result len a)) : Agrees len a vector scalar :=
  ⟨_, vector_eq, scalar_eq, length_overwrite, fun _ behind => getElem?_overwrite_of_le behind⟩

section Agree

variable {type : ElementType} {level : SimdLevel} (simd : level ≠ .none)

include simd

theorem lanes_pos (type : ElementType) : 0 < type.lanes level.bits := by
  cases level with
  | none => exact absurd rfl simd
  | _ => cases type <;> decide

theorem lanes_le (type : ElementType) : type.lanes level.bits ≤ 64 := by
  cases level with
  | none => exact absurd rfl simd
  | _ => cases type <;> decide

theorem batchBinary_vector (vector : VectorOp₂ type)
    (element : type.Element → type.Element → Option type.Element) (a b : List type.Element) :
    batchBinary type vector element a b level =
      binary (min a.length b.length) 0 (vector (type.lanes level.bits)) a b := by
  cases level with
  | none => exact absurd rfl simd
  | _ => rfl

theorem batchUnary_vector (vector : VectorOp type)
    (element : type.Element → Option type.Element) (a : List type.Element) :
    batchUnary type vector element a level =
      unary a.length 0 (vector (type.lanes level.bits)) a := by
  cases level with
  | none => exact absurd rfl simd
  | _ => rfl

theorem batchBinary_pointwise (f : type.Element → type.Element → type.Element)
    (element : type.Element → type.Element → Option type.Element) (a b : List type.Element) :
    batchBinary type (eachLane₂ f) element a b level =
      some (overwrite (fun index => f (a.getD index 0) (b.getD index 0)) (min a.length b.length)
        a) := by
  rw [batchBinary_vector simd]
  exact binary_pointwise (lanes_pos simd type) (lanes_le simd type) (Nat.min_le_left _ _)
    (Nat.min_le_right _ _) f

theorem batchUnary_pointwise (f : type.Element → type.Element)
    (element : type.Element → Option type.Element) (a : List type.Element) :
    batchUnary type (eachLane f) element a level =
      some (overwrite (fun index => f (a.getD index 0)) a.length a) := by
  rw [batchUnary_vector simd]
  exact unary_pointwise (lanes_pos simd type) (lanes_le simd type) (Nat.le_refl _) f

end Agree

/-- A kernel whose lanes compute what the scalar loop computes for an element. -/
theorem batchBinary_agrees {type : ElementType} (f : type.Element → type.Element → type.Element)
    (a b : List type.Element) (level : SimdLevel) :
    Agrees (min a.length b.length) a
      (batchBinary type (eachLane₂ f) (fun x y => some (f x y)) a b level)
      (batchBinary type (eachLane₂ f) (fun x y => some (f x y)) a b .none) := by
  have loop : batchBinary type (eachLane₂ f) (fun x y => some (f x y)) a b .none =
      some (overwrite (fun index => f (a.getD index 0) (b.getD index 0)) (min a.length b.length)
        a) :=
    scalar_pointwise_binary (Nat.min_le_left _ _) (Nat.min_le_right _ _) f
  by_cases simd : level = .none
  · rw [simd]
    exact agrees_overwrite loop loop
  · exact agrees_overwrite (batchBinary_pointwise simd f _ a b) loop

theorem batchUnary_agrees {type : ElementType} {f : type.Element → type.Element}
    {element : type.Element → Option type.Element} (total : ∀ x, element x = some (f x))
    (a : List type.Element) (level : SimdLevel) :
    Agrees a.length a (batchUnary type (eachLane f) element a level)
      (batchUnary type (eachLane f) element a .none) := by
  obtain rfl : element = fun x => some (f x) := funext total
  have loop : batchUnary type (eachLane f) (fun x => some (f x)) a .none =
      some (overwrite (fun index => f (a.getD index 0)) a.length a) :=
    scalar_pointwise (Nat.le_refl _) f
  by_cases simd : level = .none
  · rw [simd]
    exact agrees_overwrite loop loop
  · exact agrees_overwrite (batchUnary_pointwise simd f _ a) loop

/-- The distance of a lane shift. -/
theorem toNat_amount (type : ElementType) (n : BitVec 32) :
    (n.setWidth type.width).toNat % type.width = n.toNat % type.width := by
  have bound := n.isLt
  rw [BitVec.toNat_setWidth]
  cases type <;> simp only [ElementType.width, ElementType.size] <;> omega

theorem shiftDistance_of_lt (profile : Profile) {width : Nat} {n : BitVec 32}
    (short : n.toNat < width) : shiftDistance profile width n = some n.toNat := if_pos short

/-- Every kernel agrees with the scalar loop, at any level and for slices of any lengths. -/
theorem batch_agrees (profile : Profile) (type : ElementType) (level : SimdLevel)
    (a b : List type.Element) :
    Agrees (min a.length b.length) a (batchAdd type a b level) (batchAdd type a b .none) ∧
    Agrees (min a.length b.length) a (batchSub type a b level) (batchSub type a b .none) ∧
    Agrees (min a.length b.length) a (batchMul type a b level) (batchMul type a b .none) ∧
    Agrees (min a.length b.length) a (batchBitand type a b level) (batchBitand type a b .none) ∧
    Agrees (min a.length b.length) a (batchBitor type a b level) (batchBitor type a b .none) ∧
    Agrees (min a.length b.length) a (batchBitxor type a b level) (batchBitxor type a b .none) ∧
    Agrees a.length a (batchNot type a level) (batchNot type a .none) ∧
    ∀ n : BitVec 32, n.toNat < type.width →
      Agrees a.length a (batchShl profile type a n level) (batchShl profile type a n .none) ∧
      Agrees a.length a (batchShr profile type a n level) (batchShr profile type a n .none) := by
  refine ⟨batchBinary_agrees _ a b level, batchBinary_agrees _ a b level,
    batchBinary_agrees _ a b level, batchBinary_agrees _ a b level, batchBinary_agrees _ a b level,
    batchBinary_agrees _ a b level, batchUnary_agrees (fun _ => rfl) a level, ?_⟩
  intro n short
  have distance : (n.setWidth type.width).toNat % type.width = n.toNat := by
    rw [toNat_amount, Nat.mod_eq_of_lt short]
  refine ⟨batchUnary_agrees (fun x => ?_) a level, batchUnary_agrees (fun x => ?_) a level⟩
  · rw [shiftDistance_of_lt profile short, ElementType.laneShl, distance]
    rfl
  · rw [shiftDistance_of_lt profile short, ElementType.laneShr, distance]
    rfl

end Okots
