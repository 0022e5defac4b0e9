import Okots.Simd.Kernels

/-!
# Division kernels

The scalar loops of `batch_div` and `batch_rem` skip elements whose divisor is zero.  The vector
kernels divide whole registers, and a register division panics if any lane of the divisor is zero.
A disabled lane of the last chunk holds zero, so the kernels end only if the length is a multiple of
the number of lanes and no divisor is zero.
-/

namespace Okots

open Lanes

namespace ElementType

variable (type : ElementType)

/-- The quotient, rounded towards zero. -/
def quotient (x y : type.Element) : type.Element := if type.signed then x.sdiv y else x.udiv y

/-- The remainder, with the sign of the dividend. -/
def remainder (x y : type.Element) : type.Element := if type.signed then x.srem y else x.umod y

/-- The quotient of the smallest value by `-1` does not fit. -/
def Overflows (x y : type.Element) : Prop :=
  type.signed = true ∧ x = BitVec.intMin type.width ∧ y = BitVec.allOnes type.width

instance (x y : type.Element) : Decidable (type.Overflows x y) :=
  inferInstanceAs (Decidable (_ ∧ _))

/-- `if b[i] != 0 { a[i] /= b[i] }`, and the same with `%=`; both operators panic on overflow. -/
def guarded (f : type.Element → type.Element → type.Element) (x y : type.Element) :
    Option type.Element :=
  if y ≠ 0 then
    if type.Overflows x y then none else some (f x y)
  else
    some x

/-- A division of registers; it panics if a lane of the divisor is zero. -/
def registerDivision (f : type.Element → type.Element → type.Element) : VectorOp₂ type :=
  fun lanes left right =>
    if ∃ lane : Fin lanes, right lane = 0 then none else eachLane₂ f lanes left right

end ElementType

/-- `batch_div`. -/
def batchDiv (type : ElementType) (a b : List type.Element) :=
  batchBinary type (type.registerDivision type.quotient) (type.guarded type.quotient) a b

/-- `batch_rem`. -/
def batchRem (type : ElementType) (a b : List type.Element) :=
  batchBinary type (type.registerDivision type.remainder) (type.guarded type.remainder) a b

section Division

variable {type : ElementType} {f : type.Element → type.Element → type.Element}

theorem registerDivision_eq_some_iff {lanes : Nat}
    {left right register : Register lanes type.Element} :
    type.registerDivision f lanes left right = some register ↔
      (∀ lane, right lane ≠ 0) ∧ register = fun lane => f (left lane) (right lane) := by
  rw [ElementType.registerDivision]
  split
  · rename_i zero
    obtain ⟨lane, zero⟩ := zero
    exact iff_of_false nofun fun both => both.1 lane zero
  · rename_i nonzero
    rw [not_exists] at nonzero
    rw [eachLane₂, Option.some.injEq, eq_comm]
    exact (and_iff_right nonzero).symm

theorem guarded_of_ne {x y value : type.Element} (nonzero : y ≠ 0)
    (ends : type.guarded f x y = some value) : f x y = value := by
  rw [ElementType.guarded, if_pos nonzero] at ends
  split at ends
  · cases ends
  · exact Option.some.inj ends

/-- The divisors of the chunks are nonzero exactly if the length is a multiple of the number of
lanes and no divisor is zero. -/
theorem divisors_nonzero_iff {lanes len : Nat} (positive : 0 < lanes) (b : List type.Element) :
    (∀ i < len, lanes ∣ i → ∀ lane : Fin lanes, chunk lanes len 0 b i lane ≠ 0) ↔
      lanes ∣ len ∧ ∀ i < len, b.getD i 0 ≠ 0 := by
  constructor
  · intro nonzero
    have start (i : Nat) : i / lanes * lanes + i % lanes = i := Nat.div_add_mod' i lanes
    refine ⟨?_, ?_⟩
    · by_contra partly
      have rest : 0 < len % lanes := by
        apply Nat.pos_of_ne_zero
        exact fun zero => partly (Nat.dvd_of_mod_eq_zero zero)
      have split := start len
      -- the first disabled lane of the last chunk
      refine nonzero (len / lanes * lanes) (by omega) (Nat.dvd_mul_left _ _)
        ⟨len % lanes, Nat.mod_lt _ positive⟩ ?_
      exact if_neg (by simp only; omega)
    · intro i inside
      have split := start i
      have value := nonzero (i / lanes * lanes) (by omega) (Nat.dvd_mul_left _ _)
        ⟨i % lanes, Nat.mod_lt _ positive⟩
      rw [chunk_of_lt (by simp only; omega)] at value
      simpa only [split] using value
  · rintro ⟨aligned, nonzero⟩ i inside divides lane
    have gap : lanes ≤ len - i := Nat.le_of_dvd (by omega) (Nat.dvd_sub aligned divides)
    have short : i + lane < len := by
      have := lane.isLt
      omega
    rw [chunk_of_lt short]
    exact nonzero _ short

theorem zero_notMem_take_iff {len : Nat} {b : List type.Element} (fits : len ≤ b.length) :
    (0 : type.Element) ∉ b.take len ↔ ∀ i < len, b.getD i 0 ≠ 0 := by
  constructor
  · intro absent i inside zero
    apply absent
    have found : b[i]? = some 0 := zero ▸ getElem?_eq_getD (Nat.lt_of_lt_of_le inside fits) 0
    exact List.mem_of_getElem? ((List.getElem?_take_of_lt inside).trans found)
  · intro nonzero member
    obtain ⟨i, found⟩ := List.mem_iff_getElem?.mp member
    obtain ⟨inside, -⟩ := List.getElem?_eq_some_iff.mp found
    have before : i < len := Nat.lt_of_lt_of_le inside (List.length_take_le len b)
    rw [List.getElem?_take_of_lt before] at found
    apply nonzero i before
    rw [List.getD_eq_getElem?_getD, found, Option.getD_some]

/-- A division kernel gives what the scalar loop gives exactly if the chunks are full and no divisor
is zero. -/
theorem batchDivision_eq_some_iff {level : SimdLevel} (simd : level ≠ .none)
    {a b final : List type.Element}
    (loop : batchBinary type (type.registerDivision f) (type.guarded f) a b .none = some final) :
    batchBinary type (type.registerDivision f) (type.guarded f) a b level = some final ↔
      type.lanes level.bits ∣ min a.length b.length ∧ 0 ∉ b.take (min a.length b.length) := by
  have fits := Nat.min_le_left a.length b.length
  have fits_other := Nat.min_le_right a.length b.length
  have positive := lanes_pos simd type
  obtain ⟨result, rfl, each⟩ := (scalar_eq_some_iff final).mp loop
  rw [batchBinary_vector simd, zero_notMem_take_iff fits_other, ← divisors_nonzero_iff positive,
    binary_eq_some_iff positive (lanes_le simd type) fits fits_other]
  constructor
  · rintro ⟨last, -, computes⟩ i inside aligned
    obtain ⟨register, computed, -⟩ := computes i inside aligned
    exact (registerDivision_eq_some_iff.mp computed).1
  · intro nonzero
    refine ⟨result, rfl, fun i inside aligned => ?_⟩
    refine ⟨_, registerDivision_eq_some_iff.mpr ⟨nonzero i inside aligned, rfl⟩, ?_⟩
    intro lane short
    have divisor := nonzero i inside aligned lane
    obtain ⟨old, found, ends⟩ := each (i + lane) short
    rw [chunk_of_lt short] at divisor
    rw [chunk_of_lt short, chunk_of_lt short]
    rw [getElem?_eq_getD (by omega) 0] at found
    rw [getElem?_eq_getD (by omega) 0] at ends
    obtain rfl := Option.some.inj found
    exact guarded_of_ne divisor ends

end Division

/-- Whenever the scalar loop ends, the vector kernel gives its result exactly if the length is a
multiple of the number of lanes and no divisor is zero. -/
theorem batchDivision_agrees_iff (type : ElementType) (level : SimdLevel) (simd : level ≠ .none)
    (a b : List type.Element) :
    (∀ final, batchDiv type a b .none = some final →
      (batchDiv type a b level = some final ↔
        type.lanes level.bits ∣ min a.length b.length ∧ 0 ∉ b.take (min a.length b.length))) ∧
    (∀ final, batchRem type a b .none = some final →
      (batchRem type a b level = some final ↔
        type.lanes level.bits ∣ min a.length b.length ∧ 0 ∉ b.take (min a.length b.length))) :=
  ⟨fun _ loop => batchDivision_eq_some_iff simd loop,
    fun _ loop => batchDivision_eq_some_iff simd loop⟩

/-- Two full lanes with nonzero divisors. -/
theorem batchDivision_agrees_full :
    batchDiv .u64 [7, 9] [2, 3] .sse4 = some [3, 3] ∧
      batchRem .u64 [7, 9] [2, 3] .sse4 = some [1, 0] := by
  have agree := batchDivision_agrees_iff .u64 .sse4 (by decide) [7, 9] [2, 3]
  exact ⟨(agree.1 [3, 3] (by decide)).mpr ⟨by decide, by decide⟩,
    (agree.2 [1, 0] (by decide)).mpr ⟨by decide, by decide⟩⟩

/-- A slice that does not fill its register, and a divisor that is zero. -/
theorem batchDiv_panics :
    (batchDiv .u64 [6] [3] .none = some [2] ∧ batchDiv .u64 [6] [3] .sse4 = none) ∧
      batchDiv .u64 [6, 7] [3, 0] .none = some [2, 7] ∧
      batchDiv .u64 [6, 7] [3, 0] .sse4 = none := by
  refine ⟨⟨by decide, by decide⟩, by decide, by decide⟩

end Okots
