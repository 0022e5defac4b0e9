import Mathlib.Data.List.Basic
import Mathlib.Tactic.Common

/-!
# Loops over masked vector registers

A slice is processed in chunks of as many elements as a register has lanes.  A mask enables the
lanes that lie before the end; a disabled lane holds a filler after a load and is not written by a
store.  The loop has the effect of a scalar loop whenever the computation of each chunk succeeds and
gives the elements of the scalar loop in the enabled lanes; what it computes in the disabled lanes
does not matter, unless it fails there.
-/

namespace Lanes

variable {α : Type*} {lanes len : Nat} {slice : List α}

/-! ## Registers -/

/-- The lanes of a register. -/
abbrev Register (lanes : Nat) (α : Type*) := Fin lanes → α

/-- The mask of a chunk when `remain` elements are left. -/
def laneMask (lanes remain : Nat) : BitVec 64 :=
  if lanes ≤ remain then ~~~0#64 else (1#64 <<< remain) - 1#64

/-- The enabled lanes lie in the slice. -/
def InRange (lanes : Nat) (slice : List α) (start : Nat) (mask : BitVec 64) : Prop :=
  start ≤ slice.length ∧
    ∀ lane : Fin lanes, mask.getLsbD lane = true → start + lane < slice.length

instance (lanes : Nat) (slice : List α) (start : Nat) (mask : BitVec 64) :
    Decidable (InRange lanes slice start mask) :=
  inferInstanceAs (Decidable (_ ∧ _))

/-- Loads the enabled lanes from `slice[start..]`; it fails if one of them lies outside. -/
def load (slice : List α) (start : Nat) (mask : BitVec 64) (filler : α) :
    Option (Register lanes α) :=
  if InRange lanes slice start mask then
    some fun lane =>
      if mask.getLsbD lane = true then slice.getD (start + lane) filler else filler
  else
    none

/-- Stores the enabled lanes to `slice[start..]`; it fails if one of them lies outside. -/
def store (slice : List α) (start : Nat) (mask : BitVec 64) (register : Register lanes α) :
    Option (List α) :=
  if InRange lanes slice start mask then
    some (slice.mapIdx fun index old =>
      if inside : start ≤ index ∧ index - start < lanes then
        if mask.getLsbD (index - start) = true then register ⟨index - start, inside.2⟩ else old
      else
        old)
  else
    none

/-- A lane is enabled if it lies before the end. -/
theorem getLsbD_laneMask {lane remain : Nat} (small : lanes ≤ 64) (inside : lane < lanes) :
    (laneMask lanes remain).getLsbD lane = decide (lane < remain) := by
  rw [laneMask]
  split
  · rename_i full
    have enabled : lane < 64 := by omega
    have before : lane < remain := by omega
    simp only [BitVec.getLsbD_not, BitVec.getLsbD_zero, Bool.not_false, Bool.and_true]
    rw [decide_eq_true enabled, decide_eq_true before]
  · rename_i partly
    have below : remain < 64 := by omega
    have power : (1#64 <<< remain).toNat = 2 ^ remain := by
      rw [BitVec.toNat_shiftLeft, BitVec.toNat_ofNat, Nat.one_mod_eq_one.mpr (by omega),
        Nat.one_shiftLeft, Nat.mod_eq_of_lt (Nat.pow_lt_pow_right (by omega) below)]
    have mask : ((1#64 <<< remain) - 1#64).toNat = 2 ^ remain - 1 := by
      have positive : 1 ≤ 2 ^ remain := Nat.one_le_two_pow
      rw [BitVec.toNat_sub_of_le, power]
      · rfl
      · rw [BitVec.le_def, power]
        exact positive
    rw [BitVec.getLsbD, mask, Nat.testBit_two_pow_sub_one]

/-! ## Loops -/

/-- `while i < len { body; i += lanes }`. -/
def chunks (lanes len : Nat) (body : Nat → List α → Option (List α)) :
    Nat → Nat → List α → Option (List α)
  | 0, i, slice => if i < len then none else some slice
  | fuel + 1, i, slice =>
      if i < len then
        (body i slice).bind (chunks lanes len body fuel (i + lanes))
      else
        some slice

/-- A loop that computes a register for each chunk and stores it. -/
def kernel (lanes len : Nat) (compute : List α → Nat → BitVec 64 → Option (Register lanes α))
    (slice : List α) : Option (List α) :=
  chunks lanes len
    (fun i current =>
      (compute current i (laneMask lanes (len - i))).bind
        (store current i (laneMask lanes (len - i))))
    len 0 slice

/-- A kernel that reads only the slice it writes. -/
def unary (len : Nat) (filler : α) (op : Register lanes α → Option (Register lanes α))
    (slice : List α) : Option (List α) :=
  kernel lanes len (fun current i mask => (load current i mask filler).bind op) slice

/-- A kernel that also reads a second slice. -/
def binary (len : Nat) (filler : α)
    (op : Register lanes α → Register lanes α → Option (Register lanes α))
    (slice other : List α) : Option (List α) :=
  kernel lanes len
    (fun current i mask =>
      (load current i mask filler).bind fun left => (load other i mask filler).bind (op left))
    slice

/-- `for i in 0..len { slice[i] = f(i, slice[i]) }`. -/
def scalar (len : Nat) (f : Nat → α → Option α) (slice : List α) : Option (List α) :=
  (List.range len).foldlM
    (fun current i => current[i]?.bind fun old => (f i old).map (current.set i)) slice

/-- The slice with its first `count` elements replaced. -/
def overwrite (result : Nat → α) (count : Nat) (slice : List α) : List α :=
  slice.mapIdx fun index old => if index < count then result index else old

section Overwrite

variable {result other : Nat → α} {count : Nat}

theorem length_overwrite : (overwrite result count slice).length = slice.length :=
  List.length_mapIdx

theorem getElem?_overwrite (index : Nat) :
    (overwrite result count slice)[index]? =
      slice[index]?.map fun old => if index < count then result index else old :=
  List.getElem?_mapIdx

theorem getElem?_overwrite_of_le {index : Nat} (behind : count ≤ index) :
    (overwrite result count slice)[index]? = slice[index]? := by
  rw [getElem?_overwrite]
  cases slice[index]? with
  | none => rfl
  | some old => rw [Option.map_some, if_neg (Nat.not_lt.mpr behind)]

theorem overwrite_zero : overwrite result 0 slice = slice :=
  List.ext_getElem? fun index => getElem?_overwrite_of_le (Nat.zero_le index)

theorem overwrite_inj (fits : count ≤ slice.length) :
    overwrite result count slice = overwrite other count slice ↔
      ∀ index < count, result index = other index := by
  constructor
  · intro same index inside
    have element := congrArg (·[index]?) same
    have found : slice[index]? = some slice[index] := List.getElem?_eq_getElem (by omega)
    simpa [getElem?_overwrite, found, inside] using element
  · intro agree
    apply List.ext_getElem?
    intro index
    rw [getElem?_overwrite, getElem?_overwrite]
    by_cases inside : index < count
    · rw [agree index inside]
    · simp only [inside, if_false]

/-- A chunk reads nothing that earlier chunks have written. -/
theorem load_overwrite (i : Nat) (mask : BitVec 64) (filler : α) :
    (load (overwrite result i slice) i mask filler : Option (Register lanes α)) =
      load slice i mask filler := by
  have range : InRange lanes (overwrite result i slice) i mask ↔ InRange lanes slice i mask := by
    rw [InRange, InRange, length_overwrite]
  have element (lane : Nat) :
      (overwrite result i slice).getD (i + lane) filler = slice.getD (i + lane) filler := by
    rw [List.getD_eq_getElem?_getD, List.getD_eq_getElem?_getD,
      getElem?_overwrite_of_le (Nat.le_add_right i lane)]
  simp only [load, range, element]

/-- The elements after a register has been stored from `i` on. -/
def extend (result : Nat → α) (i : Nat) (register : Register lanes α) (index : Nat) : α :=
  if inside : i ≤ index ∧ index - i < lanes then register ⟨index - i, inside.2⟩ else result index

theorem store_overwrite {i : Nat} (small : lanes ≤ 64) (inside : i < len)
    (fits : len ≤ slice.length) (register : Register lanes α) :
    store (overwrite result i slice) i (laneMask lanes (len - i)) register =
      some (overwrite (extend result i register) (min (i + lanes) len) slice) := by
  have enabled (lane : Nat) (below : lane < lanes) :
      (laneMask lanes (len - i)).getLsbD lane = true ↔ lane < len - i := by
    rw [getLsbD_laneMask small below, decide_eq_true_iff]
  have range : InRange lanes (overwrite result i slice) i (laneMask lanes (len - i)) := by
    rw [InRange, length_overwrite]
    refine ⟨by omega, fun lane on => ?_⟩
    have before := (enabled lane lane.isLt).mp on
    omega
  rw [store, if_pos range]
  refine congrArg some (List.ext_getElem? fun index => ?_)
  rw [List.getElem?_mapIdx, getElem?_overwrite, getElem?_overwrite, Option.map_map]
  refine congrArg (Option.map · slice[index]?) (funext fun old => ?_)
  simp only [Function.comp_apply, extend]
  by_cases chunk : i ≤ index ∧ index - i < lanes
  · rw [dif_pos chunk, dif_pos chunk]
    by_cases before : index < len
    · rw [if_pos ((enabled _ chunk.2).mpr (by omega)), if_pos (by omega)]
    · rw [if_neg fun on => before (by have := (enabled _ chunk.2).mp on; omega),
        if_neg (by omega), if_neg (by omega)]
  · rw [dif_neg chunk, dif_neg chunk]
    by_cases before : index < i
    · rw [if_pos before, if_pos (by omega)]
    · rw [if_neg before, if_neg (by omega)]

end Overwrite

/-! ## What a loop computes -/

section Kernel

variable {compute : List α → Nat → BitVec 64 → Option (Register lanes α)} {result : Nat → α}

/-- The chunks from `start` on can be computed, and their enabled lanes hold the elements of
`result`. -/
def Computes (len : Nat) (compute : List α → Nat → BitVec 64 → Option (Register lanes α))
    (slice : List α) (result : Nat → α) (start : Nat) : Prop :=
  ∀ i, start ≤ i → i < len → lanes ∣ i →
    ∃ register, compute slice i (laneMask lanes (len - i)) = some register ∧
      ∀ lane : Fin lanes, i + lane < len → register lane = result (i + lane)

theorem computes_zero_iff {registers : Nat → Option (Register lanes α)}
    (same : ∀ i < len, compute slice i (laneMask lanes (len - i)) = registers i) :
    Computes len compute slice result 0 ↔
      ∀ i < len, lanes ∣ i → ∃ register, registers i = some register ∧
        ∀ lane : Fin lanes, i + lane < len → register lane = result (i + lane) := by
  constructor
  · intro computes i inside aligned
    rw [← same i inside]
    exact computes i (Nat.zero_le i) inside aligned
  · intro computes i _ inside aligned
    rw [same i inside]
    exact computes i inside aligned

theorem extend_of_lt {i index : Nat} {register : Register lanes α} (before : index < i) :
    extend result i register index = result index :=
  dif_neg fun chunk => Nat.not_le.mpr before chunk.1

theorem extend_add {i : Nat} {register : Register lanes α} (lane : Fin lanes) :
    extend result i register (i + lane) = register lane := by
  have chunk : i ≤ i + lane.val ∧ i + lane.val - i < lanes := by
    have := lane.isLt
    omega
  rw [extend, dif_pos chunk]
  exact congrArg register (Fin.ext (Nat.add_sub_cancel_left i lane))

/-- The chunk at `i` and those behind it. -/
theorem computes_iff {i : Nat} {last : Nat → α} {register : Register lanes α} (inside : i < len)
    (aligned : lanes ∣ i)
    (computed : compute slice i (laneMask lanes (len - i)) = some register) :
    (∀ index < min (i + lanes) len, last index = extend result i register index) ∧
        Computes len compute slice last (i + lanes) ↔
      (∀ index < i, last index = result index) ∧ Computes len compute slice last i := by
  constructor
  · rintro ⟨agree, later⟩
    refine ⟨?_, ?_⟩
    · intro index before
      rw [agree index (by omega), extend_of_lt before]
    · intro next start before divides
      obtain rfl | behind := Nat.eq_or_lt_of_le start
      · refine ⟨register, computed, fun lane short => ?_⟩
        rw [agree _ (by have := lane.isLt; omega), extend_add]
      · refine later next ?_ before divides
        have gap : lanes ≤ next - i := Nat.le_of_dvd (by omega) (Nat.dvd_sub divides aligned)
        omega
  · rintro ⟨agree, all⟩
    refine ⟨?_, fun next start => all next (by omega)⟩
    intro index before
    by_cases earlier : index < i
    · rw [agree index earlier, extend_of_lt earlier]
    · obtain ⟨same, found, lanes_eq⟩ := all i (Nat.le_refl i) inside aligned
      obtain rfl := Option.some.inj (computed.symm.trans found)
      have split : i + (index - i) = index := by omega
      have value := lanes_eq ⟨index - i, by omega⟩ (by simp only; omega)
      rw [← split, extend_add ⟨index - i, by omega⟩, value]

/-- A loop that has reached the end. -/
theorem ended_iff {i : Nat} {final : List α} (fits : len ≤ slice.length) (finished : len ≤ i) :
    some (overwrite result (min i len) slice) = some final ↔
      ∃ last, final = overwrite last len slice ∧
        (∀ index < min i len, last index = result index) ∧
        Computes len compute slice last i := by
  rw [Nat.min_eq_right finished]
  constructor
  · intro same
    refine ⟨result, (Option.some.inj same).symm, fun _ _ => rfl, ?_⟩
    intro next start before
    omega
  · rintro ⟨last, rfl, agree, -⟩
    rw [(overwrite_inj fits).mpr agree]

variable (positive : 0 < lanes) (small : lanes ≤ 64) (fits : len ≤ slice.length)
  (reads : ∀ result i mask, compute (overwrite result i slice) i mask = compute slice i mask)

include positive small fits reads

theorem chunks_eq_some_iff {fuel i : Nat} (enough : len ≤ i + fuel) (aligned : lanes ∣ i)
    (result : Nat → α) (final : List α) :
    chunks lanes len
        (fun i current =>
          (compute current i (laneMask lanes (len - i))).bind
            (store current i (laneMask lanes (len - i))))
        fuel i (overwrite result (min i len) slice) = some final ↔
      ∃ last, final = overwrite last len slice ∧
        (∀ index < min i len, last index = result index) ∧
        Computes len compute slice last i := by
  induction fuel generalizing i result with
  | zero =>
      rw [chunks, if_neg (by omega)]
      exact ended_iff fits (by omega)
  | succ fuel induction =>
      by_cases inside : i < len
      · rw [chunks, if_pos inside, Nat.min_eq_left (Nat.le_of_lt inside), reads]
        cases computed : compute slice i (laneMask lanes (len - i)) with
        | none =>
            refine iff_of_false nofun ?_
            rintro ⟨last, -, -, all⟩
            obtain ⟨register, found, -⟩ := all i (Nat.le_refl i) inside aligned
            cases computed.symm.trans found
        | some register =>
            rw [Option.bind_some, store_overwrite small inside fits, Option.bind_some,
              induction (by omega) (Nat.dvd_add aligned (Nat.dvd_refl lanes))]
            refine exists_congr fun last => and_congr_right fun _ => ?_
            exact computes_iff inside aligned computed
      · rw [chunks, if_neg inside]
        exact ended_iff fits (by omega)

/-- A loop ends exactly if every chunk can be computed. -/
theorem kernel_eq_some_iff [Inhabited α] (final : List α) :
    kernel lanes len compute slice = some final ↔
      ∃ result, final = overwrite result len slice ∧ Computes len compute slice result 0 := by
  have start : slice = overwrite (fun _ => default) (min 0 len) slice := by
    rw [Nat.zero_min, overwrite_zero]
  rw [kernel]
  nth_rewrite 1 [start]
  rw [chunks_eq_some_iff positive small fits reads (by omega) (Nat.dvd_zero lanes)]
  refine exists_congr fun result => and_congr_right fun _ => and_iff_right ?_
  intro index none
  omega

end Kernel

section Register

variable {filler : α}

/-- The register that a chunk of the slice is loaded into. -/
def chunk (lanes len : Nat) (filler : α) (slice : List α) (i : Nat) : Register lanes α :=
  fun lane => if i + lane < len then slice.getD (i + lane) filler else filler

theorem chunk_of_lt {i : Nat} {lane : Fin lanes} (inside : i + lane < len) :
    chunk lanes len filler slice i lane = slice.getD (i + lane) filler := if_pos inside

theorem load_eq_chunk {i : Nat} (small : lanes ≤ 64) (inside : i < len)
    (fits : len ≤ slice.length) :
    load slice i (laneMask lanes (len - i)) filler = some (chunk lanes len filler slice i) := by
  have enabled (lane : Fin lanes) :
      (laneMask lanes (len - i)).getLsbD lane = true ↔ i + lane < len := by
    rw [getLsbD_laneMask small lane.isLt, decide_eq_true_iff]
    omega
  rw [load, if_pos ⟨by omega, fun lane on => by have := (enabled lane).mp on; omega⟩]
  refine congrArg some (funext fun lane => ?_)
  simp only [enabled, chunk]

variable [Inhabited α] (positive : 0 < lanes) (small : lanes ≤ 64) (fits : len ≤ slice.length)

include positive small fits

theorem unary_eq_some_iff {op : Register lanes α → Option (Register lanes α)} (final : List α) :
    unary len filler op slice = some final ↔
      ∃ result, final = overwrite result len slice ∧
        ∀ i < len, lanes ∣ i → ∃ register, op (chunk lanes len filler slice i) = some register ∧
          ∀ lane : Fin lanes, i + lane < len → register lane = result (i + lane) := by
  rw [unary, kernel_eq_some_iff positive small fits]
  · refine exists_congr fun result => and_congr_right fun _ => computes_zero_iff ?_
    intro i inside
    exact congrArg (·.bind op) (load_eq_chunk small inside fits)
  · intro result i mask
    exact congrArg (·.bind op) (load_overwrite i mask filler)

theorem binary_eq_some_iff {op : Register lanes α → Register lanes α → Option (Register lanes α)}
    {other : List α} (fits_other : len ≤ other.length) (final : List α) :
    binary len filler op slice other = some final ↔
      ∃ result, final = overwrite result len slice ∧
        ∀ i < len, lanes ∣ i → ∃ register,
          op (chunk lanes len filler slice i) (chunk lanes len filler other i) = some register ∧
            ∀ lane : Fin lanes, i + lane < len → register lane = result (i + lane) := by
  rw [binary, kernel_eq_some_iff positive small fits]
  · refine exists_congr fun result => and_congr_right fun _ => computes_zero_iff ?_
    intro i inside
    rw [load_eq_chunk small inside fits, load_eq_chunk small inside fits_other]
    rfl
  · intro result i mask
    exact congrArg (Option.bind · _) (load_overwrite i mask filler)

/-- An operation on each lane. -/
theorem unary_pointwise (f : α → α) :
    unary len filler (fun value : Register lanes α => some fun lane => f (value lane)) slice =
      some (overwrite (fun index => f (slice.getD index filler)) len slice) := by
  rw [unary_eq_some_iff positive small fits]
  refine ⟨_, rfl, fun i inside _ => ⟨_, rfl, fun lane short => ?_⟩⟩
  rw [chunk_of_lt short]

theorem binary_pointwise {other : List α} (fits_other : len ≤ other.length) (f : α → α → α) :
    binary len filler (fun left right : Register lanes α => some fun lane =>
        f (left lane) (right lane)) slice other =
      some (overwrite (fun index => f (slice.getD index filler) (other.getD index filler)) len
        slice) := by
  rw [binary_eq_some_iff positive small fits fits_other]
  refine ⟨_, rfl, fun i inside _ => ⟨_, rfl, fun lane short => ?_⟩⟩
  rw [chunk_of_lt short, chunk_of_lt short]

end Register

theorem set_overwrite {result : Nat → α} {count : Nat} {old : α} (new : α)
    (found : slice[count]? = some old) :
    (overwrite result count slice).set count new =
      overwrite (Function.update result count new) (count + 1) slice := by
  apply List.ext_getElem?
  intro index
  rw [List.getElem?_set, length_overwrite, getElem?_overwrite, getElem?_overwrite]
  obtain ⟨inside, -⟩ := List.getElem?_eq_some_iff.mp found
  by_cases same : count = index
  · subst same
    simp [inside]
  · rw [if_neg same, Function.update_of_ne (Ne.symm same)]
    have before : index < count + 1 ↔ index < count := by omega
    simp only [before]

theorem scalar_succ (count : Nat) (f : Nat → α → Option α) (slice : List α) :
    scalar (count + 1) f slice =
      (scalar count f slice).bind fun current =>
        current[count]?.bind fun old => (f count old).map (current.set count) := by
  rw [scalar, List.range_succ, List.foldlM_append]
  simp only [List.foldlM_cons, List.foldlM_nil, bind_pure]
  rfl

/-- A scalar loop ends exactly if every element can be computed. -/
theorem scalar_eq_some_iff [Inhabited α] {f : Nat → α → Option α} (final : List α) :
    scalar len f slice = some final ↔
      ∃ result, final = overwrite result len slice ∧
        ∀ i < len, ∃ old, slice[i]? = some old ∧ f i old = some (result i) := by
  induction len generalizing final with
  | zero =>
      constructor
      · intro same
        refine ⟨fun _ => default, ?_, fun i none => absurd none (Nat.not_lt_zero i)⟩
        rw [overwrite_zero]
        exact (Option.some.inj same).symm
      · rintro ⟨result, rfl, -⟩
        rw [overwrite_zero]
        rfl
  | succ count induction =>
      rw [scalar_succ]
      constructor
      · intro ends
        obtain ⟨current, before, step⟩ := Option.bind_eq_some_iff.mp ends
        obtain ⟨result, rfl, each⟩ := (induction current).mp before
        rw [getElem?_overwrite_of_le (Nat.le_refl count)] at step
        obtain ⟨old, found, written⟩ := Option.bind_eq_some_iff.mp step
        obtain ⟨new, computed, rfl⟩ := Option.map_eq_some_iff.mp written
        refine ⟨Function.update result count new, set_overwrite new found, ?_⟩
        intro i inside
        by_cases same : i = count
        · subst same
          refine ⟨old, found, ?_⟩
          rw [Function.update_self]
          exact computed
        · rw [Function.update_of_ne same]
          exact each i (by omega)
      · rintro ⟨result, rfl, each⟩
        have before : scalar count f slice = some (overwrite result count slice) :=
          (induction _).mpr ⟨result, rfl, fun i inside => each i (by omega)⟩
        obtain ⟨old, found, computed⟩ := each count (Nat.lt_succ_self count)
        rw [before, Option.bind_some, getElem?_overwrite_of_le (Nat.le_refl count), found,
          Option.bind_some, computed, Option.map_some, set_overwrite _ found,
          Function.update_eq_self]

theorem getElem?_eq_getD {i : Nat} (inside : i < slice.length) (filler : α) :
    slice[i]? = some (slice.getD i filler) := by
  rw [List.getD_eq_getElem?_getD, List.getElem?_eq_getElem inside, Option.getD_some]

section Pointwise

variable [Inhabited α] {filler : α} (fits : len ≤ slice.length)

include fits

/-- A scalar operation that always succeeds. -/
theorem scalar_pointwise (f : α → α) :
    scalar len (fun _ old => some (f old)) slice =
      some (overwrite (fun index => f (slice.getD index filler)) len slice) := by
  rw [scalar_eq_some_iff]
  exact ⟨_, rfl, fun i inside => ⟨_, getElem?_eq_getD (by omega) filler, rfl⟩⟩

theorem scalar_pointwise_binary {other : List α} (fits_other : len ≤ other.length)
    (f : α → α → α) :
    scalar len (fun i old => other[i]?.bind fun value => some (f old value)) slice =
      some (overwrite (fun index => f (slice.getD index filler) (other.getD index filler)) len
        slice) := by
  rw [scalar_eq_some_iff]
  refine ⟨_, rfl, fun i inside => ⟨_, getElem?_eq_getD (by omega) filler, ?_⟩⟩
  rw [getElem?_eq_getD (Nat.lt_of_lt_of_le inside fits_other) filler]
  rfl

end Pointwise

end Lanes
