import Mathlib.Tactic.Common

/-!
# Bytes of a word

A word is a sequence of bytes, the least significant one first.  Reading part of a word is a shift
and a truncation, and writing part of it is a mask and a shift.
-/

namespace WordBytes

variable {width count : Nat}

/-- The byte at a position of a word. -/
def byteAt (word : BitVec width) (position : Nat) : BitVec 8 := word.extractLsb' (8 * position) 8

/-- The word with the given bytes. -/
def ofBytes : (count : Nat) → (Nat → BitVec 8) → BitVec (8 * count)
  | 0, _ => 0#0
  | count + 1, bytes => (bytes count ++ ofBytes count bytes).cast (Nat.add_comm 8 (8 * count))

/-- The word with `count` bytes replaced from a position on. -/
def splice (word : BitVec width) (position : Nat) (value : BitVec (8 * count)) : BitVec width :=
  (word &&& ~~~((BitVec.allOnes (8 * count)).setWidth width <<< (8 * position))) |||
    (value.setWidth width <<< (8 * position))

theorem getLsbD_byteAt (word : BitVec width) (position : Nat) {bit : Nat} (inside : bit < 8) :
    (byteAt word position).getLsbD bit = word.getLsbD (8 * position + bit) := by
  simp [byteAt, inside]

/-- A word is determined by its bytes. -/
theorem eq_of_byteAt {left right : BitVec (8 * count)}
    (same : ∀ position < count, byteAt left position = byteAt right position) : left = right := by
  apply BitVec.eq_of_getLsbD_eq
  intro bit inside
  have small : bit % 8 < 8 := Nat.mod_lt _ (by omega)
  have split : 8 * (bit / 8) + bit % 8 = bit := Nat.div_add_mod _ _
  have bytes := congrArg (fun byte => byte.getLsbD (bit % 8)) (same (bit / 8) (by omega))
  simpa only [getLsbD_byteAt _ _ small, split] using bytes

theorem getLsbD_ofBytes (bytes : Nat → BitVec 8) {bit : Nat} (inside : bit < 8 * count) :
    (ofBytes count bytes).getLsbD bit = (bytes (bit / 8)).getLsbD (bit % 8) := by
  induction count with
  | zero => omega
  | succ count induction =>
      rw [ofBytes, BitVec.getLsbD_cast, BitVec.getLsbD_append]
      by_cases lower : bit < 8 * count
      · rw [if_pos lower]
        exact induction lower
      · rw [if_neg lower, show bit / 8 = count by omega, show bit - 8 * count = bit % 8 by omega]

theorem byteAt_ofBytes (bytes : Nat → BitVec 8) {position : Nat} (inside : position < count) :
    byteAt (ofBytes count bytes) position = bytes position := by
  apply BitVec.eq_of_getLsbD_eq
  intro bit small
  rw [getLsbD_byteAt _ _ small, getLsbD_ofBytes bytes (by omega),
    show (8 * position + bit) / 8 = position by omega, show (8 * position + bit) % 8 = bit by omega]

/-- Shifting and truncating a word drops the bytes outside the part that is read. -/
theorem byteAt_shift (word : BitVec width) (start : Nat) {position : Nat}
    (inside : position < count) :
    byteAt ((word >>> (8 * start)).setWidth (8 * count)) position =
      byteAt word (start + position) := by
  apply BitVec.eq_of_getLsbD_eq
  intro bit small
  have within : 8 * position + bit < 8 * count := by omega
  rw [getLsbD_byteAt _ _ small, getLsbD_byteAt _ _ small, BitVec.getLsbD_setWidth,
    BitVec.getLsbD_ushiftRight, decide_eq_true within, Bool.true_and]
  congr 1
  omega

/-- Only the replaced bytes change. -/
theorem byteAt_splice (word : BitVec width) {start position : Nat} (value : BitVec (8 * count))
    (inside : 8 * position + 8 ≤ width) :
    byteAt (splice word start value) position =
      if start ≤ position ∧ position < start + count then byteAt value (position - start)
      else byteAt word position := by
  apply BitVec.eq_of_getLsbD_eq
  intro bit small
  have within : 8 * position + bit < width := by omega
  rw [getLsbD_byteAt _ _ small, splice]
  simp only [BitVec.getLsbD_or, BitVec.getLsbD_and, BitVec.getLsbD_not, BitVec.getLsbD_shiftLeft,
    BitVec.getLsbD_setWidth, BitVec.getLsbD_allOnes, decide_eq_true within, Bool.true_and]
  split
  · rename_i replaced
    have above : ¬ 8 * position + bit < 8 * start := by omega
    have below : 8 * position + bit - 8 * start < 8 * count := by omega
    have same : 8 * position + bit - 8 * start = 8 * (position - start) + bit := by omega
    have shifted : 8 * position + bit - 8 * start < width := by omega
    rw [getLsbD_byteAt _ _ small]
    rw [same] at below shifted ⊢
    simp [above, below, shifted]
  · rename_i kept
    rw [getLsbD_byteAt _ _ small]
    by_cases above : 8 * position + bit < 8 * start
    · simp [above]
    · have outside : ¬ 8 * position + bit - 8 * start < 8 * count := by omega
      have absent : value.getLsbD (8 * position + bit - 8 * start) = false :=
        BitVec.getLsbD_of_ge _ _ (Nat.not_lt.mp outside)
      simp [outside, absent]

theorem splice_whole (word value : BitVec (8 * count)) : splice word 0 value = value := by
  apply eq_of_byteAt
  intro position inside
  rw [byteAt_splice word value (by omega), if_pos ⟨Nat.zero_le _, by omega⟩, Nat.sub_zero]

end WordBytes
