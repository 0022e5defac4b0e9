import Mathlib.Data.List.Basic

/-!
# Base 64

Three bytes are written as four symbols of six bits each, over any alphabet of 64 symbols.  A last
group of one or two bytes is filled with a padding symbol.  The reader is strict: it asks for the
padding and refuses bits that a writer would not have set.  So it accepts exactly the texts that a
writer produces, and each of them stands for one sequence of bytes.
-/

namespace Base64

/-- The symbols of the digits, and a padding symbol that is none of them. -/
structure Alphabet where
  symbol : Fin 64 → Char
  value : Char → Option (Fin 64)
  pad : Char
  value_symbol : ∀ digit, value (symbol digit) = some digit
  symbol_of_value : ∀ char digit, value char = some digit → symbol digit = char
  value_pad : value pad = none

variable (alphabet : Alphabet)

/-- The symbol of the last six bits of a number. -/
def digit (number : Nat) : Char := alphabet.symbol (Fin.ofNat 64 number)

/-- Write a sequence of bytes. -/
def encode : List UInt8 → List Char
  | [] => []
  | [first] =>
      [digit alphabet (first.toNat / 4), digit alphabet (first.toNat % 4 * 16), alphabet.pad,
        alphabet.pad]
  | [first, second] =>
      [digit alphabet (first.toNat / 4),
        digit alphabet (first.toNat % 4 * 16 + second.toNat / 16),
        digit alphabet (second.toNat % 16 * 4), alphabet.pad]
  | first :: second :: third :: rest =>
      digit alphabet (first.toNat / 4) ::
        digit alphabet (first.toNat % 4 * 16 + second.toNat / 16) ::
        digit alphabet (second.toNat % 16 * 4 + third.toNat / 64) ::
        digit alphabet (third.toNat % 64) :: encode rest

/-- Read four symbols. -/
def decodeQuad (a b c d : Char) : Option (List UInt8) := do
  let a ← alphabet.value a
  let b ← alphabet.value b
  let c ← alphabet.value c
  let d ← alphabet.value d
  some [UInt8.ofNat (a * 4 + b / 16), UInt8.ofNat (b % 16 * 16 + c / 4),
    UInt8.ofNat (c % 4 * 64 + d)]

/-- Read two symbols; the last four bits are zero. -/
def decodeOne (a b : Char) : Option (List UInt8) := do
  let a ← alphabet.value a
  let b ← alphabet.value b
  if b.val % 16 = 0 then some [UInt8.ofNat (a * 4 + b / 16)] else none

/-- Read three symbols; the last two bits are zero. -/
def decodeTwo (a b c : Char) : Option (List UInt8) := do
  let a ← alphabet.value a
  let b ← alphabet.value b
  let c ← alphabet.value c
  if c.val % 4 = 0 then
    some [UInt8.ofNat (a * 4 + b / 16), UInt8.ofNat (b % 16 * 16 + c / 4)]
  else none

/-- Read a group with padding. -/
def decodePadded (a b c d : Char) : Option (List UInt8) :=
  if d = alphabet.pad then
    if c = alphabet.pad then decodeOne alphabet a b else decodeTwo alphabet a b c
  else none

/-- Read a text; only its last group has padding. -/
def decode : List Char → Option (List UInt8)
  | [] => some []
  | a :: b :: c :: d :: rest =>
      match decodeQuad alphabet a b c d with
      | some quad => (decode rest).map (quad ++ ·)
      | none => if rest = [] then decodePadded alphabet a b c d else none
  | _ => none

/-! ## What was written is read back -/

theorem value_digit {number : Nat} (small : number < 64) :
    ∃ value : Fin 64, alphabet.value (digit alphabet number) = some value ∧ value.val = number :=
  ⟨_, alphabet.value_symbol _, Nat.mod_eq_of_lt small⟩

theorem ofNat_of_eq (byte : UInt8) {number : Nat} (same : number = byte.toNat) :
    UInt8.ofNat number = byte := by
  rw [same, UInt8.ofNat_toNat]

theorem decodeQuad_digits (first second third : UInt8) :
    decodeQuad alphabet (digit alphabet (first.toNat / 4))
      (digit alphabet (first.toNat % 4 * 16 + second.toNat / 16))
      (digit alphabet (second.toNat % 16 * 4 + third.toNat / 64))
      (digit alphabet (third.toNat % 64)) = some [first, second, third] := by
  have firstFits := first.toNat_lt
  have secondFits := second.toNat_lt
  have thirdFits := third.toNat_lt
  obtain ⟨a, readA, valueA⟩ := value_digit alphabet (show first.toNat / 4 < 64 by omega)
  obtain ⟨b, readB, valueB⟩ := value_digit alphabet
    (show first.toNat % 4 * 16 + second.toNat / 16 < 64 by omega)
  obtain ⟨c, readC, valueC⟩ := value_digit alphabet
    (show second.toNat % 16 * 4 + third.toNat / 64 < 64 by omega)
  obtain ⟨d, readD, valueD⟩ := value_digit alphabet (show third.toNat % 64 < 64 by omega)
  rw [decodeQuad, readA, readB, readC, readD]
  simp only [Option.bind_eq_bind, Option.bind_some, valueA, valueB, valueC, valueD]
  rw [ofNat_of_eq first (by omega), ofNat_of_eq second (by omega), ofNat_of_eq third (by omega)]

theorem decodeOne_digits (first : UInt8) :
    decodeOne alphabet (digit alphabet (first.toNat / 4))
      (digit alphabet (first.toNat % 4 * 16)) = some [first] := by
  have firstFits := first.toNat_lt
  obtain ⟨a, readA, valueA⟩ := value_digit alphabet (show first.toNat / 4 < 64 by omega)
  obtain ⟨b, readB, valueB⟩ := value_digit alphabet (show first.toNat % 4 * 16 < 64 by omega)
  rw [decodeOne, readA, readB]
  simp only [Option.bind_eq_bind, Option.bind_some, valueA, valueB]
  rw [if_pos (by omega), ofNat_of_eq first (by omega)]

theorem decodeTwo_digits (first second : UInt8) :
    decodeTwo alphabet (digit alphabet (first.toNat / 4))
      (digit alphabet (first.toNat % 4 * 16 + second.toNat / 16))
      (digit alphabet (second.toNat % 16 * 4)) = some [first, second] := by
  have firstFits := first.toNat_lt
  have secondFits := second.toNat_lt
  obtain ⟨a, readA, valueA⟩ := value_digit alphabet (show first.toNat / 4 < 64 by omega)
  obtain ⟨b, readB, valueB⟩ := value_digit alphabet
    (show first.toNat % 4 * 16 + second.toNat / 16 < 64 by omega)
  obtain ⟨c, readC, valueC⟩ := value_digit alphabet (show second.toNat % 16 * 4 < 64 by omega)
  rw [decodeTwo, readA, readB, readC]
  simp only [Option.bind_eq_bind, Option.bind_some, valueA, valueB, valueC]
  rw [if_pos (by omega), ofNat_of_eq first (by omega), ofNat_of_eq second (by omega)]

theorem digit_ne_pad (number : Nat) : digit alphabet number ≠ alphabet.pad := by
  intro same
  have read := alphabet.value_symbol (Fin.ofNat 64 number)
  rw [digit] at same
  rw [same, alphabet.value_pad] at read
  cases read

/-- A group with padding is not a group of four digits. -/
theorem decodeQuad_pad (a b c : Char) : decodeQuad alphabet a b c alphabet.pad = none := by
  rw [decodeQuad, alphabet.value_pad]
  simp

theorem decode_encode (bytes : List UInt8) :
    decode alphabet (encode alphabet bytes) = some bytes := by
  fun_induction encode alphabet bytes with
  | case1 => rfl
  | case2 first =>
      rw [decode, decodeQuad_pad]
      simp only [decodePadded, if_true, decodeOne_digits]
  | case3 first second =>
      rw [decode, decodeQuad_pad]
      simp only [decodePadded, if_true, if_neg (digit_ne_pad alphabet _), decodeTwo_digits]
  | case4 first second third rest induction =>
      rw [decode, decodeQuad_digits, induction]
      rfl

/-! ## What is read was written -/

theorem digit_of_value {char : Char} {value : Fin 64} (read : alphabet.value char = some value)
    {number : Nat} (same : number = value.val) : digit alphabet number = char := by
  rw [digit, same, Fin.ofNat_val_eq_self]
  exact alphabet.symbol_of_value char value read

theorem toNat_ofNat_of_lt {number : Nat} (fits : number < 256) :
    (UInt8.ofNat number).toNat = number := by
  rw [UInt8.toNat_ofNat']
  exact Nat.mod_eq_of_lt fits

theorem encode_of_decodeQuad {a b c d : Char} {quad : List UInt8}
    (read : decodeQuad alphabet a b c d = some quad) (rest : List UInt8) :
    encode alphabet (quad ++ rest) = a :: b :: c :: d :: encode alphabet rest := by
  simp only [decodeQuad, Option.bind_eq_bind, Option.bind_eq_some_iff, Option.some.injEq] at read
  obtain ⟨x, readA, y, readB, z, readC, w, readD, rfl⟩ := read
  simp only [List.cons_append, List.nil_append, encode]
  rw [toNat_ofNat_of_lt (by omega), toNat_ofNat_of_lt (by omega), toNat_ofNat_of_lt (by omega),
    digit_of_value alphabet readA (by omega), digit_of_value alphabet readB (by omega),
    digit_of_value alphabet readC (by omega), digit_of_value alphabet readD (by omega)]

theorem encode_of_decodePadded {a b c d : Char} {bytes : List UInt8}
    (read : decodePadded alphabet a b c d = some bytes) :
    encode alphabet bytes = [a, b, c, d] := by
  unfold decodePadded at read
  split at read
  · rename_i padD
    subst padD
    split at read
    · rename_i padC
      subst padC
      simp only [decodeOne, Option.bind_eq_bind, Option.bind_eq_some_iff] at read
      obtain ⟨x, readA, y, readB, last⟩ := read
      obtain ⟨zeros, last⟩ := Option.ite_none_right_eq_some.mp last
      obtain rfl := Option.some.inj last
      rw [encode, toNat_ofNat_of_lt (by omega), digit_of_value alphabet readA (by omega),
        digit_of_value alphabet readB (by omega)]
    · simp only [decodeTwo, Option.bind_eq_bind, Option.bind_eq_some_iff] at read
      obtain ⟨x, readA, y, readB, z, readC, last⟩ := read
      obtain ⟨zeros, last⟩ := Option.ite_none_right_eq_some.mp last
      obtain rfl := Option.some.inj last
      rw [encode, toNat_ofNat_of_lt (by omega), toNat_ofNat_of_lt (by omega),
        digit_of_value alphabet readA (by omega), digit_of_value alphabet readB (by omega),
        digit_of_value alphabet readC (by omega)]
  · cases read

theorem encode_of_decode {text : List Char} {bytes : List UInt8}
    (read : decode alphabet text = some bytes) : encode alphabet bytes = text := by
  fun_induction decode alphabet text generalizing bytes with
  | case1 =>
      obtain rfl := Option.some.inj read
      rfl
  | case2 a b c d rest quad group induction =>
      obtain ⟨more, readRest, rfl⟩ := Option.map_eq_some_iff.mp read
      rw [encode_of_decodeQuad alphabet group, induction readRest]
  | case3 a b c d group =>
      exact encode_of_decodePadded alphabet read
  | case4 => cases read
  | case5 => cases read

end Base64
