import Mathlib.Algebra.Ring.Nat
import Mathlib.Data.List.Basic

/-!
# Self-delimiting codes

A code is self-delimiting on a set of values when the end of a code word can be seen from the word
itself, whatever follows it.  Words of such codes can be put one after the other: a sequence of
fields is self-delimiting again, and so is a counted word.  A stream of nonempty code words
determines its values, and so does every prefix of it.

The integers are coded with a variable number of bytes: small ones are their own code, the others
follow a byte that says how many bytes there are, the least significant one first.
-/

namespace SelfDelimiting

variable {α β γ : Type*}

/-- The value and the rest are determined by a code word and what follows it. -/
def Delimits (valid : α → Prop) (encode : α → List β) : Prop :=
  ∀ left right rest rest', valid left → valid right →
    encode left ++ rest = encode right ++ rest' → left = right ∧ rest = rest'

section Rules

variable {valid : α → Prop} {encode : α → List β}

/-- A decoder that leaves the rest. -/
theorem Delimits.of_decode (decode : List β → Option (α × List β))
    (decodes : ∀ value rest, valid value → decode (encode value ++ rest) = some (value, rest)) :
    Delimits valid encode := by
  intro left right rest rest' validLeft validRight same
  have read := (decodes left rest validLeft).symm.trans
    ((congrArg decode same).trans (decodes right rest' validRight))
  exact Prod.mk.inj (Option.some.inj read)

theorem Delimits.mono (delimits : Delimits valid encode) {fewer : α → Prop}
    (valid_of : ∀ value, fewer value → valid value) : Delimits fewer encode :=
  fun left right rest rest' validLeft validRight =>
    delimits left right rest rest' (valid_of left validLeft) (valid_of right validRight)

/-- The same code for values that are told apart by what is coded. -/
theorem Delimits.comap (delimits : Delimits valid encode) {view : γ → α}
    (injective : Function.Injective view) :
    Delimits (fun value => valid (view value)) fun value => encode (view value) := by
  intro left right rest rest' validLeft validRight same
  obtain ⟨views, rests⟩ := delimits _ _ rest rest' validLeft validRight same
  exact ⟨injective views, rests⟩

/-- One field after the other. -/
theorem Delimits.append (delimits : Delimits valid encode) {valid' : γ → Prop}
    {encode' : γ → List β} (delimits' : Delimits valid' encode') :
    Delimits (fun pair : α × γ => valid pair.1 ∧ valid' pair.2)
      fun pair => encode pair.1 ++ encode' pair.2 := by
  rintro ⟨left, left'⟩ ⟨right, right'⟩ rest rest' ⟨validLeft, validLeft'⟩
    ⟨validRight, validRight'⟩ same
  simp only [List.append_assoc] at same
  obtain ⟨rfl, tails⟩ := delimits _ _ _ _ validLeft validRight same
  obtain ⟨rfl, rests⟩ := delimits' _ _ _ _ validLeft' validRight' tails
  exact ⟨rfl, rests⟩

/-- A fixed word in front. -/
theorem Delimits.prepend (delimits : Delimits valid encode) (header : List β) :
    Delimits valid fun value => header ++ encode value := by
  intro left right rest rest' validLeft validRight same
  simp only [List.append_assoc] at same
  exact delimits _ _ _ _ validLeft validRight (List.append_cancel_left same)

/-- A word behind its length. -/
theorem Delimits.counted {fits : Nat → Prop} {count : Nat → List β}
    (delimits : Delimits fits count) :
    Delimits (fun word : List β => fits word.length) fun word => count word.length ++ word := by
  intro left right rest rest' fitsLeft fitsRight same
  simp only [List.append_assoc] at same
  obtain ⟨lengths, tails⟩ := delimits _ _ _ _ fitsLeft fitsRight same
  exact List.append_inj tails lengths

/-- A prefix of a stream that consists of whole words is the stream of its first values. -/
theorem Delimits.flatMap_prefix (delimits : Delimits valid encode)
    (nonempty : ∀ value, encode value ≠ []) {first values : List α}
    (validFirst : ∀ value ∈ first, valid value) (validValues : ∀ value ∈ values, valid value)
    (begins : first.flatMap encode <+: values.flatMap encode) : first <+: values := by
  induction first generalizing values with
  | nil => exact List.nil_prefix
  | cons value first induction =>
      obtain ⟨rest, split⟩ := begins
      rw [List.flatMap_cons, List.append_assoc] at split
      cases values with
      | nil => exact absurd (List.append_eq_nil_iff.mp split).1 (nonempty value)
      | cons head values =>
          rw [List.flatMap_cons] at split
          obtain ⟨rfl, tails⟩ := delimits _ _ _ _ (validFirst value List.mem_cons_self)
            (validValues head List.mem_cons_self) split
          rw [List.cons_prefix_cons]
          refine ⟨rfl, induction ?_ ?_ ⟨rest, tails⟩⟩
          · exact fun other member => validFirst other (List.mem_cons_of_mem _ member)
          · exact fun other member => validValues other (List.mem_cons_of_mem _ member)

end Rules

/-! ## Integers of variable length -/

/-- The lowest bytes of a number, the least significant one first. -/
def littleEndian : Nat → Nat → List UInt8
  | 0, _ => []
  | count + 1, value => UInt8.ofNat value :: littleEndian count (value / 256)

/-- The number with the given bytes. -/
def ofLittleEndian : List UInt8 → Nat
  | [] => 0
  | byte :: rest => byte.toNat + 256 * ofLittleEndian rest

theorem length_littleEndian (count value : Nat) : (littleEndian count value).length = count := by
  induction count generalizing value with
  | zero => rfl
  | succ count induction => rw [littleEndian, List.length_cons, induction]

theorem ofLittleEndian_littleEndian {count value : Nat} (fits : value < 256 ^ count) :
    ofLittleEndian (littleEndian count value) = value := by
  induction count generalizing value with
  | zero =>
      rw [pow_zero] at fits
      exact (Nat.lt_one_iff.mp fits).symm
  | succ count induction =>
      have quotient : value / 256 < 256 ^ count :=
        Nat.div_lt_of_lt_mul (by rwa [pow_succ'] at fits)
      rw [littleEndian, ofLittleEndian, induction quotient, UInt8.toNat_ofNat']
      exact Nat.mod_add_div value 256

/-- The code of a number below `2 ^ 64`. -/
def varint (value : Nat) : List UInt8 :=
  if value ≤ 250 then [UInt8.ofNat value]
  else if value < 2 ^ 16 then 251 :: littleEndian 2 value
  else if value < 2 ^ 32 then 252 :: littleEndian 4 value
  else 253 :: littleEndian 8 value

/-- Read a number of `count` bytes. -/
def readBytes (count : Nat) (bytes : List UInt8) : Option (Nat × List UInt8) :=
  if bytes.length < count then none
  else some (ofLittleEndian (bytes.take count), bytes.drop count)

/-- Read the code of a number. -/
def readVarint : List UInt8 → Option (Nat × List UInt8)
  | [] => none
  | byte :: rest =>
      if byte = 251 then readBytes 2 rest
      else if byte = 252 then readBytes 4 rest
      else if byte = 253 then readBytes 8 rest
      else some (byte.toNat, rest)

theorem readBytes_littleEndian (count : Nat) {value : Nat} (fits : value < 256 ^ count)
    (rest : List UInt8) :
    readBytes count (littleEndian count value ++ rest) = some (value, rest) := by
  have length := length_littleEndian count value
  have enough : ¬ (littleEndian count value ++ rest).length < count := by
    rw [List.length_append, length]
    omega
  rw [readBytes, if_neg enough, List.take_left' length, List.drop_left' length,
    ofLittleEndian_littleEndian fits]

theorem readVarint_varint {value : Nat} (fits : value < 2 ^ 64) (rest : List UInt8) :
    readVarint (varint value ++ rest) = some (value, rest) := by
  unfold varint
  split
  · rename_i small
    have number : (UInt8.ofNat value).toNat = value := by
      rw [UInt8.toNat_ofNat']
      exact Nat.mod_eq_of_lt (by omega)
    have differs : ∀ marker : UInt8, 250 < marker.toNat → UInt8.ofNat value ≠ marker := by
      rintro marker large rfl
      omega
    rw [List.singleton_append, readVarint, if_neg (differs 251 (by decide)),
      if_neg (differs 252 (by decide)), if_neg (differs 253 (by decide)), number]
  · split
    · rename_i short
      exact readBytes_littleEndian 2 short rest
    · split
      · rename_i short
        exact readBytes_littleEndian 4 short rest
      · exact readBytes_littleEndian 8 fits rest

theorem delimits_varint : Delimits (· < 2 ^ 64) varint :=
  .of_decode readVarint fun _ rest fits => readVarint_varint fits rest

end SelfDelimiting
