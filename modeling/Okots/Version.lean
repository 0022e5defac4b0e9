import Okots.DirHash
import Okots.Library.Base64

/-!
# The hashes in the version record

The build script writes the fingerprint of the sources and the short name of the commit as
hexadecimal text into the environment of the compiler.  The kernel turns the two back into bytes
when it is compiled and publishes them as `HashVariant`s, each a record of the name of an algorithm
and a text in base 64.  Such a record is read back by a visitor that takes its fields in any order,
the last one of each name; it accepts exactly the records that stand for a hash.

The crates for base 64 and for hexadecimal text come in through what they document: a strict reader
accepts exactly what the writer writes, and a byte is two digits.
-/

namespace Okots.Version

/-! ## The crates -/

/-- `base64::prelude::BASE64_URL_SAFE`. -/
structure Base64Engine where
  encode : List UInt8 → String
  /-- The bytes of a text, unless it is refused. -/
  decode : String → Option (List UInt8)
  /-- What was written is read back. -/
  decode_encode : ∀ bytes, decode (encode bytes) = some bytes
  /-- Padding has to be canonical, and bits that no writer sets are refused. -/
  encode_of_decode : ∀ text bytes, decode text = some bytes → encode bytes = text

theorem Base64Engine.decode_eq_some_iff (engine : Base64Engine) {text : String}
    {bytes : List UInt8} : engine.decode text = some bytes ↔ text = engine.encode bytes := by
  refine ⟨fun read => (engine.encode_of_decode text bytes read).symm, ?_⟩
  rintro rfl
  exact engine.decode_encode bytes

/-- The lower case digit of a number below 16. -/
def hexDigit (number : Nat) : UInt8 :=
  if number < 10 then UInt8.ofNat (48 + number) else UInt8.ofNat (87 + number)

/-- `hex::encode`, as bytes of the text. -/
structure HexEncoder where
  encode : List UInt8 → List UInt8
  /-- Each byte is two digits, the high one first. -/
  digits : ∀ bytes, encode bytes =
    bytes.flatMap fun byte => [hexDigit (byte.toNat / 16), hexDigit (byte.toNat % 16)]

/-! ### Realizations -/

/-- The symbols of the URL-safe alphabet. -/
def urlSafeSymbols : List Char :=
  ['A', 'B', 'C', 'D', 'E', 'F', 'G', 'H', 'I', 'J', 'K', 'L', 'M', 'N', 'O', 'P', 'Q', 'R', 'S',
    'T', 'U', 'V', 'W', 'X', 'Y', 'Z', 'a', 'b', 'c', 'd', 'e', 'f', 'g', 'h', 'i', 'j', 'k', 'l',
    'm', 'n', 'o', 'p', 'q', 'r', 's', 't', 'u', 'v', 'w', 'x', 'y', 'z', '0', '1', '2', '3', '4',
    '5', '6', '7', '8', '9', '-', '_']

/-- The symbol of a digit. -/
def urlSafeSymbol (digit : Fin 64) : Char := urlSafeSymbols.getD digit.val '='

/-- The digit of a symbol. -/
def urlSafeValue (char : Char) : Option (Fin 64) :=
  (List.finRange 64).find? fun digit => urlSafeSymbol digit = char

theorem urlSafeValue_symbol : ∀ digit, urlSafeValue (urlSafeSymbol digit) = some digit := by decide

theorem urlSafeSymbol_of_value (char : Char) (digit : Fin 64)
    (found : urlSafeValue char = some digit) : urlSafeSymbol digit = char := by
  simpa using List.find?_some found

theorem urlSafeValue_pad : urlSafeValue '=' = none := by decide

/-- The URL-safe alphabet. -/
def urlSafe : Base64.Alphabet where
  symbol := urlSafeSymbol
  value := urlSafeValue
  pad := '='
  value_symbol := urlSafeValue_symbol
  symbol_of_value := urlSafeSymbol_of_value
  value_pad := urlSafeValue_pad

instance : Inhabited Base64Engine where
  default :=
    { encode := fun bytes => String.ofList (Base64.encode urlSafe bytes)
      decode := fun text => Base64.decode urlSafe text.toList
      decode_encode := fun bytes => by
        rw [String.toList_ofList, Base64.decode_encode]
      encode_of_decode := fun text bytes read => by
        rw [Base64.encode_of_decode urlSafe read, String.ofList_toList] }

instance : Inhabited HexEncoder := ⟨⟨_, fun _ => rfl⟩⟩

/-! ## Hashes -/

/-- `HashVariant`. -/
inductive HashVariant where
  | sha1 (bytes : List UInt8)
  | sha1Dc (bytes : List UInt8)
  | sha2_256 (bytes : List UInt8)
  | sha2_512 (bytes : List UInt8)
  | sha2_512_256 (bytes : List UInt8)
  | sha3_256 (bytes : List UInt8)
  | sha3_512 (bytes : List UInt8)
  | blake2B (bytes : List UInt8)
  | blake2S (bytes : List UInt8)
  | blake3 (bytes : List UInt8)
  deriving DecidableEq

namespace HashVariant

/-- The bytes of the hash. -/
def bytes : HashVariant → List UInt8
  | sha1 bytes | sha1Dc bytes | sha2_256 bytes | sha2_512 bytes | sha2_512_256 bytes
  | sha3_256 bytes | sha3_512 bytes | blake2B bytes | blake2S bytes | blake3 bytes => bytes

/-- `HashVariant::hash`. -/
def hash (engine : Base64Engine) (variant : HashVariant) : String := engine.encode variant.bytes

/-- `HashVariant::algo`. -/
def algo : HashVariant → String
  | sha1 _ => "SHA-1"
  | sha1Dc _ => "SHA-1DC"
  | sha2_256 _ => "SHA2-256"
  | sha2_512 _ => "SHA2-512"
  | sha2_512_256 _ => "SHA2-512/256"
  | sha3_256 _ => "SHA3-256"
  | sha3_512 _ => "SHA3-512"
  | blake2B _ => "Blake2_B"
  | blake2S _ => "Blake2_S"
  | blake3 _ => "Blake3"

/-- `HashVariant::from_parts`; an error is the text that it displays. -/
def fromParts (algo : String) (hash : List UInt8) : Except String HashVariant :=
  match algo with
  | "SHA-1" => .ok (sha1 hash)
  | "SHA-1DC" => .ok (sha1Dc hash)
  | "SHA2-256" => .ok (sha2_256 hash)
  | "SHA2-512" => .ok (sha2_512 hash)
  | "SHA2-512/256" => .ok (sha2_512_256 hash)
  | "SHA3-256" => .ok (sha3_256 hash)
  | "SHA3-512" => .ok (sha3_512 hash)
  | "Blake2_B" => .ok (blake2B hash)
  | "Blake2_S" => .ok (blake2S hash)
  | "Blake3" => .ok (blake3 hash)
  | _ => .error ("[NotSupported] not supported hash type (" ++ algo ++ ")")

theorem fromParts_eq_ok_iff {algo : String} {hash : List UInt8} {variant : HashVariant} :
    fromParts algo hash = .ok variant ↔ algo = variant.algo ∧ hash = variant.bytes := by
  constructor
  · intro found
    unfold fromParts at found
    split at found
    all_goals first | (obtain rfl := Except.ok.inj found; exact ⟨rfl, rfl⟩) | cases found
  · rintro ⟨rfl, rfl⟩
    cases variant <;> rfl

end HashVariant

/-! ## Records -/

/-- The errors of the visitor. -/
inductive DeError where
  | unknownField (field : String)
  | missingField (field : String)
  | invalidValue (unexpected expected : String)
  | custom (message : String)
  deriving DecidableEq

variable (engine : Base64Engine)

/-- `Serialize for HashVariant`. -/
def serialize (variant : HashVariant) : List (String × String) :=
  [("algo", variant.algo), ("hash", variant.hash engine)]

/-- The loop of `visit_map`, with the fields found before. -/
def visitEntries : List (String × String) → Option String × Option String →
    Except DeError (Option String × Option String)
  | [], found => .ok found
  | (key, value) :: rest, found =>
      if key = "algo" then visitEntries rest (some value, found.2)
      else if key = "hash" then visitEntries rest (found.1, some value)
      else .error (.unknownField key)

/-- The end of `visit_map`. -/
def finish : Option String × Option String → Except DeError HashVariant
  | (none, _) => .error (.missingField "algo")
  | (some _, none) => .error (.missingField "hash")
  | (some algoStr, some hexStr) =>
      match engine.decode hexStr with
      | none => .error (.invalidValue hexStr "valid base64 string")
      | some hashBytes =>
          match HashVariant.fromParts algoStr hashBytes with
          | .error message => .error (.custom message)
          | .ok variant => .ok variant

/-- `Deserialize for HashVariant`, from the entries of a map. -/
def deserialize (entries : List (String × String)) : Except DeError HashVariant :=
  match visitEntries entries (none, none) with
  | .error error => .error error
  | .ok found => finish engine found

/-- The last value of a field. -/
def lastValue (field : String) (entries : List (String × String)) : Option String :=
  ((entries.filter fun entry => entry.1 = field).getLast?).map Prod.snd

theorem lastValue_cons (field key value : String) (rest : List (String × String)) :
    lastValue field ((key, value) :: rest) =
      (lastValue field rest).or (if key = field then some value else none) := by
  unfold lastValue
  by_cases same : key = field
  · rw [if_pos same, List.filter_cons_of_pos (by simpa using same), List.getLast?_cons]
    cases (rest.filter fun entry => entry.1 = field).getLast? <;> rfl
  · rw [if_neg same, List.filter_cons_of_neg (by simpa using same), Option.or_none]

theorem visitEntries_eq_ok_iff {entries : List (String × String)}
    {found last : Option String × Option String} :
    visitEntries entries found = .ok last ↔
      (∀ entry ∈ entries, entry.1 = "algo" ∨ entry.1 = "hash") ∧
        last = ((lastValue "algo" entries).or found.1, (lastValue "hash" entries).or found.2) := by
  induction entries generalizing found with
  | nil => simp [visitEntries, lastValue, eq_comm]
  | cons entry rest induction =>
      obtain ⟨key, value⟩ := entry
      rw [visitEntries, lastValue_cons, lastValue_cons, List.forall_mem_cons]
      by_cases algo : key = "algo"
      · subst algo
        rw [if_pos rfl, induction]
        simp
      · by_cases hash : key = "hash"
        · subst hash
          rw [if_neg algo, if_pos rfl, induction]
          simp
        · simp [algo, hash]

theorem finish_eq_ok_iff {found : Option String × Option String} {variant : HashVariant} :
    finish engine found = .ok variant ↔
      found = (some variant.algo, some (variant.hash engine)) := by
  unfold finish
  split
  · simp
  · simp
  · rename_i algoStr hexStr
    have hash : engine.decode hexStr = some variant.bytes ↔ hexStr = variant.hash engine :=
      engine.decode_eq_some_iff
    rw [Prod.mk.injEq, Option.some.injEq, Option.some.injEq, ← hash]
    split
    · rename_i unread
      simp [unread]
    · rename_i hashBytes read
      rw [read, Option.some.injEq]
      split
      · rename_i message refused
        rw [← HashVariant.fromParts_eq_ok_iff, refused]
        exact iff_of_false nofun nofun
      · rename_i accepted found
        rw [← HashVariant.fromParts_eq_ok_iff, found, Except.ok.injEq, Except.ok.injEq]

/-- A record is accepted as a hash exactly when it has no other fields and the last name and the
last text are those that the hash is written with. -/
theorem deserialize_eq_ok_iff {entries : List (String × String)} {variant : HashVariant} :
    deserialize engine entries = .ok variant ↔
      (∀ entry ∈ entries, entry.1 = "algo" ∨ entry.1 = "hash") ∧
        lastValue "algo" entries = some variant.algo ∧
        lastValue "hash" entries = some (variant.hash engine) := by
  unfold deserialize
  cases visited : visitEntries entries (none, none) with
  | error error =>
      refine iff_of_false nofun fun record => ?_
      cases visited.symm.trans (visitEntries_eq_ok_iff.mpr ⟨record.1, rfl⟩)
  | ok found =>
      obtain ⟨known, rfl⟩ := visitEntries_eq_ok_iff.mp visited
      dsimp only
      rw [finish_eq_ok_iff, Option.or_none, Option.or_none, Prod.mk.injEq]
      exact (and_iff_right known).symm

/-- A hash can be read back from its record. -/
theorem deserialize_serialize (variant : HashVariant) :
    deserialize engine (serialize engine variant) = .ok variant := by
  refine (deserialize_eq_ok_iff engine).mpr ⟨?_, rfl, rfl⟩
  simp [serialize]

/-! ## From the build script to the record -/

/-- `hex_to_byte`; there is no value when the compilation stops. -/
def hexToByte (c : UInt8) : Option UInt8 :=
  if 48 ≤ c ∧ c ≤ 57 then some (c - 48)
  else if 97 ≤ c ∧ c ≤ 102 then some (c - 97 + 10)
  else if 65 ≤ c ∧ c ≤ 70 then some (c - 65 + 10)
  else none

/-- `decode_hex!`.  An odd byte at the end is not looked at. -/
def decodeHex : List UInt8 → Option (List UInt8)
  | high :: low :: rest => do
      let high ← hexToByte high
      let low ← hexToByte low
      let more ← decodeHex rest
      some ((high <<< 4 ||| low) :: more)
  | _ => some []

/-- The two hashes of `HashInfo`. -/
structure HashInfo where
  dirHash : List HashVariant
  gitHash : List HashVariant

/-- The variables `DIR_HASH` and `GIT_HASH` of the compiler's environment. -/
structure BuildEnv where
  dirHash : List UInt8
  gitHash : List UInt8

/-- What the build script writes, for the fingerprint of the sources and the output of
`git rev-parse --short HEAD`. -/
def buildEnv (hex : HexEncoder) (digest commit : List UInt8) : BuildEnv :=
  ⟨hex.encode digest, hex.encode commit⟩

/-- The hashes of `VersionInfo::new_os`. -/
def newOs (env : BuildEnv) : Option HashInfo := do
  let dirHash ← decodeHex env.dirHash
  let gitHash ← decodeHex env.gitHash
  some ⟨[.sha3_512 dirHash], [.sha1Dc gitHash]⟩

theorem hexToByte_hexDigit : ∀ number : Fin 16,
    hexToByte (hexDigit number) = some (UInt8.ofNat number) := by decide

theorem join_nibbles (byte : UInt8) :
    UInt8.ofNat (byte.toNat / 16) <<< 4 ||| UInt8.ofNat (byte.toNat % 16) = byte := by
  have fits := byte.toNat_lt
  apply UInt8.toNat_inj.mp
  rw [UInt8.toNat_or, UInt8.toNat_shiftLeft, UInt8.toNat_ofNat', UInt8.toNat_ofNat',
    Nat.mod_eq_of_lt (show byte.toNat / 16 < 2 ^ 8 by omega),
    Nat.mod_eq_of_lt (show byte.toNat % 16 < 2 ^ 8 by omega)]
  change (byte.toNat / 16) <<< 4 % 2 ^ 8 ||| byte.toNat % 16 = byte.toNat
  rw [Nat.shiftLeft_eq, Nat.mod_eq_of_lt (by omega), ← Nat.shiftLeft_eq,
    ← Nat.shiftLeft_add_eq_or_of_lt (by omega), Nat.shiftLeft_eq]
  omega

theorem decodeHex_encode (hex : HexEncoder) (bytes : List UInt8) :
    decodeHex (hex.encode bytes) = some bytes := by
  rw [hex.digits]
  induction bytes with
  | nil => rfl
  | cons byte rest induction =>
      have fits := byte.toNat_lt
      have high := hexToByte_hexDigit ⟨byte.toNat / 16, by omega⟩
      have low := hexToByte_hexDigit ⟨byte.toNat % 16, by omega⟩
      rw [List.flatMap_cons, List.cons_append, List.singleton_append, decodeHex, high, low]
      simp only [Option.bind_eq_bind, Option.bind_some, induction, join_nibbles]

/-- Whatever the hash function of the build script is, the records that the kernel publishes are
read back as its value on the bytes of the source tree, and as the text (not the number) that names
the commit. -/
theorem published_hashes (hex : HexEncoder) (sha3 : List UInt8 → List UInt8)
    (sort : DirHash.PathSort) (reader : DirHash.FileReader) (entries : List DirHash.SourceFile)
    (commit : List UInt8) :
    let digest := sha3 (DirHash.hasherStream sort reader entries)
    ∃ info, newOs (buildEnv hex digest commit) = some info ∧
      (info.dirHash.map fun variant => deserialize engine (serialize engine variant)) =
        [.ok (.sha3_512 digest)] ∧
      (info.gitHash.map fun variant => deserialize engine (serialize engine variant)) =
        [.ok (.sha1Dc commit)] := by
  intro digest
  refine ⟨⟨[.sha3_512 digest], [.sha1Dc commit]⟩, ?_, ?_, ?_⟩
  · simp only [newOs, buildEnv, decodeHex_encode, Option.bind_eq_bind, Option.bind_some]
  · simp only [List.map_cons, List.map_nil, deserialize_serialize]
  · simp only [List.map_cons, List.map_nil, deserialize_serialize]

end Okots.Version
