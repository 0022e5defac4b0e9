import Okots.UtilTypes
import Mathlib.Data.Fintype.Basic

/-!
# Page-table entries

Requested attributes (`PageEntryFlags`), paging levels and the 64-bit entries written into tables.
The flag types and entry constructors of the `x86` and `x86_64` crates are parameters of the model;
`X86Crates` records the documented behaviour the kernel relies on.
-/

namespace Okots

/-! ## Raw bits -/

/-- Bit `position` of an entry. -/
def entryBit (position : Nat) : BitVec 64 := BitVec.twoPow 64 position

/-- Or `mask` into `raw` when `condition` holds. -/
def orWhen (condition : Bool) (mask raw : BitVec 64) : BitVec 64 :=
  if condition then raw ||| mask else raw

@[simp]
theorem orWhen_false (mask raw : BitVec 64) : orWhen false mask raw = raw := rfl

@[simp]
theorem getLsbD_entryBit (position index : Nat) :
    (entryBit position).getLsbD index = (decide (position < 64) && decide (position = index)) := by
  simp [entryBit]

@[simp]
theorem getLsbD_orWhen (condition : Bool) (mask raw : BitVec 64) (index : Nat) :
    (orWhen condition mask raw).getLsbD index =
      (raw.getLsbD index || (condition && mask.getLsbD index)) := by
  cases condition <;> simp [orWhen]

/-! ## Requested attributes -/

/-- Requested page attributes, the `bitflags` structure over `u16`. -/
structure PageEntryFlags where
  /-- Raw flag bits. -/
  bits : BitVec 16
  deriving DecidableEq, Repr

namespace PageEntryFlags

/-- The flag `1 << position`. -/
def flag (position : Nat) : PageEntryFlags := ⟨BitVec.twoPow 16 position⟩

/-- `PRESENT`. -/
def present : PageEntryFlags := flag 0
/-- `WRITABLE`. -/
def writable : PageEntryFlags := flag 1
/-- `USER_PAGE`. -/
def userPage : PageEntryFlags := flag 2
/-- `PWT`. -/
def pwt : PageEntryFlags := flag 3
/-- `PCD`. -/
def pcd : PageEntryFlags := flag 4
/-- `ACCESSED`. -/
def accessed : PageEntryFlags := flag 5
/-- `DIRTY`. -/
def dirty : PageEntryFlags := flag 6
/-- `PAT`. -/
def pat : PageEntryFlags := flag 7
/-- `GLOBAL`. -/
def global : PageEntryFlags := flag 8
/-- `EXECUTE_DISABLE`. -/
def executeDisable : PageEntryFlags := flag 9
/-- `HUGE`. -/
def huge : PageEntryFlags := flag 10

/-- Union of two flag sets. -/
def union (left right : PageEntryFlags) : PageEntryFlags := ⟨left.bits ||| right.bits⟩

/-- All bits of `other` are set. -/
def contains (self other : PageEntryFlags) : Bool := self.bits &&& other.bits == other.bits

/-- No flag is set. -/
def isEmpty (self : PageEntryFlags) : Bool := self.bits == 0

theorem contains_flag (self : PageEntryFlags) {position : Nat} (bound : position < 16) :
    self.contains (flag position) = self.bits.getLsbD position := by
  have nonzero : (0 : BitVec 16) ≠ BitVec.twoPow 16 position := by
    intro equality
    have bit := congrArg (fun word => BitVec.getLsbD word position) equality
    simp [bound] at bit
  simp only [contains, flag, BitVec.and_twoPow]
  by_cases bit : self.bits.getLsbD position = true
  · simp [bit]
  · simpa [bit] using nonzero

/-- `apply_to_raw`: the attributes with the same position at every level. -/
def applyToRaw (self : PageEntryFlags) (raw : BitVec 64) : BitVec 64 :=
  let raw := orWhen (self.contains present) (entryBit 0) raw
  let raw := orWhen (self.contains writable) (entryBit 1) raw
  let raw := orWhen (self.contains userPage) (entryBit 2) raw
  let raw := orWhen (self.contains pwt) (entryBit 3) raw
  let raw := orWhen (self.contains pcd) (entryBit 4) raw
  let raw := orWhen (self.contains accessed) (entryBit 5) raw
  orWhen (self.contains executeDisable) (entryBit 63) raw

end PageEntryFlags

/-! ## Paging levels -/

/-- Table levels, from the leaf tables up. -/
inductive PageLevel where
  | pt
  | pd
  | pdpt
  | pml4
  | pml5
  deriving DecidableEq, Repr

namespace PageLevel

/-- `level as u8`. -/
def rank : PageLevel → Nat
  | .pt => 0
  | .pd => 1
  | .pdpt => 2
  | .pml4 => 3
  | .pml5 => 4

instance : LE PageLevel := ⟨fun left right => left.rank ≤ right.rank⟩

instance (left right : PageLevel) : Decidable (left ≤ right) :=
  inferInstanceAs (Decidable (left.rank ≤ right.rank))

/-- The next level towards the leaves. -/
def down : PageLevel → Option PageLevel
  | .pt => none
  | .pd => some .pt
  | .pdpt => some .pd
  | .pml4 => some .pdpt
  | .pml5 => some .pml4

/-- Address bits below the index field of a level. -/
def shift (level : PageLevel) : Nat := level.rank * 9 + 12

/-- Bytes translated by one entry of a table at this level. -/
def entrySize (level : PageLevel) : Nat := 1 <<< level.shift

/-- `get_index`. -/
def getIndex (level : PageLevel) (vaddr : Nat) : Fin 512 :=
  ⟨(vaddr >>> level.shift) % 512, Nat.mod_lt _ (by decide)⟩

theorem rank_down {level next : PageLevel} (step : level.down = some next) :
    next.rank < level.rank := by
  cases level <;> simp [down] at step <;> subst next <;> decide

theorem down_eq_none {level : PageLevel} : level.down = none ↔ level = .pt := by
  cases level <;> simp [down]

theorem entrySize_down {level next : PageLevel} (step : level.down = some next) :
    level.entrySize = 512 * next.entrySize := by
  cases level <;> simp [down] at step <;> subst next <;> decide

theorem entrySize_eq (level : PageLevel) :
    level.entrySize = 2 ^ level.shift := by
  simp [entrySize, Nat.shiftLeft_eq]

/-- Recursion towards the leaves: `body` receives a level with the next level down and the function
already defined there. -/
def descend {α : Type} (body : PageLevel → Option (PageLevel × α) → α) : PageLevel → α
  | .pt => body .pt none
  | .pd => body .pd (some (.pt, body .pt none))
  | .pdpt => body .pdpt (some (.pd, body .pd (some (.pt, body .pt none))))
  | .pml4 =>
      body .pml4 (some (.pdpt, body .pdpt (some (.pd, body .pd (some (.pt, body .pt none))))))
  | .pml5 =>
      body .pml5 (some (.pml4, body .pml4 (some (.pdpt, body .pdpt (some (.pd, body .pd
        (some (.pt, body .pt none))))))))

theorem descend_eq {α : Type} (body : PageLevel → Option (PageLevel × α) → α)
    (level : PageLevel) :
    descend body level = body level (level.down.map fun next => (next, descend body next)) := by
  cases level <;> rfl

/-- Induction towards the leaves. -/
theorem downInduction {motive : PageLevel → Prop}
    (step : ∀ level, (∀ next, level.down = some next → motive next) → motive level)
    (level : PageLevel) : motive level := by
  have pt := step .pt (by simp [down])
  have pd := step .pd (by simpa [down] using pt)
  have pdpt := step .pdpt (by simpa [down] using pd)
  have pml4 := step .pml4 (by simpa [down] using pdpt)
  have pml5 := step .pml5 (by simpa [down] using pml4)
  cases level <;> assumption

end PageLevel

/-! ## The architecture crates -/

/-- `ADDR_MASK`: the physical-address field of an entry. -/
def addrMask : BitVec 64 := 0x000FFFFFFFFFF000#64

/-- `FLAGS_MASK`. -/
def flagsMask : BitVec 64 := 0x8000000000000FFF#64

/-- The flag bits that the attribute conversions may set in the entries of a level. -/
def convertedFlags : PageLevel → BitVec 64
  | .pml5 | .pml4 => 0x800000000000003F#64
  | .pdpt | .pd => 0x80000000000011FF#64
  | .pt => 0x800000000000017F#64

/-- `all()` of the five flag types, indexed by their level; it includes bits 9 to 11, which the
processor ignores. -/
def documentedFlags : PageLevel → BitVec 64
  | .pml5 | .pml4 => 0x8000000000000E3F#64
  | .pdpt | .pd => 0x8000000000001FFF#64
  | .pt => 0x8000000000000F7F#64

/-- The parts of the `x86` and `x86_64` crates used by the paging code. `PML5Flags`, `PML4Flags`,
`PDPTFlags`, `PDFlags` and `PTFlags`, with their entry types, are indexed by the level; `none` is a
panic. The laws are the documented bit positions and results; of `all()` it only matters that no
bit set by the kernel is cut off. -/
structure X86Crates where
  /-- `all()` of the flag type, the bits kept by `from_bits_truncate`. -/
  allFlags : PageLevel → BitVec 64
  /-- `P`. -/
  flagP : PageLevel → BitVec 64
  /-- `PS`. -/
  flagPS : PageLevel → BitVec 64
  /-- `PAT`. -/
  flagPAT : PageLevel → BitVec 64
  /-- `D`. -/
  flagD : PageLevel → BitVec 64
  /-- `G`. -/
  flagG : PageLevel → BitVec 64
  /-- `PML5Entry::new`, …, `PTEntry::new`. -/
  entryNew : PageLevel → Nat → BitVec 64 → Option (BitVec 64)
  /-- `PageTableEntry::flags().contains(PageTableFlags::PRESENT)`. -/
  isPresent : BitVec 64 → Bool
  /-- `PageTableEntry::flags().contains(PageTableFlags::HUGE_PAGE)`. -/
  isHugePage : BitVec 64 → Bool
  /-- `PageTableEntry::addr()`. -/
  entryAddr : BitVec 64 → Nat
  /-- `PhysAddr::new`. -/
  physAddrNew : Nat → Option Nat
  /-- `VirtAddr::new`. -/
  virtAddrNew : Nat → Option Nat
  allFlags_converted : ∀ level, convertedFlags level &&& allFlags level = convertedFlags level
  flagP_eq : ∀ level, flagP level = entryBit 0
  flagPS_eq : ∀ level, level = .pdpt ∨ level = .pd → flagPS level = entryBit 7
  flagPAT_eq : ∀ level, level = .pdpt ∨ level = .pd → flagPAT level = entryBit 12
  flagD_eq : ∀ level, level ≤ .pdpt → flagD level = entryBit 6
  flagG_eq : ∀ level, level ≤ .pdpt → flagG level = entryBit 8
  entryNew_isSome : ∀ level address flags, 4096 ∣ address → address < 2 ^ 52 →
    (entryNew level address flags).isSome
  entryNew_result : ∀ level address flags entry, entryNew level address flags = some entry →
    entry = (BitVec.ofNat 64 address &&& addrMask) ||| flags
  entryNew_none : ∀ level address flags flags', entryNew level address flags = none →
    entryNew level address flags' = none
  isPresent_eq : ∀ entry, isPresent entry = entry.getLsbD 0
  isHugePage_eq : ∀ entry, isHugePage entry = entry.getLsbD 7
  entryAddr_eq : ∀ entry, entryAddr entry = (entry &&& addrMask).toNat
  physAddrNew_eq : ∀ address, address < 2 ^ 52 → physAddrNew address = some address
  physAddrNew_none : ∀ address, 2 ^ 52 ≤ address → physAddrNew address = none
  virtAddrNew_eq : ∀ address, address < 2 ^ 47 → virtAddrNew address = some address
  virtAddrNew_nonCanonical : ∀ address, 2 ^ 47 ≤ address → address < 2 ^ 64 - 2 ^ 47 →
    virtAddrNew address = none

theorem documentedFlags_converted (level : PageLevel) :
    convertedFlags level &&& documentedFlags level = convertedFlags level := by
  cases level <;> decide

/-- A realization of the crates in which constructors panic outside their documented domain. -/
def documentedCrates : X86Crates where
  allFlags := documentedFlags
  flagP _ := entryBit 0
  flagPS _ := entryBit 7
  flagPAT _ := entryBit 12
  flagD _ := entryBit 6
  flagG _ := entryBit 8
  entryNew _ address flags :=
    if 4096 ∣ address ∧ address < 2 ^ 52 then
      some ((BitVec.ofNat 64 address &&& addrMask) ||| flags)
    else
      none
  isPresent entry := entry.getLsbD 0
  isHugePage entry := entry.getLsbD 7
  entryAddr entry := (entry &&& addrMask).toNat
  physAddrNew address := if address < 2 ^ 52 then some address else none
  virtAddrNew address :=
    if address < 2 ^ 47 ∨ 2 ^ 64 - 2 ^ 47 ≤ address then some address else none
  allFlags_converted := documentedFlags_converted
  flagP_eq _ := rfl
  flagPS_eq _ _ := rfl
  flagPAT_eq _ _ := rfl
  flagD_eq _ _ := rfl
  flagG_eq _ _ := rfl
  entryNew_isSome level address flags aligned bounded := by
    rw [if_pos ⟨aligned, bounded⟩]
    rfl
  entryNew_result level address flags entry built := by
    split at built
    · exact (Option.some.inj built).symm
    · simp at built
  entryNew_none level address flags flags' refused := by
    simp only [ite_eq_right_iff, reduceCtorEq, imp_false] at refused
    exact if_neg refused
  isPresent_eq _ := rfl
  isHugePage_eq _ := rfl
  entryAddr_eq _ := rfl
  physAddrNew_eq _ bounded := if_pos bounded
  physAddrNew_none _ high := if_neg (by omega)
  virtAddrNew_eq _ bounded := if_pos (.inl bounded)
  virtAddrNew_nonCanonical _ low high := if_neg (by omega)

/-! ## Attribute conversions -/

namespace PageEntryFlags

/-- `from_bits_truncate` of the flag type at `level`. -/
def truncate (crates : X86Crates) (level : PageLevel) (bits : BitVec 64) : BitVec 64 :=
  bits &&& crates.allFlags level

/-- Conversion for levels whose entries are never leaves. -/
def toTableFlags (crates : X86Crates) (level : PageLevel) (self : PageEntryFlags) : BitVec 64 :=
  truncate crates level (self.applyToRaw 0)

/-- Conversion for levels whose entries may be huge leaves. -/
def toHugeFlags (crates : X86Crates) (level : PageLevel) (self : PageEntryFlags) : BitVec 64 :=
  let bits := self.applyToRaw 0
  let bits := orWhen (self.contains pat) (crates.flagPAT level) bits
  let bits := orWhen (self.contains dirty) (crates.flagD level) bits
  let bits := orWhen (self.contains global) (crates.flagG level) bits
  let bits := orWhen (self.contains huge) (crates.flagPS level) bits
  truncate crates level bits

/-- `to_pml5f`. -/
def toPml5f (crates : X86Crates) : PageEntryFlags → BitVec 64 := toTableFlags crates .pml5

/-- `to_pml4f`. -/
def toPml4f (crates : X86Crates) : PageEntryFlags → BitVec 64 := toTableFlags crates .pml4

/-- `to_pdptf`. -/
def toPdptf (crates : X86Crates) : PageEntryFlags → BitVec 64 := toHugeFlags crates .pdpt

/-- `to_pdf`. -/
def toPdf (crates : X86Crates) : PageEntryFlags → BitVec 64 := toHugeFlags crates .pd

/-- `to_ptf`: the page-size and PAT flags have no place in a leaf table. -/
def toPtf (crates : X86Crates) (self : PageEntryFlags) : BitVec 64 :=
  let bits := self.applyToRaw 0
  let bits := orWhen (self.contains dirty) (crates.flagD .pt) bits
  let bits := orWhen (self.contains global) (crates.flagG .pt) bits
  truncate crates .pt bits

end PageEntryFlags

/-! ## Entries -/

/-- `RELAY_FLAGS`. -/
def relayFlags : PageEntryFlags :=
  (PageEntryFlags.present.union .writable).union .userPage

/-- `generate_relay_entry`, also inlined in `create_recursive`. -/
def generateRelayEntry (crates : X86Crates) (level : PageLevel) (phys : Nat) :
    Option (BitVec 64) :=
  match level with
  | .pml5 => crates.entryNew .pml5 phys (relayFlags.toPml5f crates ||| crates.flagP .pml5)
  | .pml4 => crates.entryNew .pml4 phys (relayFlags.toPml4f crates ||| crates.flagP .pml4)
  | .pdpt => crates.entryNew .pdpt phys (relayFlags.toPdptf crates ||| crates.flagP .pdpt)
  | .pd => crates.entryNew .pd phys (relayFlags.toPdf crates ||| crates.flagP .pd)
  | .pt => some 0

/-- A huge leaf whose flag bits are `bits`. -/
def hugeLeaf (crates : X86Crates) (level : PageLevel) (vaddr : Nat) (bits : BitVec 64) :
    Option (BitVec 64) :=
  crates.entryNew level vaddr (bits ||| crates.flagPS level ||| crates.flagP level)

/-- `generate_huge_entry`. -/
def generateHugeEntry (crates : X86Crates) (level : PageLevel) (vaddr : Nat)
    (flags : PageEntryFlags) : Option (BitVec 64) :=
  match level with
  | .pdpt => hugeLeaf crates .pdpt vaddr (flags.toPdptf crates)
  | .pd => hugeLeaf crates .pd vaddr (flags.toPdf crates)
  | _ => some 0

/-- Move bit 7 to bit 12, as `create_recursive` does before it sets `PS`. -/
def movePatBit (crates : X86Crates) (level : PageLevel) (bits : BitVec 64) : BitVec 64 :=
  let bits := if bits &&& entryBit 7 ≠ 0 then (bits &&& ~~~entryBit 7) ||| entryBit 12 else bits
  PageEntryFlags.truncate crates level bits

/-- The huge leaf built by `create_recursive`. -/
def createHugeEntry (crates : X86Crates) (level : PageLevel) (vaddr : Nat)
    (flags : PageEntryFlags) : Option (BitVec 64) :=
  match level with
  | .pdpt => hugeLeaf crates .pdpt vaddr (movePatBit crates .pdpt (flags.toPdptf crates))
  | .pd => hugeLeaf crates .pd vaddr (movePatBit crates .pd (flags.toPdf crates))
  | _ => some 0

/-- The leaf of a page table. -/
def pageEntry (crates : X86Crates) (vaddr : Nat) (flags : PageEntryFlags) : Option (BitVec 64) :=
  crates.entryNew .pt vaddr (flags.toPtf crates ||| crates.flagP .pt)

end Okots
