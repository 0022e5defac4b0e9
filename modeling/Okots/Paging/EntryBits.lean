import Okots.Paging.Hardware
import Mathlib.Tactic.IntervalCases

/-!
# Bits of the generated entries

Every entry written by the kernel is a relay to a lower table or a leaf carrying the requested
attributes.  The lemmas below are the only place where flag bits are computed.
-/

namespace Okots

open PageEntryFlags

/-- On page-aligned physical addresses an entry constructor joins the address and the flags. -/
theorem X86Crates.entryNew_eq (crates : X86Crates) (level : PageLevel) (address : Nat)
    (flags : BitVec 64) (aligned : 4096 ∣ address) (bounded : address < 2 ^ 52) :
    crates.entryNew level address flags = some (BitVec.ofNat 64 address ||| flags) := by
  obtain ⟨entry, built⟩ :=
    Option.isSome_iff_exists.mp (crates.entryNew_isSome level address flags aligned bounded)
  rw [built, crates.entryNew_result _ _ _ _ built, ← addressField_twelve,
    ofNat_and_addressField (.inl rfl) aligned bounded]

/-- An entry has the flag bits it was built from. -/
private theorem entryNew_flagBit {crates : X86Crates} {level : PageLevel} {address index : Nat}
    {bits entry : BitVec 64} (built : crates.entryNew level address bits = some entry)
    (outside : index < 12 ∨ 52 ≤ index) : entry.getLsbD index = bits.getLsbD index := by
  rw [crates.entryNew_result _ _ _ _ built, BitVec.getLsbD_or, BitVec.getLsbD_and,
    addrMask_getLsbD outside, Bool.and_false, Bool.false_or]

/-! ## Truncation -/

/-- Only bits of the attribute conversions are set. -/
private def Converted (level : PageLevel) (bits : BitVec 64) : Prop :=
  bits &&& convertedFlags level = bits

/-- `from_bits_truncate` keeps the bits of the conversions. -/
private theorem Converted.truncate {level : PageLevel} {bits : BitVec 64}
    (converted : Converted level bits) (crates : X86Crates) :
    PageEntryFlags.truncate crates level bits = bits := by
  have kept : bits &&& convertedFlags level &&& crates.allFlags level =
      bits &&& convertedFlags level := by
    rw [BitVec.and_assoc, crates.allFlags_converted]
  rwa [converted] at kept

private theorem Converted.and_eq_zero {level : PageLevel} {bits mask : BitVec 64}
    (converted : Converted level bits) (apart : convertedFlags level &&& mask = 0#64) :
    bits &&& mask = 0#64 := by
  rw [← converted, BitVec.and_assoc, apart]
  simp

private theorem Converted.getLsbD_eq_false {level : PageLevel} {bits : BitVec 64} {index : Nat}
    (converted : Converted level bits) (clear : (convertedFlags level).getLsbD index = false) :
    bits.getLsbD index = false := by
  rw [← converted, BitVec.getLsbD_and, clear, Bool.and_false]

private theorem Converted.orWhen {level : PageLevel} {raw mask : BitVec 64}
    (converted : Converted level raw) (maskConverted : Converted level mask) (condition : Bool) :
    Converted level (orWhen condition mask raw) := by
  cases condition with
  | false => exact converted
  | true =>
      have joined : (raw ||| mask) &&& convertedFlags level = raw ||| mask := by
        rw [BitVec.and_or_distrib_right, converted, maskConverted]
      exact joined

/-- The attributes with the same position at every level are attributes of every level. -/
private theorem applyToRaw_converted (level : PageLevel) (flags : PageEntryFlags) :
    Converted level (flags.applyToRaw 0) := by
  have bit : ∀ position, position ∈ [0, 1, 2, 3, 4, 5, 63] →
      Converted level (entryBit position) := by
    have table : ∀ level ∈ [PageLevel.pt, .pd, .pdpt, .pml4, .pml5],
        ∀ position ∈ [0, 1, 2, 3, 4, 5, 63],
          entryBit position &&& convertedFlags level = entryBit position := by decide
    exact fun position member => table level (by cases level <;> decide) position member
  have empty : Converted level 0 := by
    rw [Converted]
    simp
  unfold applyToRaw
  exact ((((((empty.orWhen (bit 0 (by decide)) _).orWhen (bit 1 (by decide)) _).orWhen
    (bit 2 (by decide)) _).orWhen (bit 3 (by decide)) _).orWhen (bit 4 (by decide)) _).orWhen
    (bit 5 (by decide)) _).orWhen (bit 63 (by decide)) _

/-- The flag bits of a huge leaf. -/
private def hugeBits (flags : PageEntryFlags) : BitVec 64 :=
  orWhen (flags.contains huge) (entryBit 7)
    (orWhen (flags.contains global) (entryBit 8)
      (orWhen (flags.contains dirty) (entryBit 6)
        (orWhen (flags.contains pat) (entryBit 12) (flags.applyToRaw 0))))

private theorem entryBit_converted {level : PageLevel} (kind : level = .pdpt ∨ level = .pd)
    {position : Nat} (member : position ∈ [6, 7, 8, 12]) :
    Converted level (entryBit position) := by
  have table : ∀ position ∈ [6, 7, 8, 12],
      entryBit position &&& 0x80000000000011FF#64 = entryBit position := by decide
  rcases kind with rfl | rfl <;> exact table position member

private theorem hugeBits_converted {level : PageLevel} (kind : level = .pdpt ∨ level = .pd)
    (flags : PageEntryFlags) : Converted level (hugeBits flags) := by
  have raw := applyToRaw_converted level flags
  exact (((raw.orWhen (entryBit_converted kind (by decide)) _).orWhen
    (entryBit_converted kind (by decide)) _).orWhen
    (entryBit_converted kind (by decide)) _).orWhen (entryBit_converted kind (by decide)) _

private theorem toHugeFlags_eq (crates : X86Crates) {level : PageLevel}
    (kind : level = .pdpt ∨ level = .pd) (flags : PageEntryFlags) :
    flags.toHugeFlags crates level = hugeBits flags := by
  have low : level ≤ .pdpt := by rcases kind with rfl | rfl <;> decide
  simp only [toHugeFlags, crates.flagPAT_eq level kind, crates.flagD_eq level low,
    crates.flagG_eq level low, crates.flagPS_eq level kind]
  exact (hugeBits_converted kind flags).truncate crates

/-! ## Relays -/

/-- The relay entry for a table frame. -/
def relayWord (phys : Nat) : BitVec 64 := BitVec.ofNat 64 phys ||| 7#64

theorem generateRelayEntry_eq (crates : X86Crates) {level : PageLevel} {phys : Nat}
    (inner : level ≠ .pt) (aligned : 4096 ∣ phys) (bounded : phys < 2 ^ 52) :
    generateRelayEntry crates level phys = some (relayWord phys) := by
  have tableFlags : ∀ level, level = .pml5 ∨ level = .pml4 →
      relayFlags.toTableFlags crates level ||| crates.flagP level = 7#64 := by
    intro level _
    rw [toTableFlags, (applyToRaw_converted level relayFlags).truncate, crates.flagP_eq]
    decide
  have hugeFlags : ∀ level, level = .pdpt ∨ level = .pd →
      relayFlags.toHugeFlags crates level ||| crates.flagP level = 7#64 := by
    intro level kind
    rw [toHugeFlags_eq crates kind, crates.flagP_eq]
    decide
  cases level with
  | pt => exact absurd rfl inner
  | pd => simp [generateRelayEntry, toPdf, hugeFlags, crates.entryNew_eq _ _ _ aligned bounded,
      relayWord]
  | pdpt => simp [generateRelayEntry, toPdptf, hugeFlags, crates.entryNew_eq _ _ _ aligned bounded,
      relayWord]
  | pml4 => simp [generateRelayEntry, toPml4f, tableFlags, crates.entryNew_eq _ _ _ aligned bounded,
      relayWord]
  | pml5 => simp [generateRelayEntry, toPml5f, tableFlags, crates.entryNew_eq _ _ _ aligned bounded,
      relayWord]

section Relay

variable {phys : Nat} (aligned : 4096 ∣ phys) (bounded : phys < 2 ^ 52)

include aligned bounded

theorem tableBase_relayWord : tableBase (relayWord phys) = phys := by
  rw [tableBase, ← addressField_twelve]
  exact entry_and_addressField (.inl rfl) aligned bounded (by decide)

theorem getLsbD_relayWord {index : Nat} (outside : index < 12 ∨ 52 ≤ index) :
    (relayWord phys).getLsbD index = (7#64).getLsbD index :=
  getLsbD_entry aligned bounded outside

theorem relayWord_flags : relayWord phys &&& ~~~addressField 12 = 7#64 := by
  rw [relayWord, BitVec.and_or_distrib_right,
    ← ofNat_and_addressField (.inl rfl) aligned bounded, BitVec.and_assoc,
    show addressField 12 &&& ~~~addressField 12 = 0#64 by decide,
    show (7#64 &&& ~~~addressField 12) = 7#64 by decide]
  simp

end Relay

/-! ## Leaves -/

/-- Flag bits of a leaf with the given attributes; PAT is not recorded. -/
structure CarriesFlags (flags : PageEntryFlags) (bits : BitVec 64) : Prop where
  present : bits.getLsbD 0 = true
  writable : bits.getLsbD 1 = flags.bits.getLsbD 1
  user : bits.getLsbD 2 = flags.bits.getLsbD 2
  pwt : bits.getLsbD 3 = flags.bits.getLsbD 3
  pcd : bits.getLsbD 4 = flags.bits.getLsbD 4
  accessed : bits.getLsbD 5 = flags.bits.getLsbD 5
  dirty : bits.getLsbD 6 = flags.bits.getLsbD 6
  global : bits.getLsbD 8 = flags.bits.getLsbD 8
  executeDisable : bits.getLsbD 63 = flags.bits.getLsbD 9

/-- A leaf at `level` that maps the block at `address` to itself with the given attributes. -/
structure MapsBlock (level : PageLevel) (address : Nat) (flags : PageEntryFlags)
    (entry : BitVec 64) : Prop where
  carries : CarriesFlags flags entry
  pageSize : level ≠ .pt → entry.getLsbD 7 = true
  base : leafBase level entry = some address

private theorem applyToRaw_getLsbD (flags : PageEntryFlags) (index : Nat) :
    (flags.applyToRaw 0).getLsbD index =
      (flags.bits.getLsbD index && decide (index < 6) ||
        flags.bits.getLsbD 9 && decide (index = 63)) := by
  simp only [applyToRaw, present, writable, userPage, pwt, pcd, accessed, executeDisable,
    getLsbD_orWhen, getLsbD_entryBit]
  rw [contains_flag, contains_flag, contains_flag, contains_flag, contains_flag, contains_flag,
    contains_flag]
  all_goals try decide
  by_cases low : index < 6
  · interval_cases index <;> simp
  · by_cases top : index = 63
    · subst index
      simp
    · have apart : ∀ position, position < 6 → position ≠ index := by omega
      simp [low, top, Ne.symm top, apart]

private theorem hugeBits_getLsbD (flags : PageEntryFlags) (index : Nat) :
    (hugeBits flags).getLsbD index =
      ((flags.applyToRaw 0).getLsbD index || flags.bits.getLsbD 7 && decide (12 = index) ||
        flags.bits.getLsbD 6 && decide (6 = index) || flags.bits.getLsbD 8 && decide (8 = index) ||
        flags.bits.getLsbD 10 && decide (7 = index)) := by
  simp only [hugeBits, pat, dirty, global, huge, getLsbD_orWhen, getLsbD_entryBit]
  rw [contains_flag, contains_flag, contains_flag, contains_flag]
  all_goals try decide
  simp

/-- Attribute bits of a leaf before the present and page-size bits are added. -/
private structure AttributeBits (flags : PageEntryFlags) (bits : BitVec 64) : Prop where
  low : ∀ index, 1 ≤ index → index ≤ 6 → bits.getLsbD index = flags.bits.getLsbD index
  global : bits.getLsbD 8 = flags.bits.getLsbD 8
  executeDisable : bits.getLsbD 63 = flags.bits.getLsbD 9

private theorem hugeBits_attributes (flags : PageEntryFlags) :
    AttributeBits flags (hugeBits flags) where
  low index positive small := by
    rw [hugeBits_getLsbD, applyToRaw_getLsbD]
    interval_cases index <;> simp
  global := by
    rw [hugeBits_getLsbD, applyToRaw_getLsbD]
    simp
  executeDisable := by
    rw [hugeBits_getLsbD, applyToRaw_getLsbD]
    simp

/-- The bits of a huge leaf with bit 7 moved to bit 12. -/
private def movedBits (bits : BitVec 64) : BitVec 64 :=
  if bits &&& entryBit 7 ≠ 0 then (bits &&& ~~~entryBit 7) ||| entryBit 12 else bits

private theorem movedBits_converted {level : PageLevel} (kind : level = .pdpt ∨ level = .pd)
    {bits : BitVec 64} (converted : Converted level bits) : Converted level (movedBits bits) := by
  rw [movedBits]
  split
  · have masked : (bits &&& ~~~entryBit 7) &&& convertedFlags level = bits &&& ~~~entryBit 7 := by
      rw [BitVec.and_assoc, BitVec.and_comm (~~~entryBit 7), ← BitVec.and_assoc, converted]
    have joined : ((bits &&& ~~~entryBit 7) ||| entryBit 12) &&& convertedFlags level =
        (bits &&& ~~~entryBit 7) ||| entryBit 12 := by
      rw [BitVec.and_or_distrib_right, masked, entryBit_converted kind (by decide)]
    exact joined
  · exact converted

private theorem movePatBit_eq (crates : X86Crates) {level : PageLevel}
    (kind : level = .pdpt ∨ level = .pd) (flags : PageEntryFlags) :
    movePatBit crates level (flags.toHugeFlags crates level) = movedBits (hugeBits flags) := by
  rw [toHugeFlags_eq crates kind]
  exact (movedBits_converted kind (hugeBits_converted kind flags)).truncate crates

private theorem movedBits_getLsbD (bits : BitVec 64) {index : Nat} (notSeven : 7 ≠ index)
    (notTwelve : 12 ≠ index) (bound : index < 64) :
    (movedBits bits).getLsbD index = bits.getLsbD index := by
  rw [movedBits]
  split
  · simp only [BitVec.getLsbD_or, BitVec.getLsbD_and, BitVec.getLsbD_not, getLsbD_entryBit,
      notSeven, notTwelve, decide_eq_true bound, decide_false, Bool.and_false, Bool.not_false,
      Bool.and_true, Bool.or_false]
  · rfl

private theorem movedBits_attributes {flags : PageEntryFlags} {bits : BitVec 64}
    (attributes : AttributeBits flags bits) : AttributeBits flags (movedBits bits) where
  low index positive small := by
    rw [movedBits_getLsbD bits (by omega) (by omega) (by omega),
      attributes.low index positive small]
  global := by rw [movedBits_getLsbD bits (by decide) (by decide) (by decide), attributes.global]
  executeDisable := by
    rw [movedBits_getLsbD bits (by decide) (by decide) (by decide), attributes.executeDisable]

/-- The flag bits of a huge leaf are outside its address field. -/
private theorem converted_outside {level : PageLevel} (kind : level = .pdpt ∨ level = .pd)
    {bits : BitVec 64} (converted : Converted level bits) {low : Nat}
    (width : low = 21 ∨ low = 30) : bits &&& addressField low = 0 := by
  apply converted.and_eq_zero
  rcases kind with rfl | rfl <;> rcases width with rfl | rfl <;> decide

private theorem hugeLeaf_carries {crates : X86Crates} {level : PageLevel}
    (kind : level = .pdpt ∨ level = .pd) {flags : PageEntryFlags} {bits entry : BitVec 64}
    {address : Nat} (attributes : AttributeBits flags bits)
    (built : hugeLeaf crates level address bits = some entry) :
    CarriesFlags flags entry ∧ entry.getLsbD 7 = true := by
  have read : ∀ index, index < 12 ∨ 52 ≤ index →
      entry.getLsbD index = (bits ||| entryBit 7 ||| entryBit 0).getLsbD index := by
    intro index outside
    rw [entryNew_flagBit built outside, crates.flagPS_eq level kind, crates.flagP_eq]
  have unforced : ∀ index, index < 12 ∨ 52 ≤ index → 7 ≠ index → 0 ≠ index →
      entry.getLsbD index = bits.getLsbD index := by
    intro index outside notSeven notZero
    rw [read index outside]
    simp only [BitVec.getLsbD_or, getLsbD_entryBit, notSeven, notZero, decide_false,
      Bool.and_false, Bool.or_false]
  constructor
  · constructor
    case present =>
      rw [read 0 (by decide)]
      simp only [BitVec.getLsbD_or, getLsbD_entryBit]
      simp
    case global => rw [unforced 8 (by decide) (by decide) (by decide), attributes.global]
    case executeDisable =>
      rw [unforced 63 (by decide) (by decide) (by decide), attributes.executeDisable]
    all_goals
      rw [unforced _ (by decide) (by decide) (by decide),
        attributes.low _ (by decide) (by decide)]
  · rw [read 7 (by decide)]
    simp only [BitVec.getLsbD_or, getLsbD_entryBit]
    simp

private theorem hugeLeaf_mapsBlock (crates : X86Crates) {level : PageLevel}
    (kind : level = .pdpt ∨ level = .pd) {flags : PageEntryFlags} {bits : BitVec 64} {address : Nat}
    (attributes : AttributeBits flags bits)
    (outside : ∀ low, low = 21 ∨ low = 30 → bits &&& addressField low = 0)
    (aligned : level.entrySize ∣ address) (bounded : address < 2 ^ 52) :
    ∃ entry, hugeLeaf crates level address bits = some entry ∧
      MapsBlock level address flags entry := by
  have pageAligned : 4096 ∣ address := by
    refine dvd_trans ?_ aligned
    rcases kind with rfl | rfl <;> decide
  have built : hugeLeaf crates level address bits =
      some (BitVec.ofNat 64 address ||| (bits ||| entryBit 7 ||| entryBit 0)) := by
    rw [hugeLeaf, crates.entryNew_eq level _ _ pageAligned bounded, crates.flagPS_eq level kind,
      crates.flagP_eq]
  obtain ⟨carries, size⟩ := hugeLeaf_carries kind attributes built
  refine ⟨_, built, carries, fun _ => size, ?_⟩
  have clear : ∀ low, low = 21 ∨ low = 30 →
      (bits ||| entryBit 7 ||| entryBit 0) &&& addressField low = 0 := by
    intro low width
    rw [BitVec.and_or_distrib_right, BitVec.and_or_distrib_right, outside low width]
    rcases width with rfl | rfl <;> decide
  rcases kind with rfl | rfl
  · exact congrArg some
      (entry_and_addressField (.inr (.inr rfl)) aligned bounded (clear 30 (.inr rfl)))
  · exact congrArg some
      (entry_and_addressField (.inr (.inl rfl)) aligned bounded (clear 21 (.inl rfl)))

private theorem generateHugeEntry_eq (crates : X86Crates) {level : PageLevel}
    (kind : level = .pdpt ∨ level = .pd) (address : Nat) (flags : PageEntryFlags) :
    generateHugeEntry crates level address flags =
      hugeLeaf crates level address (hugeBits flags) := by
  rw [← toHugeFlags_eq crates kind]
  rcases kind with rfl | rfl <;> rfl

private theorem createHugeEntry_eq (crates : X86Crates) {level : PageLevel}
    (kind : level = .pdpt ∨ level = .pd) (address : Nat) (flags : PageEntryFlags) :
    createHugeEntry crates level address flags =
      hugeLeaf crates level address (movedBits (hugeBits flags)) := by
  rw [← movePatBit_eq crates kind]
  rcases kind with rfl | rfl <;> rfl

/-- A huge leaf carries the requested flags, whoever builds it. -/
theorem hugeEntry_carries {crates : X86Crates} {level : PageLevel}
    (kind : level = .pdpt ∨ level = .pd) {flags : PageEntryFlags} {address : Nat}
    {entry : BitVec 64}
    (built : createHugeEntry crates level address flags = some entry ∨
      generateHugeEntry crates level address flags = some entry) : CarriesFlags flags entry := by
  have attributes := hugeBits_attributes flags
  rw [createHugeEntry_eq crates kind, generateHugeEntry_eq crates kind] at built
  rcases built with built | built
  · exact (hugeLeaf_carries kind (movedBits_attributes attributes) built).1
  · exact (hugeLeaf_carries kind attributes built).1

theorem generateHugeEntry_mapsBlock (crates : X86Crates) {level : PageLevel}
    (kind : level = .pdpt ∨ level = .pd) (flags : PageEntryFlags) {address : Nat}
    (aligned : level.entrySize ∣ address) (bounded : address < 2 ^ 52) :
    ∃ entry, generateHugeEntry crates level address flags = some entry ∧
      MapsBlock level address flags entry := by
  rw [generateHugeEntry_eq crates kind]
  exact hugeLeaf_mapsBlock crates kind (hugeBits_attributes flags)
    (fun _ width => converted_outside kind (hugeBits_converted kind flags) width) aligned bounded

theorem createHugeEntry_mapsBlock (crates : X86Crates) {level : PageLevel}
    (kind : level = .pdpt ∨ level = .pd) (flags : PageEntryFlags) {address : Nat}
    (aligned : level.entrySize ∣ address) (bounded : address < 2 ^ 52) :
    ∃ entry, createHugeEntry crates level address flags = some entry ∧
      MapsBlock level address flags entry := by
  rw [createHugeEntry_eq crates kind]
  have converted := movedBits_converted kind (hugeBits_converted kind flags)
  exact hugeLeaf_mapsBlock crates kind (movedBits_attributes (hugeBits_attributes flags))
    (fun _ width => converted_outside kind converted width) aligned bounded

/-- The two builders of huge leaves agree up to the PAT bit. -/
theorem createHugeEntry_pat (crates : X86Crates) {level : PageLevel} {flags : PageEntryFlags}
    {address : Nat} {created generated : BitVec 64}
    (createdEq : createHugeEntry crates level address flags = some created)
    (generatedEq : generateHugeEntry crates level address flags = some generated) :
    created &&& ~~~entryBit 12 = generated &&& ~~~entryBit 12 := by
  have joined : ∀ level, level = .pdpt ∨ level = .pd → ∀ created generated,
      createHugeEntry crates level address flags = some created →
      generateHugeEntry crates level address flags = some generated →
      created &&& ~~~entryBit 12 = generated &&& ~~~entryBit 12 := by
    intro level kind created generated createdEq generatedEq
    rw [createHugeEntry_eq crates kind] at createdEq
    rw [generateHugeEntry_eq crates kind] at generatedEq
    rw [crates.entryNew_result _ _ _ _ createdEq, crates.entryNew_result _ _ _ _ generatedEq,
      crates.flagPS_eq level kind, crates.flagP_eq]
    apply BitVec.eq_of_getLsbD_eq
    intro index bound
    simp only [BitVec.getLsbD_and, BitVec.getLsbD_or, BitVec.getLsbD_not, getLsbD_entryBit]
    by_cases atPat : 12 = index
    · simp [atPat]
    by_cases atSize : 7 = index
    · simp [atSize, bound]
    rw [movedBits_getLsbD _ atSize atPat bound]
  cases level with
  | pdpt => exact joined .pdpt (.inl rfl) created generated createdEq generatedEq
  | pd => exact joined .pd (.inr rfl) created generated createdEq generatedEq
  | pt | pml4 | pml5 =>
      obtain rfl := Option.some.inj createdEq
      obtain rfl := Option.some.inj generatedEq
      rfl

/-- The two builders of huge leaves panic for the same blocks. -/
theorem createHugeEntry_exists {crates : X86Crates} {level : PageLevel} {flags : PageEntryFlags}
    {address : Nat} {generated : BitVec 64}
    (built : generateHugeEntry crates level address flags = some generated) :
    ∃ created, createHugeEntry crates level address flags = some created := by
  have leaf : ∀ level bits bits', hugeLeaf crates level address bits = some generated →
      ∃ created, hugeLeaf crates level address bits' = some created := by
    intro level bits bits' built
    cases other : hugeLeaf crates level address bits' with
    | some created => exact ⟨created, rfl⟩
    | none =>
        have refused := crates.entryNew_none level address _
          (bits ||| crates.flagPS level ||| crates.flagP level) other
        rw [hugeLeaf, refused] at built
        simp at built
  cases level with
  | pdpt => exact leaf _ _ _ built
  | pd => exact leaf _ _ _ built
  | pt | pml4 | pml5 => exact ⟨0, rfl⟩

/-- The flag bits of a page. -/
private def pageBits (flags : PageEntryFlags) : BitVec 64 :=
  orWhen (flags.contains global) (entryBit 8)
    (orWhen (flags.contains dirty) (entryBit 6) (flags.applyToRaw 0))

private theorem pageBits_converted (flags : PageEntryFlags) : Converted .pt (pageBits flags) := by
  have dirtyBit : Converted .pt (entryBit 6) := by
    rw [Converted]
    decide
  have globalBit : Converted .pt (entryBit 8) := by
    rw [Converted]
    decide
  exact ((applyToRaw_converted .pt flags).orWhen dirtyBit _).orWhen globalBit _

private theorem toPtf_eq (crates : X86Crates) (flags : PageEntryFlags) :
    flags.toPtf crates = pageBits flags := by
  simp only [toPtf, crates.flagD_eq .pt (by decide), crates.flagG_eq .pt (by decide)]
  exact (pageBits_converted flags).truncate crates

private theorem pageBits_getLsbD (flags : PageEntryFlags) (index : Nat) :
    (pageBits flags).getLsbD index =
      ((flags.applyToRaw 0).getLsbD index || flags.bits.getLsbD 6 && decide (6 = index) ||
        flags.bits.getLsbD 8 && decide (8 = index)) := by
  simp only [pageBits, dirty, global, getLsbD_orWhen, getLsbD_entryBit]
  rw [contains_flag, contains_flag]
  all_goals try decide
  simp

theorem pageEntry_carries {crates : X86Crates} {flags : PageEntryFlags} {address : Nat}
    {entry : BitVec 64} (built : pageEntry crates address flags = some entry) :
    CarriesFlags flags entry := by
  constructor <;> rw [entryNew_flagBit built (by decide), crates.flagP_eq, BitVec.getLsbD_or,
    toPtf_eq, pageBits_getLsbD, applyToRaw_getLsbD, getLsbD_entryBit] <;> simp

theorem pageEntry_mapsBlock (crates : X86Crates) (flags : PageEntryFlags) {address : Nat}
    (aligned : 4096 ∣ address) (bounded : address < 2 ^ 52) :
    ∃ entry, pageEntry crates address flags = some entry ∧ MapsBlock .pt address flags entry := by
  have built : pageEntry crates address flags =
      some (BitVec.ofNat 64 address ||| (pageBits flags ||| entryBit 0)) := by
    rw [pageEntry, crates.entryNew_eq _ _ _ aligned bounded, crates.flagP_eq, toPtf_eq]
  have clear : (pageBits flags ||| entryBit 0) &&& addressField 12 = 0 := by
    rw [BitVec.and_or_distrib_right, (pageBits_converted flags).and_eq_zero (by decide),
      show entryBit 0 &&& addressField 12 = 0#64 by decide]
    simp
  exact ⟨_, built, pageEntry_carries built, fun inner => absurd rfl inner,
    congrArg some (entry_and_addressField (.inl rfl) aligned bounded clear)⟩

/-! ## PAT -/

section Pat

variable {crates : X86Crates} {level : PageLevel} {flags : PageEntryFlags} {address : Nat}
  {entry : BitVec 64}

private theorem entryNew_getLsbD {low index : Nat} {bits : BitVec 64}
    (built : crates.entryNew level address bits = some entry) (aligned : 2 ^ low ∣ address)
    (below : index < low) : entry.getLsbD index = bits.getLsbD index := by
  rw [crates.entryNew_result _ _ _ _ built, BitVec.getLsbD_or, BitVec.getLsbD_and,
    BitVec.getLsbD_ofNat, testBit_of_dvd aligned below]
  simp

private theorem hugeLeaf_getLsbD {index : Nat} {bits : BitVec 64}
    (kind : level = .pdpt ∨ level = .pd) (built : hugeLeaf crates level address bits = some entry)
    (aligned : level.entrySize ∣ address) (above : 12 ≤ index) (below : index < level.shift) :
    entry.getLsbD index = bits.getLsbD index := by
  rw [PageLevel.entrySize_eq] at aligned
  rw [entryNew_getLsbD built aligned below, crates.flagPS_eq level kind, crates.flagP_eq,
    BitVec.getLsbD_or, BitVec.getLsbD_or, getLsbD_entryBit, getLsbD_entryBit,
    decide_eq_false (show ¬ 7 = index by omega), decide_eq_false (show ¬ 0 = index by omega)]
  simp

private theorem hugeBits_pat (flags : PageEntryFlags) :
    (hugeBits flags).getLsbD 12 = flags.bits.getLsbD 7 := by
  rw [hugeBits_getLsbD, applyToRaw_getLsbD]
  simp

private theorem hugeBits_size (flags : PageEntryFlags) :
    (hugeBits flags).getLsbD 7 = flags.bits.getLsbD 10 := by
  rw [hugeBits_getLsbD, applyToRaw_getLsbD]
  simp

private theorem movedBits_pat (bits : BitVec 64) :
    (movedBits bits).getLsbD 12 = (bits.getLsbD 12 || bits.getLsbD 7) := by
  rw [movedBits, entryBit, BitVec.and_twoPow]
  cases size : bits.getLsbD 7
  · simp
  · rw [if_pos rfl, if_pos (by decide), BitVec.getLsbD_or, getLsbD_entryBit]
    simp

/-- The update writes PAT where it is requested. -/
theorem generateHugeEntry_patBit (kind : level = .pdpt ∨ level = .pd)
    (built : generateHugeEntry crates level address flags = some entry)
    (aligned : level.entrySize ∣ address) : entry.getLsbD 12 = flags.bits.getLsbD 7 := by
  have inside : 12 < level.shift := by rcases kind with rfl | rfl <;> decide
  rw [generateHugeEntry_eq crates kind] at built
  rw [hugeLeaf_getLsbD kind built aligned le_rfl inside, hugeBits_pat]

/-- The creation writes PAT where PAT or HUGE is requested. -/
theorem createHugeEntry_patBit (kind : level = .pdpt ∨ level = .pd)
    (built : createHugeEntry crates level address flags = some entry)
    (aligned : level.entrySize ∣ address) :
    entry.getLsbD 12 = (flags.bits.getLsbD 7 || flags.bits.getLsbD 10) := by
  have inside : 12 < level.shift := by rcases kind with rfl | rfl <;> decide
  rw [createHugeEntry_eq crates kind] at built
  rw [hugeLeaf_getLsbD kind built aligned le_rfl inside, movedBits_pat, hugeBits_pat,
    hugeBits_size]

/-- A page never has PAT. -/
theorem pageEntry_patBit (built : pageEntry crates address flags = some entry)
    (aligned : 4096 ∣ address) : entry.getLsbD 7 = false := by
  rw [entryNew_getLsbD built (show 2 ^ 12 ∣ address from aligned) (by decide),
    BitVec.getLsbD_or, toPtf_eq, pageBits_getLsbD, applyToRaw_getLsbD, crates.flagP_eq,
    getLsbD_entryBit]
  simp

private theorem hugeLeaf_clear {bits : BitVec 64} (kind : level = .pdpt ∨ level = .pd)
    (converted : Converted level bits) (built : hugeLeaf crates level address bits = some entry)
    (aligned : level.entrySize ∣ address) {index : Nat} (above : 12 < index)
    (below : index < level.shift) : entry.getLsbD index = false := by
  have outside : (convertedFlags level).getLsbD index = false := by
    have bound : index < 30 := by
      rcases kind with rfl | rfl <;> simp only [PageLevel.shift, PageLevel.rank] at below <;> omega
    have table : ∀ position : Fin 30, 12 < position.val →
        (0x80000000000011FF#64).getLsbD position = false := by decide
    rcases kind with rfl | rfl <;> exact table ⟨index, bound⟩ above
  rw [hugeLeaf_getLsbD kind built aligned above.le below, converted.getLsbD_eq_false outside]

/-- Between PAT and the address field of a huge leaf no bit is set. -/
theorem hugeEntry_clear (kind : level = .pdpt ∨ level = .pd)
    (built : createHugeEntry crates level address flags = some entry ∨
      generateHugeEntry crates level address flags = some entry)
    (aligned : level.entrySize ∣ address) {index : Nat} (above : 12 < index)
    (below : index < level.shift) : entry.getLsbD index = false := by
  rw [createHugeEntry_eq crates kind, generateHugeEntry_eq crates kind] at built
  have converted := hugeBits_converted kind flags
  rcases built with built | built
  · exact hugeLeaf_clear kind (movedBits_converted kind converted) built aligned above below
  · exact hugeLeaf_clear kind converted built aligned above below

end Pat

end Okots
