import Okots.Library.Reachable
import Okots.Library.WordBytes
import Mathlib.Tactic.IntervalCases

/-!
# PCI configuration accesses

The handler reads and writes configuration registers through the ports `0xCF8` and `0xCFC`, which
give access to one dword at a time.  The address register has room for the low eight bits of an
offset only, so an access behind the first 256 bytes of a function meets the register with the same
low bits.
-/

namespace Okots

open TransitionSystem WordBytes

/-! ## The configuration mechanism -/

/-- `PciAddress`. -/
structure PciAddress where
  segment : BitVec 16
  bus : BitVec 8
  device : BitVec 5
  function : BitVec 3

/-- A function on the buses behind the configuration ports. -/
structure PciFunction where
  bus : BitVec 8
  device : BitVec 5
  function : BitVec 3
  deriving DecidableEq

/-- The function that an address names. -/
def PciAddress.target (address : PciAddress) : PciFunction :=
  ⟨address.bus, address.device, address.function⟩

/-- The configuration bytes of all functions. -/
abbrev ConfigSpace := PciFunction → Fin 4096 → BitVec 8

/-- The space after `count` bytes of a function have been written from `start` on. -/
def patch (space : ConfigSpace) (target : PciFunction) (start count : Nat)
    (value : BitVec (8 * count)) : ConfigSpace := fun other offset =>
  if other = target ∧ start ≤ offset.val ∧ offset.val < start + count then
    byteAt value (offset.val - start)
  else
    space other offset

/-- The little-endian value of `count` bytes of a function from `start` on. -/
def storedAt (space : ConfigSpace) (target : PciFunction) (start count : Nat) :
    BitVec (8 * count) :=
  ofBytes count fun position => space target (Fin.ofNat 4096 (start + position))

/-- The address register behind port `0xCF8`, and the configuration space. -/
structure PciPorts where
  configAddress : BitVec 32
  space : ConfigSpace

namespace PciPorts

/-- The function selected by bits 23:8. -/
def selected (ports : PciPorts) : PciFunction :=
  ⟨ports.configAddress.extractLsb' 16 8, ports.configAddress.extractLsb' 11 5,
    ports.configAddress.extractLsb' 8 3⟩

/-- Offset of the dword selected by bits 7:2. -/
def register (ports : PciPorts) : Nat := 4 * (ports.configAddress.extractLsb' 2 6).toNat

/-- A write to port `0xCF8`. -/
def writeAddress (value : BitVec 32) : StateM PciPorts Unit :=
  modify fun ports => { ports with configAddress := value }

/-- A read of port `0xCFC`. -/
def readData : StateM PciPorts (BitVec 32) := do
  let ports ← get
  return storedAt ports.space ports.selected ports.register 4

/-- A write to port `0xCFC`. -/
def writeData (value : BitVec 32) : StateM PciPorts Unit := modify fun ports =>
  { ports with space := patch ports.space ports.selected ports.register 4 value }

end PciPorts

/-! ## The handler -/

/-- The value written to the address register. -/
def configAddr (address : PciAddress) (offset : BitVec 16) : BitVec 32 :=
  0x80000000#32 ||| (address.bus.setWidth 32 <<< 16) ||| (address.device.setWidth 32 <<< 11) |||
    (address.function.setWidth 32 <<< 8) ||| (offset &&& 0xfc#16).setWidth 32

/-- `read_pci_u8`. -/
def readPciU8 (address : PciAddress) (offset : BitVec 16) : StateM PciPorts (BitVec 8) := do
  PciPorts.writeAddress (configAddr address offset)
  let val ← PciPorts.readData
  return (val >>> ((offset &&& 0x3#16) * 8#16)).setWidth 8

/-- `read_pci_u16`. -/
def readPciU16 (address : PciAddress) (offset : BitVec 16) : StateM PciPorts (BitVec 16) := do
  PciPorts.writeAddress (configAddr address offset)
  let val ← PciPorts.readData
  return (val >>> ((offset &&& 0x2#16) * 8#16)).setWidth 16

/-- `read_pci_u32`. -/
def readPciU32 (address : PciAddress) (offset : BitVec 16) : StateM PciPorts (BitVec 32) := do
  PciPorts.writeAddress (configAddr address offset)
  PciPorts.readData

/-- `write_pci_u32`. -/
def writePciU32 (address : PciAddress) (offset : BitVec 16) (value : BitVec 32) :
    StateM PciPorts Unit := do
  PciPorts.writeAddress (configAddr address offset)
  PciPorts.writeData value

/-- `write_pci_u8`. -/
def writePciU8 (address : PciAddress) (offset : BitVec 16) (value : BitVec 8) :
    StateM PciPorts Unit := do
  let oldVal ← readPciU32 address offset
  let shift := (offset &&& 0x3#16) * 8#16
  let newVal := (oldVal &&& ~~~(0xff#32 <<< shift)) ||| (value.setWidth 32 <<< shift)
  writePciU32 address offset newVal

/-- `write_pci_u16`. -/
def writePciU16 (address : PciAddress) (offset : BitVec 16) (value : BitVec 16) :
    StateM PciPorts Unit := do
  let oldVal ← readPciU32 address offset
  let shift := (offset &&& 0x2#16) * 8#16
  let newVal := (oldVal &&& ~~~(0xffff#32 <<< shift)) ||| (value.setWidth 32 <<< shift)
  writePciU32 address offset newVal

/-- The widths of an access. -/
inductive PciWidth where
  | u8
  | u16
  | u32
  deriving DecidableEq

/-- Number of bytes of an access. -/
def PciWidth.bytes : PciWidth → Nat
  | .u8 => 1
  | .u16 => 2
  | .u32 => 4

/-- The read function of a width. -/
def readPci (address : PciAddress) (offset : BitVec 16) :
    (width : PciWidth) → StateM PciPorts (BitVec (8 * width.bytes))
  | .u8 => readPciU8 address offset
  | .u16 => readPciU16 address offset
  | .u32 => readPciU32 address offset

/-- The write function of a width. -/
def writePci (address : PciAddress) (offset : BitVec 16) :
    (width : PciWidth) → BitVec (8 * width.bytes) → StateM PciPorts Unit
  | .u8 => writePciU8 address offset
  | .u16 => writePciU16 address offset
  | .u32 => writePciU32 address offset

/-! ## Effects -/

/-- Offset of the dword that an access meets. -/
def dwordBase (offset : BitVec 16) : Nat := 4 * (offset.toNat / 4 % 64)

section Address

variable (address : PciAddress) (offset : BitVec 16) (space : ConfigSpace)

theorem selected_configAddr :
    (⟨configAddr address offset, space⟩ : PciPorts).selected = address.target := by
  simp only [PciPorts.selected, PciAddress.target, PciFunction.mk.injEq]
  refine ⟨?_, ?_, ?_⟩
  all_goals
    apply BitVec.eq_of_getLsbD_eq
    intro bit inside
    interval_cases bit <;> simp [configAddr]

theorem register_configAddr :
    (⟨configAddr address offset, space⟩ : PciPorts).register = dwordBase offset := by
  have bits : (configAddr address offset).extractLsb' 2 6 = offset.extractLsb' 2 6 := by
    apply BitVec.eq_of_getLsbD_eq
    intro bit inside
    interval_cases bit <;> simp [configAddr]
  rw [PciPorts.register, bits, BitVec.extractLsb'_toNat, Nat.shiftRight_eq_div_pow, dwordBase]

theorem readPciU32_eq (ports : PciPorts) :
    readPciU32 address offset ports =
      (storedAt ports.space address.target (dwordBase offset) 4,
        ⟨configAddr address offset, ports.space⟩) := by
  rw [← selected_configAddr address offset ports.space,
    ← register_configAddr address offset ports.space]
  rfl

theorem writePciU32_eq (value : BitVec 32) (ports : PciPorts) :
    writePciU32 address offset value ports =
      ((), ⟨configAddr address offset,
        patch ports.space address.target (dwordBase offset) 4 value⟩) := by
  rw [← selected_configAddr address offset ports.space,
    ← register_configAddr address offset ports.space]
  rfl

end Address

/-- Position of the first byte of an access in its dword, for a byte access. -/
theorem shift_u8 (offset : BitVec 16) :
    ((offset &&& 0x3#16) * 8#16).toNat = 8 * (offset.toNat % 4) := by
  have masked : (offset &&& 0x3#16).toNat = offset.toNat % 4 := by
    rw [BitVec.toNat_and]
    exact Nat.and_two_pow_sub_one_eq_mod _ 2
  rw [BitVec.toNat_mul, masked]
  simp only [BitVec.toNat_ofNat]
  omega

/-- Position of the first byte of an access in its dword, for an aligned 16-bit access. -/
theorem shift_u16 {offset : BitVec 16} (even : 2 ∣ offset.toNat) :
    ((offset &&& 0x2#16) * 8#16).toNat = 8 * (offset.toNat % 4) := by
  have masked : (offset &&& 0x3#16).toNat = offset.toNat % 4 := by
    rw [BitVec.toNat_and]
    exact Nat.and_two_pow_sub_one_eq_mod _ 2
  have narrowed : offset &&& 0x2#16 = (offset &&& 0x3#16) &&& 0x2#16 := by
    rw [BitVec.and_assoc]
    rfl
  have same : (offset &&& 0x2#16).toNat = offset.toNat % 4 := by
    rw [narrowed, BitVec.toNat_and, masked]
    obtain zero | two : offset.toNat % 4 = 0 ∨ offset.toNat % 4 = 2 := by omega
    · rw [zero]
      rfl
    · rw [two]
      rfl
  rw [BitVec.toNat_mul, same]
  simp only [BitVec.toNat_ofNat]
  omega

section Access

variable {address : PciAddress} {offset : BitVec 16} {width : PciWidth}
  (aligned : width.bytes ∣ offset.toNat) (ports : PciPorts)

include aligned

/-- A read shifts the dword and truncates it. -/
theorem readPci_eq :
    readPci address offset width ports =
      ((storedAt ports.space address.target (dwordBase offset) 4 >>>
          (8 * (offset.toNat % 4))).setWidth (8 * width.bytes),
        ⟨configAddr address offset, ports.space⟩) := by
  cases width with
  | u8 =>
      have run : readPciU8 address offset ports =
          (((readPciU32 address offset ports).1 >>> ((offset &&& 0x3#16) * 8#16).toNat).setWidth 8,
            (readPciU32 address offset ports).2) := rfl
      rw [shift_u8, readPciU32_eq] at run
      exact run
  | u16 =>
      have run : readPciU16 address offset ports =
          (((readPciU32 address offset ports).1 >>> ((offset &&& 0x2#16) * 8#16).toNat).setWidth 16,
            (readPciU32 address offset ports).2) := rfl
      rw [shift_u16 aligned, readPciU32_eq] at run
      exact run
  | u32 =>
      have whole : offset.toNat % 4 = 0 := Nat.mod_eq_zero_of_dvd aligned
      have run := readPciU32_eq address offset ports
      rw [whole, Nat.mul_zero, BitVec.ushiftRight_zero]
      exact run.trans (Prod.ext (BitVec.setWidth_eq _).symm rfl)

/-- A write replaces bytes of the dword. -/
theorem writePci_eq (value : BitVec (8 * width.bytes)) :
    writePci address offset width value ports =
      ((), ⟨configAddr address offset, patch ports.space address.target (dwordBase offset) 4
        (splice (storedAt ports.space address.target (dwordBase offset) 4) (offset.toNat % 4)
          value)⟩) := by
  cases width with
  | u8 =>
      have run : writePciU8 address offset value ports =
          writePciU32 address offset
            (((readPciU32 address offset ports).1 &&&
                ~~~((BitVec.allOnes 8).setWidth 32 <<< ((offset &&& 0x3#16) * 8#16).toNat)) |||
              (value.setWidth 32 <<< ((offset &&& 0x3#16) * 8#16).toNat))
            (readPciU32 address offset ports).2 := rfl
      rw [shift_u8, readPciU32_eq, writePciU32_eq] at run
      exact run
  | u16 =>
      have run : writePciU16 address offset value ports =
          writePciU32 address offset
            (((readPciU32 address offset ports).1 &&&
                ~~~((BitVec.allOnes 16).setWidth 32 <<< ((offset &&& 0x2#16) * 8#16).toNat)) |||
              (value.setWidth 32 <<< ((offset &&& 0x2#16) * 8#16).toNat))
            (readPciU32 address offset ports).2 := rfl
      rw [shift_u16 aligned, readPciU32_eq, writePciU32_eq] at run
      exact run
  | u32 =>
      have whole : offset.toNat % 4 = 0 := Nat.mod_eq_zero_of_dvd aligned
      have replaced (word : BitVec 32) : splice word 0 value = value := splice_whole word value
      rw [whole, replaced]
      exact writePciU32_eq address offset value ports

/-- An aligned access stays in its dword. -/
theorem fits_of_aligned : offset.toNat % 4 + width.bytes ≤ 4 := by
  cases width <;> simp only [PciWidth.bytes] at aligned ⊢ <;> omega

/-- A read returns the bytes at the low eight bits of its offset. -/
theorem readPci_storedAt :
    readPci address offset width ports =
      (storedAt ports.space address.target (offset.toNat % 256) width.bytes,
        ⟨configAddr address offset, ports.space⟩) := by
  have fits := fits_of_aligned aligned
  rw [readPci_eq aligned]
  refine Prod.ext (eq_of_byteAt ?_) rfl
  intro position inside
  rw [byteAt_shift _ _ inside, storedAt, storedAt, byteAt_ofBytes _ (by omega),
    byteAt_ofBytes _ inside,
    show dwordBase offset + (offset.toNat % 4 + position) = offset.toNat % 256 + position by
      rw [dwordBase]
      omega]

/-- A write replaces the bytes at the low eight bits of its offset. -/
theorem writePci_patch (value : BitVec (8 * width.bytes)) :
    writePci address offset width value ports =
      ((), ⟨configAddr address offset,
        patch ports.space address.target (offset.toNat % 256) width.bytes value⟩) := by
  have fits := fits_of_aligned aligned
  have base : dwordBase offset + offset.toNat % 4 = offset.toNat % 256 := by
    rw [dwordBase]
    omega
  rw [writePci_eq aligned]
  refine Prod.ext rfl (congrArg (PciPorts.mk _) ?_)
  funext other position
  simp only [patch, ← base]
  by_cases inside : other = address.target ∧ dwordBase offset ≤ position.val ∧
      position.val < dwordBase offset + 4
  · obtain ⟨rfl, above, below⟩ := inside
    have kept : byteAt (storedAt ports.space address.target (dwordBase offset) 4)
        (position.val - dwordBase offset) = ports.space address.target position := by
      rw [storedAt, byteAt_ofBytes _ (by omega), Nat.add_sub_cancel' above]
      exact congrArg _ (Fin.ofNat_val_eq_self position)
    rw [if_pos ⟨rfl, above, below⟩, byteAt_splice _ _ (by omega), kept]
    refine if_congr ?_ (by rw [Nat.sub_sub]) rfl
    simp only [true_and]
    omega
  · rw [if_neg inside, if_neg]
    rintro ⟨same, above, below⟩
    exact inside ⟨same, by omega, by omega⟩

end Access

/-! ## Runs -/

/-- A naturally aligned access to the configuration space of a function. -/
structure PciAccess where
  address : PciAddress
  offset : BitVec 16
  width : PciWidth
  inside : offset.toNat < 4096
  aligned : width.bytes ∣ offset.toNat

/-- An operation of the interpreter that drives the handler. -/
inductive PciOp where
  | read (access : PciAccess)
  | write (access : PciAccess) (value : BitVec (8 * access.width.bytes))

namespace PciOp

/-- The access of an operation. -/
def access : PciOp → PciAccess
  | read access => access
  | write access _ => access

/-- Performs an operation. -/
def step (ports : PciPorts) : PciOp → PciPorts
  | read access => (readPci access.address access.offset access.width ports).2
  | write access value => (writePci access.address access.offset access.width value ports).2

/-- A read returns the bytes stored at its offset.  A write changes exactly those bytes, and a
read of the same access then returns the value. -/
def ActsOnOwnBytes (ports : PciPorts) : PciOp → Prop
  | read access =>
      readPci access.address access.offset access.width ports =
        (storedAt ports.space access.address.target access.offset.toNat access.width.bytes,
          ⟨configAddr access.address access.offset, ports.space⟩)
  | write access value =>
      ((write access value).step ports).space =
          patch ports.space access.address.target access.offset.toNat access.width.bytes value ∧
        (readPci access.address access.offset access.width ((write access value).step ports)).1 =
          value

/-- The space after an operation. -/
def effect (space : ConfigSpace) : PciOp → ConfigSpace
  | read _ => space
  | write access value =>
      patch space access.address.target (access.offset.toNat % 256) access.width.bytes value

theorem space_step (op : PciOp) (ports : PciPorts) :
    (op.step ports).space = op.effect ports.space := by
  cases op with
  | read access => rw [step, readPci_storedAt access.aligned, effect]
  | write access value => rw [step, writePci_patch access.aligned, effect]

theorem space_run (ops : List PciOp) (ports : PciPorts) :
    (ops.foldl step ports).space = ops.foldl effect ports.space := by
  induction ops generalizing ports with
  | nil => rfl
  | cons op rest induction => rw [List.foldl_cons, List.foldl_cons, induction, space_step]

end PciOp

/-- The bytes of an access that has just been written. -/
theorem storedAt_patch (space : ConfigSpace) (target : PciFunction) {start count : Nat}
    (inside : start + count ≤ 4096) (value : BitVec (8 * count)) :
    storedAt (patch space target start count value) target start count = value := by
  apply eq_of_byteAt
  intro position small
  have within : (Fin.ofNat 4096 (start + position)).val = start + position :=
    Nat.mod_eq_of_lt (by omega)
  rw [storedAt, byteAt_ofBytes _ small, patch, within,
    if_pos ⟨rfl, Nat.le_add_right _ _, by omega⟩, Nat.add_sub_cancel_left]

/-- Within the first 256 bytes of a function an operation acts on its own bytes. -/
theorem PciOp.actsOnOwnBytes_of_lt {op : PciOp} (low : op.access.offset.toNat < 256)
    (ports : PciPorts) : op.ActsOnOwnBytes ports := by
  have same : op.access.offset.toNat % 256 = op.access.offset.toNat := Nat.mod_eq_of_lt low
  have fits := fits_of_aligned op.access.aligned
  cases op with
  | read access =>
      rw [PciOp.access] at same
      rw [ActsOnOwnBytes, readPci_storedAt access.aligned, same]
  | write access value =>
      rw [PciOp.access] at same fits
      refine ⟨by rw [space_step, effect, same], ?_⟩
      rw [readPci_storedAt access.aligned, space_step, effect]
      exact storedAt_patch _ _ (by omega) value

/-- The space with every byte behind the first 256 of each function replaced. -/
def withHigh (space : ConfigSpace) (high : BitVec 8) : ConfigSpace := fun target position =>
  if position.val < 256 then space target position else high

namespace PciOp

/-- The bytes behind the first 256 are neither read nor written. -/
theorem effect_withHigh (op : PciOp) (space : ConfigSpace) (high : BitVec 8) :
    op.effect (withHigh space high) = withHigh (op.effect space) high := by
  cases op with
  | read access => rfl
  | write access value =>
      have fits := fits_of_aligned access.aligned
      funext target position
      simp only [effect, patch, withHigh]
      split
      · rw [if_pos (by omega)]
      · rfl

theorem run_withHigh (ops : List PciOp) (space : ConfigSpace) (high : BitVec 8) :
    ops.foldl effect (withHigh space high) = withHigh (ops.foldl effect space) high := by
  induction ops generalizing space with
  | nil => rfl
  | cons op rest induction => rw [List.foldl_cons, List.foldl_cons, effect_withHigh, induction]

/-- Behind the first 256 bytes an operation fails for some contents of its own bytes. -/
theorem exists_not_actsOnOwnBytes {op : PciOp} (behind : 256 ≤ op.access.offset.toNat)
    (space : ConfigSpace) :
    ∃ high, ∀ ports : PciPorts, ports.space = withHigh space high → ¬ op.ActsOnOwnBytes ports := by
  have moved (byte : BitVec 8) : byte ≠ byte + 1#8 := by bv_omega
  have inside := op.access.inside
  have own : (Fin.ofNat 4096 op.access.offset.toNat).val = op.access.offset.toNat :=
    Nat.mod_eq_of_lt inside
  have positive : 0 < op.access.width.bytes := by cases op.access.width <;> decide
  cases op with
  | read access =>
      rw [PciOp.access] at own positive behind
      refine ⟨space access.address.target (Fin.ofNat 4096 (access.offset.toNat % 256)) + 1#8, ?_⟩
      intro ports contents acts
      have low : (Fin.ofNat 4096 (access.offset.toNat % 256)).val < 256 := by
        rw [Fin.val_ofNat]
        omega
      rw [ActsOnOwnBytes, readPci_storedAt access.aligned, contents] at acts
      have first := congrArg (fun result => byteAt result.1 0) acts
      simp only [storedAt, byteAt_ofBytes _ positive, Nat.add_zero] at first
      rw [withHigh, if_pos low, withHigh, if_neg (by omega)] at first
      exact moved _ first
  | write access value =>
      rw [PciOp.access] at own positive behind
      refine ⟨byteAt value 0 + 1#8, ?_⟩
      rintro ports contents ⟨acts, -⟩
      rw [space_step, contents, effect_withHigh] at acts
      have first := congrFun (congrFun acts access.address.target)
        (Fin.ofNat 4096 access.offset.toNat)
      rw [withHigh, if_neg (by omega), patch, own,
        if_pos ⟨rfl, Nat.le_refl _, Nat.lt_add_of_pos_right positive⟩, Nat.sub_self] at first
      exact moved _ first.symm

end PciOp

/-- The operations of a run act on their own bytes, whatever the functions hold, exactly if every
offset is below 256. -/
theorem pciRun_actsOnOwnBytes_iff (ops : List PciOp) :
    (∀ ports, Along PciOp.step PciOp.ActsOnOwnBytes ports ops) ↔
      ∀ op ∈ ops, op.access.offset.toNat < 256 := by
  constructor
  · intro every op member
    obtain ⟨before, after, rfl⟩ := List.append_of_mem member
    by_contra behind
    let start : ConfigSpace := fun _ _ => 0#8
    obtain ⟨high, fails⟩ :=
      PciOp.exists_not_actsOnOwnBytes (Nat.not_lt.mp behind) (before.foldl PciOp.effect start)
    refine fails _ ?_ (every ⟨0#32, withHigh start high⟩).meets
    rw [PciOp.space_run, PciOp.run_withHigh]
  · intro low
    exact Along.of_forall fun op member => PciOp.actsOnOwnBytes_of_lt (low op member)

/-- A byte written at offset 256 of a function changes the byte at offset 0. -/
theorem writePci_behind_aliases :
    let access : PciAccess := ⟨⟨0, 0, 0, 0⟩, 0x100#16, .u8, by decide, by decide⟩
    let ports : PciPorts := ⟨0, fun _ _ => 0⟩
    let after := (PciOp.write access 0xff#8).step ports
    after.space ⟨0, 0, 0⟩ 0 = 0xff#8 ∧ after.space ⟨0, 0, 0⟩ 256 = 0#8 ∧
      ¬ (PciOp.write access 0xff#8).ActsOnOwnBytes ports := by
  refine ⟨by decide, by decide, ?_⟩
  rintro ⟨acts, -⟩
  have own := congrFun (congrFun acts ⟨0, 0, 0⟩) 256
  revert own
  decide

end Okots
