import Mathlib.Algebra.Ring.Nat

/-!
# Control registers

The registers that select the mode and the paging of an x86 processor, and the conditions under
which the processor refuses a new value.  A write that raises an exception has no result.
-/

namespace ControlRegisters

/-- The control registers and the register of extended features. -/
structure Controls where
  cr0 : BitVec 64
  cr3 : BitVec 64
  cr4 : BitVec 64
  efer : BitVec 64
  deriving DecidableEq

/-- What a processor implements. -/
structure Support where
  /-- The bits of `CR4` that may be set. -/
  cr4 : BitVec 64
  /-- The bits of the extended features that may be set. -/
  efer : BitVec 64
  /-- Width of physical addresses. -/
  physicalBits : Nat

/-! ## Bits -/

/-- `CR0.PE`. -/
def protectionEnable : Nat := 0
/-- `CR0.WP`. -/
def writeProtect : Nat := 16
/-- `CR0.NW`. -/
def notWriteThrough : Nat := 29
/-- `CR0.CD`. -/
def cacheDisable : Nat := 30
/-- `CR0.PG`. -/
def pagingEnable : Nat := 31
/-- `CR4.PAE`. -/
def physicalAddressExtension : Nat := 5
/-- `CR4.LA57`. -/
def fiveLevels : Nat := 12
/-- `CR4.PCIDE`. -/
def processContexts : Nat := 17
/-- `CR4.SMEP`. -/
def supervisorExecutionPrevention : Nat := 20
/-- `CR4.SMAP`. -/
def supervisorAccessPrevention : Nat := 21
/-- `CR4.CET`. -/
def controlFlowEnforcement : Nat := 23
/-- `EFER.LME`. -/
def longModeEnable : Nat := 8
/-- `EFER.LMA`. -/
def longModeActive : Nat := 10
/-- `EFER.NXE`. -/
def noExecuteEnable : Nat := 11

namespace Controls

/-- Linear addresses are translated. -/
def paging (controls : Controls) : Bool := controls.cr0.getLsbD pagingEnable

/-- The processor is in long mode. -/
def longMode (controls : Controls) : Bool := controls.efer.getLsbD longModeActive

/-- The new value of `CR0` is consistent in itself and with `CR4.CET`. -/
def Cr0Ok (controls : Controls) (value : BitVec 64) : Bool :=
  (value.getLsbD protectionEnable || !value.getLsbD pagingEnable) &&
    (value.getLsbD cacheDisable || !value.getLsbD notWriteThrough) &&
    (value.getLsbD writeProtect || !controls.cr4.getLsbD controlFlowEnforcement)

/-- Write `CR0` from code that is 64-bit or not.  Long mode is entered with paging if it has been
enabled, and left with it. -/
def writeCr0 (controls : Controls) (longCode : Bool) (value : BitVec 64) : Option Controls :=
  if controls.Cr0Ok value then
    if value.getLsbD pagingEnable && !controls.paging then
      if controls.efer.getLsbD longModeEnable then
        if controls.cr4.getLsbD physicalAddressExtension then
          some { controls with
            cr0 := value, efer := controls.efer ||| BitVec.twoPow 64 longModeActive }
        else none
      else some { controls with cr0 := value }
    else if controls.paging && !value.getLsbD pagingEnable then
      if longCode || controls.cr4.getLsbD processContexts then none
      else
        some { controls with
          cr0 := value, efer := controls.efer &&& ~~~BitVec.twoPow 64 longModeActive }
    else some { controls with cr0 := value }
  else none

/-- Write `CR3`.  With process contexts, bit 63 only selects what is flushed. -/
def writeCr3 (controls : Controls) (support : Support) (value : BitVec 64) : Option Controls :=
  let stored := if controls.cr4.getLsbD processContexts
    then value &&& ~~~BitVec.twoPow 64 63 else value
  if stored.toNat < 2 ^ support.physicalBits then some { controls with cr3 := stored } else none

/-- The new value of `CR4` is one the processor can switch to. -/
def Cr4Ok (controls : Controls) (support : Support) (value : BitVec 64) : Bool :=
  value &&& ~~~support.cr4 == 0 &&
    (!controls.longMode || value.getLsbD physicalAddressExtension) &&
    (!controls.longMode || value.getLsbD fiveLevels == controls.cr4.getLsbD fiveLevels) &&
    (!value.getLsbD processContexts || controls.cr4.getLsbD processContexts ||
      (controls.longMode && controls.cr3 &&& 0xFFF#64 == 0)) &&
    (!value.getLsbD controlFlowEnforcement || controls.cr0.getLsbD writeProtect)

/-- Write `CR4`. -/
def writeCr4 (controls : Controls) (support : Support) (value : BitVec 64) : Option Controls :=
  if controls.Cr4Ok support value then some { controls with cr4 := value } else none

/-- Write the extended features.  Long mode is not switched while addresses are translated, and the
bit that reports it is read-only. -/
def writeEfer (controls : Controls) (support : Support) (value : BitVec 64) : Option Controls :=
  if value &&& ~~~support.efer == 0 &&
      (!controls.paging ||
        value.getLsbD longModeEnable == controls.efer.getLsbD longModeEnable) then
    some { controls with
      efer := (value &&& ~~~BitVec.twoPow 64 longModeActive) |||
        (controls.efer &&& BitVec.twoPow 64 longModeActive) }
  else none

/-- A table in the physical address space can be installed. -/
theorem writeCr3_eq {controls : Controls} {support : Support} {value : BitVec 64}
    (fits : value.toNat < 2 ^ support.physicalBits) (width : support.physicalBits ≤ 63) :
    controls.writeCr3 support value = some { controls with cr3 := value } := by
  have top : value.getLsbD 63 = false :=
    Nat.testBit_lt_two_pow (Nat.lt_of_lt_of_le fits (Nat.pow_le_pow_right (by decide) width))
  have kept : value &&& ~~~BitVec.twoPow 64 63 = value := by
    apply BitVec.eq_of_getLsbD_eq
    intro index bound
    rw [BitVec.getLsbD_and]
    by_cases last : index = 63
    · rw [last, top, Bool.false_and]
    · rw [BitVec.getLsbD_not, BitVec.getLsbD_twoPow]
      simp [bound, Ne.symm last]
  simp only [writeCr3, kept, ite_self, if_pos fits]

end Controls

end ControlRegisters
