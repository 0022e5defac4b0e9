import Okots.Acpi.Pci
import Okots.Library.LinkChase

/-!
# The probe for virtio devices

The probe reads the configuration spaces that an MCFG table describes.  For a function of the
virtio vendor it follows the list of capabilities from offset to offset until it meets 0.  The
offsets are bytes of the device: the loop ends exactly when no offset leads back to itself.
-/

namespace Okots.VirtIo

open WordBytes LinkChase

/-! ## One function -/

/-- A capability as the probe logs it. -/
structure ModernCap where
  cfgType : BitVec 8
  barIndex : BitVec 8
  offset : BitVec 32
  deviceId : BitVec 16
  deriving DecidableEq

section Function

variable (space : ConfigSpace) (target : PciFunction)

/-- One byte of the configuration space. -/
def configByte (offset : Nat) : BitVec 8 :=
  space target ⟨offset % 4096, Nat.mod_lt _ (Nat.succ_pos 4095)⟩

/-- The dword at an index, `read_volatile(ptr.add(index))`. -/
def configDword (index : Nat) : BitVec 32 := storedAt space target (4 * index) 4

def vendorId : BitVec 16 := (configDword space target 0 &&& 0xFFFF#32).setWidth 16

def deviceId : BitVec 16 := (configDword space target 0 >>> 16).setWidth 16

/-- The vendor whose capabilities are listed. -/
def virtioVendor : BitVec 16 := 0x1AF4

/-- The loop over the capabilities: its variable, the offsets it has visited and what it has
logged. -/
structure CapWalk where
  capPtr : BitVec 8
  visited : List (BitVec 8)
  log : List ModernCap

namespace CapWalk

/-- Before the first iteration. -/
def start : CapWalk := ⟨(configDword space target 13 &&& 0xFF#32).setWidth 8, [], []⟩

/-- What an iteration logs about the capability at an offset. -/
def logged (capPtr : BitVec 8) : List ModernCap :=
  if configByte space target capPtr.toNat = 0x09#8 then
    [{ cfgType := configByte space target (capPtr.toNat + 3)
       barIndex := configByte space target (capPtr.toNat + 4)
       offset := storedAt space target (capPtr.toNat + 8) 4
       deviceId := deviceId space target }]
  else
    []

/-- The body of the loop, which stands still when the condition fails. -/
def step (walk : CapWalk) : CapWalk :=
  if walk.capPtr = 0 then
    walk
  else
    { capPtr := configByte space target (walk.capPtr.toNat + 1)
      visited := walk.visited ++ [walk.capPtr]
      log := walk.log ++ logged space target walk.capPtr }

/-- The loop after `count` iterations. -/
def after (count : Nat) : CapWalk := (step space target)^[count] (start space target)

/-- The loop ends, and no offset is visited twice. -/
def EndsOnce : Prop :=
  ∃ count, (after space target count).capPtr = 0 ∧ (after space target count).visited.Nodup

end CapWalk

/-- Where the list goes on after an offset; 0 is its end. -/
def nextCap (capPtr : BitVec 8) : BitVec 8 :=
  if capPtr = 0 then 0 else configByte space target (capPtr.toNat + 1)

/-- The first offset of the list. -/
def firstCap : BitVec 8 := (CapWalk.start space target).capPtr

/-- No offset of the list leads back to itself. -/
def CapsAcyclic : Prop := NoReturn (nextCap space target) 0 (firstCap space target)

namespace CapWalk

variable {space target}

theorem step_capPtr (walk : CapWalk) :
    (step space target walk).capPtr = nextCap space target walk.capPtr := by
  unfold step nextCap
  split
  · assumption
  · rfl

/-- The loop visits the offsets of the list one after another. -/
theorem after_spec (count : Nat) :
    (after space target count).capPtr = (nextCap space target)^[count] (firstCap space target) ∧
      (after space target count).visited =
        ((List.range count).map fun position =>
          (nextCap space target)^[position] (firstCap space target)).filter (· ≠ 0) := by
  induction count with
  | zero => exact ⟨rfl, rfl⟩
  | succ count induction =>
      obtain ⟨capPtr, visited⟩ := induction
      have next : after space target (count + 1) = step space target (after space target count) :=
        Function.iterate_succ_apply' _ _ _
      rw [next, step_capPtr, Function.iterate_succ_apply', capPtr]
      refine ⟨rfl, ?_⟩
      rw [List.range_succ, List.map_append, List.filter_append, ← visited, List.map_singleton,
        ← capPtr, step]
      split
      · rename_i ended
        rw [ended]
        exact (List.append_nil _).symm
      · rename_i running
        rw [List.filter_cons, if_pos (decide_eq_true running), List.filter_nil]

end CapWalk

/-- A chase over bytes ends within 256 links. -/
theorem ends_of_noReturn_byte {next : BitVec 8 → BitVec 8} {final start : BitVec 8}
    (noReturn : NoReturn next final start) : ∃ count ≤ 256, next^[count] start = final := by
  let bytes : Fin (2 ^ 8) ≃ BitVec 8 :=
    ⟨BitVec.ofFin, BitVec.toFin, fun _ => rfl, fun _ => rfl⟩
  let _ : Fintype (BitVec 8) := Fintype.ofEquiv _ bytes
  obtain ⟨count, bound, ended⟩ := ends_of_noReturn noReturn
  rw [Fintype.ofEquiv_card, Fintype.card_fin] at bound
  exact ⟨count, bound, ended⟩

theorem nextCap_zero (space : ConfigSpace) (target : PciFunction) : nextCap space target 0 = 0 :=
  if_pos rfl

/-- For every content of a configuration space, the walk over the capabilities ends after visiting
each offset at most once exactly when no offset leads back to itself. -/
theorem capWalk_endsOnce_iff (space : ConfigSpace) (target : PciFunction) :
    CapWalk.EndsOnce space target ↔ CapsAcyclic space target := by
  constructor
  · rintro ⟨count, ended, -⟩
    rw [(CapWalk.after_spec count).1] at ended
    exact noReturn_of_ends (nextCap_zero space target) ended
  · intro acyclic
    have meets : ∃ count, (nextCap space target)^[count] (firstCap space target) = 0 := by
      obtain ⟨count, -, ended⟩ := ends_of_noReturn_byte acyclic
      exact ⟨count, ended⟩
    -- up to the first time that the end is met, nothing has come up twice
    refine ⟨Nat.find meets, ?_, ?_⟩
    · rw [(CapWalk.after_spec _).1]
      exact Nat.find_spec meets
    · rw [(CapWalk.after_spec _).2]
      exact (nodup_of_noReturn acyclic fun early before => Nat.find_min meets before).filter _

/-- A virtio function whose only capability names itself as the next one. -/
def selfLinked : ConfigSpace := fun _ offset =>
  if offset.val = 0 then 0xF4 else if offset.val = 1 then 0x1A else if offset.val = 52 then 0x40
  else if offset.val = 0x41 then 0x40 else 0

/-- The walk over the capabilities of that function does not end. -/
theorem selfLinked_not_endsOnce :
    vendorId selfLinked ⟨0, 0, 0⟩ = virtioVendor ∧
      (∀ count, (CapWalk.after selfLinked ⟨0, 0, 0⟩ count).capPtr = 0x40) ∧
      ¬ CapWalk.EndsOnce selfLinked ⟨0, 0, 0⟩ := by
  have back : nextCap selfLinked ⟨0, 0, 0⟩ 0x40 = 0x40 := by decide
  have first : firstCap selfLinked ⟨0, 0, 0⟩ = 0x40 := by decide
  have stays : ∀ count, (CapWalk.after selfLinked ⟨0, 0, 0⟩ count).capPtr = 0x40 := by
    intro count
    rw [(CapWalk.after_spec count).1, first]
    exact Function.iterate_fixed back count
  refine ⟨by decide, stays, ?_⟩
  rintro ⟨count, ended, -⟩
  rw [stays count] at ended
  cases ended

end Function

end Okots.VirtIo
