import Okots.Paging.Entry

/-!
# The hardware page walk

What the processor does with a tree of tables: it follows present entries from the top table,
combines their rights, and ends at a leaf whose address field depends on its level.  This file is
the reference against which the software-built trees are judged.
-/

namespace Okots

/-- Contents of the table frames, by frame address and entry index. -/
abbrev TableWords := Nat → Fin 512 → BitVec 64

/-- Access rights combined along a walk. -/
structure Rights where
  /-- Writes are allowed. -/
  writable : Bool
  /-- User-mode accesses are allowed. -/
  user : Bool
  /-- Instruction fetches are disallowed. -/
  executeDisable : Bool
  deriving DecidableEq, Repr

/-- The rights before any entry has been seen. -/
def Rights.all : Rights := ⟨true, true, false⟩

/-- Combine rights with those of one more entry. -/
def Rights.meet (rights : Rights) (entry : BitVec 64) : Rights where
  writable := rights.writable && entry.getLsbD 1
  user := rights.user && entry.getLsbD 2
  executeDisable := rights.executeDisable || entry.getLsbD 63

/-- The result of a successful walk. -/
structure Translation where
  /-- Physical address. -/
  phys : Nat
  /-- Effective rights. -/
  rights : Rights
  /-- Write-through bit of the leaf. -/
  pwt : Bool
  /-- Cache-disable bit of the leaf. -/
  pcd : Bool
  /-- Global bit of the leaf. -/
  global : Bool
  deriving DecidableEq, Repr

/-- Entry bits `51:low`. -/
def addressField (low : Nat) : BitVec 64 := BitVec.ofNat 64 (2 ^ 52 - 2 ^ low)

/-- Frame address in an entry, bits 51:12. -/
def tableBase (entry : BitVec 64) : Nat := (entry &&& addrMask).toNat

/-- Address field of a leaf; the page-size bit is reserved above the PDPT. -/
def leafBase (level : PageLevel) (entry : BitVec 64) : Option Nat :=
  match level with
  | .pt => some (entry &&& addressField 12).toNat
  | .pd => some (entry &&& addressField 21).toNat
  | .pdpt => some (entry &&& addressField 30).toNat
  | .pml4 | .pml5 => none

/-- The translation through a leaf entry. -/
def leafTranslation (level : PageLevel) (entry : BitVec 64) (vaddr : Nat) (rights : Rights) :
    Option Translation :=
  (leafBase level entry).map fun base =>
    { phys := base + vaddr % level.entrySize
      rights
      pwt := entry.getLsbD 3
      pcd := entry.getLsbD 4
      global := entry.getLsbD 8 }

/-- Walk the tree below `table` for `vaddr`. -/
def hardwareWalk (words : TableWords) (level : PageLevel) (table vaddr : Nat) (rights : Rights) :
    Option Translation :=
  let entry := words table (level.getIndex vaddr)
  if entry.getLsbD 0 then
    match _step : level.down with
    | none => leafTranslation level entry vaddr (rights.meet entry)
    | some next =>
        if entry.getLsbD 7 then
          leafTranslation level entry vaddr (rights.meet entry)
        else
          hardwareWalk words next (tableBase entry) vaddr (rights.meet entry)
  else
    none
termination_by level.rank
decreasing_by exact PageLevel.rank_down _step

/-- The translation requested by flags for an identity-mapped address: every attribute but PAT and
the accessed and dirty bits, which the processor sets. -/
def requested (flags : PageEntryFlags) (vaddr : Nat) : Translation where
  phys := vaddr
  rights :=
    { writable := flags.contains .writable
      user := flags.contains .userPage
      executeDisable := flags.contains .executeDisable }
  pwt := flags.contains .pwt
  pcd := flags.contains .pcd
  global := flags.contains .global

/-! ## Address fields -/

theorem addressField_twelve : addressField 12 = addrMask := by decide

private theorem getLsbD_addressField {low index : Nat} (width : low = 12 ∨ low = 21 ∨ low = 30)
    (bound : index < 64) :
    (addressField low).getLsbD index = decide (low ≤ index ∧ index < 52) := by
  have table : ∀ position : Fin 64,
      (addressField 12).getLsbD position = decide (12 ≤ position.val ∧ position.val < 52) ∧
      (addressField 21).getLsbD position = decide (21 ≤ position.val ∧ position.val < 52) ∧
      (addressField 30).getLsbD position = decide (30 ≤ position.val ∧ position.val < 52) := by
    decide
  rcases width with rfl | rfl | rfl
  · exact (table ⟨index, bound⟩).1
  · exact (table ⟨index, bound⟩).2.1
  · exact (table ⟨index, bound⟩).2.2

/-- The mask of table frames has no bit outside the address field. -/
theorem addrMask_getLsbD {index : Nat} (outside : index < 12 ∨ 52 ≤ index) :
    addrMask.getLsbD index = false := by
  by_cases bound : index < 64
  · rw [← addressField_twelve, getLsbD_addressField (.inl rfl) bound]
    apply decide_eq_false
    omega
  · exact BitVec.getLsbD_of_ge _ _ (Nat.le_of_not_lt bound)

theorem testBit_of_dvd {low address index : Nat} (aligned : 2 ^ low ∣ address)
    (below : index < low) : address.testBit index = false := by
  obtain ⟨quotient, rfl⟩ := aligned
  rw [Nat.testBit_two_pow_mul]
  simp [Nat.not_le.mpr below]

theorem testBit_of_lt {address index : Nat} (bounded : address < 2 ^ 52) (high : 52 ≤ index) :
    address.testBit index = false :=
  Nat.testBit_lt_two_pow (lt_of_lt_of_le bounded (Nat.pow_le_pow_right (by decide) high))

/-- An aligned physical address lies inside its address field. -/
theorem ofNat_and_addressField {low address : Nat} (width : low = 12 ∨ low = 21 ∨ low = 30)
    (aligned : 2 ^ low ∣ address) (bounded : address < 2 ^ 52) :
    BitVec.ofNat 64 address &&& addressField low = BitVec.ofNat 64 address := by
  apply BitVec.eq_of_getLsbD_eq
  intro index bound
  rw [BitVec.getLsbD_and, getLsbD_addressField width bound, BitVec.getLsbD_ofNat]
  by_cases inside : low ≤ index ∧ index < 52
  · simp [inside]
  · have clear : address.testBit index = false := by
      by_cases below : index < low
      · exact testBit_of_dvd aligned below
      · exact testBit_of_lt bounded (by omega)
    simp [clear]

/-- The address field of an entry made of an aligned address and flag bits outside the field. -/
theorem entry_and_addressField {low address : Nat} {bits : BitVec 64}
    (width : low = 12 ∨ low = 21 ∨ low = 30) (aligned : 2 ^ low ∣ address)
    (bounded : address < 2 ^ 52) (outside : bits &&& addressField low = 0) :
    ((BitVec.ofNat 64 address ||| bits) &&& addressField low).toNat = address := by
  rw [BitVec.and_or_distrib_right, outside, ofNat_and_addressField width aligned bounded]
  simpa using Nat.mod_eq_of_lt (lt_trans bounded (by decide : 2 ^ 52 < 2 ^ 64))

/-- Flag bits outside the address field are read back unchanged. -/
theorem getLsbD_entry {address index : Nat} {bits : BitVec 64} (aligned : 4096 ∣ address)
    (bounded : address < 2 ^ 52) (outside : index < 12 ∨ 52 ≤ index) :
    (BitVec.ofNat 64 address ||| bits).getLsbD index = bits.getLsbD index := by
  have clear : address.testBit index = false := by
    rcases outside with low | high
    · exact testBit_of_dvd (show 2 ^ 12 ∣ address from aligned) low
    · exact testBit_of_lt bounded high
  simp [BitVec.getLsbD_ofNat, clear]

theorem tableBase_lt (entry : BitVec 64) : tableBase entry < 2 ^ 52 := by
  have bound : (entry &&& addrMask).toNat ≤ addrMask.toNat := by
    rw [BitVec.toNat_and]
    exact Nat.and_le_right
  have field : addrMask.toNat < 2 ^ 52 := by decide
  exact lt_of_le_of_lt bound field

theorem tableBase_aligned (entry : BitVec 64) : 4096 ∣ tableBase entry := by
  have low : (entry &&& addrMask) &&& 0xFFF#64 = 0 := by
    rw [BitVec.and_assoc, show addrMask &&& 0xFFF#64 = 0#64 by decide]
    simp
  have value : tableBase entry % 2 ^ 12 = 0 := by
    have bits := congrArg BitVec.toNat low
    rw [BitVec.toNat_and] at bits
    simpa [tableBase, Nat.and_two_pow_sub_one_eq_mod _ 12] using bits
  exact Nat.dvd_of_mod_eq_zero value

/-- Below the address field of a huge leaf, the frame address of an entry has bit 12 at most. -/
theorem tableBase_of_clear {low : Nat} {entry : BitVec 64} (width : low = 21 ∨ low = 30)
    (clear : ∀ index, 12 < index → index < low → entry.getLsbD index = false) :
    tableBase entry =
      (entry &&& addressField low).toNat + if entry.getLsbD 12 then 4096 else 0 := by
  have split : entry &&& addrMask =
      (entry &&& addressField low) ||| (entry &&& entryBit 12) := by
    apply BitVec.eq_of_getLsbD_eq
    intro index bound
    rw [← addressField_twelve, BitVec.getLsbD_or, BitVec.getLsbD_and, BitVec.getLsbD_and,
      BitVec.getLsbD_and, getLsbD_addressField (.inl rfl) bound,
      getLsbD_addressField (.inr width) bound, getLsbD_entryBit]
    by_cases between : 12 < index ∧ index < low
    · simp [clear index between.1 between.2]
    · have same : decide (12 ≤ index ∧ index < 52) =
          (decide (low ≤ index ∧ index < 52) || decide (12 = index)) := by
        rw [Bool.eq_iff_iff]
        simp only [decide_eq_true_eq, Bool.or_eq_true]
        omega
      rw [same]
      simp [Bool.and_or_distrib_left]
  have disjoint : (entry &&& addressField low) &&& (entry &&& entryBit 12) = 0#64 := by
    have fields : addressField low &&& entryBit 12 = 0#64 := by
      rcases width with rfl | rfl <;> decide
    rw [BitVec.and_assoc, BitVec.and_comm (addressField low), BitVec.and_assoc,
      BitVec.and_comm (entryBit 12), fields]
    simp
  have bound : (entry &&& addressField low).toNat ≤ (addressField low).toNat := by
    rw [BitVec.toNat_and]
    exact Nat.and_le_right
  have field : (addressField low).toNat < 2 ^ 52 := by rcases width with rfl | rfl <;> decide
  have bit : (entry &&& entryBit 12).toNat = if entry.getLsbD 12 then 4096 else 0 := by
    rw [entryBit, BitVec.and_twoPow]
    split <;> rfl
  have small : (if entry.getLsbD 12 then 4096 else 0) ≤ 4096 := by split <;> decide
  rw [tableBase, split, ← BitVec.add_eq_or_of_and_eq_zero _ _ disjoint, BitVec.toNat_add, bit,
    Nat.mod_eq_of_lt (by omega)]

theorem leafBase_le {level : PageLevel} {entry : BitVec 64} {base : Nat}
    (leaf : leafBase level entry = some base) : base + level.entrySize ≤ 2 ^ 52 := by
  have bound : ∀ low, (entry &&& addressField low).toNat ≤ (addressField low).toNat := by
    intro low
    rw [BitVec.toNat_and]
    exact Nat.and_le_right
  have field : (addressField 12).toNat + PageLevel.pt.entrySize = 2 ^ 52 ∧
      (addressField 21).toNat + PageLevel.pd.entrySize = 2 ^ 52 ∧
      (addressField 30).toNat + PageLevel.pdpt.entrySize = 2 ^ 52 := by decide
  have bounds := And.intro (bound 12) (And.intro (bound 21) (bound 30))
  cases level <;> simp only [leafBase, Option.some.injEq, reduceCtorEq] at leaf <;> omega

/-- The walk ends at a physical address. -/
theorem hardwareWalk_phys_lt {words : TableWords} {level : PageLevel} {table vaddr : Nat}
    {rights : Rights} {result : Translation}
    (walk : hardwareWalk words level table vaddr rights = some result) : result.phys < 2 ^ 52 := by
  have leaf : ∀ level entry rights, leafTranslation level entry vaddr rights = some result →
      result.phys < 2 ^ 52 := by
    intro level entry rights found
    obtain ⟨base, based, rfl⟩ := Option.map_eq_some_iff.mp found
    have positive : 0 < level.entrySize := by cases level <;> decide
    have offset := Nat.mod_lt vaddr positive
    have room := leafBase_le based
    simp only
    omega
  induction level using PageLevel.downInduction generalizing table rights with
  | step level induction =>
      rw [hardwareWalk] at walk
      split at walk
      · split at walk
        · exact leaf _ _ _ walk
        · rename_i next step
          split at walk
          · exact leaf _ _ _ walk
          · exact induction next step walk
      · simp at walk

end Okots
