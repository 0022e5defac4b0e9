import Okots.Paging.Built

/-!
# Addresses looked up in software

`get_addr` reads the address of every entry with the mask of table frames.  In a huge leaf bit 12 is
PAT, so the address it returns for a huge page with PAT is one page too high.  A huge leaf has PAT
when PAT was requested, and also when HUGE was and the leaf was written by `create_recursive`.
-/

namespace Okots

open StateExec Exec PageLevel LastWriter

/-! ## The model -/

/-- `PHY_OFFSET`. -/
def phyOffset : Nat := 0

/-- `PageLevel::from_u8`. -/
def PageLevel.fromU8 : Nat → Option PageLevel
  | 0 => some .pt
  | 1 => some .pd
  | 2 => some .pdpt
  | 3 => some .pml4
  | 4 => some .pml5
  | _ => none

/-- The loop of `get_addr` over the raw levels that are left. -/
def getAddrLoop (platform : Platform) (addr : Nat) : List Nat → Nat → Paging Nat
  | [], _ => fault (.err (.new .notFound none))
  | levRaw :: rest, currentTablePtr => do
      let lev ← ofOption .panic (PageLevel.fromU8 levRaw)
      let entry ← loadEntry currentTablePtr (lev.getIndex addr)
      if platform.crates.isPresent entry = false then
        raise .notFound "page table entry not present"
      else if lev = .pt ∨ platform.crates.isHugePage entry = true then
        let basePhy := platform.crates.entryAddr entry
        let mask := (1 <<< (levRaw * 9 + 12)) - 1
        ofOption .panic (platform.crates.physAddrNew (basePhy + (addr &&& mask)))
      else
        getAddrLoop platform addr rest (platform.crates.entryAddr entry + phyOffset)

/-- `get_addr`, with the frame in `CR3` and `L5_PAGING` of `CR4`. -/
def getAddr (platform : Platform) (l5 : Bool) (cr3 addr : Nat) : Paging Nat :=
  getAddrLoop platform addr (List.range ((if l5 then 4 else 3) + 1)).reverse (cr3 + phyOffset)

/-! ## The walk in software -/

theorem fromU8_rank (level : PageLevel) : fromU8 level.rank = some level := by
  cases level <;> rfl

/-- The outcome of a walk that ends at the entry. -/
def lookedUp (platform : Platform) (addr : Nat) (last : PageLevel × BitVec 64) : Paging Nat :=
  if last.2.getLsbD 0 then
    ofOption .panic
      (platform.crates.physAddrNew (tableBase last.2 + addr % last.1.entrySize))
  else
    raise .notFound "page table entry not present"

theorem lookedUp_state (platform : Platform) (addr : Nat) (last : PageLevel × BitVec 64)
    (memory : TableMemory) : (lookedUp platform addr last memory).2 = memory := by
  rw [lookedUp]
  split
  · cases platform.crates.physAddrNew (tableBase last.2 + addr % last.1.entrySize) <;> rfl
  · rfl

/-- `get_addr` reads the entry at which the hardware walk ends. -/
theorem getAddrLoop_run (platform : Platform) (memory : TableMemory) (addr : Nat)
    (level : PageLevel) :
    ∀ table, getAddrLoop platform addr (List.range (level.rank + 1)).reverse table memory =
      lookedUp platform addr (walkEnd memory.words level table addr) memory := by
  induction level using downInduction with
  | step level induction =>
      intro table
      have unfolded : getAddrLoop platform addr (List.range (level.rank + 1)).reverse table memory =
          (if platform.crates.isPresent (memory.words table (level.getIndex addr)) = false then
            raise .notFound "page table entry not present"
          else if level = .pt ∨
              platform.crates.isHugePage (memory.words table (level.getIndex addr)) = true then
            ofOption .panic (platform.crates.physAddrNew
              (platform.crates.entryAddr (memory.words table (level.getIndex addr)) +
                (addr &&& ((1 <<< (level.rank * 9 + 12)) - 1))))
          else
            getAddrLoop platform addr (List.range level.rank).reverse
              (platform.crates.entryAddr (memory.words table (level.getIndex addr))
                + phyOffset)) memory := by
        rw [List.range_succ, List.reverse_append, List.reverse_singleton, List.singleton_append,
          getAddrLoop, fromU8_rank]
        rfl
      rw [unfolded, platform.crates.isPresent_eq, platform.crates.isHugePage_eq,
        platform.crates.entryAddr_eq]
      rcases relays_or_childless level (memory.words table (level.getIndex addr)) with
        ⟨next, relays⟩ | childless
      · have bits := relays.relay
        simp only [isRelay, Bool.and_eq_true, Bool.not_eq_true'] at bits
        have inner : level ≠ .pt := (relays_iff.mp ⟨next, relays⟩).2
        rw [walkEnd_of_relays relays, bits.1, bits.2, if_neg Bool.noConfusion,
          if_neg (not_or.mpr ⟨inner, Bool.noConfusion⟩), rank_of_down relays.down]
        exact induction next relays.down _
      · rw [walkEnd_of_childless childless, lookedUp]
        cases present : (memory.words table (level.getIndex addr)).getLsbD 0 with
        | false => rfl
        | true =>
            have last : level = .pt ∨
                (memory.words table (level.getIndex addr)).getLsbD 7 = true :=
              childless.imp_right fun plain => by simpa [isRelay, present] using plain
            rw [if_neg Bool.noConfusion, if_pos last, if_pos rfl, Nat.shiftLeft_eq,
              Nat.one_mul, Nat.and_two_pow_sub_one_eq_mod, entrySize_eq]
            rfl

/-- The walk ends at a huge leaf with PAT. -/
def EndsAtPat (words : TableWords) (level : PageLevel) (table vaddr : Nat) : Prop :=
  (walkEnd words level table vaddr).2.getLsbD 0 = true ∧
    (walkEnd words level table vaddr).1 ≠ .pt ∧
    patBit (walkEnd words level table vaddr).1 (walkEnd words level table vaddr).2 = true

section Lookup

variable {platform : Platform} {level : PageLevel} (kind : level = .pml5 ∨ level = .pml4)
  {memory : TableMemory} {table vaddr : Nat}

include kind

theorem getAddr_eq_lookedUp (platform : Platform) (memory : TableMemory) (table vaddr : Nat) :
    getAddr platform (decide (level = .pml5)) table vaddr memory =
      lookedUp platform vaddr (walkEnd memory.words level table vaddr) memory := by
  rw [← getAddrLoop_run]
  rcases kind with rfl | rfl <;> rfl

/-- Without a leaf `get_addr` and the hardware both fail. -/
theorem getAddr_absent (absent : (walkEnd memory.words level table vaddr).2.getLsbD 0 = false) :
    hardwareWalk memory.words level table vaddr Rights.all = none ∧
      ∃ error, getAddr platform (decide (level = .pml5)) table vaddr memory =
        (.error (.err error), memory) := by
  constructor
  · have phys := hardwareWalk_phys memory.words vaddr level table Rights.all
    rwa [absent, if_neg Bool.noConfusion, Option.map_eq_none_iff] at phys
  · rw [getAddr_eq_lookedUp kind, lookedUp, absent]
    exact ⟨_, rfl⟩

/-- At a leaf `get_addr` returns the address of the hardware, plus one page for PAT in a huge
leaf. -/
theorem LeafOf.getAddr {allowHuge : PageLevel} {created : Bool} {maps : List Mapping}
    {map : Mapping} (limit : allowHuge ≤ .pdpt)
    (leaf : LeafOf platform.crates allowHuge created maps vaddr
      (walkEnd memory.words level table vaddr).1 (walkEnd memory.words level table vaddr).2 map) :
    ∃ walk, hardwareWalk memory.words level table vaddr Rights.all = some walk ∧
      (EndsAtPat memory.words level table vaddr →
        getAddr platform (decide (level = .pml5)) table vaddr memory =
          ofOption .panic (platform.crates.physAddrNew (walk.phys + 4096)) memory) ∧
      (¬ EndsAtPat memory.words level table vaddr →
        getAddr platform (decide (level = .pml5)) table vaddr memory =
          (.ok walk.phys, memory)) := by
  obtain ⟨base, based, address⟩ := leaf.address limit
  have phys := hardwareWalk_phys memory.words vaddr level table Rights.all
  rw [if_pos leaf.present, based, Option.map_some] at phys
  obtain ⟨walk, found, same⟩ := Option.map_eq_some_iff.mp phys
  refine ⟨walk, found, fun pat => ?_, fun plain => ?_⟩ <;>
    rw [getAddr_eq_lookedUp kind, lookedUp, if_pos leaf.present, address]
  · rw [if_pos pat.2, same, Nat.add_right_comm]
  · have clear : ¬ ((walkEnd memory.words level table vaddr).1 ≠ .pt ∧
        patBit (walkEnd memory.words level table vaddr).1
          (walkEnd memory.words level table vaddr).2 = true) :=
      fun both => plain ⟨leaf.present, both⟩
    rw [if_neg clear, Nat.add_zero, ← same,
      platform.crates.physAddrNew_eq _ (hardwareWalk_phys_lt found)]
    rfl

end Lookup

variable {platform : Platform} {allowHuge : PageLevel} {mapList : List MemRangeData}
  {flags : List PageEntryFlags} {before : Option TableMemory} {top : TopPageTable}
  {after : TableMemory} {vaddr : Nat}

/-- `get_addr` returns `Ok` exactly for the address at which the hardware arrives. -/
def GetAddrAgrees (platform : Platform) (top : TopPageTable) (memory : TableMemory)
    (vaddr : Nat) : Prop :=
  ∀ phys,
    getAddr platform (decide (top.level = .pml5)) top.phys vaddr memory = (.ok phys, memory) ↔
      ∃ walk, hardwareWalk memory.words top.level top.phys vaddr Rights.all = some walk ∧
        walk.phys = phys

/-- At a huge leaf with PAT `get_addr` returns the address one page higher, or panics if that is no
physical address. -/
theorem BuiltTree.getAddr_pat (built : BuiltTree platform allowHuge mapList flags before top after)
    (limit : allowHuge ≤ .pdpt) (low : vaddr < 512 * top.level.entrySize)
    (pat : EndsAtPat after.words top.level top.phys vaddr) :
    ∃ walk, hardwareWalk after.words top.level top.phys vaddr Rights.all = some walk ∧
      getAddr platform (decide (top.level = .pml5)) top.phys vaddr after =
        (if walk.phys + 4096 < 2 ^ 52 then .ok (walk.phys + 4096) else .error .panic, after) := by
  obtain ⟨lists, map, -, leaf⟩ := built.leafOf low pat.1
  obtain ⟨walk, found, returned, -⟩ := leaf.getAddr built.kind limit
  refine ⟨walk, found, ?_⟩
  rw [returned pat]
  by_cases physical : walk.phys + 4096 < 2 ^ 52
  · rw [if_pos physical, platform.crates.physAddrNew_eq _ physical]
    rfl
  · rw [if_neg physical, platform.crates.physAddrNew_none _ (Nat.not_lt.mp physical)]
    rfl

/-- `get_addr` agrees with the hardware exactly where the walk does not end at a huge leaf with
PAT. -/
theorem BuiltTree.agrees_iff (built : BuiltTree platform allowHuge mapList flags before top after)
    (limit : allowHuge ≤ .pdpt) (low : vaddr < 512 * top.level.entrySize) :
    GetAddrAgrees platform top after vaddr ↔ ¬ EndsAtPat after.words top.level top.phys vaddr := by
  constructor
  · intro agrees pat
    obtain ⟨walk, found, returned⟩ := built.getAddr_pat limit low pat
    have same := (agrees walk.phys).mpr ⟨walk, found, rfl⟩
    rw [returned, Prod.mk.injEq] at same
    have impossible := same.1
    split at impossible
    · have equal := Except.ok.inj impossible
      omega
    · cases impossible
  · intro plain phys
    cases covered : (walkEnd after.words top.level top.phys vaddr).2.getLsbD 0 with
    | false =>
        obtain ⟨nowhere, error, failed⟩ := getAddr_absent built.kind covered
        rw [failed, nowhere]
        simp
    | true =>
        obtain ⟨lists, map, -, leaf⟩ := built.leafOf low covered
        obtain ⟨walk, found, -, returned⟩ := leaf.getAddr built.kind limit
        rw [returned plain, found]
        simp

/-- The lists ask for no huge leaf with PAT at the address: it has a small page, or neither PAT nor,
in a table created by the call, HUGE is requested for it. -/
def AsksNoPat (allowHuge : PageLevel) (mapList : List MemRangeData) (flags : List PageEntryFlags)
    (lists : List MemRangeData × List PageEntryFlags) (before : Option TableMemory)
    (top : TopPageTable) (vaddr : Nat) : Prop :=
  ∀ flag, lastFlags (mapList.zip flags) vaddr = some flag →
    leafLevel allowHuge (lists.1.zip lists.2) vaddr top.level ≠ .pt →
      flag.contains .pat = false ∧
        (inNewTable before top vaddr
            (leafLevel allowHuge (lists.1.zip lists.2) vaddr top.level) = true →
          flag.contains .huge = false)

/-- Which leaves have PAT follows from the lists and, for an update, from the tables there were. -/
theorem BuiltTree.endsAtPat_iff
    (built : BuiltTree platform allowHuge mapList flags before top after)
    (limit : allowHuge ≤ .pdpt) (aligned : ∀ range ∈ mapList, range.Aligned)
    (fits : ∀ range ∈ mapList, range.Fits) {lists : List MemRangeData × List PageEntryFlags}
    (normalized : normalizeMapList platform.profile platform.sort mapList flags = some lists)
    (low : vaddr < 512 * top.level.entrySize) (physical : vaddr < 2 ^ 52) :
    ¬ EndsAtPat after.words top.level top.phys vaddr ↔
      AsksNoPat allowHuge mapList flags lists before top vaddr := by
  have translated := built.translates_physical limit aligned fits low physical
  cases covered : lastFlags (mapList.zip flags) vaddr with
  | none =>
      rw [covered] at translated
      refine iff_of_true (fun pat => ?_) fun flag last => ?_
      · obtain ⟨walk, found, -⟩ := built.getAddr_pat limit low pat
        rw [translated] at found
        cases found
      · rw [covered] at last
        cases last
  | some flag =>
      rw [covered] at translated
      have present := walkEnd_present translated
      obtain ⟨maps, map, last, leaf⟩ := built.leafOf_lastFlags aligned fits low present
      obtain rfl := Option.some.inj (covered.symm.trans last)
      rw [EndsAtPat, leaf.pat limit, AsksNoPat, covered, built.leafLevel normalized low present]
      simp [present]

/-- `get_addr` agrees with the hardware except at huge leaves with PAT, where the address it returns
is one page too high.  Such a leaf is built for PAT, and in a new table also for HUGE. -/
theorem getAddr_agrees_iff
    (built : BuiltTree platform allowHuge mapList flags before top after)
    (limit : allowHuge ≤ .pdpt) (canonical : vaddr < addressBound top.level) :
    (GetAddrAgrees platform top after vaddr ↔
      ¬ EndsAtPat after.words top.level top.phys vaddr) ∧
    (EndsAtPat after.words top.level top.phys vaddr →
      ∃ walk, hardwareWalk after.words top.level top.phys vaddr Rights.all = some walk ∧
        getAddr platform (decide (top.level = .pml5)) top.phys vaddr after =
          (if walk.phys + 4096 < 2 ^ 52 then .ok (walk.phys + 4096) else .error .panic, after)) ∧
    ((∀ range ∈ mapList, range.Aligned) → (∀ range ∈ mapList, range.Fits) → vaddr < 2 ^ 52 →
      ∀ lists, normalizeMapList platform.profile platform.sort mapList flags = some lists →
        (GetAddrAgrees platform top after vaddr ↔
          AsksNoPat allowHuge mapList flags lists before top vaddr)) := by
  have low : vaddr < 512 * top.level.entrySize := by
    have bound : addressBound top.level ≤ 512 * top.level.entrySize := by
      rcases built.kind with kind | kind <;> rw [kind] <;> decide
    exact canonical.trans_le bound
  have agrees := built.agrees_iff limit low
  refine ⟨agrees, built.getAddr_pat limit low, fun aligned fits physical lists normalized => ?_⟩
  rw [agrees]
  exact built.endsAtPat_iff limit aligned fits normalized low physical

/-- A huge page without PAT. -/
theorem getAddr_agrees_iff_dataBlock :
    ∃ top after,
      BuiltTree (bumpPlatform 0) .pdpt [⟨0x200000, 0x200000⟩] [.dataFlags] none top after ∧
      (walkEnd after.words top.level top.phys 0x200000).1 ≠ .pt ∧
      GetAddrAgrees (bumpPlatform 0) top after 0x200000 := by
  obtain ⟨top, after, maps, map, built, level, -, -, huge⟩ :=
    hugeBlock_leafOf .dataFlags (show PageLevel.pdpt ≤ .pdpt by decide)
  have canonical : 0x200000 < addressBound top.level := by
    rw [level]
    decide
  obtain ⟨lists, normalized, -⟩ := built.tree
  refine ⟨top, after, built, huge.not.mpr (by decide), ?_⟩
  refine ((getAddr_agrees_iff built (by decide) canonical).2.2 (by decide) (by decide) (by decide)
    lists normalized).mpr fun flag last _ => ?_
  have data : some PageEntryFlags.dataFlags = some flag := last
  obtain rfl := Option.some.inj data
  exact ⟨by decide, fun _ => by decide⟩

/-- For a 2 MiB page with PAT at its own address, `get_addr` returns the address of the next
4 KiB page. -/
theorem getAddr_not_agrees :
    ∃ top after walk,
      BuiltTree (bumpPlatform 0) .pdpt [⟨0x200000, 0x200000⟩]
        [PageEntryFlags.dataFlags.union .pat] none top after ∧
      hardwareWalk after.words top.level top.phys 0x200000 Rights.all = some walk ∧
      walk.phys = 0x200000 ∧
      getAddr (bumpPlatform 0) (decide (top.level = .pml5)) top.phys 0x200000 after =
        (.ok 0x201000, after) := by
  obtain ⟨top, after, maps, map, built, level, flag, leaf, huge⟩ :=
    hugeBlock_leafOf (PageEntryFlags.dataFlags.union .pat) (show PageLevel.pdpt ≤ .pdpt by decide)
  have low : 0x200000 < 512 * top.level.entrySize := by
    rw [level]
    decide
  have requestable : Requestable (512 * top.level.entrySize) [⟨0x200000, 0x200000⟩]
      [PageEntryFlags.dataFlags.union .pat] := by
    rw [level]
    exact requestable_of_physical (.inl rfl) rfl (by decide) (by decide) (by simp)
  have pat : EndsAtPat after.words top.level top.phys 0x200000 := by
    have inner := huge.not.mpr (by decide)
    have set : (PageEntryFlags.dataFlags.union .pat).contains .pat = true := by decide
    refine ⟨leaf.present, inner, ?_⟩
    rw [leaf.pat (by decide), flag, decide_eq_true inner, set]
    rfl
  obtain ⟨walk, found, returned, -⟩ := leaf.getAddr built.kind (by decide)
  have translated : hardwareWalk after.words top.level top.phys 0x200000 Rights.all =
      some (requested (PageEntryFlags.dataFlags.union .pat) 0x200000) :=
    built.translates (by decide) requestable low
  obtain rfl := Option.some.inj (found.symm.trans translated)
  refine ⟨top, after, _, built, found, rfl, ?_⟩
  rw [returned pat, (bumpPlatform 0).crates.physAddrNew_eq _ (by decide)]
  rfl

end Okots
