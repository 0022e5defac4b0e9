import Okots.Library.LastWriter
import Okots.Paging.Entry
import Mathlib.Data.List.Sort

/-!
# Normalizing a mapping list

`normalize_map_list` cuts every new range out of the ranges collected so far, sorts the result by
start and merges neighbours with equal flags.  The list it returns is disjoint, sorted and denotes
the same last-writer-wins map as its input.
-/

namespace Okots

open LastWriter

/-- A range with the flags requested for it. -/
abbrev Mapping := MemRangeData × PageEntryFlags

/-- `sort_unstable_by_key(|(map, _)| map.start())`: equal starts may come out in any order. -/
structure UnstableSort where
  /-- The sorted list. -/
  byStart : List Mapping → List Mapping
  perm : ∀ maps, (byStart maps).Perm maps
  sorted : ∀ maps, (byStart maps).Pairwise fun left right => left.1.start ≤ right.1.start

/-- Sorting by start with a stable merge sort. -/
def stableSort : UnstableSort where
  byStart maps := maps.mergeSort fun left right => decide (left.1.start ≤ right.1.start)
  perm maps := List.mergeSort_perm maps _
  sorted maps := by
    let before (left right : Mapping) : Bool := decide (left.1.start ≤ right.1.start)
    have transitive : ∀ first second third : Mapping, before first second = true →
        before second third = true → before first third = true := by
      simp only [before, decide_eq_true_eq]
      omega
    have total : ∀ left right : Mapping, (before left right || before right left) = true := by
      simp only [before, Bool.or_eq_true, decide_eq_true_eq]
      omega
    simpa [before] using List.pairwise_mergeSort transitive total maps

theorem stableSort_of_pairwise {maps : List Mapping}
    (ascending : maps.Pairwise fun left right => left.1.start ≤ right.1.start) :
    stableSort.byStart maps = maps := by
  apply List.mergeSort_of_pairwise
  simpa using ascending

/-! ## The algorithm -/

/-- What one iteration of the inner loop leaves of `old` when `[newStart, newEnd)` is added. -/
def cutRange (profile : Profile) (newStart newEnd : Nat) (old : Mapping) :
    Option (List Mapping) := do
  let oldStart := old.1.start
  let oldEnd ← old.1.end? profile
  if newStart < oldEnd ∧ newEnd > oldStart then
    if oldStart ≥ newStart ∧ oldEnd ≤ newEnd then
      return []
    else if oldStart < newStart ∧ oldEnd > newEnd then
      let leftLen ← usizeSub profile newStart oldStart
      let splitLen ← usizeSub profile oldEnd newEnd
      return [(⟨oldStart, leftLen⟩, old.2), (⟨newEnd, splitLen⟩, old.2)]
    else if oldStart < newStart then
      let leftLen ← usizeSub profile newStart oldStart
      return [(⟨oldStart, leftLen⟩, old.2)]
    else
      let rightLen ← usizeSub profile oldEnd newEnd
      return [(⟨newEnd, rightLen⟩, old.2)]
  else
    return [old]

/-- The inner `while` loop over the collected ranges. -/
def cutLoop (profile : Profile) (newStart newEnd : Nat) : List Mapping → Option (List Mapping)
  | [] => some []
  | old :: rest => do
      let kept ← cutRange profile newStart newEnd old
      let keptRest ← cutLoop profile newStart newEnd rest
      return kept ++ keptRest

/-- One iteration of the outer loop. -/
def addRange (profile : Profile) (finalList : List Mapping) (new : Mapping) :
    Option (List Mapping) := do
  let newEnd ← new.1.end? profile
  let kept ← cutLoop profile new.1.start newEnd finalList
  return kept ++ [new]

/-- The merging loop, with the pending range and its flags. -/
def mergeLoop (profile : Profile) (curr : MemRangeData) (currFlag : PageEntryFlags) :
    List Mapping → Option (List Mapping)
  | [] => some [(curr, currFlag)]
  | (next, nextFlag) :: rest => do
      let currEnd ← curr.end? profile
      if currEnd = next.start ∧ currFlag = nextFlag then
        let len ← usizeAdd profile next.len curr.len
        mergeLoop profile ⟨curr.start, len⟩ currFlag rest
      else
        let merged ← mergeLoop profile next nextFlag rest
        return (curr, currFlag) :: merged

/-- The merging pass over the sorted list. -/
def mergeSorted (profile : Profile) : List Mapping → Option (List Mapping)
  | [] => some []
  | (curr, currFlag) :: rest => mergeLoop profile curr currFlag rest

/-- `normalize_map_list`. -/
def normalizeMapList (profile : Profile) (sort : UnstableSort) (mapList : List MemRangeData)
    (flags : List PageEntryFlags) : Option (List MemRangeData × List PageEntryFlags) := do
  if mapList = [] then
    return (mapList, flags)
  let finalList ← (mapList.zip flags).foldlM (addRange profile) []
  let merged ← mergeSorted profile (sort.byStart finalList)
  return merged.unzip

/-! ## Meaning of a mapping list -/

/-- A range covers an address. -/
def covers (map : Mapping) (address : Nat) : Bool := map.1.contains address

/-- Flags of the last range that covers an address. -/
def lastFlags (maps : List Mapping) (address : Nat) : Option PageEntryFlags :=
  lastWriter covers Prod.snd maps address

theorem covers_iff {map : Mapping} {address : Nat} :
    covers map address = true ↔
      map.1.start ≤ address ∧ address < map.1.start + map.1.len :=
  MemRangeData.contains_iff

/-- Disjoint ranges that fit in `usize` and consist of whole granules. -/
structure Tidy (granule : Nat) (maps : List Mapping) : Prop where
  disjoint : maps.Pairwise (Apart covers)
  fits : ∀ map ∈ maps, map.1.Fits
  granular : ∀ map ∈ maps, granule ∣ map.1.start ∧ granule ∣ map.1.len

theorem Tidy.perm {granule : Nat} {maps others : List Mapping} (tidy : Tidy granule maps)
    (perm : others.Perm maps) : Tidy granule others where
  disjoint := (perm.pairwise_iff fun apart => Apart.symm apart).mpr tidy.disjoint
  fits map member := tidy.fits map (perm.mem_iff.mp member)
  granular map member := tidy.granular map (perm.mem_iff.mp member)

theorem tidy_cons {granule : Nat} {map : Mapping} {rest : List Mapping} :
    Tidy granule (map :: rest) ↔
      (∀ other ∈ rest, Apart covers map other) ∧ map.1.Fits ∧
        (granule ∣ map.1.start ∧ granule ∣ map.1.len) ∧ Tidy granule rest := by
  constructor
  · intro tidy
    obtain ⟨apart, disjoint⟩ := List.pairwise_cons.mp tidy.disjoint
    obtain ⟨fits, restFits⟩ := List.forall_mem_cons.mp tidy.fits
    obtain ⟨granular, restGranular⟩ := List.forall_mem_cons.mp tidy.granular
    exact ⟨apart, fits, granular, disjoint, restFits, restGranular⟩
  · rintro ⟨apart, fits, granular, tidy⟩
    exact ⟨List.pairwise_cons.mpr ⟨apart, tidy.disjoint⟩,
      List.forall_mem_cons.mpr ⟨fits, tidy.fits⟩,
      List.forall_mem_cons.mpr ⟨granular, tidy.granular⟩⟩

theorem Tidy.concat {granule : Nat} {maps : List Mapping} {new : Mapping} (tidy : Tidy granule maps)
    (apart : ∀ map ∈ maps, Apart covers new map) (fits : new.1.Fits)
    (granular : granule ∣ new.1.start ∧ granule ∣ new.1.len) : Tidy granule (maps ++ [new]) :=
  (tidy_cons.mpr ⟨apart, fits, granular, tidy⟩).perm (List.perm_append_singleton new maps)

/-! ## Cutting -/

/-- The pieces of `old` outside `[newStart, newEnd)`. -/
def outsidePieces (newStart newEnd : Nat) (old : Mapping) : List Mapping :=
  let oldEnd := old.1.start + old.1.len
  if newStart < oldEnd ∧ newEnd > old.1.start then
    if old.1.start ≥ newStart ∧ oldEnd ≤ newEnd then
      []
    else if old.1.start < newStart ∧ oldEnd > newEnd then
      [(⟨old.1.start, newStart - old.1.start⟩, old.2), (⟨newEnd, oldEnd - newEnd⟩, old.2)]
    else if old.1.start < newStart then
      [(⟨old.1.start, newStart - old.1.start⟩, old.2)]
    else
      [(⟨newEnd, oldEnd - newEnd⟩, old.2)]
  else
    [old]

theorem cutRange_eq (profile : Profile) (newStart newEnd : Nat) {old : Mapping}
    (fits : old.1.Fits) :
    cutRange profile newStart newEnd old = some (outsidePieces newStart newEnd old) := by
  simp only [cutRange, outsidePieces, MemRangeData.end?_of_fits profile fits, Option.bind_eq_bind,
    Option.bind_some]
  split
  · split
    · rfl
    · split
      · rename_i inside
        rw [usizeSub_of_le profile (by omega), usizeSub_of_le profile (by omega)]
        rfl
      · split
        · rw [usizeSub_of_le profile (by omega)]
          rfl
        · rw [usizeSub_of_le profile (by omega)]
          rfl
  · rfl

theorem cutLoop_eq (profile : Profile) (newStart newEnd : Nat) {maps : List Mapping}
    (fits : ∀ map ∈ maps, map.1.Fits) :
    cutLoop profile newStart newEnd maps =
      some (maps.flatMap (outsidePieces newStart newEnd)) := by
  induction maps with
  | nil => rfl
  | cons old rest induction =>
      have restEq := induction fun map member => fits map (List.mem_cons_of_mem _ member)
      simp [cutLoop, cutRange_eq profile newStart newEnd (fits old List.mem_cons_self), restEq]

theorem outsidePieces_flags {newStart newEnd : Nat} {old piece : Mapping}
    (member : piece ∈ outsidePieces newStart newEnd old) : piece.2 = old.2 := by
  simp only [outsidePieces] at member
  repeat' split at member
  all_goals simp at member
  all_goals first | exact member ▸ rfl | (rcases member with rfl | rfl <;> rfl)

theorem outsidePieces_covers (newStart newEnd : Nat) (old : Mapping) (address : Nat) :
    (∃ piece ∈ outsidePieces newStart newEnd old, covers piece address = true) ↔
      covers old address = true ∧ ¬ (newStart ≤ address ∧ address < newEnd) := by
  simp only [outsidePieces]
  repeat' split
  all_goals
    simp only [List.mem_cons, List.not_mem_nil, or_false, exists_eq_or_imp, exists_eq_left,
      exists_false, false_and, false_iff, covers_iff]
    omega

theorem outsidePieces_tidy {granule newStart newEnd : Nat} {old : Mapping}
    (order : newStart ≤ newEnd) (fits : old.1.Fits)
    (oldGranular : granule ∣ old.1.start ∧ granule ∣ old.1.len)
    (newGranular : granule ∣ newStart ∧ granule ∣ newEnd) :
    Tidy granule (outsidePieces newStart newEnd old) := by
  have oldEnd : granule ∣ old.1.start + old.1.len := Nat.dvd_add oldGranular.1 oldGranular.2
  have leftLen : granule ∣ newStart - old.1.start := Nat.dvd_sub newGranular.1 oldGranular.1
  have rightLen : granule ∣ old.1.start + old.1.len - newEnd := Nat.dvd_sub oldEnd newGranular.2
  unfold MemRangeData.Fits at fits
  simp only [outsidePieces]
  repeat' split
  all_goals
    refine ⟨?_, ?_, ?_⟩
    · simp [Apart, covers_iff]
      try omega
    · simp [MemRangeData.Fits]
      try omega
    · simp [oldGranular, newGranular, leftLen, rightLen]

/-- Cutting keeps a list tidy. -/
theorem Tidy.cut {granule newStart newEnd : Nat} {maps : List Mapping} (tidy : Tidy granule maps)
    (order : newStart ≤ newEnd) (granular : granule ∣ newStart ∧ granule ∣ newEnd) :
    Tidy granule (maps.flatMap (outsidePieces newStart newEnd)) := by
  have pieces : ∀ old ∈ maps, Tidy granule (outsidePieces newStart newEnd old) :=
    fun old member =>
      outsidePieces_tidy order (tidy.fits old member) (tidy.granular old member) granular
  refine ⟨List.pairwise_flatMap.mpr ⟨fun old member => (pieces old member).disjoint, ?_⟩, ?_, ?_⟩
  · refine tidy.disjoint.imp ?_
    intro left right apart x xMember y yMember address both
    have inLeft := (outsidePieces_covers _ _ left address).mp ⟨x, xMember, both.1⟩
    have inRight := (outsidePieces_covers _ _ right address).mp ⟨y, yMember, both.2⟩
    exact apart address ⟨inLeft.1, inRight.1⟩
  · intro map member
    obtain ⟨old, oldMember, pieceMember⟩ := List.mem_flatMap.mp member
    exact (pieces old oldMember).fits map pieceMember
  · intro map member
    obtain ⟨old, oldMember, pieceMember⟩ := List.mem_flatMap.mp member
    exact (pieces old oldMember).granular map pieceMember

/-- Cutting removes the addresses of the new range and nothing else. -/
theorem lastFlags_cut (newStart newEnd : Nat) (maps : List Mapping) (address : Nat) :
    lastFlags (maps.flatMap (outsidePieces newStart newEnd)) address =
      if newStart ≤ address ∧ address < newEnd then none else lastFlags maps address := by
  refine lastWriter_flatMap fun old _ => ?_
  rw [lastWriter_uniform (fun piece member => outsidePieces_flags member)
    (outsidePieces_covers newStart newEnd old address)]
  by_cases inside : newStart ≤ address ∧ address < newEnd <;> simp [inside]

theorem addRange_eq (profile : Profile) {finalList : List Mapping} {new : Mapping}
    (collected : ∀ map ∈ finalList, map.1.Fits) (fits : new.1.Fits) :
    addRange profile finalList new =
      some (finalList.flatMap (outsidePieces new.1.start (new.1.start + new.1.len)) ++ [new]) := by
  simp [addRange, MemRangeData.end?_of_fits profile fits, cutLoop_eq profile _ _ collected]

/-- Adding a range overrides the collected ones on the addresses it covers. -/
theorem addRange_spec (profile : Profile) {granule : Nat} {finalList : List Mapping} {new : Mapping}
    (tidy : Tidy granule finalList) (fits : new.1.Fits)
    (granular : granule ∣ new.1.start ∧ granule ∣ new.1.len) :
    ∃ result, addRange profile finalList new = some result ∧ Tidy granule result ∧
      ∀ address, lastFlags result address =
        if covers new address then some new.2 else lastFlags finalList address := by
  set newEnd := new.1.start + new.1.len
  have cut := tidy.cut (Nat.le_add_right new.1.start new.1.len)
    ⟨granular.1, Nat.dvd_add granular.1 granular.2⟩
  refine ⟨finalList.flatMap (outsidePieces new.1.start newEnd) ++ [new],
    addRange_eq profile tidy.fits fits, cut.concat ?_ fits granular, ?_⟩
  · intro piece member address both
    obtain ⟨old, -, pieceMember⟩ := List.mem_flatMap.mp member
    have outside := (outsidePieces_covers _ _ old address).mp ⟨piece, pieceMember, both.2⟩
    exact outside.2 (covers_iff.mp both.1)
  · intro address
    rw [lastFlags, lastWriter_concat]
    split
    · rfl
    · rename_i uncovered
      have outside : ¬ (new.1.start ≤ address ∧ address < newEnd) :=
        fun inside => uncovered (covers_iff.mpr inside)
      exact (lastFlags_cut _ _ finalList address).trans (if_neg outside)

/-- The outer loop keeps the list tidy and lets later ranges win. -/
theorem foldlM_addRange_spec (profile : Profile) {granule : Nat} {maps finalList : List Mapping}
    (tidy : Tidy granule finalList) (fits : ∀ map ∈ maps, map.1.Fits)
    (granular : ∀ map ∈ maps, granule ∣ map.1.start ∧ granule ∣ map.1.len) :
    ∃ result, maps.foldlM (addRange profile) finalList = some result ∧ Tidy granule result ∧
      ∀ address, lastFlags result address =
        (lastFlags maps address).or (lastFlags finalList address) := by
  induction maps generalizing finalList with
  | nil => exact ⟨finalList, rfl, tidy, fun _ => by simp [lastFlags]⟩
  | cons new rest induction =>
      obtain ⟨added, addedEq, addedTidy, addedFlags⟩ := addRange_spec profile tidy
        (fits new List.mem_cons_self) (granular new List.mem_cons_self)
      obtain ⟨result, resultEq, resultTidy, resultFlags⟩ := induction addedTidy
        (fun map member => fits map (List.mem_cons_of_mem _ member))
        (fun map member => granular map (List.mem_cons_of_mem _ member))
      refine ⟨result, by simp [addedEq, resultEq], resultTidy, ?_⟩
      intro address
      rw [resultFlags, addedFlags]
      simp only [lastFlags, lastWriter, Option.or_assoc]
      by_cases covered : covers new address = true <;> simp [covered]

/-! ## Sorting and merging -/

section Join

variable {granule : Nat} {curr next : MemRangeData} {flag : PageEntryFlags} {rest : List Mapping}

/-- A range joined with the range that starts at its end covers what the two cover. -/
theorem covers_join (touch : curr.start + curr.len = next.start) (address : Nat) :
    covers (⟨curr.start, next.len + curr.len⟩, flag) address = true ↔
      covers (curr, flag) address = true ∨ covers (next, flag) address = true := by
  simp only [covers_iff]
  omega

theorem Tidy.join (tidy : Tidy granule ((curr, flag) :: (next, flag) :: rest))
    (touch : curr.start + curr.len = next.start) :
    Tidy granule ((⟨curr.start, next.len + curr.len⟩, flag) :: rest) := by
  obtain ⟨currApart, -, currGranular, tail⟩ := tidy_cons.mp tidy
  obtain ⟨nextApart, nextFits, nextGranular, restTidy⟩ := tidy_cons.mp tail
  refine tidy_cons.mpr ⟨?_, ?_, ⟨currGranular.1, Nat.dvd_add nextGranular.2 currGranular.2⟩,
    restTidy⟩
  · intro map member address both
    rcases (covers_join touch address).mp both.1 with left | right
    · exact currApart map (List.mem_cons_of_mem _ member) address ⟨left, both.2⟩
    · exact nextApart map member address ⟨right, both.2⟩
  · simp only [MemRangeData.Fits] at nextFits ⊢
    omega

theorem lastFlags_join (touch : curr.start + curr.len = next.start) (address : Nat) :
    lastFlags ((⟨curr.start, next.len + curr.len⟩, flag) :: rest) address =
      lastFlags ((curr, flag) :: (next, flag) :: rest) address := by
  simp only [lastFlags, lastWriter]
  cases lastWriter covers Prod.snd rest address with
  | some found => simp
  | none =>
      by_cases left : covers (curr, flag) address = true <;>
        by_cases right : covers (next, flag) address = true <;>
        simp [covers_join touch, left, right]

end Join

/-- A range stays apart from a tidy list with the meaning of one it is apart from. -/
theorem Tidy.apart_of_lastFlags {granule : Nat} {map : Mapping} {maps others : List Mapping}
    (tidy : Tidy granule others) (apart : ∀ other ∈ maps, Apart covers map other)
    (same : ∀ address, lastFlags others address = lastFlags maps address) :
    ∀ other ∈ others, Apart covers map other := by
  intro other member address both
  have written : lastFlags others address = some other.2 :=
    lastWriter_eq_some_of_mem tidy.disjoint member both.2
  rw [same] at written
  obtain ⟨item, itemMember, itemCovers, -⟩ := exists_of_lastWriter_eq_some written
  exact apart item itemMember address ⟨both.1, itemCovers⟩

/-- Merging neighbours keeps the list tidy and sorted and does not change its meaning. -/
theorem mergeLoop_spec (profile : Profile) {granule : Nat} {curr : MemRangeData}
    {currFlag : PageEntryFlags} {rest : List Mapping}
    (tidy : Tidy granule ((curr, currFlag) :: rest))
    (sorted : ((curr, currFlag) :: rest).Pairwise fun left right => left.1.start ≤ right.1.start) :
    ∃ merged, mergeLoop profile curr currFlag rest = some merged ∧ Tidy granule merged ∧
      merged.Pairwise (fun left right => left.1.start ≤ right.1.start) ∧
      (∀ map ∈ merged, curr.start ≤ map.1.start) ∧
      (∀ address, lastFlags merged address = lastFlags ((curr, currFlag) :: rest) address) := by
  induction rest generalizing curr currFlag with
  | nil => exact ⟨_, rfl, tidy, sorted, by simp, fun _ => rfl⟩
  | cons next rest induction =>
      obtain ⟨next, nextFlag⟩ := next
      obtain ⟨currApart, currFits, currGranular, tailTidy⟩ := tidy_cons.mp tidy
      obtain ⟨-, nextFits, -⟩ := tidy_cons.mp tailTidy
      obtain ⟨currFirst, tailSorted⟩ := List.pairwise_cons.mp sorted
      simp only [mergeLoop, MemRangeData.end?_of_fits profile currFits, Option.bind_eq_bind,
        Option.bind_some]
      split
      · rename_i touching
        obtain ⟨touch, rfl⟩ := touching
        have joinedFits : next.len + curr.len < usizeCount := by
          simp only [MemRangeData.Fits] at nextFits
          omega
        rw [usizeAdd_of_lt profile joinedFits]
        have joinedFirst : ∀ map ∈ rest, curr.start ≤ map.1.start :=
          fun map member => currFirst map (List.mem_cons_of_mem _ member)
        obtain ⟨merged, mergedEq, mergedTidy, mergedSorted, mergedFirst, mergedFlags⟩ :=
          induction (tidy.join touch) (List.pairwise_cons.mpr ⟨joinedFirst, tailSorted.of_cons⟩)
        refine ⟨merged, mergedEq, mergedTidy, mergedSorted, mergedFirst, fun address => ?_⟩
        rw [mergedFlags, lastFlags_join touch]
      · obtain ⟨merged, mergedEq, mergedTidy, mergedSorted, mergedFirst, mergedFlags⟩ :=
          induction tailTidy tailSorted
        have first : ∀ map ∈ merged, curr.start ≤ map.1.start := fun map member =>
          le_trans (currFirst (next, nextFlag) List.mem_cons_self) (mergedFirst map member)
        have apart := mergedTidy.apart_of_lastFlags currApart mergedFlags
        refine ⟨(curr, currFlag) :: merged, by simp [mergedEq],
          tidy_cons.mpr ⟨apart, currFits, currGranular, mergedTidy⟩,
          List.pairwise_cons.mpr ⟨first, mergedSorted⟩,
          List.forall_mem_cons.mpr ⟨le_rfl, first⟩, fun address => ?_⟩
        have tailFlags := mergedFlags address
        simp only [lastFlags] at tailFlags
        simp only [lastFlags, lastWriter]
        rw [tailFlags]
        simp only [lastWriter]

/-! ## The normalized list -/

/-- Merging keeps a sorted list tidy, sorted and with its meaning. -/
theorem mergeSorted_spec (profile : Profile) {granule : Nat} {maps : List Mapping}
    (tidy : Tidy granule maps)
    (sorted : maps.Pairwise fun left right => left.1.start ≤ right.1.start) :
    ∃ merged, mergeSorted profile maps = some merged ∧ Tidy granule merged ∧
      merged.Pairwise (fun left right => left.1.start ≤ right.1.start) ∧
      ∀ address, lastFlags merged address = lastFlags maps address := by
  cases maps with
  | nil => exact ⟨[], rfl, tidy, sorted, fun _ => rfl⟩
  | cons first rest =>
      obtain ⟨merged, mergedEq, mergedTidy, mergedSorted, -, mergedFlags⟩ :=
        mergeLoop_spec profile tidy sorted
      exact ⟨merged, mergedEq, mergedTidy, mergedSorted, mergedFlags⟩

/-- A single range is normalized. -/
theorem normalizeMapList_single {profile : Profile} {sort : UnstableSort} {range : MemRangeData}
    {stop : Nat} (ends : range.end? profile = some stop) (flag : PageEntryFlags) :
    normalizeMapList profile sort [range] [flag] = some ([range], [flag]) := by
  have sorted : sort.byStart [(range, flag)] = [(range, flag)] :=
    List.perm_singleton.mp (sort.perm _)
  simp [normalizeMapList, addRange, cutLoop, ends, sorted, mergeSorted, mergeLoop]

/-- What a normalization that returns has computed. -/
theorem normalizeMapList_cases {profile : Profile} {sort : UnstableSort}
    {mapList : List MemRangeData} {flags : List PageEntryFlags}
    {lists : List MemRangeData × List PageEntryFlags}
    (normalized : normalizeMapList profile sort mapList flags = some lists) :
    mapList = [] ∧ lists = (mapList, flags) ∨
      ∃ finalList merged, (mapList.zip flags).foldlM (addRange profile) [] = some finalList ∧
        mergeSorted profile (sort.byStart finalList) = some merged ∧ lists = merged.unzip := by
  rw [normalizeMapList] at normalized
  split at normalized
  · rename_i empty
    exact .inl ⟨empty, (Option.some.inj normalized).symm⟩
  · simp only [Option.bind_eq_bind, Option.bind_eq_some_iff, Option.pure_def,
      Option.some.injEq] at normalized
    obtain ⟨finalList, added, merged, merge, rfl⟩ := normalized
    exact .inr ⟨finalList, merged, added, merge, rfl⟩

/-- Normalization returns a tidy sorted list with the meaning of its input. -/
theorem normalizeMapList_spec (profile : Profile) (sort : UnstableSort) (granule : Nat)
    {mapList : List MemRangeData} {flags : List PageEntryFlags}
    (fits : ∀ map ∈ mapList.zip flags, map.1.Fits)
    (granular : ∀ map ∈ mapList.zip flags, granule ∣ map.1.start ∧ granule ∣ map.1.len) :
    ∃ maps' flags', normalizeMapList profile sort mapList flags = some (maps', flags') ∧
      (mapList.length = flags.length → maps'.length = flags'.length) ∧
      Tidy granule (maps'.zip flags') ∧
      (maps'.zip flags').Pairwise (fun left right => left.1.start ≤ right.1.start) ∧
      ∀ address, lastFlags (maps'.zip flags') address =
        lastFlags (mapList.zip flags) address := by
  by_cases empty : mapList = []
  · subst mapList
    exact ⟨[], flags, by simp [normalizeMapList], id, ⟨by simp, by simp, by simp⟩, by simp,
      fun _ => rfl⟩
  obtain ⟨finalList, finalEq, finalTidy, finalFlags⟩ := foldlM_addRange_spec profile
    (show Tidy granule [] from ⟨List.Pairwise.nil, by simp, by simp⟩) fits granular
  have sortTidy : Tidy granule (sort.byStart finalList) := finalTidy.perm (sort.perm finalList)
  have sortFlags : ∀ address, lastFlags (sort.byStart finalList) address =
      lastFlags (mapList.zip flags) address := by
    intro address
    rw [lastFlags, lastWriter_perm sortTidy.disjoint (sort.perm finalList)]
    simpa [lastFlags] using finalFlags address
  obtain ⟨merged, mergedEq, mergedTidy, mergedSorted, mergedFlags⟩ :=
    mergeSorted_spec profile sortTidy (sort.sorted finalList)
  have rezip : merged.unzip.1.zip merged.unzip.2 = merged := List.zip_unzip merged
  refine ⟨merged.unzip.1, merged.unzip.2, ?_, ?_, ?_, ?_, ?_⟩
  · simp only [normalizeMapList, empty, if_false, finalEq, mergedEq, Option.bind_eq_bind,
      Option.bind_some]
    rfl
  · intro _
    simp
  · rw [rezip]
    exact mergedTidy
  · rw [rezip]
    exact mergedSorted
  · intro address
    rw [rezip, mergedFlags, sortFlags]

/-- Of two lists of one length, the first holds what the pairs hold. -/
theorem exists_mapping_of_mem {ranges : List MemRangeData} {flags : List PageEntryFlags}
    (length : ranges.length = flags.length) {range : MemRangeData} (member : range ∈ ranges) :
    ∃ flag, (range, flag) ∈ ranges.zip flags := by
  rw [← List.map_fst_zip length.le] at member
  obtain ⟨⟨_, flag⟩, paired, rfl⟩ := List.mem_map.mp member
  exact ⟨flag, paired⟩

/-- Overlaps are resolved by the last writer: for lists whose ranges fit in `usize`, no operation
overflows, an address is covered as before and has the flags of the last range that covered it. -/
theorem normalizeMapList_resolves (profile : Profile) (sort : UnstableSort)
    {mapList : List MemRangeData} {flags : List PageEntryFlags}
    (length : mapList.length = flags.length) (fits : ∀ range ∈ mapList, range.Fits) :
    ∃ maps' flags', normalizeMapList profile sort mapList flags = some (maps', flags') ∧
      maps'.length = flags'.length ∧
      (∀ address, (∃ map ∈ maps'.zip flags', covers map address = true) ↔
        ∃ map ∈ mapList.zip flags, covers map address = true) ∧
      (∀ map ∈ maps'.zip flags', ∀ address, covers map address = true →
        lastFlags (mapList.zip flags) address = some map.2) ∧
      maps'.Pairwise (fun left right => left.start ≤ right.start) ∧
      maps'.Pairwise (fun left right => ∀ address,
        ¬ (left.contains address = true ∧ right.contains address = true)) ∧
      ((∀ range ∈ mapList, range.Aligned) → ∀ range ∈ maps', range.Aligned) := by
  have zipFits : ∀ map ∈ mapList.zip flags, map.1.Fits :=
    fun map member => fits map.1 (List.of_mem_zip member).1
  obtain ⟨maps', flags', run, sameLength, tidy, sorted, meaning⟩ :=
    normalizeMapList_spec profile sort 1 zipFits fun _ _ => ⟨Nat.one_dvd _, Nat.one_dvd _⟩
  have lengths := sameLength length
  have ranges : (maps'.zip flags').map Prod.fst = maps' := List.map_fst_zip lengths.le
  refine ⟨maps', flags', run, lengths, fun address => ?_, ?_, ?_, ?_, ?_⟩
  · have covered (maps : List Mapping) : (∃ map ∈ maps, covers map address = true) ↔
        lastFlags maps address ≠ none := by
      rw [Ne, lastFlags, lastWriter_eq_none_iff]
      simp
    rw [covered, covered, meaning]
  · intro map member address inside
    rw [← meaning]
    exact lastWriter_eq_some_of_mem tidy.disjoint member inside
  · rw [← ranges, List.pairwise_map]
    exact sorted
  · rw [← ranges, List.pairwise_map]
    exact tidy.disjoint
  · intro aligned range member
    obtain ⟨others, otherFlags, again, -, granular, -⟩ := normalizeMapList_spec profile sort 4096
      zipFits fun map inside => aligned map.1 (List.of_mem_zip inside).1
    obtain ⟨rfl, rfl⟩ := Prod.mk.inj (Option.some.inj (run.symm.trans again))
    obtain ⟨flag, paired⟩ := exists_mapping_of_mem lengths member
    exact granular.granular _ paired

/-- A range is cut by a later one and by an empty one. -/
theorem normalizeMapList_resolves_cut :
    ∃ maps' flags', normalizeMapList .dev stableSort
        [⟨0x1000, 0x4000⟩, ⟨0x2000, 0x1000⟩, ⟨0x4000, 0⟩]
        [.present, .executeDisable, .executeDisable] = some (maps', flags') ∧
      maps'.length = flags'.length ∧ ∀ range ∈ maps', range.Aligned := by
  obtain ⟨maps', flags', run, length, -, -, -, -, aligned⟩ := normalizeMapList_resolves .dev
    stableSort (show [(⟨0x1000, 0x4000⟩ : MemRangeData), ⟨0x2000, 0x1000⟩, ⟨0x4000, 0⟩].length =
      [PageEntryFlags.present, .executeDisable, .executeDisable].length from rfl) (by decide)
  exact ⟨maps', flags', run, length, aligned (by decide)⟩

/-! ## Provenance of the flags -/

theorem cutRange_flags {profile : Profile} {newStart newEnd : Nat} {old : Mapping}
    {pieces : List Mapping} (cut : cutRange profile newStart newEnd old = some pieces) :
    ∀ piece ∈ pieces, piece.2 = old.2 := by
  rw [cutRange, Option.bind_eq_bind, Option.bind_eq_some_iff] at cut
  obtain ⟨oldEnd, -, cut⟩ := cut
  repeat' split at cut
  all_goals
    simp only [Option.bind_eq_some_iff, Option.pure_def, Option.some.injEq] at cut
  · simp [← cut]
  · obtain ⟨_, -, _, -, rfl⟩ := cut
    simp
  · obtain ⟨_, -, rfl⟩ := cut
    simp
  · obtain ⟨_, -, rfl⟩ := cut
    simp
  · simp [← cut]

section Provenance

variable {profile : Profile} {allowed : PageEntryFlags → Prop}

theorem cutLoop_flags {newStart newEnd : Nat} {maps kept : List Mapping}
    (all : ∀ map ∈ maps, allowed map.2)
    (cut : cutLoop profile newStart newEnd maps = some kept) : ∀ map ∈ kept, allowed map.2 := by
  induction maps generalizing kept with
  | nil =>
      obtain rfl := Option.some.inj cut
      simp
  | cons old rest induction =>
      simp only [cutLoop, Option.bind_eq_bind, Option.bind_eq_some_iff, Option.pure_def,
        Option.some.injEq] at cut
      obtain ⟨pieces, piecesCut, others, othersCut, rfl⟩ := cut
      intro map member
      rcases List.mem_append.mp member with inPieces | inOthers
      · rw [cutRange_flags piecesCut map inPieces]
        exact all old List.mem_cons_self
      · exact induction (fun other inRest => all other (List.mem_cons_of_mem _ inRest)) othersCut
          map inOthers

theorem foldlM_addRange_flags {maps finalList result : List Mapping}
    (all : ∀ map ∈ maps, allowed map.2) (start : ∀ map ∈ finalList, allowed map.2)
    (added : maps.foldlM (addRange profile) finalList = some result) :
    ∀ map ∈ result, allowed map.2 := by
  induction maps generalizing finalList with
  | nil =>
      obtain rfl := Option.some.inj added
      exact start
  | cons new rest induction =>
      simp only [List.foldlM_cons, addRange, Option.bind_eq_bind, Option.bind_eq_some_iff,
        Option.pure_def, Option.some.injEq] at added
      obtain ⟨_, ⟨newEnd, -, kept, cut, rfl⟩, added⟩ := added
      refine induction (fun map member => all map (List.mem_cons_of_mem _ member)) ?_ added
      intro map member
      rcases List.mem_append.mp member with inKept | isNew
      · exact cutLoop_flags start cut map inKept
      · rw [List.mem_singleton.mp isNew]
        exact all new List.mem_cons_self

theorem mergeLoop_flags {curr : MemRangeData} {currFlag : PageEntryFlags}
    {rest merged : List Mapping} (pending : allowed currFlag) (all : ∀ map ∈ rest, allowed map.2)
    (merge : mergeLoop profile curr currFlag rest = some merged) :
    ∀ map ∈ merged, allowed map.2 := by
  induction rest generalizing curr currFlag merged with
  | nil =>
      obtain rfl := Option.some.inj merge
      simpa using pending
  | cons next rest induction =>
      obtain ⟨next, nextFlag⟩ := next
      have others : ∀ map ∈ rest, allowed map.2 := fun map member =>
        all map (List.mem_cons_of_mem _ member)
      rw [mergeLoop, Option.bind_eq_bind, Option.bind_eq_some_iff] at merge
      obtain ⟨currEnd, -, merge⟩ := merge
      split at merge
      · rw [Option.bind_eq_some_iff] at merge
        obtain ⟨len, -, merge⟩ := merge
        exact induction pending others merge
      · simp only [Option.bind_eq_bind, Option.bind_eq_some_iff, Option.pure_def,
          Option.some.injEq] at merge
        obtain ⟨tail, merge, rfl⟩ := merge
        intro map member
        rcases List.mem_cons.mp member with rfl | inTail
        · exact pending
        · exact induction (all (next, nextFlag) List.mem_cons_self) others merge map inTail

/-- Normalization only uses flags of its input. -/
theorem normalizeMapList_flags {sort : UnstableSort} {mapList : List MemRangeData}
    {flags : List PageEntryFlags} {lists : List MemRangeData × List PageEntryFlags}
    (all : ∀ flag ∈ flags, allowed flag)
    (normalized : normalizeMapList profile sort mapList flags = some lists) :
    ∀ flag ∈ lists.2, allowed flag := by
  obtain ⟨-, rfl⟩ | ⟨finalList, merged, added, merge, rfl⟩ := normalizeMapList_cases normalized
  · exact all
  have collected := foldlM_addRange_flags
    (fun map member => all map.2 (List.of_mem_zip member).2) (by simp) added
  have sorted : ∀ map ∈ sort.byStart finalList, allowed map.2 := fun map member =>
    collected map ((sort.perm finalList).mem_iff.mp member)
  have mergedFlags : ∀ map ∈ merged, allowed map.2 := by
    rcases order : sort.byStart finalList with _ | ⟨⟨curr, currFlag⟩, rest⟩
    · rw [order] at merge
      obtain rfl := Option.some.inj merge
      simp
    · rw [order] at merge sorted
      exact mergeLoop_flags (sorted _ List.mem_cons_self)
        (fun map member => sorted map (List.mem_cons_of_mem _ member)) merge
  intro flag member
  rw [List.unzip_snd] at member
  obtain ⟨map, inMerged, rfl⟩ := List.mem_map.mp member
  exact mergedFlags map inMerged

end Provenance

end Okots
