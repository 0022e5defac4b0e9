import Okots.Library.MaximalRuns
import Okots.Paging.Normalize

/-!
# The normalized list is canonical

For ranges that are not empty, the list that `normalize_map_list` returns consists of the maximal
runs of the map that its input denotes.  It depends on that map only: normalizing twice changes
nothing, and a range list may be normalized before another one is appended.
-/

namespace Okots

open LastWriter MaximalRuns

/-- Lists of ranges and flags that denote a map. -/
structure Proper (mapList : List MemRangeData) (flags : List PageEntryFlags) : Prop where
  lengths : mapList.length = flags.length
  fits : ∀ range ∈ mapList, range.Fits
  nonempty : ∀ range ∈ mapList, 0 < range.len

/-- Address after the last one of a mapping. -/
def mapStop (map : Mapping) : Nat := map.1.start + map.1.len

/-- The mappings are maximal runs of addresses with equal flags. -/
abbrev MaximalMaps (maps : List Mapping) : Prop :=
  Maximal (fun map : Mapping => map.1.start) mapStop Prod.snd maps

/-- The first mapping does not touch the second one with equal flags. -/
def Unjoined (left right : Mapping) : Prop := ¬ (mapStop left = right.1.start ∧ left.2 = right.2)

theorem lastFlags_eq_runs (maps : List Mapping) (address : Nat) :
    lastFlags maps address =
      lastWriter (within (fun map : Mapping => map.1.start) mapStop) Prod.snd maps address := rfl

/-! ## No empty range -/

theorem outsidePieces_nonempty {newStart newEnd : Nat} {old : Mapping} (nonempty : 0 < old.1.len) :
    ∀ piece ∈ outsidePieces newStart newEnd old, 0 < piece.1.len := by
  simp only [outsidePieces]
  repeat' split
  all_goals
    simp only [List.mem_cons, List.not_mem_nil, or_false, forall_eq_or_imp, forall_eq,
      false_implies, implies_true]
    try omega

theorem foldlM_addRange_nonempty {profile : Profile} {maps finalList result : List Mapping}
    (tidy : Tidy 1 finalList) (collected : ∀ map ∈ finalList, 0 < map.1.len)
    (fits : ∀ map ∈ maps, map.1.Fits) (nonempty : ∀ map ∈ maps, 0 < map.1.len)
    (added : maps.foldlM (addRange profile) finalList = some result) :
    ∀ map ∈ result, 0 < map.1.len := by
  induction maps generalizing finalList with
  | nil =>
      obtain rfl := Option.some.inj added
      exact collected
  | cons new rest induction =>
      obtain ⟨newFits, restFits⟩ := List.forall_mem_cons.mp fits
      obtain ⟨newNonempty, restNonempty⟩ := List.forall_mem_cons.mp nonempty
      obtain ⟨middle, middleEq, middleTidy, -⟩ := addRange_spec profile tidy newFits
        ⟨Nat.one_dvd _, Nat.one_dvd _⟩
      rw [List.foldlM_cons, middleEq] at added
      refine induction middleTidy ?_ restFits restNonempty added
      rw [addRange_eq profile tidy.fits newFits, Option.some.injEq] at middleEq
      rw [← middleEq]
      intro map member
      rcases List.mem_append.mp member with kept | isNew
      · obtain ⟨old, oldMember, piece⟩ := List.mem_flatMap.mp kept
        exact outsidePieces_nonempty (collected old oldMember) map piece
      · rw [List.mem_singleton.mp isNew]
        exact newNonempty

/-- Merging leaves no two neighbours that could be joined. -/
theorem mergeLoop_unjoined {profile : Profile} {curr : MemRangeData} {currFlag : PageEntryFlags}
    {rest merged : List Mapping} (fits : ∀ map ∈ (curr, currFlag) :: rest, map.1.Fits)
    (nonempty : ∀ map ∈ (curr, currFlag) :: rest, 0 < map.1.len)
    (merge : mergeLoop profile curr currFlag rest = some merged) :
    (∃ len tail, merged = (⟨curr.start, len⟩, currFlag) :: tail) ∧
      (∀ map ∈ merged, 0 < map.1.len) ∧ merged.IsChain Unjoined := by
  induction rest generalizing curr currFlag merged with
  | nil =>
      obtain rfl := Option.some.inj merge
      exact ⟨⟨curr.len, [], rfl⟩, nonempty, List.IsChain.singleton _⟩
  | cons next rest induction =>
      obtain ⟨next, nextFlag⟩ := next
      obtain ⟨currFits, tailFits⟩ := List.forall_mem_cons.mp fits
      obtain ⟨currNonempty, tailNonempty⟩ := List.forall_mem_cons.mp nonempty
      obtain ⟨nextFits, restFits⟩ := List.forall_mem_cons.mp tailFits
      obtain ⟨nextNonempty, restNonempty⟩ := List.forall_mem_cons.mp tailNonempty
      simp only [mergeLoop, MemRangeData.end?_of_fits profile currFits, Option.bind_eq_bind,
        Option.bind_some] at merge
      split at merge
      · rename_i touching
        obtain ⟨touch, rfl⟩ := touching
        simp only [MemRangeData.Fits] at nextFits currFits
        rw [usizeAdd_of_lt profile (by omega), Option.bind_some] at merge
        have joinedFits : (⟨curr.start, next.len + curr.len⟩ : MemRangeData).Fits := by
          simp only [MemRangeData.Fits]
          omega
        have joined := fun fits nonempty => induction fits nonempty merge
        exact joined (List.forall_mem_cons.mpr ⟨joinedFits, restFits⟩)
          (List.forall_mem_cons.mpr ⟨Nat.add_pos_left nextNonempty _, restNonempty⟩)
      · rename_i apart
        obtain ⟨tail, tailMerge, rfl⟩ : ∃ tail, mergeLoop profile next nextFlag rest = some tail ∧
            (curr, currFlag) :: tail = merged := by
          simpa [Option.bind_eq_some_iff] using merge
        obtain ⟨⟨len, others, rfl⟩, tailParts, chain⟩ := induction tailFits tailNonempty tailMerge
        exact ⟨⟨curr.len, _, rfl⟩, List.forall_mem_cons.mpr ⟨currNonempty, tailParts⟩,
          List.isChain_cons_cons.mpr ⟨apart, chain⟩⟩

/-! ## Maximal runs -/

/-- Disjoint ranges that are sorted by their starts and not empty come one after another. -/
theorem ordered_of_sorted {maps : List Mapping} (disjoint : maps.Pairwise (Apart covers))
    (sorted : maps.Pairwise fun left right => left.1.start ≤ right.1.start)
    (nonempty : ∀ map ∈ maps, 0 < map.1.len) :
    maps.Pairwise fun left right => mapStop left ≤ right.1.start := by
  refine (disjoint.and sorted).imp_of_mem fun {left right} _ member both => ?_
  obtain ⟨apart, order⟩ := both
  have proper := nonempty right member
  by_contra overlap
  refine apart right.1.start ⟨covers_iff.mpr ⟨order, ?_⟩, covers_iff.mpr ⟨Nat.le_refl _, ?_⟩⟩
  · rw [mapStop] at overlap
    omega
  · omega

/-- The merged list of a normalization consists of maximal runs. -/
theorem mergeSorted_maximal {profile : Profile} {maps merged : List Mapping} (tidy : Tidy 1 maps)
    (sorted : maps.Pairwise fun left right => left.1.start ≤ right.1.start)
    (nonempty : ∀ map ∈ maps, 0 < map.1.len) (merge : mergeSorted profile maps = some merged) :
    MaximalMaps merged := by
  obtain ⟨others, othersEq, mergedTidy, mergedSorted, -⟩ := mergeSorted_spec profile tidy sorted
  obtain rfl := Option.some.inj (merge.symm.trans othersEq)
  have parts : (∀ map ∈ merged, 0 < map.1.len) ∧ merged.IsChain Unjoined := by
    cases maps with
    | nil =>
        obtain rfl := Option.some.inj merge
        exact ⟨by simp, List.IsChain.nil⟩
    | cons first rest => exact (mergeLoop_unjoined tidy.fits nonempty merge).2
  obtain ⟨proper, chain⟩ := parts
  exact maximal_of_isChain (fun map member => Nat.lt_add_of_pos_right (proper map member))
    (ordered_of_sorted mergedTidy.disjoint mergedSorted proper) chain

theorem Proper.zip {mapList : List MemRangeData} {flags : List PageEntryFlags}
    (proper : Proper mapList flags) :
    (∀ map ∈ mapList.zip flags, map.1.Fits) ∧ ∀ map ∈ mapList.zip flags, 0 < map.1.len :=
  ⟨fun map member => proper.fits map.1 (List.of_mem_zip member).1,
    fun map member => proper.nonempty map.1 (List.of_mem_zip member).1⟩

/-- A proper list is normalized to the maximal runs of its map. -/
theorem Proper.normalize {mapList : List MemRangeData} {flags : List PageEntryFlags}
    (proper : Proper mapList flags) (profile : Profile) (sort : UnstableSort) :
    ∃ maps' flags', normalizeMapList profile sort mapList flags = some (maps', flags') ∧
      maps'.length = flags'.length ∧ MaximalMaps (maps'.zip flags') ∧
      (∀ map ∈ maps'.zip flags', map.1.Fits) ∧
      ∀ address, lastFlags (maps'.zip flags') address = lastFlags (mapList.zip flags) address := by
  obtain ⟨fits, nonempty⟩ := proper.zip
  obtain ⟨maps', flags', normalized, lengths, tidy, -, meaning⟩ := normalizeMapList_spec profile
    sort 1 fits fun _ _ => ⟨Nat.one_dvd _, Nat.one_dvd _⟩
  refine ⟨maps', flags', normalized, lengths proper.lengths, ?_, tidy.fits, meaning⟩
  obtain ⟨rfl, same⟩ | ⟨finalList, merged, added, merge, same⟩ := normalizeMapList_cases normalized
  · obtain ⟨rfl, -⟩ := Prod.mk.inj same
    exact ⟨by simp, List.Pairwise.nil⟩
  · have empty : Tidy 1 [] := ⟨List.Pairwise.nil, by simp, by simp⟩
    obtain ⟨others, othersEq, finalTidy, -⟩ := foldlM_addRange_spec profile empty fits
      fun _ _ => ⟨Nat.one_dvd _, Nat.one_dvd _⟩
    obtain rfl := Option.some.inj (added.symm.trans othersEq)
    have collected := foldlM_addRange_nonempty empty (by simp) fits nonempty added
    obtain ⟨rfl, rfl⟩ := Prod.mk.inj same
    rw [List.zip_unzip]
    exact mergeSorted_maximal (finalTidy.perm (sort.perm finalList)) (sort.sorted finalList)
      (fun map member => collected map ((sort.perm finalList).mem_iff.mp member)) merge

/-! ## Uniqueness -/

section Unique

variable {mapList otherList nextList : List MemRangeData}
  {flags otherFlags nextFlags : List PageEntryFlags}

/-- Lists that denote one map are normalized to one list. -/
theorem Proper.normalize_eq (proper : Proper mapList flags) (other : Proper otherList otherFlags)
    (same : ∀ address, lastFlags (otherList.zip otherFlags) address =
      lastFlags (mapList.zip flags) address) (profile profile' : Profile)
    (sort sort' : UnstableSort) :
    normalizeMapList profile' sort' otherList otherFlags =
      normalizeMapList profile sort mapList flags := by
  obtain ⟨left, leftFlags, leftEq, leftLengths, leftMaximal, -, leftMeaning⟩ :=
    other.normalize profile' sort'
  obtain ⟨right, rightFlags, rightEq, rightLengths, rightMaximal, -, rightMeaning⟩ :=
    proper.normalize profile sort
  have injective : ∀ left right : Mapping, left.1.start = right.1.start →
      mapStop left = mapStop right → left.2 = right.2 → left = right := by
    rintro ⟨⟨leftStart, leftLen⟩, leftFlag⟩ ⟨⟨rightStart, rightLen⟩, rightFlag⟩ rfl stops rfl
    obtain rfl : leftLen = rightLen := Nat.add_left_cancel stops
    rfl
  have zips : left.zip leftFlags = right.zip rightFlags := by
    apply leftMaximal.unique injective rightMaximal
    intro address
    rw [← lastFlags_eq_runs, ← lastFlags_eq_runs, leftMeaning, rightMeaning, same]
  have pairs := congrArg List.unzip zips
  rw [List.unzip_zip leftLengths, List.unzip_zip rightLengths] at pairs
  rw [leftEq, rightEq, pairs]

theorem Proper.append (left : Proper mapList flags) (right : Proper nextList nextFlags) :
    Proper (mapList ++ nextList) (flags ++ nextFlags) where
  lengths := by rw [List.length_append, List.length_append, left.lengths, right.lengths]
  fits range member := (List.mem_append.mp member).elim (left.fits range) (right.fits range)
  nonempty range member :=
    (List.mem_append.mp member).elim (left.nonempty range) (right.nonempty range)

theorem lastFlags_zip_append (lengths : mapList.length = flags.length) (address : Nat) :
    lastFlags ((mapList ++ nextList).zip (flags ++ nextFlags)) address =
      (lastFlags (nextList.zip nextFlags) address).or (lastFlags (mapList.zip flags) address) := by
  rw [List.zip_append lengths, lastFlags, lastWriter_append]
  rfl

/-- Maximal runs are again a proper list. -/
theorem proper_of_maximal (lengths : mapList.length = flags.length)
    (maximal : MaximalMaps (mapList.zip flags)) (fits : ∀ map ∈ mapList.zip flags, map.1.Fits) :
    Proper mapList flags where
  lengths := lengths
  fits range member := by
    obtain ⟨flag, paired⟩ := exists_mapping_of_mem lengths member
    exact fits _ paired
  nonempty range member := by
    obtain ⟨flag, paired⟩ := exists_mapping_of_mem lengths member
    exact Nat.lt_add_right_iff_pos.mp (maximal.proper _ paired)

theorem MaximalMaps.isChain {maps : List Mapping} (maximal : MaximalMaps maps) :
    maps.IsChain Unjoined := by
  refine (maximal.separated.imp fun {left right} separated touching => ?_).isChain
  rcases separated with apart | ⟨-, differ⟩
  · exact Nat.ne_of_lt apart touching.1
  · exact differ touching.2

end Unique

/-- `normalize_map_list` is canonical and incremental: no two neighbours of its result could be
joined, lists that denote the same map have the same result, normalizing twice changes nothing, and
a list may be normalized before another one is appended. -/
theorem normalizeMapList_canonical (profile : Profile) (sort : UnstableSort)
    {mapList : List MemRangeData} {flags : List PageEntryFlags} (proper : Proper mapList flags) :
    ∃ maps' flags', normalizeMapList profile sort mapList flags = some (maps', flags') ∧
      maps'.length = flags'.length ∧ (maps'.zip flags').IsChain Unjoined ∧
      (∀ profile' sort' otherList otherFlags, Proper otherList otherFlags →
        (∀ address, lastFlags (otherList.zip otherFlags) address =
          lastFlags (mapList.zip flags) address) →
        normalizeMapList profile' sort' otherList otherFlags = some (maps', flags')) ∧
      (∀ profile' sort', normalizeMapList profile' sort' maps' flags' = some (maps', flags')) ∧
      ∀ profile' sort' nextList nextFlags, Proper nextList nextFlags →
        normalizeMapList profile' sort' (maps' ++ nextList) (flags' ++ nextFlags) =
          normalizeMapList profile' sort' (mapList ++ nextList) (flags ++ nextFlags) := by
  obtain ⟨maps', flags', normalized, lengths, maximal, fits, meaning⟩ :=
    proper.normalize profile sort
  have again : Proper maps' flags' := proper_of_maximal lengths maximal fits
  refine ⟨maps', flags', normalized, lengths, maximal.isChain, ?_, ?_, ?_⟩
  · intro profile' sort' otherList otherFlags other same
    rw [proper.normalize_eq other same profile profile' sort sort', normalized]
  · intro profile' sort'
    rw [proper.normalize_eq again meaning profile profile' sort sort', normalized]
  · intro profile' sort' nextList nextFlags next
    refine (proper.append next).normalize_eq (again.append next) (fun address => ?_) _ _ _ _
    rw [lastFlags_zip_append lengths, lastFlags_zip_append proper.lengths, meaning]

/-- A range in two overlapping parts, and in one. -/
theorem normalizeMapList_canonical_overlap :
    normalizeMapList .dev stableSort [⟨0x1000, 0x3000⟩, ⟨0x3000, 0x2000⟩] [.present, .present] =
      normalizeMapList .release stableSort [⟨0x1000, 0x4000⟩] [.present] := by
  have proper : Proper [⟨0x1000, 0x4000⟩] [.present] := ⟨rfl, by decide, by decide⟩
  have other : Proper [⟨0x1000, 0x3000⟩, ⟨0x3000, 0x2000⟩] [.present, .present] :=
    ⟨rfl, by decide, by decide⟩
  obtain ⟨maps', flags', normalized, -, -, unique, -⟩ :=
    normalizeMapList_canonical .release stableSort proper
  rw [normalized]
  refine unique .dev stableSort _ _ other fun address => ?_
  simp only [lastFlags, lastWriter, List.zip_cons_cons, List.zip_nil_right, covers,
    MemRangeData.contains, Option.none_or]
  by_cases low : 0x1000 ≤ address ∧ address < 0x4000 <;>
    by_cases high : 0x3000 ≤ address ∧ address < 0x5000 <;> simp [low, high] <;> omega

end Okots
