import Mathlib.Data.Finset.Dedup
import Mathlib.Data.List.Lex
import Mathlib.Data.List.Sort

/-!
# The fingerprint of the source tree

The build script hashes the files of a directory in the order of their paths, for each file the
bytes of its relative path and then its contents.  Nothing in the stream says where a path or a file
ends, so bytes can move between them without a change of the stream.  Only together with the
lengths of the paths and the files does the stream determine the directory.
-/

namespace Okots.DirHash

/-- A file found by the walk: its path below the directory, and its bytes. -/
structure SourceFile where
  path : String
  contents : List UInt8
  deriving DecidableEq

/-- The bytes of a path that is valid UTF-8. -/
def pathBytes (path : String) : List UInt8 := path.toUTF8.data.toList

/-- The components between the slashes. -/
def components (file : SourceFile) : List (List Nat) :=
  ((pathBytes file.path).map UInt8.toNat).splitOn 47

/-- `sort_unstable_by(|a, b| a.path().cmp(b.path()))`.  Paths are compared by their components. -/
structure PathSort where
  /-- The sorted list. -/
  byPath : List SourceFile → List SourceFile
  perm : ∀ entries, (byPath entries).Perm entries
  sorted : ∀ entries, (byPath entries).Pairwise fun left right => components left ≤ components right

/-- How many bytes each `read` into the buffer returns; none only at the end of the file. -/
structure FileReader where
  /-- The bytes read, given the rest of the file. -/
  count : List UInt8 → Nat
  buffered : ∀ rest, count rest ≤ 8192
  available : ∀ rest, count rest ≤ rest.length
  progress : ∀ rest, count rest = 0 → rest = []

/-- The loop that reads a file and passes each piece to the hasher. -/
def readLoop (reader : FileReader) (rest : List UInt8) : List (List UInt8) :=
  if reader.count rest = 0 then
    []
  else
    rest.take (reader.count rest) :: readLoop reader (rest.drop (reader.count rest))
termination_by rest.length
decreasing_by
  have := reader.available rest
  rw [List.length_drop]
  omega

/-- The calls of `update` for a list of files found by the walk. -/
def hasherUpdates (sort : PathSort) (reader : FileReader) (entries : List SourceFile) :
    List (List UInt8) :=
  (sort.byPath entries).flatMap fun file => pathBytes file.path :: readLoop reader file.contents

/-- The bytes that `calculate_dir_hash` feeds to the hasher. -/
def hasherStream (sort : PathSort) (reader : FileReader) (entries : List SourceFile) :
    List UInt8 :=
  (hasherUpdates sort reader entries).flatten

/-- The lengths of the paths and of the files, in the order of the stream. -/
def layout (sort : PathSort) (entries : List SourceFile) : List (Nat × Nat) :=
  (sort.byPath entries).map fun file => ((pathBytes file.path).length, file.contents.length)

/-! ## The stream -/

theorem flatten_readLoop (reader : FileReader) (rest : List UInt8) :
    (readLoop reader rest).flatten = rest := by
  fun_induction readLoop reader rest with
  | case1 rest done => rw [reader.progress rest done, List.flatten_nil]
  | case2 rest more induction => rw [List.flatten_cons, induction, List.take_append_drop]

/-- The path and the contents of every file. -/
def blocks (files : List SourceFile) : List (List UInt8) :=
  files.flatMap fun file => [pathBytes file.path, file.contents]

/-- The stream does not depend on how the files are read. -/
theorem hasherStream_eq (sort : PathSort) (reader : FileReader) (entries : List SourceFile) :
    hasherStream sort reader entries = (blocks (sort.byPath entries)).flatten := by
  rw [hasherStream, hasherUpdates, blocks]
  induction sort.byPath entries with
  | nil => rfl
  | cons file rest induction =>
      simp only [List.flatMap_cons, List.flatten_append, induction, List.flatten_cons,
        flatten_readLoop, List.flatten_nil, List.append_nil]

theorem pathBytes_injective : Function.Injective pathBytes := by
  intro left right same
  have bytes : left.toUTF8 = right.toUTF8 := ByteArray.ext (Array.toList_inj.mp same)
  exact String.toByteArray_inj.mp bytes

theorem blocks_injective : Function.Injective blocks := by
  intro left right same
  induction left generalizing right with
  | nil =>
      cases right with
      | nil => rfl
      | cons file rest => simp [blocks] at same
  | cons file rest induction =>
      cases right with
      | nil => simp [blocks] at same
      | cons other others =>
          simp only [blocks, List.flatMap_cons, List.cons_append, List.nil_append,
            List.cons.injEq] at same
          obtain ⟨path, contents, more⟩ := same
          have head : file = other := by
            cases file
            cases other
            rw [SourceFile.mk.injEq]
            exact ⟨pathBytes_injective path, contents⟩
          rw [head, induction more]

theorem length_blocks (files : List SourceFile) :
    (blocks files).map List.length =
      (files.map fun file => ((pathBytes file.path).length, file.contents.length)).flatMap
        fun lengths => [lengths.1, lengths.2] := by
  simp [blocks, List.map_flatMap, List.flatMap_map]

/-! ## The order of the files -/

theorem components_injective {left right : SourceFile}
    (same : components left = components right) : left.path = right.path := by
  have bytes := congrArg (List.intercalate [47]) same
  rw [components, components, List.intercalate_splitOn, List.intercalate_splitOn] at bytes
  exact pathBytes_injective (List.map_injective_iff.mpr (fun _ _ => UInt8.toNat_inj.mp) bytes)

/-- The paths leave one order for the files only. -/
theorem byPath_eq_of_sorted (sort : PathSort) {entries ordered : List SourceFile}
    (distinct : (entries.map SourceFile.path).Nodup) (perm : entries.Perm ordered)
    (sorted : ordered.Pairwise fun left right => components left ≤ components right) :
    sort.byPath entries = ordered := by
  refine ((sort.perm entries).trans perm).eq_of_pairwise ?_ (sort.sorted entries) sorted
  intro first second inSorted inOrdered before behind
  exact List.inj_on_of_nodup_map distinct ((sort.perm entries).mem_iff.mp inSorted)
    (perm.mem_iff.mpr inOrdered) (components_injective (le_antisymm before behind))

/-- Two walks over the same files are sorted into the same list. -/
theorem byPath_eq_of_perm (sort other : PathSort) {left right : List SourceFile}
    (distinct : (left.map SourceFile.path).Nodup) (perm : left.Perm right) :
    sort.byPath left = other.byPath right :=
  byPath_eq_of_sorted sort distinct (perm.trans (other.perm right).symm) (other.sorted right)

/-- Two sets of files with the same stream are equal exactly when the paths and the files have the
same lengths. -/
theorem hasherStream_determines_iff (sort otherSort : PathSort) (reader otherReader : FileReader)
    {left right : List SourceFile} (distinct : (left.map SourceFile.path).Nodup)
    (otherDistinct : (right.map SourceFile.path).Nodup)
    (same : hasherStream sort reader left = hasherStream otherSort otherReader right) :
    left.toFinset = right.toFinset ↔ layout sort left = layout otherSort right := by
  constructor
  · intro sets
    have perm := List.perm_of_nodup_nodup_toFinset_eq distinct.of_map otherDistinct.of_map sets
    rw [layout, layout, byPath_eq_of_perm sort otherSort distinct perm]
  · intro lengths
    rw [hasherStream_eq, hasherStream_eq] at same
    have blocksEq : blocks (sort.byPath left) = blocks (otherSort.byPath right) := by
      rw [List.eq_iff_flatten_eq]
      refine ⟨same, ?_⟩
      rw [length_blocks, length_blocks]
      exact congrArg _ lengths
    have files := blocks_injective blocksEq
    have perm : left.Perm right :=
      (sort.perm left).symm.trans (files ▸ otherSort.perm right)
    exact List.toFinset_eq_of_perm left right perm

/-- A sort and a reader. -/
def mergeSortByPath : PathSort where
  byPath entries := entries.mergeSort fun left right => decide (components left ≤ components right)
  perm entries := List.mergeSort_perm entries _
  sorted entries := by
    have transitive (first second third : SourceFile) :
        decide (components first ≤ components second) = true →
          decide (components second ≤ components third) = true →
          decide (components first ≤ components third) = true := by
      simpa using le_trans
    have total (first second : SourceFile) : (decide (components first ≤ components second) ||
        decide (components second ≤ components first)) = true := by
      simpa using le_total _ _
    exact (List.pairwise_mergeSort transitive total entries).imp of_decide_eq_true

def fullBufferReader : FileReader where
  count rest := min 8192 rest.length
  buffered _ := Nat.min_le_left _ _
  available _ := Nat.min_le_right _ _
  progress rest done := List.eq_nil_of_length_eq_zero (by omega)

/-- Two walks over the same two files. -/
theorem hasherStream_determines_iff_walks :
    [SourceFile.mk "main.rs" [102, 110], ⟨"arch/trampoline.asm", []⟩].toFinset =
        [SourceFile.mk "arch/trampoline.asm" [], ⟨"main.rs", [102, 110]⟩].toFinset ↔
      layout mergeSortByPath [⟨"main.rs", [102, 110]⟩, ⟨"arch/trampoline.asm", []⟩] =
        layout mergeSortByPath [⟨"arch/trampoline.asm", []⟩, ⟨"main.rs", [102, 110]⟩] := by
  refine hasherStream_determines_iff _ _ fullBufferReader fullBufferReader (by decide)
    (by decide) ?_
  rw [hasherStream_eq, hasherStream_eq, byPath_eq_of_perm _ mergeSortByPath (by decide)
    (List.Perm.swap ..)]

/-- A byte moves from the contents of a file to its name, or from one file to the next, and the
stream is the same. -/
theorem hasherStream_not_determines :
    ([SourceFile.mk "a" [98]].toFinset ≠ [SourceFile.mk "ab" []].toFinset ∧
      ∀ sort reader, hasherStream sort reader [⟨"a", [98]⟩] =
        hasherStream sort reader [⟨"ab", []⟩]) ∧
    ([SourceFile.mk "a" [99], ⟨"c", []⟩].toFinset ≠ [SourceFile.mk "a" [], ⟨"c", [99]⟩].toFinset ∧
      ∀ sort reader, hasherStream sort reader [⟨"a", [99]⟩, ⟨"c", []⟩] =
        hasherStream sort reader [⟨"a", []⟩, ⟨"c", [99]⟩]) := by
  refine ⟨⟨by decide, fun sort reader => ?_⟩, ⟨by decide, fun sort reader => ?_⟩⟩
  · rw [hasherStream_eq, hasherStream_eq, byPath_eq_of_sorted sort (by decide) .rfl (by decide),
      byPath_eq_of_sorted sort (by decide) .rfl (by decide)]
    decide
  · rw [hasherStream_eq, hasherStream_eq, byPath_eq_of_sorted sort (by decide) .rfl (by decide),
      byPath_eq_of_sorted sort (by decide) .rfl (by decide)]
    decide

end Okots.DirHash
