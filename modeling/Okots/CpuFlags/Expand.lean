import Okots.UtilTypes

/-!
# The macro `define_cpu_flags`

The macro numbers the leaves of a tree of names from left to right with a `u32` counter.  Each leaf
becomes a variant of the generated enumeration, named after its path in the tree, and two arrays of
`u64` are sized to hold one bit for each leaf.
-/

namespace Okots.CpuFlags

/-- The input of the macro: names, and named groups. -/
inductive FlagTree where
  | leaf (name : String)
  | node (name : String) (body : List FlagTree)

/-- What `expand_tree` updates: the next id, and the variants found so far with their ids. -/
structure Expansion where
  idCounter : Nat
  flatList : List (Nat × String)

mutual

/-- The function `expand_tree` inside the macro.  The name of a leaf is put behind the names of its
groups. -/
def expandTree (profile : Profile) : FlagTree → String → Expansion → Option Expansion
  | .leaf name, path, expansion => do
      let id := expansion.idCounter
      let next ← uintAdd 32 profile expansion.idCounter 1
      let variantName := path ++ name
      return { idCounter := next, flatList := expansion.flatList ++ [(id, variantName)] }
  | .node name body, path, expansion =>
      let newPath := path ++ name ++ "_"
      expandTrees profile body newPath expansion

/-- The children of a group are expanded in order. -/
def expandTrees (profile : Profile) : List FlagTree → String → Expansion → Option Expansion
  | [], _, expansion => some expansion
  | tree :: rest, path, expansion => do
      let after ← expandTree profile tree path expansion
      expandTrees profile rest path after

end

/-- The generated items: the variants with their discriminants, and the size of the arrays. -/
structure DefinedFlags where
  flatList : List (Nat × String)
  numU64 : Nat
  deriving DecidableEq, Repr

/-- The macro.  It panics when the counter overflows in a build with overflow checks. -/
def defineCpuFlags (profile : Profile) (flags : List FlagTree) : Option DefinedFlags := do
  let expansion ← expandTrees profile flags "" { idCounter := 0, flatList := [] }
  let count := expansion.idCounter
  let numU64 := (count + 63) / 64
  return { flatList := expansion.flatList, numU64 }

/-! ## Leaves -/

mutual

/-- The leaves of a tree from left to right, each with the groups around it. -/
def FlagTree.leaves : FlagTree → List (List String × String)
  | .leaf name => [([], name)]
  | .node name body => (leavesAll body).map fun leaf => (name :: leaf.1, leaf.2)

/-- The leaves of a list of trees. -/
def leavesAll : List FlagTree → List (List String × String)
  | [] => []
  | tree :: rest => tree.leaves ++ leavesAll rest

end

/-- The name of the variant for a leaf. -/
def variantName (leaf : List String × String) : String :=
  leaf.1.foldr (fun group rest => group ++ "_" ++ rest) leaf.2

theorem variantName_group (name : String) (leaf : List String × String) :
    variantName (name :: leaf.1, leaf.2) = name ++ "_" ++ variantName leaf := rfl

/-- The counter has not passed its last value, or it has just wrapped. -/
def Counts (profile : Profile) (count : Nat) : Prop :=
  count < 2 ^ 32 ∨ profile = .release ∧ count = 2 ^ 32

theorem Counts.mono {profile : Profile} {count less : Nat} (counts : Counts profile count)
    (order : less ≤ count) : Counts profile less := by
  rcases counts with small | ⟨wraps, full⟩
  · exact .inl (by omega)
  · rcases Nat.lt_or_eq_of_le order with smaller | rfl
    · exact .inl (by omega)
    · exact .inr ⟨wraps, full⟩

theorem Counts.next {profile : Profile} {count : Nat} (counts : Counts profile (count + 1)) :
    uintAdd 32 profile count 1 = some ((count + 1) % 2 ^ 32) := by
  rcases counts with small | ⟨rfl, full⟩
  · rw [uintAdd_of_lt profile small, Nat.mod_eq_of_lt small]
  · rw [uintAdd, uintWrap, if_neg (by omega)]

/-- What the leaves add to the list of variants. -/
def numbered (count : Nat) (path : String) (leaves : List (List String × String)) :
    List (Nat × String) :=
  (List.range' count leaves.length).zip (leaves.map fun leaf => path ++ variantName leaf)

theorem numbered_append (count : Nat) (path : String) (left right : List (List String × String)) :
    numbered count path (left ++ right) =
      numbered count path left ++ numbered (count + left.length) path right := by
  rw [numbered, List.length_append, ← List.range'_append_1, List.map_append,
    List.zip_append (by simp)]
  rfl

theorem numbered_group (count : Nat) (path name : String) (leaves : List (List String × String)) :
    numbered count path (leaves.map fun leaf => (name :: leaf.1, leaf.2)) =
      numbered count (path ++ name ++ "_") leaves := by
  simp only [numbered, List.length_map, List.map_map, Function.comp_def, variantName_group,
    String.append_assoc]

mutual

/-- A tree numbers its leaves from the counter on. -/
theorem expandTree_eq (profile : Profile) (tree : FlagTree) (path : String) (count : Nat)
    (flat : List (Nat × String)) (counts : Counts profile (count + tree.leaves.length)) :
    expandTree profile tree path ⟨count % 2 ^ 32, flat⟩ =
      some ⟨(count + tree.leaves.length) % 2 ^ 32, flat ++ numbered count path tree.leaves⟩ := by
  cases tree with
  | leaf name =>
      have single : (FlagTree.leaf name).leaves = [([], name)] := by rw [FlagTree.leaves]
      rw [single] at counts ⊢
      have small : count < 2 ^ 32 := by
        rcases counts with small | ⟨-, full⟩ <;> simp only [List.length_singleton] at * <;> omega
      rw [expandTree, Nat.mod_eq_of_lt small, counts.next]
      rfl
  | node name body =>
      have grouped : (FlagTree.node name body).leaves =
          (leavesAll body).map fun leaf => (name :: leaf.1, leaf.2) := by rw [FlagTree.leaves]
      rw [grouped, List.length_map] at counts ⊢
      rw [expandTree, numbered_group]
      exact expandTrees_eq profile body (path ++ name ++ "_") count flat counts

/-- So does a list of trees. -/
theorem expandTrees_eq (profile : Profile) (trees : List FlagTree) (path : String) (count : Nat)
    (flat : List (Nat × String)) (counts : Counts profile (count + (leavesAll trees).length)) :
    expandTrees profile trees path ⟨count % 2 ^ 32, flat⟩ =
      some ⟨(count + (leavesAll trees).length) % 2 ^ 32,
        flat ++ numbered count path (leavesAll trees)⟩ := by
  cases trees with
  | nil => simp [expandTrees, leavesAll, numbered]
  | cons tree rest =>
      have split : leavesAll (tree :: rest) = tree.leaves ++ leavesAll rest := by rw [leavesAll]
      rw [split, List.length_append, ← Nat.add_assoc] at counts
      rw [split, expandTrees, expandTree_eq profile tree path count flat (counts.mono (by omega))]
      rw [Option.bind_eq_bind, Option.bind_some, expandTrees_eq profile rest path _ _ counts,
        numbered_append, List.length_append, Nat.add_assoc, List.append_assoc]

end

/-! ## Overflow checks -/

mutual

/-- With overflow checks, a tree that is expanded has left the counter in its range. -/
theorem expandTree_checked (tree : FlagTree) {path : String} {expansion after : Expansion}
    (small : expansion.idCounter < 2 ^ 32)
    (run : expandTree .dev tree path expansion = some after) :
    after.idCounter = expansion.idCounter + tree.leaves.length ∧ after.idCounter < 2 ^ 32 := by
  cases tree with
  | leaf name =>
      rw [expandTree, Option.bind_eq_bind, Option.bind_eq_some_iff] at run
      obtain ⟨next, counted, made⟩ := run
      have fits : expansion.idCounter + 1 < 2 ^ 32 := by
        by_contra tooMany
        have refused := (uintAdd_eq_none_iff .dev).mpr ⟨rfl, Nat.not_lt.mp tooMany⟩
        cases counted.symm.trans refused
      rw [uintAdd_of_lt .dev fits] at counted
      obtain rfl := Option.some.inj counted
      obtain rfl := Option.some.inj made
      rw [FlagTree.leaves]
      exact ⟨rfl, fits⟩
  | node name body =>
      rw [expandTree] at run
      rw [FlagTree.leaves, List.length_map]
      exact expandTrees_checked body small run

/-- So has a list of trees. -/
theorem expandTrees_checked (trees : List FlagTree) {path : String} {expansion after : Expansion}
    (small : expansion.idCounter < 2 ^ 32)
    (run : expandTrees .dev trees path expansion = some after) :
    after.idCounter = expansion.idCounter + (leavesAll trees).length ∧
      after.idCounter < 2 ^ 32 := by
  cases trees with
  | nil =>
      rw [expandTrees] at run
      obtain rfl := Option.some.inj run
      rw [leavesAll]
      exact ⟨rfl, small⟩
  | cons tree rest =>
      rw [expandTrees, Option.bind_eq_bind, Option.bind_eq_some_iff] at run
      obtain ⟨between, first, others⟩ := run
      obtain ⟨count, bound⟩ := expandTree_checked tree small first
      obtain ⟨total, fits⟩ := expandTrees_checked rest bound others
      rw [leavesAll, List.length_append, ← Nat.add_assoc, ← count]
      exact ⟨total, fits⟩

end

/-- With overflow checks, an accepted input has fewer than 2^32 leaves. -/
theorem length_lt_of_checked {trees : List FlagTree} {flags : DefinedFlags}
    (accepted : defineCpuFlags .dev trees = some flags) : (leavesAll trees).length < 2 ^ 32 := by
  rw [defineCpuFlags, Option.bind_eq_bind, Option.bind_eq_some_iff] at accepted
  obtain ⟨expansion, run, -⟩ := accepted
  obtain ⟨total, fits⟩ := expandTrees_checked trees (Nat.two_pow_pos 32) run
  rw [total] at fits
  exact Nat.lt_of_le_of_lt (Nat.le_add_left _ _) fits

/-- What the macro generates. -/
theorem defineCpuFlags_eq {profile : Profile} {trees : List FlagTree}
    (counts : Counts profile (leavesAll trees).length) :
    defineCpuFlags profile trees =
      some { flatList := (List.range (leavesAll trees).length).zip
               ((leavesAll trees).map variantName)
             numU64 := ((leavesAll trees).length % 2 ^ 32 + 63) / 64 } := by
  have expanded := expandTrees_eq profile trees "" 0 [] (by rwa [Nat.zero_add])
  rw [Nat.zero_mod] at expanded
  rw [defineCpuFlags, expanded]
  simp [numbered, List.range_eq_range']

end Okots.CpuFlags
