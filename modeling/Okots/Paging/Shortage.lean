import Okots.Paging.Translation
import Mathlib.Algebra.BigOperators.Intervals
import Mathlib.Order.Interval.Finset.Fin

/-!
# Running out of frames

An update that turns one tree into another visits the entries in order and needs a frame for every
table that only the new tree has.  When the allocator refuses a request, the entries visited so far
are those of the new tree.  The tree still translates as before, and no frame is lost, when these
entries ask for nothing new and the subtree under construction has no finished table.
-/

namespace Okots

open PageLevel

/-! ## Positions in a sequence of requests -/

section Requests

variable {ι : Type*} [LinearOrder ι] [LocallyFiniteOrderBot ι]

theorem sum_Iio_add (requests : ι → Nat) (index : ι) :
    ∑ earlier ∈ Finset.Iio index, requests earlier + requests index =
      ∑ earlier ∈ Finset.Iic index, requests earlier := by
  rw [add_comm, ← Finset.sum_insert (by simp), Finset.Iio_insert]

/-- A request belongs to one position only. -/
theorem request_unique (requests : ι → Nat) {left right : ι} {leftServed rightServed : Nat}
    (inLeft : leftServed < requests left) (inRight : rightServed < requests right)
    (same : ∑ index ∈ Finset.Iio left, requests index + leftServed =
      ∑ index ∈ Finset.Iio right, requests index + rightServed) :
    left = right ∧ leftServed = rightServed := by
  have ordered : ∀ {first second : ι}, first < second →
      ∑ index ∈ Finset.Iio first, requests index + requests first ≤
        ∑ index ∈ Finset.Iio second, requests index := by
    intro first second less
    rw [sum_Iio_add]
    exact Finset.sum_le_sum_of_subset fun index member =>
      Finset.mem_Iio.mpr (lt_of_le_of_lt (Finset.mem_Iic.mp member) less)
  rcases lt_trichotomy left right with less | rfl | more
  · have bound := ordered less
    omega
  · exact ⟨rfl, by omega⟩
  · have bound := ordered more
    omega

/-- A request of one position is a request of the whole sequence. -/
theorem request_lt [Fintype ι] (requests : ι → Nat) {index : ι} {served : Nat}
    (inside : served < requests index) :
    ∑ earlier ∈ Finset.Iio index, requests earlier + served < ∑ index, requests index := by
  have bound : ∑ earlier ∈ Finset.Iic index, requests earlier ≤ ∑ index, requests index :=
    Finset.sum_le_sum_of_subset (Finset.subset_univ _)
  rw [← sum_Iio_add] at bound
  omega

end Requests

/-! ## Counting tables -/

namespace PageTree

/-- Number of tables. -/
def tables : PageTree → Nat
  | .absent => 0
  | .leaf _ => 0
  | .relay _ entries => 1 + ∑ index, (entries index).tables

/-- Number of tables of the second tree where the first tree has none. -/
def missing : PageTree → PageTree → Nat
  | .relay _ old, .relay _ new => ∑ index, missing (old index) (new index)
  | .relay _ _, .absent => 0
  | .relay _ _, .leaf _ => 0
  | .absent, new => new.tables
  | .leaf _, new => new.tables

theorem tables_leafTree (entry : BitVec 64) : (leafTree entry).tables = 0 := by
  rw [leafTree]
  split <;> rfl

theorem missing_of_tables_eq_zero {old : PageTree} (plain : old.tables = 0) (new : PageTree) :
    missing old new = new.tables := by
  cases old with
  | absent => rfl
  | leaf => rfl
  | relay => simp [tables] at plain

theorem missing_eq_zero {new : PageTree} (plain : new.tables = 0) (old : PageTree) :
    missing old new = 0 := by
  cases new with
  | relay => simp [tables] at plain
  | absent | leaf => cases old <;> rfl

/-- A tree lacks none of its own tables. -/
theorem missing_self (tree : PageTree) : missing tree tree = 0 := by
  induction tree with
  | absent | leaf => rfl
  | relay flags entries induction =>
      rw [missing]
      exact Finset.sum_eq_zero fun index _ => induction index

/-- Both trees with the tables that only the other one has. -/
theorem tables_add_missing (old : PageTree) :
    ∀ new, old.tables + missing old new = new.tables + missing new old := by
  induction old with
  | absent =>
      intro new
      rw [missing_of_tables_eq_zero rfl, missing_eq_zero rfl, tables, zero_add, add_zero]
  | leaf entry =>
      intro new
      rw [missing_of_tables_eq_zero rfl, missing_eq_zero rfl, tables, zero_add, add_zero]
  | relay flags entries induction =>
      intro new
      cases new with
      | relay _ others =>
          have balanced := Finset.sum_congr (rfl : (Finset.univ : Finset (Fin 512)) = _)
            fun index _ => induction index (others index)
          rw [Finset.sum_add_distrib, Finset.sum_add_distrib] at balanced
          simp only [tables, missing]
          omega
      | absent | leaf =>
          rw [missing_eq_zero rfl, missing_of_tables_eq_zero rfl]
          simp [tables]

theorem tables_erasePat (tree : PageTree) :
    ∀ level, (erasePat level tree).tables = tree.tables := by
  induction tree with
  | absent => exact fun _ => rfl
  | leaf => exact fun _ => rfl
  | relay flags entries induction =>
      intro level
      simp only [erasePat, tables, induction]

end PageTree

open PageTree

/-! ## Equal translations -/

/-- Two entries at `level` translate every address alike. -/
def SameWalk (level : PageLevel) (rights : Rights) (left right : PageTree) : Prop :=
  ∀ vaddr, treeWalk left level vaddr rights = treeWalk right level vaddr rights

/-- An entry translates by the low bits of an address only. -/
theorem treeWalk_mod (tree : PageTree) :
    ∀ level vaddr rights, treeWalk tree level (vaddr % level.entrySize) rights =
      treeWalk tree level vaddr rights := by
  induction tree with
  | absent => exact fun _ _ _ => rfl
  | leaf entry =>
      intro level vaddr rights
      rw [treeWalk, treeWalk, leafTranslation, leafTranslation, Nat.mod_mod]
  | relay flags entries induction =>
      intro level vaddr rights
      rw [treeWalk, treeWalk]
      cases step : level.down with
      | none => rfl
      | some next =>
          have size := entrySize_down step
          have index : next.getIndex (vaddr % level.entrySize) = next.getIndex vaddr := by
            simp only [PageLevel.getIndex, Nat.shiftRight_eq_div_pow, ← entrySize_eq, size,
              Nat.mul_comm 512, Nat.mod_mul_right_div_self, Nat.mod_mod]
          simp only [index]
          rw [← induction, size, Nat.mul_comm, Nat.mod_mul_right_mod, induction]

theorem getIndex_mul_add (level : PageLevel) (index : Fin 512) {offset : Nat}
    (inside : offset < level.entrySize) :
    level.getIndex (index * level.entrySize + offset) = index := by
  have positive : 0 < level.entrySize := by omega
  apply Fin.ext
  simp only [PageLevel.getIndex, Nat.shiftRight_eq_div_pow, ← entrySize_eq]
  rw [Nat.mul_comm, Nat.mul_add_div positive, Nat.div_eq_of_lt inside, add_zero,
    Nat.mod_eq_of_lt index.isLt]

/-- Two tables translate every address alike when their entries do. -/
theorem sameWalk_entries {level : PageLevel} {rights : Rights} {left right : Fin 512 → PageTree} :
    (∀ vaddr, treeWalk (left (level.getIndex vaddr)) level vaddr rights =
        treeWalk (right (level.getIndex vaddr)) level vaddr rights) ↔
      ∀ index, SameWalk level rights (left index) (right index) := by
  constructor
  · intro same index vaddr
    have positive : 0 < level.entrySize := by rw [entrySize_eq]; positivity
    have chosen := same (index * level.entrySize + vaddr % level.entrySize)
    rw [getIndex_mul_add level index (Nat.mod_lt _ positive)] at chosen
    rw [← treeWalk_mod, ← treeWalk_mod (right index), ← Nat.mod_mod vaddr,
      ← Nat.mul_add_mod_self_right index level.entrySize, treeWalk_mod, treeWalk_mod]
    exact chosen
  · intro same vaddr
    exact same _ vaddr

theorem sameWalk_relay {level next : PageLevel} {rights : Rights} (step : level.down = some next)
    (flags : BitVec 64) {left right : Fin 512 → PageTree} :
    SameWalk level rights (.relay flags left) (.relay flags right) ↔
      ∀ index, SameWalk next (rights.meet flags) (left index) (right index) := by
  rw [← sameWalk_entries]
  refine forall_congr' fun vaddr => ?_
  rw [treeWalk, treeWalk, step]

/-- The PAT bits make no difference. -/
theorem sameWalk_of_erasePat {level : PageLevel} {rights : Rights} {tree left right : PageTree}
    (same : erasePat level left = erasePat level right) :
    SameWalk level rights left tree ↔ SameWalk level rights right tree := by
  refine forall_congr' fun vaddr => ?_
  rw [← treeWalk_erasePat left, same, treeWalk_erasePat]

/-! ## Harmless refusals -/

/-- A builder of the tree that is refused a frame after `served` others has finished no table. -/
inductive NoneFinished : Nat → PageTree → Prop
  | refused (flags : BitVec 64) (entries : Fin 512 → PageTree) :
      NoneFinished 0 (.relay flags entries)
  | under {flags : BitVec 64} {entries : Fin 512 → PageTree} {served : Nat} (index : Fin 512)
      (first : ∀ earlier < index, (entries earlier).tables = 0)
      (inside : NoneFinished served (entries index)) :
      NoneFinished (served + 1) (.relay flags entries)

/-- The new entry translates as the old one and needs all of its tables. -/
structure Neutral (level : PageLevel) (rights : Rights) (old new : PageTree) : Prop where
  walk : SameWalk level rights old new
  kept : missing new old = 0

/-- Number of requests for the entries before `index`. -/
def earlierRequests (old new : Fin 512 → PageTree) (index : Fin 512) : Nat :=
  ∑ earlier ∈ Finset.Iio index, missing (old earlier) (new earlier)

/-- A refusal after `served` frames does no harm to an update of a table from `old` to `new`, with
`rights` on the way to the table: it comes at an entry all of whose predecessors are neutral, and
there it meets a creation that has finished no table, or an update of the table below to which the
same applies. -/
inductive Harmless : PageLevel → Rights → Nat → (Fin 512 → PageTree) → (Fin 512 → PageTree) → Prop
  | create {level : PageLevel} {rights : Rights} {served : Nat} {old new : Fin 512 → PageTree}
      (index : Fin 512) (neutral : ∀ earlier < index, Neutral level rights (old earlier)
        (new earlier))
      (plain : (old index).tables = 0) (inside : NoneFinished served (new index)) :
      Harmless level rights (earlierRequests old new index + served) old new
  | update {level next : PageLevel} {rights : Rights} {served : Nat}
      {old new below wanted : Fin 512 → PageTree} {flags relayFlags : BitVec 64}
      (index : Fin 512) (neutral : ∀ earlier < index, Neutral level rights (old earlier)
        (new earlier))
      (step : level.down = some next) (oldEntry : old index = .relay flags below)
      (newEntry : new index = .relay relayFlags wanted)
      (inside : Harmless next (rights.meet flags) served below wanted) :
      Harmless level rights (earlierRequests old new index + served) old new

theorem NoneFinished.lt_tables {served : Nat} {tree : PageTree} (none : NoneFinished served tree) :
    served < tree.tables := by
  induction none with
  | refused => simp [tables]
  | @under flags entries served index _ _ induction =>
      have bound := Finset.single_le_sum (fun index _ => Nat.zero_le (entries index).tables)
        (Finset.mem_univ index)
      rw [tables]
      omega

theorem Harmless.lt_missing {level : PageLevel} {rights : Rights} {served : Nat}
    {old new : Fin 512 → PageTree} (harmless : Harmless level rights served old new) :
    served < ∑ index, missing (old index) (new index) := by
  induction harmless with
  | @create _ _ _ old new index _ plain inside =>
      refine request_lt (fun index => missing (old index) (new index)) ?_
      rw [missing_of_tables_eq_zero plain]
      exact inside.lt_tables
  | @update _ _ _ _ old new _ _ _ _ index _ _ oldEntry newEntry _ induction =>
      refine request_lt (fun index => missing (old index) (new index)) ?_
      rw [oldEntry, newEntry, missing]
      exact induction

/-- Before the entry of a harmless refusal, which needs a table, all entries are neutral. -/
theorem Harmless.exists_entry {level : PageLevel} {rights : Rights} {served : Nat}
    {old new : Fin 512 → PageTree} (harmless : Harmless level rights served old new) :
    ∃ index, (new index).tables ≠ 0 ∧
      ∀ earlier < index, Neutral level rights (old earlier) (new earlier) := by
  cases harmless with
  | create index neutral _ inside => exact ⟨index, Nat.ne_zero_of_lt inside.lt_tables, neutral⟩
  | update index neutral _ _ newEntry _ => exact ⟨index, by simp [newEntry, tables], neutral⟩

/-! ## Refusals at a known entry -/

/-- A creation that is refused a frame below the entry `index`. -/
theorem noneFinished_relay_iff {flags : BitVec 64} {entries : Fin 512 → PageTree} {served : Nat}
    {index : Fin 512} (inside : served < (entries index).tables) :
    NoneFinished (∑ earlier ∈ Finset.Iio index, (entries earlier).tables + served + 1)
        (.relay flags entries) ↔
      ∑ earlier ∈ Finset.Iio index, (entries earlier).tables = 0 ∧
        NoneFinished served (entries index) := by
  constructor
  · intro none
    generalize total : ∑ earlier ∈ Finset.Iio index, (entries earlier).tables + served + 1 = sum
      at none
    cases none with
    | refused => omega
    | @under _ _ found other first below =>
        have nothing : ∑ earlier ∈ Finset.Iio other, (entries earlier).tables = 0 :=
          Finset.sum_eq_zero fun earlier member => first earlier (Finset.mem_Iio.mp member)
        obtain ⟨rfl, rfl⟩ := request_unique (fun index => (entries index).tables) inside
          below.lt_tables (by omega)
        exact ⟨nothing, below⟩
  · rintro ⟨nothing, below⟩
    rw [nothing, zero_add]
    refine .under index (fun earlier less => ?_) below
    exact Finset.sum_eq_zero_iff.mp nothing earlier (Finset.mem_Iio.mpr less)

section Entry

variable {level next : PageLevel} {rights : Rights} {served : Nat}
  {old new below wanted : Fin 512 → PageTree} {flags relayFlags : BitVec 64} {index : Fin 512}

/-- Which entry a harmless refusal comes at. -/
theorem Harmless.entry
    (harmless : Harmless level rights (earlierRequests old new index + served) old new)
    (inside : served < missing (old index) (new index)) :
    (∀ earlier < index, Neutral level rights (old earlier) (new earlier)) ∧
      ((old index).tables = 0 ∧ NoneFinished served (new index) ∨
        ∃ next flags relayFlags below wanted, level.down = some next ∧
          old index = .relay flags below ∧ new index = .relay relayFlags wanted ∧
          Harmless next (rights.meet flags) served below wanted) := by
  generalize total : earlierRequests old new index + served = sum at harmless
  cases harmless with
  | @create _ _ found _ _ other neutral plain finished =>
      have lies : found < missing (old other) (new other) := by
        rw [missing_of_tables_eq_zero plain]
        exact finished.lt_tables
      obtain ⟨rfl, rfl⟩ := request_unique (fun index => missing (old index) (new index))
        inside lies total
      exact ⟨neutral, .inl ⟨plain, finished⟩⟩
  | @update _ next _ found _ _ below wanted flags relayFlags other neutral step oldEntry newEntry
      deeper =>
      have lies : found < missing (old other) (new other) := by
        rw [oldEntry, newEntry, missing]
        exact deeper.lt_missing
      obtain ⟨rfl, rfl⟩ := request_unique (fun index => missing (old index) (new index))
        inside lies total
      exact ⟨neutral, .inr ⟨next, flags, relayFlags, below, wanted, step, oldEntry, newEntry,
        deeper⟩⟩

/-- A refusal in the creation of a tree below an entry without a table. -/
theorem harmless_create_iff (plain : (old index).tables = 0)
    (inside : served < (new index).tables) :
    Harmless level rights (earlierRequests old new index + served) old new ↔
      (∀ earlier < index, Neutral level rights (old earlier) (new earlier)) ∧
        NoneFinished served (new index) := by
  constructor
  · intro harmless
    rw [← missing_of_tables_eq_zero plain] at inside
    obtain ⟨neutral, ⟨-, none⟩ | ⟨_, _, _, _, _, -, relay, -⟩⟩ := harmless.entry inside
    · exact ⟨neutral, none⟩
    · simp [relay, tables] at plain
  · rintro ⟨neutral, none⟩
    exact .create index neutral plain none

/-- A refusal in the update of the table below an entry. -/
theorem harmless_update_iff (step : level.down = some next)
    (oldEntry : old index = .relay flags below) (newEntry : new index = .relay relayFlags wanted)
    (inside : served < ∑ index, missing (below index) (wanted index)) :
    Harmless level rights (earlierRequests old new index + served) old new ↔
      (∀ earlier < index, Neutral level rights (old earlier) (new earlier)) ∧
        Harmless next (rights.meet flags) served below wanted := by
  constructor
  · intro harmless
    have lies : served < missing (old index) (new index) := by
      rw [oldEntry, newEntry, missing]
      exact inside
    obtain ⟨neutral, ⟨plain, -⟩ | ⟨_, _, _, _, _, step', old', new', deeper⟩⟩ := harmless.entry lies
    · simp [oldEntry, tables] at plain
    · obtain rfl := Option.some.inj (step.symm.trans step')
      obtain ⟨rfl, rfl⟩ := PageTree.relay.inj (oldEntry.symm.trans old')
      obtain ⟨-, rfl⟩ := PageTree.relay.inj (newEntry.symm.trans new')
      exact ⟨neutral, deeper⟩
  · rintro ⟨neutral, deeper⟩
    exact .update index neutral step oldEntry newEntry deeper

end Entry

end Okots
