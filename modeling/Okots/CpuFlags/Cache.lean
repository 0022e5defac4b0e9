import Okots.CpuFlags.Expand
import Okots.Library.Memo

/-!
# The cache of the CPU flags

`CpuFlagCache::has` detects a flag once and keeps the result in two bit arrays, one that says which
flags were detected and one with their values.  The detection of a flag may call `has` for other
flags of the same core, so between the test of the status bit and its update the cache changes.
-/

namespace Okots.CpuFlags

open StateExec Exec Memo Relation

/-! ## Bit arrays -/

section Bits

variable {size : Nat}

/-- The bit of an array of words. -/
def bitAt (words : Vector (BitVec 64) size) (position : Nat) : Bool :=
  (words[position / 64]?.getD 0).getLsbD (position % 64)

/-- Change one word of an array.  The index is checked. -/
def changeWord (change : BitVec 64 → BitVec 64) (words : Vector (BitVec 64) size) (index : Nat) :
    Option (Vector (BitVec 64) size) :=
  if bound : index < size then some (words.set index (change words[index])) else none

/-- The word with one bit set. -/
def maskOf (id : Nat) : BitVec 64 := 1#64 <<< (id % 64)

theorem and_maskOf_ne_zero (word : BitVec 64) (id : Nat) :
    word &&& maskOf id ≠ 0 ↔ word.getLsbD (id % 64) = true := by
  have mask : maskOf id = BitVec.twoPow 64 (id % 64) := rfl
  rw [mask, BitVec.and_twoPow]
  split
  · rename_i bit
    refine iff_of_true (fun zero => ?_) bit
    have set := congrArg (BitVec.getLsbD · (id % 64)) zero
    simp [Nat.mod_lt] at set
  · rename_i clear
    exact iff_of_false (fun nonzero => nonzero rfl) clear

theorem maskOf_getLsbD (id position : Nat) :
    (maskOf id).getLsbD (position % 64) = decide (position % 64 = id % 64) := by
  have mask : maskOf id = BitVec.twoPow 64 (id % 64) := rfl
  rw [mask, BitVec.getLsbD_twoPow]
  simp [Nat.mod_lt, eq_comm]

theorem bitAt_of_lt {words : Vector (BitVec 64) size} {position : Nat}
    (bound : position / 64 < size) :
    bitAt words position = words[position / 64].getLsbD (position % 64) := by
  rw [bitAt, Vector.getElem?_eq_getElem bound, Option.getD_some]

theorem and_maskOf_ne_zero_iff {words : Vector (BitVec 64) size} {id : Nat}
    (bound : id / 64 < size) :
    words[id / 64] &&& maskOf id ≠ 0 ↔ bitAt words id = true := by
  rw [bitAt_of_lt bound, and_maskOf_ne_zero]

theorem bitAt_set {words : Vector (BitVec 64) size} {index : Nat} (bound : index < size)
    (word : BitVec 64) (position : Nat) :
    bitAt (words.set index word) position =
      if position / 64 = index then word.getLsbD (position % 64) else bitAt words position := by
  unfold bitAt
  rw [Vector.getElem?_set bound]
  by_cases same : index = position / 64
  · rw [if_pos same, if_pos same.symm, Option.getD_some]
  · rw [if_neg same, if_neg (Ne.symm same)]

theorem bitAt_replicate_zero (position : Nat) :
    bitAt (Vector.replicate size 0#64) position = false := by
  unfold bitAt
  by_cases bound : position / 64 < size
  · rw [Vector.getElem?_eq_getElem bound, Vector.getElem_replicate, Option.getD_some,
      BitVec.getLsbD_zero]
  · rw [Vector.getElem?_eq_none (Nat.not_lt.mp bound), Option.getD_none]
    exact BitVec.getLsbD_zero

/-- `fetch_or` with the mask of a bit sets this bit only. -/
theorem bitAt_set_or {words : Vector (BitVec 64) size} {id : Nat} (bound : id / 64 < size)
    (position : Nat) :
    bitAt (words.set (id / 64) (words[id / 64] ||| maskOf id)) position =
      (bitAt words position || decide (position = id)) := by
  rw [bitAt_set bound]
  by_cases word : position / 64 = id / 64
  · have inside : position / 64 < size := by omega
    have same : position % 64 = id % 64 ↔ position = id := by omega
    rw [if_pos word, BitVec.getLsbD_or, maskOf_getLsbD, bitAt_of_lt inside]
    simp only [word, same]
  · have other : position ≠ id := fun same => word (by rw [same])
    rw [if_neg word, decide_eq_false other, Bool.or_false]

/-- `fetch_and` with the inverted mask of a bit clears this bit only. -/
theorem bitAt_set_and {words : Vector (BitVec 64) size} {id : Nat} (bound : id / 64 < size)
    (position : Nat) :
    bitAt (words.set (id / 64) (words[id / 64] &&& ~~~ maskOf id)) position =
      (bitAt words position && decide (position ≠ id)) := by
  rw [bitAt_set bound]
  by_cases word : position / 64 = id / 64
  · have inside : position / 64 < size := by omega
    have same : position % 64 = id % 64 ↔ position = id := by omega
    rw [if_pos word, BitVec.getLsbD_and, BitVec.getLsbD_not, maskOf_getLsbD, bitAt_of_lt inside]
    simp [word, same, Nat.mod_lt]
  · have other : position ≠ id := fun same => word (by rw [same])
    rw [if_neg word, decide_eq_true other, Bool.and_true]

end Bits

/-! ## The generated items -/

/-- The generated enumeration. -/
@[ext]
structure InternalFlagKind (flags : DefinedFlags) where
  name : String
  generated : name ∈ flags.flatList.map Prod.snd
  deriving DecidableEq

/-- The cast of a variant to `u32`. -/
def InternalFlagKind.discriminant {flags : DefinedFlags} (kind : InternalFlagKind flags) : Nat :=
  (flags.flatList.find? fun entry => entry.2 = kind.name).elim 0 Prod.fst

/-- The two arrays of the cache. -/
structure CpuFlagCache (size : Nat) where
  status : Vector (BitVec 64) size
  values : Vector (BitVec 64) size

/-- No flag has been detected. -/
def CpuFlagCache.new (size : Nat) : CpuFlagCache size where
  status := Vector.replicate size 0
  values := Vector.replicate size 0

/-- Why a call of `has` does not return. -/
inductive CacheFault where
  | indexOutOfBounds
  | stackOverflow
  deriving DecidableEq, Repr

section Has

variable {size : Nat}

/-- Load a word of an array. -/
def load (array : CpuFlagCache size → Vector (BitVec 64) size) (index : Nat) :
    Exec (CpuFlagCache size) CacheFault (BitVec 64) := do
  let words ← read array
  ofOption .indexOutOfBounds words[index]?

/-- A read-modify-write access to the status array. -/
def fetchStatus (change : BitVec 64 → BitVec 64) (index : Nat) :
    Exec (CpuFlagCache size) CacheFault Unit := do
  let words ← read CpuFlagCache.status
  let changed ← ofOption .indexOutOfBounds (changeWord change words index)
  modify fun cache => { cache with status := changed }

/-- A read-modify-write access to the values array. -/
def fetchValues (change : BitVec 64 → BitVec 64) (index : Nat) :
    Exec (CpuFlagCache size) CacheFault Unit := do
  let words ← read CpuFlagCache.values
  let changed ← ofOption .indexOutOfBounds (changeWord change words index)
  modify fun cache => { cache with values := changed }

variable {flags : DefinedFlags}

/-- `CpuFlagCache::has`.  A nested call inside the detection uses the same cache; the fuel bounds
the depth of the nesting. -/
def has (detect : InternalFlagKind flags → Query (InternalFlagKind flags) Bool) :
    Nat → InternalFlagKind flags → Exec (CpuFlagCache flags.numU64) CacheFault Bool
  | 0, _ => fault .stackOverflow
  | fuel + 1, flag => do
      let id := flag.discriminant
      let index := id / 64
      let mask := maskOf id
      let loaded ← load CpuFlagCache.status index
      if loaded &&& mask ≠ 0 then do
        let vals ← load CpuFlagCache.values index
        return decide (vals &&& mask ≠ 0)
      else do
        let result ← (detect flag).run (has detect fuel)
        if result = true then
          fetchValues (· ||| mask) index
        else
          fetchValues (· &&& ~~~ mask) index
        fetchStatus (· ||| mask) index
        return result

/-- The first half of `has`: the cached value, when there is one. -/
def cached (flag : InternalFlagKind flags) :
    Exec (CpuFlagCache flags.numU64) CacheFault (Option Bool) := do
  let loaded ← load CpuFlagCache.status (flag.discriminant / 64)
  if loaded &&& maskOf flag.discriminant ≠ 0 then do
    let vals ← load CpuFlagCache.values (flag.discriminant / 64)
    return some (decide (vals &&& maskOf flag.discriminant ≠ 0))
  else
    return none

/-- The second half of `has`: the detected value is written before its status bit. -/
def remember (flag : InternalFlagKind flags) (result : Bool) :
    Exec (CpuFlagCache flags.numU64) CacheFault Unit := do
  if result = true then
    fetchValues (· ||| maskOf flag.discriminant) (flag.discriminant / 64)
  else
    fetchValues (· &&& ~~~ maskOf flag.discriminant) (flag.discriminant / 64)
  fetchStatus (· ||| maskOf flag.discriminant) (flag.discriminant / 64)

/-- `has` memoizes the detection. -/
theorem has_eq_memoized (detect : InternalFlagKind flags → Query (InternalFlagKind flags) Bool)
    (fuel : Nat) : has detect fuel = memoized cached remember detect .stackOverflow fuel := by
  induction fuel with
  | zero => rfl
  | succ fuel induction =>
      funext flag
      rw [has, memoized, induction, cached, bind_bind]
      refine congrArg _ (funext fun loaded => ?_)
      split
      · rw [bind_bind]
        rfl
      · refine congrArg _ (funext fun result => ?_)
        cases result with
        | true => exact (bind_bind ..).symm
        | false => exact (bind_bind ..).symm

/-- `has`, with the caches in between written down.  The first half changes no bit and the second
half only its own status bit, with its last access, so these are all status arrays there are. -/
def hasWatched (detect : InternalFlagKind flags → Query (InternalFlagKind flags) Bool) (fuel : Nat)
    (flag : InternalFlagKind flags) :
    Exec (CpuFlagCache flags.numU64 × List (CpuFlagCache flags.numU64)) CacheFault Bool :=
  memoized (fun flag => watched (cached flag)) (fun flag result => watched (remember flag result))
    detect .stackOverflow fuel flag

theorem hasWatched_erases (detect : InternalFlagKind flags → Query (InternalFlagKind flags) Bool)
    (fuel : Nat) (flag : InternalFlagKind flags) :
    Erases (hasWatched detect fuel flag) (has detect fuel flag) := by
  rw [has_eq_memoized]
  exact erases_memoized fuel flag

/-- A call for a flag whose word is not in the arrays panics. -/
theorem has_outside {detect : InternalFlagKind flags → Query (InternalFlagKind flags) Bool}
    {fuel : Nat} {flag : InternalFlagKind flags} {cache : CpuFlagCache flags.numU64}
    (outside : ¬ flag.discriminant / 64 < flags.numU64) :
    has detect (fuel + 1) flag cache = (.error .indexOutOfBounds, cache) := by
  have missing : cache.status[flag.discriminant / 64]? = none :=
    Vector.getElem?_eq_none (Nat.not_lt.mp outside)
  have loads : load CpuFlagCache.status (flag.discriminant / 64) cache =
      (.error .indexOutOfBounds, cache) := by
    change ofOption CacheFault.indexOutOfBounds cache.status[flag.discriminant / 64]? cache = _
    rw [missing]
    rfl
  rw [has]
  simp only [bind, loads]

end Has

/-! ## The invariant of the cache -/

section Holding

variable {size : Nat} {flags : DefinedFlags} {known : Set (InternalFlagKind flags)}
  {value : InternalFlagKind flags → Bool} {cache : CpuFlagCache flags.numU64}
  {flag : InternalFlagKind flags}

theorem load_ends {array : CpuFlagCache size → Vector (BitVec 64) size} {index : Nat}
    {state : CpuFlagCache size} {ok : BitVec 64 → CpuFlagCache size → Prop}
    {fail : CacheFault → CpuFlagCache size → Prop} (bound : index < size) :
    Ends (load array index) state ok fail ↔ ok (array state)[index] state := by
  rw [load, ends_bind, ends_read, ends_ofOption_of_some _ (Vector.getElem?_eq_getElem bound)]

theorem fetchStatus_ends {change : BitVec 64 → BitVec 64} {index : Nat}
    {state : CpuFlagCache size} {ok : Unit → CpuFlagCache size → Prop}
    {fail : CacheFault → CpuFlagCache size → Prop} (bound : index < size) :
    Ends (fetchStatus change index) state ok fail ↔
      ok () { state with status := state.status.set index (change state.status[index]) } := by
  rw [fetchStatus, ends_bind, ends_read, ends_bind, ends_ofOption_of_some _ (dif_pos bound),
    ends_modify]

theorem fetchValues_ends {change : BitVec 64 → BitVec 64} {index : Nat}
    {state : CpuFlagCache size} {ok : Unit → CpuFlagCache size → Prop}
    {fail : CacheFault → CpuFlagCache size → Prop} (bound : index < size) :
    Ends (fetchValues change index) state ok fail ↔
      ok () { state with values := state.values.set index (change state.values[index]) } := by
  rw [fetchValues, ends_bind, ends_read, ends_bind, ends_ofOption_of_some _ (dif_pos bound),
    ends_modify]

/-- The cache knows a set of flags: their status bits are the ones that are set, and their values
are stored. -/
structure Holding (value : InternalFlagKind flags → Bool) (known : Set (InternalFlagKind flags))
    (cache : CpuFlagCache flags.numU64) : Prop where
  status : ∀ position, bitAt cache.status position = true ↔
    ∃ flag ∈ known, flag.discriminant = position
  values : ∀ flag ∈ known, bitAt cache.values flag.discriminant = value flag

theorem holding_new : Holding value ∅ (CpuFlagCache.new flags.numU64) where
  status position := by simp [CpuFlagCache.new, bitAt_replicate_zero]
  values _ member := member.elim

variable (inside : ∀ flag : InternalFlagKind flags, flag.discriminant / 64 < flags.numU64)
include inside

theorem cached_ends {ok : Option Bool → CpuFlagCache flags.numU64 → Prop}
    {fail : CacheFault → CpuFlagCache flags.numU64 → Prop} :
    Ends (cached flag) cache ok fail ↔
      ok (if bitAt cache.status flag.discriminant = true then
        some (bitAt cache.values flag.discriminant) else none) cache := by
  have bound := inside flag
  have test (words : Vector (BitVec 64) flags.numU64) :
      words[flag.discriminant / 64] &&& maskOf flag.discriminant ≠ 0 ↔
        bitAt words flag.discriminant = true := and_maskOf_ne_zero_iff bound
  rw [cached, ends_bind, load_ends bound]
  split
  · rename_i nonzero
    have vals : decide (cache.values[flag.discriminant / 64] &&& maskOf flag.discriminant ≠ 0) =
        bitAt cache.values flag.discriminant := by
      rw [Bool.eq_iff_iff, decide_eq_true_eq]
      exact test cache.values
    rw [if_pos ((test cache.status).mp nonzero), ends_bind, load_ends bound, vals]
    rfl
  · rename_i zero
    rw [if_neg fun bit => zero ((test cache.status).mpr bit)]
    rfl

/-- What `has` writes for a detected flag. -/
theorem remember_ends (result : Bool) {ok : Unit → CpuFlagCache flags.numU64 → Prop}
    {fail : CacheFault → CpuFlagCache flags.numU64 → Prop}
    (written : ∀ after : CpuFlagCache flags.numU64,
      (∀ position, bitAt after.status position =
        (bitAt cache.status position || decide (position = flag.discriminant))) →
      (∀ position, bitAt after.values position =
        if position = flag.discriminant then result else bitAt cache.values position) →
      ok () after) :
    Ends (remember flag result) cache ok fail := by
  cases result with
  | true =>
      rw [remember, if_pos rfl, ends_bind, fetchValues_ends (inside flag),
        fetchStatus_ends (inside flag)]
      refine written _ (bitAt_set_or (inside flag)) fun position => ?_
      rw [bitAt_set_or (inside flag)]
      by_cases same : position = flag.discriminant <;> simp [same]
  | false =>
      rw [remember, if_neg Bool.false_ne_true, ends_bind, fetchValues_ends (inside flag),
        fetchStatus_ends (inside flag)]
      refine written _ (bitAt_set_or (inside flag)) fun position => ?_
      rw [bitAt_set_and (inside flag)]
      by_cases same : position = flag.discriminant <;> simp [same]

/-- The cache remembers what it is told, since different flags have different bits. -/
theorem remembers (injective : Function.Injective (@InternalFlagKind.discriminant flags))
    (value : InternalFlagKind flags → Bool) :
    Remembers cached remember value (Holding value) where
  hit held member := by
    have bit := (held.status _).mpr ⟨_, member, rfl⟩
    rw [cached_ends inside, if_pos bit, held.values _ member]
    exact ⟨rfl, held⟩
  miss held other := by
    rw [cached_ends inside, if_neg]
    · exact ⟨rfl, held⟩
    · intro bit
      obtain ⟨flag, member, same⟩ := (held.status _).mp bit
      exact other (injective same ▸ member)
  stored flag held := by
    refine remember_ends inside _ fun after status values => ⟨fun position => ?_, ?_⟩
    · rw [status, Bool.or_eq_true, held.status, decide_eq_true_eq, Set.exists_mem_insert,
        or_comm, eq_comm]
    · intro other member
      rw [values]
      split
      · rename_i same
        rw [injective same]
      · rename_i different
        exact held.values other (member.resolve_left fun same => different (by rw [same]))

end Holding

/-! ## Generated discriminants -/

section Discriminants

variable {flags : DefinedFlags}

instance : Finite (InternalFlagKind flags) := by
  have names : Finite {name // name ∈ flags.flatList.map Prod.snd} :=
    (List.finite_toSet _).to_subtype
  refine Finite.of_injective
    (fun kind => (⟨kind.name, kind.generated⟩ : {name // name ∈ flags.flatList.map Prod.snd})) ?_
  intro left right same
  exact InternalFlagKind.ext (congrArg Subtype.val same)

theorem discriminant_mem (kind : InternalFlagKind flags) :
    (kind.discriminant, kind.name) ∈ flags.flatList := by
  obtain ⟨entry, member, named⟩ := List.mem_map.mp kind.generated
  cases found : flags.flatList.find? fun entry => entry.2 = kind.name with
  | none => exact absurd named (by simpa using List.find?_eq_none.mp found entry member)
  | some first =>
      have name : first.2 = kind.name := by simpa using List.find?_some found
      rw [InternalFlagKind.discriminant, found, ← name]
      exact List.mem_of_find?_eq_some found

/-- The ids are the positions of the leaves. -/
structure Numbered (flags : DefinedFlags) (leaves : List (List String × String)) : Prop where
  flatList : flags.flatList = (List.range leaves.length).zip (leaves.map variantName)
  numU64 : flags.numU64 = (leaves.length + 63) / 64

theorem numbered_of_accepted {profile : Profile} {trees : List FlagTree}
    (accepted : defineCpuFlags profile trees = some flags)
    (counted : profile = .release → (leavesAll trees).length < 2 ^ 32) :
    Numbered flags (leavesAll trees) := by
  have small : (leavesAll trees).length < 2 ^ 32 := by
    cases profile with
    | dev => exact length_lt_of_checked accepted
    | release => exact counted rfl
  rw [defineCpuFlags_eq (.inl small), Nat.mod_eq_of_lt small] at accepted
  obtain rfl := Option.some.inj accepted
  exact ⟨rfl, rfl⟩

namespace Numbered

variable {leaves : List (List String × String)} (numbered : Numbered flags leaves)
include numbered

theorem ids : flags.flatList.map Prod.fst = List.range leaves.length := by
  rw [numbered.flatList, List.map_fst_zip (by simp)]

theorem names : flags.flatList.map Prod.snd = leaves.map variantName := by
  rw [numbered.flatList, List.map_snd_zip (by simp)]

theorem inside (kind : InternalFlagKind flags) : kind.discriminant / 64 < flags.numU64 := by
  have member := List.mem_map_of_mem (f := Prod.fst) (discriminant_mem kind)
  rw [numbered.ids, List.mem_range] at member
  rw [numbered.numU64]
  omega

theorem injective : Function.Injective (@InternalFlagKind.discriminant flags) := by
  intro left right same
  have nodup : (flags.flatList.map Prod.fst).Nodup := numbered.ids ▸ List.nodup_range
  have entries := List.inj_on_of_nodup_map nodup (discriminant_mem left) (discriminant_mem right)
    same
  exact InternalFlagKind.ext (congrArg Prod.snd entries)

/-- The variant of a leaf has the position of the leaf as its discriminant. -/
theorem discriminant (distinct : (leaves.map variantName).Nodup) (kind : InternalFlagKind flags)
    {index : Nat} (named : (leaves.map variantName)[index]? = some kind.name) :
    kind.discriminant = index := by
  have nodup : (flags.flatList.map Prod.snd).Nodup := numbered.names ▸ distinct
  have member : (index, kind.name) ∈ flags.flatList := by
    rw [numbered.flatList]
    obtain ⟨bound, -⟩ := List.getElem?_eq_some_iff.mp named
    rw [List.length_map] at bound
    exact List.mem_of_getElem? (List.getElem?_zip_eq_some.mpr
      ⟨List.getElem?_range bound, named⟩)
  have entries := List.inj_on_of_nodup_map nodup (discriminant_mem kind) member rfl
  exact congrArg Prod.fst entries

end Numbered

end Discriminants

end Okots.CpuFlags
