import Okots.CpuFlags.Cache

/-!
# Detection of the CPU flags

The flags of the kernel and `raw_detect_flag_impl`, which reads `CPUID` and control registers and
asks for other flags.  A whole run of calls on the cache returns the detected values.
-/

namespace Okots.CpuFlags

open StateExec Exec Memo Relation

/-! ## The flags of the kernel -/

/-- The tree in `cpu_flags`. -/
def kernelTrees : List FlagTree :=
  [.node "current" [.node "paging" [.leaf "Pml5"]],
    .node "environment" [
      .leaf "capabilities",
      .node "cpuid" [.leaf "SupportLeaf7"],
      .node "paging" [.leaf "Pml5", .leaf "PdptHuge", .leaf "NX"],
      .node "tsc" [.leaf "TscHardWareAdjust", .leaf "InvariantTsc", .leaf "Aux"],
      .node "apic" [.leaf "X2Supported"]]]

/-- What the macro generates for it. -/
def kernelFlags : DefinedFlags where
  flatList :=
    [(0, "current_paging_Pml5"), (1, "environment_capabilities"),
      (2, "environment_cpuid_SupportLeaf7"), (3, "environment_paging_Pml5"),
      (4, "environment_paging_PdptHuge"), (5, "environment_paging_NX"),
      (6, "environment_tsc_TscHardWareAdjust"), (7, "environment_tsc_InvariantTsc"),
      (8, "environment_tsc_Aux"), (9, "environment_apic_X2Supported")]
  numU64 := 1

theorem defineCpuFlags_kernelTrees (profile : Profile) :
    defineCpuFlags profile kernelTrees = some kernelFlags := by
  rw [defineCpuFlags_eq (.inl (by decide))]
  decide

/-- A variant of the kernel's enumeration. -/
abbrev KernelFlag := InternalFlagKind kernelFlags

/-- The result of a `CPUID` instruction. -/
structure CpuIdResult where
  eax : BitVec 32
  ebx : BitVec 32
  ecx : BitVec 32
  edx : BitVec 32
  deriving DecidableEq, Repr

/-- What the detection reads of a processor. -/
structure Processor where
  cpuidCount : BitVec 32 → BitVec 32 → CpuIdResult
  cr4 : BitVec 64

namespace Processor

variable (processor : Processor)

/-- `cpu_id::read`. -/
def cpuIdRead (a : BitVec 32) (b : Option (BitVec 32)) : CpuIdResult :=
  processor.cpuidCount a (b.getD 0)

def maxBaseLeafSupported : BitVec 32 := (processor.cpuIdRead 0 none).eax

def maxExtLeafSupported : BitVec 32 := (processor.cpuIdRead 0x80000000 none).eax

def cpuid70 : CpuIdResult :=
  if processor.maxBaseLeafSupported < 7 then ⟨0, 0, 0, 0⟩ else processor.cpuidCount 7 0

def isEnvironmentApicX2Supported : Bool :=
  (processor.cpuIdRead 0x01 none).ecx.getLsbD 21

def isEnvironmentTscAux : Bool :=
  if processor.maxExtLeafSupported < 0x80000001 then false
  else (processor.cpuIdRead 0x80000007 none).edx.getLsbD 27

def isEnvironmentTscInvariantTsc : Bool :=
  if processor.maxExtLeafSupported < 0x80000007 then false
  else (processor.cpuIdRead 0x80000007 none).edx.getLsbD 8

def isEnvironmentTscHardwareadjust : Bool :=
  if 0x07 ≤ processor.maxBaseLeafSupported then
    (processor.cpuIdRead 0x07 (some 0)).ebx.getLsbD 1
  else false

def isEnvironmentPagingNx : Bool :=
  if processor.maxExtLeafSupported < 0x80000001 then false
  else (processor.cpuIdRead 0x80000001 none).edx.getLsbD 20

def isEnvironmentPdptHuge : Bool :=
  if processor.maxExtLeafSupported < 0x80000001 then false
  else (processor.cpuIdRead 0x80000001 none).edx.getLsbD 26

def isEnvironmentCpuidSupportLeaf7 : Bool := decide (7 ≤ processor.maxBaseLeafSupported)

/-- `CR4` has `L5_PAGING`. -/
def isCurrentPml5 : Bool := processor.cr4.getLsbD 12

/-- Ask for a flag by `cpu_info!`. -/
def cpuInfo (name : String) (generated : name ∈ kernelFlags.flatList.map Prod.snd)
    (next : Bool → Query KernelFlag Bool) : Query KernelFlag Bool :=
  .ask ⟨name, generated⟩ next

def isEnvironmentCapabilities : Query KernelFlag Bool :=
  cpuInfo "environment_cpuid_SupportLeaf7" (by decide) fun supported =>
    if supported = false then .done false else .done (processor.cpuid70.edx.getLsbD 29)

def isEnvironmentPml5 : Query KernelFlag Bool :=
  cpuInfo "environment_cpuid_SupportLeaf7" (by decide) fun supported =>
    if supported = false then .done false else .done (processor.cpuid70.ecx.getLsbD 16)

/-- The function that the generated `has` calls for a flag that is not cached. -/
def rawDetectFlagImpl (kind : KernelFlag) : Query KernelFlag Bool :=
  match kind.name with
  | "environment_capabilities" => processor.isEnvironmentCapabilities
  | "environment_cpuid_SupportLeaf7" => .done processor.isEnvironmentCpuidSupportLeaf7
  | "environment_paging_Pml5" => processor.isEnvironmentPml5
  | "environment_paging_PdptHuge" => .done processor.isEnvironmentPdptHuge
  | "current_paging_Pml5" => cpuInfo "environment_paging_Pml5" (by decide) fun available =>
      .done (available && processor.isCurrentPml5)
  | "environment_paging_NX" => .done processor.isEnvironmentPagingNx
  | "environment_tsc_TscHardWareAdjust" => .done processor.isEnvironmentTscHardwareadjust
  | "environment_tsc_InvariantTsc" => .done processor.isEnvironmentTscInvariantTsc
  | "environment_tsc_Aux" => .done processor.isEnvironmentTscAux
  | "environment_apic_X2Supported" => .done processor.isEnvironmentApicX2Supported
  | _ => .done false

/-- The longest chain of questions behind a flag. -/
def detectionRank (kind : KernelFlag) : Nat :=
  match kind.name with
  | "current_paging_Pml5" => 2
  | "environment_capabilities" => 1
  | "environment_paging_Pml5" => 1
  | _ => 0

/-- The value of a flag, with the questions answered. -/
def flagValue (kind : KernelFlag) : Bool :=
  match kind.name with
  | "environment_capabilities" =>
      processor.isEnvironmentCpuidSupportLeaf7 && processor.cpuid70.edx.getLsbD 29
  | "environment_paging_Pml5" =>
      processor.isEnvironmentCpuidSupportLeaf7 && processor.cpuid70.ecx.getLsbD 16
  | "current_paging_Pml5" =>
      processor.isEnvironmentCpuidSupportLeaf7 && processor.cpuid70.ecx.getLsbD 16 &&
        processor.isCurrentPml5
  | _ => (processor.rawDetectFlagImpl kind).outcome fun _ => false

/-- A value that is only read when another flag is set. -/
theorem guarded_eq (value : Bool) :
    (fun guard => if guard = false then .done false else .done value) =
      (fun guard => .done (guard && value) : Bool → Query KernelFlag Bool) := by
  funext guard
  cases guard <;> rfl

/-- A flag is read from the processor alone, or one flag of a lower rank is asked for first. -/
theorem rawDetect_cases (kind : KernelFlag) :
    processor.rawDetectFlagImpl kind = .done (processor.flagValue kind) ∨
      ∃ next rest, processor.rawDetectFlagImpl kind = .ask next (fun set => .done (set && rest)) ∧
        processor.flagValue kind = (processor.flagValue next && rest) ∧
        detectionRank next < detectionRank kind := by
  obtain ⟨name, generated⟩ := kind
  have member := generated
  simp only [kernelFlags, List.map_cons, List.map_nil, List.mem_cons, List.not_mem_nil,
    or_false] at member
  rcases member with rfl | rfl | rfl | rfl | plain
  · exact .inr ⟨_, _, rfl, rfl, Nat.one_lt_two⟩
  · exact .inr ⟨_, _, congrArg _ (guarded_eq _), rfl, Nat.zero_lt_one⟩
  · exact .inl rfl
  · exact .inr ⟨_, _, congrArg _ (guarded_eq _), rfl, Nat.zero_lt_one⟩
  · rcases plain with rfl | rfl | rfl | rfl | rfl | rfl <;> exact .inl rfl

/-- The detection of a flag computes its value when its questions are answered by the values. -/
theorem rawDetect_outcome (kind : KernelFlag) :
    (processor.rawDetectFlagImpl kind).outcome processor.flagValue = processor.flagValue kind := by
  rcases processor.rawDetect_cases kind with plain | ⟨next, rest, asks, value, -⟩
  · rw [plain, Query.outcome]
  · rw [asks, value, Query.outcome, Query.outcome]

/-- No flag of the kernel asks for itself. -/
theorem rawDetect_acyclic (kind : KernelFlag) :
    ¬ TransGen (Asks processor.rawDetectFlagImpl processor.flagValue) kind kind := by
  refine acyclic_of_rank detectionRank (fun kind next asks => ?_) kind
  rw [Asks] at asks
  rcases processor.rawDetect_cases kind with plain | ⟨other, rest, question, -, lower⟩
  · rw [plain, Query.asked] at asks
    cases asks
  · rw [question, Query.asked, Query.asked, List.mem_singleton] at asks
    rwa [asks]

end Processor

/-! ## Whole runs -/

/-- A bit of a flag that is asked for, directly or nested. -/
theorem exists_reached {flags : DefinedFlags} {calls : List (InternalFlagKind flags)}
    {asks : InternalFlagKind flags → InternalFlagKind flags → Prop} {position : Nat} :
    (∃ kind ∈ reached asks calls, kind.discriminant = position) ↔
      ∃ call ∈ calls, ∃ kind, ReflTransGen asks call kind ∧ kind.discriminant = position := by
  constructor
  · rintro ⟨kind, ⟨call, member, path⟩, same⟩
    exact ⟨call, member, kind, path, same⟩
  · rintro ⟨call, member, kind, path, same⟩
    exact ⟨kind, ⟨call, member, path⟩, same⟩

/-- For every accepted tree, with fewer than 2^32 leaves when the macro is built without overflow
checks, the leaves are numbered from left to right, every
id has its bit in the arrays, and a sequence of calls on an empty cache returns the detected values
and sets the status bits of exactly the flags that were asked for, directly or nested.  No other
status bit is set at any time in between, inside nested calls as well. -/
theorem cpuFlagCache_faithful {profile : Profile} {trees : List FlagTree} {flags : DefinedFlags}
    (accepted : defineCpuFlags profile trees = some flags)
    (distinct : ((leavesAll trees).map variantName).Nodup)
    (counted : profile = .release → (leavesAll trees).length < 2 ^ 32) :
    flags.flatList.map Prod.fst = List.range (leavesAll trees).length ∧
    flags.flatList.map Prod.snd = (leavesAll trees).map variantName ∧
    (∀ (kind : InternalFlagKind flags) (index : Nat),
      ((leavesAll trees).map variantName)[index]? = some kind.name → kind.discriminant = index) ∧
    (∀ kind : InternalFlagKind flags, kind.discriminant / 64 < flags.numU64) ∧
    ∀ (detect : InternalFlagKind flags → Query (InternalFlagKind flags) Bool)
      (value : InternalFlagKind flags → Bool),
      (∀ kind, (detect kind).outcome value = value kind) →
      (∀ kind, ¬ TransGen (Asks detect value) kind kind) →
      ∃ enough, ∀ fuel, enough ≤ fuel → ∀ calls : List (InternalFlagKind flags),
        ∃ cache, askAll (has detect fuel) calls (CpuFlagCache.new flags.numU64) =
            (.ok (calls.map value), cache) ∧
          (∀ position, bitAt cache.status position = true ↔
            ∃ call ∈ calls, ∃ kind, ReflTransGen (Asks detect value) call kind ∧
              kind.discriminant = position) ∧
          ∃ seen, askAll (hasWatched detect fuel) calls (CpuFlagCache.new flags.numU64, []) =
              (.ok (calls.map value), (cache, seen)) ∧
            ∀ former ∈ seen, ∀ position, bitAt former.status position = true →
              ∃ call ∈ calls, ∃ kind, ReflTransGen (Asks detect value) call kind ∧
                kind.discriminant = position := by
  have numbered := numbered_of_accepted accepted counted
  refine ⟨numbered.ids, numbered.names, fun kind index => numbered.discriminant distinct kind,
    numbered.inside, ?_⟩
  intro detect value fixed acyclic
  have stores := (remembers numbered.inside numbered.injective value).watched
  obtain ⟨enough, answers⟩ := memoized_answers .stackOverflow stores fixed acyclic
  refine ⟨enough, fun fuel deep calls => ?_⟩
  have empty : HoldsWatched (Holding value) ∅ (CpuFlagCache.new flags.numU64, []) :=
    ⟨holding_new, fun _ member => nomatch member⟩
  obtain ⟨_, ⟨cache, seen⟩, run, rfl, held, before⟩ := (askAll_answers (answers fuel deep) calls
    empty fun _ member => member.elim).exists_ok fun _ _ => id
  rw [Set.empty_union] at held before
  have erased := erases_askAll (hasWatched_erases detect fuel) calls
    (CpuFlagCache.new flags.numU64, [])
  have watchedRun : askAll (hasWatched detect fuel) calls (CpuFlagCache.new flags.numU64, []) =
      (.ok (calls.map value), (cache, seen)) := run
  rw [watchedRun] at erased
  refine ⟨cache, Prod.ext erased.1.symm erased.2.symm, fun position => ?_, seen, watchedRun,
    fun former member position bit => ?_⟩
  · rw [held.status]
    exact exists_reached
  · obtain ⟨part, smaller, was⟩ := before former member
    obtain ⟨kind, known, same⟩ := (was.status position).mp bit
    exact exists_reached.mp ⟨kind, smaller known, same⟩

/-- A processor that supports and uses five levels of page tables. -/
def fiveLevelProcessor : Processor where
  cpuidCount leaf _ :=
    { eax := if leaf = 0 then 7 else 0, ebx := 0
      ecx := if leaf = 7 then 1 <<< 16 else 0, edx := 0 }
  cr4 := 1 <<< 12

/-- Two calls on the kernel's cache: the second one has asked for the flag with id 2. -/
theorem cpuFlagCache_faithful_kernel :
    ∃ enough, ∀ fuel, enough ≤ fuel → ∃ cache,
      askAll (has fiveLevelProcessor.rawDetectFlagImpl fuel)
          [⟨"current_paging_Pml5", by decide⟩, ⟨"environment_capabilities", by decide⟩]
          (CpuFlagCache.new kernelFlags.numU64) = (.ok [true, false], cache) ∧
        bitAt cache.status 2 = true := by
  obtain ⟨-, -, -, -, run⟩ := cpuFlagCache_faithful (defineCpuFlags_kernelTrees .release)
    (by decide) fun _ => by decide
  obtain ⟨enough, returns⟩ := run fiveLevelProcessor.rawDetectFlagImpl fiveLevelProcessor.flagValue
    fiveLevelProcessor.rawDetect_outcome fiveLevelProcessor.rawDetect_acyclic
  refine ⟨enough, fun fuel deep => ?_⟩
  obtain ⟨cache, results, status, -⟩ := returns fuel deep
    [⟨"current_paging_Pml5", by decide⟩, ⟨"environment_capabilities", by decide⟩]
  refine ⟨cache, results, (status 2).mpr ⟨_, .tail _ (.head _),
    ⟨"environment_cpuid_SupportLeaf7", by decide⟩, .single (.head _), by decide⟩⟩

/-! ## A full counter -/

/-- A tree of nested pairs of groups. -/
def halves : Nat → List FlagTree
  | 0 => [.leaf "x"]
  | depth + 1 => [.node "l" (halves depth), .node "r" (halves depth)]

theorem leavesAll_halves (depth : Nat) :
    leavesAll (halves (depth + 1)) =
      (leavesAll (halves depth)).map (fun leaf => ("l" :: leaf.1, leaf.2)) ++
        (leavesAll (halves depth)).map fun leaf => ("r" :: leaf.1, leaf.2) := by
  simp [halves, leavesAll, FlagTree.leaves]

theorem length_leavesAll_halves (depth : Nat) : (leavesAll (halves depth)).length = 2 ^ depth := by
  induction depth with
  | zero => simp [halves, leavesAll, FlagTree.leaves]
  | succ depth induction =>
      rw [leavesAll_halves, List.length_append, List.length_map, List.length_map, induction]
      omega

theorem nodup_halves (depth : Nat) : ((leavesAll (halves depth)).map variantName).Nodup := by
  induction depth with
  | zero => simp [halves, leavesAll, FlagTree.leaves]
  | succ depth induction =>
      have grouped (name : String) :
          ((leavesAll (halves depth)).map fun leaf => (name :: leaf.1, leaf.2)).map variantName =
            ((leavesAll (halves depth)).map variantName).map (name ++ "_" ++ ·) := by
        rw [List.map_map, List.map_map]
        rfl
      rw [leavesAll_halves, List.map_append, grouped, grouped, List.nodup_append]
      refine ⟨induction.map fun _ _ => (String.append_right_inj _).mp,
        induction.map fun _ _ => (String.append_right_inj _).mp, ?_⟩
      intro left inLeft right inRight same
      obtain ⟨first, -, rfl⟩ := List.mem_map.mp inLeft
      obtain ⟨second, -, rfl⟩ := List.mem_map.mp inRight
      have chars := congrArg String.toList same
      simp at chars

/-- At 2^32 leaves the counter has wrapped to zero in a build without overflow checks. -/
theorem exists_outside {trees : List FlagTree} (full : (leavesAll trees).length = 2 ^ 32) :
    ∃ flags, defineCpuFlags .release trees = some flags ∧ flags.numU64 = 0 ∧
      Nonempty (InternalFlagKind flags) := by
  obtain ⟨flags, accepted, names, size⟩ : ∃ flags, defineCpuFlags .release trees = some flags ∧
      flags.flatList.map Prod.snd = (leavesAll trees).map variantName ∧ flags.numU64 = 0 :=
    ⟨_, defineCpuFlags_eq (.inr ⟨rfl, full⟩), List.map_snd_zip (by simp), by simp [full]⟩
  obtain ⟨leaf, member⟩ := List.exists_mem_of_length_pos (full ▸ Nat.two_pow_pos 32)
  exact ⟨flags, accepted, size, ⟨variantName leaf, names ▸ List.mem_map_of_mem member⟩⟩

/-- For such a tree the arrays are empty, and the first call panics. -/
theorem cpuFlagCache_not_faithful :
    ((leavesAll (halves 32)).map variantName).Nodup ∧
    ∃ flags, defineCpuFlags .release (halves 32) = some flags ∧
      ∃ kind : InternalFlagKind flags, ¬ kind.discriminant / 64 < flags.numU64 ∧
        ∀ detect fuel, has detect (fuel + 1) kind (CpuFlagCache.new flags.numU64) =
          (.error .indexOutOfBounds, CpuFlagCache.new flags.numU64) := by
  obtain ⟨flags, accepted, empty, ⟨kind⟩⟩ := exists_outside (length_leavesAll_halves 32)
  have outside : ¬ kind.discriminant / 64 < flags.numU64 := by
    rw [empty]
    exact Nat.not_lt_zero _
  exact ⟨nodup_halves 32, flags, accepted, kind, outside, fun _ _ => has_outside outside⟩

end Okots.CpuFlags
