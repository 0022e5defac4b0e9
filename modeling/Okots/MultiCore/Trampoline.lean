import Mathlib.Data.Fintype.Card
import Okots.Library.Reachable
import Okots.Result

/-!
# Boot pointers

Every processor that leaves the trampoline takes its stack from one array, which ends with the
sentinel 1.  It loads a slot, goes on if the slot is 0, stops at the sentinel, and otherwise tries
to exchange the pointer for 0; if another processor was faster, it goes on to the next slot.

A slot that is 0 has been taken by exactly one processor, and all slots that a processor has passed
are 0.  So a processor at the sentinel has seen every stack taken by another processor.
-/

namespace Okots

open TransitionSystem

/-- A machine word. -/
abbrev Word := BitVec 64

/-! ## The scan -/

/-- Where a processor is in `.find_iter`; `rdx` is the slot that `rbx` points to. -/
inductive ScanPc where
  /-- `mov rax, [rbx]` and the tests of `rax`. -/
  | load (rdx : Nat)
  /-- `lock cmpxchg [rbx], rcx`. -/
  | exchange (rdx : Nat) (rax : Word)
  /-- `.found`: the processor leaves the scan with the stack `rax`. -/
  | found (rdx : Nat) (rax : Word)
  /-- `.find_iter_ended`. -/
  | ended

/-- The words from `args.stack` on, and the processors. -/
structure StackScan (ι : Type*) where
  slots : Nat → Word
  processors : ι → ScanPc

namespace StackScan

variable {ι : Type*}

/-- One access of a processor to the array. -/
def next [DecidableEq ι] (scan : StackScan ι) (processor : ι) : StackScan ι :=
  match scan.processors processor with
  | .load rdx =>
      let rax := scan.slots rdx
      { scan with
        processors := Function.update scan.processors processor
          (if rax = 0 then .load (rdx + 1) else if rax = 1 then .ended else .exchange rdx rax) }
  | .exchange rdx rax =>
      if scan.slots rdx = rax then
        { slots := Function.update scan.slots rdx 0
          processors := Function.update scan.processors processor (.found rdx rax) }
      else
        { scan with processors := Function.update scan.processors processor (.load (rdx + 1)) }
  | .found _ _ | .ended => scan

/-- The array before the first access: the stack pointers, the sentinel, and any words behind it. -/
structure Placed (pointers : List Word) (slots : Nat → Word) : Prop where
  stack : ∀ index (bound : index < pointers.length), slots index = pointers[index]
  sentinel : slots pointers.length = 1

/-- All processors enter the scan at the first slot. -/
def start (slots : Nat → Word) : StackScan ι := ⟨slots, fun _ => .load 0⟩

/-- What one processor knows of the array: the slots it has passed are taken, and it has not passed
the sentinel. -/
def Known (pointers : List Word) (slots : Nat → Word) : ScanPc → Prop
  | .load rdx => rdx ≤ pointers.length ∧ ∀ index < rdx, slots index = 0
  | .exchange rdx rax =>
      pointers[rdx]? = some rax ∧ rax ≠ 0 ∧ ∀ index < rdx, slots index = 0
  | .found rdx rax => pointers[rdx]? = some rax ∧ slots rdx = 0
  | .ended => ∀ index < pointers.length, slots index = 0

/-- A slot is 0 or as at the start, and a slot that is 0 belongs to one processor. -/
structure Claimed (pointers : List Word) (scan : StackScan ι) : Prop where
  sentinel : scan.slots pointers.length = 1
  slot : ∀ index (bound : index < pointers.length),
    scan.slots index = pointers[index] ∨
      scan.slots index = 0 ∧ ∃ processor rax, scan.processors processor = .found index rax
  known : ∀ processor, Known pointers scan.slots (scan.processors processor)
  once : ∀ left right index leftRax rightRax,
    scan.processors left = .found index leftRax →
    scan.processors right = .found index rightRax → left = right

variable {pointers : List Word} {slots : Nat → Word} {scan : StackScan ι}

theorem Placed.claimed (placed : Placed pointers slots) :
    (start slots : StackScan ι).Claimed pointers where
  sentinel := placed.sentinel
  slot index bound := .inl (placed.stack index bound)
  known _ := ⟨Nat.zero_le _, nofun⟩
  once := nofun

/-- What a processor knows stays true when another slot is taken. -/
theorem Known.take {pc : ScanPc} (known : Known pointers slots pc) (taken : Nat) :
    Known pointers (Function.update slots taken 0) pc := by
  have zero : ∀ index, slots index = 0 → Function.update slots taken 0 index = 0 := by
    intro index empty
    by_cases same : index = taken
    · rw [same, Function.update_self]
    · rw [Function.update_of_ne same]
      exact empty
  cases pc with
  | load rdx => exact ⟨known.1, fun index passed => zero index (known.2 index passed)⟩
  | exchange rdx rax =>
      exact ⟨known.1, known.2.1, fun index passed => zero index (known.2.2 index passed)⟩
  | found rdx rax => exact ⟨known.1, zero rdx known.2⟩
  | ended => exact fun index bound => zero index (known index bound)

/-- A processor at the sentinel has seen each stack taken by a processor of its own. -/
theorem Claimed.length_lt_card [Fintype ι] (claimed : scan.Claimed pointers)
    (valid : ∀ pointer ∈ pointers, pointer ≠ 0 ∧ pointer ≠ 1) {processor : ι}
    (ended : scan.processors processor = .ended) : pointers.length < Fintype.card ι := by
  have known := claimed.known processor
  rw [ended] at known
  have taken : ∀ index : Fin pointers.length,
      ∃ owner rax, scan.processors owner = .found index rax := by
    intro index
    rcases claimed.slot index index.isLt with unchanged | ⟨-, taken⟩
    · have zero := unchanged.symm.trans (known index index.isLt)
      exact absurd zero (valid _ (List.getElem_mem index.isLt)).1
    · exact taken
  choose owner rax found using taken
  have injective : Function.Injective owner := by
    intro left right same
    have leftFound := found left
    rw [same, found right] at leftFound
    exact Fin.ext (ScanPc.found.inj leftFound).1.symm
  have missed : processor ∉ Set.range owner := by
    rintro ⟨index, rfl⟩
    exact absurd (ended.symm.trans (found index)) nofun
  have fewer := Fintype.card_lt_of_injective_of_notMem owner injective missed
  rwa [Fintype.card_fin] at fewer

/-- No two processors leave the scan with the same slot, and with the same stack neither if the
pointers differ; each leaves with one of the original pointers; with enough stacks nobody reaches
the sentinel, and nobody reads behind it. -/
structure Exclusive [Fintype ι] (pointers : List Word) (scan : StackScan ι) : Prop where
  slots : ∀ left right leftSlot rightSlot leftRax rightRax, left ≠ right →
    scan.processors left = .found leftSlot leftRax →
    scan.processors right = .found rightSlot rightRax → leftSlot ≠ rightSlot
  stack : pointers.Nodup → ∀ left right leftSlot rightSlot leftRax rightRax, left ≠ right →
    scan.processors left = .found leftSlot leftRax →
    scan.processors right = .found rightSlot rightRax → leftRax ≠ rightRax
  original : ∀ processor rdx rax, scan.processors processor = .found rdx rax →
    pointers[rdx]? = some rax
  enough : Fintype.card ι ≤ pointers.length → ∀ processor, scan.processors processor ≠ .ended
  within : ∀ processor rdx, scan.processors processor = .load rdx → rdx ≤ pointers.length

theorem Claimed.exclusive [Fintype ι] (claimed : scan.Claimed pointers)
    (valid : ∀ pointer ∈ pointers, pointer ≠ 0 ∧ pointer ≠ 1) : scan.Exclusive pointers := by
  have original : ∀ processor rdx rax, scan.processors processor = .found rdx rax →
      pointers[rdx]? = some rax := by
    intro processor rdx rax found
    have known := claimed.known processor
    rw [found] at known
    exact known.1
  have slots : ∀ left right leftSlot rightSlot leftRax rightRax, left ≠ right →
      scan.processors left = .found leftSlot leftRax →
      scan.processors right = .found rightSlot rightRax → leftSlot ≠ rightSlot := by
    rintro left right leftSlot _ leftRax rightRax distinct leftFound rightFound rfl
    exact distinct (claimed.once left right leftSlot leftRax rightRax leftFound rightFound)
  refine ⟨slots, ?_, original, ?_, ?_⟩
  · rintro nodup left right leftSlot rightSlot leftRax _ distinct leftFound rightFound rfl
    obtain ⟨within, -⟩ := List.getElem?_eq_some_iff.mp (original left _ _ leftFound)
    refine slots left right leftSlot rightSlot _ _ distinct leftFound rightFound ?_
    rw [← List.getElem?_inj within nodup, original left _ _ leftFound,
      original right _ _ rightFound]
  · intro enough processor ended
    have fewer := claimed.length_lt_card valid ended
    omega
  · intro processor rdx loading
    have known := claimed.known processor
    rw [loading] at known
    exact known.1

/-! ## Steps -/

/-- A slot that still holds a pointer is nobody's stack. -/
theorem Claimed.unowned (claimed : scan.Claimed pointers) {rdx : Nat}
    (occupied : scan.slots rdx ≠ 0) (owner : ι) (rax : Word) :
    scan.processors owner ≠ .found rdx rax := by
  intro found
  have taken := claimed.known owner
  rw [found] at taken
  exact occupied taken.2

variable [DecidableEq ι]

namespace Claimed

/-- A processor moves on without taking a slot. -/
theorem move (claimed : scan.Claimed pointers) {processor : ι} {pc : ScanPc}
    (before : ∀ rdx rax, scan.processors processor ≠ .found rdx rax)
    (after : ∀ rdx rax, pc ≠ .found rdx rax) (known : Known pointers scan.slots pc) :
    Claimed pointers { scan with processors := Function.update scan.processors processor pc } := by
  have kept : ∀ other rdx rax,
      Function.update scan.processors processor pc other = .found rdx rax ↔
        scan.processors other = .found rdx rax := by
    intro other rdx rax
    by_cases same : other = processor
    · subst same
      rw [Function.update_self]
      exact ⟨fun found => absurd found (after rdx rax), fun found => absurd found (before rdx rax)⟩
    · rw [Function.update_of_ne same]
  refine ⟨claimed.sentinel, ?_, ?_, ?_⟩
  · intro index bound
    refine (claimed.slot index bound).imp_right ?_
    rintro ⟨empty, owner, rax, found⟩
    exact ⟨empty, owner, rax, (kept owner index rax).mpr found⟩
  · intro other
    by_cases same : other = processor
    · subst same
      simp only [Function.update_self]
      exact known
    · simp only [Function.update_of_ne same]
      exact claimed.known other
  · intro left right index leftRax rightRax leftFound rightFound
    exact claimed.once left right index leftRax rightRax ((kept _ _ _).mp leftFound)
      ((kept _ _ _).mp rightFound)

theorem load (claimed : scan.Claimed pointers) {processor : ι} {rdx : Nat}
    (valid : ∀ pointer ∈ pointers, pointer ≠ 0 ∧ pointer ≠ 1)
    (loading : scan.processors processor = .load rdx) : (scan.next processor).Claimed pointers := by
  have known := claimed.known processor
  rw [loading] at known
  obtain ⟨bound, passed⟩ := known
  simp only [next, loading]
  refine claimed.move (by simp [loading]) ?_ ?_
  · intro index rax
    split
    · exact nofun
    · split <;> exact nofun
  rcases Nat.lt_or_eq_of_le bound with within | rfl
  · have member : pointers[rdx] ∈ pointers := List.getElem_mem within
    rcases claimed.slot rdx within with present | ⟨empty, -⟩
    · rw [present, if_neg (valid _ member).1, if_neg (valid _ member).2]
      exact ⟨List.getElem?_eq_getElem within, (valid _ member).1, passed⟩
    · rw [if_pos empty]
      refine ⟨within, fun index below => ?_⟩
      rcases Nat.lt_succ_iff_lt_or_eq.mp below with earlier | rfl
      · exact passed index earlier
      · exact empty
  · rw [claimed.sentinel, if_neg (by decide), if_pos rfl]
    exact passed

/-- After a successful exchange, a processor with a stack has just taken it or has another one. -/
theorem found_cases (claimed : scan.Claimed pointers) {processor owner : ι} {rdx index : Nat}
    {rax other : Word} (occupied : scan.slots rdx ≠ 0)
    (found : Function.update scan.processors processor (.found rdx rax) owner =
      .found index other) :
    (owner = processor ∧ index = rdx) ∨
      (index ≠ rdx ∧ scan.processors owner = .found index other) := by
  by_cases same : owner = processor
  · subst same
    rw [Function.update_self] at found
    exact .inl ⟨rfl, (ScanPc.found.inj found).1.symm⟩
  · rw [Function.update_of_ne same] at found
    exact .inr ⟨fun here => claimed.unowned occupied owner other (here ▸ found), found⟩

/-- A successful exchange: the slot is the stack of this processor alone. -/
theorem take (claimed : scan.Claimed pointers) {processor : ι} {rdx : Nat} {rax : Word}
    (exchanging : scan.processors processor = .exchange rdx rax)
    (original : pointers[rdx]? = some rax) (nonzero : rax ≠ 0) (present : scan.slots rdx = rax) :
    Claimed pointers
      { slots := Function.update scan.slots rdx 0
        processors := Function.update scan.processors processor (.found rdx rax) } := by
  obtain ⟨within, -⟩ := List.getElem?_eq_some_iff.mp original
  have occupied : scan.slots rdx ≠ 0 := present ▸ nonzero
  refine ⟨?_, ?_, ?_, ?_⟩
  · simp only [Function.update_of_ne (Nat.ne_of_gt within)]
    exact claimed.sentinel
  · intro index bound
    by_cases same : index = rdx
    · subst same
      exact .inr ⟨Function.update_self .., processor, rax, Function.update_self ..⟩
    · simp only [Function.update_of_ne same]
      refine (claimed.slot index bound).imp_right ?_
      rintro ⟨empty, owner, other, found⟩
      refine ⟨empty, owner, other, ?_⟩
      rw [Function.update_of_ne]
      · exact found
      · rintro rfl
        exact absurd (exchanging.symm.trans found) nofun
  · intro other
    by_cases same : other = processor
    · subst same
      simp only [Function.update_self]
      exact ⟨original, Function.update_self ..⟩
    · simp only [Function.update_of_ne same]
      exact (claimed.known other).take rdx
  · intro left right index leftRax rightRax leftFound rightFound
    rcases claimed.found_cases occupied leftFound with ⟨rfl, rfl⟩ | ⟨leftOther, leftOld⟩
    · rcases claimed.found_cases occupied rightFound with ⟨same, -⟩ | ⟨rightOther, -⟩
      · exact same.symm
      · exact absurd rfl rightOther
    · rcases claimed.found_cases occupied rightFound with ⟨-, same⟩ | ⟨-, rightOld⟩
      · exact absurd same leftOther
      · exact claimed.once left right index leftRax rightRax leftOld rightOld

theorem exchange (claimed : scan.Claimed pointers) {processor : ι} {rdx : Nat} {rax : Word}
    (exchanging : scan.processors processor = .exchange rdx rax) :
    (scan.next processor).Claimed pointers := by
  have known := claimed.known processor
  rw [exchanging] at known
  obtain ⟨original, nonzero, passed⟩ := known
  by_cases present : scan.slots rdx = rax
  · simp only [next, exchanging, if_pos present]
    exact claimed.take exchanging original nonzero present
  · obtain ⟨within, value⟩ := List.getElem?_eq_some_iff.mp original
    have taken : scan.slots rdx = 0 := by
      rcases claimed.slot rdx within with unchanged | ⟨empty, -⟩
      · exact absurd (unchanged.trans value) present
      · exact empty
    simp only [next, exchanging, if_neg present]
    refine claimed.move (by simp [exchanging]) nofun ⟨within, fun index below => ?_⟩
    rcases Nat.lt_succ_iff_lt_or_eq.mp below with earlier | rfl
    · exact passed index earlier
    · exact taken

theorem next (claimed : scan.Claimed pointers)
    (valid : ∀ pointer ∈ pointers, pointer ≠ 0 ∧ pointer ≠ 1) (processor : ι) :
    (scan.next processor).Claimed pointers := by
  cases pc : scan.processors processor with
  | load rdx => exact claimed.load valid pc
  | exchange rdx rax => exact claimed.exchange pc
  | found | ended =>
      simp only [StackScan.next, pc]
      exact claimed

end Claimed

/-- Every schedule of the processors keeps their claims apart. -/
theorem foldl_claimed (valid : ∀ pointer ∈ pointers, pointer ≠ 0 ∧ pointer ≠ 1)
    (placed : Placed pointers slots) (schedule : List ι) :
    (schedule.foldl next (start slots)).Claimed pointers := by
  suffices run : ∀ scan : StackScan ι, scan.Claimed pointers →
      (schedule.foldl next scan).Claimed pointers from run _ placed.claimed
  induction schedule with
  | nil => exact fun _ claimed => claimed
  | cons processor rest induction =>
      exact fun scan claimed => induction _ (claimed.next valid processor)

/-- In every schedule of any number of processors, the boot stacks are claimed exclusively. -/
theorem foldl_exclusive [Fintype ι] (valid : ∀ pointer ∈ pointers, pointer ≠ 0 ∧ pointer ≠ 1)
    (placed : Placed pointers slots) (schedule : List ι) :
    (schedule.foldl next (start slots)).Exclusive pointers :=
  (foldl_claimed valid placed schedule).exclusive valid

/-- The array of `pointers` with the sentinel, and zeros behind it. -/
def arrayOf (pointers : List Word) (index : Nat) : Word := (pointers ++ [1]).getD index 0

theorem arrayOf_placed (pointers : List Word) : Placed pointers (arrayOf pointers) where
  stack index bound := by
    rw [arrayOf, List.getD_eq_getElem?_getD, List.getElem?_append_left bound,
      List.getElem?_eq_getElem bound, Option.getD_some]
  sentinel := by simp [arrayOf]

/-- Two processors race for the first of two stacks. -/
theorem foldl_exclusive_race :
    (([0, 1, 0, 1, 1, 1] : List (Fin 2)).foldl next
        (start (arrayOf [0x9000, 0xA000]))).Exclusive [0x9000, 0xA000] :=
  foldl_exclusive (by simp) (arrayOf_placed _) [0, 1, 0, 1, 1, 1]

/-- An array that holds one pointer twice gives one stack to two processors. -/
theorem foldl_sameStack :
    (([0, 0, 1, 1, 1] : List (Fin 2)).foldl next (start (arrayOf [0x9000, 0x9000]))).processors 0 =
        .found 0 0x9000 ∧
      (([0, 0, 1, 1, 1] : List (Fin 2)).foldl next
        (start (arrayOf [0x9000, 0x9000]))).processors 1 = .found 1 0x9000 :=
  ⟨rfl, rfl⟩

end StackScan

/-! ## The checks of `init_trampoline` -/

/-- A pointer is not null and a multiple of 16, except for the canary at the end. -/
def stackPointerIsInvalid (stack : List Word) : Bool :=
  stack.zipIdx.any fun entry =>
    let isAligned := entry.1.toNat % 16 = 0
    let isLastEntry := entry.2 = stack.length - 1
    let isCanary := entry.1 = 1
    entry.1 = 0 || !(isAligned || (isLastEntry && isCanary))

/-- The checks of its stack array that `init_trampoline` starts with. -/
def initTrampolineStackChecks {σ : Type} (stack : List Word) : Kernel σ Unit :=
  if stackPointerIsInvalid stack then
    raise .invalidArgument "stack pointer is invalid."
  else if stack.getLast? ≠ some 1 then
    raise .invalidArgument "stack last item is need 0x1."
  else
    pure ()

/-- An array that passes the checks is a list of stack pointers followed by the sentinel. -/
theorem pointers_of_initTrampolineStackChecks {σ : Type} {stack : List Word} {state : σ}
    (passed : initTrampolineStackChecks stack state = (.ok (), state)) :
    ∃ pointers, stack = pointers ++ [1] ∧ ∀ pointer ∈ pointers, pointer ≠ 0 ∧ pointer ≠ 1 := by
  unfold initTrampolineStackChecks at passed
  split at passed
  · cases passed
  rename_i noneInvalid
  split at passed
  · cases passed
  rename_i last
  obtain ⟨pointers, rfl⟩ := List.getLast?_eq_some_iff.mp (not_not.mp last)
  refine ⟨pointers, rfl, fun pointer member => ?_⟩
  obtain ⟨index, bound, rfl⟩ := List.getElem_of_mem member
  have entry : (pointers[index], index) ∈ (pointers ++ [1]).zipIdx := by
    rw [List.mem_zipIdx_iff_getElem?, List.getElem?_append_left bound]
    exact List.getElem?_eq_getElem bound
  have inner : index ≠ (pointers ++ [1]).length - 1 := by
    rw [List.length_append, List.length_singleton]
    omega
  rw [stackPointerIsInvalid, Bool.not_eq_true, List.any_eq_false] at noneInvalid
  have ok := noneInvalid _ entry
  simp only [inner, decide_false, Bool.false_and, Bool.or_false, Bool.or_eq_true, decide_eq_true_eq,
    Bool.not_eq_true, not_or] at ok
  refine ⟨ok.1, fun one => ?_⟩
  simp [one] at ok

end Okots
