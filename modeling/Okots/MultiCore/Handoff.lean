import Okots.Library.Stuttering
import Okots.MultiCore.TrampolineBoot

/-!
# The hand-over to the kernel

Any number of processors run the trampoline at the same time, one instruction after the other in any
order.  Their code is a refinement of the search that `StackScan` describes: between the load and
the exchange of a slot a processor changes nothing but its own registers.  So the stacks are handed
out as there, and every processor that is given enough time arrives at the entry point: it needs at
most eleven instructions for a slot that is already taken.
-/

namespace Okots.Trampoline

open ControlRegisters Stuttering StackScan

/-- The memory and the processors. -/
structure Machine (ι : Type*) where
  memory : Quadwords
  cpus : ι → Ap

/-- One instruction of a processor. -/
def Machine.next {ι : Type*} [DecidableEq ι] (env : ApEnv) (machine : Machine ι) (processor : ι) :
    Machine ι where
  memory := ((machine.cpus processor).step env machine.memory).2
  cpus := Function.update machine.cpus processor
    ((machine.cpus processor).step env machine.memory).1

/-! ## The array of the stacks -/

/-- The quadword of the first slot. -/
def Args.first (args : Args) : Nat := args.stack.toNat / 8

/-- The address of a slot. -/
def Args.slot (args : Args) (index : Nat) : Word := args.stack + BitVec.ofNat 64 (8 * index)

/-- Nothing but the slots has changed. -/
def Agrees (args : Args) (length : Nat) (initial memory : Quadwords) : Prop :=
  ∀ index, (index < args.first ∨ args.first + length < index) → memory index = initial index

/-- What `init_trampoline` prepares for the other processors. -/
structure Prepared (env : ApEnv) (args : Args) (length : Nat) (initial : Quadwords) : Prop where
  supports : Ap.Supports env.support args.nx args.la57
  switches : Ap.Switches env.support args
  injective : Function.Injective env.address
  outside : ∀ label, env.address label ≠ args.target
  target : args.target ≠ 0
  aligned : args.stack.toNat % 8 = 0
  room : args.stack.toNat + 8 * (length + 1) ≤ 2 ^ 64
  loaded : ∀ memory, Agrees args length initial memory → Ap.Loaded args memory
  code : ∀ cd nw, Ap.Fetches (Agrees args length initial) (Ap.kernel cd nw args)
  data : ∀ memory, Agrees args length initial memory → ∀ cd nw, ∀ address ∈ [argsStack, argsTarget],
    Ap.translate (Ap.kernel cd nw args) memory .read address = some address
  slots : ∀ memory, Agrees args length initial memory → ∀ cd nw, ∀ index ≤ length,
    ∀ access ∈ [Ap.Access.read, .write],
      Ap.translate (Ap.kernel cd nw args) memory access (args.stack.toNat + 8 * index) =
        some (args.stack.toNat + 8 * index)

namespace Ap

/-! ## Key points -/

/-- A processor in the search, at the given code and slot. -/
structure Searching (args : Args) (code : List Line) (index : Nat) (cpu : Ap) : Prop where
  pc : cpu.pc = .run code
  bits : cpu.code = .bits64
  controls : ∃ cd nw, cpu.controls = kernel cd nw args
  interrupts : cpu.interruptFlag = false
  rbx : cpu.register .rbx = args.slot index
  rdx : cpu.register .rdx = BitVec.ofNat 64 index

/-- A processor that has jumped to the entry point: the stack pointer is the one of the slot,
rounded down, and the slot is the argument. -/
structure Handed (args : Args) (index : Nat) (stack : Word) (cpu : Ap) : Prop where
  pc : cpu.pc = .left args.target
  bits : cpu.code = .bits64
  controls : ∃ cd nw, cpu.controls = kernel cd nw args
  interrupts : cpu.interruptFlag = false
  rsp : cpu.register .rsp = stack &&& -16
  rcx : cpu.register .rcx = BitVec.ofNat 64 index

/-- The state in which a processor takes the next step of the search. -/
def Key (args : Args) : ScanPc → Ap → Prop
  | .load index, cpu => Searching args (codeAt .findIter).tail index cpu
  | .exchange index rax, cpu => Searching args ((codeAt .findIter).drop 7) index cpu ∧
      cpu.register .rax = rax ∧ cpu.register .rcx = 0
  | .found index rax, cpu => Handed args index rax cpu
  | .ended, cpu => cpu.pc = .stopped

/-- Instructions that are left at most, from a key point on. -/
def weight (length : Nat) : ScanPc → Nat
  | .load index => 11 * (length - index) + 7
  | .exchange index _ => 11 * (length - index) + 1
  | .found _ _ | .ended => 0

section Key

variable {env : ApEnv} {args : Args} {length : Nat} {initial : Quadwords}
  {register : Register → Word} {zf cd nw : Bool} {table : List Word}
  {segments : SegmentRegister → Segment} {index : Nat}
  (prepared : Prepared env args length initial)

theorem slot_succ (args : Args) (index : Nat) : args.slot index + 8 = args.slot (index + 1) := by
  rw [Args.slot, Args.slot, Nat.mul_succ, BitVec.ofNat_add, BitVec.add_assoc]
  rfl

theorem ofNat_succ (index : Nat) : BitVec.ofNat 64 index + 1 = BitVec.ofNat 64 (index + 1) :=
  (BitVec.ofNat_add ..).symm

include prepared

/-- `.find_iter`, up to the load. -/
theorem arrives_load (rbx : register .rbx + 8 = args.slot index)
    (rdx : register .rdx = BitVec.ofNat 64 index) :
    Arrives env (Agrees args length initial) (Key args (.load index)) 1
      ⟨register, zf, false, kernel cd nw args, .bits64, table, segments,
        .run (codeAt .findIter)⟩ := by
  apply Arrives.alu (prepared.code cd nw) (args.slot index)
  · exact rbx
  exact .here ⟨rfl, rfl, ⟨cd, nw, rfl⟩, rfl, by simp [merge], by simpa using rdx⟩

/-- `.next`. -/
theorem arrives_next (rbx : register .rbx = args.slot index)
    (rdx : register .rdx = BitVec.ofNat 64 index) :
    Arrives env (Agrees args length initial) (Key args (.load (index + 1))) 3
      ⟨register, zf, false, kernel cd nw args, .bits64, table, segments,
        .run (codeAt .next)⟩ := by
  apply Arrives.inc (prepared.code cd nw)
  apply Arrives.jmp (prepared.code cd nw)
  apply arrives_load prepared
  · rw [Function.update_of_ne (by decide), rbx, slot_succ]
  · rw [Function.update_self, rdx, ofNat_succ]

/-- The abstract search after a load. -/
def loadedPc (index : Nat) (rax : Word) : ScanPc :=
  if rax = 0 then .load (index + 1) else if rax = 1 then .ended else .exchange index rax

/-- The tests behind the load. -/
theorem arrives_loaded {rax : Word} (value : register .rax = rax)
    (rbx : register .rbx = args.slot index) (rdx : register .rdx = BitVec.ofNat 64 index) :
    Arrives env (Agrees args length initial) (Key args (loadedPc index rax))
      (if rax = 1 then 6 else 5)
      ⟨register, zf, false, kernel cd nw args, .bits64, table, segments,
        .run ((codeAt .findIter).drop 2)⟩ := by
  have fetches := prepared.code cd nw
  by_cases zero : rax = 0
  · rw [if_neg (by rw [zero]; decide), loadedPc, if_pos zero]
    apply Arrives.test fetches true
    · simp [operand, value, zero, low]
    apply Arrives.jz fetches
    exact arrives_next prepared rbx rdx
  rw [loadedPc, if_neg zero]
  by_cases one : rax = 1
  · rw [if_pos one, if_pos one]
    apply Arrives.test fetches false
    · simpa [operand, value, low] using zero
    apply Arrives.jz fetches
    apply Arrives.cmp fetches
    apply Arrives.jz fetches
    simp only [value, one, decide_true, if_true]
    apply Arrives.mov fetches
    apply Arrives.ud2 fetches
    exact .here rfl
  · rw [if_neg one, if_neg one]
    apply Arrives.test fetches false
    · simpa [operand, value, low] using zero
    apply Arrives.jz fetches
    apply Arrives.cmp fetches
    apply Arrives.jz fetches
    simp only [value, one, decide_false, Bool.false_eq_true, if_false]
    apply Arrives.alu fetches 0 BitVec.xor_self
    refine .here ⟨⟨rfl, rfl, ⟨cd, nw, rfl⟩, rfl, ?_, ?_⟩, ?_, ?_⟩
    · simpa using rbx
    · simpa using rdx
    · simpa using value
    · simp [merge]

/-- A failed exchange. -/
theorem arrives_missed (rbx : register .rbx = args.slot index)
    (rdx : register .rdx = BitVec.ofNat 64 index) :
    Arrives env (Agrees args length initial) (Key args (.load (index + 1))) 4
      ⟨register, false, false, kernel cd nw args, .bits64, table, segments,
        .run ((codeAt .findIter).drop 8)⟩ := by
  apply Arrives.jz (prepared.code cd nw)
  exact arrives_next prepared rbx rdx

/-- A successful exchange. -/
theorem arrives_handed {rax : Word} (value : register .rax = rax)
    (rdx : register .rdx = BitVec.ofNat 64 index) (pointer : rax &&& -16 ≠ 0) :
    Arrives env (Agrees args length initial) (Key args (.found index rax)) 11
      ⟨register, true, false, kernel cd nw args, .bits64, table, segments,
        .run ((codeAt .findIter).drop 8)⟩ := by
  have fetches := prepared.code cd nw
  apply Arrives.jz fetches
  apply Arrives.mov fetches
  apply Arrives.mov fetches
  apply Arrives.alu fetches (rax &&& -16)
  · simp [compute, low, operand, merge, value]
  apply Arrives.test fetches false
  · simpa [operand, merge, low] using pointer
  apply Arrives.jnz fetches
  apply Arrives.loadAbsolute fetches args.target
  · intro memory agrees
    refine ⟨_, (prepared.loaded memory agrees).target, ?_⟩
    simp only [quadword, linear, if_true, Option.bind_some,
      prepared.data memory agrees cd nw argsTarget (by simp)]
    rfl
  apply Arrives.test fetches false
  · simpa [operand, low] using prepared.target
  apply Arrives.jnz fetches
  apply Arrives.mov fetches
  apply Arrives.leave fetches
  · simpa using prepared.outside
  · refine .here ⟨?_, rfl, ⟨cd, nw, rfl⟩, rfl, ?_, ?_⟩
    · simp
    · simp [merge]
    · simp [merge, operand, rdx]

omit prepared in
/-- A processor that has left the listing stays where it is. -/
theorem step_idle {cpu : Ap} {memory : Quadwords} (idle : ∀ rest, cpu.pc ≠ .run rest) :
    cpu.step env memory = (cpu, memory) := by
  rw [step]
  cases pc : cpu.pc with
  | run rest => exact absurd pc (idle rest)
  | left | stopped => rfl

omit prepared in
theorem Arrives.of_idle {good : Quadwords → Prop} {goal : Ap → Prop} {bound : Nat} {cpu : Ap}
    {memory : Quadwords} (arrives : Arrives env good goal bound cpu) (holds : good memory)
    (idle : ∀ rest, cpu.pc ≠ .run rest) : goal cpu := by
  induction arrives with
  | here reached => exact reached
  | step steps _ induction =>
      have stays := (steps memory holds).symm.trans (step_idle idle)
      obtain rfl : _ = _ := (Prod.ext_iff.mp stays).1
      exact induction idle

/-! ## Accesses to the array -/

variable {memory : Quadwords} {cpu : Ap}

theorem quadword_slot (agrees : Agrees args length initial memory) (within : index ≤ length)
    {access : Access} (kind : access ∈ [Access.read, .write]) {pc : Pc} :
    quadword ⟨register, zf, false, kernel cd nw args, .bits64, table, segments, pc⟩ memory access
      (args.slot index).toNat = some (args.first + index) := by
  have room := prepared.room
  have address : (args.slot index).toNat = args.stack.toNat + 8 * index := by
    rw [Args.slot, BitVec.toNat_add, BitVec.toNat_ofNat, Nat.add_mod_mod, Nat.mod_eq_of_lt]
    omega
  have aligned := prepared.aligned
  simp only [quadword, linear, if_true, Option.bind_some, address,
    prepared.slots memory agrees cd nw index within access kind]
  rw [if_pos (by omega), Args.first]
  congr 1
  omega

/-- The load of a slot. -/
theorem step_load (agrees : Agrees args length initial memory) (within : index ≤ length)
    (key : Key args (.load index) cpu) :
    ∃ after, cpu.step env memory = (after, memory) ∧
      Arrives env (Agrees args length initial)
        (Key args (loadedPc index (memory (args.first + index))))
        (if memory (args.first + index) = 1 then 6 else 5) after := by
  obtain ⟨register, zf, interruptFlag, _, _, table, segments, _⟩ := cpu
  obtain ⟨rfl, rfl, ⟨cd, nw, rfl⟩, rfl, rbx, rdx⟩ := key
  dsimp only at rbx rdx
  refine ⟨⟨Function.update register .rax (memory (args.first + index)), zf, false,
      kernel cd nw args, .bits64, table, segments, .run ((codeAt .findIter).drop 2)⟩,
    (step_run (prepared.code cd nw memory agrees)).trans ?_,
    arrives_loaded prepared (Function.update_self ..) ?_ ?_⟩
  · simp only [Ap.execute, rbx, quadword_slot prepared agrees within (List.mem_cons_self ..)]
    rfl
  · simpa using rbx
  · simpa using rdx

/-- The exchange of a slot. -/
theorem step_exchange {rax : Word} (agrees : Agrees args length initial memory)
    (within : index ≤ length) (pointer : rax &&& -16 ≠ 0)
    (key : Key args (.exchange index rax) cpu) :
    (memory (args.first + index) = rax → ∃ after,
      cpu.step env memory = (after, Function.update memory (args.first + index) 0) ∧
        Arrives env (Agrees args length initial) (Key args (.found index rax)) 11 after) ∧
    (memory (args.first + index) ≠ rax → ∃ after, cpu.step env memory = (after, memory) ∧
      Arrives env (Agrees args length initial) (Key args (.load (index + 1))) 4 after) := by
  obtain ⟨register, zf, interruptFlag, _, _, table, segments, _⟩ := cpu
  obtain ⟨⟨rfl, rfl, ⟨cd, nw, rfl⟩, rfl, rbx, rdx⟩, rfl, rcx⟩ := key
  dsimp only at rbx rdx rcx pointer ⊢
  have kind : Access.write ∈ [Access.read, .write] := by simp
  refine ⟨fun same => ?_, fun different => ?_⟩
  · refine ⟨⟨register, true, false, kernel cd nw args, .bits64, table, segments,
        .run ((codeAt .findIter).drop 8)⟩,
      (step_run (prepared.code cd nw memory agrees)).trans ?_,
      arrives_handed prepared rfl rdx pointer⟩
    simp only [Ap.execute, rbx, rcx, quadword_slot prepared agrees within kind, if_pos same]
    rfl
  · refine ⟨⟨Function.update register .rax (memory (args.first + index)), false, false,
        kernel cd nw args, .bits64, table, segments, .run ((codeAt .findIter).drop 8)⟩,
      (step_run (prepared.code cd nw memory agrees)).trans ?_, arrives_missed prepared ?_ ?_⟩
    · simp only [Ap.execute, rbx, rcx, quadword_slot prepared agrees within kind,
        if_neg different]
      rfl
    · simpa using rbx
    · simpa using rdx

end Key

end Ap

/-- A stack pointer that passes the check of its alignment is not rounded. -/
theorem and_neg_sixteen {pointer : Word} (aligned : 16 ∣ pointer.toNat) :
    pointer &&& -16 = pointer := by
  have mask : ∀ index : Fin 64, (-16 : Word).getLsbD index = decide (4 ≤ index.val) := by decide
  apply BitVec.eq_of_getLsbD_eq
  intro index bound
  rw [BitVec.getLsbD_and, mask ⟨index, bound⟩]
  by_cases high : 4 ≤ index
  · simp [high]
  · have clear : pointer.getLsbD index = false :=
      testBit_of_dvd (show 2 ^ 4 ∣ pointer.toNat from aligned) (Nat.lt_of_not_le high)
    rw [clear, Bool.false_and]

/-! ## The simulation -/

open Ap

section Tracks

variable {ι : Type*} {env : ApEnv} {args : Args} {pointers : List Word} {initial : Quadwords}

/-- A machine that carries out a search: the slots are those of the search, each processor is on its
way to the next step that the search has for it, and has instructions left for the whole way. -/
structure Tracks (env : ApEnv) (args : Args) (pointers : List Word) (initial : Quadwords)
    (machine : Machine ι) (scan : StackScan ι) (budget : ι → Nat) : Prop where
  claimed : scan.Claimed pointers
  agrees : Agrees args pointers.length initial machine.memory
  slots : ∀ index ≤ pointers.length, machine.memory (args.first + index) = scan.slots index
  follows : ∀ processor, ∃ bound,
    Arrives env (Agrees args pointers.length initial) (Key args (scan.processors processor)) bound
      (machine.cpus processor) ∧
    bound + weight pointers.length (scan.processors processor) ≤ budget processor

variable [DecidableEq ι] {machine : Machine ι} {scan : StackScan ι} {budget : ι → Nat}

/-- One processor goes on, and the others do not notice. -/
theorem Tracks.advance (tracks : Tracks env args pointers initial machine scan budget)
    {processor : ι} {cpu : Ap} {memory : Quadwords} {after : StackScan ι} {pc : ScanPc}
    {bound : Nat}
    (stepped : (machine.cpus processor).step env machine.memory = (cpu, memory))
    (claimed : after.Claimed pointers)
    (agrees : Agrees args pointers.length initial memory)
    (slots : ∀ index ≤ pointers.length, memory (args.first + index) = after.slots index)
    (processors : after.processors = Function.update scan.processors processor pc)
    (arrives : Arrives env (Agrees args pointers.length initial) (Key args pc) bound cpu)
    (enough : bound + weight pointers.length pc ≤ budget processor - 1) :
    Tracks env args pointers initial (machine.next env processor) after
      (Function.update budget processor (budget processor - 1)) := by
  refine ⟨claimed, ?_, ?_, fun other => ?_⟩
  · rw [Machine.next, stepped]
    exact agrees
  · rw [Machine.next, stepped]
    exact slots
  · rw [Machine.next, stepped, processors]
    by_cases same : other = processor
    · subst same
      simp only [Function.update_self]
      exact ⟨bound, arrives, enough⟩
    · simp only [Function.update_of_ne same]
      exact tracks.follows other

/-- A processor that has come to its end stays there. -/
theorem Tracks.rest (tracks : Tracks env args pointers initial machine scan budget)
    {processor : ι} (key : Key args (scan.processors processor) (machine.cpus processor))
    (idle : ∀ rest, (machine.cpus processor).pc ≠ .run rest)
    (light : weight pointers.length (scan.processors processor) = 0) :
    Tracks env args pointers initial (machine.next env processor) scan
      (Function.update budget processor (budget processor - 1)) := by
  have arrives : Arrives env (Agrees args pointers.length initial)
      (Key args (scan.processors processor)) 0 (machine.cpus processor) := .here key
  exact tracks.advance (step_idle idle) tracks.claimed tracks.agrees tracks.slots
    (Function.update_eq_self ..).symm arrives (by omega)

variable {processor : ι} (prepared : Prepared env args pointers.length initial)
  (valid : ∀ pointer ∈ pointers, pointer ≠ 0 ∧ pointer ≠ 1)
  (stack : ∀ pointer ∈ pointers, pointer &&& -16 ≠ 0)

include prepared valid

omit [DecidableEq ι] prepared valid in
/-- The way after a load is shorter: a slot that was taken is not the sentinel. -/
theorem Tracks.weight_loadedPc (tracks : Tracks env args pointers initial machine scan budget)
    {index : Nat} (within : index ≤ pointers.length) :
    (if scan.slots index = 1 then 6 else 5) +
      weight pointers.length (loadedPc index (scan.slots index)) <
        weight pointers.length (.load index) := by
  have sentinel := tracks.claimed.sentinel
  by_cases zero : scan.slots index = 0
  · have inner : index ≠ pointers.length := by
      rintro rfl
      rw [sentinel] at zero
      cases zero
    rw [loadedPc, if_pos zero, if_neg (by rw [zero]; decide)]
    simp only [weight]
    omega
  rw [loadedPc, if_neg zero]
  split <;> simp only [weight] <;> omega

theorem Tracks.load (tracks : Tracks env args pointers initial machine scan budget) {index : Nat}
    (loading : scan.processors processor = .load index)
    (key : Key args (.load index) (machine.cpus processor))
    (enough : weight pointers.length (.load index) ≤ budget processor) :
    Tracks env args pointers initial (machine.next env processor) (scan.next processor)
      (Function.update budget processor (budget processor - 1)) := by
  have known := tracks.claimed.known processor
  rw [loading] at known
  obtain ⟨cpu, stepped, arrives⟩ := step_load prepared tracks.agrees known.1 key
  rw [tracks.slots index known.1] at arrives
  have cheaper := tracks.weight_loadedPc known.1
  refine tracks.advance stepped (tracks.claimed.next valid processor) tracks.agrees ?_ ?_ arrives
    (by omega)
  · simp only [StackScan.next, loading]
    exact tracks.slots
  · simp only [StackScan.next, loading]
    rfl

include stack

theorem Tracks.exchange (tracks : Tracks env args pointers initial machine scan budget)
    {index : Nat} {rax : Word} (exchanging : scan.processors processor = .exchange index rax)
    (key : Key args (.exchange index rax) (machine.cpus processor))
    (enough : weight pointers.length (.exchange index rax) ≤ budget processor) :
    Tracks env args pointers initial (machine.next env processor) (scan.next processor)
      (Function.update budget processor (budget processor - 1)) := by
  have known := tracks.claimed.known processor
  rw [exchanging] at known
  obtain ⟨within, member⟩ := List.getElem?_eq_some_iff.mp known.1
  have pointer := stack rax (member ▸ List.getElem_mem within)
  have next := tracks.claimed.next valid processor
  obtain ⟨taken, missed⟩ := step_exchange prepared tracks.agrees within.le pointer key
  rw [tracks.slots index within.le] at taken missed
  simp only [weight] at enough
  by_cases same : scan.slots index = rax
  · obtain ⟨cpu, stepped, arrives⟩ := taken same
    refine tracks.advance stepped next ?_ ?_ ?_ arrives ?_
    · intro other outside
      rw [Function.update_of_ne (by omega)]
      exact tracks.agrees other outside
    · intro other bound
      simp only [StackScan.next, exchanging, if_pos same]
      by_cases here : other = index
      · rw [here, Function.update_self, Function.update_self]
      · rw [Function.update_of_ne (by omega), Function.update_of_ne here]
        exact tracks.slots other bound
    · simp only [StackScan.next, exchanging, if_pos same]
    · simp only [weight]
      omega
  · obtain ⟨cpu, stepped, arrives⟩ := missed same
    refine tracks.advance stepped next tracks.agrees ?_ ?_ arrives ?_
    · simp only [StackScan.next, exchanging, if_neg same]
      exact tracks.slots
    · simp only [StackScan.next, exchanging, if_neg same]
    · simp only [weight]
      omega

/-- Every instruction of the machine is a step of the search, or none. -/
theorem tracks_keeps :
    Keeps (Machine.next env) StackScan.next (Tracks (ι := ι) env args pointers initial) := by
  intro machine scan budget processor tracks
  obtain ⟨bound, arrives, enough⟩ := tracks.follows processor
  cases arrives with
  | step steps later =>
      refine ⟨scan, .inl rfl, tracks.advance (steps _ tracks.agrees) tracks.claimed tracks.agrees
        tracks.slots (Function.update_eq_self ..).symm later (by omega)⟩
  | here key =>
      cases pc : scan.processors processor with
      | load index =>
          rw [pc] at key enough
          exact ⟨_, .inr rfl, tracks.load prepared valid pc key (by omega)⟩
      | exchange index rax =>
          rw [pc] at key enough
          exact ⟨_, .inr rfl, tracks.exchange prepared valid stack pc key (by omega)⟩
      | found index rax =>
          refine ⟨scan, .inl rfl, tracks.rest key ?_ (by rw [pc, weight])⟩
          rw [pc] at key
          simp [key.pc]
      | ended =>
          refine ⟨scan, .inl rfl, tracks.rest key ?_ (by rw [pc, weight])⟩
          rw [pc] at key
          simp [show (machine.cpus processor).pc = .stopped from key]

omit [DecidableEq ι] valid stack in
/-- Started processors are on their way to the first slot. -/
theorem tracks_start {cpus : ι → Ap}
    (placed : Placed pointers fun index => initial (args.first + index))
    (started : ∀ processor, ∃ cd nw cr3, Started cd nw cr3 (cpus processor)) :
    Tracks env args pointers initial ⟨initial, cpus⟩
      (start fun index => initial (args.first + index)) fun _ => 11 * pointers.length + 72 := by
  refine ⟨placed.claimed, fun _ _ => rfl, fun _ _ => rfl, fun processor => ⟨65, ?_, ?_⟩⟩
  · obtain ⟨cd, nw, cr3, holds⟩ := started processor
    have boots := holds.arrives prepared.supports prepared.loaded prepared.switches
      prepared.injective (prepared.code cd nw) fun memory agrees =>
        prepared.data memory agrees cd nw argsStack (by simp)
    refine boots.trans ?_
    rintro cpu ⟨stage, rbx, rdx⟩
    rw [stage.eq]
    refine arrives_load prepared ?_ rdx
    rw [rbx, Args.slot, Nat.mul_zero, BitVec.add_zero]
    exact BitVec.sub_add_cancel ..
  · simp only [start, weight]
    omega

/-- What holds after a schedule in which each processor has taken the given number of steps. -/
structure HandedOver (args : Args) (pointers : List Word) (machine : Machine ι) (steps : ι → Nat) :
    Prop where
  running : ∀ processor, (machine.cpus processor).pc ≠ .stopped
  arrived : ∀ processor, 11 * pointers.length + 72 ≤ steps processor →
    (machine.cpus processor).pc = .left args.target
  handed : ∀ processor, (machine.cpus processor).pc = .left args.target →
    ∃ index pointer, pointers[index]? = some pointer ∧
      Handed args index pointer (machine.cpus processor)
  apart : ∀ left right, left ≠ right → (machine.cpus left).pc = .left args.target →
    (machine.cpus right).pc = .left args.target →
      (machine.cpus left).register .rcx ≠ (machine.cpus right).register .rcx ∧
      (pointers.Nodup → (machine.cpus left).register .rsp ≠ (machine.cpus right).register .rsp)

omit [DecidableEq ι] prepared valid stack in
/-- A processor that has left the listing has a stack, unless it found none. -/
theorem Tracks.found_of_idle (tracks : Tracks env args pointers initial machine scan budget)
    (notEnded : scan.processors processor ≠ .ended)
    (idle : ∀ rest, (machine.cpus processor).pc ≠ .run rest) :
    ∃ index rax, scan.processors processor = .found index rax ∧
      Handed args index rax (machine.cpus processor) := by
  obtain ⟨bound, arrives, -⟩ := tracks.follows processor
  have key := arrives.of_idle tracks.agrees idle
  cases pc : scan.processors processor with
  | load index =>
      rw [pc] at key
      exact absurd key.pc (idle _)
  | exchange index rax =>
      rw [pc] at key
      exact absurd key.1.pc (idle _)
  | found index rax =>
      rw [pc] at key
      exact ⟨index, rax, rfl, key⟩
  | ended => exact absurd pc notEnded

omit [DecidableEq ι] stack in
theorem Tracks.handedOver [Fintype ι] {steps : ι → Nat}
    (tracks : Tracks env args pointers initial machine scan fun processor =>
      11 * pointers.length + 72 - steps processor)
    (aligned : ∀ pointer ∈ pointers, 16 ∣ pointer.toNat)
    (enough : Fintype.card ι ≤ pointers.length) : HandedOver args pointers machine steps := by
  have exclusive := tracks.claimed.exclusive valid
  have found : ∀ processor, (∀ rest, (machine.cpus processor).pc ≠ .run rest) →
      ∃ index rax, scan.processors processor = .found index rax ∧
        Handed args index rax (machine.cpus processor) :=
    fun processor => tracks.found_of_idle (exclusive.enough enough processor)
  have left : ∀ processor, (machine.cpus processor).pc = .left args.target →
      ∃ index rax, scan.processors processor = .found index rax ∧
        Handed args index rax (machine.cpus processor) :=
    fun processor pc => found processor (by simp [pc])
  refine ⟨?_, ?_, ?_, ?_⟩
  · intro processor stopped
    obtain ⟨_, _, -, handed⟩ := found processor (by simp [stopped])
    cases stopped.symm.trans handed.pc
  · intro processor many
    obtain ⟨bound, arrives, small⟩ := tracks.follows processor
    have spent : bound = 0 ∧ weight pointers.length (scan.processors processor) = 0 := by omega
    obtain ⟨rfl, light⟩ := spent
    cases arrives with
    | here key =>
        cases pc : scan.processors processor with
        | load | exchange =>
            rw [pc, weight] at light
            omega
        | found index rax =>
            rw [pc] at key
            exact key.pc
        | ended => exact absurd pc (exclusive.enough enough processor)
  · intro processor pc
    obtain ⟨index, rax, taken, handed⟩ := left processor pc
    exact ⟨index, rax, exclusive.original processor index rax taken, handed⟩
  · intro first second different firstPc secondPc
    obtain ⟨index, rax, taken, handed⟩ := left first firstPc
    obtain ⟨other, pointer, otherTaken, otherHanded⟩ := left second secondPc
    have original := exclusive.original first index rax taken
    have otherOriginal := exclusive.original second other pointer otherTaken
    obtain ⟨within, member⟩ := List.getElem?_eq_some_iff.mp original
    obtain ⟨otherWithin, otherMember⟩ := List.getElem?_eq_some_iff.mp otherOriginal
    have room := prepared.room
    constructor
    · rw [handed.rcx, otherHanded.rcx]
      intro same
      have values := congrArg BitVec.toNat same
      rw [BitVec.toNat_ofNat, BitVec.toNat_ofNat, Nat.mod_eq_of_lt (by omega),
        Nat.mod_eq_of_lt (by omega)] at values
      exact exclusive.slots first second index other rax pointer different taken otherTaken values
    · intro nodup
      rw [handed.rsp, otherHanded.rsp,
        and_neg_sixteen (aligned rax (member ▸ List.getElem_mem within)),
        and_neg_sixteen (aligned pointer (otherMember ▸ List.getElem_mem otherWithin))]
      exact exclusive.stack nodup first second index other rax pointer different taken otherTaken

omit valid stack in
/-- In every interleaving of the instructions of any number of processors, each with a stack: no
processor stops, each arrives at the entry point after a bounded number of its own instructions, in
long mode with the tables and `CR4` of the first processor, and no two have the same slot, nor the
same stack unless the array holds it twice. -/
theorem foldl_handedOver [Fintype ι] {cpus : ι → Ap}
    (stack : ∀ pointer ∈ pointers, pointer ≠ 0 ∧ 16 ∣ pointer.toNat)
    (placed : Placed pointers fun index => initial (args.first + index))
    (started : ∀ processor, ∃ cd nw cr3, Started cd nw cr3 (cpus processor))
    (enough : Fintype.card ι ≤ pointers.length) (schedule : List ι) :
    HandedOver args pointers (schedule.foldl (Machine.next env) ⟨initial, cpus⟩) fun processor =>
      schedule.count processor := by
  have aligned : ∀ pointer ∈ pointers, 16 ∣ pointer.toNat :=
    fun pointer member => (stack pointer member).2
  have valid : ∀ pointer ∈ pointers, pointer ≠ 0 ∧ pointer ≠ 1 := by
    refine fun pointer member => ⟨(stack pointer member).1, ?_⟩
    rintro rfl
    exact absurd (aligned 1 member) (by decide)
  have rounded : ∀ pointer ∈ pointers, pointer &&& -16 ≠ 0 := fun pointer member => by
    rw [and_neg_sixteen (aligned pointer member)]
    exact (valid pointer member).1
  obtain ⟨matching, tracks⟩ := (tracks_keeps prepared valid rounded).foldl schedule _ _ _
    (tracks_start prepared placed started)
  exact tracks.handedOver prepared valid aligned enough

end Tracks

end Okots.Trampoline
