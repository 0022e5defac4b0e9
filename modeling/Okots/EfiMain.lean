import Mathlib.Algebra.Ring.Nat
import Mathlib.Logic.Function.Basic
import Mathlib.Tactic.Common

/-!
# The entry of the kernel

The firmware enters `efi_main`, a function in assembly.  It calls three functions on the stack of
the firmware, the last of which allocates a stack and the `Main` structure in one block, moves to
the new stack, calls two more functions there and jumps to `Main::main`.  The functions follow the
calling convention and are arbitrary otherwise: they may change the volatile registers and all
memory that is not in the frame of their caller.  Of `allocate` the body is modelled, with what it
is given by the allocator.
-/

namespace Okots.EfiMain

/-- A word of 64 bits. -/
abbrev Word := BitVec 64

/-! ## Instructions -/

/-- The registers that the code uses, or a called function keeps for it. -/
inductive Reg where
  | rax | rcx | rdx | r8 | r9 | r10 | r11 | rbx | rbp | rsi | rdi | r12 | r13 | r14 | r15 | rsp
  deriving DecidableEq

/-- A function may change this register. -/
def Reg.volatile : Reg → Bool
  | rax | rcx | rdx | r8 | r9 | r10 | r11 => true
  | rbx | rbp | rsi | rdi | r12 | r13 | r14 | r15 | rsp => false

/-- The functions called before `Main::main`. -/
inductive Callee where
  | setHandle
  | setTable
  | allocate
  | initDep
  | debugHandShake
  deriving DecidableEq

/-- The instructions of `efi_main` that have an effect here. -/
inductive Instruction where
  /-- `xor r, r` -/
  | clear (reg : Reg)
  | sub (reg : Reg) (value : Word)
  | and (reg : Reg) (value : Word)
  | mov (target source : Reg)
  /-- `lea target, [base + offset]` -/
  | lea (target base : Reg) (offset : Word)
  /-- `mov target, [base + offset]` -/
  | load (target base : Reg) (offset : Word)
  | call (callee : Callee)

/-- The body of `efi_main` up to `jmp {main}`. -/
def efiMain : List Instruction :=
  [.clear .rax, .sub .rsp 56,
    .mov .r12 .rdx, .call .setHandle,
    .mov .rcx .r12, .call .setTable,
    .lea .rcx .rsp 32, .call .allocate,
    .mov .r15 .rsp, .load .rdx .rsp 32, .and .rdx (-16), .lea .rsp .rdx (-32),
    .call .initDep, .call .debugHandShake,
    .load .rdx .r15 32, .load .rcx .r15 40, .load .r8 .r15 48]

/-- Registers, and the words of memory by the addresses that are multiples of 8. -/
structure Machine where
  regs : Reg → Word
  memory : Word → Word

/-- What the called functions do, from their entry to their return, and where they return to. -/
structure Functions where
  after : Callee → Machine → Machine
  returnAddress : Callee → Word

namespace Machine

/-- Write a register. -/
def set (machine : Machine) (reg : Reg) (value : Word) : Machine :=
  { machine with regs := Function.update machine.regs reg value }

/-- Push a word. -/
def push (machine : Machine) (value : Word) : Machine where
  regs := Function.update machine.regs .rsp (machine.regs .rsp - 8)
  memory := Function.update machine.memory (machine.regs .rsp - 8) value

/-- The machine at the entry of a called function. -/
def enter (functions : Functions) (machine : Machine) (callee : Callee) : Machine :=
  machine.push (functions.returnAddress callee)

/-- Execute an instruction. -/
def step (functions : Functions) (machine : Machine) : Instruction → Machine
  | .clear reg => machine.set reg 0
  | .sub reg value => machine.set reg (machine.regs reg - value)
  | .and reg value => machine.set reg (machine.regs reg &&& value)
  | .mov target source => machine.set target (machine.regs source)
  | .lea target base offset => machine.set target (machine.regs base + offset)
  | .load target base offset => machine.set target (machine.memory (machine.regs base + offset))
  | .call callee => functions.after callee (machine.enter functions callee)

/-- Execute a list of instructions. -/
def run (functions : Functions) (machine : Machine) (program : List Instruction) : Machine :=
  program.foldl (step functions) machine

@[simp] theorem regs_set (machine : Machine) (reg other : Reg) (value : Word) :
    (machine.set reg value).regs other = if other = reg then value else machine.regs other :=
  Function.update_apply ..

@[simp] theorem memory_set (machine : Machine) (reg : Reg) (value : Word) :
    (machine.set reg value).memory = machine.memory := rfl

section Step

variable (functions : Functions) (machine : Machine)

@[simp] theorem step_clear (reg : Reg) :
    machine.step functions (.clear reg) = machine.set reg 0 := rfl

@[simp] theorem step_sub (reg : Reg) (value : Word) :
    machine.step functions (.sub reg value) = machine.set reg (machine.regs reg - value) := rfl

@[simp] theorem step_and (reg : Reg) (value : Word) :
    machine.step functions (.and reg value) = machine.set reg (machine.regs reg &&& value) := rfl

@[simp] theorem step_mov (target source : Reg) :
    machine.step functions (.mov target source) = machine.set target (machine.regs source) := rfl

@[simp] theorem step_lea (target base : Reg) (offset : Word) :
    machine.step functions (.lea target base offset) =
      machine.set target (machine.regs base + offset) := rfl

@[simp] theorem step_load (target base : Reg) (offset : Word) :
    machine.step functions (.load target base offset) =
      machine.set target (machine.memory (machine.regs base + offset)) := rfl

end Step

@[simp] theorem rsp_enter (functions : Functions) (machine : Machine) (callee : Callee) :
    (machine.enter functions callee).regs .rsp = machine.regs .rsp - 8 := by
  simp [enter, push]

theorem regs_enter (functions : Functions) (machine : Machine) (callee : Callee) {reg : Reg}
    (different : reg ≠ .rsp) :
    (machine.enter functions callee).regs reg = machine.regs reg :=
  Function.update_of_ne different ..

theorem memory_enter (functions : Functions) (machine : Machine) (callee : Callee) {address : Word}
    (different : address ≠ machine.regs .rsp - 8) :
    (machine.enter functions callee).memory address = machine.memory address :=
  Function.update_of_ne different ..

/-- The functions called by a list of instructions, each with the machine at its entry. -/
def entered (functions : Functions) : Machine → List Instruction → List (Callee × Machine)
  | _, [] => []
  | machine, .call callee :: rest =>
      (callee, machine.enter functions callee) ::
        entered functions (machine.step functions (.call callee)) rest
  | machine, instruction :: rest =>
      entered functions (machine.step functions instruction) rest

end Machine

/-! ## The block allocated for the kernel -/

/-- `STACK_SIZE`. -/
def stackSize : Nat := 1024 * 32

/-- The size and the alignment of `Main`, a power of two.  It has fields of 8 bytes. -/
structure MainLayout where
  size : Nat
  exponent : Nat
  words : 3 ≤ exponent

/-- `align_of::<Main>()`. -/
def MainLayout.align (layout : MainLayout) : Nat := 2 ^ layout.exponent

/-- What the functions called by `allocate` return. -/
structure Environment (layout : MainLayout) where
  /-- `get_boot_entropy()`. -/
  bootEntropy : Nat
  /-- `alloc_zeroed` for a size and the alignment 4096, unless the pointer is null. -/
  allocZeroed : Nat → Option Nat
  /-- `Main::default()`, the words by their offset. -/
  mainDefault : Nat → Word
  served : ∀ size allocated, allocZeroed size = some allocated →
    allocated % 4096 = 0 ∧ allocated + size < 2 ^ 64

namespace Environment

variable {layout : MainLayout} (environment : Environment layout)

/-- `(get_boot_entropy() % 65536) & !0xf`. -/
def entropy : Nat := environment.bootEntropy % 65536 / 16 * 16

/-- `total_size`. -/
def totalSize : Nat := stackSize + environment.entropy + layout.size + layout.align

/-- `allocated`.  A size that has no layout panics, a null pointer ends in `ud2`. -/
def allocated? : Option Nat :=
  if 2 ^ 63 - 4096 < environment.totalSize then none
  else environment.allocZeroed environment.totalSize

end Environment

/-- The block that `allocate` has been given. -/
structure Block {layout : MainLayout} (environment : Environment layout) where
  allocated : Nat
  served : environment.allocated? = some allocated

namespace Block

variable {layout : MainLayout} {environment : Environment layout} (block : Block environment)

/-- `stack_top`: `allocated.add(STACK_SIZE) & !0xf`. -/
def stackTop : Nat := (block.allocated + stackSize) / 16 * 16

/-- `struct_addr`: `(stack_top + entropy + main_align) & !(main_align - 1)`. -/
def structAddr : Nat :=
  (block.stackTop + environment.entropy + layout.align) / layout.align * layout.align

/-- The block is zeroed, `Main::default()` is written, and the three results are stored. -/
def write (target : Word) (memory : Word → Word) : Word → Word :=
  let zeroed : Word → Word := fun address =>
    if block.allocated ≤ address.toNat ∧
      address.toNat < block.allocated + environment.totalSize then 0 else memory address
  let written : Word → Word := fun address =>
    if block.structAddr ≤ address.toNat ∧ address.toNat < block.structAddr + layout.size then
      environment.mainDefault (address.toNat - block.structAddr) else zeroed address
  Function.update (Function.update (Function.update written
    target (BitVec.ofNat 64 block.stackTop))
    (target + 8) (BitVec.ofNat 64 block.structAddr))
    (target + 16) (BitVec.ofNat 64 stackSize)

end Block

/-- The memory after `allocate`, if it returns. -/
def Environment.allocate {layout : MainLayout} (environment : Environment layout) (target : Word)
    (memory : Word → Word) : Option (Word → Word) :=
  match served : environment.allocated? with
  | none => none
  | some allocated => some (Block.write ⟨allocated, served⟩ target memory)

namespace Block

variable {layout : MainLayout} {environment : Environment layout} (block : Block environment)

theorem allocate_eq (target : Word) (memory : Word → Word) :
    environment.allocate target memory = some (block.write target memory) := by
  obtain ⟨allocated, served⟩ := block
  unfold Environment.allocate
  split
  · rename_i missing
    cases missing.symm.trans served
  · rename_i found
    obtain rfl := Option.some.inj (found.symm.trans served)
    rfl

/-- The three stores of `allocate`. -/
theorem write_results (target : Word) (memory : Word → Word) :
    block.write target memory target = BitVec.ofNat 64 block.stackTop ∧
      block.write target memory (target + 8) = BitVec.ofNat 64 block.structAddr ∧
      block.write target memory (target + 16) = BitVec.ofNat 64 stackSize := by
  simp [write]

theorem aligned_fits :
    block.allocated % 4096 = 0 ∧ block.allocated + environment.totalSize < 2 ^ 64 := by
  have served := block.served
  unfold Environment.allocated? at served
  split at served
  · cases served
  · exact environment.served _ _ served

theorem stackTop_eq : block.stackTop = block.allocated + stackSize := by
  have aligned := block.aligned_fits.1
  unfold stackTop stackSize
  omega

theorem stackTop_lt : block.stackTop < 2 ^ 64 := by
  have fits := block.aligned_fits.2
  rw [stackTop_eq]
  unfold Environment.totalSize at fits
  omega

/-- An address below the top of the new stack. -/
theorem toNat_stack {depth : Nat} (shallow : depth ≤ stackSize) :
    (BitVec.ofNat 64 block.stackTop - BitVec.ofNat 64 depth).toNat = block.stackTop - depth := by
  have small := block.stackTop_lt
  have top := block.stackTop_eq
  rw [BitVec.toNat_sub, BitVec.toNat_ofNat, BitVec.toNat_ofNat]
  unfold stackSize at *
  omega

theorem eight_dvd_align : 8 ∣ layout.align := Nat.pow_dvd_pow 2 layout.words

theorem align_pos (layout : MainLayout) : 0 < layout.align := Nat.two_pow_pos _

/-- The structure is aligned, lies behind the stack with at least a word between the two, and ends
inside the block. -/
theorem structAddr_bounds :
    layout.align ∣ block.structAddr ∧ block.stackTop + 8 ≤ block.structAddr ∧
      block.structAddr + layout.size ≤ block.allocated + environment.totalSize := by
  have top := block.stackTop_eq
  have above : block.stackTop + environment.entropy < block.structAddr := by
    have split := Nat.div_add_mod (block.stackTop + environment.entropy) layout.align
    have short := Nat.mod_lt (block.stackTop + environment.entropy) (align_pos layout)
    rw [structAddr, Nat.add_div_right _ (align_pos layout), Nat.succ_mul, Nat.mul_comm]
    omega
  have below : block.structAddr ≤ block.stackTop + environment.entropy + layout.align :=
    Nat.div_mul_le_self _ _
  have multiple : layout.align ∣ block.structAddr := Nat.dvd_mul_left _ _
  refine ⟨multiple, ?_, ?_⟩
  · have eighth := Nat.dvd_trans eight_dvd_align multiple
    have topEighth : 8 ∣ block.stackTop := Nat.dvd_trans (by decide) (Nat.dvd_mul_left 16 _)
    omega
  · unfold Environment.totalSize
    omega

end Block

/-! ## The way to `Main::main` -/

section Entry

variable {layout : MainLayout} {environment : Environment layout} {block : Block environment}
  {functions : Functions} {machine : Machine}

/-- The called functions follow the calling convention.  In the three words for the results,
`allocate` leaves what its body leaves there, and the others change nothing. -/
structure Conforms (environment : Environment layout) (functions : Functions) (results : Word) :
    Prop where
  kept : ∀ callee machine reg, reg.volatile = false → reg ≠ .rsp →
    (functions.after callee machine).regs reg = machine.regs reg
  returned : ∀ callee machine,
    (functions.after callee machine).regs .rsp = machine.regs .rsp + 8
  allocates : ∀ machine, machine.regs .rcx = results →
    ∃ after, environment.allocate results machine.memory = some after ∧
      ∀ offset ∈ [0, 8, 16],
        (functions.after .allocate machine).memory (results + offset) = after (results + offset)
  spared : ∀ callee machine offset, callee ≠ .allocate → offset ∈ [0, 8, 16] →
    (functions.after callee machine).memory (results + offset) = machine.memory (results + offset)

namespace Conforms

variable {results : Word} (conforms : Conforms environment functions results)
include conforms

/-- The results of `allocate` in the frame of `efi_main`. -/
theorem stored (block : Block environment) {machine : Machine}
    (target : machine.regs .rcx = results) :
    (functions.after .allocate machine).memory results = BitVec.ofNat 64 block.stackTop ∧
      (functions.after .allocate machine).memory (results + 8) =
        BitVec.ofNat 64 block.structAddr ∧
      (functions.after .allocate machine).memory (results + 16) = BitVec.ofNat 64 stackSize := by
  obtain ⟨after, returned, same⟩ := conforms.allocates machine target
  obtain rfl := Option.some.inj ((block.allocate_eq ..).symm.trans returned)
  obtain ⟨top, struct, length⟩ := block.write_results results machine.memory
  refine ⟨?_, ?_, ?_⟩
  · simpa [top] using same 0 (by decide)
  · exact (same 8 (by decide)).trans struct
  · exact (same 16 (by decide)).trans length

theorem rsp_call (machine : Machine) (callee : Callee) :
    (machine.step functions (.call callee)).regs .rsp = machine.regs .rsp := by
  rw [Machine.step, conforms.returned, Machine.rsp_enter, BitVec.sub_add_cancel]

theorem regs_call (machine : Machine) (callee : Callee) {reg : Reg} (kept : reg.volatile = false)
    (different : reg ≠ .rsp) :
    (machine.step functions (.call callee)).regs reg = machine.regs reg := by
  rw [Machine.step, conforms.kept _ _ _ kept different, Machine.regs_enter _ _ _ different]

end Conforms

/-- The three results are in the frame of `efi_main`, `r15` points below them, and the stack is the
new one. -/
structure Carries (block : Block environment) (results : Word) (machine : Machine) : Prop where
  frame : machine.regs .r15 = results - 32
  stack : machine.regs .rsp = BitVec.ofNat 64 block.stackTop - 32
  stackTop : machine.memory results = BitVec.ofNat 64 block.stackTop
  structAddr : machine.memory (results + 8) = BitVec.ofNat 64 block.structAddr
  stackLen : machine.memory (results + 16) = BitVec.ofNat 64 stackSize

/-- The results are not in the new block. -/
def Outside (block : Block environment) (results : Word) : Prop :=
  ∀ offset ∈ [0, 8, 16], (results + offset).toNat < block.allocated ∨
    block.allocated + environment.totalSize ≤ (results + offset).toNat

/-- A call on the new stack leaves the results. -/
theorem Carries.call {results : Word} (carries : Carries block results machine)
    (conforms : Conforms environment functions results) (outside : Outside block results)
    {callee : Callee} (other : callee ≠ .allocate) :
    Carries block results (machine.step functions (.call callee)) := by
  have word : ∀ offset ∈ [0, 8, 16], (machine.step functions (.call callee)).memory
      (results + offset) = machine.memory (results + offset) := by
    intro offset member
    rw [Machine.step, conforms.spared _ _ _ other member]
    refine Machine.memory_enter _ _ _ fun same => ?_
    have top := block.stackTop_eq
    have address : (results + offset).toNat = block.stackTop - 40 := by
      rw [same, carries.stack, BitVec.sub_sub]
      exact block.toNat_stack (by decide)
    have apart := outside offset member
    unfold Environment.totalSize stackSize at *
    omega
  refine ⟨?_, ?_, ?_, ?_, ?_⟩
  · rw [conforms.regs_call _ _ rfl (by decide), carries.frame]
  · rw [conforms.rsp_call, carries.stack]
  · rw [← carries.stackTop]
    simpa using word 0 (by decide)
  · rw [word 8 (by decide), carries.structAddr]
  · rw [word 16 (by decide), carries.stackLen]

/-- A function called on the new stack finds it aligned. -/
theorem Carries.aligned_enter {results : Word} (carries : Carries block results machine)
    (callee : Callee) : ((machine.enter functions callee).regs .rsp).toNat % 16 = 8 := by
  have top := block.stackTop_eq
  have multiple := block.aligned_fits.1
  have depth := block.toNat_stack (show 40 ≤ stackSize by decide)
  rw [Machine.rsp_enter, carries.stack, BitVec.sub_sub]
  refine (congrArg (· % 16) depth).trans ?_
  unfold stackSize at top
  omega

/-- Rounding down an address that is a multiple of 16. -/
theorem and_neg_sixteen {value : Word} (multiple : value.toNat % 16 = 0) :
    value &&& -16 = value := by
  apply BitVec.eq_of_getLsbD_eq
  intro bit inside
  rw [BitVec.getLsbD_and]
  by_cases low : bit < 4
  · have clear : value.getLsbD bit = false := by
      have quotient : value.toNat = value.toNat / 16 * 2 ^ 4 := by omega
      rw [BitVec.getLsbD, quotient, Nat.testBit_mul_two_pow]
      simp [Nat.not_le.mpr low]
    rw [clear, Bool.false_and]
  · have set : ∀ bit < 64, 4 ≤ bit → (-16 : Word).getLsbD bit = true := by decide
    rw [set bit inside (Nat.not_lt.mp low), Bool.and_true]

/-- The part of `efi_main` on the stack of the firmware, up to the call of `allocate`. -/
def before : List Instruction :=
  [.clear .rax, .sub .rsp 56, .mov .r12 .rdx, .call .setHandle, .mov .rcx .r12, .call .setTable,
    .lea .rcx .rsp 32]

/-- The call of `allocate` and the move to the new stack. -/
def move : List Instruction :=
  [.call .allocate, .mov .r15 .rsp, .load .rdx .rsp 32, .and .rdx (-16), .lea .rsp .rdx (-32)]

theorem run_before (machine : Machine) {results : Word}
    (conforms : Conforms environment functions results) :
    (machine.run functions before).regs .rsp = machine.regs .rsp - 56 ∧
      (machine.run functions before).regs .rcx = machine.regs .rsp - 24 := by
  simp only [Machine.run, before, List.foldl_cons, List.foldl_nil, Machine.step_clear,
    Machine.step_sub, Machine.step_mov, Machine.step_lea, Machine.regs_set, conforms.rsp_call,
    reduceCtorEq, if_true, if_false]
  refine ⟨trivial, ?_⟩
  bv_omega

theorem run_move (conforms : Conforms environment functions (machine.regs .rcx))
    (frame : machine.regs .rcx = machine.regs .rsp + 32) :
    Carries block (machine.regs .rcx) (machine.run functions move) := by
  obtain ⟨top, struct, length⟩ := conforms.stored block
    (Machine.regs_enter functions machine .allocate (by decide))
  have multiple : (BitVec.ofNat 64 block.stackTop).toNat % 16 = 0 := by
    have small := block.stackTop_lt
    rw [BitVec.toNat_ofNat, Nat.mod_eq_of_lt small, Block.stackTop, Nat.mul_mod_left]
  have rsp := conforms.rsp_call machine .allocate
  have loaded : (machine.step functions (.call .allocate)).memory (machine.regs .rsp + 32) =
      BitVec.ofNat 64 block.stackTop := by
    rw [← frame]
    exact top
  refine ⟨?_, ?_, ?_, ?_, ?_⟩
  all_goals
    simp only [Machine.run, move, List.foldl_cons, List.foldl_nil, Machine.step_mov,
      Machine.step_load, Machine.step_and, Machine.step_lea, Machine.regs_set, Machine.memory_set,
      rsp, loaded, reduceCtorEq, if_true, if_false]
  · rw [frame, BitVec.add_sub_cancel]
  · rw [and_neg_sixteen multiple, BitVec.sub_eq_add_neg]
  · exact top
  · exact struct
  · exact length

/-- The calls on the new stack. -/
def prepare : List Instruction := [.call .initDep, .call .debugHandShake]

/-- The arguments of `Main::main`. -/
def arguments : List Instruction := [.load .rdx .r15 32, .load .rcx .r15 40, .load .r8 .r15 48]

theorem efiMain_eq : efiMain = before ++ (move ++ (prepare ++ arguments)) := rfl

theorem run_append (machine : Machine) (first second : List Instruction) :
    machine.run functions (first ++ second) =
      (machine.run functions first).run functions second := List.foldl_append

theorem entered_append (machine : Machine) (first second : List Instruction) :
    machine.entered functions (first ++ second) =
      machine.entered functions first ++
        (machine.run functions first).entered functions second := by
  induction first generalizing machine with
  | nil => rfl
  | cons instruction rest induction =>
      cases instruction with
      | call callee => exact congrArg (_ :: ·) (induction _)
      | _ => exact induction _

theorem run_prepare {results : Word} (carries : Carries block results machine)
    (conforms : Conforms environment functions results) (outside : Outside block results) :
    Carries block results (machine.run functions prepare) :=
  (carries.call conforms outside (by decide)).call conforms outside (by decide)

theorem run_arguments {results : Word} (carries : Carries block results machine) :
    (machine.run functions arguments).regs .rdx = BitVec.ofNat 64 block.stackTop ∧
      (machine.run functions arguments).regs .rcx = BitVec.ofNat 64 block.structAddr ∧
      (machine.run functions arguments).regs .r8 = BitVec.ofNat 64 stackSize ∧
      (machine.run functions arguments).regs .rsp = BitVec.ofNat 64 block.stackTop - 32 := by
  have top : results - 32 + 32 = results := BitVec.sub_add_cancel ..
  have struct : results - 32 + 40 = results + 8 := by bv_omega
  have length : results - 32 + 48 = results + 16 := by bv_omega
  simp only [Machine.run, arguments, List.foldl_cons, List.foldl_nil, Machine.step_load,
    Machine.regs_set, Machine.memory_set, carries.frame, carries.stack, top, struct, length,
    carries.stackTop, carries.structAddr, carries.stackLen, reduceCtorEq, if_true, if_false,
    and_self]

theorem entered_before (machine : Machine) {results : Word}
    (conforms : Conforms environment functions results) :
    ∃ handle table, machine.entered functions before = [(.setHandle, handle), (.setTable, table)] ∧
      handle.regs .rcx = machine.regs .rcx ∧ table.regs .rcx = machine.regs .rdx ∧
      handle.regs .rsp = machine.regs .rsp - 64 ∧ table.regs .rsp = machine.regs .rsp - 64 := by
  have r12 : ∀ (machine : Machine) callee,
      (machine.step functions (.call callee)).regs .r12 = machine.regs .r12 :=
    fun machine callee => conforms.regs_call machine callee rfl (by decide)
  refine ⟨_, _, rfl, ?_, ?_, ?_, ?_⟩
  · rw [Machine.regs_enter _ _ _ (by decide)]
    simp
  · rw [Machine.regs_enter _ _ _ (by decide)]
    simp [r12]
  · rw [Machine.rsp_enter]
    simp
    bv_omega
  · rw [Machine.rsp_enter]
    simp [conforms.rsp_call]
    bv_omega

/-- The functions are called in order with their arguments, on stacks aligned as the convention
asks for. -/
structure Called (results : Word) (machine : Machine) (calls : List (Callee × Machine)) : Prop where
  order : calls.map Prod.fst = [.setHandle, .setTable, .allocate, .initDep, .debugHandShake]
  handle : ∀ entry, (Callee.setHandle, entry) ∈ calls → entry.regs .rcx = machine.regs .rcx
  table : ∀ entry, (Callee.setTable, entry) ∈ calls → entry.regs .rcx = machine.regs .rdx
  target : ∀ entry, (Callee.allocate, entry) ∈ calls → entry.regs .rcx = results
  aligned : ∀ entry ∈ calls, (entry.2.regs .rsp).toNat % 16 = 8

/-- `Main::main` is entered with its three arguments, on the new stack.  The stack ends before the
structure, also with the 32 bytes above the place of a return address that belong to `Main::main`,
and both are inside the block. -/
structure Entered (block : Block environment) (main : Machine) : Prop where
  self : (main.regs .rcx).toNat = block.structAddr
  stackTop : (main.regs .rdx).toNat = block.stackTop
  stackLen : (main.regs .r8).toNat = stackSize
  stack : (main.regs .rsp).toNat = block.allocated + stackSize - 32
  home : (main.regs .rsp).toNat + 40 ≤ block.structAddr
  inside : layout.align ∣ block.structAddr ∧
    block.structAddr + layout.size ≤ block.allocated + environment.totalSize

theorem Entered.of_arguments {main : Machine}
    (values : main.regs .rdx = BitVec.ofNat 64 block.stackTop ∧
      main.regs .rcx = BitVec.ofNat 64 block.structAddr ∧
      main.regs .r8 = BitVec.ofNat 64 stackSize ∧
      main.regs .rsp = BitVec.ofNat 64 block.stackTop - 32) : Entered block main := by
  obtain ⟨rdx, rcx, r8, rsp⟩ := values
  obtain ⟨multiple, behind, ends⟩ := block.structAddr_bounds
  have fits := block.aligned_fits.2
  have top := block.stackTop_eq
  have stack : (main.regs .rsp).toNat = block.stackTop - 32 := by
    rw [rsp]
    exact block.toNat_stack (by decide)
  refine ⟨?_, ?_, ?_, by rw [stack, top], ?_, multiple, ends⟩
  · rw [rcx, BitVec.toNat_ofNat]
    exact Nat.mod_eq_of_lt (by omega)
  · rw [rdx, BitVec.toNat_ofNat]
    exact Nat.mod_eq_of_lt (by omega)
  · rw [r8]
    rfl
  · rw [stack]
    unfold stackSize at top
    omega

/-- Whatever the called functions do within the calling convention, `efi_main` calls them in order
on aligned stacks and enters `Main::main` with the arguments that `allocate` has made, on a stack
that does not reach into the structure. -/
theorem efiMain_enters (conforms : Conforms environment functions (machine.regs .rsp - 24))
    (outside : Outside block (machine.regs .rsp - 24))
    (aligned : (machine.regs .rsp).toNat % 16 = 8) :
    Called (machine.regs .rsp - 24) machine (machine.entered functions efiMain) ∧
      Entered block (machine.run functions efiMain) := by
  obtain ⟨handle, table, entries, handleRcx, tableRcx, handleRsp, tableRsp⟩ :=
    entered_before machine conforms
  obtain ⟨rsp, rcx⟩ := run_before machine conforms
  have moved : Carries block (machine.regs .rsp - 24)
      ((machine.run functions before).run functions move) := by
    rw [← rcx] at conforms ⊢
    refine run_move conforms ?_
    rw [rsp, rcx]
    bv_omega
  refine ⟨?_, ?_⟩
  · have calls : machine.entered functions efiMain =
        [(.setHandle, handle), (.setTable, table),
          (.allocate, (machine.run functions before).enter functions .allocate),
          (.initDep, ((machine.run functions before).run functions move).enter functions .initDep),
          (.debugHandShake, (((machine.run functions before).run functions move).step functions
            (.call .initDep)).enter functions .debugHandShake)] := by
      rw [efiMain_eq, entered_append, entries]
      rfl
    rw [calls]
    refine ⟨rfl, ?_, ?_, ?_, ?_⟩
    · simp [handleRcx]
    · simp [tableRcx]
    · simp [Machine.regs_enter, rcx]
    · simp only [List.forall_mem_cons, List.not_mem_nil, false_implies, implies_true, and_true]
      refine ⟨?_, ?_, ?_, moved.aligned_enter _, (moved.call conforms outside ?_).aligned_enter _⟩
      · rw [handleRsp]
        bv_omega
      · rw [tableRsp]
        bv_omega
      · rw [Machine.rsp_enter, rsp]
        bv_omega
      · decide
  · rw [efiMain_eq, run_append, run_append, run_append]
    exact .of_arguments (run_arguments (run_prepare moved conforms outside))

end Entry

/-! ## An execution -/

/-- A structure of 256 bytes. -/
def someLayout : MainLayout := ⟨256, 3, Nat.le_refl 3⟩

/-- Memory above 1 MiB. -/
def someEnvironment : Environment someLayout where
  bootEntropy := 0x12345
  allocZeroed size := if size < 2 ^ 32 then some 0x100000 else none
  mainDefault _ := 0
  served size allocated found := by
    obtain ⟨small, same⟩ := Option.ite_none_right_eq_some.mp found
    obtain rfl := Option.some.inj same
    exact ⟨rfl, by omega⟩

/-- The block at 1 MiB. -/
def someBlock : Block someEnvironment := ⟨0x100000, rfl⟩

/-- Functions that do nothing but store the results. -/
def plainFunctions (results : Word) : Functions where
  after callee machine :=
    { regs := Function.update machine.regs .rsp (machine.regs .rsp + 8)
      memory := if callee = .allocate then someBlock.write results machine.memory
        else machine.memory }
  returnAddress _ := 0

theorem conforms_plainFunctions (results : Word) :
    Conforms someEnvironment (plainFunctions results) results where
  kept _ _ _ _ different := Function.update_of_ne different ..
  returned _ _ := by simp [plainFunctions]
  allocates _ _ := ⟨_, someBlock.allocate_eq .., fun _ _ => by simp [plainFunctions]⟩
  spared _ _ _ other _ := by simp [plainFunctions, other]

/-- A machine whose stack pointer is as after a call. -/
def someMachine : Machine := ⟨fun _ => 0x7FF8, fun _ => 0⟩

theorem outside_someBlock : Outside someBlock (someMachine.regs .rsp - 24) := by
  intro offset member
  left
  simp only [List.mem_cons, List.not_mem_nil, or_false] at member
  rcases member with rfl | rfl | rfl
  · decide +kernel
  · decide +kernel
  · decide +kernel

theorem efiMain_enters_some :
    Called (someMachine.regs .rsp - 24) someMachine
        (someMachine.entered (plainFunctions (someMachine.regs .rsp - 24)) efiMain) ∧
      Entered someBlock
        (someMachine.run (plainFunctions (someMachine.regs .rsp - 24)) efiMain) :=
  efiMain_enters (conforms_plainFunctions _) outside_someBlock rfl

end Okots.EfiMain
