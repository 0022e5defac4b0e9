import Okots.Library.ControlRegisters
import Okots.MultiCore.Trampoline
import Okots.Paging.Hardware

/-!
# The trampoline as a program

The listing of `trampoline.asm` and the part of the instruction set it is written in.  A processor
that has received a startup interrupt begins in real mode at `trampoline_fn`, and switches itself to
protected mode, to long mode on the temporary tables of the image, and to the tables of the kernel.
It then takes a stack from the array of the boot pointers and jumps to the entry point.

An exception ends a processor, since there is no interrupt table.  Instructions are fetched through
the tables in force, and have to be the ones assembled for the size of the code segment.
-/

namespace Okots.Trampoline

open ControlRegisters

/-! ## Instructions -/

/-- The general registers the trampoline uses. -/
inductive Register where
  | rax
  | rbx
  | rcx
  | rdx
  | rsp
  | r15
  deriving DecidableEq

/-- The data segment registers. -/
inductive SegmentRegister where
  | ds
  | es
  | ss
  | fs
  | gs
  deriving DecidableEq

/-- Control registers that are moved from and to. -/
inductive ControlRegister where
  | cr0
  | cr3
  | cr4
  deriving DecidableEq

/-- Operand sizes. -/
inductive Width where
  | w8
  | w16
  | w32
  | w64
  deriving DecidableEq

/-- The sizes of code. -/
inductive CodeSize where
  | bits16
  | bits32
  | bits64
  deriving DecidableEq

/-- The labels of the listing. -/
inductive Label where
  | trampolineFn
  | trampoline32
  | notNx
  | jmpTo64
  | p4
  | ed
  | trampoline64
  | flushed
  | findIterEnded
  | findIter
  | next
  | found
  | t64Co1
  | stayTmpPaging
  deriving DecidableEq

/-- A register or a constant. -/
inductive Operand where
  | reg (register : Register)
  | imm (value : Word)

/-- Operations that write their first operand. -/
inductive AluOp where
  | xor
  | or
  | and
  | add
  | sub

/-- The instructions of the trampoline. -/
inductive Instruction where
  | cli
  | alu (op : AluOp) (width : Width) (destination : Register) (source : Operand)
  | inc (destination : Register)
  | test (width : Width) (left : Register) (right : Operand)
  | cmp (left : Register) (right : Word)
  | mov (width : Width) (destination : Register) (source : Operand)
  | movSegment (destination : SegmentRegister) (source : Register)
  | movFromControl (destination : Register) (source : ControlRegister)
  | movToControl (width : Width) (destination : ControlRegister) (source : Register)
  | lgdt (table : List Word)
  | rdmsr
  | wrmsr
  | movzxByte (destination : Register) (address : Nat)
  | loadAbsolute (destination : Register) (address : Nat)
  | load (destination address : Register)
  | lockCmpxchg (address source : Register)
  | lea (destination : Register) (label : Label)
  | jmp (label : Label)
  | jz (label : Label)
  | jnz (label : Label)
  | jmpFar (selector : Nat) (label : Label)
  | jmpRegister (target : Register)
  | ud2

/-! ## The image -/

/-- Address of the page with the code, `vstart` and the padding behind `args`. -/
def codePage : Nat := 0x8000

/-- `TRAMP_TARGET`, the address of `args`. -/
def trampTarget : Nat := 0x7500

/-- Offset of `args.pml_addr`. -/
def argsPmlAddr : Nat := trampTarget + 8
/-- Offset of `args.stack`. -/
def argsStack : Nat := trampTarget + 16
/-- Offset of `args.target`. -/
def argsTarget : Nat := trampTarget + 24
/-- Offset of `args.cr4`. -/
def argsCr4 : Nat := trampTarget + 40
/-- Offset of `args.flags`. -/
def argsFlags : Nat := trampTarget + 48

/-- `tmp_p5`. -/
def tmpP5 : Nat := 0x9000
/-- `tmp_p4`. -/
def tmpP4 : Nat := 0xA000
/-- `tmp_pdpt`. -/
def tmpPdpt : Nat := 0xB000
/-- `tmp_pd`. -/
def tmpPd : Nat := 0xC000

/-- The descriptors from `gdt_start` to `gdt_end`. -/
def gdt : List Word :=
  [0x0000000000000000,
    0x00cf9a000000ffff,
    0x00cf92000000ffff,
    0x00af9a000000ffff,
    0x00af92000000ffff]

/-- The bits of `args.flags`. -/
def flagByte (nx la57 : Bool) : Word := (if nx then 1 else 0) ||| (if la57 then 0b10 else 0)

/-- The arguments that the first processor has put into the image.  `flags` tells whether execution
can be disabled and whether there are five levels. -/
structure Args where
  pmlAddr : Word
  stack : Word
  target : Word
  cr4 : Word
  nx : Bool
  la57 : Bool

/-- The number of the extended features among the model-specific registers. -/
def eferNumber : Word := 0xC0000080

/-- Lines of the listing between two labels. -/
structure CodeBlock where
  label : Label
  /-- The `bits` directive in force. -/
  bits : CodeSize
  body : List Instruction

/-- `trampoline.asm`. -/
def listing : List CodeBlock :=
  [⟨.trampolineFn, .bits16,
    [.cli,
      .alu .xor .w16 .rax (.reg .rax),
      .movSegment .ds .rax,
      .movSegment .es .rax,
      .movSegment .ss .rax,
      .lgdt gdt,
      .movFromControl .rax .cr0,
      .alu .or .w32 .rax (.imm 1),
      .movToControl .w32 .cr0 .rax,
      .jmpFar 0x08 .trampoline32]⟩,
    ⟨.trampoline32, .bits32,
    [.mov .w16 .rax (.imm 0x10),
      .movSegment .ds .rax,
      .movSegment .es .rax,
      .movSegment .ss .rax,
      .movSegment .fs .rax,
      .movSegment .gs .rax,
      .alu .xor .w32 .rbx (.reg .rbx),
      .movFromControl .rax .cr4,
      .alu .or .w32 .rax (.imm (BitVec.twoPow 64 5)),
      .movToControl .w32 .cr4 .rax,
      .movzxByte .rcx argsFlags,
      .test .w8 .rcx (.imm 1),
      .jz .notNx,
      .mov .w32 .rcx (.imm eferNumber),
      .rdmsr,
      .alu .or .w32 .rax (.imm (BitVec.twoPow 64 11)),
      .wrmsr]⟩,
    ⟨.notNx, .bits32,
    [.movzxByte .rcx argsFlags,
      .test .w8 .rcx (.imm 0b10),
      .jz .jmpTo64,
      .movFromControl .rax .cr4,
      .alu .or .w32 .rax (.imm (BitVec.twoPow 64 12)),
      .movToControl .w32 .cr4 .rax,
      .mov .w32 .rbx (.imm 1)]⟩,
    ⟨.jmpTo64, .bits32,
    [.test .w32 .rbx (.reg .rbx),
      .jz .p4,
      .mov .w32 .rax (.imm (BitVec.ofNat 64 tmpP5)),
      .movToControl .w32 .cr3 .rax,
      .jmp .ed]⟩,
    ⟨.p4, .bits32,
    [.mov .w32 .rax (.imm (BitVec.ofNat 64 tmpP4)),
      .movToControl .w32 .cr3 .rax]⟩,
    ⟨.ed, .bits32,
    [.mov .w32 .rcx (.imm eferNumber),
      .rdmsr,
      .alu .or .w32 .rax (.imm (BitVec.twoPow 64 8)),
      .wrmsr,
      .movFromControl .rax .cr0,
      .alu .or .w32 .rax (.imm (BitVec.twoPow 64 31)),
      .movToControl .w32 .cr0 .rax,
      .lgdt gdt,
      .jmpFar 0x18 .trampoline64]⟩,
    ⟨.trampoline64, .bits64,
    [.alu .xor .w16 .rax (.reg .rax),
      .movSegment .ds .rax,
      .movSegment .es .rax,
      .movSegment .ss .rax,
      .movSegment .fs .rax,
      .movSegment .gs .rax,
      .loadAbsolute .rax argsCr4,
      .movToControl .w64 .cr4 .rax,
      .loadAbsolute .rax argsPmlAddr,
      .movToControl .w64 .cr3 .rax,
      .lea .rax .flushed,
      .jmpRegister .rax]⟩,
    ⟨.flushed, .bits64,
    [.loadAbsolute .rbx argsStack,
      .alu .sub .w64 .rbx (.imm 8),
      .alu .xor .w64 .rdx (.reg .rdx),
      .jmp .findIter]⟩,
    ⟨.findIterEnded, .bits64,
    [.mov .w32 .rax (.imm 0x4ffff),
      .ud2]⟩,
    ⟨.findIter, .bits64,
    [.alu .add .w64 .rbx (.imm 8),
      .load .rax .rbx,
      .test .w64 .rax (.reg .rax),
      .jz .next,
      .cmp .rax 1,
      .jz .findIterEnded,
      .alu .xor .w64 .rcx (.reg .rcx),
      .lockCmpxchg .rbx .rcx,
      .jz .found]⟩,
    ⟨.next, .bits64,
    [.inc .rdx,
      .jmp .findIter]⟩,
    ⟨.found, .bits64,
    [.mov .w64 .rsp (.reg .rax),
      .mov .w64 .r15 (.reg .rdx),
      .alu .and .w64 .rsp (.imm (-16)),
      .test .w64 .rsp (.reg .rsp),
      .jnz .t64Co1,
      .mov .w32 .rax (.imm 0x1ffff),
      .ud2]⟩,
    ⟨.t64Co1, .bits64,
    [.loadAbsolute .rdx argsTarget,
      .test .w64 .rdx (.reg .rdx),
      .jnz .stayTmpPaging,
      .mov .w32 .rax (.imm 0x3ffff),
      .ud2]⟩,
    ⟨.stayTmpPaging, .bits64,
    [.mov .w64 .rcx (.reg .r15),
      .jmpRegister .rdx]⟩]

/-- An instruction with the code size it was assembled for. -/
abbrev Line := CodeSize × Instruction

/-- The lines of a block. -/
def CodeBlock.lines (block : CodeBlock) : List Line := block.body.map fun instruction =>
  (block.bits, instruction)

/-- The code from a label to the end. -/
def codeAt (label : Label) : List Line :=
  (listing.dropWhile fun block => block.label ≠ label).flatMap CodeBlock.lines

/-! ## Processors -/

/-- Physical memory as quadwords. -/
abbrev Quadwords := Nat → Word

/-- The page tables in memory. -/
def Quadwords.tables (memory : Quadwords) : TableWords := fun frame index =>
  memory (frame / 8 + index)

/-- A loaded data segment register; a null selector gives one that is not usable. -/
structure Segment where
  base : Nat
  limit : Nat
  usable : Bool
  deriving DecidableEq

/-- Where a processor is. -/
inductive Pc where
  | run (rest : List Line)
  /-- It has jumped to an address outside the image. -/
  | left (target : Word)
  /-- An exception has ended it, or it executes something else than the listing. -/
  | stopped

/-- A processor. -/
structure Ap where
  register : Register → Word
  zf : Bool
  interruptFlag : Bool
  controls : Controls
  code : CodeSize
  descriptors : List Word
  segments : SegmentRegister → Segment
  pc : Pc

/-- The properties of the processors, and the addresses the assembler has given to the labels. -/
structure ApEnv where
  support : Support
  address : Label → Word

namespace Ap

/-! ## Addresses -/

/-- The kinds of memory accesses. -/
inductive Access where
  | read
  | write
  | fetch
  deriving DecidableEq

/-- The bit of `CR4` that keeps the supervisor from accesses to the pages of the user.  It holds for
data because `EFLAGS.AC` is clear: the reset clears it, and no instruction of the listing sets
it. -/
def Access.prevention : Access → Nat
  | .read | .write => supervisorAccessPrevention
  | .fetch => supervisorExecutionPrevention

/-- The processor accepts an address: all upper bits are equal. -/
def canonical (controls : Controls) (address : Nat) : Bool :=
  let width := if controls.cr4.getLsbD fiveLevels then 57 else 48
  address < 2 ^ (width - 1) || (2 ^ 64 - 2 ^ (width - 1) ≤ address && address < 2 ^ 64)

/-- The rights of a translation allow an access of the supervisor.  Without `EFER.NXE` the bit that
disables execution is reserved. -/
def permits (controls : Controls) (rights : Rights) (access : Access) : Bool :=
  !(rights.user && controls.cr4.getLsbD access.prevention) &&
    match access with
    | .read => !rights.executeDisable || controls.efer.getLsbD noExecuteEnable
    | .write => (!rights.executeDisable || controls.efer.getLsbD noExecuteEnable) &&
        (rights.writable || !controls.cr0.getLsbD writeProtect)
    | .fetch => !rights.executeDisable

/-- The physical address of a linear one.  Paging outside of long mode does not occur. -/
def translate (controls : Controls) (memory : Quadwords) (access : Access) (address : Nat) :
    Option Nat :=
  if controls.paging then
    if controls.longMode && canonical controls address then
      let level := if controls.cr4.getLsbD fiveLevels then .pml5 else .pml4
      (hardwareWalk memory.tables level (tableBase controls.cr3) address Rights.all).bind
        fun translation =>
          if permits controls translation.rights access then some translation.phys else none
    else none
  else some address

/-- The linear address of an offset in the data segment. -/
def linear (bits : CodeSize) (segment : Segment) (offset : Nat) : Option Nat :=
  if bits = .bits64 then some offset
  else if segment.usable && offset ≤ segment.limit then some (segment.base + offset)
  else none

/-- The quadword that an access reaches; only aligned ones are accessed. -/
def quadword (cpu : Ap) (memory : Quadwords) (access : Access) (offset : Nat) : Option Nat :=
  (linear cpu.code (cpu.segments .ds) offset).bind fun address =>
    (translate cpu.controls memory access address).bind fun physical =>
      if physical % 8 = 0 then some (physical / 8) else none

/-! ## Registers -/

/-- The low bits of a word. -/
def low : Width → Word → Word
  | .w8, value => value &&& 0xFF
  | .w16, value => value &&& 0xFFFF
  | .w32, value => value &&& 0xFFFFFFFF
  | .w64, value => value

/-- A register after a write of its low bits: 32 bits are extended with zeros. -/
def merge (width : Width) (old value : Word) : Word :=
  match width with
  | .w8 => (old &&& ~~~0xFF) ||| low .w8 value
  | .w16 => (old &&& ~~~0xFFFF) ||| low .w16 value
  | .w32 => low .w32 value
  | .w64 => value

/-- Write a register. -/
def set (cpu : Ap) (width : Width) (destination : Register) (value : Word) : Ap :=
  { cpu with
    register := Function.update cpu.register destination
      (merge width (cpu.register destination) value) }

/-- The value of an operand. -/
def operand (register : Register → Word) : Operand → Word
  | .reg source => register source
  | .imm value => value

/-- The result of an operation. -/
def compute : AluOp → Word → Word → Word
  | .xor, left, right => left ^^^ right
  | .or, left, right => left ||| right
  | .and, left, right => left &&& right
  | .add, left, right => left + right
  | .sub, left, right => left - right

/-- The processor does not get on. -/
def stop (cpu : Ap) : Ap := { cpu with pc := .stopped }

/-- Continue at a label. -/
def goto (cpu : Ap) (label : Label) : Ap := { cpu with pc := .run (codeAt label) }

/-! ## Segments -/

/-- The base of a descriptor. -/
def descriptorBase (descriptor : Word) : Nat :=
  (descriptor.extractLsb' 16 24).toNat + 2 ^ 24 * (descriptor.extractLsb' 56 8).toNat

/-- The limit of a descriptor. -/
def descriptorLimit (descriptor : Word) : Nat :=
  let pages := (descriptor.extractLsb' 0 16).toNat + 2 ^ 16 * (descriptor.extractLsb' 48 4).toNat
  if descriptor.getLsbD 55 then 4096 * pages + 4095 else pages

/-- The descriptor is present and describes code. -/
def isCode (descriptor : Word) : Bool :=
  descriptor.getLsbD 47 && descriptor.getLsbD 44 && descriptor.getLsbD 43

/-- The descriptor is present and describes a data segment that can be written. -/
def isData (descriptor : Word) : Bool :=
  descriptor.getLsbD 47 && descriptor.getLsbD 44 && !descriptor.getLsbD 43 &&
    descriptor.getLsbD 41

/-- A selector of the global table with the highest privilege. -/
def descriptor (table : List Word) (selector : Nat) : Option Word :=
  if selector % 8 = 0 then table[selector / 8]? else none

/-- The segment that a selector stands for.  In real mode the selector is the base, and the limit
stays; otherwise it selects a descriptor, and the null selector none. -/
def segment (controls : Controls) (bits : CodeSize) (table : List Word)
    (destination : SegmentRegister) (old : Segment) (selector : Nat) : Option Segment :=
  if controls.cr0.getLsbD protectionEnable then
    if selector = 0 then
      if destination = .ss ∧ bits ≠ .bits64 then none else some ⟨0, 0, false⟩
    else
      (descriptor table selector).bind fun entry =>
        if isData entry then some ⟨descriptorBase entry, descriptorLimit entry, true⟩ else none
  else some ⟨16 * selector, old.limit, true⟩

/-- The code size after a far jump to a label.  The labels are offsets from address 0, and a
descriptor is not for code of 32 and of 64 bits. -/
def farCode (controls : Controls) (table : List Word) (selector : Nat) : Option CodeSize :=
  if controls.cr0.getLsbD protectionEnable then
    (descriptor table selector).bind fun entry =>
      let long := controls.longMode && entry.getLsbD 53
      if isCode entry && !(long && entry.getLsbD 54) then
        if long then some .bits64
        else if descriptorBase entry = 0 ∧ codePage + 0xFFF ≤ descriptorLimit entry then
          some (if entry.getLsbD 54 then .bits32 else .bits16)
        else none
      else none
  else none

/-! ## Execution -/

/-- Read a control register. -/
def readControl (controls : Controls) : ControlRegister → Word
  | .cr0 => controls.cr0
  | .cr3 => controls.cr3
  | .cr4 => controls.cr4

/-- The control registers after a write to one of them from code of the given size. -/
def writeControl (env : ApEnv) (controls : Controls) (bits : CodeSize) (value : Word) :
    ControlRegister → Option Controls
  | .cr0 => controls.writeCr0 (bits = .bits64) value
  | .cr3 => controls.writeCr3 env.support value
  | .cr4 => controls.writeCr4 env.support value

/-- Install the result of a write to the control registers. -/
def install (cpu : Ap) : Option Controls → Ap
  | some controls => { cpu with controls }
  | none => cpu.stop

/-- All labels. -/
def labels : List Label := listing.map CodeBlock.label

/-- Jump to the address in a register. -/
def jumpTo (env : ApEnv) (cpu : Ap) (target : Word) : Ap :=
  match labels.find? fun label => env.address label = target with
  | some label => cpu.goto label
  | none => { cpu with pc := .left target }

/-- Execute an instruction; `pc` is already behind it. -/
def execute (env : ApEnv) (cpu : Ap) (memory : Quadwords) : Instruction → Ap × Quadwords
  | .cli => ({ cpu with interruptFlag := false }, memory)
  | .alu op width destination source =>
      let result := compute op (low width (cpu.register destination))
        (low width (operand cpu.register source))
      ({ cpu.set width destination result with zf := low width result = 0 }, memory)
  | .inc destination =>
      let result := cpu.register destination + 1
      ({ cpu.set .w64 destination result with zf := result = 0 }, memory)
  | .test width left right =>
      ({ cpu with zf := low width (cpu.register left &&& operand cpu.register right) = 0 }, memory)
  | .cmp left right => ({ cpu with zf := cpu.register left = right }, memory)
  | .mov width destination source =>
      (cpu.set width destination (operand cpu.register source), memory)
  | .movSegment destination source =>
      match segment cpu.controls cpu.code cpu.descriptors destination (cpu.segments destination)
        (low .w16 (cpu.register source)).toNat with
      | some loaded =>
          ({ cpu with segments := Function.update cpu.segments destination loaded }, memory)
      | none => (cpu.stop, memory)
  | .movFromControl destination source =>
      (cpu.set .w32 destination (readControl cpu.controls source), memory)
  | .movToControl width destination source =>
      (cpu.install (writeControl env cpu.controls cpu.code (low width (cpu.register source))
        destination), memory)
  | .lgdt table =>
      -- the operand and the table are in the code page
      if linear cpu.code (cpu.segments .ds) codePage = some codePage then
        ({ cpu with descriptors := table }, memory)
      else (cpu.stop, memory)
  | .rdmsr =>
      if low .w32 (cpu.register .rcx) = eferNumber then
        ((cpu.set .w32 .rax cpu.controls.efer).set .w32 .rdx (cpu.controls.efer >>> 32), memory)
      else (cpu.stop, memory)
  | .wrmsr =>
      if low .w32 (cpu.register .rcx) = eferNumber then
        (cpu.install (cpu.controls.writeEfer env.support
          ((cpu.register .rdx <<< 32) ||| low .w32 (cpu.register .rax))), memory)
      else (cpu.stop, memory)
  | .movzxByte destination address =>
      match cpu.quadword memory .read address with
      | some index => (cpu.set .w32 destination (low .w8 (memory index)), memory)
      | none => (cpu.stop, memory)
  | .loadAbsolute destination address =>
      match cpu.quadword memory .read address with
      | some index => (cpu.set .w64 destination (memory index), memory)
      | none => (cpu.stop, memory)
  | .load destination address =>
      match cpu.quadword memory .read (cpu.register address).toNat with
      | some index => (cpu.set .w64 destination (memory index), memory)
      | none => (cpu.stop, memory)
  | .lockCmpxchg address source =>
      match cpu.quadword memory .write (cpu.register address).toNat with
      | some index =>
          if memory index = cpu.register .rax then
            ({ cpu with zf := true },
              Function.update memory index (cpu.register source))
          else ({ cpu.set .w64 .rax (memory index) with zf := false }, memory)
      | none => (cpu.stop, memory)
  | .lea destination label => (cpu.set .w64 destination (env.address label), memory)
  | .jmp label => (cpu.goto label, memory)
  | .jz label => (if cpu.zf then cpu.goto label else cpu, memory)
  | .jnz label => (if cpu.zf then cpu else cpu.goto label, memory)
  | .jmpFar selector label =>
      match farCode cpu.controls cpu.descriptors selector with
      | some code => ({ cpu.goto label with code }, memory)
      | none => (cpu.stop, memory)
  | .jmpRegister target => (jumpTo env cpu (cpu.register target), memory)
  | .ud2 => (cpu.stop, memory)

/-- Fetch and execute the next instruction. -/
def step (env : ApEnv) (cpu : Ap) (memory : Quadwords) : Ap × Quadwords :=
  match cpu.pc with
  | .run ((bits, instruction) :: rest) =>
      match translate cpu.controls memory .fetch codePage with
      | some physical =>
          if physical = codePage ∧ bits = cpu.code then
            execute env { cpu with pc := .run rest } memory instruction
          else (cpu.stop, memory)
      | none => (cpu.stop, memory)
  | .run [] => (cpu.stop, memory)
  | .left _ | .stopped => (cpu, memory)

end Ap

end Okots.Trampoline
