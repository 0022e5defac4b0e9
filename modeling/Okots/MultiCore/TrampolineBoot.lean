import Okots.MultiCore.TrampolineCode

/-!
# From real mode to the tables of the kernel

The instructions before the search for a stack read the arguments and write only registers.  They
are followed block by block: a block takes every processor that enters it in the right mode to the
next label, with the control registers of the next stage.  `args.flags` decides between four and
five levels and whether execution can be disabled; the value for `CR4` that the first processor has
left in `args.cr4` must agree with it, because long mode is entered before that value is written.
-/

namespace Okots.Trampoline

open ControlRegisters

namespace Ap

/-! ## Silent runs -/

/-- In every memory with `good`, the processor gets to a state with `goal` in at most `bound` steps
that leave the memory alone. -/
inductive Arrives (env : ApEnv) (good : Quadwords → Prop) (goal : Ap → Prop) : Nat → Ap → Prop
  | here {bound : Nat} {cpu : Ap} (reached : goal cpu) : Arrives env good goal bound cpu
  | step {bound : Nat} {cpu next : Ap}
      (steps : ∀ memory, good memory → cpu.step env memory = (next, memory))
      (arrives : Arrives env good goal bound next) : Arrives env good goal (bound + 1) cpu

/-- Instructions are fetched from the code page. -/
def Fetches (good : Quadwords → Prop) (controls : Controls) : Prop :=
  ∀ memory, good memory → translate controls memory .fetch codePage = some codePage

variable {env : ApEnv} {good : Quadwords → Prop} {goal : Ap → Prop} {bound : Nat}

theorem Arrives.mono {cpu : Ap} {larger : Nat} (arrives : Arrives env good goal bound cpu)
    (le : bound ≤ larger) : Arrives env good goal larger cpu := by
  induction arrives generalizing larger with
  | here reached => exact .here reached
  | step steps _ induction =>
      obtain ⟨fewer, rfl⟩ := Nat.exists_eq_add_one_of_ne_zero (Nat.ne_zero_of_lt le)
      exact .step steps (induction (Nat.le_of_succ_le_succ le))

theorem Arrives.trans {middle : Ap → Prop} {cpu : Ap} {first : Nat}
    (arrives : Arrives env good middle first cpu)
    (continues : ∀ cpu, middle cpu → Arrives env good goal bound cpu) :
    Arrives env good goal (bound + first) cpu := by
  induction arrives with
  | here reached => exact (continues _ reached).mono (Nat.le_add_right ..)
  | step steps _ induction => exact .step steps induction

/-! ## A rule for each instruction -/

section Rules

variable {register : Register → Word} {zf interruptFlag : Bool} {controls : Controls}
  {bits : CodeSize} {table : List Word} {segments : SegmentRegister → Segment} {rest : List Line}
  {width : Width} {destination source : Register} {control : ControlRegister} {label : Label}

theorem step_run {memory : Quadwords} {instruction : Instruction}
    (fetched : translate controls memory .fetch codePage = some codePage) :
    step env ⟨register, zf, interruptFlag, controls, bits, table, segments,
        .run ((bits, instruction) :: rest)⟩ memory =
      Ap.execute env ⟨register, zf, interruptFlag, controls, bits, table, segments, .run rest⟩
        memory instruction := by
  simp only [step, fetched, and_self, if_true]

variable (fetches : Fetches good controls)

include fetches

theorem Arrives.execute {instruction : Instruction} {next : Ap}
    (executed : ∀ memory, good memory →
      Ap.execute env ⟨register, zf, interruptFlag, controls, bits, table, segments, .run rest⟩
        memory instruction = (next, memory))
    (arrives : Arrives env good goal bound next) :
    Arrives env good goal (bound + 1) ⟨register, zf, interruptFlag, controls, bits, table,
      segments, .run ((bits, instruction) :: rest)⟩ :=
  .step (fun memory holds => (step_run (fetches memory holds)).trans (executed memory holds))
    arrives

theorem Arrives.cli
    (arrives : Arrives env good goal bound
      ⟨register, zf, false, controls, bits, table, segments, .run rest⟩) :
    Arrives env good goal (bound + 1) ⟨register, zf, interruptFlag, controls, bits, table,
      segments, .run ((bits, .cli) :: rest)⟩ :=
  .execute fetches (fun _ _ => rfl) arrives

theorem Arrives.alu {op : AluOp} {right : Operand} (result : Word)
    (computed : compute op (low width (register destination)) (low width (operand register right)) =
      result)
    (arrives : Arrives env good goal bound
      ⟨Function.update register destination (merge width (register destination) result),
        low width result = 0, interruptFlag, controls, bits, table, segments, .run rest⟩) :
    Arrives env good goal (bound + 1) ⟨register, zf, interruptFlag, controls, bits, table,
      segments, .run ((bits, .alu op width destination right) :: rest)⟩ := by
  subst computed
  exact .execute fetches (fun _ _ => rfl) arrives

theorem Arrives.test {right : Operand} (result : Bool)
    (computed : decide (low width (register source &&& operand register right) = 0) = result)
    (arrives : Arrives env good goal bound
      ⟨register, result, interruptFlag, controls, bits, table, segments, .run rest⟩) :
    Arrives env good goal (bound + 1) ⟨register, zf, interruptFlag, controls, bits, table,
      segments, .run ((bits, .test width source right) :: rest)⟩ := by
  subst computed
  exact .execute fetches (fun _ _ => rfl) arrives

theorem Arrives.inc
    (arrives : Arrives env good goal bound
      ⟨Function.update register destination (register destination + 1),
        decide (register destination + 1 = 0), interruptFlag, controls, bits, table, segments,
        .run rest⟩) :
    Arrives env good goal (bound + 1) ⟨register, zf, interruptFlag, controls, bits, table,
      segments, .run ((bits, .inc destination) :: rest)⟩ :=
  .execute fetches (fun _ _ => rfl) arrives

theorem Arrives.cmp {right : Word}
    (arrives : Arrives env good goal bound
      ⟨register, register source = right, interruptFlag, controls, bits, table, segments,
        .run rest⟩) :
    Arrives env good goal (bound + 1) ⟨register, zf, interruptFlag, controls, bits, table,
      segments, .run ((bits, .cmp source right) :: rest)⟩ :=
  .execute fetches (fun _ _ => rfl) arrives

theorem Arrives.mov {right : Operand}
    (arrives : Arrives env good goal bound
      ⟨Function.update register destination
          (merge width (register destination) (operand register right)),
        zf, interruptFlag, controls, bits, table, segments, .run rest⟩) :
    Arrives env good goal (bound + 1) ⟨register, zf, interruptFlag, controls, bits, table,
      segments, .run ((bits, .mov width destination right) :: rest)⟩ :=
  .execute fetches (fun _ _ => rfl) arrives

theorem Arrives.movSegment {target : SegmentRegister} (loaded : Segment)
    (selected : segment controls bits table target (segments target)
      (low .w16 (register source)).toNat = some loaded)
    (arrives : Arrives env good goal bound
      ⟨register, zf, interruptFlag, controls, bits, table,
        Function.update segments target loaded, .run rest⟩) :
    Arrives env good goal (bound + 1) ⟨register, zf, interruptFlag, controls, bits, table,
      segments, .run ((bits, .movSegment target source) :: rest)⟩ :=
  .execute fetches (fun _ _ => by simp only [Ap.execute, selected]) arrives

theorem Arrives.movFromControl
    (arrives : Arrives env good goal bound
      ⟨Function.update register destination (low .w32 (readControl controls control)),
        zf, interruptFlag, controls, bits, table, segments, .run rest⟩) :
    Arrives env good goal (bound + 1) ⟨register, zf, interruptFlag, controls, bits, table,
      segments, .run ((bits, .movFromControl destination control) :: rest)⟩ :=
  .execute fetches (fun _ _ => rfl) arrives

theorem Arrives.movToControl (after : Controls)
    (written : writeControl env controls bits (low width (register source)) control = some after)
    (arrives : Arrives env good goal bound
      ⟨register, zf, interruptFlag, after, bits, table, segments, .run rest⟩) :
    Arrives env good goal (bound + 1) ⟨register, zf, interruptFlag, controls, bits, table,
      segments, .run ((bits, .movToControl width control source) :: rest)⟩ :=
  .execute fetches (fun _ _ => by simp only [Ap.execute, written, install]) arrives

theorem Arrives.lgdt {loaded : List Word}
    (data : linear bits (segments .ds) codePage = some codePage)
    (arrives : Arrives env good goal bound
      ⟨register, zf, interruptFlag, controls, bits, loaded, segments, .run rest⟩) :
    Arrives env good goal (bound + 1) ⟨register, zf, interruptFlag, controls, bits, table,
      segments, .run ((bits, .lgdt loaded) :: rest)⟩ :=
  .execute fetches (fun _ _ => if_pos data) arrives

theorem Arrives.rdmsr (number : low .w32 (register .rcx) = eferNumber)
    (arrives : Arrives env good goal bound
      ⟨Function.update (Function.update register .rax (low .w32 controls.efer)) .rdx
          (low .w32 (controls.efer >>> 32)),
        zf, interruptFlag, controls, bits, table, segments, .run rest⟩) :
    Arrives env good goal (bound + 1) ⟨register, zf, interruptFlag, controls, bits, table,
      segments, .run ((bits, .rdmsr) :: rest)⟩ :=
  .execute fetches (fun _ _ => if_pos number) arrives

theorem Arrives.wrmsr (after : Controls) (number : low .w32 (register .rcx) = eferNumber)
    (written : controls.writeEfer env.support
      ((register .rdx <<< 32) ||| low .w32 (register .rax)) = some after)
    (arrives : Arrives env good goal bound
      ⟨register, zf, interruptFlag, after, bits, table, segments, .run rest⟩) :
    Arrives env good goal (bound + 1) ⟨register, zf, interruptFlag, controls, bits, table,
      segments, .run ((bits, .wrmsr) :: rest)⟩ :=
  .execute fetches (fun _ _ => by simp only [Ap.execute, number, if_true, written, install]) arrives

theorem Arrives.movzxByte {address : Nat} (value : Word)
    (read : ∀ memory, good memory → ∃ index, low .w8 (memory index) = value ∧
      quadword ⟨register, zf, interruptFlag, controls, bits, table, segments, .run rest⟩ memory
        .read address = some index)
    (arrives : Arrives env good goal bound
      ⟨Function.update register destination (low .w32 value),
        zf, interruptFlag, controls, bits, table, segments, .run rest⟩) :
    Arrives env good goal (bound + 1) ⟨register, zf, interruptFlag, controls, bits, table,
      segments, .run ((bits, .movzxByte destination address) :: rest)⟩ := by
  refine .execute fetches (fun memory holds => ?_) arrives
  obtain ⟨index, rfl, reached⟩ := read memory holds
  simp only [Ap.execute, reached]
  rfl

theorem Arrives.loadAbsolute {address : Nat} (value : Word)
    (read : ∀ memory, good memory → ∃ index, memory index = value ∧
      quadword ⟨register, zf, interruptFlag, controls, bits, table, segments, .run rest⟩ memory
        .read address = some index)
    (arrives : Arrives env good goal bound
      ⟨Function.update register destination value,
        zf, interruptFlag, controls, bits, table, segments, .run rest⟩) :
    Arrives env good goal (bound + 1) ⟨register, zf, interruptFlag, controls, bits, table,
      segments, .run ((bits, .loadAbsolute destination address) :: rest)⟩ := by
  refine .execute fetches (fun memory holds => ?_) arrives
  obtain ⟨index, rfl, reached⟩ := read memory holds
  simp only [Ap.execute, reached]
  rfl

theorem Arrives.lea
    (arrives : Arrives env good goal bound
      ⟨Function.update register destination (env.address label),
        zf, interruptFlag, controls, bits, table, segments, .run rest⟩) :
    Arrives env good goal (bound + 1) ⟨register, zf, interruptFlag, controls, bits, table,
      segments, .run ((bits, .lea destination label) :: rest)⟩ :=
  .execute fetches (fun _ _ => rfl) arrives

theorem Arrives.jmp
    (arrives : Arrives env good goal bound
      ⟨register, zf, interruptFlag, controls, bits, table, segments, .run (codeAt label)⟩) :
    Arrives env good goal (bound + 1) ⟨register, zf, interruptFlag, controls, bits, table,
      segments, .run ((bits, .jmp label) :: rest)⟩ :=
  .execute fetches (fun _ _ => rfl) arrives

theorem Arrives.jz
    (arrives : Arrives env good goal bound
      ⟨register, zf, interruptFlag, controls, bits, table, segments,
        .run (if zf then codeAt label else rest)⟩) :
    Arrives env good goal (bound + 1) ⟨register, zf, interruptFlag, controls, bits, table,
      segments, .run ((bits, .jz label) :: rest)⟩ := by
  refine .execute fetches (fun _ _ => ?_) arrives
  cases zf <;> rfl

theorem Arrives.jnz
    (arrives : Arrives env good goal bound
      ⟨register, zf, interruptFlag, controls, bits, table, segments,
        .run (if zf then rest else codeAt label)⟩) :
    Arrives env good goal (bound + 1) ⟨register, zf, interruptFlag, controls, bits, table,
      segments, .run ((bits, .jnz label) :: rest)⟩ := by
  refine .execute fetches (fun _ _ => ?_) arrives
  cases zf <;> rfl

theorem Arrives.ud2
    (arrives : Arrives env good goal bound
      ⟨register, zf, interruptFlag, controls, bits, table, segments, .stopped⟩) :
    Arrives env good goal (bound + 1) ⟨register, zf, interruptFlag, controls, bits, table,
      segments, .run ((bits, .ud2) :: rest)⟩ :=
  .execute fetches (fun _ _ => rfl) arrives

theorem Arrives.jmpFar {selector : Nat} (code : CodeSize)
    (selected : farCode controls table selector = some code)
    (arrives : Arrives env good goal bound
      ⟨register, zf, interruptFlag, controls, code, table, segments, .run (codeAt label)⟩) :
    Arrives env good goal (bound + 1) ⟨register, zf, interruptFlag, controls, bits, table,
      segments, .run ((bits, .jmpFar selector label) :: rest)⟩ :=
  .execute fetches (fun _ _ => by simp only [Ap.execute, selected, goto]) arrives

theorem Arrives.jmpRegister (injective : Function.Injective env.address)
    (target : register source = env.address label)
    (arrives : Arrives env good goal bound
      ⟨register, zf, interruptFlag, controls, bits, table, segments, .run (codeAt label)⟩) :
    Arrives env good goal (bound + 1) ⟨register, zf, interruptFlag, controls, bits, table,
      segments, .run ((bits, .jmpRegister source) :: rest)⟩ := by
  refine .execute fetches (fun _ _ => ?_) arrives
  have found : (labels.find? fun other => env.address other = env.address label) = some label := by
    simp only [injective.eq_iff]
    cases label <;> rfl
  simp only [Ap.execute, jumpTo, target, found, goto]

/-- A jump out of the image. -/
theorem Arrives.leave (outside : ∀ label, env.address label ≠ register source)
    (arrives : Arrives env good goal bound
      ⟨register, zf, interruptFlag, controls, bits, table, segments, .left (register source)⟩) :
    Arrives env good goal (bound + 1) ⟨register, zf, interruptFlag, controls, bits, table,
      segments, .run ((bits, .jmpRegister source) :: rest)⟩ := by
  refine .execute fetches (fun _ _ => ?_) arrives
  have missing : (labels.find? fun other => env.address other = register source) = none :=
    List.find?_eq_none.mpr fun label _ => by simpa using outside label
  simp only [Ap.execute, jumpTo, missing]

end Rules

/-! ## Stages -/

/-- `CR0` with the bits of the caches as they were before the reset. -/
def cr0At (cd nw pe pg : Bool) : Word :=
  0x10 ||| (if pe then 1 else 0) ||| (if nw then BitVec.twoPow 64 29 else 0) |||
    (if cd then BitVec.twoPow 64 30 else 0) ||| (if pg then BitVec.twoPow 64 31 else 0)

/-- `CR4` with `PAE` and `LA57`. -/
def cr4At (pae la57 : Bool) : Word :=
  (if pae then BitVec.twoPow 64 5 else 0) ||| (if la57 then BitVec.twoPow 64 12 else 0)

/-- The extended features with `NXE`, `LME` and `LMA`. -/
def eferAt (nx lme lma : Bool) : Word :=
  (if lme then BitVec.twoPow 64 8 else 0) ||| (if lma then BitVec.twoPow 64 10 else 0) |||
    (if nx then BitVec.twoPow 64 11 else 0)

/-- A processor that has received the startup interrupt.  The caches are disabled, or on as before;
write-back without caches is not a mode. -/
structure Started (cd nw : Bool) (cr3 : Word) (cpu : Ap) : Prop where
  pc : cpu.pc = .run (codeAt .trampolineFn)
  code : cpu.code = .bits16
  controls : cpu.controls = ⟨cr0At cd nw false false, cr3, 0, 0⟩
  caches : (cd || !nw) = true
  limit : codePage ≤ (cpu.segments .ds).limit

/-- A processor at a label, with the control registers and the descriptors it has loaded. -/
structure Stage (bits : CodeSize) (controls : Controls) (label : Label) (cpu : Ap) : Prop where
  pc : cpu.pc = .run (codeAt label)
  code : cpu.code = bits
  controls : cpu.controls = controls
  table : cpu.descriptors = gdt
  interrupts : cpu.interruptFlag = false

theorem Stage.eq {bits : CodeSize} {controls : Controls} {label : Label} {cpu : Ap}
    (stage : Stage bits controls label cpu) :
    cpu = ⟨cpu.register, cpu.zf, false, controls, bits, gdt, cpu.segments,
      .run (codeAt label)⟩ := by
  obtain ⟨register, zf, interruptFlag, _, _, table, segments, _⟩ := cpu
  obtain ⟨rfl, rfl, rfl, rfl, rfl⟩ := stage
  rfl

section Bits

variable (cd nw pe pg pae la57 nx lme lma : Bool)

@[simp]
theorem cr0At_pe : (cr0At cd nw pe pg).getLsbD protectionEnable = pe := by
  revert cd nw pe pg
  decide

@[simp]
theorem cr0At_pg : (cr0At cd nw pe pg).getLsbD pagingEnable = pg := by
  revert cd nw pe pg
  decide

@[simp]
theorem cr0At_wp : (cr0At cd nw pe pg).getLsbD writeProtect = false := by
  revert cd nw pe pg
  decide

@[simp]
theorem cr0At_nw : (cr0At cd nw pe pg).getLsbD notWriteThrough = nw := by
  revert cd nw pe pg
  decide

@[simp]
theorem cr0At_cd : (cr0At cd nw pe pg).getLsbD cacheDisable = cd := by
  revert cd nw pe pg
  decide

@[simp]
theorem low_cr0At : low .w32 (cr0At cd nw pe pg) = cr0At cd nw pe pg := by
  revert cd nw pe pg
  decide

theorem or_pe : compute .or (low .w32 (low .w32 (cr0At cd nw false pg))) (low .w32 1) =
    cr0At cd nw true pg := by
  revert cd nw pg
  decide

theorem or_pg : compute .or (low .w32 (low .w32 (cr0At cd nw pe false)))
    (low .w32 (BitVec.twoPow 64 31)) = cr0At cd nw pe true := by
  revert cd nw pe
  decide

@[simp]
theorem cr4At_pae : (cr4At pae la57).getLsbD physicalAddressExtension = pae := by
  revert pae la57
  decide

@[simp]
theorem cr4At_la57 : (cr4At pae la57).getLsbD fiveLevels = la57 := by
  revert pae la57
  decide

@[simp]
theorem cr4At_pcide : (cr4At pae la57).getLsbD processContexts = false := by
  revert pae la57
  decide

@[simp]
theorem cr4At_cet : (cr4At pae la57).getLsbD controlFlowEnforcement = false := by
  revert pae la57
  decide

@[simp]
theorem low_cr4At : low .w32 (cr4At pae la57) = cr4At pae la57 := by
  revert pae la57
  decide

theorem or_pae : compute .or (low .w32 (low .w32 (cr4At false la57)))
    (low .w32 (BitVec.twoPow 64 5)) = cr4At true la57 := by
  revert la57
  decide

theorem or_la57 : compute .or (low .w32 (low .w32 (cr4At pae false)))
    (low .w32 (BitVec.twoPow 64 12)) = cr4At pae true := by
  revert pae
  decide

@[simp]
theorem eferAt_nx : (eferAt nx lme lma).getLsbD noExecuteEnable = nx := by
  revert nx lme lma
  decide

@[simp]
theorem eferAt_lme : (eferAt nx lme lma).getLsbD longModeEnable = lme := by
  revert nx lme lma
  decide

@[simp]
theorem eferAt_lma : (eferAt nx lme lma).getLsbD longModeActive = lma := by
  revert nx lme lma
  decide

theorem or_lma : eferAt nx lme false ||| BitVec.twoPow 64 longModeActive = eferAt nx lme true := by
  revert nx lme
  decide

/-- Reading the extended features and writing them back with `NXE`. -/
theorem or_nx : (low .w32 (eferAt false lme lma >>> 32) <<< 32) |||
    low .w32 (compute .or (low .w32 (low .w32 (eferAt false lme lma)))
      (low .w32 (BitVec.twoPow 64 11))) = eferAt true lme lma := by
  revert lme lma
  decide

/-- Reading the extended features and writing them back with `LME`. -/
theorem or_lme : (low .w32 (eferAt nx false lma >>> 32) <<< 32) |||
    low .w32 (compute .or (low .w32 (low .w32 (eferAt nx false lma)))
      (low .w32 (BitVec.twoPow 64 8))) = eferAt nx true lma := by
  revert nx lma
  decide

end Bits

theorem fetches_unpaged {cd nw pe : Bool} {cr3 cr4 efer : Word} :
    Fetches good ⟨cr0At cd nw pe false, cr3, cr4, efer⟩ := by
  intro memory _
  simp [translate, Controls.paging]

@[simp]
theorem low_merge (width : Width) (old value : Word) :
    low width (merge width old value) = low width value := by
  have masked : ∀ mask : Word, (old &&& ~~~mask ||| value &&& mask) &&& mask = value &&& mask := by
    intro mask
    ext index inside
    simp only [BitVec.getElem_and, BitVec.getElem_or, BitVec.getElem_not]
    cases old[index] <;> cases value[index] <;> cases mask[index] <;> rfl
  cases width with
  | w8 => exact masked _
  | w16 => exact masked _
  | w32 => simp [merge, low, BitVec.and_assoc]
  | w64 => rfl

/-- The processor has long mode, and what `args.flags` asks for; the temporary tables are in its
address space. -/
structure Supports (support : Support) (nx la57 : Bool) : Prop where
  longMode : support.efer.getLsbD longModeEnable = true
  noExecute : nx = true → support.efer.getLsbD noExecuteEnable = true
  extension : support.cr4.getLsbD physicalAddressExtension = true
  levels : la57 = true → support.cr4.getLsbD fiveLevels = true
  physical : 16 ≤ support.physicalBits ∧ support.physicalBits ≤ 52

/-- A value is supported if each of its bits is. -/
theorem and_not_eq_zero {value mask : Word}
    (bits : ∀ index, value.getLsbD index = true → mask.getLsbD index = true) :
    value &&& ~~~mask = 0 := by
  apply BitVec.eq_of_getLsbD_eq
  intro index bound
  cases bit : value.getLsbD index with
  | false => simp [bit]
  | true => simp [bits index bit]

theorem Supports.efer {support : Support} {nx la57 : Bool} (supports : Supports support nx la57)
    {more lme : Bool} (less : more = true → nx = true) :
    eferAt more lme false &&& ~~~support.efer = 0 := by
  refine and_not_eq_zero fun index bit => ?_
  have cases : index = longModeEnable ∨ index = noExecuteEnable ∧ more = true := by
    cases more <;> cases lme <;> simp_all [eferAt, longModeEnable, noExecuteEnable]; omega
  rcases cases with rfl | ⟨rfl, enabled⟩
  · exact supports.longMode
  · exact supports.noExecute (less enabled)

/-- Without paging, the extended features can be written. -/
theorem Supports.writeEfer {support : Support} {nx la57 : Bool}
    (supports : Supports support nx la57) {cd nw pe before lme more enabled : Bool} {cr3 cr4 : Word}
    (less : more = true → nx = true) :
    (⟨cr0At cd nw pe false, cr3, cr4, eferAt before lme false⟩ : Controls).writeEfer support
        (eferAt more enabled false) =
      some ⟨cr0At cd nw pe false, cr3, cr4, eferAt more enabled false⟩ := by
  have kept : eferAt more enabled false &&& ~~~BitVec.twoPow 64 longModeActive |||
      eferAt before lme false &&& BitVec.twoPow 64 longModeActive = eferAt more enabled false := by
    clear less
    revert more enabled before lme
    decide
  simp [Controls.writeEfer, supports.efer less, Controls.paging, kept]

theorem Supports.cr4 {support : Support} {nx la57 : Bool} (supports : Supports support nx la57)
    {more : Bool} (less : more = true → la57 = true) :
    cr4At true more &&& ~~~support.cr4 = 0 := by
  refine and_not_eq_zero fun index bit => ?_
  have cases : index = physicalAddressExtension ∨ index = fiveLevels ∧ more = true := by
    cases more <;> simp_all [cr4At, physicalAddressExtension, fiveLevels]; omega
  rcases cases with rfl | ⟨rfl, enabled⟩
  · exact supports.extension
  · exact supports.levels (less enabled)

/-- `trampoline_fn`. -/
theorem arrives_trampoline32 {cd nw : Bool} {cr3 : Word} {cpu : Ap}
    (started : Started cd nw cr3 cpu) :
    Arrives env good (Stage .bits32 ⟨cr0At cd nw true false, cr3, 0, 0⟩ .trampoline32) 10 cpu := by
  obtain ⟨register, zf, interruptFlag, controls, bits, table, segments, pc⟩ := cpu
  obtain ⟨rfl, rfl, rfl, caches, limit⟩ := started
  have fetches : Fetches good ⟨cr0At cd nw false false, cr3, 0, 0⟩ := fetches_unpaged
  have real : ∀ target old table, segment ⟨cr0At cd nw false false, cr3, 0, 0⟩ .bits16 table target
      old 0 = some ⟨0, old.limit, true⟩ := by
    intro target old table
    simp [segment]
  apply Arrives.cli fetches
  apply Arrives.alu fetches 0 BitVec.xor_self
  have zero : ∀ old : Word, (low .w16 (merge .w16 old 0)).toNat = 0 := fun old => by
    rw [low_merge]
    rfl
  apply Arrives.movSegment fetches _ (by rw [Function.update_self, zero, real])
  apply Arrives.movSegment fetches _ (by rw [Function.update_self, zero, real])
  apply Arrives.movSegment fetches _ (by rw [Function.update_self, zero, real])
  apply Arrives.lgdt fetches (by simp [linear, limit])
  apply Arrives.movFromControl fetches
  apply Arrives.alu fetches (cr0At cd nw true false)
  · rw [Function.update_self]
    exact or_pe cd nw false
  apply Arrives.movToControl fetches ⟨cr0At cd nw true false, cr3, 0, 0⟩
  · rw [Function.update_self, low_merge, low_cr0At]
    simp [writeControl, Controls.writeCr0, Controls.Cr0Ok, Controls.paging, caches]
  apply Arrives.jmpFar fetches_unpaged .bits32
  · simp [farCode, Controls.longMode]
    decide
  exact .here ⟨rfl, rfl, rfl, rfl, rfl⟩

/-- The flat segment of the descriptors. -/
def flat : Segment := ⟨0, 0xFFFFFFFF, true⟩

/-- A block of the 32-bit part: the data segment is flat, and `rbx` is known. -/
structure Flat (controls : Controls) (label : Label) (rbx : Word) (cpu : Ap) : Prop where
  stage : Stage .bits32 controls label cpu
  data : cpu.segments .ds = flat
  rbx : cpu.register .rbx = rbx

theorem test_nx (nx la57 : Bool) :
    decide (low .w8 (low .w32 (flagByte nx la57) &&& 1) = 0) = !nx := by
  revert nx la57
  decide

theorem test_la57 (nx la57 : Bool) :
    decide (low .w8 (low .w32 (flagByte nx la57) &&& 0b10) = 0) = !la57 := by
  revert nx la57
  decide

/-- The temporary top table. -/
def tmpTop (la57 : Bool) : Nat := if la57 then tmpP5 else tmpP4

/-- The arguments and the temporary tables are in memory. -/
structure Loaded (args : Args) (memory : Quadwords) : Prop where
  pmlAddr : memory (argsPmlAddr / 8) = args.pmlAddr
  stack : memory (argsStack / 8) = args.stack
  target : memory (argsTarget / 8) = args.target
  cr4 : memory (argsCr4 / 8) = args.cr4
  flags : low .w8 (memory (argsFlags / 8)) = flagByte args.nx args.la57
  p5Entry : memory (tmpP5 / 8) = BitVec.ofNat 64 (tmpP4 + 0b11)
  p4Entry : memory (tmpP4 / 8) = BitVec.ofNat 64 (tmpPdpt + 0b11)
  pdptEntry : memory (tmpPdpt / 8) = BitVec.ofNat 64 (tmpPd + 0b11)
  pdEntry : memory (tmpPd / 8) = 0b10000111

/-- What is loaded is below the end of the image. -/
theorem Loaded.congr {args : Args} {memory other : Quadwords} (loaded : Loaded args memory)
    (same : ∀ index < 0x1A00, other index = memory index) : Loaded args other where
  pmlAddr := (same _ (by decide)).trans loaded.pmlAddr
  stack := (same _ (by decide)).trans loaded.stack
  target := (same _ (by decide)).trans loaded.target
  cr4 := (same _ (by decide)).trans loaded.cr4
  flags := (congrArg _ (same _ (by decide))).trans loaded.flags
  p5Entry := (same _ (by decide)).trans loaded.p5Entry
  p4Entry := (same _ (by decide)).trans loaded.p4Entry
  pdptEntry := (same _ (by decide)).trans loaded.pdptEntry
  pdEntry := (same _ (by decide)).trans loaded.pdEntry

/-- One step of a walk down the temporary tables. -/
theorem walk_down {memory : Quadwords} {level next : PageLevel} {table address : Nat} {word : Word}
    {rights : Rights} (inner : level.down = some next) (index : (level.getIndex address).val = 0)
    (entry : memory (table / 8) = word) (present : word.getLsbD 0 = true)
    (relay : word.getLsbD 7 = false) :
    hardwareWalk memory.tables level table address rights =
      hardwareWalk memory.tables next (tableBase word) address (rights.meet word) := by
  have found : memory.tables table (level.getIndex address) = word := by
    rw [Quadwords.tables, index, Nat.add_zero, entry]
  rw [hardwareWalk]
  simp only [found, present, relay, if_true]
  split
  · rename_i last
    rw [last] at inner
    cases inner
  · rename_i other below
    rw [below] at inner
    cases inner
    rfl

/-- The temporary tables map the first two megabytes to themselves. -/
theorem Loaded.walk {args : Args} {memory : Quadwords} (loaded : Loaded args memory) {address : Nat}
    (small : address < 2 ^ 21) (la57 : Bool) :
    hardwareWalk memory.tables (if la57 then .pml5 else .pml4) (tmpTop la57) address Rights.all =
      some ⟨address, ⟨true, false, false⟩, false, false, false⟩ := by
  have index : ∀ level : PageLevel, level ≠ .pt → (level.getIndex address).val = 0 := by
    intro level inner
    have shift : 21 ≤ level.shift := by cases level <;> first | decide | exact absurd rfl inner
    have span : 2 ^ 21 ≤ 2 ^ level.shift := Nat.pow_le_pow_right (by decide) shift
    simp only [PageLevel.getIndex, Nat.shiftRight_eq_div_pow]
    rw [Nat.div_eq_of_lt (lt_of_lt_of_le small span)]
  have lower : ∀ rights : Rights, rights.writable = true → rights.executeDisable = false →
      hardwareWalk memory.tables .pml4 tmpP4 address rights =
        some ⟨address, ⟨true, false, false⟩, false, false, false⟩ := by
    intro rights writable executable
    rw [walk_down rfl (index .pml4 (by decide)) loaded.p4Entry (by decide) (by decide),
      show tableBase (BitVec.ofNat 64 (tmpPdpt + 0b11)) = tmpPdpt by decide,
      walk_down rfl (index .pdpt (by decide)) loaded.pdptEntry (by decide) (by decide),
      show tableBase (BitVec.ofNat 64 (tmpPd + 0b11)) = tmpPd by decide, hardwareWalk]
    have found : memory.tables tmpPd (PageLevel.pd.getIndex address) = 0b10000111 := by
      rw [Quadwords.tables, index .pd (by decide), Nat.add_zero, loaded.pdEntry]
    have base : ((0b10000111 : Word) &&& addressField 21).toNat = 0 := by decide
    have offset : address % PageLevel.pd.entrySize = address := Nat.mod_eq_of_lt small
    simp only [found, PageLevel.down, leafTranslation, leafBase, base, offset, Option.map_some,
      Nat.zero_add, Rights.meet, writable, executable]
    cases rights.user <;> rfl
  cases la57 with
  | false => exact lower Rights.all rfl rfl
  | true =>
      show hardwareWalk memory.tables .pml5 tmpP5 address Rights.all = _
      rw [walk_down rfl (index .pml5 (by decide)) loaded.p5Entry (by decide) (by decide),
        show tableBase (BitVec.ofNat 64 (tmpP4 + 0b11)) = tmpP4 by decide]
      exact lower _ rfl rfl

/-- Long mode on the temporary tables. -/
def temporary (cd nw nx la57 : Bool) (cr4 : Word) : Controls :=
  ⟨cr0At cd nw true true, BitVec.ofNat 64 (tmpTop la57), cr4, eferAt nx true true⟩

/-- Long mode on the tables of the kernel. -/
def kernel (cd nw : Bool) (args : Args) : Controls :=
  ⟨cr0At cd nw true true, args.pmlAddr, args.cr4, eferAt args.nx true true⟩

/-- The processor can switch to the registers of the first one: `CR4` is supported, keeps the paging
mode that was entered, and does not need write protection. -/
structure Switches (support : Support) (args : Args) : Prop where
  supported : args.cr4 &&& ~~~support.cr4 = 0
  extension : args.cr4.getLsbD physicalAddressExtension = true
  levels : args.cr4.getLsbD fiveLevels = args.la57
  enforcement : args.cr4.getLsbD controlFlowEnforcement = false
  table : args.pmlAddr.toNat < 2 ^ support.physicalBits

theorem canonical_of_lt {controls : Controls} {address : Nat} (small : address < 2 ^ 47) :
    canonical controls address = true := by
  have wider : (2 : Nat) ^ 47 ≤ 2 ^ 56 := by decide
  rw [canonical, Bool.or_eq_true, decide_eq_true_eq]
  left
  split
  · exact small.trans_le wider
  · exact small

theorem Loaded.translate {args : Args} {memory : Quadwords} (loaded : Loaded args memory)
    {address : Nat} (small : address < 2 ^ 21) {cd nw nx la57 : Bool} {cr4 : Word}
    (levels : cr4.getLsbD fiveLevels = la57) (access : Access) :
    translate (temporary cd nw nx la57 cr4) memory access address = some address := by
  have table : tableBase (BitVec.ofNat 64 (tmpTop la57)) = tmpTop la57 := by
    cases la57 <;> decide
  have inside : ∀ controls, canonical controls address = true := fun _ =>
    canonical_of_lt (small.trans (by decide))
  simp only [Ap.translate, inside, Controls.paging, Controls.longMode, temporary, cr0At_pg,
    eferAt_lma, levels, table, loaded.walk small, if_true, Bool.and_self, Option.bind_some]
  cases access <;> simp [permits]

/-- The sequence that sets a bit of the extended features. -/
theorem Arrives.orEfer {register : Register → Word} {zf interruptFlag : Bool}
    {controls : Controls} {bits : CodeSize} {table : List Word}
    {segments : SegmentRegister → Segment} {rest : List Line} {bit : Word}
    (fetches : Fetches good controls) (after : Controls)
    (written : controls.writeEfer env.support
      ((low .w32 (controls.efer >>> 32) <<< 32) |||
        low .w32 (compute .or (low .w32 (low .w32 controls.efer)) (low .w32 bit))) =
      some after)
    (arrives : ∀ changed zf, changed .rbx = register .rbx → Arrives env good goal bound
      ⟨changed, zf, interruptFlag, after, bits, table, segments, .run rest⟩) :
    Arrives env good goal (bound + 4) ⟨register, zf, interruptFlag, controls, bits, table,
      segments, .run ((bits, .mov .w32 .rcx (.imm eferNumber)) :: (bits, .rdmsr) ::
        (bits, .alu .or .w32 .rax (.imm bit)) :: (bits, .wrmsr) :: rest)⟩ := by
  have number : ∀ old, low .w32 (merge .w32 old eferNumber) = eferNumber := by
    intro old
    rw [low_merge]
    decide
  apply Arrives.mov fetches
  apply Arrives.rdmsr fetches (by rw [Function.update_self]; exact number _)
  apply Arrives.alu fetches _ rfl
  apply Arrives.wrmsr fetches after
  · simp only [Function.update_self, Function.update_of_ne, ne_eq, reduceCtorEq, not_false_eq_true]
    exact number _
  · simpa [operand] using written
  · exact arrives _ _ (by simp)

section Blocks

variable {args : Args} {cd nw : Bool} {cr3 : Word} {cpu : Ap}
  (supports : Supports env.support args.nx args.la57)
  (loaded : ∀ memory, good memory → Loaded args memory)

include loaded

/-- `movzx ecx, byte [args.flags]` without paging. -/
theorem Arrives.movzxFlags {register : Register → Word} {zf : Bool} {cr4 efer : Word}
    {segments : SegmentRegister → Segment} {rest : List Line} (data : segments .ds = flat)
    (arrives : Arrives env good goal bound
      ⟨Function.update register .rcx (low .w32 (flagByte args.nx args.la57)), zf, false,
        ⟨cr0At cd nw true false, cr3, cr4, efer⟩, .bits32, gdt, segments, .run rest⟩) :
    Arrives env good goal (bound + 1) ⟨register, zf, false,
      ⟨cr0At cd nw true false, cr3, cr4, efer⟩, .bits32, gdt, segments,
      .run ((.bits32, .movzxByte .rcx argsFlags) :: rest)⟩ := by
  refine .movzxByte fetches_unpaged _ (fun memory holds => ?_) arrives
  refine ⟨_, (loaded memory holds).flags, ?_⟩
  simp [quadword, linear, data, flat, translate, Controls.paging, argsFlags, trampTarget]

include supports

/-- `trampoline_32`. -/
theorem arrives_notNx
    (stage : Stage .bits32 ⟨cr0At cd nw true false, cr3, 0, 0⟩ .trampoline32 cpu) :
    Arrives env good
      (Flat ⟨cr0At cd nw true false, cr3, cr4At true false, eferAt args.nx false false⟩ .notNx 0)
      17 cpu := by
  rw [stage.eq]
  have fetches : ∀ cr4 efer, Fetches good ⟨cr0At cd nw true false, cr3, cr4, efer⟩ :=
    fun _ _ => fetches_unpaged
  have selected : ∀ (old : Word) (target : SegmentRegister) (before : Segment),
      segment ⟨cr0At cd nw true false, cr3, 0, 0⟩ .bits32 gdt target before
        (low .w16 (merge .w16 old 0x10)).toNat = some flat := by
    intro old target before
    rw [low_merge]
    simp only [segment, cr0At_pe, if_true]
    cases target <;> decide
  apply Arrives.mov (fetches 0 0)
  apply Arrives.movSegment (fetches 0 0) flat (by rw [Function.update_self]; exact selected ..)
  apply Arrives.movSegment (fetches 0 0) flat (by rw [Function.update_self]; exact selected ..)
  apply Arrives.movSegment (fetches 0 0) flat (by rw [Function.update_self]; exact selected ..)
  apply Arrives.movSegment (fetches 0 0) flat (by rw [Function.update_self]; exact selected ..)
  apply Arrives.movSegment (fetches 0 0) flat (by rw [Function.update_self]; exact selected ..)
  apply Arrives.alu (fetches 0 0) 0 BitVec.xor_self
  apply Arrives.movFromControl (fetches 0 0)
  apply Arrives.alu (fetches 0 0) (cr4At true false)
  · rw [Function.update_self]
    exact or_pae false
  apply Arrives.movToControl (fetches 0 0) ⟨cr0At cd nw true false, cr3, cr4At true false, 0⟩
  · rw [Function.update_self, low_merge, low_cr4At]
    simp [writeControl, Controls.writeCr4, Controls.Cr4Ok, Controls.longMode, supports.cr4]
  apply Arrives.movzxFlags loaded (by simp)
  apply Arrives.test (fetches _ _) (!args.nx)
  · rw [Function.update_self]
    exact test_nx ..
  apply Arrives.jz (fetches _ _)
  cases enabled : args.nx with
  | false => exact .here ⟨⟨rfl, rfl, rfl, rfl, rfl⟩, by simp, by simp; rfl⟩
  | true =>
      apply Arrives.orEfer (fetches _ _) ⟨cr0At cd nw true false, cr3, cr4At true false,
        eferAt true false false⟩
      · rw [show (0 : Word) = eferAt false false false from rfl, or_nx]
        exact supports.writeEfer fun _ => enabled
      · intro changed zf rbx
        exact .here ⟨⟨rfl, rfl, rfl, rfl, rfl⟩, by simp, rbx.trans (by simp; rfl)⟩

/-- `.not_nx`. -/
theorem arrives_jmpTo64 {efer : Word} (long : efer.getLsbD longModeActive = false)
    (stage : Flat ⟨cr0At cd nw true false, cr3, cr4At true false, efer⟩ .notNx 0 cpu) :
    Arrives env good
      (Flat ⟨cr0At cd nw true false, cr3, cr4At true args.la57, efer⟩ .jmpTo64
        (if args.la57 then 1 else 0)) 7 cpu := by
  obtain ⟨stage, data, rbx⟩ := stage
  rw [stage.eq]
  have fetches : ∀ cr4, Fetches good ⟨cr0At cd nw true false, cr3, cr4, efer⟩ :=
    fun _ => fetches_unpaged
  apply Arrives.movzxFlags loaded data
  apply Arrives.test (fetches _) (!args.la57)
  · rw [Function.update_self]
    exact test_la57 ..
  apply Arrives.jz (fetches _)
  cases five : args.la57 with
  | false => exact .here ⟨⟨rfl, rfl, rfl, rfl, rfl⟩, data, by simpa using rbx⟩
  | true =>
      apply Arrives.movFromControl (fetches _)
      apply Arrives.alu (fetches _) (cr4At true true)
      · rw [Function.update_self]
        exact or_la57 true
      apply Arrives.movToControl (fetches _) ⟨cr0At cd nw true false, cr3, cr4At true true, efer⟩
      · rw [Function.update_self, low_merge, low_cr4At]
        simp [writeControl, Controls.writeCr4, Controls.Cr4Ok, long, Controls.longMode,
          supports.cr4 fun _ => five]
      apply Arrives.mov (fetches _)
      exact .here ⟨⟨rfl, rfl, rfl, rfl, rfl⟩, data, by simp [operand, merge, low]⟩

omit loaded

/-- `.jmp_to_64` and `p4`. -/
theorem arrives_ed {cr4 efer : Word}
    (stage : Flat ⟨cr0At cd nw true false, cr3, cr4, efer⟩ .jmpTo64
      (if args.la57 then 1 else 0) cpu) :
    Arrives env good
      (fun after => Stage .bits32 ⟨cr0At cd nw true false, BitVec.ofNat 64 (tmpTop args.la57), cr4,
        efer⟩ .ed after ∧ after.segments .ds = flat) 5 cpu := by
  obtain ⟨stage, data, rbx⟩ := stage
  rw [stage.eq]
  have fetches : ∀ cr3, Fetches good ⟨cr0At cd nw true false, cr3, cr4, efer⟩ :=
    fun _ => fetches_unpaged
  have written : ∀ old, writeControl env ⟨cr0At cd nw true false, cr3, cr4, efer⟩ .bits32
      (low .w32 (merge .w32 old (BitVec.ofNat 64 (tmpTop args.la57)))) .cr3 =
      some ⟨cr0At cd nw true false, BitVec.ofNat 64 (tmpTop args.la57), cr4, efer⟩ := by
    intro old
    have small : (low .w32 (BitVec.ofNat 64 (tmpTop args.la57))) =
        BitVec.ofNat 64 (tmpTop args.la57) ∧
        (BitVec.ofNat 64 (tmpTop args.la57)).toNat < 2 ^ 16 := by
      cases args.la57 <;> decide
    rw [low_merge, small.1]
    exact Controls.writeCr3_eq
      (small.2.trans_le (Nat.pow_le_pow_right (by decide) supports.physical.1))
      (supports.physical.2.trans (by decide))
  apply Arrives.test (fetches _) (!args.la57)
  · simp only [operand, rbx]
    cases args.la57 <;> rfl
  apply Arrives.jz (fetches _)
  cases five : args.la57 with
  | false =>
      rw [five] at written
      apply Arrives.mov (fetches _)
      apply Arrives.movToControl (fetches _) _ (by rw [Function.update_self]; exact written _)
      exact .here ⟨⟨rfl, rfl, rfl, rfl, rfl⟩, data⟩
  | true =>
      rw [five] at written
      apply Arrives.mov (fetches _)
      apply Arrives.movToControl (fetches _) _ (by rw [Function.update_self]; exact written _)
      apply Arrives.jmp (fetches _)
      exact .here ⟨⟨rfl, rfl, rfl, rfl, rfl⟩, data⟩

include loaded

/-- `ed`. -/
theorem arrives_trampoline64 {table : Word} (caches : (cd || !nw) = true)
    (pointer : table = BitVec.ofNat 64 (tmpTop args.la57))
    (stage : Stage .bits32 ⟨cr0At cd nw true false, table, cr4At true args.la57,
      eferAt args.nx false false⟩ .ed cpu) (data : cpu.segments .ds = flat) :
    Arrives env good (Stage .bits64 (temporary cd nw args.nx args.la57 (cr4At true args.la57))
      .trampoline64) 9 cpu := by
  subst pointer
  rw [stage.eq]
  have fetches : Fetches good (temporary cd nw args.nx args.la57 (cr4At true args.la57)) :=
    fun memory holds => (loaded memory holds).translate (by decide) (by simp) _
  apply Arrives.orEfer fetches_unpaged ⟨cr0At cd nw true false,
    BitVec.ofNat 64 (tmpTop args.la57), cr4At true args.la57, eferAt args.nx true false⟩
  · rw [or_lme]
    exact supports.writeEfer id
  intro changed zf _
  apply Arrives.movFromControl fetches_unpaged
  apply Arrives.alu fetches_unpaged (cr0At cd nw true true)
  · rw [Function.update_self]
    exact or_pg cd nw true
  apply Arrives.movToControl fetches_unpaged
    (temporary cd nw args.nx args.la57 (cr4At true args.la57))
  · rw [Function.update_self, low_merge, low_cr0At]
    simp [writeControl, Controls.writeCr0, Controls.Cr0Ok, Controls.paging, caches, temporary,
      or_lma]
  apply Arrives.lgdt fetches
  · rw [data]
    decide
  apply Arrives.jmpFar fetches .bits64
  · simp only [farCode, temporary, cr0At_pe, Controls.longMode, eferAt_lma, if_true]
    decide
  exact .here ⟨rfl, rfl, rfl, rfl, rfl⟩

variable (switches : Switches env.support args) (injective : Function.Injective env.address)
  (fetchesKernel : Fetches good (kernel cd nw args))

include switches injective fetchesKernel

/-- `trampoline_64`. -/
theorem arrives_flushed
    (stage : Stage .bits64 (temporary cd nw args.nx args.la57 (cr4At true args.la57))
      .trampoline64 cpu) :
    Arrives env good (Stage .bits64 (kernel cd nw args) .flushed) 12 cpu := by
  rw [stage.eq]
  have fetches : ∀ cr4, cr4.getLsbD fiveLevels = args.la57 →
      Fetches good (temporary cd nw args.nx args.la57 cr4) :=
    fun cr4 levels memory holds => (loaded memory holds).translate (by decide) levels _
  have first := fetches _ (cr4At_la57 true args.la57)
  have second := fetches _ switches.levels
  have null : ∀ (old : Word) (target : SegmentRegister) (before : Segment),
      segment (temporary cd nw args.nx args.la57 (cr4At true args.la57)) .bits64 gdt target before
        (low .w16 (merge .w16 old 0)).toNat = some ⟨0, 0, false⟩ := by
    intro old target before
    rw [low_merge]
    simp only [segment, temporary, cr0At_pe, if_true]
    cases target <;> decide
  apply Arrives.alu first 0 BitVec.xor_self
  apply Arrives.movSegment first _ (by rw [Function.update_self]; exact null ..)
  apply Arrives.movSegment first _ (by rw [Function.update_self]; exact null ..)
  apply Arrives.movSegment first _ (by rw [Function.update_self]; exact null ..)
  apply Arrives.movSegment first _ (by rw [Function.update_self]; exact null ..)
  apply Arrives.movSegment first _ (by rw [Function.update_self]; exact null ..)
  apply Arrives.loadAbsolute first args.cr4
  · intro memory holds
    refine ⟨_, (loaded memory holds).cr4, ?_⟩
    simp only [quadword, linear, if_true, Option.bind_some,
      (loaded memory holds).translate (show argsCr4 < 2 ^ 21 by decide) (cr4At_la57 true args.la57)]
    rfl
  apply Arrives.movToControl first (temporary cd nw args.nx args.la57 args.cr4)
  · rw [Function.update_self]
    have aligned : BitVec.ofNat 64 (tmpTop args.la57) &&& 0xFFF#64 = 0 := by
      cases args.la57 <;> decide
    simp [writeControl, Controls.writeCr4, Controls.Cr4Ok, temporary, Controls.longMode, low,
      switches.supported, switches.extension, switches.levels, switches.enforcement, aligned]
  apply Arrives.loadAbsolute second args.pmlAddr
  · intro memory holds
    refine ⟨_, (loaded memory holds).pmlAddr, ?_⟩
    simp only [quadword, linear, if_true, Option.bind_some,
      (loaded memory holds).translate (show argsPmlAddr < 2 ^ 21 by decide) switches.levels]
    rfl
  apply Arrives.movToControl second (kernel cd nw args)
  · rw [Function.update_self]
    exact Controls.writeCr3_eq switches.table (supports.physical.2.trans (by decide))
  apply Arrives.lea fetchesKernel
  apply Arrives.jmpRegister fetchesKernel injective (Function.update_self ..)
  exact .here ⟨rfl, rfl, rfl, rfl, rfl⟩

omit injective switches supports in
/-- `.flushed`. -/
theorem arrives_findIter
    (reads : ∀ memory, good memory →
      translate (kernel cd nw args) memory .read argsStack = some argsStack)
    (stage : Stage .bits64 (kernel cd nw args) .flushed cpu) :
    Arrives env good (fun after => Stage .bits64 (kernel cd nw args) .findIter after ∧
      after.register .rbx = args.stack - 8 ∧ after.register .rdx = 0) 4 cpu := by
  rw [stage.eq]
  apply Arrives.loadAbsolute fetchesKernel args.stack
  · intro memory holds
    refine ⟨_, (loaded memory holds).stack, ?_⟩
    simp only [quadword, linear, if_true, Option.bind_some, reads memory holds]
    rfl
  apply Arrives.alu fetchesKernel (args.stack - 8)
  · rw [Function.update_self]
    rfl
  apply Arrives.alu fetchesKernel 0 BitVec.xor_self
  apply Arrives.jmp fetchesKernel
  exact .here ⟨⟨rfl, rfl, rfl, rfl, rfl⟩, by simp [merge], by simp [merge]⟩

/-- A started processor gets to the search for a stack in long mode on the tables of the kernel. -/
theorem Started.arrives {table : Word} (started : Started cd nw table cpu)
    (reads : ∀ memory, good memory →
      translate (kernel cd nw args) memory .read argsStack = some argsStack) :
    Arrives env good (fun after => Stage .bits64 (kernel cd nw args) .findIter after ∧
      after.register .rbx = args.stack - 8 ∧ after.register .rdx = 0) 64 cpu := by
  refine (arrives_trampoline32 started).trans fun cpu first => ?_
  refine (arrives_notNx supports loaded first).trans fun cpu second => ?_
  refine (arrives_jmpTo64 supports loaded (by simp) second).trans fun cpu third => ?_
  refine (arrives_ed supports third).trans ?_
  rintro cpu ⟨fourth, data⟩
  refine (arrives_trampoline64 supports loaded started.caches rfl fourth data).trans
    fun cpu fifth => ?_
  exact (arrives_flushed supports loaded switches injective fetchesKernel fifth).trans
    fun cpu sixth => arrives_findIter loaded fetchesKernel reads sixth

end Blocks

end Ap

end Okots.Trampoline
