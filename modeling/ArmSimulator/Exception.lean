import ArmSimulator.Core

/-!
# `arm_exception.c`: entering an exception

`armException` is called by `arm_step` with the exception an instruction raises, and from outside
with the byte of an interrupt. The five exceptions that save a return address differ in the offset
they add to the PC, in the CPSR they enter with and in their vector; `enterException` is what they
share.
-/

namespace ArmSimulator

/-- `Exception_bit_9`, that is `CP15_reg1_EEbit << 9`. -/
abbrev exceptionBit9 : Word := 0#32 <<< 9

/-- The body of a case of `arm_exception` that saves a return address: LR and SPSR are written
before CPSR, in the mode that is interrupted. -/
def enterException (cpsr offset vector : Word) : ArmM Unit := do
  let pc ← armReadRegister 15
  let restorePc := pc + offset
  armWriteRegister 14 restorePc
  let current ← armReadCpsr
  armWriteSpsr current
  armWriteCpsr cpsr
  armWriteRegister 15 vector

/-- `arm_exception`. Software interrupts are handled here, by the opcode of the instruction that
is read again; an unknown exception changes nothing. -/
def armException (endianess : Byte) (loc : Locals) (exception : Byte) : ArmM Byte := do
  let cpsr : Word := 0x1d3 ||| exceptionBit9
  if exception = softwareInterrupt then
    let pc ← armReadRegister 15
    let r ← armReadWord endianess (pc - 8) loc.swi
    let instruction := r.2 &&& 0xFFFFFF
    if instruction = 0x123456 then
      return endSimulation
    else if instruction = 0x000001 then
      let value ← armReadRegister 0
      putchar value
      return 0
    else
      return exception
  else if exception = reset then
    armWriteCpsr cpsr
    armWriteRegister 15 0
    return exception
  else if exception = fastInterrupt then
    enterException cpsr 4 0x1C
    return exception
  else if exception = interrupt then
    enterException (clrBit cpsr 6) 4 0x18
    return exception
  else if exception = undefinedInstruction then
    enterException (clrBit cpsr 6) 0 0x04
    return exception
  else if exception = prefetchAbort then
    enterException (clrBit cpsr 6) 4 0x0C
    return exception
  else if exception = dataAbort then
    enterException (clrBit cpsr 6) 8 0x10
    return exception
  else
    return exception

/-- `arm_create`, on a register file and a memory: the processor is reset, and `sp` is the end of
the memory. `arm_exception(p, RESET)` reads no memory, so the build and the locals do not matter
to it. -/
def armCreate (endianess : Byte) (loc : Locals) (reg : Registers) (mem : Memory) :
    Option ArmCore := do
  let p : ArmCore := { cycleCount := 0, reg, mem, accesses := [], output := [] }
  let (_, p) ← (armException endianess loc reset).run p
  let (_, p) ← (armWriteRegister 13 ((memoryGetSize mem).setWidth 32)).run p
  return p

/-! ## The state after an exception -/

/-- The state `enterException` leaves. -/
def ArmCore.entered (p : ArmCore) (cpsr offset vector : Word) : ArmCore :=
  let linked := p.write 14 (p.read 15 + offset)
  let saved := { linked with reg := registersWriteSpsr linked.reg linked.mode linked.reg.cpsr }
  (saved.writeCpsr cpsr).write 15 vector

section
variable (p : ArmCore) (cpsr offset vector : Word)

/-- CPSR is what the entry into an exception writes to it. -/
@[simp] theorem ArmCore.entered_cpsr : (p.entered cpsr offset vector).reg.cpsr = cpsr := by
  simp [ArmCore.entered, ArmCore.write, ArmCore.writeCpsr]

/-- The SPSR written is that of the mode interrupted. -/
theorem ArmCore.entered_rstat :
    (p.entered cpsr offset vector).reg.rstat =
      (registersWriteSpsr p.reg p.mode p.reg.cpsr).rstat := by
  funext i
  simp [ArmCore.entered, ArmCore.write, ArmCore.writeCpsr, ArmCore.mode, registersWriteSpsr_rstat]

/-- The general registers written are the PC and the LR of the mode interrupted. -/
theorem ArmCore.entered_genreg (i : Fin gregTable) :
    (p.entered cpsr offset vector).reg.genreg i =
      if i = 15 then vector
      else if slot 14 p.mode = some i then p.read 15 + offset
      else p.reg.genreg i := by
  simp only [ArmCore.entered, ArmCore.write, ArmCore.writeCpsr, registersWrite_genreg, slot_pc,
    Option.some.injEq, registersWriteCpsr_genreg, registersWriteSpsr_genreg]
  by_cases h : i = 15
  · simp [h]
  · rw [if_neg h, if_neg (Ne.symm h)]

end

section
variable (endianess : Byte) (loc : Locals) (p : ArmCore)

/-- A reset writes CPSR and the PC, and saves nothing. -/
theorem run_armException_reset :
    (armException endianess loc reset).run p = some (reset, (p.writeCpsr 0x1d3).write 15 0) := rfl

/-- A fast interrupt enters through 0x1C, with F set. -/
theorem run_armException_fastInterrupt :
    (armException endianess loc fastInterrupt).run p =
      some (fastInterrupt, p.entered 0x1d3 4 0x1C) := rfl

/-- An interrupt enters through 0x18, with F clear. -/
theorem run_armException_interrupt :
    (armException endianess loc interrupt).run p = some (interrupt, p.entered 0x193 4 0x18) := rfl

/-- An undefined instruction enters through 0x04, with F clear. -/
theorem run_armException_undefinedInstruction :
    (armException endianess loc undefinedInstruction).run p =
      some (undefinedInstruction, p.entered 0x193 0 0x04) := rfl

/-- A prefetch abort enters through 0x0C, with F clear. -/
theorem run_armException_prefetchAbort :
    (armException endianess loc prefetchAbort).run p =
      some (prefetchAbort, p.entered 0x193 4 0x0C) := rfl

/-- A data abort enters through 0x10, with F clear. -/
theorem run_armException_dataAbort :
    (armException endianess loc dataAbort).run p = some (dataAbort, p.entered 0x193 8 0x10) := rfl

/-- The opcode of a software interrupt, in the word that is read again. -/
def ArmCore.swiOpcode (p : ArmCore) : Word :=
  (memoryReadWord p.mem (p.read 15 - 8) loc.swi endianess).2 &&& 0xFFFFFF

/-- The state after that read. -/
def ArmCore.swiRead (p : ArmCore) : ArmCore :=
  { p with accesses := ⟨4, p.read 15 - 8⟩ :: p.accesses }

/-- A software interrupt reads the word again. Two numbers are calls of the simulator, and any other
enters through 0x08 with F clear. -/
theorem run_armException_softwareInterrupt :
    (armException endianess loc softwareInterrupt).run p =
      if p.swiOpcode endianess loc = 0x123456 then some (endSimulation, p.swiRead)
      else if p.swiOpcode endianess loc = 1 then
        some (0, { p.swiRead with output := (p.read 0).setWidth 8 :: p.output })
      else some (softwareInterrupt, p.swiRead) := by
  simp only [armException, if_true, StateT.run_bind, run_armReadRegister, run_armReadWord,
    Option.bind_eq_bind, Option.bind_some]
  unfold ArmCore.swiOpcode
  split_ifs
  · rfl
  · rfl
  · rfl

/-- A software interrupt returns to the program or ends the simulation; it changes no register and
no byte of memory. -/
theorem armException_softwareInterrupt :
    ∃ c p', (armException endianess loc softwareInterrupt).run p = some (c, p') ∧
      c ∈ [endSimulation, 0, softwareInterrupt] ∧ p'.reg = p.reg ∧ p'.mem = p.mem := by
  rw [run_armException_softwareInterrupt]
  split_ifs
  · exact ⟨_, _, rfl, by decide, rfl, rfl⟩
  · exact ⟨_, _, rfl, by decide, rfl, rfl⟩
  · exact ⟨_, _, rfl, by decide, rfl, rfl⟩

/-- A byte that numbers no exception is ignored. -/
theorem run_armException_other {exception : Byte}
    (h : exception ∉ [reset, dataAbort, fastInterrupt, interrupt, prefetchAbort,
      undefinedInstruction, softwareInterrupt]) :
    (armException endianess loc exception).run p = some (exception, p) := by
  simp only [List.mem_cons, List.not_mem_nil, or_false, not_or] at h
  obtain ⟨h1, h2, h3, h4, h6, h7, h8⟩ := h
  unfold armException
  rw [if_neg h8, if_neg h1, if_neg h3, if_neg h4, if_neg h7, if_neg h6, if_neg h2]
  rfl

/-- The vectors at which an exception is entered. -/
def vectors : List Word := [0x04, 0x0C, 0x10, 0x18, 0x1C]

/-- What an exception leaves. -/
inductive Excepted (p : ArmCore) : ArmCore → Prop
  | reset : Excepted p ((p.writeCpsr 0x1d3).write 15 0)
  | entered {cpsr offset vector : Word} (hcpsr : cpsr = 0x1d3 ∨ cpsr = 0x193)
      (hvector : vector ∈ vectors) : Excepted p (p.entered cpsr offset vector)
  | same {p' : ArmCore} (hreg : p'.reg = p.reg) : Excepted p p'

/-- `arm_exception` returns, for any byte. -/
theorem armException_cases (exception : Byte) :
    ∃ c p', (armException endianess loc exception).run p = some (c, p') ∧ Excepted p p' := by
  by_cases h : exception ∈ [reset, dataAbort, fastInterrupt, interrupt, prefetchAbort,
      undefinedInstruction, softwareInterrupt]
  · simp only [List.mem_cons, List.not_mem_nil, or_false] at h
    rcases h with rfl | rfl | rfl | rfl | rfl | rfl | rfl
    · exact ⟨_, _, run_armException_reset endianess loc p, .reset⟩
    · exact ⟨_, _, run_armException_dataAbort endianess loc p, .entered (.inr rfl) (by decide)⟩
    · exact ⟨_, _, run_armException_fastInterrupt endianess loc p, .entered (.inl rfl) (by decide)⟩
    · exact ⟨_, _, run_armException_interrupt endianess loc p, .entered (.inr rfl) (by decide)⟩
    · exact ⟨_, _, run_armException_prefetchAbort endianess loc p,
        .entered (.inr rfl) (by decide)⟩
    · exact ⟨_, _, run_armException_undefinedInstruction endianess loc p,
        .entered (.inr rfl) (by decide)⟩
    · obtain ⟨c, p', hrun, -, hreg, -⟩ := armException_softwareInterrupt endianess loc p
      exact ⟨c, p', hrun, .same hreg⟩
  · exact ⟨_, _, run_armException_other endianess loc p h, .same rfl⟩

end

end ArmSimulator
