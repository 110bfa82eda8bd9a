import ArmSimulator.Exception
import ArmSimulator.DataProcessing
import ArmSimulator.LoadStore
import ArmSimulator.BranchOther

/-!
# `arm_instruction.c`: decoding and stepping
-/

namespace ArmSimulator

/-- The `switch` of `instruction_cond` over the condition `code`, on the status register. -/
def conditionHolds (code status : Word) : Bool :=
  let n := getBit status Flag.N
  let z := getBit status Flag.Z
  let c := getBit status Flag.C
  let v := getBit status Flag.V
  match code with
  | Cond.EQ => z
  | Cond.NE => !z
  | Cond.HS => c
  | Cond.LO => !c
  | Cond.MI => n
  | Cond.PL => !n
  | Cond.VS => v
  | Cond.VC => !v
  | Cond.HI => c && !z
  | Cond.LS => !c || z
  | Cond.GE => n == v
  | Cond.LT => n != v
  | Cond.GT => !z && n == v
  | Cond.LE => z || n != v
  | Cond.AL => true
  | _ => false

/-- `instruction_cond`. -/
def instructionCond (inst : Word) : ArmM Bool := do
  let status ← armReadCpsr
  return conditionHolds (inst >>> 28) status

/-- A single load or store, of a word, a byte or a half. -/
def SingleTransfer (ins : Word) : Prop :=
  (getBits ins 27 25 = 0b000 ∧ getBit ins 4 = true ∧ getBit ins 7 = true) ∨
    getBits ins 27 25 = 0b010 ∨ (getBits ins 27 25 = 0b011 ∧ getBit ins 4 = false)

/-- A multiple load or store. -/
abbrev MultipleTransfer (ins : Word) : Prop := getBits ins 27 25 = 0b100

/-- The numbers of the registers of an instruction. -/
abbrev rnField (ins : Word) : Byte := (getBits ins 19 16).setWidth 8
abbrev rdField (ins : Word) : Byte := (getBits ins 15 12).setWidth 8
abbrev rsField (ins : Word) : Byte := (getBits ins 11 8).setWidth 8
abbrev rmField (ins : Word) : Byte := (getBits ins 3 0).setWidth 8

/-- The opcode of an instruction. -/
abbrev opcodeField (ins : Word) : Byte := (getBits ins 24 21).setWidth 8

/-- The register list of a multiple transfer. -/
abbrev listField (ins : Word) : Half := (getBits ins 15 0).setWidth 16

section
variable (endianess : Byte) (loc : Locals)

/-- The `switch` of `arm_execute_instruction` over the bits 27:25 of the instruction. -/
def armDecode (instruction : Word) : ArmM Byte :=
  if getBits instruction 27 25 = 0b000 then
    if getBit instruction 4 = true ∧ getBit instruction 7 = true then
      armLoadStore endianess loc instruction
    else if getBits instruction 24 23 = 2 ∧ getBit instruction 20 = false then
      if getBit instruction 4 = false ∨ (getBit instruction 4 = true ∧ getBit instruction 7 = false)
      then armMiscellaneous instruction
      else return undefinedInstruction
    else
      armDataProcessingShift instruction
  else if getBits instruction 27 25 = 0b001 then
    armDataProcessingImmediateMsr instruction
  else if getBits instruction 27 25 = 0b010 then
    armLoadStore endianess loc instruction
  else if getBits instruction 27 25 = 0b011 then
    if getBit instruction 4 = false then armLoadStore endianess loc instruction
    else return undefinedInstruction
  else if getBits instruction 27 25 = 0b100 then
    armLoadStoreMultiple endianess loc instruction
  else if getBits instruction 27 25 = 0b101 then
    armBranch instruction
  else if getBits instruction 27 25 = 0b110 then
    armCoprocessorLoadStore instruction
  else
    armCoprocessorOthersSwi instruction

/-- The transfers are decoded to their two handlers. -/
theorem armDecode_singleTransfer {ins : Word} (h : SingleTransfer ins) :
    armDecode endianess loc ins = armLoadStore endianess loc ins := by
  rcases h with ⟨h0, hls⟩ | h2 | ⟨h3, h4⟩
  · rw [armDecode, if_pos h0, if_pos hls]
  · rw [armDecode, if_neg (ne_of_eq_of_ne h2 (by decide)), if_neg (ne_of_eq_of_ne h2 (by decide)),
      if_pos h2]
  · rw [armDecode, if_neg (ne_of_eq_of_ne h3 (by decide)), if_neg (ne_of_eq_of_ne h3 (by decide)),
      if_neg (ne_of_eq_of_ne h3 (by decide)), if_pos h3, if_pos h4]

/-- A block transfer is decoded as one. -/
theorem armDecode_multipleTransfer {ins : Word} (h : MultipleTransfer ins) :
    armDecode endianess loc ins = armLoadStoreMultiple endianess loc ins := by
  rw [armDecode, if_neg (ne_of_eq_of_ne h (by decide)), if_neg (ne_of_eq_of_ne h (by decide)),
    if_neg (ne_of_eq_of_ne h (by decide)), if_neg (ne_of_eq_of_ne h (by decide)), if_pos h]

/-- `arm_execute_instruction`. -/
def armExecuteInstruction : ArmM Byte := do
  let r ← armFetch endianess loc.instruction
  let instruction := r.2
  let holds ← instructionCond instruction
  if holds = false then return 0
  else armDecode endianess loc instruction

/-- `arm_step`. -/
def armStep : ArmM Byte := do
  let result ← armExecuteInstruction endianess loc
  if result ≠ 0 then armException endianess loc result
  else return result

/-- The word that the fetch of an instruction yields: one of the memory, or any word where the
fetch fails. -/
def ArmCore.fetchedWord (p : ArmCore) : Word :=
  (memoryReadWord p.mem (registersRead p.reg 15 p.mode) loc.instruction endianess).2

/-- The fetch keeps CPSR. -/
@[simp] theorem ArmCore.fetched_cpsr (p : ArmCore) : p.fetched.reg.cpsr = p.reg.cpsr := by
  simp [ArmCore.fetched]

/-- The fetch keeps the mode. -/
@[simp] theorem ArmCore.fetched_mode (p : ArmCore) : p.fetched.mode = p.mode :=
  registersGetMode_registersWrite _ _ _ _

/-- The fetch keeps the saved status registers. -/
@[simp] theorem ArmCore.fetched_rstat (p : ArmCore) : p.fetched.reg.rstat = p.reg.rstat :=
  registersWrite_rstat _ _ _ _

/-- The fetch changes the PC and no other register. -/
theorem ArmCore.fetched_genreg (p : ArmCore) {j : Fin gregTable} (hj : j ≠ 15) :
    p.fetched.reg.genreg j = p.reg.genreg j := by
  rw [ArmCore.fetched, registersWrite_genreg, if_neg]
  intro h
  rw [slot_pc] at h
  exact hj (Option.some.inj h).symm

/-- An instruction is decoded in the state after the fetch, if its condition holds. -/
theorem run_armExecuteInstruction (p : ArmCore) :
    (armExecuteInstruction endianess loc).run p =
      if conditionHolds (p.fetchedWord endianess loc >>> 28) p.reg.cpsr then
        (armDecode endianess loc (p.fetchedWord endianess loc)).run p.fetched
      else some (0, p.fetched) := by
  have hcond : (instructionCond (p.fetchedWord endianess loc)).run p.fetched =
      some (conditionHolds (p.fetchedWord endianess loc >>> 28) p.reg.cpsr, p.fetched) := by
    rw [← ArmCore.fetched_cpsr]
    rfl
  unfold armExecuteInstruction
  rw [Prog.run_bind_of (run_armFetch p endianess loc.instruction)]
  refine (Prog.run_bind_of hcond).trans ?_
  cases hc : conditionHolds (p.fetchedWord endianess loc >>> 28) p.reg.cpsr with
  | false => rfl
  | true => rfl

/-- `arm_step` raises the exception that the instruction returns. -/
theorem run_armStep {p p₁ : ArmCore} {c : Byte}
    (h : (armExecuteInstruction endianess loc).run p = some (c, p₁)) :
    (armStep endianess loc).run p =
      if c ≠ 0 then (armException endianess loc c).run p₁ else some (c, p₁) := by
  unfold armStep
  rw [Prog.run_bind_of h]
  by_cases hc : c ≠ 0
  · rw [if_pos hc, if_pos hc]
  · rw [if_neg hc, if_neg hc]
    rfl

end

end ArmSimulator
