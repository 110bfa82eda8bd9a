import ArmSimulator.Undefined

/-!
# Conditional execution

The condition field, bits 31:28, decides whether an instruction is executed, and nothing else: every
handler takes its fields from the bits below. `withAL` replaces the condition by AL, which leaves
every field of the instruction (`getBits_withAL`), and so what it decodes to (`armDecode_withAL`).
-/

namespace ArmSimulator

/-- The instruction with the condition AL. -/
def withAL (ins : Word) : Word := (ins &&& (0x0FFFFFFF : Word)) ||| (Cond.AL <<< (28 : Nat))

/-! ## The fields -/

section
variable (ins : Word)

/-- A mask below the condition selects the same bits under `AL`. -/
theorem withAL_and {mask : Word} (hm : (Cond.AL <<< (28 : Nat)) &&& mask = 0#32)
    (hlow : (0x0FFFFFFF : Word) &&& mask = mask) : withAL ins &&& mask = ins &&& mask := by
  rw [withAL, BitVec.and_or_distrib_right, hm, BitVec.or_zero, BitVec.and_assoc, hlow]

/-- A bit below the condition is the same under `AL`. -/
theorem getLsbD_withAL {i : Nat} (hi : i < 28) : (withAL ins).getLsbD i = ins.getLsbD i := by
  have hbits : ∀ i < 28, (0x0FFFFFFF : Word).getLsbD i = true ∧
      (Cond.AL <<< 28 : Word).getLsbD i = false := by decide
  obtain ⟨hlow, hal⟩ := hbits i hi
  rw [withAL, BitVec.getLsbD_or, BitVec.getLsbD_and, hlow, hal, Bool.and_true, Bool.or_false]

/-- The bits below the condition are the same under `AL`. -/
theorem getBit_withAL {i : Nat} (hi : i < 28) : getBit (withAL ins) i = getBit ins i := by
  rw [getBit_eq_getLsbD, getBit_eq_getLsbD, getLsbD_withAL ins hi]

/-- A field below the condition is the same under `AL`. -/
theorem getBits_withAL {h l : Nat} (hl : l ≤ h) (hh : h < 28) :
    getBits (withAL ins) h l = getBits ins h l := by
  apply BitVec.eq_of_getLsbD_eq
  intro i _
  rw [getLsbD_getBits, getLsbD_getBits]
  by_cases hi : i < h - l + 1
  · rw [getLsbD_withAL ins (by omega)]
  · simp [hi]

/-- The condition is `AL`. -/
theorem withAL_cond : withAL ins >>> 28 = Cond.AL := by
  have hlow : (0x0FFFFFFF : Word) >>> 28 = 0#32 := by decide
  have hal : (Cond.AL <<< 28 : Word) >>> 28 = Cond.AL := by decide
  rw [withAL, BitVec.ushiftRight_or_distrib, BitVec.ushiftRight_and_distrib, hlow, hal,
    BitVec.and_zero, BitVec.zero_or]

/-- AL always holds. -/
theorem conditionHolds_withAL (status : Word) :
    conditionHolds (withAL ins >>> 28) status = true := by
  rw [withAL_cond]
  rfl

/-! ## The handlers -/

/-- A data processing instruction with a shifted operand does not read its condition again. -/
theorem armDataProcessingShift_withAL :
    armDataProcessingShift (withAL ins) = armDataProcessingShift ins := by
  simp (disch := decide) only [armDataProcessingShift, getBits_withAL, getBit_withAL]

/-- A data processing instruction with an immediate, or an `MSR`, does not read its condition again.
-/
theorem armDataProcessingImmediateMsr_withAL :
    armDataProcessingImmediateMsr (withAL ins) = armDataProcessingImmediateMsr ins := by
  simp (disch := decide) only [armDataProcessingImmediateMsr, armMsrImmediate,
    armDataProcessingImmediate, getBits_withAL, getBit_withAL]

/-- A branch does not read its condition again. -/
theorem armBranch_withAL : armBranch (withAL ins) = armBranch ins := by
  simp (disch := decide) only [armBranch, withAL_and, getBit_withAL]

/-- A coprocessor word or a software interrupt does not read its condition again. -/
theorem armCoprocessorOthersSwi_withAL :
    armCoprocessorOthersSwi (withAL ins) = armCoprocessorOthersSwi ins := by
  simp (disch := decide) only [armCoprocessorOthersSwi, withAL_and]

/-- `MRS`, `MSR` and the words that are taken for them do not read their condition again. -/
theorem armMiscellaneous_withAL : armMiscellaneous (withAL ins) = armMiscellaneous ins := by
  simp (disch := decide) only [armMiscellaneous, withAL_and, getBit_withAL]

section
variable (endianess : Byte) (loc : Locals)

/-- The address with a scaled register does not depend on the condition. -/
theorem scaledAddress_withAL (P W bitU : Bool) (rn rmVal : Word) (rnRegister : Byte) :
    scaledAddress loc (withAL ins) P W bitU rn rmVal rnRegister =
      scaledAddress loc ins P W bitU rn rmVal rnRegister := by
  simp -zeta (disch := decide) only [scaledAddress, getBits_withAL]

/-- The address of a halfword or of a signed value does not depend on the condition. -/
theorem miscellaneousAddress_withAL (P bitU : Bool) (rn rmVal : Word) (rnRegister : Byte) :
    miscellaneousAddress loc (withAL ins) P bitU rn rmVal rnRegister =
      miscellaneousAddress loc ins P bitU rn rmVal rnRegister := by
  simp -zeta (disch := decide) only [miscellaneousAddress, getBits_withAL]

/-- A single transfer does not read its condition again. -/
theorem armLoadStore_withAL :
    armLoadStore endianess loc (withAL ins) = armLoadStore endianess loc ins := by
  simp -zeta (disch := decide) only [armLoadStore, getBits_withAL, getBit_withAL,
    scaledAddress_withAL, miscellaneousAddress_withAL]

/-- A block transfer does not read its condition again. -/
theorem armLoadStoreMultiple_withAL :
    armLoadStoreMultiple endianess loc (withAL ins) = armLoadStoreMultiple endianess loc ins := by
  simp -zeta (disch := decide) only [armLoadStoreMultiple, getBits_withAL, getBit_withAL]

/-- **Decoding** does not look at the condition. -/
theorem armDecode_withAL : armDecode endianess loc (withAL ins) = armDecode endianess loc ins := by
  simp (disch := decide) only [armDecode, armCoprocessorLoadStore, getBits_withAL, getBit_withAL,
    armDataProcessingShift_withAL, armDataProcessingImmediateMsr_withAL, armBranch_withAL,
    armCoprocessorOthersSwi_withAL, armMiscellaneous_withAL, armLoadStore_withAL,
    armLoadStoreMultiple_withAL]

end

end

/-! ## The execution -/

section
variable (endianess : Byte) (loc : Locals)

/-- What `arm_execute_instruction` does with the word that it has fetched. -/
def armExecuteFetched (instruction : Word) : ArmM Byte := do
  let holds ← instructionCond instruction
  if holds = false then return 0
  else armDecode endianess loc instruction

/-- An instruction is fetched, and then executed. -/
theorem armExecuteInstruction_eq :
    armExecuteInstruction endianess loc =
      armFetch endianess loc.instruction >>= fun r => armExecuteFetched endianess loc r.2 := rfl

/-- The run of a fetched word goes by its condition. -/
theorem run_armExecuteFetched (ins : Word) (p : ArmCore) :
    (armExecuteFetched endianess loc ins).run p =
      if conditionHolds (ins >>> 28) p.reg.cpsr then (armDecode endianess loc ins).run p
      else some (0, p) := by
  have hcond : (instructionCond ins).run p = some (conditionHolds (ins >>> 28) p.reg.cpsr, p) := rfl
  unfold armExecuteFetched
  rw [Prog.run_bind_of hcond]
  cases conditionHolds (ins >>> 28) p.reg.cpsr with
  | false => rfl
  | true => rfl

/-- **Conditional execution.** An instruction whose condition does not hold returns 0, and only the
fetch has changed the state; one whose condition holds does what the same instruction with the
condition AL does, in the state after the fetch. -/
theorem conditional_execution (p : ArmCore) :
    (conditionHolds (p.fetchedWord endianess loc >>> 28) p.reg.cpsr = false →
      ∃ p', (armExecuteInstruction endianess loc).run p = some (0, p') ∧ OnlyFetched p p') ∧
    (conditionHolds (p.fetchedWord endianess loc >>> 28) p.reg.cpsr = true →
      (armExecuteInstruction endianess loc).run p =
        (armExecuteFetched endianess loc
          (withAL (p.fetchedWord endianess loc))).run p.fetched) := by
  constructor
  · intro hcond
    refine ⟨p.fetched, ?_, (onlyFetched_iff p p.fetched rfl rfl rfl rfl rfl).2 rfl⟩
    rw [run_armExecuteInstruction, hcond]
    rfl
  · intro hcond
    rw [← p.fetched_cpsr] at hcond
    rw [armExecuteInstruction_eq, Prog.run_bind_of (run_armFetch p endianess loc.instruction),
      run_armExecuteFetched, run_armExecuteFetched, conditionHolds_withAL, armDecode_withAL]
    exact if_pos hcond

end

/-- `MOVEQ r0, #1`, with the Z flag clear and set. -/
def moveIfEqual (cpsr : Word) : ArmCore := .initial cpsr (.ofWords [0x03A00001])

/-- `MOVEQ` is left out with the Z flag clear, and executed with the flag set. -/
theorem conditional_execution_moveIfEqual :
    (∃ p', (armExecuteInstruction 1 .zero).run (moveIfEqual 0x13) = some (0, p') ∧
      OnlyFetched (moveIfEqual 0x13) p') ∧
    (armExecuteInstruction 1 .zero).run (moveIfEqual 0x40000013) =
      (armExecuteFetched 1 .zero (withAL ((moveIfEqual 0x40000013).fetchedWord 1 .zero))).run
        (moveIfEqual 0x40000013).fetched :=
  ⟨(conditional_execution 1 .zero (moveIfEqual 0x13)).1 (by decide +kernel),
    (conditional_execution 1 .zero (moveIfEqual 0x40000013)).2 (by decide +kernel)⟩

end ArmSimulator
