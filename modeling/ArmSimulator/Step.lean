import ArmSimulator.Effect
import ArmSimulator.Lib.Run
import ArmSimulator.WriteBack

/-!
# What a step can do

An instruction returns one of three codes (`returns_armExecuteInstruction`), so `arm_step` has two
outcomes: the exception UNDEFINED_INSTRUCTION is entered, or the registers and the memory are as
the effects of the instruction left them (`armStep_cases`).
-/

namespace ArmSimulator

open Prog

/-- The codes that an instruction can return. -/
def instructionCodes : List Byte := [successfullyDecoded, undefinedInstruction, softwareInterrupt]

/-- A handler returns one of the codes of an instruction. -/
abbrev ReturnsCode (m : ArmM Byte) : Prop := Returns (· ∈ instructionCodes) m

/-- A handler returns success or UNDEFINED_INSTRUCTION: all but that of `SWI` do. -/
abbrev ReturnsHandled (m : ArmM Byte) : Prop :=
  Returns (· ∈ [successfullyDecoded, undefinedInstruction]) m

/-- A handler returns success only. -/
abbrev ReturnsSuccess (m : ArmM Byte) : Prop := Returns (· = successfullyDecoded) m

/-- An instruction that is handled returns one of the three codes. -/
theorem ReturnsHandled.code {m : ArmM Byte} (h : ReturnsHandled m) : ReturnsCode m :=
  h.mono fun _ ha => List.mem_append_left [softwareInterrupt] ha

/-- An instruction that returns a success is handled. -/
theorem ReturnsSuccess.handled {m : ArmM Byte} (h : ReturnsSuccess m) : ReturnsHandled m :=
  h.mono fun _ ha => ha ▸ List.mem_cons_self

/-- An instruction that ends with a success is handled. -/
theorem returns_successfullyDecoded : ReturnsHandled (return successfullyDecoded) :=
  Returns.pure (by decide)

/-- An instruction that ends undefined is handled. -/
theorem returns_undefinedInstruction : ReturnsHandled (return undefinedInstruction) :=
  Returns.pure (by decide)

/-- The end of most branches: a statement without a result, and success. -/
theorem success_of_then {α : Type} {m : ArmM α} :
    ReturnsSuccess (m >>= fun _ => return successfullyDecoded) :=
  Returns.bind fun _ => Returns.pure rfl

/-- Whatever ends with a success is handled. -/
theorem returns_of_then {α : Type} {m : ArmM α} :
    ReturnsHandled (m >>= fun _ => return successfullyDecoded) :=
  success_of_then.handled

/-- The arithmetic of a data processing instruction ends with a success or an undefined instruction.
-/
theorem returns_dataProcessing (sBit : Bool) (opcode rd : Byte) (rnValue shifterOperand : Word)
    (shifterCarryOut : Bool) :
    ReturnsHandled (dataProcessing sBit opcode rd rnValue shifterOperand shifterCarryOut) := by
  unfold dataProcessing
  refine Returns.bind fun _ => Returns.bind fun _ => Returns.ite ?_ (Returns.ite ?_ ?_)
  · refine Returns.bind fun _ => Returns.ite ?_ returns_undefinedInstruction
    exact Returns.bind fun _ => returns_of_then
  · exact returns_of_then
  · exact returns_successfullyDecoded

/-- A data processing instruction with a shifted operand is handled. -/
theorem returns_armDataProcessingShift (ins : Word) :
    ReturnsHandled (armDataProcessingShift ins) := by
  unfold armDataProcessingShift
  refine Returns.bind fun _ => Returns.bind fun _ => Returns.bind fun _ => Returns.bind fun _ =>
    Returns.bind fun _ => ?_
  split
  · exact returns_undefinedInstruction
  · exact returns_dataProcessing _ _ _ _ _ _

/-- An `MSR` with an immediate is handled. -/
theorem returns_armMsrImmediate (ins : Word) : ReturnsHandled (armMsrImmediate ins) := by
  unfold armMsrImmediate
  refine Returns.ite returns_undefinedInstruction (Returns.ite ?_ ?_)
  · refine Returns.bind fun _ => Returns.ite ?_ ?_
    · exact Returns.ite returns_undefinedInstruction (Returns.bind fun _ => returns_of_then)
    · exact Returns.bind fun _ => returns_of_then
  · refine Returns.bind fun _ => Returns.ite ?_ returns_undefinedInstruction
    exact Returns.bind fun _ => returns_of_then

/-- A data processing instruction with an immediate, or an `MSR`, is handled. -/
theorem returns_armDataProcessingImmediateMsr (ins : Word) :
    ReturnsHandled (armDataProcessingImmediateMsr ins) := by
  refine Returns.ite (returns_armMsrImmediate ins) ?_
  exact Returns.bind fun _ => Returns.bind fun _ => returns_dataProcessing _ _ _ _ _ _

section
variable (endianess : Byte) (loc : Locals)

/-- The access of a word or a byte ends with a success. -/
theorem success_loadStore (bitL bitB : Bool) (rd : Byte) (address : Word) :
    ReturnsSuccess (loadStore endianess loc bitL bitB rd address) := by
  unfold loadStore
  refine Returns.ite (Returns.ite ?_ ?_) ?_
  · exact Returns.bind fun _ => success_of_then
  · exact Returns.bind fun _ => success_of_then
  · exact Returns.bind fun _ => Returns.ite success_of_then success_of_then

/-- The access of a word or a byte is handled. -/
theorem returns_loadStore (bitL bitB : Bool) (rd : Byte) (address : Word) :
    ReturnsHandled (loadStore endianess loc bitL bitB rd address) :=
  (success_loadStore endianess loc bitL bitB rd address).handled

/-- The address and the refusal of `process_load_store_instruction`: its code is returned only
where it is not 0, and then it is UNDEFINED_INSTRUCTION. -/
theorem returns_processLoadStoreInstruction (P W bitU : Bool) (address rn : Word)
    (rnRegister : Byte) (value : Word) :
    Returns (fun r : Byte × Word => r.1 ∈ [successfullyDecoded, undefinedInstruction])
      (processLoadStoreInstruction P W bitU address rn rnRegister value) := by
  unfold processLoadStoreInstruction
  have h0 : successfullyDecoded ∈ [successfullyDecoded, undefinedInstruction] := by decide
  have h7 : undefinedInstruction ∈ [successfullyDecoded, undefinedInstruction] := by decide
  refine Returns.ite (Returns.pure h0) (Returns.ite ?_ (Returns.ite ?_ (Returns.pure h7)))
  · exact Returns.bind fun _ => Returns.pure h0
  · exact Returns.bind fun _ => Returns.pure h0

/-- The access of a halfword or of a signed value is handled. -/
theorem returns_miscellaneousTransfer (bitL bitS bitH : Bool) (rd : Byte) (address : Word) :
    ReturnsHandled (miscellaneousTransfer endianess loc bitL bitS bitH rd address) := by
  unfold miscellaneousTransfer
  refine Returns.ite ?_ (Returns.ite ?_ returns_undefinedInstruction)
  · exact Returns.bind fun _ => returns_of_then
  · exact Returns.bind fun _ => returns_of_then

/-- A single transfer is handled. -/
theorem returns_armLoadStore (ins : Word) : ReturnsHandled (armLoadStore endianess loc ins) := by
  unfold armLoadStore
  refine Returns.bind fun _ => Returns.bind fun _ => Returns.ite ?_ (Returns.ite ?_ ?_)
  · refine Returns.bind_of (returns_processLoadStoreInstruction _ _ _ _ _ _ _) fun r hr => ?_
    exact Returns.ite (Returns.pure hr) (returns_loadStore _ _ _ _ _ _)
  · refine Returns.bind_of (returns_processLoadStoreInstruction _ _ _ _ _ _ _) fun r hr => ?_
    exact Returns.ite (Returns.pure hr) (returns_loadStore _ _ _ _ _ _)
  · refine Returns.ite ?_ (Returns.ite ?_ (returns_loadStore _ _ _ _ _ _))
    · exact Returns.bind fun _ => returns_loadStore _ _ _ _ _ _
    · exact Returns.bind fun _ => returns_miscellaneousTransfer _ _ _ _ _ _ _

/-- A block transfer is handled. -/
theorem returns_armLoadStoreMultiple (ins : Word) :
    ReturnsHandled (armLoadStoreMultiple endianess loc ins) := by
  intro p
  obtain ⟨c, p', hrun, hblock⟩ := run_armLoadStoreMultiple endianess loc ins p
  refine Ensures.of_run hrun ?_
  cases hblock <;> decide

/-- A branch is handled. -/
theorem returns_armBranch (ins : Word) : ReturnsHandled (armBranch ins) := by
  unfold armBranch
  refine Returns.ite returns_undefinedInstruction ?_
  exact Returns.bind fun _ => Returns.bind fun _ => returns_of_then

/-- `MRS`, `MSR` and the words that are taken for them are handled. -/
theorem returns_armMiscellaneous (ins : Word) : ReturnsHandled (armMiscellaneous ins) := by
  unfold armMiscellaneous
  refine Returns.ite returns_undefinedInstruction (Returns.ite ?_ ?_)
  · refine Returns.bind fun _ => Returns.ite ?_ returns_undefinedInstruction
    exact Returns.bind fun _ => returns_of_then
  · exact Returns.bind fun _ => returns_of_then

/-- A coprocessor word or a software interrupt ends with one of the three codes. -/
theorem returns_armCoprocessorOthersSwi (ins : Word) : ReturnsCode (armCoprocessorOthersSwi ins) :=
  Returns.ite returns_undefinedInstruction.code (Returns.pure (by decide))

/-- Every word ends with one of the three codes. -/
theorem returns_armDecode (ins : Word) : ReturnsCode (armDecode endianess loc ins) := by
  have hundefined := returns_undefinedInstruction.code
  have hload := (returns_armLoadStore endianess loc ins).code
  unfold armDecode
  refine Returns.ite (Returns.ite hload (Returns.ite (Returns.ite
    (returns_armMiscellaneous _).code hundefined) (returns_armDataProcessingShift _).code))
    (Returns.ite (returns_armDataProcessingImmediateMsr _).code ?_)
  refine Returns.ite hload (Returns.ite (Returns.ite hload hundefined) ?_)
  exact Returns.ite (returns_armLoadStoreMultiple _ _ _).code (Returns.ite
    (returns_armBranch _).code (Returns.ite hundefined (returns_armCoprocessorOthersSwi _)))

/-- An instruction returns success, UNDEFINED_INSTRUCTION or SOFTWARE_INTERRUPT. -/
theorem returns_armExecuteInstruction : ReturnsCode (armExecuteInstruction endianess loc) :=
  Returns.bind fun _ => Returns.bind fun _ =>
    Returns.ite returns_successfullyDecoded.code (returns_armDecode _ _ _)

/-- The run of an instruction: it returns one of the three codes, after a sequence of effects. -/
theorem armExecuteInstruction_run (p : ArmCore) :
    ∃ c p₁, (armExecuteInstruction endianess loc).run p = some (c, p₁) ∧ c ∈ instructionCodes ∧
      Effects p p₁ :=
  (effects_armExecuteInstruction endianess loc).returns
    (returns_armExecuteInstruction endianess loc) p .refl

/-- The outcome of a step, by that of the instruction it executes: the exception is entered, or the
registers and the memory are as the instruction left them. -/
def StepOutcome (c₁ : Byte) (p₁ : ArmCore) (c : Byte) (p' : ArmCore) : Prop :=
  (c₁ = undefinedInstruction ∧ c = undefinedInstruction ∧ p' = p₁.entered 0x193 0 0x04) ∨
    (c₁ ≠ undefinedInstruction ∧ c ∈ [successfullyDecoded, softwareInterrupt, endSimulation] ∧
      p'.reg = p₁.reg ∧ p'.mem = p₁.mem)

/-- A step executes an instruction and then handles its code. -/
theorem armStep_outcome {p p₁ : ArmCore} {c₁ : Byte}
    (h : (armExecuteInstruction endianess loc).run p = some (c₁, p₁)) :
    ∃ c p', (armStep endianess loc).run p = some (c, p') ∧ StepOutcome c₁ p₁ c p' := by
  have hstep := run_armStep endianess loc h
  have hc := returns_armExecuteInstruction endianess loc p c₁ p₁ h
  simp only [instructionCodes, List.mem_cons, List.not_mem_nil, or_false] at hc
  rcases hc with rfl | rfl | rfl
  · rw [if_neg (by decide)] at hstep
    exact ⟨_, p₁, hstep, .inr ⟨by decide, by decide, rfl, rfl⟩⟩
  · rw [if_pos (by decide), run_armException_undefinedInstruction] at hstep
    exact ⟨_, _, hstep, .inl ⟨rfl, rfl, rfl⟩⟩
  · obtain ⟨c', p', hx, hc', hr, hm⟩ := armException_softwareInterrupt endianess loc p₁
    rw [if_pos (by decide), hx] at hstep
    refine ⟨c', p', hstep, .inr ⟨by decide, ?_, hr, hm⟩⟩
    simp only [List.mem_cons, List.not_mem_nil, or_false] at hc' ⊢
    rcases hc' with rfl | rfl | rfl <;> simp

/-- A step executes one instruction, and its outcome is that of the code returned. -/
theorem armStep_executed {p p' : ArmCore} {c : Byte}
    (h : (armStep endianess loc).run p = some (c, p')) :
    ∃ c₁ p₁, (armExecuteInstruction endianess loc).run p = some (c₁, p₁) ∧
      StepOutcome c₁ p₁ c p' := by
  obtain ⟨c₁, p₁, hrun, -⟩ := armExecuteInstruction_run endianess loc p
  obtain ⟨c', p'', hstep, hout⟩ := armStep_outcome endianess loc hrun
  rw [h] at hstep
  cases hstep
  exact ⟨c₁, p₁, hrun, hout⟩

/-- **What a step does.** It returns; it enters the exception UNDEFINED_INSTRUCTION after the
effects of the instruction, or leaves the registers and the memory as these effects did. -/
theorem armStep_run (p : ArmCore) :
    ∃ c p', (armStep endianess loc).run p = some (c, p') ∧ ∃ p₁, Effects p p₁ ∧
      ((c = undefinedInstruction ∧ p' = p₁.entered 0x193 0 0x04) ∨
        (c ∈ [successfullyDecoded, softwareInterrupt, endSimulation] ∧ p'.reg = p₁.reg ∧
          p'.mem = p₁.mem)) := by
  obtain ⟨c₁, p₁, hrun, -, he⟩ := armExecuteInstruction_run endianess loc p
  obtain ⟨c, p', hstep, ⟨-, hc⟩ | ⟨-, hc⟩⟩ := armStep_outcome endianess loc hrun
  · exact ⟨c, p', hstep, p₁, he, .inl hc⟩
  · exact ⟨c, p', hstep, p₁, he, .inr hc⟩

/-- A step has effects, and enters UNDEFINED_INSTRUCTION if that is returned. -/
theorem armStep_cases {p p' : ArmCore} {c : Byte}
    (h : (armStep endianess loc).run p = some (c, p')) :
    ∃ p₁, Effects p p₁ ∧
      ((c = undefinedInstruction ∧ p' = p₁.entered 0x193 0 0x04) ∨
        (c ∈ [successfullyDecoded, softwareInterrupt, endSimulation] ∧ p'.reg = p₁.reg ∧
          p'.mem = p₁.mem)) := by
  obtain ⟨c', p'', h', hout⟩ := armStep_run endianess loc p
  rw [h] at h'
  cases h'
  exact hout

end

end ArmSimulator
