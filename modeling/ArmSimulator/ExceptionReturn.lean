import ArmSimulator.Shifter
import ArmSimulator.BlockWords

/-!
# The return from an exception

Data processing with `S = 1` into r15, and `LDM` with `S = 1` and r15 in its list, restore CPSR from
the SPSR. Both ask first whether the mode has one, and the query saves CPSR into it. So the PC is
what it should be, but CPSR stays: the return is right only where the SPSR holds CPSR already
(`exceptionReturn_iff`).
-/

namespace ArmSimulator

open Prog

/-! ## The instructions -/

/-- A data processing instruction with `S = 1` that writes its result to r15. -/
structure DataReturn (ins : Word) : Prop where
  form : (getBits ins 27 25 = 0b000 ∧ ¬ (getBit ins 4 = true ∧ getBit ins 7 = true)) ∨
    getBits ins 27 25 = 0b001
  s : getBit ins sIndex = true
  rd : rdField ins = 15
  opcode : opcodeField ins ∉ comparisons

/-- A load with `S = 1` and r15 in its list. -/
structure LoadReturn (ins : Word) : Prop where
  form : MultipleTransfer ins
  s : getBit ins 22 = true
  load : getBit ins 20 = true
  pc : (listField ins).getLsbD 15 = true

/-- The shifter operand of data processing; `none` where the instruction is refused. -/
def dataOperand (ins : Word) (p : ArmCore) : Option (Word × Bool) :=
  if getBits ins 27 25 = 0b001 then some (immediateOperand ins p) else shiftedOperand ins p

/-- The result that data processing computes. -/
def dataResult (ins : Word) (operand : Word × Bool) (p : ArmCore) : Word :=
  (opcodeResult (opcodeField ins) (p.read (rnField ins)) operand.1 operand.2
    (getBit p.reg.cpsr Flag.C) (getBit p.reg.cpsr Flag.V)).result

/-- The word that a load finds for r15, after those of the other registers of its list. -/
def returnWord (endianess : Byte) (loc : Locals) (ins : Word) (p : ArmCore) : Word :=
  (memoryReadWord p.mem (blockBase ins p + BitVec.ofNat 32 (4 * listed (listField ins) 15))
    (loc.value 15) endianess).2

/-- The processor has returned to `value`, with the status `x`. -/
structure Returned (x value : Word) (p' : ArmCore) : Prop where
  cpsr : p'.reg.cpsr = x
  pc : p'.pc = value

/-- The query for an SPSR leaves CPSR. -/
theorem ArmCore.queried_cpsr (p : ArmCore) : p.queried.reg.cpsr = p.reg.cpsr :=
  registersCurrentModeHasSpsr_cpsr p.reg

section
variable (endianess : Byte) (loc : Locals) {ins : Word} {p : ArmCore}

/-! ## Data processing -/

/-- With `S = 1` the word is none of the miscellaneous space and none of `MSR`. -/
theorem armDecode_data (h : DataReturn ins) :
    armDecode endianess loc ins =
      if getBits ins 27 25 = 0b001 then armDataProcessingImmediate ins
      else armDataProcessingShift ins := by
  have hs : ¬ getBit ins 20 = false := fun h20 => Bool.false_ne_true (h20.symm.trans h.s)
  rcases h.form with ⟨h0, hls⟩ | h1
  · rw [if_neg (ne_of_eq_of_ne h0 (by decide)), armDecode, if_pos h0, if_neg hls,
      if_neg fun hm => hs hm.2]
  · have hmsr : ¬ getBits ins 21 20 = 0b10 := by
      rw [getBits_pair, if_pos h.s]
      split_ifs
      · decide
      · decide
    rw [if_pos h1, armDecode, if_neg (ne_of_eq_of_ne h1 (by decide)), if_pos h1,
      armDataProcessingImmediateMsr, if_neg fun hm => hmsr hm.2]

/-- With the operand of the instruction, `data_processing` runs. -/
theorem run_armDecode_dataReturn (h : DataReturn ins) :
    (armDecode endianess loc ins).run p =
      (dataOperand ins p).elim (some (undefinedInstruction, p)) fun operand =>
        (dataProcessing true (opcodeField ins) 15 (p.read (rnField ins)) operand.1 operand.2).run
          p := by
  rw [armDecode_data endianess loc h]
  unfold dataOperand
  split_ifs
  · unfold armDataProcessingImmediate
    rw [Prog.run_bind_of (run_armReadCpsr p), Prog.run_bind_of (run_armReadRegister p _)]
    simp only [h.s, h.rd]
    rfl
  · rw [armDataProcessingShift_run, h.s, h.rd]

/-- Data processing leaves its result in the PC, and CPSR as it was. -/
theorem armDecode_dataReturn (h : DataReturn ins) {p' : ArmCore}
    (hrun : (armDecode endianess loc ins).run p = some (successfullyDecoded, p')) :
    ∃ operand, dataOperand ins p = some operand ∧
      Returned p.reg.cpsr (dataResult ins operand p) p' := by
  rw [run_armDecode_dataReturn endianess loc h] at hrun
  cases hoperand : dataOperand ins p with
  | none =>
    rw [hoperand] at hrun
    cases hrun
  | some operand =>
    refine ⟨operand, rfl, ?_⟩
    rw [hoperand, Option.elim_some, run_dataProcessing_pc,
      ArmCore.writeIf_of ((opcodeResult_changeRd _ _ _ _ _ _).2 h.opcode)] at hrun
    obtain ⟨-, rfl⟩ := Prod.mk.inj (Option.some.inj hrun)
    constructor
    · rw [ArmCore.queried_cpsr]
      exact registersWrite_cpsr _ _ _ _
    · exact (ArmCore.query_pc _).trans ((ArmCore.write_pc _ _ _).trans (if_pos rfl))

/-! ## Loads -/

/-- The load leaves its word in the PC, and CPSR as it was; then comes the write-back. -/
theorem armLoadStoreMultiple_return (hm : p.mode ∈ exceptionModes) (h : LoadReturn ins) :
    ∃ s : ArmCore, (armLoadStoreMultiple endianess loc ins).run p = some (0,
        s.writeIf (getBit ins 21) (rnField ins) (blockEnd ins (p.read (rnField ins)))) ∧
      Returned p.reg.cpsr (returnWord endianess loc ins p) s := by
  have h0 : listField ins ≠ 0 := by
    intro h0
    have hpc := h.pc
    rw [h0] at hpc
    exact absurd hpc (by decide)
  have hpc : getBit (listField ins) 15 = true := (getBit_eq_getLsbD _ _).trans h.pc
  have hnot := not_blockRefused h0 fun _ : getBit ins 22 = true => hm
  obtain ⟨c, p', hrun, hblock⟩ := run_armLoadStoreMultiple endianess loc ins p
  cases hblock with
  | refused hrefused => exact absurd hrefused hnot
  | stored _ hL => exact absurd (hL.symm.trans h.load) Bool.false_ne_true
  | loaded _ _ hS => exact absurd hpc (hS h.s)
  | @returned a s _ _ _ _ hs hmem ha =>
    have hword : (memoryReadWord s.mem a (loc.value 15) endianess).2 =
        returnWord endianess loc ins p := by
      rw [hmem, ha]
      rfl
    refine ⟨returnedPc endianess loc s a, hrun, ?_, ?_⟩
    · exact (registersWrite_cpsr _ _ _ _).trans (s.queried_cpsr.trans hs.cpsr)
    · exact (ArmCore.write_pc _ _ _).trans ((if_pos rfl).trans hword)
  | noSpsr _ _ hspsr =>
    obtain ⟨i, hi, -⟩ := rstatInd_exceptionModes hm
    exact absurd (Option.isSome_iff_exists.2 ⟨i, hi⟩) hspsr

/-- Where the base is not the PC, or is not written, the word stays there. -/
theorem returned_writeIf_iff {cpsr x word value : Word} {b : Bool} {reg : Byte} {s : ArmCore}
    (h : Returned cpsr word s) :
    Returned x word (s.writeIf b reg value) ↔
      x = cpsr ∧ (b = true → reg = 15 → word = value) := by
  have hpc : (s.writeIf b reg value).pc = if b = true ∧ reg = 15 then value else word := by
    cases b with
    | false => exact h.pc.trans (if_neg fun hb => Bool.false_ne_true hb.1).symm
    | true =>
      refine (ArmCore.write_pc _ _ _).trans ?_
      simp only [true_and, h.pc]
  constructor
  · rintro ⟨hcpsr, hword⟩
    rw [ArmCore.writeIf_cpsr, h.cpsr] at hcpsr
    refine ⟨hcpsr.symm, fun hb hr => ?_⟩
    rw [hpc, if_pos ⟨hb, hr⟩] at hword
    exact hword.symm
  · rintro ⟨rfl, hword⟩
    refine ⟨(ArmCore.writeIf_cpsr _ _ _ _).trans h.cpsr, ?_⟩
    rw [hpc]
    split_ifs with hb
    · exact (hword hb.1 hb.2).symm
    · rfl

/-! ## The return -/

/-- **The return from an exception.** It is made if and only if the SPSR holds CPSR already, and for
a load the base written back is not in the place of the word loaded into r15. -/
theorem exceptionReturn_iff (hm : p.mode ∈ exceptionModes)
    (hins : p.fetchedWord endianess loc = ins)
    (hcond : conditionHolds (ins >>> 28) p.reg.cpsr = true) {x : Word}
    (hx : registersReadSpsr p.reg p.mode = x) :
    (DataReturn ins → ∀ p',
      (armExecuteInstruction endianess loc).run p = some (successfullyDecoded, p') →
        ∃ operand, dataOperand ins p.fetched = some operand ∧
          (Returned x (dataResult ins operand p.fetched) p' ↔ x = p.reg.cpsr)) ∧
    (LoadReturn ins → ∃ p', (armExecuteInstruction endianess loc).run p = some (0, p') ∧
      let word := returnWord endianess loc ins p.fetched
      (Returned x word p' ↔ x = p.reg.cpsr ∧ (getBit ins 21 = true → rnField ins = 15 →
        word = blockEnd ins (p.fetched.read 15)))) := by
  rw [run_armExecuteInstruction, hins, if_pos hcond]
  constructor
  · intro h p' hrun
    obtain ⟨operand, hoperand, hreturned⟩ := armDecode_dataReturn endianess loc h hrun
    rw [ArmCore.fetched_cpsr] at hreturned
    refine ⟨operand, hoperand, fun hx => hx.cpsr.symm.trans hreturned.cpsr, ?_⟩
    rintro rfl
    exact hreturned
  · intro h
    rw [armDecode_multipleTransfer endianess loc h.form]
    obtain ⟨s, hrun, hreturned⟩ := armLoadStoreMultiple_return endianess loc
      ((ArmCore.fetched_mode p).symm ▸ hm) h
    rw [ArmCore.fetched_cpsr] at hreturned
    refine ⟨_, hrun, (returned_writeIf_iff hreturned).trans ?_⟩
    refine and_congr_right fun _ => forall_congr' fun _ => forall_congr' fun hr => ?_
    rw [hr]

end

/-- A processor in supervisor mode with a program and a saved status. -/
def returningFrom (words : List Word) (spsr : Word) : ArmCore :=
  let p := ArmCore.initial 0x13 (.ofWords words)
  { p with reg := registersWriteSpsr p.reg SVC spsr }

/-- The program is `MOVS pc, lr`. -/
def returning (spsr : Word) : ArmCore := returningFrom [0xE1B0F00E] spsr

/-- The program is `LDMIB r0, {pc}^`, which loads the word behind it. -/
def restoring (spsr : Word) : ArmCore := returningFrom [0xE9D08000, 0x20] spsr

/-- `MOVS pc, r14` is an exception return by data processing. -/
theorem dataReturn_movs : DataReturn 0xE1B0F00E :=
  ⟨.inl ⟨by decide, by decide⟩, by decide, by decide, by decide⟩

/-- `LDMIB r0, {pc}^` is an exception return by a block load. -/
theorem loadReturn_ldm : LoadReturn 0xE9D08000 :=
  ⟨by decide, by decide, by decide, by decide⟩

/-- Both instructions return where the saved status is that of the mode. -/
theorem exceptionReturn_iff_sameStatus :
    (∃ p' operand, (armExecuteInstruction 1 .zero).run (returning 0x13) =
        some (successfullyDecoded, p') ∧
      dataOperand 0xE1B0F00E (returning 0x13).fetched = some operand ∧
      Returned 0x13 (dataResult 0xE1B0F00E operand (returning 0x13).fetched) p') ∧
    ∃ p', (armExecuteInstruction 1 .zero).run (restoring 0x13) = some (0, p') ∧
      Returned 0x13 0x20 p' := by
  constructor
  · have hrun : ((armExecuteInstruction 1 .zero).run (returning 0x13)).map (fun r => r.1) =
        some successfullyDecoded := by
      decide +kernel
    obtain ⟨⟨_, p'⟩, hr, rfl⟩ := Option.map_eq_some_iff.1 hrun
    obtain ⟨operand, hoperand, hiff⟩ := (exceptionReturn_iff 1 .zero (p := returning 0x13)
      (by decide) (by decide +kernel) (by decide) rfl).1 dataReturn_movs p' hr
    exact ⟨p', operand, hr, hoperand, hiff.2 (by decide)⟩
  · obtain ⟨p', hr, hiff⟩ := (exceptionReturn_iff 1 .zero (p := restoring 0x13) (by decide)
      (by decide +kernel) (by decide) rfl).2 loadReturn_ldm
    have hword : returnWord 1 .zero 0xE9D08000 (restoring 0x13).fetched = 0x20 := by
      decide +kernel
    have hbase : getBit (0xE9D08000 : Word) 21 = false := by decide
    rw [← hword]
    refine ⟨p', hr, hiff.2 ⟨by decide, fun hb => ?_⟩⟩
    rw [hbase] at hb
    cases hb

/-- `MOVS pc, lr` does not return to user mode. -/
theorem exceptionReturn_fails :
    (returning 0x10).mode ∈ exceptionModes ∧ DataReturn 0xE1B0F00E ∧
      (returning 0x10).fetchedWord 1 .zero = 0xE1B0F00E ∧
      registersReadSpsr (returning 0x10).reg (returning 0x10).mode = 0x10 ∧
      ∃ p', (armExecuteInstruction 1 .zero).run (returning 0x10) = some (successfullyDecoded, p') ∧
        p'.reg.cpsr = 0x13 ∧ ∀ value, ¬ Returned 0x10 value p' := by
  have hrun : ((armExecuteInstruction 1 .zero).run (returning 0x10)).map
      (fun r => (r.1, r.2.reg.cpsr)) = some (successfullyDecoded, 0x13) := by
    decide +kernel
  obtain ⟨⟨_, p'⟩, hr, he⟩ := Option.map_eq_some_iff.1 hrun
  obtain ⟨rfl, hcpsr⟩ := Prod.mk.inj he
  refine ⟨by decide, dataReturn_movs, by decide +kernel, by decide, p', hr, hcpsr, ?_⟩
  intro value h
  exact absurd (hcpsr.symm.trans h.cpsr) (by decide)

end ArmSimulator
