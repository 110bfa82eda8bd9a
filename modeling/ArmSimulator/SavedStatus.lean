import ArmSimulator.Alignment
import ArmSimulator.ExistingMode

/-!
# Writing and reading a saved status

`MSR` with `R = 1` assigns fields of the SPSR of the mode, and `MRS` with `R = 1` loads it. Both ask
first whether the mode has an SPSR, and the query saves CPSR into it. So `MSR` assigns the fields of
CPSR, and `MRS` loads CPSR: what is written is read again only where it is CPSR anyway
(`savesStatus_iff`).
-/

namespace ArmSimulator

open Prog

/-! ## The instructions -/

/-- `MSR` of an SPSR, with an immediate operand: 00110, R = 1, 10. -/
structure MsrSpsr (ins : Word) : Prop where
  group : getBits ins 27 25 = 0b001
  code : getBits ins 24 23 = 0b10
  msr : getBits ins 21 20 = 0b10
  r : getBit ins rIndex = true

/-- `MRS` of an SPSR. -/
structure MrsSpsr (ins : Word) : Prop where
  format : MrsFormat ins
  r : getBit ins 22 = true

/-- The bits of an SPSR that `MSR` assigns. -/
def spsrMask (ins : Word) : Word :=
  byteMask (msrFieldMask ins) &&& (userMask ||| privMask ||| stateMask)

/-- The status with the fields assigned. -/
def msrStatus (ins status : Word) : Word :=
  (status &&& ~~~spsrMask ins) ||| (msrOperand ins &&& spsrMask ins)

/-- The state with the SPSR of the mode written. -/
def ArmCore.writeSpsr (p : ArmCore) (value : Word) : ArmCore :=
  { p with reg := registersWriteSpsr p.reg p.mode value }

/-- The format of `MRS` is in the space of the miscellaneous instructions. -/
theorem MrsFormat.miscellaneous {ins : Word} (h : MrsFormat ins) : Miscellaneous ins := by
  have hcode := congrArg BitVec.toNat h.code
  have hzeros := congrArg (fun x : Word => x.getLsbD 0) h.zeros
  have hlow := congrArg (fun x : Word => x.getLsbD 4) h.low
  rw [toNat_getBits] at hcode
  simp only [getLsbD_getBits] at hzeros hlow
  refine ⟨BitVec.eq_of_toNat_eq ?_, BitVec.eq_of_toNat_eq ?_, ?_, fun hls => ?_⟩
  · rw [toNat_getBits]
    simp at hcode ⊢
    omega
  · rw [toNat_getBits]
    simp at hcode ⊢
    omega
  · rw [getBit_eq_getLsbD]
    simpa using hzeros
  · have hfour : ins.getLsbD 4 = false := by simpa using hlow
    rw [getBit_eq_getLsbD, hfour] at hls
    exact Bool.false_ne_true hls.1

section
variable {p : ArmCore} {ins : Word}

/-- The write of the SPSR keeps the mode. -/
@[simp] theorem ArmCore.writeSpsr_mode (value : Word) : (p.writeSpsr value).mode = p.mode := by
  rw [ArmCore.mode, registersGetMode, ArmCore.writeSpsr, registersWriteSpsr_cpsr]
  rfl

/-- The write of the SPSR keeps CPSR. -/
@[simp] theorem ArmCore.writeSpsr_cpsr (value : Word) :
    (p.writeSpsr value).reg.cpsr = p.reg.cpsr :=
  registersWriteSpsr_cpsr _ _ _

/-- The SPSR reads as what is written to it. -/
theorem ArmCore.writeSpsr_spsr (hm : p.mode ∈ exceptionModes) (value : Word) :
    registersReadSpsr (p.writeSpsr value).reg p.mode = value :=
  (registersReadSpsr_registersWriteSpsr _ _ hm _).trans (if_pos rfl)

/-- Of two writes the second one stays. -/
theorem ArmCore.writeSpsr_writeSpsr (value value' : Word) :
    (p.writeSpsr value).writeSpsr value' = p.writeSpsr value' := by
  show { p with reg := registersWriteSpsr _ (p.writeSpsr value).mode value' } = _
  rw [ArmCore.writeSpsr_mode, ArmCore.writeSpsr, registersWriteSpsr_registersWriteSpsr]
  rfl

/-- Different values are different states. -/
theorem ArmCore.writeSpsr_inj (hm : p.mode ∈ exceptionModes) {value value' : Word} :
    p.writeSpsr value = p.writeSpsr value' ↔ value = value' := by
  constructor
  · intro h
    rw [← p.writeSpsr_spsr hm value, h, p.writeSpsr_spsr hm value']
  · rintro rfl
    rfl

/-- In an exception mode the query answers yes, and has saved CPSR. -/
theorem run_armCurrentModeHasSpsr_of (hm : p.mode ∈ exceptionModes) :
    armCurrentModeHasSpsr.run p = some (true, p.writeSpsr p.reg.cpsr) := by
  obtain ⟨i, hi, -⟩ := rstatInd_exceptionModes hm
  have hi' : rstatInd (registersGetMode p.reg) = some i := hi
  rw [run_armCurrentModeHasSpsr, registersCurrentModeHasSpsr, registersModeHasSpsr_eq, hi']
  rfl

/-! ## What they do -/

variable (endianess : Byte) (loc : Locals)

/-- `MSR` assigns the fields of CPSR, and stores that in the SPSR. -/
theorem run_armDecode_msrSpsr (hm : p.mode ∈ exceptionModes) (h : MsrSpsr ins) :
    (armDecode endianess loc ins).run p =
      if msrOperand ins &&& unallocMask ≠ 0 then some (undefinedInstruction, p)
      else some (successfullyDecoded, p.writeSpsr (msrStatus ins p.reg.cpsr)) := by
  have h0 : ¬ getBits ins 27 25 = 0b000 := ne_of_eq_of_ne h.group (by decide)
  have hr : ¬ getBit ins rIndex = false := fun hr => Bool.false_ne_true (hr.symm.trans h.r)
  have hspsr : armReadSpsr.run (p.writeSpsr p.reg.cpsr) =
      some (p.reg.cpsr, p.writeSpsr p.reg.cpsr) := by
    rw [run_armReadSpsr, ArmCore.writeSpsr_mode, ArmCore.writeSpsr_spsr hm]
  have hwrite : ∀ value, (armWriteSpsr value).run (p.writeSpsr p.reg.cpsr) =
      some ((), p.writeSpsr value) :=
    fun value => congrArg (fun s => some ((), s)) (ArmCore.writeSpsr_writeSpsr _ value)
  rw [armDecode, if_neg h0, if_pos h.group, armDataProcessingImmediateMsr, if_pos ⟨h.code, h.msr⟩]
  unfold armMsrImmediate
  by_cases hu : msrOperand ins &&& unallocMask ≠ 0
  · rw [if_pos hu]
    simp only [msrOperand] at hu
    rw [if_pos hu]
    rfl
  · rw [if_neg hu]
    simp only [msrOperand] at hu
    rw [if_neg hu, if_neg hr, run_bind_of (run_armCurrentModeHasSpsr_of hm), if_pos rfl,
      run_bind_of hspsr, run_bind_of (hwrite _)]
    rfl

/-- `MRS` loads CPSR, which is then in the SPSR as well. -/
theorem run_armDecode_mrsSpsr (hm : p.mode ∈ exceptionModes) (h : MrsSpsr ins) :
    (armDecode endianess loc ins).run p = some (successfullyDecoded,
      (p.writeSpsr p.reg.cpsr).write (mrsRegister ins) p.reg.cpsr) := by
  have hmisc := h.format.miscellaneous
  have hspsr : armReadSpsr.run (p.writeSpsr p.reg.cpsr) =
      some (p.reg.cpsr, p.writeSpsr p.reg.cpsr) := by
    rw [run_armReadSpsr, ArmCore.writeSpsr_mode, ArmCore.writeSpsr_spsr hm]
  rw [hmisc.armDecode_eq endianess loc, armMiscellaneous, if_neg (not_not.2 hmisc.codeop)]
  simp only [if_pos h.r]
  rw [run_bind_of (run_armCurrentModeHasSpsr_of hm), if_pos rfl, run_bind_of hspsr,
    run_bind_of (run_armWriteRegister _ _ _)]
  rfl

/-! ## What is written and read again -/

/-- The status is stored in the SPSR of the mode and nothing else has changed, and an `MRS` that is
executed next loads it. -/
structure SavesStatus (status : Word) (p p' : ArmCore) : Prop where
  stored : p' = p.writeSpsr status
  loaded : ∀ ins, MrsSpsr ins → mrsRegister ins ≠ 15 → ∃ p'',
    (armDecode endianess loc ins).run p'.fetched = some (successfullyDecoded, p'') ∧
      p''.read (mrsRegister ins) = status

/-- The store is right where CPSR agrees with the SPSR outside the fields. -/
theorem stored_iff (hm : p.mode ∈ exceptionModes) (status : Word) :
    p.writeSpsr (msrStatus ins p.reg.cpsr) = p.writeSpsr (msrStatus ins status) ↔
      p.reg.cpsr &&& ~~~spsrMask ins = status &&& ~~~spsrMask ins :=
  (ArmCore.writeSpsr_inj hm).trans (Bits.assign_eq_iff _)

/-- The register of `MRS` is one of r0 to r15. -/
theorem mrsRegister_le (ins : Word) : mrsRegister ins ≤ 15 := by
  show (BitVec.setWidth 8 _).toNat ≤ 15
  have hand : (ins &&& rdMask) >>> rdIndex = (ins >>> rdIndex) &&& 15 := by
    rw [BitVec.ushiftRight_and_distrib]
    congr 1
  have hle : ((ins >>> rdIndex) &&& 15).toNat ≤ 15 := Nat.and_le_right
  rw [BitVec.toNat_setWidth, hand]
  omega

/-- What `MRS` loads is CPSR. -/
theorem mrs_loads (hm : p.mode ∈ exceptionModes) {mrs : Word} (h : MrsSpsr mrs)
    (hrd : mrsRegister mrs ≠ 15) : ∃ p'',
      (armDecode endianess loc mrs).run p.fetched = some (successfullyDecoded, p'') ∧
        p''.read (mrsRegister mrs) = p.reg.cpsr := by
  have hfetched : p.fetched.mode ∈ exceptionModes := p.fetched_mode.symm ▸ hm
  refine ⟨_, run_armDecode_mrsSpsr endianess loc hfetched h, ?_⟩
  rw [ArmCore.fetched_cpsr]
  refine ArmCore.read_write_self ?_ ?_ hrd
  · rw [ArmCore.writeSpsr_mode]
    exact mem_modes hfetched
  · exact mrsRegister_le mrs

/-- **A saved status.** What `MSR` stores is right, and read again by `MRS`, exactly where CPSR is
the status to store: it agrees with the SPSR outside the fields, and with the operand in them. -/
theorem savesStatus_iff (hm : p.mode ∈ exceptionModes) (h : MsrSpsr ins) {p' : ArmCore}
    (hrun : (armDecode endianess loc ins).run p = some (successfullyDecoded, p')) :
    let status := registersReadSpsr p.reg p.mode
    SavesStatus endianess loc (msrStatus ins status) p p' ↔
      p.reg.cpsr &&& ~~~spsrMask ins = status &&& ~~~spsrMask ins ∧
        p.reg.cpsr &&& spsrMask ins = msrOperand ins &&& spsrMask ins := by
  intro status
  rw [run_armDecode_msrSpsr endianess loc hm h] at hrun
  split_ifs at hrun with hu
  · cases hrun
  obtain ⟨-, rfl⟩ := Prod.mk.inj (Option.some.inj hrun)
  have hm' : (p.writeSpsr (msrStatus ins p.reg.cpsr)).mode ∈ exceptionModes := by
    rwa [ArmCore.writeSpsr_mode]
  have hcpsr : p.reg.cpsr = msrStatus ins status ↔
      p.reg.cpsr &&& ~~~spsrMask ins = status &&& ~~~spsrMask ins ∧
        p.reg.cpsr &&& spsrMask ins = msrOperand ins &&& spsrMask ins :=
    Bits.eq_assign_iff
  rw [← hcpsr]
  constructor
  · intro hsaves
    -- `MRS r0, SPSR`
    have hmrs : MrsSpsr 0xE14F0000 := ⟨⟨by decide, by decide, by decide⟩, by decide⟩
    obtain ⟨p₁, hr₁, hread₁⟩ := hsaves.loaded _ hmrs (by decide)
    obtain ⟨p₂, hr₂, hread₂⟩ := mrs_loads endianess loc hm' hmrs (by decide)
    obtain ⟨-, rfl⟩ := Prod.mk.inj (Option.some.inj (hr₁.symm.trans hr₂))
    rw [hread₁, ArmCore.writeSpsr_cpsr] at hread₂
    exact hread₂.symm
  · intro hstatus
    refine ⟨(stored_iff hm status).2 (hcpsr.1 hstatus).1, fun mrs hmrs hrd => ?_⟩
    obtain ⟨p'', hr, hread⟩ := mrs_loads endianess loc hm' hmrs hrd
    exact ⟨p'', hr, hread.trans ((ArmCore.writeSpsr_cpsr _).trans hstatus)⟩

end

/-- A processor in supervisor mode, with a saved status. -/
def svcStatus (cpsr status : Word) : ArmCore :=
  (ArmCore.initial cpsr (.ofWords [])).writeSpsr status

/-- The word of `MSR SPSR_f, #0xF0000000` writes an SPSR. -/
theorem msrSpsr_flags : MsrSpsr 0xE368F20F := ⟨by decide, by decide, by decide, by decide⟩

/-- The status is saved where it comes out as CPSR: with the flags that are set there, and the rest
of the SPSR. -/
theorem savesStatus_iff_flags :
    ∃ p', (armDecode 1 .zero 0xE368F20F).run (svcStatus 0xF0000013 0x13) =
        some (successfullyDecoded, p') ∧
      SavesStatus 1 .zero (msrStatus 0xE368F20F 0x13) (svcStatus 0xF0000013 0x13) p' := by
  have hm : (svcStatus 0xF0000013 0x13).mode ∈ exceptionModes := by decide
  have hrun := (run_armDecode_msrSpsr 1 .zero hm msrSpsr_flags).trans (if_neg (by decide))
  exact ⟨_, hrun, (savesStatus_iff 1 .zero hm msrSpsr_flags hrun).2 ⟨by decide, by decide⟩⟩

/-- The status is not saved where it is that of user mode: the mode of CPSR is stored, and `MRS`
then loads CPSR. -/
theorem savesStatus_fails :
    (svcStatus 0x13 0x10).mode ∈ exceptionModes ∧ MsrSpsr 0xE368F20F ∧
      registersReadSpsr (svcStatus 0x13 0x10).reg SVC = 0x10 ∧
      msrStatus 0xE368F20F 0x10 = 0xF0000010 ∧
      ∃ p', (armDecode 1 .zero 0xE368F20F).run (svcStatus 0x13 0x10) =
          some (successfullyDecoded, p') ∧
        registersReadSpsr p'.reg SVC = 0xF0000013 ∧
        (∃ p'', (armDecode 1 .zero 0xE14F0000).run p'.fetched = some (successfullyDecoded, p'') ∧
          p''.read 0 = 0x13) ∧
        ¬ SavesStatus 1 .zero 0xF0000010 (svcStatus 0x13 0x10) p' := by
  have hm : (svcStatus 0x13 0x10).mode ∈ exceptionModes := by decide
  have hrun := (run_armDecode_msrSpsr 1 .zero hm msrSpsr_flags).trans (if_neg (by decide))
  have hm' : ((svcStatus 0x13 0x10).writeSpsr
      (msrStatus 0xE368F20F (svcStatus 0x13 0x10).reg.cpsr)).mode ∈ exceptionModes := by decide
  refine ⟨hm, msrSpsr_flags, by decide, by decide, _, hrun, by decide, ?_, fun hsaves => ?_⟩
  · exact mrs_loads 1 .zero hm' ⟨⟨by decide, by decide, by decide⟩, by decide⟩ (by decide)
  · have hspsr := congrArg (fun p : ArmCore => registersReadSpsr p.reg SVC) hsaves.stored
    exact absurd hspsr (by decide)

end ArmSimulator
