import ArmSimulator.Step

/-!
# User-mode integrity

In user mode an instruction reaches only the user bank of the registers and the flags of CPSR:
`UserFrame p p'` says so of two states, every effect from user mode keeps it
(`Effect.userFrame`), and so does every run of steps that begin in user mode. Such a run ends in a
privileged mode only by the exception UNDEFINED_INSTRUCTION.
-/

namespace ArmSimulator

/-- The bits of CPSR other than the flags. -/
abbrev controlMask : Word := 0x0FFFFFFF

/-- What user code cannot change: the SPSRs and the registers outside the user bank. -/
structure UserBankOnly (p p' : ArmCore) : Prop where
  rstat : p'.reg.rstat = p.reg.rstat
  genreg : ∀ i : Fin gregTable, 16 ≤ i.val → p'.reg.genreg i = p.reg.genreg i

/-- As `UserBankOnly`, and the bits 27:0 of CPSR. -/
structure UserFrame (p p' : ArmCore) : Prop extends UserBankOnly p p' where
  cpsr : p'.reg.cpsr &&& controlMask = p.reg.cpsr &&& controlMask

theorem UserBankOnly.refl (p : ArmCore) : UserBankOnly p p := ⟨rfl, fun _ _ => rfl⟩

/-- Two changes of the user bank make one. -/
theorem UserBankOnly.trans {p p' p'' : ArmCore} (h : UserBankOnly p p')
    (h' : UserBankOnly p' p'') : UserBankOnly p p'' :=
  ⟨h'.rstat.trans h.rstat, fun i hi => (h'.genreg i hi).trans (h.genreg i hi)⟩

theorem UserFrame.refl (p : ArmCore) : UserFrame p p := ⟨.refl p, rfl⟩

/-- Two steps that keep the frame of user mode make one. -/
theorem UserFrame.trans {p p' p'' : ArmCore} (h : UserFrame p p') (h' : UserFrame p' p'') :
    UserFrame p p'' :=
  ⟨h.toUserBankOnly.trans h'.toUserBankOnly, h'.cpsr.trans h.cpsr⟩

/-- The frame is about the registers only. -/
theorem UserFrame.of_reg {p p' : ArmCore} (h : p'.reg = p.reg) : UserFrame p p' :=
  ⟨⟨by rw [h], fun _ _ => by rw [h]⟩, by rw [h]⟩

/-- The mode is in the bits that the frame covers. -/
theorem UserFrame.mode {p p' : ArmCore} (h : UserFrame p p') : p'.mode = p.mode := by
  have hm : p'.reg.cpsr &&& 0x1F = p.reg.cpsr &&& 0x1F := Bits.agree_mono h.cpsr (by decide)
  simp only [ArmCore.mode, registersGetMode, hm]

/-- The write of a register of the user bank changes that bank only. -/
theorem UserBankOnly.registersWrite (p : ArmCore) (reg : Byte) (value : Word) :
    UserBankOnly p { p with reg := registersWrite p.reg reg USR value } := by
  refine ⟨registersWrite_rstat _ _ _ _, fun i hi => ?_⟩
  show (ArmSimulator.registersWrite p.reg reg USR value).genreg i = _
  rw [registersWrite_genreg, if_neg]
  intro hs
  have := slot_usr hs
  omega

/-- An effect from user mode keeps the frame. `MSR` cannot write the mode bits, and there is no
SPSR to write. -/
theorem Effect.userFrame {p p' : ArmCore} (h : Effect p p') (hm : p.mode = USR) :
    UserFrame p p' := by
  cases h with
  | outside hreg hsize => exact .of_reg hreg
  | write reg value =>
    refine ⟨?_, by simp [ArmCore.write]⟩
    rw [ArmCore.write, hm]
    exact .registersWrite p reg value
  | writeUsr reg value => exact ⟨.registersWrite p reg value, by simp⟩
  | flags value hv => exact ⟨⟨rfl, fun _ _ => rfl⟩, hv⟩
  | msr value hp hv =>
    have h0 : registersInAPrivilegedMode p.reg = 0 := by
      have hm' : registersGetMode p.reg = USR := hm
      simp [registersInAPrivilegedMode, hm']
    exact absurd h0 hp
  | writeSpsr value =>
    refine .of_reg ?_
    rw [hm]
    rfl

/-- A sequence of effects from user mode keeps the frame, and so stays in user mode. -/
theorem Effects.userFrame {p p' : ArmCore} (h : Effects p p') (hm : p.mode = USR) :
    UserFrame p p' := by
  induction h with
  | refl => exact .refl p
  | tail _ he ih => exact ih.trans (he.userFrame (ih.mode.trans hm))

/-- Entering an exception from user mode writes the LR of the user bank, and no SPSR. -/
theorem UserBankOnly.entered {p : ArmCore} (hm : p.mode = USR) (cpsr offset vector : Word) :
    UserBankOnly p (p.entered cpsr offset vector) := by
  constructor
  · rw [ArmCore.entered_rstat, hm]
    rfl
  · intro i hi
    have h15 : i ≠ 15 := by
      rintro rfl
      exact absurd hi (by decide)
    have h14 : slot 14 USR ≠ some i := by
      intro hs
      have := slot_usr hs
      omega
    rw [ArmCore.entered_genreg, if_neg h15, hm, if_neg h14]

/-! ## Runs -/

/-- A step of `arm_step` that begins in user mode and returns `code`. -/
def UserStep (endianess : Byte) (p : ArmCore) (code : Byte) (p' : ArmCore) : Prop :=
  p.mode = USR ∧ ∃ loc, (armStep endianess loc).run p = some (code, p')

/-- What a run of user code leaves, by the code of its last step. -/
structure UserOutcome (p : ArmCore) (codes : List Byte) (p' : ArmCore) : Prop where
  /-- No SPSR and no register outside the user bank has changed. -/
  bank : UserBankOnly p p'
  /-- After UNDEFINED_INSTRUCTION the processor is at the start of its vector, in its CPSR. -/
  undefined : codes.getLast? = some undefinedInstruction →
    p'.reg.cpsr = 0x193 ∧ registersRead p'.reg 15 p'.mode = 0x04
  /-- After every other step the bits 27:0 of CPSR are as before the run. -/
  control : codes.getLast? ≠ some undefinedInstruction →
    p'.reg.cpsr &&& controlMask = p.reg.cpsr &&& controlMask

/-- One step has the outcome of a run of one step. -/
theorem UserStep.outcome {endianess : Byte} {p p' : ArmCore} {code : Byte}
    (h : UserStep endianess p code p') : UserOutcome p [code] p' := by
  obtain ⟨hm, loc, hrun⟩ := h
  obtain ⟨p₁, he, hout⟩ := armStep_cases endianess loc hrun
  have hf : UserFrame p p₁ := he.userFrame hm
  rcases hout with ⟨rfl, rfl⟩ | ⟨hc, hreg, -⟩
  · refine ⟨hf.toUserBankOnly.trans (.entered (hf.mode.trans hm) _ _ _), fun _ => ?_, ?_⟩
    · refine ⟨ArmCore.entered_cpsr _ _ _ _, ?_⟩
      rw [registersRead, slot_pc]
      exact (ArmCore.entered_genreg _ _ _ _ _).trans (if_pos rfl)
    · intro hne
      exact absurd rfl hne
  · have hf' : UserFrame p p' := hf.trans (.of_reg hreg)
    refine ⟨hf'.toUserBankOnly, ?_, fun _ => hf'.cpsr⟩
    intro hl
    cases Option.some.inj hl
    exact absurd hc (by decide)

/-- A run of user code: a step that begins in user mode was not preceded by the exception. -/
theorem UserOutcome.of_run {endianess : Byte} {p p' : ArmCore} {codes : List Byte}
    (h : Run (UserStep endianess) p codes p') : UserOutcome p codes p' := by
  induction h with
  | nil => exact ⟨.refl p, nofun, fun _ => rfl⟩
  | @snoc p₁ p' code codes _ hstep ih =>
    have ho := UserStep.outcome hstep
    refine ⟨ih.bank.trans ho.bank, ?_, ?_⟩
    · rw [List.getLast?_concat]
      exact ho.undefined
    · rw [List.getLast?_concat]
      intro hc
      have hlast : codes.getLast? ≠ some undefinedInstruction := by
        intro hl
        have hm : p₁.mode = USR := hstep.1
        rw [ArmCore.mode, registersGetMode, (ih.undefined hl).1] at hm
        exact absurd hm (by decide)
      exact (ho.control hc).trans (ih.control hlast)

/-- **User-mode integrity.** A run of `arm_step`, of any length, whose steps begin in user mode
changes no SPSR and no register outside the user bank; where its last step returns
UNDEFINED_INSTRUCTION it ends with CPSR 0x193 and PC 4, and otherwise with bits 27:0 of CPSR as they
were. So it leaves user mode only by that exception. And the processor can always step on. -/
theorem userMode_integrity (endianess : Byte) {p p' : ArmCore} {codes : List Byte}
    (hrun : Run (UserStep endianess) p codes p') (hm : p.mode = USR) :
    UserOutcome p codes p' ∧
      (p'.mode ≠ USR → codes.getLast? = some undefinedInstruction) ∧
      ∀ loc, ∃ code p'', (armStep endianess loc).run p' = some (code, p'') := by
  have ho := UserOutcome.of_run hrun
  refine ⟨ho, ?_, fun loc => ?_⟩
  · intro hm'
    by_contra hl
    have hf : UserFrame p p' := ⟨ho.bank, ho.control hl⟩
    exact hm' (hf.mode.trans hm)
  · obtain ⟨c, p'', h, -⟩ := armStep_run endianess loc p'
    exact ⟨c, p'', h⟩

/-- A user program of one undefined instruction. -/
def undefinedProgram : ArmCore := .initial 0x10 (.ofWords [0xE6000010])

/-- The step of a program of one undefined instruction keeps what user mode cannot change, and ends
in the vector of UNDEFINED_INSTRUCTION. -/
theorem userMode_integrity_undefinedProgram :
    UserOutcome undefinedProgram [undefinedInstruction]
      (undefinedProgram.fetched.entered 0x193 0 0x04) := by
  have hstep : UserStep 1 undefinedProgram undefinedInstruction
      (undefinedProgram.fetched.entered 0x193 0 0x04) := ⟨rfl, .zero, by rfl⟩
  exact (userMode_integrity 1 (.single hstep) rfl).1

end ArmSimulator
