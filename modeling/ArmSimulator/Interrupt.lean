import ArmSimulator.Effect

/-!
# What an exception saves

The architecture enters an exception in the mode of the exception, and saves the return address and
CPSR in the LR and the SPSR of that mode, so that the interrupted program can be resumed.
`arm_exception` enters every exception in supervisor mode, and writes LR and SPSR before it changes
the mode. So no exception banks its context (`armException_not_banksContext`), and no interrupt is
transparent (`interrupt_not_transparent`).
-/

namespace ArmSimulator

/-! ## Entry -/

/-- The exceptions that save a return address. -/
def savingExceptions : List Byte :=
  [fastInterrupt, interrupt, undefinedInstruction, prefetchAbort, dataAbort]

/-- The mode of an exception, in the architecture. -/
def exceptionMode (exception : Byte) : Byte :=
  if exception = fastInterrupt then FIQ
  else if exception = interrupt then IRQ
  else if exception = undefinedInstruction then UND
  else ABT

/-- What `arm_exception` adds to the PC to get the return address. -/
def returnOffset (exception : Byte) : Word :=
  if exception = undefinedInstruction then 0
  else if exception = dataAbort then 8
  else 4

/-- The vector of an exception. -/
def exceptionVector (exception : Byte) : Word :=
  if exception = fastInterrupt then 0x1C
  else if exception = interrupt then 0x18
  else if exception = undefinedInstruction then 0x04
  else if exception = prefetchAbort then 0x0C
  else 0x10

/-- The context of the state `p` is banked in `p'`: the registers written by the entry of the
exception are the PC, the LR and the SPSR of the mode of the exception, and these two hold the
return address and CPSR. -/
structure BanksContext (exception : Byte) (p p' : ArmCore) : Prop where
  mode : p'.mode = exceptionMode exception
  spsr : registersReadSpsr p'.reg (exceptionMode exception) = p.reg.cpsr
  link : registersRead p'.reg 14 (exceptionMode exception) = p.read 15 + returnOffset exception
  genreg : ∀ reg mode, reg ≠ 15 → slot reg mode ≠ slot 14 (exceptionMode exception) →
    registersRead p'.reg reg mode = registersRead p.reg reg mode
  rstat : ∀ mode, mode ≠ exceptionMode exception →
    registersReadSpsr p'.reg mode = registersReadSpsr p.reg mode

section
variable (endianess : Byte) (loc : Locals) (p : ArmCore)

/-- The five exceptions differ in CPSR, offset and vector only. -/
theorem run_armException_saving {exception : Byte} (h : exception ∈ savingExceptions) :
    (armException endianess loc exception).run p =
      some (exception, p.entered (if exception = fastInterrupt then 0x1d3 else 0x193)
        (returnOffset exception) (exceptionVector exception)) := by
  simp only [savingExceptions, List.mem_cons, List.not_mem_nil, or_false] at h
  rcases h with rfl | rfl | rfl | rfl | rfl
  · exact run_armException_fastInterrupt endianess loc p
  · exact run_armException_interrupt endianess loc p
  · exact run_armException_undefinedInstruction endianess loc p
  · exact run_armException_prefetchAbort endianess loc p
  · exact run_armException_dataAbort endianess loc p

/-- An exception is entered in supervisor mode, whatever its own mode is. -/
theorem ArmCore.entered_mode (exception : Byte) (offset vector : Word) :
    (p.entered (if exception = fastInterrupt then 0x1d3 else 0x193) offset vector).mode = SVC := by
  rw [ArmCore.mode, registersGetMode, ArmCore.entered_cpsr]
  split
  · rfl
  · rfl

/-- The mode of an exception is not supervisor mode. -/
theorem exceptionMode_ne_svc (exception : Byte) : exceptionMode exception ≠ SVC := by
  unfold exceptionMode
  split
  · decide
  · split
    · decide
    · split
      · decide
      · decide

/-- **No exception banks its context**: from every state, the exception is entered in a mode that
is not its own. -/
theorem armException_not_banksContext {exception : Byte} (h : exception ∈ savingExceptions) :
    ∃ p', (armException endianess loc exception).run p = some (exception, p') ∧
      ¬ BanksContext exception p p' := by
  refine ⟨_, run_armException_saving endianess loc p h, fun hb => ?_⟩
  have hmode := hb.mode
  rw [ArmCore.entered_mode] at hmode
  exact exceptionMode_ne_svc exception hmode.symm

end

/-- A processor in user mode, at address 0 of a memory of one word. -/
def userIdle : ArmCore := .initial 0x10 (.ofWords [0])

/-- An interrupt taken in user mode is handled in supervisor mode: its context is not banked. -/
theorem interrupt_userIdle_not_banksContext :
    userIdle.mode ∈ modes ∧ ∃ p', (armException 1 .zero interrupt).run userIdle =
      some (interrupt, p') ∧ p'.mode = SVC ∧ ¬ BanksContext interrupt userIdle p' := by
  refine ⟨by decide, _, run_armException_interrupt 1 .zero userIdle, by decide, fun hb => ?_⟩
  exact absurd hb.mode (by decide)

/-- A data abort from user mode does not save the context. -/
theorem dataAbort_userIdle_not_banksContext :
    ∃ p', (armException 1 .zero dataAbort).run userIdle = some (dataAbort, p') ∧
      ¬ BanksContext dataAbort userIdle p' :=
  armException_not_banksContext 1 .zero userIdle (by decide)

/-! ## Return -/

/-- `SUBS PC, LR, #4`, the return from an interrupt. -/
abbrev subsPcLr : Word := 0xE25EF004

/-- An interrupt between two instructions, and the return from it. -/
def interruptAndReturn (endianess : Byte) (loc : Locals) : ArmM Byte := do
  let _ ← armException endianess loc interrupt
  armDataProcessingImmediateMsr subsPcLr

/-- The states in which the processor takes an interrupt: a valid mode, an aligned PC, the reserved
bits and the T bit of CPSR 0 and the I bit clear. -/
structure Interruptible (p : ArmCore) : Prop where
  mode : p.mode ∈ modes
  aligned : registersRead p.reg 15 p.mode &&& 3 = 0
  reserved : p.reg.cpsr &&& 0x0FFFFE20 = 0
  enabled : p.reg.cpsr.getLsbD 7 = false

/-- The program interrupted in the state `p` finds, in `p'`, its PC, its CPSR and its registers. -/
structure Resumes (p p' : ArmCore) : Prop where
  pc : registersRead p'.reg 15 p'.mode = registersRead p.reg 15 p.mode
  cpsr : p'.reg.cpsr = p.reg.cpsr
  genreg : ∀ reg : Byte, reg ≤ 14 → registersRead p'.reg reg p.mode = registersRead p.reg reg p.mode

/-- The return does not restore CPSR: it ends with the I bit that the exception set. The SPSR it
copies to CPSR is that of supervisor mode, where `arm_current_mode_has_spsr` has just saved CPSR. -/
theorem run_interruptAndReturn (endianess : Byte) (loc : Locals) (p : ArmCore) :
    ∃ code p', (interruptAndReturn endianess loc).run p = some (code, p') ∧
      p'.reg.cpsr.getLsbD 7 = true := by
  let p₁ := p.entered 0x193 4 0x18
  obtain ⟨code, p', hrun, he⟩ := effects_armDataProcessingImmediateMsr subsPcLr p₁ .refl
  refine ⟨code, p', ?_, ?_⟩
  · exact Prog.run_bind_eq_some.2 ⟨_, p₁, run_armException_interrupt endianess loc p, hrun⟩
  · rw [Bits.agree_getLsbD he.cpsr_and (i := 7) (by decide), ArmCore.entered_cpsr]
    decide

/-- **No interrupt is transparent**: from every interruptible state, the program is not resumed as
it was interrupted. -/
theorem interrupt_not_transparent (endianess : Byte) (loc : Locals) (p : ArmCore)
    (hp : Interruptible p) :
    ∃ code p', (interruptAndReturn endianess loc).run p = some (code, p') ∧ ¬ Resumes p p' := by
  obtain ⟨code, p', hrun, hI⟩ := run_interruptAndReturn endianess loc p
  refine ⟨code, p', hrun, fun hr => ?_⟩
  rw [hr.cpsr, hp.enabled] at hI
  cases hI

/-- The processor that waits in user mode is interruptible. -/
theorem interruptible_userIdle : Interruptible userIdle :=
  ⟨by decide, by decide, by decide, by decide⟩

/-- The program that waits in user mode is not resumed. -/
theorem interrupt_userIdle_not_transparent :
    ∃ code p', (interruptAndReturn 1 .zero).run userIdle = some (code, p') ∧
      ¬ Resumes userIdle p' :=
  interrupt_not_transparent 1 .zero userIdle interruptible_userIdle

/-- What happens there: the program goes on in supervisor mode, from address -4, with its own r14
overwritten and the interrupts disabled. -/
theorem interruptAndReturn_userIdle :
    Interruptible userIdle ∧
      ∃ p', (interruptAndReturn 1 .zero).run userIdle = some (0, p') ∧
        p'.reg.cpsr = 0x193 ∧ registersRead p'.reg 15 p'.mode = 0xFFFFFFFC ∧
        registersRead p'.reg 14 USR = 8 ∧ ¬ Resumes userIdle p' := by
  have hrun : ((interruptAndReturn 1 .zero).run userIdle).map (fun r =>
      (r.1, r.2.reg.cpsr, registersRead r.2.reg 15 r.2.mode, registersRead r.2.reg 14 USR)) =
      some (0, 0x193, 0xFFFFFFFC, 8) := by decide +kernel
  obtain ⟨⟨code, p'⟩, hr, he⟩ := Option.map_eq_some_iff.1 hrun
  obtain ⟨rfl, hcpsr, hpc, hlr⟩ : code = 0 ∧ p'.reg.cpsr = 0x193 ∧
      registersRead p'.reg 15 p'.mode = 0xFFFFFFFC ∧ registersRead p'.reg 14 USR = 8 := by
    simpa only [Prod.mk.injEq] using he
  refine ⟨interruptible_userIdle, p', hr, hcpsr, hpc, hlr, fun h => ?_⟩
  exact absurd (hcpsr.symm.trans h.cpsr) (by decide)

end ArmSimulator
