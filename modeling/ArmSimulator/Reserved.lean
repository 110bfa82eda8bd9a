import ArmSimulator.Step

/-!
# The reserved bits of CPSR

Whatever runs, bits 27:9 and the T bit of CPSR are 0 and bit 4 is 1. The SPSRs have no such bound,
and both returns from an exception copy an SPSR to CPSR; but the query they make first has just
saved CPSR there, which is why `Effect` has no restore, and the invariant is one of CPSR alone.
-/

namespace ArmSimulator

/-- What happens to the simulator: a step, or an exception from outside. -/
inductive Event where
  | step (loc : Locals)
  | exception (loc : Locals) (number : Byte)

/-- `arm_step` or `arm_exception`. -/
def Event.run (endianess : Byte) : Event → ArmM Byte
  | .step loc => armStep endianess loc
  | .exception loc number => armException endianess loc number

/-- The transition of an event. -/
def EventStep (endianess : Byte) (p : ArmCore) (e : Event) (p' : ArmCore) : Prop :=
  ∃ code, StateT.run (e.run endianess) p = some (code, p')

/-- A state that a sequence of events leads to from `arm_create`. -/
def Reachable (endianess : Byte) (p : ArmCore) : Prop :=
  ∃ loc reg mem p₀ events, armCreate endianess loc reg mem = some p₀ ∧
    Run (EventStep endianess) p₀ events p

/-- The bits 27:9, 5 and 4. -/
abbrev reservedMask : Word := 0x0FFFFE30

/-- The reserved bits and the T bit are 0, and bit 4 is 1. -/
def ReservedOk (p : ArmCore) : Prop := p.reg.cpsr &&& reservedMask = 0x10

/-- The effects of an instruction leave the reserved bits. -/
theorem Effects.reservedOk {p p' : ArmCore} (h : Effects p p') (hr : ReservedOk p) :
    ReservedOk p' :=
  (Bits.agree_mono h.cpsr_and (by decide)).trans hr

/-- An exception leaves one of two values in CPSR, or CPSR as it was, for any byte. -/
theorem armException_cpsr (endianess : Byte) (loc : Locals) (exception : Byte) (p : ArmCore) :
    ∃ c p', (armException endianess loc exception).run p = some (c, p') ∧
      (p'.reg.cpsr = 0x1d3 ∨ p'.reg.cpsr = 0x193 ∨ p'.reg.cpsr = p.reg.cpsr) := by
  obtain ⟨c, p', hrun, hp'⟩ := armException_cases endianess loc p exception
  refine ⟨c, p', hrun, ?_⟩
  cases hp' with
  | reset => exact .inl (registersWrite_cpsr _ _ _ _)
  | entered hcpsr _ =>
    rw [ArmCore.entered_cpsr]
    exact hcpsr.imp_right .inl
  | same hreg =>
    rw [hreg]
    exact .inr (.inr rfl)

/-- Every event keeps the reserved bits. -/
theorem EventStep.reservedOk {endianess : Byte} {p p' : ArmCore} {e : Event}
    (h : EventStep endianess p e p') (hr : ReservedOk p) : ReservedOk p' := by
  obtain ⟨code, hrun⟩ := h
  cases e with
  | step loc =>
    rw [Event.run] at hrun
    obtain ⟨p₁, he, ⟨-, rfl⟩ | ⟨-, hreg, -⟩⟩ := armStep_cases endianess loc hrun
    · rw [ReservedOk, ArmCore.entered_cpsr]
      decide
    · rw [ReservedOk, hreg]
      exact he.reservedOk hr
  | exception loc number =>
    obtain ⟨c, p'', hrun', hc⟩ := armException_cpsr endianess loc number p
    rw [Event.run, hrun'] at hrun
    cases hrun
    rcases hc with hc | hc | hc
    · rw [ReservedOk, hc]; decide
    · rw [ReservedOk, hc]; decide
    · rw [ReservedOk, hc]; exact hr

/-- The invariant holds after reset. -/
theorem reservedOk_armCreate {endianess : Byte} {loc : Locals} {reg : Registers} {mem : Memory}
    {p : ArmCore} (h : armCreate endianess loc reg mem = some p) : ReservedOk p := by
  cases h
  simp [ReservedOk]

/-- The invariant holds of every reachable state. -/
theorem Reachable.reservedOk {endianess : Byte} {p : ArmCore} (h : Reachable endianess p) :
    ReservedOk p := by
  obtain ⟨loc, reg, mem, p₀, events, hcreate, hrun⟩ := h
  exact hrun.invariant EventStep.reservedOk (reservedOk_armCreate hcreate)

/-- The state after `arm_create` on a memory of 3 bytes, which has room for no word. -/
def created : ArmCore := ((ArmCore.initial 0x1d3 ⟨fun _ => 0, 3⟩).write 15 0).write 13 3

/-- The locals of a fetch that fails and finds `MSR SPSR_fsxc, #0x20`. -/
def msrSpsr : Locals := { Locals.zero with instruction := 0xE36FF020 }

/-- The instruction gives SPSR_svc, which holds CPSR, the T bit. -/
theorem run_armStep_msrSpsr (endianess : Byte) :
    (armStep endianess msrSpsr).run created =
      some (0, { created.fetched with
        reg := registersWriteSpsr (registersWriteSpsr created.fetched.reg SVC 0x1d3) SVC
          0x1f0 }) := by
  have hword : created.fetchedWord endianess msrSpsr = 0xE36FF020 := by rfl
  rw [run_armStep endianess msrSpsr (c := 0)]
  · rfl
  · rw [run_armExecuteInstruction, hword]
    rfl

/-- **The reserved bits of CPSR.** In every reachable state the bits 27:9 and the T bit of CPSR are
0 and bit 4 is 1; and there are reachable states whose SPSR has the T bit. -/
theorem reachable_cpsr (endianess : Byte) :
    (∀ p, Reachable endianess p →
      (∀ i, 9 ≤ i → i ≤ 27 → p.reg.cpsr.getLsbD i = false) ∧
        p.reg.cpsr.getLsbD 5 = false ∧ p.reg.cpsr.getLsbD 4 = true) ∧
    ∃ p, Reachable endianess p ∧ (registersReadSpsr p.reg SVC).getLsbD 5 = true := by
  have hbits : ∀ i < 28, 9 ≤ i →
      reservedMask.getLsbD i = true ∧ (0x10 : Word).getLsbD i = false := by decide
  refine ⟨fun p hp => ?_, ?_⟩
  · have hr : p.reg.cpsr &&& reservedMask = (0x10 : Word) &&& reservedMask := hp.reservedOk
    refine ⟨fun i h9 h27 => ?_, ?_, ?_⟩
    · obtain ⟨hmask, hval⟩ := hbits i (Nat.lt_succ_of_le h27) h9
      exact (Bits.agree_getLsbD hr hmask).trans hval
    · exact Bits.agree_getLsbD hr (i := 5) (by decide)
    · exact Bits.agree_getLsbD hr (i := 4) (by decide)
  · refine ⟨_, ⟨.zero, registersCreate, ⟨fun _ => 0, 3⟩, created, [.step msrSpsr], rfl,
      .single ⟨_, run_armStep_msrSpsr endianess⟩⟩, ?_⟩
    decide

/-- The state after this step and an interrupt is reachable, and satisfies the invariant. -/
theorem reachable_cpsr_interrupted :
    ∃ p, Reachable 1 p ∧ p.mode = SVC ∧ registersReadSpsr p.reg SVC = 0x1d3 ∧
      (∀ i, 9 ≤ i → i ≤ 27 → p.reg.cpsr.getLsbD i = false) ∧
      p.reg.cpsr.getLsbD 5 = false ∧ p.reg.cpsr.getLsbD 4 = true := by
  have hstep : EventStep 1 created (.step msrSpsr) _ := ⟨0, run_armStep_msrSpsr 1⟩
  have hreach : Reachable 1 _ := ⟨.zero, registersCreate, ⟨fun _ => 0, 3⟩, created,
    [.step msrSpsr, .exception .zero interrupt], rfl,
    (Run.single hstep).snoc ⟨interrupt, run_armException_interrupt 1 .zero _⟩⟩
  exact ⟨_, hreach, by decide, by decide, (reachable_cpsr 1).1 _ hreach⟩

end ArmSimulator
