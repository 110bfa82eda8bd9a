import ArmSimulator.Alignment
import ArmSimulator.Interrupt

/-!
# Masked interrupts

Bit I of CPSR disables INTERRUPT and bit F FAST_INTERRUPT. An entry sets I, but `arm_exception`
looks at neither: it enters an interrupt that is masked, over r14, the SPSR and the PC of the
handler that masks it. And the CPSR of an entry is a constant, which clears F whether it was set or
not.
`masking_iff` says in which states this makes no difference, and that a run through such states, of
exceptions from outside and of steps that may raise one, is one of a processor that ignores the
masked interrupts and keeps F.
-/

namespace ArmSimulator

/-- The interrupt is disabled: by bit I, or by bit F if it is a fast one. -/
def Masked (exception : Byte) (p : ArmCore) : Prop :=
  exception = interrupt ∧ getBit p.reg.cpsr 7 = true ∨
    exception = fastInterrupt ∧ getBit p.reg.cpsr 6 = true

/-- The exceptions that are entered with bit F clear. -/
def slowExceptions : List Byte := [interrupt, undefinedInstruction, prefetchAbort, dataAbort]

/-- A masked interrupt changes nothing, and the slow exceptions do not clear F. -/
structure MaskRespected (exception : Byte) (p p' : ArmCore) : Prop where
  masked : Masked exception p → p' = p
  fast : exception ∈ slowExceptions → getBit p.reg.cpsr 6 = true → getBit p'.reg.cpsr 6 = true

/-- The CPSR that an exception is entered with. -/
def entryCpsr (exception : Byte) : Word := if exception = fastInterrupt then 0x1d3 else 0x193

/-- The state of an interrupt that is taken for the second time at its own vector. -/
structure AtRest (exception : Byte) (p : ArmCore) : Prop where
  cpsr : p.reg.cpsr = entryCpsr exception
  pc : p.pc = exceptionVector exception
  link : registersRead p.reg 14 SVC = exceptionVector exception + 8
  spsr : registersReadSpsr p.reg SVC = entryCpsr exception

/-- The states in which the missing test of the masks, and of F, makes no difference. -/
structure MaskHarmless (exception : Byte) (p : ArmCore) : Prop where
  masked : Masked exception p → AtRest exception p
  fast : exception ∈ slowExceptions → getBit p.reg.cpsr 6 = false

/-! ## One exception -/

/-- Registers with the same contents are the same. -/
theorem registers_ext {r r' : Registers} (hg : ∀ i, r.genreg i = r'.genreg i)
    (hc : r.cpsr = r'.cpsr) (hs : ∀ i, r.rstat i = r'.rstat i) : r = r' := by
  obtain ⟨g, c, s⟩ := r
  obtain ⟨g', c', s'⟩ := r'
  obtain rfl : g = g' := funext hg
  obtain rfl : s = s' := funext hs
  obtain rfl : c = c' := hc
  rfl

section
variable {p : ArmCore} {cpsr vector : Word}

/-- An entry in supervisor mode leaves everything as it was if the state is already the one after
it. -/
theorem entered_eq_iff (hmode : cpsr &&& 0x1F = 0x13) (hvector : Aligned vector) (offset : Word) :
    p.entered cpsr offset vector = p ↔ p.reg.cpsr = cpsr ∧ p.pc = vector ∧
      registersRead p.reg 14 SVC = vector + 4 + offset ∧ registersReadSpsr p.reg SVC = cpsr := by
  have hsvc : p.reg.cpsr = cpsr → p.mode = SVC := by
    intro h
    rw [ArmCore.mode, registersGetMode, h, hmode]
    rfl
  have hslot : slot 14 SVC = some 30 := slot_eq (m := 16) rfl
  have hread : p.pc = vector → p.read 15 = vector + 4 := by
    rintro rfl
    rw [ArmCore.read_pc]
    exact (hvector.add (by decide)).and_mask
  constructor
  · intro h
    have hcpsr : p.reg.cpsr = cpsr := by rw [← p.entered_cpsr cpsr offset vector, h]
    have hpc : p.pc = vector := by rw [← p.entered_pc cpsr offset vector, h]
    refine ⟨hcpsr, hpc, ?_, ?_⟩
    · have hgen := p.entered_genreg cpsr offset vector 30
      rw [h, hsvc hcpsr, if_neg (by decide), if_pos hslot, hread hpc] at hgen
      exact hgen
    · have hrstatInd : rstatInd SVC = some 2 := rfl
      have hrstat := congrFun (p.entered_rstat cpsr offset vector) 2
      rw [h, hsvc hcpsr, registersWriteSpsr_rstat, if_pos hrstatInd, hcpsr] at hrstat
      exact hrstat
  · rintro ⟨hcpsr, hpc, hlink, hspsr⟩
    have hreg : (p.entered cpsr offset vector).reg = p.reg := by
      refine registers_ext (fun i => ?_) (p.entered_cpsr _ _ _ |>.trans hcpsr.symm) fun i => ?_
      · rw [ArmCore.entered_genreg, hsvc hcpsr, hslot]
        split_ifs with h15 h14
        · rw [h15]
          exact hpc.symm
        · cases h14
          rw [hread hpc]
          exact hlink.symm
        · rfl
      · rw [ArmCore.entered_rstat, hsvc hcpsr, registersWriteSpsr_rstat, hcpsr]
        split_ifs with hi
        · cases hi
          exact hspsr.symm
        · rfl
    exact congrArg (fun r => { p with reg := r }) hreg

end

/-- An interrupt that is taken leaves everything as it was only at rest. -/
theorem entered_eq_iff_atRest {p : ArmCore} {exception : Byte}
    (h : exception = interrupt ∨ exception = fastInterrupt) :
    p.entered (entryCpsr exception) (returnOffset exception) (exceptionVector exception) = p ↔
      AtRest exception p := by
  have hentry : entryCpsr exception &&& 0x1F = 0x13 ∧ Aligned (exceptionVector exception) ∧
      exceptionVector exception + 4 + returnOffset exception = exceptionVector exception + 8 := by
    rcases h with rfl | rfl
    · decide
    · decide
  rw [entered_eq_iff hentry.1 hentry.2.1, hentry.2.2]
  exact ⟨fun ⟨hc, hpc, hl, hs⟩ => ⟨hc, hpc, hl, hs⟩, fun h => ⟨h.cpsr, h.pc, h.link, h.spsr⟩⟩

section
variable {endianess : Byte} {p p' : ArmCore} {exception c : Byte}

/-- Only the two interrupts can be masked. -/
theorem Masked.interrupt (h : Masked exception p) :
    exception = interrupt ∨ exception = fastInterrupt := h.imp And.left And.left

/-- A slow exception is entered with F clear. -/
theorem entryCpsr_slow (h : exception ∈ slowExceptions) : entryCpsr exception = 0x193 := by
  have hall : ∀ e ∈ slowExceptions, entryCpsr e = 0x193 := by decide
  exact hall exception h

/-- **One exception** respects the masks exactly where these make no difference to it. -/
theorem armException_maskRespected_iff (loc : Locals)
    (h : (armException endianess loc exception).run p = some (c, p')) :
    MaskRespected exception p p' ↔ MaskHarmless exception p := by
  by_cases hsaving : exception ∈ savingExceptions
  · rw [run_armException_saving endianess loc p hsaving] at h
    obtain ⟨-, rfl⟩ := Prod.mk.inj (Option.some.inj h)
    constructor
    · intro hr
      refine ⟨fun hm => (entered_eq_iff_atRest hm.interrupt).1 (hr.masked hm), fun hslow => ?_⟩
      rw [← Bool.not_eq_true]
      intro hF
      have hset := hr.fast hslow hF
      rw [ArmCore.entered_cpsr] at hset
      have hclear : getBit (entryCpsr exception) 6 = false := by
        rw [entryCpsr_slow hslow]
        decide
      exact Bool.false_ne_true (hclear.symm.trans hset)
    · intro hh
      refine ⟨fun hm => (entered_eq_iff_atRest hm.interrupt).2 (hh.masked hm), fun hslow hF => ?_⟩
      rw [hh.fast hslow] at hF
      cases hF
  · have hall : ∀ e ∈ slowExceptions, e ∈ savingExceptions := by decide
    have hslow : exception ∉ slowExceptions := fun he => hsaving (hall exception he)
    have hmasked : ¬ Masked exception p := by
      intro hm
      rcases hm.interrupt with rfl | rfl
      · exact hsaving (by decide)
      · exact hsaving (by decide)
    exact iff_of_true ⟨fun hm => absurd hm hmasked, fun he => absurd he hslow⟩
      ⟨fun hm => absurd hm hmasked, fun he => absurd he hslow⟩

end

/-! ## Events

An exception comes from outside, or it is the code that the instruction of a step returns; in both
cases `arm_exception` is called with it. A code that is success, or a software interrupt, is masked
by nothing and is no slow exception, so that nothing is asked of it.
-/

/-- The event calls `arm_exception` with this exception, in the state `q`: with the byte of an
interrupt in the state it finds, or with the code of the instruction after its effects. -/
def Event.Raises (endianess : Byte) (p : ArmCore) (e : Event) (exception : Byte) (q : ArmCore) :
    Prop :=
  match e with
  | .step loc => (armExecuteInstruction endianess loc).run p = some (exception, q)
  | .exception _ number => exception = number ∧ q = p

/-- The event raises an exception to which the masks make no difference. -/
def Event.MaskHarmless (endianess : Byte) (p : ArmCore) (e : Event) : Prop :=
  ∀ exception q, e.Raises endianess p exception q → ArmSimulator.MaskHarmless exception q

/-- The event respects the masks in the exception that it raises. -/
def Event.MaskRespected (endianess : Byte) (p : ArmCore) (e : Event) (p' : ArmCore) : Prop :=
  ∀ exception q, e.Raises endianess p exception q → ArmSimulator.MaskRespected exception q p'

/-- An event that is a masked interrupt. -/
def Event.Masked (p : ArmCore) : Event → Prop
  | .step _ => False
  | .exception _ number => ArmSimulator.Masked number p

/-- The transition of a processor that ignores the interrupts it masks, and whose slow exceptions
keep F, whether they come from outside or from the instruction of a step. -/
structure IgnoringStep (endianess : Byte) (p : ArmCore) (e : Event) (p' : ArmCore) : Prop where
  ignored : e.Masked p → p' = p
  event : ¬ e.Masked p → EventStep endianess p e p'
  fast : ∀ exception q, e.Raises endianess p exception q → exception ∈ slowExceptions →
    getBit q.reg.cpsr 6 = true → getBit p'.reg.cpsr 6 = true

section
variable {endianess : Byte} {p p' : ArmCore} {e : Event}

/-- A step raises what its instruction returns, and it respects the masks in that. -/
theorem armStep_maskRespected_iff {loc : Locals} {code : Byte}
    (h : (armStep endianess loc).run p = some (code, p')) {exception : Byte} {q : ArmCore}
    (hq : (armExecuteInstruction endianess loc).run p = some (exception, q)) :
    ArmSimulator.MaskRespected exception q p' ↔ ArmSimulator.MaskHarmless exception q := by
  have hstep := (run_armStep endianess loc hq).symm.trans h
  by_cases hzero : exception ≠ 0
  · rw [if_pos hzero] at hstep
    exact armException_maskRespected_iff loc hstep
  · -- a success enters no exception: nothing is masked, and F is not asked for
    obtain rfl : exception = 0 := not_not.1 hzero
    have hslow : (0 : Byte) ∉ slowExceptions := by decide
    have hmasked : ¬ ArmSimulator.Masked 0 q := fun hm => absurd hm.interrupt (by decide)
    exact iff_of_true ⟨fun hm => absurd hm hmasked, fun he => absurd he hslow⟩
      ⟨fun hm => absurd hm hmasked, fun he => absurd he hslow⟩

/-- **One event** respects the masks exactly where these make no difference to it. -/
theorem EventStep.maskRespected_iff (h : EventStep endianess p e p') :
    e.MaskRespected endianess p p' ↔ e.MaskHarmless endianess p := by
  obtain ⟨code, hrun⟩ := h
  cases e with
  | step loc =>
    exact forall_congr' fun exception => forall_congr' fun q => forall_congr' fun hq =>
      armStep_maskRespected_iff hrun hq
  | exception loc number =>
    refine forall_congr' fun exception => forall_congr' fun q => forall_congr' fun hq => ?_
    obtain ⟨rfl, rfl⟩ := hq
    exact armException_maskRespected_iff loc hrun

/-- An event to which the masks make no difference is one of the processor that ignores what it
masks. -/
theorem EventStep.ignoring (h : EventStep endianess p e p') (hh : e.MaskHarmless endianess p) :
    IgnoringStep endianess p e p' := by
  have hrespected := h.maskRespected_iff.2 hh
  refine ⟨fun hm => ?_, fun _ => h, fun exception q hq => (hrespected exception q hq).fast⟩
  cases e with
  | step loc => exact absurd hm not_false
  | exception loc number => exact (hrespected number p ⟨rfl, rfl⟩).masked hm

end

/-! ## Runs -/

/-- **Masked interrupts.** `arm_exception` leaves the state where the interrupt is masked, and keeps
F, exactly where this makes no difference; an event does so, be it a step or an exception from
outside, exactly where this makes no difference to the exception it raises; and a run whose events
are all such is one of a processor that ignores the interrupts it masks and keeps F. -/
theorem masking_iff (endianess : Byte) :
    (∀ loc exception p, ∃ c p', (armException endianess loc exception).run p = some (c, p') ∧
      (MaskRespected exception p p' ↔ MaskHarmless exception p)) ∧
    (∀ p e p', EventStep endianess p e p' →
      (e.MaskRespected endianess p p' ↔ e.MaskHarmless endianess p)) ∧
    ∀ p₀ events p,
      Run (fun p e p' => EventStep endianess p e p' ∧ e.MaskHarmless endianess p) p₀ events p →
        Run (IgnoringStep endianess) p₀ events p := by
  refine ⟨fun loc exception p => ?_, fun p e p' h => h.maskRespected_iff,
    fun p₀ events p hrun => hrun.mono fun h => h.1.ignoring h.2⟩
  obtain ⟨c, p', hrun, -⟩ := armException_cases endianess loc p exception
  exact ⟨c, p', hrun, armException_maskRespected_iff loc hrun⟩

/-- The handler of an interrupt, at its vector for the second time. -/
def restingHandler : ArmCore :=
  (userIdle.entered 0x193 4 0x18).entered 0x193 4 0x18

/-- The handler is at rest: every further interrupt is one that it ignores, and the step after that
raises nothing. -/
theorem masking_restingHandler :
    AtRest interrupt restingHandler ∧
      Run (IgnoringStep 1) restingHandler [.exception .zero interrupt, .step .zero]
        restingHandler.fetched := by
  have hrest : AtRest interrupt restingHandler := ⟨by decide, by decide, by decide, by decide⟩
  have hentry : EventStep 1 restingHandler (.exception .zero interrupt) restingHandler := by
    refine ⟨interrupt, (run_armException_interrupt 1 .zero restingHandler).trans ?_⟩
    rw [show restingHandler.entered 0x193 4 0x18 = restingHandler from
      (entered_eq_iff_atRest (.inl rfl)).2 hrest]
  have hinterrupt : (Event.exception .zero interrupt).MaskHarmless 1 restingHandler := by
    rintro exception q ⟨rfl, rfl⟩
    exact ⟨fun _ => hrest, fun _ => by decide⟩
  -- the word at the vector is 0, whose condition EQ fails
  have hinstruction : (armExecuteInstruction 1 .zero).run restingHandler =
      some (0, restingHandler.fetched) := by
    rw [run_armExecuteInstruction, if_neg (by decide)]
  have hstep : EventStep 1 restingHandler (.step .zero) restingHandler.fetched :=
    ⟨0, run_armStep 1 .zero hinstruction⟩
  have hnone : (Event.step .zero).MaskHarmless 1 restingHandler := by
    intro exception q hq
    obtain ⟨rfl, rfl⟩ := Prod.mk.inj (Option.some.inj (hinstruction.symm.trans hq))
    exact ⟨fun hm => absurd hm.interrupt (by decide), fun hslow => absurd hslow (by decide)⟩
  have hfirst : Run (fun p e p' => EventStep 1 p e p' ∧ e.MaskHarmless 1 p) restingHandler
      [.exception .zero interrupt] restingHandler := .single ⟨hentry, hinterrupt⟩
  exact ⟨hrest, (masking_iff 1).2.2 _ _ _ (hfirst.snoc ⟨hstep, hnone⟩)⟩

/-- An interrupt that arrives in the handler of another, at the second instruction, overwrites its
LR, SPSR and PC; and an undefined instruction in the handler of a fast interrupt clears F. -/
theorem masking_fails :
    let handler : ArmCore := (userIdle.entered 0x193 4 0x18).fetched
    let fastHandler := userIdle.entered 0x1d3 4 0x1C
    (Masked interrupt handler ∧ ∃ p', (armException 1 .zero interrupt).run handler =
      some (interrupt, p') ∧ p'.pc ≠ handler.pc ∧
        registersRead p'.reg 14 SVC ≠ registersRead handler.reg 14 SVC ∧
        registersReadSpsr p'.reg SVC ≠ registersReadSpsr handler.reg SVC ∧
        ¬ MaskRespected interrupt handler p') ∧
    ∃ p', (armException 1 .zero undefinedInstruction).run fastHandler =
      some (undefinedInstruction, p') ∧ getBit fastHandler.reg.cpsr 6 = true ∧
        getBit p'.reg.cpsr 6 = false ∧ ¬ MaskRespected undefinedInstruction fastHandler p' := by
  intro handler fastHandler
  have hmasked : Masked interrupt handler := .inl ⟨rfl, by decide⟩
  have hundefined := run_armException_undefinedInstruction 1 .zero fastHandler
  refine ⟨⟨hmasked, _, run_armException_interrupt 1 .zero handler, by decide, by decide, by decide,
    fun h => ?_⟩, _, hundefined, by decide, by decide, fun h => ?_⟩
  · exact absurd (congrArg ArmCore.pc (h.masked hmasked)) (by decide)
  · exact absurd (h.fast (by decide) (by decide)) (by decide)

end ArmSimulator
