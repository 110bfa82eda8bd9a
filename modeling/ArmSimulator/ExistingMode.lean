import ArmSimulator.Reserved
import ArmSimulator.Simulation

/-!
# Existing modes

`MSR` checks the operand for reserved bits and for the T bit, but not for a mode that does not
exist, and then every access to r8 to r14 is lost. Nothing else leaves the seven modes: the other
instructions leave CPSR[4:0], and an exception enters SVC. `Event.SetsNoMode` is the step that does
it, and `modeExists_iff` says that there is no other.
-/

namespace ArmSimulator

open Prog

/-- The processor is in an existing mode, and so has all of its registers. -/
structure ModeExists (p : ArmCore) : Prop where
  mode : p.mode ∈ modes
  modeInd : ∀ reg ≤ 15, (modeInd reg p.mode).isSome = true

/-- The operand of `MSR`. -/
def msrOperand (ins : Word) : Word :=
  ror (getBits ins 7 0) ((getBits ins 11 8).setWidth 8 * 2)

/-- The field mask of `MSR`. -/
def msrFieldMask (ins : Word) : Byte := (getBits ins 19 16).setWidth 8

/-- An `MSR` of CPSR writes mode bits: the mode is privileged, the control field is selected, and
the operand is not refused. -/
structure WritesMode (ins : Word) (p : ArmCore) : Prop where
  cpsr : getBit ins rIndex = false
  privileged : registersInAPrivilegedMode p.reg ≠ 0
  control : getBit (msrFieldMask ins) 0 = true
  allocated : msrOperand ins &&& unallocMask = 0
  arm : msrOperand ins &&& stateMask = 0

/-- The mode that `MSR` writes: bits 3:0 of the operand under bit 4 of CPSR, which is 1. -/
def msrMode (ins : Word) : Byte := (0x10 ||| (msrOperand ins &&& privMask)).setWidth 8

/-- The step executes an `MSR` that writes the number of no mode. -/
def Event.SetsNoMode (endianess : Byte) (p : ArmCore) : Event → Prop
  | .step loc =>
    let ins := p.fetchedWord endianess loc
    conditionHolds (ins >>> 28) p.reg.cpsr = true ∧ getBits ins 27 25 = 0b001 ∧
      getBits ins 24 23 = 0b10 ∧ getBits ins 21 20 = 0b10 ∧ WritesMode ins p ∧
      msrMode ins ∉ modes
  | .exception _ _ => False

/-- The mode depends on CPSR[4:0] only. -/
theorem mode_congr {p q : ArmCore} (h : q.reg.cpsr &&& 0x1F = p.reg.cpsr &&& 0x1F) :
    q.mode = p.mode := by
  rw [ArmCore.mode, registersGetMode, h]
  rfl

/-- An existing mode has bit 4 set. -/
theorem cpsr_four_of_mode {p : ArmCore} (h : p.mode ∈ modes) : p.reg.cpsr &&& 0x10 = 0x10 := by
  have hall : ∀ mode ∈ modes, mode.setWidth 32 &&& (0x10 : Word) = 0x10 := by decide
  have hand : p.reg.cpsr &&& 0x10 = (p.reg.cpsr &&& 0x1F) &&& 0x10 := by
    rw [BitVec.and_assoc]
    rfl
  rw [hand, ArmCore.cpsr_and_mode]
  exact hall _ h

/-- The field mask selects the mode bits if it has the control field. -/
theorem byteMask_and_mode (fieldMask : Byte) :
    (byteMask fieldMask &&& (userMask ||| privMask)) &&& 0x1F =
      if getBit fieldMask 0 then 0xF else 0 := by
  unfold byteMask
  cases getBit fieldMask 0 <;> cases getBit fieldMask 1 <;> cases getBit fieldMask 2 <;>
    cases getBit fieldMask 3 <;> rfl

/-- The mode bits after the write are those of the operand, or those from before. -/
theorem msr_and_mode (fieldMask : Byte) (cpsr operand : Word) :
    ((cpsr &&& ~~~(byteMask fieldMask &&& (userMask ||| privMask))) |||
      (operand &&& (byteMask fieldMask &&& (userMask ||| privMask)))) &&& 0x1F =
      if getBit fieldMask 0 then (cpsr &&& 0x10) ||| (operand &&& privMask)
      else cpsr &&& 0x1F := by
  rw [Bits.assign_and_of operand (byteMask_and_mode fieldMask)]
  cases getBit fieldMask 0 with
  | false => simp
  | true => rfl

/-- What a run leaves of the mode: it exists, unless the number of no mode was written. -/
def ModeResult (ins : Word) (p : ArmCore) (c : Byte) (p' : ArmCore) : Prop :=
  (p'.mode ∈ modes ∧ ¬ (WritesMode ins p ∧ msrMode ins ∉ modes)) ∨
    (c = successfullyDecoded ∧ p'.mode ∉ modes ∧ WritesMode ins p ∧ msrMode ins ∉ modes)

/-- Where no mode is written, the mode is the one from before. -/
theorem ModeResult.of_same {ins : Word} {p p' : ArmCore} {c : Byte} (hm : p.mode ∈ modes)
    (hw : ¬ WritesMode ins p) (h : p'.reg.cpsr &&& 0x1F = p.reg.cpsr &&& 0x1F) :
    ModeResult ins p c p' :=
  .inl ⟨by rw [mode_congr h]; exact hm, fun hw' => hw hw'.1⟩

/-- Where a mode is written, it is that of the operand. -/
theorem ModeResult.of_written {ins : Word} {p p' : ArmCore} (hw : WritesMode ins p)
    (h : p'.mode = msrMode ins) : ModeResult ins p successfullyDecoded p' := by
  by_cases hm : msrMode ins ∈ modes
  · exact .inl ⟨h ▸ hm, fun hw' => hw'.2 hm⟩
  · exact .inr ⟨rfl, h ▸ hm, hw, hm⟩

/-- **What `MSR` does to the mode** is what `ModeResult` says. -/
theorem armMsrImmediate_mode (ins : Word) {p : ArmCore} (hm : p.mode ∈ modes) :
    Ensures (armMsrImmediate ins) p (ModeResult ins p) := by
  unfold armMsrImmediate
  refine Ensures.ite (fun hun => ?_) fun hun => Ensures.ite (fun hr => ?_) fun hr => ?_
  · exact Ensures.pure (.of_same hm (fun hw => hun hw.allocated) rfl)
  · refine Ensures.bind (run_armInAPrivilegedMode p) (Ensures.ite (fun hp => ?_) fun hp => ?_)
    · refine Ensures.ite (fun hs => ?_) fun hs => ?_
      · exact Ensures.pure (.of_same hm (fun hw => hs hw.arm) rfl)
      · refine Ensures.bind (run_armReadCpsr p) (Ensures.bind (run_armWriteCpsr p _)
          (Ensures.pure ?_))
        have hcpsr := msr_and_mode (msrFieldMask ins) p.reg.cpsr (msrOperand ins)
        by_cases hc : getBit (msrFieldMask ins) 0 = true
        · have hw : WritesMode ins p := ⟨hr, hp, hc, not_not.1 hun, not_not.1 hs⟩
          rw [if_pos hc, cpsr_four_of_mode hm] at hcpsr
          exact .of_written hw (congrArg (BitVec.setWidth 8) hcpsr)
        · rw [if_neg hc] at hcpsr
          exact .of_same hm (fun hw => hc hw.control) hcpsr
    · refine Ensures.bind (run_armReadCpsr p) (Ensures.bind (run_armWriteCpsr p _)
        (Ensures.pure (.of_same hm (fun hw => hp hw.privileged) ?_)))
      exact Bits.agree_mono (Bits.assign_and _ (msrUserMask_and (msrFieldMask ins))) (by decide)
  · have hw : ¬ WritesMode ins p := fun hw => hr hw.cpsr
    have hquery := congrArg (· &&& 0x1F) (registersCurrentModeHasSpsr_cpsr p.reg)
    refine Ensures.bind (run_armCurrentModeHasSpsr p) (Ensures.ite (fun _ => ?_) fun _ => ?_)
    · refine Ensures.bind (run_armReadSpsr _)
        (Ensures.bind (run_armWriteSpsr _ _) (Ensures.pure ?_))
      exact .of_same hm hw ((congrArg (· &&& 0x1F) (registersWriteSpsr_cpsr _ _ _)).trans hquery)
    · exact Ensures.pure (.of_same hm hw hquery)

/-- The fetch does not matter to the write. -/
theorem writesMode_fetched {ins : Word} {p : ArmCore} :
    WritesMode ins p.fetched ↔ WritesMode ins p := by
  have hpriv : registersInAPrivilegedMode p.fetched.reg = registersInAPrivilegedMode p.reg := by
    simp only [registersInAPrivilegedMode, ArmCore.fetched, registersGetMode_registersWrite]
  constructor
  · rintro ⟨h1, h2, h3, h4, h5⟩
    exact ⟨h1, hpriv ▸ h2, h3, h4, h5⟩
  · rintro ⟨h1, h2, h3, h4, h5⟩
    exact ⟨h1, hpriv ▸ h2, h3, h4, h5⟩

section
variable (endianess : Byte) (loc : Locals)

/-- The instructions other than `MSR` leave the mode. -/
theorem armDecode_mode {ins : Word} {p : ArmCore}
    (hno : ¬ (getBits ins 27 25 = 0b001 ∧ getBits ins 24 23 = 0b10 ∧ getBits ins 21 20 = 0b10)) :
    Ensures (armDecode endianess loc ins) p fun _ p' =>
      p'.reg.cpsr &&& 0x1F = p.reg.cpsr &&& 0x1F := by
  have hV : FlagsFree fun v => v &&& 0x1F = p.reg.cpsr &&& 0x1F :=
    fun c v hc hv => (Bits.agree_mono hv (by decide)).trans hc
  have hacc := simAccessors_cpsr (V := fun v => v &&& 0x1F = p.reg.cpsr &&& 0x1F) endianess
  intro c p' hr
  refine cpsr_of_sim (hacc.armDecode loc hV fun h1 => Sim.ite_of (fun h => ?_) fun _ => ?_) rfl hr
  · exact absurd ⟨h1, h⟩ hno
  · exact hacc.armDataProcessingImmediate hV ins

/-- An instruction returns success where it leaves a mode that does not exist. -/
theorem armExecuteInstruction_mode {p : ArmCore} (hm : p.mode ∈ modes) :
    Ensures (armExecuteInstruction endianess loc) p fun c p' =>
      (p'.mode ∈ modes ∧ ¬ (Event.step loc).SetsNoMode endianess p) ∨
        (c = successfullyDecoded ∧ p'.mode ∉ modes ∧ (Event.step loc).SetsNoMode endianess p) := by
  intro c p' hr
  have hcpsr := ArmCore.fetched_cpsr p
  have hfetched : p.fetched.mode ∈ modes := by
    rw [mode_congr (congrArg (· &&& 0x1F) hcpsr)]
    exact hm
  rw [run_armExecuteInstruction] at hr
  split_ifs at hr with hcond
  · by_cases hmsr : getBits (p.fetchedWord endianess loc) 27 25 = 0b001 ∧
        getBits (p.fetchedWord endianess loc) 24 23 = 0b10 ∧
        getBits (p.fetchedWord endianess loc) 21 20 = 0b10
    · rw [armDecode, if_neg (by rw [hmsr.1]; decide), if_pos hmsr.1, armDataProcessingImmediateMsr,
        if_pos hmsr.2] at hr
      have hsets : (Event.step loc).SetsNoMode endianess p ↔
          WritesMode (p.fetchedWord endianess loc) p.fetched ∧
            msrMode (p.fetchedWord endianess loc) ∉ modes := by
        rw [writesMode_fetched]
        exact ⟨fun h => h.2.2.2.2, fun h => ⟨hcond, hmsr.1, hmsr.2.1, hmsr.2.2, h⟩⟩
      rw [hsets]
      exact armMsrImmediate_mode _ hfetched c p' hr
    · have hsame := armDecode_mode endianess loc hmsr c p' hr
      refine .inl ⟨by rw [mode_congr hsame]; exact hfetched, fun h => hmsr ?_⟩
      exact ⟨h.2.1, h.2.2.1, h.2.2.2.1⟩
  · cases hr
    exact .inl ⟨hfetched, fun h => hcond h.1⟩

/-- One event from an existing mode leads to an existing mode unless it sets none. -/
theorem EventStep.mode_mem_iff {p p' : ArmCore} {e : Event} (h : EventStep endianess p e p')
    (hm : p.mode ∈ modes) : p'.mode ∈ modes ↔ ¬ e.SetsNoMode endianess p := by
  obtain ⟨code, hrun⟩ := h
  cases e with
  | step loc =>
    obtain ⟨c₁, p₁, hexec, hout⟩ := armStep_executed endianess loc hrun
    have hmode := armExecuteInstruction_mode endianess loc hm c₁ p₁ hexec
    rcases hout with ⟨hc₁, -, rfl⟩ | ⟨-, -, hreg, -⟩
    · -- the exception enters SVC
      have hno : ¬ (Event.step loc).SetsNoMode endianess p := by
        rcases hmode with ⟨-, hno⟩ | ⟨h0, -⟩
        · exact hno
        · rw [hc₁] at h0
          exact absurd h0 (by decide)
      refine iff_of_true ?_ hno
      rw [ArmCore.mode, registersGetMode, ArmCore.entered_cpsr]
      decide
    · rw [ArmCore.mode, hreg]
      rcases hmode with ⟨hin, hno⟩ | ⟨-, hout, hset⟩
      · exact iff_of_true hin hno
      · exact iff_of_false hout (not_not.2 hset)
  | exception loc number =>
    obtain ⟨c, p'', hrun', hc⟩ := armException_cpsr endianess loc number p
    rw [Event.run, hrun'] at hrun
    cases hrun
    refine iff_of_true ?_ id
    rw [ArmCore.mode, registersGetMode]
    rcases hc with hc | hc | hc
    · rw [hc]; decide
    · rw [hc]; decide
    · rw [hc]; exact hm

end

/-! ## Runs -/

/-- An existing mode has all of its registers. -/
theorem modeExists_of_mode {p : ArmCore} (hm : p.mode ∈ modes) : ModeExists p := by
  refine ⟨hm, fun reg hr => ?_⟩
  obtain ⟨i, hi⟩ := Option.isSome_iff_exists.1 (slot_isSome hr hm)
  obtain ⟨m, hmode, -⟩ := slot_some hi
  rw [hmode]
  rfl

/-- `arm_create` leaves the processor in SVC. -/
theorem mode_armCreate {endianess : Byte} {loc : Locals} {reg : Registers} {mem : Memory}
    {p : ArmCore} (h : armCreate endianess loc reg mem = some p) : p.mode = SVC := by
  cases h
  simp [ArmCore.mode, registersGetMode]

/-- An event that sets no mode that does not exist. -/
def ModeStep (endianess : Byte) (p : ArmCore) (e : Event) (p' : ArmCore) : Prop :=
  EventStep endianess p e p' ∧ ¬ e.SetsNoMode endianess p

/-- **Existing modes.** From `arm_create`, as long as no event sets a mode that does not exist, the
processor is in an existing mode; and the first event that does so ends that. -/
theorem modeExists_iff (endianess : Byte) {loc : Locals} {reg : Registers} {mem : Memory}
    {p₀ p : ArmCore} {events : List Event} (hcreate : armCreate endianess loc reg mem = some p₀)
    (hrun : Run (ModeStep endianess) p₀ events p) :
    ModeExists p ∧ ∀ e p', EventStep endianess p e p' →
      (ModeExists p' ↔ ¬ e.SetsNoMode endianess p) := by
  have hm₀ : p₀.mode ∈ modes := by
    rw [mode_armCreate hcreate]
    decide
  obtain ⟨hm, hnext⟩ := hrun.invariant_iff (I := fun p => p.mode ∈ modes)
    (fun h hm => h.mode_mem_iff endianess hm) hm₀
  refine ⟨modeExists_of_mode hm, fun e p' h => ?_⟩
  rw [← hnext e p' h]
  exact ⟨fun h' => h'.mode, modeExists_of_mode⟩

/-- `MSR CPSR_c, #0x1F` and then `MSR CPSR_c, #0x14`, in the memory of a processor that was just
created. -/
def twoModes : ArmCore :=
  ((ArmCore.initial 0x1d3 (.ofWords [0xE321F01F, 0xE321F014])).write 15 0).write 13 8

/-- The first of the two goes to an existing mode, and the second to none. -/
theorem modeExists_twoModes :
    ∃ p p', Run (ModeStep 1) twoModes [.step .zero] p ∧ p.mode = SYS ∧ ModeExists p ∧
      EventStep 1 p (.step .zero) p' ∧ ¬ ModeExists p' := by
  have hcreate : armCreate 1 .zero registersCreate (.ofWords [0xE321F01F, 0xE321F014]) =
      some twoModes := rfl
  have hfirst : ((armStep 1 .zero).run twoModes).map
      (fun r => (r.2.mode, r.2.reg.cpsr, r.2.fetchedWord 1 .zero)) =
        some (SYS, 0x1df, 0xE321F014) := by
    decide +kernel
  obtain ⟨⟨code, p⟩, hrun, he⟩ := Option.map_eq_some_iff.1 hfirst
  obtain ⟨hmode, he⟩ := Prod.mk.inj he
  obtain ⟨hcpsr, hword⟩ := Prod.mk.inj he
  dsimp only at hmode hcpsr hword
  have hallowed : ¬ (Event.step .zero).SetsNoMode 1 twoModes := by
    rintro ⟨-, -, -, -, -, hnone⟩
    exact hnone (by decide)
  have hreached : Run (ModeStep 1) twoModes [.step .zero] p := .single ⟨⟨code, hrun⟩, hallowed⟩
  obtain ⟨hexists, hnext⟩ := modeExists_iff 1 hcreate hreached
  obtain ⟨code', p', hrun', -⟩ := armStep_run 1 .zero p
  have hstep : EventStep 1 p (.step .zero) p' := ⟨code', hrun'⟩
  refine ⟨p, p', hreached, hmode, hexists, hstep, fun hexists' => (hnext _ _ hstep).1 hexists' ?_⟩
  have hprivileged : registersInAPrivilegedMode p.reg ≠ 0 := by
    rw [registersInAPrivilegedMode, show registersGetMode p.reg = SYS from hmode]
    decide
  unfold Event.SetsNoMode
  dsimp only
  rw [hword, hcpsr]
  exact ⟨by decide, by decide, by decide, by decide,
    ⟨by decide, hprivileged, by decide, by decide, by decide⟩, by decide⟩

/-- `MSR CPSR_c, #0x14`, in the memory of a processor that was just created. -/
def msrProgram : ArmCore :=
  ((ArmCore.initial 0x1d3 (.ofWords [0xE321F014])).write 15 0).write 13 4

/-- The step ends in a mode that does not exist, where a write to r8 changes nothing. -/
theorem modeExists_fails :
    ∃ p, Reachable 1 p ∧ ¬ ModeExists p ∧ ∀ value, p.write 8 value = p := by
  have hrun : ((armStep 1 .zero).run msrProgram).map (fun r => r.2.mode) = some 0x14 := by
    decide +kernel
  obtain ⟨⟨code, p⟩, hr, hmode⟩ := Option.map_eq_some_iff.1 hrun
  refine ⟨p, ?_, fun h => ?_, fun value => ?_⟩
  · exact ⟨.zero, registersCreate, .ofWords [0xE321F014], msrProgram, [.step .zero], rfl,
      .single ⟨code, hr⟩⟩
  · have hm := h.mode
    rw [hmode] at hm
    exact absurd hm (by decide)
  · have hslot : slot 8 p.mode = none := by
      rw [hmode]
      rfl
    rw [ArmCore.write, registersWrite, hslot]

end ArmSimulator
