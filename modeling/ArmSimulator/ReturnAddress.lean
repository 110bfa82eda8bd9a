import ArmSimulator.Alignment
import ArmSimulator.Interrupt

/-!
# Return addresses

The return from an exception subtracts from r14 what the architecture adds on entry: r14 should be
the address of the instruction plus 4, or plus 8 for a data abort. `arm_exception` adds these
offsets to what r15 reads as, which is the stored PC plus 4; inside a step, the fetch has added 4 to
that PC already. So r14 is 4 or 8 too much. Only an undefined instruction can make up for it, by the
write that it does too early (`lateWrite`), and `returnAddress_iff` says when.
-/

namespace ArmSimulator

/-- The value is in the r14 of the mode that an exception has interrupted. -/
def LinkStored (mode : Byte) (p' : ArmCore) (value : Word) : Prop :=
  ∃ i, slot 14 mode = some i ∧ p'.reg.genreg i = value

/-- What r14 should be after an exception on the instruction at `address`. -/
def linkAddress (exception : Byte) (address : Word) : Word :=
  if exception = dataAbort then address + 8 else address + 4

/-- An exception that is taken for the instruction at an address, and the state after it: an
interrupt between two instructions, for the next one; an abort, for the instruction that is fetched
or executed, the PC before or after the increment of the fetch; or an instruction that `arm_step`
finds to be undefined. -/
inductive Taken (endianess : Byte) (loc : Locals) (p : ArmCore) : Byte → Word → ArmCore → Prop
  | interrupt {exception : Byte} {p' : ArmCore} (he : exception ∈ [interrupt, fastInterrupt])
      (hrun : (armException endianess loc exception).run p = some (exception, p')) :
      Taken endianess loc p exception p.pc p'
  | abort {exception : Byte} {address : Word} {p' : ArmCore}
      (he : exception ∈ [prefetchAbort, dataAbort]) (ha : p.pc = address ∨ p.pc = address + 4)
      (hrun : (armException endianess loc exception).run p = some (exception, p')) :
      Taken endianess loc p exception address p'
  | undefined {p' : ArmCore}
      (hrun : (armStep endianess loc).run p = some (undefinedInstruction, p')) :
      Taken endianess loc p undefinedInstruction p.pc p'

/-! ## What is stored -/

section
variable {p : ArmCore}

/-- The PC reads as the stored PC plus 4. -/
theorem ArmCore.read_pc_aligned (hp : Aligned p.pc) : p.read 15 = p.pc + 4 := by
  rw [ArmCore.read_pc]
  exact (hp.add (by decide)).and_mask

/-- An entry stores what it has computed, where the mode has a r14. -/
theorem linkStored_entered (cpsr offset vector value : Word) :
    LinkStored p.mode (p.entered cpsr offset vector) value ↔
      p.mode ∈ modes ∧ p.read 15 + offset = value := by
  have hgen : ∀ {i}, slot 14 p.mode = some i →
      (p.entered cpsr offset vector).reg.genreg i = p.read 15 + offset := by
    intro i hi
    have hne : i ≠ 15 := by
      rintro rfl
      exact slot_ne_pc (by decide) hi
    rw [ArmCore.entered_genreg, if_neg hne, if_pos hi]
  constructor
  · rintro ⟨i, hi, hvalue⟩
    exact ⟨mem_modes_of_slot hi, (hgen hi).symm.trans hvalue⟩
  · rintro ⟨hm, hvalue⟩
    obtain ⟨i, hi⟩ := Option.isSome_iff_exists.1 (slot_isSome (by decide : (14 : Byte) ≤ 15) hm)
    exact ⟨i, hi, (hgen hi).trans hvalue⟩

/-- The mask of the read of the PC forgets bit 1. -/
theorem and_mask_eq_iff {a b : Word} (hb : Aligned b) :
    a &&& 0xFFFFFFFD = b ↔ a = b ∨ a = b + 2 := by
  have hadd : b + 2 = b ||| 2 := BitVec.add_eq_or_of_and_eq_zero b 2 hb.and_two
  constructor
  · intro h
    have hsplit : a = (a &&& 0xFFFFFFFD) ||| (a &&& 2) := by
      rw [← BitVec.and_or_distrib_left]
      exact BitVec.and_allOnes.symm
    have htwo : a &&& 2 = if a.getLsbD 1 then 2 else 0#32 := BitVec.and_twoPow a 1
    rw [h, htwo] at hsplit
    split_ifs at hsplit
    · exact .inr (hsplit.trans hadd.symm)
    · exact .inl (hsplit.trans BitVec.or_zero)
  · rintro (rfl | rfl)
    · exact hb.and_mask
    · rw [hadd, BitVec.and_or_distrib_right, hb.and_mask]
      exact BitVec.or_zero

/-- The offsets of `arm_exception` are 4 more than those of the architecture. -/
theorem add_returnOffset (address : Word) {exception : Byte}
    (h : exception ≠ undefinedInstruction) :
    address + 4 + returnOffset exception = linkAddress exception address + 4 := by
  unfold returnOffset linkAddress
  rw [if_neg h, BitVec.add_assoc, BitVec.add_comm 4, ← BitVec.add_assoc]
  split_ifs
  · rfl
  · rfl

/-- The address is 4 more after the increment of the fetch. -/
theorem linkAddress_add (exception : Byte) (address : Word) :
    linkAddress exception (address + 4) = linkAddress exception address + 4 := by
  unfold linkAddress
  split_ifs
  · rw [BitVec.add_assoc, BitVec.add_assoc]
    rfl
  · rfl

/-- **Interrupts and aborts**: r14 is 4 or 8 too much. -/
theorem not_linkStored_saving (endianess : Byte) (loc : Locals) (hp : Aligned p.pc)
    {exception : Byte} (he : exception ∈ savingExceptions) (hne : exception ≠ undefinedInstruction)
    {address : Word} (ha : p.pc = address ∨ p.pc = address + 4) {p' : ArmCore}
    (hrun : (armException endianess loc exception).run p = some (exception, p')) :
    ¬ LinkStored p.mode p' (linkAddress exception address) := by
  rw [run_armException_saving endianess loc p he] at hrun
  obtain ⟨-, rfl⟩ := Prod.mk.inj (Option.some.inj hrun)
  intro h
  have hlink := ((linkStored_entered _ _ _ _).1 h).2
  rw [ArmCore.read_pc_aligned hp, add_returnOffset p.pc hne] at hlink
  rcases ha with hpc | hpc
  · rw [hpc] at hlink
    bv_omega
  · rw [hpc, linkAddress_add] at hlink
    bv_omega

end

/-! ## Undefined instructions -/

section
variable (endianess : Byte) (loc : Locals) {p p' : ArmCore}

/-- The instruction writes its own address to r15, or that plus 2, before it is refused. -/
def RestoresPc (p : ArmCore) : Prop :=
  ∃ value, lateWrite (p.fetchedWord endianess loc) p.fetched = some (15, value) ∧
    (value = p.pc ∨ value = p.pc + 2)

/-- A step enters UNDEFINED_INSTRUCTION in the state after the writes that the instruction makes
late. -/
theorem armStep_undefined (hm : p.mode ∈ modes)
    (h : (armStep endianess loc).run p = some (undefinedInstruction, p')) :
    p' = (p.fetched.written (lateWrite (p.fetchedWord endianess loc) p.fetched)).entered
      0x193 0 0x04 := by
  obtain ⟨c₁, p₁, hrun, ⟨rfl, -, rfl⟩ | ⟨-, hc, -⟩⟩ := armStep_executed endianess loc h
  · rw [run_armExecuteInstruction] at hrun
    split_ifs at hrun
    · rw [armDecode_undefined p.fetched endianess loc _ (p.fetched_mode.symm ▸ hm) _ _ hrun rfl]
    · cases hrun
  · exact absurd hc (by decide)

/-- The write of an instruction to a register keeps the mode. -/
@[simp] theorem ArmCore.written_mode (w : Option (Byte × Word)) : (p.written w).mode = p.mode := by
  cases w with
  | none => rfl
  | some w => exact registersGetMode_registersWrite _ _ _ _

/-- After the fetch and the write, the PC reads as the address of the instruction plus 4 where the
write has moved it back. -/
theorem read_written_iff (hp : Aligned p.pc) (w : Option (Byte × Word)) :
    (p.fetched.written w).read 15 = p.pc + 4 ↔
      ∃ value, w = some (15, value) ∧ (value = p.pc ∨ value = p.pc + 2) := by
  have hahead : (p.pc + 4 + 4) &&& 0xFFFFFFFD ≠ p.pc + 4 := by
    rw [((hp.add (by decide)).add (by decide)).and_mask]
    bv_omega
  rw [ArmCore.read_pc, ArmCore.written_pc, ArmCore.fetched_pc]
  cases w with
  | none =>
    refine iff_of_false hahead ?_
    rintro ⟨value, hw, -⟩
    cases hw
  | some w =>
    obtain ⟨reg, value⟩ := w
    by_cases hreg : reg = 15
    · subst hreg
      have hvalue : (value + 4) &&& 0xFFFFFFFD = p.pc + 4 ↔ value = p.pc ∨ value = p.pc + 2 := by
        have hcomm : p.pc + 4 + 2 = p.pc + 2 + 4 := by
          rw [BitVec.add_assoc, BitVec.add_assoc]
          rfl
        rw [and_mask_eq_iff (hp.add (by decide)), hcomm, BitVec.add_left_inj, BitVec.add_left_inj]
      refine hvalue.trans ⟨fun h => ⟨value, rfl, h⟩, ?_⟩
      rintro ⟨value', hw, h⟩
      cases hw
      exact h
    · rw [Option.bind_some, if_neg hreg]
      refine iff_of_false hahead ?_
      rintro ⟨value', hw, -⟩
      cases hw
      exact hreg rfl

/-- **Undefined instructions**: r14 is the address of the instruction plus 4 only where the late
write has moved the PC back. -/
theorem linkStored_undefined_iff (hp : Aligned p.pc)
    (h : (armStep endianess loc).run p = some (undefinedInstruction, p')) :
    LinkStored p.mode p' (linkAddress undefinedInstruction p.pc) ↔
      p.mode ∈ modes ∧ RestoresPc endianess loc p := by
  by_cases hm : p.mode ∈ modes
  · let w := lateWrite (p.fetchedWord endianess loc) p.fetched
    have hmode : (p.fetched.written w).mode = p.mode :=
      (p.fetched.written_mode w).trans p.fetched_mode
    have hread : (p.fetched.written w).read 15 + 0 = p.pc + 4 ↔ RestoresPc endianess loc p := by
      rw [show (p.fetched.written w).read 15 + 0 = _ from BitVec.add_zero _]
      exact read_written_iff hp w
    have hlink := linkStored_entered (p := p.fetched.written w) 0x193 0 0x04 (p.pc + 4)
    rw [hmode, hread] at hlink
    rw [armStep_undefined endianess loc hm h]
    exact hlink
  · exact iff_of_false (fun ⟨i, hi, _⟩ => hm (mem_modes_of_slot hi)) fun h => hm h.1

/-- **Return addresses.** r14 is what it should be only after an undefined instruction that has
moved the PC back, in a mode that has a r14. -/
theorem returnAddress_iff (hp : Aligned p.pc) {exception : Byte} {address : Word}
    (h : Taken endianess loc p exception address p') :
    LinkStored p.mode p' (linkAddress exception address) ↔
      exception = undefinedInstruction ∧ p.mode ∈ modes ∧ RestoresPc endianess loc p := by
  have hall : ∀ e ∈ [interrupt, fastInterrupt, prefetchAbort, dataAbort],
      e ∈ savingExceptions ∧ e ≠ undefinedInstruction := by decide
  cases h with
  | interrupt he hrun =>
    obtain ⟨hsaving, hne⟩ := hall exception (List.mem_append_left [prefetchAbort, dataAbort] he)
    have hno := not_linkStored_saving endianess loc hp hsaving hne (.inl rfl) hrun
    exact iff_of_false hno fun hc => hne hc.1
  | abort he ha hrun =>
    obtain ⟨hsaving, hne⟩ := hall exception (List.mem_append_right [interrupt, fastInterrupt] he)
    have hno := not_linkStored_saving endianess loc hp hsaving hne ha hrun
    exact iff_of_false hno fun hc => hne hc.1
  | undefined hrun =>
    rw [linkStored_undefined_iff endianess loc hp hrun]
    exact (and_iff_right rfl).symm

end

/-- `MOVS pc, r0` in user mode with r0 = 0, at address 0. -/
def movsPc : ArmCore := .initial 0x10 (.ofWords [0xE1B0F000])

/-- `MOVS pc, r0` has moved the PC back to itself when it is refused. -/
theorem returnAddress_movsPc :
    ∃ p', Taken 1 .zero movsPc undefinedInstruction 0 p' ∧ LinkStored movsPc.mode p' 4 := by
  have hrun : ∃ p', (armStep 1 .zero).run movsPc = some (undefinedInstruction, p') := ⟨_, rfl⟩
  obtain ⟨p', hrun⟩ := hrun
  refine ⟨p', .undefined hrun, ?_⟩
  refine (returnAddress_iff 1 .zero (p := movsPc) (by decide) (.undefined hrun)).2 ?_
  exact ⟨rfl, by decide, 0, by decide, .inl rfl⟩

/-- An interrupt before the instruction at 0 stores 8 and not 4: the return from it skips that
instruction. A signed load at 0, which is undefined, stores 8 and not 4 as well. -/
theorem returnAddress_fails :
    (∃ p', Taken 1 .zero userIdle interrupt 0 p' ∧ LinkStored userIdle.mode p' 8 ∧
      ¬ LinkStored userIdle.mode p' (linkAddress interrupt 0)) ∧
    ∃ p', Taken 1 .zero signedLoad undefinedInstruction 0 p' ∧ LinkStored signedLoad.mode p' 8 ∧
      ¬ LinkStored signedLoad.mode p' (linkAddress undefinedInstruction 0) := by
  have hinterrupt := run_armException_interrupt 1 .zero userIdle
  have hm : signedLoad.mode ∈ modes := by decide
  have hwrite : lateWrite (signedLoad.fetchedWord 1 .zero) signedLoad.fetched = some (1, 4) := by
    decide
  obtain ⟨p', hrun⟩ : ∃ p', (armStep 1 .zero).run signedLoad = some (undefinedInstruction, p') :=
    ⟨_, rfl⟩
  have hp' := armStep_undefined 1 .zero hm hrun
  rw [hwrite] at hp'
  let q := signedLoad.fetched.write 1 4
  have hlink := fun value => linkStored_entered (p := q) 0x193 0 0x04 value
  refine ⟨⟨_, .interrupt (by decide) hinterrupt, ?_, ?_⟩, p', .undefined hrun, ?_, ?_⟩
  · exact (linkStored_entered (p := userIdle) 0x193 4 0x18 8).2 ⟨by decide, by decide⟩
  · exact not_linkStored_saving 1 .zero (p := userIdle) (by decide) (by decide) (by decide)
      (.inl rfl) hinterrupt
  · rw [hp']
    exact (hlink 8).2 ⟨by decide, by decide⟩
  · rw [hp']
    exact fun h => absurd ((hlink 4).1 h).2 (by decide)

end ArmSimulator
