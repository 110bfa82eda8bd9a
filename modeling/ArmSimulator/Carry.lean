import ArmSimulator.Instruction
import Mathlib.Algebra.Group.Int.Defs
import Mathlib.Algebra.Group.Nat.Defs

/-!
# The carry flag

`add_carry` and `sub_carry` decide the carry by the signed overflow and a signed comparison of the
wrapped result. The architecture's carry is unsigned: it is set when a sum reaches 2^32, or when a
difference does not borrow. `addCarry_iff` and `subCarry_iff` say for which operands the two agree,
and `dataProcessing_carry_iff` carries this to the flag that `data_processing` leaves and to the
unsigned conditions that test it.
-/

namespace ArmSimulator

/-! ## The carry of a sum and of a difference -/

/-- The operands for which the code's carry of `a + b` is the unsigned one. -/
def SumAgrees (a b : Word) : Prop :=
  if 2 ^ 31 ≤ b.toNat then 2 ^ 32 ≤ a.toNat + b.toNat
  else a.toNat + b.toNat < 2 ^ 31 ∨ (2 ^ 31 ≤ a.toNat ∧ a.toNat + b.toNat < 2 ^ 32)

/-- The operands for which the code's carry of `a - b` is the unsigned one. -/
def DifferenceAgrees (a b : Word) : Prop :=
  if 2 ^ 31 ≤ b.toNat then b.toNat ≤ a.toNat
  else a.toNat < b.toNat ∨ (2 ^ 31 ≤ a.toNat ∧ a.toNat - b.toNat < 2 ^ 31)

/-- A word is an `int32_t` in two's complement. -/
theorem toInt_word (a : Word) :
    a.toInt = if a.toNat < 2 ^ 31 then (a.toNat : Int) else a.toNat - 2 ^ 32 := by
  rw [BitVec.toInt_eq_toNat_cond]
  split_ifs <;> omega

/-- The flag of `add_carry`: the signed sum overflows, or is less than the first operand. -/
theorem addCarry_eq_true (a b : Word) : (addCarry a b).1 = true ↔
    2 ^ 31 ≤ a.toInt + b.toInt ∨ a.toInt + b.toInt < -2 ^ 31 ∨ (a + b).toInt < a.toInt := by
  simp [addCarry, BitVec.saddOverflow, BitVec.slt, or_assoc]

/-- `sub_carry` reports that the signed difference overflows, or is more than the first operand. -/
theorem subCarry_eq_true (a b : Word) : (subCarry a b).1 = true ↔
    2 ^ 31 ≤ a.toInt - b.toInt ∨ a.toInt - b.toInt < -2 ^ 31 ∨ a.toInt < (a - b).toInt := by
  simp [subCarry, BitVec.ssubOverflow, BitVec.slt, or_assoc]

/-- `add_carry` is the carry of the unsigned sum for the operands that agree, and for no others. -/
theorem addCarry_iff (a b : Word) :
    (addCarry a b).1 = decide (2 ^ 32 ≤ a.toNat + b.toNat) ↔ SumAgrees a b := by
  have ha := a.isLt
  have hb := b.isLt
  rw [Bool.eq_iff_iff, addCarry_eq_true, decide_eq_true_eq, toInt_word a, toInt_word b,
    toInt_word (a + b), BitVec.toNat_add, SumAgrees]
  split_ifs <;> omega

/-- `sub_carry` is the absence of a borrow for the operands that agree, and for no others. -/
theorem subCarry_iff (a b : Word) :
    (subCarry a b).1 = decide (b.toNat ≤ a.toNat) ↔ DifferenceAgrees a b := by
  have ha := a.isLt
  have hb := b.isLt
  rw [Bool.eq_iff_iff, subCarry_eq_true, decide_eq_true_eq, toInt_word a, toInt_word b,
    toInt_word (a - b), BitVec.toNat_sub, DifferenceAgrees]
  split_ifs <;> omega

/-! ## The flags of `new_CPSR` -/

/-- `new_CPSR` stores the four flags. -/
theorem newCpsr_flags (c : Word) (nBit zBit cBit vBit : Bool) :
    (newCpsr c nBit zBit cBit vBit).getLsbD Flag.N = nBit ∧
      (newCpsr c nBit zBit cBit vBit).getLsbD Flag.Z = zBit ∧
      (newCpsr c nBit zBit cBit vBit).getLsbD Flag.C = cBit ∧
      (newCpsr c nBit zBit cBit vBit).getLsbD Flag.V = vBit := by
  have hflag : ∀ b : Bool, ∀ i ∈ [28, 29, 30, 31], ∀ j ∈ [28, 29, 30, 31],
      (flagWord b <<< i).getLsbD j = (decide (i = j) && b) := by decide
  have hrest : ∀ j ∈ [28, 29, 30, 31], (c &&& 0x0FFFFFFF).getLsbD j = false := by
    intro j hj
    have hm : (0x0FFFFFFF : Word).getLsbD j = false := by
      revert j
      decide
    rw [BitVec.getLsbD_and, hm, Bool.and_false]
  unfold newCpsr
  refine ⟨?_, ?_, ?_, ?_⟩
  all_goals simp only [BitVec.getLsbD_or]
  all_goals rw [hrest _ (by decide), hflag _ _ (by decide) _ (by decide),
    hflag _ _ (by decide) _ (by decide), hflag _ _ (by decide) _ (by decide),
    hflag _ _ (by decide) _ (by decide)]
  all_goals simp [Flag.N, Flag.Z, Flag.C, Flag.V]

/-! ## The claim of the manual -/

/-- The opcodes with an unsigned carry. -/
def carryOpcodes : List Byte := [Opcode.SUB, Opcode.RSB, Opcode.ADD, Opcode.CMP, Opcode.CMN]

/-- The carry of the architecture: a difference that does not borrow, a sum that reaches 2^32. -/
def unsignedCarry (opcode : Byte) (rnValue operand : Word) : Bool :=
  if opcode = Opcode.SUB ∨ opcode = Opcode.CMP then operand.toNat ≤ rnValue.toNat
  else if opcode = Opcode.RSB then rnValue.toNat ≤ operand.toNat
  else 2 ^ 32 ≤ rnValue.toNat + operand.toNat

/-- The operands for which the code computes that carry. -/
def CarryAgrees (opcode : Byte) (rnValue operand : Word) : Prop :=
  if opcode = Opcode.SUB ∨ opcode = Opcode.CMP then DifferenceAgrees rnValue operand
  else if opcode = Opcode.RSB then DifferenceAgrees operand rnValue
  else SumAgrees rnValue operand

/-- The flag is the carry, and after a comparison the conditions on the carry answer as the unsigned
relations. -/
structure CarryCorrect (opcode : Byte) (rnValue operand : Word) (p : ArmCore) : Prop where
  carry : getBit p.reg.cpsr Flag.C = unsignedCarry opcode rnValue operand
  higherOrSame : opcode = Opcode.CMP → ∀ inst : Word, inst >>> 28 = Cond.HS →
    (instructionCond inst).run p = some (decide (operand.toNat ≤ rnValue.toNat), p)
  lower : opcode = Opcode.CMP → ∀ inst : Word, inst >>> 28 = Cond.LO →
    (instructionCond inst).run p = some (decide (rnValue.toNat < operand.toNat), p)
  higher : opcode = Opcode.CMP → ∀ inst : Word, inst >>> 28 = Cond.HI →
    (instructionCond inst).run p = some (decide (operand.toNat < rnValue.toNat), p)
  lowerOrSame : opcode = Opcode.CMP → ∀ inst : Word, inst >>> 28 = Cond.LS →
    (instructionCond inst).run p = some (decide (rnValue.toNat ≤ operand.toNat), p)

/-- The carry flag of an opcode is the unsigned carry for the operands that agree only. -/
theorem opcodeResult_carry_iff {opcode : Byte} (h : opcode ∈ carryOpcodes) (rnValue operand : Word)
    (carryOut cBit vBit : Bool) :
    (opcodeResult opcode rnValue operand carryOut cBit vBit).cBit =
      unsignedCarry opcode rnValue operand ↔ CarryAgrees opcode rnValue operand := by
  simp only [carryOpcodes, List.mem_cons, List.not_mem_nil, or_false] at h
  rcases h with rfl | rfl | rfl | rfl | rfl
  · exact subCarry_iff rnValue operand
  · exact subCarry_iff operand rnValue
  · exact addCarry_iff rnValue operand
  · exact subCarry_iff rnValue operand
  · exact addCarry_iff rnValue operand

/-- A comparison whose carry is right answers the unsigned conditions right: its zero flag is
equality. -/
theorem CarryCorrect.of_carry {opcode : Byte} {rnValue operand : Word} {p : ArmCore}
    (hc : getBit p.reg.cpsr Flag.C = unsignedCarry opcode rnValue operand)
    (hz : opcode = Opcode.CMP → getBit p.reg.cpsr Flag.Z = (rnValue - operand == 0)) :
    CarryCorrect opcode rnValue operand p := by
  have hrun : ∀ inst : Word, (instructionCond inst).run p =
      some (conditionHolds (inst >>> 28) p.reg.cpsr, p) := fun _ => rfl
  have hcarry : opcode = Opcode.CMP →
      getBit p.reg.cpsr Flag.C = decide (operand.toNat ≤ rnValue.toNat) := by
    rintro rfl
    exact hc
  have hzero : (rnValue - operand == 0) = decide (rnValue.toNat = operand.toNat) := by
    rw [Bool.eq_iff_iff, beq_iff_eq, decide_eq_true_eq, BitVec.toNat_inj]
    exact ⟨fun h => BitVec.sub_eq_iff_eq_add.1 h |>.trans (BitVec.zero_add operand),
      fun h => h ▸ BitVec.sub_self rnValue⟩
  refine ⟨hc, ?_, ?_, ?_, ?_⟩
  all_goals
    intro ho inst hi
    rw [hrun, hi]
    refine congrArg (fun b => some (b, p)) ?_
  · exact hcarry ho
  · show (!getBit p.reg.cpsr Flag.C) = _
    rw [hcarry ho, Bool.eq_iff_iff]
    simp
  · show (getBit p.reg.cpsr Flag.C && !getBit p.reg.cpsr Flag.Z) = _
    rw [hcarry ho, hz ho, hzero, Bool.eq_iff_iff]
    simp
    omega
  · show (!getBit p.reg.cpsr Flag.C || getBit p.reg.cpsr Flag.Z) = _
    rw [hcarry ho, hz ho, hzero, Bool.eq_iff_iff]
    simp
    omega

/-- **The carry flag.** With `S = 1` and `Rd` other than the PC, `data_processing` leaves the
unsigned carry, and the conditions on it are the unsigned relations, exactly for the operands that
agree. -/
theorem dataProcessing_carry_iff (p : ArmCore) {opcode rd : Byte} (h : opcode ∈ carryOpcodes)
    (hrd : rd ≠ 15) (rnValue operand : Word) (carryOut : Bool) :
    ∃ p', (dataProcessing true opcode rd rnValue operand carryOut).run p =
        some (successfullyDecoded, p') ∧
      (CarryCorrect opcode rnValue operand p' ↔ CarryAgrees opcode rnValue operand) := by
  obtain ⟨p', hrun, hcpsr⟩ := run_dataProcessing_flags p opcode hrd rnValue operand carryOut
  obtain ⟨-, hz, hc, -⟩ := newCpsr_flags p.reg.cpsr _ _ _ _
  refine ⟨p', hrun, ?_⟩
  rw [← opcodeResult_carry_iff h rnValue operand carryOut]
  constructor
  · intro hcorrect
    have := hcorrect.carry
    rw [hcpsr, getBit_eq_getLsbD, hc] at this
    exact this
  · intro hcarry
    refine .of_carry ?_ ?_
    · rw [hcpsr, getBit_eq_getLsbD, hc]
      exact hcarry
    · rintro rfl
      rw [hcpsr, getBit_eq_getLsbD, hz]
      rfl

/-- A comparison sets the carry right for 2^31 and 1, whose difference is the largest positive
number. -/
theorem dataProcessing_carry_overflow :
    ∃ p', (dataProcessing true Opcode.CMP 0 0x80000000 1 false).run
        (.initial 0x10 ⟨fun _ => 0, 4⟩) = some (successfullyDecoded, p') ∧
      CarryCorrect Opcode.CMP 0x80000000 1 p' := by
  have hopcode : Opcode.CMP ∈ carryOpcodes := by decide
  have hrd : (0 : Byte) ≠ 15 := by decide
  have hagrees : CarryAgrees Opcode.CMP 0x80000000 1 := by
    show DifferenceAgrees 0x80000000 1
    unfold DifferenceAgrees
    decide
  obtain ⟨p', hrun, hiff⟩ := dataProcessing_carry_iff (.initial 0x10 ⟨fun _ => 0, 4⟩) hopcode hrd
    0x80000000 1 false
  exact ⟨p', hrun, hiff.2 hagrees⟩

/-- A comparison of 5 and 3 leaves the carry clear. -/
theorem dataProcessing_carry_fails :
    ∃ p', (dataProcessing true Opcode.CMP 0 5 3 false).run (.initial 0x10 ⟨fun _ => 0, 4⟩) =
        some (successfullyDecoded, p') ∧
      getBit p'.reg.cpsr Flag.C = false ∧ ¬ CarryCorrect Opcode.CMP 5 3 p' := by
  refine ⟨_, rfl, by decide, fun h => ?_⟩
  exact absurd h.carry (by decide)

end ArmSimulator
