import ArmSimulator.Lib.Shift
import ArmSimulator.Alignment
import ArmSimulator.DataReference

/-!
# The shifter operand

`arm_data_processing_shift` writes out eight shifts, by an immediate amount and by a register, each
with its own boundary cases. They are one shift: the arithmetic one, by an amount from 0 to 255
(`shifterOperand_eq`), where an immediate amount of 0 stands for 32 or for the rotation through the
carry.

In a shift by an immediate amount r15 may be an operand. It reads as the address of the instruction
plus 8, but where `Rn` or `Rm` is r15 the code shifts the address plus 12, in the place of `Rm`
whichever register that is. `armDataProcessingShift_pc_iff` says when the result is still right.
-/

namespace ArmSimulator

open BarrelShifter

/-! ## The eight shifts -/

/-- A shift by an immediate amount. -/
def immediateShift (kind : Kind) (x : Word) (shiftImm : Nat) (c : Bool) : Word × Bool :=
  if shiftImm = 0 then
    match kind with
    | .lsl => shift .lsl x 0 c
    | .lsr => shift .lsr x 32 c
    | .asr => shift .asr x 32 c
    | .ror => rrx x c
  else shift kind x shiftImm c

/-- A field of at most eight bits is a byte. -/
theorem toNat_setWidth_getBits (x : Word) {h l : Nat} (hlen : h - l < 8) :
    ((getBits x h l).setWidth 8 : Byte).toNat = (getBits x h l).toNat := by
  have hlt : (getBits x h l).toNat < 2 ^ 8 := by
    rw [toNat_getBits]
    exact Nat.lt_of_lt_of_le (Nat.mod_lt _ (Nat.two_pow_pos _))
      (Nat.pow_le_pow_right (by decide) hlen)
  rw [BitVec.toNat_setWidth, Nat.mod_eq_of_lt hlt]

/-- `asr` shifts the signed value. -/
theorem asr_eq (x : Word) {n : Byte} (hn : n.toNat < 32) : asr x n = value .asr x n.toNat := by
  apply BitVec.eq_of_getLsbD_eq
  intro i hi
  rw [value_asr, BitVec.getLsbD_sshiftRight, asr, BitVec.getLsbD_or, BitVec.getLsbD_ushiftRight,
    getBit_eq_getLsbD, BitVec.msb_eq_getLsbD_last]
  by_cases hlow : n.toNat + i < 32
  · have hsign : i < 32 - n.toNat := by omega
    cases x.getLsbD 31 <;> simp [hlow, hsign, hi]
  · have hsign : ¬ i < 32 - n.toNat := by omega
    have hall : i - (32 - n.toNat) < 32 := by omega
    rw [BitVec.getLsbD_of_ge x _ (Nat.le_of_not_lt hlow), if_neg hlow, Bool.false_or]
    cases x.getLsbD 31 with
    | false => simp
    | true =>
      rw [if_pos rfl, BitVec.getLsbD_shiftLeft, BitVec.getLsbD_allOnes]
      simp [hi, hsign, hall]

/-- `ror` rotates. -/
theorem ror_eq (x : Word) {n : Byte} (hn : n.toNat < 32) : ror x n = value .ror x n.toNat := by
  rw [value_ror, Nat.mod_eq_of_lt hn]
  rfl

/-- The code shifts by 32 or more with the sign as the architecture does. -/
theorem asrSign_eq (x : Word) {n : Nat} (hn : 32 ≤ n) :
    asrSign x = (value .asr x n, carry .asr x n) := by
  have h0 : n ≠ 0 := by omega
  have hmsb : getBit x 31 = x.msb := by
    rw [getBit_eq_getLsbD, BitVec.msb_eq_getLsbD_last]
  have hcarry : carry .asr x n = x.msb := by
    rw [carry_asr x h0]
    split_ifs with h
    · rw [BitVec.msb_eq_getLsbD_last, Nat.le_antisymm h hn]
    · rfl
  rw [asrSign, hmsb, value_asr_of_le x hn, hcarry]
  cases x.msb with
  | false => rfl
  | true => rfl

section
variable (c : Bool) (x : Word) {n : Byte}

/-- A byte that is not 0 is not 0 as a number. -/
theorem toNat_ne_zero (h : ¬ n = 0) : n.toNat ≠ 0 :=
  fun he => h (BitVec.eq_of_toNat_eq he)

/-- The code shifts left by an immediate as the architecture does. -/
theorem lslImmediate_eq (hn : n.toNat < 32) :
    lslImmediate c x n = immediateShift .lsl x n.toNat c := by
  unfold lslImmediate immediateShift
  by_cases h0 : n = 0
  · subst h0
    rfl
  · have h := toNat_ne_zero h0
    rw [if_neg h0, if_neg h, shift_of_ne h, value_lsl, carry_lsl_of_le x (Nat.le_of_lt hn),
      getBit_eq_getLsbD]

/-- The code shifts left by a register as the architecture does. -/
theorem lslRegister_eq : lslRegister c x n = shift .lsl x n.toNat c := by
  unfold lslRegister
  by_cases h0 : n = 0
  · subst h0
    rfl
  have h := toNat_ne_zero h0
  rw [if_neg h0, shift_of_ne h]
  by_cases hlt : n < 32
  · have hn : n.toNat < 32 := hlt
    rw [if_pos hlt, value_lsl, carry_lsl_of_le x (Nat.le_of_lt hn), getBit_eq_getLsbD]
  have hle : 32 ≤ n.toNat := Nat.le_of_not_lt hlt
  rw [if_neg hlt, value_lsl_of_le x hle]
  by_cases h32 : n = 32
  · subst h32
    rw [if_pos rfl, getBit_eq_getLsbD]
    exact congrArg _ (carry_lsl_of_le x (Nat.le_refl 32)).symm
  · have hgt : 32 < n.toNat := by
      refine Nat.lt_of_le_of_ne hle fun he => h32 (BitVec.eq_of_toNat_eq he.symm)
    rw [if_neg h32, carry_lsl_of_lt x hgt]
    rfl

/-- The code shifts right by an immediate as the architecture does. -/
theorem lsrImmediate_eq (hn : n.toNat < 32) :
    lsrImmediate x n = immediateShift .lsr x n.toNat c := by
  unfold lsrImmediate immediateShift
  by_cases h0 : n = 0
  · subst h0
    have h32 : (32 : Nat) ≠ 0 := by decide
    rw [if_pos rfl]
    show _ = shift .lsr x 32 c
    rw [shift_of_ne h32, value_lsr_of_le x (Nat.le_refl 32), carry_lsr x h32, getBit_eq_getLsbD]
    rfl
  · have h := toNat_ne_zero h0
    rw [if_neg h0, if_neg h, shift_of_ne h, value_lsr, carry_lsr x h, getBit_eq_getLsbD]

/-- The code shifts right by a register as the architecture does. -/
theorem lsrRegister_eq : lsrRegister c x n = shift .lsr x n.toNat c := by
  unfold lsrRegister
  by_cases h0 : n = 0
  · subst h0
    rfl
  have h := toNat_ne_zero h0
  rw [if_neg h0, shift_of_ne h, carry_lsr x h]
  by_cases hlt : n < 32
  · rw [if_pos hlt, value_lsr, getBit_eq_getLsbD]
  have hle : 32 ≤ n.toNat := Nat.le_of_not_lt hlt
  rw [if_neg hlt, value_lsr_of_le x hle]
  by_cases h32 : n = 32
  · subst h32
    rw [if_pos rfl, getBit_eq_getLsbD]
    rfl
  · have hgt : 32 ≤ n.toNat - 1 := by
      have : n.toNat ≠ 32 := fun he => h32 (BitVec.eq_of_toNat_eq he)
      omega
    rw [if_neg h32, BitVec.getLsbD_of_ge x _ hgt]
    rfl

/-- The code shifts right with the sign by an immediate as the architecture does. -/
theorem asrImmediate_eq (hn : n.toNat < 32) :
    asrImmediate x n = immediateShift .asr x n.toNat c := by
  unfold asrImmediate immediateShift
  by_cases h0 : n = 0
  · subst h0
    rw [if_pos rfl, asrSign_eq x (Nat.le_refl 32)]
    exact (shift_of_ne (by decide) .asr x c).symm
  · have h := toNat_ne_zero h0
    rw [if_neg h0, if_neg h, shift_of_ne h, asr_eq x hn, carry_asr x h, if_pos (Nat.le_of_lt hn),
      getBit_eq_getLsbD]

/-- The code shifts right with the sign by a register as the architecture does. -/
theorem asrRegister_eq : asrRegister c x n = shift .asr x n.toNat c := by
  unfold asrRegister
  by_cases h0 : n = 0
  · subst h0
    rfl
  have h := toNat_ne_zero h0
  rw [if_neg h0, shift_of_ne h]
  by_cases hlt : n < 32
  · have hn : n.toNat < 32 := hlt
    rw [if_pos hlt, asr_eq x hn, carry_asr x h, if_pos (Nat.le_of_lt hn), getBit_eq_getLsbD]
  · rw [if_neg hlt, asrSign_eq x (Nat.le_of_not_lt hlt)]

/-- The code rotates by an immediate as the architecture does. -/
theorem rorImmediate_eq (hn : n.toNat < 32) :
    rorImmediate c x n = immediateShift .ror x n.toNat c := by
  unfold rorImmediate immediateShift
  by_cases h0 : n = 0
  · subst h0
    rw [if_pos rfl]
    exact Prod.ext (rrx_fst x c (by decide)).symm
      ((getBit_eq_getLsbD x 0).trans (rrx_snd x c (by decide)).symm)
  · have h := toNat_ne_zero h0
    have hmod : n.toNat % 32 = n.toNat := Nat.mod_eq_of_lt hn
    have hne : n.toNat % 32 ≠ 0 := by rwa [hmod]
    rw [if_neg h0, if_neg h, shift_of_ne h, ror_eq x hn, carry_ror_of_ne x hne, hmod,
      getBit_eq_getLsbD]

/-- The amount of a rotation by a register is in its bits 4:0, of which the low byte is the amount
modulo 32. -/
theorem rorRegister_eq (rsValue : Word) :
    rorRegister c x rsValue ((getBits rsValue 7 0).setWidth 8) =
      shift .ror x (getBits rsValue 7 0).toNat c := by
  have hlb : ((getBits rsValue 7 0).setWidth 8 : Byte).toNat = (getBits rsValue 7 0).toNat :=
    toNat_setWidth_getBits rsValue (by decide)
  have hamount : (getBits rsValue 4 0).toNat = (getBits rsValue 7 0).toNat % 32 := by
    rw [toNat_getBits, toNat_getBits]
    omega
  have hamount' : ((getBits rsValue 4 0).setWidth 8 : Byte).toNat =
      (getBits rsValue 7 0).toNat % 32 :=
    (toNat_setWidth_getBits rsValue (by decide)).trans hamount
  have hlt : (getBits rsValue 7 0).toNat % 32 < 32 := Nat.mod_lt _ (by decide)
  rw [← hlb] at hamount hamount' hlt ⊢
  generalize (getBits rsValue 7 0).setWidth 8 = n at *
  unfold rorRegister
  by_cases h0 : n = 0
  · subst h0
    rfl
  have h := toNat_ne_zero h0
  rw [if_neg h0, shift_of_ne h]
  by_cases hzero : getBits rsValue 4 0 = 0
  · have hmod : n.toNat % 32 = 0 := by
      rw [← hamount, hzero]
      rfl
    rw [if_pos hzero, value_ror_of_mod x hmod, carry_ror_of_mod x h hmod, getBit_eq_getLsbD,
      BitVec.msb_eq_getLsbD_last]
  · have hmod : n.toNat % 32 ≠ 0 := fun he =>
      hzero (BitVec.eq_of_toNat_eq (hamount.trans he))
    rw [if_neg hzero, ror_eq x (hamount'.symm ▸ hlt), carry_ror_of_ne x hmod, hamount', hamount,
      getBit_eq_getLsbD, value_ror, value_ror, Nat.mod_mod]

end

/-! ## The shift of an instruction -/

/-- The kind of shift, in the bits 6:5. -/
def shiftKind (ins : Word) : Kind :=
  if getBits ins 6 5 = 0b00 then .lsl
  else if getBits ins 6 5 = 0b01 then .lsr
  else if getBits ins 6 5 = 0b10 then .asr
  else .ror

/-- The shifter operand of the architecture: by the low byte of `Rs`, or by an immediate amount. -/
def shiftedValue (ins rmValue rsValue : Word) (c : Bool) : Word × Bool :=
  if getBit ins 4 then shift (shiftKind ins) rmValue (getBits rsValue 7 0).toNat c
  else immediateShift (shiftKind ins) rmValue (getBits ins 11 7).toNat c

/-- An instruction in one of the shift forms. -/
abbrev ShiftForm (ins : Word) : Prop := ¬ (getBit ins 4 = true ∧ getBit ins 7 = true)

/-- The fields that select the form, bit by bit. -/
theorem getBits_six_four (x : Word) : getBits x 6 4 = (if getBit x 6 then 4 else 0) |||
    ((if getBit x 5 then 2 else 0) ||| (if getBit x 4 then 1 else 0)) := by
  rw [getBits_succ x (by decide), getBits_pair x 4]
  rfl

/-- Four bits of a word are the sum of their weights. -/
theorem getBits_seven_four (x : Word) : getBits x 7 4 = (if getBit x 7 then 8 else 0) |||
    ((if getBit x 6 then 4 else 0) ||| ((if getBit x 5 then 2 else 0) |||
      (if getBit x 4 then 1 else 0))) := by
  rw [getBits_succ x (by decide), getBits_six_four]
  rfl

/-- The fields of the code of the shifter operand are those of the word. -/
theorem operandCode_fields (ins : Word) : getBits (getBits ins 11 0) 11 7 = getBits ins 11 7 ∧
    getBits (getBits ins 11 0) 6 4 = ((if getBit ins 6 then 4 else 0) |||
      ((if getBit ins 5 then 2 else 0) ||| (if getBit ins 4 then 1 else 0))) ∧
    getBits (getBits ins 11 0) 7 4 = ((if getBit ins 7 then 8 else 0) |||
      ((if getBit ins 6 then 4 else 0) ||| ((if getBit ins 5 then 2 else 0) |||
        (if getBit ins 4 then 1 else 0)))) := by
  refine ⟨getBits_getBits ins (by decide) (by decide), ?_, ?_⟩
  · rw [getBits_getBits ins (by decide) (by decide), getBits_six_four]
  · rw [getBits_getBits ins (by decide) (by decide), getBits_seven_four]

/-- The shifter operand of the code: it shifts `Rm`, or the value that it takes for it where `Rm` or
`Rn` is r15, and refuses r15 in a shift by register. -/
theorem shifterOperand_eq {ins : Word} (h : ShiftForm ins) (c : Bool) (rd rn rm rs : Byte)
    (rmValue rsValue pc : Word) :
    shifterOperand (getBits ins 11 0) c rd rn rm rs rmValue rsValue pc =
      if getBit ins 4 = true ∧ (rd = 15 ∨ rm = 15 ∨ rn = 15 ∨ rs = 15) then none
      else some (shiftedValue ins
        (if getBit ins 4 = false ∧ (rm = 15 ∨ rn = 15) then pc + 4 else rmValue) rsValue c) := by
  obtain ⟨h117, h64, h74⟩ := operandCode_fields ins
  have himm : ((getBits ins 11 7).setWidth 8 : Byte).toNat = (getBits ins 11 7).toNat :=
    toNat_setWidth_getBits ins (by decide)
  have hrs : ((getBits rsValue 7 0).setWidth 8 : Byte).toNat = (getBits rsValue 7 0).toNat :=
    toNat_setWidth_getBits rsValue (by decide)
  have hlt : ((getBits ins 11 7).setWidth 8 : Byte).toNat < 32 := by
    rw [himm, toNat_getBits]
    exact Nat.mod_lt _ (by decide)
  unfold shifterOperand shiftedValue shiftKind
  rw [h117, h64, h74, getBits_pair ins 5]
  cases h4 : getBit ins 4 with
  | false =>
    simp only [Bool.false_eq_true, false_and, if_false, true_and]
    generalize (if rm = 15 ∨ rn = 15 then pc + 4 else rmValue) = x
    cases getBit ins 5 with
    | false =>
      cases getBit ins 6 with
      | false => exact congrArg some ((lslImmediate_eq c x hlt).trans (by rw [himm]; rfl))
      | true =>
        cases getBit ins 7 with
        | false => exact congrArg some ((asrImmediate_eq c x hlt).trans (by rw [himm]; rfl))
        | true => exact congrArg some ((asrImmediate_eq c x hlt).trans (by rw [himm]; rfl))
    | true =>
      cases getBit ins 6 with
      | false =>
        cases getBit ins 7 with
        | false => exact congrArg some ((lsrImmediate_eq c x hlt).trans (by rw [himm]; rfl))
        | true => exact congrArg some ((lsrImmediate_eq c x hlt).trans (by rw [himm]; rfl))
      | true =>
        cases getBit ins 7 with
        | false => exact congrArg some ((rorImmediate_eq c x hlt).trans (by rw [himm]; rfl))
        | true => exact congrArg some ((rorImmediate_eq c x hlt).trans (by rw [himm]; rfl))
  | true =>
    have h7 : getBit ins 7 = false := Bool.eq_false_iff.2 fun h7 => h ⟨h4, h7⟩
    rw [h7]
    simp only [true_and, Bool.true_eq_false, false_and, if_false]
    by_cases h15 : rd = 15 ∨ rm = 15 ∨ rn = 15 ∨ rs = 15
    · simp only [h15, if_true]
      cases getBit ins 5 <;> cases getBit ins 6 <;> rfl
    · simp only [h15, if_false]
      cases getBit ins 5 with
      | false =>
        cases getBit ins 6 with
        | false => exact congrArg some ((lslRegister_eq c rmValue).trans (by rw [hrs]; rfl))
        | true => exact congrArg some ((asrRegister_eq c rmValue).trans (by rw [hrs]; rfl))
      | true =>
        cases getBit ins 6 with
        | false => exact congrArg some ((lsrRegister_eq c rmValue).trans (by rw [hrs]; rfl))
        | true => exact congrArg some (rorRegister_eq c rmValue rsValue)

/-- Words that are no shift are refused. -/
theorem shifterOperand_eq_none {ins : Word} (h : ¬ ShiftForm ins) (c : Bool) (rd rn rm rs : Byte)
    (rmValue rsValue pc : Word) :
    shifterOperand (getBits ins 11 0) c rd rn rm rs rmValue rsValue pc = none := by
  obtain ⟨h4, h7⟩ := not_not.1 h
  obtain ⟨-, h64, h74⟩ := operandCode_fields ins
  unfold shifterOperand
  rw [h64, h74, h4, h7]
  cases getBit ins 5 <;> cases getBit ins 6 <;> rfl

/-- `arm_data_processing_shift` runs `data_processing` on its operand. -/
theorem armDataProcessingShift_run (p : ArmCore) (ins : Word) :
    (armDataProcessingShift ins).run p =
      (shiftedOperand ins p).elim (some (undefinedInstruction, p)) fun operand =>
        (dataProcessing (getBit ins sIndex) (opcodeField ins) (rdField ins) (p.read (rnField ins))
          operand.1 operand.2).run p := by
  unfold armDataProcessingShift
  rw [Prog.run_bind_of (run_armReadCpsr p), Prog.run_bind_of (run_armReadRegister p _),
    Prog.run_bind_of (run_armReadRegister p _), Prog.run_bind_of (run_armReadRegister p _),
    Prog.run_bind_of (run_armReadRegister p _)]
  cases h : shiftedOperand ins p with
  | none =>
    unfold shiftedOperand at h
    simp only [h]
    rfl
  | some operand =>
    unfold shiftedOperand at h
    simp only [h]
    rfl

/-- A data processing instruction with a shifted operand runs its arithmetic on that operand. -/
theorem run_armDataProcessingShift {p : ArmCore} {ins : Word} {operand : Word × Bool}
    (h : shiftedOperand ins p = some operand) :
    (armDataProcessingShift ins).run p =
      (dataProcessing (getBit ins sIndex) (opcodeField ins) (rdField ins) (p.read (rnField ins))
        operand.1 operand.2).run p := by
  rw [armDataProcessingShift_run, h]
  rfl

/-- **The shifter operand.** Where no operand is r15, `arm_data_processing_shift` passes on the
value and the carry-out of the shift that the instruction asks for. -/
theorem armDataProcessingShift_shifts (p : ArmCore) {ins : Word} (h : ShiftForm ins)
    (hrm : rmField ins ≠ 15) (hrn : rnField ins ≠ 15)
    (hreg : getBit ins 4 = true → rdField ins ≠ 15 ∧ rsField ins ≠ 15) :
    let operand := shiftedValue ins (p.read (rmField ins)) (p.read (rsField ins))
      (getBit p.reg.cpsr Flag.C)
    shiftedOperand ins p = some operand ∧
      (armDataProcessingShift ins).run p =
        (dataProcessing (getBit ins sIndex) (opcodeField ins) (rdField ins) (p.read (rnField ins))
          operand.1 operand.2).run p := by
  intro operand
  have hoperand : shiftedOperand ins p = some operand := by
    have hpc : ¬ (getBit ins 4 = true ∧ (rdField ins = 15 ∨ rmField ins = 15 ∨
        rnField ins = 15 ∨ rsField ins = 15)) := by
      rintro ⟨h4, hrd | hm | hn | hrs⟩
      · exact (hreg h4).1 hrd
      · exact hrm hm
      · exact hrn hn
      · exact (hreg h4).2 hrs
    have hr : ¬ (getBit ins 4 = false ∧ (rmField ins = 15 ∨ rnField ins = 15)) := by
      rintro ⟨-, hm | hn⟩
      · exact hrm hm
      · exact hrn hn
    rw [shiftedOperand, shifterOperand_eq h, if_neg hpc, if_neg hr]
  exact ⟨hoperand, run_armDataProcessingShift hoperand⟩

/-- `MOVS r0, r1, ROR r2` with an amount of 36 rotates by 4. -/
theorem armDataProcessingShift_shifts_rotation :
    let p := ((ArmCore.initial 0x10 ⟨fun _ => 0, 4⟩).write 1 0x12345678).write 2 36
    shiftedOperand 0xE1B00271 p = some (0x81234567, true) ∧
      (armDataProcessingShift 0xE1B00271).run p =
        (dataProcessing true Opcode.MOV 0 0 0x81234567 true).run p := by
  intro p
  have hvalue : shiftedValue 0xE1B00271 (p.read (rmField 0xE1B00271))
      (p.read (rsField 0xE1B00271)) (getBit p.reg.cpsr Flag.C) = (0x81234567, true) := by
    decide
  have hform : ShiftForm 0xE1B00271 := by decide
  have h := armDataProcessingShift_shifts p hform (by decide) (by decide) (by decide)
  rw [hvalue] at h
  exact h

/-! ## The PC as an operand -/

/-- The opcode of an instruction is one of the sixteen. -/
theorem opcodeField_mem (ins : Word) : opcodeField ins ∈ opcodes := by
  have hall : ∀ n < 16, BitVec.ofNat 8 n ∈ opcodes := by decide
  have hle : (opcodeField ins).toNat ≤ 15 := getBits_le ins 21
  have hmem := hall (opcodeField ins).toNat (Nat.lt_succ_of_le hle)
  rwa [BitVec.ofNat_toNat, BitVec.setWidth_eq] at hmem

/-- The carry that the code adds for ADC: the flag where the operands overflow as signed numbers,
and else the one that it has just computed. -/
def addedCarry (a b : Int) (c : Bool) : Bool :=
  if Overflows (a + b) then c else b < 0 ∨ (c = true ∧ a + b = 2 ^ 31 - 1)

/-- The carry whose complement the code subtracts for SBC. -/
def subtractedCarry (a b : Int) (c : Bool) : Bool :=
  if Overflows (a - b) then c else b < 0 ∨ (c = false ∧ a - b = -2 ^ 31)

/-- What the code makes of the operand `x` is what the architecture makes of `y`, for an opcode that
writes `Rd`. The sums and differences with a carry compare `x` with the carry of the code to `y`
with the flag. -/
def SameResult (opcode : Byte) (rn x y : Word) (c : Bool) : Prop :=
  if opcode = Opcode.AND ∨ opcode = Opcode.BIC then rn &&& x = rn &&& y
  else if opcode = Opcode.ORR then rn ||| x = rn ||| y
  else if opcode = Opcode.ADC then
    x + flagWord (addedCarry rn.toInt x.toInt c) = y + flagWord c
  else if opcode = Opcode.SBC then
    x + flagWord (!subtractedCarry rn.toInt x.toInt c) = y + flagWord !c
  else if opcode = Opcode.RSC then
    x - flagWord (!subtractedCarry x.toInt rn.toInt c) = y - flagWord !c
  else x = y

/-- The value that the architecture gives an opcode that writes `Rd`. -/
def architectureResult (opcode : Byte) (rn operand : Word) (c : Bool) : Word :=
  if opcode = Opcode.ADC ∨ opcode = Opcode.SBC ∨ opcode = Opcode.RSC then
    chainedValue opcode rn operand c
  else referenceResult opcode rn operand

section
variable (a b : Word) (c carryOut v : Bool)

/-- `ADC` computes the sum with the carry of its own first addition. -/
theorem adc_result_added : (opcodeResult Opcode.ADC a b carryOut c v).result =
    a + b + flagWord (addedCarry a.toInt b.toInt c) := by
  rw [adc_result, addedCarry]
  split_ifs with h
  · rfl
  · exact congrArg (fun f => a + b + flagWord f) (Bool.eq_iff_iff.2
      ((adc_cBit a b c carryOut v).trans ((or_iff_right h).trans decide_eq_true_iff.symm)))

/-- `SBC` computes the difference with the borrow of its own first subtraction. -/
theorem sbc_result_subtracted : (opcodeResult Opcode.SBC a b carryOut c v).result =
    a - b - flagWord (!subtractedCarry a.toInt b.toInt c) := by
  rw [sbc_result, subtractedCarry]
  split_ifs with h
  · rfl
  · exact congrArg (fun f => a - b - flagWord !f) (Bool.eq_iff_iff.2
      ((sbc_cBit a b c carryOut v).trans ((or_iff_right h).trans decide_eq_true_iff.symm)))

end

/-- Only the bits of `a` matter in `a &&& ~~~x`. -/
theorem and_not_eq_iff (a x y : Word) : a &&& ~~~x = a &&& ~~~y ↔ a &&& x = a &&& y := by
  have hxor : ∀ z, a &&& ~~~z = a ^^^ (a &&& z) := by
    intro z
    apply BitVec.eq_of_getLsbD_eq
    intro i hi
    rw [BitVec.getLsbD_xor, BitVec.getLsbD_and, BitVec.getLsbD_and, BitVec.getLsbD_not,
      decide_eq_true hi, Bool.true_and]
    cases a.getLsbD i with
    | false => rfl
    | true => simp
  rw [hxor, hxor, BitVec.xor_right_inj]

/-- The result of the code for `x` is that of the architecture for `y` where the two are the same
for the opcode. -/
theorem opcodeResult_result_eq_iff {opcode : Byte} (hmem : opcode ∈ opcodes)
    (h : opcode ∉ comparisons) (rn x y : Word) (carryOut c v : Bool) :
    (opcodeResult opcode rn x carryOut c v).result = architectureResult opcode rn y c ↔
      SameResult opcode rn x y c := by
  -- without a carry operand the code computes what the architecture says
  have hplain : ∀ {opcode}, opcode ∈ logicalOpcodes ++ carryOpcodes →
      architectureResult opcode rn y c = (opcodeResult opcode rn y carryOut c v).result := by
    intro opcode hopcode
    have hnot : ∀ o ∈ logicalOpcodes ++ carryOpcodes,
        ¬ (o = Opcode.ADC ∨ o = Opcode.SBC ∨ o = Opcode.RSC) := by decide
    rw [architectureResult, if_neg (hnot opcode hopcode),
      opcodeResult_result rn y carryOut c v hopcode]
  have hadded : architectureResult Opcode.ADC rn y c = rn + y + flagWord c := ofInt_sum rn y c
  have hsubtracted : architectureResult Opcode.SBC rn y c = rn - y - flagWord !c :=
    ofInt_difference rn y c
  have hreversed : architectureResult Opcode.RSC rn y c = y - rn - flagWord !c :=
    ofInt_difference y rn c
  simp only [opcodes, List.mem_cons, List.not_mem_nil, or_false] at hmem
  rcases hmem with rfl | rfl | rfl | rfl | rfl | rfl | rfl | rfl | rfl | rfl | rfl | rfl | rfl |
    rfl | rfl | rfl
  · rw [hplain (by decide)]
    exact Iff.rfl
  · rw [hplain (by decide)]
    exact BitVec.xor_right_inj rn
  · rw [hplain (by decide)]
    exact BitVec.sub_right_inj rn
  · rw [hplain (by decide)]
    exact BitVec.sub_left_inj rn
  · rw [hplain (by decide)]
    exact BitVec.add_right_inj rn
  · rw [adc_result_added, hadded, BitVec.add_assoc, BitVec.add_assoc, BitVec.add_right_inj]
    rfl
  · rw [sbc_result_subtracted, hsubtracted, BitVec.sub_sub, BitVec.sub_sub, BitVec.sub_right_inj]
    rfl
  · have hresult : (opcodeResult Opcode.RSC rn x carryOut c v).result =
        x - rn - flagWord (!subtractedCarry x.toInt rn.toInt c) :=
      sbc_result_subtracted x rn c carryOut v
    have hcomm : ∀ z b : Word, z - rn - b = z - b - rn := fun z b => by
      rw [BitVec.sub_sub, BitVec.add_comm, ← BitVec.sub_sub]
    rw [hresult, hreversed, hcomm, hcomm, BitVec.sub_left_inj]
    rfl
  · exact absurd (by decide) h
  · exact absurd (by decide) h
  · exact absurd (by decide) h
  · exact absurd (by decide) h
  · rw [hplain (by decide)]
    exact Iff.rfl
  · rw [hplain (by decide)]
    exact Iff.rfl
  · rw [hplain (by decide)]
    exact and_not_eq_iff rn x y
  · rw [hplain (by decide)]
    exact BitVec.not_inj

/-- What an instruction with an immediate amount shifts a value to. -/
def shiftedByImmediate (ins x : Word) (c : Bool) : Word :=
  (immediateShift (shiftKind ins) x (getBits ins 11 7).toNat c).1

/-- The result that the architecture gives the instruction at the PC, each operand register
contributing its own value. -/
def operandResult (ins : Word) (p : ArmCore) : Word :=
  let c := getBit p.reg.cpsr Flag.C
  architectureResult (opcodeField ins) (p.operand (rnField ins))
    (shiftedByImmediate ins (p.operand (rmField ins)) c) c

/-- An opcode that writes `Rd` has written that result. -/
def OperandsCorrect (ins : Word) (p p' : ArmCore) : Prop :=
  opcodeField ins ∉ comparisons →
    p'.reg.genreg = (p.fetched.write (rdField ins) (operandResult ins p)).reg.genreg

/-- The instruction writes no register, or what the code makes of the address plus 12 in the place
of `Rm` is the result. -/
def OperandsAgree (ins : Word) (p : ArmCore) : Prop :=
  let c := getBit p.reg.cpsr Flag.C
  opcodeField ins ∈ comparisons ∨ slot (rdField ins) p.mode = none ∨
    SameResult (opcodeField ins) (p.operand (rnField ins)) (shiftedByImmediate ins (p.pc + 12) c)
      (shiftedByImmediate ins (p.operand (rmField ins)) c) c

/-- With an immediate amount and r15 as `Rn` or `Rm` the code shifts the address plus 12 in either
case. -/
theorem shiftedOperand_pc {p : ArmCore} (hp : Aligned p.pc) {ins : Word}
    (h4 : getBit ins 4 = false) (h15 : rnField ins = 15 ∨ rmField ins = 15) :
    shiftedOperand ins p.fetched = some (immediateShift (shiftKind ins) (p.pc + 12)
      (getBits ins 11 7).toNat (getBit p.reg.cpsr Flag.C)) := by
  have hform : ShiftForm ins := fun h => Bool.false_ne_true (h4.symm.trans h.1)
  have hnot : ¬ getBit ins 4 = true := fun h => Bool.false_ne_true (h4.symm.trans h)
  have hpc : p.fetched.read 15 + 4 = p.pc + 12 := by
    rw [ArmCore.fetched_read hp, ArmCore.operand, if_pos rfl, BitVec.add_assoc]
    rfl
  rw [shiftedOperand, shifterOperand_eq hform, if_neg fun h => hnot h.1, if_pos ⟨h4, h15.symm⟩, hpc,
    shiftedValue, if_neg hnot, ArmCore.fetched_cpsr]

/-- **The PC as an operand.** An instruction with an immediate amount and r15 as `Rn` or `Rm` writes
the result of its own operands if and only if the address plus 12 gives the same result. -/
theorem armDataProcessingShift_pc_iff {p : ArmCore} (hp : Aligned p.pc) {ins : Word}
    (h4 : getBit ins 4 = false) (h15 : rnField ins = 15 ∨ rmField ins = 15) :
    ∃ code p', (armDataProcessingShift ins).run p.fetched = some (code, p') ∧
      (OperandsCorrect ins p p' ↔ OperandsAgree ins p) := by
  let c := getBit p.reg.cpsr Flag.C
  let v := getBit p.reg.cpsr Flag.V
  let operand := immediateShift (shiftKind ins) (p.pc + 12) (getBits ins 11 7).toNat c
  have hoperand : shiftedOperand ins p.fetched = some operand := shiftedOperand_pc hp h4 h15
  obtain ⟨code, p', hrun, hgenreg⟩ := dataProcessing_genreg p.fetched (getBit ins sIndex)
    (opcodeField ins) (rdField ins) (p.fetched.read (rnField ins)) operand.1 operand.2
  refine ⟨code, p', (run_armDataProcessingShift hoperand).trans hrun, ?_⟩
  rw [ArmCore.fetched_read hp, ArmCore.fetched_cpsr] at hgenreg
  by_cases hopcode : opcodeField ins ∈ comparisons
  · exact iff_of_true (fun h => absurd hopcode h) (.inl hopcode)
  rw [ArmCore.writeIf_of ((opcodeResult_changeRd _ _ _ _ _ _).2 hopcode)] at hgenreg
  rw [OperandsCorrect, OperandsAgree, imp_iff_right hopcode, hgenreg, ArmCore.write, ArmCore.write,
    registersWrite_genreg_inj, ArmCore.fetched_mode, or_iff_right hopcode, operandResult,
    opcodeResult_result_eq_iff (opcodeField_mem ins) hopcode]
  rfl

/-- A processor whose memory is the instruction, at address 0. -/
def atZero (ins : Word) : ArmCore := .initial 0x10 (.ofWords [ins])

/-- `MOV r0, pc, LSR #4` there: 8 and 12 are both shifted to 0. -/
theorem armDataProcessingShift_pc_agrees :
    ∃ code p', (armDataProcessingShift 0xE1A0022F).run (atZero 0xE1A0022F).fetched =
        some (code, p') ∧
      OperandsCorrect 0xE1A0022F (atZero 0xE1A0022F) p' := by
  have hp : Aligned (atZero 0xE1A0022F).pc := by decide
  have h4 : getBit (0xE1A0022F : Word) 4 = false := by decide
  obtain ⟨code, p', hrun, hiff⟩ := armDataProcessingShift_pc_iff hp h4 (.inr (by decide))
  have hsame : shiftedByImmediate 0xE1A0022F ((atZero 0xE1A0022F).pc + 12) false =
      shiftedByImmediate 0xE1A0022F ((atZero 0xE1A0022F).operand 15) false := by
    decide
  exact ⟨code, p', hrun, hiff.2 (.inr (.inr hsame))⟩

/-- `MOV r0, pc` there leaves 12 in r0, not 8. -/
theorem armDataProcessingShift_pc_fails :
    ∃ p', (armDataProcessingShift 0xE1A0000F).run (atZero 0xE1A0000F).fetched =
        some (successfullyDecoded, p') ∧
      registersRead p'.reg 0 USR = 12 ∧ operandResult 0xE1A0000F (atZero 0xE1A0000F) = 8 ∧
      ¬ OperandsCorrect 0xE1A0000F (atZero 0xE1A0000F) p' := by
  refine ⟨_, rfl, by decide, by decide, fun h => ?_⟩
  exact absurd (congrFun (h (by decide)) 0) (by decide)

end ArmSimulator
