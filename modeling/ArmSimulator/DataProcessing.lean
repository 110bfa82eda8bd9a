import ArmSimulator.Core

/-!
# `arm_data_processing.c`: data processing instructions and `MSR` immediate

`dataProcessing` computes the result and the flags of an opcode, writes the result to `Rd` and
then the flags to CPSR, or the SPSR to CPSR when `Rd` is the PC. Its `switch` over the opcode is
`opcodeResult`; the shifter operand, which `arm_data_processing_shift` computes in one chain of
conditionals, is `shifterOperand`, with a definition for each of its branches.
-/

namespace ArmSimulator

/-- The bit numbers `S` and `R` of an instruction. -/
abbrev sIndex : Nat := 20
abbrev rIndex : Nat := 22

namespace Opcode

@[match_pattern] abbrev AND : Byte := 0
@[match_pattern] abbrev EOR : Byte := 1
@[match_pattern] abbrev SUB : Byte := 2
@[match_pattern] abbrev RSB : Byte := 3
@[match_pattern] abbrev ADD : Byte := 4
@[match_pattern] abbrev ADC : Byte := 5
@[match_pattern] abbrev SBC : Byte := 6
@[match_pattern] abbrev RSC : Byte := 7
@[match_pattern] abbrev TST : Byte := 8
@[match_pattern] abbrev TEQ : Byte := 9
@[match_pattern] abbrev CMP : Byte := 10
@[match_pattern] abbrev CMN : Byte := 11
@[match_pattern] abbrev ORR : Byte := 12
@[match_pattern] abbrev MOV : Byte := 13
@[match_pattern] abbrev BIC : Byte := 14
@[match_pattern] abbrev MVN : Byte := 15

end Opcode

/-! ## Sums and differences

The four functions take `int32_t` operands; they return the flag and what they store in
`*result`, the wrapped sum or difference.
-/

/-- `add_carry`. -/
def addCarry (a b : Word) : Bool × Word := (a.saddOverflow b || (a + b).slt a, a + b)

/-- `add_overflow`. -/
def addOverflow (a b : Word) : Bool × Word := (a.saddOverflow b, a + b)

/-- `sub_carry`. -/
def subCarry (a b : Word) : Bool × Word := (a.ssubOverflow b || a.slt (a - b), a - b)

/-- `sub_overflow`. -/
def subOverflow (a b : Word) : Bool × Word := (a.ssubOverflow b, a - b)

/-- A flag as an `int`. -/
def flagWord (b : Bool) : Word := (BitVec.ofBool b).setWidth 32

/-! ## The result of an opcode -/

/-- The locals that the `switch (opcode)` of `data_processing` sets. -/
structure OpcodeResult where
  result : Word
  cBit : Bool
  vBit : Bool
  changeRd : Bool

/-- `f(a, b, &tmp) || g(tmp, c, &result)`, where the second call is made, and writes `result`, only
if the first flag is clear. -/
def chain (f : Word → Word → Bool × Word) (a b c result : Word) : Bool × Word :=
  let (first, tmp) := f a b
  if first then (true, result) else f tmp c

/-- The `switch (opcode)` of `data_processing`, from the carry and overflow flags before. In ADC,
SBC and RSC the carry of the overflow chain is the new one. -/
def opcodeResult (opcode : Byte) (rnValue shifterOperand : Word)
    (shifterCarryOut cBit vBit : Bool) : OpcodeResult :=
  match opcode with
  | Opcode.AND => ⟨rnValue &&& shifterOperand, shifterCarryOut, vBit, true⟩
  | Opcode.EOR => ⟨rnValue ^^^ shifterOperand, shifterCarryOut, vBit, true⟩
  | Opcode.SUB =>
    let (cBit, _) := subCarry rnValue shifterOperand
    let (vBit, result) := subOverflow rnValue shifterOperand
    ⟨result, cBit, vBit, true⟩
  | Opcode.RSB =>
    let (cBit, _) := subCarry shifterOperand rnValue
    let (vBit, result) := subOverflow shifterOperand rnValue
    ⟨result, cBit, vBit, true⟩
  | Opcode.ADD =>
    let (cBit, _) := addCarry rnValue shifterOperand
    let (vBit, result) := addOverflow rnValue shifterOperand
    ⟨result, cBit, vBit, true⟩
  | Opcode.ADC =>
    let tmp := rnValue + shifterOperand
    let result := tmp + flagWord cBit
    let (cBit, result) := chain addCarry rnValue shifterOperand (flagWord cBit) result
    let (vBit, result) := chain addOverflow rnValue shifterOperand (flagWord cBit) result
    ⟨result, cBit, vBit, true⟩
  | Opcode.SBC =>
    let tmp := rnValue - shifterOperand
    let result := tmp - flagWord (!cBit)
    let (cBit, result) := chain subCarry rnValue shifterOperand (flagWord (!cBit)) result
    let (vBit, result) := chain subOverflow rnValue shifterOperand (flagWord (!cBit)) result
    ⟨result, cBit, vBit, true⟩
  | Opcode.RSC =>
    let tmp := shifterOperand - rnValue
    let result := tmp - flagWord (!cBit)
    let (cBit, result) := chain subCarry shifterOperand rnValue (flagWord (!cBit)) result
    let (vBit, result) := chain subOverflow shifterOperand rnValue (flagWord (!cBit)) result
    ⟨result, cBit, vBit, true⟩
  | Opcode.TST => ⟨rnValue &&& shifterOperand, shifterCarryOut, vBit, false⟩
  | Opcode.TEQ => ⟨rnValue ^^^ shifterOperand, shifterCarryOut, vBit, false⟩
  | Opcode.CMP =>
    let (cBit, _) := subCarry rnValue shifterOperand
    let (vBit, result) := subOverflow rnValue shifterOperand
    ⟨result, cBit, vBit, false⟩
  | Opcode.CMN =>
    let (cBit, _) := addCarry rnValue shifterOperand
    let (vBit, result) := addOverflow rnValue shifterOperand
    ⟨result, cBit, vBit, false⟩
  | Opcode.ORR => ⟨rnValue ||| shifterOperand, shifterCarryOut, vBit, true⟩
  | Opcode.MOV => ⟨shifterOperand, shifterCarryOut, vBit, true⟩
  | Opcode.BIC => ⟨rnValue &&& ~~~shifterOperand, shifterCarryOut, vBit, true⟩
  | _ => ⟨~~~shifterOperand, shifterCarryOut, vBit, true⟩

/-- `new_CPSR`: the current CPSR with the four flags replaced. -/
def newCpsr (currentCpsr : Word) (nBit zBit cBit vBit : Bool) : Word :=
  (currentCpsr &&& 0x0FFFFFFF) ||| (flagWord nBit <<< Flag.N) ||| (flagWord zBit <<< Flag.Z) |||
    (flagWord cBit <<< Flag.C) ||| (flagWord vBit <<< Flag.V)

/-- The new CPSR differs from the current one in the flags only. -/
theorem newCpsr_and (c : Word) (nBit zBit cBit vBit : Bool) :
    newCpsr c nBit zBit cBit vBit &&& 0x0FFFFFFF = c &&& 0x0FFFFFFF := by
  have h : ∀ (b : Bool) (i : Nat), i ∈ [28, 29, 30, 31] →
      (flagWord b <<< i) &&& (0x0FFFFFFF : Word) = 0 := by decide
  unfold newCpsr
  simp only [BitVec.and_or_distrib_right, BitVec.and_assoc, BitVec.and_self]
  rw [h nBit _ (by decide), h zBit _ (by decide), h cBit _ (by decide), h vBit _ (by decide)]
  simp

/-- `data_processing`. -/
def dataProcessing (sBit : Bool) (opcode rd : Byte) (rnValue shifterOperand : Word)
    (shifterCarryOut : Bool) : ArmM Byte := do
  let currentCpsr ← armReadCpsr
  let r := opcodeResult opcode rnValue shifterOperand shifterCarryOut
    (getBit currentCpsr Flag.C) (getBit currentCpsr Flag.V)
  Prog.when r.changeRd (armWriteRegister rd r.result)
  if sBit = true ∧ rd = 15 then
    let hasSpsr ← armCurrentModeHasSpsr
    if hasSpsr then
      let spsr ← armReadSpsr
      armWriteCpsr spsr
      return successfullyDecoded
    else
      return undefinedInstruction
  else if sBit then
    armWriteCpsr (newCpsr currentCpsr (getBit r.result 31) (r.result == 0) r.cBit r.vBit)
    return successfullyDecoded
  else
    return successfullyDecoded

/-! ## The shifter operand

Each branch gives the operand and the carry-out. A shift amount is `shift_imm` or the low byte of
`Rs`.
-/

/-- LSL by immediate. -/
def lslImmediate (cBit : Bool) (rmValue : Word) (shiftImm : Byte) : Word × Bool :=
  if shiftImm = 0 then (rmValue, cBit)
  else (rmValue <<< shiftImm.toNat, getBit rmValue (32 - shiftImm.toNat))

/-- LSL by register. -/
def lslRegister (cBit : Bool) (rmValue : Word) (rsValueLB : Byte) : Word × Bool :=
  if rsValueLB = 0 then (rmValue, cBit)
  else if rsValueLB < 32 then
    (rmValue <<< rsValueLB.toNat, getBit rmValue (32 - rsValueLB.toNat))
  else if rsValueLB = 32 then (0, getBit rmValue 0)
  else (0, false)

/-- LSR by immediate. -/
def lsrImmediate (rmValue : Word) (shiftImm : Byte) : Word × Bool :=
  if shiftImm = 0 then (0, getBit rmValue 31)
  else (rmValue >>> shiftImm.toNat, getBit rmValue (shiftImm.toNat - 1))

/-- LSR by register. -/
def lsrRegister (cBit : Bool) (rmValue : Word) (rsValueLB : Byte) : Word × Bool :=
  if rsValueLB = 0 then (rmValue, cBit)
  else if rsValueLB < 32 then
    (rmValue >>> rsValueLB.toNat, getBit rmValue (rsValueLB.toNat - 1))
  else if rsValueLB = 32 then (0, getBit rmValue 31)
  else (0, false)

/-- ASR by 32 or more: every bit is the sign. -/
def asrSign (rmValue : Word) : Word × Bool :=
  if getBit rmValue 31 = false then (0, false) else (0xFFFFFFFF, true)

/-- ASR by immediate. -/
def asrImmediate (rmValue : Word) (shiftImm : Byte) : Word × Bool :=
  if shiftImm = 0 then asrSign rmValue
  else (asr rmValue shiftImm, getBit rmValue (shiftImm.toNat - 1))

/-- ASR by register. -/
def asrRegister (cBit : Bool) (rmValue : Word) (rsValueLB : Byte) : Word × Bool :=
  if rsValueLB = 0 then (rmValue, cBit)
  else if rsValueLB < 32 then
    (asr rmValue rsValueLB, getBit rmValue (rsValueLB.toNat - 1))
  else asrSign rmValue

/-- ROR by immediate; by 0 it is the rotation through the carry. -/
def rorImmediate (cBit : Bool) (rmValue : Word) (shiftImm : Byte) : Word × Bool :=
  if shiftImm = 0 then ((flagWord cBit <<< 31) ||| (rmValue >>> 1), getBit rmValue 0)
  else (ror rmValue shiftImm, getBit rmValue (shiftImm.toNat - 1))

/-- ROR by register. -/
def rorRegister (cBit : Bool) (rmValue rsValue : Word) (rsValueLB : Byte) : Word × Bool :=
  let amount := getBits rsValue 4 0
  if rsValueLB = 0 then (rmValue, cBit)
  else if amount = 0 then (rmValue, getBit rmValue 31)
  else (ror rmValue (amount.setWidth 8), getBit rmValue (amount.toNat - 1))

/-- The shifter operand of `arm_data_processing_shift`, by the bits 11:0 of the instruction; `none`
is the return of `UNDEFINED_INSTRUCTION`. `pc` is the value that r15 reads as: where `Rm` or `Rn` is
r15, a shift by immediate takes it plus 4 for `Rm`, and a shift by register is refused. -/
def shifterOperand (code : Word) (cBit : Bool) (rd rn rm rs : Byte) (rmValue rsValue pc : Word) :
    Option (Word × Bool) :=
  let shiftImm : Byte := (getBits code 11 7).setWidth 8
  let rsValueLB : Byte := (getBits rsValue 7 0).setWidth 8
  let rmImmediate := if rm = 15 ∨ rn = 15 then pc + 4 else rmValue
  let byRegister (operand : Word × Bool) : Option (Word × Bool) :=
    if rd = 15 ∨ rm = 15 ∨ rn = 15 ∨ rs = 15 then none else some operand
  if getBits code 6 4 = 0b000 then some (lslImmediate cBit rmImmediate shiftImm)
  else if getBits code 7 4 = 0b0001 then byRegister (lslRegister cBit rmValue rsValueLB)
  else if getBits code 6 4 = 0b010 then some (lsrImmediate rmImmediate shiftImm)
  else if getBits code 7 4 = 0b0011 then byRegister (lsrRegister cBit rmValue rsValueLB)
  else if getBits code 6 4 = 0b100 then some (asrImmediate rmImmediate shiftImm)
  else if getBits code 7 4 = 0b0101 then byRegister (asrRegister cBit rmValue rsValueLB)
  else if getBits code 6 4 = 0b110 then some (rorImmediate cBit rmImmediate shiftImm)
  else if getBits code 7 4 = 0b0111 then byRegister (rorRegister cBit rmValue rsValue rsValueLB)
  else none

/-! ## The decoding functions -/

/-- `arm_data_processing_shift`. -/
def armDataProcessingShift (ins : Word) : ArmM Byte := do
  let cpsr ← armReadCpsr
  let cBit := getBit cpsr Flag.C
  let sBit := getBit ins sIndex
  let opcode : Byte := (getBits ins 24 21).setWidth 8
  let rn : Byte := (getBits ins 19 16).setWidth 8
  let rnValue ← armReadRegister rn
  let rd : Byte := (getBits ins 15 12).setWidth 8
  let shifterOperandCode := getBits ins 11 0
  let rm : Byte := (getBits ins 3 0).setWidth 8
  let rmValue ← armReadRegister rm
  let rs : Byte := (getBits ins 11 8).setWidth 8
  let rsValue ← armReadRegister rs
  let pc ← armReadRegister 15
  match shifterOperand shifterOperandCode cBit rd rn rm rs rmValue rsValue pc with
  | none => return undefinedInstruction
  | some (operand, carryOut) => dataProcessing sBit opcode rd rnValue operand carryOut

/-- `arm_data_processing_immediate`. -/
def armDataProcessingImmediate (ins : Word) : ArmM Byte := do
  let cpsr ← armReadCpsr
  let cBit := getBit cpsr Flag.C
  let sBit := getBit ins sIndex
  let opcode : Byte := (getBits ins 24 21).setWidth 8
  let rn : Byte := (getBits ins 19 16).setWidth 8
  let rnValue ← armReadRegister rn
  let rd : Byte := (getBits ins 15 12).setWidth 8
  let rotateImm : Byte := (getBits ins 11 8).setWidth 8
  let immedByte := getBits ins 7 0
  let operand := ror immedByte (rotateImm * 2)
  let carryOut := if rotateImm = 0 then cBit else getBit operand 31
  dataProcessing sBit opcode rd rnValue operand carryOut

/-- The byte mask that the four bits of `field_mask` select. -/
def byteMask (fieldMask : Byte) : Word :=
  (if getBit fieldMask 0 then 0x000000FF else 0) ||| (if getBit fieldMask 1 then 0x0000FF00 else 0)
    ||| (if getBit fieldMask 2 then 0x00FF0000 else 0)
    ||| (if getBit fieldMask 3 then 0xFF000000 else 0)

/-- The mask of `MSR` for CPSR selects flags and mode bits 3:0 only. -/
theorem msrMask_and (fieldMask : Byte) :
    (byteMask fieldMask &&& (userMask ||| privMask)) &&& 0x0FFFFFF0 = 0#32 := by
  rw [BitVec.and_assoc]
  have h : ((userMask ||| privMask) &&& 0x0FFFFFF0 : Word) = 0#32 := by decide
  rw [h, BitVec.and_zero]

/-- The mask for a mode which is not privileged selects flags only. -/
theorem msrUserMask_and (fieldMask : Byte) :
    (byteMask fieldMask &&& userMask) &&& 0x0FFFFFFF = 0#32 := by
  rw [BitVec.and_assoc]
  have h : (userMask &&& 0x0FFFFFFF : Word) = 0#32 := by decide
  rw [h, BitVec.and_zero]

/-- `arm_msr_immediate`. -/
def armMsrImmediate (ins : Word) : ArmM Byte := do
  let rBit := getBit ins rIndex
  let fieldMask : Byte := (getBits ins 19 16).setWidth 8
  let rotateImm : Byte := (getBits ins 11 8).setWidth 8
  let immedByte := getBits ins 7 0
  let operand := ror immedByte (rotateImm * 2)
  if operand &&& unallocMask ≠ 0 then
    return undefinedInstruction
  else if rBit = false then
    let privileged ← armInAPrivilegedMode
    if privileged ≠ 0 then
      if operand &&& stateMask ≠ 0 then
        return undefinedInstruction
      else
        let mask := byteMask fieldMask &&& (userMask ||| privMask)
        let cpsr ← armReadCpsr
        armWriteCpsr ((cpsr &&& ~~~mask) ||| (operand &&& mask))
        return successfullyDecoded
    else
      let mask := byteMask fieldMask &&& userMask
      let cpsr ← armReadCpsr
      armWriteCpsr ((cpsr &&& ~~~mask) ||| (operand &&& mask))
      return successfullyDecoded
  else
    let hasSpsr ← armCurrentModeHasSpsr
    if hasSpsr then
      let mask := byteMask fieldMask &&& (userMask ||| privMask ||| stateMask)
      let spsr ← armReadSpsr
      armWriteSpsr ((spsr &&& ~~~mask) ||| (operand &&& mask))
      return successfullyDecoded
    else
      return undefinedInstruction

/-- `arm_data_processing_immediate_msr`. -/
def armDataProcessingImmediateMsr (ins : Word) : ArmM Byte :=
  if getBits ins 24 23 = 0b10 ∧ getBits ins 21 20 = 0b10 then armMsrImmediate ins
  else armDataProcessingImmediate ins

/-! ## What `data_processing` leaves -/

/-- With `Rd` other than the PC or `S = 0`, `data_processing` writes the result to `Rd`, unless the
opcode only compares, and with `S = 1` the flags. -/
theorem run_dataProcessing (p : ArmCore) {sBit : Bool} (opcode : Byte) {rd : Byte}
    (h : ¬ (sBit = true ∧ rd = 15)) (rnValue operand : Word) (carryOut : Bool) :
    (dataProcessing sBit opcode rd rnValue operand carryOut).run p = some (successfullyDecoded,
      let r := opcodeResult opcode rnValue operand carryOut (getBit p.reg.cpsr Flag.C)
        (getBit p.reg.cpsr Flag.V)
      let q := p.writeIf r.changeRd rd r.result
      if sBit then
        q.writeCpsr (newCpsr p.reg.cpsr (getBit r.result 31) (r.result == 0) r.cBit r.vBit)
      else q) := by
  unfold dataProcessing
  rw [Prog.run_bind_of (run_armReadCpsr p), Prog.run_bind_of (run_when_armWriteRegister p _ rd _),
    if_neg h]
  cases sBit with
  | false => rfl
  | true => rfl

/-- The flags are written with `S = 1` only, and nothing else is. -/
theorem ArmCore.writeFlags_frame (q : ArmCore) (flags : Word) (sBit : Bool) :
    let p' := if sBit then q.writeCpsr flags else q
    p'.reg.genreg = q.reg.genreg ∧ p'.reg.rstat = q.reg.rstat ∧ p'.mem = q.mem ∧
      p'.reg.cpsr = if sBit then flags else q.reg.cpsr := by
  cases sBit with
  | false => exact ⟨rfl, rfl, rfl, rfl⟩
  | true => exact ⟨rfl, rfl, rfl, rfl⟩

/-- With `S = 1`, `data_processing` ends with the flags of the result. -/
theorem run_dataProcessing_flags (p : ArmCore) (opcode : Byte) {rd : Byte} (hrd : rd ≠ 15)
    (rnValue operand : Word) (carryOut : Bool) :
    ∃ p', (dataProcessing true opcode rd rnValue operand carryOut).run p =
        some (successfullyDecoded, p') ∧
      let r := opcodeResult opcode rnValue operand carryOut (getBit p.reg.cpsr Flag.C)
        (getBit p.reg.cpsr Flag.V)
      p'.reg.cpsr = newCpsr p.reg.cpsr (getBit r.result 31) (r.result == 0) r.cBit r.vBit :=
  ⟨_, run_dataProcessing p opcode (fun h => hrd h.2) rnValue operand carryOut, rfl⟩

/-- With `S = 1` and the PC as `Rd`, `data_processing` writes the result to the PC. Where there is
no SPSR it returns UNDEFINED_INSTRUCTION, and where there is one the query for it has made the
restore one of CPSR from itself. -/
theorem run_dataProcessing_pc (p : ArmCore) (opcode : Byte) (rnValue operand : Word)
    (carryOut : Bool) :
    let r := opcodeResult opcode rnValue operand carryOut (getBit p.reg.cpsr Flag.C)
      (getBit p.reg.cpsr Flag.V)
    (dataProcessing true opcode 15 rnValue operand carryOut).run p =
      some (if (rstatInd p.mode).isSome then successfullyDecoded else undefinedInstruction,
        (p.writeIf r.changeRd 15 r.result).queried) := by
  intro r
  have hfst : (registersCurrentModeHasSpsr (p.writeIf r.changeRd 15 r.result).reg).1 =
      (rstatInd p.mode).isSome :=
    (registersCurrentModeHasSpsr_fst _).trans
      (congrArg (fun mode => (rstatInd mode).isSome) (p.writeIf_mode _ _ _))
  unfold dataProcessing
  rw [Prog.run_bind_of (run_armReadCpsr p),
    Prog.run_bind_of (run_when_armWriteRegister p r.changeRd 15 r.result), if_pos ⟨rfl, rfl⟩,
    Prog.run_bind_of (run_armCurrentModeHasSpsr _), ← hfst]
  generalize p.writeIf r.changeRd 15 r.result = q
  by_cases h : (registersCurrentModeHasSpsr q.reg).1 = true
  · rw [if_pos h, if_pos h, Prog.run_bind_of (run_armReadSpsr _),
      Prog.run_bind_of (run_armWriteCpsr _ _)]
    exact congrArg (fun s => some (successfullyDecoded, s)) (q.queried_restore h)
  · rw [if_neg h, if_neg h]
    rfl

/-- In both cases the general registers are left with the result. -/
theorem dataProcessing_genreg (p : ArmCore) (sBit : Bool) (opcode rd : Byte)
    (rnValue operand : Word) (carryOut : Bool) :
    let r := opcodeResult opcode rnValue operand carryOut (getBit p.reg.cpsr Flag.C)
      (getBit p.reg.cpsr Flag.V)
    ∃ code p', (dataProcessing sBit opcode rd rnValue operand carryOut).run p = some (code, p') ∧
      p'.reg.genreg = (p.writeIf r.changeRd rd r.result).reg.genreg := by
  intro r
  by_cases h : sBit = true ∧ rd = 15
  · obtain ⟨rfl, rfl⟩ := h
    exact ⟨_, _, run_dataProcessing_pc p opcode rnValue operand carryOut,
      registersCurrentModeHasSpsr_genreg _⟩
  · exact ⟨_, _, run_dataProcessing p opcode h rnValue operand carryOut,
      (ArmCore.writeFlags_frame _ _ sBit).1⟩

end ArmSimulator
