import ArmSimulator.Lib.Arith
import ArmSimulator.Lib.Fault
import ArmSimulator.Shifter

/-!
# The arithmetic of the ALU

The functions of `arm_data_processing.c` once more, in the namespace `Alu`, with the arithmetic of
C: a shift by an amount outside 0 to 31, or a sum or difference of `int`s that is none, is
undefined. Where it is defined, they do what the functions of the model do (`Refines`). It is not
for an immediate byte that is not rotated, for which `ror` shifts to the left by 32, and in ADC, SBC
and RSC, which add the carry to an `int` outside the overflow builtins (`definedArithmetic_iff`).
-/

namespace ArmSimulator

open Arith BarrelShifter Fallible

namespace Alu

/-! ## Bits and shifts -/

/-- `get_bit(x, i)`. -/
def getBit (x : Word) (i : Int) : Checked Bool := do
  let y ← shr x i
  return y &&& 1#32 != 0#32

/-- `get_bits(x, h, l)`. -/
def getBits (x : Word) (h l : Nat) : Checked Word := do
  let field ← shr x l
  let low ← shr (BitVec.allOnes 32) (h - l + 1 : Nat)
  let mask ← shl low (h - l + 1 : Nat)
  return field &&& ~~~mask

/-- A difference of `int`s. -/
def intSub (a b : Int) : Checked Int := ssub 32 a b

/-- A sum of `int`s. -/
def intAdd (a b : Int) : Checked Int := sadd 32 a b

/-- `asr`. -/
def asr (value : Word) (shift : Byte) : Checked Word := do
  let low ← shr value shift.toNat
  let sign ← getBit value 31
  if sign then
    let amount ← intSub 32 shift.toNat
    let high ← shl (BitVec.allOnes 32) amount
    return low ||| high
  else
    return low ||| 0

/-- `ror`. -/
def ror (value : Word) (rotation : Byte) : Checked Word := do
  let low ← shr value rotation.toNat
  let amount ← intSub 32 rotation.toNat
  let high ← shl value amount
  return low ||| high

/-! ## The shifter operand -/

/-- LSL by immediate. -/
def lslImmediate (cBit : Bool) (rmValue : Word) (shiftImm : Byte) : Checked (Word × Bool) := do
  if shiftImm = 0 then
    return (rmValue, cBit)
  else
    let operand ← shl rmValue shiftImm.toNat
    let amount ← intSub 32 shiftImm.toNat
    let carryOut ← getBit rmValue amount
    return (operand, carryOut)

/-- LSL by register. -/
def lslRegister (cBit : Bool) (rmValue : Word) (rsValueLB : Byte) : Checked (Word × Bool) := do
  if rsValueLB = 0 then
    return (rmValue, cBit)
  else if rsValueLB < 32 then
    let operand ← shl rmValue rsValueLB.toNat
    let amount ← intSub 32 rsValueLB.toNat
    let carryOut ← getBit rmValue amount
    return (operand, carryOut)
  else if rsValueLB = 32 then
    let carryOut ← getBit rmValue 0
    return (0, carryOut)
  else
    return (0, false)

/-- LSR by immediate. -/
def lsrImmediate (rmValue : Word) (shiftImm : Byte) : Checked (Word × Bool) := do
  if shiftImm = 0 then
    let carryOut ← getBit rmValue 31
    return (0, carryOut)
  else
    let operand ← shr rmValue shiftImm.toNat
    let amount ← intSub shiftImm.toNat 1
    let carryOut ← getBit rmValue amount
    return (operand, carryOut)

/-- LSR by register. -/
def lsrRegister (cBit : Bool) (rmValue : Word) (rsValueLB : Byte) : Checked (Word × Bool) := do
  if rsValueLB = 0 then
    return (rmValue, cBit)
  else if rsValueLB < 32 then
    let operand ← shr rmValue rsValueLB.toNat
    let amount ← intSub rsValueLB.toNat 1
    let carryOut ← getBit rmValue amount
    return (operand, carryOut)
  else if rsValueLB = 32 then
    let carryOut ← getBit rmValue 31
    return (0, carryOut)
  else
    return (0, false)

/-- ASR by 32 or more. -/
def asrSign (rmValue : Word) : Checked (Word × Bool) := do
  let sign ← getBit rmValue 31
  if sign = false then return (0, false) else return (0xFFFFFFFF, true)

/-- ASR by immediate. -/
def asrImmediate (rmValue : Word) (shiftImm : Byte) : Checked (Word × Bool) := do
  if shiftImm = 0 then
    asrSign rmValue
  else
    let operand ← asr rmValue shiftImm
    let amount ← intSub shiftImm.toNat 1
    let carryOut ← getBit rmValue amount
    return (operand, carryOut)

/-- ASR by register. -/
def asrRegister (cBit : Bool) (rmValue : Word) (rsValueLB : Byte) : Checked (Word × Bool) := do
  if rsValueLB = 0 then
    return (rmValue, cBit)
  else if rsValueLB < 32 then
    let operand ← asr rmValue rsValueLB
    let amount ← intSub rsValueLB.toNat 1
    let carryOut ← getBit rmValue amount
    return (operand, carryOut)
  else
    asrSign rmValue

/-- ROR by immediate. -/
def rorImmediate (cBit : Bool) (rmValue : Word) (shiftImm : Byte) : Checked (Word × Bool) := do
  if shiftImm = 0 then
    let high ← shl (flagWord cBit) 31
    let low ← shr rmValue 1
    let carryOut ← getBit rmValue 0
    return (high ||| low, carryOut)
  else
    let operand ← ror rmValue shiftImm
    let amount ← intSub shiftImm.toNat 1
    let carryOut ← getBit rmValue amount
    return (operand, carryOut)

/-- ROR by register; the amount of the carry-out is an unsigned difference. -/
def rorRegister (cBit : Bool) (rmValue rsValue : Word) (rsValueLB : Byte) :
    Checked (Word × Bool) := do
  if rsValueLB = 0 then
    return (rmValue, cBit)
  else
    let amount ← getBits rsValue 4 0
    if amount = 0 then
      let carryOut ← getBit rmValue 31
      return (rmValue, carryOut)
    else
      let operand ← ror rmValue (amount.setWidth 8)
      let carryOut ← getBit rmValue (amount - 1).toNat
      return (operand, carryOut)

/-- The chain of conditionals of `arm_data_processing_shift`; `none` is the return of
`UNDEFINED_INSTRUCTION`. -/
def shifterOperand (code : Word) (cBit : Bool) (rd rn rm rs shiftImm : Byte)
    (rmValue rsValue : Word) (rsValueLB : Byte) (pc : Word) : Checked (Option (Word × Bool)) := do
  let rmImmediate := if rm = 15 ∨ rn = 15 then pc + 4 else rmValue
  let byRegister (operand : Checked (Word × Bool)) : Checked (Option (Word × Bool)) :=
    if rd = 15 ∨ rm = 15 ∨ rn = 15 ∨ rs = 15 then return none else some <$> operand
  if (← getBits code 6 4) = 0b000 then
    some <$> lslImmediate cBit rmImmediate shiftImm
  else if (← getBits code 7 4) = 0b0001 then
    byRegister (lslRegister cBit rmValue rsValueLB)
  else if (← getBits code 6 4) = 0b010 then
    some <$> lsrImmediate rmImmediate shiftImm
  else if (← getBits code 7 4) = 0b0011 then
    byRegister (lsrRegister cBit rmValue rsValueLB)
  else if (← getBits code 6 4) = 0b100 then
    some <$> asrImmediate rmImmediate shiftImm
  else if (← getBits code 7 4) = 0b0101 then
    byRegister (asrRegister cBit rmValue rsValueLB)
  else if (← getBits code 6 4) = 0b110 then
    some <$> rorImmediate cBit rmImmediate shiftImm
  else if (← getBits code 7 4) = 0b0111 then
    byRegister (rorRegister cBit rmValue rsValue rsValueLB)
  else
    return none

/-! ## The opcodes -/

/-- The `switch (opcode)` of `data_processing`. The sum or difference of the operands is unsigned
and stored in an `int`, to which ADC adds the carry, and from which SBC and RSC subtract its
complement; the other opcodes have no arithmetic outside the overflow builtins. -/
def opcodeResult (opcode : Byte) (rnValue shifterOperand : Word)
    (shifterCarryOut cBit vBit : Bool) : Checked OpcodeResult :=
  match opcode with
  | Opcode.ADC => do
    let tmp := rnValue + shifterOperand
    let result ← intAdd tmp.toInt cBit.toNat
    let (cBit, result) :=
      chain addCarry rnValue shifterOperand (flagWord cBit) (BitVec.ofInt 32 result)
    let (vBit, result) := chain addOverflow rnValue shifterOperand (flagWord cBit) result
    return ⟨result, cBit, vBit, true⟩
  | Opcode.SBC => do
    let tmp := rnValue - shifterOperand
    let result ← intSub tmp.toInt (!cBit).toNat
    let (cBit, result) :=
      chain subCarry rnValue shifterOperand (flagWord (!cBit)) (BitVec.ofInt 32 result)
    let (vBit, result) := chain subOverflow rnValue shifterOperand (flagWord (!cBit)) result
    return ⟨result, cBit, vBit, true⟩
  | Opcode.RSC => do
    let tmp := shifterOperand - rnValue
    let result ← intSub tmp.toInt (!cBit).toNat
    let (cBit, result) :=
      chain subCarry shifterOperand rnValue (flagWord (!cBit)) (BitVec.ofInt 32 result)
    let (vBit, result) := chain subOverflow shifterOperand rnValue (flagWord (!cBit)) result
    return ⟨result, cBit, vBit, true⟩
  | opcode =>
    return ArmSimulator.opcodeResult opcode rnValue shifterOperand shifterCarryOut cBit vBit

/-- `new_CPSR`. -/
def newCpsr (currentCpsr : Word) (nBit zBit cBit vBit : Bool) : Checked Word := do
  let n ← shl (flagWord nBit) Flag.N
  let z ← shl (flagWord zBit) Flag.Z
  let c ← shl (flagWord cBit) Flag.C
  let v ← shl (flagWord vBit) Flag.V
  return (currentCpsr &&& 0x0FFFFFFF) ||| n ||| z ||| c ||| v

/-! ## The functions -/

end Alu

/-- How a function of the ALU can stop. -/
inductive AluFault where
  /-- Its arithmetic is undefined. -/
  | undefined (operation : Undefined)
  /-- A function that it calls does not return. -/
  | aborted

/-- A function of the ALU. -/
abbrev AluM (α : Type) := Fallible AluFault ArmCore α

namespace Alu

/-- An arithmetic computation. -/
def compute {α : Type} (m : Checked α) : AluM α := fun p =>
  match m with
  | .ok a => .ok (a, p)
  | .error operation => .error (.undefined operation)

/-- The call of a function. -/
def call {α : Type} (m : ArmM α) : AluM α := ofProg .aborted m

/-- `data_processing`. -/
def dataProcessing (sBit : Bool) (opcode rd : Byte) (rnValue shifterOperand : Word)
    (shifterCarryOut : Bool) : AluM Byte := do
  let currentCpsr ← call armReadCpsr
  let _ ← compute (getBit currentCpsr Flag.N)
  let _ ← compute (getBit currentCpsr Flag.Z)
  let cBit ← compute (getBit currentCpsr Flag.C)
  let vBit ← compute (getBit currentCpsr Flag.V)
  let r ← compute (opcodeResult opcode rnValue shifterOperand shifterCarryOut cBit vBit)
  let nBit ← compute (getBit r.result 31)
  call (Prog.when r.changeRd (armWriteRegister rd r.result))
  if sBit = true ∧ rd = 15 then
    let hasSpsr ← call armCurrentModeHasSpsr
    if hasSpsr then
      let spsr ← call armReadSpsr
      call (armWriteCpsr spsr)
      return successfullyDecoded
    else
      return undefinedInstruction
  else if sBit then
    let cpsr ← compute (newCpsr currentCpsr nBit (r.result == 0) r.cBit r.vBit)
    call (armWriteCpsr cpsr)
    return successfullyDecoded
  else
    return successfullyDecoded

/-- A field of at most eight bits. -/
def field (x : Word) (h l : Nat) : AluM Byte := do
  let value ← compute (getBits x h l)
  return value.setWidth 8

/-- `arm_data_processing_shift`. -/
def armDataProcessingShift (ins : Word) : AluM Byte := do
  let cpsr ← call armReadCpsr
  let cBit ← compute (getBit cpsr Flag.C)
  let sBit ← compute (getBit ins sIndex)
  let opcode ← field ins 24 21
  let rn ← field ins 19 16
  let rnValue ← call (armReadRegister rn)
  let rd ← field ins 15 12
  let shifterOperandCode ← compute (getBits ins 11 0)
  let shiftImm ← field ins 11 7
  let rm ← field ins 3 0
  let rmValue ← call (armReadRegister rm)
  let rs ← field ins 11 8
  let rsValue ← call (armReadRegister rs)
  let rsValueLB ← field rsValue 7 0
  let pc ← call (armReadRegister 15)
  let operand ← compute
    (shifterOperand shifterOperandCode cBit rd rn rm rs shiftImm rmValue rsValue rsValueLB pc)
  match operand with
  | none => return undefinedInstruction
  | some (operand, carryOut) => dataProcessing sBit opcode rd rnValue operand carryOut

/-- `arm_data_processing_immediate`. -/
def armDataProcessingImmediate (ins : Word) : AluM Byte := do
  let cpsr ← call armReadCpsr
  let cBit ← compute (getBit cpsr Flag.C)
  let sBit ← compute (getBit ins sIndex)
  let opcode ← field ins 24 21
  let rn ← field ins 19 16
  let rnValue ← call (armReadRegister rn)
  let rd ← field ins 15 12
  let rotateImm ← field ins 11 8
  let immedByte ← compute (getBits ins 7 0)
  let operand ← compute (ror immedByte (rotateImm * 2))
  if rotateImm = 0 then
    dataProcessing sBit opcode rd rnValue operand cBit
  else
    let carryOut ← compute (getBit operand 31)
    dataProcessing sBit opcode rd rnValue operand carryOut

/-- The byte mask that `field_mask` selects; its bits are those of an `int`. -/
def byteMask (fieldMask : Byte) : Checked Word := do
  let b0 ← getBit (fieldMask.setWidth 32) 0
  let b1 ← getBit (fieldMask.setWidth 32) 1
  let b2 ← getBit (fieldMask.setWidth 32) 2
  let b3 ← getBit (fieldMask.setWidth 32) 3
  return (if b0 then 0x000000FF else 0) ||| (if b1 then 0x0000FF00 else 0)
    ||| (if b2 then 0x00FF0000 else 0) ||| (if b3 then 0xFF000000 else 0)

/-- `arm_msr_immediate`. -/
def armMsrImmediate (ins : Word) : AluM Byte := do
  let rBit ← compute (getBit ins rIndex)
  let fieldMask ← field ins 19 16
  let rotateImm ← field ins 11 8
  let immedByte ← compute (getBits ins 7 0)
  let operand ← compute (ror immedByte (rotateImm * 2))
  if operand &&& unallocMask ≠ 0 then
    return undefinedInstruction
  else
    let mask ← compute (byteMask fieldMask)
    if rBit = false then
      let privileged ← call armInAPrivilegedMode
      if privileged ≠ 0 then
        if operand &&& stateMask ≠ 0 then
          return undefinedInstruction
        else
          let mask := mask &&& (userMask ||| privMask)
          let cpsr ← call armReadCpsr
          call (armWriteCpsr ((cpsr &&& ~~~mask) ||| (operand &&& mask)))
          return successfullyDecoded
      else
        let mask := mask &&& userMask
        let cpsr ← call armReadCpsr
        call (armWriteCpsr ((cpsr &&& ~~~mask) ||| (operand &&& mask)))
        return successfullyDecoded
    else
      let hasSpsr ← call armCurrentModeHasSpsr
      if hasSpsr then
        let mask := mask &&& (userMask ||| privMask ||| stateMask)
        let spsr ← call armReadSpsr
        call (armWriteSpsr ((spsr &&& ~~~mask) ||| (operand &&& mask)))
        return successfullyDecoded
      else
        return undefinedInstruction

/-! ## Where the shifts are defined -/

section
variable (x : Word) {n : Byte}

/-- `get_bit` is defined for a bit of the word. -/
theorem getBit_ok {i : Nat} (hi : i < 32) : getBit x i = .ok (ArmSimulator.getBit x i) := by
  rw [getBit, shr_natCast x hi]
  rfl

/-- A field other than the whole word is defined. -/
theorem getBits_ok {h l : Nat} (hl : l < 32) (hlen : h - l + 1 < 32) :
    getBits x h l = .ok (ArmSimulator.getBits x h l) := by
  rw [getBits, shr_natCast x hl, ok_bind, shr_natCast _ hlen, ok_bind, shl_natCast _ hlen]
  rfl

/-- The amount of the other part of a shift is an `int`. -/
theorem intSub_width {k : Nat} (hk : k < 32) : intSub 32 k = .ok ((32 - k : Nat) : Int) := by
  have hin : InRange 32 ((32 : Int) - k) := ⟨by omega, by omega⟩
  rw [intSub, ssub, signed_ok hin, Int.ofNat_sub (Nat.le_of_lt hk)]
  rfl

/-- An amount less 1 is an `int`. -/
theorem intSub_one {k : Nat} (h0 : k ≠ 0) (hk : k < 32) :
    intSub k 1 = .ok ((k - 1 : Nat) : Int) := by
  have hin : InRange 32 ((k : Int) - 1) := ⟨by omega, by omega⟩
  rw [intSub, ssub, signed_ok hin, Int.ofNat_sub (Nat.one_le_iff_ne_zero.2 h0)]
  rfl

/-- `asr` is defined for an amount that is not 0. -/
theorem asr_ok (h0 : n.toNat ≠ 0) (hn : n.toNat < 32) :
    asr x n = .ok (ArmSimulator.asr x n) := by
  have hsign : getBit x 31 = .ok (ArmSimulator.getBit x 31) := getBit_ok x (by decide)
  rw [asr, ArmSimulator.asr, shr_natCast x hn, ok_bind, hsign, ok_bind]
  split_ifs
  · rw [intSub_width hn, ok_bind, shl_natCast _ (by omega)]
    rfl
  · rfl

/-- `ror` is defined for an amount that is not 0. -/
theorem ror_ok (h0 : n.toNat ≠ 0) (hn : n.toNat < 32) :
    ror x n = .ok (ArmSimulator.ror x n) := by
  rw [ror, shr_natCast x hn, ok_bind, intSub_width hn, ok_bind, shl_natCast x (by omega)]
  rfl

/-- For the amount 0, `ror` shifts to the left by 32, which is undefined. -/
theorem ror_zero : ror x 0 = .error (.shift 32) := rfl

/-! ## Where the shifter operand is defined -/

variable (c : Bool)

/-- The carry-out of a shift to the left is defined. -/
theorem leftCarry_bind (h0 : n.toNat ≠ 0) (hn : n.toNat < 32) {α : Type} (f : Bool → Checked α) :
    (intSub 32 n.toNat >>= fun amount => getBit x amount >>= f) =
      f (ArmSimulator.getBit x (32 - n.toNat)) := by
  rw [intSub_width hn, ok_bind, getBit_ok x (by omega), ok_bind]

/-- The carry-out of a shift to the right is defined. -/
theorem rightCarry_bind (h0 : n.toNat ≠ 0) (hn : n.toNat < 32) {α : Type} (f : Bool → Checked α) :
    (intSub n.toNat 1 >>= fun amount => getBit x amount >>= f) =
      f (ArmSimulator.getBit x (n.toNat - 1)) := by
  rw [intSub_one h0 hn, ok_bind, getBit_ok x (by omega), ok_bind]

/-- `lsl` by an immediate amount is defined. -/
theorem lslImmediate_ok (hn : n.toNat < 32) :
    lslImmediate c x n = .ok (ArmSimulator.lslImmediate c x n) := by
  unfold lslImmediate ArmSimulator.lslImmediate
  split_ifs with h0
  · rfl
  · rw [shl_natCast x hn, ok_bind, leftCarry_bind x (toNat_ne_zero h0) hn]
    rfl

/-- `lsl` by a register is defined, whatever the amount. -/
theorem lslRegister_ok : lslRegister c x n = .ok (ArmSimulator.lslRegister c x n) := by
  unfold lslRegister ArmSimulator.lslRegister
  split_ifs with h0 hn
  · rfl
  · rw [shl_natCast x hn, ok_bind, leftCarry_bind x (toNat_ne_zero h0) hn]
    rfl
  · rfl
  · rfl

/-- `lsr` by an immediate amount is defined. -/
theorem lsrImmediate_ok (hn : n.toNat < 32) :
    lsrImmediate x n = .ok (ArmSimulator.lsrImmediate x n) := by
  unfold lsrImmediate ArmSimulator.lsrImmediate
  split_ifs with h0
  · rfl
  · rw [shr_natCast x hn, ok_bind, rightCarry_bind x (toNat_ne_zero h0) hn]
    rfl

/-- `lsr` by a register is defined, whatever the amount. -/
theorem lsrRegister_ok : lsrRegister c x n = .ok (ArmSimulator.lsrRegister c x n) := by
  unfold lsrRegister ArmSimulator.lsrRegister
  split_ifs with h0 hn
  · rfl
  · rw [shr_natCast x hn, ok_bind, rightCarry_bind x (toNat_ne_zero h0) hn]
    rfl
  · rfl
  · rfl

/-- The sign that `asr` fills with is defined. -/
theorem asrSign_ok : asrSign x = .ok (ArmSimulator.asrSign x) := by
  unfold asrSign ArmSimulator.asrSign
  exact (apply_ite Except.ok _ _ _).symm

/-- `asr` by an immediate amount is defined. -/
theorem asrImmediate_ok (hn : n.toNat < 32) :
    asrImmediate x n = .ok (ArmSimulator.asrImmediate x n) := by
  unfold asrImmediate ArmSimulator.asrImmediate
  split_ifs with h0
  · exact asrSign_ok x
  · have hpos := toNat_ne_zero h0
    rw [asr_ok x hpos hn, ok_bind, rightCarry_bind x hpos hn]
    rfl

/-- `asr` by a register is defined, whatever the amount. -/
theorem asrRegister_ok : asrRegister c x n = .ok (ArmSimulator.asrRegister c x n) := by
  unfold asrRegister ArmSimulator.asrRegister
  split_ifs with h0 hn
  · rfl
  · have hpos := toNat_ne_zero h0
    rw [asr_ok x hpos hn, ok_bind, rightCarry_bind x hpos hn]
    rfl
  · exact asrSign_ok x

/-- `ror` by an immediate amount is defined, since the amount 0 is another shift. -/
theorem rorImmediate_ok (hn : n.toNat < 32) :
    rorImmediate c x n = .ok (ArmSimulator.rorImmediate c x n) := by
  unfold rorImmediate ArmSimulator.rorImmediate
  split_ifs with h0
  · rfl
  · have hpos := toNat_ne_zero h0
    rw [ror_ok x hpos hn, ok_bind, rightCarry_bind x hpos hn]
    rfl

/-- `ror` by a register is defined, whatever the amount. -/
theorem rorRegister_ok (rsValue : Word) :
    rorRegister c x rsValue n = .ok (ArmSimulator.rorRegister c x rsValue n) := by
  unfold rorRegister ArmSimulator.rorRegister
  have hfield : getBits rsValue 4 0 = .ok (ArmSimulator.getBits rsValue 4 0) :=
    getBits_ok rsValue (by decide) (by decide)
  have hlt : (ArmSimulator.getBits rsValue 4 0).toNat < 32 := by
    rw [toNat_getBits]
    exact Nat.mod_lt _ (by decide)
  have hbyte : ((ArmSimulator.getBits rsValue 4 0).setWidth 8 : Byte).toNat =
      (ArmSimulator.getBits rsValue 4 0).toNat := toNat_setWidth_getBits rsValue (by decide)
  rw [hfield, ok_bind]
  dsimp only
  generalize ArmSimulator.getBits rsValue 4 0 = amount at hlt hbyte
  split_ifs with h0 hzero
  · rfl
  · rfl
  · have hpos : amount.toNat ≠ 0 := fun he => hzero (BitVec.eq_of_toNat_eq he)
    have hpred : (amount - 1).toNat = amount.toNat - 1 := by
      rw [BitVec.toNat_sub_of_le]
      · rfl
      · exact Nat.one_le_iff_ne_zero.2 hpos
    rw [ror_ok x (hbyte ▸ hpos) (hbyte ▸ hlt), ok_bind, hpred, getBit_ok x (by omega)]
    rfl

end

/-- The shifter operand is defined for all shifts. -/
theorem shifterOperand_ok {ins : Word} (c : Bool) (rd rn rm rs : Byte) (rmValue rsValue pc : Word) :
    shifterOperand (ArmSimulator.getBits ins 11 0) c rd rn rm rs
      ((ArmSimulator.getBits ins 11 7).setWidth 8) rmValue rsValue
      ((ArmSimulator.getBits rsValue 7 0).setWidth 8) pc =
      .ok (ArmSimulator.shifterOperand (ArmSimulator.getBits ins 11 0) c rd rn rm rs rmValue rsValue
        pc) := by
  have himm : ((ArmSimulator.getBits ins 11 7).setWidth 8 : Byte).toNat < 32 := by
    rw [toNat_setWidth_getBits ins (by decide), toNat_getBits]
    exact Nat.mod_lt _ (by decide)
  obtain ⟨h117, -, -⟩ := operandCode_fields ins
  have h64 : ∀ code, getBits code 6 4 = .ok (ArmSimulator.getBits code 6 4) :=
    fun code => getBits_ok code (by decide) (by decide)
  have h74 : ∀ code, getBits code 7 4 = .ok (ArmSimulator.getBits code 7 4) :=
    fun code => getBits_ok code (by decide) (by decide)
  have hmap : ∀ operand : Word × Bool,
      some <$> (.ok operand : Checked (Word × Bool)) = .ok (some operand) := fun _ => rfl
  have hpure : (pure none : Checked (Option (Word × Bool))) = .ok none := rfl
  unfold shifterOperand ArmSimulator.shifterOperand
  simp only [h64, h74, ok_bind, h117, lslImmediate_ok _ _ himm, lslRegister_ok,
    lsrImmediate_ok _ himm, lsrRegister_ok, asrImmediate_ok _ himm, asrRegister_ok,
    rorImmediate_ok _ _ himm, rorRegister_ok, hmap, hpure, ← apply_ite Except.ok]

end Alu

/-! ## Where the opcodes are defined -/

/-- The `int` to which ADC adds the carry is not the greatest one, or the carry is clear; and the
`int` from which SBC and RSC subtract the complement of the carry is not the least one, or the carry
is set. -/
structure SumFits (opcode : Byte) (rnValue operand : Word) (c : Bool) : Prop where
  adc : opcode = Opcode.ADC → c = true → rnValue + operand ≠ 0x7FFFFFFF
  sbc : opcode = Opcode.SBC → c = false → rnValue - operand ≠ 0x80000000
  rsc : opcode = Opcode.RSC → c = false → operand - rnValue ≠ 0x80000000

namespace Alu

section
variable (x : Word) (c : Bool)

/-- A word and a carry fit in an `int` unless the word is the greatest and the carry set. -/
theorem inRange_add : InRange 32 (x.toInt + c.toNat) ↔ (c = true → x ≠ 0x7FFFFFFF) := by
  have hmax : x = 0x7FFFFFFF ↔ x.toInt = 2 ^ 31 - 1 := (BitVec.toInt_inj (y := 0x7FFFFFFF)).symm
  have hlt := BitVec.toInt_lt (x := x)
  have hle := BitVec.le_toInt (x := x)
  rw [Ne, hmax, InRange]
  cases c with
  | false => simp; omega
  | true => simp; omega

/-- A word less a borrow fits in an `int` unless the word is the least and the borrow made. -/
theorem inRange_sub : InRange 32 (x.toInt - (!c).toNat) ↔ (c = false → x ≠ 0x80000000) := by
  have hmin : x = 0x80000000 ↔ x.toInt = -2 ^ 31 := (BitVec.toInt_inj (y := 0x80000000)).symm
  have hlt := BitVec.toInt_lt (x := x)
  have hle := BitVec.le_toInt (x := x)
  rw [Ne, hmin, InRange]
  cases c with
  | false => simp; omega
  | true => simp; omega

/-- The `int` that is stored is the word of the model. -/
theorem ofInt_add : BitVec.ofInt 32 (x.toInt + c.toNat) = x + flagWord c := by
  rw [BitVec.ofInt_add, BitVec.ofInt_toInt]
  cases c with
  | false => rfl
  | true => rfl

/-- A difference that fits is that of the words. -/
theorem ofInt_sub : BitVec.ofInt 32 (x.toInt - c.toNat) = x - flagWord c := by
  rw [Int.sub_eq_add_neg, BitVec.ofInt_add, BitVec.ofInt_toInt, BitVec.sub_eq_add_neg]
  cases c with
  | false => rfl
  | true => rfl

end

section
variable {opcode : Byte} {rnValue operand : Word} {c : Bool}

/-- The sum of `ADC` fits if the addition of the carry does. -/
theorem inRange_adc :
    InRange 32 ((rnValue + operand).toInt + c.toNat) ↔ SumFits Opcode.ADC rnValue operand c := by
  rw [inRange_add]
  constructor
  · intro h
    exact ⟨fun _ => h, fun he => absurd he (by decide), fun he => absurd he (by decide)⟩
  · intro h
    exact h.adc rfl

/-- The difference of `SBC` fits if the subtraction of the borrow does. -/
theorem inRange_sbc :
    InRange 32 ((rnValue - operand).toInt - (!c).toNat) ↔ SumFits Opcode.SBC rnValue operand c := by
  rw [inRange_sub]
  constructor
  · intro h
    exact ⟨fun he => absurd he (by decide), fun _ => h, fun he => absurd he (by decide)⟩
  · intro h
    exact h.sbc rfl

/-- The difference of `RSC` fits if the subtraction of the borrow does. -/
theorem inRange_rsc :
    InRange 32 ((operand - rnValue).toInt - (!c).toNat) ↔ SumFits Opcode.RSC rnValue operand c := by
  rw [inRange_sub]
  constructor
  · intro h
    exact ⟨fun he => absurd he (by decide), fun he => absurd he (by decide), fun _ => h⟩
  · intro h
    exact h.rsc rfl

/-- Where the sums fit, the opcode computes as the plain model. -/
theorem opcodeResult_ok (h : SumFits opcode rnValue operand c) (carryOut v : Bool) :
    opcodeResult opcode rnValue operand carryOut c v =
      .ok (ArmSimulator.opcodeResult opcode rnValue operand carryOut c v) := by
  unfold opcodeResult
  split
  · dsimp only
    rw [intAdd, sadd, signed_ok (inRange_adc.2 h), ok_bind, ofInt_add]
    rfl
  · dsimp only
    rw [intSub, ssub, signed_ok (inRange_sbc.2 h), ok_bind, ofInt_sub]
    rfl
  · dsimp only
    rw [intSub, ssub, signed_ok (inRange_rsc.2 h), ok_bind, ofInt_sub]
    rfl
  · rfl

/-- Where a sum does not fit, the opcode is undefined. -/
theorem opcodeResult_error (h : ¬ SumFits opcode rnValue operand c) (carryOut v : Bool) :
    ∃ operation, opcodeResult opcode rnValue operand carryOut c v = .error operation := by
  unfold opcodeResult
  split
  · dsimp only
    rw [intAdd, sadd, signed_error (mt inRange_adc.1 h)]
    exact ⟨_, rfl⟩
  · dsimp only
    rw [intSub, ssub, signed_error (mt inRange_sbc.1 h)]
    exact ⟨_, rfl⟩
  · dsimp only
    rw [intSub, ssub, signed_error (mt inRange_rsc.1 h)]
    exact ⟨_, rfl⟩
  · -- the other opcodes have no sum
    rename_i hadc hsbc hrsc
    exact absurd ⟨fun he => absurd he hadc, fun he => absurd he hsbc, fun he => absurd he hrsc⟩ h

/-- The flags are written without undefined arithmetic. -/
theorem newCpsr_ok (cpsr : Word) (n z c v : Bool) :
    newCpsr cpsr n z c v = .ok (ArmSimulator.newCpsr cpsr n z c v) := rfl

end

/-! ## The functions that are defined -/

/-- Arithmetic that is defined is its value. -/
theorem compute_ok {α : Type} (a : α) : compute (.ok a) = pure a := rfl

/-- Arithmetic that is undefined is a fault. -/
theorem run_compute_error {α : Type} {m : Checked α} {operation : Undefined} (p : ArmCore)
    (h : m = .error operation) : (compute m).run p = .error (.undefined operation) := by
  rw [h]
  rfl

/-- Calling what returns a value returns the value. -/
theorem call_pure {α : Type} (a : α) : call (pure a) = pure a := rfl

/-- Calling one program after the other is calling both. -/
theorem call_bind {α β : Type} (m : ArmM α) (f : α → ArmM β) :
    call (m >>= f) = call m >>= fun a => call (f a) := ofProg_bind

/-- A function without arithmetic that can be undefined is called. -/
theorem run_call {α : Type} {m : ArmM α} {p p' : ArmCore} {a : α} (h : m.run p = some (a, p')) :
    (call m).run p = .ok (a, p') := run_ofProg h

/-- `get_bit` is computed for a bit of the word. -/
theorem compute_getBit (x : Word) {i : Nat} (hi : i < 32) :
    compute (getBit x i) = pure (ArmSimulator.getBit x i) := by
  rw [getBit_ok x hi, compute_ok]

/-- `get_bits` is computed for a field that is not the whole word. -/
theorem compute_getBits (x : Word) {h l : Nat} (hl : l < 32) (hlen : h - l + 1 < 32) :
    compute (getBits x h l) = pure (ArmSimulator.getBits x h l) := by
  rw [getBits_ok x hl hlen, compute_ok]

/-- A field is read as in the model. -/
theorem field_eq (x : Word) {h l : Nat} (hl : l < 32) (hlen : h - l + 1 < 32) :
    field x h l = pure ((ArmSimulator.getBits x h l).setWidth 8) := by
  rw [field, compute_getBits x hl hlen, pure_bind]

section
variable {p : ArmCore} {opcode : Byte} {rnValue operand : Word} (sBit : Bool) (rd : Byte)
  (carryOut : Bool)

/-- Where the sums fit, `data_processing` runs as the plain model. -/
theorem run_dataProcessing_ok
    (h : SumFits opcode rnValue operand (ArmSimulator.getBit p.reg.cpsr Flag.C)) :
    (dataProcessing sBit opcode rd rnValue operand carryOut).run p =
      (call (ArmSimulator.dataProcessing sBit opcode rd rnValue operand carryOut)).run p := by
  have hresult : ∀ x, compute (getBit x 31) = pure (ArmSimulator.getBit x 31) :=
    fun x => compute_getBit x (by decide)
  unfold dataProcessing ArmSimulator.dataProcessing
  rw [call_bind, run_bind_ok (run_call (run_armReadCpsr p)),
    run_bind_ok (run_call (run_armReadCpsr p))]
  simp (disch := decide) only [compute_getBit, hresult, opcodeResult_ok h, newCpsr_ok, compute_ok,
    pure_bind, call_bind, call_pure, apply_ite call]

/-- Where a sum does not fit, `data_processing` is undefined. -/
theorem run_dataProcessing_error
    (h : ¬ SumFits opcode rnValue operand (ArmSimulator.getBit p.reg.cpsr Flag.C)) :
    ∃ operation, (dataProcessing sBit opcode rd rnValue operand carryOut).run p =
      .error (.undefined operation) := by
  obtain ⟨operation, herror⟩ :=
    opcodeResult_error h carryOut (ArmSimulator.getBit p.reg.cpsr Flag.V)
  refine ⟨operation, ?_⟩
  unfold dataProcessing
  rw [run_bind_ok (run_call (run_armReadCpsr p))]
  simp (disch := decide) only [compute_getBit, pure_bind]
  exact run_bind_error (run_compute_error p herror)

end

/-- The byte of an immediate is rotated by twice its amount. -/
theorem toNat_rotation (ins : Word) :
    (((ArmSimulator.getBits ins 11 8).setWidth 8 : Byte) * 2).toNat =
      2 * (ArmSimulator.getBits ins 11 8).toNat := by
  have hlt : (ArmSimulator.getBits ins 11 8).toNat < 16 := by
    rw [toNat_getBits]
    exact Nat.mod_lt _ (by decide)
  have htwo : (2 : Byte).toNat = 2 := rfl
  rw [BitVec.toNat_mul, toNat_setWidth_getBits ins (by decide), htwo, Nat.mul_comm]
  exact Nat.mod_eq_of_lt (by omega)

/-- The rotation of an immediate is by less than 32. -/
theorem rotation_lt (ins : Word) :
    (((ArmSimulator.getBits ins 11 8).setWidth 8 : Byte) * 2).toNat < 32 := by
  rw [toNat_rotation, toNat_getBits]
  omega

/-- The rotation of an immediate is by 0 only where its field is 0. -/
theorem rotation_ne_zero {ins : Word} (h : ArmSimulator.getBits ins 11 8 ≠ 0) :
    (((ArmSimulator.getBits ins 11 8).setWidth 8 : Byte) * 2).toNat ≠ 0 := by
  have hne : (ArmSimulator.getBits ins 11 8).toNat ≠ 0 :=
    fun he => h (BitVec.eq_of_toNat_eq he)
  rw [toNat_rotation]
  omega

section
variable (p : ArmCore) (ins : Word)

/-- `arm_data_processing_shift` reads its operand as in the model. -/
theorem run_armDataProcessingShift :
    (armDataProcessingShift ins).run p =
      (shiftedOperand ins p).elim (.ok (undefinedInstruction, p)) fun operand =>
        (dataProcessing (ArmSimulator.getBit ins sIndex) (opcodeField ins) (rdField ins)
          (p.read (rnField ins)) operand.1 operand.2).run p := by
  unfold armDataProcessingShift
  rw [run_bind_ok (run_call (run_armReadCpsr p))]
  simp (disch := decide) only [compute_getBit, compute_getBits, field_eq, pure_bind]
  rw [run_bind_ok (run_call (run_armReadRegister p _)),
    run_bind_ok (run_call (run_armReadRegister p _)),
    run_bind_ok (run_call (run_armReadRegister p _)),
    run_bind_ok (run_call (run_armReadRegister p _)), shifterOperand_ok, compute_ok, pure_bind]
  have hoperand : ArmSimulator.shifterOperand (ArmSimulator.getBits ins 11 0)
      (ArmSimulator.getBit p.reg.cpsr Flag.C) (rdField ins) (rnField ins) (rmField ins)
      (rsField ins) (p.read (rmField ins)) (p.read (rsField ins)) (p.read 15) =
        shiftedOperand ins p := rfl
  rw [hoperand]
  rcases shiftedOperand ins p with _ | ⟨operand, carryOut⟩
  · rfl
  · rw [Option.elim_some]

/-- `arm_data_processing_immediate` makes a rotation by 0 where the amount of the word is 0, which
is undefined. -/
theorem run_armDataProcessingImmediate_error (h : ArmSimulator.getBits ins 11 8 = 0) :
    (armDataProcessingImmediate ins).run p = .error (.undefined (.shift 32)) := by
  unfold armDataProcessingImmediate
  rw [run_bind_ok (run_call (run_armReadCpsr p))]
  simp (disch := decide) only [compute_getBit, compute_getBits, field_eq, pure_bind]
  rw [run_bind_ok (run_call (run_armReadRegister p _)), h]
  exact run_bind_error (run_compute_error p (ror_zero _))

/-- Where the amount of the word is not 0, `arm_data_processing_immediate` computes as the plain
model. -/
theorem run_armDataProcessingImmediate (h : ArmSimulator.getBits ins 11 8 ≠ 0) :
    (armDataProcessingImmediate ins).run p =
      (dataProcessing (ArmSimulator.getBit ins sIndex) (opcodeField ins) (rdField ins)
        (p.read (rnField ins)) (immediateOperand ins p).1 (immediateOperand ins p).2).run p := by
  have hsign : ∀ x, compute (getBit x 31) = pure (ArmSimulator.getBit x 31) :=
    fun x => compute_getBit x (by decide)
  have hrotate : ¬ ((ArmSimulator.getBits ins 11 8).setWidth 8 : Byte) = 0 := by
    intro he
    refine rotation_ne_zero h ?_
    rw [he]
    rfl
  unfold armDataProcessingImmediate immediateOperand
  rw [run_bind_ok (run_call (run_armReadCpsr p))]
  simp (disch := decide) only [compute_getBit, compute_getBits, field_eq, pure_bind]
  rw [run_bind_ok (run_call (run_armReadRegister p _)), ror_ok _ (rotation_ne_zero h)
    (rotation_lt ins), compute_ok, pure_bind, if_neg hrotate, hsign, pure_bind, if_neg hrotate]

/-- `arm_msr_immediate` makes the same rotation. -/
theorem run_armMsrImmediate_error (h : ArmSimulator.getBits ins 11 8 = 0) :
    (armMsrImmediate ins).run p = .error (.undefined (.shift 32)) := by
  unfold armMsrImmediate
  simp (disch := decide) only [compute_getBit, compute_getBits, field_eq, pure_bind]
  rw [h]
  exact run_bind_error (run_compute_error p (ror_zero _))

/-- A byte is promoted to a word. -/
theorem getBit_byte (x : Byte) {i : Nat} (hi : i < 8) :
    getBit (x.setWidth 32) i = .ok (ArmSimulator.getBit x i) := by
  have hword : i < 32 := by omega
  rw [getBit_ok _ hword, getBit_eq_getLsbD, getBit_eq_getLsbD, BitVec.getLsbD_setWidth,
    decide_eq_true hword, Bool.true_and]

/-- The mask of `MSR` is made without undefined arithmetic. -/
theorem byteMask_ok (fieldMask : Byte) :
    byteMask fieldMask = .ok (ArmSimulator.byteMask fieldMask) := by
  have h0 : getBit (fieldMask.setWidth 32) 0 = .ok (ArmSimulator.getBit fieldMask 0) :=
    getBit_byte fieldMask (i := 0) (by decide)
  have h1 : getBit (fieldMask.setWidth 32) 1 = .ok (ArmSimulator.getBit fieldMask 1) :=
    getBit_byte fieldMask (i := 1) (by decide)
  have h2 : getBit (fieldMask.setWidth 32) 2 = .ok (ArmSimulator.getBit fieldMask 2) :=
    getBit_byte fieldMask (i := 2) (by decide)
  have h3 : getBit (fieldMask.setWidth 32) 3 = .ok (ArmSimulator.getBit fieldMask 3) :=
    getBit_byte fieldMask (i := 3) (by decide)
  rw [byteMask, h0, ok_bind, h1, ok_bind, h2, ok_bind, h3, ok_bind]
  rfl

/-- `arm_msr_immediate` runs as the plain model where its rotation is not by 0. -/
theorem armMsrImmediate_ok (h : ArmSimulator.getBits ins 11 8 ≠ 0) :
    armMsrImmediate ins = call (ArmSimulator.armMsrImmediate ins) := by
  unfold armMsrImmediate ArmSimulator.armMsrImmediate
  simp (disch := decide) only [compute_getBit, compute_getBits, field_eq, pure_bind,
    ror_ok _ (rotation_ne_zero h) (rotation_lt ins), compute_ok, byteMask_ok, call_bind, call_pure,
    apply_ite call]

end

end Alu

/-! ## The refinement -/

/-- The arithmetic of a run is defined. -/
def DefinedArithmetic (m : AluM Byte) (p : ArmCore) : Prop :=
  ∀ operation, m.run p ≠ .error (.undefined operation)

/-- With the condition, `m` does what the function `n` of the model does; without, its arithmetic is
undefined. -/
structure Refines (m : AluM Byte) (n : ArmM Byte) (p : ArmCore) (c : Prop) : Prop where
  eq : c → m.run p = (Alu.call n).run p
  undefined : ¬ c → ∃ operation, m.run p = .error (.undefined operation)

/-- What refines the plain model under a condition is defined exactly under it. -/
theorem Refines.defined_iff {m : AluM Byte} {n : ArmM Byte} {p : ArmCore} {c : Prop}
    (h : Refines m n p c) : DefinedArithmetic m p ↔ c := by
  constructor
  · intro hdefined
    by_contra hc
    obtain ⟨operation, hrun⟩ := h.undefined hc
    exact hdefined operation hrun
  · intro hc operation hrun
    rw [h.eq hc] at hrun
    cases hn : n.run p with
    | none =>
      rw [show (Alu.call n).run p = .error .aborted from run_ofProg_error hn] at hrun
      cases hrun
    | some r =>
      rw [show (Alu.call n).run p = .ok r from run_ofProg hn] at hrun
      cases hrun

section
variable (p : ArmCore) (ins : Word)

/-- `data_processing` refines the plain model where the sums fit. -/
theorem refines_dataProcessing (sBit : Bool) (opcode rd : Byte) (rnValue operand : Word)
    (carryOut : Bool) :
    Refines (Alu.dataProcessing sBit opcode rd rnValue operand carryOut)
      (dataProcessing sBit opcode rd rnValue operand carryOut) p
      (SumFits opcode rnValue operand (getBit p.reg.cpsr Flag.C)) where
  eq := Alu.run_dataProcessing_ok sBit rd carryOut
  undefined := Alu.run_dataProcessing_error sBit rd carryOut

/-- A function whose run is one of `data_processing`. -/
theorem Refines.of_dataProcessing {m : AluM Byte} {n : ArmM Byte} {p : ArmCore} {sBit : Bool}
    {opcode rd : Byte} {rnValue operand : Word} {carryOut : Bool}
    (hm : m.run p = (Alu.dataProcessing sBit opcode rd rnValue operand carryOut).run p)
    (hn : n.run p = (dataProcessing sBit opcode rd rnValue operand carryOut).run p) :
    Refines m n p (SumFits opcode rnValue operand (getBit p.reg.cpsr Flag.C)) := by
  have h := refines_dataProcessing p sBit opcode rd rnValue operand carryOut
  constructor
  · intro hc
    rw [hm, h.eq hc]
    exact (run_ofProg_congr hn).symm
  · intro hc
    rw [hm]
    exact h.undefined hc

/-- The value that a shift takes: where `Rm` or `Rn` is r15, one by an immediate amount takes what
r15 reads as, plus 4. -/
def shiftInput (ins : Word) (p : ArmCore) : Word :=
  if getBit ins 4 = false ∧ (rmField ins = 15 ∨ rnField ins = 15) then p.read 15 + 4
  else p.read (rmField ins)

/-- A shift by register that names r15 is refused. -/
abbrev ShiftRefused (ins : Word) : Prop :=
  getBit ins 4 = true ∧
    (rdField ins = 15 ∨ rmField ins = 15 ∨ rnField ins = 15 ∨ rsField ins = 15)

/-- The sum of a shift instruction that is not refused fits. -/
def ShiftFits (ins : Word) (p : ArmCore) : Prop :=
  let c := getBit p.reg.cpsr Flag.C
  ShiftForm ins → ¬ ShiftRefused ins → SumFits (opcodeField ins) (p.read (rnField ins))
    (shiftedValue ins (shiftInput ins p) (p.read (rsField ins)) c).1 c

/-- The immediate byte is rotated, and its sum fits. -/
def ImmediateFits (ins : Word) (p : ArmCore) : Prop :=
  getBits ins 11 8 ≠ 0 ∧ SumFits (opcodeField ins) (p.read (rnField ins))
    (value .ror (getBits ins 7 0) (2 * (getBits ins 11 8).toNat)) (getBit p.reg.cpsr Flag.C)

/-- Data processing on a shifted register refines the plain model where the sums of its operands
fit. -/
theorem refines_armDataProcessingShift :
    Refines (Alu.armDataProcessingShift ins) (armDataProcessingShift ins) p (ShiftFits ins p) := by
  have hm := Alu.run_armDataProcessingShift p ins
  have hn := armDataProcessingShift_run p ins
  by_cases hform : ShiftForm ins
  · by_cases href : ShiftRefused ins
    · have hoperand : shiftedOperand ins p = none := by
        rw [shiftedOperand, shifterOperand_eq hform, if_pos href]
      rw [hoperand] at hm hn
      refine ⟨fun _ => ?_, fun hc => absurd (fun _ hno => absurd href hno) hc⟩
      rw [hm]
      exact (run_ofProg hn).symm
    · have hoperand : shiftedOperand ins p = some (shiftedValue ins (shiftInput ins p)
          (p.read (rsField ins)) (getBit p.reg.cpsr Flag.C)) := by
        rw [shiftedOperand, shifterOperand_eq hform, if_neg href]
        rfl
      rw [hoperand, Option.elim_some] at hm hn
      have h := Refines.of_dataProcessing hm hn
      exact ⟨fun hc => h.eq (hc hform href), fun hc => h.undefined fun hfits => hc fun _ _ => hfits⟩
  · have hoperand : shiftedOperand ins p = none := shifterOperand_eq_none hform _ _ _ _ _ _ _ _
    rw [hoperand] at hm hn
    refine ⟨fun _ => ?_, fun hc => absurd (fun hf => absurd hf hform) hc⟩
    rw [hm]
    exact (run_ofProg hn).symm

/-- Data processing on an immediate refines the plain model where its rotation is not by 0 and its
sums fit. -/
theorem refines_armDataProcessingImmediate :
    Refines (Alu.armDataProcessingImmediate ins) (armDataProcessingImmediate ins) p
      (ImmediateFits ins p) := by
  by_cases hrotate : getBits ins 11 8 = 0
  · exact ⟨fun hc => absurd hrotate hc.1,
      fun _ => ⟨_, Alu.run_armDataProcessingImmediate_error p ins hrotate⟩⟩
  · have hvalue : (immediateOperand ins p).1 =
        value .ror (getBits ins 7 0) (2 * (getBits ins 11 8).toNat) := by
      rw [← Alu.toNat_rotation, ← ror_eq _ (Alu.rotation_lt ins)]
      rfl
    have hn : (armDataProcessingImmediate ins).run p =
        (dataProcessing (getBit ins sIndex) (opcodeField ins) (rdField ins) (p.read (rnField ins))
          (immediateOperand ins p).1 (immediateOperand ins p).2).run p := by
      unfold armDataProcessingImmediate
      rw [Prog.run_bind_of (run_armReadCpsr p), Prog.run_bind_of (run_armReadRegister p _)]
      rfl
    have h := Refines.of_dataProcessing (Alu.run_armDataProcessingImmediate p ins hrotate) hn
    rw [hvalue] at h
    exact ⟨fun hc => h.eq hc.2, fun hc => h.undefined fun hfits => hc ⟨hrotate, hfits⟩⟩

/-- `MSR` refines the plain model where its rotation is not by 0. -/
theorem refines_armMsrImmediate :
    Refines (Alu.armMsrImmediate ins) (armMsrImmediate ins) p (getBits ins 11 8 ≠ 0) where
  eq h := by rw [Alu.armMsrImmediate_ok ins h]
  undefined h := ⟨_, Alu.run_armMsrImmediate_error p ins (not_not.1 h)⟩

/-- **The arithmetic of the ALU.** It is defined in a shift instruction if the sum of the opcode
fits, in an immediate one if the byte is rotated too, and in `MSR` if the byte is rotated. -/
theorem definedArithmetic_iff :
    (DefinedArithmetic (Alu.armDataProcessingShift ins) p ↔ ShiftFits ins p) ∧
      (DefinedArithmetic (Alu.armDataProcessingImmediate ins) p ↔ ImmediateFits ins p) ∧
      (DefinedArithmetic (Alu.armMsrImmediate ins) p ↔ getBits ins 11 8 ≠ 0) :=
  ⟨(refines_armDataProcessingShift p ins).defined_iff,
    (refines_armDataProcessingImmediate p ins).defined_iff,
    (refines_armMsrImmediate p ins).defined_iff⟩

end

/-- `MOV r0, #1` and `MSR CPSR_f, #0` shift a word to the left by 32, and `ADC r0, r1, r2` adds the
carry to the greatest `int`. -/
theorem definedArithmetic_fails :
    ¬ DefinedArithmetic (Alu.armDataProcessingImmediate 0xE3A00001)
        (.initial 0x10 (.ofWords [])) ∧
      ¬ DefinedArithmetic (Alu.armMsrImmediate 0xE328F000) (.initial 0x10 (.ofWords [])) ∧
      ¬ DefinedArithmetic (Alu.armDataProcessingShift 0xE0A10002)
        ((ArmCore.initial 0x20000010 (.ofWords [])).write 1 0x7FFFFFFF) :=
  ⟨fun h => h (.shift 32) rfl, fun h => h (.shift 32) rfl, fun h => h (.range (2 ^ 31)) rfl⟩

end ArmSimulator
