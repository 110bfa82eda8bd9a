import ArmSimulator.Core

/-!
# `arm_branch_other.c`: branches, software interrupts and `MRS`
-/

namespace ArmSimulator

abbrev brIndex : Nat := 25
abbrev brMask : Word := 5#32 <<< brIndex
abbrev brCode : Byte := 5
abbrev offsetMask : Word := 0x00FFFFFF

abbrev swiIndex : Nat := 24
abbrev swiMask : Word := 15#32 <<< swiIndex
abbrev swiCode : Byte := 15

abbrev mrsIndex : Nat := 23
abbrev mrsMask : Word := 2#32 <<< mrsIndex
abbrev mrsCode : Byte := 2
abbrev rdIndex : Nat := 12
abbrev rdMask : Word := 15#32 <<< rdIndex

/-- `arm_branch`. -/
def armBranch (ins : Word) : ArmM Byte := do
  let codeop : Byte := ((ins &&& brMask) >>> brIndex).setWidth 8
  if codeop ≠ brCode then
    return undefinedInstruction
  else
    let L := getBit ins 24
    let offset := ins &&& offsetMask
    let offset := if getBit offset 23 then offset ||| 0x3F000000 else offset
    let offset := offset <<< 2
    let tempPc ← armReadRegister 15
    Prog.when L (armWriteRegister 14 (tempPc - 4))
    armWriteRegister 15 (tempPc + offset)
    return successfullyDecoded

/-- `arm_coprocessor_others_swi`. -/
def armCoprocessorOthersSwi (ins : Word) : ArmM Byte :=
  let codeop : Byte := ((ins &&& swiMask) >>> swiIndex).setWidth 8
  if codeop ≠ swiCode then return undefinedInstruction
  else return softwareInterrupt

/-- `arm_miscellaneous`. -/
def armMiscellaneous (ins : Word) : ArmM Byte := do
  let codeop : Byte := ((ins &&& mrsMask) >>> mrsIndex).setWidth 8
  if codeop ≠ mrsCode then
    return undefinedInstruction
  else
    let rBit := getBit ins 22
    let returnReg : Byte := ((ins &&& rdMask) >>> rdIndex).setWidth 8
    if rBit then
      let hasSpsr ← armCurrentModeHasSpsr
      if hasSpsr then
        let spsr ← armReadSpsr
        armWriteRegister returnReg spsr
        return successfullyDecoded
      else
        return undefinedInstruction
    else
      let cpsr ← armReadCpsr
      armWriteRegister returnReg cpsr
      return successfullyDecoded

end ArmSimulator
