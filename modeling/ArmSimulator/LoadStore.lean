import ArmSimulator.Core

/-!
# `arm_load_store.c`: single and multiple loads and stores

`armLoadStore` first computes the address, writing the base register back where the addressing mode
says so, and then makes the transfer. No caller looks at the return codes of the memory accesses.
-/

namespace ArmSimulator

/-! ## Addresses -/

/-- `check_U`: the sum or the difference of the base and the offset. -/
def checkU (u : Bool) (rn offset : Word) : Word := if u then rn + offset else rn - offset

/-- `shift_operation`: the scaled register offset. -/
def shiftOperation (rmVal : Word) (shift : Byte) (shiftImm : Word) : ArmM Word :=
  match shift with
  | Shift.LSL => return rmVal <<< shiftImm.toNat
  | Shift.LSR => return if shiftImm = 0 then 0 else rmVal >>> shiftImm.toNat
  | Shift.ASR =>
    return if shiftImm = 0 then (if getBit rmVal 31 = true then 0xFFFFFFFF else 0)
      else asr rmVal (shiftImm.setWidth 8)
  | Shift.ROR => do
    if shiftImm = 0 then
      let cpsr ← armReadCpsr
      let carry : Word := if getBit cpsr Flag.C then 1 else 0
      return (carry <<< 31) ||| (rmVal >>> 1)
    else
      return ror rmVal (shiftImm.setWidth 8)
  | _ => return 0

/-- `process_load_store_instruction`: the return code and the address, which is as before where the
combination of `P` and `W` is refused. -/
def processLoadStoreInstruction (P W bitU : Bool) (address rn : Word) (rnRegister : Byte)
    (value : Word) : ArmM (Byte × Word) :=
  if P = true ∧ W = false then
    return (0, checkU bitU rn value)
  else if P = true ∧ W = true then do
    let address := checkU bitU rn value
    armWriteRegister rnRegister address
    return (0, address)
  else if P = false ∧ W = false then do
    armWriteRegister rnRegister (checkU bitU rn value)
    return (0, rn)
  else
    return (undefinedInstruction, address)

section
variable (endianess : Byte) (loc : Locals)

/-! ## Single transfers -/

/-- The part of `arm_load_store` under `//LOAD & STORE`. -/
def loadStore (bitL bitB : Bool) (rd : Byte) (address : Word) : ArmM Byte := do
  if bitL then
    if bitB then
      let r ← armReadByte address loc.octet
      armWriteRegister rd (r.2.setWidth 32)
      return 0
    else
      let r ← armReadWord endianess address loc.mot
      armWriteRegister rd r.2
      return 0
  else
    let value ← armReadRegister rd
    if bitB then
      let _ ← armWriteByte address (value.setWidth 8)
      return 0
    else
      let _ ← armWriteWord endianess address value
      return 0

/-- The part of `arm_load_store` under `/* Scaled register : */` that gives the address. For `P = 0`
and `W = 1` no case applies, and the address is not assigned. -/
def scaledAddress (ins : Word) (P W bitU : Bool) (rn rmVal : Word) (rnRegister : Byte) :
    ArmM Word := do
  let shiftImm := getBits ins 11 7
  let shift : Byte := (getBits ins 6 5).setWidth 8
  if P = true ∧ W = false then
    let index ← shiftOperation rmVal shift shiftImm
    return checkU bitU rn index
  else if P = true ∧ W = true then
    let index ← shiftOperation rmVal shift shiftImm
    let address := checkU bitU rn index
    armWriteRegister rnRegister address
    return address
  else if P = false ∧ W = false then
    let index ← shiftOperation rmVal shift shiftImm
    armWriteRegister rnRegister (checkU bitU rn index)
    return rn
  else
    return loc.address

/-- The part of `arm_load_store` under `//LDRH & STRH` that gives the address. -/
def miscellaneousAddress (ins : Word) (P bitU : Bool) (rn rmVal : Word) (rnRegister : Byte) :
    ArmM Word := do
  let immedH := getBits ins 11 8
  let immedL := getBits ins 3 0
  let offset8 := (immedH <<< 4) ||| immedL
  if P then
    if getBits ins 22 21 = 0b10 then
      return checkU bitU rn offset8
    else if getBits ins 22 21 = 0b00 then
      return checkU bitU rn rmVal
    else if getBits ins 22 21 = 0b11 then
      let address := checkU bitU rn offset8
      armWriteRegister rnRegister address
      return address
    else if getBits ins 22 21 = 0b01 then
      let address := checkU bitU rn rmVal
      armWriteRegister rnRegister address
      return address
    else
      return loc.address
  else
    if getBits ins 22 21 = 0b10 then
      armWriteRegister rnRegister (checkU bitU rn offset8)
      return rn
    else if getBits ins 22 21 = 0b00 then
      armWriteRegister rnRegister (checkU bitU rn rmVal)
      return rn
    else
      return loc.address

/-- The transfer under `//LDRH & STRH`: only the unsigned halfword, `S = 0` and `H = 1`, is
implemented. -/
def miscellaneousTransfer (bitL bitS bitH : Bool) (rd : Byte) (address : Word) : ArmM Byte := do
  if bitL = false ∧ bitS = false ∧ bitH = true then
    let half ← armReadRegister rd
    let _ ← armWriteHalf endianess address (half.setWidth 16)
    return successfullyDecoded
  else if bitL = true ∧ bitS = false ∧ bitH = true then
    let r ← armReadHalf endianess address loc.half
    armWriteRegister rd (r.2.setWidth 32)
    return successfullyDecoded
  else
    return undefinedInstruction

/-- `arm_load_store`. -/
def armLoadStore (ins : Word) : ArmM Byte := do
  let rnRegister : Byte := (getBits ins 19 16).setWidth 8
  let rn ← armReadRegister rnRegister
  let rd : Byte := (getBits ins 15 12).setWidth 8
  let rm : Byte := (getBits ins 3 0).setWidth 8
  let rmVal ← armReadRegister rm
  let bitL := getBit ins 20
  let bitW := getBit ins 21
  let bitB := getBit ins 22
  let bitU := getBit ins 23
  let bitP := getBit ins 24
  let offset12 := getBits ins 11 0
  if getBits ins 27 25 = 0b010 then
    let r ← processLoadStoreInstruction bitP bitW bitU loc.address rn rnRegister offset12
    if r.1 ≠ 0 then return r.1
    else loadStore endianess loc bitL bitB rd r.2
  else if getBits ins 27 25 = 0b011 ∧ getBits ins 11 4 = 0 then
    let r ← processLoadStoreInstruction bitP bitW bitU loc.address rn rnRegister rmVal
    if r.1 ≠ 0 then return r.1
    else loadStore endianess loc bitL bitB rd r.2
  else if getBits ins 27 25 = 0b011 ∧ getBit ins 4 = false then
    let address ← scaledAddress loc ins bitP bitW bitU rn rmVal rnRegister
    loadStore endianess loc bitL bitB rd address
  else if getBits ins 27 25 = 0b000 ∧ getBit ins 7 = true ∧ getBit ins 4 = true then
    let address ← miscellaneousAddress loc ins bitP bitU rn rmVal rnRegister
    miscellaneousTransfer endianess loc bitL (getBit ins 6) (getBit ins 5) rd address
  else
    loadStore endianess loc bitL bitB rd loc.address

/-! ## Multiple transfers -/

/-- The loop of `number_set_bits_in`. -/
def numberSetBitsLoop (num : Half) (count : Nat) : Nat :=
  if num = 0 then count
  else numberSetBitsLoop (num >>> 1) (count + (num &&& 1).toNat)
termination_by num.toNat
decreasing_by
  have hn : num.toNat ≠ 0 := fun he => ‹¬ num = 0› (BitVec.eq_of_toNat_eq he)
  rw [BitVec.toNat_ushiftRight, Nat.shiftRight_eq_div_pow]
  omega

/-- `number_set_bits_in`. -/
def numberSetBitsIn (num : Half) : Nat := numberSetBitsLoop num 0

/-- The start and end addresses, by the `switch` over the bits 24:23 of the instruction. -/
def addressingMode (code rn : Word) (registerList : Half) : Word × Word :=
  let bytes : Word := BitVec.ofNat 32 (numberSetBitsIn registerList * 4)
  if code = 0b01 then (rn, rn + bytes - 4)
  else if code = 0b11 then (rn + 4, rn + bytes)
  else if code = 0b00 then (rn - bytes + 4, rn)
  else (rn - bytes, rn - 4)

/-- The loop over r0 to r14 of a load: each listed register is loaded, in increasing order. -/
def loadLoop (write : Byte → Word → ArmM Unit) (registerList : Half) (address : Word) :
    ArmM Word :=
  (List.range 15).foldlM
    (fun address i =>
      if getBit registerList i then do
        let r ← armReadWord endianess address (loc.value i)
        write (BitVec.ofNat 8 i) r.2
        return address + 4
      else
        return address)
    address

/-- The loop over r0 to r15 of a store: each listed register is stored, in increasing order. -/
def storeLoop (read : Byte → ArmM Word) (registerList : Half) (address : Word) : ArmM Word :=
  (List.range 16).foldlM
    (fun address i =>
      if getBit registerList i then do
        let value ← read (BitVec.ofNat 8 i)
        let _ ← armWriteWord endianess address value
        return address + 4
      else
        return address)
    address

/-- The end of `arm_load_store_multiple`: the base register is updated after the transfer. -/
def writeBack (W : Bool) (rnRegistre : Byte) (address : Word) : ArmM Byte := do
  Prog.when W (armWriteRegister rnRegistre address)
  return 0

/-- `arm_load_store_multiple`. -/
def armLoadStoreMultiple (ins : Word) : ArmM Byte := do
  let rnRegistre : Byte := (getBits ins 19 16).setWidth 8
  let registerList : Half := (getBits ins 15 0).setWidth 16
  let L := getBit ins 20
  let W := getBit ins 21
  let S := getBit ins 22
  let rn ← armReadRegister rnRegistre
  let cpsr ← armReadCpsr
  let (startAddress, endAddress) := addressingMode (getBits ins 24 23) rn registerList
  if registerList = 0 then
    return undefinedInstruction
  else if S = true ∧ (cpsr &&& 0x1F = USR.setWidth 32 ∨ cpsr &&& 0x1F = SYS.setWidth 32) then
    return undefinedInstruction
  else if S = true ∧ L = true then
    if getBit registerList 15 then
      let address ← loadLoop endianess loc armWriteRegister registerList startAddress
      let hasSpsr ← armCurrentModeHasSpsr
      if hasSpsr then
        let spsr ← armReadSpsr
        armWriteCpsr spsr
        let r ← armReadWord endianess address (loc.value 15)
        armWriteRegister 15 r.2
        let address := address + 4
        Prog.assert (endAddress = address - 4)
        writeBack W rnRegistre address
      else
        return undefinedInstruction
    else
      let address ← loadLoop endianess loc armWriteUsrRegister registerList startAddress
      Prog.assert (endAddress = address - 4)
      writeBack W rnRegistre address
  else if S = true then
    let address ← storeLoop endianess armReadUsrRegister registerList startAddress
    Prog.assert (endAddress = address - 4)
    writeBack W rnRegistre address
  else if L = true then
    let address ← loadLoop endianess loc armWriteRegister registerList startAddress
    if getBit registerList 15 then
      let r ← armReadWord endianess address (loc.value 15)
      armWriteRegister 15 (r.2 &&& 0xFFFFFFFC)
      let address := address + 4
      Prog.assert (endAddress = address - 4)
      writeBack W rnRegistre address
    else
      Prog.assert (endAddress = address - 4)
      writeBack W rnRegistre address
  else
    let address ← storeLoop endianess armReadRegister registerList startAddress
    Prog.assert (endAddress = address - 4)
    writeBack W rnRegistre address

end

/-- `arm_coprocessor_load_store`. -/
def armCoprocessorLoadStore (_ins : Word) : ArmM Byte := return undefinedInstruction

end ArmSimulator
