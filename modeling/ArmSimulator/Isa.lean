import ArmSimulator.BlockWords
import ArmSimulator.ControlFlow
import ArmSimulator.SingleTransfers

/-!
# The machine that a program sees

A program sees the registers of its mode, the flags and the memory. `Machine` is that view of the
processor and `Machine.Step` what is specified of one instruction, for a fragment of the instruction
set: the data processing instructions that take no carry, the single transfers, the block transfers
that leave the base or move it up after them, the branches and the software interrupts.

The specification is weaker than the architecture in one place. The code computes another carry than
the architecture for `ADD`, `SUB`, `RSB`, `CMP` and `CMN` with `S`, so after them the machine may
have either value in C. What a program cannot avoid on this machine does not depend on that value,
such as the outcome of a signed comparison. A word with the condition 1111, which is none, has no
step.
-/

namespace ArmSimulator

open BarrelShifter

/-! ## Instructions -/

/-- The second operand of a data processing instruction. -/
inductive Operand where
  /-- A byte, rotated by twice the amount. -/
  | immediate (immed : Word) (rotate : Nat)
  /-- A register shifted by the amount. -/
  | shifted (rm : Byte) (kind : Kind) (amount : Nat)
  /-- A register shifted by another one. -/
  | shiftedBy (rm : Byte) (kind : Kind) (rs : Byte)
  deriving DecidableEq

/-- The offset of a single transfer. -/
inductive Offset where
  | immediate (offset : Word)
  | register (rm : Byte) (kind : Kind) (amount : Nat)
  deriving DecidableEq

/-- The instructions of the fragment. -/
inductive Insn where
  | data (opcode : Byte) (setFlags : Bool) (rd rn : Byte) (operand : Operand)
  | transfer (load : Bool) (width : Nat) (pre up writeBack : Bool) (rd rn : Byte) (offset : Offset)
  | block (load pre up writeBack : Bool) (rn : Byte) (registerList : Half)
  | branch (link : Bool) (offset : Int)
  | swi (number : Word)
  deriving DecidableEq

/-- A single transfer, from its fields. -/
def decodeTransfer (w : Word) (offset : Offset) : Insn :=
  .transfer (getBit w 20) (transferWidth w) (getBit w 24) (getBit w 23) (getBit w 21) (rdField w)
    (rnField w) offset

/-- A block transfer, from its fields. -/
def decodeBlock (w : Word) : Insn :=
  .block (getBit w 20) (getBit w 24) (getBit w 23) (getBit w 21) (rnField w) (listField w)

/-- A data processing instruction, from its fields. -/
def decodeData (w : Word) (operand : Operand) : Insn :=
  .data (opcodeField w) (getBit w 20) (rdField w) (rnField w) operand

/-- A shift, by a register or by an amount. -/
def decodeShift (w : Word) : Operand :=
  if getBit w 4 then .shiftedBy (rmField w) (shiftKind w) (rsField w)
  else .shifted (rmField w) (shiftKind w) (getBits w 11 7).toNat

/-- The offset of a halfword transfer, an immediate one in two fields or a register. -/
def decodeHalfOffset (w : Word) : Offset :=
  if getBit w 22 then .immediate ((getBits w 11 8 <<< 4) ||| getBits w 3 0)
  else .register (rmField w) .lsl 0

/-- The instruction that a word encodes; `none` is one outside the fragment. -/
def decode (w : Word) : Option Insn :=
  if getBits w 27 25 = 0b000 then
    if getBit w 4 = true ∧ getBit w 7 = true then
      if getBit w 6 = false ∧ getBit w 5 = true then some (decodeTransfer w (decodeHalfOffset w))
      else none
    else some (decodeData w (decodeShift w))
  else if getBits w 27 25 = 0b001 then
    some (decodeData w (.immediate (getBits w 7 0) (getBits w 11 8).toNat))
  else if getBits w 27 25 = 0b010 then some (decodeTransfer w (.immediate (getBits w 11 0)))
  else if getBits w 27 25 = 0b011 then
    if getBit w 4 = false then
      some (decodeTransfer w (.register (rmField w) (shiftKind w) (getBits w 11 7).toNat))
    else none
  else if getBits w 27 25 = 0b100 then
    if getBit w 22 = false then some (decodeBlock w) else none
  else if getBits w 27 25 = 0b101 then some (.branch (getBit w 24) (signedOffset w))
  else if getBits w 27 24 = 0b1111 then some (.swi (getBits w 23 0))
  else none

/-- The operand is one that the architecture defines: r15 is not shifted by a register. Neither is
it shifted by an amount, nor combined with such a shift, where the code reads it as another
value. -/
def Operand.Regular (rd rn : Byte) : Operand → Prop
  | .immediate _ _ => True
  | .shifted rm _ _ => rm ≠ 15 ∧ rn ≠ 15
  | .shiftedBy rm _ rs => rd ≠ 15 ∧ rm ≠ 15 ∧ rn ≠ 15 ∧ rs ≠ 15

/-- The instruction is one of the fragment: without a carry operand, a return from an exception, an
`MSR` or `MRS`, an addressing mode that does not exist, or a base register that is updated twice. A
block transfer updates its base in one mode only, since the code moves it elsewhere in the others.
-/
def Insn.Regular : Insn → Prop
  | .data opcode setFlags rd rn operand => opcode ∈ logicalOpcodes ++ carryOpcodes ∧
    (setFlags = true → rd ≠ 15) ∧ (setFlags = false → opcode ∉ comparisons) ∧ operand.Regular rd rn
  | .transfer _ _ pre _ writeBack rd rn _ => (pre = false → writeBack = false) ∧
    (pre = false ∨ writeBack = true → rn ≠ 15 ∧ rd ≠ rn)
  | .block _ pre up writeBack rn registerList => registerList ≠ 0 ∧ rn ≠ 15 ∧
    (writeBack = true → pre = false ∧ up = true ∧ registerList.getLsbD rn.toNat = false)
  | .branch _ _ => True
  | .swi number => number = 0x123456 ∨ number = 1

instance (rd rn : Byte) : (operand : Operand) → Decidable (operand.Regular rd rn)
  | .immediate _ _ => inferInstanceAs (Decidable True)
  | .shifted _ _ _ => inferInstanceAs (Decidable (_ ∧ _))
  | .shiftedBy _ _ _ => inferInstanceAs (Decidable (_ ∧ _))

instance : (i : Insn) → Decidable i.Regular
  | .data _ _ _ _ _ => inferInstanceAs (Decidable (_ ∧ _))
  | .transfer _ _ _ _ _ _ _ _ => inferInstanceAs (Decidable (_ ∧ _))
  | .block _ _ _ _ _ _ => inferInstanceAs (Decidable (_ ∧ _))
  | .branch _ _ => inferInstanceAs (Decidable True)
  | .swi _ => inferInstanceAs (Decidable (_ ∨ _))

/-! ## The machine -/

/-- What a program sees of the processor. Register 15 is the address of the next instruction. -/
structure Machine where
  regs : Byte → Word
  n : Bool
  z : Bool
  c : Bool
  v : Bool
  mem : Memory
  output : List Byte

namespace Machine

variable (m : Machine)

/-- The address of the instruction. -/
def pc : Word := m.regs 15

/-- What a register reads as in an instruction. -/
def read (reg : Byte) : Word := if reg = 15 then m.pc + 8 else m.regs reg

def write (reg : Byte) (value : Word) : Machine :=
  { m with regs := Function.update m.regs reg value }

def writeIf (b : Bool) (reg : Byte) (value : Word) : Machine := if b then m.write reg value else m

/-- The machine after an instruction that does nothing else. -/
def next : Machine := m.write 15 (m.pc + 4)

/-- The PC is what was written to r15. -/
@[simp] theorem write_pc (value : Word) : (m.write 15 value).pc = value := by
  unfold write pc
  exact Function.update_self 15 value m.regs

/-- The write of another register keeps the PC. -/
theorem write_pc_of_ne {reg : Byte} (hr : reg ≠ 15) (value : Word) :
    (m.write reg value).pc = m.pc := by
  unfold write pc
  exact Function.update_of_ne hr.symm value m.regs

/-- The next instruction is 4 further on. -/
@[simp] theorem next_pc : m.next.pc = m.pc + 4 := m.write_pc _

/-- On the way to the next instruction the other registers are kept. -/
theorem next_regs {reg : Byte} (hr : reg ≠ 15) : m.next.regs reg = m.regs reg :=
  Function.update_of_ne hr _ m.regs

/-- The conditions of the architecture. The code 1111 is none of them, and no step is made under
it. -/
def holds (code : Word) : Bool :=
  match code with
  | Cond.EQ => m.z
  | Cond.NE => !m.z
  | Cond.HS => m.c
  | Cond.LO => !m.c
  | Cond.MI => m.n
  | Cond.PL => !m.n
  | Cond.VS => m.v
  | Cond.VC => !m.v
  | Cond.HI => m.c && !m.z
  | Cond.LS => !m.c || m.z
  | Cond.GE => m.n == m.v
  | Cond.LT => m.n != m.v
  | Cond.GT => !m.z && m.n == m.v
  | Cond.LE => m.z || m.n != m.v
  | Cond.AL => true
  | _ => false

/-- The value and the carry-out of the second operand. -/
def operand : Operand → Word × Bool
  | .immediate immed rotate =>
    let x := value .ror immed (2 * rotate)
    (x, if rotate = 0 then m.c else x.msb)
  | .shifted rm kind amount => immediateShift kind (m.read rm) amount m.c
  | .shiftedBy rm kind rs => shift kind (m.read rm) (getBits (m.read rs) 7 0).toNat m.c

/-- The overflow flag after an opcode. -/
def overflow (opcode : Byte) (x y : Word) : Bool :=
  if opcode ∈ logicalOpcodes then m.v
  else decide (Overflows (exactResult opcode x.toInt y.toInt))

/-- The machine with the flags of a result. -/
def setFlags (result : Word) (carry overflow : Bool) : Machine :=
  { m with n := decide (result.toInt < 0), z := decide (result = 0), c := carry, v := overflow }

/-- The machine after a data processing instruction on the operands `x` and `y`. -/
def data (opcode : Byte) (setFlags : Bool) (rd : Byte) (x y : Word) (carry : Bool) : Machine :=
  let result := referenceResult opcode x y
  let m' := m.next.writeIf (decide (opcode ∉ comparisons)) rd result
  if setFlags then m'.setFlags result carry (m.overflow opcode x y) else m'

/-- The offset of a single transfer. -/
def offset : Offset → Word
  | .immediate n => n
  | .register rm kind amount => (immediateShift kind (m.read rm) amount m.c).1

/-- The base with the offset. -/
def sum (up : Bool) (rn : Byte) (offset : Offset) : Word :=
  if up then m.read rn + m.offset offset else m.read rn - m.offset offset

/-- The address of a single transfer. -/
def address (pre up : Bool) (rn : Byte) (offset : Offset) : Word :=
  if pre then m.sum up rn offset else m.read rn

/-- The machine after the base of a single transfer is updated. -/
def based (pre up writeBack : Bool) (rn : Byte) (offset : Offset) : Machine :=
  m.next.writeIf (!pre || writeBack) rn (m.sum up rn offset)

/-- The address of the first word of a block transfer, which is that of its lowest register. -/
def first (pre up : Bool) (rn : Byte) (registerList : Half) : Word :=
  let lowest := if up then m.read rn
    else m.read rn - BitVec.ofNat 32 (4 * listed registerList 16)
  if pre = up then lowest + 4 else lowest

/-- The machine with the registers of the list loaded from the words at the address on. -/
def loadBlock (endianess : Byte) (registerList : Half) (start : Word) : Machine :=
  { m with regs := fun reg =>
      let word := blockWord registerList endianess m.mem start reg.toNat
      if registerList.getLsbD reg.toNat then if reg = 15 then word &&& 0xFFFFFFFC else word
      else m.regs reg }

/-- The machine after the base of a block transfer is moved up. -/
def raised (writeBack : Bool) (rn : Byte) (registerList : Half) (base : Word) : Machine :=
  m.writeIf writeBack rn (base + BitVec.ofNat 32 (4 * listed registerList 16))

end Machine

/-- The memory holds so many bytes at the address, which is a multiple of the unit. -/
structure Memory.Accessible (mem : Memory) (address : Word) (size unit : Nat) : Prop where
  holds : mem.Holds address size
  aligned : address.toNat % unit = 0

/-- What an instruction does, and the code that it returns. The carry is that of the shifter after a
logical opcode. It may be anything after `ADD`, `SUB`, `RSB`, `CMP` and `CMN`: the architecture
defines one there, but the code another, and the specification leaves it open. -/
inductive Insn.Exec (endianess : Byte) (m : Machine) : Insn → Byte × Machine → Prop
  | data {opcode rd rn : Byte} {setFlags carry : Bool} {operand : Operand}
      (hcarry : opcode ∈ logicalOpcodes → carry = (m.operand operand).2) :
      Exec endianess m (.data opcode setFlags rd rn operand)
        (0, m.data opcode setFlags rd (m.read rn) (m.operand operand).1 carry)
  | load {width : Nat} {pre up writeBack : Bool} {rd rn : Byte} {offset : Offset}
      (haccess : m.mem.Accessible (m.address pre up rn offset) (width / 8) (width / 8)) :
      Exec endianess m (.transfer true width pre up writeBack rd rn offset)
        (0, (m.based pre up writeBack rn offset).write rd
          ((m.mem.value width endianess (m.address pre up rn offset)).setWidth 32))
  | store {width : Nat} {pre up writeBack : Bool} {rd rn : Byte} {offset : Offset} {mem : Memory}
      (haccess : m.mem.Accessible (m.address pre up rn offset) (width / 8) (width / 8))
      (hmem : Memory.Wrote endianess (m.address pre up rn offset)
        ((m.read rd).setWidth width) m.mem mem) :
      Exec endianess m (.transfer false width pre up writeBack rd rn offset)
        (0, { m.based pre up writeBack rn offset with mem })
  | loadBlock {pre up writeBack : Bool} {rn : Byte} {registerList : Half}
      (haccess : m.mem.Accessible (m.first pre up rn registerList) (4 * listed registerList 16) 4) :
      Exec endianess m (.block true pre up writeBack rn registerList)
        (0, (m.next.loadBlock endianess registerList (m.first pre up rn registerList)).raised
          writeBack rn registerList (m.read rn))
  | storeBlock {pre up writeBack : Bool} {rn : Byte} {registerList : Half} {mem : Memory}
      (haccess : m.mem.Accessible (m.first pre up rn registerList) (4 * listed registerList 16) 4)
      (hmem : BlockStored registerList endianess (m.first pre up rn registerList) 16
        (fun i => m.read (BitVec.ofNat 8 i)) m.mem mem) :
      Exec endianess m (.block false pre up writeBack rn registerList)
        (0, { m.next.raised writeBack rn registerList (m.read rn) with mem })
  | branch {link : Bool} {offset : Int} :
      Exec endianess m (.branch link offset) (0,
        (m.next.writeIf link 14 (m.pc + 4)).write 15 (m.pc + 8 + BitVec.ofInt 32 (4 * offset)))
  | exit : Exec endianess m (.swi 0x123456) (endSimulation, m.next)
  | putchar : Exec endianess m (.swi 1)
      (0, { m.next with output := (m.regs 0).setWidth 8 :: m.output })

/-- The memory holds the word at the PC, which is a multiple of 4. -/
structure Machine.Fetches (endianess : Byte) (m : Machine) (w : Word) : Prop where
  aligned : Aligned m.pc
  holds : m.mem.Holds m.pc 4
  word : m.mem.value 32 endianess m.pc = w

/-- A step: the instruction at the PC, if its condition holds. A word whose condition holds and that
is not one of the fragment has none, and neither has one under the code 1111. -/
inductive Machine.Step (endianess : Byte) (m : Machine) : Byte × Machine → Prop
  | skip {w : Word} (hfetch : m.Fetches endianess w) (hknown : w >>> 28 ≠ 0xF)
      (hcond : m.holds (w >>> 28) = false) : Step endianess m (0, m.next)
  | exec {w : Word} {i : Insn} {r : Byte × Machine} (hfetch : m.Fetches endianess w)
      (hcond : m.holds (w >>> 28) = true) (hdecode : decode w = some i) (hregular : i.Regular)
      (hexec : i.Exec endianess m r) : Step endianess m r

end ArmSimulator
