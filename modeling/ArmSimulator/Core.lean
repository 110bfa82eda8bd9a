import ArmSimulator.Lib.Prog
import ArmSimulator.Memory
import ArmSimulator.Registers

/-!
# `arm_core.c`: the state of the processor and its accessors

`ArmCore` is `struct arm_core_data` with two records of what the program does outside itself: the
memory accesses it reports to `trace_memory`, and the bytes it prints with `putchar`. The register
accesses reported to `trace_register` are only printed, and are left out.

`ENDIANESS` is a constant of the build, `MEM_BIG_ENDIAN` or `MEM_LITTLE_ENDIAN`; every function
that reaches the memory takes it as `endianess`.

A local variable that the source leaves uninitialised holds an arbitrary value, and still holds it
after a failed read into it. `Locals` gathers these values for one instruction. In the `S = 0` loop
of `LDM` the variable is declared outside the loop, so that a failed read leaves the word loaded
before; there too `Locals` allows any word.
-/

namespace ArmSimulator

/-- A memory access, as `trace_memory` is told of it. -/
structure Access where
  /-- The number of bytes, 1, 2 or 4. -/
  size : Nat
  /-- The address of the first one. -/
  address : Word
  deriving DecidableEq, Repr

/-- `struct arm_core_data`, with the accesses traced so far, the last one first, and the bytes
printed so far, the last one first. -/
structure ArmCore where
  cycleCount : Word
  reg : Registers
  mem : Memory
  accesses : List Access
  output : List Byte

/-- What the uninitialised locals of one instruction hold, by the name of the local. -/
structure Locals where
  /-- `instruction` of `arm_execute_instruction`, the word fetched. -/
  instruction : Word
  /-- `address` of `arm_load_store`. -/
  address : Word
  /-- `octet` of `arm_load_store`. -/
  octet : Byte
  /-- `half` of `arm_load_store`. -/
  half : Half
  /-- `mot` of `arm_load_store`. -/
  mot : Word
  /-- `value` of `arm_load_store_multiple` in iteration `i`, and `pc_value` for `i = 15`. -/
  value : Nat → Word
  /-- `instruction` of `arm_exception`. -/
  swi : Word

/-- A function of the simulator on the state `arm_core`. -/
abbrev ArmM (α : Type) := Prog ArmCore α

/-! ## Registers -/

/-- `arm_current_mode_has_spsr`. -/
def armCurrentModeHasSpsr : ArmM Bool := do
  let p ← get
  let (b, reg) := registersCurrentModeHasSpsr p.reg
  set { p with reg }
  return b

/-- `arm_in_a_privileged_mode`. -/
def armInAPrivilegedMode : ArmM Byte := do
  let p ← get
  return registersInAPrivilegedMode p.reg

/-- `arm_read_register_internal`: the PC reads as the address of the instruction plus 8. -/
def armReadRegisterInternal (reg mode : Byte) : ArmM Word := do
  let p ← get
  let value := registersRead p.reg reg mode
  return if reg = 15 then (value + 4) &&& 0xFFFFFFFD else value

/-- `arm_read_register`. -/
def armReadRegister (reg : Byte) : ArmM Word := do
  let p ← get
  armReadRegisterInternal reg (registersGetMode p.reg)

/-- `arm_read_usr_register`. -/
def armReadUsrRegister (reg : Byte) : ArmM Word := armReadRegisterInternal reg USR

/-- `arm_read_cpsr`. -/
def armReadCpsr : ArmM Word := do
  let p ← get
  return registersReadCpsr p.reg

/-- `arm_read_spsr`. -/
def armReadSpsr : ArmM Word := do
  let p ← get
  return registersReadSpsr p.reg (registersGetMode p.reg)

/-- `arm_write_register_internal`. -/
def armWriteRegisterInternal (reg mode : Byte) (value : Word) : ArmM Unit :=
  modify fun p => { p with reg := registersWrite p.reg reg mode value }

/-- `arm_write_register`. -/
def armWriteRegister (reg : Byte) (value : Word) : ArmM Unit := do
  let p ← get
  armWriteRegisterInternal reg (registersGetMode p.reg) value

/-- `arm_write_usr_register`. -/
def armWriteUsrRegister (reg : Byte) (value : Word) : ArmM Unit :=
  armWriteRegisterInternal reg USR value

/-- `arm_write_cpsr`. -/
def armWriteCpsr (value : Word) : ArmM Unit :=
  modify fun p => { p with reg := registersWriteCpsr p.reg value }

/-- `arm_write_spsr`. -/
def armWriteSpsr (value : Word) : ArmM Unit :=
  modify fun p => { p with reg := registersWriteSpsr p.reg (registersGetMode p.reg) value }

/-! ## Memory

A read takes what the destination holds before, and gives what it holds after.
-/

/-- `trace_memory`. -/
def traceMemory (size : Nat) (address : Word) : ArmM Unit :=
  modify fun p => { p with accesses := ⟨size, address⟩ :: p.accesses }

/-- `putchar`, which prints the value as an `unsigned char`. -/
def putchar (value : Word) : ArmM Unit :=
  modify fun p => { p with output := value.setWidth 8 :: p.output }

section
variable (endianess : Byte)

/-- `arm_read_byte`. -/
def armReadByte (address : Word) (value : Byte) : ArmM (ExitCode × Byte) := do
  let p ← get
  let result := memoryReadByte p.mem address value
  traceMemory 1 address
  return result

/-- `arm_read_half`. -/
def armReadHalf (address : Word) (value : Half) : ArmM (ExitCode × Half) := do
  let p ← get
  let result := memoryReadHalf p.mem address value endianess
  traceMemory 2 address
  return result

/-- `arm_read_word`. -/
def armReadWord (address : Word) (value : Word) : ArmM (ExitCode × Word) := do
  let p ← get
  let result := memoryReadWord p.mem address value endianess
  traceMemory 4 address
  return result

/-- `arm_fetch`: the fetch increments the PC. -/
def armFetch (value : Word) : ArmM (ExitCode × Word) := do
  let p ← get
  let mode := registersGetMode p.reg
  let address := registersRead p.reg 15 mode
  set { p with
    reg := registersWrite p.reg 15 mode (address + 4)
    cycleCount := p.cycleCount + 1 }
  armReadWord endianess address value

/-- `arm_write_byte`. -/
def armWriteByte (address : Word) (value : Byte) : ArmM ExitCode := do
  let p ← get
  let (result, mem) := memoryWriteByte p.mem address value
  set { p with mem }
  traceMemory 1 address
  return result

/-- `arm_write_half`. -/
def armWriteHalf (address : Word) (value : Half) : ArmM ExitCode := do
  let p ← get
  let (result, mem) := memoryWriteHalf p.mem address value endianess
  set { p with mem }
  traceMemory 2 address
  return result

/-- `arm_write_word`. -/
def armWriteWord (address : Word) (value : Word) : ArmM ExitCode := do
  let p ← get
  let (result, mem) := memoryWriteWord p.mem address value endianess
  set { p with mem }
  traceMemory 4 address
  return result

end

/-! ## What the accessors do

Each accessor returns from every state; its run is an equation, with the value read or the state
written.
-/

/-- What `arm_read_register_internal` returns. -/
def ArmCore.readInternal (p : ArmCore) (reg mode : Byte) : Word :=
  if reg = 15 then (registersRead p.reg reg mode + 4) &&& 0xFFFFFFFD
  else registersRead p.reg reg mode

/-- The mode the processor is in. -/
def ArmCore.mode (p : ArmCore) : Byte := registersGetMode p.reg

/-- The stored r15, which is the same for all modes. -/
def ArmCore.pc (p : ArmCore) : Word := p.reg.genreg 15

/-- The low bits of CPSR hold the mode. -/
theorem ArmCore.cpsr_and_mode (p : ArmCore) : p.reg.cpsr &&& 0x1F = p.mode.setWidth 32 := by
  apply BitVec.eq_of_toNat_eq
  have hle : (p.reg.cpsr &&& 0x1F).toNat ≤ 31 := Nat.and_le_right
  show _ = (((p.reg.cpsr &&& 0x1F).setWidth 8).setWidth 32).toNat
  rw [BitVec.toNat_setWidth, BitVec.toNat_setWidth]
  omega

/-- What `arm_read_register` returns. -/
def ArmCore.read (p : ArmCore) (reg : Byte) : Word := p.readInternal reg p.mode

/-- The state with a register of the current mode written. -/
def ArmCore.write (p : ArmCore) (reg : Byte) (value : Word) : ArmCore :=
  { p with reg := registersWrite p.reg reg p.mode value }

/-- The state with a register of the current mode written where the condition holds. -/
def ArmCore.writeIf (p : ArmCore) (b : Bool) (reg : Byte) (value : Word) : ArmCore :=
  if b then p.write reg value else p

/-- The state with CPSR written. -/
def ArmCore.writeCpsr (p : ArmCore) (value : Word) : ArmCore :=
  { p with reg := registersWriteCpsr p.reg value }

section
variable (p : ArmCore)

/-- `arm_current_mode_has_spsr` is the query of the registers, which changes them. -/
@[simp] theorem run_armCurrentModeHasSpsr :
    armCurrentModeHasSpsr.run p = some ((registersCurrentModeHasSpsr p.reg).1,
      { p with reg := (registersCurrentModeHasSpsr p.reg).2 }) := rfl

/-- `arm_in_a_privileged_mode` is the query of the registers. -/
@[simp] theorem run_armInAPrivilegedMode :
    armInAPrivilegedMode.run p = some (registersInAPrivilegedMode p.reg, p) := rfl

/-- `arm_read_register` reads the register of the mode, as the instructions see it. -/
@[simp] theorem run_armReadRegister (reg : Byte) :
    (armReadRegister reg).run p = some (p.read reg, p) := rfl

/-- `arm_read_usr_register` reads the register of the user bank. -/
@[simp] theorem run_armReadUsrRegister (reg : Byte) :
    (armReadUsrRegister reg).run p = some (p.readInternal reg USR, p) := rfl

/-- `arm_read_cpsr` reads CPSR. -/
@[simp] theorem run_armReadCpsr : armReadCpsr.run p = some (p.reg.cpsr, p) := rfl

/-- `arm_read_spsr` reads the SPSR of the mode. -/
@[simp] theorem run_armReadSpsr :
    armReadSpsr.run p = some (registersReadSpsr p.reg p.mode, p) := rfl

/-- `arm_write_register` writes the register of the mode. -/
@[simp] theorem run_armWriteRegister (reg : Byte) (value : Word) :
    (armWriteRegister reg value).run p = some ((), p.write reg value) := rfl

/-- A register is written only if the condition holds. -/
theorem run_when_armWriteRegister (b : Bool) (reg : Byte) (value : Word) :
    (Prog.when b (armWriteRegister reg value)).run p = some ((), p.writeIf b reg value) := by
  cases b with
  | false => rfl
  | true => rfl

/-- `arm_write_usr_register` writes the register of the user bank. -/
@[simp] theorem run_armWriteUsrRegister (reg : Byte) (value : Word) :
    (armWriteUsrRegister reg value).run p =
      some ((), { p with reg := registersWrite p.reg reg USR value }) := rfl

/-- `arm_write_cpsr` writes CPSR. -/
@[simp] theorem run_armWriteCpsr (value : Word) :
    (armWriteCpsr value).run p = some ((), p.writeCpsr value) := rfl

/-- `arm_write_spsr` writes the SPSR of the mode. -/
@[simp] theorem run_armWriteSpsr (value : Word) :
    (armWriteSpsr value).run p =
      some ((), { p with reg := registersWriteSpsr p.reg p.mode value }) := rfl

/-- `putchar` prints the low byte of its argument. -/
@[simp] theorem run_putchar (value : Word) :
    (putchar value).run p = some ((), { p with output := value.setWidth 8 :: p.output }) := rfl

variable (endianess : Byte) (address : Word)

/-- `arm_read_byte` reads the memory, and is traced. -/
@[simp] theorem run_armReadByte (value : Byte) :
    (armReadByte address value).run p = some (memoryReadByte p.mem address value,
      { p with accesses := ⟨1, address⟩ :: p.accesses }) := rfl

/-- `arm_read_half` reads the memory, and is traced. -/
@[simp] theorem run_armReadHalf (value : Half) :
    (armReadHalf endianess address value).run p = some
      (memoryReadHalf p.mem address value endianess,
      { p with accesses := ⟨2, address⟩ :: p.accesses }) := rfl

/-- `arm_read_word` reads the memory, and is traced. -/
@[simp] theorem run_armReadWord (value : Word) :
    (armReadWord endianess address value).run p = some
      (memoryReadWord p.mem address value endianess,
      { p with accesses := ⟨4, address⟩ :: p.accesses }) := rfl

/-- The state after a fetch: the PC has moved on, and a cycle and an access are counted. -/
def ArmCore.fetched : ArmCore :=
  { p with
    reg := registersWrite p.reg 15 p.mode (registersRead p.reg 15 p.mode + 4)
    cycleCount := p.cycleCount + 1
    accesses := ⟨4, registersRead p.reg 15 p.mode⟩ :: p.accesses }

/-- `arm_fetch` reads the word at the PC, and moves the PC to the next one. -/
@[simp] theorem run_armFetch (value : Word) :
    (armFetch endianess value).run p =
      some (memoryReadWord p.mem (registersRead p.reg 15 p.mode) value endianess, p.fetched) := rfl

/-- `arm_write_byte` writes the memory, and is traced. -/
@[simp] theorem run_armWriteByte (value : Byte) :
    (armWriteByte address value).run p = some ((memoryWriteByte p.mem address value).1,
      { p with
        mem := (memoryWriteByte p.mem address value).2
        accesses := ⟨1, address⟩ :: p.accesses }) := rfl

/-- `arm_write_half` writes the memory, and is traced. -/
@[simp] theorem run_armWriteHalf (value : Half) :
    (armWriteHalf endianess address value).run p =
      some ((memoryWriteHalf p.mem address value endianess).1,
        { p with
          mem := (memoryWriteHalf p.mem address value endianess).2
          accesses := ⟨2, address⟩ :: p.accesses }) := rfl

/-- `arm_write_word` writes the memory, and is traced. -/
@[simp] theorem run_armWriteWord (value : Word) :
    (armWriteWord endianess address value).run p =
      some ((memoryWriteWord p.mem address value endianess).1,
        { p with
          mem := (memoryWriteWord p.mem address value endianess).2
          accesses := ⟨4, address⟩ :: p.accesses }) := rfl

end

/-! ## Registers after a write -/

section
variable (p : ArmCore) (b : Bool) (reg : Byte) (value : Word)

/-- A write to a register leaves the mode. -/
@[simp] theorem ArmCore.write_mode : (p.write reg value).mode = p.mode :=
  registersGetMode_registersWrite _ _ _ _

/-- A write under a condition leaves CPSR. -/
@[simp] theorem ArmCore.writeIf_cpsr : (p.writeIf b reg value).reg.cpsr = p.reg.cpsr := by
  cases b with
  | false => rfl
  | true => exact registersWrite_cpsr _ _ _ _

/-- A write under a condition leaves the SPSRs. -/
@[simp] theorem ArmCore.writeIf_rstat : (p.writeIf b reg value).reg.rstat = p.reg.rstat := by
  cases b with
  | false => rfl
  | true => exact registersWrite_rstat _ _ _ _

/-- A write under a condition leaves the memory. -/
@[simp] theorem ArmCore.writeIf_mem : (p.writeIf b reg value).mem = p.mem := by
  cases b with
  | false => rfl
  | true => rfl

/-- A write under a condition leaves the mode. -/
@[simp] theorem ArmCore.writeIf_mode : (p.writeIf b reg value).mode = p.mode := by
  cases b with
  | false => rfl
  | true => exact p.write_mode reg value

variable {p b reg value}

/-- Under a condition that holds a write is made. -/
theorem ArmCore.writeIf_of (h : b = true) : p.writeIf b reg value = p.write reg value := if_pos h

/-- A register other than r15 reads as what is written to it. -/
theorem ArmCore.read_write_self (hm : p.mode ∈ modes) (hr : reg ≤ 15) (hpc : reg ≠ 15) :
    (p.write reg value).read reg = value := by
  rw [ArmCore.read, ArmCore.readInternal, if_neg hpc, ArmCore.write_mode]
  exact registersRead_registersWrite_self _ _ _ _ (slot_isSome hr hm)

/-- A register reads as before where another one is written. -/
theorem ArmCore.read_write_ne {reg' : Byte} (h : reg ≠ reg') :
    (p.write reg value).read reg' = p.read reg' := by
  simp only [ArmCore.read, ArmCore.readInternal, ArmCore.write_mode]
  rw [ArmCore.write, registersRead_registersWrite_ne _ _ _ h]

/-- A register reads as before if another one is written, or none. -/
theorem ArmCore.read_writeIf_ne {reg' : Byte} (h : b = true → reg ≠ reg') :
    (p.writeIf b reg value).read reg' = p.read reg' := by
  cases b with
  | false => rfl
  | true => exact ArmCore.read_write_ne (h rfl)

/-- The slots of the other registers keep what they hold. -/
theorem ArmCore.writeIf_genreg {j : Fin gregTable} (h : b = true → slot reg p.mode ≠ some j) :
    (p.writeIf b reg value).reg.genreg j = p.reg.genreg j := by
  cases b with
  | false => rfl
  | true => exact (registersWrite_genreg _ _ _ _ _).trans (if_neg (h rfl))

end

/-- The state after the query for an SPSR. -/
def ArmCore.queried (p : ArmCore) : ArmCore :=
  { p with reg := (registersCurrentModeHasSpsr p.reg).2 }

/-- The query has saved CPSR into the SPSR: restoring CPSR from there leaves it. -/
theorem ArmCore.queried_restore (p : ArmCore) (h : (registersCurrentModeHasSpsr p.reg).1 = true) :
    p.queried.writeCpsr (registersReadSpsr p.queried.reg p.queried.mode) = p.queried := by
  have hread : registersReadSpsr p.queried.reg p.queried.mode = p.queried.reg.cpsr :=
    (registersReadSpsr_query p.reg h).trans (registersCurrentModeHasSpsr_cpsr p.reg).symm
  rw [hread]
  rfl

/-! ## Concrete states -/

/-- The memory that holds the words, in the big-endian order. -/
def Memory.ofWords (words : List Word) : Memory where
  data := fun i => ((words.getD (i / 4) 0) >>> ((3 - i % 4) * 8)).setWidth 8
  size := BitVec.ofNat 64 (4 * words.length)

/-- A state with the given CPSR and memory, all other registers being 0. -/
def ArmCore.initial (cpsr : Word) (mem : Memory) : ArmCore where
  cycleCount := 0
  reg := { registersCreate with cpsr }
  mem := mem
  accesses := []
  output := []

/-- Locals that hold 0. -/
def Locals.zero : Locals where
  instruction := 0
  address := 0
  octet := 0
  half := 0
  mot := 0
  value := fun _ => 0
  swi := 0

end ArmSimulator
