import ArmSimulator.GdbProtocol
import ArmSimulator.Instruction
import ArmSimulator.Lib.Fault

/-!
# `gdb_protocol.c`: the handlers of the packets

A handler is called with `data`, what follows the first character of the packet: the rest of the
payload, the NUL that has replaced the `#`, the two digits, and the NUL at the end of the token. It
may read on behind that; `GdbLocals.past` says what lies there. A handler that does not return stops
with a `Fault`. `trace_arm_state`, and the messages of `debug` and `warning`, are left out.
-/

namespace ArmSimulator

/-- The value of an exit code. -/
def ExitCode.toInt : ExitCode → Int
  | .success => 0
  | .failure => 1
  | .allocError => 2
  | .nullReference => 3
  | .dataCorrupted => 4
  | .fileNotFound => 5
  | .invalidArguments => 6
  | .permissionDenied => 7
  | .indexOutOfRange => 8
  | .undefinedBehaviour => 9

namespace Gdb

/-- What stops a handler. -/
inductive Fault where
  /-- An `assert` fails. -/
  | assertion
  /-- A byte behind the packet is read where there is no memory. -/
  | pastEnd
  /-- `index` finds nothing, and the handler goes on from its result. -/
  | failedSearch
  /-- A byte is written outside the array `packet`. -/
  | packetBound
  /-- An entry outside the array `breakpoints` is accessed. -/
  | tableBound
  /-- The loop of `cont` has not ended after the given number of steps. -/
  | unfinished
  deriving DecidableEq, Repr

/-- What a handler finds outside the state and its packet: its uninitialised locals by their name,
and the memory behind the packet. -/
structure GdbLocals where
  /-- The locals of the instructions that are executed, step by step. -/
  step : Nat → Locals
  /-- `address` of `read_memory`, `write_memory_binary` and the breakpoint handlers. -/
  address : Word
  /-- `size` of `read_memory` and `write_memory_binary`. -/
  size : Word
  /-- `value` of `read_memory`. -/
  octet : Byte
  /-- `reg` of `write_single_register`. -/
  reg : Word
  /-- `type` of the breakpoint handlers. -/
  type : Byte
  /-- `value` of `read_uint32` in its calls, one after the other. -/
  value : Nat → Word
  /-- The bytes from the `k`-th position behind the packet on; none where there is no memory. -/
  past : Nat → List Byte
  /-- A bound for the steps of `cont`. -/
  fuel : Nat

/-- Locals that hold 0, and no memory behind the packet. -/
def GdbLocals.zero : GdbLocals where
  step := fun _ => .zero
  address := 0
  size := 0
  octet := 0
  reg := 0
  type := 0
  value := fun _ => 0
  past := fun _ => []
  fuel := 0

/-- A handler, or a part of one. -/
abbrev HandlerM (α : Type) := Fallible Fault GdbData α

open Fallible

/-! ## Sending -/

/-- `snprintf` of a string to `gdb->packet + i`. -/
def putText (i : Nat) (s : List Byte) : HandlerM Unit := ofProg .packetBound (writeString i s)

/-- `gdb_send_buffer`. -/
def sendBuffer : HandlerM Unit := ofProg .packetBound gdbSendBuffer

/-- `gdb_send_data`. -/
def sendData (data : List Byte) : HandlerM Unit := ofProg .packetBound (gdbSendData data)

/-- `write_uint32`. -/
def writeUint32 (i : Nat) (value : Word) : HandlerM Unit := putText i (formatHex 8 value.toNat)

/-- `gdb_send_stop_reason`. -/
def sendStopReason : HandlerM Unit := do
  let gdb ← get
  let action :=
    if gdb.targetException = undefinedInstruction then ascii "S04"
    else if gdb.targetException = prefetchAbort then ascii "S0A"
    else if gdb.targetException = dataAbort then ascii "S0B"
    else if gdb.targetException = endSimulation then ascii "X05"
    else ascii "S05"
  sendData action

section
variable (loc : GdbLocals)

/-! ## Reading the packet -/

/-- The string `data + k`; where `data` ends before, it is what lies behind. -/
def stringAt (data : List Byte) (k : Nat) : HandlerM (List Byte) :=
  if k < data.length then return data.drop k
  else if loc.past (k - data.length) = [] then fault .pastEnd
  else return loc.past (k - data.length)

/-- `data[k]`. -/
def byteAt (data : List Byte) (k : Nat) : HandlerM Byte := do
  let s ← stringAt loc data k
  return s.headD Ascii.nul

/-- `read_uint32(data + k)`, in the `i`-th call of the handler. -/
def readUint32 (i : Nat) (data : List Byte) (k : Nat) : HandlerM Word := do
  let s ← stringAt loc data k
  return (scanHexEight s).getD (loc.value i)

/-- `index(data, c)`, the position of the character in the string. -/
def index (data : List Byte) (c : Byte) : HandlerM Nat :=
  match (cString data).findIdx? (· = c) with
  | some k => return k
  | none => fault .failedSearch

/-! ## Steps -/

variable (endianess : Byte)

/-- `single_step`, with the locals of the `i`-th step. -/
def singleStep (i : Nat) : HandlerM Unit := fun gdb =>
  match (armStep endianess (loc.step i)).run gdb.arm with
  | some (targetException, arm) => .ok ((), { gdb with arm, targetException })
  | none => .error .assertion

/-- The loop of `cont`, from the `i`-th step on. -/
def contLoop (i : Nat) : Nat → HandlerM Unit
  | 0 => fault .unfinished
  | fuel + 1 => do
    singleStep loc endianess i
    let gdb ← get
    let pc := registersRead gdb.arm.reg 15 (registersGetMode gdb.arm.reg)
    let position ← ofProg .tableBound (gdbFindBreakpoint pc)
    if position ≠ -1 ∨ gdb.targetException ≠ 0 then return ()
    else contLoop (i + 1) fuel

/-- `cont`. -/
def cont (_data : List Byte) : HandlerM Unit := do
  contLoop loc endianess 0 loc.fuel
  sendStopReason

/-- `cont_with_signal`. -/
def contWithSignal (data : List Byte) : HandlerM Unit := cont loc endianess data

/-- `single_step_with_signal`. -/
def singleStepWithSignal : HandlerM Unit := singleStep loc endianess 0

/-- `step`. -/
def step (_data : List Byte) : HandlerM Unit := do
  singleStep loc endianess 0
  sendStopReason

/-- `step_with_signal`. -/
def stepWithSignal (_data : List Byte) : HandlerM Unit := do
  singleStepWithSignal loc endianess
  sendStopReason

/-! ## Requests about the target -/

/-- `kill_request`, which shuts the connection down: no byte can be sent after it. -/
def killRequest (_data : List Byte) : HandlerM Unit := modify fun gdb => { gdb with closed := true }

/-- `query`. -/
def query (data : List Byte) : HandlerM Unit :=
  let s := cString data
  if s = ascii "Offsets" then sendData (ascii "Text=0;Data=0;Bss=0")
  else if s.take 9 = ascii "Supported" then sendData (ascii "PacketSize=400")
  else if s = ascii "TStatus" then sendData (ascii "T0;tnotrun:0")
  else if s = ascii "Symbol::" then sendData []
  else sendData []

/-- `reason`. -/
def reason (_data : List Byte) : HandlerM Unit := sendStopReason

/-- `set_thread`. -/
def setThread (data : List Byte) : HandlerM Unit := do
  let type ← byteAt loc data 0
  let s ← stringAt loc data 1
  let value := (atoi s).toInt
  if (type = Ascii.of 'c' ∨ type = Ascii.of 'g') ∧ value < 1 ∧ value > -2 then
    sendData (ascii "OK")
  else
    sendData (ascii "E01")

/-! ## Registers -/

/-- `read_register` to `gdb->packet + i`. -/
def readRegister (i : Nat) (reg : Byte) : HandlerM Unit := do
  check .assertion (reg < 16)
  let gdb ← get
  writeUint32 i (registersRead gdb.arm.reg reg (registersGetMode gdb.arm.reg))

/-- The text for a register that is not implemented. -/
def unavailable : List Byte := ascii "xxxxxxxx"

/-- The loop over the general registers of `read_general_registers`. -/
def readRegistersLoop (position : Nat) : HandlerM Nat :=
  (List.range 16).foldlM (fun position i => do
    readRegister position (BitVec.ofNat 8 i)
    return position + 8) position

/-- The two loops over the floating point registers, of 8 and 3 rounds. -/
def floatsLoop (position : Nat) : HandlerM Nat :=
  (List.range (8 * 3)).foldlM (fun position _ => do
    putText position unavailable
    return position + 8) position

/-- `read_general_registers`. -/
def readGeneralRegisters (_data : List Byte) : HandlerM Unit := do
  let position ← readRegistersLoop 1
  let position ← floatsLoop position
  putText position unavailable
  let position := position + 8
  let gdb ← get
  writeUint32 position (registersReadCpsr gdb.arm.reg)
  sendBuffer

/-- `read_single_register`. -/
def readSingleRegister (data : List Byte) : HandlerM Unit := do
  let reg := atoi data
  readRegister 1 (reg.setWidth 8)
  sendBuffer

/-- `write_register` of the number at `data + k`, in the `i`-th call of the handler. -/
def writeRegister (i : Nat) (reg : Word) (data : List Byte) (k : Nat) : HandlerM Unit := do
  let value ← readUint32 loc i data k
  check .assertion (reg < 16)
  modify fun gdb => { gdb with arm := { gdb.arm with
    reg := registersWrite gdb.arm.reg (reg.setWidth 8) (registersGetMode gdb.arm.reg) value } }

/-- The loop over the general registers of `write_general_registers`. -/
def writeRegistersLoop (data : List Byte) (position : Nat) : HandlerM Nat :=
  (List.range 16).foldlM (fun position i => do
    writeRegister loc i (BitVec.ofNat 32 i) data position
    return position + 8) position

/-- `write_general_registers`. -/
def writeGeneralRegisters (data : List Byte) : HandlerM Unit := do
  let position ← writeRegistersLoop loc data 0
  let position := position + 8 * 3 * 8
  let position := position + 8
  let value ← readUint32 loc 16 data position
  modify fun gdb => { gdb with arm := { gdb.arm with reg := registersWriteCpsr gdb.arm.reg value } }
  sendData (ascii "OK")

/-- `write_single_register`. -/
def writeSingleRegister (data : List Byte) : HandlerM Unit := do
  let reg := (scanHexes 1 data)[0]?.getD loc.reg
  let k ← index data Ascii.equals
  writeRegister loc 0 reg data (k + 1)
  sendData (ascii "OK")

/-! ## Memory -/

/-- What `sscanf(data, "%x,%x", &address, &size)` leaves in `address`. -/
def packetAddress (data : List Byte) : Word := (scanHexes 2 data)[0]?.getD loc.address

/-- What a packet leaves in `size`. -/
def packetSize (data : List Byte) : Word := (scanHexes 2 data)[1]?.getD loc.size

/-- The loop of `read_memory`, with `size` bytes to go. -/
def readLoop (address : Word) (value : Byte) (position : Nat) : Nat → HandlerM Unit
  | 0 => return ()
  | size + 1 => do
    let gdb ← get
    let (code, value) := memoryReadByte gdb.arm.mem address value
    if code.toInt ≠ -1 then
      putText position (formatHex 2 value.toNat)
      readLoop (address + 1) value (position + 2) size
    else
      return ()

/-- `EFAULT`. -/
abbrev EFAULT : Nat := 14

/-- `read_memory`. -/
def readMemory (data : List Byte) : HandlerM Unit := do
  let address := packetAddress loc data
  let size := packetSize loc data
  let gdb ← get
  if address.setWidth 64 < memoryGetSize gdb.arm.mem then
    ofProg .packetBound (writePacket 1 Ascii.nul)
    readLoop address loc.octet 1 size.toNat
  else
    putText 1 (ascii "E" ++ formatHexUpper 2 EFAULT)
  sendBuffer

/-- The loop of `write_memory_binary`, with `size` bytes to go. -/
def writeLoop (data : List Byte) (content : Nat) (address : Word) (writeOk : Bool) :
    Nat → HandlerM Bool
  | 0 => return writeOk
  | size + 1 =>
    if writeOk then do
      let c ← byteAt loc data content
      let (value, content) ← if c = Ascii.escape then do
          let c ← byteAt loc data (content + 1)
          pure (c ^^^ 0x20, content + 1)
        else
          pure (c, content)
      let gdb ← get
      let (code, mem) := memoryWriteByte gdb.arm.mem address value
      set { gdb with arm := { gdb.arm with mem } }
      writeLoop data (content + 1) (address + 1) (code = .success) size
    else
      return writeOk

/-- `write_memory_binary`. -/
def writeMemoryBinary (data : List Byte) : HandlerM Unit := do
  let address := packetAddress loc data
  let size := packetSize loc data
  let k ← index data Ascii.colon
  let gdb ← get
  let writeOk ← writeLoop loc data (k + 1) address
    (address.setWidth 64 < memoryGetSize gdb.arm.mem) size.toNat
  if writeOk then sendData (ascii "OK") else sendData (ascii "E02")

/-! ## Breakpoints -/

/-- What `set_breakpoint` and `remove_breakpoint` do with a change of the table, and the error of a
change that fails. -/
def changeBreakpoint (change : Word → GdbM Int) (error data : List Byte) : HandlerM Unit := do
  let numbers := scanHexes 3 data
  let type := (numbers[0]?.map (BitVec.setWidth 8)).getD loc.type
  let address := numbers[1]?.getD loc.address
  if type ≠ 0 then
    sendData (ascii "E03")
  else
    let changed ← ofProg .tableBound (change address)
    if changed ≠ 0 then sendData (ascii "OK") else sendData error

/-- `set_breakpoint`. -/
def setBreakpoint : List Byte → HandlerM Unit := changeBreakpoint loc gdbAddBreakpoint (ascii "E04")

/-- `remove_breakpoint`. -/
def removeBreakpoint : List Byte → HandlerM Unit :=
  changeBreakpoint loc gdbRemoveBreakpoint (ascii "E05")

/-! ## The table of the handlers -/

/-- The entries that `gdb_init` makes in `handler`. -/
def handlers : List (Byte × (List Byte → HandlerM Unit)) :=
  [(Ascii.of 'c', cont loc endianess), (Ascii.of 'C', contWithSignal loc endianess),
    (Ascii.of 'k', killRequest), (Ascii.of 'q', query), (Ascii.of 'g', readGeneralRegisters),
    (Ascii.of 'm', readMemory loc), (Ascii.of 'p', readSingleRegister), (Ascii.of '?', reason),
    (Ascii.of 'H', setThread loc), (Ascii.of 's', step loc endianess),
    (Ascii.of 'S', stepWithSignal loc endianess), (Ascii.of 'G', writeGeneralRegisters loc),
    (Ascii.of 'X', writeMemoryBinary loc), (Ascii.of 'P', writeSingleRegister loc),
    (Ascii.of 'z', removeBreakpoint loc), (Ascii.of 'Z', setBreakpoint loc)]

/-- `handler[index]`; `none` is `NULL`. -/
def handler (index : Byte) : Option (List Byte → HandlerM Unit) :=
  (handlers loc endianess).lookup index

/-- The end of `gdb_packet_analysis`, with its faults: the handler of the first character is called,
or an empty answer is sent. -/
def handle (packet : List Byte) : HandlerM Unit :=
  match packet[1]? with
  | some index =>
    match handler loc endianess index with
    | some handler => handler (packet.drop 2)
    | none => sendData []
  | none => fault .pastEnd

/-- The handlers as `gdb_packet_analysis` calls them. -/
def table (index : Byte) : Option (List Byte → GdbM Unit) :=
  (handler loc endianess index).map fun handler data => toProg (handler data)

/-- What the analysis of a packet does is what `handle` does, without its faults. -/
theorem callHandler_table (packet : List Byte) :
    callHandler (table loc endianess) packet = toProg (handle loc endianess packet) := by
  unfold callHandler handle
  cases packet[1]? with
  | none => rfl
  | some index =>
    simp only [table]
    cases handler loc endianess index with
    | none => exact (toProg_ofProg _ _).symm
    | some handler => rfl

end

end Gdb

end ArmSimulator
