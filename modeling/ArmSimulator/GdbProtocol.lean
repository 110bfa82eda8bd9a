import ArmSimulator.Core
import ArmSimulator.Stdio

/-!
# `gdb_protocol.c`: the GDB remote protocol

`GdbData` is `struct gdb_protocol_data`, with the bytes sent to GDB so far, and whether the
connection takes more, in place of the file descriptor; the registers and the memory that it points
to are those of `arm`. An access to an array outside its bounds has no result, so that a run that
returns has made none. The messages of `debug` are left out.
-/

namespace ArmSimulator

/-- `MAX_PACKET_SIZE`. -/
abbrev maxPacketSize : Nat := 4096

/-- `MAX_BREAKPOINTS_NUMBER`. -/
abbrev maxBreakpointsNumber : Nat := 1024

/-- `struct gdb_protocol_data`; its `buffer` is `packet + 1`. -/
structure GdbData where
  arm : ArmCore
  /-- The code of the last step. -/
  targetException : Byte
  /-- The bytes of `packet`, of which there are `maxPacketSize`. -/
  packet : Nat → Byte
  /-- The entries of `breakpoints`, of which there are `maxBreakpointsNumber`. -/
  breakpoints : Nat → Word
  breakpointsNumber : Int
  /-- The length of the last packet. -/
  len : Nat
  /-- The bytes handed to `Rio_writen`, the first one first. -/
  sent : List Byte
  /-- The side of the connection on which bytes are sent is shut down. -/
  closed : Bool

/-- A function on the state `gdb`. -/
abbrev GdbM (α : Type) := Prog GdbData α

/-- `gdb_init_data`: the arrays hold what `malloc` found. -/
def gdbInitData (arm : ArmCore) (packet : Nat → Byte) (breakpoints : Nat → Word) : GdbData where
  arm := arm
  targetException := 0
  packet := packet
  breakpoints := breakpoints
  breakpointsNumber := 0
  len := 0
  sent := []
  closed := false

/-! ## Breakpoints -/

/-- `gdb->breakpoints[i]`. -/
def readBreakpoint (i : Int) : GdbM Word := do
  Prog.assert (0 ≤ i ∧ i < maxBreakpointsNumber)
  let gdb ← get
  return gdb.breakpoints i.toNat

/-- `gdb->breakpoints[i] = value`. -/
def writeBreakpoint (i : Int) (value : Word) : GdbM Unit := do
  Prog.assert (0 ≤ i ∧ i < maxBreakpointsNumber)
  modify fun gdb => { gdb with breakpoints := Function.update gdb.breakpoints i.toNat value }

/-- `gdb->breakpoints_number`. -/
def readBreakpointsNumber : GdbM Int := do
  let gdb ← get
  return gdb.breakpointsNumber

/-- `gdb->breakpoints_number = value`. -/
def writeBreakpointsNumber (value : Int) : GdbM Unit :=
  modify fun gdb => { gdb with breakpointsNumber := value }

/-- The loop of `gdb_find_breakpoint`. -/
def findLoop (address : Word) (first last : Int) : GdbM Int :=
  if h : first < last then do
    let middle := (first + last) >>> (1 : Nat)
    let value ← readBreakpoint middle
    if value > address then
      findLoop address first middle
    else if value < address then
      findLoop address (middle + 1) last
    else
      return middle
  else
    return -1
termination_by (last - first).toNat
decreasing_by
  all_goals
    have hm : (first + last) >>> (1 : Nat) = (first + last) / 2 := Int.shiftRight_eq_div_pow _ 1
    omega

/-- `gdb_find_breakpoint`: the index of the address, or -1. -/
def gdbFindBreakpoint (address : Word) : GdbM Int := do
  let last ← readBreakpointsNumber
  findLoop address 0 last

/-- The loop of `gdb_add_breakpoint`: the entries above the address are moved up. -/
def addLoop (address : Word) (j : Int) : GdbM Int :=
  if 0 < j then do
    let value ← readBreakpoint (j - 1)
    if value > address then
      writeBreakpoint j value
      addLoop address (j - 1)
    else
      return j
  else
    return j
termination_by j.toNat

/-- `gdb_add_breakpoint`. -/
def gdbAddBreakpoint (address : Word) : GdbM Int := do
  let number ← readBreakpointsNumber
  if number < maxBreakpointsNumber then
    let found ← gdbFindBreakpoint address
    if found ≠ -1 then
      return 1
    else
      let number ← readBreakpointsNumber
      writeBreakpointsNumber (number + 1)
      let j ← addLoop address number
      writeBreakpoint j address
      return 1
  else
    return 0

/-- The loop of `gdb_remove_breakpoint`: the entries after the address are moved down. -/
def removeLoop (j last : Int) : GdbM Unit :=
  if j < last then do
    let value ← readBreakpoint (j + 1)
    writeBreakpoint j value
    removeLoop (j + 1) last
  else
    return ()
termination_by (last - j).toNat

/-- `gdb_remove_breakpoint`. -/
def gdbRemoveBreakpoint (address : Word) : GdbM Int := do
  let position ← gdbFindBreakpoint address
  if position = -1 then
    return 0
  else
    let number ← readBreakpointsNumber
    let last := number - 1
    writeBreakpointsNumber last
    removeLoop position last
    return 1

/-! ## Packets -/

/-- `gdb->packet[i]`. -/
def readPacket (i : Nat) : GdbM Byte := do
  Prog.assert (i < maxPacketSize)
  let gdb ← get
  return gdb.packet i

/-- `gdb->packet[i] = value`. -/
def writePacket (i : Nat) (value : Byte) : GdbM Unit := do
  Prog.assert (i < maxPacketSize)
  modify fun gdb => { gdb with packet := Function.update gdb.packet i value }

/-- `strcpy` or `snprintf` of a string to `gdb->packet + i`. -/
def writeString (i : Nat) : List Byte → GdbM Unit
  | [] => writePacket i Ascii.nul
  | c :: s => do
    writePacket i c
    writeString (i + 1) s

/-- `Rio_writen`, which writes all the bytes. Where the connection is closed and there is a byte to
write, it ends the process instead, so that nothing follows: an event on which that happens is one
that does not come to pass (`ScannerEvent.WriteFails`). -/
def rioWriten (bytes : List Byte) : GdbM Unit :=
  modify fun gdb => { gdb with sent := gdb.sent ++ bytes }

/-- `gdb_transmit_packet`. -/
def gdbTransmitPacket : GdbM Unit := do
  let gdb ← get
  Prog.assert (gdb.len ≤ maxPacketSize)
  rioWriten ((List.range' 0 gdb.len).map gdb.packet)

/-- `gdb_send_ack`. -/
def gdbSendAck : GdbM Unit := rioWriten [Ascii.plus]

/-- `gdb_require_retransmission`. -/
def gdbRequireRetransmission : GdbM Unit := rioWriten [Ascii.minus]

/-- `check += c`, where `check` is an `unsigned char` and `c` is a `char`, which is signed. -/
def addChar (check c : Byte) : Byte := BitVec.ofInt 8 (check.toNat + c.toInt)

/-- The loop of `gdb_send_buffer`: the sum of the characters up to the NUL, and its index. -/
def bufferLoop (i : Nat) (check : Byte) : GdbM (Nat × Byte) :=
  if i < maxPacketSize then do
    let c ← readPacket i
    if c ≠ Ascii.nul then
      bufferLoop (i + 1) (addChar check c)
    else
      return (i, check)
  else
    failure
termination_by maxPacketSize - i

/-- `gdb_send_buffer`. -/
def gdbSendBuffer : GdbM Unit := do
  writePacket 0 Ascii.dollar
  let (i, check) ← bufferLoop 1 0
  writePacket i Ascii.hash
  writeString (i + 1) (formatHex 2 check.toNat)
  let i := i + 1 + 2
  writePacket i Ascii.nul
  modify fun gdb => { gdb with len := i }
  gdbTransmitPacket

/-- `gdb_send_data`. -/
def gdbSendData (data : List Byte) : GdbM Unit := do
  writeString 1 data
  gdbSendBuffer

/-- The loop of `gdb_packet_analysis`: the sum of the characters before the `#`, and its index. -/
def analysisLoop (packet : List Byte) (length i : Nat) (check : Byte) : GdbM (Nat × Byte) :=
  if i < length - 3 then
    match packet[i]? with
    | some c => analysisLoop packet length (i + 1) (addChar check c)
    | none => failure
  else
    return (i, check)
termination_by length - i

section
variable (handler : Byte → Option (List Byte → GdbM Unit))

/-- The end of `gdb_packet_analysis`, which calls the handler of the first character. The lock that
is held meanwhile is left out. -/
def callHandler (packet : List Byte) : GdbM Unit :=
  match packet[1]? with
  | some index =>
    match handler index with
    | some handle => handle (packet.drop 2)
    | none => gdbSendData []
  | none => failure

/-- `gdb_packet_analysis`. The local `given` is what `sscanf` leaves there: what it held before,
`given₀`, where no number is scanned. -/
def gdbPacketAnalysis (given₀ : Word) (packet : List Byte) (length : Nat) : GdbM Unit := do
  let (i, check) ← analysisLoop packet length 1 0
  let given := ((scanHex (packet.drop (i + 1))).map Prod.fst).getD given₀
  if check.setWidth 32 = given then
    gdbSendAck
    Prog.assert (i < packet.length)
    callHandler handler (packet.set i Ascii.nul)
  else
    gdbRequireRetransmission

end

end ArmSimulator
