import ArmSimulator.UserMode
import ArmSimulator.Reserved
import ArmSimulator.Interrupt
import ArmSimulator.SpsrStore
import ArmSimulator.MemoryStore
import ArmSimulator.Endianness
import ArmSimulator.Carry
import ArmSimulator.Undefined
import ArmSimulator.PushPop
import ArmSimulator.ExistingMode
import ArmSimulator.Confidential
import ArmSimulator.Banking
import ArmSimulator.Condition
import ArmSimulator.Miscellaneous
import ArmSimulator.Abort
import ArmSimulator.Alignment
import ArmSimulator.GdbProtocol
import ArmSimulator.Lib.SortedTable
import ArmSimulator.Breakpoints
import ArmSimulator.Lib.Lexer
import ArmSimulator.Scanner
import ArmSimulator.Framing
import ArmSimulator.CarryChain
import ArmSimulator.Lib.Fault
import ArmSimulator.GdbHandlers
import ArmSimulator.Replies
import ArmSimulator.Lib.Escape
import ArmSimulator.MemoryPackets
import ArmSimulator.RegisterPackets
import ArmSimulator.HandlerRules
import ArmSimulator.HandlerFaults
import ArmSimulator.Retransmission
import ArmSimulator.Lib.Shift
import ArmSimulator.Shifter
import ArmSimulator.BlockContents
import ArmSimulator.ExceptionReturn
import ArmSimulator.SingleTransfers
import ArmSimulator.SavedStatus
import ArmSimulator.ReturnAddress
import ArmSimulator.Masking
import ArmSimulator.ControlFlow
import ArmSimulator.MemoryBounds
import ArmSimulator.MemoryDump
import ArmSimulator.Continue
import ArmSimulator.ErrorBuffer
import ArmSimulator.DebuggedFiles
import ArmSimulator.Arithmetic
import ArmSimulator.Lib.Resume
import ArmSimulator.Lib.Mutex
import ArmSimulator.Listeners
import ArmSimulator.Interleaving
import ArmSimulator.Stream
import ArmSimulator.Progress
import ArmSimulator.Debugger
import ArmSimulator.DebuggerSession
import ArmSimulator.Accounting
import ArmSimulator.Lib.Inevitable
import ArmSimulator.Isa
import ArmSimulator.Refinement
import ArmSimulator.ProgramLogic
import ArmSimulator.Programs
import ArmSimulator.DebuggedPrograms
import ArmSimulator.Checkpoint
import ArmSimulator.Lib.Recognizer
import ArmSimulator.ScannerTables
import ArmSimulator.Yylex
