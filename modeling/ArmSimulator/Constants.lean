import ArmSimulator.Util

/-!
# `arm_constants.h`: modes, exceptions, status bits, masks

The return codes of the instruction functions and the exception numbers share one numbering: an
instruction returns `successfullyDecoded` or the number of the exception it raises.
-/

namespace ArmSimulator

/-! ## Modes: the values of `CPSR[4:0]` -/

abbrev USR : Byte := 0x10
abbrev FIQ : Byte := 0x11
abbrev IRQ : Byte := 0x12
abbrev SVC : Byte := 0x13
abbrev ABT : Byte := 0x17
abbrev UND : Byte := 0x1b
abbrev SYS : Byte := 0x1f

/-- The seven modes of the architecture. -/
def modes : List Byte := [USR, FIQ, IRQ, SVC, ABT, UND, SYS]

/-- The five exception modes, those with an SPSR. -/
def exceptionModes : List Byte := [FIQ, IRQ, SVC, ABT, UND]

/-! ## Return codes and exceptions -/

abbrev successfullyDecoded : Byte := 0
abbrev reset : Byte := 1
abbrev dataAbort : Byte := 2
abbrev fastInterrupt : Byte := 3
abbrev interrupt : Byte := 4
abbrev prefetchAbort : Byte := 6
abbrev undefinedInstruction : Byte := 7
abbrev softwareInterrupt : Byte := 8

/-- Not an exception: what a software interrupt returns to end the simulation. -/
abbrev endSimulation : Byte := 9

/-! ## Status bits -/

namespace Flag

abbrev N : Nat := 31
abbrev Z : Nat := 30
abbrev C : Nat := 29
abbrev V : Nat := 28

end Flag

/-! ## Shift operations -/

namespace Shift

@[match_pattern] abbrev LSL : Byte := 0
@[match_pattern] abbrev LSR : Byte := 1
@[match_pattern] abbrev ASR : Byte := 2
@[match_pattern] abbrev ROR : Byte := 3

end Shift

/-! ## Conditions: the values of bits 31:28 of an instruction -/

namespace Cond

@[match_pattern] abbrev EQ : Word := 0
@[match_pattern] abbrev NE : Word := 1
@[match_pattern] abbrev HS : Word := 2
@[match_pattern] abbrev LO : Word := 3
@[match_pattern] abbrev MI : Word := 4
@[match_pattern] abbrev PL : Word := 5
@[match_pattern] abbrev VS : Word := 6
@[match_pattern] abbrev VC : Word := 7
@[match_pattern] abbrev HI : Word := 8
@[match_pattern] abbrev LS : Word := 9
@[match_pattern] abbrev GE : Word := 10
@[match_pattern] abbrev LT : Word := 11
@[match_pattern] abbrev GT : Word := 12
@[match_pattern] abbrev LE : Word := 13
@[match_pattern] abbrev AL : Word := 14

end Cond

/-! ## Masks of `MSR` -/

abbrev unallocMask : Word := 0x0FFFFF00
abbrev userMask : Word := 0xF0000000
abbrev privMask : Word := 0x0000000F
abbrev stateMask : Word := 0x00000020

end ArmSimulator
