import ArmSimulator.Lib.Mutex
import ArmSimulator.Exception
import ArmSimulator.Framing
import ArmSimulator.GdbHandlers
import ArmSimulator.Session

/-!
# `arm_simulator.c`: the threads of the listeners

`gdb_listener` runs the scanner on what GDB sends, and `irq_listener` reads the bytes of interrupts,
from one connection after the other. They share the processor, behind a lock:
`gdb_packet_analysis` takes it for the call of a handler, and `irq_listener` for the call of
`arm_exception`. What `gdb_listener` does outside does not touch the processor
(`ignoresArm_beforeLock`).

The process ends when `gdb_listener` has returned, for which `main` waits, or when `Rio_writen`
fails on a connection that `kill_request` has closed (`GdbListener.EndsProcess`). `main` then
destroys the processor without the lock and exits, whatever `irq_listener` is doing; the threads may
still take steps before it gets there, and the states that they reach are those of the model.
-/

namespace ArmSimulator

/-! ## The processor in the data of the protocol -/

/-- The data with another processor. -/
def GdbData.withArm (g : GdbData) (arm : ArmCore) : GdbData := { g with arm }

def ParserData.withArm (data : ParserData) (arm : ArmCore) : ParserData :=
  { data with gdb := data.gdb.withArm arm }

/-- A function of the protocol that does not touch the processor. -/
abbrev IgnoresArm {α : Type} (m : GdbM α) : Prop :=
  Prog.Ignores (fun arm g => GdbData.withArm g arm) m

/-! ## Up to the lock -/

section
variable (supported : Byte → Bool) (given₀ : Word)

/-- `gdb_packet_analysis` up to the lock: the packet that is to be handled. One that is rejected,
or that has no handler, is answered. -/
def beforeHandler (packet : List Byte) (length : Nat) : GdbM (Option (List Byte)) := do
  let (i, check) ← analysisLoop packet length 1 0
  let given := ((scanHex (packet.drop (i + 1))).map Prod.fst).getD given₀
  if check.setWidth 32 = given then
    gdbSendAck
    Prog.assert (i < packet.length)
    let packet := packet.set i Ascii.nul
    match packet[1]? with
    | some index =>
      if supported index then return some packet
      else
        gdbSendData []
        return none
    | none => failure
  else
    gdbRequireRetransmission
    return none

/-- The action of an event up to the lock, and the packet that is to be handled. -/
def ScannerEvent.beforeLock : ScannerEvent → ParserM (Option (List Byte))
  | .token (some .packet) text => do
    handleError
    onGdb (beforeHandler supported given₀ (text ++ [Ascii.nul]) text.length)
  | event => do
    event.action (fun _ => none) given₀
    return none

end

/-- A program on the data of GDB may be run in two parts. -/
theorem onGdb_bind {α β : Type} (m : GdbM α) (f : α → GdbM β) :
    onGdb (m >>= f) = onGdb m >>= fun a => onGdb (f a) := by
  funext data
  show ((m >>= f).run data.gdb).map _ = (onGdb m >>= fun a => onGdb (f a)).run data
  rw [StateT.run_bind, StateT.run_bind]
  show _ = ((m.run data.gdb).map _).bind _
  cases m.run data.gdb with
  | none => rfl
  | some r => rfl

/-- The rest of it, with the lock. -/
def withLock (handler : Byte → Option (List Byte → GdbM Unit)) :
    Option (List Byte) → GdbM Unit
  | some packet => callHandler handler packet
  | none => return ()

section
variable {handler : Byte → Option (List Byte → GdbM Unit)} {supported : Byte → Bool}
  (h : ∀ index, (handler index).isSome = supported index) (given₀ : Word)
include h

/-- **`gdb_packet_analysis`** is what it does up to the lock, and then the rest. -/
theorem gdbPacketAnalysis_eq (packet : List Byte) (length : Nat) :
    gdbPacketAnalysis handler given₀ packet length =
      beforeHandler supported given₀ packet length >>= withLock handler := by
  unfold gdbPacketAnalysis beforeHandler
  rw [bind_assoc]
  refine congrArg (analysisLoop packet length 1 0 >>= ·) (funext fun ⟨i, check⟩ => ?_)
  dsimp only
  by_cases hc : check.setWidth 32 =
      ((scanHex (packet.drop (i + 1))).map Prod.fst).getD given₀
  · rw [if_pos hc, if_pos hc, bind_assoc]
    refine congrArg (gdbSendAck >>= ·) (funext fun _ => ?_)
    rw [bind_assoc]
    refine congrArg (Prog.assert _ >>= ·) (funext fun _ => ?_)
    cases hindex : (packet.set i Ascii.nul)[1]? with
    | none =>
      unfold callHandler
      rw [hindex]
      rfl
    | some index =>
      have hhandler := h index
      dsimp only
      by_cases hs : supported index = true
      · rw [if_pos hs]
        rfl
      · rw [if_neg hs, bind_assoc]
        have hnone : handler index = none := by
          cases hh : handler index with
          | none => rfl
          | some handle =>
            rw [hh] at hhandler
            exact absurd hhandler.symm hs
        unfold callHandler
        rw [hindex]
        dsimp only
        rw [hnone]
        exact (bind_pure_unit (x := gdbSendData [])).symm
  · rw [if_neg hc, if_neg hc, bind_assoc]
    rfl

/-- **The action of an event** is what it does up to the lock, and then the rest. -/
theorem ScannerEvent.action_eq (event : ScannerEvent) :
    event.action handler given₀ =
      event.beforeLock supported given₀ >>= fun packet => onGdb (withLock handler packet) := by
  -- the events without a packet
  have hwhole : ∀ m : ParserM Unit,
      m = (m >>= fun _ => pure none) >>= fun packet => onGdb (withLock handler packet) := by
    intro m
    rw [bind_assoc]
    exact (bind_pure_unit (x := m)).symm
  match event with
  | .endOfFile => exact hwhole _
  | .token (some .ack) _ => exact hwhole _
  | .token (some .retransmission) _ => exact hwhole _
  | .token (some .other) _ => exact hwhole _
  | .token none _ => exact hwhole _
  | .token (some .packet) text =>
    show (handleError >>= fun _ => onGdb (gdbPacketAnalysis handler given₀ _ _)) =
      (handleError >>= fun _ => onGdb (beforeHandler supported given₀ _ _)) >>= _
    rw [bind_assoc, gdbPacketAnalysis_eq h]
    exact congrArg (handleError >>= ·) (funext fun _ => onGdb_bind _ _)

end

/-! ## Up to the lock the processor is not touched -/

section
variable {α : Type}

/-- What ignores the processor for every character ignores it after a character is read. -/
theorem ignoresArm_readPacket_bind {i : Nat} {f : Byte → GdbM α} (hf : ∀ c, IgnoresArm (f c)) :
    IgnoresArm (readPacket i >>= f) := by
  unfold readPacket
  rw [bind_assoc]
  refine (Prog.Ignores.assert _).bind fun _ => ?_
  rw [bind_assoc]
  exact Prog.Ignores.get_bind (fun _ _ => rfl) fun g => hf _

/-- The write of a character of the packet ignores the processor. -/
theorem ignoresArm_writePacket (i : Nat) (c : Byte) : IgnoresArm (writePacket i c) :=
  (Prog.Ignores.assert _).bind fun _ => Prog.Ignores.modify fun _ _ => rfl

/-- The write of a text of the packet ignores the processor. -/
theorem ignoresArm_writeString (i : Nat) (s : List Byte) : IgnoresArm (writeString i s) := by
  induction s generalizing i with
  | nil => exact ignoresArm_writePacket i _
  | cons c s ih => exact (ignoresArm_writePacket i c).bind fun _ => ih (i + 1)

/-- The loop that computes the checksum of the packet ignores the processor. -/
theorem ignoresArm_bufferLoop (i : Nat) (check : Byte) : IgnoresArm (bufferLoop i check) := by
  induction i, check using bufferLoop.induct with
  | case1 i check hi ih =>
    rw [bufferLoop, if_pos hi]
    exact ignoresArm_readPacket_bind fun c => Prog.Ignores.ite (ih c) (Prog.Ignores.pure _)
  | case2 i check hi =>
    rw [bufferLoop, if_neg hi]
    exact Prog.Ignores.failure

/-- `rio_writen` ignores the processor. -/
theorem ignoresArm_rioWriten (bytes : List Byte) : IgnoresArm (rioWriten bytes) :=
  Prog.Ignores.modify fun _ _ => rfl

/-- `gdb_transmit_packet` ignores the processor. -/
theorem ignoresArm_gdbTransmitPacket : IgnoresArm gdbTransmitPacket :=
  Prog.Ignores.get_bind (fun _ _ => rfl) fun _ =>
    (Prog.Ignores.assert _).bind fun _ => ignoresArm_rioWriten _

/-- `gdb_send_data` ignores the processor. -/
theorem ignoresArm_gdbSendData (data : List Byte) : IgnoresArm (gdbSendData data) := by
  refine (ignoresArm_writeString 1 data).bind fun _ => (ignoresArm_writePacket 0 _).bind fun _ => ?_
  refine (ignoresArm_bufferLoop 1 0).bind fun r => (ignoresArm_writePacket _ _).bind fun _ => ?_
  refine (ignoresArm_writeString _ _).bind fun _ => (ignoresArm_writePacket _ _).bind fun _ => ?_
  refine Prog.Ignores.bind ?_ fun _ => ignoresArm_gdbTransmitPacket
  exact Prog.Ignores.modify fun _ _ => rfl

/-- The loop that checks a received packet ignores the processor. -/
theorem ignoresArm_analysisLoop (packet : List Byte) (length i : Nat) (check : Byte) :
    IgnoresArm (analysisLoop packet length i check) := by
  induction i, check using analysisLoop.induct packet length with
  | case1 i check hi c hc ih =>
    rw [analysisLoop, if_pos hi, hc]
    exact ih
  | case2 i check hi hc =>
    rw [analysisLoop, if_pos hi, hc]
    exact Prog.Ignores.failure
  | case3 i check hi =>
    rw [analysisLoop, if_neg hi]
    exact Prog.Ignores.pure _

/-- What is done with a packet before its handler ignores the processor. -/
theorem ignoresArm_beforeHandler (supported : Byte → Bool) (given₀ : Word) (packet : List Byte)
    (length : Nat) : IgnoresArm (beforeHandler supported given₀ packet length) := by
  refine (ignoresArm_analysisLoop packet length 1 0).bind fun ⟨i, check⟩ => ?_
  refine Prog.Ignores.ite ?_ ?_
  · refine (ignoresArm_rioWriten _).bind fun _ => (Prog.Ignores.assert _).bind fun _ => ?_
    dsimp only
    split
    · refine Prog.Ignores.ite (Prog.Ignores.pure _) ?_
      exact (ignoresArm_gdbSendData []).bind fun _ => Prog.Ignores.pure _
    · exact Prog.Ignores.failure
  · exact (ignoresArm_rioWriten _).bind fun _ => Prog.Ignores.pure _

/-- A part of an action of the scanner that does not touch the processor. -/
abbrev ParserIgnoresArm (m : ParserM α) : Prop :=
  Prog.Ignores (fun arm data => ParserData.withArm data arm) m

/-- What ignores the processor on the data of GDB ignores it on the data of the parser. -/
theorem parserIgnoresArm_onGdb {m : GdbM α} (h : IgnoresArm m) : ParserIgnoresArm (onGdb m) := by
  intro arm data
  show (m.run (data.gdb.withArm arm)).map _ = ((m.run data.gdb).map _).map _
  rw [h arm data.gdb]
  cases m.run data.gdb with
  | none => rfl
  | some r => rfl

/-- The write of a character of the error buffer ignores the processor. -/
theorem parserIgnoresArm_writeError (i : Nat) (c : Byte) : ParserIgnoresArm (writeError i c) :=
  (Prog.Ignores.assert _).bind fun _ => Prog.Ignores.modify fun _ _ => rfl

/-- `gdb_handle_error` ignores the processor. -/
theorem parserIgnoresArm_handleError : ParserIgnoresArm handleError := by
  refine Prog.Ignores.get_bind (fun _ _ => rfl) fun data => Prog.Ignores.ite ?_ (.pure ())
  refine (parserIgnoresArm_writeError _ _).bind fun _ => ?_
  refine (parserIgnoresArm_onGdb (ignoresArm_rioWriten _)).bind fun _ => ?_
  exact Prog.Ignores.modify fun _ _ => rfl

/-- `gdb_add_character_to_error` ignores the processor. -/
theorem parserIgnoresArm_addCharacterToError (c : Byte) :
    ParserIgnoresArm (addCharacterToError c) := by
  refine Prog.Ignores.get_bind (fun _ _ => rfl) fun data => ?_
  refine (Prog.Ignores.when parserIgnoresArm_handleError).bind fun _ => ?_
  refine Prog.Ignores.get_bind (fun _ _ => rfl) fun data => ?_
  exact (parserIgnoresArm_writeError _ c).bind fun _ => Prog.Ignores.modify fun _ _ => rfl

/-- **Up to the lock no event touches the processor**: it neither reads nor changes it. -/
theorem ignoresArm_beforeLock (supported : Byte → Bool) (given₀ : Word) (event : ScannerEvent) :
    ParserIgnoresArm (event.beforeLock supported given₀) := by
  have herror : ParserIgnoresArm (handleError >>= fun _ => pure (none : Option (List Byte))) :=
    parserIgnoresArm_handleError.bind fun _ => Prog.Ignores.pure _
  match event with
  | .endOfFile => exact herror
  | .token (some .ack) _ => exact herror
  | .token none _ => exact (Prog.Ignores.pure ()).bind fun _ => Prog.Ignores.pure _
  | .token (some .other) text =>
    exact (parserIgnoresArm_addCharacterToError _).bind fun _ => Prog.Ignores.pure _
  | .token (some .retransmission) _ =>
    exact (parserIgnoresArm_handleError.bind fun _ =>
      parserIgnoresArm_onGdb ignoresArm_gdbTransmitPacket).bind fun _ => Prog.Ignores.pure _
  | .token (some .packet) text =>
    exact parserIgnoresArm_handleError.bind fun _ =>
      parserIgnoresArm_onGdb (ignoresArm_beforeHandler supported given₀ _ _)

end

/-! ## The threads -/

/-- The characters that have a handler. -/
def supported (index : Byte) : Bool := (Gdb.handler .zero 0 index).isSome

/-- Which characters have a handler does not depend on what the handlers find. -/
theorem isSome_table (loc : Gdb.GdbLocals) (endianess index : Byte) :
    (Gdb.table loc endianess index).isSome = supported index := by
  have hlookup : ∀ {l : List (Byte × (List Byte → Gdb.HandlerM Unit))},
      (l.lookup index).isSome = true ↔ index ∈ l.map Prod.fst := by
    intro l
    rw [List.lookup_isSome_iff, List.mem_map]
    exact exists_congr fun p => and_congr_right fun _ => beq_iff_eq.trans eq_comm
  unfold Gdb.table supported
  rw [Option.isSome_map, Bool.eq_iff_iff]
  have hleft := hlookup (l := Gdb.handlers loc endianess)
  have hright := hlookup (l := Gdb.handlers .zero 0)
  exact hleft.trans hright.symm

/-- The steps that the critical sections take: the calls of the handlers and of `arm_exception` may
be split into steps in any way, as long as without interruption they do what they do. -/
structure Splitting (endianess : Byte) where
  handle : Gdb.GdbLocals → ParserData → List Byte → Resume ArmCore ParserData
  run_handle : ∀ loc data packet arm, StateT.run (handle loc data packet).run arm =
    ((onGdb (callHandler (Gdb.table loc endianess) packet)).run (data.withArm arm)).map
      fun r => (r.2, r.2.gdb.arm)
  exception : Locals → Byte → Resume ArmCore Byte
  run_exception : ∀ loc irq, (exception loc irq).run = armException endianess loc irq

/-- The two listeners. -/
inductive Listener where
  | gdb
  | irq
  deriving DecidableEq, Repr

/-- The thread of `gdb_listener`. The processor in `data` is not looked at. -/
structure GdbListener where
  data : ParserData
  /-- The events to come. -/
  events : List ScannerEvent
  /-- The packet for which the lock is taken next. -/
  packet : Option (List Byte)
  /-- The input has ended, and the thread has returned. -/
  returned : Bool

/-- The thread of `irq_listener`. -/
structure IrqListener where
  /-- The byte for which the lock is taken next. -/
  irq : Option Byte
  /-- The bytes to come, on all connections. -/
  input : List Byte

/-- What a listener holds. -/
def Listener.Own : Listener → Type
  | .gdb => GdbListener
  | .irq => IrqListener

/-- The event begins with a write to a connection that is closed, so that `Rio_writen` ends the
process. A packet is acknowledged before its handler is called: what the handler writes does not
come first. -/
def ScannerEvent.WriteFails (event : ScannerEvent) (given₀ : Word) (data : ParserData) : Prop :=
  data.gdb.closed = true ∧ ∃ packet data',
    (event.beforeLock supported given₀).run data = some (packet, data') ∧
      data'.gdb.sent ≠ data.gdb.sent

/-- `gdb_listener` outside the lock: an event, up to the lock. The last one is the end of the
input. -/
inductive GdbMove : GdbListener → GdbListener → Prop
  | event {given₀ : Word} {event : ScannerEvent} {events : List ScannerEvent}
      {data data' : ParserData} {packet : Option (List Byte)}
      (h : (event.beforeLock supported given₀).run data = some (packet, data'))
      (hwrites : ¬ event.WriteFails given₀ data) :
      GdbMove ⟨data, event :: events, none, false⟩
        ⟨data', events, packet, decide (event = .endOfFile)⟩

/-- The process ends where `gdb_listener` is: it has returned, or its next write fails. -/
inductive GdbListener.EndsProcess : GdbListener → Prop
  | returned {l : GdbListener} (h : l.returned = true) : EndsProcess l
  | writeFails {event : ScannerEvent} {events : List ScannerEvent} {data : ParserData}
      (given₀ : Word) (h : event.WriteFails given₀ data) :
      EndsProcess ⟨data, event :: events, none, false⟩

/-- `irq_listener` outside the lock: `Read`. -/
inductive IrqMove : IrqListener → IrqListener → Prop
  | read {irq : Byte} {input : List Byte} : IrqMove ⟨none, irq :: input⟩ ⟨some irq, input⟩

/-- The rounds that the loop of `cont` is given are enough, if any number is. Only a loop that never
ends is cut off, after whatever number: its thread then stays where it is, with the lock, as it does
in the loop. -/
def Enough (endianess : Byte) (loc : Gdb.GdbLocals) (packet : List Byte) (g : GdbData) : Prop :=
  (Gdb.handle loc endianess packet).run g = .error .unfinished →
    ∀ fuel, (Gdb.handle { loc with fuel } endianess packet).run g = .error .unfinished

section
variable {endianess : Byte} (S : Splitting endianess)

/-- `gdb_listener` with the lock: the call of a handler. -/
inductive GdbCritical : GdbListener → ArmCore → Resume ArmCore GdbListener → Prop
  | handle (loc : Gdb.GdbLocals) {data : ParserData} {events : List ScannerEvent}
      {packet : List Byte} {returned : Bool} {arm : ArmCore}
      (henough : Enough endianess loc packet (data.withArm arm).gdb) :
      GdbCritical ⟨data, events, some packet, returned⟩ arm do
        let data ← S.handle loc data packet
        return ⟨data, events, none, returned⟩

/-- `irq_listener` with the lock: the call of `arm_exception`. -/
inductive IrqCritical : IrqListener → ArmCore → Resume ArmCore IrqListener → Prop
  | exception (loc : Locals) {irq : Byte} {input : List Byte} {arm : ArmCore} :
      IrqCritical ⟨some irq, input⟩ arm do
        let _ ← S.exception loc irq
        return ⟨none, input⟩

/-- The threads of the listeners. -/
def listeners : Threads Listener ArmCore where
  Own := Listener.Own
  move
    | .gdb => GdbMove
    | .irq => IrqMove
  critical
    | .gdb => GdbCritical S
    | .irq => IrqCritical S

end

/-- The two listeners outside the lock, and the processor. -/
structure ListenersState where
  gdb : GdbListener
  irq : IrqListener
  arm : ArmCore

/-- A state of the two listeners as a serial state of the threads. -/
def listenersAt {endianess : Byte} (S : Splitting endianess) (X : ListenersState) :
    (listeners S).Serial where
  own
    | .gdb => X.gdb
    | .irq => X.irq
  shared := X.arm

/-- The listeners as `main` creates them, with what is sent to them. -/
def listenersStart (data : ParserData) (events : List ScannerEvent) (input : List Byte) :
    ListenersState where
  gdb := ⟨data, events, none, false⟩
  irq := ⟨none, input⟩
  arm := data.gdb.arm

end ArmSimulator
