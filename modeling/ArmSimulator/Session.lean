import ArmSimulator.GdbProtocol
import ArmSimulator.Scanner

/-!
# `scanner.l`: the actions of the scanner

What `yylex` does with each token that it finds, and at the end of the input. The characters that
belong to no token are collected in `buffer`, until a token comes or the buffer is full; then they
are reported, and a retransmission is required. The messages of `debug`, and the echo of a newline,
are left out.
-/

namespace ArmSimulator

/-- `MAX_ERROR_SIZE`. -/
abbrev maxErrorSize : Nat := 1024

/-- `struct parser_data`. -/
structure ParserData where
  gdb : GdbData
  /-- The bytes of `buffer`, of which there are `maxErrorSize`. -/
  buffer : Nat → Byte
  /-- The number of characters that are pending. -/
  len : Nat

/-- An action of the scanner. -/
abbrev ParserM (α : Type) := Prog ParserData α

/-- A function of the protocol. -/
def onGdb {α : Type} (m : GdbM α) : ParserM α := fun data =>
  (m.run data.gdb).map fun r => (r.1, { data with gdb := r.2 })

/-- `data->buffer[i] = c`. -/
def writeError (i : Nat) (c : Byte) : ParserM Unit := do
  Prog.assert (i < maxErrorSize)
  modify fun data => { data with buffer := Function.update data.buffer i c }

/-- `handle_error`. -/
def handleError : ParserM Unit := do
  let data ← get
  if data.len ≠ 0 then
    writeError data.len Ascii.nul
    onGdb gdbRequireRetransmission
    modify fun data => { data with len := 0 }
  else
    return ()

/-- `add_character_to_error`. -/
def addCharacterToError (c : Byte) : ParserM Unit := do
  let data ← get
  Prog.when (data.len > maxErrorSize - 2) handleError
  let data ← get
  writeError data.len c
  modify fun data => { data with len := data.len + 1 }

/-- What happens to the scanner. -/
inductive ScannerEvent where
  /-- A token is found, by a rule or, without one, to be echoed. -/
  | token (rule : Option ScannerRule) (text : List Byte)
  /-- The input ends. -/
  | endOfFile
  deriving DecidableEq, Repr

/-- The action of an event. -/
def ScannerEvent.action (handler : Byte → Option (List Byte → GdbM Unit)) (given₀ : Word) :
    ScannerEvent → ParserM Unit
  | .token (some .ack) _ => handleError
  | .token (some .retransmission) _ => do
    handleError
    onGdb gdbTransmitPacket
  | .token (some .packet) text => do
    handleError
    onGdb (gdbPacketAnalysis handler given₀ (text ++ [Ascii.nul]) text.length)
  | .token (some .other) text => addCharacterToError (text.headD Ascii.nul)
  | .token none _ => return ()
  | .endOfFile => handleError

/-- The beginning of `gdb_scanner`; the arrays hold what was there before. -/
def gdbScanner (arm : ArmCore) (packet : Nat → Byte) (breakpoints : Nat → Word)
    (buffer : Nat → Byte) : ParserData where
  gdb := gdbInitData arm packet breakpoints
  buffer := buffer
  len := 0

/-! ## Pending characters -/

/-- What `handle_error` sends. -/
def ParserData.pending (data : ParserData) : List Byte := if data.len ≠ 0 then [Ascii.minus] else []

section
variable {data data' : ParserData}

/-- What is sent before the rest of an action. -/
def ParserData.reported (data : ParserData) (buffer : Nat → Byte) : ParserData where
  gdb := { data.gdb with sent := data.gdb.sent ++ data.pending }
  buffer := buffer
  len := 0

/-- A program on the data of GDB runs on them within the data of the parser. -/
theorem run_onGdb {α : Type} {m : GdbM α} {a : α} {g : GdbData}
    (h : m.run data.gdb = some (a, g)) : (onGdb m).run data = some (a, { data with gdb := g }) := by
  show (m.run data.gdb).map _ = _
  rw [h]
  rfl

/-- A run of a function of the protocol changes the data of the protocol. -/
theorem onGdb_eq_some {α : Type} {m : GdbM α} {a : α} (h : (onGdb m).run data = some (a, data')) :
    ∃ g, m.run data.gdb = some (a, g) ∧ data' = { data with gdb := g } := by
  obtain ⟨⟨a', g⟩, hr, he⟩ := Option.map_eq_some_iff.1 h
  cases he
  exact ⟨g, hr, rfl⟩

/-- A character within the error buffer is written. -/
theorem run_writeError {i : Nat} (hi : i < maxErrorSize) (c : Byte) :
    (writeError i c).run data =
      some ((), { data with buffer := Function.update data.buffer i c }) := by
  unfold writeError
  rw [decide_eq_true hi]
  rfl

/-- **`handle_error`** reports what is pending. -/
theorem run_handleError (h : data.len < maxErrorSize) :
    ∃ buffer, handleError.run data = some ((), data.reported buffer) := by
  have hget : (get : ParserM ParserData).run data = some (data, data) := rfl
  by_cases hlen : data.len ≠ 0
  · let buffer : Nat → Byte := Function.update data.buffer data.len Ascii.nul
    refine ⟨buffer, ?_⟩
    unfold handleError ParserData.reported ParserData.pending
    rw [Prog.run_bind_of hget, if_pos hlen, if_pos hlen, Prog.run_bind_of (run_writeError h _)]
    rfl
  · refine ⟨data.buffer, ?_⟩
    have hzero : data.len = 0 := not_not.1 hlen
    unfold handleError ParserData.reported ParserData.pending
    rw [Prog.run_bind_of hget, if_neg hlen, if_neg hlen, List.append_nil, ← hzero]
    rfl

/-- `add_character_to_error` returns, and the character is pending; what was pending is reported
where the buffer is full. -/
theorem run_addCharacterToError (h : data.len < maxErrorSize) (c : Byte) :
    ∃ data', (addCharacterToError c).run data = some ((), data') ∧
      (0 < data'.len ∧ data'.len < maxErrorSize) ∧
      (data'.gdb = data.gdb ∨ ∃ buffer, data'.gdb = (data.reported buffer).gdb) := by
  have hget : ∀ data : ParserData, (get : ParserM ParserData).run data = some (data, data) :=
    fun _ => rfl
  unfold addCharacterToError
  rw [Prog.run_bind_of (hget data)]
  by_cases hfull : data.len > maxErrorSize - 2
  · obtain ⟨buffer, hrun⟩ := run_handleError h
    have hreport : (Prog.when true handleError).run data = some ((), data.reported buffer) := hrun
    have hone : 0 + 1 < maxErrorSize := by decide
    let data' : ParserData :=
      { data.reported buffer with buffer := Function.update buffer 0 c, len := 0 + 1 }
    refine ⟨data', ?_, ⟨Nat.zero_lt_one, hone⟩, .inr ⟨buffer, rfl⟩⟩
    rw [decide_eq_true hfull, Prog.run_bind_of hreport, Prog.run_bind_of (hget _)]
    exact Prog.run_bind_of (run_writeError (Nat.zero_lt_of_lt hone) c)
  · have hnone : (Prog.when false handleError).run data = some ((), data) := rfl
    have hfull' : ¬ data.len > 1024 - 2 := hfull
    have hlt : data.len + 1 < 1024 := by omega
    let data' : ParserData :=
      { data with buffer := Function.update data.buffer data.len c, len := data.len + 1 }
    refine ⟨data', ?_, ⟨Nat.succ_pos _, hlt⟩, .inl rfl⟩
    rw [decide_eq_false hfull, Prog.run_bind_of hnone, Prog.run_bind_of (hget _),
      Prog.run_bind_of (run_writeError h c)]
    rfl

end

end ArmSimulator
