import ArmSimulator.Retransmission

/-!
# The buffer of erroneous characters

`handle_error` and `add_character_to_error` share `buffer` and `len`: the first ends the text with a
NUL at `len` and empties the buffer, the second empties a full one before it stores a character. An
action of the scanner is what it does to the buffer (`ScannerEvent.report`) and then what it does to
the protocol (`ScannerEvent.process`), which does not reach the buffer; so the events may come in
any order, and the handlers of the packets may do anything.
-/

namespace ArmSimulator

/-- What an event does to the buffer. -/
def ScannerEvent.report : ScannerEvent → ParserM Unit
  | .token (some .other) text => addCharacterToError (text.headD Ascii.nul)
  | .token none _ => return ()
  | _ => handleError

/-- What an event does to the protocol. -/
def ScannerEvent.process (handler : Byte → Option (List Byte → GdbM Unit)) (given₀ : Word) :
    ScannerEvent → GdbM Unit
  | .token (some .retransmission) _ => gdbTransmitPacket
  | .token (some .packet) text =>
    gdbPacketAnalysis handler given₀ (text ++ [Ascii.nul]) text.length
  | _ => return ()

/-- An event, whatever the handlers are. -/
def LexerStep (data : ParserData) (event : ScannerEvent) (data' : ParserData) : Prop :=
  ∃ handler given₀, (event.action handler given₀).run data = some ((), data')

/-- A character outside the packets, other than a newline. -/
def ScannerEvent.Garbage : ScannerEvent → Prop
  | .token (some .other) _ => True
  | _ => False

/-- An echoed newline. -/
def ScannerEvent.Echoed : ScannerEvent → Prop
  | .token none _ => True
  | _ => False

/-- An event makes its report, which leaves `len` an index of the buffer, and the rest of its action
is what it does to the protocol. -/
structure Reports (data : ParserData) (event : ScannerEvent) (data' : ParserData) : Prop where
  report : event.report.run data = some ((), data')
  len : data'.len < maxErrorSize
  rest : ∀ handler given₀, (event.action handler given₀).run data =
    (onGdb (event.process handler given₀)).run data'

section
variable {data data' : ParserData} {event : ScannerEvent}

/-- An action reports what is pending, and then does the rest. -/
theorem run_action (h : event.report.run data = some ((), data'))
    (handler : Byte → Option (List Byte → GdbM Unit)) (given₀ : Word) :
    (event.action handler given₀).run data = (onGdb (event.process handler given₀)).run data' := by
  match event with
  | .token (some .ack) _ => exact h
  | .token (some .retransmission) _ => exact Prog.run_bind_of h
  | .token (some .packet) _ => exact Prog.run_bind_of h
  | .token (some .other) _ => exact h
  | .token none _ => exact h
  | .endOfFile => exact h

/-- The buffer has room for what an event writes, and for the next NUL. -/
theorem exists_reports (h : data.len < maxErrorSize) (event : ScannerEvent) :
    ∃ data', Reports data event data' := by
  have hempty (hevent : event.report = handleError) : ∃ data', Reports data event data' := by
    obtain ⟨buffer, hrun⟩ := run_handleError h
    rw [← hevent] at hrun
    exact ⟨_, hrun, Nat.zero_lt_of_lt h, run_action hrun⟩
  match event with
  | .token (some .ack) _ => exact hempty rfl
  | .token (some .retransmission) _ => exact hempty rfl
  | .token (some .packet) _ => exact hempty rfl
  | .token (some .other) text =>
    obtain ⟨data', hrun, ⟨-, hlen⟩, -⟩ := run_addCharacterToError h (text.headD Ascii.nul)
    exact ⟨data', hrun, hlen, run_action hrun⟩
  | .token none _ => exact ⟨data, rfl, h, run_action rfl⟩
  | .endOfFile => exact hempty rfl

/-- A step is the report, and then a change of the data of the protocol. -/
theorem LexerStep.reports (hstep : LexerStep data event data') (h : data.len < maxErrorSize) :
    ∃ data₁ g, Reports data event data₁ ∧ data' = { data₁ with gdb := g } := by
  obtain ⟨handler, given₀, hrun⟩ := hstep
  obtain ⟨data₁, hreports⟩ := exists_reports h event
  rw [hreports.rest] at hrun
  obtain ⟨g, -, rfl⟩ := onGdb_eq_some hrun
  exact ⟨data₁, g, hreports, rfl⟩

/-- An event of the scanner keeps the index within the error buffer. -/
theorem LexerStep.len (hstep : LexerStep data event data') (h : data.len < maxErrorSize) :
    data'.len < maxErrorSize := by
  obtain ⟨data₁, g, hreports, rfl⟩ := hstep.reports h
  exact hreports.len

/-- A character is pending after it was stored. -/
theorem LexerStep.pos_of_garbage (hstep : LexerStep data event data') (h : data.len < maxErrorSize)
    (hgarbage : event.Garbage) : 0 < data'.len := by
  obtain ⟨data₁, g, hreports, rfl⟩ := hstep.reports h
  match event with
  | .token (some .other) text =>
    obtain ⟨data₂, hrun, ⟨hpos, -⟩, -⟩ := run_addCharacterToError h (text.headD Ascii.nul)
    obtain rfl : data₂ = data₁ :=
      congrArg Prod.snd (Option.some.inj (hrun.symm.trans hreports.report))
    exact hpos

/-- A character stays pending while nothing but characters and newlines come. -/
theorem LexerStep.pos (hstep : LexerStep data event data') (h : data.len < maxErrorSize)
    (hevent : event.Garbage ∨ event.Echoed) (hpos : 0 < data.len) : 0 < data'.len := by
  rcases hevent with hgarbage | hechoed
  · exact hstep.pos_of_garbage h hgarbage
  · obtain ⟨data₁, g, hreports, rfl⟩ := hstep.reports h
    match event with
    | .token none _ =>
      have hsame : data₁ = data := congrArg Prod.snd (Option.some.inj hreports.report.symm)
      rw [hsame]
      exact hpos

/-- The event that ends a run of characters reports them first. -/
theorem reports_of_pos (h : data.len < maxErrorSize) (hpos : 0 < data.len)
    (hevent : ¬ event.Garbage ∧ ¬ event.Echoed) :
    ∃ data', Reports data event data' ∧ data'.gdb.sent = data.gdb.sent ++ [Ascii.minus] := by
  have hreport (hevent : event.report = handleError) :
      ∃ data', Reports data event data' ∧ data'.gdb.sent = data.gdb.sent ++ [Ascii.minus] := by
    obtain ⟨buffer, hrun⟩ := run_handleError h
    rw [← hevent] at hrun
    refine ⟨_, ⟨hrun, Nat.zero_lt_of_lt h, run_action hrun⟩, ?_⟩
    show data.gdb.sent ++ data.pending = _
    rw [ParserData.pending, if_pos (Nat.ne_of_gt hpos)]
  match event with
  | .token (some .ack) _ => exact hreport rfl
  | .token (some .retransmission) _ => exact hreport rfl
  | .token (some .packet) _ => exact hreport rfl
  | .token (some .other) _ => exact absurd trivial hevent.1
  | .token none _ => exact absurd trivial hevent.2
  | .endOfFile => exact hreport rfl

end

/-! ## Sequences of events -/

section
variable {data₀ data data₁ data₂ : ParserData} {events later : List ScannerEvent}
  {arm : ArmCore} {packet : Nat → Byte} {breakpoints : Nat → Word} {buffer : Nat → Byte}

/-- The events of the scanner keep the index within the error buffer. -/
theorem len_of_run (hrun : Run LexerStep data₀ events data) (h : data₀.len < maxErrorSize) :
    data.len < maxErrorSize :=
  hrun.invariant (I := fun data => data.len < maxErrorSize) (fun hstep h => hstep.len h) h

/-- A character that was stored is pending until the next event that is neither a character nor a
newline. -/
theorem pos_of_run (hrun : Run LexerStep data₁ later data₂) (h : data₁.len < maxErrorSize)
    (hpos : 0 < data₁.len) (hlater : ∀ event ∈ later, event.Garbage ∨ event.Echoed) :
    0 < data₂.len := by
  induction hrun with
  | nil => exact hpos
  | snoc hrun hstep ih =>
    have hbefore := ih fun event he => hlater event (List.mem_append_left _ he)
    exact hstep.pos (len_of_run hrun h) (hlater _ List.mem_concat_self) hbefore

/-- **The error buffer.** After any sequence of events `len` is an index of the buffer, and what the
next event writes is inside it. After a character outside the packets, other than a newline, and any
number of others or of newlines, the next event sends `-` before it is processed. -/
theorem errorBuffer
    (hrun : Run LexerStep (gdbScanner arm packet breakpoints buffer) events data) :
    data.len < maxErrorSize ∧ (∀ event, ∃ data', Reports data event data') ∧
      ∀ garbage data₁ later data₂, LexerStep data garbage data₁ → garbage.Garbage →
        Run LexerStep data₁ later data₂ → (∀ event ∈ later, event.Garbage ∨ event.Echoed) →
          ∀ event : ScannerEvent, ¬ event.Garbage ∧ ¬ event.Echoed →
            ∃ data₃, Reports data₂ event data₃ ∧
              data₃.gdb.sent = data₂.gdb.sent ++ [Ascii.minus] := by
  have hlen : data.len < maxErrorSize := len_of_run hrun (Nat.zero_lt_succ _)
  refine ⟨hlen, exists_reports hlen, ?_⟩
  intro garbage data₁ later data₂ hstep hgarbage hlater hquiet event hevent
  have hlen₁ : data₁.len < maxErrorSize := hstep.len hlen
  have hpos : 0 < data₂.len := pos_of_run hlater hlen₁ (hstep.pos_of_garbage hlen hgarbage) hquiet
  exact reports_of_pos (len_of_run hlater hlen₁) hpos hevent

end

/-- An `x` and a newline, and then the end of the input. -/
theorem errorBuffer_x :
    ∃ data data', Run LexerStep session
        [.token (some .other) (ascii "x"), .token none [Ascii.newline]] data ∧
      Reports data .endOfFile data' ∧ data'.gdb.sent = data.gdb.sent ++ [Ascii.minus] := by
  let x : ScannerEvent := .token (some .other) (ascii "x")
  let newline : ScannerEvent := .token none [Ascii.newline]
  have hempty : session.len < maxErrorSize := by decide
  have hx : ∃ data, LexerStep session x data := by
    obtain ⟨data, hrun, -⟩ := run_addCharacterToError hempty (Ascii.of 'x')
    exact ⟨data, fun _ => none, 0, hrun⟩
  obtain ⟨data, hstep⟩ := hx
  have hechoed : LexerStep data newline data := ⟨fun _ => none, 0, rfl⟩
  have hlater : ∀ event ∈ [newline], event.Garbage ∨ event.Echoed := by
    intro event he
    rw [List.mem_singleton.1 he]
    exact .inr trivial
  obtain ⟨data', hreports, hsent⟩ := (errorBuffer .nil).2.2 x data [newline] data hstep trivial
    (.single hechoed) hlater .endOfFile ⟨id, id⟩
  exact ⟨data, data', .snoc (.single hstep) hechoed, hreports, hsent⟩

end ArmSimulator
