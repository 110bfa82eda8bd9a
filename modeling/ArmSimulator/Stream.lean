import ArmSimulator.Interleaving

/-!
# The stream of answers

What is sent to GDB is a sequence of acknowledgements, requests for a retransmission, and frames
whose payload has no NUL, no `$` and no `#` (`StreamText`). Whatever GDB sends, well-formed or not,
and whenever interrupts come, the stream stays one, so that a peer that reads it by the rules of
`scanner.l` finds no other tokens, and accepts every packet in it (`answers_wellFormed`).
-/

namespace ArmSimulator

/-! ## Payloads -/

/-- A payload that a frame can carry. -/
def Clean (payload : List Byte) : Prop := ∀ b ∈ payload, b ≠ Ascii.nul ∧ PayloadByte b

section
variable {payload : List Byte}

/-- The empty payload is clean. -/
theorem clean_nil : Clean [] := fun _ hb => absurd hb List.not_mem_nil

/-- A clean payload has no NUL, and so is sent as a whole. -/
theorem Clean.noNul (h : Clean payload) : NoNul payload := fun b hb => (h b hb).1

/-- Clean payloads one after the other are clean. -/
theorem Clean.append {payload' : List Byte} (h : Clean payload) (h' : Clean payload') :
    Clean (payload ++ payload') :=
  fun b hb => (List.mem_append.1 hb).elim (h b) (h' b)

/-- A payload of clean parts is clean. -/
theorem Clean.flatMap {α : Type} {l : List α} {s : α → List Byte} (h : ∀ a ∈ l, Clean (s a)) :
    Clean (l.flatMap s) := by
  intro b hb
  obtain ⟨a, ha, hba⟩ := List.mem_flatMap.1 hb
  exact h a ha b hba

/-- A text of the source is clean if its characters are. -/
theorem clean_ascii {l : List Char}
    (h : l.all (fun c => Ascii.of c ≠ Ascii.nul ∧ PayloadByte (Ascii.of c)) = true) :
    Clean (ascii (String.ofList l)) := by
  rw [ascii_ofList]
  exact List.forall_mem_map.2 fun c hc => of_decide_eq_true (List.all_eq_true.1 h c hc)

/-- A number in hexadecimal is clean. -/
theorem clean_formatHex (digits value : Nat) : Clean (formatHex digits value) := by
  intro b hb
  have hdigit := isHexDigit_formatHex hb
  refine ⟨?_, ?_, ?_⟩
  all_goals
    rintro rfl
    cases hdigit

/-- The text of a part of the memory is clean. -/
theorem clean_readText (mem : Memory) (address : Word) (value : Byte) (n : Nat) :
    Clean (Gdb.readText mem address value n) := by
  induction n generalizing address value with
  | zero => exact clean_nil
  | succ n ih => exact (clean_formatHex _ _).append (ih _ _)

/-- The text for a register that is not available is clean. -/
theorem clean_unavailable : Clean Gdb.unavailable := clean_ascii (by decide)

/-- The text of the registers is clean. -/
theorem clean_generalRegistersText (p : ArmCore) : Clean (Gdb.generalRegistersText p) :=
  (((Clean.flatMap fun _ _ => clean_formatHex _ _).append
    (.flatMap fun _ _ => clean_unavailable)).append clean_unavailable).append (clean_formatHex _ _)

end

/-- A frame is sent. -/
def Frames (g g' : GdbData) : Prop :=
  ∃ payload, Clean payload ∧ g'.sent = g.sent ++ frame payload

/-! ## Handlers -/

namespace Gdb

open Fallible

variable {loc : GdbLocals} {endianess : Byte} {data : List Byte} {α : Type}

/-- No fault is excluded: only the runs that return matter here. -/
abbrev NoFault : Fault → Prop := fun _ => False

/-- Where the first program sends nothing, the frame is what the second sends. -/
theorem frames_bind {m : HandlerM α} {f : α → HandlerM Unit} (hm : Meets NoFault Quiet m)
    (hf : ∀ a, Meets NoFault Frames (f a)) : Meets NoFault Frames (m >>= f) :=
  hm.bind (fun _ _ _ h ⟨payload, hp, h'⟩ => ⟨payload, hp, h'.trans (congrArg (· ++ _) h)⟩) hf

/-- `gdb_send_data` sends the frame of a clean payload. -/
theorem frames_sendData {s : List Byte} (hlen : s.length ≤ 4091) (hs : Clean s) :
    Meets NoFault Frames (sendData s) :=
  Meets.of_run fun _ => ⟨(), _, run_sendData s hlen hs.noNul, s, hs, rfl⟩

/-- A text without NUL, `$` and `#` is sent as a frame. -/
theorem frames_sendText {l : List Char} (hlen : l.length ≤ 4091)
    (hl : l.all (fun c => Ascii.of c ≠ Ascii.nul ∧ PayloadByte (Ascii.of c)) = true) :
    Meets NoFault Frames (sendData (ascii (String.ofList l))) :=
  frames_sendData ((length_ascii l).trans_le hlen) (clean_ascii hl)

/-- `OK` or an error is sent as a frame. -/
theorem frames_okOr {c : Prop} [Decidable c] {l : List Char} (hlen : l.length ≤ 4091)
    (hl : l.all (fun c => Ascii.of c ≠ Ascii.nul ∧ PayloadByte (Ascii.of c)) = true) :
    Meets NoFault Frames
      (if c then sendData (ascii "OK") else sendData (ascii (String.ofList l))) :=
  Meets.ite (fun _ => frames_sendText (by decide) (by decide)) fun _ => frames_sendText hlen hl

/-- Each of the stop reasons is sent as a frame. -/
theorem frames_sendStopReason : Meets NoFault Frames sendStopReason := by
  refine frames_bind quiet_get fun gdb => ?_
  dsimp only
  split_ifs
  all_goals exact frames_sendText (by decide) (by decide)

/-- `cont` sends the frame of a stop reason. -/
theorem frames_cont : Meets NoFault Frames (cont loc endianess data) :=
  frames_bind (quiet_contLoop id id 0 loc.fuel) fun _ => frames_sendStopReason

/-- `step` sends the frame of a stop reason. -/
theorem frames_step : Meets NoFault Frames (step loc endianess data) :=
  frames_bind (quiet_singleStep 0) fun _ => frames_sendStopReason

/-- `query` sends the frame of its answer. -/
theorem frames_query : Meets NoFault Frames (query data) := by
  have hoffsets : Meets NoFault Frames (sendData (ascii "Text=0;Data=0;Bss=0")) :=
    frames_sendText (by decide) (by decide)
  have hsupported : Meets NoFault Frames (sendData (ascii "PacketSize=400")) :=
    frames_sendText (by decide) (by decide)
  have hstatus : Meets NoFault Frames (sendData (ascii "T0;tnotrun:0")) :=
    frames_sendText (by decide) (by decide)
  have hempty : Meets NoFault Frames (sendData []) :=
    frames_sendData (by decide) clean_nil
  refine Meets.ite (fun _ => hoffsets) fun _ => Meets.ite (fun _ => hsupported) fun _ => ?_
  exact Meets.ite (fun _ => hstatus) fun _ => Meets.ite (fun _ => hempty) fun _ => hempty

/-- `set_thread` sends the frame of its answer. -/
theorem frames_setThread : Meets NoFault Frames (setThread loc data) := by
  refine frames_bind (quiet_byteAt (.inr id)) fun type => ?_
  exact frames_bind (quiet_stringAt (.inr id)) fun s => frames_okOr (by decide) (by decide)

/-- A handler that changes the breakpoints sends the frame of `OK` or of its error. -/
theorem frames_changeBreakpoint {change : Word → GdbM Int} {l : List Char}
    (hchange : ∀ address, Prog.Preserves GdbData.sent (change address)) (hlen : l.length ≤ 4091)
    (hl : l.all (fun c => Ascii.of c ≠ Ascii.nul ∧ PayloadByte (Ascii.of c)) = true) :
    Meets NoFault Frames (changeBreakpoint loc change (ascii (String.ofList l)) data) := by
  refine Meets.ite (fun _ => frames_sendText (by decide) (by decide)) fun _ => ?_
  exact frames_bind (quiet_ofProg id (hchange _)) fun changed => frames_okOr hlen hl

/-- `set_breakpoint` sends the frame of its answer. -/
theorem frames_setBreakpoint : Meets NoFault Frames (setBreakpoint loc data) :=
  frames_changeBreakpoint
    (preserves_gdbAddBreakpoint (fun _ _ _ => rfl) fun _ _ => rfl) (by decide) (by decide)

/-- `remove_breakpoint` sends the frame of its answer. -/
theorem frames_removeBreakpoint : Meets NoFault Frames (removeBreakpoint loc data) :=
  frames_changeBreakpoint
    (preserves_gdbRemoveBreakpoint (fun _ _ _ => rfl) fun _ _ => rfl) (by decide) (by decide)

/-- A handler whose run from a state is an answer, or a fault. -/
theorem frames_of_answers {m : HandlerM Unit}
    (h : ∀ g, (∃ packet payload, Clean payload ∧ m.run g = .ok ((), g.answered packet payload)) ∨
      ∃ e, m.run g = .error e) : Meets NoFault Frames m := by
  refine fun g => ⟨fun _ _ => id, fun a g' hr => ?_⟩
  rcases h g with ⟨packet, payload, hp, hrun⟩ | ⟨e, hrun⟩
  · rw [hrun] at hr
    cases hr
    exact ⟨payload, hp, rfl⟩
  · rw [hrun] at hr
    cases hr

/-- `read_general_registers` sends the frame of the registers. -/
theorem frames_readGeneralRegisters : Meets NoFault Frames (readGeneralRegisters data) := by
  refine frames_of_answers fun g => .inl ?_
  obtain ⟨packet, hrun⟩ := run_readGeneralRegisters g data
  exact ⟨packet, _, clean_generalRegistersText g.arm, hrun⟩

/-- `read_single_register` sends the frame of the register. -/
theorem frames_readSingleRegister : Meets NoFault Frames (readSingleRegister data) := by
  refine frames_of_answers fun g => ?_
  by_cases hr : (atoi data).setWidth 8 < (16 : Byte)
  · obtain ⟨packet, hrun⟩ := run_readSingleRegister g hr
    exact .inl ⟨packet, _, clean_formatHex _ _, hrun⟩
  · exact .inr ⟨_, run_bind_error (run_bind_error (run_check_error (decide_eq_false hr)))⟩

/-- `read_memory` sends the frame of the bytes, or of its error. -/
theorem frames_readMemory : Meets NoFault Frames (readMemory loc data) := by
  refine frames_of_answers fun g => ?_
  by_cases hin : (packetAddress loc data).toNat < g.arm.mem.size.toNat
  · rcases Nat.lt_or_ge 2045 (packetSize loc data).toNat with hsize | hsize
    · exact .inr ⟨_, run_readMemory_bound g loc data hin hsize⟩
    · obtain ⟨packet, hrun⟩ := run_readMemory g loc data hin hsize
      exact .inl ⟨packet, _, clean_readText _ _ _ _, hrun⟩
  · obtain ⟨packet, hrun⟩ := run_readMemory_outside g loc data hin
    exact .inl ⟨packet, _, clean_ascii (by decide), hrun⟩

/-- `write_single_register` sends the frame of `OK`. -/
theorem frames_writeSingleRegister : Meets NoFault Frames (writeSingleRegister loc data) := by
  refine frames_bind (quiet_index id _) fun k => ?_
  refine frames_bind (quiet_writeRegister (.inr id) (.inr id)) fun _ => ?_
  exact frames_sendText (by decide) (by decide)

/-- `write_general_registers` sends the frame of `OK`. -/
theorem frames_writeGeneralRegisters : Meets NoFault Frames (writeGeneralRegisters loc data) := by
  have hregisters : Meets NoFault Quiet (writeRegistersLoop loc data 0) :=
    quiet_writeRegisters (fun i hi => List.mem_range.1 hi) 0 (.inr id)
  refine frames_bind hregisters fun position => ?_
  refine frames_bind (quiet_readUint32 (.inr id)) fun value => ?_
  refine frames_bind (quiet_modify fun _ => rfl) fun _ => ?_
  exact frames_sendText (by decide) (by decide)

/-- `write_memory_binary` sends the frame of `OK` or of its error. -/
theorem frames_writeMemoryBinary : Meets NoFault Frames (writeMemoryBinary loc data) := by
  refine frames_bind (quiet_index id _) fun k => frames_bind quiet_get fun gdb => ?_
  exact frames_bind (quiet_writeLoop id _ _ _ _) fun writeOk => frames_okOr (by decide) (by decide)

/-- A frame is sent, or the connection is closed. -/
def FramesOrCloses (g g' : GdbData) : Prop := Frames g g' ∨ g' = { g with closed := true }

/-- A handler that returns has sent a frame; `kill_request` is the only one that has not. -/
theorem frames_handler {index : Byte} {handle : List Byte → HandlerM Unit}
    (h : handler loc endianess index = some handle) :
    Meets NoFault FramesOrCloses (handle data) := by
  have hframes : ∀ {m : HandlerM Unit}, Meets NoFault Frames m → Meets NoFault FramesOrCloses m :=
    fun hm => hm.mono fun _ _ => .inl
  obtain ⟨l₁, l₂, hsplit, -⟩ := List.lookup_eq_some_iff.1 h
  have hmem : (index, handle) ∈ handlers loc endianess := hsplit ▸ List.mem_append_right l₁
    List.mem_cons_self
  simp only [handlers, List.mem_cons, Prod.mk.injEq, List.not_mem_nil, or_false] at hmem
  rcases hmem with ⟨-, rfl⟩ | ⟨-, rfl⟩ | ⟨-, rfl⟩ | ⟨-, rfl⟩ | ⟨-, rfl⟩ | ⟨-, rfl⟩ | ⟨-, rfl⟩ |
    ⟨-, rfl⟩ | ⟨-, rfl⟩ | ⟨-, rfl⟩ | ⟨-, rfl⟩ | ⟨-, rfl⟩ | ⟨-, rfl⟩ | ⟨-, rfl⟩ | ⟨-, rfl⟩ | ⟨-, rfl⟩
  · exact hframes frames_cont
  · exact hframes frames_cont
  · exact Meets.of_run fun _ => ⟨(), _, rfl, .inr rfl⟩
  · exact hframes frames_query
  · exact hframes frames_readGeneralRegisters
  · exact hframes frames_readMemory
  · exact hframes frames_readSingleRegister
  · exact hframes frames_sendStopReason
  · exact hframes frames_setThread
  · exact hframes frames_step
  · exact hframes (frames_step : Meets NoFault Frames (step loc endianess data))
  · exact hframes frames_writeGeneralRegisters
  · exact hframes frames_writeMemoryBinary
  · exact hframes frames_writeSingleRegister
  · exact hframes frames_removeBreakpoint
  · exact hframes frames_setBreakpoint

/-- **What is sent on a packet**: a frame, or nothing. -/
theorem frames_handle (packet : List Byte) :
    Meets NoFault FramesOrCloses (handle loc endianess packet) := by
  unfold handle
  cases packet[1]? with
  | none => exact Meets.fault id
  | some index =>
    dsimp only
    split
    · next handler h => exact frames_handler h
    · exact (frames_sendData (by decide) clean_nil).mono fun _ _ => .inl

end Gdb

/-! ## Streams -/

/-- What is sent in one go. -/
inductive Answer where
  | ack
  | again
  | reply (payload : List Byte)
  deriving DecidableEq, Repr

/-- The token that a peer finds. -/
def Answer.token : Answer → Option ScannerRule × List Byte
  | .ack => (some .ack, [Ascii.plus])
  | .again => (some .retransmission, [Ascii.minus])
  | .reply payload => (some .packet, frame payload)

/-- A reply has a payload that a frame can carry. -/
def Answer.Ok : Answer → Prop
  | .reply payload => Clean payload
  | _ => True

/-- The bytes are those of answers. -/
def StreamText (s : List Byte) : Prop :=
  ∃ answers : List Answer, (∀ a ∈ answers, a.Ok) ∧ s = answers.flatMap fun a => a.token.2

/-- Texts of answers one after the other are one. -/
theorem StreamText.append {s s' : List Byte} (h : StreamText s) (h' : StreamText s') :
    StreamText (s ++ s') := by
  obtain ⟨answers, ha, rfl⟩ := h
  obtain ⟨answers', ha', rfl⟩ := h'
  refine ⟨answers ++ answers', fun a hm => (List.mem_append.1 hm).elim (ha a) (ha' a), ?_⟩
  rw [List.flatMap_append]

/-- The token of an answer is a text of answers. -/
theorem streamText_token {a : Answer} (h : a.Ok) : StreamText a.token.2 := by
  refine ⟨[a], fun b hb => ?_, (List.append_nil _).symm⟩
  rw [List.mem_singleton.1 hb]
  exact h

/-- The empty text is one of answers. -/
theorem streamText_nil : StreamText [] := ⟨[], fun _ h => absurd h List.not_mem_nil, rfl⟩

/-- The frame of a clean payload is a token. -/
theorem packetToken_frame {payload : List Byte} (h : Clean payload) : PacketToken payload
    (hexDigit ((checksum payload).toNat / 16)) (hexDigit ((checksum payload).toNat % 16)) :=
  ⟨fun b hb => (h b hb).2, (digits_frame payload).1, (digits_frame payload).2.1⟩

/-- **A peer finds the answers**, one token for each. -/
theorem scan_answers {answers : List Answer} (h : ∀ a ∈ answers, a.Ok) :
    scan (answers.flatMap fun a => a.token.2) = answers.map Answer.token := by
  induction answers with
  | nil =>
    show scan [] = []
    rw [scan, Lexer.tokens]
  | cons a answers ih =>
    have hrest := ih fun b hb => h b (List.mem_cons_of_mem a hb)
    rw [List.flatMap_cons, List.map_cons, ← hrest]
    have ha := h a List.mem_cons_self
    cases a with
    | ack => exact scan_ack _
    | again => exact scan_retransmission _
    | reply payload => exact scan_packet (packetToken_frame ha) _

/-! ## One event -/

/-- What was sent is a stream, and the buffer holds a frame, or nothing. -/
structure StreamOk (data : ParserData) : Prop where
  sent : StreamText data.gdb.sent
  reply : data.gdb.reply = [] ∨ ∃ payload, Clean payload ∧ data.gdb.reply = frame payload
  gdbLen : data.gdb.len ≤ maxPacketSize
  len : data.len < maxErrorSize

/-- At the start nothing has been sent, and nothing is pending. -/
theorem streamOk_start (arm : ArmCore) (packet : Nat → Byte) (breakpoints : Nat → Word)
    (buffer : Nat → Byte) : StreamOk (gdbScanner arm packet breakpoints buffer) where
  sent := streamText_nil
  reply := .inl rfl
  gdbLen := Nat.zero_le _
  len := Nat.zero_lt_succ _

/-- What is pending is a text of answers. -/
theorem streamText_pending (data : ParserData) : StreamText data.pending := by
  unfold ParserData.pending
  split_ifs
  · exact streamText_token (a := .again) trivial
  · exact streamText_nil

/-- What holds of the stream does not depend on the processor. -/
theorem StreamOk.withArm {data : ParserData} (h : StreamOk data) (arm : ArmCore) :
    StreamOk (data.withArm arm) := ⟨h.sent, h.reply, h.gdbLen, h.len⟩

/-- More is sent, and the buffer stays. -/
theorem StreamOk.send {data data' : ParserData} {s : List Byte} (h : StreamOk data)
    (hs : StreamText s) (hsent : data'.gdb.sent = data.gdb.sent ++ s)
    (hreply : data'.gdb.reply = data.gdb.reply) (hgdbLen : data'.gdb.len = data.gdb.len)
    (hlen : data'.len < maxErrorSize) : StreamOk data' where
  sent := hsent ▸ h.sent.append hs
  reply := hreply ▸ h.reply
  gdbLen := hgdbLen ▸ h.gdbLen
  len := hlen

/-- A frame is sent, and is in the buffer. -/
theorem StreamOk.frames {data : ParserData} {g : GdbData} (h : StreamOk data)
    (hreplied : Replied data.gdb g) (hframes : Frames data.gdb g) :
    StreamOk { data with gdb := g } := by
  obtain ⟨payload, hp, hsent⟩ := hframes
  have hreply : g.reply = frame payload := List.append_cancel_left (hreplied.sent.symm.trans hsent)
  refine ⟨?_, .inr ⟨payload, hp, hreply⟩, hreplied.len, h.len⟩
  show StreamText g.sent
  rw [hsent]
  exact h.sent.append (streamText_token (a := .reply payload) hp)

/-- The analysis of a packet up to the lock sends `-`, or `+`, or `+` and an empty answer. -/
theorem beforeHandler_eq_some {given₀ : Word} {text : List Byte} {n : Nat} {g g' : GdbData}
    {packet : Option (List Byte)}
    (h : (beforeHandler supported given₀ text n).run g = some (packet, g')) :
    g' = { g with sent := g.sent ++ [Ascii.minus] } ∨
      g' = { g with sent := g.sent ++ [Ascii.plus] } ∨
      (gdbSendData []).run { g with sent := g.sent ++ [Ascii.plus] } = some ((), g') := by
  unfold beforeHandler at h
  obtain ⟨⟨i, check⟩, g₁, hloop, hrest⟩ := Prog.run_bind_eq_some.1 h
  obtain rfl : g₁ = g := preserves_analysisLoop text n 1 0 _ _ _ hloop
  dsimp only at hrest
  split at hrest
  · right
    obtain ⟨_, g₂, hack, hrest⟩ := Prog.run_bind_eq_some.1 hrest
    cases hack
    obtain ⟨_, g₃, hassert, hrest⟩ := Prog.run_bind_eq_some.1 hrest
    obtain rfl : g₃ = _ := Prog.Preserves.assert (f := id) _ _ _ _ hassert
    split at hrest
    · split at hrest
      · cases hrest
        exact .inl rfl
      · obtain ⟨_, g₄, hsend, hrest⟩ := Prog.run_bind_eq_some.1 hrest
        cases hrest
        exact .inr hsend
    · cases hrest
  · left
    cases hrest
    rfl

section
variable {data data' : ParserData} {given₀ : Word}

/-- `handle_error` keeps what holds of the stream. -/
theorem StreamOk.handleError (h : StreamOk data)
    (hrun : ArmSimulator.handleError.run data = some ((), data')) : StreamOk data' := by
  obtain ⟨buffer, hrun'⟩ := run_handleError h.len
  obtain rfl := congrArg Prod.snd (Option.some.inj (hrun'.symm.trans hrun))
  exact h.send (streamText_pending data) rfl rfl rfl (Nat.zero_lt_succ _)

/-- What `gdb_packet_analysis` does before the handler keeps what holds of the stream. -/
theorem StreamOk.onGdb_beforeHandler {text : List Byte} {n : Nat} {packet : Option (List Byte)}
    (h : StreamOk data)
    (hrun : (onGdb (beforeHandler supported given₀ text n)).run data = some (packet, data')) :
    StreamOk data' := by
  obtain ⟨g, hbefore, rfl⟩ := onGdb_eq_some hrun
  have hack : StreamOk
      { data with gdb := { data.gdb with sent := data.gdb.sent ++ [Ascii.plus] } } :=
    h.send (streamText_token (a := .ack) trivial) rfl rfl rfl h.len
  rcases beforeHandler_eq_some hbefore with rfl | rfl | hsend
  · exact h.send (streamText_token (a := .again) trivial) rfl rfl rfl h.len
  · exact hack
  · have hdata : (Gdb.sendData []).run { data.gdb with sent := data.gdb.sent ++ [Ascii.plus] } =
        .ok ((), g) := Fallible.run_ofProg hsend
    have hreplied : Fallible.Meets Gdb.NoFault Replied (Gdb.sendData []) :=
      Gdb.replied_sendData (by decide) (by decide)
    have hframes := Gdb.frames_sendData (s := []) (by decide) clean_nil
    exact hack.frames ((hreplied _).2 _ _ hdata) ((hframes _).2 _ _ hdata)

/-- **Up to the lock** the stream is kept. -/
theorem StreamOk.beforeLock {event : ScannerEvent} {packet : Option (List Byte)}
    (h : StreamOk data)
    (hrun : (event.beforeLock supported given₀).run data = some (packet, data')) :
    StreamOk data' := by
  -- an event that sends what is pending, or goes on from there
  have hreport : ∀ {α : Type} {m : ParserM α} {a : α}, (∀ {data₁}, StreamOk data₁ →
      m.run data₁ = some (a, data') → StreamOk data') →
      (ArmSimulator.handleError >>= fun _ => m).run data = some (a, data') → StreamOk data' := by
    intro α m a hm hrun
    obtain ⟨_, data₁, herror, hrest⟩ := Prog.run_bind_eq_some.1 hrun
    exact hm (h.handleError herror) hrest
  have hpure : ∀ {data₁}, StreamOk data₁ →
      (pure none : ParserM (Option (List Byte))).run data₁ = some (packet, data') →
        StreamOk data' := by
    rintro data₁ hok ⟨⟩
    exact hok
  match event with
  | .endOfFile => exact hreport hpure hrun
  | .token (some .ack) _ => exact hreport hpure hrun
  | .token none _ => exact hpure h hrun
  | .token (some .packet) text => exact hreport (fun hok => hok.onGdb_beforeHandler) hrun
  | .token (some .other) text =>
    obtain ⟨_, data₁, hadd, hrest⟩ := Prog.run_bind_eq_some.1 hrun
    obtain ⟨data₂, hadd', ⟨-, hlen⟩, hgdb⟩ :=
      run_addCharacterToError h.len (text.headD Ascii.nul)
    obtain rfl : data₂ = data₁ := congrArg Prod.snd (Option.some.inj (hadd'.symm.trans hadd))
    refine hpure ?_ hrest
    rcases hgdb with hgdb | ⟨buffer, hgdb⟩
    · exact ⟨hgdb ▸ h.sent, hgdb ▸ h.reply, hgdb ▸ h.gdbLen, hlen⟩
    · have hsent := congrArg GdbData.sent hgdb
      have hreply := congrArg GdbData.reply hgdb
      have hgdbLen := congrArg GdbData.len hgdb
      exact h.send (streamText_pending data) hsent (hreply.trans rfl) (hgdbLen.trans rfl) hlen
  | .token (some .retransmission) _ =>
    obtain ⟨_, data₁, herror, hrest⟩ := Prog.run_bind_eq_some.1 hrun
    refine hpure ?_ hrest
    obtain ⟨_, data₂, herror, htransmit⟩ := Prog.run_bind_eq_some.1 herror
    have hok := h.handleError herror
    have htransmit' := run_onGdb (run_gdbTransmitPacket hok.gdbLen)
    obtain rfl := congrArg Prod.snd (Option.some.inj (htransmit'.symm.trans htransmit))
    have hreply : StreamText data₂.gdb.reply := by
      rcases hok.reply with hnil | ⟨payload, hp, hframe⟩
      · exact hnil ▸ streamText_nil
      · exact hframe ▸ streamText_token (a := .reply payload) hp
    exact hok.send hreply rfl rfl rfl hok.len

/-- **With the lock** the stream is kept. -/
theorem StreamOk.withLock {endianess : Byte} {loc : Gdb.GdbLocals} {packet : Option (List Byte)}
    (h : StreamOk data)
    (hrun : (onGdb (withLock (Gdb.table loc endianess) packet)).run data = some ((), data')) :
    StreamOk data' := by
  obtain ⟨g, hcall, rfl⟩ := onGdb_eq_some hrun
  cases packet with
  | none =>
    cases hcall
    exact h
  | some packet =>
    have hcall' : (callHandler (Gdb.table loc endianess) packet).run data.gdb = some ((), g) :=
      hcall
    rw [Gdb.callHandler_table] at hcall'
    have hhandle := Fallible.run_toProg_eq_some hcall'
    have hanswered := (Gdb.answered_handle packet _).2 _ _ hhandle
    have hframes := (Gdb.frames_handle packet _).2 _ _ hhandle
    have hclosed : StreamOk { data with gdb := { data.gdb with closed := true } } :=
      ⟨h.sent, h.reply, h.gdbLen, h.len⟩
    rcases hanswered with hreplied | rfl
    · rcases hframes with hframes | rfl
      · exact h.frames hreplied hframes
      · exact hclosed
    · exact hclosed

end

/-! ## Sessions -/

section
variable {endianess : Byte} {data₀ data : ParserData} {ls : List SimulatorEvent}

/-- An event of the simulator keeps what holds of the stream. -/
theorem StreamOk.step {data' : ParserData} {l : SimulatorEvent} (h : StreamOk data)
    (hstep : SimulatorStep endianess data l data') : StreamOk data' := by
  cases hstep with
  | interrupt loc _ => exact h.withArm _
  | scanner loc given₀ hrun _ =>
    rw [ScannerEvent.action_eq (isSome_table loc endianess)] at hrun
    obtain ⟨packet, data₁, hbefore, hrest⟩ := Prog.run_bind_eq_some.1 hrun
    exact (h.beforeLock hbefore).withLock hrest

/-- What holds of the stream at the start holds after every session. -/
theorem StreamOk.of_run (h : StreamOk data₀) (hrun : Run (SimulatorStep endianess) data₀ ls data) :
    StreamOk data :=
  hrun.invariant (fun hstep hok => hok.step hstep) h

/-- What `gdb_listener` has sent before the lock is taken is a stream too. -/
theorem StreamOk.pending {l : GdbListener} {events : List ScannerEvent} (h : StreamOk data)
    (hpending : Pending data l events) : StreamOk l.data := by
  have hback : ∀ {d : ParserData}, StreamOk (d.withArm data.gdb.arm) → StreamOk d :=
    fun {d} hd => hd.withArm d.gdb.arm
  cases hpending with
  | rest hd => exact hback (hd ▸ h)
  | packet hbefore _ => exact hback (h.beforeLock hbefore)

/-- **Well-formed answers.** Whatever was received, and however the threads interleave, a peer that
reads what was sent finds acknowledgements, requests for a retransmission, and packets that its
analysis accepts. -/
theorem answers_wellFormed {S : Splitting endianess} {arm : ArmCore} {packet : Nat → Byte}
    {breakpoints : Nat → Word} {buffer : Nat → Byte} {events : List ScannerEvent}
    {input : List Byte} {X : (listeners S).State} {l : GdbListener}
    (h : Relation.ReflTransGen Threads.Step (listenersAt S
      (listenersStart (gdbScanner arm packet breakpoints buffer) events input)).toState X)
    (hl : X.place .gdb = .outside l) :
    ∃ answers : List Answer, scan l.data.gdb.sent = answers.map Answer.token ∧
      ∀ payload, .reply payload ∈ answers →
        Clean payload ∧ ∃ packet, Accepts (frame payload) packet ∧
          (packet.drop 1).takeWhile (fun b => b ≠ Ascii.nul) = payload := by
  obtain ⟨X₁, ls, data, pending, hacc, hexplains⟩ := exists_accounts h
  obtain rfl : X₁.gdb = l := hexplains.own_eq hl
  have hok := ((streamOk_start arm packet breakpoints buffer).of_run hacc.run).pending hacc.gdb
  obtain ⟨answers, hanswers, hsent⟩ := hok.sent
  refine ⟨answers, ?_, fun payload hmem => ?_⟩
  · rw [hsent, scan_answers hanswers]
  · have hp : Clean payload := hanswers _ hmem
    obtain ⟨hc, hd, hsum⟩ := digits_frame payload
    exact ⟨hp, _, hsum.accepts hc hd, received_string hp.noNul _ _⟩

end

/-- The session goes on to answer the packet `$!#21`, which has no handler. -/
theorem run_unsupported : ∃ data, Run (SimulatorStep 0) session [.scanner unsupported] data ∧
    data.gdb.sent = ascii "+$#00" ∧ data.gdb.closed = false := by
  have htoken : PacketToken (ascii "!") (Ascii.of '2') (Ascii.of '1') :=
    ⟨by decide, by decide, by decide⟩
  let acked : GdbData := { session.gdb with sent := session.gdb.sent ++ [Ascii.plus] }
  have hhandle :
      (Gdb.handle .zero 0 (received (ascii "!") (Ascii.of '2') (Ascii.of '1'))).run acked =
        .ok ((), acked.answered (putString acked.packet 1 []) []) :=
    Gdb.run_sendData (g := acked) [] (by decide) (by decide)
  have hanalysis := Gdb.run_analysis .zero 0 htoken rfl 0 session.gdb
  rw [hhandle] at hanalysis
  have hreport : handleError.run session = some ((), session) := rfl
  refine ⟨_, .single (.scanner .zero 0 ((Prog.run_bind_of hreport).trans (run_onGdb hanalysis))
    fun hfails => Bool.false_ne_true hfails.1), ?_, rfl⟩
  decide

/-- What is sent then is read as `+` and an empty packet. -/
theorem answers_wellFormed_unsupported : ∃ answers : List Answer,
    scan (ascii "+$#00") = answers.map Answer.token := by
  obtain ⟨data, hrun, hsent, -⟩ := run_unsupported
  have hone : OneInput [unsupported] := List.not_mem_nil
  obtain ⟨d, returned, hd, -, hlisteners⟩ := realised_of_run hrun [] [] hone
  have hreached : Relation.ReflTransGen Threads.Step (listenersAt (Splitting.calls 0)
      (listenersStart session [unsupported] [])).toState
        (listenersDone _ d returned data.gdb.arm) :=
    Threads.Serial.realised (serialRun_iff.2 ⟨_, hlisteners, rfl⟩)
  obtain ⟨answers, hscan, -⟩ := answers_wellFormed (l := ⟨d, [], none, returned⟩) hreached rfl
  have hsame : d.gdb.sent = data.gdb.sent := by
    rw [← hd]
    rfl
  rw [hsame, hsent] at hscan
  exact ⟨answers, hscan⟩

end ArmSimulator
