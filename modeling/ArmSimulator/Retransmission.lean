import ArmSimulator.HandlerRules
import ArmSimulator.Lib.Run
import ArmSimulator.Session

/-!
# Retransmission

All handlers write their reply to one buffer, which is sent again on request. After any sequence of
events the buffer holds the reply that was sent last (`SessionOk`), since no handler that returns
has written to it without sending what it then holds (`answered_handle`).
-/

namespace ArmSimulator

/-- An event, and the bytes that are sent on it; the uninitialised locals hold anything. -/
def ScannerStep (endianess : Byte) (data : ParserData) (l : ScannerEvent × List Byte)
    (data' : ParserData) : Prop :=
  ∃ loc given₀, (l.1.action (Gdb.table loc endianess) given₀).run data = some ((), data') ∧
    data'.gdb.sent = data.gdb.sent ++ l.2

/-- The packet in the bytes that are sent on an event, where there is one: it begins with `$`. -/
def replyIn (bytes : List Byte) : List Byte := bytes.dropWhile fun b => b ≠ Ascii.dollar

/-- The packets that were sent, the first one first. -/
def replies (events : List (ScannerEvent × List Byte)) : List (List Byte) :=
  (events.map fun l => replyIn l.2).filter fun s => s ≠ []

/-- The packet that was sent last; none if there was none. -/
def lastReply (events : List (ScannerEvent × List Byte)) : List Byte :=
  (replies events).getLastD []

/-- The reply in what is sent begins at the first `$`. -/
theorem replyIn_append {pre reply : List Byte} (hpre : ∀ b ∈ pre, b ≠ Ascii.dollar)
    (hreply : reply = [] ∨ reply.head? = some Ascii.dollar) : replyIn (pre ++ reply) = reply := by
  have hall : ∀ b ∈ pre, decide (b ≠ Ascii.dollar) = true := fun b hb => decide_eq_true (hpre b hb)
  rw [replyIn, List.dropWhile_append_of_pos hall]
  rcases hreply with rfl | hreply
  · rfl
  · cases reply with
    | nil => rfl
    | cons b reply =>
      obtain rfl : b = Ascii.dollar := Option.some.inj hreply
      rfl

/-- The last reply is that of the last event that has one. -/
theorem lastReply_concat (events : List (ScannerEvent × List Byte)) (l : ScannerEvent × List Byte) :
    lastReply (events ++ [l]) =
      if replyIn l.2 = [] then lastReply events else replyIn l.2 := by
  rw [lastReply, replies, List.map_append, List.filter_append, List.map_singleton]
  by_cases h : replyIn l.2 = []
  · rw [if_pos h, List.filter_cons_of_neg (by simp [h]), List.filter_nil, List.append_nil]
    rfl
  · rw [if_neg h, List.filter_cons_of_pos (by simp [h]), List.filter_nil, List.getLastD_concat]

/-! ## One event -/

/-- What an event does to the protocol: bytes other than `$` are sent, and then the packet in the
buffer, if there is one. -/
structure Sends (g g' : GdbData) (pre reply : List Byte) : Prop where
  sent : g'.sent = g.sent ++ (pre ++ reply)
  pre : ∀ b ∈ pre, b ≠ Ascii.dollar
  reply : (reply = [] ∧ g'.reply = g.reply ∧ g'.len = g.len) ∨
    (reply = g'.reply ∧ g'.reply.head? = some Ascii.dollar ∧ g'.len ≤ maxPacketSize)

/-- What is sent of the error buffer has no `$`. -/
theorem pending_ne (data : ParserData) : ∀ b ∈ data.pending, b ≠ Ascii.dollar := by
  unfold ParserData.pending
  split_ifs
  · decide
  · decide

/-- The loop over the characters changes nothing. -/
theorem preserves_analysisLoop (text : List Byte) (n i : Nat) (check : Byte) :
    Prog.Preserves id (analysisLoop text n i check) := by
  induction i, check using analysisLoop.induct text n with
  | case1 i check hi c hc ih =>
    rw [analysisLoop, if_pos hi, hc]
    exact ih
  | case2 i check hi hc =>
    rw [analysisLoop, if_pos hi, hc]
    exact Prog.Preserves.failure
  | case3 i check hi =>
    rw [analysisLoop, if_neg hi]
    exact Prog.Preserves.pure _

/-- The analysis of a packet sends `-`, or `+` and then what the handler sends. -/
theorem gdbPacketAnalysis_eq_some {handler : Byte → Option (List Byte → GdbM Unit)}
    {given₀ : Word} {text : List Byte} {n : Nat} {g g' : GdbData}
    (h : (gdbPacketAnalysis handler given₀ text n).run g = some ((), g')) :
    g' = { g with sent := g.sent ++ [Ascii.minus] } ∨ ∃ packet,
      (callHandler handler packet).run { g with sent := g.sent ++ [Ascii.plus] } =
        some ((), g') := by
  unfold gdbPacketAnalysis at h
  obtain ⟨⟨i, check⟩, g₁, hloop, hrest⟩ := Prog.run_bind_eq_some.1 h
  have hg : g₁ = g := preserves_analysisLoop text n 1 0 _ _ _ hloop
  subst hg
  dsimp only at hrest
  split at hrest
  · right
    obtain ⟨_, g₂, hack, hrest⟩ := Prog.run_bind_eq_some.1 hrest
    cases hack
    obtain ⟨_, g₃, hassert, hrest⟩ := Prog.run_bind_eq_some.1 hrest
    have hg : g₃ = _ := Prog.Preserves.assert (f := id) _ _ _ _ hassert
    subst hg
    exact ⟨_, hrest⟩
  · left
    cases hrest
    rfl

/-- The state between two events: the buffer holds the packet that was sent last. -/
structure SessionOk (data : ParserData) (events : List (ScannerEvent × List Byte)) : Prop where
  reply : data.gdb.reply = lastReply events
  first : data.gdb.reply = [] ∨ data.gdb.reply.head? = some Ascii.dollar
  gdbLen : data.gdb.len ≤ maxPacketSize
  len : data.len < maxErrorSize

section
variable {data data' : ParserData} {events : List (ScannerEvent × List Byte)}
  {l : ScannerEvent × List Byte} {pre reply : List Byte} {endianess : Byte}

/-- A session goes on with an event that sends a packet, or other characters only. -/
theorem SessionOk.of_sends (h : SessionOk data events) (hs : Sends data.gdb data'.gdb pre reply)
    (hlen : data'.len < maxErrorSize) (hsent : data'.gdb.sent = data.gdb.sent ++ l.2) :
    SessionOk data' (events ++ [l]) := by
  have hbytes : l.2 = pre ++ reply := List.append_cancel_left (hsent.symm.trans hs.sent)
  have hin : replyIn l.2 = reply := by
    rw [hbytes]
    refine replyIn_append hs.pre (hs.reply.imp And.left fun ⟨he, hfirst, _⟩ => ?_)
    rw [he]
    exact hfirst
  rcases hs.reply with ⟨rfl, hreply, hgdb⟩ | ⟨rfl, hfirst, hgdb⟩
  · refine ⟨?_, ?_, hgdb ▸ h.gdbLen, hlen⟩
    · rw [lastReply_concat, if_pos hin, hreply]
      exact h.reply
    · rw [hreply]
      exact h.first
  · refine ⟨?_, .inr hfirst, hgdb, hlen⟩
    have hne : replyIn l.2 ≠ [] := by
      rw [hin]
      intro hnil
      rw [hnil] at hfirst
      cases hfirst
    rw [lastReply_concat, if_neg hne, hin]

/-- Events on which the pending characters are reported, and nothing else happens. -/
theorem sends_reported (data : ParserData) (buffer : Nat → Byte) :
    Sends data.gdb (data.reported buffer).gdb data.pending [] where
  sent := by
    rw [List.append_nil]
    rfl
  pre := pending_ne data
  reply := .inl ⟨rfl, rfl, rfl⟩

/-- To send nothing changes nothing. -/
theorem sends_self (g : GdbData) : Sends g g [] [] where
  sent := (List.append_nil _).symm
  pre := fun _ hb => absurd hb List.not_mem_nil
  reply := .inl ⟨rfl, rfl, rfl⟩

/-- The request for a retransmission is answered with the packet in the buffer. -/
theorem SessionOk.run_retransmission (h : SessionOk data events)
    (handler : Byte → Option (List Byte → GdbM Unit)) (given₀ : Word) (text : List Byte) :
    ∃ buffer, ((ScannerEvent.token (some .retransmission) text).action handler given₀).run data =
      some ((), { data.reported buffer with
        gdb := { data.gdb with sent := data.gdb.sent ++ (data.pending ++ data.gdb.reply) } }) := by
  obtain ⟨buffer, hrun⟩ := run_handleError h.len
  refine ⟨buffer, ?_⟩
  have htransmit : gdbTransmitPacket.run (data.reported buffer).gdb =
      some ((), { data.gdb with
        sent := data.gdb.sent ++ data.pending ++ data.gdb.reply }) := run_gdbTransmitPacket h.gdbLen
  rw [List.append_assoc] at htransmit
  exact (Prog.run_bind_of hrun).trans (run_onGdb htransmit)

/-- **One event** keeps what holds of a session. -/
theorem SessionOk.step (h : SessionOk data events) (hstep : ScannerStep endianess data l data') :
    SessionOk data' (events ++ [l]) := by
  obtain ⟨loc, given₀, hrun, hsent⟩ := hstep
  obtain ⟨event, bytes⟩ := l
  have hpos : 0 < maxErrorSize := by decide
  -- where only the pending characters are reported
  have hreport : handleError.run data = some ((), data') →
      SessionOk data' (events ++ [(event, bytes)]) := by
    intro hrun
    obtain ⟨buffer, hrun'⟩ := run_handleError h.len
    obtain rfl := congrArg Prod.snd (Option.some.inj (hrun'.symm.trans hrun))
    exact h.of_sends (sends_reported data buffer) hpos hsent
  match event with
  | .endOfFile => exact hreport hrun
  | .token (some .ack) _ => exact hreport hrun
  | .token none _ =>
    cases hrun
    exact h.of_sends (sends_self _) h.len hsent
  | .token (some .other) text =>
    obtain ⟨data₁, hrun', ⟨-, hlen⟩, hgdb⟩ := run_addCharacterToError h.len (text.headD Ascii.nul)
    obtain rfl : data₁ = data' := congrArg Prod.snd (Option.some.inj (hrun'.symm.trans hrun))
    rcases hgdb with hgdb | ⟨buffer, hgdb⟩
    · have hs : Sends data.gdb data₁.gdb [] [] := by
        rw [hgdb]
        exact sends_self data.gdb
      exact h.of_sends hs hlen hsent
    · have hs : Sends data.gdb data₁.gdb data.pending [] := by
        rw [hgdb]
        exact sends_reported data buffer
      exact h.of_sends hs hlen hsent
  | .token (some .retransmission) text =>
    obtain ⟨buffer, hrun'⟩ := h.run_retransmission (Gdb.table loc endianess) given₀ text
    obtain rfl := congrArg Prod.snd (Option.some.inj (hrun'.symm.trans hrun))
    refine h.of_sends ⟨rfl, pending_ne data, ?_⟩ hpos hsent
    rcases h.first with hnil | hfirst
    · exact .inl ⟨hnil, rfl, rfl⟩
    · exact .inr ⟨rfl, hfirst, h.gdbLen⟩
  | .token (some .packet) text =>
    obtain ⟨buffer, hreport⟩ := run_handleError h.len
    have hrest := (Prog.run_bind_of hreport).symm.trans hrun
    obtain ⟨g, hanalysis, rfl⟩ := onGdb_eq_some hrest
    have hpre : ∀ {c : Byte}, c ≠ Ascii.dollar → ∀ b ∈ data.pending ++ [c], b ≠ Ascii.dollar := by
      intro c hc b hb
      rcases List.mem_append.1 hb with hb | hb
      · exact pending_ne data b hb
      · rw [List.mem_singleton.1 hb]
        exact hc
    rcases gdbPacketAnalysis_eq_some hanalysis with rfl | ⟨packet, hcall⟩
    · refine h.of_sends ⟨?_, hpre (c := Ascii.minus) (by decide), .inl ⟨rfl, rfl, rfl⟩⟩ hpos hsent
      rw [List.append_nil, ← List.append_assoc]
      rfl
    · rw [Gdb.callHandler_table] at hcall
      have hhandle := Fallible.run_toProg_eq_some hcall
      rcases (Gdb.answered_handle packet _).2 _ _ hhandle with hreplied | rfl
      · refine h.of_sends ⟨?_, hpre (c := Ascii.plus) (by decide),
          .inr ⟨rfl, hreplied.first, hreplied.len⟩⟩ hpos hsent
        rw [← List.append_assoc, ← List.append_assoc]
        exact hreplied.sent
      · refine h.of_sends ⟨?_, hpre (c := Ascii.plus) (by decide), .inl ⟨rfl, rfl, rfl⟩⟩ hpos hsent
        rw [List.append_nil, ← List.append_assoc]
        rfl

variable {arm : ArmCore} {packet : Nat → Byte} {breakpoints : Nat → Word} {buffer : Nat → Byte}

/-- Every run of the scanner is a session. -/
theorem SessionOk.of_run
    (hrun : Run (ScannerStep endianess) (gdbScanner arm packet breakpoints buffer) events data) :
    SessionOk data events := by
  induction hrun with
  | nil => exact ⟨rfl, .inl rfl, Nat.zero_le _, Nat.zero_lt_succ _⟩
  | snoc _ hstep ih => exact ih.step hstep

/-- **Retransmission.** After any sequence of events, a request for a retransmission is answered,
once the pending characters are reported, with the packet that was sent last, if there was one, and
changes nothing else than that. -/
theorem retransmission
    (hrun : Run (ScannerStep endianess) (gdbScanner arm packet breakpoints buffer) events data)
    (handler : Byte → Option (List Byte → GdbM Unit)) (given₀ : Word) (text : List Byte) :
    ∃ buffer', ((ScannerEvent.token (some .retransmission) text).action handler given₀).run data =
      some ((), {
        gdb := { data.gdb with sent := data.gdb.sent ++ (data.pending ++ lastReply events) }
        buffer := buffer'
        len := 0 }) := by
  have hok := SessionOk.of_run hrun
  obtain ⟨buffer', hretransmit⟩ := hok.run_retransmission handler given₀ text
  refine ⟨buffer', hretransmit.trans ?_⟩
  rw [hok.reply]
  rfl

end

/-- A session that was just begun. -/
def session : ParserData :=
  gdbScanner (.initial 0x1d3 (.ofWords [])) (fun _ => 0) (fun _ => 0) (fun _ => 0)

/-- The packet `$!#21`, which has no handler. -/
def unsupported : ScannerEvent :=
  .token (some .packet) (packetText (ascii "!") (Ascii.of '2') (Ascii.of '1'))

/-- The empty answer to it is sent again. -/
theorem retransmission_unsupported : ∃ data buffer,
    ScannerStep 0 session (unsupported, Ascii.plus :: ascii "$#00") data ∧
      ((ScannerEvent.token (some .retransmission) [Ascii.minus]).action
        (Gdb.table .zero 0) 0).run data = some ((), {
          gdb := { data.gdb with sent := data.gdb.sent ++ ascii "$#00" }
          buffer := buffer
          len := 0 }) := by
  have htoken : PacketToken (ascii "!") (Ascii.of '2') (Ascii.of '1') :=
    ⟨by decide, by decide, by decide⟩
  let acked : GdbData := { session.gdb with sent := session.gdb.sent ++ [Ascii.plus] }
  have hhandle :
      (Gdb.handle .zero 0 (received (ascii "!") (Ascii.of '2') (Ascii.of '1'))).run acked =
        .ok ((), acked.answered (putString acked.packet 1 []) []) :=
    Gdb.run_sendData (g := acked) [] (by decide) (by decide)
  have hanalysis := Gdb.run_analysis .zero 0 htoken rfl 0 session.gdb
  rw [hhandle] at hanalysis
  have hreport : handleError.run session = some ((), session) := rfl
  have hstep : ScannerStep 0 session (unsupported, Ascii.plus :: ascii "$#00")
      { session with gdb := acked.answered (putString acked.packet 1 []) [] } := by
    refine ⟨.zero, 0, ?_, ?_⟩
    · exact (Prog.run_bind_of hreport).trans (run_onGdb hanalysis)
    · decide
  obtain ⟨buffer, hrun⟩ := retransmission (.single hstep) (Gdb.table .zero 0) 0 [Ascii.minus]
  exact ⟨_, buffer, hstep, hrun⟩

end ArmSimulator
