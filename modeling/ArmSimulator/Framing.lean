import ArmSimulator.GdbProtocol
import ArmSimulator.Scanner
import Mathlib.Algebra.BigOperators.Group.List.Basic

/-!
# Packet framing

A packet is `$`, the payload, `#` and the checksum in two hexadecimal digits. `gdb_send_buffer`
makes one of what is in the buffer (`run_gdbSendBuffer`), and `gdb_packet_analysis` takes one apart
(`run_gdbPacketAnalysis`); `packet_framing` says that they agree, and that a packet is accepted for
its own checksum only.
-/

namespace ArmSimulator

open Prog

/-! ## The checksum -/

/-- The checksum of a payload, as both loops compute it. -/
def checksum (payload : List Byte) : Byte := payload.foldl addChar 0

/-- That the characters are signed does not matter modulo 256. -/
theorem addChar_eq (check c : Byte) : addChar check c = check + c := by
  rw [addChar, BitVec.ofInt_add, BitVec.ofInt_natCast, BitVec.ofNat_toNat, BitVec.ofInt_toInt]
  simp

/-- The sum of the bytes from an initial value. -/
theorem toNat_foldl_addChar (payload : List Byte) (check : Byte) :
    (payload.foldl addChar check).toNat =
      (check.toNat + (payload.map BitVec.toNat).sum) % 256 := by
  induction payload generalizing check with
  | nil =>
    have := check.isLt
    simp
    omega
  | cons c payload ih =>
    rw [List.foldl_cons, ih, addChar_eq, BitVec.toNat_add, List.map_cons, List.sum_cons]
    omega

/-- The checksum is the sum of the bytes modulo 256. -/
theorem toNat_checksum (payload : List Byte) :
    (checksum payload).toNat = (payload.map BitVec.toNat).sum % 256 := by
  rw [checksum, toNat_foldl_addChar]
  simp

/-- Replacing one byte by a different one changes the checksum. -/
theorem checksum_set_ne {payload : List Byte} {j : Nat} {b : Byte} (hj : j < payload.length)
    (hb : payload[j] ≠ b) : checksum (payload.set j b) ≠ checksum payload := by
  -- the sum with the byte `c` at `j`
  have hsum : ∀ c, (checksum (payload.set j c)).toNat =
      (((payload.map BitVec.toNat).take j).sum + c.toNat +
        ((payload.map BitVec.toNat).drop (j + 1)).sum) % 256 := by
    intro c
    rw [toNat_checksum, List.map_set, List.sum_set, if_pos (by simpa using hj)]
  intro he
  have hold := hsum payload[j]
  rw [List.set_getElem_self, ← he, hsum b] at hold
  have hb' : payload[j].toNat ≠ b.toNat := fun h => hb (BitVec.eq_of_toNat_eq h)
  have hlt := b.isLt
  have hlt' := payload[j].isLt
  omega

/-! ## Strings in the array -/

/-- The string is in the array from the index `i` on. -/
def Stored (packet : Nat → Byte) : Nat → List Byte → Prop
  | _, [] => True
  | i, c :: s => packet i = c ∧ Stored packet (i + 1) s

section
variable {packet packet' : Nat → Byte} {i : Nat} {s s' : List Byte}

/-- A packet holds two texts in a row where it holds the second one behind the first. -/
theorem stored_append : Stored packet i (s ++ s') ↔
    Stored packet i s ∧ Stored packet (i + s.length) s' := by
  induction s generalizing i with
  | nil => simp [Stored]
  | cons c s ih =>
    rw [List.cons_append, Stored, Stored, ih, List.length_cons, and_assoc]
    rw [Nat.add_right_comm, Nat.add_assoc]

/-- Only the bytes of the string matter. -/
theorem Stored.congr (h : Stored packet i s)
    (hsame : ∀ k, i ≤ k → k < i + s.length → packet' k = packet k) : Stored packet' i s := by
  induction s generalizing i with
  | nil => trivial
  | cons c s ih =>
    rw [List.length_cons] at hsame
    refine ⟨(hsame i (Nat.le_refl i) (by omega)).trans h.1, ih h.2 fun k hk hlt => ?_⟩
    exact hsame k (by omega) (by omega)

/-- An array that holds the string is transmitted as the string. -/
theorem Stored.map (h : Stored packet i s) : (List.range' i s.length).map packet = s := by
  induction s generalizing i with
  | nil => rfl
  | cons c s ih =>
    rw [List.length_cons, List.range'_succ, List.map_cons, ih h.2, h.1]

/-- The array with the string and its NUL written from the index `i` on. -/
def putString (packet : Nat → Byte) (i : Nat) : List Byte → Nat → Byte
  | [] => Function.update packet i Ascii.nul
  | c :: s => putString (Function.update packet i c) (i + 1) s

/-- A text that is put into a packet leaves what stands before it. -/
theorem putString_below {k : Nat} (hk : k < i) : putString packet i s k = packet k := by
  induction s generalizing packet i with
  | nil => exact Function.update_of_ne (Nat.ne_of_lt hk) _ _
  | cons c s ih =>
    rw [putString, ih (Nat.lt_succ_of_lt hk)]
    exact Function.update_of_ne (Nat.ne_of_lt hk) _ _

/-- A packet holds the text that was put into it, and a NUL behind it. -/
theorem stored_putString (packet : Nat → Byte) (i : Nat) (s : List Byte) :
    Stored (putString packet i s) i s ∧ putString packet i s (i + s.length) = Ascii.nul := by
  induction s generalizing packet i with
  | nil => exact ⟨trivial, Function.update_self _ _ _⟩
  | cons c s ih =>
    obtain ⟨hstored, hnul⟩ := ih (Function.update packet i c) (i + 1)
    refine ⟨⟨?_, hstored⟩, ?_⟩
    · rw [putString, putString_below (Nat.lt_succ_self i)]
      exact Function.update_self _ _ _
    · rw [putString, List.length_cons, Nat.add_comm s.length 1, ← Nat.add_assoc]
      exact hnul

end

/-! ## Sending -/

section
variable {g : GdbData} {i : Nat}

/-- A character within the buffer is read. -/
theorem run_readPacket (hi : i < maxPacketSize) :
    (readPacket i).run g = some (g.packet i, g) := by
  unfold readPacket
  rw [decide_eq_true hi]
  rfl

/-- A character within the buffer is written. -/
theorem run_writePacket (hi : i < maxPacketSize) (value : Byte) :
    (writePacket i value).run g =
      some ((), { g with packet := Function.update g.packet i value }) := by
  unfold writePacket
  rw [decide_eq_true hi]
  rfl

/-- A text that fits in the buffer is put into it. -/
theorem run_writeString {s : List Byte} (h : i + s.length < maxPacketSize) :
    (writeString i s).run g = some ((), { g with packet := putString g.packet i s }) := by
  induction s generalizing g i with
  | nil => exact run_writePacket h _
  | cons c s ih =>
    rw [List.length_cons] at h
    rw [writeString, run_bind_of (run_writePacket (by omega) c), ih (by omega)]
    rfl

/-- The loop stops at the NUL. -/
theorem run_bufferLoop {s : List Byte} {check : Byte} (hs : Stored g.packet i s)
    (hne : ∀ c ∈ s, c ≠ Ascii.nul) (hnul : g.packet (i + s.length) = Ascii.nul)
    (h : i + s.length < maxPacketSize) :
    (bufferLoop i check).run g = some ((i + s.length, s.foldl addChar check), g) := by
  induction s generalizing i check with
  | nil =>
    have hi : i < maxPacketSize := h
    have hnul' : ¬ g.packet i ≠ Ascii.nul := not_not.2 hnul
    rw [bufferLoop, if_pos hi, run_bind_of (run_readPacket hi), if_neg hnul']
    rfl
  | cons c s ih =>
    have hadd : i + (c :: s).length = i + 1 + s.length := by
      rw [List.length_cons]
      omega
    rw [hadd] at hnul h ⊢
    have hi : i < maxPacketSize := by omega
    have hc : g.packet i ≠ Ascii.nul := by
      rw [hs.1]
      exact hne c List.mem_cons_self
    rw [bufferLoop, if_pos hi, run_bind_of (run_readPacket hi), if_pos hc, hs.1, List.foldl_cons]
    exact ih hs.2 (fun b hb => hne b (List.mem_cons_of_mem c hb)) hnul h

/-- The characters of the buffer are sent as far as its length goes. -/
theorem run_gdbTransmitPacket (h : g.len ≤ maxPacketSize) : gdbTransmitPacket.run g =
    some ((), { g with sent := g.sent ++ (List.range' 0 g.len).map g.packet }) := by
  have hget : (get : GdbM GdbData).run g = some (g, g) := rfl
  have hassert : (Prog.assert (decide (g.len ≤ maxPacketSize)) : GdbM Unit).run g =
      some ((), g) := by
    rw [decide_eq_true h]
    rfl
  exact (run_bind_of hget).trans (run_bind_of hassert)

/-- The payload is the string in the buffer. -/
structure Buffered (g : GdbData) (payload : List Byte) : Prop where
  stored : Stored g.packet 1 payload
  nul : g.packet (1 + payload.length) = Ascii.nul

/-- The packet of a payload, with the two digits that `%02x` gives of its checksum. -/
def frame (payload : List Byte) : List Byte :=
  packetText payload (hexDigit ((checksum payload).toNat / 16))
    (hexDigit ((checksum payload).toNat % 16))

/-- A byte is written with the digits of its two halves. -/
theorem formatHex_two {value : Nat} (h : value < 256) :
    formatHex 2 value = [hexDigit (value / 16), hexDigit (value % 16)] := by
  have h1 : value / 16 % 16 = value / 16 := Nat.mod_eq_of_lt (by omega)
  simp [formatHex, List.range_succ, h1]

/-- The array with the bytes written around the payload. -/
def framed (packet : Nat → Byte) (payload : List Byte) : Nat → Byte :=
  let packet := Function.update packet 0 Ascii.dollar
  let packet := Function.update packet (1 + payload.length) Ascii.hash
  let packet := putString packet (1 + payload.length + 1) (formatHex 2 (checksum payload).toNat)
  Function.update packet (1 + payload.length + 1 + 2) Ascii.nul

/-- The bytes that are stored make a packet of the payload. -/
theorem stored_framed {packet : Nat → Byte} {payload : List Byte} (h : Stored packet 1 payload) :
    Stored (framed packet payload) 0 (frame payload) := by
  have hdigits := formatHex_two (checksum payload).isLt
  let packet₁ := Function.update packet 0 Ascii.dollar
  let packet₂ := Function.update packet₁ (1 + payload.length) Ascii.hash
  -- the bytes before the digits are those of `packet₂`
  have hbefore : ∀ {k}, k < 1 + payload.length + 1 → framed packet payload k = packet₂ k := by
    intro k hk
    rw [framed, Function.update_of_ne (by omega), putString_below hk]
  have hpacket₁ : ∀ {k}, k < 1 + payload.length → packet₂ k = packet₁ k :=
    fun hk => Function.update_of_ne (Nat.ne_of_lt hk) _ _
  refine ⟨?_, stored_append.2 ⟨h.congr fun k hk hlt => ?_, ?_, ?_⟩⟩
  · rw [hbefore (by omega), hpacket₁ (by omega)]
    exact Function.update_self _ _ _
  · rw [hbefore (by omega), hpacket₁ hlt]
    exact Function.update_of_ne (by omega) _ _
  · rw [Nat.zero_add, hbefore (by omega)]
    exact Function.update_self _ _ _
  · have hstring := (stored_putString packet₂ (1 + payload.length + 1)
      (formatHex 2 (checksum payload).toNat)).1
    have hsame : ∀ k, 1 + payload.length + 1 ≤ k → k < 1 + payload.length + 1 + 2 →
        framed packet payload k = putString packet₂ (1 + payload.length + 1)
          (formatHex 2 (checksum payload).toNat) k :=
      fun k _ hk => Function.update_of_ne (Nat.ne_of_lt hk) _ _
    rw [Nat.zero_add]
    rw [hdigits] at hstring hsame
    exact hstring.congr hsame

/-- **What `gdb_send_buffer` sends.** The array has room for payloads of 4091 bytes. -/
theorem run_gdbSendBuffer {payload : List Byte} (hlen : payload.length ≤ 4091)
    (hne : ∀ c ∈ payload, c ≠ Ascii.nul) (hb : Buffered g payload) :
    gdbSendBuffer.run g = some ((), { g with
      packet := framed g.packet payload
      len := (frame payload).length
      sent := g.sent ++ frame payload }) := by
  have hmax : 1 + payload.length + 1 + 2 < maxPacketSize := by
    show _ < 4096
    omega
  have hdigits := formatHex_two (checksum payload).isLt
  have hlength : 1 + payload.length + 1 + 2 = (frame payload).length := by
    simp [frame, packetText]
    omega
  have hloop : (bufferLoop 1 0).run { g with packet := Function.update g.packet 0 Ascii.dollar } =
      some ((1 + payload.length, checksum payload),
        { g with packet := Function.update g.packet 0 Ascii.dollar }) := by
    refine run_bufferLoop (hb.stored.congr fun k hk _ => ?_) hne ?_ (by omega)
    · exact Function.update_of_ne (by omega) _ _
    · exact (Function.update_of_ne (by omega) _ _).trans hb.nul
  have hstring : 1 + payload.length + 1 + (formatHex 2 (checksum payload).toNat).length <
      maxPacketSize := by
    rw [hdigits]
    exact hmax
  unfold gdbSendBuffer
  rw [run_bind_of (run_writePacket (by omega) _), run_bind_of hloop]
  dsimp only
  rw [run_bind_of (run_writePacket (by omega) _), run_bind_of (run_writeString hstring),
    run_bind_of (run_writePacket hmax _)]
  refine (run_bind_of rfl).trans ((run_gdbTransmitPacket (Nat.le_of_lt hmax)).trans ?_)
  show some ((), { g with
    packet := framed g.packet payload
    len := 1 + payload.length + 1 + 2
    sent := g.sent ++ (List.range' 0 (1 + payload.length + 1 + 2)).map (framed g.packet payload) })
    = _
  rw [hlength, (stored_framed hb.stored).map]

/-- `gdb_send_data` puts the string in the buffer. -/
theorem run_gdbSendData {data : List Byte} (hlen : data.length ≤ 4091)
    (hne : ∀ c ∈ data, c ≠ Ascii.nul) :
    (gdbSendData data).run g = some ((), { g with
      packet := framed (putString g.packet 1 data) data
      len := (frame data).length
      sent := g.sent ++ frame data }) := by
  have hmax : 1 + data.length < maxPacketSize := by
    show _ < 4096
    omega
  have hput := stored_putString g.packet 1 data
  rw [gdbSendData, run_bind_of (run_writeString hmax)]
  exact run_gdbSendBuffer hlen hne ⟨hput.1, hput.2⟩

end

/-! ## Receiving -/

/-- The token as the handlers see it: the payload is a string. -/
def received (payload : List Byte) (c d : Byte) : List Byte :=
  Ascii.dollar :: (payload ++ [Ascii.nul, c, d, Ascii.nul])

/-- A payload without a NUL is recovered as the string after the `$`. -/
theorem received_string {payload : List Byte} (h : ∀ b ∈ payload, b ≠ Ascii.nul) (c d : Byte) :
    ((received payload c d).drop 1).takeWhile (fun b => b ≠ Ascii.nul) = payload := by
  have hall : ∀ b ∈ payload, decide (b ≠ Ascii.nul) = true := fun b hb => decide_eq_true (h b hb)
  rw [received, List.drop_one, List.tail_cons, List.takeWhile_append_of_pos hall]
  simp

section
variable {g : GdbData} {payload : List Byte} {c d : Byte}

/-- The loop adds up what lies before the last three characters. -/
theorem run_analysisLoop {length : Nat} (pre rest : List Byte) (check : Byte)
    (h : length - 3 = pre.length + payload.length) :
    (analysisLoop (pre ++ payload ++ rest) length pre.length check).run g =
      some ((pre.length + payload.length, payload.foldl addChar check), g) := by
  induction payload generalizing pre check with
  | nil =>
    have hend : ¬ pre.length < length - 3 := by
      rw [h, List.length_nil]
      omega
    rw [analysisLoop, if_neg hend]
    rfl
  | cons c payload ih =>
    have hgo : pre.length < length - 3 := by
      rw [h, List.length_cons]
      omega
    have hget : (pre ++ c :: payload ++ rest)[pre.length]? = some c := by simp
    have hshift : pre ++ c :: payload ++ rest = (pre ++ [c]) ++ payload ++ rest := by simp
    have hlen : (pre ++ [c]).length = pre.length + 1 := by simp
    rw [analysisLoop, if_pos hgo, hget]
    dsimp only
    have hend : length - 3 = (pre ++ [c]).length + payload.length := by
      rw [h, hlen, List.length_cons]
      omega
    rw [hshift, ← hlen, ih (pre ++ [c]) _ hend, hlen, List.length_cons, List.foldl_cons,
      Nat.add_right_comm, Nat.add_assoc]

/-- **What `gdb_packet_analysis` does with a packet**: it calls the handler with the payload where
the digits denote the checksum, and asks for the packet again where they do not. -/
theorem run_gdbPacketAnalysis (handler : Byte → Option (List Byte → GdbM Unit)) (given₀ : Word)
    (hc : isHexDigit c = true) (hd : isHexDigit d = true) :
    (gdbPacketAnalysis handler given₀ (packetText payload c d ++ [Ascii.nul])
      (packetText payload c d).length).run g =
      if hexValue c * 16 + hexValue d = (checksum payload).toNat then
        (gdbSendAck >>= fun _ => callHandler handler (received payload c d)).run g
      else some ((), { g with sent := g.sent ++ [Ascii.minus] }) := by
  have htext : packetText payload c d ++ [Ascii.nul] =
      [Ascii.dollar] ++ payload ++ [Ascii.hash, c, d, Ascii.nul] := by
    simp [packetText]
  have hlength : (packetText payload c d).length - 3 = 1 + payload.length := by
    simp [packetText]
    omega
  have hloop : (analysisLoop ([Ascii.dollar] ++ payload ++ [Ascii.hash, c, d, Ascii.nul])
      (packetText payload c d).length 1 0).run g =
        some ((1 + payload.length, checksum payload), g) :=
    run_analysisLoop [Ascii.dollar] [Ascii.hash, c, d, Ascii.nul] 0 hlength
  have hindex : 1 + payload.length = ([Ascii.dollar] ++ payload).length := by
    rw [List.length_append, List.length_singleton]
  have hdrop : ([Ascii.dollar] ++ payload ++ [Ascii.hash, c, d, Ascii.nul]).drop
      (1 + payload.length + 1) = [c, d, Ascii.nul] := by
    rw [hindex, ← List.drop_drop, List.drop_left]
    rfl
  have hset : ([Ascii.dollar] ++ payload ++ [Ascii.hash, c, d, Ascii.nul]).set
      (1 + payload.length) Ascii.nul = received payload c d := by
    rw [hindex, List.set_append_right _ _ (Nat.le_refl _), Nat.sub_self]
    simp [received]
  have hinside : (Prog.assert (decide (1 + payload.length <
      ([Ascii.dollar] ++ payload ++ [Ascii.hash, c, d, Ascii.nul]).length)) : GdbM Unit) =
        pure () := by
    rw [hindex, decide_eq_true (by simp)]
    rfl
  have hiff : (checksum payload).setWidth 32 = BitVec.ofNat 32 (hexValue c * 16 + hexValue d) ↔
      hexValue c * 16 + hexValue d = (checksum payload).toNat := by
    have hlt := hexValue_lt hc
    have hlt' := hexValue_lt hd
    have := (checksum payload).isLt
    rw [BitVec.toNat_eq, BitVec.toNat_setWidth, BitVec.toNat_ofNat]
    omega
  unfold gdbPacketAnalysis
  rw [htext, run_bind_of hloop]
  dsimp only
  rw [hdrop, scanHex_pair hc hd, hset, hinside]
  by_cases h : hexValue c * 16 + hexValue d = (checksum payload).toNat
  · rw [if_pos h]
    exact congrArg (fun m => StateT.run m g) (if_pos (hiff.2 h))
  · rw [if_neg h]
    exact congrArg (fun m => StateT.run m g) (if_neg fun he => h (hiff.1 he))

end

/-! ## Accepted and rejected tokens -/

/-- The analysis of the token is to acknowledge it and to call the handler of the packet. -/
def Accepts (text packet : List Byte) : Prop :=
  ∀ handler given₀ g, (gdbPacketAnalysis handler given₀ (text ++ [Ascii.nul]) text.length).run g =
    (gdbSendAck >>= fun _ => callHandler handler packet).run g

/-- The analysis of the token is to ask for it again, whatever the handlers are. -/
def Rejects (text : List Byte) : Prop :=
  ∀ handler given₀ g, (gdbPacketAnalysis handler given₀ (text ++ [Ascii.nul]) text.length).run g =
    some ((), { g with sent := g.sent ++ [Ascii.minus] })

/-- The digits denote the sum of the bytes of the payload modulo 256. -/
def DenoteSum (payload : List Byte) (c d : Byte) : Prop :=
  hexValue c * 16 + hexValue d = (payload.map BitVec.toNat).sum % 256

/-- No token is both. -/
theorem Rejects.not_accepts {text : List Byte} (h : Rejects text) (packet : List Byte) :
    ¬ Accepts text packet := by
  intro ha
  -- a handler that aborts tells the two apart, and so does a packet without a first character
  let handler : Byte → Option (List Byte → GdbM Unit) := fun _ => some fun _ => failure
  let g : GdbData := gdbInitData (.initial 0 (.ofWords [])) (fun _ => 0) (fun _ => 0)
  have hsame := (h handler 0 g).symm.trans (ha handler 0 g)
  have hfail : (gdbSendAck >>= fun _ => callHandler handler packet).run g = none := by
    unfold callHandler
    cases packet[1]? with
    | none => rfl
    | some index => rfl
  rw [hfail] at hsame
  cases hsame

section
variable {payload : List Byte} {c d : Byte}

/-- Two characters denote the checksum where their values make up the number. -/
theorem denoteSum_iff :
    DenoteSum payload c d ↔ hexValue c * 16 + hexValue d = (checksum payload).toNat := by
  rw [DenoteSum, toNat_checksum]

/-- A packet whose two digits denote the checksum is accepted. -/
theorem DenoteSum.accepts (h : DenoteSum payload c d) (hc : isHexDigit c = true)
    (hd : isHexDigit d = true) : Accepts (packetText payload c d) (received payload c d) :=
  fun handler given₀ _ =>
    (run_gdbPacketAnalysis handler given₀ hc hd).trans (if_pos (denoteSum_iff.1 h))

/-- A packet whose two digits do not denote the checksum is rejected. -/
theorem rejects_of_not_denoteSum (h : ¬ DenoteSum payload c d) (hc : isHexDigit c = true)
    (hd : isHexDigit d = true) : Rejects (packetText payload c d) :=
  fun handler given₀ _ =>
    (run_gdbPacketAnalysis handler given₀ hc hd).trans (if_neg fun he => h (denoteSum_iff.2 he))

/-- A packet is accepted where its digits denote the sum, and only there. -/
theorem accepts_iff (hc : isHexDigit c = true) (hd : isHexDigit d = true) :
    (∃ packet, Accepts (packetText payload c d) packet) ↔ DenoteSum payload c d := by
  constructor
  · rintro ⟨packet, ha⟩
    by_contra h
    exact (rejects_of_not_denoteSum h hc hd).not_accepts packet ha
  · intro h
    exact ⟨_, h.accepts hc hd⟩

/-- With one byte replaced by a different one, the digits do not denote the sum any more. -/
theorem DenoteSum.not_set {j : Nat} {b : Byte} (h : DenoteSum payload c d)
    (hj : j < payload.length) (hb : payload[j] ≠ b) : ¬ DenoteSum (payload.set j b) c d := by
  intro h'
  have he := (denoteSum_iff.1 h').symm.trans (denoteSum_iff.1 h)
  exact checksum_set_ne hj hb (BitVec.eq_of_toNat_eq he)

/-- The two digits of a frame denote its checksum. -/
theorem digits_frame (payload : List Byte) :
    isHexDigit (hexDigit ((checksum payload).toNat / 16)) = true ∧
    isHexDigit (hexDigit ((checksum payload).toNat % 16)) = true ∧
    DenoteSum payload (hexDigit ((checksum payload).toNat / 16))
      (hexDigit ((checksum payload).toNat % 16)) := by
  have hlt := (checksum payload).isLt
  have hhigh : (checksum payload).toNat / 16 < 16 := by omega
  have hlow : (checksum payload).toNat % 16 < 16 := Nat.mod_lt _ (by omega)
  refine ⟨isHexDigit_hexDigit hhigh, isHexDigit_hexDigit hlow, denoteSum_iff.2 ?_⟩
  rw [hexValue_hexDigit hhigh, hexValue_hexDigit hlow]
  omega

end

/-- **Packet framing.** What `gdb_send_buffer` sends of a payload lies in the array with its NUL, is
exactly one token of the packet rule, and is accepted with the same payload. A token of the packet
rule is accepted if and only if its digits denote the sum of its payload modulo 256, and rejected
otherwise; an accepted one with one byte of its payload replaced is rejected. -/
theorem packet_framing :
    (∀ (g : GdbData) (payload : List Byte), payload.length ≤ 4091 →
      (∀ b ∈ payload, b ≠ Ascii.nul ∧ PayloadByte b) → Buffered g payload →
      ∃ g' text packet, gdbSendBuffer.run g = some ((), g') ∧ g'.sent = g.sent ++ text ∧
        Stored g'.packet 0 text ∧ text.length < maxPacketSize ∧
        scan text = [(some .packet, text)] ∧
        Accepts text packet ∧ (packet.drop 1).takeWhile (fun b => b ≠ Ascii.nul) = payload) ∧
    ∀ input text, (some .packet, text) ∈ scan input →
      ∃ payload c d, PacketToken payload c d ∧ text = packetText payload c d ∧
        ((∃ packet, Accepts text packet) ↔ DenoteSum payload c d) ∧
        (¬ DenoteSum payload c d → Rejects text) ∧
        ((∃ packet, Accepts text packet) → ∀ j b, (hj : j < payload.length) → payload[j] ≠ b →
          Rejects (packetText (payload.set j b) c d)) := by
  refine ⟨fun g payload hlen hbytes hb => ?_, fun input text htoken => ?_⟩
  · have hne : ∀ b ∈ payload, b ≠ Ascii.nul := fun b hb => (hbytes b hb).1
    obtain ⟨hc, hd, hsum⟩ := digits_frame payload
    have htoken := scan_packet ⟨fun b hb => (hbytes b hb).2, hc, hd⟩ []
    rw [List.append_nil] at htoken
    have hmax : (frame payload).length < maxPacketSize := by
      have hlength : (frame payload).length = payload.length + 4 := by simp [frame, packetText]
      rw [hlength]
      show _ < 4096
      omega
    refine ⟨_, frame payload, received payload _ _, run_gdbSendBuffer hlen hne hb, rfl,
      stored_framed hb.stored, hmax, ?_, hsum.accepts hc hd, received_string hne _ _⟩
    rw [frame, htoken, scan, Lexer.tokens]
  · obtain ⟨payload, c, d, ht, rfl⟩ := packet_of_mem_scan htoken
    have hiff : (∃ packet, Accepts (packetText payload c d) packet) ↔ DenoteSum payload c d :=
      accepts_iff ht.first ht.second
    refine ⟨payload, c, d, ht, rfl, hiff, fun h => ?_, fun ha j b hj hb => ?_⟩
    · exact rejects_of_not_denoteSum h ht.first ht.second
    · exact rejects_of_not_denoteSum ((hiff.1 ha).not_set hj hb) ht.first ht.second

/-- A session that is about to send `OK`. -/
def gdbReply : GdbData :=
  gdbInitData (.initial 0x1d3 (.ofWords [])) (putString (fun _ => 0) 1 [0x4F, 0x4B]) (fun _ => 0)

/-- The text `OK` is sent as `$OK#9a`, which is accepted, while `$OJ#9a` is rejected. -/
theorem packet_framing_reply :
    (∃ g' text packet, gdbSendBuffer.run gdbReply = some ((), g') ∧ g'.sent = text ∧
      scan text = [(some .packet, text)] ∧ Accepts text packet ∧
      (packet.drop 1).takeWhile (fun b => b ≠ Ascii.nul) = [0x4F, 0x4B]) ∧
    Rejects (packetText [0x4F, 0x4A] 0x39 0x61) := by
  obtain ⟨hsend, hanalysis⟩ := packet_framing
  have hput := stored_putString (fun _ => 0) 1 [0x4F, 0x4B]
  constructor
  · obtain ⟨g', text, packet, hrun, hsent, -, -, hscan, ha, hs⟩ :=
      hsend gdbReply [0x4F, 0x4B] (by decide) (by decide) ⟨hput.1, hput.2⟩
    exact ⟨g', text, packet, hrun, hsent, hscan, ha, hs⟩
  · have htoken : PacketToken [0x4F, 0x4B] 0x39 0x61 := ⟨by decide, by decide, by decide⟩
    have hscan := scan_packet htoken []
    rw [List.append_nil] at hscan
    obtain ⟨payload, c, d, -, htext, hiff, -, hset⟩ :=
      hanalysis (packetText [0x4F, 0x4B] 0x39 0x61) _ (hscan ▸ List.mem_cons_self)
    obtain ⟨rfl, rfl, rfl⟩ := packetText_inj htext
    exact hset (hiff.2 rfl) 1 0x4A (by decide) (by decide)

end ArmSimulator
