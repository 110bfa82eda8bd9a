import ArmSimulator.Framing
import ArmSimulator.GdbHandlers

/-!
# The replies of the handlers

A reply is put together in the buffer and then sent by `gdb_send_buffer`. `Appends` is what each
part of a handler does that writes to the buffer where the text so far ends, and `GdbData.answered`
the state that a handler leaves which only answers: the reply is the frame of a payload.
-/

namespace ArmSimulator

/-! ## Texts in the buffer -/

section
variable {packet : Nat → Byte} {payload : List Byte}

/-- A text that is written where the text before ends makes one with it. -/
theorem Stored.append (h : Stored packet 1 payload) (s : List Byte) :
    Stored (putString packet (1 + payload.length) s) 1 (payload ++ s) := by
  refine stored_append.2 ⟨h.congr fun k _ hk => putString_below hk, ?_⟩
  exact (stored_putString packet (1 + payload.length) s).1

end

/-- No byte of the text ends it. -/
abbrev NoNul (s : List Byte) : Prop := ∀ c ∈ s, c ≠ Ascii.nul

/-- Two texts without a NUL have none in a row. -/
theorem NoNul.append {s s' : List Byte} (h : NoNul s) (h' : NoNul s') : NoNul (s ++ s') :=
  fun c hc => (List.mem_append.1 hc).elim (h c) (h' c)

/-- The characters are tested one by one, as `Char` is a finite type too. -/
theorem noNul_ascii {l : List Char} (h : l.all (Ascii.of · ≠ Ascii.nul) = true) :
    NoNul (ascii (String.ofList l)) := by
  rw [ascii_ofList]
  exact List.forall_mem_map.2 fun c hc => of_decide_eq_true (List.all_eq_true.1 h c hc)

/-- No digit that `%x` writes is a NUL. -/
theorem noNul_formatHex (digits value : Nat) : NoNul (formatHex digits value) := by
  rintro c hc rfl
  cases isHexDigit_formatHex hc

/-- A text that is written part by part has no NUL if no part of it has one. -/
theorem NoNul.flatMap {α : Type} {l : List α} {s : α → List Byte} (h : ∀ a ∈ l, NoNul (s a)) :
    NoNul (l.flatMap s) := by
  intro c hc
  obtain ⟨a, ha, hca⟩ := List.mem_flatMap.1 hc
  exact h a ha c hca

/-- The state after an answer: the payload of the buffer is framed, and the frame is sent. -/
def GdbData.answered (g : GdbData) (packet : Nat → Byte) (payload : List Byte) : GdbData :=
  { g with
    packet := framed packet payload
    len := (frame payload).length
    sent := g.sent ++ frame payload }

namespace Gdb

open Fallible

section
variable {g : GdbData}

/-- A text that fits in the buffer is written at its position. -/
theorem run_putText {i : Nat} {s : List Byte} (h : i + s.length < maxPacketSize) :
    (putText i s).run g = .ok ((), { g with packet := putString g.packet i s }) :=
  run_ofProg (run_writeString h)

/-- A payload that is in the buffer is framed and sent. -/
theorem run_sendBuffer {payload : List Byte} (hlen : payload.length ≤ 4091) (hne : NoNul payload)
    (hb : Buffered g payload) : sendBuffer.run g = .ok ((), g.answered g.packet payload) :=
  run_ofProg (run_gdbSendBuffer hlen hne hb)

/-- The data that `gdb_send_data` is given is framed and sent. -/
theorem run_sendData (data : List Byte) (hlen : data.length ≤ 4091) (hne : NoNul data) :
    (sendData data).run g = .ok ((), g.answered (putString g.packet 1 data) data) :=
  run_ofProg (run_gdbSendData hlen hne)

/-- A text of the source is framed and sent. -/
theorem run_sendText {l : List Char} (hlen : l.length ≤ 4091)
    (hne : l.all (Ascii.of · ≠ Ascii.nul) = true) :
    (sendData (ascii (String.ofList l))).run g = .ok ((), g.answered
      (putString g.packet 1 (ascii (String.ofList l))) (ascii (String.ofList l))) :=
  run_sendData _ ((length_ascii l).trans_le hlen) (noNul_ascii hne)

/-- The number of a register passes the assertions. -/
theorem ofNat_lt {i : Nat} (h : i < 16) : BitVec.ofNat 32 i < 16 := by
  rw [BitVec.lt_def, BitVec.toNat_ofNat]
  exact Nat.lt_of_le_of_lt (Nat.mod_le _ _) h

/-- The eight digits of a register are written at their position. -/
theorem run_readRegister {i : Nat} {reg : Byte} (hr : reg < 16) (hi : i + 8 < maxPacketSize) :
    (readRegister i reg).run g = .ok ((), { g with
      packet := putString g.packet i
        (formatHex 8 (registersRead g.arm.reg reg g.arm.mode).toNat) }) := by
  refine (run_bind_ok (run_check (decide_eq_true hr))).trans ?_
  refine run_get_bind.trans (run_putText ?_)
  rw [length_formatHex]
  exact hi

end

/-! ## Parts of a reply -/

/-- Where the buffer ends, with the target `p`, the program writes the text, and goes on behind
it. -/
def Appends (p : ArmCore) (m : Nat → HandlerM Nat) (s : List Byte) : Prop :=
  ∀ (g : GdbData) (payload : List Byte), g.arm = p → Stored g.packet 1 payload →
    1 + payload.length + s.length < maxPacketSize →
    ∃ packet, (m (1 + payload.length)).run g =
        .ok (1 + payload.length + s.length, { g with packet }) ∧
      Stored packet 1 (payload ++ s)

section
variable {p : ArmCore}

/-- A text of the program is appended. -/
theorem appends_putText {s : List Byte} {k : Nat} (hk : s.length = k) :
    Appends p (fun position => do
      putText position s
      return position + k) s := by
  subst hk
  intro g payload _ hs hlen
  refine ⟨putString g.packet (1 + payload.length) s, ?_, hs.append s⟩
  exact run_bind_ok (run_putText hlen)

/-- The value of a register is appended in eight digits. -/
theorem appends_readRegister {reg : Byte} (hr : reg < 16) :
    Appends p (fun position => do
      readRegister position reg
      return position + 8) (formatHex 8 (registersRead p.reg reg p.mode).toNat) := by
  intro g payload hp hs hlen
  rw [length_formatHex] at hlen ⊢
  subst hp
  exact ⟨_, run_bind_ok (run_readRegister hr hlen), hs.append _⟩

/-- Two parts append their texts one after the other. -/
theorem Appends.bind {m n : Nat → HandlerM Nat} {s s' : List Byte} (hm : Appends p m s)
    (hn : Appends p n s') : Appends p (fun position => m position >>= n) (s ++ s') := by
  intro g payload hp hs hlen
  rw [List.length_append] at hlen
  obtain ⟨packet, hrun, hstored⟩ := hm g payload hp hs (by omega)
  have hpos : 1 + payload.length + s.length = 1 + (payload ++ s).length := by
    rw [List.length_append, Nat.add_assoc]
  obtain ⟨packet', hrun', hstored'⟩ := hn { g with packet } (payload ++ s) hp hstored (by omega)
  refine ⟨packet', (run_bind_ok hrun).trans ?_, ?_⟩
  · rw [hpos, hrun', ← hpos, List.length_append, Nat.add_assoc]
  · rw [← List.append_assoc]
    exact hstored'

/-- A loop whose rounds append texts appends them all. -/
theorem Appends.foldlM {α : Type} {f : Nat → α → HandlerM Nat} {s : α → List Byte} {l : List α}
    (h : ∀ a ∈ l, Appends p (fun position => f position a) (s a)) :
    Appends p (fun position => l.foldlM f position) (l.flatMap s) := by
  induction l with
  | nil =>
    intro g payload _ hs _
    refine ⟨g.packet, rfl, ?_⟩
    rw [List.flatMap_nil, List.append_nil]
    exact hs
  | cons a l ih =>
    exact (h a List.mem_cons_self).bind (ih fun b hb => h b (List.mem_cons_of_mem a hb))

end

/-- The last part is appended, and the whole payload sent. -/
theorem run_putText_sendBuffer {g : GdbData} {payload s : List Byte}
    (hs : Stored g.packet 1 payload) (hne : NoNul (payload ++ s))
    (hlen : (payload ++ s).length ≤ 4091) :
    (putText (1 + payload.length) s >>= fun _ => sendBuffer).run g =
      .ok ((), g.answered (putString g.packet (1 + payload.length) s) (payload ++ s)) := by
  have hmax : 1 + payload.length + s.length < maxPacketSize := by
    rw [List.length_append] at hlen
    show _ < 4096
    omega
  have hnul :
      putString g.packet (1 + payload.length) s (1 + (payload ++ s).length) = Ascii.nul := by
    rw [List.length_append, ← Nat.add_assoc]
    exact (stored_putString g.packet (1 + payload.length) s).2
  exact (run_bind_ok (run_putText hmax)).trans (run_sendBuffer hlen hne ⟨hs.append s, hnul⟩)

/-! ## Registers -/

/-- The general registers, as `read_general_registers` answers them. -/
def registersText (p : ArmCore) : List Byte :=
  (List.range 16).flatMap fun i =>
    formatHex 8 (registersRead p.reg (BitVec.ofNat 8 i) p.mode).toNat

/-- The floating point registers. -/
def floatsText : List Byte := (List.range (8 * 3)).flatMap fun _ => unavailable

/-- What `read_general_registers` answers. -/
def generalRegistersText (p : ArmCore) : List Byte :=
  registersText p ++ floatsText ++ unavailable ++ formatHex 8 p.reg.cpsr.toNat

/-- The text for a register that GDB is not given has no NUL. -/
theorem noNul_unavailable : NoNul unavailable := by decide

/-- The text for a register that GDB is not given is as long as a value. -/
theorem length_unavailable : unavailable.length = 8 := by decide

/-- The values of the general registers have no NUL in their text. -/
theorem noNul_generalRegistersText (p : ArmCore) : NoNul (generalRegistersText p) :=
  (((NoNul.flatMap fun _ _ => noNul_formatHex _ _).append
    (.flatMap fun _ _ => noNul_unavailable)).append noNul_unavailable).append (noNul_formatHex _ _)

/-- Texts of one length make up a multiple of it. -/
theorem length_flatMap_const {α : Type} {l : List α} {s : α → List Byte} {k : Nat}
    (h : ∀ a ∈ l, (s a).length = k) : (l.flatMap s).length = l.length * k := by
  induction l with
  | nil => exact (Nat.zero_mul k).symm
  | cons a l ih =>
    rw [List.flatMap_cons, List.length_append, h a List.mem_cons_self,
      ih fun b hb => h b (List.mem_cons_of_mem a hb), List.length_cons, Nat.succ_mul, Nat.add_comm]

/-- The sixteen general registers take 128 digits. -/
theorem length_registersText (p : ArmCore) : (registersText p).length = 128 :=
  length_flatMap_const fun _ _ => length_formatHex _ _

/-- The eight floating point registers take 192 characters. -/
theorem length_floatsText : floatsText.length = 192 :=
  length_flatMap_const fun _ _ => length_unavailable

/-- The first loop of the answer to `g` appends the general registers. -/
theorem appends_readRegistersLoop (p : ArmCore) :
    Appends p readRegistersLoop (registersText p) := by
  have hnumber : ∀ i ∈ List.range 16, BitVec.ofNat 8 i < (16 : Byte) := by decide
  exact Appends.foldlM fun i hi => appends_readRegister (hnumber i hi)

/-- The second loop of the answer to `g` appends the floating point registers. -/
theorem appends_floatsLoop (p : ArmCore) : Appends p floatsLoop floatsText :=
  Appends.foldlM fun _ _ => appends_putText length_unavailable

/-- **What `read_general_registers` does** is to send the text of the registers. -/
theorem run_readGeneralRegisters (g : GdbData) (data : List Byte) :
    ∃ packet, (readGeneralRegisters data).run g =
      .ok ((), g.answered packet (generalRegistersText g.arm)) := by
  have hregisters := length_registersText g.arm
  have hmax : 1 + 128 + 192 + 8 < maxPacketSize := by decide
  have hlength : (registersText g.arm ++ floatsText).length = 320 := by
    rw [List.length_append, hregisters, length_floatsText]
  have hlength' : (registersText g.arm ++ floatsText ++ unavailable).length = 328 := by
    rw [List.length_append, hlength, length_unavailable]
  obtain ⟨packet, hrun, hs⟩ :=
    (appends_readRegistersLoop g.arm).bind (appends_floatsLoop g.arm) g [] rfl trivial (by
      rw [hlength]
      exact Nat.lt_of_le_of_lt (by decide) hmax)
  rw [List.nil_append] at hs
  have hs' := hs.append unavailable
  rw [hlength] at hrun hs'
  have hrun' : (readRegistersLoop 1 >>= floatsLoop).run g = .ok (321, { g with packet }) := hrun
  have hput : (putText 321 unavailable).run { g with packet } =
      .ok ((), { g with packet := putString packet (1 + 320) unavailable }) :=
    run_putText (by rw [length_unavailable]; exact hmax)
  have hlast := run_putText_sendBuffer (g := { g with packet := putString packet 321 unavailable })
    hs' (noNul_generalRegistersText g.arm) (by
      rw [List.length_append, hlength', length_formatHex]
      decide)
  rw [hlength', ← generalRegistersText] at hlast
  simp only [Nat.reduceAdd] at hlast
  refine ⟨putString (putString packet 321 unavailable) 329 (formatHex 8 g.arm.reg.cpsr.toNat), ?_⟩
  unfold readGeneralRegisters
  rw [← bind_assoc, run_bind_ok hrun', run_bind_ok hput, run_get_bind]
  exact hlast

/-- **A register that `read_single_register` accepts** is answered with its value. -/
theorem run_readSingleRegister (g : GdbData) {data : List Byte}
    (hr : (atoi data).setWidth 8 < (16 : Byte)) :
    ∃ packet, (readSingleRegister data).run g = .ok ((), g.answered packet
      (formatHex 8 (registersRead g.arm.reg ((atoi data).setWidth 8) g.arm.mode).toNat)) := by
  let text := formatHex 8
    (registersRead g.arm.reg ((atoi data).setWidth 8) g.arm.mode).toNat
  have hput := stored_putString g.packet 1 text
  have hlen : text.length ≤ 4091 := by
    rw [length_formatHex]
    decide
  have hsend := run_sendBuffer (g := { g with packet := putString g.packet 1 text }) hlen
    (noNul_formatHex _ _) ⟨hput.1, hput.2⟩
  exact ⟨putString g.packet 1 text, (run_bind_ok (run_readRegister hr (by decide))).trans hsend⟩

/-! ## Bytes of the packet -/

section
variable {loc : GdbLocals} {g : GdbData} {data : List Byte} {k : Nat}

/-- A pointer into the data of a packet is the rest of the data. -/
theorem run_stringAt (h : k < data.length) :
    (stringAt loc data k).run g = .ok (data.drop k, g) := by
  rw [stringAt, if_pos h]
  rfl

/-- A character of the data of a packet is read where it stands. -/
theorem run_byteAt {c : Byte} {s : List Byte} (h : data.drop k = c :: s) :
    (byteAt loc data k).run g = .ok (c, g) := by
  have hk : k < data.length := by
    by_contra hk
    rw [List.drop_eq_nil_of_le (Nat.not_lt.1 hk)] at h
    cases h
  rw [byteAt, run_bind_ok (run_stringAt hk), h]
  rfl

/-- A read behind the packet is a fault where there is no memory. -/
theorem run_byteAt_past (h : data.drop k = []) (hpast : loc.past = fun _ => []) :
    (byteAt loc data k).run g = .error .pastEnd := by
  have hk : ¬ k < data.length := Nat.not_lt.2 (List.drop_eq_nil_iff.1 h)
  have hstring : (stringAt loc data k).run g = .error .pastEnd := by
    rw [stringAt, if_neg hk, hpast, if_pos rfl]
    rfl
  exact run_bind_error hstring

/-- `index` finds a character that the string contains. -/
theorem run_index {c : Byte} {pre s : List Byte} (hpre : ∀ b ∈ pre, b ≠ Ascii.nul ∧ b ≠ c)
    (hc : c ≠ Ascii.nul) : (index (pre ++ c :: s) c).run g = .ok (pre.length, g) := by
  have hstring : cString (pre ++ c :: s) = pre ++ c :: cString s := by
    have hall : ∀ b ∈ pre, decide (b ≠ Ascii.nul) = true := fun b hb => decide_eq_true (hpre b hb).1
    rw [cString, List.takeWhile_append_of_pos hall, List.takeWhile_cons, decide_eq_true hc]
    rfl
  have hfind : (pre ++ c :: cString s).findIdx? (fun b => decide (b = c)) = some pre.length := by
    rw [List.findIdx?_append, List.findIdx?_eq_none_iff.2 fun b hb => decide_eq_false (hpre b hb).2]
    simp [List.findIdx?_cons]
  unfold index
  rw [hstring, hfind]
  rfl

/-- `index` fails for a character that the data does not contain. -/
theorem run_index_failed {c : Byte} (h : c ∉ cString data) :
    (index data c).run g = .error .failedSearch := by
  have hfind : (cString data).findIdx? (fun b => decide (b = c)) = none := by
    rw [List.findIdx?_eq_none_iff]
    intro b hb
    exact decide_eq_false fun he => h (he ▸ hb)
  unfold index
  rw [hfind]
  rfl

end


/-! ## Packets -/

/-- What the handler of a packet is called with. -/
def packetData (rest : List Byte) (c d : Byte) : List Byte := rest ++ [Ascii.nul, c, d, Ascii.nul]

section
variable (loc : GdbLocals) (endianess : Byte)

/-- The index of a packet selects the handler, which is given the data behind it. -/
theorem handle_received (index : Byte) (rest : List Byte) (c d : Byte) :
    handle loc endianess (received (index :: rest) c d) =
      match handler loc endianess index with
      | some handler => handler (packetData rest c d)
      | none => sendData [] := rfl

/-- **The analysis of an accepted packet** is to acknowledge it and to handle it. -/
theorem run_analysis {payload : List Byte} {c d : Byte} (ht : PacketToken payload c d)
    (hsum : DenoteSum payload c d) (given₀ : Word) (g : GdbData) :
    (gdbPacketAnalysis (table loc endianess) given₀ (packetText payload c d ++ [Ascii.nul])
      (packetText payload c d).length).run g =
      ((handle loc endianess (received payload c d)).run
        { g with sent := g.sent ++ [Ascii.plus] }).toOption := by
  rw [hsum.accepts ht.first ht.second, Prog.run_bind_of (m := gdbSendAck) rfl, callHandler_table]
  rfl

end

end Gdb

end ArmSimulator
