import ArmSimulator.Replies

/-!
# Writing registers and reading them back through the protocol

`write_general_registers` writes the sixteen words to the registers of the mode before the packet,
and CPSR last, while `read_general_registers` reads those of the mode after it. A single register is
written under a hexadecimal number (`sscanf`) and read under a decimal one (`atoi`).
-/

namespace ArmSimulator

/-- The state with other registers. -/
def GdbData.withReg (g : GdbData) (reg : Registers) : GdbData :=
  { g with arm := { g.arm with reg } }

/-- A word in eight hexadecimal digits. -/
structure WordText (text : List Byte) (value : Word) : Prop where
  numeral : Numeral text value.toNat
  length : text.length = 8

/-- The eight digits of a value are its text. -/
theorem wordText_formatHex (value : Word) : WordText (formatHex 8 value.toNat) value :=
  ⟨numeral_formatHex (by decide) value.isLt, length_formatHex 8 _⟩

/-- A value and its digits, one for every four bits, determine each other. -/
theorem formatHex_inj {w n : Nat} (hw : w = 4 * n) {value value' : BitVec w}
    (h : formatHex n value.toNat = formatHex n value'.toNat) : value = value' := by
  have hlt : ∀ value : BitVec w, value.toNat < 16 ^ n := by
    intro value
    have hpow : 2 ^ w = 16 ^ n := by rw [hw, Nat.pow_mul]
    exact hpow ▸ value.isLt
  have hnumber := congrArg hexNumber h
  rw [hexNumber_formatHex (hlt value), hexNumber_formatHex (hlt value')] at hnumber
  exact BitVec.eq_of_toNat_eq hnumber

/-- Texts of one length that are the same one after the other are the same one by one. -/
theorem flatMap_inj {α : Type} {l : List α} {s s' : α → List Byte}
    (hlen : ∀ a ∈ l, (s a).length = (s' a).length) (h : l.flatMap s = l.flatMap s') :
    ∀ a ∈ l, s a = s' a := by
  induction l with
  | nil => exact fun a ha => absurd ha List.not_mem_nil
  | cons a l ih =>
    rw [List.flatMap_cons, List.flatMap_cons] at h
    obtain ⟨hfirst, hrest⟩ := List.append_inj h (hlen a List.mem_cons_self)
    intro b hb
    rcases List.mem_cons.1 hb with rfl | hb
    · exact hfirst
    · exact ih (fun b hb => hlen b (List.mem_cons_of_mem a hb)) hrest b hb

/-! ## The sixteen registers -/

namespace Gdb

open Fallible

/-! ## What the handlers write -/

section
variable (g : GdbData) (loc : GdbLocals) {text : List Byte} {value : Word}

/-- `read_uint32` reads a word in the packet. -/
theorem run_readUint32 (i : Nat) (h : WordText text value) (pre s : List Byte) :
    (readUint32 loc i (pre ++ (text ++ s)) pre.length).run g = .ok (value, g) := by
  have hpos : pre.length < (pre ++ (text ++ s)).length := by
    rw [List.length_append, List.length_append, h.length]
    omega
  rw [readUint32, run_bind_ok (run_stringAt hpos), List.drop_left,
    h.numeral.scanHexEight value.isLt h.length, BitVec.ofNat_toNat, BitVec.setWidth_eq]
  rfl

/-- A register is written with the value that stands at its place in the packet. -/
theorem run_writeRegister {reg : Word} (i : Nat) (h : WordText text value) (pre s : List Byte)
    (hr : reg < 16) : (writeRegister loc i reg (pre ++ (text ++ s)) pre.length).run g =
      .ok ((), g.withReg (registersWrite g.arm.reg (reg.setWidth 8) g.arm.mode value)) := by
  rw [writeRegister, run_bind_ok (run_readUint32 g loc i h pre s),
    run_bind_ok (run_check (decide_eq_true hr))]
  rfl

/-- The loop of `write_general_registers` writes the registers from the `i`-th on. -/
theorem run_writeRegisters {texts : Nat → List Byte} {words : Nat → Word} {l : List Nat}
    (hl : ∀ i ∈ l, i < 16 ∧ WordText (texts i) (words i)) (pre s : List Byte) :
    (l.foldlM (fun position i => do
        writeRegister loc i (BitVec.ofNat 32 i) (pre ++ (l.flatMap texts ++ s)) position
        return position + 8) pre.length).run g =
      .ok (pre.length + 8 * l.length, g.withReg (writeWords g.arm.mode words l g.arm.reg)) := by
  induction l generalizing g pre with
  | nil => rfl
  | cons i l ih =>
    obtain ⟨hi, htext⟩ := hl i List.mem_cons_self
    let data := pre ++ ((i :: l).flatMap texts ++ s)
    have hfirst : data = pre ++ (texts i ++ (l.flatMap texts ++ s)) := by
      show pre ++ ((i :: l).flatMap texts ++ s) = _
      rw [List.flatMap_cons, List.append_assoc]
    have hrest : data = (pre ++ texts i) ++ (l.flatMap texts ++ s) := by
      rw [hfirst, List.append_assoc]
    have hpos : pre.length + 8 = (pre ++ texts i).length := by
      rw [List.length_append, htext.length]
    have hnarrow : (BitVec.ofNat 32 i).setWidth 8 = BitVec.ofNat 8 i :=
      BitVec.setWidth_ofNat_of_le (by decide) i
    have hround := run_writeRegister g loc i htext pre (l.flatMap texts ++ s) (ofNat_lt hi)
    rw [← hfirst, hnarrow] at hround
    let reg := registersWrite g.arm.reg (BitVec.ofNat 8 i) g.arm.mode (words i)
    have hmode : (g.withReg reg).arm.mode = g.arm.mode :=
      registersGetMode_registersWrite g.arm.reg _ g.arm.mode (words i)
    have hloop := ih (g.withReg reg) (fun j hj => hl j (List.mem_cons_of_mem i hj))
      (pre ++ texts i)
    rw [← hrest, ← hpos, hmode] at hloop
    have hlength : pre.length + 8 + 8 * l.length = pre.length + 8 * (i :: l).length := by
      rw [List.length_cons, Nat.mul_succ, Nat.add_assoc, Nat.add_comm 8]
    rw [hlength] at hloop
    rw [List.foldlM_cons]
    exact (run_bind_ok (run_bind_ok hround)).trans hloop

/-- The payload `G`, the words, the fields that are not read, and CPSR. -/
def writeRegistersPayload (texts : Nat → List Byte) (fields text : List Byte) : List Byte :=
  Ascii.of 'G' :: ((List.range 16).flatMap texts ++ (fields ++ text))

/-- **A `G` packet that is well formed** writes the registers and then CPSR. -/
theorem run_writeRegistersPayload {texts : Nat → List Byte} {words : Nat → Word}
    {fields : List Byte} (hwords : ∀ i < 16, WordText (texts i) (words i))
    (hfields : fields.length = 200) (h : WordText text value)
    (endianess c d : Byte) : ∃ packet,
    (handle loc endianess (received (writeRegistersPayload texts fields text) c d)).run g =
      .ok ((), (g.withReg (registersWriteCpsr
        (writeWords g.arm.mode words (List.range 16) g.arm.reg) value)).answered packet
          (ascii "OK")) := by
  have hl : ∀ i ∈ List.range 16, i < 16 ∧ WordText (texts i) (words i) :=
    fun i hi => ⟨List.mem_range.1 hi, hwords i (List.mem_range.1 hi)⟩
  let last := [Ascii.nul, c, d, Ascii.nul]
  let all := (List.range 16).flatMap texts
  let data := all ++ (fields ++ (text ++ last))
  have hdata : packetData (all ++ (fields ++ text)) c d = data := by
    simp only [packetData, List.append_assoc]
    rfl
  have hall : all.length = 128 := length_flatMap_const fun i hi => (hl i hi).2.length
  have hloop := run_writeRegisters g loc hl [] (fields ++ (text ++ last))
  let g' := g.withReg (writeWords g.arm.mode words (List.range 16) g.arm.reg)
  have hread := run_readUint32 g' loc 16 h (all ++ fields) last
  have hpos : (all ++ fields).length = 0 + 8 * (List.range 16).length + 8 * 3 * 8 + 8 := by
    rw [List.length_append, hall, hfields, List.length_range]
  rw [hpos, List.append_assoc] at hread
  have hsend := run_sendText (g := g'.withReg (registersWriteCpsr g'.arm.reg value))
    (l := ['O', 'K']) (by decide) (by decide)
  refine ⟨putString g.packet 1 (ascii "OK"), ?_⟩
  rw [writeRegistersPayload, handle_received]
  show (writeGeneralRegisters loc (packetData (all ++ (fields ++ text)) c d)).run g = _
  rw [hdata]
  exact (run_bind_ok hloop).trans ((run_bind_ok hread).trans hsend)

end

/-! ## What they answer -/

/-- The handler answers the payload, and does nothing else. -/
def Answers (m : HandlerM Unit) (g : GdbData) (payload : List Byte) : Prop :=
  ∃ packet, m.run g = .ok ((), g.answered packet payload)

/-- There is one answer. -/
theorem Answers.unique {m : HandlerM Unit} {g : GdbData} {payload payload' : List Byte}
    (h : Answers m g payload) (h' : Answers m g payload') : payload = payload' := by
  obtain ⟨packet, hrun⟩ := h
  obtain ⟨packet', hrun'⟩ := h'
  rw [hrun] at hrun'
  have hstate := congrArg Prod.snd (Except.ok.inj hrun')
  have hsent : g.sent ++ frame payload = g.sent ++ frame payload' := congrArg GdbData.sent hstate
  exact (packetText_inj (List.append_cancel_left hsent)).1

/-- The answer to `g` where the registers hold the words. -/
def wordsText (words : Nat → Word) (cpsr : Word) : List Byte :=
  ((List.range 16).flatMap fun i => formatHex 8 (words i).toNat) ++ floatsText ++ unavailable ++
    formatHex 8 cpsr.toNat

/-- The text of a `G` packet has one list of values and one CPSR. -/
theorem wordsText_inj {words words' : Nat → Word} {cpsr cpsr' : Word}
    (h : wordsText words cpsr = wordsText words' cpsr') :
    (∀ i < 16, words i = words' i) ∧ cpsr = cpsr' := by
  have hlength : ∀ words : Nat → Word,
      ((List.range 16).flatMap fun i => formatHex 8 (words i).toNat).length = 128 :=
    fun words => length_flatMap_const fun _ _ => length_formatHex 8 _
  simp only [wordsText, List.append_assoc] at h
  obtain ⟨hwords, hrest⟩ := List.append_inj h ((hlength words).trans (hlength words').symm)
  have hcpsr := List.append_cancel_left (List.append_cancel_left hrest)
  refine ⟨fun i hi => formatHex_inj (n := 8) rfl ?_, formatHex_inj rfl hcpsr⟩
  refine flatMap_inj (fun i _ => ?_) hwords i (List.mem_range.2 hi)
  rw [length_formatHex, length_formatHex]

/-- The mode in a value of CPSR. -/
def modeOf (cpsr : Word) : Byte := (cpsr &&& 0x1F).setWidth 8

/-- After the packet with the words and CPSR, `g` answers them. -/
def ReadsBack (g : GdbData) (payload : List Byte) (words : Nat → Word) (cpsr : Word) : Prop :=
  ∀ loc loc' endianess rest c d c' d', ∃ g',
    (handle loc endianess (received payload c d)).run g = .ok ((), g') ∧
      Answers (handle loc' endianess (received (Ascii.of 'g' :: rest) c' d')) g'
        (wordsText words cpsr)

section
variable {g : GdbData} {texts : Nat → List Byte} {words : Nat → Word} {fields text : List Byte}
  {value : Word}

/-- The words are read back where the registers of the new mode hold them. -/
theorem readsBack_iff_words (hwords : ∀ i < 16, WordText (texts i) (words i))
    (hfields : fields.length = 200) (h : WordText text value) :
    ReadsBack g (writeRegistersPayload texts fields text) words value ↔
      ∀ i < 16, words i = registersRead (writeWords g.arm.mode words (List.range 16) g.arm.reg)
        (BitVec.ofNat 8 i) (modeOf value) := by
  let reg := registersWriteCpsr (writeWords g.arm.mode words (List.range 16) g.arm.reg) value
  let words' : Nat → Word := fun i => registersRead reg (BitVec.ofNat 8 i) (modeOf value)
  have hrun : ∀ loc endianess c d, ∃ packet,
      (handle loc endianess (received (writeRegistersPayload texts fields text) c d)).run g =
        .ok ((), (g.withReg reg).answered packet (ascii "OK")) :=
    fun loc endianess c d => run_writeRegistersPayload g loc hwords hfields h endianess c d
  have hanswer : ∀ packet loc' endianess rest c' d',
      Answers (handle loc' endianess (received (Ascii.of 'g' :: rest) c' d'))
        ((g.withReg reg).answered packet (ascii "OK")) (wordsText words' value) :=
    fun _ _ _ rest c' d' => run_readGeneralRegisters _ (packetData rest c' d')
  constructor
  · intro hback
    obtain ⟨packet, hrun⟩ := hrun .zero 0 0 0
    obtain ⟨g', hrun', hg⟩ := hback .zero .zero 0 [] 0 0 0 0
    rw [hrun] at hrun'
    obtain rfl := congrArg Prod.snd (Except.ok.inj hrun')
    exact (wordsText_inj (hg.unique (hanswer packet .zero 0 [] 0 0))).1
  · intro hsame loc loc' endianess rest c d c' d'
    obtain ⟨packet, hrun⟩ := hrun loc endianess c d
    have hwords : wordsText words value = wordsText words' value := by
      rw [wordsText, List.flatMap_congr fun i hi =>
        congrArg (fun v : Word => formatHex 8 v.toNat) (hsame i (List.mem_range.1 hi))]
      rfl
    rw [hwords]
    exact ⟨_, hrun, hanswer packet loc' endianess rest c' d'⟩

/-- **Registers written with `G` and read with `g`.** The words are read back if and only if each
register is one register in the mode before the packet and in the mode that the packet sets, or held
the word already. -/
theorem readsBack_iff (hwords : ∀ i < 16, WordText (texts i) (words i))
    (hfields : fields.length = 200) (h : WordText text value) (hm : modeOf value ∈ modes) :
    ReadsBack g (writeRegistersPayload texts fields text) words value ↔
      ∀ i < 16, slot (BitVec.ofNat 8 i) g.arm.mode = slot (BitVec.ofNat 8 i) (modeOf value) ∨
        words i = registersRead g.arm.reg (BitVec.ofNat 8 i) (modeOf value) := by
  refine (readsBack_iff_words hwords hfields h).trans (forall₂_congr fun i hi => ?_)
  have hall : ∀ i < 16, BitVec.ofNat 8 i ≤ 15 := by decide
  have hread := registersRead_writeWords g.arm.mode words g.arm.reg hi
    (fun j hj => List.mem_range.1 hj) List.nodup_range (modeOf value) (slot_isSome (hall i hi) hm)
  rw [hread]
  split_ifs with hslot
  · exact iff_of_true rfl (.inl hslot.2)
  · have hne : slot (BitVec.ofNat 8 i) g.arm.mode ≠ slot (BitVec.ofNat 8 i) (modeOf value) :=
      fun he => hslot ⟨List.mem_range.2 hi, he⟩
    exact (or_iff_right hne).symm

end

/-- A session with a processor in supervisor mode. -/
def gdbSvc : GdbData :=
  gdbInitData (.initial 0x1d3 (.ofWords [])) (fun _ => 0) (fun _ => 0)

/-- The words 0 to 15. -/
def numbers (i : Nat) : Word := BitVec.ofNat 32 i

/-- The texts of the words 0 to 15, and the text of CPSR. -/
def numbersPayload (cpsr : Word) : List Byte :=
  writeRegistersPayload (fun i => formatHex 8 (numbers i).toNat)
    (List.replicate 200 (Ascii.of '0')) (formatHex 8 cpsr.toNat)

/-- Where the mode stays the same the words are read back. -/
theorem readsBack_svc : ReadsBack gdbSvc (numbersPayload 0x13) numbers 0x13 := by
  have hmode : gdbSvc.arm.mode = modeOf 0x13 := by decide
  exact (readsBack_iff (fun i _ => wordText_formatHex (numbers i)) List.length_replicate
    (wordText_formatHex 0x13) (by decide)).2 fun i _ => .inl (congrArg (slot _) hmode)

/-- A packet that goes to user mode does not read back as it was written. -/
theorem readsBack_usr_fails : ¬ ReadsBack gdbSvc (numbersPayload 0x10) numbers 0x10 := by
  intro hback
  have hread := (readsBack_iff_words (fun i _ => wordText_formatHex (numbers i))
    List.length_replicate (wordText_formatHex 0x10)).1 hback 13 (by decide)
  have hnodup : (List.range 16).Nodup := List.nodup_range
  rw [registersRead_writeWords _ _ _ (by decide) (fun j hj => List.mem_range.1 hj) hnodup _
    (slot_isSome (by decide) (by decide)), if_neg] at hread
  · exact absurd hread (by decide)
  · rintro ⟨-, hslot⟩
    exact absurd hslot (by decide)

/-! ## The answer sent back -/

/-- **The answer to `g`, sent back with `G`,** changes nothing, whatever the processor's mode is. -/
theorem generalRegisters_sentBack (g : GdbData) (loc : GdbLocals) (endianess : Byte)
    (rest : List Byte) (c d : Byte) :
    ∃ answer, Answers (handle loc endianess (received (Ascii.of 'g' :: rest) c d)) g answer ∧
      ∀ (g' : GdbData) (loc' : GdbLocals) (c' d' : Byte), ∃ packet,
        (handle loc' endianess (received (Ascii.of 'G' :: answer) c' d')).run
          { g' with arm := g.arm } =
            .ok ((), { g' with arm := g.arm }.answered packet (ascii "OK")) := by
  refine ⟨generalRegistersText g.arm, run_readGeneralRegisters g (packetData rest c d),
    fun g' loc' c' d' => ?_⟩
  let words : Nat → Word := fun i => registersRead g.arm.reg (BitVec.ofNat 8 i) g.arm.mode
  have hfields : (floatsText ++ unavailable).length = 200 := by
    rw [List.length_append, length_floatsText, length_unavailable]
  have hpayload : Ascii.of 'G' :: generalRegistersText g.arm =
      writeRegistersPayload (fun i => formatHex 8 (words i).toNat) (floatsText ++ unavailable)
        (formatHex 8 g.arm.reg.cpsr.toNat) := by
    rw [generalRegistersText, writeRegistersPayload]
    simp only [List.append_assoc]
    rfl
  have hsame : registersWriteCpsr
      (writeWords g.arm.mode words (List.range 16) g.arm.reg) g.arm.reg.cpsr = g.arm.reg := by
    rw [writeWords_registersRead]
    rfl
  obtain ⟨packet, hrun⟩ := run_writeRegistersPayload { g' with arm := g.arm } loc'
    (fun i _ => wordText_formatHex (words i)) hfields (wordText_formatHex g.arm.reg.cpsr)
    endianess c' d'
  refine ⟨packet, ?_⟩
  rw [hpayload, hrun]
  exact congrArg (fun reg => Except.ok ((), (GdbData.withReg { g' with arm := g.arm } reg).answered
    packet (ascii "OK"))) hsame

/-! ## Single registers -/

/-- `atoi` reads one hexadecimal digit up to 9 as its number, and above 9 as 0. -/
theorem atoi_hexDigit {n : Nat} (hn : n < 16) (s : List Byte) :
    atoi (hexDigit n :: Ascii.nul :: s) = if n ≤ 9 then BitVec.ofNat 32 n else 0 := by
  have hall : ∀ n < 16, isSpace (hexDigit n) = false ∧ hexDigit n ≠ Ascii.minus ∧
      hexDigit n ≠ Ascii.plus ∧ isDigit (hexDigit n) = decide (n ≤ 9) := by
    decide
  have hvalue : ∀ n ≤ 9, BitVec.ofInt 32 (min (0 * 10 + ((hexDigit n).toNat - 0x30) : Nat)
      (2 ^ 63 - 1)) = BitVec.ofNat 32 n := by
    decide
  obtain ⟨hspace, hminus, hplus, hdigit⟩ := hall n hn
  have hnul : isDigit Ascii.nul = false := by decide
  have hsign : scanSign (hexDigit n :: Ascii.nul :: s) = (false, hexDigit n :: Ascii.nul :: s) :=
    (if_neg fun h => hminus (Option.some.inj h)).trans
      (if_neg fun h => hplus (Option.some.inj h))
  have hskip : (hexDigit n :: Ascii.nul :: s).dropWhile isSpace = hexDigit n :: Ascii.nul :: s := by
    rw [List.dropWhile_cons, hspace]
    rfl
  by_cases h : n ≤ 9
  · have htake : (hexDigit n :: Ascii.nul :: s).takeWhile isDigit = [hexDigit n] := by
      rw [List.takeWhile_cons, hdigit, decide_eq_true h, List.takeWhile_cons, hnul]
      rfl
    simp only [atoi, hskip, hsign, htake, if_pos h]
    exact hvalue n h
  · have htake : (hexDigit n :: Ascii.nul :: s).takeWhile isDigit = [] := by
      rw [List.takeWhile_cons, hdigit, decide_eq_false h]
      rfl
    simp only [atoi, hskip, hsign, htake, if_neg h]
    rfl

/-- The payload `Pn=v`. -/
def writeRegisterPayload (n : Nat) (text : List Byte) : List Byte :=
  Ascii.of 'P' :: hexDigit n :: Ascii.equals :: text

/-- The payload `pn`. -/
def readRegisterPayload (n : Nat) : List Byte := [Ascii.of 'p', hexDigit n]

/-- The register that `p` reads. -/
def registerRead (n : Nat) : Byte := if n ≤ 9 then BitVec.ofNat 8 n else 0

section
variable {g : GdbData} {loc : GdbLocals} {endianess : Byte} {n : Nat} {text : List Byte}
  {value : Word}

/-- `read_single_register` finds the number in decimal. -/
theorem answers_readRegisterPayload (g : GdbData) (loc : GdbLocals) (endianess : Byte)
    (hn : n < 16) (c d : Byte) :
    Answers (handle loc endianess (received (readRegisterPayload n) c d)) g
      (formatHex 8 (registersRead g.arm.reg (registerRead n) g.arm.mode).toNat) := by
  let data := hexDigit n :: Ascii.nul :: [c, d, Ascii.nul]
  have hreg : (atoi data).setWidth 8 = registerRead n := by
    rw [atoi_hexDigit hn, registerRead]
    split_ifs
    · exact BitVec.setWidth_ofNat_of_le (by decide) n
    · rfl
  have hall : ∀ n < 16, registerRead n < 16 := by decide
  have hrun := run_readSingleRegister g (hreg ▸ hall n hn)
  rw [hreg] at hrun
  exact hrun

/-- `write_single_register` finds it in hexadecimal. -/
theorem run_writeRegisterPayload (hn : n < 16) (h : WordText text value) (c d : Byte) :
    ∃ packet, (handle loc endianess (received (writeRegisterPayload n text) c d)).run g =
      .ok ((), (g.withReg (registersWrite g.arm.reg (BitVec.ofNat 8 n) g.arm.mode value)).answered
        packet (ascii "OK")) := by
  have hall : ∀ n < 16, isHexDigit (hexDigit n) = true ∧ hexNumber [hexDigit n] = n ∧
      BitVec.ofNat 32 n < 16 := by
    decide
  obtain ⟨hdigit, hnumber, hreg⟩ := hall n hn
  have hnumeral : Numeral [hexDigit n] n :=
    ⟨List.cons_ne_nil _ _, fun b hb => List.mem_singleton.1 hb ▸ hdigit, hnumber⟩
  let last := [Ascii.nul, c, d, Ascii.nul]
  let data := [hexDigit n, Ascii.equals] ++ (text ++ last)
  have hscan : scanHexes 1 data = [BitVec.ofNat 32 n] :=
    hnumeral.scanHexes (Nat.lt_trans hn (by decide)) (endsDigits_cons (by decide))
  have hindex : (index data Ascii.equals).run g = .ok (1, g) :=
    run_index (fun b hb => ⟨hnumeral.ne (by decide) b hb, hnumeral.ne (by decide) b hb⟩) (by decide)
  have hwrite := run_writeRegister g loc 0 h [hexDigit n, Ascii.equals] last hreg
  have hnarrow : (BitVec.ofNat 32 n).setWidth 8 = BitVec.ofNat 8 n :=
    BitVec.setWidth_ofNat_of_le (by decide) n
  rw [hnarrow] at hwrite
  have hsend := run_sendText
    (g := g.withReg (registersWrite g.arm.reg (BitVec.ofNat 8 n) g.arm.mode value))
    (l := ['O', 'K']) (by decide) (by decide)
  refine ⟨putString g.packet 1 (ascii "OK"), ?_⟩
  rw [writeRegisterPayload, handle_received]
  show (writeSingleRegister loc data).run g = _
  unfold writeSingleRegister
  rw [hscan]
  exact (run_bind_ok hindex).trans ((run_bind_ok hwrite).trans hsend)

/-- After the packet `Pn=v`, a packet `p` for the register answers the value, and one for another
register answers what it did before. -/
def SingleAgrees (g : GdbData) (n : Nat) (text : List Byte) (value : Word) : Prop :=
  ∀ loc loc' endianess c d c' d', ∃ g',
    (handle loc endianess (received (writeRegisterPayload n text) c d)).run g = .ok ((), g') ∧
      Answers (handle loc' endianess (received (readRegisterPayload n) c' d')) g'
        (formatHex 8 value.toNat) ∧
      ∀ m < 16, m ≠ n → ∃ answer,
        Answers (handle loc' endianess (received (readRegisterPayload m) c' d')) g answer ∧
          Answers (handle loc' endianess (received (readRegisterPayload m) c' d')) g' answer

/-- The answers agree where the registers that `p` reads do. -/
theorem singleAgrees_iff_words (hn : n < 16) (h : WordText text value) :
    SingleAgrees g n text value ↔
      registersRead (registersWrite g.arm.reg (BitVec.ofNat 8 n) g.arm.mode value) (registerRead n)
          g.arm.mode = value ∧
        ∀ m < 16, m ≠ n →
          registersRead (registersWrite g.arm.reg (BitVec.ofNat 8 n) g.arm.mode value)
            (registerRead m) g.arm.mode = registersRead g.arm.reg (registerRead m) g.arm.mode := by
  let reg := registersWrite g.arm.reg (BitVec.ofNat 8 n) g.arm.mode value
  have hmode : ∀ packet, ((g.withReg reg).answered packet (ascii "OK")).arm.mode = g.arm.mode :=
    fun packet => registersGetMode_registersWrite g.arm.reg _ g.arm.mode value
  have hanswer : ∀ packet loc' endianess c' d', ∀ m < 16,
      Answers (handle loc' endianess (received (readRegisterPayload m) c' d'))
        ((g.withReg reg).answered packet (ascii "OK"))
        (formatHex 8 (registersRead reg (registerRead m) g.arm.mode).toNat) := by
    intro packet loc' endianess c' d' m hm
    have hread := answers_readRegisterPayload ((g.withReg reg).answered packet (ascii "OK")) loc'
      endianess hm c' d'
    rw [hmode] at hread
    exact hread
  constructor
  · intro hagrees
    obtain ⟨packet, hrun⟩ :=
      run_writeRegisterPayload (g := g) hn h 0 0
    obtain ⟨g', hrun', hsame, hothers⟩ := hagrees .zero .zero 0 0 0 0 0
    rw [hrun] at hrun'
    obtain rfl := congrArg Prod.snd (Except.ok.inj hrun')
    refine ⟨formatHex_inj rfl ((hanswer packet .zero 0 0 0 n hn).unique hsame), fun m hm hne => ?_⟩
    obtain ⟨answer, hbefore, hafter⟩ := hothers m hm hne
    have htext := (answers_readRegisterPayload g .zero 0 hm 0 0).unique hbefore
    exact formatHex_inj rfl (((hanswer packet .zero 0 0 0 m hm).unique hafter).trans htext.symm)
  · rintro ⟨hsame, hothers⟩ loc loc' endianess c d c' d'
    obtain ⟨packet, hrun⟩ :=
      run_writeRegisterPayload hn h c d
    refine ⟨_, hrun, ?_, fun m hm hne => ?_⟩
    · have hread := hanswer packet loc' endianess c' d' n hn
      rw [hsame] at hread
      exact hread
    · have hread := hanswer packet loc' endianess c' d' m hm
      rw [hothers m hm hne] at hread
      exact ⟨_, answers_readRegisterPayload g loc' endianess hm c' d', hread⟩

/-- **A register written with `P` and read with `p`.** The two agree for the numbers 1 to 9, and for
another number if and only if the value is the one that r0 held. -/
theorem singleAgrees_iff (hm : g.arm.mode ∈ modes) (hn : n < 16) (h : WordText text value) :
    SingleAgrees g n text value ↔
      (1 ≤ n ∧ n ≤ 9) ∨ value = registersRead g.arm.reg 0 g.arm.mode := by
  refine (singleAgrees_iff_words hn h).trans ?_
  have hother : ∀ {m : Nat}, registerRead m ≠ BitVec.ofNat 8 n →
      registersRead (registersWrite g.arm.reg (BitVec.ofNat 8 n) g.arm.mode value) (registerRead m)
        g.arm.mode = registersRead g.arm.reg (registerRead m) g.arm.mode :=
    fun hne => registersRead_registersWrite_ne g.arm.reg g.arm.mode value (Ne.symm hne) g.arm.mode
  have hall : ∀ n < 16, BitVec.ofNat 8 n ≤ 15 := by decide
  have hself := registersRead_registersWrite_self g.arm.reg (BitVec.ofNat 8 n) g.arm.mode value
    (slot_isSome (hall n hn) hm)
  rcases Nat.lt_or_ge 9 n with h9 | h9
  · -- the digit is no decimal one, and `p` reads r0
    have hnumbers : ∀ n < 16, 9 < n → registerRead n = 0 ∧
        ∀ m < 16, registerRead m ≠ BitVec.ofNat 8 n := by
      decide
    obtain ⟨hzero, hne⟩ := hnumbers n hn h9
    rw [hother (hne n hn), hzero]
    constructor
    · exact fun hagrees => .inr hagrees.1.symm
    · rintro (hsmall | hvalue)
      · exact absurd hsmall.2 (Nat.not_le.2 h9)
      · exact ⟨hvalue.symm, fun m hm _ => hother (hne m hm)⟩
  · have hread : registerRead n = BitVec.ofNat 8 n := if_pos h9
    rw [hread, hself]
    rcases Nat.eq_zero_or_pos n with rfl | hpos
    · -- the numbers above 9 are read as r0 as well
      constructor
      · intro hagrees
        have h10 := hagrees.2 10 (by decide) (by decide)
        exact .inr (hself.symm.trans h10)
      · rintro (hsmall | hvalue)
        · exact absurd hsmall.1 (by decide)
        · have hkeep :
              registersWrite g.arm.reg (BitVec.ofNat 8 0) g.arm.mode value = g.arm.reg := by
            rw [hvalue]
            exact registersWrite_registersRead 0
          refine ⟨rfl, fun m _ _ => ?_⟩
          rw [hkeep]
    · have hnumbers : ∀ n ≤ 9, 0 < n → ∀ m < 16, m ≠ n → registerRead m ≠ BitVec.ofNat 8 n := by
        decide
      exact iff_of_true ⟨rfl, fun m hm hne => hother (hnumbers n h9 hpos m hm hne)⟩
        (.inl ⟨hpos, h9⟩)

end

/-- A write to r5 is read back. -/
theorem singleAgrees_r5 : SingleAgrees gdbSvc 5 (formatHex 8 (7 : Word).toNat) 7 :=
  (singleAgrees_iff (by decide) (by decide) (wordText_formatHex 7)).2 (.inl (by decide))

/-- A write to r10 is not read back. -/
theorem singleAgrees_r10_fails : ¬ SingleAgrees gdbSvc 10 (formatHex 8 (7 : Word).toNat) 7 := by
  intro hagrees
  have hread := ((singleAgrees_iff_words (by decide) (wordText_formatHex 7)).1 hagrees).1
  have hne : registerRead 10 ≠ BitVec.ofNat 8 10 := by decide
  rw [registersRead_registersWrite_ne _ _ _ hne.symm] at hread
  exact absurd hread (by decide)

end Gdb

end ArmSimulator
