import ArmSimulator.Lib.Lexer
import ArmSimulator.Stdio

/-!
# `scanner.l`: the tokens of the GDB protocol

The rules of the scanner, as flex reads them: the longest match at each position, the first rule on
ties, and a newline outside a packet, which no rule matches, is echoed.
-/

namespace ArmSimulator

open Lexer RegularExpression

/-- The rules of the scanner, in the order of the source. -/
inductive ScannerRule where
  | ack
  | retransmission
  | packet
  | other
  deriving DecidableEq, Repr

/-- The 256 characters. -/
def characters : List Byte := (List.range 256).map (BitVec.ofNat 8)

/-- `HEX`. -/
def hexPattern : RegularExpression Byte := oneOf (characters.filter isHexDigit)

/-- `[^$#]`. -/
def payloadPattern : RegularExpression Byte :=
  oneOf (characters.filter fun c => c ≠ Ascii.dollar && c ≠ Ascii.hash)

/-- `"$"[^$#]*"#"{HEX}{HEX}`. -/
def packetPattern : RegularExpression Byte :=
  char Ascii.dollar * star payloadPattern * char Ascii.hash * hexPattern * hexPattern

/-- The character `.` of the rules: any but the newline. -/
def otherPattern : RegularExpression Byte := oneOf (characters.filter fun c => c ≠ Ascii.newline)

/-- The rules that `yylex` tries. -/
def scannerRules : List (ScannerRule × RegularExpression Byte) :=
  [(.ack, char Ascii.plus), (.retransmission, char Ascii.minus), (.packet, packetPattern),
    (.other, otherPattern)]

/-- The tokens that `yylex` finds; an echoed character has no rule. -/
def scan (input : List Byte) : List (Option ScannerRule × List Byte) := tokens scannerRules input

/-! ## The packet rule -/

/-- The list of the characters has them all. -/
theorem mem_characters (c : Byte) : c ∈ characters :=
  List.mem_map.2 ⟨c.toNat, List.mem_range.2 c.isLt, by simp⟩

/-- The text of a packet. -/
def packetText (payload : List Byte) (c d : Byte) : List Byte :=
  Ascii.dollar :: (payload ++ [Ascii.hash, c, d])

/-- The text of a packet determines the payload and the digits. -/
theorem packetText_inj {payload payload' : List Byte} {c d c' d' : Byte}
    (h : packetText payload c d = packetText payload' c' d') :
    payload = payload' ∧ c = c' ∧ d = d' := by
  obtain ⟨hpayload, hdigits⟩ := List.append_inj' (List.cons.inj h).2 rfl
  simp only [List.cons.injEq, true_and, and_true] at hdigits
  exact ⟨hpayload, hdigits⟩

/-- A byte that can stand in a payload. -/
abbrev PayloadByte (b : Byte) : Prop := b ≠ Ascii.dollar ∧ b ≠ Ascii.hash

/-- What the packet rule matches. -/
structure PacketToken (payload : List Byte) (c d : Byte) : Prop where
  payload : ∀ b ∈ payload, PayloadByte b
  first : isHexDigit c = true
  second : isHexDigit d = true

/-- The pattern of a digit matches one digit. -/
theorem mem_hexPattern {w : List Byte} :
    w ∈ hexPattern.matches' ↔ ∃ c, isHexDigit c = true ∧ w = [c] := by
  rw [hexPattern, mem_oneOf]
  simp only [List.mem_filter, mem_characters, true_and]

/-- The pattern of a payload matches the texts of its characters. -/
theorem mem_star_payloadPattern {w : List Byte} :
    w ∈ (star payloadPattern).matches' ↔ ∀ b ∈ w, PayloadByte b := by
  rw [payloadPattern, mem_star_oneOf]
  simp only [List.mem_filter, mem_characters, true_and, Bool.and_eq_true, decide_eq_true_eq]

/-- The packet rule matches the texts of packets. -/
theorem mem_packetPattern {w : List Byte} : w ∈ packetPattern.matches' ↔
    ∃ payload c d, PacketToken payload c d ∧ w = packetText payload c d := by
  simp only [packetPattern, matches'_mul, Language.mem_mul, mem_hexPattern, mem_star_payloadPattern,
    matches'_char]
  constructor
  · rintro ⟨_, ⟨_, ⟨_, ⟨_, rfl, payload, hp, rfl⟩, _, rfl, rfl⟩, _, ⟨c, hc, rfl⟩, rfl⟩, _,
      ⟨d, hd, rfl⟩, rfl⟩
    exact ⟨payload, c, d, ⟨hp, hc, hd⟩, by simp [packetText]⟩
  · rintro ⟨payload, c, d, ⟨hp, hc, hd⟩, rfl⟩
    refine ⟨_, ⟨_, ⟨_, ⟨_, rfl, payload, hp, rfl⟩, _, rfl, rfl⟩, _, ⟨c, hc, rfl⟩, rfl⟩, _,
      ⟨d, hd, rfl⟩, ?_⟩
    simp [packetText]

/-- The text of a token of the packet rule is a packet. -/
theorem packet_of_mem_scan {input text : List Byte} (h : (some .packet, text) ∈ scan input) :
    ∃ payload c d, PacketToken payload c d ∧ text = packetText payload c d := by
  obtain ⟨P, hP, hmem⟩ := mem_tokens h
  simp only [scannerRules, List.mem_cons, Prod.mk.injEq, reduceCtorEq, false_and, true_and,
    false_or, or_false, List.not_mem_nil] at hP
  rw [hP] at hmem
  exact mem_packetPattern.1 hmem

/-- The payload of a packet comes before its `#`. -/
theorem takeWhile_payload {payload : List Byte} (hp : ∀ b ∈ payload, PayloadByte b)
    (s : List Byte) :
    (payload ++ Ascii.hash :: s).takeWhile (fun b => b ≠ Ascii.hash) = payload := by
  have hall : ∀ b ∈ payload, decide (b ≠ Ascii.hash) = true :=
    fun b hb => decide_eq_true (hp b hb).2
  rw [List.takeWhile_append_of_pos hall]
  simp

/-- No packet is the beginning of another, since the payload ends at the first `#`. -/
theorem prefixFree_packetPattern : PrefixFree packetPattern.matches' := by
  intro u hu v hv hpre
  obtain ⟨payload, c, d, ht, rfl⟩ := mem_packetPattern.1 hu
  obtain ⟨payload', c', d', ht', rfl⟩ := mem_packetPattern.1 hv
  refine hpre.eq_of_length ?_
  obtain ⟨s, hs⟩ := hpre
  simp only [packetText, List.cons_append, List.cons.injEq, true_and, List.append_assoc] at hs
  have hsame := congrArg (List.takeWhile fun b => b ≠ Ascii.hash) hs
  rw [takeWhile_payload ht.payload, takeWhile_payload ht'.payload] at hsame
  rw [hsame]
  simp [packetText]

/-- **The packet rule makes one token of a packet**, whatever follows it. -/
theorem scan_packet {payload : List Byte} {c d : Byte} (h : PacketToken payload c d)
    (s : List Byte) :
    scan (packetText payload c d ++ s) =
      (some .packet, packetText payload c d) :: scan s := by
  have hmem : packetText payload c d ∈ packetPattern.matches' :=
    mem_packetPattern.2 ⟨payload, c, d, h, rfl⟩
  have hlen : (packetText payload c d).length = payload.length + 4 := by simp [packetText]
  have hbest : best ([(ScannerRule.ack, char Ascii.plus), (.retransmission, char Ascii.minus)] ++
      (.packet, packetPattern) :: [(.other, otherPattern)]) (packetText payload c d ++ s) =
      some (.packet, (packetText payload c d).length) := by
    refine best_eq (longest_append prefixFree_packetPattern hmem s) (by omega) (fun r hr => ?_)
      fun r hr => ?_
    · have hother : ∀ {a : Byte}, a ≠ Ascii.dollar →
          longest (char a) (packetText payload c d ++ s) < (packetText payload c d).length := by
        intro a ha
        have hzero : longest (char a) (packetText payload c d ++ s) = 0 := by
          refine longest_eq_zero (fun u hu _ => ?_) _
          rw [show u = [a] from hu]
          exact fun he => ha (Option.some.inj he)
        omega
      simp only [List.mem_cons, List.not_mem_nil, or_false] at hr
      rcases hr with rfl | rfl
      · exact hother (by decide)
      · exact hother (by decide)
    · rw [List.mem_singleton.1 hr]
      have hone : longest otherPattern (packetText payload c d ++ s) ≤ 1 := by
        refine longest_le_one (fun u hu => ?_) _
        obtain ⟨b, -, rfl⟩ := mem_oneOf.1 hu
        rfl
      show longest otherPattern (packetText payload c d ++ s) ≤ _
      omega
  exact tokens_append (List.cons_ne_nil _ _) hbest

/-! ## The other rules -/

section
variable {a c : Byte} (s : List Byte)

/-- A character is matched where it stands. -/
theorem longest_char_self : longest (char c) (c :: s) = 1 := by
  refine longest_append (P := char c) (w := [c]) (fun u hu v hv _ => ?_) rfl s
  rw [show u = [c] from hu, show v = [c] from hv]

/-- The pattern of a character matches at most one. -/
theorem longest_char_le (s : List Byte) : longest (char a) s ≤ 1 :=
  longest_le_one (fun u hu => by rw [show u = [a] from hu]; rfl) s

/-- The pattern of a character matches no other character. -/
theorem longest_char_ne (h : a ≠ c) : longest (char a) (c :: s) = 0 := by
  refine longest_eq_zero (fun u hu _ => ?_) s
  rw [show u = [a] from hu]
  exact fun he => h (Option.some.inj he)

/-- The pattern of the last rule matches at most one character. -/
theorem longest_otherPattern_le (s : List Byte) : longest otherPattern s ≤ 1 := by
  refine longest_le_one (fun u hu => ?_) s
  obtain ⟨b, -, rfl⟩ := mem_oneOf.1 hu
  rfl

/-- No packet begins with another character than `$`. -/
theorem longest_packetPattern (hc : c ≠ Ascii.dollar) : longest packetPattern (c :: s) = 0 := by
  refine longest_eq_zero (fun u hu _ => ?_) s
  obtain ⟨payload, d, e, -, rfl⟩ := mem_packetPattern.1 hu
  exact fun he => hc (Option.some.inj he).symm

/-- An acknowledgement is a token, whatever follows it. -/
theorem scan_ack : scan (Ascii.plus :: s) = (some .ack, [Ascii.plus]) :: scan s := by
  have hbest : best ([] ++ (ScannerRule.ack, char Ascii.plus) ::
      [(.retransmission, char Ascii.minus), (.packet, packetPattern), (.other, otherPattern)])
      (Ascii.plus :: s) = some (.ack, 1) := by
    refine best_eq (longest_char_self s) Nat.one_ne_zero (fun r hr => nomatch hr) fun r hr => ?_
    simp only [List.mem_cons, List.not_mem_nil, or_false] at hr
    rcases hr with rfl | rfl | rfl
    · exact longest_char_le _
    · exact (longest_packetPattern s (by decide)).trans_le (Nat.zero_le 1)
    · exact longest_otherPattern_le _
  exact tokens_append (w := [Ascii.plus]) (List.cons_ne_nil _ _) hbest

/-- A request for a retransmission is a token, whatever follows it. -/
theorem scan_retransmission :
    scan (Ascii.minus :: s) = (some .retransmission, [Ascii.minus]) :: scan s := by
  have hbest : best ([(.ack, char Ascii.plus)] ++ (ScannerRule.retransmission, char Ascii.minus) ::
      [(.packet, packetPattern), (.other, otherPattern)])
      (Ascii.minus :: s) = some (.retransmission, 1) := by
    refine best_eq (longest_char_self s) Nat.one_ne_zero (fun r hr => ?_) fun r hr => ?_
    · rw [List.mem_singleton.1 hr]
      exact (longest_char_ne s (by decide)).trans_lt Nat.zero_lt_one
    · simp only [List.mem_cons, List.not_mem_nil, or_false] at hr
      rcases hr with rfl | rfl
      · exact (longest_packetPattern s (by decide)).trans_le (Nat.zero_le 1)
      · exact longest_otherPattern_le _
  exact tokens_append (w := [Ascii.minus]) (List.cons_ne_nil _ _) hbest

end

/-! ## Resynchronisation -/

/-- A `$` stands only at the beginning of a token. -/
theorem onlyFirst_dollar : ∀ r ∈ scannerRules, OnlyFirst Ascii.dollar r.2 := by
  have hsingle : ∀ {P : RegularExpression Byte}, (∀ w ∈ P.matches', ∃ b, w = [b]) →
      OnlyFirst Ascii.dollar P := by
    intro P hP w hw
    obtain ⟨b, rfl⟩ := hP w hw
    exact List.not_mem_nil
  have hother : ∀ w ∈ otherPattern.matches', ∃ b, w = [b] := by
    intro w hw
    obtain ⟨b, -, rfl⟩ := mem_oneOf.1 hw
    exact ⟨b, rfl⟩
  intro r hr
  simp only [scannerRules, List.mem_cons, List.not_mem_nil, or_false] at hr
  rcases hr with rfl | rfl | rfl | rfl
  · exact hsingle fun w hw => ⟨_, hw⟩
  · exact hsingle fun w hw => ⟨_, hw⟩
  · intro w hw
    obtain ⟨payload, c, d, ht, rfl⟩ := mem_packetPattern.1 hw
    have hdigit : ∀ {b}, isHexDigit b = true → b ≠ Ascii.dollar := by
      rintro b hb rfl
      cases hb
    have hdollar : Ascii.dollar ≠ Ascii.hash := by decide
    simp only [packetText, List.tail_cons, List.mem_append, List.mem_cons, List.not_mem_nil,
      or_false, not_or]
    exact ⟨fun hm => (ht.payload _ hm).1 rfl, hdollar, (hdigit ht.first).symm,
      (hdigit ht.second).symm⟩
  · exact hsingle hother

/-- **Resynchronisation.** Whatever comes before a packet, the packet is one token after the tokens
of what comes before. -/
theorem scan_append_packet {p : List Byte} (hp : p ∈ packetPattern.matches') (g : List Byte) :
    scan (g ++ p) = scan g ++ [(some .packet, p)] := by
  obtain ⟨payload, c, d, ht, rfl⟩ := mem_packetPattern.1 hp
  have hone := scan_packet ht []
  rw [List.append_nil] at hone
  have hnil : scan [] = [] := by rw [scan, tokens]
  rw [hnil] at hone
  refine (tokens_boundary onlyFirst_dollar g _).trans ?_
  exact congrArg (scan g ++ ·) hone

/-- A packet after a truncated one is a token. -/
theorem scan_append_packet_truncated :
    scan ([0x24, 0x61, 0x23, 0x31] ++ packetText [0x67] 0x36 0x37) =
      scan [0x24, 0x61, 0x23, 0x31] ++ [(some .packet, packetText [0x67] 0x36 0x37)] := by
  have hmem : packetText [0x67] 0x36 0x37 ∈ packetPattern.matches' :=
    mem_packetPattern.2 ⟨[0x67], 0x36, 0x37, ⟨by decide, by decide, by decide⟩, rfl⟩
  exact scan_append_packet hmem _

end ArmSimulator
