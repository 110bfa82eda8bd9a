import ArmSimulator.Lib.Recognizer
import ArmSimulator.Scanner

/-!
# `scanner.c`: the tables of the scanner

What flex has generated from the rules of `scanner.l`: the compressed tables of an automaton that
reads a token, state by state. `yyTransition` takes a transition from the tables, and `yyState` is
the state after a text. The text of a rule, or of the newline that no rule matches, leads to a state
that accepts it, and no other text does (`labels_yyLabel`).
-/

namespace ArmSimulator

open Lexer RegularExpression

/-! ## The tables -/

/-- `yy_accept`: the action of a state, 0 for none. -/
def yyAccept : List Nat := [0, 0, 0, 6, 4, 5, 4, 1, 2, 0, 0, 0, 3, 0]

/-- `yy_ec`: the class of a character. -/
def yyEc : List Nat :=
  [0,
    1, 1, 1, 1, 1, 1, 1, 1, 1, 2, 1, 1, 1, 1, 1, 1, 1, 1, 1, 1,
    1, 1, 1, 1, 1, 1, 1, 1, 1, 1, 1, 1, 1, 1, 3, 4, 1, 1, 1, 1,
    1, 1, 5, 1, 6, 1, 1, 7, 7, 7, 7, 7, 7, 7, 7, 7, 7, 1, 1, 1,
    1, 1, 1, 1, 7, 7, 7, 7, 7, 7, 1, 1, 1, 1, 1, 1, 1, 1, 1, 1,
    1, 1, 1, 1, 1, 1, 1, 1, 1, 1, 1, 1, 1, 1, 1, 1, 7, 7, 7, 7,
    7, 7, 1, 1, 1, 1, 1, 1, 1, 1, 1, 1, 1, 1, 1, 1, 1, 1, 1, 1,
    1, 1, 1, 1, 1, 1, 1, 1, 1, 1, 1, 1, 1, 1, 1, 1, 1, 1, 1, 1,
    1, 1, 1, 1, 1, 1, 1, 1, 1, 1, 1, 1, 1, 1, 1, 1, 1, 1, 1, 1,
    1, 1, 1, 1, 1, 1, 1, 1, 1, 1, 1, 1, 1, 1, 1, 1, 1, 1, 1, 1,
    1, 1, 1, 1, 1, 1, 1, 1, 1, 1, 1, 1, 1, 1, 1, 1, 1, 1, 1, 1,
    1, 1, 1, 1, 1, 1, 1, 1, 1, 1, 1, 1, 1, 1, 1, 1, 1, 1, 1, 1,
    1, 1, 1, 1, 1, 1, 1, 1, 1, 1, 1, 1, 1, 1, 1, 1, 1, 1, 1, 1,
    1, 1, 1, 1, 1, 1, 1, 1, 1, 1, 1, 1, 1, 1, 1]

/-- `yy_meta`: the class of a class, for the states that are templates. -/
def yyMeta : List Nat := [0, 1, 1, 1, 2, 1, 1, 1]

/-- `yy_base`: where the transitions of a state begin. -/
def yyBase : List Nat := [0, 0, 0, 13, 14, 14, 9, 14, 14, 8, 3, 2, 14, 14, 7]

/-- `yy_def`: the state that has the transitions that a state has not. -/
def yyDef : List Nat := [0, 13, 1, 13, 13, 13, 14, 13, 13, 14, 13, 13, 13, 0, 13]

/-- `yy_nxt`, the transitions. -/
def yyNxt : List Nat :=
  [0, 4, 5, 4, 6, 7, 8, 4, 9, 12, 11, 10, 10, 13, 3, 13, 13, 13, 13, 13, 13, 13]

/-- `yy_chk`: and the state that each of them belongs to. -/
def yyChk : List Nat :=
  [0, 1, 1, 1, 1, 1, 1, 1, 14, 11, 10, 9, 6, 3, 13, 13, 13, 13, 13, 13, 13, 13]

/-- The loop that looks for the transition of a state on a class of characters, with the number of
rounds that are left. An access outside of a table is an error. -/
def yyTransitionLoop : Nat → Nat → Nat → Option Nat
  | 0, _, _ => none
  | rounds + 1, yyCurrentState, yyC => do
    let base ← yyBase[yyCurrentState]?
    let chk ← yyChk[base + yyC]?
    if chk = yyCurrentState then yyNxt[base + yyC]?
    else
      let yyCurrentState ← yyDef[yyCurrentState]?
      let yyC ← if yyCurrentState ≥ 14 then yyMeta[yyC]? else some yyC
      yyTransitionLoop rounds yyCurrentState yyC

/-- The transition of a state: there are no more than 15 states to go through. -/
def yyTransition : Nat → Nat → Option Nat := yyTransitionLoop 15

/-- The class of a character of the text, of which a NUL is one. -/
def yyClass (c : Byte) : Option Nat := if c ≠ 0 then yyEc[c.toNat]? else some 1

/-- The rule of an action. `ECHO` is the action without a rule. -/
def yyRule : Nat → Option (Option ScannerRule)
  | 1 => some (some .ack)
  | 2 => some (some .retransmission)
  | 3 => some (some .packet)
  | 4 => some (some .other)
  | 5 => some none
  | _ => none

/-! ## The automaton -/

/-- The class of a character, as the rules tell characters apart. -/
def classOf (c : Byte) : Nat :=
  if c = Ascii.newline then 2 else if c = Ascii.hash then 3 else if c = Ascii.dollar then 4
  else if c = Ascii.plus then 5 else if c = Ascii.minus then 6 else if isHexDigit c then 7 else 1

/-- The state after another character. -/
def yyNext (state : Nat) (c : Byte) : Nat := (yyTransition state (classOf c)).getD 13

/-- The state after a text. -/
def yyState (w : List Byte) : Nat := w.foldl yyNext 1

/-- The rule that accepts a text. -/
def yyLabel (w : List Byte) : Option (Option ScannerRule) :=
  yyRule (yyAccept.getD (yyState w) 0)

/-- The tables tell the characters apart as the rules do. -/
theorem yyClass_eq : ∀ c : Byte, yyClass c = some (classOf c) := by decide +kernel

/-- Every character has one of the seven classes of `yy_ec`. -/
theorem classOf_bounds : ∀ c : Byte, 1 ≤ classOf c ∧ classOf c < 8 := by decide +kernel

/-- The states of the automaton: of the 14 states of the tables, 0 is none, 2 is the beginning of a
line, and 3 is the end of the buffer. -/
abbrev yyStates : List Nat := [1, 4, 5, 6, 7, 8, 9, 10, 11, 12, 13]

/-- The states without transitions, which the loop of `yylex` stops in. -/
abbrev yyStops : List Nat := [4, 5, 7, 8, 12, 13]

section
variable {state : Nat} {c : Byte} {w : List Byte}

/-- The transitions of the states on characters are all in the tables. -/
theorem yyTransition_eq (hstate : state ∈ yyStates) (c : Byte) :
    yyTransition state (classOf c) = some (yyNext state c) := by
  have hsome : (yyTransition state (classOf c)).isSome :=
    (by decide : ∀ s ∈ yyStates, ∀ c < 8, (yyTransition s c).isSome)
      state hstate _ (classOf_bounds c).2
  obtain ⟨next, hnext⟩ := Option.isSome_iff_exists.1 hsome
  rw [yyNext, hnext]
  rfl

/-- On the NUL at the end of the buffer the states go to the end of the buffer. -/
theorem yyTransition_endOfBuffer (hstate : state ∈ yyStates) : yyTransition state 0 = some 3 :=
  (by decide : ∀ s ∈ yyStates, yyTransition s 0 = some 3) state hstate

/-- What holds of all transitions holds of those on characters. -/
theorem yyNext_of_class {P : Nat → Prop}
    (h : ∀ c < 8, 1 ≤ c → P ((yyTransition state c).getD 13)) (c : Byte) : P (yyNext state c) :=
  h _ (classOf_bounds c).2 (classOf_bounds c).1

/-- The next state of a state is one of the states. -/
theorem yyStates_next (hstate : state ∈ yyStates) (c : Byte) : yyNext state c ∈ yyStates :=
  yyNext_of_class ((by decide : ∀ s ∈ yyStates, ∀ c < 8, 1 ≤ c →
    (yyTransition s c).getD 13 ∈ yyStates) state hstate) c

/-- There is no way out of a state that `yylex` stops in. -/
theorem yyNext_stop (hstop : state ∈ yyStops) (c : Byte) : yyNext state c = 13 :=
  yyNext_of_class (P := (· = 13)) ((by decide : ∀ s ∈ yyStops, ∀ c < 8, 1 ≤ c →
    (yyTransition s c).getD 13 = 13) state hstop) c

/-- The state after a further character is the next state for it. -/
@[simp] theorem yyState_concat (w : List Byte) (c : Byte) :
    yyState (w ++ [c]) = yyNext (yyState w) c := by
  rw [yyState, List.foldl_append]
  rfl

/-- The state after every text is one of the states. -/
theorem yyStates_yyState (w : List Byte) : yyState w ∈ yyStates := by
  induction w using List.reverseRecOn with
  | nil => exact List.mem_cons_self
  | append_singleton w c ih =>
    rw [yyState_concat]
    exact yyStates_next ih c

/-- The states inside of a packet lead to one another. -/
theorem foldl_packet (hstate : state ∈ [9, 10, 11, 12, 13]) (w : List Byte) :
    w.foldl yyNext state ∈ [9, 10, 11, 12, 13] := by
  induction w generalizing state with
  | nil => exact hstate
  | cons c w ih =>
    exact ih (yyNext_of_class ((by decide : ∀ s ∈ [9, 10, 11, 12, 13], ∀ c < 8, 1 ≤ c →
      (yyTransition s c).getD 13 ∈ [9, 10, 11, 12, 13]) state hstate) c)

/-- Nothing comes after the end of a packet, or after a text that no token begins with. -/
theorem foldl_jam (w : List Byte) : w.foldl yyNext 13 = 13 := by
  induction w with
  | nil => rfl
  | cons c w ih => exact (congrArg (w.foldl yyNext) (yyNext_stop (by decide) c)).trans ih

/-- Nothing may follow a whole packet. -/
theorem foldl_end : w.foldl yyNext 12 = 12 ↔ w = [] := by
  cases w with
  | nil => exact iff_of_true rfl rfl
  | cons c w =>
    refine iff_of_false (fun h => ?_) (List.cons_ne_nil c w)
    rw [List.foldl_cons, yyNext_stop (by decide), foldl_jam] at h
    cases h

/-- A digit after the `#` goes on with the packet, and no other character does. -/
theorem yyNext_digit : ∀ c : Byte, (isHexDigit c = true → yyNext 10 c = 11 ∧ yyNext 11 c = 12) ∧
    (isHexDigit c = false → yyNext 10 c = 13 ∧ yyNext 11 c = 13) := by decide +kernel

/-- A character of a payload goes on with it, a `#` ends it, and after a `$` the scanner stops. -/
theorem yyNext_payload : ∀ c : Byte,
    (PayloadByte c → yyNext 6 c = 9 ∧ yyNext 9 c = 9) ∧
    (c = Ascii.hash → yyNext 6 c = 10 ∧ yyNext 9 c = 10) ∧
    (c = Ascii.dollar → yyNext 6 c = 13 ∧ yyNext 9 c = 13) := by decide +kernel

/-- One digit is left of a packet after the first digit of its checksum. -/
theorem foldl_second : w.foldl yyNext 11 = 12 ↔ ∃ d, isHexDigit d = true ∧ w = [d] := by
  constructor
  · intro h
    cases w with
    | nil => cases h
    | cons d w =>
      rw [List.foldl_cons] at h
      cases hd : isHexDigit d with
      | true =>
        rw [((yyNext_digit d).1 hd).2, foldl_end] at h
        exact ⟨d, hd, congrArg (d :: ·) h⟩
      | false =>
        rw [((yyNext_digit d).2 hd).2, foldl_jam] at h
        cases h
  · rintro ⟨d, hd, rfl⟩
    exact ((yyNext_digit d).1 hd).2

/-- Two digits are left of a packet after its `#`. -/
theorem foldl_first : w.foldl yyNext 10 = 12 ↔
    ∃ c d, isHexDigit c = true ∧ isHexDigit d = true ∧ w = [c, d] := by
  constructor
  · intro h
    cases w with
    | nil => cases h
    | cons c w =>
      rw [List.foldl_cons] at h
      cases hc : isHexDigit c with
      | true =>
        rw [((yyNext_digit c).1 hc).1, foldl_second] at h
        obtain ⟨d, hd, rfl⟩ := h
        exact ⟨c, d, hc, hd, rfl⟩
      | false =>
        rw [((yyNext_digit c).2 hc).1, foldl_jam] at h
        cases h
  · rintro ⟨c, d, hc, hd, rfl⟩
    rw [List.foldl_cons, ((yyNext_digit c).1 hc).1]
    exact foldl_second.2 ⟨d, hd, rfl⟩

/-- After a `$`, and after characters of the payload, the rest of a packet leads to its end. -/
theorem foldl_rest (hstate : state = 6 ∨ state = 9) : w.foldl yyNext state = 12 ↔
    ∃ payload c d, PacketToken payload c d ∧ w = payload ++ [Ascii.hash, c, d] := by
  induction w generalizing state with
  | nil =>
    refine iff_of_false (fun h => ?_) ?_
    · rcases hstate with rfl | rfl <;> cases h
    · rintro ⟨payload, c, d, -, h⟩
      exact List.append_ne_nil_of_right_ne_nil payload (List.cons_ne_nil _ _) h.symm
  | cons b w ih =>
    -- the two states have the same transitions
    have hnext : ∀ {s}, yyNext 6 b = s ∧ yyNext 9 b = s → yyNext state b = s := by
      intro s h
      rcases hstate with rfl | rfl
      · exact h.1
      · exact h.2
    rw [List.foldl_cons]
    by_cases hhash : b = Ascii.hash
    · rw [hnext ((yyNext_payload b).2.1 hhash), foldl_first]
      constructor
      · rintro ⟨c, d, hc, hd, rfl⟩
        exact ⟨[], c, d, ⟨fun _ h => absurd h List.not_mem_nil, hc, hd⟩,
          congrArg (· :: [c, d]) hhash⟩
      · rintro ⟨payload, c, d, ht, h⟩
        cases payload with
        | nil => exact ⟨c, d, ht.first, ht.second, (List.cons.inj h).2⟩
        | cons b' payload =>
          have hb : b = b' := (List.cons.inj h).1
          exact absurd (hb.symm.trans hhash) (ht.payload b' List.mem_cons_self).2
    · by_cases hdollar : b = Ascii.dollar
      · rw [hnext ((yyNext_payload b).2.2 hdollar), foldl_jam]
        refine iff_of_false (by decide) ?_
        rintro ⟨payload, c, d, ht, h⟩
        cases payload with
        | nil => exact hhash (List.cons.inj h).1
        | cons b' payload =>
          have hb : b = b' := (List.cons.inj h).1
          exact (ht.payload b' List.mem_cons_self).1 (hb.symm.trans hdollar)
      · rw [hnext ((yyNext_payload b).1 ⟨hdollar, hhash⟩), ih (.inr rfl)]
        constructor
        · rintro ⟨payload, c, d, ht, rfl⟩
          refine ⟨b :: payload, c, d, ⟨fun b' hb' => ?_, ht.first, ht.second⟩, rfl⟩
          rcases List.mem_cons.1 hb' with rfl | hb'
          · exact ⟨hdollar, hhash⟩
          · exact ht.payload b' hb'
        · rintro ⟨payload, c, d, ht, h⟩
          cases payload with
          | nil => exact absurd (List.cons.inj h).1 hhash
          | cons b' payload =>
            refine ⟨payload, c, d, ⟨fun b'' hb'' => ?_, ht.first, ht.second⟩, (List.cons.inj h).2⟩
            exact ht.payload b'' (List.mem_cons_of_mem b' hb'')

/-! ## The rules -/

/-- The rules for single characters come first, then the rule for packets. -/
theorem firstRule_scannerRules (w : List Byte) : firstRule scannerRules w =
    if w = [Ascii.plus] then some .ack else if w = [Ascii.minus] then some .retransmission
    else if w ∈ packetPattern.matches' then some .packet
    else if ∃ c, c ≠ Ascii.newline ∧ w = [c] then some .other else none := by
  have hchar : ∀ c : Byte, (char c).rmatch w = true ↔ w = [c] :=
    fun c => rmatch_iff_matches' _ _
  have hother : otherPattern.rmatch w = true ↔ ∃ c, c ≠ Ascii.newline ∧ w = [c] := by
    rw [rmatch_iff_matches', otherPattern, mem_oneOf]
    simp only [List.mem_filter, mem_characters, true_and, decide_eq_true_eq]
  unfold scannerRules
  simp only [firstRule_cons, hchar, hother, rmatch_iff_matches']
  rfl

/-- A packet begins with `$`, and after any other first character the state is one of four. -/
theorem yyNext_first : ∀ c : Byte, (c = Ascii.dollar → yyNext 1 c = 6) ∧
    (c ≠ Ascii.dollar → yyNext 1 c ∈ [4, 5, 7, 8]) := by decide +kernel

/-- After any other character than `$` the scanner stops. -/
theorem yyNext_first_stop {c : Byte} (hc : c ≠ Ascii.dollar) : yyNext 1 c ∈ yyStops :=
  (by decide : ∀ s ∈ [4, 5, 7, 8], s ∈ yyStops) _ ((yyNext_first c).2 hc)

/-- No token goes on after any other character than `$`. -/
theorem yyState_jam {c : Byte} (hc : c ≠ Ascii.dollar) (b : Byte) (w : List Byte) :
    yyState (c :: b :: w) = 13 := by
  show w.foldl yyNext (yyNext (yyNext 1 c) b) = 13
  rw [yyNext_stop (yyNext_first_stop hc) b, foldl_jam]

/-- The states after a `$` and another character are those of a packet. -/
theorem yyState_dollar (b : Byte) (w : List Byte) :
    yyState (Ascii.dollar :: b :: w) ∈ [9, 10, 11, 12, 13] := by
  show w.foldl yyNext (yyNext (yyNext 1 Ascii.dollar) b) ∈ _
  rw [(yyNext_first Ascii.dollar).1 rfl]
  exact foldl_packet (yyNext_of_class (P := (· ∈ [9, 10, 11, 12, 13])) (by decide) b) w

/-- From every state of a packet that is not its end the scanner can come to the end. -/
theorem exists_foldl_end (hstate : state ∈ [6, 9, 10, 11]) :
    ∃ s : List Byte, s ≠ [] ∧ s.foldl yyNext state = 12 := by
  simp only [List.mem_cons, List.not_mem_nil, or_false] at hstate
  rcases hstate with rfl | rfl | rfl | rfl
  · exact ⟨[Ascii.hash, 0x30, 0x30], List.cons_ne_nil _ _, by decide⟩
  · exact ⟨[Ascii.hash, 0x30, 0x30], List.cons_ne_nil _ _, by decide⟩
  · exact ⟨[0x30, 0x30], List.cons_ne_nil _ _, by decide⟩
  · exact ⟨[0x30], List.cons_ne_nil _ _, by decide⟩

/-- Every single character but a newline is accepted by a rule. -/
theorem yyLabel_single : ∀ c : Byte, yyLabel [c] = some (if c = Ascii.plus then some .ack
    else if c = Ascii.minus then some .retransmission
    else if c ≠ Ascii.newline then some .other else none) := by decide +kernel

/-- A longer text is accepted if it is a packet. -/
theorem yyLabel_cons_cons (c b : Byte) (w : List Byte) : yyLabel (c :: b :: w) =
    if c :: b :: w ∈ packetPattern.matches' then some (some .packet) else none := by
  have hstate : yyState (c :: b :: w) = 12 ↔ c :: b :: w ∈ packetPattern.matches' := by
    rw [mem_packetPattern]
    by_cases hc : c = Ascii.dollar
    · have hfirst := (yyNext_first c).1 hc
      show (b :: w).foldl yyNext (yyNext 1 c) = 12 ↔ _
      rw [hfirst, foldl_rest (.inl rfl), hc]
      simp only [packetText, List.cons.injEq, true_and]
    · refine iff_of_false ?_ ?_
      · rw [yyState_jam hc]
        decide
      · rintro ⟨payload, d, e, -, h⟩
        exact hc (List.cons.inj h).1
  -- the states after two characters
  have hinside : yyState (c :: b :: w) ∈ [9, 10, 11, 12, 13] := by
    by_cases hc : c = Ascii.dollar
    · rw [hc]
      exact yyState_dollar b w
    · rw [yyState_jam hc]
      decide
  have hlabel := (by decide : ∀ s ∈ [9, 10, 11, 12, 13], yyRule (yyAccept.getD s 0) =
    if s = 12 then some (some .packet) else none) _ hinside
  rw [yyLabel, hlabel]
  exact if_congr hstate rfl rfl

/-- **The tables accept the texts of the rules**, each for the first rule that it is a text of, and
a newline for `ECHO`. -/
theorem labels_yyLabel : Labels scannerRules yyLabel := by
  intro w hw
  have hlong : ∀ {c : Byte}, [c] ∉ packetPattern.matches' := by
    intro c h
    obtain ⟨payload, d, e, -, h⟩ := mem_packetPattern.1 h
    have := congrArg List.length h
    simp [packetText] at this
  obtain ⟨c, v, rfl⟩ := List.exists_cons_of_ne_nil hw
  rw [firstRule_scannerRules]
  cases v with
  | nil =>
    rw [yyLabel_single, if_neg hlong]
    simp only [List.cons.injEq, and_true, List.length_singleton, if_true]
    have hother : (∃ d, d ≠ Ascii.newline ∧ c = d) ↔ c ≠ Ascii.newline := by
      constructor
      · rintro ⟨d, hd, rfl⟩
        exact hd
      · exact fun h => ⟨c, h, rfl⟩
    simp only [hother]
    split_ifs <;> rfl
  | cons b w =>
    have hlen : (c :: b :: w).length ≠ 1 := by simp
    rw [yyLabel_cons_cons, if_neg hlen]
    simp only [List.cons.injEq, reduceCtorEq, and_false, if_false, exists_false]
    split_ifs <;> rfl

end

end ArmSimulator
