import Mathlib.Data.List.GetD
import ArmSimulator.Lib.Inevitable
import ArmSimulator.ScannerTables
import ArmSimulator.Session

/-!
# `scanner.c`: `yylex`

The scanner that flex has generated, with its buffer. The characters arrive as `read` delivers them,
at least one at a time until the input ends, and the buffer is filled, moved down and enlarged
around the text of the token that is being read; a NUL is at the end of what the buffer holds, or a
character. An access outside of the buffer or of a table, a signed overflow and a fatal error are
all `none`.

Left out are a `read` that fails and a `yyrealloc` that does. The actions are recorded; what they
leave in the text of a token is arbitrary.
-/

namespace ArmSimulator

open Lexer

/-! ## The state -/

/-- `yy_buffer_status`. -/
inductive YyBufferStatus where
  | new
  | normal
  | eofPending
  deriving DecidableEq, Repr

/-- The fields of `struct yyguts_t` and of its buffer that `yylex` uses. A pointer into the buffer
is the number of the character. -/
structure YyGuts where
  yyChBuf : Nat → Byte
  yyBufSize : Nat
  /-- `yy_n_chars` of the buffer. -/
  bufferNChars : Nat
  yyBufferStatus : YyBufferStatus
  yyNChars : Nat
  yytextPtr : Nat
  yyCBufP : Nat
  yyHoldChar : Byte
  yyLastAcceptingState : Nat
  yyLastAcceptingCpos : Nat
  /-- What `read` has yet to deliver. -/
  input : List Byte
  /-- The actions so far. -/
  events : List ScannerEvent

/-- The labels of `yylex`, with the local variables that are used from there on. -/
inductive YyLabel where
  /-- The head of the loop. -/
  | token
  | match (yyCurrentState yyCp yyBp : Nat)
  | findAction (yyCurrentState yyCp yyBp : Nat)
  | doAction (yyAct yyCp yyBp : Nat)
  /-- `return 0`. -/
  | returned
  deriving DecidableEq, Repr

namespace YyGuts

variable (g : YyGuts)

/-- A character of the buffer, which has two more than its size. -/
def readChar (i : Nat) : Option Byte := if i < g.yyBufSize + 2 then some (g.yyChBuf i) else none

def writeChar (i : Nat) (c : Byte) : Option YyGuts :=
  if i < g.yyBufSize + 2 then some { g with yyChBuf := Function.update g.yyChBuf i c } else none

/-- The characters from one place on. -/
def text (i n : Nat) : List Byte := (List.range n).map fun j => g.yyChBuf (i + j)

/-- The guts with another state to remember. -/
def last (yyCurrentState yyCp : Nat) : YyGuts :=
  { g with yyLastAcceptingState := yyCurrentState, yyLastAcceptingCpos := yyCp }

/-- The state is remembered, if it accepts. -/
def remember (yyCurrentState yyCp : Nat) : Option YyGuts := do
  let accept ← yyAccept[yyCurrentState]?
  some (if accept ≠ 0 then g.last yyCurrentState yyCp else g)

end YyGuts

/-! ## The buffer -/

/-- `yy_get_previous_state`: the loop over the text of the token. -/
def yyGetPreviousStateLoop (g : YyGuts) (yyCurrentState yyCp : Nat) : Nat → Option (Nat × YyGuts)
  | 0 => some (yyCurrentState, g)
  | n + 1 => do
    let c ← g.readChar yyCp
    let yyC ← yyClass c
    let g ← g.remember yyCurrentState yyCp
    let yyCurrentState ← yyTransition yyCurrentState yyC
    yyGetPreviousStateLoop g yyCurrentState (yyCp + 1) n

/-- `yy_get_previous_state`. -/
def yyGetPreviousState (g : YyGuts) : Option (Nat × YyGuts) :=
  yyGetPreviousStateLoop g 1 g.yytextPtr (g.yyCBufP - g.yytextPtr)

/-- `yy_try_NUL_trans`. -/
def yyTryNulTrans (g : YyGuts) (yyCurrentState : Nat) : Option (Nat × YyGuts) := do
  let g ← g.remember yyCurrentState g.yyCBufP
  let yyCurrentState ← yyTransition yyCurrentState 1
  some (if yyCurrentState = 13 then 0 else yyCurrentState, g)

/-- What `yy_get_next_buffer` returns. -/
inductive EobAct where
  | continueScan
  | endOfFile
  | lastMatch
  deriving DecidableEq, Repr

/-- The buffer is enlarged until there is room for more than the text of the token. -/
def growBuffer (yyBufSize numberToMove : Nat) : Option Nat :=
  if yyBufSize ≤ numberToMove + 1 then
    if h : 0 < yyBufSize ∧ yyBufSize * 2 < 2 ^ 31 then growBuffer (yyBufSize * 2) numberToMove
    else none
  else some yyBufSize
termination_by numberToMove + 2 - yyBufSize

/-- `yyrestart`, and what it calls. -/
def YyGuts.yyrestart (g : YyGuts) : Option YyGuts := do
  let g ← g.writeChar 0 Ascii.nul
  let g ← g.writeChar 1 Ascii.nul
  let c ← g.readChar 0
  some { g with
    bufferNChars := 0
    yyBufferStatus := .new
    yyNChars := 0
    yytextPtr := 0
    yyCBufP := 0
    yyHoldChar := c }

/-- `YY_INPUT`: of what there is, `read` delivers at most the number of characters that are asked
for, and at least one. How many it could deliver is `available`. -/
def YyGuts.yyInput (g : YyGuts) (available i numToRead : Nat) : Option YyGuts :=
  let result := g.input.take (min (max available 1) numToRead)
  if i + result.length ≤ g.yyBufSize + 2 then some { g with
    yyChBuf := fun j => if i ≤ j ∧ j < i + result.length then result.getD (j - i) 0 else g.yyChBuf j
    yyNChars := result.length
    bufferNChars := result.length
    input := g.input.drop result.length }
  else none

/-- `YY_READ_BUF_SIZE`. -/
abbrev yyReadBufSize : Nat := 8192

/-- The text of the token is moved to the beginning of the buffer, unless the end of the buffer was
missed. -/
def YyGuts.moveDown (g : YyGuts) (numberToMove : Nat) : Option YyGuts :=
  if g.yyCBufP > g.yyNChars + 1 ∨ g.yyBufSize + 2 < g.yytextPtr + numberToMove then none
  else some { g with
    yyChBuf := fun i => if i < numberToMove then g.yyChBuf (g.yytextPtr + i) else g.yyChBuf i }

/-- The buffer is filled after that text, unless the end of the input has been seen. -/
def YyGuts.fill (g : YyGuts) (available numberToMove : Nat) : Option YyGuts :=
  if g.yyBufferStatus = .eofPending then some { g with yyNChars := 0, bufferNChars := 0 }
  else do
    let yyBufSize ← growBuffer g.yyBufSize numberToMove
    let g := { g with yyBufSize }
    g.yyInput available numberToMove (min (yyBufSize - numberToMove - 1) yyReadBufSize)

/-- What is returned: without characters, the end of the input is seen. -/
def YyGuts.filled (g : YyGuts) (numberToMove : Nat) : Option (EobAct × YyGuts) :=
  if g.yyNChars = 0 then
    if numberToMove = 0 then g.yyrestart.map fun g => (.endOfFile, g)
    else some (.lastMatch, { g with yyBufferStatus := .eofPending })
  else some (.continueScan, g)

/-- The end of the buffer is marked. -/
def YyGuts.finish (g : YyGuts) (numberToMove : Nat) : Option YyGuts := do
  let g := if g.yyNChars + numberToMove > g.yyBufSize then
      { g with yyBufSize := g.yyNChars + numberToMove + g.yyNChars / 2 - 2 }
    else g
  let g := { g with yyNChars := g.yyNChars + numberToMove }
  let g ← g.writeChar g.yyNChars Ascii.nul
  let g ← g.writeChar (g.yyNChars + 1) Ascii.nul
  some { g with yytextPtr := 0 }

/-- `yy_get_next_buffer`. -/
def yyGetNextBuffer (available : Nat) (g : YyGuts) : Option (EobAct × YyGuts) := do
  let numberToMove := g.yyCBufP - g.yytextPtr - 1
  let g ← g.moveDown numberToMove
  let g ← g.fill available numberToMove
  let (retVal, g) ← g.filled numberToMove
  let g ← g.finish numberToMove
  some (retVal, g)

/-! ## The steps -/

/-- A transition, and on to the next one unless it leads to a state without transitions. -/
def yyMatch (g : YyGuts) (yyCurrentState yyCp yyBp : Nat) : Option (YyGuts × YyLabel) := do
  let c ← g.readChar yyCp
  let yyC ← yyEc[c.toNat]?
  let g ← g.remember yyCurrentState yyCp
  let yyCurrentState ← yyTransition yyCurrentState yyC
  let base ← yyBase[yyCurrentState]?
  some (g, if base ≠ 14 then .match yyCurrentState (yyCp + 1) yyBp
    else .findAction yyCurrentState (yyCp + 1) yyBp)

/-- The action of a state, or of the one that is backed up to, and where the text ends. -/
def YyGuts.backUp (g : YyGuts) (yyAct yyCp : Nat) : Option (Nat × Nat) :=
  if yyAct = 0 then
    yyAccept[g.yyLastAcceptingState]?.map fun yyAct => (yyAct, g.yyLastAcceptingCpos)
  else some (yyAct, yyCp)

/-- The action, with `YY_DO_BEFORE_ACTION`. -/
def yyFindAction (g : YyGuts) (yyCurrentState yyCp yyBp : Nat) : Option (YyGuts × YyLabel) := do
  let yyAct ← yyAccept[yyCurrentState]?
  let (yyAct, yyCp) ← g.backUp yyAct yyCp
  let c ← g.readChar yyCp
  let g ← g.writeChar yyCp Ascii.nul
  some ({ g with yytextPtr := yyBp, yyHoldChar := c, yyCBufP := yyCp }, .doAction yyAct yyCp yyBp)

/-- The NUL at the end of the text is a character. -/
def yyNul (g : YyGuts) (yyAmountOfMatchedText : Nat) : Option (YyGuts × YyLabel) := do
  let g := { g with yyCBufP := g.yytextPtr + yyAmountOfMatchedText }
  let (yyCurrentState, g) ← yyGetPreviousState g
  let (yyNextState, g) ← yyTryNulTrans g yyCurrentState
  some (if yyNextState ≠ 0 then
    ({ g with yyCBufP := g.yyCBufP + 1 }, .match yyNextState (g.yyCBufP + 1) g.yytextPtr)
    else (g, .findAction yyCurrentState g.yyCBufP g.yytextPtr))

/-- More of the input is needed. -/
def yyRefill (available : Nat) (g : YyGuts) (yyCp yyAmountOfMatchedText : Nat) :
    Option (YyGuts × YyLabel) := do
  let (act, g) ← yyGetNextBuffer available g
  match act with
  | .endOfFile => some ({ g with yyCBufP := g.yytextPtr }, .doAction 7 yyCp g.yytextPtr)
  | .continueScan =>
    let g := { g with yyCBufP := g.yytextPtr + yyAmountOfMatchedText }
    let (yyCurrentState, g) ← yyGetPreviousState g
    some (g, .match yyCurrentState g.yyCBufP g.yytextPtr)
  | .lastMatch =>
    let g := { g with yyCBufP := g.yyNChars }
    let (yyCurrentState, g) ← yyGetPreviousState g
    some (g, .findAction yyCurrentState g.yyCBufP g.yytextPtr)

/-- A buffer that is used for the first time. -/
def YyGuts.begin (g : YyGuts) : YyGuts :=
  if g.yyBufferStatus = .new then
    { g with yyNChars := g.bufferNChars, yyBufferStatus := .normal }
  else g

/-- The action at the end of the buffer, where the text of the token is followed by a NUL. -/
def yyEndOfBuffer (available : Nat) (g : YyGuts) (yyCp : Nat) : Option (YyGuts × YyLabel) := do
  let yyAmountOfMatchedText := yyCp - g.yytextPtr - 1
  let g ← g.writeChar yyCp g.yyHoldChar
  let g := g.begin
  if g.yyCBufP ≤ g.yyNChars then yyNul g yyAmountOfMatchedText
  else yyRefill available g yyCp yyAmountOfMatchedText

/-- An action. Those of the rules leave in the text of the token what `left` says. -/
def yyDoAction (left : List Byte → Nat → Byte) (available : Nat) (g : YyGuts) (yyCp yyBp : Nat) :
    Nat → Option (YyGuts × YyLabel)
  | 0 => do
    let g ← g.writeChar yyCp g.yyHoldChar
    some (g, .findAction g.yyLastAcceptingState g.yyLastAcceptingCpos yyBp)
  | 6 => yyEndOfBuffer available g yyCp
  | 7 => some ({ g with events := g.events ++ [.endOfFile] }, .returned)
  | yyAct => do
    let rule ← yyRule yyAct
    let yytext := g.text yyBp (yyCp - yyBp)
    some ({ g with
      yyChBuf := fun i => if yyBp ≤ i ∧ i < yyCp then left yytext (i - yyBp) else g.yyChBuf i
      events := g.events ++ [.token rule yytext] }, .token)

/-- A step of `yylex`. -/
def yylexStep (left : List Byte → Nat → Byte) (available : Nat) (g : YyGuts) :
    YyLabel → Option (YyGuts × YyLabel)
  | .token => do
    let g ← g.writeChar g.yyCBufP g.yyHoldChar
    some (g, .match 1 g.yyCBufP g.yyCBufP)
  | .match yyCurrentState yyCp yyBp => yyMatch g yyCurrentState yyCp yyBp
  | .findAction yyCurrentState yyCp yyBp => yyFindAction g yyCurrentState yyCp yyBp
  | .doAction yyAct yyCp yyBp => yyDoAction left available g yyCp yyBp yyAct
  | .returned => none

/-- `YY_BUF_SIZE`. -/
abbrev yyBufSize₀ : Nat := 16384

/-- The beginning of `yylex`, with a buffer in which anything may be. -/
def yylexStart (garbage : Nat → Byte) (input : List Byte) : YyGuts where
  yyChBuf := Function.update (Function.update garbage 0 Ascii.nul) 1 Ascii.nul
  yyBufSize := yyBufSize₀
  bufferNChars := 0
  yyBufferStatus := .new
  yyNChars := 0
  yytextPtr := 0
  yyCBufP := 0
  yyHoldChar := Ascii.nul
  yyLastAcceptingState := 0
  yyLastAcceptingCpos := 0
  input := input
  events := []

/-- `yylex` makes a step, whatever `read` delivers if it is called. -/
inductive YylexStep (left : List Byte → Nat → Byte) :
    Option (YyGuts × YyLabel) → Option (YyGuts × YyLabel) → Prop
  | step {g : YyGuts} {label : YyLabel} (hlabel : label ≠ .returned) (available : Nat) :
      YylexStep left (some (g, label)) (yylexStep left available g label)

/-! ## What the buffer holds -/

/-- The characters are in the buffer, from one place on. -/
def Holds (buf : Nat → Byte) (i : Nat) (w : List Byte) : Prop :=
  ∀ j < w.length, buf (i + j) = w.getD j Ascii.nul

section
variable {buf buf' : Nat → Byte} {i : Nat} {c : Byte} {v w : List Byte}

/-- Every buffer holds the empty text. -/
theorem holds_nil : Holds buf i [] := fun _ hj => absurd hj (Nat.not_lt_zero _)

/-- A buffer holds two texts in a row where it holds the second one behind the first. -/
theorem holds_append : Holds buf i (v ++ w) ↔ Holds buf i v ∧ Holds buf (i + v.length) w := by
  constructor
  · refine fun h => ⟨fun j hj => ?_, fun j hj => ?_⟩
    · have hlt : j < (v ++ w).length := by
        rw [List.length_append]
        omega
      rw [h j hlt, List.getD_append _ _ _ _ hj]
    · have hlt : v.length + j < (v ++ w).length := by
        rw [List.length_append]
        omega
      rw [Nat.add_assoc, h _ hlt, List.getD_append_right _ _ _ _ (Nat.le_add_right _ _),
        Nat.add_sub_cancel_left]
  · rintro ⟨hv, hw⟩ j hj
    rw [List.length_append] at hj
    by_cases hlt : j < v.length
    · rw [hv j hlt, List.getD_append _ _ _ _ hlt]
    · obtain ⟨k, rfl⟩ : ∃ k, j = v.length + k := ⟨j - v.length, by omega⟩
      rw [← Nat.add_assoc, hw k (by omega),
        List.getD_append_right _ _ _ _ (Nat.le_add_right _ _), Nat.add_sub_cancel_left]

/-- A buffer holds a text where it holds the first character and, from the next place on, the
others. -/
theorem holds_cons : Holds buf i (c :: w) ↔ buf i = c ∧ Holds buf (i + 1) w := by
  rw [← List.singleton_append, holds_append]
  refine and_congr ⟨fun h => h 0 Nat.one_pos, fun h j hj => ?_⟩ Iff.rfl
  obtain rfl : j = 0 := Nat.lt_one_iff.1 hj
  exact h

/-- The characters are those of another buffer that holds them. -/
theorem Holds.congr (h : Holds buf i w) {i' : Nat}
    (hbuf : ∀ j < w.length, buf' (i' + j) = buf (i + j)) : Holds buf' i' w :=
  fun j hj => (hbuf j hj).trans (h j hj)

/-- `yytext` is the text that the buffer holds at its beginning. -/
theorem Holds.text {g : YyGuts} (h : Holds g.yyChBuf i w) : g.text i w.length = w := by
  refine List.ext_getElem (by simp [YyGuts.text]) fun j hj hj' => ?_
  simp only [YyGuts.text, List.getElem_map, List.getElem_range]
  rw [h j hj', List.getD_eq_getElem _ _ hj']

end

/-- The buffer holds the text of a token so far and the characters ahead of it, and after them the
two characters that end it. -/
structure Reading (g : YyGuts) (yyBp : Nat) (w ahead : List Byte) : Prop where
  text : Holds g.yyChBuf yyBp (w ++ ahead)
  nChars : g.yyNChars = yyBp + w.length + ahead.length
  fits : g.yyNChars ≤ g.yyBufSize
  size : 0 < g.yyBufSize
  endOfBuffer : g.yyChBuf g.yyNChars = Ascii.nul ∧ g.yyChBuf (g.yyNChars + 1) = Ascii.nul
  new : g.yyBufferStatus = .new → g.bufferNChars = g.yyNChars
  eofPending : g.yyBufferStatus = .eofPending → g.input = []

/-- The last state that accepts a text before the whole one is remembered. -/
def Remembers (g : YyGuts) (yyBp : Nat) (w : List Byte) : Prop :=
  ∀ k < w.length, yyLabel (w.take k) ≠ none →
    (∀ j, k < j → j < w.length → yyLabel (w.take j) = none) →
    g.yyLastAcceptingState = yyState (w.take k) ∧ g.yyLastAcceptingCpos = yyBp + k

/-! ## States and characters -/

section
variable {left : List Byte → Nat → Byte} {available : Nat} {g : YyGuts} {yyBp : Nat}
  {b : Byte} {w ahead : List Byte} {state : Nat}

/-- `yy_accept` has an entry for every state, and it is 0 where the state accepts by no rule. -/
theorem yyAccept_eq (hstate : state ∈ yyStates) :
    yyAccept[state]? = some (yyAccept.getD state 0) ∧
      (yyAccept.getD state 0 = 0 ↔ yyRule (yyAccept.getD state 0) = none) :=
  (by decide : ∀ s ∈ yyStates, yyAccept[s]? = some (yyAccept.getD s 0) ∧
    (yyAccept.getD s 0 = 0 ↔ yyRule (yyAccept.getD s 0) = none)) state hstate

/-- `yy_base` has an entry for every state, and the loop of `yylex` ends exactly at those where the
automaton stops. -/
theorem yyBase_eq (hstate : state ∈ yyStates) : yyBase[state]? = some (yyBase.getD state 0) ∧
    (yyBase.getD state 0 = 14 ↔ state ∈ yyStops) :=
  (by decide : ∀ s ∈ yyStates, yyBase[s]? = some (yyBase.getD s 0) ∧
    (yyBase.getD s 0 = 14 ↔ s ∈ yyStops)) state hstate

/-- A text that no rule accepts leaves what is remembered good for the next character. -/
theorem Remembers.take_concat (h : Remembers g yyBp w) (hnone : yyLabel w = none) (b : Byte) :
    Remembers g yyBp (w ++ [b]) := by
  intro k hk hlabel hlast
  rw [List.length_append] at hk
  have htake : ∀ j ≤ w.length, (w ++ [b]).take j = w.take j :=
    fun j hj => List.take_append_of_le_length hj
  have hkw : k ≤ w.length := Nat.le_of_lt_succ hk
  rw [htake k hkw] at hlabel ⊢
  rcases Nat.eq_or_lt_of_le hkw with rfl | hlt
  · rw [List.take_length] at hlabel
    exact absurd hnone hlabel
  · refine h k hlt hlabel fun j hj hjw => ?_
    have hj' := hlast j hj (by rw [List.length_append]; omega)
    rwa [htake j hjw.le] at hj'

/-- After a text that a rule accepts it is enough to remember the state after that text. -/
theorem remembers_concat (hlabel : yyLabel w ≠ none) (b : Byte) :
    Remembers (g.last (yyState w) (yyBp + w.length)) yyBp (w ++ [b]) := by
  intro k hk _ hlast
  rw [List.length_append] at hk
  have hkw : k ≤ w.length := Nat.le_of_lt_succ hk
  have htake : (w ++ [b]).take w.length = w := List.take_left
  rcases Nat.eq_or_lt_of_le hkw with rfl | hlt
  · rw [htake]
    exact ⟨rfl, rfl⟩
  · have hnone := hlast w.length hlt (by rw [List.length_append]; exact Nat.lt_succ_self _)
    rw [htake] at hnone
    exact absurd hnone hlabel

/-- What is remembered of a text is what the next state has to know. -/
theorem remember_yyState (h : Remembers g yyBp w) : ∃ s c,
    g.remember (yyState w) (yyBp + w.length) = some (g.last s c) ∧
      ∀ b, Remembers (g.last s c) yyBp (w ++ [b]) := by
  obtain ⟨haccept, hzero⟩ := yyAccept_eq (yyStates_yyState w)
  have hrun : g.remember (yyState w) (yyBp + w.length) =
      some (if yyAccept.getD (yyState w) 0 ≠ 0 then g.last (yyState w) (yyBp + w.length)
        else g) := by
    rw [YyGuts.remember, haccept]
    rfl
  by_cases hlabel : yyLabel w = none
  · refine ⟨g.yyLastAcceptingState, g.yyLastAcceptingCpos, ?_, fun b => h.take_concat hlabel b⟩
    rw [hrun, if_neg (not_not.2 (hzero.2 hlabel))]
    rfl
  · refine ⟨_, _, ?_, remembers_concat hlabel⟩
    rw [hrun, if_pos fun h0 => hlabel (hzero.1 h0)]

/-- The characters that are ahead are in the buffer behind the text. -/
theorem Reading.rest (h : Reading g yyBp w ahead) : Holds g.yyChBuf (yyBp + w.length) ahead :=
  (holds_append.1 h.text).2

/-- The text grows by a character that was ahead. -/
theorem Reading.concat (h : Reading g yyBp w (b :: ahead)) : Reading g yyBp (w ++ [b]) ahead where
  text := by
    rw [List.append_assoc]
    exact h.text
  nChars := by
    rw [h.nChars, List.length_append, List.length_cons, List.length_singleton]
    omega
  fits := h.fits
  size := h.size
  endOfBuffer := h.endOfBuffer
  new := h.new
  eofPending := h.eofPending

/-- The state that is remembered has no part in what the buffer holds. -/
theorem Reading.last (h : Reading g yyBp w ahead) (s c : Nat) : Reading (g.last s c) yyBp w ahead :=
  ⟨h.text, h.nChars, h.fits, h.size, h.endOfBuffer, h.new, h.eofPending⟩

/-- The position of the scanner has no part in what the buffer holds. -/
theorem Reading.ptr (h : Reading g yyBp w ahead) (ptr : Nat) :
    Reading { g with yyCBufP := ptr } yyBp w ahead :=
  ⟨h.text, h.nChars, h.fits, h.size, h.endOfBuffer, h.new, h.eofPending⟩

/-- Within the buffer a character can be read. -/
theorem readChar_eq {i : Nat} (hi : i < g.yyBufSize + 2) : g.readChar i = some (g.yyChBuf i) :=
  if_pos hi

/-- Within the buffer a character can be written. -/
theorem writeChar_eq {i : Nat} (hi : i < g.yyBufSize + 2) (c : Byte) :
    g.writeChar i c = some { g with yyChBuf := Function.update g.yyChBuf i c } := if_pos hi

/-! ## The steps of a token -/

/-- A character that is no NUL is read, and the next state is found. -/
theorem yyMatch_eq (h : Reading g yyBp w (b :: ahead)) (hb : b ≠ Ascii.nul)
    (hlast : Remembers g yyBp w) : ∃ s c, Remembers (g.last s c) yyBp (w ++ [b]) ∧
      yyMatch g (yyState w) (yyBp + w.length) yyBp = some (g.last s c,
        if yyState (w ++ [b]) ∈ yyStops then
          .findAction (yyState (w ++ [b])) (yyBp + w.length + 1) yyBp
        else .match (yyState (w ++ [b])) (yyBp + w.length + 1) yyBp) := by
  obtain ⟨s, c, hrun, hlast'⟩ := remember_yyState hlast
  refine ⟨s, c, hlast' b, ?_⟩
  have hchar : g.yyChBuf (yyBp + w.length) = b := (holds_cons.1 h.rest).1
  have hsize : yyBp + w.length < g.yyBufSize + 2 := by
    have hn := h.nChars
    have hfits := h.fits
    omega
  have hclass : yyEc[b.toNat]? = some (classOf b) := by
    have hc := yyClass_eq b
    rwa [yyClass, if_pos hb] at hc
  have hnext := yyTransition_eq (yyStates_yyState w) b
  obtain ⟨hbase, hstop⟩ := yyBase_eq (yyStates_yyState (w ++ [b]))
  rw [yyState_concat] at hbase hstop ⊢
  rw [yyMatch, readChar_eq hsize, hchar]
  simp only [Option.bind_eq_bind, Option.bind_some, hclass, hrun, hnext, hbase]
  by_cases hs : yyNext (yyState w) b ∈ yyStops
  · rw [if_pos hs, if_neg (not_not.2 (hstop.2 hs))]
  · rw [if_neg hs, if_pos fun h14 => hs (hstop.1 h14)]

/-- What is inevitable after a step, whatever `read` delivers, is inevitable. -/
theorem inevitable_yylexStep {Q : Option (YyGuts × YyLabel) → Prop} {label : YyLabel}
    (hlabel : label ≠ .returned)
    (h : ∀ available, Inevitable (YylexStep left) Q (yylexStep left available g label)) :
    Inevitable (YylexStep left) Q (some (g, label)) := by
  refine .later ⟨_, .step hlabel 0⟩ fun s' hs' => ?_
  cases hs' with
  | step _ available => exact h available

/-- A step that does not read is the only one. -/
theorem inevitable_step {Q : Option (YyGuts × YyLabel) → Prop} {label : YyLabel}
    {r : YyGuts × YyLabel} (hlabel : label ≠ .returned)
    (hstep : ∀ available, yylexStep left available g label = some r)
    (h : Inevitable (YylexStep left) Q (some r)) :
    Inevitable (YylexStep left) Q (some (g, label)) :=
  inevitable_yylexStep hlabel fun available => (hstep available).symm ▸ h

/-! ## The end of the buffer -/

/-- A NUL leads to the state that ends the buffer. -/
theorem yyMatch_nul {yyCp : Nat} (hsize : yyCp < g.yyBufSize + 2)
    (hnul : g.yyChBuf yyCp = Ascii.nul) (w : List Byte) (yyBp : Nat) : ∃ s c,
      yyMatch g (yyState w) yyCp yyBp = some (g.last s c, .match 3 (yyCp + 1) yyBp) := by
  obtain ⟨haccept, -⟩ := yyAccept_eq (yyStates_yyState w)
  have hnext := yyTransition_endOfBuffer (yyStates_yyState w)
  have hclass : yyEc[Ascii.nul.toNat]? = some 0 := rfl
  have hbase : yyBase[3]? = some 13 := rfl
  rw [yyMatch, YyGuts.remember, readChar_eq hsize, hnul, haccept]
  simp only [Option.bind_eq_bind, Option.bind_some, hclass, hnext, hbase]
  by_cases hzero : yyAccept.getD (yyState w) 0 = 0
  · exact ⟨g.yyLastAcceptingState, g.yyLastAcceptingCpos, by rw [if_neg (not_not.2 hzero)]; rfl⟩
  · exact ⟨_, _, by rw [if_pos hzero]; rfl⟩

/-- The character after the NUL leads out of the state that ends the buffer, whatever it is. -/
theorem yyMatch_end {yyCp : Nat} (hsize : yyCp < g.yyBufSize + 2) (yyBp : Nat) :
    yyMatch g 3 yyCp yyBp = some (g.last 3 yyCp, .findAction 13 (yyCp + 1) yyBp) := by
  have hclass : ∀ c : Byte, ∃ k, yyEc[c.toNat]? = some k ∧ yyTransition 3 k = some 13 := by
    intro c
    by_cases hc : c = Ascii.nul
    · exact ⟨0, by rw [hc]; rfl, by decide⟩
    · have hk := yyClass_eq c
      rw [yyClass, if_pos hc] at hk
      exact ⟨_, hk, (by decide : ∀ k < 8, yyTransition 3 k = some 13) _ (classOf_bounds c).2⟩
  obtain ⟨k, hk, hnext⟩ := hclass (g.yyChBuf yyCp)
  have hbase : yyBase[13]? = some 14 := rfl
  have haccept : yyAccept[3]? = some 6 := rfl
  rw [yyMatch, YyGuts.remember, readChar_eq hsize, haccept]
  simp only [Option.bind_eq_bind, Option.bind_some, hk, hnext, hbase]
  rfl

/-- The guts where the action at the end of the buffer begins. -/
def YyGuts.atEnd (g : YyGuts) (yyBp yyCp : Nat) : YyGuts :=
  { g.last 3 yyCp with yytextPtr := yyBp, yyHoldChar := g.yyChBuf yyCp, yyCBufP := yyCp }

/-- The action after the state that ends the buffer is the one at the end of the buffer. -/
theorem yyFindAction_end {yyCp : Nat} (hsize : yyCp < g.yyBufSize + 2) (yyBp : Nat) :
    yyFindAction (g.last 3 yyCp) 13 (yyCp + 1) yyBp = some ({ g.atEnd yyBp yyCp with
      yyChBuf := Function.update g.yyChBuf yyCp Ascii.nul }, .doAction 6 yyCp yyBp) := by
  have haccept : yyAccept[13]? = some 0 := rfl
  have hback : (g.last 3 yyCp).backUp 0 (yyCp + 1) = some (6, yyCp) := rfl
  have hread : (g.last 3 yyCp).readChar yyCp = some (g.yyChBuf yyCp) := if_pos hsize
  have hwrite := writeChar_eq (g := g.last 3 yyCp) (i := yyCp) hsize Ascii.nul
  rw [yyFindAction, haccept]
  simp only [Option.bind_eq_bind, Option.bind_some, hback, hread, hwrite]
  rfl

/-- The rule for the end of the buffer puts the held character back. It goes on with a NUL of the
text, and asks for more characters behind what the buffer holds. -/
theorem yyEndOfBuffer_eq {yyCp : Nat} (hsize : yyCp < g.yyBufSize + 2) (available yyBp : Nat) :
    yyEndOfBuffer available { g.atEnd yyBp yyCp with
      yyChBuf := Function.update g.yyChBuf yyCp Ascii.nul } yyCp =
    if yyCp ≤ (g.atEnd yyBp yyCp).begin.yyNChars then
      yyNul (g.atEnd yyBp yyCp).begin (yyCp - yyBp - 1)
    else yyRefill available (g.atEnd yyBp yyCp).begin yyCp (yyCp - yyBp - 1) := by
  have hwrite : YyGuts.writeChar { g.atEnd yyBp yyCp with
      yyChBuf := Function.update g.yyChBuf yyCp Ascii.nul } yyCp (g.yyChBuf yyCp) =
      some (g.atEnd yyBp yyCp) := by
    refine (if_pos hsize).trans (congrArg (fun buf => some { g.atEnd yyBp yyCp with
      yyChBuf := buf }) ?_)
    rw [Function.update_idem, Function.update_eq_self]
    rfl
  have hptr : (g.atEnd yyBp yyCp).begin.yyCBufP = yyCp := by
    unfold YyGuts.begin
    split_ifs <;> rfl
  rw [yyEndOfBuffer]
  show (YyGuts.writeChar _ yyCp (g.yyChBuf yyCp) >>= _) = _
  rw [hwrite]
  show (if (g.atEnd yyBp yyCp).begin.yyCBufP ≤ _ then _ else _) = _
  rw [hptr]
  rfl

/-- The text is the same when the end of the buffer is looked at. -/
theorem Reading.atEnd (h : Reading g yyBp w ahead) (yyCp : Nat) :
    Reading (g.atEnd yyBp yyCp) yyBp w ahead :=
  ⟨h.text, h.nChars, h.fits, h.size, h.endOfBuffer, h.new, h.eofPending⟩

/-- The text is the same when the buffer is begun. -/
theorem Reading.begin (h : Reading g yyBp w ahead) : ∃ status, status ≠ .new ∧
    (status = .eofPending ↔ g.yyBufferStatus = .eofPending) ∧
    g.begin = { g with yyBufferStatus := status } := by
  by_cases hnew : g.yyBufferStatus = .new
  · refine ⟨.normal, by decide, iff_of_false (by decide) (by rw [hnew]; decide), ?_⟩
    rw [YyGuts.begin, if_pos hnew, h.new hnew]
  · exact ⟨_, hnew, Iff.rfl, if_neg hnew⟩

/-- **The end of the buffer**: what happens when the text is followed by a NUL. -/
theorem inevitable_nul {Q : Option (YyGuts × YyLabel) → Prop} (h : Reading g yyBp w ahead)
    (hnul : g.yyChBuf (yyBp + w.length) = Ascii.nul)
    (hQ : ∀ g' status, g' = { g.atEnd yyBp (yyBp + w.length + 1) with yyBufferStatus := status } →
      status ≠ .new → (status = .eofPending ↔ g.yyBufferStatus = .eofPending) →
      Reading g' yyBp w ahead → (ahead ≠ [] → Inevitable (YylexStep left) Q (yyNul g' w.length)) ∧
        (ahead = [] → ∀ available, Inevitable (YylexStep left) Q
          (yyRefill available g' (yyBp + w.length + 1) w.length))) :
    Inevitable (YylexStep left) Q
      (some (g, .match (yyState w) (yyBp + w.length) yyBp)) := by
  have hn := h.nChars
  have hfits := h.fits
  have hsize : yyBp + w.length + 1 < g.yyBufSize + 2 := by omega
  obtain ⟨s, c, hmatch⟩ := yyMatch_nul (Nat.lt_of_succ_lt hsize) hnul w yyBp
  refine inevitable_step (by simp) (fun _ => hmatch) ?_
  refine inevitable_step (by simp)
    (fun _ => yyMatch_end (g := g.last s c) hsize yyBp) ?_
  refine inevitable_step (by simp)
    (fun _ => yyFindAction_end (g := g.last s c) hsize yyBp) ?_
  refine inevitable_yylexStep (by simp) fun available => ?_
  have hread := h.atEnd (yyBp + w.length + 1)
  obtain ⟨status, hnew, heof, hbegin⟩ := hread.begin
  show Inevitable (YylexStep left) Q (yyEndOfBuffer available _ (yyBp + w.length + 1))
  rw [yyEndOfBuffer_eq (g := g.last s c) hsize]
  have hcount : yyBp + w.length + 1 - yyBp - 1 = w.length := by omega
  have hsame : ((g.last s c).atEnd yyBp (yyBp + w.length + 1)).begin =
      { g.atEnd yyBp (yyBp + w.length + 1) with yyBufferStatus := status } := hbegin
  rw [hsame, hcount]
  obtain ⟨hcharacter, hend⟩ := hQ _ status rfl hnew heof
    ⟨hread.text, hread.nChars, hread.fits, hread.size, hread.endOfBuffer,
      fun h => absurd h hnew, fun h => hread.eofPending (heof.1 h)⟩
  show Inevitable (YylexStep left) Q (if yyBp + w.length + 1 ≤ g.yyNChars then _ else _)
  by_cases hahead : ahead = []
  · rw [hahead, List.length_nil] at hn
    rw [if_neg (by omega)]
    exact hend hahead available
  · have hpos := List.length_pos_of_ne_nil hahead
    rw [if_pos (by omega)]
    exact hcharacter hahead

/-- The loop over the text comes to its state, and remembers what the state has to know. -/
theorem yyGetPreviousStateLoop_eq {v : List Byte} (hlast : Remembers g yyBp w)
    (htext : Holds g.yyChBuf (yyBp + w.length) v)
    (hsize : yyBp + w.length + v.length ≤ g.yyBufSize + 2) :
    ∃ s c, Remembers (g.last s c) yyBp (w ++ v) ∧
      yyGetPreviousStateLoop g (yyState w) (yyBp + w.length) v.length =
        some (yyState (w ++ v), g.last s c) := by
  induction v generalizing g w with
  | nil =>
    refine ⟨g.yyLastAcceptingState, g.yyLastAcceptingCpos, ?_, ?_⟩
    · rw [List.append_nil]
      exact hlast
    · rw [List.append_nil]
      rfl
  | cons b v ih =>
    obtain ⟨hb, hv⟩ := holds_cons.1 htext
    rw [List.length_cons] at hsize
    obtain ⟨s, c, hrun, hlast'⟩ := remember_yyState hlast
    have hlen : yyBp + (w ++ [b]).length = yyBp + w.length + 1 := by
      rw [List.length_append, List.length_singleton, Nat.add_assoc]
    have hrest : Holds (g.last s c).yyChBuf (yyBp + (w ++ [b]).length) v := hlen ▸ hv
    have hfits : yyBp + (w ++ [b]).length + v.length ≤ (g.last s c).yyBufSize + 2 := by
      show _ ≤ g.yyBufSize + 2
      omega
    obtain ⟨s', c', hlast'', hloop⟩ := ih (hlast' b) hrest hfits
    rw [List.append_assoc] at hlast'' hloop
    refine ⟨s', c', hlast'', ?_⟩
    have hread : g.readChar (yyBp + w.length) = some b :=
      (readChar_eq (by omega)).trans (congrArg some hb)
    rw [List.length_cons, yyGetPreviousStateLoop, hread]
    simp only [Option.bind_eq_bind, Option.bind_some, yyClass_eq, hrun,
      yyTransition_eq (yyStates_yyState w)]
    rw [hlen, yyState_concat] at hloop
    exact hloop

/-- Nothing has to be remembered of an empty text. -/
theorem remembers_nil : Remembers g yyBp [] := fun _ hk => absurd hk (Nat.not_lt_zero _)

/-- **`yy_get_previous_state`** comes to the state of the text. -/
theorem yyGetPreviousState_eq (htext : Holds g.yyChBuf yyBp w)
    (hsize : yyBp + w.length ≤ g.yyBufSize + 2) (hptr : g.yytextPtr = yyBp)
    (hend : g.yyCBufP = yyBp + w.length) : ∃ s c, Remembers (g.last s c) yyBp w ∧
      yyGetPreviousState g = some (yyState w, g.last s c) := by
  obtain ⟨s, c, hlast, hloop⟩ := yyGetPreviousStateLoop_eq (w := []) remembers_nil htext hsize
  refine ⟨s, c, hlast, ?_⟩
  rw [yyGetPreviousState, hptr, hend, Nat.add_sub_cancel_left]
  exact hloop

/-- What is remembered beyond a text that is not accepted was remembered of it. -/
theorem Remembers.of_concat (h : Remembers g yyBp (w ++ [b])) (hnone : yyLabel w = none) :
    Remembers g yyBp w := by
  intro k hk hlabel hlast
  have htake : ∀ j ≤ w.length, (w ++ [b]).take j = w.take j :=
    fun j hj => List.take_append_of_le_length hj
  have hrem := h k (by rw [List.length_append]; omega)
  rw [htake k hk.le] at hrem
  refine hrem hlabel fun j hj hjw => ?_
  rw [List.length_append, List.length_singleton] at hjw
  rw [htake j (Nat.le_of_lt_succ hjw)]
  rcases Nat.eq_or_lt_of_le (Nat.le_of_lt_succ hjw) with rfl | hlt
  · rw [List.take_length]
    exact hnone
  · exact hlast j hj hlt

/-- **A NUL that is a character**: the state after it, or the one before it if no token goes on with
it. -/
theorem yyNul_eq (h : Reading g yyBp w (Ascii.nul :: ahead)) (hptr : g.yytextPtr = yyBp) :
    ∃ s c ptr, Remembers (g.last s c) yyBp (w ++ [Ascii.nul]) ∧
      yyNul g w.length = some ({ g.last s c with yyCBufP := ptr },
        if yyState (w ++ [Ascii.nul]) = 13 then .findAction (yyState w) (yyBp + w.length) yyBp
        else .match (yyState (w ++ [Ascii.nul])) (yyBp + w.length + 1) yyBp) := by
  subst hptr
  have hn := h.nChars
  have hfits := h.fits
  obtain ⟨s, c, hlast, hprevious⟩ := yyGetPreviousState_eq
    (g := { g with yyCBufP := g.yytextPtr + w.length }) (holds_append.1 h.text).1
    (show _ ≤ g.yyBufSize + 2 by omega) rfl rfl
  obtain ⟨s', c', hremember, hlast'⟩ := remember_yyState hlast
  have hnext := yyTransition_eq (yyStates_yyState w) Ascii.nul
  have hclass : classOf Ascii.nul = 1 := rfl
  rw [hclass] at hnext
  have htrans : yyTryNulTrans (YyGuts.last { g with yyCBufP := g.yytextPtr + w.length } s c)
      (yyState w) =
      some (if yyState (w ++ [Ascii.nul]) = 13 then 0 else yyState (w ++ [Ascii.nul]),
        YyGuts.last { g with yyCBufP := g.yytextPtr + w.length } s' c') := by
    rw [yyTryNulTrans]
    show (YyGuts.remember _ (yyState w) (g.yytextPtr + w.length) >>= _) = _
    rw [hremember, yyState_concat]
    simp only [Option.bind_eq_bind, Option.bind_some, hnext]
    rfl
  refine ⟨s', c', if yyState (w ++ [Ascii.nul]) = 13 then g.yytextPtr + w.length
    else g.yytextPtr + w.length + 1, hlast' Ascii.nul, ?_⟩
  rw [yyNul, hprevious]
  simp only [Option.bind_eq_bind, Option.bind_some, htrans]
  by_cases hjam : yyState (w ++ [Ascii.nul]) = 13
  · simp only [hjam, if_true, ne_eq, not_true, if_false]
    rfl
  · have hpos : yyState (w ++ [Ascii.nul]) ≠ 0 :=
      fun h0 => absurd (yyStates_yyState (w ++ [Ascii.nul])) (h0 ▸ by decide)
    simp only [hjam, if_false, ne_eq, hpos, not_false_eq_true, if_true]
    rfl

/-! ## More input -/

/-- There is room for more than the text of a token. -/
theorem growBuffer_eq {yyBufSize n : Nat} (hpos : 0 < yyBufSize) (hn : n + 1 < 2 ^ 30) :
    ∃ size, growBuffer yyBufSize n = some size ∧ n + 1 < size := by
  fun_induction growBuffer yyBufSize n with
  | case1 yyBufSize hle h ih => exact ih (Nat.mul_pos hpos Nat.two_pos)
  | case2 yyBufSize hle h =>
    refine absurd ⟨hpos, ?_⟩ h
    omega
  | case3 yyBufSize hlt => exact ⟨yyBufSize, rfl, by omega⟩

/-- The part of a token that has been read is moved to the beginning of the buffer. -/
theorem moveDown_eq (h : Reading g yyBp w []) (hptr : g.yytextPtr = yyBp)
    (hend : g.yyCBufP = yyBp + w.length + 1) :
    ∃ buf, Holds buf 0 w ∧ g.moveDown w.length = some { g with yyChBuf := buf } := by
  have hn := h.nChars
  have hfits := h.fits
  rw [List.length_nil, Nat.add_zero] at hn
  refine ⟨fun i => if i < w.length then g.yyChBuf (g.yytextPtr + i) else g.yyChBuf i, ?_, ?_⟩
  · have htext := h.text
    rw [List.append_nil, ← hptr] at htext
    refine htext.congr fun j hj => ?_
    rw [Nat.zero_add]
    exact if_pos hj
  · refine if_neg ?_
    omega

/-- `read` delivers at least one character until the input ends. -/
theorem fill_eq (hpos : 0 < g.yyBufSize) (hfits : w.length ≤ g.yyBufSize)
    (hsize : w.length + 1 < 2 ^ 30) (htext : Holds g.yyChBuf 0 w)
    (heof : g.yyBufferStatus = .eofPending → g.input = []) (available : Nat) :
    ∃ buf size n chunk, Holds buf 0 (w ++ chunk) ∧ 0 < size ∧ w.length + chunk.length ≤ size ∧
      (g.input ≠ [] → chunk ≠ []) ∧ g.input = chunk ++ g.input.drop chunk.length ∧
      g.fill available w.length = some { g with
        yyChBuf := buf, yyBufSize := size, yyNChars := chunk.length, bufferNChars := n,
        input := g.input.drop chunk.length } := by
  by_cases hstatus : g.yyBufferStatus = .eofPending
  · refine ⟨g.yyChBuf, g.yyBufSize, 0, [], ?_, hpos, hfits, fun h => absurd (heof hstatus) h, rfl,
      if_pos hstatus⟩
    rw [List.append_nil]
    exact htext
  · obtain ⟨size, hgrow, hlt⟩ := growBuffer_eq hpos hsize
    let count := min (max available 1) (min (size - w.length - 1) yyReadBufSize)
    let chunk := g.input.take count
    have hcount : 0 < count ∧ count ≤ size - w.length - 1 := by
      refine ⟨lt_min (lt_max_of_lt_right Nat.one_pos) (lt_min (by omega) (by decide)), ?_⟩
      exact (min_le_right _ _).trans (min_le_left _ _)
    have hlen : chunk.length ≤ count := List.length_take_le _ _
    have hroom : w.length + chunk.length ≤ size := by omega
    have hdrop : g.input.drop chunk.length = g.input.drop count := by
      show g.input.drop (g.input.take count).length = _
      rw [List.length_take]
      rcases Nat.le_total count g.input.length with hle | hle
      · rw [Nat.min_eq_left hle]
      · rw [Nat.min_eq_right hle, List.drop_length, List.drop_eq_nil_of_le hle]
    refine ⟨fun j => if w.length ≤ j ∧ j < w.length + chunk.length then
      chunk.getD (j - w.length) 0 else g.yyChBuf j, size, chunk.length, chunk, ?_, by omega, hroom,
      fun hne => ?_, ?_, ?_⟩
    · refine holds_append.2 ⟨htext.congr fun j hj => ?_, fun j hj => ?_⟩
      · exact if_neg (by omega)
      · rw [Nat.zero_add]
        refine (if_pos (by omega)).trans ?_
        rw [Nat.add_sub_cancel_left]
    · refine List.ne_nil_of_length_pos ?_
      have hin := List.length_pos_of_ne_nil hne
      rw [show chunk = g.input.take count from rfl, List.length_take]
      omega
    · rw [hdrop]
      exact (List.take_append_drop count g.input).symm
    · rw [YyGuts.fill, if_neg hstatus, hgrow]
      exact if_pos (hroom.trans (Nat.le_add_right _ _))

/-- Two NULs are put behind what has been read. -/
theorem finish_eq {n : Nat} (hfits : n + g.yyNChars ≤ g.yyBufSize) :
    g.finish n = some { g with
      yyChBuf := Function.update (Function.update g.yyChBuf (n + g.yyNChars) Ascii.nul)
        (n + g.yyNChars + 1) Ascii.nul
      yyNChars := n + g.yyNChars
      yytextPtr := 0 } := by
  have henlarge : ¬ g.yyNChars + n > g.yyBufSize := by omega
  rw [YyGuts.finish, if_neg henlarge, Nat.add_comm g.yyNChars]
  show ((if n + g.yyNChars < g.yyBufSize + 2 then some _ else none) >>= _) = _
  rw [if_pos (by omega)]
  show ((if n + g.yyNChars + 1 < g.yyBufSize + 2 then some _ else none) >>= _) = _
  rw [if_pos (by omega)]
  rfl

/-- A text that the buffer holds from its beginning is being read once its end is marked. -/
theorem Reading.finish (htext : Holds g.yyChBuf 0 (w ++ ahead)) (hn : g.yyNChars = ahead.length)
    (hsize : 0 < g.yyBufSize) (hfits : w.length + ahead.length ≤ g.yyBufSize)
    (hnew : g.yyBufferStatus ≠ .new) (heof : g.yyBufferStatus = .eofPending → g.input = []) :
    ∃ buf, g.finish w.length = some { g with
        yyChBuf := buf, yyNChars := w.length + ahead.length, yytextPtr := 0 } ∧
      Reading { g with yyChBuf := buf, yyNChars := w.length + ahead.length, yytextPtr := 0 }
        0 w ahead := by
  have hfinish := finish_eq (hn ▸ hfits : w.length + g.yyNChars ≤ g.yyBufSize)
  rw [hn] at hfinish
  refine ⟨_, hfinish, htext.congr fun j hj => ?_, by rw [Nat.zero_add], hfits, hsize, ⟨?_, ?_⟩,
    fun h => absurd h hnew, heof⟩
  · rw [List.length_append] at hj
    show Function.update (Function.update g.yyChBuf _ Ascii.nul) _ Ascii.nul (0 + j) = _
    rw [Function.update_of_ne (by omega), Function.update_of_ne (by omega)]
  · show Function.update (Function.update g.yyChBuf _ Ascii.nul) _ Ascii.nul _ = _
    rw [Function.update_of_ne (Nat.ne_of_lt (Nat.lt_succ_self _)), Function.update_self]
  · exact Function.update_self _ _ _

/-- The buffer is emptied. -/
theorem yyrestart_eq (g : YyGuts) : ∃ buf c, g.yyrestart = some { g with
    yyChBuf := buf
    bufferNChars := 0
    yyBufferStatus := .new
    yyNChars := 0
    yytextPtr := 0
    yyCBufP := 0
    yyHoldChar := c } := by
  let buf := Function.update (Function.update g.yyChBuf 0 Ascii.nul) 1 Ascii.nul
  refine ⟨buf, buf 0, ?_⟩
  rw [YyGuts.yyrestart]
  show ((if 0 < g.yyBufSize + 2 then some _ else none) >>= _) = _
  rw [if_pos (Nat.succ_pos _)]
  show ((if 1 < g.yyBufSize + 2 then some _ else none) >>= _) = _
  rw [if_pos (by omega)]
  show ((if 0 < g.yyBufSize + 2 then some _ else none) >>= _) = _
  rw [if_pos (Nat.succ_pos _)]
  rfl

/-- What `yy_get_next_buffer` makes of the buffer while there is a text or more input. -/
structure Refilled (g g' : YyGuts) (w chunk : List Byte) : Prop where
  reading : Reading g' 0 w chunk
  ptr : g'.yytextPtr = 0
  input : g.input = chunk ++ g'.input
  nonempty : g.input ≠ [] → chunk ≠ []
  events : g'.events = g.events

/-- **`yy_get_next_buffer`** comes to the end of the input, or to the end of the text with no more
input, or to more of the input. -/
theorem yyGetNextBuffer_eq (h : Reading g yyBp w []) (hptr : g.yytextPtr = yyBp)
    (hend : g.yyCBufP = yyBp + w.length + 1) (hnew : g.yyBufferStatus ≠ .new)
    (hsize : w.length + 1 < 2 ^ 30) (available : Nat) :
    ∃ act g', yyGetNextBuffer available g = some (act, g') ∧
      (w = [] → g.input = [] → act = .endOfFile ∧ g'.events = g.events) ∧
      (w ≠ [] → g.input = [] → act = .lastMatch ∧ Refilled g g' w []) ∧
      (g.input ≠ [] → act = .continueScan ∧ g'.yyBufferStatus = g.yyBufferStatus ∧
        ∃ chunk, Refilled g g' w chunk) := by
  have hmove : g.yyCBufP - g.yytextPtr - 1 = w.length := by omega
  obtain ⟨buf, hbuf, hmoved⟩ := moveDown_eq h hptr hend
  have hfits : w.length ≤ g.yyBufSize := by
    have hn := h.nChars
    have hfits := h.fits
    omega
  obtain ⟨buf', size, n, chunk, htext, hpos, hroom, hchunk, hinput, hfill⟩ :=
    fill_eq (g := { g with yyChBuf := buf }) h.size hfits hsize hbuf h.eofPending available
  -- the buffer after it has been filled
  let g₂ : YyGuts := { g with
    yyChBuf := buf', yyBufSize := size, yyNChars := chunk.length, bufferNChars := n,
    input := g.input.drop chunk.length }
  have hrun : yyGetNextBuffer available g = (g₂.filled w.length).bind fun r =>
      (r.2.finish w.length).bind fun g => some (r.1, g) := by
    rw [yyGetNextBuffer, hmove, hmoved]
    dsimp only [Option.bind_eq_bind, Option.bind_some]
    rw [hfill]
    rfl
  rw [hrun]
  by_cases hmore : g.input = []
  · obtain ⟨rfl, hrest⟩ := List.append_eq_nil_iff.1 (hinput.symm.trans hmore)
    by_cases hw : w = []
    · -- the end of the input, and of the text
      obtain ⟨buf₃, c, hrestart⟩ := yyrestart_eq g₂
      subst hw
      have hfilled : g₂.filled ([] : List Byte).length =
          g₂.yyrestart.map fun g => (.endOfFile, g) := (if_pos rfl).trans (if_pos rfl)
      rw [hfilled, hrestart, Option.map_some, Option.bind_some, finish_eq (Nat.zero_le _)]
      exact ⟨_, _, rfl, fun _ _ => ⟨rfl, rfl⟩, fun h => absurd rfl h, fun h => absurd hmore h⟩
    · have hfilled : g₂.filled w.length = some (.lastMatch, { g₂ with
          yyBufferStatus := .eofPending }) := by
        refine (if_pos rfl).trans (if_neg ?_)
        exact fun h0 => hw (List.length_eq_zero_iff.1 h0)
      obtain ⟨buf₃, hfinish, hreading⟩ := Reading.finish (g := { g₂ with
        yyBufferStatus := .eofPending }) htext rfl hpos hroom (by simp) fun _ => hrest
      rw [hfilled, Option.bind_some, hfinish]
      refine ⟨_, _, rfl, fun h => absurd h hw, fun _ _ => ⟨rfl, hreading, rfl, ?_, ?_, rfl⟩,
        fun h => absurd hmore h⟩
      · exact hinput
      · exact fun h => absurd hmore h
  · have hfilled : g₂.filled w.length = some (.continueScan, g₂) :=
      if_neg fun h0 => hchunk hmore (List.length_eq_zero_iff.1 h0)
    obtain ⟨buf₃, hfinish, hreading⟩ := Reading.finish (g := g₂) htext rfl hpos hroom hnew
      fun h' => absurd (h.eofPending h') hmore
    rw [hfilled, Option.bind_some, hfinish]
    exact ⟨_, _, rfl, fun _ h => absurd h hmore, fun _ h => absurd h hmore,
      fun _ => ⟨rfl, rfl, chunk, hreading, rfl, hinput, hchunk, rfl⟩⟩

/-- The state is found again after the text has been moved. -/
theorem Refilled.previous {g' : YyGuts} {chunk : List Byte} (h : Refilled g g' w chunk) {ptr : Nat}
    (hend : ptr = w.length) : ∃ s c, Remembers (g'.last s c) 0 w ∧
      yyGetPreviousState { g' with yyCBufP := ptr } =
        some (yyState w, YyGuts.last { g' with yyCBufP := ptr } s c) := by
  have hn := h.reading.nChars
  have hfits := h.reading.fits
  exact yyGetPreviousState_eq (g := { g' with yyCBufP := ptr }) (holds_append.1 h.reading.text).1
    (show _ ≤ g'.yyBufSize + 2 by omega) h.ptr (hend.trans (Nat.zero_add _).symm)

/-- **More input**: the end of the file, the longest text that was accepted, or on with the text. -/
theorem inevitable_refill {Q : Option (YyGuts × YyLabel) → Prop} (h : Reading g yyBp w [])
    (hptr : g.yytextPtr = yyBp) (hend : g.yyCBufP = yyBp + w.length + 1)
    (hnew : g.yyBufferStatus ≠ .new) (hsize : w.length + 1 < 2 ^ 30) (available yyCp : Nat)
    (hfile : w = [] → g.input = [] → ∀ g', g'.events = g.events ++ [.endOfFile] →
      Q (some (g', .returned)))
    (hmatch : w ≠ [] → g.input = [] → ∀ g', Refilled g g' w [] → Remembers g' 0 w →
      Inevitable (YylexStep left) Q (some (g', .findAction (yyState w) (0 + w.length) 0)))
    (hscan : g.input ≠ [] → ∀ g' chunk, Refilled g g' w chunk → Remembers g' 0 w →
      g'.yyBufferStatus = g.yyBufferStatus →
      Inevitable (YylexStep left) Q (some (g', .match (yyState w) (0 + w.length) 0))) :
    Inevitable (YylexStep left) Q (yyRefill available g yyCp w.length) := by
  obtain ⟨act, g', hbuffer, hnone, hlast, hmore⟩ :=
    yyGetNextBuffer_eq h hptr hend hnew hsize available
  rw [yyRefill, hbuffer]
  by_cases hinput : g.input = []
  · by_cases hw : w = []
    · obtain ⟨rfl, hevents⟩ := hnone hw hinput
      refine inevitable_step (by simp) (fun _ => rfl) (.now (hfile hw hinput _ ?_))
      exact congrArg (· ++ [ScannerEvent.endOfFile]) hevents
    · obtain ⟨rfl, hrefilled⟩ := hlast hw hinput
      have hn : g'.yyNChars = w.length := by
        have hn := hrefilled.reading.nChars
        rw [List.length_nil, Nat.add_zero, Nat.zero_add] at hn
        exact hn
      obtain ⟨s, c, hrem, hprevious⟩ := hrefilled.previous hn
      have hlabel : YyLabel.findAction (yyState w) g'.yyNChars g'.yytextPtr =
          .findAction (yyState w) (0 + w.length) 0 := by
        rw [hn, hrefilled.ptr, Nat.zero_add]
      show Inevitable _ Q ((yyGetPreviousState { g' with yyCBufP := g'.yyNChars }).bind _)
      rw [hprevious]
      show Inevitable _ Q (some (_, YyLabel.findAction (yyState w) g'.yyNChars g'.yytextPtr))
      rw [hlabel]
      refine hmatch hw hinput _ ⟨?_, hrefilled.ptr, hrefilled.input, hrefilled.nonempty,
        hrefilled.events⟩ hrem
      obtain ⟨h₁, h₂, h₃, h₄, h₅, h₆, h₇⟩ := hrefilled.reading
      exact ⟨h₁, h₂, h₃, h₄, h₅, h₆, h₇⟩
  · obtain ⟨rfl, hstatus, chunk, hrefilled⟩ := hmore hinput
    have hn : g'.yytextPtr + w.length = w.length := by
      rw [hrefilled.ptr, Nat.zero_add]
    obtain ⟨s, c, hrem, hprevious⟩ := hrefilled.previous hn
    have hlabel : YyLabel.match (yyState w) (g'.yytextPtr + w.length) g'.yytextPtr =
        .match (yyState w) (0 + w.length) 0 := by
      rw [hrefilled.ptr]
    show Inevitable _ Q ((yyGetPreviousState { g' with
      yyCBufP := g'.yytextPtr + w.length }).bind _)
    rw [hprevious]
    show Inevitable _ Q (some (_, YyLabel.match (yyState w) (g'.yytextPtr + w.length)
      g'.yytextPtr))
    rw [hlabel]
    refine hscan hinput _ chunk ⟨?_, hrefilled.ptr, hrefilled.input, hrefilled.nonempty,
      hrefilled.events⟩ hrem hstatus
    obtain ⟨h₁, h₂, h₃, h₄, h₅, h₆, h₇⟩ := hrefilled.reading
    exact ⟨h₁, h₂, h₃, h₄, h₅, h₆, h₇⟩

/-! ## The action -/

/-- At the head of the loop, the character that is held belongs to the buffer. -/
def Ready (g : YyGuts) (ahead : List Byte) : Prop :=
  Reading { g with yyChBuf := Function.update g.yyChBuf g.yyCBufP g.yyHoldChar } g.yyCBufP [] ahead

/-- The scanner begins a token where the last one ended. -/
theorem yylexStep_token (h : Ready g ahead) (available : Nat) :
    yylexStep left available g .token =
      some ({ g with yyChBuf := Function.update g.yyChBuf g.yyCBufP g.yyHoldChar },
        .match (yyState []) (g.yyCBufP + ([] : List Byte).length) g.yyCBufP) := by
  have hn : g.yyNChars = g.yyCBufP + 0 + ahead.length := h.nChars
  have hfits : g.yyNChars ≤ g.yyBufSize := h.fits
  exact congrArg (fun r : Option YyGuts => r.bind fun g =>
    some (g, YyLabel.match 1 g.yyCBufP g.yyCBufP)) (writeChar_eq (by omega) g.yyHoldChar)

/-- The action of a rule is recorded, and the text of the token is whatever it leaves there. -/
theorem yyDoAction_rule {act : Nat} {rule : Option ScannerRule} (hrule : yyRule act = some rule)
    (yyCp yyBp : Nat) : yyDoAction left available g yyCp yyBp act = some ({ g with
      yyChBuf := fun i => if yyBp ≤ i ∧ i < yyCp then left (g.text yyBp (yyCp - yyBp)) (i - yyBp)
        else g.yyChBuf i
      events := g.events ++ [.token rule (g.text yyBp (yyCp - yyBp))] }, .token) := by
  have hbind : yyDoAction left available g yyCp yyBp act = (yyRule act).bind fun rule =>
      some ({ g with
        yyChBuf := fun i => if yyBp ≤ i ∧ i < yyCp then left (g.text yyBp (yyCp - yyBp)) (i - yyBp)
          else g.yyChBuf i
        events := g.events ++ [.token rule (g.text yyBp (yyCp - yyBp))] }, .token) := by
    rcases act with _ | _ | _ | _ | _ | _ | _ | _ | act
    · cases hrule
    iterate 5 rfl
    · cases hrule
    · cases hrule
    · cases hrule
  rw [hbind, hrule]
  rfl

/-- What is backed up to is the longest text that was accepted. -/
theorem backUp_eq {k : Nat} (hrem : yyLabel w = none → Remembers g yyBp w)
    (hk : LongestPrefix (fun v => yyLabel v ≠ none) w k) :
    g.backUp (yyAccept.getD (yyState w) 0) (yyBp + w.length) =
      some (yyAccept.getD (yyState (w.take k)) 0, yyBp + k) := by
  obtain ⟨haccept, hzero⟩ := yyAccept_eq (yyStates_yyState (w.take k))
  by_cases hnone : yyLabel w = none
  · have hlt : k < w.length := by
      refine lt_of_le_of_ne hk.le fun heq => hk.holds ?_
      rw [heq, List.take_length]
      exact hnone
    obtain ⟨hstate, hcpos⟩ := hrem hnone k hlt hk.holds fun j hj hjw =>
      not_not.1 (hk.longest j hj hjw.le)
    have hw0 := (yyAccept_eq (yyStates_yyState w)).2.2 hnone
    rw [YyGuts.backUp, if_pos hw0, hstate, haccept, hcpos]
    rfl
  · have heq : k = w.length := by
      by_contra hne
      refine hk.longest w.length (lt_of_le_of_ne hk.le hne) le_rfl ?_
      rw [List.take_length]
      exact hnone
    subst heq
    rw [List.take_length]
    exact if_neg fun h0 => hnone ((yyAccept_eq (yyStates_yyState w)).2.1 h0)

/-- **The action** is that of the longest text that was accepted, and what comes after this text is
ahead of the next token. -/
theorem inevitable_findAction {Q : Option (YyGuts × YyLabel) → Prop} {k : Nat}
    {rule : Option ScannerRule} (h : Reading g yyBp w ahead)
    (hrem : yyLabel w = none → Remembers g yyBp w)
    (hk : LongestPrefix (fun v => yyLabel v ≠ none) w k) (hrule : yyLabel (w.take k) = some rule)
    (hQ : ∀ g', Ready g' (w.drop k ++ ahead) → g'.input = g.input →
      g'.events = g.events ++ [.token rule (w.take k)] → g'.yyBufferStatus = g.yyBufferStatus →
      Q (some (g', .token))) :
    Inevitable (YylexStep left) Q
      (some (g, .findAction (yyState w) (yyBp + w.length) yyBp)) := by
  have hn := h.nChars
  have hfits := h.fits
  have hkw := hk.le
  obtain ⟨haccept, -⟩ := yyAccept_eq (yyStates_yyState w)
  have hsize : yyBp + k < g.yyBufSize + 2 := by omega
  let g₁ : YyGuts := { g with
    yyChBuf := Function.update g.yyChBuf (yyBp + k) Ascii.nul
    yytextPtr := yyBp
    yyHoldChar := g.yyChBuf (yyBp + k)
    yyCBufP := yyBp + k }
  have hfind : yyFindAction g (yyState w) (yyBp + w.length) yyBp =
      some (g₁, .doAction (yyAccept.getD (yyState (w.take k)) 0) (yyBp + k) yyBp) := by
    rw [yyFindAction, haccept]
    simp only [Option.bind_eq_bind, Option.bind_some, backUp_eq hrem hk, readChar_eq hsize,
      writeChar_eq hsize]
    rfl
  refine inevitable_step (by simp) (fun _ => hfind) ?_
  refine inevitable_step (by simp) (fun _ => yyDoAction_rule hrule _ _) (.now ?_)
  -- the text of the token, and what is ahead of it
  have hsplit : w ++ ahead = w.take k ++ (w.drop k ++ ahead) := by
    rw [← List.append_assoc, List.take_append_drop]
  have hlen : (w.take k).length = k := List.length_take_of_le hkw
  obtain ⟨htake, hdrop⟩ := holds_append.1 (hsplit ▸ h.text)
  rw [hlen] at hdrop
  have htext : g₁.text yyBp (yyBp + k - yyBp) = w.take k := by
    have hheld : Holds g₁.yyChBuf yyBp (w.take k) :=
      htake.congr fun j hj => Function.update_of_ne (by omega) _ _
    have hheldtext := hheld.text
    rw [hlen] at hheldtext
    rw [Nat.add_sub_cancel_left]
    exact hheldtext
  rw [htext]
  have hsame : ∀ i, yyBp + k ≤ i → Function.update (fun i => if yyBp ≤ i ∧ i < yyBp + k then
      left (w.take k) (i - yyBp) else g₁.yyChBuf i)
      (yyBp + k) (g.yyChBuf (yyBp + k)) i = g.yyChBuf i := by
    intro i hi
    rcases Nat.eq_or_lt_of_le hi with rfl | hlt
    · exact Function.update_self _ _ _
    · rw [Function.update_of_ne hlt.ne', if_neg (by omega)]
      exact Function.update_of_ne hlt.ne' _ _
  refine hQ _ ⟨hdrop.congr fun j _ => hsame _ (Nat.le_add_right _ _), ?_, hfits, h.size,
    ⟨?_, ?_⟩, h.new, h.eofPending⟩ rfl rfl rfl
  · show g.yyNChars = yyBp + k + 0 + (w.drop k ++ ahead).length
    rw [List.length_append, List.length_drop]
    omega
  · exact (hsame g.yyNChars (by omega)).trans h.endOfBuffer.1
  · exact (hsame (g.yyNChars + 1) (by omega)).trans h.endOfBuffer.2

/-! ## A token -/

/-- The scanner stops after no prefix of the text. After a NUL that a token ends with it does not
stop before it has tried another character. -/
def Open (w : List Byte) : Prop :=
  ∀ v c, v ++ [c] <+: w → yyState (v ++ [c]) ∈ yyStops → c = Ascii.nul ∧ yyState (v ++ [c]) ≠ 13

/-- At the beginning of a token the scanner has not stopped. -/
theorem open_nil : Open [] := by
  intro v c h
  exact absurd (List.prefix_nil.1 h) (List.append_ne_nil_of_right_ne_nil v (List.cons_ne_nil _ _))

/-- The scanner goes on after a text if it goes on after the last character of it. -/
theorem Open.concat (h : Open w)
    (hb : yyState (w ++ [b]) ∈ yyStops → b = Ascii.nul ∧ yyState (w ++ [b]) ≠ 13) :
    Open (w ++ [b]) := by
  intro v c hv hstop
  rcases List.prefix_concat_iff.1 hv with heq | hv
  · obtain ⟨rfl, hcb⟩ := List.append_inj' heq rfl
    rw [List.singleton_inj.1 hcb] at hstop ⊢
    exact hb hstop
  · exact h v c hv hstop

/-- No part of the text that the scanner reads without a stop is as long as the buffer can be. The
size of the buffer overflows beyond that. -/
def Short (p : List Byte) : Prop := ∀ w, w <:+: p → Open w → w.length + 1 < 2 ^ 30

/-- A text of less than 2^30 - 1 characters is short enough for the buffer. -/
theorem short_of_length {p : List Byte} (h : p.length + 1 < 2 ^ 30) : Short p :=
  fun _ hw _ => Nat.lt_of_le_of_lt (Nat.succ_le_succ hw.length_le) h

/-- What remains of a text that is short enough is short enough. -/
theorem Short.of_suffix {p p' : List Byte} (h : Short p) (hp : p' <:+ p) : Short p' :=
  fun w hw => h w (hw.trans hp.isInfix)

/-- No text goes on where the scanner stops. -/
theorem yyLabel_append_of_stop (hstop : yyState w ∈ yyStops) {v : List Byte}
    (hv : v ≠ []) : yyLabel (w ++ v) = none := by
  obtain ⟨c, v, rfl⟩ := List.exists_cons_of_ne_nil hv
  have hjam : yyState (w ++ c :: v) = 13 := by
    rw [yyState, List.foldl_append, List.foldl_cons]
    show v.foldl yyNext (yyNext (yyState w) c) = 13
    rw [yyNext_stop hstop, foldl_jam]
  rw [yyLabel, hjam]
  rfl

/-- A text that is not empty has a longest prefix that is accepted. -/
theorem exists_longestPrefix (hw : w ≠ []) :
    ∃ k rule, LongestPrefix (fun v => yyLabel v ≠ none) w k ∧ yyLabel (w.take k) = some rule := by
  obtain ⟨c, v, rfl⟩ := List.exists_cons_of_ne_nil hw
  have hone : yyLabel ((c :: v).take 1) ≠ none := by
    show yyLabel [c] ≠ none
    rw [yyLabel_single]
    exact Option.some_ne_none _
  have hle : 1 ≤ (c :: v).length := Nat.le_add_left 1 v.length
  obtain ⟨k, hk⟩ := LongestPrefix.exists (P := fun v => yyLabel v ≠ none) Nat.one_pos hle hone
  obtain ⟨rule, hrule⟩ := Option.ne_none_iff_exists'.1 hk.holds
  exact ⟨k, rule, hk, hrule⟩

/-- What `yylex` comes to from what is left of the input: the end of it, or the action of the
longest text that is accepted. The end of the input is seen only while the scanner does not stop. -/
inductive NextToken (events : List ScannerEvent) (seen : Prop) (p : List Byte) :
    Option (YyGuts × YyLabel) → Prop
  | returned {g : YyGuts} (hp : p = []) (hevents : g.events = events ++ [.endOfFile]) :
      NextToken events seen p (some (g, .returned))
  | token {g : YyGuts} {ahead : List Byte} {k : Nat} {rule : Option ScannerRule}
      (hk : LongestPrefix (fun v => yyLabel v ≠ none) p k) (hrule : yyLabel (p.take k) = some rule)
      (hready : Ready g ahead) (hrest : p.drop k = ahead ++ g.input)
      (hevents : g.events = events ++ [.token rule (p.take k)])
      (hseen : g.yyBufferStatus = .eofPending → seen ∨ Open p) :
      NextToken events seen p (some (g, .token))

/-- The text that the scanner has come to the end of holds the next token. -/
theorem inevitable_nextToken {p s : List Byte} {seen : Prop} (h : Reading g yyBp w ahead)
    (hrem : yyLabel w = none → Remembers g yyBp w) (hw : w ≠ []) (hp : p = w ++ s)
    (hs : s = ahead ++ g.input) (hstop : ∀ v, v ≠ [] → v <+: s → yyLabel (w ++ v) = none)
    (hseen : g.yyBufferStatus = .eofPending → seen ∨ Open p) :
    Inevitable (YylexStep left) (NextToken g.events seen p)
      (some (g, .findAction (yyState w) (yyBp + w.length) yyBp)) := by
  obtain ⟨k, rule, hk, hrule⟩ := exists_longestPrefix hw
  refine inevitable_findAction h hrem hk hrule fun g' hready hinput hevents hstatus => ?_
  have htake : p.take k = w.take k := by
    rw [hp, List.take_append_of_le_length hk.le]
  refine .token ?_ (htake ▸ hrule) hready ?_ (htake ▸ hevents) (hstatus ▸ hseen)
  · rw [hp]
    exact hk.append fun v hv hpre => not_not.2 (hstop v hv hpre)
  · rw [hp, List.drop_append_of_le_length hk.le, hs, hinput, List.append_assoc]

/-- The end of the input that is seen during a token may have been seen before it. -/
theorem NextToken.mono {events : List ScannerEvent} {seen seen' : Prop} {p : List Byte}
    {o : Option (YyGuts × YyLabel)} (h : NextToken events seen p o) (hseen : seen → seen') :
    NextToken events seen' p o := by
  cases h with
  | returned hp hevents => exact .returned hp hevents
  | token hk hrule hready hrest hevents hs =>
    exact .token hk hrule hready hrest hevents fun h => (hs h).imp_left hseen

/-- **The next token** is found, however the characters arrive. -/
theorem inevitable_match {p : List Byte} (h : Reading g yyBp w ahead) (hrem : Remembers g yyBp w)
    (hopen : Open w) (hp : p = w ++ (ahead ++ g.input)) (hshort : Short p) :
    Inevitable (YylexStep left) (NextToken g.events (g.yyBufferStatus = .eofPending) p)
      (some (g, .match (yyState w) (yyBp + w.length) yyBp)) := by
  -- each round reads a character, or more of the input
  induction hn : 2 * (ahead.length + g.input.length) + (if ahead = [] then 1 else 0)
    using Nat.strongRecOn generalizing g yyBp w ahead with
  | ind n ih =>
    have hwsize : w.length + 1 < 2 ^ 30 :=
      hshort w (hp ▸ (List.prefix_append w _).isInfix) hopen
    cases ahead with
    | nil =>
      refine inevitable_nul h ?_ fun g' status hg' hnew heof hread => ⟨fun h => absurd rfl h, ?_⟩
      · have hend := h.endOfBuffer.1
        rw [h.nChars] at hend
        exact hend
      intro _ available
      subst hg'
      refine (inevitable_refill hread rfl rfl hnew hwsize available _ ?_ ?_ ?_)
      · intro hw hinput g' hevents
        refine .returned ?_ hevents
        rw [hp, hw]
        exact hinput
      · intro hw hinput g' hrefilled hrem'
        have hrest := hrefilled.input
        rw [hinput] at hrest
        have hp' : p = w ++ [] := by
          rw [hp]
          exact congrArg (w ++ ·) hinput
        refine hrefilled.events ▸ inevitable_nextToken hrefilled.reading (fun _ => hrem') hw hp'
          hrest (fun v hv hpre => absurd (List.prefix_nil.1 hpre) hv) fun _ => .inr ?_
        rw [hp', List.append_nil]
        exact hopen
      · intro hinput g' chunk hrefilled hrem' hstatus
        have hchunk := hrefilled.nonempty hinput
        have hrest : g.input = chunk ++ g'.input := hrefilled.input
        have hlen : g.input.length = chunk.length + g'.input.length := by
          rw [hrest, List.length_append]
        have hpos := List.length_pos_of_ne_nil hchunk
        have hlt : 2 * (chunk.length + g'.input.length) + (if chunk = [] then 1 else 0) < n := by
          rw [if_neg hchunk, ← hn, if_pos rfl, hlen, List.length_nil]
          omega
        have hp' : p = w ++ (chunk ++ g'.input) := by
          rw [hp, List.nil_append, hrest]
        refine (hrefilled.events ▸ ih _ hlt hrefilled.reading hrem' hopen hp' rfl).mono
          fun o ho => ho.mono fun hs => heof.1 (hstatus.symm.trans hs)
    | cons b ahead =>
      have hp' : p = w ++ [b] ++ (ahead ++ g.input) := by
        rw [hp, List.append_assoc]
        rfl
      have hlen : yyBp + (w ++ [b]).length = yyBp + w.length + 1 := by
        rw [List.length_append, List.length_singleton, Nat.add_assoc]
      have hlt : 2 * (ahead.length + g.input.length) + (if ahead = [] then 1 else 0) < n := by
        rw [← hn, if_neg (List.cons_ne_nil b ahead), List.length_cons]
        split_ifs <;> omega
      by_cases hb : b = Ascii.nul
      · subst hb
        refine inevitable_nul h (holds_cons.1 h.rest).1 fun g' status hg' hnew heof hread =>
          ⟨fun _ => ?_, fun h => absurd h (List.cons_ne_nil _ _)⟩
        subst hg'
        obtain ⟨s, c, ptr, hrem', hnul⟩ := yyNul_eq hread rfl
        have hread' := (hread.last s c).ptr ptr
        rw [hnul]
        split_ifs with hjam
        · have hw : w ≠ [] := by
            rintro rfl
            exact absurd hjam (by decide)
          refine inevitable_nextToken hread' (fun hnone => hrem'.of_concat hnone) hw hp rfl
            (fun v hv hpre => ?_) fun hs => .inl (heof.1 hs)
          obtain ⟨c', v, rfl⟩ := List.exists_cons_of_ne_nil hv
          obtain ⟨rfl, -⟩ := List.cons_prefix_cons.1 hpre
          have hlabel : yyLabel (w ++ [Ascii.nul] ++ v) = none := by
            rw [yyLabel, yyState, List.foldl_append]
            show yyRule (yyAccept.getD (v.foldl yyNext (yyState (w ++ [Ascii.nul]))) 0) = none
            rw [hjam, foldl_jam]
            rfl
          rw [List.append_assoc] at hlabel
          exact hlabel
        · have hlabel : YyLabel.match (yyState (w ++ [Ascii.nul])) (yyBp + w.length + 1) yyBp =
              .match (yyState (w ++ [Ascii.nul])) (yyBp + (w ++ [Ascii.nul]).length) yyBp := by
            rw [hlen]
          rw [hlabel]
          exact (ih _ hlt hread'.concat hrem' (hopen.concat fun _ => ⟨rfl, hjam⟩) hp' rfl).mono
            fun o ho => ho.mono heof.1
      · obtain ⟨s, c, hrem', hmatch⟩ := yyMatch_eq h hb hrem
        have hread' := h.concat.last s c
        refine inevitable_step (by simp) (fun _ => hmatch) ?_
        rw [← hlen]
        split_ifs with hstop
        · exact inevitable_nextToken hread' (fun _ => hrem')
            (List.append_ne_nil_of_right_ne_nil w (List.cons_ne_nil b [])) hp' rfl
            (fun v hv _ => yyLabel_append_of_stop hstop hv) fun hs => .inl hs
        · exact ih _ hlt hread' hrem' (hopen.concat fun h => absurd h hstop) hp' rfl

/-! ## The whole input -/

/-- Every run of the scanner from the beginning of a token comes to the next token or to the end of
the input. -/
theorem inevitable_token {p : List Byte} (h : Ready g ahead) (hp : p = ahead ++ g.input)
    (hshort : Short p) :
    Inevitable (YylexStep left) (NextToken g.events (g.yyBufferStatus = .eofPending) p)
      (some (g, .token)) :=
  inevitable_step (by simp) (yylexStep_token h)
    (inevitable_match h remembers_nil open_nil hp hshort)

/-- The text that is taken is the next token of the rules. -/
theorem scan_of_longestPrefix {p : List Byte} {k : Nat} {rule : Option ScannerRule}
    (hk : LongestPrefix (fun v => yyLabel v ≠ none) p k) (hrule : yyLabel (p.take k) = some rule) :
    scan p = (rule, p.take k) :: scan (p.drop k) :=
  tokens_of_longest labels_yyLabel hk hrule

/-- The events of the tokens of an input. -/
def tokenEvents (p : List Byte) : List ScannerEvent := (scan p).map fun t => .token t.1 t.2

/-- All that is left of the input is made into tokens. -/
theorem inevitable_returned {p : List Byte} (h : Ready g ahead) (hp : p = ahead ++ g.input)
    (hshort : Short p) :
    Inevitable (YylexStep left) (fun o => ∃ g', o = some (g', .returned) ∧
      g'.events = g.events ++ tokenEvents p ++ [.endOfFile]) (some (g, .token)) := by
  induction hn : p.length using Nat.strongRecOn generalizing g ahead p with
  | ind n ih =>
    refine (inevitable_token h hp hshort).bind fun o ho => ?_
    cases ho with
    | returned hnil hevents =>
      have hnone : tokenEvents [] = [] := by
        rw [tokenEvents, scan, tokens]
        rfl
      refine .now ⟨_, rfl, ?_⟩
      rw [hnil, hnone, List.append_nil]
      exact hevents
    | @token g' ahead' k rule hk hrule hready hrest hevents _ =>
      have hlen : (p.drop k).length < n := by
        have hpos := hk.pos
        have hle := hk.le
        rw [List.length_drop]
        omega
      have hshort' := hshort.of_suffix (List.drop_suffix k p)
      refine (ih _ hlen hready hrest hshort' rfl).mono fun o ho => ?_
      obtain ⟨g'', rfl, hevents'⟩ := ho
      refine ⟨g'', rfl, ?_⟩
      have hevent : tokenEvents p = .token rule (p.take k) :: tokenEvents (p.drop k) := by
        rw [tokenEvents, scan_of_longestPrefix hk hrule]
        rfl
      rw [hevents', hevents, hevent]
      simp only [List.append_assoc, List.cons_append, List.nil_append]

/-- The scanner of `yylex_init` is at the beginning of a token, with nothing read ahead. -/
theorem ready_start (garbage : Nat → Byte) (input : List Byte) :
    Ready (yylexStart garbage input) [] where
  text := holds_nil
  nChars := rfl
  fits := Nat.zero_le _
  size := show 0 < yyBufSize₀ by decide
  endOfBuffer := ⟨rfl, rfl⟩
  new := fun _ => rfl
  eofPending := fun h => absurd h (by simp [yylexStart])

/-- **The generated scanner implements the rules.** However `read` cuts the input, `yylex` reads all
of it, without an access outside of its buffer and its tables, makes the tokens of the rules, in
order, and returns after the end of the input. -/
theorem yylex_implements (left : List Byte → Nat → Byte) (garbage : Nat → Byte) {input : List Byte}
    (hshort : Short input) :
    Inevitable (YylexStep left)
      (fun o => ∃ g, o = some (g, .returned) ∧
        g.events = (scan input).map (fun t => .token t.1 t.2) ++ [.endOfFile])
      (some (yylexStart garbage input, .token)) :=
  inevitable_returned (ready_start garbage input) rfl hshort

/-- The scanner reads the packet of `g`. -/
theorem yylex_implements_packet :
    Inevitable (YylexStep fun _ _ => 0)
      (fun o => ∃ g, o = some (g, .returned) ∧
        g.events = [.token (some .packet) (packetText [0x67] 0x36 0x37), .endOfFile])
      (some (yylexStart (fun _ => 0xFF) (packetText [0x67] 0x36 0x37), .token)) := by
  have hpacket : PacketToken [0x67] 0x36 0x37 := ⟨by decide, by decide, by decide⟩
  have hscan := scan_packet hpacket []
  rw [List.append_nil, scan, scan, tokens.eq_def _ []] at hscan
  have hrun := yylex_implements (fun _ _ => 0) (fun _ => 0xFF)
    (short_of_length (by decide : (packetText [0x67] 0x36 0x37).length + 1 < 2 ^ 30))
  rw [scan, hscan] at hrun
  exact hrun

/-- No packet has begun in the text and is not complete: no end of it is the beginning of a packet.
-/
def Settled (p : List Byte) : Prop :=
  ∀ u, u <:+ p → u ≠ [] → ∀ s, s ≠ [] → u ++ s ∉ packetPattern.matches'

section
variable {p q : List Byte}

/-- What remains of a settled text is settled. -/
theorem Settled.of_suffix (h : Settled p) (hq : q <:+ p) : Settled q :=
  fun u hu => h u (hu.trans hq)

/-- A text that begins a packet can be completed to one: the scanner that has not stopped is in one
of the states of a packet. -/
theorem exists_packet_of_open (hne : p ≠ []) (hstop : yyState p ∉ yyStops) :
    ∃ s, s ≠ [] ∧ p ++ s ∈ packetPattern.matches' := by
  obtain ⟨b, w, rfl⟩ := List.exists_cons_of_ne_nil hne
  obtain rfl : b = Ascii.dollar := by
    by_contra hb
    refine hstop ?_
    cases w with
    | nil => exact yyNext_first_stop hb
    | cons c w =>
      rw [yyState_jam hb]
      decide
  -- the scanner is before the end of a packet, since it stops there
  have hstate : yyState (Ascii.dollar :: w) ∈ [6, 9, 10, 11] := by
    cases w with
    | nil => decide
    | cons c w =>
      exact (by decide : ∀ s ∈ [9, 10, 11, 12, 13], s ∉ yyStops → s ∈ [6, 9, 10, 11]) _
        (yyState_dollar c w) hstop
  obtain ⟨s, hs, hend⟩ := exists_foldl_end hstate
  have hdollar : yyState (Ascii.dollar :: w) = w.foldl yyNext 6 := rfl
  refine ⟨s, hs, mem_packetPattern.2 ?_⟩
  rw [hdollar, ← List.foldl_append] at hend
  obtain ⟨payload, c, d, ht, hrest⟩ := (foldl_rest (.inl rfl)).1 hend
  exact ⟨payload, c, d, ht, congrArg (Ascii.dollar :: ·) hrest⟩

/-- The scanner has stopped in a settled text. -/
theorem Settled.exists_stop (h : Settled p) (hne : p ≠ []) : yyState p ∈ yyStops := by
  by_contra hstop
  obtain ⟨s, hs, hpacket⟩ := exists_packet_of_open hne hstop
  exact h p List.suffix_rfl hne s hs hpacket

/-- Whatever follows a settled text, the scanner stops in it, unless it ends with a NUL. -/
theorem Settled.not_open (h : Settled p) (hne : p ≠ []) (hlast : p.getLast? ≠ some Ascii.nul)
    (rest : List Byte) : ¬ Open (p ++ rest) := by
  intro hopen
  have hstop := h.exists_stop hne
  rw [← List.dropLast_append_getLast hne] at hstop
  have hprefix : p.dropLast ++ [p.getLast hne] <+: p ++ rest := by
    rw [List.dropLast_append_getLast]
    exact List.prefix_append p rest
  have hnul := (hopen _ _ hprefix hstop).1
  rw [List.getLast?_eq_some_getLast hne, hnul] at hlast
  exact hlast rfl

/-- Whatever follows a settled text, its first token is the same. -/
theorem Settled.longestPrefix (h : Settled p) (hne : p ≠ []) {rest : List Byte} {k : Nat}
    (hk : LongestPrefix (fun v => yyLabel v ≠ none) (p ++ rest) k) :
    LongestPrefix (fun v => yyLabel v ≠ none) p k := by
  obtain ⟨k', _, hk', -⟩ := exists_longestPrefix hne
  have hsame := hk'.append (s := rest) fun v hv _ =>
    not_not.2 (yyLabel_append_of_stop (h.exists_stop hne) hv)
  exact hk.unique hsame ▸ hk'

/-- What has been settled is settled with what is settled after it. -/
theorem Settled.append (hp : Settled p) (hq : Settled q) : Settled (p ++ q) := by
  intro u hu hne s hs hpacket
  obtain ⟨w, hw⟩ := hu
  rcases List.append_eq_append_iff.1 hw with ⟨v, rfl, rfl⟩ | ⟨v, rfl, rfl⟩
  · by_cases hv : v = []
    · subst hv
      exact hq q List.suffix_rfl hne s hs hpacket
    · rw [List.append_assoc] at hpacket
      exact hp v (List.suffix_append w v) hv _ (List.append_ne_nil_of_right_ne_nil q hs) hpacket
  · exact hq u (List.suffix_append v u) hne s hs hpacket

/-- A character other than `$` begins no packet. -/
theorem settled_singleton {c : Byte} (hc : c ≠ Ascii.dollar) : Settled [c] := by
  intro u hu hne s _ hpacket
  obtain ⟨payload, d, e, -, htext⟩ := mem_packetPattern.1 hpacket
  obtain rfl : u = [c] := (List.suffix_cons_iff.1 hu).resolve_right fun h =>
    hne (List.suffix_nil.1 h)
  exact hc (List.cons.inj htext).1

/-- A packet settles whatever comes before it. -/
theorem settled_append_packet (w : List Byte) (hq : q ∈ packetPattern.matches') :
    Settled (w ++ q) := by
  obtain ⟨payload, c, d, -, rfl⟩ := mem_packetPattern.1 hq
  have hfirst := onlyFirst_dollar (.packet, packetPattern) (by simp [scannerRules])
  intro u hu hne s hs hpacket
  have hself : packetText payload c d ++ s ∉ packetPattern.matches' := by
    intro hmem
    have hsame := prefixFree_packetPattern _ hq _ hmem (List.prefix_append _ s)
    exact hs (List.append_right_eq_self.1 hsame.symm)
  -- a packet that goes on behind the text can only begin where this one does
  have hdollar : ∀ t : List Byte, t ≠ [] → t ++ packetText payload c d ++ s ∉
      packetPattern.matches' := by
    intro t ht hmem
    obtain ⟨b, t, rfl⟩ := List.exists_cons_of_ne_nil ht
    refine hfirst _ hmem ?_
    simp [packetText]
  obtain ⟨w', hw'⟩ := hu
  rcases List.append_eq_append_iff.1 hw' with ⟨v, rfl, rfl⟩ | ⟨v, rfl, hv⟩
  · by_cases hvnil : v = []
    · subst hvnil
      exact hself hpacket
    · exact hdollar v hvnil hpacket
  · -- and the end of a packet has no `$`
    by_cases hvnil : v = []
    · subst hvnil
      rw [List.nil_append] at hv
      subst hv
      exact hself hpacket
    · obtain ⟨b, v, rfl⟩ := List.exists_cons_of_ne_nil hvnil
      obtain ⟨payload', c', d', -, htext⟩ := mem_packetPattern.1 hpacket
      obtain ⟨b', u, rfl⟩ := List.exists_cons_of_ne_nil hne
      obtain rfl : b' = Ascii.dollar := (List.cons.inj htext).1
      refine hfirst _ hq ?_
      rw [hv]
      simp

end

section
variable {left : List Byte → Nat → Byte} {g : YyGuts} {ahead p rest : List Byte}

/-- The tokens of a settled text are acted on, and no end of the input is seen. -/
theorem inevitable_settled (h : Ready g ahead) (hp : p ++ rest = ahead ++ g.input)
    (hstatus : g.yyBufferStatus ≠ .eofPending) (hsettled : Settled p)
    (hlast : p.getLast? ≠ some Ascii.nul) (hshort : Short (p ++ rest)) :
    Inevitable (YylexStep left)
      (fun o => ∃ g' ahead', o = some (g', .token) ∧ Ready g' ahead' ∧
        rest = ahead' ++ g'.input ∧ g'.yyBufferStatus ≠ .eofPending ∧
        g'.events = g.events ++ tokenEvents p) (some (g, .token)) := by
  induction hn : p.length using Nat.strongRecOn generalizing g ahead p with
  | ind n ih =>
    by_cases hne : p = []
    · subst hne
      have hnone : tokenEvents [] = [] := by
        rw [tokenEvents, scan, tokens]
        rfl
      refine .now ⟨g, ahead, rfl, h, hp, hstatus, ?_⟩
      rw [hnone, List.append_nil]
    · refine (inevitable_token h hp hshort).bind fun o ho => ?_
      have hopen := hsettled.not_open hne hlast rest
      cases ho with
      | returned hnil _ => exact absurd (hnil ▸ open_nil) hopen
      | @token g' ahead' k rule hk hrule hready hrest hevents hseen =>
        have hk' := hsettled.longestPrefix hne hk
        have hpos := hk'.pos
        have hle := hk'.le
        rw [List.take_append_of_le_length hle] at hrule hevents
        rw [List.drop_append_of_le_length hle] at hrest
        have hlt : (p.drop k).length < n := by
          rw [List.length_drop]
          omega
        have hlast' : (p.drop k).getLast? ≠ some Ascii.nul := by
          rw [List.getLast?_drop]
          split_ifs
          · exact (Option.some_ne_none _).symm
          · exact hlast
        have hshort' : Short (p.drop k ++ rest) := by
          refine hshort.of_suffix ?_
          rw [← List.drop_append_of_le_length hle]
          exact List.drop_suffix k _
        have hstatus' : g'.yyBufferStatus ≠ .eofPending := fun h => (hseen h).elim hstatus hopen
        refine (ih _ hlt hready hrest hstatus' (hsettled.of_suffix (List.drop_suffix k p)) hlast'
          hshort' rfl).mono fun o ho => ?_
        obtain ⟨g'', ahead'', rfl, hready'', hrest', hstatus'', hevents'⟩ := ho
        refine ⟨g'', ahead'', rfl, hready'', hrest', hstatus'', ?_⟩
        have hevent : tokenEvents p = .token rule (p.take k) :: tokenEvents (p.drop k) := by
          rw [tokenEvents, scan_of_longestPrefix hk' hrule]
          rfl
        rw [hevents', hevents, hevent]
        simp only [List.append_assoc, List.cons_append, List.nil_append]

end

/-- **A scanner that waits has acted.** Whatever follows it and however it arrives, the tokens of a
text in which no packet is left unfinished are acted on before the end of the input is seen: after a
packet, whatever came before it, `yylex` does not wait for more than the packet. Only after a NUL it
waits for the next character. -/
theorem yylex_prompt (left : List Byte → Nat → Byte) (garbage : Nat → Byte) {p : List Byte}
    (hp : Settled p) (hlast : p.getLast? ≠ some Ascii.nul) (rest : List Byte)
    (hshort : Short (p ++ rest)) :
    Inevitable (YylexStep left)
      (fun o => ∃ g ahead, o = some (g, .token) ∧ Ready g ahead ∧ rest = ahead ++ g.input ∧
        g.yyBufferStatus ≠ .eofPending ∧ g.events = tokenEvents p)
      (some (yylexStart garbage (p ++ rest), .token)) :=
  inevitable_settled (ready_start garbage _) rfl (by simp [yylexStart]) hp hlast hshort

/-- An acknowledgement, the beginning of another packet, and the packet of `g` are read, and
the packet is acted on before `yylex` waits for another character. -/
theorem yylex_prompt_packet : Inevitable (YylexStep fun _ _ => 0)
    (fun o => ∃ g ahead, o = some (g, .token) ∧ Ready g ahead ∧ [] = ahead ++ g.input ∧
      g.yyBufferStatus ≠ .eofPending ∧ g.events = tokenEvents [Ascii.plus, Ascii.dollar, 0x78] ++
        [.token (some .packet) (packetText [0x67] 0x36 0x37)])
    (some (yylexStart (fun _ => 0xFF)
      ([Ascii.plus, Ascii.dollar, 0x78] ++ packetText [0x67] 0x36 0x37), .token)) := by
  have hpacket : packetText [0x67] 0x36 0x37 ∈ packetPattern.matches' :=
    mem_packetPattern.2 ⟨_, _, _, ⟨by decide, by decide, by decide⟩, rfl⟩
  have hsettled : Settled ([Ascii.plus] ++ ([Ascii.dollar, 0x78] ++ packetText [0x67] 0x36 0x37)) :=
    (settled_singleton (by decide)).append (settled_append_packet _ hpacket)
  have hrun := yylex_prompt (fun _ _ => 0) (fun _ => 0xFF) hsettled (by decide) []
    (short_of_length (by decide))
  rw [List.append_nil, ← List.append_assoc] at hrun
  have hscan := scan_append_packet hpacket [Ascii.plus, Ascii.dollar, 0x78]
  have htokens : tokenEvents ([Ascii.plus] ++ [Ascii.dollar, 0x78] ++ packetText [0x67] 0x36 0x37) =
      tokenEvents [Ascii.plus, Ascii.dollar, 0x78] ++
        [.token (some .packet) (packetText [0x67] 0x36 0x37)] := by
    rw [tokenEvents, List.singleton_append, hscan, List.map_append]
    rfl
  rw [htokens] at hrun
  exact hrun

end

end ArmSimulator
