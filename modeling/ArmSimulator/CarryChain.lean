import ArmSimulator.Carry

/-!
# Carry-chained arithmetic

ADC, SBC and RSC call `add_carry` or `sub_carry` twice, and then `add_overflow` or `sub_overflow`
twice. The second pair takes the carry that the first one has just left, not the one before the
instruction, and stores the result. So the result is right only where the first sum or difference
overflows, or the carry has not changed. `chained_iff` says for which operands the result is right,
and for which the flags are right as well.
-/

namespace ArmSimulator

/-! ## The chain of two calls -/

section
variable (f : Word → Word → Bool × Word) (a b c result : Word)

/-- The flag of a chain is set if either step sets it. -/
theorem chain_fst : (chain f a b c result).1 = ((f a b).1 || (f (f a b).2 c).1) := by
  unfold chain
  cases h : (f a b).1 with
  | true => simp [h]
  | false => simp [h]

/-- The result of a chain is that of the second step, unless the first step set the flag. -/
theorem chain_snd :
    (chain f a b c result).2 = if (f a b).1 then result else (f (f a b).2 c).2 := by
  unfold chain
  cases h : (f a b).1 with
  | true => simp [h]
  | false => simp [h]

variable {f a b c result}

/-- The flag of a chain is set by the first call, or else by the second one. -/
theorem chain_flag {P Q : Prop} (hfirst : (f a b).1 = true ↔ P)
    (hsecond : ¬ P → ((f (f a b).2 c).1 = true ↔ Q)) :
    (chain f a b c result).1 = true ↔ P ∨ Q := by
  rw [chain_fst, Bool.or_eq_true, hfirst]
  exact or_congr_right' hsecond

end

section
variable {f g : Word → Word → Bool × Word} {op : Word → Word → Word}

/-- What two chains of the same operation store: the second one stores again what the first one has
stored, or the operation with the other carry. -/
theorem chain_chain_snd (hf : ∀ a b, (f a b).2 = op a b) (hg : ∀ a b, (g a b).2 = op a b)
    (a b c c' : Word) :
    (chain g a b c' (chain f a b c (op (op a b) c)).2).2 =
      op (op a b) (if (g a b).1 = true then c else c') := by
  have hfirst : (chain f a b c (op (op a b) c)).2 = op (op a b) c := by
    rw [chain_snd, hf, hf, ite_self]
  rw [hfirst, chain_snd, hg, hg]
  split_ifs
  · rfl
  · rfl

end

/-! ## Signed overflow -/

/-- The number is the value of no `int32_t`. -/
abbrev Overflows (x : Int) : Prop := x < -2 ^ 31 ∨ 2 ^ 31 ≤ x

/-- A flag is 0 or 1 as an integer. -/
theorem toInt_flagWord (b : Bool) : (flagWord b).toInt = if b = true then 1 else 0 := by
  cases b with
  | false => rfl
  | true => rfl

section
variable {a b : Word}

/-- A sum of words is that of the integers where it fits. -/
theorem toInt_add_word (h : ¬ Overflows (a.toInt + b.toInt)) :
    (a + b).toInt = a.toInt + b.toInt := by
  rw [toInt_word, toInt_word] at *
  rw [toInt_word, BitVec.toNat_add]
  split_ifs at * <;> omega

/-- A difference of words is that of the integers where it fits. -/
theorem toInt_sub_word (h : ¬ Overflows (a.toInt - b.toInt)) :
    (a - b).toInt = a.toInt - b.toInt := by
  rw [toInt_word, toInt_word] at *
  rw [toInt_word, BitVec.toNat_sub]
  split_ifs at * <;> omega

/-- A flag is not negative. -/
theorem not_toInt_flagWord_neg (c : Bool) : ¬ (flagWord c).toInt < 0 := by
  cases c with
  | false => decide
  | true => decide

/-- With a flag a sum that does not overflow without it overflows at the greatest number only. -/
theorem overflows_add_flagWord (h : ¬ Overflows (a.toInt + b.toInt)) (c : Bool) :
    Overflows ((a + b).toInt + (flagWord c).toInt) ↔
      c = true ∧ a.toInt + b.toInt = 2 ^ 31 - 1 := by
  rw [toInt_add_word h, toInt_flagWord]
  cases c with
  | false => simp [h]
  | true => simp; omega

/-- With a flag a difference that does not overflow without it overflows at the least number only.
-/
theorem overflows_sub_flagWord (h : ¬ Overflows (a.toInt - b.toInt)) (c : Bool) :
    Overflows ((a - b).toInt - (flagWord c).toInt) ↔
      c = true ∧ a.toInt - b.toInt = -2 ^ 31 := by
  rw [toInt_sub_word h, toInt_flagWord]
  cases c with
  | false => simp [h]
  | true => simp; omega

variable (a b)

/-- `add_overflow` reports a sum of signed integers that does not fit. -/
theorem addOverflow_eq_true : (addOverflow a b).1 = true ↔ Overflows (a.toInt + b.toInt) := by
  simp [addOverflow, BitVec.saddOverflow, or_comm]

/-- `sub_overflow` reports a difference of signed integers that does not fit. -/
theorem subOverflow_eq_true : (subOverflow a b).1 = true ↔ Overflows (a.toInt - b.toInt) := by
  simp [subOverflow, BitVec.ssubOverflow, or_comm]

/-- The flag of `add_carry`, in the operands: a wrapped sum is less than the first operand where the
second one is negative. -/
theorem addCarry_signed :
    (addCarry a b).1 = true ↔ Overflows (a.toInt + b.toInt) ∨ b.toInt < 0 := by
  rw [addCarry_eq_true]
  by_cases h : Overflows (a.toInt + b.toInt)
  · exact iff_of_true (by omega) (.inl h)
  · rw [toInt_add_word h]
    omega

/-- `sub_carry` reports a difference of signed integers that does not fit, or a negative second
operand. -/
theorem subCarry_signed :
    (subCarry a b).1 = true ↔ Overflows (a.toInt - b.toInt) ∨ b.toInt < 0 := by
  rw [subCarry_eq_true]
  by_cases h : Overflows (a.toInt - b.toInt)
  · exact iff_of_true (by omega) (.inl h)
  · rw [toInt_sub_word h]
    omega

end

/-! ## The flags and the result of a chain -/

section
variable (a b : Word) (c : Bool) (result : Word)

/-- The carry chain of a sum is set by an overflow of the operands, by a negative second one, or by
the carry where their sum is the greatest number. -/
theorem addChain_carry : (chain addCarry a b (flagWord c) result).1 = true ↔
    Overflows (a.toInt + b.toInt) ∨ b.toInt < 0 ∨
      (c = true ∧ a.toInt + b.toInt = 2 ^ 31 - 1) := by
  refine (chain_flag (addCarry_signed a b) fun h => ?_).trans or_assoc
  have hsum := overflows_add_flagWord (not_or.1 h).1 c
  exact (addCarry_signed _ _).trans ((or_iff_left (not_toInt_flagWord_neg c)).trans hsum)

/-- The carry that a difference leaves, with the borrow `c`. -/
theorem subChain_carry : (chain subCarry a b (flagWord c) result).1 = true ↔
    Overflows (a.toInt - b.toInt) ∨ b.toInt < 0 ∨
      (c = true ∧ a.toInt - b.toInt = -2 ^ 31) := by
  refine (chain_flag (subCarry_signed a b) fun h => ?_).trans or_assoc
  have hdifference := overflows_sub_flagWord (not_or.1 h).1 c
  exact (subCarry_signed _ _).trans ((or_iff_left (not_toInt_flagWord_neg c)).trans hdifference)

/-- The overflow chain of a sum is set by an overflow of the operands, or by the carry where their
sum is the greatest number. -/
theorem addChain_overflow : (chain addOverflow a b (flagWord c) result).1 = true ↔
    Overflows (a.toInt + b.toInt) ∨ (c = true ∧ a.toInt + b.toInt = 2 ^ 31 - 1) :=
  chain_flag (addOverflow_eq_true a b) fun h =>
    (addOverflow_eq_true _ _).trans (overflows_add_flagWord h c)

/-- The overflow chain of a difference is set by an overflow of the operands, or by `c` where their
difference is the least number. -/
theorem subChain_overflow : (chain subOverflow a b (flagWord c) result).1 = true ↔
    Overflows (a.toInt - b.toInt) ∨ (c = true ∧ a.toInt - b.toInt = -2 ^ 31) :=
  chain_flag (subOverflow_eq_true a b) fun h =>
    (subOverflow_eq_true _ _).trans (overflows_sub_flagWord h c)

end

/-! ## What ADC and SBC leave -/

section
variable (a b : Word) (c carryOut v : Bool)

/-- `ADC` stores the sum with the carry from before where the operands overflow, and else with the
new one. -/
theorem adc_result : (opcodeResult Opcode.ADC a b carryOut c v).result = a + b +
    flagWord (if Overflows (a.toInt + b.toInt) then c
      else (opcodeResult Opcode.ADC a b carryOut c v).cBit) := by
  have h := chain_chain_snd (f := addCarry) (g := addOverflow) (fun _ _ => rfl) (fun _ _ => rfl) a b
    (flagWord c) (flagWord (opcodeResult Opcode.ADC a b carryOut c v).cBit)
  simp only [addOverflow_eq_true, ← apply_ite flagWord] at h
  exact h

/-- `SBC` stores the difference with the borrow from before where the operands overflow, and else
with the new one. -/
theorem sbc_result : (opcodeResult Opcode.SBC a b carryOut c v).result = a - b -
    flagWord !(if Overflows (a.toInt - b.toInt) then c
      else (opcodeResult Opcode.SBC a b carryOut c v).cBit) := by
  have h := chain_chain_snd (f := subCarry) (g := subOverflow) (fun _ _ => rfl) (fun _ _ => rfl) a b
    (flagWord !c) (flagWord !(opcodeResult Opcode.SBC a b carryOut c v).cBit)
  simp only [subOverflow_eq_true, ← apply_ite flagWord, ← apply_ite not] at h
  exact h

/-- The C flag of `ADC` is set by an overflow of either addition, or by a negative second operand.
-/
theorem adc_cBit : (opcodeResult Opcode.ADC a b carryOut c v).cBit = true ↔
    Overflows (a.toInt + b.toInt) ∨ b.toInt < 0 ∨
      (c = true ∧ a.toInt + b.toInt = 2 ^ 31 - 1) :=
  addChain_carry a b c _

/-- The C flag of `SBC` is set by an overflow of either subtraction, or by a negative second
operand. -/
theorem sbc_cBit : (opcodeResult Opcode.SBC a b carryOut c v).cBit = true ↔
    Overflows (a.toInt - b.toInt) ∨ b.toInt < 0 ∨
      (c = false ∧ a.toInt - b.toInt = -2 ^ 31) := by
  have h := subChain_carry a b (!c) (a - b - flagWord !c)
  rw [Bool.not_eq_true'] at h
  exact h

/-- The V flag of `ADC` is set by an overflow of the first addition, or of the addition of the C
flag that the code computed. -/
theorem adc_vBit : (opcodeResult Opcode.ADC a b carryOut c v).vBit = true ↔
    Overflows (a.toInt + b.toInt) ∨ ((opcodeResult Opcode.ADC a b carryOut c v).cBit = true ∧
      a.toInt + b.toInt = 2 ^ 31 - 1) :=
  addChain_overflow a b _ _

/-- The V flag of `SBC` is set by an overflow of the first subtraction, or of the subtraction of the
C flag that the code computed. -/
theorem sbc_vBit : (opcodeResult Opcode.SBC a b carryOut c v).vBit = true ↔
    Overflows (a.toInt - b.toInt) ∨ ((opcodeResult Opcode.SBC a b carryOut c v).cBit = false ∧
      a.toInt - b.toInt = -2 ^ 31) := by
  have h := subChain_overflow a b (!(opcodeResult Opcode.SBC a b carryOut c v).cBit)
    (chain subCarry a b (flagWord !c) (a - b - flagWord !c)).2
  rw [Bool.not_eq_true'] at h
  exact h

end

/-! ## The claim of the manual -/

/-- The exact result of an opcode with the carry `c`, of unsigned or of signed operands. -/
def chainedExact (opcode : Byte) (rn operand : Int) (c : Bool) : Int :=
  if opcode = Opcode.ADC then rn + operand + c.toInt
  else if opcode = Opcode.SBC then rn - operand - (1 - c.toInt)
  else operand - rn - (1 - c.toInt)

/-- The carry of the architecture: a sum that reaches 2^32, a difference that does not borrow. -/
def chainedCarry (opcode : Byte) (rn operand : Word) (c : Bool) : Bool :=
  if opcode = Opcode.ADC then 2 ^ 32 ≤ chainedExact opcode rn.toNat operand.toNat c
  else 0 ≤ chainedExact opcode rn.toNat operand.toNat c

/-- The operands for which the code stores the sum with the carry. -/
def SumStored (a b : Int) (c : Bool) : Prop :=
  Overflows (a + b) ∨ if c then b < 0 ∨ a + b = 2 ^ 31 - 1 else 0 ≤ b

/-- The sums for which the flags are right as well. -/
def SumFlagged (a b : Int) (c : Bool) : Prop :=
  if Overflows (a + b) then a + b + c.toInt < -2 ^ 31
  else if c then b < 0 ∧ (a < 0 ∨ -1 ≤ a + b)
  else 0 ≤ b ∧ (0 ≤ a ∨ a + b < 0)

/-- The operands for which the code stores the difference with the borrow. -/
def DifferenceStored (a b : Int) (c : Bool) : Prop :=
  Overflows (a - b) ∨ if c then b < 0 else 0 ≤ b ∧ a - b ≠ -2 ^ 31

/-- The differences for which the flags are right as well. -/
def DifferenceFlagged (a b : Int) (c : Bool) : Prop :=
  if Overflows (a - b) then a - b < -2 ^ 31
  else if c then a < 0 ∧ b ≤ a
  else 0 ≤ a ∧ a ≤ b

section
variable (a b : Word) (c carryOut v : Bool)

/-- Different flags are different words. -/
theorem flagWord_inj {b c : Bool} : flagWord b = flagWord c ↔ b = c := by
  revert b c
  decide

/-- A word is as an unsigned number 2^32 more than as a signed one where the latter is negative. -/
theorem toNat_of_toInt (a : Word) :
    (a.toNat : Int) = if a.toInt < 0 then a.toInt + 2 ^ 32 else a.toInt := by
  rw [toInt_word]
  split_ifs <;> omega

/-- `ADC` stores the sum with the carry exactly when its own carry is the flag. -/
theorem adc_result_iff : (opcodeResult Opcode.ADC a b carryOut c v).result = a + b + flagWord c ↔
    SumStored a.toInt b.toInt c := by
  rw [adc_result, BitVec.add_right_inj, flagWord_inj, SumStored]
  by_cases h : Overflows (a.toInt + b.toInt)
  · rw [if_pos h]
    exact iff_of_true rfl (.inl h)
  · rw [if_neg h]
    cases c with
    | false =>
      rw [← Bool.not_eq_true, adc_cBit]
      simp [h]
    | true =>
      rw [adc_cBit]
      simp [h]

/-- `SBC` stores the difference with the borrow exactly when its own carry is the flag. -/
theorem sbc_result_iff : (opcodeResult Opcode.SBC a b carryOut c v).result = a - b - flagWord !c ↔
    DifferenceStored a.toInt b.toInt c := by
  rw [sbc_result, BitVec.sub_right_inj, flagWord_inj, Bool.not_inj_iff, DifferenceStored]
  by_cases h : Overflows (a.toInt - b.toInt)
  · rw [if_pos h]
    exact iff_of_true rfl (.inl h)
  · rw [if_neg h]
    cases c with
    | false =>
      rw [← Bool.not_eq_true, sbc_cBit]
      simp [h]
    | true =>
      rw [sbc_cBit]
      simp [h]

/-- `ADC` stores the sum and sets the flags as the architecture does under the condition, and only
then. -/
theorem adc_flags_iff :
    ((opcodeResult Opcode.ADC a b carryOut c v).result = a + b + flagWord c ∧
      (opcodeResult Opcode.ADC a b carryOut c v).cBit =
        decide (2 ^ 32 ≤ (a.toNat : Int) + b.toNat + c.toInt) ∧
      (opcodeResult Opcode.ADC a b carryOut c v).vBit =
        decide (Overflows (a.toInt + b.toInt + c.toInt))) ↔ SumFlagged a.toInt b.toInt c := by
  have ha := a.toInt_lt
  have ha' := a.le_toInt
  have hb := b.toInt_lt
  have hb' := b.le_toInt
  rw [adc_result_iff, Bool.eq_iff_iff, @Bool.eq_iff_iff (OpcodeResult.vBit _), adc_vBit, adc_cBit,
    decide_eq_true_eq, decide_eq_true_eq, toNat_of_toInt, toNat_of_toInt]
  generalize a.toInt = x at *
  generalize b.toInt = y at *
  by_cases h : Overflows (x + y)
  · simp only [SumStored, SumFlagged, h, true_or, if_true, true_and, true_iff]
    cases c with
    | false =>
      rw [Bool.toInt_false]
      split_ifs <;> omega
    | true =>
      rw [Bool.toInt_true]
      split_ifs <;> omega
  · simp only [SumStored, SumFlagged, h, false_or, if_false]
    cases c with
    | false =>
      rw [Bool.toInt_false]
      simp
      split_ifs <;> omega
    | true =>
      rw [Bool.toInt_true]
      simp
      split_ifs <;> omega

/-- `SBC` stores the difference and sets the flags as the architecture does under the condition, and
only then. -/
theorem sbc_flags_iff :
    ((opcodeResult Opcode.SBC a b carryOut c v).result = a - b - flagWord !c ∧
      (opcodeResult Opcode.SBC a b carryOut c v).cBit =
        decide (0 ≤ (a.toNat : Int) - b.toNat - (1 - c.toInt)) ∧
      (opcodeResult Opcode.SBC a b carryOut c v).vBit =
        decide (Overflows (a.toInt - b.toInt - (1 - c.toInt)))) ↔
      DifferenceFlagged a.toInt b.toInt c := by
  have ha := a.toInt_lt
  have ha' := a.le_toInt
  have hb := b.toInt_lt
  have hb' := b.le_toInt
  rw [sbc_result_iff, Bool.eq_iff_iff, @Bool.eq_iff_iff (OpcodeResult.vBit _), sbc_vBit,
    ← Bool.not_eq_true (OpcodeResult.cBit _), sbc_cBit, decide_eq_true_eq, decide_eq_true_eq,
    toNat_of_toInt, toNat_of_toInt]
  generalize a.toInt = x at *
  generalize b.toInt = y at *
  by_cases h : Overflows (x - y)
  · simp only [DifferenceStored, DifferenceFlagged, h, true_or, if_true, true_and, true_iff]
    cases c with
    | false =>
      rw [Bool.toInt_false]
      split_ifs <;> omega
    | true =>
      rw [Bool.toInt_true]
      split_ifs <;> omega
  · simp only [DifferenceStored, DifferenceFlagged, h, false_or, if_false]
    cases c with
    | false =>
      rw [Bool.toInt_false]
      simp
      split_ifs <;> omega
    | true =>
      rw [Bool.toInt_true]
      simp
      split_ifs <;> omega

end

/-- The opcodes with a carry. -/
def chainedOpcodes : List Byte := [Opcode.ADC, Opcode.SBC, Opcode.RSC]

/-- The value of the result. -/
def chainedValue (opcode : Byte) (rn operand : Word) (c : Bool) : Word :=
  BitVec.ofInt 32 (chainedExact opcode rn.toNat operand.toNat c)

/-- The operands for which the code does what the architecture says. -/
def ChainedAgrees (opcode : Byte) (sBit : Bool) (rn operand : Word) (c : Bool) : Prop :=
  if opcode = Opcode.ADC then
    if sBit then SumFlagged rn.toInt operand.toInt c else SumStored rn.toInt operand.toInt c
  else if opcode = Opcode.SBC then
    if sBit then DifferenceFlagged rn.toInt operand.toInt c
    else DifferenceStored rn.toInt operand.toInt c
  else
    if sBit then DifferenceFlagged operand.toInt rn.toInt c
    else DifferenceStored operand.toInt rn.toInt c

/-- The result and the flags of `data_processing` are those of the architecture. -/
structure ChainedCorrect (opcode rd : Byte) (sBit : Bool) (rn operand : Word) (p p' : ArmCore) :
    Prop where
  result : p'.reg.genreg =
    (p.write rd (chainedValue opcode rn operand (getBit p.reg.cpsr Flag.C))).reg.genreg
  negative : sBit = true → getBit p'.reg.cpsr Flag.N =
    getBit (chainedValue opcode rn operand (getBit p.reg.cpsr Flag.C)) 31
  zero : sBit = true → getBit p'.reg.cpsr Flag.Z =
    (chainedValue opcode rn operand (getBit p.reg.cpsr Flag.C) == 0)
  carry : sBit = true → getBit p'.reg.cpsr Flag.C =
    chainedCarry opcode rn operand (getBit p.reg.cpsr Flag.C)
  overflow : sBit = true → getBit p'.reg.cpsr Flag.V =
    decide (Overflows
      (chainedExact opcode rn.toInt operand.toInt (getBit p.reg.cpsr Flag.C)))

/-- The sum of the unsigned numbers and the carry, cut to a word, is the sum of the words. -/
theorem ofInt_sum (a b : Word) (c : Bool) :
    BitVec.ofInt 32 (a.toNat + b.toNat + c.toInt) = a + b + flagWord c := by
  rw [BitVec.ofInt_add, BitVec.ofInt_add, BitVec.ofInt_natCast, BitVec.ofInt_natCast]
  cases c with
  | false => simp [flagWord]
  | true => simp [flagWord]

/-- The difference of the unsigned numbers and the borrow, cut to a word, is the difference of the
words. -/
theorem ofInt_difference (a b : Word) (c : Bool) :
    BitVec.ofInt 32 (a.toNat - b.toNat - (1 - c.toInt)) = a - b - flagWord !c := by
  rw [Int.sub_eq_add_neg, Int.sub_eq_add_neg, BitVec.ofInt_add, BitVec.ofInt_add, BitVec.ofInt_neg,
    BitVec.ofInt_natCast, BitVec.ofInt_natCast]
  cases c with
  | false => simp [flagWord, BitVec.sub_eq_add_neg]
  | true => simp [flagWord, BitVec.sub_eq_add_neg]

/-- The flags count with `S = 1` only. -/
theorem withFlags_iff {sBit : Bool} {P Q S F : Prop} (hresult : P ↔ S) (hflags : P ∧ Q ↔ F) :
    (P ∧ (sBit = true → Q)) ↔ if sBit then F else S := by
  cases sBit with
  | false => exact (and_iff_left fun h => absurd h Bool.false_ne_true).trans hresult
  | true => exact (and_congr_right' (imp_iff_right rfl)).trans hflags

/-- The result is right, and with `S = 1` the flags, for the operands that agree only. -/
theorem opcodeResult_chained_iff {opcode : Byte} (h : opcode ∈ chainedOpcodes) (sBit : Bool)
    (rn operand : Word) (carryOut c v : Bool) :
    ((opcodeResult opcode rn operand carryOut c v).result = chainedValue opcode rn operand c ∧
      (sBit = true →
        (opcodeResult opcode rn operand carryOut c v).cBit = chainedCarry opcode rn operand c ∧
        (opcodeResult opcode rn operand carryOut c v).vBit =
          decide (Overflows (chainedExact opcode rn.toInt operand.toInt c)))) ↔
      ChainedAgrees opcode sBit rn operand c := by
  simp only [chainedOpcodes, List.mem_cons, List.not_mem_nil, or_false] at h
  rcases h with rfl | rfl | rfl
  · have hvalue : chainedValue Opcode.ADC rn operand c = rn + operand + flagWord c :=
      ofInt_sum rn operand c
    rw [hvalue]
    exact withFlags_iff (adc_result_iff rn operand c carryOut v)
      (adc_flags_iff rn operand c carryOut v)
  · have hvalue : chainedValue Opcode.SBC rn operand c = rn - operand - flagWord !c :=
      ofInt_difference rn operand c
    rw [hvalue]
    exact withFlags_iff (sbc_result_iff rn operand c carryOut v)
      (sbc_flags_iff rn operand c carryOut v)
  · have hvalue : chainedValue Opcode.RSC rn operand c = operand - rn - flagWord !c :=
      ofInt_difference operand rn c
    rw [hvalue]
    exact withFlags_iff (sbc_result_iff operand rn c carryOut v)
      (sbc_flags_iff operand rn c carryOut v)

/-- **Carry-chained arithmetic.** `data_processing` returns; its result, and with `S = 1` the flags,
are those of the architecture for the operands that agree, and for no others where `Rd` is a
register of the mode. -/
theorem chained_iff (p : ArmCore) {opcode rd : Byte} (h : opcode ∈ chainedOpcodes) (hrd : rd ≠ 15)
    (sBit : Bool) (rn operand : Word) (carryOut : Bool) :
    ∃ p', (dataProcessing sBit opcode rd rn operand carryOut).run p =
        some (successfullyDecoded, p') ∧
      (ChainedAgrees opcode sBit rn operand (getBit p.reg.cpsr Flag.C) →
        ChainedCorrect opcode rd sBit rn operand p p') ∧
      ((slot rd p.mode).isSome → (ChainedCorrect opcode rd sBit rn operand p p' ↔
        ChainedAgrees opcode sBit rn operand (getBit p.reg.cpsr Flag.C))) := by
  have hchange : ∀ carryOut c v, (opcodeResult opcode rn operand carryOut c v).changeRd = true := by
    simp only [chainedOpcodes, List.mem_cons, List.not_mem_nil, or_false] at h
    rcases h with rfl | rfl | rfl
    all_goals
      intro carryOut c v
      rfl
  let c := getBit p.reg.cpsr Flag.C
  let r := opcodeResult opcode rn operand carryOut c (getBit p.reg.cpsr Flag.V)
  let value := chainedValue opcode rn operand c
  let flags := newCpsr p.reg.cpsr (getBit r.result 31) (r.result == 0) r.cBit r.vBit
  let p' := if sBit then (p.write rd r.result).writeCpsr flags else p.write rd r.result
  have hrun : (dataProcessing sBit opcode rd rn operand carryOut).run p =
      some (successfullyDecoded, p') := by
    rw [run_dataProcessing p opcode (fun h => hrd h.2) rn operand carryOut]
    simp only [hchange]
    rfl
  have hiff := opcodeResult_chained_iff h sBit rn operand carryOut c (getBit p.reg.cpsr Flag.V)
  obtain ⟨hgenreg, -, -, hwritten⟩ := (p.write rd r.result).writeFlags_frame flags sBit
  obtain ⟨hn, hz, hc, hv⟩ :=
    newCpsr_flags p.reg.cpsr (getBit r.result 31) (r.result == 0) r.cBit r.vBit
  have hcpsr : sBit = true → p'.reg.cpsr = flags := fun hs => hwritten.trans (if_pos hs)
  have hof (hagrees : ChainedAgrees opcode sBit rn operand c) :
      ChainedCorrect opcode rd sBit rn operand p p' := by
    obtain ⟨hresult, hflags⟩ := hiff.2 hagrees
    refine ⟨hgenreg.trans (congrArg (fun v => (p.write rd v).reg.genreg) hresult), ?_, ?_, ?_, ?_⟩
    all_goals
      intro hs
      rw [hcpsr hs, getBit_eq_getLsbD]
    · exact hn.trans (congrArg (getBit · 31) hresult)
    · exact hz.trans (congrArg (· == 0) hresult)
    · exact hc.trans (hflags hs).1
    · exact hv.trans (hflags hs).2
  refine ⟨p', hrun, hof, fun hslot => ⟨fun hcorrect => hiff.1 ⟨?_, fun hs => ⟨?_, ?_⟩⟩, hof⟩⟩
  · -- the register holds what has been written to it
    have hsame := hgenreg.symm.trans hcorrect.result
    rcases (registersWrite_genreg_inj p.reg rd p.mode _ _).1 hsame with hnone | heq
    · rw [hnone] at hslot
      cases hslot
    · exact heq
  · have hcarry := hcorrect.carry hs
    rw [hcpsr hs, getBit_eq_getLsbD] at hcarry
    exact hc.symm.trans hcarry
  · have hoverflow := hcorrect.overflow hs
    rw [hcpsr hs, getBit_eq_getLsbD] at hoverflow
    exact hv.symm.trans hoverflow

/-- The sum of 5 and 3 without a carry is right, and its flags are as well. -/
theorem chained_sum :
    ∃ p', (dataProcessing true Opcode.ADC 0 5 3 false).run (.initial 0x10 ⟨fun _ => 0, 4⟩) =
        some (successfullyDecoded, p') ∧
      ChainedCorrect Opcode.ADC 0 true 5 3 (.initial 0x10 ⟨fun _ => 0, 4⟩) p' := by
  have hagrees : ChainedAgrees Opcode.ADC true 5 3 false := by
    show 0 ≤ (3 : Word).toInt ∧ (0 ≤ (5 : Word).toInt ∨ (5 : Word).toInt + (3 : Word).toInt < 0)
    decide
  have hopcode : Opcode.ADC ∈ chainedOpcodes := by decide
  have hrd : (0 : Byte) ≠ 15 := by decide
  obtain ⟨p', hrun, hcorrect, -⟩ :=
    chained_iff (.initial 0x10 ⟨fun _ => 0, 4⟩) hopcode hrd true 5 3 false
  exact ⟨p', hrun, hcorrect hagrees⟩

/-- A sum that is not: 1 and 1 with the carry make 2. -/
theorem chained_fails :
    ∃ p', (dataProcessing false Opcode.ADC 0 1 1 false).run
        (.initial 0x20000010 ⟨fun _ => 0, 4⟩) = some (successfullyDecoded, p') ∧
      registersRead p'.reg 0 USR = 2 ∧
      ¬ ChainedCorrect Opcode.ADC 0 false 1 1 (.initial 0x20000010 ⟨fun _ => 0, 4⟩) p' := by
  refine ⟨_, rfl, rfl, fun h => ?_⟩
  exact absurd (congrFun h.result 0) (by decide)

end ArmSimulator
