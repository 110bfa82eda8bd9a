import ArmSimulator.CarryChain
import Mathlib.Data.Nat.Init

/-!
# The data processing instructions without a carry

The eight logical opcodes and the five sums and differences that take no carry do what the
architecture says, except for the carry that the sums and differences leave: `DataProcessed` is
all that `data_processing` changes, and `dataProcessing_processed` says that it is changed so. The
conditions on signed numbers test the flags N, Z and V, and after a comparison they answer as the
relations between the numbers (`signed_comparison`).
-/

namespace ArmSimulator

/-! ## The opcodes -/

/-- The sixteen opcodes. -/
def opcodes : List Byte :=
  [Opcode.AND, Opcode.EOR, Opcode.SUB, Opcode.RSB, Opcode.ADD, Opcode.ADC, Opcode.SBC, Opcode.RSC,
    Opcode.TST, Opcode.TEQ, Opcode.CMP, Opcode.CMN, Opcode.ORR, Opcode.MOV, Opcode.BIC, Opcode.MVN]

/-- The opcodes that write no register. -/
def comparisons : List Byte := [Opcode.TST, Opcode.TEQ, Opcode.CMP, Opcode.CMN]

/-- The opcodes whose carry is that of the shifter operand. -/
def logicalOpcodes : List Byte :=
  [Opcode.AND, Opcode.EOR, Opcode.TST, Opcode.TEQ, Opcode.ORR, Opcode.MOV, Opcode.BIC, Opcode.MVN]

/-- The opcodes other than the comparisons write `Rd`. -/
theorem opcodeResult_changeRd (opcode : Byte) (rnValue operand : Word) (carryOut cBit vBit : Bool) :
    (opcodeResult opcode rnValue operand carryOut cBit vBit).changeRd = true ↔
      opcode ∉ comparisons := by
  unfold opcodeResult
  split
  all_goals first
    | exact iff_of_true rfl (by decide)
    | exact iff_of_false Bool.false_ne_true (by decide)
    | skip
  refine iff_of_true rfl fun h => ?_
  simp only [comparisons, List.mem_cons, List.not_mem_nil, or_false] at h
  rcases h with rfl | rfl | rfl | rfl
  all_goals contradiction

/-! ## What the architecture says -/

/-- The exact sum or difference of an opcode. -/
def exactResult (opcode : Byte) (rn operand : Int) : Int :=
  if opcode = Opcode.SUB ∨ opcode = Opcode.CMP then rn - operand
  else if opcode = Opcode.RSB then operand - rn
  else rn + operand

/-- The result of an opcode: a logical one, or the sum or difference modulo 2^32. -/
def referenceResult (opcode : Byte) (rn operand : Word) : Word :=
  match opcode with
  | Opcode.AND | Opcode.TST => rn &&& operand
  | Opcode.EOR | Opcode.TEQ => rn ^^^ operand
  | Opcode.ORR => rn ||| operand
  | Opcode.MOV => operand
  | Opcode.BIC => rn &&& ~~~operand
  | Opcode.MVN => ~~~operand
  | opcode => BitVec.ofInt 32 (exactResult opcode rn.toInt operand.toInt)

/-- The state `p'` is what the instruction makes of `p`. -/
structure DataProcessed (opcode rd : Byte) (sBit : Bool) (rn operand : Word) (carryOut : Bool)
    (p p' : ArmCore) : Prop where
  /-- `Rd` holds the result, and no other register has changed. -/
  result : opcode ∉ comparisons →
    registersRead p'.reg rd p.mode = referenceResult opcode rn operand
  genreg : ∀ i, ¬ (opcode ∉ comparisons ∧ slot rd p.mode = some i) →
    p'.reg.genreg i = p.reg.genreg i
  /-- With `S = 1` the flags are those of the result. -/
  negative : sBit = true →
    getBit p'.reg.cpsr Flag.N = decide ((referenceResult opcode rn operand).toInt < 0)
  zero : sBit = true → getBit p'.reg.cpsr Flag.Z = decide (referenceResult opcode rn operand = 0)
  carry : sBit = true → opcode ∈ logicalOpcodes → getBit p'.reg.cpsr Flag.C = carryOut
  overflow : sBit = true → opcode ∈ carryOpcodes → getBit p'.reg.cpsr Flag.V =
    decide (Overflows (exactResult opcode rn.toInt operand.toInt))
  sameOverflow : sBit = true → opcode ∈ logicalOpcodes →
    getBit p'.reg.cpsr Flag.V = getBit p.reg.cpsr Flag.V
  /-- The other bits of CPSR, and with `S = 0` all of them, are as before. -/
  low : p'.reg.cpsr &&& 0x0FFFFFFF = p.reg.cpsr &&& 0x0FFFFFFF
  cpsr : sBit = false → p'.reg.cpsr = p.reg.cpsr
  rstat : p'.reg.rstat = p.reg.rstat
  mem : p'.mem = p.mem

/-! ## The opcodes of the code -/

section
variable {opcode : Byte} (rn operand : Word) (carryOut c v : Bool)

/-- A logical opcode leaves the carry of the operand, and the overflow as it was. -/
theorem opcodeResult_logical (h : opcode ∈ logicalOpcodes) :
    let r := opcodeResult opcode rn operand carryOut c v
    r.result = referenceResult opcode rn operand ∧ r.cBit = carryOut ∧ r.vBit = v := by
  simp only [logicalOpcodes, List.mem_cons, List.not_mem_nil, or_false] at h
  rcases h with rfl | rfl | rfl | rfl | rfl | rfl | rfl | rfl
  all_goals exact ⟨rfl, rfl, rfl⟩

/-- The opcodes that add or subtract leave the overflow of the exact result. -/
theorem opcodeResult_arithmetic (h : opcode ∈ carryOpcodes) :
    let r := opcodeResult opcode rn operand carryOut c v
    r.result = referenceResult opcode rn operand ∧
      r.vBit = decide (Overflows (exactResult opcode rn.toInt operand.toInt)) := by
  have hsum : ∀ a b : Word, a + b = BitVec.ofInt 32 (a.toInt + b.toInt) := fun a b => by
    rw [BitVec.ofInt_add, BitVec.ofInt_toInt, BitVec.ofInt_toInt]
  have hdifference : ∀ a b : Word, a - b = BitVec.ofInt 32 (a.toInt - b.toInt) := fun a b => by
    rw [Int.sub_eq_add_neg, BitVec.ofInt_add, BitVec.ofInt_neg, BitVec.ofInt_toInt,
      BitVec.ofInt_toInt, BitVec.sub_eq_add_neg]
  have hadd : ∀ a b : Word, (addOverflow a b).1 = decide (Overflows (a.toInt + b.toInt)) :=
    fun a b => Bool.eq_iff_iff.2 ((addOverflow_eq_true a b).trans decide_eq_true_iff.symm)
  have hsub : ∀ a b : Word, (subOverflow a b).1 = decide (Overflows (a.toInt - b.toInt)) :=
    fun a b => Bool.eq_iff_iff.2 ((subOverflow_eq_true a b).trans decide_eq_true_iff.symm)
  simp only [carryOpcodes, List.mem_cons, List.not_mem_nil, or_false] at h
  rcases h with rfl | rfl | rfl | rfl | rfl
  · exact ⟨hdifference rn operand, hsub rn operand⟩
  · exact ⟨hdifference operand rn, hsub operand rn⟩
  · exact ⟨hsum rn operand, hadd rn operand⟩
  · exact ⟨hdifference rn operand, hsub rn operand⟩
  · exact ⟨hsum rn operand, hadd rn operand⟩

/-- The result of the code is that of the architecture for the opcodes without a carry operand. -/
theorem opcodeResult_result (h : opcode ∈ logicalOpcodes ++ carryOpcodes) :
    (opcodeResult opcode rn operand carryOut c v).result = referenceResult opcode rn operand := by
  rcases List.mem_append.1 h with h | h
  · exact (opcodeResult_logical rn operand carryOut c v h).1
  · exact (opcodeResult_arithmetic rn operand carryOut c v h).1

end

/-- The flags N and Z are those of the result, and C and V the ones given. -/
theorem newCpsr_result (cpsr result : Word) (cBit vBit : Bool) :
    let status := newCpsr cpsr (getBit result 31) (result == 0) cBit vBit
    getBit status Flag.N = decide (result.toInt < 0) ∧ getBit status Flag.Z = decide (result = 0) ∧
      getBit status Flag.C = cBit ∧ getBit status Flag.V = vBit := by
  intro status
  obtain ⟨hn, hz, hc, hv⟩ := newCpsr_flags cpsr (getBit result 31) (result == 0) cBit vBit
  simp only [getBit_eq_getLsbD]
  refine ⟨hn.trans ?_, hz, hc, hv⟩
  rw [getBit_eq_getLsbD, ← BitVec.msb_eq_toInt]
  exact (BitVec.msb_eq_getLsbD_last _).symm

/-- **The data processing reference.** `data_processing` leaves the result and the flags of the
reference. -/
theorem dataProcessing_processed {p : ArmCore} (hm : p.mode ∈ modes) {opcode rd : Byte}
    (hopcode : opcode ∈ logicalOpcodes ++ carryOpcodes) (hrd : rd ≤ 15) {sBit : Bool}
    (hs : sBit = true → rd ≠ 15) (rn operand : Word) (carryOut : Bool) :
    ∃ p', (dataProcessing sBit opcode rd rn operand carryOut).run p =
        some (successfullyDecoded, p') ∧
      DataProcessed opcode rd sBit rn operand carryOut p p' := by
  let r := opcodeResult opcode rn operand carryOut (getBit p.reg.cpsr Flag.C)
    (getBit p.reg.cpsr Flag.V)
  let flags := newCpsr p.reg.cpsr (getBit r.result 31) (r.result == 0) r.cBit r.vBit
  let q := p.writeIf r.changeRd rd r.result
  let p' := if sBit then q.writeCpsr flags else q
  have hresult : r.result = referenceResult opcode rn operand :=
    opcodeResult_result rn operand carryOut _ _ hopcode
  have hchange : r.changeRd = true ↔ opcode ∉ comparisons := opcodeResult_changeRd _ _ _ _ _ _
  -- the write to `Rd`
  have hq : q.reg.cpsr = p.reg.cpsr ∧ q.reg.rstat = p.reg.rstat ∧ q.mem = p.mem :=
    ⟨p.writeIf_cpsr _ _ _, p.writeIf_rstat _ _ _, p.writeIf_mem _ _ _⟩
  -- the write to CPSR
  obtain ⟨hgenreg, hrstat, hmem, hcpsr⟩ := q.writeFlags_frame flags sBit
  have hflags : sBit = true → p'.reg.cpsr = flags := fun h => hcpsr.trans (if_pos h)
  have hkept : sBit = false → p'.reg.cpsr = p.reg.cpsr := fun h =>
    (hcpsr.trans (if_neg (Bool.eq_false_iff.1 h))).trans hq.1
  obtain ⟨hn, hz, hc, hv⟩ := newCpsr_result p.reg.cpsr r.result r.cBit r.vBit
  have hslot : (slot rd p.mode).isSome := slot_isSome hrd hm
  refine ⟨p', run_dataProcessing p opcode (fun h => hs h.1 h.2) rn operand carryOut, ?_⟩
  constructor
  case result =>
    intro h
    have hwrite : q = p.write rd r.result := if_pos (hchange.2 h)
    rw [registersRead_congr hgenreg, hwrite, ← hresult]
    exact registersRead_registersWrite_self p.reg rd p.mode r.result hslot
  case genreg =>
    intro i h
    refine (congrFun hgenreg i).trans ?_
    exact ArmCore.writeIf_genreg fun hwrite hi => h ⟨hchange.1 hwrite, hi⟩
  case negative =>
    intro h
    rw [hflags h, hn, hresult]
  case zero =>
    intro h
    rw [hflags h, hz, hresult]
  case carry =>
    intro h hlogical
    rw [hflags h, hc]
    exact (opcodeResult_logical rn operand carryOut _ _ hlogical).2.1
  case overflow =>
    intro h harithmetic
    rw [hflags h, hv]
    exact (opcodeResult_arithmetic rn operand carryOut _ _ harithmetic).2
  case sameOverflow =>
    intro h hlogical
    rw [hflags h, hv]
    exact (opcodeResult_logical rn operand carryOut _ _ hlogical).2.2
  case low =>
    cases hb : sBit with
    | false => rw [hkept hb]
    | true =>
      rw [hflags hb]
      exact newCpsr_and _ _ _ _ _
  case cpsr => exact hkept
  case rstat => exact hrstat.trans hq.2.1
  case mem => exact hmem.trans hq.2.2

/-- `SUBS r0` subtracts 5 from 3. -/
theorem dataProcessing_processed_difference :
    ∃ p', (dataProcessing true Opcode.SUB 0 3 5 false).run (.initial 0x10 ⟨fun _ => 0, 4⟩) =
        some (successfullyDecoded, p') ∧
      DataProcessed Opcode.SUB 0 true 3 5 false (.initial 0x10 ⟨fun _ => 0, 4⟩) p' := by
  have hm : (ArmCore.initial 0x10 ⟨fun _ => 0, 4⟩).mode ∈ modes := by decide
  have hopcode : Opcode.SUB ∈ logicalOpcodes ++ carryOpcodes := by decide
  have hrd : (0 : Byte) ≤ 15 := by decide
  exact dataProcessing_processed hm hopcode hrd (fun _ => by decide) 3 5 false

/-! ## Signed comparisons -/

/-- In the state `p`, `instruction_cond` answers `b` to an instruction with the condition. -/
def Answers (p : ArmCore) (cond : Word) (b : Bool) : Prop :=
  ∀ inst : Word, inst >>> 28 = cond → (instructionCond inst).run p = some (b, p)

/-- The conditions on signed numbers answer as the relations between `a` and `b`. -/
structure OrderAnswers (a b : Int) (p : ArmCore) : Prop where
  ge : Answers p Cond.GE (b ≤ a)
  lt : Answers p Cond.LT (a < b)
  gt : Answers p Cond.GT (b < a)
  le : Answers p Cond.LE (a ≤ b)

/-- An answer is that of the flags. -/
theorem Answers.of_holds {p : ArmCore} {cond : Word} {b : Bool}
    (h : conditionHolds cond p.reg.cpsr = b) : Answers p cond b := by
  rintro inst rfl
  rw [← h]
  rfl

/-- A number in the range of a sum or difference of words, as the flags of its value tell it: it is
negative where N and V differ, and the value is 0 where it is 0 or -2^32. -/
theorem flags_of_exact {x : Int} (hlow : -2 ^ 32 ≤ x) (hhigh : x < 2 ^ 32) :
    (¬ ((BitVec.ofInt 32 x).toInt < 0 ↔ Overflows x) ↔ x < 0) ∧
      (BitVec.ofInt 32 x = 0 ↔ x = 0 ∨ x = -2 ^ 32) := by
  have hmod : (BitVec.ofInt 32 x).toInt = x ∨ (BitVec.ofInt 32 x).toInt = x + 2 ^ 32 ∨
      (BitVec.ofInt 32 x).toInt = x - 2 ^ 32 := by
    rw [BitVec.toInt_ofInt, Int.bmod_def]
    split_ifs <;> omega
  have hlt := (BitVec.ofInt 32 x).toInt_lt
  have hle := (BitVec.ofInt 32 x).le_toInt
  constructor
  · omega
  · have hiff : BitVec.ofInt 32 x = 0 ↔ (BitVec.ofInt 32 x).toInt = 0 := BitVec.toInt_inj.symm
    rw [hiff]
    omega

/-- The conditions answer the order of `a` and `b` if the flags are those of their exact difference.
-/
theorem OrderAnswers.of_flags {p : ArmCore} {x a b : Int} (hx : x = a - b) (hlow : -2 ^ 32 ≤ x)
    (hhigh : x < 2 ^ 32)
    (hn : getBit p.reg.cpsr Flag.N = decide ((BitVec.ofInt 32 x).toInt < 0))
    (hz : getBit p.reg.cpsr Flag.Z = decide (BitVec.ofInt 32 x = 0))
    (hv : getBit p.reg.cpsr Flag.V = decide (Overflows x)) : OrderAnswers a b p := by
  obtain ⟨hsign, hzero⟩ := flags_of_exact hlow hhigh
  have hne : (getBit p.reg.cpsr Flag.N != getBit p.reg.cpsr Flag.V) = decide (a < b) := by
    rw [hn, hv, Bool.eq_iff_iff, bne_iff_ne, ne_eq, decide_eq_decide, decide_eq_true_eq, hsign]
    omega
  have heq : (getBit p.reg.cpsr Flag.N == getBit p.reg.cpsr Flag.V) = decide (b ≤ a) := by
    rw [← Bool.not_not (_ == _), ← bne, hne, Bool.eq_iff_iff]
    simp
  have hz' : getBit p.reg.cpsr Flag.Z = decide (x = 0 ∨ x = -2 ^ 32) := by
    rw [hz, decide_eq_decide, hzero]
  refine ⟨.of_holds heq, .of_holds hne, .of_holds ?_, .of_holds ?_⟩
  · show (!getBit p.reg.cpsr Flag.Z && getBit p.reg.cpsr Flag.N == getBit p.reg.cpsr Flag.V) = _
    rw [heq, hz', Bool.eq_iff_iff]
    simp
    omega
  · show (getBit p.reg.cpsr Flag.Z || getBit p.reg.cpsr Flag.N != getBit p.reg.cpsr Flag.V) = _
    rw [hne, hz', Bool.eq_iff_iff]
    simp
    omega

/-- A comparison leaves the flags of its exact result. -/
theorem comparison_flags (p : ArmCore) {opcode rd : Byte} (hopcode : opcode ∈ carryOpcodes)
    (hrd : rd ≠ 15) (rn operand : Word) (carryOut : Bool) :
    ∃ p', (dataProcessing true opcode rd rn operand carryOut).run p =
        some (successfullyDecoded, p') ∧
      getBit p'.reg.cpsr Flag.N = decide ((referenceResult opcode rn operand).toInt < 0) ∧
      getBit p'.reg.cpsr Flag.Z = decide (referenceResult opcode rn operand = 0) ∧
      getBit p'.reg.cpsr Flag.V =
        decide (Overflows (exactResult opcode rn.toInt operand.toInt)) := by
  obtain ⟨p', hrun, hcpsr⟩ := run_dataProcessing_flags p opcode hrd rn operand carryOut
  obtain ⟨hresult, hoverflow⟩ := opcodeResult_arithmetic rn operand carryOut
    (getBit p.reg.cpsr Flag.C) (getBit p.reg.cpsr Flag.V) hopcode
  obtain ⟨hn, hz, -, hv⟩ := newCpsr_result p.reg.cpsr _ _ _
  refine ⟨p', hrun, ?_, ?_, ?_⟩
  · rw [hcpsr, hn, hresult]
  · rw [hcpsr, hz, hresult]
  · rw [hcpsr, hv, hoverflow]

/-- **Signed comparison.** After CMP the conditions EQ, NE, GE, LT, GT and LE answer as the
relations between the signed operands, and after CMN the last four as those between their exact sum
and 0. -/
theorem signed_comparison (p : ArmCore) {rd : Byte} (hrd : rd ≠ 15) (rn operand : Word)
    (carryOut : Bool) :
    (∃ p', (dataProcessing true Opcode.CMP rd rn operand carryOut).run p =
        some (successfullyDecoded, p') ∧ OrderAnswers rn.toInt operand.toInt p' ∧
      Answers p' Cond.EQ (rn.toInt = operand.toInt) ∧
      Answers p' Cond.NE (rn.toInt ≠ operand.toInt)) ∧
    ∃ p', (dataProcessing true Opcode.CMN rd rn operand carryOut).run p =
      some (successfullyDecoded, p') ∧ OrderAnswers (rn.toInt + operand.toInt) 0 p' := by
  have hrn := rn.toInt_lt
  have hrn' := rn.le_toInt
  have hop := operand.toInt_lt
  have hop' := operand.le_toInt
  constructor
  · have hopcode : Opcode.CMP ∈ carryOpcodes := by decide
    obtain ⟨p', hrun, hn, hz, hv⟩ := comparison_flags p hopcode hrd rn operand carryOut
    have hlow : -2 ^ 32 ≤ rn.toInt - operand.toInt := by omega
    have hhigh : rn.toInt - operand.toInt < 2 ^ 32 := by omega
    have hzero : getBit p'.reg.cpsr Flag.Z = decide (rn.toInt = operand.toInt) := by
      refine hz.trans (decide_eq_decide.2 ((flags_of_exact hlow hhigh).2.trans ?_))
      omega
    refine ⟨p', hrun, .of_flags rfl hlow hhigh hn hz hv, .of_holds hzero, .of_holds ?_⟩
    show (!getBit p'.reg.cpsr Flag.Z) = _
    rw [hzero, ← decide_not]
  · have hopcode : Opcode.CMN ∈ carryOpcodes := by decide
    obtain ⟨p', hrun, hn, hz, hv⟩ := comparison_flags p hopcode hrd rn operand carryOut
    have hlow : -2 ^ 32 ≤ rn.toInt + operand.toInt := by omega
    have hhigh : rn.toInt + operand.toInt < 2 ^ 32 := by omega
    exact ⟨p', hrun, .of_flags (Int.sub_zero _).symm hlow hhigh hn hz hv⟩

/-- The least number is compared to 1, and added to it. -/
theorem signed_comparison_least :
    (∃ p', (dataProcessing true Opcode.CMP 0 0x80000000 1 false).run
        (.initial 0x10 ⟨fun _ => 0, 4⟩) = some (successfullyDecoded, p') ∧
      OrderAnswers (-2147483648) 1 p' ∧
      Answers p' Cond.EQ ((-2147483648 : Int) = 1) ∧ Answers p' Cond.NE ((-2147483648 : Int) ≠ 1)) ∧
    ∃ p', (dataProcessing true Opcode.CMN 0 0x80000000 1 false).run
        (.initial 0x10 ⟨fun _ => 0, 4⟩) = some (successfullyDecoded, p') ∧
      OrderAnswers (-2147483648 + 1) 0 p' :=
  signed_comparison (.initial 0x10 ⟨fun _ => 0, 4⟩) (by decide) 0x80000000 1 false

end ArmSimulator
