import ArmSimulator.Miscellaneous
import ArmSimulator.Reserved
import ArmSimulator.WriteBack

/-!
# The alignment of the PC

The fetch advances the PC by 4, a branch adds a multiple of 4, and `LDM` without `S` masks what it
loads into the PC. The other instructions that can write r15 do not: data processing, the single
loads, the base update of a single transfer, `LDM` with `S`, and `MRS`. `pcWrite` is the value that
such an instruction is about to give the PC, `armDecode_pc` says that there is no other way, and
`pcAligned_run_iff` is what follows for runs.
-/

namespace ArmSimulator

open Prog

/-- The value is a multiple of 4. -/
abbrev Aligned (w : Word) : Prop := w.toNat % 4 = 0

/-! ## Multiples of 4 -/

section
variable {a b : Word}

/-- A sum of aligned words is aligned. -/
theorem Aligned.add (ha : Aligned a) (hb : Aligned b) : Aligned (a + b) := by
  unfold Aligned at *
  rw [BitVec.toNat_add]
  omega

/-- A difference of aligned words is aligned. -/
theorem Aligned.sub (ha : Aligned a) (hb : Aligned b) : Aligned (a - b) := by
  unfold Aligned at *
  rw [BitVec.toNat_sub]
  have := b.isLt
  omega

/-- A word is aligned if its two low bits are 0. -/
theorem aligned_iff_and : Aligned a ↔ a &&& 3 = 0#32 := by
  have hmod : (a &&& 3).toNat = a.toNat % 4 := by
    rw [BitVec.toNat_and]
    exact Nat.and_two_pow_sub_one_eq_mod a.toNat 2
  rw [BitVec.toNat_eq, hmod]
  rfl

/-- A mask keeps a multiple of 4 one. -/
theorem Aligned.and (ha : Aligned a) (mask : Word) : Aligned (a &&& mask) := by
  rw [aligned_iff_and] at *
  rw [BitVec.and_assoc, BitVec.and_comm mask, ← BitVec.and_assoc, ha, BitVec.zero_and]

/-- A mask without the two low bits makes a multiple of 4. -/
theorem aligned_and_mask (a : Word) : Aligned (a &&& 0xFFFFFFFC) := by
  rw [aligned_iff_and, BitVec.and_assoc]
  exact BitVec.and_zero

/-- A multiple of 4 has bit 1 clear. -/
theorem Aligned.and_two (ha : Aligned a) : a &&& 2 = 0#32 := by
  have h32 : (3 &&& 2 : Word) = 2 := by decide
  rw [← h32, ← BitVec.and_assoc, aligned_iff_and.1 ha, BitVec.zero_and]

/-- The mask of the read of the PC, which clears bit 1, leaves a multiple of 4. -/
theorem Aligned.and_mask (ha : Aligned a) : a &&& 0xFFFFFFFD = a := by
  calc a &&& 0xFFFFFFFD
      = (a &&& 0xFFFFFFFD) ||| (a &&& 2) := by rw [ha.and_two, BitVec.or_zero]
    _ = a &&& 0xFFFFFFFF := by rw [← BitVec.and_or_distrib_left]; rfl
    _ = a := BitVec.and_allOnes

/-- The offset of a branch is a multiple of 4. -/
theorem aligned_shiftLeft (a : Word) : Aligned (a <<< 2) := by
  unfold Aligned
  rw [BitVec.toNat_shiftLeft, Nat.shiftLeft_eq]
  omega

/-- The size of a list of registers is a multiple of 4. -/
theorem aligned_ofNat (n : Nat) : Aligned (BitVec.ofNat 32 (4 * n)) := by
  unfold Aligned
  rw [BitVec.toNat_ofNat]
  omega

end

/-! ## The PC in a state -/

section
variable (p : ArmCore) (reg : Byte) (value : Word)

/-- After the write of a register the PC is the value, if the register was r15. -/
@[simp] theorem ArmCore.write_pc : (p.write reg value).pc = if reg = 15 then value else p.pc :=
  registersWrite_pc p.reg reg p.mode value

/-- The write of another register keeps the PC. -/
theorem ArmCore.writeIf_pc {b : Bool} (hr : reg ≠ 15) : (p.writeIf b reg value).pc = p.pc :=
  ArmCore.writeIf_genreg fun _ => slot_ne_pc hr

/-- An instruction that reads r15 reads the PC plus 4, without the bit that `arm_read_register`
clears. -/
theorem ArmCore.read_pc : p.read 15 = (p.pc + 4) &&& 0xFFFFFFFD := by
  rw [ArmCore.read, ArmCore.readInternal, if_pos rfl, registersRead_pc]
  rfl

/-- The PC moves on by 4 at the fetch. -/
theorem ArmCore.fetched_pc : p.fetched.pc = p.pc + 4 := by
  rw [ArmCore.pc, ArmCore.fetched, registersWrite_pc, if_pos rfl, registersRead_pc]
  rfl

/-- The PC is at the vector after the entry into an exception. -/
theorem ArmCore.entered_pc (cpsr offset vector : Word) :
    (p.entered cpsr offset vector).pc = vector :=
  (p.entered_genreg cpsr offset vector 15).trans (if_pos rfl)

/-- The PC reads as a multiple of 4 where it is one. -/
theorem ArmCore.read_aligned {p : ArmCore} (h : Aligned p.pc) : Aligned (p.read 15) := by
  rw [ArmCore.read_pc]
  exact (h.add (by decide)).and _

/-- What a register reads as in the instruction at the PC: r15 is its address plus 8. -/
def ArmCore.operand (p : ArmCore) (reg : Byte) : Word := if reg = 15 then p.pc + 8 else p.read reg

/-- The fetch leaves the registers other than r15. -/
theorem ArmCore.fetched_read_ne {p : ArmCore} {reg : Byte} (hr : reg ≠ 15) :
    p.fetched.read reg = p.read reg := by
  simp only [ArmCore.read, ArmCore.readInternal, ArmCore.fetched_mode, if_neg hr]
  exact registersRead_registersWrite_ne _ p.mode _ (Ne.symm hr) _

/-- The fetch moves the PC to where it reads as an operand. -/
theorem ArmCore.fetched_read {p : ArmCore} (hp : Aligned p.pc) (reg : Byte) :
    p.fetched.read reg = p.operand reg := by
  unfold ArmCore.operand
  split_ifs with hr
  · subst hr
    rw [ArmCore.read_pc, ArmCore.fetched_pc, BitVec.add_assoc]
    exact (hp.add (by decide)).and_mask
  · exact ArmCore.fetched_read_ne hr

end

/-! ## What is written to the PC -/

/-- A result of data processing that is written to r15. -/
def dataPcWrite (ins : Word) (operand : Word × Bool) (p : ArmCore) : Option Word :=
  let opcode : Byte := (getBits ins 24 21).setWidth 8
  let rn : Byte := (getBits ins 19 16).setWidth 8
  let rd : Byte := (getBits ins 15 12).setWidth 8
  let r := opcodeResult opcode (p.read rn) operand.1 operand.2 (getBit p.reg.cpsr Flag.C)
    (getBit p.reg.cpsr Flag.V)
  if rd = 15 ∧ r.changeRd = true ∧ ¬ (getBit ins sIndex = true ∧ rstatInd p.mode = none) then
    some r.result
  else none

/-- CPSR, or the SPSR that it has been saved into, where `MRS` writes r15. -/
def mrsPcWrite (ins : Word) (p : ArmCore) : Option Word :=
  if mrsRegister ins = 15 ∧ ¬ (getBit ins 22 = true ∧ rstatInd p.mode = none) then some p.reg.cpsr
  else none

/-- The index of a scaled register offset. -/
def scaledIndex (cpsr rmVal : Word) (shift : Byte) (shiftImm : Word) : Word :=
  match shift with
  | Shift.LSL => rmVal <<< shiftImm.toNat
  | Shift.LSR => if shiftImm = 0 then 0 else rmVal >>> shiftImm.toNat
  | Shift.ASR =>
    if shiftImm = 0 then (if getBit rmVal 31 = true then 0xFFFFFFFF else 0)
    else asr rmVal (shiftImm.setWidth 8)
  | Shift.ROR =>
    if shiftImm = 0 then ((if getBit cpsr Flag.C then (1 : Word) else 0) <<< 31) ||| (rmVal >>> 1)
    else ror rmVal (shiftImm.setWidth 8)
  | _ => 0

/-- The offset of a single transfer. -/
def transferOffset (ins : Word) (p : ArmCore) : Word :=
  let rmVal := p.read ((getBits ins 3 0).setWidth 8)
  if getBits ins 27 25 = 0b010 then getBits ins 11 0
  else if getBits ins 27 25 = 0b011 then
    if getBits ins 11 4 = 0 then rmVal
    else scaledIndex p.reg.cpsr rmVal ((getBits ins 6 5).setWidth 8) (getBits ins 11 7)
  else if getBit ins 22 then (getBits ins 11 8 <<< 4) ||| getBits ins 3 0
  else rmVal

/-- The base of a single transfer with the offset applied. -/
def transferSum (ins : Word) (p : ArmCore) : Word :=
  checkU (getBit ins 23) (p.read ((getBits ins 19 16).setWidth 8)) (transferOffset ins p)

/-- The update of the base, pre-indexed or post-indexed. -/
def transferBase (ins : Word) (p : ArmCore) : Option (Byte × Word) :=
  if getBit ins 24 = getBit ins 21 then some ((getBits ins 19 16).setWidth 8, transferSum ins p)
  else none

/-- A single transfer that is refused: `P = 0` and `W = 1`, where the offset is not scaled, or a
halfword transfer that is not implemented. -/
abbrev TransferRefused (ins : Word) : Prop :=
  if getBits ins 27 25 = 0b000 then ¬ (getBit ins 6 = false ∧ getBit ins 5 = true)
  else (getBits ins 27 25 = 0b010 ∨ getBits ins 11 4 = 0) ∧ getBit ins 24 = false ∧
    getBit ins 21 = true

section
variable (endianess : Byte) (loc : Locals)

/-- The address of a single transfer. -/
def transferAddress (ins : Word) (p : ArmCore) : Word :=
  if getBit ins 24 then transferSum ins p
  else if getBit ins 21 then loc.address
  else p.read ((getBits ins 19 16).setWidth 8)

/-- The value that a single load gives its destination. -/
def loadedValue (ins : Word) (p : ArmCore) : Word :=
  let address := transferAddress loc ins p
  if getBits ins 27 25 = 0b000 then
    (memoryReadHalf p.mem address loc.half endianess).2.setWidth 32
  else if getBit ins 22 then (memoryReadByte p.mem address loc.octet).2.setWidth 32
  else (memoryReadWord p.mem address loc.mot endianess).2

/-- The value that a single transfer writes to r15: the one loaded, or the base. -/
def transferPcWrite (ins : Word) (p : ArmCore) : Option Word :=
  if TransferRefused ins then none
  else if getBit ins 20 = true ∧ (getBits ins 15 12).setWidth 8 = (15 : Byte) then
    some (loadedValue endianess loc ins p)
  else (transferBase ins p).bind fun w => if w.1 = 15 then some w.2 else none

/-- The word that `LDM` with `S` loads into r15, unless the base is written there after it. -/
def blockPcWrite (ins : Word) (p : ArmCore) : Option Word :=
  let rnRegistre : Byte := (getBits ins 19 16).setWidth 8
  let registerList : Half := (getBits ins 15 0).setWidth 16
  let start := (addressingMode (getBits ins 24 23) (p.read rnRegistre) registerList).1
  if getBit ins 22 = true ∧ getBit ins 20 = true ∧ getBit registerList 15 = true ∧
      rstatInd p.mode ≠ none ∧ ¬ (getBit ins 21 = true ∧ rnRegistre = 15) then
    some (memoryReadWord p.mem (start + BitVec.ofNat 32 (4 * listed registerList 15))
      (loc.value 15) endianess).2
  else none

/-- The value that an instruction, unless it is undefined, gives the PC without masking it; `none`
where there is none. `p` is the state after the fetch. -/
def pcWrite (ins : Word) (p : ArmCore) : Option Word :=
  if getBits ins 27 25 = 0b000 then
    if getBit ins 4 = true ∧ getBit ins 7 = true then transferPcWrite endianess loc ins p
    else if getBits ins 24 23 = 2 ∧ getBit ins 20 = false then mrsPcWrite ins p
    else (shiftedOperand ins p).bind fun operand => dataPcWrite ins operand p
  else if getBits ins 27 25 = 0b001 then
    if getBits ins 24 23 = 0b10 ∧ getBits ins 21 20 = 0b10 then none
    else dataPcWrite ins (immediateOperand ins p) p
  else if getBits ins 27 25 = 0b010 then transferPcWrite endianess loc ins p
  else if getBits ins 27 25 = 0b011 then
    if getBit ins 4 = false then transferPcWrite endianess loc ins p else none
  else if getBits ins 27 25 = 0b100 then blockPcWrite endianess loc ins p
  else none

end

/-- What the PC is after an instruction that returns `c`. -/
def PcResult (w : Option Word) (c : Byte) (p' : ArmCore) : Prop :=
  match w with
  | some value => c ≠ undefinedInstruction ∧ p'.pc = value
  | none => c = undefinedInstruction ∨ Aligned p'.pc

section
variable {p p' : ArmCore} {c : Byte} {w : Option Word}

/-- The PC is the value that was written, or the one from before. -/
theorem PcResult.of_pc (hp : Aligned p.pc) (hc : c ≠ undefinedInstruction)
    (h : p'.pc = w.getD p.pc) : PcResult w c p' := by
  cases w with
  | none => exact .inr (h ▸ hp)
  | some value => exact ⟨hc, h⟩

/-- Only the PC of the state matters. -/
theorem PcResult.congr {q : ArmCore} (h : PcResult w c q) (hpc : p'.pc = q.pc) :
    PcResult w c p' := by
  cases w with
  | none => exact h.imp_right fun hq => hpc ▸ hq
  | some value => exact ⟨h.1, hpc.trans h.2⟩

/-- An instruction that is refused writes nothing that lasts. -/
theorem PcResult.of_undefined : PcResult none undefinedInstruction p' := .inl rfl

end

/-! ## The handlers -/

section
variable {p : ArmCore}

/-- The query for an SPSR leaves the PC to what is done where there is one, and to the refusal where
there is none. -/
theorem spsr_pc {w : Option Word} {q : ArmCore} (hw : rstatInd q.mode = none → w = none)
    {m : ArmM Byte}
    (hm : (registersCurrentModeHasSpsr q.reg).1 = true → rstatInd q.mode ≠ none →
      Ensures m { q with reg := (registersCurrentModeHasSpsr q.reg).2 } (PcResult w)) :
    Ensures (armCurrentModeHasSpsr >>= fun b =>
      if b then m else return undefinedInstruction) q (PcResult w) := by
  have hfst : (registersCurrentModeHasSpsr q.reg).1 = (rstatInd q.mode).isSome :=
    registersCurrentModeHasSpsr_fst q.reg
  refine Ensures.bind (run_armCurrentModeHasSpsr q) (Ensures.ite (fun hb => ?_) fun hb => ?_)
  · exact hm hb (Option.isSome_iff_ne_none.1 (hfst ▸ hb))
  · rw [hfst, Option.isSome_iff_ne_none, not_not] at hb
    rw [hw hb]
    exact Ensures.pure .of_undefined

/-- The query itself leaves the PC. -/
theorem ArmCore.query_pc (q : ArmCore) :
    ({ q with reg := (registersCurrentModeHasSpsr q.reg).2 } : ArmCore).pc = q.pc :=
  congrFun (registersCurrentModeHasSpsr_genreg q.reg) 15

/-- The arithmetic of a data processing instruction leaves the PC, unless the result goes to r15. -/
theorem dataProcessing_pc (hp : Aligned p.pc) (sBit : Bool) (opcode rd : Byte)
    (rnValue operand : Word) (carryOut : Bool) :
    let r := opcodeResult opcode rnValue operand carryOut (getBit p.reg.cpsr Flag.C)
      (getBit p.reg.cpsr Flag.V)
    Ensures (dataProcessing sBit opcode rd rnValue operand carryOut) p (PcResult
      (if rd = 15 ∧ r.changeRd = true ∧ ¬ (sBit = true ∧ rstatInd p.mode = none) then some r.result
        else none)) := by
  intro r
  have hpc : (p.writeIf r.changeRd rd r.result).pc =
      (if rd = 15 ∧ r.changeRd = true then some r.result else none).getD p.pc := by
    cases hc : r.changeRd with
    | false =>
      rw [if_neg fun h => Bool.false_ne_true h.2]
      rfl
    | true =>
      refine (p.write_pc rd r.result).trans ?_
      by_cases hrd : rd = 15
      · rw [if_pos hrd, if_pos ⟨hrd, rfl⟩]
        rfl
      · rw [if_neg hrd, if_neg fun h => hrd h.1]
        rfl
  by_cases hs : sBit = true ∧ rd = 15
  · obtain ⟨rfl, rfl⟩ := hs
    refine Ensures.of_run (run_dataProcessing_pc p opcode rnValue operand carryOut) ?_
    cases hspsr : rstatInd p.mode with
    | none =>
      rw [if_neg fun h => h.2.2 ⟨rfl, rfl⟩]
      exact .of_undefined
    | some i =>
      rw [if_pos (Option.isSome_some (a := i))]
      refine .of_pc hp (by decide) ((ArmCore.query_pc _).trans (hpc.trans ?_))
      simp only [reduceCtorEq, and_false, not_false_eq_true, and_true]
  · have hiff : (rd = 15 ∧ r.changeRd = true ∧ ¬ (sBit = true ∧ rstatInd p.mode = none)) ↔
        rd = 15 ∧ r.changeRd = true :=
      ⟨fun h => ⟨h.1, h.2.1⟩, fun h => ⟨h.1, h.2, fun hn => hs ⟨hn.1, h.1⟩⟩⟩
    simp only [hiff]
    refine Ensures.of_run (run_dataProcessing p opcode hs rnValue operand carryOut) ?_
    cases sBit with
    | false => exact .of_pc hp (by decide) hpc
    | true => exact .of_pc hp (by decide) hpc

/-- After a data processing instruction with a shifted operand the PC is the result, if that goes to
r15. -/
theorem armDataProcessingShift_pc (hp : Aligned p.pc) (ins : Word) :
    Ensures (armDataProcessingShift ins) p
      (PcResult ((shiftedOperand ins p).bind fun operand => dataPcWrite ins operand p)) := by
  unfold armDataProcessingShift shiftedOperand
  refine Ensures.bind (run_armReadCpsr p) (Ensures.bind (run_armReadRegister p _)
    (Ensures.bind (run_armReadRegister p _) (Ensures.bind (run_armReadRegister p _)
      (Ensures.bind (run_armReadRegister p _) ?_))))
  split
  · next h =>
    rw [h]
    exact Ensures.pure .of_undefined
  · next operand carryOut h =>
    rw [h]
    exact dataProcessing_pc hp _ _ _ _ _ _

/-- After a data processing instruction with an immediate the PC is the result, if that goes to r15.
-/
theorem armDataProcessingImmediate_pc (hp : Aligned p.pc) (ins : Word) :
    Ensures (armDataProcessingImmediate ins) p
      (PcResult (dataPcWrite ins (immediateOperand ins p) p)) := by
  unfold armDataProcessingImmediate
  refine Ensures.bind (run_armReadCpsr p) (Ensures.bind (run_armReadRegister p _) ?_)
  exact dataProcessing_pc hp _ _ _ _ _ _

/-- `MSR` writes no general register. -/
theorem armMsrImmediate_pc (hp : Aligned p.pc) (ins : Word) :
    Ensures (armMsrImmediate ins) p (PcResult none) := by
  unfold armMsrImmediate
  refine Ensures.ite (fun _ => Ensures.pure .of_undefined) fun _ => Ensures.ite (fun _ => ?_)
    fun _ => ?_
  · refine Ensures.bind (run_armInAPrivilegedMode p) (Ensures.ite (fun _ => ?_) fun _ => ?_)
    · refine Ensures.ite (fun _ => Ensures.pure .of_undefined) fun _ => ?_
      exact Ensures.bind (run_armReadCpsr p) (Ensures.bind (run_armWriteCpsr p _)
        (Ensures.pure (.inr hp)))
    · exact Ensures.bind (run_armReadCpsr p) (Ensures.bind (run_armWriteCpsr p _)
        (Ensures.pure (.inr hp)))
  · refine spsr_pc (fun _ => rfl) fun _ _ => ?_
    refine Ensures.bind (run_armReadSpsr _) (Ensures.bind (run_armWriteSpsr _ _) (Ensures.pure ?_))
    exact .of_pc hp (by decide) ((congrFun (registersWriteSpsr_genreg _ _ _) 15).trans p.query_pc)

/-- A branch moves the PC by a multiple of 4. -/
theorem armBranch_pc (hp : Aligned p.pc) (ins : Word) :
    Ensures (armBranch ins) p (PcResult none) := by
  unfold armBranch
  refine Ensures.ite (fun _ => Ensures.pure .of_undefined) fun _ => ?_
  refine Ensures.bind (run_armReadRegister p 15) (Ensures.bind (run_when_armWriteRegister p _ _ _)
    (Ensures.bind (run_armWriteRegister _ _ _) (Ensures.pure (.inr ?_))))
  rw [ArmCore.write_pc, if_pos rfl]
  exact (ArmCore.read_aligned hp).add (aligned_shiftLeft _)

/-- `MRS` gives the PC what CPSR holds: the SPSR is the one just saved. -/
theorem armMiscellaneous_pc (hp : Aligned p.pc) {ins : Word} (h : Miscellaneous ins) :
    Ensures (armMiscellaneous ins) p (PcResult (mrsPcWrite ins p)) := by
  have hpc : ∀ {q : ArmCore} {value : Word}, q.pc = p.pc → value = p.reg.cpsr →
      ¬ (getBit ins 22 = true ∧ rstatInd p.mode = none) →
      PcResult (mrsPcWrite ins p) successfullyDecoded (q.write (mrsRegister ins) value) := by
    intro q value hq hv hspsr
    refine .of_pc hp (by decide) ?_
    rw [ArmCore.write_pc, mrsPcWrite, hq, hv]
    by_cases hr : mrsRegister ins = 15
    · rw [if_pos hr, if_pos ⟨hr, hspsr⟩]
      rfl
    · rw [if_neg hr, if_neg fun h => hr h.1]
      rfl
  unfold armMiscellaneous
  refine Ensures.ite (fun hcode => absurd h.codeop hcode) fun _ => Ensures.ite (fun hR => ?_)
    fun hR => ?_
  · refine spsr_pc (fun hno => if_neg fun h => h.2 ⟨hR, hno⟩) fun hquery hspsr => ?_
    refine Ensures.bind (run_armReadSpsr _) (Ensures.bind (run_armWriteRegister _ _ _)
      (Ensures.pure (hpc p.query_pc (registersReadSpsr_query p.reg hquery) ?_)))
    exact fun hno => hspsr hno.2
  · exact Ensures.bind (run_armReadCpsr p) (Ensures.bind (run_armWriteRegister p _ _)
      (Ensures.pure (hpc rfl rfl fun hno => hR hno.1)))

end

/-! ## Loads and stores -/

section
variable {p : ArmCore} (endianess : Byte) (loc : Locals)

/-- After the write of an instruction the PC is the value, if the register was r15. -/
theorem ArmCore.written_pc (w : Option (Byte × Word)) :
    (p.written w).pc = (w.bind fun w => if w.1 = 15 then some w.2 else none).getD p.pc := by
  cases w with
  | none => rfl
  | some w =>
    refine (p.write_pc w.1 w.2).trans ?_
    show _ = (if w.1 = 15 then some w.2 else none).getD p.pc
    by_cases h : w.1 = 15
    · rw [if_pos h, if_pos h]
      rfl
    · rw [if_neg h, if_neg h]
      rfl

/-- The write of an instruction to a register keeps the memory. -/
@[simp] theorem ArmCore.written_mem (w : Option (Byte × Word)) : (p.written w).mem = p.mem := by
  cases w with
  | none => rfl
  | some w => rfl

/-- `shift_operation` only reads. -/
theorem run_shiftOperation (rmVal : Word) (shift : Byte) (shiftImm : Word) :
    (shiftOperation rmVal shift shiftImm).run p =
      some (scaledIndex p.reg.cpsr rmVal shift shiftImm, p) := by
  unfold shiftOperation
  split
  · rfl
  · rfl
  · rfl
  · show StateT.run (if shiftImm = 0 then _ else _) p = some (if shiftImm = 0 then _ else _, p)
    by_cases h : shiftImm = 0
    · rw [if_pos h, if_pos h]
      rfl
    · rw [if_neg h, if_neg h]
      rfl
  · rw [scaledIndex]
    · rfl
    all_goals assumption

/-- The addresses with an unscaled offset are computed here, and the base is updated. -/
theorem run_processLoadStoreInstruction (P W bitU : Bool) (address rn : Word) (rnRegister : Byte)
    (value : Word) :
    (processLoadStoreInstruction P W bitU address rn rnRegister value).run p =
      if P = false ∧ W = true then some ((undefinedInstruction, address), p)
      else some ((0, if P then checkU bitU rn value else rn),
        p.written (if P = W then some (rnRegister, checkU bitU rn value) else none)) := by
  cases P <;> cases W
  all_goals rfl

/-- The addresses with a scaled offset are computed here, and the base is updated. -/
theorem run_scaledAddress (ins : Word) (P W bitU : Bool) (rn rmVal : Word) (rnRegister : Byte) :
    let sum := checkU bitU rn (scaledIndex p.reg.cpsr rmVal ((getBits ins 6 5).setWidth 8)
      (getBits ins 11 7))
    (scaledAddress loc ins P W bitU rn rmVal rnRegister).run p =
      some (if P then sum else if W then loc.address else rn,
        p.written (if P = W then some (rnRegister, sum) else none)) := by
  intro sum
  have hshift := run_shiftOperation (p := p) rmVal ((getBits ins 6 5).setWidth 8) (getBits ins 11 7)
  cases P <;> cases W
  · exact (run_bind_of hshift).trans rfl
  · rfl
  · exact (run_bind_of hshift).trans rfl
  · exact (run_bind_of hshift).trans rfl

/-- The transfer of an instruction, from the address on. -/
def transferAt (ins address : Word) : ArmM Byte :=
  if getBits ins 27 25 = 0b000 then
    miscellaneousTransfer endianess loc (getBit ins 20) (getBit ins 6) (getBit ins 5) (rdField ins)
      address
  else loadStore endianess loc (getBit ins 20) (getBit ins 22) (rdField ins) address

/-- The transfers whose offset is not scaled go to the address of the model. -/
theorem run_unscaled {ins value : Word} (h0 : ¬ getBits ins 27 25 = 0b000)
    (hplain : getBits ins 27 25 = 0b010 ∨ getBits ins 11 4 = 0)
    (hvalue : value = transferOffset ins p) :
    (processLoadStoreInstruction (getBit ins 24) (getBit ins 21) (getBit ins 23) loc.address
        (p.read (rnField ins)) (rnField ins) value >>= fun r =>
      if r.1 ≠ 0 then return r.1
      else loadStore endianess loc (getBit ins 20) (getBit ins 22) (rdField ins) r.2).run p =
      if ¬ getBits ins 27 25 = 0b000 ∧ TransferRefused ins then some (undefinedInstruction, p)
      else (transferAt endianess loc ins (transferAddress loc ins p)).run
        (p.written (transferBase ins p)) := by
  have hrefused : TransferRefused ins ↔ getBit ins 24 = false ∧ getBit ins 21 = true := by
    rw [TransferRefused, if_neg h0]
    exact and_iff_right hplain
  have hrun := run_processLoadStoreInstruction (p := p) (getBit ins 24) (getBit ins 21)
    (getBit ins 23) loc.address (p.read (rnField ins)) (rnField ins) value
  by_cases href : getBit ins 24 = false ∧ getBit ins 21 = true
  · rw [if_pos href] at hrun
    rw [if_pos ⟨h0, hrefused.2 href⟩, run_bind_of hrun]
    rfl
  · rw [if_neg href] at hrun
    have haddress : transferAddress loc ins p = if getBit ins 24 then
        checkU (getBit ins 23) (p.read (rnField ins)) value else p.read (rnField ins) := by
      rw [transferAddress, transferSum, hvalue]
      cases hP : getBit ins 24 with
      | true => rfl
      | false =>
        cases hW : getBit ins 21 with
        | true => exact absurd ⟨hP, hW⟩ href
        | false => rfl
    rw [if_neg fun h => href (hrefused.1 h.2), run_bind_of hrun, transferAt, if_neg h0, haddress,
      transferBase, transferSum, hvalue]
    rfl

/-- **A single transfer**: the address and the update of the base, then the transfer, unless the
indexing is refused. -/
theorem run_armLoadStore {ins : Word} (h : SingleTransfer ins) :
    (armLoadStore endianess loc ins).run p =
      if ¬ getBits ins 27 25 = 0b000 ∧ TransferRefused ins then some (undefinedInstruction, p)
      else (transferAt endianess loc ins (transferAddress loc ins p)).run
        (p.written (transferBase ins p)) := by
  unfold armLoadStore
  rw [run_bind_of (run_armReadRegister p _), run_bind_of (run_armReadRegister p _)]
  rcases h with ⟨h0, hb4, hb7⟩ | h2 | ⟨h3, hb4⟩
  · have h2 : getBits ins 27 25 ≠ 0b010 := ne_of_eq_of_ne h0 (by decide)
    have h3 : getBits ins 27 25 ≠ 0b011 := ne_of_eq_of_ne h0 (by decide)
    have hoffset : transferOffset ins p =
        if getBit ins 22 then (getBits ins 11 8 <<< 4) ||| getBits ins 3 0
        else p.read (rmField ins) := by
      rw [transferOffset, if_neg h2, if_neg h3]
    have hbase : baseUpdate ins p = transferBase ins p := by
      rw [transferBase, transferSum, hoffset]
      rfl
    have hrun := run_miscellaneousAddress p loc ins
    rw [← hoffset, hbase] at hrun
    have href : ¬ (¬ getBits ins 27 25 = 0b000 ∧ TransferRefused ins) := fun href => href.1 h0
    rw [if_neg href, if_neg h2, if_neg fun h => h3 h.1, if_neg fun h => h3 h.1,
      if_pos ⟨h0, hb7, hb4⟩, run_bind_of hrun, transferAt, if_pos h0]
    rfl
  · rw [if_pos h2]
    refine run_unscaled endianess loc (ne_of_eq_of_ne h2 (by decide)) (.inl h2) ?_
    rw [transferOffset, if_pos h2]
  · have h0 : ¬ getBits ins 27 25 = 0b000 := ne_of_eq_of_ne h3 (by decide)
    have h2 : ¬ getBits ins 27 25 = 0b010 := ne_of_eq_of_ne h3 (by decide)
    rw [if_neg h2]
    by_cases hscaled : getBits ins 11 4 = 0
    · rw [if_pos ⟨h3, hscaled⟩]
      refine run_unscaled endianess loc h0 (.inr hscaled) ?_
      rw [transferOffset, if_neg h2, if_pos h3, if_pos hscaled]
    · have hoffset : transferOffset ins p = scaledIndex p.reg.cpsr (p.read (rmField ins))
          ((getBits ins 6 5).setWidth 8) (getBits ins 11 7) := by
        rw [transferOffset, if_neg h2, if_pos h3, if_neg hscaled]
      have hrun := run_scaledAddress (p := p) loc ins (getBit ins 24) (getBit ins 21)
        (getBit ins 23) (p.read (rnField ins)) (p.read (rmField ins)) (rnField ins)
      rw [← hoffset] at hrun
      have href : ¬ (¬ getBits ins 27 25 = 0b000 ∧ TransferRefused ins) := by
        rw [TransferRefused, if_neg h0]
        exact fun href => href.2.1.elim h2 hscaled
      rw [if_neg href, if_neg fun h => hscaled h.2, if_pos ⟨h3, hb4⟩, run_bind_of hrun, transferAt,
        if_neg h0]
      rfl

/-- A load into r15 is the last write of a transfer. -/
theorem loadStore_pc (bitL bitB : Bool) (rd : Byte) (address : Word) :
    Ensures (loadStore endianess loc bitL bitB rd address) p fun c p' => c = 0 ∧
      p'.pc = if bitL = true ∧ rd = 15 then
        if bitB then (memoryReadByte p.mem address loc.octet).2.setWidth 32
        else (memoryReadWord p.mem address loc.mot endianess).2
      else p.pc := by
  unfold loadStore
  refine Ensures.ite (fun hL => Ensures.ite (fun hB => ?_) fun hB => ?_) fun hL => ?_
  · refine Ensures.bind (run_armReadByte p _ _) (Ensures.bind (run_armWriteRegister _ _ _)
      (Ensures.pure ⟨rfl, (ArmCore.write_pc _ _ _).trans ?_⟩))
    simp only [hL, hB, true_and, if_true]
    rfl
  · refine Ensures.bind (run_armReadWord p _ _ _) (Ensures.bind (run_armWriteRegister _ _ _)
      (Ensures.pure ⟨rfl, (ArmCore.write_pc _ _ _).trans ?_⟩))
    simp only [hL, hB, true_and, Bool.false_eq_true, if_false]
    rfl
  · rw [if_neg fun h => hL h.1]
    refine Ensures.bind (run_armReadRegister p rd) (Ensures.ite (fun _ => ?_) fun _ => ?_)
    · exact Ensures.bind (run_armWriteByte p _ _) (Ensures.pure ⟨rfl, rfl⟩)
    · exact Ensures.bind (run_armWriteWord p _ _ _) (Ensures.pure ⟨rfl, rfl⟩)

/-- The halfword transfers that are implemented do the same. -/
theorem miscellaneousTransfer_pc (bitL bitS bitH : Bool) (rd : Byte) (address : Word) :
    Ensures (miscellaneousTransfer endianess loc bitL bitS bitH rd address) p fun c p' =>
      if bitS = false ∧ bitH = true then c = 0 ∧
        p'.pc = if bitL = true ∧ rd = 15 then
          (memoryReadHalf p.mem address loc.half endianess).2.setWidth 32 else p.pc
      else c = undefinedInstruction := by
  unfold miscellaneousTransfer
  refine Ensures.ite (fun h => ?_) fun h => Ensures.ite (fun h' => ?_) fun h' => ?_
  · refine Ensures.bind (run_armReadRegister p rd) (Ensures.bind (run_armWriteHalf p _ _ _)
      (Ensures.pure ?_))
    rw [if_pos h.2, if_neg fun hL => Bool.false_ne_true (h.1.symm.trans hL.1)]
    exact ⟨rfl, rfl⟩
  · refine Ensures.bind (run_armReadHalf p _ _ _) (Ensures.bind (run_armWriteRegister _ _ _)
      (Ensures.pure ?_))
    rw [if_pos h'.2]
    refine ⟨rfl, (ArmCore.write_pc _ _ _).trans ?_⟩
    simp only [h'.1, true_and]
    rfl
  · have hSH : ¬ (bitS = false ∧ bitH = true) := by
      intro hSH
      cases bitL with
      | false => exact h ⟨rfl, hSH⟩
      | true => exact h' ⟨rfl, hSH⟩
    exact Ensures.pure (by rw [if_neg hSH])

/-- A single transfer that is not refused leaves in the PC what it loads to r15, or its base. -/
theorem PcResult.of_transfer {p' : ArmCore} {c : Byte} {ins loaded : Word} (hp : Aligned p.pc)
    (href : ¬ TransferRefused ins) (hloaded : loaded = loadedValue endianess loc ins p)
    (h : c = 0 ∧ p'.pc = if getBit ins 20 = true ∧ (getBits ins 15 12).setWidth 8 = (15 : Byte) then
      loaded else (p.written (transferBase ins p)).pc) :
    PcResult (transferPcWrite endianess loc ins p) c p' := by
  have hc : c ≠ undefinedInstruction := by
    rw [h.1]
    decide
  refine .of_pc hp hc (h.2.trans ?_)
  rw [transferPcWrite, if_neg href, hloaded]
  by_cases hL : getBit ins 20 = true ∧ (getBits ins 15 12).setWidth 8 = (15 : Byte)
  · rw [if_pos hL, if_pos hL]
    rfl
  · rw [if_neg hL, if_neg hL, ArmCore.written_pc]

/-- A single transfer leaves in the PC what the model says of it. -/
theorem transferAt_pc {ins : Word} (hp : Aligned p.pc)
    (hrun : ¬ (¬ getBits ins 27 25 = 0b000 ∧ TransferRefused ins)) :
    Ensures (transferAt endianess loc ins (transferAddress loc ins p))
      (p.written (transferBase ins p)) (PcResult (transferPcWrite endianess loc ins p)) := by
  unfold transferAt
  refine Ensures.ite (fun h0 => ?_) fun h0 => ?_
  · refine (miscellaneousTransfer_pc endianess loc _ _ _ _ _).mono fun c p' ht => ?_
    have hrefused : TransferRefused ins ↔ ¬ (getBit ins 6 = false ∧ getBit ins 5 = true) := by
      rw [TransferRefused, if_pos h0]
    by_cases hSH : getBit ins 6 = false ∧ getBit ins 5 = true
    · rw [if_pos hSH, ArmCore.written_mem] at ht
      refine .of_transfer endianess loc hp (fun href => hrefused.1 href hSH) ?_ ht
      rw [loadedValue, if_pos h0]
    · rw [if_neg hSH] at ht
      rw [transferPcWrite, if_pos (hrefused.2 hSH), ht]
      exact .of_undefined
  · refine (loadStore_pc endianess loc _ _ _ _).mono fun c p' ht => ?_
    refine .of_transfer endianess loc hp (fun href => hrun ⟨h0, href⟩) ?_ ht
    rw [loadedValue, if_neg h0, ArmCore.written_mem]

/-- **What a single transfer leaves in the PC** is what `transferPcWrite` says. -/
theorem armLoadStore_pc {ins : Word} (hp : Aligned p.pc) (h : SingleTransfer ins) :
    Ensures (armLoadStore endianess loc ins) p
      (PcResult (transferPcWrite endianess loc ins p)) := by
  intro c p' hr
  rw [run_armLoadStore endianess loc h] at hr
  split_ifs at hr with href
  · cases hr
    rw [transferPcWrite, if_pos href.2]
    exact .of_undefined
  · exact transferAt_pc endianess loc hp href c p' hr

end

/-! ## Multiple loads and stores -/

section
variable {p : ArmCore} (endianess : Byte) (loc : Locals)

/-- The start address is a multiple of 4 where the base is, and so is the address after the last
word. -/
theorem blockStart_aligned {code rn : Word} {registerList : Half} (h : Aligned rn) :
    Aligned (blockStart registerList code rn) := by
  have h4 : Aligned 4 := by decide
  unfold blockStart
  split_ifs
  · exact h
  · exact h.add h4
  · exact (h.sub (aligned_ofNat _)).add h4
  · exact h.sub (aligned_ofNat _)

/-- A block transfer from an aligned base ends at an aligned address. -/
theorem blockEnd_aligned (ins : Word) {base : Word} (h : Aligned base) :
    Aligned (blockEnd ins base) :=
  (blockStart_aligned h).add (aligned_ofNat _)

/-- The write-back leaves the value `w` in the PC, or takes its place. -/
theorem PcResult.writeIf {w : Option Word} {W : Bool} {reg : Byte} {value : Word} {q : ArmCore}
    (hbase : W = true → reg = 15 → w = none ∧ Aligned value)
    (hq : ¬ (W = true ∧ reg = 15) → PcResult w 0 q) : PcResult w 0 (q.writeIf W reg value) := by
  by_cases h : W = true ∧ reg = 15
  · obtain ⟨hw, hvalue⟩ := hbase h.1 h.2
    obtain ⟨rfl, rfl⟩ := h
    rw [hw]
    exact .inr (((q.write_pc 15 value).trans (if_pos rfl)) ▸ hvalue)
  · refine (hq h).congr ?_
    cases W with
    | false => rfl
    | true => exact (q.write_pc reg value).trans (if_neg fun hr => h ⟨rfl, hr⟩)

/-- An instruction that is refused for its list or its mode loads no word into r15. -/
theorem blockPcWrite_refused {ins : Word} (h : BlockRefused ins p) :
    blockPcWrite endianess loc ins p = none := by
  refine if_neg fun hw => ?_
  rcases h with h0 | hmode
  · refine Bool.false_ne_true (Eq.trans ?_ hw.2.2.1)
    rw [show ((getBits ins 15 0).setWidth 16 : Half) = 0 from h0]
    decide
  · refine hw.2.2.2.1 ?_
    rw [ArmCore.mode, registersGetMode]
    rcases hmode.2 with h | h
    · rw [h]
      decide
    · rw [h]
      decide

/-- **What a multiple transfer leaves in the PC** is what `blockPcWrite` says. -/
theorem armLoadStoreMultiple_pc (hp : Aligned p.pc) (ins : Word) :
    Ensures (armLoadStoreMultiple endianess loc ins) p
      (PcResult (blockPcWrite endianess loc ins p)) := by
  have hend : rnField ins = 15 → Aligned (blockEnd ins (p.read (rnField ins))) := by
    intro hr
    rw [hr]
    exact blockEnd_aligned ins (ArmCore.read_aligned hp)
  -- the load that is not masked is the only one with a word for the PC
  have hnone : ¬ (getBit ins 20 = true ∧ getBit ins 22 = true ∧
      getBit (listField ins) 15 = true) → blockPcWrite endianess loc ins p = none :=
    fun h => if_neg fun hw => h ⟨hw.2.1, hw.1, hw.2.2.1⟩
  obtain ⟨c, p', hrun, hblock⟩ := run_armLoadStoreMultiple endianess loc ins p
  refine Ensures.of_run hrun ?_
  cases hblock with
  | refused h =>
    rw [blockPcWrite_refused endianess loc h]
    exact .of_undefined
  | stored _ hL hs =>
    rw [hnone fun h => Bool.false_ne_true (hL.symm.trans h.1)]
    exact .writeIf (fun _ hr => ⟨rfl, hend hr⟩) fun _ => .inr (hs.pc ▸ hp)
  | loaded _ _ hS hs =>
    rw [hnone fun h => hS h.2.1 h.2.2]
    refine .writeIf (fun _ hr => ⟨rfl, hend hr⟩) fun _ => .inr ?_
    split_ifs
    · -- the masked load
      rw [loadedPc, ArmCore.write_pc, if_pos rfl]
      exact aligned_and_mask _
    · exact hs.pc ▸ hp
  | @returned a s _ hL hS h15 hs hmem ha hspsr =>
    refine .writeIf (fun hW hr => ⟨?_, hend hr⟩) fun hbase => ?_
    · exact if_neg fun hw => hw.2.2.2.2 ⟨hW, hr⟩
    · have hword : blockPcWrite endianess loc ins p =
          some (memoryReadWord s.mem a (loc.value 15) endianess).2 := by
        rw [ha, hmem, blockBase, ← addressingMode_start]
        exact if_pos ⟨hS, hL, h15, Option.isSome_iff_ne_none.1 hspsr, hbase⟩
      rw [hword]
      exact ⟨by decide, (ArmCore.write_pc _ _ _).trans (if_pos rfl)⟩
  | noSpsr _ _ hspsr =>
    have hnone : blockPcWrite endianess loc ins p = none :=
      if_neg fun hw => hspsr (Option.isSome_iff_ne_none.2 hw.2.2.2.1)
    rw [hnone]
    exact .of_undefined

/-! ## Every instruction -/

/-- **What an instruction leaves in the PC** is the value of `pcWrite`, a multiple of 4 where there
is none, or anything where it is undefined. -/
theorem armDecode_pc (hp : Aligned p.pc) (ins : Word) :
    Ensures (armDecode endianess loc ins) p (PcResult (pcWrite endianess loc ins p)) := by
  unfold armDecode pcWrite
  refine Ensures.ite (fun h0 => ?_) fun h0 => Ensures.ite (fun h1 => ?_) fun h1 => ?_
  · rw [if_pos h0]
    refine Ensures.ite (fun hls => ?_) fun hls => Ensures.ite (fun hm => ?_) fun hm => ?_
    · rw [if_pos hls]
      exact armLoadStore_pc endianess loc hp (.inl ⟨h0, hls.1, hls.2⟩)
    · have hmisc : Miscellaneous ins := ⟨h0, hm.1, hm.2, hls⟩
      rw [if_neg hls, if_pos hm]
      refine Ensures.ite (fun _ => armMiscellaneous_pc hp hmisc) fun h7 => absurd ?_ h7
      exact hmisc.low
    · rw [if_neg hls, if_neg hm]
      exact armDataProcessingShift_pc hp ins
  · rw [if_neg h0, if_pos h1]
    refine Ensures.ite (fun hmsr => ?_) fun hmsr => ?_
    · rw [if_pos hmsr]
      exact armMsrImmediate_pc hp ins
    · rw [if_neg hmsr]
      exact armDataProcessingImmediate_pc hp ins
  · rw [if_neg h0, if_neg h1]
    refine Ensures.ite (fun h2 => ?_) fun h2 => Ensures.ite (fun h3 => ?_) fun h3 =>
      Ensures.ite (fun h4 => ?_) fun h4 => ?_
    · rw [if_pos h2]
      exact armLoadStore_pc endianess loc hp (.inr (.inl h2))
    · rw [if_neg h2, if_pos h3]
      refine Ensures.ite (fun hb4 => ?_) fun hb4 => ?_
      · rw [if_pos hb4]
        exact armLoadStore_pc endianess loc hp (.inr (.inr ⟨h3, hb4⟩))
      · rw [if_neg hb4]
        exact Ensures.pure .of_undefined
    · rw [if_neg h2, if_neg h3, if_pos h4]
      exact armLoadStoreMultiple_pc endianess loc hp ins
    · rw [if_neg h2, if_neg h3, if_neg h4]
      refine Ensures.ite (fun _ => armBranch_pc hp ins) fun _ =>
        Ensures.ite (fun _ => ?_) fun _ => ?_
      · exact Ensures.pure .of_undefined
      · exact Ensures.ite (fun _ => Ensures.pure .of_undefined) fun _ => Ensures.pure (.inr hp)

end

/-! ## Events and runs -/

/-- The stored r15 is a multiple of 4, and so is the address of the fetch. -/
structure PcAligned (p : ArmCore) : Prop where
  pc : Aligned p.pc
  fetch : ∀ endianess value r p', (armFetch endianess value).run p = some (r, p') →
    ∃ address, p'.accesses = ⟨4, address⟩ :: p.accesses ∧ Aligned address

/-- The fetch reads at the PC. -/
theorem pcAligned_iff {p : ArmCore} : PcAligned p ↔ Aligned p.pc := by
  refine ⟨PcAligned.pc, fun h => ⟨h, fun endianess value r p' hr => ?_⟩⟩
  rw [run_armFetch] at hr
  cases hr
  refine ⟨registersRead p.reg 15 p.mode, rfl, ?_⟩
  rw [registersRead_pc]
  exact h

/-- The step executes an instruction that gives the PC, without masking it, a value that is not a
multiple of 4. -/
def Event.Misaligns (endianess : Byte) (p : ArmCore) : Event → Prop
  | .step loc =>
    let ins := p.fetchedWord endianess loc
    conditionHolds (ins >>> 28) p.reg.cpsr = true ∧
      ∃ value, pcWrite endianess loc ins p.fetched = some value ∧ ¬ Aligned value
  | .exception _ _ => False

/-- A vector is a multiple of 4. -/
theorem ArmCore.entered_aligned (p : ArmCore) (cpsr offset : Word) {vector : Word}
    (hv : vector ∈ vectors) : Aligned (p.entered cpsr offset vector).pc := by
  have hall : ∀ vector ∈ vectors, Aligned vector := by simp [vectors, Aligned]
  rw [ArmCore.entered_pc]
  exact hall vector hv

section
variable (endianess : Byte) {p p' : ArmCore}

/-- An exception goes to its vector, or leaves the PC. -/
theorem armException_aligned (loc : Locals) (exception : Byte) (hp : Aligned p.pc) :
    Ensures (armException endianess loc exception) p fun _ p' => Aligned p'.pc := by
  obtain ⟨c, p', hrun, hp'⟩ := armException_cases endianess loc p exception
  refine Ensures.of_run hrun ?_
  cases hp' with
  | reset =>
    rw [ArmCore.write_pc, if_pos rfl]
    decide
  | entered _ hvector => exact p.entered_aligned _ _ hvector
  | same hreg =>
    rw [ArmCore.pc, hreg]
    exact hp

/-- The fetch advances the PC by 4, and the instruction does the rest. -/
theorem armExecuteInstruction_pc (loc : Locals) (hp : Aligned p.pc) :
    Ensures (armExecuteInstruction endianess loc) p fun c p' =>
      c = undefinedInstruction ∧ ¬ (Event.step loc).Misaligns endianess p ∨
        c ≠ undefinedInstruction ∧
          (Aligned p'.pc ↔ ¬ (Event.step loc).Misaligns endianess p) := by
  intro c p' hr
  have hfetched : Aligned p.fetched.pc := by
    rw [ArmCore.fetched_pc]
    exact hp.add (by decide)
  rw [run_armExecuteInstruction] at hr
  split_ifs at hr with hcond
  · have hdecode := armDecode_pc endianess loc hfetched _ c p' hr
    by_cases hc : c = undefinedInstruction
    · refine .inl ⟨hc, fun ⟨_, value, hw, _⟩ => ?_⟩
      rw [hw] at hdecode
      exact hdecode.1 hc
    · refine .inr ⟨hc, ?_⟩
      cases hw : pcWrite endianess loc (p.fetchedWord endianess loc) p.fetched with
      | none =>
        rw [hw] at hdecode
        refine iff_of_true (hdecode.resolve_left hc) fun ⟨_, value, hw', _⟩ => ?_
        rw [hw] at hw'
        cases hw'
      | some value =>
        rw [hw] at hdecode
        rw [hdecode.2]
        refine ⟨fun ha ⟨_, value', hw', ha'⟩ => ?_, fun h => ?_⟩
        · rw [hw] at hw'
          cases hw'
          exact ha' ha
        · by_contra ha
          exact h ⟨hcond, value, hw, ha⟩
  · cases hr
    exact .inr ⟨by decide, iff_of_true hfetched fun h => hcond h.1⟩

/-- One event from an aligned state keeps the PC aligned unless it misaligns it. -/
theorem EventStep.aligned_iff {e : Event} (h : EventStep endianess p e p') (hp : Aligned p.pc) :
    Aligned p'.pc ↔ ¬ e.Misaligns endianess p := by
  obtain ⟨code, hrun⟩ := h
  cases e with
  | step loc =>
    rw [Event.run] at hrun
    obtain ⟨c₁, p₁, hrun₁, hout⟩ := armStep_executed endianess loc hrun
    rcases armExecuteInstruction_pc endianess loc hp c₁ p₁ hrun₁ with ⟨hc, hno⟩ | ⟨hc, hiff⟩
    · rcases hout with ⟨-, -, rfl⟩ | ⟨hc', -⟩
      · exact iff_of_true (p₁.entered_aligned _ _ (by decide)) hno
      · exact absurd hc hc'
    · rcases hout with ⟨hc', -⟩ | ⟨-, -, hr, -⟩
      · exact absurd hc' hc
      · rw [ArmCore.pc, hr]
        exact hiff
  | exception loc number =>
    exact iff_of_true (armException_aligned endianess loc number hp code p' hrun) id

/-- An event that keeps the PC aligned. -/
def AlignedStep (p : ArmCore) (e : Event) (p' : ArmCore) : Prop :=
  EventStep endianess p e p' ∧ ¬ e.Misaligns endianess p

end

/-- `arm_create` leaves the PC at 0. -/
theorem pc_armCreate {endianess : Byte} {loc : Locals} {reg : Registers} {mem : Memory}
    {p : ArmCore} (h : armCreate endianess loc reg mem = some p) : p.pc = 0 := by
  cases h
  exact ((ArmCore.write_pc _ _ _).trans (if_neg (by decide))).trans
    ((ArmCore.write_pc _ _ _).trans (if_pos rfl))

/-- **The alignment of the PC.** From `arm_create`, as long as no instruction gives the PC a value
that is not a multiple of 4 without masking it, the PC is aligned; and the first one that does so
ends that. -/
theorem pcAligned_run_iff (endianess : Byte) {loc : Locals} {reg : Registers} {mem : Memory}
    {p₀ p : ArmCore} {events : List Event} (hcreate : armCreate endianess loc reg mem = some p₀)
    (hrun : Run (AlignedStep endianess) p₀ events p) :
    PcAligned p ∧ ∀ e p', EventStep endianess p e p' →
      (PcAligned p' ↔ ¬ e.Misaligns endianess p) := by
  have hp₀ : Aligned p₀.pc := by
    rw [pc_armCreate hcreate]
    decide
  obtain ⟨hp, hnext⟩ := hrun.invariant_iff (I := fun p => Aligned p.pc)
    (fun h hp => h.aligned_iff endianess hp) hp₀
  refine ⟨pcAligned_iff.2 hp, fun e p' h => ?_⟩
  rw [pcAligned_iff]
  exact hnext e p' h

/-- `LDR pc, [r0, #8]`, then nothing that is executed, and the word 4, in the memory of a processor
that was just created. -/
def loadPcAligned : ArmCore :=
  ((ArmCore.initial 0x1d3 (.ofWords [0xE590F008, 0, 4])).write 15 0).write 13 12

/-- The step of the load gives the PC the word, which is a multiple of 4, and an interrupt then a
vector. -/
theorem pcAligned_loaded :
    ∃ p p', Run (AlignedStep 1) loadPcAligned [.step .zero] p ∧ p.pc = 4 ∧ PcAligned p ∧
      EventStep 1 p (.exception .zero interrupt) p' ∧ PcAligned p' := by
  have hcreate : armCreate 1 .zero registersCreate (.ofWords [0xE590F008, 0, 4]) =
      some loadPcAligned := rfl
  have hfirst : ((armStep 1 .zero).run loadPcAligned).map (fun r => r.2.pc) = some 4 := by
    decide +kernel
  obtain ⟨⟨code, p⟩, hrun, hpc⟩ := Option.map_eq_some_iff.1 hfirst
  have hwrite : pcWrite 1 .zero (loadPcAligned.fetchedWord 1 .zero) loadPcAligned.fetched =
      some 4 := by
    decide +kernel
  have hallowed : ¬ (Event.step .zero).Misaligns 1 loadPcAligned := by
    rintro ⟨-, value, hvalue, hno⟩
    cases hwrite.symm.trans hvalue
    exact hno (by decide)
  have hreached : Run (AlignedStep 1) loadPcAligned [.step .zero] p :=
    .single ⟨⟨code, hrun⟩, hallowed⟩
  obtain ⟨haligned, hnext⟩ := pcAligned_run_iff 1 hcreate hreached
  have hstep : EventStep 1 p (.exception .zero interrupt) (p.entered 0x193 4 0x18) :=
    ⟨interrupt, run_armException_interrupt 1 .zero p⟩
  exact ⟨p, _, hreached, hpc, haligned, hstep, (hnext _ _ hstep).2 id⟩

/-- `LDR pc, [r0, #4]` and the word 2, in the memory of a processor that was just created. -/
def loadPcProgram : ArmCore :=
  ((ArmCore.initial 0x1d3 (.ofWords [0xE590F004, 2])).write 15 0).write 13 8

/-- The step leaves 2 in the PC, which the next fetch reads at. -/
theorem pcAligned_fails :
    ∃ p, Reachable 1 p ∧ ¬ PcAligned p ∧ p.fetched.accesses.head? = some ⟨4, 2⟩ := by
  have hrun : ((armStep 1 .zero).run loadPcProgram).map
      (fun r => (r.2.pc, r.2.fetched.accesses.head?)) = some (2, some ⟨4, 2⟩) := by
    decide +kernel
  obtain ⟨⟨code, p⟩, hr, he⟩ := Option.map_eq_some_iff.1 hrun
  obtain ⟨hpc, hfetch⟩ := Prod.mk.inj he
  refine ⟨p, ⟨.zero, registersCreate, .ofWords [0xE590F004, 2], loadPcProgram, [.step .zero], rfl,
    .single ⟨code, hr⟩⟩, fun h => ?_, hfetch⟩
  have h2 : Aligned 2 := (show p.pc = 2 from hpc) ▸ h.pc
  exact absurd h2 (by decide)

end ArmSimulator
