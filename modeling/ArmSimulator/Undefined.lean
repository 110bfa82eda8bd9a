import ArmSimulator.Step
import ArmSimulator.WriteBack

/-!
# What an undefined instruction leaves

An instruction that returns UNDEFINED_INSTRUCTION should leave the state as it was after the fetch.
Most of the returns come before any write. Two come after one: data processing writes its result to
the PC before it finds that the mode has no SPSR to restore, and the address computation of the
halfword transfers updates the base before the transfer turns out to be none of the two that are
implemented. `lateWrite` is that write, `armDecode_undefined` says that nothing else is left, and
`undefined_effect_iff` says when the write matters.
-/

namespace ArmSimulator

open Prog

/-! ## The writes that come too early -/

/-- The update of the base register by the addressing modes of the halfword transfers: post-indexed
for `P = 0`, with write-back for `P = 1` and `W = 1`. -/
def baseUpdate (ins : Word) (p : ArmCore) : Option (Byte × Word) :=
  let rnRegister : Byte := (getBits ins 19 16).setWidth 8
  let rm : Byte := (getBits ins 3 0).setWidth 8
  let offset8 := (getBits ins 11 8 <<< 4) ||| getBits ins 3 0
  let offset := if getBit ins 22 then offset8 else p.read rm
  if getBit ins 24 = getBit ins 21 then
    some (rnRegister, checkU (getBit ins 23) (p.read rnRegister) offset)
  else none

/-- The write of a result to the PC by data processing with `S = 1`. -/
def pcResult (ins : Word) (operand : Word × Bool) (p : ArmCore) : Option (Byte × Word) :=
  let opcode : Byte := (getBits ins 24 21).setWidth 8
  let rn : Byte := (getBits ins 19 16).setWidth 8
  let rd : Byte := (getBits ins 15 12).setWidth 8
  let r := opcodeResult opcode (p.read rn) operand.1 operand.2 (getBit p.reg.cpsr Flag.C)
    (getBit p.reg.cpsr Flag.V)
  if getBit ins sIndex = true ∧ rd = 15 ∧ r.changeRd = true then some (rd, r.result) else none

/-- The shifter operand of `arm_data_processing_shift`; `none` where the instruction is refused. -/
def shiftedOperand (ins : Word) (p : ArmCore) : Option (Word × Bool) :=
  let rn : Byte := (getBits ins 19 16).setWidth 8
  let rd : Byte := (getBits ins 15 12).setWidth 8
  let rm : Byte := (getBits ins 3 0).setWidth 8
  let rs : Byte := (getBits ins 11 8).setWidth 8
  shifterOperand (getBits ins 11 0) (getBit p.reg.cpsr Flag.C) rd rn rm rs (p.read rm) (p.read rs)
    (p.read 15)

/-- The operand of `arm_data_processing_immediate`. -/
def immediateOperand (ins : Word) (p : ArmCore) : Word × Bool :=
  let rotateImm : Byte := (getBits ins 11 8).setWidth 8
  let operand := ror (getBits ins 7 0) (rotateImm * 2)
  (operand, if rotateImm = 0 then getBit p.reg.cpsr Flag.C else getBit operand 31)

/-- The register, and the value, that an undefined instruction writes before it is found to be
undefined. `p` is the state after the fetch. -/
def lateWrite (ins : Word) (p : ArmCore) : Option (Byte × Word) :=
  if getBits ins 27 25 = 0b000 then
    if getBit ins 4 = true ∧ getBit ins 7 = true then baseUpdate ins p
    else if getBits ins 24 23 = 2 ∧ getBit ins 20 = false then none
    else (shiftedOperand ins p).bind fun operand => pcResult ins operand p
  else if getBits ins 27 25 = 0b001 then
    if getBits ins 24 23 = 0b10 ∧ getBits ins 21 20 = 0b10 then none
    else pcResult ins (immediateOperand ins p) p
  else none

/-- The state after such a write. -/
def ArmCore.written (p : ArmCore) : Option (Byte × Word) → ArmCore
  | none => p
  | some (reg, value) => p.write reg value

/-! ## The handlers -/

/-- A run of `m` from `p` that returns UNDEFINED_INSTRUCTION leaves the state `q`. -/
abbrev UndefinedLeaves (m : ArmM Byte) (p q : ArmCore) : Prop :=
  Leaves (· = undefinedInstruction) m p q

/-- Success is not undefined. -/
theorem UndefinedLeaves.of_success {m : ArmM Byte} (h : ReturnsSuccess m) (p q : ArmCore) :
    UndefinedLeaves m p q :=
  Leaves.of_returns (h.mono fun a ha => by rw [ha]; decide) p q

section
variable (p : ArmCore)

/-- Where there is no SPSR the query changes nothing. -/
theorem currentModeHasSpsr_false (h : ¬ (registersCurrentModeHasSpsr p.reg).1 = true) :
    ({ p with reg := (registersCurrentModeHasSpsr p.reg).2 } : ArmCore) = p := by
  rw [registersCurrentModeHasSpsr, registersModeHasSpsr_eq] at h ⊢
  have hnone : rstatInd (registersGetMode p.reg) = none := by simpa using h
  simp only [registersWriteSpsr, hnone]

/-- The query, the success where there is an SPSR, and the return where there is none. -/
theorem undefined_of_spsr {m : ArmM Byte} (h : ReturnsSuccess m) :
    UndefinedLeaves (armCurrentModeHasSpsr >>= fun b =>
      if b then m else return undefinedInstruction) p p := by
  refine Leaves.bind (run_armCurrentModeHasSpsr p) (Leaves.ite (fun _ => ?_) fun hb => ?_)
  · exact UndefinedLeaves.of_success h _ _
  · -- the query is the only write of the branch
    rw [currentModeHasSpsr_false p hb]
    exact Leaves.pure _ _

/-- The arithmetic of a data processing instruction that ends undefined has written at most its
result to r15. -/
theorem undefined_dataProcessing (sBit : Bool) (opcode rd : Byte) (rnValue operand : Word)
    (carryOut : Bool) :
    let r := opcodeResult opcode rnValue operand carryOut (getBit p.reg.cpsr Flag.C)
      (getBit p.reg.cpsr Flag.V)
    UndefinedLeaves (dataProcessing sBit opcode rd rnValue operand carryOut) p
      (p.written (if sBit = true ∧ rd = 15 ∧ r.changeRd = true then some (rd, r.result)
        else none)) := by
  intro r
  by_cases h : sBit = true ∧ rd = 15
  · obtain ⟨rfl, rfl⟩ := h
    refine Ensures.of_run (run_dataProcessing_pc p opcode rnValue operand carryOut) fun hc => ?_
    have hspsr : ¬ (rstatInd p.mode).isSome = true := by
      intro hsome
      rw [if_pos hsome] at hc
      exact absurd hc (by decide)
    have hfst :
        ¬ (registersCurrentModeHasSpsr (p.writeIf r.changeRd 15 r.result).reg).1 = true := by
      have hmode : registersGetMode (p.writeIf r.changeRd 15 r.result).reg = p.mode :=
        p.writeIf_mode r.changeRd 15 r.result
      rw [registersCurrentModeHasSpsr_fst, hmode]
      exact hspsr
    refine (currentModeHasSpsr_false _ hfst).trans ?_
    cases hr : r.changeRd with
    | false => simp [ArmCore.written, ArmCore.writeIf]
    | true => simp [ArmCore.written, ArmCore.writeIf]
  · exact Ensures.of_run (run_dataProcessing p opcode h rnValue operand carryOut)
      fun hc => absurd hc (by decide)

/-- A data processing instruction with a shifted operand that is undefined has written at most its
result to r15. -/
theorem undefined_armDataProcessingShift (ins : Word) :
    UndefinedLeaves (armDataProcessingShift ins) p
      (p.written ((shiftedOperand ins p).bind fun operand => pcResult ins operand p)) := by
  unfold armDataProcessingShift shiftedOperand
  refine Leaves.bind (run_armReadCpsr p) (Leaves.bind (run_armReadRegister p _)
    (Leaves.bind (run_armReadRegister p _) (Leaves.bind (run_armReadRegister p _)
      (Leaves.bind (run_armReadRegister p _) ?_))))
  split
  · next h =>
    rw [h]
    exact Leaves.pure _ _
  · next operand carryOut h =>
    rw [h]
    exact undefined_dataProcessing p _ _ _ _ _ _

/-- An `MSR` with an immediate that is undefined has written nothing. -/
theorem undefined_armMsrImmediate (ins : Word) :
    UndefinedLeaves (armMsrImmediate ins) p p := by
  have hwrite : ∀ mask operand : Word, ReturnsSuccess (armReadCpsr >>= fun cpsr => do
      armWriteCpsr ((cpsr &&& ~~~mask) ||| (operand &&& mask))
      return successfullyDecoded) :=
    fun _ _ => Returns.bind fun _ => success_of_then
  unfold armMsrImmediate
  refine Leaves.ite (fun _ => Leaves.pure _ _) fun _ => Leaves.ite (fun _ => ?_) fun _ => ?_
  · refine Leaves.bind (run_armInAPrivilegedMode p) (Leaves.ite (fun _ => ?_) fun _ => ?_)
    · refine Leaves.ite (fun _ => Leaves.pure _ _) fun _ => ?_
      exact UndefinedLeaves.of_success (hwrite _ _) _ _
    · exact UndefinedLeaves.of_success (hwrite _ _) _ _
  · exact undefined_of_spsr p (Returns.bind fun _ => success_of_then)

/-- A data processing instruction with an immediate that is undefined has written at most its result
to r15. -/
theorem undefined_armDataProcessingImmediate (ins : Word) :
    UndefinedLeaves (armDataProcessingImmediate ins) p
      (p.written (pcResult ins (immediateOperand ins p) p)) := by
  unfold armDataProcessingImmediate
  refine Leaves.bind (run_armReadCpsr p) (Leaves.bind (run_armReadRegister p _) ?_)
  exact undefined_dataProcessing p _ _ _ _ _ _

/-- The modes other than USR and SYS have an SPSR. -/
theorem rstatInd_isSome {mode : Byte} (hm : mode ∈ modes) (hu : mode ≠ USR) (hs : mode ≠ SYS) :
    (rstatInd mode).isSome = true := by
  have hall : ∀ mode ∈ modes, mode ≠ USR → mode ≠ SYS → mode ∈ exceptionModes := by decide
  obtain ⟨i, hi, -⟩ := rstatInd_exceptionModes (hall mode hm hu hs)
  rw [hi]
  rfl

section
variable (endianess : Byte) (loc : Locals) (ins : Word)

/-- A refusal of the address computation comes before any write. -/
theorem processLoadStoreInstruction_triple (P W bitU : Bool) (address rn : Word)
    (rnRegister : Byte) (value : Word) :
    Triple (· = p) (processLoadStoreInstruction P W bitU address rn rnRegister value)
      fun r q => r.1 = 0 ∨ q = p := by
  unfold processLoadStoreInstruction
  refine Triple.ite (fun _ => Triple.pure fun _ _ => .inl rfl) fun _ => Triple.ite (fun _ => ?_)
    fun _ => Triple.ite (fun _ => ?_) fun _ => Triple.pure fun _ hq => .inr hq
  · exact fun q _ => ⟨_, _, rfl, .inl rfl⟩
  · exact fun q _ => ⟨_, _, rfl, .inl rfl⟩

/-- The address of a halfword transfer; the computation makes the update `baseUpdate`. -/
theorem run_miscellaneousAddress :
    (miscellaneousAddress loc ins (getBit ins 24) (getBit ins 23)
      (p.read ((getBits ins 19 16).setWidth 8)) (p.read ((getBits ins 3 0).setWidth 8))
      ((getBits ins 19 16).setWidth 8)).run p =
    some (if getBit ins 24 then
        checkU (getBit ins 23) (p.read ((getBits ins 19 16).setWidth 8))
          (if getBit ins 22 then (getBits ins 11 8 <<< 4) ||| getBits ins 3 0
            else p.read ((getBits ins 3 0).setWidth 8))
      else if getBit ins 21 then loc.address
      else p.read ((getBits ins 19 16).setWidth 8), p.written (baseUpdate ins p)) := by
  unfold miscellaneousAddress baseUpdate
  rw [getBits_pair ins 21]
  cases getBit ins 24 <;> cases getBit ins 22 <;> cases getBit ins 21
  all_goals rfl

/-- The access of a halfword or of a signed value that is undefined has written nothing. -/
theorem undefined_miscellaneousTransfer (bitL bitS bitH : Bool) (rd : Byte) (address : Word) :
    UndefinedLeaves (miscellaneousTransfer endianess loc bitL bitS bitH rd address) p p := by
  unfold miscellaneousTransfer
  refine Leaves.ite (fun _ => ?_) fun _ => Leaves.ite (fun _ => ?_) fun _ => Leaves.pure _ _
  · exact UndefinedLeaves.of_success (Returns.bind fun _ => success_of_then) _ _
  · exact UndefinedLeaves.of_success (Returns.bind fun _ => success_of_then) _ _

/-- A transfer of a word or a byte that ends undefined has written nothing. -/
theorem undefined_loadStore (P W bitU bitL bitB : Bool) (address rn : Word) (rnRegister rd : Byte)
    (value : Word) :
    UndefinedLeaves (processLoadStoreInstruction P W bitU address rn rnRegister value >>= fun r =>
      if r.1 ≠ 0 then return r.1 else loadStore endianess loc bitL bitB rd r.2) p p := by
  refine Leaves.bind_triple (processLoadStoreInstruction_triple p P W bitU address rn rnRegister
    value) rfl fun r q hq => Leaves.ite (fun hr => ?_) fun _ => ?_
  · rw [hq.resolve_left hr]
    exact Leaves.pure _ _
  · exact UndefinedLeaves.of_success (success_loadStore _ _ _ _ _ _) _ _

/-- The halfword transfers keep the update of the base; the others keep nothing. -/
theorem undefined_armLoadStore :
    UndefinedLeaves (armLoadStore endianess loc ins) p
      (p.written (if getBits ins 27 25 = 0b000 ∧ getBit ins 7 = true ∧ getBit ins 4 = true then
        baseUpdate ins p else none)) := by
  unfold armLoadStore
  refine Leaves.bind (run_armReadRegister p _) (Leaves.bind (run_armReadRegister p _)
    (Leaves.ite (fun h => ?_) fun _ => Leaves.ite (fun h => ?_) fun _ => Leaves.ite (fun _ => ?_)
      fun _ => Leaves.ite (fun h => ?_) fun _ => ?_))
  · rw [if_neg fun hn => absurd (h.symm.trans hn.1) (by decide)]
    exact undefined_loadStore p _ _ _ _ _ _ _ _ _ _ _ _
  · rw [if_neg fun hn => absurd (h.1.symm.trans hn.1) (by decide)]
    exact undefined_loadStore p _ _ _ _ _ _ _ _ _ _ _ _
  · refine UndefinedLeaves.of_success (Returns.bind fun _ => success_loadStore _ _ _ _ _ _) _ _
  · rw [if_pos h]
    exact Leaves.bind (run_miscellaneousAddress p loc ins)
      (undefined_miscellaneousTransfer _ _ _ _ _ _ _ _)
  · exact UndefinedLeaves.of_success (success_loadStore _ _ _ _ _ _) _ _

/-- Where `LDM` asks for an SPSR there is one: USR and SYS have been refused before the loop. -/
theorem undefined_armLoadStoreMultiple (hm : p.mode ∈ modes) :
    UndefinedLeaves (armLoadStoreMultiple endianess loc ins) p p := by
  obtain ⟨c, p', hrun, hblock⟩ := run_armLoadStoreMultiple endianess loc ins p
  refine Ensures.of_run hrun fun hc => ?_
  cases hblock with
  | refused => rfl
  | stored | loaded | returned => exact absurd hc (by decide)
  | noSpsr hrefused hS hspsr =>
    have hmode := (not_or.1 hrefused).2
    rw [ArmCore.cpsr_and_mode] at hmode
    exact absurd (rstatInd_isSome hm (fun he => hmode ⟨hS, .inl (by rw [he])⟩)
      fun he => hmode ⟨hS, .inr (by rw [he])⟩) hspsr

/-- A branch that is undefined has written nothing. -/
theorem undefined_armBranch : UndefinedLeaves (armBranch ins) p p := by
  unfold armBranch
  refine Leaves.ite (fun _ => Leaves.pure _ _) fun _ => ?_
  exact UndefinedLeaves.of_success (Returns.bind fun _ => Returns.bind fun _ => success_of_then) _ _

/-- A word routed to `arm_miscellaneous` that is undefined has written nothing. -/
theorem undefined_armMiscellaneous : UndefinedLeaves (armMiscellaneous ins) p p := by
  unfold armMiscellaneous
  refine Leaves.ite (fun _ => Leaves.pure _ _) fun _ => Leaves.ite (fun _ => ?_) fun _ => ?_
  · exact undefined_of_spsr p (Returns.bind fun _ => success_of_then)
  · exact UndefinedLeaves.of_success (Returns.bind fun _ => success_of_then) _ _

/-- A coprocessor word that is undefined has written nothing. -/
theorem undefined_armCoprocessorOthersSwi : UndefinedLeaves (armCoprocessorOthersSwi ins) p p :=
  Leaves.ite (fun _ => Leaves.pure _ _) fun _ => Leaves.pure _ _

/-- **What an undefined instruction leaves**: the state after the fetch, and the late write. -/
theorem armDecode_undefined (hm : p.mode ∈ modes) :
    UndefinedLeaves (armDecode endianess loc ins) p (p.written (lateWrite ins p)) := by
  unfold armDecode lateWrite
  refine Leaves.ite (fun h => ?_) fun h0 => Leaves.ite (fun h => ?_) fun h1 => ?_
  · rw [if_pos h]
    refine Leaves.ite (fun hls => ?_) fun hls => Leaves.ite (fun hmisc => ?_) fun hmisc => ?_
    · have hload := undefined_armLoadStore p endianess loc ins
      rw [if_pos ⟨h, hls.2, hls.1⟩] at hload
      rw [if_pos hls]
      exact hload
    · rw [if_neg hls, if_pos hmisc]
      exact Leaves.ite (fun _ => undefined_armMiscellaneous p ins) fun _ => Leaves.pure _ _
    · rw [if_neg hls, if_neg hmisc]
      exact undefined_armDataProcessingShift p ins
  · rw [if_neg h0, if_pos h]
    refine Leaves.ite (fun hmsr => ?_) fun hmsr => ?_
    · rw [if_pos hmsr]
      exact undefined_armMsrImmediate p ins
    · rw [if_neg hmsr]
      exact undefined_armDataProcessingImmediate p ins
  · rw [if_neg h0, if_neg h1]
    have hload := undefined_armLoadStore p endianess loc ins
    rw [if_neg fun hn => h0 hn.1] at hload
    refine Leaves.ite (fun _ => hload) fun _ => Leaves.ite (fun _ => Leaves.ite (fun _ => hload)
      fun _ => Leaves.pure _ _) fun _ => ?_
    refine Leaves.ite (fun _ => undefined_armLoadStoreMultiple p endianess loc ins hm) fun _ =>
      Leaves.ite (fun _ => undefined_armBranch p ins) fun _ => ?_
    exact Leaves.ite (fun _ => Leaves.pure _ _) fun _ => undefined_armCoprocessorOthersSwi p ins

end

end

/-! ## When nothing is left -/

/-- The state `p'` differs from `p` only by the PC and the cycle count, which the fetch advances. -/
structure OnlyFetched (p p' : ArmCore) : Prop where
  pc : p'.reg.genreg 15 = p.reg.genreg 15 + 4
  genreg : ∀ i, i ≠ 15 → p'.reg.genreg i = p.reg.genreg i
  cpsr : p'.reg.cpsr = p.reg.cpsr
  rstat : p'.reg.rstat = p.reg.rstat
  mem : p'.mem = p.mem
  cycleCount : p'.cycleCount = p.cycleCount + 1
  output : p'.output = p.output

/-- The late write of the instruction changes the register it writes. -/
def LateWrite (ins : Word) (p : ArmCore) : Prop :=
  ∃ reg value, lateWrite ins p = some (reg, value) ∧ registersRead p.reg reg p.mode ≠ value

section
variable (p : ArmCore)

/-- The late write is to one of r0 to r15. -/
theorem lateWrite_le {ins : Word} {reg : Byte} {value : Word}
    (h : lateWrite ins p = some (reg, value)) : reg ≤ 15 := by
  have hbase : baseUpdate ins p = some (reg, value) → reg ≤ 15 := by
    intro hu
    rw [baseUpdate, Option.ite_none_right_eq_some] at hu
    cases hu.2
    exact getBits_le ins 16
  have hpc : ∀ operand, pcResult ins operand p = some (reg, value) → reg ≤ 15 := by
    intro operand hr
    rw [pcResult, Option.ite_none_right_eq_some] at hr
    cases hr.2
    exact getBits_le ins 12
  unfold lateWrite at h
  split_ifs at h
  · exact hbase h
  · obtain ⟨operand, _, hr⟩ := Option.bind_eq_some_iff.1 h
    exact hpc operand hr
  · exact hpc _ h

/-- Against the state after the fetch, only the registers, the memory and the counter matter. -/
theorem onlyFetched_iff (q : ArmCore) (hreg : q.reg.cpsr = p.fetched.reg.cpsr)
    (hrstat : q.reg.rstat = p.fetched.reg.rstat) (hmem : q.mem = p.mem)
    (hcycle : q.cycleCount = p.fetched.cycleCount) (hout : q.output = p.output) :
    OnlyFetched p q ↔ q.reg.genreg = p.fetched.reg.genreg := by
  have hgen : ∀ i, p.fetched.reg.genreg i =
      if i = 15 then p.reg.genreg 15 + 4 else p.reg.genreg i := by
    intro i
    simp only [ArmCore.fetched, registersWrite_genreg, slot_pc, registersRead, Option.some.injEq,
      eq_comm]
  constructor
  · intro h
    funext i
    rw [hgen]
    split_ifs with hi
    · rw [hi]
      exact h.pc
    · exact h.genreg i hi
  · intro h
    refine ⟨?_, fun i hi => ?_, ?_, ?_, hmem, hcycle, hout⟩
    · rw [h, hgen, if_pos rfl]
    · rw [h, hgen, if_neg hi]
    · rw [hreg, ArmCore.fetched_cpsr]
    · rw [hrstat, ArmCore.fetched, registersWrite_rstat]

end

/-- **When an undefined instruction has no effect**: if and only if there is no late write, or it
writes what the register holds. -/
theorem undefined_effect_iff (endianess : Byte) (loc : Locals) {p p' : ArmCore}
    (hm : p.mode ∈ modes)
    (h : (armExecuteInstruction endianess loc).run p = some (undefinedInstruction, p')) :
    OnlyFetched p p' ↔ ¬ LateWrite (p.fetchedWord endianess loc) p.fetched := by
  have hmode := p.fetched_mode
  have hp' : p' = p.fetched.written (lateWrite (p.fetchedWord endianess loc) p.fetched) := by
    rw [run_armExecuteInstruction] at h
    split_ifs at h
    · exact armDecode_undefined p.fetched endianess loc _ (hmode ▸ hm) _ _ h rfl
    · cases h
  rw [hp']
  cases hw : lateWrite (p.fetchedWord endianess loc) p.fetched with
  | none =>
    have hno : ¬ LateWrite (p.fetchedWord endianess loc) p.fetched := by
      rintro ⟨reg, value, hs, _⟩
      rw [hw] at hs
      cases hs
    exact iff_of_true ((onlyFetched_iff p p.fetched rfl rfl rfl rfl rfl).2 rfl) hno
  | some w =>
    obtain ⟨reg, value⟩ := w
    have hslot : (slot reg p.fetched.mode).isSome :=
      slot_isSome (lateWrite_le p.fetched hw) (hmode ▸ hm)
    have hlate : LateWrite (p.fetchedWord endianess loc) p.fetched ↔
        registersRead p.fetched.reg reg p.fetched.mode ≠ value := by
      constructor
      · rintro ⟨reg', value', hs, hne⟩
        rw [hw] at hs
        cases hs
        exact hne
      · intro hne
        exact ⟨reg, value, hw, hne⟩
    rw [hlate, not_not, ← registersWrite_genreg_eq_iff _ _ _ _ hslot]
    exact onlyFetched_iff p (p.fetched.write reg value) (registersWrite_cpsr _ _ _ _)
      (registersWrite_rstat _ _ _ _) rfl rfl rfl

/-- `LDRSB r0, [r1, #4]`, which does not update its base, is refused without an effect. -/
theorem undefined_effect_offsetLoad :
    ∃ p', (armExecuteInstruction 1 .zero).run (.initial 0x10 (.ofWords [0xE1D100D4])) =
        some (undefinedInstruction, p') ∧
      OnlyFetched (.initial 0x10 (.ofWords [0xE1D100D4])) p' := by
  refine ⟨_, rfl, (undefined_effect_iff 1 .zero (by decide) rfl).2 ?_⟩
  have hword : (ArmCore.initial 0x10 (.ofWords [0xE1D100D4])).fetchedWord 1 .zero = 0xE1D100D4 := by
    decide +kernel
  rw [hword]
  rintro ⟨reg, value, hlate, -⟩
  rw [show lateWrite 0xE1D100D4 _ = none from rfl] at hlate
  cases hlate

/-- `LDRSB r0, [r1], #4` in user mode, at address 0 of a memory of one word. -/
def signedLoad : ArmCore := .initial 0x10 (.ofWords [0xE0D100D4])

/-- The signed load is refused with its base register already updated. -/
theorem undefined_effect_fails :
    signedLoad.mode ∈ modes ∧ ∃ p', (armExecuteInstruction 1 .zero).run signedLoad =
      some (undefinedInstruction, p') ∧ p'.reg.genreg 1 = 4 ∧ ¬ OnlyFetched signedLoad p' := by
  have hrun : ((armExecuteInstruction 1 .zero).run signedLoad).map (fun r =>
      (r.1, r.2.reg.genreg 1)) = some (undefinedInstruction, 4) := by decide +kernel
  obtain ⟨⟨code, p'⟩, hr, he⟩ := Option.map_eq_some_iff.1 hrun
  obtain ⟨rfl, hbase⟩ : code = undefinedInstruction ∧ p'.reg.genreg 1 = 4 := by
    simpa only [Prod.mk.injEq] using he
  refine ⟨by decide, p', hr, hbase, fun h => ?_⟩
  exact absurd (hbase.symm.trans (h.genreg 1 (by decide))) (by decide)

end ArmSimulator
