import ArmSimulator.Alignment
import ArmSimulator.MemoryStore

/-!
# Branches and software interrupts

A branch computes its target from what r15 reads as in the step, the address of the instruction plus
8, and from an offset that is extended to 30 bits before the shift; `armStep_branch` says that the
target is right modulo `2 ^ 32`, and what else changes. A software interrupt is decoded twice: by
`arm_execute_instruction`, and by `arm_exception`, which computes the address of the instruction
from r15 again and reads the memory again; `armStep_swi` says that it finds the same word.
-/

namespace ArmSimulator

open Prog

/-! ## Decoding -/

/-- A code is read through a mask of its own, under that of the field. -/
theorem getBits_and {code : Word} {h l : Nat} (hcode : (code <<< l) >>> l =
    ~~~((BitVec.allOnes 32 >>> (h - l + 1)) <<< (h - l + 1)) &&& code) (x : Word) :
    (x &&& (code <<< l)) >>> l = getBits x h l &&& code := by
  rw [BitVec.ushiftRight_and_distrib, getBits, BitVec.and_assoc, hcode]

section
variable (endianess : Byte) (loc : Locals) {ins : Word}

/-- A branch is decoded to `arm_branch`. -/
theorem armDecode_branch (h : getBits ins 27 25 = 0b101) :
    armDecode endianess loc ins = armBranch ins := by
  unfold armDecode
  rw [if_neg (ne_of_eq_of_ne h (by decide)), if_neg (ne_of_eq_of_ne h (by decide)),
    if_neg (ne_of_eq_of_ne h (by decide)), if_neg (ne_of_eq_of_ne h (by decide)),
    if_neg (ne_of_eq_of_ne h (by decide)), if_pos h]

/-- `arm_branch` finds the code of a branch in the word. -/
theorem branch_codeop (h : getBits ins 27 25 = 0b101) :
    ((ins &&& brMask) >>> brIndex).setWidth 8 = brCode := by
  rw [brMask, getBits_and (h := 27) (by decide), h]
  decide

/-- A software interrupt is decoded to its code. -/
theorem armDecode_swi (h : getBits ins 27 24 = 0b1111) :
    armDecode endianess loc ins = return softwareInterrupt := by
  have h3 : getBits ins 27 25 = 0b111 := by
    have hfield := congrArg BitVec.toNat h
    apply BitVec.eq_of_toNat_eq
    rw [toNat_getBits] at hfield ⊢
    simp at hfield ⊢
    omega
  have hcode : ((ins &&& swiMask) >>> swiIndex).setWidth 8 = swiCode := by
    rw [swiMask, getBits_and (h := 27) (by decide), h]
    decide
  unfold armDecode
  rw [if_neg (ne_of_eq_of_ne h3 (by decide)), if_neg (ne_of_eq_of_ne h3 (by decide)),
    if_neg (ne_of_eq_of_ne h3 (by decide)), if_neg (ne_of_eq_of_ne h3 (by decide)),
    if_neg (ne_of_eq_of_ne h3 (by decide)), if_neg (ne_of_eq_of_ne h3 (by decide)),
    if_neg (ne_of_eq_of_ne h3 (by decide)), armCoprocessorOthersSwi]
  simp only [hcode, ne_eq, not_true, if_false]

end

/-! ## Branches -/

/-- The offset field of a branch as a signed number, in words. -/
def signedOffset (ins : Word) : Int := ((getBits ins 23 0).setWidth 24 : BitVec 24).toInt

/-- The offset that `arm_branch` computes. -/
def branchOffset (ins : Word) : Word :=
  let offset := ins &&& offsetMask
  (if getBit offset 23 then offset ||| 0x3F000000 else offset) <<< 2

/-- The extension to 30 bits is enough: the shift drops the two bits above. -/
theorem branchOffset_eq (ins : Word) :
    branchOffset ins = BitVec.ofInt 32 (4 * signedOffset ins) := by
  let f := ins.toNat % 2 ^ 24
  have hf : f < 2 ^ 24 := Nat.mod_lt _ (by decide)
  have hlow : (ins &&& offsetMask).toNat = f := by
    rw [BitVec.toNat_and]
    exact Nat.and_two_pow_sub_one_eq_mod ins.toNat 24
  have hfield : ((getBits ins 23 0).setWidth 24 : BitVec 24).toNat = f := by
    rw [BitVec.toNat_setWidth, toNat_getBits]
    simp [f]
  have hsign : getBit (ins &&& offsetMask) 23 = decide (2 ^ 23 ≤ f) := by
    rw [getBit_eq_getLsbD, ← BitVec.testBit_toNat, hlow, Nat.testBit_eq_decide_div_mod_eq]
    exact decide_eq_decide.2 (by omega)
  have hor : ((ins &&& offsetMask) ||| 0x3F000000).toNat = f + 0x3F000000 := by
    rw [← BitVec.add_eq_or_of_and_eq_zero, BitVec.toNat_add, hlow]
    · show (f + 0x3F000000) % 2 ^ 32 = _
      omega
    · rw [BitVec.and_assoc]
      exact BitVec.and_zero
  rw [branchOffset, signedOffset, BitVec.toInt_eq_toNat_cond, hfield]
  apply BitVec.eq_of_toNat_eq
  rw [BitVec.toNat_ofInt, BitVec.toNat_shiftLeft, Nat.shiftLeft_eq]
  simp only [hsign, decide_eq_true_eq]
  by_cases hs : 2 ^ 23 ≤ f
  · rw [if_pos hs, hor, if_neg (by omega)]
    omega
  · rw [if_neg hs, hlow, if_pos (by omega)]
    omega

/-- The run of a branch, from the state after the fetch. -/
theorem run_armBranch {ins : Word} (h : getBits ins 27 25 = 0b101) (p : ArmCore) :
    (armBranch ins).run p = some (successfullyDecoded,
      (p.writeIf (getBit ins 24) 14 (p.read 15 - 4)).write 15 (p.read 15 + branchOffset ins)) := by
  unfold armBranch
  simp only [if_neg (not_not.2 (branch_codeop h))]
  rw [run_bind_of (run_armReadRegister p 15), run_bind_of (run_when_armWriteRegister p _ _ _)]
  rfl

/-- A branch from the state `p`: it goes to the address of the instruction plus 8 plus 4 times the
signed offset, it links if bit L is set, and nothing else changes. -/
structure Branched (ins : Word) (p p' : ArmCore) : Prop where
  pc : p'.pc = p.pc + 8 + BitVec.ofInt 32 (4 * signedOffset ins)
  link : getBit ins 24 = true → registersRead p'.reg 14 p.mode = p.pc + 4
  genreg : ∀ i, i ≠ 15 → ¬ (getBit ins 24 = true ∧ slot 14 p.mode = some i) →
    p'.reg.genreg i = p.reg.genreg i
  cpsr : p'.reg.cpsr = p.reg.cpsr
  rstat : p'.reg.rstat = p.reg.rstat
  mem : p'.mem = p.mem

/-- The writes of a branch, after the fetch. -/
theorem branched_of_writes {ins : Word} {p : ArmCore} (hm : p.mode ∈ modes) :
    Branched ins p ((p.fetched.writeIf (getBit ins 24) 14 (p.pc + 4)).write 15
      (p.pc + 8 + BitVec.ofInt 32 (4 * signedOffset ins))) where
  pc := (ArmCore.write_pc _ _ _).trans (if_pos rfl)
  link hL := by
    rw [hL, ArmCore.write, registersRead_registersWrite_ne _ _ _ (by decide)]
    show registersRead (registersWrite p.fetched.reg 14 p.fetched.mode _) 14 p.mode = _
    rw [ArmCore.fetched_mode]
    exact registersRead_registersWrite_self _ _ _ _ (slot_isSome (by decide) hm)
  genreg i hi hlink := by
    have hne : slot 15 (p.fetched.writeIf (getBit ins 24) 14 (p.pc + 4)).mode ≠ some i := by
      rw [slot_pc]
      exact fun he => hi (Option.some.inj he).symm
    have hkeep : getBit ins 24 = true → slot 14 p.fetched.mode ≠ some i := by
      intro hL he
      exact hlink ⟨hL, p.fetched_mode ▸ he⟩
    rw [ArmCore.write, registersWrite_genreg, if_neg hne, ArmCore.writeIf_genreg hkeep,
      ArmCore.fetched_genreg p hi]
  cpsr := by rw [ArmCore.write, registersWrite_cpsr, ArmCore.writeIf_cpsr, ArmCore.fetched_cpsr]
  rstat := by
    rw [ArmCore.write, registersWrite_rstat, ArmCore.writeIf_rstat, ArmCore.fetched_rstat]
  mem := (ArmCore.writeIf_mem _ _ _ _).trans rfl

/-- **Branches** go to the address of the branch plus 8 plus the offset, and `BL` leaves the address
of the next instruction in r14. -/
theorem armStep_branch (endianess : Byte) (loc : Locals) {p : ArmCore} (hm : p.mode ∈ modes)
    (hp : Aligned p.pc) (hbranch : getBits (p.fetchedWord endianess loc) 27 25 = 0b101)
    (hcond : conditionHolds (p.fetchedWord endianess loc >>> 28) p.reg.cpsr = true) :
    ∃ p', (armStep endianess loc).run p = some (successfullyDecoded, p') ∧
      Branched (p.fetchedWord endianess loc) p p' := by
  have hread : p.fetched.read 15 = p.pc + 8 := ArmCore.fetched_read hp 15
  have hlink : p.pc + 8 - 4 = p.pc + 4 := by bv_omega
  have hrun := run_armBranch hbranch p.fetched
  rw [hread, hlink, branchOffset_eq] at hrun
  have hexecute := run_armExecuteInstruction endianess loc p
  rw [if_pos hcond, armDecode_branch endianess loc hbranch, hrun] at hexecute
  exact ⟨_, (run_armStep endianess loc hexecute).trans (if_neg (by decide)), branched_of_writes hm⟩

/-- `BL` to itself, at address 0 in supervisor mode. -/
def branchToSelf : ArmCore := .initial 0x13 (.ofWords [0xEBFFFFFE])

/-- A branch with an offset of -2 words goes to itself. -/
theorem armStep_branch_toSelf :
    ∃ p', (armStep 1 .zero).run branchToSelf = some (successfullyDecoded, p') ∧
      Branched (branchToSelf.fetchedWord 1 .zero) branchToSelf p' :=
  armStep_branch 1 .zero (by decide) (by decide) (by decide) (by decide)

/-! ## Software interrupts -/

/-- A read that succeeds finds the same word, whatever the destination held. -/
theorem memoryReadWord_congr {mem : Memory} {address : Word} {be : Byte} {value : Word}
    (h : (memoryReadWord mem address value be).1 = .success) (value' : Word) :
    memoryReadWord mem address value' be = memoryReadWord mem address value be := by
  rw [memoryReadWord_fst] at h
  unfold memoryReadWord
  rw [h]

/-- What a step does with the software interrupt `w`, and how it returns. -/
structure SoftwareInterrupted (w : Word) (p : ArmCore) (c : Byte) (p' : ArmCore) : Prop where
  endSimulation : c = endSimulation ↔ getBits w 23 0 = 0x123456
  putchar : c = 0 ↔ getBits w 23 0 = 1
  softwareInterrupt : c = softwareInterrupt ↔ getBits w 23 0 ≠ 0x123456 ∧ getBits w 23 0 ≠ 1
  output : p'.output = if getBits w 23 0 = 1 then (p.read 0).setWidth 8 :: p.output else p.output
  state : OnlyFetched p { p' with output := p.output }

section
variable (endianess : Byte) (loc : Locals) {p p₁ : ArmCore} {w : Word}

/-- The address that `arm_exception` computes is that of the fetch. -/
theorem fetched_read_sub (hp : Aligned p.pc) : p.fetched.read 15 - 8 = p.pc := by
  rw [ArmCore.fetched_read hp, ArmCore.operand, if_pos rfl]
  bv_omega

/-- A fetch that succeeds is repeated by `arm_exception`. -/
theorem swi_readWord (hp : Aligned p.pc)
    (hfetch : (armFetch endianess loc.instruction).run p = some ((.success, w), p₁)) :
    p₁ = p.fetched ∧ p.fetchedWord endianess loc = w ∧
      memoryReadWord p.fetched.mem (p.fetched.read 15 - 8) loc.swi endianess = (.success, w) := by
  rw [run_armFetch] at hfetch
  obtain ⟨hread, hp₁⟩ := Prod.mk.inj (Option.some.inj hfetch)
  have hpc : registersRead p.reg 15 p.mode = p.pc := registersRead_pc p.reg p.mode
  refine ⟨hp₁.symm, congrArg Prod.snd hread, ?_⟩
  rw [fetched_read_sub hp, ← hpc]
  exact (memoryReadWord_congr (congrArg Prod.fst hread) loc.swi).trans hread

/-- The opcode is the field of 24 bits. -/
theorem getBits_opcode (w : Word) : getBits w 23 0 = w &&& 0xFFFFFF := by
  rw [getBits, BitVec.ushiftRight_zero]
  rfl

/-- A software interrupt is handled in the state after the fetch. -/
theorem run_softwareInterrupted
    (hread : memoryReadWord p.fetched.mem (p.fetched.read 15 - 8) loc.swi endianess =
      (.success, w)) :
    ∃ c p', (armException endianess loc softwareInterrupt).run p.fetched = some (c, p') ∧
      SoftwareInterrupted w p c p' := by
  have hopcode : p.fetched.swiOpcode endianess loc = getBits w 23 0 := by
    rw [getBits_opcode, ArmCore.swiOpcode, hread]
  have hr0 : p.fetched.read 0 = p.read 0 := ArmCore.fetched_read_ne (by decide)
  have hstate : ∀ q : ArmCore, q.reg = p.fetched.reg → q.mem = p.mem →
      q.cycleCount = p.fetched.cycleCount → OnlyFetched p { q with output := p.output } := by
    intro q hreg hmem hcycle
    exact (onlyFetched_iff p { q with output := p.output } (congrArg Registers.cpsr hreg)
      (congrArg Registers.rstat hreg) hmem hcycle rfl).2 (congrArg Registers.genreg hreg)
  rw [run_armException_softwareInterrupt, hopcode, hr0]
  split_ifs with hend hput
  · have hput : getBits w 23 0 ≠ 1 := hend ▸ by decide
    refine ⟨_, _, rfl, iff_of_true rfl hend, iff_of_false (by decide) hput,
      iff_of_false (by decide) fun h => h.1 hend, (if_neg hput).symm, hstate _ rfl rfl rfl⟩
  · refine ⟨_, _, rfl, iff_of_false (by decide) hend, iff_of_true rfl hput,
      iff_of_false (by decide) fun h => h.2 hput, (if_pos hput).symm, hstate _ rfl rfl rfl⟩
  · refine ⟨_, _, rfl, iff_of_false (by decide) hend, iff_of_false (by decide) hput,
      iff_of_true rfl ⟨hend, hput⟩, (if_neg hput).symm, hstate _ rfl rfl rfl⟩

/-- **Software interrupts** end the simulation, print a character or do nothing, by their number. -/
theorem armStep_swi (hp : Aligned p.pc)
    (hfetch : (armFetch endianess loc.instruction).run p = some ((.success, w), p₁))
    (hswi : getBits w 27 24 = 0b1111) (hcond : conditionHolds (w >>> 28) p.reg.cpsr = true) :
    (∃ p₂, (armReadWord endianess (p₁.read 15 - 8) loc.swi).run p₁ = some ((.success, w), p₂)) ∧
      ∃ c p', (armStep endianess loc).run p = some (c, p') ∧ SoftwareInterrupted w p c p' := by
  obtain ⟨rfl, hw, hread⟩ := swi_readWord endianess loc hp hfetch
  have hexecute := run_armExecuteInstruction endianess loc p
  rw [hw, if_pos hcond, armDecode_swi endianess loc hswi] at hexecute
  refine ⟨⟨_, (run_armReadWord _ _ _ _).trans (by rw [hread])⟩, ?_⟩
  obtain ⟨c, p', hrun, hp'⟩ := run_softwareInterrupted endianess loc hread
  exact ⟨c, p', (run_armStep endianess loc hexecute).trans ((if_pos (by decide)).trans hrun), hp'⟩

end

/-- `SWI #1` at address 0 in supervisor mode. -/
def putcharProgram : ArmCore := .initial 0x13 (.ofWords [0xEF000001])

/-- `SWI #1` prints r0. -/
theorem armStep_swi_putchar :
    ∃ c p', (armStep 1 .zero).run putcharProgram = some (c, p') ∧
      SoftwareInterrupted 0xEF000001 putcharProgram c p' := by
  have hfetch : ∃ p₁, (armFetch 1 0).run putcharProgram =
      some ((ExitCode.success, 0xEF000001), p₁) := ⟨_, rfl⟩
  obtain ⟨p₁, hfetch⟩ := hfetch
  exact (armStep_swi 1 .zero (by decide) hfetch (by decide) (by decide)).2

end ArmSimulator
