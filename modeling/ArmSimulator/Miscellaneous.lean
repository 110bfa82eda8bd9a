import ArmSimulator.Undefined

/-!
# The miscellaneous instructions

`arm_execute_instruction` hands a space of encodings to `arm_miscellaneous` of which `MRS` is one
instruction. The handler's mask keeps bit 24 only, which every word of the space has, so that all of
them are executed as `MRS`. `decodesMrs_iff` says for which words that is right.
-/

namespace ArmSimulator

open Prog

/-- The words that `arm_execute_instruction` hands to `arm_miscellaneous`. -/
structure Miscellaneous (ins : Word) : Prop where
  group : getBits ins 27 25 = 0b000
  code : getBits ins 24 23 = 2
  noFlags : getBit ins 20 = false
  noLoadStore : ¬ (getBit ins 4 = true ∧ getBit ins 7 = true)

/-- The documented format of `MRS`: 00010, R, 00, SBO, Rd, and 12 zeros. -/
structure MrsFormat (ins : Word) : Prop where
  code : getBits ins 27 23 = 0b00010
  zeros : getBits ins 21 20 = 0b00
  low : getBits ins 11 0 = 0

/-- The register `Rd` of `MRS`. -/
def mrsRegister (ins : Word) : Byte := ((ins &&& rdMask) >>> rdIndex).setWidth 8

/-- The effect of `MRS`: `Rd := CPSR`, or the SPSR if `R` is set. -/
def MrsEffect (ins : Word) (p : ArmCore) (c : Byte) (p' : ArmCore) : Prop :=
  c = successfullyDecoded ∧ p'.reg.genreg = (registersWrite p.reg (mrsRegister ins) p.mode
    (if getBit ins 22 then registersReadSpsr p'.reg p.mode else p.reg.cpsr)).genreg

/-- A word of the space is decoded right in the state `p`: it has the effect of `MRS` only in the
format of `MRS`, and else its own effect, or it is undefined and writes no register. `own` is what
the architecture says of the other instructions. -/
structure DecodesMrs (endianess : Byte) (loc : Locals)
    (own : Word → ArmCore → Byte → ArmCore → Prop) (ins : Word) (p : ArmCore) : Prop where
  mrs : ∀ c p', (armDecode endianess loc ins).run p = some (c, p') → MrsEffect ins p c p' →
    MrsFormat ins
  other : ∀ c p', (armDecode endianess loc ins).run p = some (c, p') → ¬ MrsFormat ins →
    own ins p c p' ∨ (c = undefinedInstruction ∧ p'.reg = p.reg)

section
variable (endianess : Byte) (loc : Locals) {ins : Word}

/-- Every word of the space passes the test of the handler. -/
theorem Miscellaneous.codeop (h : Miscellaneous ins) :
    ((ins &&& mrsMask) >>> mrsIndex).setWidth 8 = mrsCode := by
  have h24 : ins.getLsbD 24 = true := by
    have hcode := congrArg (fun x : Word => x.getLsbD 1) h.code
    rw [getLsbD_getBits] at hcode
    exact hcode
  have hmask : ins &&& mrsMask = mrsMask := by
    have htwo : mrsMask = BitVec.twoPow 32 24 := by decide
    rw [htwo, BitVec.and_twoPow, if_pos h24]
  rw [hmask]
  decide

/-- The low bits of the word pass the last test before the handler. -/
theorem Miscellaneous.low (h : Miscellaneous ins) :
    getBit ins 4 = false ∨ (getBit ins 4 = true ∧ getBit ins 7 = false) := by
  have hls := h.noLoadStore
  cases h4 : getBit ins 4 with
  | false => exact .inl rfl
  | true =>
    refine .inr ⟨rfl, ?_⟩
    rw [h4] at hls
    simpa using hls

/-- The word reaches `arm_miscellaneous`. -/
theorem Miscellaneous.armDecode_eq (h : Miscellaneous ins) :
    armDecode endianess loc ins = armMiscellaneous ins := by
  rw [armDecode, if_pos h.group, if_neg h.noLoadStore, if_pos ⟨h.code, h.noFlags⟩, if_pos h.low]

/-- **What a word of the space does**: it has the effect of `MRS`, or asks for an SPSR where there
is none, and then it is undefined and writes no register. -/
theorem Miscellaneous.run (h : Miscellaneous ins) (p : ArmCore) :
    ∃ c p', (armDecode endianess loc ins).run p = some (c, p') ∧
      (MrsEffect ins p c p' ∧ ¬ (getBit ins 22 = true ∧ rstatInd p.mode = none) ∨
        (getBit ins 22 = true ∧ rstatInd p.mode = none) ∧ c = undefinedInstruction ∧ p' = p) := by
  rw [h.armDecode_eq endianess loc, armMiscellaneous, if_neg (not_not.2 h.codeop)]
  by_cases hR : getBit ins 22 = true
  · simp only [if_pos hR]
    rw [run_bind_of (run_armCurrentModeHasSpsr p)]
    have hquery : (registersCurrentModeHasSpsr p.reg).1 = (rstatInd p.mode).isSome :=
      registersCurrentModeHasSpsr_fst p.reg
    by_cases hspsr : (registersCurrentModeHasSpsr p.reg).1 = true
    · rw [if_pos hspsr]
      refine ⟨_, _, rfl, .inl ⟨⟨rfl, ?_⟩, fun hno => ?_⟩⟩
      · -- the query has changed the SPSR only, and the write of `Rd` leaves that
        let q : ArmCore := { p with reg := (registersCurrentModeHasSpsr p.reg).2 }
        have hmode : q.mode = p.mode := by
          simp only [q, ArmCore.mode, registersGetMode, registersCurrentModeHasSpsr_cpsr]
        have hgen : q.reg.genreg = p.reg.genreg := registersCurrentModeHasSpsr_genreg p.reg
        funext i
        rw [if_pos hR]
        show (registersWrite q.reg (mrsRegister ins) q.mode
            (registersReadSpsr q.reg q.mode)).genreg i
          = (registersWrite p.reg (mrsRegister ins) p.mode (registersReadSpsr (registersWrite q.reg
            (mrsRegister ins) q.mode (registersReadSpsr q.reg q.mode)) p.mode)).genreg i
        rw [registersWrite_genreg, registersWrite_genreg, hmode, hgen]
        simp only [registersReadSpsr, registersWrite_rstat]
      · rw [hquery, hno.2] at hspsr
        cases hspsr
    · have hnone : rstatInd p.mode = none := by simpa [hquery] using hspsr
      rw [if_neg hspsr, currentModeHasSpsr_false p hspsr]
      exact ⟨_, _, rfl, .inr ⟨⟨hR, hnone⟩, rfl, rfl⟩⟩
  · simp only [if_neg hR]
    refine ⟨_, _, rfl, .inl ⟨⟨rfl, ?_⟩, fun hno => hR hno.1⟩⟩
    rw [if_neg hR]
    rfl

end

/-- **The words that are decoded right** are those in the format of `MRS`, and those that ask for an
SPSR where there is none. -/
theorem decodesMrs_iff (endianess : Byte) (loc : Locals)
    (own : Word → ArmCore → Byte → ArmCore → Prop) {ins : Word} (h : Miscellaneous ins)
    (p : ArmCore) :
    DecodesMrs endianess loc own ins p ↔
      MrsFormat ins ∨ (getBit ins 22 = true ∧ rstatInd p.mode = none) := by
  obtain ⟨c, p', hrun, ⟨heffect, hspsr⟩ | ⟨hspsr, hc, hp⟩⟩ := h.run endianess loc p
  · constructor
    · intro hd
      exact .inl (hd.mrs c p' hrun heffect)
    · rintro (hformat | hno)
      · exact ⟨fun _ _ _ _ => hformat, fun _ _ _ hno => absurd hformat hno⟩
      · exact absurd hno hspsr
  · refine iff_of_true ⟨fun c₁ p₁ hr he => ?_, fun c₁ p₁ hr _ => .inr ?_⟩ (.inr hspsr)
    · rw [hrun] at hr
      cases hr
      rw [hc] at he
      exact absurd he.1 (by decide)
    · rw [hrun] at hr
      cases hr
      exact ⟨hc, by rw [hp]⟩

/-- A state in user mode, with no memory. -/
def userState : ArmCore := .initial 0x10 (.ofWords [])

/-- `MRS r0, CPSR` is decoded right. -/
theorem decodesMrs_userState :
    DecodesMrs 1 .zero (fun _ _ _ _ => False) 0xE10F0000 userState :=
  (decodesMrs_iff 1 .zero _ ⟨by decide, by decide, by decide, by decide⟩ userState).2
    (.inl ⟨by decide, by decide, by decide⟩)

/-- `BX r0` is not `MRS`, but is executed as one: CPSR is written to the PC. -/
theorem decodesMrs_fails :
    Miscellaneous 0xE12FFF10 ∧ ¬ MrsFormat 0xE12FFF10 ∧
      ∃ p', (armDecode 1 .zero 0xE12FFF10).run userState = some (0, p') ∧
        MrsEffect 0xE12FFF10 userState 0 p' ∧ registersRead p'.reg 15 p'.mode = 0x10 := by
  have h : Miscellaneous 0xE12FFF10 := ⟨by decide, by decide, by decide, by decide⟩
  refine ⟨h, fun hf => absurd hf.low (by decide), userState.write 15 0x10, ?_, ⟨rfl, rfl⟩, rfl⟩
  rw [h.armDecode_eq]
  rfl

end ArmSimulator
