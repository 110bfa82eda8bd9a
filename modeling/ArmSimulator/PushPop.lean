import ArmSimulator.WriteBack

/-!
# Push and pop

`STMDB r13!` stores below the stack pointer. Its write-back takes the address the loop ends at, as
that of the incrementing modes does; but a decrementing transfer starts below the base and ends at
it, so that the push leaves r13 where it was. The pop then adds the size of the list, and r13 ends
above the stack pointer it began with, for every list (`push_pop_not_inverse`).
-/

namespace ArmSimulator

open Prog

/-! ## The instructions -/

/-- A block transfer: the condition, the bits 27:16 and the register list. -/
def blockTransfer (cond : BitVec 4) (op : BitVec 12) (registerList : Half) : Word :=
  cond ++ op ++ registerList

/-- `STMDB r13!, list`. -/
def push (cond : BitVec 4) (registerList : Half) : Word := blockTransfer cond 0x92D registerList

/-- `LDMIA r13!, list`. -/
def pop (cond : BitVec 4) (registerList : Half) : Word := blockTransfer cond 0x8BD registerList

section
variable (cond : BitVec 4) (op : BitVec 12) (registerList : Half)

/-- The bits 15:0 of the word are the register list. -/
theorem blockTransfer_registerList :
    (getBits (blockTransfer cond op registerList) 15 0).setWidth 16 = registerList := by
  apply BitVec.eq_of_getLsbD_eq
  intro i hi
  rw [BitVec.getLsbD_setWidth, getLsbD_getBits, blockTransfer, BitVec.getLsbD_append]
  simp [hi]

/-- The bits above the register list are those of `op`. -/
theorem getLsbD_blockTransfer {i : Nat} (hi : i < 12) :
    (blockTransfer cond op registerList).getLsbD (16 + i) = op.getLsbD i := by
  rw [blockTransfer, BitVec.getLsbD_append, if_neg (by omega), BitVec.getLsbD_append,
    Nat.add_sub_cancel_left, if_pos hi]

/-- The fields above the list of a block transfer are those of its opcode. -/
theorem getBits_blockTransfer {h l : Nat} (hh : h < 12) (hl : l ≤ h) :
    getBits (blockTransfer cond op registerList) (16 + h) (16 + l) =
      getBits (op.setWidth 32) h l := by
  apply BitVec.eq_of_getLsbD_eq
  intro i _
  rw [getLsbD_getBits, getLsbD_getBits, Nat.add_sub_add_left, Nat.add_assoc]
  by_cases hi : i < h - l + 1
  · have hli : l + i < 12 := by omega
    have h32 : l + i < 32 := by omega
    rw [getLsbD_blockTransfer _ _ _ hli, BitVec.getLsbD_setWidth, decide_eq_true h32, Bool.true_and]
  · simp [hi]

/-- The bits above the list of a block transfer are those of its opcode. -/
theorem getBit_blockTransfer {i : Nat} (hi : i < 12) :
    getBit (blockTransfer cond op registerList) (16 + i) = op.getLsbD i := by
  rw [getBit_eq_getLsbD, getLsbD_blockTransfer _ _ _ hi]

end

/-! ## The stack pointer -/

/-- The processor is in the mode `mode`, and its r13 is `sp`. -/
def SpIs (mode : Byte) (sp : Word) (p : ArmCore) : Prop :=
  p.mode = mode ∧ p.read 13 = sp

section
variable (endianess : Byte) (loc : Locals) (cond : BitVec 4) {mode : Byte} {sp : Word}
  {registerList : Half}

/-- A transfer with a write-back to r13. -/
theorem spIs_blockEnd {ins : Word} (hm : mode ∈ modes) (h0 : listField ins ≠ 0)
    (hrn : rnField ins = 13) (hW : getBit ins 21 = true) (hS : getBit ins 22 = false) :
    Triple (SpIs mode sp) (armLoadStoreMultiple endianess loc ins) fun code p =>
      code = 0 ∧ SpIs mode (blockEnd ins sp) p := by
  rintro p ⟨hmode, hsp⟩
  have h15 : rnField ins ≠ 15 := by
    rw [hrn]
    decide
  obtain ⟨p', hrun, hmode', hread⟩ :=
    armLoadStoreMultiple_base endianess loc (hmode ▸ hm) h0 hW hS h15
  rw [hrn, hsp] at hread
  exact ⟨0, p', hrun, rfl, hmode'.trans hmode, hread⟩

/-- The push leaves r13 as it was: the loop ends at the base. -/
theorem push_triple (hm : mode ∈ modes) (h0 : registerList ≠ 0) :
    Triple (SpIs mode sp) (armLoadStoreMultiple endianess loc (push cond registerList))
      fun code p => code = 0 ∧ SpIs mode sp p := by
  have hlist : listField (push cond registerList) = registerList :=
    blockTransfer_registerList cond 0x92D registerList
  have hrn : rnField (push cond registerList) = 13 := by
    rw [rnField, push, getBits_blockTransfer _ _ _ (h := 3) (l := 0) (by decide) (by decide)]
    decide
  have hcode : getBits (push cond registerList) 24 23 = 0b10 := by
    rw [push, getBits_blockTransfer _ _ _ (h := 8) (l := 7) (by decide) (by decide)]
    decide
  have hW : getBit (push cond registerList) 21 = true :=
    (getBit_blockTransfer cond 0x92D registerList (i := 5) (by decide)).trans (by decide)
  have hS : getBit (push cond registerList) 22 = false :=
    (getBit_blockTransfer cond 0x92D registerList (i := 6) (by decide)).trans (by decide)
  have hend : blockEnd (push cond registerList) sp = sp := by
    rw [blockEnd, hlist, hcode]
    exact BitVec.sub_add_cancel _ _
  refine (spIs_blockEnd endianess loc hm (hlist.symm ▸ h0) hrn hW hS).post fun code p hp => ?_
  rwa [hend] at hp

/-- The pop adds the size of the list to r13, and keeps the mode. -/
theorem pop_triple (hm : mode ∈ modes) (h0 : registerList ≠ 0) :
    Triple (SpIs mode sp) (armLoadStoreMultiple endianess loc (pop cond registerList))
      fun code p => code = 0 ∧ SpIs mode (sp + BitVec.ofNat 32 (4 * listed registerList 16)) p := by
  have hlist : listField (pop cond registerList) = registerList :=
    blockTransfer_registerList cond 0x8BD registerList
  have hrn : rnField (pop cond registerList) = 13 := by
    rw [rnField, pop, getBits_blockTransfer _ _ _ (h := 3) (l := 0) (by decide) (by decide)]
    decide
  have hcode : getBits (pop cond registerList) 24 23 = 0b01 := by
    rw [pop, getBits_blockTransfer _ _ _ (h := 8) (l := 7) (by decide) (by decide)]
    decide
  have hW : getBit (pop cond registerList) 21 = true :=
    (getBit_blockTransfer cond 0x8BD registerList (i := 5) (by decide)).trans (by decide)
  have hS : getBit (pop cond registerList) 22 = false :=
    (getBit_blockTransfer cond 0x8BD registerList (i := 6) (by decide)).trans (by decide)
  have hend : blockEnd (pop cond registerList) sp =
      sp + BitVec.ofNat 32 (4 * listed registerList 16) := by
    rw [blockEnd, hlist, hcode]
    rfl
  refine (spIs_blockEnd endianess loc hm (hlist.symm ▸ h0) hrn hW hS).post fun code p hp => ?_
  rwa [hend] at hp

end

/-! ## Push, then pop -/

/-- The registers of the list may have changed from `p` to `p'`, and nothing else that the program
can see. -/
structure ListedChanged (registerList : Half) (p p' : ArmCore) : Prop where
  cpsr : p'.reg.cpsr = p.reg.cpsr
  rstat : p'.reg.rstat = p.reg.rstat
  mem : p'.mem = p.mem
  genreg : ∀ reg mode : Byte, registerList.getLsbD reg.toNat = false →
    registersRead p'.reg reg mode = registersRead p.reg reg mode

/-- The registers of the list and r13 are in `p'` as in `p`. -/
structure Restored (registerList : Half) (p p' : ArmCore) : Prop where
  listed : ∀ reg : Byte, registerList.getLsbD reg.toNat = true → p'.read reg = p.read reg
  sp : p'.read 13 = p.read 13

/-- The pop leaves r13 above where the push began, whatever happened to the registers of the list in
between. -/
theorem push_pop_sp (endianess : Byte) (loc loc' : Locals) (cond cond' : BitVec 4)
    {registerList : Half} (h0 : registerList ≠ 0) (h13 : registerList.getLsbD 13 = false)
    {p : ArmCore} (hm : p.mode ∈ modes) :
    ∃ p₁, (armLoadStoreMultiple endianess loc (push cond registerList)).run p = some (0, p₁) ∧
      ∀ p₂, ListedChanged registerList p₁ p₂ →
        ∃ p₃, (armLoadStoreMultiple endianess loc' (pop cond' registerList)).run p₂ =
            some (0, p₃) ∧
          p₃.read 13 = p.read 13 + BitVec.ofNat 32 (4 * listed registerList 16) := by
  have hsp : SpIs p.mode (p.read 13) p := ⟨rfl, rfl⟩
  obtain ⟨code, p₁, hpush, rfl, hmode₁, hsp₁⟩ := push_triple endianess loc cond hm h0 p hsp
  refine ⟨p₁, hpush, fun p₂ hch => ?_⟩
  have hmode₂ : p₂.mode = p₁.mode := by
    rw [ArmCore.mode, registersGetMode, hch.cpsr]
    rfl
  have hsp₂ : p₂.read 13 = p.read 13 := by
    rw [← hsp₁]
    simp only [ArmCore.read, ArmCore.readInternal, hmode₂]
    rw [if_neg (by decide), if_neg (by decide), hch.genreg 13 _ h13]
  obtain ⟨code, p₃, hpop, rfl, -, hsp₃⟩ :=
    pop_triple endianess loc' cond' hm h0 p₂ ⟨hmode₂.trans hmode₁, hsp₂⟩
  exact ⟨p₃, hpop, hsp₃⟩

/-- The address behind the words of a list is not the one that they begin at. -/
theorem sp_add_ne {registerList : Half} (h0 : registerList ≠ 0) (sp : Word) :
    sp + BitVec.ofNat 32 (4 * listed registerList 16) ≠ sp := by
  obtain ⟨hpos, hle⟩ := listed_pos h0
  intro he
  have hnat := congrArg BitVec.toNat he
  rw [BitVec.toNat_add, BitVec.toNat_ofNat] at hnat
  have := sp.isLt
  omega

/-- **Push and pop are not inverse.** From every state in a valid mode, for every list of registers
other than r13 and r15, both instructions return; but whatever the registers of the list are changed
to in between, the pop does not restore them and r13. -/
theorem push_pop_not_inverse (endianess : Byte) (loc loc' : Locals) (cond cond' : BitVec 4)
    {registerList : Half} (h0 : registerList ≠ 0) (h13 : registerList.getLsbD 13 = false)
    (_h15 : registerList.getLsbD 15 = false) {p : ArmCore} (hm : p.mode ∈ modes) :
    ∃ p₁, (armLoadStoreMultiple endianess loc (push cond registerList)).run p = some (0, p₁) ∧
      ∀ p₂, ListedChanged registerList p₁ p₂ →
        ∃ p₃, (armLoadStoreMultiple endianess loc' (pop cond' registerList)).run p₂ =
            some (0, p₃) ∧ ¬ Restored registerList p p₃ := by
  obtain ⟨p₁, hpush, hpop⟩ := push_pop_sp endianess loc loc' cond cond' h0 h13 hm
  refine ⟨p₁, hpush, fun p₂ hch => ?_⟩
  obtain ⟨p₃, hrun, hsp⟩ := hpop p₂ hch
  exact ⟨p₃, hrun, fun hr => sp_add_ne h0 _ (hsp.symm.trans hr.sp)⟩

/-- A processor in supervisor mode, whose stack pointer is 8 in a memory of 16 bytes. -/
def stackOfTwo : ArmCore := (ArmCore.initial 0x13 ⟨fun _ => 0, 16⟩).write 13 8

/-- A pop of r0 and r1 after a push of them does not restore the stack of two words. -/
theorem push_pop_stackOfTwo :
    ∃ p₁, (armLoadStoreMultiple 1 .zero (push 14 0x0003)).run stackOfTwo = some (0, p₁) ∧
      ∀ p₂, ListedChanged 0x0003 p₁ p₂ →
        ∃ p₃, (armLoadStoreMultiple 1 .zero (pop 14 0x0003)).run p₂ = some (0, p₃) ∧
          ¬ Restored 0x0003 stackOfTwo p₃ :=
  push_pop_not_inverse 1 .zero .zero 14 14 (by decide) (by decide) (by decide) (by decide)

/-- A push and a pop there with nothing in between move r13 from 8 to 16. -/
theorem push_pop_fails :
    stackOfTwo.mode ∈ modes ∧ stackOfTwo.read 13 = 8 ∧
      ∃ p₁ p₂, (armLoadStoreMultiple 1 .zero (push 14 0x0003)).run stackOfTwo = some (0, p₁) ∧
        (armLoadStoreMultiple 1 .zero (pop 14 0x0003)).run p₁ = some (0, p₂) ∧
        p₂.read 13 = 16 ∧ ¬ Restored 0x0003 stackOfTwo p₂ := by
  have h0 : (0x0003 : Half) ≠ 0 := by decide
  obtain ⟨p₁, hpush, hpop⟩ := push_pop_sp 1 .zero .zero 14 14 h0 (p := stackOfTwo) (by decide)
    (by decide)
  obtain ⟨p₂, hrun, hsp⟩ := hpop p₁ ⟨rfl, rfl, rfl, fun _ _ _ => rfl⟩
  have hsp' : p₂.read 13 = 16 := hsp.trans (by decide)
  refine ⟨by decide, by decide, p₁, p₂, hpush, hrun, hsp', fun hr => ?_⟩
  exact absurd (hsp'.symm.trans hr.sp) (by decide)

end ArmSimulator
