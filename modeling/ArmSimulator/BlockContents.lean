import ArmSimulator.BlockWords

/-!
# The contents of a block transfer

With `S = 0` the instruction transfers the registers of the current mode, and nothing else changes
but the base with `W = 1` and the PC (`armExecuteInstruction_blockTransferred`). With `S = 1` and
without r15 in the list it transfers those of the user bank, whose words the base in the handler's
bank gives; so a load restores what a store has saved (`userBank_restored`).
-/

namespace ArmSimulator

open Prog

/-! ## The registers of the mode -/

/-- What a block transfer with `S = 0` makes of the state `p`. Register `i` of the list corresponds
to the word after those of the registers of the list below it. -/
structure BlockTransferred (endianess : Byte) (ins : Word) (p p' : ArmCore) : Prop where
  loaded : getBit ins 20 = true → ∀ i < 15, (listField ins).getLsbD i = true →
    p'.read (BitVec.ofNat 8 i) = blockWord (listField ins) endianess p.mem (blockBase ins p) i
  loadedPc : getBit ins 20 = true → (listField ins).getLsbD 15 = true →
    p'.pc = blockWord (listField ins) endianess p.mem (blockBase ins p) 15 &&& 0xFFFFFFFC
  stored : getBit ins 20 = false → ∀ i < 16, (listField ins).getLsbD i = true →
    (i = 15 → Aligned p.pc) →
    blockWord (listField ins) endianess p'.mem (blockBase ins p) i = p.operand (BitVec.ofNat 8 i)
  /-- The other registers are as before, but for the base with `W = 1`, and the PC moves on. -/
  genreg : ∀ j, j ≠ 15 → (getBit ins 20 = true → ∀ i < 16, (listField ins).getLsbD i = true →
      slot (BitVec.ofNat 8 i) p.mode ≠ some j) →
    (getBit ins 21 = true → slot (rnField ins) p.mode ≠ some j) → p'.reg.genreg j = p.reg.genreg j
  pc : ¬ (getBit ins 20 = true ∧ (listField ins).getLsbD 15 = true) → p'.pc = p.pc + 4
  cpsr : p'.reg.cpsr = p.reg.cpsr
  rstat : p'.reg.rstat = p.reg.rstat
  /-- A load leaves the memory, and a store what is not between the first and the last word. -/
  size : p'.mem.size = p.mem.size
  data : ∀ j, (getBit ins 20 = false → j < (blockBase ins p).toNat ∨
      (blockBase ins p).toNat + 4 * listed (listField ins) 16 ≤ j) → p'.mem.data j = p.mem.data j

section
variable {ins : Word} {p : ArmCore}

/-- The transfer begins where it does before the fetch, unless r15 is the base. -/
theorem blockBase_fetched (hrn : rnField ins ≠ 15) : blockBase ins p.fetched = blockBase ins p := by
  rw [blockBase, ArmCore.fetched_read_ne hrn]
  rfl

/-- With `S = 0` it moves the registers of the mode. -/
theorem blockBank_fetched (hS : getBit ins 22 = false) : blockBank ins p.fetched = p.mode := by
  rw [blockBank, hS]
  exact ArmCore.fetched_mode p

/-- The words of the transfer are in the memory also after the fetch. -/
theorem holds_fetched (hrn : rnField ins ≠ 15) {n : Nat} (h : p.mem.Holds (blockBase ins p) n) :
    p.fetched.mem.Holds (blockBase ins p.fetched) n := by
  rw [blockBase_fetched hrn]
  exact h

variable (endianess : Byte) (loc : Locals)

/-- A block load transfers the words to the registers. -/
theorem blockTransferred_load (hm : p.mode ∈ modes) (h0 : listField ins ≠ 0)
    (hL : getBit ins 20 = true) (hS : getBit ins 22 = false) (hrn : rnField ins ≠ 15)
    (hbase : getBit ins 21 = true → (listField ins).getLsbD (rnField ins).toNat = false)
    (hholds : p.mem.Holds (blockBase ins p) (4 * listed (listField ins) 16)) :
    ∃ p', (armLoadStoreMultiple endianess loc ins).run p.fetched = some (0, p') ∧
      BlockTransferred endianess ins p p' := by
  have hbank := blockBank_fetched (p := p) hS
  have hstart := blockBase_fetched (p := p) hrn
  have hnoS : ¬ getBit ins 22 = true := fun h => Bool.false_ne_true (hS.symm.trans h)
  obtain ⟨s, hrun, hmem, hreg⟩ := armLoadStoreMultiple_load endianess loc h0 hL
    (fun h => absurd h hnoS) (holds_fetched hrn hholds)
  have hmode : s.mode = p.mode := by
    rw [ArmCore.mode, registersGetMode, hreg, blockLoaded_cpsr, ArmCore.fetched_cpsr]
    rfl
  refine ⟨_, hrun, ?_⟩
  constructor
  case loaded =>
    intro _ i hi h
    have hne : getBit ins 21 = true → rnField ins ≠ BitVec.ofNat 8 i := by
      intro hW he
      have hnot := hbase hW
      rw [he, BitVec.toNat_ofNat, Nat.mod_eq_of_lt (by omega), h] at hnot
      cases hnot
    have hpc : BitVec.ofNat 8 i ≠ 15 := ofNat_ne (k := 15) (by omega) (by decide) (Nat.ne_of_lt hi)
    rw [ArmCore.read_writeIf_ne hne, ArmCore.read, ArmCore.readInternal, if_neg hpc, hmode, hreg,
      ← hbank, blockLoaded_read endianess (hbank ▸ hm) hi h, hstart]
    rfl
  case loadedPc =>
    intro _ h
    rw [ArmCore.writeIf_pc _ _ _ hrn, ArmCore.pc, hreg, blockLoaded_pc endianess h, hstart]
    rfl
  case stored =>
    intro h
    exact absurd (h.symm.trans hL) Bool.false_ne_true
  case genreg =>
    intro j hj hlist hW
    rw [ArmCore.writeIf_genreg fun h => hmode ▸ hW h, hreg,
      blockLoaded_genreg endianess (hbank ▸ hlist hL), p.fetched_genreg hj]
  case pc =>
    intro h
    have hpc : ∀ i < 16, (listField ins).getLsbD i = true →
        slot (BitVec.ofNat 8 i) (blockBank ins p.fetched) ≠ some 15 := by
      intro i hi hlisted
      refine slot_ne_pc (ofNat_ne (k := 15) hi (by decide) fun he => h ⟨hL, ?_⟩)
      rwa [← he]
    rw [ArmCore.writeIf_pc _ _ _ hrn, ArmCore.pc, hreg, blockLoaded_genreg endianess hpc]
    exact p.fetched_pc
  case cpsr => rw [ArmCore.writeIf_cpsr, hreg, blockLoaded_cpsr, ArmCore.fetched_cpsr]
  case rstat => rw [ArmCore.writeIf_rstat, hreg, blockLoaded_rstat, ArmCore.fetched_rstat]
  case size =>
    rw [ArmCore.writeIf_mem, hmem]
    rfl
  case data =>
    intro j _
    rw [ArmCore.writeIf_mem, hmem]
    rfl

/-- A block store transfers the registers to the words. -/
theorem blockTransferred_store (h0 : listField ins ≠ 0)
    (hL : getBit ins 20 = false) (hS : getBit ins 22 = false) (hrn : rnField ins ≠ 15)
    (hholds : p.mem.Holds (blockBase ins p) (4 * listed (listField ins) 16)) :
    ∃ p', (armLoadStoreMultiple endianess loc ins).run p.fetched = some (0, p') ∧
      BlockTransferred endianess ins p p' := by
  have hbank := blockBank_fetched (p := p) hS
  have hstart := blockBase_fetched (p := p) hrn
  have hnoS : ¬ getBit ins 22 = true := fun h => Bool.false_ne_true (hS.symm.trans h)
  obtain ⟨s, hrun, hreg, hstored⟩ := armLoadStoreMultiple_store endianess loc h0 hL
    (fun h => absurd h hnoS) (holds_fetched hrn hholds)
  rw [hstart] at hstored
  have hmode : s.mode = p.mode := by
    rw [ArmCore.mode, registersGetMode, hreg, ArmCore.fetched_cpsr]
    rfl
  refine ⟨_, hrun, ?_⟩
  constructor
  case loaded =>
    intro h
    exact absurd (hL.symm.trans h) Bool.false_ne_true
  case loadedPc =>
    intro h
    exact absurd (hL.symm.trans h) Bool.false_ne_true
  case stored =>
    intro _ i hi h hp
    have hread : p.fetched.read (BitVec.ofNat 8 i) = p.operand (BitVec.ofNat 8 i) := by
      rcases Nat.eq_or_lt_of_le (Nat.le_of_lt_succ hi) with rfl | hlt
      · exact ArmCore.fetched_read (hp rfl) _
      · have hne : BitVec.ofNat 8 i ≠ 15 := ofNat_ne (k := 15) hi (by decide) (Nat.ne_of_lt hlt)
        rw [ArmCore.operand, if_neg hne, ArmCore.fetched_read_ne hne]
    rw [ArmCore.writeIf_mem, hstored.words i hi h, ← hread, hbank, ArmCore.read,
      ArmCore.fetched_mode]
  case genreg =>
    intro j hj _ hW
    rw [ArmCore.writeIf_genreg fun h => hmode ▸ hW h, hreg, p.fetched_genreg hj]
  case pc =>
    intro _
    rw [ArmCore.writeIf_pc _ _ _ hrn, ArmCore.pc, hreg]
    exact p.fetched_pc
  case cpsr => rw [ArmCore.writeIf_cpsr, hreg, ArmCore.fetched_cpsr]
  case rstat => rw [ArmCore.writeIf_rstat, hreg, ArmCore.fetched_rstat]
  case size =>
    rw [ArmCore.writeIf_mem, hstored.size]
    rfl
  case data =>
    intro j hj
    rw [ArmCore.writeIf_mem, hstored.data j (hj hL)]
    rfl

/-- **The contents of a block transfer** are those of the registers of the list, each at its own
word. -/
theorem armExecuteInstruction_blockTransferred (hm : p.mode ∈ modes)
    (hins : p.fetchedWord endianess loc = ins)
    (hcond : conditionHolds (ins >>> 28) p.reg.cpsr = true) (hmult : MultipleTransfer ins)
    (h0 : listField ins ≠ 0) (hS : getBit ins 22 = false) (hrn : rnField ins ≠ 15)
    (hbase : getBit ins 20 = true → getBit ins 21 = true →
      (listField ins).getLsbD (rnField ins).toNat = false)
    (hholds : p.mem.Holds (blockBase ins p) (4 * listed (listField ins) 16)) :
    ∃ p', (armExecuteInstruction endianess loc).run p = some (0, p') ∧
      BlockTransferred endianess ins p p' := by
  rw [run_armExecuteInstruction, hins, if_pos hcond, armDecode_multipleTransfer endianess loc hmult]
  cases hL : getBit ins 20 with
  | false => exact blockTransferred_store endianess loc h0 hL hS hrn hholds
  | true => exact blockTransferred_load endianess loc hm h0 hL hS hrn (hbase hL) hholds

end

/-- `STMIB r1!, {r1, pc}` in a memory of three words. -/
def storeBasePc : ArmCore := .initial 0x13 (.ofWords [0xE9A18002, 0, 0])

/-- `STMIB r1!, {r1, pc}` stores r1 and the PC plus 8. -/
theorem blockTransferred_storeBasePc :
    ∃ p', (armExecuteInstruction 1 .zero).run storeBasePc = some (0, p') ∧
      BlockTransferred 1 0xE9A18002 storeBasePc p' := by
  have hload : ¬ getBit (0xE9A18002 : Word) 20 = true := by decide
  exact armExecuteInstruction_blockTransferred 1 .zero (by decide) (by decide +kernel) (by decide)
    (by decide) (by decide) (by decide) (by decide) (fun h => absurd h hload)
    ⟨by decide, by decide⟩

/-! ## The registers of the user bank -/

/-- What a store with `S = 1` makes of the state: it stores the copies of the user bank. -/
structure UserStored (endianess : Byte) (ins : Word) (p p' : ArmCore) : Prop where
  stored : ∀ i < 16, (listField ins).getLsbD i = true →
    blockWord (listField ins) endianess p'.mem (blockBase ins p) i =
      registersRead p.reg (BitVec.ofNat 8 i) USR
  reg : p'.reg = p.reg
  size : p'.mem.size = p.mem.size
  data : ∀ j, j < (blockBase ins p).toNat ∨
      (blockBase ins p).toNat + 4 * listed (listField ins) 16 ≤ j → p'.mem.data j = p.mem.data j

/-- What a load with `S = 1` makes of it: it loads the copies of the user bank, and those that
belong to another mode alone keep what they hold. -/
structure UserLoaded (endianess : Byte) (ins : Word) (p p' : ArmCore) : Prop where
  loaded : ∀ i < 16, (listField ins).getLsbD i = true →
    registersRead p'.reg (BitVec.ofNat 8 i) USR =
      blockWord (listField ins) endianess p.mem (blockBase ins p) i
  banked : ∀ reg mode, slot reg mode ≠ slot reg USR →
    registersRead p'.reg reg mode = registersRead p.reg reg mode
  genreg : ∀ j, (∀ i < 16, (listField ins).getLsbD i = true →
    slot (BitVec.ofNat 8 i) USR ≠ some j) → p'.reg.genreg j = p.reg.genreg j
  cpsr : p'.reg.cpsr = p.reg.cpsr
  rstat : p'.reg.rstat = p.reg.rstat
  mem : p'.mem = p.mem

/-- The load that goes with a store: that of the same list from the same base register, in the same
addressing mode. -/
structure LoadsBack (ins ins' : Word) : Prop where
  code : getBits ins' 24 23 = getBits ins 24 23
  rn : rnField ins' = rnField ins
  list : listField ins' = listField ins
  user : getBit ins' 22 = true
  noUpdate : getBit ins' 21 = false
  load : getBit ins' 20 = true

/-- The registers may have changed, but not the base as the handler sees it. -/
structure BaseKept (rn : Byte) (p p' : ArmCore) : Prop where
  mem : p'.mem = p.mem
  mode : p'.mode = p.mode
  base : p'.read rn = p.read rn

section
variable (endianess : Byte) (loc : Locals) {ins : Word} {p : ArmCore}

/-- A load with S and without r15 loads the user registers. -/
theorem userLoaded (hm : p.mode ∈ exceptionModes) (h0 : listField ins ≠ 0)
    (h15 : (listField ins).getLsbD 15 = false) (hS : getBit ins 22 = true)
    (hW : getBit ins 21 = false) (hL : getBit ins 20 = true)
    (hholds : p.mem.Holds (blockBase ins p) (4 * listed (listField ins) 16)) :
    ∃ p', (armLoadStoreMultiple endianess loc ins).run p = some (0, p') ∧
      UserLoaded endianess ins p p' := by
  have hbank : blockBank ins p = USR := by
    rw [blockBank, hS]
    rfl
  obtain ⟨s, hrun, hmem, hreg⟩ := armLoadStoreMultiple_load endianess loc h0 hL
    (fun _ => ⟨hm, h15⟩) hholds
  rw [hW] at hrun
  have hothers : ∀ j, (∀ i < 16, (listField ins).getLsbD i = true →
      slot (BitVec.ofNat 8 i) USR ≠ some j) → s.reg.genreg j = p.reg.genreg j := by
    intro j hj
    rw [hreg]
    exact blockLoaded_genreg endianess (hbank ▸ hj)
  refine ⟨s, hrun, ?_⟩
  constructor
  case loaded =>
    intro i hi h
    have hlt : i < 15 := by
      rcases Nat.eq_or_lt_of_le (Nat.le_of_lt_succ hi) with rfl | hlt
      · rw [h15] at h
        cases h
      · exact hlt
    have hread := blockLoaded_read (p := p) endianess (hbank ▸ by decide) hlt h
    rw [hbank] at hread
    rw [hreg, hread]
  case banked =>
    intro reg mode hslot
    cases hs : slot reg mode with
    | none => rw [registersRead, registersRead, hs]
    | some j =>
      rw [registersRead, registersRead, hs]
      refine hothers j fun i _ _ hi => hslot ?_
      have hreg : BitVec.ofNat 8 i = reg :=
        BitVec.eq_of_toNat_eq ((slot_mod hi).symm.trans (slot_mod hs))
      rw [hs, ← hreg, hi]
  case genreg => exact hothers
  case cpsr => rw [hreg, blockLoaded_cpsr]
  case rstat => rw [hreg, blockLoaded_rstat]
  case mem => exact hmem

/-- A store with S stores the user registers. -/
theorem userStored (hm : p.mode ∈ exceptionModes) (h0 : listField ins ≠ 0)
    (h15 : (listField ins).getLsbD 15 = false) (hS : getBit ins 22 = true)
    (hW : getBit ins 21 = false) (hL : getBit ins 20 = false)
    (hholds : p.mem.Holds (blockBase ins p) (4 * listed (listField ins) 16)) :
    ∃ p', (armLoadStoreMultiple endianess loc ins).run p = some (0, p') ∧
      UserStored endianess ins p p' := by
  have hbank : blockBank ins p = USR := by
    rw [blockBank, hS]
    rfl
  obtain ⟨s, hrun, hreg, hstored⟩ := armLoadStoreMultiple_store endianess loc h0 hL
    (fun _ => hm) hholds
  rw [hW] at hrun
  refine ⟨s, hrun, fun i hi h => ?_, hreg, hstored.size, hstored.data⟩
  have hne : BitVec.ofNat 8 i ≠ 15 := by
    refine ofNat_ne (k := 15) hi (by decide) ?_
    rintro rfl
    rw [h15] at h
    cases h
  rw [hstored.words i hi h, hbank, ArmCore.readInternal, if_neg hne]

/-- **The transfers of the user bank.** A load and a store of the copies of the user bank; and what
the store has saved, the load restores, whatever the registers were changed to in between. -/
theorem userBank_restored (hm : p.mode ∈ exceptionModes) (h0 : listField ins ≠ 0)
    (h15 : (listField ins).getLsbD 15 = false) (hS : getBit ins 22 = true)
    (hW : getBit ins 21 = false)
    (hholds : p.mem.Holds (blockBase ins p) (4 * listed (listField ins) 16)) :
    (getBit ins 20 = true → ∃ p', (armLoadStoreMultiple endianess loc ins).run p = some (0, p') ∧
      UserLoaded endianess ins p p') ∧
    (getBit ins 20 = false → ∃ p₁, (armLoadStoreMultiple endianess loc ins).run p = some (0, p₁) ∧
      UserStored endianess ins p p₁ ∧
      ∀ loc' ins' p₂, LoadsBack ins ins' → BaseKept (rnField ins) p₁ p₂ →
        ∃ p₃, (armLoadStoreMultiple endianess loc' ins').run p₂ = some (0, p₃) ∧
          ∀ i, (listField ins).getLsbD i = true →
            registersRead p₃.reg (BitVec.ofNat 8 i) USR =
              registersRead p.reg (BitVec.ofNat 8 i) USR) := by
  refine ⟨fun hL => userLoaded endianess loc hm h0 h15 hS hW hL hholds, fun hL => ?_⟩
  obtain ⟨p₁, hrun, hstored⟩ := userStored endianess loc hm h0 h15 hS hW hL hholds
  refine ⟨p₁, hrun, hstored, fun loc' ins' p₂ hins hkept => ?_⟩
  have hmode : p₁.mode = p.mode := by
    rw [ArmCore.mode, hstored.reg]
    rfl
  have hread : p₁.read (rnField ins) = p.read (rnField ins) := by
    rw [ArmCore.read, ArmCore.read, hmode, ArmCore.readInternal, ArmCore.readInternal, hstored.reg]
  -- the load finds the words of the store
  have hstart : blockBase ins' p₂ = blockBase ins p := by
    rw [blockBase, blockBase, hins.list, hins.code, hins.rn, hkept.base, hread]
  have hsize : p₂.mem.size = p.mem.size := by
    rw [hkept.mem, hstored.size]
  have hholds₂ : p₂.mem.Holds (blockBase ins' p₂) (4 * listed (listField ins') 16) := by
    rw [hstart, hins.list]
    exact hholds.congr hsize
  rw [← hins.list] at h0 h15
  obtain ⟨p₃, hrun₃, hloaded⟩ := userLoaded endianess loc' (hkept.mode.trans hmode ▸ hm) h0 h15
    hins.user hins.noUpdate hins.load hholds₂
  refine ⟨p₃, hrun₃, fun i h => ?_⟩
  have hi : i < 16 := BitVec.lt_of_getLsbD h
  rw [hloaded.loaded i hi (hins.list ▸ h), hstart, hins.list, hkept.mem, hstored.stored i hi h]

end

/-- A processor in FIQ mode with a memory of two words. -/
def fiqTwoWords : ArmCore := .initial 0x11 (.ofWords [0, 0])

/-- `STMIA r8, {r8, r13}^` stores the registers of the user bank in FIQ mode. -/
theorem userBank_restored_fiqTwoWords :
    (getBit (0xE8C82100 : Word) 20 = true →
      ∃ p', (armLoadStoreMultiple 1 .zero 0xE8C82100).run fiqTwoWords = some (0, p') ∧
        UserLoaded 1 0xE8C82100 fiqTwoWords p') ∧
    (getBit (0xE8C82100 : Word) 20 = false →
      ∃ p₁, (armLoadStoreMultiple 1 .zero 0xE8C82100).run fiqTwoWords = some (0, p₁) ∧
        UserStored 1 0xE8C82100 fiqTwoWords p₁ ∧
        ∀ loc' ins' p₂, LoadsBack 0xE8C82100 ins' → BaseKept (rnField 0xE8C82100) p₁ p₂ →
          ∃ p₃, (armLoadStoreMultiple 1 loc' ins').run p₂ = some (0, p₃) ∧
            ∀ i, (listField 0xE8C82100).getLsbD i = true →
              registersRead p₃.reg (BitVec.ofNat 8 i) USR =
                registersRead fiqTwoWords.reg (BitVec.ofNat 8 i) USR) :=
  userBank_restored 1 .zero (by decide) (by decide) (by decide) (by decide) (by decide)
    ⟨by decide, by decide⟩

end ArmSimulator
