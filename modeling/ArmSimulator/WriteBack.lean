import ArmSimulator.BlockTransfer
import ArmSimulator.Instruction

/-!
# The write-back of a block transfer

`arm_load_store_multiple` writes back the address that its loop ends at, `blockEnd`. In the
increment-after mode that is the base moved over the words of the list. The other modes start
elsewhere: a decrementing transfer starts below the base and ends at it, and a transfer before or
after it is off by a word (`updatedBase_iff`).
-/

namespace ArmSimulator

open Prog

/-! ## The addresses -/

/-- The start of a transfer, in the four addressing modes: increment after, increment before,
decrement after and decrement before. -/
def blockStart (registerList : Half) (code rn : Word) : Word :=
  if code = 0b01 then rn
  else if code = 0b11 then rn + 4
  else if code = 0b00 then rn - BitVec.ofNat 32 (4 * listed registerList 16) + 4
  else rn - BitVec.ofNat 32 (4 * listed registerList 16)

/-- `addressing_mode` starts the transfer at the lowest address. -/
theorem addressingMode_start (registerList : Half) (code rn : Word) :
    (addressingMode code rn registerList).1 = blockStart registerList code rn := by
  unfold addressingMode blockStart
  rw [numberSetBitsIn_eq, Nat.mul_comm]
  split_ifs
  all_goals rfl

/-- The address after the last word. -/
def blockEnd (ins : Word) (base : Word) : Word :=
  blockStart (listField ins) (getBits ins 24 23) base +
    BitVec.ofNat 32 (4 * listed (listField ins) 16)

/-- The base moved over the words of the list, up or down. -/
def updatedBase (ins : Word) (base : Word) : Word :=
  if getBit ins 23 then base + BitVec.ofNat 32 (4 * listed (listField ins) 16)
  else base - BitVec.ofNat 32 (4 * listed (listField ins) 16)

/-- The transfer ends there in one of the modes only. -/
theorem blockEnd_eq_iff {ins : Word} (h0 : listField ins ≠ 0) (base : Word) :
    blockEnd ins base = updatedBase ins base ↔ getBits ins 24 23 = 0b01 := by
  obtain ⟨hpos, hle⟩ := listed_pos h0
  unfold blockEnd updatedBase blockStart
  generalize listed (listField ins) 16 = n at hpos hle
  rw [getBits_pair]
  cases hP : getBit ins 24 with
  | false =>
    cases hU : getBit ins 23 with
    | false =>
      simp
      bv_omega
    | true => simp
  | true =>
    cases hU : getBit ins 23 with
    | false =>
      simp
      bv_omega
    | true => simp

/-! ## The instruction -/

/-- The assertion on the end address, and the write-back. -/
theorem run_finish (W : Bool) (rnRegistre : Byte) {ins base address : Word} {n : Nat}
    (hn : n = listed (listField ins) 16)
    (ha : address = blockStart (listField ins) (getBits ins 24 23) base + BitVec.ofNat 32 (4 * n))
    (s : ArmCore) :
    (Prog.assert (decide
        ((addressingMode (getBits ins 24 23) base (listField ins)).2 = address - 4)) >>=
      fun _ => writeBack W rnRegistre address).run s =
        some (0, s.writeIf W rnRegistre (blockEnd ins base)) := by
  rw [← addressingMode_start] at ha
  have hend := end_eq hn ha
  rw [hend, addressingMode_start, hn] at *
  rw [ha]
  cases W with
  | false => rfl
  | true => rfl

/-- The address of the first word. -/
def blockBase (ins : Word) (p : ArmCore) : Word :=
  blockStart (listField ins) (getBits ins 24 23) (p.read (rnField ins))

/-- The bank whose registers a transfer moves: with `S = 1`, the user bank. -/
def blockBank (ins : Word) (p : ArmCore) : Byte := if getBit ins 22 then USR else p.mode

/-- The accessors of these registers. -/
def blockRead (ins : Word) : Byte → ArmM Word :=
  if getBit ins 22 then armReadUsrRegister else armReadRegister

def blockWrite (ins : Word) : Byte → Word → ArmM Unit :=
  if getBit ins 22 then armWriteUsrRegister else armWriteRegister

/-- A block transfer reads a register from its bank. -/
theorem run_blockRead (ins : Word) (s : ArmCore) (reg : Byte) :
    (blockRead ins reg).run s = some (s.readInternal reg (blockBank ins s), s) := by
  unfold blockRead blockBank
  split_ifs
  · rfl
  · rfl

/-- A block transfer writes a register of its bank. -/
theorem run_blockWrite (ins : Word) (s : ArmCore) (reg : Byte) (value : Word) :
    (blockWrite ins reg value).run s =
      some ((), { s with reg := registersWrite s.reg reg (blockBank ins s) value }) := by
  unfold blockWrite blockBank
  split_ifs
  · rfl
  · rfl

/-- An empty list is refused, and with `S = 1` the modes without an SPSR are. -/
def BlockRefused (ins : Word) (p : ArmCore) : Prop :=
  listField ins = 0 ∨ (getBit ins 22 = true ∧
    (p.reg.cpsr &&& 0x1F = USR.setWidth 32 ∨ p.reg.cpsr &&& 0x1F = SYS.setWidth 32))

section
variable (endianess : Byte) (loc : Locals) {ins : Word} {p s : ArmCore} {a : Word}

/-- A block transfer that is refused changes nothing. -/
theorem run_refusedMultiple (h : BlockRefused ins p) :
    (armLoadStoreMultiple endianess loc ins).run p = some (undefinedInstruction, p) := by
  unfold armLoadStoreMultiple
  rw [Prog.run_bind_of (run_armReadRegister p _), Prog.run_bind_of (run_armReadCpsr p)]
  by_cases h0 : listField ins = 0
  · simp only [if_pos h0]
    rfl
  · simp only [if_neg h0, if_pos (h.resolve_left h0)]
    rfl

/-- A store runs its loop and then the write-back. -/
theorem run_storeMultiple (hrefused : ¬ BlockRefused ins p) (hL : getBit ins 20 = false)
    (hloop : (storeLoop endianess (blockRead ins) (listField ins) (blockBase ins p)).run p =
      some (a, s))
    (ha : a = blockBase ins p + BitVec.ofNat 32 (4 * listed (listField ins) 16)) :
    (armLoadStoreMultiple endianess loc ins).run p = some (0,
      s.writeIf (getBit ins 21) (rnField ins) (blockEnd ins (p.read (rnField ins)))) := by
  obtain ⟨h0, hmode⟩ := not_or.1 hrefused
  rw [blockBase, ← addressingMode_start] at hloop
  unfold armLoadStoreMultiple
  rw [Prog.run_bind_of (run_armReadRegister p _), Prog.run_bind_of (run_armReadCpsr p)]
  simp only [if_neg h0, if_neg hmode, hL, Bool.false_eq_true, and_false, if_false]
  unfold blockRead at hloop
  cases hS : getBit ins 22 with
  | false =>
    rw [hS] at hloop
    exact (Prog.run_bind_of hloop).trans (run_finish _ _ rfl ha s)
  | true =>
    rw [hS] at hloop
    exact (Prog.run_bind_of hloop).trans (run_finish _ _ rfl ha s)

/-- The state with the word at the address loaded into r15, its two low bits cleared. -/
def loadedPc (s : ArmCore) (address : Word) : ArmCore :=
  { s with accesses := ⟨4, address⟩ :: s.accesses }.write 15
    ((memoryReadWord s.mem address (loc.value 15) endianess).2 &&& 0xFFFFFFFC)

/-- The address has moved past the word of r15. -/
theorem address_pc
    (ha : a = blockBase ins p + BitVec.ofNat 32 (4 * listed (listField ins) 15)) :
    a + 4 = blockBase ins p + BitVec.ofNat 32 (4 * (listed (listField ins) 15 + 1)) := by
  rw [ha, Nat.mul_add, BitVec.ofNat_add, ← BitVec.add_assoc]
  rfl

/-- A load that does not restore CPSR is its loop, r15 if it is in the list, and the write-back. -/
theorem run_loadMultiple (hrefused : ¬ BlockRefused ins p) (hL : getBit ins 20 = true)
    (hS : getBit ins 22 = true → ¬ getBit (listField ins) 15 = true)
    (hloop : (loadLoop endianess loc (blockWrite ins) (listField ins) (blockBase ins p)).run p =
      some (a, s))
    (ha : a = blockBase ins p + BitVec.ofNat 32 (4 * listed (listField ins) 15)) :
    (armLoadStoreMultiple endianess loc ins).run p = some (0,
      (if getBit (listField ins) 15 then loadedPc endianess loc s a else s).writeIf (getBit ins 21)
        (rnField ins) (blockEnd ins (p.read (rnField ins)))) := by
  obtain ⟨h0, hmode⟩ := not_or.1 hrefused
  rw [blockBase, ← addressingMode_start] at hloop
  unfold armLoadStoreMultiple
  rw [Prog.run_bind_of (run_armReadRegister p _), Prog.run_bind_of (run_armReadCpsr p)]
  simp only [if_neg h0, if_neg hmode, hL, and_true, if_true]
  unfold blockWrite at hloop
  by_cases hpc : getBit (listField ins) 15 = true
  · have hnoS : ¬ getBit ins 22 = true := fun h => hS h hpc
    rw [if_neg hnoS] at hloop
    rw [if_neg hnoS, if_neg hnoS, Prog.run_bind_of hloop, if_pos hpc,
      Prog.run_bind_of (run_armReadWord s endianess a (loc.value 15)),
      Prog.run_bind_of (run_armWriteRegister _ 15 _), if_pos hpc]
    exact run_finish _ _ (listed_fifteen_of hpc) (address_pc ha) _
  · have hn := listed_fifteen_of_not hpc
    simp only [if_neg hpc]
    cases hS' : getBit ins 22 with
    | false =>
      rw [hS'] at hloop
      exact (Prog.run_bind_of hloop).trans (run_finish _ _ hn ha s)
    | true =>
      rw [hS'] at hloop
      exact (Prog.run_bind_of hloop).trans (run_finish _ _ hn ha s)

/-- The state after the query for an SPSR, with the word at the address loaded into r15. -/
def returnedPc (s : ArmCore) (address : Word) : ArmCore :=
  { s.queried with accesses := ⟨4, address⟩ :: s.accesses }.write 15
    (memoryReadWord s.mem address (loc.value 15) endianess).2

/-- The load with `S = 1` and r15 in the list asks for an SPSR after its loop. Where there is one,
the query has made the restore of CPSR one from itself. -/
theorem run_returnMultiple (hrefused : ¬ BlockRefused ins p) (hL : getBit ins 20 = true)
    (hS : getBit ins 22 = true) (hpc : getBit (listField ins) 15 = true)
    (hloop : (loadLoop endianess loc armWriteRegister (listField ins) (blockBase ins p)).run p =
      some (a, s))
    (ha : a = blockBase ins p + BitVec.ofNat 32 (4 * listed (listField ins) 15)) :
    (armLoadStoreMultiple endianess loc ins).run p =
      if (rstatInd s.mode).isSome then some (0, (returnedPc endianess loc s a).writeIf
        (getBit ins 21) (rnField ins) (blockEnd ins (p.read (rnField ins))))
      else some (undefinedInstruction, s.queried) := by
  obtain ⟨h0, hmode⟩ := not_or.1 hrefused
  rw [blockBase, ← addressingMode_start] at hloop
  have hquery : armCurrentModeHasSpsr.run s = some ((rstatInd s.mode).isSome, s.queried) :=
    (run_armCurrentModeHasSpsr s).trans
      (congrArg (fun b => some (b, s.queried)) (registersCurrentModeHasSpsr_fst s.reg))
  unfold armLoadStoreMultiple
  rw [Prog.run_bind_of (run_armReadRegister p _), Prog.run_bind_of (run_armReadCpsr p)]
  simp only [if_neg h0, if_neg hmode, if_pos (And.intro hS hL), if_pos hpc]
  rw [Prog.run_bind_of hloop, Prog.run_bind_of hquery]
  cases hspsr : (rstatInd s.mode).isSome with
  | false => rfl
  | true =>
    have hfst := (registersCurrentModeHasSpsr_fst s.reg).trans hspsr
    rw [if_pos rfl, if_pos rfl, Prog.run_bind_of (run_armReadSpsr _),
      Prog.run_bind_of (run_armWriteCpsr _ _), s.queried_restore hfst,
      Prog.run_bind_of (run_armReadWord _ _ _ _), Prog.run_bind_of (run_armWriteRegister _ _ _)]
    exact run_finish _ _ (listed_fifteen_of hpc) (address_pc ha) _

end

/-! ## The runs -/

/-- What the loops of a block transfer leave. -/
structure LoopKeeps (p q : ArmCore) : Prop where
  pc : q.pc = p.pc
  cpsr : q.reg.cpsr = p.reg.cpsr

/-- The loop over the registers keeps the mode. -/
theorem LoopKeeps.mode {p q : ArmCore} (h : LoopKeeps p q) : q.mode = p.mode := by
  rw [ArmCore.mode, registersGetMode, h.cpsr]
  rfl

section
variable (endianess : Byte) (loc : Locals) (ins : Word) (p : ArmCore)

/-- The loop of a store ends, a word further for each register in the list. -/
theorem run_storeLoop : ∃ a s,
    (storeLoop endianess (blockRead ins) (listField ins) (blockBase ins p)).run p = some (a, s) ∧
      a = blockBase ins p + BitVec.ofNat 32 (4 * listed (listField ins) 16) ∧ LoopKeeps p s :=
  storeLoop_triple endianess (fun reg s hs => ⟨_, s, run_blockRead ins s reg, hs⟩)
    (fun a value s hs => ⟨_, _, run_armWriteWord s endianess a value, hs.pc, hs.cpsr⟩)
    (listField ins) (blockBase ins p) p ⟨rfl, rfl⟩

/-- The loop of a load does, with r15 left out, and with either way to write a register. -/
theorem run_loadLoop {write : Byte → Word → ArmM Unit} {bank : ArmCore → Byte}
    (hwrite : ∀ s reg value, (write reg value).run s =
      some ((), { s with reg := registersWrite s.reg reg (bank s) value })) : ∃ a s,
    (loadLoop endianess loc write (listField ins) (blockBase ins p)).run p = some (a, s) ∧
      a = blockBase ins p + BitVec.ofNat 32 (4 * listed (listField ins) 15) ∧ LoopKeeps p s ∧
        s.mem = p.mem := by
  refine loadLoop_triple endianess loc (fun a value s hs => ?_) (listField ins)
    (fun i value hi _ s hs => ?_) (blockBase ins p) p ⟨⟨rfl, rfl⟩, rfl⟩
  · exact ⟨_, _, run_armReadWord s endianess a value, ⟨hs.1.pc, hs.1.cpsr⟩, hs.2⟩
  · have hne : BitVec.ofNat 8 i ≠ 15 := ofNat_ne (k := 15) (by omega) (by decide) (Nat.ne_of_lt hi)
    refine ⟨_, _, hwrite s _ value, ⟨?_, (registersWrite_cpsr _ _ _ _).trans hs.1.cpsr⟩, hs.2⟩
    exact ((registersWrite_pc _ _ _ _).trans (if_neg hne)).trans hs.1.pc

/-- What a block transfer returns and leaves, by the state `s` that its loop ends in. -/
inductive BlockRun : Byte → ArmCore → Prop
  | refused (h : BlockRefused ins p) : BlockRun undefinedInstruction p
  | stored {s : ArmCore} (hrefused : ¬ BlockRefused ins p) (hL : getBit ins 20 = false)
      (hs : LoopKeeps p s) : BlockRun 0
        (s.writeIf (getBit ins 21) (rnField ins) (blockEnd ins (p.read (rnField ins))))
  | loaded {a : Word} {s : ArmCore} (hrefused : ¬ BlockRefused ins p) (hL : getBit ins 20 = true)
      (hS : getBit ins 22 = true → ¬ getBit (listField ins) 15 = true) (hs : LoopKeeps p s) :
      BlockRun 0 ((if getBit (listField ins) 15 then loadedPc endianess loc s a else s).writeIf
        (getBit ins 21) (rnField ins) (blockEnd ins (p.read (rnField ins))))
  | returned {a : Word} {s : ArmCore} (hrefused : ¬ BlockRefused ins p)
      (hL : getBit ins 20 = true) (hS : getBit ins 22 = true)
      (hpc : getBit (listField ins) 15 = true) (hs : LoopKeeps p s) (hmem : s.mem = p.mem)
      (ha : a = blockBase ins p + BitVec.ofNat 32 (4 * listed (listField ins) 15))
      (hspsr : (rstatInd p.mode).isSome = true) :
      BlockRun 0 ((returnedPc endianess loc s a).writeIf (getBit ins 21) (rnField ins)
        (blockEnd ins (p.read (rnField ins))))
  | noSpsr {s : ArmCore} (hrefused : ¬ BlockRefused ins p) (hS : getBit ins 22 = true)
      (hspsr : ¬ (rstatInd p.mode).isSome = true) : BlockRun undefinedInstruction s.queried

/-- **Every block transfer returns**, in one of these ways. -/
theorem run_armLoadStoreMultiple : ∃ c p',
    (armLoadStoreMultiple endianess loc ins).run p = some (c, p') ∧
      BlockRun endianess loc ins p c p' := by
  by_cases hrefused : BlockRefused ins p
  · exact ⟨_, p, run_refusedMultiple endianess loc hrefused, .refused hrefused⟩
  cases hL : getBit ins 20 with
  | false =>
    obtain ⟨a, s, hloop, ha, hs⟩ := run_storeLoop endianess ins p
    exact ⟨_, _, run_storeMultiple endianess loc hrefused hL hloop ha, .stored hrefused hL hs⟩
  | true =>
    by_cases hreturn : getBit ins 22 = true ∧ getBit (listField ins) 15 = true
    · obtain ⟨hS, hpc⟩ := hreturn
      obtain ⟨a, s, hloop, ha, hs, hmem⟩ :=
        run_loadLoop endianess loc ins p run_armWriteRegister
      rw [run_returnMultiple endianess loc hrefused hL hS hpc hloop ha, hs.mode]
      split_ifs with hspsr
      · exact ⟨_, _, rfl, .returned hrefused hL hS hpc hs hmem ha hspsr⟩
      · exact ⟨_, _, rfl, .noSpsr hrefused hS hspsr⟩
    · have hS : getBit ins 22 = true → ¬ getBit (listField ins) 15 = true :=
        fun hS hpc => hreturn ⟨hS, hpc⟩
      obtain ⟨a, s, hloop, ha, hs, -⟩ := run_loadLoop endianess loc ins p (run_blockWrite ins)
      exact ⟨_, _, run_loadMultiple endianess loc hrefused hL hS hloop ha,
        .loaded hrefused hL hS hs⟩

/-- **No assertion on the end address fails**: the transfer returns, whatever the base and the mode,
and whether the words are in the memory or not. -/
theorem armLoadStoreMultiple_asserts :
    numberSetBitsIn (listField ins) = (listField ins).cpop.toNat ∧
      ∃ c p', (armLoadStoreMultiple endianess loc ins).run p = some (c, p') := by
  obtain ⟨c, p', hrun, -⟩ := run_armLoadStoreMultiple endianess loc ins p
  exact ⟨(numberSetBitsIn_eq _).trans (listed_eq_cpop _), c, p', hrun⟩

end

section
variable (endianess : Byte) (loc : Locals) {ins : Word} {p : ArmCore}

/-- A transfer with `S = 0` returns, and ends with the write-back. -/
theorem armLoadStoreMultiple_end (h0 : listField ins ≠ 0) (hS : getBit ins 22 = false) :
    ∃ s : ArmCore, (armLoadStoreMultiple endianess loc ins).run p = some (0,
        s.writeIf (getBit ins 21) (rnField ins) (blockEnd ins (p.read (rnField ins)))) ∧
      s.mode = p.mode := by
  have hnoS : ¬ getBit ins 22 = true := fun h => Bool.false_ne_true (hS.symm.trans h)
  obtain ⟨c, p', hrun, hblock⟩ := run_armLoadStoreMultiple endianess loc ins p
  cases hblock with
  | refused h => exact absurd h (not_or.2 ⟨h0, fun h => hnoS h.1⟩)
  | stored _ _ hs => exact ⟨_, hrun, hs.mode⟩
  | loaded _ _ _ hs =>
    refine ⟨_, hrun, ?_⟩
    split_ifs
    · exact (ArmCore.write_mode _ _ _).trans hs.mode
    · exact hs.mode
  | returned _ _ hS' => exact absurd hS' hnoS
  | noSpsr _ hS' => exact absurd hS' hnoS

/-- Rn ends at the address after the last word. -/
theorem armLoadStoreMultiple_base (hm : p.mode ∈ modes) (h0 : listField ins ≠ 0)
    (hW : getBit ins 21 = true) (hS : getBit ins 22 = false) (hrn : rnField ins ≠ 15) :
    ∃ p', (armLoadStoreMultiple endianess loc ins).run p = some (0, p') ∧ p'.mode = p.mode ∧
      p'.read (rnField ins) = blockEnd ins (p.read (rnField ins)) := by
  obtain ⟨s, hrun, hmode⟩ := armLoadStoreMultiple_end endianess loc (p := p) h0 hS
  rw [hW] at hrun
  refine ⟨_, hrun, (s.write_mode _ _).trans hmode, ?_⟩
  exact ArmCore.read_write_self (hmode ▸ hm) (getBits_le ins 16) hrn

/-- **The write-back.** Rn ends as the base moved over the words of the list exactly in the
increment-after mode. -/
theorem updatedBase_iff (hm : p.mode ∈ modes) (h0 : listField ins ≠ 0)
    (hW : getBit ins 21 = true) (hS : getBit ins 22 = false) (hrn : rnField ins ≠ 15) :
    ∃ p', (armLoadStoreMultiple endianess loc ins).run p = some (0, p') ∧
      (p'.read (rnField ins) = updatedBase ins (p.read (rnField ins)) ↔
        getBits ins 24 23 = 0b01) := by
  obtain ⟨p', hrun, -, hread⟩ := armLoadStoreMultiple_base endianess loc hm h0 hW hS hrn
  refine ⟨p', hrun, ?_⟩
  rw [hread]
  exact blockEnd_eq_iff h0 _

end

/-- A processor in supervisor mode with a memory of three words. -/
def threeWords : ArmCore := .initial 0x13 (.ofWords [0, 0, 0])

/-- `STMIA r0!, {r1}` moves r0 over the word stored. -/
theorem updatedBase_iff_threeWords :
    ∃ p', (armLoadStoreMultiple 1 .zero 0xE8A00002).run threeWords = some (0, p') ∧
      p'.read (rnField 0xE8A00002) =
        updatedBase 0xE8A00002 (threeWords.read (rnField 0xE8A00002)) := by
  have h0 : listField 0xE8A00002 ≠ 0 := by decide
  obtain ⟨p', hrun, hiff⟩ := updatedBase_iff 1 .zero (p := threeWords) (by decide) h0 (by decide)
    (by decide) (by decide)
  exact ⟨p', hrun, hiff.2 (by decide)⟩

/-- `STMIB r0!, {r1}` stores the word at 4 and leaves 8 in r0. -/
theorem updatedBase_fails :
    threeWords.mode ∈ modes ∧ getBit (0xE9A00002 : Word) 21 = true ∧
      getBit (0xE9A00002 : Word) 22 = false ∧ listField 0xE9A00002 = 0x0002 ∧
      rnField 0xE9A00002 = 0 ∧ threeWords.read 0 = 0 ∧ threeWords.mem.size = 12 ∧
      blockStart 0x0002 (getBits 0xE9A00002 24 23) 0 = 4 ∧
      ∃ p', (armLoadStoreMultiple 1 .zero 0xE9A00002).run threeWords = some (0, p') ∧
        p'.read 0 = 8 ∧ updatedBase 0xE9A00002 (threeWords.read 0) = 4 := by
  refine ⟨by decide, by decide, by decide, by decide, by decide, by decide, by decide, by decide,
    ?_⟩
  have h0 : listField 0xE9A00002 ≠ 0 := by decide
  obtain ⟨p', hrun, -, hread⟩ := armLoadStoreMultiple_base 1 .zero (p := threeWords) (by decide) h0
    (by decide) (by decide) (by decide)
  exact ⟨p', hrun, hread.trans (by decide), by decide⟩

end ArmSimulator
