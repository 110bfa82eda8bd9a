import ArmSimulator.WriteBack
import ArmSimulator.MemoryStore
import ArmSimulator.Alignment

/-!
# The words of a block transfer

The loops of `arm_load_store_multiple` go through the registers while an address moves through the
memory. Where register `i` is in the list, the address has moved by a word for each register of the
list below it: its word is `blockWord ... i`. `loadLoop_words` and `storeLoop_words` say this of the
two loops, for whichever bank of registers they transfer.
-/

namespace ArmSimulator

open Prog

/-! ## The place of a word -/

section
variable (registerList : Half)

/-- The registers of the list below `n`, in increasing order. -/
def listedRegisters (n : Nat) : List Nat := (List.range n).filter fun i => registerList.getLsbD i

/-- The word of register `i`: those of the registers of the list below it come before. -/
def blockWord (be : Byte) (mem : Memory) (start : Word) (i : Nat) : Word :=
  mem.value 32 be (start + BitVec.ofNat 32 (4 * listed registerList i))

/-- The listed registers below `n` are those whose bit is set. -/
theorem mem_listedRegisters {i n : Nat} :
    i ∈ listedRegisters registerList n ↔ i < n ∧ registerList.getLsbD i = true := by
  rw [listedRegisters, List.mem_filter, List.mem_range]

variable {registerList}

/-- A register whose bit is set is the last one listed so far. -/
theorem listedRegisters_of {i : Nat} (h : registerList.getLsbD i = true) :
    listedRegisters registerList (i + 1) = listedRegisters registerList i ++ [i] := by
  simp [listedRegisters, List.range_succ, h]

/-- A register whose bit is clear is not listed. -/
theorem listedRegisters_of_not {i : Nat} (h : ¬ registerList.getLsbD i = true) :
    listedRegisters registerList (i + 1) = listedRegisters registerList i := by
  simp [listedRegisters, List.range_succ, h]

/-- A register whose bit is clear is not counted. -/
theorem listed_of_not {i : Nat} (h : ¬ registerList.getLsbD i = true) :
    listed registerList (i + 1) = listed registerList i := by
  rw [listed_add_one, if_neg h, Nat.add_zero]

/-- More registers are counted further on. -/
theorem listed_mono {i n : Nat} (h : i ≤ n) : listed registerList i ≤ listed registerList n := by
  induction n with
  | zero => rw [Nat.le_zero.1 h]
  | succ n ih =>
    rcases Nat.eq_or_lt_of_le h with rfl | hlt
    · exact Nat.le_refl _
    · rw [listed_add_one registerList n]
      exact Nat.le_add_right_of_le (ih (Nat.le_of_lt_succ hlt))

/-- A register of the list is counted above it. -/
theorem listed_lt {i n : Nat} (h : registerList.getLsbD i = true) (hi : i < n) :
    listed registerList i < listed registerList n := by
  have hstep : listed registerList (i + 1) = listed registerList i + 1 := by
    rw [listed_add_one, if_pos h]
  exact Nat.lt_of_lt_of_le (hstep ▸ Nat.lt_succ_self _) (listed_mono hi)

/-- The word of a register of the list is among those of the transfer. -/
theorem Memory.Holds.word {mem : Memory} {start : Word}
    (hholds : mem.Holds start (4 * listed registerList 16)) {i : Nat} (hi : i < 16)
    (h : registerList.getLsbD i = true) :
    mem.Holds (start + BitVec.ofNat 32 (4 * listed registerList i)) 4 :=
  hholds.add (by decide) (Nat.mul_le_mul_left 4 (listed_lt h hi))

end

/-! ## Words stored one after the other -/

/-- The memory `mem'` is `mem` with the words of the registers of the list below `n` stored. -/
structure BlockStored (registerList : Half) (be : Byte) (start : Word) (n : Nat)
    (values : Nat → Word) (mem mem' : Memory) : Prop where
  size : mem'.size = mem.size
  words : ∀ i < n, registerList.getLsbD i = true →
    blockWord registerList be mem' start i = values i
  data : ∀ j, j < start.toNat ∨ start.toNat + 4 * listed registerList n ≤ j →
    mem'.data j = mem.data j

section
variable {registerList : Half} {be : Byte} {start : Word} {n : Nat} {values : Nat → Word}
  {mem mem' mem'' : Memory}

/-- The next word is stored behind the others. -/
theorem BlockStored.add (hholds : mem.Holds start (4 * listed registerList 16)) (hn : n < 16)
    (h : registerList.getLsbD n = true)
    (hstored : BlockStored registerList be start n values mem mem')
    (hwrote : Memory.Wrote be (start + BitVec.ofNat 32 (4 * listed registerList n)) (values n)
      mem' mem'') :
    BlockStored registerList be start (n + 1) values mem mem'' := by
  have haddress : ∀ i, i < 16 → registerList.getLsbD i = true →
      (start + BitVec.ofNat 32 (4 * listed registerList i)).toNat =
        start.toNat + 4 * listed registerList i := by
    intro i hi hin
    have := listed_lt hin hi
    exact hholds.add_toNat (by omega)
  have hdata := hwrote.data
  rw [haddress n hn h] at hdata
  refine ⟨hwrote.size.trans hstored.size, fun i hi hin => ?_, fun j hj => ?_⟩
  · rcases Nat.eq_or_lt_of_le (Nat.le_of_lt_succ hi) with rfl | hlt
    · exact hwrote.value
    · -- the words below are not touched
      rw [← hstored.words i hlt hin]
      have hbelow := listed_lt hin hlt
      refine Memory.value_congr be fun k hk => hdata _ (.inl ?_)
      rw [haddress i (by omega) hin]
      omega
  · rw [listed_add_one, if_pos h] at hj
    have hj' : j < start.toNat + 4 * listed registerList n ∨
        start.toNat + 4 * listed registerList n + 32 / 8 ≤ j := by omega
    rw [hdata j hj', hstored.data j (by omega)]

/-- A register that is not in the list stores nothing. -/
theorem BlockStored.skip (h : ¬ registerList.getLsbD n = true)
    (hstored : BlockStored registerList be start n values mem mem') :
    BlockStored registerList be start (n + 1) values mem mem' := by
  refine ⟨hstored.size, fun i hi hin => ?_, fun j hj => ?_⟩
  · rcases Nat.eq_or_lt_of_le (Nat.le_of_lt_succ hi) with rfl | hlt
    · exact absurd hin h
    · exact hstored.words i hlt hin
  · rw [listed_of_not h] at hj
    exact hstored.data j hj

end

/-! ## The loops -/

/-- A loop over register numbers keeps an invariant that follows the number, if a round for a
register of the list does and a register outside it changes nothing. -/
theorem transfer_range {registerList : Half} {body : Nat → Word → ArmM Word}
    {I : Nat → Word → ArmCore → Prop} {n : Nat}
    (hbody : ∀ i a, i < n → registerList.getLsbD i = true →
      Triple (I i a) (body i a) (I (i + 1)))
    (hskip : ∀ i a s, ¬ registerList.getLsbD i = true → I i a s → I (i + 1) a s) (a : Word) :
    Triple (I 0 a)
      ((List.range n).foldlM (fun a i => if getBit registerList i then body i a else return a) a)
      (I n) := by
  refine Triple.foldlM_range (fun i a hi => Triple.ite (fun h => ?_) fun h => ?_) a
  · rw [getBit_eq_getLsbD] at h
    exact hbody i a hi h
  · rw [getBit_eq_getLsbD] at h
    exact Triple.pure fun s hs => hskip i a s h hs

/-- The address moves by a word for a register of the list. -/
theorem address_add_one {registerList : Half} {i : Nat} (h : registerList.getLsbD i = true)
    (start : Word) :
    start + BitVec.ofNat 32 (4 * listed registerList (i + 1)) =
      start + BitVec.ofNat 32 (4 * listed registerList i) + 4 := by
  rw [listed_add_one, if_pos h, Nat.mul_add, BitVec.ofNat_add, ← BitVec.add_assoc]
  rfl

section
variable (endianess : Byte) (loc : Locals) {registerList : Half} {p : ArmCore} {start : Word}
  (hholds : p.mem.Holds start (4 * listed registerList 16))
include hholds

/-- The loop of a load writes its word to each register of the list, in the bank that `write` writes
to. -/
theorem loadLoop_words {bank : Byte} {write : Byte → Word → ArmM Unit}
    (hwrite : ∀ reg value s, s.mode = p.mode → (write reg value).run s =
      some ((), { s with reg := registersWrite s.reg reg bank value })) :
    Triple (· = p) (loadLoop endianess loc write registerList start) fun a s =>
      a = start + BitVec.ofNat 32 (4 * listed registerList 15) ∧ s.mem = p.mem ∧
        s.reg = writeWords bank (blockWord registerList endianess p.mem start)
          (listedRegisters registerList 15) p.reg := by
  let words := blockWord registerList endianess p.mem start
  refine Triple.pre (transfer_range (n := 15)
    (I := fun i a s => a = start + BitVec.ofNat 32 (4 * listed registerList i) ∧ s.mem = p.mem ∧
      s.reg = writeWords bank words (listedRegisters registerList i) p.reg)
    (fun i a hi h => ?_) (fun i a s h hs => ?_) start) ?_
  · rintro s ⟨ha, hmem, hreg⟩
    have hmode : s.mode = p.mode := by
      rw [ArmCore.mode, registersGetMode, hreg, writeWords_cpsr]
      rfl
    have hvalue : (memoryReadWord s.mem a (loc.value i) endianess).2 = words i := by
      rw [ha, hmem, (hholds.word (by omega) h).memoryReadWord_eq endianess (loc.value i)]
      rfl
    let q : ArmCore := { s with accesses := ⟨4, a⟩ :: s.accesses }
    refine ⟨a + 4, { q with reg := registersWrite q.reg (BitVec.ofNat 8 i) bank (words i) }, ?_, ?_,
      hmem, ?_⟩
    · rw [Prog.run_bind_of (run_armReadWord s endianess a (loc.value i)), hvalue,
        Prog.run_bind_of (hwrite (BitVec.ofNat 8 i) (words i) q hmode)]
      rfl
    · rw [ha, address_add_one h]
    · rw [listedRegisters_of h, writeWords_concat, ← hreg]
  · rwa [listed_of_not h, listedRegisters_of_not h]
  · rintro s rfl
    simp [listed, listedRegisters, writeWords]

omit loc in
/-- The loop of a store stores for each register of the list the value that `read` gives. -/
theorem storeLoop_words {value : Byte → Word} {read : Byte → ArmM Word}
    (hread : ∀ reg s, s.reg = p.reg → (read reg).run s = some (value reg, s)) :
    Triple (· = p) (storeLoop endianess read registerList start) fun a s =>
      a = start + BitVec.ofNat 32 (4 * listed registerList 16) ∧ s.reg = p.reg ∧
        BlockStored registerList endianess start 16 (fun i => value (BitVec.ofNat 8 i)) p.mem
          s.mem := by
  refine Triple.pre (transfer_range (n := 16)
    (I := fun i a s => a = start + BitVec.ofNat 32 (4 * listed registerList i) ∧ s.reg = p.reg ∧
      BlockStored registerList endianess start i (fun i => value (BitVec.ofNat 8 i)) p.mem s.mem)
    (fun i a hi h => ?_) (fun i a s h hs => ?_) start) ?_
  · rintro s ⟨ha, hreg, hstored⟩
    have hword : s.mem.Holds a 4 := ha ▸ (hholds.congr hstored.size).word hi h
    have hwrote := hword.memoryWriteWord_wrote endianess (value (BitVec.ofNat 8 i))
    refine ⟨a + 4, { s with
      mem := (memoryWriteWord s.mem a (value (BitVec.ofNat 8 i)) endianess).2
      accesses := ⟨4, a⟩ :: s.accesses }, ?_, ?_, hreg, hstored.add hholds hi h (ha ▸ hwrote)⟩
    · rw [Prog.run_bind_of (hread _ s hreg),
        Prog.run_bind_of (run_armWriteWord s endianess a (value (BitVec.ofNat 8 i)))]
      rfl
    · rw [ha, address_add_one h]
  · rw [listed_of_not h]
    exact ⟨hs.1, hs.2.1, hs.2.2.skip h⟩
  · rintro s rfl
    refine ⟨by simp [listed], rfl, rfl, fun i hi => absurd hi (Nat.not_lt_zero i), fun _ _ => rfl⟩

end

/-! ## The instruction -/

section
variable (endianess : Byte) (loc : Locals) {ins : Word} {p : ArmCore}

/-- With `S = 1` the modes without an SPSR are refused. -/
theorem not_blockRefused (h0 : listField ins ≠ 0)
    (hS : getBit ins 22 = true → p.mode ∈ exceptionModes) : ¬ BlockRefused ins p := by
  refine not_or.2 ⟨h0, ?_⟩
  rintro ⟨h, hmode⟩
  have hall : ∀ mode ∈ exceptionModes,
      ¬ (mode.setWidth 32 = USR.setWidth 32 ∨ mode.setWidth 32 = SYS.setWidth 32) := by
    decide
  rw [ArmCore.cpsr_and_mode] at hmode
  exact hall p.mode (hS h) hmode

/-- **A store** stores the registers of the list, of the bank. -/
theorem armLoadStoreMultiple_store (h0 : listField ins ≠ 0) (hL : getBit ins 20 = false)
    (hS : getBit ins 22 = true → p.mode ∈ exceptionModes)
    (hholds : p.mem.Holds (blockBase ins p) (4 * listed (listField ins) 16)) :
    ∃ s : ArmCore, (armLoadStoreMultiple endianess loc ins).run p = some (0,
        s.writeIf (getBit ins 21) (rnField ins) (blockEnd ins (p.read (rnField ins)))) ∧
      s.reg = p.reg ∧ BlockStored (listField ins) endianess (blockBase ins p) 16
        (fun i => p.readInternal (BitVec.ofNat 8 i) (blockBank ins p)) p.mem s.mem := by
  have hread : ∀ reg (s : ArmCore), s.reg = p.reg → (blockRead ins reg).run s =
      some (p.readInternal reg (blockBank ins p), s) := by
    intro reg s hs
    rw [run_blockRead]
    simp only [ArmCore.readInternal, blockBank, ArmCore.mode, hs]
  obtain ⟨a, s, hloop, ha, hreg, hstored⟩ := storeLoop_words endianess hholds hread p rfl
  have hrefused := not_blockRefused h0 hS
  exact ⟨s, run_storeMultiple endianess loc hrefused hL hloop ha, hreg, hstored⟩

/-- What a load makes of the registers. -/
def blockLoaded (ins : Word) (p : ArmCore) : Registers :=
  let words := blockWord (listField ins) endianess p.mem (blockBase ins p)
  let reg := writeWords (blockBank ins p) words (listedRegisters (listField ins) 15) p.reg
  if (listField ins).getLsbD 15 then registersWrite reg 15 p.mode (words 15 &&& 0xFFFFFFFC)
  else reg

/-- The registers of the list are loaded, in the bank of the transfer. -/
theorem blockLoaded_read (hm : blockBank ins p ∈ modes) {i : Nat} (hi : i < 15)
    (h : (listField ins).getLsbD i = true) :
    registersRead (blockLoaded endianess ins p) (BitVec.ofNat 8 i) (blockBank ins p) =
      blockWord (listField ins) endianess p.mem (blockBase ins p) i := by
  have hi16 : i < 16 := by omega
  have hpc : 15 ≠ BitVec.ofNat 8 i := ofNat_ne (i := 15) (by decide) hi16 (Nat.ne_of_gt hi)
  have hslot : (slot (BitVec.ofNat 8 i) (blockBank ins p)).isSome := by
    refine slot_isSome ?_ hm
    show (BitVec.ofNat 8 i).toNat ≤ 15
    rw [BitVec.toNat_ofNat]
    omega
  have hlist : ∀ j ∈ listedRegisters (listField ins) 15, j < 16 := by
    intro j hj
    have := ((mem_listedRegisters _).1 hj).1
    omega
  have hwords := registersRead_writeWords (blockBank ins p)
    (blockWord (listField ins) endianess p.mem (blockBase ins p)) p.reg hi16 hlist
    (List.nodup_range.filter _) (blockBank ins p) hslot
  rw [if_pos ⟨(mem_listedRegisters _).2 ⟨hi, h⟩, rfl⟩] at hwords
  unfold blockLoaded
  split_ifs
  · exact (registersRead_registersWrite_ne _ _ _ hpc _).trans hwords
  · exact hwords

/-- The PC is loaded with its two low bits cleared. -/
theorem blockLoaded_pc (h : (listField ins).getLsbD 15 = true) :
    (blockLoaded endianess ins p).genreg 15 =
      blockWord (listField ins) endianess p.mem (blockBase ins p) 15 &&& 0xFFFFFFFC := by
  unfold blockLoaded
  rw [if_pos h]
  exact (registersWrite_pc _ _ _ _).trans (if_pos rfl)

/-- Nothing but the registers of the list is loaded. -/
theorem blockLoaded_genreg {j : Fin gregTable}
    (hj : ∀ i < 16, (listField ins).getLsbD i = true →
      slot (BitVec.ofNat 8 i) (blockBank ins p) ≠ some j) :
    (blockLoaded endianess ins p).genreg j = p.reg.genreg j := by
  have hwords := writeWords_genreg (blockBank ins p)
    (blockWord (listField ins) endianess p.mem (blockBase ins p))
    (listedRegisters (listField ins) 15) p.reg (j := j) fun i hi => by
      obtain ⟨hlt, hlisted⟩ := (mem_listedRegisters _).1 hi
      exact hj i (by omega) hlisted
  unfold blockLoaded
  split_ifs with h
  · have hpc : slot 15 p.mode ≠ some j := by
      have h15 := hj 15 (by decide) h
      rw [slot_pc]
      exact (slot_pc (blockBank ins p)) ▸ h15
    exact (registersWrite_genreg _ _ _ _ _).trans ((if_neg hpc).trans hwords)
  · exact hwords

/-- The registers after a block load have the same CPSR. -/
theorem blockLoaded_cpsr : (blockLoaded endianess ins p).cpsr = p.reg.cpsr := by
  unfold blockLoaded
  split_ifs
  · exact (registersWrite_cpsr _ _ _ _).trans (writeWords_cpsr _ _ _ _)
  · exact writeWords_cpsr _ _ _ _

/-- The registers after a block load have the same saved status registers. -/
theorem blockLoaded_rstat : (blockLoaded endianess ins p).rstat = p.reg.rstat := by
  unfold blockLoaded
  split_ifs
  · exact (registersWrite_rstat _ _ _ _).trans (writeWords_rstat _ _ _ _)
  · exact writeWords_rstat _ _ _ _

/-- **A load** loads the registers of the list, in the bank. -/
theorem armLoadStoreMultiple_load (h0 : listField ins ≠ 0) (hL : getBit ins 20 = true)
    (hS : getBit ins 22 = true → p.mode ∈ exceptionModes ∧ (listField ins).getLsbD 15 = false)
    (hholds : p.mem.Holds (blockBase ins p) (4 * listed (listField ins) 16)) :
    ∃ s : ArmCore, (armLoadStoreMultiple endianess loc ins).run p = some (0,
        s.writeIf (getBit ins 21) (rnField ins) (blockEnd ins (p.read (rnField ins)))) ∧
      s.mem = p.mem ∧ s.reg = blockLoaded endianess ins p := by
  have hwrite : ∀ reg value (s : ArmCore), s.mode = p.mode → (blockWrite ins reg value).run s =
      some ((), { s with reg := registersWrite s.reg reg (blockBank ins p) value }) := by
    intro reg value s hs
    rw [run_blockWrite]
    simp only [blockBank, hs]
  obtain ⟨a, s, hloop, ha, hmem, hreg⟩ := loadLoop_words endianess loc hholds hwrite p rfl
  have hpc : getBit ins 22 = true → ¬ getBit (listField ins) 15 = true := by
    intro h
    rw [getBit_eq_getLsbD, (hS h).2]
    exact Bool.false_ne_true
  have hrefused := not_blockRefused h0 fun h => (hS h).1
  refine ⟨_, run_loadMultiple endianess loc hrefused hL hpc hloop ha, ?_⟩
  unfold blockLoaded
  simp only [getBit_eq_getLsbD]
  split_ifs with h15
  · have hword : (memoryReadWord s.mem a (loc.value 15) endianess).2 =
        blockWord (listField ins) endianess p.mem (blockBase ins p) 15 := by
      rw [ha, hmem, (hholds.word (by decide) h15).memoryReadWord_eq endianess (loc.value 15)]
      rfl
    have hmode : s.mode = p.mode := by
      rw [ArmCore.mode, registersGetMode, hreg, writeWords_cpsr]
      rfl
    refine ⟨hmem, ?_⟩
    rw [loadedPc, ArmCore.write, hword, ← hreg]
    exact congrArg (fun mode => registersWrite s.reg 15 mode _) hmode
  · exact ⟨hmem, hreg⟩

end

end ArmSimulator
