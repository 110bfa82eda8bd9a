import ArmSimulator.Accounting
import ArmSimulator.Isa
import ArmSimulator.Lib.Inevitable

/-!
# The simulator implements the machine

`ArmCore.machine` is the view of the processor. Wherever the machine has a step, `arm_step` makes
one (`armStep_machine`), whatever its locals hold: it returns, with the code of the instruction, in
the same mode, and the view of the state it leaves is a step of the machine from the view of the
state before. The machine leaves the carry of a sum or a difference open, so the simulator makes one
of its steps and the architecture may make another.
-/

namespace ArmSimulator

open Prog BarrelShifter

/-- The view of the processor. -/
def ArmCore.machine (p : ArmCore) : Machine where
  regs := fun reg => registersRead p.reg reg p.mode
  n := getBit p.reg.cpsr Flag.N
  z := getBit p.reg.cpsr Flag.Z
  c := getBit p.reg.cpsr Flag.C
  v := getBit p.reg.cpsr Flag.V
  mem := p.mem
  output := p.output

/-! ## The view -/

section
variable (p : ArmCore)

/-- The memory of the machine is that of the processor. -/
@[simp] theorem ArmCore.machine_mem : p.machine.mem = p.mem := rfl

/-- The PC of the machine is that of the processor. -/
@[simp] theorem ArmCore.machine_pc : p.machine.pc = p.pc := registersRead_pc p.reg p.mode

/-- A condition holds for the machine where it holds for the processor. -/
theorem ArmCore.machine_holds (code : Word) :
    conditionHolds code p.reg.cpsr = p.machine.holds code := rfl

/-- A register is an operand of the machine with the value that it has as one of the processor. -/
theorem ArmCore.machine_read (reg : Byte) : p.machine.read reg = p.operand reg := by
  rw [Machine.read, p.machine_pc, ArmCore.operand, ArmCore.read, ArmCore.readInternal]
  split_ifs
  · rfl
  · rfl

/-- A register that exists is written. -/
theorem ArmCore.machine_write_of {reg : Byte} (hs : (slot reg p.mode).isSome) (value : Word) :
    (p.write reg value).machine = p.machine.write reg value := by
  have hcpsr : (p.write reg value).reg.cpsr = p.reg.cpsr := registersWrite_cpsr _ _ _ _
  unfold ArmCore.machine Machine.write
  rw [p.write_mode, hcpsr]
  congr 1
  funext reg'
  by_cases h : reg' = reg
  · subst h
    rw [Function.update_self]
    exact registersRead_registersWrite_self _ _ _ _ hs
  · rw [Function.update_of_ne h]
    exact registersRead_registersWrite_ne _ _ _ (Ne.symm h) _

/-- The PC exists in any mode, and is written in the view. -/
theorem ArmCore.machine_write_pc (value : Word) :
    (p.write 15 value).machine = p.machine.write 15 value :=
  p.machine_write_of (by rw [slot_pc]; rfl) value

/-- A fetch is a step of the view to the next instruction. -/
theorem ArmCore.machine_fetched : p.fetched.machine = p.machine.next := by
  have hpc : registersRead p.reg 15 p.mode = p.machine.pc := rfl
  have hwrite := p.machine_write_pc (p.machine.pc + 4)
  rw [← hpc] at hwrite
  exact hwrite

end

/-- After the fetch the registers read as they do for the machine. -/
theorem ArmCore.fetched_read_machine {p : ArmCore} (hp : Aligned p.pc) (reg : Byte) :
    p.fetched.read reg = p.machine.read reg :=
  (ArmCore.fetched_read hp reg).trans (p.machine_read reg).symm

section
variable {p : ArmCore} (hm : p.mode ∈ modes)
include hm

/-- The registers exist in the seven modes, and are written in the view. -/
theorem ArmCore.machine_write {reg : Byte} (hr : reg ≤ 15) (value : Word) :
    (p.write reg value).machine = p.machine.write reg value :=
  p.machine_write_of (slot_isSome hr hm) value

/-- The machine after the write of a register, if one is written, is the machine with that write. -/
theorem ArmCore.machine_writeIf (b : Bool) {reg : Byte} (hr : reg ≤ 15) (value : Word) :
    (p.writeIf b reg value).machine = p.machine.writeIf b reg value := by
  cases b with
  | false => rfl
  | true => exact ArmCore.machine_write hm hr value

end

/-- The flags are written in the mode that they do not belong to. -/
theorem ArmCore.machine_setFlags (p : ArmCore) (result : Word) (c v : Bool) :
    let q := p.writeCpsr (newCpsr p.reg.cpsr (getBit result 31) (result == 0) c v)
    q.machine = p.machine.setFlags result c v ∧ q.mode = p.mode := by
  intro q
  have hmode : q.mode = p.mode := by
    have hlow : q.reg.cpsr &&& 0x1F = p.reg.cpsr &&& 0x1F :=
      Bits.agree_mono (newCpsr_and p.reg.cpsr _ _ c v) (by decide)
    exact congrArg (BitVec.setWidth 8) hlow
  obtain ⟨hn, hz, hc, hv⟩ := newCpsr_result p.reg.cpsr result c v
  refine ⟨?_, hmode⟩
  unfold ArmCore.machine Machine.setFlags
  rw [hmode]
  congr 1

/-! ## Data processing -/

/-- The opcodes that compare are those with 10 in the bits 24:23. -/
theorem opcodeField_comparisons (w : Word) :
    opcodeField w ∈ comparisons ↔ getBits w 24 23 = 0b10 := by
  have hfield : opcodeField w =
      ((if getBit w 24 then 8 else 0) ||| ((if getBit w 23 then 4 else 0) |||
        ((if getBit w 22 then 2 else 0) ||| (if getBit w 21 then 1 else 0))) : Word).setWidth
          8 := by
    rw [opcodeField, getBits_succ w (by decide), getBits_succ w (by decide), getBits_pair]
    rfl
  rw [hfield, getBits_pair]
  cases getBit w 24 <;> cases getBit w 23 <;> cases getBit w 22 <;> cases getBit w 21 <;> decide

/-- An opcode of the fragment leaves its result, and the flags but for the carry of a sum or a
difference. -/
theorem run_dataProcessing_machine {p : ArmCore} (hm : p.mode ∈ modes) {opcode rd : Byte}
    (hopcode : opcode ∈ logicalOpcodes ++ carryOpcodes) (hrd : rd ≤ 15) {sBit : Bool}
    (hs : sBit = true → rd ≠ 15) (x y : Word) (carryOut : Bool) :
    ∃ c q, (dataProcessing sBit opcode rd x y carryOut).run p.fetched = some (0, q) ∧
      (opcode ∈ logicalOpcodes → c = carryOut) ∧
      q.machine = p.machine.data opcode sBit rd x y c ∧ q.mode = p.mode := by
  let r := opcodeResult opcode x y carryOut (getBit p.fetched.reg.cpsr Flag.C)
    (getBit p.fetched.reg.cpsr Flag.V)
  let q := p.fetched.writeIf r.changeRd rd r.result
  have hrun := run_dataProcessing p.fetched opcode (fun h => hs h.1 h.2) x y carryOut
  have hresult : r.result = referenceResult opcode x y :=
    opcodeResult_result x y carryOut _ _ hopcode
  have hv : r.vBit = p.machine.overflow opcode x y := by
    rw [Machine.overflow]
    split_ifs with hlogical
    · rw [(opcodeResult_logical x y carryOut _ _ hlogical).2.2, p.fetched_cpsr]
      rfl
    · have harithmetic := (List.mem_append.1 hopcode).resolve_left hlogical
      exact (opcodeResult_arithmetic x y carryOut _ _ harithmetic).2
  have hchange : r.changeRd = decide (opcode ∉ comparisons) :=
    Bool.eq_iff_iff.2 ((opcodeResult_changeRd _ _ _ _ _ _).trans decide_eq_true_iff.symm)
  have hq : q.machine = p.machine.next.writeIf (decide (opcode ∉ comparisons)) rd
      (referenceResult opcode x y) := by
    rw [← hchange, ← hresult, ← p.machine_fetched]
    exact ArmCore.machine_writeIf (p.fetched_mode.symm ▸ hm) _ hrd _
  have hqmode : q.mode = p.mode := (ArmCore.writeIf_mode _ _ _ _).trans p.fetched_mode
  refine ⟨r.cBit, _, hrun, fun h => (opcodeResult_logical x y carryOut _ _ h).2.1, ?_⟩
  cases sBit with
  | false => exact ⟨hq, hqmode⟩
  | true =>
    obtain ⟨hmachine, hmode⟩ := q.machine_setFlags r.result r.cBit r.vBit
    have hcpsr : q.reg.cpsr = p.fetched.reg.cpsr := ArmCore.writeIf_cpsr _ _ _ _
    rw [hcpsr] at hmachine hmode
    refine ⟨hmachine.trans ?_, hmode.trans hqmode⟩
    rw [hq, hresult, hv]
    rfl

/-- A shifted operand of the fragment is that of the machine. -/
theorem shiftedOperand_machine {p : ArmCore} (hp : Aligned p.pc) {w : Word} (h : ShiftForm w)
    (hregular : (decodeShift w).Regular (rdField w) (rnField w)) :
    shiftedOperand w p.fetched = some (p.machine.operand (decodeShift w)) := by
  have hread := ArmCore.fetched_read_machine hp
  unfold decodeShift at hregular ⊢
  cases h4 : getBit w 4 with
  | false =>
    rw [h4] at hregular
    have hregister : ¬ (getBit w 4 = true ∧ (rdField w = 15 ∨ rmField w = 15 ∨ rnField w = 15 ∨
        rsField w = 15)) := fun hn => Bool.false_ne_true (h4.symm.trans hn.1)
    have hpc : ¬ (getBit w 4 = false ∧ (rmField w = 15 ∨ rnField w = 15)) := fun hn =>
      hn.2.elim hregular.1 hregular.2
    rw [shiftedOperand, shifterOperand_eq h, if_neg hregister, if_neg hpc, hread, p.fetched_cpsr,
      shiftedValue, h4]
    rfl
  | true =>
    rw [h4] at hregular
    obtain ⟨hrd, hrm, hrn, hrs⟩ := hregular
    have hregister : ¬ (getBit w 4 = true ∧ (rdField w = 15 ∨ rmField w = 15 ∨ rnField w = 15 ∨
        rsField w = 15)) := by
      rintro ⟨-, h15 | h15 | h15 | h15⟩
      · exact hrd h15
      · exact hrm h15
      · exact hrn h15
      · exact hrs h15
    have hpc : ¬ (getBit w 4 = false ∧ (rmField w = 15 ∨ rnField w = 15)) := fun hn =>
      Bool.false_ne_true (hn.1.symm.trans h4)
    rw [shiftedOperand, shifterOperand_eq h, if_neg hregister, if_neg hpc, hread, hread,
      p.fetched_cpsr, shiftedValue, h4]
    rfl

/-- An immediate operand is that of the machine. -/
theorem immediateOperand_machine (p : ArmCore) (w : Word) :
    let x := ror (getBits w 7 0) ((getBits w 11 8).setWidth 8 * 2)
    (x, if (getBits w 11 8).setWidth 8 = (0 : Byte) then getBit p.fetched.reg.cpsr Flag.C
      else getBit x 31) =
      p.machine.operand (.immediate (getBits w 7 0) (getBits w 11 8).toNat) := by
  intro x
  have hlt : (getBits w 11 8).toNat < 16 := by
    rw [toNat_getBits]
    exact Nat.mod_lt _ (by decide)
  have hbyte : ((getBits w 11 8).setWidth 8 : Byte).toNat = (getBits w 11 8).toNat :=
    toNat_setWidth_getBits w (by decide)
  have hamount : ((getBits w 11 8).setWidth 8 * 2 : Byte).toNat = 2 * (getBits w 11 8).toNat := by
    rw [BitVec.toNat_mul, hbyte]
    show (getBits w 11 8).toNat * 2 % 2 ^ 8 = _
    omega
  have hx : x = value .ror (getBits w 7 0) (2 * (getBits w 11 8).toNat) := by
    rw [← hamount]
    exact ror_eq _ (by omega)
  have hzero : (getBits w 11 8).setWidth 8 = (0 : Byte) ↔ (getBits w 11 8).toNat = 0 := by
    rw [← hbyte]
    exact BitVec.toNat_inj.symm
  rw [Machine.operand, ← hx, p.fetched_cpsr, getBit_eq_getLsbD x, BitVec.msb_eq_getLsbD_last]
  simp only [hzero]
  rfl

/-! ## Single transfers -/

section
variable (endianess : Byte) (loc : Locals) {p : ArmCore} {w : Word} {offset : Offset}

/-- The address of a transfer, and its base, are those of the machine, where its offset is. -/
theorem singleSum_machine (hp : Aligned p.pc)
    (hoffset : singleOffset w p.fetched = p.machine.offset offset) :
    singleSum w p.fetched = p.machine.sum (getBit w 23) (rnField w) offset := by
  rw [singleSum, hoffset, ArmCore.fetched_read_machine hp]
  rfl

/-- A single transfer goes to the address that the machine computes. -/
theorem singleAddress_machine (hp : Aligned p.pc)
    (hoffset : singleOffset w p.fetched = p.machine.offset offset) :
    singleAddress w p.fetched =
      p.machine.address (getBit w 24) (getBit w 23) (rnField w) offset := by
  rw [singleAddress, singleSum_machine hp hoffset, ArmCore.fetched_read_machine hp]
  rfl

/-- The base is written by the post-indexed and the write-back forms. -/
theorem decide_baseUpdated (w : Word) :
    decide (BaseUpdated w) = (!getBit w 24 || getBit w 21) := by
  unfold BaseUpdated
  cases getBit w 24 <;> cases getBit w 21 <;> rfl

/-- A single transfer of the fragment is executed as the machine has it. -/
theorem run_armLoadStore_machine (hm : p.mode ∈ modes) (hp : Aligned p.pc)
    (h : SingleTransfer w) (hhalf : UnsignedHalf w)
    (hoffset : singleOffset w p.fetched = p.machine.offset offset)
    (hregular : (decodeTransfer w offset).Regular) {r : Byte × Machine}
    (hexec : (decodeTransfer w offset).Exec endianess p.machine r) :
    ∃ q, (armLoadStore endianess loc w).run p.fetched = some (0, q) ∧
      (decodeTransfer w offset).Exec endianess p.machine (0, q.machine) ∧
      q.mode = p.mode := by
  obtain ⟨hwriteBack, hrn⟩ := hregular
  have hindex : ¬ NoIndexing w := by
    rintro ⟨hP, hW⟩
    rw [hwriteBack hP] at hW
    cases hW
  let base := p.fetched.writeIf (decide (BaseUpdated w)) (rnField w) (singleSum w p.fetched)
  have hrun : (armLoadStore endianess loc w).run p.fetched =
      (transferAt endianess loc w (singleAddress w p.fetched)).run base := by
    rw [run_armLoadStore endianess loc h, transferAddress_eq loc hindex,
      written_transferBase hindex, if_neg]
    rintro ⟨h0, href⟩
    rw [TransferRefused, if_neg h0] at href
    exact hindex href.2
  have hfm : p.fetched.mode ∈ modes := p.fetched_mode.symm ▸ hm
  have hmode : base.mode = p.mode := (ArmCore.writeIf_mode _ _ _ _).trans p.fetched_mode
  have hmem : base.mem = p.mem := ArmCore.writeIf_mem _ _ _ _
  have hbase : base.machine =
      p.machine.based (getBit w 24) (getBit w 23) (getBit w 21) (rnField w) offset := by
    rw [Machine.based, ← decide_baseUpdated, ← singleSum_machine hp hoffset, ← p.machine_fetched]
    exact ArmCore.machine_writeIf hfm _ (getBits_le w 16) _
  have haddress := singleAddress_machine hp hoffset
  rw [hrun]
  unfold decodeTransfer at hexec ⊢
  cases hL : getBit w 20 with
  | true =>
    rw [hL] at hexec
    cases hexec with
    | load haccess =>
      have hbytes : base.mem.Holds (singleAddress w p.fetched) (transferWidth w / 8) := by
        rw [hmem, haddress]
        exact haccess.holds
      obtain ⟨accesses, hload⟩ := run_transferAt_load endianess loc hhalf hL hbytes
      refine ⟨_, hload, ?_, (ArmCore.write_mode _ _ _).trans hmode⟩
      have hview : ArmCore.machine { base with accesses } = base.machine := rfl
      have hmachine := ArmCore.machine_write (p := { base with accesses }) (hmode.symm ▸ hm)
        (getBits_le w 12) ((base.mem.value (transferWidth w) endianess
          (singleAddress w p.fetched)).setWidth 32)
      rw [hmachine, hview, hbase, hmem, haddress]
      exact .load haccess
  | false =>
    rw [hL] at hexec
    cases hexec with
    | store haccess hwrote =>
      have hbytes : base.mem.Holds (singleAddress w p.fetched) (transferWidth w / 8) := by
        rw [hmem, haddress]
        exact haccess.holds
      obtain ⟨accesses, mem, hstore, hmem'⟩ := run_transferAt_store endianess loc hhalf hL hbytes
      have hread : base.read (rdField w) = p.machine.read (rdField w) := by
        rw [← ArmCore.fetched_read_machine hp]
        exact ArmCore.read_writeIf_ne fun hb he => (hrn (of_decide_eq_true hb)).2 he.symm
      refine ⟨_, hstore, ?_, hmode⟩
      have hview : ArmCore.machine { base with accesses, mem } = { base.machine with mem } := rfl
      rw [hview, hbase]
      rw [hread, hmem, haddress] at hmem'
      exact .store haccess hmem'

end

/-! ## Block transfers -/

section
variable {endianess : Byte} {loc : Locals} {p s : ArmCore} {w : Word}

/-- No instruction prints. -/
theorem output_armLoadStoreMultiple {c : Byte}
    (h : (armLoadStoreMultiple endianess loc w).run p = some (c, s)) : s.output = p.output := by
  have hrespected : Respected fun s : ArmCore => s.output = p.output := ⟨fun _ => id, fun _ => id⟩
  exact hrespected.armLoadStoreMultiple endianess loc w p rfl c s h

/-- The first word of a block transfer is that of the machine. -/
theorem blockBase_machine (hrn : rnField w ≠ 15) : blockBase w p.fetched =
    p.machine.first (getBit w 24) (getBit w 23) (rnField w) (listField w) := by
  have hread : p.fetched.read (rnField w) = p.machine.read (rnField w) := by
    rw [ArmCore.fetched_read_ne hrn, p.machine_read, ArmCore.operand, if_neg hrn]
  rw [blockBase, blockStart, hread, getBits_pair, Machine.first]
  cases getBit w 24 <;> cases getBit w 23 <;> rfl

/-- A register that is not in the list reads as before. -/
theorem blockLoaded_read_of_not {reg : Byte} (h : ¬ (listField w).getLsbD reg.toNat = true) :
    registersRead (blockLoaded endianess w p) reg (blockBank w p) =
      registersRead p.reg reg (blockBank w p) := by
  unfold registersRead
  cases hs : slot reg (blockBank w p) with
  | none => rfl
  | some j =>
    refine blockLoaded_genreg endianess fun i hi hlisted hslot => h ?_
    have hreg : i = reg.toNat := by
      have hmod := (slot_mod hslot).symm.trans (slot_mod hs)
      rwa [BitVec.toNat_ofNat, Nat.mod_eq_of_lt (by omega)] at hmod
    rwa [← hreg]

/-- What a load makes of the state is what the machine loads. -/
theorem blockLoaded_machine (hm : p.mode ∈ modes) (hS : getBit w 22 = false)
    (hreg : s.reg = blockLoaded endianess w p) (hmem : s.mem = p.mem)
    (houtput : s.output = p.output) :
    s.machine = p.machine.loadBlock endianess (listField w) (blockBase w p) ∧
      s.mode = p.mode := by
  have hbank : blockBank w p = p.mode := by rw [blockBank, hS]; rfl
  have hcpsr : s.reg.cpsr = p.reg.cpsr := by rw [hreg, blockLoaded_cpsr]
  have hmode : s.mode = p.mode := congrArg (fun cpsr => (cpsr &&& 0x1F).setWidth 8) hcpsr
  refine ⟨?_, hmode⟩
  have hregs : ∀ reg, registersRead s.reg reg s.mode =
      (p.machine.loadBlock endianess (listField w) (blockBase w p)).regs reg := by
    intro reg
    show _ = if _ then if _ then _ else _ else registersRead p.reg reg p.mode
    rw [hreg, hmode]
    split_ifs with hlisted h15
    · subst h15
      rw [registersRead_pc]
      exact blockLoaded_pc endianess hlisted
    · have hlt : reg.toNat < 16 := by
        by_contra hge
        rw [BitVec.getLsbD_of_ge _ _ (Nat.not_lt.1 hge)] at hlisted
        cases hlisted
      have hne : reg.toNat ≠ 15 := fun he => h15 (BitVec.eq_of_toNat_eq he)
      have hword := blockLoaded_read endianess (hbank.symm ▸ hm) (i := reg.toNat) (by omega) hlisted
      rwa [BitVec.ofNat_toNat, BitVec.setWidth_eq, hbank] at hword
    · rw [← hbank]
      exact blockLoaded_read_of_not hlisted
  unfold ArmCore.machine Machine.loadBlock
  rw [hcpsr, hmem, houtput]
  congr 1
  exact funext hregs

/-- The base of a block transfer is moved up as on the machine. -/
theorem raised_machine (hm : s.mode ∈ modes) (base : Word)
    (hwriteBack : getBit w 21 = true → getBit w 24 = false ∧ getBit w 23 = true) :
    (s.writeIf (getBit w 21) (rnField w) (blockEnd w base)).machine =
      s.machine.raised (getBit w 21) (rnField w) (listField w) base := by
  rw [ArmCore.machine_writeIf hm _ (getBits_le w 16), Machine.raised]
  cases hW : getBit w 21 with
  | false => rfl
  | true =>
    obtain ⟨h24, h23⟩ := hwriteBack hW
    have hcode : getBits w 24 23 = 0b01 := by rw [getBits_pair, h24, h23]; rfl
    rw [blockEnd, blockStart, if_pos hcode]

/-- A block transfer of the fragment is executed as the machine has it. -/
theorem run_armLoadStoreMultiple_machine (hm : p.mode ∈ modes) (hp : Aligned p.pc)
    (hS : getBit w 22 = false) (hregular : (decodeBlock w).Regular) {r : Byte × Machine}
    (hexec : (decodeBlock w).Exec endianess p.machine r) :
    ∃ q, (armLoadStoreMultiple endianess loc w).run p.fetched = some (0, q) ∧
      (decodeBlock w).Exec endianess p.machine (0, q.machine) ∧ q.mode = p.mode := by
  obtain ⟨h0, hrn, hwriteBack⟩ := hregular
  have hfm : p.fetched.mode ∈ modes := p.fetched_mode.symm ▸ hm
  have hbase := blockBase_machine (p := p) hrn
  have hread := ArmCore.fetched_read_machine hp
  have hbank : blockBank w p.fetched = p.fetched.mode := by rw [blockBank, hS]; rfl
  have hnoS : ¬ getBit w 22 = true := fun h => Bool.false_ne_true (hS.symm.trans h)
  have hraised := fun h => (hwriteBack h).imp_right And.left
  have houtput : ∀ (s : ArmCore) b reg value, (s.writeIf b reg value).output = s.output :=
    fun s b reg value => by cases b <;> rfl
  unfold decodeBlock at hexec ⊢
  cases hL : getBit w 20 with
  | true =>
    rw [hL] at hexec
    cases hexec with
    | loadBlock haccess =>
      obtain ⟨s, hrun, hmem, hreg⟩ := armLoadStoreMultiple_load endianess loc h0 hL
        (fun h => absurd h hnoS) (hbase ▸ haccess.holds : p.fetched.mem.Holds _ _)
      have hprinted := (houtput _ _ _ _).symm.trans (output_armLoadStoreMultiple hrun)
      obtain ⟨hview, hmode⟩ := blockLoaded_machine hfm hS hreg hmem hprinted
      refine ⟨_, hrun, ?_, (ArmCore.writeIf_mode _ _ _ _).trans (hmode.trans p.fetched_mode)⟩
      rw [raised_machine (hmode.symm ▸ hfm) _ hraised, hview, hread, hbase, p.machine_fetched]
      exact .loadBlock haccess
  | false =>
    rw [hL] at hexec
    cases hexec with
    | storeBlock haccess _ =>
      obtain ⟨s, hrun, hreg, hstored⟩ := armLoadStoreMultiple_store endianess loc h0 hL
        (fun h => absurd h hnoS) (hbase ▸ haccess.holds : p.fetched.mem.Holds _ _)
      have hprinted := (houtput _ _ _ _).symm.trans (output_armLoadStoreMultiple hrun)
      have hmode : s.mode = p.fetched.mode := by
        rw [ArmCore.mode, registersGetMode, hreg]
        rfl
      have hview : s.machine = { p.fetched.machine with mem := s.mem } := by
        unfold ArmCore.machine
        rw [hmode, hreg, hprinted]
      refine ⟨_, hrun, ?_, (ArmCore.writeIf_mode _ _ _ _).trans (hmode.trans p.fetched_mode)⟩
      rw [raised_machine (hmode.symm ▸ hfm) _ hraised, hview, hread, p.machine_fetched]
      have hvalues : (fun i => p.fetched.readInternal (BitVec.ofNat 8 i) (blockBank w p.fetched)) =
          fun i => p.machine.read (BitVec.ofNat 8 i) := by
        funext i
        rw [hbank]
        exact hread _
      rw [hvalues, hbase] at hstored
      cases hW : getBit w 21 with
      | false => exact .storeBlock haccess hstored
      | true => exact .storeBlock haccess hstored

end

/-! ## Instructions -/

/-- The word is executed, after its fetch, as the machine executes the instruction. -/
def Implements (endianess : Byte) (loc : Locals) (w : Word) (p : ArmCore) (i : Insn) : Prop :=
  ∃ q, (armDecode endianess loc w).run p.fetched = some (0, q) ∧
    i.Exec endianess p.machine (0, q.machine) ∧ q.mode = p.mode

section
variable {endianess : Byte} {loc : Locals} {p : ArmCore} {w : Word}

/-- The simulator implements a data processing instruction for which it runs its arithmetic. -/
theorem implements_decodeData (hm : p.mode ∈ modes) (hp : Aligned p.pc) {operand : Operand}
    (hregular : (decodeData w operand).Regular)
    (hrun : (armDecode endianess loc w).run p.fetched = (dataProcessing (getBit w 20)
      (opcodeField w) (rdField w) (p.fetched.read (rnField w)) (p.machine.operand operand).1
      (p.machine.operand operand).2).run p.fetched) :
    Implements endianess loc w p (decodeData w operand) := by
  obtain ⟨hopcode, hs, -, -⟩ := hregular
  obtain ⟨c, q, hq, hc, hmachine, hmode⟩ := run_dataProcessing_machine hm hopcode
    (getBits_le w 12) hs (p.fetched.read (rnField w)) (p.machine.operand operand).1
    (p.machine.operand operand).2
  refine ⟨q, hrun.trans hq, ?_, hmode⟩
  rw [hmachine, ArmCore.fetched_read_machine hp]
  exact .data hc

/-- An instruction of the fragment is neither a comparison without `S`, of the miscellaneous space,
nor `MSR`. -/
theorem not_miscellaneous {operand : Operand} (hregular : (decodeData w operand).Regular) :
    ¬ (getBits w 24 23 = 0b10 ∧ getBit w 20 = false) := by
  rintro ⟨h24, hs⟩
  exact hregular.2.2.1 hs ((opcodeField_comparisons w).2 h24)

/-- The simulator implements a data processing instruction with a shifted operand. -/
theorem implements_shift (hm : p.mode ∈ modes) (hp : Aligned p.pc) (h0 : getBits w 27 25 = 0b000)
    (hform : ShiftForm w) (hregular : (decodeData w (decodeShift w)).Regular) :
    Implements endianess loc w p (decodeData w (decodeShift w)) := by
  refine implements_decodeData hm hp hregular ?_
  rw [armDecode, if_pos h0, if_neg hform, if_neg (not_miscellaneous hregular)]
  exact run_armDataProcessingShift
    (shiftedOperand_machine hp hform hregular.2.2.2)

/-- The simulator implements a data processing instruction with an immediate. -/
theorem implements_immediate (hm : p.mode ∈ modes) (hp : Aligned p.pc)
    (h1 : getBits w 27 25 = 0b001)
    (hregular : (decodeData w (.immediate (getBits w 7 0) (getBits w 11 8).toNat)).Regular) :
    Implements endianess loc w p
      (decodeData w (.immediate (getBits w 7 0) (getBits w 11 8).toNat)) := by
  have hmsr : ¬ (getBits w 24 23 = 0b10 ∧ getBits w 21 20 = 0b10) := by
    rintro ⟨h24, h21⟩
    refine not_miscellaneous hregular ⟨h24, ?_⟩
    have hbits : ∀ b c : Bool,
        ((if b then 2 else 0) ||| (if c then 1 else 0) : Word) = 0b10 → c = false := by decide
    exact hbits _ _ ((getBits_pair w 20).symm.trans h21)
  refine implements_decodeData hm hp hregular ?_
  rw [armDecode, if_neg (ne_of_eq_of_ne h1 (by decide)), if_pos h1, armDataProcessingImmediateMsr,
    if_neg hmsr]
  unfold armDataProcessingImmediate
  rw [run_bind_of (run_armReadCpsr _), run_bind_of (run_armReadRegister _ _),
    ← immediateOperand_machine]

/-- The simulator implements a branch. -/
theorem implements_branch (hm : p.mode ∈ modes) (hp : Aligned p.pc)
    (h : getBits w 27 25 = 0b101) :
    Implements endianess loc w p (.branch (getBit w 24) (signedOffset w)) := by
  have hread : p.fetched.read 15 = p.machine.pc + 8 :=
    (ArmCore.fetched_read_machine hp 15).trans (if_pos rfl)
  have hlink : p.machine.pc + 8 - 4 = p.machine.pc + 4 := by bv_omega
  have hrun := run_armBranch h p.fetched
  rw [hread, hlink, branchOffset_eq] at hrun
  refine ⟨_, (congrArg (StateT.run · p.fetched) (armDecode_branch endianess loc h)).trans hrun, ?_,
    (ArmCore.write_mode _ _ _).trans ((ArmCore.writeIf_mode _ _ _ _).trans p.fetched_mode)⟩
  rw [ArmCore.machine_write_pc, ArmCore.machine_writeIf (p.fetched_mode.symm ▸ hm) _ (by decide),
    p.machine_fetched]
  exact .branch

/-- The simulator implements a single transfer in each of its forms. -/
theorem implements_transfer (hm : p.mode ∈ modes) (hp : Aligned p.pc) (h : SingleTransfer w)
    (hhalf : UnsignedHalf w) {offset : Offset}
    (hoffset : singleOffset w p.fetched = p.machine.offset offset)
    (hregular : (decodeTransfer w offset).Regular) {r : Byte × Machine}
    (hexec : (decodeTransfer w offset).Exec endianess p.machine r) :
    Implements endianess loc w p (decodeTransfer w offset) := by
  unfold Implements
  rw [armDecode_singleTransfer endianess loc h]
  exact run_armLoadStore_machine endianess loc hm hp h hhalf hoffset hregular hexec

/-- The simulator implements a block transfer. -/
theorem implements_block (hm : p.mode ∈ modes) (hp : Aligned p.pc) (h : MultipleTransfer w)
    (hS : getBit w 22 = false) (hregular : (decodeBlock w).Regular) {r : Byte × Machine}
    (hexec : (decodeBlock w).Exec endianess p.machine r) :
    Implements endianess loc w p (decodeBlock w) := by
  unfold Implements
  rw [armDecode_multipleTransfer endianess loc h]
  exact run_armLoadStoreMultiple_machine hm hp hS hregular hexec

/-- Only the words of `SWI` are decoded to it. -/
theorem decode_swi {number : Word} (h : decode w = some (.swi number)) :
    getBits w 27 24 = 0b1111 ∧ number = getBits w 23 0 := by
  unfold decode at h
  split_ifs at h with h0 hls hhalf h1 h2 h3 h4 h5 hS h6 h7
  all_goals cases h
  exact ⟨h7, rfl⟩

/-- The simulator implements the instructions other than `SWI`, by the class of the word. -/
theorem implements_of_decode (hm : p.mode ∈ modes) (hp : Aligned p.pc) {i : Insn}
    (hdecode : decode w = some i) (hregular : i.Regular) {r : Byte × Machine}
    (hexec : i.Exec endianess p.machine r) (hswi : ∀ number, i ≠ .swi number) :
    Implements endianess loc w p i := by
  have hrm : p.fetched.read (rmField w) = p.machine.read (rmField w) :=
    ArmCore.fetched_read_machine hp _
  unfold decode at hdecode
  split_ifs at hdecode with h0 hls hhalf h1 h2 h3 h4 h5 hS h6 h7
  · -- LDRH and STRH
    cases hdecode
    refine implements_transfer hm hp (.inl ⟨h0, hls⟩) (fun _ => hhalf) ?_ hregular hexec
    rw [singleOffset, if_neg (ne_of_eq_of_ne h0 (by decide)),
      if_neg (ne_of_eq_of_ne h0 (by decide)), hrm, decodeHalfOffset]
    cases getBit w 22 with
    | false => rfl
    | true => rfl
  · cases hdecode
    exact implements_shift hm hp h0 hls hregular
  · cases hdecode
    exact implements_immediate hm hp h1 hregular
  · -- an immediate offset
    cases hdecode
    refine implements_transfer hm hp (.inr (.inl h2)) (fun h => absurd h h0) ?_ hregular
      hexec
    rw [singleOffset, if_pos h2]
    rfl
  · -- a scaled one
    cases hdecode
    refine implements_transfer hm hp (.inr (.inr ⟨h3, h4⟩)) (fun h => absurd h h0) ?_ hregular
      hexec
    rw [singleOffset, if_neg h2, if_pos h3, hrm, p.fetched_cpsr]
    rfl
  · cases hdecode
    exact implements_block hm hp h5 hS hregular hexec
  · cases hdecode
    exact implements_branch hm hp h6
  · cases hdecode
    exact absurd rfl (hswi _)

end

/-! ## Steps -/

section
variable (endianess : Byte) (loc : Locals) {p : ArmCore} {w : Word}

/-- The word fetched is the one that the memory holds. -/
theorem Machine.Fetches.fetchedWord (h : p.machine.Fetches endianess w) :
    p.fetchedWord endianess loc = w := by
  obtain ⟨-, hholds, hword⟩ := h
  rw [p.machine_pc] at hholds hword
  rw [ArmCore.fetchedWord, registersRead_pc]
  exact (congrArg Prod.snd (hholds.memoryReadWord_eq endianess loc.instruction)).trans hword

/-- The simulator implements the two software interrupts that it knows. -/
theorem armStep_swi_machine (hfetch : p.machine.Fetches endianess w)
    (hcond : p.machine.holds (w >>> 28) = true) (h : getBits w 27 24 = 0b1111) {r : Byte × Machine}
    (hexec : (Insn.swi (getBits w 23 0)).Exec endianess p.machine r) :
    ∃ c q, (armStep endianess loc).run p = some (c, q) ∧
      (Insn.swi (getBits w 23 0)).Exec endianess p.machine (c, q.machine) ∧ q.mode = p.mode := by
  have hp : Aligned p.pc := p.machine_pc ▸ hfetch.aligned
  have hexecute := run_armExecuteInstruction endianess loc p
  rw [hfetch.fetchedWord endianess loc, p.machine_holds, if_pos hcond,
    armDecode_swi endianess loc h] at hexecute
  -- the second read of the word finds the same
  have hopcode : p.fetched.swiOpcode endianess loc = getBits w 23 0 := by
    have hread := hfetch.holds.memoryReadWord_eq endianess loc.swi
    rw [hfetch.word, p.machine_pc] at hread
    rw [getBits_opcode, ArmCore.swiOpcode, fetched_read_sub hp]
    exact congrArg (fun x : ExitCode × Word => x.2 &&& 0xFFFFFF) hread
  have hstep := run_armStep endianess loc hexecute
  rw [if_pos (by decide), run_armException_softwareInterrupt, hopcode] at hstep
  generalize getBits w 23 0 = number at hexec hstep
  cases hexec with
  | exit =>
    rw [if_pos rfl] at hstep
    refine ⟨_, _, hstep, ?_, p.fetched_mode⟩
    have hview : p.fetched.swiRead.machine = p.machine.next := p.machine_fetched
    rw [hview]
    exact .exit
  | putchar =>
    rw [if_neg (by decide), if_pos rfl, ArmCore.fetched_read_ne (by decide)] at hstep
    refine ⟨_, _, hstep, ?_, p.fetched_mode⟩
    have hview : ArmCore.machine { p.fetched.swiRead with
        output := (p.read 0).setWidth 8 :: p.fetched.output } =
          { p.machine.next with output := (p.machine.regs 0).setWidth 8 :: p.machine.output } := by
      rw [← p.machine_fetched]
      rfl
    rw [hview]
    exact .putchar

/-- Where the machine has a step, `arm_step` makes one. -/
theorem armStep_machine (hm : p.mode ∈ modes) {r : Byte × Machine}
    (hstep : p.machine.Step endianess r) :
    ∃ c q, (armStep endianess loc).run p = some (c, q) ∧
      p.machine.Step endianess (c, q.machine) ∧ q.mode = p.mode := by
  cases hstep with
  | skip hfetch hknown hcond =>
    have hexecute := run_armExecuteInstruction endianess loc p
    rw [hfetch.fetchedWord endianess loc, p.machine_holds, hcond, if_neg Bool.false_ne_true]
      at hexecute
    refine ⟨0, p.fetched, run_armStep endianess loc hexecute, ?_, p.fetched_mode⟩
    rw [p.machine_fetched]
    exact .skip hfetch hknown hcond
  | @exec w i r hfetch hcond hdecode hregular hexec =>
    have hp : Aligned p.pc := p.machine_pc ▸ hfetch.aligned
    by_cases hswi : ∃ number, i = .swi number
    · obtain ⟨number, rfl⟩ := hswi
      obtain ⟨h, rfl⟩ := decode_swi hdecode
      obtain ⟨c, q, hrun, hq, hmode⟩ := armStep_swi_machine endianess loc hfetch hcond h hexec
      exact ⟨c, q, hrun, .exec hfetch hcond hdecode hregular hq, hmode⟩
    · have himplements : Implements endianess loc w p i :=
        implements_of_decode hm hp hdecode hregular hexec fun number h => hswi ⟨number, h⟩
      obtain ⟨q, hrun, hq, hmode⟩ := himplements
      have hexecute := run_armExecuteInstruction endianess loc p
      rw [hfetch.fetchedWord endianess loc, p.machine_holds, if_pos hcond, hrun] at hexecute
      exact ⟨0, q, run_armStep endianess loc hexecute, .exec hfetch hcond hdecode hregular hq,
        hmode⟩

end

/-! ## Runs -/

/-- A step of the simulator, as long as the code is 0: so the loop of `cont` goes on. -/
def SimulatorRuns (endianess : Byte) (s s' : Byte × ArmCore) : Prop :=
  s.1 = 0 ∧ ∃ loc, (armStep endianess loc).run s.2 = some s'

/-- A step of the machine, as long as the code is 0. -/
def Machine.Runs (endianess : Byte) (t t' : Byte × Machine) : Prop :=
  t.1 = 0 ∧ t.2.Step endianess t'

/-- The machine has come to a word that it has no step for: one outside the fragment, under the code
1111, at an address that is not a multiple of 4 or not in the memory, or an access that is not. -/
def Machine.Undefined (endianess : Byte) (t : Byte × Machine) : Prop :=
  t.1 = 0 ∧ ∀ t', ¬ t.2.Step endianess t'

/-- The view of a run of the simulator, in a mode that stays. -/
def Viewed (mode : Byte) (s : Byte × ArmCore) (t : Byte × Machine) : Prop :=
  t = (s.1, s.2.machine) ∧ s.2.mode = mode

section
variable {endianess mode : Byte} {s s' : Byte × ArmCore} {t t' : Byte × Machine}

/-- A step of the simulator is one of the machine, where that has one. -/
theorem Viewed.step (hmode : mode ∈ modes) (h : Viewed mode s t) (ht : Machine.Runs endianess t t')
    (hs : SimulatorRuns endianess s s') :
    ∃ t'', Machine.Runs endianess t t'' ∧ Viewed mode s' t'' := by
  obtain ⟨rfl, rfl⟩ := h
  obtain ⟨h0, loc, hrun⟩ := hs
  obtain ⟨c, q, hrun', hstep, hq⟩ := armStep_machine endianess loc hmode ht.2
  cases hrun.symm.trans hrun'
  exact ⟨_, ⟨h0, hstep⟩, rfl, hq⟩

/-- The simulator has a step where the machine has one. -/
theorem Viewed.exists_step (hmode : mode ∈ modes) (h : Viewed mode s t)
    (ht : Machine.Runs endianess t t') : ∃ s', SimulatorRuns endianess s s' := by
  obtain ⟨rfl, rfl⟩ := h
  obtain ⟨c, q, hrun, -⟩ := armStep_machine endianess .zero hmode ht.2
  exact ⟨(c, q), ht.1, .zero, hrun⟩

/-- What a program cannot avoid on the machine, it cannot avoid on the simulator. -/
theorem inevitable_simulator (hmode : mode ∈ modes) {T : Byte × Machine → Prop}
    (h : Inevitable (Machine.Runs endianess) T t) (hs : Viewed mode s t) :
    Inevitable (SimulatorRuns endianess) (fun s => T (s.1, s.2.machine) ∧ s.2.mode = mode) s := by
  refine (Inevitable.of_sim (fun s t hv ⟨t', ht⟩ => ⟨hv.exists_step hmode ht, fun s' hs' =>
    hv.step hmode ht hs'⟩) h hs).mono ?_
  rintro s' ⟨t', ⟨rfl, hs'⟩, hT⟩
  exact ⟨hT, hs'⟩

end

end ArmSimulator
