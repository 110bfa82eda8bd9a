import ArmSimulator.Lib.Bits
import ArmSimulator.BlockTransfer
import ArmSimulator.Instruction
import Mathlib.Data.Nat.Init
import Mathlib.Logic.Relation

/-!
# What an instruction can do

Every handler acts on the state through a few elementary effects: it writes a register of the
current mode or of the user bank, replaces the flags of CPSR, assigns a field of CPSR under the
mask of `MSR`, writes the SPSR of the current mode, or touches memory, trace and output only.
`effects_armExecuteInstruction` says so once, for every instruction word and every state, together
with the fact that the instruction returns, its assertions holding. An invariant of all
instructions is then a case analysis over `Effect`.

The SPSR restores of `data_processing` and `LDM` are no effect on CPSR: the query
`arm_current_mode_has_spsr` just before has saved CPSR into the SPSR that is read.
-/

namespace ArmSimulator

open Prog

/-- An elementary effect of an instruction. -/
inductive Effect (p : ArmCore) : ArmCore → Prop
  /-- Memory contents, trace, output and cycle count. -/
  | outside {p' : ArmCore} (hreg : p'.reg = p.reg) (hsize : p'.mem.size = p.mem.size) : Effect p p'
  /-- A register of the current mode. -/
  | write (reg : Byte) (value : Word) : Effect p (p.write reg value)
  /-- A register of the user bank. -/
  | writeUsr (reg : Byte) (value : Word) :
      Effect p { p with reg := registersWrite p.reg reg USR value }
  /-- The flags of CPSR. -/
  | flags (value : Word) (h : value &&& 0x0FFFFFFF = p.reg.cpsr &&& 0x0FFFFFFF) :
      Effect p (p.writeCpsr value)
  /-- The flags and the mode bits 3:0 of CPSR, in a privileged mode. -/
  | msr (value : Word) (hp : registersInAPrivilegedMode p.reg ≠ 0)
      (h : value &&& 0x0FFFFFF0 = p.reg.cpsr &&& 0x0FFFFFF0) : Effect p (p.writeCpsr value)
  /-- The SPSR of the current mode. -/
  | writeSpsr (value : Word) :
      Effect p { p with reg := registersWriteSpsr p.reg p.mode value }

/-- A sequence of effects. -/
abbrev Effects : ArmCore → ArmCore → Prop := Relation.ReflTransGen Effect

/-- The bits of CPSR that no instruction changes, 27:4. -/
abbrev fixedMask : Word := 0x0FFFFFF0

/-- An effect leaves the bits 27:4 of CPSR. -/
theorem Effect.cpsr_and {p p' : ArmCore} (h : Effect p p') :
    p'.reg.cpsr &&& fixedMask = p.reg.cpsr &&& fixedMask := by
  cases h with
  | outside hreg hsize => rw [hreg]
  | write reg value => simp [ArmCore.write]
  | writeUsr reg value => simp
  | flags value hv => exact Bits.agree_mono hv (by decide)
  | msr value hp hv => exact hv
  | writeSpsr value => simp

/-- A sequence of effects keeps the bits of CPSR that each of them keeps. -/
theorem Effects.cpsr_and {p p' : ArmCore} (h : Effects p p') :
    p'.reg.cpsr &&& fixedMask = p.reg.cpsr &&& fixedMask := by
  induction h with
  | refl => rfl
  | tail _ he ih => exact he.cpsr_and.trans ih

section
variable {p : ArmCore}

/-! ## The accessors -/

/-- A program whose every run is one effect keeps the states reached by effects. -/
theorem keeps_of_effect {α : Type} {m : ArmM α}
    (h : ∀ s, ∃ a s', m.run s = some (a, s') ∧ Effect s s') : Keeps (Effects p) m := by
  intro s hs
  obtain ⟨a, s', hr, he⟩ := h s
  exact ⟨a, s', hr, hs.tail he⟩

/-- A program that only reads the state keeps everything. -/
theorem keeps_of_read {α : Type} {I : ArmCore → Prop} {m : ArmM α} {f : ArmCore → α}
    (h : ∀ s, m.run s = some (f s, s)) : Keeps I m :=
  fun s hs => ⟨f s, s, h s, hs⟩

/-- Reading a register has no effect. -/
theorem effects_armReadRegister (reg : Byte) : Keeps (Effects p) (armReadRegister reg) :=
  keeps_of_read fun s => run_armReadRegister s reg

/-- Reading a register of the user bank has no effect. -/
theorem effects_armReadUsrRegister (reg : Byte) : Keeps (Effects p) (armReadUsrRegister reg) :=
  keeps_of_read fun s => run_armReadUsrRegister s reg

/-- Reading CPSR has no effect. -/
theorem effects_armReadCpsr : Keeps (Effects p) armReadCpsr :=
  keeps_of_read run_armReadCpsr

/-- A write to a register is an effect. -/
theorem effects_armWriteRegister (reg : Byte) (value : Word) :
    Keeps (Effects p) (armWriteRegister reg value) :=
  keeps_of_effect fun s => ⟨_, _, run_armWriteRegister s reg value, .write reg value⟩

/-- A write to the user bank is an effect. -/
theorem effects_armWriteUsrRegister (reg : Byte) (value : Word) :
    Keeps (Effects p) (armWriteUsrRegister reg value) :=
  keeps_of_effect fun s => ⟨_, _, run_armWriteUsrRegister s reg value, .writeUsr reg value⟩

/-- A write to CPSR that replaces the flags is an effect. -/
theorem effects_armWriteCpsr (value : Word) :
    Triple (fun s => Effects p s ∧ value &&& 0x0FFFFFFF = s.reg.cpsr &&& 0x0FFFFFFF)
      (armWriteCpsr value) fun _ s => Effects p s := by
  rintro s ⟨hs, he⟩
  exact ⟨_, _, run_armWriteCpsr s value, hs.tail (.flags value he)⟩

/-- A write to the SPSR is an effect. -/
theorem effects_armWriteSpsr (value : Word) : Keeps (Effects p) (armWriteSpsr value) :=
  keeps_of_effect fun s => ⟨_, _, run_armWriteSpsr s value, .writeSpsr value⟩

/-- The query for an SPSR is an effect, since it saves CPSR into the SPSR. -/
theorem effects_armCurrentModeHasSpsr :
    Triple (Effects p) armCurrentModeHasSpsr fun b s =>
      Effects p s ∧ (b = true → registersReadSpsr s.reg s.mode = s.reg.cpsr) := by
  intro s hs
  refine ⟨_, _, run_armCurrentModeHasSpsr s, ?_, ?_⟩
  · refine hs.tail ?_
    rw [registersCurrentModeHasSpsr, registersModeHasSpsr_eq]
    exact .writeSpsr s.reg.cpsr
  · intro hb
    exact (registersReadSpsr_query s.reg hb).trans (registersCurrentModeHasSpsr_cpsr s.reg).symm

/-- The SPSR is read where it is known to hold CPSR. -/
theorem effects_armReadSpsr :
    Triple (fun s => Effects p s ∧ registersReadSpsr s.reg s.mode = s.reg.cpsr) armReadSpsr
      fun spsr s => Effects p s ∧ spsr &&& 0x0FFFFFFF = s.reg.cpsr &&& 0x0FFFFFFF := by
  rintro s ⟨hs, he⟩
  exact ⟨_, _, run_armReadSpsr s, hs, by rw [← he]⟩

section
variable (endianess : Byte) (address : Word)

/-- A read of a byte has the effect of an access. -/
theorem effects_armReadByte (value : Byte) : Keeps (Effects p) (armReadByte address value) :=
  keeps_of_effect fun s => ⟨_, _, run_armReadByte s address value, .outside rfl rfl⟩

/-- A read of a half has the effect of an access. -/
theorem effects_armReadHalf (value : Half) :
    Keeps (Effects p) (armReadHalf endianess address value) :=
  keeps_of_effect fun s => ⟨_, _, run_armReadHalf s endianess address value, .outside rfl rfl⟩

/-- A read of a word has the effect of an access. -/
theorem effects_armReadWord (value : Word) :
    Keeps (Effects p) (armReadWord endianess address value) :=
  keeps_of_effect fun s => ⟨_, _, run_armReadWord s endianess address value, .outside rfl rfl⟩

/-- A write of a byte has the effect of an access that changes the memory. -/
theorem effects_armWriteByte (value : Byte) : Keeps (Effects p) (armWriteByte address value) :=
  keeps_of_effect fun s =>
    ⟨_, _, run_armWriteByte s address value, .outside rfl (memoryWriteByte_size _ _ _)⟩

/-- A write of a half has the effect of an access that changes the memory. -/
theorem effects_armWriteHalf (value : Half) :
    Keeps (Effects p) (armWriteHalf endianess address value) :=
  keeps_of_effect fun s =>
    ⟨_, _, run_armWriteHalf s endianess address value, .outside rfl (memoryWriteHalf_size _ _ _ _)⟩

/-- A write of a word has the effect of an access that changes the memory. -/
theorem effects_armWriteWord (value : Word) :
    Keeps (Effects p) (armWriteWord endianess address value) :=
  keeps_of_effect fun s =>
    ⟨_, _, run_armWriteWord s endianess address value, .outside rfl (memoryWriteWord_size _ _ _ _)⟩

end

/-! ## Data processing -/

/-- `data_processing` writes to `Rd`, and then the flags, or CPSR from the SPSR. -/
theorem effects_dataProcessing (sBit : Bool) (opcode rd : Byte) (rnValue operand : Word)
    (carryOut : Bool) :
    Keeps (Effects p) (dataProcessing sBit opcode rd rnValue operand carryOut) := by
  unfold dataProcessing
  -- CPSR is read once, and is still the same when the flags are written
  refine Triple.bind (Q := fun c s => Effects p s ∧ s.reg.cpsr = c)
    (fun s hs => ⟨_, _, run_armReadCpsr s, hs, rfl⟩) fun c => ?_
  refine Triple.bind (Q := fun _ s => Effects p s ∧ s.reg.cpsr = c) ?_ fun _ => ?_
  · refine Keeps.when fun _ => ?_
    rintro s ⟨hs, hc⟩
    refine ⟨_, _, run_armWriteRegister s _ _, hs.tail (.write _ _), ?_⟩
    simpa [ArmCore.write] using hc
  · refine Triple.ite (fun _ => ?_) fun _ => Triple.ite (fun _ => ?_) fun _ => ?_
    · refine (Triple.bind effects_armCurrentModeHasSpsr fun b => ?_).pre fun s hs => hs.1
      refine Triple.ite (fun hb => ?_) fun _ => Triple.pure fun s hs => hs.1
      refine Triple.bind (effects_armReadSpsr.pre fun s hs => ⟨hs.1, hs.2 hb⟩) fun spsr => ?_
      exact Triple.bind (effects_armWriteCpsr spsr) fun _ => Keeps.pure _
    · refine Triple.bind ((effects_armWriteCpsr _).pre fun s hs => ⟨hs.1, ?_⟩) fun _ =>
        Keeps.pure _
      rw [hs.2, newCpsr_and]
    · exact Triple.pure fun s hs => hs.1

/-- Data processing on a shifted register has the effects of `data_processing`. -/
theorem effects_armDataProcessingShift (ins : Word) :
    Keeps (Effects p) (armDataProcessingShift ins) := by
  unfold armDataProcessingShift
  refine effects_armReadCpsr.bind fun cpsr => (effects_armReadRegister _).bind fun rnValue => ?_
  refine (effects_armReadRegister _).bind fun rmValue => ?_
  refine (effects_armReadRegister _).bind fun rsValue => ?_
  refine (effects_armReadRegister _).bind fun pc => ?_
  split
  · exact Keeps.pure _
  · exact effects_dataProcessing _ _ _ _ _ _

/-- Data processing on an immediate has the effects of `data_processing`. -/
theorem effects_armDataProcessingImmediate (ins : Word) :
    Keeps (Effects p) (armDataProcessingImmediate ins) := by
  unfold armDataProcessingImmediate
  refine effects_armReadCpsr.bind fun cpsr => (effects_armReadRegister _).bind fun rnValue => ?_
  exact effects_dataProcessing _ _ _ _ _ _

/-- `MSR` writes the bits of its mask, which are the flags only in a mode that is not privileged. -/
theorem effects_armMsrImmediate (ins : Word) : Keeps (Effects p) (armMsrImmediate ins) := by
  unfold armMsrImmediate
  refine Keeps.ite (fun _ => Keeps.pure _) fun _ => Keeps.ite (fun _ => ?_) fun _ => ?_
  · refine Triple.bind (Q := fun v s => Effects p s ∧ v = registersInAPrivilegedMode s.reg)
      (fun s hs => ⟨_, _, run_armInAPrivilegedMode s, hs, rfl⟩) fun v => ?_
    refine Triple.ite (fun hv => ?_) fun _ => ?_
    · refine Triple.ite (fun _ => Triple.pure fun s hs => hs.1) fun _ => ?_
      -- a privileged mode: the write assigns the field that `msrMask_and` bounds
      rintro s ⟨hs, rfl⟩
      refine ⟨_, _, rfl, hs.tail (.msr _ hv ?_)⟩
      exact Bits.assign_and _ (msrMask_and _)
    · refine Triple.bind (Q := fun c s => Effects p s ∧ s.reg.cpsr = c)
        (fun s hs => ⟨_, _, run_armReadCpsr s, hs.1, rfl⟩) fun c => ?_
      refine Triple.bind ((effects_armWriteCpsr _).pre fun s hs => ⟨hs.1, ?_⟩) fun _ =>
        Keeps.pure _
      rw [hs.2]
      exact Bits.assign_and _ (msrUserMask_and _)
  · refine Triple.bind effects_armCurrentModeHasSpsr fun b => ?_
    refine Triple.ite (fun hb => ?_) fun _ => Triple.pure fun s hs => hs.1
    refine Triple.bind (effects_armReadSpsr.pre fun s hs => ⟨hs.1, hs.2 hb⟩) fun spsr => ?_
    exact Triple.bind ((effects_armWriteSpsr _).pre fun s hs => hs.1) fun _ => Keeps.pure _

/-- Data processing on an immediate and `MSR` have effects only. -/
theorem effects_armDataProcessingImmediateMsr (ins : Word) :
    Keeps (Effects p) (armDataProcessingImmediateMsr ins) :=
  Keeps.ite (fun _ => effects_armMsrImmediate ins) fun _ => effects_armDataProcessingImmediate ins

/-! ## Loads and stores -/

/-- The shift of an offset has no effect. -/
theorem effects_shiftOperation (rmVal : Word) (shift : Byte) (shiftImm : Word) :
    Keeps (Effects p) (shiftOperation rmVal shift shiftImm) := by
  unfold shiftOperation
  split
  · exact Keeps.pure _
  · exact Keeps.pure _
  · exact Keeps.pure _
  · exact Keeps.ite (fun _ => effects_armReadCpsr.bind fun _ => Keeps.pure _) fun _ => Keeps.pure _
  · exact Keeps.pure _

/-- The update of a base is an effect. -/
theorem effects_processLoadStoreInstruction (P W bitU : Bool) (address rn : Word)
    (rnRegister : Byte) (value : Word) :
    Keeps (Effects p) (processLoadStoreInstruction P W bitU address rn rnRegister value) := by
  unfold processLoadStoreInstruction
  refine Keeps.ite (fun _ => Keeps.pure _) fun _ => ?_
  refine Keeps.ite (fun _ => (effects_armWriteRegister _ _).bind fun _ => Keeps.pure _) fun _ => ?_
  exact Keeps.ite (fun _ => (effects_armWriteRegister _ _).bind fun _ => Keeps.pure _) fun _ =>
    Keeps.pure _

section
variable (endianess : Byte) (loc : Locals)

/-- A transfer of a byte or a word has the effect of its access, and of the write to the register of
a load. -/
theorem effects_loadStore (bitL bitB : Bool) (rd : Byte) (address : Word) :
    Keeps (Effects p) (loadStore endianess loc bitL bitB rd address) := by
  unfold loadStore
  refine Keeps.ite (fun _ => ?_) fun _ => (effects_armReadRegister _).bind fun _ => ?_
  · refine Keeps.ite (fun _ => (effects_armReadByte _ _).bind fun _ => ?_) fun _ =>
      (effects_armReadWord _ _ _).bind fun _ => ?_
    · exact (effects_armWriteRegister _ _).bind fun _ => Keeps.pure _
    · exact (effects_armWriteRegister _ _).bind fun _ => Keeps.pure _
  · exact Keeps.ite (fun _ => (effects_armWriteByte _ _).bind fun _ => Keeps.pure _) fun _ =>
      (effects_armWriteWord _ _ _).bind fun _ => Keeps.pure _

/-- The address of a scaled transfer has the effect of updating the base. -/
theorem effects_scaledAddress (ins : Word) (P W bitU : Bool) (rn rmVal : Word)
    (rnRegister : Byte) :
    Keeps (Effects p) (scaledAddress loc ins P W bitU rn rmVal rnRegister) := by
  unfold scaledAddress
  refine Keeps.ite (fun _ => (effects_shiftOperation _ _ _).bind fun _ => Keeps.pure _) fun _ => ?_
  refine Keeps.ite (fun _ => (effects_shiftOperation _ _ _).bind fun _ => ?_) fun _ => ?_
  · exact (effects_armWriteRegister _ _).bind fun _ => Keeps.pure _
  · refine Keeps.ite (fun _ => (effects_shiftOperation _ _ _).bind fun _ => ?_) fun _ =>
      Keeps.pure _
    exact (effects_armWriteRegister _ _).bind fun _ => Keeps.pure _

/-- The address of a transfer of halves has the effect of updating the base. -/
theorem effects_miscellaneousAddress (ins : Word) (P bitU : Bool) (rn rmVal : Word)
    (rnRegister : Byte) :
    Keeps (Effects p) (miscellaneousAddress loc ins P bitU rn rmVal rnRegister) := by
  have hwrite : ∀ value address : Word, Keeps (Effects p) (do
      armWriteRegister rnRegister value
      return address) :=
    fun value _ => (effects_armWriteRegister rnRegister value).bind fun _ => Keeps.pure _
  unfold miscellaneousAddress
  refine Keeps.ite (fun _ => ?_) fun _ => ?_
  · refine Keeps.ite (fun _ => Keeps.pure _) fun _ => Keeps.ite (fun _ => Keeps.pure _) fun _ => ?_
    exact Keeps.ite (fun _ => hwrite _ _) fun _ => Keeps.ite (fun _ => hwrite _ _) fun _ =>
      Keeps.pure _
  · exact Keeps.ite (fun _ => hwrite _ _) fun _ => Keeps.ite (fun _ => hwrite _ _) fun _ =>
      Keeps.pure _

/-- A transfer of a half has the effect of its access, and of the write to the register of a load.
-/
theorem effects_miscellaneousTransfer (bitL bitS bitH : Bool) (rd : Byte) (address : Word) :
    Keeps (Effects p) (miscellaneousTransfer endianess loc bitL bitS bitH rd address) := by
  unfold miscellaneousTransfer
  refine Keeps.ite (fun _ => (effects_armReadRegister _).bind fun _ => ?_) fun _ => ?_
  · exact (effects_armWriteHalf _ _ _).bind fun _ => Keeps.pure _
  · refine Keeps.ite (fun _ => (effects_armReadHalf _ _ _).bind fun _ => ?_) fun _ => Keeps.pure _
    exact (effects_armWriteRegister _ _).bind fun _ => Keeps.pure _

/-- A single transfer has the effects of its address and of its access. -/
theorem effects_armLoadStore (ins : Word) : Keeps (Effects p) (armLoadStore endianess loc ins) := by
  unfold armLoadStore
  refine (effects_armReadRegister _).bind fun rn => (effects_armReadRegister _).bind fun rmVal => ?_
  refine Keeps.ite (fun _ => ?_) fun _ => Keeps.ite (fun _ => ?_) fun _ => ?_
  · refine (effects_processLoadStoreInstruction _ _ _ _ _ _ _).bind fun r => ?_
    exact Keeps.ite (fun _ => Keeps.pure _) fun _ => effects_loadStore _ _ _ _ _ _
  · refine (effects_processLoadStoreInstruction _ _ _ _ _ _ _).bind fun r => ?_
    exact Keeps.ite (fun _ => Keeps.pure _) fun _ => effects_loadStore _ _ _ _ _ _
  · refine Keeps.ite (fun _ => ?_) fun _ => Keeps.ite (fun _ => ?_) fun _ => ?_
    · exact (effects_scaledAddress _ _ _ _ _ _ _ _).bind fun _ => effects_loadStore _ _ _ _ _ _
    · exact (effects_miscellaneousAddress _ _ _ _ _ _ _).bind fun _ =>
        effects_miscellaneousTransfer _ _ _ _ _ _ _
    · exact effects_loadStore _ _ _ _ _ _

/-- The write-back of a block transfer is an effect. -/
theorem effects_writeBack (W : Bool) (rnRegistre : Byte) (address : Word) :
    Keeps (Effects p) (writeBack W rnRegistre address) :=
  (Keeps.when fun _ => effects_armWriteRegister _ _).bind fun _ => Keeps.pure _

/-- The end of a transfer whose loop ended at the expected address: the assertion holds. -/
theorem effects_finish {W : Bool} {rnRegistre : Byte} {code rn address : Word}
    {registerList : Half}
    (ha : address = (addressingMode code rn registerList).1 +
      BitVec.ofNat 32 (4 * listed registerList 16)) :
    Keeps (Effects p) (do
      Prog.assert (decide ((addressingMode code rn registerList).2 = address - 4))
      writeBack W rnRegistre address) :=
  Triple.bind (Triple.assert (end_eq rfl ha)) fun _ => effects_writeBack _ _ _

/-- A block transfer has the effects of its accesses, of its writes to the registers and of its
write-back. -/
theorem effects_armLoadStoreMultiple (ins : Word) :
    Keeps (Effects p) (armLoadStoreMultiple endianess loc ins) := by
  unfold armLoadStoreMultiple
  refine (effects_armReadRegister _).bind fun rn => effects_armReadCpsr.bind fun cpsr => ?_
  simp only
  -- the three loops that the branches start with
  have hload := fun (write : Byte → Word → ArmM Unit) (hw : ∀ r v, Keeps (Effects p) (write r v))
      registerList =>
    loadLoop_triple (I := Effects p) endianess loc
      (fun a v => effects_armReadWord endianess a v) registerList fun _ v _ _ => hw _ v
  have hstore := fun (read : Byte → ArmM Word) (hr : ∀ r, Keeps (Effects p) (read r)) =>
    storeLoop_triple (I := Effects p) endianess hr
      (fun a v => effects_armWriteWord endianess a v)
  have hpc : ∀ {a b : Word} {n m : Nat}, n + 1 = m → a = b + BitVec.ofNat 32 (4 * n) →
      a + 4 = b + BitVec.ofNat 32 (4 * m) := by
    rintro a b n m rfl rfl
    bv_omega
  refine Keeps.ite (fun _ => Keeps.pure _) fun _ => Keeps.ite (fun _ => Keeps.pure _) fun _ => ?_
  refine Keeps.ite (fun _ => Keeps.ite (fun h15 => ?_) fun h15 => ?_) fun _ =>
    Keeps.ite (fun _ => ?_) fun _ => Keeps.ite (fun _ => ?_) fun _ => ?_
  · -- LDM with the PC and S: the SPSR is restored between the loop and the PC
    refine Triple.bind (hload _ effects_armWriteRegister _ _) fun a => Triple.of_fact fun ha => ?_
    refine Triple.bind effects_armCurrentModeHasSpsr fun b => ?_
    refine Triple.ite (fun hb => ?_) fun _ => Triple.pure fun s hs => hs.1
    refine Triple.bind (effects_armReadSpsr.pre fun s hs => ⟨hs.1, hs.2 hb⟩) fun spsr => ?_
    refine Triple.bind (effects_armWriteCpsr spsr) fun _ => ?_
    refine (effects_armReadWord _ _ _).bind fun r => (effects_armWriteRegister _ _).bind fun _ => ?_
    exact effects_finish (hpc (listed_fifteen_of h15) ha)
  · -- LDM of the user bank
    refine Triple.bind (hload _ effects_armWriteUsrRegister _ _) fun a =>
      Triple.of_fact fun ha => ?_
    exact effects_finish (by rw [ha, listed_fifteen_of_not h15])
  · -- STM of the user bank
    refine Triple.bind (hstore _ effects_armReadUsrRegister _ _) fun a => ?_
    exact Triple.of_fact fun ha => effects_finish ha
  · -- LDM
    refine Triple.bind (hload _ effects_armWriteRegister _ _) fun a => Triple.of_fact fun ha => ?_
    refine Keeps.ite (fun h15 => ?_) fun h15 => ?_
    · refine (effects_armReadWord _ _ _).bind fun r =>
        (effects_armWriteRegister _ _).bind fun _ => ?_
      exact effects_finish (hpc (listed_fifteen_of h15) ha)
    · exact effects_finish (by rw [ha, listed_fifteen_of_not h15])
  · -- STM
    refine Triple.bind (hstore _ effects_armReadRegister _ _) fun a => Triple.of_fact fun ha => ?_
    exact effects_finish ha

/-! ## Branches, `MRS` and decoding -/

/-- A branch has the effect of writing the PC, and r14 for `BL`. -/
theorem effects_armBranch (ins : Word) : Keeps (Effects p) (armBranch ins) := by
  unfold armBranch
  refine Keeps.ite (fun _ => Keeps.pure _) fun _ => (effects_armReadRegister _).bind fun _ => ?_
  refine (Keeps.when fun _ => effects_armWriteRegister _ _).bind fun _ => ?_
  exact (effects_armWriteRegister _ _).bind fun _ => Keeps.pure _

/-- The instructions of this class have no effect of their own. -/
theorem effects_armCoprocessorOthersSwi (ins : Word) :
    Keeps (Effects p) (armCoprocessorOthersSwi ins) :=
  Keeps.ite (fun _ => Keeps.pure _) fun _ => Keeps.pure _

/-- `MRS` has the effect of writing its register. -/
theorem effects_armMiscellaneous (ins : Word) : Keeps (Effects p) (armMiscellaneous ins) := by
  unfold armMiscellaneous
  refine Keeps.ite (fun _ => Keeps.pure _) fun _ => Keeps.ite (fun _ => ?_) fun _ => ?_
  · refine Triple.bind effects_armCurrentModeHasSpsr fun b => ?_
    refine Triple.ite (fun hb => ?_) fun _ => Triple.pure fun s hs => hs.1
    refine Triple.bind (effects_armReadSpsr.pre fun s hs => ⟨hs.1, hs.2 hb⟩) fun spsr => ?_
    exact Triple.bind ((effects_armWriteRegister _ _).pre fun s hs => hs.1) fun _ => Keeps.pure _
  · exact effects_armReadCpsr.bind fun _ => (effects_armWriteRegister _ _).bind fun _ =>
      Keeps.pure _

/-- Every instruction has effects only. -/
theorem effects_armDecode (ins : Word) : Keeps (Effects p) (armDecode endianess loc ins) := by
  unfold armDecode
  refine Keeps.ite (fun _ => ?_) fun _ => Keeps.ite (fun _ => ?_) fun _ => ?_
  · refine Keeps.ite (fun _ => effects_armLoadStore _ _ _) fun _ => Keeps.ite (fun _ => ?_) fun _ =>
      effects_armDataProcessingShift _
    exact Keeps.ite (fun _ => effects_armMiscellaneous _) fun _ => Keeps.pure _
  · exact effects_armDataProcessingImmediateMsr _
  · refine Keeps.ite (fun _ => effects_armLoadStore _ _ _) fun _ => Keeps.ite (fun _ => ?_) fun _ =>
      Keeps.ite (fun _ => effects_armLoadStoreMultiple _ _ _) fun _ => ?_
    · exact Keeps.ite (fun _ => effects_armLoadStore _ _ _) fun _ => Keeps.pure _
    · exact Keeps.ite (fun _ => effects_armBranch _) fun _ =>
        Keeps.ite (fun _ => Keeps.pure _) fun _ => effects_armCoprocessorOthersSwi _

/-- The fetch advances the PC. -/
theorem effects_armFetch (value : Word) : Keeps (Effects p) (armFetch endianess value) := by
  intro s hs
  refine ⟨_, _, run_armFetch s endianess value, ?_⟩
  exact (hs.tail (.write 15 (registersRead s.reg 15 s.mode + 4))).tail (.outside rfl rfl)

/-- **Every instruction is a sequence of effects**, and returns: no assertion of a block transfer
fails. -/
theorem effects_armExecuteInstruction :
    Keeps (Effects p) (armExecuteInstruction endianess loc) := by
  unfold armExecuteInstruction
  refine (effects_armFetch _ _).bind fun r => ?_
  refine Keeps.bind (effects_armReadCpsr.bind fun _ => Keeps.pure _) fun holds => ?_
  exact Keeps.ite (fun _ => Keeps.pure _) fun _ => effects_armDecode _ _ _

end

end

end ArmSimulator
