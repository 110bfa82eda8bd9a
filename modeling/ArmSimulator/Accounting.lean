import ArmSimulator.Reserved

/-!
# What a run leaves behind

The trace of the memory accesses accounts for the memory: a byte that no traced access covers is the
same after a run of steps and exceptions (`accesses_account`). The accesses are traced in their
order, each step begins with the fetch of its instruction, and is counted once.

The instructions change the state in two ways only, in the registers and by an access that is
traced: what each of these keeps, they keep (`Respected`). An exception may print as well.
-/

namespace ArmSimulator

open Prog

/-! ## Accesses -/

/-- The byte at the index is one of those accessed. -/
def Access.Covers (a : Access) (i : Nat) : Prop :=
  ∃ k < a.size, i = (a.address + BitVec.ofNat 32 k).toNat

/-- The second memory is the first one but for the bytes of the access. -/
structure Access.Confines (a : Access) (mem mem' : Memory) : Prop where
  size : mem'.size = mem.size
  data : ∀ i, ¬ a.Covers i → mem'.data i = mem.data i

section
variable {mem mem' : Memory} {a : Access}

/-- A memory that is not changed differs nowhere. -/
theorem Access.Confines.refl : a.Confines mem mem := ⟨rfl, fun _ _ => rfl⟩

/-- A byte of the access is stored. -/
theorem Access.Confines.put (h : a.Confines mem mem') {k : Nat} (hk : k < a.size) (value : Byte) :
    a.Confines mem (mem'.put a.address k value) := by
  refine ⟨h.size, fun i hi => ?_⟩
  have hne : i ≠ (a.address + BitVec.ofNat 32 k).toNat := fun he => hi ⟨k, hk, he⟩
  exact (Function.update_of_ne hne _ _).trans (h.data i hi)

end

section
variable (mem : Memory) (address : Word)

/-- The write of a byte changes one byte at most, at the address. -/
theorem confines_memoryWriteByte (value : Byte) :
    (Access.mk 1 address).Confines mem (memoryWriteByte mem address value).2 := by
  unfold memoryWriteByte
  split
  · exact Access.Confines.refl.put Nat.one_pos value
  · exact .refl

/-- The write of a half changes two bytes at most, from the address on. -/
theorem confines_memoryWriteHalf (value : Half) (be : Byte) :
    (Access.mk 2 address).Confines mem (memoryWriteHalf mem address value be).2 := by
  unfold memoryWriteHalf
  split
  · split
    · exact (Access.Confines.refl.put Nat.zero_lt_two _).put Nat.one_lt_two _
    · exact (Access.Confines.refl.put Nat.zero_lt_two _).put Nat.one_lt_two _
  · exact .refl

/-- The write of a word changes four bytes at most, from the address on. -/
theorem confines_memoryWriteWord (value : Word) (be : Byte) :
    (Access.mk 4 address).Confines mem (memoryWriteWord mem address value be).2 := by
  have hloop : ∀ f : Nat → Byte, ∀ n ≤ 4, (Access.mk 4 address).Confines mem
      ((List.range n).foldl (fun mem i => mem.put address i (f i)) mem) := by
    intro f n hn
    induction n with
    | zero => exact .refl
    | succ n ih =>
      rw [List.range_succ, List.foldl_append]
      exact (ih (Nat.le_of_succ_le hn)).put hn (f n)
  unfold memoryWriteWord
  split
  · split
    · exact hloop (fun i => (value >>> ((3 - i) * 8)).setWidth 8) 4 (Nat.le_refl 4)
    · exact hloop (fun i => (value >>> (i * 8)).setWidth 8) 4 (Nat.le_refl 4)
  · exact .refl

end

/-! ## Invariants of the instructions -/

/-- The invariant is kept by the two ways in which an instruction changes the state. -/
structure Respected (I : ArmCore → Prop) : Prop where
  registers : ∀ {p : ArmCore} (reg : Registers), I p → I { p with reg }
  access : ∀ {p : ArmCore} {a : Access} {mem : Memory}, a.Confines p.mem mem → I p →
    I { p with mem, accesses := a :: p.accesses }

/-- A program that only reads maintains every invariant. -/
theorem maintains_of_read {α : Type} {I : ArmCore → Prop} {m : ArmM α} {f : ArmCore → α}
    (h : ∀ s, m.run s = some (f s, s)) : Maintains I m := .of_run h fun _ => id

section
variable {I : ArmCore → Prop}

/-- Reading a register maintains every invariant. -/
theorem maintains_armReadRegister (reg : Byte) : Maintains I (armReadRegister reg) :=
  maintains_of_read fun s => run_armReadRegister s reg

/-- Reading a register of the user bank maintains every invariant. -/
theorem maintains_armReadUsrRegister (reg : Byte) : Maintains I (armReadUsrRegister reg) :=
  maintains_of_read fun s => run_armReadUsrRegister s reg

/-- Reading CPSR maintains every invariant. -/
theorem maintains_armReadCpsr : Maintains I armReadCpsr := maintains_of_read run_armReadCpsr

/-- Reading the SPSR maintains every invariant. -/
theorem maintains_armReadSpsr : Maintains I armReadSpsr := maintains_of_read run_armReadSpsr

/-- The shift of an offset maintains every invariant, since it reads CPSR only. -/
theorem maintains_shiftOperation (rmVal : Word) (shift : Byte) (shiftImm : Word) :
    Maintains I (shiftOperation rmVal shift shiftImm) := by
  unfold shiftOperation
  split
  · exact .pure _
  · exact .pure _
  · exact .pure _
  · exact .ite (maintains_armReadCpsr.bind fun _ => .pure _) (.pure _)
  · exact .pure _

end

namespace Respected

variable {I : ArmCore → Prop} (h : Respected I)
include h

/-! ### The accessors -/

/-- The query for an SPSR changes the registers only. -/
theorem armCurrentModeHasSpsr : Maintains I armCurrentModeHasSpsr :=
  .of_run run_armCurrentModeHasSpsr fun _ => h.registers _

/-- A write to a register changes the registers only. -/
theorem armWriteRegister (reg : Byte) (value : Word) : Maintains I (armWriteRegister reg value) :=
  .of_run (fun s => run_armWriteRegister s reg value) fun _ => h.registers _

/-- A write to the user bank changes the registers only. -/
theorem armWriteUsrRegister (reg : Byte) (value : Word) :
    Maintains I (armWriteUsrRegister reg value) :=
  .of_run (fun s => run_armWriteUsrRegister s reg value) fun _ => h.registers _

/-- A write to CPSR changes the registers only. -/
theorem armWriteCpsr (value : Word) : Maintains I (armWriteCpsr value) :=
  .of_run (fun s => run_armWriteCpsr s value) fun _ => h.registers _

/-- A write to the SPSR changes the registers only. -/
theorem armWriteSpsr (value : Word) : Maintains I (armWriteSpsr value) :=
  .of_run (fun s => run_armWriteSpsr s value) fun _ => h.registers _

section
variable (endianess : Byte) (address : Word)

/-- A read of a byte is one traced access. -/
theorem armReadByte (value : Byte) : Maintains I (armReadByte address value) :=
  .of_run (fun s => run_armReadByte s address value) fun _ => h.access .refl

/-- A read of a half is one traced access. -/
theorem armReadHalf (value : Half) : Maintains I (armReadHalf endianess address value) :=
  .of_run (fun s => run_armReadHalf s endianess address value) fun _ => h.access .refl

/-- A read of a word is one traced access. -/
theorem armReadWord (value : Word) : Maintains I (armReadWord endianess address value) :=
  .of_run (fun s => run_armReadWord s endianess address value) fun _ => h.access .refl

/-- A write of a byte is one traced access. -/
theorem armWriteByte (value : Byte) : Maintains I (armWriteByte address value) :=
  .of_run (fun s => run_armWriteByte s address value) fun s =>
    h.access (confines_memoryWriteByte s.mem address value)

/-- A write of a half is one traced access. -/
theorem armWriteHalf (value : Half) : Maintains I (armWriteHalf endianess address value) :=
  .of_run (fun s => run_armWriteHalf s endianess address value) fun s =>
    h.access (confines_memoryWriteHalf s.mem address value endianess)

/-- A write of a word is one traced access. -/
theorem armWriteWord (value : Word) : Maintains I (armWriteWord endianess address value) :=
  .of_run (fun s => run_armWriteWord s endianess address value) fun s =>
    h.access (confines_memoryWriteWord s.mem address value endianess)

end

/-- The restore of CPSR from the SPSR keeps the invariant. -/
theorem restore {m n : ArmM Byte} (hm : Maintains I m) (hn : Maintains I n) :
    Maintains I (ArmSimulator.armCurrentModeHasSpsr >>= fun b =>
      if b then armReadSpsr >>= fun spsr => ArmSimulator.armWriteCpsr spsr >>= fun _ => m else n) :=
  h.armCurrentModeHasSpsr.bind fun _ =>
    .ite (maintains_armReadSpsr.bind fun _ => (h.armWriteCpsr _).bind fun _ => hm) hn

/-! ### Data processing -/

/-- `data_processing` changes the registers only. -/
theorem dataProcessing (sBit : Bool) (opcode rd : Byte) (rnValue operand : Word)
    (carryOut : Bool) :
    Maintains I (dataProcessing sBit opcode rd rnValue operand carryOut) := by
  unfold ArmSimulator.dataProcessing
  refine maintains_armReadCpsr.bind fun _ =>
    (Maintains.when (h.armWriteRegister _ _)).bind fun _ => .ite ?_ (.ite ?_ (.pure _))
  · exact h.restore (.pure _) (.pure _)
  · exact (h.armWriteCpsr _).bind fun _ => .pure _

/-- Data processing on a shifted register changes the registers only. -/
theorem armDataProcessingShift (ins : Word) : Maintains I (armDataProcessingShift ins) := by
  unfold ArmSimulator.armDataProcessingShift
  refine maintains_armReadCpsr.bind fun _ => (maintains_armReadRegister _).bind fun _ => ?_
  refine (maintains_armReadRegister _).bind fun _ => (maintains_armReadRegister _).bind fun _ => ?_
  refine (maintains_armReadRegister _).bind fun _ => ?_
  split
  · exact .pure _
  · exact h.dataProcessing _ _ _ _ _ _

/-- Data processing on an immediate changes the registers only. -/
theorem armDataProcessingImmediate (ins : Word) : Maintains I (armDataProcessingImmediate ins) := by
  unfold ArmSimulator.armDataProcessingImmediate
  refine maintains_armReadCpsr.bind fun _ => (maintains_armReadRegister _).bind fun _ => ?_
  exact h.dataProcessing _ _ _ _ _ _

/-- `MSR` changes the registers only. -/
theorem armMsrImmediate (ins : Word) : Maintains I (armMsrImmediate ins) := by
  have hwrite : ∀ value : Word, Maintains I (do
      ArmSimulator.armWriteCpsr value
      return successfullyDecoded) := fun value => (h.armWriteCpsr value).bind fun _ => .pure _
  unfold ArmSimulator.armMsrImmediate
  refine .ite (.pure _) (.ite ((maintains_of_read run_armInAPrivilegedMode).bind fun _ => ?_) ?_)
  · refine .ite (.ite (.pure _) ?_) ?_
    · exact maintains_armReadCpsr.bind fun _ => hwrite _
    · exact maintains_armReadCpsr.bind fun _ => hwrite _
  · refine h.armCurrentModeHasSpsr.bind fun _ => .ite ?_ (.pure _)
    exact maintains_armReadSpsr.bind fun _ => (h.armWriteSpsr _).bind fun _ => .pure _

/-! ### Loads and stores -/

/-- The update of a base changes the registers only. -/
theorem processLoadStoreInstruction (P W bitU : Bool) (address rn : Word) (rnRegister : Byte)
    (value : Word) :
    Maintains I (processLoadStoreInstruction P W bitU address rn rnRegister value) := by
  unfold ArmSimulator.processLoadStoreInstruction
  refine .ite (.pure _) (.ite ((h.armWriteRegister _ _).bind fun _ => .pure _) ?_)
  exact .ite ((h.armWriteRegister _ _).bind fun _ => .pure _) (.pure _)

section
variable (endianess : Byte) (loc : Locals)

/-- A transfer of a byte or a word is one traced access, and a write to the register of a load. -/
theorem loadStore (bitL bitB : Bool) (rd : Byte) (address : Word) :
    Maintains I (loadStore endianess loc bitL bitB rd address) := by
  unfold ArmSimulator.loadStore
  refine .ite (.ite ?_ ?_) ((maintains_armReadRegister _).bind fun _ => .ite ?_ ?_)
  · exact (h.armReadByte _ _).bind fun _ => (h.armWriteRegister _ _).bind fun _ => .pure _
  · exact (h.armReadWord _ _ _).bind fun _ => (h.armWriteRegister _ _).bind fun _ => .pure _
  · exact (h.armWriteByte _ _).bind fun _ => .pure _
  · exact (h.armWriteWord _ _ _).bind fun _ => .pure _

/-- The address of a scaled transfer may update the base. -/
theorem scaledAddress (ins : Word) (P W bitU : Bool) (rn rmVal : Word) (rnRegister : Byte) :
    Maintains I (scaledAddress loc ins P W bitU rn rmVal rnRegister) := by
  unfold ArmSimulator.scaledAddress
  refine .ite ((maintains_shiftOperation _ _ _).bind fun _ => .pure _) (.ite ?_ (.ite ?_ (.pure _)))
  · exact (maintains_shiftOperation _ _ _).bind fun _ =>
      (h.armWriteRegister _ _).bind fun _ => .pure _
  · exact (maintains_shiftOperation _ _ _).bind fun _ =>
      (h.armWriteRegister _ _).bind fun _ => .pure _

/-- The address of a transfer of halves may update the base. -/
theorem miscellaneousAddress (ins : Word) (P bitU : Bool) (rn rmVal : Word) (rnRegister : Byte) :
    Maintains I (miscellaneousAddress loc ins P bitU rn rmVal rnRegister) := by
  have update : ∀ value result : Word, Maintains I (do
      ArmSimulator.armWriteRegister rnRegister value
      return result) := fun value _ => (h.armWriteRegister _ value).bind fun _ => .pure _
  unfold ArmSimulator.miscellaneousAddress
  refine .ite (.ite (.pure _) (.ite (.pure _) (.ite ?_ (.ite ?_ (.pure _))))) ?_
  · exact update _ _
  · exact update _ _
  · exact .ite (update _ _) (.ite (update _ _) (.pure _))

/-- A transfer of a half is one traced access, and a write to the register of a load. -/
theorem miscellaneousTransfer (bitL bitS bitH : Bool) (rd : Byte) (address : Word) :
    Maintains I (miscellaneousTransfer endianess loc bitL bitS bitH rd address) := by
  unfold ArmSimulator.miscellaneousTransfer
  refine .ite ?_ (.ite ?_ (.pure _))
  · exact (maintains_armReadRegister _).bind fun _ => (h.armWriteHalf _ _ _).bind fun _ => .pure _
  · exact (h.armReadHalf _ _ _).bind fun _ => (h.armWriteRegister _ _).bind fun _ => .pure _

/-- A single transfer is its access and its writes to the registers. -/
theorem armLoadStore (ins : Word) : Maintains I (armLoadStore endianess loc ins) := by
  unfold ArmSimulator.armLoadStore
  refine (maintains_armReadRegister _).bind fun rn =>
    (maintains_armReadRegister _).bind fun rmVal => ?_
  refine .ite ?_ (.ite ?_ (.ite ?_ (.ite ?_ (h.loadStore _ _ _ _ _ _))))
  · exact (h.processLoadStoreInstruction _ _ _ _ _ _ _).bind fun _ =>
      .ite (.pure _) (h.loadStore _ _ _ _ _ _)
  · exact (h.processLoadStoreInstruction _ _ _ _ _ _ _).bind fun _ =>
      .ite (.pure _) (h.loadStore _ _ _ _ _ _)
  · exact (h.scaledAddress _ _ _ _ _ _ _ _).bind fun _ => h.loadStore _ _ _ _ _ _
  · exact (h.miscellaneousAddress _ _ _ _ _ _ _).bind fun _ =>
      h.miscellaneousTransfer _ _ _ _ _ _ _

/-- The loop of a block load is one traced access for each register. -/
theorem loadLoop {write : Byte → Word → ArmM Unit} (hwrite : ∀ r v, Maintains I (write r v))
    (registerList : Half) (address : Word) :
    Maintains I (loadLoop endianess loc write registerList address) :=
  .foldlM (fun _ _ => .ite ((h.armReadWord _ _ _).bind fun _ =>
    (hwrite _ _).bind fun _ => .pure _) (.pure _)) _ _

/-- The loop of a block store is one traced access for each register. -/
theorem storeLoop {read : Byte → ArmM Word} (hread : ∀ r, Maintains I (read r))
    (registerList : Half) (address : Word) :
    Maintains I (storeLoop endianess read registerList address) :=
  .foldlM (fun _ _ => .ite ((hread _).bind fun _ =>
    (h.armWriteWord _ _ _).bind fun _ => .pure _) (.pure _)) _ _

/-- The end of a block transfer changes the registers only. -/
theorem finish (b W : Bool) (rnRegistre : Byte) (address : Word) :
    Maintains I (Prog.assert b >>= fun _ => writeBack W rnRegistre address) :=
  (Maintains.assert _).bind fun _ => (Maintains.when (h.armWriteRegister _ _)).bind fun _ => .pure _

/-- A block transfer is its accesses and its writes to the registers. -/
theorem armLoadStoreMultiple (ins : Word) :
    Maintains I (armLoadStoreMultiple endianess loc ins) := by
  unfold ArmSimulator.armLoadStoreMultiple
  refine (maintains_armReadRegister _).bind fun rn => maintains_armReadCpsr.bind fun cpsr => ?_
  refine .ite (.pure _) (.ite (.pure _) (.ite (.ite ?_ ?_) (.ite ?_ (.ite ?_ ?_))))
  · refine (h.loadLoop _ _ h.armWriteRegister _ _).bind fun _ => h.restore ?_ (.pure _)
    exact (h.armReadWord _ _ _).bind fun _ =>
      (h.armWriteRegister _ _).bind fun _ => h.finish _ _ _ _
  · exact (h.loadLoop _ _ h.armWriteUsrRegister _ _).bind fun _ => h.finish _ _ _ _
  · exact (h.storeLoop _ maintains_armReadUsrRegister _ _).bind fun _ => h.finish _ _ _ _
  · refine (h.loadLoop _ _ h.armWriteRegister _ _).bind fun _ => .ite ?_ (h.finish _ _ _ _)
    exact (h.armReadWord _ _ _).bind fun _ =>
      (h.armWriteRegister _ _).bind fun _ => h.finish _ _ _ _
  · exact (h.storeLoop _ maintains_armReadRegister _ _).bind fun _ => h.finish _ _ _ _

end

/-! ### The interpreter -/

/-- A branch changes the registers only. -/
theorem armBranch (ins : Word) : Maintains I (armBranch ins) := by
  unfold ArmSimulator.armBranch
  refine .ite (.pure _) ((maintains_armReadRegister _).bind fun _ => ?_)
  exact (Maintains.when (h.armWriteRegister _ _)).bind fun _ =>
    (h.armWriteRegister _ _).bind fun _ => .pure _

/-- `MRS` and the like change the registers only. -/
theorem armMiscellaneous (ins : Word) : Maintains I (armMiscellaneous ins) := by
  unfold ArmSimulator.armMiscellaneous
  refine .ite (.pure _) (.ite (h.armCurrentModeHasSpsr.bind fun _ => .ite ?_ (.pure _)) ?_)
  · exact maintains_armReadSpsr.bind fun _ => (h.armWriteRegister _ _).bind fun _ => .pure _
  · exact maintains_armReadCpsr.bind fun _ => (h.armWriteRegister _ _).bind fun _ => .pure _

/-- Every instruction keeps the invariant. -/
theorem armDecode (endianess : Byte) (loc : Locals) (ins : Word) :
    Maintains I (armDecode endianess loc ins) := by
  unfold ArmSimulator.armDecode
  refine .ite (.ite (h.armLoadStore _ _ _) (.ite (.ite (h.armMiscellaneous _) (.pure _))
    (h.armDataProcessingShift _))) (.ite ?_ (.ite (h.armLoadStore _ _ _) ?_))
  · exact .ite (h.armMsrImmediate _) (h.armDataProcessingImmediate _)
  · refine .ite (.ite (h.armLoadStore _ _ _) (.pure _)) (.ite (h.armLoadStoreMultiple _ _ _) ?_)
    exact .ite (h.armBranch _) (.ite (.pure _) (.ite (.pure _) (.pure _)))

variable (hprinted : ∀ {p : ArmCore} (b : Byte), I p → I { p with output := b :: p.output })
include hprinted

/-- Every exception keeps the invariant, if what is printed keeps it. -/
theorem armException (endianess : Byte) (loc : Locals) (exception : Byte) :
    Maintains I (armException endianess loc exception) := by
  have enter : ∀ cpsr offset vector : Word, Maintains I (enterException cpsr offset vector >>=
      fun _ => pure exception) := fun cpsr offset vector => by
    refine Maintains.bind ?_ fun _ => .pure _
    exact (maintains_armReadRegister _).bind fun _ => (h.armWriteRegister _ _).bind fun _ =>
      maintains_armReadCpsr.bind fun _ => (h.armWriteSpsr _).bind fun _ =>
      (h.armWriteCpsr _).bind fun _ => h.armWriteRegister _ _
  unfold ArmSimulator.armException
  refine .ite ?_ (.ite ?_ (.ite (enter _ _ _) (.ite (enter _ _ _) (.ite (enter _ _ _)
    (.ite (enter _ _ _) (.ite (enter _ _ _) (.pure _)))))))
  · refine (maintains_armReadRegister _).bind fun pc => (h.armReadWord _ _ _).bind fun r => ?_
    refine .ite (.pure _) (.ite ?_ (.pure _))
    exact (maintains_armReadRegister _).bind fun value =>
      Maintains.bind (.of_run (fun s => run_putchar s value) fun _ => hprinted _) fun _ => .pure _
  · exact (h.armWriteCpsr _).bind fun _ => (h.armWriteRegister _ _).bind fun _ => .pure _

/-- What holds after the fetch holds after the step. -/
theorem armStep {endianess : Byte} {loc : Locals} {p p' : ArmCore} {c : Byte}
    (hp : I p.fetched) (hrun : (armStep endianess loc).run p = some (c, p')) : I p' := by
  unfold ArmSimulator.armStep at hrun
  obtain ⟨r, p₁, hex, hrest⟩ := run_bind_eq_some.1 hrun
  have h₁ : I p₁ := by
    rw [run_armExecuteInstruction] at hex
    by_cases hc : conditionHolds (p.fetchedWord endianess loc >>> 28) p.reg.cpsr = true
    · rw [if_pos hc] at hex
      exact h.armDecode _ _ _ _ hp _ _ hex
    · rw [if_neg hc] at hex
      cases hex
      exact hp
  exact (Maintains.ite (h.armException hprinted _ _ _) (.pure _)) p₁ h₁ c p' hrest

end Respected

/-! ## What is accounted for -/

/-- The new accesses account for the second memory, and the cycles are counted. -/
structure Accounted (p : ArmCore) (cycles : Nat) (new : List Access) (p' : ArmCore) : Prop where
  accesses : p'.accesses = new ++ p.accesses
  cycleCount : p'.cycleCount = p.cycleCount + BitVec.ofNat 32 cycles
  size : p'.mem.size = p.mem.size
  data : ∀ i, (∀ a ∈ new, ¬ a.Covers i) → p'.mem.data i = p.mem.data i
  /-- What is printed is not taken back. -/
  output : p.output <:+ p'.output

section
variable {p p' p'' : ArmCore} {m n : Nat} {new new' : List Access}

/-- Where nothing has been done there is nothing to account for. -/
theorem Accounted.refl : Accounted p 0 [] p where
  accesses := rfl
  cycleCount := (BitVec.add_zero _).symm
  size := rfl
  data := fun _ _ => rfl
  output := List.suffix_refl _

/-- The accounts of two parts add up. -/
theorem Accounted.trans (h : Accounted p m new p') (h' : Accounted p' n new' p'') :
    Accounted p (m + n) (new' ++ new) p'' where
  accesses := by rw [h'.accesses, h.accesses, List.append_assoc]
  cycleCount := by rw [h'.cycleCount, h.cycleCount, BitVec.ofNat_add, BitVec.add_assoc]
  size := h'.size.trans h.size
  data i hi := (h'.data i fun a ha => hi a (List.mem_append_left _ ha)).trans
    (h.data i fun a ha => hi a (List.mem_append_right _ ha))
  output := h.output.trans h'.output

/-- A change of the registers and a traced access keep the account. -/
theorem respected_accounted (p : ArmCore) (n : Nat) :
    Respected fun p' => ∃ new, Accounted p n new p' where
  registers := by
    rintro p' reg ⟨new, h⟩
    exact ⟨new, h.accesses, h.cycleCount, h.size, h.data, h.output⟩
  access := by
    rintro p' a mem hmem ⟨new, h⟩
    refine ⟨a :: new, congrArg (a :: ·) h.accesses, h.cycleCount, hmem.size.trans h.size,
      fun i hi => ?_, h.output⟩
    obtain ⟨ha, hnew⟩ := List.forall_mem_cons.1 hi
    exact (hmem.data i ha).trans (h.data i hnew)

/-- A character that is printed keeps the account. -/
theorem Accounted.printed (b : Byte) (h : ∃ new, Accounted p n new p') :
    ∃ new, Accounted p n new { p' with output := b :: p'.output } := by
  obtain ⟨new, h⟩ := h
  exact ⟨new, h.accesses, h.cycleCount, h.size, h.data, h.output.trans (List.suffix_cons b _)⟩

/-- The fetch is an access to four bytes at the PC, and counts a cycle. -/
theorem accounted_fetched (p : ArmCore) : Accounted p 1 [⟨4, p.pc⟩] p.fetched where
  accesses := congrArg (fun pc => Access.mk 4 pc :: p.accesses) (registersRead_pc _ _)
  cycleCount := rfl
  size := rfl
  data := fun _ _ => rfl
  output := List.suffix_refl _

end

/-- The accesses of a step, the last one first, end with the fetch. -/
theorem accounted_armStep {endianess : Byte} {loc : Locals} {p p' : ArmCore} {c : Byte}
    (hrun : (armStep endianess loc).run p = some (c, p')) :
    ∃ new, Accounted p 1 (new ++ [⟨4, p.pc⟩]) p' := by
  obtain ⟨new, h⟩ := (respected_accounted p.fetched 0).armStep Accounted.printed ⟨[], .refl⟩ hrun
  exact ⟨new, (accounted_fetched p).trans h⟩

/-- An exception is accounted for, and counts no cycle. -/
theorem accounted_armException {endianess : Byte} {loc : Locals} {p p' : ArmCore}
    {exception c : Byte} (hrun : (armException endianess loc exception).run p = some (c, p')) :
    ∃ new, Accounted p 0 new p' :=
  (respected_accounted p 0).armException Accounted.printed endianess loc exception p ⟨[], .refl⟩
    c p' hrun

/-! ## Runs -/

/-- An event, labelled with the PC it finds as well. -/
def EventAt (endianess : Byte) (p : ArmCore) (e : Event × Word) (p' : ArmCore) : Prop :=
  EventStep endianess p e.1 p' ∧ e.2 = p.pc

/-- The event is a step. -/
def Event.isStep : Event → Bool
  | .step _ => true
  | .exception _ _ => false

/-- The accesses of a sequence of events, the last one first: each step fetches the word at its PC,
and accesses the memory for its instruction then. -/
inductive Traces : List (Event × Word) → List Access → Prop
  | nil : Traces [] []
  | step {events : List (Event × Word)} {log : List Access} (loc : Locals) (pc : Word)
      (new : List Access) (h : Traces events log) :
      Traces (events ++ [(.step loc, pc)]) (new ++ ⟨4, pc⟩ :: log)
  | exception {events : List (Event × Word)} {log : List Access} (loc : Locals) (number : Byte)
      (pc : Word) (new : List Access) (h : Traces events log) :
      Traces (events ++ [(.exception loc number, pc)]) (new ++ log)

/-- **The trace accounts for the memory.** In any run of steps and exceptions the accesses are
traced in their order, each step beginning with the fetch at its PC; the bytes that no access
covers stay as they are, the size of the memory is fixed, a cycle is counted for every step, and
what is printed stays printed. -/
theorem accesses_account {endianess : Byte} {p p' : ArmCore} {events : List (Event × Word)}
    (h : Run (EventAt endianess) p events p') :
    ∃ new, Traces events new ∧ Accounted p (events.countP (·.1.isStep)) new p' := by
  induction h with
  | nil => exact ⟨[], .nil, .refl⟩
  | @snoc q p' e events _ he ih =>
    obtain ⟨log, htraces, hlog⟩ := ih
    obtain ⟨e, pc⟩ := e
    obtain ⟨⟨code, hrun⟩, rfl⟩ := he
    rw [List.countP_append]
    cases e with
    | step loc =>
      obtain ⟨new, hnew⟩ := accounted_armStep hrun
      have hall := hlog.trans hnew
      rw [List.append_assoc, List.singleton_append] at hall
      exact ⟨_, htraces.step loc _ new, hall⟩
    | exception loc number =>
      obtain ⟨new, hnew⟩ := accounted_armException hrun
      exact ⟨_, htraces.exception loc number _ new, hlog.trans hnew⟩

/-- `STRB r1, [r2]` with r2 = 4. -/
def tracedStore : ArmCore := (ArmCore.initial 0x13 (.ofWords [0xE5C21000, 0])).write 2 4

/-- The accesses of a step that stores and of an interrupt after it are accounted for. -/
theorem accesses_account_store :
    ∃ pc new p', Traces [(.step .zero, 0), (.exception .zero interrupt, pc)] new ∧
      Accounted tracedStore 1 new p' := by
  obtain ⟨c, p₁, hstep, -⟩ := armStep_run 1 .zero tracedStore
  have hevent : EventAt 1 tracedStore (.step .zero, 0) p₁ := ⟨⟨c, hstep⟩, rfl⟩
  have hinterrupt : EventAt 1 p₁ (.exception .zero interrupt, p₁.pc) (p₁.entered 0x193 4 0x18) :=
    ⟨⟨interrupt, run_armException_interrupt 1 .zero p₁⟩, rfl⟩
  obtain ⟨new, h⟩ := accesses_account ((Run.single hevent).snoc hinterrupt)
  exact ⟨_, new, _, h⟩

end ArmSimulator
