import ArmSimulator.Instruction
import ArmSimulator.Lib.Bits
import Mathlib.Data.Nat.Init

/-!
# Simulations of the interpreter by itself

The instructions reach the state only through the accessors of `arm_core.c`. So a relation between
two states that every accessor respects is respected by every instruction: `SimAccessors` lists what
the accessors must do, and `SimAccessors.armDecode` and `SimAccessors.armExecuteInstruction` say
that the instructions then do it. The two sides may be two builds, two states of one build, or one
state with an invariant (`Prog.Sim.of_inv`).

CPSR needs more care than the other registers, since a relation may bound what it holds. The
predicate `V` is that bound. Flags are written to a CPSR that satisfies it; what `MSR` writes, and
what an SPSR is restored to, is left to the relation.
-/

namespace ArmSimulator

open Prog

/-- The accessors respect the relation `R`, up to the error `B`, in the builds `e` and `e'`; the
values of CPSR satisfy `V`. -/
structure SimAccessors (R : ArmCore → ArmCore → Prop) (B : ArmCore → Prop) (V : Word → Prop)
    (e e' : Byte) : Prop where
  hasSpsr : Sim R B armCurrentModeHasSpsr armCurrentModeHasSpsr
  privileged : Sim R B armInAPrivilegedMode armInAPrivilegedMode
  readRegister : ∀ reg, Sim R B (armReadRegister reg) (armReadRegister reg)
  readUsrRegister : ∀ reg, Sim R B (armReadUsrRegister reg) (armReadUsrRegister reg)
  readCpsr : Sim R B armReadCpsr armReadCpsr
  readSpsr : Sim R B armReadSpsr armReadSpsr
  writeRegister : ∀ reg value, Sim R B (armWriteRegister reg value) (armWriteRegister reg value)
  writeUsrRegister : ∀ reg value,
    Sim R B (armWriteUsrRegister reg value) (armWriteUsrRegister reg value)
  writeCpsr : ∀ value, V value → Sim R B (armWriteCpsr value) (armWriteCpsr value)
  writeSpsr : ∀ value, Sim R B (armWriteSpsr value) (armWriteSpsr value)
  /-- The restore of CPSR from the SPSR, behind the query for one. -/
  restore : ∀ {k k' j j' : ArmM Byte}, Sim R B k k' → Sim R B j j' →
    Sim R B
      (armCurrentModeHasSpsr >>= fun b =>
        if b then armReadSpsr >>= fun spsr => armWriteCpsr spsr >>= fun _ => k else j)
      (armCurrentModeHasSpsr >>= fun b =>
        if b then armReadSpsr >>= fun spsr => armWriteCpsr spsr >>= fun _ => k' else j')
  readByte : ∀ address value, Sim R B (armReadByte address value) (armReadByte address value)
  readHalf : ∀ address value, Sim R B (armReadHalf e address value) (armReadHalf e' address value)
  readWord : ∀ address value, Sim R B (armReadWord e address value) (armReadWord e' address value)
  writeByte : ∀ address value, Sim R B (armWriteByte address value) (armWriteByte address value)
  writeHalf : ∀ address value,
    Sim R B (armWriteHalf e address value) (armWriteHalf e' address value)
  writeWord : ∀ address value,
    Sim R B (armWriteWord e address value) (armWriteWord e' address value)
  fetch : ∀ value, Sim R B (armFetch e value) (armFetch e' value)
  putchar : ∀ value, Sim R B (putchar value) (putchar value)
  /-- CPSR satisfies its bound wherever a run of the first side starts. -/
  current : ∀ s, (B s ∨ ∃ t, R s t) → V s.reg.cpsr

/-- The bound on CPSR is not one on the flags. -/
def FlagsFree (V : Word → Prop) : Prop :=
  ∀ c v, V c → v &&& 0x0FFFFFFF = c &&& 0x0FFFFFFF → V v

namespace SimAccessors

variable {R : ArmCore → ArmCore → Prop} {B : ArmCore → Prop} {V : Word → Prop} {e e' : Byte}

/-! ## Data processing -/

/-- After CPSR is read, its value is known to satisfy the bound. -/
theorem readCpsr_bind (h : SimAccessors R B V e e') {α : Type} {f g : Word → ArmM α}
    (hf : ∀ cpsr, V cpsr → Sim R B (f cpsr) (g cpsr)) :
    Sim R B (armReadCpsr >>= f) (armReadCpsr >>= g) := by
  refine Sim.bind_of h.readCpsr (fun s hs a s' hr => ?_) hf
  cases hr
  exact h.current s hs

/-- The arithmetic of a data processing instruction respects the relation. -/
theorem dataProcessing (h : SimAccessors R B V e e') (hV : FlagsFree V) (sBit : Bool)
    (opcode rd : Byte) (rnValue operand : Word) (carryOut : Bool) :
    Sim R B (dataProcessing sBit opcode rd rnValue operand carryOut)
      (ArmSimulator.dataProcessing sBit opcode rd rnValue operand carryOut) := by
  unfold ArmSimulator.dataProcessing
  refine h.readCpsr_bind fun cpsr hc => (Sim.when (h.writeRegister _ _)).bind fun _ => ?_
  refine Sim.ite (h.restore (Sim.pure _) (Sim.pure _)) (Sim.ite ?_ (Sim.pure _))
  refine (h.writeCpsr _ (hV cpsr _ hc ?_)).bind fun _ => Sim.pure _
  exact newCpsr_and _ _ _ _ _

/-- A data processing instruction with a shifted operand respects the relation. -/
theorem armDataProcessingShift (h : SimAccessors R B V e e') (hV : FlagsFree V) (ins : Word) :
    Sim R B (armDataProcessingShift ins) (ArmSimulator.armDataProcessingShift ins) := by
  unfold ArmSimulator.armDataProcessingShift
  refine h.readCpsr.bind fun cpsr => (h.readRegister _).bind fun rnValue => ?_
  refine (h.readRegister _).bind fun rmValue => (h.readRegister _).bind fun rsValue => ?_
  refine (h.readRegister _).bind fun pc => ?_
  split
  · exact Sim.pure _
  · exact h.dataProcessing hV _ _ _ _ _ _

/-- A data processing instruction with an immediate respects the relation. -/
theorem armDataProcessingImmediate (h : SimAccessors R B V e e') (hV : FlagsFree V) (ins : Word) :
    Sim R B (armDataProcessingImmediate ins) (ArmSimulator.armDataProcessingImmediate ins) := by
  unfold ArmSimulator.armDataProcessingImmediate
  refine h.readCpsr.bind fun _ => (h.readRegister _).bind fun _ => ?_
  exact h.dataProcessing hV _ _ _ _ _ _

/-- In a privileged mode `MSR` writes the mode bits, so that CPSR must not be bounded there. -/
theorem armMsrImmediate (h : SimAccessors R B V e e') (hV : FlagsFree V)
    (hpriv : ∀ s, (B s ∨ ∃ t, R s t) → registersInAPrivilegedMode s.reg ≠ 0 → ∀ v, V v)
    (ins : Word) : Sim R B (armMsrImmediate ins) (ArmSimulator.armMsrImmediate ins) := by
  have hwrite : ∀ mask operand : Word,
      (∀ c, V c → V ((c &&& ~~~mask) ||| (operand &&& mask))) → Sim R B
      (armReadCpsr >>= fun cpsr =>
        armWriteCpsr ((cpsr &&& ~~~mask) ||| (operand &&& mask)) >>= fun _ =>
          return successfullyDecoded)
      (armReadCpsr >>= fun cpsr =>
        armWriteCpsr ((cpsr &&& ~~~mask) ||| (operand &&& mask)) >>= fun _ =>
          return successfullyDecoded) :=
    fun _ _ hw => h.readCpsr_bind fun c hc => (h.writeCpsr _ (hw c hc)).bind fun _ => Sim.pure _
  unfold ArmSimulator.armMsrImmediate
  refine Sim.ite (Sim.pure _) (Sim.ite ?_ ?_)
  · refine Sim.bind_of (ψ := fun privileged => privileged ≠ 0 → ∀ v, V v) h.privileged
      (fun s hs a s' hr => ?_) fun privileged hp => ?_
    · cases hr
      exact hpriv s hs
    · by_cases h0 : privileged ≠ 0
      · rw [if_pos h0]
        exact Sim.ite (Sim.pure _) (hwrite _ _ fun _ _ => hp h0 _)
      · rw [if_neg h0]
        exact hwrite _ _ fun c hc => hV c _ hc (Bits.assign_and _ (msrUserMask_and _))
  · refine h.hasSpsr.bind fun b => Sim.ite ?_ (Sim.pure _)
    exact h.readSpsr.bind fun _ => (h.writeSpsr _).bind fun _ => Sim.pure _

/-! ## Loads and stores -/

/-- The shift of an offset respects the relation. -/
theorem shiftOperation (h : SimAccessors R B V e e') (rmVal : Word) (shift : Byte)
    (shiftImm : Word) :
    Sim R B (shiftOperation rmVal shift shiftImm)
      (ArmSimulator.shiftOperation rmVal shift shiftImm) := by
  unfold ArmSimulator.shiftOperation
  split
  · exact Sim.pure _
  · exact Sim.pure _
  · exact Sim.pure _
  · exact Sim.ite (h.readCpsr.bind fun _ => Sim.pure _) (Sim.pure _)
  · exact Sim.pure _

/-- The base update that ends most addressing modes. -/
theorem update (h : SimAccessors R B V e e') {α : Type} (rnRegister : Byte) (value : Word)
    (result : α) :
    Sim R B (armWriteRegister rnRegister value >>= fun _ => pure result)
      (armWriteRegister rnRegister value >>= fun _ => pure result) :=
  (h.writeRegister _ _).bind fun _ => Sim.pure _

/-- The address and the write-back of a single transfer respect the relation. -/
theorem processLoadStoreInstruction (h : SimAccessors R B V e e') (P W bitU : Bool)
    (address rn : Word) (rnRegister : Byte) (value : Word) :
    Sim R B (processLoadStoreInstruction P W bitU address rn rnRegister value)
      (ArmSimulator.processLoadStoreInstruction P W bitU address rn rnRegister value) := by
  unfold ArmSimulator.processLoadStoreInstruction
  exact Sim.ite (Sim.pure _) (Sim.ite (h.update _ _ _) (Sim.ite (h.update _ _ _) (Sim.pure _)))

section
variable (loc : Locals)

/-- The access of a word or a byte respects the relation. -/
theorem loadStore (h : SimAccessors R B V e e') (bitL bitB : Bool) (rd : Byte) (address : Word) :
    Sim R B (loadStore e loc bitL bitB rd address)
      (ArmSimulator.loadStore e' loc bitL bitB rd address) := by
  unfold ArmSimulator.loadStore
  refine Sim.ite (Sim.ite ?_ ?_) ((h.readRegister _).bind fun _ => Sim.ite ?_ ?_)
  · exact (h.readByte _ _).bind fun _ => h.update _ _ _
  · exact (h.readWord _ _).bind fun _ => h.update _ _ _
  · exact (h.writeByte _ _).bind fun _ => Sim.pure _
  · exact (h.writeWord _ _).bind fun _ => Sim.pure _

/-- An address with a scaled register respects the relation. -/
theorem scaledAddress (h : SimAccessors R B V e e') (ins : Word) (P W bitU : Bool)
    (rn rmVal : Word) (rnRegister : Byte) :
    Sim R B (scaledAddress loc ins P W bitU rn rmVal rnRegister)
      (ArmSimulator.scaledAddress loc ins P W bitU rn rmVal rnRegister) := by
  unfold ArmSimulator.scaledAddress
  refine Sim.ite ((h.shiftOperation _ _ _).bind fun _ => Sim.pure _) (Sim.ite ?_ (Sim.ite ?_ ?_))
  · exact (h.shiftOperation _ _ _).bind fun _ => h.update _ _ _
  · exact (h.shiftOperation _ _ _).bind fun _ => h.update _ _ _
  · exact Sim.pure _

/-- An address of a halfword or of a signed value respects the relation. -/
theorem miscellaneousAddress (h : SimAccessors R B V e e') (ins : Word) (P bitU : Bool)
    (rn rmVal : Word) (rnRegister : Byte) :
    Sim R B (miscellaneousAddress loc ins P bitU rn rmVal rnRegister)
      (ArmSimulator.miscellaneousAddress loc ins P bitU rn rmVal rnRegister) := by
  unfold ArmSimulator.miscellaneousAddress
  refine Sim.ite ?_ ?_
  · exact Sim.ite (Sim.pure _) (Sim.ite (Sim.pure _) (Sim.ite (h.update _ _ _)
      (Sim.ite (h.update _ _ _) (Sim.pure _))))
  · exact Sim.ite (h.update _ _ _) (Sim.ite (h.update _ _ _) (Sim.pure _))

/-- The access of a halfword or of a signed value respects the relation. -/
theorem miscellaneousTransfer (h : SimAccessors R B V e e') (bitL bitS bitH : Bool) (rd : Byte)
    (address : Word) :
    Sim R B (miscellaneousTransfer e loc bitL bitS bitH rd address)
      (ArmSimulator.miscellaneousTransfer e' loc bitL bitS bitH rd address) := by
  unfold ArmSimulator.miscellaneousTransfer
  refine Sim.ite ?_ (Sim.ite ?_ (Sim.pure _))
  · exact (h.readRegister _).bind fun _ => (h.writeHalf _ _).bind fun _ => Sim.pure _
  · exact (h.readHalf _ _).bind fun _ => h.update _ _ _

/-- A single transfer respects the relation. -/
theorem armLoadStore (h : SimAccessors R B V e e') (ins : Word) :
    Sim R B (armLoadStore e loc ins) (ArmSimulator.armLoadStore e' loc ins) := by
  unfold ArmSimulator.armLoadStore
  refine (h.readRegister _).bind fun rn => (h.readRegister _).bind fun rmVal => ?_
  refine Sim.ite ?_ (Sim.ite ?_ (Sim.ite ?_ (Sim.ite ?_ (h.loadStore _ _ _ _ _))))
  · exact (h.processLoadStoreInstruction _ _ _ _ _ _ _).bind fun _ =>
      Sim.ite (Sim.pure _) (h.loadStore _ _ _ _ _)
  · exact (h.processLoadStoreInstruction _ _ _ _ _ _ _).bind fun _ =>
      Sim.ite (Sim.pure _) (h.loadStore _ _ _ _ _)
  · exact (h.scaledAddress _ _ _ _ _ _ _ _).bind fun _ => h.loadStore _ _ _ _ _
  · exact (h.miscellaneousAddress _ _ _ _ _ _ _).bind fun _ =>
      h.miscellaneousTransfer _ _ _ _ _ _

/-- The loop that loads the registers of a list respects the relation. -/
theorem loadLoop (h : SimAccessors R B V e e') {write : Byte → Word → ArmM Unit}
    (hwrite : ∀ r v, Sim R B (write r v) (write r v)) (registerList : Half) (address : Word) :
    Sim R B (loadLoop e loc write registerList address)
      (ArmSimulator.loadLoop e' loc write registerList address) :=
  Sim.foldlM (fun _ _ => Sim.ite ((h.readWord _ _).bind fun _ =>
    (hwrite _ _).bind fun _ => Sim.pure _) (Sim.pure _)) _ _

/-- The loop that stores the registers of a list respects the relation. -/
theorem storeLoop (h : SimAccessors R B V e e') {read : Byte → ArmM Word}
    (hread : ∀ r, Sim R B (read r) (read r)) (registerList : Half) (address : Word) :
    Sim R B (storeLoop e read registerList address)
      (ArmSimulator.storeLoop e' read registerList address) :=
  Sim.foldlM (fun _ _ => Sim.ite ((hread _).bind fun _ =>
    (h.writeWord _ _).bind fun _ => Sim.pure _) (Sim.pure _)) _ _

/-- The end of a block transfer respects the relation. -/
theorem finish (h : SimAccessors R B V e e') (b W : Bool) (rnRegistre : Byte) (address : Word) :
    Sim R B (Prog.assert b >>= fun _ => writeBack W rnRegistre address)
      (Prog.assert b >>= fun _ => writeBack W rnRegistre address) :=
  (Sim.assert _).bind fun _ => (Sim.when (h.writeRegister _ _)).bind fun _ => Sim.pure _

/-- A block transfer respects the relation. -/
theorem armLoadStoreMultiple (h : SimAccessors R B V e e') (ins : Word) :
    Sim R B (armLoadStoreMultiple e loc ins) (ArmSimulator.armLoadStoreMultiple e' loc ins) := by
  unfold ArmSimulator.armLoadStoreMultiple
  refine (h.readRegister _).bind fun rn => h.readCpsr.bind fun cpsr => ?_
  refine Sim.ite (Sim.pure _) (Sim.ite (Sim.pure _) (Sim.ite (Sim.ite ?_ ?_)
    (Sim.ite ?_ (Sim.ite ?_ ?_))))
  · refine (h.loadLoop loc h.writeRegister _ _).bind fun _ => h.restore ?_ (Sim.pure _)
    exact (h.readWord _ _).bind fun _ => (h.writeRegister _ _).bind fun _ => h.finish _ _ _ _
  · exact (h.loadLoop loc h.writeUsrRegister _ _).bind fun _ => h.finish _ _ _ _
  · exact (h.storeLoop h.readUsrRegister _ _).bind fun _ => h.finish _ _ _ _
  · refine (h.loadLoop loc h.writeRegister _ _).bind fun _ => Sim.ite ?_ (h.finish _ _ _ _)
    exact (h.readWord _ _).bind fun _ => (h.writeRegister _ _).bind fun _ => h.finish _ _ _ _
  · exact (h.storeLoop h.readRegister _ _).bind fun _ => h.finish _ _ _ _

/-! ## The interpreter -/

/-- A branch respects the relation. -/
theorem armBranch (h : SimAccessors R B V e e') (ins : Word) :
    Sim R B (armBranch ins) (ArmSimulator.armBranch ins) := by
  unfold ArmSimulator.armBranch
  refine Sim.ite (Sim.pure _) ((h.readRegister _).bind fun _ => ?_)
  exact (Sim.when (h.writeRegister _ _)).bind fun _ => h.update _ _ _

/-- `MRS`, `MSR` and the words that are taken for them respect the relation. -/
theorem armMiscellaneous (h : SimAccessors R B V e e') (ins : Word) :
    Sim R B (armMiscellaneous ins) (ArmSimulator.armMiscellaneous ins) := by
  unfold ArmSimulator.armMiscellaneous
  refine Sim.ite (Sim.pure _) (Sim.ite ?_ (h.readCpsr.bind fun _ => h.update _ _ _))
  refine h.hasSpsr.bind fun _ => Sim.ite ?_ (Sim.pure _)
  exact h.readSpsr.bind fun _ => h.update _ _ _

/-- Every instruction respects the relation, if `MSR` does. -/
theorem armDecode (h : SimAccessors R B V e e') (hV : FlagsFree V) {ins : Word}
    (hmsr : getBits ins 27 25 = 0b001 →
      Sim R B (armDataProcessingImmediateMsr ins) (armDataProcessingImmediateMsr ins)) :
    Sim R B (armDecode e loc ins) (ArmSimulator.armDecode e' loc ins) := by
  unfold ArmSimulator.armDecode
  refine Sim.ite (Sim.ite (h.armLoadStore loc ins) (Sim.ite (Sim.ite (h.armMiscellaneous ins)
    (Sim.pure _)) (h.armDataProcessingShift hV ins))) ?_
  refine Sim.ite_of hmsr fun _ => Sim.ite (h.armLoadStore loc ins)
    (Sim.ite (Sim.ite (h.armLoadStore loc ins) (Sim.pure _)) ?_)
  refine Sim.ite (h.armLoadStoreMultiple loc ins) (Sim.ite (h.armBranch ins)
    (Sim.ite (Sim.pure _) ?_))
  exact Sim.ite (Sim.pure _) (Sim.pure _)

/-- A data processing instruction with an immediate, or an `MSR`, respects the relation. -/
theorem armDataProcessingImmediateMsr (h : SimAccessors R B V e e') (hV : FlagsFree V)
    (hpriv : ∀ s, (B s ∨ ∃ t, R s t) → registersInAPrivilegedMode s.reg ≠ 0 → ∀ v, V v)
    (ins : Word) :
    Sim R B (armDataProcessingImmediateMsr ins) (ArmSimulator.armDataProcessingImmediateMsr ins) :=
  Sim.ite (h.armMsrImmediate hV hpriv ins) (h.armDataProcessingImmediate hV ins)

/-- The fetch and the execution of an instruction respect the relation. -/
theorem armExecuteInstruction (h : SimAccessors R B V e e') (hV : FlagsFree V)
    (hpriv : ∀ s, (B s ∨ ∃ t, R s t) → registersInAPrivilegedMode s.reg ≠ 0 → ∀ v, V v) :
    Sim R B (armExecuteInstruction e loc) (ArmSimulator.armExecuteInstruction e' loc) := by
  unfold ArmSimulator.armExecuteInstruction
  refine (h.fetch _).bind fun r => Sim.bind (h.readCpsr.bind fun _ => Sim.pure _) fun holds => ?_
  refine Sim.ite (Sim.pure _) (h.armDecode loc hV fun _ => ?_)
  exact h.armDataProcessingImmediateMsr hV hpriv _

/-- A software interrupt only reads the memory and r0, and prints. -/
theorem armException_softwareInterrupt (h : SimAccessors R B V e e') :
    Sim R B (armException e loc softwareInterrupt) (armException e' loc softwareInterrupt) := by
  unfold armException
  rw [if_pos rfl]
  refine (h.readRegister _).bind fun pc => (h.readWord _ _).bind fun r => ?_
  refine Sim.ite (Sim.pure _) (Sim.ite ?_ (Sim.pure _))
  exact (h.readRegister _).bind fun value => (h.putchar _).bind fun _ => Sim.pure _

/-- The body of an exception, where CPSR may hold its mode. -/
theorem enterException (h : SimAccessors R B V e e') {cpsr : Word} (hV : V cpsr)
    (offset vector : Word) :
    Sim R B (enterException cpsr offset vector)
      (ArmSimulator.enterException cpsr offset vector) :=
  (h.readRegister _).bind fun _ => (h.writeRegister _ _).bind fun _ =>
    h.readCpsr.bind fun _ => (h.writeSpsr _).bind fun _ =>
    (h.writeCpsr _ hV).bind fun _ => h.writeRegister _ _

end

end SimAccessors

/-! ## A bound on CPSR as an invariant -/

section
variable {V : Word → Prop}

/-- The state `t` is `s`, and CPSR satisfies the bound. -/
abbrev CpsrIn (V : Word → Prop) (s t : ArmCore) : Prop := t = s ∧ V s.reg.cpsr

/-- A program that leaves CPSR keeps the bound. -/
theorem sim_of_cpsr {α : Type} {m : ArmM α}
    (h : ∀ s a s', m.run s = some (a, s') → s'.reg.cpsr = s.reg.cpsr) :
    Sim (CpsrIn V) (fun _ => False) m m :=
  Sim.of_inv fun s a s' (hI : V s.reg.cpsr) hr => show V s'.reg.cpsr from h s a s' hr ▸ hI

/-- The accessors keep a bound on CPSR: the SPSR that is restored has just been saved. -/
theorem simAccessors_cpsr (e : Byte) : SimAccessors (CpsrIn V) (fun _ => False) V e e where
  hasSpsr := sim_of_cpsr (by rintro s a s' ⟨⟩; exact registersCurrentModeHasSpsr_cpsr s.reg)
  privileged := sim_of_cpsr (by rintro s a s' ⟨⟩; rfl)
  readRegister reg := sim_of_cpsr (by rintro s a s' ⟨⟩; rfl)
  readUsrRegister reg := sim_of_cpsr (by rintro s a s' ⟨⟩; rfl)
  readCpsr := sim_of_cpsr (by rintro s a s' ⟨⟩; rfl)
  readSpsr := sim_of_cpsr (by rintro s a s' ⟨⟩; rfl)
  writeRegister reg value := sim_of_cpsr (by rintro s a s' ⟨⟩; exact registersWrite_cpsr _ _ _ _)
  writeUsrRegister reg value := sim_of_cpsr (by rintro s a s' ⟨⟩; exact registersWrite_cpsr _ _ _ _)
  writeCpsr value hV := Sim.of_inv (I := fun s : ArmCore => V s.reg.cpsr)
    (by rintro s a s' hI ⟨⟩; exact hV)
  writeSpsr value := sim_of_cpsr (by rintro s a s' ⟨⟩; exact registersWriteSpsr_cpsr _ _ _)
  restore := by
    refine fun hk hj => ⟨fun _ _ _ _ hb => hb, ?_⟩
    rintro s t ⟨ht, hV⟩ a s' hr
    have hV' : V (registersCurrentModeHasSpsr s.reg).2.cpsr := by
      rw [registersCurrentModeHasSpsr_cpsr]
      exact hV
    rw [run_bind_of (run_armCurrentModeHasSpsr s)] at hr
    rw [ht, run_bind_of (run_armCurrentModeHasSpsr s)]
    by_cases hb : (registersCurrentModeHasSpsr s.reg).1 = true
    · rw [if_pos hb] at hr ⊢
      rw [run_bind_of (run_armReadSpsr _), run_bind_of (run_armWriteCpsr _ _)] at hr ⊢
      refine hk.2 _ _ ⟨rfl, ?_⟩ a s' hr
      show V (registersReadSpsr _ (registersGetMode _))
      rw [registersReadSpsr_query s.reg hb]
      exact hV
    · rw [if_neg hb] at hr ⊢
      exact hj.2 _ _ ⟨rfl, hV'⟩ a s' hr
  readByte address value := sim_of_cpsr (by rintro s a s' ⟨⟩; rfl)
  readHalf address value := sim_of_cpsr (by rintro s a s' ⟨⟩; rfl)
  readWord address value := sim_of_cpsr (by rintro s a s' ⟨⟩; rfl)
  writeByte address value := sim_of_cpsr (by rintro s a s' ⟨⟩; rfl)
  writeHalf address value := sim_of_cpsr (by rintro s a s' ⟨⟩; rfl)
  writeWord address value := sim_of_cpsr (by rintro s a s' ⟨⟩; rfl)
  fetch value := sim_of_cpsr (by rintro s a s' ⟨⟩; exact ArmCore.fetched_cpsr s)
  putchar value := sim_of_cpsr (by rintro s a s' ⟨⟩; rfl)
  current s hs := by
    rcases hs with hb | ⟨t, -, hV⟩
    · exact hb.elim
    · exact hV

/-- What keeps every bound `V` keeps it along a run. -/
theorem cpsr_of_sim {α : Type} {m : ArmM α} (h : Sim (CpsrIn V) (fun _ => False) m m)
    {s s' : ArmCore} {a : α} (hV : V s.reg.cpsr) (hr : m.run s = some (a, s')) : V s'.reg.cpsr :=
  Sim.inv (I := fun s : ArmCore => V s.reg.cpsr) h hV hr

end

end ArmSimulator
