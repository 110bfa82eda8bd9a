import ArmSimulator.Simulation
import ArmSimulator.Step

/-!
# User-mode confidentiality

What a step from user mode does depends on the memory, CPSR, the cycle count and the user bank of
the registers, and not on the SPSRs or the other banks. `UserAgree` relates two states with the same
of these; the accessors respect it in user mode (`simAccessors_user`), and so does `arm_step`.
-/

namespace ArmSimulator

open Prog

/-- The two states agree on what user code may know: the memory, CPSR, the cycle count and the user
bank, the first 16 words of the table. -/
structure UserAgree (p q : ArmCore) : Prop where
  mem : q.mem = p.mem
  cpsr : q.reg.cpsr = p.reg.cpsr
  cycleCount : q.cycleCount = p.cycleCount
  bank : ∀ i : Fin gregTable, i.val < 16 → q.reg.genreg i = p.reg.genreg i

/-- From the states `p` and `q` on, the states `p'` and `q'` have printed and traced the same. -/
structure SameOutput (p q p' q' : ArmCore) : Prop where
  output : ∃ out, p'.output = out ++ p.output ∧ q'.output = out ++ q.output
  accesses : ∃ log, p'.accesses = log ++ p.accesses ∧ q'.accesses = log ++ q.accesses

/-- The two runs from `p` and `q`, in user mode. -/
structure UserRelated (p q p' q' : ArmCore) : Prop extends
    UserAgree p' q', SameOutput p q p' q' where
  mode : p'.reg.cpsr &&& 0x1F = 0x10

section
variable {p q p' q' : ArmCore}

/-- The first run is in user mode. -/
theorem UserRelated.mode_left (h : UserRelated p q p' q') : registersGetMode p'.reg = USR := by
  rw [registersGetMode, h.mode]
  rfl

/-- The second run is in user mode as well. -/
theorem UserRelated.mode_right (h : UserRelated p q p' q') : registersGetMode q'.reg = USR := by
  rw [registersGetMode, h.cpsr, h.mode]
  rfl

/-- A register of the user bank reads alike. -/
theorem UserAgree.read (h : UserAgree p q) (reg : Byte) :
    registersRead q.reg reg USR = registersRead p.reg reg USR := by
  unfold registersRead
  cases hs : slot reg USR with
  | none => rfl
  | some i => exact h.bank i (slot_usr hs)

/-- The registers read the same in both states, as the instructions see them. -/
theorem UserAgree.readInternal (h : UserAgree p q) (reg : Byte) :
    q.readInternal reg USR = p.readInternal reg USR := by
  rw [ArmCore.readInternal, ArmCore.readInternal, h.read]

/-- The relation is kept where both sides write the same to a register of the user bank. -/
theorem UserRelated.write (h : UserRelated p q p' q') (reg : Byte) (value : Word) :
    UserRelated p q { p' with reg := registersWrite p'.reg reg USR value }
      { q' with reg := registersWrite q'.reg reg USR value } := by
  refine ⟨⟨h.mem, ?_, h.cycleCount, fun i hi => ?_⟩, ⟨h.output, h.accesses⟩, ?_⟩
  · rw [registersWrite_cpsr, registersWrite_cpsr, h.cpsr]
  · rw [registersWrite_genreg, registersWrite_genreg, h.bank i hi]
  · rw [registersWrite_cpsr, h.mode]

/-- The relation is kept where both sides trace an access, with a memory that is the same
afterwards. -/
theorem UserRelated.access (h : UserRelated p q p' q') (a : Access) (mem : Memory) :
    UserRelated p q { p' with mem, accesses := a :: p'.accesses }
      { q' with mem, accesses := a :: q'.accesses } := by
  obtain ⟨log, hp, hq⟩ := h.accesses
  refine ⟨⟨rfl, h.cpsr, h.cycleCount, h.bank⟩, ⟨h.output, a :: log, ?_, ?_⟩, h.mode⟩
  · exact congrArg _ hp
  · exact congrArg _ hq

/-- The relation is kept where both sides print the same byte. -/
theorem UserRelated.print (h : UserRelated p q p' q') (byte : Byte) :
    UserRelated p q { p' with output := byte :: p'.output }
      { q' with output := byte :: q'.output } := by
  obtain ⟨out, hp, hq⟩ := h.output
  refine ⟨⟨h.mem, h.cpsr, h.cycleCount, h.bank⟩, ⟨⟨byte :: out, ?_, ?_⟩, h.accesses⟩, h.mode⟩
  · exact congrArg _ hp
  · exact congrArg _ hq

/-- The relation is kept where both sides count a cycle. -/
theorem UserRelated.tick (h : UserRelated p q p' q') :
    UserRelated p q { p' with cycleCount := p'.cycleCount + 1 }
      { q' with cycleCount := q'.cycleCount + 1 } :=
  ⟨⟨h.mem, h.cpsr, congrArg (· + 1) h.cycleCount, h.bank⟩, ⟨h.output, h.accesses⟩, h.mode⟩

end

section
variable {p q : ArmCore} (endianess : Byte)

/-- The flags are not what makes the mode. -/
theorem flagsFree_user : FlagsFree fun v => v &&& 0x1F = 0x10 :=
  fun _ _ hc hv => (Bits.agree_mono hv (by decide)).trans hc

/-- In user mode there is no SPSR. -/
theorem registersCurrentModeHasSpsr_user {r : Registers} (h : registersGetMode r = USR) :
    registersCurrentModeHasSpsr r = (false, r) := by
  rw [registersCurrentModeHasSpsr, h]
  rfl

/-- The accessors respect the relation. -/
theorem simAccessors_user :
    SimAccessors (UserRelated p q) (fun _ => False) (fun v => v &&& 0x1F = 0x10) endianess
      endianess where
  hasSpsr := Sim.of_run run_armCurrentModeHasSpsr run_armCurrentModeHasSpsr fun s t h => by
    rw [registersCurrentModeHasSpsr_user h.mode_left, registersCurrentModeHasSpsr_user h.mode_right]
    exact ⟨rfl, h⟩
  privileged := Sim.of_run run_armInAPrivilegedMode run_armInAPrivilegedMode fun s t h => by
    rw [registersInAPrivilegedMode, registersInAPrivilegedMode, h.mode_left, h.mode_right]
    exact ⟨rfl, h⟩
  readRegister reg := Sim.of_run (fun s => run_armReadRegister s reg)
    (fun t => run_armReadRegister t reg) fun s t h => by
      rw [ArmCore.read, ArmCore.read, ArmCore.mode, ArmCore.mode, h.mode_left, h.mode_right]
      exact ⟨h.readInternal reg, h⟩
  readUsrRegister reg := Sim.of_run (fun s => run_armReadUsrRegister s reg)
    (fun t => run_armReadUsrRegister t reg) fun s t h => ⟨h.readInternal reg, h⟩
  readCpsr := Sim.of_run run_armReadCpsr run_armReadCpsr fun s t h => ⟨h.cpsr, h⟩
  readSpsr := Sim.of_run run_armReadSpsr run_armReadSpsr fun s t h => by
    rw [ArmCore.mode, ArmCore.mode, h.mode_left, h.mode_right]
    exact ⟨rfl, h⟩
  writeRegister reg value := Sim.of_run (fun s => run_armWriteRegister s reg value)
    (fun t => run_armWriteRegister t reg value) fun s t h => by
      rw [ArmCore.write, ArmCore.write, ArmCore.mode, ArmCore.mode, h.mode_left, h.mode_right]
      exact ⟨rfl, h.write reg value⟩
  writeUsrRegister reg value := Sim.of_run (fun s => run_armWriteUsrRegister s reg value)
    (fun t => run_armWriteUsrRegister t reg value) fun s t h => ⟨rfl, h.write reg value⟩
  writeCpsr value hV := Sim.of_run (fun s => run_armWriteCpsr s value)
    (fun t => run_armWriteCpsr t value) fun s t h =>
      ⟨rfl, ⟨h.mem, rfl, h.cycleCount, h.bank⟩, ⟨h.output, h.accesses⟩, hV⟩
  writeSpsr value := Sim.of_run (fun s => run_armWriteSpsr s value)
    (fun t => run_armWriteSpsr t value) fun s t h => by
      rw [ArmCore.mode, ArmCore.mode, h.mode_left, h.mode_right]
      exact ⟨rfl, h⟩
  restore := by
    refine fun hk hj => ⟨fun _ _ _ _ hb => hb, fun s t h a s' hr => ?_⟩
    rw [run_bind_of (run_armCurrentModeHasSpsr s), registersCurrentModeHasSpsr_user h.mode_left,
      if_neg Bool.false_ne_true] at hr
    rw [run_bind_of (run_armCurrentModeHasSpsr t), registersCurrentModeHasSpsr_user h.mode_right,
      if_neg Bool.false_ne_true]
    exact hj.2 s t h a s' hr
  readByte address value := Sim.of_run (fun s => run_armReadByte s address value)
    (fun t => run_armReadByte t address value) fun s t h => by
      rw [h.mem]
      exact ⟨rfl, h.access _ _⟩
  readHalf address value := Sim.of_run (fun s => run_armReadHalf s endianess address value)
    (fun t => run_armReadHalf t endianess address value) fun s t h => by
      rw [h.mem]
      exact ⟨rfl, h.access _ _⟩
  readWord address value := Sim.of_run (fun s => run_armReadWord s endianess address value)
    (fun t => run_armReadWord t endianess address value) fun s t h => by
      rw [h.mem]
      exact ⟨rfl, h.access _ _⟩
  writeByte address value := Sim.of_run (fun s => run_armWriteByte s address value)
    (fun t => run_armWriteByte t address value) fun s t h => by
      rw [h.mem]
      exact ⟨rfl, h.access _ _⟩
  writeHalf address value := Sim.of_run (fun s => run_armWriteHalf s endianess address value)
    (fun t => run_armWriteHalf t endianess address value) fun s t h => by
      rw [h.mem]
      exact ⟨rfl, h.access _ _⟩
  writeWord address value := Sim.of_run (fun s => run_armWriteWord s endianess address value)
    (fun t => run_armWriteWord t endianess address value) fun s t h => by
      rw [h.mem]
      exact ⟨rfl, h.access _ _⟩
  fetch value := Sim.of_run (fun s => run_armFetch s endianess value)
    (fun t => run_armFetch t endianess value) fun s t h => by
      rw [ArmCore.fetched, ArmCore.fetched, ArmCore.mode, ArmCore.mode, h.mode_left, h.mode_right,
        h.read, h.mem]
      exact ⟨rfl, ((h.write 15 _).access ⟨4, _⟩ _).tick⟩
  putchar value := Sim.of_run (fun s => run_putchar s value) (fun t => run_putchar t value)
    fun s t h => ⟨rfl, h.print _⟩
  current s hs := by
    rcases hs with hb | ⟨t, h⟩
    · exact hb.elim
    · exact h.mode

/-! ## The step -/

/-- Two related states agree after the entry into an exception. -/
theorem UserRelated.entered {p' q' : ArmCore} (h : UserRelated p q p' q')
    (cpsr offset vector : Word) :
    UserAgree (p'.entered cpsr offset vector) (q'.entered cpsr offset vector) ∧
      SameOutput p q (p'.entered cpsr offset vector) (q'.entered cpsr offset vector) := by
  have hp : p'.mode = USR := h.mode_left
  have hq : q'.mode = USR := h.mode_right
  refine ⟨⟨h.mem, ?_, h.cycleCount, fun i hi => ?_⟩, h.output, h.accesses⟩
  · rw [ArmCore.entered_cpsr, ArmCore.entered_cpsr]
  · rw [ArmCore.entered_genreg, ArmCore.entered_genreg, hp, hq, ArmCore.read, ArmCore.read, hp, hq,
      h.readInternal, h.bank i hi]

/-- **User-mode confidentiality.** From two states in user mode that differ only in the privileged
banks and the SPSRs, `arm_step` returns the same code, prints the same and makes the same accesses,
and leaves states that still agree. -/
theorem userMode_confidentiality (loc : Locals) (h : UserAgree p q) (hm : p.mode = USR) :
    ∃ c p' q', (armStep endianess loc).run p = some (c, p') ∧
      (armStep endianess loc).run q = some (c, q') ∧ UserAgree p' q' ∧ SameOutput p q p' q' := by
  have hmode : p.reg.cpsr &&& 0x1F = 0x10 := by
    rw [ArmCore.cpsr_and_mode, hm]
    rfl
  have hstart : UserRelated p q p q := ⟨h, ⟨⟨[], rfl, rfl⟩, ⟨[], rfl, rfl⟩⟩, hmode⟩
  have hacc := simAccessors_user (p := p) (q := q) endianess
  have hpriv : ∀ s, (False ∨ ∃ t, UserRelated p q s t) → registersInAPrivilegedMode s.reg ≠ 0 →
      ∀ v : Word, v &&& 0x1F = 0x10 := by
    rintro s (hb | ⟨t, hs⟩) hp
    · exact hb.elim
    · rw [registersInAPrivilegedMode, hs.mode_left] at hp
      exact absurd rfl hp
  obtain ⟨c, p₁, hrun, hc, -⟩ := armExecuteInstruction_run endianess loc p
  obtain hb | ⟨q₁, hrun', h₁⟩ :=
    (hacc.armExecuteInstruction loc flagsFree_user hpriv).2 p q hstart c p₁ hrun
  · exact hb.elim
  rw [run_armStep endianess loc hrun, run_armStep endianess loc hrun']
  simp only [instructionCodes, List.mem_cons, List.not_mem_nil, or_false] at hc
  rcases hc with rfl | rfl | rfl
  · exact ⟨_, p₁, q₁, rfl, rfl, h₁.toUserAgree, h₁.toSameOutput⟩
  · obtain ⟨hagree, hout⟩ := h₁.entered 0x193 0 0x04
    exact ⟨_, _, _, rfl, rfl, hagree, hout⟩
  · obtain ⟨c', p', hswi, -⟩ := armException_softwareInterrupt endianess loc p₁
    rcases (hacc.armException_softwareInterrupt loc).2 p₁ q₁ h₁ c' p' hswi with
      hb | ⟨q', hswi', h₂⟩
    · exact hb.elim
    · exact ⟨c', p', q', hswi, hswi', h₂.toUserAgree, h₂.toSameOutput⟩

end

/-- Two user states that differ in the SPSR of SVC: the instruction is `MRS r0, SPSR`. -/
def mrsUser : ArmCore := .initial 0x10 (.ofWords [0xE14F0000])

/-- The second one, with a secret. -/
def mrsUserSecret : ArmCore :=
  { mrsUser with reg := registersWriteSpsr mrsUser.reg SVC 0x5EC4E7 }

/-- The instruction tells them not apart. -/
theorem userMode_confidentiality_mrsUser :
    ∃ c p' q', (armStep 1 .zero).run mrsUser = some (c, p') ∧
      (armStep 1 .zero).run mrsUserSecret = some (c, q') ∧ UserAgree p' q' ∧
        SameOutput mrsUser mrsUserSecret p' q' :=
  userMode_confidentiality 1 .zero ⟨rfl, rfl, rfl, fun _ _ => rfl⟩ rfl

end ArmSimulator
