import ArmSimulator.Simulation
import ArmSimulator.Step

/-!
# Aborts

`arm_exception` can enter DATA_ABORT and PREFETCH_ABORT, and the accesses to the memory return a
code when they fail; but no caller looks at that code, so neither exception is ever raised. A load
or store outside the memory succeeds (`dataAbort_never`), and after a failed fetch the word that the
local variable held is executed (`prefetchAbort_never`).
-/

namespace ArmSimulator

open Prog

/-- A byte of the access lies outside a memory of the given size. -/
def Access.Outside (size : BitVec 64) (a : Access) : Prop :=
  ∃ i < a.size, size.toNat ≤ (a.address + BitVec.ofNat 32 i).toNat

section
variable (endianess : Byte) (loc : Locals)

/-- `arm_step` returns neither abort. -/
theorem armStep_code {p p' : ArmCore} {c : Byte}
    (h : (armStep endianess loc).run p = some (c, p')) :
    c ≠ dataAbort ∧ c ≠ prefetchAbort := by
  obtain ⟨_, _, ⟨rfl, -⟩ | ⟨hc, -⟩⟩ := armStep_cases endianess loc h
  · decide
  · have hall : ∀ c ∈ [successfullyDecoded, softwareInterrupt, endSimulation],
        c ≠ dataAbort ∧ c ≠ prefetchAbort := by decide
    exact hall c hc

/-! ## Data aborts -/

/-- The registers that a load writes, in the order of its accesses. -/
def destinations (ins : Word) : List Byte :=
  if getBits ins 27 25 = 0b100 then
    ((List.range 16).filter fun i => getBit (getBits ins 15 0) i).map fun i => BitVec.ofNat 8 i
  else [(getBits ins 15 12).setWidth 8]

/-- The register is a destination of a load whose access is outside the memory. The accesses `log`
are the last one first. -/
def FailedLoad (ins : Word) (size : BitVec 64) (log : List Access) (reg : Byte) : Prop :=
  getBit ins 20 = true ∧ ∃ i : Nat, ∃ a : Access, (destinations ins)[i]? = some reg ∧
    log.reverse[i]? = some a ∧ a.Outside size

/-- A data abort is due: the instruction fetched in `p` is a load or store that is executed, and not
undefined, and one of its accesses `log` is outside the memory. -/
structure DataAbortDue (p : ArmCore) (log : List Access) : Prop where
  mode : p.mode ∈ modes
  condition : conditionHolds (p.fetchedWord endianess loc >>> 28) p.reg.cpsr = true
  transfer : SingleTransfer (p.fetchedWord endianess loc) ∨
    MultipleTransfer (p.fetchedWord endianess loc)
  run : ∃ c p₁, (armExecuteInstruction endianess loc).run p = some (c, p₁) ∧
    c ≠ undefinedInstruction ∧ p₁.accesses = log ++ p.fetched.accesses
  outside : ∃ a ∈ log, a.Outside p.mem.size

/-- A data abort is taken and returned: the exception is entered from a state in which no
destination of a failed load has changed. -/
structure DataAborted (p : ArmCore) (log : List Access) (c : Byte) (p' : ArmCore) : Prop where
  code : c = dataAbort
  taken : ∃ p₁ : ArmCore, p' = p₁.entered 0x193 8 0x10 ∧
    ∀ reg, FailedLoad (p.fetchedWord endianess loc) p.mem.size log reg → ∀ mode,
      registersRead p₁.reg reg mode = registersRead p.fetched.reg reg mode

/-- What a handler of a transfer does to CPSR and returns. -/
def TransferResult (p : ArmCore) (c : Byte) (p' : ArmCore) : Prop :=
  c ∈ [successfullyDecoded, undefinedInstruction] ∧ p'.reg.cpsr = p.reg.cpsr

/-- A single transfer has one of the results of a transfer. -/
theorem armLoadStore_result (ins : Word) (p : ArmCore) :
    Ensures (armLoadStore endianess loc ins) p (TransferResult p) := by
  intro c p' hr
  refine ⟨returns_armLoadStore endianess loc ins p c p' hr, ?_⟩
  have hacc := simAccessors_cpsr (V := fun v => v = p.reg.cpsr) endianess
  exact cpsr_of_sim (hacc.armLoadStore loc ins) rfl hr

/-- A block transfer has one of the results of a transfer. -/
theorem armLoadStoreMultiple_result (ins : Word) (p : ArmCore) :
    Ensures (armLoadStoreMultiple endianess loc ins) p (TransferResult p) := by
  intro c p' hr
  refine ⟨returns_armLoadStoreMultiple endianess loc ins p c p' hr, ?_⟩
  have hacc := simAccessors_cpsr (V := fun v => v = p.reg.cpsr) endianess
  exact cpsr_of_sim (hacc.armLoadStoreMultiple loc ins) rfl hr

/-- The transfers are decoded to the two handlers. -/
theorem armDecode_transfer {ins : Word} (h : SingleTransfer ins ∨ MultipleTransfer ins)
    (p : ArmCore) : Ensures (armDecode endianess loc ins) p (TransferResult p) := by
  rcases h with h | h
  · rw [armDecode_singleTransfer endianess loc h]
    exact armLoadStore_result endianess loc ins p
  · rw [armDecode_multipleTransfer endianess loc h]
    exact armLoadStoreMultiple_result endianess loc ins p

/-- **No data abort is raised**: wherever one is due, `arm_step` returns success and leaves CPSR. -/
theorem dataAbort_never {p : ArmCore} {log : List Access} (h : DataAbortDue endianess loc p log) :
    ∃ p', (armStep endianess loc).run p = some (successfullyDecoded, p') ∧
      p'.reg.cpsr = p.reg.cpsr ∧
      ∀ c p', (armStep endianess loc).run p = some (c, p') →
        ¬ DataAborted endianess loc p log c p' := by
  obtain ⟨c, p₁, hrun, hdefined, -⟩ := h.run
  have hstep := run_armStep endianess loc hrun
  rw [run_armExecuteInstruction, if_pos h.condition] at hrun
  obtain ⟨hc, hcpsr⟩ := armDecode_transfer endianess loc h.transfer p.fetched c p₁ hrun
  obtain rfl : c = successfullyDecoded := by
    simp only [List.mem_cons, List.not_mem_nil, or_false] at hc
    exact hc.resolve_right hdefined
  refine ⟨p₁, hstep, hcpsr.trans (ArmCore.fetched_cpsr p), fun c p' hr ha => ?_⟩
  exact (armStep_code endianess loc hr).1 ha.code

/-! ## Prefetch aborts -/

/-- A prefetch abort is taken and returned, with no other effect than that of the fetch. -/
structure PrefetchAborted (p : ArmCore) (c : Byte) (p' : ArmCore) : Prop where
  code : c = prefetchAbort
  taken : p' = p.fetched.entered 0x193 4 0x0C

/-- A word that is not in the memory is not fetched, unless the memory has 1 or 2 bytes, where the
bound of the check wraps around. -/
theorem fetchedWord_outside {p : ArmCore}
    (h : Access.Outside p.mem.size ⟨4, registersRead p.reg 15 p.mode⟩)
    (hsize : 3 ≤ p.mem.size.toNat) : p.fetchedWord endianess loc = loc.instruction := by
  have hcheck : memoryCheck p.mem 3 (registersRead p.reg 15 p.mode) ≠ .success := by
    intro hc
    have h0 : p.mem.size ≠ 0 := by
      intro h0
      rw [h0] at hsize
      exact absurd hsize (by decide)
    have hsub : (p.mem.size - BitVec.ofNat 64 3).toNat = p.mem.size.toNat - 3 :=
      BitVec.toNat_sub_of_le hsize
    have hin : p.mem.inRange 3 (registersRead p.reg 15 p.mode) = true := by
      rw [memoryCheck, if_neg h0] at hc
      by_contra hno
      rw [if_neg hno] at hc
      cases hc
    rw [Memory.inRange, BitVec.ult, decide_eq_true_eq, hsub, BitVec.toNat_setWidth] at hin
    obtain ⟨i, hi, hout⟩ := h
    rw [BitVec.toNat_add, BitVec.toNat_ofNat] at hout
    simp only at hi hout
    omega
  rw [ArmCore.fetchedWord, memoryReadWord]
  split
  · next hc => exact absurd hc hcheck
  · rfl

/-- **No prefetch abort is raised**: where the PC is outside the memory, `arm_step` returns, but
never takes the exception; the word that it executes is the one the local held. -/
theorem prefetchAbort_never {p : ArmCore}
    (h : Access.Outside p.mem.size ⟨4, registersRead p.reg 15 p.mode⟩) :
    (∃ c p', (armStep endianess loc).run p = some (c, p')) ∧
      (∀ c p', (armStep endianess loc).run p = some (c, p') → ¬ PrefetchAborted p c p') ∧
      (3 ≤ p.mem.size.toNat → p.fetchedWord endianess loc = loc.instruction) := by
  refine ⟨?_, fun c p' hr ha => ?_, fetchedWord_outside endianess loc h⟩
  · obtain ⟨c, p', hr, -⟩ := armStep_run endianess loc p
    exact ⟨c, p', hr⟩
  · exact (armStep_code endianess loc hr).2 ha.code

end

/-! ## Two accesses outside the memory -/

/-- `LDR r0, [r1]` in a memory of one word, with r1 outside. -/
def failedLoad : ArmCore := (ArmCore.initial 0x13 (.ofWords [0xE5910000])).write 1 0x1000

/-- What the local that the word is loaded into holds. -/
def failedLocals : Locals := { Locals.zero with mot := 0xDEAD }

/-- A data abort is due. -/
theorem dataAbortDue_failedLoad : DataAbortDue 1 failedLocals failedLoad [⟨4, 0x1000⟩] := by
  have hrun : ((armExecuteInstruction 1 failedLocals).run failedLoad).map
      (fun r => (r.1, r.2.accesses)) = some (0, [⟨4, 0x1000⟩, ⟨4, 0⟩]) := by decide +kernel
  obtain ⟨⟨c, p₁⟩, hr, he⟩ := Option.map_eq_some_iff.1 hrun
  obtain ⟨hc, hlog⟩ := Prod.mk.inj he
  refine ⟨by decide, by decide +kernel, .inl (.inr (.inl (by decide +kernel))), ⟨c, p₁, hr, ?_, ?_⟩,
    ⟨4, 0x1000⟩, List.mem_cons_self, 0, by decide, by decide⟩
  · rw [show c = 0 from hc]
    decide
  · exact hlog

/-- The load from outside of the memory raises no data abort. -/
theorem dataAbort_never_failedLoad :
    ∃ p', (armStep 1 failedLocals).run failedLoad = some (successfullyDecoded, p') ∧
      p'.reg.cpsr = failedLoad.reg.cpsr ∧
      ∀ c p', (armStep 1 failedLocals).run failedLoad = some (c, p') →
        ¬ DataAborted 1 failedLocals failedLoad [⟨4, 0x1000⟩] c p' :=
  dataAbort_never 1 failedLocals dataAbortDue_failedLoad

/-- The load returns 0, and r0 is overwritten with what the local held. -/
theorem dataAbort_fails :
    DataAbortDue 1 failedLocals failedLoad [⟨4, 0x1000⟩] ∧
      ∃ p', (armStep 1 failedLocals).run failedLoad = some (0, p') ∧
        p'.reg.genreg 0 = 0xDEAD ∧
        ¬ DataAborted 1 failedLocals failedLoad [⟨4, 0x1000⟩] 0 p' := by
  have hrun : ((armStep 1 failedLocals).run failedLoad).map (fun r => (r.1, r.2.reg.genreg 0)) =
      some (0, 0xDEAD) := by decide +kernel
  obtain ⟨⟨c, p'⟩, hr, he⟩ := Option.map_eq_some_iff.1 hrun
  obtain ⟨rfl, hr0⟩ : c = 0 ∧ p'.reg.genreg 0 = 0xDEAD := Prod.mk.inj he
  exact ⟨dataAbortDue_failedLoad, p', hr, hr0, fun h => absurd h.code (by decide)⟩

/-- A processor whose PC is after a memory of one word. -/
def failedFetch : ArmCore := (ArmCore.initial 0x13 (.ofWords [0])).write 15 4

/-- `MOV r0, #1`, which the local of a fetch holds. -/
def staleMove : Locals := { Locals.zero with instruction := 0xE3A00001 }

/-- The failed fetch raises no prefetch abort: the stale instruction is executed. -/
theorem prefetchAbort_never_failedFetch :
    (∃ c p', (armStep 1 staleMove).run failedFetch = some (c, p')) ∧
      (∀ c p', (armStep 1 staleMove).run failedFetch = some (c, p') →
        ¬ PrefetchAborted failedFetch c p') ∧
      (3 ≤ failedFetch.mem.size.toNat → failedFetch.fetchedWord 1 staleMove = 0xE3A00001) :=
  prefetchAbort_never 1 staleMove ⟨0, by decide, by decide +kernel⟩

/-- The step after the failed fetch returns success and leaves 1 in r0. -/
theorem prefetchAbort_fails :
    Access.Outside failedFetch.mem.size ⟨4, registersRead failedFetch.reg 15 failedFetch.mode⟩ ∧
      ∃ p', (armStep 1 staleMove).run failedFetch = some (0, p') ∧ p'.reg.genreg 0 = 1 ∧
        ¬ PrefetchAborted failedFetch 0 p' := by
  have hrun : ((armStep 1 staleMove).run failedFetch).map (fun r => (r.1, r.2.reg.genreg 0)) =
      some (0, 1) := by decide +kernel
  obtain ⟨⟨c, p'⟩, hr, he⟩ := Option.map_eq_some_iff.1 hrun
  obtain ⟨rfl, hr0⟩ : c = 0 ∧ p'.reg.genreg 0 = 1 := Prod.mk.inj he
  exact ⟨⟨0, by decide, by decide +kernel⟩, p', hr, hr0, fun h => absurd h.code (by decide)⟩

end ArmSimulator
