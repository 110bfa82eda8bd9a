import ArmSimulator.Lib.History
import ArmSimulator.Registers

/-!
# The SPSRs as a store

Of the nine operations on a register file, only `registers_write_spsr` is meant to write an SPSR.
The query `registers_current_mode_has_spsr` does as well: it saves CPSR into the SPSR of the
current mode. `spsrLaw_iff` says exactly which sequences of operations obey the law of a store.
-/

namespace ArmSimulator

/-- The operations on a register file, with their arguments. -/
inductive RegOp where
  | write (reg mode : Byte) (value : Word)
  | writeCpsr (value : Word)
  | writeSpsr (mode : Byte) (value : Word)
  | read (reg mode : Byte)
  | readCpsr
  | readSpsr (mode : Byte)
  | getMode
  | inAPrivilegedMode
  | currentModeHasSpsr

/-- The register file after an operation. The reading operations have no assignment to it. -/
def RegOp.apply (r : Registers) : RegOp → Registers
  | .write reg mode value => registersWrite r reg mode value
  | .writeCpsr value => registersWriteCpsr r value
  | .writeSpsr mode value => registersWriteSpsr r mode value
  | .currentModeHasSpsr => (registersCurrentModeHasSpsr r).2
  | .read _ _ | .readCpsr | .readSpsr _ | .getMode | .inAPrivilegedMode => r

/-- What an operation is meant to write to an SPSR. -/
def RegOp.spsrWrites : RegOp → List (Byte × Word)
  | .writeSpsr mode value => [(mode, value)]
  | _ => []

/-- The SPSRs, under the mode they belong to. -/
def spsrStore : Store Registers RegOp Byte Word where
  apply := RegOp.apply
  peek := registersReadSpsr
  writes := fun _ op => op.spsrWrites

/-- After the operations on a new register file, every SPSR reads as the value last written to it,
or 0. -/
def SpsrLaw (ops : List RegOp) : Prop :=
  ∀ mode ∈ exceptionModes, registersReadSpsr (spsrStore.run registersCreate ops) mode =
    (lastWrite (ops.flatMap RegOp.spsrWrites) mode).getD 0

/-- An operation that saves nothing new: it is not the query, or the SPSR of the current mode, if it
has one, is equal to CPSR. -/
def SavesNothing (r : Registers) (op : RegOp) : Prop :=
  op = .currentModeHasSpsr → ∀ i, rstatInd (registersGetMode r) = some i → r.rstat i = r.cpsr

/-- Only the query can save something. -/
theorem SavesNothing.of_ne {r : Registers} {op : RegOp} (h : op ≠ .currentModeHasSpsr) :
    SavesNothing r op :=
  fun he => absurd he h

/-- The law of the SPSRs is the law of their store. -/
theorem spsrLaw_iff_law (ops : List RegOp) :
    SpsrLaw ops ↔ ∀ mode ∈ exceptionModes, spsrStore.Law mode registersCreate ops := by
  have hcreate : ∀ mode, registersReadSpsr registersCreate mode = 0 := by
    intro mode
    unfold registersReadSpsr
    split
    · rfl
    · rfl
  have hhistory := spsrStore.history_eq_flatMap (f := RegOp.spsrWrites) fun _ _ => rfl
  simp only [SpsrLaw, Store.Law, hhistory]
  simp only [spsrStore, hcreate]

/-- What one operation does: every operation but the query obeys the law, and the query obeys it
where it saves nothing new. -/
theorem stepLaw_iff (r : Registers) (op : RegOp) :
    (∀ mode ∈ exceptionModes, spsrStore.StepLaw mode r op) ↔ SavesNothing r op := by
  cases op with
  | currentModeHasSpsr =>
    have hread : ∀ mode ∈ exceptionModes, registersReadSpsr (registersCurrentModeHasSpsr r).2 mode =
        if registersGetMode r = mode then r.cpsr else registersReadSpsr r mode := by
      intro mode hm
      rw [registersCurrentModeHasSpsr, registersModeHasSpsr_eq,
        registersReadSpsr_registersWriteSpsr _ _ hm]
    constructor
    · intro h _ i hi
      have hm := mem_exceptionModes hi
      have hlaw : registersReadSpsr (registersCurrentModeHasSpsr r).2 (registersGetMode r) =
        registersReadSpsr r (registersGetMode r) := h _ hm
      rw [hread _ hm, if_pos rfl, registersReadSpsr, hi] at hlaw
      exact hlaw.symm
    · intro h mode hm
      show registersReadSpsr (registersCurrentModeHasSpsr r).2 mode = registersReadSpsr r mode
      rw [hread mode hm]
      by_cases hc : registersGetMode r = mode
      · obtain ⟨i, hi, -⟩ := rstatInd_exceptionModes hm
        rw [if_pos hc, registersReadSpsr, hi]
        exact (h rfl i (hc ▸ hi)).symm
      · rw [if_neg hc]
  | writeSpsr mode' value =>
    refine iff_of_true (fun mode hm => ?_) (.of_ne (by simp))
    show registersReadSpsr (registersWriteSpsr r mode' value) mode =
      (lastWrite [(mode', value)] mode).getD (registersReadSpsr r mode)
    rw [registersReadSpsr_registersWriteSpsr _ _ hm, lastWrite_cons]
    by_cases hc : mode' = mode
    · simp [hc]
    · simp [hc]
  | write reg mode' value =>
    refine iff_of_true (fun mode _ => ?_) (.of_ne (by simp))
    show registersReadSpsr (registersWrite r reg mode' value) mode = registersReadSpsr r mode
    simp [registersReadSpsr]
  | writeCpsr value => exact iff_of_true (fun _ _ => rfl) (.of_ne (by simp))
  | read reg mode' => exact iff_of_true (fun _ _ => rfl) (.of_ne (by simp))
  | readCpsr => exact iff_of_true (fun _ _ => rfl) (.of_ne (by simp))
  | readSpsr mode' => exact iff_of_true (fun _ _ => rfl) (.of_ne (by simp))
  | getMode => exact iff_of_true (fun _ _ => rfl) (.of_ne (by simp))
  | inAPrivilegedMode => exact iff_of_true (fun _ _ => rfl) (.of_ne (by simp))

/-- **The SPSR store law.** In a run on a new register file every state obeys the law if and only if
every call of `registers_current_mode_has_spsr` is made in a mode without SPSR, or while the SPSR
of the current mode is equal to CPSR. -/
theorem spsrLaw_iff (ops : List RegOp) :
    (∀ pre, pre <+: ops → SpsrLaw pre) ↔ spsrStore.Along SavesNothing registersCreate ops := by
  have hswap : (∀ pre, pre <+: ops → SpsrLaw pre) ↔
      ∀ mode ∈ exceptionModes, ∀ pre, pre <+: ops → spsrStore.Law mode registersCreate pre := by
    simp only [spsrLaw_iff_law]
    exact ⟨fun h mode hm pre hp => h pre hp mode hm, fun h pre hp mode hm => h mode hm pre hp⟩
  rw [hswap]
  simp only [Store.law_iff]
  constructor
  · intro h pre op hp
    exact (stepLaw_iff _ op).1 fun mode hm => h mode hm pre op hp
  · intro h mode hm pre op hp
    exact (stepLaw_iff _ op).2 (h pre op hp) mode hm

/-- In supervisor mode the query alone breaks the law: SPSR_svc, never written, reads as CPSR. -/
theorem spsrLaw_query_fails : ¬ SpsrLaw [.writeCpsr 0x13, .currentModeHasSpsr] := by
  intro h
  exact absurd (h SVC (by decide)) (by decide)

end ArmSimulator
