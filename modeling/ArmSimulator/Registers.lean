import ArmSimulator.Constants
import Mathlib.Logic.Function.Basic

/-!
# `registers.c`: the banked register file

The general registers of all modes live in one table of `gregTable` words. `modeInd` gives, for a
register number and a mode, the offset of the bank of that mode, and a register is found at its
bank's offset plus its number; `slot` is that index, which `modeInd_add_lt` keeps inside the table.
-/

namespace ArmSimulator

abbrev usrIndex : Nat := 0
abbrev svcIndex : Nat := 16
abbrev abtIndex : Nat := 32
abbrev undIndex : Nat := 48
abbrev irqIndex : Nat := 64
abbrev fiqIndex : Nat := 80

/-- `GREG_TABLE`. -/
abbrev gregTable : Nat := 96

/-- `STAT_REG`. -/
abbrev statReg : Nat := 5

/-- `struct registers_data`. -/
structure Registers where
  /-- The table of the general registers of all modes. -/
  genreg : Fin gregTable → Word
  /-- The current program status register. -/
  cpsr : Word
  /-- The saved program status registers, of FIQ, IRQ, SVC, ABT and UND in this order. -/
  rstat : Fin statReg → Word

/-- `registers_create`. -/
def registersCreate : Registers where
  genreg := fun _ => 0
  cpsr := 0
  rstat := fun _ => 0

/-- `registers_get_mode`. -/
def registersGetMode (r : Registers) : Byte := (r.cpsr &&& 0x1F).setWidth 8

/-- The index in `rstat` that the `switch (mode)` of `registers_mode_has_spsr`,
`registers_read_spsr` and `registers_write_spsr` selects; `none` is the `default` case. -/
def rstatInd (mode : Byte) : Option (Fin statReg) :=
  if mode = FIQ then some 0
  else if mode = IRQ then some 1
  else if mode = SVC then some 2
  else if mode = ABT then some 3
  else if mode = UND then some 4
  else none

/-- `registers_mode_has_spsr`. Where the mode has an SPSR, CPSR is saved into it. -/
def registersModeHasSpsr (r : Registers) (mode : Byte) : Bool × Registers :=
  match rstatInd mode with
  | some i => (true, { r with rstat := Function.update r.rstat i r.cpsr })
  | none => (false, r)

/-- `registers_current_mode_has_spsr`. -/
def registersCurrentModeHasSpsr (r : Registers) : Bool × Registers :=
  registersModeHasSpsr r (registersGetMode r)

/-- `registers_in_a_privileged_mode`: `SVC`, a non-zero value, or 0. -/
def registersInAPrivilegedMode (r : Registers) : Byte :=
  let mode := registersGetMode r
  if mode = FIQ ∨ mode = IRQ ∨ mode = SVC ∨ mode = ABT ∨ mode = UND ∨ mode = SYS then SVC
  else 0

/-- `mode_ind`; `none` is its `-1`, for a register number or a mode that does not exist. -/
def modeInd (reg mode : Byte) : Option Nat :=
  if reg ≤ 7 then some usrIndex
  else if 8 ≤ reg ∧ reg ≤ 12 then
    if mode = FIQ then some fiqIndex
    else if mode = USR ∨ mode = SYS ∨ mode = SVC ∨ mode = ABT ∨ mode = UND ∨ mode = IRQ then
      some usrIndex
    else none
  else if 13 ≤ reg ∧ reg ≤ 14 then
    if mode = USR ∨ mode = SYS then some usrIndex
    else if mode = SVC then some svcIndex
    else if mode = ABT then some abtIndex
    else if mode = UND then some undIndex
    else if mode = IRQ then some irqIndex
    else if mode = FIQ then some fiqIndex
    else none
  else if reg = 15 then some usrIndex
  else none

/-- The offsets of the six banks. -/
def bankOffsets : List Nat := [usrIndex, svcIndex, abtIndex, undIndex, irqIndex, fiqIndex]

/-- `modeInd` answers with the offset of a bank. -/
theorem modeInd_mem {reg mode : Byte} {m : Nat} (h : modeInd reg mode = some m) :
    m ∈ bankOffsets := by
  have hite : ∀ {c : Prop} [Decidable c] {x y : Option Nat}, x.all (· ∈ bankOffsets) = true →
      y.all (· ∈ bankOffsets) = true → (if c then x else y).all (· ∈ bankOffsets) = true := by
    intro c _ x y hx hy
    split
    · exact hx
    · exact hy
  have hall : (modeInd reg mode).all (· ∈ bankOffsets) = true := by
    unfold modeInd
    repeat' apply hite
    all_goals rfl
  rw [h] at hall
  exact of_decide_eq_true hall

/-- `mode_ind` answers only for a register 0 to 15. -/
theorem modeInd_le {reg mode : Byte} {m : Nat} (h : modeInd reg mode = some m) : reg ≤ 15 := by
  by_contra hr
  have hr' : ¬ reg.toNat ≤ 15 := hr
  have h7 : ¬ reg ≤ 7 := fun h7 => hr' (Nat.le_trans h7 (by decide))
  have h12 : ¬ (8 ≤ reg ∧ reg ≤ 12) := fun h12 => hr' (Nat.le_trans h12.2 (by decide))
  have h14 : ¬ (13 ≤ reg ∧ reg ≤ 14) := fun h14 => hr' (Nat.le_trans h14.2 (by decide))
  have h15 : ¬ reg = 15 := fun h15 => hr' (Nat.le_of_eq (congrArg BitVec.toNat h15))
  rw [modeInd, if_neg h7, if_neg h12, if_neg h14, if_neg h15] at h
  cases h

/-- The index of a register is inside the table. -/
theorem modeInd_add_lt {reg mode : Byte} {m : Nat} (h : modeInd reg mode = some m) :
    m + reg.toNat < gregTable := by
  have hr : reg.toNat ≤ 15 := modeInd_le h
  have hm : ∀ m ∈ bankOffsets, m ≤ 80 := by decide
  exact Nat.lt_of_le_of_lt (Nat.add_le_add (hm m (modeInd_mem h)) hr) (by decide)

/-- The index `Mindex + reg` in the table of a register of a mode. -/
def slot (reg mode : Byte) : Option (Fin gregTable) :=
  match h : modeInd reg mode with
  | some m => some ⟨m + reg.toNat, modeInd_add_lt h⟩
  | none => none

/-- `registers_read`. -/
def registersRead (r : Registers) (reg mode : Byte) : Word :=
  match slot reg mode with
  | some i => r.genreg i
  | none => 0

/-- `registers_read_cpsr`. -/
def registersReadCpsr (r : Registers) : Word := r.cpsr

/-- `registers_read_spsr`. -/
def registersReadSpsr (r : Registers) (mode : Byte) : Word :=
  match rstatInd mode with
  | some i => r.rstat i
  | none => 0

/-- `registers_write`. -/
def registersWrite (r : Registers) (reg mode : Byte) (value : Word) : Registers :=
  match slot reg mode with
  | some i => { r with genreg := Function.update r.genreg i value }
  | none => r

/-- `registers_write_cpsr`. -/
def registersWriteCpsr (r : Registers) (value : Word) : Registers := { r with cpsr := value }

/-- `registers_write_spsr`. -/
def registersWriteSpsr (r : Registers) (mode : Byte) (value : Word) : Registers :=
  match rstatInd mode with
  | some i => { r with rstat := Function.update r.rstat i value }
  | none => r

/-- Reads find what the table holds. -/
theorem registersRead_congr {r r' : Registers} (h : r'.genreg = r.genreg) (reg mode : Byte) :
    registersRead r' reg mode = registersRead r reg mode := by
  unfold registersRead
  rw [h]

/-! ## The physical registers -/

/-- The slot of a register is its bank's offset plus its number. -/
theorem slot_eq {reg mode : Byte} {m : Nat} (h : modeInd reg mode = some m) :
    slot reg mode = some ⟨m + reg.toNat, modeInd_add_lt h⟩ := by
  unfold slot
  split
  · next m' h' =>
    rw [h] at h'
    cases h'
    rfl
  · next h' =>
    rw [h] at h'
    cases h'

/-- A slot is the index of some bank offset. -/
theorem slot_some {reg mode : Byte} {i : Fin gregTable} (h : slot reg mode = some i) :
    ∃ m, modeInd reg mode = some m ∧ i.val = m + reg.toNat := by
  unfold slot at h
  split at h
  · next m hm => cases h; exact ⟨m, hm, rfl⟩
  · cases h

/-- The offsets of the banks are multiples of 16, so a slot determines the number of its
register. -/
theorem slot_mod {reg mode : Byte} {i : Fin gregTable} (h : slot reg mode = some i) :
    i.val % 16 = reg.toNat := by
  obtain ⟨m, hm, hi⟩ := slot_some h
  have hr : reg.toNat ≤ 15 := modeInd_le hm
  have h16 : ∀ m ∈ bankOffsets, m % 16 = 0 := by decide
  have := h16 m (modeInd_mem hm)
  omega

/-- Different registers have different slots. -/
theorem slot_ne {reg reg' mode mode' : Byte} (hr : reg ≠ reg') (h : (slot reg' mode').isSome) :
    slot reg mode ≠ slot reg' mode' := by
  intro he
  obtain ⟨i, hi⟩ := Option.isSome_iff_exists.1 h
  rw [hi] at he
  exact hr (BitVec.eq_of_toNat_eq ((slot_mod he).symm.trans (slot_mod hi)))

/-- The registers r0 to r15 of the seven modes exist. -/
theorem slot_isSome {reg mode : Byte} (hr : reg ≤ 15) (hm : mode ∈ modes) :
    (slot reg mode).isSome := by
  have hall : ∀ mode ∈ modes, ∀ n < 16, (modeInd (BitVec.ofNat 8 n) mode).isSome = true := by
    decide +kernel
  have hreg : BitVec.ofNat 8 reg.toNat = reg := by simp
  have hsome := hall mode hm reg.toNat (Nat.lt_succ_of_le hr)
  obtain ⟨m, hmode⟩ := Option.isSome_iff_exists.1 (hreg ▸ hsome)
  rw [slot_eq hmode]
  rfl

/-- The user bank is the first 16 words of the table. -/
theorem slot_usr {reg : Byte} {i : Fin gregTable} (h : slot reg USR = some i) : i.val < 16 := by
  obtain ⟨m, hm, hi⟩ := slot_some h
  have hr : reg.toNat ≤ 15 := modeInd_le hm
  have h0 : m = 0 := by
    have hfiq : ¬ USR = FIQ := by decide
    simp only [modeInd, hfiq, if_false, true_or, if_true] at hm
    split_ifs at hm
    all_goals exact (Option.some.inj hm).symm
  omega

/-- Only the seven modes have a r14. -/
theorem mem_modes_of_slot {mode : Byte} {i : Fin gregTable} (h : slot 14 mode = some i) :
    mode ∈ modes := by
  obtain ⟨m, hm, -⟩ := slot_some h
  rw [modeInd, if_neg (by decide), if_neg (by decide), if_pos (by decide)] at hm
  split_ifs at hm with husr hsvc habt hund hirq hfiq
  · rcases husr with rfl | rfl
    · decide
    · decide
  all_goals
    subst mode
    decide

/-- The PC is one register for all modes. -/
theorem slot_pc (mode : Byte) : slot 15 mode = some 15 :=
  slot_eq (m := 0) rfl

/-- The register r15 is the same one in every mode. -/
theorem registersRead_pc (r : Registers) (mode : Byte) : registersRead r 15 mode = r.genreg 15 := by
  rw [registersRead, slot_pc]

/-- The PC is no other register. -/
theorem slot_ne_pc {reg mode : Byte} (h : reg ≠ 15) : slot reg mode ≠ some 15 :=
  fun hs => h (BitVec.eq_of_toNat_eq (slot_mod hs).symm)

/-- The modes with an SPSR have each their own. -/
theorem rstatInd_exceptionModes {mode : Byte} (h : mode ∈ exceptionModes) :
    ∃ i, rstatInd mode = some i ∧ ∀ mode', rstatInd mode' = some i → mode' = mode := by
  simp only [exceptionModes, List.mem_cons, List.not_mem_nil, or_false] at h
  rcases h with rfl | rfl | rfl | rfl | rfl
  all_goals
    refine ⟨_, rfl, fun mode' h' => ?_⟩
    unfold rstatInd at h'
    split_ifs at h'
    all_goals first | assumption | exact absurd (Option.some.inj h') (by decide)

/-- Conversely, a mode with an SPSR is one of the five. -/
theorem mem_exceptionModes {mode : Byte} {i : Fin statReg} (h : rstatInd mode = some i) :
    mode ∈ exceptionModes := by
  unfold rstatInd at h
  split_ifs at h <;> simp_all [exceptionModes]

/-- The modes with an SPSR exist. -/
theorem mem_modes {mode : Byte} (h : mode ∈ exceptionModes) : mode ∈ modes := by
  have hall : ∀ mode ∈ exceptionModes, mode ∈ modes := by decide
  exact hall mode h

/-- A table after a write to one entry has the value there, and the other entries as before. -/
theorem update_slot {n : Nat} (table : Fin n → Word) (i j : Fin n) (value : Word) :
    Function.update table j value i = if some j = some i then value else table i := by
  simp only [Function.update_apply, Option.some.injEq]
  by_cases h : i = j
  · subst h; simp
  · rw [if_neg h, if_neg (Ne.symm h)]

section
variable (r : Registers) (reg mode : Byte) (value : Word)

/-- The write of a register keeps CPSR. -/
@[simp] theorem registersWrite_cpsr : (registersWrite r reg mode value).cpsr = r.cpsr := by
  unfold registersWrite; split <;> rfl

/-- The write of a register keeps the saved status registers. -/
@[simp] theorem registersWrite_rstat : (registersWrite r reg mode value).rstat = r.rstat := by
  unfold registersWrite; split <;> rfl

/-- The write of a register keeps the mode. -/
@[simp] theorem registersGetMode_registersWrite :
    registersGetMode (registersWrite r reg mode value) = registersGetMode r := by
  simp [registersGetMode]

/-- A write changes the slot of its register and no other. -/
theorem registersWrite_genreg (i : Fin gregTable) :
    (registersWrite r reg mode value).genreg i =
      if slot reg mode = some i then value else r.genreg i := by
  unfold registersWrite
  cases slot reg mode with
  | none => simp
  | some j => exact update_slot r.genreg i j value

/-- Only r15 is found where the PC is. -/
theorem registersWrite_pc :
    (registersWrite r reg mode value).genreg 15 = if reg = 15 then value else r.genreg 15 := by
  rw [registersWrite_genreg]
  by_cases h : reg = 15
  · rw [h, slot_pc, if_pos rfl, if_pos rfl]
  · rw [if_neg h, if_neg (slot_ne_pc h)]

/-- A register reads as the value written if both name one slot of the table, and else as before. -/
theorem registersRead_registersWrite (reg' mode' : Byte) :
    registersRead (registersWrite r reg mode value) reg' mode' =
      if slot reg mode = slot reg' mode' ∧ (slot reg' mode').isSome then value
      else registersRead r reg' mode' := by
  unfold registersRead
  cases h : slot reg' mode' with
  | none => simp
  | some i => simp [registersWrite_genreg]

/-- A write leaves the other registers of every mode. -/
theorem registersRead_registersWrite_ne {reg reg' : Byte} (hr : reg ≠ reg') (mode' : Byte) :
    registersRead (registersWrite r reg mode value) reg' mode' = registersRead r reg' mode' := by
  rw [registersRead_registersWrite, if_neg]
  rintro ⟨he, hs⟩
  exact slot_ne hr hs he

/-- A register that exists reads as what is written to it. -/
theorem registersRead_registersWrite_self (hs : (slot reg mode).isSome) :
    registersRead (registersWrite r reg mode value) reg mode = value := by
  rw [registersRead_registersWrite, if_pos ⟨rfl, hs⟩]

/-- Writing to a register that exists changes the table, unless it holds the value already. -/
theorem registersWrite_genreg_eq_iff (hs : (slot reg mode).isSome) :
    (registersWrite r reg mode value).genreg = r.genreg ↔ registersRead r reg mode = value := by
  obtain ⟨i, hi⟩ := Option.isSome_iff_exists.1 hs
  have hread : registersRead r reg mode = r.genreg i := by
    rw [registersRead, hi]
  rw [hread]
  constructor
  · intro h
    have := congrFun h i
    rw [registersWrite_genreg, if_pos hi] at this
    exact this.symm
  · intro h
    funext j
    rw [registersWrite_genreg, hi]
    split_ifs with hj
    · cases hj
      exact h.symm
    · rfl

/-- Two writes to one register leave the same table if they write the same, or if there is no such
register. -/
theorem registersWrite_genreg_inj (value' : Word) :
    (registersWrite r reg mode value).genreg = (registersWrite r reg mode value').genreg ↔
      slot reg mode = none ∨ value = value' := by
  cases hs : slot reg mode with
  | none =>
    refine iff_of_true (funext fun i => ?_) (.inl rfl)
    simp [registersWrite_genreg, hs]
  | some i =>
    constructor
    · intro h
      have := congrFun h i
      rw [registersWrite_genreg, registersWrite_genreg, if_pos hs, if_pos hs] at this
      exact .inr this
    · rintro (h | h)
      · cases h
      · rw [h]

/-- The write of CPSR keeps the general registers. -/
@[simp] theorem registersWriteCpsr_genreg : (registersWriteCpsr r value).genreg = r.genreg := rfl

/-- The write of CPSR keeps the saved status registers. -/
@[simp] theorem registersWriteCpsr_rstat : (registersWriteCpsr r value).rstat = r.rstat := rfl

/-- CPSR is what was written to it. -/
@[simp] theorem registersWriteCpsr_cpsr : (registersWriteCpsr r value).cpsr = value := rfl

/-- The write of an SPSR keeps the general registers. -/
@[simp] theorem registersWriteSpsr_genreg :
    (registersWriteSpsr r mode value).genreg = r.genreg := by
  unfold registersWriteSpsr; split <;> rfl

/-- The write of an SPSR keeps CPSR. -/
@[simp] theorem registersWriteSpsr_cpsr : (registersWriteSpsr r mode value).cpsr = r.cpsr := by
  unfold registersWriteSpsr; split <;> rfl

/-- A write to an SPSR changes that of its mode and no other. -/
theorem registersWriteSpsr_rstat (i : Fin statReg) :
    (registersWriteSpsr r mode value).rstat i =
      if rstatInd mode = some i then value else r.rstat i := by
  unfold registersWriteSpsr
  cases rstatInd mode with
  | none => simp
  | some j => exact update_slot r.rstat i j value

/-- Of two writes to one SPSR the second one stays. -/
theorem registersWriteSpsr_registersWriteSpsr (value' : Word) :
    registersWriteSpsr (registersWriteSpsr r mode value) mode value' =
      registersWriteSpsr r mode value' := by
  unfold registersWriteSpsr
  cases rstatInd mode with
  | none => rfl
  | some i => simp only [Function.update_idem]

/-- An SPSR reads as the value written if both modes have one SPSR in common, and else as before. -/
theorem registersReadSpsr_registersWriteSpsr {mode : Byte} (h : mode ∈ exceptionModes)
    (mode' : Byte) :
    registersReadSpsr (registersWriteSpsr r mode' value) mode =
      if mode' = mode then value else registersReadSpsr r mode := by
  obtain ⟨i, hi, huniq⟩ := rstatInd_exceptionModes h
  simp only [registersReadSpsr, hi, registersWriteSpsr_rstat]
  by_cases hm : mode' = mode
  · rw [if_pos hm, if_pos (hm ▸ hi)]
  · rw [if_neg hm, if_neg fun h' => hm (huniq mode' h')]

/-- The query whether a mode has an SPSR saves CPSR into it: it is a write to that SPSR. -/
theorem registersModeHasSpsr_eq :
    registersModeHasSpsr r mode = ((rstatInd mode).isSome, registersWriteSpsr r mode r.cpsr) := by
  unfold registersModeHasSpsr registersWriteSpsr
  cases rstatInd mode <;> rfl

/-- What the query saves is what a read of the SPSR then finds. -/
theorem registersReadSpsr_query (h : (registersCurrentModeHasSpsr r).1 = true) :
    registersReadSpsr (registersCurrentModeHasSpsr r).2
      (registersGetMode (registersCurrentModeHasSpsr r).2) = r.cpsr := by
  rw [registersCurrentModeHasSpsr, registersModeHasSpsr_eq] at h ⊢
  obtain ⟨i, hi⟩ := Option.isSome_iff_exists.1 h
  simp [registersReadSpsr, registersGetMode] at hi ⊢
  simp [hi, registersWriteSpsr_rstat]

/-- The query answers for the current mode, and leaves CPSR and the general registers. -/
theorem registersCurrentModeHasSpsr_fst :
    (registersCurrentModeHasSpsr r).1 = (rstatInd (registersGetMode r)).isSome := by
  rw [registersCurrentModeHasSpsr, registersModeHasSpsr_eq]

/-- The question for an SPSR keeps CPSR. -/
@[simp] theorem registersCurrentModeHasSpsr_cpsr :
    (registersCurrentModeHasSpsr r).2.cpsr = r.cpsr := by
  rw [registersCurrentModeHasSpsr, registersModeHasSpsr_eq, registersWriteSpsr_cpsr]

/-- The question for an SPSR keeps the general registers. -/
@[simp] theorem registersCurrentModeHasSpsr_genreg :
    (registersCurrentModeHasSpsr r).2.genreg = r.genreg := by
  rw [registersCurrentModeHasSpsr, registersModeHasSpsr_eq, registersWriteSpsr_genreg]

end

/-! ## Several registers -/

/-- Words written to registers of a mode, one after the other. -/
def writeWords (mode : Byte) (words : Nat → Word) (l : List Nat) (r : Registers) : Registers :=
  l.foldl (fun r i => registersWrite r (BitVec.ofNat 8 i) mode (words i)) r

section
variable {mode : Byte} {words : Nat → Word} {l : List Nat} {r : Registers}

/-- A register may be written with what it holds. -/
theorem registersWrite_registersRead (reg : Byte) :
    registersWrite r reg mode (registersRead r reg mode) = r := by
  unfold registersWrite registersRead
  cases slot reg mode with
  | none => rfl
  | some i =>
    show { r with genreg := Function.update r.genreg i (r.genreg i) } = r
    rw [Function.update_eq_self]

/-- The values that registers have already may be written back to them. -/
theorem writeWords_registersRead :
    writeWords mode (fun i => registersRead r (BitVec.ofNat 8 i) mode) l r = r := by
  induction l with
  | nil => rfl
  | cons i l ih =>
    show writeWords mode _ l (registersWrite r (BitVec.ofNat 8 i) mode _) = r
    rw [registersWrite_registersRead, ih]

/-- Numbers below 16 are different registers. -/
theorem ofNat_ne {i k : Nat} (hi : i < 16) (hk : k < 16) (h : i ≠ k) :
    BitVec.ofNat 8 i ≠ BitVec.ofNat 8 k := by
  intro he
  have hnat := congrArg BitVec.toNat he
  rw [BitVec.toNat_ofNat, BitVec.toNat_ofNat] at hnat
  omega

variable (mode words r) in
/-- **A register after the writes**, as another mode reads it: what was written, where the two modes
have one register in common. -/
theorem registersRead_writeWords {k : Nat} (hk : k < 16) (hl : ∀ i ∈ l, i < 16) (hnodup : l.Nodup)
    (mode' : Byte) (hs : (slot (BitVec.ofNat 8 k) mode').isSome) :
    registersRead (writeWords mode words l r) (BitVec.ofNat 8 k) mode' =
      if k ∈ l ∧ slot (BitVec.ofNat 8 k) mode = slot (BitVec.ofNat 8 k) mode' then words k
      else registersRead r (BitVec.ofNat 8 k) mode' := by
  induction l generalizing r with
  | nil => simp [writeWords]
  | cons i l ih =>
    obtain ⟨hi, hnodup'⟩ := List.nodup_cons.1 hnodup
    have hstep := ih (registersWrite r (BitVec.ofNat 8 i) mode (words i))
      (fun j hj => hl j (List.mem_cons_of_mem i hj)) hnodup'
    refine hstep.trans ?_
    by_cases hik : i = k
    · subst hik
      rw [registersRead_registersWrite]
      simp [hi, hs]
    · have hne := ofNat_ne (hl i List.mem_cons_self) hk hik
      rw [registersRead_registersWrite_ne r mode (words i) hne mode']
      simp [Ne.symm hik]

variable (mode words l r)

/-- The write of several registers keeps CPSR. -/
@[simp] theorem writeWords_cpsr : (writeWords mode words l r).cpsr = r.cpsr := by
  induction l generalizing r with
  | nil => rfl
  | cons i l ih => exact (ih _).trans (registersWrite_cpsr _ _ _ _)

/-- The write of several registers keeps the saved status registers. -/
@[simp] theorem writeWords_rstat : (writeWords mode words l r).rstat = r.rstat := by
  induction l generalizing r with
  | nil => rfl
  | cons i l ih => exact (ih _).trans (registersWrite_rstat _ _ _ _)

/-- The writes change the slots of their registers and no others. -/
theorem writeWords_genreg {j : Fin gregTable}
    (hj : ∀ i ∈ l, slot (BitVec.ofNat 8 i) mode ≠ some j) :
    (writeWords mode words l r).genreg j = r.genreg j := by
  induction l generalizing r with
  | nil => rfl
  | cons i l ih =>
    refine (ih _ fun i hi => hj i (List.mem_cons_of_mem _ hi)).trans ?_
    rw [registersWrite_genreg, if_neg (hj i List.mem_cons_self)]

/-- One more register is written after the others. -/
theorem writeWords_concat (i : Nat) :
    writeWords mode words (l ++ [i]) r =
      registersWrite (writeWords mode words l r) (BitVec.ofNat 8 i) mode (words i) := by
  rw [writeWords, List.foldl_append]
  rfl

end

end ArmSimulator
