import ArmSimulator.SpsrStore

/-!
# The general registers as a store

The architecture has 31 general registers, of which a mode sees 16. `PhysicalReg` names the 31, and
`physical` says which of them a register number means in a mode. `slot_eq_index` connects them to
the table of the register file: each has a word of its own there, at the offset of its bank plus its
number, and no two share one (`PhysicalReg.index_injective`). So the register file is a store of
physical registers.
-/

namespace ArmSimulator

/-- The banks: USR and SYS share one, and each exception mode has its own. -/
inductive Bank where
  | usr
  | svc
  | abt
  | und
  | irq
  | fiq
  deriving DecidableEq, Repr

/-- The bank of a mode; `none` for a mode that does not exist. -/
def Bank.ofMode (mode : Byte) : Option Bank :=
  if mode = USR ∨ mode = SYS then some .usr
  else if mode = SVC then some .svc
  else if mode = ABT then some .abt
  else if mode = UND then some .und
  else if mode = IRQ then some .irq
  else if mode = FIQ then some .fiq
  else none

/-- The 31 general registers: r0 to r7, r8 to r12 of FIQ and of the other modes, r13 and r14 of each
bank, and the PC. -/
inductive PhysicalReg where
  | low (n : Fin 8)
  | middle (fiq : Bool) (n : Fin 5)
  | high (bank : Bank) (n : Fin 2)
  | pc
  deriving DecidableEq, Repr

/-- The register that a number means in a mode. -/
def physical (reg mode : Byte) : Option PhysicalReg :=
  if h : reg.toNat < 8 then some (.low ⟨reg.toNat, h⟩)
  else if h : reg.toNat < 13 then
    (Bank.ofMode mode).map fun bank => .middle (bank = .fiq) ⟨reg.toNat - 8, by omega⟩
  else if h : reg.toNat < 15 then
    (Bank.ofMode mode).map fun bank => .high bank ⟨reg.toNat - 13, by omega⟩
  else if reg.toNat = 15 then some .pc
  else none

/-! ## The table -/

/-- The offset of a bank in the table. -/
def Bank.offset : Bank → Nat
  | .usr => usrIndex
  | .svc => svcIndex
  | .abt => abtIndex
  | .und => undIndex
  | .irq => irqIndex
  | .fiq => fiqIndex

/-- No bank begins behind 80. -/
theorem Bank.offset_le (b : Bank) : b.offset ≤ 80 := by
  cases b <;> decide

/-- The offsets are different multiples of 16. -/
theorem Bank.offset_div_injective {b b' : Bank} (h : b.offset / 16 = b'.offset / 16) : b = b' := by
  cases b <;> cases b' <;> first | rfl | exact absurd h (by decide)

/-- Every bank begins at a multiple of 16. -/
theorem Bank.offset_mod (b : Bank) : b.offset % 16 = 0 := by
  cases b <;> rfl

namespace PhysicalReg

/-- The bank that a register is kept in. -/
def bank : PhysicalReg → Bank
  | .low _ | .pc | .middle false _ => .usr
  | .middle true _ => .fiq
  | .high bank _ => bank

/-- The number of a register. -/
def number : PhysicalReg → Nat
  | .low n => n
  | .middle _ n => 8 + n
  | .high _ n => 13 + n
  | .pc => 15

/-- A physical register has one of sixteen numbers. -/
theorem number_lt (k : PhysicalReg) : k.number < 16 := by
  cases k <;> simp only [number] <;> omega

/-- The word of a register in the table. -/
def index (k : PhysicalReg) : Fin gregTable :=
  ⟨k.bank.offset + k.number,
    Nat.lt_of_lt_of_le (Nat.add_lt_add_of_le_of_lt k.bank.offset_le k.number_lt) (by decide)⟩

/-- A register is known by its bank and its number. -/
theorem eq_of_bank_of_number {k k' : PhysicalReg} (hb : k.bank = k'.bank)
    (hn : k.number = k'.number) : k = k' := by
  rcases k with n | ⟨_ | _, n⟩ | ⟨b, n⟩ | _ <;> rcases k' with n' | ⟨_ | _, n'⟩ | ⟨b', n'⟩ | _ <;>
    simp only [number, bank, reduceCtorEq] at hn hb <;> first | omega | skip
  · rw [Fin.ext hn]
  · rw [Fin.ext (Nat.add_left_cancel hn)]
  · rw [Fin.ext (Nat.add_left_cancel hn)]
  · rw [hb, Fin.ext (Nat.add_left_cancel hn)]
  · rfl

/-- No two registers share a word. -/
theorem index_injective {k k' : PhysicalReg} (h : k.index = k'.index) : k = k' := by
  have hval : k.bank.offset + k.number = k'.bank.offset + k'.number := congrArg Fin.val h
  have hk := k.number_lt
  have hk' := k'.number_lt
  have hmod := k.bank.offset_mod
  have hmod' := k'.bank.offset_mod
  exact eq_of_bank_of_number (Bank.offset_div_injective (by omega)) (by omega)

end PhysicalReg

/-- There are seven modes. -/
theorem mem_modes_iff {mode : Byte} : mode ∈ modes ↔ mode = USR ∨ mode = FIQ ∨ mode = IRQ ∨
    mode = SVC ∨ mode = ABT ∨ mode = UND ∨ mode = SYS := by
  simp only [modes, List.mem_cons, List.not_mem_nil, or_false]

/-- A mode that does not exist has no bank, and `mode_ind` finds none for it. -/
theorem Bank.ofMode_eq_none {mode : Byte} (h : mode ∉ modes) : Bank.ofMode mode = none := by
  simp only [mem_modes_iff, not_or] at h
  simp only [ofMode, h, or_self, if_false]

/-- The tests of `mode_ind` for r8 to r12 find the bank of the mode. -/
theorem ofMode_middle (mode : Byte) (n : Fin 5) :
    (if mode = FIQ then some fiqIndex
      else if mode = USR ∨ mode = SYS ∨ mode = SVC ∨ mode = ABT ∨ mode = UND ∨ mode = IRQ then
        some usrIndex
      else none) =
      (Bank.ofMode mode).map fun bank => (PhysicalReg.middle (bank = .fiq) n).bank.offset := by
  by_cases hm : mode ∈ modes
  · rcases mem_modes_iff.1 hm with rfl | rfl | rfl | rfl | rfl | rfl | rfl <;> rfl
  · rw [Bank.ofMode_eq_none hm]
    simp only [mem_modes_iff, not_or] at hm
    simp only [hm, or_self, if_false, Option.map_none]

/-- The tests of `mode_ind` for r13 and r14 find the bank of the mode. -/
theorem ofMode_high (mode : Byte) (n : Fin 2) :
    (if mode = USR ∨ mode = SYS then some usrIndex
      else if mode = SVC then some svcIndex
      else if mode = ABT then some abtIndex
      else if mode = UND then some undIndex
      else if mode = IRQ then some irqIndex
      else if mode = FIQ then some fiqIndex
      else none) =
      (Bank.ofMode mode).map fun bank => (PhysicalReg.high bank n).bank.offset := by
  by_cases hm : mode ∈ modes
  · rcases mem_modes_iff.1 hm with rfl | rfl | rfl | rfl | rfl | rfl | rfl <;> rfl
  · rw [Bank.ofMode_eq_none hm]
    simp only [mem_modes_iff, not_or] at hm
    simp only [hm, or_self, if_false, Option.map_none]

/-- `mode_ind` gives the offset of the bank. -/
theorem modeInd_eq_offset (reg mode : Byte) :
    modeInd reg mode = (physical reg mode).map fun k => k.bank.offset := by
  have hle : ∀ n : Byte, n ≤ reg ↔ n.toNat ≤ reg.toNat := fun _ => Iff.rfl
  have hge : ∀ n : Byte, reg ≤ n ↔ reg.toNat ≤ n.toNat := fun _ => Iff.rfl
  have h15 : reg = 15 ↔ reg.toNat = 15 := BitVec.toNat_eq
  -- the numbers that the tests of `mode_ind` compare with
  have hn : (7 : Byte).toNat = 7 ∧ (8 : Byte).toNat = 8 ∧ (12 : Byte).toNat = 12 ∧
    (13 : Byte).toNat = 13 ∧ (14 : Byte).toNat = 14 := by decide
  rw [modeInd, physical]
  simp only [hle, hge, h15, hn]
  by_cases h1 : reg.toNat < 8
  · rw [if_pos (Nat.le_of_lt_succ h1), dif_pos h1]
    rfl
  by_cases h2 : reg.toNat < 13
  · rw [if_neg (by omega), if_pos (by omega), dif_neg h1, dif_pos h2, Option.map_map]
    exact ofMode_middle mode _
  by_cases h3 : reg.toNat < 15
  · rw [if_neg (by omega), if_neg (by omega), if_pos (by omega), dif_neg h1, dif_neg h2, dif_pos h3,
      Option.map_map]
    exact ofMode_high mode _
  · rw [if_neg (by omega), if_neg (by omega), if_neg (by omega), dif_neg h1, dif_neg h2, dif_neg h3]
    by_cases h4 : reg.toNat = 15
    · rw [if_pos h4, if_pos h4]
      rfl
    · rw [if_neg h4, if_neg h4]
      rfl

/-- The register that a mode sees has the number by which it is named. -/
theorem number_physical {reg mode : Byte} {k : PhysicalReg} (h : physical reg mode = some k) :
    k.number = reg.toNat := by
  unfold physical at h
  split_ifs at h
  · cases h; rfl
  · obtain ⟨bank, -, rfl⟩ := Option.map_eq_some_iff.1 h
    simp only [PhysicalReg.number]
    omega
  · obtain ⟨bank, -, rfl⟩ := Option.map_eq_some_iff.1 h
    simp only [PhysicalReg.number]
    omega
  · cases h
    symm; assumption

/-- **The table of the register file**: a register is found at its own word. -/
theorem slot_eq_index (reg mode : Byte) :
    slot reg mode = (physical reg mode).map PhysicalReg.index := by
  have hmode := modeInd_eq_offset reg mode
  cases hk : physical reg mode with
  | none =>
    rw [hk] at hmode
    unfold slot
    split
    · next m hm => rw [hmode] at hm; cases hm
    · rfl
  | some k =>
    rw [hk] at hmode
    rw [slot_eq hmode]
    refine congrArg some (Fin.ext ?_)
    exact congrArg (k.bank.offset + ·) (number_physical hk).symm

/-! ## The store -/

/-- The write of `registers_write` to a general register; there is none where the register or the
mode does not exist. -/
def RegOp.regWrites : RegOp → List (PhysicalReg × Word)
  | .write reg mode value => ((physical reg mode).map fun k => (k, value)).toList
  | _ => []

/-- The register file as a store of the general registers. -/
def bankStore : Store Registers RegOp PhysicalReg Word where
  apply := RegOp.apply
  peek r k := r.genreg k.index
  writes _ op := op.regWrites

/-- What a register reads as is what the store holds. -/
theorem registersRead_eq_peek {reg mode : Byte} {k : PhysicalReg} (h : physical reg mode = some k)
    (r : Registers) : registersRead r reg mode = bankStore.peek r k := by
  rw [registersRead, slot_eq_index, h]
  rfl

/-- Every operation obeys the law of the store. -/
theorem bankStore_stepLaw (k : PhysicalReg) (r : Registers) (op : RegOp) :
    bankStore.StepLaw k r op := by
  cases op with
  | write reg mode value =>
    show (registersWrite r reg mode value).genreg k.index =
      (lastWrite (RegOp.regWrites (.write reg mode value)) k).getD (r.genreg k.index)
    rw [registersWrite_genreg, slot_eq_index, RegOp.regWrites]
    cases physical reg mode with
    | none => rfl
    | some k' =>
      have hiff : k'.index = k.index ↔ k' = k := ⟨PhysicalReg.index_injective, congrArg _⟩
      simp only [Option.map_some, Option.toList_some, lastWrite_cons, lastWrite_nil, Option.none_or,
        Option.some.injEq, hiff]
      split_ifs <;> rfl
  | writeSpsr mode value => exact congrFun (registersWriteSpsr_genreg r mode value) k.index
  | currentModeHasSpsr => exact congrFun (registersCurrentModeHasSpsr_genreg r) k.index
  | writeCpsr value => rfl
  | read reg mode => rfl
  | readCpsr => rfl
  | readSpsr mode => rfl
  | getMode => rfl
  | inAPrivilegedMode => rfl

/-- The registers r0 to r15 of an existing mode exist. -/
theorem physical_isSome {reg mode : Byte} (hr : reg ≤ 15) (hm : mode ∈ modes) :
    ∃ k, physical reg mode = some k := by
  have hslot := slot_isSome hr hm
  rw [slot_eq_index, Option.isSome_map] at hslot
  exact Option.isSome_iff_exists.1 hslot

/-- The banked registers of a mode that does not exist do not exist. -/
theorem slot_eq_none {reg mode : Byte} (h8 : 8 ≤ reg) (h14 : reg ≤ 14) (hm : mode ∉ modes) :
    slot reg mode = none := by
  have hge : 8 ≤ reg.toNat := h8
  have hle : reg.toNat ≤ 14 := h14
  rw [slot_eq_index, Option.map_eq_none_iff, physical, dif_neg (by omega), Bank.ofMode_eq_none hm]
  by_cases h13 : reg.toNat < 13
  · rw [dif_pos h13]
    rfl
  · rw [dif_neg h13, dif_pos (by omega)]
    rfl

/-- **Register banking.** After the operations on a new register file, a register of an existing
mode reads as the value last written to the physical register it is, or 0; in a mode that does not
exist, r8 to r14 are not written and read as 0; and no index is outside the table. -/
theorem registers_banking :
    (∀ ops reg mode, reg ≤ 15 → mode ∈ modes → ∃ k, physical reg mode = some k ∧
      registersRead (bankStore.run registersCreate ops) reg mode =
        (lastWrite (ops.flatMap RegOp.regWrites) k).getD 0) ∧
    (∀ r reg mode value, 8 ≤ reg → reg ≤ 14 → mode ∉ modes →
      registersWrite r reg mode value = r ∧ registersRead r reg mode = 0) ∧
    ∀ reg mode m, modeInd reg mode = some m → m + reg.toNat < gregTable := by
  refine ⟨fun ops reg mode hr hm => ?_, fun r reg mode value h8 h14 hm => ?_,
    fun reg mode m h => modeInd_add_lt h⟩
  · obtain ⟨k, hk⟩ := physical_isSome hr hm
    have hlaw := bankStore.law_of_invariant (I := fun _ => True) (fun _ _ _ => trivial)
      (fun s op _ => bankStore_stepLaw k s op) (s := registersCreate) trivial ops
    refine ⟨k, hk, ?_⟩
    rw [registersRead_eq_peek hk, hlaw,
      bankStore.history_eq_flatMap (f := RegOp.regWrites) fun _ _ => rfl]
    rfl
  · have hslot := slot_eq_none h8 h14 hm
    exact ⟨by rw [registersWrite, hslot], by rw [registersRead, hslot]⟩

/-- IRQ reads r8 after writes to r8 of FIQ and of USR. -/
theorem registers_banking_middle :
    ∃ k, physical 8 IRQ = some k ∧
      registersRead (bankStore.run registersCreate [.write 8 USR 7, .write 8 FIQ 5]) 8 IRQ =
        (lastWrite ([.write 8 USR 7, .write 8 FIQ 5].flatMap RegOp.regWrites) k).getD 0 :=
  registers_banking.1 [.write 8 USR 7, .write 8 FIQ 5] 8 IRQ (by decide) (by decide)

end ArmSimulator
