import ArmSimulator.Shifter
import ArmSimulator.BlockWords

/-!
# The single transfers

`arm_load_store` writes the addressing modes out four times, for the offsets of each family. They
are one: the base with the offset added or subtracted, before the transfer or after it
(`armLoadStore_singleTransferred`). For `P = 0` and `W = 1` two of the four have no case and leave
the address unassigned, so that the transfer is made at whatever the local held
(`addressed_iff`).

The shift of a register offset is written a second time, apart from the one of the data processing
instructions; the two agree (`shiftOperation_agrees`).
-/

namespace ArmSimulator

open Prog BarrelShifter

/-! ## The addressing modes -/

/-- The offset of a single transfer: an immediate one of 12 bits, or of 8 bits in two fields, a
register, or a register shifted by an immediate amount. -/
def singleOffset (ins : Word) (p : ArmCore) : Word :=
  if getBits ins 27 25 = 0b010 then getBits ins 11 0
  else if getBits ins 27 25 = 0b011 then
    (immediateShift (shiftKind ins) (p.read (rmField ins)) (getBits ins 11 7).toNat
      (getBit p.reg.cpsr Flag.C)).1
  else if getBit ins 22 then (getBits ins 11 8 <<< 4) ||| getBits ins 3 0
  else p.read (rmField ins)

/-- The base with the offset, added for `U = 1` and else subtracted. -/
def singleSum (ins : Word) (p : ArmCore) : Word :=
  if getBit ins 23 then p.read (rnField ins) + singleOffset ins p
  else p.read (rnField ins) - singleOffset ins p

/-- The address of the transfer: that sum for `P = 1`, and else the base. -/
def singleAddress (ins : Word) (p : ArmCore) : Word :=
  if getBit ins 24 then singleSum ins p else p.read (rnField ins)

/-- The base is updated for `P = 0` and for `W = 1`. -/
abbrev BaseUpdated (ins : Word) : Prop := getBit ins 24 = false ∨ getBit ins 21 = true

/-- `P = 0` and `W = 1`, which the addressing modes do not have. -/
abbrev NoIndexing (ins : Word) : Prop := getBit ins 24 = false ∧ getBit ins 21 = true

section
variable {ins : Word} {p : ArmCore}

/-- `shift_operation` makes the shift of the architecture. -/
theorem scaledIndex_eq (cpsr x : Word) :
    scaledIndex cpsr x ((getBits ins 6 5).setWidth 8) (getBits ins 11 7) =
      (immediateShift (shiftKind ins) x (getBits ins 11 7).toNat (getBit cpsr Flag.C)).1 := by
  have hlt : (getBits ins 11 7).toNat < 32 := by
    rw [toNat_getBits]
    exact Nat.mod_lt _ (by decide)
  have hbyte : ((getBits ins 11 7).setWidth 8 : Byte).toNat = (getBits ins 11 7).toNat :=
    toNat_setWidth_getBits ins (by decide)
  generalize getBits ins 11 7 = n at hlt hbyte
  generalize hc : getBit cpsr Flag.C = c
  unfold shiftKind
  rw [getBits_pair ins 5]
  by_cases h : n = 0
  · -- LSL #0 leaves the register, and the other kinds have their own meaning
    subst h
    cases getBit ins 6 with
    | false =>
      cases getBit ins 5 with
      | false => exact BitVec.shiftLeft_zero x
      | true => exact (value_lsr_of_le x (Nat.le_refl 32)).symm
    | true =>
      cases getBit ins 5 with
      | false =>
        show (if getBit x 31 = true then 0xFFFFFFFF else 0) = value .asr x 32
        have hsign : (asrSign x).1 = value .asr x 32 :=
          congrArg Prod.fst (asrSign_eq x (Nat.le_refl 32))
        rw [← hsign, asrSign]
        cases getBit x 31 with
        | false => rfl
        | true => rfl
      | true =>
        show ((if getBit cpsr Flag.C then (1 : Word) else 0) <<< 31) ||| (x >>> 1) = (rrx x c).1
        rw [hc, rrx_fst x c (by decide)]
        cases c with
        | false => rfl
        | true => rfl
  · have h0 : n.toNat ≠ 0 := fun he => h (BitVec.eq_of_toNat_eq he)
    have hshift : ∀ kind, (immediateShift kind x n.toNat c).1 = value kind x n.toNat := by
      intro kind
      rw [immediateShift.eq_def, if_neg h0, shift_of_ne h0]
    rw [hshift]
    cases getBit ins 6 with
    | false =>
      cases getBit ins 5 with
      | false => exact (value_lsl x n.toNat).symm
      | true => exact (if_neg h).trans (value_lsr x n.toNat).symm
    | true =>
      cases getBit ins 5 with
      | false => exact (if_neg h).trans ((asr_eq x (hbyte.symm ▸ hlt)).trans (by rw [hbyte]; rfl))
      | true => exact (if_neg h).trans ((ror_eq x (hbyte.symm ▸ hlt)).trans (by rw [hbyte]; rfl))

/-- The offset of the code is that of the architecture. -/
theorem transferOffset_eq : transferOffset ins p = singleOffset ins p := by
  have hplain : getBits ins 11 4 = 0 →
      scaledIndex p.reg.cpsr (p.read (rmField ins)) ((getBits ins 6 5).setWidth 8)
        (getBits ins 11 7) = p.read (rmField ins) := by
    intro h
    have hkind : getBits ins 6 5 = 0 := getBits_eq_zero h (by decide) (by decide) (by decide)
    have hamount : getBits ins 11 7 = 0 := getBits_eq_zero h (by decide) (by decide) (by decide)
    rw [hkind, hamount]
    exact BitVec.shiftLeft_zero _
  unfold transferOffset singleOffset
  rw [← scaledIndex_eq]
  split_ifs with h2 h3 h11
  · rfl
  · exact (hplain h11).symm
  · rfl
  · rfl
  · rfl

/-- The address that is computed is the base with the offset added or subtracted. -/
theorem transferSum_eq : transferSum ins p = singleSum ins p := by
  rw [transferSum, transferOffset_eq]
  rfl

/-- Where the word has a case for its indexing, the address of the code is that of the architecture.
-/
theorem transferAddress_eq (loc : Locals) (h : ¬ NoIndexing ins) :
    transferAddress loc ins p = singleAddress ins p := by
  rw [transferAddress, singleAddress, transferSum_eq]
  cases hP : getBit ins 24 with
  | true => rfl
  | false =>
    cases hW : getBit ins 21 with
    | true => exact absurd ⟨hP, hW⟩ h
    | false => rfl

/-- Where the word has a case for its indexing, the update of the base is that of the architecture.
-/
theorem written_transferBase (h : ¬ NoIndexing ins) :
    p.written (transferBase ins p) =
      p.writeIf (decide (BaseUpdated ins)) (rnField ins) (singleSum ins p) := by
  have hiff : getBit ins 24 = getBit ins 21 ↔ BaseUpdated ins := by
    cases hP : getBit ins 24 with
    | true =>
      rw [BaseUpdated, hP, or_iff_right (by decide)]
      exact eq_comm
    | false =>
      cases hW : getBit ins 21 with
      | true => exact absurd ⟨hP, hW⟩ h
      | false => exact iff_of_true rfl (.inl hP)
  rw [transferBase, transferSum_eq, ArmCore.writeIf]
  by_cases hb : BaseUpdated ins
  · rw [if_pos (hiff.2 hb), if_pos (decide_eq_true hb)]
    rfl
  · rw [if_neg fun he => hb (hiff.1 he), decide_eq_false hb]
    rfl

end

/-! ## The transfer -/

/-- The number of bits that a single transfer moves. -/
def transferWidth (ins : Word) : Nat :=
  if getBits ins 27 25 = 0b000 then 16 else if getBit ins 22 then 8 else 32

section
variable {ins : Word}

/-- A transfer of a halfword moves 16 bits. -/
theorem transferWidth_half (h0 : getBits ins 27 25 = 0b000) : transferWidth ins = 16 := if_pos h0

/-- A transfer of a byte moves 8 bits. -/
theorem transferWidth_byte (h0 : ¬ getBits ins 27 25 = 0b000) (hB : getBit ins 22 = true) :
    transferWidth ins = 8 := by
  rw [transferWidth, if_neg h0, if_pos hB]

/-- A transfer of a word moves 32 bits. -/
theorem transferWidth_word (h0 : ¬ getBits ins 27 25 = 0b000) (hB : getBit ins 22 = false) :
    transferWidth ins = 32 := by
  rw [transferWidth, if_neg h0, hB]
  rfl

end

/-- Of the halfword transfers, `LDRH` and `STRH`. -/
abbrev UnsignedHalf (ins : Word) : Prop :=
  getBits ins 27 25 = 0b000 → getBit ins 6 = false ∧ getBit ins 5 = true

section
variable (endianess : Byte) (loc : Locals) {ins address : Word} {q : ArmCore}

/-- The load: `Rd` is the value found, extended by zeros. -/
theorem run_transferAt_load (hhalf : UnsignedHalf ins) (hL : getBit ins 20 = true)
    (hholds : q.mem.Holds address (transferWidth ins / 8)) :
    ∃ accesses, (transferAt endianess loc ins address).run q = some (0,
      { q with accesses }.write (rdField ins)
        ((q.mem.value (transferWidth ins) endianess address).setWidth 32)) := by
  unfold transferAt
  by_cases h0 : getBits ins 27 25 = 0b000
  · obtain ⟨hS, hH⟩ := hhalf h0
    rw [transferWidth_half h0] at hholds ⊢
    rw [if_pos h0, hL, hS, hH]
    have hread := hholds.memoryReadHalf_eq endianess loc.half
    refine ⟨⟨2, address⟩ :: q.accesses, ?_⟩
    exact (run_bind_of (run_armReadHalf q endianess address loc.half)).trans (by rw [hread]; rfl)
  · rw [if_neg h0, hL]
    unfold loadStore
    cases hB : getBit ins 22 with
    | true =>
      rw [transferWidth_byte h0 hB] at hholds ⊢
      have hread := hholds.memoryReadByte_eq endianess loc.octet
      refine ⟨⟨1, address⟩ :: q.accesses, ?_⟩
      exact (run_bind_of (run_armReadByte q address loc.octet)).trans (by rw [hread]; rfl)
    | false =>
      rw [transferWidth_word h0 hB] at hholds ⊢
      have hread := hholds.memoryReadWord_eq endianess loc.mot
      rw [BitVec.setWidth_eq]
      refine ⟨⟨4, address⟩ :: q.accesses, ?_⟩
      exact (run_bind_of (run_armReadWord q endianess address loc.mot)).trans (by rw [hread]; rfl)

/-- A store writes the low bits of `Rd`. -/
theorem run_transferAt_store (hhalf : UnsignedHalf ins) (hL : getBit ins 20 = false)
    (hholds : q.mem.Holds address (transferWidth ins / 8)) :
    ∃ accesses mem, (transferAt endianess loc ins address).run q =
        some (0, { q with accesses, mem }) ∧
      Memory.Wrote endianess address ((q.read (rdField ins)).setWidth (transferWidth ins)) q.mem
        mem := by
  unfold transferAt
  by_cases h0 : getBits ins 27 25 = 0b000
  · obtain ⟨hS, hH⟩ := hhalf h0
    rw [transferWidth_half h0] at hholds ⊢
    rw [if_pos h0, hL, hS, hH]
    exact ⟨_, _, rfl, hholds.memoryWriteHalf_wrote endianess _⟩
  · rw [if_neg h0, hL]
    cases hB : getBit ins 22 with
    | true =>
      rw [transferWidth_byte h0 hB] at hholds ⊢
      exact ⟨_, _, rfl, hholds.memoryWriteByte_wrote endianess _⟩
    | false =>
      rw [transferWidth_word h0 hB] at hholds ⊢
      rw [BitVec.setWidth_eq]
      exact ⟨_, _, rfl, hholds.memoryWriteWord_wrote endianess _⟩

/-- A transfer makes one access, at the address that it is given. -/
theorem run_transferAt_access (hhalf : UnsignedHalf ins) (address : Word) :
    ∃ q', (transferAt endianess loc ins address).run q = some (0, q') ∧
      q'.accesses = ⟨transferWidth ins / 8, address⟩ :: q.accesses := by
  unfold transferAt
  by_cases h0 : getBits ins 27 25 = 0b000
  · obtain ⟨hS, hH⟩ := hhalf h0
    rw [if_pos h0, hS, hH, transferWidth_half h0]
    cases getBit ins 20 with
    | false => exact ⟨_, rfl, rfl⟩
    | true => exact ⟨_, rfl, rfl⟩
  · have hw : transferWidth ins = if getBit ins 22 then 8 else 32 := if_neg h0
    rw [if_neg h0, hw]
    cases getBit ins 20 with
    | false =>
      cases getBit ins 22 with
      | false => exact ⟨_, rfl, rfl⟩
      | true => exact ⟨_, rfl, rfl⟩
    | true =>
      cases getBit ins 22 with
      | false => exact ⟨_, rfl, rfl⟩
      | true => exact ⟨_, rfl, rfl⟩

end

/-! ## The instruction -/

/-- What a single transfer makes of the state `p`. -/
structure SingleTransferred (endianess : Byte) (ins : Word) (p p' : ArmCore) : Prop where
  base : BaseUpdated ins → p'.read (rnField ins) = singleSum ins p
  /-- A load extends the value found by zeros, and leaves the memory. -/
  loaded : getBit ins 20 = true → registersRead p'.reg (rdField ins) p.mode =
    (p.mem.value (transferWidth ins) endianess (singleAddress ins p)).setWidth 32
  unstored : getBit ins 20 = true → p'.mem = p.mem
  /-- A store writes the low bits of `Rd`, and nothing else. -/
  stored : getBit ins 20 = false → Memory.Wrote endianess (singleAddress ins p)
    ((p.read (rdField ins)).setWidth (transferWidth ins)) p.mem p'.mem
  /-- The other registers are as before. -/
  genreg : ∀ j, (getBit ins 20 = true → slot (rdField ins) p.mode ≠ some j) →
    (BaseUpdated ins → slot (rnField ins) p.mode ≠ some j) → p'.reg.genreg j = p.reg.genreg j
  cpsr : p'.reg.cpsr = p.reg.cpsr
  rstat : p'.reg.rstat = p.reg.rstat

section
variable (endianess : Byte) (loc : Locals) {ins : Word} {p : ArmCore}

/-- **A single transfer** moves one unit between the register and the memory, and updates the base
as its indexing says. -/
theorem armLoadStore_singleTransferred (hm : p.mode ∈ modes) (h : SingleTransfer ins)
    (hhalf : UnsignedHalf ins) (hindex : ¬ NoIndexing ins) (hrn : rnField ins ≠ 15)
    (hrd : BaseUpdated ins → rdField ins ≠ rnField ins)
    (hholds : p.mem.Holds (singleAddress ins p) (transferWidth ins / 8)) :
    ∃ p', (armLoadStore endianess loc ins).run p = some (0, p') ∧
      SingleTransferred endianess ins p p' := by
  let q := p.writeIf (decide (BaseUpdated ins)) (rnField ins) (singleSum ins p)
  have hrun : (armLoadStore endianess loc ins).run p =
      (transferAt endianess loc ins (singleAddress ins p)).run q := by
    rw [run_armLoadStore endianess loc h, transferAddress_eq loc hindex,
      written_transferBase hindex, if_neg]
    rintro ⟨h0, href⟩
    rw [TransferRefused, if_neg h0] at href
    exact hindex href.2
  have hq : q.mode = p.mode := ArmCore.writeIf_mode _ _ _ _
  have hmem : q.mem = p.mem := ArmCore.writeIf_mem _ _ _ _
  have hbase : BaseUpdated ins → q.read (rnField ins) = singleSum ins p := by
    intro hb
    show (p.writeIf (decide (BaseUpdated ins)) (rnField ins) (singleSum ins p)).read _ = _
    rw [decide_eq_true hb]
    exact ArmCore.read_write_self hm (getBits_le ins 16) hrn
  have hgenreg : ∀ j, (BaseUpdated ins → slot (rnField ins) p.mode ≠ some j) →
      q.reg.genreg j = p.reg.genreg j :=
    fun j hj => ArmCore.writeIf_genreg fun hb => hj (of_decide_eq_true hb)
  rw [hrun]
  cases hL : getBit ins 20 with
  | true =>
    obtain ⟨accesses, hload⟩ := run_transferAt_load endianess loc hhalf hL (hmem ▸ hholds)
    rw [hmem] at hload
    refine ⟨_, hload, ?_⟩
    constructor
    case base => exact fun hb => (ArmCore.read_write_ne (hrd hb)).trans (hbase hb)
    case loaded =>
      intro _
      rw [← hq]
      exact registersRead_registersWrite_self _ _ _ _ (slot_isSome (getBits_le ins 12) (hq ▸ hm))
    case unstored => exact fun _ => rfl
    case stored =>
      intro h
      exact absurd (h.symm.trans hL) Bool.false_ne_true
    case genreg =>
      intro j hrd hrn
      refine (registersWrite_genreg _ _ _ _ _).trans ((if_neg ?_).trans (hgenreg j hrn))
      exact (congrArg (slot (rdField ins)) hq) ▸ hrd hL
    case cpsr => exact (registersWrite_cpsr _ _ _ _).trans (ArmCore.writeIf_cpsr _ _ _ _)
    case rstat => exact (registersWrite_rstat _ _ _ _).trans (ArmCore.writeIf_rstat _ _ _ _)
  | false =>
    obtain ⟨accesses, mem, hstore, hwrote⟩ :=
      run_transferAt_store endianess loc hhalf hL (hmem ▸ hholds)
    have hread : q.read (rdField ins) = p.read (rdField ins) :=
      ArmCore.read_writeIf_ne fun hb he => hrd (of_decide_eq_true hb) he.symm
    rw [hmem, hread] at hwrote
    refine ⟨_, hstore, ?_⟩
    constructor
    case base => exact hbase
    case loaded =>
      intro h
      exact absurd (hL.symm.trans h) Bool.false_ne_true
    case unstored =>
      intro h
      exact absurd (hL.symm.trans h) Bool.false_ne_true
    case stored => exact fun _ => hwrote
    case genreg => exact fun j _ hrn => hgenreg j hrn
    case cpsr => exact ArmCore.writeIf_cpsr _ _ _ _
    case rstat => exact ArmCore.writeIf_rstat _ _ _ _

end

/-- `STRB r1, [r2, r3, RRX]!` with r2 = 4 and r3 = 3, where the offset is 1. -/
def storeByte : ArmCore := ((ArmCore.initial 0x13 (.ofWords [0, 0])).write 2 4).write 3 3

/-- The byte is stored at 5. -/
theorem singleTransferred_storeByte :
    ∃ p', (armLoadStore 1 .zero 0xE7E21063).run storeByte = some (0, p') ∧
      SingleTransferred 1 0xE7E21063 storeByte p' :=
  armLoadStore_singleTransferred 1 .zero (by decide) (.inr (.inr (by decide))) (by decide)
    (by decide) (by decide) (by decide) ⟨by decide, by decide⟩

/-! ## The assignment of the address -/

/-- The transfer is made at an address that has not been assigned: with a scaled offset, or of a
half. -/
def Unassigned (ins : Word) : Prop :=
  NoIndexing ins ∧ ((getBits ins 27 25 = 0b011 ∧ getBits ins 11 4 ≠ 0) ∨
    (getBits ins 27 25 = 0b000 ∧ getBit ins 6 = false ∧ getBit ins 5 = true))

/-- Every access has an address: what the local held before does not matter, and without a case for
its indexing the instruction is refused. -/
structure Addressed (endianess : Byte) (loc : Locals) (ins : Word) (p : ArmCore) : Prop where
  assigned : ∀ address, (armLoadStore endianess { loc with address } ins).run p =
    (armLoadStore endianess loc ins).run p
  refused : NoIndexing ins →
    ∃ p', (armLoadStore endianess loc ins).run p = some (undefinedInstruction, p')

section
variable (endianess : Byte) (loc : Locals) {ins : Word} {p : ArmCore}

/-- Without a case for the indexing, the others are refused. -/
theorem unassigned_iff (h : SingleTransfer ins) (hindex : NoIndexing ins) :
    Unassigned ins ↔ ¬ TransferRefused ins := by
  rw [Unassigned, and_iff_right hindex]
  rcases h with ⟨h0, -⟩ | h2 | ⟨h3, -⟩
  · rw [TransferRefused, if_pos h0, not_not, and_iff_right h0]
    exact or_iff_right fun h => ne_of_eq_of_ne h0 (by decide) h.1
  · rw [TransferRefused, if_neg (ne_of_eq_of_ne h2 (by decide))]
    refine iff_of_false ?_ (not_not.2 ⟨.inl h2, hindex⟩)
    rintro (h | h)
    · exact ne_of_eq_of_ne h2 (by decide) h.1
    · exact ne_of_eq_of_ne h2 (by decide) h.1
  · have h0 : getBits ins 27 25 ≠ 0b000 := ne_of_eq_of_ne h3 (by decide)
    have h2 : getBits ins 27 25 ≠ 0b010 := ne_of_eq_of_ne h3 (by decide)
    rw [TransferRefused, if_neg h0, and_iff_left hindex, and_iff_right h3, or_iff_right h2]
    exact or_iff_left fun h => h0 h.1

/-- A transfer without an assigned address is made at whatever the local held. -/
theorem unassigned_access (h : SingleTransfer ins) (hun : Unassigned ins) :
    ∃ p', (armLoadStore endianess loc ins).run p = some (0, p') ∧
      p'.accesses = ⟨transferWidth ins / 8, loc.address⟩ :: p.accesses := by
  obtain ⟨hP, hW⟩ := hun.1
  have href : ¬ TransferRefused ins := (unassigned_iff h hun.1).1 hun
  have hhalf : UnsignedHalf ins := by
    intro h0
    rw [TransferRefused, if_pos h0] at href
    exact not_not.1 href
  have haddress : transferAddress loc ins p = loc.address := by
    rw [transferAddress, hP, hW]
    rfl
  have hbase : transferBase ins p = none := by
    rw [transferBase, hP, hW]
    rfl
  obtain ⟨p', hrun, haccesses⟩ :=
    run_transferAt_access endianess loc (q := p) hhalf loc.address
  refine ⟨p', ?_, haccesses⟩
  rw [run_armLoadStore endianess loc h, if_neg fun hr => href hr.2, haddress, hbase]
  exact hrun

/-- A transfer that is refused returns UNDEFINED_INSTRUCTION, whatever the local held. -/
theorem refused_addressed (h : SingleTransfer ins) (hindex : NoIndexing ins)
    (href : TransferRefused ins) :
    ∀ loc, (armLoadStore endianess loc ins).run p = some (undefinedInstruction, p) := by
  intro loc
  have hbase : transferBase ins p = none := by
    rw [transferBase, hindex.1, hindex.2]
    rfl
  rw [run_armLoadStore endianess loc h]
  by_cases h0 : getBits ins 27 25 = 0b000
  · have hSH : ¬ (getBit ins 6 = false ∧ getBit ins 5 = true) := by
      rwa [TransferRefused, if_pos h0] at href
    rw [if_neg fun hr => hr.1 h0, transferAt, if_pos h0, miscellaneousTransfer,
      if_neg fun hl => hSH hl.2, if_neg fun hl => hSH hl.2, hbase]
    rfl
  · rw [if_pos ⟨h0, href⟩]

/-- A word whose address is not assigned does not meet the condition, since it is executed. -/
theorem not_addressed (h : SingleTransfer ins) (hun : Unassigned ins) :
    ¬ Addressed endianess loc ins p := by
  intro haddressed
  obtain ⟨p', hrun, -⟩ := unassigned_access endianess loc (p := p) h hun
  obtain ⟨p'', hrefused⟩ := haddressed.refused hun.1
  rw [hrun] at hrefused
  cases hrefused

/-- **The assignment of the address.** The address is assigned, or the word refused, unless the word
is one of those without a case for its indexing that are executed all the same. -/
theorem addressed_iff (h : SingleTransfer ins) :
    Addressed endianess loc ins p ↔ ¬ Unassigned ins := by
  constructor
  · exact fun haddressed hun => not_addressed endianess loc h hun haddressed
  · intro hun
    by_cases hindex : NoIndexing ins
    · have href : TransferRefused ins := not_not.1 fun hn => hun ((unassigned_iff h hindex).2 hn)
      have hrun := refused_addressed endianess (p := p) h hindex href
      exact ⟨fun address => (hrun _).trans (hrun loc).symm, fun _ => ⟨p, hrun loc⟩⟩
    · refine ⟨fun address => ?_, fun hno => absurd hno hindex⟩
      rw [run_armLoadStore endianess _ h, run_armLoadStore endianess loc h,
        transferAddress_eq _ hindex, transferAddress_eq loc hindex]
      rfl

end

/-- `LDR r0, [r1]`, post-indexed without an offset, has its address assigned. -/
theorem addressed_iff_load : Addressed 1 .zero 0xE4910000 (.initial 0x13 (.ofWords [0])) := by
  have hform : SingleTransfer 0xE4910000 := .inr (.inl (by decide))
  have hassigned : ¬ Unassigned 0xE4910000 := by
    rintro ⟨⟨-, hW⟩, -⟩
    exact absurd hW (by decide)
  exact (addressed_iff 1 .zero hform).2 hassigned

/-- `LDRT r0, [r1], r2, LSL #1` loads from whatever the local held. -/
theorem addressed_fails :
    SingleTransfer 0xE6B10082 ∧ NoIndexing 0xE6B10082 ∧
      (∀ address, ∃ p', (armLoadStore 1 { Locals.zero with address } 0xE6B10082).run
          (.initial 0x13 (.ofWords [0])) = some (0, p') ∧ p'.accesses = [⟨4, address⟩]) ∧
      ¬ Addressed 1 .zero 0xE6B10082 (.initial 0x13 (.ofWords [0])) := by
  have hform : SingleTransfer 0xE6B10082 := .inr (.inr (by decide))
  have hun : Unassigned 0xE6B10082 := ⟨by decide, .inl (by decide)⟩
  refine ⟨hform, by decide, fun address => ?_, not_addressed 1 .zero hform hun⟩
  exact unassigned_access 1 { Locals.zero with address } hform hun

/-! ## The two shifters -/

/-- **The two shifters agree.** The index of a scaled offset is the shifter operand that a data
processing instruction with the same type and amount of shift, value of `Rm` and C flag passes on,
where neither `Rm` nor `Rn` is r15. -/
theorem shiftOperation_agrees {p q : ArmCore} {ins rmVal shiftImm : Word} {shift : Byte}
    (h4 : getBit ins 4 = false) (hshift : (getBits ins 6 5).setWidth 8 = shift)
    (hamount : getBits ins 11 7 = shiftImm) (hrm : rmField ins ≠ 15) (hrn : rnField ins ≠ 15)
    (hvalue : p.read (rmField ins) = rmVal)
    (hc : getBit q.reg.cpsr Flag.C = getBit p.reg.cpsr Flag.C) :
    ∃ index carryOut, (shiftOperation rmVal shift shiftImm).run q = some (index, q) ∧
      shiftedOperand ins p = some (index, carryOut) ∧
      (armDataProcessingShift ins).run p =
        (dataProcessing (getBit ins sIndex) (opcodeField ins) (rdField ins) (p.read (rnField ins))
          index carryOut).run p := by
  subst hshift hamount hvalue
  let operand := immediateShift (shiftKind ins) (p.read (rmField ins)) (getBits ins 11 7).toNat
    (getBit p.reg.cpsr Flag.C)
  have hnot : ¬ getBit ins 4 = true := fun h => Bool.false_ne_true (h4.symm.trans h)
  have hindex : scaledIndex q.reg.cpsr (p.read (rmField ins)) ((getBits ins 6 5).setWidth 8)
      (getBits ins 11 7) = operand.1 := by
    rw [scaledIndex_eq, hc]
  obtain ⟨hoperand, hrun⟩ :=
    armDataProcessingShift_shifts p (fun h => hnot h.1) hrm hrn fun h => absurd h hnot
  rw [shiftedValue, if_neg hnot] at hoperand hrun
  refine ⟨operand.1, operand.2, ?_, hoperand, hrun⟩
  rw [run_shiftOperation, hindex]

/-- `MOV r0, r1, RRX` and the offset `r1, RRX`, with the carry set. -/
theorem shiftOperation_agrees_rrx :
    let p := (ArmCore.initial 0x20000010 ⟨fun _ => 0, 4⟩).write 1 3
    ∃ index carryOut, (shiftOperation 3 Shift.ROR 0).run p = some (index, p) ∧
      shiftedOperand 0xE1A00061 p = some (index, carryOut) ∧
      (armDataProcessingShift 0xE1A00061).run p =
        (dataProcessing false Opcode.MOV 0 (p.read 0) index carryOut).run p := by
  intro p
  have hrm : rmField 0xE1A00061 ≠ 15 := by decide
  have hrn : rnField 0xE1A00061 ≠ 15 := by decide
  have hvalue : p.read (rmField 0xE1A00061) = 3 := by decide
  exact shiftOperation_agrees (by decide) (by decide) (by decide) hrm hrn hvalue rfl

end ArmSimulator
