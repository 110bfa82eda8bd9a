import ArmSimulator.ProgramLogic

/-!
# Programs of `Examples`

The programs of the repository's examples are proved correct on the machine, for all inputs of
their loops, and so on the simulator (`simulator_multiplies` and the others): whatever the locals of
the simulator hold, the program comes to its `SWI 0x123456`, every step before it returns 0, and the
registers hold the result.
-/

namespace ArmSimulator

open BarrelShifter

/-! ## `prog1.s`: a product by repeated addition -/

/-- `main` of `prog1.s`. -/
def prog1 : Program where
  words := [0xE3A01002, 0xE3A02003, 0xE3A04000, 0xE3A03000, 0xE1530002, 0xAA000002, 0xE0844001,
    0xE2833001, 0xEAFFFFFA, 0xEF123456]
  listing := [
    (Cond.AL, .data Opcode.MOV false 1 0 (.immediate 2 0)),
    (Cond.AL, .data Opcode.MOV false 2 0 (.immediate 3 0)),
    (Cond.AL, .data Opcode.MOV false 4 0 (.immediate 0 0)),
    (Cond.AL, .data Opcode.MOV false 3 0 (.immediate 0 0)),
    -- for:
    (Cond.AL, .data Opcode.CMP true 0 3 (.shifted 2 .lsl 0)),
    (Cond.GE, .branch false 2),
    (Cond.AL, .data Opcode.ADD false 4 4 (.shifted 1 .lsl 0)),
    (Cond.AL, .data Opcode.ADD false 3 3 (.immediate 1 0)),
    (Cond.AL, .branch false (-6)),
    -- end_for:
    (Cond.AL, .swi 0x123456)]
  assembled := by decide

/-- The rounds of the loop: none for a negative number. -/
def rounds (n : Word) : Word := if 0 ≤ n.toInt then n else 0

section
variable {endianess : Byte} {base a n : Word} {mem : Memory}

/-- At `for`, after as many rounds as r3 says. -/
structure Multiplying (base a n : Word) (mem : Memory) (t : Byte × Machine) : Prop where
  code : t.1 = 0
  mem : t.2.mem = mem
  pc : t.2.pc = base + BitVec.ofNat 32 (4 * 4)
  r1 : t.2.regs 1 = a
  r2 : t.2.regs 2 = n
  product : t.2.regs 4 = a * t.2.regs 3
  nonneg : 0 ≤ (t.2.regs 3).toInt
  le : (t.2.regs 3).toInt ≤ (rounds n).toInt

/-- The result. -/
structure Multiplied (a n : Word) (mem : Memory) (t : Byte × Machine) : Prop where
  code : t.1 = endSimulation
  r4 : t.2.regs 4 = a * rounds n
  mem : t.2.mem = mem

/-- A count that is still greater than the rounds made is not negative, so that it is the number of
rounds. -/
theorem rounds_of_lt {x n : Word} (hx : 0 ≤ x.toInt) (hlt : x.toInt < n.toInt) : rounds n = n :=
  if_pos (by omega)

/-- After the last round the count is the number of rounds. -/
theorem eq_rounds {x n : Word} (hx : 0 ≤ x.toInt) (hle : x.toInt ≤ (rounds n).toInt)
    (hge : n.toInt ≤ x.toInt) : x = rounds n := by
  refine BitVec.toInt_inj.1 (Int.le_antisymm hle ?_)
  unfold rounds
  split_ifs
  · exact hge
  · exact hx

/-- One round of the loop, or the end of the program. -/
theorem Multiplying.round (h : prog1.Loaded endianess base mem) {t : Byte × Machine}
    (ht : Multiplying base a n mem t) :
    Inevitable (Machine.Runs endianess) (fun t' => Multiplied a n mem t' ∨
      (Multiplying base a n mem t' ∧
        ((rounds n).toInt - (t'.2.regs 3).toInt).toNat <
          ((rounds n).toInt - (t.2.regs 3).toInt).toNat)) t := by
  obtain ⟨c, m⟩ := t
  obtain ⟨rfl, hmem, hpc, h1, h2, hproduct, hnonneg, hle⟩ := ht
  dsimp only at hmem hpc h1 h2 hproduct hnonneg hle
  -- cmp r3, r2
  refine h.cmp hmem hpc rfl fun m₁ h₁ hcmp => ?_
  replace hcmp : m₁.Compares (m.regs 3) n := h2 ▸ hcmp
  have hmem₁ := h₁.mem.trans hmem
  -- bge end_for
  refine h.branch (j := 9) hmem₁ h₁.pc rfl rfl (fun hge m₂ h₂ => ?_) fun hlt m₂ h₂ => ?_
  · refine h.exit (h₂.mem.trans hmem₁) h₂.pc rfl fun m₃ h₃ => .inl ⟨rfl, ?_, ?_⟩
    · rw [hcmp.ge, decide_eq_true_eq] at hge
      have hr3 : m.regs 3 = rounds n := eq_rounds hnonneg hle hge
      calc m₃.regs 4 = m.regs 4 := (h₃.regs 4 (by decide)).trans
            ((h₂.regs 4 (by decide)).trans (h₁.regs 4 (by decide)))
        _ = a * rounds n := by rw [hproduct, hr3]
    · exact h₃.mem.trans (h₂.mem.trans hmem₁)
  · -- add r4, r4, r1
    have hmem₂ := h₂.mem.trans hmem₁
    refine h.data hmem₂ h₂.pc rfl (by decide) (by decide) (referenceResult_add _ _)
      fun m₃ h₃ _ => ?_
    have hmem₃ := h₃.mem.trans hmem₂
    -- add r3, r3, #1
    refine h.data hmem₃ h₃.pc rfl (by decide) (by decide) (referenceResult_add _ _)
      fun m₄ h₄ _ => ?_
    have hmem₄ := h₄.mem.trans hmem₃
    -- b for
    refine h.branch (j := 4) hmem₄ h₄.pc rfl rfl (fun _ m₅ h₅ => .now (.inr ?_)) nofun
    have hkept : ∀ r, r ≠ 3 → r ≠ 4 → r ≠ 15 → m₅.regs r = m.regs r := fun r h3 h4 h15 => by
      rw [h₅.regs r h15, h₄.regs r h15, Function.update_of_ne h3, h₃.regs r h15,
        Function.update_of_ne h4, h₂.regs r h15, h₁.regs r h15]
    have hr3 : m₅.regs 3 = m.regs 3 + 1 := by
      calc m₅.regs 3 = m₃.regs 3 + 1 := (h₅.regs 3 (by decide)).trans (h₄.regs 3 (by decide))
        _ = m.regs 3 + 1 := congrArg (· + 1) ((h₃.regs 3 (by decide)).trans
            ((h₂.regs 3 (by decide)).trans (h₁.regs 3 (by decide))))
    have hr4 : m₅.regs 4 = m.regs 4 + m.regs 1 := by
      calc m₅.regs 4 = m₃.regs 4 := (h₅.regs 4 (by decide)).trans (h₄.regs 4 (by decide))
        _ = m₂.regs 4 + m₂.regs 1 := h₃.regs 4 (by decide)
        _ = m₁.regs 4 + m₁.regs 1 := congrArg₂ (· + ·) (h₂.regs 4 (by decide))
            (h₂.regs 1 (by decide))
        _ = m.regs 4 + m.regs 1 := congrArg₂ (· + ·) (h₁.regs 4 (by decide))
            (h₁.regs 1 (by decide))
    -- r3 is less than r2, so that it does not overflow
    rw [hcmp.ge, decide_eq_false_iff_not, Int.not_le] at hlt
    have hrounds : rounds n = n := rounds_of_lt hnonneg hlt
    have hsucc : (m₅.regs 3).toInt = (m.regs 3).toInt + 1 := by
      have hn := n.toInt_lt
      have hone : (1 : Word).toInt = 1 := rfl
      rw [hr3, BitVec.toInt_add, hone]
      exact Int.bmod_eq_of_le (by omega) (by omega)
    refine ⟨⟨rfl, h₅.mem.trans hmem₄, h₅.pc, ?_, ?_, ?_, ?_, ?_⟩, ?_⟩
    · exact (hkept 1 (by decide) (by decide) (by decide)).trans h1
    · exact (hkept 2 (by decide) (by decide) (by decide)).trans h2
    · show m₅.regs 4 = a * m₅.regs 3
      rw [hr4, hr3, hproduct, h1, BitVec.mul_add]
      exact congrArg _ (BitVec.mul_one a).symm
    · show 0 ≤ (m₅.regs 3).toInt
      omega
    · show (m₅.regs 3).toInt ≤ (rounds n).toInt
      rw [hrounds]
      omega
    · show ((rounds n).toInt - (m₅.regs 3).toInt).toNat <
        ((rounds n).toInt - (m.regs 3).toInt).toNat
      rw [hrounds]
      omega

/-- From `mov r4, #0` on, `prog1.s` multiplies r1 by r2, if r2 is not negative. -/
theorem multiplies (h : prog1.Loaded endianess base mem) {m : Machine} (hmem : m.mem = mem)
    (hpc : m.pc = base + BitVec.ofNat 32 (4 * 2)) :
    Inevitable (Machine.Runs endianess) (Multiplied (m.regs 1) (m.regs 2) mem) (0, m) := by
  -- mov r4, #0
  refine h.data hmem hpc rfl (by decide) (by decide) (v := 0) rfl fun m₁ h₁ _ => ?_
  have hmem₁ := h₁.mem.trans hmem
  -- mov r3, #0
  refine h.data hmem₁ h₁.pc rfl (by decide) (by decide) (v := 0) rfl fun m₂ h₂ _ => ?_
  have h1 : m₂.regs 1 = m.regs 1 := (h₂.regs 1 (by decide)).trans (h₁.regs 1 (by decide))
  have h2 : m₂.regs 2 = m.regs 2 := (h₂.regs 2 (by decide)).trans (h₁.regs 2 (by decide))
  have h3 : m₂.regs 3 = 0 := h₂.regs 3 (by decide)
  have h4 : m₂.regs 4 = 0 := (h₂.regs 4 (by decide)).trans (h₁.regs 4 (by decide))
  refine Inevitable.loop (P := Multiplying base (m.regs 1) (m.regs 2) mem)
    (fun t => ((rounds (m.regs 2)).toInt - (t.2.regs 3).toInt).toNat) (fun t ht => ht.round h) ?_
  refine ⟨rfl, h₂.mem.trans hmem₁, h₂.pc, h1, h2, ?_, ?_, ?_⟩
  · show m₂.regs 4 = m.regs 1 * m₂.regs 3
    rw [h3, h4]
    exact BitVec.mul_zero.symm
  · exact le_of_eq (by rw [h3]; rfl)
  · rw [h3]
    unfold rounds
    split_ifs with hn
    · exact hn
    · exact Int.le_refl 0

end

/-- **`prog1.s` on the simulator.** From `mov r4, #0` on, in any of the seven modes and with any
operands, it comes to its end with the product in r4, and leaves the memory. -/
theorem simulator_multiplies (endianess : Byte) {base : Word} {p : ArmCore} (hm : p.mode ∈ modes)
    (h : prog1.Loaded endianess base p.mem) (hpc : p.pc = base + BitVec.ofNat 32 (4 * 2)) :
    Inevitable (SimulatorRuns endianess) (fun s => s.1 = endSimulation ∧
      s.2.read 4 = p.read 1 * rounds (p.read 2) ∧ s.2.mem = p.mem ∧ s.2.mode = p.mode) (0, p) := by
  have hrun := multiplies h (m := p.machine) rfl (p.machine_pc.trans hpc)
  refine (inevitable_simulator hm hrun ⟨rfl, rfl⟩).mono ?_
  rintro s ⟨⟨hcode, hr4, hmem⟩, hmode⟩
  exact ⟨hcode, hr4, hmem, hmode⟩

/-- 5 times 6 in user mode. -/
def fiveTimesSix : ArmCore :=
  (((ArmCore.initial 0x10 (.ofWords prog1.words)).write 1 5).write 2 6).write 15 8

/-- The program of `prog1.s` multiplies 5 by 6. -/
theorem simulator_multiplies_five_six :
    Inevitable (SimulatorRuns 1) (fun s => s.1 = endSimulation ∧ s.2.read 4 = 30 ∧
      s.2.mem = fiveTimesSix.mem ∧ s.2.mode = 0x10) (0, fiveTimesSix) := by
  have hloaded : prog1.Loaded 1 0 fiveTimesSix.mem :=
    ⟨by decide, fun k hk => ⟨by revert k; decide, by decide⟩, by decide⟩
  exact simulator_multiplies 1 (by decide) hloaded (by decide)

/-! ## `prog3.s`: the length of a text -/

/-- `main` of `prog3.s`. -/
def prog3 : Program where
  words := [0xE3A00000, 0xE3A01000, 0xE3A02068, 0xE7802101, 0xE2811001, 0xE3A02065, 0xE7802101,
    0xE2811001, 0xE3A0206C, 0xE7802101, 0xE2811001, 0xE3A0206C, 0xE7802101, 0xE2811001, 0xE3A0206F,
    0xE7802101, 0xE2811001, 0xE3A02000, 0xE7802101, 0xE3A04000, 0xE3A01000, 0xE7902101, 0xE3520000,
    0x0A000002, 0xE2811001, 0xE2844001, 0xEAFFFFF9, 0xEF123456]
  listing := [
    (Cond.AL, .data Opcode.MOV false 0 0 (.immediate 0 0)),
    (Cond.AL, .data Opcode.MOV false 1 0 (.immediate 0 0)),
    (Cond.AL, .data Opcode.MOV false 2 0 (.immediate 104 0)),
    (Cond.AL, .transfer false 32 true true false 2 0 (.register 1 .lsl 2)),
    (Cond.AL, .data Opcode.ADD false 1 1 (.immediate 1 0)),
    (Cond.AL, .data Opcode.MOV false 2 0 (.immediate 101 0)),
    (Cond.AL, .transfer false 32 true true false 2 0 (.register 1 .lsl 2)),
    (Cond.AL, .data Opcode.ADD false 1 1 (.immediate 1 0)),
    (Cond.AL, .data Opcode.MOV false 2 0 (.immediate 108 0)),
    (Cond.AL, .transfer false 32 true true false 2 0 (.register 1 .lsl 2)),
    (Cond.AL, .data Opcode.ADD false 1 1 (.immediate 1 0)),
    (Cond.AL, .data Opcode.MOV false 2 0 (.immediate 108 0)),
    (Cond.AL, .transfer false 32 true true false 2 0 (.register 1 .lsl 2)),
    (Cond.AL, .data Opcode.ADD false 1 1 (.immediate 1 0)),
    (Cond.AL, .data Opcode.MOV false 2 0 (.immediate 111 0)),
    (Cond.AL, .transfer false 32 true true false 2 0 (.register 1 .lsl 2)),
    (Cond.AL, .data Opcode.ADD false 1 1 (.immediate 1 0)),
    (Cond.AL, .data Opcode.MOV false 2 0 (.immediate 0 0)),
    (Cond.AL, .transfer false 32 true true false 2 0 (.register 1 .lsl 2)),
    -- the length
    (Cond.AL, .data Opcode.MOV false 4 0 (.immediate 0 0)),
    (Cond.AL, .data Opcode.MOV false 1 0 (.immediate 0 0)),
    -- do:
    (Cond.AL, .transfer true 32 true true false 2 0 (.register 1 .lsl 2)),
    (Cond.AL, .data Opcode.CMP true 0 2 (.immediate 0 0)),
    (Cond.EQ, .branch false 2),
    (Cond.AL, .data Opcode.ADD false 1 1 (.immediate 1 0)),
    (Cond.AL, .data Opcode.ADD false 4 4 (.immediate 1 0)),
    (Cond.AL, .branch false (-7)),
    -- end_while:
    (Cond.AL, .swi 0x123456)]
  assembled := by decide

/-- The memory holds a text of `n` words from the address on, with a 0 behind it. -/
structure HoldsText (mem : Memory) (endianess : Byte) (s : Word) (n : Nat) : Prop where
  accessible : ∀ k ≤ n, mem.Accessible (s + BitVec.ofNat 32 (4 * k)) 4 4
  ne_zero : ∀ k < n, mem.value 32 endianess (s + BitVec.ofNat 32 (4 * k)) ≠ 0
  zero : mem.value 32 endianess (s + BitVec.ofNat 32 (4 * n)) = 0

section
variable {endianess : Byte} {base s : Word} {mem : Memory} {n : Nat}

/-- A text does not run through the whole address space. -/
theorem HoldsText.lt (h : HoldsText mem endianess s n) : n < 2 ^ 30 := by
  by_contra hn
  obtain ⟨k, hk, haddress⟩ : ∃ k < n, BitVec.ofNat 32 (4 * k) = BitVec.ofNat 32 (4 * n) := by
    refine ⟨n - 2 ^ 30, by omega, BitVec.eq_of_toNat_eq ?_⟩
    rw [BitVec.toNat_ofNat, BitVec.toNat_ofNat]
    omega
  exact h.ne_zero k hk (haddress ▸ h.zero)

/-- At `do`, after `k` words. -/
structure Counting (base s : Word) (mem : Memory) (n k : Nat) (t : Byte × Machine) : Prop where
  code : t.1 = 0
  mem : t.2.mem = mem
  pc : t.2.pc = base + BitVec.ofNat 32 (4 * 21)
  r0 : t.2.regs 0 = s
  r1 : t.2.regs 1 = BitVec.ofNat 32 k
  r4 : t.2.regs 4 = BitVec.ofNat 32 k
  le : k ≤ n

/-- The result. -/
structure Counted (mem : Memory) (n : Nat) (t : Byte × Machine) : Prop where
  code : t.1 = endSimulation
  r4 : t.2.regs 4 = BitVec.ofNat 32 n
  mem : t.2.mem = mem

/-- One round of the loop, or the end of the program. -/
theorem Counting.round (h : prog3.Loaded endianess base mem) (htext : HoldsText mem endianess s n)
    {k : Nat} {t : Byte × Machine} (ht : Counting base s mem n k t) :
    Inevitable (Machine.Runs endianess)
      (fun t' => Counted mem n t' ∨ (k < n ∧ Counting base s mem n (k + 1) t')) t := by
  obtain ⟨c, m⟩ := t
  obtain ⟨rfl, hmem, hpc, h0, h1, h4, hle⟩ := ht
  dsimp only at hmem hpc h0 h1 h4
  have haddress : m.sum true 0 (.register 1 .lsl 2) = s + BitVec.ofNat 32 (4 * k) := by
    show m.regs 0 + BitVec.ofNat 32 ((m.regs 1).toNat * 2 ^ 2) = _
    rw [h0, h1, BitVec.toNat_ofNat]
    refine congrArg (s + ·) (BitVec.eq_of_toNat_eq ?_)
    rw [BitVec.toNat_ofNat, BitVec.toNat_ofNat]
    omega
  -- ldr r2, [r0, r1, lsl #2]
  refine h.load hmem hpc rfl (by decide) (haddress ▸ htext.accessible k hle) fun m₁ h₁ => ?_
  rw [haddress] at h₁
  have hmem₁ := h₁.mem.trans hmem
  -- cmp r2, #0
  refine h.cmp hmem₁ h₁.pc rfl fun m₂ h₂ hcmp => ?_
  have hr2 : m₁.regs 2 = mem.value 32 endianess (s + BitVec.ofNat 32 (4 * k)) :=
    h₁.regs 2 (by decide)
  replace hcmp : m₂.Compares (mem.value 32 endianess (s + BitVec.ofNat 32 (4 * k))) 0 := hr2 ▸ hcmp
  have hmem₂ := h₂.mem.trans hmem₁
  -- beq end_while
  refine h.branch (j := 27) hmem₂ h₂.pc rfl rfl (fun heq m₃ h₃ => ?_) fun hne m₃ h₃ => ?_
  · rw [hcmp.eq, decide_eq_true_eq] at heq
    have hk : k = n := Nat.le_antisymm hle (Nat.not_lt.1 fun hlt => htext.ne_zero k hlt heq)
    refine h.exit (h₃.mem.trans hmem₂) h₃.pc rfl fun m₄ h₄ => .inl ⟨rfl, ?_, ?_⟩
    · simp (disch := decide) only [h₄.regs, h₃.regs, h₂.regs, h₁.regs, Function.update_of_ne]
      rw [h4, hk]
    · exact h₄.mem.trans (h₃.mem.trans hmem₂)
  · rw [hcmp.eq, decide_eq_false_iff_not] at hne
    have hk : k < n := Nat.lt_of_le_of_ne hle fun hk => hne (hk ▸ htext.zero)
    have hmem₃ := h₃.mem.trans hmem₂
    -- add r1, r1, #1
    refine h.data hmem₃ h₃.pc rfl (by decide) (by decide) (referenceResult_add _ _)
      fun m₄ h₄ _ => ?_
    have hmem₄ := h₄.mem.trans hmem₃
    -- add r4, r4, #1
    refine h.data hmem₄ h₄.pc rfl (by decide) (by decide) (referenceResult_add _ _)
      fun m₅ h₅ _ => ?_
    have hmem₅ := h₅.mem.trans hmem₄
    -- b do
    refine h.branch (j := 21) hmem₅ h₅.pc rfl rfl (fun _ m₆ h₆ => .now (.inr ⟨hk, ?_⟩)) nofun
    have hkept : ∀ r, r ≠ 1 → r ≠ 2 → r ≠ 4 → r ≠ 15 → m₆.regs r = m.regs r :=
      fun r hr1 hr2 hr4 hr => by
        rw [h₆.regs r hr, h₅.regs r hr, Function.update_of_ne hr4, h₄.regs r hr,
          Function.update_of_ne hr1, h₃.regs r hr, h₂.regs r hr, h₁.regs r hr,
          Function.update_of_ne hr2]
    refine ⟨rfl, h₆.mem.trans hmem₅, h₆.pc, ?_, ?_, ?_, hk⟩
    · exact (hkept 0 (by decide) (by decide) (by decide) (by decide)).trans h0
    · calc m₆.regs 1 = m₅.regs 1 := h₆.regs 1 (by decide)
        _ = m₄.regs 1 := h₅.regs 1 (by decide)
        _ = m₃.regs 1 + 1 := h₄.regs 1 (by decide)
        _ = m.regs 1 + 1 := congrArg (· + 1) ((h₃.regs 1 (by decide)).trans
            ((h₂.regs 1 (by decide)).trans (h₁.regs 1 (by decide))))
        _ = BitVec.ofNat 32 (k + 1) := by rw [h1, BitVec.ofNat_add]; rfl
    · calc m₆.regs 4 = m₅.regs 4 := h₆.regs 4 (by decide)
        _ = m₄.regs 4 + 1 := h₅.regs 4 (by decide)
        _ = m.regs 4 + 1 := congrArg (· + 1) ((h₄.regs 4 (by decide)).trans
            ((h₃.regs 4 (by decide)).trans ((h₂.regs 4 (by decide)).trans (h₁.regs 4 (by decide)))))
        _ = BitVec.ofNat 32 (k + 1) := by rw [h4, BitVec.ofNat_add]; rfl

/-- From `mov r4, #0` on, `prog3.s` counts the words of the text at r0. -/
theorem counts (h : prog3.Loaded endianess base mem) {m : Machine} (hmem : m.mem = mem)
    (hpc : m.pc = base + BitVec.ofNat 32 (4 * 19)) (htext : HoldsText mem endianess (m.regs 0) n) :
    Inevitable (Machine.Runs endianess) (Counted mem n) (0, m) := by
  -- mov r4, #0
  refine h.data hmem hpc rfl (by decide) (by decide) (v := 0) rfl fun m₁ h₁ _ => ?_
  have hmem₁ := h₁.mem.trans hmem
  -- mov r1, #0
  refine h.data hmem₁ h₁.pc rfl (by decide) (by decide) (v := 0) rfl fun m₂ h₂ _ => ?_
  refine Inevitable.loop (P := fun t => ∃ k, Counting base (m.regs 0) mem n k t)
    (fun t => n - (t.2.regs 1).toNat) ?_ ⟨0, ?_⟩
  · rintro t ⟨k, ht⟩
    refine (ht.round h htext).mono fun t' ht' => ht'.imp_right fun ⟨hk, ht'⟩ => ⟨⟨k + 1, ht'⟩, ?_⟩
    have hlt := htext.lt
    rw [ht.r1, ht'.r1, BitVec.toNat_ofNat, BitVec.toNat_ofNat]
    omega
  · refine ⟨rfl, h₂.mem.trans hmem₁, h₂.pc, ?_, h₂.regs 1 (by decide), ?_, Nat.zero_le n⟩
    · exact (h₂.regs 0 (by decide)).trans (h₁.regs 0 (by decide))
    · exact (h₂.regs 4 (by decide)).trans (h₁.regs 4 (by decide))

end

/-- **`prog3.s` on the simulator.** From `mov r4, #0` on, in any of the seven modes and for any text
at r0, it comes to its end with the number of words in r4, and leaves the memory. -/
theorem simulator_counts (endianess : Byte) {base : Word} {p : ArmCore} {n : Nat}
    (hm : p.mode ∈ modes) (h : prog3.Loaded endianess base p.mem)
    (hpc : p.pc = base + BitVec.ofNat 32 (4 * 19))
    (htext : HoldsText p.mem endianess (p.read 0) n) :
    Inevitable (SimulatorRuns endianess) (fun s => s.1 = endSimulation ∧
      s.2.read 4 = BitVec.ofNat 32 n ∧ s.2.mem = p.mem ∧ s.2.mode = p.mode) (0, p) := by
  have hrun := counts h (m := p.machine) rfl (p.machine_pc.trans hpc) htext
  refine (inevitable_simulator hm hrun ⟨rfl, rfl⟩).mono ?_
  rintro s ⟨⟨hcode, hr4, hmem⟩, hmode⟩
  exact ⟨hcode, hr4, hmem, hmode⟩

/-- `hello`, behind the program. -/
def hello : ArmCore :=
  ((ArmCore.initial 0x10 (.ofWords (prog3.words ++ [104, 101, 108, 108, 111, 0]))).write 0
    (4 * 28)).write 15 (4 * 19)

/-- The loop of `prog3.s` counts the characters of its text. -/
theorem simulator_counts_hello :
    Inevitable (SimulatorRuns 1) (fun s => s.1 = endSimulation ∧ s.2.read 4 = 5 ∧
      s.2.mem = hello.mem ∧ s.2.mode = 0x10) (0, hello) := by
  have hloaded : prog3.Loaded 1 0 hello.mem :=
    ⟨by decide, fun k hk => ⟨by revert k; decide, by decide⟩, by decide⟩
  have htext : HoldsText hello.mem 1 (hello.read 0) 5 :=
    ⟨fun k hk => ⟨⟨by revert k; decide, by decide⟩, by revert k; decide⟩, by decide, by decide⟩
  exact simulator_counts 1 (by decide) hloaded (by decide) htext

/-! ## `example1.s`: counting down by a subroutine -/

/-- `decr` and `main` of `example1.s`. -/
def example1 : Program where
  words := [0xE2500001, 0xE1A0F00E, 0xE3A00005, 0xEBFFFFFB, 0x1AFFFFFD, 0xEF123456]
  listing := [
    -- decr:
    (Cond.AL, .data Opcode.SUB true 0 0 (.immediate 1 0)),
    (Cond.AL, .data Opcode.MOV false 15 0 (.shifted 14 .lsl 0)),
    -- main:
    (Cond.AL, .data Opcode.MOV false 0 0 (.immediate 5 0)),
    -- loop:
    (Cond.AL, .branch true (-5)),
    (Cond.NE, .branch false (-3)),
    -- end:
    (Cond.AL, .swi 0x123456)]
  assembled := by decide

/-- At `loop`. -/
structure CountingDown (base : Word) (mem : Memory) (t : Byte × Machine) : Prop where
  code : t.1 = 0
  mem : t.2.mem = mem
  pc : t.2.pc = base + BitVec.ofNat 32 (4 * 3)

/-- The result. -/
structure CountedDown (mem : Memory) (t : Byte × Machine) : Prop where
  code : t.1 = endSimulation
  r0 : t.2.regs 0 = 0
  mem : t.2.mem = mem

section
variable {endianess : Byte} {base : Word} {mem : Memory}

/-- One round of the loop, or the end of the program. -/
theorem CountingDown.round (h : example1.Loaded endianess base mem) {t : Byte × Machine}
    (ht : CountingDown base mem t) :
    Inevitable (Machine.Runs endianess) (fun t' => CountedDown mem t' ∨ (CountingDown base mem t' ∧
      (t'.2.regs 0 - 1).toNat < (t.2.regs 0 - 1).toNat)) t := by
  obtain ⟨c, m⟩ := t
  obtain ⟨rfl, hmem, hpc⟩ := ht
  dsimp only at hmem hpc
  -- bl decr
  refine h.call (j := 0) hmem hpc rfl rfl fun m₁ h₁ => ?_
  have hmem₁ := h₁.mem.trans hmem
  -- subs r0, r0, #1
  refine h.subs hmem₁ h₁.pc rfl (by decide) fun m₂ h₂ hcmp => ?_
  have hmem₂ := h₂.mem.trans hmem₁
  have hr0 : m₁.regs 0 = m.regs 0 := h₁.regs 0 (by decide)
  replace hcmp : m₂.Compares (m.regs 0) 1 := hr0 ▸ hcmp
  -- mov pc, lr
  have hlink : m₂.regs 14 = base + BitVec.ofNat 32 (4 * 4) :=
    (h₂.regs 14 (by decide)).trans (h₁.regs 14 (by decide))
  refine h.jump hmem₂ h₂.pc rfl (by decide) hlink fun m₃ h₃ hflags => ?_
  have hmem₃ := h₃.mem.trans hmem₂
  have hr0' : m₃.regs 0 = m.regs 0 - 1 :=
    (h₃.regs 0 (by decide)).trans ((h₂.regs 0 (by decide)).trans (congrArg (· - 1) hr0))
  -- bne loop
  refine h.branch (j := 3) hmem₃ h₃.pc rfl rfl (fun hne m₄ h₄ => .now (.inr ?_)) fun heq m₄ h₄ => ?_
  · rw [hflags, hcmp.ne, decide_eq_true_eq] at hne
    refine ⟨⟨rfl, h₄.mem.trans hmem₃, h₄.pc⟩, ?_⟩
    show (m₄.regs 0 - 1).toNat < (m.regs 0 - 1).toNat
    rw [h₄.regs 0 (by decide), hr0']
    bv_omega
  · rw [hflags, hcmp.ne, decide_eq_false_iff_not, not_not] at heq
    refine h.exit (h₄.mem.trans hmem₃) h₄.pc rfl fun m₅ h₅ => .inl ⟨rfl, ?_, ?_⟩
    · calc m₅.regs 0 = m₃.regs 0 := (h₅.regs 0 (by decide)).trans (h₄.regs 0 (by decide))
        _ = 0 := by rw [hr0', heq]; rfl
    · exact h₅.mem.trans (h₄.mem.trans hmem₃)

/-- `example1.s` comes to its end with 0 in r0, from `main` on. -/
theorem countsDown (h : example1.Loaded endianess base mem) {m : Machine} (hmem : m.mem = mem)
    (hpc : m.pc = base + BitVec.ofNat 32 (4 * 2)) :
    Inevitable (Machine.Runs endianess) (CountedDown mem) (0, m) := by
  -- mov r0, #5
  refine h.data hmem hpc rfl (by decide) (by decide) rfl fun m₁ h₁ _ => ?_
  exact Inevitable.loop (P := CountingDown base mem) (fun t => (t.2.regs 0 - 1).toNat)
    (fun t ht => ht.round h) ⟨rfl, h₁.mem.trans hmem, h₁.pc⟩

end

end ArmSimulator
