import ArmSimulator.Refinement

/-!
# Reasoning about programs

A `Program` is a list of words with its listing, the conditions and the instructions that the words
are decoded to. Where it is loaded, what follows its next instruction follows (`insn`, from the
weakest precondition `Insn.wp`), so that a program is executed symbolically, with `Inevitable.loop`
for its loops.
-/

namespace ArmSimulator

open BarrelShifter

/-! ## Listings -/

/-- The condition and the instruction of a word, if it is one of the fragment. -/
def disassemble (w : Word) : Option (Word × Insn) :=
  (decode w).bind fun i => if i.Regular ∧ w >>> 28 ≠ 0xF then some (w >>> 28, i) else none

/-- The word is decoded to the instruction. -/
structure Disassembled (w cond : Word) (i : Insn) : Prop where
  decode : decode w = some i
  regular : i.Regular
  known : w >>> 28 ≠ 0xF
  cond : w >>> 28 = cond

/-- A word that is disassembled is decoded as the instruction, under the condition. -/
theorem disassemble_eq_some {w : Word} {cond : Word} {i : Insn}
    (h : disassemble w = some (cond, i)) : Disassembled w cond i := by
  obtain ⟨i', hdecode, h⟩ := Option.bind_eq_some_iff.1 h
  split_ifs at h with hregular
  cases h
  exact ⟨hdecode, hregular.1, hregular.2, rfl⟩

/-- A program: words and what they are decoded to. -/
structure Program where
  words : List Word
  listing : List (Word × Insn)
  assembled : words.map disassemble = listing.map some

/-- The memory holds the program from the address on, which is a multiple of 4. -/
structure Program.Loaded (prog : Program) (endianess : Byte) (base : Word) (mem : Memory) :
    Prop where
  aligned : Aligned base
  holds : ∀ k < prog.words.length, mem.Holds (base + BitVec.ofNat 32 (4 * k)) 4
  word : ∀ k (hk : k < prog.words.length),
    mem.value 32 endianess (base + BitVec.ofNat 32 (4 * k)) = prog.words[k]

/-- The word of an instruction of the listing is fetched at its address. -/
theorem Program.Loaded.fetches {prog : Program} {endianess : Byte} {base : Word} {m : Machine}
    (h : prog.Loaded endianess base m.mem) {k : Nat} {cond : Word} {i : Insn}
    (hk : prog.listing[k]? = some (cond, i)) (hpc : m.pc = base + BitVec.ofNat 32 (4 * k)) :
    ∃ w, m.Fetches endianess w ∧ Disassembled w cond i := by
  have hlength : prog.words.length = prog.listing.length := by
    have := congrArg List.length prog.assembled
    rwa [List.length_map, List.length_map] at this
  obtain ⟨hlt, -⟩ := List.getElem?_eq_some_iff.1 hk
  rw [← hlength] at hlt
  have hdis : disassemble prog.words[k] = some (cond, i) := by
    have hget : (prog.words.map disassemble)[k]? = (prog.listing.map some)[k]? := by
      rw [prog.assembled]
    rw [List.getElem?_map, List.getElem?_map, hk, List.getElem?_eq_getElem hlt] at hget
    exact Option.some.inj hget
  refine ⟨prog.words[k], ⟨?_, ?_, ?_⟩, disassemble_eq_some hdis⟩
  · rw [hpc]
    exact h.aligned.add (aligned_ofNat k)
  · rw [hpc]
    exact h.holds k hlt
  · rw [hpc]
    exact h.word k hlt

/-! ## Weakest preconditions -/

/-- What ensures that an instruction can be executed, and that all its outcomes satisfy `Q`. -/
def Insn.wp (endianess : Byte) (m : Machine) (Q : Byte × Machine → Prop) : Insn → Prop
  | .data opcode setFlags rd rn operand =>
    ∀ carry, (opcode ∈ logicalOpcodes → carry = (m.operand operand).2) →
      Q (0, m.data opcode setFlags rd (m.read rn) (m.operand operand).1 carry)
  | .transfer true width pre up writeBack rd rn offset =>
    m.mem.Accessible (m.address pre up rn offset) (width / 8) (width / 8) ∧
      Q (0, (m.based pre up writeBack rn offset).write rd
        ((m.mem.value width endianess (m.address pre up rn offset)).setWidth 32))
  | .transfer false width pre up writeBack rd rn offset =>
    (∃ mem, Memory.Wrote endianess (m.address pre up rn offset) ((m.read rd).setWidth width) m.mem
      mem) ∧ m.mem.Accessible (m.address pre up rn offset) (width / 8) (width / 8) ∧
    ∀ mem, Memory.Wrote endianess (m.address pre up rn offset) ((m.read rd).setWidth width) m.mem
      mem → Q (0, { m.based pre up writeBack rn offset with mem })
  | .block true pre up writeBack rn registerList =>
    m.mem.Accessible (m.first pre up rn registerList) (4 * listed registerList 16) 4 ∧
      Q (0, (m.next.loadBlock endianess registerList (m.first pre up rn registerList)).raised
        writeBack rn registerList (m.read rn))
  | .block false pre up writeBack rn registerList =>
    let Stored := BlockStored registerList endianess (m.first pre up rn registerList) 16
      (fun i => m.read (BitVec.ofNat 8 i)) m.mem
    (∃ mem, Stored mem) ∧
      m.mem.Accessible (m.first pre up rn registerList) (4 * listed registerList 16) 4 ∧
      ∀ mem, Stored mem → Q (0, { m.next.raised writeBack rn registerList (m.read rn) with mem })
  | .branch link offset =>
    Q (0, (m.next.writeIf link 14 (m.pc + 4)).write 15 (m.pc + 8 + BitVec.ofInt 32 (4 * offset)))
  | .swi number =>
    if number = 0x123456 then Q (endSimulation, m.next)
    else number = 1 ∧ Q (0, { m.next with output := (m.regs 0).setWidth 8 :: m.output })

/-- Under its weakest precondition an instruction has an outcome, and every outcome meets the
postcondition. -/
theorem Insn.wp_sound {endianess : Byte} {m : Machine} {Q : Byte × Machine → Prop} {i : Insn}
    (h : i.wp endianess m Q) :
    (∃ r, i.Exec endianess m r) ∧ ∀ r, i.Exec endianess m r → Q r := by
  cases i with
  | data opcode setFlags rd rn operand =>
    refine ⟨⟨_, .data fun _ => rfl⟩, ?_⟩
    rintro r ⟨hcarry⟩
    exact h _ hcarry
  | transfer load width pre up writeBack rd rn offset =>
    cases load with
    | true =>
      refine ⟨⟨_, .load h.1⟩, ?_⟩
      rintro r ⟨⟩
      exact h.2
    | false =>
      obtain ⟨⟨mem, hmem⟩, haccess, hQ⟩ := h
      refine ⟨⟨_, .store haccess hmem⟩, ?_⟩
      rintro r (_ | _ | ⟨-, hmem'⟩)
      exact hQ _ hmem'
  | block load pre up writeBack rn registerList =>
    cases load with
    | true =>
      refine ⟨⟨_, .loadBlock h.1⟩, ?_⟩
      rintro r ⟨⟩
      exact h.2
    | false =>
      obtain ⟨⟨mem, hmem⟩, haccess, hQ⟩ := h
      refine ⟨⟨_, .storeBlock haccess hmem⟩, ?_⟩
      rintro r hexec
      cases hexec with
      | storeBlock _ hmem' => exact hQ _ hmem'
  | branch link offset =>
    refine ⟨⟨_, .branch⟩, ?_⟩
    rintro r ⟨⟩
    exact h
  | swi number =>
    simp only [Insn.wp] at h
    split_ifs at h with hexit
    · subst hexit
      refine ⟨⟨_, .exit⟩, ?_⟩
      rintro r ⟨⟩
      exact h
    · obtain ⟨rfl, hQ⟩ := h
      refine ⟨⟨_, .putchar⟩, ?_⟩
      rintro r ⟨⟩
      exact hQ

/-- A program goes on after its next instruction, or past it where the condition fails. -/
theorem Program.Loaded.insn {prog : Program} {endianess : Byte} {base : Word} {mem : Memory}
    {m : Machine} {k : Nat} {cond : Word} {i : Insn} {Q : Byte × Machine → Prop}
    (h : prog.Loaded endianess base mem) (hmem : m.mem = mem)
    (hk : prog.listing[k]? = some (cond, i)) (hpc : m.pc = base + BitVec.ofNat 32 (4 * k))
    (hexec : m.holds cond = true → i.wp endianess m (Inevitable (Machine.Runs endianess) Q))
    (hskip : m.holds cond = false → Inevitable (Machine.Runs endianess) Q (0, m.next)) :
    Inevitable (Machine.Runs endianess) Q (0, m) := by
  subst hmem
  obtain ⟨w, hfetch, hdecode, hregular, hknown, rfl⟩ := h.fetches hk hpc
  have hword : ∀ w', m.Fetches endianess w' → w' = w := fun w' h' => h'.word.symm.trans hfetch.word
  cases hc : m.holds (w >>> 28) with
  | true =>
    obtain ⟨⟨r, hr⟩, hall⟩ := Insn.wp_sound (hexec hc)
    refine .later ⟨r, rfl, .exec hfetch hc hdecode hregular hr⟩ ?_
    rintro s' ⟨-, hstep⟩
    cases hstep with
    | skip hfetch' _ hc' =>
      cases hword _ hfetch'
      cases hc.symm.trans hc'
    | exec hfetch' _ hdecode' _ hexec' =>
      cases hword _ hfetch'
      cases hdecode.symm.trans hdecode'
      exact hall _ hexec'
  | false =>
    refine .later ⟨_, rfl, .skip hfetch hknown hc⟩ ?_
    rintro s' ⟨-, hstep⟩
    cases hstep with
    | skip _ _ _ => exact hskip hc
    | exec hfetch' hc' _ _ _ =>
      cases hword _ hfetch'
      cases hc.symm.trans hc'

/-! ## Instructions of a program -/

/-- The registers, the PC and what stays the same after an instruction that leaves the memory. -/
structure Machine.After (m : Machine) (regs : Byte → Word) (pc : Word) (m' : Machine) : Prop where
  regs : ∀ r, r ≠ 15 → m'.regs r = regs r
  pc : m'.pc = pc
  mem : m'.mem = m.mem
  output : m'.output = m.output

/-- The conditions that compare two signed numbers, or their equality, answer so. -/
structure Machine.Compares (m : Machine) (x y : Word) : Prop where
  eq : m.holds Cond.EQ = decide (x = y)
  ne : m.holds Cond.NE = decide (x ≠ y)
  ge : m.holds Cond.GE = decide (y.toInt ≤ x.toInt)
  lt : m.holds Cond.LT = decide (x.toInt < y.toInt)

/-- The flags of a difference compare its operands. -/
theorem Machine.Compares.of_flags {m : Machine} {x y : Word}
    (hn : m.n = decide ((referenceResult Opcode.SUB x y).toInt < 0))
    (hz : m.z = decide (referenceResult Opcode.SUB x y = 0))
    (hv : m.v = decide (Overflows (exactResult Opcode.SUB x.toInt y.toInt))) : m.Compares x y := by
  have hx := x.toInt_lt
  have hx' := x.le_toInt
  have hy := y.toInt_lt
  have hy' := y.le_toInt
  obtain ⟨hsign, hzero⟩ := flags_of_exact (x := x.toInt - y.toInt) (by omega) (by omega)
  have hlt : (m.n != m.v) = decide (x.toInt < y.toInt) := by
    rw [hn, hv, Bool.eq_iff_iff, bne_iff_ne, ne_eq, decide_eq_decide, decide_eq_true_eq]
    exact hsign.trans (by omega)
  have heq : m.z = decide (x = y) := by
    rw [hz, decide_eq_decide]
    refine hzero.trans ?_
    rw [← BitVec.toInt_inj]
    omega
  refine ⟨heq, ?_, ?_, hlt⟩
  · show (!m.z) = _
    rw [heq, ← decide_not]
  · show (m.n == m.v) = _
    rw [← Bool.not_not (_ == _), ← bne, hlt, ← decide_not]
    exact decide_eq_decide.2 Int.not_lt

/-- The result of `ADD` is the sum. -/
theorem referenceResult_add (x y : Word) : referenceResult Opcode.ADD x y = x + y := by
  show BitVec.ofInt 32 (x.toInt + y.toInt) = _
  rw [BitVec.ofInt_add, BitVec.ofInt_toInt, BitVec.ofInt_toInt]

/-- The result of `SUB` is the difference. -/
theorem referenceResult_sub (x y : Word) : referenceResult Opcode.SUB x y = x - y := by
  show BitVec.ofInt 32 (x.toInt - y.toInt) = _
  rw [Int.sub_eq_add_neg, BitVec.ofInt_add, BitVec.ofInt_neg, BitVec.ofInt_toInt,
    BitVec.ofInt_toInt, BitVec.sub_eq_add_neg]

/-- A data processing instruction without `S` writes its result to `Rd` and keeps the flags. -/
theorem Machine.data_after (m : Machine) {opcode rd : Byte} (hopcode : opcode ∉ comparisons)
    (hrd : rd ≠ 15) (x y : Word) (c : Bool) :
    m.After (Function.update m.regs rd (referenceResult opcode x y)) (m.pc + 4)
        (m.data opcode false rd x y c) ∧
      ∀ cond, (m.data opcode false rd x y c).holds cond = m.holds cond := by
  have hdata : m.data opcode false rd x y c =
      m.next.write rd (referenceResult opcode x y) := by
    show m.next.writeIf (decide (opcode ∉ comparisons)) rd (referenceResult opcode x y) = _
    rw [decide_eq_true hopcode]
    rfl
  rw [hdata]
  refine ⟨⟨fun r hr => ?_, ?_, rfl, rfl⟩, fun _ => rfl⟩
  · show Function.update (Function.update m.regs 15 _) rd _ r = _
    rw [Function.update_comm hrd.symm, Function.update_of_ne hr]
  · exact (m.next.write_pc_of_ne hrd _).trans m.next_pc

/-- A data processing instruction that writes the PC is a jump. -/
theorem Machine.jump_after (m : Machine) {opcode : Byte} (hopcode : opcode ∉ comparisons)
    (x y : Word) (c : Bool) :
    m.After m.regs (referenceResult opcode x y) (m.data opcode false 15 x y c) ∧
      ∀ cond, (m.data opcode false 15 x y c).holds cond = m.holds cond := by
  have hdata : m.data opcode false 15 x y c = m.next.write 15 (referenceResult opcode x y) := by
    show m.next.writeIf (decide (opcode ∉ comparisons)) 15 (referenceResult opcode x y) = _
    rw [decide_eq_true hopcode]
    rfl
  rw [hdata]
  refine ⟨⟨fun r hr => ?_, m.next.write_pc _, rfl, rfl⟩, fun _ => rfl⟩
  exact (Function.update_of_ne hr _ _).trans (m.next_regs hr)

/-- `SUBS` writes the difference, and both `SUBS` and `CMP` compare. -/
theorem Machine.subs_after (m : Machine) {rd : Byte} (hrd : rd ≠ 15) (x y : Word) (c : Bool) :
    m.After (Function.update m.regs rd (x - y)) (m.pc + 4) (m.data Opcode.SUB true rd x y c) ∧
      (m.data Opcode.SUB true rd x y c).Compares x y := by
  have hafter := (@Machine.data_after m Opcode.SUB rd (by decide) hrd x y c).1
  rw [referenceResult_sub] at hafter
  exact ⟨⟨hafter.regs, hafter.pc, hafter.mem, hafter.output⟩, .of_flags rfl rfl rfl⟩

/-- After `CMP` the registers are the same, and the flags compare the operands. -/
theorem Machine.cmp_after (m : Machine) (rd : Byte) (x y : Word) (c : Bool) :
    m.After m.regs (m.pc + 4) (m.data Opcode.CMP true rd x y c) ∧
      (m.data Opcode.CMP true rd x y c).Compares x y :=
  ⟨⟨fun _ => m.next_regs, m.next_pc, rfl, rfl⟩, .of_flags rfl rfl rfl⟩

/-- An instruction whose condition fails changes the PC only. -/
theorem Machine.next_after (m : Machine) : m.After m.regs (m.pc + 4) m.next :=
  ⟨fun _ => m.next_regs, m.next_pc, rfl, rfl⟩

/-- After a branch the registers are the same, and the PC is at the target. -/
theorem Machine.branch_after (m : Machine) (target : Word) :
    m.After m.regs target (m.next.write 15 target) :=
  ⟨fun _ hr => (Function.update_of_ne hr _ _).trans (m.next_regs hr), m.next.write_pc _, rfl, rfl⟩

/-- After a branch with link r14 has the address of the next instruction, and the PC is at the
target. -/
theorem Machine.link_after (m : Machine) (target : Word) :
    m.After (Function.update m.regs 14 (m.pc + 4)) target
      ((m.next.write 14 (m.pc + 4)).write 15 target) := by
  refine ⟨fun r hr => ?_, (m.next.write 14 _).write_pc _, rfl, rfl⟩
  show Function.update (Function.update (Function.update m.regs 15 _) 14 _) 15 _ r = _
  rw [Function.update_of_ne hr, Function.update_comm (by decide), Function.update_of_ne hr]

section
variable {prog : Program} {endianess : Byte} {base : Word} {mem : Memory} {m : Machine} {k : Nat}
  {opcode rd rn : Byte} {operand : Operand} {v target : Word} {offset : Int}
  {Q : Byte × Machine → Prop}

/-- The next instruction of a program is at the next address. -/
theorem pc_add_four (hpc : m.pc = base + BitVec.ofNat 32 (4 * k)) :
    m.pc + 4 = base + BitVec.ofNat 32 (4 * (k + 1)) := by
  rw [hpc, BitVec.add_assoc, Nat.mul_add, BitVec.ofNat_add]
  rfl

/-- The target of a branch is an instruction of the program. -/
theorem branch_target {j : Nat} (hpc : m.pc = base + BitVec.ofNat 32 (4 * k))
    (hj : (j : Int) = k + 2 + offset) :
    m.pc + 8 + BitVec.ofInt 32 (4 * offset) = base + BitVec.ofNat 32 (4 * j) := by
  have hfour : (4 * j : Int) = 4 * k + 8 + 4 * offset := by omega
  have hint : ∀ n : Nat, BitVec.ofNat 32 (4 * n) = BitVec.ofInt 32 (4 * n) := fun n => by
    rw [← BitVec.ofInt_natCast]
    rfl
  rw [hpc, hint, hint, hfour, BitVec.ofInt_add, BitVec.ofInt_add, BitVec.add_assoc,
    BitVec.add_assoc, BitVec.add_assoc]
  rfl

variable (h : prog.Loaded endianess base mem) (hmem : m.mem = mem)
  (hpc : m.pc = base + BitVec.ofNat 32 (4 * k))
include h hmem hpc

/-- A program goes on after a data processing instruction without `S` with the result in `Rd`. -/
theorem Program.Loaded.data
    (hk : prog.listing[k]? = some (Cond.AL, .data opcode false rd rn operand))
    (hopcode : opcode ∉ comparisons) (hrd : rd ≠ 15)
    (hv : referenceResult opcode (m.read rn) (m.operand operand).1 = v)
    (hQ : ∀ m', m.After (Function.update m.regs rd v) (base + BitVec.ofNat 32 (4 * (k + 1))) m' →
      (∀ cond, m'.holds cond = m.holds cond) → Inevitable (Machine.Runs endianess) Q (0, m')) :
    Inevitable (Machine.Runs endianess) Q (0, m) := by
  refine h.insn hmem hk hpc (fun _ c _ => ?_) nofun
  obtain ⟨hafter, hflags⟩ := m.data_after hopcode hrd (m.read rn) (m.operand operand).1 c
  rw [hv, pc_add_four hpc] at hafter
  exact hQ _ hafter hflags

/-- A program goes on at the address that a jump writes to the PC, as at the return from a
subroutine. -/
theorem Program.Loaded.jump
    (hk : prog.listing[k]? = some (Cond.AL, .data opcode false 15 rn operand))
    (hopcode : opcode ∉ comparisons)
    (hv : referenceResult opcode (m.read rn) (m.operand operand).1 = target)
    (hQ : ∀ m', m.After m.regs target m' → (∀ cond, m'.holds cond = m.holds cond) →
      Inevitable (Machine.Runs endianess) Q (0, m')) :
    Inevitable (Machine.Runs endianess) Q (0, m) := by
  refine h.insn hmem hk hpc (fun _ c _ => ?_) nofun
  obtain ⟨hafter, hflags⟩ := m.jump_after hopcode (m.read rn) (m.operand operand).1 c
  rw [hv] at hafter
  exact hQ _ hafter hflags

/-- A program goes on after `SUBS` with the difference in `Rd` and the flags of the comparison. -/
theorem Program.Loaded.subs
    (hk : prog.listing[k]? = some (Cond.AL, .data Opcode.SUB true rd rn operand)) (hrd : rd ≠ 15)
    (hQ : ∀ m', m.After (Function.update m.regs rd (m.read rn - (m.operand operand).1))
      (base + BitVec.ofNat 32 (4 * (k + 1))) m' → m'.Compares (m.read rn) (m.operand operand).1 →
        Inevitable (Machine.Runs endianess) Q (0, m')) :
    Inevitable (Machine.Runs endianess) Q (0, m) := by
  refine h.insn hmem hk hpc (fun _ c _ => ?_) nofun
  obtain ⟨hafter, hcompares⟩ := m.subs_after hrd (m.read rn) (m.operand operand).1 c
  rw [pc_add_four hpc] at hafter
  exact hQ _ hafter hcompares

/-- A program goes on after `CMP` with the flags of the comparison. -/
theorem Program.Loaded.cmp
    (hk : prog.listing[k]? = some (Cond.AL, .data Opcode.CMP true rd rn operand))
    (hQ : ∀ m', m.After m.regs (base + BitVec.ofNat 32 (4 * (k + 1))) m' →
      m'.Compares (m.read rn) (m.operand operand).1 →
        Inevitable (Machine.Runs endianess) Q (0, m')) :
    Inevitable (Machine.Runs endianess) Q (0, m) := by
  refine h.insn hmem hk hpc (fun _ c _ => ?_) nofun
  obtain ⟨hafter, hcompares⟩ := m.cmp_after rd (m.read rn) (m.operand operand).1 c
  rw [pc_add_four hpc] at hafter
  exact hQ _ hafter hcompares

/-- A load of a word without an update of the base. -/
theorem Program.Loaded.load {up : Bool} {off : Offset}
    (hk : prog.listing[k]? = some (Cond.AL, .transfer true 32 true up false rd rn off))
    (hrd : rd ≠ 15) (haccess : mem.Accessible (m.sum up rn off) 4 4)
    (hQ : ∀ m', m.After (Function.update m.regs rd (mem.value 32 endianess (m.sum up rn off)))
      (base + BitVec.ofNat 32 (4 * (k + 1))) m' → Inevitable (Machine.Runs endianess) Q (0, m')) :
    Inevitable (Machine.Runs endianess) Q (0, m) := by
  subst hmem
  refine h.insn rfl hk hpc (fun _ => ⟨haccess, hQ _ ?_⟩) nofun
  rw [← pc_add_four hpc, BitVec.setWidth_eq]
  refine ⟨fun r hr => ?_, (m.next.write_pc_of_ne hrd _).trans m.next_pc, rfl, rfl⟩
  show Function.update (Function.update m.regs 15 _) rd _ r = _
  rw [Function.update_comm hrd.symm, Function.update_of_ne hr]
  rfl

/-- A program goes on at the target of a branch if its condition holds, and behind it if not. -/
theorem Program.Loaded.branch {cond : Word} {j : Nat}
    (hk : prog.listing[k]? = some (cond, .branch false offset)) (hj : (j : Int) = k + 2 + offset)
    (htaken : m.holds cond = true → ∀ m', m.After m.regs (base + BitVec.ofNat 32 (4 * j)) m' →
      Inevitable (Machine.Runs endianess) Q (0, m'))
    (hskip : m.holds cond = false → ∀ m', m.After m.regs (base + BitVec.ofNat 32 (4 * (k + 1))) m' →
      Inevitable (Machine.Runs endianess) Q (0, m')) :
    Inevitable (Machine.Runs endianess) Q (0, m) := by
  refine h.insn hmem hk hpc (fun hc => htaken hc _ ?_) fun hc => hskip hc _ ?_
  · rw [← branch_target hpc hj]
    exact m.branch_after _
  · rw [← pc_add_four hpc]
    exact m.next_after

/-- A program goes on at the target of a call, with the return address in r14. -/
theorem Program.Loaded.call {j : Nat}
    (hk : prog.listing[k]? = some (Cond.AL, .branch true offset))
    (hj : (j : Int) = k + 2 + offset)
    (hQ : ∀ m', m.After (Function.update m.regs 14 (base + BitVec.ofNat 32 (4 * (k + 1))))
      (base + BitVec.ofNat 32 (4 * j)) m' → Inevitable (Machine.Runs endianess) Q (0, m')) :
    Inevitable (Machine.Runs endianess) Q (0, m) := by
  refine h.insn hmem hk hpc (fun _ => hQ _ ?_) nofun
  rw [← branch_target hpc hj, ← pc_add_four hpc]
  exact m.link_after _

/-- A program ends at `SWI 0x123456`. -/
theorem Program.Loaded.exit (hk : prog.listing[k]? = some (Cond.AL, .swi 0x123456))
    (hQ : ∀ m', m.After m.regs (base + BitVec.ofNat 32 (4 * (k + 1))) m' → Q (endSimulation, m')) :
    Inevitable (Machine.Runs endianess) Q (0, m) := by
  refine h.insn hmem hk hpc (fun _ => .now (hQ _ ?_)) nofun
  rw [← pc_add_four hpc]
  exact m.next_after

end

end ArmSimulator
