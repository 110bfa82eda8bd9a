import ArmSimulator.DebuggedPrograms

/-!
# Checkpoints

A debugger that has read the registers with `g` and the memory with `m` can bring back what a
program sees, whatever has run since: two `G` packets with the answer to `g`, the first of which
changes the mode and the second the registers of the mode, and an `X` packet with the bytes. The
SPSR and the banked registers of the other modes are in no packet and are not brought back. No
instruction of the fragment reads them, so none can tell what is different then (`Alike`), and a
program comes again to what it would have come to on the machine at the checkpoint
(`checkpoint_restored`).
-/

namespace ArmSimulator

open Gdb

/-! ## Memories that agree -/

/-- The memories hold the same bytes. -/
structure Memory.Alike (mem mem' : Memory) : Prop where
  size : mem'.size = mem.size
  data : ∀ i < mem.size.toNat, mem'.data i = mem.data i

/-- The second memory with the `n` bytes of the first one from the address on. -/
def Memory.patched (mem mem' : Memory) (address n : Nat) : Memory :=
  { mem' with data := fun i =>
      if address ≤ i ∧ i < address + n then mem.data i else mem'.data i }

section
variable {mem mem' mem₁ : Memory} {address start : Word} {be : Byte} {n : Nat}

/-- Two memories are alike in either order. -/
theorem Memory.Alike.symm (h : mem.Alike mem') : mem'.Alike mem :=
  ⟨h.size.symm, fun i hi => (h.data i (h.size ▸ hi)).symm⟩

/-- Two memories that are alike hold the same bytes. -/
theorem Memory.Alike.holds (h : mem.Alike mem') (hholds : mem.Holds address n) :
    mem'.Holds address n :=
  ⟨h.size.symm ▸ hholds.fits, h.size.symm ▸ hholds.size_le⟩

/-- Two memories that are alike can be accessed at the same addresses. -/
theorem Memory.Alike.accessible (h : mem.Alike mem') {unit : Nat}
    (haccess : mem.Accessible address n unit) : mem'.Accessible address n unit :=
  ⟨h.holds haccess.holds, haccess.aligned⟩

/-- Two memories that are alike have the same values at their addresses. -/
theorem Memory.Alike.value (h : mem.Alike mem') {w : Nat} (hholds : mem.Holds address (w / 8)) :
    mem'.value w be address = mem.value w be address := by
  have hfits := hholds.fits
  exact Memory.value_congr be fun i hi => h.data _ (by omega)

/-- A memory that differs from the first one in these bytes only is like the patched one. -/
theorem Memory.Alike.patched (h : mem.Alike mem') (hsize : mem₁.size = mem.size) {a : Nat}
    (hdata : ∀ i, i < a ∨ a + n ≤ i → mem₁.data i = mem.data i) :
    mem₁.Alike (mem₁.patched mem' a n) := by
  refine ⟨h.size.trans hsize.symm, fun i hi => ?_⟩
  show (if a ≤ i ∧ i < a + n then mem₁.data i else mem'.data i) = _
  split_ifs with hin
  · rfl
  · rw [h.data i (hsize ▸ hi)]
    exact (hdata i (by omega)).symm

/-- The patched bytes are those of the first memory. -/
theorem Memory.patched_inside {a i : Nat} (hi : a ≤ i ∧ i < a + n) :
    (mem.patched mem' a n).data i = mem.data i := if_pos hi

/-- Outside the patch the bytes are those of the second memory. -/
theorem Memory.patched_outside {a i : Nat} (hi : i < a ∨ a + n ≤ i) :
    (mem.patched mem' a n).data i = mem'.data i := if_neg (by omega)

/-- What is written to a memory can be written to one like it. -/
theorem Memory.Alike.wrote (h : mem.Alike mem') {w : Nat} {v : BitVec w}
    (hwrote : Memory.Wrote be address v mem mem₁) :
    ∃ mem₁', Memory.Wrote be address v mem' mem₁' ∧ mem₁.Alike mem₁' := by
  refine ⟨mem₁.patched mem' address.toNat (w / 8), ⟨?_, rfl, fun i hi => patched_outside hi⟩,
    h.patched hwrote.size hwrote.data⟩
  rw [← hwrote.value]
  exact Memory.value_congr be fun i hi => patched_inside (by omega)

/-- The words of a block can be stored in a memory like the one they are stored in. -/
theorem Memory.Alike.blockStored (h : mem.Alike mem') {registerList : Half} {values : Nat → Word}
    (hholds : mem.Holds start (4 * listed registerList 16))
    (hstored : BlockStored registerList be start 16 values mem mem₁) :
    ∃ mem₁', BlockStored registerList be start 16 values mem' mem₁' ∧ mem₁.Alike mem₁' := by
  refine ⟨mem₁.patched mem' start.toNat (4 * listed registerList 16),
    ⟨rfl, fun i hi hin => ?_, fun i hi => patched_outside hi⟩,
    h.patched hstored.size hstored.data⟩
  rw [← hstored.words i hi hin]
  have hlt := listed_lt hin hi
  have haddress := hholds.add_toNat (i := 4 * listed registerList i) (by omega)
  exact Memory.value_congr be fun k hk => patched_inside (by rw [haddress]; omega)

end

/-! ## Machines that no instruction of the fragment tells apart -/

/-- The machine with another memory and another output. -/
def Machine.withStore (m : Machine) (mem : Memory) (output : List Byte) : Machine :=
  { m with mem, output }

section
variable (m : Machine) (mem : Memory) (output : List Byte)

/-- The write of a register does not depend on the memory and the output. -/
theorem Machine.writeIf_withStore (b : Bool) (reg : Byte) (value : Word) :
    (m.withStore mem output).writeIf b reg value =
      (m.writeIf b reg value).withStore mem output := by
  cases b with
  | false => rfl
  | true => rfl

/-- The write of a register keeps the memory. -/
theorem Machine.writeIf_mem (b : Bool) (reg : Byte) (value : Word) :
    (m.writeIf b reg value).mem = m.mem := by
  cases b with
  | false => rfl
  | true => rfl

/-- A data processing instruction keeps the memory. -/
theorem Machine.data_mem (opcode : Byte) (setFlags : Bool) (rd : Byte) (x y : Word)
    (carry : Bool) : (m.data opcode setFlags rd x y carry).mem = m.mem := by
  have hwrite := m.next.writeIf_mem (decide (opcode ∉ comparisons)) rd (referenceResult opcode x y)
  cases setFlags with
  | false => exact hwrite
  | true => exact hwrite

/-- A data processing instruction does not depend on the memory and the output. -/
theorem Machine.data_withStore (opcode : Byte) (setFlags : Bool) (rd : Byte) (x y : Word)
    (carry : Bool) : (m.withStore mem output).data opcode setFlags rd x y carry =
      (m.data opcode setFlags rd x y carry).withStore mem output := by
  have hwrite := m.next.writeIf_withStore mem output (decide (opcode ∉ comparisons)) rd
    (referenceResult opcode x y)
  cases setFlags with
  | false => exact hwrite
  | true => exact congrArg (fun m' : Machine => m'.setFlags (referenceResult opcode x y) carry
      (m.overflow opcode x y)) hwrite

/-- The write-back of a single transfer does not depend on the memory and the output. -/
theorem Machine.based_withStore (pre up writeBack : Bool) (rn : Byte) (offset : Offset) :
    (m.withStore mem output).based pre up writeBack rn offset =
      (m.based pre up writeBack rn offset).withStore mem output :=
  m.next.writeIf_withStore mem output _ rn _

/-- The write-back of a block transfer does not depend on the memory and the output. -/
theorem Machine.raised_withStore (writeBack : Bool) (rn : Byte) (registerList : Half)
    (base : Word) : (m.withStore mem output).raised writeBack rn registerList base =
      (m.raised writeBack rn registerList base).withStore mem output :=
  m.writeIf_withStore mem output _ rn _

end

/-- The machines differ in what lies outside the memory, and in what they have printed. -/
def Machine.Alike (m m' : Machine) : Prop :=
  ∃ mem output, m' = m.withStore mem output ∧ m.mem.Alike mem

namespace Machine.Alike

variable {m m' : Machine} {endianess : Byte}

/-- Two machines are alike in either order. -/
theorem symm (h : m.Alike m') : m'.Alike m := by
  obtain ⟨mem, output, rfl, hmem⟩ := h
  exact ⟨m.mem, m.output, rfl, hmem.symm⟩

/-- The registers of the list are loaded from words that both memories hold. -/
theorem loadBlock {mem : Memory} (h : m.mem.Alike mem) (output : List Byte) {start : Word}
    {registerList : Half} (hholds : m.mem.Holds start (4 * listed registerList 16)) :
    (m.withStore mem output).loadBlock endianess registerList start =
      (m.loadBlock endianess registerList start).withStore mem output := by
  have hregs : ((m.withStore mem output).loadBlock endianess registerList start).regs =
      (m.loadBlock endianess registerList start).regs := by
    funext reg
    show (if _ then if _ then _ else _ else m.regs reg) = if _ then _ else _
    by_cases hlisted : registerList.getLsbD reg.toNat = true
    · have hlt : reg.toNat < 16 := by
        by_contra hge
        rw [BitVec.getLsbD_of_ge _ _ (Nat.not_lt.1 hge)] at hlisted
        cases hlisted
      have hword : blockWord registerList endianess mem start reg.toNat =
          blockWord registerList endianess m.mem start reg.toNat :=
        h.value (hholds.word hlt hlisted)
      rw [if_pos hlisted, if_pos hlisted]
      exact congrArg (fun word : Word => if reg = 15 then word &&& 0xFFFFFFFC else word) hword
    · rw [if_neg hlisted, if_neg hlisted]
  exact congrArg (fun regs => { m.withStore mem output with regs }) hregs

/-- What leaves the memory of the one machine leaves that of the other. -/
theorem of_mem {m₁ : Machine} {mem : Memory} (h : m.mem.Alike mem) (hm₁ : m₁.mem = m.mem)
    (output : List Byte) : m₁.Alike (m₁.withStore mem output) :=
  ⟨mem, output, rfl, hm₁.symm ▸ h⟩

/-- An instruction does the same to both. -/
theorem exec (h : m.Alike m') {i : Insn} {r : Byte × Machine} (hexec : i.Exec endianess m r) :
    ∃ r', i.Exec endianess m' r' ∧ r'.1 = r.1 ∧ r.2.Alike r'.2 := by
  obtain ⟨mem, output, rfl, hmem⟩ := h
  cases hexec with
  | @data opcode rd rn setFlags carry operand hcarry =>
    refine ⟨_, .data hcarry, rfl, ?_⟩
    have hmem' := m.data_mem opcode setFlags rd (m.read rn) (m.operand operand).1 carry
    have halike := of_mem hmem hmem' output
    rw [← m.data_withStore] at halike
    exact halike
  | @load width pre up writeBack rd rn offset haccess =>
    refine ⟨_, .load (hmem.accessible haccess), rfl, ?_⟩
    have hvalue : mem.value width endianess (m.address pre up rn offset) = _ :=
      hmem.value haccess.holds
    have hbased := m.based_withStore mem output pre up writeBack rn offset
    have hmem' : ((m.based pre up writeBack rn offset).write rd ((m.mem.value width endianess
        (m.address pre up rn offset)).setWidth 32)).mem = m.mem := m.next.writeIf_mem _ rn _
    have halike := of_mem hmem hmem' output
    show Machine.Alike _ (((m.withStore mem output).based pre up writeBack rn offset).write rd
      ((mem.value width endianess (m.address pre up rn offset)).setWidth 32))
    rw [hbased, hvalue]
    exact halike
  | @store width pre up writeBack rd rn offset mem₁ haccess hwrote =>
    obtain ⟨mem₁', hwrote', halike⟩ := hmem.wrote hwrote
    refine ⟨_, .store (hmem.accessible haccess) hwrote', rfl, mem₁', output, ?_, halike⟩
    exact congrArg (fun m₁ : Machine => { m₁ with mem := mem₁' })
      (m.based_withStore mem output pre up writeBack rn offset)
  | @loadBlock pre up writeBack rn registerList haccess =>
    refine ⟨_, .loadBlock (hmem.accessible haccess), rfl, ?_⟩
    have hload : (m.next.withStore mem output).loadBlock endianess registerList
        (m.first pre up rn registerList) = (m.next.loadBlock endianess registerList
          (m.first pre up rn registerList)).withStore mem output :=
      loadBlock (show m.next.mem.Alike mem from hmem) output haccess.holds
    show Machine.Alike _ (((m.next.withStore mem output).loadBlock endianess registerList
      (m.first pre up rn registerList)).raised writeBack rn registerList (m.read rn))
    rw [hload, Machine.raised_withStore]
    have hraised : ((m.next.loadBlock endianess registerList (m.first pre up rn
        registerList)).raised writeBack rn registerList (m.read rn)).mem = m.mem :=
      Machine.writeIf_mem _ writeBack rn _
    exact of_mem hmem hraised output
  | @storeBlock pre up writeBack rn registerList mem₁ haccess hstored =>
    obtain ⟨mem₁', hstored', halike⟩ := hmem.blockStored haccess.holds hstored
    refine ⟨_, .storeBlock (hmem.accessible haccess) hstored', rfl, mem₁', output, ?_, halike⟩
    exact congrArg (fun m₁ : Machine => { m₁ with mem := mem₁' })
      (m.next.raised_withStore mem output writeBack rn registerList (m.read rn))
  | @branch link offset =>
    refine ⟨_, .branch, rfl, ?_⟩
    have hlink := m.next.writeIf_withStore mem output link 14 (m.pc + 4)
    show Machine.Alike _ (((m.next.withStore mem output).writeIf link 14 (m.pc + 4)).write 15
      (m.pc + 8 + BitVec.ofInt 32 (4 * offset)))
    rw [hlink]
    exact ⟨mem, output, rfl, (m.next.writeIf_mem link 14 (m.pc + 4)).symm ▸ hmem⟩
  | exit => exact ⟨_, .exit, rfl, mem, output, rfl, hmem⟩
  | putchar => exact ⟨_, .putchar, rfl, mem, _, rfl, hmem⟩

/-- A step of the one machine is a step of the other. -/
theorem step (h : m.Alike m') {r : Byte × Machine} (hstep : m.Step endianess r) :
    ∃ r', m'.Step endianess r' ∧ r'.1 = r.1 ∧ r.2.Alike r'.2 := by
  have hfetch : ∀ {w}, m.Fetches endianess w → m'.Fetches endianess w := by
    obtain ⟨mem, output, rfl, hmem⟩ := h
    exact fun hf => ⟨hf.aligned, hmem.holds hf.holds, (hmem.value hf.holds).trans hf.word⟩
  have hholds : ∀ cond, m'.holds cond = m.holds cond := by
    obtain ⟨mem, output, rfl, -⟩ := h
    exact fun _ => rfl
  cases hstep with
  | skip hf hknown hcond =>
    refine ⟨_, .skip (hfetch hf) hknown ((hholds _).trans hcond), rfl, ?_⟩
    obtain ⟨mem, output, rfl, hmem⟩ := h
    exact ⟨mem, output, rfl, hmem⟩
  | exec hf hcond hdecode hregular hexec =>
    obtain ⟨r', hexec', hr'⟩ := h.exec hexec
    exact ⟨r', .exec (hfetch hf) ((hholds _).trans hcond) hdecode hregular hexec', hr'⟩

/-- What one cannot avoid the other cannot, if what they differ in does not matter. -/
theorem inevitable {T : Byte × Machine → Prop} {c : Byte}
    (hT : ∀ c m m', m.Alike m' → T (c, m) → T (c, m')) (h : m.Alike m')
    (hm : Inevitable (Machine.Runs endianess) T (c, m)) :
    Inevitable (Machine.Runs endianess) T (c, m') := by
  have hstart : c = c ∧ m.Alike m' := ⟨rfl, h⟩
  refine (Inevitable.of_sim (s := (c, m')) (R := fun s t : Byte × Machine =>
    s.1 = t.1 ∧ t.2.Alike s.2) ?_ hm hstart).mono ?_
  · rintro s t ⟨hst, halike⟩ ⟨t', ht0, ht⟩
    obtain ⟨s', hs, -⟩ := halike.step ht
    refine ⟨⟨s', hst.trans ht0, hs⟩, ?_⟩
    rintro s₁ ⟨-, hs₁⟩
    obtain ⟨t₁, ht₁, heq, halike₁⟩ := halike.symm.step hs₁
    exact ⟨t₁, ⟨ht0, ht₁⟩, heq.symm, halike₁.symm⟩
  · rintro ⟨c', m₁⟩ ⟨⟨c'', m₂⟩, ⟨rfl, halike⟩, ht⟩
    exact hT _ _ _ halike ht

end Machine.Alike

/-! ## Checkpoints -/

section
variable (g : GdbData)

/-- The registers of the mode, as the debugger has read them. -/
def GdbData.words (i : Nat) : Word := registersRead g.arm.reg (BitVec.ofNat 8 i) g.arm.mode

/-- The request that writes them. -/
def GdbData.registersRequest : Request := .writeRegisters g.words g.arm.reg.cpsr

/-- The bytes of the memory, and the request that writes them. -/
def GdbData.memoryRequest : Request :=
  .writeMemory 0 ((List.range g.arm.mem.size.toNat).map g.arm.mem.data)

/-- The `G` packet is the answer to `g`, with a `G` before it. -/
theorem encode_registersRequest (endianess : Byte) : ∃ text,
    Serves endianess g.target .readRegisters (some text) g.target ∧
      g.registersRequest.encode = Ascii.of 'G' :: text := by
  refine ⟨_, .readRegisters, ?_⟩
  show _ = Ascii.of 'G' :: generalRegistersText g.arm
  rw [GdbData.registersRequest, Request.encode, writeRegistersPayload, generalRegistersText]
  simp only [List.append_assoc]
  rfl

/-- The debugger writes the checkpoint `g`. -/
def Restores (endianess : Byte) (g₀ g' : GdbData) : Prop :=
  ∃ g₁ g₂, Handled endianess g.registersRequest g₀ g₁ ∧
    Handled endianess g.registersRequest g₁ g₂ ∧ Handled endianess g.memoryRequest g₂ g'

end

section
variable {endianess : Byte} {g g₀ g₁ g₂ g' : GdbData}

/-- What a `G` packet leaves. -/
structure RegistersWritten (words : Nat → Word) (cpsr : Word) (g₀ g₁ : GdbData) : Prop where
  connected : Connected g₁
  reg : g₁.arm.reg =
    registersWriteCpsr (writeWords g₀.arm.mode words (List.range 16) g₀.arm.reg) cpsr
  mem : g₁.arm.mem = g₀.arm.mem
  exception : g₁.targetException = g₀.targetException
  addresses : g₁.addresses = g₀.addresses

/-- The request that restores the registers writes them. -/
theorem registersWritten_of_handled (hg₀ : Connected g₀)
    (h : Handled endianess g.registersRequest g₀ g₁) :
    RegistersWritten g.words g.arm.reg.cpsr g₀ g₁ := by
  obtain ⟨payload, hserves, -, hconnected⟩ := h.served hg₀.table nofun
  generalize ht : g₁.target = t at hserves
  cases hserves
  exact ⟨hconnected, congrArg (fun t : Target => t.arm.reg) ht,
    congrArg (fun t : Target => t.arm.mem) ht, congrArg Target.exception ht,
    congrArg Target.breakpoints ht⟩

/-- Where the mode is the one of the CPSR written, the registers read as the words. -/
theorem RegistersWritten.read (h : RegistersWritten g.words g.arm.reg.cpsr g₀ g₁)
    (hm : g.arm.mode ∈ modes) (hmode : g₀.arm.mode = g.arm.mode) (reg : Byte) :
    registersRead g₁.arm.reg reg g.arm.mode = registersRead g.arm.reg reg g.arm.mode := by
  by_cases hr : reg ≤ 15
  · have hlt : reg.toNat < 16 := Nat.lt_succ_of_le hr
    have hreg : BitVec.ofNat 8 reg.toNat = reg := by rw [BitVec.ofNat_toNat, BitVec.setWidth_eq]
    have hread := registersRead_writeWords g.arm.mode g.words g₀.arm.reg hlt
      (fun i hi => List.mem_range.1 hi) List.nodup_range g.arm.mode
      (hreg.symm ▸ slot_isSome hr hm)
    rw [if_pos ⟨List.mem_range.2 hlt, rfl⟩, GdbData.words, hreg] at hread
    rw [h.reg, hmode]
    exact hread
  · have hnone : slot reg g.arm.mode = none := by
      rw [← Option.not_isSome_iff_eq_none]
      intro hs
      obtain ⟨i, hi⟩ := Option.isSome_iff_exists.1 hs
      obtain ⟨m, hmod, -⟩ := slot_some hi
      exact hr (modeInd_le hmod)
    rw [registersRead, registersRead, hnone]

/-- An `X` packet leaves a memory like that of the checkpoint, and the rest of the target. -/
theorem memoryWritten_of_handled (hg₂ : Connected g₂) (hsize : g₂.arm.mem.size = g.arm.mem.size)
    (h : Handled endianess g.memoryRequest g₂ g') :
    Connected g' ∧ g'.arm.reg = g₂.arm.reg ∧ g.arm.mem.Alike g'.arm.mem ∧
      g'.targetException = g₂.targetException ∧ g'.addresses = g₂.addresses := by
  obtain ⟨payload, hserves, -, hconnected⟩ := h.served hg₂.table nofun
  have hlength : ((List.range g.arm.mem.size.toNat).map g.arm.mem.data).length =
      g.arm.mem.size.toNat := by rw [List.length_map, List.length_range]
  generalize ht : g'.target = t at hserves
  cases hserves with
  | @writeMemory _ _ mem _ hwritten =>
    have hmem : g'.arm.mem = mem := congrArg (fun t : Target => t.arm.mem) ht
    refine ⟨hconnected, congrArg (fun t : Target => t.arm.reg) ht, ⟨?_, fun i hi => ?_⟩,
      congrArg Target.exception ht, congrArg Target.breakpoints ht⟩
    · rw [hmem, hwritten.size]
      exact hsize
    · have hinside := hwritten.inside i (hlength.symm ▸ hi)
      rw [List.getElem_map, List.getElem_range] at hinside
      rw [hmem, ← hinside]
      exact congrArg mem.data (Nat.zero_add i).symm
  | writeMemoryOutside hend _ =>
    have hout : g₂.arm.mem.size.toNat < 0 + g.arm.mem.size.toNat := hlength ▸ hend
    rw [hsize] at hout
    omega

/-- The debugger can write a checkpoint at any time. -/
theorem exists_restores (endianess : Byte) (hg₀ : Connected g₀) (hpos : 0 < g.arm.mem.size.toNat)
    (hlt : g.arm.mem.size.toNat < 2 ^ 32) : ∃ g', Restores g endianess g₀ g' := by
  have hmemory : g.memoryRequest.Ok := by
    have hlength : ((List.range g.arm.mem.size.toNat).map g.arm.mem.data).length =
        g.arm.mem.size.toNat := by rw [List.length_map, List.length_range]
    refine ⟨List.ne_nil_of_length_pos (hlength.symm ▸ hpos), hlength.symm ▸ hlt, ?_⟩
    rw [hlength]
    exact (Nat.zero_add _).symm ▸ hlt.le
  obtain ⟨g₁, h₁⟩ := exists_handled (r := g.registersRequest) endianess hg₀ trivial nofun
  have hw₁ := registersWritten_of_handled hg₀ h₁
  obtain ⟨g₂, h₂⟩ := exists_handled (r := g.registersRequest) endianess hw₁.connected trivial nofun
  have hw₂ := registersWritten_of_handled hw₁.connected h₂
  obtain ⟨g', h'⟩ := exists_handled (r := g.memoryRequest) endianess hw₂.connected hmemory nofun
  exact ⟨g', g₁, g₂, h₁, h₂, h'⟩

/-- The machine is like that of the checkpoint once the checkpoint is written. -/
theorem Restores.alike (h : Restores g endianess g₀ g') (hg₀ : Connected g₀)
    (hsize : g₀.arm.mem.size = g.arm.mem.size) (hm : g.arm.mode ∈ modes) :
    g.arm.machine.Alike g'.arm.machine ∧ g'.arm.mode = g.arm.mode ∧ Connected g' ∧
      g'.targetException = g₀.targetException ∧ g'.addresses = g₀.addresses := by
  obtain ⟨g₁, g₂, h₁, h₂, h'⟩ := h
  have hw₁ := registersWritten_of_handled hg₀ h₁
  have hw₂ := registersWritten_of_handled hw₁.connected h₂
  have hcpsr₁ : g₁.arm.reg.cpsr = g.arm.reg.cpsr := by rw [hw₁.reg]; rfl
  have hcpsr₂ : g₂.arm.reg.cpsr = g.arm.reg.cpsr := by rw [hw₂.reg]; rfl
  have hmode₁ : g₁.arm.mode = g.arm.mode :=
    congrArg (fun cpsr : Word => (cpsr &&& 0x1F).setWidth 8) hcpsr₁
  obtain ⟨hconnected, hreg, hmem, hexception, haddresses⟩ :=
    memoryWritten_of_handled hw₂.connected (by rw [hw₂.mem, hw₁.mem, hsize]) h'
  have hcpsr : g'.arm.reg.cpsr = g.arm.reg.cpsr := by rw [hreg, hcpsr₂]
  have hmode : g'.arm.mode = g.arm.mode :=
    congrArg (fun cpsr : Word => (cpsr &&& 0x1F).setWidth 8) hcpsr
  refine ⟨⟨g'.arm.mem, g'.arm.output, ?_, hmem⟩, hmode, hconnected,
    hexception.trans (hw₂.exception.trans hw₁.exception),
    haddresses.trans (hw₂.addresses.trans hw₁.addresses)⟩
  have hregs : ∀ reg, registersRead g'.arm.reg reg g'.arm.mode =
      registersRead g.arm.reg reg g.arm.mode := by
    intro reg
    rw [hreg, hmode]
    exact hw₂.read hm hmode₁ reg
  unfold ArmCore.machine Machine.withStore
  rw [hcpsr]
  congr 1
  exact funext hregs

end

/-- **Checkpoints.** Whatever has run since the debugger has read the registers and the memory of a
target in one of the seven modes, it can write them back as it has read them, and has then, whatever
the locals hold, a target with the registers of the mode, the flags and the memory of the
checkpoint. What was inevitable on the machine there, for the instructions of the fragment and
whatever the carry of a sum or a difference is taken to be, is inevitable again, under the
debugger. -/
theorem checkpoint_restored (endianess : Byte) {g g₀ : GdbData} (hg₀ : Connected g₀)
    (hm : g.arm.mode ∈ modes) (hsize : g₀.arm.mem.size = g.arm.mem.size)
    (hpos : 0 < g.arm.mem.size.toNat) (hlt : g.arm.mem.size.toNat < 2 ^ 32) :
    (∃ text, Serves endianess g.target .readRegisters (some text) g.target ∧
      g.registersRequest.encode = Ascii.of 'G' :: text) ∧
    (∃ g', Restores g endianess g₀ g') ∧ ∀ g', Restores g endianess g₀ g' →
      g.arm.machine.Alike g'.arm.machine ∧ g'.arm.mode = g.arm.mode ∧
      g'.addresses = g₀.addresses ∧ g'.targetException = g₀.targetException ∧
      (g₀.targetException = 0 → ∀ T : Byte × Machine → Prop, (∀ t, T t → t.1 ≠ 0) →
        (∀ c m m', m.Alike m' → T (c, m) → T (c, m')) →
        Inevitable (Machine.Runs endianess) T (0, g.arm.machine) →
        Inevitable (Proceeds endianess)
          (fun g'' => T (g''.targetException, g''.arm.machine)) g') := by
  refine ⟨encode_registersRequest g endianess, exists_restores endianess hg₀ hpos hlt,
    fun g' h => ?_⟩
  obtain ⟨halike, hmode, hconnected, hexception, haddresses⟩ := h.alike hg₀ hsize hm
  refine ⟨halike, hmode, haddresses, hexception, fun h0 T hT hTalike hT₀ => ?_⟩
  have hrun := halike.inevitable hTalike hT₀
  exact (inevitable_debugged hconnected (hexception.trans h0) (hmode.symm ▸ hm) hT hrun).mono
    fun g'' h'' => h''.1.1

/-- Another program in interrupt mode, where `example1.s` was. -/
def overwritten : GdbData :=
  gdbInitData (.initial 0x12 ⟨fun _ => 0, 24⟩) (fun _ => 0) fun _ => 0

/-- `example1.s` counts down again. -/
theorem checkpoint_restored_example :
    ∃ g', Restores debuggedExample 1 overwritten g' ∧
      Inevitable (Proceeds 1) (fun g'' => g''.targetException = endSimulation ∧
        g''.arm.machine.regs 0 = 0) g' := by
  have hloaded : example1.Loaded 1 0 debuggedExample.arm.mem :=
    ⟨by decide, fun k hk => ⟨by revert k; decide, by decide⟩, by decide⟩
  have hrun : Inevitable (Machine.Runs 1) (fun t => t.1 = endSimulation ∧ t.2.regs 0 = 0)
      (0, debuggedExample.arm.machine) :=
    (countsDown hloaded rfl (by decide)).mono fun t ht => ⟨ht.code, ht.r0⟩
  have hconnected : Connected overwritten := ⟨.of_empty rfl, rfl⟩
  have hmode : debuggedExample.arm.mode ∈ modes := by decide
  obtain ⟨-, ⟨g', h⟩, hall⟩ :=
    checkpoint_restored 1 hconnected hmode (by decide) (by decide) (by decide)
  obtain ⟨-, -, -, -, hinevitable⟩ := hall g' h
  refine ⟨g', h, hinevitable rfl (fun t => t.1 = endSimulation ∧ t.2.regs 0 = 0) ?_ ?_ hrun⟩
  · rintro t ⟨hcode, -⟩
    rw [hcode]
    decide
  · rintro c m m' ⟨mem, output, rfl, -⟩ ht
    exact ht

end ArmSimulator
