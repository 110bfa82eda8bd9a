import ArmSimulator.MemoryStore
import ArmSimulator.Simulation
import Mathlib.Data.List.Basic

/-!
# The two builds

`ENDIANESS` selects the order of the bytes in every access to the memory. A program that accesses
the memory in aligned words only cannot tell: run by the little-endian build on the memory with the
bytes of each aligned word reversed, it computes the same (`builds_agree`). The two builds are
related by `BuildsAgree`, a simulation up to an access that is not one of an aligned word in the
memory; the accesses traced say whether there was one.
-/

namespace ArmSimulator

open Prog

/-! ## The memories -/

/-- The address with the same place in the aligned word, counted from the other end. -/
def mirrored (i : Nat) : Nat := 4 * (i / 4) + (3 - i % 4)

/-- The second memory is the first one with the bytes of every aligned word reversed. -/
structure WordsReversed (mem mem' : Memory) : Prop where
  size : mem'.size = mem.size
  whole : mem.size.toNat % 4 = 0
  data : ∀ i < mem.size.toNat, mem'.data (mirrored i) = mem.data i

/-- An access to an aligned word inside a memory of the given size. -/
structure Access.WordIn (size : BitVec 64) (a : Access) : Prop where
  word : a.size = 4
  aligned : a.address.toNat % 4 = 0
  inside : a.address.toNat + 4 ≤ size.toNat

section
variable {size : BitVec 64} {address : Word}

/-- The bytes of an aligned word have consecutive indices. -/
theorem Access.WordIn.add_toNat (h : Access.WordIn size ⟨4, address⟩) {i : Nat} (hi : i < 4) :
    (address + BitVec.ofNat 32 i).toNat = address.toNat + i := by
  have ha := h.aligned
  have hlt := address.isLt
  rw [BitVec.toNat_add, BitVec.toNat_ofNat]
  simp only at ha
  omega

/-- The bytes of an aligned word are mirrored within the word. -/
theorem Access.WordIn.mirrored (h : Access.WordIn size ⟨4, address⟩) {i : Nat} (hi : i < 4) :
    ArmSimulator.mirrored (address.toNat + i) = address.toNat + (3 - i) := by
  have ha := h.aligned
  simp only at ha
  unfold ArmSimulator.mirrored
  omega

/-- An access to an aligned word in the memory passes the checks. -/
theorem Access.WordIn.check {mem : Memory} (h : Access.WordIn mem.size ⟨4, address⟩) :
    memoryCheck mem 3 address = .success := by
  have hin := h.inside
  simp only at hin
  have h0 : mem.size ≠ 0 := by
    intro h0
    rw [h0] at hin
    simp at hin
  have hsub : (mem.size - BitVec.ofNat 64 3).toNat = mem.size.toNat - 3 := by
    rw [BitVec.toNat_sub_of_le]
    · rfl
    · rw [BitVec.le_def]
      simp
      omega
  have hult : mem.inRange 3 address = true := by
    have ha := address.isLt
    simp only [Memory.inRange, BitVec.ult, hsub, BitVec.toNat_setWidth, decide_eq_true_eq]
    omega
  rw [memoryCheck, if_neg h0, if_pos hult]

variable {mem mem' : Memory}

/-- The two builds read the same word. -/
theorem memoryReadWord_wordsReversed (hr : WordsReversed mem mem')
    (h : Access.WordIn mem.size ⟨4, address⟩) (value : Word) :
    memoryReadWord mem address value 1 = memoryReadWord mem' address value 0 := by
  have hc := h.check
  have hc' := (memoryCheck_congr hr.size 3 address).trans hc
  have hget : ∀ i < 4, mem'.get address (3 - i) = mem.get address i := by
    intro i hi
    have hlt : address.toNat + i < mem.size.toNat := by
      have := h.inside
      simp only at this
      omega
    rw [Memory.get, h.add_toNat (by omega), ← h.mirrored hi, hr.data _ hlt, Memory.get,
      h.add_toNat hi]
  rw [memoryReadWord, memoryReadWord, hc, hc']
  simp only [ne_eq, not_true_eq_false, if_false]
  rw [if_pos (by decide)]
  refine congrArg (Prod.mk _) (List.foldl_ext _ _ _ fun aux i hi => ?_)
  rw [hget i (List.mem_range.1 hi)]

/-- The two builds write the same word. -/
theorem memoryWriteWord_wordsReversed (hr : WordsReversed mem mem')
    (h : Access.WordIn mem.size ⟨4, address⟩) (value : Word) :
    (memoryWriteWord mem address value 1).1 = (memoryWriteWord mem' address value 0).1 ∧
      WordsReversed (memoryWriteWord mem address value 1).2
        (memoryWriteWord mem' address value 0).2 := by
  have hc := h.check
  have hc' := (memoryCheck_congr hr.size 3 address).trans hc
  have hin := h.inside
  have ha := h.aligned
  simp only at hin ha
  have hadd : ∀ i ∈ List.range 4, (address + BitVec.ofNat 32 i).toNat = address.toNat + i :=
    fun i hi => h.add_toNat (List.mem_range.1 hi)
  -- the bytes of the two memories after the write
  have hdata : ∀ k, (memoryWriteWord mem address value 1).2.data k =
      (lastWrite ((List.range 4).map fun i =>
        (address.toNat + i, (value >>> ((3 - i) * 8)).setWidth 8)) k).getD (mem.data k) := by
    intro k
    rw [memoryWriteWord, hc, ← foldl_update]
    exact congrFun (foldl_put hadd (fun i => (value >>> ((3 - i) * 8)).setWidth 8) mem) k
  have hdata' : ∀ k, (memoryWriteWord mem' address value 0).2.data k =
      (lastWrite ((List.range 4).map fun i =>
        (address.toNat + i, (value >>> (i * 8)).setWidth 8)) k).getD (mem'.data k) := by
    intro k
    rw [memoryWriteWord, hc', ← foldl_update]
    exact congrFun (foldl_put hadd (fun i => (value >>> (i * 8)).setWidth 8) mem') k
  have hother : ∀ (f : Nat → Byte) {k}, k / 4 ≠ address.toNat / 4 →
      lastWrite ((List.range 4).map fun i => (address.toNat + i, f i)) k = none := by
    intro f k hk
    refine lastWrite_eq_none fun w hw => ?_
    obtain ⟨i, hi, rfl⟩ := List.mem_map.1 hw
    have hi4 : i < 4 := List.mem_range.1 hi
    simp only
    omega
  refine ⟨by rw [memoryWriteWord_fst, memoryWriteWord_fst, hc, hc'], ?_, ?_, ?_⟩
  · rw [memoryWriteWord_size, memoryWriteWord_size, hr.size]
  · rw [memoryWriteWord_size]
    exact hr.whole
  · intro i hi
    rw [memoryWriteWord_size] at hi
    rw [hdata, hdata']
    by_cases hword : i / 4 = address.toNat / 4
    · obtain ⟨j, hj, rfl⟩ : ∃ j < 4, i = address.toNat + j := ⟨i % 4, by omega, by omega⟩
      rw [h.mirrored hj, lastWrite_range _ _ _ hj, lastWrite_range _ _ _ (i := 3 - j) (by omega)]
      rfl
    · have hword' : mirrored i / 4 ≠ address.toNat / 4 := by
        unfold mirrored
        omega
      rw [hother _ hword, hother _ hword', Option.getD_none, Option.getD_none, hr.data i hi]

end

/-! ## The simulation -/

/-- The states of the two builds: equal registers and cycle counts, and memories with reversed
words. -/
structure BuildsAgree (p p' : ArmCore) : Prop where
  cycleCount : p'.cycleCount = p.cycleCount
  reg : p'.reg = p.reg
  mem : WordsReversed p.mem p'.mem

/-- As `BuildsAgree`, in a run whose memory has the size `size` and whose trace began as `base`. -/
structure Related (base : List Access) (size : BitVec 64) (p p' : ArmCore) : Prop
    extends BuildsAgree p p' where
  size_eq : p.mem.size = size
  accesses : ∃ log, p.accesses = log ++ base

/-- An access was made that is not one of an aligned word in the memory. -/
def OtherAccess (base : List Access) (size : BitVec 64) (p : ArmCore) : Prop :=
  ∃ log, p.accesses = log ++ base ∧ ∃ a ∈ log, ¬ a.WordIn size

/-- The big-endian build's `m` is simulated by the little-endian build's `n`, up to an access that
is not one of an aligned word. -/
abbrev SimBuilds {α : Type} (base : List Access) (size : BitVec 64) (m n : ArmM α) : Prop :=
  Sim (Related base size) (OtherAccess base size) m n

section
variable {base : List Access} {size : BitVec 64}

/-- An access traced after another one was made does not undo it. -/
theorem OtherAccess.cons {p p' : ArmCore} (h : OtherAccess base size p) {a : Access}
    (ha : p'.accesses = a :: p.accesses) : OtherAccess base size p' := by
  obtain ⟨log, hlog, b, hb, hbad⟩ := h
  exact ⟨a :: log, by rw [ha, hlog]; rfl, b, List.mem_cons_of_mem a hb, hbad⟩

/-- An access that is not one to an aligned word is one of the others. -/
theorem OtherAccess.of_cons {p p' q : ArmCore} (h : Related base size p q) {a : Access}
    (ha : p'.accesses = a :: p.accesses) (hbad : ¬ a.WordIn size) : OtherAccess base size p' := by
  obtain ⟨log, hlog⟩ := h.accesses
  exact ⟨a :: log, by rw [ha, hlog]; rfl, a, List.mem_cons_self, hbad⟩

/-- A program that reads and writes the registers only simulates itself. -/
theorem sim_of_reg {α : Type} {m : ArmM α} {f : Registers → α} {g : Registers → Registers}
    (h : ∀ p, m.run p = some (f p.reg, { p with reg := g p.reg })) : SimBuilds base size m m := by
  constructor
  · intro p a p' hr hb
    rw [h] at hr
    cases hr
    exact hb
  · intro p q hR a p' hr
    rw [h] at hr
    cases hr
    refine .inr ⟨{ q with reg := g q.reg }, ?_, ?_⟩
    · rw [h, hR.reg]
    · exact ⟨⟨hR.cycleCount, by rw [hR.reg], hR.mem⟩, hR.size_eq, hR.accesses⟩

/-- A program whose access is none to an aligned word leaves the runs that are compared. -/
theorem sim_of_other {α : Type} {m n : ArmM α} {a : Access} (ha : ∀ size, ¬ a.WordIn size)
    (h : ∀ p v p', m.run p = some (v, p') → p'.accesses = a :: p.accesses) :
    SimBuilds base size m n := by
  constructor
  · exact fun p v p' hr hb => hb.cons (h p v p' hr)
  · exact fun p q hR v p' hr => .inl (.of_cons hR (h p v p' hr) (ha size))

/-! ### The accessors -/

/-- The two builds agree on the question for an SPSR. -/
theorem sim_armCurrentModeHasSpsr :
    SimBuilds base size armCurrentModeHasSpsr armCurrentModeHasSpsr :=
  sim_of_reg (f := fun r => (registersCurrentModeHasSpsr r).1)
    (g := fun r => (registersCurrentModeHasSpsr r).2) fun _ => rfl

/-- The two builds agree on the question for a privileged mode. -/
theorem sim_armInAPrivilegedMode : SimBuilds base size armInAPrivilegedMode armInAPrivilegedMode :=
  sim_of_reg (f := registersInAPrivilegedMode) (g := fun r => r) fun _ => rfl

/-- The two builds read the same value from a register. -/
theorem sim_armReadRegister (reg : Byte) :
    SimBuilds base size (armReadRegister reg) (armReadRegister reg) :=
  sim_of_reg (f := fun r => if reg = 15 then
      (registersRead r reg (registersGetMode r) + 4) &&& 0xFFFFFFFD
    else registersRead r reg (registersGetMode r)) (g := fun r => r) fun _ => rfl

/-- The two builds read the same value from a user register. -/
theorem sim_armReadUsrRegister (reg : Byte) :
    SimBuilds base size (armReadUsrRegister reg) (armReadUsrRegister reg) :=
  sim_of_reg (f := fun r => if reg = 15 then (registersRead r reg USR + 4) &&& 0xFFFFFFFD
    else registersRead r reg USR) (g := fun r => r) fun _ => rfl

/-- The two builds read the same CPSR. -/
theorem sim_armReadCpsr : SimBuilds base size armReadCpsr armReadCpsr :=
  sim_of_reg (f := registersReadCpsr) (g := fun r => r) fun _ => rfl

/-- The two builds read the same SPSR. -/
theorem sim_armReadSpsr : SimBuilds base size armReadSpsr armReadSpsr :=
  sim_of_reg (f := fun r => registersReadSpsr r (registersGetMode r)) (g := fun r => r) fun _ => rfl

/-- The two builds write a register alike. -/
theorem sim_armWriteRegister (reg : Byte) (value : Word) :
    SimBuilds base size (armWriteRegister reg value) (armWriteRegister reg value) :=
  sim_of_reg (f := fun _ => ()) (g := fun r => registersWrite r reg (registersGetMode r) value)
    fun _ => rfl

/-- The two builds write a user register alike. -/
theorem sim_armWriteUsrRegister (reg : Byte) (value : Word) :
    SimBuilds base size (armWriteUsrRegister reg value) (armWriteUsrRegister reg value) :=
  sim_of_reg (f := fun _ => ()) (g := fun r => registersWrite r reg USR value) fun _ => rfl

/-- The two builds write CPSR alike. -/
theorem sim_armWriteCpsr (value : Word) :
    SimBuilds base size (armWriteCpsr value) (armWriteCpsr value) :=
  sim_of_reg (f := fun _ => ()) (g := fun r => registersWriteCpsr r value) fun _ => rfl

/-- The two builds write the SPSR alike. -/
theorem sim_armWriteSpsr (value : Word) :
    SimBuilds base size (armWriteSpsr value) (armWriteSpsr value) :=
  sim_of_reg (f := fun _ => ()) (g := fun r => registersWriteSpsr r (registersGetMode r) value)
    fun _ => rfl

/-- What is printed is not compared. -/
theorem sim_putchar (value : Word) : SimBuilds base size (putchar value) (putchar value) := by
  constructor
  · rintro p a p' ⟨⟩ hb
    exact hb
  · rintro p q hR a p' ⟨⟩
    exact .inr ⟨_, run_putchar q value, ⟨hR.cycleCount, hR.reg, hR.mem⟩, hR.size_eq, hR.accesses⟩

/-- An access to a byte or a half is none to a word. -/
theorem not_wordIn_byte (address : Word) (size : BitVec 64) :
    ¬ Access.WordIn size ⟨1, address⟩ :=
  fun h => absurd h.word (show ¬ 1 = 4 by decide)

/-- A halfword is no access to an aligned word. -/
theorem not_wordIn_half (address : Word) (size : BitVec 64) :
    ¬ Access.WordIn size ⟨2, address⟩ :=
  fun h => absurd h.word (show ¬ 2 = 4 by decide)

section
variable (address : Word)

/-- The read of a byte leaves the runs that are compared. -/
theorem sim_armReadByte (value : Byte) :
    SimBuilds base size (armReadByte address value) (armReadByte address value) :=
  sim_of_other (not_wordIn_byte address) (by rintro p v p' ⟨⟩; rfl)

/-- The read of a halfword leaves the runs that are compared. -/
theorem sim_armReadHalf (value : Half) :
    SimBuilds base size (armReadHalf 1 address value) (armReadHalf 0 address value) :=
  sim_of_other (not_wordIn_half address) (by rintro p v p' ⟨⟩; rfl)

/-- The write of a byte leaves the runs that are compared. -/
theorem sim_armWriteByte (value : Byte) :
    SimBuilds base size (armWriteByte address value) (armWriteByte address value) :=
  sim_of_other (not_wordIn_byte address) (by rintro p v p' ⟨⟩; rfl)

/-- The write of a halfword leaves the runs that are compared. -/
theorem sim_armWriteHalf (value : Half) :
    SimBuilds base size (armWriteHalf 1 address value) (armWriteHalf 0 address value) :=
  sim_of_other (not_wordIn_half address) (by rintro p v p' ⟨⟩; rfl)

/-- A word is read alike. -/
theorem sim_armReadWord (value : Word) :
    SimBuilds base size (armReadWord 1 address value) (armReadWord 0 address value) := by
  constructor
  · intro p a p' hr hb
    rw [run_armReadWord] at hr
    cases hr
    exact hb.cons rfl
  · intro p q hR a p' hr
    rw [run_armReadWord] at hr
    cases hr
    by_cases hw : Access.WordIn size ⟨4, address⟩
    · have hsize := hR.size_eq
      obtain ⟨log, hlog⟩ := hR.accesses
      refine .inr ⟨{ q with accesses := ⟨4, address⟩ :: q.accesses }, ?_, ?_⟩
      · rw [run_armReadWord, memoryReadWord_wordsReversed hR.mem (hsize ▸ hw)]
      · exact ⟨⟨hR.cycleCount, hR.reg, hR.mem⟩, hsize, ⟨4, address⟩ :: log, congrArg _ hlog⟩
    · exact .inl (.of_cons hR rfl hw)

/-- A word is written alike. -/
theorem sim_armWriteWord (value : Word) :
    SimBuilds base size (armWriteWord 1 address value) (armWriteWord 0 address value) := by
  constructor
  · intro p a p' hr hb
    rw [run_armWriteWord] at hr
    cases hr
    exact hb.cons rfl
  · intro p q hR a p' hr
    rw [run_armWriteWord] at hr
    cases hr
    by_cases hw : Access.WordIn size ⟨4, address⟩
    · have hsize := hR.size_eq
      obtain ⟨log, hlog⟩ := hR.accesses
      obtain ⟨hcode, hmem⟩ := memoryWriteWord_wordsReversed hR.mem (hsize ▸ hw) value
      refine .inr ⟨{ q with
        mem := (memoryWriteWord q.mem address value 0).2
        accesses := ⟨4, address⟩ :: q.accesses }, ?_, ?_⟩
      · rw [run_armWriteWord, hcode]
      · exact ⟨⟨hR.cycleCount, hR.reg, hmem⟩, (memoryWriteWord_size _ _ _ _).trans hsize,
          ⟨4, address⟩ :: log, congrArg _ hlog⟩
    · exact .inl (.of_cons hR rfl hw)

end

/-- The state of a fetch before its read: the PC has moved on, and a cycle is counted. -/
def ArmCore.advanced (p : ArmCore) : ArmCore :=
  { p with
    reg := registersWrite p.reg 15 p.mode (registersRead p.reg 15 p.mode + 4)
    cycleCount := p.cycleCount + 1 }

/-- A fetch is a read of a word in that state. -/
theorem run_armFetch_advanced (endianess : Byte) (value : Word) (p : ArmCore) :
    (armFetch endianess value).run p =
      (armReadWord endianess (registersRead p.reg 15 p.mode) value).run p.advanced := by
  rw [run_armFetch, run_armReadWord]
  rfl

/-- The two builds fetch the same instruction. -/
theorem sim_armFetch (value : Word) :
    SimBuilds base size (armFetch 1 value) (armFetch 0 value) := by
  constructor
  · intro p a p' hr hb
    rw [run_armFetch] at hr
    cases hr
    exact hb.cons rfl
  · intro p q hR a p' hr
    have hmode : q.mode = p.mode := by
      rw [ArmCore.mode, hR.reg]
      rfl
    have hadvanced : Related base size p.advanced q.advanced := by
      refine ⟨⟨?_, ?_, hR.mem⟩, hR.size_eq, hR.accesses⟩
      · simp only [ArmCore.advanced, hR.cycleCount]
      · simp only [ArmCore.advanced, hmode, hR.reg]
    rw [run_armFetch_advanced] at hr ⊢
    rw [hmode, hR.reg]
    exact (sim_armReadWord _ value).2 _ _ hadvanced a p' hr

/-- Both builds have accessors that respect the relation. -/
theorem simAccessors_builds :
    SimAccessors (Related base size) (OtherAccess base size) (fun _ => True) 1 0 where
  hasSpsr := sim_armCurrentModeHasSpsr
  privileged := sim_armInAPrivilegedMode
  readRegister := sim_armReadRegister
  readUsrRegister := sim_armReadUsrRegister
  readCpsr := sim_armReadCpsr
  readSpsr := sim_armReadSpsr
  writeRegister := sim_armWriteRegister
  writeUsrRegister := sim_armWriteUsrRegister
  writeCpsr value _ := sim_armWriteCpsr value
  writeSpsr := sim_armWriteSpsr
  restore hk hj := sim_armCurrentModeHasSpsr.bind fun _ =>
    Sim.ite (sim_armReadSpsr.bind fun _ => (sim_armWriteCpsr _).bind fun _ => hk) hj
  readByte := sim_armReadByte
  readHalf := sim_armReadHalf
  readWord := sim_armReadWord
  writeByte := sim_armWriteByte
  writeHalf := sim_armWriteHalf
  writeWord := sim_armWriteWord
  fetch := sim_armFetch
  putchar := sim_putchar
  current _ _ := trivial

/-! ### The interpreter -/

section
variable (loc : Locals)

/-- The two builds execute the same instruction in the same way. -/
theorem sim_armExecuteInstruction :
    SimBuilds base size (armExecuteInstruction 1 loc) (armExecuteInstruction 0 loc) :=
  simAccessors_builds.armExecuteInstruction loc (fun _ _ _ _ => trivial) fun _ _ _ _ => trivial

/-- The two builds enter an exception in the same way. -/
theorem sim_armException (exception : Byte) :
    SimBuilds base size (armException 1 loc exception) (armException 0 loc exception) := by
  have henter : ∀ (cpsr offset vector : Word), SimBuilds base size
      (enterException cpsr offset vector >>= fun _ => pure exception)
      (enterException cpsr offset vector >>= fun _ => pure exception) :=
    fun _ _ _ => (simAccessors_builds.enterException trivial _ _).bind fun _ => Sim.pure _
  by_cases hswi : exception = softwareInterrupt
  · rw [hswi]
    exact simAccessors_builds.armException_softwareInterrupt loc
  · unfold armException
    rw [if_neg hswi, if_neg hswi]
    refine Sim.ite ?_ (Sim.ite (henter _ _ _) (Sim.ite (henter _ _ _)
      (Sim.ite (henter _ _ _) (Sim.ite (henter _ _ _) (Sim.ite (henter _ _ _) (Sim.pure _))))))
    exact (sim_armWriteCpsr _).bind fun _ => simAccessors_builds.update _ _ _

/-- The two builds take the same step. -/
theorem sim_armStep : SimBuilds base size (armStep 1 loc) (armStep 0 loc) :=
  (sim_armExecuteInstruction loc).bind fun _ => Sim.ite (sim_armException loc _) (Sim.pure _)

end

end

/-! ## Runs -/

/-- The codes and the states of a run of `arm_step`, one for each element of the list, which gives
the locals of the step. -/
def armTrace (endianess : Byte) : List Locals → ArmCore → Option (List (Byte × ArmCore))
  | [], _ => some []
  | loc :: locs, p => do
    let r ← (armStep endianess loc).run p
    let trace ← armTrace endianess locs r.2
    return r :: trace

/-- The accesses that were made between two states of a run are to aligned words in the memory. -/
def WordAccesses (p p' : ArmCore) : Prop :=
  ∀ log, p'.accesses = log ++ p.accesses → ∀ a ∈ log, a.WordIn p.mem.size

/-- The result of one step of the two builds: the same code, and states that agree. -/
def ResultsAgree (r r' : Byte × ArmCore) : Prop := r'.1 = r.1 ∧ BuildsAgree r.2 r'.2

/-- The two builds agree on one step if it makes accesses to aligned words only. -/
theorem BuildsAgree.step {p q : ArmCore} (h : BuildsAgree p q) {loc : Locals} {r : Byte × ArmCore}
    (hr : (armStep 1 loc).run p = some r) (hw : WordAccesses p r.2) :
    r.2.mem.size = p.mem.size ∧ (∃ log, r.2.accesses = log ++ p.accesses) ∧
      ∃ r', (armStep 0 loc).run q = some r' ∧ ResultsAgree r r' := by
  have hrel : Related p.accesses p.mem.size p q := ⟨h, rfl, [], rfl⟩
  rcases (sim_armStep loc).2 p q hrel r.1 r.2 hr with ⟨log, hlog, a, ha, hbad⟩ | ⟨q', hq, hrel'⟩
  · exact absurd (hw log hlog a ha) hbad
  · exact ⟨hrel'.size_eq, hrel'.accesses, (r.1, q'), hq, rfl, hrel'.toBuildsAgree⟩

/-- **The two builds agree.** From states that agree, along every run of the big-endian build whose
accesses, fetches included, are to aligned words in the memory, the little-endian build returns the
same codes, and agrees after every step. -/
theorem builds_agree {p q : ArmCore} (h : BuildsAgree p q) (locs : List Locals)
    {trace : List (Byte × ArmCore)} (ht : armTrace 1 locs p = some trace)
    (hw : ∀ r ∈ trace, WordAccesses p r.2) :
    ∃ trace', armTrace 0 locs q = some trace' ∧ List.Forall₂ ResultsAgree trace trace' := by
  induction locs generalizing p q trace with
  | nil =>
    cases ht
    exact ⟨[], rfl, .nil⟩
  | cons loc locs ih =>
    obtain ⟨r, hr, ht⟩ := Option.bind_eq_some_iff.1 ht
    obtain ⟨rest, hrest, he⟩ := Option.bind_eq_some_iff.1 ht
    cases he
    obtain ⟨hsize, ⟨log, hlog⟩, r', hr', hagree⟩ := h.step hr (hw r List.mem_cons_self)
    -- what the rest of the run adds to the trace, the whole run does
    have hw' : ∀ s ∈ rest, WordAccesses r.2 s.2 := by
      intro s hs log' hlog' a ha
      rw [hsize]
      refine hw s (List.mem_cons_of_mem r hs) (log' ++ log) ?_ a (List.mem_append_left log ha)
      rw [hlog', hlog, List.append_assoc]
    obtain ⟨rest', hrest', hall⟩ := ih hagree.2 hrest hw'
    refine ⟨r' :: rest', ?_, .cons hagree hall⟩
    show ((armStep 0 loc).run q >>= fun r => armTrace 0 locs r.2 >>= fun t => some (r :: t)) = _
    rw [hr', Option.bind_eq_bind, Option.bind_some, hrest']
    rfl

/-- A program of one instruction, `STR r0, [r1]`, that stores to the word after it, in the
big-endian order. -/
def storeProgram : ArmCore :=
  ((ArmCore.initial 0x10 (.ofWords [0xE5810000, 0])).write 1 4).write 0 0x11223344

/-- The program that stores, in the little-endian order. -/
def storeProgramReversed : ArmCore :=
  ((ArmCore.initial 0x10 (.ofWords [0x000081E5, 0])).write 1 4).write 0 0x11223344

/-- The two builds agree on a program that stores a word. -/
theorem builds_agree_storeProgram :
    ∃ trace trace', armTrace 1 [.zero] storeProgram = some trace ∧
      armTrace 0 [.zero] storeProgramReversed = some trace' ∧
      List.Forall₂ ResultsAgree trace trace' := by
  have hagree : BuildsAgree storeProgram storeProgramReversed :=
    ⟨rfl, rfl, rfl, by decide, by decide⟩
  have hrun : ((armStep 1 .zero).run storeProgram).map (fun r => r.2.accesses) =
      some [⟨4, 4⟩, ⟨4, 0⟩] := by decide +kernel
  obtain ⟨r, hr, hlog⟩ := Option.map_eq_some_iff.1 hrun
  have ht : armTrace 1 [.zero] storeProgram = some [r] := by
    rw [armTrace, hr]
    rfl
  obtain ⟨trace', ht', hall⟩ := builds_agree hagree [.zero] ht (by
    intro s hs log hl
    obtain rfl := List.mem_singleton.1 hs
    have hlog' : log = [⟨4, 4⟩, ⟨4, 0⟩] := by
      rw [← hlog, hl]
      exact (List.append_nil log).symm
    rw [hlog']
    intro a ha
    simp only [List.mem_cons, List.not_mem_nil, or_false] at ha
    rcases ha with rfl | rfl
    · exact ⟨rfl, by decide, by decide⟩
    · exact ⟨rfl, by decide, by decide⟩)
  exact ⟨[r], trace', ht, ht', hall⟩

end ArmSimulator
