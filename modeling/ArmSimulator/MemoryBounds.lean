import ArmSimulator.MemoryStore

/-!
# The bounds of the memory

An access of `w` bytes should succeed exactly where the memory has these bytes, and else return
INDEX_OUT_OF_RANGE, change nothing, and never touch a byte that the memory does not have. The check
of the source subtracts from the size, a `size_t`: for a word, a size of 1 or 2 wraps around and all
addresses pass. `memoryBounds_iff` says that this is all that goes wrong, and what the check does
not exclude in memories of more than `2 ^ 32` bytes: an access that wraps around.
-/

namespace ArmSimulator

/-! ## The six accesses -/

/-- The address, and the number of bytes, of a write. -/
def MemOp.address : MemOp → Word
  | .byte address _ => address
  | .half address _ _ => address
  | .word address _ _ => address

def MemOp.width : MemOp → Nat
  | .byte _ _ => 1
  | .half _ _ _ => 2
  | .word _ _ _ => 4

/-- A call of the memory; `value` is what the destination of a read holds before. -/
inductive MemCall where
  | readByte (address : Word) (value : Byte)
  | readHalf (address : Word) (value : Half) (be : Byte)
  | readWord (address : Word) (value : Word) (be : Byte)
  | write (op : MemOp)

namespace MemCall

/-- The address, and the number of bytes, of a call. -/
def address : MemCall → Word
  | .readByte address _ => address
  | .readHalf address _ _ => address
  | .readWord address _ _ => address
  | .write op => op.address

def width : MemCall → Nat
  | .readByte _ _ => 1
  | .readHalf _ _ _ => 2
  | .readWord _ _ _ => 4
  | .write op => op.width

/-- What the destination holds before the call, as a word; a write has none. -/
def destination : MemCall → Word
  | .readByte _ value => value.setWidth 32
  | .readHalf _ value _ => value.setWidth 32
  | .readWord _ value _ => value
  | .write _ => 0

/-- The code that the call returns, what its destination holds then, and the memory after it. -/
def run (mem : Memory) : MemCall → ExitCode × Word × Memory
  | .readByte address value =>
    let r := memoryReadByte mem address value
    (r.1, r.2.setWidth 32, mem)
  | .readHalf address value be =>
    let r := memoryReadHalf mem address value be
    (r.1, r.2.setWidth 32, mem)
  | .readWord address value be =>
    let r := memoryReadWord mem address value be
    (r.1, r.2, mem)
  | .write op =>
    let r := op.run mem
    (r.1, 0, r.2)

end MemCall

/-- The bounds are kept by a call whose bytes are in the memory if and only if `inside`: only then
it succeeds, else it is refused without an effect, and in both cases it depends on no byte outside
the memory and writes none. -/
structure Bounded (inside : Prop) (mem : Memory) (call : MemCall) : Prop where
  success : (call.run mem).1 = .success ↔ inside
  refused : ¬ inside → call.run mem = (.indexOutOfRange, call.destination, mem)
  reads : ∀ mem' : Memory, mem'.size = mem.size →
    (∀ i < mem.size.toNat, mem'.data i = mem.data i) →
      (call.run mem').1 = (call.run mem).1 ∧ (call.run mem').2.1 = (call.run mem).2.1 ∧
        ∀ i < mem.size.toNat, (call.run mem').2.2.data i = (call.run mem).2.2.data i
  writes : ∀ i, mem.size.toNat ≤ i → (call.run mem).2.2.data i = mem.data i

/-! ## The check -/

/-- An access of `n + 1` bytes passes the check if it is within the memory, or if the memory is
smaller than `n`. -/
theorem memoryCheck_success_iff {mem : Memory} (h0 : mem.size ≠ 0) {n : Nat} (hn : n ≤ 3)
    (address : Word) :
    memoryCheck mem n address = .success ↔
      mem.size.toNat < n ∨ address.toNat + (n + 1) ≤ mem.size.toNat := by
  have ha := address.isLt
  have hin : memoryCheck mem n address = .success ↔ mem.inRange n address = true := by
    rw [memoryCheck, if_neg h0]
    split_ifs with h
    · exact iff_of_true rfl h
    · exact iff_of_false (by decide) h
  rw [hin, Memory.inRange, BitVec.ult, decide_eq_true_eq, BitVec.toNat_setWidth]
  by_cases hsize : n ≤ mem.size.toNat
  · rw [toNat_size_sub hn hsize]
    omega
  · -- the subtraction wraps around
    have hsub : (mem.size - BitVec.ofNat 64 n).toNat = 2 ^ 64 - n + mem.size.toNat := by
      rw [BitVec.toNat_sub, BitVec.toNat_ofNat]
      omega
    rw [hsub]
    omega

/-- A call that does not pass it is refused. -/
theorem memoryCheck_refused {mem : Memory} (h0 : mem.size ≠ 0) {n : Nat} {address : Word}
    (h : memoryCheck mem n address ≠ .success) : memoryCheck mem n address = .indexOutOfRange := by
  rw [memoryCheck, if_neg h0] at h ⊢
  split_ifs at h ⊢
  · exact absurd rfl h
  · rfl

/-- The code of an operation is that of the check. -/
theorem MemOp.run_fst (mem : Memory) (op : MemOp) :
    (op.run mem).1 = memoryCheck mem (op.width - 1) op.address := by
  cases op with
  | byte address value => exact memoryWriteByte_fst _ _ _
  | half address value be => exact memoryWriteHalf_fst _ _ _ _
  | word address value be => exact memoryWriteWord_fst _ _ _ _

/-- The code of a call is that of the check. -/
theorem MemCall.run_fst (mem : Memory) (call : MemCall) :
    (call.run mem).1 = memoryCheck mem (call.width - 1) call.address := by
  cases call with
  | readByte address value => exact memoryReadByte_fst _ _ _
  | readHalf address value be => exact memoryReadHalf_fst _ _ _ _
  | readWord address value be => exact memoryReadWord_fst _ _ _ _
  | write op => exact op.run_fst mem

/-- The widths are 1, 2 and 4. -/
theorem MemCall.width_mem (call : MemCall) : call.width = 1 ∨ call.width = 2 ∨ call.width = 4 := by
  cases call with
  | readByte address value => exact .inl rfl
  | readHalf address value be => exact .inr (.inl rfl)
  | readWord address value be => exact .inr (.inr rfl)
  | write op =>
    cases op with
    | byte address value => exact .inl rfl
    | half address value be => exact .inr (.inl rfl)
    | word address value be => exact .inr (.inr rfl)

/-- A call succeeds exactly if its access passes the check. -/
theorem MemCall.run_success_iff {mem : Memory} (h0 : mem.size ≠ 0) (call : MemCall) :
    (call.run mem).1 = .success ↔ mem.size.toNat < call.width - 1 ∨
      call.address.toNat + call.width ≤ mem.size.toNat := by
  have hwidth := call.width_mem
  have hsucc : call.width - 1 + 1 = call.width := by omega
  rw [call.run_fst, memoryCheck_success_iff h0 (by omega), hsucc]

/-- A call that does not succeed has no effect. -/
theorem MemCall.run_refused {mem : Memory} (h0 : mem.size ≠ 0) {call : MemCall}
    (h : (call.run mem).1 ≠ .success) :
    call.run mem = (.indexOutOfRange, call.destination, mem) := by
  have hcheck := memoryCheck_refused h0 (call.run_fst mem ▸ h)
  cases call with
  | readByte address value =>
    have hr : memoryReadByte mem address value = (.indexOutOfRange, value) := by
      rw [memoryReadByte, show memoryCheck mem 0 address = _ from hcheck]
    rw [MemCall.run, hr]
    rfl
  | readHalf address value be =>
    have hr : memoryReadHalf mem address value be = (.indexOutOfRange, value) := by
      rw [memoryReadHalf, show memoryCheck mem 1 address = _ from hcheck]
    rw [MemCall.run, hr]
    rfl
  | readWord address value be =>
    have hr : memoryReadWord mem address value be = (.indexOutOfRange, value) := by
      rw [memoryReadWord, show memoryCheck mem 3 address = _ from hcheck]
    rw [MemCall.run, hr]
    rfl
  | write op =>
    have hr : op.run mem = (.indexOutOfRange, mem) :=
      Prod.ext ((op.run_fst mem).trans hcheck) (op.run_error h)
    rw [MemCall.run, hr]
    rfl

/-! ## The bytes -/

section
variable {mem mem' : Memory}

/-- A byte that is not the one written stays. -/
theorem put_data_ne {address : Word} {i j : Nat} (h : j ≠ (address + BitVec.ofNat 32 i).toNat)
    (value : Byte) : (mem.put address i value).data j = mem.data j :=
  Function.update_of_ne h _ _

/-- A write makes the same of a byte in two memories that hold the same byte there. -/
theorem put_data_congr {j : Nat} (h : mem'.data j = mem.data j) (address : Word) (i : Nat)
    (value : Byte) : (mem'.put address i value).data j = (mem.put address i value).data j := by
  simp only [Memory.put, Function.update_apply, h]

/-- The bytes of a write, put one after the other. -/
def Memory.puts (mem : Memory) (address : Word) (l : List (Nat × Byte)) : Memory :=
  l.foldl (fun mem w => mem.put address w.1 w.2) mem

/-- What is written to other places keeps a byte. -/
theorem puts_data_ne {address : Word} {j : Nat} {l : List (Nat × Byte)}
    (h : ∀ w ∈ l, j ≠ (address + BitVec.ofNat 32 w.1).toNat) (mem : Memory) :
    (mem.puts address l).data j = mem.data j := by
  induction l generalizing mem with
  | nil => rfl
  | cons w l ih =>
    refine (ih (fun v hv => h v (List.mem_cons_of_mem w hv)) _).trans ?_
    exact put_data_ne (h w List.mem_cons_self) w.2

/-- What is written to two memories keeps them the same at a place where they are the same. -/
theorem puts_data_congr {j : Nat} (h : mem'.data j = mem.data j) (address : Word)
    (l : List (Nat × Byte)) : (mem'.puts address l).data j = (mem.puts address l).data j := by
  induction l generalizing mem mem' with
  | nil => exact h
  | cons w l ih => exact ih (put_data_congr h address w.1 w.2)

/-- The bytes that a write puts, by their distance from the address. -/
def MemOp.puts : MemOp → List (Nat × Byte)
  | .byte _ value => [(0, value)]
  | .half _ value be =>
    if be ≠ 0 then [(0, (value >>> 8).setWidth 8), (1, value.setWidth 8)]
    else [(0, value.setWidth 8), (1, (value >>> 8).setWidth 8)]
  | .word _ value be =>
    (List.range 4).map fun i =>
      (i, (value >>> ((if be ≠ 0 then 3 - i else i) * 8)).setWidth 8)

/-- The bytes that a call puts are those of its width. -/
theorem MemOp.puts_lt {op : MemOp} {w : Nat × Byte} (hw : w ∈ op.puts) : w.1 < op.width := by
  cases op with
  | byte address value =>
    rw [List.mem_singleton.1 hw]
    exact Nat.one_pos
  | half address value be =>
    simp only [MemOp.puts] at hw
    have hlt : w.1 = 0 ∨ w.1 = 1 := by
      split_ifs at hw <;> simp only [List.mem_cons, List.not_mem_nil, or_false] at hw <;>
        exact hw.imp (congrArg Prod.fst) (congrArg Prod.fst)
    show w.1 < 2
    omega
  | word address value be =>
    obtain ⟨i, hi, rfl⟩ := List.mem_map.1 hw
    exact List.mem_range.1 hi

/-- A write that succeeds puts its bytes. -/
theorem MemOp.run_puts {op : MemOp} (h : (op.run mem).1 = .success) :
    (op.run mem).2 = mem.puts op.address op.puts := by
  rw [op.run_fst] at h
  cases op with
  | byte address value =>
    rw [MemOp.run, memoryWriteByte, show memoryCheck mem 0 address = _ from h]
    rfl
  | half address value be =>
    rw [MemOp.run, memoryWriteHalf, show memoryCheck mem 1 address = _ from h, MemOp.puts]
    by_cases hbe : be ≠ 0
    · simp only [if_pos hbe]
      rfl
    · simp only [if_neg hbe]
      rfl
  | word address value be =>
    rw [MemOp.run, memoryWriteWord, show memoryCheck mem 3 address = _ from h, MemOp.puts,
      Memory.puts, List.foldl_map]
    by_cases hbe : be ≠ 0
    · simp only [if_pos hbe]
      rfl
    · simp only [if_neg hbe]
      rfl

/-- A write changes no byte but those of its width. -/
theorem MemOp.run_data_ne {op : MemOp} {j : Nat}
    (h : ∀ i < op.width, j ≠ (op.address + BitVec.ofNat 32 i).toNat) :
    (op.run mem).2.data j = mem.data j := by
  by_cases hs : (op.run mem).1 = .success
  · rw [op.run_puts hs]
    exact puts_data_ne (fun w hw => h w.1 (op.puts_lt hw)) mem
  · rw [op.run_error hs]

/-- A byte after a write depends on what it was. -/
theorem MemOp.run_data_congr (hsize : mem'.size = mem.size) {j : Nat}
    (h : mem'.data j = mem.data j) (op : MemOp) :
    (op.run mem').2.data j = (op.run mem).2.data j := by
  have hcode : (op.run mem').1 = (op.run mem).1 := by
    rw [op.run_fst, op.run_fst, memoryCheck_congr hsize]
  by_cases hs : (op.run mem).1 = .success
  · rw [op.run_puts hs, op.run_puts (hcode.trans hs)]
    exact puts_data_congr h op.address op.puts
  · rw [op.run_error hs, op.run_error (hcode ▸ hs), h]

/-- A byte that is not one of a call stays, and so do all where it fails. -/
theorem MemCall.run_data_ne {call : MemCall} {j : Nat}
    (h : (call.run mem).1 = .success →
      ∀ i < call.width, j ≠ (call.address + BitVec.ofNat 32 i).toNat) :
    (call.run mem).2.2.data j = mem.data j := by
  cases call with
  | write op =>
    by_cases hs : (op.run mem).1 = .success
    · exact op.run_data_ne (h hs)
    · exact congrArg (fun m : Memory => m.data j) (op.run_error hs)
  | _ => rfl

/-- A call on two memories of one size keeps them the same at a place where they are the same. -/
theorem MemCall.run_data_congr (hsize : mem'.size = mem.size) {j : Nat}
    (h : mem'.data j = mem.data j) (call : MemCall) :
    (call.run mem').2.2.data j = (call.run mem).2.2.data j := by
  cases call with
  | write op => exact op.run_data_congr hsize h
  | _ => exact h

/-- What a read finds depends on the bytes of its width. -/
theorem MemCall.run_congr (hsize : mem'.size = mem.size) {call : MemCall}
    (h : (call.run mem).1 = .success →
      ∀ i < call.width, mem'.get call.address i = mem.get call.address i) :
    (call.run mem').1 = (call.run mem).1 ∧ (call.run mem').2.1 = (call.run mem).2.1 := by
  have hcheck := memoryCheck_congr hsize
  refine ⟨by rw [call.run_fst, call.run_fst, hcheck], ?_⟩
  rw [call.run_fst] at h
  cases call with
  | readByte address value =>
    have hr : memoryReadByte mem' address value = memoryReadByte mem address value := by
      unfold memoryReadByte
      rw [hcheck]
      split
      · next hs =>
        have hget : ∀ i < 1, mem'.get address i = mem.get address i := h hs
        rw [hget 0 Nat.one_pos]
      · rfl
    exact congrArg (fun r => r.2.setWidth 32) hr
  | readHalf address value be =>
    have hr : memoryReadHalf mem' address value be = memoryReadHalf mem address value be := by
      unfold memoryReadHalf
      rw [hcheck]
      split
      · next hs =>
        have hget : ∀ i < 2, mem'.get address i = mem.get address i := h hs
        rw [hget 0 Nat.two_pos, hget 1 Nat.one_lt_two]
      · rfl
    exact congrArg (fun r => r.2.setWidth 32) hr
  | readWord address value be =>
    have hr : memoryReadWord mem' address value be = memoryReadWord mem address value be := by
      unfold memoryReadWord
      rw [hcheck]
      split
      · next hs =>
        have hget : ∀ i < 4, mem'.get address i = mem.get address i := h hs
        simp [List.range_succ, hget]
      · rfl
    exact congrArg Prod.snd hr
  | write op => rfl

end

/-! ## The bounds -/

section
variable {mem : Memory} {call : MemCall}

/-- Where the check does not wrap around, it keeps the bounds. -/
theorem Bounded.of_check (h0 : mem.size ≠ 0)
    (hcheck : (call.run mem).1 = .success ↔ call.address.toNat + call.width ≤ mem.size.toNat)
    {inside : Prop} (hinside : inside ↔ call.address.toNat + call.width ≤ mem.size.toNat) :
    Bounded inside mem call := by
  have hindex : (call.run mem).1 = .success → ∀ i < call.width,
      (call.address + BitVec.ofNat 32 i).toNat < mem.size.toNat := by
    intro hs i hi
    have hle := hcheck.1 hs
    have hadd : (call.address + BitVec.ofNat 32 i).toNat ≤ call.address.toNat + i := by
      rw [BitVec.toNat_add, BitVec.toNat_ofNat]
      omega
    omega
  refine ⟨hcheck.trans hinside.symm, fun hout => ?_, fun mem' hsize hdata => ?_, fun j hj => ?_⟩
  · exact call.run_refused h0 fun hs => hout (hinside.2 (hcheck.1 hs))
  · obtain ⟨hcode, hresult⟩ := call.run_congr hsize fun hs i hi => hdata _ (hindex hs i hi)
    exact ⟨hcode, hresult, fun j hj => call.run_data_congr hsize (hdata j hj)⟩
  · refine call.run_data_ne fun hs i hi hj' => ?_
    have hlt := hindex hs i hi
    omega

/-- **The bounds of the memory.** A call keeps them if it does not access a word in a memory of 1 or
2 bytes; if the bytes are also to have addresses below `2 ^ 32`, it must not access bytes that the
memory has beyond. -/
theorem memoryBounds_iff {data : Nat → Byte} {size : BitVec 64}
    (hcreate : memoryCreate data size = some mem) (call : MemCall) :
    (Bounded (call.address.toNat + call.width ≤ size.toNat) mem call ↔
      (call.width = 4 → 3 ≤ size.toNat)) ∧
    (Bounded (call.address.toNat + call.width ≤ size.toNat ∧
        call.address.toNat + call.width ≤ 2 ^ 32) mem call ↔
      (call.width = 4 → 3 ≤ size.toNat) ∧
        ¬ (2 ^ 32 < call.address.toNat + call.width ∧
          call.address.toNat + call.width ≤ size.toNat)) := by
  unfold memoryCreate at hcreate
  split_ifs at hcreate with hzero
  cases hcreate
  have h0 : (⟨data, size⟩ : Memory).size ≠ 0 := hzero
  have hpos : 0 < size.toNat := by
    refine Nat.pos_of_ne_zero fun hz => hzero (BitVec.eq_of_toNat_eq hz)
  have hwidth := call.width_mem
  have hsuccess := call.run_success_iff h0
  dsimp only at hsuccess
  constructor
  · constructor
    · intro hb
      have hiff := hsuccess.symm.trans hb.success
      intro h4
      omega
    · intro h3
      have hcheck := hsuccess.trans (or_iff_right (by omega))
      exact .of_check h0 hcheck Iff.rfl
  · constructor
    · intro hb
      have hiff := hsuccess.symm.trans hb.success
      omega
    · rintro ⟨h3, hlow⟩
      have hcheck := hsuccess.trans (or_iff_right (by omega))
      exact .of_check h0 hcheck (by dsimp only; omega)

end

/-- A word at the end of a memory of 4 bytes is refused, and one at its start is not. -/
theorem memoryBounds_word :
    Bounded (4 + 4 ≤ 4) ⟨fun _ => 0, 4⟩ (.readWord 4 0 1) ∧
      Bounded (0 + 4 ≤ 4) ⟨fun _ => 0, 4⟩ (.write (.word 0 1 1)) := by
  have hcreate : memoryCreate (fun _ => 0) 4 = some ⟨fun _ => 0, 4⟩ := rfl
  exact ⟨(memoryBounds_iff hcreate (.readWord 4 0 1)).1.2 (by decide),
    (memoryBounds_iff hcreate (.write (.word 0 1 1))).1.2 (by decide)⟩

/-- In a memory of 1 byte a word is read, and written, at any address. -/
theorem memoryBounds_fails :
    memoryCreate (fun i => BitVec.ofNat 8 i) 1 = some ⟨fun i => BitVec.ofNat 8 i, 1⟩ ∧
      (MemCall.readWord 0x10 0 1).run ⟨fun i => BitVec.ofNat 8 i, 1⟩ =
        (.success, 0x10111213, ⟨fun i => BitVec.ofNat 8 i, 1⟩) ∧
      ¬ Bounded (0x10 + 4 ≤ 1) ⟨fun i => BitVec.ofNat 8 i, 1⟩ (.readWord 0x10 0 1) ∧
      ((MemCall.write (.word 0x10 0 1)).run ⟨fun i => BitVec.ofNat 8 i, 1⟩).2.2.data 0x13 = 0 := by
  refine ⟨rfl, rfl, fun h => ?_, rfl⟩
  exact absurd (h.success.1 rfl) (by decide)

end ArmSimulator
