import ArmSimulator.Lib.Bytes
import ArmSimulator.Lib.History
import ArmSimulator.Memory

/-!
# The memory as a store of bytes

A write stores the bytes of its value at consecutive addresses, in the order of its endianness
flag, and a read assembles the bytes it finds there in the order of its own flag. With that the
memory obeys the law of a store, byte by byte, whatever the widths, addresses and flags of the
writes (`memory_storeLaw`). It holds for sizes from 4, where the bound checks do not wrap around,
to 2^32, where the indices do not.
-/

namespace ArmSimulator

open Bytes

/-! ## One access -/

/-- The sizes for which the bound checks are those of the array. -/
def Memory.Sized (mem : Memory) : Prop := 4 ≤ mem.size.toNat ∧ mem.size.toNat ≤ 2 ^ 32

/-- The bytes that the memory holds from an address on, `n` of them. -/
def Memory.bytes (mem : Memory) (address : Word) (n : Nat) : List Byte :=
  (List.range n).map fun i => mem.data (address.toNat + i)

/-- The memory holds `n` bytes from the address on, at indices that do not wrap around. -/
structure Memory.Holds (mem : Memory) (address : Word) (n : Nat) : Prop where
  fits : address.toNat + n ≤ mem.size.toNat
  size_le : mem.size.toNat ≤ 2 ^ 32

/-- The subtraction of the bound check does not wrap around. -/
theorem toNat_size_sub {mem : Memory} {n : Nat} (hn : n ≤ 3) (h : n ≤ mem.size.toNat) :
    (mem.size - BitVec.ofNat 64 n).toNat = mem.size.toNat - n := by
  have hlt : n < 2 ^ 64 := by omega
  rw [BitVec.toNat_sub_of_le, BitVec.toNat_ofNat, Nat.mod_eq_of_lt hlt]
  rw [BitVec.le_def, BitVec.toNat_ofNat, Nat.mod_eq_of_lt hlt]
  exact h

/-- An access to bytes that the memory holds passes the checks. -/
theorem Memory.Holds.check {mem : Memory} {address : Word} {n : Nat} (h : mem.Holds address (n + 1))
    (hn : n ≤ 3) : memoryCheck mem n address = .success := by
  have hfits := h.fits
  have h0 : mem.size ≠ 0 := by
    intro h0
    have hzero : (0 : BitVec 64).toNat = 0 := rfl
    rw [h0, hzero] at hfits
    omega
  have hin : mem.inRange n address = true := by
    rw [Memory.inRange, BitVec.ult, toNat_size_sub hn (by omega), BitVec.toNat_setWidth,
      decide_eq_true_eq]
    omega
  rw [memoryCheck, if_neg h0, if_pos hin]

/-- The bytes of an access that passes the checks are held. -/
theorem Memory.Holds.of_check {mem : Memory} (hs : mem.Sized) {n : Nat} (hn : n ≤ 3)
    {address : Word} (h : memoryCheck mem n address = .success) : mem.Holds address (n + 1) := by
  obtain ⟨h4, h32⟩ := hs
  refine ⟨?_, h32⟩
  have hin : mem.inRange n address = true := by
    by_contra hno
    rw [memoryCheck, if_neg hno] at h
    split_ifs at h
  have ha := address.isLt
  rw [Memory.inRange, BitVec.ult, toNat_size_sub hn (by omega), BitVec.toNat_setWidth,
    decide_eq_true_eq] at hin
  omega

section
variable {mem : Memory} {address : Word} {n : Nat} (h : mem.Holds address n)
include h

/-- The indices of the access do not wrap around. -/
theorem Memory.Holds.add_toNat {i : Nat} (hi : i < n) :
    (address + BitVec.ofNat 32 i).toNat = address.toNat + i := by
  have hfits := h.fits
  have h32 := h.size_le
  rw [BitVec.toNat_add, BitVec.toNat_ofNat]
  omega

/-- The bytes of an access are those from the address on. -/
theorem Memory.Holds.get_eq {i : Nat} (hi : i < n) :
    mem.get address i = mem.data (address.toNat + i) := by
  rw [Memory.get, h.add_toNat hi]

/-- Bytes further on are held as well. -/
theorem Memory.Holds.add {k m : Nat} (hm : 0 < m) (hk : k + m ≤ n) :
    mem.Holds (address + BitVec.ofNat 32 k) m := by
  have hfits := h.fits
  refine ⟨?_, h.size_le⟩
  rw [h.add_toNat (by omega)]
  omega

/-- The bytes that a memory holds are held in any memory of the same size. -/
theorem Memory.Holds.congr {mem' : Memory} (hsize : mem'.size = mem.size) :
    mem'.Holds address n :=
  ⟨hsize ▸ h.fits, hsize ▸ h.size_le⟩

end

/-- A byte moved up by `s` bytes has its bits there. -/
theorem getLsbD_byte_shiftLeft {w : Nat} (b : Byte) (s j : Nat) :
    (b.setWidth w <<< (s * 8)).getLsbD j =
      (decide (j < w) && (decide (j / 8 = s) && b.getLsbD (j % 8))) := by
  rw [BitVec.getLsbD_shiftLeft, BitVec.getLsbD_setWidth]
  by_cases hs : j / 8 = s
  · have hj : j - s * 8 = j % 8 := by omega
    have hlt : ¬ j < s * 8 := by omega
    have hw : j < w → j % 8 < w := by omega
    by_cases hjw : j < w
    · simp [hs, hj, hlt, hjw, hw hjw]
    · simp [hjw]
  · by_cases hlt : j < s * 8
    · simp [hs, hlt]
    · have hb : b.getLsbD (j - s * 8) = false := BitVec.getLsbD_of_ge _ _ (by omega)
      simp [hs, hb]

/-- The two bytes of a half make up its number. -/
theorem toNat_half (b₀ b₁ : Byte) :
    (b₀.setWidth 16 <<< (0 * 8) ||| b₁.setWidth 16 <<< (1 * 8) : Half).toNat =
      ofBytes [b₀, b₁] := by
  apply Nat.eq_of_testBit_eq
  intro j
  rw [testBit_ofBytes, BitVec.testBit_toNat, BitVec.getLsbD_or, getLsbD_byte_shiftLeft,
    getLsbD_byte_shiftLeft]
  obtain ⟨hj, hq | hq⟩ | ⟨hj, hq⟩ :
      (j < 16 ∧ (j / 8 = 0 ∨ j / 8 = 1)) ∨ (¬ j < 16 ∧ 2 ≤ j / 8) := by
    omega
  · simp [hj, hq]
  · simp [hj, hq]
  · rw [List.getD_eq_getElem?_getD, List.getElem?_eq_none hq]
    simp [hj]

/-- The four bytes of a word make up its number. -/
theorem toNat_word (b₀ b₁ b₂ b₃ : Byte) :
    (b₃.setWidth 32 <<< (3 * 8) ||| b₂.setWidth 32 <<< (2 * 8) ||| b₁.setWidth 32 <<< (1 * 8) |||
      b₀.setWidth 32 <<< (0 * 8) : Word).toNat = ofBytes [b₀, b₁, b₂, b₃] := by
  apply Nat.eq_of_testBit_eq
  intro j
  rw [testBit_ofBytes, BitVec.testBit_toNat]
  simp only [BitVec.getLsbD_or, getLsbD_byte_shiftLeft]
  obtain ⟨hj, hq | hq | hq | hq⟩ | ⟨hj, hq⟩ :
      (j < 32 ∧ (j / 8 = 0 ∨ j / 8 = 1 ∨ j / 8 = 2 ∨ j / 8 = 3)) ∨ (¬ j < 32 ∧ 4 ≤ j / 8) := by
    omega
  · simp [hj, hq]
  · simp [hj, hq]
  · simp [hj, hq]
  · simp [hj, hq]
  · rw [List.getD_eq_getElem?_getD, List.getElem?_eq_none hq]
    simp [hj]

section
variable {mem : Memory} {address : Word} (be : Byte)

/-- A read of a byte that is held finds it. -/
theorem Memory.Holds.readByte (h : mem.Holds address 1) (value : Byte) :
    ∃ w, memoryReadByte mem address value = (.success, w) ∧
      w.toNat = ofBytes (mem.bytes address 1) := by
  refine ⟨mem.get address 0, ?_, ?_⟩
  · rw [memoryReadByte, h.check (by decide)]
  · rw [h.get_eq (by decide)]
    simp [Memory.bytes, ofBytes]

/-- A read of a half that is held assembles its bytes. -/
theorem Memory.Holds.readHalf (h : mem.Holds address 2) (value : Half) :
    ∃ w, memoryReadHalf mem address value be = (.success, w) ∧
      w.toNat = ofBytes (inOrder (be ≠ 0) (mem.bytes address 2)) := by
  have hbytes : mem.bytes address 2 = [mem.get address 0, mem.get address 1] := by
    rw [h.get_eq (by decide), h.get_eq (by decide)]
    rfl
  rw [memoryReadHalf, h.check (by decide), hbytes, inOrder]
  by_cases hbe : be ≠ 0
  · simp only [hbe, decide_true, if_true, ne_eq, not_false_eq_true]
    refine ⟨_, rfl, Eq.trans ?_ (toNat_half (mem.get address 1) (mem.get address 0))⟩
    simp [BitVec.or_comm]
  · simp only [hbe, decide_false, if_false, Bool.false_eq_true]
    refine ⟨_, rfl, Eq.trans ?_ (toNat_half (mem.get address 0) (mem.get address 1))⟩
    simp

/-- A read of a word that is held assembles its bytes. -/
theorem Memory.Holds.readWord (h : mem.Holds address 4) (value : Word) :
    ∃ w, memoryReadWord mem address value be = (.success, w) ∧
      w.toNat = ofBytes (inOrder (be ≠ 0) (mem.bytes address 4)) := by
  have hbytes : mem.bytes address 4 =
      [mem.get address 0, mem.get address 1, mem.get address 2, mem.get address 3] := by
    rw [h.get_eq (by decide), h.get_eq (by decide), h.get_eq (by decide), h.get_eq (by decide)]
    rfl
  rw [memoryReadWord, h.check (by decide), hbytes, inOrder]
  by_cases hbe : be ≠ 0
  · simp only [hbe, decide_true, if_true, ne_eq, not_false_eq_true]
    refine ⟨_, rfl, Eq.trans ?_ (toNat_word (mem.get address 3) (mem.get address 2)
      (mem.get address 1) (mem.get address 0))⟩
    simp [List.range_succ]
  · simp only [hbe, decide_false, if_false, Bool.false_eq_true]
    refine ⟨_, rfl, Eq.trans ?_ (toNat_word (mem.get address 0) (mem.get address 1)
      (mem.get address 2) (mem.get address 3))⟩
    simp [List.range_succ]

end

section
variable {mem : Memory} (hs : mem.Sized) (address : Word) (be : Byte)
include hs

/-- A byte that is read without an error is the one at the address. -/
theorem memoryReadByte_success {value w : Byte}
    (h : memoryReadByte mem address value = (.success, w)) :
    w.toNat = ofBytes (mem.bytes address 1) := by
  have hcheck := (memoryReadByte_fst mem address value).symm.trans (congrArg Prod.fst h)
  obtain ⟨w', hread, hval⟩ := (Memory.Holds.of_check hs (by decide) hcheck).readByte value
  cases h.symm.trans hread
  exact hval

/-- A halfword that is read without an error is the number that its bytes make up. -/
theorem memoryReadHalf_success {value w : Half}
    (h : memoryReadHalf mem address value be = (.success, w)) :
    w.toNat = ofBytes (inOrder (be ≠ 0) (mem.bytes address 2)) := by
  have hcheck := (memoryReadHalf_fst mem address be value).symm.trans (congrArg Prod.fst h)
  obtain ⟨w', hread, hval⟩ := (Memory.Holds.of_check hs (by decide) hcheck).readHalf be value
  cases h.symm.trans hread
  exact hval

/-- A word that is read without an error is the number that its bytes make up. -/
theorem memoryReadWord_success {value w : Word}
    (h : memoryReadWord mem address value be = (.success, w)) :
    w.toNat = ofBytes (inOrder (be ≠ 0) (mem.bytes address 4)) := by
  have hcheck := (memoryReadWord_fst mem address be value).symm.trans (congrArg Prod.fst h)
  obtain ⟨w', hread, hval⟩ := (Memory.Holds.of_check hs (by decide) hcheck).readWord be value
  cases h.symm.trans hread
  exact hval

end

/-! ## Writes -/

/-- What is stored where, by a write of the first `n` bytes of a value: the bytes of the value in
the order of the flag, at the addresses from `address` on. -/
def stored {w : Nat} (n : Nat) (address : Word) (value : BitVec w) (bigEndian : Bool) :
    List (Nat × Byte) :=
  (List.range n).map fun i =>
    (address.toNat + i, (inOrder bigEndian (toBytes n value)).getD i 0)

/-- In the little-endian order the bytes of the value are stored from the lowest on. -/
theorem stored_false {w : Nat} (n : Nat) (address : Word) (value : BitVec w) :
    stored n address value false =
      (List.range n).map fun i => (address.toNat + i, (value >>> (i * 8)).setWidth 8) := by
  refine List.map_congr_left fun i hi => ?_
  have hi' : i < n := List.mem_range.1 hi
  simp [inOrder, toBytes, List.getD_eq_getElem?_getD, hi', Nat.mul_comm]

/-- In the big-endian order the bytes of the value are stored from the highest on. -/
theorem stored_true {w : Nat} (n : Nat) (address : Word) (value : BitVec w) :
    stored (n + 1) address value true =
      (List.range (n + 1)).map fun i =>
        (address.toNat + i, (value >>> ((n - i) * 8)).setWidth 8) := by
  refine List.map_congr_left fun i hi => ?_
  have hi' : i < n + 1 := List.mem_range.1 hi
  have hlen : i < (toBytes (n + 1) value).length := by simpa [toBytes] using hi'
  have hrev : n - i < n + 1 := Nat.lt_succ_of_le (Nat.sub_le n i)
  simp [inOrder, List.getD_eq_getElem?_getD, List.getElem?_reverse hlen]
  simp [toBytes, hrev, Nat.mul_comm]

/-- The calls that write the memory. -/
inductive MemOp where
  | byte (address : Word) (value : Byte)
  | half (address : Word) (value : Half) (be : Byte)
  | word (address : Word) (value : Word) (be : Byte)

/-- The call: `memory_write_byte`, `memory_write_half` or `memory_write_word`. -/
def MemOp.run (mem : Memory) : MemOp → ExitCode × Memory
  | .byte address value => memoryWriteByte mem address value
  | .half address value be => memoryWriteHalf mem address value be
  | .word address value be => memoryWriteWord mem address value be

/-- What the call stores where, if it succeeds. -/
def MemOp.stored : MemOp → List (Nat × Byte)
  | .byte address value => ArmSimulator.stored 1 address value false
  | .half address value be => ArmSimulator.stored 2 address value (be ≠ 0)
  | .word address value be => ArmSimulator.stored 4 address value (be ≠ 0)

/-- An operation keeps the size of the memory. -/
@[simp] theorem MemOp.run_size (mem : Memory) (op : MemOp) : (op.run mem).2.size = mem.size := by
  cases op with
  | byte address value => exact memoryWriteByte_size _ _ _
  | half address value be => exact memoryWriteHalf_size _ _ _ _
  | word address value be => exact memoryWriteWord_size _ _ _ _

/-- A call that returns an error changes nothing. -/
theorem MemOp.run_error {mem : Memory} {op : MemOp} (h : (op.run mem).1 ≠ .success) :
    (op.run mem).2 = mem := by
  cases op with
  | byte address value =>
    rw [MemOp.run, memoryWriteByte] at h ⊢
    split at h
    · exact absurd rfl h
    · rfl
  | half address value be =>
    rw [MemOp.run, memoryWriteHalf] at h ⊢
    split at h
    · exact absurd (success_fst _ _) h
    · rfl
  | word address value be =>
    rw [MemOp.run, memoryWriteWord] at h ⊢
    split at h
    · exact absurd (success_fst _ _) h
    · rfl

/-- Storing bytes one after the other is updating the array at their addresses. -/
theorem foldl_put {address : Word} {l : List Nat}
    (hl : ∀ i ∈ l, (address + BitVec.ofNat 32 i).toNat = address.toNat + i) (f : Nat → Byte)
    (m : Memory) :
    (l.foldl (fun m i => m.put address i (f i)) m).data =
      (l.map fun i => (address.toNat + i, f i)).foldl (fun d w => Function.update d w.1 w.2)
        m.data := by
  induction l generalizing m with
  | nil => rfl
  | cons i l ih =>
    rw [List.foldl_cons, List.map_cons, List.foldl_cons,
      ih fun j hj => hl j (List.mem_cons_of_mem _ hj), Memory.put, hl i List.mem_cons_self]

/-- The memory holds the bytes that the call writes. -/
def MemOp.Holds (mem : Memory) : MemOp → Prop
  | .byte address _ => mem.Holds address 1
  | .half address _ _ => mem.Holds address 2
  | .word address _ _ => mem.Holds address 4

/-- A call that stays in the memory succeeds, and stores its bytes. -/
theorem MemOp.run_holds {mem : Memory} {op : MemOp} (h : op.Holds mem) :
    (op.run mem).1 = .success ∧ (op.run mem).2.data =
      op.stored.foldl (fun d w => Function.update d w.1 w.2) mem.data := by
  have hadd : ∀ {n address}, mem.Holds address n →
      ∀ i ∈ List.range n, (address + BitVec.ofNat 32 i).toNat = address.toNat + i :=
    fun h i hi => h.add_toNat (List.mem_range.1 hi)
  cases op with
  | byte address value =>
    rw [MemOp.run, memoryWriteByte, Memory.Holds.check h (by decide), MemOp.stored, stored_false]
    refine ⟨rfl, (foldl_put (hadd h) (fun _ => value) mem).trans ?_⟩
    simp
  | half address value be =>
    rw [MemOp.run, memoryWriteHalf, Memory.Holds.check h (by decide), MemOp.stored]
    refine ⟨success_fst _ _, ?_⟩
    by_cases hbe : be ≠ 0
    · rw [decide_eq_true hbe, stored_true]
      simp only [if_pos hbe]
      refine Eq.trans ?_ (foldl_put (hadd h) (fun i => (value >>> ((1 - i) * 8)).setWidth 8) mem)
      simp [List.range_succ]
    · rw [decide_eq_false hbe, stored_false]
      simp only [if_neg hbe]
      refine Eq.trans ?_ (foldl_put (hadd h) (fun i => (value >>> (i * 8)).setWidth 8) mem)
      simp [List.range_succ]
  | word address value be =>
    rw [MemOp.run, memoryWriteWord, Memory.Holds.check h (by decide), MemOp.stored]
    refine ⟨success_fst _ _, ?_⟩
    by_cases hbe : be ≠ 0
    · rw [decide_eq_true hbe, stored_true]
      simp only [if_pos hbe]
      exact foldl_put (hadd h) _ mem
    · rw [decide_eq_false hbe, stored_false]
      simp only [if_neg hbe]
      exact foldl_put (hadd h) _ mem

/-- A call that succeeds stores its bytes. -/
theorem MemOp.run_success {mem : Memory} (hs : mem.Sized) {op : MemOp}
    (h : (op.run mem).1 = .success) :
    (op.run mem).2.data =
      op.stored.foldl (fun d w => Function.update d w.1 w.2) mem.data := by
  suffices hholds : op.Holds mem from (MemOp.run_holds hholds).2
  cases op with
  | byte address value => exact .of_check hs (by decide) ((memoryWriteByte_fst _ _ _).symm.trans h)
  | half address value be =>
    exact .of_check hs (by decide) ((memoryWriteHalf_fst _ _ _ _).symm.trans h)
  | word address value be =>
    exact .of_check hs (by decide) ((memoryWriteWord_fst _ _ _ _).symm.trans h)

/-! ## Values -/

/-- Where a value was stored, its bytes are found in the order of the flag. -/
theorem bytes_stored {mem mem' : Memory} {w n : Nat} {address : Word} {value : BitVec w} {b : Bool}
    (h : mem'.data = (stored n address value b).foldl (fun d w => Function.update d w.1 w.2)
      mem.data) :
    mem'.bytes address n = inOrder b (toBytes n value) := by
  have hlen := length_inOrder_toBytes b n value
  refine List.ext_getElem (by simp [Memory.bytes]) fun i hi _ => ?_
  have hin : i < n := by simpa [Memory.bytes] using hi
  have hdata : mem'.data (address.toNat + i) = (inOrder b (toBytes n value)).getD i 0 := by
    rw [h, foldl_update, stored, lastWrite_range _ _ _ hin]
    rfl
  simp [Memory.bytes, hdata, List.getD_eq_getElem?_getD, hlen, hin]

/-- The value in the memory at an address, of `w` bits in the order of the flag. -/
def Memory.value (w : Nat) (mem : Memory) (be : Byte) (address : Word) : BitVec w :=
  BitVec.ofNat w (ofBytes (inOrder (be ≠ 0) (mem.bytes address (w / 8))))

/-- The memory `mem'` is `mem` with a value of `w` bits written at an address, and nothing else. -/
structure Memory.Wrote {w : Nat} (be : Byte) (address : Word) (value : BitVec w)
    (mem mem' : Memory) : Prop where
  value : mem'.value w be address = value
  size : mem'.size = mem.size
  data : ∀ i, i < address.toNat ∨ address.toNat + w / 8 ≤ i → mem'.data i = mem.data i

section
variable {mem : Memory} {address : Word} (be : Byte)

/-- A value is that of its bytes. -/
theorem Memory.eq_value {w : Nat} {x : BitVec w}
    (h : x.toNat = ofBytes (inOrder (be ≠ 0) (mem.bytes address (w / 8)))) :
    x = mem.value w be address := by
  rw [Memory.value, ← h, BitVec.ofNat_toNat, BitVec.setWidth_eq]

/-- A byte is the same in both orders. -/
theorem inOrder_singleton (b : Bool) (x : Byte) : inOrder b [x] = [x] := by
  cases b with
  | false => rfl
  | true => rfl

/-- The read of a byte within the memory gives its value. -/
theorem Memory.Holds.memoryReadByte_eq (h : mem.Holds address 1) (old : Byte) :
    memoryReadByte mem address old = (.success, mem.value 8 be address) := by
  obtain ⟨x, hread, hx⟩ := h.readByte old
  rw [hread, ← mem.eq_value be (hx.trans (congrArg ofBytes (inOrder_singleton _ _).symm))]

/-- The read of a halfword within the memory gives its value. -/
theorem Memory.Holds.memoryReadHalf_eq (h : mem.Holds address 2) (old : Half) :
    memoryReadHalf mem address old be = (.success, mem.value 16 be address) := by
  obtain ⟨x, hread, hx⟩ := h.readHalf be old
  rw [hread, ← mem.eq_value be hx]

/-- The read of a word within the memory gives its value. -/
theorem Memory.Holds.memoryReadWord_eq (h : mem.Holds address 4) (old : Word) :
    memoryReadWord mem address old be = (.success, mem.value 32 be address) := by
  obtain ⟨x, hread, hx⟩ := h.readWord be old
  rw [hread, ← mem.eq_value be hx]

/-- Bytes stored in the order of the flag are the value. -/
theorem Memory.Wrote.of_stored {mem' : Memory} {n : Nat} {value : BitVec (8 * n)}
    (hsize : mem'.size = mem.size)
    (h : mem'.data = (stored n address value (be ≠ 0)).foldl
      (fun d w => Function.update d w.1 w.2) mem.data) :
    Memory.Wrote be address value mem mem' := by
  have hn : 8 * n / 8 = n := Nat.mul_div_cancel_left n (by decide)
  refine ⟨?_, hsize, fun i hi => ?_⟩
  · refine (mem'.eq_value be ?_).symm
    rw [hn, bytes_stored h, inOrder_inOrder, ofBytes_toBytes]
  · rw [h, foldl_update, lastWrite_eq_none]
    · rfl
    · intro w hw
      obtain ⟨j, hj, rfl⟩ := List.mem_map.1 hw
      have hjn := List.mem_range.1 hj
      show address.toNat + j ≠ i
      omega

/-- The write of a byte within the memory writes it and no other. -/
theorem Memory.Holds.memoryWriteByte_wrote (h : mem.Holds address 1) (value : Byte) :
    Memory.Wrote be address value mem (memoryWriteByte mem address value).2 := by
  have horder : stored 1 address value (be ≠ 0) = (MemOp.byte address value).stored := by
    have hbytes : toBytes 1 value = [(value >>> (8 * 0)).setWidth 8] := rfl
    rw [MemOp.stored, stored, stored, hbytes, inOrder_singleton, inOrder_singleton]
  have hop : (MemOp.byte address value).Holds mem := h
  refine .of_stored (n := 1) be (memoryWriteByte_size mem address value) ?_
  rw [horder]
  exact (MemOp.run_holds hop).2

/-- The write of a halfword within the memory writes its bytes and no others. -/
theorem Memory.Holds.memoryWriteHalf_wrote (h : mem.Holds address 2) (value : Half) :
    Memory.Wrote be address value mem (memoryWriteHalf mem address value be).2 := by
  have hop : (MemOp.half address value be).Holds mem := h
  exact .of_stored (n := 2) be (memoryWriteHalf_size mem address be value) (MemOp.run_holds hop).2

/-- The write of a word within the memory writes its bytes and no others. -/
theorem Memory.Holds.memoryWriteWord_wrote (h : mem.Holds address 4) (value : Word) :
    Memory.Wrote be address value mem (memoryWriteWord mem address value be).2 := by
  have hop : (MemOp.word address value be).Holds mem := h
  exact .of_stored (n := 4) be (memoryWriteWord_size mem address be value) (MemOp.run_holds hop).2

/-- A value is what it was where no byte of it has changed. -/
theorem Memory.value_congr {mem' : Memory} {w : Nat}
    (h : ∀ i < w / 8, mem'.data (address.toNat + i) = mem.data (address.toNat + i)) :
    mem'.value w be address = mem.value w be address := by
  have hbytes : mem'.bytes address (w / 8) = mem.bytes address (w / 8) :=
    List.map_congr_left fun i hi => h i (List.mem_range.1 hi)
  rw [Memory.value, Memory.value, hbytes]

end

/-! ## The law -/

/-- The memory as a store of bytes: a call that returns an error writes none. -/
def memoryStore : Store Memory MemOp Nat Byte where
  apply := fun mem op => (op.run mem).2
  peek := fun mem i => mem.data i
  writes := fun mem op => if (op.run mem).1 = .success then op.stored else []

/-- Every call obeys the law. -/
theorem memoryStore_stepLaw {mem : Memory} (hs : mem.Sized) (op : MemOp) (i : Nat) :
    memoryStore.StepLaw i mem op := by
  show (op.run mem).2.data i =
    (lastWrite (if (op.run mem).1 = .success then op.stored else []) i).getD (mem.data i)
  by_cases h : (op.run mem).1 = .success
  · rw [if_pos h, op.run_success hs h, foldl_update]
  · rw [if_neg h, op.run_error h]
    rfl

/-- An operation keeps the size. -/
theorem Memory.Sized.op {mem : Memory} (hs : mem.Sized) (op : MemOp) : (op.run mem).2.Sized := by
  rwa [Memory.Sized, op.run_size]

/-- The bytes last written at `n` addresses from `address` on, the initial ones where none was. -/
def lastBytes (mem : Memory) (ops : List MemOp) (address : Word) (n : Nat) : List Byte :=
  (List.range n).map fun i =>
    (lastWrite (memoryStore.history mem ops) (address.toNat + i)).getD
      (mem.data (address.toNat + i))

/-- The bytes found after a sequence of calls are those last written. -/
theorem bytes_run {mem : Memory} (hs : mem.Sized) (ops : List MemOp) (address : Word) (n : Nat) :
    (memoryStore.run mem ops).bytes address n = lastBytes mem ops address n := by
  refine List.map_congr_left fun i _ => ?_
  exact memoryStore.law_of_invariant (I := Memory.Sized) (fun _ op h => h.op op)
    (fun _ op h => memoryStore_stepLaw h op _) hs ops

/-- The two flags select the same order. -/
abbrev SameOrder (be be' : Byte) : Prop := be ≠ 0 ↔ be' ≠ 0

/-- The number that was stored in one order is read back in the same order. -/
theorem ofBytes_inOrder_inOrder {n : Nat} (be be' : Byte) (value : BitVec (8 * n)) :
    (SameOrder be be' →
      ofBytes (inOrder (be' ≠ 0) (inOrder (be ≠ 0) (toBytes n value))) = value.toNat) ∧
    (¬ SameOrder be be' →
      ofBytes (inOrder (be' ≠ 0) (inOrder (be ≠ 0) (toBytes n value))) =
        ofBytes (toBytes n value).reverse) := by
  constructor
  · intro h
    rw [decide_eq_decide.2 h, inOrder_inOrder, ofBytes_toBytes]
  · intro h
    by_cases hbe : be ≠ 0
    · have hbe' : ¬ be' ≠ 0 := fun h' => h (iff_of_true hbe h')
      rw [decide_eq_true hbe, decide_eq_false hbe']
      rfl
    · have hbe' : be' ≠ 0 := by_contra fun h' => h (iff_of_false hbe h')
      rw [decide_eq_false hbe, decide_eq_true hbe']
      rfl

section
variable {mem : Memory} (hs : mem.Sized) (address : Word) (be be' : Byte)
include hs

/-- A byte that was written is read back. -/
theorem memoryReadByte_memoryWriteByte {value : Byte}
    (h : (memoryWriteByte mem address value).1 = .success) (old : Byte) :
    memoryReadByte (memoryWriteByte mem address value).2 address old = (.success, value) := by
  have hcheck := (memoryCheck_congr (memoryWriteByte_size mem address value) 0 address).trans
    ((memoryWriteByte_fst mem address value).symm.trans h)
  obtain ⟨w, hread⟩ : ∃ w, memoryReadByte (memoryWriteByte mem address value).2 address old =
      (.success, w) := ⟨_, Prod.ext ((memoryReadByte_fst _ address old).trans hcheck) rfl⟩
  have hval := memoryReadByte_success (hs.op (.byte address value)) address hread
  rw [bytes_stored ((MemOp.byte address value).run_success hs h)] at hval
  have hw : w = value := BitVec.eq_of_toNat_eq (hval.trans (ofBytes_toBytes (n := 1) value))
  rw [hread, hw]

/-- A half that was written is read back, with its bytes reversed if the flags order them
differently. -/
theorem memoryReadHalf_memoryWriteHalf {value : Half}
    (h : (memoryWriteHalf mem address value be).1 = .success) (old : Half) :
    ∃ w, memoryReadHalf (memoryWriteHalf mem address value be).2 address old be' = (.success, w) ∧
      (SameOrder be be' → w = value) ∧
      (¬ SameOrder be be' → w.toNat = ofBytes (toBytes 2 value).reverse) := by
  have hcheck := (memoryCheck_congr (memoryWriteHalf_size mem address be value) 1 address).trans
    ((memoryWriteHalf_fst mem address be value).symm.trans h)
  obtain ⟨w, hread⟩ : ∃ w, memoryReadHalf (memoryWriteHalf mem address value be).2 address old be' =
      (.success, w) := ⟨_, Prod.ext ((memoryReadHalf_fst _ address be' old).trans hcheck) rfl⟩
  have hval := memoryReadHalf_success (hs.op (.half address value be)) address be' hread
  rw [bytes_stored ((MemOp.half address value be).run_success hs h)] at hval
  obtain ⟨hsame, hother⟩ := ofBytes_inOrder_inOrder (n := 2) be be' value
  exact ⟨w, hread, fun ho => BitVec.eq_of_toNat_eq (hval.trans (hsame ho)),
    fun ho => hval.trans (hother ho)⟩

/-- A word that was written is read back, with its bytes reversed if the flags order them
differently. -/
theorem memoryReadWord_memoryWriteWord {value : Word}
    (h : (memoryWriteWord mem address value be).1 = .success) (old : Word) :
    ∃ w, memoryReadWord (memoryWriteWord mem address value be).2 address old be' = (.success, w) ∧
      (SameOrder be be' → w = value) ∧
      (¬ SameOrder be be' → w.toNat = ofBytes (toBytes 4 value).reverse) := by
  have hcheck := (memoryCheck_congr (memoryWriteWord_size mem address be value) 3 address).trans
    ((memoryWriteWord_fst mem address be value).symm.trans h)
  obtain ⟨w, hread⟩ : ∃ w, memoryReadWord (memoryWriteWord mem address value be).2 address old be' =
      (.success, w) := ⟨_, Prod.ext ((memoryReadWord_fst _ address be' old).trans hcheck) rfl⟩
  have hval := memoryReadWord_success (hs.op (.word address value be)) address be' hread
  rw [bytes_stored ((MemOp.word address value be).run_success hs h)] at hval
  obtain ⟨hsame, hother⟩ := ofBytes_inOrder_inOrder (n := 4) be be' value
  exact ⟨w, hread, fun ho => BitVec.eq_of_toNat_eq (hval.trans (hsame ho)),
    fun ho => hval.trans (hother ho)⟩

end

/-- The law of the memory after a sequence of calls. -/
structure MemoryStoreLaw (mem : Memory) (ops : List MemOp) (mem' : Memory) : Prop where
  /-- A read that succeeds assembles the bytes last written, in the order of its flag. -/
  readByte : ∀ address value w, memoryReadByte mem' address value = (.success, w) →
    w.toNat = ofBytes (lastBytes mem ops address 1)
  readHalf : ∀ address value be w, memoryReadHalf mem' address value be = (.success, w) →
    w.toNat = ofBytes (inOrder (be ≠ 0) (lastBytes mem ops address 2))
  readWord : ∀ address value be w, memoryReadWord mem' address value be = (.success, w) →
    w.toNat = ofBytes (inOrder (be ≠ 0) (lastBytes mem ops address 4))
  /-- A write that succeeds is read back: as it is with the flag of the write, and byte-reversed
  with the other one. -/
  byteBack : ∀ address value old, (memoryWriteByte mem' address value).1 = .success →
    memoryReadByte (memoryWriteByte mem' address value).2 address old = (.success, value)
  halfBack : ∀ address value old be be', (memoryWriteHalf mem' address value be).1 = .success →
    ∃ w, memoryReadHalf (memoryWriteHalf mem' address value be).2 address old be' = (.success, w) ∧
      (SameOrder be be' → w = value) ∧
      (¬ SameOrder be be' → w.toNat = ofBytes (toBytes 2 value).reverse)
  wordBack : ∀ address value old be be', (memoryWriteWord mem' address value be).1 = .success →
    ∃ w, memoryReadWord (memoryWriteWord mem' address value be).2 address old be' = (.success, w) ∧
      (SameOrder be be' → w = value) ∧
      (¬ SameOrder be be' → w.toNat = ofBytes (toBytes 4 value).reverse)
  /-- A write that returns an error changes nothing. -/
  error : ∀ op : MemOp, (op.run mem').1 ≠ .success → (op.run mem').2 = mem'
  /-- The size is the same, and a call for bytes that lie in the memory succeeds. -/
  size : mem'.size = mem.size
  write : ∀ op : MemOp, op.Holds mem' → (op.run mem').1 = .success
  byteInside : ∀ address old, mem'.Holds address 1 → (memoryReadByte mem' address old).1 = .success
  halfInside : ∀ address old be, mem'.Holds address 2 →
    (memoryReadHalf mem' address old be).1 = .success
  wordInside : ∀ address old be, mem'.Holds address 4 →
    (memoryReadWord mem' address old be).1 = .success

/-- **The memory store law.** For every memory of size 4 to 2^32, whatever calls have written it. -/
theorem memory_storeLaw {mem : Memory} (hs : mem.Sized) (ops : List MemOp) :
    MemoryStoreLaw mem ops (memoryStore.run mem ops) := by
  have hs' : (memoryStore.run mem ops).Sized :=
    memoryStore.run_invariant (I := Memory.Sized) (fun _ op h => h.op op) hs ops
  have hsize : (memoryStore.run mem ops).size = mem.size :=
    memoryStore.run_invariant (I := fun m => m.size = mem.size)
      (fun _ op h => (op.run_size _).trans h) rfl ops
  generalize hm : memoryStore.run mem ops = mem' at hs' hsize
  have hbytes : ∀ address n, mem'.bytes address n = lastBytes mem ops address n := by
    intro address n
    rw [← hm, bytes_run hs]
  constructor
  · intro address value w h
    rw [← hbytes]
    exact memoryReadByte_success hs' address h
  · intro address value be w h
    rw [← hbytes]
    exact memoryReadHalf_success hs' address be h
  · intro address value be w h
    rw [← hbytes]
    exact memoryReadWord_success hs' address be h
  · exact fun address value old h => memoryReadByte_memoryWriteByte hs' address h old
  · exact fun address value old be be' h => memoryReadHalf_memoryWriteHalf hs' address be be' h old
  · exact fun address value old be be' h => memoryReadWord_memoryWriteWord hs' address be be' h old
  · exact fun op h => op.run_error h
  · exact hsize
  · exact fun op h => (MemOp.run_holds h).1
  · exact fun address old h => congrArg Prod.fst (h.memoryReadByte_eq 0 old)
  · exact fun address old be h => congrArg Prod.fst (h.memoryReadHalf_eq be old)
  · exact fun address old be h => congrArg Prod.fst (h.memoryReadWord_eq be old)

/-- A word, and a half that overlaps it. -/
def overlap : List MemOp := [.word 0 0x11223344 1, .half 3 0xAABB 0]

/-- The law holds for a memory of 8 bytes in which two writes overlap. -/
theorem memory_storeLaw_overlap :
    MemoryStoreLaw ⟨fun _ => 0, 8⟩ overlap (memoryStore.run ⟨fun _ => 0, 8⟩ overlap) :=
  memory_storeLaw ⟨by decide, by decide⟩ overlap

end ArmSimulator
