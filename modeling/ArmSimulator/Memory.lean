import ArmSimulator.Constants
import Mathlib.Logic.Function.Basic

/-!
# `memory.c`: the simulated memory

The data array is a total function: an index at or beyond `size` is outside the array, and stands
for whatever lies there. The bound checks are those of the source, in the arithmetic of `size_t`
(64 bits, where `size - 3` wraps around for a size below 3), and an access indexes the array in the
arithmetic of `uint32_t`.
-/

namespace ArmSimulator

/-- `exit_codes` of `werror.h`. -/
inductive ExitCode where
  | success
  | failure
  | allocError
  | nullReference
  | dataCorrupted
  | fileNotFound
  | invalidArguments
  | permissionDenied
  | indexOutOfRange
  | undefinedBehaviour
  deriving DecidableEq, Repr

/-- `struct memory_data`. -/
structure Memory where
  /-- The bytes of the memory, in increasing order of address. -/
  data : Nat → Byte
  /-- The memory size in bytes, a `size_t`. -/
  size : BitVec 64

/-- `memory_create`: no memory of size 0. The bytes are those `malloc` found. -/
def memoryCreate (data : Nat → Byte) (size : BitVec 64) : Option Memory :=
  if size = 0 then none else some ⟨data, size⟩

/-- `memory_get_size`. -/
def memoryGetSize (mem : Memory) : BitVec 64 := mem.size

namespace Memory

/-- The bound check of an access to `n + 1` bytes: `address >= mem->size-n` is not the case. -/
def inRange (mem : Memory) (n : Nat) (address : Word) : Bool :=
  (address.setWidth 64).ult (mem.size - BitVec.ofNat 64 n)

/-- `mem->data[address + i]`, the sum being a `uint32_t`. -/
def get (mem : Memory) (address : Word) (i : Nat) : Byte :=
  mem.data (address + BitVec.ofNat 32 i).toNat

/-- `mem->data[address + i] = value`. -/
def put (mem : Memory) (address : Word) (i : Nat) (value : Byte) : Memory :=
  { mem with data := Function.update mem.data (address + BitVec.ofNat 32 i).toNat value }

end Memory

/-- The two checks every access begins with, of the memory's integrity and of the bound. -/
def memoryCheck (mem : Memory) (n : Nat) (address : Word) : ExitCode :=
  if mem.size = 0 then .dataCorrupted
  else if mem.inRange n address then .success
  else .indexOutOfRange

/-! ## Reads

A read that fails leaves the destination `*value` as it was: `value` is what it held before.
-/

/-- `memory_read_byte`. -/
def memoryReadByte (mem : Memory) (address : Word) (value : Byte) : ExitCode × Byte :=
  match memoryCheck mem 0 address with
  | .success => (.success, mem.get address 0)
  | code => (code, value)

/-- `memory_read_half`. -/
def memoryReadHalf (mem : Memory) (address : Word) (value : Half) (be : Byte) :
    ExitCode × Half :=
  match memoryCheck mem 1 address with
  | .success =>
    let aux : Half := 0
    if be ≠ 0 then
      let aux := aux ||| ((mem.get address 0).setWidth 16 <<< 8)
      (.success, aux ||| (mem.get address 1).setWidth 16)
    else
      let aux := aux ||| (mem.get address 0).setWidth 16
      (.success, aux ||| ((mem.get address 1).setWidth 16 <<< 8))
  | code => (code, value)

/-- `memory_read_word`. -/
def memoryReadWord (mem : Memory) (address : Word) (value : Word) (be : Byte) :
    ExitCode × Word :=
  match memoryCheck mem 3 address with
  | .success =>
    if be ≠ 0 then
      (.success, (List.range 4).foldl
        (fun aux i => aux ||| ((mem.get address i).setWidth 32 <<< ((3 - i) * 8))) 0)
    else
      (.success, (List.range 4).foldl
        (fun aux i => aux ||| ((mem.get address (3 - i)).setWidth 32 <<< ((3 - i) * 8))) 0)
  | code => (code, value)

/-! ## Writes -/

/-- `memory_write_byte`. -/
def memoryWriteByte (mem : Memory) (address : Word) (value : Byte) : ExitCode × Memory :=
  match memoryCheck mem 0 address with
  | .success => (.success, mem.put address 0 value)
  | code => (code, mem)

/-- `memory_write_half`. -/
def memoryWriteHalf (mem : Memory) (address : Word) (value : Half) (be : Byte) :
    ExitCode × Memory :=
  match memoryCheck mem 1 address with
  | .success =>
    if be ≠ 0 then
      let mem := mem.put address 0 ((value >>> 8).setWidth 8)
      (.success, mem.put address 1 (value.setWidth 8))
    else
      let mem := mem.put address 0 (value.setWidth 8)
      (.success, mem.put address 1 ((value >>> 8).setWidth 8))
  | code => (code, mem)

/-- `memory_write_word`. -/
def memoryWriteWord (mem : Memory) (address : Word) (value : Word) (be : Byte) :
    ExitCode × Memory :=
  match memoryCheck mem 3 address with
  | .success =>
    if be ≠ 0 then
      (.success, (List.range 4).foldl
        (fun mem i => mem.put address i ((value >>> ((3 - i) * 8)).setWidth 8)) mem)
    else
      (.success, (List.range 4).foldl
        (fun mem i => mem.put address i ((value >>> (i * 8)).setWidth 8)) mem)
  | code => (code, mem)

/-! ## The checks -/

/-- The checks depend on the size only. -/
theorem memoryCheck_congr {mem mem' : Memory} (h : mem'.size = mem.size) (n : Nat)
    (address : Word) :
    memoryCheck mem' n address = memoryCheck mem n address := by
  unfold memoryCheck Memory.inRange
  rw [h]

section
variable (mem : Memory) (address : Word) (be : Byte)

/-- An access that passes the check succeeds in either byte order. -/
theorem success_fst {α : Type} {c : Prop} [Decidable c] (x y : α) :
    (if c then (ExitCode.success, x) else (ExitCode.success, y)).1 = .success := by
  split
  · rfl
  · rfl

/-- The check of an access decides whether it succeeds. -/
theorem memoryWriteByte_fst (value : Byte) :
    (memoryWriteByte mem address value).1 = memoryCheck mem 0 address := by
  unfold memoryWriteByte
  split
  · next h => exact h.symm
  · rfl

/-- The code of the write of a halfword is that of the check. -/
theorem memoryWriteHalf_fst (value : Half) :
    (memoryWriteHalf mem address value be).1 = memoryCheck mem 1 address := by
  unfold memoryWriteHalf
  split
  · next h => exact (success_fst _ _).trans h.symm
  · rfl

/-- The code of the write of a word is that of the check. -/
theorem memoryWriteWord_fst (value : Word) :
    (memoryWriteWord mem address value be).1 = memoryCheck mem 3 address := by
  unfold memoryWriteWord
  split
  · next h => exact (success_fst _ _).trans h.symm
  · rfl

/-- The code of the read of a byte is that of the check. -/
theorem memoryReadByte_fst (value : Byte) :
    (memoryReadByte mem address value).1 = memoryCheck mem 0 address := by
  unfold memoryReadByte
  split
  · next h => exact h.symm
  · rfl

/-- The code of the read of a halfword is that of the check. -/
theorem memoryReadHalf_fst (value : Half) :
    (memoryReadHalf mem address value be).1 = memoryCheck mem 1 address := by
  unfold memoryReadHalf
  split
  · next h => exact (success_fst _ _).trans h.symm
  · rfl

/-- The code of the read of a word is that of the check. -/
theorem memoryReadWord_fst (value : Word) :
    (memoryReadWord mem address value be).1 = memoryCheck mem 3 address := by
  unfold memoryReadWord
  split
  · next h => exact (success_fst _ _).trans h.symm
  · rfl

end

/-! ## The size is constant -/

section
variable (mem : Memory) (address : Word) (be : Byte)

/-- The write of a byte keeps the size of the memory. -/
@[simp] theorem memoryWriteByte_size (value : Byte) :
    (memoryWriteByte mem address value).2.size = mem.size := by
  unfold memoryWriteByte; split <;> rfl

/-- The write of a halfword keeps the size of the memory. -/
@[simp] theorem memoryWriteHalf_size (value : Half) :
    (memoryWriteHalf mem address value be).2.size = mem.size := by
  unfold memoryWriteHalf; split <;> [split; skip] <;> rfl

/-- The write of a word keeps the size of the memory. -/
@[simp] theorem memoryWriteWord_size (value : Word) :
    (memoryWriteWord mem address value be).2.size = mem.size := by
  unfold memoryWriteWord; split <;> [split; skip] <;> rfl

end

end ArmSimulator
