import Mathlib.Algebra.Group.Nat.Defs
import Mathlib.Tactic.Common

/-!
# `util.h` and `util.c`: bit fields, arithmetic shift and rotation

The unsigned C types are bit vectors of their width. A macro that shifts is written with the same
shifts, and comes with the lemma that reads its result bit by bit. The rest of the development uses
these lemmas and the two on short fields, not the shifts.
-/

namespace ArmSimulator

/-- `uint8_t`. -/
abbrev Byte := BitVec 8

/-- `uint16_t`. -/
abbrev Half := BitVec 16

/-- `uint32_t`. -/
abbrev Word := BitVec 32

/-- `get_bit(x, i)`, that is `((x)>>(i))&1`, as the truth value it is used for. -/
def getBit {w : Nat} (x : BitVec w) (i : Nat) : Bool := (x >>> i) &&& 1#w != 0#w

/-- `clr_bit(x, i)`, that is `(x)&~(1<<(i))`. -/
def clrBit (x : Word) (i : Nat) : Word := x &&& ~~~(1#32 <<< i)

/-- `get_bits(x, h, l)`: the bits `h` down to `l` of `x`, moved to position 0. -/
def getBits (x : Word) (h l : Nat) : Word :=
  (x >>> l) &&& ~~~((BitVec.allOnes 32 >>> (h - l + 1)) <<< (h - l + 1))

/-- `asr`. The sign bits `~0 << (32 - shift)` are or-ed in for a negative value. -/
def asr (value : Word) (shift : Byte) : Word :=
  (value >>> shift.toNat) |||
    (if getBit value 31 then BitVec.allOnes 32 <<< (32 - shift.toNat) else 0)

/-- `ror`. At a rotation of 0 the left shift is by 32, where `<<<` gives 0: the value itself. -/
def ror (value : Word) (rotation : Byte) : Word :=
  (value >>> rotation.toNat) ||| (value <<< (32 - rotation.toNat))

/-- `get_bit` reads the bit. -/
@[simp] theorem getBit_eq_getLsbD {w : Nat} (x : BitVec w) (i : Nat) :
    getBit x i = x.getLsbD i := by
  unfold getBit
  cases w with
  | zero => simp [BitVec.eq_nil x]
  | succ w =>
    have h : (x >>> i) &&& 1#(w + 1) = BitVec.setWidth (w + 1) (BitVec.ofBool (x.getLsbD i)) := by
      ext j hj
      cases j with
      | zero => simp
      | succ j => simp [BitVec.getElem_one, BitVec.getElem_setWidth]
    rw [h]
    cases x.getLsbD i <;> simp

/-- `get_bits` reads a field: bit `i` of the result is bit `l + i` of the argument. -/
theorem getLsbD_getBits (x : Word) (h l i : Nat) :
    (getBits x h l).getLsbD i = (decide (i < h - l + 1) && x.getLsbD (l + i)) := by
  unfold getBits
  rw [BitVec.getLsbD_and, BitVec.getLsbD_not, BitVec.getLsbD_shiftLeft, BitVec.getLsbD_ushiftRight,
    BitVec.getLsbD_ushiftRight, BitVec.getLsbD_allOnes]
  by_cases hi : i < 32
  · by_cases hf : i < h - l + 1
    · simp [hi, hf]
    · simp [hi, hf]
      omega
  · have : x.getLsbD (l + i) = false := BitVec.getLsbD_of_ge _ _ (by omega)
    simp [hi, this]

/-- The value of a field is a quotient and a remainder of that of the word. -/
theorem toNat_getBits (x : Word) (h l : Nat) :
    (getBits x h l).toNat = x.toNat / 2 ^ l % 2 ^ (h - l + 1) := by
  apply Nat.eq_of_testBit_eq
  intro i
  rw [BitVec.testBit_toNat, getLsbD_getBits, Nat.testBit_mod_two_pow, Nat.testBit_div_two_pow,
    BitVec.testBit_toNat, Nat.add_comm l]

/-- A field of a field from bit 0 on is a field of the word. -/
theorem getBits_getBits (x : Word) {m h l : Nat} (hl : l ≤ h) (hm : h ≤ m) :
    getBits (getBits x m 0) h l = getBits x h l := by
  apply BitVec.eq_of_getLsbD_eq
  intro i _
  rw [getLsbD_getBits, getLsbD_getBits, getLsbD_getBits, Nat.zero_add]
  by_cases hi : i < h - l + 1
  · have him : l + i < m - 0 + 1 := by omega
    rw [decide_eq_true him, Bool.true_and]
  · rw [decide_eq_false hi, Bool.false_and, Bool.false_and]

/-- A field inside a field that is 0 is 0. -/
theorem getBits_eq_zero {x : Word} {m k h l : Nat} (hx : getBits x m k = 0#32) (hk : k ≤ l)
    (hl : l ≤ h) (hm : h ≤ m) : getBits x h l = 0#32 := by
  apply BitVec.eq_of_getLsbD_eq
  intro i _
  have hbit := getLsbD_getBits x m k (l - k + i)
  have hadd : k + (l - k + i) = l + i := by omega
  rw [hx, hadd, BitVec.getLsbD_zero] at hbit
  rw [getLsbD_getBits, BitVec.getLsbD_zero]
  by_cases hi : i < h - l + 1
  · have hin : l - k + i < m - k + 1 := by omega
    rw [decide_eq_true hin, Bool.true_and] at hbit
    rw [← hbit, Bool.and_false]
  · rw [decide_eq_false hi, Bool.false_and]

/-- A field of one bit is 0 or 1. -/
theorem getBits_self (x : Word) (l : Nat) : getBits x l l = if getBit x l then 1 else 0 := by
  apply BitVec.eq_of_getLsbD_eq
  intro i _
  rw [getLsbD_getBits, Nat.sub_self, getBit_eq_getLsbD]
  cases i with
  | zero => cases x.getLsbD l <;> simp
  | succ i => cases x.getLsbD l <;> simp

/-- A field with one bit more on top has that bit in front. -/
theorem getBits_succ (x : Word) {h l : Nat} (hl : l ≤ h) :
    getBits x (h + 1) l =
      (if getBit x (h + 1) then BitVec.twoPow 32 (h + 1 - l) else 0) ||| getBits x h l := by
  apply BitVec.eq_of_getLsbD_eq
  intro i hi
  have hbit : (if getBit x (h + 1) then BitVec.twoPow 32 (h + 1 - l) else 0).getLsbD i =
      (decide (i = h + 1 - l) && x.getLsbD (l + i)) := by
    by_cases hin : i = h + 1 - l
    · have hpos : l + i = h + 1 := by omega
      rw [← hin, ← hpos, getBit_eq_getLsbD]
      cases x.getLsbD (l + i) <;> simp [hi]
    · have hne : ¬ h + 1 - l = i := fun he => hin he.symm
      cases getBit x (h + 1) <;> simp [hin, hne]
  rw [BitVec.getLsbD_or, getLsbD_getBits, getLsbD_getBits, hbit, ← Bool.and_or_distrib_right,
    ← Bool.decide_or]
  have hiff : i < h + 1 - l + 1 ↔ i = h + 1 - l ∨ i < h - l + 1 := by omega
  simp only [hiff]

/-- A field of two bits is the sum of their weights. -/
theorem getBits_pair (x : Word) (l : Nat) :
    getBits x (l + 1) l =
      (if getBit x (l + 1) then 2 else 0) ||| (if getBit x l then 1 else 0) := by
  rw [getBits_succ x (Nat.le_refl l), getBits_self, Nat.add_sub_cancel_left]
  rfl

/-- A field of four bits is the number of a register. -/
theorem getBits_le (x : Word) (l : Nat) : (getBits x (l + 3) l).setWidth 8 ≤ (15 : Byte) := by
  have hlen : l + 3 - l + 1 = 4 := by omega
  show (BitVec.setWidth 8 _).toNat ≤ 15
  rw [BitVec.toNat_setWidth, toNat_getBits, hlen]
  omega

end ArmSimulator
