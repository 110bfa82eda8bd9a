import Mathlib.Data.Nat.Digits.Defs
import Mathlib.Tactic.Common

/-!
# Numbers as bytes

`ofBytes` is the number with the given bytes, the least significant first, and `toBytes` gives the
bytes of a bit vector in this order. Both are read bit by bit: bit `j` of the number is bit `j % 8`
of byte `j / 8`. `inOrder` reverses the bytes for the big-endian order.
-/

namespace Bytes

/-- The number with the given bytes, the least significant first. -/
def ofBytes (bytes : List (BitVec 8)) : Nat := Nat.ofDigits 256 (bytes.map BitVec.toNat)

/-- The first `n` bytes of a bit vector, the least significant first. -/
def toBytes {w : Nat} (n : Nat) (x : BitVec w) : List (BitVec 8) :=
  (List.range n).map fun i => (x >>> (8 * i)).setWidth 8

/-- Bytes given with the least significant first, in the order of increasing addresses. -/
def inOrder (bigEndian : Bool) (bytes : List (BitVec 8)) : List (BitVec 8) :=
  if bigEndian then bytes.reverse else bytes

/-- The order is restored by ordering again. -/
theorem inOrder_inOrder (b : Bool) (bytes : List (BitVec 8)) :
    inOrder b (inOrder b bytes) = bytes := by
  cases b with
  | false => rfl
  | true => exact List.reverse_reverse bytes

/-- A value has as many bytes in either order. -/
@[simp] theorem length_inOrder_toBytes {w : Nat} (b : Bool) (n : Nat) (x : BitVec w) :
    (inOrder b (toBytes n x)).length = n := by
  cases b with
  | false => simp [inOrder, toBytes]
  | true => simp [inOrder, toBytes]

/-- Bit `j` of a number is bit `j % 8` of its byte `j / 8`. -/
theorem testBit_ofBytes (bytes : List (BitVec 8)) (j : Nat) :
    (ofBytes bytes).testBit j = (bytes.getD (j / 8) 0).getLsbD (j % 8) := by
  induction bytes generalizing j with
  | nil => simp [ofBytes]
  | cons b bytes ih =>
    have hcons : ofBytes (b :: bytes) = 2 ^ 8 * ofBytes bytes + b.toNat := by
      simp only [ofBytes, List.map_cons, Nat.ofDigits_cons]
      omega
    rw [hcons, Nat.testBit_two_pow_mul_add _ b.isLt]
    by_cases hj : j < 8
    · rw [if_pos hj, Nat.div_eq_of_lt hj, Nat.mod_eq_of_lt hj]
      rfl
    · have hdiv : j / 8 = (j - 8) / 8 + 1 := by omega
      have hmod : j % 8 = (j - 8) % 8 := by omega
      rw [if_neg hj, ih, hdiv, hmod]
      rfl

/-- Bit `j` of a bit vector is bit `j % 8` of its byte `j / 8`. -/
theorem getLsbD_toBytes {w : Nat} (n : Nat) (x : BitVec w) {j : Nat} (hj : j < 8 * n) :
    ((toBytes n x).getD (j / 8) 0).getLsbD (j % 8) = x.getLsbD j := by
  have hi : j / 8 < n := by omega
  have hj' : 8 * (j / 8) + j % 8 = j := by omega
  have hbit : j % 8 < 8 := Nat.mod_lt _ (by decide)
  simp [toBytes, List.getD_eq_getElem?_getD, hi, hbit, hj']

/-- The bytes of a bit vector give its value back. -/
theorem ofBytes_toBytes {n : Nat} (x : BitVec (8 * n)) : ofBytes (toBytes n x) = x.toNat := by
  apply Nat.eq_of_testBit_eq
  intro j
  rw [testBit_ofBytes, BitVec.testBit_toNat]
  by_cases hj : j < 8 * n
  · exact getLsbD_toBytes n x hj
  · have hlen : (toBytes n x).length ≤ j / 8 := by
      rw [toBytes, List.length_map, List.length_range]
      omega
    rw [List.getD_eq_getElem?_getD, List.getElem?_eq_none hlen,
      BitVec.getLsbD_of_ge x j (Nat.le_of_not_lt hj)]
    simp

end Bytes
