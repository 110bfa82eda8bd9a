import Mathlib.Algebra.Group.Int.Defs
import Mathlib.Algebra.Group.Nat.Defs
import Mathlib.Tactic.Common

/-!
# Shifts as arithmetic

`shift kind x n c` is the shift of a bit vector by any amount, with its carry-out, as arithmetic
says it: a left shift multiplies by `2 ^ n`, a right shift divides, of the unsigned or of the signed
value, and a rotation takes the amount modulo the width. The carry-out is the last bit that leaves
the vector, and `c` where none does. `rrx` is the rotation through the carry by one.

An implementation shifts in place for the amounts below the width, and tells the others apart: the
lemmas give the value and the carry-out for each kind of amount.
-/

namespace BarrelShifter

/-- The kinds of shift: left, logical right, arithmetic right, and the rotation to the right. -/
inductive Kind where
  | lsl
  | lsr
  | asr
  | ror
  deriving DecidableEq, Repr

variable {w : Nat}

/-- The value shifted by `n`. -/
def value (kind : Kind) (x : BitVec w) (n : Nat) : BitVec w :=
  match kind with
  | .lsl => BitVec.ofNat w (x.toNat * 2 ^ n)
  | .lsr => BitVec.ofNat w (x.toNat / 2 ^ n)
  | .asr => BitVec.ofInt w (x.toInt / 2 ^ n)
  | .ror => x.rotateRight n

/-- The last bit shifted out, for an amount that is not 0: bit `w` of the product, or bit `n - 1` of
the value extended by zeros or by its sign. -/
def carry (kind : Kind) (x : BitVec w) (n : Nat) : Bool :=
  match kind with
  | .lsl => (x.toNat * 2 ^ n).testBit w
  | .lsr => (x.setWidth n).getLsbD (n - 1)
  | .asr => (x.signExtend n).getLsbD (n - 1)
  | .ror => x.getLsbD ((n - 1) % w)

/-- The shift by any amount. -/
def shift (kind : Kind) (x : BitVec w) (n : Nat) (c : Bool) : BitVec w × Bool :=
  if n = 0 then (x, c) else (value kind x n, carry kind x n)

/-- The rotation by one of the value with the carry above it. -/
def rrx (x : BitVec w) (c : Bool) : BitVec w × Bool :=
  let r := (x.cons c).rotateRight 1
  (r.setWidth w, r.msb)

/-- A shift by an amount other than 0 is its value with its carry-out. -/
theorem shift_of_ne {n : Nat} (h : n ≠ 0) (kind : Kind) (x : BitVec w) (c : Bool) :
    shift kind x n c = (value kind x n, carry kind x n) :=
  if_neg h

/-! ## Values -/

section
variable (x : BitVec w) (n : Nat)

/-- A shift to the left. -/
theorem value_lsl : value .lsl x n = x <<< n := by
  apply BitVec.eq_of_toNat_eq
  rw [value, BitVec.toNat_ofNat, BitVec.toNat_shiftLeft, Nat.shiftLeft_eq]

/-- A logical shift to the right. -/
theorem value_lsr : value .lsr x n = x >>> n := by
  apply BitVec.eq_of_toNat_eq
  have hlt : x.toNat / 2 ^ n < 2 ^ w := Nat.lt_of_le_of_lt (Nat.div_le_self _ _) x.isLt
  rw [value, BitVec.toNat_ofNat, BitVec.toNat_ushiftRight, Nat.shiftRight_eq_div_pow,
    Nat.mod_eq_of_lt hlt]

/-- An arithmetic shift to the right. -/
theorem value_asr : value .asr x n = x.sshiftRight n := by
  rw [value, BitVec.sshiftRight, Int.shiftRight_eq_div_pow]
  rfl

variable {n}

/-- A value shifted to the left by its width or more leaves nothing. -/
theorem value_lsl_of_le (h : w ≤ n) : value .lsl x n = 0#w := by
  rw [value_lsl, BitVec.shiftLeft_eq_zero h]

/-- A value shifted to the right by its width or more leaves nothing. -/
theorem value_lsr_of_le (h : w ≤ n) : value .lsr x n = 0#w := by
  rw [value_lsr, BitVec.ushiftRight_eq_zero h]

/-- A value shifted to the right by its width or more leaves its sign. -/
theorem value_asr_of_le (h : w ≤ n) :
    value .asr x n = if x.msb then BitVec.allOnes w else 0#w := by
  apply BitVec.eq_of_getLsbD_eq
  intro i hi
  have hni : ¬ n + i < w := by omega
  rw [value_asr, BitVec.getLsbD_sshiftRight, if_neg hni]
  cases x.msb with
  | false => simp
  | true => simp [hi]

/-- A rotation is made of two shifts, by the amount modulo the width. -/
theorem value_ror : value .ror x n = (x >>> (n % w)) ||| (x <<< (w - n % w)) :=
  BitVec.rotateRight_def

/-- By a multiple of the width it leaves the value. -/
theorem value_ror_of_mod (h : n % w = 0) : value .ror x n = x := by
  rw [value_ror, h, Nat.sub_zero, BitVec.shiftLeft_eq_zero (Nat.le_refl w), BitVec.ushiftRight_zero,
    BitVec.or_zero]

end

/-! ## Carries -/

section
variable (x : BitVec w) {n : Nat}

/-- The carry-out of a shift to the left by the width at most is the last bit that is moved out. -/
theorem carry_lsl_of_le (h : n ≤ w) : carry .lsl x n = x.getLsbD (w - n) := by
  rw [carry, Nat.testBit_mul_two_pow, decide_eq_true h, Bool.true_and]
  rfl

/-- A shift to the left by more than the width moves out a 0 last. -/
theorem carry_lsl_of_lt (h : w < n) : carry .lsl x n = false := by
  rw [carry, Nat.testBit_mul_two_pow, decide_eq_false (Nat.not_le_of_lt h), Bool.false_and]

variable (h0 : n ≠ 0)
include h0

/-- The carry-out of a logical shift to the right is the last bit that is moved out. -/
theorem carry_lsr : carry .lsr x n = x.getLsbD (n - 1) := by
  have hlt : n - 1 < n := Nat.sub_one_lt h0
  rw [carry, BitVec.getLsbD_setWidth, decide_eq_true hlt, Bool.true_and]

/-- The carry-out of an arithmetic shift to the right is the last bit that is moved out, which is
the sign beyond the width. -/
theorem carry_asr : carry .asr x n = if n ≤ w then x.getLsbD (n - 1) else x.msb := by
  have hlt : n - 1 < n := Nat.sub_one_lt h0
  have hiff : n - 1 < w ↔ n ≤ w := by omega
  rw [carry, BitVec.getLsbD_signExtend, decide_eq_true hlt, Bool.true_and]
  simp only [hiff]

/-- The carry-out of a rotation by a multiple of the width is the top bit. -/
theorem carry_ror_of_mod (h : n % w = 0) : carry .ror x n = x.msb := by
  obtain ⟨q, rfl⟩ := Nat.dvd_of_mod_eq_zero h
  obtain ⟨hw, hq⟩ := Nat.mul_ne_zero_iff.1 h0
  have hpred : w * q - 1 = w * (q - 1) + (w - 1) := by
    rw [Nat.mul_sub_one]
    have := Nat.le_mul_of_pos_right w (Nat.pos_of_ne_zero hq)
    omega
  rw [carry, BitVec.msb_eq_getLsbD_last, hpred, Nat.mul_add_mod,
    Nat.mod_eq_of_lt (Nat.sub_one_lt hw)]

omit h0 in
/-- The carry-out of another rotation is the bit below the amount. -/
theorem carry_ror_of_ne (h : n % w ≠ 0) : carry .ror x n = x.getLsbD (n % w - 1) := by
  have hpred : n - 1 = w * (n / w) + (n % w - 1) := by
    have := Nat.div_add_mod n w
    omega
  have hlt : n % w - 1 < w ∨ w = 0 := by
    have := Nat.mod_lt n (y := w)
    omega
  rw [carry, hpred, Nat.mul_add_mod]
  rcases hlt with hlt | rfl
  · rw [Nat.mod_eq_of_lt hlt]
  · rw [Nat.mod_zero]

end

/-! ## The rotation through the carry -/

section
variable (x : BitVec w) (c : Bool)

/-- `rrx` moves the bits down by one, and the carry to the top. -/
theorem getLsbD_rrx {i : Nat} (hi : i < w) :
    (rrx x c).1.getLsbD i = if i + 1 = w then c else x.getLsbD (i + 1) := by
  have hlt : 1 < w + 1 := by omega
  have hin : i < w + 1 - 1 := by omega
  rw [rrx, BitVec.getLsbD_setWidth, BitVec.getLsbD_rotateRight_of_lt hlt, decide_eq_true hi,
    decide_eq_true hin, Bool.true_and, cond_true, BitVec.getLsbD_cons, Nat.add_comm]

/-- Bit 0 becomes the carry of `rrx`. -/
theorem rrx_snd (hw : 0 < w) : (rrx x c).2 = x.getLsbD 0 := by
  have hlt : 1 < w + 1 := by omega
  have hne : 0 ≠ w := by omega
  show ((x.cons c).rotateRight 1).msb = x.getLsbD 0
  rw [BitVec.msb_eq_getLsbD_last, BitVec.getLsbD_rotateRight_of_lt hlt, Nat.add_sub_cancel,
    decide_eq_false (Nat.lt_irrefl w), cond_false, Nat.sub_self, BitVec.getLsbD_cons, if_neg hne]
  simp

/-- The value is made of two shifts. -/
theorem rrx_fst (hw : 0 < w) :
    (rrx x c).1 = ((BitVec.ofBool c).setWidth w <<< (w - 1)) ||| (x >>> 1) := by
  apply BitVec.eq_of_getLsbD_eq
  intro i hi
  rw [getLsbD_rrx x c hi, BitVec.getLsbD_or, BitVec.getLsbD_shiftLeft, BitVec.getLsbD_ushiftRight,
    BitVec.getLsbD_setWidth, Nat.add_comm 1 i]
  by_cases htop : i + 1 = w
  · have hi' : ¬ i < w - 1 := by omega
    have hzero : i - (w - 1) = 0 := by omega
    simp [htop, hi, hi', hzero, hw]
  · have hlow : i < w - 1 := by omega
    simp [htop, hlow]

end

end BarrelShifter
