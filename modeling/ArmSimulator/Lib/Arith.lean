import Mathlib.Algebra.Ring.Int.Defs
import Mathlib.Tactic.Common

/-!
# Arithmetic that may be undefined

In C a shift by a negative amount, or by the width of the operand or more, is undefined, and so is a
sum or a difference of signed numbers that their type does not have. `Checked α` is a computation
that stops at the first such operation, with the amount or the number that is wrong. For an
operation that is defined there is an equation with the one on bit vectors or integers.
-/

namespace Arith

/-- What is undefined. -/
inductive Undefined where
  /-- A shift by this amount. -/
  | shift (amount : Int)
  /-- A sum or a difference with this value. -/
  | range (value : Int)
  deriving DecidableEq, Repr

/-- A result, or the first operation that is undefined. -/
abbrev Checked (α : Type) := Except Undefined α

/-- The signed numbers of `w` bits. -/
abbrev InRange (w : Nat) (value : Int) : Prop := -2 ^ (w - 1) ≤ value ∧ value < 2 ^ (w - 1)

section
variable {w : Nat}

/-- A shift to the left. -/
def shl (x : BitVec w) (amount : Int) : Checked (BitVec w) :=
  if 0 ≤ amount ∧ amount < w then .ok (x <<< amount.toNat) else .error (.shift amount)

/-- A shift of an unsigned operand to the right. -/
def shr (x : BitVec w) (amount : Int) : Checked (BitVec w) :=
  if 0 ≤ amount ∧ amount < w then .ok (x >>> amount.toNat) else .error (.shift amount)

/-- A signed number of `w` bits. -/
def signed (w : Nat) (value : Int) : Checked Int :=
  if InRange w value then .ok value else .error (.range value)

/-- A signed sum. -/
def sadd (w : Nat) (a b : Int) : Checked Int := signed w (a + b)

/-- A signed difference. -/
def ssub (w : Nat) (a b : Int) : Checked Int := signed w (a - b)

/-- A computation that is defined goes on with its value. -/
theorem ok_bind {α β : Type} (a : α) (f : α → Checked β) : (.ok a >>= f) = f a := rfl

/-- A shift to the left by less than the width is defined. -/
theorem shl_natCast (x : BitVec w) {n : Nat} (h : n < w) : shl x n = .ok (x <<< n) := by
  have hin : 0 ≤ (n : Int) ∧ (n : Int) < w := by omega
  rw [shl, if_pos hin, Int.toNat_natCast]

/-- A shift to the right by less than the width is defined. -/
theorem shr_natCast (x : BitVec w) {n : Nat} (h : n < w) : shr x n = .ok (x >>> n) := by
  have hin : 0 ≤ (n : Int) ∧ (n : Int) < w := by omega
  rw [shr, if_pos hin, Int.toNat_natCast]

/-- A result in the range of the type is defined. -/
theorem signed_ok {value : Int} (h : InRange w value) : signed w value = .ok value := if_pos h

/-- A result outside of the range of the type is an overflow. -/
theorem signed_error {value : Int} (h : ¬ InRange w value) :
    signed w value = .error (.range value) := if_neg h

end

end Arith
