import Mathlib.Tactic.Common

/-!
# Bit vectors under a mask

`x &&& k = y &&& k` says that `x` and `y` agree on the bits of the mask `k`. These lemmas carry
such an agreement to a smaller mask and through the assignment of a field,
`(x &&& ~~~m) ||| (v &&& m)`.
-/

namespace Bits

variable {w : Nat} {x y k m : BitVec w}

/-- Agreement on a mask is agreement on every smaller mask. -/
theorem agree_mono (h : x &&& k = y &&& k) (hm : k &&& m = m) : x &&& m = y &&& m := by
  rw [← hm, ← BitVec.and_assoc, ← BitVec.and_assoc, h]

/-- Agreement on a mask is agreement on each of its bits. -/
theorem agree_getLsbD (h : x &&& k = y &&& k) {i : Nat} (hi : k.getLsbD i = true) :
    x.getLsbD i = y.getLsbD i := by
  have := congrArg (fun z => z.getLsbD i) h
  simpa [hi] using this

/-- The bits of the mask `k` are those of the field `m` where it is assigned, and else those from
before. -/
theorem assign_and_of {n : BitVec w} (v : BitVec w) (hm : m &&& k = n) :
    ((x &&& ~~~m) ||| (v &&& m)) &&& k = (x &&& (k &&& ~~~n)) ||| (v &&& n) := by
  subst hm
  ext i hi
  simp only [BitVec.getElem_and, BitVec.getElem_or, BitVec.getElem_not]
  cases m[i] <;> cases k[i] <;> simp

/-- Assigning the field `m` leaves the bits of a mask disjoint from it. -/
theorem assign_and (v : BitVec w) (hm : m &&& k = 0#w) :
    ((x &&& ~~~m) ||| (v &&& m)) &&& k = x &&& k := by
  rw [assign_and_of v hm]
  simp

/-- A value is the assignment of a field if it agrees with both parts on their bits. -/
theorem eq_assign_iff {z v : BitVec w} :
    z = (x &&& ~~~m) ||| (v &&& m) ↔ z &&& ~~~m = x &&& ~~~m ∧ z &&& m = v &&& m := by
  constructor
  · rintro rfl
    constructor
    · ext i hi
      simp only [BitVec.getElem_and, BitVec.getElem_or, BitVec.getElem_not]
      cases m[i] <;> simp
    · ext i hi
      simp only [BitVec.getElem_and, BitVec.getElem_or, BitVec.getElem_not]
      cases m[i] <;> simp
  · rintro ⟨hx, hv⟩
    rw [← hx, ← hv]
    ext i hi
    simp only [BitVec.getElem_and, BitVec.getElem_or, BitVec.getElem_not]
    cases m[i] <;> simp

/-- Assignments of one field agree if the values do outside it. -/
theorem assign_eq_iff (v : BitVec w) :
    (x &&& ~~~m) ||| (v &&& m) = (y &&& ~~~m) ||| (v &&& m) ↔ x &&& ~~~m = y &&& ~~~m := by
  have hself := (eq_assign_iff (z := (x &&& ~~~m) ||| (v &&& m))).1 rfl
  rw [eq_assign_iff, hself.1, hself.2]
  exact and_iff_left rfl

end Bits
