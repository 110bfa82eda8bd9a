import ArmSimulator.LoadStore

/-!
# The loops of the block transfers

`listed registerList n` counts the registers below `n` in a list: it is what `number_set_bits_in`
computes for `n = 16`, and four times it is how far the loops of `arm_load_store_multiple` move the
address. So the address after a transfer is `start + 4 * n`, in all four addressing modes
(`addressingMode_end`), and the assertions on `end_address` hold.
-/

namespace ArmSimulator

open Prog

/-! ## The number of registers in a list -/

/-- The number of registers below `n` in the list. -/
def listed (registerList : Half) (n : Nat) : Nat :=
  (List.range n).countP fun i => registerList.getLsbD i

/-- The registers below `n + 1` are the first one and the registers below `n` of the list moved
down by one. -/
theorem listed_succ (registerList : Half) (n : Nat) :
    listed registerList (n + 1) =
      (if registerList.getLsbD 0 then 1 else 0) + listed (registerList >>> 1) n := by
  unfold listed
  rw [List.range_succ_eq_map, List.countP_cons, List.countP_map]
  have h : ((fun i => registerList.getLsbD i) ∘ Nat.succ) =
      fun i => (registerList >>> 1).getLsbD i := by
    funext i
    simp [Nat.add_comm]
  rw [h, Nat.add_comm]

/-- The register numbered `n` is counted when it is in the list. -/
theorem listed_add_one (registerList : Half) (n : Nat) :
    listed registerList (n + 1) =
      listed registerList n + if registerList.getLsbD n then 1 else 0 := by
  unfold listed
  rw [List.range_succ, List.countP_append]
  simp [List.countP_cons]

/-- The loops over r0 to r14 cover the list when r15 is not in it. -/
theorem listed_fifteen_of_not {registerList : Half} (h : ¬ getBit registerList 15 = true) :
    listed registerList 15 = listed registerList 16 := by
  rw [listed_add_one registerList 15]
  simp at h
  simp [h]

/-- The loops over r0 to r14 leave one register of the list when r15 is in it. -/
theorem listed_fifteen_of {registerList : Half} (h : getBit registerList 15 = true) :
    listed registerList 15 + 1 = listed registerList 16 := by
  rw [listed_add_one registerList 15]
  rw [getBit_eq_getLsbD] at h
  simp [h]

/-- A list that is not empty has a register in it, and no more than 16. -/
theorem listed_pos {registerList : Half} (h0 : registerList ≠ 0) :
    0 < listed registerList 16 ∧ listed registerList 16 ≤ 16 := by
  constructor
  · obtain ⟨i, hi⟩ : ∃ i, registerList.getLsbD i = true := by
      by_contra hne
      refine h0 (BitVec.eq_of_getLsbD_eq fun i _ => ?_)
      simpa using fun h => hne ⟨i, h⟩
    exact List.countP_pos_iff.2 ⟨i, List.mem_range.2 (BitVec.lt_of_getLsbD hi), hi⟩
  · exact Nat.le_trans List.countP_le_length (by simp)

/-- The seventeenth position of a list is not counted. -/
theorem listed_seventeen (registerList : Half) :
    listed registerList 17 = listed registerList 16 := by
  rw [listed_add_one, BitVec.getLsbD_of_ge _ _ (Nat.le_refl 16)]
  rfl

/-- The loop of `number_set_bits_in` counts the set bits. -/
theorem numberSetBitsLoop_eq (num : Half) (count : Nat) :
    numberSetBitsLoop num count = count + listed num 16 := by
  induction num, count using numberSetBitsLoop.induct with
  | case1 count =>
    rw [numberSetBitsLoop]
    simp [listed]
  | case2 num count h ih =>
    rw [numberSetBitsLoop, if_neg h, ih, ← listed_seventeen num, listed_succ num 16]
    have hbit : (num &&& 1).toNat = if num.getLsbD 0 then 1 else 0 := by
      rw [BitVec.toNat_and, BitVec.getLsbD, Nat.testBit_zero]
      show num.toNat &&& 1 = _
      rw [Nat.and_one_is_mod]
      rcases Nat.mod_two_eq_zero_or_one num.toNat with h0 | h0 <;> simp [h0]
    rw [hbit]
    omega

/-- `number_set_bits_in` returns the number of registers in the list. -/
theorem numberSetBitsIn_eq (registerList : Half) :
    numberSetBitsIn registerList = listed registerList 16 := by
  rw [numberSetBitsIn, numberSetBitsLoop_eq, Nat.zero_add]

/-- The number of the registers in a list is that of the bits that are set. -/
theorem listed_eq_cpop (registerList : Half) :
    listed registerList 16 = registerList.cpop.toNat := by
  have hrec : ∀ n, listed registerList n = registerList.cpopNatRec n 0 := by
    intro n
    induction n with
    | zero => rfl
    | succ n ih =>
      rw [listed_add_one, ih, BitVec.cpopNatRec_succ, BitVec.cpopNatRec_add]
      cases registerList.getLsbD n <;> simp
  rw [hrec, BitVec.toNat_cpop]

/-! ## The addresses of a transfer -/

/-- The end address is that of the last word transferred, in each of the four modes. -/
theorem addressingMode_end (code rn : Word) (registerList : Half) :
    (addressingMode code rn registerList).2 =
      (addressingMode code rn registerList).1 + BitVec.ofNat 32 (4 * listed registerList 16) -
        4 := by
  unfold addressingMode
  rw [numberSetBitsIn_eq, Nat.mul_comm]
  split_ifs <;> simp only <;> bv_omega

/-- The assertion on the end address passes: the loop has moved the address past every register in
the list. -/
theorem end_eq {code rn address : Word} {registerList : Half} {n : Nat}
    (hn : n = listed registerList 16)
    (ha : address = (addressingMode code rn registerList).1 + BitVec.ofNat 32 (4 * n)) :
    decide ((addressingMode code rn registerList).2 = address - 4) = true := by
  rw [decide_eq_true_eq, addressingMode_end, ha, hn]

/-! ## The loops -/

section
variable {I : ArmCore → Prop} {body : Nat → Word → ArmM Word}

/-- A loop over register numbers whose body, for a register in the list, keeps `I` and moves the
address by a word: it keeps `I`, and moves the address by a word for each register in the list. -/
theorem transfer_triple (registerList : Half) (l : List Nat)
    (hbody : ∀ i a, i ∈ l → registerList.getLsbD i = true →
      Triple I (body i a) fun a' s => a' = a + 4 ∧ I s) (a : Word) :
    Triple I
      (l.foldlM (fun a i => if getBit registerList i then body i a else return a) a)
      fun a' s =>
        a' = a + BitVec.ofNat 32 (4 * l.countP fun i => registerList.getLsbD i) ∧ I s := by
  -- the address that the loop will reach does not change along the loop
  let count := fun l : List Nat => l.countP fun i => registerList.getLsbD i
  have h := Triple.foldlM (σ := ArmCore)
    (f := fun a i => if getBit registerList i then body i a else return a)
    (I := fun xs b s =>
      (xs ⊆ l ∧ b + BitVec.ofNat 32 (4 * count xs) = a + BitVec.ofNat 32 (4 * count l)) ∧ I s)
    (fun i xs b => by
      apply Triple.of_fact
      rintro ⟨hsub, hb⟩
      obtain ⟨hil, hsub⟩ := List.cons_subset.1 hsub
      apply Triple.ite
      · intro hi
        rw [getBit_eq_getLsbD] at hi
        refine (hbody i b hil hi).post fun b' s hs => ⟨⟨hsub, ?_⟩, hs.2⟩
        rw [← hb, hs.1]
        simp only [count, List.countP_cons, hi, if_true]
        bv_omega
      · intro hi
        refine Triple.pure fun s hs => ⟨⟨hsub, ?_⟩, hs⟩
        rw [← hb]
        rw [getBit_eq_getLsbD] at hi
        simp [count, hi])
    l a
  refine h.conseq (fun s hs => ⟨⟨List.Subset.refl l, rfl⟩, hs⟩) fun a' s hs => ⟨?_, hs.2⟩
  have := hs.1.2
  simpa [count] using this

variable (endianess : Byte) (loc : Locals)

/-- The loop of a load moves the address by the size of the list and keeps what a load keeps. -/
theorem loadLoop_triple {write : Byte → Word → ArmM Unit}
    (hread : ∀ a v, Keeps I (armReadWord endianess a v)) (registerList : Half)
    (hwrite : ∀ i v, i < 15 → registerList.getLsbD i = true →
      Keeps I (write (BitVec.ofNat 8 i) v))
    (a : Word) :
    Triple I (loadLoop endianess loc write registerList a)
      fun a' s => a' = a + BitVec.ofNat 32 (4 * listed registerList 15) ∧ I s := by
  refine transfer_triple registerList (List.range 15) (fun i a hl hi => ?_) a
  exact Triple.bind (hread _ _) fun r => Triple.bind (hwrite i _ (List.mem_range.1 hl) hi) fun _ =>
    Triple.pure fun s hs => ⟨rfl, hs⟩

/-- The loop of a store moves the address by the size of the list and keeps what a store keeps. -/
theorem storeLoop_triple {read : Byte → ArmM Word} (hread : ∀ r, Keeps I (read r))
    (hwrite : ∀ a v, Keeps I (armWriteWord endianess a v)) (registerList : Half) (a : Word) :
    Triple I (storeLoop endianess read registerList a)
      fun a' s => a' = a + BitVec.ofNat 32 (4 * listed registerList 16) ∧ I s := by
  refine transfer_triple registerList (List.range 16) (fun i a _ _ => ?_) a
  exact Triple.bind (hread _) fun v => Triple.bind (hwrite _ _) fun _ =>
    Triple.pure fun s hs => ⟨rfl, hs⟩

end

end ArmSimulator
