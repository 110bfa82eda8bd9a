import Mathlib.Data.Set.Insert
import Mathlib.Order.Defs.LinearOrder
import Mathlib.Order.Interval.Set.Defs
import Mathlib.Order.Monotone.Defs

/-!
# Sorted tables in an array

A table is the part of an array below some length `n`, and its entries are `t '' Set.Iio n`. In a
table that is increasing, strictly or with repetitions, a search keeps a bracket of the key
(`Bracket`); an insertion opens a gap where the key belongs, and a removal closes one. Both are made
by loops that move one entry at a time: `openGap_succ` and `closeGap_succ` are their steps.
-/

/-- Bit vectors are ordered by their values. -/
instance instLinearOrderBitVec (w : Nat) : LinearOrder (BitVec w) where
  le_refl := BitVec.le_refl
  le_trans := fun _ _ _ => BitVec.le_trans
  lt_iff_le_not_ge := fun x y => lt_iff_le_not_ge (a := x.toNat) (b := y.toNat)
  le_antisymm := fun _ _ => BitVec.le_antisymm
  le_total := BitVec.le_total
  toDecidableLE := inferInstance

namespace SortedTable

/-! ## Gaps -/

section
variable {α : Type}

/-- The array with the `k` entries from `j` on moved up by one. -/
def openGap (t : Nat → α) (j k : Nat) : Nat → α :=
  fun i => if j < i ∧ i ≤ j + k then t (i - 1) else t i

/-- The array with the `k` entries after `j` moved down by one. -/
def closeGap (t : Nat → α) (j k : Nat) : Nat → α :=
  fun i => if j ≤ i ∧ i < j + k then t (i + 1) else t i

variable (t : Nat → α) (j k : Nat)

/-- A gap before no entries moves none. -/
@[simp] theorem openGap_zero : openGap t j 0 = t := by
  funext i
  exact if_neg fun h => by omega

/-- A gap that is closed before no entries moves none. -/
@[simp] theorem closeGap_zero : closeGap t j 0 = t := by
  funext i
  exact if_neg fun h => by omega

/-- The last entry is moved first. -/
theorem openGap_succ :
    openGap (Function.update t (j + k + 1) (t (j + k))) j k = openGap t j (k + 1) := by
  funext i
  unfold openGap
  simp only [Function.update_apply]
  split_ifs <;> first | rfl | omega | (congr 1; omega)

/-- The first entry is moved first. -/
theorem closeGap_succ :
    closeGap (Function.update t j (t (j + 1))) (j + 1) k = closeGap t j (k + 1) := by
  funext i
  unfold closeGap
  simp only [Function.update_apply]
  split_ifs <;> first | rfl | omega | (congr 1; omega)

/-- The table with the key written into the gap at `j`. -/
def inserted (t : Nat → α) (n : Nat) (a : α) (j : Nat) : Nat → α :=
  Function.update (openGap t j (n - j)) j a

variable {t} {j} {n : Nat} {a : α}

/-- After an insertion come the entries before the key, the key, and the others moved up. -/
theorem inserted_apply (i : Nat) : inserted t n a j i =
    if i < j then t i else if i = j then a else if i ≤ n then t (i - 1) else t i := by
  unfold inserted openGap
  rw [Function.update_apply]
  split_ifs <;> first | rfl | omega

/-- The entries after an insertion are related as those of the table are to each other and to the
key. -/
theorem inserted_rel {r : α → α → Prop} (hj : j ≤ n) (ht : ∀ i k, i < k → k < n → r (t i) (t k))
    (hbelow : ∀ i < j, r (t i) a) (habove : ∀ i, j ≤ i → i < n → r a (t i)) {i k : Nat}
    (hik : i < k) (hk : k < n + 1) : r (inserted t n a j i) (inserted t n a j k) := by
  rw [inserted_apply, inserted_apply]
  split_ifs
  all_goals first | omega | skip
  · exact ht i k hik (by omega)
  · exact hbelow i ‹_›
  · exact ht i (k - 1) (by omega) (by omega)
  · exact habove (k - 1) (by omega) (by omega)
  · exact ht (i - 1) (k - 1) (by omega) (by omega)

/-- The entries after an insertion are those of the table and the key. -/
theorem image_inserted (hj : j ≤ n) :
    inserted t n a j '' Set.Iio (n + 1) = insert a (t '' Set.Iio n) := by
  ext b
  simp only [Set.mem_image, Set.mem_Iio, Set.mem_insert_iff, inserted_apply]
  constructor
  · rintro ⟨i, hi, rfl⟩
    split_ifs
    all_goals first | exact .inl rfl | omega | skip
    · exact .inr ⟨i, by omega, rfl⟩
    · exact .inr ⟨i - 1, by omega, rfl⟩
  · rintro (rfl | ⟨i, hi, rfl⟩)
    · exact ⟨j, by omega, by simp⟩
    · rcases Nat.lt_or_ge i j with hlt | hge
      · exact ⟨i, by omega, if_pos hlt⟩
      · refine ⟨i + 1, by omega, ?_⟩
        rw [if_neg (by omega), if_neg (by omega), if_pos (by omega)]
        rfl

end

/-! ## Brackets -/

section
variable {α : Type} [LinearOrder α] {t : Nat → α} {n lo hi : Nat} {a : α}

/-- The entries below `lo` are below `a`, and those from `hi` on are above it. -/
structure Bracket (t : Nat → α) (n : Nat) (a : α) (lo hi : Nat) : Prop where
  le : hi ≤ n
  below : ∀ i < lo, t i < a
  above : ∀ i, hi ≤ i → i < n → a < t i

/-- The whole table is a bracket. -/
theorem Bracket.whole (t : Nat → α) (n : Nat) (a : α) : Bracket t n a 0 n where
  le := Nat.le_refl n
  below := fun i hi => absurd hi (Nat.not_lt_zero i)
  above := fun _ hn hi => absurd hi (Nat.not_lt.2 hn)

/-- The search may go on below an entry that is above the key. -/
theorem Bracket.left (h : Bracket t n a lo hi) (ht : MonotoneOn t (Set.Iio n)) {m : Nat}
    (hm : m < hi) (ha : a < t m) : Bracket t n a lo m where
  le := Nat.le_trans (Nat.le_of_lt hm) h.le
  below := h.below
  above := fun _ hmi hi => lt_of_lt_of_le ha (ht (Nat.lt_of_lt_of_le hm h.le) hi hmi)

/-- The search may go on above an entry that is below the key. -/
theorem Bracket.right (h : Bracket t n a lo hi) (ht : MonotoneOn t (Set.Iio n)) {m : Nat}
    (hm : m < hi) (ha : t m < a) : Bracket t n a (m + 1) hi where
  le := h.le
  below := by
    intro i hi
    have hmn : m < n := Nat.lt_of_lt_of_le hm h.le
    have him : i ≤ m := Nat.le_of_lt_succ hi
    exact lt_of_le_of_lt (ht (Nat.lt_of_le_of_lt him hmn) hmn him) ha
  above := h.above

/-- An empty bracket: the key is not in the table. -/
theorem Bracket.not_mem (h : Bracket t n a lo hi) (hle : hi ≤ lo) : a ∉ t '' Set.Iio n := by
  rintro ⟨i, hi, rfl⟩
  rcases Nat.lt_or_ge i lo with hlt | hge
  · exact lt_irrefl _ (h.below i hlt)
  · exact lt_irrefl _ (h.above i (Nat.le_trans hle hge) hi)

/-- The first entry that is not above the key, found going down from the end of the table, is a
bracket where a key that is not in the table belongs. -/
theorem Bracket.of_gap {j : Nat} (ht : StrictMonoOn t (Set.Iio n)) (ha : a ∉ t '' Set.Iio n)
    (hj : j ≤ n) (habove : ∀ i, j ≤ i → i < n → a < t i) (hbelow : 0 < j → t (j - 1) ≤ a) :
    Bracket t n a j j where
  le := hj
  below := by
    intro i hi
    have hin : i ∈ Set.Iio n := Nat.lt_of_lt_of_le hi hj
    have hle : t i ≤ t (j - 1) := ht.monotoneOn hin (by simp; omega) (by omega)
    exact lt_of_le_of_ne (hle.trans (hbelow (by omega))) fun he => ha ⟨i, hin, he⟩
  above := habove

/-! ## Insertion and removal -/

/-- An insertion of a key where it belongs keeps the table sorted. -/
theorem monotoneOn_inserted {j : Nat} (ht : MonotoneOn t (Set.Iio n)) (hj : j ≤ n)
    (hbelow : ∀ i < j, t i ≤ a) (habove : ∀ i, j ≤ i → i < n → a ≤ t i) :
    MonotoneOn (inserted t n a j) (Set.Iio (n + 1)) := by
  intro i hi k hk hle
  rcases Nat.lt_or_eq_of_le hle with hlt | rfl
  · exact inserted_rel hj (fun i k hik hk => ht (hik.trans hk) hk (Nat.le_of_lt hik)) hbelow habove
      hlt hk
  · exact le_refl _

/-- An insertion of a key that the table does not have, at its place, keeps the table strictly
sorted. -/
theorem Bracket.strictMonoOn_inserted {j : Nat} (h : Bracket t n a j j)
    (ht : StrictMonoOn t (Set.Iio n)) : StrictMonoOn (inserted t n a j) (Set.Iio (n + 1)) :=
  fun _ _ _ hk hlt => inserted_rel h.le (fun _ _ hik hk => ht (hik.trans hk) hk hik) h.below h.above
    hlt hk

/-- The table without the entry at `j`. -/
def removed (t : Nat → α) (n j : Nat) : Nat → α := closeGap t j (n - 1 - j)

/-- After a removal come the entries before the key, and the others moved down. -/
theorem removed_apply {j i : Nat} (hi : i < n - 1) :
    removed t n j i = if i < j then t i else t (i + 1) := by
  unfold removed closeGap
  split_ifs <;> first | rfl | omega

/-- A removal keeps the table sorted. -/
theorem strictMonoOn_removed (ht : StrictMonoOn t (Set.Iio n)) (j : Nat) :
    StrictMonoOn (removed t n j) (Set.Iio (n - 1)) := by
  intro i hi i' hi' hlt
  rw [Set.mem_Iio] at hi hi'
  rw [removed_apply hi, removed_apply hi']
  split_ifs
  all_goals first | omega | exact ht (by simp; omega) (by simp; omega) (by omega)

/-- A removal takes the entry from the entries. -/
theorem image_removed (ht : StrictMonoOn t (Set.Iio n)) {j : Nat} (hj : j < n) :
    removed t n j '' Set.Iio (n - 1) = (t '' Set.Iio n) \ {t j} := by
  have hne : ∀ {i}, i < n → i ≠ j → t i ≠ t j := fun hi hij he => hij (ht.injOn hi hj he)
  ext b
  simp only [Set.mem_image, Set.mem_Iio, Set.mem_sdiff, Set.mem_singleton_iff]
  constructor
  · rintro ⟨i, hi, rfl⟩
    rw [removed_apply hi]
    split_ifs
    · exact ⟨⟨i, by omega, rfl⟩, hne (by omega) (by omega)⟩
    · exact ⟨⟨i + 1, by omega, rfl⟩, hne (by omega) (by omega)⟩
  · rintro ⟨⟨i, hi, rfl⟩, hb⟩
    have hij : i ≠ j := fun he => hb (he ▸ rfl)
    rcases Nat.lt_or_ge i j with hlt | hge
    · refine ⟨i, by omega, ?_⟩
      rw [removed_apply (by omega), if_pos hlt]
    · refine ⟨i - 1, by omega, ?_⟩
      rw [removed_apply (by omega), if_neg (by omega), Nat.sub_add_cancel (by omega)]

end

end SortedTable
