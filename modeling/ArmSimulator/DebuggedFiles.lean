import ArmSimulator.Debug
import Mathlib.Data.List.Induction

/-!
# The table of debugged files

The order of `strcmp` is the lexicographic one, and the table is increasing in it, with repetitions
(`DebugTableOk`). As long as it has room, `add_debug_to` inserts the name where it belongs, and
`__is_debugged` finds what was added (`isDebugged_iff`). The guard of `add_debug_to` looks at the
index of the insertion, not at the number of entries: a name is refused by a full table only if it
is above all the entries, and else the last of them is moved out of the array
(`capacityKept_iff`).
-/

namespace ArmSimulator

open Fallible SortedTable

/-! ## The order of `strcmp` -/

/-- A character is not the NUL. -/
theorem toNat_pos {b : Byte} {s : List Byte} (h : Ascii.nul ∉ b :: s) : 0 < b.toNat := by
  refine Nat.pos_of_ne_zero fun hb => h ?_
  rw [show b = Ascii.nul from BitVec.eq_of_toNat_eq hb]
  exact List.mem_cons_self

/-- `strcmp` answers 0 for the same names. -/
theorem strcmp_eq_zero {s t : List Byte} (hs : Ascii.nul ∉ s) (ht : Ascii.nul ∉ t) :
    strcmp s t = 0 ↔ s = t := by
  induction s generalizing t with
  | nil =>
    cases t with
    | nil => exact iff_of_true rfl rfl
    | cons b t =>
      have hb := toNat_pos ht
      refine iff_of_false ?_ (List.cons_ne_nil b t).symm
      rw [strcmp]
      omega
  | cons a s ih =>
    cases t with
    | nil =>
      have ha := toNat_pos hs
      refine iff_of_false ?_ (List.cons_ne_nil a s)
      rw [strcmp]
      omega
    | cons b t =>
      rw [strcmp, List.cons.injEq]
      split_ifs with hab
      · rw [ih (List.not_mem_of_not_mem_cons hs) (List.not_mem_of_not_mem_cons ht),
          and_iff_right hab]
      · refine iff_of_false (fun h => hab (BitVec.eq_of_toNat_eq ?_)) fun h => hab h.1
        omega

/-- `strcmp` answers a negative number for a name that comes before the other one. -/
theorem strcmp_neg {s t : List Byte} (hs : Ascii.nul ∉ s) (ht : Ascii.nul ∉ t) :
    strcmp s t < 0 ↔ s < t := by
  induction s generalizing t with
  | nil =>
    cases t with
    | nil => exact iff_of_false (lt_irrefl _) (lt_irrefl _)
    | cons b t =>
      have hb := toNat_pos ht
      refine iff_of_true ?_ (List.nil_lt_cons b t)
      rw [strcmp]
      omega
  | cons a s ih =>
    cases t with
    | nil =>
      refine iff_of_false ?_ (List.not_lt_nil _)
      rw [strcmp]
      omega
    | cons b t =>
      rw [strcmp, List.cons_lt_cons_iff]
      split_ifs with hab
      · have hirrefl : ¬ a < b := hab ▸ lt_irrefl b
        rw [ih (List.not_mem_of_not_mem_cons hs) (List.not_mem_of_not_mem_cons ht),
          or_iff_right hirrefl, and_iff_right hab]
      · rw [or_iff_left fun h => hab h.1, BitVec.lt_def]
        omega

/-- `strcmp` answers the order of two names. -/
theorem strcmp_iff (s t : CString) : (strcmp s t < 0 ↔ s < t) ∧ (strcmp s t = 0 ↔ s = t) ∧
    (0 < strcmp s t ↔ t < s) := by
  have hneg : strcmp s t < 0 ↔ s < t := strcmp_neg s.2 t.2
  have hzero : strcmp s t = 0 ↔ s = t := (strcmp_eq_zero s.2 t.2).trans Subtype.ext_iff.symm
  refine ⟨hneg, hzero, ?_⟩
  rcases lt_trichotomy s t with h | h | h
  · exact iff_of_false (by have := hneg.2 h; omega) h.asymm
  · exact iff_of_false (by have := hzero.2 h; omega) (h ▸ lt_irrefl t)
  · refine iff_of_true ?_ h
    have hne : strcmp s t ≠ 0 := fun he => h.ne' (hzero.1 he)
    have hge : ¬ strcmp s t < 0 := fun hl => h.asymm (hneg.1 hl)
    omega

/-! ## The accesses and the loops -/

/-- The table holds the first `n` of the strings, in the order of `strcmp`. -/
structure DebugTableOk (table : DebugTable) (t : Nat → CString) (n : Nat) : Prop where
  number : table.nbDebuggedFiles = n
  le : n ≤ maxFilesNumber
  files : ∀ i < n, table.debuggedFiles i = some (t i)
  sorted : MonotoneOn t (Set.Iio n)

section
variable {table : DebugTable} {t : Nat → CString} {n : Nat} {name : CString}

/-- The number of files that is read is that of the table. -/
theorem run_readNbFiles (h : DebugTableOk table t n) :
    readNbFiles.run table = .ok ((n : Int), table) :=
  congrArg (fun number => Except.ok (number, table)) h.number

/-- An entry within the array is read. -/
theorem run_readFile {i : Nat} (hi : i < maxFilesNumber) :
    (readFile i).run table = .ok (table.debuggedFiles i, table) := by
  have hin : 0 ≤ (i : Int) ∧ (i : Int) < maxFilesNumber := by omega
  exact run_bind_ok (run_check (decide_eq_true hin))

/-- An entry within the array is written. -/
theorem run_writeFile {i : Nat} (hi : i < maxFilesNumber) (file : Option CString) :
    (writeFile i file).run table =
      .ok ((), { table with debuggedFiles := Function.update table.debuggedFiles i file }) := by
  have hin : 0 ≤ (i : Int) ∧ (i : Int) < maxFilesNumber := by omega
  exact run_bind_ok (run_check (decide_eq_true hin))

/-- The entry after the last one is outside the array. -/
theorem run_writeFile_error (file : Option CString) :
    (writeFile maxFilesNumber file).run table = .error (.outOfRange maxFilesNumber) :=
  run_bind_error (run_check_error (by decide))

/-- A name is compared with an entry of the table. -/
theorem run_compareFile (h : DebugTableOk table t n) {i : Nat} (hi : i < n) (name : CString) :
    (compareFile i name).run table = .ok (strcmp (t i) name, table) := by
  refine (run_bind_ok (run_readFile (Nat.lt_of_lt_of_le hi h.le))).trans ?_
  rw [h.files i hi]
  rfl

/-- The first loop stops where the name belongs. -/
theorem run_positionLoop (h : DebugTableOk table t n) {i : Nat} (hi : i ≤ n)
    (hbelow : ∀ k < i, t k < name) : ∃ j : Nat, j ≤ n ∧
      (positionLoop name i).run table = .ok ((j : Int), table) ∧ (∀ k < j, t k < name) ∧
        ∀ k, j ≤ k → k < n → name ≤ t k := by
  induction hm : n - i generalizing i with
  | zero =>
    obtain rfl : i = n := by omega
    have hend : ¬ ((i : Int) < i ∧ (i : Int) < maxFilesNumber) := fun hlt => lt_irrefl _ hlt.1
    refine ⟨i, le_refl i, ?_, hbelow, fun k hk hlt => absurd hlt (Nat.not_lt.2 hk)⟩
    rw [positionLoop, run_bind_ok (run_readNbFiles h), if_neg hend]
    rfl
  | succ m ih =>
    have hlt : i < n := by omega
    have hle := h.le
    have hin : (i : Int) < n ∧ (i : Int) < maxFilesNumber := by omega
    have hsucc : (i : Int) + 1 = ((i + 1 : Nat) : Int) := rfl
    rw [positionLoop, run_bind_ok (run_readNbFiles h), if_pos hin,
      run_bind_ok (run_compareFile h hlt name), hsucc]
    split_ifs with hneg
    · have hentry : t i < name := (strcmp_iff _ _).1.1 hneg
      refine ih hlt (fun k hk => ?_) (by omega)
      rcases Nat.lt_succ_iff_lt_or_eq.1 hk with hk | rfl
      · exact hbelow k hk
      · exact hentry
    · have hentry : name ≤ t i := not_lt.1 fun hl => hneg ((strcmp_iff _ _).1.2 hl)
      exact ⟨i, hi, rfl, hbelow, fun k hk hkn => hentry.trans (h.sorted hlt hkn hk)⟩

/-- The search for a position ends behind the names that come before the new one, and before the
others. -/
theorem DebugTableOk.position (h : DebugTableOk table t n) (name : CString) : ∃ j : Nat, j ≤ n ∧
    (positionLoop name 0).run table = .ok ((j : Int), table) ∧ (∀ k < j, t k < name) ∧
      ∀ k, j ≤ k → k < n → name ≤ t k :=
  run_positionLoop (i := 0) h (Nat.zero_le n) fun k hk => absurd hk (Nat.not_lt_zero k)

/-- The second loop opens a gap. -/
theorem run_shiftLoop {i k : Nat} (h : i + k < maxFilesNumber) :
    (shiftLoop i ((i + k : Nat) : Int)).run table =
      .ok ((), { table with debuggedFiles := openGap table.debuggedFiles i k }) := by
  induction k generalizing table with
  | zero =>
    rw [shiftLoop, if_neg (by omega), openGap_zero]
    rfl
  | succ k ih =>
    have hpred : ((i + (k + 1) : Nat) : Int) - 1 = ((i + k : Nat) : Int) := by omega
    rw [shiftLoop, if_pos (by omega), hpred, run_bind_ok (run_readFile (by omega)),
      run_bind_ok (run_writeFile h _), ih (by omega)]
    exact congrArg (fun files => Except.ok ((), { table with debuggedFiles := files }))
      (openGap_succ table.debuggedFiles i k)

/-- In a full table it moves the last entry out of the array. -/
theorem run_shiftLoop_error {i : Nat} (hi : i < maxFilesNumber) :
    (shiftLoop i maxFilesNumber).run table = .error (.outOfRange maxFilesNumber) := by
  have hpred : ((maxFilesNumber : Nat) : Int) - 1 = ((maxFilesNumber - 1 : Nat) : Int) := rfl
  rw [shiftLoop, if_pos (Int.ofNat_lt.2 hi), hpred, run_bind_ok (run_readFile (by decide))]
  exact run_bind_error (run_writeFile_error _)

/-! ## The calls -/

/-- A table with room takes the name. -/
theorem DebugTableOk.run_addDebugTo (h : DebugTableOk table t n) (hn : n < maxFilesNumber)
    (name : CString) : ∃ table' t', (addDebugTo name).run table = .ok ((), table') ∧
      DebugTableOk table' t' (n + 1) ∧
      t' '' Set.Iio (n + 1) = insert name (t '' Set.Iio n) := by
  obtain ⟨j, hj, hposition, hbelow, habove⟩ := h.position name
  have hroom : ¬ (j : Int) ≥ maxFilesNumber := by omega
  have hlast : j + (n - j) = n := by omega
  have hshift : (shiftLoop j ((j + (n - j) : Nat) : Int)).run table =
      .ok ((), { table with debuggedFiles := openGap table.debuggedFiles j (n - j) }) :=
    run_shiftLoop (by omega)
  rw [hlast] at hshift
  let files := inserted table.debuggedFiles n (some name) j
  refine ⟨⟨files, table.nbDebuggedFiles + 1⟩, inserted t n name j, ?_, ?_, image_inserted hj⟩
  · unfold addDebugTo
    rw [run_bind_ok hposition, if_neg hroom, run_bind_ok (run_readNbFiles h), run_bind_ok hshift,
      run_bind_ok (run_writeFile (by omega) _)]
    rfl
  · refine ⟨?_, hn, fun i hi => ?_, monotoneOn_inserted h.sorted hj
      (fun i hi => le_of_lt (hbelow i hi)) habove⟩
    · show table.nbDebuggedFiles + 1 = _
      rw [h.number]
      rfl
    · show inserted table.debuggedFiles n (some name) j i = _
      rw [inserted_apply, inserted_apply]
      split_ifs
      · exact h.files i (by omega)
      · rfl
      · exact h.files (i - 1) (by omega)
      · omega

/-- A full table refuses a name that is above its entries. -/
theorem DebugTableOk.run_addDebugTo_above (h : DebugTableOk table t maxFilesNumber)
    (habove : ∀ i < maxFilesNumber, t i < name) :
    (addDebugTo name).run table = .ok ((), table) := by
  obtain ⟨j, hj, hposition, -, hentry⟩ := h.position name
  have hend : (j : Int) ≥ maxFilesNumber := by
    refine Int.ofNat_le.2 (Nat.not_lt.1 fun hlt => ?_)
    exact not_lt_of_ge (hentry j (le_refl j) hlt) (habove j hlt)
  unfold addDebugTo
  rw [run_bind_ok hposition, if_pos hend]
  rfl

/-- A full table has its last entry moved out of the array by any other name. -/
theorem DebugTableOk.run_addDebugTo_error (h : DebugTableOk table t maxFilesNumber) {i : Nat}
    (hi : i < maxFilesNumber) (hname : name ≤ t i) :
    (addDebugTo name).run table = .error (.outOfRange maxFilesNumber) := by
  obtain ⟨j, hj, hposition, hbelow, -⟩ := h.position name
  have hlt : j < maxFilesNumber :=
    Nat.lt_of_le_of_lt (Nat.not_lt.1 fun hij => not_lt_of_ge hname (hbelow i hij)) hi
  unfold addDebugTo
  rw [run_bind_ok hposition, if_neg (by omega), run_bind_ok (run_readNbFiles h)]
  exact run_bind_error (run_shiftLoop_error hlt)

/-- The search of the last entry of a bracket compares it with the name. -/
theorem run_searchLoop_last (h : DebugTableOk table t n) {lo : Nat}
    (hbracket : Bracket t n name lo (lo + 1)) : ∃ r, (searchLoop name lo lo).run table =
      .ok (r, table) ∧ (r = 1 ∨ r = 0) ∧ (r = 1 ↔ name ∈ t '' Set.Iio n) := by
  have hlohi : lo < lo + 1 := Nat.lt_succ_self lo
  have hlon : lo < n := hbracket.le
  obtain ⟨-, hzero, -⟩ := strcmp_iff (t lo) name
  rw [searchLoop, if_neg (lt_irrefl _), if_pos rfl, run_bind_ok (run_compareFile h hlon name)]
  refine ⟨if strcmp (t lo) name = 0 then 1 else 0, rfl, ?_, ?_⟩
  · split_ifs
    · exact .inl rfl
    · exact .inr rfl
  · rcases lt_trichotomy (t lo) name with hl | he | hg
    · have hno := (hbracket.right h.sorted hlohi hl).not_mem (le_refl _)
      rw [if_neg fun he => hl.ne (hzero.1 he)]
      exact iff_of_false Int.zero_ne_one hno
    · rw [if_pos (hzero.2 he)]
      exact iff_of_true rfl ⟨lo, hlon, he⟩
    · have hno := (hbracket.left h.sorted hlohi hg).not_mem (le_refl lo)
      rw [if_neg fun he => hg.ne' (hzero.1 he)]
      exact iff_of_false Int.zero_ne_one hno

/-- The search goes on in a bracket of the name, which gets smaller; `to` is the index before its
end. -/
theorem run_searchLoop (h : DebugTableOk table t n) {lo hi : Nat}
    (hbracket : Bracket t n name lo hi) : ∃ r, (searchLoop name lo ((hi : Int) - 1)).run table =
      .ok (r, table) ∧ (r = 1 ∨ r = 0) ∧ (r = 1 ↔ name ∈ t '' Set.Iio n) := by
  induction hk : hi - lo using Nat.strong_induction_on generalizing lo hi with
  | _ k ih =>
    rcases lt_trichotomy (lo : Int) ((hi : Int) - 1) with hlt | hlast | hgt
    · obtain ⟨m, hm⟩ : ∃ m, m = (lo + (hi - 1)) / 2 := ⟨_, rfl⟩
      have hmiddle : ((lo : Int) + (hi - 1)).tdiv 2 = m := by
        rw [Int.tdiv_eq_ediv_of_nonneg (by omega)]
        omega
      have hmhi : m < hi := by omega
      have hmn : m < n := Nat.lt_of_lt_of_le hmhi hbracket.le
      have hright : (m : Int) + 1 = ((m + 1 : Nat) : Int) := rfl
      obtain ⟨hneg, hzero, hpos⟩ := strcmp_iff (t m) name
      rw [searchLoop, if_pos hlt, hmiddle, run_bind_ok (run_compareFile h hmn name), hright]
      split_ifs with hn hp
      · exact ih _ (by omega) (hbracket.right h.sorted hmhi (hneg.1 hn)) rfl
      · exact ih _ (by omega) (hbracket.left h.sorted hmhi (hpos.1 hp)) rfl
      · have heq : t m = name := hzero.1 (by omega)
        exact ⟨1, rfl, .inl rfl, iff_of_true rfl ⟨m, hmn, heq⟩⟩
    · obtain rfl : hi = lo + 1 := by omega
      rw [← hlast]
      exact run_searchLoop_last h hbracket
    · rw [searchLoop, if_neg hgt.not_gt, if_neg hgt.ne']
      exact ⟨0, rfl, .inr rfl, iff_of_false Int.zero_ne_one (hbracket.not_mem (by omega))⟩

/-- `__is_debugged` finds the entries. -/
theorem DebugTableOk.run_isDebugged (h : DebugTableOk table t n) (name : CString) :
    ∃ r, (isDebugged name).run table = .ok (r, table) ∧ (r = 1 ∨ r = 0) ∧
      (r = 1 ↔ name ∈ t '' Set.Iio n) := by
  obtain ⟨r, hrun, hr⟩ := run_searchLoop h (Bracket.whole t n name)
  exact ⟨r, (run_bind_ok (run_readNbFiles h)).trans hrun, hr⟩

end

/-! ## Sequences of calls -/

/-- The entries are increasing in the order of `strcmp`. -/
def DebugTable.Sorted (table : DebugTable) : Prop :=
  ∀ i j : Nat, i ≤ j → (j : Int) < table.nbDebuggedFiles → ∃ file file' : CString,
    table.debuggedFiles i = some file ∧ table.debuggedFiles j = some file' ∧
      strcmp file file' ≤ 0

/-- A table that is in order is sorted by `strcmp`. -/
theorem DebugTableOk.sorted_strcmp {table : DebugTable} {t : Nat → CString} {n : Nat}
    (h : DebugTableOk table t n) : table.Sorted := by
  intro i j hij hj
  rw [h.number] at hj
  have hjn : j < n := Int.ofNat_lt.1 hj
  have hin : i < n := Nat.lt_of_le_of_lt hij hjn
  have hle : ¬ t j < t i := not_lt.2 (h.sorted hin hjn hij)
  refine ⟨t i, t j, h.files i hin, h.files j hjn, not_lt.1 fun hpos => hle ?_⟩
  exact (strcmp_iff _ _).2.2.1 hpos

/-- Every name after the first `maxFilesNumber` ones is above all of these. -/
def AboveFirst (names : List CString) : Prop :=
  ∀ name ∈ names.drop maxFilesNumber, ∀ file ∈ names.take maxFilesNumber, strcmp file name < 0

/-- The last call comes after the others. -/
theorem addDebugTos_concat (names : List CString) (name : CString) :
    addDebugTos (names ++ [name]) = addDebugTos names >>= fun _ => addDebugTo name := by
  rw [addDebugTos, List.forM_append, List.forM_cons, List.forM_nil, bind_pure_unit]
  rfl

section
variable {names : List CString} {name : CString}

/-- A further name meets the condition if it comes after the first ones, once they fill the table.
-/
theorem aboveFirst_concat : AboveFirst (names ++ [name]) ↔ AboveFirst names ∧
    (maxFilesNumber ≤ names.length →
      ∀ file ∈ names.take maxFilesNumber, strcmp file name < 0) := by
  unfold AboveFirst
  rcases Nat.lt_or_ge names.length maxFilesNumber with hlt | hge
  · have hdrop : (names ++ [name]).drop maxFilesNumber = [] := by
      rw [List.drop_eq_nil_iff, List.length_append, List.length_singleton]
      exact hlt
    have hdrop' : names.drop maxFilesNumber = [] := List.drop_eq_nil_iff.2 (Nat.le_of_lt hlt)
    rw [hdrop, hdrop']
    simp [Nat.not_le.2 hlt]
  · rw [List.drop_append_of_le_length hge, List.take_append_of_le_length hge,
      List.forall_mem_append, List.forall_mem_singleton, imp_iff_right hge]

/-- The table holds these names. -/
structure HoldsNames (table : DebugTable) (t : Nat → CString) (names : List CString) : Prop where
  ok : DebugTableOk table t names.length
  mem : ∀ name, name ∈ t '' Set.Iio names.length ↔ name ∈ names

/-- The calls that the table has room for, and any others that it refuses, leave the first names in
it. -/
theorem run_addDebugTos (h : AboveFirst names) : ∃ table t,
    (addDebugTos names).run .initial = .ok ((), table) ∧
      HoldsNames table t (names.take maxFilesNumber) := by
  induction names using List.reverseRecOn with
  | nil =>
    refine ⟨.initial, fun _ => ⟨[], List.not_mem_nil⟩, rfl, ⟨rfl, Nat.zero_le _, ?_, ?_⟩, ?_⟩
    · exact fun i hi => absurd hi (Nat.not_lt_zero i)
    · exact fun i hi => absurd hi (Nat.not_lt_zero i)
    · simp
  | append_singleton names name ih =>
    obtain ⟨hnames, hlast⟩ := aboveFirst_concat.1 h
    obtain ⟨table, t, hrun, hok, hmem⟩ := ih hnames
    rw [addDebugTos_concat, run_bind_ok hrun]
    rcases Nat.lt_or_ge names.length maxFilesNumber with hlt | hge
    · have hlen : (names ++ [name]).length = names.length + 1 := List.length_append
      rw [List.take_of_length_le (Nat.le_of_lt hlt)] at hok hmem
      rw [List.take_of_length_le (hlen ▸ hlt)]
      obtain ⟨table', t', hadd, hok', himage⟩ := hok.run_addDebugTo hlt name
      refine ⟨table', t', hadd, hlen ▸ hok', fun name' => ?_⟩
      rw [hlen, himage, Set.mem_insert_iff, hmem, List.mem_append, List.mem_singleton, or_comm]
    · have hlen : (names.take maxFilesNumber).length = maxFilesNumber := List.length_take_of_le hge
      have habove : ∀ i < maxFilesNumber, t i < name := fun i hi =>
        (strcmp_iff _ _).1.1 (hlast hge _ ((hmem (t i)).1 ⟨i, by rwa [hlen], rfl⟩))
      rw [List.take_append_of_le_length hge]
      exact ⟨table, t, (hlen ▸ hok).run_addDebugTo_above habove, hok, hmem⟩

/-- The first call that the full table does not refuse writes outside the array. -/
theorem exists_outOfRange (h : ¬ AboveFirst names) : ∃ calls, calls <+: names ∧
    (addDebugTos calls).run .initial = .error (.outOfRange maxFilesNumber) := by
  induction names using List.reverseRecOn with
  | nil => exact absurd (fun _ hmem => absurd hmem List.not_mem_nil) h
  | append_singleton names name ih =>
    by_cases hnames : AboveFirst names
    · obtain ⟨table, t, hrun, hok, hmem⟩ := run_addDebugTos hnames
      rw [aboveFirst_concat, and_iff_right hnames] at h
      simp only [not_forall] at h
      obtain ⟨hge, file, hfile, hle⟩ := h
      have hlen : (names.take maxFilesNumber).length = maxFilesNumber := List.length_take_of_le hge
      obtain ⟨i, hi, rfl⟩ := (hmem file).2 hfile
      rw [hlen] at hi hok
      have hname : name ≤ t i := not_lt.1 fun hl => hle ((strcmp_iff _ _).1.2 hl)
      refine ⟨names ++ [name], List.prefix_refl _, ?_⟩
      rw [addDebugTos_concat, run_bind_ok hrun]
      exact hok.run_addDebugTo_error hi hname
    · obtain ⟨calls, hpre, hrun⟩ := ih hnames
      exact ⟨calls, hpre.trans (List.prefix_append _ _), hrun⟩

/-- Names that the table has room for meet the condition. -/
theorem aboveFirst_of_le (h : names.length ≤ maxFilesNumber) : AboveFirst names := by
  intro name hname
  rw [List.drop_eq_nil_iff.2 h] at hname
  cases hname

/-- **The debug table finds what was added.** After at most `maxFilesNumber` calls of `add_debug_to`
the table is sorted, and `__is_debugged` returns 1 for the names that were added, and for no other
string. -/
theorem isDebugged_iff (h : names.length ≤ maxFilesNumber) :
    ∃ table, (addDebugTos names).run .initial = .ok ((), table) ∧ table.Sorted ∧
      ∀ name, (isDebugged name).run table = .ok (if name ∈ names then 1 else 0, table) := by
  obtain ⟨table, t, hrun, hok, hmem⟩ := run_addDebugTos (aboveFirst_of_le h)
  rw [List.take_of_length_le h] at hok hmem
  refine ⟨table, hrun, hok.sorted_strcmp, fun name => ?_⟩
  obtain ⟨r, hsearch, hr, hiff⟩ := hok.run_isDebugged name
  rw [hmem] at hiff
  rw [hsearch]
  split_ifs with hname
  · rw [hiff.2 hname]
  · rw [hr.resolve_left fun h1 => hname (hiff.1 h1)]

/-- The name `a`. -/
def nameA : CString := ⟨ascii "a", by decide⟩

/-- A name is found after it was added twice. -/
theorem isDebugged_iff_twice :
    ∃ table, (addDebugTos [nameA, nameA]).run .initial = .ok ((), table) ∧ table.Sorted ∧
      (isDebugged nameA).run table = .ok (1, table) := by
  have hlen : [nameA, nameA].length ≤ maxFilesNumber := by decide
  obtain ⟨table, hrun, hsorted, hfound⟩ := isDebugged_iff hlen
  exact ⟨table, hrun, hsorted, hfound nameA⟩

/-- During the calls there are never more than `maxFilesNumber` entries, and no access to the array
is outside it. -/
def CapacityKept (names : List CString) : Prop :=
  ∀ calls, calls <+: names →
    (∀ i, (addDebugTos calls).run .initial ≠ .error (.outOfRange i)) ∧
    ∀ table, (addDebugTos calls).run .initial = .ok ((), table) →
      table.nbDebuggedFiles ≤ maxFilesNumber

/-- The condition holds of the names before each name. -/
theorem AboveFirst.of_prefix {calls : List CString} (h : AboveFirst names)
    (hpre : calls <+: names) : AboveFirst calls := by
  obtain ⟨later, rfl⟩ := hpre
  induction later using List.reverseRecOn with
  | nil => rwa [List.append_nil] at h
  | append_singleton later name ih =>
    rw [← List.append_assoc] at h
    exact ih (aboveFirst_concat.1 h).1

/-- **The capacity of the debug table.** It is kept if and only if every name after the first
`maxFilesNumber` ones is above all of these. -/
theorem capacityKept_iff (names : List CString) : CapacityKept names ↔ AboveFirst names := by
  constructor
  · intro h
    by_contra habove
    obtain ⟨calls, hpre, hrun⟩ := exists_outOfRange habove
    exact (h calls hpre).1 _ hrun
  · intro h calls hpre
    obtain ⟨table, t, hrun, hok, -⟩ := run_addDebugTos (h.of_prefix hpre)
    refine ⟨fun i he => ?_, fun table' he => ?_⟩
    · rw [hrun] at he
      cases he
    · rw [hrun] at he
      cases he
      rw [hok.number]
      exact Int.ofNat_le.2 hok.le

end

/-- The capacity is not kept by the same name, added once more than the table has entries. -/
theorem capacityKept_fails : ¬ CapacityKept (List.replicate (maxFilesNumber + 1) nameA) := by
  intro h
  have hnot : ¬ AboveFirst (List.replicate (maxFilesNumber + 1) nameA) := by
    intro habove
    exact absurd (habove nameA (by decide) nameA (by decide)) (by decide)
  obtain ⟨calls, hpre, hrun⟩ := exists_outOfRange hnot
  exact (h calls hpre).1 _ hrun

end ArmSimulator
