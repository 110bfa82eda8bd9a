import ArmSimulator.GdbProtocol
import ArmSimulator.Lib.History
import ArmSimulator.Lib.Run
import ArmSimulator.Lib.SortedTable

/-!
# The table of breakpoints

The table is kept sorted, so that `gdb_find_breakpoint` can search it by bisection. `TableOk` is its
invariant and `GdbData.addresses` the set that it stands for: `gdb_add_breakpoint` inserts an
address, `gdb_remove_breakpoint` takes it out, and what is found after a sequence of calls is what
the calls that succeeded say (`breakpoint_table`).
-/

namespace ArmSimulator

open Prog SortedTable

/-- The table is within its bounds and strictly increasing. -/
structure TableOk (g : GdbData) : Prop where
  nonneg : 0 ≤ g.breakpointsNumber
  le : g.breakpointsNumber ≤ maxBreakpointsNumber
  sorted : StrictMonoOn g.breakpoints (Set.Iio g.breakpointsNumber.toNat)

/-- The addresses in the table. -/
def GdbData.addresses (g : GdbData) : Set Word :=
  g.breakpoints '' Set.Iio g.breakpointsNumber.toNat

section
variable {g : GdbData} {n : Nat}

/-- A table with `n` entries in order satisfies the invariant. -/
theorem TableOk.of_number (hg : g.breakpointsNumber = n) (hn : n ≤ maxBreakpointsNumber)
    (hs : StrictMonoOn g.breakpoints (Set.Iio n)) : TableOk g where
  nonneg := by omega
  le := by omega
  sorted := by
    rw [hg, Int.toNat_natCast]
    exact hs

/-- The breakpoints are the entries below their number. -/
theorem addresses_of_number (hg : g.breakpointsNumber = n) :
    g.addresses = g.breakpoints '' Set.Iio n := by
  rw [GdbData.addresses, hg, Int.toNat_natCast]

end

/-! ## The accesses and the loops -/

section
variable {g : GdbData} {address : Word}

/-- An entry within the array is read. -/
theorem run_readBreakpoint {i : Nat} (hi : i < maxBreakpointsNumber) :
    (readBreakpoint i).run g = some (g.breakpoints i, g) := by
  have hin : (0 ≤ (i : Int) ∧ (i : Int) < maxBreakpointsNumber) := by omega
  unfold readBreakpoint
  rw [decide_eq_true hin]
  rfl

/-- An entry within the array is written. -/
theorem run_writeBreakpoint {i : Nat} (hi : i < maxBreakpointsNumber) (value : Word) :
    (writeBreakpoint i value).run g =
      some ((), { g with breakpoints := Function.update g.breakpoints i value }) := by
  have hin : (0 ≤ (i : Int) ∧ (i : Int) < maxBreakpointsNumber) := by omega
  unfold writeBreakpoint
  rw [decide_eq_true hin]
  rfl

/-- The number of breakpoints is read. -/
theorem run_readBreakpointsNumber (g : GdbData) :
    readBreakpointsNumber.run g = some (g.breakpointsNumber, g) := rfl

/-- The number of breakpoints is written. -/
theorem run_writeBreakpointsNumber (g : GdbData) (value : Int) :
    (writeBreakpointsNumber value).run g = some ((), { g with breakpointsNumber := value }) := rfl

/-- What a search returns: -1, or an index of the key. -/
def FindResult (t : Nat → Word) (n : Nat) (address : Word) (r : Int) : Prop :=
  (r = -1 ∧ address ∉ t '' Set.Iio n) ∨ ∃ i : Nat, i < n ∧ r = i ∧ t i = address

/-- The search answers -1 exactly when the address is not in the table. -/
theorem FindResult.iff {t : Nat → Word} {n : Nat} {r : Int} (hr : FindResult t n address r) :
    r = -1 ↔ address ∉ t '' Set.Iio n := by
  rcases hr with ⟨hr, hno⟩ | ⟨i, hi, hr, ha⟩
  · exact iff_of_true hr hno
  · exact iff_of_false (by omega) (not_not.2 ⟨i, hi, ha⟩)

/-- The search goes on in a bracket of the address, which gets smaller. -/
theorem run_findLoop {n lo hi : Nat} (hn : n ≤ maxBreakpointsNumber)
    (ht : StrictMonoOn g.breakpoints (Set.Iio n)) (h : Bracket g.breakpoints n address lo hi) :
    ∃ r, (findLoop address lo hi).run g = some (r, g) ∧ FindResult g.breakpoints n address r := by
  induction hk : hi - lo using Nat.strong_induction_on generalizing lo hi with
  | _ k ih =>
    rw [findLoop]
    by_cases hlt : lo < hi
    · obtain ⟨m, hm⟩ : ∃ m, m = (lo + hi) / 2 := ⟨_, rfl⟩
      have hmid : ((lo : Int) + hi) >>> (1 : Nat) = m := by
        rw [Int.shiftRight_eq_div_pow]
        omega
      have hmhi : m < hi := by omega
      have hmn : m < n := Nat.lt_of_lt_of_le hmhi h.le
      have hsucc : (m : Int) + 1 = ((m + 1 : Nat) : Int) := rfl
      rw [dif_pos (Int.ofNat_lt.2 hlt), hmid]
      dsimp only
      rw [hsucc, run_bind_of (run_readBreakpoint (Nat.lt_of_lt_of_le hmn hn))]
      split_ifs with hgt hlt'
      · exact ih _ (by omega) (h.left ht.monotoneOn hmhi hgt) rfl
      · exact ih _ (by omega) (h.right ht.monotoneOn hmhi hlt') rfl
      · have heq : g.breakpoints m = address := le_antisymm (not_lt.1 hgt) (not_lt.1 hlt')
        exact ⟨_, rfl, .inr ⟨m, hmn, rfl, heq⟩⟩
    · rw [dif_neg fun hlt' => hlt (Int.ofNat_lt.1 hlt')]
      exact ⟨_, rfl, .inl ⟨rfl, h.not_mem (Nat.not_lt.1 hlt)⟩⟩

/-- The loop of an insertion opens a gap below the entries that are above the address. -/
theorem run_addLoop (g : GdbData) (address : Word) {n : Nat} (hn : n < maxBreakpointsNumber) :
    ∃ j k : Nat, j + k = n ∧ (addLoop address n).run g =
        some ((j : Int), { g with breakpoints := openGap g.breakpoints j k }) ∧
      (∀ i, j ≤ i → i < n → address < g.breakpoints i) ∧
      (0 < j → g.breakpoints (j - 1) ≤ address) := by
  induction n generalizing g with
  | zero =>
    refine ⟨0, 0, rfl, ?_, fun _ _ hi => absurd hi (Nat.not_lt_zero _), fun h => ?_⟩
    · rw [addLoop, if_neg (by omega), openGap_zero]
      rfl
    · exact absurd h (Nat.lt_irrefl 0)
  | succ n ih =>
    have hpred : ((n + 1 : Nat) : Int) - 1 = n := by omega
    rw [addLoop, if_pos (by omega), hpred, run_bind_of (run_readBreakpoint (by omega))]
    split_ifs with hgt
    · obtain ⟨j, k, rfl, hrun, habove, hbelow⟩ := ih
        { g with breakpoints := Function.update g.breakpoints (n + 1) (g.breakpoints n) } (by omega)
      -- the entry that has been moved is not read again
      have hsame : ∀ i < j + k + 1, Function.update g.breakpoints (j + k + 1)
          (g.breakpoints (j + k)) i = g.breakpoints i :=
        fun i hi => Function.update_of_ne (Nat.ne_of_lt hi) _ _
      refine ⟨j, k + 1, rfl, ?_, fun i hj hi => ?_, fun hj => ?_⟩
      · rw [run_bind_of (run_writeBreakpoint hn _), hrun, openGap_succ]
      · rcases Nat.lt_succ_iff_lt_or_eq.1 hi with hi | rfl
        · rw [← hsame i (by omega)]
          exact habove i hj hi
        · exact hgt
      · rw [← hsame (j - 1) (by omega)]
        exact hbelow hj
    · refine ⟨n + 1, 0, rfl, ?_, fun i hj hi => by omega, fun _ => not_lt.1 hgt⟩
      rw [openGap_zero]
      rfl

/-- The loop of a removal closes the gap. -/
theorem run_removeLoop {j k : Nat} (h : j + k < maxBreakpointsNumber) :
    (removeLoop j ((j + k : Nat) : Int)).run g =
      some ((), { g with breakpoints := closeGap g.breakpoints j k }) := by
  induction k generalizing g j with
  | zero =>
    rw [removeLoop, if_neg (by omega), closeGap_zero]
    rfl
  | succ k ih =>
    have hsucc : (j : Int) + 1 = ((j + 1 : Nat) : Int) := rfl
    have hlast : j + (k + 1) = j + 1 + k := by omega
    rw [removeLoop, if_pos (by omega), hsucc, run_bind_of (run_readBreakpoint (by omega)),
      run_bind_of (run_writeBreakpoint (by omega) _), hlast, ih (by omega), closeGap_succ]

end

/-! ## The calls -/

/-- An addition that is not refused, of an address that is in the table or of another one. -/
structure Added (g : GdbData) (address : Word) (g' : GdbData) : Prop where
  addresses : g'.addresses = insert address g.addresses
  same : address ∈ g.addresses → g' = g
  number : address ∉ g.addresses → g'.breakpointsNumber = g.breakpointsNumber + 1

section
variable {g : GdbData} (h : TableOk g) (address : Word)
include h

/-- The table has a number of entries in the range of the array, and they are sorted. -/
theorem TableOk.number : ∃ n : Nat, g.breakpointsNumber = n ∧ n ≤ maxBreakpointsNumber ∧
    StrictMonoOn g.breakpoints (Set.Iio n) := by
  obtain ⟨n, hn⟩ := Int.eq_ofNat_of_zero_le h.nonneg
  have hs := h.sorted
  rw [hn] at hs
  exact ⟨n, hn, Int.ofNat_le.1 (hn ▸ h.le), hs⟩

/-- The search reads the table and leaves the state. -/
theorem TableOk.run_gdbFindBreakpoint : ∃ r, (gdbFindBreakpoint address).run g = some (r, g) ∧
    FindResult g.breakpoints g.breakpointsNumber.toNat address r := by
  obtain ⟨n, hg, hn, hs⟩ := h.number
  obtain ⟨r, hrun, hr⟩ := run_findLoop hn hs (Bracket.whole g.breakpoints n address)
  rw [gdbFindBreakpoint, run_bind_of (run_readBreakpointsNumber g), hg, Int.toNat_natCast]
  exact ⟨r, hrun, hr⟩

/-- An address that is not found goes where the loop has opened the gap. -/
theorem TableOk.run_gdbAddBreakpoint : ∃ r g', (gdbAddBreakpoint address).run g = some (r, g') ∧
    TableOk g' ∧
    ((g.breakpointsNumber < maxBreakpointsNumber ∧ r = 1 ∧ Added g address g') ∨
      (g.breakpointsNumber = maxBreakpointsNumber ∧ r = 0 ∧ g' = g)) := by
  unfold gdbAddBreakpoint
  rw [run_bind_of (run_readBreakpointsNumber g)]
  by_cases hfull : g.breakpointsNumber < maxBreakpointsNumber
  · obtain ⟨r, hrun, hr⟩ := h.run_gdbFindBreakpoint address
    rw [if_pos hfull, run_bind_of hrun]
    by_cases hfound : r = -1
    · obtain ⟨n, hg, hn, hs⟩ := h.number
      have hno := hr.iff.1 hfound
      rw [hg, Int.toNat_natCast] at hno
      let g₁ : GdbData := { g with breakpointsNumber := g.breakpointsNumber + 1 }
      have hwrite : (writeBreakpointsNumber (g.breakpointsNumber + 1)).run g = some ((), g₁) :=
        run_writeBreakpointsNumber g _
      have hn' : n < maxBreakpointsNumber := by omega
      obtain ⟨j, k, hjk, hloop, habove, hbelow⟩ := run_addLoop g₁ address hn'
      obtain rfl : k = n - j := by omega
      have hbracket : Bracket g.breakpoints n address j j :=
        .of_gap hs hno (by omega) habove hbelow
      let g' : GdbData := { g₁ with breakpoints := inserted g.breakpoints n address j }
      have hg' : g'.breakpointsNumber = ((n + 1 : Nat) : Int) := congrArg (· + 1) hg
      rw [if_neg (not_not.2 hfound), run_bind_of (run_readBreakpointsNumber g),
        run_bind_of hwrite, hg, run_bind_of hloop,
        run_bind_of (run_writeBreakpoint (by omega) address)]
      refine ⟨1, g', rfl, .of_number hg' (by omega) (hbracket.strictMonoOn_inserted hs),
        .inl ⟨hg ▸ hfull, rfl, ?_, fun hmem => absurd (addresses_of_number hg ▸ hmem) hno,
          fun _ => rfl⟩⟩
      rw [addresses_of_number hg', addresses_of_number hg]
      exact image_inserted hbracket.le
    · have hmem : address ∈ g.addresses := not_not.1 fun hno => hfound (hr.iff.2 hno)
      rw [if_pos hfound]
      exact ⟨1, g, rfl, h, .inl ⟨hfull, rfl, (Set.insert_eq_of_mem hmem).symm, fun _ => rfl,
        fun hno => absurd hmem hno⟩⟩
  · rw [if_neg hfull]
    exact ⟨0, g, rfl, h, .inr ⟨le_antisymm h.le (not_lt.1 hfull), rfl, rfl⟩⟩

/-- An address that is found is taken out. -/
theorem TableOk.run_gdbRemoveBreakpoint :
    ∃ r g', (gdbRemoveBreakpoint address).run g = some (r, g') ∧ TableOk g' ∧
      ((address ∈ g.addresses ∧ r = 1 ∧ g'.addresses = g.addresses \ {address}) ∨
        (address ∉ g.addresses ∧ r = 0 ∧ g' = g)) := by
  obtain ⟨r, hrun, hr⟩ := h.run_gdbFindBreakpoint address
  unfold gdbRemoveBreakpoint
  rw [run_bind_of hrun]
  rcases hr with ⟨hr, hno⟩ | ⟨i, hi, hr, ha⟩
  · rw [if_pos hr]
    exact ⟨0, g, rfl, h, .inr ⟨hno, rfl, rfl⟩⟩
  · obtain ⟨n, hg, hn, hs⟩ := h.number
    rw [hg, Int.toNat_natCast] at hi
    have hlast : g.breakpointsNumber - 1 = ((i + (n - 1 - i) : Nat) : Int) := by omega
    have hne : ¬ (i : Int) = -1 := by omega
    let g' : GdbData := { g with
      breakpointsNumber := g.breakpointsNumber - 1
      breakpoints := removed g.breakpoints n i }
    have hg' : g'.breakpointsNumber = ((n - 1 : Nat) : Int) := by
      show g.breakpointsNumber - 1 = _
      omega
    rw [hr, if_neg hne, run_bind_of (run_readBreakpointsNumber g),
      run_bind_of (run_writeBreakpointsNumber g _), hlast,
      run_bind_of (run_removeLoop (by omega)), ← hlast]
    refine ⟨1, g', rfl, .of_number hg' (by omega) (strictMonoOn_removed hs i),
      .inl ⟨⟨i, ?_, ha⟩, rfl, ?_⟩⟩
    · rw [hg]
      exact hi
    · rw [addresses_of_number hg', addresses_of_number hg, ← ha]
      exact image_removed hs hi

end

/-! ## Sequences of calls -/

/-- A call that changes the table. -/
inductive BreakpointCall where
  | add (address : Word)
  | remove (address : Word)

/-- `gdb_add_breakpoint` or `gdb_remove_breakpoint`. -/
def BreakpointCall.run : BreakpointCall → GdbM Int
  | .add address => gdbAddBreakpoint address
  | .remove address => gdbRemoveBreakpoint address

/-- The transition of a call that returns the given code. -/
def BreakpointStep (g : GdbData) (e : BreakpointCall × Int) (g' : GdbData) : Prop :=
  StateT.run e.1.run g = some (e.2, g')

/-- What a call says of its address, if it succeeds: that it is in the table, or that it is not. -/
def BreakpointCall.outcome : BreakpointCall × Int → List (Word × Bool)
  | (.add address, r) => if r = 1 then [(address, true)] else []
  | (.remove address, r) => if r = 1 then [(address, false)] else []

/-- The address was successfully added and not removed since: the last successful call with it is an
addition. -/
def Present (events : List (BreakpointCall × Int)) (address : Word) : Prop :=
  lastWrite (events.flatMap BreakpointCall.outcome) address = some true

/-- A step that writes `w`, for each address whether it is in the table, keeps the invariant and
changes the addresses as it says. -/
def Updates (g : GdbData) (w : List (Word × Bool)) (g' : GdbData) : Prop :=
  TableOk g' ∧ ∀ address, address ∈ g'.addresses ↔
    lastWrite w address = some true ∨ (lastWrite w address = none ∧ address ∈ g.addresses)

/-- What the steps write, a run writes. -/
theorem updates_of_run {ℓ : Type} {step : GdbData → ℓ → GdbData → Prop} {g g' : GdbData}
    {ls : List ℓ} {writes : ℓ → List (Word × Bool)} (hrun : Run step g ls g') (h : TableOk g)
    (hstep : ∀ {g l g'}, step g l g' → TableOk g → Updates g (writes l) g') :
    Updates g (ls.flatMap writes) g' := by
  induction hrun with
  | nil => exact ⟨h, fun address => by simp⟩
  | @snoc g₁ g₂ l ls _ hl ih =>
    obtain ⟨hok, hset⟩ := hstep hl ih.1
    refine ⟨hok, fun address => ?_⟩
    rw [hset, ih.2, List.flatMap_append, lastWrite_append, List.flatMap_singleton]
    cases lastWrite (writes l) address <;> simp

/-- The empty table satisfies the invariant. -/
theorem TableOk.of_empty {g : GdbData} (hempty : g.breakpointsNumber = 0) : TableOk g :=
  .of_number (n := 0) hempty (Nat.zero_le _) fun i hi => absurd hi (Nat.not_lt_zero i)

/-- From the empty table on, what was written last decides. -/
theorem Updates.mem_iff {g g' : GdbData} {w : List (Word × Bool)} (h : Updates g w g')
    (hempty : g.breakpointsNumber = 0) (address : Word) :
    address ∈ g'.addresses ↔ lastWrite w address = some true := by
  rw [h.2, addresses_of_number (n := 0) hempty]
  simp

/-- No call aborts: its accesses are inside the array. -/
theorem TableOk.step {g : GdbData} (h : TableOk g) (call : BreakpointCall) :
    ∃ r g', BreakpointStep g (call, r) g' := by
  cases call with
  | add address =>
    obtain ⟨r, g', hrun, -⟩ := h.run_gdbAddBreakpoint address
    exact ⟨r, g', hrun⟩
  | remove address =>
    obtain ⟨r, g', hrun, -⟩ := h.run_gdbRemoveBreakpoint address
    exact ⟨r, g', hrun⟩

/-- The change of the addresses that a call is for. -/
def BreakpointCall.change : BreakpointCall → Set Word → Set Word
  | .add address, addresses => insert address addresses
  | .remove address, addresses => addresses \ {address}

section
variable {g g' : GdbData} {call : BreakpointCall} {r : Int}

/-- A call succeeds, or leaves the table. -/
theorem BreakpointStep.result (hstep : BreakpointStep g (call, r) g') (h : TableOk g) :
    TableOk g' ∧
      ((r = 1 ∧ g'.addresses = call.change g.addresses) ∨ (r = 0 ∧ g' = g)) := by
  cases call with
  | add address =>
    obtain ⟨r', g₁, hrun, hg₁, hcase⟩ := h.run_gdbAddBreakpoint address
    obtain ⟨rfl, rfl⟩ := Prod.mk.inj (Option.some.inj (hrun.symm.trans hstep))
    exact ⟨hg₁, hcase.imp (fun h => ⟨h.2.1, h.2.2.addresses⟩) And.right⟩
  | remove address =>
    obtain ⟨r', g₁, hrun, hg₁, hcase⟩ := h.run_gdbRemoveBreakpoint address
    obtain ⟨rfl, rfl⟩ := Prod.mk.inj (Option.some.inj (hrun.symm.trans hstep))
    exact ⟨hg₁, hcase.imp And.right And.right⟩

/-- What a call that succeeds says of its address is what the change does. -/
theorem BreakpointCall.mem_change (call : BreakpointCall) (addresses : Set Word) (address : Word) :
    address ∈ call.change addresses ↔
      lastWrite (BreakpointCall.outcome (call, 1)) address = some true ∨
        (lastWrite (BreakpointCall.outcome (call, 1)) address = none ∧ address ∈ addresses) := by
  cases call with
  | add a =>
    by_cases ha : a = address
    · simp [change, outcome, lastWrite_cons, ha]
    · simp [change, outcome, lastWrite_cons, ha, Ne.symm ha]
  | remove a =>
    by_cases ha : a = address
    · simp [change, outcome, lastWrite_cons, ha]
    · simp [change, outcome, lastWrite_cons, ha, Ne.symm ha]

/-- A call that fails writes nothing. -/
theorem BreakpointCall.outcome_zero (call : BreakpointCall) :
    BreakpointCall.outcome (call, 0) = [] := by
  cases call <;> rfl

/-- A call keeps the invariant and changes the addresses as it says. -/
theorem BreakpointStep.table {e : BreakpointCall × Int} (hstep : BreakpointStep g e g')
    (h : TableOk g) : Updates g (BreakpointCall.outcome e) g' := by
  obtain ⟨call, r⟩ := e
  obtain ⟨hok, ⟨rfl, hset⟩ | ⟨rfl, rfl⟩⟩ := hstep.result h
  · refine ⟨hok, fun address => ?_⟩
    rw [hset]
    exact call.mem_change g.addresses address
  · refine ⟨hok, fun address => ?_⟩
    rw [call.outcome_zero]
    simp

end

/-- After a sequence of calls from the empty table, the table holds the addresses present. -/
theorem table_of_run {g g' : GdbData} {events : List (BreakpointCall × Int)}
    (hempty : g.breakpointsNumber = 0) (hrun : Run BreakpointStep g events g') :
    TableOk g' ∧ ∀ address, address ∈ g'.addresses ↔ Present events address := by
  have h := updates_of_run hrun (.of_empty hempty) BreakpointStep.table
  exact ⟨h.1, h.mem_iff hempty⟩

/-- **The table of breakpoints.** After any sequence of calls from the empty table: it is within its
bounds and strictly increasing; a search returns, with an index of the address if it is present, and
-1 if not; no further call aborts, so that all accesses are inside the array; and a removal
returns 1 for the addresses present only. -/
theorem breakpoint_table {g g' : GdbData} {events : List (BreakpointCall × Int)}
    (hempty : g.breakpointsNumber = 0) (hrun : Run BreakpointStep g events g') :
    TableOk g' ∧
    (∀ address, ∃ r, (gdbFindBreakpoint address).run g' = some (r, g') ∧
      (Present events address →
        ∃ i : Nat, (i : Int) < g'.breakpointsNumber ∧ r = i ∧ g'.breakpoints i = address) ∧
      (¬ Present events address → r = -1)) ∧
    (∀ call, ∃ r g'', BreakpointStep g' (call, r) g'') ∧
    ∀ address r g'', BreakpointStep g' (.remove address, r) g'' →
      (r = 1 ↔ Present events address) := by
  obtain ⟨hok, hset⟩ := table_of_run hempty hrun
  refine ⟨hok, fun address => ?_, hok.step, fun address r g'' hstep => ?_⟩
  · obtain ⟨r, hfind, hr⟩ := hok.run_gdbFindBreakpoint address
    refine ⟨r, hfind, fun hp => ?_, fun hp => hr.iff.2 fun hmem => hp ((hset address).1 hmem)⟩
    rcases hr with ⟨-, hno⟩ | ⟨i, hi, hri, ha⟩
    · exact absurd ((hset address).2 hp) hno
    · exact ⟨i, by omega, hri, ha⟩
  · obtain ⟨r', g₁, hremove, -, hcase⟩ := hok.run_gdbRemoveBreakpoint address
    obtain ⟨rfl, rfl⟩ := Prod.mk.inj (Option.some.inj (hremove.symm.trans hstep))
    rw [← hset address]
    rcases hcase with ⟨hmem, hr, -⟩ | ⟨hmem, hr, -⟩
    · exact iff_of_true hr hmem
    · exact iff_of_false (by omega) hmem

/-- The data of a session that was just begun. -/
def gdbCreated : GdbData :=
  gdbInitData (.initial 0x1d3 (.ofWords [])) (fun _ => 0) (fun _ => 0)

/-- A breakpoint that was set is found. -/
theorem breakpoint_table_added :
    ∃ g' r, Run BreakpointStep gdbCreated [(.add 0x8000, 1)] g' ∧
      (gdbFindBreakpoint 0x8000).run g' = some (r, g') ∧
      ∃ i : Nat, (i : Int) < g'.breakpointsNumber ∧ r = i ∧ g'.breakpoints i = 0x8000 := by
  have hok : TableOk gdbCreated := (table_of_run rfl .nil).1
  obtain ⟨r, g', hadd, -, ⟨-, rfl, -⟩ | ⟨hfull, -⟩⟩ := hok.run_gdbAddBreakpoint 0x8000
  · have hrun : Run BreakpointStep gdbCreated [(.add 0x8000, 1)] g' := .single hadd
    obtain ⟨-, hfind, -⟩ := breakpoint_table rfl hrun
    obtain ⟨r, hr, hpresent, -⟩ := hfind 0x8000
    exact ⟨g', r, hrun, hr, hpresent rfl⟩
  · exact absurd hfull (by decide)

/-! ## Additions -/

/-- An addition of the address to `g` that returns `r` and leaves `g'`: the code says whether the
address is in the table, and an address that is there already is accepted as it is. -/
structure AddsBreakpoint (g : GdbData) (address : Word) (r : Int) (g' : GdbData) : Prop where
  truthful : r = 1 ↔ address ∈ g'.addresses
  idempotent : address ∈ g.addresses → r = 1 ∧ g' = g

/-- **Additions.** After any sequence of calls from the empty table, a further addition is right
unless the table is full and the address is in it: the test of the capacity comes first. -/
theorem addsBreakpoint_iff {g g' : GdbData} {events : List (BreakpointCall × Int)}
    (hempty : g.breakpointsNumber = 0) (hrun : Run BreakpointStep g events g') (address : Word) :
    ∃ r g'', (gdbAddBreakpoint address).run g' = some (r, g'') ∧
      (AddsBreakpoint g' address r g'' ↔
        ¬ (g'.breakpointsNumber = maxBreakpointsNumber ∧ address ∈ g'.addresses)) := by
  obtain ⟨hok, -⟩ := table_of_run hempty hrun
  obtain ⟨r, g'', hadd, -, ⟨hlt, rfl, hadded⟩ | ⟨hfull, rfl, rfl⟩⟩ :=
    hok.run_gdbAddBreakpoint address
  · refine ⟨1, g'', hadd, iff_of_true ⟨iff_of_true rfl ?_, fun hmem => ⟨rfl, hadded.same hmem⟩⟩
      fun hc => absurd hc.1 (ne_of_lt hlt)⟩
    rw [hadded.addresses]
    exact Set.mem_insert _ _
  · refine ⟨0, g'', hadd, fun h hc => ?_, fun hc => ⟨iff_of_false (by decide) ?_, ?_⟩⟩
    · exact absurd (h.idempotent hc.2).1 (by decide)
    · exact fun hmem => hc ⟨hfull, hmem⟩
    · exact fun hmem => absurd ⟨hfull, hmem⟩ hc

/-- Adding the addresses 0, 1, and so on. -/
def addFirst (n : Nat) : List (BreakpointCall × Int) :=
  (List.range n).map fun i => (.add (BitVec.ofNat 32 i), 1)

/-- Up to the capacity they all succeed. -/
theorem run_addFirst {n : Nat} (hn : n ≤ maxBreakpointsNumber) :
    ∃ g, Run BreakpointStep gdbCreated (addFirst n) g ∧ TableOk g ∧ g.breakpointsNumber = n ∧
      ∀ address : Word, address ∈ g.addresses ↔ address.toNat < n := by
  induction n with
  | zero =>
    obtain ⟨hok, hset⟩ := table_of_run (g := gdbCreated) rfl .nil
    refine ⟨gdbCreated, .nil, hok, rfl, fun address => ?_⟩
    rw [hset]
    simp [Present]
  | succ n ih =>
    obtain ⟨g, hrun, hok, hnumber, hset⟩ := ih (by omega)
    have hkey : (BitVec.ofNat 32 n).toNat = n := by
      have hmax : maxBreakpointsNumber < 2 ^ 32 := by decide
      rw [BitVec.toNat_ofNat]
      omega
    have hno : BitVec.ofNat 32 n ∉ g.addresses := by
      rw [hset, hkey]
      exact Nat.lt_irrefl n
    obtain ⟨r, g', hadd, hok', ⟨-, rfl, hadded⟩ | ⟨hfull, -⟩⟩ :=
      hok.run_gdbAddBreakpoint (BitVec.ofNat 32 n)
    · have hlist : addFirst (n + 1) = addFirst n ++ [(.add (BitVec.ofNat 32 n), 1)] := by
        rw [addFirst, List.range_succ, List.map_append]
        rfl
      have hnumber' : g'.breakpointsNumber = ((n + 1 : Nat) : Int) := by
        rw [hadded.number hno, hnumber]
        rfl
      refine ⟨g', hlist ▸ .snoc hrun hadd, hok', hnumber', fun address => ?_⟩
      rw [hadded.addresses, Set.mem_insert_iff, hset, BitVec.toNat_eq, hkey]
      omega
    · omega

/-- A breakpoint that is set for the second time. -/
theorem addsBreakpoint_again :
    ∃ g r g', Run BreakpointStep gdbCreated (addFirst 1) g ∧
      (gdbAddBreakpoint 0).run g = some (r, g') ∧ AddsBreakpoint g 0 r g' ∧ r = 1 ∧ g' = g := by
  obtain ⟨g, hrun, -, hnumber, hset⟩ := run_addFirst (n := 1) (by decide)
  obtain ⟨r, g', hadd, hiff⟩ := addsBreakpoint_iff rfl hrun 0
  have hadds := hiff.2 fun hc => absurd (hc.1.symm.trans hnumber) (by decide)
  exact ⟨g, r, g', hrun, hadd, hadds, hadds.idempotent ((hset 0).2 (by decide))⟩

/-- In the table that 1024 additions have filled, a breakpoint that is there is refused. -/
theorem addsBreakpoint_fails :
    ∃ g, Run BreakpointStep gdbCreated (addFirst 1024) g ∧ (0 : Word) ∈ g.addresses ∧
      (gdbAddBreakpoint 0).run g = some (0, g) ∧ ¬ AddsBreakpoint g 0 0 g := by
  obtain ⟨g, hrun, hok, hnumber, hset⟩ := run_addFirst (n := 1024) (by decide)
  have hmem : (0 : Word) ∈ g.addresses := (hset 0).2 (by decide)
  obtain ⟨r, g', hadd, -, ⟨hlt, -⟩ | ⟨-, rfl, rfl⟩⟩ := hok.run_gdbAddBreakpoint 0
  · rw [hnumber] at hlt
    exact absurd hlt (by decide)
  · exact ⟨g', hrun, hmem, hadd, fun h => absurd (h.idempotent hmem).1 (by decide)⟩

end ArmSimulator
