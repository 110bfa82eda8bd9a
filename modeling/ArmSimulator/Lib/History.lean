import Mathlib.Data.List.Induction
import Mathlib.Logic.Function.Basic

/-!
# Stores and their write histories

A store is a state with operations, some of which write values under keys. The law of a store is
that the value found under a key is the one last written there, or the initial one. `Store.law_iff`
reduces the law in every state of a run to what each step does: it is the only induction on runs
that a store needs.
-/

variable {σ ω κ ν : Type}

section
variable [DecidableEq κ]

/-- The value last written under a key, in a history that begins with the oldest write. -/
def lastWrite : List (κ × ν) → κ → Option ν
  | [], _ => none
  | w :: h, k => (lastWrite h k).or (if w.1 = k then some w.2 else none)

/-- Nothing was written in the empty history. -/
@[simp] theorem lastWrite_nil (k : κ) : lastWrite ([] : List (κ × ν)) k = none := rfl

/-- The last write is one of the rest, or else the first. -/
theorem lastWrite_cons (w : κ × ν) (h : List (κ × ν)) (k : κ) :
    lastWrite (w :: h) k = (lastWrite h k).or (if w.1 = k then some w.2 else none) := rfl

/-- The later part of a history decides. -/
theorem lastWrite_append (h h' : List (κ × ν)) (k : κ) :
    lastWrite (h ++ h') k = (lastWrite h' k).or (lastWrite h k) := by
  induction h with
  | nil => simp
  | cons w h ih => rw [List.cons_append, lastWrite_cons, ih, lastWrite_cons, Option.or_assoc]

/-- A key that no write has was not written. -/
theorem lastWrite_eq_none {h : List (κ × ν)} {k : κ} (hk : ∀ w ∈ h, w.1 ≠ k) :
    lastWrite h k = none := by
  induction h with
  | nil => rfl
  | cons w h ih =>
    rw [lastWrite_cons, ih fun w' hw => hk w' (List.mem_cons_of_mem _ hw),
      if_neg (hk w List.mem_cons_self)]
    rfl

/-- In a history of writes under consecutive keys, each key keeps its value. -/
theorem lastWrite_range (k : Nat) (f : Nat → ν) (n : Nat) {i : Nat} (hi : i < n) :
    lastWrite ((List.range n).map fun i => (k + i, f i)) (k + i) = some (f i) := by
  induction n with
  | zero => exact absurd hi (Nat.not_lt_zero i)
  | succ n ih =>
    rw [List.range_succ, List.map_append, lastWrite_append, List.map_singleton, lastWrite_cons]
    by_cases hn : n = i
    · simp [hn]
    · have hlt : i < n := by omega
      simp [hn, ih hlt]

/-- Updating a function at each write of a history leaves the last write to each key, and the
function where there is none. -/
theorem foldl_update (h : List (κ × ν)) (f : κ → ν) (k : κ) :
    h.foldl (fun f w => Function.update f w.1 w.2) f k = (lastWrite h k).getD (f k) := by
  induction h generalizing f with
  | nil => rfl
  | cons w h ih =>
    rw [List.foldl_cons, ih, lastWrite_cons, Function.update_apply]
    cases lastWrite h k with
    | some v => rfl
    | none =>
      by_cases hk : w.1 = k
      · simp [hk]
      · simp [hk, Ne.symm hk]

end

/-- A state with operations, what it holds under a key, and what an operation writes. -/
structure Store (σ ω κ ν : Type) where
  apply : σ → ω → σ
  peek : σ → κ → ν
  writes : σ → ω → List (κ × ν)

namespace Store

variable (S : Store σ ω κ ν)

/-- The state after a sequence of operations. -/
def run (s : σ) (ops : List ω) : σ := ops.foldl S.apply s

/-- The writes of a sequence of operations, the oldest first. -/
def history : σ → List ω → List (κ × ν)
  | _, [] => []
  | s, op :: ops => S.writes s op ++ history (S.apply s op) ops

/-- A run of operations ends with the last of them. -/
theorem run_concat (s : σ) (ops : List ω) (op : ω) :
    S.run s (ops ++ [op]) = S.apply (S.run s ops) op := by
  simp [run]

/-- The history of a run ends with what the last operation writes. -/
theorem history_concat (s : σ) (ops : List ω) (op : ω) :
    S.history s (ops ++ [op]) = S.history s ops ++ S.writes (S.run s ops) op := by
  induction ops generalizing s with
  | nil => simp [history, run]
  | cons o ops ih => simp [history, run, ih, List.append_assoc]

/-- Where what an operation writes does not depend on the state, neither does the history. -/
theorem history_eq_flatMap {f : ω → List (κ × ν)} (hf : ∀ s op, S.writes s op = f op) (s : σ)
    (ops : List ω) : S.history s ops = ops.flatMap f := by
  induction ops generalizing s with
  | nil => rfl
  | cons op ops ih => rw [history, hf, ih, List.flatMap_cons]

/-- Every step of the run satisfies `G`: the state before it and its operation do. -/
def Along (G : σ → ω → Prop) (s : σ) (ops : List ω) : Prop :=
  ∀ pre op, pre ++ [op] <+: ops → G (S.run s pre) op

/-- What every step preserves, a run preserves. -/
theorem run_invariant {I : σ → Prop} (hI : ∀ s op, I s → I (S.apply s op)) {s : σ} (hs : I s)
    (ops : List ω) : I (S.run s ops) := by
  induction ops generalizing s with
  | nil => exact hs
  | cons op ops ih => exact ih (hI s op hs)

variable [DecidableEq κ]

/-- One operation changes the value under `k` to what it last writes there. -/
def StepLaw (k : κ) (s : σ) (op : ω) : Prop :=
  S.peek (S.apply s op) k = (lastWrite (S.writes s op) k).getD (S.peek s k)

/-- After a sequence of operations the value under `k` is the one last written there, or the
initial one. -/
def Law (k : κ) (s : σ) (ops : List ω) : Prop :=
  S.peek (S.run s ops) k = (lastWrite (S.history s ops) k).getD (S.peek s k)

/-- The law holds in every state of a run if and only if every step obeys it. -/
theorem law_iff (k : κ) (s : σ) (ops : List ω) :
    (∀ pre, pre <+: ops → S.Law k s pre) ↔ S.Along (S.StepLaw k) s ops := by
  -- the law after `pre ++ [op]`, in terms of the value that was there before `op`
  have hconcat : ∀ pre op, S.Law k s pre →
      (S.Law k s (pre ++ [op]) ↔ S.StepLaw k (S.run s pre) op) := by
    intro pre op hpre
    rw [Law, run_concat, history_concat, lastWrite_append, Option.getD_or, ← hpre, StepLaw]
  constructor
  · intro h pre op hp
    exact (hconcat pre op (h pre ((List.prefix_append pre [op]).trans hp))).1 (h _ hp)
  · intro h pre hp
    induction pre using List.reverseRecOn with
    | nil => rfl
    | append_singleton pre op ih =>
      exact (hconcat pre op (ih ((List.prefix_append pre [op]).trans hp))).2 (h pre op hp)

/-- A store whose steps obey the law under an invariant obeys it in every run. -/
theorem law_of_invariant {I : σ → Prop} (hI : ∀ s op, I s → I (S.apply s op)) {k : κ}
    (hstep : ∀ s op, I s → S.StepLaw k s op) {s : σ} (hs : I s) (ops : List ω) :
    S.Law k s ops :=
  (S.law_iff k s ops).2 (fun pre op _ => hstep _ op (S.run_invariant hI hs pre)) ops
    (List.prefix_refl ops)

end Store
