import Mathlib.Data.List.Induction
import Mathlib.Tactic.Common

/-!
# Runs of a labelled transition system

`Run step s ls s'` is a finite run of the transition system `step` from `s` to `s'`, with the label
of each step. An invariant of the steps is an invariant of the runs (`Run.invariant`), and a
property that some steps end is one of the runs without them (`Run.invariant_iff`).

A loop that makes steps until a condition holds ends in the first state, after at least one step,
in which it does. `FirstStop` says so of a system whose labels number the steps; what the loop does
round by round is `firstStop_iff_of_stop` and `firstStop_succ_iff`.
-/

/-- A run from `s` to `s'`, whose steps are labelled by the list. -/
inductive Run {σ ℓ : Type} (step : σ → ℓ → σ → Prop) (s : σ) : List ℓ → σ → Prop
  | nil : Run step s [] s
  | snoc {s' s'' : σ} {l : ℓ} {ls : List ℓ} :
      Run step s ls s' → step s' l s'' → Run step s (ls ++ [l]) s''

namespace Run

variable {σ ℓ : Type} {step : σ → ℓ → σ → Prop} {s s' : σ} {ls : List ℓ}

/-- A single step is a run. -/
theorem single {l : ℓ} (h : step s l s') : Run step s [l] s' := .snoc .nil h

/-- A run of no labels stays where it is. -/
theorem nil_iff : Run step s [] s' ↔ s' = s := by
  constructor
  · intro h
    generalize hls : ([] : List ℓ) = ls at h
    cases h with
    | nil => rfl
    | snoc => simp at hls
  · rintro rfl
    exact .nil

/-- A run ends with the step of its last label. -/
theorem concat_iff {l : ℓ} :
    Run step s (ls ++ [l]) s' ↔ ∃ s₁, Run step s ls s₁ ∧ step s₁ l s' := by
  constructor
  · intro h
    generalize hls : ls ++ [l] = ls' at h
    cases h with
    | nil => simp at hls
    | snoc hrun hl =>
      obtain ⟨rfl, rfl⟩ := List.append_singleton_inj.1 hls
      exact ⟨_, hrun, hl⟩
  · rintro ⟨s₁, hrun, hl⟩
    exact .snoc hrun hl

/-- The first step of a run, and the others. -/
theorem cons_iff {l : ℓ} : Run step s (l :: ls) s' ↔ ∃ s₁, step s l s₁ ∧ Run step s₁ ls s' := by
  induction ls using List.reverseRecOn generalizing s' with
  | nil =>
    rw [← List.nil_append [l], concat_iff]
    simp only [nil_iff, exists_eq_left, exists_eq_right']
  | append_singleton ls l' ih =>
    rw [← List.cons_append, concat_iff]
    simp only [ih, concat_iff]
    exact ⟨fun ⟨s₂, ⟨s₁, hl, hrun⟩, hl'⟩ => ⟨s₁, hl, s₂, hrun, hl'⟩,
      fun ⟨s₁, hl, s₂, hrun, hl'⟩ => ⟨s₂, ⟨s₁, hl, hrun⟩, hl'⟩⟩

/-- A run of one system is a run of another that allows its steps. -/
theorem mono {step' : σ → ℓ → σ → Prop} (hstep : ∀ {s l s'}, step s l s' → step' s l s')
    (h : Run step s ls s') : Run step' s ls s' := by
  induction h with
  | nil => exact .nil
  | snoc _ hl ih => exact .snoc ih (hstep hl)

/-- What every step preserves, a run preserves. -/
theorem invariant {I : σ → Prop} (hstep : ∀ {s l s'}, step s l s' → I s → I s')
    (h : Run step s ls s') (hs : I s) : I s' := by
  induction h with
  | nil => exact hs
  | snoc _ hl ih => exact hstep hl ih

/-- What exactly the steps that meet a condition preserve, a run of such steps preserves, and the
next step does if and only if it meets the condition too. -/
theorem invariant_iff {I : σ → Prop} {ok : σ → ℓ → Prop}
    (hstep : ∀ {s l s'}, step s l s' → I s → (I s' ↔ ok s l))
    (h : Run (fun s l s' => step s l s' ∧ ok s l) s ls s') (hs : I s) :
    I s' ∧ ∀ l s'', step s' l s'' → (I s'' ↔ ok s' l) := by
  have hI : I s' := h.invariant (fun hl hi => (hstep hl.1 hi).2 hl.2) hs
  exact ⟨hI, fun _ _ hl => hstep hl hI⟩

end Run

/-! ## Loops -/

/-- From the `i`-th step on, `stop` holds for the first time after `n` steps, and at least one. -/
structure FirstStop {σ : Type} (step : σ → Nat → σ → Prop) (stop : σ → Prop) (i : Nat) (s : σ)
    (n : Nat) (s' : σ) : Prop where
  pos : 1 ≤ n
  run : Run step s (List.range' i n) s'
  stops : stop s'
  before : ∀ m s₁, 1 ≤ m → m < n → Run step s (List.range' i m) s₁ → ¬ stop s₁

section
variable {σ : Type} {step : σ → Nat → σ → Prop} {stop stop' : σ → Prop} {i n : Nat} {s s₁ s' : σ}

/-- There is one number of steps. -/
theorem FirstStop.le {n' : Nat} (h : FirstStop step stop i s n s')
    (h' : FirstStop step stop i s n' s₁) : n ≤ n' :=
  Nat.not_lt.1 fun hlt => h.before n' s₁ h'.pos hlt h'.run h'.stops

/-- Two conditions that agree in the states reached stop at the same one. -/
theorem FirstStop.congr (h : FirstStop step stop i s n s')
    (hstop : ∀ {ls s'}, Run step s ls s' → (stop s' ↔ stop' s')) :
    FirstStop step stop' i s n s' where
  pos := h.pos
  run := h.run
  stops := (hstop h.run).1 h.stops
  before m s₁ hm hlt hrun hs := h.before m s₁ hm hlt hrun ((hstop hrun).2 hs)

/-- A loop seen through a function that every step of the one system respects and every step of the
other one lifts along. -/
theorem FirstStop.map {τ : Type} {step' : τ → Nat → τ → Prop} {stop' : τ → Prop} {f : σ → τ}
    (h : FirstStop step stop i s n s') (hstep : ∀ {s i s'}, step s i s' → step' (f s) i (f s'))
    (hlift : ∀ {s i t'}, step' (f s) i t' → ∃ s', step s i s' ∧ f s' = t')
    (hstop : ∀ {s}, stop s ↔ stop' (f s)) : FirstStop step' stop' i (f s) n (f s') := by
  have hrun : ∀ {is s'}, Run step s is s' → Run step' (f s) is (f s') := by
    intro is s' hr
    induction hr with
    | nil => exact .nil
    | snoc _ hl ih => exact .snoc ih (hstep hl)
  have hback : ∀ {is t'}, Run step' (f s) is t' → ∃ s', Run step s is s' ∧ f s' = t' := by
    intro is t' hr
    induction hr with
    | nil => exact ⟨s, .nil, rfl⟩
    | snoc _ hl ih =>
      obtain ⟨s₁, hs₁, rfl⟩ := ih
      obtain ⟨s₂, hs₂, ht⟩ := hlift hl
      exact ⟨s₂, .snoc hs₁ hs₂, ht⟩
  refine ⟨h.pos, hrun h.run, hstop.1 h.stops, fun m t hm hlt hr hs => ?_⟩
  obtain ⟨s₁, hs₁, rfl⟩ := hback hr
  exact h.before m s₁ hm hlt hs₁ (hstop.2 hs)

variable (hstep : ∀ s', step s i s' ↔ s' = s₁)
include hstep

/-- A run whose first step is known. -/
theorem run_range'_succ_iff :
    Run step s (List.range' i (n + 1)) s' ↔ Run step s₁ (List.range' (i + 1) n) s' := by
  rw [List.range'_succ, Run.cons_iff]
  simp only [hstep, exists_eq_left]

/-- The loop ends after the first step. -/
theorem firstStop_iff_of_stop (hs : stop s₁) : FirstStop step stop i s n s' ↔ n = 1 ∧ s' = s₁ := by
  have hone : ∀ s', Run step s (List.range' i 1) s' ↔ s' = s₁ := fun s' =>
    (run_range'_succ_iff hstep).trans Run.nil_iff
  constructor
  · intro h
    have hn : n = 1 := Nat.le_antisymm
      (Nat.not_lt.1 fun hlt => h.before 1 s₁ (Nat.le_refl 1) hlt ((hone s₁).2 rfl) hs) h.pos
    exact ⟨hn, (hone s').1 (hn ▸ h.run)⟩
  · rintro ⟨rfl, rfl⟩
    exact ⟨Nat.le_refl 1, (hone s').2 rfl, hs, fun m _ hm hlt => absurd hm (Nat.not_le.2 hlt)⟩

/-- The loop goes on after the first step. -/
theorem firstStop_succ_iff (hs : ¬ stop s₁) :
    FirstStop step stop i s (n + 1) s' ↔ FirstStop step stop (i + 1) s₁ n s' := by
  have hrun : ∀ {m s'}, Run step s (List.range' i (m + 1)) s' ↔
      Run step s₁ (List.range' (i + 1) m) s' := run_range'_succ_iff hstep
  constructor
  · intro h
    have hn : 1 ≤ n := by
      refine Nat.one_le_iff_ne_zero.2 ?_
      rintro rfl
      exact hs (Run.nil_iff.1 (hrun.1 h.run) ▸ h.stops)
    refine ⟨hn, hrun.1 h.run, h.stops, fun m s₂ _ hlt hm => ?_⟩
    exact h.before (m + 1) s₂ (Nat.le_add_left 1 m) (Nat.succ_lt_succ hlt) (hrun.2 hm)
  · intro h
    refine ⟨Nat.le_add_left 1 n, hrun.2 h.run, h.stops, fun m s₂ hm hlt hm' => ?_⟩
    cases m with
    | zero => exact absurd hm (Nat.not_succ_le_zero 0)
    | succ m =>
      rcases Nat.eq_zero_or_pos m with rfl | hpos
      · exact Run.nil_iff.1 (hrun.1 hm') ▸ hs
      · exact h.before m s₂ hpos (Nat.lt_of_succ_lt_succ hlt) (hrun.1 hm')

end
