import Mathlib.Logic.Relation
import Mathlib.Tactic.Common

/-!
# What a transition system cannot avoid

`Inevitable step Q s` says that every run from `s`, whichever steps it takes, comes to a state in
`Q`: the total correctness of a system that may be nondeterministic. It is composed by `bind`, a
loop is closed by a measure that decreases (`Inevitable.loop`), several steps may be taken at once
(`Inevitable.transGen`), and it is carried along a simulation from a system to one that implements
it (`Inevitable.of_sim`).
-/

/-- Every run from the state comes to one in `Q`: now, or after each of the steps, of which there is
one. -/
inductive Inevitable {σ : Type} (step : σ → σ → Prop) (Q : σ → Prop) : σ → Prop
  | now {s : σ} (h : Q s) : Inevitable step Q s
  | later {s : σ} (hstep : ∃ s', step s s') (h : ∀ s', step s s' → Inevitable step Q s') :
      Inevitable step Q s

namespace Inevitable

variable {σ τ : Type} {step : σ → σ → Prop} {P Q Q' : σ → Prop} {s s' : σ}

/-- What is inevitable after what is inevitable is inevitable. -/
theorem bind (h : Inevitable step Q s) (hQ : ∀ s', Q s' → Inevitable step Q' s') :
    Inevitable step Q' s := by
  induction h with
  | now h => exact hQ _ h
  | later hstep _ ih => exact .later hstep ih

/-- What cannot be avoided can be weakened. -/
theorem mono (h : Inevitable step Q s) (hQ : ∀ s', Q s' → Q' s') : Inevitable step Q' s :=
  h.bind fun s' hs' => .now (hQ s' hs')

/-- The loop rule: from a state that satisfies the invariant, the system comes to one in `Q`, or to
one that satisfies the invariant again, with a smaller measure. -/
theorem loop (μ : σ → Nat)
    (hround : ∀ s, P s → Inevitable step (fun s' => Q s' ∨ (P s' ∧ μ s' < μ s)) s) (hs : P s) :
    Inevitable step Q s := by
  induction hn : μ s using Nat.strongRecOn generalizing s with
  | ind n ih =>
    refine (hround s hs).bind fun s' hs' => ?_
    rcases hs' with hQ | ⟨hP, hlt⟩
    · exact .now hQ
    · exact ih (μ s') (hn ▸ hlt) hP rfl

/-- A run that has not come to such a state is on its way to one. -/
theorem of_reachable (h : Inevitable step Q s) (hQ : ∀ s₁ s₂, Q s₁ → ¬ step s₁ s₂)
    (hrun : Relation.ReflTransGen step s s') : Inevitable step Q s' := by
  induction hrun with
  | refl => exact h
  | tail _ hstep ih =>
    cases ih with
    | now hq => exact absurd hstep (hQ _ _ hq)
    | later _ hall => exact hall _ hstep

/-- Several steps taken at once lead there as well, if the states of `Q` are the last ones. -/
theorem transGen (h : Inevitable step Q s) (hQ : ∀ s₁ s₂, Q s₁ → ¬ step s₁ s₂) :
    Inevitable (Relation.TransGen step) Q s := by
  have hlast : ∀ s₁ s₂, Q s₁ → ¬ Relation.TransGen step s₁ s₂ := by
    intro s₁ s₂ hq hrun
    obtain ⟨s₃, hs₃, -⟩ := Relation.TransGen.head'_iff.1 hrun
    exact hQ s₁ s₃ hq hs₃
  induction h with
  | now h => exact .now h
  | later hstep _ ih =>
    obtain ⟨s₁, hs₁⟩ := hstep
    refine .later ⟨s₁, .single hs₁⟩ fun s' hs' => ?_
    obtain ⟨s₂, hs₂, hrun⟩ := Relation.TransGen.head'_iff.1 hs'
    exact (ih s₂ hs₂).of_reachable hlast (hrun.lift id fun _ _ => .single)

/-- Along a simulation: where the specification has a step, the implementation has one, and its
steps are steps of the specification. -/
theorem of_sim {stepτ : τ → τ → Prop} {R : σ → τ → Prop} {T : τ → Prop} {t : τ}
    (hsim : ∀ s t, R s t → (∃ t', stepτ t t') →
      (∃ s', step s s') ∧ ∀ s', step s s' → ∃ t', stepτ t t' ∧ R s' t')
    (h : Inevitable stepτ T t) (hR : R s t) :
    Inevitable step (fun s' => ∃ t', R s' t' ∧ T t') s := by
  induction h generalizing s with
  | now h => exact .now ⟨_, hR, h⟩
  | later hstep _ ih =>
    obtain ⟨hex, hall⟩ := hsim _ _ hR hstep
    refine .later hex fun s' hs' => ?_
    obtain ⟨t', ht', hR'⟩ := hall s' hs'
    exact ih t' ht' hR'

end Inevitable
