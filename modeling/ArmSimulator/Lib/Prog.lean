import Mathlib.Tactic.Common

/-!
# Programs over a state that may abort

`Prog σ α` is the shallow form of a C function: it reads and updates a state `σ`, returns a
result in `α`, and has no result when an `assert` fails. Two logics are developed for it.

* `Triple P m Q` is the total Hoare triple: from a state satisfying `P` the program returns, and
  the result and the state it leaves satisfy `Q`. `Keeps I m` is the triple of an invariant.
* `Sim R B m n` relates two programs: from related states they return the same result and related
  states, unless the first one has run into the error `B`, which a program never takes back.

Both have a rule for each construct of a straight-line program (`pure`, `>>=`, `if`, `when`) and
for `List.foldlM`, the form a counted loop takes. `Ensures m s Q` is the partial triple from one
state, for the programs whose runs are followed state by state.
-/

/-- A program over the state `σ` with a result in `α`; `none` is a run that an `assert` aborted. -/
abbrev Prog (σ α : Type) := StateT σ Option α

namespace Prog

variable {σ τ α β γ : Type}

/-- The C statement `assert(b)`. -/
def assert (b : Bool) : Prog σ Unit := if b then pure () else failure

/-- The C statement `if (b) m;`. -/
def when (b : Bool) (m : Prog σ Unit) : Prog σ Unit := if b then m else pure ()

/-- After a run of `m`, the rest of the program runs from the state it left. -/
theorem run_bind_of {m : Prog σ α} {f : α → Prog σ β} {s s' : σ} {a : α}
    (h : m.run s = some (a, s')) : (m >>= f).run s = (f a).run s' := by
  rw [StateT.run_bind, h]
  rfl

/-- After a run that an assertion has aborted there is no more. -/
theorem run_bind_of_none {m : Prog σ α} {f : α → Prog σ β} {s : σ} (h : m.run s = none) :
    (m >>= f).run s = none := by
  rw [StateT.run_bind, h]
  rfl

/-- A run of `m >>= f` is a run of `m` followed by a run of `f` at its result. -/
theorem run_bind_eq_some {m : Prog σ α} {f : α → Prog σ β} {s s'' : σ} {b : β} :
    (m >>= f).run s = some (b, s'') ↔
      ∃ a s', m.run s = some (a, s') ∧ (f a).run s' = some (b, s'') := by
  rw [StateT.run_bind]
  cases h : m.run s with
  | none => simp
  | some p =>
    obtain ⟨a, s'⟩ := p
    constructor
    · intro hf
      exact ⟨a, s', rfl, hf⟩
    · rintro ⟨a', s₁, he, hf⟩
      cases he
      exact hf

/-! ## Total Hoare triples -/

/-- From a state satisfying `P`, the program `m` returns, with a result and a state in `Q`. -/
def Triple (P : σ → Prop) (m : Prog σ α) (Q : α → σ → Prop) : Prop :=
  ∀ s, P s → ∃ a s', m.run s = some (a, s') ∧ Q a s'

/-- A triple may be given a stronger precondition and a weaker postcondition. -/
theorem Triple.conseq {P P' : σ → Prop} {m : Prog σ α} {Q Q' : α → σ → Prop} (h : Triple P m Q)
    (hP : ∀ s, P' s → P s) (hQ : ∀ a s, Q a s → Q' a s) : Triple P' m Q' := by
  intro s hs
  obtain ⟨a, s', hr, hq⟩ := h s (hP s hs)
  exact ⟨a, s', hr, hQ a s' hq⟩

/-- The postcondition of a triple may be weakened. -/
theorem Triple.post {P : σ → Prop} {m : Prog σ α} {Q Q' : α → σ → Prop} (h : Triple P m Q)
    (hQ : ∀ a s, Q a s → Q' a s) : Triple P m Q' :=
  h.conseq (fun _ hs => hs) hQ

/-- The precondition of a triple may be strengthened. -/
theorem Triple.pre {P P' : σ → Prop} {m : Prog σ α} {Q : α → σ → Prop} (h : Triple P m Q)
    (hP : ∀ s, P' s → P s) : Triple P' m Q :=
  h.conseq hP fun _ _ hq => hq

/-- `return a` ends in the state in which it begins. -/
theorem Triple.pure {P : σ → Prop} {a : α} {Q : α → σ → Prop} (h : ∀ s, P s → Q a s) :
    Triple P (pure a : Prog σ α) Q :=
  fun s hs => ⟨a, s, rfl, h s hs⟩

/-- The result of the first program is the argument of the second, so two triples whose middle
assertions agree compose. -/
theorem Triple.bind {P : σ → Prop} {m : Prog σ α} {Q : α → σ → Prop} {f : α → Prog σ β}
    {T : β → σ → Prop} (hm : Triple P m Q) (hf : ∀ a, Triple (Q a) (f a) T) :
    Triple P (m >>= f) T := by
  intro s hs
  obtain ⟨a, s', hr, hq⟩ := hm s hs
  obtain ⟨b, s'', hr', ht⟩ := hf a s' hq
  exact ⟨b, s'', run_bind_eq_some.2 ⟨a, s', hr, hr'⟩, ht⟩

/-- A conditional needs a triple for each branch. -/
theorem Triple.ite {P : σ → Prop} {c : Prop} [Decidable c] {m n : Prog σ α} {Q : α → σ → Prop}
    (hm : c → Triple P m Q) (hn : ¬ c → Triple P n Q) : Triple P (if c then m else n) Q := by
  by_cases h : c
  · rw [if_pos h]; exact hm h
  · rw [if_neg h]; exact hn h

/-- A pure fact of the precondition is a hypothesis of the triple. -/
theorem Triple.of_fact {P : σ → Prop} {φ : Prop} {m : Prog σ α} {Q : α → σ → Prop}
    (h : φ → Triple P m Q) : Triple (fun s => φ ∧ P s) m Q :=
  fun s hs => h hs.1 s hs.2

/-- An assertion that holds is passed. -/
theorem Triple.assert {P : σ → Prop} {b : Bool} (h : b = true) :
    Triple P (assert b : Prog σ Unit) fun _ s => P s := by
  intro s hs
  subst h
  exact ⟨(), s, rfl, hs⟩

/-- The loop rule: `I xs a` holds before the elements `xs` are still to be processed, with the
accumulator `a`. -/
theorem Triple.foldlM {f : α → β → Prog σ α} {I : List β → α → σ → Prop}
    (hf : ∀ x xs a, Triple (I (x :: xs) a) (f a x) (I xs)) (l : List β) (a : α) :
    Triple (I l a) (l.foldlM f a) (I []) := by
  induction l generalizing a with
  | nil => exact Triple.pure fun _ hs => hs
  | cons x xs ih =>
    rw [List.foldlM_cons]
    exact (hf x xs a).bind fun a' => ih a'

/-- A counted loop keeps its invariant: `I i a` holds before round `i`, with the accumulator `a`. -/
theorem Triple.foldlM_range {f : α → Nat → Prog σ α} {I : Nat → α → σ → Prop} {n : Nat}
    (hf : ∀ i a, i < n → Triple (I i a) (f a i) (I (i + 1))) (a : α) :
    Triple (I 0 a) ((List.range n).foldlM f a) (I n) := by
  induction n with
  | zero => exact Triple.pure fun _ hs => hs
  | succ n ih =>
    rw [List.range_succ, List.foldlM_append]
    refine (ih fun i a hi => hf i a (Nat.lt_succ_of_lt hi)).bind fun a' => ?_
    rw [List.foldlM_cons]
    exact (hf n a' (Nat.lt_succ_self n)).bind fun _ => Triple.pure fun _ hs => hs

/-! ## Invariants -/

/-- The program `m` returns from every state satisfying `I`, and re-establishes `I`. -/
def Keeps (I : σ → Prop) (m : Prog σ α) : Prop := Triple I m fun _ => I

/-- Returning a value keeps the invariant. -/
theorem Keeps.pure {I : σ → Prop} (a : α) : Keeps I (pure a : Prog σ α) :=
  Triple.pure fun _ hs => hs

/-- One program after another keeps what both keep. -/
theorem Keeps.bind {I : σ → Prop} {m : Prog σ α} {f : α → Prog σ β} (hm : Keeps I m)
    (hf : ∀ a, Keeps I (f a)) : Keeps I (m >>= f) :=
  Triple.bind hm hf

/-- A conditional keeps what its branches keep, each under its condition. -/
theorem Keeps.ite {I : σ → Prop} {c : Prop} [Decidable c] {m n : Prog σ α}
    (hm : c → Keeps I m) (hn : ¬ c → Keeps I n) : Keeps I (if c then m else n) :=
  Triple.ite hm hn

/-- A program that is run only if the condition holds keeps what it keeps then. -/
theorem Keeps.when {I : σ → Prop} {b : Bool} {m : Prog σ Unit} (hm : b = true → Keeps I m) :
    Keeps I (when b m) := by
  cases b with
  | false => exact Keeps.pure ()
  | true => exact hm rfl

/-! ## Results -/

/-- Every result of `m` satisfies `φ`, whatever the state. -/
def Returns (φ : α → Prop) (m : Prog σ α) : Prop := ∀ s a s', m.run s = some (a, s') → φ a

/-- A value with the property is returned. -/
theorem Returns.pure {φ : α → Prop} {a : α} (h : φ a) : Returns φ (pure a : Prog σ α) := by
  rintro s _ _ ⟨⟩
  exact h

/-- A value with a stronger property has the weaker one. -/
theorem Returns.mono {φ ψ : α → Prop} {m : Prog σ α} (h : Returns φ m) (hψ : ∀ a, φ a → ψ a) :
    Returns ψ m :=
  fun s a s' hr => hψ a (h s a s' hr)

/-- Two programs are sequenced, where what is known of the first result matters to the second. -/
theorem Returns.bind_of {ψ : α → Prop} {φ : β → Prop} {m : Prog σ α} {f : α → Prog σ β}
    (hm : Returns ψ m) (hf : ∀ a, ψ a → Returns φ (f a)) : Returns φ (m >>= f) := by
  intro s b s'' hr
  obtain ⟨a, s', ha, h⟩ := run_bind_eq_some.1 hr
  exact hf a (hm s a s' ha) s' b s'' h

/-- What the last program returns is returned, whatever comes before. -/
theorem Returns.bind {φ : β → Prop} {m : Prog σ α} {f : α → Prog σ β}
    (hf : ∀ a, Returns φ (f a)) : Returns φ (m >>= f) :=
  Returns.bind_of (ψ := fun _ => True) (fun _ _ _ _ => trivial) fun a _ => hf a

/-- A conditional returns what both of its branches return. -/
theorem Returns.ite {φ : α → Prop} {c : Prop} [Decidable c] {m n : Prog σ α} (hm : Returns φ m)
    (hn : Returns φ n) : Returns φ (if c then m else n) := by
  by_cases h : c
  · rw [if_pos h]; exact hm
  · rw [if_neg h]; exact hn

/-- What a run returns satisfies what all results do. -/
theorem Triple.returns {P : σ → Prop} {m : Prog σ α} {Q : α → σ → Prop} {φ : α → Prop}
    (h : Triple P m Q) (hr : Returns φ m) : Triple P m fun a s => φ a ∧ Q a s := by
  intro s hs
  obtain ⟨a, s', hm, hq⟩ := h s hs
  exact ⟨a, s', hm, hr s a s' hm, hq⟩

/-! ## Runs from one state -/

/-- Every run of `m` from `s` has its result and its final state in `Q`. -/
def Ensures (m : Prog σ α) (s : σ) (Q : α → σ → Prop) : Prop :=
  ∀ a s', m.run s = some (a, s') → Q a s'

section
variable {s : σ} {Q : α → σ → Prop}

/-- Returning a value ensures what holds of it and of the state. -/
theorem Ensures.pure {a : α} (h : Q a s) : Ensures (pure a : Prog σ α) s Q := by
  rintro _ _ ⟨⟩
  exact h

/-- What is ensured can be weakened. -/
theorem Ensures.mono {Q' : α → σ → Prop} {m : Prog σ α} (h : Ensures m s Q)
    (hQ : ∀ a s', Q a s' → Q' a s') : Ensures m s Q' :=
  fun a s' hr => hQ a s' (h a s' hr)

/-- A program whose run is known. -/
theorem Ensures.of_run {m : Prog σ α} {a : α} {s₁ : σ} (hm : m.run s = some (a, s₁))
    (h : Q a s₁) : Ensures m s Q := by
  intro b s' hr
  rw [hm] at hr
  cases hr
  exact h

/-- After a run that is known, the rest of the program has to ensure the result. -/
theorem Ensures.bind {m : Prog σ β} {f : β → Prog σ α} {b : β} {s₁ : σ}
    (hm : m.run s = some (b, s₁)) (hf : Ensures (f b) s₁ Q) : Ensures (m >>= f) s Q := by
  intro a s' hr
  rw [run_bind_of hm] at hr
  exact hf a s' hr

/-- After a program with a triple, the rest has to ensure the result from every state that the
triple allows. -/
theorem Ensures.bind_triple {P : σ → Prop} {T : β → σ → Prop} {m : Prog σ β} {f : β → Prog σ α}
    (hm : Triple P m T) (hs : P s) (hf : ∀ b s₁, T b s₁ → Ensures (f b) s₁ Q) :
    Ensures (m >>= f) s Q := by
  obtain ⟨b, s₁, hr, hq⟩ := hm s hs
  exact Ensures.bind hr (hf b s₁ hq)

/-- A conditional ensures what its branches ensure, each under its condition. -/
theorem Ensures.ite {c : Prop} [Decidable c] {m n : Prog σ α} (hm : c → Ensures m s Q)
    (hn : ¬ c → Ensures n s Q) : Ensures (if c then m else n) s Q := by
  by_cases h : c
  · rw [if_pos h]; exact hm h
  · rw [if_neg h]; exact hn h

end

/-! ## What a program leaves alone -/

/-- Every run of `m` leaves the part `f` of the state. -/
def Preserves (f : σ → τ) (m : Prog σ α) : Prop := ∀ s, Ensures m s fun _ s' => f s' = f s

section
variable {f : σ → τ}

/-- Returning a value preserves every function of the state. -/
theorem Preserves.pure (a : α) : Preserves f (pure a : Prog σ α) := fun _ => Ensures.pure rfl

/-- One program after another preserves what both preserve. -/
theorem Preserves.bind {m : Prog σ α} {n : α → Prog σ β} (hm : Preserves f m)
    (hn : ∀ a, Preserves f (n a)) : Preserves f (m >>= n) := by
  intro s b s'' hr
  obtain ⟨a, s', ha, hb⟩ := run_bind_eq_some.1 hr
  exact (hn a s' b s'' hb).trans (hm s a s' ha)

/-- A conditional preserves what its branches preserve, each under its condition. -/
theorem Preserves.ite {c : Prop} [Decidable c] {m n : Prog σ α} (hm : c → Preserves f m)
    (hn : ¬ c → Preserves f n) : Preserves f (if c then m else n) :=
  fun s => Ensures.ite (fun h => hm h s) fun h => hn h s

/-- Reading the state preserves every function of it. -/
theorem Preserves.get : Preserves f (get : Prog σ σ) := fun _ => Ensures.of_run rfl rfl

/-- An update preserves a function of the state that it does not change. -/
theorem Preserves.modify {g : σ → σ} (h : ∀ s, f (g s) = f s) :
    Preserves f (modify g : Prog σ Unit) := fun s => Ensures.of_run rfl (h s)

/-- An assertion preserves every function of the state. -/
theorem Preserves.assert (b : Bool) : Preserves f (assert b : Prog σ Unit) := by
  cases b with
  | true => exact Preserves.pure ()
  | false =>
    rintro s a s' ⟨⟩

/-- A failure preserves every function of the state, since it leaves none. -/
theorem Preserves.failure : Preserves f (failure : Prog σ α) := by
  rintro s a s' ⟨⟩

end

/-! ## What a program does not look at -/

/-- The program neither reads nor changes the part of the state that `put` replaces. -/
def Ignores (put : τ → σ → σ) (m : Prog σ α) : Prop :=
  ∀ t s, m.run (put t s) = (m.run s).map fun r => (r.1, put t r.2)

section
variable {put : τ → σ → σ}

/-- Returning a value ignores every part of the state. -/
theorem Ignores.pure (a : α) : Ignores put (pure a : Prog σ α) := fun _ _ => rfl

/-- A failure ignores every part of the state. -/
theorem Ignores.failure : Ignores put (failure : Prog σ α) := fun _ _ => rfl

/-- An assertion ignores every part of the state. -/
theorem Ignores.assert (b : Bool) : Ignores put (assert b : Prog σ Unit) := by
  cases b with
  | true => exact Ignores.pure ()
  | false => exact Ignores.failure

/-- One program after another ignores what both ignore. -/
theorem Ignores.bind {m : Prog σ α} {f : α → Prog σ β} (hm : Ignores put m)
    (hf : ∀ a, Ignores put (f a)) : Ignores put (m >>= f) := by
  intro t s
  rw [StateT.run_bind, StateT.run_bind, hm]
  cases m.run s with
  | none => rfl
  | some r => exact hf r.1 t r.2

/-- A conditional ignores what both of its branches ignore. -/
theorem Ignores.ite {c : Prop} [Decidable c] {m n : Prog σ α} (hm : Ignores put m)
    (hn : Ignores put n) : Ignores put (if c then m else n) := by
  by_cases h : c
  · rw [if_pos h]; exact hm
  · rw [if_neg h]; exact hn

/-- A program that is run only if the condition holds ignores what it ignores then. -/
theorem Ignores.when {b : Bool} {m : Prog σ Unit} (hm : Ignores put m) :
    Ignores put (when b m) := by
  cases b with
  | false => exact Ignores.pure ()
  | true => exact hm

/-- An update that commutes with the change of a part ignores the part. -/
theorem Ignores.modify {g : σ → σ} (h : ∀ t s, g (put t s) = put t (g s)) :
    Ignores put (modify g : Prog σ Unit) :=
  fun t s => congrArg (fun s => some ((), s)) (h t s)

/-- A read of which the program uses other parts only. -/
theorem Ignores.get_bind {f : σ → Prog σ α} (h : ∀ t s, f (put t s) = f s)
    (hf : ∀ s, Ignores put (f s)) : Ignores put (get >>= f) := by
  intro t s
  show (f (put t s)).run (put t s) = ((f s).run s).map _
  rw [h]
  exact hf s t s

end

/-! ## Invariants of the runs that return -/

/-- Every run of `m` keeps `I`. -/
def Maintains (I : σ → Prop) (m : Prog σ α) : Prop := ∀ s, I s → Ensures m s fun _ => I

section
variable {I : σ → Prop}

/-- Returning a value maintains every invariant. -/
theorem Maintains.pure (a : α) : Maintains I (pure a : Prog σ α) := fun _ hs => Ensures.pure hs

/-- One program after another maintains what both maintain. -/
theorem Maintains.bind {m : Prog σ α} {f : α → Prog σ β} (hm : Maintains I m)
    (hf : ∀ a, Maintains I (f a)) : Maintains I (m >>= f) := by
  intro s hs b s'' hr
  obtain ⟨a, s', ha, hb⟩ := run_bind_eq_some.1 hr
  exact hf a s' (hm s hs a s' ha) b s'' hb

/-- A conditional maintains what both of its branches maintain. -/
theorem Maintains.ite {c : Prop} [Decidable c] {m n : Prog σ α} (hm : Maintains I m)
    (hn : Maintains I n) : Maintains I (if c then m else n) :=
  fun s hs => Ensures.ite (fun _ => hm s hs) fun _ => hn s hs

/-- A program that is run only if the condition holds maintains what it maintains then. -/
theorem Maintains.when {b : Bool} {m : Prog σ Unit} (hm : Maintains I m) :
    Maintains I (when b m) := by
  cases b with
  | false => exact Maintains.pure ()
  | true => exact hm

/-- An assertion maintains every invariant. -/
theorem Maintains.assert (b : Bool) : Maintains I (assert b : Prog σ Unit) := by
  cases b with
  | true => exact Maintains.pure ()
  | false =>
    rintro s _ a s' ⟨⟩

/-- A loop over a list maintains what each of its rounds maintains. -/
theorem Maintains.foldlM {f : α → β → Prog σ α} (hf : ∀ a x, Maintains I (f a x)) (l : List β)
    (a : α) : Maintains I (l.foldlM f a) := by
  induction l generalizing a with
  | nil => exact Maintains.pure a
  | cons x xs ih =>
    rw [List.foldlM_cons]
    exact (hf a x).bind ih

/-- A program whose run is known from every state. -/
theorem Maintains.of_run {m : Prog σ α} {f : σ → α} {g : σ → σ}
    (hm : ∀ s, m.run s = some (f s, g s)) (h : ∀ s, I s → I (g s)) : Maintains I m :=
  fun s hs => Ensures.of_run (hm s) (h s hs)

end

/-! ## Final states -/

/-- Every run of `m` from `s` whose result satisfies `φ` ends in the state `t`. -/
def Leaves (φ : α → Prop) (m : Prog σ α) (s t : σ) : Prop :=
  ∀ a s', m.run s = some (a, s') → φ a → s' = t

/-- Returning a value leaves the state as it is. -/
theorem Leaves.pure {φ : α → Prop} (a : α) (s : σ) : Leaves φ (pure a : Prog σ α) s s :=
  Ensures.pure fun _ => rfl

/-- A program without such results leaves any state. -/
theorem Leaves.of_returns {φ : α → Prop} {m : Prog σ α} (h : Returns (fun a => ¬ φ a) m) (s t : σ) :
    Leaves φ m s t :=
  fun a s' hr ha => absurd ha (h s a s' hr)

/-- After a run that is known, the rest of the program has to leave the state. -/
theorem Leaves.bind {φ : β → Prop} {m : Prog σ α} {f : α → Prog σ β} {s s₁ t : σ} {a : α}
    (hm : m.run s = some (a, s₁)) (hf : Leaves φ (f a) s₁ t) : Leaves φ (m >>= f) s t :=
  Ensures.bind hm hf

/-- After a program with a triple, the rest has to leave the state from every one that the triple
allows. -/
theorem Leaves.bind_triple {φ : β → Prop} {P : σ → Prop} {Q : α → σ → Prop} {m : Prog σ α}
    {f : α → Prog σ β} {s t : σ} (hm : Triple P m Q) (hs : P s)
    (hf : ∀ a s₁, Q a s₁ → Leaves φ (f a) s₁ t) : Leaves φ (m >>= f) s t :=
  Ensures.bind_triple hm hs hf

/-- A conditional leaves what its branches leave, each under its condition. -/
theorem Leaves.ite {φ : α → Prop} {c : Prop} [Decidable c] {m n : Prog σ α} {s t : σ}
    (hm : c → Leaves φ m s t) (hn : ¬ c → Leaves φ n s t) :
    Leaves φ (if c then m else n) s t :=
  Ensures.ite hm hn

/-! ## Simulation up to an error -/

/-- `n` simulates `m` along `R`, up to the error `B`: from related states both return the same
result and related states, unless `m` ends in `B`; and `m` does not leave `B`. -/
def Sim (R : σ → τ → Prop) (B : σ → Prop) (m : Prog σ α) (n : Prog τ α) : Prop :=
  (∀ s a s', m.run s = some (a, s') → B s → B s') ∧
  ∀ s t, R s t → ∀ a s', m.run s = some (a, s') → B s' ∨ ∃ t', n.run t = some (a, t') ∧ R s' t'

section
variable {R : σ → τ → Prop} {B : σ → Prop}

/-- Returning the same value on both sides is a simulation. -/
theorem Sim.pure (a : α) : Sim R B (pure a : Prog σ α) (pure a) := by
  refine ⟨?_, ?_⟩
  · rintro s _ _ ⟨⟩ hb
    exact hb
  · rintro s t hR _ _ ⟨⟩
    exact .inr ⟨t, rfl, hR⟩

/-- Two simulations are sequenced, where what is known of the first result matters to the second. -/
theorem Sim.bind_of {ψ : α → Prop} {m : Prog σ α} {n : Prog τ α} {f : α → Prog σ β}
    {g : α → Prog τ β} (hm : Sim R B m n)
    (hψ : ∀ s, (B s ∨ ∃ t, R s t) → ∀ a s', m.run s = some (a, s') → ψ a)
    (hf : ∀ a, ψ a → Sim R B (f a) (g a)) : Sim R B (m >>= f) (n >>= g) := by
  refine ⟨?_, ?_⟩
  · intro s b s'' hr hb
    obtain ⟨a, s', h1, h2⟩ := run_bind_eq_some.1 hr
    exact (hf a (hψ s (.inl hb) a s' h1)).1 _ _ _ h2 (hm.1 _ _ _ h1 hb)
  · intro s t hR b s'' hr
    obtain ⟨a, s', h1, h2⟩ := run_bind_eq_some.1 hr
    have ha := hψ s (.inr ⟨t, hR⟩) a s' h1
    rcases hm.2 s t hR a s' h1 with hb | ⟨t', h1', hR'⟩
    · exact .inl ((hf a ha).1 _ _ _ h2 hb)
    · rcases (hf a ha).2 s' t' hR' b s'' h2 with hb | ⟨t'', h2', hR''⟩
      · exact .inl hb
      · exact .inr ⟨t'', run_bind_eq_some.2 ⟨a, t', h1', h2'⟩, hR''⟩

/-- Simulations one after the other are a simulation. -/
theorem Sim.bind {m : Prog σ α} {n : Prog τ α} {f : α → Prog σ β} {g : α → Prog τ β}
    (hm : Sim R B m n) (hf : ∀ a, Sim R B (f a) (g a)) : Sim R B (m >>= f) (n >>= g) :=
  Sim.bind_of (ψ := fun _ => True) hm (fun _ _ _ _ _ => trivial) fun a _ => hf a

/-- A conditional is a simulation, where what it tests matters to the branches. -/
theorem Sim.ite_of {c : Prop} [Decidable c] {m m' : Prog σ α} {n n' : Prog τ α}
    (h : c → Sim R B m n) (h' : ¬ c → Sim R B m' n') :
    Sim R B (if c then m else m') (if c then n else n') := by
  by_cases hc : c
  · rw [if_pos hc, if_pos hc]; exact h hc
  · rw [if_neg hc, if_neg hc]; exact h' hc

/-- A conditional of simulations is a simulation. -/
theorem Sim.ite {c : Prop} [Decidable c] {m m' : Prog σ α} {n n' : Prog τ α}
    (h : Sim R B m n) (h' : Sim R B m' n') :
    Sim R B (if c then m else m') (if c then n else n') :=
  Sim.ite_of (fun _ => h) fun _ => h'

/-- A simulation that is run only if the condition holds is one. -/
theorem Sim.when {b : Bool} {m : Prog σ Unit} {n : Prog τ Unit} (h : Sim R B m n) :
    Sim R B (when b m) (when b n) := by
  cases b with
  | false => exact Sim.pure ()
  | true => exact h

/-- The same assertion on both sides is a simulation. -/
theorem Sim.assert (b : Bool) : Sim R B (assert b : Prog σ Unit) (assert b) := by
  cases b with
  | false => exact ⟨nofun, nofun⟩
  | true => exact Sim.pure ()

/-- Loops over the same list whose rounds are simulations are a simulation. -/
theorem Sim.foldlM {f : α → β → Prog σ α} {g : α → β → Prog τ α}
    (hf : ∀ a x, Sim R B (f a x) (g a x)) (l : List β) (a : α) :
    Sim R B (l.foldlM f a) (l.foldlM g a) := by
  induction l generalizing a with
  | nil => exact Sim.pure a
  | cons x xs ih =>
    rw [List.foldlM_cons, List.foldlM_cons]
    exact (hf a x).bind fun a' => ih a'

/-- Two programs whose runs are known from every state. -/
theorem Sim.of_run {m : Prog σ α} {n : Prog τ α} {f : σ → α} {g : σ → σ} {f' : τ → α} {g' : τ → τ}
    (hm : ∀ s, m.run s = some (f s, g s)) (hn : ∀ t, n.run t = some (f' t, g' t))
    (hR : ∀ s t, R s t → f' t = f s ∧ R (g s) (g' t)) : Sim R (fun _ => False) m n := by
  refine ⟨fun _ _ _ _ hb => hb, fun s t h a s' hr => .inr ⟨g' t, ?_⟩⟩
  obtain ⟨hf, hg⟩ := hR s t h
  rw [hm] at hr
  cases hr
  exact ⟨by rw [hn, hf], hg⟩

/-- A program simulates itself on equal states with the invariant `I`, if it keeps `I`. -/
theorem Sim.of_inv {I : σ → Prop} {m : Prog σ α}
    (h : ∀ s a s', I s → m.run s = some (a, s') → I s') :
    Sim (fun s t => t = s ∧ I s) (fun _ => False) m m := by
  refine ⟨fun _ _ _ _ hb => hb, ?_⟩
  rintro s t ⟨ht, hI⟩ a s' hr
  rw [ht]
  exact .inr ⟨s', hr, rfl, h s a s' hI hr⟩

/-- A program that simulates itself on the states of the invariant keeps it. -/
theorem Sim.inv {I : σ → Prop} {m : Prog σ α}
    (h : Sim (fun s t => t = s ∧ I s) (fun _ => False) m m) {s s' : σ} {a : α} (hI : I s)
    (hr : m.run s = some (a, s')) : I s' := by
  rcases h.2 s s ⟨rfl, hI⟩ a s' hr with hb | ⟨t, _, _, hI'⟩
  · exact hb.elim
  · exact hI'

end

end Prog
