import ArmSimulator.Lib.Resume
import Mathlib.Logic.Function.Basic
import Mathlib.Logic.Relation

/-!
# Threads and a mutex

Threads that share a state `σ` behind a mutex. Each of them has a state of its own, which its steps
outside the lock change; inside, it takes the steps of a critical section, which may read and change
the shared state. The steps of different threads interleave in any order.

At any time at most one thread is inside, the holder of the lock (`inside_iff`). Hence every state
that is reached is explained by a serial one, in which the critical sections run one after the
other and none is interrupted (`serializable`); and every serial run is one of the threads
(`Serial.realised`).
-/

/-- What the threads of a program do around a lock. -/
structure Threads (ι σ : Type) where
  /-- What a thread holds that the others do not see. -/
  Own : ι → Type
  /-- A step outside the lock. -/
  move : (i : ι) → Own i → Own i → Prop
  /-- A critical section that the thread may enter in this shared state, and with which it then goes
  on. -/
  critical : (i : ι) → Own i → σ → Resume σ (Own i) → Prop

namespace Threads

variable {ι σ : Type}

/-- Where a thread is. -/
inductive Place (σ α : Type) where
  | outside (own : α)
  | inside (rest : Resume σ α)

/-- The state of all threads, the shared state, and the holder of the lock. -/
structure State (T : Threads ι σ) where
  place : (i : ι) → Place σ (T.Own i)
  shared : σ
  holder : Option ι

/-- A serial state: all threads are outside. -/
structure Serial (T : Threads ι σ) where
  own : (i : ι) → T.Own i
  shared : σ

variable {T : Threads ι σ}

/-- The threads outside the lock. -/
def Serial.toState (Z : T.Serial) : T.State where
  place := fun i => .outside (Z.own i)
  shared := Z.shared
  holder := none

/-! ## Explained states -/

/-- The thread has come some way in a critical section, which it has entered from `own` in the state
`s`: what is left of it does to the shared state what the whole does to `s`. -/
def State.Underway (S : T.State) (i : ι) (own : T.Own i) (s : σ) : Prop :=
  ∃ r rest, T.critical i own s r ∧ S.place i = .inside rest ∧
    StateT.run r.run s = StateT.run rest.run S.shared

/-- The state `S` is explained by `Z`: the threads that do not hold the lock are as in `Z`, and the
holder has come some way in its critical section, which it has entered in `Z`. -/
structure Explains (Z : T.Serial) (S : T.State) : Prop where
  outside : ∀ i, S.holder ≠ some i → S.place i = .outside (Z.own i)
  free : S.holder = none → S.shared = Z.shared
  busy : ∀ i, S.holder = some i → S.Underway i (Z.own i) Z.shared

/-- A serial state explains itself. -/
theorem explains_toState (Z : T.Serial) : Explains Z Z.toState where
  outside := fun _ _ => rfl
  free := fun _ => rfl
  busy := fun _ h => absurd h (Option.some_ne_none _).symm

section
variable {Z : T.Serial} {S : T.State} {i : ι}

/-- A thread is inside if and only if it holds the lock. -/
theorem Explains.inside_iff (h : Explains Z S) :
    (∃ r, S.place i = .inside r) ↔ S.holder = some i := by
  constructor
  · rintro ⟨r, hr⟩
    by_contra hne
    rw [h.outside i hne] at hr
    cases hr
  · intro hi
    obtain ⟨_, rest, -, hrest, -⟩ := h.busy i hi
    exact ⟨rest, hrest⟩

/-- A thread outside of its critical section does not hold the lock. -/
theorem Explains.holder_ne (h : Explains Z S) {own : T.Own i} (hi : S.place i = .outside own) :
    S.holder ≠ some i := by
  intro hh
  obtain ⟨r, hr⟩ := h.inside_iff.2 hh
  rw [hi] at hr
  cases hr

/-- A thread outside of its critical section has the data of the serial state. -/
theorem Explains.own_eq (h : Explains Z S) {own : T.Own i} (hi : S.place i = .outside own) :
    Z.own i = own := by
  have hplace := h.outside i (h.holder_ne hi)
  rw [hi] at hplace
  cases hplace
  rfl

end

/-! ## Steps -/

variable [DecidableEq ι]

/-- A step of one thread. Only `lock` looks at the holder. -/
inductive Step (S : T.State) : T.State → Prop
  | move {i : ι} {own own' : T.Own i} (hi : S.place i = .outside own) (h : T.move i own own') :
      Step S { S with place := Function.update S.place i (.outside own') }
  | lock {i : ι} {own : T.Own i} {r : Resume σ (T.Own i)} (hi : S.place i = .outside own)
      (h : T.critical i own S.shared r) (hfree : S.holder = none) :
      Step S { S with place := Function.update S.place i (.inside r), holder := some i }
  | act {i : ι} {f : σ → σ} {k : σ → Resume σ (T.Own i)} (hi : S.place i = .inside (.act f k)) :
      Step S { S with
        place := Function.update S.place i (.inside (k S.shared))
        shared := f S.shared }
  | unlock {i : ι} {own : T.Own i} (hi : S.place i = .inside (.ret own)) :
      Step S { S with place := Function.update S.place i (.outside own), holder := none }

/-- A step of a thread outside, or a whole critical section. -/
inductive SerialStep (Z : T.Serial) : T.Serial → Prop
  | move {i : ι} {own' : T.Own i} (h : T.move i (Z.own i) own') :
      SerialStep Z { Z with own := Function.update Z.own i own' }
  | critical {i : ι} {r : Resume σ (T.Own i)} {own' : T.Own i} {s : σ}
      (h : T.critical i (Z.own i) Z.shared r)
      (hrun : StateT.run r.run Z.shared = some (own', s)) :
      SerialStep Z { own := Function.update Z.own i own', shared := s }

/-! ## Serialization -/

section
variable {Z : T.Serial} {S S' : T.State} {i : ι}

/-- **One step.** The state after it is explained too, by the same serial state or by the one after
a step. -/
theorem Explains.step (h : Explains Z S) (hstep : Step S S') :
    ∃ Z', Relation.ReflGen SerialStep Z Z' ∧ Explains Z' S' := by
  cases hstep with
  | @move i own own' hi hmove =>
    have hne := h.holder_ne hi
    obtain rfl := h.own_eq hi
    refine ⟨_, .single (.move hmove), ?_, h.free, ?_⟩
    · intro j hj
      by_cases hij : j = i
      · subst hij
        simp only [Function.update_self]
      · simp only [Function.update_of_ne hij]
        exact h.outside j hj
    · intro j hj
      have hij : j ≠ i := by
        rintro rfl
        exact hne hj
      simp only [State.Underway, Function.update_of_ne hij]
      exact h.busy j hj
  | @lock i own r hi hcritical hfree =>
    obtain rfl := h.own_eq hi
    refine ⟨Z, .refl, ?_, fun hn => absurd hn (Option.some_ne_none i), ?_⟩
    · intro j hj
      have hij : j ≠ i := by
        rintro rfl
        exact hj rfl
      simp only [Function.update_of_ne hij]
      exact h.outside j (by simp [hfree])
    · intro j hj
      obtain rfl := Option.some.inj hj
      refine ⟨r, r, h.free hfree ▸ hcritical, Function.update_self _ _ _, ?_⟩
      rw [h.free hfree]
  | @act i f k hi =>
    have hh := h.inside_iff.1 ⟨_, hi⟩
    refine ⟨Z, .refl, ?_, fun hn => absurd hh (by simp_all), ?_⟩
    · intro j hj
      have hij : j ≠ i := by
        rintro rfl
        exact hj hh
      simp only [Function.update_of_ne hij]
      exact h.outside j hj
    · intro j hj
      obtain rfl : i = j := Option.some.inj (hh.symm.trans hj)
      obtain ⟨r, rest, hcritical, hrest, hrun⟩ := h.busy i hh
      obtain rfl : rest = .act f k := by
        rw [hi] at hrest
        cases hrest
        rfl
      refine ⟨r, k S.shared, hcritical, Function.update_self _ _ _, ?_⟩
      rw [hrun, Resume.run_act]
  | @unlock i own hi =>
    have hh := h.inside_iff.1 ⟨_, hi⟩
    obtain ⟨r, rest, hcritical, hrest, hrun⟩ := h.busy i hh
    obtain rfl : rest = .ret own := by
      rw [hi] at hrest
      cases hrest
      rfl
    refine ⟨_, .single (.critical hcritical hrun), ?_, fun _ => rfl, ?_⟩
    · intro j hj
      by_cases hij : j = i
      · subst hij
        simp only [Function.update_self]
      · simp only [Function.update_of_ne hij]
        refine h.outside j fun hj' => hij ?_
        exact Option.some.inj (hj'.symm.trans hh)
    · intro j hj
      cases hj

/-- **Serialization.** Every state that is reached is explained by a serial one that is. -/
theorem serializable {Z₀ : T.Serial} (h : Relation.ReflTransGen Step Z₀.toState S) :
    ∃ Z, Relation.ReflTransGen SerialStep Z₀ Z ∧ Explains Z S := by
  induction h with
  | refl => exact ⟨Z₀, .refl, explains_toState Z₀⟩
  | tail _ hstep ih =>
    obtain ⟨Z, hZ, hexplains⟩ := ih
    obtain ⟨Z', hZ', hexplains'⟩ := hexplains.step hstep
    exact ⟨Z', hZ.trans hZ'.to_reflTransGen, hexplains'⟩

/-- **Mutual exclusion.** A thread is inside if and only if it holds the lock. -/
theorem inside_iff {Z₀ : T.Serial} (h : Relation.ReflTransGen Step Z₀.toState S) :
    (∃ r, S.place i = .inside r) ↔ S.holder = some i := by
  obtain ⟨Z, -, hexplains⟩ := serializable h
  exact hexplains.inside_iff

/-- The shared state is changed by the holder of the lock only. -/
theorem holder_of_shared_ne {Z₀ : T.Serial} (h : Relation.ReflTransGen Step Z₀.toState S)
    (hstep : Step S S') (hne : S'.shared ≠ S.shared) :
    ∃ i r, S.holder = some i ∧ S.place i = .inside r := by
  cases hstep with
  | move => exact absurd rfl hne
  | lock => exact absurd rfl hne
  | @act i f k hi => exact ⟨i, _, (inside_iff h).1 ⟨_, hi⟩, hi⟩
  | unlock => exact absurd rfl hne

/-! ## Serial runs -/

/-- A critical section that returns takes its steps one after the other. -/
theorem steps_of_run {r : Resume σ (T.Own i)} {own : T.Own i} {s : σ}
    (hi : S.place i = .inside r) (h : StateT.run r.run S.shared = some (own, s)) :
    Relation.ReflTransGen Step S { S with
      place := Function.update S.place i (.inside (.ret own))
      shared := s } := by
  induction r generalizing S with
  | ret a =>
    cases h
    rw [← hi, Function.update_eq_self]
  | abort => cases h
  | act f k ih =>
    refine .head (.act hi) ?_
    have hrest := ih S.shared (S := { S with
      place := Function.update S.place i (.inside (k S.shared))
      shared := f S.shared }) (Function.update_self _ _ _) h
    simp only [Function.update_idem] at hrest
    exact hrest

/-- An update of the data of a thread is one of its place. -/
theorem toState_update (Z : T.Serial) (own : T.Own i) :
    Function.update Z.toState.place i (.outside own) =
      fun j => .outside (Function.update Z.own i own j) := by
  funext j
  by_cases hij : j = i
  · subst hij
    simp only [Function.update_self]
  · simp only [Function.update_of_ne hij]
    rfl

/-- A serial step is a run of one thread. -/
theorem SerialStep.realised {Z' : T.Serial} (h : SerialStep Z Z') :
    Relation.ReflTransGen Step Z.toState Z'.toState := by
  cases h with
  | @move i own' hmove =>
    refine .single ?_
    have hstep : Step Z.toState _ := .move (i := i) rfl hmove
    rw [toState_update] at hstep
    exact hstep
  | @critical i r own' s hcritical hrun =>
    refine .head (.lock (i := i) rfl hcritical rfl) ?_
    refine (steps_of_run (Function.update_self _ _ _) hrun).tail ?_
    have hret : Function.update (Function.update Z.toState.place i (.inside r)) i
        (.inside (.ret own')) i = .inside (.ret own') := Function.update_self _ _ _
    have hstep := Step.unlock (T := T) (S := {
      place := Function.update (Function.update Z.toState.place i (.inside r)) i
        (.inside (.ret own'))
      shared := s
      holder := some i }) hret
    simp only [Function.update_idem, toState_update] at hstep
    simp only [Function.update_idem]
    exact hstep

/-- **Every serial run is a run of the threads**, in which each takes the lock for a whole critical
section. -/
theorem Serial.realised {Z' : T.Serial} (h : Relation.ReflTransGen SerialStep Z Z') :
    Relation.ReflTransGen Step Z.toState Z'.toState := by
  induction h with
  | refl => exact .refl
  | tail _ hstep ih => exact ih.trans hstep.realised

end

end Threads
