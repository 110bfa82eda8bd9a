import ArmSimulator.Lib.Prog

/-!
# Programs that stop with a fault

`Fallible ε σ α` is a program over the state `σ` that returns a result in `α`, or stops with a
fault, one of the values of `ε`, which says what went wrong. A `Prog` is such a program where only
one thing can (`ofProg`), and a `Fallible` of which one asks only whether it returns is a `Prog`
(`toProg`).

`Avoids F m s` says that the run of `m` from `s` does not stop with a fault in `F`. `Meets F R m`
says that no run does, whatever the state, and that the runs that return relate the states before
and after them by `R`. The latter has a rule for each construct, so that it is proved along the
program; what a program does from a given state is followed by the `run_` lemmas.
-/

/-- A program over the state `σ` with a result in `α`, or a fault in `ε`. -/
abbrev Fallible (ε σ α : Type) := StateT σ (Except ε) α

namespace Fallible

variable {ε σ α β : Type}

/-- Stop with the fault. -/
def fault (e : ε) : Fallible ε σ α := fun _ => .error e

/-- Stop with the fault unless `b`. -/
def check (e : ε) (b : Bool) : Fallible ε σ Unit := if b then pure () else fault e

/-- A `Prog`, where `e` is what is wrong if it has no result. -/
def ofProg (e : ε) (m : Prog σ α) : Fallible ε σ α := fun s =>
  match m.run s with
  | some r => .ok r
  | none => .error e

/-- Whether the program returns, and what. -/
def toProg (m : Fallible ε σ α) : Prog σ α := fun s => (m.run s).toOption

/-! ## Runs -/

section
variable {m : Fallible ε σ α} {f : α → Fallible ε σ β} {s s' s'' : σ} {a : α} {b : β} {e : ε}

/-- `get` reads the state. -/
theorem run_get_bind {f : σ → Fallible ε σ β} : (get >>= f).run s = (f s).run s := rfl

/-- What comes after a program that returns goes on from its state. -/
theorem run_bind_ok (h : m.run s = .ok (a, s')) : (m >>= f).run s = (f a).run s' := by
  rw [StateT.run_bind, h]
  rfl

/-- What comes after a program that faults is not run. -/
theorem run_bind_error (h : m.run s = .error e) : (m >>= f).run s = .error e := by
  rw [StateT.run_bind, h]
  rfl

/-- A sequence that stops with a fault does so in the first program or in the second. -/
theorem run_bind_eq_error : (m >>= f).run s = .error e ↔
    m.run s = .error e ∨ ∃ a s', m.run s = .ok (a, s') ∧ (f a).run s' = .error e := by
  cases h : m.run s with
  | error e' =>
    rw [run_bind_error h]
    simp
  | ok r =>
    rw [run_bind_ok h]
    constructor
    · exact fun he => .inr ⟨r.1, r.2, rfl, he⟩
    · rintro (he | ⟨a, s', he, hf⟩)
      · cases he
      · cases he
        exact hf

/-- A sequence that returns does so in both programs. -/
theorem run_bind_eq_ok : (m >>= f).run s = .ok (b, s'') ↔
    ∃ a s', m.run s = .ok (a, s') ∧ (f a).run s' = .ok (b, s'') := by
  cases h : m.run s with
  | error e' =>
    rw [run_bind_error h]
    simp
  | ok r =>
    rw [run_bind_ok h]
    constructor
    · exact fun hr => ⟨r.1, r.2, rfl, hr⟩
    · rintro ⟨a, s', hr, hf⟩
      cases hr
      exact hf

/-- A check that holds does nothing. -/
theorem run_check {b : Bool} (h : b = true) :
    (check e b : Fallible ε σ Unit).run s = .ok ((), s) := by
  rw [check, if_pos h]
  rfl

/-- A check that does not hold is a fault. -/
theorem run_check_error {b : Bool} (h : b = false) :
    (check e b : Fallible ε σ Unit).run s = .error e := by
  rw [check, h]
  rfl

variable {p : Prog σ α}

/-- A program that returns does so as one that may fault. -/
theorem run_ofProg (h : p.run s = some (a, s')) : (ofProg e p).run s = .ok (a, s') := by
  show (match p.run s with | some r => Except.ok r | none => .error e) = _
  rw [h]

/-- A program that fails does so with the fault given for it. -/
theorem run_ofProg_error (h : p.run s = none) : (ofProg e p).run s = .error e := by
  show (match p.run s with | some r => Except.ok r | none => .error e) = _
  rw [h]

/-- What returns as a program that may fault returns as a program. -/
theorem run_ofProg_eq_ok {r : α × σ} (h : (ofProg e p).run s = .ok r) : p.run s = some r := by
  cases hp : p.run s with
  | none =>
    rw [run_ofProg_error hp] at h
    cases h
  | some r' =>
    rw [run_ofProg hp] at h
    cases h
    rfl

/-- A run with the fault forgotten. -/
theorem run_toProg : (toProg m).run s = (m.run s).toOption := rfl

/-- What returns with the fault forgotten returns. -/
theorem run_toProg_eq_some {r : α × σ} (h : (toProg m).run s = some r) : m.run s = .ok r := by
  rw [run_toProg] at h
  cases hr : m.run s with
  | ok r' =>
    rw [hr] at h
    exact congrArg Except.ok (Option.some.inj h)
  | error e =>
    rw [hr] at h
    cases h

/-- Programs with the same run have the same run as ones that may fault. -/
theorem run_ofProg_congr {q : Prog σ α} (h : p.run s = q.run s) :
    (ofProg e p).run s = (ofProg e q).run s := by
  show (match p.run s with | some r => Except.ok r | none => .error e) = _
  rw [h]
  rfl

/-- Programs one after the other can be given the same fault one by one. -/
theorem ofProg_bind {m : Prog σ α} {f : α → Prog σ β} :
    ofProg e (m >>= f) = ofProg e m >>= fun a => ofProg e (f a) := by
  funext s
  cases hm : m.run s with
  | none =>
    exact (run_ofProg_error (Prog.run_bind_of_none hm)).trans
      (run_bind_error (run_ofProg_error hm)).symm
  | some r =>
    have hrest : (ofProg e (m >>= f)).run s = (ofProg e (f r.1)).run r.2 := by
      show (match (m >>= f).run s with | some r => Except.ok r | none => .error e) = _
      rw [Prog.run_bind_of hm]
      rfl
    exact hrest.trans (run_bind_ok (f := fun a => ofProg e (f a)) (run_ofProg hm)).symm

/-- Forgetting the fault that was given to a program is the program. -/
theorem toProg_ofProg (e : ε) (p : Prog σ α) : toProg (ofProg e p) = p := by
  funext s
  show (match p.run s with | some r => Except.ok r | none => .error e).toOption = p.run s
  cases p.run s with
  | some r => rfl
  | none => rfl

end

/-! ## What the runs do -/

/-- The run of `m` from `s` does not stop with a fault in `F`. -/
def Avoids (F : ε → Prop) (m : Fallible ε σ α) (s : σ) : Prop := ∀ e, m.run s = .error e → ¬ F e

/-- No run of `m` stops with a fault in `F`, and one that returns makes a move of `R`. -/
def Meets (F : ε → Prop) (R : σ → σ → Prop) (m : Fallible ε σ α) : Prop :=
  ∀ s, Avoids F m s ∧ ∀ a s', m.run s = .ok (a, s') → R s s'

section
variable {F : ε → Prop} {R S : σ → σ → Prop} {m n : Fallible ε σ α} {f : α → Fallible ε σ β}
  {s : σ} {e : ε}

/-- A program that returns avoids every fault. -/
theorem Avoids.of_ok {r : α × σ} (h : m.run s = .ok r) : Avoids F m s := by
  intro e he
  rw [h] at he
  cases he

/-- A program that faults avoids the faults other than its own. -/
theorem avoids_of_error (h : m.run s = .error e) : Avoids F m s ↔ ¬ F e := by
  constructor
  · exact fun ha => ha e h
  · intro hF e' he
    rw [h] at he
    cases he
    exact hF

/-- Where the first program returns, the sequence does what the second does. -/
theorem avoids_bind {s' : σ} {a : α} (h : m.run s = .ok (a, s')) :
    Avoids F (m >>= f) s ↔ Avoids F (f a) s' := by
  rw [Avoids, Avoids, run_bind_ok h]

/-- A program that meets its contract avoids the faults that the contract excludes. -/
theorem Meets.avoids (h : Meets F R m) (s : σ) : Avoids F m s := (h s).1

/-- The relation of a contract can be weakened. -/
theorem Meets.mono (h : Meets F R m) (hRS : ∀ s s', R s s' → S s s') : Meets F S m :=
  fun s => ⟨(h s).1, fun a s' hr => hRS s s' ((h s).2 a s' hr)⟩

/-- A program that always returns, with its states related, meets every contract. -/
theorem Meets.of_run (h : ∀ s, ∃ a s', m.run s = .ok (a, s') ∧ R s s') : Meets F R m := by
  intro s
  obtain ⟨a, s', hr, hR⟩ := h s
  refine ⟨Avoids.of_ok hr, fun a' s'' hr' => ?_⟩
  rw [hr] at hr'
  cases hr'
  exact hR

/-- Returning a value meets a contract whose relation is reflexive. -/
theorem Meets.pure (h : ∀ s, R s s) (a : α) : Meets F R (pure a : Fallible ε σ α) :=
  Meets.of_run fun s => ⟨a, s, rfl, h s⟩

/-- A fault meets a contract that does not exclude it. -/
theorem Meets.fault (h : ¬ F e) : Meets F R (fault e : Fallible ε σ α) := by
  refine fun s => ⟨?_, ?_⟩
  · rintro _ ⟨⟩
    exact h
  · rintro _ _ ⟨⟩

/-- Two programs, one after the other; the second is one for a result that the first returns. -/
theorem Meets.bind_of (h : ∀ s s' s'', R s s' → S s' s'' → S s s'') (hm : Meets F R m)
    (hf : ∀ s a s', m.run s = .ok (a, s') → Meets F S (f a)) : Meets F S (m >>= f) := by
  refine fun s => ⟨fun e he => ?_, fun b s'' hb => ?_⟩
  · rcases run_bind_eq_error.1 he with he | ⟨a, s', ha, he⟩
    · exact (hm s).1 e he
    · exact (hf s a s' ha s').1 e he
  · obtain ⟨a, s', ha, hb⟩ := run_bind_eq_ok.1 hb
    exact h s s' s'' ((hm s).2 a s' ha) ((hf s a s' ha s').2 b s'' hb)

/-- One program after another meets the contract of both, where the relations compose. -/
theorem Meets.bind (h : ∀ s s' s'', R s s' → S s' s'' → S s s'') (hm : Meets F R m)
    (hf : ∀ a, Meets F S (f a)) : Meets F S (m >>= f) := hm.bind_of h fun _ a _ _ => hf a

/-- A program that makes a move and goes on as another one. -/
theorem Meets.move (h : ∀ s s' s'', R s s' → S s' s'' → S s s'')
    (hm : ∀ s, ∃ n s', m.run s = n.run s' ∧ R s s' ∧ Meets F S n) : Meets F S m := by
  intro s
  obtain ⟨n, s', hrun, hR, hn⟩ := hm s
  refine ⟨fun e he => (hn s').1 e (hrun ▸ he), fun a s'' ha => ?_⟩
  exact h s s' s'' hR ((hn s').2 a s'' (hrun ▸ ha))

/-- A conditional meets what its branches meet, each under its condition. -/
theorem Meets.ite {c : Prop} [Decidable c] (hm : c → Meets F R m) (hn : ¬ c → Meets F R n) :
    Meets F R (if c then m else n) := by
  by_cases h : c
  · rw [if_pos h]
    exact hm h
  · rw [if_neg h]
    exact hn h

/-- A check that is passed, or whose fault is none of those, meets the contract. -/
theorem Meets.check {b : Bool} (hR : ∀ s, R s s) (h : b = true ∨ ¬ F e) :
    Meets F R (check e b : Fallible ε σ Unit) := by
  cases b with
  | true => exact Meets.pure hR ()
  | false => exact Meets.fault (h.resolve_left Bool.false_ne_true)

/-- A program meets a contract that its runs satisfy and that does not exclude its fault. -/
theorem Meets.ofProg {p : Prog σ α} (h : ¬ F e) (hR : ∀ s a s', p.run s = some (a, s') → R s s') :
    Meets F R (ofProg e p) := by
  intro s
  cases hr : p.run s with
  | some r =>
    refine ⟨Avoids.of_ok (run_ofProg hr), fun a s' ha => ?_⟩
    rw [run_ofProg hr] at ha
    cases ha
    exact hR s _ _ hr
  | none =>
    refine ⟨(avoids_of_error (run_ofProg_error hr)).2 h, fun a s' ha => ?_⟩
    rw [run_ofProg_error hr] at ha
    cases ha

/-- A loop, the moves of whose rounds make one move. -/
theorem Meets.foldlM {f : β → α → Fallible ε σ β} (hR : ∀ s, R s s)
    (h : ∀ s s' s'', R s s' → R s' s'' → R s s'') (hf : ∀ b a, Meets F R (f b a)) (l : List α)
    (b : β) : Meets F R (l.foldlM f b) := by
  induction l generalizing b with
  | nil => exact Meets.pure hR b
  | cons a l ih =>
    rw [List.foldlM_cons]
    exact (hf b a).bind h ih

end

end Fallible
