import ArmSimulator.Lib.Prog

/-!
# Programs as the steps they take

A `Prog` says what a program does that nothing interrupts. `Resume σ α` says which atomic steps it
takes to do so: between two of them another program may change the state, and then it goes on with
the state it finds. A program of either kind can be sequenced (`bind`), and `run` forgets the steps.
-/

/-- A program over the state `σ` with a result in `α`, as the steps it takes. -/
inductive Resume (σ α : Type) where
  /-- It has returned. -/
  | ret (a : α)
  /-- An assertion has failed. -/
  | abort
  /-- It changes the state by `f`, and goes on as the state that it found tells. -/
  | act (f : σ → σ) (k : σ → Resume σ α)

namespace Resume

variable {σ α β : Type}

/-- What the program does if nothing happens between its steps. -/
def run : Resume σ α → Prog σ α
  | ret a => pure a
  | abort => failure
  | act f k => fun s => run (k s) (f s)

/-- One program after the other. -/
def bind : Resume σ α → (α → Resume σ β) → Resume σ β
  | ret a, g => g a
  | abort, _ => abort
  | act f k, g => act f fun s => bind (k s) g

instance : Monad (Resume σ) where
  pure := ret
  bind := bind

/-- A program that is one step. -/
def lift (m : Prog σ α) : Resume σ α :=
  act (fun s => (m s).elim s Prod.snd) fun s => (m s).elim abort fun r => ret r.1

/-- Returning a value is, run to its end, what it is of a program. -/
@[simp] theorem run_ret (a : α) : (ret a : Resume σ α).run = pure a := rfl

/-- An action, run to its end, changes the state and runs the rest. -/
theorem run_act (f : σ → σ) (k : σ → Resume σ α) (s : σ) :
    StateT.run (act f k).run s = StateT.run (k s).run (f s) := rfl

/-- A program that was lifted, run to its end, is the program. -/
@[simp] theorem run_lift (m : Prog σ α) : (lift m).run = m := by
  funext s
  show run ((m s).elim abort fun r => ret r.1) ((m s).elim s Prod.snd) = m s
  cases m s with
  | none => rfl
  | some r => rfl

/-- Returning a value as the monad does is, run to its end, what it is of a program. -/
@[simp] theorem run_pure (a : α) : (pure a : Resume σ α).run = pure a := rfl

/-- One resumption after another, run to its end, is the one program after the other. -/
@[simp] theorem run_bind (r : Resume σ α) (g : α → Resume σ β) :
    (r >>= g).run = r.run >>= fun a => (g a).run := by
  induction r with
  | ret a => rfl
  | abort => rfl
  | act f k ih =>
    funext s
    exact congrFun (ih s) (f s)

/-- A conditional, run to its end. -/
@[simp] theorem run_ite {c : Prop} [Decidable c] (r r' : Resume σ α) :
    (if c then r else r').run = if c then r.run else r'.run := by
  by_cases h : c
  · rw [if_pos h, if_pos h]
  · rw [if_neg h, if_neg h]

end Resume
