/-! Programs that talk to a shared state one statement at a time. The same program runs alone, from
    start to end (`Prog.run`), or statement by statement among others (`CrewSync/Lib/Threads.lean`). -/

/-- A call in progress: it has returned, or it waits to execute one statement. A statement has a label,
    a guard that blocks it, an effect on the shared state, and a rest that depends on the state the
    statement found. -/
inductive Prog (ℓ σ α : Type) where
  | ret (a : α)
  | act (label : ℓ) (ready : σ → Bool) (eff : σ → σ) (next : σ → Prog ℓ σ α)

namespace Prog
variable {ℓ σ α β γ : Type}

def bind : Prog ℓ σ α → (α → Prog ℓ σ β) → Prog ℓ σ β
  | .ret a, f => f a
  | .act l r e k, f => .act l r e fun s => (k s).bind f

instance : Monad (Prog ℓ σ) where
  pure := .ret
  bind := bind

/-- The whole program at once, with nothing in between. -/
def run : Prog ℓ σ α → σ → α × σ
  | .ret a, s => (a, s)
  | .act _ _ e k, s => (k s).run (e s)

/-- The label of the statement that comes next. -/
def next? : Prog ℓ σ α → Option ℓ
  | .ret _ => none
  | .act l _ _ _ => some l

/-- What the program returned, once it has. -/
def result? : Prog ℓ σ α → Option α
  | .ret a => some a
  | .act _ _ _ _ => none

theorem bind_ret (p : Prog ℓ σ α) : p.bind .ret = p := by
  induction p with
  | ret a => rfl
  | act l r e k ih => simp only [bind, ih]

theorem bind_assoc (p : Prog ℓ σ α) (f : α → Prog ℓ σ β) (g : β → Prog ℓ σ γ) :
    (p.bind f).bind g = p.bind fun a => (f a).bind g := by
  induction p with
  | ret a => rfl
  | act l r e k ih => simp only [bind, ih]

instance : LawfulMonad (Prog ℓ σ) :=
  LawfulMonad.mk' _ bind_ret (fun _ _ => rfl) bind_assoc

theorem run_bind (p : Prog ℓ σ α) (f : α → Prog ℓ σ β) (s : σ) :
    (p.bind f).run s = (f (p.run s).1).run (p.run s).2 := by
  induction p generalizing s with
  | ret a => rfl
  | act l r e k ih => exact ih s (e s)

end Prog
