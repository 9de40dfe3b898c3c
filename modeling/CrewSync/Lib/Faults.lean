import CrewSync.Lib.Threads

/-! Programs one of whose statements fails. The statement has no effect, and the program executes no further one; so
    it leaves the state that the statement found. -/

namespace Prog
variable {ℓ σ α β : Type}

/-- The program whose statement number `n` fails, which ends it with `a`. -/
def failing : Prog ℓ σ α → α → Nat → Prog ℓ σ α
  | .ret b, _, _ => .ret b
  | .act l ready _ _, a, 0 => .act l ready id fun _ => .ret a
  | .act l ready eff next, a, n + 1 => .act l ready eff fun s => (next s).failing a n

/-- The states that the statements of the program find, one after the other. -/
def trail : Prog ℓ σ α → σ → List σ
  | .ret _, _ => []
  | .act _ _ eff next, s => s :: (next s).trail (eff s)

theorem run_failing (p : Prog ℓ σ α) (a : α) (n : Nat) (s : σ) :
    (p.failing a n).run s = ((p.trail s)[n]?.map fun s' => (a, s')).getD (p.run s) := by
  induction p generalizing n s with
  | ret b => rfl
  | act l ready eff next ih =>
    cases n with
    | zero => rfl
    | succ n => exact ih s n (eff s)

theorem trail_bind (p : Prog ℓ σ α) (f : α → Prog ℓ σ β) (s : σ) :
    (p.bind f).trail s = p.trail s ++ (f (p.run s).1).trail (p.run s).2 := by
  induction p generalizing s with
  | ret a => rfl
  | act l ready eff next ih => exact congrArg (s :: ·) (ih s (eff s))

end Prog

namespace Threads.Protocol.Follows
variable {ℓ σ α γ : Type} {T : Protocol ℓ σ γ} {Q : α → γ → Prop} {p : Prog ℓ σ α} {g : γ} {s : σ}

/-- A program that follows a protocol without guards, alone: every statement finds a state that the thread is sure of,
    if a step leaves it sure. -/
theorem trail (h : T.Follows Q p g) (hready : ∀ l s, T.ready l s = true)
    (hstep : ∀ g l s g' s', T.sure g s → T.step g l s g' s' → T.sure g' s') (hs : T.sure g s) :
    ∀ s' ∈ p.trail s, ∃ g', T.sure g' s' := by
  induction p generalizing g s with
  | ret a => exact fun s' hs' => by cases hs'
  | act l ready eff next ih =>
    intro s' hs'
    rcases List.mem_cons.1 hs' with rfl | hs'
    · exact ⟨g, hs⟩
    · obtain ⟨hguard, hnext⟩ := h
      obtain ⟨g', hmove, hrest⟩ := hnext s hs (hguard ▸ hready l s)
      exact ih s hrest (hstep g l s g' (eff s) hs hmove) s' hs'

end Threads.Protocol.Follows
