import CrewSync.Lib.Runs

/-! What a run brings out, event by event. Where it is brought out into another machine, the run drives a run of that
    machine. -/

namespace Runs
variable {σ τ ε β : Type} {next : σ → ε → σ} {next' : τ → β → τ}

/-- What the events of a run bring out, in their order. -/
def outputs (next : σ → ε → σ) (out : σ → ε → List β) : σ → List ε → List β
  | _, [] => []
  | s, e :: es => out s e ++ outputs next out (next s e) es

theorem mem_outputs {out : σ → ε → List β} {s : σ} {es : List ε} {b : β} :
    b ∈ outputs next out s es ↔ ∃ es₁ e es₂, es = es₁ ++ e :: es₂ ∧ b ∈ out (after next s es₁) e := by
  induction es generalizing s with
  | nil => simp [outputs]
  | cons e es ih =>
    rw [outputs, List.mem_append, ih]
    constructor
    · rintro (h | ⟨es₁, e', es₂, rfl, h⟩)
      · exact ⟨[], e, es, rfl, h⟩
      · exact ⟨e :: es₁, e', es₂, rfl, h⟩
    · rintro ⟨es₁, e', es₂, heq, h⟩
      rcases List.cons_eq_append_iff.1 heq with ⟨rfl, heq⟩ | ⟨es₁, rfl, rfl⟩
      · cases heq
        exact .inl h
      · exact .inr ⟨es₁, e', es₂, rfl, h⟩

/-- If every event moves the other machine by what it brings out, and that has `Q`, then so does every run. -/
theorem drives {out : σ → ε → List β} {f : σ → τ} {Q : τ → β → Prop}
    (hnext : ∀ s e, f (next s e) = after next' (f s) (out s e)) (hQ : ∀ s e, Along next' Q (f s) (out s e)) (s : σ)
    (es : List ε) : f (after next s es) = after next' (f s) (outputs next out s es) ∧
      Along next' Q (f s) (outputs next out s es) := by
  induction es generalizing s with
  | nil => exact ⟨rfl, trivial⟩
  | cons e es ih =>
    obtain ⟨hsame, halong⟩ := ih (next s e)
    rw [hnext] at hsame halong
    constructor
    · rw [outputs, after_append]
      exact hsame
    · exact along_append.2 ⟨hQ s e, halong⟩

end Runs
