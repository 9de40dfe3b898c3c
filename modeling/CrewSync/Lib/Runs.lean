import Mathlib.Data.List.Infix

/-! Runs of a machine whose events are total functions on its states. A run is the list of its events; a
    condition on a run is a condition on each event and on the state that it finds. -/

namespace Runs
variable {σ ε : Type} {next : σ → ε → σ}

/-- The state after the events, the first one first. -/
def after (next : σ → ε → σ) (s : σ) (es : List ε) : σ := es.foldl next s

/-- Every event of the run, with the state that it finds, has `Q`. -/
def Along (next : σ → ε → σ) (Q : σ → ε → Prop) : σ → List ε → Prop
  | _, [] => True
  | s, e :: es => Q s e ∧ Along next Q (next s e) es

instance decidableAlong {Q : σ → ε → Prop} [∀ s e, Decidable (Q s e)] :
    ∀ (s : σ) (es : List ε), Decidable (Along next Q s es)
  | _, [] => isTrue trivial
  | s, e :: es => @instDecidableAnd _ _ _ (decidableAlong (next s e) es)

/-- Some event of the run, with the state that it finds, has `P`. -/
def Sometime (next : σ → ε → σ) (P : σ → ε → Prop) : σ → List ε → Prop
  | _, [] => False
  | s, e :: es => P s e ∨ Sometime next P (next s e) es

instance decidableSometime {P : σ → ε → Prop} [∀ s e, Decidable (P s e)] :
    ∀ (s : σ) (es : List ε), Decidable (Sometime next P s es)
  | _, [] => isFalse id
  | s, e :: es => @instDecidableOr _ _ _ (decidableSometime (next s e) es)

@[simp] theorem after_nil (s : σ) : after next s [] = s := rfl

@[simp] theorem after_cons (s : σ) (e : ε) (es : List ε) : after next s (e :: es) = after next (next s e) es := rfl

@[simp] theorem after_append (s : σ) (es es' : List ε) :
    after next s (es ++ es') = after next (after next s es) es' :=
  List.foldl_append

theorem along_append {Q : σ → ε → Prop} {s : σ} {es es' : List ε} :
    Along next Q s (es ++ es') ↔ Along next Q s es ∧ Along next Q (after next s es) es' := by
  induction es generalizing s with
  | nil => simp [Along]
  | cons e es ih => simp [Along, ih, and_assoc]

theorem Along.imp {Q Q' : σ → ε → Prop} {s : σ} {es : List ε} (h : Along next Q s es)
    (hQ : ∀ s e, Q s e → Q' s e) : Along next Q' s es := by
  induction es generalizing s with
  | nil => trivial
  | cons e es ih => exact ⟨hQ _ _ h.1, ih h.2⟩

theorem Along.and {Q Q' : σ → ε → Prop} {s : σ} {es : List ε} (h : Along next Q s es) (h' : Along next Q' s es) :
    Along next (fun s e => Q s e ∧ Q' s e) s es := by
  induction es generalizing s with
  | nil => trivial
  | cons e es ih => exact ⟨⟨h.1, h'.1⟩, ih h.2 h'.2⟩

/-- An invariant that the events with `Q` keep, and that makes each of them have `Q'`. -/
theorem Along.strengthen {Q Q' : σ → ε → Prop} {I : σ → Prop} {s : σ} {es : List ε} (h : Along next Q s es)
    (h₀ : I s) (hstep : ∀ s e, Q s e → I s → Q' s e ∧ I (next s e)) : Along next Q' s es := by
  induction es generalizing s with
  | nil => trivial
  | cons e es ih =>
    obtain ⟨hq, hi⟩ := hstep s e h.1 h₀
    exact ⟨hq, ih h.2 hi⟩

/-- What holds at the start and is kept by every event that has `Q` holds at the end of the run. -/
theorem Along.invariant {Q : σ → ε → Prop} {I : σ → Prop} {s : σ} {es : List ε} (h : Along next Q s es)
    (h₀ : I s) (hstep : ∀ s e, Q s e → I s → I (next s e)) : I (after next s es) := by
  induction es generalizing s with
  | nil => exact h₀
  | cons e es ih => exact ih h.2 (hstep s e h.1 h₀)

/-- What an event with `P` brings about, and every event that has `Q` then keeps, holds at the end of a run
    in which `P` occurs; `I` is an invariant that helps. -/
theorem Along.since {Q P : σ → ε → Prop} {I J : σ → Prop} {s : σ} {es : List ε} (h : Along next Q s es)
    (hP : Sometime next P s es) (h₀ : I s) (hI : ∀ s e, Q s e → I s → I (next s e))
    (hbegin : ∀ s e, Q s e → I s → P s e → J (next s e)) (hstep : ∀ s e, Q s e → I s → J s → J (next s e)) :
    J (after next s es) := by
  induction es generalizing s with
  | nil => exact hP.elim
  | cons e es ih =>
    obtain hp | hP := hP
    · have := Along.invariant (I := fun s => I s ∧ J s) h.2 ⟨hI _ _ h.1 h₀, hbegin _ _ h.1 h₀ hp⟩
        fun s e hq hij => ⟨hI _ _ hq hij.1, hstep _ _ hq hij.1 hij.2⟩
      exact this.2
    · exact ih h.2 hP (hI _ _ h.1 h₀)

/-- What holds at the start, and is kept by exactly the events with `Q`, holds throughout the runs in which every event
    has `Q`; `I` is an invariant that helps. -/
theorem along_iff {Q : σ → ε → Prop} {I J : σ → Prop} {s : σ} {es : List ε} (h₀ : I s) (hJ : J s)
    (hI : ∀ e ∈ es, ∀ s, I s → I (next s e)) (hstep : ∀ e ∈ es, ∀ s, I s → J s → (J (next s e) ↔ Q s e)) :
    (∀ es', es' <+: es → J (after next s es')) ↔ Along next Q s es := by
  induction es generalizing s with
  | nil =>
    refine iff_of_true (fun es' h => ?_) trivial
    rw [List.prefix_nil.1 h]
    exact hJ
  | cons e es ih =>
    have hih := fun hJ' => ih (hI e List.mem_cons_self s h₀) hJ' (fun e' he => hI e' (List.mem_cons_of_mem _ he))
      fun e' he => hstep e' (List.mem_cons_of_mem _ he)
    constructor
    · intro h
      have hJ' : J (next s e) := h [e] (List.prefix_append [e] es)
      exact ⟨(hstep e List.mem_cons_self s h₀ hJ).1 hJ', (hih hJ').1 fun es' hes' => h (e :: es') (List.cons_prefix_cons.2 ⟨rfl, hes'⟩)⟩
    · rintro ⟨hQ, hrest⟩ es' hes'
      have hJ' : J (next s e) := (hstep e List.mem_cons_self s h₀ hJ).2 hQ
      rcases List.prefix_cons_iff.1 hes' with rfl | ⟨es'', rfl, hes''⟩
      · exact hJ
      · exact (hih hJ').2 hrest es'' hes''

/-- The same for what every event keeps. -/
theorem invariant {I : σ → Prop} (hstep : ∀ s e, I s → I (next s e)) {s : σ} (h₀ : I s) (es : List ε) :
    I (after next s es) := by
  induction es generalizing s with
  | nil => exact h₀
  | cons e es ih => exact ih (hstep s e h₀)

/-- Some event of the run has `P`, and every state from then on has `J`. -/
def Since (next : σ → ε → σ) (P : σ → ε → Prop) (J : σ → Prop) (s : σ) (es : List ε) : Prop :=
  ∃ es₁ e es₂, es = es₁ ++ e :: es₂ ∧ P (after next s es₁) e ∧ ∀ es', es' <+: es₂ → J (after next s (es₁ ++ e :: es'))

theorem Since.last {P : σ → ε → Prop} {J : σ → Prop} {s : σ} {es : List ε} (h : Since next P J s es) :
    J (after next s es) := by
  obtain ⟨es₁, e, es₂, rfl, -, hJ⟩ := h
  exact hJ es₂ (List.prefix_refl es₂)

theorem since_concat {P : σ → ε → Prop} {J : σ → Prop} {s : σ} {es : List ε} {e : ε} :
    Since next P J s (es ++ [e]) ↔ J (after next s (es ++ [e])) ∧ (P (after next s es) e ∨ Since next P J s es) := by
  constructor
  · intro h
    refine ⟨h.last, ?_⟩
    obtain ⟨es₁, e', es₂, heq, hP, hJ⟩ := h
    rcases List.eq_nil_or_concat es₂ with rfl | ⟨es₂, last, rfl⟩
    · obtain ⟨rfl, hlast⟩ := List.append_inj' heq rfl
      exact .inl (List.singleton_inj.1 hlast ▸ hP)
    · rw [List.concat_eq_append, ← List.cons_append, ← List.append_assoc] at heq
      obtain ⟨rfl, -⟩ := List.append_inj' heq rfl
      exact .inr ⟨es₁, e', es₂, rfl, hP, fun es' h => hJ es' (h.trans (by simp))⟩
  · rintro ⟨hlast, hP | ⟨es₁, e', es₂, rfl, hP, hJ⟩⟩
    · refine ⟨es, e, [], rfl, hP, fun es' h => ?_⟩
      rwa [List.prefix_nil.1 h]
    · refine ⟨es₁, e', es₂ ++ [e], by simp, hP, fun es' h => ?_⟩
      rcases List.prefix_concat_iff.1 h with rfl | h
      · simpa using hlast
      · exact hJ es' h

end Runs
