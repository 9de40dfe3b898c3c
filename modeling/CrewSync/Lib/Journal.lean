import Mathlib.Logic.Function.Basic

/-! Journals written after the fact: an actor changes an entry, and records the change by a later step. Once nobody owes
    a record of an entry, the journal says what the entry is if and only if whoever recorded last found the entry as it
    had left it. -/

namespace Journal
variable {ι κ σ : Type}

/-- The entries, what the journal says of each, and which change each actor still has to record. -/
@[ext] structure Book (ι κ σ : Type) where
  actual : κ → Option σ
  recorded : κ → Option σ
  owed : ι → Option (κ × σ)

inductive Entry (ι κ σ : Type) where
  | skip
  | change (i : ι) (k : κ) (v : σ)
  /-- The actor records what it owes. -/
  | record (i : ι)

namespace Book

def next [DecidableEq ι] [DecidableEq κ] (b : Book ι κ σ) : Entry ι κ σ → Book ι κ σ
  | .skip => b
  | .change i k v =>
    { b with actual := Function.update b.actual k (some v), owed := Function.update b.owed i (some (k, v)) }
  | .record i =>
    match b.owed i with
    | some (k, v) => { b with recorded := Function.update b.recorded k (some v), owed := Function.update b.owed i none }
    | none => b

/-- The actor has changed the entry, and not recorded that. -/
def Owes (b : Book ι κ σ) (i : ι) (k : κ) : Prop := ∃ v, b.owed i = some (k, v)

/-- What the journal says of an entry that nobody owes a record of is so. -/
def Faithful (b : Book ι κ σ) : Prop := ∀ k, (∀ i, ¬ b.Owes i k) → b.recorded k = b.actual k

/-- An actor records one change before it makes another. -/
def Allows (b : Book ι κ σ) : Entry ι κ σ → Prop
  | .change i _ _ => b.owed i = none
  | _ => True

/-- Whoever records a change finds the entry as it had left it, or leaves a later record of the entry to somebody else. -/
def Timely (b : Book ι κ σ) : Entry ι κ σ → Prop
  | .record i => ∀ k v, b.owed i = some (k, v) → b.actual k = some v ∨ ∃ j, j ≠ i ∧ b.Owes j k
  | _ => True

variable {b : Book ι κ σ}

theorem owes_iff {i : ι} {k k' : κ} {v : σ} (h : b.owed i = some (k, v)) : b.Owes i k' ↔ k = k' := by
  simp only [Owes, h, Option.some.injEq, Prod.mk.injEq]
  constructor
  · rintro ⟨w, hk, -⟩
    exact hk
  · rintro rfl
    exact ⟨v, rfl, rfl⟩

variable [DecidableEq ι] [DecidableEq κ]

theorem faithful_change (h : b.Faithful) {i : ι} (hi : b.owed i = none) (k : κ) (v : σ) :
    (b.next (.change i k v)).Faithful := by
  intro k' hfree
  have hne : k' ≠ k := by
    rintro rfl
    exact hfree i ⟨v, Function.update_self ..⟩
  simp only [next, Function.update_of_ne hne]
  refine h k' fun j hj => ?_
  have hji : j ≠ i := by
    rintro rfl
    obtain ⟨w, hw⟩ := hj
    rw [hi] at hw
    cases hw
  obtain ⟨w, hw⟩ := hj
  exact hfree j ⟨w, (Function.update_of_ne hji ..).trans hw⟩

theorem faithful_record (h : b.Faithful) {i : ι} {k : κ} {v : σ} (hi : b.owed i = some (k, v)) :
    (b.next (.record i)).Faithful ↔ b.actual k = some v ∨ ∃ j, j ≠ i ∧ b.Owes j k := by
  -- The others owe what they owed.
  have hothers : ∀ j k', (b.next (.record i)).Owes j k' ↔ j ≠ i ∧ b.Owes j k' := by
    intro j k'
    simp only [Owes, next, hi]
    by_cases hji : j = i
    · subst hji
      simp
    · simp [hji]
  have hrecorded : ∀ k', (b.next (.record i)).recorded k' = if k' = k then some v else b.recorded k' := by
    intro k'
    simp only [next, hi, Function.update_apply]
  have hactual : (b.next (.record i)).actual = b.actual := by simp only [next, hi]
  constructor
  · intro hfaithful
    by_cases hlater : ∃ j, j ≠ i ∧ b.Owes j k
    · exact .inr hlater
    · have hsame := hfaithful k fun j hj => hlater ⟨j, (hothers j k).1 hj⟩
      rw [hrecorded, if_pos rfl, hactual] at hsame
      exact .inl hsame.symm
  · intro htimely k' hfree
    rw [hrecorded, hactual]
    by_cases hk : k' = k
    · subst hk
      rw [if_pos rfl]
      rcases htimely with hsame | ⟨j, hji, hj⟩
      · exact hsame.symm
      · exact absurd ((hothers j k').2 ⟨hji, hj⟩) (hfree j)
    · rw [if_neg hk]
      refine h k' fun j hj => ?_
      by_cases hji : j = i
      · rw [hji, owes_iff hi] at hj
        exact hk hj.symm
      · exact hfree j ((hothers j k').2 ⟨hji, hj⟩)

/-- A journal stays faithful exactly at the steps that are timely. -/
theorem faithful_next (h : b.Faithful) {e : Entry ι κ σ} (he : b.Allows e) : (b.next e).Faithful ↔ b.Timely e := by
  cases e with
  | skip => exact iff_of_true h trivial
  | change i k v => exact iff_of_true (faithful_change h he k v) trivial
  | record i =>
    cases hi : b.owed i with
    | none =>
      have hsame : b.next (.record i) = b := by simp only [next, hi]
      rw [hsame]
      exact iff_of_true h fun k v hkv => by rw [hi] at hkv; cases hkv
    | some kv =>
      rw [faithful_record h hi]
      refine ⟨fun htimely k v hkv => ?_, fun htimely => htimely _ _ hi⟩
      rw [hi] at hkv
      cases hkv
      exact htimely

/-! ### Everything is logged -/

/-- The change is logged, or somebody still has to record it. -/
def Covered (b : Book ι κ σ) (log : κ → σ → Prop) (k : κ) (v : σ) : Prop := log k v ∨ ∃ i, b.owed i = some (k, v)

/-- What is covered stays covered, if the log takes what is recorded and loses nothing. -/
theorem covered_next {log log' : κ → σ → Prop} {e : Entry ι κ σ} (he : b.Allows e) (hlog : ∀ k v, log k v → log' k v)
    (hrecord : ∀ i k v, e = .record i → b.owed i = some (k, v) → log' k v) {k : κ} {v : σ} (h : b.Covered log k v) :
    (b.next e).Covered log' k v := by
  rcases h with h | ⟨i, hi⟩
  · exact .inl (hlog k v h)
  cases e with
  | skip => exact .inr ⟨i, hi⟩
  | change j k' v' =>
    have hij : i ≠ j := by
      rintro rfl
      rw [show b.owed i = none from he] at hi
      cases hi
    exact .inr ⟨i, (Function.update_of_ne hij ..).trans hi⟩
  | record j =>
    by_cases hij : i = j
    · subst hij
      exact .inl (hrecord i k v rfl hi)
    · refine .inr ⟨i, ?_⟩
      simp only [next]
      split
      · exact (Function.update_of_ne hij ..).trans hi
      · exact hi

/-- Every entry is covered, as it is. -/
def Covers (b : Book ι κ σ) (log : κ → σ → Prop) : Prop := ∀ k v, b.actual k = some v → b.Covered log k v

theorem covers_next {log log' : κ → σ → Prop} {e : Entry ι κ σ} (he : b.Allows e) (hlog : ∀ k v, log k v → log' k v)
    (hrecord : ∀ i k v, e = .record i → b.owed i = some (k, v) → log' k v) (h : b.Covers log) : (b.next e).Covers log' := by
  intro k v hk
  cases e with
  | skip => exact covered_next he hlog hrecord (h k v hk)
  | change j k' v' =>
    by_cases hkk : k = k'
    · subst hkk
      simp only [next, Function.update_self, Option.some.injEq] at hk
      subst hk
      exact .inr ⟨j, Function.update_self ..⟩
    · simp only [next, Function.update_of_ne hkk] at hk
      exact covered_next he hlog hrecord (h k v hk)
  | record j =>
    refine covered_next he hlog hrecord (h k v ?_)
    simp only [next] at hk
    split at hk
    · exact hk
    · exact hk

end Book
end Journal
