import CrewSync.Lib.Prog
import Mathlib.Logic.Function.Basic

/-! Threads: programs over one shared state that take turns, a statement at a time. A protocol says what a
    thread may do: it is a machine of phases, and every statement of the program is one of its steps. -/

namespace Threads
variable {ι ℓ σ α β γ : Type}

/-- The shared state, and the threads with what each of them runs. -/
structure Conf (ι ℓ σ α : Type) where
  shared : σ
  threads : List (ι × Prog ℓ σ α)

namespace Conf

def spawn (c : Conf ι ℓ σ α) (who : ι) (p : Prog ℓ σ α) : Conf ι ℓ σ α :=
  { c with threads := c.threads ++ [(who, p)] }

/-- The thread executes its next statement, unless it has returned or the guard blocks it. -/
def sched (c : Conf ι ℓ σ α) (i : Nat) : Conf ι ℓ σ α :=
  match c.threads[i]? with
  | some (who, .act _ ready eff next) =>
    if ready c.shared then ⟨eff c.shared, c.threads.set i (who, next c.shared)⟩ else c
  | _ => c

/-- The label of the statement that the thread executes next. -/
def next? (c : Conf ι ℓ σ α) (i : Nat) : Option ℓ := c.threads[i]?.bind fun t => t.2.next?

/-- What the thread was started for. -/
def who? (c : Conf ι ℓ σ α) (i : Nat) : Option ι := c.threads[i]?.map Prod.fst

/-- Every thread has returned. -/
def Finished (c : Conf ι ℓ σ α) : Prop := ∀ t ∈ c.threads, t.2.result?.isSome

variable {c : Conf ι ℓ σ α} {i : Nat} {who : ι}

theorem sched_act {l : ℓ} {ready : σ → Bool} {eff : σ → σ} {next : σ → Prog ℓ σ α}
    (h : c.threads[i]? = some (who, .act l ready eff next)) (hready : ready c.shared = true) :
    c.sched i = ⟨eff c.shared, c.threads.set i (who, next c.shared)⟩ := by
  simp only [sched, h, hready, if_true]

/-- What a turn does: nothing, or the next statement of the thread. -/
theorem sched_cases (c : Conf ι ℓ σ α) (i : Nat) :
    c.sched i = c ∨ ∃ who l ready eff next, c.threads[i]? = some (who, .act l ready eff next) ∧
      ready c.shared = true ∧ c.sched i = ⟨eff c.shared, c.threads.set i (who, next c.shared)⟩ := by
  cases h : c.threads[i]? with
  | none => exact .inl (by simp only [sched, h])
  | some t =>
    obtain ⟨who, p⟩ := t
    cases p with
    | ret a => exact .inl (by simp only [sched, h])
    | act l ready eff next =>
      cases hready : ready c.shared with
      | false => exact .inl (by simp [sched, h, hready])
      | true => exact .inr ⟨who, l, ready, eff, next, rfl, hready, sched_act h hready⟩

@[simp] theorem length_sched (c : Conf ι ℓ σ α) (i : Nat) : (c.sched i).threads.length = c.threads.length := by
  rcases c.sched_cases i with heq | ⟨_, _, _, _, _, _, _, heq⟩ <;> simp [heq]

/-- A turn makes no thread and changes none but its own. -/
theorem sched_threads {j : Nat} {p : Prog ℓ σ α} (h : (c.sched i).threads[j]? = some (who, p)) :
    ∃ q, c.threads[j]? = some (who, q) ∧ (i ≠ j → q = p) := by
  rcases c.sched_cases i with heq | ⟨who', l, ready, eff, next, hi, -, heq⟩
  · exact ⟨p, heq ▸ h, fun _ => rfl⟩
  · rw [heq] at h
    by_cases hij : i = j
    · subst hij
      simp only [List.getElem?_set_self (List.getElem?_eq_some_iff.1 hi).1, Option.some.injEq, Prod.mk.injEq] at h
      exact ⟨_, h.1 ▸ hi, fun hne => absurd rfl hne⟩
    · exact ⟨p, by rwa [List.getElem?_set_ne hij] at h, fun _ => rfl⟩

theorem sched_threads_ne {j : Nat} (h : i ≠ j) : (c.sched i).threads[j]? = c.threads[j]? := by
  rcases c.sched_cases i with heq | ⟨_, _, _, _, _, _, _, heq⟩
  · rw [heq]
  · rw [heq]
    exact List.getElem?_set_ne h

theorem exists_of_who? (h : c.who? i = some who) : ∃ p, c.threads[i]? = some (who, p) := by
  obtain ⟨⟨who, p⟩, ht, rfl⟩ := Option.map_eq_some_iff.1 h
  exact ⟨p, ht⟩

theorem who?_of {p : Prog ℓ σ α} (h : c.threads[i]? = some (who, p)) : c.who? i = some who := by
  simp only [who?, h, Option.map_some]

@[simp] theorem who?_sched (c : Conf ι ℓ σ α) (i j : Nat) : (c.sched i).who? j = c.who? j := by
  rcases c.sched_cases i with heq | ⟨who, l, ready, eff, next, hi, -, heq⟩
  · rw [heq]
  · rw [heq]
    by_cases hij : i = j
    · subst hij
      simp only [who?, List.getElem?_set_self (List.getElem?_eq_some_iff.1 hi).1, hi, Option.map_some]
    · simp only [who?, List.getElem?_set_ne hij]

theorem who?_spawn_of_lt {p : Prog ℓ σ α} (h : i < c.threads.length) : (c.spawn who p).who? i = c.who? i := by
  simp only [who?, spawn, List.getElem?_append_left h]

@[simp] theorem who?_spawn_self {p : Prog ℓ σ α} : (c.spawn who p).who? c.threads.length = some who := by
  simp only [who?, spawn, List.getElem?_concat_length, Option.map_some]

theorem spawn_threads {p q : Prog ℓ σ α} {who' : ι} (h : (c.spawn who p).threads[i]? = some (who', q)) :
    c.threads[i]? = some (who', q) ∨ i = c.threads.length ∧ who' = who ∧ q = p := by
  rcases Nat.lt_trichotomy i c.threads.length with hlt | rfl | hgt
  · exact .inl (by rwa [spawn, List.getElem?_append_left hlt] at h)
  · simp only [spawn, List.getElem?_concat_length, Option.some.injEq, Prod.mk.injEq] at h
    exact .inr ⟨rfl, h.1.symm, h.2.symm⟩
  · have := (List.getElem?_eq_some_iff.1 h).1
    simp only [spawn, List.length_append, List.length_singleton] at this
    omega

end Conf

/-! ### Protocols -/

/-- A protocol on phases `γ`. -/
structure Protocol (ℓ σ γ : Type) where
  /-- What a thread in the phase counts on. -/
  sure : γ → σ → Prop
  /-- The guard of a statement. -/
  ready : ℓ → σ → Bool
  /-- A statement, with the phase and the shared state before and after it. -/
  step : γ → ℓ → σ → γ → σ → Prop

namespace Protocol
variable (T : Protocol ℓ σ γ)

/-- From the phase on, every statement of the program is a step of the protocol; when the program returns,
    the answer and the phase have `Q`. -/
def Follows (Q : α → γ → Prop) : Prog ℓ σ α → γ → Prop
  | .ret a, g => Q a g
  | .act l ready eff next, g => ready = T.ready l ∧
      ∀ s, T.sure g s → ready s = true → ∃ g', T.step g l s g' (eff s) ∧ Follows Q (next s) g'

variable {T}

theorem Follows.imp {Q Q' : α → γ → Prop} {p : Prog ℓ σ α} {g : γ} (h : T.Follows Q p g)
    (hQ : ∀ a g, Q a g → Q' a g) : T.Follows Q' p g := by
  induction p generalizing g with
  | ret a => exact hQ a g h
  | act l ready eff next ih =>
    refine ⟨h.1, fun s hs hready => ?_⟩
    obtain ⟨g', hstep, hnext⟩ := h.2 s hs hready
    exact ⟨g', hstep, ih s hnext⟩

theorem Follows.bind {Q : α → γ → Prop} {Q' : β → γ → Prop} {p : Prog ℓ σ α} {f : α → Prog ℓ σ β} {g : γ}
    (h : T.Follows Q p g) (hf : ∀ a g, Q a g → T.Follows Q' (f a) g) : T.Follows Q' (p.bind f) g := by
  induction p generalizing g with
  | ret a => exact hf a g h
  | act l ready eff next ih =>
    refine ⟨h.1, fun s hs hready => ?_⟩
    obtain ⟨g', hstep, hnext⟩ := h.2 s hs hready
    exact ⟨g', hstep, ih s hnext⟩

/-- A protocol that sees less of a phase. -/
theorem Follows.project {δ : Type} {T' : Protocol ℓ σ δ} (view : γ → δ) {Q : α → γ → Prop} {Q' : α → δ → Prop}
    {p : Prog ℓ σ α} {g : γ} (h : T.Follows Q p g) (hready : T'.ready = T.ready)
    (hsure : ∀ g s, T'.sure (view g) s → T.sure g s)
    (hstep : ∀ g l s g' s', T.step g l s g' s' → T'.step (view g) l s (view g') s')
    (hQ : ∀ a g, Q a g → Q' a (view g)) : T'.Follows Q' p (view g) := by
  induction p generalizing g with
  | ret a => exact hQ a g h
  | act l ready eff next ih =>
    refine ⟨by rw [hready]; exact h.1, fun s hs hr => ?_⟩
    obtain ⟨g', hmove, hnext⟩ := h.2 s (hsure g s hs) hr
    exact ⟨view g', hstep _ _ _ _ _ hmove, ih s hnext⟩

end Protocol

/-! ### Threads that follow their protocols -/

/-- Every thread is in its phase of its own protocol. -/
def Obeys (T : Nat → ι → Protocol ℓ σ γ) (Q : α → γ → Prop) (c : Conf ι ℓ σ α) (phase : Nat → γ) : Prop :=
  ∀ i who p, c.threads[i]? = some (who, p) → (T i who).Follows Q p (phase i)

/-- What every thread counts on is so. -/
def Sure (T : Nat → ι → Protocol ℓ σ γ) (c : Conf ι ℓ σ α) (phase : Nat → γ) : Prop :=
  ∀ i who p, c.threads[i]? = some (who, p) → (T i who).sure (phase i) c.shared

namespace Obeys
variable {T : Nat → ι → Protocol ℓ σ γ} {Q : α → γ → Prop} {c : Conf ι ℓ σ α} {phase : Nat → γ}

theorem spawn (h : Obeys T Q c phase) (who : ι) {p : Prog ℓ σ α} {g : γ}
    (hp : (T c.threads.length who).Follows Q p g) :
    Obeys T Q (c.spawn who p) (Function.update phase c.threads.length g) := by
  intro i who' p' hi
  rcases Conf.spawn_threads hi with hi | ⟨rfl, rfl, rfl⟩
  · rw [Function.update_of_ne (Nat.ne_of_lt (List.getElem?_eq_some_iff.1 hi).1)]
    exact h i who' p' hi
  · rwa [Function.update_self]

/-- A turn is a step of the protocol of the thread, and leaves the other threads in their phases. -/
theorem sched (h : Obeys T Q c phase) (hs : Sure T c phase) (i : Nat) :
    c.sched i = c ∨ ∃ who p l g', c.threads[i]? = some (who, p) ∧ p.next? = some l ∧
      (T i who).ready l c.shared = true ∧ (T i who).step (phase i) l c.shared g' (c.sched i).shared ∧
      Obeys T Q (c.sched i) (Function.update phase i g') := by
  rcases c.sched_cases i with heq | ⟨who, l, ready, eff, next, hi, hready, heq⟩
  · exact .inl heq
  obtain ⟨hguard, hstep⟩ := h i who _ hi
  obtain ⟨g', hstep, hnext⟩ := hstep c.shared (hs i who _ hi) hready
  refine .inr ⟨who, _, l, g', hi, rfl, hguard ▸ hready, heq ▸ hstep, ?_⟩
  intro j who' p' hj
  rw [heq] at hj
  by_cases hij : i = j
  · subst hij
    have hlt := (List.getElem?_eq_some_iff.1 hi).1
    simp only [List.getElem?_set_self hlt, Option.some.injEq, Prod.mk.injEq] at hj
    obtain ⟨rfl, rfl⟩ := hj
    rwa [Function.update_self]
  · rw [Function.update_of_ne (Ne.symm hij)]
    exact h j who' p' (by rwa [List.getElem?_set_ne hij] at hj)

end Obeys

/-- The turn of a thread leaves it sure of what its new phase counts on, and the others of what theirs do. -/
theorem Sure.sched {T : Nat → ι → Protocol ℓ σ γ} {c : Conf ι ℓ σ α} {phase : Nat → γ} {i : Nat} {g : γ}
    (h : Sure T c phase)
    (hself : ∀ who p, c.threads[i]? = some (who, p) → (T i who).sure g (c.sched i).shared)
    (hothers : ∀ j who p, j ≠ i → c.threads[j]? = some (who, p) → (T j who).sure (phase j) c.shared →
      (T j who).sure (phase j) (c.sched i).shared) : Sure T (c.sched i) (Function.update phase i g) := by
  intro j who p hj
  obtain ⟨q, hq, -⟩ := Conf.sched_threads hj
  by_cases hij : j = i
  · subst hij
    rw [Function.update_self]
    exact hself who q hq
  · rw [Function.update_of_ne hij]
    exact hothers j who q hij hq (h j who q hq)

end Threads
