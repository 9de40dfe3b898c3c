import CrewSync.Concurrent
import CrewSync.Exec

/-! Store functions as threads: the rules by which a call follows a protocol statement by statement. -/

namespace CrewSync
open Threads

/-- How a call ends: with an answer, or with an error. -/
def Bus.Ends {α γ : Type} (E : γ → Prop) (Q : α → γ → Prop) : Except BusError α → γ → Prop
  | .ok a, g => Q a g
  | .error _, g => E g

/-- The store function follows the protocol from the phase on, to an answer with `Q` or to an error with `E`. -/
structure Bus.Follows {α γ : Type} (T : Protocol Stmt Pg γ) (E : γ → Prop) (Q : α → γ → Prop) (x : Bus α) (g : γ) :
    Prop where
  run : T.Follows (Bus.Ends E Q) x.run g

namespace Bus.Follows
variable {α β γ : Type} {T : Protocol Stmt Pg γ} {E : γ → Prop} {Q : α → γ → Prop} {g : γ}

theorem pure {a : α} (h : Q a g) : Bus.Follows T E Q (Pure.pure a) g := ⟨h⟩

theorem throw {e : BusError} (h : E g) : Bus.Follows T E Q (MonadExcept.throw e : Bus α) g := ⟨h⟩

theorem check {r : Except BusError α} (hok : ∀ a, r = .ok a → Q a g) (herror : E g) :
    Bus.Follows T E Q (CrewSync.check r) g := by
  cases r with
  | ok a => exact ⟨hok a rfl⟩
  | error e => exact ⟨herror⟩

theorem bind {x : Bus α} {f : α → Bus β} {Q' : β → γ → Prop} (hx : Bus.Follows T E Q x g)
    (hf : ∀ a g, Q a g → Bus.Follows T E Q' (f a) g) : Bus.Follows T E Q' (x >>= f) g :=
  ⟨Protocol.Follows.bind hx.run fun r g h => by
    cases r with
    | ok a => exact (hf a g h).run
    | error e => exact h⟩

theorem throw_bind {e : BusError} {f : α → Bus β} {Q' : β → γ → Prop} (h : E g) :
    Bus.Follows T E Q' ((MonadExcept.throw e : Bus α) >>= f) g := ⟨h⟩

theorem imp {E' : γ → Prop} {Q' : α → γ → Prop} {x : Bus α} (h : Bus.Follows T E Q x g) (hE : ∀ g, E g → E' g)
    (hQ : ∀ a g, Q a g → Q' a g) : Bus.Follows T E' Q' x g :=
  ⟨Protocol.Follows.imp h.run fun r g h => by
    cases r with
    | ok a => exact hQ a g h
    | error e => exact hE g h⟩

theorem map {x : Bus α} {f : α → β} {Q' : β → γ → Prop} (hx : Bus.Follows T E Q x g)
    (hf : ∀ a g, Q a g → Q' (f a) g) : Bus.Follows T E Q' (f <$> x) g := by
  rw [← bind_pure_comp]
  exact hx.bind fun a g h => pure (hf a g h)

theorem ite {c : Prop} [Decidable c] {x y : Bus α} (hx : c → Bus.Follows T E Q x g)
    (hy : ¬ c → Bus.Follows T E Q y g) : Bus.Follows T E Q (if c then x else y) g := by
  split
  · next h => exact hx h
  · next h => exact hy h

theorem attempt {E' : γ → Prop} {x : Bus α} (hx : Bus.Follows T E Q x g) :
    Bus.Follows T E' (Bus.Ends E Q) (CrewSync.attempt x) g :=
  ⟨Protocol.Follows.bind hx.run fun _ _ h => h⟩

theorem select {t : Table} {q : Pg → α} (hready : T.ready (.select t) = fun _ => true)
    (h : ∀ pg, T.sure g pg → ∃ g', T.step g (.select t) pg g' pg ∧ Q (q pg) g') :
    Bus.Follows T E Q (CrewSync.select t q) g :=
  ⟨hready.symm, fun pg hs _ => h pg hs⟩

theorem execute {l : Stmt} {s : Sql α} (hready : T.ready l = fun _ => true)
    (h : ∀ pg, T.sure g pg → ∃ g', T.step g l pg g' (s.effect pg) ∧ Bus.Ends E Q (s.answer pg) g') :
    Bus.Follows T E Q (CrewSync.execute l s) g :=
  ⟨hready.symm, fun pg hs _ => h pg hs⟩

theorem conn_select {c : Conn} {t : Table} {q : Pg → α} (hready : T.ready (c.label (.select t)) = fun _ => true)
    (h : ∀ pg, T.sure g pg → ∃ g', T.step g (c.label (.select t)) pg g' pg ∧ Q (q (c.view pg)) g') :
    Bus.Follows T E Q (c.select t q) g :=
  ⟨hready.symm, fun pg hs _ => h pg hs⟩

/-- A statement that may wait: where it goes through, its lock is free. -/
theorem conn_wait {c : Conn} {l : Stmt} {lock : Conn.LockOf} {s : Sql α} {Q : α × Conn → γ → Prop}
    (hready : T.ready (c.label l) = c.ready lock)
    (h : ∀ pg, T.sure g pg → c.ready lock pg = true → ∃ g', T.step g (c.label l) pg g' (c.effect lock s pg) ∧
      Bus.Ends E Q (c.answer s pg) g') : Bus.Follows T E Q (c.execute l lock s) g :=
  ⟨hready.symm, h⟩

theorem conn_execute {c : Conn} {l : Stmt} {lock : Conn.LockOf} {s : Sql α} {Q : α × Conn → γ → Prop}
    (hready : T.ready (c.label l) = c.ready lock)
    (h : ∀ pg, T.sure g pg → ∃ g', T.step g (c.label l) pg g' (c.effect lock s pg) ∧
      Bus.Ends E Q (c.answer s pg) g') : Bus.Follows T E Q (c.execute l lock s) g :=
  conn_wait hready fun pg hs _ => h pg hs

/-- A transaction: `BEGIN`, the body, and `COMMIT`, or `ROLLBACK` after an error of the body. -/
theorem transaction {pid : Nat} {body : Conn → Bus (α × Conn)} {P : Time → γ → Prop} {F : γ → Prop}
    {R : α × Conn → γ → Prop} (hready : ∀ l, l = .begin ∨ l = .commit ∨ l = .rollback → T.ready l = fun _ => true)
    (hbegin : ∀ pg, T.sure g pg → ∃ g', T.step g .begin pg g' pg ∧ P pg.now g')
    (hbody : ∀ now g', P now g' → Bus.Follows T F R (body ⟨pid, some ⟨now, []⟩⟩) g')
    (hcommit : ∀ a c g', R (a, c) g' → ∀ pg, T.sure g' pg →
      ∃ g'', T.step g' .commit pg g'' (c.unlock { pg with db := pg.db.write c.pending }) ∧ Q a g'')
    (hrollback : ∀ g', F g' → ∀ pg, T.sure g' pg →
      ∃ g'', T.step g' .rollback pg g'' (Conn.unlock ⟨pid, none⟩ pg) ∧ E g'') :
    Bus.Follows T E Q (CrewSync.transaction pid body) g := by
  have begin : Bus.Follows T E (fun c g' => ∃ now, c = ⟨pid, some ⟨now, []⟩⟩ ∧ P now g') (Conn.begin pid) g := by
    refine ⟨(hready _ (.inl rfl)).symm, fun pg hs _ => ?_⟩
    obtain ⟨g', hstep, hP⟩ := hbegin pg hs
    exact ⟨g', hstep, _, rfl, hP⟩
  refine begin.bind fun c g' h => ?_
  obtain ⟨now, rfl, hP⟩ := h
  refine (attempt (hbody now g' hP)).bind fun r g' h => ?_
  cases r with
  | ok r =>
    have commit : Bus.Follows T E (fun _ => Q r.1) r.2.commit g' :=
      ⟨(hready _ (.inr (.inl rfl))).symm, fun pg hs _ => hcommit r.1 r.2 g' h pg hs⟩
    exact commit.bind fun _ _ h => .pure h
  | error e =>
    have rollback : Bus.Follows T E (fun _ => E) (Conn.rollback ⟨pid, none⟩) g' :=
      ⟨(hready _ (.inr (.inr rfl))).symm, fun pg hs _ => hrollback g' h pg hs⟩
    exact rollback.bind fun _ _ h => .throw h

/-- What only reads follows every protocol that lets queries leave the phase as it is. -/
theorem reads {x : Bus α} (hx : Reads x) (hready : ∀ l, l.isSelect → T.ready l = fun _ => true)
    (hstep : ∀ l pg, l.isSelect → T.sure g pg → T.step g l pg g pg) :
    Bus.Follows T (· = g) (fun _ => (· = g)) x g := by
  have : ∀ p : Prog Stmt Pg (Except BusError α), Queries p →
      T.Follows (Bus.Ends (· = g) fun _ => (· = g)) p g := by
    intro p hp
    induction p with
    | ret r => cases r <;> rfl
    | act l ready eff next ih =>
      obtain ⟨hl, rfl, rfl, hnext⟩ := hp
      exact ⟨(hready l hl).symm, fun pg hs _ => ⟨g, hstep l pg hl hs, ih pg (hnext pg)⟩⟩
  exact ⟨this _ hx⟩

end Bus.Follows
end CrewSync
