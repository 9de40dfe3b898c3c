import CrewSync.Postgres

/-! Store functions run whole: what `Bus.exec` makes of each way to build one. -/

namespace CrewSync
namespace Bus
variable {α β : Type} {pg : Pg}

@[simp] theorem exec_pure (a : α) : (pure a : Bus α).exec pg = (.ok a, pg) := rfl

@[simp] theorem exec_throw (e : BusError) : (throw e : Bus α).exec pg = (.error e, pg) := rfl

@[simp] theorem exec_select (t : Table) (q : Pg → β) : (select t q).exec pg = (.ok (q pg), pg) := rfl

@[simp] theorem exec_execute (l : Stmt) (s : Sql β) : (execute l s).exec pg = (s.answer pg, s.effect pg) := rfl

theorem exec_bind (x : Bus α) (f : α → Bus β) :
    (x >>= f).exec pg =
      match x.exec pg with
      | (.ok a, pg') => (f a).exec pg'
      | (.error e, pg') => (.error e, pg') := by
  change (Prog.bind x.run (ExceptT.bindCont f)).run pg = _
  rw [Prog.run_bind]
  cases h : x.exec pg with
  | mk r pg' =>
    have hr : x.run.run pg = (r, pg') := h
    rw [hr]
    cases r <;> rfl

theorem exec_bind_ok {x : Bus α} {f : α → Bus β} {a : α} {pg' : Pg} (h : x.exec pg = (.ok a, pg')) :
    (x >>= f).exec pg = (f a).exec pg' := by
  rw [exec_bind, h]

theorem exec_bind_error {x : Bus α} {f : α → Bus β} {e : BusError} {pg' : Pg}
    (h : x.exec pg = (.error e, pg')) : (x >>= f).exec pg = (.error e, pg') := by
  rw [exec_bind, h]

theorem exec_map (f : α → β) (x : Bus α) : (f <$> x).exec pg = ((x.exec pg).1.map f, (x.exec pg).2) := by
  rw [← bind_pure_comp, exec_bind]
  cases h : x.exec pg with
  | mk r pg' => cases r <;> rfl

@[simp] theorem exec_check (r : Except BusError α) : (check r).exec pg = (r, pg) := by
  cases r <;> rfl

@[simp] theorem exec_attempt (x : Bus α) : (attempt x).exec pg = (.ok (x.exec pg).1, (x.exec pg).2) := by
  exact Prog.run_bind _ _ _

theorem exec_ite {c : Prop} [Decidable c] (x y : Bus α) :
    (if c then x else y).exec pg = if c then x.exec pg else y.exec pg := by
  split <;> rfl

/-! ### Functions that only read -/

/-- The call leaves the server as it was. -/
def ReadOnly (x : Bus α) : Prop := ∀ pg, (x.exec pg).2 = pg

namespace ReadOnly

@[simp] theorem pure {a : α} : ReadOnly (Pure.pure a : Bus α) := fun _ => rfl

@[simp] theorem throw {e : BusError} : ReadOnly (MonadExcept.throw e : Bus α) := fun _ => rfl

@[simp] theorem select {t : Table} {q : Pg → β} : ReadOnly (CrewSync.select t q) := fun _ => rfl

@[simp] theorem check {r : Except BusError α} : ReadOnly (CrewSync.check r) := fun _ => by simp

theorem bind {x : Bus α} {f : α → Bus β} (hx : ReadOnly x) (hf : ∀ a, ReadOnly (f a)) :
    ReadOnly (x >>= f) := by
  intro pg
  rw [exec_bind]
  cases h : x.exec pg with
  | mk r pg' =>
    have : pg' = pg := by rw [← hx pg, h]
    subst this
    cases r with
    | ok a => exact hf a pg'
    | error e => rfl

theorem map {x : Bus α} (hx : ReadOnly x) (f : α → β) : ReadOnly (f <$> x) := fun pg => by
  rw [exec_map]
  exact hx pg

theorem attempt {x : Bus α} (hx : ReadOnly x) : ReadOnly (CrewSync.attempt x) := fun pg => by
  rw [exec_attempt]
  exact hx pg

theorem ite {c : Prop} [Decidable c] {x y : Bus α} (hx : ReadOnly x) (hy : ReadOnly y) :
    ReadOnly (if c then x else y) := by
  split
  · exact hx
  · exact hy

end ReadOnly

/-! ### Functions that read, statement by statement -/

/-- Every statement of the program is a query. -/
def Queries : Prog Stmt Pg α → Prop
  | .ret _ => True
  | .act l ready eff next => l.isSelect = true ∧ ready = (fun _ => true) ∧ eff = id ∧ ∀ pg, Queries (next pg)

/-- The same of a store function. -/
def Reads (x : Bus α) : Prop := Queries x.run

theorem Queries.bind {p : Prog Stmt Pg α} {f : α → Prog Stmt Pg β} (hp : Queries p) (hf : ∀ a, Queries (f a)) :
    Queries (p.bind f) := by
  induction p with
  | ret a => exact hf a
  | act l ready eff next ih =>
    obtain ⟨hl, hready, heff, hnext⟩ := hp
    exact ⟨hl, hready, heff, fun pg => ih pg (hnext pg)⟩

theorem Queries.run {p : Prog Stmt Pg α} (h : Queries p) (pg : Pg) : (p.run pg).2 = pg := by
  induction p generalizing pg with
  | ret a => rfl
  | act l ready eff next ih =>
    obtain ⟨-, -, rfl, hnext⟩ := h
    exact ih pg (hnext pg) pg

namespace Reads

theorem readOnly {x : Bus α} (h : Reads x) : ReadOnly x := Queries.run h

@[simp] theorem pure {a : α} : Reads (Pure.pure a : Bus α) := trivial

@[simp] theorem throw {e : BusError} : Reads (MonadExcept.throw e : Bus α) := trivial

@[simp] theorem select {t : Table} {q : Pg → β} : Reads (CrewSync.select t q) :=
  ⟨rfl, rfl, rfl, fun _ => trivial⟩

@[simp] theorem check {r : Except BusError α} : Reads (CrewSync.check r) := by
  cases r <;> trivial

theorem bind {x : Bus α} {f : α → Bus β} (hx : Reads x) (hf : ∀ a, Reads (f a)) : Reads (x >>= f) :=
  Queries.bind hx fun r => by
    cases r with
    | ok a => exact hf a
    | error e => trivial

theorem map {x : Bus α} (hx : Reads x) (f : α → β) : Reads (f <$> x) := by
  rw [← bind_pure_comp]
  exact hx.bind fun _ => .pure

theorem attempt {x : Bus α} (hx : Reads x) : Reads (CrewSync.attempt x) :=
  Queries.bind hx fun _ => trivial

theorem ite {c : Prop} [Decidable c] {x y : Bus α} (hx : Reads x) (hy : Reads y) : Reads (if c then x else y) := by
  split
  · exact hx
  · exact hy

end Reads

/-! ### Functions that move the server along a relation -/

/-- The server after the call is in `R` to the server before it. -/
def Moves (R : Pg → Pg → Prop) (x : Bus α) : Prop := ∀ pg, R pg (x.exec pg).2

namespace Moves
variable {R : Pg → Pg → Prop}

theorem bind (htrans : ∀ {a b c}, R a b → R b c → R a c) {x : Bus α} {f : α → Bus β} (hx : Moves R x)
    (hf : ∀ a, Moves R (f a)) : Moves R (x >>= f) := by
  intro pg
  have hxpg := hx pg
  rw [exec_bind]
  cases h : x.exec pg with
  | mk r pg' =>
    rw [h] at hxpg
    cases r with
    | ok a => exact htrans hxpg (hf a pg')
    | error e => exact hxpg

theorem map {x : Bus α} (hx : Moves R x) (f : α → β) : Moves R (f <$> x) := by
  intro pg
  rw [exec_map]
  exact hx pg

theorem reads (hrefl : ∀ pg, R pg pg) {x : Bus α} {f : α → Bus β} (hx : ReadOnly x) (hf : ∀ a, Moves R (f a)) :
    Moves R (x >>= f) := by
  intro pg
  rw [exec_bind]
  cases h : x.exec pg with
  | mk r pg' =>
    have : pg' = pg := by rw [← hx pg, h]
    subst this
    cases r with
    | ok a => exact hf a pg'
    | error e => exact hrefl pg'

theorem throw_bind (hrefl : ∀ pg, R pg pg) {e : BusError} {f : α → Bus β} :
    Moves R ((MonadExcept.throw e : Bus α) >>= f) := fun pg => by
  rw [exec_bind_error (exec_throw e)]
  exact hrefl pg

theorem ite {c : Prop} [Decidable c] {x y : Bus α} (hx : Moves R x) (hy : Moves R y) :
    Moves R (if c then x else y) := by
  split
  · exact hx
  · exact hy

end Moves

/-! ### Functions that succeed -/

/-- The call succeeds alone on the tables of `base`. -/
def Succeeds (base : Pg) (x : Bus α) : Prop := ∃ a, (x.exec base).1 = .ok a

namespace Succeeds
variable {base : Pg} {x : Bus α} {f : α → Bus β}

theorem bind (h : Succeeds base (x >>= f)) : ∃ a, (x.exec base).1 = .ok a ∧
    ∃ b, ((f a).exec (x.exec base).2).1 = .ok b := by
  obtain ⟨b, hb⟩ := h
  rw [exec_bind] at hb
  cases hx : x.exec base with
  | mk r pg' =>
    rw [hx] at hb
    cases r with
    | error e => cases hb
    | ok a => exact ⟨a, rfl, b, hb⟩

theorem «else» {c : Prop} [Decidable c] {e : BusError} {y : Bus β}
    (h : Succeeds base (if c then (MonadExcept.throw e : Bus α) >>= f else y)) : ¬ c ∧ Succeeds base y := by
  split at h
  · obtain ⟨b, hb⟩ := h
    rw [exec_bind_error (exec_throw e)] at hb
    cases hb
  · next hc => exact ⟨hc, h⟩

end Succeeds

/-! ### Triples -/

/-- From a state with `P` the call ends with an answer and a state that have `Q`, or with an error that has `E`. -/
structure Meets (P : Pg → Prop) (x : Bus α) (Q : α → Pg → Prop) (E : BusError → Prop) : Prop where
  answers : ∀ pg, P pg → ∀ a, (x.exec pg).1 = .ok a → Q a (x.exec pg).2
  fails : ∀ pg, P pg → ∀ e, (x.exec pg).1 = .error e → E e

namespace Meets
variable {P : Pg → Prop} {Q : α → Pg → Prop} {R : β → Pg → Prop} {E : BusError → Prop} {x : Bus α} {f : α → Bus β}

theorem pure {a : α} (h : ∀ pg, P pg → Q a pg) : Meets P (Pure.pure a : Bus α) Q E where
  answers pg hP _ ha := Except.ok.inj ha ▸ h pg hP
  fails _ _ _ he := by cases he

theorem throw {e : BusError} (h : ∀ pg, P pg → E e) : Meets P (MonadExcept.throw e : Bus α) Q E where
  answers _ _ _ ha := by cases ha
  fails pg hP _ he := Except.error.inj he ▸ h pg hP

theorem bind (hx : Meets P x Q E) (hf : ∀ a, Meets (Q a) (f a) R E) : Meets P (x >>= f) R E := by
  have hexec : ∀ pg, P pg → (∀ b, ((x >>= f).exec pg).1 = .ok b → R b ((x >>= f).exec pg).2) ∧
      ∀ e, ((x >>= f).exec pg).1 = .error e → E e := by
    intro pg hP
    have hanswers := hx.answers pg hP
    have hfails := hx.fails pg hP
    rw [exec_bind]
    cases h : x.exec pg with
    | mk r pg' =>
      rw [h] at hanswers hfails
      cases r with
      | error e =>
        refine ⟨?_, ?_⟩
        · intro b hb
          cases hb
        · intro e' he'
          exact hfails e' (congrArg Except.error (Except.error.inj he'))
      | ok a => exact ⟨(hf a).answers pg' (hanswers a rfl), (hf a).fails pg' (hanswers a rfl)⟩
  exact ⟨fun pg hP => (hexec pg hP).1, fun pg hP => (hexec pg hP).2⟩

theorem check {r : Except BusError α} (hQ : ∀ pg a, P pg → r = .ok a → Q a pg) (hE : ∀ e, r = .error e → E e) :
    Meets P (CrewSync.check r) Q E where
  answers pg hP a ha := by
    rw [exec_check] at ha ⊢
    exact hQ pg a hP ha
  fails pg _ e he := hE e (by rwa [exec_check] at he)

theorem select {t : Table} {q : Pg → α} (h : ∀ pg, P pg → Q (q pg) pg) : Meets P (CrewSync.select t q) Q E where
  answers pg hP _ ha := Except.ok.inj ha ▸ h pg hP
  fails _ _ _ he := by cases he

theorem execute {l : Stmt} {s : Sql α} (hQ : ∀ pg a, P pg → s.answer pg = .ok a → Q a (s.effect pg))
    (hE : ∀ pg e, P pg → s.answer pg = .error e → E e) : Meets P (CrewSync.execute l s) Q E where
  answers pg h a ha := hQ pg a h ha
  fails pg h e he := hE pg e h he

theorem ite {c : Prop} [Decidable c] {y : Bus α} (hx : c → Meets P x Q E) (hy : ¬ c → Meets P y Q E) :
    Meets P (if c then x else y) Q E := by
  split
  · next h => exact hx h
  · next h => exact hy h

/-- What does not depend on the state is assumed once. -/
theorem lift {φ : Prop} (h : φ → Meets P x Q E) : Meets (fun pg => φ ∧ P pg) x Q E :=
  ⟨fun pg hP => (h hP.1).answers pg hP.2, fun pg hP => (h hP.1).fails pg hP.2⟩

/-- A call that is not reached. -/
theorem unreached (h : ∀ pg, ¬ P pg) : Meets P x Q E :=
  ⟨fun pg hP => (h pg hP).elim, fun pg hP => (h pg hP).elim⟩

/-- A guard: the call goes on, or it fails at once. -/
theorem guard {c : Prop} [Decidable c] {e : BusError} {g : β → Bus α} (he : c → E e) (hx : ¬ c → Meets P x Q E) :
    Meets P (if c then (MonadExcept.throw e : Bus β) >>= g else x) Q E :=
  .ite (fun hc => .bind (.throw (Q := fun _ _ => False) fun _ _ => he hc) fun _ => .unreached fun _ h => h) hx

/-- A transaction that commits writes what its body has pending. -/
theorem transaction {pid : Nat} {body : Conn → Bus (α × Conn)}
    (h : ∀ now, Meets (fun pg => P pg ∧ pg.now = now) (body ⟨pid, some ⟨now, []⟩⟩)
      (fun r pg => Q r.1 (r.2.unlock { pg with db := pg.db.write r.2.pending })) E) :
    Meets P (CrewSync.transaction pid body) Q E := by
  have hexec : ∀ pg, P pg → (∀ a, ((CrewSync.transaction pid body).exec pg).1 = .ok a →
      Q a ((CrewSync.transaction pid body).exec pg).2) ∧ ∀ e, ((CrewSync.transaction pid body).exec pg).1 = .error e → E e := by
    intro pg hP
    have hanswers := (h pg.now).answers pg ⟨hP, rfl⟩
    have hfails := (h pg.now).fails pg ⟨hP, rfl⟩
    have hbegin : (Conn.begin pid).exec pg = (.ok ⟨pid, some ⟨pg.now, []⟩⟩, pg) := rfl
    unfold CrewSync.transaction
    rw [exec_bind_ok hbegin, exec_bind_ok (exec_attempt _)]
    cases hr : ((body ⟨pid, some ⟨pg.now, []⟩⟩).exec pg).1 with
    | ok r =>
      refine ⟨?_, ?_⟩
      · intro a ha
        obtain rfl := Except.ok.inj ha
        exact hanswers r hr
      · intro e he
        cases he
    | error e =>
      refine ⟨?_, ?_⟩
      · intro a ha
        cases ha
      · intro e' he'
        exact hfails e' (congrArg Except.error (Except.error.inj he') ▸ hr)
  exact ⟨fun pg hP => (hexec pg hP).1, fun pg hP => (hexec pg hP).2⟩

/-- A call that succeeds goes on with its answer when it is attempted. -/
theorem attempt (hx : Meets P x Q (fun _ => False)) :
    Meets P (CrewSync.attempt x) (fun r pg => ∃ a, r = .ok a ∧ Q a pg) E where
  answers pg hP r hr := by
    rw [exec_attempt] at hr ⊢
    obtain rfl := Except.ok.inj hr
    cases h : (x.exec pg).1 with
    | ok a => exact ⟨a, rfl, hx.answers pg hP a h⟩
    | error e => exact (hx.fails pg hP e h).elim
  fails pg hP e he := by
    rw [exec_attempt] at he
    cases he

end Meets
end Bus
end CrewSync
