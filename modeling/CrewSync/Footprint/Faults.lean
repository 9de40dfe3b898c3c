import CrewSync.Faults
import CrewSync.Footprint.HistoryThreads

/-! What a failing statement leaves behind: the states that the statements of a call find. -/

namespace CrewSync
open Bus (Reads)

namespace Bus
variable {α β : Type} {pg pg' : Pg}

/-- The states that the statements of the call find. -/
def trail (x : Bus α) (pg : Pg) : List Pg := Prog.trail x.run pg

theorem exec_failing (x : Bus α) (err : BusError) (n : Nat) (pg : Pg) :
    (x.failing err n).exec pg = ((x.trail pg)[n]?.map fun pg' => (.error err, pg')).getD (x.exec pg) :=
  Prog.run_failing x.run (.error err) n pg

@[simp] theorem trail_pure (a : α) : (pure a : Bus α).trail pg = [] := rfl

@[simp] theorem trail_throw (e : BusError) : (throw e : Bus α).trail pg = [] := rfl

@[simp] theorem trail_select (t : Table) (q : Pg → β) : (select t q).trail pg = [pg] := rfl

@[simp] theorem trail_execute (l : Stmt) (s : Sql β) : (execute l s).trail pg = [pg] := rfl

@[simp] theorem trail_check (r : Except BusError α) : (check r).trail pg = [] := by
  cases r <;> rfl

theorem trail_bind_ok {x : Bus α} {f : α → Bus β} {a : α} (h : x.exec pg = (.ok a, pg')) :
    (x >>= f).trail pg = x.trail pg ++ (f a).trail pg' := by
  have hx : x.run.run pg = (.ok a, pg') := h
  change (Prog.bind x.run (ExceptT.bindCont f)).trail pg = _
  rw [Prog.trail_bind, hx]
  rfl

theorem trail_bind_error {x : Bus α} {f : α → Bus β} {e : BusError} (h : x.exec pg = (.error e, pg')) :
    (x >>= f).trail pg = x.trail pg := by
  have hx : x.run.run pg = (.error e, pg') := h
  change (Prog.bind x.run (ExceptT.bindCont f)).trail pg = _
  rw [Prog.trail_bind, hx]
  exact List.append_nil _

theorem trail_map (f : α → β) (x : Bus α) : (f <$> x).trail pg = x.trail pg := by
  rw [← bind_pure_comp]
  cases h : x.exec pg with
  | mk r pg' =>
    cases r with
    | ok a => rw [trail_bind_ok h, trail_pure, List.append_nil]
    | error e => exact trail_bind_error h

/-- Every statement of a call that only reads finds the server as it was. -/
theorem Reads.trail {x : Bus α} (hx : Reads x) (pg : Pg) : ∀ pg' ∈ x.trail pg, pg' = pg := by
  have : ∀ p : Prog Stmt Pg (Except BusError α), Queries p → ∀ pg' ∈ p.trail pg, pg' = pg := by
    intro p hp
    induction p with
    | ret r => exact fun pg' h => by cases h
    | act l ready eff next ih =>
      obtain ⟨-, -, rfl, hnext⟩ := hp
      intro pg' h
      rcases List.mem_cons.1 h with rfl | h
      · rfl
      · exact ih pg (hnext pg) pg' h
  exact this x.run hx

/-! ### Where rows stay behind -/

/-- With the statement number `n` failing, the call answers or leaves every row as it was, unless `E n`. -/
structure Leaves (x : Bus α) (pg : Pg) (E : Nat → Prop) : Prop where
  found : ∀ n pg', (x.trail pg)[n]? = some pg' → (pg'.db.rows = pg.db.rows ↔ ¬ E n)
  /-- The call executes all its statements. -/
  ends : ∀ n, (x.trail pg).length ≤ n →
    ((∀ e, (x.exec pg).1 = .error e → (x.exec pg).2.db.rows = pg.db.rows) ↔ ¬ E n)

namespace Leaves
variable {x : Bus α} {f : α → Bus β} {E E' : Nat → Prop}

theorem iff (h : Leaves x pg E) (n : Nat) : (∀ err e, ((x.failing err n).exec pg).1 = .error e →
    ((x.failing err n).exec pg).2.db.rows = pg.db.rows) ↔ ¬ E n := by
  simp only [exec_failing]
  cases hn : (x.trail pg)[n]? with
  | none =>
    rw [← h.ends n (List.getElem?_eq_none_iff.1 hn)]
    exact ⟨fun h => h .db, fun h _ => h⟩
  | some pg' =>
    rw [← h.found n pg' hn]
    exact ⟨fun h => h .db .db rfl, fun h _ _ _ => h⟩

theorem congr (h : Leaves x pg E) (hE : ∀ n, E' n ↔ E n) : Leaves x pg E' := by
  have : E' = E := funext fun n => propext (hE n)
  rwa [this]

/-- What only reads comes first. -/
theorem after (hx : Reads x) {a : α} (ha : (x.exec pg).1 = .ok a) (h : Leaves (f a) pg E) :
    Leaves (x >>= f) pg fun n => (x.trail pg).length ≤ n ∧ E (n - (x.trail pg).length) := by
  have hexec : x.exec pg = (.ok a, pg) := Prod.ext ha (hx.readOnly pg)
  have htrail := trail_bind_ok (f := f) hexec
  constructor
  · intro n pg' hn
    rw [htrail] at hn
    by_cases hlt : n < (x.trail pg).length
    · rw [List.getElem?_append_left hlt] at hn
      rw [hx.trail pg pg' (List.mem_of_getElem? hn)]
      exact iff_of_true rfl fun h => absurd h.1 (by omega)
    · rw [List.getElem?_append_right (by omega)] at hn
      rw [h.found _ _ hn]
      exact not_congr (iff_and_self.2 fun _ => by omega)
  · intro n hn
    rw [htrail, List.length_append] at hn
    rw [exec_bind_ok hexec, h.ends (n - (x.trail pg).length) (by omega)]
    exact not_congr (iff_and_self.2 fun _ => by omega)

theorem check {r : Except BusError α} {a : α} (hr : r = .ok a) (h : Leaves (f a) pg E) :
    Leaves (CrewSync.check r >>= f) pg E :=
  (after .check (by rw [exec_check, hr]) h).congr fun n => by simp

theorem select {t : Table} {q : Pg → α} (h : Leaves (f (q pg)) pg E) :
    Leaves (CrewSync.select t q >>= f) pg fun n => 1 ≤ n ∧ E (n - 1) :=
  after .select rfl h

/-- A call that ends before it has written anything. -/
theorem refused (hx : Reads x) {e : BusError} (he : (x.exec pg).1 = .error e) :
    Leaves (x >>= f) pg fun _ => False := by
  have hexec : x.exec pg = (.error e, pg) := Prod.ext he (hx.readOnly pg)
  constructor
  · intro n pg' h
    rw [trail_bind_error hexec] at h
    rw [hx.trail pg pg' (List.mem_of_getElem? h)]
    simp
  · intro n _
    rw [exec_bind_error hexec]
    simp

theorem check_error {r : Except BusError α} {e : BusError} (hr : r = .error e) :
    Leaves (CrewSync.check r >>= f) pg fun _ => False :=
  refused .check (e := e) (by rw [exec_check, hr])

theorem throw_bind {e : BusError} : Leaves ((MonadExcept.throw e : Bus α) >>= f) pg fun _ => False :=
  refused .throw rfl

theorem map {g : α → β} (h : Leaves x pg E) : Leaves (g <$> x) pg E := by
  constructor
  · rw [trail_map]
    exact h.found
  · rw [trail_map, exec_map]
    intro n hn
    rw [← h.ends n hn]
    cases (x.exec pg).1 <;> simp [Except.map]

/-- A data-modifying statement comes first. -/
theorem execute {l : Stmt} {s : Sql α} {a : α} {seqs : Seqs} {ws : List Write} (hs : s pg = .ok (a, seqs, ws)) (h₀ : ¬ E 0)
    (hfound : ∀ n pg', ((f a).trail { pg with db := pg.db.write ws, seqs })[n]? = some pg' →
      (pg'.db.rows = pg.db.rows ↔ ¬ E (n + 1)))
    (hends : ∀ n, ((f a).trail { pg with db := pg.db.write ws, seqs }).length ≤ n →
      ((∀ e, ((f a).exec { pg with db := pg.db.write ws, seqs }).1 = .error e →
        ((f a).exec { pg with db := pg.db.write ws, seqs }).2.db.rows = pg.db.rows) ↔ ¬ E (n + 1))) :
    Leaves (CrewSync.execute l s >>= f) pg E := by
  have hexec : (CrewSync.execute l s).exec pg = (.ok a, { pg with db := pg.db.write ws, seqs }) := by
    simp only [exec_execute, Sql.answer, Sql.effect, hs]
    rfl
  constructor
  · intro n pg' hn
    rw [trail_bind_ok hexec, trail_execute] at hn
    cases n with
    | zero =>
      obtain rfl : pg = pg' := by simpa using hn
      exact iff_of_true rfl h₀
    | succ n => exact hfound n pg' hn
  · intro n hn
    rw [trail_bind_ok hexec, trail_execute] at hn
    rw [exec_bind_ok hexec]
    cases n with
    | zero => simp at hn
    | succ n => exact hends n (by simpa using hn)

/-- The statement raises an error. -/
theorem execute_error {l : Stmt} {s : Sql α} {e : BusError} (hs : s pg = .error e) :
    Leaves (CrewSync.execute l s >>= f) pg fun _ => False := by
  have hexec : (CrewSync.execute l s).exec pg = (.error e, pg) := by
    simp only [exec_execute, Sql.answer, Sql.effect, hs]
    rfl
  constructor
  · intro n pg' h
    rw [trail_bind_error hexec, trail_execute] at h
    obtain rfl := List.mem_singleton.1 (List.mem_of_getElem? h)
    simp
  · intro n _
    rw [exec_bind_error hexec]
    simp

end Leaves
end Bus
end CrewSync
