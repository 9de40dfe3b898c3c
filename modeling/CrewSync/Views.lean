import CrewSync.Exec

/-! What a call that only reads can see of the server. -/

namespace CrewSync.Bus
variable {α β : Type} {v : Pg → Pg} {P : Pg → Prop}

/-- The call reads nothing but what `v` leaves of the server: it answers the same without the rest. -/
structure Sees (v : Pg → Pg) (P : Pg → Prop) (x : Bus α) : Prop where
  readOnly : ReadOnly x
  answer : ∀ pg, P pg → (x.exec (v pg)).1 = (x.exec pg).1

namespace Sees

theorem exec {x : Bus α} (h : Sees v P x) {pg : Pg} (hP : P pg) : x.exec (v pg) = ((x.exec pg).1, v pg) :=
  Prod.ext (h.answer pg hP) (h.readOnly _)

theorem pure {a : α} : Sees v P (Pure.pure a : Bus α) := ⟨.pure, fun _ _ => rfl⟩

theorem throw {e : BusError} : Sees v P (MonadExcept.throw e : Bus α) := ⟨.throw, fun _ _ => rfl⟩

theorem select {t : Table} {q : Pg → α} (h : ∀ pg, P pg → q (v pg) = q pg) : Sees v P (CrewSync.select t q) :=
  ⟨.select, fun pg hP => congrArg Except.ok (h pg hP)⟩

/-- What follows sees no more, whatever the first call may have found there. -/
theorem bind {x : Bus α} {f : α → Bus β} (hx : Sees v P x)
    (hf : ∀ a, Sees v (fun pg => P pg ∧ (x.exec pg).1 = .ok a) (f a)) (hreads : ∀ a, ReadOnly (f a)) :
    Sees v P (x >>= f) := by
  refine ⟨hx.readOnly.bind hreads, fun pg hP => ?_⟩
  rw [exec_bind, exec_bind, hx.exec hP]
  have hsame : x.exec pg = ((x.exec pg).1, pg) := Prod.ext rfl (hx.readOnly pg)
  rw [hsame]
  cases hr : (x.exec pg).1 with
  | ok a => exact (hf a).answer pg ⟨hP, hr⟩
  | error e => rfl

/-- What follows sees no more, whatever it is given. -/
theorem reads {x : Bus α} {f : α → Bus β} (hx : Sees v P x) (hf : ∀ a, Sees v P (f a)) : Sees v P (x >>= f) :=
  hx.bind (fun a => ⟨(hf a).readOnly, fun pg h => (hf a).answer pg h.1⟩) fun a => (hf a).readOnly

theorem map {x : Bus α} (hx : Sees v P x) (f : α → β) : Sees v P (f <$> x) := by
  refine ⟨hx.readOnly.map f, fun pg hP => ?_⟩
  rw [exec_map, exec_map, hx.answer pg hP]

theorem ite {c : Prop} [Decidable c] {x y : Bus α} (hx : Sees v P x) (hy : Sees v P y) : Sees v P (if c then x else y) := by
  split
  · exact hx
  · exact hy

/-- A check that ends the call before it reads on. -/
theorem guard {c : Prop} [Decidable c] {e : BusError} {g : β → Bus α} {x : Bus α} (hx : Sees v P x) :
    Sees v P (if c then (MonadExcept.throw e : Bus β) >>= g else x) :=
  .ite ⟨fun _ => rfl, fun _ _ => rfl⟩ hx

end Sees
end CrewSync.Bus
