import CrewSync.Constraints
import CrewSync.Exec

/-! What a call writes. `Wrote ok pg pg'` says that `pg'` comes from `pg` by legal writes that all satisfy
    `ok` at the time of `pg`; `Bus.Writes` is the matching judgement on store functions. -/

namespace CrewSync

/-- The tables that a write changes. -/
def Write.tables : Write → List Table
  | .putTeam _ => [.teams]
  | .putAgent _ => [.agents]
  | .putPresence _ => [.agentPresence]
  | .putChannel _ => [.channels]
  | .insertMessage _ => [.messages]
  | .deleteMessages _ => [.messages, .attachments]
  | .putCursor _ => [.readCursors]
  | .insertTask _ | .updateTasks _ _ => [.tasks]
  | .insertTaskDep _ => [.taskDeps]
  | .insertTaskEvent _ | .deleteTaskEvents _ => [.taskEvents]
  | .putNote _ => [.notes]
  | .deleteNotes _ => [.notes, .noteRevisions]
  | .insertNoteRevision _ | .deleteNoteRevisions _ => [.noteRevisions]
  | .putLock _ | .deleteLocks _ => [.locks]
  | .insertAttachment _ => [.attachments]
  | .insertWebhook _ => [.webhooks]
  | .deleteWebhooks _ => [.webhooks, .webhookDeliveries]
  | .insertDelivery _ | .updateDeliveries _ _ | .deleteDeliveries _ => [.webhookDeliveries]
  | .notify _ => []

/-- A row as the triggers enqueue it at time `now`: due at once, never attempted. -/
def Delivery.Fresh (now : Time) (d : Delivery) : Prop :=
  d.status = .pending ∧ d.attempts = 0 ∧ d.nextAttemptAt = now ∧ d.updatedAt = now

/-- The write is made by `agent` on rows of `team`: the rows it inserts or takes over name both. -/
def Write.By (agent team : Uuid) (now : Time) (db : Db) : Write → Prop
  | .putPresence r => r.agentId = agent
  | .putChannel r => r.teamId = team ∧
      (r.createdBy = some agent ∨ ∃ c ∈ db.channels, c.id = r.id ∧ c.createdBy = r.createdBy)
  | .insertMessage r => r.teamId = team ∧ r.senderAgentId = agent
  | .putCursor r => r.agentId = agent
  | .insertTask r => r.teamId = team ∧ r.createdBy = some agent ∧ r.claimedBy = none
  | .updateTasks p f => ∀ t ∈ db.tasks, p t = true → t.teamId = team ∧ (f t).createdBy = t.createdBy ∧
      ((f t).claimedBy = t.claimedBy ∨ (f t).claimedBy = none ∨ (f t).claimedBy = some agent)
  | .insertTaskDep d => db.taskIn d.taskId team
  | .insertTaskEvent e => db.taskIn e.taskId team ∧ e.agentId = some agent
  | .putNote r => r.teamId = team ∧ r.updatedBy = some agent
  | .deleteNotes p => ∀ n, p n = true → n.teamId = team
  | .insertNoteRevision r => db.noteIn r.noteId team ∧ r.updatedBy = some agent
  | .putLock r => r.teamId = team ∧ r.holderAgentId = agent
  | .deleteLocks p => ∀ l, p l = true → l.teamId = team
  | .insertAttachment r => r.teamId = team ∧ r.uploaderAgentId = agent
  | .insertDelivery r => r.teamId = team ∧ r.Fresh now
  | .notify _ => True
  | .putTeam _ | .putAgent _ | .deleteMessages _ | .deleteTaskEvents _ | .deleteNoteRevisions _
  | .insertWebhook _ | .deleteWebhooks _ | .updateDeliveries _ _ | .deleteDeliveries _ => False

/-- A write of `agent` for `team` on some of the given tables. -/
structure Own (agent team : Uuid) (tables : List Table) (now : Time) (db : Db) (w : Write) : Prop where
  author : w.By agent team now db
  tables : w.tables ⊆ tables

theorem singleton_subset {t : Table} {tables : List Table} (h : t ∈ tables) : [t] ⊆ tables := by
  simpa using h

/-! ### Trails of writes -/

/-- Legal writes, one after the other. -/
def Trail (ok : Db → Write → Prop) (base seqs : Seqs) : Db → List Write → Prop
  | _, [] => True
  | db, w :: ws => w.Legal base seqs db ∧ ok db w ∧ Trail ok base seqs (w.apply db) ws

/-- `pg'` comes from `pg` by legal writes that satisfy `ok`. -/
def Wrote (ok : Time → Db → Write → Prop) (pg pg' : Pg) : Prop :=
  ∃ ws, pg'.db = pg.db.write ws ∧ pg.seqs.Before pg'.seqs ∧ pg'.now = pg.now ∧
    Trail (ok pg.now) pg.seqs pg'.seqs pg.db ws

@[simp] theorem Db.write_nil (db : Db) : db.write [] = db := rfl

@[simp] theorem Db.write_cons (db : Db) (w : Write) (ws : List Write) :
    db.write (w :: ws) = (w.apply db).write ws := rfl

@[simp] theorem Db.write_append (db : Db) (ws ws' : List Write) :
    db.write (ws ++ ws') = (db.write ws).write ws' :=
  List.foldl_append

theorem Write.Legal.mono {db : Db} {base base' seqs seqs' : Seqs} {w : Write} (h : w.Legal base seqs db)
    (hb : base'.Before base) (hs : seqs.Before seqs') : w.Legal base' seqs' db := by
  cases w with
  | insertMessage r => exact ⟨h.1, h.2.1, h.2.2.1, h.2.2.2.1.trans hs.messages, hb.messages.trans_lt h.2.2.2.2⟩
  | putCursor r => exact ⟨h.1, h.2.trans hs.messages⟩
  | insertTaskEvent e => exact ⟨h.1, h.2.1, h.2.2.trans hs.taskEvents⟩
  | insertNoteRevision r => exact ⟨h.1, h.2.1, h.2.2.trans hs.noteRevisions⟩
  | insertAttachment r => exact ⟨h.1, h.2.1, h.2.2.trans hs.attachments⟩
  | insertDelivery r => exact ⟨h.1, h.2.1, h.2.2.1.trans hs.deliveries, hb.deliveries.trans_lt h.2.2.2⟩
  | _ => exact h

namespace Trail
variable {ok ok' : Db → Write → Prop} {base base' seqs seqs' : Seqs} {db : Db} {ws ws' : List Write}

theorem mono (h : Trail ok base seqs db ws) (hb : base'.Before base) (hs : seqs.Before seqs') :
    Trail ok base' seqs' db ws := by
  induction ws generalizing db with
  | nil => trivial
  | cons w ws ih => exact ⟨h.1.mono hb hs, h.2.1, ih h.2.2⟩

theorem imp (h : Trail ok base seqs db ws) (hok : ∀ db w, ok db w → ok' db w) : Trail ok' base seqs db ws := by
  induction ws generalizing db with
  | nil => trivial
  | cons w ws ih => exact ⟨h.1, hok _ _ h.2.1, ih h.2.2⟩

theorem append (h : Trail ok base seqs db ws) (h' : Trail ok base seqs (db.write ws) ws') :
    Trail ok base seqs db (ws ++ ws') := by
  induction ws generalizing db with
  | nil => exact h'
  | cons w ws ih => exact ⟨h.1, h.2.1, ih h.2.2 h'⟩

theorem keys (h : Trail ok base seqs db ws) (hk : db.Keys seqs) : (db.write ws).Keys seqs := by
  induction ws generalizing db with
  | nil => exact hk
  | cons w ws ih => exact ih h.2.2 (hk.apply h.1)

theorem refs (h : Trail ok base seqs db ws) (hr : db.Refs) : (db.write ws).Refs := by
  induction ws generalizing db with
  | nil => exact hr
  | cons w ws ih => exact ih h.2.2 (hr.apply h.1)

/-- What every write does to a database with the constraints, the trail does. -/
theorem lift {R : Db → Db → Prop} (hrefl : ∀ db, R db db) (htrans : ∀ {a b c}, R a b → R b c → R a c)
    (hstep : ∀ db w, db.Keys seqs → db.Refs → w.Legal base seqs db → ok db w → R db (w.apply db))
    (h : Trail ok base seqs db ws) (hk : db.Keys seqs) (hr : db.Refs) : R db (db.write ws) := by
  induction ws generalizing db with
  | nil => exact hrefl db
  | cons w ws ih =>
    exact htrans (hstep db w hk hr h.1 h.2.1) (ih h.2.2 (hk.apply h.1) (hr.apply h.1))

end Trail

namespace Wrote
variable {ok ok' : Time → Db → Write → Prop} {pg pg' pg'' : Pg}

theorem refl (ok : Time → Db → Write → Prop) (pg : Pg) : Wrote ok pg pg := ⟨[], rfl, .refl _, rfl, trivial⟩

theorem trans (h : Wrote ok pg pg') (h' : Wrote ok pg' pg'') : Wrote ok pg pg'' := by
  obtain ⟨ws, hdb, hseqs, hnow, ht⟩ := h
  obtain ⟨ws', hdb', hseqs', hnow', ht'⟩ := h'
  refine ⟨ws ++ ws', ?_, hseqs.trans hseqs', hnow'.trans hnow, (ht.mono (.refl _) hseqs').append ?_⟩
  · rw [hdb', hdb, Db.write_append]
  · rw [← hdb, ← hnow]
    exact ht'.mono hseqs (.refl _)

theorem imp (h : Wrote ok pg pg') (hok : ∀ now db w, ok now db w → ok' now db w) : Wrote ok' pg pg' := by
  obtain ⟨ws, hdb, hseqs, hnow, ht⟩ := h
  exact ⟨ws, hdb, hseqs, hnow, ht.imp (hok pg.now)⟩

theorem now (h : Wrote ok pg pg') : pg'.now = pg.now := by
  obtain ⟨-, -, -, hnow, -⟩ := h
  exact hnow

theorem before (h : Wrote ok pg pg') : pg.seqs.Before pg'.seqs := by
  obtain ⟨_, -, hseqs, -, -⟩ := h
  exact hseqs

theorem valid (h : Wrote ok pg pg') (hv : pg.Valid) : pg'.Valid := by
  obtain ⟨ws, hdb, hseqs, -, ht⟩ := h
  constructor
  · rw [hdb]; exact ht.keys (hv.keys.mono hseqs)
  · rw [hdb]; exact ht.refs hv.refs

/-- What every write does to a database with the constraints, the call does. -/
theorem lift (h : Wrote ok pg pg') (hv : pg.Valid) {R : Db → Db → Prop} (hrefl : ∀ db, R db db)
    (htrans : ∀ {a b c}, R a b → R b c → R a c)
    (hstep : ∀ seqs db w, db.Keys seqs → db.Refs → w.Legal pg.seqs seqs db → ok pg.now db w → R db (w.apply db)) :
    R pg.db pg'.db := by
  obtain ⟨ws, hdb, hseqs, -, ht⟩ := h
  rw [hdb]
  exact ht.lift hrefl htrans (hstep pg'.seqs) (hv.keys.mono hseqs) hv.refs

end Wrote

/-! ### What no write takes away -/

theorem Write.frame_tasks {w : Write} (h : .tasks ∉ w.tables) (db : Db) : (w.apply db).tasks = db.tasks := by
  cases w <;> first | rfl | simp [Write.tables] at h

theorem Write.frame_taskDeps {w : Write} (h : .taskDeps ∉ w.tables) (db : Db) :
    (w.apply db).taskDeps = db.taskDeps := by
  cases w <;> first | rfl | simp [Write.tables] at h

theorem Write.frame_taskEvents {w : Write} (h : .taskEvents ∉ w.tables) (db : Db) :
    (w.apply db).taskEvents = db.taskEvents := by
  cases w <;> first | rfl | simp [Write.tables] at h

theorem Write.frame_deliveries {w : Write} (h : .webhookDeliveries ∉ w.tables) (db : Db) :
    (w.apply db).deliveries = db.deliveries := by
  cases w <;> first | rfl | simp [Write.tables] at h

theorem Write.frame_locks {w : Write} (h : .locks ∉ w.tables) (db : Db) : (w.apply db).locks = db.locks := by
  cases w <;> first | rfl | simp [Write.tables] at h

theorem Write.Legal.agentIn {db : Db} {base seqs : Seqs} {w : Write} (hw : w.Legal base seqs db) {a t : Uuid}
    (h : db.agentIn a t) : (w.apply db).agentIn a t := by
  by_cases hd : w.deletes
  · cases w <;> first | exact h | exact hd.elim
  · exact (hw.grows hd).agent a t h

theorem Write.Legal.taskIn {db : Db} {base seqs : Seqs} {w : Write} (hw : w.Legal base seqs db) {k t : Uuid}
    (h : db.taskIn k t) : (w.apply db).taskIn k t := by
  by_cases hd : w.deletes
  · cases w <;> first | exact h | exact hd.elim
  · exact (hw.grows hd).task k t h

theorem Trail.agentIn {ok : Db → Write → Prop} {base seqs : Seqs} {db : Db} {ws : List Write}
    (ht : Trail ok base seqs db ws) {a t : Uuid} (h : db.agentIn a t) : (db.write ws).agentIn a t := by
  induction ws generalizing db with
  | nil => exact h
  | cons w ws ih => exact ih ht.2.2 (ht.1.agentIn h)

theorem Trail.taskIn {ok : Db → Write → Prop} {base seqs : Seqs} {db : Db} {ws : List Write}
    (ht : Trail ok base seqs db ws) {k t : Uuid} (h : db.taskIn k t) : (db.write ws).taskIn k t := by
  induction ws generalizing db with
  | nil => exact h
  | cons w ws ih => exact ih ht.2.2 (ht.1.taskIn h)

theorem Wrote.agentIn {ok : Time → Db → Write → Prop} {pg pg' : Pg} (h : Wrote ok pg pg') {a t : Uuid}
    (ha : pg.db.agentIn a t) : pg'.db.agentIn a t := by
  obtain ⟨ws, hdb, -, -, ht⟩ := h
  exact hdb ▸ ht.agentIn ha

/-! ### The judgement on statements and functions -/

/-- From a valid state with `P`, the statement only makes legal writes with `ok`, and its answer has `Q`. -/
def Sql.Writes {β : Type} (ok : Time → Db → Write → Prop) (P : Db → Prop) (s : Sql β) (Q : β → Db → Prop) : Prop :=
  ∀ pg : Pg, pg.Valid → P pg.db → ∀ b seqs ws, s pg = .ok (b, seqs, ws) →
    pg.seqs.Before seqs ∧ Trail (ok pg.now) pg.seqs seqs pg.db ws ∧ Q b (pg.db.write ws)

theorem Sql.Writes.pre {β : Type} {ok : Time → Db → Write → Prop} {P P' : Db → Prop} {s : Sql β} {Q : β → Db → Prop}
    (h : Sql.Writes ok P s Q) (hP : ∀ db, P' db → P db) : Sql.Writes ok P' s Q :=
  fun pg hv hp => h pg hv (hP _ hp)

/-- The same for a store function that runs whole. -/
def Bus.Writes {α : Type} (ok : Time → Db → Write → Prop) (P : Db → Prop) (x : Bus α) (Q : α → Db → Prop) : Prop :=
  ∀ pg : Pg, pg.Valid → P pg.db →
    Wrote ok pg (x.exec pg).2 ∧ ∀ a, (x.exec pg).1 = .ok a → Q a (x.exec pg).2.db

/-- The caller is an agent of its team. -/
def Caller (agent team : Uuid) (db : Db) : Prop := db.agentIn agent team

theorem Caller.hasTeam {pg : Pg} {agent team : Uuid} (hc : Caller agent team pg.db) (hv : pg.Valid) :
    pg.db.hasTeam team = true := by
  obtain ⟨a, ha, hq⟩ := List.any_eq_true.1 (show pg.db.agentIn agent team = true from hc)
  simp only [Bool.and_eq_true, beq_iff_eq] at hq
  exact hq.2 ▸ hv.refs.agents a ha

/-- The caller stays an agent of its team. -/
theorem Sql.Writes.caller {β : Type} {ok : Time → Db → Write → Prop} {P : Db → Prop} {s : Sql β} {Q : β → Db → Prop}
    {agent team : Uuid} (h : Sql.Writes ok P s Q) (hP : ∀ db, P db → Caller agent team db) :
    Sql.Writes ok P s fun b db => Caller agent team db ∧ Q b db := by
  intro pg hv hp b seqs ws hs
  obtain ⟨hb, ht, hq⟩ := h pg hv hp b seqs ws hs
  exact ⟨hb, ht, ht.agentIn (hP _ hp), hq⟩

namespace Bus.Writes
variable {α β : Type} {ok ok' : Time → Db → Write → Prop} {P : Db → Prop} {Q : α → Db → Prop} {x : Bus α}

theorem readOnly (h : ReadOnly x) : Bus.Writes ok P x fun _ => P := by
  intro pg _ hP
  rw [h pg]
  exact ⟨.refl ok pg, fun _ _ => hP⟩

/-- The answer of a query is what the state holds. -/
theorem query {t : Table} {q : Pg → α} :
    Bus.Writes ok P (CrewSync.select t q) fun a db => P db ∧ ∃ pg : Pg, pg.db = db ∧ a = q pg := by
  intro pg _ hP
  refine ⟨.refl ok pg, fun a ha => ⟨hP, pg, rfl, ?_⟩⟩
  simp only [exec_select, Except.ok.injEq] at ha
  exact ha.symm

theorem of_readOnly (h : ReadOnly x) : Bus.Writes ok P x fun _ _ => True := by
  intro pg _ _
  rw [h pg]
  exact ⟨.refl ok pg, fun _ _ => trivial⟩

theorem pure {a : α} (h : ∀ db, P db → Q a db) : Bus.Writes ok P (Pure.pure a) Q := by
  intro pg _ hP
  refine ⟨.refl ok pg, fun b hb => ?_⟩
  simp only [exec_pure, Except.ok.injEq] at hb
  exact hb ▸ h _ hP

theorem throw {e : BusError} : Bus.Writes ok P (MonadExcept.throw e : Bus α) Q := by
  intro pg _ _
  exact ⟨.refl ok pg, fun b hb => by simp at hb⟩

/-- A failed check ends the call. -/
theorem throw_bind {e : BusError} {f : α → Bus β} {Q' : β → Db → Prop} :
    Bus.Writes ok P ((MonadExcept.throw e : Bus α) >>= f) Q' := by
  intro pg _ _
  rw [exec_bind_error (exec_throw e)]
  exact ⟨.refl ok pg, fun b hb => by simp at hb⟩

theorem execute {l : Stmt} {s : Sql α} (h : Sql.Writes ok P s Q) : Bus.Writes ok P (CrewSync.execute l s) Q := by
  intro pg hv hP
  simp only [exec_execute, Sql.answer, Sql.effect]
  cases hs : s pg with
  | error e => exact ⟨.refl ok pg, fun a ha => by simp [Except.map] at ha⟩
  | ok r =>
    obtain ⟨b, seqs, ws⟩ := r
    obtain ⟨hb, ht, hQ⟩ := h pg hv hP b seqs ws hs
    refine ⟨⟨ws, rfl, hb, rfl, ht⟩, fun a ha => ?_⟩
    simp only [Except.map, Except.ok.injEq] at ha
    exact ha ▸ hQ

theorem bind {f : α → Bus β} {Q' : β → Db → Prop} (hx : Bus.Writes ok P x Q)
    (hf : ∀ a, Bus.Writes ok (Q a) (f a) Q') : Bus.Writes ok P (x >>= f) Q' := by
  intro pg hv hP
  obtain ⟨hw, hQ⟩ := hx pg hv hP
  rw [exec_bind]
  cases h : x.exec pg with
  | mk r pg' =>
    rw [h] at hw hQ
    cases r with
    | error e => exact ⟨hw, fun b hb => by simp at hb⟩
    | ok a =>
      obtain ⟨hw', hQ'⟩ := hf a pg' (hw.valid hv) (hQ a rfl)
      exact ⟨hw.trans hw', hQ'⟩

theorem imp {P' : Db → Prop} {Q' : α → Db → Prop} (h : Bus.Writes ok P x Q) (hP : ∀ db, P' db → P db)
    (hQ : ∀ a db, Q a db → Q' a db) : Bus.Writes ok P' x Q' := by
  intro pg hv hP'
  obtain ⟨hw, hQ₀⟩ := h pg hv (hP _ hP')
  exact ⟨hw, fun a ha => hQ a _ (hQ₀ a ha)⟩

theorem map {f : α → β} (h : Bus.Writes ok P x Q) : Bus.Writes ok P (f <$> x) fun _ _ => True := by
  intro pg hv hP
  rw [exec_map]
  exact ⟨(h pg hv hP).1, fun _ _ => trivial⟩

theorem ite {c : Prop} [Decidable c] {y : Bus α} (hx : c → Bus.Writes ok P x Q) (hy : ¬ c → Bus.Writes ok P y Q) :
    Bus.Writes ok P (if c then x else y) Q := by
  split
  · next h => exact hx h
  · next h => exact hy h

/-- A check or a query first: it changes nothing. -/
theorem reads {f : α → Bus β} {Q' : β → Db → Prop} (hx : ReadOnly x) (hf : ∀ a, Bus.Writes ok P (f a) Q') :
    Bus.Writes ok P (x >>= f) Q' :=
  (readOnly hx).bind hf

end Bus.Writes

/-! ### Transactions -/

/-- The connection is in a transaction that began at the present time of the server. -/
def Conn.Open (c : Conn) (pg : Pg) : Prop := ∃ tx, c.tx = some tx ∧ tx.now = pg.now

/-- Inside a transaction: the committed tables stay, and what the connection sees comes from what it saw by
    legal writes with `ok`. `out` is the connection in the answer. -/
def Bus.InTx {α : Type} (ok : Time → Db → Write → Prop) (P : Db → Prop) (c : Conn) (x : Bus α) (out : α → Conn)
    (Q : α → Db → Prop) : Prop :=
  ∀ pg, c.Open pg → (c.view pg).Valid → P (c.view pg).db →
    (x.exec pg).2.db = pg.db ∧ (x.exec pg).2.now = pg.now ∧ pg.seqs.Before (x.exec pg).2.seqs ∧
    ∀ a, (x.exec pg).1 = .ok a → (out a).pid = c.pid ∧ (out a).Open (x.exec pg).2 ∧
      Wrote ok (c.view pg) ((out a).view (x.exec pg).2) ∧ Q a ((out a).view (x.exec pg).2).db

namespace Bus.InTx
variable {α β : Type} {ok : Time → Db → Write → Prop} {P : Db → Prop} {c : Conn}

theorem throw {out : α → Conn} {Q : α → Db → Prop} {e : BusError} :
    Bus.InTx ok P c (MonadExcept.throw e : Bus α) out Q :=
  fun _ _ _ _ => ⟨rfl, rfl, .refl _, fun a ha => by simp at ha⟩

theorem throw_bind {out : β → Conn} {Q : β → Db → Prop} {e : BusError} {f : α → Bus β} :
    Bus.InTx ok P c ((MonadExcept.throw e : Bus α) >>= f) out Q := by
  intro pg _ _ _
  rw [exec_bind_error (exec_throw e)]
  exact ⟨rfl, rfl, .refl _, fun a ha => by simp at ha⟩

theorem pure {out : α → Conn} {Q : α → Db → Prop} {a : α} (hout : out a = c) (hQ : ∀ db, P db → Q a db) :
    Bus.InTx ok P c (Pure.pure a) out Q := by
  intro pg hopen _ hP
  refine ⟨rfl, rfl, .refl _, fun b hb => ?_⟩
  simp only [exec_pure, Except.ok.injEq] at hb
  subst hb
  rw [hout]
  exact ⟨rfl, hopen, .refl ok _, hQ _ hP⟩

theorem execute {l : Stmt} {lock : Conn.LockOf} {s : Sql β} {Q : β → Db → Prop} (h : Sql.Writes ok P s Q) :
    Bus.InTx ok P c (c.execute l lock s) (·.2) fun r => Q r.1 := by
  intro pg hopen hv hP
  obtain ⟨tx, htx, hnow⟩ := hopen
  have hview : ∀ pg : Pg, c.view pg = { pg with db := pg.db.write tx.writes, now := tx.now } := by
    intro pg
    simp only [Conn.view, htx]
  have hexec : (c.execute l lock s).exec pg = (c.answer s pg, c.effect lock s pg) := rfl
  rw [hexec]
  simp only [Conn.effect, htx, Conn.answer]
  cases hs : s (c.view pg) with
  | error e => exact ⟨rfl, rfl, .refl _, fun a ha => by simp at ha⟩
  | ok r =>
    obtain ⟨b, seqs, ws⟩ := r
    obtain ⟨hb, ht, hQ⟩ := h (c.view pg) hv hP b seqs ws hs
    rw [hview] at hb ht hQ
    refine ⟨rfl, rfl, hb, fun a ha => ?_⟩
    simp only [Except.ok.injEq] at ha
    subst ha
    refine ⟨rfl, ⟨⟨tx.now, tx.writes ++ ws⟩, rfl, hnow⟩, ⟨ws, ?_, ?_, ?_, ?_⟩, ?_⟩
    · simp only [Conn.view, htx, Option.map_some, Db.write_append]
    · simpa only [Conn.view, htx, Option.map_some] using hb
    · simp only [Conn.view, htx, Option.map_some]
    · simpa only [Conn.view, htx, Option.map_some] using ht
    · simpa only [Conn.view, htx, Option.map_some, Db.write_append] using hQ

theorem bind {outx : α → Conn} {outf : β → Conn} {x : Bus α} {f : α → Bus β} {Q : α → Db → Prop}
    {Q' : β → Db → Prop} (hx : Bus.InTx ok P c x outx Q) (hf : ∀ a, Bus.InTx ok (Q a) (outx a) (f a) outf Q') :
    Bus.InTx ok P c (x >>= f) outf Q' := by
  intro pg hopen hv hP
  obtain ⟨hdb, hnow, hseqs, hok⟩ := hx pg hopen hv hP
  rw [exec_bind]
  cases h : x.exec pg with
  | mk r pg' =>
    rw [h] at hdb hnow hseqs hok
    cases r with
    | error e => exact ⟨hdb, hnow, hseqs, fun b hb => by simp at hb⟩
    | ok a =>
      obtain ⟨hpid, hopen', hw, hQ⟩ := hok a rfl
      obtain ⟨hdb', hnow', hseqs', hok'⟩ := hf a pg' hopen' (hw.valid hv) hQ
      refine ⟨hdb'.trans hdb, hnow'.trans hnow, hseqs.trans hseqs', fun b hb => ?_⟩
      obtain ⟨hpid', hopen'', hw', hQ'⟩ := hok' b hb
      exact ⟨hpid'.trans hpid, hopen'', hw.trans hw', hQ'⟩

theorem reads {out : β → Conn} {x : Bus α} {f : α → Bus β} {Q' : β → Db → Prop} (hx : ReadOnly x)
    (hf : ∀ a, Bus.InTx ok P c (f a) out Q') : Bus.InTx ok P c (x >>= f) out Q' := by
  intro pg hopen hv hP
  rw [exec_bind]
  cases h : x.exec pg with
  | mk r pg' =>
    have : pg' = pg := by rw [← hx pg, h]
    subst this
    cases r with
    | error e => exact ⟨rfl, rfl, .refl _, fun b hb => by simp at hb⟩
    | ok a => exact hf a pg' hopen hv hP

theorem ite {γ : Type} {p : Prop} [Decidable p] {x y : Bus γ} {out : γ → Conn} {Q : γ → Db → Prop}
    (hx : p → Bus.InTx ok P c x out Q) (hy : ¬ p → Bus.InTx ok P c y out Q) :
    Bus.InTx ok P c (if p then x else y) out Q := by
  split
  · next h => exact hx h
  · next h => exact hy h

end Bus.InTx

theorem Conn.readOnly_select {β : Type} {c : Conn} {t : Table} {q : Pg → β} : Bus.ReadOnly (c.select t q) :=
  fun _ => rfl

section
variable {α : Type} {ok : Time → Db → Write → Prop} {P : Db → Prop} {pid : Nat} {body : Conn → Bus (α × Conn)}
  {Q : α × Conn → Db → Prop}

/-- How a transaction ends, whole: its writes at the commit, or none. -/
theorem Bus.InTx.wrote (h : ∀ c, c.pid = pid → Bus.InTx ok P c (body c) (·.2) Q) (pg : Pg) (hv : pg.Valid)
    (hP : P pg.db) :
    let r := (body ⟨pid, some ⟨pg.now, []⟩⟩).exec pg
    (∀ c : Conn, Wrote ok pg (c.unlock r.2)) ∧
      ∀ a c, r.1 = .ok (a, c) → Wrote ok pg (c.unlock { r.2 with db := r.2.db.write c.pending }) := by
  obtain ⟨hdb, hnow, hseqs, hok⟩ := h ⟨pid, some ⟨pg.now, []⟩⟩ rfl pg ⟨_, rfl, rfl⟩ hv hP
  refine ⟨fun _ => ⟨[], hdb, hseqs, hnow, trivial⟩, fun a c hr => ?_⟩
  obtain ⟨-, ⟨tx, htx, -⟩, ⟨ws, hws, hs, -, ht⟩, -⟩ := hok (a, c) hr
  have htx : c.tx = some tx := htx
  refine ⟨ws, ?_, ?_, hnow, ?_⟩
  · simpa only [Conn.unlock, Conn.pending, Conn.view, htx, Db.write_nil] using hws
  · simpa only [Conn.unlock, Conn.view, htx] using hs
  · simpa only [Conn.unlock, Conn.view, htx, Db.write_nil] using ht

theorem Bus.Writes.transaction (h : ∀ c, c.pid = pid → Bus.InTx ok P c (body c) (·.2) Q) :
    Bus.Writes ok P (CrewSync.transaction pid body) fun _ _ => True := by
  intro pg hv hP
  refine ⟨?_, fun _ _ => trivial⟩
  obtain ⟨hrollback, hcommit⟩ := Bus.InTx.wrote h pg hv hP
  have hbegin : (Conn.begin pid).exec pg = (.ok ⟨pid, some ⟨pg.now, []⟩⟩, pg) := rfl
  unfold CrewSync.transaction
  rw [exec_bind_ok hbegin, exec_bind_ok (exec_attempt _)]
  cases hr : ((body ⟨pid, some ⟨pg.now, []⟩⟩).exec pg).1 with
  | ok r => exact hcommit r.1 r.2 hr
  | error e => exact hrollback _

end

end CrewSync
