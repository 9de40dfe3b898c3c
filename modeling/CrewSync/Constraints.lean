import CrewSync.Postgres

/-! The constraints of the schema as an invariant. `Db.Keys` holds the unique indexes and the bounds that
    the sequences give, `Db.Refs` the foreign keys. A write that is `Legal` keeps both. -/

namespace CrewSync
open Rows

/-! ### Keys -/

/-- Primary keys, unique indexes, and ids that were drawn from their sequence. -/
structure Db.Keys (db : Db) (seqs : Seqs) : Prop where
  teams : Keyed (·.id) db.teams
  agents : Keyed (·.id) db.agents
  agentNames : Keyed agentKey db.agents
  presence : Keyed presenceKey db.presence
  channels : Keyed (·.id) db.channels
  channelNames : Keyed channelKey db.channels
  messages : Keyed (·.id) db.messages
  messagesBelow : Below (·.id) seqs.messages db.messages
  cursors : Keyed cursorKey db.cursors
  cursorsBelow : Below (·.lastMessageId) seqs.messages db.cursors
  tasks : Keyed (·.id) db.tasks
  taskKeys : Keyed taskKey db.tasks
  taskDeps : db.taskDeps.Nodup
  taskEvents : Keyed (·.id) db.taskEvents
  taskEventsBelow : Below (·.id) seqs.taskEvents db.taskEvents
  notes : Keyed (·.id) db.notes
  noteKeys : Keyed noteKey db.notes
  noteRevisions : Keyed (·.id) db.noteRevisions
  noteRevisionsBelow : Below (·.id) seqs.noteRevisions db.noteRevisions
  locks : Keyed lockKey db.locks
  attachments : Keyed (·.id) db.attachments
  attachmentsBelow : Below (·.id) seqs.attachments db.attachments
  webhooks : Keyed (·.id) db.webhooks
  deliveries : Keyed (·.id) db.deliveries
  deliveriesBelow : Below (·.id) seqs.deliveries db.deliveries

/-! ### References -/

/-- Every reference of `rows` points at a row of `target`. The reply of a message, the agent of a task
    event and that of a note revision are of the same team too, which the schema does not ask for. -/
structure Db.RefsTo (rows target : Db) : Prop where
  agents : ∀ a ∈ rows.agents, target.hasTeam a.teamId
  presence : ∀ p ∈ rows.presence, target.agentExists p.agentId
  channels : ∀ c ∈ rows.channels, target.channelOk c
  senders : ∀ m ∈ rows.messages, target.hasTeam m.teamId ∧ target.agentIn m.senderAgentId m.teamId
  targets : ∀ m ∈ rows.messages, m.channelId.isSome ≠ m.recipientAgentId.isSome
  recipients : ∀ m ∈ rows.messages, ∀ a ∈ m.recipientAgentId, target.agentIn a m.teamId
  posted : ∀ m ∈ rows.messages, ∀ c ∈ m.channelId, target.channelIn c m.teamId
  replies : ∀ m ∈ rows.messages, ∀ r ∈ m.replyTo, target.messageIn r m.teamId
  cursors : ∀ c ∈ rows.cursors, target.agentExists c.agentId
  tasks : ∀ t ∈ rows.tasks, target.taskOk t
  taskDeps : ∀ d ∈ rows.taskDeps, ∃ team, target.taskIn d.taskId team ∧ target.taskIn d.blockedByTaskId team
  taskEvents : ∀ e ∈ rows.taskEvents, ∃ team, target.taskIn e.taskId team ∧
    ∀ a ∈ e.agentId, target.agentIn a team
  notes : ∀ n ∈ rows.notes, target.noteOk n
  noteRevisions : ∀ r ∈ rows.noteRevisions, ∃ team, target.noteIn r.noteId team ∧
    ∀ a ∈ r.updatedBy, target.agentIn a team
  locks : ∀ l ∈ rows.locks, target.lockOk l
  uploaders : ∀ a ∈ rows.attachments, target.hasTeam a.teamId ∧ target.agentIn a.uploaderAgentId a.teamId
  carriers : ∀ a ∈ rows.attachments, a.messageId.isSome ≠ a.taskId.isSome ∧ 0 < a.sizeBytes
  files : ∀ a ∈ rows.attachments, ∀ m ∈ a.messageId, target.messageIn m a.teamId
  taskFiles : ∀ a ∈ rows.attachments, ∀ t ∈ a.taskId, target.taskIn t a.teamId
  webhooks : ∀ w ∈ rows.webhooks, target.hasTeam w.teamId
  deliveries : ∀ d ∈ rows.deliveries, ∃ w ∈ target.webhooks, w.id = d.webhookId ∧ w.teamId = d.teamId

/-- Every reference points at a row. -/
def Db.Refs (db : Db) : Prop := db.RefsTo db

structure Pg.Valid (pg : Pg) : Prop where
  keys : pg.db.Keys pg.seqs
  refs : pg.db.Refs

/-- What can be referred to in `db` can be referred to in `db'`. -/
structure Db.Grows (db db' : Db) : Prop where
  team : ∀ t, db.hasTeam t → db'.hasTeam t
  agent : ∀ a t, db.agentIn a t → db'.agentIn a t
  channel : ∀ c t, db.channelIn c t → db'.channelIn c t
  message : ∀ m t, db.messageIn m t → db'.messageIn m t
  task : ∀ k t, db.taskIn k t → db'.taskIn k t
  note : ∀ n t, db.noteIn n t → db'.noteIn n t
  webhook : ∀ w ∈ db.webhooks, ∃ w' ∈ db'.webhooks, w'.id = w.id ∧ w'.teamId = w.teamId

namespace Db

theorem agentExists_iff {db : Db} {a : Uuid} : db.agentExists a ↔ ∃ t, db.agentIn a t := by
  simp only [agentExists, agentIn, List.any_eq_true, Bool.and_eq_true, beq_iff_eq]
  exact ⟨fun ⟨r, hr, h⟩ => ⟨r.teamId, r, hr, h, rfl⟩, fun ⟨_, r, hr, h, _⟩ => ⟨r, hr, h⟩⟩

@[simp] theorem optional_iff {α : Type} {p : α → Bool} {o : Option α} :
    optional p o = true ↔ ∀ a ∈ o, p a = true := by
  cases o <;> simp [optional]

theorem channelOk_iff {db : Db} {c : Channel} :
    db.channelOk c ↔ db.hasTeam c.teamId ∧ ∀ a ∈ c.createdBy, db.agentIn a c.teamId := by
  simp [channelOk]

theorem taskOk_iff {db : Db} {t : Task} :
    db.taskOk t ↔ db.hasTeam t.teamId ∧ (∀ a ∈ t.claimedBy, db.agentIn a t.teamId) ∧
      ∀ a ∈ t.createdBy, db.agentIn a t.teamId := by
  simp [taskOk, and_assoc]

theorem noteOk_iff {db : Db} {n : Note} :
    db.noteOk n ↔ db.hasTeam n.teamId ∧ ∀ a ∈ n.updatedBy, db.agentIn a n.teamId := by
  simp [noteOk]

theorem lockOk_iff {db : Db} {l : Lock} :
    db.lockOk l ↔ db.hasTeam l.teamId ∧ db.agentIn l.holderAgentId l.teamId := by
  simp [lockOk]

namespace Grows
variable {db db' db'' : Db}

theorem refl (db : Db) : db.Grows db :=
  ⟨fun _ h => h, fun _ _ h => h, fun _ _ h => h, fun _ _ h => h, fun _ _ h => h, fun _ _ h => h,
    fun w h => ⟨w, h, rfl, rfl⟩⟩

theorem agentExists (h : db.Grows db') {a : Uuid} (ha : db.agentExists a) : db'.agentExists a := by
  obtain ⟨t, ht⟩ := agentExists_iff.1 ha
  exact agentExists_iff.2 ⟨t, h.agent a t ht⟩

theorem channelOk (h : db.Grows db') {c : Channel} (hc : db.channelOk c) : db'.channelOk c := by
  rw [channelOk_iff] at hc ⊢
  exact ⟨h.team _ hc.1, fun a ha => h.agent a _ (hc.2 a ha)⟩

theorem taskOk (h : db.Grows db') {t : Task} (ht : db.taskOk t) : db'.taskOk t := by
  rw [taskOk_iff] at ht ⊢
  exact ⟨h.team _ ht.1, fun a ha => h.agent a _ (ht.2.1 a ha), fun a ha => h.agent a _ (ht.2.2 a ha)⟩

theorem noteOk (h : db.Grows db') {n : Note} (hn : db.noteOk n) : db'.noteOk n := by
  rw [noteOk_iff] at hn ⊢
  exact ⟨h.team _ hn.1, fun a ha => h.agent a _ (hn.2 a ha)⟩

theorem lockOk (h : db.Grows db') {l : Lock} (hl : db.lockOk l) : db'.lockOk l := by
  rw [lockOk_iff] at hl ⊢
  exact ⟨h.team _ hl.1, h.agent _ _ hl.2⟩

end Grows

/-- References keep their targets when the target only grows. -/
theorem RefsTo.mono {rows db db' : Db} (h : rows.RefsTo db) (hg : db.Grows db') : rows.RefsTo db' where
  agents a ha := hg.team _ (h.agents a ha)
  presence p hp := hg.agentExists (h.presence p hp)
  channels c hc := hg.channelOk (h.channels c hc)
  senders m hm := ⟨hg.team _ (h.senders m hm).1, hg.agent _ _ (h.senders m hm).2⟩
  targets := h.targets
  recipients m hm a ha := hg.agent _ _ (h.recipients m hm a ha)
  posted m hm c hc := hg.channel _ _ (h.posted m hm c hc)
  replies m hm r hr := hg.message _ _ (h.replies m hm r hr)
  cursors c hc := hg.agentExists (h.cursors c hc)
  tasks t ht := hg.taskOk (h.tasks t ht)
  taskDeps d hd :=
    let ⟨team, h₁, h₂⟩ := h.taskDeps d hd
    ⟨team, hg.task _ _ h₁, hg.task _ _ h₂⟩
  taskEvents e he :=
    let ⟨team, h₁, h₂⟩ := h.taskEvents e he
    ⟨team, hg.task _ _ h₁, fun a ha => hg.agent _ _ (h₂ a ha)⟩
  notes n hn := hg.noteOk (h.notes n hn)
  noteRevisions r hr :=
    let ⟨team, h₁, h₂⟩ := h.noteRevisions r hr
    ⟨team, hg.note _ _ h₁, fun a ha => hg.agent _ _ (h₂ a ha)⟩
  locks l hl := hg.lockOk (h.locks l hl)
  uploaders a ha := ⟨hg.team _ (h.uploaders a ha).1, hg.agent _ _ (h.uploaders a ha).2⟩
  carriers := h.carriers
  files a ha m hm := hg.message _ _ (h.files a ha m hm)
  taskFiles a ha t ht := hg.task _ _ (h.taskFiles a ha t ht)
  webhooks w hw := hg.team _ (h.webhooks w hw)
  deliveries d hd := by
    obtain ⟨w, hw, hid, hteam⟩ := h.deliveries d hd
    obtain ⟨w', hw', hid', hteam'⟩ := hg.webhook w hw
    exact ⟨w', hw', hid'.trans hid, hteam'.trans hteam⟩

end Db

/-! ### Legal writes -/

/-- A write that the constraints admit. The ids of messages and of outbox rows lie above the sequences as
    they were at `base`, and every id is one that the sequences have given out at `seqs`. -/
def Write.Legal (base seqs : Seqs) (db : Db) : Write → Prop
  | .putTeam _ => True
  | .putAgent r => db.hasTeam r.teamId ∧ ∀ a ∈ db.agents, (a.id = r.id ↔ Db.agentKey a = Db.agentKey r)
  | .putPresence r => db.agentExists r.agentId
  | .putChannel r => db.channelOk r ∧ ∀ c ∈ db.channels, (c.id = r.id ↔ Db.channelKey c = Db.channelKey r)
  | .insertMessage r => db.messageOk r ∧ (∀ a ∈ r.replyTo, db.messageIn a r.teamId) ∧
      (∀ m ∈ db.messages, m.id < r.id) ∧ r.id ≤ seqs.messages ∧ base.messages < r.id
  | .deleteMessages _ => True
  | .putCursor r => db.agentExists r.agentId ∧ r.lastMessageId ≤ seqs.messages
  | .insertTask r => db.taskOk r ∧ ∀ t ∈ db.tasks, t.id ≠ r.id ∧ Db.taskKey t ≠ Db.taskKey r
  | .updateTasks p f => ∀ t ∈ db.tasks, p t = true →
      (f t).id = t.id ∧ Db.taskKey (f t) = Db.taskKey t ∧ db.taskOk (f t)
  | .insertTaskDep d => db.taskDepOk d ∧ d ∉ db.taskDeps
  | .insertTaskEvent e => (∃ team, db.taskIn e.taskId team ∧ ∀ a ∈ e.agentId, db.agentIn a team) ∧
      (∀ x ∈ db.taskEvents, x.id < e.id) ∧ e.id ≤ seqs.taskEvents
  | .deleteTaskEvents _ => True
  | .putNote r => db.noteOk r ∧ ∀ n ∈ db.notes, (n.id = r.id ↔ Db.noteKey n = Db.noteKey r)
  | .deleteNotes _ => True
  | .insertNoteRevision r => (∃ team, db.noteIn r.noteId team ∧ ∀ a ∈ r.updatedBy, db.agentIn a team) ∧
      (∀ x ∈ db.noteRevisions, x.id < r.id) ∧ r.id ≤ seqs.noteRevisions
  | .deleteNoteRevisions _ => True
  | .putLock r => db.lockOk r
  | .deleteLocks _ => True
  | .insertAttachment r => db.attachmentOk r ∧ (∀ a ∈ db.attachments, a.id < r.id) ∧ r.id ≤ seqs.attachments
  | .insertWebhook r => db.hasTeam r.teamId ∧ ∀ w ∈ db.webhooks, w.id ≠ r.id
  | .deleteWebhooks _ => True
  | .insertDelivery r => (∃ w ∈ db.webhooks, w.id = r.webhookId ∧ w.teamId = r.teamId) ∧
      (∀ d ∈ db.deliveries, d.id < r.id) ∧ r.id ≤ seqs.deliveries ∧ base.deliveries < r.id
  | .updateDeliveries p f => ∀ d ∈ db.deliveries, p d = true →
      (f d).id = d.id ∧ (f d).webhookId = d.webhookId ∧ (f d).teamId = d.teamId
  | .deleteDeliveries _ => True
  | .notify _ => True

/-! ### Legal writes keep the keys -/

namespace Seqs

/-- Sequences never go back. -/
structure Before (a b : Seqs) : Prop where
  messages : a.messages ≤ b.messages
  taskEvents : a.taskEvents ≤ b.taskEvents
  noteRevisions : a.noteRevisions ≤ b.noteRevisions
  attachments : a.attachments ≤ b.attachments
  deliveries : a.deliveries ≤ b.deliveries

theorem Before.refl (a : Seqs) : a.Before a := ⟨le_rfl, le_rfl, le_rfl, le_rfl, le_rfl⟩

theorem Before.trans {a b c : Seqs} (h : a.Before b) (h' : b.Before c) : a.Before c :=
  ⟨h.1.trans h'.1, h.2.trans h'.2, h.3.trans h'.3, h.4.trans h'.4, h.5.trans h'.5⟩

end Seqs

namespace Db

theorem Keys.mono {db : Db} {seqs seqs' : Seqs} (h : db.Keys seqs) (hs : seqs.Before seqs') :
    db.Keys seqs' :=
  { h with
    messagesBelow := h.messagesBelow.mono hs.messages
    cursorsBelow := h.cursorsBelow.mono hs.messages
    taskEventsBelow := h.taskEventsBelow.mono hs.taskEvents
    noteRevisionsBelow := h.noteRevisionsBelow.mono hs.noteRevisions
    attachmentsBelow := h.attachmentsBelow.mono hs.attachments
    deliveriesBelow := h.deliveriesBelow.mono hs.deliveries }

theorem Keys.apply {db : Db} {base seqs : Seqs} {w : Write} (h : db.Keys seqs) (hw : w.Legal base seqs db) :
    (w.apply db).Keys seqs := by
  cases w with
  | putTeam r => exact { h with teams := h.teams.put r }
  | putAgent r => exact { h with agents := h.agents.put r, agentNames := h.agentNames.put_of_iff fun a ha => (hw.2 a ha).symm }
  | putPresence r => exact { h with presence := h.presence.put r }
  | putChannel r =>
    exact { h with channels := h.channels.put r, channelNames := h.channelNames.put_of_iff fun c hc => (hw.2 c hc).symm }
  | insertMessage r =>
    exact { h with messages := h.messages.append_above hw.2.2.1, messagesBelow := h.messagesBelow.append hw.2.2.2.1 }
  | deleteMessages p =>
    exact { h with
      messages := (h.messages.delete p).map fun _ _ => rfl
      messagesBelow := (h.messagesBelow.delete p).map fun _ _ => rfl
      attachments := h.attachments.delete _
      attachmentsBelow := h.attachmentsBelow.delete _ }
  | putCursor r => exact { h with cursors := h.cursors.put r, cursorsBelow := h.cursorsBelow.put hw.2 }
  | insertTask r =>
    exact { h with
      tasks := h.tasks.append fun t ht => (hw.2 t ht).1
      taskKeys := h.taskKeys.append fun t ht => (hw.2 t ht).2 }
  | updateTasks p f =>
    exact { h with
      tasks := h.tasks.update fun t ht hp => (hw t ht hp).1
      taskKeys := h.taskKeys.update fun t ht hp => (hw t ht hp).2.1 }
  | insertTaskDep d =>
    refine { h with taskDeps := List.nodup_append.2 ⟨h.taskDeps, List.nodup_singleton d, ?_⟩ }
    rintro a ha b hb rfl
    exact hw.2 (List.mem_singleton.1 hb ▸ ha)
  | insertTaskEvent e =>
    exact { h with
      taskEvents := h.taskEvents.append_above hw.2.1, taskEventsBelow := h.taskEventsBelow.append hw.2.2 }
  | deleteTaskEvents p =>
    exact { h with taskEvents := h.taskEvents.delete p, taskEventsBelow := h.taskEventsBelow.delete p }
  | putNote r => exact { h with notes := h.notes.put_of_iff hw.2, noteKeys := h.noteKeys.put r }
  | deleteNotes p =>
    exact { h with
      notes := h.notes.delete p
      noteKeys := h.noteKeys.delete p
      noteRevisions := h.noteRevisions.delete _
      noteRevisionsBelow := h.noteRevisionsBelow.delete _ }
  | insertNoteRevision r =>
    exact { h with
      noteRevisions := h.noteRevisions.append_above hw.2.1
      noteRevisionsBelow := h.noteRevisionsBelow.append hw.2.2 }
  | deleteNoteRevisions p =>
    exact { h with noteRevisions := h.noteRevisions.delete p, noteRevisionsBelow := h.noteRevisionsBelow.delete p }
  | putLock r => exact { h with locks := h.locks.put r }
  | deleteLocks p => exact { h with locks := h.locks.delete p }
  | insertAttachment r =>
    exact { h with
      attachments := h.attachments.append_above hw.2.1, attachmentsBelow := h.attachmentsBelow.append hw.2.2 }
  | insertWebhook r => exact { h with webhooks := h.webhooks.append hw.2 }
  | deleteWebhooks p =>
    exact { h with
      webhooks := h.webhooks.delete p
      deliveries := h.deliveries.delete _
      deliveriesBelow := h.deliveriesBelow.delete _ }
  | insertDelivery r =>
    exact { h with
      deliveries := h.deliveries.append_above hw.2.1, deliveriesBelow := h.deliveriesBelow.append hw.2.2.1 }
  | updateDeliveries p f =>
    exact { h with
      deliveries := h.deliveries.update fun d hd hp => (hw d hd hp).1
      deliveriesBelow := h.deliveriesBelow.update fun d hd hp => (hw d hd hp).1 }
  | deleteDeliveries p =>
    exact { h with deliveries := h.deliveries.delete p, deliveriesBelow := h.deliveriesBelow.delete p }
  | notify _ => exact { h with }

end Db

/-! ### Legal writes keep the references -/

/-- The deletions that take rows away that others refer to. -/
def Write.deletes : Write → Prop
  | .deleteMessages _ | .deleteNotes _ | .deleteWebhooks _ => True
  | _ => False

theorem Write.Legal.grows {db : Db} {base seqs : Seqs} {w : Write} (hw : w.Legal base seqs db) (hd : ¬ w.deletes) :
    db.Grows (w.apply db) := by
  cases w with
  | putTeam r =>
    refine { Db.Grows.refl db with team := fun t h => any_put h fun a _ hk hq => ?_ }
    simp only [beq_iff_eq] at hq ⊢
    exact hk.symm.trans hq
  | putAgent r =>
    refine { Db.Grows.refl db with agent := fun a t h => any_put h fun b hb hk hq => ?_ }
    simp only [Bool.and_eq_true, beq_iff_eq] at hq ⊢
    have hkey := ((hw.2 b hb).1 hk)
    simp only [Db.agentKey, Prod.mk.injEq] at hkey
    exact ⟨hk.symm.trans hq.1, hkey.1.symm.trans hq.2⟩
  | putChannel r =>
    refine { Db.Grows.refl db with channel := fun a t h => any_put h fun b hb hk hq => ?_ }
    simp only [Bool.and_eq_true, beq_iff_eq] at hq ⊢
    have hkey := ((hw.2 b hb).1 hk)
    simp only [Db.channelKey, Prod.mk.injEq] at hkey
    exact ⟨hk.symm.trans hq.1, hkey.1.symm.trans hq.2⟩
  | putNote r =>
    refine { Db.Grows.refl db with note := fun a t h => any_put h fun b hb hk hq => ?_ }
    simp only [Bool.and_eq_true, beq_iff_eq] at hq ⊢
    have hid := (hw.2 b hb).2 hk
    simp only [Db.noteKey, Prod.mk.injEq] at hk
    exact ⟨hid.symm.trans hq.1, hk.1.symm.trans hq.2⟩
  | insertMessage r => exact { Db.Grows.refl db with message := fun m t h => any_append h r }
  | insertTask r => exact { Db.Grows.refl db with task := fun k t h => any_append h r }
  | updateTasks p f =>
    refine { Db.Grows.refl db with task := fun k t h => any_update h fun r hr hp hq => ?_ }
    obtain ⟨hid, hkey, -⟩ := hw r hr hp
    simp only [Db.taskKey, Prod.mk.injEq] at hkey
    simpa [hid, hkey.1] using hq
  | insertWebhook r =>
    exact { Db.Grows.refl db with
      webhook := fun w h => ⟨w, List.mem_append_left _ h, rfl, rfl⟩ }
  | deleteMessages _ | deleteNotes _ | deleteWebhooks _ => exact absurd trivial hd
  | _ => exact { Db.Grows.refl db with }

namespace Db

/-- The rows of a table together with one more. -/
theorem forall_mem_append_one {α : Type} {rows : List α} {x : α} {P : α → Prop} (h : ∀ r ∈ rows, P r)
    (hx : P x) : ∀ r ∈ rows ++ [x], P r := by
  intro r hr
  rcases List.mem_append.1 hr with hr | hr
  · exact h r hr
  · exact List.mem_singleton.1 hr ▸ hx

theorem forall_mem_put {α κ : Type} [DecidableEq κ] {key : α → κ} {rows : List α} {x : α} {P : α → Prop}
    (h : ∀ r ∈ rows, P r) (hx : P x) : ∀ r ∈ put key x rows, P r := by
  intro r hr
  rcases mem_put.1 hr with rfl | ⟨hr, -⟩
  · exact hx
  · exact h r hr

theorem forall_mem_delete {α : Type} {rows : List α} {p : α → Bool} {P : α → Prop} (h : ∀ r ∈ rows, P r) :
    ∀ r ∈ delete p rows, P r :=
  fun r hr => h r (mem_delete.1 hr).1

theorem messageOk_iff {db : Db} {m : Message} :
    db.messageOk m ↔ m.channelId.isSome ≠ m.recipientAgentId.isSome ∧ db.hasTeam m.teamId ∧
      db.agentIn m.senderAgentId m.teamId ∧ (∀ a ∈ m.recipientAgentId, db.agentIn a m.teamId) ∧
      (∀ c ∈ m.channelId, db.channelIn c m.teamId) ∧ ∀ r ∈ m.replyTo, db.messages.any (·.id == r) := by
  simp only [messageOk, Bool.and_eq_true, optional_iff, bne_iff_ne, and_assoc]

theorem attachmentOk_iff {db : Db} {a : Attachment} :
    db.attachmentOk a ↔ a.messageId.isSome ≠ a.taskId.isSome ∧ 0 < a.sizeBytes ∧ db.hasTeam a.teamId ∧
      db.agentIn a.uploaderAgentId a.teamId ∧ (∀ m ∈ a.messageId, db.messageIn m a.teamId) ∧
      ∀ t ∈ a.taskId, db.taskIn t a.teamId := by
  simp only [attachmentOk, Bool.and_eq_true, optional_iff, bne_iff_ne, decide_eq_true_eq, and_assoc]

theorem taskDepOk_iff {db : Db} {d : TaskDep} :
    db.taskDepOk d ↔ d.taskId ≠ d.blockedByTaskId ∧
      ∃ team, db.taskIn d.taskId team ∧ db.taskIn d.blockedByTaskId team := by
  simp only [taskDepOk, Bool.and_eq_true, bne_iff_ne, List.any_eq_true, beq_iff_eq]
  refine and_congr_right fun _ => ⟨?_, ?_⟩
  · rintro ⟨t, ht, hid, hin⟩
    exact ⟨t.teamId, List.any_eq_true.2 ⟨t, ht, by simp [hid]⟩, hin⟩
  · rintro ⟨team, h₁, h₂⟩
    obtain ⟨t, ht, h₁⟩ := List.any_eq_true.1 h₁
    simp only [Bool.and_eq_true, beq_iff_eq] at h₁
    exact ⟨t, ht, h₁.1, h₁.2 ▸ h₂⟩

/-- A reply that is deleted is forgotten, and the files of a deleted message go with it. -/
theorem Refs.deleteMessages {db : Db} (h : db.Refs) (p : Message → Bool) :
    ((Write.deleteMessages p).apply db).Refs := by
  have stays : ∀ id team, db.messageIn id team →
      (db.messages.any fun m => m.id == id && p m) = false →
      ((Write.deleteMessages p).apply db).messageIn id team := by
    intro id team hin hgone
    obtain ⟨m, hm, hq⟩ := List.any_eq_true.1 hin
    simp only [Bool.and_eq_true, beq_iff_eq] at hq
    have hp : p m = false := by
      by_contra hp
      have := List.any_eq_false.1 hgone m hm
      simp_all
    exact List.any_eq_true.2 ⟨_, List.mem_map.2 ⟨m, mem_delete.2 ⟨hm, hp⟩, rfl⟩, by simp [hq]⟩
  have old : ∀ m ∈ ((Write.deleteMessages p).apply db).messages, ∃ m₀ ∈ db.messages,
      m = { m₀ with replyTo := m₀.replyTo.filter fun r => !db.messages.any fun x => x.id == r && p x } := by
    intro m hm
    obtain ⟨m₀, hm₀, rfl⟩ := List.mem_map.1 hm
    exact ⟨m₀, (mem_delete.1 hm₀).1, rfl⟩
  exact { h with
    senders := fun m hm => by obtain ⟨m₀, hm₀, rfl⟩ := old m hm; exact h.senders m₀ hm₀
    targets := fun m hm => by obtain ⟨m₀, hm₀, rfl⟩ := old m hm; exact h.targets m₀ hm₀
    recipients := fun m hm => by obtain ⟨m₀, hm₀, rfl⟩ := old m hm; exact h.recipients m₀ hm₀
    posted := fun m hm => by obtain ⟨m₀, hm₀, rfl⟩ := old m hm; exact h.posted m₀ hm₀
    replies := fun m hm r hr => by
      obtain ⟨m₀, hm₀, rfl⟩ := old m hm
      obtain ⟨hr, hgone⟩ := Option.mem_filter_iff.1 hr
      exact stays r _ (h.replies m₀ hm₀ r hr) (by simpa using hgone)
    uploaders := forall_mem_delete h.uploaders
    carriers := forall_mem_delete h.carriers
    files := fun a ha m hm => by
      obtain ⟨ha, hgone⟩ := mem_delete.1 ha
      rw [Option.mem_def.1 hm, Option.any_some] at hgone
      exact stays m _ (h.files a ha m hm) hgone
    taskFiles := forall_mem_delete h.taskFiles }

theorem Refs.deleteNotes {db : Db} (h : db.Refs) (p : Note → Bool) :
    ((Write.deleteNotes p).apply db).Refs := by
  refine { h with notes := forall_mem_delete h.notes, noteRevisions := fun r hr => ?_ }
  obtain ⟨hr, hgone⟩ := mem_delete.1 hr
  obtain ⟨team, hin, ha⟩ := h.noteRevisions r hr
  obtain ⟨n, hn, hq⟩ := List.any_eq_true.1 hin
  simp only [Bool.and_eq_true, beq_iff_eq] at hq
  have hp : p n = false := by
    by_contra hp
    have := List.any_eq_false.1 hgone n hn
    simp_all
  exact ⟨team, List.any_eq_true.2 ⟨n, mem_delete.2 ⟨hn, hp⟩, by simp [hq]⟩, ha⟩

theorem Refs.deleteWebhooks {db : Db} (h : db.Refs) (p : Webhook → Bool) :
    ((Write.deleteWebhooks p).apply db).Refs := by
  refine { h with webhooks := forall_mem_delete h.webhooks, deliveries := fun d hd => ?_ }
  obtain ⟨hd, hgone⟩ := mem_delete.1 hd
  obtain ⟨w, hw, hid, hteam⟩ := h.deliveries d hd
  have hp : p w = false := by
    by_contra hp
    have := List.any_eq_false.1 hgone w hw
    simp_all
  exact ⟨w, mem_delete.2 ⟨hw, hp⟩, hid, hteam⟩

theorem Refs.apply {db : Db} {base seqs : Seqs} {w : Write} (h : db.Refs) (hw : w.Legal base seqs db) :
    (w.apply db).Refs := by
  by_cases hd : w.deletes
  · cases w with
    | deleteMessages p => exact h.deleteMessages p
    | deleteNotes p => exact h.deleteNotes p
    | deleteWebhooks p => exact h.deleteWebhooks p
    | _ => exact hd.elim
  have hg := hw.grows hd
  -- The rows that were there still refer to rows of the new state; what is left is the written row.
  have hm : db.RefsTo (w.apply db) := h.mono hg
  cases w with
  | putAgent r => exact { hm with agents := forall_mem_put hm.agents (hg.team _ hw.1) }
  | putPresence r => exact { hm with presence := forall_mem_put hm.presence (hg.agentExists hw) }
  | putChannel r => exact { hm with channels := forall_mem_put hm.channels (hg.channelOk hw.1) }
  | insertMessage r =>
    obtain ⟨htarget, hteam, hsender, hrecipient, hchannel, -⟩ := messageOk_iff.1 hw.1
    exact { hm with
      senders := forall_mem_append_one hm.senders ⟨hg.team _ hteam, hg.agent _ _ hsender⟩
      targets := forall_mem_append_one hm.targets htarget
      recipients := forall_mem_append_one hm.recipients fun a ha => hg.agent _ _ (hrecipient a ha)
      posted := forall_mem_append_one hm.posted fun c hc => hg.channel _ _ (hchannel c hc)
      replies := forall_mem_append_one hm.replies fun a ha => hg.message _ _ (hw.2.1 a ha) }
  | putCursor r => exact { hm with cursors := forall_mem_put hm.cursors (hg.agentExists hw.1) }
  | insertTask r => exact { hm with tasks := forall_mem_append_one hm.tasks (hg.taskOk hw.1) }
  | updateTasks p f =>
    refine { hm with tasks := fun t ht => ?_ }
    obtain ⟨s, hs, rfl⟩ := mem_update.1 ht
    split
    · next hp => exact hg.taskOk (hw s hs hp).2.2
    · exact hm.tasks s hs
  | insertTaskDep d =>
    obtain ⟨-, team, h₁, h₂⟩ := taskDepOk_iff.1 hw.1
    exact { hm with taskDeps := forall_mem_append_one hm.taskDeps ⟨team, hg.task _ _ h₁, hg.task _ _ h₂⟩ }
  | insertTaskEvent e =>
    obtain ⟨team, h₁, h₂⟩ := hw.1
    exact { hm with
      taskEvents := forall_mem_append_one hm.taskEvents
        ⟨team, hg.task _ _ h₁, fun a ha => hg.agent _ _ (h₂ a ha)⟩ }
  | deleteTaskEvents p => exact { hm with taskEvents := forall_mem_delete hm.taskEvents }
  | putNote r => exact { hm with notes := forall_mem_put hm.notes (hg.noteOk hw.1) }
  | insertNoteRevision r =>
    obtain ⟨team, h₁, h₂⟩ := hw.1
    exact { hm with
      noteRevisions := forall_mem_append_one hm.noteRevisions
        ⟨team, hg.note _ _ h₁, fun a ha => hg.agent _ _ (h₂ a ha)⟩ }
  | deleteNoteRevisions p => exact { hm with noteRevisions := forall_mem_delete hm.noteRevisions }
  | putLock r => exact { hm with locks := forall_mem_put hm.locks (hg.lockOk hw) }
  | deleteLocks p => exact { hm with locks := forall_mem_delete hm.locks }
  | insertAttachment r =>
    obtain ⟨hcarrier, hsize, hteam, huploader, hmessage, htask⟩ := attachmentOk_iff.1 hw.1
    exact { hm with
      uploaders := forall_mem_append_one hm.uploaders ⟨hg.team _ hteam, hg.agent _ _ huploader⟩
      carriers := forall_mem_append_one hm.carriers ⟨hcarrier, hsize⟩
      files := forall_mem_append_one hm.files fun m h => hg.message _ _ (hmessage m h)
      taskFiles := forall_mem_append_one hm.taskFiles fun t h => hg.task _ _ (htask t h) }
  | insertWebhook r => exact { hm with webhooks := forall_mem_append_one hm.webhooks (hg.team _ hw.1) }
  | insertDelivery r => exact { hm with deliveries := forall_mem_append_one hm.deliveries hw.1 }
  | updateDeliveries p f =>
    refine { hm with deliveries := fun d hd' => ?_ }
    obtain ⟨s, hs, rfl⟩ := mem_update.1 hd'
    split
    · next hp =>
      obtain ⟨-, hwebhook, hteam⟩ := hw s hs hp
      rw [hwebhook, hteam]
      exact hm.deliveries s hs
    · exact hm.deliveries s hs
  | deleteDeliveries p => exact { hm with deliveries := forall_mem_delete hm.deliveries }
  | deleteMessages _ | deleteNotes _ | deleteWebhooks _ => exact absurd trivial hd
  | _ => exact { hm with }

end Db

end CrewSync
