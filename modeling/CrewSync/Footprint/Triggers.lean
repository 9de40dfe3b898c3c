import CrewSync.Footprint
import CrewSync.Triggers

/-! What the triggers add to a statement: pending rows of the outbox and notifications, nothing else. -/

namespace CrewSync
variable {agent team : Uuid} {tables : List Table} {now : Time}

/-- A row of the outbox or a notification. -/
def Write.Outbox : Write → Prop
  | .insertDelivery _ | .notify _ => True
  | _ => False

/-- Triggers add nothing but rows of the outbox and notifications. -/
theorem Db.write_outbox {ws : List Write} (h : ∀ w ∈ ws, w.Outbox) (db : Db) :
    ∃ ds ns, db.write ws = { db with deliveries := db.deliveries ++ ds, notified := db.notified ++ ns } := by
  induction ws generalizing db with
  | nil => exact ⟨[], [], by simp⟩
  | cons w ws ih =>
    obtain ⟨ds, ns, e⟩ := ih (fun v hv => h v (List.mem_cons_of_mem w hv)) (w.apply db)
    have hw := h w List.mem_cons_self
    rw [Db.write_cons, e]
    cases w with
    | insertDelivery d => exact ⟨d :: ds, ns, by simp [Write.apply]⟩
    | notify n => exact ⟨ds, n :: ns, by simp [Write.apply]⟩
    | _ => exact hw.elim

theorem enqueue_outbox {pg : Pg} {t : Uuid} {kind : EventKind} {summary : String} {payload : Payload}
    {channel : Option String} {seqs : Seqs} :
    ∀ w ∈ (enqueueWebhookDeliveries pg t kind summary payload channel seqs).2, w.Outbox := by
  intro w hw
  obtain ⟨x, -, rfl⟩ := List.mem_map.1 hw
  trivial

/-- The hooks that `enqueue_webhook_deliveries` finds. -/
def Pg.hooks (pg : Pg) (team : Uuid) (kind : EventKind) (channel : Option String) : List Webhook :=
  pg.db.webhooks.filter fun w => w.teamId == team && w.enabled && w.events.contains kind &&
    (kind != .message || w.channelFilter.isNone || w.channelFilter == channel)

/-- The rows that it inserts, one for each of them. -/
def Pg.enqueued (pg : Pg) (team : Uuid) (kind : EventKind) (summary : String) (payload : Payload)
    (channel : Option String) (seqs : Seqs) : List Delivery :=
  ((pg.hooks team kind channel).zipIdx 1).map fun x =>
    { id := seqs.deliveries + x.2, webhookId := x.1.id, teamId := team, kind, summary, payload
      status := .pending, attempts := 0, nextAttemptAt := pg.now, lastError := none, updatedAt := pg.now }

theorem Db.write_insertDeliveries (ds : List Delivery) (db : Db) :
    db.write (ds.map .insertDelivery) = { db with deliveries := db.deliveries ++ ds } := by
  induction ds generalizing db with
  | nil => simp
  | cons d ds ih =>
    rw [List.map_cons, Db.write_cons, ih]
    simp [Write.apply]

theorem enqueue_write (pg : Pg) (t : Uuid) (kind : EventKind) (summary : String) (payload : Payload)
    (channel : Option String) (seqs : Seqs) (db : Db) :
    db.write (enqueueWebhookDeliveries pg t kind summary payload channel seqs).2 =
      { db with deliveries := db.deliveries ++ pg.enqueued t kind summary payload channel seqs } := by
  rw [← Db.write_insertDeliveries, Pg.enqueued, List.map_map]
  rfl

theorem enqueued_eq_nil {pg : Pg} {team : Uuid} {kind : EventKind} {summary : String} {payload : Payload}
    {channel : Option String} {seqs : Seqs} :
    pg.enqueued team kind summary payload channel seqs = [] ↔ pg.hooks team kind channel = [] := by
  rw [Pg.enqueued, List.map_eq_nil_iff, List.zipIdx_eq_nil_iff]

theorem enqueueMessage_seqs {pg : Pg} {m : Message} {seqs : Seqs} :
    (enqueueMessageWebhook pg m seqs).1.messages = seqs.messages := by
  unfold enqueueMessageWebhook
  split <;> rfl

theorem enqueueMessage_outbox {pg : Pg} {m : Message} {seqs : Seqs} :
    ∀ w ∈ (enqueueMessageWebhook pg m seqs).2, w.Outbox := by
  unfold enqueueMessageWebhook
  split
  · simp
  · exact enqueue_outbox

theorem taskTriggers_outbox [Platform] (pg : Pg) (rows : List (Option Task × Task)) (seqs : Seqs) :
    ∀ w ∈ (taskTriggers pg rows seqs).2, w.Outbox := by
  induction rows generalizing seqs with
  | nil => simp [taskTriggers]
  | cons r rows ih =>
    obtain ⟨old, t⟩ := r
    have first : ∀ w ∈ (enqueueTaskWebhook pg old t seqs).2, w.Outbox := by
      unfold enqueueTaskWebhook
      split
      · simp
      · exact enqueue_outbox
    intro w hw
    rcases List.mem_append.1 hw with hw | hw
    · exact first w hw
    · rcases List.mem_cons.1 hw with rfl | hw
      · trivial
      · exact ih _ w hw

/-- The writes of a trigger that fires on `db`: legal, on behalf of the caller, and only in the outbox. -/
structure Fires (agent team : Uuid) (tables : List Table) (now : Time) (db : Db) (seqs : Seqs) (f : Fired) : Prop where
  before : seqs.Before f.1
  trail : ∀ base seqs', base.Before seqs → f.1.Before seqs' → Trail (Own agent team tables now) base seqs' db f.2
  below : Rows.Below (·.id) f.1.deliveries (db.write f.2).deliveries
  others : ∃ ds ns, db.write f.2 =
    { db with deliveries := db.deliveries ++ ds, notified := db.notified ++ ns }

namespace Fires
variable {db : Db} {seqs : Seqs}

theorem none (h : Rows.Below (·.id) seqs.deliveries db.deliveries) : Fires agent team tables now db seqs (seqs, []) :=
  ⟨.refl _, fun _ _ _ _ => trivial, h, [], [], by simp⟩

/-- Two triggers, one after the other. -/
theorem append {f g : Fired} (h₁ : Fires agent team tables now db seqs f)
    (h₂ : Fires agent team tables now (db.write f.2) f.1 g) : Fires agent team tables now db seqs (g.1, f.2 ++ g.2) := by
  obtain ⟨ds₁, ns₁, e₁⟩ := h₁.others
  obtain ⟨ds₂, ns₂, e₂⟩ := h₂.others
  refine ⟨h₁.before.trans h₂.before, fun base seqs' hb hs => ?_, ?_, ds₁ ++ ds₂, ns₁ ++ ns₂, ?_⟩
  · exact (h₁.trail base seqs' hb (h₂.before.trans hs)).append (h₂.trail base seqs' (hb.trans h₁.before) hs)
  · simpa using h₂.below
  · rw [Db.write_append, e₂, e₁]
    simp

/-- A trigger that also notifies. -/
theorem notify {f : Fired} (h : Fires agent team tables now db seqs f) (p : Payload) :
    Fires agent team tables now db seqs (f.1, f.2 ++ [.notify p]) := by
  refine h.append (g := (f.1, [.notify p]))
    ⟨.refl _, fun _ _ _ _ => ⟨trivial, ⟨trivial, List.nil_subset _⟩, trivial⟩, h.below, [], [p], ?_⟩
  simp [Write.apply]

/-- The other tables, `webhooks` among them, are as before the trigger. -/
theorem webhooks {f : Fired} (h : Fires agent team tables now db seqs f) : (db.write f.2).webhooks = db.webhooks := by
  obtain ⟨ds, ns, e⟩ := h.others
  rw [e]

end Fires

section
variable {db : Db} {seqs : Seqs}

/-- The rows for the hooks, with the next ids of the sequence. -/
theorem fires_deliveries (ht : .webhookDeliveries ∈ tables) {kind : EventKind} {summary : String}
    {payload : Payload} (hooks : List Webhook)
    (hh : ∀ w ∈ hooks, w ∈ db.webhooks ∧ w.teamId = team)
    (hb : Rows.Below (·.id) seqs.deliveries db.deliveries) (n : Nat) (base : Int)
    (hn : seqs.deliveries + 1 = base + n) :
    Fires agent team tables now db seqs
      ({ seqs with deliveries := seqs.deliveries + hooks.length },
        (hooks.zipIdx n).map fun (w, i) => .insertDelivery
          { id := base + i, webhookId := w.id, teamId := team, kind, summary, payload
            status := .pending, attempts := 0, nextAttemptAt := now, lastError := none, updatedAt := now }) := by
  induction hooks generalizing db seqs n with
  | nil => simpa using Fires.none hb
  | cons w hooks ih =>
    obtain ⟨hw, hteam⟩ := hh w List.mem_cons_self
    let row : Delivery :=
      { id := base + n, webhookId := w.id, teamId := team, kind, summary, payload
        status := .pending, attempts := 0, nextAttemptAt := now, lastError := none, updatedAt := now }
    let seqs₁ : Seqs := { seqs with deliveries := seqs.deliveries + 1 }
    have hid : row.id = seqs.deliveries + 1 := hn.symm
    have hbefore : seqs.Before seqs₁ := ⟨le_rfl, le_rfl, le_rfl, le_rfl, by simp only [seqs₁]; omega⟩
    have one : Fires agent team tables now db seqs (seqs₁, [.insertDelivery row]) := by
      refine ⟨hbefore, fun base seqs' hb' hs => ⟨⟨⟨w, hw, rfl, hteam⟩, fun d hd => ?_, ?_, ?_⟩, ⟨⟨rfl, rfl, rfl, rfl, rfl⟩, ?_⟩, trivial⟩, ?_,
        [row], [], by simp [Write.apply]⟩
      · rw [hid]
        exact Int.lt_add_one_of_le (hb d hd)
      · rw [hid]
        exact hs.deliveries
      · rw [hid]
        exact Int.lt_add_one_of_le hb'.deliveries
      · simpa [Write.tables] using ht
      · exact (hb.mono hbefore.deliveries).append hid.le
    have hh' : ∀ v ∈ hooks, v ∈ (db.write [.insertDelivery row]).webhooks ∧ v.teamId = team :=
      fun v hv => hh v (List.mem_cons_of_mem w hv)
    have hn' : seqs₁.deliveries + 1 = base + (n + 1 : Nat) := by
      simp only [seqs₁]
      omega
    have rest := ih hh' one.below (n + 1) hn'
    have both := one.append rest
    have hlen : seqs₁.deliveries + (hooks.length : Int) = seqs.deliveries + ((w :: hooks).length : Int) := by
      simp [seqs₁]; omega
    simp only [List.zipIdx_cons, List.map_cons]
    rw [← hlen]
    exact both

theorem fires_enqueue (ht : .webhookDeliveries ∈ tables) {pg : Pg} (hw : db.webhooks = pg.db.webhooks)
    (hb : Rows.Below (·.id) seqs.deliveries db.deliveries) (kind : EventKind) (summary : String)
    (payload : Payload) (channel : Option String) :
    Fires agent team tables pg.now db seqs (enqueueWebhookDeliveries pg team kind summary payload channel seqs) := by
  refine fires_deliveries ht _ (fun w h => ?_) hb 1 seqs.deliveries rfl
  simp only [List.mem_filter, Bool.and_eq_true, beq_iff_eq] at h
  exact ⟨hw ▸ h.1, h.2.1.1.1⟩

theorem fires_message (ht : .webhookDeliveries ∈ tables) {pg : Pg} (hw : db.webhooks = pg.db.webhooks)
    (hb : Rows.Below (·.id) seqs.deliveries db.deliveries) {m : Message} (hm : m.teamId = team) :
    Fires agent team tables pg.now db seqs (enqueueMessageWebhook pg m seqs) := by
  unfold enqueueMessageWebhook
  split
  · exact .none hb
  · subst hm
    exact fires_enqueue ht hw hb ..

theorem fires_task (ht : .webhookDeliveries ∈ tables) {pg : Pg} (hw : db.webhooks = pg.db.webhooks)
    (hb : Rows.Below (·.id) seqs.deliveries db.deliveries) {old : Option Task} {t : Task} (hm : t.teamId = team) :
    Fires agent team tables pg.now db seqs (enqueueTaskWebhook pg old t seqs) := by
  unfold enqueueTaskWebhook
  split
  · exact .none hb
  · subst hm
    exact fires_enqueue ht hw hb ..

theorem fires_lock (ht : .webhookDeliveries ∈ tables) {pg : Pg} (hw : db.webhooks = pg.db.webhooks)
    (hb : Rows.Below (·.id) seqs.deliveries db.deliveries) {event : String} {l : Lock} (hm : l.teamId = team) :
    Fires agent team tables pg.now db seqs (enqueueLockWebhook pg event l seqs) := by
  subst hm
  exact fires_enqueue ht hw hb ..

theorem fires_note (ht : .webhookDeliveries ∈ tables) {pg : Pg} (hw : db.webhooks = pg.db.webhooks)
    (hb : Rows.Below (·.id) seqs.deliveries db.deliveries) {n : Note} (hm : n.teamId = team) :
    Fires agent team tables pg.now db seqs (enqueueNoteWebhook pg n seqs) := by
  subst hm
  exact fires_enqueue ht hw hb ..

end

variable [Platform] {db : Db} {seqs : Seqs}

theorem fires_tasks (ht : .webhookDeliveries ∈ tables) {pg : Pg} (rows : List (Option Task × Task))
    (hr : ∀ r ∈ rows, r.2.teamId = team) (hw : db.webhooks = pg.db.webhooks)
    (hb : Rows.Below (·.id) seqs.deliveries db.deliveries) :
    Fires agent team tables pg.now db seqs (taskTriggers pg rows seqs) := by
  induction rows generalizing db seqs with
  | nil => exact .none hb
  | cons r rows ih =>
    obtain ⟨old, t⟩ := r
    have first : Fires agent team tables pg.now db seqs (enqueueTaskWebhook pg old t seqs) :=
      fires_task ht hw hb (hr _ List.mem_cons_self)
    have first := first.notify (notifyTask t)
    have rest := ih (fun r h => hr r (List.mem_cons_of_mem _ h)) (first.webhooks.trans hw) first.below
    have both := first.append rest
    rw [List.append_assoc] at both
    exact both

theorem fires_releases (ht : .webhookDeliveries ∈ tables) {pg : Pg} (rows : List Lock)
    (hr : ∀ r ∈ rows, r.teamId = team) (hw : db.webhooks = pg.db.webhooks)
    (hb : Rows.Below (·.id) seqs.deliveries db.deliveries) :
    Fires agent team tables pg.now db seqs (lockDeletedTriggers pg rows seqs) := by
  induction rows generalizing db seqs with
  | nil => exact .none hb
  | cons l rows ih =>
    have first : Fires agent team tables pg.now db seqs (enqueueLockWebhook pg "released" l seqs) :=
      fires_lock ht hw hb (hr _ List.mem_cons_self)
    have first := first.notify (notifyLockReleased l)
    have rest := ih (fun r h => hr r (List.mem_cons_of_mem _ h)) (first.webhooks.trans hw) first.below
    have both := first.append rest
    rw [List.append_assoc] at both
    exact both

end CrewSync
