import CrewSync.Model
import CrewSync.Postgres

/-! The triggers: the `NOTIFY` payloads of `0002`, `0009` and `0010`, and the outbox rows of
    `0005_webhook_outbox.sql`. -/

namespace CrewSync
variable [Platform]
open Platform

def Scalar.uuid (u : Uuid) : Scalar := .str (uuidText u)

def Scalar.opt {α : Type} (f : α → Scalar) : Option α → Scalar
  | none => .null
  | some a => f a

/-- `notify_message` as `0010_announcements.sql` leaves it. -/
def notifyMessage (m : Message) : Payload :=
  [("kind", .str "message"),
   ("team_id", .uuid m.teamId),
   ("id", .num m.id),
   ("channel_id", .opt .uuid m.channelId),
   ("recipient_agent_id", .opt .uuid m.recipientAgentId),
   ("recipient_session", .opt .str m.recipientSession),
   ("sender_agent_id", .uuid m.senderAgentId),
   ("sender_session", .opt .str m.senderSession),
   ("announce", .bool m.announce)]

def notifyTask (t : Task) : Payload :=
  [("kind", .str "task"),
   ("team_id", .uuid t.teamId),
   ("key", .str t.key),
   ("status", .str t.status.text),
   ("claimed_by", .opt .uuid t.claimedBy)]

/-- `notify_lock` on `DELETE`. -/
def notifyLockReleased (l : Lock) : Payload :=
  [("kind", .str "lock"),
   ("event", .str "released"),
   ("team_id", .uuid l.teamId),
   ("name", .str l.name)]

/-- `notify_lock` on `INSERT` and `UPDATE`. -/
def notifyLockAcquired (l : Lock) : Payload :=
  [("kind", .str "lock"),
   ("event", .str "acquired"),
   ("team_id", .uuid l.teamId),
   ("name", .str l.name),
   ("holder_agent_id", .uuid l.holderAgentId)]

def notifyNote (n : Note) : Payload :=
  [("kind", .str "note"),
   ("team_id", .uuid n.teamId),
   ("scope", .str n.scope),
   ("key", .str n.key),
   ("updated_by", .opt .uuid n.updatedBy)]

/-! ### The outbox -/

/-- What a trigger adds to its statement: the sequences after it, and its writes. -/
abbrev Fired := Seqs × List Write

/-- One pending row for each enabled hook of the team that wants the event. -/
def enqueueWebhookDeliveries (pg : Pg) (team : Uuid) (kind : EventKind) (summary : String)
    (payload : Payload) (channel : Option String) (seqs : Seqs) : Fired :=
  let hooks := pg.db.webhooks.filter fun w =>
    w.teamId == team && w.enabled && w.events.contains kind &&
      (kind != .message || w.channelFilter.isNone || w.channelFilter == channel)
  ({ seqs with deliveries := seqs.deliveries + hooks.length },
   (hooks.zipIdx 1).map fun (w, i) => .insertDelivery
    { id := seqs.deliveries + i, webhookId := w.id, teamId := team, kind, summary, payload
      status := .pending, attempts := 0, nextAttemptAt := pg.now, lastError := none, updatedAt := pg.now })

/-- `left(s, n)`. -/
def left (s : String) (n : Nat) : String := String.ofList (s.toList.take n)

def enqueueMessageWebhook (pg : Pg) (m : Message) (seqs : Seqs) : Fired :=
  if m.recipientAgentId.isSome then (seqs, []) -- a DM
  else
    let sender := pg.db.agentName m.senderAgentId
    let channel := m.channelId.bind pg.db.channelName
    let body := left m.body 500
    let shownChannel := channel.getD ""
    let shownSender := sender.getD ""
    enqueueWebhookDeliveries pg m.teamId .message s!"#{shownChannel} {shownSender}: {body}"
      [("kind", .str "message"), ("channel", .opt .str channel), ("from", .opt .str sender), ("body", .str body)]
      channel seqs

/-- `' by ' || v_holder`, or nothing. -/
def byHolder : Option String → String
  | none => ""
  | some h => " by " ++ h

/-- `old` is the row before an `UPDATE`, none on `INSERT`. -/
def enqueueTaskWebhook (pg : Pg) (old : Option Task) (t : Task) (seqs : Seqs) : Fired :=
  if old.any fun o => o.status == t.status then (seqs, []) -- a lease renewal is not a state change
  else
    let holder := t.claimedBy.bind pg.db.agentName
    let status := t.status.text
    enqueueWebhookDeliveries pg t.teamId .task s!"task {t.key} is now {status}{byHolder holder}"
      [("kind", .str "task"), ("key", .str t.key), ("title", .str t.title), ("status", .str status),
       ("claimed_by", .opt .str holder)]
      none seqs

/-- On `INSERT` (`acquired`) and on `DELETE` (`released`), not on `UPDATE`. -/
def enqueueLockWebhook (pg : Pg) (event : String) (l : Lock) (seqs : Seqs) : Fired :=
  let holder := pg.db.agentName l.holderAgentId
  enqueueWebhookDeliveries pg l.teamId .lock s!"lock {l.name} {event}{byHolder holder}"
    [("kind", .str "lock"), ("name", .str l.name), ("event", .str event), ("holder", .opt .str holder)]
    none seqs

def enqueueNoteWebhook (pg : Pg) (n : Note) (seqs : Seqs) : Fired :=
  enqueueWebhookDeliveries pg n.teamId .note s!"note {n.scope}/{n.key} was updated"
    [("kind", .str "note"), ("scope", .str n.scope), ("key", .str n.key)]
    none seqs

/-- The triggers of `tasks` for each row that a statement inserts or updates. -/
def taskTriggers (pg : Pg) : List (Option Task × Task) → Seqs → Fired
  | [], seqs => (seqs, [])
  | (old, t) :: rows, seqs =>
    let (seqs, hooks) := enqueueTaskWebhook pg old t seqs
    let (seqs, rest) := taskTriggers pg rows seqs
    (seqs, hooks ++ .notify (notifyTask t) :: rest)

/-- The triggers of `locks` for each row that a statement deletes. -/
def lockDeletedTriggers (pg : Pg) : List Lock → Seqs → Fired
  | [], seqs => (seqs, [])
  | l :: rows, seqs =>
    let (seqs, hooks) := enqueueLockWebhook pg "released" l seqs
    let (seqs, rest) := lockDeletedTriggers pg rows seqs
    (seqs, hooks ++ .notify (notifyLockReleased l) :: rest)

end CrewSync
