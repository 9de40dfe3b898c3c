import CrewSync.Lib.Rows
import CrewSync.Platform

/-! The database of `migrations/*.sql`: its rows, its constraints, and what a statement writes. -/

namespace CrewSync

/-! ### Rows -/

structure Team where
  id : Uuid
  slug : String
  name : String
  attachmentBytesLimit : Option Int
  deriving DecidableEq

structure Agent where
  id : Uuid
  teamId : Uuid
  name : String
  displayName : Option String
  disabledAt : Option Time
  deriving DecidableEq

structure Presence where
  agentId : Uuid
  session : String
  status : String
  repo : Option String
  branch : Option String
  activity : Option String
  updatedAt : Time
  expiresAt : Time
  deriving DecidableEq

structure Channel where
  id : Uuid
  teamId : Uuid
  name : String
  topic : Option String
  createdBy : Option Uuid
  createdAt : Time
  deriving DecidableEq

structure Message where
  id : Int
  teamId : Uuid
  channelId : Option Uuid
  recipientAgentId : Option Uuid
  recipientSession : Option String
  senderAgentId : Uuid
  senderSession : Option String
  body : String
  replyTo : Option Int
  metadata : Json
  announce : Bool
  createdAt : Time
  deriving DecidableEq

structure ReadCursor where
  agentId : Uuid
  scope : String
  lastMessageId : Int
  deriving DecidableEq

/-- `tasks_status_check`. -/
inductive TaskStatus where
  | «open» | claimed | done | cancelled
  deriving DecidableEq

def TaskStatus.text : TaskStatus → String
  | .«open» => "open"
  | .claimed => "claimed"
  | .done => "done"
  | .cancelled => "cancelled"

/-- `status IN ('done', 'cancelled')`. -/
def TaskStatus.finished : TaskStatus → Bool
  | .done | .cancelled => true
  | .«open» | .claimed => false

structure Task where
  id : Uuid
  teamId : Uuid
  key : String
  title : String
  description : Option String
  status : TaskStatus
  claimedBy : Option Uuid
  claimedSession : Option String
  claimedAt : Option Time
  leaseExpiresAt : Option Time
  result : Option String
  metadata : Json
  createdBy : Option Uuid
  createdAt : Time
  updatedAt : Time
  deriving DecidableEq

structure TaskDep where
  taskId : Uuid
  blockedByTaskId : Uuid
  deriving DecidableEq

structure TaskEvent where
  id : Int
  taskId : Uuid
  agentId : Option Uuid
  event : String
  detail : Option String
  createdAt : Time
  deriving DecidableEq

structure Note where
  id : Uuid
  teamId : Uuid
  scope : String
  key : String
  value : String
  tags : List String
  updatedBy : Option Uuid
  updatedAt : Time
  deriving DecidableEq

structure NoteRevision where
  id : Int
  noteId : Uuid
  value : String
  updatedBy : Option Uuid
  createdAt : Time
  deriving DecidableEq

structure Lock where
  teamId : Uuid
  name : String
  holderAgentId : Uuid
  holderSession : Option String
  purpose : Option String
  acquiredAt : Time
  expiresAt : Time
  deriving DecidableEq

structure Attachment where
  id : Int
  teamId : Uuid
  messageId : Option Int
  taskId : Option Uuid
  uploaderAgentId : Uuid
  filename : String
  contentType : String
  sizeBytes : Int
  data : List UInt8
  createdAt : Time
  deriving DecidableEq

/-- The kinds of bus events. -/
inductive EventKind where
  | message | task | lock | note
  deriving DecidableEq

structure Webhook where
  id : Uuid
  teamId : Uuid
  url : String
  kind : String
  events : List EventKind
  channelFilter : Option String
  enabled : Bool
  deriving DecidableEq

inductive DeliveryStatus where
  | pending | sent | failed
  deriving DecidableEq

/-- A value inside a flat JSON object. -/
inductive Scalar where
  | null
  | bool (b : Bool)
  | num (n : Int)
  | str (s : String)
  deriving DecidableEq

/-- What `json_build_object` builds: the fields in their order. -/
abbrev Payload := List (String × Scalar)

structure Delivery where
  id : Int
  webhookId : Uuid
  teamId : Uuid
  kind : EventKind
  summary : String
  payload : Payload
  status : DeliveryStatus
  attempts : Int
  nextAttemptAt : Time
  lastError : Option String
  updatedAt : Time
  deriving DecidableEq

/-- The tables, and the notifications committed to `bus_events` in their order. -/
structure Db where
  teams : List Team
  agents : List Agent
  presence : List Presence
  channels : List Channel
  messages : List Message
  cursors : List ReadCursor
  tasks : List Task
  taskDeps : List TaskDep
  taskEvents : List TaskEvent
  notes : List Note
  noteRevisions : List NoteRevision
  locks : List Lock
  attachments : List Attachment
  webhooks : List Webhook
  deliveries : List Delivery
  notified : List Payload
  deriving DecidableEq

/-- The database that the migrations leave behind. -/
def Db.empty : Db := ⟨[], [], [], [], [], [], [], [], [], [], [], [], [], [], [], []⟩

namespace Db

/-! ### Constraints

The composite foreign keys of `0004_team_consistency.sql` ask for a row with the given identity and the
given team. -/

def hasTeam (db : Db) (team : Uuid) : Bool := db.teams.any fun r => r.id == team

def agentIn (db : Db) (agent team : Uuid) : Bool := db.agents.any fun r => r.id == agent && r.teamId == team

def channelIn (db : Db) (channel team : Uuid) : Bool :=
  db.channels.any fun r => r.id == channel && r.teamId == team

def messageIn (db : Db) (message : Int) (team : Uuid) : Bool :=
  db.messages.any fun r => r.id == message && r.teamId == team

def taskIn (db : Db) (task team : Uuid) : Bool := db.tasks.any fun r => r.id == task && r.teamId == team

def noteIn (db : Db) (note team : Uuid) : Bool := db.notes.any fun r => r.id == note && r.teamId == team

/-- A nullable reference. -/
def optional {α : Type} (p : α → Bool) : Option α → Bool
  | none => true
  | some a => p a

/-- `messages_target_check` and the foreign keys of `messages`. -/
def messageOk (db : Db) (m : Message) : Bool :=
  m.channelId.isSome != m.recipientAgentId.isSome && db.hasTeam m.teamId &&
    db.agentIn m.senderAgentId m.teamId && optional (db.agentIn · m.teamId) m.recipientAgentId &&
    optional (db.channelIn · m.teamId) m.channelId &&
    optional (fun r => db.messages.any (·.id == r)) m.replyTo

def channelOk (db : Db) (c : Channel) : Bool :=
  db.hasTeam c.teamId && optional (db.agentIn · c.teamId) c.createdBy

def taskOk (db : Db) (t : Task) : Bool :=
  db.hasTeam t.teamId && optional (db.agentIn · t.teamId) t.claimedBy &&
    optional (db.agentIn · t.teamId) t.createdBy

/-- The foreign keys of `task_deps`, its check, and the trigger `assert_task_dep_same_team`. -/
def taskDepOk (db : Db) (d : TaskDep) : Bool :=
  d.taskId != d.blockedByTaskId &&
    db.tasks.any fun t => t.id == d.taskId && db.taskIn d.blockedByTaskId t.teamId

def taskEventOk (db : Db) (e : TaskEvent) : Bool :=
  db.tasks.any (·.id == e.taskId) && optional (fun a => db.agents.any (·.id == a)) e.agentId

def noteOk (db : Db) (n : Note) : Bool :=
  db.hasTeam n.teamId && optional (db.agentIn · n.teamId) n.updatedBy

def noteRevisionOk (db : Db) (r : NoteRevision) : Bool :=
  db.notes.any (·.id == r.noteId) && optional (fun a => db.agents.any (·.id == a)) r.updatedBy

def lockOk (db : Db) (l : Lock) : Bool := db.hasTeam l.teamId && db.agentIn l.holderAgentId l.teamId

def attachmentOk (db : Db) (a : Attachment) : Bool :=
  a.messageId.isSome != a.taskId.isSome && decide (0 < a.sizeBytes) && db.hasTeam a.teamId &&
    db.agentIn a.uploaderAgentId a.teamId && optional (db.messageIn · a.teamId) a.messageId &&
    optional (db.taskIn · a.teamId) a.taskId

def agentExists (db : Db) (agent : Uuid) : Bool := db.agents.any (·.id == agent)

/-! ### Keys -/

/-- `PRIMARY KEY (team_id, name)` of `locks`. -/
def lockKey (l : Lock) : Uuid × String := (l.teamId, l.name)

def cursorKey (c : ReadCursor) : Uuid × String := (c.agentId, c.scope)

def presenceKey (p : Presence) : Uuid × String := (p.agentId, p.session)

def noteKey (n : Note) : Uuid × String × String := (n.teamId, n.scope, n.key)

def taskKey (t : Task) : Uuid × String := (t.teamId, t.key)

def channelKey (c : Channel) : Uuid × String := (c.teamId, c.name)

def agentKey (a : Agent) : Uuid × String := (a.teamId, a.name)

end Db

/-! ### Writes -/

/-- What a statement does to the tables. A deletion takes the rows that cascade from it along. -/
inductive Write where
  | putTeam (r : Team)
  | putAgent (r : Agent)
  | putPresence (r : Presence)
  | putChannel (r : Channel)
  | insertMessage (r : Message)
  | deleteMessages (p : Message → Bool)
  | putCursor (r : ReadCursor)
  | insertTask (r : Task)
  | updateTasks (p : Task → Bool) (f : Task → Task)
  | insertTaskDep (r : TaskDep)
  | insertTaskEvent (r : TaskEvent)
  | deleteTaskEvents (p : TaskEvent → Bool)
  | putNote (r : Note)
  | deleteNotes (p : Note → Bool)
  | insertNoteRevision (r : NoteRevision)
  | deleteNoteRevisions (p : NoteRevision → Bool)
  | putLock (r : Lock)
  | deleteLocks (p : Lock → Bool)
  | insertAttachment (r : Attachment)
  | insertWebhook (r : Webhook)
  | deleteWebhooks (p : Webhook → Bool)
  | insertDelivery (r : Delivery)
  | updateDeliveries (p : Delivery → Bool) (f : Delivery → Delivery)
  | deleteDeliveries (p : Delivery → Bool)
  | notify (payload : Payload)

open Rows in
def Write.apply (db : Db) : Write → Db
  | .putTeam r => { db with teams := put (·.id) r db.teams }
  | .putAgent r => { db with agents := put (·.id) r db.agents }
  | .putPresence r => { db with presence := put Db.presenceKey r db.presence }
  | .putChannel r => { db with channels := put (·.id) r db.channels }
  | .insertMessage r => { db with messages := db.messages ++ [r] }
  | .deleteMessages p =>
    -- `attachments.message_id` cascades, `messages.reply_to` is set to NULL.
    let gone := fun id => db.messages.any fun m => m.id == id && p m
    { db with
      messages := (delete p db.messages).map fun m =>
        { m with replyTo := m.replyTo.filter fun r => !gone r }
      attachments := delete (fun a => a.messageId.any gone) db.attachments }
  | .putCursor r => { db with cursors := put Db.cursorKey r db.cursors }
  | .insertTask r => { db with tasks := db.tasks ++ [r] }
  | .updateTasks p f => { db with tasks := update p f db.tasks }
  | .insertTaskDep r => { db with taskDeps := db.taskDeps ++ [r] }
  | .insertTaskEvent r => { db with taskEvents := db.taskEvents ++ [r] }
  | .deleteTaskEvents p => { db with taskEvents := delete p db.taskEvents }
  | .putNote r => { db with notes := put Db.noteKey r db.notes }
  | .deleteNotes p =>
    -- `note_revisions.note_id` cascades.
    let gone := fun id => db.notes.any fun n => n.id == id && p n
    { db with
      notes := delete p db.notes
      noteRevisions := delete (fun r => gone r.noteId) db.noteRevisions }
  | .insertNoteRevision r => { db with noteRevisions := db.noteRevisions ++ [r] }
  | .deleteNoteRevisions p => { db with noteRevisions := delete p db.noteRevisions }
  | .putLock r => { db with locks := put Db.lockKey r db.locks }
  | .deleteLocks p => { db with locks := delete p db.locks }
  | .insertAttachment r => { db with attachments := db.attachments ++ [r] }
  | .insertWebhook r => { db with webhooks := db.webhooks ++ [r] }
  | .deleteWebhooks p =>
    -- `webhook_deliveries.webhook_id` cascades.
    let gone := fun id => db.webhooks.any fun w => w.id == id && p w
    { db with
      webhooks := delete p db.webhooks
      deliveries := delete (fun d => gone d.webhookId) db.deliveries }
  | .insertDelivery r => { db with deliveries := db.deliveries ++ [r] }
  | .updateDeliveries p f => { db with deliveries := update p f db.deliveries }
  | .deleteDeliveries p => { db with deliveries := delete p db.deliveries }
  | .notify payload => { db with notified := db.notified ++ [payload] }

/-- A list of writes, the first one first. -/
def Db.write (db : Db) (ws : List Write) : Db := ws.foldl Write.apply db

end CrewSync
