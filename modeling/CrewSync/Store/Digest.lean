import CrewSync.Store.Locks
import CrewSync.Store.Messaging
import CrewSync.Store.Presence

/-! The team digest (`src/store/digest.rs`). -/

namespace CrewSync
variable [Platform]

/-- A row of the `windowed` subquery. -/
structure Windowed where
  channel : String
  sender : String
  body : String
  createdAt : Time
  id : Int
  messageCount : Nat
  recency : Nat

namespace Db

/-- The messages of the window with their channel and their sender. -/
def inWindow (db : Db) (team : Uuid) (since : Time) (focus : Option Uuid) :
    List (Channel × String × Message) :=
  db.messages.filterMap fun m => do
    let c ← m.channelId.bind fun id => db.channels.find? (·.id == id)
    let sender ← db.agentName m.senderAgentId
    if c.teamId == team && decide (since < m.createdAt) &&
        (focus.isNone || focus == some c.id || m.announce) then
      some (c, sender, m)
    else none

/-- `count(*) OVER (PARTITION BY c.id)` and `row_number() OVER (PARTITION BY c.id ORDER BY m.id DESC)`. -/
def windowed (db : Db) (team : Uuid) (since : Time) (focus : Option Uuid) : List Windowed :=
  let rows := db.inWindow team since focus
  rows.map fun (c, sender, m) =>
    { channel := c.name, sender, body := left m.body 300, createdAt := m.createdAt, id := m.id
      messageCount := (rows.filter fun r => r.1.id == c.id).length
      recency := (rows.filter fun r => r.1.id == c.id && decide (m.id ≤ r.2.2.id)).length }

/-- `GROUP BY channel ORDER BY max(message_count) DESC`, with the five newest messages of each group. -/
def channelActivity (db : Db) (team : Uuid) (since : Time) (focus : Option Uuid) : List DigestChannel :=
  let rows := db.windowed team since focus
  Rows.orderBy (fun a b => b.messageCount ≤ a.messageCount) <|
    (rows.map (·.channel)).dedup.map fun name =>
      let group := rows.filter (·.channel == name)
      { name
        messageCount := (group.map (·.messageCount)).foldl max 0
        lastMessages := (Rows.orderBy (fun a b => a.id ≤ b.id) (group.filter (·.recency ≤ 5))).map fun r =>
          { sender := r.sender, body := r.body, «at» := ts r.createdAt } }

def tasksMoved (db : Db) (team : Uuid) (since : Time) : List DigestTask :=
  ((Rows.orderBy (fun a b => b.updatedAt ≤ a.updatedAt)
    (db.tasks.filter fun t => t.teamId == team && decide (since < t.updatedAt))).take 50).map fun t =>
      { key := t.key, title := t.title, status := t.status, claimedBy := t.claimedBy.bind db.agentName
        result := t.result, updatedAt := ts t.updatedAt }

def notesUpdated (db : Db) (team : Uuid) (since : Time) : List DigestNote :=
  ((Rows.orderBy (fun a b => b.updatedAt ≤ a.updatedAt)
    (db.notes.filter fun n => n.teamId == team && decide (since < n.updatedAt))).take 50).map fun n =>
      { scope := n.scope, key := n.key, updatedBy := n.updatedBy.bind db.agentName, updatedAt := ts n.updatedAt }

/-- `ORDER BY (pp.expires_at > now()) DESC, pp.updated_at DESC LIMIT 1`: the presence row that stands for
    a person. -/
def bestPresence (db : Db) (now : Time) (agent : Uuid) : Option Presence :=
  (Rows.orderBy
    (fun a b => (live now a = true ∧ live now b = false) ∨ (live now a = live now b ∧ b.updatedAt ≤ a.updatedAt))
    (db.presence.filter (·.agentId == agent))).head?

/-- `ORDER BY p.updated_at DESC NULLS LAST`. -/
def agentsSeen (db : Db) (team : Uuid) (now : Time) : List DigestAgent :=
  let rows := (db.agents.filter fun a => a.teamId == team && a.disabledAt.isNone).map fun a =>
    (a, db.bestPresence now a.id)
  (Rows.orderBy (fun a b => descNullsLast (a.2.map (·.updatedAt)) (b.2.map (·.updatedAt)) = true) rows).map
    fun r =>
      { name := r.1.name, activity := r.2.bind (·.activity), lastSeen := r.2.map fun p => ts p.updatedAt
        online := r.2.any (live now) }

/-- `count(*) FILTER (WHERE status = …)` over the tasks of a team. -/
def countTasks (db : Db) (team : Uuid) (status : TaskStatus) : Nat :=
  (db.tasks.filter fun t => t.teamId == team && t.status == status).length

end Db

/-- What moved in the last hours. Everything in it is visible to the whole team. -/
def teamDigest (auth : AuthCtx) (hours : Int) (allChannels : Bool) : Bus DigestResult := do
  let hours := clamp hours 1 (24 * 14)
  let focus ← focusOf auth allChannels
  let channels ← select .messages fun pg =>
    pg.db.channelActivity auth.teamId (pg.now - secs (3600 * hours)) focus
  let tasks ← select .tasks fun pg => pg.db.tasksMoved auth.teamId (pg.now - secs (3600 * hours))
  let (opened, claimed) ← select .tasks fun pg =>
    (pg.db.countTasks auth.teamId .«open», pg.db.countTasks auth.teamId .claimed)
  let notes ← select .notes fun pg => pg.db.notesUpdated auth.teamId (pg.now - secs (3600 * hours))
  let agents ← select .agents fun pg => pg.db.agentsSeen auth.teamId pg.now
  let locks ← select .locks fun pg => (pg.db.activeLocks auth.teamId pg.now).filterMap pg.db.lockInfo?
  return { hours, channels, tasksMoved := tasks, openTasks := opened, claimedTasks := claimed
           notesUpdated := notes, agentsSeen := agents, activeLocks := locks }

end CrewSync
