import CrewSync.Store.Digest
import CrewSync.Store.Tasks

/-! The queries of the dashboard (`src/dashboard/data.rs`). -/

namespace CrewSync.Dashboard
variable [Platform]

structure Totals where
  agentsOnline : Nat
  openTasks : Nat
  claimedTasks : Nat
  messages24h : Nat
  deriving DecidableEq

structure AgentRow where
  name : String
  session : String
  status : Option String
  repo : Option String
  branch : Option String
  activity : Option String
  updatedAt : Option Time
  online : Bool
  deriving DecidableEq

structure TaskRow where
  key : String
  title : String
  status : TaskStatus
  claimedBy : Option String
  result : Option String
  blocked : Bool
  updatedAt : Time
  deriving DecidableEq

structure MessageRow where
  id : Int
  channel : String
  sender : String
  announce : Bool
  body : String
  createdAt : Time
  deriving DecidableEq

structure LockRow where
  name : String
  holder : String
  purpose : Option String
  expiresAt : Time
  deriving DecidableEq

structure NoteRow where
  scope : String
  key : String
  updatedBy : Option String
  updatedAt : Time
  deriving DecidableEq

structure Snapshot where
  team : String
  totals : Totals
  agents : List AgentRow
  tasks : List TaskRow
  messages : List MessageRow
  locks : List LockRow
  notes : List NoteRow
  deriving DecidableEq

def loadTeam (team : Uuid) : Bus String := do
  match ← select .teams fun pg => (pg.db.findTeam team).map (·.slug) with
  | some slug => return slug
  | none => throw .db

def loadTotals (team : Uuid) : Bus Totals :=
  select .agents fun pg =>
    { agentsOnline := ((pg.db.agents.filter fun a => a.teamId == team &&
        pg.db.presence.any fun p => p.agentId == a.id && live pg.now p).map (·.id)).dedup.length
      openTasks := pg.db.countTasks team .«open»
      claimedTasks := pg.db.countTasks team .claimed
      messages24h := (pg.db.messages.filter fun m =>
        m.teamId == team && m.channelId.isSome && decide (pg.now - secs 86400 < m.createdAt)).length }

/-- `ORDER BY COALESCE(p.expires_at > now(), false) DESC, a.name, p.updated_at DESC NULLS LAST`. -/
def agentOrder (now : Time) (a b : RosterRow) : Bool :=
  if a.online now == b.online now then
    if a.1.name == b.1.name then descNullsLast (a.2.map (·.updatedAt)) (b.2.map (·.updatedAt))
    else decide (a.1.name ≤ b.1.name)
  else a.online now

/-- One row for each working context. -/
def loadAgents (team : Uuid) : Bus (List AgentRow) :=
  select .agents fun pg =>
    (Rows.orderBy (fun a b => agentOrder pg.now a b = true) (pg.db.roster team)).map fun r =>
      { name := r.1.name, session := (r.2.map (·.session)).getD "", status := r.2.map (·.status)
        repo := r.2.bind (·.repo), branch := r.2.bind (·.branch), activity := r.2.bind (·.activity)
        updatedAt := r.2.map (·.updatedAt), online := r.online pg.now }

def loadTasks (team : Uuid) : Bus (List TaskRow) :=
  select .tasks fun pg =>
    ((Rows.orderBy taskOrder (pg.db.tasks.filter (·.teamId == team))).take 30).map fun t =>
      { key := t.key, title := t.title, status := t.status, claimedBy := t.claimedBy.bind pg.db.agentName
        result := t.result, blocked := pg.db.blocked t.id, updatedAt := t.updatedAt }

/-- The join on `channels` is what excludes direct messages. -/
def messageRow? (db : Db) (m : Message) : Option MessageRow := do
  let channel ← m.channelId.bind db.channelName
  let sender ← db.agentName m.senderAgentId
  return { id := m.id, channel, sender, announce := m.announce, body := left m.body 240
           createdAt := m.createdAt }

def loadMessages (team : Uuid) : Bus (List MessageRow) :=
  select .messages fun pg =>
    ((Rows.orderBy (fun a b => b.id ≤ a.id) (pg.db.messages.filter (·.teamId == team))).filterMap
      (messageRow? pg.db)).take 20

def loadLocks (team : Uuid) : Bus (List LockRow) :=
  select .locks fun pg => (pg.db.activeLocks team pg.now).filterMap fun l =>
    (pg.db.agentName l.holderAgentId).map fun holder =>
      { name := l.name, holder, purpose := l.purpose, expiresAt := l.expiresAt }

def loadNotes (team : Uuid) : Bus (List NoteRow) :=
  select .notes fun pg =>
    ((Rows.orderBy (fun a b => b.updatedAt ≤ a.updatedAt) (pg.db.notes.filter (·.teamId == team))).take
      15).map fun n =>
        { scope := n.scope, key := n.key, updatedBy := n.updatedBy.bind pg.db.agentName, updatedAt := n.updatedAt }

/-- Everything the page shows; the seven queries are independent. -/
def load (team : Uuid) : Bus Snapshot := do
  let slug ← loadTeam team
  let totals ← loadTotals team
  let agents ← loadAgents team
  let tasks ← loadTasks team
  let messages ← loadMessages team
  let locks ← loadLocks team
  let notes ← loadNotes team
  return { team := slug, totals, agents, tasks, messages, locks, notes }

end CrewSync.Dashboard
