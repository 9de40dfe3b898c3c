import CrewSync.Grant
import CrewSync.Store.Messaging

/-! Operator commands that set up teams, agents and webhooks (`src/admin.rs`, `src/webhooks.rs`). -/

namespace CrewSync.Admin
variable [Platform]
open Platform

def teamId (slug : String) : Bus Uuid := do
  match ← select .teams fun pg => (pg.db.teams.find? (·.slug == slug)).map (·.id) with
  | some id => return id
  | none => throw (.invalid s!"no team with slug '{slug}'")

/-- `INSERT INTO teams … ON CONFLICT (slug) DO NOTHING`. -/
def insertTeam (slug name : String) : Sql Unit := fun pg =>
  if pg.db.teams.any (·.slug == slug) then .ok ((), pg.seqs, [])
  else
    let id := randomUuid pg.seqs.uuids
    if pg.db.hasTeam id then .error .db
    else .ok ((), { pg.seqs with uuids := pg.seqs.uuids + 1 },
      [.putTeam { id, slug, name, attachmentBytesLimit := none }])

def teamCreate (slug : String) (name : Option String) : Bus Unit := do
  let slug := toLowercase (trim slug)
  if slug.isEmpty then
    throw (.invalid "team slug cannot be empty")
  execute (.insert .teams) (insertTeam slug (name.getD slug))

/-- `UPDATE teams SET attachment_bytes_limit = $1 WHERE id = $2`. -/
def setQuota (team : Uuid) (bytes : Option Int) : Sql Unit := fun pg =>
  .ok ((), pg.seqs, ((pg.db.findTeam team).map fun t =>
    Write.putTeam { t with attachmentBytesLimit := bytes }).toList)

def teamQuota (team : String) (bytes : Option Int) : Bus Unit := do
  let id ← teamId team
  if bytes.any (· ≤ 0) then
    throw (.invalid "a quota must be positive; omit --bytes to clear it")
  execute (.update .teams) (setQuota id bytes)

/-- `INSERT INTO agents … ON CONFLICT (team_id, name) DO UPDATE …`. -/
def upsertAgent (team : Uuid) (name : String) (displayName : Option String) : Sql Unit := fun pg =>
  match pg.db.findAgent team name with
  | some a => .ok ((), pg.seqs,
      [.putAgent { a with displayName := displayName.or a.displayName, disabledAt := none }])
  | none =>
    let id := randomUuid pg.seqs.uuids
    if pg.db.hasTeam team && !pg.db.agentExists id then
      .ok ((), { pg.seqs with uuids := pg.seqs.uuids + 1 },
        [.putAgent { id, teamId := team, name, displayName, disabledAt := none }])
    else .error .db

def agentAdd (team name : String) (displayName : Option String) : Bus Unit := do
  let tid ← teamId team
  let name := toLowercase (trim name)
  if name.isEmpty then
    throw (.invalid "agent name cannot be empty")
  execute (.insert .agents) (upsertAgent tid name displayName)

/-- `UPDATE agents SET disabled_at = now() WHERE team_id = $1 AND name = $2`: the number of rows. -/
def disable (team : Uuid) (name : String) : Sql Nat := fun pg =>
  match pg.db.findAgent team name with
  | some a => .ok (1, pg.seqs, [.putAgent { a with disabledAt := some pg.now }])
  | none => .ok (0, pg.seqs, [])

def agentDisable (team name : String) : Bus Unit := do
  let tid ← teamId team
  let rows ← execute (.update .agents) (disable tid (trim name))
  if rows == 0 then
    throw (.invalid s!"no agent '{name}' in team '{team}'")

def teamPrune (pid : Nat) (team : String) (days : Int) (apply : Bool) : Bus PruneReport := do
  prune pid (← teamId team) days (!apply)

/-! ### Tokens -/

/-- The row that a new token adds to `api_tokens`; the table itself is not part of `Db`. -/
structure ApiToken where
  agentId : Uuid
  tokenHash : List UInt8
  tokenPrefix : String
  label : Option String

def hashToken [Sha256] (raw : String) : List UInt8 := (Sha256.digest (Grant.bytes (trim raw).toList)).val

def tokenPrefix (raw : String) : String := String.ofList (raw.toList.take 12)

/-- `raw` is what `generate_token` made. -/
def tokenIssue [Sha256] (raw team agent : String) (label : Option String) : Bus ApiToken := do
  let tid ← teamId team
  let row ← select .agents fun pg => (pg.db.findAgent tid (trim agent)).map (·.id)
  match row with
  | some agentId => return { agentId, tokenHash := hashToken raw, tokenPrefix := tokenPrefix raw, label }
  | none => throw (.invalid s!"no agent '{agent}' in team '{team}' — add it with `agent add` first")

/-! ### Webhooks -/

def eventKind (name : String) : Option EventKind :=
  if name == "message" then some .message
  else if name == "task" then some .task
  else if name == "lock" then some .lock
  else if name == "note" then some .note
  else none

/-- The event kinds of a list; the first unknown one is rejected. -/
def eventKinds : List String → Except BusError (List EventKind)
  | [] => .ok []
  | e :: es =>
    match eventKind e with
    | none => .error (.invalid s!"unknown event kind '{e}' (valid: message, task, lock, note)")
    | some k => (eventKinds es).map (k :: ·)

/-- `events.split(',')`, trimmed, in lower case, without the empty ones. -/
def splitEvents (events : String) : List String :=
  (((events.toList.splitOn ',').map fun e => toLowercase (trim (String.ofList e)))).filter fun e => !e.isEmpty

def insertWebhook (team : Uuid) (url kind : String) (events : List EventKind) (channel : Option String) :
    Sql Unit := fun pg =>
  let id := randomUuid pg.seqs.uuids
  if pg.db.hasTeam team && !pg.db.webhooks.any (·.id == id) then
    .ok ((), { pg.seqs with uuids := pg.seqs.uuids + 1 },
      [.insertWebhook { id, teamId := team, url, kind, events, channelFilter := channel, enabled := true }])
  else .error .db

def webhookAdd (team url kind events : String) (channel : Option String) : Bus Unit := do
  let kind := toLowercase (trim kind)
  if !(["slack", "discord", "generic"].contains kind) then
    throw (.invalid "kind must be slack, discord or generic")
  let kinds ← check (eventKinds (splitEvents events))
  if kinds.isEmpty then
    throw (.invalid "at least one event kind is required")
  let id ← teamId team
  execute (.insert .webhooks) (insertWebhook id url kind kinds (channel.map toLowercase))

def removeWebhook (id : Uuid) : Sql Nat := fun pg =>
  .ok ((pg.db.webhooks.filter (·.id == id)).length, pg.seqs, [.deleteWebhooks (·.id == id)])

def webhookRemove (id : Uuid) : Bus Unit := do
  let rows ← execute (.delete .webhooks) (removeWebhook id)
  if rows == 0 then
    let text := uuidText id
    throw (.invalid s!"no webhook with id {text}")

end CrewSync.Admin
