import CrewSync.Model
import CrewSync.Triggers

/-! Advisory locks (`src/store/locks.rs`). -/

namespace CrewSync
variable [Platform]
open Platform

def defaultLockTtlSecs : Int := 300
def maxTtlSecs : Int := 86400

def normalizeName (name : String) : Except BusError String :=
  let name := toLowercase (trim name)
  if name.isEmpty then .error (.invalid "lock name cannot be empty")
  else if name.utf8ByteSize > 128 then .error (.invalid "lock name is limited to 128 characters")
  else .ok name

def ttlOf (ttlSeconds : Option Int) : Int := clamp (ttlSeconds.getD defaultLockTtlSecs) 5 maxTtlSecs

namespace Db

/-- `WHERE l.team_id = $1 AND l.name = $2`. -/
def findLock (db : Db) (team : Uuid) (name : String) : Option Lock :=
  db.locks.find? fun l => l.teamId == team && l.name == name

/-- `LOCK_SELECT` and `From<LockRow> for LockInfo`. -/
def lockInfo? (db : Db) (l : Lock) : Option LockInfo :=
  (db.agentName l.holderAgentId).map fun holder =>
    { name := l.name, holder, holderSession := nonEmpty l.holderSession, purpose := l.purpose
      acquiredAt := ts l.acquiredAt, expiresAt := ts l.expiresAt }

end Db

/-- `holder_agent_id = $agent AND COALESCE(holder_session, '') = $session`. -/
def lockHeldBy (agent : Uuid) (session : String) (l : Lock) : Bool :=
  l.holderAgentId == agent && l.holderSession.getD "" == session

/-- The row that `acquire_lock` inserts. -/
def newLock (auth : AuthCtx) (name : String) (now : Time) (ttl : Int) (purpose : Option String) : Lock :=
  { teamId := auth.teamId, name, holderAgentId := auth.agentId, holderSession := some auth.session, purpose
    acquiredAt := now, expiresAt := now + secs ttl }

/-- `DO UPDATE SET …`: a takeover, or an extension of the caller's own lock. -/
def takeLock (fresh old : Lock) (own : Bool) : Lock :=
  { fresh with
    purpose := fresh.purpose.or old.purpose
    acquiredAt := if own then old.acquiredAt else fresh.acquiredAt }

/-- `INSERT INTO locks … ON CONFLICT (team_id, name) DO UPDATE … WHERE … RETURNING holder_agent_id`: was a
    row returned. -/
def acquireStatement (auth : AuthCtx) (name : String) (ttl : Int) (purpose : Option String) : Sql Bool :=
  fun pg =>
    let fresh := newLock auth name pg.now ttl purpose
    if pg.db.lockOk fresh then
      match pg.db.findLock auth.teamId name with
      | none =>
        let (seqs, fired) := enqueueLockWebhook pg "acquired" fresh pg.seqs
        .ok (true, seqs, .putLock fresh :: fired ++ [.notify (notifyLockAcquired fresh)])
      | some l =>
        let own := lockHeldBy auth.agentId auth.session l
        if l.expiresAt < pg.now || own then
          let row := takeLock fresh l own
          .ok (true, pg.seqs, [.putLock row, .notify (notifyLockAcquired row)])
        else .ok (false, pg.seqs, [])
    else .error .db

/-- The `WHERE` of `release_lock`. -/
def ownLock (auth : AuthCtx) (name : String) (l : Lock) : Bool :=
  l.teamId == auth.teamId && l.name == name && lockHeldBy auth.agentId auth.session l

/-- `DELETE FROM locks WHERE …`: the number of rows deleted. -/
def releaseLockStatement (auth : AuthCtx) (name : String) : Sql Nat := fun pg =>
  let rows := pg.db.locks.filter (ownLock auth name)
  let (seqs, fired) := lockDeletedTriggers pg rows pg.seqs
  .ok (rows.length, seqs, .deleteLocks (ownLock auth name) :: fired)

/-- The answer of `acquire_lock`, with the row as it is after the statement. -/
def lockResult (acquired : Bool) (current : Option LockInfo) : LockResult :=
  if acquired then { acquired := true, lock := current, reason := none }
  else
    let holder := (current.map (·.holder)).getD "?"
    let expiry := match current with
      | some l => toString l.expiresAt
      | none => "unknown"
    let session := match current.bind (·.holderSession) with
      | some s => s!" (session '{s}')"
      | none => ""
    { acquired := false, lock := current, reason := some s!"held by {holder}{session} until {expiry}" }

def acquireLock (auth : AuthCtx) (name : String) (ttlSeconds : Option Int) (purpose : Option String) :
    Bus LockResult := do
  let name ← check (normalizeName name)
  let acquired ← execute (.insert .locks) (acquireStatement auth name (ttlOf ttlSeconds) purpose)
  let current ← select .locks fun pg => (pg.db.findLock auth.teamId name).bind pg.db.lockInfo?
  return lockResult acquired current

def releaseLock (auth : AuthCtx) (name : String) : Bus Ack := do
  let name ← check (normalizeName name)
  let released ← execute (.delete .locks) (releaseLockStatement auth name)
  if released > 0 then
    return { ok := true, detail := s!"released lock '{name}'" }
  -- Not ours (or gone): explain.
  let current ← select .locks fun pg =>
    ((pg.db.locks.find? fun l => l.teamId == auth.teamId && l.name == name && pg.now < l.expiresAt).bind
      pg.db.lockInfo?).map fun l => (l.holder, l.holderSession)
  match current with
  | some (holder, session) =>
    if holder == auth.agentName then
      let theirs := match session with
        | some s => s!"'{s}'"
        | none => "shared"
      throw (.conflict (s!"lock '{name}' is held by your own {theirs} session, not by this one — " ++
        "release it there, or wait for it to expire"))
    else
      let place := match session with
        | some s => s!" (session '{s}')"
        | none => ""
      throw (.conflict s!"lock '{name}' is held by {holder}{place}, not by you")
  | none => return { ok := false, detail := s!"lock '{name}' was not held" }

/-- The rows of `list_locks`, of the digest and of the dashboard. -/
def Db.activeLocks (db : Db) (team : Uuid) (now : Time) : List Lock :=
  Rows.orderBy (fun a b => a.name ≤ b.name) (db.locks.filter fun l => l.teamId == team && now < l.expiresAt)

def listLocks (auth : AuthCtx) : Bus (List LockInfo) :=
  select .locks fun pg => (pg.db.activeLocks auth.teamId pg.now).filterMap pg.db.lockInfo?

end CrewSync
