import CrewSync.Model
import CrewSync.Triggers

/-! Presence (`src/store/presence.rs`). -/

namespace CrewSync
variable [Platform]
open Platform

def defaultPresenceTtlSecs : Int := 600
def maxPresenceTtlSecs : Int := 86400
def maxPresenceFieldBytes : Nat := 256

structure HeartbeatInput where
  status : Option String
  repo : Option String
  branch : Option String
  activity : Option String
  ttlSeconds : Option Int

/-- `COALESCE(p.expires_at > now(), false)`. -/
def live (now : Time) (p : Presence) : Bool := now < p.expiresAt

/-- `INSERT INTO agent_presence … ON CONFLICT (agent_id, session) DO UPDATE …`, joined with the agent. -/
def upsertPresence (auth : AuthCtx) (status : String) (repo branch activity : Option String) (ttl : Int) :
    Sql AgentInfo := fun pg =>
  let old := pg.db.presence.find? fun p => p.agentId == auth.agentId && p.session == auth.session
  let p : Presence :=
    { agentId := auth.agentId, session := auth.session, status
      repo := repo.or (old.bind (·.repo))
      branch := branch.or (old.bind (·.branch))
      activity := activity.or (old.bind (·.activity))
      updatedAt := pg.now, expiresAt := pg.now + secs ttl }
  match pg.db.agents.find? (·.id == auth.agentId) with
  | none => .error .db
  | some a =>
    .ok ({ name := a.name, displayName := a.displayName, session := sessionLabel auth, status := p.status
           repo := p.repo, branch := p.branch, activity := p.activity, lastSeen := some (ts p.updatedAt)
           online := live pg.now p, sessions := [] },
      pg.seqs, [.putPresence p])

def heartbeat (auth : AuthCtx) (input : HeartbeatInput) : Bus AgentInfo := do
  let status := (input.status.map fun s => toLowercase (trim s)).getD "active"
  if !(["active", "idle", "busy", "blocked"].contains status) then
    throw (.invalid "status must be one of: active, idle, busy, blocked")
  let ttl := clamp (input.ttlSeconds.getD defaultPresenceTtlSecs) 30 maxPresenceTtlSecs
  let repo ← check (checkTextOpt "presence repo" input.repo maxPresenceFieldBytes)
  let branch ← check (checkTextOpt "presence branch" input.branch maxPresenceFieldBytes)
  let activity ← check (checkTextOpt "presence activity" input.activity maxPresenceFieldBytes)
  execute (.insert .agentPresence) (upsertPresence auth status repo branch activity ttl)

/-- A row of `agents LEFT JOIN agent_presence`. -/
abbrev RosterRow := Agent × Option Presence

def RosterRow.online (now : Time) (r : RosterRow) : Bool := r.2.any (live now)

/-- `a DESC NULLS LAST` puts `a` no later than `b`. -/
def descNullsLast (a b : Option Time) : Bool :=
  match a, b with
  | some a, some b => b ≤ a
  | some _, none => true
  | none, some _ => false
  | none, none => true

/-- `ORDER BY a.name, online DESC, p.updated_at DESC NULLS LAST`. -/
def rosterOrder (now : Time) (a b : RosterRow) : Bool :=
  if a.1.name == b.1.name then
    if a.online now == b.online now then descNullsLast (a.2.map (·.updatedAt)) (b.2.map (·.updatedAt))
    else a.online now
  else decide (a.1.name ≤ b.1.name)

namespace Db

/-- `FROM agents a LEFT JOIN agent_presence p ON p.agent_id = a.id WHERE a.team_id = $1 AND a.disabled_at
    IS NULL`. -/
def roster (db : Db) (team : Uuid) : List RosterRow :=
  (db.agents.filter fun a => a.teamId == team && a.disabledAt.isNone).flatMap fun a =>
    match db.presence.filter (·.agentId == a.id) with
    | [] => [(a, none)]
    | ps => ps.map fun p => (a, some p)

end Db

def agentSession (now : Time) (r : RosterRow) : AgentSession :=
  let online := r.online now
  { session := nonEmpty (r.2.map (·.session))
    status := if online then (r.2.map (·.status)).getD "active" else "offline"
    repo := r.2.bind (·.repo)
    branch := r.2.bind (·.branch)
    activity := r.2.bind (·.activity)
    lastSeen := r.2.map fun p => ts p.updatedAt
    online }

/-- One step of the fold: the row joins the last entry when the name is the same. `agents` is kept with
    the last entry first. -/
def foldRow (now : Time) (agents : List AgentInfo) (r : RosterRow) : List AgentInfo :=
  let entry := agentSession now r
  let fresh : AgentInfo :=
    { name := r.1.name, displayName := r.1.displayName, session := entry.session, status := entry.status
      repo := entry.repo, branch := entry.branch, activity := entry.activity, lastSeen := entry.lastSeen
      online := entry.online, sessions := [entry] }
  match agents with
  | [] => [fresh]
  | agent :: rest =>
    if agent.name == r.1.name then
      { agent with online := agent.online || entry.online, sessions := agent.sessions ++ [entry] } :: rest
    else fresh :: agent :: rest

/-- With a single session the top-level fields say everything. -/
def dropSingle (agent : AgentInfo) : AgentInfo :=
  if agent.sessions.length < 2 then { agent with sessions := [] } else agent

/-- Online first, then by name. -/
def agentOrder (a b : AgentInfo) : Bool :=
  if a.online == b.online then decide (a.name ≤ b.name) else a.online

def foldRoster (now : Time) (rows : List RosterRow) : AgentList :=
  let agents := ((rows.foldl (foldRow now) []).reverse).map dropSingle
  { agents := Rows.orderBy (fun a b => agentOrder a b = true) agents
    onlineCount := (agents.filter (·.online)).length }

def listAgents (auth : AuthCtx) (onlineOnly : Bool) : Bus AgentList :=
  select .agents fun pg =>
    foldRoster pg.now (Rows.orderBy (fun a b => rosterOrder pg.now a b = true)
      ((pg.db.roster auth.teamId).filter fun r => !onlineOnly || r.online pg.now))

end CrewSync
