import CrewSync.Model
import CrewSync.Triggers

/-! Tasks (`src/store/tasks.rs`). -/

namespace CrewSync
variable [Platform]
open Platform

def defaultLeaseSecs : Int := 900
def maxLeaseSecs : Int := 86400
def maxTitleBytes : Nat := 512
def maxDescriptionBytes : Nat := 64 * 1024
def maxResultBytes : Nat := 64 * 1024
def maxDependencies : Nat := 32

/-! ### Queries -/

namespace Db

/-- Some dependency of the task is neither done nor cancelled. -/
def blocked (db : Db) (task : Uuid) : Bool :=
  db.taskDeps.any fun td => td.taskId == task &&
    db.tasks.any fun d => d.id == td.blockedByTaskId && !d.status.finished

/-- `array_agg(d.key ORDER BY d.key)` over the dependencies. -/
def dependsOn (db : Db) (task : Uuid) : List String :=
  Rows.orderBy (fun a b => a ≤ b) ((db.taskDeps.filter (·.taskId == task)).filterMap fun td =>
    (db.tasks.find? (·.id == td.blockedByTaskId)).map (·.key))

/-- `TASK_SELECT` and `From<TaskRow> for TaskInfo`; `now` is the server's clock. -/
def taskInfo (db : Db) (now : Time) (t : Task) : TaskInfo :=
  { key := t.key
    title := t.title
    description := t.description
    status := t.status
    dependsOn := db.dependsOn t.id
    blocked := db.blocked t.id
    claimedBy := t.claimedBy.bind db.agentName
    claimedSession := nonEmpty t.claimedSession
    claimedAt := t.claimedAt.map ts
    leaseExpiresAt := t.leaseExpiresAt.map ts
    leaseExpired := t.status == .claimed && t.leaseExpiresAt.any (· < now)
    leaseSecondsRemaining := (t.leaseExpiresAt.filter fun _ => t.status == .claimed).map fun e =>
      max ((e - now) / 1000000) 0
    result := t.result
    metadata := t.metadata
    attachments := attachmentMetas (db.attachments.filter (·.taskId == some t.id))
    createdBy := t.createdBy.bind db.agentName
    createdAt := ts t.createdAt
    updatedAt := ts t.updatedAt }

/-- `WHERE team_id = $1 AND key = $2`. -/
def findTask (db : Db) (team : Uuid) (key : String) : Option Task :=
  db.tasks.find? fun t => t.teamId == team && t.key == key

end Db

def normalizeKey (key : String) : Except BusError String :=
  let key := trim key
  if key.isEmpty then .error (.invalid "task key cannot be empty")
  else if key.utf8ByteSize > 128 then .error (.invalid "task key is limited to 128 characters")
  else .ok key

/-! ### Statements -/

/-- `INSERT INTO task_events`. -/
def insertTaskEvent (task : Uuid) (agent : Uuid) (event : String) (detail : Option String) : Sql Unit :=
  fun pg =>
    let id := pg.seqs.taskEvents + 1
    let e : TaskEvent := { id, taskId := task, agentId := some agent, event, detail, createdAt := pg.now }
    if pg.db.taskEventOk e then .ok ((), { pg.seqs with taskEvents := id }, [.insertTaskEvent e])
    else .error .db

/-- The row of a fresh task. -/
def newTask (auth : AuthCtx) (id : Uuid) (now : Time) (key title : String) (description : Option String)
    (metadata : Json) : Task :=
  { id, teamId := auth.teamId, key, title, description, status := .«open», claimedBy := none
    claimedSession := none, claimedAt := none, leaseExpiresAt := none, result := none, metadata
    createdBy := some auth.agentId, createdAt := now, updatedAt := now }

/-- `INSERT INTO tasks (team_id, key, title, description, metadata, created_by)`. -/
def insertTask (auth : AuthCtx) (key title : String) (description : Option String) (metadata : Json) :
    Sql Uuid := fun pg =>
  let t := newTask auth (randomUuid pg.seqs.uuids) pg.now key title description metadata
  if pg.db.taskOk t && !pg.db.tasks.any (fun r => r.id == t.id || Db.taskKey r == Db.taskKey t) then
    let (seqs, fired) := taskTriggers pg [(none, t)] { pg.seqs with uuids := pg.seqs.uuids + 1 }
    .ok (t.id, seqs, .insertTask t :: fired)
  else .error .db

/-- `INSERT INTO task_deps`. -/
def insertTaskDep (task dep : Uuid) : Sql Unit := fun pg =>
  let d : TaskDep := { taskId := task, blockedByTaskId := dep }
  if pg.db.taskDepOk d && !pg.db.taskDeps.any (· == d) then .ok ((), pg.seqs, [.insertTaskDep d])
  else .error .db

/-- `UPDATE tasks SET f WHERE p RETURNING id, key` with `fetch_optional`. -/
def updateTask (p : Task → Bool) (f : Task → Task) : Sql (Option (Uuid × String)) := fun pg =>
  let rows := pg.db.tasks.filter p
  if rows.all fun t => pg.db.taskOk (f t) then
    let (seqs, fired) := taskTriggers pg (rows.map fun t => (some t, f t)) pg.seqs
    .ok (rows.head?.map fun t => (t.id, t.key), seqs, .updateTasks p f :: fired)
  else .error .db

/-- `SET status = 'claimed', claimed_by = …`, as both claim statements write it. -/
def setClaimed (auth : AuthCtx) (lease : Int) (now : Time) (t : Task) : Task :=
  { t with
    status := .claimed
    claimedBy := some auth.agentId
    claimedSession := some auth.session
    claimedAt := some now
    leaseExpiresAt := some (now + secs lease)
    updatedAt := now }

/-- `claimed_by = $agent AND COALESCE(claimed_session, '') = $session`. -/
def heldBy (agent : Uuid) (session : String) (t : Task) : Bool :=
  t.claimedBy == some agent && t.claimedSession.getD "" == session

def leaseOf (leaseSeconds : Option Int) : Int := clamp (leaseSeconds.getD defaultLeaseSecs) 30 maxLeaseSecs

/-- The `WHERE` of `claim_task`. -/
def claimable (auth : AuthCtx) (key : String) (pg : Pg) (t : Task) : Bool :=
  t.teamId == auth.teamId && t.key == key && (t.status == .«open» || t.status == .claimed) &&
    (t.status == .«open» || heldBy auth.agentId auth.session t || t.leaseExpiresAt.isNone ||
      t.leaseExpiresAt.any (· < pg.now)) &&
    !pg.db.blocked t.id

def claimStatement (auth : AuthCtx) (key : String) (lease : Int) : Sql (Option (Uuid × String)) :=
  fun pg => updateTask (claimable auth key pg) (setClaimed auth lease pg.now) pg

/-- The `WHERE` of the candidate of `claim_next_task`. -/
def available (team : Uuid) (pg : Pg) (t : Task) : Bool :=
  t.teamId == team &&
    (t.status == .«open» || (t.status == .claimed && t.leaseExpiresAt.any (· < pg.now))) &&
    !pg.db.blocked t.id

/-- `ORDER BY created_at LIMIT 1`. Between statements no row is locked, so `SKIP LOCKED` skips none. -/
def candidate (team : Uuid) (pg : Pg) : Option Task :=
  (Rows.orderBy (fun a b => a.createdAt ≤ b.createdAt) (pg.db.tasks.filter (available team pg))).head?

def claimNextStatement (auth : AuthCtx) (lease : Int) : Sql (Option (Uuid × String)) := fun pg =>
  updateTask (fun t => (candidate auth.teamId pg).any (·.id == t.id)) (setClaimed auth lease pg.now) pg

/-- The `WHERE` of `renew_lease` and `release_task`. -/
def ownClaim (auth : AuthCtx) (key : String) (t : Task) : Bool :=
  t.teamId == auth.teamId && t.key == key && t.status == .claimed && heldBy auth.agentId auth.session t

def renewStatement (auth : AuthCtx) (key : String) (lease : Int) : Sql (Option (Uuid × String)) := fun pg =>
  updateTask (ownClaim auth key)
    (fun t => { t with leaseExpiresAt := some (pg.now + secs lease), updatedAt := pg.now }) pg

def releaseStatement (auth : AuthCtx) (key : String) : Sql (Option (Uuid × String)) := fun pg =>
  updateTask (ownClaim auth key)
    (fun t => { t with
      status := .«open», claimedBy := none, claimedSession := none, claimedAt := none
      leaseExpiresAt := none, updatedAt := pg.now }) pg

def completeStatement (auth : AuthCtx) (key : String) (result : Option String) :
    Sql (Option (Uuid × String)) := fun pg =>
  updateTask (fun t => t.teamId == auth.teamId && t.key == key && (t.status == .«open» || t.status == .claimed))
    (fun t => { t with status := .done, result, leaseExpiresAt := none, updatedAt := pg.now }) pg

/-! ### Calls -/

def logEvent (task agent : Uuid) (event : String) (detail : Option String) : Bus Unit :=
  execute (.insert .taskEvents) (insertTaskEvent task agent event detail)

def fetchTask (auth : AuthCtx) (key : String) : Bus TaskInfo := do
  let row ← select .tasks fun pg => (pg.db.findTask auth.teamId key).map (pg.db.taskInfo pg.now)
  match row with
  | some t => return t
  | none => throw (.notFound s!"task '{key}'")

structure CreateInput where
  key : String
  title : String
  description : Option String
  metadata : Option Json
  dependsOn : List String

/-- The dependency keys in their order, each looked up by its own statement. -/
def lookupDeps (auth : AuthCtx) (key : String) : List String → Bus (List Uuid)
  | [] => return []
  | raw :: raws => do
    let depKey ← check (normalizeKey raw)
    if depKey == key then
      throw (.invalid "a task cannot depend on itself")
    let dep ← select .tasks fun pg => (pg.db.findTask auth.teamId depKey).map (·.id)
    match dep with
    | none => throw (.notFound s!"dependency '{depKey}' does not exist; create it first")
    | some id => return id :: (← lookupDeps auth key raws)

/-- `dep_ids.sort(); dep_ids.dedup()`. -/
def sortDedup (ids : List Uuid) : List Uuid := (Rows.orderBy (· ≤ ·) ids).dedup

def insertDeps (task : Uuid) : List Uuid → Bus Unit
  | [] => return ()
  | dep :: deps => do
    execute (.insertTaskDep task dep) (insertTaskDep task dep)
    insertDeps task deps

/-- The end of `create_task`, once the row of the task is there. -/
def finishCreate (auth : AuthCtx) (key title : String) (id : Uuid) (deps : List Uuid) : Bus TaskInfo := do
  insertDeps id deps
  logEvent id auth.agentId "created" (some title)
  fetchTask auth key

def createTask (auth : AuthCtx) (input : CreateInput) : Bus TaskInfo := do
  let key ← check (normalizeKey input.key)
  let title ← check (checkText "task title" input.title maxTitleBytes)
  if title.isEmpty then
    throw (.invalid "task title cannot be empty")
  let description ← check (checkTextOpt "task description" input.description maxDescriptionBytes)
  check (checkMetadata "task" input.metadata)
  let metadata := input.metadata.getD "\x7b\x7d"
  let existing ← select .tasks fun pg => pg.db.findTask auth.teamId key
  if existing.isSome then
    throw (.conflict s!"task '{key}' already exists; use get_task to inspect it")
  let count := input.dependsOn.length
  if count > maxDependencies then
    throw (.invalid (s!"a task declares at most {maxDependencies} dependencies; got {count}. " ++
      "Group the upstream work into fewer tasks."))
  -- The keys are resolved before anything is inserted.
  let deps ← lookupDeps auth key input.dependsOn
  let id ← execute (.insert .tasks) (insertTask auth key title description metadata)
  finishCreate auth key title id (sortDedup deps)

def getTask (auth : AuthCtx) (key : String) : Bus TaskDetail := do
  let task ← fetchTask auth key
  let rows ← select .taskEvents fun pg =>
    -- `JOIN tasks t ON t.id = e.task_id WHERE t.team_id = $1 AND t.key = $2 ORDER BY e.id`
    (Rows.orderBy (fun a b => a.id ≤ b.id) (pg.db.taskEvents.filter fun e =>
      pg.db.tasks.any fun t => t.id == e.taskId && t.teamId == auth.teamId && t.key == trim key)).map fun e =>
        { event := e.event, agent := e.agentId.bind pg.db.agentName, detail := e.detail
          createdAt := ts e.createdAt }
  return { task, history := rows }

/-- `ORDER BY CASE t.status …, t.updated_at DESC`. -/
def statusRank : TaskStatus → Nat
  | .claimed => 0
  | .«open» => 1
  | .done | .cancelled => 2

def taskOrder (a b : Task) : Prop :=
  statusRank a.status < statusRank b.status ∨
    (statusRank a.status = statusRank b.status ∧ b.updatedAt ≤ a.updatedAt)

instance : DecidableRel taskOrder := fun _ _ => inferInstanceAs (Decidable (_ ∨ _))

def listTasks (auth : AuthCtx) (status : Option String) (mineOnly : Bool) (limit : Int) : Bus TaskList := do
  let limit := clamp limit 1 maxLimit
  let status := (status.map fun s => toLowercase (trim s)).filter (· != "any")
  if status.any fun s => !(["open", "claimed", "done", "cancelled"].contains s) then
    throw (.invalid "status must be one of: open, claimed, done, cancelled, any")
  let tasks ← select .tasks fun pg =>
    ((Rows.orderBy taskOrder (pg.db.tasks.filter fun t =>
      t.teamId == auth.teamId && (status.isNone || status == some t.status.text) &&
        (!mineOnly || heldBy auth.agentId auth.session t))).take limit.toNat).map (pg.db.taskInfo pg.now)
  let (opened, claimed) ← select .tasks fun pg =>
    let rows := pg.db.tasks.filter (·.teamId == auth.teamId)
    ((rows.filter (·.status == .«open»)).length, (rows.filter (·.status == .claimed)).length)
  return { tasks, «open» := opened, claimed }

/-- Why a claim was refused: who holds the task, and until when. -/
def holderReason (auth : AuthCtx) (current : TaskInfo) : String :=
  let holder := current.claimedBy.getD "?"
  let expiry := match current.leaseSecondsRemaining with
    | some secs => s!"the lease expires in {secs}s"
    | none => "the lease expiry is unknown"
  let mine := current.claimedBy == some auth.agentName
  let sameSession := current.claimedSession.getD "" == auth.session
  if mine && !sameSession then
    let theirs := match current.claimedSession with
      | some s => s!"'{s}'"
      | none => "shared"
    s!"claimed by your own {theirs} session, and {expiry} — continue the " ++
      "work there, or wait for the lease to expire and claim it here"
  else
    let place := match current.claimedSession with
      | some s => s!" (session '{s}')"
      | none => ""
    s!"held by {holder}{place}, {expiry}"

/-- The refusal of `claim_task`, read from the task as it is. -/
def claimRefusal (auth : AuthCtx) (current : TaskInfo) : String :=
  if current.blocked then
    let deps := joinComma current.dependsOn
    s!"blocked by unfinished dependencies: {deps}"
  else
    match current.status with
    | .claimed => holderReason auth current
    | other =>
      let text := other.text
      s!"task is {text}"

def claimTask (auth : AuthCtx) (key : String) (leaseSeconds : Option Int) : Bus ClaimResult := do
  let key ← check (normalizeKey key)
  let updated ← execute (.update .tasks) (claimStatement auth key (leaseOf leaseSeconds))
  match updated with
  | some (id, _) =>
    logEvent id auth.agentId "claimed" none
    return { claimed := true, task := some (← fetchTask auth key), reason := none }
  | none =>
    let current ← fetchTask auth key
    return { claimed := false, task := some current, reason := some (claimRefusal auth current) }

def claimNextTask (auth : AuthCtx) (leaseSeconds : Option Int) : Bus ClaimResult := do
  let picked ← execute (.update .tasks) (claimNextStatement auth (leaseOf leaseSeconds))
  match picked with
  | some (id, key) =>
    logEvent id auth.agentId "claimed" (some "via claim_next_task")
    return { claimed := true, task := some (← fetchTask auth key), reason := none }
  | none => return { claimed := false, task := none, reason := some "no unclaimed task available" }

/-- The refusal of `renew_lease` and `release_task`. -/
def noClaimHere (auth : AuthCtx) (key : String) : Bus BusError := do
  match ← attempt (fetchTask auth key) with
  | .ok current =>
    if current.status == .claimed then
      let reason := holderReason auth current
      return .conflict s!"you do not hold the claim on '{key}': it is {reason}"
    else
      let status := current.status.text
      return .conflict s!"you do not hold an active claim on '{key}' (it is {status})"
  | .error _ => return .conflict s!"you do not hold an active claim on '{key}'"

def renewLease (auth : AuthCtx) (key : String) (leaseSeconds : Option Int) : Bus TaskInfo := do
  let key ← check (normalizeKey key)
  let updated ← execute (.update .tasks) (renewStatement auth key (leaseOf leaseSeconds))
  match updated with
  | none => throw (← noClaimHere auth key)
  | some _ => fetchTask auth key

def releaseTask (auth : AuthCtx) (key : String) : Bus TaskInfo := do
  let key ← check (normalizeKey key)
  let updated ← execute (.update .tasks) (releaseStatement auth key)
  match updated with
  | some (id, _) =>
    logEvent id auth.agentId "released" none
    fetchTask auth key
  | none => throw (← noClaimHere auth key)

def completeTask (auth : AuthCtx) (key : String) (result : Option String) : Bus TaskInfo := do
  let key ← check (normalizeKey key)
  let result ← check (checkTextOpt "task result" result maxResultBytes)
  let updated ← execute (.update .tasks) (completeStatement auth key result)
  match updated with
  | some (id, _) =>
    logEvent id auth.agentId "completed" result
    fetchTask auth key
  | none =>
    let current ← fetchTask auth key
    let status := current.status.text
    throw (.conflict s!"task '{key}' is already {status}")

end CrewSync
