import CrewSync.Model
import CrewSync.Triggers
import Mathlib.Algebra.Order.Ring.Int

/-! Storage quotas and retention (`src/store/quota.rs`). -/

namespace CrewSync

namespace Db

/-- `SELECT COALESCE(sum(size_bytes), 0) FROM attachments WHERE team_id = $1`. -/
def attachmentBytes (db : Db) (team : Uuid) : Int :=
  ((db.attachments.filter (·.teamId == team)).map (·.sizeBytes)).sum

def findTeam (db : Db) (team : Uuid) : Option Team := db.teams.find? (·.id == team)

end Db

/-- `SELECT attachment_bytes_limit FROM teams WHERE id = $1 FOR UPDATE` with `fetch_one`. -/
def quotaOf (team : Uuid) : Sql (Option Int) := fun pg =>
  match pg.db.findTeam team with
  | some t => .ok (t.attachmentBytesLimit, pg.seqs, [])
  | none => .error .db

/-- Reject an upload that would take the team past its quota. -/
def checkAttachmentQuota (conn : Conn) (team : Uuid) (incomingBytes : Int) : Bus Conn := do
  let (limit, conn) ← conn.execute (.lockTeam team) (some (team, .forUpdate)) (quotaOf team)
  match limit with
  | none => return conn
  | some limit =>
    let used ← conn.select .attachments fun pg => pg.db.attachmentBytes team
    if used + incomingBytes > limit then
      throw (.invalid (s!"attachment quota exceeded: this team stores {used} of {limit} bytes and this " ++
        s!"file adds {incomingBytes}. Delete the task or message carrying an old " ++
        "attachment, or ask an operator to raise the quota."))
    return conn

/-! ### Prune -/

def maxPruneDays : Int := 2147483647

/-- The first instant of a `TIMESTAMPTZ`. -/
def minTimestamp : Time := -211813488000000000

/-- `now() - make_interval(days => $2)`; an instant out of range is an error. -/
def cutoff (now : Time) (days : Int) : Except BusError Time :=
  let t := now - secs (86400 * days)
  if t < minTimestamp then .error .db else .ok t

/-- The message of an attachment is one of the team's that a prune removes. -/
def freedBytes (db : Db) (team : Uuid) (before : Time) : Int :=
  ((db.attachments.filter fun a => a.teamId == team && db.messages.any fun m =>
    a.messageId == some m.id && decide (m.createdAt < before)).map (·.sizeBytes)).sum

def oldRevision (db : Db) (team : Uuid) (before : Time) (r : NoteRevision) : Bool :=
  db.notes.any (fun n => r.noteId == n.id && n.teamId == team) && decide (r.createdAt < before)

def oldTaskEvent (db : Db) (team : Uuid) (before : Time) (e : TaskEvent) : Bool :=
  db.tasks.any (fun t => e.taskId == t.id && t.teamId == team) && decide (e.createdAt < before)

def oldMessage (team : Uuid) (before : Time) (m : Message) : Bool :=
  m.teamId == team && decide (m.createdAt < before)

/-- `DELETE FROM note_revisions r USING notes n …`: the number of rows deleted. -/
def pruneRevisions (team : Uuid) (days : Int) : Sql Nat := fun pg => do
  let before ← cutoff pg.now days
  let p := oldRevision pg.db team before
  return ((pg.db.noteRevisions.filter p).length, pg.seqs, [.deleteNoteRevisions p])

def pruneTaskEvents (team : Uuid) (days : Int) : Sql Nat := fun pg => do
  let before ← cutoff pg.now days
  let p := oldTaskEvent pg.db team before
  return ((pg.db.taskEvents.filter p).length, pg.seqs, [.deleteTaskEvents p])

def pruneMessages (team : Uuid) (days : Int) : Sql Nat := fun pg => do
  let before ← cutoff pg.now days
  let p := oldMessage team before
  return ((pg.db.messages.filter p).length, pg.seqs, [.deleteMessages p])

/-- The statements of `prune`, in their transaction. -/
def pruneBody (team : Uuid) (days : Int) (dryRun : Bool) (tx : Conn) : Bus (PruneReport × Conn) := do
  -- Measured before the delete, because the rows are gone afterwards.
  let freed ← tx.select .attachments fun pg => (cutoff pg.now days).map (freedBytes pg.db team)
  let freed ← check freed
  let (noteRevisions, tx) ← tx.execute (.delete .noteRevisions) none (pruneRevisions team days)
  let (taskEvents, tx) ← tx.execute (.delete .taskEvents) none (pruneTaskEvents team days)
  let (messages, tx) ← tx.execute (.delete .messages) none (pruneMessages team days)
  return ({ messages, noteRevisions, taskEvents, attachmentsFreedBytes := freed, dryRun }, tx)

/-- Delete team data older than the given days; a dry run rolls back. -/
def prune (pid : Nat) (team : Uuid) (olderThanDays : Int) (dryRun : Bool) : Bus PruneReport := do
  if olderThanDays < 1 then
    throw (.invalid "older_than_days must be at least 1; pruning everything is not a retention policy")
  if olderThanDays > maxPruneDays then
    throw (.invalid (s!"older_than_days is {olderThanDays}, which is larger than this can express; " ++
      s!"use a window of at most {maxPruneDays} days"))
  let tx ← Conn.begin pid
  match ← attempt (pruneBody team olderThanDays dryRun tx) with
  | .ok (report, tx) =>
    if dryRun then tx.rollback else tx.commit
    return report
  | .error e =>
    Conn.rollback ⟨pid, none⟩
    throw e

end CrewSync
