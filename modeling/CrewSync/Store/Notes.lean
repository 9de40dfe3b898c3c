import CrewSync.Model
import CrewSync.Triggers

/-! Shared notes (`src/store/notes.rs`). -/

namespace CrewSync
variable [Platform]
open Platform

def maxValueBytes : Nat := 1024 * 1024
def maxTags : Nat := 16
def maxTagBytes : Nat := 64

def normalizeScope (scope : Option String) : String :=
  ((scope.map fun s => toLowercase (trim s)).filter fun s => !s.isEmpty).getD "global"

/-- An optional filter: blank means none. -/
def normalizeFilter (s : Option String) : Option String :=
  (s.map fun s => toLowercase (trim s)).filter fun s => !s.isEmpty

namespace Db

/-- `NOTE_SELECT` and `From<NoteRow> for NoteInfo`. -/
def noteInfo (db : Db) (n : Note) : NoteInfo :=
  { scope := n.scope, key := n.key, value := n.value, tags := n.tags
    updatedBy := n.updatedBy.bind db.agentName, updatedAt := ts n.updatedAt }

def findNote (db : Db) (team : Uuid) (scope key : String) : Option Note :=
  db.notes.find? fun n => n.teamId == team && n.scope == scope && n.key == key

end Db

structure SetInput where
  scope : Option String
  key : String
  value : String
  tags : Option (List String)

/-- The row that `set_note` writes. -/
def newNote (auth : AuthCtx) (id : Uuid) (now : Time) (scope key value : String) (tags : List String) : Note :=
  { id, teamId := auth.teamId, scope, key, value, tags, updatedBy := some auth.agentId, updatedAt := now }

/-- `INSERT INTO notes … ON CONFLICT (team_id, scope, key) DO UPDATE … RETURNING id`. -/
def upsertNote (auth : AuthCtx) (scope key value : String) (tags : List String) : Sql Uuid := fun pg =>
  let old := pg.db.findNote auth.teamId scope key
  let n := newNote auth ((old.map (·.id)).getD (randomUuid pg.seqs.uuids)) pg.now scope key value tags
  if pg.db.noteOk n && (old.isSome || !pg.db.notes.any (·.id == n.id)) then
    let (seqs, fired) := enqueueNoteWebhook pg n
      { pg.seqs with uuids := if old.isSome then pg.seqs.uuids else pg.seqs.uuids + 1 }
    .ok (n.id, seqs, .putNote n :: fired ++ [.notify (notifyNote n)])
  else .error .db

/-- `INSERT INTO note_revisions`. -/
def insertNoteRevision (auth : AuthCtx) (note : Uuid) (value : String) : Sql Unit := fun pg =>
  let id := pg.seqs.noteRevisions + 1
  let r : NoteRevision := { id, noteId := note, value, updatedBy := some auth.agentId, createdAt := pg.now }
  if pg.db.noteRevisionOk r then .ok ((), { pg.seqs with noteRevisions := id }, [.insertNoteRevision r])
  else .error .db

def getNote (auth : AuthCtx) (scope : Option String) (key : String) : Bus NoteRef := do
  let scope := normalizeScope scope
  let key := trim key
  let row ← select .notes fun pg => (pg.db.findNote auth.teamId scope key).map pg.db.noteInfo
  return { scope, key, found := row.isSome, note := row }

/-- The first tag that is too long fails the call. -/
def checkTags : List String → Except BusError Unit
  | [] => .ok ()
  | tag :: tags =>
    match checkText "note tag" tag maxTagBytes with
    | .ok _ => checkTags tags
    | .error e => .error e

def setNote (auth : AuthCtx) (input : SetInput) : Bus NoteInfo := do
  let scope := normalizeScope input.scope
  let key := trim input.key
  if key.isEmpty then
    throw (.invalid "note key cannot be empty")
  let size := input.value.utf8ByteSize
  if size > maxValueBytes then
    throw (.invalid s!"note value is {size} bytes; the limit is {maxValueBytes}")
  let tags := ((input.tags.getD []).map fun t => toLowercase (trim t)).filter fun t => !t.isEmpty
  let count := tags.length
  if count > maxTags then
    throw (.invalid s!"a note carries at most {maxTags} tags; got {count}")
  check (checkTags tags)
  let id ← execute (.insert .notes) (upsertNote auth scope key input.value tags)
  execute (.insert .noteRevisions) (insertNoteRevision auth id input.value)
  let r ← getNote auth (some scope) key
  match r.note with
  | some note => return note
  | none => throw (.notFound "note just written")

def listNotes (auth : AuthCtx) (scope tag : Option String) (limit : Int) : Bus (List NoteInfo) :=
  let limit := clamp limit 1 maxLimit
  let scope := normalizeFilter scope
  let tag := normalizeFilter tag
  select .notes fun pg =>
    ((Rows.orderBy (fun a b => a.scope < b.scope ∨ (a.scope = b.scope ∧ a.key ≤ b.key))
      (pg.db.notes.filter fun n =>
        n.teamId == auth.teamId && scope.all (· == n.scope) && tag.all (n.tags.contains ·))).take
      limit.toNat).map pg.db.noteInfo

def searchNotes (auth : AuthCtx) (query : String) (scope : Option String) (limit : Int) :
    Bus (List NoteInfo) := do
  let query := trim query
  if query.isEmpty then
    throw (.invalid "search query cannot be empty")
  let limit := clamp limit 1 maxLimit
  let scope := normalizeFilter scope
  select .notes fun pg =>
    ((Rows.orderBy (fun a b => b.updatedAt ≤ a.updatedAt) (pg.db.notes.filter fun n =>
      n.teamId == auth.teamId && scope.all (· == n.scope) &&
        tsMatch (n.key ++ " " ++ n.value) query)).take limit.toNat).map pg.db.noteInfo

/-- The `WHERE` of `delete_note`. -/
def noteAt (auth : AuthCtx) (scope key : String) (n : Note) : Bool :=
  n.teamId == auth.teamId && n.scope == scope && n.key == key

/-- `DELETE FROM notes WHERE …`: the number of rows deleted. -/
def deleteNoteStatement (auth : AuthCtx) (scope key : String) : Sql Nat := fun pg =>
  .ok ((pg.db.notes.filter (noteAt auth scope key)).length, pg.seqs, [.deleteNotes (noteAt auth scope key)])

def deleteNote (auth : AuthCtx) (scope : Option String) (key : String) : Bus Ack := do
  let scope := normalizeScope scope
  let key := trim key
  let rows ← execute (.delete .notes) (deleteNoteStatement auth scope key)
  if rows > 0 then
    return { ok := true, detail := s!"deleted note {scope}/{key}" }
  else
    return { ok := false, detail := s!"no note at {scope}/{key}" }

end CrewSync
