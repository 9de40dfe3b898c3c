import CrewSync.Lib.Base64
import CrewSync.Store.Quota

/-! Attachments (`src/store/attachments.rs`). -/

namespace CrewSync
variable [Platform]

def maxAttachmentBytes : Nat := 256 * 1024
def maxAttachmentsPerTarget : Nat := 8

/-- A validated, decoded attachment. -/
structure NewAttachment where
  filename : String
  contentType : String
  data : List UInt8
  nonempty : data ≠ []
  fits : data.length ≤ maxAttachmentBytes

def NewAttachment.sizeBytes (att : NewAttachment) : Int := att.data.length

/-- The check of a file as it is given, before anything touches the database. -/
def decodeInput (filename : String) (contentType : Option String) (dataBase64 : String) :
    Except BusError NewAttachment :=
  let filename := trim filename
  if filename.isEmpty then .error (.invalid "attachment filename cannot be empty")
  else if filename.utf8ByteSize > 255 then .error (.invalid "attachment filename is limited to 255 characters")
  else
    match Base64.decode (trim dataBase64).toList with
    | none => .error (.invalid s!"attachment '{filename}': data_base64 is not valid base64")
    | some data =>
      if nonempty : data = [] then .error (.invalid s!"attachment '{filename}' is empty")
      else if fits : data.length > maxAttachmentBytes then
        let size := data.length
        .error (.invalid (s!"attachment '{filename}' is {size} bytes; the limit is {maxAttachmentBytes} " ++
          "(share a link or trim the file instead)"))
      else
        .ok { filename, data, nonempty, fits := Nat.le_of_not_gt fits
              contentType := ((contentType.map trim).filter fun c => !c.isEmpty).getD "application/octet-stream" }

/-- The row of an uploaded file. -/
def newAttachment (team : Uuid) (id : Int) (now : Time) (message : Option Int) (task : Option Uuid)
    (uploader : Uuid) (att : NewAttachment) : Attachment :=
  { id, teamId := team, messageId := message, taskId := task, uploaderAgentId := uploader
    filename := att.filename, contentType := att.contentType, sizeBytes := att.sizeBytes, data := att.data
    createdAt := now }

/-- `INSERT INTO attachments … RETURNING id` on behalf of a message or a task. -/
def insertAttachment (team : Uuid) (message : Option Int) (task : Option Uuid) (uploader : Uuid)
    (att : NewAttachment) : Sql Int := fun pg =>
  let id := pg.seqs.attachments + 1
  let a := newAttachment team id pg.now message task uploader att
  if pg.db.attachmentOk a then .ok (id, { pg.seqs with attachments := id }, [.insertAttachment a])
  else .error .db

def attachmentMeta (id : Int) (att : NewAttachment) : AttachmentMeta :=
  { id, filename := att.filename, contentType := att.contentType, sizeBytes := att.sizeBytes }

/-- The quota check and the row, on the connection of the caller. -/
def insertForMessage (conn : Conn) (team : Uuid) (message : Int) (uploader : Uuid) (att : NewAttachment) :
    Bus (AttachmentMeta × Conn) := do
  let conn ← checkAttachmentQuota conn team att.sizeBytes
  let (id, conn) ← conn.execute (.insertAttachment team) (some (team, .keyShare))
    (insertAttachment team (some message) none uploader att)
  return (attachmentMeta id att, conn)

def insertAllForMessage (conn : Conn) (team : Uuid) (message : Int) (uploader : Uuid) :
    List NewAttachment → Bus Conn
  | [] => return conn
  | att :: atts => do
    let (_, conn) ← insertForMessage conn team message uploader att
    insertAllForMessage conn team message uploader atts

/-- The transaction of `attach_to_task`: the quota check and the insert. -/
def attachToTaskBody (auth : AuthCtx) (task : Uuid) (att : NewAttachment) (tx : Conn) :
    Bus (AttachmentMeta × Conn) := do
  let tx ← checkAttachmentQuota tx auth.teamId att.sizeBytes
  let (id, tx) ← tx.execute (.insertAttachment auth.teamId) (some (auth.teamId, .keyShare))
    (insertAttachment auth.teamId none (some task) auth.agentId att)
  return (attachmentMeta id att, tx)

def attachToTask (auth : AuthCtx) (pid : Nat) (taskKey : String) (att : NewAttachment) :
    Bus AttachmentMeta := do
  let taskKey := trim taskKey
  let task ← select .tasks fun pg =>
    (pg.db.tasks.find? fun t => t.teamId == auth.teamId && t.key == taskKey).map (·.id)
  match task with
  | none => throw (.notFound s!"task '{taskKey}'")
  | some task =>
    let count ← select .attachments fun pg => (pg.db.attachments.filter (·.taskId == some task)).length
    if count ≥ maxAttachmentsPerTarget then
      throw (.invalid (s!"task '{taskKey}' already has {maxAttachmentsPerTarget} attachments; " ++
        "delete-and-recreate is not supported, start a new task or link externally"))
    transaction pid (attachToTaskBody auth task att)

/-- The connection of `attach_to_message` comes from `pool.acquire()`: it is in no transaction. -/
def attachToMessage (auth : AuthCtx) (pid : Nat) (message : Int) (att : NewAttachment) :
    Bus AttachmentMeta := do
  let sender ← select .messages fun pg =>
    (pg.db.messages.find? fun m => m.id == message && m.teamId == auth.teamId).map (·.senderAgentId)
  match sender with
  | none => throw (.notFound s!"message {message}")
  | some sender =>
    if sender != auth.agentId then
      throw (.invalid "you can only attach files to your own messages")
    let count ← select .attachments fun pg => (pg.db.attachments.filter (·.messageId == some message)).length
    if count ≥ maxAttachmentsPerTarget then
      throw (.invalid s!"message {message} already has {maxAttachmentsPerTarget} attachments")
    let (info, _) ← insertForMessage ⟨pid, none⟩ auth.teamId message auth.agentId att
    return info

/-- `attachments a JOIN agents u … LEFT JOIN messages m …`. -/
structure AttachmentRow where
  attachment : Attachment
  uploadedBy : String
  recipient : Option Uuid
  sender : Option Uuid

def Db.attachmentRow? (db : Db) (team : Uuid) (id : Int) : Option AttachmentRow := do
  let a ← db.attachments.find? fun a => a.id == id && a.teamId == team
  let uploadedBy ← db.agentName a.uploaderAgentId
  let m := a.messageId.bind fun m => db.messages.find? (·.id == m)
  return { attachment := a, uploadedBy, recipient := m.bind (·.recipientAgentId), sender := m.map (·.senderAgentId) }

/-- The content; the files of a direct message are only for its two parties. -/
def getAttachment (auth : AuthCtx) (id : Int) : Bus AttachmentContent := do
  let row ← select .attachments fun pg => pg.db.attachmentRow? auth.teamId id
  match row with
  | none => throw (.notFound s!"attachment {id}")
  | some r =>
    if r.recipient.any fun recipient => recipient != auth.agentId && r.sender != some auth.agentId then
      throw (.notFound s!"attachment {id}")
    let a := r.attachment
    return { id, filename := a.filename, contentType := a.contentType, sizeBytes := a.sizeBytes
             uploadedBy := r.uploadedBy, createdAt := ts a.createdAt, data := a.data }

end CrewSync
