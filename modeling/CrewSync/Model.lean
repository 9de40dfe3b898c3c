import CrewSync.Schema

/-! What the tools answer (`src/model.rs`) and who asks (`AuthCtx` of `src/auth.rs`). -/

namespace CrewSync

/-- The caller: the agent and its team come from the bearer token, the session from a header. -/
structure AuthCtx where
  agentId : Uuid
  agentName : String
  teamId : Uuid
  teamSlug : String
  session : String
  deriving DecidableEq

/-- An agent under one of its sessions; no session is `""`. -/
abbrev Identity := Option Uuid × String

def AuthCtx.identity (auth : AuthCtx) : Identity := (some auth.agentId, auth.session)

/-- The caller's session as the API reports it: none for the shared session. -/
def sessionLabel (auth : AuthCtx) : Option String :=
  if auth.session.isEmpty then none else some auth.session

/-- `s.filter(|s| !s.is_empty())`. -/
def nonEmpty (s : Option String) : Option String := s.filter fun s => !s.isEmpty

/-- `MAX_LIMIT` of the messages, tasks and notes stores. -/
def maxLimit : Int := 200

/-- `ts`: an instant as an RFC 3339 text of its second. -/
abbrev Timestamp := Int

def ts (t : Time) : Timestamp := t / 1000000

structure WhoAmI where
  agent : String
  agentId : Uuid
  team : String
  teamId : Uuid
  session : Option String
  defaultChannel : Option String
  unreadDirectMessages : Int
  openClaimedTasks : Int
  deriving DecidableEq

structure AgentSession where
  session : Option String
  status : String
  repo : Option String
  branch : Option String
  activity : Option String
  lastSeen : Option Timestamp
  online : Bool
  deriving DecidableEq

structure AgentInfo where
  name : String
  displayName : Option String
  session : Option String
  status : String
  repo : Option String
  branch : Option String
  activity : Option String
  lastSeen : Option Timestamp
  online : Bool
  sessions : List AgentSession
  deriving DecidableEq

structure AgentList where
  agents : List AgentInfo
  onlineCount : Nat
  deriving DecidableEq

structure ChannelInfo where
  name : String
  topic : Option String
  messageCount : Int
  createdAt : Timestamp
  deriving DecidableEq

structure AttachmentMeta where
  id : Int
  filename : String
  contentType : String
  sizeBytes : Int
  deriving DecidableEq

structure AttachmentContent where
  id : Int
  filename : String
  contentType : String
  sizeBytes : Int
  uploadedBy : String
  createdAt : Timestamp
  /-- The decoded bytes of `data_base64`. -/
  data : List UInt8
  deriving DecidableEq

structure MessageInfo where
  id : Int
  sender : String
  senderSession : Option String
  announce : Bool
  channel : Option String
  recipient : Option String
  recipientSession : Option String
  body : String
  replyTo : Option Int
  metadata : Json
  attachments : List AttachmentMeta
  createdAt : Timestamp
  deriving DecidableEq

structure PostMessageResult where
  message : MessageInfo
  deliveredTo : List String
  deriving DecidableEq

structure MessageList where
  messages : List MessageInfo
  scope : String
  cursor : Int
  truncated : Bool
  deriving DecidableEq

structure WaitEvent where
  kind : String
  summary : String
  deriving DecidableEq

structure WaitResult where
  woke : Bool
  timedOut : Bool
  events : List WaitEvent
  unreadDirectMessages : Int
  suggestion : String
  deriving DecidableEq

structure AskResult where
  answered : Bool
  «to» : String
  questionMessageId : Int
  answer : Option MessageInfo
  suggestion : String
  deriving DecidableEq

structure TaskInfo where
  key : String
  title : String
  description : Option String
  status : TaskStatus
  dependsOn : List String
  blocked : Bool
  claimedBy : Option String
  claimedSession : Option String
  claimedAt : Option Timestamp
  leaseExpiresAt : Option Timestamp
  leaseSecondsRemaining : Option Int
  leaseExpired : Bool
  result : Option String
  metadata : Json
  attachments : List AttachmentMeta
  createdBy : Option String
  createdAt : Timestamp
  updatedAt : Timestamp
  deriving DecidableEq

structure TaskList where
  tasks : List TaskInfo
  «open» : Nat
  claimed : Nat
  deriving DecidableEq

structure ClaimResult where
  claimed : Bool
  task : Option TaskInfo
  reason : Option String
  deriving DecidableEq

structure TaskEventInfo where
  event : String
  agent : Option String
  detail : Option String
  createdAt : Timestamp
  deriving DecidableEq

structure TaskDetail where
  task : TaskInfo
  history : List TaskEventInfo
  deriving DecidableEq

structure NoteInfo where
  scope : String
  key : String
  value : String
  tags : List String
  updatedBy : Option String
  updatedAt : Timestamp
  deriving DecidableEq

structure NoteRef where
  scope : String
  key : String
  found : Bool
  note : Option NoteInfo
  deriving DecidableEq

structure Ack where
  ok : Bool
  detail : String
  deriving DecidableEq

structure LockInfo where
  name : String
  holder : String
  holderSession : Option String
  purpose : Option String
  acquiredAt : Timestamp
  expiresAt : Timestamp
  deriving DecidableEq

structure LockResult where
  acquired : Bool
  lock : Option LockInfo
  reason : Option String
  deriving DecidableEq

structure DigestMessage where
  sender : String
  body : String
  «at» : Timestamp
  deriving DecidableEq

structure DigestChannel where
  name : String
  messageCount : Nat
  lastMessages : List DigestMessage
  deriving DecidableEq

structure DigestTask where
  key : String
  title : String
  status : TaskStatus
  claimedBy : Option String
  result : Option String
  updatedAt : Timestamp
  deriving DecidableEq

structure DigestNote where
  scope : String
  key : String
  updatedBy : Option String
  updatedAt : Timestamp
  deriving DecidableEq

structure DigestAgent where
  name : String
  activity : Option String
  lastSeen : Option Timestamp
  online : Bool
  deriving DecidableEq

structure DigestResult where
  hours : Int
  channels : List DigestChannel
  tasksMoved : List DigestTask
  openTasks : Nat
  claimedTasks : Nat
  notesUpdated : List DigestNote
  agentsSeen : List DigestAgent
  activeLocks : List LockInfo
  deriving DecidableEq

/-- `PruneReport` of `src/store/quota.rs`. -/
structure PruneReport where
  messages : Nat
  noteRevisions : Nat
  taskEvents : Nat
  attachmentsFreedBytes : Int
  dryRun : Bool
  deriving DecidableEq

namespace Db

/-- `LEFT JOIN agents a ON a.id = …`, and its name. -/
def agentName (db : Db) (agent : Uuid) : Option String := (db.agents.find? (·.id == agent)).map (·.name)

def channelName (db : Db) (channel : Uuid) : Option String :=
  (db.channels.find? (·.id == channel)).map (·.name)

end Db

/-- `json_agg(json_build_object('id', …) ORDER BY a.id)` over the rows of `attachments`. -/
def attachmentMetas (rows : List Attachment) : List AttachmentMeta :=
  (Rows.orderBy (fun a b => a.id ≤ b.id) rows).map fun a =>
    { id := a.id, filename := a.filename, contentType := a.contentType, sizeBytes := a.sizeBytes }

end CrewSync
