import CrewSync.Calls
import CrewSync.Lib.Fields

/-! The tools by their names, each with the arguments that it takes (`src/tools/`): an object is read field by field, and
    then the tool makes its checks. -/

namespace CrewSync.Tools
open Fields

def defaultLimit : Int64 := 50
def defaultScope : String := "all"

/-- A number of the store. -/
def number (n : Option Int64) : Option Int := n.map Int64.toInt

/-- `Option<serde_json::Value>`, as the text that the store keeps. -/
def anyValue (args : Object) (name : String) : Option Json :=
  match get args name with
  | none | some .null => none
  | some v => some (String.ofList v.text)

/-- What a call hears from the hub while it runs. -/
structure Heard where
  received : List Received
  grace : List BusEvent

/-- The arguments may not be those of the tool; the tool may refuse them. -/
abbrev Handler := Object → Except Problem (Except BusError Call)

/-- A tool without arguments. -/
def plain (c : Call) : Handler := fun _ => .ok (.ok c)

def teamDigest : Handler := fun args => do
  let hours ← optional args "hours"
  let allChannels ← withDefault args "all_channels" false
  return .ok (.teamDigest (number hours) allChannels)

/-! ### Messages -/

def createChannel : Handler := fun args => do
  let name ← required args "name"
  let topic ← optional args "topic"
  return .ok (.createChannel name topic)

structure AttachmentInput where
  filename : String
  contentType : Option String
  dataBase64 : String

instance : Serde AttachmentInput where
  ser a := .obj [("filename", ser a.filename), ("content_type", opt a.contentType), ("data_base64", ser a.dataBase64)]
  de
    | .obj o => Except.toOption do
      let filename ← required o "filename"
      let contentType ← optional o "content_type"
      let dataBase64 ← required o "data_base64"
      return { filename, contentType, dataBase64 }
    | _ => none
  de_ser a := by
    obtain ⟨filename, contentType, dataBase64⟩ := a
    cases contentType <;> rfl

def postMessage : Handler := fun args => do
  let channel ← optional args "channel"
  let announce ← withDefault args "announce" false
  let «to» ← optional args "to"
  let body ← required args "body"
  let replyTo ← optional args "reply_to"
  let raw : Option (List AttachmentInput) ← optional args "attachments"
  let raw := raw.getD []
  return do
    if raw.length > 8 then throw (.invalid "a message carries at most 8 attachments")
    let attachments ← raw.mapM fun a => decodeInput a.filename a.contentType a.dataBase64
    return .postMessage
      { channel, «to», announce, body, replyTo := number replyTo, metadata := anyValue args "metadata", attachments }

def readMessages : Handler := fun args => do
  let scope ← withDefault args "scope" defaultScope
  let onlyNew ← withDefault args "only_new" true
  let limit ← withDefault args "limit" defaultLimit
  let allSessions ← withDefault args "all_sessions" false
  return .ok (.readMessages { scope, onlyNew, limit := limit.toInt, allSessions })

def searchMessages : Handler := fun args => do
  let query ← required args "query"
  let limit ← withDefault args "limit" defaultLimit
  return .ok (.searchMessages query limit.toInt)

def askAgent (heard : Heard) : Handler := fun args => do
  let «to» ← required args "to"
  let question ← optional args "question"
  let timeoutSeconds ← optional args "timeout_seconds"
  let resumeMessageId ← optional args "resume_message_id"
  return .ok (.askAgent
    { «to», question, timeoutSeconds := number timeoutSeconds, resumeMessageId := number resumeMessageId } heard.received)

def waitForUpdates (heard : Heard) : Handler := fun args => do
  let timeoutSeconds ← optional args "timeout_seconds"
  let kinds ← optional args "kinds"
  let allChannels ← withDefault args "all_channels" false
  return .ok (.waitForUpdates { timeoutSeconds := number timeoutSeconds, kinds, allChannels } heard.received heard.grace)

/-! ### Files -/

def attachFile : Handler := fun args => do
  let task ← optional args "task"
  let messageId ← optional args "message_id"
  let filename ← required args "filename"
  let contentType ← optional args "content_type"
  let dataBase64 ← required args "data_base64"
  return do
    let att ← decodeInput filename contentType dataBase64
    match task, number messageId with
    | some task, none => return .attachToTask task att
    | none, some messageId => return .attachToMessage messageId att
    | _, _ => throw (.invalid "set either `task` (a task key) or `message_id`, not both")

def getAttachment : Handler := fun args => do
  let id : Int64 ← required args "id"
  return .ok (.getAttachment id.toInt)

/-! ### Tasks -/

/-- A tool that takes a key and the seconds of a lease. -/
def keyAndLease (c : String → Option Int → Call) : Handler := fun args => do
  let key ← required args "key"
  let leaseSeconds ← optional args "lease_seconds"
  return .ok (c key (number leaseSeconds))

/-- A tool that takes a key alone. -/
def keyOnly (c : String → Call) : Handler := fun args => do
  let key ← required args "key"
  return .ok (c key)

def createTask : Handler := fun args => do
  let key ← required args "key"
  let title ← required args "title"
  let description ← optional args "description"
  let dependsOn ← withDefault args "depends_on" []
  return .ok (.createTask { key, title, description, metadata := anyValue args "metadata", dependsOn })

def listTasks : Handler := fun args => do
  let status ← optional args "status"
  let mineOnly ← withDefault args "mine_only" false
  let limit ← withDefault args "limit" defaultLimit
  return .ok (.listTasks status mineOnly limit.toInt)

def getTask : Handler := keyOnly .getTask

def claimTask : Handler := keyAndLease .claimTask

def claimNextTask : Handler := fun args => do
  let leaseSeconds ← optional args "lease_seconds"
  return .ok (.claimNextTask (number leaseSeconds))

def renewTaskLease : Handler := keyAndLease .renewTaskLease

def releaseTask : Handler := keyOnly .releaseTask

def completeTask : Handler := fun args => do
  let key ← required args "key"
  let result ← optional args "result"
  return .ok (.completeTask key result)

/-! ### Presence -/

def heartbeat : Handler := fun args => do
  let status ← optional args "status"
  let repo ← optional args "repo"
  let branch ← optional args "branch"
  let activity ← optional args "activity"
  let ttlSeconds ← optional args "ttl_seconds"
  return .ok (.heartbeat { status, repo, branch, activity, ttlSeconds := number ttlSeconds })

def listAgents : Handler := fun args => do
  let onlineOnly ← withDefault args "online_only" false
  return .ok (.listAgents onlineOnly)

/-! ### Notes -/

def setNote : Handler := fun args => do
  let scope ← optional args "scope"
  let key ← required args "key"
  let value ← required args "value"
  let tags ← optional args "tags"
  return .ok (.setNote { scope, key, value, tags })

/-- A tool that takes the name of a note. -/
def noteName (c : Option String → String → Call) : Handler := fun args => do
  let scope ← optional args "scope"
  let key ← required args "key"
  return .ok (c scope key)

def getNote : Handler := noteName .getNote

def listNotes : Handler := fun args => do
  let scope ← optional args "scope"
  let tag ← optional args "tag"
  let limit ← withDefault args "limit" defaultLimit
  return .ok (.listNotes scope tag limit.toInt)

def searchNotes : Handler := fun args => do
  let query ← required args "query"
  let scope ← optional args "scope"
  let limit ← withDefault args "limit" defaultLimit
  return .ok (.searchNotes query scope limit.toInt)

def deleteNote : Handler := noteName .deleteNote

/-! ### Locks -/

def acquireLock : Handler := fun args => do
  let name ← required args "name"
  let ttlSeconds ← optional args "ttl_seconds"
  let purpose ← optional args "purpose"
  return .ok (.acquireLock name (number ttlSeconds) purpose)

def releaseLock : Handler := fun args => do
  let name ← required args "name"
  return .ok (.releaseLock name)

/-! ### The router -/

def toolRouter (heard : Heard) : List (String × Handler) :=
  [("whoami", plain .whoami), ("team_digest", teamDigest),
    ("list_channels", plain .listChannels), ("create_channel", createChannel), ("post_message", postMessage),
    ("read_messages", readMessages), ("ask_agent", askAgent heard), ("search_messages", searchMessages),
    ("create_task", createTask), ("list_tasks", listTasks), ("get_task", getTask), ("claim_task", claimTask),
    ("claim_next_task", claimNextTask), ("renew_task_lease", renewTaskLease), ("release_task", releaseTask),
    ("complete_task", completeTask), ("heartbeat", heartbeat), ("list_agents", listAgents), ("set_note", setNote),
    ("get_note", getNote), ("list_notes", listNotes), ("search_notes", searchNotes), ("delete_note", deleteNote),
    ("acquire_lock", acquireLock), ("release_lock", releaseLock), ("list_locks", plain .listLocks),
    ("wait_for_updates", waitForUpdates heard), ("attach_file", attachFile), ("get_attachment", getAttachment)]

/-- Why a tool call never reaches the store. -/
inductive Refusal where
  | unknownTool (name : String)
  | badArguments (p : Problem)
  | refused (e : BusError)

/-- What a request asks the store for. -/
def dispatch (heard : Heard) (tool : String) (args : Object) : Except Refusal Call :=
  match (toolRouter heard).lookup tool with
  | none => .error (.unknownTool tool)
  | some handler =>
    match handler args with
    | .error p => .error (.badArguments p)
    | .ok checked => checked.mapError .refused

end CrewSync.Tools
