import CrewSync.Client
import CrewSync.Tools.Router

/-! The commands of the command line client, and the tool calls that they become (`src/client/mod.rs`,
    `src/client/mapping.rs`). A number is an `i64`; `client call`, which sends what the user typed, is left out. -/

namespace CrewSync.Client
open Fields

inductive LockCmd where
  | acquire (name : String) (ttlSeconds : Option Int64) (purpose : Option String)
  | release (name : String)
  | list

inductive TaskCmd where
  | create (key title : String) (description : Option String) (dependsOn : List String)
  | show (key : String)
  | claim (key : String) (leaseSeconds : Option Int64)
  | next (leaseSeconds : Option Int64)
  | renew (key : String) (leaseSeconds : Option Int64)
  | release (key : String)
  | done (key : String) (result : Option String)

inductive NoteCmd where
  | get (key : String) (scope : Option String)
  | set (key value : String) (scope : Option String) (tags : List String)
  | rm (key : String) (scope : Option String)
  | search (query : String) (scope : Option String)

inductive ClientCmd where
  | whoami
  | tools
  | send (channel «to» : Option String) (body : String) (announce : Bool) (replyTo : Option Int64) (file : List String)
  | attach (task file : String) (contentType : Option String)
  | download (id : Int64) (out : Option String)
  | ask («to» : String) (question : Option String) (timeoutSeconds resumeId : Option Int64)
  | read (scope : String) (history : Bool) (limit : Int64) (allSessions : Bool)
  | search (query : String) (limit : Int64)
  | channels
  | channelCreate (name : String) (topic : Option String)
  | agents (online : Bool)
  | beat (status repo branch activity : Option String) (ttlSeconds : Option Int64)
  | tasks (status : Option String) (mine : Bool)
  | task (cmd : TaskCmd)
  | notes (scope tag : Option String)
  | note (cmd : NoteCmd)
  | wait (timeoutSeconds : Option Int64) (kinds : List String) (allChannels : Bool)
  | lock (cmd : LockCmd)
  | digest (hours : Int64) (allChannels : Bool)

/-! ### Files -/

/-- The files that the client can read, by their paths. -/
abbrev Disk := String → Option (List UInt8)

/-- `Path::extension`: what follows the last dot of the name, unless the name only starts with it. -/
def extension (path : String) : Option String := do
  let name ← fileName path
  let parts := name.toList.splitOn '.'
  if parts.length < 2 ∨ parts = ["", ""].map String.toList ∨ parts.dropLast = [[]] then none
  else (parts.getLast?).map String.ofList

def guessContentType (path : String) : String :=
  let ext := (extension path).getD ""
  if ["txt", "md", "log", "diff", "patch", "rs", "toml", "yml", "yaml", "sh"].contains ext then "text/plain"
  else if ext == "json" then "application/json"
  else "application/octet-stream"

def attachmentJson (disk : Disk) (path : String) (contentType : Option String) : Except String Object :=
  match disk path with
  | none => .error s!"cannot read {path}"
  | some data => .ok
    [("filename", ser (uploadName path)), ("content_type", ser (contentType.getD (guessContentType path))),
      ("data_base64", ser (String.ofList (Base64.encode data)))]

/-! ### The mapping -/

/-- A list that is sent only if it is not empty. -/
def unlessEmpty {α : Type} [Serde α] (as : List α) : Value := if as.isEmpty then .null else ser as

def lockCall : LockCmd → String × Object
  | .acquire name ttlSeconds purpose =>
    ("acquire_lock", [("name", ser name), ("ttl_seconds", opt ttlSeconds), ("purpose", opt purpose)])
  | .release name => ("release_lock", [("name", ser name)])
  | .list => ("list_locks", [])

def taskCall : TaskCmd → String × Object
  | .create key title description dependsOn =>
    ("create_task", [("key", ser key), ("title", ser title), ("description", opt description),
      ("depends_on", unlessEmpty dependsOn)])
  | .show key => ("get_task", [("key", ser key)])
  | .claim key leaseSeconds => ("claim_task", [("key", ser key), ("lease_seconds", opt leaseSeconds)])
  | .next leaseSeconds => ("claim_next_task", [("lease_seconds", opt leaseSeconds)])
  | .renew key leaseSeconds => ("renew_task_lease", [("key", ser key), ("lease_seconds", opt leaseSeconds)])
  | .release key => ("release_task", [("key", ser key)])
  | .done key result => ("complete_task", [("key", ser key), ("result", opt result)])

def noteCall : NoteCmd → String × Object
  | .get key scope => ("get_note", [("key", ser key), ("scope", opt scope)])
  | .set key value scope tags =>
    ("set_note", [("key", ser key), ("value", ser value), ("scope", opt scope), ("tags", unlessEmpty tags)])
  | .rm key scope => ("delete_note", [("key", ser key), ("scope", opt scope)])
  | .search query scope => ("search_notes", [("query", ser query), ("scope", opt scope)])

/-- The tool and its arguments, before the unset flags are left out; `tools` is no tool call. -/
def args (disk : Disk) : ClientCmd → Except String (Option (String × Object))
  | .whoami => .ok (some ("whoami", []))
  | .tools => .ok none
  | .send channel «to» body announce replyTo file => do
    let attachments ← file.mapM fun path => attachmentJson disk path none
    return some ("post_message", [("channel", opt channel), ("to", opt «to»), ("body", ser body),
      ("announce", ser announce), ("reply_to", opt replyTo),
      ("attachments", if attachments.isEmpty then .null else .arr (attachments.map .obj))])
  | .attach task file contentType => do
    let att ← attachmentJson disk file contentType
    return some ("attach_file", att ++ [("task", ser task)])
  | .download id _ => .ok (some ("get_attachment", [("id", ser id)]))
  | .ask «to» question timeoutSeconds resumeId => .ok (some
    ("ask_agent", [("to", ser «to»), ("question", opt question), ("timeout_seconds", opt timeoutSeconds),
      ("resume_message_id", opt resumeId)]))
  | .read scope history limit allSessions => .ok (some
    ("read_messages", [("scope", ser scope), ("only_new", ser !history), ("limit", ser limit),
      ("all_sessions", ser allSessions)]))
  | .search query limit => .ok (some ("search_messages", [("query", ser query), ("limit", ser limit)]))
  | .channels => .ok (some ("list_channels", []))
  | .channelCreate name topic => .ok (some ("create_channel", [("name", ser name), ("topic", opt topic)]))
  | .agents online => .ok (some ("list_agents", [("online_only", ser online)]))
  | .beat status repo branch activity ttlSeconds => .ok (some
    ("heartbeat", [("status", opt status), ("repo", opt repo), ("branch", opt branch), ("activity", opt activity),
      ("ttl_seconds", opt ttlSeconds)]))
  | .tasks status mine => .ok (some ("list_tasks", [("status", opt status), ("mine_only", ser mine)]))
  | .wait timeoutSeconds kinds allChannels => .ok (some
    ("wait_for_updates", [("timeout_seconds", opt timeoutSeconds), ("kinds", unlessEmpty kinds),
      ("all_channels", ser allChannels)]))
  | .digest hours allChannels => .ok (some ("team_digest", [("hours", ser hours), ("all_channels", ser allChannels)]))
  | .lock cmd => .ok (some (lockCall cmd))
  | .task cmd => .ok (some (taskCall cmd))
  | .notes scope tag => .ok (some ("list_notes", [("scope", opt scope), ("tag", opt tag)]))
  | .note cmd => .ok (some (noteCall cmd))

def toCall (disk : Disk) (cmd : ClientCmd) : Except String (Option (String × Object)) :=
  (args disk cmd).map (Option.map fun (tool, o) => (tool, compactFields o))

/-! ### The server's side -/

inductive Failure where
  /-- The client gave up. -/
  | client (text : String)
  | server (r : Tools.Refusal)

/-- What the server is asked for when the command is entered; `tools` asks the store for nothing. -/
def requested (disk : Disk) (heard : Tools.Heard) (cmd : ClientCmd) : Except Failure (Option Call) :=
  match toCall disk cmd with
  | .error text => .error (.client text)
  | .ok none => .ok none
  | .ok (some (tool, o)) => ((Tools.dispatch heard tool o).map some).mapError .server

end CrewSync.Client
