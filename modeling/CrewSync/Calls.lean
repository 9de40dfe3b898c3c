import CrewSync.Admin
import CrewSync.Dashboard
import CrewSync.Lib.Runs
import CrewSync.Store.Notes
import CrewSync.Tools.Events
import CrewSync.Tools.Messaging
import CrewSync.Webhooks

/-! The whole server: the tools an authenticated agent may call, the operator's commands, the webhook
    dispatcher and the clock. Every event is atomic here; `CrewSync/Concurrent.lean` takes the calls apart. -/

namespace CrewSync

/-! ### Tools -/

/-- A tool call with its arguments. -/
inductive Call where
  | whoami
  | teamDigest (hours : Option Int) (allChannels : Bool)
  | heartbeat (input : HeartbeatInput)
  | listAgents (onlineOnly : Bool)
  | listChannels
  | createChannel (name : String) (topic : Option String)
  | postMessage (input : PostInput)
  | readMessages (input : ReadInput)
  | searchMessages (query : String) (limit : Int)
  | askAgent (input : AskInput) (received : List Received)
  | waitForUpdates (input : WaitInput) (received : List Received) (grace : List BusEvent)
  | attachToTask (key : String) (att : NewAttachment)
  | attachToMessage (id : Int) (att : NewAttachment)
  | getAttachment (id : Int)
  | createTask (input : CreateInput)
  | listTasks (status : Option String) (mineOnly : Bool) (limit : Int)
  | getTask (key : String)
  | claimTask (key : String) (leaseSeconds : Option Int)
  | claimNextTask (leaseSeconds : Option Int)
  | renewTaskLease (key : String) (leaseSeconds : Option Int)
  | releaseTask (key : String)
  | completeTask (key : String) (result : Option String)
  | setNote (input : SetInput)
  | getNote (scope : Option String) (key : String)
  | listNotes (scope tag : Option String) (limit : Int)
  | searchNotes (query : String) (scope : Option String) (limit : Int)
  | deleteNote (scope : Option String) (key : String)
  | acquireLock (name : String) (ttlSeconds : Option Int) (purpose : Option String)
  | releaseLock (name : String)
  | listLocks

/-- The answer of a tool. -/
inductive Reply where
  | whoami (r : WhoAmI)
  | digest (r : DigestResult)
  | agent (r : AgentInfo)
  | agents (r : AgentList)
  | channel (r : ChannelInfo)
  | channels (r : List ChannelInfo)
  | posted (r : PostMessageResult)
  | messages (r : MessageList)
  | asked (r : AskResult)
  | waited (r : WaitResult)
  | attached (r : AttachmentMeta)
  | attachment (r : AttachmentContent)
  | task (r : TaskInfo)
  | tasks (r : TaskList)
  | taskDetail (r : TaskDetail)
  | claim (r : ClaimResult)
  | note (r : NoteInfo)
  | noteRef (r : NoteRef)
  | notes (r : List NoteInfo)
  | ack (r : Ack)
  | lock (r : LockResult)
  | locks (r : List LockInfo)
  deriving DecidableEq

/-- The hours of a digest when the caller names none. -/
def defaultDigestHours : Int := 24

namespace Call

/-- The tables that a call may write. -/
def writes : Call → List Table
  | .whoami | .teamDigest .. | .listAgents _ | .listChannels | .searchMessages .. | .waitForUpdates ..
  | .getAttachment _ | .listTasks .. | .getTask _ | .getNote .. | .listNotes .. | .searchNotes .. | .listLocks => []
  | .heartbeat _ => [.agentPresence]
  | .createChannel .. => [.channels]
  | .postMessage _ | .askAgent .. => [.messages, .attachments, .webhookDeliveries]
  | .readMessages _ => [.readCursors]
  | .attachToTask .. | .attachToMessage .. => [.attachments]
  | .createTask _ => [.tasks, .taskDeps, .taskEvents, .webhookDeliveries]
  | .claimTask .. | .claimNextTask _ | .renewTaskLease .. | .releaseTask _ | .completeTask .. =>
    [.tasks, .taskEvents, .webhookDeliveries]
  | .setNote _ => [.notes, .noteRevisions, .webhookDeliveries]
  | .deleteNote .. => [.notes, .noteRevisions]
  | .acquireLock .. | .releaseLock _ => [.locks, .webhookDeliveries]

variable [Platform]

/-- The program of a call; `pid` is the connection that its transaction runs on. -/
def run (auth : AuthCtx) (pid : Nat) : Call → Bus Reply
  | .whoami => .whoami <$> CrewSync.whoami auth
  | .teamDigest hours allChannels => .digest <$> CrewSync.teamDigest auth (hours.getD defaultDigestHours) allChannels
  | .heartbeat input => .agent <$> CrewSync.heartbeat auth input
  | .listAgents onlineOnly => .agents <$> CrewSync.listAgents auth onlineOnly
  | .listChannels => .channels <$> CrewSync.listChannels auth
  | .createChannel name topic => .channel <$> CrewSync.createChannel auth name topic
  | .postMessage input => .posted <$> CrewSync.postMessage auth pid input
  | .readMessages input => .messages <$> CrewSync.readMessages auth input
  | .searchMessages query limit => .messages <$> CrewSync.searchMessages auth query limit
  | .askAgent input received => .asked <$> CrewSync.askAgent auth pid input received
  | .waitForUpdates input received grace => .waited <$> CrewSync.waitForUpdates auth input received grace
  | .attachToTask key att => .attached <$> CrewSync.attachToTask auth pid key att
  | .attachToMessage id att => .attached <$> CrewSync.attachToMessage auth pid id att
  | .getAttachment id => .attachment <$> CrewSync.getAttachment auth id
  | .createTask input => .task <$> CrewSync.createTask auth input
  | .listTasks status mineOnly limit => .tasks <$> CrewSync.listTasks auth status mineOnly limit
  | .getTask key => .taskDetail <$> CrewSync.getTask auth key
  | .claimTask key lease => .claim <$> CrewSync.claimTask auth key lease
  | .claimNextTask lease => .claim <$> CrewSync.claimNextTask auth lease
  | .renewTaskLease key lease => .task <$> CrewSync.renewLease auth key lease
  | .releaseTask key => .task <$> CrewSync.releaseTask auth key
  | .completeTask key result => .task <$> CrewSync.completeTask auth key result
  | .setNote input => .note <$> CrewSync.setNote auth input
  | .getNote scope key => .noteRef <$> CrewSync.getNote auth scope key
  | .listNotes scope tag limit => .notes <$> CrewSync.listNotes auth scope tag limit
  | .searchNotes query scope limit => .notes <$> CrewSync.searchNotes auth query scope limit
  | .deleteNote scope key => .ack <$> CrewSync.deleteNote auth scope key
  | .acquireLock name ttl purpose => .lock <$> CrewSync.acquireLock auth name ttl purpose
  | .releaseLock name => .ack <$> CrewSync.releaseLock auth name
  | .listLocks => .locks <$> CrewSync.listLocks auth

end Call

/-- The identity that the bearer token gives is that of an enabled agent and of its team. -/
def AuthCtx.authentic (auth : AuthCtx) (db : Db) : Bool :=
  (db.agents.any fun a => a.id == auth.agentId && a.teamId == auth.teamId && a.name == auth.agentName &&
    a.disabledAt.isNone) &&
    db.teams.any fun t => t.id == auth.teamId && t.slug == auth.teamSlug

/-! ### Commands -/

/-- An operator's command. -/
inductive Command where
  | teamCreate (slug : String) (name : Option String)
  | teamQuota (team : String) (bytes : Option Int)
  | teamPrune (team : String) (days : Int) (apply : Bool)
  | agentAdd (team name : String) (displayName : Option String)
  | agentDisable (team name : String)
  | webhookAdd (team url kind events : String) (channel : Option String)
  | webhookRemove (id : Uuid)

/-- The program of a command. What it prints is left out. -/
def Command.run [Platform] (pid : Nat) : Command → Bus Unit
  | .teamCreate slug name => Admin.teamCreate slug name
  | .teamQuota team bytes => Admin.teamQuota team bytes
  | .teamPrune team days apply => (fun _ => ()) <$> Admin.teamPrune pid team days apply
  | .agentAdd team name displayName => Admin.agentAdd team name displayName
  | .agentDisable team name => Admin.agentDisable team name
  | .webhookAdd team url kind events channel => Admin.webhookAdd team url kind events channel
  | .webhookRemove id => Admin.webhookRemove id

/-! ### The server -/

inductive Event where
  | call (auth : AuthCtx) (pid : Nat) (c : Call)
  | command (pid : Nat) (c : Command)
  /-- A statement of the dispatcher. -/
  | claim (locked : List Int)
  | record (d : Webhooks.Claimed) (r : Webhooks.Response)
  | prune
  | tick (d : Nat)

/-- Who makes the event. -/
def Event.who : Event → Option Identity
  | .call auth _ _ => some auth.identity
  | _ => none

namespace Pg
variable [Platform]

/-- An authenticated call, whole: the answer and the server after it. -/
def call (pg : Pg) (auth : AuthCtx) (pid : Nat) (c : Call) : Except BusError Reply × Pg :=
  if auth.authentic pg.db then (c.run auth pid).exec pg
  else (.error (.unauthenticated "invalid bearer token"), pg)

/-- The server after an event. -/
def next (pg : Pg) : Event → Pg
  | .call auth pid c => (pg.call auth pid c).2
  | .command pid c => ((c.run pid).exec pg).2
  | .claim locked => (Webhooks.claim locked).effect pg
  | .record d r => (Webhooks.record d r).effect pg
  | .prune => Webhooks.prune.effect pg
  | .tick d => { pg with now := pg.now + d }

/-- The server after the events, the first one first. -/
def after (pg : Pg) (es : List Event) : Pg := Runs.after next pg es

/-- The states that some run from the migrated, empty database leads to. -/
inductive Reachable : Pg → Prop
  | init (now : Time) : Reachable (Pg.init now)
  | next {pg : Pg} (h : Reachable pg) (e : Event) : Reachable (pg.next e)

end Pg

/-! ### A crew of two -/

namespace Sample

def ann : AuthCtx := { agentId := 1, agentName := "ann", teamId := 0, teamSlug := "core", session := "" }

def bob : AuthCtx := { agentId := 2, agentName := "bob", teamId := 0, teamSlug := "core", session := "api" }

/-- How the operator sets up the team `core` of ann and bob. -/
def crew : List Event :=
  [.command 0 (.teamCreate "core" none), .command 0 (.agentAdd "core" "ann" none),
   .command 0 (.agentAdd "core" "bob" none)]

end Sample

end CrewSync
