import CrewSync.Store.Attachments

/-! Channels, messages and read positions (`src/store/messaging.rs`, and the lookups by name of
    `src/store/mod.rs`). -/

namespace CrewSync
variable [Platform]
open Platform

def maxBodyBytes : Nat := 1024 * 1024
def maxTopicBytes : Nat := 256

namespace Db

/-- `WHERE team_id = $1 AND name = $2` on `agents`. -/
def findAgent (db : Db) (team : Uuid) (name : String) : Option Agent :=
  db.agents.find? fun a => a.teamId == team && a.name == name

/-- `WHERE team_id = $1 AND name = $2` on `channels`. -/
def findChannel (db : Db) (team : Uuid) (name : String) : Option Channel :=
  db.channels.find? fun c => c.teamId == team && c.name == name

/-- `MESSAGE_SELECT` and `From<MessageRow> for MessageInfo`; the sender is an inner join. -/
def messageInfo? (db : Db) (m : Message) : Option MessageInfo :=
  (db.agentName m.senderAgentId).map fun sender =>
    { id := m.id, sender, senderSession := nonEmpty m.senderSession, announce := m.announce
      channel := m.channelId.bind db.channelName
      recipient := m.recipientAgentId.bind db.agentName
      recipientSession := nonEmpty m.recipientSession
      body := m.body, replyTo := m.replyTo, metadata := m.metadata
      attachments := attachmentMetas (db.attachments.filter (·.messageId == some m.id))
      createdAt := ts m.createdAt }

/-- `MESSAGE_SELECT WHERE p ORDER BY m.id DESC LIMIT limit`. -/
def newest (db : Db) (p : Message → Bool) (limit : Int) : List MessageInfo :=
  ((Rows.orderBy (fun a b => b.id ≤ a.id) (db.messages.filter p)).filterMap db.messageInfo?).take limit.toNat

/-- `SELECT name FROM agents WHERE team_id = $1 AND disabled_at IS NULL ORDER BY name`. -/
def rosterNames (db : Db) (team : Uuid) : List String :=
  Rows.orderBy (· ≤ ·) ((db.agents.filter fun a => a.teamId == team && a.disabledAt.isNone).map (·.name))

/-- The stored read position; none is 0. -/
def lastRead (db : Db) (agent : Uuid) (scope : String) : Int :=
  ((db.cursors.find? fun c => c.agentId == agent && c.scope == scope).map (·.lastMessageId)).getD 0

end Db

/-! ### Names -/

def agentIdByName (team : Uuid) (name : String) : Bus Uuid := do
  let name := trim name
  let row ← select .agents fun pg => (pg.db.findAgent team name).map (·.id)
  match row with
  | some id => return id
  | none => throw (.notFound s!"no agent named '{name}' in this team")

def channelIdByName (team : Uuid) (name : String) : Bus Uuid := do
  let name := normalizeChannel name
  let row ← select .channels fun pg => (pg.db.findChannel team name).map (·.id)
  match row with
  | some id => return id
  | none =>
    throw (.notFound s!"no channel named '{name}'; call list_channels or create it with create_channel")

/-- The channel a session works in: the one named after it, if the team has one. -/
def defaultChannel (auth : AuthCtx) : Bus (Option (Uuid × String)) :=
  if auth.session.isEmpty then return none
  else
    let name := normalizeChannel auth.session
    select .channels fun pg => (pg.db.findChannel auth.teamId name).map fun c => (c.id, name)

/-- The channel that a catch-up of the session is restricted to, when there is one and the caller has not
    asked for the whole team. -/
def focusOf (auth : AuthCtx) (allChannels : Bool) : Bus (Option Uuid) :=
  if allChannels then return none else (fun c => c.map (·.1)) <$> defaultChannel auth

/-! ### Channels -/

def channelAnswer (c : Channel) : ChannelInfo :=
  { name := c.name, topic := c.topic, messageCount := 0, createdAt := ts c.createdAt }

/-- `INSERT INTO channels … ON CONFLICT (team_id, name) DO UPDATE …`. -/
def upsertChannel (auth : AuthCtx) (name : String) (topic : Option String) : Sql ChannelInfo := fun pg =>
  match pg.db.findChannel auth.teamId name with
  | some old =>
    let c := { old with topic := topic.or old.topic }
    .ok (channelAnswer c, pg.seqs, [.putChannel c])
  | none =>
    let c : Channel :=
      { id := randomUuid pg.seqs.uuids, teamId := auth.teamId, name, topic, createdBy := some auth.agentId
        createdAt := pg.now }
    if pg.db.channelOk c && !pg.db.channels.any (·.id == c.id) then
      .ok (channelAnswer c, { pg.seqs with uuids := pg.seqs.uuids + 1 }, [.putChannel c])
    else .error .db

def createChannel (auth : AuthCtx) (name : String) (topic : Option String) : Bus ChannelInfo := do
  let name := normalizeChannel name
  if name.isEmpty then
    throw (.invalid "channel name cannot be empty")
  if name.utf8ByteSize > 64 then
    throw (.invalid "channel name is limited to 64 characters")
  let topic ← check (checkTextOpt "channel topic" topic maxTopicBytes)
  execute (.insert .channels) (upsertChannel auth name topic)

def listChannels (auth : AuthCtx) : Bus (List ChannelInfo) :=
  select .channels fun pg =>
    (Rows.orderBy (fun a b => a.name ≤ b.name) (pg.db.channels.filter (·.teamId == auth.teamId))).map fun c =>
      { name := c.name, topic := c.topic
        messageCount := (pg.db.messages.filter (·.channelId == some c.id)).length
        createdAt := ts c.createdAt }

/-! ### Posting -/

structure PostInput where
  channel : Option String
  «to» : Option String
  announce : Bool
  body : String
  replyTo : Option Int
  metadata : Option Json
  attachments : List NewAttachment

/-- Where a message goes: a channel, or an agent with or without a session of theirs. -/
structure Target where
  channel : Option Uuid
  recipient : Option Uuid
  recipientSession : Option String
  deliveredTo : List String

/-- Everyone in the team can read a channel, so the roster is reported. -/
def toChannel (auth : AuthCtx) (channel : Uuid) : Bus Target := do
  let names ← select .agents fun pg => pg.db.rosterNames auth.teamId
  return { channel := some channel, recipient := none, recipientSession := none, deliveredTo := names }

def resolveTarget (auth : AuthCtx) (channel «to» : Option String) : Bus Target :=
  match channel, «to» with
  | some _, some _ =>
    throw (.invalid "set either `channel` or `to`, not both: a message is either broadcast or direct")
  | none, none => do
    match ← defaultChannel auth with
    | some (id, _) => toChannel auth id
    | none =>
      if auth.session.isEmpty then
        throw (.invalid "set `channel` to broadcast, or `to` to send a direct message")
      else
        throw (.invalid ("set `channel` to broadcast, or `to` to send a direct message. " ++
          s!"This session is '{auth.session}', and there is no channel of that name to " ++
          s!"fall back on — create_channel '{auth.session}' to make it the default here."))
  | some channel, none => do toChannel auth (← channelIdByName auth.teamId channel)
  | none, some «to» => do
    let (agent, session) ← check (parseAddress «to»)
    let id ← agentIdByName auth.teamId agent
    if id == auth.agentId && session == some auth.session then
      throw (.invalid ("that address is this session — a message to yourself here would " ++
        "never be read. Use set_note to leave something durable, post to " ++
        "a channel, or address another of your sessions as 'you/<session>'."))
    let label := match session with
      | some s => s!"{agent}/{s}"
      | none => agent
    return { channel := none, recipient := some id, recipientSession := session, deliveredTo := [label] }

/-- The row of a posted message. -/
def newMessage (auth : AuthCtx) (id : Int) (now : Time) (target : Target) (body : String)
    (replyTo : Option Int) (metadata : Json) (announce : Bool) : Message :=
  { id, teamId := auth.teamId, channelId := target.channel, recipientAgentId := target.recipient
    recipientSession := target.recipientSession, senderAgentId := auth.agentId
    senderSession := sessionLabel auth, body, replyTo, metadata, announce, createdAt := now }

/-- `INSERT INTO messages … RETURNING id`. -/
def insertMessage (auth : AuthCtx) (target : Target) (body : String) (replyTo : Option Int) (metadata : Json)
    (announce : Bool) : Sql Int := fun pg =>
  let id := pg.seqs.messages + 1
  let m := newMessage auth id pg.now target body replyTo metadata announce
  if pg.db.messageOk m then
    let (seqs, fired) := enqueueMessageWebhook pg m { pg.seqs with messages := id }
    .ok (id, seqs, .insertMessage m :: fired ++ [.notify (notifyMessage m)])
  else .error .db

/-- A reply must point at a message of the same team. -/
def checkReply (auth : AuthCtx) : Option Int → Bus Unit
  | none => return ()
  | some replyTo => do
    let found ← select .messages fun pg => pg.db.messageIn replyTo auth.teamId
    if !found then
      throw (.notFound s!"message {replyTo}")

/-- The transaction of `post_message`: the message and its files commit together. -/
def postBody (auth : AuthCtx) (target : Target) (body : String) (input : PostInput) (metadata : Json)
    (tx : Conn) : Bus (MessageInfo × Conn) := do
  let (id, tx) ← tx.execute (.insert .messages) (some (auth.teamId, .keyShare))
    (insertMessage auth target body input.replyTo metadata input.announce)
  let tx ← insertAllForMessage tx auth.teamId id auth.agentId input.attachments
  let row ← tx.select .messages fun pg => (pg.db.messages.find? (·.id == id)).bind pg.db.messageInfo?
  match row with
  | some info => return (info, tx)
  | none => throw .db

def postMessage (auth : AuthCtx) (pid : Nat) (input : PostInput) : Bus PostMessageResult := do
  let body := trim input.body
  if body.isEmpty then
    throw (.invalid "message body cannot be empty")
  let size := body.utf8ByteSize
  if size > maxBodyBytes then
    throw (.invalid (s!"message body is {size} bytes; the limit is {maxBodyBytes}. " ++
      "Attach the file instead of pasting it, or split the message."))
  if input.announce && input.«to».isSome && input.channel.isNone then
    throw (.invalid ("`announce` applies to channel messages. A direct message already reaches " ++
      "its recipient whatever they are focused on, so drop the flag, or post to " ++
      "a channel if the whole team needs to see this."))
  let target ← resolveTarget auth input.channel input.«to»
  checkReply auth input.replyTo
  check (checkMetadata "message" input.metadata)
  let metadata := input.metadata.getD "\x7b\x7d"
  let message ← transaction pid (postBody auth target body input metadata)
  return { message, deliveredTo := target.deliveredTo }

/-! ### Asking -/

/-- Addressed to the session, or to the person. -/
def addressedTo (session : String) (m : Message) : Bool := m.recipientSession.all (· == session)

/-- The `WHERE` of `find_answer`. -/
def answers (auth : AuthCtx) (target : Uuid) (targetSession : Option String) (question : Int)
    (m : Message) : Bool :=
  m.senderAgentId == target && m.recipientAgentId == some auth.agentId && decide (question < m.id) &&
    addressedTo auth.session m && targetSession.all (m.senderSession.getD "" == ·)

/-- `(m.reply_to = $3) DESC NULLS LAST`: explicit replies, other replies, the rest. -/
def replyRank (question : Int) (m : Message) : Nat :=
  match m.replyTo with
  | some r => if r == question then 0 else 1
  | none => 2

def answerOrder (question : Int) (a b : Message) : Prop :=
  replyRank question a < replyRank question b ∨
    (replyRank question a = replyRank question b ∧ a.id ≤ b.id)

instance (question : Int) : DecidableRel (answerOrder question) :=
  fun _ _ => inferInstanceAs (Decidable (_ ∨ _))

/-- The answer to a question: the explicit reply if there is one, else the first direct message of the
    target to the asker after the question. -/
def findAnswer (auth : AuthCtx) (target : Uuid) (targetSession : Option String) (question : Int) :
    Bus (Option MessageInfo) :=
  select .messages fun pg =>
    ((Rows.orderBy (answerOrder question)
      (pg.db.messages.filter (answers auth target targetSession question))).filterMap pg.db.messageInfo?).head?

/-- The `WHERE` of `verify_question`. -/
def isQuestion (auth : AuthCtx) (target : Uuid) (targetSession : Option String) (question : Int)
    (m : Message) : Bool :=
  m.id == question && m.senderAgentId == auth.agentId && m.recipientAgentId == some target &&
    m.senderSession.getD "" == auth.session && m.recipientSession == targetSession

def verifyQuestion (auth : AuthCtx) (target : Uuid) (targetSession : Option String) (question : Int) :
    Bus Unit := do
  let found ← select .messages fun pg => pg.db.messages.any (isQuestion auth target targetSession question)
  if !found then
    throw (.invalid (s!"message {question} is not a question this session sent to that exact " ++
      "address; pass the question_message_id returned by ask_agent in this " ++
      "session, with the same `to`"))

/-! ### Reading -/

inductive Scope where
  | all
  | inbox
  | channel (id : Uuid) (name : String)
  deriving DecidableEq

namespace Scope

def base : Scope → String
  | .all => "all"
  | .inbox => "inbox"
  | .channel id _ => "channel:" ++ uuidText id

def cursorKeyFor (scope : Scope) (auth : AuthCtx) (allSessions : Bool) : String :=
  cursorScopeFor scope.base auth.session allSessions

def label : Scope → String
  | .all => "all"
  | .inbox => "inbox"
  | .channel _ name => "#" ++ name

/-- The direct messages of the view: all of them, or those of this session and of the person. -/
def inView (auth : AuthCtx) (allSessions : Bool) (m : Message) : Bool :=
  m.recipientAgentId == some auth.agentId && (allSessions || addressedTo auth.session m)

/-- The `WHERE` of the three queries of `read_messages`, without the cursor. -/
def visible (auth : AuthCtx) (allSessions : Bool) : Scope → Message → Bool
  | .all, m =>
    m.teamId == auth.teamId &&
      (m.channelId.isSome || inView auth allSessions m || m.senderAgentId == auth.agentId)
  | .inbox, m => inView auth allSessions m
  | .channel id _, m => m.channelId == some id

end Scope

/-- The scope a text names, or the channel that it would have to name. -/
def parseScope (raw : String) : Scope ⊕ String :=
  let raw := toLowercase (trim raw)
  if raw == "" || raw == "all" then .inl .all
  else if raw == "inbox" || raw == "dm" || raw == "direct" then .inl .inbox
  else .inr (normalizeChannel raw)

def resolveScope (auth : AuthCtx) (raw : String) : Bus Scope :=
  match parseScope raw with
  | .inl scope => return scope
  | .inr name => do return .channel (← channelIdByName auth.teamId name) name

structure ReadInput where
  scope : String
  onlyNew : Bool
  limit : Int
  allSessions : Bool

/-- `INSERT INTO read_cursors … ON CONFLICT (agent_id, scope) DO UPDATE SET last_message_id =
    GREATEST(…)`. -/
def upsertCursor (agent : Uuid) (scope : String) (last : Int) : Sql Unit := fun pg =>
  if pg.db.agentExists agent then
    let old := pg.db.cursors.find? fun c => c.agentId == agent && c.scope == scope
    .ok ((), pg.seqs,
      [.putCursor ⟨agent, scope, (old.map fun c => max c.lastMessageId last).getD last⟩])
  else .error .db

/-- `iter().max().unwrap_or(since)`. -/
def maxId (since : Int) : List MessageInfo → Int
  | [] => since
  | m :: ms => ms.foldl (fun acc m => max acc m.id) m.id

/-- Where the read starts: at the stored cursor, or at the beginning. -/
def readSince (auth : AuthCtx) (cursorKey : String) (onlyNew : Bool) : Bus Int :=
  if onlyNew then select .readCursors fun pg => pg.db.lastRead auth.agentId cursorKey else return 0

def readMessages (auth : AuthCtx) (input : ReadInput) : Bus MessageList := do
  let scope ← resolveScope auth input.scope
  let limit := clamp input.limit 1 maxLimit
  let cursorKey := scope.cursorKeyFor auth input.allSessions
  let since ← readSince auth cursorKey input.onlyNew
  let rows ← select .messages fun pg =>
    pg.db.newest (fun m => scope.visible auth input.allSessions m && decide (since < m.id)) limit
  let truncated := (rows.length : Int) == limit
  let messages := rows.reverse
  let newCursor := maxId since messages
  if input.onlyNew && decide (since < newCursor) then
    execute (.insert .readCursors) (upsertCursor auth.agentId cursorKey newCursor)
  return { messages, scope := scope.label, cursor := newCursor, truncated }

/-- The `WHERE` of `search_messages`. -/
def found (auth : AuthCtx) (query : String) (m : Message) : Bool :=
  m.teamId == auth.teamId &&
    (m.channelId.isSome || m.recipientAgentId == some auth.agentId || m.senderAgentId == auth.agentId) &&
    tsMatch m.body query

def searchMessages (auth : AuthCtx) (query : String) (limit : Int) : Bus MessageList := do
  let query := trim query
  if query.isEmpty then
    throw (.invalid "search query cannot be empty")
  let limit := clamp limit 1 maxLimit
  let messages ← select .messages fun pg => pg.db.newest (found auth query) limit
  return { messages, scope := s!"search:{query}", cursor := maxId 0 messages
           truncated := (messages.length : Int) == limit }

end CrewSync
