import CrewSync.Events
import CrewSync.Store.Messaging

/-! `ask_agent`, and what `post_message` checks (`src/tools/messaging.rs`). -/

namespace CrewSync
variable [Platform]

def askDefaultTimeoutSecs : Int := 45
def askMaxTimeoutSecs : Int := 55

/-- Does this agent have a live presence row for some other session? -/
def hasAnotherLiveSession (auth : AuthCtx) : Bus Bool :=
  select .agentPresence fun pg =>
    pg.db.presence.any fun p => p.agentId == auth.agentId && p.session != auth.session && pg.now < p.expiresAt

/-- `post_message` refuses too many files before it decodes them. -/
def checkFiles (attachments : List NewAttachment) : Except BusError Unit :=
  if attachments.length > 8 then .error (.invalid "a message carries at most 8 attachments") else .ok ()

structure AskInput where
  «to» : String
  question : Option String
  timeoutSeconds : Option Int
  resumeMessageId : Option Int

/-- Only this window could read a question to that address. -/
def onlyMe (auth : AuthCtx) : Option String → Bus Bool
  | some s => return s == auth.session
  | none => do return !(← hasAnotherLiveSession auth)

/-- A question that only this window could read is refused. -/
def refuseSelf (auth : AuthCtx) (target : Uuid) (session : Option String) : Bus Unit :=
  if target == auth.agentId then do
    if ← onlyMe auth session then
      throw (.invalid ("nothing would ever read that question: the address resolves to this " ++
        "session and no other window of yours is live. Ask a teammate, or " ++
        "another of your own sessions as 'you/<session>' — list_agents shows " ++
        "which are open."))
  else return ()

/-- The question of a fresh or of a resumed ask. -/
def questionOf (auth : AuthCtx) (pid : Nat) (input : AskInput) (target : Uuid) (session : Option String) :
    Bus Int :=
  match input.resumeMessageId with
  | some id => do
    verifyQuestion auth target session id
    return id
  | none =>
    match (input.question.map trim).filter fun q => !q.isEmpty with
    | none => throw (.invalid "provide `question`, or `resume_message_id` to keep waiting on an earlier one")
    | some question => do
      let posted ← postMessage auth pid
        { channel := none, «to» := some (trim input.«to»), announce := false, body := question
          replyTo := none, metadata := some "\x7b\"question\":true\x7d", attachments := [] }
      return posted.message.id

/-- The events that make a blocked ask look into the database again. -/
def wakesAsk (auth : AuthCtx) (target : Uuid) (question : Int) : Received → Bool
  | .lagged => true
  | .event e =>
    e.kind == "message" && e.senderAgentId == some target && e.recipientAgentId == some auth.agentId &&
      e.messageId.any (question < ·) && e.recipientSession.all (· == auth.session)

/-- The wait for an answer, after a look at the database found none: at the deadline there is one last
    look. -/
def awaitAnswer (auth : AuthCtx) (target : Uuid) (session : Option String) (question : Int) :
    List Received → Bus (Option MessageInfo)
  | [] => findAnswer auth target session question
  | r :: rest =>
    if wakesAsk auth target question r then do
      match ← findAnswer auth target session question with
      | some answer => return some answer
      | none => awaitAnswer auth target session question rest
    else awaitAnswer auth target session question rest

/-- A look at the database first: it covers resumed asks whose answer is already there. -/
def lookForAnswer (auth : AuthCtx) (target : Uuid) (session : Option String) (question : Int)
    (received : List Received) : Bus (Option MessageInfo) := do
  match ← findAnswer auth target session question with
  | some answer => return some answer
  | none => awaitAnswer auth target session question received

def askAgent (auth : AuthCtx) (pid : Nat) (input : AskInput) (received : List Received) : Bus AskResult := do
  let «to» := trim input.«to»
  let timeout := clamp (input.timeoutSeconds.getD askDefaultTimeoutSecs) 5 askMaxTimeoutSecs
  let (name, session) ← check (parseAddress «to»)
  let target ← agentIdByName auth.teamId name
  refuseSelf auth target session
  let question ← questionOf auth pid input target session
  let answer ← lookForAnswer auth target session question received
  let address := «to»
  let suggestion := if answer.isSome then
      "The answer also sits unread in your inbox; read_messages will mark it read."
    else
      s!"{address} has not answered within {timeout}s. Call ask_agent again " ++
        s!"with resume_message_id={question} to keep waiting without " ++
        "re-sending, or do other work and check read_messages later."
  return { answered := answer.isSome, «to», questionMessageId := question, answer, suggestion }

end CrewSync
