import CrewSync.Events
import CrewSync.Store.Identity

/-! `wait_for_updates` (`src/tools/events.rs`). -/

namespace CrewSync
variable [Platform]
open Platform

def unreadDms (auth : AuthCtx) : Bus Int := select .messages fun pg => unreadInbox auth pg.db

/-- The `WHERE` of `unread_anything`. -/
def pendingFor (auth : AuthCtx) (focus : Option Uuid) (since : Int) (m : Message) : Bool :=
  m.teamId == auth.teamId && decide (since < m.id) &&
    !(m.senderAgentId == auth.agentId && m.senderSession.getD "" == auth.session) &&
    ((m.channelId.isSome && (focus.isNone || m.channelId == focus || m.announce)) ||
      (m.recipientAgentId == some auth.agentId && addressedTo auth.session m))

def unreadAnything (auth : AuthCtx) (focus : Option Uuid) : Bus Int :=
  select .messages fun pg =>
    (pg.db.messages.filter
      (pendingFor auth focus (pg.db.lastRead auth.agentId (cursorScope "all" auth.session)))).length

/-- Is the event inside the channel focus of the session? Only channel messages are filtered. -/
def inFocus (e : BusEvent) (focus : Option Uuid) : Bool :=
  if e.isAnnouncement then true
  else
    match focus, e.channelId with
    | some channel, some postedIn => channel == postedIn
    | _, _ => true

/-- One line about the event, with the ids resolved to names; none is skipped. -/
def describe (e : BusEvent) : Bus (Option WaitEvent) :=
  if e.kind == "message" then
    match e.messageId with
    | none => return none
    | some id => select .messages fun pg => do
      let m ← pg.db.messages.find? (·.id == id)
      let sender ← pg.db.agentName m.senderAgentId
      let channel := (m.channelId.bind pg.db.channelName).map ("#" ++ ·)
      let recipient := (m.recipientAgentId.bind pg.db.agentName).map ("@" ++ ·)
      let target := (channel.or recipient).getD ""
      let body := left m.body 200
      return { kind := "message", summary := s!"{sender} → {target}: {body}" }
  else if e.kind == "task" then
    match e.text "key" with
    | none => return none
    | some key => do
      let status := (e.text "status").getD "?"
      let holder ← match e.text "claimed_by" with
        | some uuid => select .agents fun pg => byHolder ((parseUuid uuid).bind pg.db.agentName)
        | none => pure ""
      return some { kind := "task", summary := s!"task '{key}' is now {status}{holder}" }
  else if e.kind == "lock" then
    return (e.text "name").map fun name =>
      let what := (e.text "event").getD "changed"
      { kind := "lock", summary := s!"lock '{name}' {what}" }
  else if e.kind == "note" then
    return (e.text "key").map fun key =>
      let scope := (e.text "scope").getD "global"
      { kind := "note", summary := s!"note {scope}/{key} was updated" }
  else return none

def suggestionFor (events : List WaitEvent) (unread : Int) : String :=
  if events.any (·.kind == "message") || unread > 0 then "Call read_messages to fetch the new messages."
  else if events.any (·.kind == "task") then "Call list_tasks (or get_task) to see what changed."
  else if events.any (·.kind == "lock") then "Call list_locks (or retry acquire_lock) now."
  else if events.any (·.kind == "note") then "Call get_note to read the updated note."
  else "Nothing happened; do other work or wait again."

structure WaitInput where
  timeoutSeconds : Option Int
  kinds : Option (List String)
  allChannels : Bool

def wants (kinds : Option (List String)) (kind : String) : Bool :=
  kinds.all fun ks => (ks.map fun k => toLowercase (trim k)).contains kind

/-- The message of this session: not news to it. -/
def ownMessage (auth : AuthCtx) (e : BusEvent) : Bool :=
  e.kind == "message" && e.senderAgentId == some auth.agentId && e.senderSession.getD "" == auth.session

/-- An event that ends the wait. -/
def qualifies (auth : AuthCtx) (kinds : Option (List String)) (focus : Option Uuid) (e : BusEvent) : Bool :=
  e.visibleTo auth.teamId auth.agentId auth.session && wants kinds e.kind && inFocus e focus &&
    !ownMessage auth e

/-- An event of the grace window that joins the first one. -/
def joins (auth : AuthCtx) (kinds : Option (List String)) (focus : Option Uuid) (e : BusEvent) : Bool :=
  e.visibleTo auth.teamId auth.agentId auth.session && inFocus e focus && wants kinds e.kind &&
    !(e.kind == "message" && e.senderAgentId == some auth.agentId)

def describeAll : List BusEvent → Bus (List WaitEvent)
  | [] => return []
  | e :: es => do
    let d ← describe e
    let ds ← describeAll es
    return d.toList ++ ds

/-- The wait: `received` comes in before the deadline, `grace` within the grace window of the event that ends the wait.
    The window ends early at a lag, or when the hub is closed (`while let Ok(Ok(more))`), so `grace` is what came in
    until then. -/
def awaitEvents (auth : AuthCtx) (kinds : Option (List String)) (focus : Option Uuid)
    (grace : List BusEvent) : List Received → Bus (List WaitEvent)
  | [] => return []
  | .lagged :: _ => return [{ kind := "unknown", summary := "event stream lagged; re-check the bus" }]
  | .event e :: rest =>
    if qualifies auth kinds focus e then do
      match ← describe e with
      | some d => return d :: (← describeAll (grace.filter (joins auth kinds focus)))
      | none => awaitEvents auth kinds focus grace rest
    else awaitEvents auth kinds focus grace rest

def waitForUpdates (auth : AuthCtx) (input : WaitInput) (received : List Received) (grace : List BusEvent) :
    Bus WaitResult := do
  let focus ← focusOf auth input.allChannels
  let pending ← unreadAnything auth focus
  if pending > 0 && wants input.kinds "message" then
    let dms ← unreadDms auth
    return { woke := true, timedOut := false
             events := [{ kind := "message", summary := s!"{pending} unread message(s) already waiting" }]
             unreadDirectMessages := dms, suggestion := "Call read_messages to fetch them." }
  let events ← awaitEvents auth input.kinds focus grace received
  let unread ← unreadDms auth
  return { woke := !events.isEmpty, timedOut := events.isEmpty, suggestion := suggestionFor events unread
           events, unreadDirectMessages := unread }

end CrewSync
