import CrewSync.Calls
import CrewSync.Lib.Strip

/-! The Stop hook (`plugin/scripts/stop-drain.sh`): what it does with the feed that it gets from the bus and the ids that
    it has stored for the session, and the runs of the hook over a feed that grows. A run that gets no feed, or cannot
    write its file, ends before it says anything, and is no step here. -/

namespace CrewSync.StopDrain

/-- A message of the feed, with what the script reads of it. -/
structure Item where
  id : Int
  sender : String
  senderSession : Option String
  recipient : Option String
  replyTo : Option Int
  /-- `metadata["question"] is True`. -/
  question : Bool
  body : String
  deriving DecidableEq

/-- The `limit` of the read. -/
def feedLimit : Nat := 50

/-- How many ids the file keeps. -/
def storedLimit : Nat := 200

def maxBodyChars : Nat := 1500

/-- A direct message that the agent of someone else is blocked on. -/
def isQuestion (me : String) (m : Item) : Bool :=
  m.recipient.any (fun name => !name.isEmpty) && m.sender != me && m.question

/-- What this agent has replied to, as far as the feed shows. -/
def answered (me : String) (feed : List Item) : List Int :=
  feed.filterMap fun m => if m.sender == me then m.replyTo else none

/-- `str.strip`: Python takes four more control characters for whitespace. -/
def strip (s : String) : List Char :=
  Strip.strip (fun c => isWhitespace c || (0x1c ≤ c.toNat && c.toNat ≤ 0x1f)) s.toList

/-- The question that the session is held open for. -/
structure Block where
  messageId : Int
  sender : String
  body : String
  waiting : Nat
  deriving DecidableEq

def blockOn (m : Item) (waiting : Nat) : Block :=
  let name := if m.sender.isEmpty then "a teammate" else m.sender
  let body := strip m.body
  { messageId := m.id, waiting
    sender := match m.senderSession.filter fun s => !s.isEmpty with
      | some session => s!"{name}/{session}"
      | none => name
    body := if body.length > maxBodyChars then
        String.ofList (body.take maxBodyChars) ++ "…(truncated — read_messages has the whole thing)"
      else String.ofList body }

/-- `sorted(seen | {message_id})[-200:]`. -/
def remember (stored : List Int) (id : Int) : List Int :=
  let ids := Rows.orderBy (· ≤ ·) (stored.insert id)
  ids.drop (ids.length - storedLimit)

/-- The questions that are neither answered nor stored, oldest first. -/
def pending (me : String) (feed : List Item) (stored : List Int) : List Int :=
  Rows.orderBy (· ≤ ·) (((feed.filter (isQuestion me)).filter fun m =>
    !(answered me feed).contains m.id && !stored.contains m.id).map (·.id))

/-- The script: what it holds the session open for, and what it stores. -/
def drain (me : String) (feed : List Item) (stored : List Int) : Option Block × List Int :=
  if me.isEmpty then (none, stored)
  else
    match pending me feed stored with
    | [] => (none, stored)
    | id :: waiting =>
      match (feed.filter (isQuestion me)).find? (·.id == id) with
      | none => (none, stored)
      | some latest => (some (blockOn latest waiting.length), remember stored id)

/-! ### The bus -/

section
variable [Platform] (asks : Json → Bool) (auth : AuthCtx)

/-- A message of the answer; `asks` is what the script reads of its metadata. -/
def item (info : MessageInfo) : Item :=
  { id := info.id, sender := info.sender, senderSession := info.senderSession, recipient := info.recipient
    replyTo := info.replyTo, question := asks info.metadata, body := info.body }

/-- `FEED`: the newest messages of all scopes, without moving a cursor. -/
def feedOf (pid : Nat) (pg : Pg) : List Item :=
  match (pg.call auth pid (.readMessages { scope := "all", onlyNew := false, limit := 50, allSessions := false })).1 with
  | .ok (.messages r) => r.messages.map (item asks)
  | _ => []

/-- The agent of `WHO`. -/
def whoOf (pid : Nat) (pg : Pg) : String :=
  match (pg.call auth pid .whoami).1 with
  | .ok (.whoami r) => r.agent
  | _ => ""

/-- All that the session can see. -/
def logOf (db : Db) : List Item :=
  (db.messages.filter (Scope.all.visible auth false)).filterMap fun m => (db.messageInfo? m).map (item asks)

end

/-! ### Runs -/

/-- The messages that the session can see, what its file holds, and what was raised, the latest first. -/
structure State where
  log : List Item
  stored : List Int
  raised : List Int

/-- Before the first message and the first run. -/
def start : State := { log := [], stored := [], raised := [] }

inductive Step where
  /-- A message is posted. -/
  | arrive (m : Item)
  | hook

/-- A message comes after all others, and after the one that it replies to. -/
def follows (log : List Item) (m : Item) : Bool :=
  log.all (fun x => decide (x.id < m.id)) && m.replyTo.all fun r => decide (r < m.id)

/-- The newest messages, in the order of their ids. -/
def window (log : List Item) : List Item := log.drop (log.length - feedLimit)

def next (me : String) (s : State) : Step → State
  | .arrive m => if follows s.log m then { s with log := s.log ++ [m] } else s
  | .hook =>
    let (block, stored) := drain me (window s.log) s.stored
    { s with stored, raised := (block.map (·.messageId)).toList ++ s.raised }

/-- The state after the steps, the first one first. -/
def run (me : String) (steps : List Step) : State := Runs.after (next me) start steps

end CrewSync.StopDrain
