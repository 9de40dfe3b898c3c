import CrewSync.Waiting

/-! `ask_agent` (`src/tools/messaging.rs`) step by step, beside the server and the hub. -/

namespace CrewSync
open Broadcast

namespace Asking

/-- Where the call is, between two awaits. -/
inductive Pc where
  | resolveAddress
  | refuseSelf
  | subscribe
  /-- The question is posted, or a resumed one verified. -/
  | ask
  /-- At the head of the outer loop. -/
  | look
  /-- At the `select!` of the inner loop. -/
  | select
  | lastLook
  | done (r : Except BusError AskResult)

end Asking

/-- The call: its local variables and where it is. -/
structure Asking where
  target : Uuid
  session : Option String
  question : Int
  pc : Asking.Pc

namespace Asking

def goto (a : Asking) (pc : Pc) : Asking := { a with pc }

/-- A call that has just come in. -/
def begin : Asking := { target := 0, session := none, question := 0, pc := .resolveAddress }

/-- The call is about to look for an answer. -/
def looks (a : Asking) : Bool :=
  match a.pc with
  | .look | .lastLook => true
  | _ => false

variable [Platform] (auth : AuthCtx) (pid : Nat) (input : AskInput)

def timeoutOf : Int := clamp (input.timeoutSeconds.getD askDefaultTimeoutSecs) 5 askMaxTimeoutSecs

/-- The result of a look that ends the call. -/
def result (question : Int) (answer : Option MessageInfo) : AskResult :=
  let address := trim input.«to»
  let timeout := timeoutOf input
  let suggestion := if answer.isSome then
      "The answer also sits unread in your inbox; read_messages will mark it read."
    else
      s!"{address} has not answered within {timeout}s. Call ask_agent again " ++
        s!"with resume_message_id={question} to keep waiting without " ++
        "re-sending, or do other work and check read_messages later."
  { answered := answer.isSome, «to» := address, questionMessageId := question, answer, suggestion }

/-- What the wait does with what `rx.recv()` returned. -/
def receive (a : Asking) : Except RecvError BusEvent → Asking
  | .ok e => if wakesAsk auth a.target a.question (.event e) then a.goto .look else a
  | .error .lagged => a.goto .look
  | .error .closed => a.goto .lastLook

/-- The next step of the call. -/
def advance (s : Net Asking) (c : Choice) : Net Asking :=
  let fail e := s.me.goto (.done (.error e))
  match s.me.pc with
  | .resolveAddress =>
    match parseAddress (trim input.«to») with
    | .ok (name, session) =>
      s.query (agentIdByName auth.teamId name) fail fun target s =>
        { s with me := { s.me with target, session, pc := .refuseSelf } }
    | .error e => { s with me := fail e }
  | .refuseSelf =>
    s.query (refuseSelf auth s.me.target s.me.session) fail fun _ s => { s with me := s.me.goto .subscribe }
  | .subscribe => { s.subscribe with me := s.me.goto .ask }
  | .ask =>
    s.query (questionOf auth pid input s.me.target s.me.session) fail fun question s =>
      { s with deadline := some (s.clock + durationSecs (timeoutOf input)), me := { s.me with question, pc := .look } }
  | .look =>
    s.query (findAnswer auth s.me.target s.me.session s.me.question) fail fun answer s =>
      if answer.isSome then { s with me := s.me.goto (.done (.ok (result input s.me.question answer))) }
      else { s with me := s.me.goto .select }
  | .select =>
    match c with
    | .timer => if s.beforeDeadline then s else { s with me := s.me.goto .lastLook }
    | .recv =>
      match s.recv with
      | some (x, s) => { s with me := receive auth s.me x }
      | none => s
  | .lastLook =>
    s.query (findAnswer auth s.me.target s.me.session s.me.question) fail fun answer s =>
      { s with me := s.me.goto (.done (.ok (result input s.me.question answer))) }
  | .done _ => s

abbrev next : Net Asking → Net.Step → Net Asking := Net.next (advance auth pid input)

end Asking
end CrewSync
