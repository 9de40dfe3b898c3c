import CrewSync.Hub

/-! `wait_for_updates` (`src/tools/events.rs`) step by step, beside the server and the hub. -/

namespace CrewSync
open Broadcast

def waitDefaultTimeoutSecs : Int := 25
def waitMaxTimeoutSecs : Int := 55

/-- The events that arrive together are batched: 150 ms. -/
def graceWindow : Nat := 150000000

/-- Seconds of a `Duration`, in nanoseconds. -/
def durationSecs (n : Int) : Nat := n.toNat * 1000000000

namespace Waiting

/-- Where the call is, between two awaits. -/
inductive Pc where
  | resolveFocus
  | subscribe
  | checkBacklog
  /-- The backlog ends the call. -/
  | found (pending : Int)
  /-- At the `select!`. -/
  | select
  | describe (e : BusEvent)
  /-- In the grace window. -/
  | grace (till : Nat)
  | describeMore (till : Nat) (e : BusEvent)
  /-- Behind the loop. -/
  | leave
  | done (r : Except BusError WaitResult)

end Waiting

/-- The call: its local variables and where it is. -/
structure Waiting where
  focus : Option Uuid
  events : List WaitEvent
  pc : Waiting.Pc

namespace Waiting

def goto (w : Waiting) (pc : Pc) : Waiting := { w with pc }

/-- A call that has just come in. -/
def begin : Waiting := { focus := none, events := [], pc := .resolveFocus }

/-- What the call answers when the backlog is not empty. -/
def backlogResult (pending dms : Int) : WaitResult :=
  { woke := true, timedOut := false
    events := [{ kind := "message", summary := s!"{pending} unread message(s) already waiting" }]
    unreadDirectMessages := dms, suggestion := "Call read_messages to fetch them." }

def result (events : List WaitEvent) (unread : Int) : WaitResult :=
  { woke := !events.isEmpty, timedOut := events.isEmpty, suggestion := suggestionFor events unread
    events, unreadDirectMessages := unread }

def laggedEvent : WaitEvent := { kind := "unknown", summary := "event stream lagged; re-check the bus" }

variable [Platform] (auth : AuthCtx) (input : WaitInput)

/-- What the wait does with what `rx.recv()` returned. -/
def receive (w : Waiting) : Except RecvError BusEvent → Waiting
  | .ok e => if qualifies auth input.kinds w.focus e then w.goto (.describe e) else w
  | .error .lagged => { w with events := w.events ++ [laggedEvent], pc := .leave }
  | .error .closed => w.goto .leave

/-- The same in the grace window. -/
def receiveMore (w : Waiting) (till : Nat) : Except RecvError BusEvent → Waiting
  | .ok e => if joins auth input.kinds w.focus e then w.goto (.describeMore till e) else w
  | .error _ => w.goto .leave

/-- The next step of the call. -/
def advance (s : Net Waiting) (c : Choice) : Net Waiting :=
  let fail e := s.me.goto (.done (.error e))
  match s.me.pc with
  | .resolveFocus =>
    s.query (focusOf auth input.allChannels) fail fun focus s => { s with me := { s.me with focus, pc := .subscribe } }
  | .subscribe => { s.subscribe with me := s.me.goto .checkBacklog }
  | .checkBacklog =>
    s.query (unreadAnything auth s.me.focus) fail fun pending s =>
      if pending > 0 && wants input.kinds "message" then { s with me := s.me.goto (.found pending) }
      else
        let timeout := clamp (input.timeoutSeconds.getD waitDefaultTimeoutSecs) 5 waitMaxTimeoutSecs
        { s with deadline := some (s.clock + durationSecs timeout), me := s.me.goto .select }
  | .found pending =>
    s.query (unreadDms auth) fail fun dms s => { s with me := s.me.goto (.done (.ok (backlogResult pending dms))) }
  | .select =>
    match c with
    | .timer => if s.beforeDeadline then s else { s with me := s.me.goto .leave }
    | .recv =>
      match s.recv with
      | some (x, s) => { s with me := receive auth input s.me x }
      | none => s
  | .describe e =>
    s.query (describe e) fail fun d s =>
      match d with
      | some d => { s with me := { s.me with events := s.me.events ++ [d], pc := .grace (s.clock + graceWindow) } }
      | none => { s with me := s.me.goto .select }
  | .grace till =>
    match s.recv with
    | some (x, s) => { s with me := receiveMore auth input s.me till x }
    | none => if s.clock < till then s else { s with me := s.me.goto .leave }
  | .describeMore till e =>
    s.query (describe e) fail fun d s =>
      { s with me := { s.me with events := s.me.events ++ d.toList, pc := .grace till } }
  | .leave =>
    s.query (unreadDms auth) fail fun unread s =>
      { s with me := s.me.goto (.done (.ok (result s.me.events unread))) }
  | .done _ => s

abbrev next : Net Waiting → Net.Step → Net Waiting := Net.next (advance auth input)

end Waiting
end CrewSync
