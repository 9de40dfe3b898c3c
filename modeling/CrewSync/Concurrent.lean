import CrewSync.Calls
import CrewSync.Lib.Threads

/-! Tool calls taken apart: a call in progress is a thread, and its statements take place among those of the
    others. The number of the thread is the connection that its transaction runs on. -/

namespace CrewSync.Concurrent
open Threads

/-- The server and the calls, each with who makes it. -/
abbrev State := Conf (AuthCtx × Call) Stmt Pg (Except BusError Reply)

inductive Step where
  /-- A request comes in. -/
  | call (auth : AuthCtx) (c : Call)
  /-- A call executes its next statement. -/
  | turn (i : Nat)
  /-- Everything but the tools. -/
  | server (e : Event)

/-- The event is no tool call, and its connection is none of the first `n`. -/
def apart (n : Nat) : Event → Bool
  | .call .. => false
  | .command pid _ => n ≤ pid
  | .claim _ | .record .. | .prune | .tick _ => true

def next [Platform] (s : State) : Step → State
  | .call auth c =>
    if auth.authentic s.shared.db then s.spawn (auth, c) (c.run auth s.threads.length).run else s
  | .turn i => s.sched i
  | .server e => if apart s.threads.length e then { s with shared := s.shared.next e } else s

/-- No call is in progress. -/
def start (pg : Pg) : State := ⟨pg, []⟩

/-- The state after the steps, the first one first. -/
def after [Platform] (s : State) (steps : List Step) : State := Runs.after next s steps

end CrewSync.Concurrent
