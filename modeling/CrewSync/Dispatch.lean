import CrewSync.Calls

/-! The dispatchers of all replicas (`send_batch` and `run_dispatcher` of `src/webhooks.rs`) beside the
    server: a claimed row is posted, and its outcome recorded, at any time after the claim or never. -/

namespace CrewSync.Dispatch
open Webhooks

/-- A claimed row in the hands of a replica: when it was claimed, and the outcome of its POST once there
    is one. -/
structure Attempt where
  delivery : Claimed
  since : Time
  response : Option Response
  deriving DecidableEq

/-- The server, the attempts in flight, and what happened, the latest first: the POSTs with their outcome
    and the outcomes recorded in the table. -/
structure State where
  pg : Pg
  attempts : List Attempt
  posts : List (Claimed × Response)
  marks : List (Claimed × Response)
  deriving DecidableEq

inductive Step where
  /-- Everything but the dispatchers: tools, commands, the clock, and a `prune`. -/
  | server (e : Event)
  /-- A replica claims a batch; `locked` are the rows that another claim has locked. -/
  | claim (locked : List Int)
  | post (i : Nat) (r : Response)
  /-- `mark_sent` or `mark_failed`, by the outcome. -/
  | mark (i : Nat)
  /-- The replica crashes, or the `UPDATE` of the mark fails. -/
  | lose (i : Nat)

/-- A statement of the dispatcher: it takes place as a `Step` of its own. -/
def isDispatch : Event → Bool
  | .claim _ | .record .. => true
  | _ => false

/-- The rows that a claim returns. -/
def claimed [Platform] (locked : List Int) (pg : Pg) : List Claimed :=
  match (claim locked).answer pg with
  | .ok ds => ds
  | .error _ => []

def next [Platform] (s : State) : Step → State
  | .server e => if isDispatch e then s else { s with pg := s.pg.next e }
  | .claim locked =>
    { s with
      pg := (claim locked).effect s.pg
      attempts := s.attempts ++ (claimed locked s.pg).map fun d =>
        { delivery := d, since := s.pg.now, response := none } }
  | .post i r =>
    match s.attempts[i]? with
    | some { delivery, since, response := none } =>
      { s with
        attempts := s.attempts.set i { delivery, since, response := some r }
        posts := (delivery, r) :: s.posts }
    | _ => s
  | .mark i =>
    match s.attempts[i]? with
    | some { delivery, response := some r, .. } =>
      { s with
        pg := (record delivery r).effect s.pg
        attempts := s.attempts.eraseIdx i
        marks := (delivery, r) :: s.marks }
    | _ => s
  | .lose i => { s with attempts := s.attempts.eraseIdx i }

/-- Before the first event. -/
def start (now : Time) : State := { pg := Pg.init now, attempts := [], posts := [], marks := [] }

end CrewSync.Dispatch
