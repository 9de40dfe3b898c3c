import CrewSync.Triggers
import Mathlib.Algebra.Order.Ring.Int

/-! The webhook dispatcher (`src/webhooks.rs`): a replica claims due rows of the outbox, posts each of them
    and records the outcome. -/

namespace CrewSync.Webhooks
variable [Platform]
open Platform

def maxAttempts : Int := 6
def batch : Nat := 32
def keepSent : Time := secs (24 * 3600)
def keepFailed : Time := secs (7 * 24 * 3600)

/-- How long a claim holds a row. -/
def hold : Time := secs 60

/-- `Delivery` of the source: a claimed row and the receiver of its webhook. -/
structure Claimed where
  id : Int
  url : String
  kind : String
  summary : String
  payload : Payload
  attempts : Int
  deriving DecidableEq

/-- `ORDER BY d.next_attempt_at, d.id`. -/
def dueOrder (a b : Delivery) : Prop :=
  a.nextAttemptAt < b.nextAttemptAt ∨ (a.nextAttemptAt = b.nextAttemptAt ∧ a.id ≤ b.id)

instance : DecidableRel dueOrder := fun _ _ => inferInstanceAs (Decidable (_ ∨ _))

/-- The `due` rows; `locked` are the rows that another claim has locked. -/
def due (locked : List Int) (pg : Pg) : List Delivery :=
  (Rows.orderBy dueOrder (pg.db.deliveries.filter fun d =>
    d.status == .pending && decide (d.nextAttemptAt ≤ pg.now) && !locked.contains d.id)).take batch

/-- The row is due and its webhook exists. -/
def takes (locked : List Int) (pg : Pg) (d : Delivery) : Bool :=
  (due locked pg).any (·.id == d.id) && pg.db.webhooks.any (·.id == d.webhookId)

/-- The row is held for the duration of the attempt. -/
def take (now : Time) (d : Delivery) : Delivery :=
  { d with attempts := d.attempts + 1, nextAttemptAt := now + hold, updatedAt := now }

/-- `RETURNING d.id, w.url, w.kind, d.summary, d.payload, d.attempts`. -/
def returning (pg : Pg) (d : Delivery) : Option Claimed :=
  (pg.db.webhooks.find? (·.id == d.webhookId)).map fun w =>
    { id := d.id, url := w.url, kind := w.kind, summary := d.summary, payload := d.payload
      attempts := d.attempts }

def claim (locked : List Int) : Sql (List Claimed) := fun pg =>
  .ok (((pg.db.deliveries.filter (takes locked pg)).map (take pg.now)).filterMap (returning pg), pg.seqs,
    [.updateDeliveries (takes locked pg) (take pg.now)])

def markSent (id : Int) : Sql Unit := fun pg =>
  .ok ((), pg.seqs, [.updateDeliveries (·.id == id) fun d =>
    { d with status := .sent, lastError := none, updatedAt := pg.now }])

/-- 2s, 4s, 8s … capped. -/
def backoff (attempts : Int) : Int := min (2 ^ (clamp attempts 1 8).toNat) 600

/-- A retry with exponential backoff, or the row is parked once it has used its attempts. -/
def markFailed (id : Int) (attempts : Int) (error : String) : Sql Unit := fun pg =>
  .ok ((), pg.seqs, [.updateDeliveries (·.id == id) fun d =>
    { d with
      status := if attempts ≥ maxAttempts then .failed else .pending
      nextAttemptAt := pg.now + secs (backoff attempts)
      lastError := some (left error 500)
      updatedAt := pg.now }])

/-- The outcome of a POST: an HTTP status, or an error before one came. -/
inductive Response where
  | status (code : Nat)
  | error (text : String)
  deriving DecidableEq

/-- `is_success`. -/
def Response.success : Response → Bool
  | .status code => 200 ≤ code && code < 300
  | .error _ => false

/-- 4xx other than 408 and 429 will not improve on retry. -/
def Response.permanent : Response → Bool
  | .status code => 400 ≤ code && code < 500 && code != 408 && code != 429
  | .error _ => false

/-- The statement that records the outcome of a POST. -/
def record (d : Claimed) (r : Response) : Sql Unit :=
  if r.success then markSent d.id
  else
    match r with
    | .status code =>
      let attempts := if r.permanent then maxAttempts else d.attempts
      let text := statusText code
      markFailed d.id attempts s!"HTTP {text}"
    | .error text => markFailed d.id d.attempts text

/-- Deliveries nobody will look at again. -/
def expired (now : Time) (d : Delivery) : Bool :=
  (d.status == .sent && decide (d.updatedAt < now - keepSent)) ||
    (d.status == .failed && decide (d.updatedAt < now - keepFailed))

def prune : Sql Unit := fun pg => .ok ((), pg.seqs, [.deleteDeliveries (expired pg.now)])

end CrewSync.Webhooks
