import CrewSync.Calls
import CrewSync.Lib.Faults

/-! A database that fails at times: a statement of a call raises an error, and the call ends with it. -/

namespace CrewSync

/-- The call with its statement number `n` failing. Every `?` of the store passes the error on; `no_claim_here`, which
    turns it into another one, executes nothing after it. -/
def Bus.failing {α : Type} (x : Bus α) (err : BusError) (n : Nat) : Bus α :=
  ExceptT.mk (Prog.failing x.run (.error err) n)

/-- The calls that execute several data-modifying statements outside a transaction. -/
def Call.piecewise : Call → Bool
  | .createTask _ | .claimTask .. | .claimNextTask _ | .releaseTask _ | .completeTask .. | .setNote _ => true
  | _ => false

/-- The rows of every table. -/
def Db.rows (db : Db) : Db := { db with notified := [] }

namespace Faults
variable [Platform]

inductive Step where
  | event (e : Event)
  /-- The statement number `n` of the call fails. -/
  | failed (auth : AuthCtx) (c : Call) (n : Nat)

def next (pg : Pg) : Step → Pg
  | .event e => pg.next e
  | .failed auth c n =>
    if auth.authentic pg.db && c.piecewise then (((c.run auth 0).failing .db n).exec pg).2 else pg

end Faults

/-- With its statement number `n` failing, the call answers, or leaves every row as it was. -/
def Pg.Untouched [Platform] (pg : Pg) (auth : AuthCtx) (c : Call) (n : Nat) : Prop :=
  ∀ pid err e, (((c.run auth pid).failing err n).exec pg).1 = .error e →
    (((c.run auth pid).failing err n).exec pg).2.db.rows = pg.db.rows

end CrewSync
