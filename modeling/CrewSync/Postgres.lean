import CrewSync.Lib.Prog
import CrewSync.Schema

/-! Statements, connections and transactions. A store function is a program over the server `Pg` that
    executes one SQL statement at a time. Outside a transaction a statement commits on its own; inside
    one, its writes stay with the connection until `COMMIT` (isolation level READ COMMITTED), while the
    sequences move at once and the row locks on `teams` stay until the transaction ends. -/

namespace CrewSync

/-- The two row locks that the store takes on a row of `teams`: a foreign key check shares the row,
    `SELECT … FOR UPDATE` excludes every other lock. -/
inductive LockMode where
  | keyShare | forUpdate
  deriving DecidableEq

structure TeamLock where
  pid : Nat
  team : Uuid
  mode : LockMode
  deriving DecidableEq

/-- The last values of the sequences (`BIGSERIAL`), and how many UUIDs were given out. -/
structure Seqs where
  messages : Int
  taskEvents : Int
  noteRevisions : Int
  attachments : Int
  deliveries : Int
  uuids : Nat
  deriving DecidableEq

/-- The database server: the committed tables, the sequences, the clock, and the locks on `teams` that
    open transactions hold. -/
structure Pg where
  db : Db
  seqs : Seqs
  now : Time
  teamLocks : List TeamLock
  deriving DecidableEq

/-- A fresh server after the migrations. -/
def Pg.init (now : Time) : Pg := ⟨.empty, ⟨0, 0, 0, 0, 0, 0⟩, now, []⟩

/-- The connection `pid` may take the lock: no other connection holds a conflicting one. -/
def Pg.canLock (pg : Pg) (pid : Nat) (team : Uuid) (mode : LockMode) : Bool :=
  pg.teamLocks.all fun l => l.pid == pid || l.team != team || (l.mode == .keyShare && mode == .keyShare)

inductive Table where
  | teams | agents | agentPresence | channels | messages | readCursors | tasks | taskDeps | taskEvents
  | notes | noteRevisions | locks | attachments | webhooks | webhookDeliveries
  deriving DecidableEq

/-- The statement a program executes next. -/
inductive Stmt where
  | select (t : Table)
  | insert (t : Table)
  | update (t : Table)
  | delete (t : Table)
  /-- `INSERT INTO task_deps`. -/
  | insertTaskDep (task dep : Uuid)
  /-- `SELECT attachment_bytes_limit FROM teams … FOR UPDATE`. -/
  | lockTeam (team : Uuid)
  /-- `INSERT INTO attachments`. -/
  | insertAttachment (team : Uuid)
  | begin
  | commit
  | rollback
  /-- A statement inside a transaction. -/
  | tx (s : Stmt)
  deriving DecidableEq

/-- A query, inside a transaction or not. -/
def Stmt.isSelect : Stmt → Bool
  | .select _ => true
  | .tx s => s.isSelect
  | _ => false

/-- A data-modifying statement: its answer, the sequences after it and its writes, or the error that it
    raises. -/
abbrev Sql (β : Type) := Pg → Except BusError (β × Seqs × List Write)

def Sql.answer {β : Type} (s : Sql β) (pg : Pg) : Except BusError β := (s pg).map (·.1)

/-- The effect of a statement that commits on its own; a statement that raises an error has none. -/
def Sql.effect {β : Type} (s : Sql β) (pg : Pg) : Pg :=
  match s pg with
  | .ok (_, seqs, ws) => { pg with db := pg.db.write ws, seqs }
  | .error _ => pg

/-- A store function: it answers or fails with a `BusError`. -/
abbrev Bus := ExceptT BusError (Prog Stmt Pg)

/-- The whole call at once. -/
def Bus.exec {α : Type} (x : Bus α) (pg : Pg) : Except BusError α × Pg := Prog.run x.run pg

/-- A query on the pool. -/
def select {β : Type} (t : Table) (q : Pg → β) : Bus β :=
  ExceptT.mk (.act (.select t) (fun _ => true) id fun pg => .ret (.ok (q pg)))

/-- A data-modifying statement on the pool. -/
def execute {β : Type} (l : Stmt) (s : Sql β) : Bus β :=
  ExceptT.mk (.act l (fun _ => true) s.effect fun pg => .ret (s.answer pg))

/-- An open transaction: `now()` inside it, and its writes so far. -/
structure Tx where
  now : Time
  writes : List Write

/-- A connection of the pool, inside a transaction or not. -/
structure Conn where
  pid : Nat
  tx : Option Tx

namespace Conn
variable {β : Type}

/-- What a statement on the connection reads: the committed rows and those of its own transaction. -/
def view (c : Conn) (pg : Pg) : Pg :=
  match c.tx with
  | none => pg
  | some tx => { pg with db := pg.db.write tx.writes, now := tx.now }

def label (c : Conn) (l : Stmt) : Stmt :=
  match c.tx with
  | none => l
  | some _ => .tx l

def select (c : Conn) (t : Table) (q : Pg → β) : Bus β :=
  ExceptT.mk (.act (c.label (.select t)) (fun _ => true) id fun pg => .ret (.ok (q (c.view pg))))

/-- The row of `teams` that a statement locks, if it locks one. -/
abbrev LockOf := Option (Uuid × LockMode)

def ready (c : Conn) (lock : LockOf) (pg : Pg) : Bool :=
  match lock with
  | none => true
  | some (team, mode) => pg.canLock c.pid team mode

/-- The effect of a statement: in a transaction only the sequences move, and the lock is kept. -/
def effect (c : Conn) (lock : LockOf) (s : Sql β) (pg : Pg) : Pg :=
  match c.tx with
  | none => s.effect pg
  | some _ =>
    match s (c.view pg) with
    | .ok (_, seqs, _) =>
      { pg with seqs, teamLocks := pg.teamLocks ++ (lock.map fun l => ⟨c.pid, l.1, l.2⟩).toList }
    | .error _ => pg

/-- The answer of a statement and the connection after it. -/
def answer (c : Conn) (s : Sql β) (pg : Pg) : Except BusError (β × Conn) :=
  match s (c.view pg) with
  | .ok (b, _, ws) => .ok (b, { c with tx := c.tx.map fun tx => { tx with writes := tx.writes ++ ws } })
  | .error e => .error e

/-- A statement that may lock a row of `teams`: it waits until it can take the lock. -/
def execute (c : Conn) (l : Stmt) (lock : LockOf) (s : Sql β) : Bus (β × Conn) :=
  ExceptT.mk (.act (c.label l) (c.ready lock) (c.effect lock s) fun pg => .ret (c.answer s pg))

def begin (pid : Nat) : Bus Conn :=
  ExceptT.mk (.act .begin (fun _ => true) id fun pg => .ret (.ok ⟨pid, some ⟨pg.now, []⟩⟩))

/-- The locks of the connection are released. -/
def unlock (c : Conn) (pg : Pg) : Pg := { pg with teamLocks := pg.teamLocks.filter fun l => l.pid != c.pid }

def pending (c : Conn) : List Write :=
  match c.tx with
  | none => []
  | some tx => tx.writes

def commit (c : Conn) : Bus Unit :=
  ExceptT.mk (.act .commit (fun _ => true) (fun pg => c.unlock { pg with db := pg.db.write c.pending })
    fun _ => .ret (.ok ()))

def rollback (c : Conn) : Bus Unit :=
  ExceptT.mk (.act .rollback (fun _ => true) c.unlock fun _ => .ret (.ok ()))

end Conn

/-- The call goes on with the error at hand instead of returning it. -/
def attempt {α : Type} (x : Bus α) : Bus (Except BusError α) :=
  ExceptT.mk (Prog.bind x.run fun r => .ret (.ok r))

/-- A check that needs no statement. -/
def check {α : Type} : Except BusError α → Bus α
  | .ok a => pure a
  | .error e => throw e

/-- `pool.begin()`, the body, and `tx.commit()`. A body that fails drops the transaction, which rolls
    it back. -/
def transaction {α : Type} (pid : Nat) (body : Conn → Bus (α × Conn)) : Bus α := do
  let tx ← Conn.begin pid
  match ← attempt (body tx) with
  | .ok (a, tx) =>
    tx.commit
    return a
  | .error e =>
    Conn.rollback ⟨pid, none⟩
    throw e

end CrewSync
