import CrewSync.Calls
import CrewSync.Exec
import CrewSync.Lib.Broadcast

/-! A blocking call on a replica beside the server (`src/events.rs`). A commit leaves its notifications with
    the server; the listener of the replica publishes them to the hub one after the other, or loses some
    while its connection is re-established; the call takes one step at a time, at any time. -/

namespace CrewSync
open Broadcast

/-- Plenty for the events in flight. -/
def hubCapacity : Nat := 256

/-- The server, and the replica as the call in the state `me` sees it. -/
structure Net (φ : Type) where
  pg : Pg
  /-- The notifications that the listener has taken, published or lost. -/
  heard : Nat
  /-- The hub has no sender left. -/
  closed : Bool
  /-- The subscription of the call, once it has one. -/
  rx : Option (Receiver BusEvent)
  /-- The monotonic clock of the replica, in nanoseconds. -/
  clock : Nat
  deadline : Option Nat
  /-- The messages that the others had committed before the deadline. -/
  early : List Int
  me : φ

/-- What a blocked call does next: at the deadline `select!` may take either branch that is ready. -/
inductive Choice where
  | recv | timer
  deriving DecidableEq

namespace Net
variable {φ α : Type}

inductive Step where
  /-- An event of the server: a call, a command, the clock. -/
  | server (e : Event)
  /-- `hub.publish` of the next notification. -/
  | publish
  /-- The next notification is lost: the listener has no connection. -/
  | lose
  | close
  | elapse (d : Nat)
  /-- The call takes its next step. -/
  | call (c : Choice)

/-- The deadline of the call has not come, or is not set yet. -/
def beforeDeadline (s : Net φ) : Bool := s.deadline.all (s.clock < ·)

def subscribe (s : Net φ) : Net φ := { s with rx := some .subscribe }

/-- `rx.recv()`, unless it has to wait. -/
def recv (s : Net φ) : Option (Except RecvError BusEvent × Net φ) :=
  match s.rx.bind (·.recv s.closed) with
  | some (x, rx) => some (x, { s with rx := some rx })
  | none => none

/-- A database function of the call, and what the call does with the answer. -/
def query (s : Net φ) (x : Bus α) (fail : BusError → φ) (k : α → Net φ → Net φ) : Net φ :=
  match x.exec s.pg with
  | (.ok a, pg) => k a { s with pg }
  | (.error e, pg) => { s with pg, me := fail e }

/-- The notification that the listener takes next. -/
def upcoming (s : Net φ) : Option Payload := s.pg.db.notified[s.heard]?

def publish (s : Net φ) : Net φ :=
  match s.upcoming with
  | some fields =>
    if s.closed then s
    else { s with heard := s.heard + 1, rx := s.rx.map (·.send hubCapacity { fields }) }
  | none => s

/-- An event of the server. -/
def serve [Platform] (s : Net φ) (e : Event) : Net φ :=
  let pg := s.pg.next e
  { s with pg, early := if s.beforeDeadline then pg.db.messages.map (·.id) else s.early }

/-- The system after a step; `advance` is the call's own step. -/
def next [Platform] (advance : Net φ → Choice → Net φ) (s : Net φ) : Step → Net φ
  | .server e => s.serve e
  | .publish => s.publish
  | .lose => if s.upcoming.isSome then { s with heard := s.heard + 1 } else s
  | .close => { s with closed := true }
  | .elapse d => { s with clock := s.clock + d }
  | .call c => advance s c

/-- A call that has just come in, on a replica whose listener is `behind` by some notifications. -/
def start (pg : Pg) (behind clock : Nat) (me : φ) : Net φ :=
  { pg, heard := pg.db.notified.length - behind, closed := false, rx := none, clock, deadline := none
    early := pg.db.messages.map (·.id), me }

/-! ### What the steps do -/

section
variable {s : Net φ}

theorem query_ok {x : Bus α} {a : α} (h : x.exec s.pg = (.ok a, s.pg)) (fail : BusError → φ)
    (k : α → Net φ → Net φ) : s.query x fail k = k a s := by
  unfold query
  rw [h]

/-- A query goes on with its answer, or fails. -/
theorem query_cases {x : Bus α} {fail : BusError → φ} {k : α → Net φ → Net φ} {P : Net φ → Prop}
    (hok : ∀ a pg, x.exec s.pg = (.ok a, pg) → P (k a { s with pg })) (herr : ∀ e pg, P { s with pg, me := fail e }) :
    P (s.query x fail k) := by
  unfold query
  split
  · next h => exact hok _ _ h
  · exact herr _ _

theorem query_pg {x : Bus α} {fail : BusError → φ} {k : α → Net φ → Net φ} (hk : ∀ a t, (k a t).pg = t.pg) :
    (s.query x fail k).pg = (x.exec s.pg).2 := by
  unfold query
  split
  · next h => rw [hk, h]
  · next h => rw [h]

theorem query_readOnly {x : Bus α} (hx : Bus.ReadOnly x) {fail : BusError → φ} {k : α → Net φ → Net φ}
    (hk : ∀ a t, (k a t).pg = t.pg) : (s.query x fail k).pg = s.pg := by
  rw [query_pg hk, hx]

theorem recv_eq {x : Except RecvError BusEvent} {s' : Net φ} (hs : s.recv = some (x, s')) :
    ∃ r r', s.rx = some r ∧ r.recv s.closed = some (x, r') ∧ s' = { s with rx := some r' } := by
  unfold recv at hs
  cases hrx : s.rx with
  | none => rw [hrx] at hs; cases hs
  | some r =>
    rw [hrx] at hs
    cases hr : r.recv s.closed with
    | none => simp only [Option.bind_some, hr] at hs; cases hs
    | some p =>
      simp only [Option.bind_some, hr, Option.some.injEq, Prod.mk.injEq] at hs
      obtain ⟨rfl, rfl⟩ := hs
      exact ⟨r, p.2, rfl, hr, rfl⟩

theorem recv_later (clock : Nat) (h : s.recv = none) : ({ s with clock } : Net φ).recv = none := by
  unfold recv at h ⊢
  cases hr : s.rx.bind (·.recv s.closed) with
  | none => simp
  | some p => simp [hr] at h

theorem publish_eq (hopen : s.closed = false) : s.publish = s ∨
    ∃ fields, s.upcoming = some fields ∧
      s.publish = { s with heard := s.heard + 1, rx := s.rx.map (·.send hubCapacity { fields }) } := by
  unfold publish
  cases h : s.upcoming with
  | none => exact .inl rfl
  | some fields => exact .inr ⟨fields, rfl, by simp [hopen]⟩

theorem publish_same (s : Net φ) : s.publish.pg = s.pg ∧ s.publish.me = s.me := by
  unfold publish
  split
  · split <;> exact ⟨rfl, rfl⟩
  · exact ⟨rfl, rfl⟩

theorem beforeDeadline_elapse {d : Nat} (h : ({ s with clock := s.clock + d } : Net φ).beforeDeadline = true) :
    s.beforeDeadline = true := by
  unfold beforeDeadline at h ⊢
  cases hd : s.deadline with
  | none => rfl
  | some t =>
    simp only [hd, Option.all_some, decide_eq_true_eq] at h ⊢
    omega

end

end Net
end CrewSync
