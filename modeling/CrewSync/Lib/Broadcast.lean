import Mathlib.Data.List.Basic

/-! A broadcast channel of bounded capacity, as one of its receivers sees it. The channel keeps the last
    values; a receiver that falls behind loses the oldest ones, and learns that from its next `recv`. -/

namespace Broadcast

inductive RecvError where
  /-- Values were dropped. -/
  | lagged
  /-- All senders are gone, and every value was received. -/
  | closed
  deriving DecidableEq

/-- The values that the receiver has yet to see, the oldest first, and whether it has missed some. -/
structure Receiver (α : Type) where
  queue : List α
  missed : Bool
  deriving DecidableEq

namespace Receiver
variable {α : Type}

/-- A fresh subscription sees what is sent from now on. -/
def subscribe : Receiver α := { queue := [], missed := false }

def send (capacity : Nat) (r : Receiver α) (a : α) : Receiver α :=
  if r.queue.length < capacity then { r with queue := r.queue ++ [a] }
  else { queue := r.queue.tail ++ [a], missed := true }

/-- What `recv` returns, and the receiver after it; `none` while it has to wait. -/
def recv (closed : Bool) (r : Receiver α) : Option (Except RecvError α × Receiver α) :=
  if r.missed then some (.error .lagged, { r with missed := false })
  else
    match r.queue with
    | a :: queue => some (.ok a, { r with queue })
    | [] => if closed then some (.error .closed, r) else none

/-- A value with `p` is waiting, or the receiver is about to learn that it may have missed one. -/
def Pending (p : α → Prop) (r : Receiver α) : Prop := r.missed = true ∨ ∃ a ∈ r.queue, p a

variable {p : α → Prop} {r : Receiver α} {capacity : Nat} {closed : Bool}

instance [DecidablePred p] : Decidable (Pending p r) := inferInstanceAs (Decidable (_ ∨ _))

@[simp] theorem not_pending_subscribe : ¬ Pending p (subscribe : Receiver α) := by
  simp [Pending, subscribe]

theorem Pending.imp {q : α → Prop} (h : Pending p r) (hpq : ∀ a, p a → q a) : Pending q r :=
  Or.imp_right (fun ⟨a, ha, hpa⟩ => ⟨a, ha, hpq a hpa⟩) h

theorem Pending.send (h : Pending p r) (a : α) : Pending p (r.send capacity a) := by
  unfold Receiver.send
  split
  · refine Or.imp_right ?_ h
    rintro ⟨b, hb, hpb⟩
    exact ⟨b, List.mem_append_left _ hb, hpb⟩
  · exact .inl rfl

/-- The value that was sent is waiting, if it is one with `p`. -/
theorem pending_send {a : α} (h : p a) : Pending p (r.send capacity a) := by
  unfold Receiver.send
  split
  · exact .inr ⟨a, by simp, h⟩
  · exact .inl rfl

/-- A pending value is received, announced as missed, or still pending; the channel does not look closed. -/
theorem Pending.recv (h : Pending p r) {x : Except RecvError α} {r' : Receiver α}
    (hr : r.recv closed = some (x, r')) : x = .error .lagged ∨ ∃ a, x = .ok a ∧ (p a ∨ Pending p r') := by
  unfold Receiver.recv at hr
  split at hr
  · cases hr
    exact .inl rfl
  · next hmissed =>
    obtain h | ⟨a, ha, hpa⟩ := h
    · exact absurd h hmissed
    · cases hq : r.queue with
      | nil => rw [hq] at ha; cases ha
      | cons b queue =>
        rw [hq] at hr ha
        cases hr
        refine .inr ⟨b, rfl, ?_⟩
        obtain rfl | ha := List.mem_cons.1 ha
        · exact .inl hpa
        · exact .inr (.inr ⟨a, ha, hpa⟩)

/-- While a value is pending, `recv` does not wait. -/
theorem Pending.isSome_recv (h : Pending p r) (closed : Bool) : (r.recv closed).isSome := by
  unfold Receiver.recv
  split
  · rfl
  · next hmissed =>
    obtain h | ⟨a, ha, -⟩ := h
    · exact absurd h hmissed
    · cases hq : r.queue with
      | nil => rw [hq] at ha; cases ha
      | cons b queue => rfl

/-- How many times `recv` returns before it has to wait, or reports the end of the channel. -/
def backlog (r : Receiver α) : Nat := r.queue.length + r.missed.toNat

/-- Whatever `recv` returns before the end of the channel, there is less left. -/
theorem backlog_recv {x : Except RecvError α} {r' : Receiver α} (h : r.recv closed = some (x, r'))
    (hx : x ≠ .error .closed) : r'.backlog < r.backlog := by
  unfold Receiver.recv at h
  split at h
  · next hmissed =>
    cases h
    simp [backlog, hmissed]
  · split at h
    · next hq => cases h; simp [backlog, hq]
    · split at h
      · cases h
        exact absurd rfl hx
      · cases h

end Receiver
end Broadcast
