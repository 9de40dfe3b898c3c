import CrewSync.Theorems.Waiting

/-! `wait_for_updates` returns when it is left to itself; with what wakes it, no wakeup is lost between the check of the
    backlog and the wait. -/

namespace CrewSync
open Broadcast
variable [Platform]

namespace Waiting
variable {auth : AuthCtx} {input : WaitInput} {m : Message} {s : Net Waiting}

/-! ### The call returns -/

section
variable (auth input)

/-- A step of the call alone, with the timer in its place. -/
def alone (s : Net Waiting) : Net.Step → Bool
  | .call c => !overtaken auth input s (.call c)
  | .elapse _ => true
  | _ => false

/-- Left to itself, the call returns. -/
def Returns (s : Net Waiting) : Prop :=
  ∃ es, Runs.Along (next auth input) (fun s e => alone auth input s e = true) s es ∧
    ∃ r, (Runs.after (next auth input) s es).me.pc = .done r

end

theorem fair_of_alone {e : Net.Step} (h : alone auth input s e = true) (ha : accepted auth input m s e = true) :
    Fair auth input m s e where
  delivers := by
    cases e <;> first | rfl | cases h
  accepted := ha
  inTime := by
    cases e with
    | call c => simpa [alone] using h
    | _ => rfl

/-- How often the subscription answers at once. -/
def backlog (s : Net Waiting) : Nat := (s.rx.map (·.backlog)).getD 0

namespace Returns

theorem step (e : Net.Step) (he : alone auth input s e = true) (h : Returns auth input (next auth input s e)) :
    Returns auth input s := by
  obtain ⟨es, hes, hr⟩ := h
  exact ⟨e :: es, ⟨he, hes⟩, hr⟩

/-- A step that is not at the `select!`. -/
theorem call {c : Choice} (hpc : s.me.pc ≠ .select) (h : Returns auth input (advance auth input s c)) :
    Returns auth input s := by
  refine step (.call c) ?_ h
  unfold alone overtaken
  cases c with
  | recv => rfl
  | timer =>
    cases hp : s.me.pc with
    | select => exact absurd hp hpc
    | _ => simp

theorem done {r : Except BusError WaitResult} (hpc : s.me.pc = .done r) : Returns auth input s :=
  ⟨[], trivial, r, hpc⟩

theorem leave (hpc : s.me.pc = .leave) : Returns auth input s := by
  refine call (c := .recv) (by simp [hpc]) (done (r := .ok (result s.me.events (unreadInbox auth s.pg.db))) ?_)
  simp [Waiting.advance, hpc, unreadDms, Net.query_ok (Bus.exec_select _ _), goto]

omit [Platform] in
theorem backlog_recv {e : BusEvent} {s' : Net Waiting} (h : s.recv = some (.ok e, s')) : backlog s' < backlog s := by
  obtain ⟨r, r', hrx, hr, rfl⟩ := Net.recv_eq h
  simpa [backlog, hrx] using Receiver.backlog_recv hr (by simp)

theorem describeMore {e : BusEvent} {till : Nat} (hpc : s.me.pc = .describeMore till e)
    (h : ∀ me : Waiting, me.pc = .grace till → Returns auth input { s with me }) : Returns auth input s := by
  obtain ⟨d, hd⟩ := describe_exec e s.pg
  refine call (c := .recv) (by simp [hpc]) ?_
  simp only [Waiting.advance, hpc, Net.query_ok hd]
  exact h _ rfl

/-- In the grace window: what is queued is received, then the window closes. -/
theorem grace {n till : Nat} (hn : backlog s ≤ n) (hpc : s.me.pc = .grace till) : Returns auth input s := by
  induction n using Nat.strong_induction_on generalizing s with
  | _ n ih =>
  cases hrecv : s.recv with
  | none =>
    -- The clock passes the end of the window.
    refine step (.elapse (till - s.clock)) rfl (call (c := .recv) (by simp [Net.next, hpc]) (leave ?_))
    have hrecv := Net.recv_later (s.clock + (till - s.clock)) hrecv
    have htill : ¬ s.clock + (till - s.clock) < till := by omega
    simp [Waiting.advance, Net.next, hpc, hrecv, htill, goto]
  | some p =>
    obtain ⟨x, s'⟩ := p
    refine call (c := .recv) (by simp [hpc]) ?_
    have heq : advance auth input s .recv = { s' with me := receiveMore auth input s'.me till x } := by
      simp [Waiting.advance, hpc, hrecv]
    rw [heq]
    cases x with
    | error x => exact leave rfl
    | ok e =>
      have hlt := backlog_recv hrecv
      obtain ⟨r, r', -, -, rfl⟩ := Net.recv_eq hrecv
      simp only [receiveMore]
      split
      · exact describeMore rfl fun me hme => ih _ (hlt.trans_le hn) le_rfl hme
      · exact ih _ (hlt.trans_le hn) le_rfl hpc

theorem describe {e : BusEvent} (hpc : s.me.pc = .describe e)
    (h : Returns auth input { s with me := s.me.goto .select }) : Returns auth input s := by
  obtain ⟨d, hd⟩ := describe_exec e s.pg
  refine call (c := .recv) (by simp [hpc]) ?_
  simp only [Waiting.advance, hpc, Net.query_ok hd]
  cases d with
  | some d => exact grace le_rfl rfl
  | none => exact h

/-- At the `select!`: what is queued is received, then the deadline comes. -/
theorem select {n : Nat} (hn : backlog s ≤ n) (hl : Live s) (hpc : s.me.pc = .select) : Returns auth input s := by
  induction n using Nat.strong_induction_on generalizing s with
  | _ n ih =>
  cases hrecv : s.recv with
  | none =>
    obtain ⟨deadline, hd⟩ := Option.isSome_iff_exists.1 (hl.timed (by rw [hpc]; rfl))
    obtain ⟨r, hr⟩ := Option.isSome_iff_exists.1 (hl.subscribed (by rw [hpc]; rfl))
    have hlate : ({ s with clock := s.clock + (deadline - s.clock) } : Net Waiting).beforeDeadline = false := by
      simp only [Net.beforeDeadline, hd, Option.all_some, decide_eq_false_iff_not]
      omega
    refine step (.elapse (deadline - s.clock)) rfl (step (.call .timer) ?_ (leave ?_))
    · -- Nothing is queued when the timer is taken.
      have hempty : ¬ r.Pending (qualifies auth input.kinds s.me.focus · = true) := by
        intro hp
        have := hp.isSome_recv s.closed
        cases hrr : r.recv s.closed with
        | none => simp [hrr] at this
        | some p => simp [Net.recv, hr, hrr] at hrecv
      simp [alone, overtaken, Net.next, hpc, hr, hempty]
    · simp [Waiting.advance, Net.next, hpc, hlate, goto]
  | some p =>
    obtain ⟨x, s'⟩ := p
    refine step (.call .recv) rfl ?_
    have heq : advance auth input s .recv = { s' with me := receive auth input s'.me x } := by
      simp [Waiting.advance, hpc, hrecv]
    simp only [Waiting.next, Net.next, heq]
    cases x with
    | error x => cases x <;> exact leave rfl
    | ok e =>
      have hlt := backlog_recv hrecv
      obtain ⟨r, r', -, -, rfl⟩ := Net.recv_eq hrecv
      have again : ∀ me : Waiting, me.pc = .select → Returns auth input { s with rx := some r', me } := fun me hme =>
        ih _ (hlt.trans_le hn) le_rfl (hl.again (by rw [hpc]; rfl) rfl hme) hme
      simp only [receive]
      split
      · exact describe rfl (again _ rfl)
      · exact again _ hpc

theorem found {n : Int} (hpc : s.me.pc = .found n) : Returns auth input s := by
  refine call (c := .recv) (by simp [hpc]) (done (r := .ok (backlogResult n (unreadInbox auth s.pg.db))) ?_)
  simp [Waiting.advance, hpc, unreadDms, Net.query_ok (Bus.exec_select _ _), goto]

theorem checkBacklog (hl : Live s) (hpc : s.me.pc = .checkBacklog) : Returns auth input s := by
  refine call (c := .recv) (by simp [hpc]) ?_
  obtain ⟨n, hn⟩ | ⟨hn, -⟩ := advance_checkBacklog auth input s .recv hpc
  · exact found hn
  · exact select le_rfl (hl.advance auth input .recv) hn

theorem subscribe (hl : Live s) (hpc : s.me.pc = .subscribe) : Returns auth input s :=
  call (c := .recv) (by simp [hpc])
    (checkBacklog (hl.advance auth input .recv) (by simp [Waiting.advance, hpc, goto]))

/-- Wherever the call is. -/
theorem of_live (hl : Live s) : Returns auth input s := by
  cases hpc : s.me.pc with
  | resolveFocus =>
    obtain ⟨focus, hf⟩ := focusOf_exec auth input.allChannels s.pg
    exact call (c := .recv) (by simp [hpc])
      (subscribe (hl.advance auth input .recv) (by simp [Waiting.advance, hpc, Net.query_ok hf]))
  | subscribe => exact subscribe hl hpc
  | checkBacklog => exact checkBacklog hl hpc
  | found n => exact found hpc
  | select => exact select le_rfl hl hpc
  | describe e =>
    exact describe hpc (select le_rfl (hl.again (by rw [hpc]; rfl) (hl.subscribed (by rw [hpc]; rfl)) rfl) rfl)
  | grace till => exact grace le_rfl hpc
  | describeMore till e => exact describeMore hpc fun me hme => grace le_rfl hme
  | leave => exact leave hpc
  | done r => exact done hpc

end Returns

/-! ### No wakeup is lost between the check and the wait -/

/-- Whatever the interleaving, a message that reaches the call in time wakes it, as long as no event is
    overtaken by the timer: the call never returns without having woken, and it returns. -/
theorem no_lost_wakeup {pg : Pg} (hpg : pg.Reachable) (behind clock : Nat) (auth : AuthCtx) (input : WaitInput)
    (m : Message) (es : List Net.Step)
    (hfair : Runs.Along (next auth input) (Fair auth input m) (.start pg behind clock begin) es)
    (hreach : Runs.Sometime (next auth input) (fun s e => reaches m s e = true) (.start pg behind clock begin) es) :
    let s := Runs.after (next auth input) (.start pg behind clock begin) es
    (∀ r, s.me.pc = .done r → ∃ w, r = .ok w ∧ w.woke = true) ∧
      ∃ es', Runs.Along (next auth input) (fun s e => alone auth input s e = true) s es' ∧
        (Runs.Along (next auth input) (fun s e => accepted auth input m s e = true) s es' →
          ∃ w, (Runs.after (next auth input) s es').me.pc = .done (.ok w) ∧ w.woke = true) := by
  intro s
  have hkept : Kept auth input m s := hfair.invariant (Kept.start hpg.valid behind clock) fun _ _ he h => h.next he
  have hsure : m ∈ s.pg.db.messages ∧ Sure m True False s :=
    hfair.since (J := fun s => m ∈ s.pg.db.messages ∧ Sure m True False s) hreach
      (Kept.start hpg.valid behind clock) (fun _ _ he h => h.next he)
      (fun _ _ he h hr => h.sure_of_reaches he hr) fun _ _ he h hs => h.next_sure he hs.1 hs.2
  have woken : ∀ {s : Net Waiting} {r}, Sure m True False s → s.me.pc = .done r → ∃ w, r = .ok w ∧ w.woke = true := by
    intro s r hs hr
    unfold Sure at hs
    rw [hr] at hs
    obtain ⟨w, hw, h⟩ := hs
    exact ⟨w, hw, h.resolve_right (not_not_intro trivial)⟩
  refine ⟨fun r hr => woken hsure.2 hr, ?_⟩
  obtain ⟨es', halone, r, hr⟩ : Returns auth input s := .of_live hkept.toLive
  refine ⟨es', halone, fun haccepted => ?_⟩
  -- The rest of the run is fair too.
  have hfair' := (halone.and haccepted).imp fun s e h => fair_of_alone h.1 h.2
  have hsure' := hfair'.invariant (I := fun s => Kept auth input m s ∧ m ∈ s.pg.db.messages ∧ Sure m True False s)
    ⟨hkept, hsure⟩ fun _ _ he h => ⟨h.1.next he, h.1.next_sure he h.2.1 h.2.2⟩
  obtain ⟨w, rfl, hw⟩ := woken hsure'.2.2 hr
  exact ⟨w, hr, hw⟩

end Waiting

end CrewSync

namespace CrewSync
open Sample
attribute [local instance] Platform.ascii

namespace Sample

/-- Ann and bob, before any message. -/
def team : Pg := (Pg.init 0).after crew

/-- Bob writes to ann. -/
def note : Event :=
  .call bob 0 (.postMessage { channel := none, «to» := some "ann", announce := false, body := "done", replyTo := none
                              metadata := none, attachments := [] })

/-- His message as it is stored. -/
def noted : Message := (team.next note).db.messages.head (by decide)

/-- Ann waits for whatever comes. -/
def anything : WaitInput := { timeoutSeconds := none, kinds := none, allChannels := false }

/-- Ann resolves her focus, subscribes and finds no backlog; then bob's message is committed and published. -/
def published : List Net.Step := [.call .recv, .call .recv, .call .recv, .server note, .publish]

end Sample

namespace Waiting

/-- Ann receives the event in time. -/
theorem received_woken : ∃ w, (Runs.after (next ann anything) (.start team 0 0 begin)
    (published ++ [.call .recv, .call .recv, .elapse graceWindow, .call .recv, .call .recv])).me.pc = .done (.ok w) ∧
      w.woke = true := by
  obtain ⟨w, hw, hwoke⟩ := (@no_lost_wakeup Platform.ascii team ((Pg.Reachable.init 0).after _) 0 0 ann anything noted
    (published ++ [.call .recv, .call .recv, .elapse graceWindow, .call .recv, .call .recv]) (by decide) (by decide)).1
    (.ok (result [{ kind := "message", summary := "bob → @ann: done" }] 1)) rfl
  cases hw
  exact ⟨_, rfl, hwoke⟩

/-- The event is in ann's subscription when the deadline comes, and the timer is taken first. -/
theorem overtaken_lost : ¬ ∀ (pg : Pg) (behind clock : Nat) (auth : AuthCtx) (input : WaitInput) (m : Message)
    (es : List Net.Step), pg.Reachable →
    Runs.Along (next auth input) (fun s e => delivers e = true ∧ accepted auth input m s e = true)
      (.start pg behind clock begin) es →
    Runs.Sometime (next auth input) (fun s e => reaches m s e = true) (.start pg behind clock begin) es →
    ∀ r, (Runs.after (next auth input) (.start pg behind clock begin) es).me.pc = .done r →
      ∃ w, r = .ok w ∧ w.woke = true := by
  intro h
  obtain ⟨w, hw, hwoke⟩ := h team 0 0 ann anything noted (published ++ [.elapse (durationSecs 25), .call .timer, .call .recv])
    ((Pg.Reachable.init 0).after _) (by decide) (by decide) (.ok (result [] 1)) rfl
  cases hw
  revert hwoke
  decide

end Waiting
end CrewSync
