import CrewSync.Theorems.Wakeups

/-! Notifications that are lost during a wait: a message that the backlog counts is found again only by its
    event, because the call looks into the database once. -/

namespace CrewSync.Waiting
open Broadcast
variable [Platform] (auth : AuthCtx) (input : WaitInput)

/-- `unread_anything` counts the message now. -/
def unread (s : Net Waiting) (m : Message) : Bool :=
  pendingFor auth s.me.focus (s.pg.db.lastRead auth.agentId (cursorScope "all" auth.session)) m

/-- A message that was committed before the deadline and is unread when the call returns has woken it. -/
def Recovered (s : Net Waiting) : Prop :=
  ∀ w, s.me.pc = .done (.ok w) → wants input.kinds "message" = true →
    (∃ m ∈ s.pg.db.messages, m.id ∈ s.early ∧ unread auth s m = true) → w.woke = true

/-- The event of a message that passes the filter of the call. -/
def passes (s : Net Waiting) (e : BusEvent) : Bool :=
  e.kind == "message" && qualifies auth input.kinds s.me.focus e

/-- The step does not lose such an event while the call waits for it: the listener takes it to the hub, the
    hub stays, and the timer does not overtake it, queued or on its way since before the deadline. -/
def keepsEvents (s : Net Waiting) : Net.Step → Bool
  | .lose => !s.me.pc.waits || s.upcoming.all fun fields => !passes auth input s { fields }
  | .close => false
  | .call .timer =>
    match s.me.pc with
    | .select => s.beforeDeadline ||
        !(s.rx.any fun r => decide (r.Pending (passes auth input s · = true))) &&
          (s.pg.db.notified.drop s.heard).all fun fields =>
            !(passes auth input s { fields } && (BusEvent.mk fields).messageId.any (s.early.contains ·))
    | _ => true
  | _ => true

/-- What the call still has to hear of a message. -/
def Counted (s : Net Waiting) (m : Message) : Prop := m.id ∈ s.early ∧ unread auth s m = true

/-- The notification of the message is on its way to the hub. -/
def OnWay (s : Net Waiting) (m : Message) : Prop := notifyMessage m ∈ s.pg.db.notified.drop s.heard

/-- What a run keeps that loses no event. -/
structure Followed (s : Net Waiting) : Prop extends Base s where
  heardLe : s.heard ≤ s.pg.db.notified.length
  earlyLe : ∀ i ∈ s.early, i ≤ s.pg.seqs.messages
  earlyAll : s.beforeDeadline = true → ∀ m ∈ s.pg.db.messages, m.id ∈ s.early
  sure : ∀ m ∈ s.pg.db.messages, Sure m (Counted auth s m) (OnWay s m) s

variable {auth input} {s : Net Waiting} {m m' : Message} {U W : Prop}

theorem Sure.same (h : Sure m U W s) (hsame : m.Same m') : Sure m' U W s := by
  have hevent : m'.event = m.event := by simp only [Message.event, hsame.notify]
  unfold Sure Queued at h ⊢
  rwa [hevent]

omit [Platform] in
theorem unread_same (hsame : m.Same m') : unread auth s m' = unread auth s m := by
  rw [hsame]
  rfl

omit [Platform] in
/-- A message that is counted after an event of the server was counted before it. -/
theorem unread_of_later {t : Net Waiting} (hfocus : t.me.focus = s.me.focus)
    (hread : s.pg.db.lastRead auth.agentId (cursorScope "all" auth.session) ≤
      t.pg.db.lastRead auth.agentId (cursorScope "all" auth.session)) (h : unread auth t m = true) :
    unread auth s m = true := by
  unfold unread pendingFor at h ⊢
  rw [hfocus] at h
  simp only [Bool.and_eq_true, decide_eq_true_eq] at h ⊢
  exact ⟨⟨⟨h.1.1.1, hread.trans_lt h.1.1.2⟩, h.1.2⟩, h.2⟩

/-- The event of a counted message passes the filter. -/
theorem passes_event [Platform.Lawful] (hv : s.pg.Valid) (hw : wants input.kinds "message" = true)
    (hm : m ∈ s.pg.db.messages) (h : unread auth s m = true) : passes auth input s m.event = true := by
  rw [passes, Message.event_kind, beq_self_eq_true, Bool.true_and]
  exact qualifies_of_pending auth s.me.focus hv hw hm h

/-- An event of the server. -/
theorem Followed.serve (h : Followed auth s) (e : Event) : Followed auth (s.serve e) := by
  have hbase : Base (s.serve e) := h.toBase.env rfl (h.valid.next e) h.isOpen id rfl id
  obtain ⟨ns, hns, htold⟩ := Pg.next_told h.valid e
  have hids := Pg.next_ids h.valid e
  have hbefore := Pg.next_before h.valid e
  have hread := Pg.next_lastRead h.valid e auth.agentId (cursorScope "all" auth.session)
  have hearly : ∀ i ∈ (s.serve e).early, s.beforeDeadline = true ∨ i ∈ s.early := by
    intro i hi
    cases hd : s.beforeDeadline with
    | true => exact .inl rfl
    | false =>
      simp only [Net.serve, hd] at hi
      exact .inr hi
  refine { toBase := hbase, heardLe := ?_, earlyLe := fun i hi => ?_, earlyAll := fun hd m hm => ?_, sure := fun m' hm' => ?_ }
  · change s.heard ≤ (s.pg.next e).db.notified.length
    rw [hns, List.length_append]
    exact h.heardLe.trans (Nat.le_add_right _ _)
  · obtain hd | hi := hearly i hi
    · simp only [Net.serve, hd, if_true] at hi
      obtain ⟨m, hm, rfl⟩ := List.mem_map.1 hi
      exact (h.valid.next e).keys.messagesBelow m hm
    · exact (h.earlyLe i hi).trans hbefore.messages
  · have hd : s.beforeDeadline = true := hd
    simp only [Net.serve, hd, if_true]
    exact List.mem_map_of_mem hm
  · have hway : OnWay s m' → OnWay (s.serve e) m' := fun hw => by
      change notifyMessage m' ∈ (s.pg.next e).db.notified.drop s.heard
      rw [hns, List.drop_append_of_le_length h.heardLe]
      exact List.mem_append_left _ hw
    obtain ⟨m, hm, hsame⟩ | hnew := hids m' hm'
    · -- The message was there.
      refine ((h.sure m hm).same hsame).imp rfl (fun hU => ?_) fun _ _ hq => hq.imp_right fun hw => hway ?_
      · refine ⟨?_, unread_same hsame ▸ unread_of_later (t := s.serve e) rfl hread hU.2⟩
        have hid : m'.id = m.id := by rw [hsame]
        obtain hd | hi := hearly _ hU.1
        · exact h.earlyAll hd m hm
        · exact hid ▸ hi
      · unfold OnWay at hw ⊢
        rwa [hsame.notify]
    · -- The message is new: its notification is on the way.
      have hnotice : notifyMessage m' ∈ ns := by
        obtain ⟨m, hm, hsame⟩ | hn := htold m' hm'
        · have hid : m'.id = m.id := by rw [hsame]
          have : m.id ≤ s.pg.seqs.messages := h.valid.keys.messagesBelow m hm
          omega
        · exact hn
      refine (h.late m').imp rfl (fun hU => ?_) fun _ _ _ => .inr ?_
      · obtain hd | hi := hearly _ hU.1
        · exact hd
        · have := h.earlyLe _ hi
          omega
      · change notifyMessage m' ∈ (s.pg.next e).db.notified.drop s.heard
        rw [hns, List.drop_append_of_le_length h.heardLe]
        exact List.mem_append_right _ hnotice

/-- The listener takes a notification to the hub. -/
theorem Followed.publish (h : Followed auth s) : Followed auth s.publish := by
  obtain heq | ⟨fields, hup, heq⟩ := Net.publish_eq h.isOpen
  · rwa [heq]
  have hlt : s.heard < s.pg.db.notified.length := (List.getElem?_eq_some_iff.1 hup).1
  have hbase : Base s.publish := by
    rw [heq]
    exact h.toBase.env rfl h.valid h.isOpen (by simp) rfl id
  rw [heq] at hbase ⊢
  refine { toBase := hbase, heardLe := hlt, earlyLe := h.earlyLe, earlyAll := h.earlyAll, sure := fun m hm => ?_ }
  refine (h.sure m hm).imp rfl id fun hwaits _ hq => ?_
  obtain ⟨r, hr⟩ := Option.isSome_iff_exists.1 (h.subscribed (by revert hwaits; cases s.me.pc <;> simp [Pc.waits, Pc.subscribed]))
  obtain hq | hw := hq
  · exact .inl hq.send
  · -- The notification is the one that is published, or it comes later.
    unfold OnWay at hw ⊢
    rw [List.drop_eq_getElem_cons hlt] at hw
    obtain hw | hw := List.mem_cons.1 hw
    · have hfields : fields = notifyMessage m := by
        rw [hw]
        exact (List.getElem?_eq_some_iff.1 hup).2.symm
      subst hfields
      exact .inl ⟨_, by rw [hr]; rfl, Receiver.pending_send rfl⟩
    · exact .inr hw

/-- The listener loses a notification that the call does not wait for. -/
theorem Followed.lose (h : Followed auth s) (hw : wants input.kinds "message" = true) [Platform.Lawful]
    (hlost : keepsEvents auth input s .lose = true) (hup : s.upcoming.isSome = true) :
    Followed auth { s with heard := s.heard + 1 } := by
  obtain ⟨fields, hup⟩ := Option.isSome_iff_exists.1 hup
  have hlt : s.heard < s.pg.db.notified.length := (List.getElem?_eq_some_iff.1 hup).1
  have hbase : Base { s with heard := s.heard + 1 } := h.toBase.env rfl h.valid h.isOpen id rfl id
  refine { toBase := hbase, heardLe := hlt, earlyLe := h.earlyLe, earlyAll := h.earlyAll, sure := fun m hm => ?_ }
  refine (h.sure m hm).imp rfl id fun hwaits hU hq => hq.imp_right fun hway => ?_
  unfold OnWay at hway ⊢
  rw [List.drop_eq_getElem_cons hlt] at hway
  obtain heq | hway := List.mem_cons.1 hway
  · exfalso
    have hfields : fields = notifyMessage m := by
      rw [heq]
      exact (List.getElem?_eq_some_iff.1 hup).2.symm
    simp only [keepsEvents, hwaits, hup, hfields, Bool.not_true, Bool.false_or, Option.all_some,
      Bool.not_eq_true'] at hlost
    exact absurd (passes_event h.valid hw hm hU.2) (Bool.not_eq_true _ ▸ hlost)
  · exact hway

/-- A step of the call. -/
theorem Followed.call (h : Followed auth s) (hw : wants input.kinds "message" = true) [Platform.Lawful] {c : Choice}
    (hkeeps : keepsEvents auth input s (.call c) = true) : Followed auth (advance auth input s c) := by
  have hbase := h.toBase.call auth input c
  have hsure : ∀ m ∈ s.pg.db.messages, Sure m (Counted auth s m) (OnWay s m) (advance auth input s c) := by
    intro m hm
    refine (h.sure m hm).advance (fun _ => hw) h.valid (fun _ => .inr hm) h.isOpen (fun _ hU => .inr hU.2)
      (fun _ hU => .inr (qualifies_of_pending auth s.me.focus h.valid hw hm hU.2)) c fun hc hp hd hU => ?_
    have hpass := passes_event h.valid hw hm hU.2
    subst hc
    simp only [keepsEvents, hp, hd, Bool.false_or, Bool.and_eq_true, Bool.not_eq_true', List.all_eq_true] at hkeeps
    obtain ⟨hqueued, hway⟩ := hkeeps
    constructor
    · rintro ⟨r, hr, hpending⟩
      have hr : s.rx = some r := hr
      rw [hr, Option.any_some, decide_eq_false_iff_not] at hqueued
      exact hqueued (hpending.imp fun e heq => heq ▸ hpass)
    · intro hin
      have := hway _ hin
      rw [Bool.and_eq_false_iff] at this
      obtain hn | hn := this
      · exact absurd hpass (Bool.not_eq_true _ ▸ hn)
      · have hid : (BusEvent.mk (notifyMessage m)).messageId = some m.id := rfl
        rw [hid, Option.any_some, List.contains_iff_mem.2 hU.1] at hn
        cases hn
  have hstage := advance_stage auth input s c
  obtain ⟨rx, deadline, me, heq, hdeadline, hfocus, -⟩ := advance_eq auth input s c
  rw [heq] at hbase hsure hstage ⊢
  refine { toBase := hbase, heardLe := h.heardLe, earlyLe := h.earlyLe, earlyAll := ?_, sure := fun m hm => ?_ }
  · -- Up to the backlog check the deadline is not set.
    intro hd m hm
    refine h.earlyAll ?_ m hm
    by_cases hp : s.me.pc = .checkBacklog
    · simp [Net.beforeDeadline, h.untimed (by rw [hp]; decide)]
    · rwa [hdeadline hp] at hd
  · by_cases hp : s.me.pc = .resolveFocus
    · have hnext : me.pc.stage = 1 := (hstage.1 (by rw [hp]; decide)).trans (by rw [hp]; rfl)
      unfold Sure
      cases hpc : me.pc <;> simp [hpc, Pc.stage] at hnext ⊢
    · refine (hsure m hm).imp rfl (fun hU => ⟨hU.1, ?_⟩) fun _ _ hq => hq
      have := hU.2
      unfold unread at this ⊢
      rwa [hfocus hp] at this

variable [Platform.Lawful]

theorem Followed.next (h : Followed auth s) (hw : wants input.kinds "message" = true) {e : Net.Step}
    (he : keepsEvents auth input s e = true) : Followed auth (next auth input s e) := by
  cases e with
  | server e => exact h.serve e
  | publish => exact h.publish
  | lose =>
    change Followed auth (if s.upcoming.isSome then { s with heard := s.heard + 1 } else s)
    split
    · next hup => exact h.lose hw he hup
    · exact h
  | close => cases he
  | elapse d =>
    exact {
      toBase := h.toBase.next auth input (by simp)
      heardLe := h.heardLe
      earlyLe := h.earlyLe
      earlyAll := fun hd => h.earlyAll (Net.beforeDeadline_elapse hd)
      sure := fun m hm => (h.sure m hm).imp rfl id fun _ _ hq => hq }
  | call c => exact h.call hw he

omit [Platform.Lawful] in
theorem Followed.start {pg : Pg} (hv : pg.Valid) (behind clock : Nat) : Followed auth (.start pg behind clock begin) where
  toBase := .start hv behind clock
  heardLe := Nat.sub_le _ _
  earlyLe i hi := by
    obtain ⟨m, hm, rfl⟩ := List.mem_map.1 hi
    exact hv.keys.messagesBelow m hm
  earlyAll _ m hm := List.mem_map_of_mem hm
  sure _ _ := trivial

/-- A call that loses no event it waits for wakes for every message that was committed in time. -/
theorem lost_recovered {pg : Pg} (hpg : pg.Reachable) (behind clock : Nat) (auth : AuthCtx) (input : WaitInput)
    (es : List Net.Step)
    (hkeeps : Runs.Along (next auth input) (fun s e => keepsEvents auth input s e = true)
      (.start pg behind clock begin) es) :
    Recovered auth input (Runs.after (next auth input) (.start pg behind clock begin) es) := by
  intro w hdone hw ⟨m, hm, hcounted⟩
  have h := hkeeps.invariant (I := Followed auth) (.start hpg.valid behind clock) fun _ _ he h => h.next hw he
  have hsure := h.sure m hm
  unfold Sure at hsure
  rw [hdone] at hsure
  obtain ⟨w', hw', hwoke⟩ := hsure
  cases hw'
  exact hwoke.resolve_right (not_not_intro hcounted)

end CrewSync.Waiting

namespace CrewSync
open Sample
attribute [local instance] Platform.ascii

namespace Waiting

/-- Bob's message reaches ann before her deadline. -/
theorem received_recovered : Recovered ann anything (Runs.after (next ann anything) (.start team 0 0 begin)
    (published ++ [.call .recv, .call .recv, .elapse graceWindow, .call .recv, .call .recv])) :=
  @lost_recovered Platform.ascii Platform.ascii_lawful team ((Pg.Reachable.init 0).after _) 0 0 ann anything _ (by decide)

/-- The notification of bob's message is lost, and ann's wait times out with the message in her backlog. -/
theorem lost_unnoticed : ¬ ∀ (pg : Pg) (behind clock : Nat) (auth : AuthCtx) (input : WaitInput) (es : List Net.Step),
    pg.Reachable → Recovered auth input (Runs.after (next auth input) (.start pg behind clock begin) es) := by
  intro h
  have := h team 0 0 ann anything
    [.call .recv, .call .recv, .call .recv, .server note, .lose, .elapse (durationSecs 25), .call .timer, .call .recv]
    ((Pg.Reachable.init 0).after _) (result [] 1) rfl (by decide) ⟨noted, by decide, by decide, by decide⟩
  revert this
  decide

end Waiting
end CrewSync
