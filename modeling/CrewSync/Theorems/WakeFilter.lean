import CrewSync.Footprint.Calls

/-! The filters of the blocking calls, written twice: over the rows of `messages` in SQL and over the events of
    the trigger in Rust. The event of a message carries what both filters look at. -/

namespace CrewSync
variable [Platform]
open Platform

/-! ### The event of a message -/

/-- What the hub hands out for a message: the payload of `notify_message`. -/
def Message.event (m : Message) : BusEvent := { fields := notifyMessage m }

namespace Message
variable (m : Message)

@[simp] theorem event_kind : m.event.kind = "message" := rfl

@[simp] theorem event_messageId : m.event.messageId = some m.id := rfl

@[simp] theorem event_isAnnouncement : m.event.isAnnouncement = m.announce := rfl

@[simp] theorem event_recipientSession : m.event.recipientSession = m.recipientSession := by
  have h : m.event.get "recipient_session" = some (.opt .str m.recipientSession) := rfl
  simp only [BusEvent.recipientSession, BusEvent.text, h]
  cases m.recipientSession <;> rfl

@[simp] theorem event_senderSession : m.event.senderSession = m.senderSession := by
  have h : m.event.get "sender_session" = some (.opt .str m.senderSession) := rfl
  simp only [BusEvent.senderSession, BusEvent.text, h]
  cases m.senderSession <;> rfl

variable [Platform.Lawful]

@[simp] theorem event_teamId : m.event.teamId = some m.teamId := Lawful.parse_text m.teamId

@[simp] theorem event_senderAgentId : m.event.senderAgentId = some m.senderAgentId := Lawful.parse_text m.senderAgentId

/-- A nullable reference in a payload. -/
theorem uuidField_opt {e : BusEvent} {key : String} {u : Option Uuid} (h : e.get key = some (.opt .uuid u)) :
    e.uuidField key = u := by
  simp only [BusEvent.uuidField, BusEvent.text, h]
  cases u with
  | none => rfl
  | some u => exact Lawful.parse_text u

@[simp] theorem event_recipientAgentId : m.event.recipientAgentId = m.recipientAgentId := uuidField_opt rfl

@[simp] theorem event_channelId : m.event.channelId = m.channelId := uuidField_opt rfl

end Message

/-! ### The backlog and the wake filter -/

section
variable [Platform.Lawful] (auth : AuthCtx) (focus : Option Uuid) {m : Message}

/-- A direct message that another session of the caller sent, and that is not addressed to this one. -/
def sentElsewhere (m : Message) : Bool :=
  m.recipientAgentId.isSome && m.senderAgentId == auth.agentId && m.senderSession.getD "" != auth.session &&
    !Scope.inView auth false m

theorem inFocus_event : inFocus m.event focus =
    (m.announce || match focus, m.channelId with
      | some channel, some postedIn => channel == postedIn
      | _, _ => true) := by
  simp only [inFocus, Message.event_isAnnouncement, Message.event_channelId]
  cases m.announce <;> rfl

theorem visibleTo_event (session : String) (agent : Uuid) : m.event.visibleTo m.teamId agent session =
    (m.recipientAgentId.isNone || m.senderAgentId == agent ||
      m.recipientAgentId == some agent && addressedTo session m) := by
  simp only [BusEvent.visibleTo, BusEvent.isDirectMessage, Message.event_teamId, Message.event_kind,
    Message.event_recipientAgentId, Message.event_senderAgentId, Message.event_recipientSession, addressedTo]
  cases m.recipientAgentId with
  | none => simp
  | some recipient =>
    by_cases hs : m.senderAgentId = agent
    · simp [hs]
    · by_cases hr : recipient = agent
      · cases m.recipientSession <;> simp [hs, hr]
      · simp [hs, hr]

/-- The wake filter on the event of a message. -/
theorem qualifies_event {kinds : Option (List String)} (hk : wants kinds "message" = true)
    (hteam : m.teamId = auth.teamId) (hc : m.channelId.isSome ≠ m.recipientAgentId.isSome) :
    qualifies auth kinds focus m.event =
      (!(m.senderAgentId == auth.agentId && m.senderSession.getD "" == auth.session) &&
        ((m.channelId.isSome && (focus.isNone || m.channelId == focus || m.announce)) ||
          (m.recipientAgentId.isSome &&
            (m.senderAgentId == auth.agentId || m.recipientAgentId == some auth.agentId && addressedTo auth.session m)))) := by
  have hown : ownMessage auth m.event = (m.senderAgentId == auth.agentId && m.senderSession.getD "" == auth.session) := by
    simp [ownMessage]
  simp only [qualifies, ← hteam, visibleTo_event, inFocus_event, Message.event_kind, hk, hown, Bool.and_true]
  cases hchannel : m.channelId with
  | none =>
    have hsome : m.recipientAgentId.isSome = true := by
      rw [hchannel] at hc
      exact Bool.ne_false_iff.1 (Ne.symm hc)
    obtain ⟨r, hr⟩ := Option.isSome_iff_exists.1 hsome
    cases focus <;> simp [hr, Bool.and_comm]
  | some c =>
    have hr : m.recipientAgentId = none := by simpa [hchannel] using hc
    cases focus with
    | none => simp [hr]
    | some f =>
      have hcomm : (f == c) = (c == f) := by rw [Bool.beq_comm]
      simp [hr, hcomm, Bool.and_comm, Bool.or_comm]

/-- What the backlog counts, the wake filter lets through. -/
theorem qualifies_of_pending {pg : Pg} (hv : pg.Valid) {kinds : Option (List String)} (hk : wants kinds "message" = true)
    (hm : m ∈ pg.db.messages) {since : Int} (h : pendingFor auth focus since m = true) :
    qualifies auth kinds focus m.event = true := by
  simp only [pendingFor, Bool.and_eq_true, Bool.or_eq_true, beq_iff_eq, decide_eq_true_eq] at h
  obtain ⟨⟨⟨hteam, -⟩, hown⟩, hreach⟩ := h
  rw [qualifies_event auth focus hk hteam (hv.refs.targets m hm), hown, Bool.true_and]
  simp only [Bool.or_eq_true, Bool.and_eq_true, beq_iff_eq]
  obtain hchannel | ⟨hr, hs⟩ := hreach
  · exact .inl hchannel
  · exact .inr ⟨by rw [hr]; rfl, .inr ⟨hr, hs⟩⟩

/-- The two filters agree on a message exactly when it is not one that another session of the caller sent to
    someone else: the wake filter lets the sender's sessions see it, the backlog does not count it. -/
theorem filters_agree_iff {pg : Pg} (hpg : pg.Reachable) {kinds : Option (List String)} (hk : wants kinds "message" = true)
    (hm : m ∈ pg.db.messages) (hteam : m.teamId = auth.teamId)
    (hnew : pg.db.lastRead auth.agentId (cursorScope "all" auth.session) < m.id) :
    pendingFor auth focus (pg.db.lastRead auth.agentId (cursorScope "all" auth.session)) m =
        qualifies auth kinds focus m.event ↔
      sentElsewhere auth m = false := by
  have hc := hpg.valid.refs.targets m hm
  rw [qualifies_event auth focus hk hteam hc]
  simp only [pendingFor, sentElsewhere, Scope.inView, hteam, hnew, beq_self_eq_true, decide_true, Bool.true_and,
    Bool.false_or]
  cases hr : m.recipientAgentId with
  | none => simp
  | some r =>
    have hchannel : m.channelId = none := by simpa [hr] using hc
    by_cases hs : m.senderAgentId = auth.agentId
    · by_cases hss : m.senderSession.getD "" = auth.session <;> simp [hchannel, hs, hss]
    · by_cases hss : m.senderSession.getD "" = auth.session <;>
        simp [hchannel, hss, beq_eq_false_iff_ne.2 hs]

end
end CrewSync

namespace CrewSync
open Sample
attribute [local instance] Platform.ascii

/-- Ann asks bob's window `api` from her own window `api`. -/
def askedElsewhere : Pg :=
  (Pg.init 0).after (crew ++ [.call { ann with session := "api" } 0
    (.postMessage { channel := none, «to» := some "bob/api", announce := false, body := "ready?", replyTo := none
                    metadata := none, attachments := [] })])

/-- The question as it stands in the database. -/
def theQuestion : Message := askedElsewhere.db.messages.head (by decide)

theorem filters_agree_question :
    pendingFor bob none 0 theQuestion = qualifies bob none none theQuestion.event ↔ sentElsewhere bob theQuestion = false :=
  @filters_agree_iff Platform.ascii Platform.ascii_lawful bob none theQuestion askedElsewhere
    ((Pg.Reachable.init 0).after _) none rfl (by decide) (by decide) (by decide)

/-- Her general window does not find the question waiting, and wakes for it. -/
theorem filters_differ : ¬ ∀ (pg : Pg) (auth : AuthCtx) (focus : Option Uuid) (m : Message), pg.Reachable →
    auth.authentic pg.db = true → m ∈ pg.db.messages → m.teamId = auth.teamId →
    pg.db.lastRead auth.agentId (cursorScope "all" auth.session) < m.id →
    pendingFor auth focus (pg.db.lastRead auth.agentId (cursorScope "all" auth.session)) m =
      qualifies auth none focus m.event := by
  intro h
  have := h askedElsewhere ann none theQuestion ((Pg.Reachable.init 0).after _) (by decide) (by decide) (by decide)
    (by decide)
  revert this
  decide

end CrewSync
