import CrewSync.Theorems.WakeFilter

/-! The payload of a notification as the text that the trigger writes and the listener parses. -/

namespace CrewSync

/-! ### The text -/

theorem Scalar.ofJson_toJson (v : Scalar) : Scalar.ofJson v.toJson = v := by
  cases v with
  | null => rfl
  | bool b => rfl
  | num n => rfl
  | str s => exact congrArg Scalar.str String.ofList_toList

/-- A payload with distinct names reaches the hub as it was built. -/
theorem parse_payloadText {p : Payload} (h : (p.map (·.1)).Nodup) : BusEvent.parse (payloadText p) = some { fields := p } := by
  have hnames : ((p.map fun m => (m.1.toList, m.2.toJson)).map (·.1)).Nodup := by
    have hinj := h.map (f := String.toList) fun a b hab => String.toList_inj.1 hab
    rw [List.map_map] at hinj ⊢
    exact hinj
  simp only [BusEvent.parse, payloadText, String.toList_ofList]
  rw [Json.parse_text hnames, Option.map_some, List.map_map]
  congr 2
  refine (List.map_congr_left fun m _ => ?_).trans (List.map_id p)
  simp [Scalar.ofJson_toJson]

variable [Platform]

/-- Whatever the message is. -/
theorem names_notifyMessage (m : Message) : ((notifyMessage m).map (·.1)).Nodup := by
  change ["kind", "team_id", "id", "channel_id", "recipient_agent_id", "recipient_session", "sender_agent_id",
    "sender_session", "announce"].Nodup
  decide

theorem parse_notifyMessage (m : Message) : BusEvent.parse (payloadText (notifyMessage m)) = some m.event :=
  parse_payloadText (names_notifyMessage m)

/-! ### Who sees it -/

/-- For whom the row is: its team if it was posted in a channel, otherwise its sender, and its recipient in the
    session that it was addressed to, if it was addressed to one. -/
def Message.isFor (m : Message) (team agent : Uuid) (session : String) : Prop :=
  m.teamId = team ∧ (m.channelId.isSome ∨ m.senderAgentId = agent ∨
    m.recipientAgentId = some agent ∧ (m.recipientSession = none ∨ m.recipientSession = some session))

variable [Platform.Lawful]

theorem visibleTo_iff {m : Message} (htarget : m.channelId.isSome ≠ m.recipientAgentId.isSome) (team agent : Uuid)
    (session : String) : m.event.visibleTo team agent session = true ↔ m.isFor team agent session := by
  unfold Message.isFor
  by_cases hteam : m.teamId = team
  · subst hteam
    have hchannel : m.recipientAgentId.isNone = m.channelId.isSome := by
      cases hr : m.recipientAgentId <;> cases hc : m.channelId <;> simp_all
    have haddressed : addressedTo session m = true ↔ m.recipientSession = none ∨ m.recipientSession = some session := by
      unfold addressedTo
      cases m.recipientSession <;> simp
    rw [visibleTo_event, hchannel]
    simp only [Bool.or_eq_true, Bool.and_eq_true, beq_iff_eq, haddressed, true_and, or_assoc]
  · have hhidden : m.event.visibleTo team agent session = false := by simp [BusEvent.visibleTo, hteam]
    simp [hhidden, hteam]

/-- What the hub parses shows what the row holds, and shows it to those whom the row is for; a direct message is for
    nobody but its sender and its recipient. -/
theorem payload_faithful (m : Message) (htarget : m.channelId.isSome ≠ m.recipientAgentId.isSome) :
    ∃ e, BusEvent.parse (payloadText (notifyMessage m)) = some e ∧
      (∀ (team agent : Uuid) (session : String),
        e.visibleTo team agent session = true ↔ m.isFor team agent session) ∧
      e.teamId = some m.teamId ∧ e.messageId = some m.id ∧ e.channelId = m.channelId ∧
      e.senderAgentId = some m.senderAgentId ∧ e.recipientAgentId = m.recipientAgentId ∧
      e.senderSession = m.senderSession ∧ e.recipientSession = m.recipientSession ∧ e.isAnnouncement = m.announce ∧
      (m.recipientAgentId.isSome → ∀ (team agent : Uuid) (session : String),
        e.visibleTo team agent session = true → agent = m.senderAgentId ∨ m.recipientAgentId = some agent) := by
  refine ⟨m.event, parse_notifyMessage m, visibleTo_iff htarget, m.event_teamId, m.event_messageId, m.event_channelId,
    m.event_senderAgentId, m.event_recipientAgentId, m.event_senderSession, m.event_recipientSession,
    m.event_isAnnouncement, fun hdirect team agent session hvisible => ?_⟩
  obtain ⟨-, hchannel | hsender | ⟨hrecipient, -⟩⟩ := (visibleTo_iff htarget team agent session).1 hvisible
  · exact absurd (hchannel.trans hdirect.symm) htarget
  · exact .inl hsender.symm
  · exact .inr hrecipient

end CrewSync

namespace CrewSync
attribute [local instance] Platform.ascii

/-- A question to a window whose label holds a quote, from one whose label holds a line break. -/
def quotedQuestion : Message :=
  { id := 7, teamId := 0, channelId := none, recipientAgentId := some 2, senderAgentId := 1, body := "ready?"
    replyTo := none, metadata := "{}", createdAt := 0, senderSession := some "a\nb", recipientSession := some "\"api\""
    announce := false }

theorem payload_of_quotedQuestion : ∃ e, BusEvent.parse (payloadText (notifyMessage quotedQuestion)) = some e ∧
    (∀ (team agent : Uuid) (session : String),
      e.visibleTo team agent session = true ↔ quotedQuestion.isFor team agent session) ∧
    e.teamId = some quotedQuestion.teamId ∧ e.messageId = some quotedQuestion.id ∧
    e.channelId = quotedQuestion.channelId ∧ e.senderAgentId = some quotedQuestion.senderAgentId ∧
    e.recipientAgentId = quotedQuestion.recipientAgentId ∧ e.senderSession = quotedQuestion.senderSession ∧
    e.recipientSession = quotedQuestion.recipientSession ∧ e.isAnnouncement = quotedQuestion.announce ∧
    (quotedQuestion.recipientAgentId.isSome → ∀ (team agent : Uuid) (session : String),
      e.visibleTo team agent session = true →
        agent = quotedQuestion.senderAgentId ∨ quotedQuestion.recipientAgentId = some agent) :=
  @payload_faithful Platform.ascii Platform.ascii_lawful quotedQuestion (by decide)

end CrewSync
