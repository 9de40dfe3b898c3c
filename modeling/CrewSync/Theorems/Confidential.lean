import CrewSync.Theorems.Isolation
import CrewSync.Theorems.Posting

/-! Direct messages are between their two parties. A read of an agent answers from what it may know alone, and what two
    others write to each other changes none of it. -/

namespace CrewSync
open Rows

/-! ### What an agent may know -/

/-- A message in a channel, or one from or to the agent. -/
def Message.openTo (m : Message) (agent : Uuid) : Bool :=
  m.channelId.isSome || m.senderAgentId == agent || m.recipientAgentId == some agent

/-- A file of a task, or of such a message. -/
def Db.fileOpen (db : Db) (agent : Uuid) (a : Attachment) : Bool :=
  a.messageId.all fun id => db.messages.any fun m => m.id == id && m.openTo agent

/-- The tables without the direct messages of others, their files and their read positions. The outbox, the webhooks and
    the notifications are not read by agents. -/
def Db.knownTo (db : Db) (agent : Uuid) : Db :=
  { db with
    messages := db.messages.filter (·.openTo agent), attachments := db.attachments.filter (db.fileOpen agent)
    cursors := db.cursors.filter (·.agentId == agent), webhooks := [], deliveries := [], notified := [] }

def Pg.knownTo (pg : Pg) (agent : Uuid) : Pg := { Pg.init pg.now with db := pg.db.knownTo agent }

section
variable {db : Db} {seqs : Seqs} {agent : Uuid}

theorem openTo_of_channel {m : Message} (h : m.channelId.isSome = true) : m.openTo agent = true := by
  rw [Message.openTo, h, Bool.true_or, Bool.true_or]

theorem openTo_of_recipient {m : Message} (h : (m.recipientAgentId == some agent) = true) : m.openTo agent = true := by
  rw [Message.openTo, h, Bool.or_true]

theorem openTo_of_sender {m : Message} (h : (m.senderAgentId == agent) = true) : m.openTo agent = true := by
  rw [Message.openTo, h, Bool.or_true, Bool.true_or]

theorem messageInfo_knownTo {m : Message} (hm : m ∈ db.messages) (h : m.openTo agent = true) :
    (db.knownTo agent).messageInfo? m = db.messageInfo? m := by
  have hfiles : (db.knownTo agent).attachments.filter (·.messageId == some m.id) =
      db.attachments.filter (·.messageId == some m.id) :=
    filter_part fun a _ hid => by
      rw [Db.fileOpen, beq_iff_eq.1 hid, Option.all_some]
      exact List.any_eq_true.2 ⟨m, hm, by simp [h]⟩
  unfold Db.messageInfo?
  rw [hfiles]
  rfl

theorem newest_knownTo {p : Message → Bool} (hp : ∀ m ∈ db.messages, p m = true → m.openTo agent = true) (limit : Int) :
    (db.knownTo agent).newest p limit = db.newest p limit := by
  have hrows : (db.knownTo agent).messages.filter p = db.messages.filter p := filter_part hp
  unfold Db.newest
  rw [hrows]
  refine congrArg (List.take _) (List.filterMap_congr fun m hm => ?_)
  obtain ⟨hm, h⟩ := List.mem_filter.1 (mem_orderBy.1 hm)
  exact messageInfo_knownTo hm (hp m hm h)

theorem lastRead_knownTo (key : String) : (db.knownTo agent).lastRead agent key = db.lastRead agent key := by
  have hfind : (db.knownTo agent).cursors.find? (fun c => c.agentId == agent && c.scope == key) =
      db.cursors.find? fun c => c.agentId == agent && c.scope == key :=
    find?_part fun c _ hc => (Bool.and_eq_true_iff.1 hc).1
  rw [Db.lastRead, hfind]
  rfl

theorem taskInfo_knownTo (hr : db.Refs) (now : Time) (t : Task) : (db.knownTo agent).taskInfo now t = db.taskInfo now t := by
  have hfiles : (db.knownTo agent).attachments.filter (·.taskId == some t.id) =
      db.attachments.filter (·.taskId == some t.id) :=
    filter_part fun a ha hid => by
      have hcarrier := (hr.carriers a ha).1
      rw [beq_iff_eq.1 hid] at hcarrier
      rw [Db.fileOpen]
      cases hmessage : a.messageId with
      | none => rfl
      | some id =>
        rw [hmessage] at hcarrier
        exact absurd rfl hcarrier
  unfold Db.taskInfo
  rw [hfiles]
  rfl

end

/-! ### Calls that read -/

section
variable [Platform] {auth : AuthCtx} {α : Type}

/-- The call sees no more than its agent may know. -/
abbrev Bus.SeesKnown (auth : AuthCtx) (x : Bus α) : Prop := Bus.Sees (·.knownTo auth.agentId) Pg.Valid x

theorem defaultChannel_seesKnown : Bus.SeesKnown auth (defaultChannel auth) := by
  unfold defaultChannel
  exact .ite .pure (.select fun _ _ => rfl)

theorem focusOf_seesKnown {allChannels : Bool} : Bus.SeesKnown auth (focusOf auth allChannels) := by
  unfold focusOf
  exact .ite .pure (defaultChannel_seesKnown.map _)

omit [Platform] in
theorem unreadInbox_knownTo (db : Db) : unreadInbox auth (db.knownTo auth.agentId) = unreadInbox auth db := by
  unfold unreadInbox
  rw [lastRead_knownTo]
  refine congrArg (fun rows : List Message => (rows.length : Int)) (filter_part fun m _ hp => ?_)
  simp only [Bool.and_eq_true] at hp
  exact openTo_of_recipient hp.1.1

theorem whoami_seesKnown : Bus.SeesKnown auth (whoami auth) := by
  unfold whoami
  exact .reads (.select fun pg _ => unreadInbox_knownTo pg.db) fun _ => .reads (.select fun _ _ => rfl) fun _ =>
    defaultChannel_seesKnown.reads fun _ => .pure

omit [Platform] in
/-- A direct message is in no channel, so the window never had it. -/
theorem channelActivity_knownTo {db : Db} {agent : Uuid} (team : Uuid) (since : Time) (focus : Option Uuid) :
    (db.knownTo agent).channelActivity team since focus = db.channelActivity team since focus := by
  have hrows : (db.knownTo agent).inWindow team since focus = db.inWindow team since focus := by
    refine filterMap_part fun m _ h => ?_
    cases hchannel : m.channelId with
    | none =>
      simp only [hchannel] at h
      cases h
    | some c => exact openTo_of_channel (by rw [hchannel, Option.isSome_some])
  unfold Db.channelActivity Db.windowed
  rw [hrows]

theorem teamDigest_seesKnown {hours : Int} {allChannels : Bool} : Bus.SeesKnown auth (teamDigest auth hours allChannels) := by
  unfold teamDigest
  exact focusOf_seesKnown.reads fun focus => .reads (.select fun _ _ => channelActivity_knownTo _ _ _) fun _ =>
    .reads (.select fun _ _ => rfl) fun _ => .reads (.select fun _ _ => rfl) fun _ => .reads (.select fun _ _ => rfl) fun _ =>
      .reads (.select fun _ _ => rfl) fun _ => .reads (.select fun _ _ => rfl) fun _ => .pure

omit [Platform] in
theorem listChannels_seesKnown : Bus.SeesKnown auth (listChannels auth) := by
  refine .select fun pg _ => List.map_congr_left fun c _ => ?_
  have hmessages : (pg.db.knownTo auth.agentId).messages.filter (·.channelId == some c.id) =
      pg.db.messages.filter (·.channelId == some c.id) :=
    filter_part fun m _ hid => openTo_of_channel (by rw [beq_iff_eq.1 hid, Option.isSome_some])
  change ChannelInfo.mk c.name c.topic ((pg.db.knownTo auth.agentId).messages.filter _).length _ = _
  rw [hmessages]

omit [Platform] in
theorem visible_openTo {scope : Scope} {allSessions : Bool} {m : Message} (h : scope.visible auth allSessions m = true) :
    m.openTo auth.agentId = true := by
  have inView : Scope.inView auth allSessions m = true → m.openTo auth.agentId = true := fun h =>
    openTo_of_recipient (Bool.and_eq_true_iff.1 h).1
  cases scope with
  | all =>
    rcases Bool.or_eq_true_iff.1 (Bool.and_eq_true_iff.1 h).2 with hmember | hsender
    · rcases Bool.or_eq_true_iff.1 hmember with hchannel | hview
      · exact openTo_of_channel hchannel
      · exact inView hview
    · exact openTo_of_sender hsender
  | inbox => exact inView h
  | channel id name => exact openTo_of_channel (by rw [beq_iff_eq.1 h, Option.isSome_some])

theorem searchMessages_seesKnown {query : String} {limit : Int} : Bus.SeesKnown auth (searchMessages auth query limit) := by
  unfold searchMessages
  refine .guard (.reads (.select fun pg _ => newest_knownTo (fun m _ hfound => ?_) _) fun _ => .pure)
  have hmine := (Bool.and_eq_true_iff.1 (Bool.and_eq_true_iff.1 hfound).1).2
  rcases Bool.or_eq_true_iff.1 hmine with hopen | hsender
  · rcases Bool.or_eq_true_iff.1 hopen with hchannel | hrecipient
    · exact openTo_of_channel hchannel
    · exact openTo_of_recipient hrecipient
  · exact openTo_of_sender hsender

omit [Platform] in
/-- The row of a file that the agent may know of is the same. -/
theorem attachmentRow_open {pg : Pg} (hv : pg.Valid) {team agent : Uuid} {id : Int} {a : Attachment}
    (ha : pg.db.attachments.find? (fun a => a.id == id && a.teamId == team) = some a) (hopen : pg.db.fileOpen agent a = true) :
    (pg.db.knownTo agent).attachmentRow? team id = pg.db.attachmentRow? team id := by
  have hfind : (pg.db.knownTo agent).attachments.find? (fun a => a.id == id && a.teamId == team) =
      pg.db.attachments.find? fun a => a.id == id && a.teamId == team := by
    refine find?_part fun b hb h => ?_
    have hid := List.find?_some ha
    simp only [Bool.and_eq_true, beq_iff_eq] at hid h
    rwa [hv.keys.attachments.eq hb (List.mem_of_find?_eq_some ha) (h.1.trans hid.1.symm)]
  have hmessage : (a.messageId.bind fun m => (pg.db.knownTo agent).messages.find? (·.id == m)) =
      a.messageId.bind fun m => pg.db.messages.find? (·.id == m) := by
    cases hid : a.messageId with
    | none => rfl
    | some m =>
      rw [Db.fileOpen, hid] at hopen
      obtain ⟨o, ho, hknown⟩ := List.any_eq_true.1 hopen
      simp only [Bool.and_eq_true, beq_iff_eq] at hknown
      refine find?_part fun r hr h => ?_
      rw [hv.keys.messages.eq hr ho ((beq_iff_eq.1 h).trans hknown.1.symm)]
      exact hknown.2
  unfold Db.attachmentRow?
  rw [hfind, ha, Option.bind_eq_bind, Option.bind_eq_bind, Option.bind_some, Option.bind_some, hmessage]
  rfl

omit [Platform] in
/-- A file on a direct message of others is not the agent's to read. -/
theorem recipient_of_closed {pg : Pg} (hv : pg.Valid) {agent : Uuid} {a : Attachment} (ha : a ∈ pg.db.attachments)
    (hclosed : ¬ pg.db.fileOpen agent a = true) : ∃ mid m recipient, a.messageId = some mid ∧
      pg.db.messages.find? (·.id == mid) = some m ∧ m.recipientAgentId = some recipient ∧ recipient ≠ agent ∧
        m.senderAgentId ≠ agent := by
  cases hid : a.messageId with
  | none =>
    rw [Db.fileOpen, hid] at hclosed
    exact absurd rfl hclosed
  | some mid =>
    rcases messageIn_iff.1 (hv.refs.files a ha mid hid) with ⟨m, hm, rfl, -⟩
    have hfind : pg.db.messages.find? (·.id == m.id) = some m := hv.keys.messages.find?_eq_some hm (beq_self_eq_true _)
      fun r _ hr => beq_iff_eq.1 hr
    have hsecret : ¬ m.openTo agent = true := by
      rw [Db.fileOpen, hid] at hclosed
      exact fun h => hclosed (List.any_eq_true.2 ⟨m, hm, by simp [h]⟩)
    simp only [Message.openTo, Bool.or_eq_true, not_or, beq_iff_eq] at hsecret
    obtain ⟨⟨hchannel, hsender⟩, hrecipient⟩ := hsecret
    cases hto : m.recipientAgentId with
    | none => exact absurd (by rw [hto, Bool.eq_false_iff.2 hchannel]; rfl) (hv.refs.targets m hm)
    | some recipient => exact ⟨m.id, m, recipient, rfl, hfind, hto, fun h => hrecipient (by rw [hto, h]), hsender⟩

omit [Platform] in
/-- Such a file is refused in the words for one that is not there. -/
theorem getAttachment_seesKnown {id : Int} : Bus.SeesKnown auth (getAttachment auth id) := by
  refine ⟨getAttachment_readOnly, fun pg hv => ?_⟩
  have absent : (pg.knownTo auth.agentId).db.attachments.find? (fun a => a.id == id && a.teamId == auth.teamId) = none →
      (pg.knownTo auth.agentId).db.attachmentRow? auth.teamId id = none := by
    intro h
    rw [Db.attachmentRow?, h]
    rfl
  unfold getAttachment
  rw [Bus.exec_bind_ok (Bus.exec_select _ _), Bus.exec_bind_ok (Bus.exec_select _ _)]
  dsimp only
  cases hfind : pg.db.attachments.find? fun a => a.id == id && a.teamId == auth.teamId with
  | none =>
    have hrow : pg.db.attachmentRow? auth.teamId id = none := by
      rw [Db.attachmentRow?, hfind]
      rfl
    rw [hrow, absent (List.find?_eq_none.2 fun a ha => List.find?_eq_none.1 hfind a (List.mem_filter.1 ha).1)]
    rfl
  | some a =>
    have hmem := List.mem_of_find?_eq_some hfind
    by_cases hopen : pg.db.fileOpen auth.agentId a = true
    · have hrow := attachmentRow_open hv hfind hopen
      change (pg.knownTo auth.agentId).db.attachmentRow? auth.teamId id = _ at hrow
      rw [hrow]
      cases pg.db.attachmentRow? auth.teamId id with
      | none => rfl
      | some r =>
        dsimp only
        split <;> rfl
    · have hgone : (pg.knownTo auth.agentId).db.attachmentRow? auth.teamId id = none := by
        refine absent (List.find?_eq_none.2 fun b hb h => hopen ?_)
        obtain ⟨hb, hknown⟩ := List.mem_filter.1 hb
        have hid := List.find?_some hfind
        simp only [Bool.and_eq_true, beq_iff_eq] at hid h
        rwa [hv.keys.attachments.eq hb hmem (h.1.trans hid.1.symm)] at hknown
      rw [hgone]
      rcases recipient_of_closed hv hmem hopen with ⟨mid, m, recipient, hmid, hm, hto, hother, hsender⟩
      have hrow : ∀ r, pg.db.attachmentRow? auth.teamId id = some r →
          (r.recipient.any fun recipient => recipient != auth.agentId && r.sender != some auth.agentId) = true := by
        intro r hr
        rw [Db.attachmentRow?, hfind] at hr
        obtain ⟨_, hsome, hr⟩ := Option.bind_eq_some_iff.1 hr
        obtain rfl := Option.some.inj hsome
        obtain ⟨uploader, -, hr⟩ := Option.bind_eq_some_iff.1 hr
        obtain rfl := Option.some.inj hr
        rw [hmid, Option.bind_some, hm, Option.bind_some, hto]
        simp [hother, hsender]
      cases hr : pg.db.attachmentRow? auth.teamId id with
      | none => rfl
      | some r =>
        dsimp only
        rw [if_pos (hrow r hr)]
        rfl

omit [Platform] in
theorem fetchTask_seesKnown {key : String} : Bus.SeesKnown auth (fetchTask auth key) := by
  unfold fetchTask
  refine .reads (.select fun pg h => ?_) fun row => ?_
  · change (pg.db.findTask auth.teamId key).map ((pg.db.knownTo auth.agentId).taskInfo pg.now) = _
    cases pg.db.findTask auth.teamId key with
    | none => rfl
    | some t => exact congrArg some (taskInfo_knownTo h.refs _ t)
  · cases row with
    | none => exact .throw
    | some t => exact .pure

theorem listTasks_seesKnown {status : Option String} {mineOnly : Bool} {limit : Int} :
    Bus.SeesKnown auth (listTasks auth status mineOnly limit) := by
  unfold listTasks
  refine .guard (.reads (.select fun pg h => ?_) fun _ => .reads (.select fun _ _ => rfl) fun _ => .pure)
  exact List.map_congr_left fun t _ => taskInfo_knownTo h.refs _ t

omit [Platform] in
theorem unreadAnything_seesKnown {focus : Option Uuid} : Bus.SeesKnown auth (unreadAnything auth focus) := by
  refine .select fun pg _ => ?_
  change (((pg.db.knownTo auth.agentId).messages.filter (pendingFor auth focus
    ((pg.db.knownTo auth.agentId).lastRead auth.agentId _))).length : Int) = _
  rw [lastRead_knownTo]
  refine congrArg (fun rows : List Message => (rows.length : Int)) (filter_part fun m _ hp => ?_)
  rcases Bool.or_eq_true_iff.1 (Bool.and_eq_true_iff.1 hp).2 with hchannel | hdirect
  · exact openTo_of_channel (Bool.and_eq_true_iff.1 hchannel).1
  · exact openTo_of_recipient (Bool.and_eq_true_iff.1 hdirect).1

/-- A wait that no event reaches: it answers from the backlog, or times out. -/
theorem waitForUpdates_seesKnown {input : WaitInput} {grace : List BusEvent} :
    Bus.SeesKnown auth (waitForUpdates auth input [] grace) := by
  have hdms : Bus.SeesKnown auth (unreadDms auth) := .select fun pg _ => unreadInbox_knownTo pg.db
  unfold waitForUpdates
  exact focusOf_seesKnown.reads fun focus => unreadAnything_seesKnown.reads fun pending =>
    .ite (hdms.reads fun _ => .pure) (.reads .pure fun events => hdms.reads fun _ => .pure)

theorem resolveScope_seesKnown {raw : String} : Bus.SeesKnown auth (resolveScope auth raw) := by
  unfold resolveScope
  cases parseScope raw with
  | inl scope => exact .pure
  | inr name =>
    refine .reads (.reads (.select fun _ _ => rfl) fun row => ?_) fun id => .pure
    cases row with
    | none => exact .throw
    | some id => exact .pure

theorem readMessages_knownTo {pg : Pg} (hauth : auth.authentic pg.db = true) (pid : Nat) (hv : pg.Valid) (input : ReadInput) :
    ((pg.knownTo auth.agentId).call auth pid (.readMessages input)).1 = (pg.call auth pid (.readMessages input)).1 := by
  have hauth' : auth.authentic (pg.knownTo auth.agentId).db = true := hauth
  have hsees : Bus.SeesKnown auth (resolveScope auth input.scope) := resolveScope_seesKnown
  have hresolve := hsees.answer pg hv
  cases hscope : ((resolveScope auth input.scope).exec pg).1 with
  | error e => rw [call_unresolved hauth pid hscope, call_unresolved hauth' pid (hresolve.trans hscope)]
  | ok scope =>
    have hfrom : (pg.knownTo auth.agentId).db.readFrom auth scope input = pg.db.readFrom auth scope input := by
      unfold Db.readFrom
      split
      · exact lastRead_knownTo _
      · rfl
    have hopen : ∀ m ∈ pg.db.messages, (scope.visible auth input.allSessions m &&
        decide (pg.db.readFrom auth scope input < m.id)) = true → m.openTo auth.agentId = true :=
      fun m _ hp => visible_openTo (Bool.and_eq_true_iff.1 hp).1
    have hrows := newest_knownTo hopen (clamp input.limit 1 maxLimit)
    have hlist : (pg.knownTo auth.agentId).db.readList auth scope input = pg.db.readList auth scope input := by
      unfold Db.readList
      rw [hfrom]
      change MessageList.mk ((pg.db.knownTo auth.agentId).newest _ _).reverse _
        (maxId _ ((pg.db.knownTo auth.agentId).newest _ _).reverse)
        ((((pg.db.knownTo auth.agentId).newest _ _).length : Int) == _) = _
      rw [hrows]
    rw [call_read hauth pid hscope, call_read hauth' pid (hresolve.trans hscope), hlist]

omit [Platform] in
theorem listAgents_seesKnown {onlineOnly : Bool} : Bus.SeesKnown auth (listAgents auth onlineOnly) := .select fun _ _ => rfl

omit [Platform] in
theorem listLocks_seesKnown : Bus.SeesKnown auth (listLocks auth) := .select fun _ _ => rfl

omit [Platform] in
theorem getTask_seesKnown {key : String} : Bus.SeesKnown auth (getTask auth key) :=
  fetchTask_seesKnown.reads fun _ => .reads (.select fun _ _ => rfl) fun _ => .pure

theorem getNote_seesKnown {scope : Option String} {key : String} : Bus.SeesKnown auth (getNote auth scope key) :=
  .reads (.select fun _ _ => rfl) fun _ => .pure

theorem listNotes_seesKnown {scope tag : Option String} {limit : Int} : Bus.SeesKnown auth (listNotes auth scope tag limit) :=
  .select fun _ _ => rfl

theorem searchNotes_seesKnown {query : String} {scope : Option String} {limit : Int} :
    Bus.SeesKnown auth (searchNotes auth query scope limit) := by
  unfold searchNotes
  exact .guard (.select fun _ _ => rfl)

/-- The calls that answer from the tables: the reads, and a wait that no event reaches. -/
def Call.quiet : Call → Bool
  | .waitForUpdates _ [] _ => true
  | c => c.reads

/-- A read answers the same without the direct messages of others. -/
theorem call_knownTo {pg : Pg} (hv : pg.Valid) (auth : AuthCtx) (pid : Nat) {c : Call} (hc : c.quiet = true) :
    ((pg.knownTo auth.agentId).call auth pid c).1 = (pg.call auth pid c).1 := by
  by_cases hauth : auth.authentic pg.db = true
  · have of_sees : Bus.SeesKnown auth (c.run auth pid) →
        ((pg.knownTo auth.agentId).call auth pid c).1 = (pg.call auth pid c).1 := by
      intro h
      rw [Pg.call, Pg.call, if_pos hauth, if_pos (show auth.authentic (pg.knownTo auth.agentId).db = true from hauth)]
      exact h.answer pg hv
    cases c with
    | whoami => exact of_sees (whoami_seesKnown.map _)
    | teamDigest hours allChannels => exact of_sees (teamDigest_seesKnown.map _)
    | listAgents onlineOnly => exact of_sees (listAgents_seesKnown.map _)
    | listChannels => exact of_sees (listChannels_seesKnown.map _)
    | readMessages input => exact readMessages_knownTo hauth pid hv input
    | searchMessages query limit => exact of_sees (searchMessages_seesKnown.map _)
    | waitForUpdates input received grace =>
      cases received with
      | nil => exact of_sees (waitForUpdates_seesKnown.map _)
      | cons e rest => cases hc
    | getAttachment id => exact of_sees (getAttachment_seesKnown.map _)
    | listTasks status mineOnly limit => exact of_sees (listTasks_seesKnown.map _)
    | getTask key => exact of_sees (getTask_seesKnown.map _)
    | getNote scope key => exact of_sees (getNote_seesKnown.map _)
    | listNotes scope tag limit => exact of_sees (listNotes_seesKnown.map _)
    | searchNotes query scope limit => exact of_sees (searchNotes_seesKnown.map _)
    | listLocks => exact of_sees (listLocks_seesKnown.map _)
    | _ => cases hc
  · rw [Pg.call, Pg.call, if_neg hauth, if_neg (show ¬ auth.authentic (pg.knownTo auth.agentId).db = true from hauth)]

omit [Platform] in
/-- The page of a team shows no direct message, whoever looks at it. -/
theorem load_knownTo (team agent : Uuid) : Bus.Sees (·.knownTo agent) Pg.Valid (Dashboard.load team) := by
  have hteam : Bus.Sees (·.knownTo agent) Pg.Valid (Dashboard.loadTeam team) := by
    refine .reads (.select fun _ _ => rfl) fun row => ?_
    cases row with
    | none => exact .throw
    | some slug => exact .pure
  have htotals : Bus.Sees (·.knownTo agent) Pg.Valid (Dashboard.loadTotals team) := by
    refine .select fun pg _ => ?_
    have hmessages : ((pg.knownTo agent).db.messages.filter fun m => m.teamId == team && m.channelId.isSome &&
        decide (pg.now - secs 86400 < m.createdAt)) = pg.db.messages.filter fun m => m.teamId == team && m.channelId.isSome &&
          decide (pg.now - secs 86400 < m.createdAt) :=
      filter_part fun m _ h => openTo_of_channel (Bool.and_eq_true_iff.1 (Bool.and_eq_true_iff.1 h).1).2
    exact congrArg (fun rows : List Message => Dashboard.Totals.mk _ _ _ rows.length) hmessages
  have hmessages : Bus.Sees (·.knownTo agent) Pg.Valid (Dashboard.loadMessages team) := by
    refine .select fun pg hv => congrArg (List.take 20) ?_
    change (orderBy _ ((pg.db.messages.filter (·.openTo agent)).filter (·.teamId == team))).filterMap
      (Dashboard.messageRow? pg.db) = _
    rw [List.filter_comm]
    refine filterMap_orderBy_part (hv.keys.messages.filter _) fun m _ h => openTo_of_channel ?_
    cases hchannel : m.channelId with
    | none =>
      rw [Dashboard.messageRow?, hchannel] at h
      cases h
    | some c => rfl
  exact hteam.reads fun _ => htotals.reads fun _ => .reads (.select fun _ _ => rfl) fun _ =>
    .reads (.select fun _ _ => rfl) fun _ => hmessages.reads fun _ => .reads (.select fun _ _ => rfl) fun _ =>
      .reads (.select fun _ _ => rfl) fun _ => .pure

/-- Two states that differ in nothing the agent may know answer it alike, in every read and every session, and show it the
    same page. -/
theorem reads_confidential {pg pg' : Pg} (hv : pg.Valid) (hv' : pg'.Valid) {agent : Uuid} (hnow : pg.now = pg'.now)
    (hrows : pg.db.knownTo agent = pg'.db.knownTo agent) :
    (∀ (auth : AuthCtx) (pid : Nat) (c : Call), auth.agentId = agent → c.quiet = true →
      (pg.call auth pid c).1 = (pg'.call auth pid c).1) ∧
      ∀ team, ((Dashboard.load team).exec pg).1 = ((Dashboard.load team).exec pg').1 := by
  have hsame : pg.knownTo agent = pg'.knownTo agent := by rw [Pg.knownTo, Pg.knownTo, hnow, hrows]
  refine ⟨fun auth pid c hagent hc => ?_, fun team => ?_⟩
  · subst hagent
    rw [← call_knownTo hv auth pid hc, ← call_knownTo hv' auth pid hc, hsame]
  · rw [← (load_knownTo team agent).answer pg hv, ← (load_knownTo team agent).answer pg' hv', hsame]

/-! ### Private conversations -/

/-- A direct message of others, with its files, adds nothing that the agent may know. -/
theorem knownTo_posted {db : Db} {agent : Uuid} {m : Message} {files : List Attachment} {rows : List Delivery}
    (hsecret : m.openTo agent = false) (hfresh : ∀ o ∈ db.messages, o.id ≠ m.id)
    (hfiles : ∀ a ∈ files, a.messageId = some m.id) : (db.posted m files rows).knownTo agent = db.knownTo agent := by
  have hopen : ∀ a, (db.posted m files rows).fileOpen agent a = db.fileOpen agent a := by
    intro a
    unfold Db.fileOpen
    refine congrArg (fun p => a.messageId.all p) (funext fun id => ?_)
    change (db.messages ++ [m]).any _ = _
    rw [List.any_append, List.any_cons, hsecret, Bool.and_false, List.any_nil, Bool.or_false, Bool.or_false]
  have hmessages : (db.messages ++ [m]).filter (·.openTo agent) = db.messages.filter (·.openTo agent) :=
    filter_append_one hsecret
  have hattachments : (db.attachments ++ files).filter ((db.posted m files rows).fileOpen agent) =
      db.attachments.filter (db.fileOpen agent) := by
    have hnone : files.filter (db.fileOpen agent) = [] := by
      refine List.filter_eq_nil_iff.2 fun a ha hknown => ?_
      rw [Db.fileOpen, hfiles a ha] at hknown
      obtain ⟨o, ho, hid⟩ := List.any_eq_true.1 hknown
      simp only [Bool.and_eq_true, beq_iff_eq] at hid
      exact hfresh o ho hid.1
    rw [funext hopen, List.filter_append, hnone, List.append_nil]
  exact congrArg₂ (fun messages attachments => { db.knownTo agent with messages, attachments }) hmessages hattachments

omit [Platform] in
/-- No hook gets a direct message. -/
theorem IsPost.unqueued {auth : AuthCtx} {input : PostInput} {target : Target} {db : Db} {m : Message}
    {files : List Attachment} {rows : List Delivery} (h : IsPost auth input target db m files rows)
    (hdirect : m.recipientAgentId.isSome = true) : rows = [] := by
  have hrows := h.rows
  rwa [Db.Enqueues, if_pos hdirect] at hrows

/-- The call of `auth` posted nothing, or one message with its files. -/
def Posts (auth : AuthCtx) (pg pg' : Pg) : Prop :=
  pg'.db = pg.db ∨ ∃ input target m files rows, IsPost auth input target pg.db m files rows ∧
    pg'.db = pg.db.posted m files rows

theorem postMessage_moves (auth : AuthCtx) (pid : Nat) (input : PostInput) :
    Bus.Moves (Posts auth) (postMessage auth pid input) := by
  intro pg
  cases hr : ((postMessage auth pid input).exec pg).1 with
  | error e => exact .inl (postMessage_undone auth pid input pg e hr)
  | ok r =>
    have hgoes : Bus.Meets (·.db = pg.db) (resolveTarget auth input.channel input.«to»)
        (fun target pg' => Goes auth pg.db target ∧ pg'.db = pg.db) fun _ => True := resolveTarget_meets ..
    have hposts := postMessage_posts trivial (fun _ => trivial) (fun _ => trivial) hgoes pid
    obtain ⟨target, m, files, rows, -, -, -, hpost, hdb⟩ := hposts.answers pg rfl r hr
    exact .inr ⟨input, target, m, files, rows, hpost, hdb⟩

theorem askAgent_moves (auth : AuthCtx) (pid : Nat) (input : AskInput) (received : List Received) :
    Bus.Moves (Posts auth) (askAgent auth pid input received) := by
  have hrefl : ∀ pg, Posts auth pg pg := fun _ => .inl rfl
  have thenReads : ∀ {α β : Type} {x : Bus α} {f : α → Bus β}, Bus.Moves (Posts auth) x → (∀ a, Bus.ReadOnly (f a)) →
      Bus.Moves (Posts auth) (x >>= f) := by
    intro α β x f hx hf pg
    rw [Bus.exec_bind]
    have hpg := hx pg
    cases h : x.exec pg with
    | mk r pg' =>
      rw [h] at hpg
      cases r with
      | ok a => exact (hf a pg').symm ▸ hpg
      | error e => exact hpg
  have hquestion : ∀ target session, Bus.Moves (Posts auth) (questionOf auth pid input target session) := by
    intro target session
    unfold questionOf
    split
    · exact .reads hrefl verifyQuestion_readOnly fun _ pg => hrefl pg
    · split
      · exact fun pg => hrefl pg
      · exact thenReads (postMessage_moves auth pid _) fun _ => .pure
  unfold askAgent
  exact .reads hrefl .check fun a => .reads hrefl agentIdByName_readOnly fun target => .reads hrefl refuseSelf_readOnly
    fun _ => thenReads (hquestion _ _) fun question => .bind lookForAnswer_readOnly fun _ => .pure

/-- Others at their own business: direct messages between them with their files, and what they read. -/
def Call.Secret (agent : Uuid) (pg : Pg) (auth : AuthCtx) (pid : Nat) (c : Call) : Prop :=
  match c with
  | .postMessage _ | .askAgent .. =>
    ∀ m ∈ (pg.call auth pid c).2.db.messages, m ∈ pg.db.messages ∨ m.openTo agent = false
  | .attachToMessage id _ => ∀ m ∈ pg.db.messages, m.id = id → m.openTo agent = false
  | c => auth.agentId ≠ agent ∧ c.writes ⊆ [.readCursors]

/-- Such a call, the dispatcher, or the clock. -/
def Event.Secret (agent : Uuid) (pg : Pg) : Event → Prop
  | .call auth pid c => c.Secret agent pg auth pid
  | .command .. => False
  | .claim _ | .record .. | .prune | .tick _ => True

/-- What a call does to what the agent may know, and to the outbox. -/
structure Hidden (agent : Uuid) (db db' : Db) : Prop where
  known : db'.knownTo agent = db.knownTo agent
  outbox : db'.deliveries = db.deliveries

omit [Platform] in
theorem filesOf_messageId {team uploader : Uuid} {id : Int} {atts : List NewAttachment} {files : List Attachment}
    (h : FilesOf team id uploader atts files) : ∀ a ∈ files, a.messageId = some id := by
  induction h with
  | nil => exact fun a ha => by cases ha
  | cons hfile _ ih =>
    rcases hfile with ⟨_, _, rfl⟩
    exact List.forall_mem_cons.2 ⟨rfl, ih⟩

theorem fresh_of_posted {pg pg' : Pg} {m : Message} {files : List Attachment} {rows : List Delivery} (hv' : pg'.Valid)
    (hdb : pg'.db = pg.db.posted m files rows) : ∀ o ∈ pg.db.messages, o.id ≠ m.id := by
  intro o ho hid
  have hmessages : pg'.db.messages = pg.db.messages ++ [m] := congrArg Db.messages hdb
  have hkeyed := hv'.keys.messages
  rw [hmessages, Keyed, List.map_append, List.nodup_append] at hkeyed
  exact hkeyed.2.2 _ (List.mem_map_of_mem ho) _ List.mem_cons_self hid

theorem Posts.hidden {pg pg' : Pg} {auth : AuthCtx} {agent : Uuid} (h : Posts auth pg pg') (hv' : pg'.Valid)
    (hsecret : ∀ m ∈ pg'.db.messages, m ∈ pg.db.messages ∨ m.openTo agent = false) : Hidden agent pg.db pg'.db := by
  rcases h with hsame | ⟨input, target, m, files, rows, hpost, hdb⟩
  · rw [hsame]
    exact ⟨rfl, rfl⟩
  · have hmessages : pg'.db.messages = pg.db.messages ++ [m] := congrArg Db.messages hdb
    have hfresh : ∀ o ∈ pg.db.messages, o.id ≠ m.id := fresh_of_posted hv' hdb
    have hclosed : m.openTo agent = false :=
      (hsecret m (hmessages ▸ List.mem_append_right _ List.mem_cons_self)).resolve_left fun hm => hfresh m hm rfl
    refine ⟨hdb ▸ knownTo_posted hclosed hfresh (filesOf_messageId hpost.files), ?_⟩
    -- It is a direct message.
    have hdirect : m.recipientAgentId.isSome = true := by
      have htarget := (Db.messageOk_iff.1 hpost.ok).1
      simp only [Message.openTo, Bool.or_eq_false_iff] at hclosed
      rw [hclosed.1.1] at htarget
      exact Option.isSome_iff_ne_none.2 (by simpa using htarget)
    rw [hdb, hpost.unqueued hdirect]
    exact List.append_nil _

/-- What others read moves only their own read positions. -/
theorem call_reads_hidden {pg : Pg} (hv : pg.Valid) {auth : AuthCtx} {agent : Uuid} (hother : auth.agentId ≠ agent) (pid : Nat)
    {c : Call} (hc : c.writes ⊆ [.readCursors]) : Hidden agent pg.db (pg.call auth pid c).2.db := by
  refine (Pg.call_wrote hv auth pid c).lift hv (R := Hidden agent) (fun _ => ⟨rfl, rfl⟩)
    (fun h h' => ⟨h'.known.trans h.known, h'.outbox.trans h.outbox⟩) fun _ db w _ _ _ hown => ?_
  have htables := List.Subset.trans hown.tables hc
  have hauthor := hown.author
  cases w with
  | putCursor r =>
    have hagent : r.agentId ≠ agent := fun h => hother (hauthor.symm.trans h)
    have hcursors : (put Db.cursorKey r db.cursors).filter (·.agentId == agent) = db.cursors.filter (·.agentId == agent) :=
      filter_put (beq_false_of_ne hagent) fun o _ hkey => by
        have hid : o.agentId = r.agentId := congrArg Prod.fst hkey
        rw [hid, beq_false_of_ne hagent]
    exact ⟨congrArg (fun cursors => { db.knownTo agent with cursors }) hcursors, rfl⟩
  | notify payload => exact ⟨rfl, rfl⟩
  | _ => simp [Write.tables] at htables

/-- A file of the message `id`. -/
def FileOn (id : Int) (_ : Time) (_ : Db) (w : Write) : Prop := ∃ a, w = .insertAttachment a ∧ a.messageId = some id

omit [Platform] in
theorem insertAttachment_fileOn {P : Db → Prop} {team : Uuid} {id : Int} {task : Option Uuid} {uploader : Uuid}
    {att : NewAttachment} :
    Sql.Writes (FileOn id) P (insertAttachment team (some id) task uploader att) fun _ _ => True := by
  intro pg hv hP b seqs ws hs
  obtain ⟨hb, ht, hQ⟩ := insertAttachment_writes (P := P) (List.mem_singleton_self _) pg hv hP b seqs ws hs
  obtain ⟨a, -, rfl, -, -, rfl⟩ := insertAttachment_ok hs
  exact ⟨hb, ⟨ht.1, ⟨_, rfl, rfl⟩, trivial⟩, hQ⟩

omit [Platform] in
theorem attachToMessage_fileOn {P : Db → Prop} {pid : Nat} {id : Int} {att : NewAttachment} :
    Bus.Writes (FileOn id) P (attachToMessage auth pid id att) fun _ _ => True := by
  refine .reads .select fun sender => ?_
  cases sender with
  | none => exact .throw
  | some sender =>
    refine .ite (fun _ => .throw_bind) fun _ => .reads .select fun count => .ite (fun _ => .throw_bind) fun _ => ?_
    refine .bind (Q := fun _ _ => True) (checkAttachmentQuota_plain.bind fun c => ?_) fun _ => .of_readOnly .pure
    intro pg hv hc
    subst hc
    exact (execute_plain (insertAttachment_fileOn (P := fun _ => True))).bind (fun _ => .of_readOnly .pure) pg hv trivial

/-- A file on a direct message of others. -/
theorem call_file_hidden {pg : Pg} (hv : pg.Valid) (auth : AuthCtx) {agent : Uuid} (pid : Nat) {id : Int} (att : NewAttachment)
    (hclosed : ∀ m ∈ pg.db.messages, m.id = id → m.openTo agent = false) :
    Hidden agent pg.db (pg.call auth pid (.attachToMessage id att)).2.db := by
  unfold Pg.call
  split
  · have hfile : Bus.Writes (FileOn id) (fun _ => True) (attachToMessage auth pid id att) fun _ _ => True :=
      attachToMessage_fileOn
    have hwrote := (hfile.map (f := Reply.attached) pg hv trivial).1
    have hkeep := hwrote.lift hv (R := fun a b => (∀ m ∈ a.messages, m.id = id → m.openTo agent = false) →
      (∀ m ∈ b.messages, m.id = id → m.openTo agent = false) ∧ Hidden agent a b) (fun _ h => ⟨h, rfl, rfl⟩)
      (fun h h' hclosed => ⟨(h' (h hclosed).1).1, (h' (h hclosed).1).2.known.trans (h hclosed).2.known,
        (h' (h hclosed).1).2.outbox.trans (h hclosed).2.outbox⟩) fun _ db w _ _ _ hfile hclosed => ?_
    · exact (hkeep hclosed).2
    · rcases hfile with ⟨a, rfl, hid⟩
      refine ⟨hclosed, ?_, rfl⟩
      have hgone : db.fileOpen agent a = false := by
        rw [Db.fileOpen, hid, Option.all_some, List.any_eq_false]
        intro m hm h
        obtain ⟨hmid, hopen⟩ := Bool.and_eq_true_iff.1 h
        rw [hclosed m hm (beq_iff_eq.1 hmid)] at hopen
        cases hopen
      have hattachments : (db.attachments ++ [a]).filter (db.fileOpen agent) = db.attachments.filter (db.fileOpen agent) :=
        filter_append_one hgone
      exact congrArg (fun attachments => { db.knownTo agent with attachments }) hattachments
  · exact ⟨rfl, rfl⟩

theorem call_hidden {pg : Pg} (hv : pg.Valid) {agent : Uuid} {auth : AuthCtx} {pid : Nat} {c : Call}
    (h : c.Secret agent pg auth pid) : Hidden agent pg.db (pg.call auth pid c).2.db := by
  have posts : Bus.Moves (Posts auth) (c.run auth pid) →
      (∀ m ∈ (pg.call auth pid c).2.db.messages, m ∈ pg.db.messages ∨ m.openTo agent = false) →
        Hidden agent pg.db (pg.call auth pid c).2.db := by
    intro hmoves hsecret
    have hposts : Posts auth pg (pg.call auth pid c).2 := by
      unfold Pg.call
      split
      · exact hmoves pg
      · exact .inl rfl
    exact hposts.hidden (hv.next (.call auth pid c)) hsecret
  cases c with
  | postMessage input =>
    have hrun : Bus.Moves (Posts auth) (Call.run auth pid (.postMessage input)) :=
      (postMessage_moves auth pid input).map _
    exact posts hrun h
  | askAgent input received =>
    have hrun : Bus.Moves (Posts auth) (Call.run auth pid (.askAgent input received)) :=
      (askAgent_moves auth pid input received).map _
    exact posts hrun h
  | attachToMessage id att => exact call_file_hidden hv auth pid att h
  | _ => exact call_reads_hidden hv (And.left h) pid (And.right h)

theorem secret_hidden {pg : Pg} (hv : pg.Valid) {agent : Uuid} {e : Event} (h : e.Secret agent pg) :
    (pg.next e).db.knownTo agent = pg.db.knownTo agent ∧
      (e.who.isSome = true → (pg.next e).db.deliveries = pg.db.deliveries) := by
  have of_outbox : e.writes ⊆ [.webhookDeliveries] → (pg.next e).db.knownTo agent = pg.db.knownTo agent := by
    intro htables
    refine Pg.next_frame hv e (·.knownTo agent) fun db w hw => ?_
    have htable := List.Subset.trans hw htables
    cases w <;> first | rfl | simp [Write.tables] at htable
  cases e with
  | call auth pid c =>
    have hidden : Hidden agent pg.db (pg.next (.call auth pid c)).db := call_hidden hv h
    exact ⟨hidden.known, fun _ => hidden.outbox⟩
  | command pid c => exact h.elim
  | claim locked => exact ⟨of_outbox (List.Subset.refl _), fun h => by cases h⟩
  | record d r => exact ⟨of_outbox (List.Subset.refl _), fun h => by cases h⟩
  | prune => exact ⟨of_outbox (List.Subset.refl _), fun h => by cases h⟩
  | tick d => exact ⟨rfl, fun h => by cases h⟩

/-- However long others write to each other in private, the agent reads what it would have read if only time had passed,
    the pages stay what they were, and nothing is queued for a hook. -/
theorem secrets_kept {pg : Pg} (hv : pg.Valid) {agent : Uuid} {es : List Event}
    (hes : Runs.Along Pg.next (fun pg e => e.Secret agent pg) pg es) :
    (∀ (auth : AuthCtx) (pid : Nat) (c : Call), auth.agentId = agent → c.quiet = true →
      ((pg.after es).call auth pid c).1 = (({ pg with now := (pg.after es).now } : Pg).call auth pid c).1) ∧
      (∀ team, ((Dashboard.load team).exec (pg.after es)).1 =
        ((Dashboard.load team).exec { pg with now := (pg.after es).now }).1) ∧
      Runs.Along Pg.next (fun pg e => e.who.isSome = true → (pg.next e).db.deliveries = pg.db.deliveries) pg es := by
  have hrun : (pg.after es).Valid ∧ (pg.after es).db.knownTo agent = pg.db.knownTo agent :=
    hes.invariant (I := fun pg' : Pg => pg'.Valid ∧ pg'.db.knownTo agent = pg.db.knownTo agent) ⟨hv, rfl⟩
      fun pg' e hsecret h => ⟨h.1.next e, (secret_hidden h.1 hsecret).1.trans h.2⟩
  have hsame : (pg.after es).knownTo agent = ({ pg with now := (pg.after es).now } : Pg).knownTo agent := by
    change ({ Pg.init (pg.after es).now with db := (pg.after es).db.knownTo agent } : Pg) = _
    rw [hrun.2]
    rfl
  refine ⟨fun auth pid c hagent hc => ?_, fun team => ?_, ?_⟩
  · subst hagent
    rw [← call_knownTo hrun.1 auth pid hc, ← call_knownTo (hv.tick _) auth pid hc, hsame]
  · rw [← (load_knownTo team agent).answer _ hrun.1, ← (load_knownTo team agent).answer _ (hv.tick _), hsame]
  · exact hes.strengthen (I := Pg.Valid) hv fun pg' e hsecret hv' => ⟨(secret_hidden hv' hsecret).2, hv'.next e⟩

/-! ### Two states -/

/-- The tables of `db'` are those of `db` but for the direct messages of others than the agent, and their files. -/
structure Db.SecretsApart (agent : Uuid) (db db' : Db) : Prop where
  others : db' = { db with messages := db'.messages, attachments := db'.attachments, notified := db'.notified }
  messages : db'.messages.filter (·.openTo agent) = db.messages.filter (·.openTo agent)
  attachments : db'.attachments.filter (db'.fileOpen agent) = db.attachments.filter (db.fileOpen agent)

omit [Platform] in
theorem Db.SecretsApart.known {agent : Uuid} {db db' : Db} (h : db.SecretsApart agent db') :
    db'.knownTo agent = db.knownTo agent := by
  unfold Db.knownTo
  rw [h.messages, h.attachments, h.others]

/-- The calls that post a message. -/
def Call.posts : Call → Bool
  | .postMessage _ | .askAgent .. => true
  | _ => false

theorem Call.posts_moves {auth : AuthCtx} {c : Call} (hc : c.posts = true) (pid : Nat) :
    Bus.Moves (Posts auth) (c.run auth pid) := by
  cases c with
  | postMessage input => exact (postMessage_moves auth pid input).map _
  | askAgent input received => exact (askAgent_moves auth pid input received).map _
  | _ => cases hc

/-- What a call posts goes into the outbox only if it is a message in a channel. -/
theorem direct_unqueued {pg : Pg} (hv : pg.Valid) {auth : AuthCtx} {c : Call} (hc : c.posts = true) (pid : Nat)
    (hdirect : ∀ m ∈ (pg.call auth pid c).2.db.messages, m ∈ pg.db.messages ∨ m.recipientAgentId.isSome = true) :
    (pg.call auth pid c).2.db.deliveries = pg.db.deliveries := by
  have hposts : Posts auth pg (pg.call auth pid c).2 := by
    unfold Pg.call
    split
    · exact c.posts_moves hc pid pg
    · exact .inl rfl
  rcases hposts with hsame | ⟨input, target, m, files, rows, hpost, hdb⟩
  · rw [hsame]
  · have hfresh : ∀ o ∈ pg.db.messages, o.id ≠ m.id := fresh_of_posted (hv.next (.call auth pid c)) hdb
    have hmem : m ∈ (pg.call auth pid c).2.db.messages := by
      rw [hdb]
      exact List.mem_append_right _ List.mem_cons_self
    have hto := (hdirect m hmem).resolve_left fun hm => hfresh m hm rfl
    rw [hdb, hpost.unqueued hto]
    exact List.append_nil _

/-- An agent gets the same answer from every read in every session, and the same page, in two states that differ in direct
    messages of others and their files only; and a direct message that is posted queues nothing for a hook. -/
theorem direct_confidential {pg pg' : Pg} (hv : pg.Valid) (hv' : pg'.Valid) {agent : Uuid} (hnow : pg'.now = pg.now)
    (hrows : pg.db.SecretsApart agent pg'.db) :
    (∀ auth pid c, auth.agentId = agent → c.reads = true → (pg'.call auth pid c).1 = (pg.call auth pid c).1) ∧
      (∀ team, ((Dashboard.load team).exec pg').1 = ((Dashboard.load team).exec pg).1) ∧
      ∀ auth pid c, c.posts = true →
        (∀ m ∈ (pg.call auth pid c).2.db.messages, m ∈ pg.db.messages ∨ m.recipientAgentId.isSome = true) →
          (pg.call auth pid c).2.db.deliveries = pg.db.deliveries := by
  have hsame : pg'.knownTo agent = pg.knownTo agent := by rw [Pg.knownTo, Pg.knownTo, hnow, hrows.known]
  refine ⟨fun auth pid c hagent hc => ?_, fun team => ?_, fun auth pid c hc hdirect => direct_unqueued hv hc pid hdirect⟩
  · have hquiet : c.quiet = true := by
      cases c <;> first | exact hc | cases hc
    subst hagent
    rw [← call_knownTo hv' auth pid hquiet, ← call_knownTo hv auth pid hquiet, hsame]
  · rw [← (load_knownTo team agent).answer pg' hv', ← (load_knownTo team agent).answer pg hv, hsame]

end

namespace Sample
attribute [local instance] Platform.ascii

/-- The crew with a third agent. -/
def trio : Pg := (Pg.init 0).after (crew ++ [.command 0 (.agentAdd "core" "cid" none)])

theorem trio_valid : trio.Valid := ((Pg.Reachable.init 0).after _).valid

def cid : AuthCtx := { agentId := 3, agentName := "cid", teamId := 0, teamSlug := "core", session := "" }

/-- What ann tells bob. -/
def whisper : Event := .call ann 0 (.postMessage ⟨none, some "bob", false, "cid is slow", none, none, []⟩)

theorem whisper_secret : whisper.Secret 3 trio := by
  change ∀ m ∈ (trio.next whisper).db.messages, m ∈ trio.db.messages ∨ m.openTo 3 = false
  decide

theorem whisper_unread :
    (trio.next whisper).db.messages.length = 1 ∧
      ((trio.next whisper).call cid 0 (.readMessages ⟨"all", true, 50, true⟩)).1 =
        (trio.call cid 0 (.readMessages ⟨"all", true, 50, true⟩)).1 :=
  ⟨by decide, (@reads_confidential Platform.ascii (trio.next whisper) trio (trio_valid.next _) trio_valid 3 (by decide)
    (secret_hidden trio_valid whisper_secret).1).1 cid 0 _ rfl rfl⟩

theorem whisper_kept :
    ((trio.after [whisper, .tick 5]).call cid 0 (.searchMessages "slow" 50)).1 =
      (({ trio with now := (trio.after [whisper, .tick 5]).now } : Pg).call cid 0 (.searchMessages "slow" 50)).1 :=
  (@secrets_kept Platform.ascii trio trio_valid 3 [whisper, .tick 5] ⟨whisper_secret, trivial, trivial⟩).1 cid 0 _ rfl rfl

/-- Cid cannot tell whether ann has written to bob; and no hook gets it. -/
theorem whisper_confidential :
    ((trio.next whisper).call cid 0 (.readMessages ⟨"inbox", false, 50, true⟩)).1 =
        (trio.call cid 0 (.readMessages ⟨"inbox", false, 50, true⟩)).1 ∧
      (trio.next whisper).db.deliveries = trio.db.deliveries := by
  obtain ⟨hreads, -, hqueue⟩ := @direct_confidential Platform.ascii trio (trio.next whisper) trio_valid
    (trio_valid.next whisper) 3 rfl ⟨by decide, by decide, by decide⟩
  exact ⟨hreads cid 0 _ rfl rfl, hqueue ann 0 _ rfl (by decide)⟩

end Sample
end CrewSync
