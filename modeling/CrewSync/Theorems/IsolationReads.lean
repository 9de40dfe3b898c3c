import CrewSync.Dashboard
import CrewSync.Footprint.Teams
import CrewSync.Theorems.CursorKeys
import CrewSync.Views

/-! What a read sees of a server with several teams: it answers from the rows of the caller's team alone. -/

namespace CrewSync

section
variable {db : Db} {seqs : Seqs} {team agent id : Uuid}

/-! ### What a team can see of the server -/

/-- The rows that the members of a team can see: the outbox and the webhooks are the operators'. -/
def Db.shared (db : Db) (team : Uuid) : Db := { db.ofTeam team with webhooks := [], deliveries := [] }

/-- The server without what the members of the team cannot see. -/
def Pg.ofTeam (pg : Pg) (team : Uuid) : Pg := { Pg.init pg.now with db := pg.db.shared team }

theorem agentName_ofTeam (hk : db.Keys seqs) (h : db.agentIn id team = true) :
    (db.ofTeam team).agentName id = db.agentName id := by
  have hfind : (db.ofTeam team).agents.find? (·.id == id) = db.agents.find? (·.id == id) :=
    Rows.find?_part fun a ha hid => beq_iff_eq.2 (hk.agent_team h a ha (beq_iff_eq.1 hid))
  rw [Db.agentName, hfind]
  rfl

theorem agentNames_ofTeam (hk : db.Keys seqs) {o : Option Uuid} (h : ∀ a ∈ o, db.agentIn a team = true) :
    o.bind (db.ofTeam team).agentName = o.bind db.agentName := by
  cases o with
  | none => rfl
  | some a => exact agentName_ofTeam hk (h a rfl)

theorem channelName_ofTeam (hk : db.Keys seqs) {o : Option Uuid} (h : ∀ c ∈ o, db.channelIn c team = true) :
    o.bind (db.ofTeam team).channelName = o.bind db.channelName := by
  cases o with
  | none => rfl
  | some id =>
    have hfind : (db.ofTeam team).channels.find? (·.id == id) = db.channels.find? (·.id == id) :=
      Rows.find?_part fun c hc hid => beq_iff_eq.2 (hk.channel_team (h id rfl) c hc (beq_iff_eq.1 hid))
    rw [Option.bind_some, Db.channelName, hfind]
    rfl

theorem findChannel_ofTeam (name : String) : (db.ofTeam team).findChannel team name = db.findChannel team name :=
  Rows.find?_part fun _ _ h => (Bool.and_eq_true_iff.1 h).1

theorem messageInfo_ofTeam (hk : db.Keys seqs) (hr : db.Refs) {m : Message} (hm : m ∈ db.messages) (hteam : m.teamId = team) :
    (db.ofTeam team).messageInfo? m = db.messageInfo? m := by
  subst hteam
  have hfiles : ((db.ofTeam m.teamId).attachments.filter (·.messageId == some m.id)) =
      db.attachments.filter (·.messageId == some m.id) :=
    Rows.filter_part fun a ha hid => by
      have hin := hr.files a ha m.id (beq_iff_eq.1 hid)
      exact beq_iff_eq.2 (hk.message_team hin m hm rfl).symm
  unfold Db.messageInfo?
  rw [agentName_ofTeam hk (hr.senders m hm).2, channelName_ofTeam hk (hr.posted m hm), hfiles,
    agentNames_ofTeam hk (hr.recipients m hm)]

theorem newest_ofTeam (hk : db.Keys seqs) (hr : db.Refs) {p : Message → Bool}
    (hp : ∀ m ∈ db.messages, p m = true → m.teamId = team) (limit : Int) :
    (db.ofTeam team).newest p limit = db.newest p limit := by
  have hrows : (db.ofTeam team).messages.filter p = db.messages.filter p :=
    Rows.filter_part fun m hm h => beq_iff_eq.2 (hp m hm h)
  unfold Db.newest
  rw [hrows]
  refine congrArg (List.take _) (List.filterMap_congr fun m hm => ?_)
  obtain ⟨hm, h⟩ := List.mem_filter.1 (Rows.mem_orderBy.1 hm)
  exact messageInfo_ofTeam hk hr hm (hp m hm h)

theorem lastRead_ofTeam (h : db.agentIn agent team = true) (key : String) :
    (db.ofTeam team).lastRead agent key = db.lastRead agent key := by
  unfold Db.lastRead
  have hfind : (db.ofTeam team).cursors.find? (fun c => c.agentId == agent && c.scope == key) =
      db.cursors.find? fun c => c.agentId == agent && c.scope == key :=
    Rows.find?_part fun c _ hc => by rw [beq_iff_eq.1 (Bool.and_eq_true_iff.1 hc).1, h]
  rw [hfind]

theorem task_ofTeam (hk : db.Keys seqs) (h : db.taskIn id team = true) :
    (db.ofTeam team).tasks.find? (·.id == id) = db.tasks.find? (·.id == id) :=
  Rows.find?_part fun t ht hid => beq_iff_eq.2 (hk.task_team h t ht (beq_iff_eq.1 hid))

theorem deps_ofTeam (h : db.taskIn id team = true) :
    (db.ofTeam team).taskDeps.filter (·.taskId == id) = db.taskDeps.filter (·.taskId == id) :=
  Rows.filter_part fun d _ hid => by rw [beq_iff_eq.1 hid, h]

/-- What a task waits for is in its team. -/
theorem dep_team (hk : db.Keys seqs) (hr : db.Refs) {d : TaskDep} (hd : d ∈ db.taskDeps)
    (h : db.taskIn d.taskId team = true) : db.taskIn d.blockedByTaskId team = true := by
  obtain ⟨t, hfrom, hto⟩ := hr.taskDeps d hd
  rcases taskIn_iff.1 hfrom with ⟨u, hu, hid, rfl⟩
  rwa [hk.task_team h u hu hid] at hto

theorem dependsOn_ofTeam (hk : db.Keys seqs) (hr : db.Refs) (h : db.taskIn id team = true) :
    (db.ofTeam team).dependsOn id = db.dependsOn id := by
  unfold Db.dependsOn
  rw [deps_ofTeam h]
  refine congrArg (Rows.orderBy _) (List.filterMap_congr fun d hd => ?_)
  obtain ⟨hd, hid⟩ := List.mem_filter.1 hd
  rw [task_ofTeam hk (dep_team hk hr hd (beq_iff_eq.1 hid ▸ h))]

theorem blocked_ofTeam (hk : db.Keys seqs) (hr : db.Refs) (h : db.taskIn id team = true) :
    (db.ofTeam team).blocked id = db.blocked id := by
  have hpart : ∀ db : Db, db.blocked id = (db.taskDeps.filter (·.taskId == id)).any fun d =>
      db.tasks.any fun t => t.id == d.blockedByTaskId && !t.status.finished := fun db => List.any_filter.symm
  rw [hpart, hpart, deps_ofTeam h, Bool.eq_iff_iff, List.any_eq_true, List.any_eq_true]
  refine exists_congr fun d => and_congr_right fun hd => ?_
  obtain ⟨hd, hid⟩ := List.mem_filter.1 hd
  have hin := dep_team hk hr hd (beq_iff_eq.1 hid ▸ h)
  have htasks : ((db.ofTeam team).tasks.any fun t => t.id == d.blockedByTaskId && !t.status.finished) =
      db.tasks.any fun t => t.id == d.blockedByTaskId && !t.status.finished :=
    Rows.any_part fun t ht h => beq_iff_eq.2 (hk.task_team hin t ht (beq_iff_eq.1 (Bool.and_eq_true_iff.1 h).1))
  rw [htasks]

theorem taskInfo_ofTeam (hk : db.Keys seqs) (hr : db.Refs) {t : Task} (ht : t ∈ db.tasks) (hteam : t.teamId = team)
    (now : Time) : (db.ofTeam team).taskInfo now t = db.taskInfo now t := by
  subst hteam
  have hin : db.taskIn t.id t.teamId = true := taskIn_iff.2 ⟨t, ht, rfl, rfl⟩
  have hfiles : ((db.ofTeam t.teamId).attachments.filter (·.taskId == some t.id)) =
      db.attachments.filter (·.taskId == some t.id) :=
    Rows.filter_part fun a ha hid => by
      have hfile := hr.taskFiles a ha t.id (beq_iff_eq.1 hid)
      exact beq_iff_eq.2 (hk.task_team hfile t ht rfl).symm
  obtain ⟨-, hclaimed, hcreated⟩ := Db.taskOk_iff.1 (hr.tasks t ht)
  unfold Db.taskInfo
  rw [dependsOn_ofTeam hk hr hin, blocked_ofTeam hk hr hin, agentNames_ofTeam hk hclaimed, hfiles,
    agentNames_ofTeam hk hcreated]

theorem noteInfo_ofTeam (hk : db.Keys seqs) (hr : db.Refs) {n : Note} (hn : n ∈ db.notes) (hteam : n.teamId = team) :
    (db.ofTeam team).noteInfo n = db.noteInfo n := by
  subst hteam
  unfold Db.noteInfo
  rw [agentNames_ofTeam hk (Db.noteOk_iff.1 (hr.notes n hn)).2]

theorem lockInfo_ofTeam (hk : db.Keys seqs) (hr : db.Refs) {l : Lock} (hl : l ∈ db.locks) (hteam : l.teamId = team) :
    (db.ofTeam team).lockInfo? l = db.lockInfo? l := by
  subst hteam
  unfold Db.lockInfo?
  rw [agentName_ofTeam hk (Db.lockOk_iff.1 (hr.locks l hl)).2]

theorem activeLocks_ofTeam (now : Time) : (db.ofTeam team).activeLocks team now = db.activeLocks team now := by
  have hrows : (db.ofTeam team).locks.filter (fun l => l.teamId == team && decide (now < l.expiresAt)) =
      db.locks.filter fun l => l.teamId == team && decide (now < l.expiresAt) :=
    Rows.filter_part fun _ _ h => (Bool.and_eq_true_iff.1 h).1
  rw [Db.activeLocks, hrows]
  rfl

theorem lockInfos_ofTeam (hk : db.Keys seqs) (hr : db.Refs) (now : Time) :
    ((db.ofTeam team).activeLocks team now).filterMap (db.ofTeam team).lockInfo? =
      (db.activeLocks team now).filterMap db.lockInfo? := by
  rw [activeLocks_ofTeam]
  refine List.filterMap_congr fun l hl => ?_
  obtain ⟨hl, h⟩ := List.mem_filter.1 (Rows.mem_orderBy.1 hl)
  exact lockInfo_ofTeam hk hr hl (beq_iff_eq.1 (Bool.and_eq_true_iff.1 h).1)

theorem presence_ofTeam (h : db.agentIn id team = true) :
    (db.ofTeam team).presence.filter (·.agentId == id) = db.presence.filter (·.agentId == id) :=
  Rows.filter_part fun p _ hid => by rw [beq_iff_eq.1 hid, h]

theorem roster_ofTeam : (db.ofTeam team).roster team = db.roster team := by
  have hrows : (db.ofTeam team).agents.filter (fun a => a.teamId == team && a.disabledAt.isNone) =
      db.agents.filter fun a => a.teamId == team && a.disabledAt.isNone :=
    Rows.filter_part fun _ _ h => (Bool.and_eq_true_iff.1 h).1
  unfold Db.roster
  rw [hrows]
  refine List.flatMap_congr fun a ha => ?_
  obtain ⟨ha, h⟩ := List.mem_filter.1 ha
  have hin : db.agentIn a.id team = true := agentIn_iff.2 ⟨a, ha, rfl, beq_iff_eq.1 (Bool.and_eq_true_iff.1 h).1⟩
  rw [presence_ofTeam hin]

theorem agentsSeen_ofTeam (now : Time) : (db.ofTeam team).agentsSeen team now = db.agentsSeen team now := by
  have hrows : (db.ofTeam team).agents.filter (fun a => a.teamId == team && a.disabledAt.isNone) =
      db.agents.filter fun a => a.teamId == team && a.disabledAt.isNone :=
    Rows.filter_part fun _ _ h => (Bool.and_eq_true_iff.1 h).1
  have hbest : ((db.agents.filter fun a => a.teamId == team && a.disabledAt.isNone).map fun a =>
      (a, (db.ofTeam team).bestPresence now a.id)) =
        (db.agents.filter fun a => a.teamId == team && a.disabledAt.isNone).map fun a => (a, db.bestPresence now a.id) := by
    refine List.map_congr_left fun a ha => ?_
    obtain ⟨ha, h⟩ := List.mem_filter.1 ha
    have hin : db.agentIn a.id team = true := agentIn_iff.2 ⟨a, ha, rfl, beq_iff_eq.1 (Bool.and_eq_true_iff.1 h).1⟩
    rw [Db.bestPresence, presence_ofTeam hin]
    rfl
  unfold Db.agentsSeen
  dsimp only
  rw [hrows, hbest]

theorem inWindow_ofTeam (hk : db.Keys seqs) (hr : db.Refs) (since : Time) (focus : Option Uuid) :
    (db.ofTeam team).inWindow team since focus = db.inWindow team since focus := by
  have hchannel : ∀ m ∈ db.messages, m.teamId = team → (m.channelId.bind fun id => (db.ofTeam team).channels.find? (·.id == id)) =
      m.channelId.bind fun id => db.channels.find? (·.id == id) := by
    rintro m hm rfl
    cases hid : m.channelId with
    | none => rfl
    | some id =>
      have hin := hr.posted m hm id hid
      exact Rows.find?_part fun c hc h => beq_iff_eq.2 (hk.channel_team hin c hc (beq_iff_eq.1 h))
  have hrows : (db.ofTeam team).inWindow team since focus =
      ({ db with messages := db.messages.filter (·.teamId == team) } : Db).inWindow team since focus := by
    refine List.filterMap_congr fun m hm => ?_
    obtain ⟨hm, hteam⟩ := List.mem_filter.1 hm
    have hteam := beq_iff_eq.1 hteam
    rw [hchannel m hm hteam, agentName_ofTeam hk (hteam ▸ (hr.senders m hm).2)]
    rfl
  rw [hrows]
  refine Rows.filterMap_part fun m hm hsome => ?_
  obtain ⟨row, hrow⟩ := Option.isSome_iff_exists.1 hsome
  simp only [Option.bind_eq_bind, Option.bind_eq_some_iff] at hrow
  obtain ⟨c, ⟨id, hid, hc⟩, sender, -, hrow⟩ := hrow
  split at hrow
  · next hcond =>
    simp only [Bool.and_eq_true, beq_iff_eq] at hcond
    have hin := hr.posted m hm id hid
    have hcid : c.id = id := by simpa using List.find?_some hc
    rw [← hk.channel_team hin c (List.mem_of_find?_eq_some hc) hcid, hcond.1.1]
    exact beq_self_eq_true team
  · cases hrow

theorem channelActivity_ofTeam (hk : db.Keys seqs) (hr : db.Refs) (since : Time) (focus : Option Uuid) :
    (db.ofTeam team).channelActivity team since focus = db.channelActivity team since focus := by
  unfold Db.channelActivity Db.windowed
  rw [inWindow_ofTeam hk hr]

theorem tasks_ofTeam (p : Task → Bool) (hp : ∀ t, p t = true → t.teamId = team) :
    (db.ofTeam team).tasks.filter p = db.tasks.filter p :=
  Rows.filter_part fun t _ h => beq_iff_eq.2 (hp t h)

theorem notes_ofTeam (p : Note → Bool) (hp : ∀ n, p n = true → n.teamId = team) :
    (db.ofTeam team).notes.filter p = db.notes.filter p :=
  Rows.filter_part fun n _ h => beq_iff_eq.2 (hp n h)

theorem tasksMoved_ofTeam (hk : db.Keys seqs) (hr : db.Refs) (since : Time) :
    (db.ofTeam team).tasksMoved team since = db.tasksMoved team since := by
  unfold Db.tasksMoved
  rw [tasks_ofTeam _ fun t h => beq_iff_eq.1 (Bool.and_eq_true_iff.1 h).1]
  refine List.map_congr_left fun t ht => ?_
  obtain ⟨ht, h⟩ := List.mem_filter.1 (Rows.mem_orderBy.1 (List.mem_of_mem_take ht))
  have hteam : t.teamId = team := beq_iff_eq.1 (Bool.and_eq_true_iff.1 h).1
  have hclaimed := (Db.taskOk_iff.1 (hr.tasks t ht)).2.1
  rw [agentNames_ofTeam hk (hteam ▸ hclaimed)]

theorem notesUpdated_ofTeam (hk : db.Keys seqs) (hr : db.Refs) (since : Time) :
    (db.ofTeam team).notesUpdated team since = db.notesUpdated team since := by
  unfold Db.notesUpdated
  rw [notes_ofTeam _ fun n h => beq_iff_eq.1 (Bool.and_eq_true_iff.1 h).1]
  refine List.map_congr_left fun n hn => ?_
  obtain ⟨hn, h⟩ := List.mem_filter.1 (Rows.mem_orderBy.1 (List.mem_of_mem_take hn))
  have hteam : n.teamId = team := beq_iff_eq.1 (Bool.and_eq_true_iff.1 h).1
  rw [agentNames_ofTeam hk (hteam ▸ (Db.noteOk_iff.1 (hr.notes n hn)).2)]

theorem countTasks_ofTeam (status : TaskStatus) : (db.ofTeam team).countTasks team status = db.countTasks team status := by
  unfold Db.countTasks
  rw [tasks_ofTeam _ fun t h => beq_iff_eq.1 (Bool.and_eq_true_iff.1 h).1]

end

/-! ### Calls that read -/

section
variable [Platform] {auth : AuthCtx} {α : Type}

/-- The state of an authenticated call. -/
def Caller.Here (auth : AuthCtx) (pg : Pg) : Prop := pg.Valid ∧ auth.authentic pg.db = true

/-- The call sees its own team only. -/
abbrev Bus.SeesTeam (auth : AuthCtx) (x : Bus α) : Prop := Bus.Sees (·.ofTeam auth.teamId) (Caller.Here auth) x

theorem defaultChannel_seesTeam : Bus.SeesTeam auth (defaultChannel auth) := by
  unfold defaultChannel
  refine .ite .pure (.select fun pg _ => ?_)
  change ((pg.db.ofTeam auth.teamId).findChannel _ _).map _ = _
  rw [findChannel_ofTeam]

theorem focusOf_seesTeam (allChannels : Bool) : Bus.SeesTeam auth (focusOf auth allChannels) := by
  unfold focusOf
  exact .ite .pure (defaultChannel_seesTeam.map _)

theorem whoami_seesTeam : Bus.SeesTeam auth (whoami auth) := by
  unfold whoami
  refine .reads (.select fun pg h => ?_) fun unread => .reads (.select fun pg h => ?_) fun claimed =>
    defaultChannel_seesTeam.reads fun channel => .pure
  · obtain ⟨hv, hauth⟩ := h
    have hcaller := AuthCtx.authentic.caller hauth
    change unreadInbox auth (pg.db.ofTeam auth.teamId) = unreadInbox auth pg.db
    unfold unreadInbox
    rw [lastRead_ofTeam hcaller]
    refine congrArg (fun rows : List Message => (rows.length : Int)) (Rows.filter_part fun m hm hp => ?_)
    simp only [Bool.and_eq_true, beq_iff_eq] at hp
    exact beq_iff_eq.2 (hv.keys.agentIn_eq hcaller (hv.refs.recipients m hm auth.agentId hp.1.1))
  · obtain ⟨hv, hauth⟩ := h
    have hcaller := AuthCtx.authentic.caller hauth
    refine congrArg List.length (Rows.filter_part fun t ht hp => ?_)
    simp only [heldBy, Bool.and_eq_true, beq_iff_eq] at hp
    exact beq_iff_eq.2 (hv.keys.agentIn_eq hcaller ((Db.taskOk_iff.1 (hv.refs.tasks t ht)).2.1 auth.agentId hp.2.1))

theorem teamDigest_seesTeam {hours : Int} {allChannels : Bool} : Bus.SeesTeam auth (teamDigest auth hours allChannels) := by
  unfold teamDigest
  refine (focusOf_seesTeam allChannels).reads fun focus => .reads (.select fun pg h => ?_) fun _ =>
    .reads (.select fun pg h => ?_) fun _ => .reads (.select fun pg h => ?_) fun _ => .reads (.select fun pg h => ?_) fun _ =>
      .reads (.select fun pg h => ?_) fun _ => .reads (.select fun pg h => ?_) fun _ => .pure
  · exact channelActivity_ofTeam h.1.keys h.1.refs _ _
  · exact tasksMoved_ofTeam h.1.keys h.1.refs _
  · exact congrArg₂ Prod.mk (countTasks_ofTeam _) (countTasks_ofTeam _)
  · exact notesUpdated_ofTeam h.1.keys h.1.refs _
  · exact agentsSeen_ofTeam _
  · exact lockInfos_ofTeam h.1.keys h.1.refs _

omit [Platform] in
theorem listAgents_seesTeam {onlineOnly : Bool} : Bus.SeesTeam auth (listAgents auth onlineOnly) := by
  refine .select fun pg h => ?_
  change foldRoster pg.now (Rows.orderBy _ (((pg.db.ofTeam auth.teamId).roster auth.teamId).filter _)) = _
  rw [roster_ofTeam]
  rfl

omit [Platform] in
theorem listChannels_seesTeam : Bus.SeesTeam auth (listChannels auth) := by
  refine .select fun pg h => ?_
  have hrows : (pg.db.ofTeam auth.teamId).channels.filter (·.teamId == auth.teamId) =
      pg.db.channels.filter (·.teamId == auth.teamId) := Rows.filter_part fun _ _ h => h
  change (Rows.orderBy _ ((pg.db.ofTeam auth.teamId).channels.filter _)).map _ = _
  rw [hrows]
  refine List.map_congr_left fun c hc => ?_
  obtain ⟨hc, hteam⟩ := List.mem_filter.1 (Rows.mem_orderBy.1 hc)
  have hmessages : (pg.db.ofTeam auth.teamId).messages.filter (·.channelId == some c.id) =
      pg.db.messages.filter (·.channelId == some c.id) :=
    Rows.filter_part fun m hm hid => by
      have hin := h.1.refs.posted m hm c.id (beq_iff_eq.1 hid)
      rw [← h.1.keys.channel_team hin c hc rfl]
      exact hteam
  change ChannelInfo.mk c.name c.topic ((pg.db.ofTeam auth.teamId).messages.filter _).length _ = _
  rw [hmessages]

theorem searchMessages_seesTeam {query : String} {limit : Int} : Bus.SeesTeam auth (searchMessages auth query limit) := by
  unfold searchMessages
  refine .guard (.reads (.select fun pg h => ?_) fun _ => .pure)
  refine newest_ofTeam h.1.keys h.1.refs (fun m _ hfound => ?_) _
  simp only [found, Bool.and_eq_true, beq_iff_eq] at hfound
  exact hfound.1.1

omit [Platform] in
theorem getAttachment_seesTeam {id : Int} : Bus.SeesTeam auth (getAttachment auth id) := by
  unfold getAttachment
  refine .reads (.select fun pg h => ?_) fun row => ?_
  · obtain ⟨hv, -⟩ := h
    have hfind : (pg.db.ofTeam auth.teamId).attachments.find? (fun a => a.id == id && a.teamId == auth.teamId) =
        pg.db.attachments.find? fun a => a.id == id && a.teamId == auth.teamId :=
      Rows.find?_part fun a _ h => (Bool.and_eq_true_iff.1 h).2
    change (pg.db.ofTeam auth.teamId).attachmentRow? auth.teamId id = pg.db.attachmentRow? auth.teamId id
    unfold Db.attachmentRow?
    rw [hfind]
    refine Option.bind_congr fun a ha => ?_
    have hmem := List.mem_of_find?_eq_some ha
    have hp := List.find?_some ha
    simp only [Bool.and_eq_true, beq_iff_eq] at hp
    have hteam : a.teamId = auth.teamId := hp.2
    have hmessage : (a.messageId.bind fun m => (pg.db.ofTeam auth.teamId).messages.find? (·.id == m)) =
        a.messageId.bind fun m => pg.db.messages.find? (·.id == m) := by
      cases hid : a.messageId with
      | none => rfl
      | some m =>
        have hin := hteam ▸ hv.refs.files a hmem m hid
        exact Rows.find?_part fun r hr h => beq_iff_eq.2 (hv.keys.message_team hin r hr (beq_iff_eq.1 h))
    rw [hmessage, agentName_ofTeam hv.keys (hteam ▸ (hv.refs.uploaders a hmem).2)]
  · cases row with
    | none => exact .throw
    | some r => exact .guard .pure

omit [Platform] in
theorem findTask_ofTeam {db : Db} {team : Uuid} (key : String) : (db.ofTeam team).findTask team key = db.findTask team key :=
  Rows.find?_part fun _ _ h => (Bool.and_eq_true_iff.1 h).1

theorem listTasks_seesTeam {status : Option String} {mineOnly : Bool} {limit : Int} :
    Bus.SeesTeam auth (listTasks auth status mineOnly limit) := by
  unfold listTasks
  refine .guard (.reads (.select fun pg h => ?_) fun _ => .reads (.select fun pg h => ?_) fun _ => .pure)
  · change ((Rows.orderBy taskOrder ((pg.db.ofTeam auth.teamId).tasks.filter _)).take _).map _ = _
    rw [tasks_ofTeam _ fun t h => beq_iff_eq.1 (Bool.and_eq_true_iff.1 (Bool.and_eq_true_iff.1 h).1).1]
    refine List.map_congr_left fun t ht => ?_
    obtain ⟨ht, hp⟩ := List.mem_filter.1 (Rows.mem_orderBy.1 (List.mem_of_mem_take ht))
    simp only [Bool.and_eq_true, beq_iff_eq] at hp
    exact taskInfo_ofTeam h.1.keys h.1.refs ht hp.1.1 _
  · have hrows : (pg.db.ofTeam auth.teamId).tasks.filter (·.teamId == auth.teamId) =
        pg.db.tasks.filter (·.teamId == auth.teamId) := Rows.filter_part fun _ _ h => h
    change ((((pg.db.ofTeam auth.teamId).tasks.filter (·.teamId == auth.teamId)).filter _).length,
      (((pg.db.ofTeam auth.teamId).tasks.filter (·.teamId == auth.teamId)).filter _).length) = _
    rw [hrows]

omit [Platform] in
theorem fetchTask_seesTeam {key : String} : Bus.SeesTeam auth (fetchTask auth key) := by
  unfold fetchTask
  refine .reads (.select fun pg h => ?_) fun row => ?_
  · change ((pg.db.ofTeam auth.teamId).findTask auth.teamId key).map _ = _
    rw [findTask_ofTeam]
    cases hfind : pg.db.findTask auth.teamId key with
    | none => rfl
    | some t =>
      have hmem := List.mem_of_find?_eq_some hfind
      have hp := List.find?_some hfind
      simp only [Bool.and_eq_true, beq_iff_eq] at hp
      have hteam : t.teamId = auth.teamId := hp.1
      exact congrArg some (taskInfo_ofTeam h.1.keys h.1.refs hmem hteam _)
  · cases row with
    | none => exact .throw
    | some t => exact .pure

omit [Platform] in
theorem getTask_seesTeam {key : String} : Bus.SeesTeam auth (getTask auth key) := by
  unfold getTask
  refine fetchTask_seesTeam.reads fun task => .reads (.select fun pg h => ?_) fun _ => .pure
  obtain ⟨hv, -⟩ := h
  have htasks : ∀ e : TaskEvent, ((pg.db.ofTeam auth.teamId).tasks.any fun t =>
      t.id == e.taskId && t.teamId == auth.teamId && t.key == trim key) =
        pg.db.tasks.any fun t => t.id == e.taskId && t.teamId == auth.teamId && t.key == trim key := fun e =>
    Rows.any_part fun t _ h => (Bool.and_eq_true_iff.1 (Bool.and_eq_true_iff.1 h).1).2
  have hrows : ((pg.db.ofTeam auth.teamId).taskEvents.filter fun e => pg.db.tasks.any fun t =>
      t.id == e.taskId && t.teamId == auth.teamId && t.key == trim key) =
        pg.db.taskEvents.filter fun e => pg.db.tasks.any fun t =>
          t.id == e.taskId && t.teamId == auth.teamId && t.key == trim key :=
    Rows.filter_part fun e _ h => by
      obtain ⟨t, ht, h⟩ := List.any_eq_true.1 h
      simp only [Bool.and_eq_true, beq_iff_eq] at h
      exact taskIn_iff.2 ⟨t, ht, h.1.1, h.1.2⟩
  change (Rows.orderBy _ ((pg.db.ofTeam auth.teamId).taskEvents.filter fun e => (pg.db.ofTeam auth.teamId).tasks.any _)).map _ = _
  simp only [htasks, hrows]
  refine List.map_congr_left fun e he => ?_
  obtain ⟨he, hp⟩ := List.mem_filter.1 (Rows.mem_orderBy.1 he)
  obtain ⟨t, ht, hp⟩ := List.any_eq_true.1 hp
  simp only [Bool.and_eq_true, beq_iff_eq] at hp
  obtain ⟨team, htask, hagent⟩ := hv.refs.taskEvents e he
  have hteam : team = auth.teamId := (hv.keys.task_team htask t ht hp.1.1).symm.trans hp.1.2
  change TaskEventInfo.mk e.event (e.agentId.bind (pg.db.ofTeam auth.teamId).agentName) _ _ = _
  rw [agentNames_ofTeam hv.keys (hteam ▸ hagent)]

omit [Platform] in
theorem findNote_ofTeam {db : Db} {team : Uuid} (scope key : String) :
    (db.ofTeam team).findNote team scope key = db.findNote team scope key :=
  Rows.find?_part fun _ _ h => (Bool.and_eq_true_iff.1 (Bool.and_eq_true_iff.1 h).1).1

theorem getNote_seesTeam {scope : Option String} {key : String} : Bus.SeesTeam auth (getNote auth scope key) := by
  unfold getNote
  refine .reads (.select fun pg h => ?_) fun _ => .pure
  change ((pg.db.ofTeam auth.teamId).findNote auth.teamId _ _).map _ = _
  rw [findNote_ofTeam]
  cases hfind : pg.db.findNote auth.teamId (normalizeScope scope) (trim key) with
  | none => rfl
  | some n =>
    have hmem := List.mem_of_find?_eq_some hfind
    have hp := List.find?_some hfind
    simp only [Bool.and_eq_true, beq_iff_eq] at hp
    have hteam : n.teamId = auth.teamId := hp.1.1
    exact congrArg some (noteInfo_ofTeam h.1.keys h.1.refs hmem hteam)

omit [Platform] in
/-- The notes of a query with a `WHERE` of its own. -/
theorem noteInfos_ofTeam {db : Db} {seqs : Seqs} {team : Uuid} (hk : db.Keys seqs) (hr : db.Refs) {le : Note → Note → Prop}
    [DecidableRel le] {p : Note → Bool} (hp : ∀ n, p n = true → n.teamId = team) (limit : Nat) :
    ((Rows.orderBy le ((db.ofTeam team).notes.filter p)).take limit).map (db.ofTeam team).noteInfo =
      ((Rows.orderBy le (db.notes.filter p)).take limit).map db.noteInfo := by
  rw [notes_ofTeam p hp]
  refine List.map_congr_left fun n hn => ?_
  obtain ⟨hn, h⟩ := List.mem_filter.1 (Rows.mem_orderBy.1 (List.mem_of_mem_take hn))
  exact noteInfo_ofTeam hk hr hn (hp n h)

theorem listNotes_seesTeam {scope tag : Option String} {limit : Int} : Bus.SeesTeam auth (listNotes auth scope tag limit) := by
  unfold listNotes
  refine .select fun pg h => noteInfos_ofTeam h.1.keys h.1.refs (fun n hp => ?_) _
  simp only [Bool.and_eq_true, beq_iff_eq] at hp
  exact hp.1.1

theorem searchNotes_seesTeam {query : String} {scope : Option String} {limit : Int} :
    Bus.SeesTeam auth (searchNotes auth query scope limit) := by
  unfold searchNotes
  refine .guard (.select fun pg h => noteInfos_ofTeam h.1.keys h.1.refs (fun n hp => ?_) _)
  simp only [Bool.and_eq_true, beq_iff_eq] at hp
  exact hp.1.1

omit [Platform] in
theorem listLocks_seesTeam : Bus.SeesTeam auth (listLocks auth) :=
  .select fun pg h => lockInfos_ofTeam h.1.keys h.1.refs pg.now

omit [Platform] in
theorem authentic_ofTeam (pg : Pg) : auth.authentic (pg.ofTeam auth.teamId).db = auth.authentic pg.db := by
  have hagents : ((pg.ofTeam auth.teamId).db.agents.any fun a => a.id == auth.agentId && a.teamId == auth.teamId &&
      a.name == auth.agentName && a.disabledAt.isNone) = pg.db.agents.any fun a => a.id == auth.agentId &&
        a.teamId == auth.teamId && a.name == auth.agentName && a.disabledAt.isNone :=
    Rows.any_part fun a _ h => by
      simp only [Bool.and_eq_true] at h
      exact h.1.1.2
  have hteams : ((pg.ofTeam auth.teamId).db.teams.any fun t => t.id == auth.teamId && t.slug == auth.teamSlug) =
      pg.db.teams.any fun t => t.id == auth.teamId && t.slug == auth.teamSlug :=
    Rows.any_part fun t _ h => (Bool.and_eq_true_iff.1 h).1
  rw [AuthCtx.authentic, hagents, hteams]
  rfl

theorem resolveScope_seesTeam {raw : String} : Bus.SeesTeam auth (resolveScope auth raw) := by
  unfold resolveScope
  cases parseScope raw with
  | inl scope => exact .pure
  | inr name =>
    refine .reads (.reads (.select fun pg h => ?_) fun row => ?_) fun id => .pure
    · change ((pg.db.ofTeam auth.teamId).findChannel auth.teamId _).map _ = _
      rw [findChannel_ofTeam]
    · cases row with
      | none => exact .throw
      | some id => exact .pure

theorem parseScope_ne {raw : String} {id : Uuid} {name : String} : parseScope raw ≠ .inl (.channel id name) := by
  intro h
  unfold parseScope at h
  dsimp only at h
  split at h
  · cases h
  · split at h <;> cases h

/-- A channel that a scope names is one of the team. -/
theorem resolveScope_channelIn {pg : Pg} {raw name : String} {id : Uuid}
    (h : ((resolveScope auth raw).exec pg).1 = .ok (.channel id name)) : pg.db.channelIn id auth.teamId = true := by
  unfold resolveScope at h
  cases hparse : parseScope raw with
  | inl scope =>
    rw [hparse] at h
    cases Except.ok.inj h
    exact absurd hparse parseScope_ne
  | inr text =>
    rw [hparse] at h
    simp only [channelIdByName, Bus.exec_bind, Bus.exec_select] at h
    cases hfind : pg.db.findChannel auth.teamId (normalizeChannel text) with
    | none =>
      rw [hfind] at h
      cases h
    | some c =>
      rw [hfind] at h
      cases h
      obtain ⟨hc, hteam, -⟩ := Db.findChannel_some hfind
      exact channelIn_iff.2 ⟨c, hc, rfl, hteam⟩

/-- The messages of a scope belong to the team. -/
theorem visible_team {pg : Pg} (h : Caller.Here auth pg) {raw : String} {scope : Scope} {allSessions : Bool}
    (hscope : ((resolveScope auth raw).exec pg).1 = .ok scope) {m : Message} (hm : m ∈ pg.db.messages)
    (hvisible : scope.visible auth allSessions m = true) : m.teamId = auth.teamId := by
  obtain ⟨hv, hauth⟩ := h
  cases scope with
  | all => exact beq_iff_eq.1 (Bool.and_eq_true_iff.1 hvisible).1
  | inbox =>
    have hrecipient := beq_iff_eq.1 (Bool.and_eq_true_iff.1 hvisible).1
    exact hv.keys.agentIn_eq (AuthCtx.authentic.caller hauth) (hv.refs.recipients m hm auth.agentId hrecipient)
  | channel id name =>
    have hposted := hv.refs.posted m hm id (beq_iff_eq.1 hvisible)
    rcases channelIn_iff.1 (resolveScope_channelIn hscope) with ⟨c, hc, hid, hteam⟩
    exact (hv.keys.channel_team hposted c hc hid).symm.trans hteam

/-- A read answers what the team's own messages answer. -/
theorem readMessages_ofTeam {pg : Pg} (h : Caller.Here auth pg) (pid : Nat) (input : ReadInput) :
    ((pg.ofTeam auth.teamId).call auth pid (.readMessages input)).1 = (pg.call auth pid (.readMessages input)).1 := by
  obtain ⟨hv, hauth⟩ := h
  have hcaller := AuthCtx.authentic.caller hauth
  have hauth' : auth.authentic (pg.ofTeam auth.teamId).db = true := (authentic_ofTeam pg).trans hauth
  have hsees : Bus.SeesTeam auth (resolveScope auth input.scope) := resolveScope_seesTeam
  have hresolve := hsees.answer pg ⟨hv, hauth⟩
  cases hscope : ((resolveScope auth input.scope).exec pg).1 with
  | error e =>
    rw [call_unresolved hauth pid hscope, call_unresolved hauth' pid (hresolve.trans hscope)]
  | ok scope =>
    have hfrom : (pg.ofTeam auth.teamId).db.readFrom auth scope input = pg.db.readFrom auth scope input := by
      unfold Db.readFrom
      split
      · exact lastRead_ofTeam hcaller _
      · rfl
    have hrows := newest_ofTeam hv.keys hv.refs (p := fun m => scope.visible auth input.allSessions m &&
      decide (pg.db.readFrom auth scope input < m.id)) (fun m hm hp =>
        visible_team ⟨hv, hauth⟩ hscope hm (Bool.and_eq_true_iff.1 hp).1) (clamp input.limit 1 maxLimit)
    have hlist : (pg.ofTeam auth.teamId).db.readList auth scope input = pg.db.readList auth scope input := by
      unfold Db.readList
      rw [hfrom]
      change MessageList.mk ((pg.db.ofTeam auth.teamId).newest _ _).reverse _
        (maxId _ ((pg.db.ofTeam auth.teamId).newest _ _).reverse)
        ((((pg.db.ofTeam auth.teamId).newest _ _).length : Int) == _) = _
      rw [hrows]
    rw [call_read hauth pid hscope, call_read hauth' pid (hresolve.trans hscope), hlist]

/-- The calls that answer from the tables. -/
def Call.reads : Call → Bool
  | .whoami | .teamDigest .. | .listAgents _ | .listChannels | .readMessages _ | .searchMessages .. | .getAttachment _
  | .listTasks .. | .getTask _ | .getNote .. | .listNotes .. | .searchNotes .. | .listLocks => true
  | _ => false

/-- A read answers the same without the rows of other teams. -/
theorem call_ofTeam {pg : Pg} (hv : pg.Valid) (auth : AuthCtx) (pid : Nat) {c : Call} (hc : c.reads = true) :
    ((pg.ofTeam auth.teamId).call auth pid c).1 = (pg.call auth pid c).1 := by
  by_cases hauth : auth.authentic pg.db = true
  · have hauth' : auth.authentic (pg.ofTeam auth.teamId).db = true := (authentic_ofTeam pg).trans hauth
    have of_sees : Bus.SeesTeam auth (c.run auth pid) →
        ((pg.ofTeam auth.teamId).call auth pid c).1 = (pg.call auth pid c).1 := by
      intro h
      rw [Pg.call, Pg.call, if_pos hauth, if_pos hauth']
      exact h.answer pg ⟨hv, hauth⟩
    cases c with
    | whoami => exact of_sees (whoami_seesTeam.map _)
    | teamDigest hours allChannels => exact of_sees (teamDigest_seesTeam.map _)
    | listAgents onlineOnly => exact of_sees (listAgents_seesTeam.map _)
    | listChannels => exact of_sees (listChannels_seesTeam.map _)
    | readMessages input => exact readMessages_ofTeam ⟨hv, hauth⟩ pid input
    | searchMessages query limit => exact of_sees (searchMessages_seesTeam.map _)
    | getAttachment id => exact of_sees (getAttachment_seesTeam.map _)
    | listTasks status mineOnly limit => exact of_sees (listTasks_seesTeam.map _)
    | getTask key => exact of_sees (getTask_seesTeam.map _)
    | getNote scope key => exact of_sees (getNote_seesTeam.map _)
    | listNotes scope tag limit => exact of_sees (listNotes_seesTeam.map _)
    | searchNotes query scope limit => exact of_sees (searchNotes_seesTeam.map _)
    | listLocks => exact of_sees (listLocks_seesTeam.map _)
    | _ => cases hc
  · rw [Pg.call, Pg.call, if_neg hauth, if_neg (by rwa [authentic_ofTeam])]

omit [Platform] in
theorem loadTotals_ofTeam (team : Uuid) : Bus.Sees (·.ofTeam team) Pg.Valid (Dashboard.loadTotals team) := by
  refine .select fun pg _ => ?_
  have hagents : ((pg.ofTeam team).db.agents.filter fun a => a.teamId == team &&
      (pg.ofTeam team).db.presence.any fun p => p.agentId == a.id && live pg.now p) =
        pg.db.agents.filter fun a => a.teamId == team && pg.db.presence.any fun p => p.agentId == a.id && live pg.now p := by
    refine Eq.trans (List.filter_congr fun a ha => ?_) (Rows.filter_part fun a _ h => (Bool.and_eq_true_iff.1 h).1)
    obtain ⟨ha, hteam⟩ := List.mem_filter.1 ha
    have hin : pg.db.agentIn a.id team = true := agentIn_iff.2 ⟨a, ha, rfl, beq_iff_eq.1 hteam⟩
    have hany : ((pg.ofTeam team).db.presence.any fun p => p.agentId == a.id && live pg.now p) =
        pg.db.presence.any fun p => p.agentId == a.id && live pg.now p :=
      Rows.any_part fun p _ h => by rw [beq_iff_eq.1 (Bool.and_eq_true_iff.1 h).1, hin]
    rw [hany]
  have hmessages : ((pg.ofTeam team).db.messages.filter fun m => m.teamId == team && m.channelId.isSome &&
      decide (pg.now - secs 86400 < m.createdAt)) = pg.db.messages.filter fun m => m.teamId == team && m.channelId.isSome &&
        decide (pg.now - secs 86400 < m.createdAt) :=
    Rows.filter_part fun m _ h => (Bool.and_eq_true_iff.1 (Bool.and_eq_true_iff.1 h).1).1
  change Dashboard.Totals.mk (((pg.ofTeam team).db.agents.filter _).map _).dedup.length
    ((pg.db.ofTeam team).countTasks team _) ((pg.db.ofTeam team).countTasks team _)
    ((pg.ofTeam team).db.messages.filter _).length = _
  rw [countTasks_ofTeam, countTasks_ofTeam]
  exact congrArg₂ (fun (agents : List Agent) (messages : List Message) =>
    Dashboard.Totals.mk (agents.map (·.id)).dedup.length _ _ messages.length) hagents hmessages

omit [Platform] in
/-- The page of a team shows its own rows. -/
theorem load_ofTeam (team : Uuid) : Bus.Sees (·.ofTeam team) Pg.Valid (Dashboard.load team) := by
  have hteam : Bus.Sees (·.ofTeam team) Pg.Valid (Dashboard.loadTeam team) := by
    refine .reads (.select fun pg h => ?_) fun row => ?_
    · have hfind : (pg.ofTeam team).db.findTeam team = pg.db.findTeam team := Rows.find?_part fun _ _ h => h
      rw [hfind]
    · cases row with
      | none => exact .throw
      | some slug => exact .pure
  have hagents : Bus.Sees (·.ofTeam team) Pg.Valid (Dashboard.loadAgents team) := by
    refine .select fun pg h => ?_
    change (Rows.orderBy _ ((pg.db.ofTeam team).roster team)).map _ = _
    rw [roster_ofTeam]
    rfl
  have htasks : Bus.Sees (·.ofTeam team) Pg.Valid (Dashboard.loadTasks team) := by
    refine .select fun pg h => ?_
    change ((Rows.orderBy taskOrder ((pg.db.ofTeam team).tasks.filter (·.teamId == team))).take 30).map _ = _
    rw [tasks_ofTeam _ fun t h => beq_iff_eq.1 h]
    refine List.map_congr_left fun t ht => ?_
    obtain ⟨ht, hteam⟩ := List.mem_filter.1 (Rows.mem_orderBy.1 (List.mem_of_mem_take ht))
    have hteam := beq_iff_eq.1 hteam
    have hin : pg.db.taskIn t.id team = true := taskIn_iff.2 ⟨t, ht, rfl, hteam⟩
    have hclaimed := (Db.taskOk_iff.1 (h.refs.tasks t ht)).2.1
    change Dashboard.TaskRow.mk _ _ _ (t.claimedBy.bind (pg.db.ofTeam team).agentName) _ ((pg.db.ofTeam team).blocked t.id) _ = _
    rw [agentNames_ofTeam h.keys (hteam ▸ hclaimed), blocked_ofTeam h.keys h.refs hin]
  have hmessages : Bus.Sees (·.ofTeam team) Pg.Valid (Dashboard.loadMessages team) := by
    refine .select fun pg h => ?_
    have hrows : (pg.ofTeam team).db.messages.filter (·.teamId == team) = pg.db.messages.filter (·.teamId == team) :=
      Rows.filter_part fun _ _ h => h
    rw [hrows]
    refine congrArg (List.take 20) (List.filterMap_congr fun m hm => ?_)
    obtain ⟨hm, hteam⟩ := List.mem_filter.1 (Rows.mem_orderBy.1 hm)
    have hteam := beq_iff_eq.1 hteam
    have hchannel : m.channelId.bind (pg.ofTeam team).db.channelName = m.channelId.bind pg.db.channelName :=
      channelName_ofTeam h.keys (hteam ▸ h.refs.posted m hm)
    have hsender : (pg.ofTeam team).db.agentName m.senderAgentId = pg.db.agentName m.senderAgentId :=
      agentName_ofTeam h.keys (hteam ▸ (h.refs.senders m hm).2)
    rw [Dashboard.messageRow?, hchannel, hsender]
    rfl
  have hlocks : Bus.Sees (·.ofTeam team) Pg.Valid (Dashboard.loadLocks team) := by
    refine .select fun pg h => ?_
    change ((pg.db.ofTeam team).activeLocks team pg.now).filterMap _ = _
    rw [activeLocks_ofTeam]
    refine List.filterMap_congr fun l hl => ?_
    obtain ⟨hl, hp⟩ := List.mem_filter.1 (Rows.mem_orderBy.1 hl)
    have hteam : l.teamId = team := beq_iff_eq.1 (Bool.and_eq_true_iff.1 hp).1
    change ((pg.db.ofTeam team).agentName l.holderAgentId).map _ = _
    rw [agentName_ofTeam h.keys (hteam ▸ (Db.lockOk_iff.1 (h.refs.locks l hl)).2)]
  have hnotes : Bus.Sees (·.ofTeam team) Pg.Valid (Dashboard.loadNotes team) := by
    refine .select fun pg h => ?_
    change ((Rows.orderBy _ ((pg.db.ofTeam team).notes.filter (·.teamId == team))).take 15).map _ = _
    rw [notes_ofTeam _ fun n h => beq_iff_eq.1 h]
    refine List.map_congr_left fun n hn => ?_
    obtain ⟨hn, hteam⟩ := List.mem_filter.1 (Rows.mem_orderBy.1 (List.mem_of_mem_take hn))
    change Dashboard.NoteRow.mk _ _ (n.updatedBy.bind (pg.db.ofTeam team).agentName) _ = _
    rw [agentNames_ofTeam h.keys (beq_iff_eq.1 hteam ▸ (Db.noteOk_iff.1 (h.refs.notes n hn)).2)]
  exact hteam.reads fun _ => (loadTotals_ofTeam team).reads fun _ => hagents.reads fun _ => htasks.reads fun _ =>
    hmessages.reads fun _ => hlocks.reads fun _ => hnotes.reads fun _ => .pure

end
end CrewSync
