import CrewSync.Theorems.ChannelNames
import CrewSync.Theorems.LockDeliveries
import CrewSync.Theorems.Posting

/-! The channel filter of a webhook. `webhook_add` stores the text in lower case, and channels are stored under their normal
    name: the filter names its channel just when the two are one. -/

namespace CrewSync

/-! ### The rows of one hook -/

/-- A hook gets one row for an event that it wants, and none for another. -/
theorem enqueued_filter {pg : Pg} {seqs : Seqs} (hk : pg.db.Keys seqs) {w : Webhook} (hw : w ∈ pg.db.webhooks)
    (team : Uuid) (kind : EventKind) (channel : Option String) (summary : String) (payload : Payload) (seqs' : Seqs) :
    (w ∈ pg.hooks team kind channel →
      ∃ d, (pg.enqueued team kind summary payload channel seqs').filter (·.webhookId == w.id) = [d]) ∧
      (w ∉ pg.hooks team kind channel →
        (pg.enqueued team kind summary payload channel seqs').filter (·.webhookId == w.id) = []) := by
  refine ⟨fun h => ?_, fun h => List.filter_eq_nil_iff.2 fun d hd hid => h ?_⟩
  · obtain ⟨d, hd, -, -⟩ := enqueued_one hk h summary payload seqs'
    exact ⟨d, hd⟩
  · obtain ⟨⟨w', i⟩, hi, rfl⟩ := List.mem_map.1 hd
    have hw' : w' ∈ pg.hooks team kind channel := by
      rw [← List.zipIdx_map_fst 1 (pg.hooks team kind channel)]
      exact List.mem_map_of_mem hi
    rwa [← hk.webhooks.eq (List.mem_filter.1 hw').1 hw (beq_iff_eq.1 hid)]

section
variable [Platform] {pg : Pg} {w : Webhook} {channel : Option String}

/-! ### Registered hooks -/

/-- The hook as `webhook_add` stores it. -/
structure Webhook.Stored (w : Webhook) (channel : Option String) : Prop where
  enabled : w.enabled = true
  filter : w.channelFilter = channel.map Platform.toLowercase

/-- A registration that adds a hook stores it so. -/
theorem webhookAdd_stored {pid : Nat} {team url kind events : String}
    (hold : w ∉ pg.db.webhooks) (hnew : w ∈ (pg.next (.command pid (.webhookAdd team url kind events channel))).db.webhooks) :
    w.Stored channel := by
  have hmoves : Bus.Moves (fun a b => ∀ w ∈ b.db.webhooks, w ∈ a.db.webhooks ∨ w.Stored channel)
      (Admin.webhookAdd team url kind events channel) := by
    have hrefl : ∀ pg : Pg, ∀ w ∈ pg.db.webhooks, w ∈ pg.db.webhooks ∨ w.Stored channel := fun _ _ h => .inl h
    refine .ite (.throw_bind hrefl) (.reads hrefl .check fun kinds => .ite (.throw_bind hrefl) ?_)
    refine .reads hrefl teamId_readOnly fun id pg w hw => ?_
    simp only [Bus.exec_execute, Sql.effect, Admin.insertWebhook] at hw
    split at hw
    · next hs =>
      split at hs
      · cases hs
        rcases List.mem_append.1 hw with hw | hw
        · exact .inl hw
        · rw [List.mem_singleton.1 hw]
          exact .inr ⟨rfl, rfl⟩
      · cases hs
    · exact .inl hw
  exact (hmoves pg w hnew).resolve_left hold

/-- On the way to `pg` the operator registered the hook, with this channel. -/
structure Pg.Registered (pg : Pg) (w : Webhook) (channel : Option String) : Prop where
  added : ∃ (pg₀ : Pg) (pid : Nat) (team url kind events : String) (es : List Event), pg₀.Reachable ∧ w ∉ pg₀.db.webhooks ∧
    w ∈ (pg₀.next (.command pid (.webhookAdd team url kind events channel))).db.webhooks ∧
    pg = (pg₀.next (.command pid (.webhookAdd team url kind events channel))).after es
  kept : w ∈ pg.db.webhooks

theorem Pg.Registered.stored (h : pg.Registered w channel) : w.Stored channel := by
  obtain ⟨pg₀, pid, team, url, kind, events, es, -, hold, hnew, -⟩ := h.added
  exact webhookAdd_stored hold hnew

theorem Pg.Registered.reachable (h : pg.Registered w channel) : pg.Reachable := by
  obtain ⟨pg₀, pid, team, url, kind, events, es, hreach, -, -, rfl⟩ := h.added
  exact (hreach.next _).after es

/-- On the way to `pg` somebody of the team created the channel `c`, and it was stored as `name`. -/
def Pg.Created (pg : Pg) (team : Uuid) (c name : String) : Prop :=
  ∃ (pg₀ : Pg) (auth : AuthCtx) (pid : Nat) (topic : Option String) (info : ChannelInfo) (es : List Event), pg₀.Reachable ∧
    auth.teamId = team ∧ (pg₀.call auth pid (.createChannel c topic)).1 = .ok (.channel info) ∧ info.name = name ∧
    pg = (pg₀.next (.call auth pid (.createChannel c topic))).after es

/-- The channel is there, under the normal name. -/
theorem Pg.Created.found {team : Uuid} {c name : String} (h : pg.Created team c name) :
    name = normalizeChannel c ∧ ∃ ch, pg.db.findChannel team name = some ch := by
  obtain ⟨pg₀, auth, pid, topic, info, es, hreach, rfl, hcall, rfl, rfl⟩ := h
  have hauth := Pg.authentic_of_call hcall
  have hnext : pg₀.next (.call auth pid (.createChannel c topic)) = ((createChannel auth c topic).exec pg₀).2 := by
    simp only [Pg.next, Pg.call, if_pos hauth, Call.run, Bus.exec_map]
  rw [Pg.call, if_pos hauth, Call.run, Bus.exec_map] at hcall
  cases hr : ((createChannel auth c topic).exec pg₀).1 with
  | error e =>
    rw [hr] at hcall
    cases hcall
  | ok info' =>
    rw [hr] at hcall
    obtain rfl := Reply.channel.inj (Except.ok.inj hcall)
    obtain ⟨-, hname, ch, hch, hkey⟩ := createChannel_ok hr
    obtain ⟨hteam, hchname⟩ := Prod.mk.inj hkey
    have hv := (hreach.next (.call auth pid (.createChannel c topic))).valid
    rw [← hnext] at hch
    have hfind := Db.findChannel_of_mem hv.keys hch
    obtain ⟨ch', hfind', -⟩ := Pg.after_findChannel hv hfind es
    rw [hteam, hchname] at hfind'
    exact ⟨hname, ch', hname ▸ hfind'⟩

/-! ### What a hook gets -/

/-- The message is in the channel of that name; without a name, in any. -/
def Db.InChannel (db : Db) (name : Option String) (m : Message) : Prop :=
  ∃ id ∈ m.channelId, ∀ n ∈ name, db.channelName id = some n

/-- The hook gets one row for each message posted to the channel, none for a message elsewhere, and direct messages never
    reach it. -/
structure Pg.Filters (pg : Pg) (w : Webhook) (name : Option String) : Prop where
  posted : ∀ auth pid input r, auth.teamId = w.teamId → (pg.call auth pid (.postMessage input)).1 = .ok r → ∃ m rows,
    (pg.next (.call auth pid (.postMessage input))).db.messages = pg.db.messages ++ [m] ∧
    (pg.next (.call auth pid (.postMessage input))).db.deliveries = pg.db.deliveries ++ rows ∧
    (pg.db.InChannel name m → ∃ d, rows.filter (·.webhookId == w.id) = [d]) ∧
    (¬ pg.db.InChannel name m → rows.filter (·.webhookId == w.id) = [])
  asked : ∀ auth pid input received, (pg.next (.call auth pid (.askAgent input received))).db.deliveries = pg.db.deliveries

omit [Platform] in
/-- What the trigger makes of a hook that is stored so: a row for a channel message that passes its filter. -/
theorem IsPost.rows_of (hv : pg.Valid) {auth : AuthCtx} {input : PostInput} {target : Target} {m : Message}
    {files : List Attachment} {rows : List Delivery} (h : IsPost auth input target pg.db m files rows)
    (hw : w ∈ pg.db.webhooks) (hteam : auth.teamId = w.teamId) (hon : w.enabled = true)
    (hmessage : w.events.contains .message = true) :
    (pg.db.InChannel w.channelFilter m → ∃ d, rows.filter (·.webhookId == w.id) = [d]) ∧
      (¬ pg.db.InChannel w.channelFilter m → rows.filter (·.webhookId == w.id) = []) := by
  obtain ⟨id, now, hm⟩ := h.message
  obtain ⟨htarget, -, -, -, hchannel, -⟩ := Db.messageOk_iff.1 h.ok
  have hrows := h.rows
  unfold Db.Enqueues at hrows
  split at hrows
  · next hdm =>
    subst hrows
    refine ⟨fun hin => ?_, fun _ => rfl⟩
    obtain ⟨id, hid, -⟩ := hin
    rw [hdm, Option.mem_def.1 hid] at htarget
    exact absurd rfl htarget
  · next hdm =>
    obtain ⟨pg', seqs, summary, payload, hdb, rfl⟩ := hrows
    obtain ⟨ch, hch⟩ : ∃ ch, m.channelId = some ch := by
      cases hc : m.channelId with
      | some ch => exact ⟨ch, rfl⟩
      | none =>
        rw [hc] at htarget
        exact absurd (Option.isSome_iff_ne_none.2 (by simpa using htarget.symm)) hdm
    have hmteam : m.teamId = w.teamId := by rw [hm]; exact hteam
    have hwants : w ∈ pg'.hooks m.teamId .message (m.channelId.bind pg.db.channelName) ↔ pg.db.InChannel w.channelFilter m := by
      rw [Pg.hooks, List.mem_filter, hdb, hch, Db.InChannel, hch]
      simp only [hw, hmteam, hon, hmessage, bne_self_eq_false, Bool.false_or, true_and, beq_self_eq_true, Bool.true_and,
        Option.bind_some, Option.mem_some, exists_eq_left']
      cases w.channelFilter with
      | none => simp
      | some n => simp [beq_iff_eq, @eq_comm _ (some n)]
    have hfilter := enqueued_filter (hdb ▸ hv.keys) (hdb ▸ hw) m.teamId .message (m.channelId.bind pg.db.channelName) summary
      payload seqs
    rw [hwants] at hfilter
    exact hfilter

/-- An address is resolved to an agent. -/
theorem resolveTarget_direct {auth : AuthCtx} {dest : String} {target : Target}
    (h : ((resolveTarget auth none (some dest)).exec pg).1 = .ok target) : target.recipient.isSome = true := by
  unfold resolveTarget at h
  simp only [Bus.exec_bind] at h
  split at h
  · split at h
    · split at h
      · cases h
      · obtain rfl := Except.ok.inj h
        rfl
    · cases h
  · cases h

/-- A question is a direct message, and no hook gets a row for it. -/
theorem askAgent_unqueued (auth : AuthCtx) (pid : Nat) (input : AskInput) (received : List Received) :
    Bus.Commits (fun ws => ∀ db : Db, (db.write ws).deliveries = db.deliveries) (askAgent auth pid input received) := by
  refine askAgent_commits ⟨fun _ => rfl, fun h h' db => ?_, fun a db => rfl⟩ fun target htarget body metadata pg b seqs ws hs db => ?_
  · rw [Db.write_append, h', h]
  · obtain ⟨pg', h⟩ := htarget
    obtain ⟨m, fired, -, hm, -, hfired, rfl⟩ := insertMessage_ok hs
    have hdirect : m.recipientAgentId.isSome = true := by
      rw [hm]
      exact resolveTarget_direct h
    rw [enqueueMessageWebhook, if_pos hdirect] at hfired
    obtain rfl := congrArg Prod.snd hfired
    rfl

/-! ### A post that succeeds -/

omit [Platform] in
theorem transaction_exec {α : Type} {pid : Nat} {body : Conn → Bus (α × Conn)} {a : α} {c : Conn}
    (h : ((body ⟨pid, some ⟨pg.now, []⟩⟩).exec pg).1 = .ok (a, c)) : ((transaction pid body).exec pg).1 = .ok a := by
  have hbegin : (Conn.begin pid).exec pg = (.ok ⟨pid, some ⟨pg.now, []⟩⟩, pg) := rfl
  unfold transaction
  rw [Bus.exec_bind_ok hbegin, Bus.exec_bind_ok (Bus.exec_attempt _), h]
  rfl

/-- The transaction of a post without files succeeds when the row passes its constraints. -/
theorem postBody_exec (hv : pg.Valid) {auth : AuthCtx} (hcaller : Caller auth.agentId auth.teamId pg.db) (target : Target)
    (body : String) (input : PostInput) (metadata : Json) (hfiles : input.attachments = []) (pid : Nat)
    (hok : pg.db.messageOk (newMessage auth (pg.seqs.messages + 1) pg.now target body input.replyTo metadata input.announce)) :
    ∃ r, ((postBody auth target body input metadata ⟨pid, some ⟨pg.now, []⟩⟩).exec pg).1 = .ok r := by
  obtain ⟨b, seqs, ws, hs⟩ : ∃ b seqs ws,
      insertMessage auth target body input.replyTo metadata input.announce pg = .ok (b, seqs, ws) := by
    unfold insertMessage
    dsimp only
    rw [if_pos hok]
    exact ⟨_, _, _, rfl⟩
  obtain ⟨m, rows, hm, -, -, hwrite⟩ := insertMessage_posts rfl hs
  have hid : b = pg.seqs.messages + 1 := (insertMessage_ok hs).choose_spec.choose_spec.1
  have hinsert : (Conn.execute ⟨pid, some ⟨pg.now, []⟩⟩ (.insert .messages) (some (auth.teamId, .keyShare))
      (insertMessage auth target body input.replyTo metadata input.announce)).exec pg =
      (.ok (b, ⟨pid, some ⟨pg.now, ws⟩⟩), { pg with seqs, teamLocks := pg.teamLocks ++ [⟨pid, auth.teamId, .keyShare⟩] }) := by
    have hexec : (Conn.execute ⟨pid, some ⟨pg.now, []⟩⟩ (.insert .messages) (some (auth.teamId, .keyShare))
        (insertMessage auth target body input.replyTo metadata input.announce)).exec pg =
        (Conn.answer ⟨pid, some ⟨pg.now, []⟩⟩ _ pg, Conn.effect ⟨pid, some ⟨pg.now, []⟩⟩ (some (auth.teamId, .keyShare)) _ pg) := rfl
    have hview : Conn.view ⟨pid, some ⟨pg.now, []⟩⟩ pg = pg := rfl
    rw [hexec]
    simp only [Conn.answer, Conn.effect, hview, hs, Option.map_some, Option.toList_some, List.nil_append]
  obtain ⟨sender, hsender⟩ := Db.agentName_of_agentIn hcaller
  have hrow : ((pg.db.posted m [] rows).messages.find? (·.id == b)).bind (pg.db.posted m [] rows).messageInfo? ≠ none := by
    have hnone : pg.db.messages.find? (·.id == b) = none := by
      refine List.find?_eq_none.2 fun o ho => ?_
      have hbelow : o.id ≤ pg.seqs.messages := hv.keys.messagesBelow o ho
      rw [beq_iff_eq, hid]
      omega
    have hfound : (pg.db.messages ++ [m]).find? (·.id == b) = some m := by
      rw [List.find?_append, hnone, hm]
      simp [newMessage]
    have hname : (pg.db.posted m [] rows).agentName m.senderAgentId = some sender := by
      rw [hm]
      exact hsender
    change ((pg.db.messages ++ [m]).find? (·.id == b)).bind _ ≠ none
    rw [hfound, Option.bind_some, Db.messageInfo?, hname]
    simp
  obtain ⟨info, hinfo⟩ := Option.ne_none_iff_exists'.1 hrow
  unfold postBody
  rw [Bus.exec_bind_ok hinsert, hfiles]
  have hnone : (insertAllForMessage ⟨pid, some ⟨pg.now, ws⟩⟩ auth.teamId b auth.agentId []).exec
      { pg with seqs, teamLocks := pg.teamLocks ++ [⟨pid, auth.teamId, .keyShare⟩] } =
      (.ok ⟨pid, some ⟨pg.now, ws⟩⟩, { pg with seqs, teamLocks := pg.teamLocks ++ [⟨pid, auth.teamId, .keyShare⟩] }) := rfl
  have hselect : (Conn.select ⟨pid, some ⟨pg.now, ws⟩⟩ .messages fun pg =>
      (pg.db.messages.find? (·.id == b)).bind pg.db.messageInfo?).exec
      { pg with seqs, teamLocks := pg.teamLocks ++ [⟨pid, auth.teamId, .keyShare⟩] } =
      (.ok (some info), { pg with seqs, teamLocks := pg.teamLocks ++ [⟨pid, auth.teamId, .keyShare⟩] }) := by
    rw [← hinfo, ← hwrite]
    rfl
  dsimp only
  rw [Bus.exec_bind_ok hnone, Bus.exec_bind_ok hselect]
  exact ⟨_, rfl⟩

/-- A member of the team can post to a channel of the team. -/
theorem post_accepted (hv : pg.Valid) {auth : AuthCtx} (hauth : auth.authentic pg.db = true) {c : String} {ch : Channel}
    (hfind : pg.db.findChannel auth.teamId (normalizeChannel c) = some ch) (pid : Nat) :
    ∃ r, ((postMessage auth pid ⟨some c, none, false, "hello", none, none, []⟩).exec pg).1 = .ok r := by
  obtain ⟨hmem, hteam, -⟩ := Db.findChannel_some hfind
  have hcaller := AuthCtx.authentic.caller hauth
  have hchannel : (channelIdByName auth.teamId c).exec pg = (.ok ch.id, pg) := by
    unfold channelIdByName
    rw [Bus.exec_bind_ok (Bus.exec_select _ _), hfind]
    rfl
  have htarget : (resolveTarget auth (some c) none).exec pg =
      (.ok ⟨some ch.id, none, none, pg.db.rosterNames auth.teamId⟩, pg) := by
    unfold resolveTarget
    rw [Bus.exec_bind_ok hchannel]
    rfl
  have hposted : ∀ id ∈ some ch.id, pg.db.channelIn id auth.teamId = true := by
    intro id hid
    obtain rfl := Option.mem_some.1 hid
    exact List.any_eq_true.2 ⟨ch, hmem, by simp [hteam]⟩
  obtain ⟨⟨info, c'⟩, hbody⟩ := postBody_exec hv hcaller ⟨some ch.id, none, none, pg.db.rosterNames auth.teamId⟩
    "hello" ⟨some c, none, false, "hello", none, none, []⟩ "\x7b\x7d" rfl pid
    (Db.messageOk_iff.2 ⟨by simp [newMessage], hcaller.hasTeam hv, hcaller, by simp [newMessage], hposted,
      by simp [newMessage]⟩)
  refine ⟨⟨info, pg.db.rosterNames auth.teamId⟩, ?_⟩
  have htrim : trim "hello" = "hello" := by decide
  have hmetadata : checkMetadata "message" none = .ok () := rfl
  have hannounce : ¬ (false && (none : Option String).isSome && (some c).isNone) = true := Bool.false_ne_true
  unfold postMessage
  dsimp only
  rw [htrim, if_neg (by decide), if_neg (by decide), if_neg hannounce, Bus.exec_bind_ok htarget, Bus.exec_bind_ok rfl,
    hmetadata, Bus.exec_bind_ok (Bus.exec_check _)]
  have hpost := transaction_exec hbody
  cases hr : (transaction pid (postBody auth ⟨some ch.id, none, none, pg.db.rosterNames auth.teamId⟩ "hello"
    ⟨some c, none, false, "hello", none, none, []⟩ "\x7b\x7d")).exec pg with
  | mk r pg' =>
    rw [hr] at hpost
    obtain rfl : r = .ok info := hpost
    exact congrArg Prod.fst (Bus.exec_bind_ok hr)

/-! ### The filter -/

/-- A hook gets the messages of the channel that its filter is. -/
theorem Pg.filters_stored (hv : pg.Valid) (hw : w ∈ pg.db.webhooks) (hon : w.enabled = true)
    (hmessage : w.events.contains .message = true) : pg.Filters w w.channelFilter := by
  refine ⟨fun auth pid input r hteam hr => ?_, fun auth pid input received => ?_⟩
  · obtain ⟨_, -, target, m, files, rows, -, -, -, hpost, hdb⟩ := (Pg.call_meets (c := .postMessage input) (g := .posted) pid
      (Pg.authentic_of_call hr) rfl (postMessage_posts (E := fun _ => True) trivial (fun _ => trivial)
        (fun _ => trivial) (resolveTarget_meets _ _) pid) rfl).1 _ hr
    exact ⟨m, rows, congrArg Db.messages hdb, congrArg Db.deliveries hdb, hpost.rows_of hv hw hteam hon hmessage⟩
  · simp only [Pg.next, Pg.call]
    split
    · obtain ⟨ws, hdb, hws⟩ := askAgent_unqueued auth pid input received pg
      rw [Call.run, Bus.exec_map]
      dsimp only
      rw [hdb, hws]
    · rfl

/-- A hook that gets the messages of a channel that somebody can post to has its name for a filter. -/
theorem Pg.Filters.named (hv : pg.Valid) (hw : w ∈ pg.db.webhooks) (hon : w.enabled = true)
    (hmessage : w.events.contains .message = true) {auth : AuthCtx} (hauth : auth.authentic pg.db = true)
    (hteam : auth.teamId = w.teamId) {c n : String} {ch : Channel}
    (hfind : pg.db.findChannel w.teamId (normalizeChannel c) = some ch) (hfilter : n ∈ w.channelFilter)
    (h : pg.Filters w (some (normalizeChannel c))) : n = normalizeChannel c := by
  rw [← hteam] at hfind
  obtain ⟨hmem, -, hname⟩ := Db.findChannel_some hfind
  obtain ⟨r, hr⟩ := post_accepted hv hauth hfind 0
  have hcall : (pg.call auth 0 (.postMessage ⟨some c, none, false, "hello", none, none, []⟩)).1 = .ok (.posted r) := by
    rw [Pg.call, if_pos hauth, Call.run, Bus.exec_map, hr]
    rfl
  obtain ⟨m, rows, hmessages, hrows, hget, -⟩ := h.posted _ _ _ _ hteam hcall
  obtain ⟨m', rows', hmessages', hrows', -, hnone⟩ := (Pg.filters_stored hv hw hon hmessage).posted _ _ _ _ hteam hcall
  obtain ⟨-, hsent⟩ := (Pg.call_meets (c := .postMessage _) (g := .posted) 0 hauth rfl
    (postMessage_channel hfind 0 rfl rfl) rfl).1 _ hcall |>.choose_spec
  obtain ⟨m'', hmessages'', hchannel⟩ := hsent
  obtain rfl : m' = m := by simpa using hmessages'.symm.trans hmessages
  obtain rfl : m'' = m' := by simpa using hmessages''.symm.trans hmessages
  obtain rfl : rows' = rows := by simpa using hrows'.symm.trans hrows
  have hchname : pg.db.channelName ch.id = some (normalizeChannel c) := by
    rw [Db.channelName, hv.keys.channels.find?_eq_some hmem (by simp) fun r _ h => by simpa using h, Option.map_some, hname]
  by_contra hne
  obtain ⟨d, hd⟩ := hget ⟨ch.id, hchannel, fun n' hn' => by rw [← Option.mem_some.1 hn', hchname]⟩
  rw [hnone] at hd
  · cases hd
  · rintro ⟨id, hid, hall⟩
    rw [hchannel] at hid
    obtain rfl := Option.mem_some.1 hid
    exact hne (Option.some.inj ((hall n hfilter).symm.trans hchname))

/-- A hook without a channel gets every channel message. With a channel, it gets the messages of the channel that the same
    text creates just when the text, in lower case, is the name that the channel is stored under. -/
theorem filter_meant_iff (hmessage : w.events.contains .message = true) :
    (pg.Registered w none → pg.Filters w none) ∧
      ∀ c name, pg.Registered w (some c) → pg.Created w.teamId c name →
        (∃ auth : AuthCtx, auth.authentic pg.db = true ∧ auth.teamId = w.teamId) →
          (pg.Filters w (some name) ↔ Platform.toLowercase c = name) := by
  refine ⟨fun h => ?_, fun c name h hcreated hmember => ⟨fun hfilters => ?_, fun hlower => ?_⟩⟩
  · obtain ⟨hon, hfilter⟩ := h.stored
    have hstored := Pg.filters_stored h.reachable.valid h.kept hon hmessage
    rwa [hfilter, Option.map_none] at hstored
  · obtain ⟨hon, hfilter⟩ := h.stored
    obtain ⟨auth, hauth, hteam⟩ := hmember
    obtain ⟨rfl, ch, hfind⟩ := hcreated.found
    exact hfilters.named h.reachable.valid h.kept hon hmessage hauth hteam hfind (by rw [hfilter]; rfl)
  · obtain ⟨hon, hfilter⟩ := h.stored
    have hstored := Pg.filters_stored h.reachable.valid h.kept hon hmessage
    rwa [hfilter, Option.map_some, hlower] at hstored

end

section
open Sample
attribute [local instance] Platform.ascii

/-- The crew with a channel. -/
def opsChannel (c : String) : Pg := (Pg.init 0).after (crew ++ [.call ann 0 (.createChannel c none)])

/-- And a hook on it. -/
def hooked (c : String) : Pg := (opsChannel c).next (.command 0 (.webhookAdd "core" "http://hook" "generic" "message" (some c)))

theorem hooked_created (c : String) (info : ChannelInfo)
    (h : (((Pg.init 0).after crew).call ann 0 (.createChannel c none)).1 = .ok (.channel info)) :
    (hooked c).Created 0 c info.name :=
  ⟨_, ann, 0, none, info, [.command 0 (.webhookAdd "core" "http://hook" "generic" "message" (some c))],
    (Pg.Reachable.init 0).after _, rfl, h, rfl, rfl⟩

theorem hooked_registered {c : String} {w : Webhook} (hold : w ∉ (opsChannel c).db.webhooks)
    (hnew : w ∈ (hooked c).db.webhooks) : (hooked c).Registered w (some c) := by
  have hreach : (opsChannel c).Reachable := (Pg.Reachable.init 0).after _
  unfold hooked at hnew ⊢
  generalize opsChannel c = pg at hold hnew hreach ⊢
  exact ⟨⟨pg, 0, "core", "http://hook", "generic", "message", [], hreach, hold, hnew, rfl⟩, hnew⟩

/-- The hook on `OPS` gets the messages of `ops`. -/
theorem ops_filters : ∃ w ∈ (hooked "OPS").db.webhooks, (hooked "OPS").Filters w (some "ops") := by
  have hhook : ∃ w ∈ (hooked "OPS").db.webhooks, w ∉ (opsChannel "OPS").db.webhooks ∧ w.teamId = 0 ∧
    w.events.contains .message = true := by decide
  obtain ⟨w, hnew, hold, hteam, hmessage⟩ := hhook
  refine ⟨w, hnew, ((@filter_meant_iff Platform.ascii (hooked "OPS") w hmessage).2 "OPS" "ops" (hooked_registered hold hnew) ?_
    ⟨ann, by decide, hteam.symm⟩).2 (by decide)⟩
  rw [hteam]
  exact hooked_created "OPS" ⟨"ops", none, 0, 0⟩ rfl

/-- The hook on `#ops` gets no message of `ops`. -/
theorem hash_filter_silent : ¬ ∀ (pg : Pg) (w : Webhook) (c name : String), w.events.contains .message = true →
    pg.Registered w (some c) → pg.Created w.teamId c name → pg.Filters w (some name) := by
  intro h
  have hhook : ∃ w ∈ (hooked "#ops").db.webhooks, w ∉ (opsChannel "#ops").db.webhooks ∧ w.teamId = 0 ∧
    w.events.contains .message = true ∧ w.enabled = true ∧ "#ops" ∈ w.channelFilter := by decide
  obtain ⟨w, hnew, hold, hteam, hmessage, hon, hfilter⟩ := hhook
  have hregistered := hooked_registered hold hnew
  have hcreated : (hooked "#ops").Created w.teamId "#ops" "ops" := by
    rw [hteam]
    exact hooked_created "#ops" ⟨"ops", none, 0, 0⟩ rfl
  obtain ⟨hname, ch, hfind⟩ := hcreated.found
  have hfilters := h _ w "#ops" "ops" hmessage hregistered hcreated
  rw [hname] at hfind hfilters
  have hann : ann.authentic (hooked "#ops").db = true := by decide
  exact absurd (hfilters.named hregistered.reachable.valid hnew hon hmessage hann hteam.symm hfind hfilter) (by decide)

end
end CrewSync
