import CrewSync.Footprint.Triggers
import CrewSync.Store.Identity
import CrewSync.Tools.Events
import CrewSync.Tools.Messaging

/-! What the messaging calls and the uploads write. -/

namespace CrewSync
open Bus (ReadOnly Reads)

/-! ### Calls that only read -/

theorem agentIdByName_reads {team : Uuid} {name : String} : Reads (agentIdByName team name) :=
  .bind .select fun r => by cases r <;> simp

theorem agentIdByName_readOnly {team : Uuid} {name : String} : ReadOnly (agentIdByName team name) :=
  agentIdByName_reads.readOnly

theorem findAnswer_readOnly {auth : AuthCtx} {target : Uuid} {session : Option String} {question : Int} :
    ReadOnly (findAnswer auth target session question) := .select

theorem verifyQuestion_readOnly {auth : AuthCtx} {target : Uuid} {session : Option String} {question : Int} :
    ReadOnly (verifyQuestion auth target session question) :=
  .bind .select fun _ => .ite .throw .pure

theorem checkReply_reads {auth : AuthCtx} {replyTo : Option Int} : Reads (checkReply auth replyTo) := by
  cases replyTo with
  | none => exact .pure
  | some r => exact .bind .select fun _ => .ite .throw .pure

theorem checkReply_readOnly {auth : AuthCtx} {replyTo : Option Int} : ReadOnly (checkReply auth replyTo) :=
  checkReply_reads.readOnly

theorem toChannel_reads {auth : AuthCtx} {channel : Uuid} : Reads (toChannel auth channel) :=
  .bind .select fun _ => .pure

theorem getAttachment_readOnly {auth : AuthCtx} {id : Int} : ReadOnly (getAttachment auth id) := by
  refine .bind .select fun r => ?_
  cases r with
  | none => exact .throw
  | some r => exact .ite (.bind .throw fun _ => .pure) .pure

theorem hasAnotherLiveSession_readOnly {auth : AuthCtx} : ReadOnly (hasAnotherLiveSession auth) := .select

theorem onlyMe_readOnly {auth : AuthCtx} {session : Option String} : ReadOnly (onlyMe auth session) := by
  cases session with
  | none => exact .bind hasAnotherLiveSession_readOnly fun _ => .pure
  | some s => exact .pure

variable [Platform]

theorem channelIdByName_reads {team : Uuid} {name : String} : Reads (channelIdByName team name) :=
  .bind .select fun r => by cases r <;> simp

theorem channelIdByName_readOnly {team : Uuid} {name : String} : ReadOnly (channelIdByName team name) :=
  channelIdByName_reads.readOnly

theorem defaultChannel_reads {auth : AuthCtx} : Reads (defaultChannel auth) := .ite .pure .select

theorem defaultChannel_readOnly {auth : AuthCtx} : ReadOnly (defaultChannel auth) := defaultChannel_reads.readOnly

theorem focusOf_exec (auth : AuthCtx) (allChannels : Bool) (pg : Pg) :
    ∃ focus, (focusOf auth allChannels).exec pg = (.ok focus, pg) := by
  unfold focusOf defaultChannel
  split
  · exact ⟨_, rfl⟩
  · split
    · exact ⟨_, rfl⟩
    · exact ⟨_, rfl⟩

theorem focusOf_readOnly {auth : AuthCtx} {allChannels : Bool} : ReadOnly (focusOf auth allChannels) :=
  .ite .pure (.map defaultChannel_readOnly _)

theorem resolveTarget_reads {auth : AuthCtx} {channel dest : Option String} :
    Reads (resolveTarget auth channel dest) := by
  cases channel with
  | some channel =>
    cases dest with
    | some _ => exact .throw
    | none => exact .bind channelIdByName_reads fun _ => toChannel_reads
  | none =>
    cases dest with
    | none =>
      refine .bind defaultChannel_reads fun c => ?_
      cases c with
      | some c => exact toChannel_reads
      | none => exact .ite .throw .throw
    | some dest =>
      apply Reads.bind Reads.check
      rintro ⟨agent, session⟩
      apply Reads.bind agentIdByName_reads
      intro id
      apply Reads.ite
      · exact .bind .throw fun _ => .pure
      · exact .pure

theorem resolveTarget_readOnly {auth : AuthCtx} {channel dest : Option String} :
    ReadOnly (resolveTarget auth channel dest) := resolveTarget_reads.readOnly

theorem resolveScope_readOnly {auth : AuthCtx} {raw : String} : ReadOnly (resolveScope auth raw) := by
  unfold resolveScope
  split
  · exact .pure
  · exact .bind channelIdByName_readOnly fun _ => .pure

theorem searchMessages_readOnly {auth : AuthCtx} {query : String} {limit : Int} :
    ReadOnly (searchMessages auth query limit) :=
  .ite (.bind .throw fun _ => .bind .select fun _ => .pure) (.bind .select fun _ => .pure)

theorem whoami_readOnly {auth : AuthCtx} : ReadOnly (whoami auth) :=
  .bind .select fun _ => .bind .select fun _ => .bind defaultChannel_readOnly fun _ => .pure

theorem awaitAnswer_readOnly {auth : AuthCtx} {target : Uuid} {session : Option String} {question : Int}
    {received : List Received} : ReadOnly (awaitAnswer auth target session question received) := by
  induction received with
  | nil => exact findAnswer_readOnly
  | cons r rest ih =>
    refine .ite (.bind findAnswer_readOnly fun a => ?_) ih
    cases a with
    | some a => exact .pure
    | none => exact ih

theorem describe_readOnly {e : BusEvent} : ReadOnly (describe e) := by
  unfold describe
  refine .ite ?_ (.ite ?_ (.ite .pure (.ite .pure .pure)))
  · split
    · exact .pure
    · exact .select
  · split
    · exact .pure
    · dsimp only
      split
      · exact .bind .select fun _ => .pure
      · exact .bind .pure fun _ => .pure

theorem describeAll_readOnly {es : List BusEvent} : ReadOnly (describeAll es) := by
  induction es with
  | nil => exact .pure
  | cons e es ih => exact .bind describe_readOnly fun _ => .bind ih fun _ => .pure

theorem awaitEvents_readOnly {auth : AuthCtx} {kinds : Option (List String)} {focus : Option Uuid}
    {grace : List BusEvent} {received : List Received} :
    ReadOnly (awaitEvents auth kinds focus grace received) := by
  induction received with
  | nil => exact .pure
  | cons r rest ih =>
    cases r with
    | lagged => exact .pure
    | event e =>
      refine .ite (.bind describe_readOnly fun d => ?_) ih
      cases d with
      | some d => exact .bind describeAll_readOnly fun _ => .pure
      | none => exact ih

theorem waitForUpdates_readOnly {auth : AuthCtx} {input : WaitInput} {received : List Received}
    {grace : List BusEvent} : ReadOnly (waitForUpdates auth input received grace) := by
  refine .bind focusOf_readOnly fun focus => .bind .select fun pending => ?_
  exact .ite (.bind .select fun _ => .pure) (.bind awaitEvents_readOnly fun _ => .bind .select fun _ => .pure)

/-! ### Statements -/

section
variable {auth : AuthCtx} {tables : List Table} {P : Db → Prop}

theorem insertMessage_ok {target : Target} {body : String} {replyTo : Option Int} {metadata : Json}
    {announce : Bool} {pg : Pg} {b : Int} {seqs : Seqs} {ws : List Write}
    (hs : insertMessage auth target body replyTo metadata announce pg = .ok (b, seqs, ws)) :
    ∃ m fired, b = pg.seqs.messages + 1 ∧ m = newMessage auth b pg.now target body replyTo metadata announce ∧
      pg.db.messageOk m ∧ (seqs, fired) = enqueueMessageWebhook pg m { pg.seqs with messages := b } ∧
      ws = .insertMessage m :: fired ++ [.notify (notifyMessage m)] := by
  simp only [insertMessage] at hs
  split at hs
  · next hok =>
    simp only [Except.ok.injEq, Prod.mk.injEq] at hs
    obtain ⟨rfl, rfl, rfl⟩ := hs
    exact ⟨_, _, rfl, rfl, hok, rfl, rfl⟩
  · exact absurd hs (by simp)

theorem insertMessage_writes (ht : [.messages, .webhookDeliveries] ⊆ tables) {target : Target} {body : String}
    {replyTo : Option Int} {metadata : Json} {announce : Bool} :
    Sql.Writes (Own auth.agentId auth.teamId tables) (fun db => ∀ r ∈ replyTo, db.messageIn r auth.teamId)
      (insertMessage auth target body replyTo metadata announce) fun _ _ => True := by
  intro pg hv hreply b seqs ws hs
  obtain ⟨m, fired, hb, hm, hok, hfired, rfl⟩ := insertMessage_ok hs
  have hid : m.id = pg.seqs.messages + 1 := by rw [hm, ← hb]; rfl
  have hteam : m.teamId = auth.teamId := hm ▸ rfl
  have hf : Fires auth.agentId auth.teamId tables pg.now ((Write.insertMessage m).apply pg.db)
      { pg.seqs with messages := b } (seqs, fired) := by
    have hw : ((Write.insertMessage m).apply pg.db).webhooks = pg.db.webhooks := rfl
    have hd : Rows.Below (·.id) { pg.seqs with messages := b }.deliveries
      ((Write.insertMessage m).apply pg.db).deliveries := hv.keys.deliveriesBelow
    rw [hfired]
    exact fires_message (ht (by simp)) hw hd hteam
  have hf := hf.notify (notifyMessage m)
  have hnext : pg.seqs.messages + 1 ≤ seqs.messages := hb ▸ hf.before.messages
  have hbefore : pg.seqs.Before seqs := ⟨by omega, hf.before.2, hf.before.3, hf.before.4, hf.before.5⟩
  have hstart : pg.seqs.Before { pg.seqs with messages := b } :=
    ⟨by simp only; omega, le_rfl, le_rfl, le_rfl, le_rfl⟩
  have hlegal : (Write.insertMessage m).Legal pg.seqs seqs pg.db := by
    refine ⟨hok, fun r hr => ?_, fun x hx => ?_, ?_, ?_⟩
    · rw [hteam]
      exact hreply r (by rw [hm] at hr; exact hr)
    · rw [hid]
      exact Int.lt_add_one_of_le (hv.keys.messagesBelow x hx)
    · exact hid ▸ hnext
    · rw [hid]
      exact Int.lt_succ _
  exact ⟨hbefore, ⟨hlegal, ⟨⟨hteam, hm ▸ rfl⟩, singleton_subset (ht (by simp))⟩, hf.trail _ _ hstart (.refl _)⟩, trivial⟩

theorem upsertChannel_writes (ht : .channels ∈ tables) {name : String} {topic : Option String} :
    Sql.Writes (Own auth.agentId auth.teamId tables) P (upsertChannel auth name topic) fun _ _ => True := by
  intro pg hv _ b seqs ws hs
  simp only [upsertChannel] at hs
  split at hs
  · next c hc =>
    -- The channel is there: only its topic changes.
    simp only [Except.ok.injEq, Prod.mk.injEq] at hs
    obtain ⟨-, rfl, rfl⟩ := hs
    have hmem := List.mem_of_find?_eq_some hc
    have hteam : c.teamId = auth.teamId := by
      have := List.find?_some hc
      simp only [Bool.and_eq_true, beq_iff_eq] at this
      exact this.1
    have hkey : ∀ d ∈ pg.db.channels, d.id = c.id ↔ Db.channelKey d = Db.channelKey c :=
      fun d hd => hv.keys.channels.iff hv.keys.channelNames hd hmem
    exact ⟨.refl _, ⟨⟨hv.refs.channels c hmem, hkey⟩, ⟨⟨hteam, .inr ⟨c, hmem, rfl, rfl⟩⟩, singleton_subset ht⟩,
      trivial⟩, trivial⟩
  · next hnone =>
    split at hs
    · next hok =>
      obtain ⟨hok, hfresh⟩ := Bool.and_eq_true_iff.1 hok
      simp only [Except.ok.injEq, Prod.mk.injEq] at hs
      obtain ⟨-, rfl, rfl⟩ := hs
      refine ⟨⟨le_rfl, le_rfl, le_rfl, le_rfl, le_rfl⟩,
        ⟨⟨hok, fun d hd => ⟨fun h => ?_, fun h => ?_⟩⟩, ⟨⟨rfl, .inl rfl⟩, singleton_subset ht⟩, trivial⟩, trivial⟩
      · rw [Bool.not_eq_true', List.any_eq_false] at hfresh
        exact absurd h (by simpa using hfresh d hd)
      · have := List.find?_eq_none.1 hnone d hd
        simp only [Db.channelKey, Prod.mk.injEq] at h
        simp [h] at this
    · exact absurd hs (by simp)

omit [Platform] in
theorem upsertCursor_writes (ht : .readCursors ∈ tables) {team : Uuid} {agent : Uuid} {scope : String} {last : Int} :
    Sql.Writes (Own agent team tables) (fun db => ∃ m ∈ db.messages, m.id = last) (upsertCursor agent scope last)
      fun _ _ => True := by
  intro pg hv ⟨m, hm, hlast⟩ b seqs ws hs
  simp only [upsertCursor] at hs
  split at hs
  · next hok =>
    simp only [Except.ok.injEq, Prod.mk.injEq] at hs
    obtain ⟨-, rfl, rfl⟩ := hs
    have hle : last ≤ pg.seqs.messages := hlast ▸ hv.keys.messagesBelow m hm
    refine ⟨.refl _, ⟨⟨hok, ?_⟩, ⟨rfl, singleton_subset ht⟩, trivial⟩, trivial⟩
    cases hf : pg.db.cursors.find? fun c => c.agentId == agent && c.scope == scope with
    | none => exact hle
    | some c => exact max_le (hv.keys.cursorsBelow c (List.mem_of_find?_eq_some hf)) hle
  · exact absurd hs (by simp)

omit [Platform] in
theorem insertAttachment_ok {team : Uuid} {message : Option Int} {task : Option Uuid} {uploader : Uuid}
    {att : NewAttachment} {pg : Pg} {b : Int} {seqs : Seqs} {ws : List Write}
    (hs : insertAttachment team message task uploader att pg = .ok (b, seqs, ws)) :
    ∃ a, b = pg.seqs.attachments + 1 ∧ a = newAttachment team b pg.now message task uploader att ∧
      pg.db.attachmentOk a ∧ seqs = { pg.seqs with attachments := b } ∧ ws = [.insertAttachment a] := by
  simp only [insertAttachment] at hs
  split at hs
  · next hok =>
    simp only [Except.ok.injEq, Prod.mk.injEq] at hs
    obtain ⟨rfl, rfl, rfl⟩ := hs
    exact ⟨_, rfl, rfl, hok, rfl, rfl⟩
  · exact absurd hs (by simp)

omit [Platform] in
theorem insertAttachment_writes (ht : .attachments ∈ tables) {team : Uuid} {message : Option Int}
    {task : Option Uuid} {uploader : Uuid} {att : NewAttachment} :
    Sql.Writes (Own uploader team tables) P (insertAttachment team message task uploader att)
      fun _ _ => True := by
  intro pg hv _ b seqs ws hs
  obtain ⟨a, hb, ha, hok, rfl, rfl⟩ := insertAttachment_ok hs
  have hid : a.id = pg.seqs.attachments + 1 := by rw [ha, ← hb]; rfl
  refine ⟨⟨le_rfl, le_rfl, le_rfl, by simp only; omega, le_rfl⟩,
    ⟨⟨hok, fun x hx => ?_, by simp only; omega⟩, ⟨⟨ha ▸ rfl, ha ▸ rfl⟩, singleton_subset ht⟩, trivial⟩, trivial⟩
  rw [hid]
  exact Int.lt_add_one_of_le (hv.keys.attachmentsBelow x hx)

omit [Platform] in
theorem quotaOf_writes {ok : Time → Db → Write → Prop} {team : Uuid} :
    Sql.Writes ok P (quotaOf team) fun _ => P := by
  intro pg _ hP b seqs ws hs
  simp only [quotaOf] at hs
  split at hs
  · simp only [Except.ok.injEq, Prod.mk.injEq] at hs
    obtain ⟨-, rfl, rfl⟩ := hs
    exact ⟨.refl _, trivial, hP⟩
  · exact absurd hs (by simp)

/-! ### Calls -/

omit [Platform] in
theorem checkAttachmentQuota_inTx {ok : Time → Db → Write → Prop} {c : Conn} {team : Uuid} {bytes : Int} :
    Bus.InTx ok P c (checkAttachmentQuota c team bytes) id fun _ => P := by
  refine (Bus.InTx.execute quotaOf_writes).bind fun r => ?_
  obtain ⟨limit, c⟩ := r
  cases limit with
  | none => exact .pure rfl fun _ h => h
  | some limit =>
    exact .reads Conn.readOnly_select fun used =>
      .ite (fun _ => .throw_bind) fun _ => .pure rfl fun _ h => h

omit [Platform] in
theorem insertForMessage_inTx (ht : .attachments ∈ tables) {c : Conn} {team : Uuid} {message : Int}
    {uploader : Uuid} {att : NewAttachment} :
    Bus.InTx (Own uploader team tables) P c (insertForMessage c team message uploader att) (·.2)
      fun _ _ => True :=
  checkAttachmentQuota_inTx.bind fun _ => (Bus.InTx.execute (insertAttachment_writes ht)).bind fun _ =>
    .pure rfl fun _ h => h

omit [Platform] in
theorem insertAllForMessage_inTx (ht : .attachments ∈ tables) {c : Conn} {team : Uuid} {message : Int}
    {uploader : Uuid} (atts : List NewAttachment) :
    Bus.InTx (Own uploader team tables) P c (insertAllForMessage c team message uploader atts) id
      fun _ _ => True := by
  induction atts generalizing c P with
  | nil => exact .pure rfl fun _ _ => trivial
  | cons att atts ih => exact (insertForMessage_inTx ht).bind fun _ => ih

theorem postBody_inTx (ht : [.messages, .attachments, .webhookDeliveries] ⊆ tables) {target : Target}
    {body : String} {input : PostInput} {metadata : Json} {c : Conn} :
    Bus.InTx (Own auth.agentId auth.teamId tables) (fun db => ∀ r ∈ input.replyTo, db.messageIn r auth.teamId) c
      (postBody auth target body input metadata c) (·.2) fun _ _ => True := by
  refine (Bus.InTx.execute (insertMessage_writes (by simp_all))).bind fun _ =>
    (insertAllForMessage_inTx (by simp_all) _).bind fun _ => .reads Conn.readOnly_select fun row => ?_
  cases row with
  | some info => exact .pure rfl fun _ h => h
  | none => exact .throw

omit [Platform] in
theorem checkReply_writes {ok : Time → Db → Write → Prop} {replyTo : Option Int} :
    Bus.Writes ok P (checkReply auth replyTo) fun _ db => ∀ r ∈ replyTo, db.messageIn r auth.teamId := by
  cases replyTo with
  | none => exact .pure fun _ _ => by simp
  | some r =>
    intro pg _ _
    rw [checkReply_readOnly]
    refine ⟨.refl ok pg, fun u hu q hq => ?_⟩
    obtain rfl := Option.some.inj hq
    by_contra hn
    rw [Bool.not_eq_true] at hn
    simp [checkReply, Bus.exec_bind, hn] at hu

theorem postMessage_writes (ht : [.messages, .attachments, .webhookDeliveries] ⊆ tables) {pid : Nat}
    {input : PostInput} :
    Bus.Writes (Own auth.agentId auth.teamId tables) P (postMessage auth pid input) fun _ _ => True := by
  unfold postMessage
  refine .ite (fun _ => .throw_bind) fun _ => .ite (fun _ => .throw_bind) fun _ => ?_
  refine .ite (fun _ => .throw_bind) fun _ => .reads resolveTarget_readOnly fun target => ?_
  refine checkReply_writes.bind fun _ => .reads .check fun _ => ?_
  exact (Bus.Writes.transaction fun c _ => postBody_inTx ht).bind fun _ => .of_readOnly .pure

omit [Platform] in
theorem attachToTaskBody_inTx (ht : .attachments ∈ tables) {task : Uuid} {att : NewAttachment} {c : Conn} :
    Bus.InTx (Own auth.agentId auth.teamId tables) P c (attachToTaskBody auth task att c) (·.2) fun _ _ => True :=
  checkAttachmentQuota_inTx.bind fun _ => (Bus.InTx.execute (insertAttachment_writes ht)).bind fun _ =>
    .pure rfl fun _ h => h

omit [Platform] in
theorem attachToTask_writes (ht : .attachments ∈ tables) {pid : Nat} {key : String} {att : NewAttachment} :
    Bus.Writes (Own auth.agentId auth.teamId tables) P (attachToTask auth pid key att) fun _ _ => True := by
  refine .reads .select fun task => ?_
  cases task with
  | none => exact .throw
  | some task =>
    refine .reads .select fun count => .ite (fun _ => .throw_bind) fun _ => ?_
    exact .transaction fun c _ => attachToTaskBody_inTx ht

omit [Platform] in
/-- Without a transaction every statement commits on its own. -/
theorem execute_plain {pid : Nat} {l : Stmt} {lock : Conn.LockOf} {β : Type} {ok : Time → Db → Write → Prop} {s : Sql β}
    {Q : β → Db → Prop} (h : Sql.Writes ok P s Q) :
    Bus.Writes ok P ((⟨pid, none⟩ : Conn).execute l lock s) fun r db => r.2 = ⟨pid, none⟩ ∧ Q r.1 db := by
  intro pg hv hP
  have hexec : ((⟨pid, none⟩ : Conn).execute l lock s).exec pg =
      ((⟨pid, none⟩ : Conn).answer s pg, s.effect pg) := rfl
  rw [hexec]
  simp only [Conn.answer, Sql.effect, Conn.view]
  cases hs : s pg with
  | error e => exact ⟨.refl ok pg, fun a ha => by simp at ha⟩
  | ok r =>
    obtain ⟨b, seqs, ws⟩ := r
    obtain ⟨hb, ht, hQ⟩ := h pg hv hP b seqs ws hs
    refine ⟨⟨ws, rfl, hb, rfl, ht⟩, fun a ha => ?_⟩
    simp only [Except.ok.injEq] at ha
    exact ha ▸ ⟨rfl, hQ⟩

omit [Platform] in
theorem checkAttachmentQuota_plain {ok : Time → Db → Write → Prop} {pid : Nat} {team : Uuid} {bytes : Int} :
    Bus.Writes ok P (checkAttachmentQuota ⟨pid, none⟩ team bytes) fun c _ => c = ⟨pid, none⟩ := by
  refine (execute_plain quotaOf_writes).bind fun r => ?_
  obtain ⟨limit, c⟩ := r
  cases limit with
  | none => exact .pure fun _ h => h.1
  | some limit =>
    exact .reads Conn.readOnly_select fun used =>
      .ite (fun _ => .throw_bind) fun _ => .pure fun _ h => h.1

omit [Platform] in
theorem insertForMessage_plain (ht : .attachments ∈ tables) {pid : Nat} {team : Uuid} {message : Int}
    {uploader : Uuid} {att : NewAttachment} :
    Bus.Writes (Own uploader team tables) P (insertForMessage ⟨pid, none⟩ team message uploader att)
      fun _ _ => True := by
  refine checkAttachmentQuota_plain.bind fun c => ?_
  intro pg hv hc
  subst hc
  exact (execute_plain (insertAttachment_writes ht (P := fun _ => True))).bind (fun _ => .of_readOnly .pure) pg hv
    trivial

omit [Platform] in
theorem attachToMessage_writes (ht : .attachments ∈ tables) {pid : Nat} {message : Int} {att : NewAttachment} :
    Bus.Writes (Own auth.agentId auth.teamId tables) P (attachToMessage auth pid message att) fun _ _ => True := by
  refine .reads .select fun sender => ?_
  cases sender with
  | none => exact .throw
  | some sender =>
    refine .ite (fun _ => .throw_bind) fun _ => .reads .select fun count => .ite (fun _ => .throw_bind) fun _ => ?_
    exact (insertForMessage_plain ht).bind fun _ => .of_readOnly .pure

theorem createChannel_writes (ht : .channels ∈ tables) {name : String} {topic : Option String} :
    Bus.Writes (Own auth.agentId auth.teamId tables) P (createChannel auth name topic) fun _ _ => True := by
  refine .ite (fun _ => .throw_bind) fun _ => .ite (fun _ => .throw_bind) fun _ => .reads .check fun _ => ?_
  exact .execute (upsertChannel_writes ht)

omit [Platform] in
theorem foldl_max_mem (ms : List MessageInfo) (acc : Int) :
    ms.foldl (fun acc m => max acc m.id) acc = acc ∨
      ∃ m ∈ ms, m.id = ms.foldl (fun acc m => max acc m.id) acc := by
  induction ms generalizing acc with
  | nil => exact .inl rfl
  | cons m ms ih =>
    rcases ih (max acc m.id) with h | ⟨x, hx, h⟩
    · rcases le_total m.id acc with hm | hm
      · exact .inl (h.trans (max_eq_left hm))
      · exact .inr ⟨m, List.mem_cons_self, (h.trans (max_eq_right hm)).symm⟩
    · exact .inr ⟨x, List.mem_cons_of_mem m hx, h⟩

omit [Platform] in
/-- The new cursor is the old one or the id of a returned message. -/
theorem maxId_mem (since : Int) (ms : List MessageInfo) :
    maxId since ms = since ∨ ∃ m ∈ ms, m.id = maxId since ms := by
  cases ms with
  | nil => exact .inl rfl
  | cons m ms =>
    rcases foldl_max_mem ms m.id with h | ⟨x, hx, h⟩
    · exact .inr ⟨m, List.mem_cons_self, h.symm⟩
    · exact .inr ⟨x, List.mem_cons_of_mem m hx, h⟩

omit [Platform] in
theorem le_foldl_max (ms : List MessageInfo) (acc : Int) : acc ≤ ms.foldl (fun acc m => max acc m.id) acc ∧
    ∀ m ∈ ms, m.id ≤ ms.foldl (fun acc m => max acc m.id) acc := by
  induction ms generalizing acc with
  | nil => exact ⟨le_rfl, fun m hm => by cases hm⟩
  | cons x ms ih =>
    obtain ⟨hacc, hms⟩ := ih (max acc x.id)
    refine ⟨(le_max_left _ _).trans hacc, fun m hm => ?_⟩
    rcases List.mem_cons.1 hm with rfl | hm
    · exact (le_max_right _ _).trans hacc
    · exact hms m hm

omit [Platform] in
/-- The new cursor is at least the id of every returned message. -/
theorem le_maxId {since : Int} {ms : List MessageInfo} {info : MessageInfo} (h : info ∈ ms) :
    info.id ≤ maxId since ms := by
  cases ms with
  | nil => cases h
  | cons x ms =>
    rcases List.mem_cons.1 h with rfl | h
    · exact (le_foldl_max ms _).1
    · exact (le_foldl_max ms _).2 info h

omit [Platform] in
/-- An agent of a team has a name. -/
theorem Db.agentName_of_agentIn {db : Db} {agent team : Uuid} (h : db.agentIn agent team = true) :
    ∃ name, db.agentName agent = some name := by
  obtain ⟨a, ha, hid⟩ := List.any_eq_true.1 h
  have hfind : (db.agents.find? (·.id == agent)).isSome := List.find?_isSome.2 ⟨a, ha, (Bool.and_eq_true_iff.1 hid).1⟩
  obtain ⟨x, hx⟩ := Option.isSome_iff_exists.1 hfind
  exact ⟨x.name, by rw [Db.agentName, hx, Option.map_some]⟩

omit [Platform] in
theorem messageInfo?_id {db : Db} {m : Message} {info : MessageInfo} (h : db.messageInfo? m = some info) :
    info.id = m.id := by
  obtain ⟨sender, -, rfl⟩ := Option.map_eq_some_iff.1 h
  rfl

omit [Platform] in
/-- Every message has a sender, so each is shown. -/
theorem exists_messageInfo {pg : Pg} (hv : pg.Valid) {m : Message} (hm : m ∈ pg.db.messages) :
    ∃ info, pg.db.messageInfo? m = some info := by
  obtain ⟨name, hname⟩ := Db.agentName_of_agentIn (hv.refs.senders m hm).2
  exact ⟨_, by rw [Db.messageInfo?, hname, Option.map_some]⟩

omit [Platform] in
theorem mem_newest {db : Db} {p : Message → Bool} {limit : Int} {info : MessageInfo}
    (h : info ∈ db.newest p limit) : ∃ m ∈ db.messages, p m = true ∧ db.messageInfo? m = some info := by
  obtain ⟨m, hm, hinfo⟩ := List.mem_filterMap.1 (List.mem_of_mem_take h)
  obtain ⟨hm, hp⟩ := List.mem_filter.1 (Rows.mem_orderBy.1 hm)
  exact ⟨m, hm, hp, hinfo⟩

theorem readMessages_writes (ht : .readCursors ∈ tables) {input : ReadInput} :
    Bus.Writes (Own auth.agentId auth.teamId tables) P (readMessages auth input) fun _ _ => True := by
  refine .reads resolveScope_readOnly fun scope => .reads (.ite .select .pure) fun since => ?_
  refine Bus.Writes.query.bind fun rows => .ite (fun hc => ?_) fun _ => .of_readOnly .pure
  refine Bus.Writes.bind (Bus.Writes.execute ((upsertCursor_writes ht).pre ?_)) fun _ => .of_readOnly .pure
  -- The cursor moves to the id of a message that the query returned.
  rintro db ⟨-, pg, rfl, rfl⟩
  simp only [Bool.and_eq_true, decide_eq_true_eq] at hc
  rcases maxId_mem since _ with h | ⟨info, hinfo, h⟩
  · exact absurd (h ▸ hc.2) (lt_irrefl _)
  · obtain ⟨m, hm, -, hi⟩ := mem_newest (List.mem_reverse.1 hinfo)
    exact ⟨m, hm, (messageInfo?_id hi).symm.trans h⟩

theorem questionOf_writes (ht : [.messages, .attachments, .webhookDeliveries] ⊆ tables) {pid : Nat}
    {input : AskInput} {target : Uuid} {session : Option String} :
    Bus.Writes (Own auth.agentId auth.teamId tables) P (questionOf auth pid input target session)
      fun _ _ => True := by
  unfold questionOf
  split
  · exact .reads verifyQuestion_readOnly fun _ => .of_readOnly .pure
  · split
    · exact .throw
    · exact (postMessage_writes ht).bind fun _ => .of_readOnly .pure

omit [Platform] in
theorem refuseSelf_readOnly {target : Uuid} {session : Option String} : ReadOnly (refuseSelf auth target session) :=
  .ite (.bind onlyMe_readOnly fun _ => .ite .throw .pure) .pure

theorem lookForAnswer_readOnly {target : Uuid} {session : Option String} {question : Int}
    {received : List Received} : ReadOnly (lookForAnswer auth target session question received) := by
  refine .bind findAnswer_readOnly fun a => ?_
  cases a with
  | some a => exact .pure
  | none => exact awaitAnswer_readOnly

theorem askAgent_writes (ht : [.messages, .attachments, .webhookDeliveries] ⊆ tables) {pid : Nat}
    {input : AskInput} {received : List Received} :
    Bus.Writes (Own auth.agentId auth.teamId tables) P (askAgent auth pid input received) fun _ _ => True := by
  refine .reads .check fun a => .reads agentIdByName_readOnly fun target => .reads refuseSelf_readOnly fun _ => ?_
  exact (questionOf_writes ht).bind fun _ => .of_readOnly (.bind lookForAnswer_readOnly fun _ => .pure)

end

end CrewSync
