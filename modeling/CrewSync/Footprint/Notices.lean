import CrewSync.Footprint.Calls

/-! Messages and their notifications: what an event of the server leaves of the messages that are there, and
    that a new message is committed together with its notification. -/

namespace CrewSync

/-! ### Store functions and the writes that they commit -/

/-- The function commits a list of writes with `A`. -/
def Bus.Commits {α : Type} (A : List Write → Prop) (x : Bus α) : Prop :=
  ∀ pg, ∃ ws, (x.exec pg).2.db = pg.db.write ws ∧ A ws

/-- Inside a transaction: the function commits nothing, and its writes have `A`. -/
def Bus.Stages {α : Type} (A : List Write → Prop) (c : Conn) (x : Bus α) (out : α → Conn) : Prop :=
  ∀ tx, c.tx = some tx → ∀ pg, (x.exec pg).2.db = pg.db ∧
    ∀ a, (x.exec pg).1 = .ok a → ∃ ws, (out a).tx = some { tx with writes := tx.writes ++ ws } ∧ A ws

section
variable {α β : Type} {A : List Write → Prop} (hnil : A []) (happend : ∀ {ws ws'}, A ws → A ws' → A (ws ++ ws'))

namespace Bus.Commits
include hnil

theorem readOnly {x : Bus α} (h : ReadOnly x) : Bus.Commits A x := fun pg => ⟨[], by rw [h pg]; rfl, hnil⟩

/-- What follows a query knows its answer. -/
theorem after {x : Bus α} {f : α → Bus β} (hx : ReadOnly x)
    (hf : ∀ a, (∃ pg, (x.exec pg).1 = .ok a) → Bus.Commits A (f a)) : Bus.Commits A (x >>= f) := by
  intro pg
  rw [exec_bind]
  cases h : x.exec pg with
  | mk r pg' =>
    have : pg' = pg := by rw [← hx pg, h]
    subst this
    cases r with
    | ok a => exact hf a ⟨pg', by rw [h]⟩ pg'
    | error e => exact ⟨[], rfl, hnil⟩

theorem reads {x : Bus α} {f : α → Bus β} (hx : ReadOnly x) (hf : ∀ a, Bus.Commits A (f a)) :
    Bus.Commits A (x >>= f) := after hnil hx fun a _ => hf a

omit hnil in
theorem ite {p : Prop} [Decidable p] {x y : Bus α} (hx : p → Bus.Commits A x) (hy : ¬ p → Bus.Commits A y) :
    Bus.Commits A (if p then x else y) := by
  split
  · next h => exact hx h
  · next h => exact hy h

omit hnil in
/-- What follows only reads. -/
theorem thenReads {x : Bus α} {f : α → Bus β} (hx : Bus.Commits A x) (hf : ∀ a, ReadOnly (f a)) :
    Bus.Commits A (x >>= f) := by
  intro pg
  obtain ⟨ws, hdb, hA⟩ := hx pg
  rw [exec_bind]
  cases h : x.exec pg with
  | mk r pg' =>
    rw [h] at hdb
    cases r with
    | ok a =>
      refine ⟨ws, ?_, hA⟩
      simp only [hf a pg']
      exact hdb
    | error e => exact ⟨ws, hdb, hA⟩

omit hnil in
theorem map {x : Bus α} (f : α → β) (hx : Bus.Commits A x) : Bus.Commits A (f <$> x) := fun pg => by
  rw [exec_map]
  exact hx pg

theorem transaction {pid : Nat} {body : Conn → Bus (α × Conn)} (h : ∀ c, Bus.Stages A c (body c) (·.2)) :
    Bus.Commits A (CrewSync.transaction pid body) := by
  intro pg
  obtain ⟨hdb, hok⟩ := h ⟨pid, some ⟨pg.now, []⟩⟩ _ rfl pg
  have hbegin : (Conn.begin pid).exec pg = (.ok ⟨pid, some ⟨pg.now, []⟩⟩, pg) := rfl
  unfold CrewSync.transaction
  rw [exec_bind_ok hbegin, exec_bind_ok (exec_attempt _)]
  cases hr : ((body ⟨pid, some ⟨pg.now, []⟩⟩).exec pg).1 with
  | ok r =>
    obtain ⟨a, c⟩ := r
    obtain ⟨ws, htx, hA⟩ := hok (a, c) hr
    have hpending : c.pending = ws := by
      have htx : c.tx = _ := htx
      simp only [Conn.pending, htx, List.nil_append]
    refine ⟨ws, ?_, hA⟩
    change ((body ⟨pid, some ⟨pg.now, []⟩⟩).exec pg).2.db.write c.pending = pg.db.write ws
    rw [hpending, hdb]
  | error e => exact ⟨[], hdb, hnil⟩

end Bus.Commits

namespace Bus.Stages
variable {c : Conn}
include hnil

theorem readOnly {x : Bus α} {out : α → Conn} (h : ReadOnly x) (hout : ∀ a pg, (x.exec pg).1 = .ok a → out a = c) :
    Bus.Stages A c x out := by
  intro tx htx pg
  refine ⟨by rw [h pg], fun a ha => ⟨[], ?_, hnil⟩⟩
  rw [hout a pg ha, htx, List.append_nil]

theorem pure {a : α} {out : α → Conn} (hout : out a = c) : Bus.Stages A c (Pure.pure a) out :=
  readOnly hnil .pure fun b pg hb => by cases hb; exact hout

theorem throw {e : BusError} {out : α → Conn} : Bus.Stages A c (MonadExcept.throw e : Bus α) out :=
  readOnly hnil .throw fun _ _ h => by cases h

omit hnil in
/-- One statement. -/
theorem execute {l : Stmt} {lock : Conn.LockOf} {s : Sql β}
    (h : ∀ pg b seqs ws, s pg = .ok (b, seqs, ws) → A ws) : Bus.Stages A c (c.execute l lock s) (·.2) := by
  intro tx htx pg
  have hexec : (c.execute l lock s).exec pg = (c.answer s pg, c.effect lock s pg) := rfl
  rw [hexec]
  simp only [Conn.effect, htx, Conn.answer]
  cases hs : s (c.view pg) with
  | error e => exact ⟨rfl, fun a ha => by cases ha⟩
  | ok r =>
    refine ⟨rfl, fun a ha => ⟨r.2.2, ?_, h _ r.1 r.2.1 r.2.2 hs⟩⟩
    cases ha
    rfl

omit hnil in
theorem reads {x : Bus α} {f : α → Bus β} {out : β → Conn} (hx : ReadOnly x)
    (hf : ∀ a, Bus.Stages A c (f a) out) : Bus.Stages A c (x >>= f) out := by
  intro tx htx pg
  rw [exec_bind]
  cases h : x.exec pg with
  | mk r pg' =>
    have : pg' = pg := by rw [← hx pg, h]
    subst this
    cases r with
    | ok a => exact hf a tx htx pg'
    | error e => exact ⟨rfl, fun b hb => by cases hb⟩

omit hnil in
include happend in
theorem bind {x : Bus α} {f : α → Bus β} {outx : α → Conn} {outf : β → Conn} (hx : Bus.Stages A c x outx)
    (hf : ∀ a, Bus.Stages A (outx a) (f a) outf) : Bus.Stages A c (x >>= f) outf := by
  intro tx htx pg
  obtain ⟨hdb, hok⟩ := hx tx htx pg
  rw [exec_bind]
  cases h : x.exec pg with
  | mk r pg' =>
    rw [h] at hdb hok
    cases r with
    | error e => exact ⟨hdb, fun b hb => by cases hb⟩
    | ok a =>
      obtain ⟨ws, htx', hA⟩ := hok a rfl
      obtain ⟨hdb', hok'⟩ := hf a _ htx' pg'
      refine ⟨hdb'.trans hdb, fun b hb => ?_⟩
      obtain ⟨ws', htx'', hA'⟩ := hok' b hb
      exact ⟨ws ++ ws', by rw [htx'', List.append_assoc], happend hA hA'⟩

end Bus.Stages
end

/-! ### Posting -/

section
variable [Platform] {auth : AuthCtx} {A : List Write → Prop}

/-- A property of lists of writes that the files of a message leave alone. -/
structure Absorbs (A : List Write → Prop) : Prop where
  nil : A []
  append : ∀ {ws ws'}, A ws → A ws' → A (ws ++ ws')
  attachment : ∀ a, A [.insertAttachment a]

omit [Platform] in
theorem checkAttachmentQuota_stages (hA : Absorbs A) {c : Conn} {team : Uuid} {bytes : Int} :
    Bus.Stages A c (checkAttachmentQuota c team bytes) id := by
  refine .bind hA.append (.execute fun pg b seqs ws hs => ?_) fun r => ?_
  · simp only [quotaOf] at hs
    split at hs
    · cases hs
      exact hA.nil
    · cases hs
  · obtain ⟨limit, c⟩ := r
    cases limit with
    | none => exact .pure hA.nil rfl
    | some limit =>
      refine .reads Conn.readOnly_select fun used => ?_
      split
      · exact .reads .throw fun _ => .pure hA.nil rfl
      · exact .pure hA.nil rfl

omit [Platform] in
theorem insertAllForMessage_stages (hA : Absorbs A) {c : Conn} {team : Uuid} {message : Int} {uploader : Uuid}
    (atts : List NewAttachment) : Bus.Stages A c (insertAllForMessage c team message uploader atts) id := by
  induction atts generalizing c with
  | nil => exact .pure hA.nil rfl
  | cons att atts ih =>
    have one : Bus.Stages A c (insertForMessage c team message uploader att) (·.2) := by
      refine .bind hA.append (checkAttachmentQuota_stages hA) fun c =>
        .bind hA.append (.execute fun pg b seqs ws hs => ?_) fun _ => .pure hA.nil rfl
      obtain ⟨a, -, -, -, -, rfl⟩ := insertAttachment_ok hs
      exact hA.attachment a
    exact .bind hA.append one fun _ => ih

theorem postBody_stages (hA : Absorbs A) {c : Conn} {target : Target} {body : String} {input : PostInput} {metadata : Json}
    (hpost : ∀ pg b seqs ws,
      insertMessage auth target body input.replyTo metadata input.announce pg = .ok (b, seqs, ws) → A ws) :
    Bus.Stages A c (postBody auth target body input metadata c) (·.2) := by
  refine .bind hA.append (.execute hpost) fun _ =>
    .bind hA.append (insertAllForMessage_stages hA _) fun _ => .reads Conn.readOnly_select fun row => ?_
  cases row with
  | some info => exact .pure hA.nil rfl
  | none => exact .throw hA.nil

/-- What `post_message` asks of an announcement: it is no direct message. -/
def PostInput.announces (input : PostInput) : Prop :=
  ¬ (input.announce && input.«to».isSome && input.channel.isNone) = true

/-- A post commits nothing but the message to a target it resolved, and what goes with it. -/
theorem postMessage_commits (hA : Absorbs A) {pid : Nat} {input : PostInput}
    (hpost : ∀ target, input.announces → (∃ pg, ((resolveTarget auth input.channel input.«to»).exec pg).1 = .ok target) →
      ∀ body metadata pg b seqs ws,
        insertMessage auth target body input.replyTo metadata input.announce pg = .ok (b, seqs, ws) → A ws) :
    Bus.Commits A (postMessage auth pid input) := by
  have thrown : ∀ {α β : Type} {e : BusError} {f : α → Bus β},
      Bus.Commits A ((MonadExcept.throw e : Bus α) >>= f) := fun {α β e f} pg =>
    ⟨[], by rw [Bus.exec_bind_error (Bus.exec_throw e)]; rfl, hA.nil⟩
  unfold postMessage
  refine .ite (fun _ => thrown) fun _ => .ite (fun _ => thrown) fun _ => .ite (fun _ => thrown) fun hannounce => ?_
  refine .after hA.nil resolveTarget_readOnly fun target htarget => .reads hA.nil checkReply_readOnly fun _ => ?_
  refine .reads hA.nil .check fun _ => .thenReads (.transaction hA.nil fun c => ?_) fun _ => .pure
  exact postBody_stages hA fun pg b seqs ws hs => hpost target hannounce htarget _ _ pg b seqs ws hs

theorem askAgent_commits (hA : Absorbs A) {pid : Nat} {input : AskInput} {received : List Received}
    (hpost : ∀ target, (∃ pg, ((resolveTarget auth none (some (trim input.«to»))).exec pg).1 = .ok target) →
      ∀ body metadata pg b seqs ws, insertMessage auth target body none metadata false pg = .ok (b, seqs, ws) → A ws) :
    Bus.Commits A (askAgent auth pid input received) := by
  refine .reads hA.nil .check fun a => .reads hA.nil agentIdByName_readOnly fun target => ?_
  refine .reads hA.nil refuseSelf_readOnly fun _ => .thenReads ?_ fun question =>
    .bind lookForAnswer_readOnly fun _ => .pure
  unfold questionOf
  split
  · exact .readOnly hA.nil (.bind verifyQuestion_readOnly fun _ => .pure)
  · split
    · exact .readOnly hA.nil .throw
    · exact .thenReads (postMessage_commits hA fun target _ => hpost target) fun _ => .pure

end

/-! ### A message is committed with its notification -/

section
variable [Platform]

/-- Every message is inserted together with its notification. -/
def Announces (ws : List Write) : Prop := ∀ m, .insertMessage m ∈ ws → .notify (notifyMessage m) ∈ ws

namespace Announces

theorem nil : Announces [] := fun _ h => absurd h (by simp)

theorem append {ws ws' : List Write} (h : Announces ws) (h' : Announces ws') : Announces (ws ++ ws') := by
  intro m hm
  obtain hm | hm := List.mem_append.1 hm
  · exact List.mem_append_left _ (h m hm)
  · exact List.mem_append_right _ (h' m hm)

/-- No message is inserted. -/
theorem of_tables {ws : List Write} (h : ∀ w ∈ ws, .messages ∉ w.tables) : Announces ws :=
  fun m hm => absurd (h _ hm) (by simp [Write.tables])

end Announces

variable {auth : AuthCtx}

theorem insertMessage_announces {target : Target} {body : String} {replyTo : Option Int} {metadata : Json}
    {announce : Bool} {pg : Pg} {b : Int} {seqs : Seqs} {ws : List Write}
    (hs : insertMessage auth target body replyTo metadata announce pg = .ok (b, seqs, ws)) : Announces ws := by
  obtain ⟨m, fired, -, -, -, hfired, rfl⟩ := insertMessage_ok hs
  have hout : ∀ w ∈ (enqueueMessageWebhook pg m { pg.seqs with messages := b }).2, w.Outbox := enqueueMessage_outbox
  rw [← hfired] at hout
  intro m' hm'
  simp only [List.cons_append, List.mem_cons, List.mem_append, List.not_mem_nil, or_false] at hm' ⊢
  obtain hm' | hm' | hm' := hm'
  · obtain rfl := Write.insertMessage.inj hm'
    exact .inr (.inr rfl)
  · exact absurd (hout _ hm') (by simp [Write.Outbox])
  · cases hm'

theorem announces_absorbs : Absorbs Announces :=
  ⟨.nil, .append, fun _ => .of_tables (by simp [Write.tables])⟩

theorem postMessage_announces {pid : Nat} {input : PostInput} : Bus.Commits Announces (postMessage auth pid input) :=
  postMessage_commits announces_absorbs fun _ _ _ _ _ _ _ _ _ hs => insertMessage_announces hs

theorem askAgent_announces {pid : Nat} {input : AskInput} {received : List Received} :
    Bus.Commits Announces (askAgent auth pid input received) :=
  askAgent_commits announces_absorbs fun _ _ _ _ _ _ _ _ hs => insertMessage_announces hs

/-! ### What a list of writes does to the messages -/

/-- The same message, but for a reference to one that was pruned. -/
def Message.Same (m m' : Message) : Prop := m' = { m with replyTo := m'.replyTo }

/-- Messages of `db'` are messages of `db`, or their notifications came in between. -/
def Db.Told (db db' : Db) : Prop :=
  ∃ ns, db'.notified = db.notified ++ ns ∧
    ∀ m' ∈ db'.messages, (∃ m ∈ db.messages, m.Same m') ∨ notifyMessage m' ∈ ns

omit [Platform] in
theorem Message.Same.rfl {m : Message} : m.Same m := by simp [Message.Same]

omit [Platform] in
theorem Message.Same.trans {a b c : Message} (h : a.Same b) (h' : b.Same c) : a.Same c := by
  rw [Message.Same] at h h' ⊢
  rw [h', h]

theorem Message.Same.notify {m m' : Message} (h : m.Same m') : notifyMessage m' = notifyMessage m := by
  rw [h]
  simp [notifyMessage]

omit [Platform] in
theorem Write.mem_messages {db : Db} {w : Write} {m' : Message} (h : m' ∈ (w.apply db).messages) :
    (∃ m ∈ db.messages, m.Same m') ∨ w = .insertMessage m' := by
  cases w with
  | insertMessage r =>
    obtain h | h := List.mem_append.1 h
    · exact .inl ⟨m', h, .rfl⟩
    · rw [List.mem_singleton.1 h]
      exact .inr rfl
  | deleteMessages p =>
    obtain ⟨m, hm, rfl⟩ := List.mem_map.1 h
    exact .inl ⟨m, (Rows.mem_delete.1 hm).1, rfl⟩
  | _ => exact .inl ⟨m', h, .rfl⟩

omit [Platform] in
/-- Where the messages come from, and what is notified. -/
theorem Db.write_messages (db : Db) (ws : List Write) :
    ∃ ns, (db.write ws).notified = db.notified ++ ns ∧ (∀ n, .notify n ∈ ws → n ∈ ns) ∧
      ∀ m' ∈ (db.write ws).messages, ∃ m, m.Same m' ∧ (m ∈ db.messages ∨ .insertMessage m ∈ ws) := by
  induction ws generalizing db with
  | nil => exact ⟨[], by simp, by simp, fun m hm => ⟨m, .rfl, .inl hm⟩⟩
  | cons w ws ih =>
    obtain ⟨ns, hns, hmem, hms⟩ := ih (w.apply db)
    have hw : ∃ ns', (w.apply db).notified = db.notified ++ ns' ∧ ∀ n, w = .notify n → n ∈ ns' := by
      cases w with
      | notify n => exact ⟨[n], rfl, fun _ h => by cases h; simp⟩
      | _ => exact ⟨[], (List.append_nil _).symm, fun _ h => by cases h⟩
    obtain ⟨ns', hns', hw⟩ := hw
    refine ⟨ns' ++ ns, ?_, fun n hn => ?_, fun m' hm' => ?_⟩
    · rw [Db.write_cons, hns, hns', List.append_assoc]
    · obtain hn | hn := List.mem_cons.1 hn
      · exact List.mem_append_left _ (hw n hn.symm)
      · exact List.mem_append_right _ (hmem n hn)
    · obtain ⟨m, hsame, hm | hm⟩ := hms m' hm'
      · obtain ⟨m₀, hm₀, h⟩ | h := Write.mem_messages hm
        · exact ⟨m₀, h.trans hsame, .inl hm₀⟩
        · exact ⟨m, hsame, .inr (h ▸ List.mem_cons_self)⟩
      · exact ⟨m, hsame, .inr (List.mem_cons_of_mem _ hm)⟩

theorem Announces.told {ws : List Write} (h : Announces ws) (db : Db) : db.Told (db.write ws) := by
  obtain ⟨ns, hns, hmem, hms⟩ := db.write_messages ws
  refine ⟨ns, hns, fun m' hm' => ?_⟩
  obtain ⟨m, hsame, hm | hm⟩ := hms m' hm'
  · exact .inl ⟨m, hm, hsame⟩
  · exact .inr (hsame.notify ▸ hmem _ (h m hm))

omit [Platform] in
/-- A trail that inserts no message has none to insert. -/
theorem Wrote.noMessage {ok : Time → Db → Write → Prop} {pg pg' : Pg} (h : Wrote ok pg pg')
    (hok : ∀ now db m, ¬ ok now db (.insertMessage m)) : ∃ ws, pg'.db = pg.db.write ws ∧ ∀ m, .insertMessage m ∉ ws := by
  obtain ⟨ws, hdb, -, -, ht⟩ := h
  refine ⟨ws, hdb, fun m hm => ?_⟩
  clear hdb
  generalize pg.db = db at ht
  induction ws generalizing db with
  | nil => cases hm
  | cons w ws ih =>
    obtain hm | hm := List.mem_cons.1 hm
    · exact hok _ _ m (hm ▸ ht.2.1)
    · exact ih hm _ ht.2.2

theorem Wrote.told {ok : Time → Db → Write → Prop} {pg pg' : Pg} (h : Wrote ok pg pg')
    (hok : ∀ now db m, ¬ ok now db (.insertMessage m)) : pg.db.Told pg'.db := by
  obtain ⟨ws, hdb, hws⟩ := h.noMessage hok
  rw [hdb]
  exact Announces.told (fun m hm => absurd hm (hws m)) pg.db

omit [Platform] in
/-- Without a new message there are only those of before. -/
theorem Wrote.sameMessages {ok : Time → Db → Write → Prop} {pg pg' : Pg} (h : Wrote ok pg pg')
    (hok : ∀ now db m, ¬ ok now db (.insertMessage m)) : ∀ m' ∈ pg'.db.messages, ∃ m ∈ pg.db.messages, m.Same m' := by
  obtain ⟨ws, hdb, hws⟩ := h.noMessage hok
  obtain ⟨-, -, -, hms⟩ := pg.db.write_messages ws
  intro m' hm'
  obtain ⟨m, hsame, hm | hm⟩ := hms m' (hdb ▸ hm')
  · exact ⟨m, hm, hsame⟩
  · exact absurd hm (hws m)

/-! ### Events of the server -/

omit [Platform] in
/-- Where an upsert leaves the cursors. -/
theorem lastRead_upsertCursor {pg : Pg} (hcursors : Rows.Keyed Db.cursorKey pg.db.cursors) {agent : Uuid}
    (hagent : pg.db.agentExists agent) {scope : String} {last : Int} (hlast : 0 ≤ last) (a : Uuid) (s : String) :
    ((upsertCursor agent scope last).effect pg).db.lastRead a s =
      if agent = a ∧ scope = s then max (pg.db.lastRead a s) last else pg.db.lastRead a s := by
  have hq : ∀ c : ReadCursor, (c.agentId == a && c.scope == s) = true ↔ Db.cursorKey c = (a, s) := by
    simp [Db.cursorKey]
  simp only [Sql.effect, upsertCursor, hagent, if_true, Db.write_cons, Db.write_nil, Write.apply, Db.lastRead,
    hcursors.find?_put hq, Db.cursorKey, Prod.mk.injEq]
  split
  · next hk =>
    obtain ⟨rfl, rfl⟩ := hk
    cases pg.db.cursors.find? fun c => c.agentId == agent && c.scope == scope with
    | none => simpa using hlast
    | some c => simp
  · rfl

omit [Platform] in
/-- An upsert of a cursor does not move it back. -/
theorem upsertCursor_lastRead {pg : Pg} (hv : pg.Valid) {agent : Uuid} {scope : String} {last : Int}
    (hlast : pg.db.lastRead agent scope ≤ last) (a : Uuid) (s : String) :
    pg.db.lastRead a s ≤ ((upsertCursor agent scope last).effect pg).db.lastRead a s := by
  simp only [Sql.effect, upsertCursor]
  split
  · next h =>
    split at h
    · cases h
      have hq : ∀ c : ReadCursor, (c.agentId == a && c.scope == s) = true ↔ Db.cursorKey c = (a, s) := by
        simp [Db.cursorKey]
      simp only [Db.write_cons, Db.write_nil, Write.apply, Db.lastRead, hv.keys.cursors.find?_put hq]
      split
      · next hk =>
        simp only [Db.cursorKey, Prod.mk.injEq] at hk
        obtain ⟨rfl, rfl⟩ := hk
        unfold Db.lastRead at hlast
        cases hf : pg.db.cursors.find? fun c => c.agentId == agent && c.scope == scope with
        | none => rw [hf] at hlast; simpa using hlast
        | some c => simp
      · exact le_rfl
    · cases h
  · exact le_rfl

theorem readMessages_lastRead {pg : Pg} (hv : pg.Valid) (auth : AuthCtx) (input : ReadInput) (a : Uuid) (s : String) :
    pg.db.lastRead a s ≤ ((readMessages auth input).exec pg).2.db.lastRead a s := by
  unfold readMessages
  rw [Bus.exec_bind, ← Prod.eta ((resolveScope auth input.scope).exec pg), resolveScope_readOnly pg]
  split
  · next scope pg' h =>
    obtain rfl : pg = pg' := (Prod.mk.inj h).2
    have hsince : ∃ since, (readSince auth (scope.cursorKeyFor auth input.allSessions) input.onlyNew).exec pg =
        (.ok since, pg) ∧
          (input.onlyNew = true → pg.db.lastRead auth.agentId (scope.cursorKeyFor auth input.allSessions) = since) := by
      unfold readSince
      cases input.onlyNew with
      | true => exact ⟨_, rfl, fun _ => rfl⟩
      | false => exact ⟨0, rfl, fun h => by cases h⟩
    obtain ⟨since, hsince, hread⟩ := hsince
    rw [Bus.exec_bind_ok hsince, Bus.exec_bind_ok (Bus.exec_select _ _)]
    dsimp only
    split
    · next hc =>
      simp only [Bool.and_eq_true, decide_eq_true_eq] at hc
      have hmove := upsertCursor_lastRead hv ((hread hc.1).le.trans hc.2.le) a s
      rw [Bus.exec_bind, Bus.exec_execute]
      split
      · next h => rwa [(Prod.mk.inj h).2] at hmove
      · next h => rwa [(Prod.mk.inj h).2] at hmove
    · exact le_rfl
  · next e pg' h =>
    obtain rfl : pg = pg' := (Prod.mk.inj h).2
    exact le_rfl

namespace Pg
variable {pg : Pg}

theorem call_told (hv : pg.Valid) (auth : AuthCtx) (pid : Nat) (c : Call) : pg.db.Told (pg.call auth pid c).2.db := by
  by_cases hc : Table.messages ∈ c.writes
  · have told : ∀ {α : Type} {x : Bus α}, Bus.Commits Announces x → pg.db.Told (x.exec pg).2.db := by
      intro α x hx
      obtain ⟨ws, hdb, hA⟩ := hx pg
      exact hdb ▸ hA.told _
    have refl : pg.db.Told pg.db := Announces.nil.told pg.db
    unfold call
    split
    · cases c with
      | postMessage input => exact told (postMessage_announces.map _)
      | askAgent input received => exact told (askAgent_announces.map _)
      | _ => simp [Call.writes] at hc
    · exact refl
  · exact (call_wrote hv auth pid c).told fun now db m h => hc (h.tables (by simp [Write.tables]))

/-- The notifications only grow, and a message that is new has its own among the new ones. -/
theorem next_told (hv : pg.Valid) (e : Event) : pg.db.Told (pg.next e).db := by
  have ht : Table.webhookDeliveries ∈ [Table.webhookDeliveries] := List.mem_singleton_self _
  have outbox : ∀ now db m, ¬ OnTables [Table.webhookDeliveries] now db (.insertMessage m) :=
    fun _ _ _ h => absurd (h List.mem_cons_self) (by simp)
  cases e with
  | call auth pid c => exact call_told hv auth pid c
  | command pid c =>
    by_cases hc : Table.messages ∈ c.writes
    · cases c with
      | teamPrune team days apply =>
        have prunes : ∀ id, Bus.Writes (fun now db w => ∃ id, Prunes id now db w) (fun _ => True)
            (prune pid id days (!apply)) fun _ _ => True := fun id pg hv hP =>
          ⟨(prune_writes (P := fun _ => True) pg hv hP).1.imp fun _ _ _ h => ⟨id, h⟩, fun _ _ => trivial⟩
        exact ((Bus.Writes.reads teamId_readOnly prunes).map pg hv trivial).1.told fun _ _ _ ⟨_, h⟩ => h
      | _ => simp [Command.writes] at hc
    · exact (Command.run_writes pid c pg hv trivial).1.told fun now db m h => hc (h (by simp [Write.tables]))
  | claim locked => exact ((Webhooks.claim_writes ht).effect hv).told outbox
  | record d r => exact ((Webhooks.record_writes ht).effect hv).told outbox
  | prune => exact ((Webhooks.prune_writes ht).effect hv).told outbox
  | tick d => exact Announces.nil.told pg.db

/-- The ids of new messages are above those given out before. -/
theorem next_ids (hv : pg.Valid) (e : Event) :
    ∀ m' ∈ (pg.next e).db.messages, (∃ m ∈ pg.db.messages, m.Same m') ∨ pg.seqs.messages < m'.id := by
  refine next_lift (R := fun a b => ∀ m' ∈ b.messages, (∃ m ∈ a.messages, m.Same m') ∨ pg.seqs.messages < m'.id) hv e
    (fun db m hm => .inl ⟨m, hm, .rfl⟩) (fun h h' c hc => ?_) fun seqs db w _ _ hw _ m' hm' => ?_
  · obtain ⟨b, hb, hbc⟩ | hlt := h' c hc
    · obtain ⟨a, ha, hab⟩ | hlt := h b hb
      · exact .inl ⟨a, ha, hab.trans hbc⟩
      · have : c.id = b.id := by rw [hbc]
        exact .inr (this ▸ hlt)
    · exact .inr hlt
  · obtain h | rfl := Write.mem_messages hm'
    · exact .inl h
    · exact .inr hw.2.2.2.2

/-- Only a prune takes messages away. -/
def isPrune : Event → Bool
  | .command _ (.teamPrune ..) => true
  | _ => false

omit [Platform] in
theorem messages_keep {db : Db} {w : Write} (hw : ∀ p, w ≠ .deleteMessages p) {m : Message} (hm : m ∈ db.messages) :
    m ∈ (w.apply db).messages := by
  cases w with
  | insertMessage r => exact List.mem_append_left _ hm
  | deleteMessages p => exact absurd rfl (hw p)
  | _ => exact hm

theorem next_keeps (hv : pg.Valid) {e : Event} (he : isPrune e = false) {m : Message} (hm : m ∈ pg.db.messages) :
    m ∈ (pg.next e).db.messages := by
  have frame : Table.messages ∉ e.writes → (pg.next e).db.messages = pg.db.messages := fun hn =>
    next_frame hv e Db.messages fun db w hw => by
      cases w <;> first | rfl | exact absurd (hw List.mem_cons_self) hn
  cases e with
  | call auth pid c =>
    refine (call_wrote hv auth pid c).lift (R := fun a b => ∀ m ∈ a.messages, m ∈ b.messages) hv (fun _ _ h => h)
      (fun h h' m hm => h' m (h m hm)) (fun _ db w _ _ _ hw m hm => ?_) m hm
    refine messages_keep (fun p hp => ?_) hm
    have := hw.author
    rwa [hp] at this
  | command pid c =>
    rw [frame]
    · exact hm
    · cases c with
      | teamPrune team days apply => cases he
      | _ => simp [Event.writes, Command.writes]
  | _ => exact frame (by simp [Event.writes]) ▸ hm

/-- Read positions only move on. -/
theorem next_lastRead (hv : pg.Valid) (e : Event) (agent : Uuid) (scope : String) :
    pg.db.lastRead agent scope ≤ (pg.next e).db.lastRead agent scope := by
  have frame : Table.readCursors ∉ e.writes → (pg.next e).db.lastRead agent scope = pg.db.lastRead agent scope :=
    fun hn => next_frame hv e (fun db => db.lastRead agent scope) fun db w hw => by
      cases w <;> first | rfl | exact absurd (hw List.mem_cons_self) hn
  by_cases hn : Table.readCursors ∈ e.writes
  · cases e with
    | call auth pid c =>
      cases c with
      | readMessages input =>
        change _ ≤ (pg.call auth pid (.readMessages input)).2.db.lastRead agent scope
        unfold call
        split
        · simp only [Call.run, Bus.exec_map]
          exact readMessages_lastRead hv ..
        · exact le_rfl
      | _ => simp [Event.writes, Call.writes] at hn
    | command pid c => cases c <;> simp [Event.writes, Command.writes] at hn
    | _ => simp [Event.writes] at hn
  · exact (frame hn).ge

end Pg

end
end CrewSync
