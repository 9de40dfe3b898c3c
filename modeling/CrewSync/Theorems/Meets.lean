import CrewSync.Footprint.Calls
import CrewSync.Footprint.Uploads
import CrewSync.Theorems.Text

/-! Triples of what the calls share: the statements of a transaction, and the call itself. -/

namespace CrewSync

/-! ### Transactions -/

section
variable {db : Db} {E : BusError → Prop}

/-- A statement inside a transaction reads its writes so far, and leaves the tables as they were. -/
theorem txExecute_meets {β : Type} {Q : β × Conn → Prop} {s : Sql β} (pid : Nat) (tx : Tx) (l : Stmt) (lock : Conn.LockOf)
    (hQ : ∀ pg b seqs ws, pg.db = db.write tx.writes → s pg = .ok (b, seqs, ws) →
      Q (b, ⟨pid, some { tx with writes := tx.writes ++ ws }⟩))
    (hE : ∀ pg e, s pg = .error e → E e) :
    Bus.Meets (·.db = db) (Conn.execute ⟨pid, some tx⟩ l lock s) (fun r pg => Q r ∧ pg.db = db) E where
  answers pg h r hr := by
    change Conn.answer ⟨pid, some tx⟩ s pg = .ok r at hr
    change Q r ∧ (Conn.effect ⟨pid, some tx⟩ lock s pg).db = db
    simp only [Conn.answer, Conn.effect] at hr ⊢
    cases hs : s (Conn.view ⟨pid, some tx⟩ pg) with
    | error e =>
      rw [hs] at hr
      cases hr
    | ok b =>
      obtain ⟨b, seqs, ws⟩ := b
      rw [hs] at hr
      obtain rfl := Except.ok.inj hr
      exact ⟨hQ _ b seqs ws (congrArg (Db.write · tx.writes) h) hs, h⟩
  fails pg h e he := by
    change Conn.answer ⟨pid, some tx⟩ s pg = .error e at he
    simp only [Conn.answer] at he
    cases hs : s (Conn.view ⟨pid, some tx⟩ pg) with
    | error e' =>
      rw [hs] at he
      exact Except.error.inj he ▸ hE _ e' hs
    | ok b =>
      rw [hs] at he
      cases he

/-- The quota of the team leaves room for so many bytes more. -/
def Db.Admits (db : Db) (team : Uuid) (bytes : Int) : Prop :=
  ∀ t, db.findTeam team = some t → ∀ limit ∈ t.attachmentBytesLimit, db.attachmentBytes team + bytes ≤ limit

/-- The quota check inside a transaction writes nothing, and what it lets through fits. -/
theorem checkAttachmentQuota_meets (hdb : E .db) (hinvalid : ∀ msg, E (.invalid msg)) (pid : Nat) (tx : Tx) (team : Uuid)
    (bytes : Int) :
    Bus.Meets (·.db = db) (checkAttachmentQuota ⟨pid, some tx⟩ team bytes)
      (fun c pg => (c = ⟨pid, some tx⟩ ∧ (db.write tx.writes).Admits team bytes) ∧ pg.db = db) E := by
  refine .bind (txExecute_meets (Q := fun r => r.2 = ⟨pid, some tx⟩ ∧ ∃ t, (db.write tx.writes).findTeam team = some t ∧
    r.1 = t.attachmentBytesLimit) pid tx _ _ ?_ ?_) fun r => .lift fun hconn => ?_
  · intro pg b seqs ws hview hs
    obtain ⟨-, rfl, t, ht, hlimit⟩ := quotaOf_ok hs
    rw [hview] at ht
    exact ⟨by rw [List.append_nil], t, ht, hlimit⟩
  · intro pg e hs
    unfold quotaOf at hs
    split at hs
    · cases hs
    · cases hs
      exact hdb
  · rcases r with ⟨limit, c⟩
    obtain ⟨rfl, t, ht, hlimit⟩ := hconn
    have hadmits : (∀ l ∈ limit, (db.write tx.writes).attachmentBytes team + bytes ≤ l) →
        (db.write tx.writes).Admits team bytes := by
      intro h t' ht' l hl
      obtain rfl := Option.some.inj (ht.symm.trans ht')
      exact h l (by rwa [show limit = t.attachmentBytesLimit from hlimit])
    cases limit with
    | none => exact .pure fun _ h => ⟨⟨rfl, hadmits fun l hl => by cases hl⟩, h⟩
    | some limit =>
      refine .bind (Q := fun used pg => used = (db.write tx.writes).attachmentBytes team ∧ pg.db = db) ?_
        fun used => .lift fun hused => .guard (fun _ => hinvalid _) fun hroom => .pure fun _ h => ⟨⟨rfl, hadmits fun l hl => ?_⟩, h⟩
      · refine ⟨fun pg h used hu => ⟨?_, h⟩, fun _ _ _ he => by cases he⟩
        obtain rfl := Except.ok.inj hu
        exact congrArg (fun db : Db => (db.write tx.writes).attachmentBytes team) h
      · obtain rfl := Option.mem_some.1 hl
        omega

end

/-! ### Posting -/

section
variable [Platform] {auth : AuthCtx} {db : Db} {E : BusError → Prop}

omit [Platform] in
theorem Db.findAgent_some {team : Uuid} {name : String} {a : Agent} (h : db.findAgent team name = some a) :
    a ∈ db.agents ∧ a.teamId = team ∧ a.name = name := by
  have := List.find?_some h
  simp only [Bool.and_eq_true, beq_iff_eq] at this
  exact ⟨List.mem_of_find?_eq_some h, this.1, this.2⟩

/-- `agent[/session]`, the address of an agent or of one session of theirs. -/
def addressOf (agent : String) : Option String → String
  | none => agent
  | some session => s!"{agent}/{session}"

/-- Where a post goes: to a channel, and so to the roster, or to the agent of an address. -/
inductive Goes (auth : AuthCtx) (db : Db) : Target → Prop
  | channel (c : Uuid) : Goes auth db ⟨some c, none, none, db.rosterNames auth.teamId⟩
  | direct {dest agent : String} {session : Option String} {a : Agent} (hparse : parseAddress dest = .ok (agent, session))
      (hfind : db.findAgent auth.teamId (trim agent) = some a) :
      Goes auth db ⟨none, some a.id, session, [addressOf agent session]⟩

theorem resolveTarget_meets (channel dest : Option String) :
    Bus.Meets (·.db = db) (resolveTarget auth channel dest) (fun target pg => Goes auth db target ∧ pg.db = db)
      fun _ => True := by
  have hchannel : ∀ c, Bus.Meets (·.db = db) (toChannel auth c) (fun target pg => Goes auth db target ∧ pg.db = db)
      fun _ => True := by
    intro c
    refine .bind (Q := fun names pg => names = db.rosterNames auth.teamId ∧ pg.db = db) (.select fun pg h => ⟨by rw [h], h⟩)
      fun names => .lift fun hnames => .pure fun _ h => ⟨hnames ▸ .channel c, h⟩
  cases channel with
  | some channel =>
    cases dest with
    | some dest => exact .throw fun _ _ => trivial
    | none =>
      refine .bind (Q := fun _ pg => pg.db = db) ⟨fun pg h id hid => ?_, fun _ _ _ _ => trivial⟩ hchannel
      rw [channelIdByName_readOnly pg, h]
  | none =>
    cases dest with
    | none =>
      refine .bind (Q := fun _ pg => pg.db = db) ⟨fun pg h id hid => ?_, fun _ _ _ _ => trivial⟩ fun found => ?_
      · rw [defaultChannel_readOnly pg, h]
      · cases found with
        | some c => exact hchannel _
        | none => exact .ite (fun _ => .throw fun _ _ => trivial) fun _ => .throw fun _ _ => trivial
    | some dest =>
      refine .bind (Q := fun r pg => parseAddress dest = .ok r ∧ pg.db = db) (.check (fun _ _ h hr => ⟨hr, h⟩) fun _ _ => trivial)
        fun r => .lift fun hparse => ?_
      rcases r with ⟨agent, session⟩
      refine .bind (Q := fun id pg => (∃ a, db.findAgent auth.teamId (trim agent) = some a ∧ a.id = id) ∧ pg.db = db) ?_
        fun id => .lift fun hfind => ?_
      · refine .bind (Q := fun row pg => row = (db.findAgent auth.teamId (trim agent)).map (·.id) ∧ pg.db = db)
          (.select fun pg h => ⟨by rw [h], h⟩) fun row => .lift fun hrow => ?_
        cases row with
        | none => exact .throw fun _ _ => trivial
        | some id => exact .pure fun _ h => ⟨by simpa using hrow.symm, h⟩
      · obtain ⟨a, ha, rfl⟩ := hfind
        refine .guard (fun _ => trivial) fun _ => .pure fun _ h => ⟨?_, h⟩
        cases session with
        | none => exact .direct hparse ha
        | some s => exact .direct hparse ha

/-- The message goes where the target says. -/
structure Message.BoundFor (m : Message) (target : Target) : Prop where
  channel : m.channelId = target.channel
  recipient : m.recipientAgentId = target.recipient
  session : m.recipientSession = target.recipientSession

/-- The rows of the files of a message. -/
abbrev FilesOf (team : Uuid) (message : Int) (uploader : Uuid) : List NewAttachment → List Attachment → Prop :=
  List.Forall₂ fun att a => ∃ id now, a = newAttachment team id now (some message) none uploader att

/-- The tables after a post: its message, with its files, the rows of the outbox and the notification. -/
def Db.posted (db : Db) (m : Message) (files : List Attachment) (rows : List Delivery) : Db :=
  { db with
    messages := db.messages ++ [m], attachments := db.attachments ++ files
    deliveries := db.deliveries ++ rows, notified := db.notified ++ [notifyMessage m] }

/-- The rows of the outbox for a message: one for each hook that wants it, and none for a direct message. -/
def Db.Enqueues (db : Db) (m : Message) (rows : List Delivery) : Prop :=
  if m.recipientAgentId.isSome then rows = []
  else ∃ (pg : Pg) (seqs : Seqs) (summary : String) (payload : Payload), pg.db = db ∧
    rows = pg.enqueued m.teamId .message summary payload (m.channelId.bind db.channelName) seqs

/-- What an accepted post adds to the tables. -/
structure IsPost (auth : AuthCtx) (input : PostInput) (target : Target) (db : Db) (m : Message) (files : List Attachment)
    (rows : List Delivery) : Prop where
  message : ∃ id now,
    m = newMessage auth id now target (trim input.body) input.replyTo (input.metadata.getD "\x7b\x7d") input.announce
  ok : db.messageOk m = true
  files : FilesOf auth.teamId m.id auth.agentId input.attachments files
  room : input.attachments ≠ [] → db.Admits auth.teamId (input.attachments.map (·.sizeBytes)).sum
  rows : db.Enqueues m rows

omit [Platform] in
/-- The files of a message come after its row, each within the quota that the earlier ones leave. -/
theorem insertAllForMessage_meets (hdb : E .db) (hinvalid : ∀ msg, E (.invalid msg)) (pid : Nat)
    (tx : Tx) (team : Uuid) (message : Int) (uploader : Uuid) (atts : List NewAttachment) :
    Bus.Meets (·.db = db) (insertAllForMessage ⟨pid, some tx⟩ team message uploader atts)
      (fun c pg => (∃ files, c = ⟨pid, some ⟨tx.now, tx.writes ++ files.map .insertAttachment⟩⟩ ∧
        FilesOf team message uploader atts files ∧
        (atts ≠ [] → (db.write tx.writes).Admits team (atts.map (·.sizeBytes)).sum)) ∧ pg.db = db) E := by
  induction atts generalizing tx with
  | nil => exact .pure fun _ h => ⟨⟨[], by simp, .nil, fun h => absurd rfl h⟩, h⟩
  | cons att atts ih =>
    have hone : Bus.Meets (·.db = db) (insertForMessage ⟨pid, some tx⟩ team message uploader att)
        (fun r pg => (∃ a, r.2 = ⟨pid, some ⟨tx.now, tx.writes ++ [.insertAttachment a]⟩⟩ ∧
          (∃ id now, a = newAttachment team id now (some message) none uploader att) ∧
          (db.write tx.writes).Admits team att.sizeBytes) ∧ pg.db = db) E := by
      refine .bind (checkAttachmentQuota_meets hdb hinvalid pid tx _ _) fun c => .lift fun hconn => ?_
      obtain ⟨rfl, hroom⟩ := hconn
      refine .bind (txExecute_meets (Q := fun r => ∃ a, r.2 = ⟨pid, some ⟨tx.now, tx.writes ++ [.insertAttachment a]⟩⟩ ∧
        ∃ id now, a = newAttachment team id now (some message) none uploader att) pid tx _ _ ?_ ?_) fun r => ?_
      · intro pg b seqs ws _ hs
        obtain ⟨a, -, ha, -, -, rfl⟩ := insertAttachment_ok hs
        exact ⟨a, rfl, _, _, ha⟩
      · intro pg e hs
        unfold insertAttachment at hs
        dsimp only at hs
        split at hs
        · cases hs
        · cases hs
          exact hdb
      · rcases r with ⟨id, c⟩
        refine .lift fun hconn => .pure fun _ h => ⟨?_, h⟩
        obtain ⟨a, hc, ha⟩ := hconn
        exact ⟨a, hc, ha, hroom⟩
    refine .bind hone fun r => .lift fun hconn => ?_
    rcases r with ⟨info, c⟩
    obtain ⟨a, rfl, ha, hroom⟩ := hconn
    have hrest := ih ⟨tx.now, tx.writes ++ [.insertAttachment a]⟩
    refine ⟨fun pg h c hc => ?_, hrest.fails⟩
    obtain ⟨⟨files, rfl, hfiles, hrooms⟩, hdb'⟩ := hrest.answers pg h c hc
    refine ⟨⟨a :: files, by simp, .cons ha hfiles, fun _ => ?_⟩, hdb'⟩
    cases atts with
    | nil => simpa using hroom
    | cons att' atts =>
      intro t ht limit hlimit
      obtain ⟨id, now, rfl⟩ := ha
      have hbytes := hrooms (by simp) t (by rw [Db.write_append]; exact ht) limit hlimit
      have hupload : ∀ w ∈ [Write.insertAttachment (newAttachment team id now (some message) none uploader att)],
          w.Upload uploader team := by simp [Write.Upload, newAttachment]
      rw [Db.write_append, Db.attachmentBytes_write hupload, if_pos rfl, staged_attachment] at hbytes
      rw [List.map_cons, List.sum_cons, ← Int.add_assoc]
      exact hbytes

omit [Platform] in
theorem enqueueMessage_write (pg : Pg) (m : Message) (seqs : Seqs) : ∃ rows, pg.db.Enqueues m rows ∧
    ∀ db : Db, db.write (enqueueMessageWebhook pg m seqs).2 = { db with deliveries := db.deliveries ++ rows } := by
  unfold enqueueMessageWebhook Db.Enqueues
  split
  · exact ⟨[], rfl, fun db => by simp⟩
  · exact ⟨_, ⟨pg, _, _, _, rfl, rfl⟩, enqueue_write pg m.teamId .message _ _ _ seqs⟩

/-- The message is inserted with its rows of the outbox and its notification. -/
theorem insertMessage_posts {target : Target} {body : String} {replyTo : Option Int} {metadata : Json}
    {announce : Bool} {pg : Pg} {b : Int} {seqs : Seqs} {ws : List Write} (hdb : pg.db = db)
    (hs : insertMessage auth target body replyTo metadata announce pg = .ok (b, seqs, ws)) :
    ∃ m rows, m = newMessage auth b pg.now target body replyTo metadata announce ∧ db.messageOk m = true ∧
      db.Enqueues m rows ∧ ∀ db : Db, db.write ws = db.posted m [] rows := by
  subst hdb
  obtain ⟨m, fired, -, hm, hok, hfired, rfl⟩ := insertMessage_ok hs
  obtain rfl : fired = (enqueueMessageWebhook pg m { pg.seqs with messages := b }).2 := congrArg Prod.snd hfired
  obtain ⟨rows, hrows, hwrite⟩ := enqueueMessage_write pg m { pg.seqs with messages := b }
  refine ⟨m, rows, hm, hok, hrows, fun db => ?_⟩
  rw [List.cons_append, Db.write_cons, Db.write_append, hwrite]
  simp [Write.apply, Db.posted]

omit [Platform] in
theorem Db.write_insertAttachments (files : List Attachment) (db : Db) :
    db.write (files.map .insertAttachment) = { db with attachments := db.attachments ++ files } := by
  induction files generalizing db with
  | nil => simp
  | cons a files ih =>
    rw [List.map_cons, Db.write_cons, ih]
    simp [Write.apply]

theorem postBody_meets (hdb : E .db) (hinvalid : ∀ msg, E (.invalid msg)) (auth : AuthCtx) (target : Target)
    (input : PostInput) (pid : Nat) (now : Time) :
    Bus.Meets (·.db = db)
      (postBody auth target (trim input.body) input (input.metadata.getD "\x7b\x7d") ⟨pid, some ⟨now, []⟩⟩)
      (fun r pg => ∃ m files rows, r.1.id = m.id ∧ IsPost auth input target db m files rows ∧
        (r.2.unlock { pg with db := pg.db.write r.2.pending }).db = db.posted m files rows) E := by
  refine .bind (txExecute_meets (Q := fun r => ∃ (tx : Tx) (m : Message) (rows : List Delivery), r.2 = ⟨pid, some tx⟩ ∧
    r.1 = m.id ∧ (∃ id now, m = newMessage auth id now target (trim input.body) input.replyTo
      (input.metadata.getD "\x7b\x7d") input.announce) ∧ db.messageOk m = true ∧ db.Enqueues m rows ∧
      ∀ db : Db, db.write tx.writes = db.posted m [] rows) pid ⟨now, []⟩ _ _ ?_ ?_)
    fun r => .lift fun hconn => ?_
  · intro pg b seqs ws hview hs
    obtain ⟨m, rows, hm, hok, hrows, hwrite⟩ := insertMessage_posts hview hs
    exact ⟨_, m, rows, rfl, by rw [hm]; rfl, ⟨_, _, hm⟩, hok, hrows, fun db => by rw [List.nil_append, hwrite]⟩
  · intro pg e hs
    unfold insertMessage at hs
    dsimp only at hs
    split at hs
    · cases hs
    · cases hs
      exact hdb
  rcases r with ⟨id, c⟩
  obtain ⟨tx, m, rows, rfl, rfl, hm, hok, hrows, hwrite⟩ := hconn
  refine .bind (insertAllForMessage_meets hdb hinvalid pid tx _ _ _ _) fun c => .lift fun hconn => ?_
  obtain ⟨files, rfl, hfiles, hroom⟩ := hconn
  have hroom : input.attachments ≠ [] → db.Admits auth.teamId (input.attachments.map (·.sizeBytes)).sum := by
    intro h t ht limit hlimit
    have hfits := hroom h t (by rw [hwrite]; exact ht) limit hlimit
    have hbytes : (db.posted m [] rows).attachmentBytes auth.teamId = db.attachmentBytes auth.teamId := by
      simp [Db.posted, Db.attachmentBytes]
    rwa [hwrite, hbytes] at hfits
  have hpost : IsPost auth input target db m files rows := ⟨hm, hok, hfiles, hroom, hrows⟩
  refine .bind (Q := fun row pg => (∀ info ∈ row, info.id = m.id) ∧ pg.db = db) ?_ fun row => .lift fun hrow => ?_
  · refine ⟨fun pg h row hr => ⟨?_, h⟩, fun _ _ _ he => by cases he⟩
    obtain rfl := Except.ok.inj hr
    intro info hinfo
    obtain ⟨o, ho, hinfo⟩ := Option.bind_eq_some_iff.1 hinfo
    obtain ⟨sender, -, rfl⟩ := Option.map_eq_some_iff.1 hinfo
    have hid : (o.id == m.id) = true := by simpa using List.find?_some ho
    exact beq_iff_eq.1 hid
  cases row with
  | none => exact .throw fun _ _ => hdb
  | some info =>
    refine .pure fun pg h => ⟨m, files, rows, hrow info rfl, hpost, ?_⟩
    change pg.db.write (tx.writes ++ files.map .insertAttachment) = _
    rw [Db.write_append, hwrite, h, Db.write_insertAttachments]
    simp [Db.posted]

/-- A post brings one message with its files, and says where it went. -/
theorem postMessage_posts {T : Target → Prop} {input : PostInput} (hdb : E .db) (hinvalid : ∀ msg, E (.invalid msg))
    (hreply : ∀ r : Int, E (.notFound s!"message {r}"))
    (hresolve : Bus.Meets (·.db = db) (resolveTarget auth input.channel input.«to») (fun target pg => T target ∧ pg.db = db) E)
    (pid : Nat) :
    Bus.Meets (·.db = db) (postMessage auth pid input) (fun r pg => ∃ target m files rows, T target ∧
      r.deliveredTo = target.deliveredTo ∧ r.message.id = m.id ∧ IsPost auth input target db m files rows ∧
      pg.db = db.posted m files rows) E := by
  unfold postMessage
  refine .guard (fun _ => hinvalid _) fun _ => .guard (fun _ => hinvalid _) fun _ => .guard (fun _ => hinvalid _) fun _ => ?_
  refine .bind hresolve fun target => .lift fun htarget => ?_
  refine .bind (Q := fun _ pg => pg.db = db) ?_ fun _ => ?_
  · cases input.replyTo with
    | none => exact .pure fun _ h => h
    | some r =>
      refine .bind (Q := fun _ pg => pg.db = db) (.select fun _ h => h) fun found => ?_
      exact .ite (fun _ => .throw fun _ _ => hreply r) fun _ => .pure fun _ h => h
  refine .bind (Q := fun _ pg => pg.db = db) (.check (fun _ _ h _ => h) fun e he => ?_) fun _ => ?_
  · obtain ⟨msg, rfl⟩ := checkMetadata_error he
    exact hinvalid msg
  refine .bind (Q := fun info pg => ∃ m files rows, info.id = m.id ∧ IsPost auth input target db m files rows ∧
    pg.db = db.posted m files rows) (.transaction fun now => ?_) fun info => .pure fun pg h => ?_
  · have h := @postBody_meets _ db E hdb hinvalid auth target input pid now
    exact ⟨fun pg hP => h.answers pg hP.1, fun pg hP => h.fails pg hP.1⟩
  · obtain ⟨m, files, rows, hid, hpost, htables⟩ := h
    exact ⟨target, m, files, rows, htarget, rfl, hid, hpost, htables⟩

/-- A post brings one message, and says where it went. -/
theorem postMessage_meets {T : Target → Prop} {input : PostInput} (hdb : E .db) (hinvalid : ∀ msg, E (.invalid msg))
    (hreply : ∀ r : Int, E (.notFound s!"message {r}"))
    (hresolve : Bus.Meets (·.db = db) (resolveTarget auth input.channel input.«to») (fun target pg => T target ∧ pg.db = db) E)
    (pid : Nat) :
    Bus.Meets (·.db = db) (postMessage auth pid input) (fun r pg => ∃ target, T target ∧ r.deliveredTo = target.deliveredTo ∧
      ∃ m, pg.db.messages = db.messages ++ [m] ∧ m.BoundFor target) E := by
  have h := postMessage_posts hdb hinvalid hreply hresolve pid
  refine ⟨fun pg hP r hr => ?_, h.fails⟩
  obtain ⟨target, m, files, rows, htarget, hdelivered, -, ⟨⟨id, now, rfl⟩, -⟩, htables⟩ := h.answers pg hP r hr
  exact ⟨target, htarget, hdelivered, _, congrArg Db.messages htables, rfl, rfl, rfl⟩

end

/-! ### Calls -/

/-- A call that succeeds is one of an agent. -/
theorem Pg.authentic_of_call [Platform] {pg : Pg} {auth : AuthCtx} {pid : Nat} {c : Call} {r : Reply}
    (h : (pg.call auth pid c).1 = .ok r) : auth.authentic pg.db = true := by
  by_contra hno
  rw [Pg.call, if_neg hno] at h
  cases h

theorem Pg.call_isOk [Platform] {pg : Pg} {auth : AuthCtx} {pid : Nat} {c : Call}
    (h : (pg.call auth pid c).1.isOk = true) : auth.authentic pg.db = true ∧ ∃ r, (pg.call auth pid c).1 = .ok r := by
  cases hr : (pg.call auth pid c).1 with
  | ok r => exact ⟨authentic_of_call hr, r, rfl⟩
  | error e =>
    rw [hr] at h
    cases h

/-- A call that meets its triple. -/
theorem Pg.call_meets [Platform] {pg : Pg} {auth : AuthCtx} {α : Type} {x : Bus α} {g : α → Reply} {c : Call} (pid : Nat) {P : Pg → Prop} {Q : α → Pg → Prop}
    {E : BusError → Prop} (hauth : auth.authentic pg.db = true) (hrun : c.run auth pid = g <$> x) (hx : Bus.Meets P x Q E)
    (hP : P pg) : (∀ r, (pg.call auth pid c).1 = .ok r → ∃ a, r = g a ∧ Q a (pg.next (.call auth pid c))) ∧
      ∀ e, (pg.call auth pid c).1 = .error e → E e := by
  have hanswers := hx.answers pg hP
  have hfails := hx.fails pg hP
  simp only [Pg.next, Pg.call, if_pos hauth, hrun, Bus.exec_map]
  cases h : (x.exec pg).1 with
  | ok a =>
    refine ⟨?_, ?_⟩
    · intro r hr
      exact ⟨a, (Except.ok.inj hr).symm, hanswers a h⟩
    · intro e he
      cases he
  | error e =>
    refine ⟨?_, ?_⟩
    · intro r hr
      cases hr
    · intro e' he'
      exact hfails e' (congrArg Except.error (Except.error.inj he') ▸ h)

end CrewSync
