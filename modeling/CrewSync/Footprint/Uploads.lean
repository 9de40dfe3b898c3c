import CrewSync.Footprint.Messaging

/-! What the transaction of a post or an upload has written so far: messages and files of its team, and what
    the triggers add to them. -/

namespace CrewSync

/-- A message, a file, or a row of the outbox, by the agent for its team. -/
def Write.Upload (agent team : Uuid) : Write → Prop
  | .insertMessage m => m.teamId = team ∧ m.senderAgentId = agent
  | .insertAttachment a => a.teamId = team
  | .insertDelivery _ | .notify _ => True
  | _ => False

def Write.message? : Write → Option Message
  | .insertMessage m => some m
  | _ => none

def Write.file? : Write → Option Attachment
  | .insertAttachment a => some a
  | _ => none

/-- The messages among the writes. -/
def posted (ws : List Write) : List Message := ws.filterMap Write.message?

/-- The files among the writes. -/
def files (ws : List Write) : List Attachment := ws.filterMap Write.file?

/-- The bytes of the files. -/
def staged (ws : List Write) : Int := ((files ws).map (·.sizeBytes)).sum

section
variable {agent team : Uuid} {ws ws' : List Write} {db : Db}

theorem mem_posted {m : Message} : m ∈ posted ws ↔ .insertMessage m ∈ ws := by
  simp only [posted, List.mem_filterMap]
  constructor
  · rintro ⟨w, hw, h⟩
    cases w <;> simp_all [Write.message?]
  · exact fun h => ⟨_, h, rfl⟩

theorem mem_files {a : Attachment} : a ∈ files ws ↔ .insertAttachment a ∈ ws := by
  simp only [files, List.mem_filterMap]
  constructor
  · rintro ⟨w, hw, h⟩
    cases w <;> simp_all [Write.file?]
  · exact fun h => ⟨_, h, rfl⟩

theorem posted_cons (w : Write) (ws : List Write) : posted (w :: ws) = w.message?.toList ++ posted ws := by
  cases w <;> rfl

theorem files_cons (w : Write) (ws : List Write) : files (w :: ws) = w.file?.toList ++ files ws := by
  cases w <;> rfl

@[simp] theorem posted_append : posted (ws ++ ws') = posted ws ++ posted ws' := List.filterMap_append ..

@[simp] theorem files_append : files (ws ++ ws') = files ws ++ files ws' := List.filterMap_append ..

@[simp] theorem staged_append : staged (ws ++ ws') = staged ws + staged ws' := by
  simp only [staged, files_append, List.map_append, List.sum_append]

@[simp] theorem staged_nil : staged [] = 0 := rfl

@[simp] theorem staged_attachment (a : Attachment) : staged [.insertAttachment a] = a.sizeBytes := by
  simp [staged, files, Write.file?]

theorem Write.Outbox.upload {w : Write} (h : w.Outbox) : w.Upload agent team := by
  cases w <;> trivial

theorem files_of_outbox (h : ∀ w ∈ ws, w.Outbox) : files ws = [] := by
  refine List.filterMap_eq_nil_iff.2 fun w hw => ?_
  have := h w hw
  cases w <;> first | rfl | exact this.elim

theorem posted_of_outbox (h : ∀ w ∈ ws, w.Outbox) : posted ws = [] := by
  refine List.filterMap_eq_nil_iff.2 fun w hw => ?_
  have := h w hw
  cases w <;> first | rfl | exact this.elim

/-- What the writes make of the tables. -/
theorem Db.write_upload (h : ∀ w ∈ ws, w.Upload agent team) (db : Db) :
    ∃ ds ns, db.write ws = { db with
      messages := db.messages ++ posted ws, attachments := db.attachments ++ files ws
      deliveries := db.deliveries ++ ds, notified := db.notified ++ ns } := by
  induction ws generalizing db with
  | nil => exact ⟨[], [], by simp [posted, files]⟩
  | cons w ws ih =>
    obtain ⟨ds, ns, e⟩ := ih (fun v hv => h v (List.mem_cons_of_mem w hv)) (w.apply db)
    have hw := h w List.mem_cons_self
    rw [Db.write_cons, e]
    cases w with
    | insertMessage m => exact ⟨ds, ns, by simp [Write.apply, posted_cons, files_cons, Write.message?, Write.file?]⟩
    | insertAttachment a => exact ⟨ds, ns, by simp [Write.apply, posted_cons, files_cons, Write.message?, Write.file?]⟩
    | insertDelivery d => exact ⟨d :: ds, ns, by simp [Write.apply, posted_cons, files_cons, Write.message?, Write.file?]⟩
    | notify n => exact ⟨ds, n :: ns, by simp [Write.apply, posted_cons, files_cons, Write.message?, Write.file?]⟩
    | _ => exact hw.elim

theorem Db.attachmentBytes_append {as : List Attachment} (has : ∀ a ∈ as, a.teamId = team) (t : Uuid) :
    Db.attachmentBytes { db with attachments := db.attachments ++ as } t =
      db.attachmentBytes t + if t = team then (as.map (·.sizeBytes)).sum else 0 := by
  have hfilter : (as.filter (·.teamId == t)) = if t = team then as else [] := by
    split
    · next h => exact List.filter_eq_self.2 fun a ha => by simp [has a ha, h]
    · next h => exact List.filter_eq_nil_iff.2 fun a ha heq => h ((beq_iff_eq.1 heq).symm.trans (has a ha))
  simp only [Db.attachmentBytes, List.filter_append, List.map_append, List.sum_append, hfilter]
  split <;> simp

/-- The bytes of a team after the writes. -/
theorem Db.attachmentBytes_write (h : ∀ w ∈ ws, w.Upload agent team) (db : Db) (t : Uuid) :
    (db.write ws).attachmentBytes t = db.attachmentBytes t + if t = team then staged ws else 0 := by
  obtain ⟨ds, ns, e⟩ := Db.write_upload h db
  have hteam : ∀ a ∈ files ws, a.teamId = team := fun a ha => h _ (mem_files.1 ha)
  rw [e]
  exact Db.attachmentBytes_append hteam t

end

/-! ### Statements -/

theorem quotaOf_ok {team : Uuid} {pg : Pg} {limit : Option Int} {seqs : Seqs} {ws : List Write}
    (h : quotaOf team pg = .ok (limit, seqs, ws)) :
    seqs = pg.seqs ∧ ws = [] ∧ ∃ t, pg.db.findTeam team = some t ∧ limit = t.attachmentBytesLimit := by
  simp only [quotaOf] at h
  split at h
  · next t ht =>
    simp only [Except.ok.injEq, Prod.mk.injEq] at h
    obtain ⟨rfl, rfl, rfl⟩ := h
    exact ⟨rfl, rfl, t, ht, rfl⟩
  · exact absurd h (by simp)

/-- The writes of the `INSERT` of a message. -/
theorem insertMessage_upload [Platform] {auth : AuthCtx} {target : Target} {body : String} {replyTo : Option Int}
    {metadata : Json} {announce : Bool} {pg : Pg} {id : Int} {seqs : Seqs} {ws : List Write}
    (h : insertMessage auth target body replyTo metadata announce pg = .ok (id, seqs, ws)) :
    (∀ w ∈ ws, w.Upload auth.agentId auth.teamId) ∧ files ws = [] ∧
      posted ws = [newMessage auth id pg.now target body replyTo metadata announce] := by
  obtain ⟨m, fired, -, rfl, -, hfired, rfl⟩ := insertMessage_ok h
  have hout : ∀ w ∈ fired, w.Outbox := by
    rw [show fired = _ from congrArg Prod.snd hfired]
    exact enqueueMessage_outbox
  have hfiles := files_of_outbox hout
  have hposted := posted_of_outbox hout
  refine ⟨fun w hw => ?_, ?_, ?_⟩
  · simp only [List.cons_append, List.mem_cons, List.mem_append, List.mem_nil_iff, or_false] at hw
    rcases hw with rfl | hw | rfl
    · exact ⟨rfl, rfl⟩
    · exact (hout w hw).upload
    · trivial
  · rw [List.cons_append, ← List.singleton_append, files_append, files_append, hfiles]
    rfl
  · rw [List.cons_append, ← List.singleton_append, posted_append, posted_append, hposted]
    rfl

end CrewSync
