import CrewSync.Footprint.MessageThreads

/-! Uploads as threads: posts with files, and calls that attach a file to a task or to a message. What they count and sum
    before they add files, the locks that they hold meanwhile, and what a statement of each adds. -/

namespace CrewSync
open Threads
open Bus (Reads)

/-- What a file is attached to. -/
inductive Carrier where
  | message (id : Int)
  | task (id : Uuid)
  deriving DecidableEq

def Attachment.isOn (a : Attachment) : Carrier → Bool
  | .message id => a.messageId == some id
  | .task id => a.taskId == some id

/-- The reference of a file to what it is attached to. -/
def Carrier.messageId : Carrier → Option Int
  | .message id => some id
  | .task _ => none

def Carrier.taskId : Carrier → Option Uuid
  | .message _ => none
  | .task id => some id

def Db.filesOn (db : Db) (c : Carrier) : Nat := (db.attachments.filter (·.isOn c)).length

/-- The quota of the team, if it has one. -/
def Db.quota (db : Db) (team : Uuid) : Option Int := (db.findTeam team).bind (·.attachmentBytesLimit)

/-- The bytes of the files. -/
def bytesOf (as : List Attachment) : Int := (as.map (·.sizeBytes)).sum

/-- How far an upload has come. -/
structure UploadPhase where
  /-- What the call attaches to, and how many files it has counted there. -/
  counted : Option (Carrier × Nat)
  /-- The message that its transaction has inserted. -/
  drawn : Option Int
  /-- The files that its transaction has inserted. -/
  pending : List Attachment
  /-- Its transaction has the row of the team for itself. -/
  holds : Bool
  /-- The bytes that it has found in use, and those for which it has found room. -/
  room : Option (Int × Int)

/-- The call has nothing in hand. -/
def UploadPhase.idle : UploadPhase := ⟨none, none, [], false, none⟩

/-- What an upload counts on, in runs from the tables `base`. -/
structure UploadPhase.Knows (base : Pg) (pid : Nat) (team : Uuid) (pg : Pg) (g : UploadPhase) : Prop where
  drawn : ∀ id ∈ g.drawn, id ≤ pg.seqs.messages ∧ id ∉ pg.db.messageIds
  holds : g.holds = true → ⟨pid, team, .forUpdate⟩ ∈ pg.teamLocks
  room : ∀ x ∈ g.room, ∀ limit ∈ base.db.quota team,
    x.1 + x.2 ≤ limit ∧ (g.holds = true → pg.db.attachmentBytes team = x.1)

/-- The files that a statement adds. -/
structure UploadPhase.Adds (g : UploadPhase) (pid : Nat) (team : Uuid) (most : Nat) (l : Stmt) (pg pg' : Pg)
    (as : List Attachment) : Prop where
  teams : ∀ a ∈ as, a.teamId = team
  /-- They are the files of a new message, or one more file where the call has counted those that were there. -/
  carrier : ∃ c, (∀ a ∈ as, ∀ c', a.isOn c' = true ↔ c' = c) ∧
    ((∃ id, g.drawn = some id ∧ c = .message id ∧ as.length ≤ most) ∨
      (∃ n, g.counted = some (c, n)) ∧ as.length = 1)
  messages : ∀ a ∈ as, ∀ id ∈ a.messageId, id ∈ pg'.db.messageIds
  room : ∃ used, g.room = some (used, bytesOf as)
  /-- Nobody else has the row of the team for itself. -/
  alone : g.holds = true ∨ l = .insertAttachment team ∧ pg.canLock pid team .keyShare = true

/-- A statement of an upload; a post has `most` files. -/
structure UploadStep (base : Pg) (pid : Nat) (team : Uuid) (most : Nat) (g : UploadPhase) (l : Stmt) (pg : Pg)
    (g' : UploadPhase) (pg' : Pg) : Prop where
  teams : pg'.db.teams = pg.db.teams
  others : ∀ x : TeamLock, x.pid ≠ pid → (x ∈ pg'.teamLocks ↔ x ∈ pg.teamLocks)
  locks : ∀ x ∈ pg'.teamLocks, x ∈ pg.teamLocks ∨ x.pid = pid ∧ x.team = team ∧ pg.canLock pid team x.mode = true
  seqs : pg.seqs.messages ≤ pg'.seqs.messages
  drawn : ∀ id ∈ g'.drawn, g.drawn = some id ∨ pg.seqs.messages < id
  kept : pg.db.messageIds ⊆ pg'.db.messageIds
  ids : ∀ id ∈ pg'.db.messageIds, id ∈ pg.db.messageIds ∨ g.drawn = some id
  counts : ∀ c n, g'.counted = some (c, n) →
    g.counted = some (c, n) ∨ l = .select .attachments ∧ n = pg.db.filesOn c ∧ n < maxAttachmentsPerTarget
  sums : ∀ used bytes, g'.room = some (used, bytes) → g'.holds = false → base.db.quota team ≠ none →
    g.room = some (used, bytes) ∧ g.holds = false ∨ l = .select .attachments ∧ used = pg.db.attachmentBytes team
  adds : ∃ as, pg'.db.attachments = pg.db.attachments ++ as ∧ (as ≠ [] → g.Adds pid team most l pg pg' as)
  knows : g'.Knows base pid team pg'

/-- The guard of a statement: the lock that it takes. -/
def uploadReady (pid : Nat) (team : Uuid) : Stmt → Pg → Bool
  | .tx (.insert .messages) => fun pg => pg.canLock pid team .keyShare
  | .tx (.insertAttachment _) | .insertAttachment _ => fun pg => pg.canLock pid team .keyShare
  | .tx (.lockTeam _) | .lockTeam _ => fun pg => pg.canLock pid team .forUpdate
  | _ => fun _ => true

theorem uploadReady_of_select {pid : Nat} {team : Uuid} {l : Stmt} (hl : l.isSelect = true) :
    uploadReady pid team l = fun _ => true := by
  cases l with
  | select t => rfl
  | tx s =>
    cases s with
    | select | tx => rfl
    | _ => cases hl
  | _ => cases hl

/-- The protocol of an upload, in runs from the tables `base`. -/
def uploadProtocol (base : Pg) (pid : Nat) (team : Uuid) (most : Nat) : Protocol Stmt Pg UploadPhase where
  sure g pg := pg.db.teams = base.db.teams ∧ (∀ id ∈ pg.db.messageIds, id ≤ pg.seqs.messages) ∧ g.Knows base pid team pg
  ready := uploadReady pid team
  step := UploadStep base pid team most

section
variable {base pg pg' : Pg} {pid most : Nat} {team : Uuid} {g g' : UploadPhase} {l : Stmt}

theorem UploadPhase.idle_knows : UploadPhase.idle.Knows base pid team pg where
  drawn _ h := by cases h
  holds h := by cases h
  room _ h := by cases h

/-- A statement that changes neither files nor messages, and takes no locks. -/
theorem UploadStep.still (hdb : pg'.db = pg.db) (hseqs : pg'.seqs.messages = pg.seqs.messages)
    (hothers : ∀ x : TeamLock, x.pid ≠ pid → (x ∈ pg'.teamLocks ↔ x ∈ pg.teamLocks))
    (hlocks : ∀ x ∈ pg'.teamLocks, x ∈ pg.teamLocks ∨ x.pid = pid ∧ x.team = team ∧ pg.canLock pid team x.mode = true)
    (hdrawn : ∀ id ∈ g'.drawn, g.drawn = some id)
    (hcounts : ∀ c n, g'.counted = some (c, n) →
      g.counted = some (c, n) ∨ l = .select .attachments ∧ n = pg.db.filesOn c ∧ n < maxAttachmentsPerTarget)
    (hsums : ∀ used bytes, g'.room = some (used, bytes) → g'.holds = false → base.db.quota team ≠ none →
      g.room = some (used, bytes) ∧ g.holds = false ∨ l = .select .attachments ∧ used = pg.db.attachmentBytes team)
    (hknows : g'.Knows base pid team pg') : UploadStep base pid team most g l pg g' pg' where
  teams := by rw [hdb]
  others := hothers
  locks := hlocks
  seqs := hseqs.ge
  drawn id hid := .inl (hdrawn id hid)
  kept := by rw [hdb]; exact List.Subset.refl _
  ids id hid := .inl (by rwa [hdb] at hid)
  counts := hcounts
  sums := hsums
  adds := ⟨[], by rw [hdb, List.append_nil], fun h => absurd rfl h⟩
  knows := hknows

theorem UploadStep.refl (h : g.Knows base pid team pg) : UploadStep base pid team most g l pg g pg :=
  .still rfl rfl (fun _ _ => .rfl) (fun _ h => .inl h) (fun _ h => h) (fun _ _ h => .inl h)
    (fun _ _ h h' _ => .inl ⟨h, h'⟩) h

/-- A transaction that ends gives its locks back. -/
theorem UploadStep.unlock {c : Conn} (hc : c.pid = pid) : UploadStep base pid team most g l pg .idle (c.unlock pg) :=
  .still rfl rfl (fun x hx => by simp [Conn.unlock, hc, hx]) (fun x hx => .inl (List.mem_filter.1 hx).1)
    (fun _ h => by cases h) (fun _ _ h => by cases h) (fun _ _ h => by cases h) UploadPhase.idle_knows

end

/-! ### Inside a transaction -/

/-- The open transaction of an upload in the phase. -/
def InUpload (pid : Nat) (auth : AuthCtx) (now : Time) (c : Conn) (g : UploadPhase) : Prop :=
  ∃ ws, (∀ w ∈ ws, w.Upload auth.agentId auth.teamId) ∧ (posted ws).map (·.id) = g.drawn.toList ∧
    files ws = g.pending ∧ c = ⟨pid, some ⟨now, ws⟩⟩

section
variable {base : Pg} {pid most : Nat} {auth : AuthCtx} {now : Time} {c : Conn} {g : UploadPhase}

/-- What the transaction sees of the team. -/
theorem view_teams {pg : Pg} {ws : List Write} (hws : ∀ w ∈ ws, w.Upload auth.agentId auth.teamId) :
    (Conn.view ⟨pid, some ⟨now, ws⟩⟩ pg).db.teams = pg.db.teams ∧
      (Conn.view ⟨pid, some ⟨now, ws⟩⟩ pg).db.attachmentBytes auth.teamId =
        pg.db.attachmentBytes auth.teamId + bytesOf (files ws) := by
  obtain ⟨ds, ns, e⟩ := Db.write_upload hws pg.db
  refine ⟨by simp only [Conn.view, e], ?_⟩
  simp only [Conn.view, Db.attachmentBytes_write hws, if_true]
  rfl

/-- The row of the team is locked, and the bytes are summed. -/
theorem checkAttachmentQuota_uploads (hc : InUpload pid auth now c g) (bytes : Int) :
    Bus.Follows (uploadProtocol base pid auth.teamId most) (fun _ => True)
      (fun c g' => ∃ used, g' = { g with holds := true, room := some (used, bytesOf g.pending + bytes) } ∧
        InUpload pid auth now c g') (checkAttachmentQuota c auth.teamId bytes) g := by
  obtain ⟨ws, hws, hdrawn, hfiles, rfl⟩ := hc
  have hin : ∀ room, InUpload pid auth now ⟨pid, some ⟨now, ws⟩⟩ { g with holds := true, room } := fun _ =>
    ⟨ws, hws, hdrawn, hfiles, rfl⟩
  refine Bus.Follows.bind (Q := fun r g' => r.2 = ⟨pid, some ⟨now, ws⟩⟩ ∧ r.1 = base.db.quota auth.teamId ∧
    g' = { g with holds := true, room := if r.1 = none then some (0, bytesOf g.pending + bytes) else none })
    (.conn_wait rfl fun pg hs hfree => ?_) fun r g' h => ?_
  · obtain ⟨hteams, hbelow, hknows⟩ := hs
    cases hsql : quotaOf auth.teamId (Conn.view ⟨pid, some ⟨now, ws⟩⟩ pg) with
    | error e =>
      simp only [Conn.effect, Conn.answer, hsql]
      exact ⟨g, .refl hknows, trivial⟩
    | ok r =>
      obtain ⟨limit, seqs, ws'⟩ := r
      obtain ⟨rfl, rfl, t, ht, rfl⟩ := quotaOf_ok hsql
      have hquota : t.attachmentBytesLimit = base.db.quota auth.teamId := by
        rw [Db.findTeam, (view_teams hws).1, hteams] at ht
        rw [Db.quota, Db.findTeam, ht, Option.bind_some]
      simp only [Conn.effect, Conn.answer, hsql]
      refine ⟨{ g with
          holds := true, room := if t.attachmentBytesLimit = none then some (0, bytesOf g.pending + bytes) else none },
        .still rfl rfl (fun x hx => ?_) (fun x hx => ?_) (fun _ h => h) (fun _ _ h => .inl h)
          (fun _ _ _ h => by cases h) ⟨hknows.drawn, fun _ => ?_, fun x hx limit hlimit => ?_⟩, by simp, hquota, rfl⟩
      · simp only [Option.map_some, Option.toList_some, List.mem_append, List.mem_singleton, or_iff_left_iff_imp]
        rintro rfl
        exact absurd rfl hx
      · rcases List.mem_append.1 hx with hx | hx
        · exact .inl hx
        · obtain rfl := List.mem_singleton.1 hx
          exact .inr ⟨rfl, rfl, hfree⟩
      · exact List.mem_append_right _ (List.mem_singleton_self _)
      · rw [← hquota] at hlimit
        rw [if_neg (by rw [hlimit]; simp)] at hx
        cases hx
  · obtain ⟨limit, c⟩ := r
    obtain ⟨hconn, hlimit, rfl⟩ := h
    obtain rfl : c = ⟨pid, some ⟨now, ws⟩⟩ := hconn
    cases limit with
    | none => exact .pure ⟨0, by simp, hin _⟩
    | some limit =>
      have hlimit : some limit = base.db.quota auth.teamId := hlimit
      refine Bus.Follows.bind (Q := fun used g' => used + bytes ≤ limit →
        ∃ used, g' = { g with holds := true, room := some (used, bytesOf g.pending + bytes) })
        (.conn_select rfl fun pg hs => ?_) fun used g' h => ?_
      · obtain ⟨hteams, hbelow, hknows⟩ := hs
        rw [(view_teams hws).2, hfiles]
        by_cases hfits : pg.db.attachmentBytes auth.teamId + bytesOf g.pending + bytes ≤ limit
        · refine ⟨{ g with holds := true, room := some (pg.db.attachmentBytes auth.teamId, bytesOf g.pending + bytes) },
            .still rfl rfl (fun _ _ => .rfl) (fun _ h => .inl h) (fun _ h => h) (fun _ _ h => .inl h)
              (fun _ _ _ h => by cases h) ⟨hknows.drawn, hknows.holds, fun x hx limit' hlimit' => ?_⟩, fun _ => ⟨_, rfl⟩⟩
          obtain rfl := Option.some.inj hx
          rw [← hlimit] at hlimit'
          obtain rfl := Option.some.inj hlimit'
          exact ⟨by simp only; omega, fun _ => rfl⟩
        · exact ⟨_, .refl hknows, fun h => absurd h hfits⟩
      · refine .ite (fun _ => .throw_bind trivial) fun hfits => .pure ?_
        obtain ⟨used', rfl⟩ := h (by omega)
        exact ⟨used', rfl, hin _⟩

theorem newAttachment_isOn {team uploader : Uuid} {id : Int} {now : Time} {c c' : Carrier} {att : NewAttachment} :
    (newAttachment team id now c.messageId c.taskId uploader att).isOn c' = true ↔ c' = c := by
  simp only [newAttachment, Attachment.isOn]
  cases c <;> cases c' <;> simp [Carrier.messageId, Carrier.taskId]
  · exact eq_comm
  · exact eq_comm

/-- A file is inserted. -/
theorem insertAttachment_uploads (hc : InUpload pid auth now c g) (carrier : Carrier) (att : NewAttachment) :
    Bus.Follows (uploadProtocol base pid auth.teamId most) (fun _ => True)
      (fun r g' => ∃ a : Attachment, (∀ c', a.isOn c' = true ↔ c' = carrier) ∧ a.sizeBytes = att.sizeBytes ∧
        g' = { g with pending := g.pending ++ [a] } ∧ InUpload pid auth now r.2 g')
      (c.execute (.insertAttachment auth.teamId) (some (auth.teamId, .keyShare))
        (insertAttachment auth.teamId carrier.messageId carrier.taskId auth.agentId att)) g := by
  obtain ⟨ws, hws, hdrawn, hfiles, rfl⟩ := hc
  refine .conn_wait rfl fun pg hs hfree => ?_
  cases hsql : insertAttachment auth.teamId carrier.messageId carrier.taskId auth.agentId att
      (Conn.view ⟨pid, some ⟨now, ws⟩⟩ pg) with
  | error e =>
    simp only [Conn.effect, Conn.answer, hsql]
    exact ⟨g, .refl hs.2.2, trivial⟩
  | ok r =>
    obtain ⟨id, seqs, ws'⟩ := r
    obtain ⟨a, -, ha, -, rfl, rfl⟩ := insertAttachment_ok hsql
    simp only [Conn.effect, Conn.answer, hsql]
    refine ⟨{ g with pending := g.pending ++ [a] }, .still rfl rfl (fun x hx => ?_) (fun x hx => ?_) (fun _ h => h)
      (fun _ _ h => .inl h) (fun _ _ h h' _ => .inl ⟨h, h'⟩) ⟨hs.2.2.drawn, fun h => ?_, hs.2.2.room⟩, a, fun c' => ?_, ?_,
      rfl, ws ++ [.insertAttachment a], fun w hw => ?_, ?_, ?_, rfl⟩
    · simp only [Option.map_some, Option.toList_some, List.mem_append, List.mem_singleton, or_iff_left_iff_imp]
      rintro rfl
      exact absurd rfl hx
    · rcases List.mem_append.1 hx with hx | hx
      · exact .inl hx
      · obtain rfl := List.mem_singleton.1 hx
        exact .inr ⟨rfl, rfl, hfree⟩
    · exact List.mem_append_left _ (hs.2.2.holds h)
    · rw [ha]
      exact newAttachment_isOn
    · rw [ha]
      rfl
    · rcases List.mem_append.1 hw with hw | hw
      · exact hws w hw
      · rw [List.mem_singleton.1 hw, ha]
        rfl
    · rw [posted_append, List.map_append, hdrawn]
      exact List.append_nil _
    · rw [files_append, hfiles]
      rfl

/-- What a transaction has inserted before it commits: files of its message, or of the task that it has counted; it has
    found room for them. -/
structure UploadPhase.Staged (most : Nat) (g : UploadPhase) : Prop where
  carrier : ∃ c, (∀ a ∈ g.pending, ∀ c', a.isOn c' = true ↔ c' = c) ∧
    ((∃ id, g.drawn = some id ∧ c = .message id ∧ g.pending.length ≤ most) ∨
      ∃ task n, g.counted = some (c, n) ∧ c = .task task ∧ g.pending.length = 1)
  holds : g.holds = true
  room : ∃ used, g.room = some (used, bytesOf g.pending)

theorem UploadStep.commit {pg : Pg} (hc : InUpload pid auth now c g) (hstaged : g.pending ≠ [] → g.Staged most) :
    UploadStep base pid auth.teamId most g .commit pg .idle (c.unlock { pg with db := pg.db.write c.pending }) := by
  obtain ⟨ws, hws, hdrawn, hfiles, rfl⟩ := hc
  obtain ⟨ds, ns, e⟩ := Db.write_upload hws pg.db
  have hids : (pg.db.write ws).messageIds = pg.db.messageIds ++ g.drawn.toList := by
    rw [Db.messageIds, e, List.map_append, hdrawn]
    rfl
  refine ⟨?_, fun x hx => by simp [Conn.unlock, hx], fun x hx => .inl (List.mem_filter.1 hx).1, le_rfl,
    fun _ h => (by cases h), ?_, fun id hid => ?_, fun _ _ h => (by cases h), fun _ _ h => (by cases h), ⟨g.pending, ?_, fun hne => ?_⟩,
    UploadPhase.idle_knows⟩
  · simp only [Conn.unlock, Conn.pending, e]
  · exact fun id hid => hids ▸ List.mem_append_left _ hid
  · rcases List.mem_append.1 (hids ▸ hid : id ∈ pg.db.messageIds ++ g.drawn.toList) with hid | hid
    · exact .inl hid
    · exact .inr (Option.mem_toList.1 hid)
  · simp only [Conn.unlock, Conn.pending, e, hfiles]
  · obtain ⟨⟨c, hon, hcarrier⟩, hholds, hroom⟩ := hstaged hne
    refine ⟨fun a ha => ?_, ⟨c, hon, ?_⟩, fun a ha id hid => ?_, hroom, .inl hholds⟩
    · rw [← hfiles] at ha
      exact hws _ (mem_files.1 ha)
    · rcases hcarrier with hnew | ⟨task, n, hcounted, -, hone⟩
      · exact .inl hnew
      · exact .inr ⟨⟨n, hcounted⟩, hone⟩
    · have hmessage := (hon a ha (.message id)).1 (by simp [Attachment.isOn, Option.mem_def.1 hid])
      subst hmessage
      rcases hcarrier with ⟨id', hid', heq, -⟩ | ⟨task, n, -, heq, -⟩
      · cases heq
        exact hids ▸ List.mem_append_right _ (by simp [hid'])
      · cases heq

/-- The quota check and the insert: the transaction has found room for all that it has inserted. -/
theorem insertChecked_uploads (hc : InUpload pid auth now c g) (carrier : Carrier) (att : NewAttachment) :
    Bus.Follows (uploadProtocol base pid auth.teamId most) (fun _ => True)
      (fun r g' => ∃ a used, (∀ c', a.isOn c' = true ↔ c' = carrier) ∧ InUpload pid auth now r.2 g' ∧
        g' = { g with holds := true, room := some (used, bytesOf g'.pending), pending := g.pending ++ [a] })
      (do
        let c ← checkAttachmentQuota c auth.teamId att.sizeBytes
        c.execute (.insertAttachment auth.teamId) (some (auth.teamId, .keyShare))
          (insertAttachment auth.teamId carrier.messageId carrier.taskId auth.agentId att)) g := by
  refine (checkAttachmentQuota_uploads hc _).bind fun c g' h => ?_
  obtain ⟨used, rfl, hc⟩ := h
  refine (insertAttachment_uploads hc carrier att).imp (fun _ h => h) fun r g' h => ?_
  obtain ⟨a, hon, hsize, rfl, hc⟩ := h
  refine ⟨a, used, hon, hc, ?_⟩
  simp [bytesOf, hsize]

/-- The files of a message. -/
theorem insertAll_uploads (atts : List NewAttachment) {id : Int} (hc : InUpload pid auth now c g)
    (hdrawn : g.drawn = some id) (hon : ∀ a ∈ g.pending, ∀ c', a.isOn c' = true ↔ c' = .message id)
    (hlength : g.pending.length + atts.length ≤ most) (hstaged : g.pending ≠ [] → g.Staged most) :
    Bus.Follows (uploadProtocol base pid auth.teamId most) (fun _ => True)
      (fun c g' => InUpload pid auth now c g' ∧ (g'.pending ≠ [] → g'.Staged most))
      (insertAllForMessage c auth.teamId id auth.agentId atts) g := by
  induction atts generalizing c g with
  | nil => exact .pure ⟨hc, hstaged⟩
  | cons att atts ih =>
    have hfile : Bus.Follows (uploadProtocol base pid auth.teamId most) (fun _ => True)
        (fun r g' => ∃ a used, (∀ c', a.isOn c' = true ↔ c' = .message id) ∧ InUpload pid auth now r.2 g' ∧
          g' = { g with holds := true, room := some (used, bytesOf g'.pending), pending := g.pending ++ [a] })
        (insertForMessage c auth.teamId id auth.agentId att) g := by
      unfold insertForMessage
      rw [← bind_assoc]
      exact (insertChecked_uploads hc (.message id) att).bind fun r g' h => .pure h
    refine hfile.bind fun r g' h => ?_
    obtain ⟨a, used, ha, hc, hg'⟩ := h
    have hall : ∀ x ∈ g'.pending, ∀ c', x.isOn c' = true ↔ c' = .message id := by
      rw [hg']
      intro x hx
      rcases List.mem_append.1 hx with hx | hx
      · exact hon x hx
      · rw [List.mem_singleton.1 hx]
        exact ha
    have hdrawn' : g'.drawn = some id := by rw [hg', hdrawn]
    have hlength' : g'.pending.length = g.pending.length + 1 := by rw [hg']; simp
    rw [List.length_cons] at hlength
    refine ih hc hdrawn' hall (by omega) fun _ => ⟨⟨.message id, hall, .inl ⟨id, hdrawn', rfl, by omega⟩⟩, ?_, used, ?_⟩
    · exact congrArg UploadPhase.holds hg'
    · exact congrArg UploadPhase.room hg'

variable [Platform]

theorem postBody_uploads {target : Target} {body : String} {input : PostInput} {metadata : Json}
    (hlength : input.attachments.length ≤ most) (hc : InUpload pid auth now c .idle) :
    Bus.Follows (uploadProtocol base pid auth.teamId most) (fun _ => True)
      (fun r g => InUpload pid auth now r.2 g ∧ (g.pending ≠ [] → g.Staged most)) (postBody auth target body input metadata c)
      .idle := by
  obtain ⟨ws, hws, hposted, hpending, rfl⟩ := hc
  refine Bus.Follows.bind (Q := fun r g => g = { UploadPhase.idle with drawn := some r.1 } ∧ InUpload pid auth now r.2 g)
    (.conn_wait rfl fun pg hs hfree => ?_) fun r g h => ?_
  · cases hsql : insertMessage auth target body input.replyTo metadata input.announce
        (Conn.view ⟨pid, some ⟨now, ws⟩⟩ pg) with
    | error e =>
      simp only [Conn.effect, Conn.answer, hsql]
      exact ⟨.idle, .refl hs.2.2, trivial⟩
    | ok r =>
      obtain ⟨id, seqs, ws'⟩ := r
      obtain ⟨hws', hfiles', hposted'⟩ := insertMessage_upload hsql
      obtain ⟨m, fired, hid, -, -, hfired, -⟩ := insertMessage_ok hsql
      have hseqs : seqs.messages = pg.seqs.messages + 1 := by
        rw [show seqs = _ from congrArg Prod.fst hfired, enqueueMessage_seqs, hid]
        rfl
      have hnew : id = pg.seqs.messages + 1 := hid
      simp only [Conn.effect, Conn.answer, hsql]
      refine ⟨{ UploadPhase.idle with drawn := some id }, ⟨rfl, fun x hx => ?_, fun x hx => ?_, ?_, fun x hx => ?_,
        List.Subset.refl _, fun _ h => .inl h, fun _ _ h => (by cases h), fun _ _ h => (by cases h),
        ⟨[], (List.append_nil _).symm, fun h => absurd rfl h⟩, fun x hx => ⟨?_, fun hin => ?_⟩, fun h => (by cases h),
        fun _ h => by cases h⟩, rfl, ws ++ ws', fun w hw => ?_, ?_, ?_, rfl⟩
      · simp only [Option.map_some, Option.toList_some, List.mem_append, List.mem_singleton, or_iff_left_iff_imp]
        rintro rfl
        exact absurd rfl hx
      · rcases List.mem_append.1 hx with hx | hx
        · exact .inl hx
        · obtain rfl := List.mem_singleton.1 hx
          exact .inr ⟨rfl, rfl, hfree⟩
      · simp only [hseqs]
        omega
      · cases hx
        right
        omega
      · cases hx
        simp only [hseqs]
        omega
      · cases hx
        have := hs.2.1 _ hin
        omega
      · rcases List.mem_append.1 hw with hw | hw
        · exact hws w hw
        · exact hws' w hw
      · rw [posted_append, List.map_append, hposted, hposted']
        rfl
      · rw [files_append, hpending, hfiles']
        rfl
  · obtain ⟨id, c⟩ := r
    obtain ⟨rfl, hc⟩ := h
    refine (insertAll_uploads input.attachments hc rfl (fun _ h => by cases h) (by simpa [UploadPhase.idle] using hlength)
      fun h => absurd rfl h).bind fun c g h => ?_
    refine Bus.Follows.bind (Q := fun _ g' => g' = g) ?_ fun row g' hg' => ?_
    · obtain ⟨ws, -, -, -, rfl⟩ := h.1
      exact .conn_select rfl fun pg hs => ⟨g, .refl hs.2.2, rfl⟩
    · subst hg'
      cases row with
      | none => exact .throw trivial
      | some info => exact .pure h

end

/-! ### The calls -/

section
variable {base : Pg} {pid most : Nat} {auth : AuthCtx}

/-- What only reads, before or after. -/
theorem reads_uploads {α : Type} {x : Bus α} (hx : Reads x) (g : UploadPhase) :
    Bus.Follows (uploadProtocol base pid auth.teamId most) (fun _ => True) (fun _ g' => g' = g) x g :=
  (Bus.Follows.reads (T := uploadProtocol base pid auth.teamId most) hx (fun _ => uploadReady_of_select)
    fun _ _ _ hs => .refl hs.2.2).imp (fun _ _ => trivial) fun _ _ h => h

/-- A transaction of uploads. -/
theorem transaction_uploads {α : Type} {body : Conn → Bus (α × Conn)} {g : UploadPhase}
    (hg : g.drawn = none ∧ g.pending = [])
    (hbody : ∀ now, InUpload pid auth now ⟨pid, some ⟨now, []⟩⟩ g →
      Bus.Follows (uploadProtocol base pid auth.teamId most) (fun _ => True)
        (fun r g' => InUpload pid auth now r.2 g' ∧ (g'.pending ≠ [] → g'.Staged most)) (body ⟨pid, some ⟨now, []⟩⟩) g) :
    Bus.Follows (uploadProtocol base pid auth.teamId most) (fun _ => True) (fun _ _ => True) (transaction pid body) g := by
  refine Bus.Follows.transaction (P := fun _ g' => g' = g) (F := fun _ => True)
    (R := fun r g' => ∃ now, InUpload pid auth now r.2 g' ∧ (g'.pending ≠ [] → g'.Staged most)) ?_ (fun pg hs => ?_)
    (fun now g' h => ?_) (fun a c g' h pg hs => ?_) fun g' _ pg hs => ?_
  · rintro l (rfl | rfl | rfl) <;> rfl
  · exact ⟨g, .refl hs.2.2, rfl⟩
  · subst h
    exact (hbody now ⟨[], List.forall_mem_nil _, by rw [hg.1]; rfl, hg.2.symm, rfl⟩).imp (fun _ h => h) fun r g' h => ⟨now, h⟩
  · obtain ⟨now, hc, hstaged⟩ := h
    exact ⟨.idle, .commit hc hstaged, trivial⟩
  · exact ⟨.idle, .unlock rfl, trivial⟩

/-- The files of a task or of a message are counted. -/
theorem count_uploads (c : Carrier) :
    Bus.Follows (uploadProtocol base pid auth.teamId most) (fun _ => True)
      (fun n g => n < maxAttachmentsPerTarget → g = { UploadPhase.idle with counted := some (c, n) })
      (select .attachments fun pg => pg.db.filesOn c) .idle := by
  refine .select rfl fun pg hs => ?_
  by_cases hlt : pg.db.filesOn c < maxAttachmentsPerTarget
  · refine ⟨{ UploadPhase.idle with counted := some (c, pg.db.filesOn c) }, .still rfl rfl (fun _ _ => .rfl)
      (fun _ h => .inl h) (fun _ h => by cases h) (fun c' n h => ?_) (fun _ _ h => by cases h)
      ⟨fun _ h => (by cases h), fun h => (by cases h), fun _ h => (by cases h)⟩, fun _ => rfl⟩
    cases h
    exact .inr ⟨rfl, rfl, hlt⟩
  · exact ⟨.idle, .refl hs.2.2, fun h => absurd h hlt⟩

/-- The quota check outside a transaction: the lock on the team is gone when the bytes are summed. -/
theorem checkOutside_uploads {g : UploadPhase} (bytes : Int) :
    Bus.Follows (uploadProtocol base pid auth.teamId most) (fun _ => True)
      (fun c g' => c = ⟨pid, none⟩ ∧ ∃ used, g' = { g with room := some (used, bytes) })
      (checkAttachmentQuota ⟨pid, none⟩ auth.teamId bytes) g := by
  refine Bus.Follows.bind (Q := fun r g' => r.2 = ⟨pid, none⟩ ∧ r.1 = base.db.quota auth.teamId ∧
    g' = { g with room := if r.1 = none then some (0, bytes) else none }) (.conn_execute rfl fun pg hs => ?_) fun r g' h => ?_
  · obtain ⟨hteams, hbelow, hknows⟩ := hs
    cases hsql : quotaOf auth.teamId pg with
    | error e =>
      simp only [Conn.effect, Conn.answer, Conn.view, Sql.effect, hsql]
      exact ⟨g, .refl hknows, trivial⟩
    | ok r =>
      obtain ⟨limit, seqs, ws⟩ := r
      obtain ⟨rfl, rfl, t, ht, rfl⟩ := quotaOf_ok hsql
      have hquota : t.attachmentBytesLimit = base.db.quota auth.teamId := by
        rw [Db.findTeam, hteams] at ht
        rw [Db.quota, Db.findTeam, ht, Option.bind_some]
      simp only [Conn.effect, Conn.answer, Conn.view, Sql.effect, hsql]
      refine ⟨{ g with room := if t.attachmentBytesLimit = none then some (0, bytes) else none },
        .still rfl rfl (fun _ _ => .rfl) (fun _ h => .inl h) (fun _ h => h) (fun _ _ h => .inl h)
          (fun used b h _ hne => ?_) ⟨hknows.drawn, hknows.holds, fun x hx limit hlimit => ?_⟩, rfl, hquota, rfl⟩
      · rw [if_neg (by rw [hquota]; exact hne)] at h
        cases h
      · rw [← hquota] at hlimit
        rw [if_neg (by rw [hlimit]; simp)] at hx
        cases hx
  · obtain ⟨limit, c⟩ := r
    obtain ⟨hconn, hlimit, rfl⟩ := h
    obtain rfl : c = ⟨pid, none⟩ := hconn
    cases limit with
    | none => exact .pure ⟨rfl, 0, by simp⟩
    | some limit =>
      have hlimit : some limit = base.db.quota auth.teamId := hlimit
      refine Bus.Follows.bind (Q := fun used g' => used + bytes ≤ limit → ∃ used, g' = { g with room := some (used, bytes) })
        (.conn_select rfl fun pg hs => ?_) fun used g' h => ?_
      · obtain ⟨hteams, hbelow, hknows⟩ := hs
        by_cases hfits : pg.db.attachmentBytes auth.teamId + bytes ≤ limit
        · refine ⟨{ g with room := some (pg.db.attachmentBytes auth.teamId, bytes) },
            .still rfl rfl (fun _ _ => .rfl) (fun _ h => .inl h) (fun _ h => h) (fun _ _ h => .inl h)
              (fun used b h _ _ => ?_) ⟨hknows.drawn, hknows.holds, fun x hx limit' hlimit' => ?_⟩, fun _ => ⟨_, rfl⟩⟩
          · cases h
            exact .inr ⟨rfl, rfl⟩
          · obtain rfl := Option.some.inj hx
            rw [← hlimit] at hlimit'
            obtain rfl := Option.some.inj hlimit'
            exact ⟨hfits, fun _ => rfl⟩
        · exact ⟨_, .refl hknows, fun h => absurd h hfits⟩
      · refine .ite (fun _ => .throw_bind trivial) fun hfits => .pure ⟨rfl, ?_⟩
        obtain ⟨used', rfl⟩ := h (by omega)
        exact ⟨used', rfl⟩

theorem postMessage_uploads [Platform] {input : PostInput} (hlength : input.attachments.length ≤ most) :
    Bus.Follows (uploadProtocol base pid auth.teamId most) (fun _ => True) (fun _ _ => True) (postMessage auth pid input)
      .idle := by
  unfold postMessage
  refine .ite (fun _ => .throw_bind trivial) fun _ => .ite (fun _ => .throw_bind trivial) fun _ =>
    .ite (fun _ => .throw_bind trivial) fun _ => ?_
  refine (reads_uploads resolveTarget_reads .idle).bind fun target g h => ?_
  subst h
  refine (reads_uploads checkReply_reads .idle).bind fun _ g h => ?_
  subst h
  refine (reads_uploads .check .idle).bind fun _ g h => ?_
  subst h
  exact (transaction_uploads ⟨rfl, rfl⟩ fun now hc => postBody_uploads hlength hc).bind fun _ _ _ => .pure trivial

theorem attachToTask_uploads {key : String} {att : NewAttachment} :
    Bus.Follows (uploadProtocol base pid auth.teamId most) (fun _ => True) (fun _ _ => True) (attachToTask auth pid key att)
      .idle := by
  unfold attachToTask
  refine (reads_uploads .select .idle).bind fun task g h => ?_
  subst h
  cases task with
  | none => exact .throw trivial
  | some task =>
    refine (count_uploads (.task task)).bind fun n g h => ?_
    refine .ite (fun _ => .throw_bind trivial) fun hlt => ?_
    obtain rfl := h (Nat.lt_of_not_le hlt)
    refine transaction_uploads ⟨rfl, rfl⟩ fun now hc => ?_
    unfold attachToTaskBody
    rw [← bind_assoc]
    refine (insertChecked_uploads hc (.task task) att).bind fun r g' h => .pure ?_
    obtain ⟨a, used, hon, hc, hg'⟩ := h
    have hpending : g'.pending = [a] := congrArg UploadPhase.pending hg'
    refine ⟨hc, fun _ => ⟨⟨.task task, fun x hx => ?_, .inr ⟨task, n, ?_, rfl, ?_⟩⟩, ?_, used, ?_⟩⟩
    · rw [hpending] at hx
      rw [List.mem_singleton.1 hx]
      exact hon
    · exact congrArg UploadPhase.counted hg'
    · rw [hpending, List.length_singleton]
    · exact congrArg UploadPhase.holds hg'
    · exact congrArg UploadPhase.room hg'

theorem attachToMessage_uploads {message : Int} {att : NewAttachment} :
    Bus.Follows (uploadProtocol base pid auth.teamId most) (fun _ => True) (fun _ _ => True)
      (attachToMessage auth pid message att) .idle := by
  unfold attachToMessage
  refine (reads_uploads .select .idle).bind fun sender g h => ?_
  subst h
  cases sender with
  | none => exact .throw trivial
  | some sender =>
    refine .ite (fun _ => .throw_bind trivial) fun _ => ?_
    refine (count_uploads (.message message)).bind fun n g h => ?_
    refine .ite (fun _ => .throw_bind trivial) fun hlt => ?_
    obtain rfl := h (Nat.lt_of_not_le hlt)
    refine Bus.Follows.bind (Q := fun _ _ => True) ?_ fun _ _ _ => .pure trivial
    refine (checkOutside_uploads _).bind fun c g h => ?_
    obtain ⟨rfl, used, rfl⟩ := h
    refine Bus.Follows.bind (Q := fun _ _ => True) (.conn_wait rfl fun pg hs hfree => ?_) fun _ _ _ => .pure trivial
    cases hsql : insertAttachment auth.teamId (some message) none auth.agentId att pg with
    | error e =>
      simp only [Conn.effect, Conn.answer, Conn.view, Sql.effect, hsql]
      exact ⟨_, .refl hs.2.2, trivial⟩
    | ok r =>
      obtain ⟨id, seqs, ws⟩ := r
      obtain ⟨a, -, ha, hok, rfl, rfl⟩ := insertAttachment_ok hsql
      have hon : ∀ c, a.isOn c = true ↔ c = .message message := fun c => by
        rw [ha]
        exact newAttachment_isOn (c := .message message)
      simp only [Conn.effect, Conn.answer, Conn.view, Sql.effect, hsql]
      refine ⟨.idle, ⟨rfl, fun _ _ => .rfl, fun _ h => .inl h, le_rfl, fun _ h => (by cases h), List.Subset.refl _,
        fun _ h => .inl h, fun _ _ h => (by cases h), fun _ _ h => (by cases h), ⟨[a], rfl, fun _ => ?_⟩,
        UploadPhase.idle_knows⟩, trivial⟩
      refine ⟨fun x hx => ?_, ⟨.message message, fun x hx => ?_, .inr ⟨⟨n, rfl⟩, rfl⟩⟩, fun x hx m hm => ?_, ⟨used, ?_⟩,
        .inr ⟨rfl, hfree⟩⟩
      · rw [List.mem_singleton.1 hx, ha]
        rfl
      · rw [List.mem_singleton.1 hx]
        exact hon
      · obtain rfl := List.mem_singleton.1 hx
        obtain ⟨-, -, -, -, hmessage, -⟩ := Db.attachmentOk_iff.1 hok
        obtain ⟨r, hr, hq⟩ := List.any_eq_true.1 (hmessage m hm)
        exact List.mem_map.2 ⟨r, hr, by simpa using (Bool.and_eq_true_iff.1 hq).1⟩
      · rw [ha]
        simp [bytesOf, newAttachment]

def Call.uploads : Call → Bool
  | .postMessage _ | .attachToTask .. | .attachToMessage .. => true
  | _ => false

/-- How many files the call posts. -/
def Call.files : Call → Nat
  | .postMessage input => input.attachments.length
  | _ => 0

theorem Call.run_uploads [Platform] {c : Call} (hc : c.uploads = true) :
    Bus.Follows (uploadProtocol base pid auth.teamId c.files) (fun _ => True) (fun _ _ => True) (c.run auth pid) .idle := by
  cases c with
  | postMessage input => exact (postMessage_uploads le_rfl).map fun _ _ h => h
  | attachToTask key att => exact attachToTask_uploads.map fun _ _ h => h
  | attachToMessage id att => exact attachToMessage_uploads.map fun _ _ h => h
  | _ => cases hc

end

/-! ### Outside a transaction -/

/-- The file that the call inserts outside a transaction, and the message that it goes to. -/
def Call.loose : Call → Option (Int × NewAttachment)
  | .attachToMessage message att => some (message, att)
  | _ => none

/-- The statement that inserts it. -/
def looseInsert (auth : AuthCtx) (x : Int × NewAttachment) : Sql Int :=
  insertAttachment auth.teamId (some x.1) none auth.agentId x.2

/-- A file goes in outside a transaction only where the call has one for it. -/
def looseProtocol (pid : Nat) (auth : AuthCtx) (c : Call) : Protocol Stmt Pg Unit where
  sure _ _ := True
  ready := uploadReady pid auth.teamId
  step _ l pg _ pg' := ∀ team, l = .insertAttachment team → team = auth.teamId ∧
    ∃ x, c.loose = some x ∧ pg' = (looseInsert auth x).effect pg

section
variable {pid : Nat} {auth : AuthCtx} {call : Call}

theorem reads_loose {α : Type} {x : Bus α} (hx : Reads x) :
    Bus.Follows (looseProtocol pid auth call) (fun _ => True) (fun _ _ => True) x () := by
  refine (Bus.Follows.reads (T := looseProtocol pid auth call) hx (fun _ => uploadReady_of_select) ?_).imp
    (fun _ _ => trivial) fun _ _ _ => trivial
  rintro l pg hl - team rfl
  cases hl

/-- A statement inside a transaction; the connection stays in it. -/
theorem tx_loose {β : Type} {now : Time} {ws : List Write} {l : Stmt} {lock : Conn.LockOf} {s : Sql β}
    (hready : uploadReady pid auth.teamId (.tx l) = Conn.ready ⟨pid, some ⟨now, ws⟩⟩ lock) :
    Bus.Follows (looseProtocol pid auth call) (fun _ => True) (fun r _ => ∃ ws, r.2 = ⟨pid, some ⟨now, ws⟩⟩)
      (Conn.execute ⟨pid, some ⟨now, ws⟩⟩ l lock s) () := by
  refine .conn_wait hready fun pg _ _ => ⟨(), fun team h => (by cases h), ?_⟩
  unfold Conn.answer
  cases s (Conn.view ⟨pid, some ⟨now, ws⟩⟩ pg) with
  | error e => trivial
  | ok r => exact ⟨_, rfl⟩

theorem tx_select_loose {β : Type} {now : Time} {ws : List Write} {t : Table} {q : Pg → β} :
    Bus.Follows (looseProtocol pid auth call) (fun _ => True) (fun _ _ => True)
      (Conn.select ⟨pid, some ⟨now, ws⟩⟩ t q) () :=
  .conn_select rfl fun _ _ => ⟨(), fun _ h => (by cases h), trivial⟩

theorem checkAttachmentQuota_loose {now : Time} {ws : List Write} (bytes : Int) :
    Bus.Follows (looseProtocol pid auth call) (fun _ => True) (fun c _ => ∃ ws, c = ⟨pid, some ⟨now, ws⟩⟩)
      (checkAttachmentQuota ⟨pid, some ⟨now, ws⟩⟩ auth.teamId bytes) () := by
  unfold checkAttachmentQuota
  refine (tx_loose rfl).bind fun r _ h => ?_
  obtain ⟨limit, c⟩ := r
  obtain ⟨ws, rfl⟩ : ∃ ws, c = ⟨pid, some ⟨now, ws⟩⟩ := h
  cases limit with
  | none => exact .pure ⟨ws, rfl⟩
  | some limit =>
    exact tx_select_loose.bind fun used _ _ => .ite (fun _ => .throw_bind trivial) fun _ => .pure ⟨ws, rfl⟩

/-- The quota check and the insert, inside a transaction. -/
theorem insertChecked_loose {now : Time} {ws : List Write} (bytes : Int) (s : Sql Int) :
    Bus.Follows (looseProtocol pid auth call) (fun _ => True) (fun r _ => ∃ ws, r.2 = ⟨pid, some ⟨now, ws⟩⟩)
      (do
        let c ← checkAttachmentQuota ⟨pid, some ⟨now, ws⟩⟩ auth.teamId bytes
        c.execute (.insertAttachment auth.teamId) (some (auth.teamId, .keyShare)) s) () := by
  refine (checkAttachmentQuota_loose bytes).bind fun c _ h => ?_
  obtain ⟨ws, rfl⟩ := h
  exact tx_loose rfl

theorem insertAll_loose {now : Time} {ws : List Write} (message : Int) (atts : List NewAttachment) :
    Bus.Follows (looseProtocol pid auth call) (fun _ => True) (fun c _ => ∃ ws, c = ⟨pid, some ⟨now, ws⟩⟩)
      (insertAllForMessage ⟨pid, some ⟨now, ws⟩⟩ auth.teamId message auth.agentId atts) () := by
  induction atts generalizing ws with
  | nil => exact .pure ⟨ws, rfl⟩
  | cons att atts ih =>
    have hfile : Bus.Follows (looseProtocol pid auth call) (fun _ => True) (fun r _ => ∃ ws, r.2 = ⟨pid, some ⟨now, ws⟩⟩)
        (insertForMessage ⟨pid, some ⟨now, ws⟩⟩ auth.teamId message auth.agentId att) () := by
      unfold insertForMessage
      rw [← bind_assoc]
      exact (insertChecked_loose _ _).bind fun r _ h => .pure h
    refine hfile.bind fun r _ h => ?_
    obtain ⟨info, c⟩ := r
    obtain ⟨ws, rfl⟩ : ∃ ws, c = ⟨pid, some ⟨now, ws⟩⟩ := h
    exact ih

theorem transaction_loose {α : Type} {body : Conn → Bus (α × Conn)}
    (hbody : ∀ now, Bus.Follows (looseProtocol pid auth call) (fun _ => True) (fun _ _ => True) (body ⟨pid, some ⟨now, []⟩⟩) ()) :
    Bus.Follows (looseProtocol pid auth call) (fun _ => True) (fun _ _ => True) (transaction pid body) () := by
  refine Bus.Follows.transaction (P := fun _ _ => True) (F := fun _ => True) (R := fun _ _ => True) ?_
    (fun pg _ => ⟨(), fun _ h => (by cases h), trivial⟩) (fun now _ _ => hbody now)
    (fun _ _ _ _ pg _ => ⟨(), fun _ h => (by cases h), trivial⟩) fun _ _ pg _ => ⟨(), fun _ h => (by cases h), trivial⟩
  rintro l (rfl | rfl | rfl) <;> rfl

theorem Call.run_loose [Platform] {c : Call} (hc : c.uploads = true) :
    Bus.Follows (looseProtocol pid auth c) (fun _ => True) (fun _ _ => True) (c.run auth pid) () := by
  cases c with
  | postMessage input =>
    refine Bus.Follows.map (Q := fun _ _ => True) ?_ fun _ _ h => h
    unfold CrewSync.postMessage
    refine .ite (fun _ => .throw_bind trivial) fun _ => .ite (fun _ => .throw_bind trivial) fun _ =>
      .ite (fun _ => .throw_bind trivial) fun _ => ?_
    refine (reads_loose resolveTarget_reads).bind fun target _ _ => (reads_loose checkReply_reads).bind fun _ _ _ =>
      (reads_loose .check).bind fun _ _ _ => Bus.Follows.bind (transaction_loose fun now => ?_) fun _ _ _ => .pure trivial
    refine (tx_loose rfl).bind fun r _ h => ?_
    obtain ⟨id, c⟩ := r
    obtain ⟨ws, rfl⟩ : ∃ ws, c = ⟨pid, some ⟨now, ws⟩⟩ := h
    refine (insertAll_loose id input.attachments).bind fun c _ h => ?_
    obtain ⟨ws, rfl⟩ := h
    refine tx_select_loose.bind fun row _ _ => ?_
    cases row with
    | none => exact .throw trivial
    | some info => exact .pure trivial
  | attachToTask key att =>
    refine Bus.Follows.map (Q := fun _ _ => True) ?_ fun _ _ h => h
    unfold CrewSync.attachToTask
    refine (reads_loose .select).bind fun task _ _ => ?_
    cases task with
    | none => exact .throw trivial
    | some task =>
      refine (reads_loose .select).bind fun n _ _ => .ite (fun _ => .throw_bind trivial) fun _ => ?_
      refine transaction_loose fun now => ?_
      unfold attachToTaskBody
      rw [← bind_assoc]
      exact (insertChecked_loose _ _).bind fun r _ _ => .pure trivial
  | attachToMessage id att =>
    refine Bus.Follows.map (Q := fun _ _ => True) ?_ fun _ _ h => h
    unfold CrewSync.attachToMessage
    refine (reads_loose .select).bind fun sender _ _ => ?_
    cases sender with
    | none => exact .throw trivial
    | some sender =>
      refine .ite (fun _ => .throw_bind trivial) fun _ => (reads_loose .select).bind fun n _ _ =>
        .ite (fun _ => .throw_bind trivial) fun _ => ?_
      refine Bus.Follows.bind (Q := fun _ _ => True) ?_ fun _ _ _ => .pure trivial
      -- The team is locked, and its bytes are summed, by statements of their own.
      have hcheck : Bus.Follows (looseProtocol pid auth (.attachToMessage id att)) (fun _ => True) (fun c _ => c = ⟨pid, none⟩)
          (checkAttachmentQuota ⟨pid, none⟩ auth.teamId att.sizeBytes) () := by
        unfold checkAttachmentQuota
        refine Bus.Follows.bind (Q := fun r _ => r.2 = ⟨pid, none⟩)
          (.conn_wait rfl fun pg _ _ => ⟨(), fun _ h => (by cases h), ?_⟩) fun r _ h => ?_
        · unfold Conn.answer
          cases quotaOf auth.teamId (Conn.view ⟨pid, none⟩ pg) with
          | error e => trivial
          | ok r => rfl
        · obtain ⟨limit, c⟩ := r
          obtain rfl : c = ⟨pid, none⟩ := h
          cases limit with
          | none => exact .pure rfl
          | some limit =>
            exact Bus.Follows.bind (Q := fun _ _ => True) (.conn_select rfl fun _ _ => ⟨(), fun _ h => (by cases h), trivial⟩)
              fun used _ _ => .ite (fun _ => .throw_bind trivial) fun _ => .pure rfl
      unfold insertForMessage
      refine hcheck.bind fun c _ h => ?_
      subst h
      refine Bus.Follows.bind (Q := fun _ _ => True) (.conn_wait rfl fun pg _ _ => ⟨(), fun team h => ?_, ?_⟩)
        fun _ _ _ => .pure trivial
      · obtain rfl : auth.teamId = team := Stmt.insertAttachment.inj h
        exact ⟨rfl, _, rfl, rfl⟩
      · unfold Conn.answer
        cases insertAttachment auth.teamId (some id) none auth.agentId att (Conn.view ⟨pid, none⟩ pg) with
        | error e => trivial
        | ok r => trivial
  | _ => cases hc

end

end CrewSync
