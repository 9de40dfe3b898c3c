import CrewSync.Theorems.Attribution
import CrewSync.Theorems.Confidential
import CrewSync.Theorems.Downloads
import CrewSync.Theorems.Requests
import CrewSync.Theorems.Unread

/-! Files from one client to another. A file that a command sends is stored as it is on disk; from then on those whom it is
    for, and nobody else, download it. -/

namespace CrewSync
open Rows

section
variable {pg : Pg} {a : Attachment}

/-! ### What is stored stays -/

theorem attachments_prefix {db : Db} {w : Write} (hw : ∀ p, w ≠ .deleteMessages p) :
    db.attachments <+: (w.apply db).attachments := by
  cases w with
  | insertAttachment r => exact List.prefix_append _ _
  | deleteMessages p => exact absurd rfl (hw p)
  | _ => exact List.prefix_rfl

/-- The messages and the files are still there, in their order. -/
theorem Pg.after_kept [Platform] (hv : pg.Valid) {es : List Event} (hes : ∀ e ∈ es, isPrune e = false) :
    (pg.after es).Valid ∧ pg.db.messages <+: (pg.after es).db.messages ∧
      pg.db.attachments <+: (pg.after es).db.attachments := by
  induction es generalizing pg with
  | nil => exact ⟨hv, List.prefix_rfl, List.prefix_rfl⟩
  | cons e es ih =>
    have he := hes e List.mem_cons_self
    have hmessages : pg.db.messages <+: (pg.next e).db.messages := next_prefix hv he
    have hfiles : pg.db.attachments <+: (pg.next e).db.attachments :=
      next_kept (R := fun a b => a.attachments <+: b.attachments) hv he (fun _ => List.prefix_rfl) (fun h h' => h.trans h')
        fun _ _ => attachments_prefix
    obtain ⟨hv', hmessages', hfiles'⟩ := ih (hv.next e) fun e' he' => hes e' (List.mem_cons_of_mem _ he')
    exact ⟨hv', hmessages.trans hmessages', hfiles.trans hfiles'⟩

/-! ### Who may read a file -/

/-- The message of the file is there. -/
theorem message_of_file (hv : pg.Valid) (ha : a ∈ pg.db.attachments) {mid : Int} (hid : a.messageId = some mid) :
    ∃ m ∈ pg.db.messages, m.id = mid ∧ pg.db.messages.find? (·.id == mid) = some m ∧
      ∀ agent, pg.db.fileOpen agent a = m.openTo agent := by
  rcases messageIn_iff.1 (hv.refs.files a ha mid hid) with ⟨m, hm, rfl, -⟩
  have hfind : pg.db.messages.find? (·.id == m.id) = some m :=
    hv.keys.messages.find?_eq_some hm (beq_self_eq_true _) fun r _ hr => beq_iff_eq.1 hr
  refine ⟨m, hm, rfl, hfind, fun agent => ?_⟩
  rw [Db.fileOpen, hid, Option.all_some, Bool.eq_iff_iff, List.any_eq_true]
  constructor
  · rintro ⟨o, ho, hopen⟩
    simp only [Bool.and_eq_true, beq_iff_eq] at hopen
    exact hv.keys.messages.eq ho hm hopen.1 ▸ hopen.2
  · exact fun hopen => ⟨m, hm, by simp [hopen]⟩

/-- Whom a file is for does not change. -/
theorem fileOpen_kept {pg' : Pg} (hv : pg.Valid) (hv' : pg'.Valid) (hmessages : pg.db.messages <+: pg'.db.messages)
    (ha : a ∈ pg.db.attachments) (ha' : a ∈ pg'.db.attachments) (agent : Uuid) :
    pg'.db.fileOpen agent a = pg.db.fileOpen agent a := by
  cases hid : a.messageId with
  | none => rw [Db.fileOpen, Db.fileOpen, hid]; rfl
  | some mid =>
    obtain ⟨m, hm, hmid, -, hopen⟩ := message_of_file hv ha hid
    obtain ⟨m', hm', hmid', -, hopen'⟩ := message_of_file hv' ha' hid
    obtain rfl : m' = m := hv'.keys.messages.eq hm' (hmessages.subset hm) (hmid'.trans hmid.symm)
    rw [hopen, hopen']

/-- A stored file is served, as it is, to whom it is for; to others it is as if it were not there. -/
theorem getAttachment_answers (hv : pg.Valid) (ha : a ∈ pg.db.attachments) (reader : AuthCtx) :
    (reader.teamId = a.teamId ∧ pg.db.fileOpen reader.agentId a = true → ∃ content,
      ((getAttachment reader a.id).exec pg).1 = .ok content ∧ content.filename = a.filename ∧ content.data = a.data) ∧
      (¬ (reader.teamId = a.teamId ∧ pg.db.fileOpen reader.agentId a = true) →
        ((getAttachment reader a.id).exec pg).1 = .error (.notFound s!"attachment {a.id}")) := by
  unfold getAttachment
  rw [Bus.exec_bind_ok (Bus.exec_select _ _)]
  by_cases hteam : reader.teamId = a.teamId
  · have hfind : pg.db.attachments.find? (fun b => b.id == a.id && b.teamId == reader.teamId) = some a :=
      hv.keys.attachments.find?_eq_some ha (by simp [hteam]) fun b _ hb => beq_iff_eq.1 (Bool.and_eq_true_iff.1 hb).1
    obtain ⟨name, hname⟩ := Db.agentName_of_agentIn (hv.refs.uploaders a ha).2
    have hrow : pg.db.attachmentRow? reader.teamId a.id = some
        { attachment := a, uploadedBy := name
          recipient := (a.messageId.bind fun m => pg.db.messages.find? (·.id == m)).bind (·.recipientAgentId)
          sender := (a.messageId.bind fun m => pg.db.messages.find? (·.id == m)).map (·.senderAgentId) } := by
      rw [Db.attachmentRow?, hfind]
      simp only [Option.bind_eq_bind, Option.bind_some, hname]
      rfl
    rw [hrow]
    dsimp only
    cases hid : a.messageId with
    | none =>
      refine ⟨fun _ => ⟨_, rfl, rfl, rfl⟩, fun h => absurd ⟨hteam, ?_⟩ h⟩
      rw [Db.fileOpen, hid]
      rfl
    | some mid =>
      obtain ⟨m, hm, -, hmid, hopen⟩ := message_of_file hv ha hid
      have htarget := hv.refs.targets m hm
      rw [hopen, Option.bind_some, hmid, Option.bind_some, Option.map_some]
      cases hto : m.recipientAgentId with
      | none =>
        rw [hto] at htarget
        have hchannel : m.channelId.isSome = true := Option.isSome_iff_ne_none.2 (by simpa using htarget)
        exact ⟨fun _ => ⟨_, rfl, rfl, rfl⟩, fun h => absurd ⟨hteam, openTo_of_channel hchannel⟩ h⟩
      | some recipient =>
        rw [hto] at htarget
        have hchannel : m.channelId.isSome = false := by simpa using htarget
        have hrefused : (m.openTo reader.agentId = true) ↔
            ¬ ((some recipient).any fun r => r != reader.agentId && some m.senderAgentId != some reader.agentId) = true := by
          rw [Message.openTo, hchannel, hto]
          simp only [Bool.false_or, Bool.or_eq_true, beq_iff_eq, Option.some.injEq, Option.any_some, Bool.and_eq_true, bne_iff_ne,
            ne_eq]
          tauto
        refine ⟨fun h => ?_, fun h => ?_⟩
        · rw [if_neg (hrefused.1 h.2)]
          exact ⟨_, rfl, rfl, rfl⟩
        · rw [if_pos (not_not.1 fun hno => h ⟨hteam, hrefused.2 hno⟩)]
          rfl
  · have hnone : pg.db.attachments.find? (fun b => b.id == a.id && b.teamId == reader.teamId) = none := by
      refine List.find?_eq_none.2 fun b hb hsame => hteam ?_
      simp only [Bool.and_eq_true, beq_iff_eq] at hsame
      rw [← hsame.2, hv.keys.attachments.eq hb ha hsame.1]
    have hrow : pg.db.attachmentRow? reader.teamId a.id = none := by
      rw [Db.attachmentRow?, hnone]
      rfl
    rw [hrow]
    exact ⟨fun h => absurd h.1 hteam, fun _ => rfl⟩

/-! ### From disk to disk -/

/-- The command sends the file of the path. -/
def Client.ClientCmd.Sends (path : String) : Client.ClientCmd → Prop
  | .send _ _ _ _ _ file => path ∈ file
  | .attach _ file _ => file = path
  | _ => False

theorem mapM_mem {ε α β : Type} {f : α → Except ε β} {as : List α} {bs : List β} (h : as.mapM f = .ok bs) {a : α} (ha : a ∈ as) :
    ∃ b ∈ bs, f a = .ok b := by
  induction as generalizing bs with
  | nil => cases ha
  | cons x as ih =>
    rw [List.mapM_cons] at h
    cases hx : f x with
    | error e => rw [hx] at h; cases h
    | ok b =>
      cases hrest : as.mapM f with
      | error e => rw [hx, hrest] at h; cases h
      | ok rest =>
        rw [hx, hrest] at h
        obtain rfl := Except.ok.inj h
        rcases List.mem_cons.1 ha with rfl | ha
        · exact ⟨b, List.mem_cons_self, hx⟩
        · obtain ⟨b', hb', hf⟩ := ih hrest ha
          exact ⟨b', List.mem_cons_of_mem _ hb', hf⟩

open Client

theorem accepted_ok {u : Upload} {att : NewAttachment} (h : u.accepted = .ok att) :
    att.filename = trim u.filename ∧ att.data = u.data := by
  unfold Upload.accepted refuse at h
  dsimp only at h
  split_ifs at h
  obtain rfl := Except.ok.inj h
  exact ⟨rfl, rfl⟩

/-- The call that such a command asks for carries the bytes of the file, under its name. -/
theorem carries_file {disk : Disk} {heard : Tools.Heard} {cmd : ClientCmd} {c : Call} {path : String} {data : List UInt8}
    (hsends : cmd.Sends path) (hdisk : disk path = some data) (hreq : requested disk heard cmd = .ok (some c)) :
    ∃ att, c.Carries att ∧ att.filename = trim (uploadName path) ∧ att.data = data := by
  have hupload : ∀ contentType, upload disk contentType path =
      .ok ⟨uploadName path, contentType.getD (guessContentType path), data⟩ := fun _ => by rw [upload, hdisk]
  cases cmd with
  | send channel «to» body announce replyTo file =>
    rw [send_requested, ClientCmd.meaning] at hreq
    cases hups : file.mapM (upload disk none) with
    | error e => rw [hups] at hreq; cases hreq
    | ok uploads =>
      rw [hups, ok_bind] at hreq
      split at hreq
      · cases hreq
      · cases hatts : uploads.mapM Upload.accepted with
        | error e => rw [hatts] at hreq; cases hreq
        | ok attachments =>
          rw [hatts] at hreq
          obtain rfl := Option.some.inj (Except.ok.inj hreq)
          obtain ⟨u, hu, hmade⟩ := mapM_mem hups hsends
          obtain ⟨att, hatt, hok⟩ := mapM_mem hatts hu
          rw [hupload] at hmade
          obtain rfl := Except.ok.inj hmade
          obtain ⟨hname, hdata⟩ := accepted_ok hok
          exact ⟨att, .post _ hatt, hname, hdata⟩
  | attach key file contentType =>
    obtain rfl := hsends
    rw [attach_requested, ClientCmd.meaning, hupload, ok_bind] at hreq
    cases hatt : Upload.accepted _ with
    | error e => rw [hatt] at hreq; cases hreq
    | ok att =>
      rw [hatt] at hreq
      obtain rfl := Option.some.inj (Except.ok.inj hreq)
      obtain ⟨hname, hdata⟩ := accepted_ok hatt
      exact ⟨att, .task key, hname, hdata⟩
  | _ => exact hsends.elim

/-- A file that a command sends, and the server takes, is there for good: as long as nothing is pruned, each member of the
    team who may see where it went gets its bytes under its name, and anyone else hears that there is no such file. -/
theorem file_shared [Platform] (hpg : pg.Reachable) {disk : Disk} {heard : Tools.Heard} {cmd : ClientCmd} {path : String}
    {data : List UInt8} {c : Call} (hsends : cmd.Sends path) (hdisk : disk path = some data)
    (hreq : requested disk heard cmd = .ok (some c)) {auth : AuthCtx} {pid : Nat} (hok : (pg.call auth pid c).1.isOk = true) :
    ∃ a ∈ (pg.next (.call auth pid c)).db.attachments, a ∉ pg.db.attachments ∧
      ∀ es, (∀ e ∈ es, Pg.isPrune e = false) → ∀ reader pid',
        reader.authentic ((pg.next (.call auth pid c)).after es).db = true →
          let answer := (((pg.next (.call auth pid c)).after es).call reader pid' (.getAttachment a.id)).1
          let shared := reader.teamId = auth.teamId ∧ (pg.next (.call auth pid c)).db.fileOpen reader.agentId a = true
          (shared → ∃ content, answer = .ok (.attachment content) ∧
            Client.download none content.filename (Client.dataBase64 content) = .ok (trim (uploadName path), data)) ∧
            (¬ shared → answer = .error (.notFound s!"attachment {a.id}")) := by
  obtain ⟨att, hcarries, hname, hdata⟩ := carries_file hsends hdisk hreq
  obtain ⟨a, as, hattachments, hmem, hfilename, hbytes⟩ := hcarries.stores hok
  have hreach := hpg.next (.call auth pid c)
  have ha : a ∈ (pg.next (.call auth pid c)).db.attachments := hattachments ▸ List.mem_append_right _ hmem
  have hnew : a ∉ pg.db.attachments := by
    intro hold
    have hkeys : Keyed (·.id) (pg.db.attachments ++ as) := hattachments ▸ hreach.valid.keys.attachments
    rw [Keyed, List.map_append] at hkeys
    exact List.disjoint_of_nodup_append hkeys (List.mem_map_of_mem hold) (List.mem_map_of_mem hmem)
  have hteam : a.teamId = auth.teamId := by
    rcases next_bears (x := .attachment a) hpg.valid (.call auth pid c) ha with hold | ⟨auth', pid', c', he, -, hof⟩
    · exact absurd hold hnew
    · obtain ⟨rfl, rfl, rfl⟩ := Event.call.inj he
      exact hof.team a.teamId rfl
  refine ⟨a, ha, hnew, fun es hes reader pid' hauth => ?_⟩
  obtain ⟨hv', hmessages, hfiles⟩ := Pg.after_kept hreach.valid hes
  have ha' := hfiles.subset ha
  have hopen := fileOpen_kept hreach.valid hv' hmessages ha ha' reader.agentId
  obtain ⟨hserved, hrefused⟩ := getAttachment_answers hv' ha' reader
  rw [hopen, hteam] at hserved hrefused
  dsimp only
  rw [Pg.call, if_pos hauth, Call.run, Bus.exec_map]
  refine ⟨fun h => ?_, fun h => ?_⟩
  · obtain ⟨content, hanswer, hcname, hcdata⟩ := hserved h
    refine ⟨content, by rw [hanswer]; rfl, ?_⟩
    rw [Client.download, Client.dataBase64, String.toList_ofList, Base64.decode_encode, hcname, hfilename, hname, hcdata,
      hbytes, hdata]
    rfl
  · rw [hrefused h]
    rfl

end

namespace Sample
attribute [local instance] Platform.ascii

/-- The disk of ann. -/
def annDisk : Client.Disk := fun path => if path = "out/notes.txt" then some [104, 105, 10] else none

/-- Ann sends her notes to bob. -/
def annSends : Client.ClientCmd := .send none (some "bob") "see the notes" false none ["out/notes.txt"]

def notes : NewAttachment where
  filename := "notes.txt"
  contentType := "text/plain"
  data := [104, 105, 10]
  nonempty := by decide
  fits := by decide

def notesCall : Call := .postMessage ⟨none, some "bob", false, "see the notes", none, none, [notes]⟩

theorem annSends_requested : Client.requested annDisk ⟨[], []⟩ annSends = .ok (some notesCall) := by
  rw [annSends, Client.send_requested]
  rfl

/-- Bob gets them, and cid does not hear of them. -/
theorem notes_shared : ∃ a ∈ (trio.next (.call ann 0 notesCall)).db.attachments,
    (∃ content, (((trio.next (.call ann 0 notesCall)).after [.tick 60]).call bob 0 (.getAttachment a.id)).1 =
        .ok (.attachment content) ∧
      Client.download none content.filename (Client.dataBase64 content) = .ok ("notes.txt", [104, 105, 10])) ∧
      (((trio.next (.call ann 0 notesCall)).after [.tick 60]).call cid 0 (.getAttachment a.id)).1 =
        .error (.notFound s!"attachment {a.id}") := by
  have hopen : ∀ a ∈ (trio.next (.call ann 0 notesCall)).db.attachments,
      (trio.next (.call ann 0 notesCall)).db.fileOpen 2 a = true ∧ (trio.next (.call ann 0 notesCall)).db.fileOpen 3 a = false := by
    decide
  obtain ⟨a, ha, -, h⟩ := @file_shared trio Platform.ascii ((@Pg.Reachable.init Platform.ascii 0).after _) annDisk ⟨[], []⟩
    annSends "out/notes.txt" [104, 105, 10] notesCall (List.mem_singleton_self _) rfl annSends_requested ann 0 (by decide)
  have hname : trim (Client.uploadName "out/notes.txt") = "notes.txt" := by decide
  have hbob := (h [.tick 60] (by decide) bob 0 (by decide)).1 ⟨rfl, (hopen a ha).1⟩
  have hcid := (h [.tick 60] (by decide) cid 0 (by decide)).2 fun hshared =>
    Bool.false_ne_true ((hopen a ha).2.symm.trans hshared.2)
  rw [hname] at hbob
  exact ⟨a, ha, hbob, hcid⟩

end Sample
end CrewSync
