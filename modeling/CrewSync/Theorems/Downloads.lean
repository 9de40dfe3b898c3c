import CrewSync.Client
import CrewSync.Theorems.Meets

/-! Where a download goes. The name of a file is trimmed when it is uploaded, and from then on it is the same at every
    step, up to the path that the client of a teammate writes to. -/

namespace CrewSync

/-! ### Paths of one component -/

namespace Client

theorem not_mem_splitOn {cs part : List Char} (h : part ∈ cs.splitOn '/') : '/' ∉ part := by
  rw [List.splitOn_eq_splitOnP] at h
  induction cs generalizing part with
  | nil =>
    rw [List.splitOnP_nil, List.mem_singleton] at h
    rw [h]
    exact List.not_mem_nil
  | cons c cs ih =>
    rw [List.splitOnP_cons_eq_if_modifyHead] at h
    split at h
    · rcases List.mem_cons.1 h with rfl | h
      · exact List.not_mem_nil
      · exact ih h
    · next hc =>
      obtain ⟨first, rest, hsplit⟩ := List.exists_cons_of_ne_nil (List.splitOnP_ne_nil (· == '/') cs)
      rw [hsplit] at h ih
      rcases List.mem_cons.1 h with rfl | h
      · exact fun hmem => (List.mem_cons.1 hmem).elim (fun he => hc (by simp [← he])) (ih List.mem_cons_self)
      · exact ih (List.mem_cons_of_mem _ h)

theorem component_normal {part name : List Char} (h : component part = some (.normal name)) :
    part = name ∧ name ≠ [] ∧ name ≠ ['.'] ∧ name ≠ ['.', '.'] := by
  unfold component at h
  split at h
  · cases h
  · cases h
  · cases h
  · next hnil hdot hdots =>
    obtain rfl := Component.normal.inj (Option.some.inj h)
    exact ⟨rfl, hnil, hdot, hdots⟩

theorem component_eq {name : List Char} (hnil : name ≠ []) (hdot : name ≠ ['.']) (hdots : name ≠ ['.', '.']) :
    component name = some (.normal name) := by
  unfold component
  split
  · exact absurd rfl hnil
  · exact absurd rfl hdot
  · exact absurd rfl hdots
  · rfl

/-- The path is the name of an entry of the current directory. -/
def Inside (path : String) : Prop := components path = [.normal path.toList]

instance (path : String) : Decidable (Inside path) := inferInstanceAs (Decidable (_ = _))

theorem inside_iff {path : String} :
    Inside path ↔ '/' ∉ path.toList ∧ path ≠ "" ∧ path ≠ "." ∧ path ≠ ".." := by
  have htext : ∀ s : String, path = s ↔ path.toList = s.toList := fun _ => String.toList_inj.symm
  rw [Ne, Ne, Ne, htext, htext, htext, Inside, components]
  constructor
  · intro h
    have hmem : Component.normal path.toList ∈ (path.toList.splitOn '/').filterMap component := by
      have hall : Component.normal path.toList ∈ [Component.normal path.toList] := List.mem_singleton_self _
      rw [← h] at hall
      rcases List.mem_append.1 hall with hstart | hmem
      · split at hstart
        · simp at hstart
        · split at hstart <;> simp at hstart
      · exact hmem
    obtain ⟨part, hpart, hnormal⟩ := List.mem_filterMap.1 hmem
    obtain ⟨rfl, hname⟩ := component_normal hnormal
    exact ⟨not_mem_splitOn hpart, hname⟩
  · rintro ⟨hslash, hnil, hdot, hdots⟩
    have hsplit : path.toList.splitOn '/' = [path.toList] := by
      rw [List.splitOn_eq_splitOnP]
      refine List.splitOnP_eq_singleton fun c hc => beq_eq_false_iff_ne.2 ?_
      rintro rfl
      exact hslash hc
    have hroot : path.toList.head? ≠ some '/' := fun h => hslash (List.mem_of_mem_head? h)
    rw [hsplit, if_neg hroot, if_neg (by simpa using hdot), List.nil_append, List.filterMap_cons,
      component_eq hnil hdot hdots]
    rfl

/-- A file that the client uploads by a path is named inside the current directory. -/
theorem uploadName_inside (path : String) : Inside (uploadName path) := by
  unfold uploadName fileName
  split
  · next name hlast =>
    have hmem := List.mem_of_getLast? hlast
    have hparts : Component.normal name ∈ (path.toList.splitOn '/').filterMap component := by
      rw [components] at hmem
      rcases List.mem_append.1 hmem with hstart | hmem
      · split at hstart
        · simp at hstart
        · split at hstart <;> simp at hstart
      · exact hmem
    obtain ⟨part, hpart, hnormal⟩ := List.mem_filterMap.1 hparts
    obtain ⟨rfl, hnil, hdot, hdots⟩ := component_normal hnormal
    refine inside_iff.2 ⟨by simpa using not_mem_splitOn hpart, fun h => hnil ?_, fun h => hdot ?_, fun h => hdots ?_⟩
    all_goals simpa using congrArg String.toList h
  · decide

end Client

/-! ### Storing a file -/

section
variable {auth : AuthCtx} {db : Db} {E : BusError → Prop} {att : NewAttachment}

/-- The tables hold the file beside those that they held before. -/
def Db.Stores (db db' : Db) (att : NewAttachment) : Prop :=
  ∃ a as, db'.attachments = db.attachments ++ as ∧ a ∈ as ∧ a.filename = att.filename ∧ a.data = att.data

/-- A statement on a connection that is in no transaction. -/
theorem poolExecute_meets {β : Type} {P : Pg → Prop} {Q : β × Conn → Pg → Prop} {s : Sql β} (pid : Nat) (l : Stmt)
    (lock : Conn.LockOf) (h : ∀ pg b seqs ws, P pg → s pg = .ok (b, seqs, ws) →
      Q (b, ⟨pid, none⟩) { pg with db := pg.db.write ws, seqs }) :
    Bus.Meets P (Conn.execute ⟨pid, none⟩ l lock s) Q fun _ => True where
  answers pg hP r hr := by
    change Conn.answer ⟨pid, none⟩ s pg = .ok r at hr
    change Q r (s.effect pg)
    simp only [Conn.answer, Conn.view, Sql.effect] at hr ⊢
    cases hs : s pg with
    | error e =>
      rw [hs] at hr
      cases hr
    | ok b =>
      obtain ⟨b, seqs, ws⟩ := b
      rw [hs] at hr
      obtain rfl := Except.ok.inj hr
      exact h pg b seqs ws hP hs
  fails _ _ _ _ := trivial

theorem attachToMessage_stores (pid : Nat) (message : Int) (att : NewAttachment) :
    Bus.Meets (·.db = db) (attachToMessage auth pid message att) (fun _ pg => db.Stores pg.db att) fun _ => True := by
  refine .bind (Q := fun _ pg => pg.db = db) (.select fun _ h => h) fun sender => ?_
  cases sender with
  | none => exact .throw fun _ _ => trivial
  | some sender =>
    refine .guard (fun _ => trivial) fun _ => ?_
    refine .bind (Q := fun _ pg => pg.db = db) (.select fun _ h => h) fun count => .guard (fun _ => trivial) fun _ => ?_
    refine .bind (Q := fun _ pg => db.Stores pg.db att) ?_ fun r => .pure fun _ h => h
    refine .bind (Q := fun c pg => c = ⟨pid, none⟩ ∧ pg.db = db) ?_ fun c => .lift fun hc => ?_
    · refine .bind (Q := fun r pg => r.2 = ⟨pid, none⟩ ∧ pg.db = db) ?_ fun r => .lift fun hr => ?_
      · refine poolExecute_meets pid _ _ fun pg b seqs ws h hs => ⟨rfl, ?_⟩
        obtain ⟨-, rfl, -⟩ := quotaOf_ok hs
        exact h
      · rcases r with ⟨limit, c⟩
        obtain rfl : c = ⟨pid, none⟩ := hr
        cases limit with
        | none => exact .pure fun _ h => ⟨rfl, h⟩
        | some limit =>
          refine .bind (Q := fun _ pg => pg.db = db) ⟨fun pg h used hu => ?_, fun _ _ _ _ => trivial⟩ fun used =>
            .guard (fun _ => trivial) fun _ => .pure fun _ h => ⟨rfl, h⟩
          exact h
    · subst hc
      refine .bind (Q := fun _ pg => db.Stores pg.db att) ?_ fun r => .pure fun _ h => h
      refine poolExecute_meets pid _ _ fun pg b seqs ws h hs => ?_
      obtain ⟨a, -, ha, -, -, rfl⟩ := insertAttachment_ok hs
      subst h
      exact ⟨a, [a], rfl, List.mem_singleton_self a, congrArg Attachment.filename ha, congrArg Attachment.data ha⟩

theorem attachToTask_stores (pid : Nat) (key : String) (att : NewAttachment) :
    Bus.Meets (·.db = db) (attachToTask auth pid key att) (fun _ pg => db.Stores pg.db att) fun _ => True := by
  refine .bind (Q := fun _ pg => pg.db = db) (.select fun _ h => h) fun found => ?_
  cases found with
  | none => exact .throw fun _ _ => trivial
  | some task =>
    refine .bind (Q := fun _ pg => pg.db = db) (.select fun _ h => h) fun count => .guard (fun _ => trivial) fun _ => ?_
    refine .transaction fun now => ?_
    refine .bind (Q := fun c pg => c = ⟨pid, some ⟨now, []⟩⟩ ∧ pg.db = db) ?_ fun c => .lift fun hc => ?_
    · have h : Bus.Meets (·.db = db) (checkAttachmentQuota ⟨pid, some ⟨now, []⟩⟩ auth.teamId att.sizeBytes)
          (fun c pg => (c = ⟨pid, some ⟨now, []⟩⟩ ∧ (db.write []).Admits auth.teamId att.sizeBytes) ∧ pg.db = db)
          fun _ => True := checkAttachmentQuota_meets trivial (fun _ => trivial) pid ⟨now, []⟩ auth.teamId att.sizeBytes
      exact ⟨fun pg hP c hr => (h.answers pg hP.1 c hr).imp_left And.left, fun _ _ _ _ => trivial⟩
    subst hc
    refine .bind (txExecute_meets (Q := fun r => ∃ a, r.2.pending = [.insertAttachment a] ∧ a.filename = att.filename ∧
      a.data = att.data) pid ⟨now, []⟩ _ _ ?_ fun _ _ _ => trivial) fun r => .lift fun hpending => ?_
    · intro pg b seqs ws _ hs
      obtain ⟨a, -, rfl, -, -, rfl⟩ := insertAttachment_ok hs
      exact ⟨_, rfl, rfl, rfl⟩
    · rcases r with ⟨id, c⟩
      obtain ⟨a, hpending, hname, hdata⟩ := hpending
      refine .pure fun pg h => ⟨a, [a], ?_, List.mem_singleton_self a, hname, hdata⟩
      change (pg.db.write c.pending).attachments = _
      rw [show c.pending = _ from hpending, h]
      rfl

/-- Each file of a post has its row. -/
theorem file_of_mem {team uploader : Uuid} {message : Int} {atts : List NewAttachment} {as : List Attachment}
    (h : FilesOf team message uploader atts as) (hatt : att ∈ atts) :
    ∃ a ∈ as, a.filename = att.filename ∧ a.data = att.data := by
  induction h with
  | nil => cases hatt
  | @cons att' a atts as hfile _ ih =>
    rcases List.mem_cons.1 hatt with rfl | hatt
    · obtain ⟨id, now, rfl⟩ := hfile
      exact ⟨_, List.mem_cons_self, rfl, rfl⟩
    · obtain ⟨b, hb, hsame⟩ := ih hatt
      exact ⟨b, List.mem_cons_of_mem _ hb, hsame⟩

theorem postMessage_stores [Platform] (pid : Nat) {input : PostInput} (hatt : att ∈ input.attachments) :
    Bus.Meets (·.db = db) (postMessage auth pid input) (fun _ pg => db.Stores pg.db att) fun _ => True := by
  have htarget : Bus.Meets (·.db = db) (resolveTarget auth input.channel input.«to»)
      (fun target pg => Goes auth db target ∧ pg.db = db) fun _ => True := resolveTarget_meets input.channel input.«to»
  have h := postMessage_posts (E := fun _ => True) trivial (fun _ => trivial) (fun _ => trivial) htarget pid
  refine ⟨fun pg hP r hr => ?_, fun _ _ _ _ => trivial⟩
  obtain ⟨target, m, files, rows, -, -, -, hpost, htables⟩ := h.answers pg hP r hr
  obtain ⟨a, ha, hsame⟩ := file_of_mem hpost.files hatt
  exact ⟨a, files, congrArg Db.attachments htables, ha, hsame⟩

end

/-! ### From the upload to the download -/

/-- The call uploads the file. -/
inductive Call.Carries (att : NewAttachment) : Call → Prop
  | task (key : String) : Carries att (.attachToTask key att)
  | message (id : Int) : Carries att (.attachToMessage id att)
  | post (input : PostInput) (h : att ∈ input.attachments) : Carries att (.postMessage input)

section
variable [Platform] {pg : Pg} {auth : AuthCtx} {att : NewAttachment}

theorem Call.Carries.stores {c : Call} (h : c.Carries att) {pid : Nat} (hok : (pg.call auth pid c).1.isOk = true) :
    pg.db.Stores (pg.next (.call auth pid c)).db att := by
  obtain ⟨hauth, r, hr⟩ := Pg.call_isOk hok
  cases h with
  | task key =>
    obtain ⟨_, -, h⟩ := (Pg.call_meets (c := .attachToTask key att) (g := .attached) pid hauth rfl
      (attachToTask_stores pid key att) rfl).1 r hr
    exact h
  | message id =>
    obtain ⟨_, -, h⟩ := (Pg.call_meets (c := .attachToMessage id att) (g := .attached) pid hauth rfl
      (attachToMessage_stores pid id att) rfl).1 r hr
    exact h
  | post input h =>
    obtain ⟨_, -, h⟩ := (Pg.call_meets (c := .postMessage input) (g := .posted) pid hauth rfl
      (postMessage_stores pid h) rfl).1 r hr
    exact h

omit [Platform] in
/-- A file is served as it is stored. -/
theorem getAttachment_serves (hv : pg.Valid) {a : Attachment} (ha : a ∈ pg.db.attachments) {c : AttachmentContent}
    (h : ((getAttachment auth a.id).exec pg).1 = .ok c) : c.filename = a.filename ∧ c.data = a.data := by
  unfold getAttachment at h
  rw [Bus.exec_bind_ok (Bus.exec_select _ _)] at h
  cases hrow : pg.db.attachmentRow? auth.teamId a.id with
  | none =>
    rw [hrow] at h
    cases h
  | some row =>
    rw [hrow] at h
    dsimp only at h
    have hsame : row.attachment = a := by
      obtain ⟨b, hb, hrest⟩ := Option.bind_eq_some_iff.1 hrow
      obtain ⟨uploader, -, hmade⟩ := Option.bind_eq_some_iff.1 hrest
      obtain rfl := Option.some.inj hmade
      have hid := List.find?_some hb
      simp only [Bool.and_eq_true, beq_iff_eq] at hid
      exact hv.keys.attachments.eq (List.mem_of_find?_eq_some hb) ha hid.1
    split at h
    · cases h
    · obtain rfl := Except.ok.inj h
      rw [← hsame]
      exact ⟨rfl, rfl⟩

omit [Platform] in
theorem decodeInput_ok {filename dataBase64 : String} {contentType : Option String}
    (h : decodeInput filename contentType dataBase64 = .ok att) : att.filename = trim filename ∧ trim filename ≠ "" := by
  unfold decodeInput at h
  dsimp only at h
  split at h
  · cases h
  next hempty =>
  split at h
  · cases h
  split at h
  · cases h
  split at h
  · cases h
  split at h
  · cases h
  · obtain rfl := Except.ok.inj h
    refine ⟨rfl, fun hnil => hempty ?_⟩
    rw [hnil]
    rfl

/-- A file that was uploaded, and is still stored, is downloaded to the path that is its trimmed name, which lies inside
    the current directory just when it has no `/` and is not `.` or `..`. -/
theorem download_inside_iff (hpg : pg.Reachable) {filename dataBase64 : String} {contentType : Option String}
    (hdecode : decodeInput filename contentType dataBase64 = .ok att) {pid : Nat} {c : Call} (hcarries : c.Carries att)
    (hok : (pg.call auth pid c).1.isOk = true) :
    ∃ a ∈ (pg.next (.call auth pid c)).db.attachments, a ∉ pg.db.attachments ∧ a.data = att.data ∧
      ∀ (es : List Event) (reader : AuthCtx) (pid' : Nat) (content : AttachmentContent),
        a ∈ ((pg.next (.call auth pid c)).after es).db.attachments →
          (((pg.next (.call auth pid c)).after es).call reader pid' (.getAttachment a.id)).1 =
            .ok (.attachment content) →
          ∃ path, Client.download none content.filename (Client.dataBase64 content) = .ok (path, att.data) ∧
            (Client.Inside path ↔
              '/' ∉ (trim filename).toList ∧ trim filename ≠ "." ∧ trim filename ≠ "..") := by
  obtain ⟨a, as, hattachments, hmem, hname, hdata⟩ := hcarries.stores hok
  have hreach := hpg.next (.call auth pid c)
  obtain ⟨htrim, hnonempty⟩ := decodeInput_ok hdecode
  refine ⟨a, ?_, fun hold => ?_, hdata, fun es reader pid' content hstill hserved => ?_⟩
  · rw [hattachments]
    exact List.mem_append_right _ hmem
  · -- Its row has an id of its own.
    have hkeys : Rows.Keyed (·.id) (pg.db.attachments ++ as) := hattachments ▸ hreach.valid.keys.attachments
    rw [Rows.Keyed, List.map_append] at hkeys
    exact List.disjoint_of_nodup_append hkeys (List.mem_map_of_mem hold) (List.mem_map_of_mem hmem)
  · have hauth := Pg.authentic_of_call hserved
    rw [Pg.call, if_pos hauth, Call.run, Bus.exec_map] at hserved
    cases hget : ((getAttachment reader a.id).exec ((pg.next (.call auth pid c)).after es)).1 with
    | error e =>
      rw [hget] at hserved
      cases hserved
    | ok content' =>
      rw [hget] at hserved
      obtain rfl := Reply.attachment.inj (Except.ok.inj hserved)
      obtain ⟨hfilename, hbytes⟩ := getAttachment_serves (hreach.after es).valid hstill hget
      refine ⟨trim filename, ?_, ?_⟩
      · rw [Client.download, Client.dataBase64, String.toList_ofList, Base64.decode_encode, hfilename, hname, htrim, hbytes,
          hdata]
        rfl
      · rw [Client.inside_iff]
        exact and_congr_right fun _ => ⟨And.right, fun h => ⟨hnonempty, h⟩⟩

end

section
open Sample
attribute [local instance] Platform.ascii

/-- A file with a name that leads out of the directory. -/
def hostile : NewAttachment where
  filename := "../.profile"
  contentType := "text/plain"
  data := [104, 105]
  nonempty := by decide
  fits := by decide

def sendsHostile : Call := .postMessage ⟨none, some "ann", false, "see the file", none, none, [hostile]⟩

/-- Bob sends it to ann. -/
theorem hostile_downloaded :
    ∃ a ∈ (((Pg.init 0).after crew).next (.call bob 0 sendsHostile)).db.attachments,
      a ∉ ((Pg.init 0).after crew).db.attachments ∧ a.data = hostile.data ∧
      ∀ (es : List Event) (reader : AuthCtx) (pid' : Nat) (content : AttachmentContent),
        a ∈ ((((Pg.init 0).after crew).next (.call bob 0 sendsHostile)).after es).db.attachments →
          (((((Pg.init 0).after crew).next (.call bob 0 sendsHostile)).after es).call reader pid' (.getAttachment a.id)).1 =
            .ok (.attachment content) →
          ∃ path, Client.download none content.filename (Client.dataBase64 content) = .ok (path, hostile.data) ∧
            (Client.Inside path ↔
              '/' ∉ (trim "../.profile").toList ∧ trim "../.profile" ≠ "." ∧ trim "../.profile" ≠ "..") :=
  @download_inside_iff Platform.ascii _ bob hostile ((@Pg.Reachable.init Platform.ascii 0).after crew) "../.profile" "aGk="
    (some "text/plain") rfl 0 sendsHostile (.post _ (List.mem_singleton_self _)) (by decide)

/-- Ann downloads it, to a path outside of her directory. -/
theorem hostile_escapes :
    decodeInput "../.profile" (some "text/plain") "aGk=" = .ok hostile ∧
      (∃ content, ((((Pg.init 0).after crew).next (.call bob 0 sendsHostile)).call ann 0 (.getAttachment 1)).1 =
          .ok (.attachment content) ∧
        Client.download none content.filename (Client.dataBase64 content) = .ok ("../.profile", [104, 105])) ∧
      Client.components "../.profile" = [.parentDir, .normal ".profile".toList] ∧
      ¬ Client.Inside "../.profile" ∧ ¬ Client.Inside "/root/.profile" :=
  ⟨rfl, ⟨⟨1, "../.profile", "text/plain", 2, "bob", ts 0, [104, 105]⟩, by decide, by decide⟩, by decide, by decide, by decide⟩

end
end CrewSync
