import CrewSync.Commands
import CrewSync.Theorems.Text
import Mathlib.Data.Bool.AllAny

/-! What the user types is what the server is asked for: of every command, the tool, its arguments and their defaults on
    the server make the call that the command means, and the files arrive byte for byte. -/

namespace CrewSync
open Strip

namespace Client
open Fields

/-! ### What a command means -/

/-- A file that the user names: its name, its type and its bytes. -/
structure Upload where
  filename : String
  contentType : String
  data : List UInt8

def upload (disk : Disk) (contentType : Option String) (path : String) : Except Failure Upload :=
  match disk path with
  | none => .error (.client s!"cannot read {path}")
  | some data => .ok ⟨uploadName path, contentType.getD (guessContentType path), data⟩

def refuse {α : Type} (text : String) : Except Failure α := .error (.server (.refused (.invalid text)))

/-- The file, if the bus takes it. -/
def Upload.accepted (u : Upload) : Except Failure NewAttachment :=
  let filename := trim u.filename
  if filename.isEmpty then refuse "attachment filename cannot be empty"
  else if filename.utf8ByteSize > 255 then refuse "attachment filename is limited to 255 characters"
  else if nonempty : u.data = [] then refuse s!"attachment '{filename}' is empty"
  else if fits : u.data.length > maxAttachmentBytes then
    let size := u.data.length
    refuse (s!"attachment '{filename}' is {size} bytes; the limit is {maxAttachmentBytes} " ++
      "(share a link or trim the file instead)")
  else .ok
    { filename, data := u.data, nonempty, fits := Nat.le_of_not_gt fits
      contentType := ((some (trim u.contentType)).filter fun c => !c.isEmpty).getD "application/octet-stream" }

/-- No list is sent for an empty one. -/
def given {α : Type} (as : List α) : Option (List α) := if as.isEmpty then none else some as

def LockCmd.meaning : LockCmd → Call
  | .acquire name ttlSeconds purpose => .acquireLock name (Tools.number ttlSeconds) purpose
  | .release name => .releaseLock name
  | .list => .listLocks

def TaskCmd.meaning : TaskCmd → Call
  | .create key title description dependsOn => .createTask { key, title, description, metadata := none, dependsOn }
  | .show key => .getTask key
  | .claim key leaseSeconds => .claimTask key (Tools.number leaseSeconds)
  | .next leaseSeconds => .claimNextTask (Tools.number leaseSeconds)
  | .renew key leaseSeconds => .renewTaskLease key (Tools.number leaseSeconds)
  | .release key => .releaseTask key
  | .done key result => .completeTask key result

def NoteCmd.meaning : NoteCmd → Call
  | .get key scope => .getNote scope key
  | .set key value scope tags => .setNote { scope, key, value, tags := given tags }
  | .rm key scope => .deleteNote scope key
  | .search query scope => .searchNotes query scope 50

/-- The call that the user asks for. -/
def ClientCmd.meaning (disk : Disk) (heard : Tools.Heard) : ClientCmd → Except Failure (Option Call)
  | .whoami => .ok (some .whoami)
  | .tools => .ok none
  | .send channel «to» body announce replyTo file => do
    let uploads ← file.mapM (upload disk none)
    if uploads.length > 8 then refuse "a message carries at most 8 attachments"
    else
      let attachments ← uploads.mapM Upload.accepted
      return some (.postMessage
        { channel, «to», announce, body, replyTo := Tools.number replyTo, metadata := none, attachments })
  | .attach key file contentType => do
    let att ← (← upload disk contentType file).accepted
    return some (.attachToTask key att)
  | .download id _ => .ok (some (.getAttachment id.toInt))
  | .ask «to» question timeoutSeconds resumeId => .ok (some (.askAgent
    { «to», question, timeoutSeconds := Tools.number timeoutSeconds, resumeMessageId := Tools.number resumeId }
    heard.received))
  | .read scope history limit allSessions =>
    .ok (some (.readMessages { scope, onlyNew := !history, limit := limit.toInt, allSessions }))
  | .search query limit => .ok (some (.searchMessages query limit.toInt))
  | .channels => .ok (some .listChannels)
  | .channelCreate name topic => .ok (some (.createChannel name topic))
  | .agents online => .ok (some (.listAgents online))
  | .beat status repo branch activity ttlSeconds =>
    .ok (some (.heartbeat { status, repo, branch, activity, ttlSeconds := Tools.number ttlSeconds }))
  | .tasks status mine => .ok (some (.listTasks status mine 50))
  | .task cmd => .ok (some cmd.meaning)
  | .notes scope tag => .ok (some (.listNotes scope tag 50))
  | .note cmd => .ok (some cmd.meaning)
  | .wait timeoutSeconds kinds allChannels => .ok (some (.waitForUpdates
    { timeoutSeconds := Tools.number timeoutSeconds, kinds := given kinds, allChannels } heard.received heard.grace))
  | .lock cmd => .ok (some cmd.meaning)
  | .digest hours allChannels => .ok (some (.teamDigest (some hours.toInt) allChannels))

/-! ### Commands without files -/

@[simp] theorem ok_bind {ε α β : Type} (a : α) (f : α → Except ε β) : (Except.ok a >>= f) = f a := rfl

@[simp] theorem unlessEmpty_eq {α : Type} [Serde α] (as : List α) : unlessEmpty as = opt (given as) := by
  unfold unlessEmpty given
  split <;> rfl

@[simp] theorem given_getD {α : Type} (as : List α) : (given as).getD [] = as := by
  cases as <;> rfl

variable {disk : Disk} {heard : Tools.Heard}

/-- The tool finds its arguments; then it makes its checks. -/
theorem requested_checked {cmd : ClientCmd} {tool : String} {o : Object} {handler : Tools.Handler}
    {checked : Except BusError Call} (hargs : args disk cmd = .ok (some (tool, o)))
    (htool : (Tools.toolRouter heard).lookup tool = some handler) (hread : handler (compactFields o) = .ok checked) :
    requested disk heard cmd = (checked.mapError (Failure.server ∘ Tools.Refusal.refused)).map some := by
  rw [requested, toCall, hargs]
  simp only [Except.map, Option.map_some, Tools.dispatch, htool, hread]
  cases checked <;> rfl

theorem requested_of {cmd : ClientCmd} {tool : String} {o : Object} {handler : Tools.Handler} {c : Call}
    (hargs : args disk cmd = .ok (some (tool, o))) (htool : (Tools.toolRouter heard).lookup tool = some handler)
    (hread : handler (compactFields o) = .ok (.ok c)) : requested disk heard cmd = .ok (some c) :=
  requested_checked hargs htool hread

theorem lock_requested (cmd : LockCmd) : requested disk heard (.lock cmd) = .ok (some cmd.meaning) := by
  cases cmd with
  | acquire name ttlSeconds purpose => exact requested_of rfl rfl (by simp [Tools.acquireLock, LockCmd.meaning])
  | release name => exact requested_of rfl rfl (by simp [Tools.releaseLock, LockCmd.meaning])
  | list => exact requested_of rfl rfl rfl

theorem task_requested (cmd : TaskCmd) : requested disk heard (.task cmd) = .ok (some cmd.meaning) := by
  cases cmd with
  | create key title description dependsOn =>
    exact requested_of rfl rfl (by simp [Tools.createTask, TaskCmd.meaning, Tools.anyValue, get_absent])
  | «show» key => exact requested_of rfl rfl (by simp [Tools.getTask, Tools.keyOnly, TaskCmd.meaning])
  | claim key leaseSeconds => exact requested_of rfl rfl (by simp [Tools.claimTask, Tools.keyAndLease, TaskCmd.meaning])
  | next leaseSeconds => exact requested_of rfl rfl (by simp [Tools.claimNextTask, TaskCmd.meaning])
  | renew key leaseSeconds =>
    exact requested_of rfl rfl (by simp [Tools.renewTaskLease, Tools.keyAndLease, TaskCmd.meaning])
  | release key => exact requested_of rfl rfl (by simp [Tools.releaseTask, Tools.keyOnly, TaskCmd.meaning])
  | done key result => exact requested_of rfl rfl (by simp [Tools.completeTask, TaskCmd.meaning])

theorem note_requested (cmd : NoteCmd) : requested disk heard (.note cmd) = .ok (some cmd.meaning) := by
  cases cmd with
  | get key scope => exact requested_of rfl rfl (by simp [Tools.getNote, Tools.noteName, NoteCmd.meaning])
  | set key value scope tags => exact requested_of rfl rfl (by simp [Tools.setNote, NoteCmd.meaning])
  | rm key scope => exact requested_of rfl rfl (by simp [Tools.deleteNote, Tools.noteName, NoteCmd.meaning])
  | search query scope =>
    exact requested_of rfl rfl (by simp [Tools.searchNotes, NoteCmd.meaning, Tools.defaultLimit])

/-! ### Files -/

/-- What the server reads of a file. -/
def Upload.input (u : Upload) : Tools.AttachmentInput :=
  { filename := u.filename, contentType := some u.contentType, dataBase64 := String.ofList (Base64.encode u.data) }

def Upload.fields (u : Upload) : Object :=
  [("filename", ser u.filename), ("content_type", ser u.contentType), ("data_base64", ser u.input.dataBase64)]

theorem ser_input (u : Upload) : Value.obj u.fields = ser u.input := rfl

theorem attachmentJson_eq (disk : Disk) (path : String) (contentType : Option String) :
    (attachmentJson disk path contentType).mapError Failure.client = (upload disk contentType path).map Upload.fields := by
  unfold attachmentJson upload
  cases disk path <;> rfl

theorem mem_encode {data : List UInt8} {c : Char} (h : c ∈ Base64.encode data) : c ∈ '=' :: Base64.alphabet := by
  have hdigit : ∀ n, Base64.digit n ∈ '=' :: Base64.alphabet := by
    intro n
    by_cases hn : n < Base64.alphabet.length
    · rw [Base64.digit, List.getD_eq_getElem?_getD, List.getElem?_eq_getElem hn]
      exact List.mem_cons_of_mem _ (List.getElem_mem hn)
    · rw [Base64.digit, List.getD_eq_getElem?_getD, List.getElem?_eq_none (Nat.le_of_not_gt hn)]
      exact List.mem_cons_self
  induction data using Base64.encode.induct with
  | case1 => cases h
  | case2 a | case3 a b =>
    simp only [Base64.encode, List.mem_cons, List.not_mem_nil, or_false] at h
    rcases h with rfl | rfl | rfl | rfl <;> first | exact hdigit _ | exact List.mem_cons_self
  | case4 a b c rest ih =>
    simp only [Base64.encode, List.mem_cons] at h
    rcases h with rfl | rfl | rfl | rfl | h
    · exact hdigit _
    · exact hdigit _
    · exact hdigit _
    · exact hdigit _
    · exact ih h

/-- The text of a file has no blanks to trim. -/
theorem trim_encode (data : List UInt8) : trim (String.ofList (Base64.encode data)) = String.ofList (Base64.encode data) := by
  have hblank : ∀ c ∈ '=' :: Base64.alphabet, isWhitespace c = false := List.all_iff_forall_prop.1 (by decide)
  refine trim_eq_self_iff.2 (.of_forall fun c hc => hblank c ?_)
  rw [String.toList_ofList] at hc
  exact mem_encode hc

/-- The bytes of the file, whatever they are, are what the server decodes. -/
theorem decodeInput_input (u : Upload) :
    (decodeInput u.input.filename u.input.contentType u.input.dataBase64).mapError (Failure.server ∘ Tools.Refusal.refused) =
      u.accepted := by
  unfold decodeInput Upload.accepted Upload.input
  simp only [trim_encode, String.toList_ofList, Base64.decode_encode, Option.map_some]
  split_ifs <;> rfl

theorem attach_requested (key file : String) (contentType : Option String) :
    requested disk heard (.attach key file contentType) = (ClientCmd.attach key file contentType).meaning disk heard := by
  simp only [ClientCmd.meaning, upload]
  cases hfile : disk file with
  | none => simp only [requested, toCall, args, attachmentJson, hfile]; rfl
  | some data =>
    have hargs : args disk (.attach key file contentType) = .ok (some ("attach_file",
        Upload.fields ⟨uploadName file, contentType.getD (guessContentType file), data⟩ ++ [("task", ser key)])) := by
      simp only [args, attachmentJson, hfile]
      rfl
    rw [requested_checked hargs rfl (by simp [Tools.attachFile, Upload.fields, Tools.number]; rfl), ok_bind,
      ← decodeInput_input]
    simp only [Upload.input]
    cases decodeInput _ _ _ <;> rfl

/-- The files of a message are read one after the other. -/
theorem attachmentJson_mapM (file : List String) :
    (file.mapM fun path => attachmentJson disk path none).mapError Failure.client =
      (file.mapM (upload disk none)).map (List.map Upload.fields) := by
  induction file with
  | nil => rfl
  | cons path file ih =>
    have hone := attachmentJson_eq disk path none
    rw [List.mapM_cons, List.mapM_cons]
    cases hpath : upload disk none path with
    | error e =>
      rw [hpath] at hone
      cases hjson : attachmentJson disk path none with
      | error text =>
        rw [hjson] at hone
        exact congrArg Except.error (Except.error.inj hone)
      | ok o => rw [hjson] at hone; cases hone
    | ok u =>
      rw [hpath] at hone
      cases hjson : attachmentJson disk path none with
      | error text => rw [hjson] at hone; cases hone
      | ok o =>
        rw [hjson] at hone
        obtain rfl := Except.ok.inj hone
        rw [ok_bind, ok_bind]
        revert ih
        cases file.mapM (upload disk none) <;> cases (file.mapM fun path => attachmentJson disk path none) <;> intro ih
        · exact congrArg Except.error (Except.error.inj ih)
        · cases ih
        · cases ih
        · exact congrArg Except.ok (congrArg (List.cons u.fields) (Except.ok.inj ih))

theorem decodeInput_mapM (uploads : List Upload) :
    (uploads.mapM ((fun a => decodeInput a.filename a.contentType a.dataBase64) ∘ Upload.input)).mapError
      (Failure.server ∘ Tools.Refusal.refused) = uploads.mapM Upload.accepted := by
  induction uploads with
  | nil => rfl
  | cons u uploads ih =>
    rw [List.mapM_cons, List.mapM_cons, ← decodeInput_input, ← ih, Function.comp_apply]
    cases decodeInput u.input.filename u.input.contentType u.input.dataBase64 with
    | error e => rfl
    | ok att => cases uploads.mapM ((fun a => decodeInput a.filename a.contentType a.dataBase64) ∘ Upload.input) <;> rfl

/-- The field of the files. -/
theorem files_value (uploads : List Upload) :
    (if (uploads.map Upload.fields).isEmpty then Value.null else .arr ((uploads.map Upload.fields).map .obj)) =
      opt (given (uploads.map Upload.input)) := by
  cases uploads with
  | nil => rfl
  | cons u uploads =>
    refine congrArg Value.arr ?_
    rw [List.map_map, List.map_map]
    exact List.map_congr_left fun u _ => ser_input u

theorem send_requested (channel «to» : Option String) (body : String) (announce : Bool) (replyTo : Option Int64)
    (file : List String) : requested disk heard (.send channel «to» body announce replyTo file) =
      (ClientCmd.send channel «to» body announce replyTo file).meaning disk heard := by
  have hfiles := @attachmentJson_mapM disk file
  simp only [ClientCmd.meaning]
  cases hups : file.mapM (upload disk none) with
  | error e =>
    rw [hups] at hfiles
    cases hjson : file.mapM fun path => attachmentJson disk path none with
    | ok o => rw [hjson] at hfiles; cases hfiles
    | error text =>
      rw [hjson] at hfiles
      simp only [requested, toCall, args, hjson]
      exact congrArg Except.error (Except.error.inj hfiles)
  | ok uploads =>
    rw [hups] at hfiles
    cases hjson : file.mapM fun path => attachmentJson disk path none with
    | error text => rw [hjson] at hfiles; cases hfiles
    | ok o =>
      rw [hjson] at hfiles
      obtain rfl := Except.ok.inj hfiles
      have hargs : args disk (.send channel «to» body announce replyTo file) = .ok (some ("post_message",
          [("channel", opt channel), ("to", opt «to»), ("body", ser body), ("announce", ser announce),
            ("reply_to", opt replyTo), ("attachments", opt (given (uploads.map Upload.input)))])) := by
        rw [← files_value]
        simp only [args, hjson]
        rfl
      rw [requested_checked hargs rfl (by simp [Tools.postMessage, Tools.anyValue, get_absent]; rfl), ok_bind,
        ← decodeInput_mapM]
      split
      · rfl
      · cases uploads.mapM ((fun a => decodeInput a.filename a.contentType a.dataBase64) ∘ Upload.input) <;> rfl

/-- Whatever is typed, and whatever the files hold, the server is asked for what was meant; where it is not, the client
    could not read a file or the bus does not take it. -/
theorem requested_meaning (disk : Disk) (heard : Tools.Heard) (cmd : ClientCmd) :
    requested disk heard cmd = cmd.meaning disk heard := by
  cases cmd with
  | whoami => exact requested_of rfl rfl rfl
  | tools => rfl
  | send channel «to» body announce replyTo file => exact send_requested ..
  | attach key file contentType => exact attach_requested ..
  | download id out => exact requested_of rfl rfl (by simp [Tools.getAttachment])
  | ask «to» question timeoutSeconds resumeId => exact requested_of rfl rfl (by simp [Tools.askAgent])
  | read scope history limit allSessions => exact requested_of rfl rfl (by simp [Tools.readMessages])
  | search query limit => exact requested_of rfl rfl (by simp [Tools.searchMessages])
  | channels => exact requested_of rfl rfl rfl
  | channelCreate name topic => exact requested_of rfl rfl (by simp [Tools.createChannel])
  | agents online => exact requested_of rfl rfl (by simp [Tools.listAgents])
  | beat status repo branch activity ttlSeconds => exact requested_of rfl rfl (by simp [Tools.heartbeat])
  | tasks status mine => exact requested_of rfl rfl (by simp [Tools.listTasks, Tools.defaultLimit])
  | task cmd => exact task_requested cmd
  | notes scope tag => exact requested_of rfl rfl (by simp [Tools.listNotes, Tools.defaultLimit])
  | note cmd => exact note_requested cmd
  | wait timeoutSeconds kinds allChannels => exact requested_of rfl rfl (by simp [Tools.waitForUpdates])
  | lock cmd => exact lock_requested cmd
  | digest hours allChannels => exact requested_of rfl rfl (by simp [Tools.teamDigest, Tools.number])

end Client
end CrewSync
