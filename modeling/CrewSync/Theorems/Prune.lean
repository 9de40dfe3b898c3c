import CrewSync.Footprint.Calls
import CrewSync.Theorems.Reading
import Mathlib.Algebra.BigOperators.Group.List.Basic

/-! A prune against the tables without the old history: what it deletes, what it reports, and that a dry run reports the
    same. -/

namespace CrewSync

/-! ### Without the old history -/

/-- A message of the team from before the instant. -/
def Message.Old (team : Uuid) (before : Time) (m : Message) : Prop := m.teamId = team ∧ m.createdAt < before

instance (team : Uuid) (before : Time) (m : Message) : Decidable (m.Old team before) :=
  inferInstanceAs (Decidable (_ ∧ _))

namespace Db
variable (db : Db) (team : Uuid) (before : Time)

/-- The id is that of such a message. -/
abbrev OldMessage (id : Int) : Prop := ∃ m ∈ db.messages, m.id = id ∧ m.Old team before

/-- A revision of one of the team's notes from before the instant. -/
abbrev OldRevision (r : NoteRevision) : Prop :=
  (∃ n ∈ db.notes, r.noteId = n.id ∧ n.teamId = team) ∧ r.createdAt < before

abbrev OldTaskEvent (e : TaskEvent) : Prop :=
  (∃ t ∈ db.tasks, e.taskId = t.id ∧ t.teamId = team) ∧ e.createdAt < before

/-- The tables without that history, and without the attachments of the messages. A reply to a message that is gone
    replies to nothing. -/
def without : Db :=
  { db with
    messages := (db.messages.filter fun m => ¬ m.Old team before).map fun m =>
      { m with replyTo := m.replyTo.filter fun id => ¬ db.OldMessage team before id }
    attachments := db.attachments.filter fun a => ¬ ∃ id ∈ a.messageId, db.OldMessage team before id
    noteRevisions := db.noteRevisions.filter fun r => ¬ db.OldRevision team before r
    taskEvents := db.taskEvents.filter fun e => ¬ db.OldTaskEvent team before e }

def storedBytes : Int := (db.attachments.map (·.sizeBytes)).sum

end Db

/-- The report counts the rows, and the bytes, that `db` has and `db'` has not. -/
structure PruneReport.Counts (r : PruneReport) (db db' : Db) : Prop where
  messages : db'.messages.length + r.messages = db.messages.length
  noteRevisions : db'.noteRevisions.length + r.noteRevisions = db.noteRevisions.length
  taskEvents : db'.taskEvents.length + r.taskEvents = db.taskEvents.length
  freed : db'.storedBytes + r.attachmentsFreedBytes = db.storedBytes

section
variable {pg : Pg} {team : Uuid} {days : Int} {dryRun : Bool} {before : Time}

/-! ### Its statements -/

/-- The writes of the three deletions. -/
def pruneWrites (db : Db) (team : Uuid) (before : Time) : List Write :=
  [.deleteNoteRevisions (oldRevision db team before), .deleteTaskEvents (oldTaskEvent db team before),
    .deleteMessages (oldMessage team before)]

def pruneReport (db : Db) (team : Uuid) (before : Time) (dryRun : Bool) : PruneReport where
  messages := (db.messages.filter (oldMessage team before)).length
  noteRevisions := (db.noteRevisions.filter (oldRevision db team before)).length
  taskEvents := (db.taskEvents.filter (oldTaskEvent db team before)).length
  attachmentsFreedBytes := freedBytes db team before
  dryRun

/-- A statement in a transaction that locks nothing and leaves the sequences alone. -/
theorem Conn.exec_tx {β : Type} {pid : Nat} {now : Time} {us : List Write} {l : Stmt} {s : Sql β} (b : β)
    (ws : List Write) (h : s { pg with db := pg.db.write us, now } = .ok (b, pg.seqs, ws)) :
    (Conn.execute ⟨pid, some ⟨now, us⟩⟩ l none s).exec pg = (.ok (b, ⟨pid, some ⟨now, us ++ ws⟩⟩), pg) := by
  have hexec : (Conn.execute ⟨pid, some ⟨now, us⟩⟩ l none s).exec pg =
      (Conn.answer ⟨pid, some ⟨now, us⟩⟩ s pg, Conn.effect ⟨pid, some ⟨now, us⟩⟩ none s pg) := rfl
  rw [hexec]
  simp only [Conn.answer, Conn.effect, Conn.view, h, Option.map_some, Option.map_none, Option.toList_none, List.append_nil]

theorem pruneBody_exec (pid : Nat) (h : cutoff pg.now days = .ok before) :
    (pruneBody team days dryRun ⟨pid, some ⟨pg.now, []⟩⟩).exec pg =
      (.ok (pruneReport pg.db team before dryRun, ⟨pid, some ⟨pg.now, pruneWrites pg.db team before⟩⟩), pg) := by
  have hfreed : (Conn.select ⟨pid, some ⟨pg.now, []⟩⟩ .attachments
      fun pg => (cutoff pg.now days).map (freedBytes pg.db team)).exec pg = (.ok (.ok (freedBytes pg.db team before)), pg) :=
    congrArg (fun r => (Except.ok (Except.map (freedBytes pg.db team) r), pg)) h
  unfold pruneBody
  rw [Bus.exec_bind_ok hfreed, Bus.exec_bind_ok (Bus.exec_check _)]
  rw [Bus.exec_bind_ok (Conn.exec_tx (pg.db.noteRevisions.filter (oldRevision pg.db team before)).length
    [.deleteNoteRevisions (oldRevision pg.db team before)] ?_)]
  rw [Bus.exec_bind_ok (Conn.exec_tx (pg.db.taskEvents.filter (oldTaskEvent pg.db team before)).length
    [.deleteTaskEvents (oldTaskEvent pg.db team before)] ?_)]
  rw [Bus.exec_bind_ok (Conn.exec_tx (pg.db.messages.filter (oldMessage team before)).length
    [.deleteMessages (oldMessage team before)] ?_)]
  · rfl
  · simp only [pruneMessages, h]
    rfl
  · simp only [pruneTaskEvents, h]
    rfl
  · simp only [pruneRevisions, h]
    rfl

theorem pruneBody_refused (pid : Nat) {e : BusError} (h : cutoff pg.now days = .error e) :
    (pruneBody team days dryRun ⟨pid, some ⟨pg.now, []⟩⟩).exec pg = (.error e, pg) := by
  have hfreed : (Conn.select ⟨pid, some ⟨pg.now, []⟩⟩ .attachments
      fun pg => (cutoff pg.now days).map (freedBytes pg.db team)).exec pg = (.ok (.error e), pg) :=
    congrArg (fun r => (Except.ok (Except.map (freedBytes pg.db team) r), pg)) h
  unfold pruneBody
  rw [Bus.exec_bind_ok hfreed, Bus.exec_bind_error (Bus.exec_check _)]

/-! ### What they delete and count -/

theorem oldMessage_iff {m : Message} : oldMessage team before m = true ↔ m.Old team before := by
  simp [oldMessage, Message.Old]

theorem oldRevision_iff {db : Db} {r : NoteRevision} :
    oldRevision db team before r = true ↔ db.OldRevision team before r := by
  simp [oldRevision]

theorem oldTaskEvent_iff {db : Db} {e : TaskEvent} :
    oldTaskEvent db team before e = true ↔ db.OldTaskEvent team before e := by
  simp [oldTaskEvent]

theorem gone_iff {db : Db} {id : Int} :
    (db.messages.any fun m => m.id == id && oldMessage team before m) = true ↔ db.OldMessage team before id := by
  simp [oldMessage_iff]

/-- Rows that a condition leaves are those that fail its meaning. -/
theorem delete_eq_filter {α : Type} {p : α → Bool} {q : α → Prop} [DecidablePred q] (h : ∀ r, p r = true ↔ q r)
    (rows : List α) : Rows.delete p rows = rows.filter fun r => ¬ q r := by
  refine List.filter_congr fun r _ => Bool.eq_iff_iff.2 ?_
  rw [Bool.not_eq_true', ← Bool.not_eq_true, h, decide_eq_true_iff]

theorem write_pruneWrites (db : Db) (team : Uuid) (before : Time) :
    db.write (pruneWrites db team before) = db.without team before := by
  have hwrite : db.write (pruneWrites db team before) = { db with
      messages := (Rows.delete (oldMessage team before) db.messages).map fun m =>
        { m with replyTo := m.replyTo.filter fun r => !db.messages.any fun o => o.id == r && oldMessage team before o }
      attachments := Rows.delete (fun a => a.messageId.any fun id =>
        db.messages.any fun m => m.id == id && oldMessage team before m) db.attachments
      noteRevisions := Rows.delete (oldRevision db team before) db.noteRevisions
      taskEvents := Rows.delete (oldTaskEvent db team before) db.taskEvents } := rfl
  have hreply : ∀ r, (!db.messages.any fun o => o.id == r && oldMessage team before o) =
      decide (¬ db.OldMessage team before r) := fun r => by
    rw [Bool.eq_iff_iff, Bool.not_eq_true', ← Bool.not_eq_true, gone_iff, decide_eq_true_iff]
  have hfile : ∀ a : Attachment, (a.messageId.any fun id =>
      db.messages.any fun m => m.id == id && oldMessage team before m) = true ↔
        ∃ id ∈ a.messageId, db.OldMessage team before id := fun a => by
    simp only [Option.any_eq_true, gone_iff, Option.mem_def]
  rw [hwrite, delete_eq_filter (fun _ => oldMessage_iff), delete_eq_filter (fun _ => oldRevision_iff),
    delete_eq_filter (fun _ => oldTaskEvent_iff), delete_eq_filter hfile]
  simp only [hreply]
  rfl

/-- In a valid state the bytes that the report names are those of the attachments that go. -/
theorem freedBytes_eq (hv : pg.Valid) : freedBytes pg.db team before =
    ((pg.db.attachments.filter fun a => ∃ id ∈ a.messageId, pg.db.OldMessage team before id).map (·.sizeBytes)).sum := by
  unfold freedBytes
  congr 2
  refine List.filter_congr fun a ha => Bool.eq_iff_iff.2 ?_
  simp only [Bool.and_eq_true, beq_iff_eq, List.any_eq_true, decide_eq_true_iff]
  constructor
  · rintro ⟨hteam, m, hm, hid, hold⟩
    obtain ⟨o, ho, hoid, hoteam⟩ : ∃ o ∈ pg.db.messages, o.id = m.id ∧ o.teamId = a.teamId := by
      simpa [Db.messageIn] using hv.refs.files a ha m.id hid
    obtain rfl := hv.keys.messages.eq ho hm hoid
    exact ⟨o.id, hid, o, ho, rfl, hoteam.trans hteam, hold⟩
  · rintro ⟨_, hid, m, hm, rfl, hteam, hold⟩
    obtain ⟨o, ho, hoid, hoteam⟩ : ∃ o ∈ pg.db.messages, o.id = m.id ∧ o.teamId = a.teamId := by
      simpa [Db.messageIn] using hv.refs.files a ha m.id hid
    obtain rfl := hv.keys.messages.eq ho hm hoid
    exact ⟨hoteam.symm.trans hteam, o, ho, hid, hold⟩

theorem length_filter_not {α : Type} {p : α → Bool} {q : α → Prop} [DecidablePred q] (h : ∀ r, p r = true ↔ q r)
    (rows : List α) : (rows.filter fun r => ¬ q r).length + (rows.filter p).length = rows.length := by
  rw [← delete_eq_filter h, Nat.add_comm]
  exact (List.length_eq_length_filter_add p).symm

theorem pruneReport_counts (hv : pg.Valid) (team : Uuid) (before : Time) (dryRun : Bool) :
    (pruneReport pg.db team before dryRun).Counts pg.db (pg.db.without team before) where
  messages := by
    simp only [Db.without, List.length_map]
    exact length_filter_not (fun _ => oldMessage_iff) _
  noteRevisions := length_filter_not (fun _ => oldRevision_iff) _
  taskEvents := length_filter_not (fun _ => oldTaskEvent_iff) _
  freed := by
    have hsum := List.sum_map_filter_add_sum_map_filter_not
      (fun a : Attachment => ∃ id ∈ a.messageId, pg.db.OldMessage team before id) (·.sizeBytes) pg.db.attachments
    simp only [pruneReport, freedBytes_eq hv, Db.storedBytes, Db.without]
    omega

/-! ### The command -/

/-- The windows that a prune refuses: it keeps nothing, is no 32-bit count of days, or begins before time does. -/
def BadWindow (now : Time) (days : Int) : Prop :=
  days < 1 ∨ 2147483647 < days ∨ now - secs (86400 * days) < minTimestamp

/-- A bad window is refused and nothing changes. Otherwise an applied prune takes exactly the old history of the team, its
    report counts what went, and a dry run gives the same report and changes nothing. -/
theorem prune_exact (hv : pg.Valid) (pid : Nat) (team : Uuid) (days : Int) :
    (BadWindow pg.now days → ∀ dryRun, ∃ e, ((prune pid team days dryRun).exec pg).1 = .error e ∧
      ((prune pid team days dryRun).exec pg).2.db = pg.db ∧ ((prune pid team days dryRun).exec pg).2.seqs = pg.seqs) ∧
    (¬ BadWindow pg.now days → ∃ r : PruneReport,
      r.Counts pg.db (pg.db.without team (pg.now - secs (86400 * days))) ∧
      ∀ dryRun, ((prune pid team days dryRun).exec pg).1 = .ok { r with dryRun } ∧
        ((prune pid team days dryRun).exec pg).2.db =
          (if dryRun then pg.db else pg.db.without team (pg.now - secs (86400 * days))) ∧
        ((prune pid team days dryRun).exec pg).2.seqs = pg.seqs) := by
  have hbegin : (Conn.begin pid).exec pg = (.ok ⟨pid, some ⟨pg.now, []⟩⟩, pg) := rfl
  constructor
  · intro hbad dryRun
    by_cases hlow : days < 1
    · simp only [prune, if_pos hlow]
      exact ⟨_, rfl, rfl, rfl⟩
    by_cases hhigh : days > maxPruneDays
    · simp only [prune, if_neg hlow, if_pos hhigh]
      exact ⟨_, rfl, rfl, rfl⟩
    simp only [prune, if_neg hlow, if_neg hhigh]
    have hcutoff : cutoff pg.now days = .error .db :=
      if_pos ((hbad.resolve_left hlow).resolve_left hhigh)
    rw [Bus.exec_bind_ok hbegin, Bus.exec_bind_ok (Bus.exec_attempt _), pruneBody_refused pid hcutoff]
    exact ⟨_, rfl, rfl, rfl⟩
  · intro hgood
    obtain ⟨hlow, hgood⟩ := not_or.1 hgood
    obtain ⟨hhigh, hmin⟩ := not_or.1 hgood
    have hhigh : ¬ days > maxPruneDays := hhigh
    have hcutoff : cutoff pg.now days = .ok (pg.now - secs (86400 * days)) := if_neg hmin
    refine ⟨_, pruneReport_counts hv team _ false, fun dryRun => ?_⟩
    simp only [prune, if_neg hlow, if_neg hhigh]
    rw [Bus.exec_bind_ok hbegin, Bus.exec_bind_ok (Bus.exec_attempt _), pruneBody_exec pid hcutoff]
    cases dryRun with
    | true => exact ⟨rfl, rfl, rfl⟩
    | false => exact ⟨rfl, write_pruneWrites .., rfl⟩

end

section
open Sample
attribute [local instance] Platform.ascii

/-- The crew with one message, two days later. -/
def stalePost : Pg := onePost.after [.tick 172800000000]

/-- Its message is a day too old. -/
theorem stalePost_pruned : ∃ r : PruneReport, r.Counts stalePost.db (stalePost.db.without 0 (secs 86400)) ∧
    ((prune 0 0 1 true).exec stalePost).1 = .ok { r with dryRun := true } ∧
    ((prune 0 0 1 false).exec stalePost).2.db = stalePost.db.without 0 (secs 86400) := by
  have hbefore : stalePost.now - secs (86400 * 1) = secs 86400 := by decide
  obtain ⟨r, hcounts, hr⟩ := (@prune_exact stalePost (onePost_valid.after _) 0 0 1).2 (by
    rw [BadWindow, hbefore]
    decide)
  rw [hbefore] at hcounts hr
  exact ⟨r, hcounts, (hr true).1, (hr false).2.1⟩

end
end CrewSync
