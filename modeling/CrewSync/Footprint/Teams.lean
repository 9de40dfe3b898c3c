import CrewSync.Lib.Parts
import CrewSync.Footprint.Calls

/-! The rows of one team among those of others: a call or a prune of another team leaves them as they are. -/

namespace CrewSync

/-- The rows of a team. A presence and a cursor belong to the team of their agent, a dependency and an event to that of
    their task, a revision to that of its note. -/
def Db.ofTeam (db : Db) (team : Uuid) : Db where
  teams := db.teams.filter (·.id == team)
  agents := db.agents.filter (·.teamId == team)
  presence := db.presence.filter fun p => db.agentIn p.agentId team
  channels := db.channels.filter (·.teamId == team)
  messages := db.messages.filter (·.teamId == team)
  cursors := db.cursors.filter fun c => db.agentIn c.agentId team
  tasks := db.tasks.filter (·.teamId == team)
  taskDeps := db.taskDeps.filter fun d => db.taskIn d.taskId team
  taskEvents := db.taskEvents.filter fun e => db.taskIn e.taskId team
  notes := db.notes.filter (·.teamId == team)
  noteRevisions := db.noteRevisions.filter fun r => db.noteIn r.noteId team
  locks := db.locks.filter (·.teamId == team)
  attachments := db.attachments.filter (·.teamId == team)
  webhooks := db.webhooks.filter (·.teamId == team)
  deliveries := db.deliveries.filter (·.teamId == team)
  notified := []

section
variable {db : Db} {seqs : Seqs} {team other agent id : Uuid}

/-! ### Who is in a team -/

theorem agentIn_iff : db.agentIn id team = true ↔ ∃ a ∈ db.agents, a.id = id ∧ a.teamId = team := by
  simp only [Db.agentIn, List.any_eq_true, Bool.and_eq_true, beq_iff_eq]

theorem taskIn_iff : db.taskIn id team = true ↔ ∃ t ∈ db.tasks, t.id = id ∧ t.teamId = team := by
  simp only [Db.taskIn, List.any_eq_true, Bool.and_eq_true, beq_iff_eq]

theorem noteIn_iff : db.noteIn id team = true ↔ ∃ n ∈ db.notes, n.id = id ∧ n.teamId = team := by
  simp only [Db.noteIn, List.any_eq_true, Bool.and_eq_true, beq_iff_eq]

theorem channelIn_iff : db.channelIn id team = true ↔ ∃ c ∈ db.channels, c.id = id ∧ c.teamId = team := by
  simp only [Db.channelIn, List.any_eq_true, Bool.and_eq_true, beq_iff_eq]

theorem messageIn_iff {message : Int} :
    db.messageIn message team = true ↔ ∃ m ∈ db.messages, m.id = message ∧ m.teamId = team := by
  simp only [Db.messageIn, List.any_eq_true, Bool.and_eq_true, beq_iff_eq]

/-- Nothing is in two teams. -/
theorem Db.Keys.agent_team (hk : db.Keys seqs) (h : db.agentIn id team = true) :
    ∀ r ∈ db.agents, r.id = id → r.teamId = team := by
  intro r hr hid
  rcases agentIn_iff.1 h with ⟨s, hs, rfl, rfl⟩
  rw [hk.agents.eq hr hs hid]

theorem Db.Keys.channel_team (hk : db.Keys seqs) (h : db.channelIn id team = true) :
    ∀ r ∈ db.channels, r.id = id → r.teamId = team := by
  intro r hr hid
  rcases channelIn_iff.1 h with ⟨s, hs, rfl, rfl⟩
  rw [hk.channels.eq hr hs hid]

theorem Db.Keys.message_team {id : Int} (hk : db.Keys seqs) (h : db.messageIn id team = true) :
    ∀ r ∈ db.messages, r.id = id → r.teamId = team := by
  intro r hr hid
  rcases messageIn_iff.1 h with ⟨s, hs, rfl, rfl⟩
  rw [hk.messages.eq hr hs hid]

theorem Db.Keys.task_team (hk : db.Keys seqs) (h : db.taskIn id team = true) :
    ∀ r ∈ db.tasks, r.id = id → r.teamId = team := by
  intro r hr hid
  rcases taskIn_iff.1 h with ⟨s, hs, rfl, rfl⟩
  rw [hk.tasks.eq hr hs hid]

theorem Db.Keys.note_team (hk : db.Keys seqs) (h : db.noteIn id team = true) :
    ∀ r ∈ db.notes, r.id = id → r.teamId = team := by
  intro r hr hid
  rcases noteIn_iff.1 h with ⟨s, hs, rfl, rfl⟩
  rw [hk.notes.eq hr hs hid]

theorem Db.Keys.agentIn_eq (hk : db.Keys seqs) (h : db.agentIn id team = true) (h' : db.agentIn id other = true) :
    other = team := by
  rcases agentIn_iff.1 h' with ⟨r, hr, hid, rfl⟩
  exact hk.agent_team h r hr hid

theorem Db.Keys.agentIn_apart (hk : db.Keys seqs) (h : db.agentIn id other = true) (hne : other ≠ team) :
    db.agentIn id team = false := by
  rw [← Bool.not_eq_true]
  intro h'
  rcases agentIn_iff.1 h' with ⟨r, hr, hid, rfl⟩
  exact hne (hk.agent_team h r hr hid).symm

theorem Db.Keys.taskIn_apart (hk : db.Keys seqs) (h : db.taskIn id other = true) (hne : other ≠ team) :
    db.taskIn id team = false := by
  rw [← Bool.not_eq_true]
  intro h'
  rcases taskIn_iff.1 h' with ⟨r, hr, hid, rfl⟩
  exact hne (hk.task_team h r hr hid).symm

theorem Db.Keys.noteIn_apart (hk : db.Keys seqs) (h : db.noteIn id other = true) (hne : other ≠ team) :
    db.noteIn id team = false := by
  rw [← Bool.not_eq_true]
  intro h'
  rcases noteIn_iff.1 h' with ⟨r, hr, hid, rfl⟩
  exact hne (hk.note_team h r hr hid).symm

theorem Db.Keys.messageIn_apart {id : Int} (hk : db.Keys seqs) (h : db.messageIn id other = true) (hne : other ≠ team) :
    db.messageIn id team = false := by
  rw [← Bool.not_eq_true]
  intro h'
  rcases messageIn_iff.1 h' with ⟨r, hr, hid, rfl⟩
  exact hne (hk.message_team h r hr hid).symm

/-! ### What a write leaves of the other teams -/

/-- A task is in a team as long as the rows of the team are the same. -/
theorem taskIn_congr {tasks : List Task} (h : tasks.filter (·.teamId == team) = db.tasks.filter (·.teamId == team)) :
    ({ db with tasks } : Db).taskIn id team = db.taskIn id team := by
  rw [Db.taskIn, ← Rows.any_filter_and, h, Rows.any_filter_and]
  rfl

theorem noteIn_congr {notes : List Note} {noteRevisions : List NoteRevision}
    (h : notes.filter (·.teamId == team) = db.notes.filter (·.teamId == team)) :
    ({ db with notes, noteRevisions } : Db).noteIn id team = db.noteIn id team := by
  rw [Db.noteIn, ← Rows.any_filter_and, h, Rows.any_filter_and]
  rfl

theorem ofTeam_tasks {tasks : List Task} (h : tasks.filter (·.teamId == team) = db.tasks.filter (·.teamId == team)) :
    ({ db with tasks } : Db).ofTeam team = db.ofTeam team := by
  have hin : ∀ id, ({ db with tasks } : Db).taskIn id team = db.taskIn id team := fun _ => taskIn_congr h
  simp only [Db.ofTeam, h, hin]
  rfl

theorem ofTeam_notes {notes : List Note} {noteRevisions : List NoteRevision}
    (h : notes.filter (·.teamId == team) = db.notes.filter (·.teamId == team))
    (hrevisions : (noteRevisions.filter fun r => db.noteIn r.noteId team) =
      db.noteRevisions.filter fun r => db.noteIn r.noteId team) :
    ({ db with notes, noteRevisions } : Db).ofTeam team = db.ofTeam team := by
  have hin : ∀ id, ({ db with notes, noteRevisions } : Db).noteIn id team = db.noteIn id team := fun _ => noteIn_congr h
  simp only [Db.ofTeam, h, hin, hrevisions]
  rfl

/-- A write for another team leaves the rows of the team alone. -/
theorem ofTeam_own {base : Seqs} {tables : List Table} {now : Time} {w : Write} (hk : db.Keys seqs)
    (hw : w.Legal base seqs db) (hcaller : db.agentIn agent other = true) (hown : Own agent other tables now db w)
    (hne : other ≠ team) : (w.apply db).ofTeam team = db.ofTeam team := by
  have hauthor := hown.author
  have hoff : ∀ t, t = other → (t == team) = false := fun t ht => beq_false_of_ne (ht ▸ hne)
  have hagent : db.agentIn agent team = false := hk.agentIn_apart hcaller hne
  cases w with
  | putPresence r =>
    have hq : db.agentIn r.agentId team = false := hauthor ▸ hagent
    have h : (Rows.put Db.presenceKey r db.presence).filter (fun p => db.agentIn p.agentId team) = _ :=
      Rows.filter_put hq fun p _ hkey => by
        have hid : p.agentId = r.agentId := congrArg Prod.fst hkey
        rw [hid, hq]
    exact congrArg (fun presence => { db.ofTeam team with presence }) h
  | putChannel r =>
    have hq := hoff _ hauthor.1
    have h : (Rows.put (·.id) r db.channels).filter (·.teamId == team) = _ :=
      Rows.filter_put hq fun c hc hid => by
        have hsame : c.teamId = r.teamId := congrArg Prod.fst ((hw.2 c hc).1 hid)
        rw [hsame, hq]
    exact congrArg (fun channels => { db.ofTeam team with channels }) h
  | insertMessage r =>
    have h : (db.messages ++ [r]).filter (·.teamId == team) = _ := Rows.filter_append_one (hoff _ hauthor.1)
    exact congrArg (fun messages => { db.ofTeam team with messages }) h
  | putCursor r =>
    have hq : db.agentIn r.agentId team = false := hauthor ▸ hagent
    have h : (Rows.put Db.cursorKey r db.cursors).filter (fun c => db.agentIn c.agentId team) = _ :=
      Rows.filter_put hq fun c _ hkey => by
        have hid : c.agentId = r.agentId := congrArg Prod.fst hkey
        rw [hid, hq]
    exact congrArg (fun cursors => { db.ofTeam team with cursors }) h
  | insertTask r => exact ofTeam_tasks (Rows.filter_append_one (hoff _ hauthor.1))
  | updateTasks p f =>
    exact ofTeam_tasks (Rows.filter_update fun t ht hp =>
      ⟨hoff _ (hauthor t ht hp).1, hoff _ ((congrArg Prod.fst (hw t ht hp).2.1).trans (hauthor t ht hp).1)⟩)
  | insertTaskDep d =>
    have hq : db.taskIn d.taskId team = false := hk.taskIn_apart hauthor hne
    have h : (db.taskDeps ++ [d]).filter (fun d => db.taskIn d.taskId team) = _ := Rows.filter_append_one hq
    exact congrArg (fun taskDeps => { db.ofTeam team with taskDeps }) h
  | insertTaskEvent e =>
    have hq : db.taskIn e.taskId team = false := hk.taskIn_apart hauthor.1 hne
    have h : (db.taskEvents ++ [e]).filter (fun e => db.taskIn e.taskId team) = _ := Rows.filter_append_one hq
    exact congrArg (fun taskEvents => { db.ofTeam team with taskEvents }) h
  | putNote r =>
    have hq := hoff _ hauthor.1
    refine ofTeam_notes (Rows.filter_put hq fun n _ hkey => ?_) rfl
    have hsame : n.teamId = r.teamId := congrArg Prod.fst hkey
    rw [hsame, hq]
  | deleteNotes p =>
    refine ofTeam_notes (Rows.filter_delete fun n _ hp => hoff _ (hauthor n hp)) (Rows.filter_delete fun r _ hgone => ?_)
    rcases List.any_eq_true.1 hgone with ⟨n, hn, hp⟩
    simp only [Bool.and_eq_true, beq_iff_eq] at hp
    have hnote : db.noteIn r.noteId other = true := noteIn_iff.2 ⟨n, hn, hp.1, hauthor n hp.2⟩
    exact hk.noteIn_apart hnote hne
  | insertNoteRevision r =>
    have hq : db.noteIn r.noteId team = false := hk.noteIn_apart hauthor.1 hne
    have h : (db.noteRevisions ++ [r]).filter (fun r => db.noteIn r.noteId team) = _ := Rows.filter_append_one hq
    exact congrArg (fun noteRevisions => { db.ofTeam team with noteRevisions }) h
  | putLock r =>
    have hq := hoff _ hauthor.1
    have h : (Rows.put Db.lockKey r db.locks).filter (·.teamId == team) = _ :=
      Rows.filter_put hq fun l _ hkey => by
        have hsame : l.teamId = r.teamId := congrArg Prod.fst hkey
        rw [hsame, hq]
    exact congrArg (fun locks => { db.ofTeam team with locks }) h
  | deleteLocks p =>
    have h : (Rows.delete p db.locks).filter (·.teamId == team) = _ :=
      Rows.filter_delete fun l _ hp => hoff _ (hauthor l hp)
    exact congrArg (fun locks => { db.ofTeam team with locks }) h
  | insertAttachment r =>
    have h : (db.attachments ++ [r]).filter (·.teamId == team) = _ := Rows.filter_append_one (hoff _ hauthor.1)
    exact congrArg (fun attachments => { db.ofTeam team with attachments }) h
  | insertDelivery r =>
    have h : (db.deliveries ++ [r]).filter (·.teamId == team) = _ := Rows.filter_append_one (hoff _ hauthor.1)
    exact congrArg (fun deliveries => { db.ofTeam team with deliveries }) h
  | notify payload => rfl
  | _ => exact hauthor.elim

/-- A prune of another team, too. -/
theorem ofTeam_prunes {now : Time} {w : Write} (hk : db.Keys seqs) (hr : db.Refs) (hprunes : Prunes other now db w)
    (hne : other ≠ team) : (w.apply db).ofTeam team = db.ofTeam team := by
  cases w with
  | deleteMessages p =>
    have hgone : ∀ id, db.messageIn id team = true → (db.messages.any fun m => m.id == id && p m) = false := by
      intro id hin
      rw [← Bool.not_eq_true, List.any_eq_true]
      rintro ⟨m, hm, hp⟩
      simp only [Bool.and_eq_true, beq_iff_eq] at hp
      have hother : db.messageIn id other = true := messageIn_iff.2 ⟨m, hm, hp.1, hprunes m hp.2⟩
      rw [hk.messageIn_apart hother hne] at hin
      cases hin
    have hmessages : ((Write.deleteMessages p).apply db).messages.filter (·.teamId == team) =
        db.messages.filter (·.teamId == team) := by
      change ((Rows.delete p db.messages).map _).filter _ = _
      rw [List.filter_map]
      have hkeep : (Rows.delete p db.messages).filter (·.teamId == team) = db.messages.filter (·.teamId == team) :=
        Rows.filter_delete fun m _ hp => beq_false_of_ne (hprunes m hp ▸ hne)
      change List.map _ ((Rows.delete p db.messages).filter (·.teamId == team)) = _
      rw [hkeep]
      conv_rhs => rw [← List.map_id (db.messages.filter _)]
      refine List.map_congr_left fun m hm => ?_
      obtain ⟨hm, hteam⟩ := List.mem_filter.1 hm
      have hreply : (m.replyTo.filter fun r => !(db.messages.any fun m => m.id == r && p m)) = m.replyTo := by
        cases hreply : m.replyTo with
        | none => rfl
        | some r =>
          have hin := hr.replies m hm r hreply
          rw [beq_iff_eq.1 hteam] at hin
          rw [Option.filter_some, hgone r hin]
          rfl
      rw [hreply]
      rfl
    have hattachments : ((Write.deleteMessages p).apply db).attachments.filter (·.teamId == team) =
        db.attachments.filter (·.teamId == team) := by
      refine Rows.filter_delete fun a ha hp => ?_
      obtain ⟨id, hid, hp⟩ := (Option.any_eq_true ..).1 hp
      rw [← Bool.not_eq_true]
      intro hteam
      have hin := hr.files a ha id hid
      rw [beq_iff_eq.1 hteam] at hin
      rw [hgone id hin] at hp
      cases hp
    exact congrArg₂ (fun messages attachments => { db.ofTeam team with messages, attachments }) hmessages hattachments
  | deleteTaskEvents p =>
    have h : (Rows.delete p db.taskEvents).filter (fun e => db.taskIn e.taskId team) = _ :=
      Rows.filter_delete fun e he hp => hk.taskIn_apart (hprunes e he hp) hne
    exact congrArg (fun taskEvents => { db.ofTeam team with taskEvents }) h
  | deleteNoteRevisions p =>
    have h : (Rows.delete p db.noteRevisions).filter (fun r => db.noteIn r.noteId team) = _ :=
      Rows.filter_delete fun r hr hp => hk.noteIn_apart (hprunes r hr hp) hne
    exact congrArg (fun noteRevisions => { db.ofTeam team with noteRevisions }) h
  | _ => exact hprunes.elim

end
end CrewSync
