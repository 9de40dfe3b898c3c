import CrewSync.Lib.Parts
import CrewSync.Theorems.Sessions

/-! Who wrote what. The rows that name an agent name the one who was authenticated in the call that wrote them. -/

namespace CrewSync
open Rows

/-! ### Signatures -/

/-- A row, or a part of a row, with the agent that it names. -/
inductive Mark where
  /-- All of a message but the question it replies to, which a prune may remove. -/
  | message (r : Message)
  | channel (id team : Uuid) (createdBy : Option Uuid)
  | task (id team : Uuid) (createdBy : Option Uuid)
  | claim (id team agent : Uuid)
  | event (r : TaskEvent)
  | note (r : Note)
  | revision (r : NoteRevision)
  | lock (r : Lock)
  | attachment (r : Attachment)
  | presence (r : Presence)
  | cursor (r : ReadCursor)

def Mark.agent : Mark → Option Uuid
  | .message r => some r.senderAgentId
  | .channel _ _ createdBy | .task _ _ createdBy => createdBy
  | .claim _ _ agent => some agent
  | .event r => r.agentId
  | .note r => r.updatedBy
  | .revision r => r.updatedBy
  | .lock r => some r.holderAgentId
  | .attachment r => some r.uploaderAgentId
  | .presence r => some r.agentId
  | .cursor r => some r.agentId

/-- The team, where the row has a column for it. -/
def Mark.team : Mark → Option Uuid
  | .message r => some r.teamId
  | .channel _ team _ | .task _ team _ | .claim _ team _ => some team
  | .note r => some r.teamId
  | .lock r => some r.teamId
  | .attachment r => some r.teamId
  | .event _ | .revision _ | .presence _ | .cursor _ => none

def Db.Bears (db : Db) : Mark → Prop
  | .message r => ∃ m ∈ db.messages, m.Same r
  | .channel id team createdBy => ∃ c ∈ db.channels, c.id = id ∧ c.teamId = team ∧ c.createdBy = createdBy
  | .task id team createdBy => ∃ t ∈ db.tasks, t.id = id ∧ t.teamId = team ∧ t.createdBy = createdBy
  | .claim id team agent => ∃ t ∈ db.tasks, t.id = id ∧ t.teamId = team ∧ t.claimedBy = some agent
  | .event r => r ∈ db.taskEvents
  | .note r => r ∈ db.notes
  | .revision r => r ∈ db.noteRevisions
  | .lock r => r ∈ db.locks
  | .attachment r => r ∈ db.attachments
  | .presence r => r ∈ db.presence
  | .cursor r => r ∈ db.cursors

/-- The mark is that of the caller, and of their team. -/
structure Mark.Of (x : Mark) (agent team : Uuid) : Prop where
  agent : x.agent = some agent
  team : ∀ t ∈ x.team, t = team

/-- A write that signs nothing: of an operator, or of the dispatcher. -/
def Write.Unsigned : Write → Prop
  | .putPresence _ | .putChannel _ | .insertMessage _ | .putCursor _ | .insertTask _ | .updateTasks .. | .insertTaskEvent _
  | .putNote _ | .insertNoteRevision _ | .putLock _ | .insertAttachment _ => False
  | _ => True

section
variable {base seqs : Seqs} {db : Db} {w : Write} {x : Mark}

/-- A new mark comes from a write that is signed, and whoever the write is by has the mark. -/
theorem bears_apply (hw : w.Legal base seqs db) (h : (w.apply db).Bears x) :
    db.Bears x ∨ ¬ w.Unsigned ∧ ∀ agent team now, w.By agent team now db → x.Of agent team := by
  cases w with
  | putPresence r =>
    cases x with
    | presence p =>
      rcases mem_put.1 h with rfl | ⟨hp, -⟩
      · exact .inr ⟨fun h => h, fun agent team now hby => ⟨congrArg some hby, fun _ ht => by cases ht⟩⟩
      · exact .inl hp
    | _ => exact .inl h
  | putChannel r =>
    cases x with
    | channel id team createdBy =>
      obtain ⟨c, hc, hid, hteam, hby⟩ := h
      rcases mem_put.1 hc with rfl | ⟨hc, -⟩
      · -- The row of a channel that exists keeps its creator.
        by_cases hold : ∃ d ∈ db.channels, d.id = c.id ∧ d.createdBy = c.createdBy
        · rcases hold with ⟨d, hd, hdid, hdby⟩
          have hkey : d.teamId = c.teamId := congrArg Prod.fst ((hw.2 d hd).1 hdid)
          exact .inl ⟨d, hd, hdid.trans hid, hkey.trans hteam, hdby.trans hby⟩
        · refine .inr ⟨fun h => h, fun agent team' now hby' => ⟨hby.symm.trans (hby'.2.resolve_right hold), fun t ht => ?_⟩⟩
          obtain rfl := Option.some.inj ht
          exact hteam.symm.trans hby'.1
      · exact .inl ⟨c, hc, hid, hteam, hby⟩
    | _ => exact .inl h
  | insertMessage r =>
    cases x with
    | message m' =>
      obtain ⟨m, hm, hsame⟩ := h
      rcases List.mem_append.1 hm with hm | hm
      · exact .inl ⟨m, hm, hsame⟩
      · obtain rfl := List.mem_singleton.1 hm
        have hsender : m'.senderAgentId = m.senderAgentId := by rw [hsame]
        have hteam : m'.teamId = m.teamId := by rw [hsame]
        refine .inr ⟨fun h => h, fun agent team now hby => ⟨congrArg some (hsender.trans hby.2), fun t ht => ?_⟩⟩
        obtain rfl := Option.some.inj ht
        exact hteam.trans hby.1
    | _ => exact .inl h
  | deleteMessages p =>
    cases x with
    | message m' =>
      obtain ⟨m, hm, hsame⟩ := h
      obtain ⟨m₀, hm₀, rfl⟩ := List.mem_map.1 hm
      exact .inl ⟨m₀, (mem_delete.1 hm₀).1, hsame⟩
    | attachment a => exact .inl (mem_delete.1 h).1
    | _ => exact .inl h
  | putCursor r =>
    cases x with
    | cursor c =>
      rcases mem_put.1 h with rfl | ⟨hc, -⟩
      · exact .inr ⟨fun h => h, fun agent team now hby => ⟨congrArg some hby, fun _ ht => by cases ht⟩⟩
      · exact .inl hc
    | _ => exact .inl h
  | insertTask r =>
    cases x with
    | task id team createdBy =>
      obtain ⟨t, ht, hid, hteam, hcreated⟩ := h
      rcases List.mem_append.1 ht with ht | ht
      · exact .inl ⟨t, ht, hid, hteam, hcreated⟩
      · obtain rfl := List.mem_singleton.1 ht
        refine .inr ⟨fun h => h, fun agent team' now hby => ⟨hcreated.symm.trans hby.2.1, fun t' ht' => ?_⟩⟩
        obtain rfl := Option.some.inj ht'
        exact hteam.symm.trans hby.1
    | claim id team agent =>
      obtain ⟨t, ht, hid, hteam, hclaimed⟩ := h
      rcases List.mem_append.1 ht with ht | ht
      · exact .inl ⟨t, ht, hid, hteam, hclaimed⟩
      · obtain rfl := List.mem_singleton.1 ht
        -- Nobody claims a task that is new.
        refine .inr ⟨fun h => h, fun agent' team' now hby => ?_⟩
        rw [hby.2.2] at hclaimed
        cases hclaimed
    | _ => exact .inl h
  | updateTasks p f =>
    cases x with
    | task id team createdBy =>
      obtain ⟨t', ht', hid, hteam, hcreated⟩ := h
      rcases mem_update_cases ht' with ht | ⟨t, ht, hp, rfl⟩
      · exact .inl ⟨t', ht, hid, hteam, hcreated⟩
      · obtain ⟨hsame, hkey, -⟩ := hw t ht hp
        have hteam' : t.teamId = team := (congrArg Prod.fst hkey).symm.trans hteam
        by_cases hby : (f t).createdBy = t.createdBy
        · exact .inl ⟨t, ht, hsame.symm.trans hid, hteam', hby.symm.trans hcreated⟩
        · exact .inr ⟨fun h => h, fun agent team' now h => absurd (h t ht hp).2.1 hby⟩
    | claim id team agent =>
      obtain ⟨t', ht', hid, hteam, hclaimed⟩ := h
      rcases mem_update_cases ht' with ht | ⟨t, ht, hp, rfl⟩
      · exact .inl ⟨t', ht, hid, hteam, hclaimed⟩
      · obtain ⟨hsame, hkey, -⟩ := hw t ht hp
        have hteam' : t.teamId = team := (congrArg Prod.fst hkey).symm.trans hteam
        by_cases hkeep : (f t).claimedBy = t.claimedBy
        · exact .inl ⟨t, ht, hsame.symm.trans hid, hteam', hkeep.symm.trans hclaimed⟩
        · refine .inr ⟨fun h => h, fun agent' team' now h => ?_⟩
          obtain ⟨hown, -, hnew⟩ := h t ht hp
          rcases hnew.resolve_left hkeep with hnone | hsome
          · rw [hnone] at hclaimed
            cases hclaimed
          · refine ⟨hclaimed.symm.trans hsome, fun s hs => ?_⟩
            obtain rfl := Option.some.inj hs
            exact hteam'.symm.trans hown
    | _ => exact .inl h
  | insertTaskEvent r =>
    cases x with
    | event e =>
      rcases List.mem_append.1 h with he | he
      · exact .inl he
      · obtain rfl := List.mem_singleton.1 he
        exact .inr ⟨fun h => h, fun agent team now hby => ⟨hby.2, fun _ ht => by cases ht⟩⟩
    | _ => exact .inl h
  | deleteTaskEvents p =>
    cases x with
    | event e => exact .inl (mem_delete.1 h).1
    | _ => exact .inl h
  | putNote r =>
    cases x with
    | note n =>
      rcases mem_put.1 h with rfl | ⟨hn, -⟩
      · refine .inr ⟨fun h => h, fun agent team now hby => ⟨hby.2, fun t ht => ?_⟩⟩
        obtain rfl := Option.some.inj ht
        exact hby.1
      · exact .inl hn
    | _ => exact .inl h
  | deleteNotes p =>
    cases x with
    | note n => exact .inl (mem_delete.1 h).1
    | revision r => exact .inl (mem_delete.1 h).1
    | _ => exact .inl h
  | insertNoteRevision r =>
    cases x with
    | revision s =>
      rcases List.mem_append.1 h with hs | hs
      · exact .inl hs
      · obtain rfl := List.mem_singleton.1 hs
        exact .inr ⟨fun h => h, fun agent team now hby => ⟨hby.2, fun _ ht => by cases ht⟩⟩
    | _ => exact .inl h
  | deleteNoteRevisions p =>
    cases x with
    | revision r => exact .inl (mem_delete.1 h).1
    | _ => exact .inl h
  | putLock r =>
    cases x with
    | lock l =>
      rcases mem_put.1 h with rfl | ⟨hl, -⟩
      · refine .inr ⟨fun h => h, fun agent team now hby => ⟨congrArg some hby.2, fun t ht => ?_⟩⟩
        obtain rfl := Option.some.inj ht
        exact hby.1
      · exact .inl hl
    | _ => exact .inl h
  | deleteLocks p =>
    cases x with
    | lock l => exact .inl (mem_delete.1 h).1
    | _ => exact .inl h
  | insertAttachment r =>
    cases x with
    | attachment a =>
      rcases List.mem_append.1 h with ha | ha
      · exact .inl ha
      · obtain rfl := List.mem_singleton.1 ha
        refine .inr ⟨fun h => h, fun agent team now hby => ⟨congrArg some hby.2, fun t ht => ?_⟩⟩
        obtain rfl := Option.some.inj ht
        exact hby.1
    | _ => exact .inl h
  | _ => cases x <;> exact .inl h

end

/-! ### Runs -/

section
variable [Platform] {pg : Pg} {x : Mark}

omit [Platform] in
theorem Prunes.unsigned {team : Uuid} {now : Time} {db : Db} {w : Write} (h : Prunes team now db w) : w.Unsigned := by
  cases w <;> trivial

theorem Command.run_unsigned (pid : Nat) (c : Command) :
    Bus.Writes (fun _ _ w => w.Unsigned) (fun _ => True) (c.run pid) fun _ _ => True := by
  have of_tables : c.writes ⊆ [.teams, .agents, .webhooks, .webhookDeliveries] →
      Bus.Writes (fun _ _ w => w.Unsigned) (fun _ => True) (c.run pid) fun _ _ => True := by
    intro hc pg hv hP
    refine ⟨(c.run_writes pid pg hv hP).1.imp fun _ db w h => ?_, fun _ _ => trivial⟩
    have htables : w.tables ⊆ _ := List.Subset.trans h hc
    cases w <;> first | trivial | simp [Write.tables] at htables
  cases c with
  | teamPrune team days apply =>
    have prunes : ∀ id, Bus.Writes (fun _ _ w => w.Unsigned) (fun _ => True) (prune pid id days (!apply)) fun _ _ => True :=
      fun id pg hv hP =>
        ⟨(prune_writes (P := fun _ => True) pg hv hP).1.imp fun _ _ _ h => h.unsigned, fun _ _ => trivial⟩
    exact (Bus.Writes.reads teamId_readOnly prunes).map
  | _ => exact of_tables (by simp [Command.writes])

/-- A mark that an event leaves was there, or is that of the authenticated caller. -/
theorem next_bears (hv : pg.Valid) (e : Event) (h : (pg.next e).db.Bears x) :
    pg.db.Bears x ∨ ∃ auth pid c, e = .call auth pid c ∧ auth.authentic pg.db = true ∧ x.Of auth.agentId auth.teamId := by
  have unsigned : ∀ {pg' : Pg}, Wrote (fun _ _ w => w.Unsigned) pg pg' → pg'.db.Bears x → pg.db.Bears x := by
    intro pg' hwrote
    exact hwrote.lift (R := fun a b => b.Bears x → a.Bears x) hv (fun _ h => h) (fun h h' hx => h (h' hx))
      fun _ _ _ _ _ hw hunsigned hx => (bears_apply hw hx).resolve_right fun hnew => hnew.1 hunsigned
  have outbox : ∀ {now : Time} {db : Db} {w : Write}, OnTables [.webhookDeliveries] now db w → w.Unsigned := by
    intro now db w h
    cases w <;> first | trivial | exact absurd (h List.mem_cons_self) (by decide)
  have ht : Table.webhookDeliveries ∈ [Table.webhookDeliveries] := List.mem_singleton_self _
  cases e with
  | call auth pid c =>
    by_cases hauth : auth.authentic pg.db = true
    · have hcall := (Pg.call_wrote hv auth pid c).lift (R := fun a b => b.Bears x → a.Bears x ∨ x.Of auth.agentId auth.teamId)
        hv (fun _ h => .inl h) (fun h h' hx => (h' hx).elim h .inr) fun _ _ _ _ _ hw hown hx =>
          (bears_apply hw hx).imp_right fun hnew => hnew.2 _ _ _ hown.author
      exact (hcall h).imp_right fun hof => ⟨auth, pid, c, rfl, hauth, hof⟩
    · rw [Pg.next, Pg.call, if_neg hauth] at h
      exact .inl h
  | command pid c => exact .inl (unsigned (c.run_unsigned pid pg hv trivial).1 h)
  | claim locked => exact .inl (unsigned (((Webhooks.claim_writes ht).effect hv).imp fun _ _ _ => outbox) h)
  | record d r => exact .inl (unsigned (((Webhooks.record_writes ht).effect hv).imp fun _ _ _ => outbox) h)
  | prune => exact .inl (unsigned (((Webhooks.prune_writes ht).effect hv).imp fun _ _ _ => outbox) h)
  | tick d => exact .inl h

omit [Platform] in
theorem init_bears (now : Time) (x : Mark) : ¬ (Pg.init now).db.Bears x := by
  intro h
  cases x with
  | message _ | channel _ _ _ | task _ _ _ | claim _ _ _ =>
    rcases h with ⟨_, h, _⟩
    cases h
  | _ => cases h

/-- A row names an agent if and only if a call of that agent, authenticated for the team of the row, wrote it and it has
    stood since. -/
theorem signed_iff (now : Time) (es : List Event) (x : Mark) :
    ((Pg.init now).after es).db.Bears x ↔
      Runs.Since Pg.next (fun pg e => ¬ pg.db.Bears x ∧ ∃ auth pid c, e = .call auth pid c ∧
        auth.authentic pg.db = true ∧ x.Of auth.agentId auth.teamId) (fun pg => pg.db.Bears x) (Pg.init now) es := by
  refine ⟨?_, Runs.Since.last⟩
  induction es using List.reverseRecOn with
  | nil => exact fun h => absurd h (init_bears now x)
  | append_singleton es e ih =>
    intro h
    refine Runs.since_concat.2 ⟨h, ?_⟩
    by_cases hold : ((Pg.init now).after es).db.Bears x
    · exact .inr (ih hold)
    · rw [Pg.after, Runs.after_append] at h
      exact .inl ⟨hold, (next_bears ((Pg.Valid.init now).after es) e h).resolve_left hold⟩

end
end CrewSync
