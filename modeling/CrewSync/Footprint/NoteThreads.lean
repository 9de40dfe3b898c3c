import CrewSync.Footprint.Shared
import CrewSync.Footprint.TaskThreads
import CrewSync.Lib.Journal

/-! The trail of a note beside the note: a call that sets the note owes a revision that says so, from the statement that
    sets it to the statement that inserts the revision. -/

namespace CrewSync
open Threads
open Bus (Reads)

/-- What a note says, and who has it say so. -/
abbrev Saying := String × Option Uuid

def Note.saying (n : Note) : Saying := (n.value, n.updatedBy)

def NoteRevision.saying (r : NoteRevision) : Saying := (r.value, r.updatedBy)

namespace Db

def said (db : Db) (note : Uuid) : Option Saying := (db.notes.find? (·.id == note)).map Note.saying

/-- The revision of the note with the highest id. -/
def newestRevision (db : Db) (note : Uuid) : Option NoteRevision :=
  db.noteRevisions.find? fun r => r.noteId == note && db.noteRevisions.all fun r' => r'.noteId != note || r'.id ≤ r.id

def trailed (db : Db) (note : Uuid) : Option Saying := (db.newestRevision note).map NoteRevision.saying

/-- The trail of the note has a revision that says so. -/
def Trails (db : Db) (note : Uuid) (v : Saying) : Prop := ∃ r ∈ db.noteRevisions, r.noteId = note ∧ r.saying = v

variable {db db' : Db} {note : Uuid}

theorem newestRevision_iff {seqs : Seqs} (hk : db.Keys seqs) {r : NoteRevision} : db.newestRevision note = some r ↔
    r ∈ db.noteRevisions ∧ r.noteId = note ∧ ∀ r' ∈ db.noteRevisions, r'.noteId = note → r'.id ≤ r.id := by
  have hp : ∀ r : NoteRevision, (r.noteId == note && db.noteRevisions.all fun r' => r'.noteId != note || r'.id ≤ r.id) = true ↔
      r.noteId = note ∧ ∀ r' ∈ db.noteRevisions, r'.noteId = note → r'.id ≤ r.id := by
    intro r
    simp only [Bool.and_eq_true, beq_iff_eq, List.all_eq_true, Bool.or_eq_true, bne_iff_ne, decide_eq_true_eq,
      ← imp_iff_not_or]
  constructor
  · intro h
    have hmem := List.mem_of_find?_eq_some h
    unfold newestRevision at h
    exact ⟨hmem, (hp r).1 (by simpa using List.find?_some h)⟩
  · rintro ⟨hr, hnote, hmax⟩
    refine hk.noteRevisions.find?_eq_some hr ((hp r).2 ⟨hnote, hmax⟩) fun r' hr' h => ?_
    obtain ⟨hnote', hmax'⟩ := (hp r').1 h
    exact le_antisymm (hmax r' hr' hnote') (hmax' r hr hnote)

theorem trailed_same (h : db'.noteRevisions = db.noteRevisions) : db'.trailed = db.trailed := by
  funext note
  simp only [trailed, newestRevision, h]

/-- A new revision is the newest of its note. -/
theorem trailed_record {seqs seqs' : Seqs} (hk : db.Keys seqs) (hk' : db'.Keys seqs') {r : NoteRevision}
    (hnew : ∀ x ∈ db.noteRevisions, x.id < r.id) (hrevisions : db'.noteRevisions = db.noteRevisions ++ [r]) :
    db'.trailed = Function.update db.trailed r.noteId (some r.saying) := by
  funext note
  by_cases hnote : note = r.noteId
  · subst hnote
    have hnewest : db'.newestRevision r.noteId = some r := by
      refine (newestRevision_iff hk').2 ⟨by simp [hrevisions], rfl, fun r' hr' _ => ?_⟩
      rcases List.mem_append.1 (hrevisions ▸ hr') with hr' | hr'
      · exact (hnew r' hr').le
      · rw [List.mem_singleton.1 hr']
    rw [Function.update_self, trailed, hnewest, Option.map_some]
  · rw [Function.update_of_ne hnote, trailed, trailed]
    congr 1
    refine Option.ext fun x => ?_
    simp only [newestRevision_iff hk, newestRevision_iff hk', hrevisions, List.mem_append, List.mem_singleton]
    constructor
    · rintro ⟨hx | rfl, hxnote, hmax⟩
      · exact ⟨hx, hxnote, fun r' hr' => hmax r' (.inl hr')⟩
      · exact absurd hxnote.symm hnote
    · rintro ⟨hx, hxnote, hmax⟩
      refine ⟨.inl hx, hxnote, fun r' hr' hr'note => ?_⟩
      rcases hr' with hr' | rfl
      · exact hmax r' hr' hr'note
      · exact absurd hr'note.symm hnote

theorem said_iff {seqs : Seqs} (hk : db.Keys seqs) {v : Saying} :
    db.said note = some v ↔ ∃ n ∈ db.notes, n.id = note ∧ n.saying = v := by
  simp only [said, Option.map_eq_some_iff, hk.notes.find?_key fun r => beq_iff_eq, and_assoc]

theorem said_same (h : db'.notes = db.notes) : db'.said = db.said := by
  funext note
  simp only [said, h]

/-- A note that is set says what it is set to. -/
theorem said_put {seqs seqs' : Seqs} (hk : db.Keys seqs) (hk' : db'.Keys seqs') {n : Note}
    (hid : ∀ m ∈ db.notes, m.id = n.id ↔ noteKey m = noteKey n)
    (hnotes : db'.notes = Rows.put noteKey n db.notes) : db'.said = Function.update db.said n.id (some n.saying) := by
  funext note
  by_cases hnote : note = n.id
  · subst hnote
    rw [Function.update_self, said_iff hk', hnotes]
    exact ⟨n, Rows.mem_put.2 (.inl rfl), rfl, rfl⟩
  · rw [Function.update_of_ne hnote]
    refine Option.ext fun v => ?_
    rw [said_iff hk', said_iff hk, hnotes]
    simp only [Rows.mem_put]
    constructor
    · rintro ⟨m, rfl | ⟨hm, -⟩, hmid, hv⟩
      · exact absurd hmid.symm hnote
      · exact ⟨m, hm, hmid, hv⟩
    · rintro ⟨m, hm, hmid, hv⟩
      refine ⟨m, .inr ⟨hm, fun hkey => hnote ?_⟩, hmid, hv⟩
      rw [← hmid, (hid m hm).2 hkey]

end Db

/-! ### The protocol -/

/-- The revision that the call owes: the note that it has set, and what the note says since. -/
abbrev Unrevised := Option (Uuid × Saying)

/-- What a statement does to the notes and their trails. -/
inductive TrailStep : Unrevised → Stmt → Pg → Unrevised → Pg → Prop
  | still {l : Stmt} {pg : Pg} : TrailStep none l pg none pg
  | upsert {l : Stmt} {pg pg' : Pg} (n : Note) (hid : ∀ m ∈ pg.db.notes, m.id = n.id ↔ Db.noteKey m = Db.noteKey n)
      (hnotes : pg'.db.notes = Rows.put Db.noteKey n pg.db.notes)
      (hrevisions : pg'.db.noteRevisions = pg.db.noteRevisions) : TrailStep none l pg (some (n.id, n.saying)) pg'
  | record {l : Stmt} {pg pg' : Pg} (r : NoteRevision) (hnew : ∀ x ∈ pg.db.noteRevisions, x.id < r.id)
      (hnotes : pg'.db.notes = pg.db.notes) (hrevisions : pg'.db.noteRevisions = pg.db.noteRevisions ++ [r]) :
      TrailStep (some (r.noteId, r.saying)) l pg none pg'

/-- The protocol of a call that sets a note. -/
def trailProtocol (auth : AuthCtx) : Protocol Stmt Pg Unrevised where
  sure g pg := pg.Valid ∧ Caller auth.agentId auth.teamId pg.db ∧ ∀ x ∈ g, pg.db.noteIn x.1 auth.teamId
  ready _ _ := true
  step g l pg g' pg' := Wrote (fun _ _ _ => True) pg pg' ∧ TrailStep g l pg g' pg' ∧
    ∀ x ∈ g', pg'.db.noteIn x.1 auth.teamId

/-- A note that is set stays where it is. -/
theorem TrailStep.noteIn {g g' : Unrevised} {l : Stmt} {pg pg' : Pg} (h : TrailStep g l pg g' pg') {note team : Uuid}
    (hin : pg.db.noteIn note team) : pg'.db.noteIn note team := by
  obtain ⟨m, hm, hq⟩ := List.any_eq_true.1 hin
  cases h with
  | still => exact hin
  | record _ _ hnotes => exact List.any_eq_true.2 ⟨m, hnotes ▸ hm, hq⟩
  | upsert n hid hnotes =>
    refine List.any_eq_true.2 ?_
    by_cases hkey : Db.noteKey m = Db.noteKey n
    · have hsame : m.id = n.id ∧ m.teamId = n.teamId := ⟨(hid m hm).2 hkey, congrArg Prod.fst hkey⟩
      exact ⟨n, hnotes ▸ Rows.mem_put.2 (.inl rfl), by rwa [← hsame.1, ← hsame.2]⟩
    · exact ⟨m, hnotes ▸ Rows.mem_put.2 (.inr ⟨hm, hkey⟩), hq⟩

namespace trailProtocol
variable [Platform] {auth : AuthCtx} {α : Type}

omit [Platform] in
theorem reads {x : Bus α} (hx : Reads x) :
    Bus.Follows (trailProtocol auth) (· = none) (fun _ => (· = none)) x none :=
  .reads hx (fun _ _ => rfl) fun _ pg _ _ => ⟨.refl _ pg, .still, fun _ h => by cases h⟩

/-- The note is set. -/
theorem upsert {scope key value : String} {tags : List String} :
    Bus.Follows (trailProtocol auth) (· = none) (fun id g => g = some (id, value, some auth.agentId))
      (execute (.insert .notes) (upsertNote auth scope key value tags)) none := by
  refine .execute rfl fun pg hs => ?_
  cases h : upsertNote auth scope key value tags pg with
  | error e =>
    simp only [Sql.effect, Sql.answer, h]
    exact ⟨none, ⟨.refl _ pg, .still, fun _ h => by cases h⟩, rfl⟩
  | ok r =>
    obtain ⟨b, seqs, ws⟩ := r
    simp only [Sql.effect, Sql.answer, h]
    obtain ⟨hw, hin⟩ := (upsertNote_writes (List.Subset.refl [Table.notes, .webhookDeliveries])).wrote
      (P := fun _ => True) hs.1 trivial h
    obtain ⟨n, fired, uuids, hn, -, hid, hfired, rfl⟩ := upsertNote_ok h
    have hout : ∀ w ∈ fired ++ [.notify (notifyNote n)], w.Outbox := by
      intro w hw
      rcases List.mem_append.1 hw with hw | hw
      · rw [show fired = _ from congrArg Prod.snd hfired] at hw
        exact enqueue_outbox w hw
      · rw [List.mem_singleton.1 hw]
        trivial
    obtain ⟨ds, ns, hwrite⟩ := Db.write_outbox hout ((Write.putNote n).apply pg.db)
    have hstep : TrailStep none (.insert .notes) pg (some (n.id, n.saying))
        { pg with db := pg.db.write (.putNote n :: fired ++ [.notify (notifyNote n)]), seqs } := by
      refine .upsert n (upsertNote_id_iff hs.1 hn hid) ?_ ?_
      · show (pg.db.write (.putNote n :: fired ++ [.notify (notifyNote n)])).notes = _
        rw [List.cons_append, Db.write_cons, hwrite]
        rfl
      · show (pg.db.write (.putNote n :: fired ++ [.notify (notifyNote n)])).noteRevisions = _
        rw [List.cons_append, Db.write_cons, hwrite]
        rfl
    rw [hn] at hstep
    exact ⟨_, ⟨hw, hn ▸ hstep, fun x hx => by cases hx; exact hin⟩, rfl⟩

omit [Platform] in
/-- The revision that the call owes is inserted: the note and the agent are there. -/
theorem record {id : Uuid} {value : String} :
    Bus.Follows (trailProtocol auth) (· = none) (fun _ => (· = none))
      (execute (.insert .noteRevisions) (insertNoteRevision auth id value)) (some (id, value, some auth.agentId)) := by
  refine .execute rfl fun pg hs => ?_
  have hin : pg.db.noteIn id auth.teamId := hs.2.2 _ rfl
  have hok : pg.db.noteRevisionOk ⟨pg.seqs.noteRevisions + 1, id, value, some auth.agentId, pg.now⟩ = true := by
    obtain ⟨n, hn, hnq⟩ := List.any_eq_true.1 hin
    obtain ⟨a, ha, haq⟩ := List.any_eq_true.1 (show pg.db.agentIn auth.agentId auth.teamId = true from hs.2.1)
    exact Bool.and_eq_true_iff.2 ⟨List.any_eq_true.2 ⟨n, hn, (Bool.and_eq_true_iff.1 hnq).1⟩,
      List.any_eq_true.2 ⟨a, ha, (Bool.and_eq_true_iff.1 haq).1⟩⟩
  have h : insertNoteRevision auth id value pg = .ok ((), { pg.seqs with noteRevisions := pg.seqs.noteRevisions + 1 },
      [.insertNoteRevision ⟨pg.seqs.noteRevisions + 1, id, value, some auth.agentId, pg.now⟩]) := by
    simp only [insertNoteRevision, if_pos hok]
  have hw := (insertNoteRevision_writes auth rfl (List.mem_singleton_self Table.noteRevisions)).wrote hs.1 ⟨hs.2.1, hin⟩ h
  simp only [Sql.effect, Sql.answer, h]
  refine ⟨none, ⟨hw.1, .record ⟨pg.seqs.noteRevisions + 1, id, value, some auth.agentId, pg.now⟩ (fun x hx => ?_) rfl rfl,
    fun _ h => by cases h⟩, rfl⟩
  have hle : x.id ≤ pg.seqs.noteRevisions := hs.1.keys.noteRevisionsBelow x hx
  show x.id < pg.seqs.noteRevisions + 1
  omega

end trailProtocol

/-- Every call that sets a note follows the protocol. -/
theorem setNote_trails [Platform] (auth : AuthCtx) (input : SetInput) :
    Bus.Follows (trailProtocol auth) (· = none) (fun _ => (· = none)) (setNote auth input) none := by
  have throws : ∀ {α β : Type} {e : BusError} {f : α → Bus β}, Bus.Follows (trailProtocol auth) (· = none)
      (fun _ => (· = none)) ((throw e : Bus α) >>= f) none := .throw_bind rfl
  unfold setNote
  refine .ite (fun _ => throws) fun _ => .ite (fun _ => throws) fun _ => .ite (fun _ => throws) fun _ => ?_
  refine (trailProtocol.reads .check).bind fun _ g h => ?_
  subst h
  refine trailProtocol.upsert.bind fun id g h => ?_
  subst h
  refine trailProtocol.record.bind fun _ g h => ?_
  subst h
  refine (trailProtocol.reads (.bind .select fun _ => .pure)).bind fun r g h => ?_
  subst h
  cases r.note with
  | none => exact .throw rfl
  | some note => exact .pure rfl

end CrewSync
