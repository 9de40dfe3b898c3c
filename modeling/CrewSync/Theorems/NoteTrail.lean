import CrewSync.Concurrent
import CrewSync.Footprint.Calls
import CrewSync.Footprint.NoteThreads
import CrewSync.Lib.Runs

/-! The trail of a note, where the calls of several writers interleave. A call sets the note by one statement and inserts
    the revision by the next one, so the revisions may come in another order than what they record. -/

namespace CrewSync
open Threads

theorem Write.frame_notes {w : Write} (h : .notes ∉ w.tables) (db : Db) : (w.apply db).notes = db.notes := by
  cases w <;> simp_all [Write.apply, Write.tables]

theorem Write.frame_noteRevisions {w : Write} (h : .noteRevisions ∉ w.tables) (db : Db) :
    (w.apply db).noteRevisions = db.noteRevisions := by
  cases w <;> simp_all [Write.apply, Write.tables]

variable [Platform]

namespace Concurrent

/-- Among the tools, only calls that set notes; and nobody prunes the revisions. -/
def Step.setsNotes : Step → Prop
  | .call _ c => ∃ input, c = .setNote input
  | .turn _ => True
  | .server e => .notes ∉ e.writes ∧ .noteRevisions ∉ e.writes

/-- The revision that the next statement of the call inserts, if it inserts one. -/
def revision? (s : State) (i : Nat) : Option NoteRevision :=
  (s.sched i).shared.db.noteRevisions.find? fun r => decide (r ∉ s.shared.db.noteRevisions)

/-- The call has set the note, and its revision is still to be inserted. -/
def unrevised (s : State) (i : Nat) (note : Uuid) : Bool := (revision? s i).any (·.noteId == note)

/-- The newest revision of every note that no call still has a revision of to insert says what the note says. -/
def Newest (s : State) : Prop :=
  ∀ note, (∀ i, unrevised s i note = false) → s.shared.db.trailed note = s.shared.db.said note

/-- A call that inserts a revision finds the note as it has set it, or leaves a later revision to a call that has set the
    note too. -/
def Revised (s : State) : Step → Prop
  | .turn i => ∀ r ∈ revision? s i, s.shared.db.said r.noteId = some r.saying ∨
      ∃ j < s.threads.length, j ≠ i ∧ unrevised s j r.noteId = true
  | _ => True

instance decidableRevised (s : State) : ∀ step, Decidable (Revised s step)
  | .turn i => inferInstanceAs (Decidable (∀ r ∈ revision? s i, s.shared.db.said r.noteId = some r.saying ∨
      ∃ j < s.threads.length, j ≠ i ∧ unrevised s j r.noteId = true))
  | .call .. | .server _ => isTrue trivial

/-- How far the calls of a state have come. -/
structure Writers (s : State) (phase : Nat → Unrevised) : Prop where
  valid : s.shared.Valid
  obeys : Obeys (fun _ who => trailProtocol who.1) (Bus.Ends (· = none) fun _ => (· = none)) s phase
  sure : Sure (fun _ who => trailProtocol who.1) s phase
  idle : ∀ i, s.threads.length ≤ i → phase i = none

/-- The notes, their newest revisions, and what the calls owe. -/
def notebook (s : State) (phase : Nat → Unrevised) : Journal.Book Nat Uuid Saying :=
  ⟨s.shared.db.said, s.shared.db.trailed, phase⟩

/-- What a step does to the notes and their trails. -/
structure Booked (s s' : State) (phase phase' : Nat → Unrevised) (e : Journal.Entry Nat Uuid Saying) : Prop where
  allows : (notebook s phase).Allows e
  book : notebook s' phase' = (notebook s phase).next e
  trails : ∀ note v, s.shared.db.Trails note v → s'.shared.db.Trails note v
  records : ∀ i note v, e = .record i → phase i = some (note, v) → s'.shared.db.Trails note v

section
variable {s : State} {i : Nat}

omit [Platform] in
theorem revision?_same (h : (s.sched i).shared.db.noteRevisions = s.shared.db.noteRevisions) : revision? s i = none := by
  rw [revision?, h, List.find?_eq_none]
  intro r hr
  simpa using hr

omit [Platform] in
theorem revision?_append {r : NoteRevision}
    (h : (s.sched i).shared.db.noteRevisions = s.shared.db.noteRevisions ++ [r])
    (hnew : ∀ x ∈ s.shared.db.noteRevisions, x.id < r.id) : revision? s i = some r := by
  have hnot : r ∉ s.shared.db.noteRevisions := fun hr => lt_irrefl _ (hnew r hr)
  have hold : s.shared.db.noteRevisions.find? (fun r => decide (r ∉ s.shared.db.noteRevisions)) = none := by
    rw [List.find?_eq_none]
    intro x hx
    simpa using hx
  rw [revision?, h, List.find?_append, hold]
  simp [hnot]

omit [Platform] in
/-- A call that has returned has no revision to insert. -/
theorem unrevised_of_returned (h : ∀ t, s.threads[i]? = some t → t.2.result?.isSome = true) (note : Uuid) :
    unrevised s i note = false := by
  have hidle : s.sched i = s := by
    cases hi : s.threads[i]? with
    | none => simp only [Conf.sched, hi]
    | some t =>
      obtain ⟨who, p⟩ := t
      cases p with
      | act => cases h _ hi
      | ret r => simp only [Conf.sched, hi]
  simp [unrevised, revision?_same (congrArg (fun s : State => s.shared.db.noteRevisions) hidle)]

end

namespace Writers
variable {s : State} {phase : Nat → Unrevised}

omit [Platform] in
/-- What a turn is: nothing, of a call that is not there or has returned, or a statement of the call. -/
theorem statement (h : Writers s phase) (i : Nat) : s.sched i = s ∧ phase i = none ∨
    ∃ who p l g', s.threads[i]? = some (who, p) ∧ (trailProtocol who.1).step (phase i) l s.shared g' (s.sched i).shared := by
  cases hi : s.threads[i]? with
  | none => exact .inl ⟨by simp only [Conf.sched, hi], h.idle i (List.getElem?_eq_none_iff.1 hi)⟩
  | some t =>
    obtain ⟨who, p⟩ := t
    have hfollows := h.obeys i who p hi
    cases p with
    | ret r =>
      refine .inl ⟨by simp only [Conf.sched, hi], ?_⟩
      cases r with
      | ok a => exact hfollows
      | error e => exact hfollows
    | act l ready eff rest =>
      obtain ⟨hguard, hstep⟩ := hfollows
      have hready : ready s.shared = true := by rw [hguard]; rfl
      obtain ⟨g', hmove, -⟩ := hstep s.shared (h.sure i who _ hi) hready
      refine .inr ⟨who, _, l, g', rfl, ?_⟩
      rw [Conf.sched_act hi hready]
      exact hmove

omit [Platform] in
/-- Which revisions are to be inserted shows in the next statements of the calls. -/
theorem unrevised_iff (h : Writers s phase) (i : Nat) (note : Uuid) :
    unrevised s i note = true ↔ (notebook s phase).Owes i note := by
  rcases h.statement i with ⟨hsame, howed⟩ | ⟨who, p, l, g', hi, -, hstep, -⟩
  · have hnone : revision? s i = none := revision?_same (by rw [hsame])
    simp [unrevised, hnone, Journal.Book.Owes, notebook, howed]
  · simp only [unrevised, Journal.Book.Owes, notebook]
    generalize phase i = owed at hstep ⊢
    generalize hpg : (s.sched i).shared = pg at hstep
    cases hstep with
    | still => simp [revision?_same (show (s.sched i).shared.db.noteRevisions = _ by rw [hpg])]
    | upsert _ _ _ hrevisions => simp [revision?_same (hpg ▸ hrevisions)]
    | record r hnew _ hrevisions => simp [revision?_append (hpg ▸ hrevisions) hnew]

omit [Platform] in
theorem newest_iff (h : Writers s phase) : Newest s ↔ (notebook s phase).Faithful := by
  have hfree : ∀ note, (∀ i, unrevised s i note = false) ↔ ∀ i, ¬ (notebook s phase).Owes i note := by
    intro note
    refine forall_congr' fun i => ?_
    rw [← h.unrevised_iff, Bool.not_eq_true]
  simp only [Newest, Journal.Book.Faithful, hfree]
  exact Iff.rfl

omit [Platform] in
theorem start (now : Time) : Writers (start (Pg.init now)) fun _ => none where
  valid := Pg.Valid.init now
  obeys i who p hi := by simp [Concurrent.start] at hi
  sure i who p hi := by simp [Concurrent.start] at hi
  idle _ _ := rfl

omit [Platform] in
/-- A statement of a call. -/
theorem step (h : Writers s phase) {i : Nat} {who : AuthCtx × Call} {p : Prog Stmt Pg (Except BusError Reply)} {l : Stmt}
    {g' : Unrevised} (hi : s.threads[i]? = some (who, p))
    (hstep : (trailProtocol who.1).step (phase i) l s.shared g' (s.sched i).shared)
    (hobeys : Obeys (fun _ who => trailProtocol who.1) (Bus.Ends (· = none) fun _ => (· = none)) (s.sched i)
      (Function.update phase i g')) : Writers (s.sched i) (Function.update phase i g') := by
  obtain ⟨hwrote, hmove, hin⟩ := hstep
  have hext := hwrote.extends h.valid
  refine ⟨hwrote.valid h.valid, hobeys, h.sure.sched (fun who' p' hi' => ?_) fun j who' p' hji hj hs => ?_, fun j hj => ?_⟩
  · rw [hi] at hi'
    cases hi'
    exact ⟨hwrote.valid h.valid, hext.agents _ _ (h.sure i who p hi).2.1, hin⟩
  · exact ⟨hwrote.valid h.valid, hext.agents _ _ hs.2.1, fun x hx => hmove.noteIn (hs.2.2 x hx)⟩
  · rw [Conf.length_sched] at hj
    have hlt := (List.getElem?_eq_some_iff.1 hi).1
    rw [Function.update_of_ne (by omega)]
    exact h.idle j hj

omit [Platform] in
/-- A turn moves the books on: the call sets a note, records what it has set, or does neither. -/
theorem turn (h : Writers s phase) (i : Nat) :
    ∃ phase' e, Writers (s.sched i) phase' ∧ Booked s (s.sched i) phase phase' e ∧
      ((notebook s phase).Timely e ↔ Revised s (.turn i)) := by
  rcases h.obeys.sched h.sure i with hsame | ⟨who, p, l, g', hi, hl, -, hstep, hobeys⟩
  · rw [hsame]
    refine ⟨phase, .skip, h, ⟨trivial, rfl, fun _ _ h => h, fun _ _ _ h => by cases h⟩, iff_of_true trivial fun r hr => ?_⟩
    rw [revision?_same (by rw [hsame])] at hr
    cases hr
  have hwriters := h.step hi hstep hobeys
  have hvalid' := hwriters.valid
  refine ⟨Function.update phase i g', ?_⟩
  obtain ⟨-, hmove, -⟩ := hstep
  generalize hown : phase i = owed at hmove
  have hold : (notebook s phase).owed i = owed := hown
  generalize hpg : (s.sched i).shared = pg at hmove hvalid'
  have hbook : notebook (s.sched i) (Function.update phase i g') =
      ⟨pg.db.said, pg.db.trailed, Function.update (notebook s phase).owed i g'⟩ := by
    simp only [notebook, hpg]
  cases hmove with
  | still =>
    refine ⟨.skip, hwriters, ⟨trivial, ?_, fun _ _ h => hpg ▸ h, fun _ _ _ h => by cases h⟩, iff_of_true trivial fun r hr => ?_⟩
    · rw [hbook, ← hold, Function.update_eq_self]
      rfl
    · rw [revision?_same (by rw [hpg])] at hr
      cases hr
  | upsert n hid hnotes hrevisions =>
    refine ⟨.change i n.id n.saying, hwriters, ⟨hown, ?_, fun note v hv => ?_, fun _ _ _ h => by cases h⟩,
      iff_of_true trivial fun r hr => ?_⟩
    · rw [hbook, Db.said_put h.valid.keys hvalid'.keys hid hnotes, Db.trailed_same hrevisions]
      rfl
    · rw [hpg]
      obtain ⟨r, hr, hq⟩ := hv
      exact ⟨r, hrevisions ▸ hr, hq⟩
    · rw [revision?_same (hpg ▸ hrevisions)] at hr
      cases hr
  | record r hnew hnotes hrevisions =>
    have hrecord : revision? s i = some r := revision?_append (hpg ▸ hrevisions) hnew
    refine ⟨.record i, hwriters, ⟨trivial, ?_, fun note v hv => ?_, fun j note v he hj => ?_⟩, ?_⟩
    · rw [hbook, Db.trailed_record h.valid.keys hvalid'.keys hnew hrevisions, Journal.Book.next, hold]
      rw [Db.said_same hnotes]
      rfl
    · rw [hpg]
      obtain ⟨x, hx, hq⟩ := hv
      exact ⟨x, hrevisions ▸ List.mem_append_left _ hx, hq⟩
    · cases he
      rw [hown] at hj
      cases hj
      exact ⟨r, by rw [hpg, hrevisions]; exact List.mem_append_right _ (List.mem_singleton_self r), rfl, rfl⟩
    · have hothers : (∃ j, j ≠ i ∧ (notebook s phase).Owes j r.noteId) ↔
          ∃ j < s.threads.length, j ≠ i ∧ unrevised s j r.noteId = true := by
        constructor
        · rintro ⟨j, hji, howes⟩
          refine ⟨j, ?_, hji, (h.unrevised_iff j _).2 howes⟩
          by_contra hlt
          obtain ⟨w, hw⟩ := howes
          have hidle : (notebook s phase).owed j = none := h.idle j (Nat.le_of_not_lt hlt)
          rw [hidle] at hw
          cases hw
        · rintro ⟨j, -, hji, howes⟩
          exact ⟨j, hji, (h.unrevised_iff j _).1 howes⟩
      simp only [Journal.Book.Timely, Revised, hrecord, hold, Option.mem_def, Option.some.injEq, Prod.mk.injEq]
      constructor
      · rintro htimely _ rfl
        rw [← hothers]
        exact htimely _ _ ⟨rfl, rfl⟩
      · rintro hrevised _ _ ⟨rfl, rfl⟩
        rw [hothers]
        exact hrevised r rfl

theorem next (h : Writers s phase) {step : Step} (hstep : step.setsNotes) :
    ∃ phase' e, Writers (Concurrent.next s step) phase' ∧ Booked s (Concurrent.next s step) phase phase' e ∧
      ((notebook s phase).Timely e ↔ Revised s step) := by
  have still : ∀ {s' : State}, s'.shared.db.notes = s.shared.db.notes →
      s'.shared.db.noteRevisions = s.shared.db.noteRevisions → Booked s s' phase phase .skip := by
    intro s' hnotes hrevisions
    refine ⟨trivial, ?_, fun note v hv => ?_, fun _ _ _ h => by cases h⟩
    · simp only [notebook, Journal.Book.next, Db.trailed_same hrevisions, Db.said_same hnotes]
    · obtain ⟨r, hr, hq⟩ := hv
      exact ⟨r, hrevisions ▸ hr, hq⟩
  cases step with
  | call auth c =>
    obtain ⟨input, rfl⟩ := hstep
    simp only [Concurrent.next]
    split
    case isFalse => exact ⟨phase, .skip, h, still rfl rfl, iff_of_true trivial trivial⟩
    next hauth =>
    have hphase : Function.update phase s.threads.length none = phase := by
      rw [← h.idle _ le_rfl]
      exact Function.update_eq_self _ _
    have hobeys := h.obeys.spawn (auth, .setNote input)
      ((setNote_trails auth input).map (f := Reply.note) fun _ _ h => h).run
    refine ⟨phase, .skip, ⟨h.valid, hphase ▸ hobeys, fun i who p hi => ?_, fun i hi => h.idle i ?_⟩, still rfl rfl,
      iff_of_true trivial trivial⟩
    · rcases Conf.spawn_threads hi with hi | ⟨rfl, rfl, -⟩
      · exact h.sure i who p hi
      · rw [h.idle _ le_rfl]
        exact ⟨h.valid, AuthCtx.authentic.caller hauth, fun _ h => by cases h⟩
    · simp only [Conf.spawn, List.length_append, List.length_singleton] at hi
      omega
  | turn i => exact h.turn i
  | server e =>
    simp only [Concurrent.next]
    split
    case isFalse => exact ⟨phase, .skip, h, still rfl rfl, iff_of_true trivial trivial⟩
    have hnotes : (s.shared.next e).db.notes = s.shared.db.notes :=
      Pg.next_frame h.valid e (·.notes) fun db w hw => Write.frame_notes (fun hmem => hstep.1 (hw hmem)) db
    have hrevisions : (s.shared.next e).db.noteRevisions = s.shared.db.noteRevisions :=
      Pg.next_frame h.valid e (·.noteRevisions) fun db w hw => Write.frame_noteRevisions (fun hmem => hstep.2 (hw hmem)) db
    have hext : s.shared.db.Extends (s.shared.next e).db :=
      Pg.next_lift h.valid e .refl .trans fun _ _ _ _ _ hw _ => hw.extends
    refine ⟨phase, .skip, ⟨h.valid.next e, h.obeys, fun i who p hi => ?_, h.idle⟩, still hnotes hrevisions,
      iff_of_true trivial trivial⟩
    obtain ⟨-, hcaller, hin⟩ := h.sure i who p hi
    refine ⟨h.valid.next e, hext.agents _ _ hcaller, fun x hx => ?_⟩
    rw [Db.noteIn, hnotes]
    exact hin x hx

/-- What the books keep at every step, when their log takes what is recorded and loses nothing, they keep in a run. -/
theorem run {C : Journal.Book Nat Uuid Saying → (Uuid → Saying → Prop) → Prop}
    (hC : ∀ b log log' e, Journal.Book.Allows b e → (∀ k v, log k v → log' k v) →
      (∀ i k v, e = .record i → b.owed i = some (k, v) → log' k v) → C b log → C (b.next e) log')
    {steps : List Step} (hsteps : ∀ step ∈ steps, step.setsNotes) (h : Writers s phase)
    (h₀ : C (notebook s phase) s.shared.db.Trails) : ∃ phase', Writers (after s steps) phase' ∧
      C (notebook (after s steps) phase') (after s steps).shared.db.Trails := by
  induction steps generalizing s phase with
  | nil => exact ⟨phase, h, h₀⟩
  | cons step steps ih =>
    obtain ⟨phase', e, h', hbooked, -⟩ := h.next (hsteps step List.mem_cons_self)
    refine ih (fun step hstep => hsteps step (List.mem_cons_of_mem _ hstep)) h' ?_
    rw [hbooked.book]
    exact hC _ _ _ e hbooked.allows hbooked.trails hbooked.records h₀

end Writers

/-- In every state of a run, the newest revision of every note that no call still has a revision of to insert says what
    the note says, if and only if every call that inserts a revision finds the note as it has set it, or leaves a later
    revision to a call that has set the note too. What a note ever said is in its trail, whatever the order. -/
theorem newest_revision_iff {now : Time} {steps : List Step} (hsteps : ∀ step ∈ steps, step.setsNotes) :
    ((∀ before, before <+: steps → Newest (after (start (Pg.init now)) before)) ↔
      Runs.Along next Revised (start (Pg.init now)) steps) ∧
    ∀ before between note v, before ++ between <+: steps →
      (after (start (Pg.init now)) before).shared.db.said note = some v →
      (∀ i, unrevised (after (start (Pg.init now)) (before ++ between)) i note = false) →
      (after (start (Pg.init now)) (before ++ between)).shared.db.Trails note v := by
  constructor
  · refine Runs.along_iff (I := fun s => ∃ phase, Writers s phase) ⟨_, Writers.start now⟩ (fun note _ => rfl)
      (fun step hstep s h => ?_) fun step hstep s h hnewest => ?_
    · obtain ⟨phase, h⟩ := h
      obtain ⟨phase', -, h', -⟩ := h.next (hsteps step hstep)
      exact ⟨phase', h'⟩
    · obtain ⟨phase, h⟩ := h
      obtain ⟨phase', e, h', hbooked, htimely⟩ := h.next (hsteps step hstep)
      rw [h'.newest_iff, hbooked.book, Journal.Book.faithful_next (h.newest_iff.1 hnewest) hbooked.allows, htimely]
  · intro before between note v hpre hsaid hfree
    have hmem : ∀ step ∈ before ++ between, step.setsNotes := fun step h => hsteps step (hpre.subset h)
    obtain ⟨phase, h, hcovers⟩ := (Writers.start now).run (C := fun b log => b.Covers log)
      (fun _ _ _ _ => Journal.Book.covers_next) (fun step h => hmem step (List.mem_append_left _ h))
      fun note v h => by cases h
    obtain ⟨phase', h', hcovered⟩ := h.run (C := fun b log => b.Covered log note v)
      (fun _ _ _ _ hallows hlog hrecord => Journal.Book.covered_next hallows hlog hrecord)
      (fun step h => hmem step (List.mem_append_right _ h)) (hcovers note v hsaid)
    have hlast : after (after (start (Pg.init now)) before) between = after (start (Pg.init now)) (before ++ between) :=
      Runs.after_append _ _ _ |>.symm
    rw [hlast] at h' hcovered
    rcases hcovered with htrails | ⟨i, howed⟩
    · exact htrails
    · have howes : unrevised (after (Concurrent.start (Pg.init now)) (before ++ between)) i note = true :=
        (h'.unrevised_iff i note).2 ⟨v, howed⟩
      rw [hfree i] at howes
      cases howes

end Concurrent
end CrewSync

namespace CrewSync.Concurrent
open Sample
attribute [local instance] Platform.ascii

/-- Ann sets a note; bob sets it after her revision. -/
def setInTurn : List Step :=
  crew.map .server ++ [.call ann (.setNote ⟨none, "motd", "hello", none⟩), .turn 0, .turn 0, .turn 0,
    .call bob (.setNote ⟨none, "motd", "bye", none⟩), .turn 1, .turn 1, .turn 1]

theorem setInTurn_newest : Newest (after (start (Pg.init 0)) setInTurn) :=
  (@newest_revision_iff Platform.ascii 0 setInTurn
    (by simp [setInTurn, crew, Step.setsNotes, Event.writes, Command.writes])).1.2 (by decide) setInTurn
    (List.prefix_refl setInTurn)

/-- Bob sets the note before her revision, and inserts his own first. -/
def setAtOnce : List Step :=
  crew.map .server ++ [.call ann (.setNote ⟨none, "motd", "hello", none⟩), .call bob (.setNote ⟨none, "motd", "bye", none⟩),
    .turn 0, .turn 1, .turn 1, .turn 0, .turn 0, .turn 1]

/-- Every call has returned; the note says what bob has set it to, and its newest revision is ann's. -/
theorem setAtOnce_trail :
    let s := after (start (Pg.init 0)) setAtOnce
    (s.threads.all fun t => t.2.result?.isSome) = true ∧
      (∃ n ∈ s.shared.db.notes, n.value = "bye" ∧ n.updatedBy = some bob.agentId ∧
        s.shared.db.trailed n.id = some ("hello", some ann.agentId)) ∧
      ¬ Newest s := by
  intro s
  have hreturned : (s.threads.all fun t => t.2.result?.isSome) = true := by decide
  have hnote : ∃ n ∈ s.shared.db.notes, n.value = "bye" ∧ n.updatedBy = some bob.agentId ∧
      s.shared.db.trailed n.id = some ("hello", some ann.agentId) ∧
      s.shared.db.said n.id = some ("bye", some bob.agentId) := by decide
  obtain ⟨n, hn, hvalue, hby, htrailed, hsaid⟩ := hnote
  refine ⟨hreturned, ⟨n, hn, hvalue, hby, htrailed⟩, fun hnewest => ?_⟩
  have hsame := hnewest n.id fun i => ?_
  · rw [htrailed, hsaid] at hsame
    exact absurd hsame (by simp)
  · exact unrevised_of_returned (fun t ht => List.all_eq_true.1 hreturned t (List.mem_of_getElem? ht)) n.id

end CrewSync.Concurrent
