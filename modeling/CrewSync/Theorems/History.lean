import CrewSync.Theorems.Pipeline

/-! The history of a task, where the calls of several callers interleave. A call changes the task by one statement and
    inserts the event by another one, so the events may come in another order than the changes. -/

namespace CrewSync
open Threads
variable [Platform]

namespace Concurrent

/-- Among the tools, only calls on tasks; and nobody prunes their events. -/
def Step.logged : Step → Prop
  | .call _ c => c.onTasks = true
  | .turn _ => True
  | .server e => .taskEvents ∉ e.writes

/-- The event that the next statement of the call inserts, if it inserts one. -/
def recorded? (s : State) (i : Nat) : Option TaskEvent :=
  (s.sched i).shared.db.taskEvents.find? fun e => decide (e ∉ s.shared.db.taskEvents)

/-- The call has changed the task, and its event is still to be inserted. -/
def unrecorded (s : State) (i : Nat) (task : Uuid) : Bool :=
  (recorded? s i).any (·.taskId == task) || (s.next? i).any (·.declares task)

/-- Once no call has an event of the task to insert, the history says what the task is. -/
def Faithful (s : State) : Prop :=
  ∀ task, (∀ i, unrecorded s i task = false) → s.shared.db.replayed task = s.shared.db.standing task

/-- A call that inserts an event finds the task as the event says, or leaves a later event to a call that has changed
    the task too. -/
def Recorded (s : State) : Step → Prop
  | .turn i => ∀ e ∈ recorded? s i, s.shared.db.standing e.taskId = e.replay none ∨
      ∃ j < s.threads.length, j ≠ i ∧ unrecorded s j e.taskId = true
  | _ => True

instance decidableRecorded (s : State) : ∀ step, Decidable (Recorded s step)
  | .turn i => inferInstanceAs (Decidable (∀ e ∈ recorded? s i, s.shared.db.standing e.taskId = e.replay none ∨
      ∃ j < s.threads.length, j ≠ i ∧ unrecorded s j e.taskId = true))
  | .call .. | .server _ => isTrue trivial

/-- How far the calls of a state have come, with the events that they owe. -/
structure Audit (s : State) (phase : Nat → TaskPhase × Owed) : Prop where
  crew : Crew s fun i => (phase i).1
  obeys : Obeys (fun _ who => historyProtocol who.1 who.2) (Bus.Ends Failed Told) s phase
  idle : ∀ i, s.threads.length ≤ i → phase i = (.found [], none)

/-- The tasks, their histories, and what the calls owe. -/
def book (s : State) (phase : Nat → TaskPhase × Owed) : Journal.Book Nat Uuid Standing :=
  ⟨s.shared.db.standing, s.shared.db.replayed, fun i => (phase i).2⟩

section
variable {s : State} {i : Nat}

omit [Platform] in
theorem recorded?_same (h : (s.sched i).shared.db.taskEvents = s.shared.db.taskEvents) : recorded? s i = none := by
  rw [recorded?, h, List.find?_eq_none]
  intro e he
  simpa using he

omit [Platform] in
theorem recorded?_append {e : TaskEvent} (h : (s.sched i).shared.db.taskEvents = s.shared.db.taskEvents ++ [e])
    (hnew : ∀ x ∈ s.shared.db.taskEvents, x.id < e.id) : recorded? s i = some e := by
  have hnot : e ∉ s.shared.db.taskEvents := fun he => lt_irrefl _ (hnew e he)
  have hold : s.shared.db.taskEvents.find? (fun e => decide (e ∉ s.shared.db.taskEvents)) = none := by
    rw [List.find?_eq_none]
    intro x hx
    simpa using hx
  rw [recorded?, h, List.find?_append, hold]
  simp [hnot]

omit [Platform] in
/-- A call that has returned has no event to insert. -/
theorem unrecorded_of_returned (h : ∀ t, s.threads[i]? = some t → t.2.result?.isSome = true) (task : Uuid) :
    unrecorded s i task = false := by
  have hidle : s.sched i = s ∧ s.next? i = none := by
    cases hi : s.threads[i]? with
    | none => exact ⟨by simp only [Conf.sched, hi], by simp only [Conf.next?, hi, Option.bind_none]⟩
    | some t =>
      obtain ⟨who, p⟩ := t
      cases p with
      | act => cases h _ hi
      | ret r => exact ⟨by simp only [Conf.sched, hi], by simp only [Conf.next?, hi, Option.bind_some, Prog.next?]⟩
  simp [unrecorded, recorded?_same (congrArg (fun s : State => s.shared.db.taskEvents) hidle.1), hidle.2]

end

namespace Audit
variable {s : State} {phase : Nat → TaskPhase × Owed}

/-- What a turn is: nothing, of a call that is not there or has returned, or a statement of the call. -/
theorem statement (h : Audit s phase) (i : Nat) :
    (s.sched i = s ∧ s.next? i = none ∧ (phase i).2 = none) ∨
      ∃ who p l g', s.threads[i]? = some (who, p) ∧ s.next? i = some l ∧
        (historyProtocol who.1 who.2).step (phase i) l s.shared g' (s.sched i).shared := by
  cases hi : s.threads[i]? with
  | none =>
    refine .inl ⟨by simp only [Conf.sched, hi], by simp only [Conf.next?, hi, Option.bind_none], ?_⟩
    rw [h.idle i (List.getElem?_eq_none_iff.1 hi)]
  | some t =>
    obtain ⟨who, p⟩ := t
    have hfollows := h.obeys i who p hi
    cases p with
    | ret r =>
      refine .inl ⟨by simp only [Conf.sched, hi], by simp only [Conf.next?, hi, Option.bind_some, Prog.next?], ?_⟩
      cases r with
      | ok a => exact hfollows.2
      | error e => exact hfollows.2
    | act l ready eff rest =>
      obtain ⟨hguard, hstep⟩ := hfollows
      have hready : ready s.shared = true := by rw [hguard]; rfl
      obtain ⟨g', hmove, -⟩ := hstep s.shared (h.crew.sure i who _ hi) hready
      refine .inr ⟨who, _, l, g', rfl, by simp only [Conf.next?, hi, Option.bind_some, Prog.next?], ?_⟩
      rw [Conf.sched_act hi hready]
      exact hmove

/-- Which events are to be inserted shows in the next statements of the calls. -/
theorem unrecorded_iff (h : Audit s phase) (i : Nat) (task : Uuid) :
    unrecorded s i task = true ↔ (book s phase).Owes i task := by
  rcases h.statement i with ⟨hsame, hnext, howed⟩ | ⟨who, p, l, g', hi, hnext, hmove, hstep⟩
  · have hnone : recorded? s i = none := recorded?_same (by rw [hsame])
    simp [unrecorded, hnone, hnext, Journal.Book.Owes, book, howed]
  · simp only [unrecorded, hnext, Option.any_some, Journal.Book.Owes, book]
    generalize (phase i).2 = owed at hstep ⊢
    generalize g'.2 = owed' at hstep
    cases hstep with
    | still hl _ hevents | change _ _ hl _ hevents => simp [recorded?_same hevents, hl]
    | depend _ hevents => simp [recorded?_same hevents, Stmt.declares]
    | record e _ hnew _ hevents => simp [recorded?_append hevents hnew, Stmt.declares]

theorem faithful_iff (h : Audit s phase) : Faithful s ↔ (book s phase).Faithful := by
  have hfree : ∀ task, (∀ i, unrecorded s i task = false) ↔ ∀ i, ¬ (book s phase).Owes i task := by
    intro task
    refine forall_congr' fun i => ?_
    rw [← h.unrecorded_iff, Bool.not_eq_true]
  simp only [Faithful, Journal.Book.Faithful, hfree]
  exact Iff.rfl

theorem start (now : Time) : Audit (start (Pg.init now)) fun _ => (.found [], none) where
  crew := Crew.start (Pg.Valid.init now) rfl
  obeys i who p hi := by simp [Concurrent.start] at hi
  idle _ _ := rfl

/-- A turn moves the books on: the call changes a task, records what it has changed, or does neither. -/
theorem turn (h : Audit s phase) (i : Nat) :
    ∃ phase' e, Audit (s.sched i) phase' ∧ (book s phase).Allows e ∧ book (s.sched i) phase' = (book s phase).next e ∧
      ((book s phase).Timely e ↔ Recorded s (.turn i)) := by
  rcases h.obeys.sched h.crew.sure i with hsame | ⟨who, p, l, g', hi, hl, -, ⟨hmove, hstep⟩, hobeys⟩
  · rw [hsame]
    refine ⟨phase, .skip, h, trivial, rfl, iff_of_true trivial fun e he => ?_⟩
    rw [recorded?_same (by rw [hsame])] at he
    cases he
  have hphase : (fun j => (Function.update phase i g' j).1) = Function.update (fun j => (phase j).1) i g'.1 := by
    funext j
    by_cases hji : j = i
    · subst hji
      simp only [Function.update_self]
    · simp only [Function.update_of_ne hji]
  have howed : (fun j => (Function.update phase i g' j).2) = Function.update (fun j => (phase j).2) i g'.2 := by
    funext j
    by_cases hji : j = i
    · subst hji
      simp only [Function.update_self]
    · simp only [Function.update_of_ne hji]
  have hforget : Obeys (fun _ who => taskProtocol who.1 who.2) (Bus.Ends TaskPhase.Settled TaskPhase.Answered) (s.sched i)
      (Function.update (fun j => (phase j).1) i g'.1) := by
    intro j who' p' hj
    have := historyProtocol.forget (hobeys j who' p' hj)
    rwa [← hphase]
  have haudit : Audit (s.sched i) (Function.update phase i g') := by
    refine ⟨?_, hobeys, fun j hj => ?_⟩
    · rw [hphase]
      exact h.crew.step hi hmove hforget
    · rw [Conf.length_sched] at hj
      have hlt := (List.getElem?_eq_some_iff.1 hi).1
      rw [Function.update_of_ne (by omega)]
      exact h.idle j hj
  have hbook : ∀ actual recorded, (s.sched i).shared.db.standing = actual → (s.sched i).shared.db.replayed = recorded →
      book (s.sched i) (Function.update phase i g') = ⟨actual, recorded, Function.update (book s phase).owed i g'.2⟩ := by
    rintro _ _ rfl rfl
    simp only [book, howed]
  have hold : ∀ o, (phase i).2 = o → (book s phase).owed i = o := fun _ h => h
  refine ⟨Function.update phase i g', ?_⟩
  generalize hown : (phase i).2 = owed at hstep
  generalize g'.2 = owed' at hstep hbook
  cases hstep with
  | still _ hstanding hevents =>
    refine ⟨.skip, haudit, trivial, ?_, iff_of_true trivial fun e he => ?_⟩
    · rw [hbook _ _ hstanding (Db.replayed_same hevents), ← hold _ hown, Function.update_eq_self]
      rfl
    · rw [recorded?_same hevents] at he
      cases he
  | change task v _ hstanding hevents =>
    refine ⟨.change i task v, haudit, hown, ?_, iff_of_true trivial fun e he => ?_⟩
    · rw [hbook _ _ hstanding (Db.replayed_same hevents)]
      rfl
    · rw [recorded?_same hevents] at he
      cases he
  | @depend task dep v _ _ hstanding hevents =>
    refine ⟨.skip, haudit, trivial, ?_, iff_of_true trivial fun e he => ?_⟩
    · rw [hbook _ _ hstanding (Db.replayed_same hevents), ← hold _ hown, Function.update_eq_self]
      rfl
    · rw [recorded?_same hevents] at he
      cases he
  | @record v _ _ e hv hnew hstanding hevents =>
    refine ⟨.record i, haudit, trivial, ?_, ?_⟩
    · rw [hbook _ _ hstanding (Db.replayed_record hv hnew hevents), Journal.Book.next, hold _ hown]
      rfl
    · have hothers : (∃ j, j ≠ i ∧ (book s phase).Owes j e.taskId) ↔
          ∃ j < s.threads.length, j ≠ i ∧ unrecorded s j e.taskId = true := by
        constructor
        · rintro ⟨j, hji, howes⟩
          refine ⟨j, ?_, hji, (h.unrecorded_iff j _).2 howes⟩
          by_contra hlt
          obtain ⟨w, hw⟩ := howes
          have hidle : (book s phase).owed j = none := congrArg Prod.snd (h.idle j (Nat.le_of_not_lt hlt))
          rw [hidle] at hw
          cases hw
        · rintro ⟨j, -, hji, howes⟩
          exact ⟨j, hji, (h.unrecorded_iff j _).1 howes⟩
      have hevent : recorded? s i = some e := recorded?_append hevents hnew
      simp only [Journal.Book.Timely, Recorded, hevent, hold _ hown, Option.mem_def, Option.some.injEq, Prod.mk.injEq]
      constructor
      · rintro htimely _ rfl
        rw [hv, ← hothers]
        exact htimely _ _ ⟨rfl, rfl⟩
      · rintro hrecorded _ _ ⟨rfl, rfl⟩
        rw [hothers, ← hv none]
        exact hrecorded e rfl

theorem next (h : Audit s phase) {step : Step} (hstep : step.logged) :
    ∃ phase' e, Audit (Concurrent.next s step) phase' ∧ (book s phase).Allows e ∧
      book (Concurrent.next s step) phase' = (book s phase).next e ∧ ((book s phase).Timely e ↔ Recorded s step) := by
  cases step with
  | call auth c =>
    have hcrew := h.crew.call auth hstep
    refine ⟨phase, .skip, ?_, trivial, ?_, iff_of_true trivial trivial⟩
    · simp only [Concurrent.next] at hcrew ⊢
      split
      case isFalse => exact h
      next hauth =>
      rw [if_pos hauth] at hcrew
      have hphase : Function.update phase s.threads.length (.found [], none) = phase := by
        rw [← h.idle _ le_rfl]
        exact Function.update_eq_self _ _
      have hobeys := h.obeys.spawn (auth, c) (Call.run_tells s.threads.length hstep).run
      refine ⟨hcrew, hphase ▸ hobeys, fun i hi => h.idle i ?_⟩
      simp only [Conf.spawn, List.length_append, List.length_singleton] at hi
      omega
    · simp only [Concurrent.next]
      split <;> rfl
  | turn i => exact h.turn i
  | server e =>
    have hcrew := h.crew.server e
    have htasks := (Crew.server_tasks h.crew.valid e).1
    have hevents : (Concurrent.next s (.server e)).shared.db.taskEvents = s.shared.db.taskEvents := by
      simp only [Concurrent.next]
      split
      · exact Pg.next_frame h.crew.valid e (·.taskEvents) fun db w hw =>
          Write.frame_taskEvents (fun hmem => hstep (hw hmem)) db
      · rfl
    have hthreads : (Concurrent.next s (.server e)).threads = s.threads := by
      simp only [Concurrent.next]
      split <;> rfl
    refine ⟨phase, .skip, ⟨hcrew, fun i who p hi => h.obeys i who p (hthreads ▸ hi), fun i hi => h.idle i (hthreads ▸ hi)⟩,
      trivial, ?_, iff_of_true trivial trivial⟩
    have hstanding : (Concurrent.next s (.server e)).shared.db.standing = s.shared.db.standing := by
      funext task
      rw [Db.standing, Db.standing, htasks]
    simp only [book, Journal.Book.next, hstanding, Db.replayed_same hevents]

end Audit

/-- In every state of a run, the history of every task that no call still has an event of to insert says what the task
    is, if and only if every call that inserts an event finds the task as the event says, or leaves a later event to a
    call that has changed the task too. -/
theorem history_faithful_iff {now : Time} {steps : List Step} (hsteps : ∀ step ∈ steps, step.logged) :
    (∀ before, before <+: steps → Faithful (after (start (Pg.init now)) before)) ↔
      Runs.Along next Recorded (start (Pg.init now)) steps := by
  refine Runs.along_iff (I := fun s => ∃ phase, Audit s phase) ⟨_, Audit.start now⟩ (fun task _ => rfl)
    (fun step hstep s h => ?_) fun step hstep s h hfaithful => ?_
  · obtain ⟨phase, h⟩ := h
    obtain ⟨phase', -, h', -⟩ := h.next (hsteps step hstep)
    exact ⟨phase', h'⟩
  · obtain ⟨phase, h⟩ := h
    obtain ⟨phase', e, h', hallows, hbook, htimely⟩ := h.next (hsteps step hstep)
    rw [h'.faithful_iff, hbook, Journal.Book.faithful_next (h.faithful_iff.1 hfaithful) hallows, htimely]

end Concurrent
end CrewSync

namespace CrewSync.Concurrent
open Sample
attribute [local instance] Platform.ascii

/-- Ann creates a task and claims it; bob completes it after her event. -/
def inTurn : List Step :=
  crew.map .server ++ [.call ann (.createTask ⟨"build", "build", none, none, []⟩)] ++ List.replicate 4 (.turn 0) ++
    [.call ann (.claimTask "build" none), .turn 1, .turn 1, .turn 1, .call bob (.completeTask "build" none), .turn 2,
     .turn 2, .turn 2]

theorem inTurn_faithful : Faithful (after (start (Pg.init 0)) inTurn) :=
  (@history_faithful_iff Platform.ascii 0 inTurn
    (by simp [inTurn, crew, Step.logged, Call.onTasks, Event.writes, Command.writes])).2 (by decide) inTurn
    (List.prefix_refl inTurn)

/-- Bob completes the task before her event. -/
def raced : List Step :=
  crew.map .server ++ [.call ann (.createTask ⟨"build", "build", none, none, []⟩)] ++ List.replicate 4 (.turn 0) ++
    [.call ann (.claimTask "build" none), .turn 1, .call bob (.completeTask "build" none), .turn 2, .turn 2, .turn 2,
     .turn 1, .turn 1]

/-- Every call has returned; the task is done, and its history ends with ann's claim. -/
theorem raced_history :
    let s := after (start (Pg.init 0)) raced
    (s.threads.all fun t => t.2.result?.isSome) = true ∧
      (∃ t ∈ s.shared.db.tasks, t.status = .done ∧ s.shared.db.replayed t.id = some (.claimed, some ann.agentId) ∧
        (s.shared.db.history t.id).map (·.event) = ["created", "completed", "claimed"]) ∧
      ¬ Faithful s := by
  intro s
  have hreturned : (s.threads.all fun t => t.2.result?.isSome) = true := by decide
  have htask : ∃ t ∈ s.shared.db.tasks, t.status = .done ∧
      s.shared.db.replayed t.id = some (.claimed, some ann.agentId) ∧
      (s.shared.db.history t.id).map (·.event) = ["created", "completed", "claimed"] ∧
      s.shared.db.standing t.id = some (.done, none) := by decide
  obtain ⟨t, ht, hdone, hreplayed, hevents, hstanding⟩ := htask
  refine ⟨hreturned, ⟨t, ht, hdone, hreplayed, hevents⟩, fun hfaithful => ?_⟩
  have hsame := hfaithful t.id fun i => ?_
  · rw [hreplayed, hstanding] at hsame
    cases hsame
  · exact unrecorded_of_returned (fun t ht => List.all_eq_true.1 hreturned t (List.mem_of_getElem? ht)) t.id

end CrewSync.Concurrent
