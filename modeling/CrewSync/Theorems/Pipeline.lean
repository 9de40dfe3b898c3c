import CrewSync.Footprint.HistoryThreads

/-! The task calls of a crew, statement by statement. A dependency always points back in the order in which the
    tasks were created, however half-finished creations interleave; so a pipeline never locks itself up. -/

namespace CrewSync
open Arrival Threads
variable [Platform]

namespace Concurrent

/-- Among the tools, only calls on tasks. -/
def Step.onTasks : Step → Prop
  | .call _ c => c.onTasks = true
  | _ => True

/-- How far the calls of a state have come, and what holds whatever they interleave with. -/
structure Crew (s : State) (phase : Nat → TaskPhase) : Prop where
  valid : s.shared.Valid
  obeys : Obeys (fun _ who => taskProtocol who.1 who.2) (Bus.Ends TaskPhase.Settled TaskPhase.Answered) s phase
  sure : Sure (fun _ who => taskProtocol who.1 who.2) s phase
  idle : ∀ i, s.threads.length ≤ i → phase i = .found []
  /-- Two calls never insert the dependencies of one task. -/
  owner : ∀ i j task ds es, phase i = .owes task ds → phase j = .owes task es → i = j
  back : ∀ d ∈ s.shared.db.taskDeps, Before s.shared.db.taskIds d.blockedByTaskId d.taskId

end Concurrent

omit [Platform] in
theorem TaskPhase.Knows.mono {team : Uuid} {db db' : Db} {g : TaskPhase} (h : g.Knows team db) (hext : db.Extends db')
    (hdeps : ∀ task ds, g = .owes task ds → ∀ d ∈ ds, ⟨task, d⟩ ∈ db'.taskDeps → ⟨task, d⟩ ∈ db.taskDeps) :
    g.Knows team db' := by
  cases g with
  | found deps => exact fun x hx => hext.keys _ _ _ (h x hx)
  | owes task deps =>
    refine ⟨hext.tasks _ _ h.1, h.2.1, fun d hd => ?_⟩
    obtain ⟨hin, hbefore, hnew⟩ := h.2.2 d hd
    exact ⟨hext.tasks _ _ hin, hbefore.mono hext.order, fun hmem => hnew (hdeps task deps rfl d hd hmem)⟩
  | updated task key => exact hext.keys _ _ _ h

namespace TaskStep
variable {auth : AuthCtx} {c : Call} {g g' : TaskPhase} {l : Stmt} {pg pg' : Pg}

/-- A new edge is one that the call owed. -/
theorem edges (h : TaskStep auth c g l pg g' pg') {d : TaskDep} (hd : d ∈ pg'.db.taskDeps) :
    d ∈ pg.db.taskDeps ∨ ∃ ds, g = .owes d.taskId (d.blockedByTaskId :: ds) := by
  cases h with
  | still | lookup => exact .inl hd
  | create _ _ _ _ hdeps | update _ _ hdeps | record _ _ hdeps => exact .inl (hdeps ▸ hd)
  | depend _ hdeps =>
    rw [hdeps] at hd
    rcases List.mem_append.1 hd with hd | hd
    · exact .inl hd
    · obtain rfl := List.mem_singleton.1 hd
      exact .inr ⟨_, rfl⟩

/-- A call owes the edges of a task that it has just inserted, or owed some before. -/
theorem owes (h : TaskStep auth c g l pg g' pg') {task : Uuid} {ds : List Uuid} (hg' : g' = .owes task ds) :
    (∃ es, g = .owes task es) ∨ task ∉ pg.db.taskIds := by
  cases h with
  | still | record => exact .inl ⟨ds, hg'⟩
  | lookup => cases hg'
  | create _ _ hnew => cases hg'; exact .inr hnew
  | depend => cases hg'; exact .inl ⟨_, rfl⟩
  | update _ _ _ hg =>
    rcases hg with rfl | ⟨task, key, rfl⟩ <;> cases hg'

end TaskStep

namespace Concurrent
namespace Crew
variable {s : State} {phase : Nat → TaskPhase}

theorem owes_mem (h : Crew s phase) {i : Nat} {task : Uuid} {ds : List Uuid} (hi : phase i = .owes task ds) :
    task ∈ s.shared.db.taskIds := by
  by_cases hlt : i < s.threads.length
  · obtain ⟨-, -, hknows⟩ := h.sure i _ _ (List.getElem?_eq_getElem hlt)
    rw [hi] at hknows
    obtain ⟨t, ht, hq⟩ := List.any_eq_true.1 hknows.1
    simp only [Bool.and_eq_true, beq_iff_eq] at hq
    exact List.mem_map.2 ⟨t, ht, hq.1⟩
  · rw [h.idle i (Nat.le_of_not_lt hlt)] at hi
    cases hi

/-- The tables move on, and the calls stay where they are. -/
theorem moved (h : Crew s phase) {pg : Pg} (hv : pg.Valid) (hext : s.shared.db.Extends pg.db)
    (hdeps : pg.db.taskDeps = s.shared.db.taskDeps) : Crew { s with shared := pg } phase where
  valid := hv
  obeys := h.obeys
  sure i who p hi := by
    obtain ⟨-, hcaller, hknows⟩ := h.sure i who p hi
    exact ⟨hv, hext.agents _ _ hcaller, hknows.mono hext fun _ _ _ _ _ hd => hdeps ▸ hd⟩
  idle := h.idle
  owner := h.owner
  back d hd := (h.back d (hdeps ▸ hd)).mono hext.order

theorem start {pg : Pg} (hv : pg.Valid) (hdeps : pg.db.taskDeps = []) : Crew (start pg) fun _ => .found [] where
  valid := hv
  obeys i who p hi := by simp [Concurrent.start] at hi
  sure i who p hi := by simp [Concurrent.start] at hi
  idle _ _ := rfl
  owner _ _ _ _ _ h := by cases h
  back d hd := by
    have hd : d ∈ pg.db.taskDeps := hd
    rw [hdeps] at hd
    cases hd

theorem call (h : Crew s phase) (auth : AuthCtx) {c : Call} (hc : c.onTasks = true) :
    Crew (next s (.call auth c)) phase := by
  simp only [next]
  split
  case isFalse => exact h
  next hauth =>
  have hphase : Function.update phase s.threads.length (.found []) = phase := by
    rw [← h.idle _ le_rfl]
    exact Function.update_eq_self _ _
  have hobeys := h.obeys.spawn (auth, c) (Call.run_follows s.threads.length hc).run
  refine ⟨h.valid, hphase ▸ hobeys, fun i who p hi => ?_, fun i hi => h.idle i ?_, h.owner, h.back⟩
  · rcases Conf.spawn_threads hi with hi | ⟨rfl, rfl, -⟩
    · exact h.sure i who p hi
    · rw [h.idle _ le_rfl]
      exact ⟨h.valid, AuthCtx.authentic.caller hauth, fun _ h => by cases h⟩
  · simp only [Conf.spawn, List.length_append, List.length_singleton] at hi
    omega

/-- A statement of a call. -/
theorem step (h : Crew s phase) {i : Nat} {who : AuthCtx × Call} {p : Prog Stmt Pg (Except BusError Reply)} {l : Stmt}
    {g' : TaskPhase} (hi : s.threads[i]? = some (who, p))
    (hstep : (taskProtocol who.1 who.2).step (phase i) l s.shared g' (s.sched i).shared)
    (hobeys : Obeys (fun _ who => taskProtocol who.1 who.2) (Bus.Ends TaskPhase.Settled TaskPhase.Answered) (s.sched i)
      (Function.update phase i g')) : Crew (s.sched i) (Function.update phase i g') := by
  obtain ⟨hmove, hwrote, -, hknows⟩ := hstep
  obtain ⟨hv, hcaller, hsure⟩ := h.sure i who p hi
  have hext := hwrote.extends hv
  have hsame : ∀ who' p', s.threads[i]? = some (who', p') → who' = who := fun who' p' h => by
    rw [hi] at h
    cases h
    rfl
  refine ⟨hwrote.valid hv, hobeys, h.sure.sched (fun who' p' hi' => ?_) fun j who' p' hji hj hs => ?_, fun j hj => ?_,
    fun j k task ds es hj hk => ?_, fun d hd => ?_⟩
  · rw [hsame who' p' hi']
    exact ⟨hwrote.valid hv, hext.agents _ _ hcaller, hknows⟩
  · refine ⟨hwrote.valid hv, hext.agents _ _ hs.2.1, hs.2.2.mono hext fun task ds hg d _ hmem => ?_⟩
    rcases hmove.edges hmem with hold | ⟨es, hown⟩
    · exact hold
    · exact absurd (h.owner j i task ds _ hg hown) hji
  · rw [Conf.length_sched] at hj
    have hlt := (List.getElem?_eq_some_iff.1 hi).1
    rw [Function.update_of_ne (by omega)]
    exact h.idle j hj
  · -- The one who turns owes nothing that another owes: what it inserts is new.
    have hnew : ∀ k ds es, k ≠ i → g' = .owes task ds → phase k = .owes task es → False := by
      intro k ds es hki hg hk
      rcases hmove.owes hg with ⟨ds', hi'⟩ | hnew
      · exact hki (h.owner k i task es ds' hk hi')
      · exact hnew (h.owes_mem hk)
    by_cases hji : j = i <;> by_cases hki : k = i
    · rw [hji, hki]
    · subst hji
      rw [Function.update_self] at hj
      rw [Function.update_of_ne hki] at hk
      exact (hnew k ds es hki hj hk).elim
    · subst hki
      rw [Function.update_self] at hk
      rw [Function.update_of_ne hji] at hj
      exact (hnew j es ds hji hk hj).elim
    · rw [Function.update_of_ne hji] at hj
      rw [Function.update_of_ne hki] at hk
      exact h.owner _ _ _ _ _ hj hk
  · rcases hmove.edges hd with hold | ⟨ds, hown⟩
    · exact (h.back d hold).mono hext.order
    · rw [hown] at hsure
      exact (hsure.2.2 _ List.mem_cons_self).2.1.mono hext.order

/-- A turn: nothing, or a statement of the call. -/
theorem turn (h : Crew s phase) (i : Nat) :
    s.sched i = s ∨ ∃ who p l g', s.threads[i]? = some (who, p) ∧ p.next? = some l ∧
      (taskProtocol who.1 who.2).step (phase i) l s.shared g' (s.sched i).shared ∧
      Crew (s.sched i) (Function.update phase i g') := by
  rcases h.obeys.sched h.sure i with heq | ⟨who, p, l, g', hi, hl, -, hstep, hobeys⟩
  · exact .inl heq
  · exact .inr ⟨who, p, l, g', hi, hl, hstep, h.step hi hstep hobeys⟩

/-- Commands, the dispatcher and the clock leave tasks and dependencies alone. -/
theorem server_tasks (hv : s.shared.Valid) (e : Event) :
    (next s (.server e)).shared.db.tasks = s.shared.db.tasks ∧
      (next s (.server e)).shared.db.taskDeps = s.shared.db.taskDeps := by
  simp only [next]
  split
  case isFalse => exact ⟨rfl, rfl⟩
  next hapart =>
  have hwrites : Table.tasks ∉ e.writes ∧ Table.taskDeps ∉ e.writes := by
    cases e with
    | call => cases hapart
    | command pid c => cases c <;> simp [Event.writes, Command.writes]
    | claim | record | prune | tick => simp [Event.writes]
  exact ⟨Pg.next_frame hv e (·.tasks) fun db w hw => Write.frame_tasks (fun h => hwrites.1 (hw h)) db,
    Pg.next_frame hv e (·.taskDeps) fun db w hw => Write.frame_taskDeps (fun h => hwrites.2 (hw h)) db⟩

theorem server (h : Crew s phase) (e : Event) : Crew (next s (.server e)) phase := by
  have hdeps := (server_tasks h.valid e).2
  simp only [next] at hdeps ⊢
  split
  case isFalse => exact h
  next hapart =>
  rw [if_pos hapart] at hdeps
  exact h.moved (h.valid.next e)
    (Pg.next_lift h.valid e .refl .trans fun _ _ _ _ _ hw _ => hw.extends) hdeps

theorem next (h : Crew s phase) {step : Step} (hstep : step.onTasks) : ∃ phase', Crew (Concurrent.next s step) phase' := by
  cases step with
  | call auth c => exact ⟨phase, h.call auth hstep⟩
  | turn i =>
    rcases h.turn i with heq | ⟨_, _, _, g', _, _, _, h'⟩
    · exact ⟨phase, by rw [Concurrent.next, heq]; exact h⟩
    · exact ⟨_, h'⟩
  | server e => exact ⟨phase, h.server e⟩

theorem after (h : Crew s phase) {steps : List Step} (hsteps : ∀ step ∈ steps, step.onTasks) :
    ∃ phase', Crew (Concurrent.after s steps) phase' := by
  induction steps generalizing s phase with
  | nil => exact ⟨phase, h⟩
  | cons step steps ih =>
    obtain ⟨phase', h'⟩ := h.next (hsteps step List.mem_cons_self)
    exact ih h' fun step' hs => hsteps step' (List.mem_cons_of_mem _ hs)

end Crew
end Concurrent

/-! ### The graph -/

namespace Db

/-- The task is blocked by the other one, until that one is finished. -/
def DependsOn (db : Db) (task dep : Uuid) : Prop := ⟨task, dep⟩ ∈ db.taskDeps

/-- Every dependency is finished. -/
def Unblocked (db : Db) (task : Uuid) : Prop :=
  ∀ dep, db.DependsOn task dep → ∀ t ∈ db.tasks, t.id = dep → t.status.finished = true

omit [Platform] in
theorem blocked_eq_false {db : Db} {task : Uuid} : db.blocked task = false ↔ db.Unblocked task := by
  simp only [blocked, List.any_eq_false, List.any_eq_true, Bool.and_eq_true, beq_iff_eq, Bool.not_eq_true', not_and,
    not_exists, Bool.not_eq_false, Unblocked, DependsOn]
  constructor
  · intro h dep hdep t ht hid
    exact h ⟨task, dep⟩ hdep rfl t ht hid
  · rintro h ⟨task', dep⟩ hdep rfl t ht hid
    exact h dep hdep t ht hid

omit [Platform] in
/-- Where dependencies point back in a team of tasks, the first unfinished task waits for none. -/
theorem exists_unblocked {db : Db} {seqs : Seqs} (hk : db.Keys seqs) (hr : db.Refs)
    (hback : ∀ d ∈ db.taskDeps, Before db.taskIds d.blockedByTaskId d.taskId) {t : Task} (ht : t ∈ db.tasks)
    (hopen : t.status.finished = false) :
    ∃ u ∈ db.tasks, u.teamId = t.teamId ∧ u.status.finished = false ∧ db.Unblocked u.id := by
  obtain ⟨id, -, ⟨u, hu, rfl, hteam, hfin⟩, hfirst⟩ := exists_first (l := db.taskIds) hk.tasks
    (P := fun id => ∃ u ∈ db.tasks, u.id = id ∧ u.teamId = t.teamId ∧ u.status.finished = false)
    (List.mem_map_of_mem ht) ⟨t, ht, rfl, rfl, hopen⟩
  refine ⟨u, hu, hteam, hfin, fun dep hdep v hv hid => ?_⟩
  by_contra hne
  -- The dependency is a task of the same team that came before, and it is unfinished too.
  obtain ⟨team, htask, hblock⟩ := hr.taskDeps _ hdep
  obtain ⟨u', hu', hq⟩ := List.any_eq_true.1 htask
  obtain ⟨v', hv', hq'⟩ := List.any_eq_true.1 hblock
  simp only [Bool.and_eq_true, beq_iff_eq] at hq hq'
  obtain rfl := hk.tasks.eq hu' hu hq.1
  obtain rfl := hk.tasks.eq hv' hv (hq'.1.trans hid.symm)
  exact hfirst dep (hback _ hdep) ⟨v', hv, hid, hq'.2.trans (hq.2.symm.trans hteam), Bool.eq_false_iff.2 hne⟩

end Db

namespace Concurrent

/-- Task calls, interleaved in any way, leave an acyclic graph within each team, in which some unfinished task
    of a team that has one is not blocked. -/
theorem pipeline_progresses {now : Time} {steps : List Step} (h : ∀ step ∈ steps, step.onTasks) :
    let db := (after (start (Pg.init now)) steps).shared.db
    (∀ a, ¬ Relation.TransGen db.DependsOn a a) ∧
      (∀ a b, db.DependsOn a b → ∃ team, db.taskIn a team ∧ db.taskIn b team) ∧
      ∀ t ∈ db.tasks, t.status.finished = false → ∃ u ∈ db.tasks, u.teamId = t.teamId ∧
        u.status.finished = false ∧ db.blocked u.id = false ∧ db.Unblocked u.id := by
  obtain ⟨phase, hcrew⟩ := (Crew.start (Pg.Valid.init now) rfl).after h
  obtain ⟨hk, hr⟩ := hcrew.valid
  refine ⟨acyclic hk.tasks fun a b hab => hcrew.back _ hab, fun a b hab => hr.taskDeps _ hab, fun t ht hopen => ?_⟩
  obtain ⟨u, hu, hteam, hfin, hfree⟩ := Db.exists_unblocked hk hr hcrew.back ht hopen
  exact ⟨u, hu, hteam, hfin, Db.blocked_eq_false.2 hfree, hfree⟩

end Concurrent
end CrewSync

namespace CrewSync.Concurrent
open Sample
attribute [local instance] Platform.ascii

/-- Ann creates two tasks that depend on a third one of bob's, and bob claims one of them before its dependency
    is inserted. -/
def halfway : List Step :=
  crew.map .server ++
    [.call bob (.createTask ⟨"build", "build", none, none, []⟩), .turn 0, .turn 0, .turn 0,
     .call ann (.createTask ⟨"test", "test", none, none, ["build"]⟩),
     .call ann (.createTask ⟨"ship", "ship", none, none, ["build", "test"]⟩), .turn 1, .turn 2, .turn 1, .turn 1,
     .call bob (.claimTask "test" none), .turn 3, .turn 2, .turn 2, .turn 1, .turn 2, .turn 2, .turn 2, .turn 2]

theorem halfway_progresses :
    let db := (after (start (Pg.init 0)) halfway).shared.db
    (∀ a, ¬ Relation.TransGen db.DependsOn a a) ∧ ∃ u ∈ db.tasks, u.status.finished = false ∧ db.Unblocked u.id := by
  obtain ⟨hacyclic, -, hfree⟩ := @pipeline_progresses Platform.ascii 0 halfway (by simp [halfway, crew, Step.onTasks, Call.onTasks])
  have htask : ∃ t ∈ (after (start (Pg.init 0)) halfway).shared.db.tasks, t.status.finished = false := by decide
  obtain ⟨t, ht, hopen⟩ := htask
  obtain ⟨u, hu, -, hfin, -, hun⟩ := hfree t ht hopen
  exact ⟨hacyclic, u, hu, hfin, hun⟩

example : (after (start (Pg.init 0)) halfway).shared.db.taskDeps.length = 3 := by decide

end CrewSync.Concurrent
