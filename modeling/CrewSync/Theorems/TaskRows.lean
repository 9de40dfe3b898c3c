import CrewSync.Theorems.TaskExclusion

/-! The rows of `tasks` over whole runs. An event leaves them alone, adds an open one with its dependencies, or is
    the `UPDATE` of one of five calls on the rows that its `WHERE` clause finds. -/

namespace CrewSync
section
variable [Platform]

/-- The rows that a call on `tasks` finds, and what it sets. -/
inductive TaskChange (pg : Pg) (auth : AuthCtx) : Call → (Task → Bool) → (Task → Task) → Prop
  | claim {raw key : String} (lease : Option Int) (h : normalizeKey raw = .ok key) :
    TaskChange pg auth (.claimTask raw lease) (claimable auth key pg) (setClaimed auth (leaseOf lease) pg.now)
  | claimNext (lease : Option Int) :
    TaskChange pg auth (.claimNextTask lease) (fun t => (candidate auth.teamId pg).any (·.id == t.id))
      (setClaimed auth (leaseOf lease) pg.now)
  | renew {raw key : String} (lease : Option Int) (h : normalizeKey raw = .ok key) :
    TaskChange pg auth (.renewTaskLease raw lease) (ownClaim auth key)
      fun t => { t with leaseExpiresAt := some (pg.now + secs (leaseOf lease)), updatedAt := pg.now }
  | release {raw key : String} (h : normalizeKey raw = .ok key) :
    TaskChange pg auth (.releaseTask raw) (ownClaim auth key) fun t => { t with
      status := .«open», claimedBy := none, claimedSession := none, claimedAt := none
      leaseExpiresAt := none, updatedAt := pg.now }
  | complete {raw key : String} {result result' : Option String} (h : normalizeKey raw = .ok key)
    (hr : checkTextOpt "task result" result maxResultBytes = .ok result') :
    TaskChange pg auth (.completeTask raw result)
      (fun t => t.teamId == auth.teamId && t.key == key && (t.status == .«open» || t.status == .claimed))
      fun t => { t with status := .done, result := result', leaseExpiresAt := none, updatedAt := pg.now }

/-- What an event does to the tasks and to their dependencies. -/
inductive TasksNext (pg : Pg) (e : Event) (pg' : Pg) : Prop
  | same (tasks : pg'.db.tasks = pg.db.tasks) (deps : pg'.db.taskDeps = pg.db.taskDeps)
  | created {auth : AuthCtx} {id : Uuid} {key title : String} {description : Option String} {metadata : Json}
    {new : List TaskDep} (named : normalizeKey key = .ok key) (fresh : ∀ t ∈ pg.db.tasks, t.id ≠ id) (own : ∀ d ∈ new, d.taskId = id)
    (tasks : pg'.db.tasks = pg.db.tasks ++ [newTask auth id pg.now key title description metadata])
    (deps : pg'.db.taskDeps = pg.db.taskDeps ++ new)
  | changed {auth : AuthCtx} {pid : Nat} {c : Call} {p : Task → Bool} {f : Task → Task} (event : e = .call auth pid c)
    (authentic : auth.authentic pg.db = true) (change : TaskChange pg auth c p f) (tasks : pg'.db.tasks = Rows.update p f pg.db.tasks)
    (deps : pg'.db.taskDeps = pg.db.taskDeps)

section
variable {pg : Pg} {auth : AuthCtx} {c : Call} {p : Task → Bool} {f : Task → Task} {t : Task}

namespace Pg

theorem next_tasks (hv : pg.Valid) (e : Event) : TasksNext pg e (pg.next e) := by
  have deps : .taskDeps ∉ e.writes → (pg.next e).db.taskDeps = pg.db.taskDeps := fun hn =>
    next_frame hv e (·.taskDeps) fun db w hw => by
      cases w <;> first | rfl | exact absurd (hw List.mem_cons_self) hn
  have frame : .tasks ∉ e.writes → .taskDeps ∉ e.writes → TasksNext pg e (pg.next e) := fun ht hd =>
    .same (next_frame hv e (·.tasks) fun db w hw => w.frame_tasks (fun h => ht (hw h)) db) (deps hd)
  cases e with
  | call auth pid c =>
    by_cases hauth : auth.authentic pg.db = true
    swap
    · have hnext : pg.next (.call auth pid c) = pg := by rw [next, call, if_neg hauth]
      exact .same (by rw [hnext]) (by rw [hnext])
    have hexec : ∀ {α : Type} {g : α → Reply} {x : Bus α}, c.run auth pid = g <$> x →
        pg.next (.call auth pid c) = (x.exec pg).2 := by
      intro α g x h
      rw [next, call, if_pos hauth, h, Bus.exec_map]
    -- A call that fails before its `UPDATE`, or whose `UPDATE` fails, changes nothing.
    have changed : ∀ {α : Type} {g : α → Reply} {x : Bus α}, c.run auth pid = g <$> x → .taskDeps ∉ c.writes →
        ((∃ e, x.exec pg = (.error e, pg)) ∨ ∃ p f, TaskChange pg auth c p f ∧
          ((x.exec pg).2.db.tasks = pg.db.tasks ∨ (x.exec pg).2.db.tasks = Rows.update p f pg.db.tasks)) →
        TasksNext pg (.call auth pid c) (pg.next (.call auth pid c)) := by
      intro α g x hrun hw h
      rcases h with ⟨e, h⟩ | ⟨p, f, hchange, h | h⟩
      · exact .same (by rw [hexec hrun, h]) (by rw [hexec hrun, h])
      · exact .same (by rw [hexec hrun, h]) (deps hw)
      · exact .changed rfl hauth hchange (by rw [hexec hrun, h]) (deps hw)
    cases c with
    | createTask input =>
      rw [hexec rfl]
      rcases (createTask_creates input : Bus.Moves (Creates auth) _) pg with
        ⟨htasks, hdeps⟩ | ⟨id, key, title, description, metadata, new, hkey, hfresh, hown, htasks, hdeps⟩
      · exact .same htasks hdeps
      · exact .created hkey hfresh hown htasks hdeps
    | claimTask raw lease =>
      refine changed rfl (by simp [Call.writes]) ?_
      rcases claimTask_cases auth pg raw lease with h | ⟨key, hkey, h⟩
      · exact .inl h
      · exact .inr ⟨_, _, .claim lease hkey, h.tasks⟩
    | claimNextTask lease =>
      exact changed rfl (by simp [Call.writes]) (.inr ⟨_, _, .claimNext lease, (claimNextTask_claims auth pg lease).tasks⟩)
    | renewTaskLease raw lease =>
      refine changed rfl (by simp [Call.writes]) ?_
      rcases renewLease_cases auth pg raw lease with h | ⟨key, hkey, h⟩
      · exact .inl h
      · exact .inr ⟨_, _, .renew lease hkey, h.tasks⟩
    | releaseTask raw =>
      refine changed rfl (by simp [Call.writes]) ?_
      rcases releaseTask_cases auth pg raw with h | ⟨key, hkey, h⟩
      · exact .inl h
      · exact .inr ⟨_, _, .release hkey, h.tasks⟩
    | completeTask raw result =>
      refine changed rfl (by simp [Call.writes]) ?_
      rcases completeTask_cases auth pg raw result with h | ⟨key, result', hkey, hresult, h⟩
      · exact .inl h
      · exact .inr ⟨_, _, .complete hkey hresult, h.tasks⟩
    | _ => exact frame (by simp [Event.writes, Call.writes]) (by simp [Event.writes, Call.writes])
  | command pid c =>
    exact frame (by cases c <;> simp [Event.writes, Command.writes]) (by cases c <;> simp [Event.writes, Command.writes])
  | tick d => exact .same rfl rfl
  | _ => exact frame (by simp [Event.writes]) (by simp [Event.writes])

end Pg

/-! ### The rows that a call finds -/

omit [Platform] in
/-- `claim_next_task` changes the candidate only. -/
theorem candidate_available (hv : pg.Valid) (ht : t ∈ pg.db.tasks)
    (h : (candidate auth.teamId pg).any (·.id == t.id) = true) : available auth.teamId pg t = true := by
  obtain ⟨c, hc, hid⟩ := (Option.any_eq_true _ _).1 h
  obtain ⟨hmem, hav⟩ := candidate_mem hc
  obtain rfl := hv.keys.tasks.eq hmem ht (by simpa using hid)
  exact hav

omit [Platform] in
/-- A row that a call changes is open or claimed. -/
theorem TaskChange.unfinished (h : TaskChange pg auth c p f) (hv : pg.Valid) (ht : t ∈ pg.db.tasks) (hp : p t = true) :
    t.status = .«open» ∨ t.status = .claimed := by
  cases h with
  | claim =>
    simp only [claimable, Bool.and_eq_true, Bool.or_eq_true, beq_iff_eq] at hp
    exact hp.1.1.2
  | claimNext =>
    have hav := candidate_available hv ht hp
    simp only [available, Bool.and_eq_true, Bool.or_eq_true, beq_iff_eq] at hav
    exact hav.1.2.imp_right And.left
  | renew => exact .inr (Pg.ownClaim_iff.1 hp).2.2.1
  | release => exact .inr (Pg.ownClaim_iff.1 hp).2.2.1
  | complete =>
    simp only [Bool.and_eq_true, Bool.or_eq_true, beq_iff_eq] at hp
    exact hp.2

omit [Platform] in
theorem TaskChange.key (h : TaskChange pg auth c p f) (t : Task) :
    (f t).id = t.id ∧ Db.taskKey (f t) = Db.taskKey t ∧ (f t).createdAt = t.createdAt := by
  cases h <;> exact ⟨rfl, rfl, rfl⟩

/-! ### Well-formed rows -/

/-- The columns of a task agree with its status. -/
structure Task.WellFormed (now : Time) (t : Task) : Prop where
  «open» : t.status = .«open» → t.claimedBy = none ∧ t.claimedSession = none ∧ t.claimedAt = none ∧
    t.leaseExpiresAt = none ∧ t.result = none
  claimed : t.status = .claimed → t.claimedBy ≠ none ∧ t.claimedSession ≠ none ∧ t.claimedAt ≠ none ∧
    (∃ e, t.leaseExpiresAt = some e ∧ e ≤ now + secs maxLeaseSecs) ∧ t.result = none
  done : t.status = .done → t.leaseExpiresAt = none

omit [Platform] in
theorem Task.WellFormed.mono {now now' : Time} (h : t.WellFormed now) (hle : now ≤ now') : t.WellFormed now' where
  «open» := h.open
  claimed hs := by
    obtain ⟨hby, hsession, hat, ⟨e, he, hlease⟩, hresult⟩ := h.claimed hs
    exact ⟨hby, hsession, hat, ⟨e, he, hlease.trans (by simpa using hle)⟩, hresult⟩
  done := h.done

omit [Platform] in
theorem newTask_wellFormed (id : Uuid) (now : Time) (key title : String) (description : Option String) (metadata : Json) :
    (newTask auth id now key title description metadata).WellFormed now where
  «open» _ := ⟨rfl, rfl, rfl, rfl, rfl⟩
  claimed h := by cases h
  done h := by cases h

omit [Platform] in
/-- Whatever lease a caller asks for, it ends within a day. -/
theorem leaseOf_le (lease : Option Int) : secs (leaseOf lease) ≤ secs maxLeaseSecs := by
  have : leaseOf lease ≤ maxLeaseSecs := by
    simp only [leaseOf, clamp, maxLeaseSecs]
    omega
  exact Int.mul_le_mul_of_nonneg_right this (by decide)

omit [Platform] in
/-- Every call leaves the row that it changes well formed. -/
theorem TaskChange.wellFormed (h : TaskChange pg auth c p f) (hv : pg.Valid) (ht : t ∈ pg.db.tasks) (hp : p t = true)
    (hwf : t.WellFormed pg.now) : (f t).WellFormed pg.now := by
  have hresult : t.result = none := by
    rcases h.unfinished hv ht hp with hs | hs
    · exact (hwf.open hs).2.2.2.2
    · exact (hwf.claimed hs).2.2.2.2
  have claimed : ∀ lease, (setClaimed auth (leaseOf lease) pg.now t).WellFormed pg.now := fun lease =>
    { «open» := fun h => by cases h
      claimed := fun _ => ⟨by simp [setClaimed], by simp [setClaimed], by simp [setClaimed],
        ⟨_, rfl, Int.add_le_add_left (leaseOf_le lease) _⟩, hresult⟩
      done := fun h => by cases h }
  cases h with
  | claim lease => exact claimed lease
  | claimNext lease => exact claimed lease
  | renew lease =>
    obtain ⟨-, -, hs, -⟩ := Pg.ownClaim_iff.1 hp
    obtain ⟨hby, hsession, hat, -, -⟩ := hwf.claimed hs
    exact
      { «open» := fun h => absurd (hs.symm.trans h) (by simp)
        claimed := fun _ => ⟨hby, hsession, hat, ⟨_, rfl, Int.add_le_add_left (leaseOf_le lease) _⟩, hresult⟩
        done := fun h => absurd (hs.symm.trans h) (by simp) }
  | release =>
    exact
      { «open» := fun _ => ⟨rfl, rfl, rfl, rfl, hresult⟩
        claimed := fun h => by cases h
        done := fun h => by cases h }
  | complete =>
    exact
      { «open» := fun h => by cases h
        claimed := fun h => by cases h
        done := fun _ => rfl }

namespace Pg

theorem next_wellFormed (hv : pg.Valid) (hwf : ∀ t ∈ pg.db.tasks, t.WellFormed pg.now) (e : Event) :
    ∀ t ∈ (pg.next e).db.tasks, t.WellFormed (pg.next e).now := by
  intro t ht
  refine Task.WellFormed.mono ?_ (now_le_next hv e)
  rcases next_tasks hv e with htasks | ⟨-, -, -, htasks⟩ | ⟨-, -, hchange, htasks⟩
  · exact hwf t (htasks ▸ ht)
  · rw [htasks] at ht
    rcases List.mem_append.1 ht with ht | ht
    · exact hwf t ht
    · rw [List.mem_singleton.1 ht]
      exact newTask_wellFormed ..
  · rw [htasks] at ht
    obtain ⟨s, hs, rfl⟩ := Rows.mem_update.1 ht
    split
    · next hp => exact hchange.wellFormed hv hs hp (hwf s hs)
    · exact hwf s hs

/-- A finished row stays as it is. -/
theorem next_finished (hv : pg.Valid) (ht : t ∈ pg.db.tasks) (hs : t.status.finished = true) (e : Event) :
    t ∈ (pg.next e).db.tasks := by
  rcases next_tasks hv e with htasks | ⟨-, -, -, htasks⟩ | ⟨-, -, hchange, htasks⟩
  · exact htasks ▸ ht
  · rw [htasks]
    exact List.mem_append_left _ ht
  · rw [htasks]
    refine Rows.mem_update.2 ⟨t, ht, if_neg fun hp => ?_⟩
    rcases hchange.unfinished hv ht hp with h | h <;> rw [h] at hs <;> cases hs

end Pg

/-! ### Whole runs -/

theorem Pg.Reachable.wellFormed (h : pg.Reachable) : ∀ t ∈ pg.db.tasks, t.WellFormed pg.now := by
  induction h with
  | init now => exact fun t ht => by cases ht
  | next h e ih => exact Pg.next_wellFormed h.valid ih e

theorem Pg.after_finished (hv : pg.Valid) (ht : t ∈ pg.db.tasks) (hs : t.status.finished = true) (es : List Event) :
    (pg.after es).Valid ∧ t ∈ (pg.after es).db.tasks :=
  Runs.invariant (I := fun pg : Pg => pg.Valid ∧ t ∈ pg.db.tasks) (fun _ e h => ⟨h.1.next e, next_finished h.1 h.2 hs e⟩)
    ⟨hv, ht⟩ es

/-- Every row is well formed, and a row that is done is never changed again. -/
theorem tasks_wellFormed (hpg : pg.Reachable) : (∀ t ∈ pg.db.tasks, t.WellFormed pg.now) ∧
    ∀ t ∈ pg.db.tasks, t.status = .done → ∀ es, (pg.after es).db.tasks.find? (·.id == t.id) = some t := by
  refine ⟨hpg.wellFormed, fun t ht hdone es => ?_⟩
  obtain ⟨hv, hmem⟩ := Pg.after_finished hpg.valid ht (by rw [hdone]; rfl) es
  exact hv.keys.tasks.find?_eq_some hmem (by simp) fun r _ hr => by simpa using hr

/-! ### Dependencies -/

/-- A task whose dependencies are finished is never blocked again. -/
theorem Pg.next_unblocked (hv : pg.Valid) (ht : t ∈ pg.db.tasks) (hfree : pg.db.blocked t.id = false) (e : Event) :
    (pg.next e).db.blocked t.id = false := by
  have hold : ∀ d ∈ pg.db.taskDeps, d.taskId = t.id → ∀ b ∈ pg.db.tasks, b.id = d.blockedByTaskId →
      b.status.finished = true := by
    simpa [Db.blocked] using hfree
  suffices h : ∀ d ∈ (pg.next e).db.taskDeps, d.taskId = t.id → ∀ b ∈ (pg.next e).db.tasks, b.id = d.blockedByTaskId →
      b.status.finished = true by simpa [Db.blocked] using h
  intro d hd htask b hb hdep
  rcases next_tasks hv e with ⟨htasks, hdeps⟩ | ⟨-, hfresh, hown, htasks, hdeps⟩ | ⟨-, -, hchange, htasks, hdeps⟩
  · exact hold d (hdeps ▸ hd) htask b (htasks ▸ hb) hdep
  · rw [hdeps] at hd
    rcases List.mem_append.1 hd with hd | hd
    swap
    · exact absurd (htask.symm.trans (hown d hd)) (hfresh t ht)
    rw [htasks] at hb
    rcases List.mem_append.1 hb with hb | hb
    · exact hold d hd htask b hb hdep
    · -- The new task is not what an older row of `task_deps` refers to.
      obtain ⟨team, -, hdepIn⟩ := hv.refs.taskDeps d hd
      obtain ⟨b', hb', hid⟩ := List.any_eq_true.1 hdepIn
      rw [List.mem_singleton.1 hb] at hdep
      exact absurd ((beq_iff_eq.1 (Bool.and_eq_true_iff.1 hid).1).trans hdep.symm) (hfresh b' hb')
  · rw [htasks] at hb
    obtain ⟨s, hs, rfl⟩ := Rows.mem_update.1 hb
    split at hdep
    · next hp =>
      have hfinished := hold d (hdeps ▸ hd) htask s hs ((hchange.key s).1.symm.trans hdep)
      rcases hchange.unfinished hv hs hp with h | h <;> rw [h] at hfinished <;> cases hfinished
    · next hp =>
      rw [if_neg hp]
      exact hold d (hdeps ▸ hd) htask s hs hdep

omit [Platform] in
/-- A claim finds no task that is blocked. -/
theorem TaskChange.unblocked (h : TaskChange pg auth c p f) (hv : pg.Valid) (ht : t ∈ pg.db.tasks) (hp : p t = true)
    (hs : (f t).status = .claimed) : t.status = .claimed ∨ pg.db.blocked t.id = false := by
  cases h with
  | claim =>
    simp only [claimable, Bool.and_eq_true, Bool.not_eq_true'] at hp
    exact .inr hp.2
  | claimNext =>
    have hav := candidate_available hv ht hp
    simp only [available, Bool.and_eq_true, Bool.not_eq_true'] at hav
    exact .inr hav.2
  | renew => exact .inl hs
  | release => cases hs
  | complete => cases hs

/-- No claimed task is blocked. -/
theorem Pg.Reachable.unblocked (h : pg.Reachable) :
    ∀ t ∈ pg.db.tasks, t.status = .claimed → pg.db.blocked t.id = false := by
  induction h with
  | init now => exact fun t ht => by cases ht
  | @next pg h e ih =>
    have hv := h.valid
    intro t ht hs
    have old : ∀ s ∈ pg.db.tasks, s.status = .claimed ∨ pg.db.blocked s.id = false → (pg.next e).db.blocked s.id = false :=
      fun s hs h => Pg.next_unblocked hv hs (h.elim (ih s hs) id) e
    rcases Pg.next_tasks hv e with htasks | ⟨-, -, -, htasks⟩ | ⟨-, -, hchange, htasks⟩
    · exact old t (htasks ▸ ht) (.inl hs)
    · rw [htasks] at ht
      rcases List.mem_append.1 ht with ht | ht
      · exact old t ht (.inl hs)
      · rw [List.mem_singleton.1 ht] at hs
        cases hs
    · rw [htasks] at ht
      obtain ⟨s, hmem, rfl⟩ := Rows.mem_update.1 ht
      split at hs
      · next hp =>
        rw [if_pos hp, (hchange.key s).1]
        exact old s hmem (hchange.unblocked hv hmem hp hs)
      · next hp =>
        rw [if_neg hp]
        exact old s hmem (.inl hs)

end
end

section
open Sample
attribute [local instance] Platform.ascii

/-- Ann creates a task and claims it for as long as she can, and bob completes it. -/
def finishedTask : Pg :=
  (Pg.init 0).after (crew ++ [.call ann 0 (.createTask ⟨"t1", "first", none, none, []⟩),
    .call ann 0 (.claimTask "t1" (some 1000000)), .tick 5, .call bob 0 (.completeTask "t1" (some "done by bob"))])

theorem finishedTask_stays :
    (finishedTask.after [.call ann 0 (.completeTask "t1" none), .call ann 0 (.claimTask "t1" none)]).db.tasks.find?
      (·.id == finishedTask.db.tasks[0].id) = some finishedTask.db.tasks[0] :=
  (@tasks_wellFormed Platform.ascii finishedTask ((Pg.Reachable.init 0).after _)).2 finishedTask.db.tasks[0]
    (List.getElem_mem _) (by decide) _

end
end CrewSync
