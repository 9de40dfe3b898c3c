import CrewSync.Footprint.Calls
import CrewSync.Footprint.Threads
import CrewSync.Lib.Arrival
import Mathlib.Data.List.Dedup

/-! The task calls as threads: how far a call has come, and what each of its statements does to the tasks and
    their dependencies. -/

namespace CrewSync
open Arrival Threads
open Bus (Reads)

namespace Db

/-- The tasks in the order of their creation. -/
def taskIds (db : Db) : List Uuid := db.tasks.map (·.id)

/-- The task is one of the team's, with the key. -/
def taskAt (db : Db) (task team : Uuid) (key : String) : Prop :=
  ∃ t ∈ db.tasks, t.id = task ∧ t.teamId = team ∧ t.key = key

/-- What only grows: agents and tasks stay where they are, and a new task comes last. -/
structure Extends (db db' : Db) : Prop where
  agents : ∀ a t, db.agentIn a t → db'.agentIn a t
  tasks : ∀ k t, db.taskIn k t → db'.taskIn k t
  keys : ∀ k t key, db.taskAt k t key → db'.taskAt k t key
  order : db.taskIds <+: db'.taskIds

namespace Extends
variable {db db' db'' : Db}

theorem refl (db : Db) : db.Extends db := ⟨fun _ _ h => h, fun _ _ h => h, fun _ _ _ h => h, List.prefix_rfl⟩

theorem trans (h : db.Extends db') (h' : db'.Extends db'') : db.Extends db'' :=
  ⟨fun a t ha => h'.agents a t (h.agents a t ha), fun k t hk => h'.tasks k t (h.tasks k t hk),
    fun k t key hk => h'.keys k t key (h.keys k t key hk), h.order.trans h'.order⟩

end Extends
end Db

theorem Write.Legal.extends {db : Db} {base seqs : Seqs} {w : Write} (hw : w.Legal base seqs db) :
    db.Extends (w.apply db) := by
  have hsame : (w.apply db).tasks = db.tasks → db.Extends (w.apply db) := fun h =>
    ⟨fun _ _ => hw.agentIn, fun _ _ => hw.taskIn, fun _ _ _ hk => by rwa [Db.taskAt, h],
      ⟨[], by rw [Db.taskIds, Db.taskIds, h, List.append_nil]⟩⟩
  cases w with
  | insertTask r =>
    refine ⟨fun _ _ => hw.agentIn, fun _ _ => hw.taskIn, fun k t key hk => ?_, ?_⟩
    · obtain ⟨x, hx, h⟩ := hk
      exact ⟨x, List.mem_append_left _ hx, h⟩
    · simp only [Db.taskIds, Write.apply, List.map_append]
      exact List.prefix_append ..
  | updateTasks p f =>
    refine ⟨fun _ _ => hw.agentIn, fun _ _ => hw.taskIn, fun k t key hk => ?_, ?_⟩
    · obtain ⟨x, hx, hid, hteam, hkey⟩ := hk
      refine ⟨_, List.mem_map_of_mem hx, ?_⟩
      split
      · next hp =>
        obtain ⟨hid', hkey', -⟩ := hw x hx hp
        simp only [Db.taskKey, Prod.mk.injEq] at hkey'
        exact ⟨hid'.trans hid, hkey'.1.trans hteam, hkey'.2.trans hkey⟩
      · exact ⟨hid, hteam, hkey⟩
    · have : ((Write.updateTasks p f).apply db).taskIds = db.taskIds := by
        simp only [Db.taskIds, Write.apply, Rows.update, List.map_map]
        refine List.map_congr_left fun x hx => ?_
        simp only [Function.comp_apply]
        split
        · next hp => exact (hw x hx hp).1
        · rfl
      exact ⟨[], by rw [this, List.append_nil]⟩
  | _ => exact hsame rfl

theorem Wrote.extends {ok : Time → Db → Write → Prop} {pg pg' : Pg} (h : Wrote ok pg pg') (hv : pg.Valid) :
    pg.db.Extends pg'.db :=
  h.lift hv .refl .trans fun _ _ _ _ _ hw _ => hw.extends

/-- A task that is done or cancelled stays as it is. -/
def Db.Finishes (db db' : Db) : Prop := ∀ t ∈ db.tasks, t.status.finished = true → t ∈ db'.tasks

/-! ### The protocol -/

/-- How far a task call has come. -/
inductive TaskPhase where
  /-- It has looked up the tasks that it names, each with its key. -/
  | found (deps : List (String × Uuid))
  /-- It has inserted the task, and these of its dependencies are still to be inserted. -/
  | owes (task : Uuid) (deps : List Uuid)
  /-- It has updated the row of the task. -/
  | updated (task : Uuid) (key : String)

namespace TaskPhase

/-- What the call knows of the tables, whatever the others do. -/
def Knows (team : Uuid) (db : Db) : TaskPhase → Prop
  | .found deps => ∀ x ∈ deps, db.taskAt x.2 team x.1
  | .owes task deps => db.taskIn task team ∧ deps.Nodup ∧
      ∀ d ∈ deps, db.taskIn d team ∧ Before db.taskIds d task ∧ ⟨task, d⟩ ∉ db.taskDeps
  | .updated task key => db.taskAt task team key

/-- No dependency is left to insert. -/
def Settled : TaskPhase → Prop
  | .owes _ deps => deps = []
  | _ => True

/-- A claim is answered with the task that it took. -/
def Answered : Reply → TaskPhase → Prop
  | .claim r, g => g.Settled ∧ (r.claimed = true → ∃ task key, g = .updated task key ∧ ∀ t ∈ r.task, t.key = key)
  | _, g => g.Settled

end TaskPhase

def Call.claims : Call → Bool
  | .claimTask .. | .claimNextTask _ => true
  | _ => false

/-- The rows that the `UPDATE` of a claim takes. -/
def Call.takes [Platform] (auth : AuthCtx) (pg : Pg) : Call → Task → Bool
  | .claimTask raw _ => fun t => (normalizeKey raw).toOption.any fun key => claimable auth key pg t
  | .claimNextTask _ => fun t => (candidate auth.teamId pg).any (·.id == t.id)
  | _ => fun _ => false

/-- The dependencies that a call names. -/
def Call.dependsOn : Call → List String
  | .createTask input => input.dependsOn
  | _ => []

/-- The statement inserts a dependency of the task. -/
def Stmt.declares (task : Uuid) : Stmt → Bool
  | .insertTaskDep t _ => t == task
  | _ => false

/-- A statement of a task call. -/
inductive TaskStep [Platform] (auth : AuthCtx) (c : Call) : TaskPhase → Stmt → Pg → TaskPhase → Pg → Prop
  /-- A query, or a statement that fails. -/
  | still {g : TaskPhase} {l : Stmt} {pg : Pg} (hg : g.Settled) : TaskStep auth c g l pg g pg
  | lookup {deps : List (String × Uuid)} {pg : Pg} (x : String × Uuid) :
    TaskStep auth c (.found deps) (.select .tasks) pg (.found (deps ++ [x])) pg
  | create {deps : List (String × Uuid)} {pg pg' : Pg} (task : Uuid)
    (hall : c.dependsOn.map normalizeKey = deps.map fun x => .ok x.1) (hnew : task ∉ pg.db.taskIds)
    (hids : pg'.db.taskIds = pg.db.taskIds ++ [task]) (hdeps : pg'.db.taskDeps = pg.db.taskDeps) :
    TaskStep auth c (.found deps) (.insert .tasks) pg (.owes task (sortDedup (deps.map (·.2)))) pg'
  | depend {task dep : Uuid} {deps : List Uuid} {pg pg' : Pg}
    (hids : pg'.db.taskIds = pg.db.taskIds) (hdeps : pg'.db.taskDeps = pg.db.taskDeps ++ [⟨task, dep⟩]) :
    TaskStep auth c (.owes task (dep :: deps)) (.insertTaskDep task dep) pg (.owes task deps) pg'
  | update {pg pg' : Pg} {g : TaskPhase} (hclaim : c.claims = true → ∀ task key, g = .updated task key →
      ∃ t ∈ pg.db.tasks, t.id = task ∧ c.takes auth pg t = true) (hids : pg'.db.taskIds = pg.db.taskIds) (hdeps : pg'.db.taskDeps = pg.db.taskDeps)
    (hg : g = .found [] ∨ ∃ task key, g = .updated task key) :
    TaskStep auth c (.found []) (.update .tasks) pg g pg'
  | record {g : TaskPhase} {pg pg' : Pg} (hg : g.Settled) (hids : pg'.db.taskIds = pg.db.taskIds)
    (hdeps : pg'.db.taskDeps = pg.db.taskDeps) : TaskStep auth c g (.insert .taskEvents) pg g pg'

def taskProtocol [Platform] (auth : AuthCtx) (c : Call) : Protocol Stmt Pg TaskPhase where
  sure g pg := pg.Valid ∧ Caller auth.agentId auth.teamId pg.db ∧ g.Knows auth.teamId pg.db
  ready _ _ := true
  step g l pg g' pg' := TaskStep auth c g l pg g' pg' ∧ Wrote (fun _ _ _ => True) pg pg' ∧ pg.db.Finishes pg'.db ∧
    g'.Knows auth.teamId pg'.db

/-- The writes of a statement, without their authors. -/
theorem Sql.Writes.wrote {β : Type} {ok : Time → Db → Write → Prop} {P : Db → Prop} {s : Sql β} {Q : β → Db → Prop}
    (h : Sql.Writes ok P s Q) {pg : Pg} (hv : pg.Valid) (hP : P pg.db) {b : β} {seqs : Seqs} {ws : List Write}
    (hs : s pg = .ok (b, seqs, ws)) :
    Wrote (fun _ _ _ => True) pg { pg with db := pg.db.write ws, seqs } ∧ Q b (pg.db.write ws) := by
  obtain ⟨hb, ht, hq⟩ := h pg hv hP b seqs ws hs
  exact ⟨⟨ws, rfl, hb, rfl, ht.imp fun _ _ _ => trivial⟩, hq⟩

/-! ### Statements -/

section
variable [Platform] {auth : AuthCtx} {c : Call} {pg : Pg}

theorem insertTask_step {deps : List (String × Uuid)} {key title : String} {description : Option String}
    {metadata : Json} (hs : (taskProtocol auth c).sure (.found deps) pg)
    (hall : c.dependsOn.map normalizeKey = deps.map fun x => .ok x.1) {id : Uuid} {seqs : Seqs} {ws : List Write}
    (h : insertTask auth key title description metadata pg = .ok (id, seqs, ws)) :
    (taskProtocol auth c).step (.found deps) (.insert .tasks) pg (.owes id (sortDedup (deps.map (·.2))))
      { pg with db := pg.db.write ws, seqs } := by
  obtain ⟨hv, hcaller, hknows⟩ := hs
  obtain ⟨hw, hin⟩ := (insertTask_writes (List.Subset.refl [Table.tasks, .webhookDeliveries])).wrote
    (P := fun _ => True) hv trivial h
  obtain ⟨t, rfl, hnew, htasks, hdeps, -⟩ := insertTask_rows h
  have hids : (pg.db.write ws).taskIds = pg.db.taskIds ++ [id] := by
    simp only [Db.taskIds, htasks, List.map_append, List.map_cons, List.map_nil, newTask]
  have hfresh : id ∉ pg.db.taskIds := by
    intro hmem
    obtain ⟨r, hr, hrid⟩ := List.mem_map.1 hmem
    exact hnew r hr hrid
  refine ⟨.create id hall hfresh hids hdeps, hw, fun r hr _ => ?_, hin, List.nodup_dedup _, fun d hd => ?_⟩
  · change r ∈ (pg.db.write ws).tasks
    exact htasks ▸ List.mem_append_left _ hr
  · simp only [sortDedup, List.mem_dedup, Rows.mem_orderBy, List.mem_map] at hd
    obtain ⟨x, hx, rfl⟩ := hd
    obtain ⟨r, hr, hrid, hrteam, hrkey⟩ := hw.extends hv |>.keys _ _ _ (hknows x hx)
    have hold : x.2 ∈ pg.db.taskIds := by
      obtain ⟨r, hr, hrid, -⟩ := hknows x hx
      exact List.mem_map.2 ⟨r, hr, hrid⟩
    refine ⟨List.any_eq_true.2 ⟨r, hr, by simp [hrid, hrteam]⟩, ?_, fun hmem => ?_⟩
    · change Before (pg.db.write ws).taskIds x.2 id
      exact hids ▸ before_new hold id
    · -- No edge starts at a task that is not there yet.
      change (⟨id, x.2⟩ : TaskDep) ∈ (pg.db.write ws).taskDeps at hmem
      rw [hdeps] at hmem
      obtain ⟨team, hin, -⟩ := hv.refs.taskDeps _ hmem
      obtain ⟨r, hr, hq⟩ := List.any_eq_true.1 hin
      simp only [Bool.and_eq_true, beq_iff_eq] at hq
      exact hfresh (List.mem_map.2 ⟨r, hr, hq.1⟩)

omit [Platform] in
theorem insertTaskDep_ok {task dep team : Uuid} (htask : pg.db.taskIn task team) (hdep : pg.db.taskIn dep team)
    (hne : task ≠ dep) (hnew : ⟨task, dep⟩ ∉ pg.db.taskDeps) :
    insertTaskDep task dep pg = .ok ((), pg.seqs, [.insertTaskDep ⟨task, dep⟩]) := by
  have hok : pg.db.taskDepOk ⟨task, dep⟩ = true := Db.taskDepOk_iff.2 ⟨hne, team, htask, hdep⟩
  have hfree : (pg.db.taskDeps.any fun d => d == ⟨task, dep⟩) = false := by
    rw [List.any_eq_false]
    intro d hd heq
    exact hnew (eq_of_beq heq ▸ hd)
  simp only [insertTaskDep, hok, hfree, Bool.not_false, Bool.and_self, if_true]

/-- The edges that a call owes are inserted, whatever the others do. -/
theorem insertTaskDep_step {task dep : Uuid} {deps : List Uuid}
    (hs : (taskProtocol auth c).sure (.owes task (dep :: deps)) pg) :
    insertTaskDep task dep pg = .ok ((), pg.seqs, [.insertTaskDep ⟨task, dep⟩]) ∧
      (taskProtocol auth c).step (.owes task (dep :: deps)) (.insertTaskDep task dep) pg (.owes task deps)
        { pg with db := pg.db.write [.insertTaskDep ⟨task, dep⟩], seqs := pg.seqs } := by
  obtain ⟨hv, hcaller, hin, hnodup, hdeps⟩ := hs
  obtain ⟨hdep, hbefore, hnew⟩ := hdeps dep List.mem_cons_self
  obtain ⟨hnotin, hnodup⟩ := List.nodup_cons.1 hnodup
  have hne : task ≠ dep := fun h => by
    have := hbefore.idxOf_lt hv.keys.tasks
    rw [h] at this
    exact lt_irrefl _ this
  have hok := insertTaskDep_ok hin hdep hne hnew
  refine ⟨hok, .depend rfl rfl, ?_, fun _ h _ => h, hin, hnodup, fun d hd => ?_⟩
  · exact ((insertTaskDep_writes (List.mem_singleton_self _)).wrote hv ⟨hcaller, hin⟩ hok).1
  · obtain ⟨hd₁, hd₂, hd₃⟩ := hdeps d (List.mem_cons_of_mem _ hd)
    refine ⟨hd₁, hd₂, fun hmem => ?_⟩
    rcases List.mem_append.1 hmem with hmem | hmem
    · exact hd₃ hmem
    · simp only [List.mem_singleton, TaskDep.mk.injEq, true_and] at hmem
      exact hnotin (hmem ▸ hd)

theorem insertTaskEvent_step {task : Uuid} {event : String} {detail : Option String} {g : TaskPhase}
    (hs : (taskProtocol auth c).sure g pg) (hg : g.Settled) (hin : pg.db.taskIn task auth.teamId) {seqs : Seqs}
    {ws : List Write} (h : insertTaskEvent task auth.agentId event detail pg = .ok ((), seqs, ws)) :
    (taskProtocol auth c).step g (.insert .taskEvents) pg g { pg with db := pg.db.write ws, seqs } := by
  obtain ⟨hv, hcaller, hknows⟩ := hs
  obtain ⟨hw, -⟩ := (insertTaskEvent_writes (List.mem_singleton_self _)).wrote hv ⟨hcaller, hin⟩ h
  simp only [insertTaskEvent] at h
  split at h
  · simp only [Except.ok.injEq, Prod.mk.injEq, true_and] at h
    obtain ⟨rfl, rfl⟩ := h
    exact ⟨.record hg rfl rfl, hw, fun _ h _ => h, hknows⟩
  · exact absurd h (by simp)

end

/-- Where a call is after its `UPDATE`. -/
def TaskPhase.ofUpdate : Option (Uuid × String) → TaskPhase
  | none => .found []
  | some x => .updated x.1 x.2

section
variable [Platform] {auth : AuthCtx} {c : Call} {pg : Pg}

theorem updateTask_ok {p : Task → Bool} {f : Task → Task} {b : Option (Uuid × String)} {seqs : Seqs} {ws : List Write}
    (h : updateTask p f pg = .ok (b, seqs, ws)) :
    b = ((pg.db.tasks.filter p).head?.map fun t => (t.id, t.key)) ∧
      (pg.db.write ws).tasks = Rows.update p f pg.db.tasks ∧ (pg.db.write ws).taskDeps = pg.db.taskDeps ∧
      (pg.db.write ws).taskEvents = pg.db.taskEvents := by
  simp only [updateTask] at h
  split at h
  · simp only [Except.ok.injEq, Prod.mk.injEq] at h
    obtain ⟨rfl, -, rfl⟩ := h
    obtain ⟨ds, ns, e⟩ := Db.write_outbox
      (taskTriggers_outbox pg ((pg.db.tasks.filter p).map fun t => (some t, f t)) pg.seqs)
      ((Write.updateTasks p f).apply pg.db)
    rw [Db.write_cons, e]
    exact ⟨rfl, rfl, rfl, rfl⟩
  · exact absurd h (by simp)

/-- The row in the answer. -/
theorem updateTask_row {p : Task → Bool} {f : Task → Task} {b : Option (Uuid × String)} {seqs : Seqs} {ws : List Write}
    (h : updateTask p f pg = .ok (b, seqs, ws)) {x : Uuid × String} (hx : b = some x) :
    ∃ t ∈ pg.db.tasks, p t = true ∧ x = (t.id, t.key) := by
  rw [(updateTask_ok h).1] at hx
  obtain ⟨t, ht, rfl⟩ := Option.map_eq_some_iff.1 hx
  obtain ⟨htask, hpt⟩ := List.mem_filter.1 (List.mem_of_mem_head? ht)
  exact ⟨t, htask, hpt, rfl⟩

theorem updateTask_step {p : Task → Bool} {f : Task → Task} (hs : (taskProtocol auth c).sure (.found []) pg)
    (hp : ∀ t ∈ pg.db.tasks, p t = true → t.teamId = auth.teamId ∧ t.status.finished = false ∧
      (c.claims = true → c.takes auth pg t = true))
    (hf : ∀ t, (f t).id = t.id ∧ Db.taskKey (f t) = Db.taskKey t ∧ (f t).createdBy = t.createdBy ∧
      ((f t).claimedBy = t.claimedBy ∨ (f t).claimedBy = none ∨ (f t).claimedBy = some auth.agentId))
    {b : Option (Uuid × String)} {seqs : Seqs} {ws : List Write} (h : updateTask p f pg = .ok (b, seqs, ws)) :
    (taskProtocol auth c).step (.found []) (.update .tasks) pg (.ofUpdate b) { pg with db := pg.db.write ws, seqs } := by
  obtain ⟨hv, -, -⟩ := hs
  obtain ⟨hb, htrail, -⟩ := updateTask_writes (List.Subset.refl [Table.tasks, .webhookDeliveries]) hv
    (fun t ht hpt => (hp t ht hpt).1) hf b seqs ws h
  have hw : Wrote (fun _ _ _ => True) pg { pg with db := pg.db.write ws, seqs } :=
    ⟨ws, rfl, hb, rfl, htrail.imp fun _ _ _ => trivial⟩
  obtain ⟨-, htasks, hdeps, -⟩ := updateTask_ok h
  have hids : (pg.db.write ws).taskIds = pg.db.taskIds := by
    simp only [Db.taskIds, htasks, Rows.update, List.map_map]
    refine List.map_congr_left fun t _ => ?_
    simp only [Function.comp_apply]
    split
    · exact (hf t).1
    · rfl
  have hkept : pg.db.Finishes (pg.db.write ws) := by
    intro t ht hfin
    have hpt : p t = false := by
      cases hpt : p t with
      | false => rfl
      | true => rw [(hp t ht hpt).2.1] at hfin; cases hfin
    rw [htasks]
    exact Rows.mem_update.2 ⟨t, ht, by simp [hpt]⟩
  cases b with
  | none =>
    exact ⟨.update (fun _ _ _ h => by cases h) hids hdeps (.inl rfl), hw, hkept, fun _ h => by cases h⟩
  | some x =>
    obtain ⟨t, ht, hpt, rfl⟩ := updateTask_row h rfl
    refine ⟨.update (fun hc task key hg => ?_) hids hdeps (.inr ⟨_, _, rfl⟩), hw, hkept, ?_⟩
    · cases hg
      exact ⟨t, ht, rfl, (hp t ht hpt).2.2 hc⟩
    · exact (hw.extends hv).keys _ _ _ ⟨t, ht, rfl, (hp t ht hpt).1, rfl⟩

/-! ### Calls -/

omit [Platform] in
theorem fetchTask_reads {key : String} : Reads (fetchTask auth key) :=
  .bind .select fun r => by cases r <;> simp

omit [Platform] in
theorem noClaimHere_reads {key : String} : Reads (noClaimHere auth key) := by
  refine .bind (.attempt fetchTask_reads) fun r => ?_
  cases r with
  | error e => exact .pure
  | ok current => exact .ite .pure .pure

omit [Platform] in
theorem updated_taskIn {db : Db} {team task : Uuid} {key : String} (h : (TaskPhase.updated task key).Knows team db) :
    db.taskIn task team := by
  obtain ⟨t, ht, hid, hteam, -⟩ := h
  exact List.any_eq_true.2 ⟨t, ht, by simp [hid, hteam]⟩

omit [Platform] in
theorem finished_of_open {t : Task} (h : t.status = .«open» ∨ t.status = .claimed) : t.status.finished = false := by
  rcases h with h | h <;> simp [h, TaskStatus.finished]

omit [Platform] in
theorem claimable_iff {key : String} {t : Task} (h : claimable auth key pg t = true) :
    t.teamId = auth.teamId ∧ t.key = key ∧ t.status.finished = false ∧ pg.db.blocked t.id = false := by
  simp only [claimable, Bool.and_eq_true, Bool.or_eq_true, beq_iff_eq, Bool.not_eq_true'] at h
  obtain ⟨⟨⟨⟨hteam, hkey⟩, hopen⟩, -⟩, hblocked⟩ := h
  exact ⟨hteam, hkey, finished_of_open hopen, hblocked⟩

/-- A claim takes tasks of its team that are not blocked. -/
theorem Call.takes_unblocked (hk : pg.db.Keys pg.seqs) {t : Task} (ht : t ∈ pg.db.tasks)
    (h : c.takes auth pg t = true) : pg.db.blocked t.id = false := by
  cases c with
  | claimTask raw lease =>
    obtain ⟨key, -, hclaim⟩ := (Option.any_eq_true _ _).1 h
    exact (claimable_iff hclaim).2.2.2
  | claimNextTask lease =>
    obtain ⟨r, hr, hid⟩ := (Option.any_eq_true _ _).1 h
    obtain ⟨hmem, hav⟩ := candidate_mem hr
    have heq : r = t := hk.tasks.eq hmem ht (by simpa using hid)
    subst heq
    simp only [available, Bool.and_eq_true, Bool.not_eq_true'] at hav
    exact hav.2
  | _ => cases h

omit [Platform] in
theorem ownClaim_open {key : String} {t : Task} (h : ownClaim auth key t = true) :
    (t.teamId = auth.teamId ∧ t.key = key) ∧ t.status.finished = false := by
  simp only [ownClaim, Bool.and_eq_true, beq_iff_eq] at h
  exact ⟨h.1.1, finished_of_open (.inr h.1.2)⟩

/-- The calls on tasks. -/
def Call.onTasks : Call → Bool
  | .createTask _ | .claimTask .. | .claimNextTask _ | .renewTaskLease .. | .releaseTask _ | .completeTask .. => true
  | _ => false

end

end CrewSync
