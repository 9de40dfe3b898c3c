import CrewSync.Footprint.Faults
import CrewSync.Theorems.ClaimPaths
import CrewSync.Theorems.Text

/-! A call whose statement fails. The calls on tasks and notes commit statement by statement, so what a failing
    statement leaves behind is what the statements before it have written. -/

namespace CrewSync
open Bus (Leaves Reads)
section
variable [Platform]

/-! ### An `UPDATE` of a task, and its event -/

section
variable {pg : Pg} {auth : AuthCtx} {p : Task → Bool} {f : Task → Task} {t : Task}

omit [Platform] in
theorem Db.rows_write_notify {ws : List Write} (h : ∀ w ∈ ws, ∃ payload, w = .notify payload) (db : Db) :
    (db.write ws).rows = db.rows := by
  induction ws generalizing db with
  | nil => rfl
  | cons w ws ih =>
    obtain ⟨payload, rfl⟩ := h w List.mem_cons_self
    rw [Db.write_cons, ih fun v hv => h v (List.mem_cons_of_mem _ hv)]
    rfl

/-- No hook hears of a row that keeps its status. -/
theorem taskTriggers_notify {rows : List (Option Task × Task)}
    (h : ∀ x ∈ rows, ∃ old, x.1 = some old ∧ old.status = x.2.status) (seqs : Seqs) :
    ∀ w ∈ (taskTriggers pg rows seqs).2, ∃ payload, w = .notify payload := by
  induction rows generalizing seqs with
  | nil => simp [taskTriggers]
  | cons r rows ih =>
    obtain ⟨old, t⟩ := r
    obtain ⟨o, ho, hs⟩ := h _ List.mem_cons_self
    obtain rfl : old = some o := ho
    have hquiet : enqueueTaskWebhook pg (some o) t seqs = (seqs, []) :=
      if_pos (by simpa using hs)
    intro w hw
    rw [taskTriggers, hquiet] at hw
    rcases List.mem_cons.1 hw with rfl | hw
    · exact ⟨_, rfl⟩
    · exact ih (fun x hx => h x (List.mem_cons_of_mem _ hx)) seqs w hw

/-- An `UPDATE` of one row leaves the rows as they were if it sets what is there. -/
theorem updateTask_rows (ht : t ∈ pg.db.tasks) (hp : ∀ r ∈ pg.db.tasks, p r = true ↔ r = t)
    (hok : pg.db.taskOk (f t) = true) : ∃ seqs ws, updateTask p f pg = .ok (some (t.id, t.key), seqs, ws) ∧
      ((pg.db.write ws).rows = pg.db.rows ↔ f t = t) := by
  have hall : ((pg.db.tasks.filter p).all fun r => pg.db.taskOk (f r)) = true := List.all_eq_true.2 fun r hr => by
    obtain ⟨hmem, hpr⟩ := List.mem_filter.1 hr
    rwa [(hp r hmem).1 hpr]
  have htasks := fun ws => @updateTask_ok _ pg p f (some (t.id, t.key)) (taskTriggers pg
    ((pg.db.tasks.filter p).map fun t => (some t, f t)) pg.seqs).1 ws
  simp only [updateTask, if_pos hall, Rows.head?_filter ht hp, Option.map_some] at htasks ⊢
  obtain ⟨-, htasks, -⟩ := htasks _ rfl
  refine ⟨_, _, rfl, fun hrows => ?_, fun hf => ?_⟩
  · have hrows := congrArg Db.tasks hrows
    exact Rows.update_eq_self_iff.1 (htasks.symm.trans hrows) t ht ((hp t ht).2 rfl)
  · rw [Db.write_cons, Db.rows_write_notify (taskTriggers_notify (fun x hx => ?_) pg.seqs)]
    · simp only [Write.apply]
      rw [Rows.update_eq_self_iff.2 fun r hr hpr => by rwa [(hp r hr).1 hpr]]
    · obtain ⟨r, hr, rfl⟩ := List.mem_map.1 hx
      obtain ⟨hmem, hpr⟩ := List.mem_filter.1 hr
      obtain rfl := (hp r hmem).1 hpr
      exact ⟨_, rfl, by rw [hf]⟩

/-! ### The rest of a call -/

omit [Platform] in
@[simp] theorem fetchTask_trail (key : String) : (fetchTask auth key).trail pg = [pg] := by
  unfold fetchTask
  rw [Bus.trail_bind_ok (Bus.exec_select _ _), Bus.trail_select]
  cases pg.db.findTask auth.teamId key <;> rfl

omit [Platform] in
/-- What follows the event only reads, and answers. -/
theorem logEvent_trail {α : Type} {task agent : Uuid} {event : String} {detail : Option String} {k : Bus α} {pg' : Pg}
    (hl : (logEvent task agent event detail).exec pg = (.ok (), pg')) (hk : k.trail pg' = [pg']) :
    (logEvent task agent event detail >>= fun _ => k).trail pg = [pg, pg'] := by
  rw [Bus.trail_bind_ok hl, hk]
  rfl

omit [Platform] in
theorem logEvent_events {task agent : Uuid} {event : String} {detail : Option String} {pg' : Pg}
    (hl : (logEvent task agent event detail).exec pg = (.ok (), pg')) :
    ∃ e, pg'.db.taskEvents = pg.db.taskEvents ++ [e] := by
  simp only [logEvent, Bus.exec_execute, Sql.answer, Sql.effect, insertTaskEvent] at hl
  split at hl
  · cases hl
    exact ⟨_, rfl⟩
  · cases hl

/-- A call whose `UPDATE` finds a row: rows stay behind once the row is another one, and in any case once its event is
    there. -/
theorem updated_leaves {α : Type} (l : Stmt) {s : Sql (Option (Uuid × String))} {rest : Option (Uuid × String) → Bus α}
    {k : Bus α} {event : String} {detail : Option String} (hv : pg.Valid) (hc : Caller auth.agentId auth.teamId pg.db)
    (hs : s pg = updateTask p f pg) (hf : ∀ t, (f t).id = t.id ∧ Db.taskKey (f t) = Db.taskKey t)
    (ht : t ∈ pg.db.tasks) (hp : ∀ r ∈ pg.db.tasks, p r = true ↔ r = t) (hok : pg.db.taskOk (f t) = true)
    (hrest : rest (some (t.id, t.key)) = (do logEvent t.id auth.agentId event detail; k))
    (hk : ∀ pg' : Pg, pg'.db.findTask t.teamId t.key = some (f t) → k.trail pg' = [pg'] ∧ ∃ a, (k.exec pg').1 = .ok a) :
    Leaves (execute l s >>= rest) pg fun n => n = 1 ∧ f t ≠ t ∨ n = 2 := by
  obtain ⟨seqs, ws, hset, hrows⟩ := updateTask_rows ht hp hok
  have hu : Updated p f pg { pg with db := pg.db.write ws, seqs } := by
    have := updateTask_exec p f pg
    simp only [Sql.answer, Sql.effect, hset] at this
    rcases this with ⟨h, -⟩ | ⟨-, hu⟩
    · cases h
    · exact hu
  obtain ⟨pg₂, hl, -, hfind⟩ := hu.logged hv hc hf ht ((hp t ht).2 rfl) event detail
  obtain ⟨htrail, a, ha⟩ := hk pg₂ hfind
  have hrest' : (rest (some (t.id, t.key))).trail { pg with db := pg.db.write ws, seqs } =
      [{ pg with db := pg.db.write ws, seqs }, pg₂] := by
    rw [hrest]
    exact logEvent_trail hl htrail
  have hevents : pg₂.db.rows ≠ pg.db.rows := by
    obtain ⟨e, he⟩ := logEvent_events hl
    intro h
    have h := congrArg Db.taskEvents h
    change pg₂.db.taskEvents = pg.db.taskEvents at h
    change pg₂.db.taskEvents = (pg.db.write ws).taskEvents ++ [e] at he
    rw [h, (updateTask_ok hset).2.2.2] at he
    simp at he
  refine Leaves.execute (hs.trans hset) (by omega) (fun n pg' hn => ?_) fun n hn => ?_
  · rw [hrest'] at hn
    rcases n with _ | _ | n
    · obtain rfl : { pg with db := pg.db.write ws, seqs } = pg' := by simpa using hn
      simpa using hrows
    · obtain rfl : pg₂ = pg' := by simpa using hn
      exact iff_of_false hevents (by simp)
    · simp at hn
  · rw [hrest'] at hn
    have hn : 2 ≤ n := hn
    rw [hrest, Bus.exec_bind_ok hl, ha]
    exact iff_of_true (fun e h => by cases h) (by omega)

/-- A call whose `UPDATE` finds no row. -/
theorem unmatched_leaves {α : Type} (l : Stmt) {s : Sql (Option (Uuid × String))} {rest : Option (Uuid × String) → Bus α}
    (hs : s pg = updateTask p f pg) (hp : ∀ t ∈ pg.db.tasks, p t = false) (hrest : Reads (rest none)) :
    Leaves (execute l s >>= rest) pg fun _ => False := by
  have hnil : pg.db.tasks.filter p = [] := by simpa [List.filter_eq_nil_iff] using hp
  have hset : s pg = .ok (none, pg.seqs, [.updateTasks p f]) := by
    rw [hs]
    simp only [updateTask, hnil]
    rfl
  have hsame : pg.db.write [.updateTasks p f] = pg.db := by
    change { pg.db with tasks := Rows.update p f pg.db.tasks } = pg.db
    rw [Rows.update_eq_self hp]
  refine Leaves.execute hset id (fun n pg' hn => ?_) fun n hn => ?_
  · rw [hrest.trail _ pg' (List.mem_of_getElem? hn), hsame]
    simp
  · rw [hrest.readOnly, hsame]
    simp

/-- Where a call on a task that updates the rows with `p` leaves rows behind. -/
def Pg.Half (pg : Pg) (p : Task → Bool) (f : Task → Task) (n : Nat) : Prop :=
  ∃ t ∈ pg.db.tasks, p t = true ∧ (n = 1 ∧ f t ≠ t ∨ n = 2)

theorem update_leaves {α : Type} (l : Stmt) {s : Sql (Option (Uuid × String))} {rest : Option (Uuid × String) → Bus α}
    (hv : pg.Valid) (hc : Caller auth.agentId auth.teamId pg.db) (hs : s pg = updateTask p f pg)
    (hf : ∀ t, (f t).id = t.id ∧ Db.taskKey (f t) = Db.taskKey t)
    (hone : ∀ t ∈ pg.db.tasks, p t = true → pg.db.taskOk (f t) = true ∧ ∀ r ∈ pg.db.tasks, p r = true → r = t)
    (hnone : Reads (rest none))
    (hsome : ∀ t ∈ pg.db.tasks, p t = true → ∃ event detail k,
      rest (some (t.id, t.key)) = (do logEvent t.id auth.agentId event detail; k) ∧
        ∀ pg' : Pg, pg'.db.findTask t.teamId t.key = some (f t) → k.trail pg' = [pg'] ∧ ∃ a, (k.exec pg').1 = .ok a) :
    Leaves (execute l s >>= rest) pg (pg.Half p f) := by
  cases hfind : pg.db.tasks.find? p with
  | none =>
    have hno : ∀ t ∈ pg.db.tasks, p t = false := fun t ht => by simpa using List.find?_eq_none.1 hfind t ht
    refine (unmatched_leaves l hs hno hnone).congr fun n => ⟨?_, False.elim⟩
    rintro ⟨t, ht, hp, -⟩
    rw [hno t ht] at hp
    cases hp
  | some t =>
    have ht := List.mem_of_find?_eq_some hfind
    have hp := List.find?_some hfind
    obtain ⟨hok, huniq⟩ := hone t ht hp
    obtain ⟨event, detail, k, hrest, hk⟩ := hsome t ht hp
    have hiff : ∀ r ∈ pg.db.tasks, p r = true ↔ r = t := fun r hr => ⟨huniq r hr, fun h => h ▸ hp⟩
    refine (updated_leaves l hv hc hs hf ht hiff hok hrest hk).congr fun n => ⟨?_, fun h => ⟨t, ht, hp, h⟩⟩
    rintro ⟨r, hr, hpr, h⟩
    rwa [huniq r hr hpr] at h

/-! ### The four calls -/

omit [Platform] in
theorem fetchTask_answers {key : String} (hfind : pg.db.findTask auth.teamId key = some t) :
    (fetchTask auth key).trail pg = [pg] ∧ ∃ info, (fetchTask auth key).exec pg = (.ok info, pg) := by
  refine ⟨fetchTask_trail key, pg.db.taskInfo pg.now t, ?_⟩
  rw [fetchTask_exec, hfind]
  rfl

omit [Platform] in
/-- A granted claim ends with the task. -/
theorem granted_answers {key : String} (hfind : pg.db.findTask auth.teamId key = some t) :
    (do return { claimed := true, task := some (← fetchTask auth key), reason := none } : Bus ClaimResult).trail pg =
      [pg] ∧
    ∃ r, ((do return { claimed := true, task := some (← fetchTask auth key), reason := none } : Bus ClaimResult).exec
      pg).1 = .ok r := by
  obtain ⟨htrail, info, hexec⟩ := fetchTask_answers hfind
  rw [Bus.trail_bind_ok hexec, Bus.exec_bind_ok hexec, htrail]
  exact ⟨rfl, _, rfl⟩

theorem claimTask_leaves (hv : pg.Valid) (hc : Caller auth.agentId auth.teamId pg.db) {raw key : String}
    (lease : Option Int) (hkey : normalizeKey raw = .ok key) :
    Leaves (claimTask auth raw lease) pg (pg.Half (claimable auth key pg) (setClaimed auth (leaseOf lease) pg.now)) := by
  refine Leaves.check hkey (update_leaves _ hv hc rfl (fun t => ⟨rfl, rfl⟩) (fun t ht hp => ?_) ?_ fun t ht hp => ?_)
  · obtain ⟨hteam, hk, -⟩ := claimable_iff hp
    refine ⟨setClaimed_ok hv hc ht hteam, fun r hr hpr => ?_⟩
    obtain ⟨hteam', hk', -⟩ := claimable_iff hpr
    exact one_of_key hv ht hr ⟨hteam, hk⟩ ⟨hteam', hk'⟩
  · exact Reads.bind fetchTask_reads fun current => .pure
  · obtain ⟨hteam, hk, -⟩ := claimable_iff hp
    refine ⟨"claimed", none, _, rfl, fun pg' hfind => ?_⟩
    rw [hteam, hk] at hfind
    exact granted_answers hfind

theorem claimNextTask_leaves (hv : pg.Valid) (hc : Caller auth.agentId auth.teamId pg.db) (lease : Option Int) :
    Leaves (claimNextTask auth lease) pg (pg.Half (fun t => (candidate auth.teamId pg).any (·.id == t.id))
      (setClaimed auth (leaseOf lease) pg.now)) := by
  refine update_leaves _ hv hc rfl (fun t => ⟨rfl, rfl⟩) (fun t ht hp => ?_) .pure fun t ht hp => ?_
  · refine ⟨setClaimed_ok hv hc ht (available_iff.1 (candidate_available hv ht hp)).1, fun r hr hpr => ?_⟩
    obtain ⟨c, hc, hid⟩ := (Option.any_eq_true _ _).1 hp
    obtain ⟨c', hc', hid'⟩ := (Option.any_eq_true _ _).1 hpr
    obtain rfl : c = c' := Option.some.inj (hc.symm.trans hc')
    rw [beq_iff_eq] at hid hid'
    exact hv.keys.tasks.eq hr ht (hid'.symm.trans hid)
  · refine ⟨"claimed", some "via claim_next_task", _, rfl, fun pg' hfind => ?_⟩
    rw [(available_iff.1 (candidate_available hv ht hp)).1] at hfind
    exact granted_answers hfind

theorem releaseTask_leaves (hv : pg.Valid) (hc : Caller auth.agentId auth.teamId pg.db) {raw key : String}
    (hkey : normalizeKey raw = .ok key) :
    Leaves (releaseTask auth raw) pg (pg.Half (ownClaim auth key) fun t => { t with
      status := .«open», claimedBy := none, claimedSession := none, claimedAt := none
      leaseExpiresAt := none, updatedAt := pg.now }) := by
  refine Leaves.check hkey (update_leaves _ hv hc rfl (fun t => ⟨rfl, rfl⟩) (fun t ht hp => ?_) ?_ fun t ht hp => ?_)
  · refine ⟨?_, fun r hr hpr => one_of_key hv ht hr (ownClaim_open hp).1 (ownClaim_open hpr).1⟩
    have hok := hv.refs.tasks t ht
    simp only [Db.taskOk, Bool.and_eq_true] at hok ⊢
    exact ⟨⟨hok.1.1, rfl⟩, hok.2⟩
  · exact Reads.bind noClaimHere_reads fun _ => .throw
  · obtain ⟨hteam, hk⟩ := (ownClaim_open hp).1
    refine ⟨"released", none, _, rfl, fun pg' hfind => ?_⟩
    rw [hteam, hk] at hfind
    obtain ⟨htrail, info, hexec⟩ := fetchTask_answers hfind
    exact ⟨htrail, info, by rw [hexec]⟩

theorem completeTask_leaves (hv : pg.Valid) (hc : Caller auth.agentId auth.teamId pg.db) {raw key : String}
    {result result' : Option String} (hkey : normalizeKey raw = .ok key)
    (hresult : checkTextOpt "task result" result maxResultBytes = .ok result') :
    Leaves (completeTask auth raw result) pg (pg.Half
      (fun t => t.teamId == auth.teamId && t.key == key && (t.status == .«open» || t.status == .claimed))
      fun t => { t with status := .done, result := result', leaseExpiresAt := none, updatedAt := pg.now }) := by
  have found : ∀ t : Task, (t.teamId == auth.teamId && t.key == key && (t.status == .«open» || t.status == .claimed)) = true →
      t.teamId = auth.teamId ∧ t.key = key := by
    intro t h
    simp only [Bool.and_eq_true, beq_iff_eq] at h
    exact h.1
  refine Leaves.check hkey (Leaves.check hresult
    (update_leaves _ hv hc rfl (fun t => ⟨rfl, rfl⟩) (fun t ht hp => ?_) ?_ fun t ht hp => ?_))
  · exact ⟨hv.refs.tasks t ht, fun r hr hpr => one_of_key hv ht hr (found t hp) (found r hpr)⟩
  · exact Reads.bind fetchTask_reads fun _ => .throw
  · obtain ⟨hteam, hk⟩ := found t hp
    refine ⟨"completed", result', _, rfl, fun pg' hfind => ?_⟩
    rw [hteam, hk] at hfind
    obtain ⟨htrail, info, hexec⟩ := fetchTask_answers hfind
    exact ⟨htrail, info, by rw [hexec]⟩

end

/-! ### `create_task` -/

section
variable {pg : Pg} {auth : AuthCtx} {key : String}

/-- The dependency key is that of another task. -/
def Pg.Resolves (pg : Pg) (auth : AuthCtx) (key raw : String) (id : Uuid) : Prop :=
  ∃ depKey, normalizeKey raw = .ok depKey ∧ depKey ≠ key ∧
    (pg.db.findTask auth.teamId depKey).map (·.id) = some id

/-- A `create_task` that inserts its task. -/
structure Pg.Registers (pg : Pg) (auth : AuthCtx) (input : CreateInput) (key title : String)
    (description : Option String) (deps : List Uuid) : Prop where
  normal : normalizeKey input.key = .ok key
  titled : checkText "task title" input.title maxTitleBytes = .ok title
  named : title.isEmpty = false
  described : checkTextOpt "task description" input.description maxDescriptionBytes = .ok description
  labelled : checkMetadata "task" input.metadata = .ok ()
  free : pg.db.findTask auth.teamId key = none
  few : input.dependsOn.length ≤ maxDependencies
  resolved : List.Forall₂ (pg.Resolves auth key) input.dependsOn deps
  fresh : ∀ t ∈ pg.db.tasks, t.id ≠ Platform.randomUuid pg.seqs.uuids

omit [Platform] in
theorem lookupDeps_reads (raws : List String) : Reads (lookupDeps auth key raws) := by
  induction raws with
  | nil => exact .pure
  | cons raw raws ih =>
    refine .bind .check fun depKey => .ite (.bind .throw fun _ => ?_) ?_ <;>
    · refine .bind .select fun dep => ?_
      cases dep with
      | none => exact .throw
      | some id => exact .map ih _

omit [Platform] in
/-- The lookups: one statement for each key. -/
theorem lookupDeps_ok {raws : List String} {ids : List Uuid} (h : List.Forall₂ (pg.Resolves auth key) raws ids) :
    (lookupDeps auth key raws).exec pg = (.ok ids, pg) ∧
      ((lookupDeps auth key raws).trail pg).length = raws.length := by
  induction h with
  | nil => exact ⟨rfl, rfl⟩
  | @cons raw id raws ids hr _ ih =>
    obtain ⟨depKey, hkey, hne, hfind⟩ := hr
    obtain ⟨hexec, hlen⟩ := ih
    have hcheck : (check (normalizeKey raw)).exec pg = (.ok depKey, pg) := by rw [Bus.exec_check, hkey]
    unfold lookupDeps
    rw [Bus.exec_bind_ok hcheck, Bus.trail_bind_ok hcheck, Bus.trail_check, List.nil_append,
      if_neg (by simpa using hne), Bus.exec_bind_ok (Bus.exec_select _ _), Bus.trail_bind_ok (Bus.exec_select _ _), hfind]
    simp only [bind_pure_comp]
    rw [Bus.exec_map, Bus.trail_map, hexec]
    exact ⟨rfl, by simp [hlen]⟩

omit [Platform] in
theorem resolved_of_lookup {raws : List String} {ids : List Uuid}
    (h : ((lookupDeps auth key raws).exec pg).1 = .ok ids) : List.Forall₂ (pg.Resolves auth key) raws ids := by
  induction raws generalizing ids with
  | nil =>
    cases h
    exact .nil
  | cons raw raws ih =>
    unfold lookupDeps at h
    cases hkey : normalizeKey raw with
    | error e =>
      rw [hkey] at h
      cases h
    | ok depKey =>
      have hcheck : (check (normalizeKey raw)).exec pg = (.ok depKey, pg) := by rw [Bus.exec_check, hkey]
      rw [Bus.exec_bind_ok hcheck] at h
      split at h
      · cases h
      · next hne =>
        rw [Bus.exec_bind_ok (Bus.exec_select _ _)] at h
        cases hfind : (pg.db.findTask auth.teamId depKey).map (·.id) with
        | none =>
          rw [hfind] at h
          cases h
        | some id =>
          rw [hfind] at h
          simp only [bind_pure_comp] at h
          rw [Bus.exec_map] at h
          cases hrest : ((lookupDeps auth key raws).exec pg).1 with
          | error e =>
            rw [hrest] at h
            cases h
          | ok ids' =>
            rw [hrest] at h
            cases h
            exact .cons ⟨depKey, hkey, by simpa using hne, hfind⟩ (ih hrest)

omit [Platform] in
/-- The dependencies of a new task: none of the statements touches the tasks. -/
theorem insertDeps_trail {task team : Uuid} {deps : List Uuid} (htask : pg.db.taskIn task team = true)
    (hdeps : ∀ d ∈ deps, pg.db.taskIn d team = true ∧ task ≠ d ∧ ⟨task, d⟩ ∉ pg.db.taskDeps) (hnodup : deps.Nodup) :
    ∃ pg', (insertDeps task deps).exec pg = (.ok (), pg') ∧ pg'.db.tasks = pg.db.tasks ∧
      pg'.db.agents = pg.db.agents ∧ ((insertDeps task deps).trail pg).length = deps.length ∧
      ∀ p ∈ (insertDeps task deps).trail pg, p.db.tasks = pg.db.tasks := by
  induction deps generalizing pg with
  | nil => exact ⟨pg, rfl, rfl, rfl, rfl, fun p hp => by cases hp⟩
  | cons dep deps ih =>
    obtain ⟨hin, hne, hnew⟩ := hdeps dep List.mem_cons_self
    obtain ⟨hnotin, hnodup⟩ := List.nodup_cons.1 hnodup
    have hstep : (execute (.insertTaskDep task dep) (insertTaskDep task dep)).exec pg =
        (.ok (), { pg with db := pg.db.write [.insertTaskDep ⟨task, dep⟩] }) := by
      simp only [Bus.exec_execute, Sql.answer, Sql.effect, insertTaskDep_ok htask hin hne hnew]
      rfl
    obtain ⟨pg', hexec, htasks, hagents, hlen, htrail⟩ :=
      @ih { pg with db := pg.db.write [.insertTaskDep ⟨task, dep⟩] } htask (fun d hd => by
        obtain ⟨hin, hne, hnew⟩ := hdeps d (List.mem_cons_of_mem _ hd)
        refine ⟨hin, hne, fun hmem => ?_⟩
        rcases List.mem_append.1 hmem with hmem | hmem
        · exact hnew hmem
        · simp only [List.mem_singleton, TaskDep.mk.injEq, true_and] at hmem
          exact hnotin (hmem ▸ hd)) hnodup
    unfold insertDeps
    rw [Bus.exec_bind_ok hstep, Bus.trail_bind_ok hstep, Bus.trail_execute]
    refine ⟨pg', hexec, htasks, hagents, congrArg Nat.succ hlen, fun p hp => ?_⟩
    rcases List.mem_cons.1 hp with rfl | hp
    · rfl
    · exact htrail p hp

omit [Platform] in
theorem finishCreate_trail {team : Uuid} (key title : String) {t : Task} {deps : List Uuid}
    (ht : t ∈ pg.db.tasks) (htask : t.teamId = team)
    (hagent : pg.db.agentExists auth.agentId = true) (hfind : pg.db.findTask auth.teamId key = some t)
    (hdeps : ∀ d ∈ deps, pg.db.taskIn d team = true ∧ t.id ≠ d ∧ ⟨t.id, d⟩ ∉ pg.db.taskDeps) (hnodup : deps.Nodup) :
    (∃ info, ((finishCreate auth key title t.id deps).exec pg).1 = .ok info) ∧
      ((finishCreate auth key title t.id deps).trail pg).length = deps.length + 2 ∧
      ∀ p ∈ (finishCreate auth key title t.id deps).trail pg, p.db.tasks = pg.db.tasks := by
  have hin : pg.db.taskIn t.id team = true := List.any_eq_true.2 ⟨t, ht, by simp [htask]⟩
  obtain ⟨pg₁, hexec, htasks, hagents, hlen, htrail⟩ := insertDeps_trail hin hdeps hnodup
  have hid : pg₁.db.tasks.any (·.id == t.id) = true := by
    rw [htasks]
    exact List.any_eq_true.2 ⟨t, ht, by simp⟩
  obtain ⟨pg₂, hl, htasks', -⟩ := logEvent_ok "created" (some title) hid (by rwa [Db.agentExists, hagents])
  have hfind' : pg₂.db.findTask auth.teamId key = some t := by
    rwa [Db.findTask, htasks', htasks]
  obtain ⟨hfetch, info, hinfo⟩ := fetchTask_answers hfind'
  unfold finishCreate
  rw [Bus.exec_bind_ok hexec, Bus.trail_bind_ok hexec, Bus.exec_bind_ok hl, logEvent_trail hl hfetch, hinfo]
  refine ⟨⟨info, rfl⟩, by simp [hlen], fun p hp => ?_⟩
  simp only [List.mem_append, List.mem_cons, List.not_mem_nil, or_false] at hp
  rcases hp with hp | rfl | rfl
  · exact htrail p hp
  · exact htasks
  · exact htasks'.trans htasks

/-- The row of a new task is inserted if its `id` is new. -/
theorem insertTask_fresh (hv : pg.Valid) (hc : Caller auth.agentId auth.teamId pg.db) (title : String)
    (description : Option String) (metadata : Json) (hfree : pg.db.findTask auth.teamId key = none)
    (hfresh : ∀ t ∈ pg.db.tasks, t.id ≠ Platform.randomUuid pg.seqs.uuids) :
    ∃ seqs ws, insertTask auth key title description metadata pg =
      .ok (Platform.randomUuid pg.seqs.uuids, seqs, ws) := by
  have hok : pg.db.taskOk (newTask auth (Platform.randomUuid pg.seqs.uuids) pg.now key title description metadata) := by
    have hnone : ∀ a ∈ (none : Option Uuid), pg.db.agentIn a auth.teamId = true := fun a h => by simp at h
    have hcreator : ∀ a ∈ some auth.agentId, pg.db.agentIn a auth.teamId = true := fun a h => by
      obtain rfl := Option.some.inj h
      exact hc
    exact Db.taskOk_iff.2 ⟨hc.hasTeam hv, hnone, hcreator⟩
  have hnew : pg.db.tasks.any (fun r => r.id == Platform.randomUuid pg.seqs.uuids ||
      Db.taskKey r == (auth.teamId, key)) = false := by
    refine List.any_eq_false.2 fun r hr h => ?_
    rcases Bool.or_eq_true_iff.1 h with h | h
    · exact hfresh r hr (eq_of_beq h)
    · have := List.find?_eq_none.1 hfree r hr
      obtain ⟨hteam, hkey⟩ := Prod.mk.inj (eq_of_beq h)
      simp [hteam, hkey] at this
  have hboth : (pg.db.taskOk (newTask auth (Platform.randomUuid pg.seqs.uuids) pg.now key title description metadata) &&
      !pg.db.tasks.any fun r => r.id == Platform.randomUuid pg.seqs.uuids || Db.taskKey r == (auth.teamId, key)) = true := by
    rw [hok, hnew]
    rfl
  exact ⟨_, _, if_pos hboth⟩

omit [Platform] in
theorem resolved_mem {raws : List String} {ids : List Uuid} (h : List.Forall₂ (pg.Resolves auth key) raws ids)
    {id : Uuid} (hid : id ∈ ids) : ∃ t ∈ pg.db.tasks, t.id = id ∧ t.teamId = auth.teamId := by
  induction h with
  | nil => cases hid
  | cons hr _ ih =>
    rcases List.mem_cons.1 hid with rfl | hid
    · obtain ⟨depKey, -, -, hfind⟩ := hr
      obtain ⟨t, ht, rfl⟩ := Option.map_eq_some_iff.1 hfind
      exact ⟨t, (Db.findTask_some ht).1, rfl, (Db.findTask_some ht).2.1⟩
    · exact ih hid

/-- Once the task is inserted, whatever fails leaves it behind. -/
theorem inserted_leaves (hv : pg.Valid) (hc : Caller auth.agentId auth.teamId pg.db) {title : String}
    {description : Option String} {metadata : Json} {raws : List String} {deps : List Uuid}
    (hfree : pg.db.findTask auth.teamId key = none)
    (hfresh : ∀ t ∈ pg.db.tasks, t.id ≠ Platform.randomUuid pg.seqs.uuids)
    (hdeps : List.Forall₂ (pg.Resolves auth key) raws deps) :
    Leaves (execute (.insert .tasks) (insertTask auth key title description metadata) >>= fun id =>
      finishCreate auth key title id (sortDedup deps)) pg fun n => 1 ≤ n ∧ n ≤ (sortDedup deps).length + 2 := by
  obtain ⟨seqs, ws, hs⟩ := insertTask_fresh hv hc title description metadata hfree hfresh
  obtain ⟨t, ht, hnew, htasks, htaskDeps, -⟩ := insertTask_rows hs
  obtain ⟨hw, -⟩ := (insertTask_writes (List.Subset.refl [Table.tasks, .webhookDeliveries])).wrote
    (P := fun _ => True) hv trivial hs
  have htid : t.id = Platform.randomUuid pg.seqs.uuids := ht ▸ rfl
  have hteam : t.teamId = auth.teamId := ht ▸ rfl
  have hmem : t ∈ (pg.db.write ws).tasks := htasks ▸ List.mem_append_right _ (List.mem_singleton_self t)
  have hfind : (pg.db.write ws).findTask auth.teamId key = some t := by
    rw [Db.findTask, htasks, List.find?_append, show pg.db.tasks.find? _ = none from hfree]
    simp [ht, newTask]
  have hin : ∀ d ∈ sortDedup deps, (pg.db.write ws).taskIn d auth.teamId = true ∧ t.id ≠ d ∧
      ⟨t.id, d⟩ ∉ (pg.db.write ws).taskDeps := by
    intro d hd
    simp only [sortDedup, List.mem_dedup, Rows.mem_orderBy] at hd
    obtain ⟨r, hr, rfl, hrteam⟩ := resolved_mem hdeps hd
    refine ⟨List.any_eq_true.2 ⟨r, htasks ▸ List.mem_append_left _ hr, by simp [hrteam]⟩, fun h => ?_, fun hedge => ?_⟩
    · exact hnew r hr (h.symm.trans htid)
    · -- No edge starts at a task that was not there.
      rw [htaskDeps] at hedge
      obtain ⟨team, hfrom, -⟩ := hv.refs.taskDeps _ hedge
      obtain ⟨u, hu, hq⟩ := List.any_eq_true.1 hfrom
      simp only [Bool.and_eq_true, beq_iff_eq] at hq
      exact hnew u hu (hq.1.trans htid)
  have hagent : (pg.db.write ws).agentExists auth.agentId = true :=
    Db.agentExists_iff.2 ⟨_, hw.agentIn hc⟩
  let pg' : Pg := { pg with db := pg.db.write ws, seqs }
  obtain ⟨⟨info, hinfo⟩, hlen, htrail⟩ := finishCreate_trail key title (show t ∈ pg'.db.tasks from hmem) hteam hagent
    hfind hin (List.nodup_dedup _)
  rw [htid] at hinfo hlen htrail
  have hrows : ∀ pg' : Pg, pg'.db.tasks = (pg.db.write ws).tasks → pg'.db.rows ≠ pg.db.rows := by
    intro pg' htasks' h
    have h := congrArg Db.tasks h
    change pg'.db.tasks = pg.db.tasks at h
    rw [htasks', htasks] at h
    simp at h
  refine Leaves.execute hs (by omega) (fun n pg' hn => ?_) fun n hn => ?_
  · have hlt := (List.getElem?_eq_some_iff.1 hn).1
    rw [hlen] at hlt
    exact iff_of_false (hrows pg' (htrail pg' (List.mem_of_getElem? hn))) (by omega)
  · rw [hlen] at hn
    rw [hinfo]
    exact iff_of_true (fun e h => by cases h) (by omega)

theorem registers_leaves (hv : pg.Valid) (hc : Caller auth.agentId auth.teamId pg.db) {input : CreateInput}
    {title : String} {description : Option String} {deps : List Uuid}
    (h : pg.Registers auth input key title description deps) : Leaves (createTask auth input) pg fun n =>
      input.dependsOn.length + 2 ≤ n ∧ n ≤ input.dependsOn.length + (sortDedup deps).length + 3 := by
  obtain ⟨hexec, hlen⟩ := lookupDeps_ok h.resolved
  have hok : ((lookupDeps auth key input.dependsOn).exec pg).1 = .ok deps := by rw [hexec]
  have hlookup := Leaves.after (f := fun deps => do
      let id ← execute (.insert .tasks) (insertTask auth key title description (input.metadata.getD "\x7b\x7d"))
      finishCreate auth key title id (sortDedup deps))
    (lookupDeps_reads input.dependsOn) hok (inserted_leaves hv hc h.free h.fresh h.resolved)
  rw [hlen] at hlookup
  unfold createTask
  refine Leaves.check h.normal (Leaves.check h.titled ?_)
  rw [if_neg (by simp [h.named])]
  refine Leaves.check h.described (Leaves.check h.labelled ?_)
  refine (Leaves.select (E := fun n => input.dependsOn.length ≤ n ∧ 1 ≤ n - input.dependsOn.length ∧
    n - input.dependsOn.length ≤ (sortDedup deps).length + 2) ?_).congr fun n => by omega
  simp only
  rw [if_neg (by simp [h.free]), if_neg (by have := h.few; omega)]
  exact hlookup

/-- A `create_task` that does not get to its `INSERT`. -/
theorem unregistered_leaves {input : CreateInput}
    (h : ∀ key title description deps, ¬ pg.Registers auth input key title description deps) :
    Leaves (createTask auth input) pg fun _ => False := by
  unfold createTask
  cases hkey : normalizeKey input.key with
  | error e => exact Leaves.check_error rfl
  | ok key =>
  refine Leaves.check rfl ?_
  cases htitle : checkText "task title" input.title maxTitleBytes with
  | error e => exact Leaves.check_error rfl
  | ok title =>
  refine Leaves.check rfl ?_
  split
  · exact Leaves.throw_bind
  next hnamed =>
  cases hdesc : checkTextOpt "task description" input.description maxDescriptionBytes with
  | error e => exact Leaves.check_error rfl
  | ok description =>
  refine Leaves.check rfl ?_
  cases hmeta : checkMetadata "task" input.metadata with
  | error e => exact Leaves.check_error rfl
  | ok _ =>
  refine Leaves.check rfl ((Leaves.select (E := fun _ => False) ?_).congr fun n => by simp)
  split
  · exact Leaves.throw_bind
  next hfree =>
  dsimp only
  split
  · exact Leaves.throw_bind
  next hfew =>
  cases hlook : ((lookupDeps auth key input.dependsOn).exec pg).1 with
  | error e => exact Leaves.refused (lookupDeps_reads _) hlook
  | ok deps =>
  refine (Leaves.after (E := fun _ => False) (lookupDeps_reads _) hlook ?_).congr fun n => by simp
  have hused : ¬ ∀ t ∈ pg.db.tasks, t.id ≠ Platform.randomUuid pg.seqs.uuids := fun hfresh =>
    h key title description deps ⟨hkey, htitle, by simpa using hnamed, hdesc, hmeta, by simpa using hfree,
      by omega, resolved_of_lookup hlook, hfresh⟩
  -- The `id` of the row is that of another task.
  push Not at hused
  obtain ⟨t, ht, hid⟩ := hused
  refine Leaves.execute_error (e := .db) (if_neg ?_)
  have : pg.db.tasks.any (fun r => r.id == Platform.randomUuid pg.seqs.uuids ||
      Db.taskKey r == (auth.teamId, key)) = true := List.any_eq_true.2 ⟨t, ht, by simp [hid]⟩
  intro hok
  have hnot : (!pg.db.tasks.any fun r => r.id == Platform.randomUuid pg.seqs.uuids ||
      Db.taskKey r == (auth.teamId, key)) = true := (Bool.and_eq_true_iff.1 hok).2
  rw [this] at hnot
  cases hnot

end

/-! ### `set_note` -/

section
variable {pg : Pg} {auth : AuthCtx} {input : SetInput}

/-- The tags as `set_note` stores them. -/
def SetInput.tagList (input : SetInput) : List String :=
  ((input.tags.getD []).map fun t => Platform.toLowercase (trim t)).filter fun t => !t.isEmpty

/-- The row that `set_note` writes. -/
def Pg.noteRow (pg : Pg) (auth : AuthCtx) (input : SetInput) : Note :=
  newNote auth (((pg.db.findNote auth.teamId (normalizeScope input.scope) (trim input.key)).map (·.id)).getD
    (Platform.randomUuid pg.seqs.uuids)) pg.now (normalizeScope input.scope) (trim input.key) input.value input.tagList

/-- A `set_note` that writes its row. -/
structure Pg.Sets (pg : Pg) (auth : AuthCtx) (input : SetInput) : Prop where
  named : (trim input.key).isEmpty = false
  value : input.value.utf8ByteSize ≤ maxValueBytes
  few : input.tagList.length ≤ maxTags
  tags : checkTags input.tagList = .ok ()
  fresh : pg.db.findNote auth.teamId (normalizeScope input.scope) (trim input.key) = none →
    ∀ n ∈ pg.db.notes, n.id ≠ Platform.randomUuid pg.seqs.uuids

/-- The row is another one, or a hook hears of it. -/
def Pg.Overwrites (pg : Pg) (auth : AuthCtx) (input : SetInput) : Prop :=
  pg.noteRow auth input ∉ pg.db.notes ∨
    ∃ w ∈ pg.db.webhooks, w.teamId = auth.teamId ∧ w.enabled = true ∧ w.events.contains .note = true

/-- The note is read under the scope normalised once more, where there is none. -/
def Pg.Misses (pg : Pg) (auth : AuthCtx) (input : SetInput) : Prop :=
  normalizeScope (some (normalizeScope input.scope)) ≠ normalizeScope input.scope ∧
    pg.db.findNote auth.teamId (normalizeScope (some (normalizeScope input.scope))) (trim input.key) = none

/-- The upsert goes through. -/
theorem upsertNote_rows (hv : pg.Valid) (hc : Caller auth.agentId auth.teamId pg.db) (h : pg.Sets auth input) :
    ∃ seqs ws, upsertNote auth (normalizeScope input.scope) (trim input.key) input.value input.tagList pg =
        .ok ((pg.noteRow auth input).id, seqs, ws) ∧
      ((pg.db.write ws).rows = pg.db.rows ↔ ¬ pg.Overwrites auth input) ∧
      (pg.db.write ws).notes = Rows.put Db.noteKey (pg.noteRow auth input) pg.db.notes ∧
      (pg.db.write ws).noteRevisions = pg.db.noteRevisions ∧ (pg.db.write ws).agents = pg.db.agents := by
  have hok : pg.db.noteOk (pg.noteRow auth input) = true := by
    refine Db.noteOk_iff.2 ⟨hc.hasTeam hv, fun a h => ?_⟩
    obtain rfl := Option.some.inj h
    exact hc
  have hnew : ((pg.db.findNote auth.teamId (normalizeScope input.scope) (trim input.key)).isSome ||
      !pg.db.notes.any (·.id == (pg.noteRow auth input).id)) = true := by
    cases hfind : pg.db.findNote auth.teamId (normalizeScope input.scope) (trim input.key) with
    | some old => rfl
    | none =>
      have hid : (pg.noteRow auth input).id = Platform.randomUuid pg.seqs.uuids := by
        simp only [Pg.noteRow, hfind, newNote, Option.map_none, Option.getD_none]
      have : pg.db.notes.any (·.id == (pg.noteRow auth input).id) = false :=
        List.any_eq_false.2 fun n hn => by simpa [hid] using h.fresh hfind n hn
      rw [this]
      rfl
  have hboth : (pg.db.noteOk (pg.noteRow auth input) &&
      ((pg.db.findNote auth.teamId (normalizeScope input.scope) (trim input.key)).isSome ||
        !pg.db.notes.any (·.id == (pg.noteRow auth input).id))) = true := by rw [hok, hnew]; rfl
  obtain ⟨seqs, ws, hs⟩ : ∃ seqs ws, upsertNote auth (normalizeScope input.scope) (trim input.key) input.value
    input.tagList pg = .ok ((pg.noteRow auth input).id, seqs, ws) := ⟨_, _, if_pos hboth⟩
  obtain ⟨n, fired, uuids, hn, -, -, hfired, rfl⟩ := upsertNote_ok hs
  obtain rfl : n = pg.noteRow auth input := hn
  refine ⟨seqs, _, hs, ?_⟩
  set n := pg.noteRow auth input
  have hteam : n.teamId = auth.teamId := rfl
  obtain rfl : fired = (enqueueNoteWebhook pg n { pg.seqs with uuids }).2 := congrArg Prod.snd hfired
  rw [List.cons_append, Db.write_cons, Db.write_append, enqueueNoteWebhook, enqueue_write, hteam]
  refine ⟨?_, rfl, rfl, rfl⟩
  have hput : Rows.put Db.noteKey n pg.db.notes = pg.db.notes ↔ n ∈ pg.db.notes := hv.keys.noteKeys.put_eq_self_iff
  have hhooks : pg.hooks auth.teamId .note none = [] ↔
      ¬ ∃ w ∈ pg.db.webhooks, w.teamId = auth.teamId ∧ w.enabled = true ∧ w.events.contains .note = true := by
    simp [Pg.hooks, List.filter_eq_nil_iff]
  rw [Pg.Overwrites, not_or, not_not, ← hput, ← hhooks]
  constructor
  · intro heq
    have hnotes := congrArg Db.notes heq
    have hdeliveries := congrArg Db.deliveries heq
    exact ⟨hnotes, enqueued_eq_nil.1 (List.append_right_eq_self.1 hdeliveries)⟩
  · rintro ⟨hnotes, hnone⟩
    rw [enqueued_eq_nil.2 hnone]
    simp only [Write.apply, hnotes, List.append_nil]
    rfl

theorem setNote_leaves (hv : pg.Valid) (hc : Caller auth.agentId auth.teamId pg.db) (h : pg.Sets auth input) :
    Leaves (setNote auth input) pg fun n => n = 1 ∧ pg.Overwrites auth input ∨ n = 2 ∨ 3 ≤ n ∧ pg.Misses auth input := by
  unfold setNote
  rw [if_neg (by simp [h.named]), if_neg (by have := h.value; omega)]
  dsimp only
  rw [if_neg (by have := h.few; simp only [SetInput.tagList] at this; omega)]
  refine Leaves.check h.tags ?_
  obtain ⟨seqs, ws, hs, hrows, hnotes, hrevisions, hagents⟩ := upsertNote_rows hv hc h
  set n := pg.noteRow auth input
  set pg₁ : Pg := { pg with db := pg.db.write ws, seqs } with hpg₁
  have hn : n ∈ pg₁.db.notes := by
    change n ∈ (pg.db.write ws).notes
    rw [hnotes]
    exact Rows.mem_put.2 (.inl rfl)
  obtain ⟨pg₂, hrev, hnotes₂, r, hr⟩ : ∃ pg₂, (execute (.insert .noteRevisions)
      (insertNoteRevision auth n.id input.value)).exec pg₁ = (.ok (), pg₂) ∧ pg₂.db.notes = pg₁.db.notes ∧
      ∃ r, pg₂.db.noteRevisions = pg₁.db.noteRevisions ++ [r] := by
    have hok : ∀ id now, pg₁.db.noteRevisionOk
        { id, noteId := n.id, value := input.value, updatedBy := some auth.agentId, createdAt := now } = true := by
      intro id now
      have hagent : pg₁.db.agents.any (·.id == auth.agentId) = true := by
        change (pg.db.write ws).agents.any (·.id == auth.agentId) = true
        rw [hagents]
        exact Db.agentExists_iff.2 ⟨_, hc⟩
      exact Bool.and_eq_true_iff.2 ⟨List.any_eq_true.2 ⟨n, hn, by simp⟩, hagent⟩
    simp only [Bus.exec_execute, Sql.answer, Sql.effect, insertNoteRevision, if_pos (hok _ _)]
    exact ⟨_, rfl, rfl, _, rfl⟩
  have hrevised : pg₂.db.rows ≠ pg.db.rows := by
    intro heq
    have heq := congrArg Db.noteRevisions heq
    change pg₂.db.noteRevisions = pg.db.noteRevisions at heq
    change pg₂.db.noteRevisions = (pg.db.write ws).noteRevisions ++ [r] at hr
    rw [heq, hrevisions] at hr
    simp at hr
  have hget : ∀ scope, (getNote auth (some scope) (trim input.key)).exec pg₂ = (.ok
      { scope := normalizeScope (some scope), key := trim input.key
        found := (pg₂.db.findNote auth.teamId (normalizeScope (some scope)) (trim input.key)).isSome
        note := (pg₂.db.findNote auth.teamId (normalizeScope (some scope)) (trim input.key)).map pg₂.db.noteInfo },
      pg₂) := by
    intro scope
    unfold getNote
    dsimp only
    rw [trim_trim, Bus.exec_bind_ok (Bus.exec_select _ _), Bus.exec_pure, Option.isSome_map]
  have hfound : pg₂.db.findNote auth.teamId (normalizeScope (some (normalizeScope input.scope))) (trim input.key) = none ↔
      pg.Misses auth input := by
    have hfind := hv.keys.noteKeys.find?_put (x := n)
      (q := fun r => r.teamId == auth.teamId && r.scope == normalizeScope (some (normalizeScope input.scope)) &&
        r.key == trim input.key)
      (k := (auth.teamId, normalizeScope (some (normalizeScope input.scope)), trim input.key))
      fun r => by simp [Db.noteKey, and_assoc]
    have hkey : Db.noteKey n = (auth.teamId, normalizeScope input.scope, trim input.key) := rfl
    change (pg₂.db.notes.find? _) = none ↔ _
    rw [hnotes₂, show pg₁.db.notes = _ from hnotes, hfind, hkey]
    by_cases hscope : normalizeScope (some (normalizeScope input.scope)) = normalizeScope input.scope
    · rw [hscope, if_pos rfl]
      exact iff_of_false (by simp) fun h => h.1 hscope
    · rw [if_neg fun h => hscope (Prod.mk.inj (Prod.mk.inj h).2).1.symm]
      exact ⟨fun h => ⟨hscope, h⟩, And.right⟩
  refine Leaves.execute hs (by omega) (fun m pg' hm => ?_) fun m hm => ?_
  · rw [Bus.trail_bind_ok hrev, Bus.trail_execute, Bus.trail_bind_ok (hget _)] at hm
    have hm : [pg₁, pg₂][m]? = some pg' := by
      cases hfind : pg₂.db.findNote auth.teamId (normalizeScope (some (normalizeScope input.scope)))
        (trim input.key) <;>
      · rw [hfind] at hm
        exact hm
    rcases m with _ | _ | m
    · obtain rfl : pg₁ = pg' := by simpa using hm
      simpa using hrows
    · obtain rfl : pg₂ = pg' := by simpa using hm
      exact iff_of_false hrevised (by simp)
    · cases hm
  · rw [Bus.trail_bind_ok hrev, Bus.trail_execute, Bus.trail_bind_ok (hget _)] at hm
    rw [Bus.exec_bind_ok hrev, Bus.exec_bind_ok (hget _)]
    cases hfind : pg₂.db.findNote auth.teamId (normalizeScope (some (normalizeScope input.scope)))
      (trim input.key) with
    | none =>
      rw [hfind] at hm
      have hm : 2 ≤ m := hm
      exact iff_of_false (fun h => hrevised (h _ rfl)) (not_not.2 (.inr (.inr ⟨by omega, hfound.1 hfind⟩)))
    | some note =>
      rw [hfind] at hm
      have hm : 2 ≤ m := hm
      refine iff_of_true (fun e h => by cases h) ?_
      rintro (⟨h, -⟩ | h | ⟨-, h⟩)
      · omega
      · omega
      · rw [hfound.2 h] at hfind
        cases hfind

/-- A `set_note` that does not get to its upsert. -/
theorem unset_leaves (h : ¬ pg.Sets auth input) : Leaves (setNote auth input) pg fun _ => False := by
  unfold setNote
  dsimp only
  split
  · exact Leaves.throw_bind
  next hnamed =>
  split
  · exact Leaves.throw_bind
  next hvalue =>
  split
  · exact Leaves.throw_bind
  next hfew =>
  cases htags : checkTags input.tagList with
  | error e => exact Leaves.check_error htags
  | ok _ =>
  refine Leaves.check htags ?_
  have hused : ¬ (pg.db.findNote auth.teamId (normalizeScope input.scope) (trim input.key) = none →
      ∀ n ∈ pg.db.notes, n.id ≠ Platform.randomUuid pg.seqs.uuids) := fun hfresh =>
    h ⟨by simpa using hnamed, by omega, by simpa [SetInput.tagList] using hfew, htags, hfresh⟩
  -- The `id` of the row is that of another note.
  push Not at hused
  obtain ⟨hnone, n, hn, hid⟩ := hused
  refine Leaves.execute_error (e := .db) (if_neg fun hok => ?_)
  have hnot := (Bool.and_eq_true_iff.1 hok).2
  rw [hnone] at hnot
  have : pg.db.notes.any (·.id == Platform.randomUuid pg.seqs.uuids) = true := List.any_eq_true.2 ⟨n, hn, by simp [hid]⟩
  have hnot : (!pg.db.notes.any (·.id == Platform.randomUuid pg.seqs.uuids)) = true := hnot
  rw [this] at hnot
  cases hnot

end
end
end CrewSync
