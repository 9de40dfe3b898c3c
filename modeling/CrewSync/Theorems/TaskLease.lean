import CrewSync.Footprint.Calls
import CrewSync.Lib.Lease

/-! Tasks as leases: each event of the server makes one move of `Lease.Move` on the row of a task. -/

namespace CrewSync
open Lease
variable [Platform]

/-! ### Cells -/

def Task.cell (t : Task) : Cell Identity :=
  match t.status with
  | .«open» => .free
  | .claimed => .held (t.claimedBy, t.claimedSession.getD "") t.leaseExpiresAt
  | .done | .cancelled => .closed

/-- The task of the team with the key; a task that is not there yet is free. -/
def Pg.taskCell (team : Uuid) (key : String) (pg : Pg) : Cell Identity :=
  ((pg.db.findTask team key).map Task.cell).getD .free

omit [Platform] in
theorem heldBy_iff {agent : Uuid} {session : String} {t : Task} :
    heldBy agent session t = true ↔ (t.claimedBy, t.claimedSession.getD "") = (some agent, session) := by
  simp [heldBy, Prod.ext_iff]

omit [Platform] in
theorem Db.findTask_some {db : Db} {team : Uuid} {key : String} {t : Task} (h : db.findTask team key = some t) :
    t ∈ db.tasks ∧ t.teamId = team ∧ t.key = key := by
  have := List.find?_some h
  simp only [Bool.and_eq_true, beq_iff_eq] at this
  exact ⟨List.mem_of_find?_eq_some h, this⟩

omit [Platform] in
theorem Db.findTask_of_mem {db : Db} {seqs : Seqs} (hk : db.Keys seqs) {t : Task} (ht : t ∈ db.tasks) :
    db.findTask t.teamId t.key = some t := by
  refine hk.taskKeys.find?_eq_some ht (by simp) fun r _ h => ?_
  simpa [Db.taskKey] using h

section
variable {pg pg' : Pg} {team : Uuid} {key : String}

omit [Platform] in
theorem Pg.taskCell_eq (h : pg'.db.tasks = pg.db.tasks) : pg'.taskCell team key = pg.taskCell team key := by
  simp only [taskCell, Db.findTask, h]

omit [Platform] in
theorem Db.findTask_update (team : Uuid) (key : String) {p : Task → Bool} {f : Task → Task} (h : pg'.db.tasks = Rows.update p f pg.db.tasks)
    (hf : ∀ t, taskKey (f t) = taskKey t) :
    pg'.db.findTask team key = (pg.db.findTask team key).map fun t => if p t then f t else t := by
  rw [findTask, h]
  refine Rows.find?_update fun t => ?_
  have := hf t
  simp only [taskKey, Prod.mk.injEq] at this
  rw [this.1, this.2]

omit [Platform] in
/-- An `UPDATE` moves the cell as it moves the row, or the row is not among those that it changes. -/
theorem Pg.taskCell_update (team : Uuid) (key : String) {p : Task → Bool} {f : Task → Task}
    (h : pg'.db.tasks = Rows.update p f pg.db.tasks) (hf : ∀ t, Db.taskKey (f t) = Db.taskKey t) :
    (∃ t, pg.db.findTask team key = some t ∧ p t = true ∧ pg.taskCell team key = t.cell ∧
      pg'.taskCell team key = (f t).cell) ∨ pg'.taskCell team key = pg.taskCell team key := by
  simp only [taskCell, Db.findTask_update team key h hf]
  cases ht : pg.db.findTask team key with
  | none => exact .inr rfl
  | some t =>
    cases hp : p t with
    | false => exact .inr (by simp [hp])
    | true => exact .inl ⟨t, rfl, hp, rfl, by simp [hp]⟩

end

/-! ### Statements -/

/-- The server after an `UPDATE tasks SET f WHERE p`. -/
structure Updated (p : Task → Bool) (f : Task → Task) (pg pg' : Pg) : Prop where
  tasks : pg'.db.tasks = Rows.update p f pg.db.tasks
  agents : pg'.db.agents = pg.db.agents
  now : pg'.now = pg.now

/-- The `UPDATE` went through, or it failed and changed nothing. -/
theorem updateTask_exec (p : Task → Bool) (f : Task → Task) (pg : Pg) :
    (updateTask p f).answer pg = .error .db ∧ (updateTask p f).effect pg = pg ∨
      (updateTask p f).answer pg = .ok ((pg.db.tasks.filter p).head?.map fun t => (t.id, t.key)) ∧
        Updated p f pg ((updateTask p f).effect pg) := by
  simp only [Sql.effect, Sql.answer, updateTask]
  by_cases h : ((pg.db.tasks.filter p).all fun t => pg.db.taskOk (f t)) = true
  · right
    simp only [if_pos h]
    obtain ⟨ds, ns, e⟩ := Db.write_outbox
      (taskTriggers_outbox pg ((pg.db.tasks.filter p).map fun t => (some t, f t)) pg.seqs)
      ((Write.updateTasks p f).apply pg.db)
    refine ⟨rfl, ?_, ?_, rfl⟩
    all_goals
      simp only [Db.write_cons, e]
      rfl
  · left
    simp only [if_neg h]
    exact ⟨rfl, trivial⟩

/-- The `UPDATE` goes through where the rows that it leaves keep the constraints. -/
theorem updateTask_answer_ne {p : Task → Bool} {f : Task → Task} {pg : Pg}
    (h : ∀ t ∈ pg.db.tasks, p t = true → pg.db.taskOk (f t) = true) : (updateTask p f).answer pg ≠ .error .db := by
  have hok : ((pg.db.tasks.filter p).all fun t => pg.db.taskOk (f t)) = true := List.all_eq_true.2 fun t ht =>
    h t (List.mem_filter.1 ht).1 (List.mem_filter.1 ht).2
  simp only [Sql.answer, updateTask, if_pos hok]
  exact fun h => by cases h

/-- A call that starts with such a statement: it fails with it, or goes on with the first row. -/
theorem updateThen_exec {α : Type} (l : Stmt) {s : Sql (Option (Uuid × String))}
    (rest : Option (Uuid × String) → Bus α) {p : Task → Bool} {f : Task → Task} {pg : Pg}
    (hs : s pg = updateTask p f pg) :
    (updateTask p f).answer pg = .error .db ∧ (execute l s >>= rest).exec pg = (.error .db, pg) ∨
      ∃ pg', Updated p f pg pg' ∧ (execute l s >>= rest).exec pg =
        (rest ((pg.db.tasks.filter p).head?.map fun t => (t.id, t.key))).exec pg' := by
  have hanswer : s.answer pg = (updateTask p f).answer pg := by rw [Sql.answer, hs]; rfl
  have heffect : s.effect pg = (updateTask p f).effect pg := by rw [Sql.effect, hs]; rfl
  have hexec : (execute l s).exec pg = (s.answer pg, s.effect pg) := rfl
  rw [hanswer, heffect] at hexec
  rcases updateTask_exec p f pg with ⟨ha, he⟩ | ⟨ha, hu⟩
  · rw [ha, he] at hexec
    exact .inl ⟨ha, Bus.exec_bind_error hexec⟩
  · rw [ha] at hexec
    exact .inr ⟨_, hu, Bus.exec_bind_ok hexec⟩

omit [Platform] in
theorem logEvent_exec (task agent : Uuid) (event : String) (detail : Option String) (pg : Pg) :
    (logEvent task agent event detail).exec pg = (.error .db, pg) ∨
      ∃ pg', (logEvent task agent event detail).exec pg = (.ok (), pg') ∧ pg'.db.tasks = pg.db.tasks ∧
        pg'.now = pg.now := by
  simp only [logEvent, Bus.exec_execute, Sql.answer, Sql.effect, insertTaskEvent]
  split
  · exact .inr ⟨_, rfl, rfl, rfl⟩
  · exact .inl rfl

omit [Platform] in
theorem logEvent_ok {task agent : Uuid} (event : String) (detail : Option String) {pg : Pg}
    (ht : pg.db.tasks.any (·.id == task) = true) (ha : pg.db.agentExists agent = true) :
    ∃ pg', (logEvent task agent event detail).exec pg = (.ok (), pg') ∧ pg'.db.tasks = pg.db.tasks ∧
      pg'.now = pg.now := by
  have hok : ∀ id now, pg.db.taskEventOk
      { id, taskId := task, agentId := some agent, event, detail, createdAt := now } = true :=
    fun _ _ => Bool.and_eq_true_iff.2 ⟨ht, ha⟩
  simp only [logEvent, Bus.exec_execute, Sql.answer, Sql.effect, insertTaskEvent, if_pos (hok _ _)]
  exact ⟨_, rfl, rfl, rfl⟩

omit [Platform] in
theorem fetchTask_exec (auth : AuthCtx) (key : String) (pg : Pg) :
    (fetchTask auth key).exec pg = (((pg.db.findTask auth.teamId key).map (pg.db.taskInfo pg.now)).elim
      (.error (.notFound s!"task '{key}'")) .ok, pg) := by
  unfold fetchTask
  rw [Bus.exec_bind, Bus.exec_select]
  cases pg.db.findTask auth.teamId key <;> rfl

omit [Platform] in
/-- The event of the one row that an `UPDATE` has set. -/
theorem Updated.logged {p : Task → Bool} {f : Task → Task} {pg pg₁ : Pg} {t : Task} {auth : AuthCtx}
    (hu : Updated p f pg pg₁) (hv : pg.Valid) (hc : Caller auth.agentId auth.teamId pg.db)
    (hf : ∀ t, (f t).id = t.id ∧ Db.taskKey (f t) = Db.taskKey t) (ht : t ∈ pg.db.tasks) (hp : p t = true)
    (event : String) (detail : Option String) :
    ∃ pg₂, (logEvent t.id auth.agentId event detail).exec pg₁ = (.ok (), pg₂) ∧
      pg₂.db.tasks = Rows.update p f pg.db.tasks ∧ pg₂.db.findTask t.teamId t.key = some (f t) := by
  have hid : pg₁.db.tasks.any (·.id == t.id) = true := by
    rw [hu.tasks]
    exact Rows.any_update (List.any_eq_true.2 ⟨t, ht, by simp⟩) fun r _ _ h => by rwa [(hf r).1]
  have hagent : pg₁.db.agentExists auth.agentId = true := by
    rw [Db.agentExists, hu.agents]
    exact Db.agentExists_iff.2 ⟨_, hc⟩
  obtain ⟨pg₂, hl, htasks, -⟩ := logEvent_ok event detail hid hagent
  refine ⟨pg₂, hl, htasks.trans hu.tasks, ?_⟩
  rw [Db.findTask_update t.teamId t.key (htasks.trans hu.tasks) fun t => (hf t).2, Db.findTask_of_mem hv.keys ht,
    Option.map_some, if_pos hp]

/-- An `UPDATE` of one row, whose event is logged: the call goes on with the row as it was set. -/
theorem updateThenLog_exec {α : Type} (l : Stmt) {s : Sql (Option (Uuid × String))}
    {rest : Option (Uuid × String) → Bus α} {k : Bus α} {p : Task → Bool} {f : Task → Task} {pg : Pg} {t : Task}
    {auth : AuthCtx} {event : String} {detail : Option String} (hv : pg.Valid)
    (hc : Caller auth.agentId auth.teamId pg.db) (hs : s pg = updateTask p f pg)
    (hf : ∀ t, (f t).id = t.id ∧ Db.taskKey (f t) = Db.taskKey t) (ht : t ∈ pg.db.tasks)
    (hp : ∀ r ∈ pg.db.tasks, p r = true ↔ r = t) (hok : pg.db.taskOk (f t) = true)
    (hrest : rest (some (t.id, t.key)) = (do logEvent t.id auth.agentId event detail; k)) :
    ∃ pg', (execute l s >>= rest).exec pg = k.exec pg' ∧ pg'.db.tasks = Rows.update p f pg.db.tasks ∧
      pg'.db.findTask t.teamId t.key = some (f t) := by
  have hok : (updateTask p f).answer pg ≠ .error .db := updateTask_answer_ne fun r hr hpr => by
    rwa [(hp r hr).1 hpr]
  rcases updateThen_exec l rest hs with ⟨hfail, -⟩ | ⟨pg₁, hu, he⟩
  · exact absurd hfail hok
  obtain ⟨pg₂, hl, hrows⟩ := hu.logged hv hc hf ht ((hp t ht).2 rfl) event detail
  refine ⟨pg₂, ?_, hrows⟩
  rw [he, Rows.head?_filter ht hp, Option.map_some, hrest, Bus.exec_bind_ok hl]

/-! ### Claims -/

/-- The answer grants the task to the caller. -/
def ClaimResult.grants (key : String) (r : ClaimResult) : Prop := r.claimed = true ∧ ∃ t ∈ r.task, t.key = key

section
variable {auth : AuthCtx} {lease : Int} {p : Task → Bool} {pg : Pg}

/-- What a claim does when its `UPDATE` has the `WHERE` clause `p`. -/
structure Claims (auth : AuthCtx) (lease : Int) (p : Task → Bool) (pg : Pg) (r : Except BusError ClaimResult × Pg) :
    Prop where
  tasks : r.2.db.tasks = pg.db.tasks ∨ r.2.db.tasks = Rows.update p (setClaimed auth lease pg.now) pg.db.tasks
  granted : ∀ res key, r.1 = .ok res → res.grants key →
    r.2.db.tasks = Rows.update p (setClaimed auth lease pg.now) pg.db.tasks ∧ ∃ t ∈ pg.db.tasks, p t = true ∧ t.key = key

omit [Platform] in
theorem Claims.failed (e : BusError) : Claims auth lease p pg (.error e, pg) :=
  ⟨.inl rfl, fun _ _ h => by simp at h⟩

/-- Both claims end the same way: the event, then the task. -/
theorem claims_exec {l : Stmt} {s : Sql (Option (Uuid × String))} {rest : Option (Uuid × String) → Bus ClaimResult}
    (hs : s pg = updateTask p (setClaimed auth lease pg.now) pg)
    (hnone : ∀ pg', ((rest none).exec pg').2 = pg' ∧ ∀ res, ((rest none).exec pg').1 = .ok res → res.claimed = false)
    (hsome : ∀ t ∈ pg.db.tasks, p t = true → ∃ detail, rest (some (t.id, t.key)) = (do
      logEvent t.id auth.agentId "claimed" detail
      return { claimed := true, task := some (← fetchTask auth t.key), reason := none })) :
    Claims auth lease p pg ((execute l s >>= rest).exec pg) := by
  rcases updateThen_exec l rest hs with ⟨-, he⟩ | ⟨pg₁, hu, he⟩
  · rw [he]
    exact ⟨.inl rfl, fun _ _ h => by simp at h⟩
  rw [he]
  cases hhead : (pg.db.tasks.filter p).head? with
  | none =>
    obtain ⟨hsame, hno⟩ := hnone pg₁
    refine ⟨.inr (by rw [Option.map_none, hsame]; exact hu.tasks), fun res key h hg => ?_⟩
    exact absurd hg.1 (by simp [hno res h])
  | some t =>
    obtain ⟨ht, hp⟩ := List.mem_filter.1 (List.mem_of_mem_head? hhead)
    obtain ⟨detail, hrest⟩ := hsome t ht hp
    rw [Option.map_some, hrest]
    rcases logEvent_exec t.id auth.agentId "claimed" detail pg₁ with hl | ⟨pg₂, hl, htasks, -⟩
    · rw [Bus.exec_bind_error hl]
      exact ⟨.inr hu.tasks, fun _ _ h => by simp at h⟩
    rw [Bus.exec_bind_ok hl, Bus.exec_bind, fetchTask_exec]
    have htasks := htasks.trans hu.tasks
    cases hfind : pg₂.db.findTask auth.teamId t.key with
    | none => exact ⟨.inr htasks, fun _ _ h => by simp at h⟩
    | some row =>
      refine ⟨.inr htasks, fun res key h hg => ⟨htasks, t, ht, hp, ?_⟩⟩
      simp only [Option.map_some, Option.elim_some, Bus.exec_pure, Except.ok.injEq] at h
      subst h
      obtain ⟨-, i, hi, rfl⟩ := hg
      obtain rfl := Option.some.inj hi
      exact (Db.findTask_some hfind).2.2.symm

end

/-! ### The two claims -/

section
variable {auth : AuthCtx} {pg : Pg}

theorem claimTask_cases (auth : AuthCtx) (pg : Pg) (raw : String) (lease : Option Int) :
    (∃ e, (claimTask auth raw lease).exec pg = (.error e, pg)) ∨ ∃ key, normalizeKey raw = .ok key ∧
      Claims auth (leaseOf lease) (claimable auth key pg) pg ((claimTask auth raw lease).exec pg) := by
  unfold claimTask
  rw [Bus.exec_bind, Bus.exec_check]
  cases hkey : normalizeKey raw with
  | error e => exact .inl ⟨e, rfl⟩
  | ok key =>
    refine .inr ⟨key, rfl, claims_exec rfl (fun pg' => ?_) fun t _ hp => ⟨none, ?_⟩⟩
    · simp only [Bus.exec_bind, fetchTask_exec]
      cases pg'.db.findTask auth.teamId key with
      | none => exact ⟨rfl, fun _ h => by simp at h⟩
      | some t =>
        refine ⟨rfl, fun res h => ?_⟩
        simp only [Option.map_some, Option.elim_some, Bus.exec_pure, Except.ok.injEq] at h
        exact h ▸ rfl
    · simp only [claimable, Bool.and_eq_true, beq_iff_eq] at hp
      rw [hp.1.1.1.2]

theorem claimTask_claims (auth : AuthCtx) (pg : Pg) (raw : String) (lease : Option Int) :
    ∃ key, Claims auth (leaseOf lease) (claimable auth key pg) pg ((claimTask auth raw lease).exec pg) := by
  rcases claimTask_cases auth pg raw lease with ⟨e, h⟩ | ⟨key, -, h⟩
  · exact ⟨"", h ▸ .failed e⟩
  · exact ⟨key, h⟩

theorem claimNextTask_claims (auth : AuthCtx) (pg : Pg) (lease : Option Int) :
    Claims auth (leaseOf lease) (fun t => (candidate auth.teamId pg).any (·.id == t.id)) pg
      ((claimNextTask auth lease).exec pg) := by
  unfold claimNextTask
  refine claims_exec rfl (fun pg' => ⟨rfl, fun res h => ?_⟩) fun t _ _ => ⟨_, rfl⟩
  simp only [Bus.exec_pure, Except.ok.injEq] at h
  exact h ▸ rfl

omit [Platform] in
/-- A row that `claim_task` changes may be taken. -/
theorem claimable_takeable {key : String} {t : Task} (h : claimable auth key pg t = true) :
    t.teamId = auth.teamId ∧ t.cell.Takeable pg.now auth.identity := by
  simp only [claimable, Bool.and_eq_true, Bool.or_eq_true, beq_iff_eq, heldBy_iff, Option.isNone_iff_eq_none,
    Option.any_eq_true, decide_eq_true_eq] at h
  obtain ⟨⟨⟨⟨hteam, -⟩, hstatus⟩, hcan⟩, -⟩ := h
  refine ⟨hteam, ?_⟩
  rcases hstatus with ho | hc
  · simp [Task.cell, ho, Cell.Takeable]
  · simp only [Task.cell, hc, Cell.Takeable]
    rcases hcan with ((ho | hown) | hnone) | ⟨e, he, hlt⟩
    · simp [ho] at hc
    · exact .inl hown
    · exact .inr fun e he => by simp [hnone] at he
    · exact .inr fun e' he' => by
        obtain rfl : e = e' := Option.some.inj (he.symm.trans he')
        exact hlt

omit [Platform] in
/-- So may the row that `claim_next_task` changes. -/
theorem candidate_takeable (hv : pg.Valid) {t : Task} (ht : t ∈ pg.db.tasks)
    (h : (candidate auth.teamId pg).any (·.id == t.id) = true) :
    t.teamId = auth.teamId ∧ t.cell.Takeable pg.now auth.identity := by
  obtain ⟨c, hc, hid⟩ := (Option.any_eq_true _ _).1 h
  obtain ⟨hmem, hav⟩ := candidate_mem hc
  obtain rfl := hv.keys.tasks.eq hmem ht (by simpa using hid)
  simp only [available, Bool.and_eq_true, Bool.or_eq_true, beq_iff_eq, Option.any_eq_true, decide_eq_true_eq] at hav
  obtain ⟨⟨hteam, hcan⟩, -⟩ := hav
  refine ⟨hteam, ?_⟩
  rcases hcan with ho | ⟨hs, e, he, hlt⟩
  · simp [Task.cell, ho, Cell.Takeable]
  · simp only [Task.cell, hs, Cell.Takeable]
    exact .inr fun e' he' => by
      obtain rfl : e = e' := Option.some.inj (he.symm.trans he')
      exact hlt

variable {lease : Int} {p : Task → Bool} {r : Except BusError ClaimResult × Pg}

omit [Platform] in
theorem setClaimed_key (auth : AuthCtx) (lease : Int) (now : Time) (t : Task) :
    Db.taskKey (setClaimed auth lease now t) = Db.taskKey t := rfl

omit [Platform] in
theorem Claims.move (h : Claims auth lease p pg r)
    (hp : ∀ t ∈ pg.db.tasks, p t = true → t.teamId = auth.teamId ∧ t.cell.Takeable pg.now auth.identity)
    (team : Uuid) (key : String) :
    ∃ op, Move pg.now auth.identity op (pg.taskCell team key) (r.2.taskCell team key) ∧ op ≠ .release := by
  rcases h.tasks with h | h
  · exact ⟨.stay, Pg.taskCell_eq h ▸ .stay, by simp⟩
  rcases Pg.taskCell_update team key h (setClaimed_key auth lease pg.now) with ⟨t, ht, hpt, hc, hc'⟩ | hc
  · refine ⟨.take, ?_, by simp⟩
    rw [hc, hc']
    exact .take (hp t (Db.findTask_some ht).1 hpt).2
  · exact ⟨.stay, hc ▸ .stay, by simp⟩

omit [Platform] in
/-- After an answer `claimed = true` the caller holds the lease, and before it the task was there to take. -/
theorem Claims.taken (h : Claims auth lease p pg r) (hv : pg.Valid)
    (hp : ∀ t ∈ pg.db.tasks, p t = true → t.teamId = auth.teamId ∧ t.cell.Takeable pg.now auth.identity)
    {res : ClaimResult} {key : String} (hr : r.1 = .ok res) (hg : res.grants key) :
    (pg.taskCell auth.teamId key).Takeable pg.now auth.identity ∧ (r.2.taskCell auth.teamId key).Kept auth.identity := by
  obtain ⟨htasks, t, ht, hpt, rfl⟩ := h.granted res key hr hg
  obtain ⟨hteam, htake⟩ := hp t ht hpt
  have hfind := Db.findTask_of_mem hv.keys ht
  rw [hteam] at hfind
  constructor
  · simpa [Pg.taskCell, hfind] using htake
  · have := Db.findTask_update auth.teamId t.key htasks (setClaimed_key auth lease pg.now)
    rw [hfind, Option.map_some, if_pos hpt] at this
    simp only [Pg.taskCell, this]
    exact .inr ⟨_, rfl⟩

end

/-! ### Renewals, releases, completions -/

/-- What a call does when its `UPDATE` has the `WHERE` clause `p` and sets `f`. -/
structure Updates (p : Task → Bool) (f : Task → Task) (pg : Pg) (r : Except BusError TaskInfo × Pg) : Prop where
  tasks : r.2.db.tasks = pg.db.tasks ∨ r.2.db.tasks = Rows.update p f pg.db.tasks
  refused : (∀ t ∈ pg.db.tasks, p t = false) → (∃ e, r.1 = .error e) ∧ r.2.db.tasks = pg.db.tasks

omit [Platform] in
theorem Updates.failed {p : Task → Bool} {f : Task → Task} {pg : Pg} (e : BusError) :
    Updates p f pg (.error e, pg) :=
  ⟨.inl rfl, fun _ => ⟨⟨e, rfl⟩, rfl⟩⟩

omit [Platform] in
theorem Updates.move {p : Task → Bool} {f : Task → Task} {pg : Pg} {r : Except BusError TaskInfo × Pg}
    (h : Updates p f pg r) (hf : ∀ t, Db.taskKey (f t) = Db.taskKey t) {i : Identity} {op : Op}
    (hmove : ∀ t, p t = true → Move pg.now i op t.cell (f t).cell) (team : Uuid) (key : String) :
    Move pg.now i .stay (pg.taskCell team key) (r.2.taskCell team key) ∨
      Move pg.now i op (pg.taskCell team key) (r.2.taskCell team key) ∧
        ∃ t, pg.db.findTask team key = some t ∧ p t = true := by
  rcases h.tasks with h | h
  · exact .inl (Pg.taskCell_eq h ▸ .stay)
  rcases Pg.taskCell_update team key h hf with ⟨t, ht, hpt, hc, hc'⟩ | hc
  · exact .inr ⟨hc ▸ hc' ▸ hmove t hpt, t, ht, hpt⟩
  · exact .inl (hc ▸ .stay)

omit [Platform] in
theorem Updates.row {p : Task → Bool} {f : Task → Task} {pg : Pg} {r : Except BusError TaskInfo × Pg}
    (h : Updates p f pg r) (hf : ∀ t, Db.taskKey (f t) = Db.taskKey t) {team : Uuid} {key : String}
    (hp : ∀ t, pg.db.findTask team key = some t → p t = false) :
    r.2.db.findTask team key = pg.db.findTask team key := by
  rcases h.tasks with h | h
  · simp only [Db.findTask, h]
  · rw [Db.findTask_update team key h hf]
    cases ht : pg.db.findTask team key with
    | none => rfl
    | some t => simp [hp t ht]

theorem updates_exec {p : Task → Bool} {f : Task → Task} {pg : Pg} {l : Stmt} {s : Sql (Option (Uuid × String))}
    {rest : Option (Uuid × String) → Bus TaskInfo} (hs : s pg = updateTask p f pg)
    (hnone : ∀ pg', (∃ e, ((rest none).exec pg').1 = .error e) ∧ ((rest none).exec pg').2 = pg')
    (hsome : ∀ x pg', ((rest (some x)).exec pg').2.db.tasks = pg'.db.tasks) :
    Updates p f pg ((execute l s >>= rest).exec pg) := by
  rcases updateThen_exec l rest hs with ⟨-, he⟩ | ⟨pg₁, hu, he⟩
  · rw [he]
    exact ⟨.inl rfl, fun _ => ⟨⟨_, rfl⟩, rfl⟩⟩
  rw [he]
  constructor
  · right
    cases (pg.db.tasks.filter p).head? with
    | none => rw [Option.map_none, (hnone pg₁).2, hu.tasks]
    | some t => rw [Option.map_some, hsome, hu.tasks]
  · intro hp
    have hnil : pg.db.tasks.filter p = [] := by simpa [List.filter_eq_nil_iff] using hp
    rw [hnil, List.head?_nil, Option.map_none, (hnone pg₁).2, hu.tasks, Rows.update_eq_self hp]
    exact ⟨(hnone pg₁).1, rfl⟩

/-- A call whose `UPDATE` finds a row answers with it, unless the statement fails. -/
theorem updateThen_answers {p : Task → Bool} {f : Task → Task} {pg : Pg} {l : Stmt}
    {s : Sql (Option (Uuid × String))} {rest : Option (Uuid × String) → Bus TaskInfo} {key : String}
    (hs : s pg = updateTask p f pg) {t : Task} (ht : t ∈ pg.db.tasks) (hp : p t = true)
    (hsome : ∀ t ∈ pg.db.tasks, p t = true → ∀ pg', Updated p f pg pg' →
      ∃ info, ((rest (some (t.id, t.key))).exec pg').1 = .ok info ∧ info.key = key) :
    ((execute l s >>= rest).exec pg).2 = pg ∨
      ∃ info, ((execute l s >>= rest).exec pg).1 = .ok info ∧ info.key = key := by
  rcases updateThen_exec l rest hs with ⟨-, he⟩ | ⟨pg₁, hu, he⟩
  · exact .inl (by rw [he])
  rw [he]
  cases hhead : (pg.db.tasks.filter p).head? with
  | none =>
    rw [List.head?_eq_none_iff, List.filter_eq_nil_iff] at hhead
    exact absurd hp (hhead t ht)
  | some t' =>
    obtain ⟨ht', hp'⟩ := List.mem_filter.1 (List.mem_of_mem_head? hhead)
    exact .inr (hsome t' ht' hp' pg₁ hu)

omit [Platform] in
theorem logThenFetch_tasks (task agent : Uuid) (event : String) (detail : Option String) (auth : AuthCtx)
    (key : String) (pg : Pg) :
    ((do logEvent task agent event detail; fetchTask auth key : Bus TaskInfo).exec pg).2.db.tasks = pg.db.tasks := by
  rcases logEvent_exec task agent event detail pg with h | ⟨pg', h, htasks, -⟩
  · rw [Bus.exec_bind_error h]
  · rw [Bus.exec_bind_ok h, fetchTask_exec]
    exact htasks

omit [Platform] in
/-- The refusal of a renewal or a release is an error whatever it finds. -/
theorem noClaimHere_throws (auth : AuthCtx) (key : String) (pg : Pg) :
    (∃ e, ((do throw (← noClaimHere auth key) : Bus TaskInfo).exec pg).1 = .error e) ∧
      ((do throw (← noClaimHere auth key) : Bus TaskInfo).exec pg).2 = pg := by
  have hro := @noClaimHere_readOnly auth key pg
  rw [Bus.exec_bind]
  cases h : (noClaimHere auth key).exec pg with
  | mk r pg' =>
    rw [h] at hro
    cases r with
    | ok e => exact ⟨⟨e, rfl⟩, hro⟩
    | error e => exact ⟨⟨e, rfl⟩, hro⟩

section
variable {auth : AuthCtx} {pg : Pg}

theorem renewLease_cases (auth : AuthCtx) (pg : Pg) (raw : String) (lease : Option Int) :
    (∃ e, (renewLease auth raw lease).exec pg = (.error e, pg)) ∨ ∃ key, normalizeKey raw = .ok key ∧
      Updates (ownClaim auth key)
        (fun t => { t with leaseExpiresAt := some (pg.now + secs (leaseOf lease)), updatedAt := pg.now }) pg
        ((renewLease auth raw lease).exec pg) := by
  unfold renewLease
  rw [Bus.exec_bind, Bus.exec_check]
  cases hkey : normalizeKey raw with
  | error e => exact .inl ⟨e, rfl⟩
  | ok key =>
    refine .inr ⟨key, rfl, updates_exec rfl (noClaimHere_throws auth key) fun x pg' => ?_⟩
    simp only [fetchTask_exec]

theorem renewLease_updates (auth : AuthCtx) (pg : Pg) (raw : String) (lease : Option Int) :
    ∃ key, (∀ k, normalizeKey raw = .ok k → k = key) ∧ Updates (ownClaim auth key)
      (fun t => { t with leaseExpiresAt := some (pg.now + secs (leaseOf lease)), updatedAt := pg.now }) pg
      ((renewLease auth raw lease).exec pg) := by
  cases hkey : normalizeKey raw with
  | error e =>
    refine ⟨"", by simp, ?_⟩
    unfold renewLease
    rw [Bus.exec_bind, Bus.exec_check, hkey]
    exact .failed e
  | ok key =>
    refine ⟨key, by simp, ?_⟩
    rcases renewLease_cases auth pg raw lease with ⟨e, h⟩ | ⟨key', hkey', h⟩
    · exact h ▸ .failed e
    · exact Except.ok.inj (hkey'.symm.trans hkey) ▸ h

theorem releaseTask_cases (auth : AuthCtx) (pg : Pg) (raw : String) :
    (∃ e, (releaseTask auth raw).exec pg = (.error e, pg)) ∨ ∃ key, normalizeKey raw = .ok key ∧
      Updates (ownClaim auth key)
        (fun t => { t with
          status := .«open», claimedBy := none, claimedSession := none, claimedAt := none
          leaseExpiresAt := none, updatedAt := pg.now }) pg
        ((releaseTask auth raw).exec pg) := by
  unfold releaseTask
  rw [Bus.exec_bind, Bus.exec_check]
  cases hkey : normalizeKey raw with
  | error e => exact .inl ⟨e, rfl⟩
  | ok key =>
    exact .inr ⟨key, rfl, updates_exec rfl (noClaimHere_throws auth key) fun x pg' => logThenFetch_tasks ..⟩

theorem releaseTask_updates (auth : AuthCtx) (pg : Pg) (raw : String) :
    ∃ key, (∀ k, normalizeKey raw = .ok k → k = key) ∧ Updates (ownClaim auth key)
      (fun t => { t with
        status := .«open», claimedBy := none, claimedSession := none, claimedAt := none
        leaseExpiresAt := none, updatedAt := pg.now }) pg
      ((releaseTask auth raw).exec pg) := by
  cases hkey : normalizeKey raw with
  | error e =>
    refine ⟨"", by simp, ?_⟩
    unfold releaseTask
    rw [Bus.exec_bind, Bus.exec_check, hkey]
    exact .failed e
  | ok key =>
    refine ⟨key, by simp, ?_⟩
    rcases releaseTask_cases auth pg raw with ⟨e, h⟩ | ⟨key', hkey', h⟩
    · exact h ▸ .failed e
    · exact Except.ok.inj (hkey'.symm.trans hkey) ▸ h

/-- A release that finds its row is answered. -/
theorem releaseTask_answers (hc : Caller auth.agentId auth.teamId pg.db) {raw key : String}
    (hkey : normalizeKey raw = .ok key) {t : Task} (ht : t ∈ pg.db.tasks) (hown : ownClaim auth key t = true) :
    ((releaseTask auth raw).exec pg).2 = pg ∨
      ∃ info, ((releaseTask auth raw).exec pg).1 = .ok info ∧ info.key = key := by
  unfold releaseTask
  rw [Bus.exec_bind, Bus.exec_check, hkey]
  refine updateThen_answers rfl ht hown fun t' ht' hown' pg' hu => ?_
  have hid : pg'.db.tasks.any (·.id == t'.id) = true := by
    rw [hu.tasks]
    exact Rows.any_update (List.any_eq_true.2 ⟨t', ht', by simp⟩) fun _ _ _ h => h
  have hagent : pg'.db.agentExists auth.agentId = true := by
    rw [Db.agentExists, hu.agents]
    exact Db.agentExists_iff.2 ⟨_, hc⟩
  obtain ⟨pg₂, hl, htasks, -⟩ := logEvent_ok "released" none hid hagent
  simp only [Bus.exec_bind_ok hl, fetchTask_exec]
  simp only [ownClaim, Bool.and_eq_true, beq_iff_eq] at hown'
  cases hfind : pg₂.db.findTask auth.teamId key with
  | some row => exact ⟨_, rfl, (Db.findTask_some hfind).2.2⟩
  | none =>
    have hno := List.find?_eq_none.1 hfind
    rw [htasks, hu.tasks] at hno
    have := hno _ (Rows.mem_update.2 ⟨t', ht', rfl⟩)
    split at this <;> simp [hown'.1.1.1, hown'.1.1.2] at this

end

/-- A completion by anyone closes the row. -/
theorem completeTask_cases (auth : AuthCtx) (pg : Pg) (raw : String) (result : Option String) :
    (∃ e, (completeTask auth raw result).exec pg = (.error e, pg)) ∨
      ∃ key result', normalizeKey raw = .ok key ∧ checkTextOpt "task result" result maxResultBytes = .ok result' ∧
        Updates
          (fun t => t.teamId == auth.teamId && t.key == key && (t.status == .«open» || t.status == .claimed))
          (fun t => { t with status := .done, result := result', leaseExpiresAt := none, updatedAt := pg.now }) pg
          ((completeTask auth raw result).exec pg) := by
  unfold completeTask
  rw [Bus.exec_bind, Bus.exec_check]
  cases hkey : normalizeKey raw with
  | error e => exact .inl ⟨e, rfl⟩
  | ok key =>
    simp only
    rw [Bus.exec_bind, Bus.exec_check]
    cases hres : checkTextOpt "task result" result maxResultBytes with
    | error e => exact .inl ⟨e, rfl⟩
    | ok result' =>
      refine .inr ⟨key, result', rfl, rfl, updates_exec rfl (fun pg' => ?_) fun x pg' => logThenFetch_tasks ..⟩
      simp only [Bus.exec_bind, fetchTask_exec]
      cases pg'.db.findTask auth.teamId key with
      | none => exact ⟨⟨_, rfl⟩, rfl⟩
      | some t => exact ⟨⟨_, rfl⟩, rfl⟩

theorem completeTask_updates (auth : AuthCtx) (pg : Pg) (raw : String) (result : Option String) :
    ∃ key result', Updates
      (fun t => t.teamId == auth.teamId && t.key == key && (t.status == .«open» || t.status == .claimed))
      (fun t => { t with status := .done, result := result', leaseExpiresAt := none, updatedAt := pg.now }) pg
      ((completeTask auth raw result).exec pg) := by
  rcases completeTask_cases auth pg raw result with ⟨e, h⟩ | ⟨key, result', -, -, h⟩
  · exact ⟨"", none, h ▸ .failed e⟩
  · exact ⟨key, result', h⟩

end CrewSync
