import CrewSync.Footprint.Triggers
import CrewSync.Store.Tasks

/-! What the task calls write. -/

namespace CrewSync
open Bus (ReadOnly)
variable {tables : List Table}

/-! ### Statements -/

theorem insertTaskEvent_writes {agent team task : Uuid} {event : String} {detail : Option String}
    (ht : .taskEvents ∈ tables) :
    Sql.Writes (Own agent team tables) (fun db => Caller agent team db ∧ db.taskIn task team)
      (insertTaskEvent task agent event detail) fun _ _ => True := by
  intro pg hv hP b seqs ws hs
  simp only [insertTaskEvent] at hs
  split at hs
  · simp only [Except.ok.injEq, Prod.mk.injEq] at hs
    obtain ⟨-, rfl, rfl⟩ := hs
    refine ⟨⟨le_rfl, by simp only; omega, le_rfl, le_rfl, le_rfl⟩, ⟨⟨⟨team, hP.2, ?_⟩, ?_, le_rfl⟩, ?_, trivial⟩,
      trivial⟩
    · rintro a ha
      obtain rfl := Option.some.inj ha
      exact hP.1
    · exact fun e he => Int.lt_add_one_of_le (hv.keys.taskEventsBelow e he)
    · exact ⟨⟨hP.2, rfl⟩, singleton_subset ht⟩
  · exact absurd hs (by simp)

theorem insertTask_ok [Platform] {auth : AuthCtx} {key title : String} {description : Option String} {metadata : Json}
    {pg : Pg} {b : Uuid} {seqs : Seqs} {ws : List Write}
    (hs : insertTask auth key title description metadata pg = .ok (b, seqs, ws)) :
    ∃ t fired, t = newTask auth b pg.now key title description metadata ∧ pg.db.taskOk t ∧
      (∀ r ∈ pg.db.tasks, r.id ≠ t.id ∧ Db.taskKey r ≠ Db.taskKey t) ∧
      (seqs, fired) = taskTriggers pg [(none, t)] { pg.seqs with uuids := pg.seqs.uuids + 1 } ∧
      ws = .insertTask t :: fired := by
  simp only [insertTask] at hs
  split at hs
  · next hok =>
    obtain ⟨hok, hfresh⟩ := Bool.and_eq_true_iff.1 hok
    simp only [Except.ok.injEq, Prod.mk.injEq] at hs
    obtain ⟨rfl, rfl, rfl⟩ := hs
    refine ⟨_, _, rfl, hok, fun r hr => ?_, rfl, rfl⟩
    simp only [Bool.not_eq_true', List.any_eq_false, Bool.or_eq_true, beq_iff_eq, not_or] at hfresh
    exact hfresh r hr
  · exact absurd hs (by simp)

/-- The row of a new task. -/
theorem insertTask_rows [Platform] {auth : AuthCtx} {key title : String} {description : Option String} {metadata : Json}
    {pg : Pg} {id : Uuid} {seqs : Seqs} {ws : List Write}
    (h : insertTask auth key title description metadata pg = .ok (id, seqs, ws)) :
    ∃ t, t = newTask auth id pg.now key title description metadata ∧ (∀ r ∈ pg.db.tasks, r.id ≠ id) ∧
      (pg.db.write ws).tasks = pg.db.tasks ++ [t] ∧ (pg.db.write ws).taskDeps = pg.db.taskDeps ∧
      (pg.db.write ws).taskEvents = pg.db.taskEvents := by
  obtain ⟨t, fired, ht, -, hnew, hfired, rfl⟩ := insertTask_ok h
  have hout : ∀ w ∈ fired, w.Outbox := by
    rw [show fired = _ from congrArg Prod.snd hfired]
    exact taskTriggers_outbox _ _ _
  obtain ⟨ds, ns, e⟩ := Db.write_outbox hout ((Write.insertTask t).apply pg.db)
  have hid : t.id = id := ht ▸ rfl
  refine ⟨t, ht, fun r hr => hid ▸ (hnew r hr).1, ?_⟩
  rw [Db.write_cons, e]
  exact ⟨rfl, rfl, rfl⟩

theorem insertTask_writes [Platform] {auth : AuthCtx} {key title : String} {description : Option String} {metadata : Json}
    (ht : [.tasks, .webhookDeliveries] ⊆ tables) {P : Db → Prop} :
    Sql.Writes (Own auth.agentId auth.teamId tables) P (insertTask auth key title description metadata)
      fun id db => db.taskIn id auth.teamId := by
  intro pg hv _ b seqs ws hs
  obtain ⟨t, fired, htask, hok, hnew, hfired, rfl⟩ := insertTask_ok hs
  have hteam : t.teamId = auth.teamId := htask ▸ rfl
  have hown : Own auth.agentId auth.teamId tables pg.now pg.db (.insertTask t) :=
    ⟨⟨hteam, htask ▸ rfl, htask ▸ rfl⟩, singleton_subset (ht (by simp))⟩
  have hf : Fires auth.agentId auth.teamId tables pg.now ((Write.insertTask t).apply pg.db)
      { pg.seqs with uuids := pg.seqs.uuids + 1 } (seqs, fired) :=
    hfired ▸ fires_tasks (ht (by simp)) _ (by simp [hteam]) rfl hv.keys.deliveriesBelow
  refine ⟨⟨hf.before.1, hf.before.2, hf.before.3, hf.before.4, hf.before.5⟩,
    ⟨⟨hok, hnew⟩, hown, hf.trail _ _ ⟨le_rfl, le_rfl, le_rfl, le_rfl, le_rfl⟩ (.refl _)⟩, ?_⟩
  have hid : t.id = b := htask ▸ rfl
  obtain ⟨ds, ns, e⟩ := hf.others
  rw [Db.write_cons, e]
  exact List.any_eq_true.2 ⟨t, List.mem_append_right _ List.mem_cons_self, by simp [hteam, hid]⟩

theorem insertTaskDep_writes {agent team task dep : Uuid} (ht : .taskDeps ∈ tables) :
    Sql.Writes (Own agent team tables) (fun db => Caller agent team db ∧ db.taskIn task team)
      (insertTaskDep task dep) fun _ db => Caller agent team db ∧ db.taskIn task team := by
  intro pg hv hP b seqs ws hs
  simp only [insertTaskDep] at hs
  split at hs
  · next hok =>
    obtain ⟨hok, hfresh⟩ := Bool.and_eq_true_iff.1 hok
    simp only [Except.ok.injEq, Prod.mk.injEq] at hs
    obtain ⟨-, rfl, rfl⟩ := hs
    refine ⟨.refl _, ⟨⟨hok, ?_⟩, ⟨hP.2, singleton_subset ht⟩, trivial⟩, hP⟩
    intro hd
    rw [Bool.not_eq_true', List.any_eq_false] at hfresh
    exact hfresh _ hd (beq_self_eq_true _)
  · exact absurd hs (by simp)

/-- The `UPDATE` statements on `tasks`: the rows are of the team, and the holder stays, goes, or is the
    caller. -/
theorem updateTask_writes [Platform] {agent team : Uuid} {pg : Pg} {p : Task → Bool} {f : Task → Task}
    (ht : [.tasks, .webhookDeliveries] ⊆ tables) (hv : pg.Valid)
    (hp : ∀ t ∈ pg.db.tasks, p t = true → t.teamId = team)
    (hf : ∀ t, (f t).id = t.id ∧ Db.taskKey (f t) = Db.taskKey t ∧ (f t).createdBy = t.createdBy ∧
      ((f t).claimedBy = t.claimedBy ∨ (f t).claimedBy = none ∨ (f t).claimedBy = some agent))
    (b : Option (Uuid × String)) (seqs : Seqs) (ws : List Write)
    (hs : updateTask p f pg = .ok (b, seqs, ws)) :
    pg.seqs.Before seqs ∧ Trail (Own agent team tables pg.now) pg.seqs seqs pg.db ws ∧
      ∀ r ∈ b, (pg.db.write ws).taskIn r.1 team := by
  simp only [updateTask] at hs
  split at hs
  · next hok =>
    simp only [Except.ok.injEq, Prod.mk.injEq] at hs
    obtain ⟨rfl, rfl, rfl⟩ := hs
    have hteam : ∀ t, (f t).teamId = t.teamId := fun t => by
      have := (hf t).2.1
      simp only [Db.taskKey, Prod.mk.injEq] at this
      exact this.1
    have hlegal : (Write.updateTasks p f).Legal pg.seqs pg.seqs pg.db := by
      intro t htask hpt
      exact ⟨(hf t).1, (hf t).2.1, List.all_eq_true.1 hok t (List.mem_filter.2 ⟨htask, hpt⟩)⟩
    have hown : Own agent team tables pg.now pg.db (.updateTasks p f) :=
      ⟨fun t htask hpt => ⟨hp t htask hpt, (hf t).2.2⟩, singleton_subset (ht (by simp))⟩
    have hfires : Fires agent team tables pg.now ((Write.updateTasks p f).apply pg.db) pg.seqs (taskTriggers pg _ pg.seqs) :=
      fires_tasks (ht (by simp)) ((pg.db.tasks.filter p).map fun t => (some t, f t)) (by
        intro r hr
        obtain ⟨t, htask, rfl⟩ := List.mem_map.1 hr
        obtain ⟨htask, hpt⟩ := List.mem_filter.1 htask
        exact (hteam t).trans (hp t htask hpt)) rfl hv.keys.deliveriesBelow
    have htrail : Trail (Own agent team tables pg.now) pg.seqs _ pg.db (.updateTasks p f :: _) :=
      ⟨hlegal.mono (.refl _) hfires.before, hown, hfires.trail _ _ (.refl _) (.refl _)⟩
    refine ⟨hfires.before, htrail, fun r hr => ?_⟩
    obtain ⟨t, hhead, rfl⟩ := Option.map_eq_some_iff.1 hr
    obtain ⟨htask, hpt⟩ := List.mem_filter.1 (List.mem_of_mem_head? hhead)
    exact htrail.taskIn (List.any_eq_true.2 ⟨t, htask, by simp [hp t htask hpt]⟩)
  · exact absurd hs (by simp)

theorem candidate_mem {team : Uuid} {pg : Pg} {c : Task} (h : candidate team pg = some c) :
    c ∈ pg.db.tasks ∧ available team pg c = true := by
  have := List.mem_of_mem_head? h
  rwa [Rows.mem_orderBy, List.mem_filter] at this

section
variable [Platform] {auth : AuthCtx} {P : Db → Prop} (ht : [.tasks, .webhookDeliveries] ⊆ tables)
include ht

theorem claimStatement_writes {key : String} {lease : Int} :
    Sql.Writes (Own auth.agentId auth.teamId tables) P (claimStatement auth key lease)
      fun r db => ∀ x ∈ r, db.taskIn x.1 auth.teamId := by
  intro pg hv _
  refine updateTask_writes ht hv (fun t _ h => ?_) fun t => ⟨rfl, rfl, rfl, .inr (.inr rfl)⟩
  simp only [claimable, Bool.and_eq_true, beq_iff_eq] at h
  exact h.1.1.1.1

theorem claimNextStatement_writes {lease : Int} :
    Sql.Writes (Own auth.agentId auth.teamId tables) P (claimNextStatement auth lease)
      fun r db => ∀ x ∈ r, db.taskIn x.1 auth.teamId := by
  intro pg hv _
  refine updateTask_writes ht hv (fun t htask h => ?_) fun t => ⟨rfl, rfl, rfl, .inr (.inr rfl)⟩
  obtain ⟨c, hc, hid⟩ := (Option.any_eq_true _ _).1 h
  obtain ⟨hmem, hav⟩ := candidate_mem hc
  have heq : c = t := hv.keys.tasks.eq hmem htask (by simpa using hid)
  subst heq
  simp only [available, Bool.and_eq_true, beq_iff_eq] at hav
  exact hav.1.1

theorem renewStatement_writes {key : String} {lease : Int} :
    Sql.Writes (Own auth.agentId auth.teamId tables) P (renewStatement auth key lease)
      fun r db => ∀ x ∈ r, db.taskIn x.1 auth.teamId := by
  intro pg hv _
  refine updateTask_writes ht hv (fun t _ h => ?_) fun t => ⟨rfl, rfl, rfl, .inl rfl⟩
  simp only [ownClaim, Bool.and_eq_true, beq_iff_eq] at h
  exact h.1.1.1

theorem releaseStatement_writes {key : String} :
    Sql.Writes (Own auth.agentId auth.teamId tables) P (releaseStatement auth key)
      fun r db => ∀ x ∈ r, db.taskIn x.1 auth.teamId := by
  intro pg hv _
  refine updateTask_writes ht hv (fun t _ h => ?_) fun t => ⟨rfl, rfl, rfl, .inr (.inl rfl)⟩
  simp only [ownClaim, Bool.and_eq_true, beq_iff_eq] at h
  exact h.1.1.1

theorem completeStatement_writes {key : String} {result : Option String} :
    Sql.Writes (Own auth.agentId auth.teamId tables) P (completeStatement auth key result)
      fun r db => ∀ x ∈ r, db.taskIn x.1 auth.teamId := by
  intro pg hv _
  refine updateTask_writes ht hv (fun t _ h => ?_) fun t => ⟨rfl, rfl, rfl, .inl rfl⟩
  simp only [Bool.and_eq_true, beq_iff_eq] at h
  exact h.1.1

end

/-! ### Calls that only read -/

theorem fetchTask_readOnly {auth : AuthCtx} {key : String} : ReadOnly (fetchTask auth key) :=
  .bind .select fun r => by cases r <;> simp

theorem lookupDeps_readOnly {auth : AuthCtx} {key : String} {raws : List String} :
    ReadOnly (lookupDeps auth key raws) := by
  induction raws with
  | nil => exact .pure
  | cons raw raws ih =>
    refine .bind .check fun depKey => .ite (.bind .throw fun _ => ?_) ?_
    all_goals
      refine .bind .select fun r => ?_
      cases r with
      | none => exact .throw
      | some id => exact .bind ih fun _ => .pure

theorem getTask_readOnly {auth : AuthCtx} {key : String} : ReadOnly (getTask auth key) :=
  .bind fetchTask_readOnly fun _ => .bind .select fun _ => .pure

theorem listTasks_readOnly [Platform] {auth : AuthCtx} {status : Option String} {mineOnly : Bool} {limit : Int} :
    ReadOnly (listTasks auth status mineOnly limit) :=
  .ite (.bind .throw fun _ => .bind .select fun _ => .bind .select fun _ => .pure)
    (.bind .select fun _ => .bind .select fun _ => .pure)

theorem noClaimHere_readOnly {auth : AuthCtx} {key : String} : ReadOnly (noClaimHere auth key) := by
  refine .bind (.attempt fetchTask_readOnly) fun r => ?_
  cases r with
  | error e => exact .pure
  | ok current => exact .ite .pure .pure

/-! ### Calls -/

section
variable {auth : AuthCtx}

theorem logEvent_writes {task : Uuid} {event : String} {detail : Option String} (ht : .taskEvents ∈ tables) :
    Bus.Writes (Own auth.agentId auth.teamId tables)
      (fun db => Caller auth.agentId auth.teamId db ∧ db.taskIn task auth.teamId)
      (logEvent task auth.agentId event detail) fun _ _ => True :=
  .execute (insertTaskEvent_writes ht)

/-- A claim, a release or a completion: the `UPDATE`, then the event of the row that it touched. -/
theorem updateThenLog_writes {α : Type} {s : Sql (Option (Uuid × String))} {rest : Option (Uuid × String) → Bus α}
    (hs : Sql.Writes (Own auth.agentId auth.teamId tables) (Caller auth.agentId auth.teamId) s
      fun r db => ∀ x ∈ r, db.taskIn x.1 auth.teamId)
    (hnone : ReadOnly (rest none))
    (hsome : ∀ x, Bus.Writes (Own auth.agentId auth.teamId tables)
      (fun db => Caller auth.agentId auth.teamId db ∧ db.taskIn x.1 auth.teamId) (rest (some x)) fun _ _ => True) :
    Bus.Writes (Own auth.agentId auth.teamId tables) (Caller auth.agentId auth.teamId)
      (execute (.update .tasks) s >>= rest) fun _ _ => True := by
  refine (Bus.Writes.execute (hs.caller fun _ h => h)).bind fun r => ?_
  cases r with
  | none => exact .of_readOnly hnone
  | some x => exact (hsome x).imp (fun db h => ⟨h.1, h.2 x rfl⟩) fun _ _ h => h

theorem claimTask_writes [Platform] (ht : [.tasks, .taskEvents, .webhookDeliveries] ⊆ tables) (key : String)
    (lease : Option Int) :
    Bus.Writes (Own auth.agentId auth.teamId tables) (Caller auth.agentId auth.teamId)
      (claimTask auth key lease) fun _ _ => True := by
  refine .reads .check fun key => updateThenLog_writes (claimStatement_writes (by simp_all)) ?_ fun x => ?_
  · exact .bind fetchTask_readOnly fun _ => .pure
  · exact (logEvent_writes (by simp_all)).bind fun _ =>
      .of_readOnly (.bind fetchTask_readOnly fun _ => .pure)

theorem claimNextTask_writes [Platform] (ht : [.tasks, .taskEvents, .webhookDeliveries] ⊆ tables) (lease : Option Int) :
    Bus.Writes (Own auth.agentId auth.teamId tables) (Caller auth.agentId auth.teamId)
      (claimNextTask auth lease) fun _ _ => True := by
  refine updateThenLog_writes (claimNextStatement_writes (by simp_all)) .pure fun x => ?_
  exact (logEvent_writes (by simp_all)).bind fun _ =>
    .of_readOnly (.bind fetchTask_readOnly fun _ => .pure)

theorem renewLease_writes [Platform] (ht : [.tasks, .webhookDeliveries] ⊆ tables) (key : String) (lease : Option Int) :
    Bus.Writes (Own auth.agentId auth.teamId tables) (Caller auth.agentId auth.teamId)
      (renewLease auth key lease) fun _ _ => True := by
  refine .reads .check fun key => updateThenLog_writes (renewStatement_writes ht) ?_ fun x => ?_
  · exact .bind noClaimHere_readOnly fun _ => .throw
  · exact .of_readOnly fetchTask_readOnly

theorem releaseTask_writes [Platform] (ht : [.tasks, .taskEvents, .webhookDeliveries] ⊆ tables) (key : String) :
    Bus.Writes (Own auth.agentId auth.teamId tables) (Caller auth.agentId auth.teamId)
      (releaseTask auth key) fun _ _ => True := by
  refine .reads .check fun key => updateThenLog_writes (releaseStatement_writes (by simp_all)) ?_ fun x => ?_
  · exact .bind noClaimHere_readOnly fun _ => .throw
  · exact (logEvent_writes (by simp_all)).bind fun _ => .of_readOnly fetchTask_readOnly

theorem completeTask_writes [Platform] (ht : [.tasks, .taskEvents, .webhookDeliveries] ⊆ tables) (key : String)
    (result : Option String) :
    Bus.Writes (Own auth.agentId auth.teamId tables) (Caller auth.agentId auth.teamId)
      (completeTask auth key result) fun _ _ => True := by
  refine .reads .check fun key => .reads .check fun result =>
    updateThenLog_writes (completeStatement_writes (by simp_all)) ?_ fun x => ?_
  · exact .bind fetchTask_readOnly fun _ => .throw
  · exact (logEvent_writes (by simp_all)).bind fun _ => .of_readOnly fetchTask_readOnly

theorem insertDeps_writes {task : Uuid} (ht : .taskDeps ∈ tables) (deps : List Uuid) :
    Bus.Writes (Own auth.agentId auth.teamId tables)
      (fun db => Caller auth.agentId auth.teamId db ∧ db.taskIn task auth.teamId) (insertDeps task deps)
      fun _ db => Caller auth.agentId auth.teamId db ∧ db.taskIn task auth.teamId := by
  induction deps with
  | nil => exact .pure fun _ h => h
  | cons dep deps ih => exact (Bus.Writes.execute (insertTaskDep_writes ht)).bind fun _ => ih

theorem createTask_writes [Platform] (ht : [.tasks, .taskDeps, .taskEvents, .webhookDeliveries] ⊆ tables)
    (input : CreateInput) :
    Bus.Writes (Own auth.agentId auth.teamId tables) (Caller auth.agentId auth.teamId)
      (createTask auth input) fun _ _ => True := by
  have insert : ∀ key title description metadata, Sql.Writes (Own auth.agentId auth.teamId tables)
      (Caller auth.agentId auth.teamId) (insertTask auth key title description metadata)
      fun id db => Caller auth.agentId auth.teamId db ∧ db.taskIn id auth.teamId :=
    fun _ _ _ _ => (insertTask_writes (by simp_all)).caller fun _ h => h
  have finish : ∀ key title id deps, Bus.Writes (Own auth.agentId auth.teamId tables)
      (fun db => Caller auth.agentId auth.teamId db ∧ db.taskIn id auth.teamId)
      (finishCreate auth key title id deps) fun _ _ => True := fun key title id deps =>
    (insertDeps_writes (by simp_all) deps).bind fun _ => (logEvent_writes (by simp_all)).bind fun _ =>
      .of_readOnly fetchTask_readOnly
  unfold createTask
  refine .reads .check fun key => .reads .check fun title => ?_
  refine .ite (fun _ => .throw_bind) fun _ => .reads .check fun description => .reads .check fun _ => ?_
  refine .reads .select fun existing => .ite (fun _ => .throw_bind) fun _ => ?_
  refine .ite (fun _ => .throw_bind) fun _ => .reads lookupDeps_readOnly fun deps => ?_
  exact (Bus.Writes.execute (insert _ _ _ _)).bind fun id => finish _ _ _ _

end

end CrewSync
