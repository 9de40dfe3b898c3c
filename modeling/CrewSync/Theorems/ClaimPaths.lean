import CrewSync.Theorems.TaskRows

/-! The two ways to claim a task. On the tables that the calls leave, the `WHERE` clauses of `claim_task` and of
    `claim_next_task` find the same tasks, but for the live claims of the caller itself. -/

namespace CrewSync
section
variable [Platform]

namespace Pg

/-- Anybody may claim the task: nobody holds it, or the lease has passed, and it waits for nothing. -/
structure Claimable (pg : Pg) (t : Task) : Prop where
  free : t.status = .«open» ∨ t.status = .claimed ∧ ∃ e, t.leaseExpiresAt = some e ∧ e < pg.now
  ready : ∀ d ∈ pg.db.taskDeps, d.taskId = t.id → ∀ b ∈ pg.db.tasks, b.id = d.blockedByTaskId →
    b.status = .done ∨ b.status = .cancelled

/-- The session of the caller holds a claim on the task that has not expired. -/
structure Holds (pg : Pg) (auth : AuthCtx) (t : Task) : Prop where
  claimed : t.status = .claimed
  agent : t.claimedBy = some auth.agentId
  session : t.claimedSession.getD "" = auth.session
  live : ∀ e, t.leaseExpiresAt = some e → ¬ e < pg.now

/-- The call is answered with `r`, and `r` grants a task. -/
def Grants (pg : Pg) (auth : AuthCtx) (pid : Nat) (c : Call) (r : ClaimResult) : Prop :=
  (pg.call auth pid c).1 = .ok (.claim r) ∧ r.claimed = true

end Pg

section
variable {pg : Pg} {auth : AuthCtx} {t : Task} {key : String}

/-! ### The two clauses -/

omit [Platform] in
theorem blocked_iff : pg.db.blocked t.id = false ↔ ∀ d ∈ pg.db.taskDeps, d.taskId = t.id → ∀ b ∈ pg.db.tasks,
    b.id = d.blockedByTaskId → b.status = .done ∨ b.status = .cancelled := by
  have hfinished : ∀ s : TaskStatus, s.finished = true ↔ s = .done ∨ s = .cancelled := fun s => by cases s <;> decide
  simp [Db.blocked, hfinished]

omit [Platform] in
theorem available_iff {team : Uuid} : available team pg t = true ↔ t.teamId = team ∧ pg.Claimable t := by
  simp only [available, Bool.and_eq_true, Bool.or_eq_true, beq_iff_eq, Option.any_eq_true, decide_eq_true_eq,
    Bool.not_eq_true', blocked_iff]
  constructor
  · rintro ⟨⟨hteam, hfree⟩, hready⟩
    exact ⟨hteam, hfree, hready⟩
  · rintro ⟨hteam, hfree, hready⟩
    exact ⟨⟨hteam, hfree⟩, hready⟩

/-- `claim_task` finds the task if anybody may claim it, or if the caller holds it. -/
theorem claimTask_finds (hpg : pg.Reachable) (ht : t ∈ pg.db.tasks) : claimable auth key pg t = true ↔
    t.teamId = auth.teamId ∧ t.key = key ∧ (pg.Claimable t ∨ pg.Holds auth t) := by
  have hunblocked := hpg.unblocked t ht
  have hlease := (hpg.wellFormed t ht).claimed
  simp only [claimable, Bool.and_eq_true, Bool.or_eq_true, beq_iff_eq, heldBy, Option.any_eq_true, decide_eq_true_eq,
    Bool.not_eq_true', Option.isNone_iff_eq_none]
  constructor
  · rintro ⟨⟨⟨⟨hteam, hkey⟩, hstatus⟩, hwho⟩, hfree⟩
    refine ⟨hteam, hkey, ?_⟩
    rcases hstatus with hopen | hclaimed
    · exact .inl ⟨.inl hopen, blocked_iff.1 hfree⟩
    obtain ⟨-, -, -, ⟨e, he, -⟩, -⟩ := hlease hclaimed
    by_cases hlt : e < pg.now
    · exact .inl ⟨.inr ⟨hclaimed, e, he, hlt⟩, blocked_iff.1 hfree⟩
    rcases hwho with ((hopen | ⟨hagent, hsession⟩) | hnull) | ⟨e', he', hlt'⟩
    · exact absurd (hopen.symm.trans hclaimed) (by simp)
    · refine .inr ⟨hclaimed, hagent, hsession, fun e' he' => ?_⟩
      rwa [← Option.some.inj (he.symm.trans he')]
    · -- The lease of a claimed task is never null.
      exact absurd (hnull.symm.trans he) (by simp)
    · exact absurd (Option.some.inj (he.symm.trans he') ▸ hlt') hlt
  · rintro ⟨hteam, hkey, hfree | hholds⟩
    · refine ⟨⟨⟨⟨hteam, hkey⟩, hfree.free.imp_right And.left⟩, ?_⟩, blocked_iff.2 hfree.ready⟩
      rcases hfree.free with hopen | ⟨-, he⟩
      · exact .inl (.inl (.inl hopen))
      · exact .inr he
    · exact ⟨⟨⟨⟨hteam, hkey⟩, .inr hholds.claimed⟩, .inl (.inl (.inr ⟨hholds.agent, hholds.session⟩))⟩,
        hunblocked hholds.claimed⟩

instance : Std.Total fun a b : Task => a.createdAt ≤ b.createdAt := ⟨fun _ _ => le_total _ _⟩

instance : IsTrans Task fun a b => a.createdAt ≤ b.createdAt := ⟨fun _ _ _ => le_trans⟩

omit [Platform] in
/-- The candidate is the oldest task that anybody may claim. -/
theorem candidate_oldest {team : Uuid} {c : Task} (h : candidate team pg = some c) :
    ∀ t ∈ pg.db.tasks, available team pg t = true → c.createdAt ≤ t.createdAt := fun _ ht hav =>
  (Rows.le_of_head?_orderBy h).2 _ (List.mem_filter.2 ⟨ht, hav⟩)

omit [Platform] in
theorem candidate_none {team : Uuid} (h : candidate team pg = none) :
    ∀ t ∈ pg.db.tasks, available team pg t = false := by
  intro t ht
  by_contra hav
  have hmem : t ∈ Rows.orderBy (fun a b => a.createdAt ≤ b.createdAt) (pg.db.tasks.filter (available team pg)) :=
    Rows.mem_orderBy.2 (List.mem_filter.2 ⟨ht, by simpa using hav⟩)
  rw [List.head?_eq_none_iff.1 h] at hmem
  cases hmem

/-! ### What the calls answer -/

section
variable {lease : Int} {p : Task → Bool} {l : Stmt} {s : Sql (Option (Uuid × String))}
  {rest : Option (Uuid × String) → Bus ClaimResult}

omit [Platform] in
theorem setClaimed_ok (hv : pg.Valid) (hc : Caller auth.agentId auth.teamId pg.db) (ht : t ∈ pg.db.tasks)
    (hteam : t.teamId = auth.teamId) : pg.db.taskOk (setClaimed auth lease pg.now t) = true := by
  have hok := hv.refs.tasks t ht
  simp only [Db.taskOk, Bool.and_eq_true] at hok ⊢
  refine ⟨⟨hok.1.1, ?_⟩, hok.2⟩
  have hagent : pg.db.agentIn auth.agentId auth.teamId = true := hc
  simpa [setClaimed, optional, hteam] using hagent

/-- A claim that finds its task is granted. -/
theorem claims_grant (hv : pg.Valid) (hc : Caller auth.agentId auth.teamId pg.db)
    (hs : s pg = updateTask p (setClaimed auth lease pg.now) pg) (ht : t ∈ pg.db.tasks) (hteam : t.teamId = auth.teamId)
    (hp : ∀ r ∈ pg.db.tasks, p r = true ↔ r = t)
    (hsome : ∃ detail, rest (some (t.id, t.key)) = (do
      logEvent t.id auth.agentId "claimed" detail
      return { claimed := true, task := some (← fetchTask auth t.key), reason := none })) :
    ∃ info pg', (execute l s >>= rest).exec pg = (.ok { claimed := true, task := some info, reason := none }, pg') ∧
      info.key = t.key ∧ pg'.db.tasks = Rows.update p (setClaimed auth lease pg.now) pg.db.tasks := by
  obtain ⟨detail, hrest⟩ := hsome
  obtain ⟨pg', he, htasks, hfind⟩ := updateThenLog_exec l hv hc hs (fun _ => ⟨rfl, setClaimed_key auth lease pg.now _⟩) ht hp
    (setClaimed_ok hv hc ht hteam) hrest
  rw [hteam] at hfind
  refine ⟨pg'.db.taskInfo pg'.now (setClaimed auth lease pg.now t), pg', ?_, rfl, htasks⟩
  rw [he, Bus.exec_bind, fetchTask_exec, hfind]
  rfl

/-- A claim that finds no task is refused. -/
theorem claims_refuse (hs : s pg = updateTask p (setClaimed auth lease pg.now) pg)
    (hp : ∀ t ∈ pg.db.tasks, p t = false)
    (hnone : ∀ pg', ((rest none).exec pg').2 = pg' ∧ ∀ res, ((rest none).exec pg').1 = .ok res → res.claimed = false) :
    ((execute l s >>= rest).exec pg).2.db.tasks = pg.db.tasks ∧
      ∀ res, ((execute l s >>= rest).exec pg).1 = .ok res → res.claimed = false := by
  rcases updateThen_exec l rest hs with ⟨-, he⟩ | ⟨pg₁, hu, he⟩
  · rw [he]
    exact ⟨rfl, fun res h => by cases h⟩
  have hnil : pg.db.tasks.filter p = [] := by simpa [List.filter_eq_nil_iff] using hp
  rw [he, hnil, List.head?_nil, Option.map_none, (hnone pg₁).1, hu.tasks, Rows.update_eq_self hp]
  exact ⟨rfl, (hnone pg₁).2⟩

end

/-- `claim_task` grants the task if its clause finds it, and nothing otherwise. -/
theorem claimTask_grants (hv : pg.Valid) (hc : Caller auth.agentId auth.teamId pg.db) {raw : String}
    (hkey : normalizeKey raw = .ok key) (lease : Option Int) :
    match pg.db.tasks.find? (claimable auth key pg) with
    | some t => ∃ info pg', (claimTask auth raw lease).exec pg =
        (.ok { claimed := true, task := some info, reason := none }, pg') ∧ info.key = t.key ∧
          pg'.db.tasks = Rows.update (claimable auth key pg) (setClaimed auth (leaseOf lease) pg.now) pg.db.tasks
    | none => ((claimTask auth raw lease).exec pg).2.db.tasks = pg.db.tasks ∧
        ∀ res, ((claimTask auth raw lease).exec pg).1 = .ok res → res.claimed = false := by
  have hteam : ∀ t, claimable auth key pg t = true → Db.taskKey t = (auth.teamId, key) := by
    intro t ht
    simp only [claimable, Bool.and_eq_true, beq_iff_eq] at ht
    exact Prod.ext ht.1.1.1.1 ht.1.1.1.2
  unfold claimTask
  rw [Bus.exec_bind, Bus.exec_check, hkey]
  cases hfind : pg.db.tasks.find? (claimable auth key pg) with
  | some t =>
    have ht := List.mem_of_find?_eq_some hfind
    have hp := List.find?_some hfind
    obtain ⟨hteam', hkey'⟩ := Prod.mk.inj (hteam t hp)
    simp only
    refine claims_grant hv hc rfl ht hteam' (fun r hr => ⟨fun hpr => ?_, fun h => h ▸ hp⟩) 
      ⟨none, by rw [hkey']⟩
    exact hv.keys.taskKeys.eq hr ht ((hteam r hpr).trans (hteam t hp).symm)
  | none =>
    simp only
    refine claims_refuse rfl (fun t ht => by simpa using List.find?_eq_none.1 hfind t ht) fun pg' => ?_
    simp only [Bus.exec_bind, fetchTask_exec]
    cases pg'.db.findTask auth.teamId key with
    | none => exact ⟨rfl, fun _ h => by cases h⟩
    | some t =>
      refine ⟨rfl, fun res h => ?_⟩
      cases h
      rfl

/-- `claim_next_task` grants the candidate, if there is one. -/
theorem claimNextTask_grants (hv : pg.Valid) (hc : Caller auth.agentId auth.teamId pg.db) (lease : Option Int) :
    match candidate auth.teamId pg with
    | some t => ∃ info pg', (claimNextTask auth lease).exec pg =
        (.ok { claimed := true, task := some info, reason := none }, pg') ∧ info.key = t.key ∧
          pg'.db.tasks = Rows.update (t.id == ·.id) (setClaimed auth (leaseOf lease) pg.now) pg.db.tasks
    | none => ((claimNextTask auth lease).exec pg).2.db.tasks = pg.db.tasks ∧
        ∀ res, ((claimNextTask auth lease).exec pg).1 = .ok res → res.claimed = false := by
  cases hcand : candidate auth.teamId pg with
  | some t =>
    obtain ⟨ht, hav⟩ := candidate_mem hcand
    simp only
    unfold claimNextTask
    refine claims_grant hv hc ?_ ht (available_iff.1 hav).1 (fun r hr => ?_) ⟨_, rfl⟩
    · simp only [claimNextStatement, hcand, Option.any_some]
    · rw [beq_iff_eq]
      exact ⟨fun h => (hv.keys.tasks.eq ht hr h).symm, fun h => h ▸ rfl⟩
  | none =>
    simp only
    unfold claimNextTask
    refine claims_refuse rfl (fun t ht => by simp [hcand]) fun pg' => ⟨rfl, fun res h => ?_⟩
    cases h
    rfl

/-! ### The two calls -/

/-- What a call on a claim path answers. -/
theorem call_grants (hauth : auth.authentic pg.db = true) (pid : Nat) (c : Call) {x : Bus ClaimResult}
    (hrun : c.run auth pid = .claim <$> x) (r : ClaimResult) :
    pg.Grants auth pid c r ↔ (x.exec pg).1 = .ok r ∧ r.claimed = true := by
  rw [Pg.Grants, Pg.call, if_pos hauth, hrun, Bus.exec_map]
  cases (x.exec pg).1 with
  | error e => simp [Except.map]
  | ok res => simp [Except.map]

theorem claimNext_agrees (hpg : pg.Reachable) (hauth : auth.authentic pg.db = true) (pid : Nat) (lease : Option Int) :
    ((∃ r, pg.Grants auth pid (.claimNextTask lease) r) ↔
        ∃ t ∈ pg.db.tasks, t.teamId = auth.teamId ∧ pg.Claimable t) ∧
      (∀ r, pg.Grants auth pid (.claimNextTask lease) r → ∃ t ∈ pg.db.tasks, t.teamId = auth.teamId ∧ pg.Claimable t ∧
        (∀ t' ∈ pg.db.tasks, t'.teamId = auth.teamId → pg.Claimable t' → t.createdAt ≤ t'.createdAt) ∧
        (∃ info, r.task = some info ∧ info.key = t.key) ∧
        (pg.call auth pid (.claimNextTask lease)).2.db.tasks =
          Rows.update (t.id == ·.id) (setClaimed auth (leaseOf lease) pg.now) pg.db.tasks) ∧
      ((∀ r, ¬ pg.Grants auth pid (.claimNextTask lease) r) →
        (pg.call auth pid (.claimNextTask lease)).2.db.tasks = pg.db.tasks) := by
  have hexec := claimNextTask_grants hpg.valid (AuthCtx.authentic.caller hauth) lease
  have hgrants := call_grants hauth pid (.claimNextTask lease) rfl
  have hafter : (pg.call auth pid (.claimNextTask lease)).2 = ((claimNextTask auth lease).exec pg).2 := by
    rw [Pg.call, if_pos hauth, Call.run, Bus.exec_map]
  rw [hafter]
  simp only [hgrants]
  cases hcand : candidate auth.teamId pg with
  | some t =>
    simp only [hcand] at hexec
    obtain ⟨info, pg', hexec, hkey, htasks⟩ := hexec
    obtain ⟨ht, hav⟩ := candidate_mem hcand
    obtain ⟨hteam, hclaimable⟩ := available_iff.1 hav
    rw [hexec]
    refine ⟨⟨fun _ => ⟨t, ht, hteam, hclaimable⟩, fun _ => ⟨_, rfl, rfl⟩⟩, fun r hr => ?_, fun hno => ?_⟩
    · obtain rfl := Except.ok.inj hr.1
      exact ⟨t, ht, hteam, hclaimable, fun t' ht' hteam' h' => candidate_oldest hcand t' ht' (available_iff.2 ⟨hteam', h'⟩),
        ⟨info, rfl, hkey⟩, htasks⟩
    · exact absurd ⟨rfl, rfl⟩ (hno _)
  | none =>
    simp only [hcand] at hexec
    obtain ⟨htasks, hno⟩ := hexec
    have refused : ∀ r, ¬ (((claimNextTask auth lease).exec pg).1 = .ok r ∧ r.claimed = true) := by
      rintro r ⟨hr, hclaimed⟩
      rw [hno r hr] at hclaimed
      cases hclaimed
    refine ⟨⟨?_, ?_⟩, fun r hr => absurd hr (refused r), fun _ => htasks⟩
    · rintro ⟨r, hr⟩
      exact absurd hr (refused r)
    · rintro ⟨t, ht, hteam, hclaimable⟩
      have hav := candidate_none hcand t ht
      rw [available_iff.2 ⟨hteam, hclaimable⟩] at hav
      cases hav

theorem claim_agrees (hpg : pg.Reachable) (hauth : auth.authentic pg.db = true) (pid : Nat) (raw : String)
    (lease : Option Int) :
    (∃ r, pg.Grants auth pid (.claimTask raw lease) r) ↔ ∃ key, normalizeKey raw = .ok key ∧
      ∃ t, pg.db.findTask auth.teamId key = some t ∧ (pg.Claimable t ∨ pg.Holds auth t) := by
  have hgrants := call_grants hauth pid (.claimTask raw lease) rfl
  simp only [hgrants]
  cases hraw : normalizeKey raw with
  | error e =>
    have hexec : (claimTask auth raw lease).exec pg = (.error e, pg) := by
      unfold claimTask
      rw [Bus.exec_bind, Bus.exec_check, hraw]
    rw [hexec]
    constructor
    · rintro ⟨r, hr, -⟩
      cases hr
    · rintro ⟨key, hkey, -⟩
      cases hkey
  | ok key =>
    have hexec := claimTask_grants hpg.valid (AuthCtx.authentic.caller hauth) hraw lease
    have hfinds : (∃ key', (Except.ok key : Except BusError String) = .ok key' ∧
        ∃ t, pg.db.findTask auth.teamId key' = some t ∧ (pg.Claimable t ∨ pg.Holds auth t)) ↔
          ∃ t ∈ pg.db.tasks, claimable auth key pg t = true := by
      constructor
      · rintro ⟨key', hkey, t, hfind, hcan⟩
        obtain rfl := Except.ok.inj hkey
        obtain ⟨ht, hteam, hkey⟩ := Db.findTask_some hfind
        exact ⟨t, ht, (claimTask_finds hpg ht).2 ⟨hteam, hkey, hcan⟩⟩
      · rintro ⟨t, ht, hp⟩
        obtain ⟨hteam, hkey, hcan⟩ := (claimTask_finds hpg ht).1 hp
        exact ⟨key, rfl, t, hteam ▸ hkey ▸ Db.findTask_of_mem hpg.valid.keys ht, hcan⟩
    rw [hfinds]
    cases hfind : pg.db.tasks.find? (claimable auth key pg) with
    | some t =>
      simp only [hfind] at hexec
      obtain ⟨info, pg', hexec, -, -⟩ := hexec
      rw [hexec]
      exact ⟨fun _ => ⟨t, List.mem_of_find?_eq_some hfind, List.find?_some hfind⟩, fun _ => ⟨_, rfl, rfl⟩⟩
    | none =>
      simp only [hfind] at hexec
      constructor
      · rintro ⟨r, hr, hclaimed⟩
        rw [hexec.2 r hr] at hclaimed
        cases hclaimed
      · rintro ⟨t, ht, hp⟩
        exact absurd hp (List.find?_eq_none.1 hfind t ht)

/-- `claim_next_task` grants a task if and only if anybody may claim one, namely the oldest of these, and changes no
    other; `claim_task` grants the task if and only if anybody may claim it or the caller holds it. No claimed task has a
    null lease. -/
theorem claim_paths_agree (hpg : pg.Reachable) (hauth : auth.authentic pg.db = true) (pid : Nat) (lease : Option Int) :
    (((∃ r, pg.Grants auth pid (.claimNextTask lease) r) ↔
        ∃ t ∈ pg.db.tasks, t.teamId = auth.teamId ∧ pg.Claimable t) ∧
      (∀ r, pg.Grants auth pid (.claimNextTask lease) r → ∃ t ∈ pg.db.tasks, t.teamId = auth.teamId ∧ pg.Claimable t ∧
        (∀ t' ∈ pg.db.tasks, t'.teamId = auth.teamId → pg.Claimable t' → t.createdAt ≤ t'.createdAt) ∧
        (∃ info, r.task = some info ∧ info.key = t.key) ∧
        (pg.call auth pid (.claimNextTask lease)).2.db.tasks =
          Rows.update (t.id == ·.id) (setClaimed auth (leaseOf lease) pg.now) pg.db.tasks) ∧
      ((∀ r, ¬ pg.Grants auth pid (.claimNextTask lease) r) →
        (pg.call auth pid (.claimNextTask lease)).2.db.tasks = pg.db.tasks)) ∧
    (∀ raw, (∃ r, pg.Grants auth pid (.claimTask raw lease) r) ↔ ∃ key, normalizeKey raw = .ok key ∧
      ∃ t, pg.db.findTask auth.teamId key = some t ∧ (pg.Claimable t ∨ pg.Holds auth t)) ∧
    ∀ t ∈ pg.db.tasks, t.status = .claimed → t.leaseExpiresAt ≠ none := by
  refine ⟨claimNext_agrees hpg hauth pid lease, fun raw => claim_agrees hpg hauth pid raw lease, fun t ht hs => ?_⟩
  obtain ⟨-, -, -, ⟨e, he, -⟩, -⟩ := (hpg.wellFormed t ht).claimed hs
  rw [he]
  simp

end
end

section
open Sample
attribute [local instance] Platform.ascii

theorem oneTask_granted : ∃ r, Pg.oneTask.Grants bob 0 (.claimNextTask none) r :=
  (@claim_paths_agree Platform.ascii Pg.oneTask bob ((Pg.Reachable.init 0).after _) (by decide) 0 none).1.1.2
    ⟨Pg.oneTask.db.tasks[0], List.getElem_mem _, by decide, .inl (by decide), by decide⟩

end
end CrewSync
