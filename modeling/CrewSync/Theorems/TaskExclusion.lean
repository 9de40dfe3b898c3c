import CrewSync.Theorems.TaskLease
import CrewSync.Theorems.Text

/-! A claim on a task is exclusive to an agent and its session until the lease has passed or they release it. -/

namespace CrewSync
open Lease
section
variable [Platform]

namespace Pg

/-- The call is answered `claimed = true` with the task `key`. -/
def claimed (pg : Pg) (auth : AuthCtx) (pid : Nat) (c : Call) (key : String) : Bool :=
  match (pg.call auth pid c).1 with
  | .ok (.claim r) => r.claimed && r.task.any (·.key == key)
  | _ => false

/-- The event is a release of the task that is answered. -/
def released (team : Uuid) (key : String) (pg : Pg) : Event → Bool
  | .call auth pid (.releaseTask raw) => auth.teamId == team &&
      match (pg.call auth pid (.releaseTask raw)).1 with
      | .ok (.task t) => t.key == key
      | _ => false
  | _ => false

/-- The clock is past the lease of the task. -/
def leasePast (team : Uuid) (key : String) (pg : Pg) : Bool :=
  (pg.db.findTask team key).any fun t => t.leaseExpiresAt.any (· < pg.now)

omit [Platform] in
theorem leasePast_of_past {team : Uuid} {key : String} {pg : Pg} (h : (pg.taskCell team key).Past pg.now) :
    pg.leasePast team key = true := by
  unfold taskCell at h
  unfold leasePast
  cases ht : pg.db.findTask team key with
  | none => simp [ht, Cell.Past] at h
  | some t =>
    simp only [ht, Option.map_some, Option.getD_some, Task.cell] at h
    cases hs : t.status with
    | claimed =>
      simp only [hs] at h
      cases he : t.leaseExpiresAt with
      | none => simp [he, Cell.Past] at h
      | some e => simpa [he, Cell.Past] using h
    | _ => simp [hs, Cell.Past] at h

/-! ### Moves -/

section
variable {pg : Pg} {auth : AuthCtx} {team : Uuid} {key : String}

omit [Platform] in
theorem ownClaim_iff {k : String} {t : Task} :
    ownClaim auth k t = true ↔ t.teamId = auth.teamId ∧ t.key = k ∧ t.status = .claimed ∧
      (t.claimedBy, t.claimedSession.getD "") = auth.identity := by
  simp only [ownClaim, Bool.and_eq_true, beq_iff_eq, heldBy_iff, AuthCtx.identity, and_assoc]

theorem renew_move (auth : AuthCtx) (team : Uuid) (key raw : String) (lease : Option Int) :
    ∃ op, Move pg.now auth.identity op (pg.taskCell team key)
      (((renewLease auth raw lease).exec pg).2.taskCell team key) ∧ op ≠ .release := by
  obtain ⟨k, -, h⟩ := renewLease_updates auth pg raw lease
  have hmove : ∀ t, ownClaim auth k t = true → Move pg.now auth.identity .renew t.cell
      { t with leaseExpiresAt := some (pg.now + secs (leaseOf lease)), updatedAt := pg.now : Task }.cell := by
    intro t ht
    obtain ⟨-, -, hs, hi⟩ := ownClaim_iff.1 ht
    simp only [Task.cell, hs, hi]
    exact .renew
  rcases h.move (fun _ => rfl) hmove team key with h | ⟨h, -⟩
  · exact ⟨.stay, h, by simp⟩
  · exact ⟨.renew, h, by simp⟩

theorem complete_move (auth : AuthCtx) (team : Uuid) (key raw : String) (result : Option String) :
    ∃ op, Move pg.now auth.identity op (pg.taskCell team key)
      (((completeTask auth raw result).exec pg).2.taskCell team key) ∧ op ≠ .release := by
  have close : ∀ {c}, Move pg.now auth.identity .close c .closed := .close
  obtain ⟨k, result', h⟩ := completeTask_updates auth pg raw result
  rcases h.move (fun _ => rfl) (fun _ _ => close) team key with h | ⟨h, -⟩
  · exact ⟨.stay, h, by simp⟩
  · exact ⟨.close, h, by simp⟩

/-- A release gives up the caller's own claim, and says so. -/
theorem release_move (team : Uuid) (key : String) (hc : Caller auth.agentId auth.teamId pg.db) (raw : String) :
    Move pg.now auth.identity .stay (pg.taskCell team key) (((releaseTask auth raw).exec pg).2.taskCell team key) ∨
      Move pg.now auth.identity .release (pg.taskCell team key)
        (((releaseTask auth raw).exec pg).2.taskCell team key) ∧
      auth.teamId = team ∧ ∃ info, ((releaseTask auth raw).exec pg).1 = .ok info ∧ info.key = key := by
  obtain ⟨k, hk, h⟩ := releaseTask_updates auth pg raw
  have hmove : ∀ t, ownClaim auth k t = true → Move pg.now auth.identity .release t.cell
      { t with
        status := .«open», claimedBy := none, claimedSession := none, claimedAt := none
        leaseExpiresAt := none, updatedAt := pg.now : Task }.cell := by
    intro t ht
    obtain ⟨-, -, hs, hi⟩ := ownClaim_iff.1 ht
    simp only [Task.cell, hs, hi]
    exact .release
  rcases h.move (fun _ => rfl) hmove team key with hm | ⟨hm, t, ht, hpt⟩
  · exact .inl hm
  obtain ⟨hmem, hteam, hkey⟩ := Db.findTask_some ht
  obtain ⟨hteam', hkey', -⟩ := ownClaim_iff.1 hpt
  cases hraw : normalizeKey raw with
  | error e =>
    left
    have : ((releaseTask auth raw).exec pg).2 = pg := by
      unfold releaseTask
      rw [Bus.exec_bind, Bus.exec_check, hraw]
    rw [this]
    exact .stay
  | ok k' =>
    obtain rfl := hk k' hraw
    rcases releaseTask_answers hc hraw hmem hpt with hsame | ⟨info, hr, hinfo⟩
    · rw [hsame]
      exact .inl .stay
    · exact .inr ⟨hm, hteam'.symm.trans hteam, info, hr, hinfo.trans (hkey'.symm.trans hkey)⟩

/-- A task that `create_task` adds is open. -/
def Added (pg pg' : Pg) : Prop :=
  pg'.db.tasks = pg.db.tasks ∨ ∃ t : Task, t.status = .«open» ∧ pg'.db.tasks = pg.db.tasks ++ [t]

/-- `create_task` adds an open task and dependencies of it, or nothing. -/
def Creates (auth : AuthCtx) (pg pg' : Pg) : Prop :=
  (pg'.db.tasks = pg.db.tasks ∧ pg'.db.taskDeps = pg.db.taskDeps) ∨
    ∃ id key title description metadata deps, normalizeKey key = .ok key ∧ (∀ t ∈ pg.db.tasks, t.id ≠ id) ∧
      (∀ d ∈ deps, d.taskId = id) ∧
      pg'.db.tasks = pg.db.tasks ++ [newTask auth id pg.now key title description metadata] ∧
      pg'.db.taskDeps = pg.db.taskDeps ++ deps

/-- Only dependencies of the task are added. -/
def Depends (task : Uuid) (pg pg' : Pg) : Prop :=
  pg'.db.tasks = pg.db.tasks ∧ ∃ deps, (∀ d ∈ deps, d.taskId = task) ∧ pg'.db.taskDeps = pg.db.taskDeps ++ deps

omit [Platform] in
theorem Depends.refl (task : Uuid) (pg : Pg) : Depends task pg pg := ⟨rfl, [], by simp, by simp⟩

omit [Platform] in
theorem Depends.trans {task : Uuid} {a b c : Pg} (h : Depends task a b) (h' : Depends task b c) : Depends task a c := by
  obtain ⟨htasks, ds, hds, hdeps⟩ := h
  obtain ⟨htasks', ds', hds', hdeps'⟩ := h'
  refine ⟨htasks'.trans htasks, ds ++ ds', fun d hd => ?_, by rw [hdeps', hdeps, List.append_assoc]⟩
  rcases List.mem_append.1 hd with hd | hd
  · exact hds d hd
  · exact hds' d hd

omit [Platform] in
theorem insertDeps_depends (task : Uuid) (deps : List Uuid) : Bus.Moves (Depends task) (insertDeps task deps) := by
  induction deps with
  | nil => exact Depends.refl task
  | cons dep deps ih =>
    refine .bind (fun h h' => h.trans h') (fun pg => ?_) fun _ => ih
    simp only [Bus.exec_execute, Sql.effect, insertTaskDep]
    split
    · next h =>
      split at h
      · cases h
        exact ⟨rfl, [_], by simp, rfl⟩
      · cases h
    · exact Depends.refl task pg

omit [Platform] in
theorem logThenFetch_depends (task agent : Uuid) (event : String) (detail : Option String) (key : String) :
    Bus.Moves (Depends task) (do logEvent task agent event detail; fetchTask auth key) := by
  refine .bind (fun h h' => h.trans h') (fun pg => ?_) fun _ pg => ?_
  · simp only [logEvent, Bus.exec_execute, Sql.effect, insertTaskEvent]
    split
    · next h =>
      split at h
      · cases h
        exact ⟨rfl, [], by simp, by simp [Write.apply]⟩
      · cases h
    · exact Depends.refl task pg
  · rw [fetchTask_exec]
    exact Depends.refl task pg

omit [Platform] in
theorem finishCreate_depends (key title : String) (id : Uuid) (deps : List Uuid) :
    Bus.Moves (Depends id) (finishCreate auth key title id deps) :=
  .bind (fun h h' => h.trans h') (insertDeps_depends id deps) fun _ => logThenFetch_depends id _ _ _ _

theorem createTask_creates (input : CreateInput) : Bus.Moves (Creates auth) (createTask auth input) := by
  have refl : ∀ pg, Creates auth pg pg := fun _ => .inl ⟨rfl, rfl⟩
  unfold createTask
  cases hkey : normalizeKey input.key with
  | error e => exact .throw_bind refl
  | ok key =>
  rw [check, pure_bind]
  refine .reads refl .check fun title => .ite (.throw_bind refl) ?_
  refine .reads refl .check fun description => .reads refl .check fun _ => ?_
  generalize input.metadata.getD "\x7b\x7d" = metadata
  refine .reads refl .select fun existing => ?_
  refine .ite (.throw_bind refl) (.ite (.throw_bind refl) (.reads refl lookupDeps_readOnly fun deps pg => ?_))
  rw [Bus.exec_bind, Bus.exec_execute]
  cases hs : insertTask auth key title description metadata pg with
  | error e =>
    simp only [Sql.answer, Sql.effect, hs]
    exact refl pg
  | ok r =>
    obtain ⟨id, seqs, ws⟩ := r
    obtain ⟨t, rfl, hnew, htasks, hdeps, -⟩ := insertTask_rows hs
    simp only [Sql.answer, Sql.effect, hs]
    obtain ⟨htasks', deps', hdeps', hadded⟩ := finishCreate_depends key title id (sortDedup deps)
      { pg with db := pg.db.write ws, seqs }
    exact .inr ⟨id, key, title, description, metadata, deps', normalizeKey_self hkey, hnew, hdeps', htasks'.trans htasks,
      hadded.trans (congrArg (· ++ deps') hdeps)⟩

theorem createTask_added (input : CreateInput) : Bus.Moves Added (createTask auth input) := fun pg => by
  rcases (createTask_creates input : Bus.Moves (Creates auth) _) pg with ⟨h, -⟩ | ⟨id, key, title, description, metadata, deps, -, -, -, h, -⟩
  · exact .inl h
  · exact .inr ⟨_, rfl, h⟩

omit [Platform] in
theorem Added.move {pg' : Pg} (h : Added pg pg') :
    Move pg.now auth.identity .stay (pg.taskCell team key) (pg'.taskCell team key) := by
  have : pg'.taskCell team key = pg.taskCell team key := by
    rcases h with h | ⟨t, ho, h⟩
    · exact taskCell_eq h
    simp only [taskCell, Db.findTask, h, List.find?_append]
    cases hf : pg.db.tasks.find? fun t => t.teamId == team && t.key == key with
    | some r => rfl
    | none =>
      cases hp : t.teamId == team && t.key == key with
      | false => simp [List.find?, hp]
      | true => simp [List.find?, hp, Task.cell, ho]
  exact this ▸ .stay

/-! ### The server -/

/-- What a tool call does to the cell of a task. -/
theorem call_move (team : Uuid) (key : String) (hv : pg.Valid) (hc : Caller auth.agentId auth.teamId pg.db) (pid : Nat) (c : Call)
    (hcall : pg.call auth pid c = (c.run auth pid).exec pg) :
    ∃ op, Move pg.now auth.identity op (pg.taskCell team key) ((pg.next (.call auth pid c)).taskCell team key) ∧
      (op = .release → pg.released team key (.call auth pid c) = true) := by
  have frame : .tasks ∉ c.writes → ∃ op,
      Move pg.now auth.identity op (pg.taskCell team key) ((pg.next (.call auth pid c)).taskCell team key) ∧
        (op = .release → pg.released team key (.call auth pid c) = true) := by
    intro ht
    refine ⟨.stay, ?_, by simp⟩
    rw [taskCell_eq (next_frame hv (.call auth pid c) (·.tasks) fun db w hw => w.frame_tasks (fun h => ht (hw h)) db)]
    exact .stay
  have hnext : ∀ {α : Type} (f : α → Reply) (x : Bus α), c.run auth pid = f <$> x →
      pg.next (.call auth pid c) = (x.exec pg).2 := by
    intro α f x h
    simp only [Pg.next, hcall, h, Bus.exec_map]
  cases c with
  | createTask input =>
    refine ⟨.stay, ?_, by simp⟩
    rw [hnext _ _ rfl]
    exact (createTask_added input pg).move
  | claimTask raw lease =>
    obtain ⟨k, h⟩ := claimTask_claims auth pg raw lease
    obtain ⟨op, hm, hop⟩ := h.move (fun t _ hp => claimable_takeable hp) team key
    rw [hnext _ _ rfl]
    exact ⟨op, hm, fun h => absurd h hop⟩
  | claimNextTask lease =>
    have h := claimNextTask_claims auth pg lease
    obtain ⟨op, hm, hop⟩ := h.move (fun t ht hp => candidate_takeable hv ht hp) team key
    rw [hnext _ _ rfl]
    exact ⟨op, hm, fun h => absurd h hop⟩
  | renewTaskLease raw lease =>
    obtain ⟨op, hm, hop⟩ := renew_move auth team key raw lease
    rw [hnext _ _ rfl]
    exact ⟨op, hm, fun h => absurd h hop⟩
  | completeTask raw result =>
    obtain ⟨op, hm, hop⟩ := complete_move auth team key raw result
    rw [hnext _ _ rfl]
    exact ⟨op, hm, fun h => absurd h hop⟩
  | releaseTask raw =>
    rw [hnext _ _ rfl]
    rcases release_move team key hc raw with hm | ⟨hm, hteam, info, hr, hinfo⟩
    · exact ⟨.stay, hm, by simp⟩
    · refine ⟨.release, hm, fun _ => ?_⟩
      simp only [released, hcall, Call.run, Bus.exec_map, hr, Except.map, hteam, hinfo, beq_self_eq_true, Bool.and_self]
  | _ => exact frame (by simp [Call.writes])

/-- The server is a machine of leases on its tasks. -/
theorem tasks_implement (team : Uuid) (key : String) :
    Implements next Valid (·.now) (taskCell team key) Event.who fun pg e => pg.released team key e = true where
  keeps := fun _ e h => h.next e
  move := fun pg e hv => by
    have frame : .tasks ∉ e.writes → (pg.next e).taskCell team key = pg.taskCell team key := fun ht =>
      taskCell_eq (next_frame hv e (·.tasks) fun db w hw => w.frame_tasks (fun h => ht (hw h)) db)
    have stays : (pg.next e).taskCell team key = pg.taskCell team key → ∃ i op,
        Move pg.now i op (pg.taskCell team key) ((pg.next e).taskCell team key) ∧
          (op ≠ .stay → op ≠ .close → e.who = some i) ∧ (op = .release → pg.released team key e = true) :=
      fun h => ⟨(none, ""), .stay, h ▸ .stay, by simp, by simp⟩
    cases e with
    | call auth pid c =>
      by_cases ha : auth.authentic pg.db = true
      · obtain ⟨op, hm, hr⟩ := call_move team key hv (AuthCtx.authentic.caller ha) pid c
          (if_pos ha)
        exact ⟨auth.identity, op, hm, fun _ _ => rfl, hr⟩
      · refine stays ?_
        simp only [next, call, if_neg ha]
    | command pid c => exact stays (frame (by cases c <;> simp [Event.writes, Command.writes]))
    | tick d => exact stays rfl
    | _ => exact stays (frame (by simp [Event.writes]))

end

/-- A claim that is answered `claimed = true` takes a cell that was there to take. -/
theorem claimed_taken {pg : Pg} (hv : pg.Valid) {auth : AuthCtx} {pid : Nat} {c : Call} {key : String}
    (h : pg.claimed auth pid c key = true) :
    (pg.taskCell auth.teamId key).Takeable pg.now auth.identity ∧
      ((pg.call auth pid c).2.taskCell auth.teamId key).Kept auth.identity := by
  by_cases ha : auth.authentic pg.db = true
  swap
  · simp only [claimed, call, if_neg ha] at h
    exact absurd h (by simp)
  have hexec : ∀ {α : Type} (f : α → Reply) (x : Bus α), c.run auth pid = f <$> x →
      pg.call auth pid c = ((x.exec pg).1.map f, (x.exec pg).2) := by
    intro α f x h
    simp only [call, if_pos ha, h, Bus.exec_map]
  have granted : ∀ {r : Except BusError ClaimResult × Pg}, pg.call auth pid c = (r.1.map .claim, r.2) →
      ∃ res, r.1 = .ok res ∧ res.grants key := by
    intro r hr
    simp only [claimed, hr] at h
    cases hres : r.1 with
    | error e => simp [hres, Except.map] at h
    | ok res =>
      simp only [hres, Except.map, Bool.and_eq_true, Option.any_eq_true, beq_iff_eq] at h
      exact ⟨res, rfl, h.1, h.2⟩
  have other : ∀ {α : Type} (f : α → Reply) (x : Bus α), c.run auth pid = f <$> x → (∀ a r, f a ≠ .claim r) → False := by
    intro α f x hx hf
    simp only [claimed, hexec f x hx] at h
    cases hr : (x.exec pg).1 with
    | error e => simp [hr, Except.map] at h
    | ok a =>
      simp only [hr, Except.map] at h
      split at h
      · next r ha => exact hf a r (Except.ok.inj ha)
      · exact absurd h (by simp)
  cases c with
  | claimTask raw lease =>
    obtain ⟨k, hc⟩ := claimTask_claims auth pg raw lease
    have hcall := hexec _ _ rfl
    obtain ⟨res, hr, hg⟩ := granted hcall
    rw [hcall]
    exact hc.taken hv (fun t _ hp => claimable_takeable hp) hr hg
  | claimNextTask lease =>
    have hc := claimNextTask_claims auth pg lease
    have hcall := hexec _ _ rfl
    obtain ⟨res, hr, hg⟩ := granted hcall
    rw [hcall]
    exact hc.taken hv (fun t ht hp => candidate_takeable hv ht hp) hr hg
  | _ => exact (other _ _ rfl fun _ _ h => by cases h).elim

omit [Platform] in
/-- The row is not the own claim of another than the holder. -/
theorem not_ownClaim {pg : Pg} {team : Uuid} {key : String} {i : Identity} (hk : (pg.taskCell team key).Kept i)
    {auth : AuthCtx} (hi : auth.identity ≠ i) (k : String) {t : Task} (ht : pg.db.findTask team key = some t) :
    ownClaim auth k t = false := by
  by_contra hp
  obtain ⟨-, -, hs, hheld⟩ := ownClaim_iff.1 (by simpa using hp)
  simp only [taskCell, ht, Option.map_some, Option.getD_some, Task.cell, hs, hheld, Cell.Kept] at hk
  rcases hk with h | ⟨e, h⟩
  · cases h
  · exact hi (Cell.held.inj h).1

/-- A renewal or a release by another than the holder leaves the row alone, and is refused. -/
theorem refused_of_kept {pg : Pg} (hv : pg.Valid) {team : Uuid} {key : String} {i : Identity}
    (hk : (pg.taskCell team key).Kept i) {auth : AuthCtx} (hi : auth.identity ≠ i) (pid : Nat) (raw : String)
    (lease : Option Int) :
    ∀ c ∈ [Call.renewTaskLease raw lease, .releaseTask raw],
      (pg.call auth pid c).2.db.findTask team key = pg.db.findTask team key ∧
        (auth.teamId = team → normalizeKey raw = .ok key → ∃ e, (pg.call auth pid c).1 = .error e) := by
  intro c hc
  by_cases ha : auth.authentic pg.db = true
  swap
  · rw [show pg.call auth pid c = (.error (.unauthenticated "invalid bearer token"), pg) from if_neg ha]
    exact ⟨rfl, fun _ _ => ⟨_, rfl⟩⟩
  have refused : ∀ {f : Task → Task} {k : String} {r : Except BusError TaskInfo × Pg},
      pg.call auth pid c = (r.1.map .task, r.2) → (∀ k', normalizeKey raw = .ok k' → k' = k) →
      Updates (ownClaim auth k) f pg r → (∀ t, Db.taskKey (f t) = Db.taskKey t) →
      (pg.call auth pid c).2.db.findTask team key = pg.db.findTask team key ∧
        (auth.teamId = team → normalizeKey raw = .ok key → ∃ e, (pg.call auth pid c).1 = .error e) := by
    intro f k r hcall hkey h hf
    rw [hcall]
    refine ⟨h.row hf fun t ht => not_ownClaim hk hi k ht, fun hteam hraw => ?_⟩
    obtain rfl := hkey key hraw
    have hno : ∀ t ∈ pg.db.tasks, ownClaim auth key t = false := by
      intro t ht
      by_contra hp
      obtain ⟨hteam', rfl, -⟩ := ownClaim_iff.1 (by simpa using hp)
      have hfind := Db.findTask_of_mem hv.keys ht
      rw [hteam', hteam] at hfind
      exact hp (not_ownClaim hk hi _ hfind)
    obtain ⟨⟨e, he⟩, -⟩ := h.refused hno
    exact ⟨e, by rw [he]; rfl⟩
  have hexec : ∀ {x : Bus TaskInfo}, c.run auth pid = .task <$> x →
      pg.call auth pid c = ((x.exec pg).1.map .task, (x.exec pg).2) := by
    intro x h
    simp only [call, if_pos ha, h, Bus.exec_map]
  simp only [List.mem_cons, List.not_mem_nil, or_false] at hc
  rcases hc with rfl | rfl
  · obtain ⟨k, hkey, h⟩ := renewLease_updates auth pg raw lease
    exact refused (hexec rfl) hkey h fun _ => rfl
  · obtain ⟨k, hkey, h⟩ := releaseTask_updates auth pg raw
    exact refused (hexec rfl) hkey h fun _ => rfl

/-! ### Exclusion -/

/-- While the lease that `holder` got runs and `holder` has not released the task, nobody else claims it,
    renews it or releases it, and the lease is the one that `holder` set. -/
theorem claim_exclusive {pg : Pg} (hpg : pg.Reachable) {holder : AuthCtx} {pid : Nat} {c : Call} {key : String}
    (hclaim : pg.claimed holder pid c key = true) {es : List Event}
    (hrun : Runs.Along next (fun pg e => pg.leasePast holder.teamId key = false ∧
      ¬ (e.who = some holder.identity ∧ pg.released holder.teamId key e = true)) (pg.call holder pid c).2 es)
    (hnow : ((pg.call holder pid c).2.after es).leasePast holder.teamId key = false)
    {other : AuthCtx} (hother : other.identity ≠ holder.identity) (pid' : Nat) :
    let pg' := (pg.call holder pid c).2.after es
    (other.teamId = holder.teamId → ∀ c', pg'.claimed other pid' c' key = false) ∧
      (∀ raw lease, ∀ c' ∈ [Call.renewTaskLease raw lease, .releaseTask raw],
        (pg'.call other pid' c').2.db.findTask holder.teamId key = pg'.db.findTask holder.teamId key ∧
          (other.teamId = holder.teamId → normalizeKey raw = .ok key → ∃ e, (pg'.call other pid' c').1 = .error e)) ∧
      ∀ e : Event, e.who ≠ some holder.identity →
        (pg'.next e).taskCell holder.teamId key = pg'.taskCell holder.teamId key ∨
          (pg'.next e).taskCell holder.teamId key = .closed := by
  have himpl := tasks_implement holder.teamId key
  obtain ⟨hv, hk⟩ := himpl.kept (hpg.next (.call holder pid c)).valid (claimed_taken hpg.valid hclaim).2
    (hrun.imp fun s e h => ⟨fun hp => by simp [leasePast_of_past hp] at h, h.2⟩)
  have hp : ¬ (((pg.call holder pid c).2.after es).taskCell holder.teamId key).Past
      ((pg.call holder pid c).2.after es).now := fun hp => by simp [leasePast_of_past hp] at hnow
  refine ⟨fun hteam c' => Bool.eq_false_iff.2 fun hc => ?_, fun raw lease => refused_of_kept hv hk hother pid' raw lease,
    fun e he => himpl.other hv hk hp he⟩
  have htake := (claimed_taken hv hc).1
  rw [hteam] at htake
  exact hk.not_takeable hp hother htake

end Pg
end

namespace Pg
section
open Sample
attribute [local instance] Platform.ascii

/-- The crew has one open task. -/
def oneTask : Pg := (Pg.init 0).after (crew ++ [.call ann 0 (.createTask ⟨"t1", "first", none, none, []⟩), .tick 5])

/-- Bob asks for the task that ann has claimed, and ann renews. -/
def contention : List Event :=
  [.call bob 0 (.claimNextTask none), .tick 50000000, .call ann 0 (.renewTaskLease "t1" (some 60)), .tick 50000000]

/-- Bob is refused once more. -/
theorem claim_exclusive_contention :
    ((oneTask.call ann 0 (.claimTask "t1" (some 60))).2.after contention).claimed bob 0 (.claimTask "t1" none) "t1" =
      false :=
  (@claim_exclusive Platform.ascii oneTask ((Reachable.init 0).after _) ann 0 (.claimTask "t1" (some 60)) "t1"
    (by decide) contention (by decide) (by decide) bob (by decide) 0).1 rfl _

end

end Pg
end CrewSync
