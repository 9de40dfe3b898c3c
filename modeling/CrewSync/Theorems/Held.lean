import CrewSync.Dashboard
import CrewSync.Theorems.ClaimPaths
import CrewSync.Theorems.LockExclusion

/-! What is shown as held against what is held: the locks of `list_locks`, the digest and the dashboard, and the
    expired leases of tasks. -/

namespace CrewSync

/-! ### What is shown -/

namespace Pg
variable [Platform]

/-- `list_locks` answers with the lock. -/
def ListsLock (pg : Pg) (auth : AuthCtx) (pid : Nat) (name : String) : Prop :=
  ∃ ls, (pg.call auth pid .listLocks).1 = .ok (.locks ls) ∧ ∃ l ∈ ls, l.name = name

/-- `team_digest` answers with the lock. -/
def DigestsLock (pg : Pg) (auth : AuthCtx) (pid : Nat) (hours : Option Int) (allChannels : Bool) (name : String) : Prop :=
  ∃ r, (pg.call auth pid (.teamDigest hours allChannels)).1 = .ok (.digest r) ∧ ∃ l ∈ r.activeLocks, l.name = name

/-- The dashboard of the team has a row for the lock. -/
def PanelsLock (pg : Pg) (team : Uuid) (name : String) : Prop :=
  ∃ s, ((Dashboard.load team).exec pg).1 = .ok s ∧ ∃ l ∈ s.locks, l.name = name

/-- The call is refused the lock. -/
def Refuses (pg : Pg) (auth : AuthCtx) (pid : Nat) (c : Call) : Prop :=
  ∃ r, (pg.call auth pid c).1 = .ok (.lock r) ∧ r.acquired = false

/-- A call is answered with the state of the task: `get_task` with its key, or a list of tasks. -/
def Reports (pg : Pg) (auth : AuthCtx) (pid : Nat) (key : String) (info : TaskInfo) : Prop :=
  (∃ r, (pg.call auth pid (.getTask key)).1 = .ok (.taskDetail r) ∧ r.task = info) ∨
    ∃ status mineOnly limit r, (pg.call auth pid (.listTasks status mineOnly limit)).1 = .ok (.tasks r) ∧
      info ∈ r.tasks ∧ info.key = key

end Pg

/-! ### Locks -/

section
variable {pg : Pg} {team : Uuid} {name : String}

/-- A list of the active locks has the lock just when it has not expired. -/
theorem shown_iff (hv : pg.Valid) {β : Type} {show? : Lock → Option β} {nameOf : β → String}
    (hshow : ∀ l ∈ pg.db.locks, ∃ b, show? l = some b ∧ nameOf b = l.name) :
    (∃ b ∈ (pg.db.activeLocks team pg.now).filterMap show?, nameOf b = name) ↔
      ∃ l, pg.db.findLock team name = some l ∧ pg.now < l.expiresAt := by
  simp only [List.mem_filterMap, Db.activeLocks, Rows.mem_orderBy, List.mem_filter, Bool.and_eq_true, beq_iff_eq,
    decide_eq_true_eq]
  constructor
  · rintro ⟨b, ⟨l, ⟨hl, hteam, hlive⟩, hb⟩, hname⟩
    obtain ⟨b', hb', hname'⟩ := hshow l hl
    obtain rfl := Option.some.inj (hb.symm.trans hb')
    exact ⟨l, Db.findLock_of_mem hv.keys hl (by simp [hteam, ← hname', hname]), hlive⟩
  · rintro ⟨l, hl, hlive⟩
    obtain ⟨hmem, hteam, hname⟩ := Db.findLock_some hl
    obtain ⟨b, hb, hname'⟩ := hshow l hmem
    exact ⟨b, ⟨l, ⟨hmem, hteam, hlive⟩, hb⟩, hname'.trans hname⟩

theorem exists_lockInfo (hv : pg.Valid) {l : Lock} (hl : l ∈ pg.db.locks) :
    ∃ info, pg.db.lockInfo? l = some info ∧ info.name = l.name := by
  obtain ⟨holder, hholder⟩ := Db.agentName_of_agentIn (Db.lockOk_iff.1 (hv.refs.locks l hl)).2
  exact ⟨_, by rw [Db.lockInfo?, hholder, Option.map_some], rfl⟩

variable [Platform] {auth : AuthCtx}

theorem listsLock_iff (hv : pg.Valid) (ha : auth.authentic pg.db = true) (pid : Nat) :
    pg.ListsLock auth pid name ↔ ∃ l, pg.db.findLock auth.teamId name = some l ∧ pg.now < l.expiresAt := by
  rw [← shown_iff hv fun l hl => exists_lockInfo hv hl, Pg.ListsLock, Pg.call, if_pos ha, Call.run, Bus.exec_map]
  simp [listLocks, Except.map]

omit [Platform] in
theorem load_exec {team : Uuid} (hteam : pg.db.hasTeam team = true) :
    ∃ s, (Dashboard.load team).exec pg = (.ok s, pg) ∧
      s.locks = (pg.db.activeLocks team pg.now).filterMap fun l =>
        (pg.db.agentName l.holderAgentId).map fun holder =>
          { name := l.name, holder, purpose := l.purpose, expiresAt := l.expiresAt } := by
  obtain ⟨t, ht⟩ := Option.isSome_iff_exists.1 (List.find?_isSome.2 (List.any_eq_true.1 hteam))
  have hslug : (Dashboard.loadTeam team).exec pg = (.ok t.slug, pg) := by
    unfold Dashboard.loadTeam
    rw [Bus.exec_bind, Bus.exec_select]
    simp only [Db.findTeam, ht, Option.map_some]
    rfl
  unfold Dashboard.load
  rw [Bus.exec_bind_ok hslug]
  exact ⟨_, rfl, rfl⟩

theorem digestsLock_iff (hv : pg.Valid) (ha : auth.authentic pg.db = true) (pid : Nat) (hours : Option Int)
    (allChannels : Bool) :
    pg.DigestsLock auth pid hours allChannels name ↔
      ∃ l, pg.db.findLock auth.teamId name = some l ∧ pg.now < l.expiresAt := by
  obtain ⟨-, r, -, hr, -, -, hlocks⟩ := teamDigest_exec auth (hours.getD defaultDigestHours) allChannels pg
  rw [← shown_iff hv fun l hl => exists_lockInfo hv hl, ← hlocks, Pg.DigestsLock, Pg.call, if_pos ha, Call.run,
    Bus.exec_map, hr]
  constructor
  · rintro ⟨r', hr', h⟩
    obtain rfl := Reply.digest.inj (Except.ok.inj hr')
    exact h
  · exact fun h => ⟨r, rfl, h⟩

omit [Platform] in
theorem panelsLock_iff (hv : pg.Valid) (ha : auth.authentic pg.db = true) :
    pg.PanelsLock auth.teamId name ↔ ∃ l, pg.db.findLock auth.teamId name = some l ∧ pg.now < l.expiresAt := by
  obtain ⟨s, hs, hlocks⟩ := load_exec ((AuthCtx.authentic.caller ha).hasTeam hv)
  have hshow : ∀ l ∈ pg.db.locks, ∃ row, ((pg.db.agentName l.holderAgentId).map fun holder =>
      ({ name := l.name, holder, purpose := l.purpose, expiresAt := l.expiresAt } : Dashboard.LockRow)) = some row ∧
        row.name = l.name := by
    intro l hl
    obtain ⟨holder, hholder⟩ := Db.agentName_of_agentIn (Db.lockOk_iff.1 (hv.refs.locks l hl)).2
    exact ⟨_, by rw [hholder, Option.map_some], rfl⟩
  rw [← shown_iff hv hshow, ← hlocks, Pg.PanelsLock, hs]
  constructor
  · rintro ⟨s', hs', h⟩
    obtain rfl := Except.ok.inj hs'
    exact h
  · exact fun h => ⟨s, rfl, h⟩

/-- Another than the holder is refused the lock up to its expiry, and at that very instant. -/
theorem refuses_iff (ha : auth.authentic pg.db = true) (pid : Nat) {raw : String} (hraw : normalizeName raw = .ok name)
    (ttl : Option Int) (purpose : Option String)
    (hother : ∀ l ∈ pg.db.findLock auth.teamId name, lockHeldBy auth.agentId auth.session l = false) :
    pg.Refuses auth pid (.acquireLock raw ttl purpose) ↔
      ∃ l, pg.db.findLock auth.teamId name = some l ∧ pg.now ≤ l.expiresAt := by
  obtain ⟨r, hr, htake, -⟩ := Pg.acquire_answer ha pid hraw ttl purpose
  have hrefuses : pg.Refuses auth pid (.acquireLock raw ttl purpose) ↔ r.acquired = false := by
    rw [Pg.Refuses, hr]
    constructor
    · rintro ⟨r', hr', h⟩
      obtain rfl := Reply.lock.inj (Except.ok.inj hr')
      exact h
    · exact fun h => ⟨r, rfl, h⟩
  rw [hrefuses, ← Bool.not_eq_true, htake]
  cases hl : pg.db.findLock auth.teamId name with
  | none => simp [Pg.lockCell, hl, Lease.Cell.Takeable]
  | some l =>
    rw [lockCell_takeable hl, hother l hl]
    simp

/-- At every instant but the expiry of the lock, it is shown just when nobody else could take it. -/
theorem shown_refused_iff (hv : pg.Valid) {viewer other : AuthCtx} (hviewer : viewer.authentic pg.db = true)
    (hauth : other.authentic pg.db = true) (hteam : other.teamId = viewer.teamId) (pid pid' : Nat) (hours : Option Int)
    (allChannels : Bool) {raw : String} (hraw : normalizeName raw = .ok name) (ttl : Option Int) (purpose : Option String)
    (hother : ∀ l ∈ pg.db.findLock other.teamId name, lockHeldBy other.agentId other.session l = false) :
    ((pg.ListsLock viewer pid name ↔ pg.Refuses other pid' (.acquireLock raw ttl purpose)) ∧
      (pg.DigestsLock viewer pid hours allChannels name ↔ pg.Refuses other pid' (.acquireLock raw ttl purpose)) ∧
      (pg.PanelsLock viewer.teamId name ↔ pg.Refuses other pid' (.acquireLock raw ttl purpose))) ↔
    ∀ l, pg.db.findLock viewer.teamId name = some l → l.expiresAt ≠ pg.now := by
  rw [listsLock_iff hv hviewer pid, digestsLock_iff hv hviewer pid hours allChannels, panelsLock_iff hv hviewer,
    refuses_iff hauth pid' hraw ttl purpose hother, hteam, and_self, and_self]
  cases pg.db.findLock viewer.teamId name with
  | none => simp
  | some l =>
    simp only [Option.some.injEq, exists_eq_left', forall_eq']
    constructor
    · intro h heq
      exact absurd (h.2 heq.ge) (heq ▸ lt_irrefl _)
    · intro hne
      exact ⟨le_of_lt, fun hle => lt_of_le_of_ne hle hne.symm⟩

end

/-! ### Tasks -/

section
variable [Platform] {pg : Pg} {viewer other : AuthCtx} {t : Task} {key : String}

omit [Platform] in
/-- `get_task` answers with the row that has the key as it was given, or fails. -/
theorem getTask_exec (auth : AuthCtx) (key : String) (pg : Pg) :
    ∃ history, (getTask auth key).exec pg = (((pg.db.findTask auth.teamId key).map (pg.db.taskInfo pg.now)).elim
      (.error (.notFound s!"task '{key}'")) fun task => .ok { task, history }, pg) := by
  unfold getTask
  rw [Bus.exec_bind, fetchTask_exec]
  cases pg.db.findTask auth.teamId key with
  | none => exact ⟨[], rfl⟩
  | some t => exact ⟨_, rfl⟩

theorem listTasks_infos {auth : AuthCtx} {status : Option String} {mineOnly : Bool} {limit : Int} {r : TaskList}
    (h : ((listTasks auth status mineOnly limit).exec pg).1 = .ok r) {info : TaskInfo} (hinfo : info ∈ r.tasks) :
    ∃ t ∈ pg.db.tasks, t.teamId = auth.teamId ∧ info = pg.db.taskInfo pg.now t := by
  unfold listTasks at h
  dsimp only at h
  split at h
  · cases h
  · simp only [Bus.exec_bind, Bus.exec_select, Bus.exec_pure] at h
    obtain rfl := Except.ok.inj h
    obtain ⟨t, ht, rfl⟩ := List.mem_map.1 hinfo
    obtain ⟨hmem, hq⟩ := List.mem_filter.1 (Rows.mem_orderBy.1 (List.mem_of_mem_take ht))
    simp only [Bool.and_eq_true, beq_iff_eq] at hq
    exact ⟨t, hmem, hq.1.1, rfl⟩

/-- The state of a task in an answer is that of its row. -/
theorem reports_taskInfo (hv : pg.Valid) (hviewer : viewer.authentic pg.db = true) {pid : Nat}
    (hfind : pg.db.findTask viewer.teamId key = some t) {info : TaskInfo} (h : pg.Reports viewer pid key info) :
    info = pg.db.taskInfo pg.now t := by
  rcases h with ⟨r, hr, rfl⟩ | ⟨status, mineOnly, limit, r, hr, hmem, hkey⟩
  · obtain ⟨history, hexec⟩ := getTask_exec viewer key pg
    rw [Pg.call, if_pos hviewer, Call.run, Bus.exec_map, hexec, hfind] at hr
    obtain rfl := Reply.taskDetail.inj (Except.ok.inj hr)
    rfl
  · rw [Pg.call, if_pos hviewer, Call.run, Bus.exec_map] at hr
    cases hlist : ((listTasks viewer status mineOnly limit).exec pg).1 with
    | error e =>
      rw [hlist] at hr
      cases hr
    | ok r' =>
      rw [hlist] at hr
      obtain rfl := Reply.tasks.inj (Except.ok.inj hr)
      obtain ⟨t', ht', hteam, rfl⟩ := listTasks_infos hlist hmem
      have hfind' := Db.findTask_of_mem hv.keys ht'
      rw [hteam, show t'.key = key from hkey] at hfind'
      rw [Option.some.inj (hfind'.symm.trans hfind)]

/-- The lease of a claimed task with nothing to wait for is reported as expired just when another can claim it. -/
theorem lease_reported_iff (hpg : pg.Reachable) (hviewer : viewer.authentic pg.db = true)
    (hauth : other.authentic pg.db = true) (hteam : other.teamId = viewer.teamId) (pid pid' : Nat) {raw : String}
    (hraw : normalizeKey raw = .ok key) (lease : Option Int) (hfind : pg.db.findTask viewer.teamId key = some t)
    (hclaimed : t.status = .claimed) (hready : pg.db.blocked t.id = false)
    (hother : heldBy other.agentId other.session t = false) :
    (∃ info, pg.Reports viewer pid key info) ∧ ∀ info, pg.Reports viewer pid key info →
      (info.leaseExpired = true ↔ ∃ r, pg.Grants other pid' (.claimTask raw lease) r) := by
  constructor
  · obtain ⟨history, hexec⟩ := getTask_exec viewer key pg
    refine ⟨pg.db.taskInfo pg.now t, .inl ⟨{ task := pg.db.taskInfo pg.now t, history }, ?_, rfl⟩⟩
    rw [Pg.call, if_pos hviewer, Call.run, Bus.exec_map, hexec, hfind]
    rfl
  · intro info hinfo
    rw [reports_taskInfo hpg.valid hviewer hfind hinfo, claim_agrees hpg hauth pid' raw lease]
    have hexpired : (pg.db.taskInfo pg.now t).leaseExpired = true ↔ ∃ e, t.leaseExpiresAt = some e ∧ e < pg.now := by
      simp only [Db.taskInfo, hclaimed, beq_self_eq_true, Bool.true_and, Option.any_eq_true, decide_eq_true_eq]
    have hholds : ¬ pg.Holds other t := fun h => by
      simp [heldBy, h.agent, h.session] at hother
    rw [hexpired]
    constructor
    · rintro ⟨e, he, hpast⟩
      exact ⟨key, hraw, t, hteam ▸ hfind, .inl ⟨.inr ⟨hclaimed, e, he, hpast⟩, blocked_iff.1 hready⟩⟩
    · rintro ⟨key', hkey', t', hfind', hcan⟩
      obtain rfl := Except.ok.inj (hraw.symm.trans hkey')
      obtain rfl := Option.some.inj (hfind.symm.trans (hteam ▸ hfind'))
      rcases (hcan.resolve_right hholds).free with hopen | ⟨-, hpast⟩
      · exact absurd (hopen.symm.trans hclaimed) (by simp)
      · exact hpast

/-- What is shown as held is held, and nothing else: of tasks always, and of a lock at every instant but its expiry. -/
theorem shown_held_iff (hpg : pg.Reachable) (hviewer : viewer.authentic pg.db = true)
    (hauth : other.authentic pg.db = true) (hteam : other.teamId = viewer.teamId) (pid pid' : Nat) (hours : Option Int)
    (allChannels : Bool) {raw name : String} (hraw : normalizeName raw = .ok name) (ttl : Option Int)
    (purpose : Option String)
    (hother : ∀ l ∈ pg.db.findLock other.teamId name, lockHeldBy other.agentId other.session l = false) :
    (((pg.ListsLock viewer pid name ↔ pg.Refuses other pid' (.acquireLock raw ttl purpose)) ∧
        (pg.DigestsLock viewer pid hours allChannels name ↔ pg.Refuses other pid' (.acquireLock raw ttl purpose)) ∧
        (pg.PanelsLock viewer.teamId name ↔ pg.Refuses other pid' (.acquireLock raw ttl purpose))) ∧
      ∀ rawKey key lease t, normalizeKey rawKey = .ok key → pg.db.findTask viewer.teamId key = some t →
        t.status = .claimed → pg.db.blocked t.id = false → heldBy other.agentId other.session t = false →
        (∃ info, pg.Reports viewer pid key info) ∧ ∀ info, pg.Reports viewer pid key info →
          (info.leaseExpired = true ↔ ∃ r, pg.Grants other pid' (.claimTask rawKey lease) r)) ↔
    ∀ l, pg.db.findLock viewer.teamId name = some l → l.expiresAt ≠ pg.now := by
  rw [← shown_refused_iff hpg.valid hviewer hauth hteam pid pid' hours allChannels hraw ttl purpose hother,
    and_iff_left_iff_imp]
  intro _ rawKey key lease t hkey hfind hclaimed hready hheld
  exact lease_reported_iff hpg hviewer hauth hteam pid pid' hkey lease hfind hclaimed hready hheld

end

namespace Sample
attribute [local instance] Platform.ascii

/-- Ann has the lock for five seconds, all but `d` microseconds of which are over. -/
def expiring (d : Nat) : Pg :=
  (Pg.init 0).after (crew ++ [.call ann 0 (.acquireLock "deploy" (some 5) none), .tick (5000000 - d)])

theorem expiring_reachable (d : Nat) : (expiring d).Reachable := (Pg.Reachable.init 0).after _

/-- Up to the last microsecond bob sees the lock, and cannot take it. -/
theorem expiring_shown : (expiring 1).ListsLock bob 0 "deploy" ↔ (expiring 1).Refuses bob 0 (.acquireLock "deploy" none none) :=
  ((@shown_held_iff Platform.ascii (expiring 1) bob bob (expiring_reachable 1) (by decide) (by decide) rfl 0 0 none false
    "deploy" "deploy" (by decide) none none (by decide)).2 (by decide)).1.1

/-- At its expiry nobody sees the lock, and bob cannot take it. -/
theorem expiring_hidden : ¬ ∀ pg : Pg, pg.Reachable → ∀ (viewer other : AuthCtx), viewer.authentic pg.db = true →
    other.authentic pg.db = true → other.teamId = viewer.teamId → ∀ raw name, normalizeName raw = .ok name →
    (∀ l ∈ pg.db.findLock other.teamId name, lockHeldBy other.agentId other.session l = false) →
    ∀ (pid pid' : Nat) (ttl : Option Int) (purpose : Option String),
      pg.ListsLock viewer pid name ↔ pg.Refuses other pid' (.acquireLock raw ttl purpose) := by
  intro h
  have hiff := h (expiring 0) (expiring_reachable 0) bob bob (by decide) (by decide) rfl "deploy" "deploy" (by decide)
    (by decide) 0 0 none none
  have hraw : normalizeName "deploy" = .ok "deploy" := by decide
  rw [listsLock_iff (expiring_reachable 0).valid (by decide) 0, refuses_iff (by decide) 0 hraw none none (by decide)] at hiff
  have hnow : ((expiring 0).db.findLock bob.teamId "deploy").map (·.expiresAt) = some (expiring 0).now := by decide
  obtain ⟨l, hl, hexpires⟩ := Option.map_eq_some_iff.1 hnow
  obtain ⟨l', hl', hlive⟩ := hiff.2 ⟨l, hl, hexpires.ge⟩
  obtain rfl := Option.some.inj (hl.symm.trans hl')
  exact absurd hlive (hexpires ▸ lt_irrefl _)

end Sample
end CrewSync
