import CrewSync.Footprint.TaskThreads
import CrewSync.Lib.Journal

/-! The history of a task beside the task: every call that changes what a task is owes an event that says so, from the
    statement that changes it to the statement that inserts the event. -/

namespace CrewSync
open Arrival Threads
open Bus (Reads)

/-- What a task is to those who read its history: its status and, while it is claimed, its holder. -/
abbrev Standing := TaskStatus × Option Uuid

def Task.standing (t : Task) : Standing := (t.status, if t.status = .claimed then t.claimedBy else none)

/-- What an event makes of a task. -/
def TaskEvent.replay (before : Option Standing) (e : TaskEvent) : Option Standing :=
  match e.event with
  | "created" | "released" => some (.«open», none)
  | "claimed" => some (.claimed, e.agentId)
  | "completed" => some (.done, none)
  | _ => before

namespace Db

def standing (db : Db) (task : Uuid) : Option Standing := (db.tasks.find? (·.id == task)).map Task.standing

/-- The events of the task in the order of their ids. -/
def history (db : Db) (task : Uuid) : List TaskEvent :=
  Rows.orderBy (fun a b => a.id ≤ b.id) (db.taskEvents.filter (·.taskId == task))

def replayed (db : Db) (task : Uuid) : Option Standing := (db.history task).foldl TaskEvent.replay none

end Db

/-- The event that the call owes: the task that it has changed, and what it has made of it. -/
abbrev Owed := Option (Uuid × Standing)

/-- What a statement does to the tasks and their histories. -/
inductive HistoryStep : Owed → Stmt → Pg → Owed → Pg → Prop
  | still {l : Stmt} {pg pg' : Pg} (hl : ∀ task, l.declares task = false) (hstanding : pg'.db.standing = pg.db.standing)
      (hevents : pg'.db.taskEvents = pg.db.taskEvents) : HistoryStep none l pg none pg'
  | change {l : Stmt} {pg pg' : Pg} (task : Uuid) (v : Standing) (hl : ∀ task, l.declares task = false)
      (hstanding : pg'.db.standing = Function.update pg.db.standing task (some v))
      (hevents : pg'.db.taskEvents = pg.db.taskEvents) : HistoryStep none l pg (some (task, v)) pg'
  /-- A creation inserts a dependency before it records the task. -/
  | depend {task dep : Uuid} {v : Standing} {pg pg' : Pg} (hstanding : pg'.db.standing = pg.db.standing)
      (hevents : pg'.db.taskEvents = pg.db.taskEvents) :
      HistoryStep (some (task, v)) (.insertTaskDep task dep) pg (some (task, v)) pg'
  | record {v : Standing} {pg pg' : Pg} (e : TaskEvent) (hv : ∀ before, e.replay before = some v)
      (hnew : ∀ x ∈ pg.db.taskEvents, x.id < e.id) (hstanding : pg'.db.standing = pg.db.standing)
      (hevents : pg'.db.taskEvents = pg.db.taskEvents ++ [e]) :
      HistoryStep (some (e.taskId, v)) (.insert .taskEvents) pg none pg'

namespace Db
variable {db db' : Db} {p : Task → Bool} {f : Task → Task}

theorem standing_update (htasks : db'.tasks = Rows.update p f db.tasks) (hid : ∀ t, (f t).id = t.id) (task : Uuid) :
    db'.standing task = (db.tasks.find? (·.id == task)).map fun t => (if p t then f t else t).standing := by
  rw [standing, htasks, Rows.find?_update fun t => by rw [hid], Option.map_map]
  rfl

/-- An `UPDATE` that changes neither status nor holder. -/
theorem standing_same (htasks : db'.tasks = Rows.update p f db.tasks) (hid : ∀ t, (f t).id = t.id)
    (h : ∀ t ∈ db.tasks, p t = true → (f t).standing = t.standing) : db'.standing = db.standing := by
  funext task
  rw [standing_update htasks hid, standing]
  cases hfind : db.tasks.find? (·.id == task) with
  | none => rfl
  | some t =>
    simp only [Option.map_some]
    split
    · next hp => rw [h t (List.mem_of_find?_eq_some hfind) hp]
    · rfl

/-- An `UPDATE` of one row. -/
theorem standing_change (hk : Rows.Keyed (·.id) db.tasks) (htasks : db'.tasks = Rows.update p f db.tasks)
    (hid : ∀ t, (f t).id = t.id) {t : Task} (ht : t ∈ db.tasks) (hp : p t = true)
    (hone : ∀ u ∈ db.tasks, p u = true → u = t) :
    db'.standing = Function.update db.standing t.id (some (f t).standing) := by
  funext task
  rw [standing_update htasks hid]
  by_cases htask : task = t.id
  · subst htask
    have hfind : db.tasks.find? (·.id == t.id) = some t :=
      hk.find?_eq_some ht (by simp) fun u _ hu => by simpa using hu
    rw [Function.update_self, hfind, Option.map_some, if_pos hp]
  · rw [Function.update_of_ne htask, standing]
    cases hfind : db.tasks.find? (·.id == task) with
    | none => rfl
    | some u =>
      have hu : u.id = task := by simpa using List.find?_some hfind
      have hpu : ¬ p u = true := fun hpu => htask (by rw [← hu, hone u (List.mem_of_find?_eq_some hfind) hpu])
      rw [Option.map_some, Option.map_some, if_neg hpu]

theorem standing_insert {t : Task} (htasks : db'.tasks = db.tasks ++ [t]) (hnew : ∀ u ∈ db.tasks, u.id ≠ t.id) :
    db'.standing = Function.update db.standing t.id (some t.standing) := by
  funext task
  rw [standing, htasks, List.find?_append]
  by_cases htask : task = t.id
  · subst htask
    have hnone : db.tasks.find? (·.id == t.id) = none := List.find?_eq_none.2 fun u hu => by simpa using hnew u hu
    rw [Function.update_self, hnone]
    simp
  · have hnot : (t.id == task) = false := by simpa using Ne.symm htask
    rw [Function.update_of_ne htask, standing]
    simp [hnot]

/-- A new event decides what the history of its task says. -/
theorem replayed_record {e : TaskEvent} {v : Standing} (hv : ∀ before, e.replay before = some v)
    (hnew : ∀ x ∈ db.taskEvents, x.id < e.id) (hevents : db'.taskEvents = db.taskEvents ++ [e]) :
    db'.replayed = Function.update db.replayed e.taskId (some v) := by
  funext task
  simp only [replayed, history, hevents, List.filter_append]
  by_cases htask : task = e.taskId
  · subst htask
    have hlast : ∀ x ∈ db.taskEvents.filter (·.taskId == e.taskId), x.id ≤ e.id := fun x hx =>
      (hnew x (List.mem_filter.1 hx).1).le
    have hfilter : [e].filter (·.taskId == e.taskId) = [e] := by simp
    rw [Function.update_self, hfilter, Rows.orderBy_append hlast, List.foldl_append]
    exact hv _
  · have hfilter : [e].filter (·.taskId == task) = [] := by simpa using Ne.symm htask
    rw [Function.update_of_ne htask, hfilter, List.append_nil]
    rfl

theorem replayed_same (hevents : db'.taskEvents = db.taskEvents) : db'.replayed = db.replayed := by
  funext task
  simp only [replayed, history, hevents]

end Db

/-! ### The protocol -/

/-- The protocol of a task call, with the event that it owes. -/
def historyProtocol [Platform] (auth : AuthCtx) (c : Call) : Protocol Stmt Pg (TaskPhase × Owed) where
  sure g := (taskProtocol auth c).sure g.1
  ready _ _ := true
  step g l pg g' pg' := (taskProtocol auth c).step g.1 l pg g'.1 pg' ∧ HistoryStep g.2 l pg g'.2 pg'

/-- A call that fails owes nothing. -/
def Failed (g : TaskPhase × Owed) : Prop := g.1.Settled ∧ g.2 = none

/-- What a task call answers, and that it owes nothing then. -/
def Told (r : Reply) (g : TaskPhase × Owed) : Prop := TaskPhase.Answered r g.1 ∧ g.2 = none

namespace historyProtocol
variable [Platform] {auth : AuthCtx} {c : Call} {α : Type}

theorem query {pg : Pg} {g : TaskPhase} {l : Stmt} (hg : g.Settled) (hl : l.isSelect = true)
    (hs : (taskProtocol auth c).sure g pg) : (historyProtocol auth c).step (g, none) l pg (g, none) pg := by
  have hdeclares : ∀ (l : Stmt) (task : Uuid), l.isSelect = true → l.declares task = false := by
    intro l task hl
    cases l with
    | insertTaskDep => cases hl
    | _ => rfl
  exact ⟨⟨.still hg, .refl _ pg, fun _ h _ => h, hs.2.2⟩, .still (fun task => hdeclares l task hl) rfl rfl⟩

/-- What only reads leaves the phase as it is. -/
theorem reads {x : Bus α} (hx : Reads x) {g : TaskPhase} (hg : g.Settled) :
    Bus.Follows (historyProtocol auth c) (· = (g, none)) (fun _ => (· = (g, none))) x (g, none) :=
  .reads hx (fun _ _ => rfl) fun _ _ hl hs => query hg hl hs

/-- A check or a query first. -/
theorem reads_bind {β : Type} {x : Bus α} {f : α → Bus β} {Q : β → TaskPhase × Owed → Prop} (hx : Reads x)
    {g : TaskPhase} (hg : g.Settled) (hf : ∀ a, Bus.Follows (historyProtocol auth c) Failed Q (f a) (g, none)) :
    Bus.Follows (historyProtocol auth c) Failed Q (x >>= f) (g, none) := by
  refine ((reads hx hg).imp (fun _ h => ?_) fun _ _ h => h).bind fun a _ h => h ▸ hf a
  rw [h]
  exact ⟨hg, rfl⟩

theorem execute {l : Stmt} {s : Sql α} {g : TaskPhase × Owed} {Q : α → TaskPhase × Owed → Prop}
    (hok : ∀ pg, (taskProtocol auth c).sure g.1 pg → ∀ a seqs ws, s pg = .ok (a, seqs, ws) →
      ∃ g', (historyProtocol auth c).step g l pg g' { pg with db := pg.db.write ws, seqs } ∧ Q a g')
    (herror : ∀ pg, (taskProtocol auth c).sure g.1 pg → ∀ e, s pg = .error e →
      Failed g ∧ ∀ task, l.declares task = false) :
    Bus.Follows (historyProtocol auth c) Failed Q (CrewSync.execute l s) g := by
  refine .execute rfl fun pg hs => ?_
  cases h : s pg with
  | error e =>
    obtain ⟨hg, hl⟩ := herror pg hs e h
    have heff : s.effect pg = pg := by simp only [Sql.effect, h]
    have hans : s.answer pg = .error e := by simp only [Sql.answer, h]; rfl
    rw [heff, hans]
    obtain ⟨g, o⟩ := g
    obtain ⟨hg, rfl⟩ := hg
    exact ⟨(g, none), ⟨⟨.still hg, .refl _ pg, fun _ h _ => h, hs.2.2⟩, .still hl rfl rfl⟩, hg, rfl⟩
  | ok r =>
    obtain ⟨a, seqs, ws⟩ := r
    obtain ⟨g', hstep, hQ⟩ := hok pg hs a seqs ws h
    have heff : s.effect pg = { pg with db := pg.db.write ws, seqs } := by simp only [Sql.effect, h]
    have hans : s.answer pg = .ok a := by simp only [Sql.answer, h]; rfl
    rw [heff, hans]
    exact ⟨g', hstep, hQ⟩

end historyProtocol

/-! ### Calls -/

section
variable [Platform] {auth : AuthCtx} {c : Call}

theorem fetchTask_follows {key : String} {g : TaskPhase} (hg : g.Settled) :
    Bus.Follows (historyProtocol auth c) Failed (fun t g' => g' = (g, none) ∧ t.key = key) (fetchTask auth key)
      (g, none) := by
  refine Bus.Follows.bind (Q := fun r g' => g' = (g, none) ∧ ∀ t ∈ r, t.key = key) (.select rfl fun pg hs => ?_)
    fun r g' h => ?_
  · refine ⟨(g, none), historyProtocol.query hg rfl hs, rfl, fun t ht => ?_⟩
    obtain ⟨r, hr, rfl⟩ := Option.map_eq_some_iff.1 ht
    have := List.find?_some hr
    simp only [Bool.and_eq_true, beq_iff_eq] at this
    exact this.2
  · obtain ⟨rfl, hkey⟩ := h
    cases r with
    | none => exact .throw ⟨hg, rfl⟩
    | some t => exact .pure ⟨rfl, hkey t rfl⟩

/-- The last statement of a call. -/
theorem fetchTask_ends {key : String} {g : TaskPhase} (hg : g.Settled) :
    Bus.Follows (historyProtocol auth c) Failed (fun _ => Failed) (fetchTask auth key) (g, none) := by
  refine (fetchTask_follows hg).imp (fun _ h => h) fun _ g' h => ?_
  rw [h.1]
  exact ⟨hg, rfl⟩

/-- The event that a call owes is inserted. -/
theorem logEvent_follows {task : Uuid} {event : String} {detail : Option String} {v : Standing} {g : TaskPhase}
    (hg : g.Settled) (hin : ∀ db, g.Knows auth.teamId db → db.taskIn task auth.teamId)
    (hv : ∀ id now before, TaskEvent.replay before ⟨id, task, some auth.agentId, event, detail, now⟩ = some v) :
    Bus.Follows (historyProtocol auth c) Failed (fun _ => (· = (g, none))) (logEvent task auth.agentId event detail)
      (g, some (task, v)) := by
  refine historyProtocol.execute (fun pg hs _ seqs ws h => ?_) fun pg hs e h => ?_
  · have hstep := insertTaskEvent_step hs hg (hin _ hs.2.2) h
    refine ⟨(g, none), ⟨hstep, ?_⟩, rfl⟩
    simp only [insertTaskEvent] at h
    split at h
    · simp only [Except.ok.injEq, Prod.mk.injEq, true_and] at h
      obtain ⟨rfl, rfl⟩ := h
      refine .record _ (hv (pg.seqs.taskEvents + 1) pg.now) (fun x hx => ?_) rfl rfl
      have hle : x.id ≤ pg.seqs.taskEvents := hs.1.keys.taskEventsBelow x hx
      show x.id < pg.seqs.taskEvents + 1
      omega
    · cases h
  · -- The task and the agent are there.
    have hok : ∀ id now, pg.db.taskEventOk ⟨id, task, some auth.agentId, event, detail, now⟩ = true := fun id now => by
      obtain ⟨t, ht, hq⟩ := List.any_eq_true.1 (hin _ hs.2.2)
      obtain ⟨a, ha, hq'⟩ := List.any_eq_true.1 hs.2.1
      simp only [Bool.and_eq_true, beq_iff_eq] at hq hq'
      exact Bool.and_eq_true_iff.2 ⟨List.any_eq_true.2 ⟨t, ht, by simp [hq.1]⟩, List.any_eq_true.2 ⟨a, ha, by simp [hq'.1]⟩⟩
    simp only [insertTaskEvent, hok, if_true] at h
    cases h

/-- What a call does around its `UPDATE`: `p` and `f` are the rows and the change, as the statement finds the
    tables, and `mark` is what it makes of the row, if that is anything new. -/
theorem update_follows {α : Type} {s : Sql (Option (Uuid × String))} {rest : Option (Uuid × String) → Bus α}
    {Q : α → TaskPhase × Owed → Prop} (p : Pg → Task → Bool) (f : Pg → Task → Task) (mark : Option Standing)
    (hs : ∀ pg, s pg = updateTask (p pg) (f pg) pg)
    (hp : ∀ pg : Pg, pg.Valid → ∀ t ∈ pg.db.tasks, p pg t = true → t.teamId = auth.teamId ∧
      t.status.finished = false ∧ (c.claims = true → c.takes auth pg t = true))
    (hone : ∀ pg : Pg, pg.Valid → ∀ t ∈ pg.db.tasks, ∀ u ∈ pg.db.tasks, p pg t = true → p pg u = true → u = t)
    (hf : ∀ pg t, (f pg t).id = t.id ∧ Db.taskKey (f pg t) = Db.taskKey t ∧ (f pg t).createdBy = t.createdBy ∧
      ((f pg t).claimedBy = t.claimedBy ∨ (f pg t).claimedBy = none ∨ (f pg t).claimedBy = some auth.agentId))
    (hmark : ∀ pg t, p pg t = true → (f pg t).standing = mark.getD t.standing)
    (hnone : Bus.Follows (historyProtocol auth c) Failed Q (rest none) (.found [], none))
    (hsome : ∀ pg t, p pg t = true → Bus.Follows (historyProtocol auth c) Failed Q (rest (some (t.id, t.key)))
      (.updated t.id t.key, mark.map fun v => (t.id, v))) :
    Bus.Follows (historyProtocol auth c) Failed Q (CrewSync.execute (.update .tasks) s >>= rest) (.found [], none) := by
  have hdeclares : ∀ task, (Stmt.update .tasks).declares task = false := fun _ => rfl
  refine Bus.Follows.bind
    (Q := fun r g => (r = none ∧ g = (.found [], none)) ∨ ∃ pg t, p pg t = true ∧ r = some (t.id, t.key) ∧
      g = (.updated t.id t.key, mark.map fun v => (t.id, v)))
    (historyProtocol.execute (fun pg hsure r seqs ws h => ?_) fun _ _ _ _ => ⟨⟨trivial, rfl⟩, hdeclares⟩) fun r g h => ?_
  · rw [hs] at h
    have hstep := updateTask_step hsure (hp pg hsure.1) (hf pg) h
    obtain ⟨hanswer, htasks, -, hevents⟩ := updateTask_ok h
    have hid : ∀ t, (f pg t).id = t.id := fun t => (hf pg t).1
    cases r with
    | none =>
      have hnot : ∀ t ∈ pg.db.tasks, ¬ p pg t = true := fun t ht hpt => by
        have hmem := List.mem_filter.2 ⟨ht, hpt⟩
        rw [eq_comm, Option.map_eq_none_iff, List.head?_eq_none_iff] at hanswer
        rw [hanswer] at hmem
        cases hmem
      exact ⟨(.found [], none), ⟨hstep, .still hdeclares
        (Db.standing_same htasks hid fun t ht hpt => absurd hpt (hnot t ht)) hevents⟩, .inl ⟨rfl, rfl⟩⟩
    | some x =>
      obtain ⟨t, ht, hpt, rfl⟩ := updateTask_row h rfl
      refine ⟨(.updated t.id t.key, mark.map fun v => (t.id, v)), ⟨hstep, ?_⟩, .inr ⟨pg, t, hpt, rfl, rfl⟩⟩
      cases mark with
      | none => exact .still hdeclares (Db.standing_same htasks hid fun u _ hpu => hmark pg u hpu) hevents
      | some v =>
        refine .change t.id v hdeclares ?_ hevents
        rw [← show (f pg t).standing = v from hmark pg t hpt]
        exact Db.standing_change hsure.1.keys.tasks htasks hid ht hpt fun u hu hpu => hone pg hsure.1 t ht u hu hpt hpu
  · rcases h with ⟨rfl, rfl⟩ | ⟨pg, t, hpt, rfl, rfl⟩
    · exact hnone
    · exact hsome pg t hpt

omit [Platform] in
/-- A key is the key of one task of the team. -/
theorem one_of_key {pg : Pg} (hv : pg.Valid) {t u : Task} (ht : t ∈ pg.db.tasks) (hu : u ∈ pg.db.tasks) {key : String}
    (h : t.teamId = auth.teamId ∧ t.key = key) (h' : u.teamId = auth.teamId ∧ u.key = key) : u = t :=
  hv.keys.taskKeys.eq hu ht (by simp only [Db.taskKey, h.1, h.2, h'.1, h'.2])

theorem claimTask_follows (raw : String) (lease : Option Int) :
    Bus.Follows (historyProtocol auth (.claimTask raw lease)) Failed (fun r => Told (.claim r)) (claimTask auth raw lease)
      (.found [], none) := by
  refine Bus.Follows.bind (Q := fun key g => g = (.found [], none) ∧ normalizeKey raw = .ok key)
    (.check (fun key h => ⟨rfl, h⟩) ⟨trivial, rfl⟩) fun key g h => ?_
  obtain ⟨rfl, hraw⟩ := h
  refine update_follows (fun pg => claimable auth key pg) (fun pg => setClaimed auth (leaseOf lease) pg.now)
    (some (.claimed, some auth.agentId)) (fun _ => rfl) (fun pg _ t _ h => ?_) (fun pg hv t ht u hu h h' => ?_)
    (fun _ _ => ⟨rfl, rfl, rfl, .inr (.inr rfl)⟩) (fun _ _ _ => rfl) ?_ fun pg t h => ?_
  · obtain ⟨hteam, -, hfin, -⟩ := claimable_iff h
    exact ⟨hteam, hfin, fun _ => by rw [Call.takes, hraw]; exact h⟩
  · obtain ⟨hteam, hkey, -⟩ := claimable_iff h
    obtain ⟨hteam', hkey', -⟩ := claimable_iff h'
    exact one_of_key hv ht hu ⟨hteam, hkey⟩ ⟨hteam', hkey'⟩
  · refine Bus.Follows.bind (fetchTask_follows trivial) fun current g h => .pure ?_
    obtain ⟨rfl, -⟩ := h
    exact ⟨⟨trivial, fun h => by cases h⟩, rfl⟩
  · obtain ⟨-, hkey, -, -⟩ := claimable_iff h
    refine Bus.Follows.bind (logEvent_follows trivial (fun _ => updated_taskIn) fun _ _ _ => rfl) fun _ g hg => ?_
    subst hg
    refine Bus.Follows.bind (fetchTask_follows trivial) fun info g hinfo => ?_
    obtain ⟨rfl, hinfo⟩ := hinfo
    refine .pure ⟨⟨trivial, fun _ => ⟨t.id, t.key, rfl, fun i hi => ?_⟩⟩, rfl⟩
    cases hi
    exact hinfo.trans hkey.symm

theorem claimNextTask_follows (lease : Option Int) :
    Bus.Follows (historyProtocol auth (.claimNextTask lease)) Failed (fun r => Told (.claim r)) (claimNextTask auth lease)
      (.found [], none) := by
  have hpicked : ∀ pg : Pg, pg.Valid → ∀ t ∈ pg.db.tasks, (candidate auth.teamId pg).any (·.id == t.id) = true →
      candidate auth.teamId pg = some t := by
    intro pg hv t ht h
    obtain ⟨r, hr, hid⟩ := (Option.any_eq_true _ _).1 h
    have heq : r = t := hv.keys.tasks.eq (candidate_mem hr).1 ht (by simpa using hid)
    rw [hr, heq]
  refine update_follows (fun pg t => (candidate auth.teamId pg).any (·.id == t.id))
    (fun pg => setClaimed auth (leaseOf lease) pg.now) (some (.claimed, some auth.agentId)) (fun _ => rfl)
    (fun pg hv t ht h => ?_) (fun pg hv t ht u hu h h' => ?_) (fun _ _ => ⟨rfl, rfl, rfl, .inr (.inr rfl)⟩)
    (fun _ _ _ => rfl) (.pure ⟨⟨trivial, fun h => by cases h⟩, rfl⟩) fun pg t h => ?_
  · obtain ⟨-, hav⟩ := candidate_mem (hpicked pg hv t ht h)
    simp only [available, Bool.and_eq_true, Bool.or_eq_true, beq_iff_eq, Bool.not_eq_true'] at hav
    exact ⟨hav.1.1, finished_of_open (hav.1.2.imp_right And.left), fun _ => h⟩
  · have hsame := (hpicked pg hv u hu h').symm.trans (hpicked pg hv t ht h)
    exact Option.some.inj hsame
  · refine Bus.Follows.bind (logEvent_follows trivial (fun _ => updated_taskIn) fun _ _ _ => rfl) fun _ g hg => ?_
    subst hg
    refine Bus.Follows.bind (fetchTask_follows trivial) fun info g hinfo => ?_
    obtain ⟨rfl, hinfo⟩ := hinfo
    refine .pure ⟨⟨trivial, fun _ => ⟨t.id, t.key, rfl, fun i hi => ?_⟩⟩, rfl⟩
    cases hi
    exact hinfo

theorem renewLease_follows (hc : c.claims = false) (raw : String) (lease : Option Int) :
    Bus.Follows (historyProtocol auth c) Failed (fun _ => Failed) (renewLease auth raw lease) (.found [], none) := by
  refine historyProtocol.reads_bind .check trivial fun key => ?_
  refine update_follows (fun _ => ownClaim auth key) _ none (fun _ => rfl)
    (fun pg _ t _ h => ⟨(ownClaim_open h).1.1, (ownClaim_open h).2, fun h => by rw [hc] at h; cases h⟩)
    (fun pg hv t ht u hu h h' => one_of_key hv ht hu (ownClaim_open h).1 (ownClaim_open h').1)
    (fun _ _ => ⟨rfl, rfl, rfl, .inl rfl⟩) (fun _ _ _ => rfl) ?_ fun pg t h => ?_
  · exact historyProtocol.reads_bind noClaimHere_reads trivial fun _ => .throw ⟨trivial, rfl⟩
  · exact fetchTask_ends trivial

theorem releaseTask_follows (hc : c.claims = false) (raw : String) :
    Bus.Follows (historyProtocol auth c) Failed (fun _ => Failed) (releaseTask auth raw) (.found [], none) := by
  refine historyProtocol.reads_bind .check trivial fun key => ?_
  refine update_follows (fun _ => ownClaim auth key) _ (some (.«open», none)) (fun _ => rfl)
    (fun pg _ t _ h => ⟨(ownClaim_open h).1.1, (ownClaim_open h).2, fun h => by rw [hc] at h; cases h⟩)
    (fun pg hv t ht u hu h h' => one_of_key hv ht hu (ownClaim_open h).1 (ownClaim_open h').1)
    (fun _ _ => ⟨rfl, rfl, rfl, .inr (.inl rfl)⟩) (fun _ _ _ => rfl) ?_ fun pg t h => ?_
  · exact historyProtocol.reads_bind noClaimHere_reads trivial fun _ => .throw ⟨trivial, rfl⟩
  · refine Bus.Follows.bind (logEvent_follows trivial (fun _ => updated_taskIn) fun _ _ _ => rfl) fun _ g hg => ?_
    subst hg
    exact fetchTask_ends trivial

theorem completeTask_follows (hc : c.claims = false) (raw : String) (result : Option String) :
    Bus.Follows (historyProtocol auth c) Failed (fun _ => Failed) (completeTask auth raw result) (.found [], none) := by
  refine historyProtocol.reads_bind .check trivial fun key =>
    historyProtocol.reads_bind .check trivial fun result => ?_
  refine update_follows _ _ (some (.done, none)) (fun _ => rfl) (fun pg _ t _ h => ?_) (fun pg hv t ht u hu h h' => ?_)
    (fun _ _ => ⟨rfl, rfl, rfl, .inl rfl⟩) (fun _ _ _ => rfl) ?_ fun pg t h => ?_
  · simp only [Bool.and_eq_true, Bool.or_eq_true, beq_iff_eq] at h
    exact ⟨h.1.1, finished_of_open h.2, fun h => by rw [hc] at h; cases h⟩
  · simp only [Bool.and_eq_true, Bool.or_eq_true, beq_iff_eq] at h h'
    exact one_of_key hv ht hu h.1 h'.1
  · refine Bus.Follows.bind (fetchTask_follows trivial) fun _ g h => .throw ?_
    rw [h.1]
    exact ⟨trivial, rfl⟩
  · refine Bus.Follows.bind (logEvent_follows trivial (fun _ => updated_taskIn) fun _ _ _ => rfl) fun _ g hg => ?_
    subst hg
    exact fetchTask_ends trivial

/-- The lookups: every key is that of a task of the team. -/
theorem lookupDeps_follows (key : String) (raws : List String) (deps : List (String × Uuid)) :
    Bus.Follows (historyProtocol auth c) Failed
      (fun ids g => ∃ new, g = (.found (deps ++ new), none) ∧ ids = new.map (·.2) ∧
        raws.map normalizeKey = new.map fun x => .ok x.1) (lookupDeps auth key raws) (.found deps, none) := by
  induction raws generalizing deps with
  | nil => exact .pure ⟨[], by simp, rfl, rfl⟩
  | cons raw raws ih =>
    refine Bus.Follows.bind (Q := fun k g => g = (.found deps, none) ∧ normalizeKey raw = .ok k)
      (.check (fun k h => ⟨rfl, h⟩) ⟨trivial, rfl⟩) fun k g h => ?_
    obtain ⟨rfl, hk⟩ := h
    refine .ite (fun _ => .throw_bind ⟨trivial, rfl⟩) fun _ => ?_
    refine Bus.Follows.bind (Q := fun r g => g = (.found (deps ++ (r.map fun id => (k, id)).toList), none))
      (.select rfl fun pg hs => ?_) fun r g h => ?_
    · cases hr : pg.db.findTask auth.teamId k with
      | none =>
        refine ⟨(.found deps, none), historyProtocol.query trivial rfl hs, ?_⟩
        simp
      | some t =>
        have hmem := List.mem_of_find?_eq_some hr
        have hp := List.find?_some hr
        simp only [Bool.and_eq_true, beq_iff_eq] at hp
        refine ⟨(.found (deps ++ [(k, t.id)]), none),
          ⟨⟨.lookup (k, t.id), .refl _ pg, fun _ h _ => h, fun x hx => ?_⟩, .still (fun _ => rfl) rfl rfl⟩, rfl⟩
        rcases List.mem_append.1 hx with hx | hx
        · exact hs.2.2 x hx
        · obtain rfl := List.mem_singleton.1 hx
          exact ⟨t, hmem, rfl, hp.1, hp.2⟩
    · subst h
      cases r with
      | none => exact Bus.Follows.throw ⟨trivial, rfl⟩
      | some id =>
        refine (ih (deps ++ [(k, id)])).bind fun ids g h => ?_
        obtain ⟨new, rfl, rfl, hnew⟩ := h
        refine Bus.Follows.pure ⟨(k, id) :: new, by simp, rfl, ?_⟩
        rw [List.map_cons, List.map_cons, hk, hnew]

theorem insertDeps_follows (task : Uuid) (deps : List Uuid) (v : Standing) :
    Bus.Follows (historyProtocol auth c) Failed (fun _ => (· = (.owes task [], some (task, v)))) (insertDeps task deps)
      (.owes task deps, some (task, v)) := by
  induction deps with
  | nil => exact .pure rfl
  | cons dep deps ih =>
    refine Bus.Follows.bind (Q := fun _ => (· = (.owes task deps, some (task, v))))
      (historyProtocol.execute (fun pg hs _ _ _ h => ?_) fun pg hs _ h => ?_) fun _ g h => h ▸ ih
    · obtain ⟨hok, hstep⟩ := insertTaskDep_step hs
      rw [hok] at h
      cases h
      exact ⟨(.owes task deps, some (task, v)), ⟨hstep, .depend rfl rfl⟩, rfl⟩
    · rw [(insertTaskDep_step hs).1] at h
      cases h

theorem finishCreate_follows (key title : String) (id : Uuid) (deps : List Uuid) :
    Bus.Follows (historyProtocol auth c) Failed (fun _ => Failed) (finishCreate auth key title id deps)
      (.owes id deps, some (id, (.«open», none))) := by
  have hsettled : (TaskPhase.owes id []).Settled := rfl
  refine Bus.Follows.bind (insertDeps_follows id deps _) fun _ g h => ?_
  subst h
  refine Bus.Follows.bind (logEvent_follows hsettled (fun _ h => h.1) fun _ _ _ => rfl) fun _ g h => ?_
  subst h
  exact fetchTask_ends hsettled

theorem createTask_follows (input : CreateInput) :
    Bus.Follows (historyProtocol auth (.createTask input)) Failed (fun _ => Failed) (createTask auth input)
      (.found [], none) := by
  refine historyProtocol.reads_bind .check trivial fun key => historyProtocol.reads_bind .check trivial fun title => ?_
  refine .ite (fun _ => .throw_bind ⟨trivial, rfl⟩) fun _ =>
    historyProtocol.reads_bind .check trivial fun description => ?_
  refine historyProtocol.reads_bind .check trivial fun _ => historyProtocol.reads_bind .select trivial fun existing => ?_
  refine .ite (fun _ => .throw_bind ⟨trivial, rfl⟩) fun _ => .ite (fun _ => .throw_bind ⟨trivial, rfl⟩) fun _ => ?_
  refine Bus.Follows.bind (lookupDeps_follows key input.dependsOn []) fun ids g h => ?_
  obtain ⟨deps, rfl, rfl, hdeps⟩ := h
  refine Bus.Follows.bind (Q := fun id g => g = (.owes id (sortDedup (deps.map (·.2))), some (id, (.«open», none))))
    (historyProtocol.execute (fun pg hs id seqs ws h => ?_) fun _ _ _ _ => ⟨⟨trivial, rfl⟩, fun _ => rfl⟩)
    fun id g h => ?_
  · obtain ⟨t, rfl, hnew, htasks, -, hevents⟩ := insertTask_rows h
    exact ⟨_, ⟨insertTask_step hs hdeps h, .change id (.«open», none) (fun _ => rfl) (Db.standing_insert htasks hnew) hevents⟩, rfl⟩
  · subst h
    exact finishCreate_follows _ _ _ _

/-- Every call on tasks follows the protocol. -/
theorem Call.run_tells (pid : Nat) (h : c.onTasks = true) :
    Bus.Follows (historyProtocol auth c) Failed Told (c.run auth pid) (.found [], none) := by
  cases c with
  | createTask input => exact Bus.Follows.map (createTask_follows input) fun _ _ h => h
  | claimTask raw lease => exact Bus.Follows.map (claimTask_follows raw lease) fun _ _ h => h
  | claimNextTask lease => exact Bus.Follows.map (claimNextTask_follows lease) fun _ _ h => h
  | renewTaskLease raw lease => exact Bus.Follows.map (renewLease_follows rfl raw lease) fun _ _ h => h
  | releaseTask raw => exact Bus.Follows.map (releaseTask_follows rfl raw) fun _ _ h => h
  | completeTask raw result => exact Bus.Follows.map (completeTask_follows rfl raw result) fun _ _ h => h
  | _ => cases h

/-- The same without the events. -/
theorem historyProtocol.forget {p : Prog Stmt Pg (Except BusError Reply)} {g : TaskPhase × Owed}
    (h : (historyProtocol auth c).Follows (Bus.Ends Failed Told) p g) :
    (taskProtocol auth c).Follows (Bus.Ends TaskPhase.Settled TaskPhase.Answered) p g.1 := by
  refine h.project Prod.fst rfl (fun _ _ h => h) (fun _ _ _ _ _ h => h.1) fun r g h => ?_
  cases r with
  | ok a => exact h.1
  | error e => exact h.1

theorem Call.run_follows (pid : Nat) (h : c.onTasks = true) :
    Bus.Follows (taskProtocol auth c) TaskPhase.Settled TaskPhase.Answered (c.run auth pid) (.found []) :=
  ⟨historyProtocol.forget (Call.run_tells pid h).run⟩

end

end CrewSync
