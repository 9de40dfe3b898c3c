import CrewSync.Theorems.Held
import CrewSync.Theorems.Meets
import CrewSync.Theorems.TaskRows
import Mathlib.Data.List.Dedup

/-! A task key at the calls that take one: each of them trims it before it looks for the task, but for `get_task`,
    which looks for the key as it is given. -/

namespace CrewSync
section
variable [Platform]

/-! ### The keys of the rows -/

section
variable {pg : Pg} {team : Uuid} {key : String} {t : Task}

theorem Pg.Reachable.normalKeys (h : pg.Reachable) : ∀ t ∈ pg.db.tasks, normalizeKey t.key = .ok t.key := by
  induction h with
  | init now => exact fun t ht => by cases ht
  | next h e ih =>
    intro t ht
    rcases Pg.next_tasks h.valid e with htasks | ⟨hkey, -, -, htasks⟩ | ⟨-, -, hchange, htasks⟩
    · exact ih t (htasks ▸ ht)
    · rw [htasks] at ht
      rcases List.mem_append.1 ht with ht | ht
      · exact ih t ht
      · rw [List.mem_singleton.1 ht]
        exact hkey
    · rw [htasks] at ht
      obtain ⟨s, hs, rfl⟩ := Rows.mem_update.1 ht
      have hkeep := ih s hs
      split
      · rw [show (_ : Task).key = s.key from congrArg Prod.snd (hchange.key s).2.1]
        exact hkeep
      · exact hkeep

theorem Pg.Reachable.trimmed (h : pg.Reachable) : ∀ t ∈ pg.db.tasks, trim t.key = t.key :=
  fun t ht => normalizeKey_ok (h.normalKeys t ht)

/-- A task keeps its key and its identity. -/
theorem Pg.after_findTask (hv : pg.Valid) (hfind : pg.db.findTask team key = some t) (es : List Event) :
    ∃ t', (pg.after es).db.findTask team key = some t' ∧ t'.id = t.id := by
  refine (Runs.invariant (I := fun pg : Pg => pg.Valid ∧ ∃ t', pg.db.findTask team key = some t' ∧ t'.id = t.id)
    (fun pg e h => ⟨h.1.next e, ?_⟩) ⟨hv, t, hfind, rfl⟩ es).2
  obtain ⟨hv, t', hfind, hid⟩ := h
  rcases Pg.next_tasks hv e with htasks | ⟨-, -, -, htasks⟩ | ⟨-, -, hchange, htasks⟩
  · exact ⟨t', by rw [Db.findTask, htasks]; exact hfind, hid⟩
  · refine ⟨t', ?_, hid⟩
    rw [Db.findTask] at hfind
    rw [Db.findTask, htasks, List.find?_append, hfind]
    rfl
  · rw [Db.findTask_update team key htasks fun t => (hchange.key t).2.1, hfind, Option.map_some]
    refine ⟨_, rfl, ?_⟩
    split
    · rw [(hchange.key t').1, hid]
    · exact hid

end

/-! ### Calls on a task that is there -/

/-- The team has a task with the key. -/
def HasTask (team : Uuid) (key : String) (pg : Pg) : Prop := ∃ t, pg.db.findTask team key = some t

/-- The error says that there is no such task; the second text is what `no_claim_here` says of a missing task. -/
def BusError.misses (key : String) : BusError → Prop
  | .notFound _ => True
  | .conflict msg => msg = s!"you do not hold an active claim on '{key}'"
  | _ => False

section
variable {auth : AuthCtx} {key : String} {E : BusError → Prop}

omit [Platform] in
theorem fetchTask_meets {P : Pg → Prop} (hP : ∀ pg, P pg → HasTask auth.teamId key pg) :
    Bus.Meets P (fetchTask auth key) (fun info pg => info.key = key ∧ P pg) E := by
  refine .bind (Q := fun row pg => ∃ info, row = some info ∧ info.key = key ∧ P pg) (.select fun pg h => ?_) fun row => ?_
  · obtain ⟨t, ht⟩ := hP pg h
    exact ⟨_, by rw [ht, Option.map_some], (Db.findTask_some ht).2.2, h⟩
  · cases row with
    | none => exact .unreached fun _ ⟨_, h, _⟩ => by cases h
    | some info =>
      refine .pure fun pg h => ?_
      obtain ⟨_, hinfo, hkey, hP⟩ := h
      exact ⟨Option.some.inj hinfo ▸ hkey, hP⟩

omit [Platform] in
theorem HasTask.congr {team : Uuid} {pg pg' : Pg} (htasks : pg'.db.tasks = pg.db.tasks) (h : HasTask team key pg) :
    HasTask team key pg' := by
  obtain ⟨t, ht⟩ := h
  exact ⟨t, by rw [Db.findTask, htasks]; exact ht⟩

omit [Platform] in
theorem logEvent_meets {P : Pg → Prop} (hE : E .db) (hP : ∀ pg pg' : Pg, pg'.db.tasks = pg.db.tasks →
    pg'.db.taskDeps = pg.db.taskDeps → P pg → P pg') (task agent : Uuid) (event : String) (detail : Option String) :
    Bus.Meets P (logEvent task agent event detail) (fun _ => P) E := by
  refine .execute (fun pg _ h _ => ?_) fun pg e _ he => ?_
  · simp only [Sql.effect, insertTaskEvent]
    split
    · next hs =>
      split at hs
      · cases hs
        exact hP pg _ rfl rfl h
      · cases hs
    · exact h
  · simp only [Sql.answer, insertTaskEvent] at he
    split at he
    · cases he
    · cases he
      exact hE

/-- An `UPDATE` that leaves the keys alone. -/
theorem update_meets {team : Uuid} (hE : E .db) (l : Stmt) {s : Sql (Option (Uuid × String))} {p : Pg → Task → Bool}
    {f : Pg → Task → Task} (hs : ∀ pg, s pg = updateTask (p pg) (f pg) pg)
    (hf : ∀ pg t, Db.taskKey (f pg t) = Db.taskKey t) :
    Bus.Meets (HasTask team key) (execute l s) (fun _ => HasTask team key) E := by
  have heffect : ∀ pg, s.effect pg = (updateTask (p pg) (f pg)).effect pg := fun pg => by rw [Sql.effect, hs]; rfl
  have hanswer : ∀ pg, s.answer pg = (updateTask (p pg) (f pg)).answer pg := fun pg => by rw [Sql.answer, hs]; rfl
  refine .execute (fun pg _ h _ => ?_) fun pg e _ he => ?_
  · obtain ⟨t, ht⟩ := h
    rw [heffect]
    rcases updateTask_exec (p pg) (f pg) pg with ⟨-, h⟩ | ⟨-, h⟩
    · exact ⟨t, by rw [h]; exact ht⟩
    · exact ⟨_, by rw [Db.findTask_update team key h.tasks (hf pg), ht]; rfl⟩
  · rw [hanswer] at he
    rcases updateTask_exec (p pg) (f pg) pg with ⟨h, -⟩ | ⟨h, -⟩
    · rw [h] at he
      exact Except.error.inj he ▸ hE
    · rw [h] at he
      cases he

end

section
variable {auth : AuthCtx} {raw key : String}

theorem claimTask_meets (hkey : normalizeKey raw = .ok key) (lease : Option Int) :
    Bus.Meets (HasTask auth.teamId key) (claimTask auth raw lease)
      (fun r _ => ∃ info, r.task = some info ∧ info.key = key) (¬ ·.misses key) := by
  unfold claimTask
  rw [hkey, check, pure_bind]
  refine .bind (update_meets id _ (fun _ => rfl) fun _ _ => rfl) fun updated => ?_
  cases updated with
  | some row =>
    refine .bind (logEvent_meets id (fun _ _ h _ => HasTask.congr h) _ _ _ _) fun _ => .bind (fetchTask_meets fun _ => id) fun info => ?_
    exact .pure fun _ h => ⟨info, rfl, h.1⟩
  | none => exact .bind (fetchTask_meets fun _ => id) fun info => .pure fun _ h => ⟨info, rfl, h.1⟩

omit [Platform] in
/-- The refusal of `renew_lease` and `release_task` names the state of the task. -/
theorem noClaimHere_meets {E : BusError → Prop} :
    Bus.Meets (HasTask auth.teamId key) (noClaimHere auth key) (fun e _ => ¬ e.misses key) E := by
  refine (fetchTask_meets fun _ => id).attempt.bind fun r => ?_
  cases r with
  | error e => exact .unreached fun _ ⟨_, h, _⟩ => by cases h
  | ok current =>
    refine .ite (fun _ => .pure fun _ _ h => ?_) fun _ => .pure fun _ _ h => ?_
    · have := congrArg (fun s : String => s.toList.take 17) h
      simp [toString, String.toList_append] at this
    · have := congrArg String.length h
      simp only [toString, String.length_append] at this
      have hmore : "' (it is ".length = 9 := by decide
      have hquote : "'".length = 1 := by decide
      omega

theorem renewLease_meets (hkey : normalizeKey raw = .ok key) (lease : Option Int) :
    Bus.Meets (HasTask auth.teamId key) (renewLease auth raw lease) (fun info pg => info.key = key ∧ HasTask auth.teamId key pg) (¬ ·.misses key) := by
  unfold renewLease
  rw [hkey, check, pure_bind]
  refine .bind (update_meets id _ (fun _ => rfl) fun _ _ => rfl) fun updated => ?_
  cases updated with
  | some row => exact fetchTask_meets fun _ => id
  | none => exact .bind noClaimHere_meets fun e => .throw fun _ h => h

theorem releaseTask_meets (hkey : normalizeKey raw = .ok key) :
    Bus.Meets (HasTask auth.teamId key) (releaseTask auth raw) (fun info pg => info.key = key ∧ HasTask auth.teamId key pg) (¬ ·.misses key) := by
  unfold releaseTask
  rw [hkey, check, pure_bind]
  refine .bind (update_meets id _ (fun _ => rfl) fun _ _ => rfl) fun updated => ?_
  cases updated with
  | some row => exact .bind (logEvent_meets id (fun _ _ h _ => HasTask.congr h) _ _ _ _) fun _ => fetchTask_meets fun _ => id
  | none => exact .bind noClaimHere_meets fun e => .throw fun _ h => h

theorem completeTask_meets (hkey : normalizeKey raw = .ok key) (result : Option String) :
    Bus.Meets (HasTask auth.teamId key) (completeTask auth raw result) (fun info pg => info.key = key ∧ HasTask auth.teamId key pg)
      (¬ ·.misses key) := by
  unfold completeTask
  rw [hkey, check, pure_bind]
  refine .bind (Q := fun _ => HasTask auth.teamId key) (.check (fun _ _ h _ => h) fun e he => ?_) fun result => ?_
  · obtain ⟨msg, rfl⟩ := checkTextOpt_error he
    exact id
  refine .bind (update_meets id _ (fun _ => rfl) fun _ _ => rfl) fun updated => ?_
  cases updated with
  | some row => exact .bind (logEvent_meets id (fun _ _ h _ => HasTask.congr h) _ _ _ _) fun _ => fetchTask_meets fun _ => id
  | none =>
    refine .bind (fetchTask_meets fun _ => id) fun current => .throw fun _ _ h => ?_
    have := congrArg (fun s : String => s.toList.head?) h
    simp [toString, String.toList_append] at this

end
/-! ### Creating a task -/

section
variable {auth : AuthCtx} {db : Db}

/-- The text of a `depends_on` entry that finds no task. -/
def noDependency (key : String) : BusError := .notFound s!"dependency '{key}' does not exist; create it first"

omit [Platform] in
theorem noDependency_inj {a b : String} (h : noDependency a = noDependency b) : a = b := by
  simpa [noDependency, toString, String.ext_iff, String.toList_append] using h

/-- No dependency that is there is reported as missing. -/
def Honest (db : Db) (team : Uuid) (e : BusError) : Prop :=
  ∀ key t, db.findTask team key = some t → e ≠ noDependency key

/-- The key of a `depends_on` entry finds the task with the id. -/
def Resolved (db : Db) (team : Uuid) (raw : String) (id : Uuid) : Prop :=
  ∃ key t, normalizeKey raw = .ok key ∧ db.findTask team key = some t ∧ t.id = id

omit [Platform] in
theorem lookupDeps_meets (key : String) (raws : List String) :
    Bus.Meets (·.db = db) (lookupDeps auth key raws)
      (fun ids pg => (∀ raw ∈ raws, ∃ id ∈ ids, Resolved db auth.teamId raw id) ∧ pg.db = db)
      (Honest db auth.teamId) := by
  induction raws with
  | nil => exact .pure fun _ h => ⟨by simp, h⟩
  | cons raw raws ih =>
    unfold lookupDeps
    cases hkey : normalizeKey raw with
    | error e =>
      obtain ⟨msg, rfl⟩ := normalizeKey_error hkey
      refine .bind (Q := fun _ _ => False) (.throw fun _ _ key t _ h => by cases h) fun _ => .unreached fun _ h => h
    | ok dep =>
      rw [check, pure_bind]
      refine .guard (fun _ key t _ h => by cases h) fun _ => ?_
      refine .bind (Q := fun id pg => id = (db.findTask auth.teamId dep).map (·.id) ∧ pg.db = db)
        (.select fun pg h => ⟨by rw [h], h⟩) fun found => .lift fun hfound => ?_
      cases hfind : db.findTask auth.teamId dep with
      | none =>
        rw [hfind] at hfound
        subst hfound
        refine .throw fun _ _ key t ht h => ?_
        rw [← noDependency_inj h, hfind] at ht
        cases ht
      | some t =>
        rw [hfind] at hfound
        subst hfound
        refine .bind ih fun ids => .lift fun hids => .pure fun _ h => ⟨fun r hr => ?_, h⟩
        rcases List.mem_cons.1 hr with rfl | hr
        · exact ⟨_, List.mem_cons_self, dep, t, hkey, hfind, rfl⟩
        · obtain ⟨id, hid, hres⟩ := hids r hr
          exact ⟨id, List.mem_cons_of_mem _ hid, hres⟩

/-- The team has the task under the key. -/
def HasRow (team : Uuid) (key : String) (id : Uuid) (pg : Pg) : Prop :=
  ∃ t, pg.db.findTask team key = some t ∧ t.id = id

theorem insertTask_meets {key title : String} {description : Option String} {metadata : Json} {E : BusError → Prop}
    (hE : E .db) (hnone : db.findTask auth.teamId key = none) :
    Bus.Meets (·.db = db) (execute (.insert .tasks) (insertTask auth key title description metadata))
      (HasRow auth.teamId key) E := by
  refine .execute (fun pg id h ha => ?_) fun pg e _ he => ?_
  · cases hs : insertTask auth key title description metadata pg with
    | error e =>
      rw [Sql.answer, hs] at ha
      cases ha
    | ok r =>
      obtain ⟨b, seqs, ws⟩ := r
      rw [Sql.answer, hs] at ha
      obtain rfl := Except.ok.inj ha
      obtain ⟨t, rfl, -, htasks, -⟩ := insertTask_rows hs
      rw [Sql.effect, hs]
      refine ⟨newTask auth b pg.now key title description metadata, ?_, rfl⟩
      rw [Db.findTask, htasks, List.find?_append, h, show db.tasks.find? _ = none from hnone]
      simp [newTask]
  · rw [Sql.answer] at he
    cases hs : insertTask auth key title description metadata pg with
    | ok r =>
      rw [hs] at he
      cases he
    | error e' =>
      rw [hs] at he
      obtain rfl := Except.error.inj he
      unfold insertTask at hs
      dsimp only at hs
      split at hs
      · cases hs
      · exact Except.error.inj hs ▸ hE

omit [Platform] in
theorem insertDeps_meets {E : BusError → Prop} (hE : E .db) (team : Uuid) (key : String) (id : Uuid) (done deps : List Uuid) :
    Bus.Meets (fun pg => HasRow team key id pg ∧ ∀ d ∈ done, ⟨id, d⟩ ∈ pg.db.taskDeps) (insertDeps id deps)
      (fun _ pg => HasRow team key id pg ∧ ∀ d ∈ done ++ deps, ⟨id, d⟩ ∈ pg.db.taskDeps) E := by
  induction deps generalizing done with
  | nil => exact .pure fun pg h => by rwa [List.append_nil]
  | cons dep deps ih =>
    have hstep : Bus.Meets (fun pg => HasRow team key id pg ∧ ∀ d ∈ done, ⟨id, d⟩ ∈ pg.db.taskDeps)
        (execute (.insertTaskDep id dep) (insertTaskDep id dep))
        (fun _ pg => HasRow team key id pg ∧ ∀ d ∈ done ++ [dep], ⟨id, d⟩ ∈ pg.db.taskDeps) E := by
      refine .execute (fun pg a h ha => ?_) fun pg e _ he => ?_
      · cases hs : insertTaskDep id dep pg with
        | error e =>
          rw [Sql.answer, hs] at ha
          cases ha
        | ok r =>
          obtain ⟨b, seqs, ws⟩ := r
          rw [Sql.effect, hs]
          unfold insertTaskDep at hs
          dsimp only at hs
          split at hs
          · cases hs
            refine ⟨h.1, fun d hd => ?_⟩
            rcases List.mem_append.1 hd with hd | hd
            · exact List.mem_append_left _ (h.2 d hd)
            · exact List.mem_append_right _ (by simpa using hd)
          · cases hs
      · rw [Sql.answer, insertTaskDep] at he
        split at he
        · cases he
        · cases he
          exact hE
    have hrest := ih (done ++ [dep])
    rw [List.append_assoc] at hrest
    exact .bind hstep fun _ => hrest

/-- A `create_task` that succeeds has a fresh key, and an edge for each entry of `depends_on`. -/
theorem createTask_meets (auth : AuthCtx) (db : Db) (input : CreateInput) :
    Bus.Meets (·.db = db) (createTask auth input) (fun info pg => ∃ key id, normalizeKey input.key = .ok key ∧
      info.key = key ∧ db.findTask auth.teamId key = none ∧ HasRow auth.teamId key id pg ∧
      ∀ raw ∈ input.dependsOn, ∃ dep, Resolved db auth.teamId raw dep ∧ ⟨id, dep⟩ ∈ pg.db.taskDeps)
      (Honest db auth.teamId) := by
  have hdb : Honest db auth.teamId .db := fun key t _ h => by cases h
  unfold createTask
  cases hkey : normalizeKey input.key with
  | error e =>
    obtain ⟨msg, rfl⟩ := normalizeKey_error hkey
    exact .bind (Q := fun _ _ => False) (.throw fun _ _ key t _ h => by cases h) fun _ => .unreached fun _ h => h
  | ok key =>
  rw [check, pure_bind]
  refine .bind (Q := fun _ pg => pg.db = db) (.check (fun _ _ h _ => h) fun e he => ?_) fun title => ?_
  · obtain ⟨msg, rfl⟩ := checkText_error he
    exact fun key t _ h => by cases h
  refine .guard (fun _ key t _ h => by cases h) fun _ => ?_
  refine .bind (Q := fun _ pg => pg.db = db) (.check (fun _ _ h _ => h) fun e he => ?_) fun description => ?_
  · obtain ⟨msg, rfl⟩ := checkTextOpt_error he
    exact fun key t _ h => by cases h
  refine .bind (Q := fun _ pg => pg.db = db) (.check (fun _ _ h _ => h) fun e he => ?_) fun _ => ?_
  · obtain ⟨msg, rfl⟩ := checkMetadata_error he
    exact fun key t _ h => by cases h
  refine .bind (Q := fun found pg => found = db.findTask auth.teamId key ∧ pg.db = db)
    (.select fun pg h => ⟨by rw [h], h⟩) fun found => .lift fun hfound => ?_
  refine .guard (fun _ key t _ h => by cases h) fun hnone => ?_
  have hnone : db.findTask auth.teamId key = none := by
    rw [← hfound]
    simpa using hnone
  refine .guard (fun _ key t _ h => by cases h) fun _ => ?_
  refine .bind (lookupDeps_meets key input.dependsOn) fun deps => .lift fun hdeps => ?_
  refine .bind (insertTask_meets hdb hnone) fun id => ?_
  have hinsert := insertDeps_meets hdb auth.teamId key id [] (sortDedup deps)
  have hdone : Bus.Meets (HasRow auth.teamId key id) (insertDeps id (sortDedup deps))
      (fun _ pg => HasRow auth.teamId key id pg ∧ ∀ d ∈ sortDedup deps, ⟨id, d⟩ ∈ pg.db.taskDeps)
      (Honest db auth.teamId) :=
    ⟨fun pg h => hinsert.answers pg ⟨h, by simp⟩, fun pg h => hinsert.fails pg ⟨h, by simp⟩⟩
  refine .bind hdone fun _ => .bind (logEvent_meets hdb ?_ _ _ _ _) fun _ => ?_
  · rintro pg pg' htasks htaskDeps ⟨⟨t, ht, hid⟩, hedges⟩
    exact ⟨⟨t, by rw [Db.findTask, htasks]; exact ht, hid⟩, htaskDeps ▸ hedges⟩
  · have hfetch : Bus.Meets _ (fetchTask auth key) _ (Honest db auth.teamId) := fetchTask_meets
      (P := fun pg => HasRow auth.teamId key id pg ∧ ∀ d ∈ sortDedup deps, ⟨id, d⟩ ∈ pg.db.taskDeps)
      fun _ h => h.1.imp fun _ ht => ht.1
    refine ⟨fun pg h info hinfo => ?_, hfetch.fails⟩
    obtain ⟨hinfo, hrow, hedges⟩ := hfetch.answers pg h info hinfo
    refine ⟨key, id, rfl, hinfo, hnone, hrow, fun raw hraw => ?_⟩
    obtain ⟨dep, hdep, hres⟩ := hdeps raw hraw
    exact ⟨dep, hres, hedges dep (by simpa only [sortDedup, List.mem_dedup, Rows.mem_orderBy] using hdep)⟩

end

/-! ### Attaching to a task -/

section
variable {auth : AuthCtx} {db : Db}

omit [Platform] in
/-- A file is attached to the task that has the trimmed key. -/
theorem attachToTask_meets {raw : String} {t : Task} (hfind : db.findTask auth.teamId (trim raw) = some t) (pid : Nat)
    (att : NewAttachment) :
    Bus.Meets (·.db = db) (attachToTask auth pid raw att)
      (fun _ pg => ∃ a, pg.db.attachments = db.attachments ++ [a] ∧ a.taskId = some t.id) (¬ ·.misses (trim raw)) := by
  unfold attachToTask
  refine .bind (Q := fun found pg => found = some t.id ∧ pg.db = db) (.select fun pg h => ⟨?_, h⟩) fun found => .lift fun hfound => ?_
  · rw [h, show db.tasks.find? _ = some t from hfind]
    rfl
  subst hfound
  refine .bind (Q := fun _ pg => pg.db = db) (.select fun _ h => h) fun count => .guard (fun _ => id) fun _ => ?_
  refine .transaction fun now => ?_
  refine .bind (Q := fun c pg => (c = ⟨pid, some ⟨now, []⟩⟩ ∧ db.Admits auth.teamId att.sizeBytes) ∧ pg.db = db) ?_
    fun c => .lift fun hconn => ?_
  · have h : Bus.Meets (·.db = db) _ _ (¬ ·.misses (trim raw)) := checkAttachmentQuota_meets id (fun _ => id) pid
      ⟨now, []⟩ auth.teamId att.sizeBytes
    exact ⟨fun pg hP => h.answers pg hP.1, fun pg hP => h.fails pg hP.1⟩
  obtain ⟨rfl, -⟩ := hconn
  refine .bind (txExecute_meets (Q := fun r => ∃ a, r.2.pending = [.insertAttachment a] ∧ a.taskId = some t.id) pid ⟨now, []⟩
    _ _ ?_ ?_) fun r => .lift fun hpending => ?_
  · intro pg b seqs ws _ hs
    unfold insertAttachment at hs
    dsimp only at hs
    split at hs
    · cases hs
      exact ⟨_, rfl, rfl⟩
    · cases hs
  · intro pg e hs
    unfold insertAttachment at hs
    dsimp only at hs
    split at hs
    · cases hs
    · cases hs
      exact id
  · rcases r with ⟨id, c⟩
    obtain ⟨a, hpending, htask⟩ := hpending
    refine .pure fun pg h => ⟨a, ?_, htask⟩
    change (pg.db.write c.pending).attachments = _
    rw [show c.pending = _ from hpending, h]
    rfl

end
/-! ### Finding a task by a raw key -/

/-- The history of a task, oldest first. -/
def Db.taskHistory (db : Db) (t : Task) : List TaskEventInfo :=
  (Rows.orderBy (fun a b => a.id ≤ b.id) (db.taskEvents.filter (·.taskId == t.id))).map fun e =>
    { event := e.event, agent := e.agentId.bind db.agentName, detail := e.detail, createdAt := ts e.createdAt }

/-- The answer is about the task with the key. -/
def Reply.about (key : String) : Reply → Prop
  | .claim r => ∃ info, r.task = some info ∧ info.key = key
  | .task info => info.key = key
  | _ => False

/-- The key of a call that changes one task. -/
def Call.changes? : Call → Option String
  | .claimTask raw _ | .renewTaskLease raw _ | .releaseTask raw | .completeTask raw _ => some raw
  | _ => none

omit [Platform] in
/-- The rows that such a call finds have its key, trimmed. -/
theorem TaskChange.named {pg : Pg} {auth : AuthCtx} {c : Call} {raw key : String} {p : Task → Bool} {f : Task → Task}
    (h : TaskChange pg auth c p f) (hc : c.changes? = some raw) (hkey : normalizeKey raw = .ok key) {t : Task}
    (ht : p t = true) : t.teamId = auth.teamId ∧ t.key = key := by
  cases h with
  | claim lease h =>
    obtain rfl := Option.some.inj hc
    obtain rfl := Except.ok.inj (h.symm.trans hkey)
    simp only [claimable, Bool.and_eq_true, beq_iff_eq] at ht
    exact ht.1.1.1
  | claimNext lease => cases hc
  | renew lease h =>
    obtain rfl := Option.some.inj hc
    obtain rfl := Except.ok.inj (h.symm.trans hkey)
    obtain ⟨hteam, hkey', -⟩ := Pg.ownClaim_iff.1 ht
    exact ⟨hteam, hkey'⟩
  | release h =>
    obtain rfl := Option.some.inj hc
    obtain rfl := Except.ok.inj (h.symm.trans hkey)
    obtain ⟨hteam, hkey', -⟩ := Pg.ownClaim_iff.1 ht
    exact ⟨hteam, hkey'⟩
  | complete h hr =>
    obtain rfl := Option.some.inj hc
    obtain rfl := Except.ok.inj (h.symm.trans hkey)
    simp only [Bool.and_eq_true, beq_iff_eq] at ht
    exact ht.1

namespace Pg

/-- A call on the task: the answer is about it, an error does not say that it is missing, and no other row of `tasks`
    changes. -/
structure Concerns (pg : Pg) (auth : AuthCtx) (pid : Nat) (c : Call) (t : Task) : Prop where
  answers : ∀ r, (pg.call auth pid c).1 = .ok r → r.about t.key
  finds : ∀ e, (pg.call auth pid c).1 = .error e → ¬ e.misses t.key
  others : ∀ s ∈ pg.db.tasks, s.id ≠ t.id → s ∈ (pg.next (.call auth pid c)).db.tasks

/-- Every call that takes a task key finds the task by the raw key. -/
structure Finds (pg : Pg) (auth : AuthCtx) (raw : String) (t : Task) : Prop where
  claim : ∀ pid lease, pg.Concerns auth pid (.claimTask raw lease) t
  renew : ∀ pid lease, pg.Concerns auth pid (.renewTaskLease raw lease) t
  release : ∀ pid, pg.Concerns auth pid (.releaseTask raw) t
  complete : ∀ pid result, pg.Concerns auth pid (.completeTask raw result) t
  get : ∀ pid, (pg.call auth pid (.getTask raw)).1 =
    .ok (.taskDetail { task := pg.db.taskInfo pg.now t, history := pg.db.taskHistory t })
  attach : ∀ pid att,
    (∀ r, (pg.call auth pid (.attachToTask raw att)).1 = .ok r →
      ∃ a, (pg.next (.call auth pid (.attachToTask raw att))).db.attachments = pg.db.attachments ++ [a] ∧
        a.taskId = some t.id) ∧
    ∀ e, (pg.call auth pid (.attachToTask raw att)).1 = .error e → ¬ e.misses t.key
  depends : ∀ pid input, raw ∈ input.dependsOn →
    (∀ r, (pg.call auth pid (.createTask input)).1 = .ok r →
      ∃ info id, r = .task info ∧ HasRow auth.teamId info.key id (pg.next (.call auth pid (.createTask input))) ∧
        ⟨id, t.id⟩ ∈ (pg.next (.call auth pid (.createTask input))).db.taskDeps) ∧
    ∀ e, (pg.call auth pid (.createTask input)).1 = .error e → e ≠ noDependency t.key

section
variable {pg : Pg} {auth : AuthCtx} {raw key : String} {t : Task}

/-- A call by its key changes no other task. -/
theorem next_others (hv : pg.Valid) (hfind : pg.db.findTask auth.teamId key = some t) (hkey : normalizeKey raw = .ok key)
    {pid : Nat} {c : Call} (hc : c.changes? = some raw) :
    ∀ s ∈ pg.db.tasks, s.id ≠ t.id → s ∈ (pg.next (.call auth pid c)).db.tasks := by
  intro s hs hne
  rcases Pg.next_tasks hv (.call auth pid c) with htasks | ⟨-, -, -, htasks⟩ | ⟨hevent, -, hchange, htasks⟩
  · exact htasks ▸ hs
  · exact htasks ▸ List.mem_append_left _ hs
  · obtain ⟨rfl, rfl, rfl⟩ := Event.call.inj hevent
    rw [htasks]
    refine Rows.mem_update.2 ⟨s, hs, if_neg fun hp => hne ?_⟩
    obtain ⟨hteam, hkey⟩ := hchange.named hc hkey hp
    have hfind' := Db.findTask_of_mem hv.keys hs
    rw [hteam, hkey] at hfind'
    rw [Option.some.inj (hfind'.symm.trans hfind)]

/-- A call that meets its triple for every state that has the task is about the task. -/
theorem concerns_of_meets {α : Type} {x : Bus α} {g : α → Reply} {c : Call} {pid : Nat} {Q : α → Pg → Prop} (hv : pg.Valid)
    (hauth : auth.authentic pg.db = true) (hkey : normalizeKey raw = .ok key)
    (hfind : pg.db.findTask auth.teamId key = some t) (hc : c.changes? = some raw) (hrun : c.run auth pid = g <$> x)
    (hx : Bus.Meets (HasTask auth.teamId key) x Q (¬ ·.misses key)) (habout : ∀ a pg, Q a pg → (g a).about key) :
    pg.Concerns auth pid c t := by
  obtain ⟨hanswers, hfails⟩ := call_meets pid hauth hrun hx ⟨t, hfind⟩
  obtain rfl := (Db.findTask_some hfind).2.2
  refine ⟨fun r hr => ?_, hfails, next_others hv hfind hkey hc⟩
  obtain ⟨a, rfl, ha⟩ := hanswers r hr
  exact habout a _ ha

/-- `get_task` answers with the task when it is given its very key. -/
theorem get_answer (hv : pg.Valid) (hauth : auth.authentic pg.db = true) (hfind : pg.db.findTask auth.teamId raw = some t)
    (htrim : trim raw = raw) (pid : Nat) : (pg.call auth pid (.getTask raw)).1 =
      .ok (.taskDetail { task := pg.db.taskInfo pg.now t, history := pg.db.taskHistory t }) := by
  have hevents : ∀ e : TaskEvent,
      (pg.db.tasks.any fun s => s.id == e.taskId && s.teamId == auth.teamId && s.key == trim raw) = (e.taskId == t.id) := by
    intro e
    obtain ⟨hmem, hteam, hkey⟩ := Db.findTask_some hfind
    rw [htrim, Bool.eq_iff_iff, List.any_eq_true, beq_iff_eq]
    constructor
    · rintro ⟨s, hs, hq⟩
      simp only [Bool.and_eq_true, beq_iff_eq] at hq
      have hfind' := Db.findTask_of_mem hv.keys hs
      rw [hq.1.2, hq.2] at hfind'
      rw [← hq.1.1, Option.some.inj (hfind'.symm.trans hfind)]
    · exact fun hid => ⟨t, hmem, by simp [hid, hteam, hkey]⟩
  rw [Pg.call, if_pos hauth, Call.run, Bus.exec_map]
  unfold getTask
  rw [Bus.exec_bind, fetchTask_exec, hfind]
  simp only [Option.map_some, Option.elim_some, Bus.exec_bind, Bus.exec_select, Bus.exec_pure, hevents]
  rfl

/-- Every call finds the task just when the raw key needs no trimming: `get_task` takes it as it is. -/
theorem finds_iff (hpg : pg.Reachable) (hauth : auth.authentic pg.db = true) (hkey : normalizeKey raw = .ok key)
    (hfind : pg.db.findTask auth.teamId key = some t) : pg.Finds auth raw t ↔ trim raw = raw := by
  have hv := hpg.valid
  have htrim := normalizeKey_ok hkey
  have hname := (Db.findTask_some hfind).2.2
  constructor
  · intro h
    have hget := h.get 0
    obtain ⟨history, hexec⟩ := getTask_exec auth raw pg
    rw [Pg.call, if_pos hauth, Call.run, Bus.exec_map, hexec] at hget
    cases hraw : pg.db.findTask auth.teamId raw with
    | none =>
      rw [hraw] at hget
      cases hget
    | some s =>
      obtain ⟨hs, -, hkeyed⟩ := Db.findTask_some hraw
      exact hkeyed ▸ hpg.trimmed s hs
  · intro hraw
    have hsame : key = raw := htrim.symm.trans hraw
    have hedges := fun pid input => call_meets (c := .createTask input) (g := .task) pid hauth rfl
      (createTask_meets auth pg.db input) rfl
    refine ⟨fun pid lease => ?_, fun pid lease => ?_, fun pid => ?_, fun pid result => ?_, fun pid => ?_, fun pid att => ?_,
      fun pid input hmem => ⟨fun r hr => ?_, fun e he => ?_⟩⟩
    · exact concerns_of_meets hv hauth hkey hfind rfl rfl (claimTask_meets hkey lease) fun _ _ h => h
    · exact concerns_of_meets hv hauth hkey hfind rfl rfl (renewLease_meets hkey lease) fun _ _ h => h.1
    · exact concerns_of_meets hv hauth hkey hfind rfl rfl (releaseTask_meets hkey) fun _ _ h => h.1
    · exact concerns_of_meets hv hauth hkey hfind rfl rfl (completeTask_meets hkey result) fun _ _ h => h.1
    · exact get_answer hv hauth (hsame ▸ hfind) hraw pid
    · obtain ⟨hanswers, hfails⟩ := call_meets (c := .attachToTask raw att) (g := .attached) pid hauth rfl
        (attachToTask_meets (htrim ▸ hfind) pid att) rfl
      refine ⟨fun r hr => ?_, fun e he => ?_⟩
      · obtain ⟨_, -, h⟩ := hanswers r hr
        exact h
      · exact hname ▸ htrim ▸ hfails e he
    · obtain ⟨info, rfl, k, id, -, rfl, -, hrow, hdeps⟩ := (hedges pid input).1 r hr
      obtain ⟨dep, ⟨k', t', hk', hfind', rfl⟩, hedge⟩ := hdeps raw hmem
      obtain rfl := Except.ok.inj (hkey.symm.trans hk')
      obtain rfl := Option.some.inj (hfind.symm.trans hfind')
      exact ⟨info, id, rfl, hrow, hedge⟩
    · exact hname ▸ (hedges pid input).2 e he key t hfind

/-- A task that was created under a raw key is there under the trimmed key from then on, and every call finds it by
    the raw key just when that needs no trimming. -/
theorem created_found_iff (hpg : pg.Reachable) {creator : AuthCtx} {pid : Nat} {input : CreateInput}
    (hcreate : (pg.call creator pid (.createTask input)).1.isOk = true) (es : List Event) (hteam : auth.teamId = creator.teamId)
    (hauth : auth.authentic ((pg.next (.call creator pid (.createTask input))).after es).db = true) :
    pg.db.findTask auth.teamId (trim input.key) = none ∧
      ∃ created t, (pg.next (.call creator pid (.createTask input))).db.findTask auth.teamId (trim input.key) = some created ∧
        ((pg.next (.call creator pid (.createTask input))).after es).db.findTask auth.teamId (trim input.key) = some t ∧
        t.id = created.id ∧
        (Finds ((pg.next (.call creator pid (.createTask input))).after es) auth input.key t ↔
          trim input.key = input.key) := by
  obtain ⟨hcreator, r, hr⟩ := call_isOk hcreate
  obtain ⟨info, -, key, id, hkey, -, hnone, ⟨created, hcreated, -⟩, -⟩ :=
    (call_meets (c := .createTask input) (g := .task) pid hcreator rfl
      (createTask_meets creator pg.db input) rfl).1 r hr
  have hnext := hpg.next (.call creator pid (.createTask input))
  obtain ⟨t, ht, hid⟩ := after_findTask hnext.valid hcreated es
  have hfound := finds_iff (hnext.after es) hauth hkey (hteam ▸ ht)
  obtain rfl := normalizeKey_ok hkey
  rw [hteam]
  exact ⟨hnone, created, t, hcreated, ht, hid, hfound⟩

end
end Pg
end

namespace Pg
section
open Sample
attribute [local instance] Platform.ascii

/-- The crew, before ann creates a task. -/
def keyless : Pg := (Pg.init 0).after crew

/-- Ann has created the task `build`. -/
def built (key : String) : Pg := keyless.next (.call ann 0 (.createTask ⟨key, "build", none, none, []⟩))

/-- Bob claims the task. -/
theorem plain_key_found :
    keyless.db.findTask bob.teamId (trim "build") = none ∧
      ∃ made t, (built "build").db.findTask bob.teamId (trim "build") = some made ∧
        ((built "build").after [.call bob 0 (.claimTask "build" none)]).db.findTask bob.teamId (trim "build") = some t ∧
        t.id = made.id ∧
        (Finds ((built "build").after [.call bob 0 (.claimTask "build" none)]) bob "build" t ↔ trim "build" = "build") :=
  @created_found_iff Platform.ascii keyless bob ((@Reachable.init Platform.ascii 0).after crew) ann 0
    ⟨"build", "build", none, none, []⟩ (by decide) [.call bob 0 (.claimTask "build" none)] rfl (by decide)

/-- `create_task` takes the key with its blank, `claim_task` finds the task by it, and `get_task` does not. -/
theorem blank_key_missed :
    ((built "build ").db.findTask ann.teamId "build").isSome = true ∧
      (built "build ").claimed bob 0 (.claimTask "build " none) "build" = true ∧
      ((built "build ").call ann 0 (.getTask "build ")).1 = .error (.notFound "task 'build '") := by
  decide

end
end Pg
end CrewSync
