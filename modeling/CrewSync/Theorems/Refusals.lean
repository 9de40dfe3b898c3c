import CrewSync.Theorems.ClaimPaths
import CrewSync.Theorems.TaskKeys
import Mathlib.Algebra.Order.BigOperators.Group.List
import Mathlib.Algebra.Order.Ring.Nat

/-! What a refused claim is told. The reason is made afterwards from the task as it is: first whether it is blocked,
    then its status, then its holder. -/

namespace CrewSync

/-! ### The texts -/

def blockedText (keys : List String) : String := "blocked by unfinished dependencies: " ++ joinComma keys

def closedText (s : TaskStatus) : String := "task is " ++ s.text

/-- The holder is the caller, in another session. -/
def ownText (session : String) (seconds : Int) : String :=
  let place := if session.isEmpty then "shared" else s!"'{session}'"
  let expiry := s!"the lease expires in {seconds}s"
  s!"claimed by your own {place} session, and {expiry} — continue the " ++
    "work there, or wait for the lease to expire and claim it here"

def heldText (name session : String) (seconds : Int) : String :=
  let place := if session.isEmpty then "" else s!" (session '{session}')"
  let expiry := s!"the lease expires in {seconds}s"
  s!"held by {name}{place}, {expiry}"

theorem head_append {s : String} {c : Char} (h : s.toList.head? = some c) (s' : String) :
    (s ++ s').toList.head? = some c := by
  rw [String.toList_append, List.head?_append, h]
  rfl

/-! The first letter tells the texts apart. -/

theorem blockedText_head (keys : List String) : (blockedText keys).toList.head? = some 'b' := head_append (by simp) _

theorem closedText_head (s : TaskStatus) : (closedText s).toList.head? = some 't' := head_append (by simp) _

theorem ownText_head (session : String) (seconds : Int) : (ownText session seconds).toList.head? = some 'c' := by
  unfold ownText
  iterate 5 refine head_append ?_ _
  rfl

theorem heldText_head (name session : String) (seconds : Int) : (heldText name session seconds).toList.head? = some 'h' := by
  unfold heldText
  iterate 4 refine head_append ?_ _
  rfl

theorem ne_of_head {s s' : String} {c c' : Char} (h : s.toList.head? = some c) (h' : s'.toList.head? = some c')
    (hne : c ≠ c') : s ≠ s' := by
  rintro rfl
  exact hne (Option.some.inj (h.symm.trans h'))

theorem closedText_inj {s s' : TaskStatus} (h : closedText s = closedText s') : s = s' := by
  revert h
  cases s <;> cases s' <;> decide

theorem joinComma_length {keys : List String} (h : keys ≠ []) :
    (joinComma keys).length + 2 = (keys.map fun k => k.length + 2).sum := by
  induction keys with
  | nil => exact absurd rfl h
  | cons k ks ih =>
    cases ks with
    | nil => simp [joinComma]
    | cons k' ks =>
      have ih := ih (by simp)
      simp only [joinComma, String.length_append, List.map_cons, List.sum_cons] at ih ⊢
      have : (", " : String).length = 2 := by decide
      omega

/-- A list with more keys in it has another text. -/
theorem blockedText_ne {keys keys' : List String} {k : String} (hne : keys ≠ []) (hnodup : keys.Nodup) (hsub : keys ⊆ keys')
    (hk : k ∈ keys') (hno : k ∉ keys) : blockedText keys ≠ blockedText keys' := by
  intro h
  have hlength := congrArg String.length ((String.append_right_inj _).1 h)
  obtain ⟨l, hperm, hsublist⟩ : (k :: keys).Subperm keys' :=
    List.subperm_of_subset (List.nodup_cons.2 ⟨hno, hnodup⟩) (List.cons_subset.2 ⟨hk, hsub⟩)
  have hle := (hsublist.map fun k => k.length + 2).sum_le_sum (by simp)
  have hsum := (hperm.map fun k => k.length + 2).sum_nat
  have hl := joinComma_length hne
  have hl' := joinComma_length (List.ne_nil_of_mem hk)
  rw [List.map_cons, List.sum_cons] at hsum
  omega

section
variable [Platform] {pg : Pg} {auth : AuthCtx} {t : Task}

/-! ### Dependencies -/

/-- A dependency of the task has the key. -/
def Pg.DependsOn (pg : Pg) (t : Task) (key : String) : Prop :=
  ∃ d ∈ pg.db.taskDeps, d.taskId = t.id ∧ ∃ b ∈ pg.db.tasks, b.id = d.blockedByTaskId ∧ b.key = key

/-- A dependency that is neither done nor cancelled has it. -/
def Pg.WaitsFor (pg : Pg) (t : Task) (key : String) : Prop :=
  ∃ d ∈ pg.db.taskDeps, d.taskId = t.id ∧ ∃ b ∈ pg.db.tasks, b.id = d.blockedByTaskId ∧ b.key = key ∧
    b.status.finished = false

omit [Platform] in
theorem blocked_iff_waits : pg.db.blocked t.id = true ↔ ∃ key, pg.WaitsFor t key := by
  simp only [Db.blocked, List.any_eq_true, Bool.and_eq_true, beq_iff_eq, Bool.not_eq_true']
  constructor
  · rintro ⟨d, hd, htask, b, hb, hid, hstatus⟩
    exact ⟨b.key, d, hd, htask, b, hb, hid, rfl, hstatus⟩
  · rintro ⟨key, d, hd, htask, b, hb, hid, -, hstatus⟩
    exact ⟨d, hd, htask, b, hb, hid, hstatus⟩

omit [Platform] in
theorem mem_dependsOn (hv : pg.Valid) {key : String} : key ∈ pg.db.dependsOn t.id ↔ pg.DependsOn t key := by
  simp only [Db.dependsOn, Rows.mem_orderBy, List.mem_filterMap, List.mem_filter, beq_iff_eq, Option.map_eq_some_iff]
  constructor
  · rintro ⟨d, ⟨hd, htask⟩, b, hfind, rfl⟩
    exact ⟨d, hd, htask, b, List.mem_of_find?_eq_some hfind, by simpa using List.find?_some hfind, rfl⟩
  · rintro ⟨d, hd, htask, b, hb, hid, rfl⟩
    exact ⟨d, ⟨hd, htask⟩, b, hv.keys.tasks.find?_eq_some hb (by simpa using hid) fun r _ hr => by
      rw [beq_iff_eq] at hr
      exact hr.trans hid.symm, rfl⟩

omit [Platform] in
/-- The dependencies of a task are of its team. -/
theorem dependency_team (hv : pg.Valid) (ht : t ∈ pg.db.tasks) {d : TaskDep} (hd : d ∈ pg.db.taskDeps)
    (htask : d.taskId = t.id) {b : Task} (hb : b ∈ pg.db.tasks) (hid : b.id = d.blockedByTaskId) :
    b.teamId = t.teamId := by
  obtain ⟨team, hown, hother⟩ := hv.refs.taskDeps d hd
  simp only [Db.taskIn, List.any_eq_true, Bool.and_eq_true, beq_iff_eq] at hown hother
  obtain ⟨t', ht', hid', hteam'⟩ := hown
  obtain ⟨b', hb', hbid', hbteam'⟩ := hother
  obtain rfl := hv.keys.tasks.eq ht' ht (hid'.trans htask)
  obtain rfl := hv.keys.tasks.eq hb' hb (hbid'.trans hid.symm)
  exact hbteam'.trans hteam'.symm

omit [Platform] in
/-- No two dependencies of a task have one key. -/
theorem dependsOn_nodup (hv : pg.Valid) (ht : t ∈ pg.db.tasks) : (pg.db.dependsOn t.id).Nodup := by
  refine Rows.orderBy_perm.nodup_iff.2 (List.pairwise_filterMap.2 ?_)
  refine (hv.keys.taskDeps.filter _).imp_of_mem fun {d d'} hd hd' hne key hkey key' hkey' heq => hne ?_
  obtain ⟨hd, htask⟩ := List.mem_filter.1 hd
  obtain ⟨hd', htask'⟩ := List.mem_filter.1 hd'
  obtain ⟨b, hb, rfl⟩ := Option.map_eq_some_iff.1 hkey
  obtain ⟨b', hb', rfl⟩ := Option.map_eq_some_iff.1 hkey'
  rw [beq_iff_eq] at htask htask'
  have hid : b.id = d.blockedByTaskId := by simpa using List.find?_some hb
  have hid' : b'.id = d'.blockedByTaskId := by simpa using List.find?_some hb'
  have hteam := dependency_team hv ht hd htask (List.mem_of_find?_eq_some hb) hid
  have hteam' := dependency_team hv ht hd' htask' (List.mem_of_find?_eq_some hb') hid'
  obtain rfl := hv.keys.taskKeys.eq (List.mem_of_find?_eq_some hb) (List.mem_of_find?_eq_some hb')
    (Prod.ext (hteam.trans hteam'.symm) heq)
  cases d
  cases d'
  simp only [TaskDep.mk.injEq] at *
  exact ⟨htask.trans htask'.symm, hid.symm.trans hid'⟩

/-! ### Refusals -/

/-- An `UPDATE` that finds no row leaves the server as it was. -/
theorem updateTask_none {p : Task → Bool} (f : Task → Task) (h : ∀ t ∈ pg.db.tasks, p t = false) :
    (updateTask p f).answer pg = .ok none ∧ (updateTask p f).effect pg = pg := by
  have hnil : pg.db.tasks.filter p = [] := List.filter_eq_nil_iff.2 fun t ht => by simp [h t ht]
  have hwrite : (Write.updateTasks p f).apply pg.db = pg.db := by
    simp only [Write.apply, Rows.update_eq_self h]
  simp only [Sql.answer, Sql.effect, updateTask, hnil, List.all_nil, if_true, List.map_nil, List.head?_nil, Option.map_none]
  refine ⟨rfl, ?_⟩
  have htriggers : taskTriggers pg [] pg.seqs = (pg.seqs, []) := rfl
  rw [htriggers]
  simp only [Db.write, List.foldl, hwrite]

/-- A refused claim has found the task, and could not take it. -/
theorem claim_refused (hv : pg.Valid) {pid : Nat} {raw : String} {lease : Option Int} {r : ClaimResult}
    (h : (pg.call auth pid (.claimTask raw lease)).1 = .ok (.claim r)) (hno : r.claimed = false) :
    ∃ key t, normalizeKey raw = .ok key ∧ pg.db.findTask auth.teamId key = some t ∧ claimable auth key pg t = false ∧
      r.reason = some (claimRefusal auth (pg.db.taskInfo pg.now t)) := by
  have hauth := Pg.authentic_of_call h
  have hanswer : ((claimTask auth raw lease).exec pg).1 = .ok r := by
    rw [Pg.call, if_pos hauth, Call.run, Bus.exec_map] at h
    cases hr : ((claimTask auth raw lease).exec pg).1 with
    | error e =>
      rw [hr] at h
      cases h
    | ok r' =>
      rw [hr] at h
      cases h
      rfl
  cases hkey : normalizeKey raw with
  | error e =>
    unfold claimTask at hanswer
    rw [Bus.exec_bind, Bus.exec_check, hkey] at hanswer
    cases hanswer
  | ok key =>
    have hgrants := claimTask_grants hv (AuthCtx.authentic.caller hauth) hkey lease
    have hnone : pg.db.tasks.find? (claimable auth key pg) = none := by
      cases hfind : pg.db.tasks.find? (claimable auth key pg) with
      | none => rfl
      | some t =>
        simp only [hfind] at hgrants
        obtain ⟨info, pg', hexec, -⟩ := hgrants
        rw [hexec] at hanswer
        cases hanswer
        cases hno
    have hno' : ∀ t ∈ pg.db.tasks, claimable auth key pg t = false := fun t ht => by
      simpa using List.find?_eq_none.1 hnone t ht
    obtain ⟨ha, he⟩ := updateTask_none (setClaimed auth (leaseOf lease) pg.now) hno'
    have hexec : (execute (.update .tasks) (claimStatement auth key (leaseOf lease))).exec pg = (.ok none, pg) :=
      Prod.ext ha he
    unfold claimTask at hanswer
    rw [Bus.exec_bind, Bus.exec_check, hkey] at hanswer
    dsimp only at hanswer
    rw [Bus.exec_bind_ok hexec, Bus.exec_bind, fetchTask_exec] at hanswer
    cases hfind : pg.db.findTask auth.teamId key with
    | none =>
      rw [hfind] at hanswer
      cases hanswer
    | some t =>
      rw [hfind] at hanswer
      cases hanswer
      exact ⟨key, t, rfl, hfind, hno' t (Db.findTask_some hfind).1, rfl⟩

/-! ### Reasons -/

/-- The reason names the agent and the session whose lease has not expired, and tells the caller if they are its own. -/
def Pg.NamesHolder (pg : Pg) (auth : AuthCtx) (t : Task) (reason : String) : Prop :=
  t.status = .claimed ∧ ∃ a ∈ pg.db.agents, t.claimedBy = some a.id ∧ ∃ e, t.leaseExpiresAt = some e ∧ ¬ e < pg.now ∧
    let session := t.claimedSession.getD ""
    let seconds := max ((e - pg.now) / 1000000) 0
    reason = if a.id = auth.agentId ∧ session ≠ auth.session then ownText session seconds
      else heldText a.name session seconds

/-- The reason of a refused claim is the real one. -/
structure Pg.Explained (pg : Pg) (auth : AuthCtx) (t : Task) (reason : String) : Prop where
  blocked : (∃ keys, reason = blockedText keys) ↔ (t.status = .«open» ∨ t.status = .claimed) ∧ ∃ key, pg.WaitsFor t key
  dependencies : (∃ keys, reason = blockedText keys) →
    ∃ keys, reason = blockedText keys ∧ keys.Nodup ∧ ∀ key, key ∈ keys ↔ pg.WaitsFor t key
  closed : ∀ s, reason = closedText s ↔ t.status = s ∧ (s = .done ∨ s = .cancelled)
  held : (t.status = .«open» ∨ t.status = .claimed) → (∀ key, ¬ pg.WaitsFor t key) → pg.NamesHolder auth t reason

omit [Platform] in
/-- The texts of `holder_reason`. -/
theorem holderReason_eq {t : TaskInfo} {name : String} {session : Option String} {seconds : Int}
    (hname : t.claimedBy = some name) (hsession : t.claimedSession = nonEmpty session)
    (hseconds : t.leaseSecondsRemaining = some seconds) :
    holderReason auth t = if name = auth.agentName ∧ session.getD "" ≠ auth.session then ownText (session.getD "") seconds
      else heldText name (session.getD "") seconds := by
  have hlabel : (nonEmpty session).getD "" = session.getD "" := by
    cases session with
    | none => rfl
    | some s =>
      by_cases hs : s = ""
      · subst hs
        rfl
      · simp [nonEmpty, Option.filter, hs]
  have hplaces : (∀ s, nonEmpty session = some s → session.getD "" = s ∧ s.isEmpty = false) ∧
      (nonEmpty session = none → session.getD "" = "") := by
    refine ⟨fun s hs => ?_, fun hs => ?_⟩
    · obtain ⟨hsome, hne⟩ := Option.filter_eq_some_iff.1 hs
      exact ⟨by rw [hsome, Option.getD_some], by simpa using hne⟩
    · rw [← hlabel, hs]
      rfl
  simp only [holderReason, hname, hsession, hseconds, hlabel, Bool.and_eq_true, beq_iff_eq, Option.some.injEq, Bool.not_eq_true',
    beq_eq_false_iff_ne, ne_eq, Option.getD_some]
  cases hs : nonEmpty session with
  | none =>
    rw [hplaces.2 hs]
    rfl
  | some s =>
    obtain ⟨hget, hne⟩ := hplaces.1 s hs
    have hempty : ¬ s.isEmpty = true := by
      rw [hne]
      exact Bool.false_ne_true
    rw [hget]
    unfold ownText heldText
    simp only [if_neg hempty]

/-- The refusal of a task that is claimed and waits for nothing names its holder. -/
theorem holderReason_names (hpg : pg.Reachable) (hauth : auth.authentic pg.db = true) (ht : t ∈ pg.db.tasks)
    (hteam : t.teamId = auth.teamId) (hclaimed : t.status = .claimed) (hfree : pg.db.blocked t.id = false)
    (hrefused : claimable auth t.key pg t = false) :
    pg.NamesHolder auth t (holderReason auth (pg.db.taskInfo pg.now t)) := by
  have hv := hpg.valid
  obtain ⟨hby, -, -, ⟨e, he, -⟩, -⟩ := (hpg.wellFormed t ht).claimed hclaimed
  obtain ⟨agent, hagent⟩ := Option.ne_none_iff_exists'.1 hby
  have hin := (Db.taskOk_iff.1 (hv.refs.tasks t ht)).2.1 agent hagent
  simp only [Db.agentIn, List.any_eq_true, Bool.and_eq_true, beq_iff_eq] at hin
  obtain ⟨a, ha, rfl, hateam⟩ := hin
  have hname : pg.db.agentName a.id = some a.name := by
    rw [Db.agentName, hv.keys.agents.find?_eq_some ha (by simp) fun r _ h => by simpa using h]
    rfl
  have hlive : ¬ e < pg.now := by
    intro hlt
    have hclaim : pg.Claimable t := ⟨.inr ⟨hclaimed, e, he, hlt⟩, blocked_iff.1 hfree⟩
    rw [(claimTask_finds hpg ht).2 ⟨hteam, rfl, .inl hclaim⟩] at hrefused
    cases hrefused
  -- The names of a team are unique, so comparing names compares agents.
  have hmine : a.name = auth.agentName ↔ a.id = auth.agentId := by
    obtain ⟨b, hb, hid, hbteam, hbname⟩ : ∃ b ∈ pg.db.agents, b.id = auth.agentId ∧ b.teamId = auth.teamId ∧
        b.name = auth.agentName := by
      simp only [AuthCtx.authentic, Bool.and_eq_true, List.any_eq_true, beq_iff_eq] at hauth
      obtain ⟨⟨b, hb, ⟨⟨hid, hbteam⟩, hbname⟩, -⟩, -⟩ := hauth
      exact ⟨b, hb, hid, hbteam, hbname⟩
    rw [← hid, ← hbname]
    constructor
    · intro h
      rw [hv.keys.agentNames.eq ha hb (Prod.ext (hateam.trans (hteam.trans hbteam.symm)) h)]
    · intro h
      rw [hv.keys.agents.eq ha hb h]
  refine ⟨hclaimed, a, ha, hagent, e, he, hlive, ?_⟩
  have hby : (pg.db.taskInfo pg.now t).claimedBy = some a.name := by simp [Db.taskInfo, hagent, hname]
  have hseconds : (pg.db.taskInfo pg.now t).leaseSecondsRemaining = some (max ((e - pg.now) / 1000000) 0) := by
    simp [Db.taskInfo, he, hclaimed]
  have hsession : (pg.db.taskInfo pg.now t).claimedSession = nonEmpty t.claimedSession := rfl
  rw [holderReason_eq hby hsession hseconds]
  simp only [hmine]

omit [Platform] in
theorem Pg.NamesHolder.head {reason : String} (h : pg.NamesHolder auth t reason) :
    reason.toList.head? = some 'c' ∨ reason.toList.head? = some 'h' := by
  obtain ⟨-, a, -, -, e, -, -, hreason⟩ := h
  dsimp only at hreason
  rw [hreason]
  split
  · exact .inl (ownText_head _ _)
  · exact .inr (heldText_head _ _ _)

/-- A task that waits for nothing and is refused is held or finished, and the reason says so. -/
theorem claimRefusal_free (hpg : pg.Reachable) (hauth : auth.authentic pg.db = true) (ht : t ∈ pg.db.tasks)
    (hteam : t.teamId = auth.teamId) (hfree : pg.db.blocked t.id = false) (hrefused : claimable auth t.key pg t = false) :
    t.status = .claimed ∧ pg.NamesHolder auth t (claimRefusal auth (pg.db.taskInfo pg.now t)) ∨
      (t.status = .done ∨ t.status = .cancelled) ∧ claimRefusal auth (pg.db.taskInfo pg.now t) = closedText t.status := by
  have hnot : ¬ (pg.db.taskInfo pg.now t).blocked = true := by
    rw [show (pg.db.taskInfo pg.now t).blocked = false from hfree]
    exact Bool.false_ne_true
  have hstatus : (pg.db.taskInfo pg.now t).status = t.status := rfl
  rw [claimRefusal, if_neg hnot, hstatus]
  cases hs : t.status with
  | «open» =>
    have hclaim : pg.Claimable t := ⟨.inl hs, blocked_iff.1 hfree⟩
    rw [(claimTask_finds hpg ht).2 ⟨hteam, rfl, .inl hclaim⟩] at hrefused
    cases hrefused
  | claimed => exact .inl ⟨rfl, holderReason_names hpg hauth ht hteam hs hfree hrefused⟩
  | done => exact .inr ⟨.inl rfl, rfl⟩
  | cancelled => exact .inr ⟨.inr rfl, rfl⟩

/-- What a refused claim is told is the real reason just when a task that waits is not finished itself, and none of its
    dependencies is. -/
theorem refusal_explained_iff (hpg : pg.Reachable) {pid : Nat} {raw : String} {lease : Option Int} {r : ClaimResult}
    (h : (pg.call auth pid (.claimTask raw lease)).1 = .ok (.claim r)) (hno : r.claimed = false) :
    ∃ key t reason, normalizeKey raw = .ok key ∧ pg.db.findTask auth.teamId key = some t ∧ r.reason = some reason ∧
      (pg.Explained auth t reason ↔ ((∃ key, pg.WaitsFor t key) →
        (t.status = .«open» ∨ t.status = .claimed) ∧ ∀ key, pg.DependsOn t key → pg.WaitsFor t key)) := by
  have hv := hpg.valid
  obtain ⟨key, t, hkey, hfind, hrefused, hreason⟩ := claim_refused hv h hno
  obtain ⟨ht, hteam, rfl⟩ := Db.findTask_some hfind
  refine ⟨t.key, t, _, hkey, hfind, hreason, ?_⟩
  have hhead : ∀ {keys : List String} {s : TaskStatus}, blockedText keys ≠ closedText s := fun {keys s} =>
    ne_of_head (blockedText_head keys) (closedText_head s) (by decide)
  cases hblocked : pg.db.blocked t.id with
  | true =>
    have hwaits := blocked_iff_waits.1 hblocked
    have htext : claimRefusal auth (pg.db.taskInfo pg.now t) = blockedText (pg.db.dependsOn t.id) := by
      rw [claimRefusal, if_pos (show (pg.db.taskInfo pg.now t).blocked = true from hblocked)]
      rfl
    rw [htext]
    constructor
    · intro hexp _
      obtain ⟨hstatus, -⟩ := hexp.blocked.1 ⟨_, rfl⟩
      refine ⟨hstatus, fun k hk => ?_⟩
      obtain ⟨keys, heq, hnodup, hkeys⟩ := hexp.dependencies ⟨_, rfl⟩
      by_contra hnot
      obtain ⟨k', hk'⟩ := hwaits
      refine blockedText_ne (List.ne_nil_of_mem ((hkeys k').2 hk')) hnodup (fun x hx => ?_) ((mem_dependsOn hv).2 hk)
        (fun hin => hnot ((hkeys k).1 hin)) heq.symm
      obtain ⟨d, hd, htask, b, hb, hid, hname, -⟩ := (hkeys x).1 hx
      exact (mem_dependsOn hv).2 ⟨d, hd, htask, b, hb, hid, hname⟩
    · intro hall
      obtain ⟨hstatus, hdeps⟩ := hall hwaits
      refine ⟨⟨fun _ => ⟨hstatus, hwaits⟩, fun _ => ⟨_, rfl⟩⟩, fun _ => ⟨_, rfl, dependsOn_nodup hv ht, fun k => ?_⟩,
        fun s => ?_, fun _ hnone => ?_⟩
      · refine (mem_dependsOn hv).trans ⟨hdeps k, ?_⟩
        rintro ⟨d, hd, htask, b, hb, hid, hname, -⟩
        exact ⟨d, hd, htask, b, hb, hid, hname⟩
      · refine iff_of_false hhead ?_
        rintro ⟨rfl, hs⟩
        rcases hstatus with ho | ho <;> rcases hs with hs | hs <;> exact absurd (hs.symm.trans ho) (by decide)
      · obtain ⟨k', hk'⟩ := hwaits
        exact absurd hk' (hnone k')
  | false =>
    have hnone : ∀ k, ¬ pg.WaitsFor t k := fun k hk => by
      rw [blocked_iff_waits.2 ⟨k, hk⟩] at hblocked
      cases hblocked
    refine iff_of_true ?_ fun ⟨k, hk⟩ => absurd hk (hnone k)
    rcases claimRefusal_free hpg (Pg.authentic_of_call h) ht hteam hblocked hrefused with ⟨hs, hnames⟩ | ⟨hs, htext⟩
    · have hno : ∀ {c : Char} {text : String}, text.toList.head? = some c → c ≠ 'c' → c ≠ 'h' →
          claimRefusal auth (pg.db.taskInfo pg.now t) ≠ text := by
        intro c text hc hne hne'
        rcases hnames.head with hhead | hhead
        · exact ne_of_head hhead hc hne.symm
        · exact ne_of_head hhead hc hne'.symm
      have hno' : ¬ ∃ keys, claimRefusal auth (pg.db.taskInfo pg.now t) = blockedText keys := fun ⟨keys, heq⟩ =>
        hno (blockedText_head keys) (by decide) (by decide) heq
      refine ⟨iff_of_false hno' fun h => ?_, fun h => absurd h hno', fun s => iff_of_false ?_ ?_, fun _ _ => hnames⟩
      · obtain ⟨-, k, hk⟩ := h
        exact hnone k hk
      · exact hno (closedText_head s) (by decide) (by decide)
      · rintro ⟨rfl, h | h⟩
        · exact absurd (hs.symm.trans h) (by decide)
        · exact absurd (hs.symm.trans h) (by decide)
    · rw [htext]
      have hno' : ¬ ∃ keys, closedText t.status = blockedText keys := fun ⟨keys, heq⟩ => hhead heq.symm
      refine ⟨iff_of_false hno' fun h => ?_, fun h => absurd h hno', fun s => ?_, fun hopen _ => ?_⟩
      · obtain ⟨-, k, hk⟩ := h
        exact hnone k hk
      · constructor
        · intro heq
          obtain rfl := closedText_inj heq
          exact ⟨rfl, hs⟩
        · rintro ⟨rfl, -⟩
          rfl
      · rcases hs with hs | hs <;> rcases hopen with ho | ho <;> exact absurd (hs.symm.trans ho) (by decide)

end

section
open Sample
attribute [local instance] Platform.ascii

def task (key : String) (dependsOn : List String) : Event :=
  .call ann 0 (.createTask { key, title := key, description := none, metadata := none, dependsOn })

/-- Ann has started one of the two tasks that the third waits for. -/
def started : Pg := (Pg.init 0).after
  (crew ++ [task "api" [], task "docs" [], task "ship" ["api", "docs"], .call ann 0 (.claimTask "api" none)])

/-- Bob is told what the third task waits for. -/
theorem ship_explained : ∃ r t reason, (started.call bob 0 (.claimTask "ship" none)).1 = .ok (.claim r) ∧
    started.db.findTask 0 "ship" = some t ∧ r.reason = some reason ∧ started.Explained bob t reason := by
  obtain ⟨r, hr, hno⟩ : ∃ r, (started.call bob 0 (.claimTask "ship" none)).1 = .ok (.claim r) ∧ r.claimed = false :=
    ⟨_, rfl, rfl⟩
  obtain ⟨key, t, reason, hkey, hfind, hreason, hiff⟩ :=
    @refusal_explained_iff Platform.ascii _ bob ((Pg.Reachable.init 0).after _) 0 "ship" none r hr hno
  obtain rfl : "ship" = key := Except.ok.inj (hkey.symm.trans rfl).symm
  have hunfinished : ∀ b ∈ started.db.tasks, (b.status = .«open» ∨ b.status = .claimed) ∧ b.status.finished = false := by
    decide
  refine ⟨r, t, reason, hr, hfind, hreason, hiff.2 fun _ => ⟨(hunfinished t (Db.findTask_some hfind).1).1, fun k hk => ?_⟩⟩
  obtain ⟨d, hd, htask, b, hb, hid, hname⟩ := hk
  exact ⟨d, hd, htask, b, hb, hid, hname, (hunfinished b hb).2⟩

/-- Ann has finished hers. -/
def progressed : Pg := started.next (.call ann 0 (.completeTask "api" none))

/-- Bob is told that the third task still waits for both. -/
theorem ship_misled : progressed.Reachable ∧ ∃ r t, (progressed.call bob 0 (.claimTask "ship" none)).1 = .ok (.claim r) ∧
    r.claimed = false ∧ progressed.db.findTask 0 "ship" = some t ∧
    r.reason = some "blocked by unfinished dependencies: api, docs" ∧ ¬ progressed.WaitsFor t "api" ∧
    ¬ progressed.Explained bob t "blocked by unfinished dependencies: api, docs" := by
  have hdone : ∀ b ∈ progressed.db.tasks, b.key = "api" → b.status.finished = true := by decide
  have hkeys : ∀ d ∈ progressed.db.taskDeps, ∀ b ∈ progressed.db.tasks, b.id = d.blockedByTaskId →
      b.key ∈ ["api", "docs"] := by decide
  have hnot : ∀ t, ¬ progressed.WaitsFor t "api" := by
    rintro t ⟨d, -, -, b, hb, -, hname, hstatus⟩
    rw [hdone b hb hname] at hstatus
    cases hstatus
  refine ⟨.next ((Pg.Reachable.init 0).after _) _, _, _, rfl, rfl, rfl, rfl, hnot _, fun h => ?_⟩
  obtain ⟨keys, heq, hnodup, hmem⟩ := h.dependencies ⟨["api", "docs"], rfl⟩
  obtain ⟨-, k, hk⟩ := h.blocked.1 ⟨["api", "docs"], rfl⟩
  have hsub : keys ⊆ ["api", "docs"] := by
    intro x hx
    obtain ⟨d, hd, -, b, hb, hid, rfl, -⟩ := (hmem x).1 hx
    exact hkeys d hd b hb hid
  exact blockedText_ne (List.ne_nil_of_mem ((hmem k).2 hk)) hnodup hsub (by simp) (fun hin => hnot _ ((hmem "api").1 hin))
    heq.symm

end
end CrewSync
