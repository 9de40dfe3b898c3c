import CrewSync.Theorems.ClaimPaths

/-! Who ends a claim. The `WHERE` clause of `complete_task` does not ask who holds the task, so a completion by anybody
    of the team ends a live claim; as long as there is none, the claim stays and its holder completes the task. -/

namespace CrewSync
section
variable [Platform]

/-- The holder itself releases or completes the task. -/
def Event.givesUp (holder : AuthCtx) (key : String) : Event → Bool
  | .call auth _ (.releaseTask raw) => auth.identity == holder.identity && decide (normalizeKey raw = .ok key)
  | .call auth _ (.completeTask raw _) => auth.identity == holder.identity && decide (normalizeKey raw = .ok key)
  | _ => false

/-- Another agent of the team, or another session of the holder, completes the task. -/
def Event.outsider (holder : AuthCtx) (key : String) : Event → Bool
  | .call auth _ (.completeTask raw _) =>
    auth.teamId == holder.teamId && auth.identity != holder.identity && decide (normalizeKey raw = .ok key)
  | _ => false

namespace Pg

/-- The caller of a completion is authenticated, and its result is within the limit. -/
def accepts (pg : Pg) : Event → Bool
  | .call auth _ (.completeTask _ result) =>
    auth.authentic pg.db && (checkTextOpt "task result" result maxResultBytes).toOption.isSome
  | _ => false

/-- The session of the caller holds the task with the key. -/
def HoldsKey (pg : Pg) (holder : AuthCtx) (key : String) : Prop :=
  ∃ t, pg.db.findTask holder.teamId key = some t ∧ pg.Holds holder t

/-- The call is refused, and leaves the task as it is. -/
def Refused (pg : Pg) (holder : AuthCtx) (key : String) (e : Event) : Prop :=
  (pg.next e).db.findTask holder.teamId key = pg.db.findTask holder.teamId key ∧
    ∀ auth pid c, e = .call auth pid c → ∃ err, (pg.call auth pid c).1 = .error err

end Pg

section
variable {pg : Pg} {auth holder : AuthCtx} {key : String} {t : Task}

/-! ### A completion -/

/-- A completion of a task that is not finished goes through. -/
theorem completeTask_done (hv : pg.Valid) (hc : Caller auth.agentId auth.teamId pg.db) {raw : String}
    {result result' : Option String} (hfind : pg.db.findTask auth.teamId key = some t)
    (hs : t.status = .«open» ∨ t.status = .claimed) (hkey : normalizeKey raw = .ok key)
    (hresult : checkTextOpt "task result" result maxResultBytes = .ok result') :
    ∃ info pg', (completeTask auth raw result).exec pg = (.ok info, pg') ∧ pg'.db.findTask auth.teamId key =
      some { t with status := .done, result := result', leaseExpiresAt := none, updatedAt := pg.now } := by
  obtain ⟨ht, hteam, htkey⟩ := Db.findTask_some hfind
  have hp : ∀ r ∈ pg.db.tasks, (r.teamId == auth.teamId && r.key == key &&
      (r.status == .«open» || r.status == .claimed)) = true ↔ r = t := by
    intro r hr
    simp only [Bool.and_eq_true, Bool.or_eq_true, beq_iff_eq]
    constructor
    · rintro ⟨⟨hrteam, hrkey⟩, -⟩
      exact hv.keys.taskKeys.eq hr ht (Prod.ext (hrteam.trans hteam.symm) (hrkey.trans htkey.symm))
    · rintro rfl
      exact ⟨⟨hteam, htkey⟩, hs⟩
  have hok : pg.db.taskOk { t with status := .done, result := result', leaseExpiresAt := none, updatedAt := pg.now } = true :=
    hv.refs.tasks t ht
  have exec : ∀ rest : Option (Uuid × String) → Bus TaskInfo,
      rest (some (t.id, t.key)) = (do logEvent t.id auth.agentId "completed" result'; fetchTask auth key) →
      ∃ info pg', (execute (.update .tasks) (completeStatement auth key result') >>= rest).exec pg = (.ok info, pg') ∧
        pg'.db.findTask auth.teamId key =
          some { t with status := .done, result := result', leaseExpiresAt := none, updatedAt := pg.now } := by
    intro rest hrest
    have hset : completeStatement auth key result' pg = updateTask
        (fun r => r.teamId == auth.teamId && r.key == key && (r.status == .«open» || r.status == .claimed))
        (fun r => { r with status := .done, result := result', leaseExpiresAt := none, updatedAt := pg.now }) pg := rfl
    obtain ⟨pg', he, -, hfind'⟩ := updateThenLog_exec (.update .tasks) hv hc hset (fun _ => ⟨rfl, rfl⟩) ht hp hok hrest
    have hdone : pg'.db.findTask auth.teamId key =
        some { t with status := .done, result := result', leaseExpiresAt := none, updatedAt := pg.now } := by
      rw [← hteam, ← htkey]
      exact hfind'
    rw [he, fetchTask_exec, hdone]
    exact ⟨_, _, rfl, hdone⟩
  unfold completeTask
  rw [Bus.exec_bind, Bus.exec_check, hkey]
  simp only
  rw [Bus.exec_bind, Bus.exec_check, hresult]
  exact exec _ rfl

omit [Platform] in
theorem result_of_accepts {result : Option String}
    (h : (checkTextOpt "task result" result maxResultBytes).toOption.isSome = true) :
    ∃ result', checkTextOpt "task result" result maxResultBytes = .ok result' := by
  cases hr : checkTextOpt "task result" result maxResultBytes with
  | error e =>
    rw [hr] at h
    cases h
  | ok result' => exact ⟨result', rfl⟩

/-- A completion that the server accepts ends the claim, whoever makes it. -/
theorem completed_of_accepts (hv : pg.Valid) (hheld : pg.HoldsKey holder key) {e : Event}
    (hout : e.outsider holder key = true) (haccepts : pg.accepts e = true) : ¬ pg.Refused holder key e := by
  obtain ⟨t, hfind, hholds⟩ := hheld
  unfold Event.outsider at hout
  split at hout
  · next auth pid raw result =>
    simp only [Bool.and_eq_true, beq_iff_eq, bne_iff_ne, decide_eq_true_eq] at hout
    obtain ⟨⟨hteam, -⟩, hkey⟩ := hout
    obtain ⟨hauth, hresult⟩ := Bool.and_eq_true_iff.1 haccepts
    obtain ⟨result', hresult'⟩ := result_of_accepts hresult
    rw [← hteam] at hfind
    obtain ⟨info, pg', hexec, -⟩ := completeTask_done hv (AuthCtx.authentic.caller hauth) hfind (.inr hholds.claimed) hkey
      hresult'
    rintro ⟨-, herr⟩
    obtain ⟨err, herr⟩ := herr _ _ _ rfl
    rw [Pg.call, if_pos hauth, Call.run, Bus.exec_map, hexec] at herr
    cases herr
  · cases hout

/-- A completion that the server does not accept is refused. -/
theorem refused_of_not_accepts {e : Event} (hout : e.outsider holder key = true) (haccepts : pg.accepts e = false) :
    pg.Refused holder key e := by
  unfold Event.outsider at hout
  split at hout
  · next auth pid raw result =>
    have hcall : ∃ err, pg.call auth pid (.completeTask raw result) = (.error err, pg) := by
      by_cases hauth : auth.authentic pg.db = true
      swap
      · exact ⟨_, by rw [Pg.call, if_neg hauth]⟩
      simp only [Bool.and_eq_true, beq_iff_eq, bne_iff_ne, decide_eq_true_eq] at hout
      have hresult : ∃ err, checkTextOpt "task result" result maxResultBytes = .error err := by
        cases hr : checkTextOpt "task result" result maxResultBytes with
        | error err => exact ⟨err, rfl⟩
        | ok result' => simp [Pg.accepts, hauth, hr, Except.toOption] at haccepts
      obtain ⟨err, hresult⟩ := hresult
      refine ⟨err, ?_⟩
      rw [Pg.call, if_pos hauth, Call.run, Bus.exec_map]
      unfold completeTask
      rw [Bus.exec_bind, Bus.exec_check, hout.2]
      simp only
      rw [Bus.exec_bind, Bus.exec_check, hresult]
      rfl
    obtain ⟨err, hcall⟩ := hcall
    refine ⟨by rw [Pg.next, hcall], fun auth' pid' c' he => ?_⟩
    cases he
    exact ⟨err, by rw [hcall]⟩
  · cases hout

/-! ### A live claim -/

theorem Pg.HoldsKey.next (hpg : pg.Reachable) (hheld : pg.HoldsKey holder key) {e : Event}
    (hkeeps : e.givesUp holder key = false) (hout : ¬ (e.outsider holder key = true ∧ pg.accepts e = true))
    (hlive : (pg.next e).leasePast holder.teamId key = false) : (pg.next e).HoldsKey holder key := by
  obtain ⟨t, hfind, hholds⟩ := hheld
  have hv := hpg.valid
  -- It is enough that the holder stays in the row: its lease has not passed.
  suffices h : ∃ t', (pg.next e).db.findTask holder.teamId key = some t' ∧ t'.status = .claimed ∧
      t'.claimedBy = some holder.agentId ∧ t'.claimedSession.getD "" = holder.session by
    obtain ⟨t', hfind', hs, hagent, hsession⟩ := h
    refine ⟨t', hfind', hs, hagent, hsession, fun x hx hlt => ?_⟩
    simp [Pg.leasePast, hfind', hx, hlt] at hlive
  obtain ⟨ht, hteam, htkey⟩ := Db.findTask_some hfind
  rcases Pg.next_tasks hv e with htasks | ⟨-, -, -, htasks⟩ | @⟨auth, pid, c, p, f, rfl, hauth, hchange, htasks⟩
  · exact ⟨t, by rw [Db.findTask, htasks]; exact hfind, hholds.claimed, hholds.agent, hholds.session⟩
  · refine ⟨t, ?_, hholds.claimed, hholds.agent, hholds.session⟩
    rw [Db.findTask] at hfind
    rw [Db.findTask, htasks, List.find?_append, hfind]
    rfl
  · rw [Db.findTask_update holder.teamId key htasks fun t => (hchange.key t).2.1, hfind, Option.map_some]
    refine ⟨_, rfl, ?_⟩
    split
    swap
    · exact ⟨hholds.claimed, hholds.agent, hholds.session⟩
    next hp =>
    obtain ⟨-, -, -, ⟨x, hx, -⟩, -⟩ := (hpg.wellFormed t ht).claimed hholds.claimed
    have hunexpired : (t.leaseExpiresAt.any (· < pg.now)) = false := by
      simpa [hx] using hholds.live x hx
    have same : ∀ {a : AuthCtx}, heldBy a.agentId a.session t = true → a.identity = holder.identity := fun {a} h => by
      rw [AuthCtx.identity, AuthCtx.identity, ← heldBy_iff.1 h, hholds.agent, hholds.session]
    cases hchange with
    | claim lease hkey =>
      have hlease : t.leaseExpiresAt.isNone = false := by rw [hx]; rfl
      simp only [claimable, hunexpired, hlease, hholds.claimed, Bool.and_eq_true, Bool.or_false, Bool.or_eq_true,
        beq_iff_eq, reduceCtorEq, false_or] at hp
      obtain ⟨hagent, hsession⟩ := Prod.mk.inj (same hp.1.2)
      exact ⟨rfl, hagent, hsession⟩
    | claimNext lease =>
      have hav := candidate_available hv ht hp
      simp [available, hunexpired, hholds.claimed] at hav
    | renew => exact ⟨hholds.claimed, hholds.agent, hholds.session⟩
    | release hkey =>
      obtain ⟨-, hk, -, hheldBy⟩ := Pg.ownClaim_iff.1 hp
      obtain rfl := htkey.symm.trans hk
      simp [Event.givesUp, same (heldBy_iff.2 hheldBy), hkey] at hkeeps
    | complete hkey hresult =>
      simp only [Bool.and_eq_true, beq_iff_eq] at hp
      obtain rfl := htkey.symm.trans hp.1.2
      by_cases hown : auth.identity = holder.identity
      · simp [Event.givesUp, hown, hkey] at hkeeps
      · refine absurd ⟨?_, ?_⟩ hout
        · simp [Event.outsider, hp.1.1.symm.trans hteam, hown, hkey]
        · simp [Pg.accepts, hauth, hresult, Except.toOption]

/-! ### Runs -/

/-- The holder does not give the task up, and its lease has not passed. -/
def Pg.Working (holder : AuthCtx) (key : String) (pg : Pg) (e : Event) : Prop :=
  pg.leasePast holder.teamId key = false ∧ e.givesUp holder key = false

/-- Nobody else completes the task. -/
def Pg.Undisturbed (holder : AuthCtx) (key : String) (pg : Pg) (e : Event) : Prop :=
  ¬ (e.outsider holder key = true ∧ pg.accepts e = true)

instance (e : Event) : Decidable (pg.Working holder key e) := inferInstanceAs (Decidable (_ ∧ _))

instance (e : Event) : Decidable (pg.Undisturbed holder key e) := inferInstanceAs (Decidable (¬ _))

theorem leasePast_of_along {es : List Event} (hrun : Runs.Along Pg.next (Pg.Working holder key) pg es)
    (hend : (pg.after es).leasePast holder.teamId key = false) : pg.leasePast holder.teamId key = false := by
  cases es with
  | nil => exact hend
  | cons e es => exact hrun.1.1

/-- As long as nobody else completes the task, the holder has it. -/
theorem held_of_undisturbed (hpg : pg.Reachable) (hheld : pg.HoldsKey holder key) {es : List Event}
    (hrun : Runs.Along Pg.next (Pg.Working holder key) pg es)
    (hend : (pg.after es).leasePast holder.teamId key = false)
    (h : Runs.Along Pg.next (Pg.Undisturbed holder key) pg es) :
    (pg.after es).Reachable ∧ (pg.after es).HoldsKey holder key := by
  induction es generalizing pg with
  | nil => exact ⟨hpg, hheld⟩
  | cons e es ih =>
    exact ih (hpg.next e) (hheld.next hpg hrun.1.2 h.1 (leasePast_of_along hrun.2 hend)) hrun.2 hend h.2

/-- Nobody else completes the task in a run that refuses every such completion. -/
theorem undisturbed_of_refused (hpg : pg.Reachable) (hheld : pg.HoldsKey holder key) {es : List Event}
    (hrun : Runs.Along Pg.next (Pg.Working holder key) pg es)
    (hend : (pg.after es).leasePast holder.teamId key = false)
    (h : Runs.Along Pg.next (fun pg e => e.outsider holder key = true → pg.Refused holder key e) pg es) :
    Runs.Along Pg.next (Pg.Undisturbed holder key) pg es := by
  induction es generalizing pg with
  | nil => trivial
  | cons e es ih =>
    have hfirst : pg.Undisturbed holder key e := fun ⟨hout, haccepts⟩ =>
      completed_of_accepts hpg.valid hheld hout haccepts (h.1 hout)
    exact ⟨hfirst, ih (hpg.next e) (hheld.next hpg hrun.1.2 hfirst (leasePast_of_along hrun.2 hend)) hrun.2 hend h.2⟩

/-- In a run in which the lease of the holder does not pass and the holder does not give the task up, every completion
    by somebody else is refused if and only if the server accepts none. Then the holder still has the task at the end,
    its own completion goes through, and the result is its own. -/
theorem completion_refused_iff (hpg : pg.Reachable) (hheld : pg.HoldsKey holder key) {es : List Event}
    (hrun : Runs.Along Pg.next (Pg.Working holder key) pg es)
    (hend : (pg.after es).leasePast holder.teamId key = false) :
    (Runs.Along Pg.next (fun pg e => e.outsider holder key = true → pg.Refused holder key e) pg es ↔
        Runs.Along Pg.next (Pg.Undisturbed holder key) pg es) ∧
      (Runs.Along Pg.next (Pg.Undisturbed holder key) pg es →
        (pg.after es).HoldsKey holder key ∧ ∀ pid raw result result',
          holder.authentic (pg.after es).db = true → normalizeKey raw = .ok key →
          checkTextOpt "task result" result maxResultBytes = .ok result' →
          (∃ info, ((pg.after es).call holder pid (.completeTask raw result)).1 = .ok (.task info)) ∧
            ∃ t, ((pg.after es).call holder pid (.completeTask raw result)).2.db.findTask holder.teamId key = some t ∧
              t.status = .done ∧ t.claimedBy = some holder.agentId ∧ t.result = result') := by
  refine ⟨⟨undisturbed_of_refused hpg hheld hrun hend, fun h => h.imp fun s e hs hout => ?_⟩, fun h => ?_⟩
  · exact refused_of_not_accepts hout (by simpa using fun haccepts => hs ⟨hout, haccepts⟩)
  · obtain ⟨hreach, hheld'⟩ := held_of_undisturbed hpg hheld hrun hend h
    refine ⟨hheld', fun pid raw result result' hauth hkey hresult => ?_⟩
    obtain ⟨t, hfind, hholds⟩ := hheld'
    obtain ⟨info, pg', hexec, hdone⟩ := completeTask_done hreach.valid (AuthCtx.authentic.caller hauth) hfind
      (.inr hholds.claimed) hkey hresult
    rw [Pg.call, if_pos hauth, Call.run, Bus.exec_map, hexec]
    exact ⟨⟨info, rfl⟩, _, hdone, rfl, hholds.agent, rfl⟩

end
end

section
open Sample
attribute [local instance] Platform.ascii

/-- Ann has claimed the task. -/
def claimedTask : Pg := Pg.oneTask.next (.call ann 0 (.claimTask "t1" (some 60)))

theorem claimedTask_held : claimedTask.HoldsKey ann "t1" :=
  ⟨claimedTask.db.tasks[0], by decide, by decide, by decide, by decide, by decide⟩

/-- Bob may not release the task, and nobody completes it. -/
def undisturbed : List Event := [.call bob 0 (.releaseTask "t1"), .tick 1000000]

theorem ann_completes : ∃ t,
    ((claimedTask.after undisturbed).call ann 0 (.completeTask "t1" (some "by ann"))).2.db.findTask 0 "t1" = some t ∧
      t.status = .done ∧ t.claimedBy = some 1 ∧ t.result = some "by ann" :=
  ((@completion_refused_iff Platform.ascii claimedTask ann "t1" (((Pg.Reachable.init 0).after _).next _) claimedTask_held
    undisturbed (by decide) (by decide)).2 (by decide)).2 0 "t1" (some "by ann") (some "by ann") (by decide) (by decide)
      (by decide) |>.2

/-- Bob completes the task that ann holds; her own completion is refused, and his result stays. -/
theorem bob_completes : claimedTask.HoldsKey ann "t1" ∧
    (claimedTask.call bob 0 (.completeTask "t1" (some "by bob"))).1.isOk = true ∧
      let pg := claimedTask.next (.call bob 0 (.completeTask "t1" (some "by bob")))
      (pg.call ann 0 (.completeTask "t1" (some "by ann"))).1.isOk = false ∧
        (pg.next (.call ann 0 (.completeTask "t1" (some "by ann")))).db.tasks.map (·.result) = [some "by bob"] :=
  ⟨claimedTask_held, by decide, by decide, by decide⟩

end
end CrewSync
