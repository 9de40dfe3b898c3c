import CrewSync.Theorems.LockLease
import CrewSync.Theorems.TaskRows
import CrewSync.Theorems.ClaimPaths

/-! What the calls that extend a lease make of its expiry: the time of the call and the period asked for, whatever is
    left of the lease. -/

namespace CrewSync
open Lease
variable [Platform]

/-- The calls that are said to extend what the caller holds. -/
inductive Renewal where
  | renewTaskLease (key : String) (leaseSeconds : Option Int)
  | claimTask (key : String) (leaseSeconds : Option Int)
  | acquireLock (name : String) (ttlSeconds : Option Int) (purpose : Option String)

namespace Renewal

def call : Renewal → Call
  | .renewTaskLease key lease => .renewTaskLease key lease
  | .claimTask key lease => .claimTask key lease
  | .acquireLock name ttl purpose => .acquireLock name ttl purpose

/-- The task or the lock that the call is about. -/
def cell (team : Uuid) (pg : Pg) : Renewal → Cell Identity
  | .renewTaskLease raw _ | .claimTask raw _ =>
    match normalizeKey raw with
    | .ok key => pg.taskCell team key
    | .error _ => .free
  | .acquireLock raw _ _ =>
    match normalizeName raw with
    | .ok name => pg.lockCell team name
    | .error _ => .free

/-- The seconds that the call grants: those asked for or the default, within the bounds. -/
def granted : Renewal → Int
  | .renewTaskLease _ lease | .claimTask _ lease => leaseOf lease
  | .acquireLock _ ttl _ => ttlOf ttl

end Renewal

section
variable {auth : AuthCtx} {pg : Pg} {key name : String} {e : Time}

omit [Platform] in
/-- The row of a claim that the caller holds. -/
theorem taskCell_held (h : pg.taskCell auth.teamId key = .held auth.identity (some e)) :
    ∃ t ∈ pg.db.tasks, pg.db.findTask auth.teamId key = some t ∧ ownClaim auth key t = true := by
  unfold Pg.taskCell at h
  cases hfind : pg.db.findTask auth.teamId key with
  | none => simp [hfind] at h
  | some t =>
    obtain ⟨ht, hteam, hkey⟩ := Db.findTask_some hfind
    rw [hfind, Option.map_some, Option.getD_some] at h
    have hclaimed : t.status = .claimed := by
      cases hs : t.status <;> simp [Task.cell, hs] at h
      rfl
    simp only [Task.cell, hclaimed, Cell.held.injEq] at h
    refine ⟨t, ht, rfl, ?_⟩
    simp only [ownClaim, hteam, hkey, hclaimed, beq_self_eq_true, Bool.true_and]
    exact heldBy_iff.2 h.1

omit [Platform] in
/-- An `UPDATE` that sets a lease of the caller on its claim. -/
theorem taskCell_set {pg' : Pg} {p : Task → Bool} {f : Task → Task} {t : Task} {e' : Time}
    (h : pg'.db.tasks = Rows.update p f pg.db.tasks) (hf : ∀ t, Db.taskKey (f t) = Db.taskKey t)
    (hfind : pg.db.findTask auth.teamId key = some t) (hp : p t = true)
    (hcell : (f t).cell = .held auth.identity (some e')) :
    pg'.taskCell auth.teamId key = .held auth.identity (some e') := by
  rw [Pg.taskCell, Db.findTask_update auth.teamId key h hf, hfind, Option.map_some, if_pos hp, Option.map_some,
    Option.getD_some, hcell]

theorem renewLease_expiry (hv : pg.Valid) {raw : String} (hkey : normalizeKey raw = .ok key) (lease : Option Int)
    (hheld : pg.taskCell auth.teamId key = .held auth.identity (some e)) :
    ((renewLease auth raw lease).exec pg).2.taskCell auth.teamId key =
      .held auth.identity (some (pg.now + secs (leaseOf lease))) := by
  obtain ⟨t, ht, hfind, hown⟩ := taskCell_held hheld
  have htasks : ((renewLease auth raw lease).exec pg).2.db.tasks = Rows.update (ownClaim auth key)
      (fun t => { t with leaseExpiresAt := some (pg.now + secs (leaseOf lease)), updatedAt := pg.now }) pg.db.tasks := by
    unfold renewLease
    rw [Bus.exec_bind, Bus.exec_check, hkey]
    dsimp only
    have hs : renewStatement auth key (leaseOf lease) pg = updateTask (ownClaim auth key)
      (fun t => { t with leaseExpiresAt := some (pg.now + secs (leaseOf lease)), updatedAt := pg.now }) pg := rfl
    rcases updateThen_exec (.update .tasks) _ hs with ⟨hfail, -⟩ | ⟨pg', hu, he⟩
    · exact absurd hfail (updateTask_answer_ne fun r hr _ => hv.refs.tasks r hr)
    obtain ⟨r, hr⟩ : ∃ r, (pg.db.tasks.filter (ownClaim auth key)).head? = some r :=
      Option.isSome_iff_exists.1 (List.isSome_head?.2 (List.ne_nil_of_mem (List.mem_filter.2 ⟨ht, hown⟩)))
    rw [he, hr, Option.map_some, fetchTask_exec, hu.tasks]
  refine taskCell_set htasks (fun _ => rfl) hfind hown ?_
  simp only [ownClaim, Bool.and_eq_true, beq_iff_eq] at hown
  simp only [Task.cell, hown.1.2, heldBy_iff.1 hown.2]
  rfl

theorem claimTask_expiry (hpg : pg.Reachable) (hauth : auth.authentic pg.db = true) {raw : String}
    (hkey : normalizeKey raw = .ok key) (lease : Option Int)
    (hheld : pg.taskCell auth.teamId key = .held auth.identity (some e)) :
    ((claimTask auth raw lease).exec pg).2.taskCell auth.teamId key =
      .held auth.identity (some (pg.now + secs (leaseOf lease))) := by
  obtain ⟨t, ht, hfind, hown⟩ := taskCell_held hheld
  simp only [ownClaim, Bool.and_eq_true, beq_iff_eq] at hown
  obtain ⟨⟨⟨hteam, hname⟩, hclaimed⟩, hmine⟩ := hown
  -- The caller's own claim is never blocked.
  have hclaimable : claimable auth key pg t = true := by
    simp [claimable, hteam, hname, hclaimed, hmine, hpg.unblocked t ht hclaimed]
  have hgrants := claimTask_grants hpg.valid (AuthCtx.authentic.caller hauth) hkey lease
  cases hsearch : pg.db.tasks.find? (claimable auth key pg) with
  | none => exact absurd hclaimable (List.find?_eq_none.1 hsearch t ht)
  | some t' =>
    rw [hsearch] at hgrants
    obtain ⟨info, pg', he, -, htasks⟩ := hgrants
    rw [he]
    exact taskCell_set htasks (setClaimed_key auth _ pg.now) hfind hclaimable rfl

theorem acquireLock_expiry (hv : pg.Valid) {raw : String} (hname : normalizeName raw = .ok name) (ttl : Option Int)
    (purpose : Option String) (hheld : pg.lockCell auth.teamId name = .held auth.identity (some e)) :
    ((acquireLock auth raw ttl purpose).exec pg).2.lockCell auth.teamId name =
      .held auth.identity (some (pg.now + secs (ttlOf ttl))) := by
  have hcan : (pg.lockCell auth.teamId name).Takeable pg.now auth.identity := by
    rw [hheld]
    exact .inl rfl
  obtain ⟨l, hl, hcell⟩ : ∃ l, pg.db.findLock auth.teamId name = some l ∧ l.cell = .held auth.identity (some e) := by
    unfold Pg.lockCell at hheld
    cases hl : pg.db.findLock auth.teamId name with
    | none => simp [hl] at hheld
    | some l => exact ⟨l, rfl, by simpa [hl] using hheld⟩
  obtain ⟨hmem, hteam, -⟩ := Db.findLock_some hl
  have hacquires := acquireLock_acquires auth pg hname ttl purpose
  generalize (acquireLock auth raw ttl purpose).exec pg = r at hacquires ⊢
  cases hacquires with
  | failed hfail =>
    obtain ⟨hhas, hin⟩ := Db.lockOk_iff.1 (hv.refs.locks l hmem)
    simp only [Lock.cell, AuthCtx.identity, Cell.held.injEq, Prod.mk.injEq, Option.some.injEq] at hcell
    rw [hteam] at hhas hin
    rw [hcell.1.1] at hin
    have hok : pg.db.lockOk (newLock auth name pg.now (ttlOf ttl) none) = true := Db.lockOk_iff.2 ⟨hhas, hin⟩
    exact absurd hok (by simp [hfail])
  | taken _ _ hkey hrow hlocks =>
    rw [Pg.lockCell, Db.findLock_put hv.keys hlocks, if_pos hkey, Option.map_some, Option.getD_some, hrow]
  | refused _ hnot => exact absurd hcan hnot

/-- What the holder of a task or a lock is left with after the call. -/
theorem Renewal.expiry (hpg : pg.Reachable) (hauth : auth.authentic pg.db = true) (pid : Nat) (r : Renewal)
    (hheld : r.cell auth.teamId pg = .held auth.identity (some e)) :
    r.cell auth.teamId (pg.next (.call auth pid r.call)) = .held auth.identity (some (pg.now + secs r.granted)) := by
  rw [Pg.next, Pg.call, if_pos hauth]
  cases r with
  | renewTaskLease raw lease =>
    simp only [Renewal.cell, Renewal.call, Call.run, Bus.exec_map, Renewal.granted] at hheld ⊢
    cases hkey : normalizeKey raw with
    | error _ => simp [hkey] at hheld
    | ok key =>
      simp only [hkey] at hheld ⊢
      exact renewLease_expiry hpg.valid hkey lease hheld
  | claimTask raw lease =>
    simp only [Renewal.cell, Renewal.call, Call.run, Bus.exec_map, Renewal.granted] at hheld ⊢
    cases hkey : normalizeKey raw with
    | error _ => simp [hkey] at hheld
    | ok key =>
      simp only [hkey] at hheld ⊢
      exact claimTask_expiry hpg hauth hkey lease hheld
  | acquireLock raw ttl purpose =>
    simp only [Renewal.cell, Renewal.call, Call.run, Bus.exec_map, Renewal.granted] at hheld ⊢
    cases hname : normalizeName raw with
    | error _ => simp [hname] at hheld
    | ok name =>
      simp only [hname] at hheld ⊢
      exact acquireLock_expiry hpg.valid hname ttl purpose hheld

/-- The call keeps the expiry from moving back exactly if no more is left of the lease than the call grants. -/
theorem renewing_iff (hpg : pg.Reachable) (hauth : auth.authentic pg.db = true) (pid : Nat) (r : Renewal)
    (hheld : r.cell auth.teamId pg = .held auth.identity (some e)) :
    (∃ e', r.cell auth.teamId (pg.next (.call auth pid r.call)) = .held auth.identity (some e') ∧ e ≤ e') ↔
      e ≤ pg.now + secs r.granted := by
  rw [r.expiry hpg hauth pid hheld]
  constructor
  · rintro ⟨e', he, hle⟩
    cases he
    exact hle
  · exact fun hle => ⟨_, rfl, hle⟩

end
end CrewSync

namespace CrewSync
open Sample Lease
attribute [local instance] Platform.ascii

/-- Ann takes a task for a day. -/
def claimedForADay : Pg :=
  (Pg.init 0).after (crew ++ [
    .call ann 0 (.createTask { key := "build", title := "build", description := none, metadata := none, dependsOn := [] }),
    .call ann 0 (.claimTask "build" (some 86400))])

theorem claimedForADay_renewed :
    (∃ e', (Renewal.renewTaskLease "build" (some 86400)).cell ann.teamId
        (claimedForADay.next (.call ann 0 (.renewTaskLease "build" (some 86400)))) = .held ann.identity (some e') ∧
        86400000000 ≤ e') ↔
      86400000000 ≤ claimedForADay.now + secs (Renewal.renewTaskLease "build" (some 86400)).granted :=
  @renewing_iff Platform.ascii ann claimedForADay 86400000000 ((Pg.Reachable.init 0).after _) (by decide) 0
    (.renewTaskLease "build" (some 86400)) (by rfl)

/-- A renewal that names no period leaves her with a quarter of an hour. -/
theorem renewing_shortens : ¬ ∀ (pg : Pg) (auth : AuthCtx) (pid : Nat) (r : Renewal) (e : Time), pg.Reachable →
    auth.authentic pg.db = true → r.cell auth.teamId pg = .held auth.identity (some e) → pg.now ≤ e →
    ∃ e', r.cell auth.teamId (pg.next (.call auth pid r.call)) = .held auth.identity (some e') ∧ e ≤ e' := by
  intro h
  obtain ⟨e', he, hle⟩ := h claimedForADay ann 0 (.renewTaskLease "build" none) 86400000000 ((Pg.Reachable.init 0).after _)
    (by decide) (by rfl) (by decide)
  have hcell : (Renewal.renewTaskLease "build" none).cell ann.teamId
      (claimedForADay.next (.call ann 0 (.renewTaskLease "build" none))) = .held ann.identity (some 900000000) := by rfl
  rw [Renewal.call, hcell] at he
  cases he
  exact absurd hle (by decide)

end CrewSync
