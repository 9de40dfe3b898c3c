import CrewSync.Footprint.Calls
import CrewSync.Lib.Lease

/-! Advisory locks as leases: a name that no row has is free, a row is held by its agent and session up to
    its expiry. -/

namespace CrewSync
open Lease
variable [Platform]

/-! ### Cells -/

def Lock.cell (l : Lock) : Cell Identity := .held (some l.holderAgentId, l.holderSession.getD "") (some l.expiresAt)

/-- The lock of the team with the name. -/
def Pg.lockCell (team : Uuid) (name : String) (pg : Pg) : Cell Identity :=
  ((pg.db.findLock team name).map Lock.cell).getD .free

omit [Platform] in
theorem Db.findLock_some {db : Db} {team : Uuid} {name : String} {l : Lock} (h : db.findLock team name = some l) :
    l ∈ db.locks ∧ l.teamId = team ∧ l.name = name := by
  have := List.find?_some h
  simp only [Bool.and_eq_true, beq_iff_eq] at this
  exact ⟨List.mem_of_find?_eq_some h, this⟩

omit [Platform] in
theorem Db.findLock_of_mem {db : Db} {seqs : Seqs} (hk : db.Keys seqs) {team : Uuid} {name : String} {l : Lock}
    (hl : l ∈ db.locks) (hq : (l.teamId == team && l.name == name) = true) : db.findLock team name = some l := by
  refine hk.locks.find?_eq_some hl hq fun r _ hr => ?_
  simp only [Bool.and_eq_true, beq_iff_eq] at hq hr
  simp [Db.lockKey, hq, hr]

omit [Platform] in
theorem Db.findLock_put {db db' : Db} {seqs : Seqs} (hk : db.Keys seqs) {row : Lock} (h : db'.locks = Rows.put lockKey row db.locks) (team : Uuid)
    (name : String) :
    db'.findLock team name = if (row.teamId, row.name) = (team, name) then some row else db.findLock team name := by
  rw [findLock, h]
  exact hk.locks.find?_put fun r => by simp [lockKey]

/-! ### Acquiring -/

/-- The rows that a lock event adds to the outbox. -/
def Pg.lockNotices (pg : Pg) (event : String) (l : Lock) : List Delivery :=
  let holder := pg.db.agentName l.holderAgentId
  pg.enqueued l.teamId .lock s!"lock {l.name} {event}{byHolder holder}"
    [("kind", .str "lock"), ("name", .str l.name), ("event", .str event), ("holder", .opt .str holder)]
    none pg.seqs

section
variable {auth : AuthCtx} {pg : Pg}

omit [Platform] in
theorem lockNotices_write (pg : Pg) (event : String) (l : Lock) (p : Payload) (db : Db) :
    db.write ((enqueueLockWebhook pg event l pg.seqs).2 ++ [.notify p]) =
      { db with deliveries := db.deliveries ++ pg.lockNotices event l, notified := db.notified ++ [p] } := by
  rw [Db.write_append, enqueueLockWebhook, enqueue_write]
  rfl

/-- What `acquire_lock` can answer, and the rows it leaves behind. -/
inductive Acquired (auth : AuthCtx) (name : String) (ttl : Int) (purpose : Option String) (pg : Pg) :
    Except BusError LockResult × Pg → Prop
  | failed (h : pg.db.lockOk (newLock auth name pg.now ttl none) = false) :
      Acquired auth name ttl purpose pg (.error .db, pg)
  | inserted {r : LockResult} {pg' : Pg} (hr : r.acquired = true) (hnone : pg.db.findLock auth.teamId name = none)
      (hlocks : pg'.db.locks = Rows.put Db.lockKey (newLock auth name pg.now ttl purpose) pg.db.locks)
      (hout : pg'.db.deliveries =
        pg.db.deliveries ++ pg.lockNotices "acquired" (newLock auth name pg.now ttl purpose)) :
      Acquired auth name ttl purpose pg (.ok r, pg')
  | updated {r : LockResult} {pg' : Pg} {l : Lock} (hr : r.acquired = true)
      (hl : pg.db.findLock auth.teamId name = some l)
      (hcan : l.expiresAt < pg.now ∨ lockHeldBy auth.agentId auth.session l = true)
      (hlocks : pg'.db.locks = Rows.put Db.lockKey
        (takeLock (newLock auth name pg.now ttl purpose) l (lockHeldBy auth.agentId auth.session l)) pg.db.locks)
      (hout : pg'.db.deliveries = pg.db.deliveries) : Acquired auth name ttl purpose pg (.ok r, pg')
  | refused {r : LockResult} {l : Lock} (hr : r.acquired = false) (hl : pg.db.findLock auth.teamId name = some l)
      (hheld : ¬ (l.expiresAt < pg.now ∨ lockHeldBy auth.agentId auth.session l = true)) :
      Acquired auth name ttl purpose pg (.ok r, pg)

theorem acquireLock_acquired (auth : AuthCtx) (pg : Pg) {raw name : String} (hraw : normalizeName raw = .ok name)
    (ttl : Option Int) (purpose : Option String) :
    Acquired auth name (ttlOf ttl) purpose pg ((acquireLock auth raw ttl purpose).exec pg) := by
  unfold acquireLock
  rw [Bus.exec_bind, Bus.exec_check, hraw]
  simp only
  rw [Bus.exec_bind, Bus.exec_execute]
  simp only [Sql.answer, Sql.effect, acquireStatement]
  cases hok : pg.db.lockOk (newLock auth name pg.now (ttlOf ttl) purpose) with
  | false => exact .failed hok
  | true =>
    simp only [if_true]
    cases hl : pg.db.findLock auth.teamId name with
    | none =>
      refine .inserted rfl hl ?_ ?_
      all_goals simp only [List.cons_append, Db.write_cons, lockNotices_write]
      all_goals rfl
    | some l =>
      simp only
      by_cases hcan : l.expiresAt < pg.now ∨ lockHeldBy auth.agentId auth.session l = true
      · have hif : (decide (l.expiresAt < pg.now) || lockHeldBy auth.agentId auth.session l) = true := by
          simpa using hcan
        simp only [hif, if_true]
        exact .updated rfl hl hcan rfl rfl
      · have hif : (decide (l.expiresAt < pg.now) || lockHeldBy auth.agentId auth.session l) = false := by
          simpa using hcan
        simp only [hif]
        exact .refused rfl hl hcan

omit [Platform] in
theorem lockHeldBy_iff {l : Lock} :
    lockHeldBy auth.agentId auth.session l = true ↔ (some l.holderAgentId, l.holderSession.getD "") = auth.identity := by
  simp [lockHeldBy, AuthCtx.identity, Prod.ext_iff]

omit [Platform] in
theorem lockCell_takeable {name : String} {l : Lock} (hl : pg.db.findLock auth.teamId name = some l) :
    (pg.lockCell auth.teamId name).Takeable pg.now auth.identity ↔
      l.expiresAt < pg.now ∨ lockHeldBy auth.agentId auth.session l = true := by
  simp only [Pg.lockCell, hl, Option.map_some, Option.getD_some, Lock.cell, Cell.Takeable, lockHeldBy_iff,
    Option.mem_def, Option.some.injEq, forall_eq', or_comm]

/-- The same for the cell of the lock. -/
inductive Acquires (auth : AuthCtx) (name : String) (ttl : Int) (pg : Pg) :
    Except BusError LockResult × Pg → Prop
  | failed (h : pg.db.lockOk (newLock auth name pg.now ttl none) = false) : Acquires auth name ttl pg (.error .db, pg)
  | taken {r : LockResult} {pg' : Pg} {row : Lock} (hr : r.acquired = true)
      (hfree : (pg.lockCell auth.teamId name).Takeable pg.now auth.identity)
      (hkey : (row.teamId, row.name) = (auth.teamId, name))
      (hcell : row.cell = .held auth.identity (some (pg.now + secs ttl)))
      (hlocks : pg'.db.locks = Rows.put Db.lockKey row pg.db.locks) : Acquires auth name ttl pg (.ok r, pg')
  | refused {r : LockResult} (hr : r.acquired = false)
      (hheld : ¬ (pg.lockCell auth.teamId name).Takeable pg.now auth.identity) : Acquires auth name ttl pg (.ok r, pg)

theorem acquireLock_acquires (auth : AuthCtx) (pg : Pg) {raw name : String} (hraw : normalizeName raw = .ok name) (ttl : Option Int)
    (purpose : Option String) : Acquires auth name (ttlOf ttl) pg ((acquireLock auth raw ttl purpose).exec pg) := by
  have h := acquireLock_acquired auth pg hraw ttl purpose
  generalize (acquireLock auth raw ttl purpose).exec pg = r at h
  cases h with
  | failed h => exact .failed h
  | inserted hr hnone hlocks _ =>
    refine .taken hr ?_ rfl rfl hlocks
    simp [Pg.lockCell, hnone, Cell.Takeable]
  | updated hr hl hcan hlocks _ => exact .taken hr ((lockCell_takeable hl).2 hcan) rfl rfl hlocks
  | refused hr hl hheld => exact .refused hr ((lockCell_takeable hl).not.2 hheld)

end

/-! ### Releasing -/

section
variable {auth : AuthCtx} {pg : Pg}

omit [Platform] in
theorem Db.filter_ownLock {db : Db} {seqs : Seqs} (hk : db.Keys seqs) {name : String} {l : Lock} (hl : l ∈ db.locks)
    (hown : ownLock auth name l = true) : db.locks.filter (ownLock auth name) = [l] := by
  have hkey : ∀ r, ownLock auth name r = true → lockKey r = (auth.teamId, name) := fun r h => by
    simp only [ownLock, Bool.and_eq_true, beq_iff_eq] at h
    simp [lockKey, h.1]
  exact hk.locks.filter_eq_singleton hl hown fun r _ hr => (hkey r hr).trans (hkey l hown).symm

/-- What `release_lock` does. -/
inductive Released (auth : AuthCtx) (name : String) (pg : Pg) : Except BusError Ack × Pg → Prop
  | gone {ack : Ack} {pg' : Pg} {l : Lock} (hok : ack.ok = true) (hl : pg.db.findLock auth.teamId name = some l)
      (hown : ownLock auth name l = true) (hlocks : pg'.db.locks = Rows.delete (ownLock auth name) pg.db.locks)
      (hout : pg'.db.deliveries = pg.db.deliveries ++ pg.lockNotices "released" l) : Released auth name pg (.ok ack, pg')
  | kept {r : Except BusError Ack} (hr : ∀ ack, r = .ok ack → ack.ok = false)
      (hnone : ∀ l ∈ pg.db.locks, ownLock auth name l = false) : Released auth name pg (r, pg)

theorem releaseLock_released (auth : AuthCtx) (hv : pg.Valid) {raw name : String} (hraw : normalizeName raw = .ok name) :
    Released auth name pg ((releaseLock auth raw).exec pg) := by
  unfold releaseLock
  rw [Bus.exec_bind, Bus.exec_check, hraw]
  simp only
  rw [Bus.exec_bind, Bus.exec_execute]
  simp only [show (releaseLockStatement auth name).answer pg = .ok (pg.db.locks.filter (ownLock auth name)).length
    from rfl]
  by_cases hown : ∃ l ∈ pg.db.locks, ownLock auth name l = true
  · obtain ⟨l, hl, hown⟩ := hown
    have hfilter := Db.filter_ownLock hv.keys hl hown
    have hq : (l.teamId == auth.teamId && l.name == name) = true := (Bool.and_eq_true_iff.1 hown).1
    rw [Bus.exec_ite, if_pos (by simp [hfilter])]
    refine .gone rfl (Db.findLock_of_mem hv.keys hl hq) hown ?_ ?_
    all_goals simp only [Sql.effect, releaseLockStatement, hfilter, lockDeletedTriggers, Db.write_cons, lockNotices_write]
    all_goals rfl
  · have hnone : ∀ l ∈ pg.db.locks, ownLock auth name l = false := by simpa using hown
    have hfilter : pg.db.locks.filter (ownLock auth name) = [] := by simpa [List.filter_eq_nil_iff] using hnone
    have hsame : (releaseLockStatement auth name).effect pg = pg := by
      simp only [Sql.effect, releaseLockStatement, hfilter, lockDeletedTriggers, Db.write_cons, Db.write_nil, Write.apply,
        Rows.delete_eq_self hnone]
    rw [Bus.exec_ite, if_neg (by simp [hfilter]), hsame]
    rw [Bus.exec_bind, Bus.exec_select]
    dsimp only
    split
    · rw [Bus.exec_ite]
      split
      · exact .kept (fun ack h => by cases h) hnone
      · exact .kept (fun ack h => by cases h) hnone
    · exact .kept (fun ack h => by cases h; rfl) hnone

end
end CrewSync
