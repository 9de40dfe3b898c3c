import CrewSync.Theorems.LockLease

/-! An advisory lock is exclusive to an agent and its session until its expiry or its release, and never
    stays taken for more than a day after it was last acquired. -/

namespace CrewSync
open Lease

/-- The name of the lock is written `raw`. -/
def named [Platform] (name raw : String) : Bool :=
  match normalizeName raw with
  | .ok n => n == name
  | .error _ => false

theorem named_iff [Platform] {name raw : String} : named name raw = true ↔ normalizeName raw = .ok name := by
  unfold named
  split <;> simp_all

namespace Pg
section
variable [Platform]

/-- The call is answered `acquired = true` for the lock `name`. -/
def acquired (pg : Pg) (auth : AuthCtx) (pid : Nat) (name : String) : Call → Bool
  | .acquireLock raw ttl purpose => named name raw &&
      match (pg.call auth pid (.acquireLock raw ttl purpose)).1 with
      | .ok (.lock r) => r.acquired
      | _ => false
  | _ => false

/-- The event is such a call in the team. -/
def lockTaken (team : Uuid) (name : String) (pg : Pg) : Event → Bool
  | .call auth pid c => auth.teamId == team && pg.acquired auth pid name c
  | _ => false

/-- The event is a release of the lock that is answered `ok = true`. -/
def lockReleased (team : Uuid) (name : String) (pg : Pg) : Event → Bool
  | .call auth pid (.releaseLock raw) => auth.teamId == team && named name raw &&
      match (pg.call auth pid (.releaseLock raw)).1 with
      | .ok (.ack a) => a.ok
      | _ => false
  | _ => false

/-- The clock is past the expiry of the lock. -/
def lockPast (team : Uuid) (name : String) (pg : Pg) : Bool :=
  (pg.db.findLock team name).any fun l => l.expiresAt < pg.now

/-! ### Steps -/

/-- What an event does to the row of a lock. -/
inductive RowStep (team : Uuid) (name : String) (pg : Pg) (e : Event) : Prop
  | kept (h : (pg.next e).db.findLock team name = pg.db.findLock team name)
  | inserted (auth : AuthCtx) (pid : Nat) (raw : String) (ttl : Option Int) (purpose : Option String)
      (he : e = .call auth pid (.acquireLock raw ttl purpose)) (htaken : pg.lockTaken team name e = true)
      (hnone : pg.db.findLock team name = none)
      (hrow : (pg.next e).db.findLock team name = some (newLock auth name pg.now (ttlOf ttl) purpose))
  | updated (auth : AuthCtx) (pid : Nat) (raw : String) (ttl : Option Int) (purpose : Option String)
      (he : e = .call auth pid (.acquireLock raw ttl purpose)) (htaken : pg.lockTaken team name e = true)
      {l : Lock} (hl : pg.db.findLock team name = some l)
      (hcan : l.expiresAt < pg.now ∨ lockHeldBy auth.agentId auth.session l = true)
      (hrow : (pg.next e).db.findLock team name = some
        (takeLock (newLock auth name pg.now (ttlOf ttl) purpose) l (lockHeldBy auth.agentId auth.session l)))
  | released (auth : AuthCtx) (pid : Nat) (raw : String) (he : e = .call auth pid (.releaseLock raw))
      (hreleased : pg.lockReleased team name e = true) {l : Lock} (hl : pg.db.findLock team name = some l)
      (hown : lockHeldBy auth.agentId auth.session l = true) (hgone : (pg.next e).db.findLock team name = none)

variable {pg : Pg} {team : Uuid} {name : String}

theorem call_acquire {auth : AuthCtx} (ha : auth.authentic pg.db = true) (pid : Nat) (raw : String) (ttl : Option Int)
    (purpose : Option String) : pg.call auth pid (.acquireLock raw ttl purpose) =
      (((acquireLock auth raw ttl purpose).exec pg).1.map .lock, ((acquireLock auth raw ttl purpose).exec pg).2) := by
  rw [call, if_pos ha]
  exact Bus.exec_map ..

theorem call_release {auth : AuthCtx} (ha : auth.authentic pg.db = true) (pid : Nat) (raw : String) :
    pg.call auth pid (.releaseLock raw) =
      (((releaseLock auth raw).exec pg).1.map .ack, ((releaseLock auth raw).exec pg).2) := by
  rw [call, if_pos ha]
  exact Bus.exec_map ..

omit [Platform] in
theorem lockOk_of_authentic {auth : AuthCtx} (ha : auth.authentic pg.db = true) (name : String) (ttl : Int) :
    pg.db.lockOk (newLock auth name pg.now ttl none) = true := by
  obtain ⟨t, ht, h⟩ := List.any_eq_true.1 (Bool.and_eq_true_iff.1 ha).2
  simp only [Bool.and_eq_true] at h
  exact Db.lockOk_iff.2 ⟨List.any_eq_true.2 ⟨t, ht, h.1⟩, AuthCtx.authentic.caller ha⟩

theorem acquired_named {auth : AuthCtx} {pid : Nat} {raw : String} {ttl : Option Int} {purpose : Option String}
    (h : pg.acquired auth pid name (.acquireLock raw ttl purpose) = true) :
    auth.authentic pg.db = true ∧ normalizeName raw = .ok name := by
  obtain ⟨hraw, hr⟩ := Bool.and_eq_true_iff.1 h
  refine ⟨?_, named_iff.1 hraw⟩
  by_contra ha
  rw [call, if_neg ha] at hr
  cases hr

theorem acquire_row (hv : pg.Valid) {auth : AuthCtx} (ha : auth.authentic pg.db = true) (pid : Nat) (raw : String)
    (ttl : Option Int) (purpose : Option String) :
    RowStep team name pg (.call auth pid (.acquireLock raw ttl purpose)) := by
  have hcall := call_acquire ha pid raw ttl purpose
  have hnext : pg.next (.call auth pid (.acquireLock raw ttl purpose)) = ((acquireLock auth raw ttl purpose).exec pg).2 := by
    rw [next, hcall]
  cases hraw : normalizeName raw with
  | error e =>
    refine .kept ?_
    rw [hnext, acquireLock, Bus.exec_bind, Bus.exec_check, hraw]
  | ok n =>
    have h := acquireLock_acquired auth pg hraw ttl purpose
    generalize hr : (acquireLock auth raw ttl purpose).exec pg = r at hcall hnext h
    by_cases hkey : (auth.teamId, n) = (team, name)
    · obtain ⟨rfl, rfl⟩ := Prod.mk.inj hkey
      cases h with
      | failed _ | refused _ _ _ => exact .kept (by rw [hnext])
      | inserted hacq hnone hlocks _ =>
        have hfind := (Db.findLock_put hv.keys hlocks auth.teamId n).trans (if_pos rfl)
        refine .inserted auth pid raw ttl purpose rfl ?_ hnone (hnext ▸ hfind)
        simp only [lockTaken, beq_self_eq_true, acquired, named_iff.2 hraw, hcall, Except.map, hacq, Bool.and_self]
      | updated hacq hl hcan hlocks _ =>
        have hfind := (Db.findLock_put hv.keys hlocks auth.teamId n).trans (if_pos rfl)
        refine .updated auth pid raw ttl purpose rfl ?_ hl hcan (hnext ▸ hfind)
        simp only [lockTaken, beq_self_eq_true, acquired, named_iff.2 hraw, hcall, Except.map, hacq, Bool.and_self]
    · -- The row of another key is put.
      cases h with
      | failed _ | refused _ _ _ => exact .kept (by rw [hnext])
      | inserted _ _ hlocks _ | updated _ _ _ hlocks _ =>
        have hfind := (Db.findLock_put hv.keys hlocks team name).trans (if_neg hkey)
        exact .kept (hnext ▸ hfind)

/-- A takeover or an extension updates the row, and queues nothing. -/
theorem acquire_updates (hv : pg.Valid) {auth : AuthCtx} (ha : auth.authentic pg.db = true) (pid : Nat) {raw : String}
    (hraw : normalizeName raw = .ok name) (ttl : Option Int) (purpose : Option String) {l : Lock}
    (hl : pg.db.findLock auth.teamId name = some l)
    (hcan : l.expiresAt < pg.now ∨ lockHeldBy auth.agentId auth.session l = true) :
    let pg' := pg.next (.call auth pid (.acquireLock raw ttl purpose))
    pg.acquired auth pid name (.acquireLock raw ttl purpose) = true ∧
      pg'.db.findLock auth.teamId name = some (takeLock (newLock auth name pg.now (ttlOf ttl) purpose) l
        (lockHeldBy auth.agentId auth.session l)) ∧ pg'.db.deliveries = pg.db.deliveries := by
  have hcall := call_acquire ha pid raw ttl purpose
  have h := acquireLock_acquired auth pg hraw ttl purpose
  generalize (acquireLock auth raw ttl purpose).exec pg = r at hcall h
  simp only [next, hcall]
  cases h with
  | failed h => exact absurd (lockOk_of_authentic ha name (ttlOf ttl)) (by simp [h])
  | inserted _ hnone _ _ => exact absurd (hl.symm.trans hnone) (by simp)
  | updated hacq hl' _ hlocks hout =>
    obtain rfl := Option.some.inj (hl.symm.trans hl')
    refine ⟨?_, ?_, hout⟩
    · simp only [acquired, named_iff.2 hraw, hcall, Except.map, hacq, Bool.and_self]
    · exact (Db.findLock_put hv.keys hlocks auth.teamId name).trans (if_pos rfl)
  | refused _ hl' hheld =>
    obtain rfl := Option.some.inj (hl.symm.trans hl')
    exact absurd hcan hheld

omit [Platform] in
theorem ownLock_iff {auth : AuthCtx} {n : String} {l : Lock} :
    ownLock auth n l = true ↔ l.teamId = auth.teamId ∧ l.name = n ∧ lockHeldBy auth.agentId auth.session l = true := by
  simp only [ownLock, Bool.and_eq_true, beq_iff_eq, and_assoc]

theorem release_row (hv : pg.Valid) {auth : AuthCtx} (ha : auth.authentic pg.db = true) (pid : Nat) (raw : String) :
    RowStep team name pg (.call auth pid (.releaseLock raw)) := by
  have hcall := call_release ha pid raw
  have hnext : pg.next (.call auth pid (.releaseLock raw)) = ((releaseLock auth raw).exec pg).2 := by
    rw [next, hcall]
  cases hraw : normalizeName raw with
  | error e =>
    refine .kept ?_
    rw [hnext, releaseLock, Bus.exec_bind, Bus.exec_check, hraw]
  | ok n =>
    have h := releaseLock_released auth hv hraw
    generalize hr : (releaseLock auth raw).exec pg = r at hcall hnext h
    cases h with
    | kept _ _ => exact .kept (by rw [hnext])
    | @gone ack pg' l hok hl hown hlocks _ =>
      have hfind : pg'.db.findLock team name = (pg.db.findLock team name).filter fun l => !ownLock auth n l := by
        rw [Db.findLock, hlocks]
        exact hv.keys.locks.find?_delete (k := (team, name)) fun l => by simp [Db.lockKey]
      obtain ⟨hteam, hname, hheld⟩ := ownLock_iff.1 hown
      by_cases hkey : (auth.teamId, n) = (team, name)
      · obtain ⟨rfl, rfl⟩ := Prod.mk.inj hkey
        refine .released auth pid raw rfl ?_ hl hheld ?_
        · simp only [lockReleased, beq_self_eq_true, named_iff.2 hraw, hcall, Except.map, hok, Bool.and_self]
        · rw [hnext, hfind, hl, Option.filter_some, hown]
          rfl
      · refine .kept ?_
        rw [hnext, hfind]
        cases hr : pg.db.findLock team name with
        | none => rfl
        | some r =>
          obtain ⟨-, hteam', hname'⟩ := Db.findLock_some hr
          have hother : ownLock auth n r = false := Bool.eq_false_iff.2 fun h => by
            obtain ⟨hteam, hname, -⟩ := ownLock_iff.1 h
            exact hkey (by rw [← hteam, ← hname, hteam', hname'])
          rw [Option.filter_some, hother]
          rfl

theorem row_step (team : Uuid) (name : String) (hv : pg.Valid) (e : Event) : RowStep team name pg e := by
  have frame : .locks ∉ e.writes → RowStep team name pg e := fun ht =>
    .kept (by rw [Db.findLock, Db.findLock,
      next_frame hv e (·.locks) fun db w hw => w.frame_locks (fun h => ht (hw h)) db])
  cases e with
  | call auth pid c =>
    by_cases ha : auth.authentic pg.db = true
    · cases c with
      | acquireLock raw ttl purpose => exact acquire_row hv ha pid raw ttl purpose
      | releaseLock raw => exact release_row hv ha pid raw
      | _ => exact frame (by simp [Event.writes, Call.writes])
    · exact .kept (by rw [next, call, if_neg ha])
  | command pid c => exact frame (by cases c <;> simp [Event.writes, Command.writes])
  | tick d => exact .kept rfl
  | _ => exact frame (by simp [Event.writes])

/-- What an event does to the cell of a lock. -/
inductive LockStep (team : Uuid) (name : String) (pg : Pg) (e : Event) : Prop
  | kept (h : (pg.next e).db.findLock team name = pg.db.findLock team name)
  | taken (auth : AuthCtx) (ttl : Option Int) (hwho : e.who = some auth.identity)
      (htaken : pg.lockTaken team name e = true) (hfree : (pg.lockCell team name).Takeable pg.now auth.identity)
      (hcell : (pg.next e).lockCell team name = .held auth.identity (some (pg.now + secs (ttlOf ttl))))
  | released (auth : AuthCtx) (expires : Option Int) (hwho : e.who = some auth.identity)
      (hreleased : pg.lockReleased team name e = true) (hcell : pg.lockCell team name = .held auth.identity expires)
      (hgone : (pg.next e).db.findLock team name = none)

omit [Platform] in
theorem lockCell_some {l : Lock} (h : pg.db.findLock team name = some l) : pg.lockCell team name = l.cell := by
  rw [lockCell, h]
  rfl

/-- Every event keeps the row of a lock, takes the lock or releases it. -/
theorem lock_step (team : Uuid) (name : String) (hv : pg.Valid) (e : Event) : LockStep team name pg e := by
  cases row_step team name hv e with
  | kept h => exact .kept h
  | inserted auth pid raw ttl purpose he htaken hnone hrow =>
    refine .taken auth ttl (he ▸ rfl) htaken ?_ (lockCell_some hrow)
    simp [lockCell, hnone, Cell.Takeable]
  | updated auth pid raw ttl purpose he htaken hl hcan hrow =>
    refine .taken auth ttl (he ▸ rfl) htaken ?_ (lockCell_some hrow)
    rw [lockCell_some hl]
    exact hcan.elim (fun h => .inr fun e he => Option.some.inj he ▸ h) fun h => .inl (lockHeldBy_iff.1 h)
  | @released auth pid raw he hreleased l hl hown hgone =>
    refine .released auth (some l.expiresAt) (he ▸ rfl) hreleased ?_ hgone
    rw [lockCell_some hl, Lock.cell, lockHeldBy_iff.1 hown]

omit [Platform] in
theorem lockCell_of_find {pg' : Pg} (h : pg'.db.findLock team name = pg.db.findLock team name) :
    pg'.lockCell team name = pg.lockCell team name := by
  simp only [lockCell, h]

/-- The server is a machine of leases on its locks. -/
theorem locks_implement (team : Uuid) (name : String) :
    Implements next Valid (·.now) (lockCell team name) Event.who fun pg e => pg.lockReleased team name e = true where
  keeps := fun _ e h => h.next e
  move := fun pg e hv => by
    cases lock_step team name hv e with
    | kept h => exact ⟨(none, ""), .stay, lockCell_of_find h ▸ .stay, by simp, by simp⟩
    | taken auth ttl hwho htaken hfree hcell =>
      exact ⟨auth.identity, .take, hcell ▸ .take hfree, fun _ _ => hwho, by simp⟩
    | released auth expires hwho hreleased hcell hgone =>
      have hfree : (pg.next e).lockCell team name = .free := by simp [lockCell, hgone]
      exact ⟨auth.identity, .release, by rw [hcell, hfree]; exact .release, fun _ _ => hwho, fun _ => hreleased⟩

/-! ### Answers -/

/-- An authenticated `acquire_lock` is answered, and it takes the lock just when it may be taken. -/
theorem acquire_answer {auth : AuthCtx} (ha : auth.authentic pg.db = true) (pid : Nat) {raw : String}
    (hraw : normalizeName raw = .ok name) (ttl : Option Int) (purpose : Option String) :
    ∃ r, (pg.call auth pid (.acquireLock raw ttl purpose)).1 = .ok (.lock r) ∧
      (r.acquired = true ↔ (pg.lockCell auth.teamId name).Takeable pg.now auth.identity) ∧
      (r.acquired = false → (pg.call auth pid (.acquireLock raw ttl purpose)).2 = pg) := by
  have hcall := call_acquire ha pid raw ttl purpose
  have h := acquireLock_acquires auth pg hraw ttl purpose
  generalize (acquireLock auth raw ttl purpose).exec pg = r at hcall h
  rw [hcall]
  cases h with
  | failed h => exact absurd (lockOk_of_authentic ha name (ttlOf ttl)) (by simp [h])
  | taken hacq hfree _ _ _ => exact ⟨_, rfl, by simp [hacq, hfree], by simp [hacq]⟩
  | refused hno hheld => exact ⟨_, rfl, by simp [hno, hheld], fun _ => rfl⟩

/-- After an answer `acquired = true` the caller holds the lock for the seconds that the server grants. -/
theorem acquired_taken (hv : pg.Valid) {auth : AuthCtx} {pid : Nat} {c : Call}
    (h : pg.acquired auth pid name c = true) :
    ∃ ttl, (pg.call auth pid c).2.lockCell auth.teamId name = .held auth.identity (some (pg.now + secs (ttlOf ttl))) := by
  cases c with
  | acquireLock raw ttl purpose =>
    obtain ⟨hraw, hr⟩ := Bool.and_eq_true_iff.1 h
    by_cases ha : auth.authentic pg.db = true
    · have hcall := call_acquire ha pid raw ttl purpose
      have ho := acquireLock_acquires auth pg (named_iff.1 hraw) ttl purpose
      generalize (acquireLock auth raw ttl purpose).exec pg = r at hcall ho
      rw [hcall] at hr ⊢
      cases ho with
      | failed _ => exact absurd hr (by simp [Except.map])
      | refused hno _ => exact absurd hr (by simp [Except.map, hno])
      | taken _ _ hkey hcell hlocks =>
        refine ⟨ttl, ?_⟩
        have hfind := Db.findLock_put hv.keys hlocks auth.teamId name
        rw [if_pos hkey] at hfind
        simp only [lockCell, hfind, Option.map_some, Option.getD_some, hcell]
    · rw [call, if_neg ha] at hr
      exact absurd hr (by simp)
  | _ => simp [acquired] at h

omit [Platform] in
theorem lockPast_iff : pg.lockPast team name = true ↔ (pg.lockCell team name).Past pg.now := by
  unfold lockPast lockCell
  cases pg.db.findLock team name with
  | none => simp [Cell.Past]
  | some l => simp [Lock.cell, Cell.Past]

omit [Platform] in
theorem lockCell_ne_closed : pg.lockCell team name ≠ .closed := by
  unfold lockCell
  cases pg.db.findLock team name <;> simp [Lock.cell]

/-- A release by another than the holder removes no row. -/
theorem release_keeps (hv : pg.Valid) {i : Identity} (hk : (pg.lockCell team name).Kept i) {auth : AuthCtx}
    (hi : auth.identity ≠ i) (pid : Nat) (raw : String) :
    (pg.call auth pid (.releaseLock raw)).2.db.findLock team name = pg.db.findLock team name := by
  cases lock_step team name hv (.call auth pid (.releaseLock raw)) with
  | kept h => exact h
  | taken _ _ _ htaken => simp [lockTaken, acquired] at htaken
  | released auth' expires hwho _ hcell _ =>
    rcases hk with h | ⟨e, h⟩
    · exact absurd h lockCell_ne_closed
    · rw [h] at hcell
      exact absurd ((Option.some.inj hwho).trans (Cell.held.inj hcell).1.symm) hi

/-- Without a further acquisition the expiry stays below what it was at the last one. -/
theorem expires_below (hv : pg.Valid) {bound : Time} (h : ∀ l ∈ pg.db.findLock team name, l.expiresAt ≤ bound)
    {es : List Event} (hrun : Runs.Along next (fun pg e => pg.lockTaken team name e = false) pg es) :
    ∀ l ∈ (pg.after es).db.findLock team name, l.expiresAt ≤ bound := by
  refine (hrun.invariant (I := fun pg : Pg => pg.Valid ∧ ∀ l ∈ pg.db.findLock team name, l.expiresAt ≤ bound)
    ⟨hv, h⟩ fun pg e hno ⟨hv, h⟩ => ⟨hv.next e, ?_⟩).2
  cases lock_step team name hv e with
  | kept hkept => rwa [hkept]
  | taken _ _ _ htaken => simp [hno] at htaken
  | released _ _ _ _ _ hgone => simp [hgone]

/-- While the expiry that `holder` got has not passed and `holder` has not released the lock, nobody else
    acquires or removes it; once it has passed, everybody can; and it passes within a day of the last
    acquisition. -/
theorem lock_exclusive {pg : Pg} (hpg : pg.Reachable) {holder : AuthCtx} {pid : Nat} {c : Call} {name : String}
    (hacq : pg.acquired holder pid name c = true) {es : List Event} {other : AuthCtx}
    (hteam : other.teamId = holder.teamId) (hauth : other.authentic ((pg.call holder pid c).2.after es).db = true)
    (pid' : Nat) {raw : String} (hraw : normalizeName raw = .ok name) (ttl : Option Int) (purpose : Option String) :
    let pg' := (pg.call holder pid c).2.after es
    (Runs.Along next (fun pg e => pg.lockPast holder.teamId name = false ∧
        ¬ (e.who = some holder.identity ∧ pg.lockReleased holder.teamId name e = true)) (pg.call holder pid c).2 es →
      pg'.lockPast holder.teamId name = false → other.identity ≠ holder.identity →
      (∃ r, (pg'.call other pid' (.acquireLock raw ttl purpose)).1 = .ok (.lock r) ∧ r.acquired = false) ∧
      (pg'.call other pid' (.acquireLock raw ttl purpose)).2.db.findLock holder.teamId name =
        pg'.db.findLock holder.teamId name ∧
      (pg'.call other pid' (.releaseLock raw)).2.db.findLock holder.teamId name =
        pg'.db.findLock holder.teamId name ∧
      ∀ e : Event, e.who ≠ some holder.identity →
        (pg'.next e).lockCell holder.teamId name = pg'.lockCell holder.teamId name) ∧
    (pg'.lockPast holder.teamId name = true →
      ∃ r, (pg'.call other pid' (.acquireLock raw ttl purpose)).1 = .ok (.lock r) ∧ r.acquired = true) ∧
    (Runs.Along next (fun pg e => pg.lockTaken holder.teamId name e = false) (pg.call holder pid c).2 es →
      ∀ l ∈ pg'.db.findLock holder.teamId name, l.expiresAt ≤ pg.now + secs maxTtlSecs) := by
  have himpl := locks_implement holder.teamId name
  have hv₁ : (pg.call holder pid c).2.Valid := (hpg.next (.call holder pid c)).valid
  obtain ⟨ttl₁, hcell⟩ := acquired_taken hpg.valid hacq
  intro pg'
  have hv : pg'.Valid := hv₁.after es
  obtain ⟨r, hr, htake, hrow⟩ := acquire_answer hauth pid' hraw ttl purpose
  rw [hteam] at htake
  refine ⟨fun hrun hnow hother => ?_, fun hpast => ?_, fun hrun => ?_⟩
  · obtain ⟨-, hk⟩ := himpl.kept hv₁ (.inr ⟨_, hcell⟩) (hrun.imp fun s e h => ⟨fun hp => by simp [lockPast_iff.2 hp] at h, h.2⟩)
    have hp : ¬ (pg'.lockCell holder.teamId name).Past pg'.now := fun hp => by simp [lockPast_iff.2 hp] at hnow
    have hno : r.acquired = false := Bool.eq_false_iff.2 fun h => hk.not_takeable hp hother (htake.1 h)
    refine ⟨⟨r, hr, hno⟩, by rw [hrow hno], release_keeps hv hk hother pid' raw, fun e he => ?_⟩
    exact (himpl.other hv hk hp he).resolve_right lockCell_ne_closed
  · refine ⟨r, hr, htake.2 ?_⟩
    have hp := lockPast_iff.1 hpast
    unfold Cell.Past at hp
    split at hp
    · next owner e hcell => exact hcell ▸ .inr fun e' he' => Option.some.inj he' ▸ hp
    · exact hp.elim
  · refine expires_below hv₁ (fun l hl => ?_) hrun
    have hl' : Lock.cell l = .held holder.identity (some (pg.now + secs (ttlOf ttl₁))) := by
      rw [← hcell, lockCell, hl]
      rfl
    have hle : ttlOf ttl₁ ≤ maxTtlSecs := clamp_le (by decide)
    have : l.expiresAt = pg.now + secs (ttlOf ttl₁) := Option.some.inj (Cell.held.inj hl').2
    rw [this]
    exact Int.add_le_add_left (Int.mul_le_mul_of_nonneg_right hle (by decide)) pg.now

end

section
open Sample
attribute [local instance] Platform.ascii

/-- Ann extends her lock while bob waits for it. -/
def lockContention : List Event :=
  [.call bob 0 (.acquireLock "deploy" none none), .tick 4000000, .call ann 0 (.acquireLock " Deploy " (some (-1)) none),
   .tick 4000000]

/-- Bob is refused, even eight seconds after ann asked for no time at all. -/
theorem lock_exclusive_contention :
    let pg := ((Pg.init 0).after crew).call ann 0 (.acquireLock "deploy" (some 0) none)
    ∃ r, ((pg.2.after lockContention).call bob 0 (.acquireLock "deploy" none none)).1 = .ok (.lock r) ∧
      r.acquired = false :=
  ((@lock_exclusive Platform.ascii ((Pg.init 0).after crew) ((Reachable.init 0).after _) ann 0
    (.acquireLock "deploy" (some 0) none) "deploy" (by decide) lockContention bob rfl (by decide) 0 "deploy" (by decide)
    none none).1 (by decide) (by decide) (by decide)).1

end
end Pg
end CrewSync
